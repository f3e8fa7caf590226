import NdpSim.Isa.Integers
import NdpSim.Library.Folds
import Mathlib.Data.BitVec

/-!
# Integer reductions

`VREDSUM`, `VREDMAX`, `VREDMIN` and `VREDOR` fold a vector into element 0 of another one. Only
`VREDMIN` looks at the mask, and it folds nothing without one; `VREDOR` is the logical or.
-/
namespace NdpSim

open Library

inductive Reduction
  | sum | max | min | or
  deriving DecidableEq

namespace Reduction

def opcode : Reduction → Opcode
  | sum => .vredsum
  | max => .vredmax
  | min => .vredmin
  | or => .vredor

variable {w : Nat}

/-- The operation that is to be folded. -/
def op : Reduction → BitVec w → BitVec w → BitVec w
  | sum, a, b => a + b
  | max, a, b => if a.slt b then b else a
  | min, a, b => if b.slt a then b else a
  | or, a, b => a ||| b

/-- The operation the code folds. -/
def folded : Reduction → BitVec w → BitVec w → BitVec w
  | or, a, b => if a ≠ 0 ∨ b ≠ 0 then 1 else 0
  | r, a, b => r.op a b

/-- Folding the numbers into `b` leaves it as it is. -/
def Absorbs : Reduction → BitVec w → List (BitVec w) → Prop
  | sum, _, xs => xs.sum = 0
  | max, b, xs => ∀ x ∈ xs, x.toInt ≤ b.toInt
  | min, b, xs => ∀ x ∈ xs, b.toInt ≤ x.toInt
  | or, b, xs => ∀ x ∈ xs, b ||| x = b

theorem toInt_max (a b : BitVec w) : (max.op a b).toInt = Max.max a.toInt b.toInt := by
  simp only [op, BitVec.slt_iff_toInt_lt]
  split <;> omega

theorem toInt_min (a b : BitVec w) : (min.op a b).toInt = Min.min a.toInt b.toInt := by
  simp only [op, BitVec.slt_iff_toInt_lt]
  split <;> omega

section Laws

variable (r : Reduction)

theorem op_comm (a b : BitVec w) : r.op a b = r.op b a := by
  cases r with
  | sum => exact BitVec.add_comm a b
  | max => exact BitVec.eq_of_toInt_eq (by rw [toInt_max, toInt_max, Int.max_comm])
  | min => exact BitVec.eq_of_toInt_eq (by rw [toInt_min, toInt_min, Int.min_comm])
  | or => exact BitVec.or_comm a b

theorem op_assoc (a b c : BitVec w) : r.op (r.op a b) c = r.op a (r.op b c) := by
  cases r with
  | sum => exact BitVec.add_assoc a b c
  | max => exact BitVec.eq_of_toInt_eq (by simp only [toInt_max, Int.max_assoc])
  | min => exact BitVec.eq_of_toInt_eq (by simp only [toInt_min, Int.min_assoc])
  | or => exact BitVec.or_assoc a b c

theorem op_self (h : r ≠ sum) (a : BitVec w) : r.op a a = a := by
  cases r with
  | sum => exact absurd rfl h
  | max => exact ite_self a
  | min => exact ite_self a
  | or => exact BitVec.or_self

instance : RightCommutative (r.op : BitVec w → _) where
  right_comm a b c := by rw [r.op_assoc, r.op_comm b c, ← r.op_assoc]

theorem op_eq_left_iff (h : r ≠ sum) {b x : BitVec w} : r.op b x = b ↔ r.Absorbs b [x] := by
  cases r with
  | sum => exact absurd rfl h
  | max => rw [← BitVec.toInt_inj, toInt_max, Absorbs, List.forall_mem_singleton, max_eq_left_iff]
  | min => rw [← BitVec.toInt_inj, toInt_min, Absorbs, List.forall_mem_singleton, min_eq_left_iff]
  | or => rw [Absorbs, List.forall_mem_singleton]; rfl

theorem foldl_op_eq_self_iff {xs : List (BitVec w)} {b : BitVec w} :
    xs.foldl r.op b = b ↔ r.Absorbs b xs := by
  by_cases h : r = sum
  · subst h
    exact foldl_add_eq_self_iff (α := BitVec w)
  · have : Std.Associative (r.op : BitVec w → _) := ⟨r.op_assoc⟩
    have : Std.Commutative (r.op : BitVec w → _) := ⟨r.op_comm⟩
    have : Std.IdempotentOp (r.op : BitVec w → _) := ⟨r.op_self h⟩
    rw [foldl_eq_self_iff]
    simp only [r.op_eq_left_iff h]
    cases r <;> first | exact absurd rfl h | simp [Absorbs]

end Laws

theorem foldl_folded_or_of_zero {xs : List (BitVec w)} {b : BitVec w}
    (h : ∀ x ∈ b :: xs, x = 0) : xs.foldl or.folded b = 0 := by
  induction xs generalizing b with
  | nil => exact h b List.mem_cons_self
  | cons x xs ih =>
    obtain ⟨hb, hx, hxs⟩ := by simpa only [List.forall_mem_cons] using h
    have hstep : or.folded b x = 0 := if_neg (not_or.mpr ⟨not_not.mpr hb, not_not.mpr hx⟩)
    rw [List.foldl_cons]
    exact ih (List.forall_mem_cons.mpr ⟨hstep, hxs⟩)

/-- The fold of the logical or tells only that there is a number other than zero. -/
theorem foldl_folded_or_of_exists {xs : List (BitVec w)} {b : BitVec w} (hne : xs ≠ [])
    (h : ¬ ∀ x ∈ b :: xs, x = 0) : xs.foldl or.folded b = 1 := by
  induction xs generalizing b with
  | nil => exact absurd rfl hne
  | cons x xs ih =>
    have hw : w ≠ 0 := by
      rintro rfl
      exact h fun x _ => Subsingleton.elim x 0
    have hone : (1 : BitVec w) ≠ 0 := by
      intro h
      have htoNat := congrArg BitVec.toNat h
      simp [hw] at htoNat
    rw [List.foldl_cons]
    by_cases hstep : b ≠ 0 ∨ x ≠ 0
    · have hfolded : or.folded b x = 1 := if_pos hstep
      rw [hfolded]
      by_cases hxs : xs = []
      · rw [hxs, List.foldl_nil]
      · exact ih hxs fun hall => hone (hall 1 List.mem_cons_self)
    · have hfolded : or.folded b x = 0 := if_neg hstep
      have hrest : ¬ ∀ y ∈ xs, y = 0 := by
        intro hall
        obtain ⟨hb, hx⟩ := not_or.mp hstep
        exact h (List.forall_mem_cons.mpr
          ⟨not_not.mp hb, List.forall_mem_cons.mpr ⟨not_not.mp hx, hall⟩⟩)
      rw [hfolded]
      refine ih (fun hnil => hrest (by simp [hnil])) fun hall => hrest fun y hy => ?_
      exact hall y (List.mem_cons_of_mem _ hy)

theorem foldl_or_eq_zero {xs : List (BitVec w)} {b : BitVec w} :
    xs.foldl or.op b = 0 ↔ ∀ x ∈ b :: xs, x = 0 := by
  induction xs generalizing b with
  | nil => simp
  | cons x xs ih =>
    rw [List.foldl_cons, ih, List.forall_mem_cons, List.forall_mem_cons, List.forall_mem_cons,
      ← and_assoc]
    exact and_congr_left' BitVec.or_eq_zero_iff

end Reduction

/-! ## What the instructions compute -/

namespace VectorData

variable [FloatOps]

/-- The loop folds the numbers of its lanes. -/
theorem reduce_eq {c : CSR} {t : IntType} {vs1 vs2 : VectorData} (hv1 : BuiltFor c vs1)
    (ht1 : vs1.type = t.type) (hv2 : BuiltFor c vs2) (ht2 : vs2.type = t.type)
    (hpos : 0 < vs2.vlen) {step : Elem → Elem → Except Fault Elem}
    {f : BitVec t.bits → BitVec t.bits → BitVec t.bits}
    (hstep : ∀ a b, (step (t.elem a) (t.elem b) >>= Elem.cast t.type) = .ok (t.elem (f a b)))
    {active : Nat → Except Fault Bool} {p : Nat → Bool}
    (hactive : ∀ i < vs1.vlen, active i = .ok (p i)) {is : List Nat}
    (his : ∀ i ∈ is, i < vs1.vlen) :
    reduce t.type step active is vs1 vs2 =
      .ok (t.elem (((is.filter p).map (vs1.int t)).foldl f (vs2.int t 0))) := by
  rw [reduce, get_int hv2 ht2 hpos]
  change List.foldlM _ (t.elem (vs2.int t 0)) is = _
  generalize vs2.int t 0 = b
  induction is generalizing b with
  | nil => rfl
  | cons i is ih =>
    have hi := his i List.mem_cons_self
    have hrest := fun b => ih (fun j hj => his j (List.mem_cons_of_mem _ hj)) b
    rw [List.foldlM_cons, hactive i hi]
    cases hp : p i with
    | false =>
      rw [List.filter_cons_of_neg (by simp [hp])]
      exact hrest b
    | true =>
      rw [List.filter_cons_of_pos hp, List.map_cons, List.foldl_cons, ← hrest]
      change (vs1.get t.type i >>= fun e => step (t.elem b) e >>= Elem.cast t.type) >>= _ = _
      rw [get_int hv1 ht1 hi]
      change (step (t.elem b) (t.elem _) >>= Elem.cast t.type) >>= _ = _
      rw [hstep]
      rfl

theorem reduceInto_spec {c : CSR} {t : IntType} {vs1 vs2 : VectorData} (hv1 : BuiltFor c vs1)
    (ht1 : vs1.type = t.type) (hv2 : BuiltFor c vs2) (ht2 : vs2.type = t.type)
    (hpos : 0 < vs2.vlen) {step : Elem → Elem → Except Fault Elem}
    {f : BitVec t.bits → BitVec t.bits → BitVec t.bits}
    (hstep : ∀ a b, (step (t.elem a) (t.elem b) >>= Elem.cast t.type) = .ok (t.elem (f a b)))
    {active : Nat → Except Fault Bool} {p : Nat → Bool}
    (hactive : ∀ i < vs1.vlen, active i = .ok (p i)) :
    ∃ vd, reduceInto c step active vs1 vs2 = .ok vd ∧ vd.type = t.type ∧
      vd.get t.type 0 = .ok (t.elem
        ((((lanes c.vstart vs1.vlen).filter p).map (vs1.int t)).foldl f (vs2.int t 0))) := by
  have hmem := mem_elementTypes hv2 ht2
  have hkind : reductionTypes.contains vs2.type = true := by
    rw [ht2]
    cases t <;> rfl
  have hreduce := reduce_eq hv1 ht1 hv2 ht2 hpos hstep hactive
    (fun i hi => (mem_lanes.mp hi).2.2 : ∀ i ∈ lanes c.vstart vs1.vlen, i < vs1.vlen)
  set r := (((lanes c.vstart vs1.vlen).filter p).map (vs1.int t)).foldl f (vs2.int t 0)
  obtain ⟨vd, hvd, hset⟩ := setData_spec (v := ofContext c) (e := t.elem r) (i := 0)
    (by rw [t.type_elem]; exact room_ofContext hmem (hv2.vlen ▸ hpos))
  have hstored : (t.elem r).stored = t.elem r := by cases t <;> rfl
  refine ⟨vd, ?_, hset.type.trans (t.type_elem r), ?_⟩
  · rw [reduceInto, if_pos hkind, ht2, hreduce]
    exact hvd
  · have hself := hset.self
    rwa [t.type_elem, hstored] at hself

/-- An empty vector has no element 0 to set. -/
theorem reduceInto_error {c : CSR} (hempty : (ofContext c).vlen = 0)
    (step : Elem → Elem → Except Fault Elem) (active : Nat → Except Fault Bool)
    (vs1 vs2 : VectorData) : ∃ f, reduceInto c step active vs1 vs2 = .error f := by
  rw [reduceInto]
  split
  · cases reduce vs2.type step active (lanes c.vstart vs1.vlen) vs1 vs2 with
    | error f => exact ⟨f, rfl⟩
    | ok e =>
      refine setData_of_not_room fun hroom => ?_
      rw [Room, hempty] at hroom
      split at hroom
      · exact absurd hroom.1 (Nat.not_lt_zero _)
      · exact absurd hroom.1 (Nat.not_lt_zero _)
  · split
    · exact ⟨_, rfl⟩
    · exact ⟨_, rfl⟩

end VectorData

namespace Reduction

variable [FloatOps]

/-- The operation on elements. -/
def step : Reduction → Elem → Elem → Except Fault Elem
  | sum => Elem.add
  | max => maxElem
  | min => minElem
  | or => orElem

theorem step_cast (r : Reduction) (t : IntType) (a b : BitVec t.bits) :
    (r.step (t.elem a) (t.elem b) >>= Elem.cast t.type) = .ok (t.elem (r.folded a b)) := by
  have hlt (a b : BitVec t.bits) :
      logicalOperate .lt (t.elem a) (t.elem b) = decide (a.toInt < b.toInt) := by
    cases t <;> rfl
  cases r with
  | sum =>
    change (Elem.binary _ _ (fun _ m n => .ok (m + n)) _ _ >>= Elem.cast t.type) = _
    rw [t.binary_cast _ _ (· + ·) _ (t.isFloating_elem b), t.toInteger_elem, BitVec.ofInt_add,
      BitVec.ofInt_toInt, BitVec.ofInt_toInt]
    rfl
  | max =>
    change Elem.cast t.type (if _ then _ else _) = _
    rw [hlt, ← apply_ite t.elem, t.cast_elem]
    simp only [folded, op, BitVec.slt_iff_toInt_lt, decide_eq_true_eq]
  | min =>
    change Elem.cast t.type (if _ then _ else _) = _
    rw [hlt, ← apply_ite t.elem, t.cast_elem]
    simp only [folded, op, BitVec.slt_iff_toInt_lt, decide_eq_true_eq]
  | or =>
    change (orElem _ _ >>= Elem.cast t.type) = _
    rw [orElem, t.cast_bool, t.cast_bool]
    change Elem.cast t.type (.bool (_ || _)) = _
    rw [t.bool_cast, folded]
    simp

end Reduction

namespace Operands

open VectorData Slot

/-- The mask, if there is one, does not turn the lane off. -/
def active (o : Operands) (i : Nat) : Bool :=
  o.field (src 2) == -1 || (o.v (src 2)).maskBit i

/-- The lanes from `vstart` on that are active, or those that are not. -/
def lanesThatAre (o : Operands) (on : Bool) : List Nat :=
  (List.range (o.v (src 0)).vlen).filter fun i => decide (o.csr.vstart ≤ i) && o.active i == on

variable [FloatOps] (o : Operands) (r : Reduction) (t : IntType)

def start : BitVec t.bits := (o.v (src 1)).int t 0

def activeInts : List (BitVec t.bits) := (o.lanesThatAre true).map ((o.v (src 0)).int t)

def inactiveInts : List (BitVec t.bits) := (o.lanesThatAre false).map ((o.v (src 0)).int t)

/-- The fold over the start and the active elements. -/
def reduced : BitVec t.bits := (o.activeInts t).foldl r.op (o.start t)

/-- Element 0 of the result is the fold. -/
structure Reduces (vd : VectorData) : Prop where
  type : vd.type = t.type
  first : vd.get t.type 0 = .ok (t.elem (o.reduced r t))

/-- The vectors and the mask of a reduction. -/
structure Reducible : Prop where
  source : BuiltFor o.csr (o.v (src 0))
  sourceType : (o.v (src 0)).type = t.type
  scalar : BuiltFor o.csr (o.v (src 1))
  scalarType : (o.v (src 1)).type = t.type
  mask : o.field (src 2) ≠ -1 → BuiltFor o.csr (o.v (src 2)) ∧ (o.v (src 2)).type = .vmask

/-- The code folds no lane at all. -/
def FoldsNothing : Prop := o.csr.vstart < 0 ∨ (r = .min ∧ o.field (src 2) = -1)

instance : Decidable (o.FoldsNothing r) := by
  unfold FoldsNothing
  infer_instance

/-- What is left out, folded in without need, or folded with another operation makes no
difference. -/
def FoldsRight : Prop :=
  if o.FoldsNothing r then r.Absorbs (o.start t) (o.activeInts t)
  else
    match r with
    | .min => True
    | .or => o.activeInts t ++ o.inactiveInts t = [] ∨ o.reduced .or t = 1 ∨
        (o.reduced .or t = 0 ∧ ∀ x ∈ o.inactiveInts t, x = 0)
    | r => r.Absorbs (o.reduced r t) (o.inactiveInts t)

/-- The lanes whose elements the code folds. -/
def foldedLanes : List Nat :=
  (lanes o.csr.vstart (o.v (src 0)).vlen).filter fun i =>
    r != .min || (o.field (src 2) != -1 && (o.v (src 2)).maskBit i)

/-- What the code leaves in element 0. -/
def foldedInts : BitVec t.bits :=
  ((o.foldedLanes r).map ((o.v (src 0)).int t)).foldl r.folded (o.start t)

variable {o r t}

theorem result_reduction {op : Opcode} {what : String} {step : Elem → Elem → Except Fault Elem}
    (hop : (op.checkCsrOp || op.checkVectorOp || op.checkSegOp) = true)
    (hbranch : op.checkBranchOp = false) (hexit : op ≠ .exit)
    (hk : executeVectorOp op .vs 0 = executeReduction what step .vs) :
    o.result op .vs = some <$>
      reduceInto o.csr step (fun _ => .ok true) (o.v (src 0)) (o.v (src 1)) := by
  refine result_of_run hop hbranch hexit hk ?_
  simp only [executeReduction, run_csr_bind, ne_eq, not_true_eq_false, if_false, run_readV_bind,
    run_liftM_bind]
  rfl

theorem result_vredmin (hm : o.field (src 2) ≠ -1 → (o.v (src 2)).type = .vmask) :
    o.result .vredmin .vs = some <$> reduceInto o.csr minElem
      (fun i => if o.field (src 2) != -1 then (o.v (src 2)).getVmaskData i else .ok false)
      (o.v (src 0)) (o.v (src 1)) := by
  refine result_of_run (k := executeVredmin .vs) rfl rfl nofun rfl ?_
  simp only [executeVredmin, run_csr_bind, ne_eq, not_true_eq_false, if_false, run_readV_bind,
    run_maskOperand_bind]
  by_cases hfield : o.field (src 2) = -1
  · have hpresent : (o.field (src 2) != -1) = false := bne_eq_false_iff_eq.mpr hfield
    simp only [hpresent, Bool.false_eq_true, if_false, Bool.false_and, run_liftM_bind]
    rfl
  · have hpresent : (o.field (src 2) != -1) = true := bne_iff_ne.mpr hfield
    have htype : ((o.v (src 2)).type != .vmask) = false := bne_eq_false_iff_eq.mpr (hm hfield)
    simp only [hpresent, htype, Bool.false_eq_true, if_true, if_false, Bool.and_false,
      run_liftM_bind]
    rfl

theorem exists_result (h : o.Reducible t) :
    ∃ active : Nat → Except Fault Bool,
      (∀ i < (o.v (src 0)).vlen, active i =
        .ok (r != .min || (o.field (src 2) != -1 && (o.v (src 2)).maskBit i))) ∧
      o.result r.opcode .vs = some <$>
        reduceInto o.csr r.step active (o.v (src 0)) (o.v (src 1)) := by
  cases r with
  | sum => exact ⟨_, fun _ _ => rfl, result_reduction rfl rfl nofun rfl⟩
  | max => exact ⟨_, fun _ _ => rfl, result_reduction rfl rfl nofun rfl⟩
  | or => exact ⟨_, fun _ _ => rfl, result_reduction rfl rfl nofun rfl⟩
  | min =>
    refine ⟨_, fun i hi => ?_, result_vredmin fun hfield => (h.mask hfield).2⟩
    by_cases hfield : o.field (src 2) = -1
    · simp [hfield]
    · have hlt : i < (o.v (src 2)).vlen := by
        rw [(h.mask hfield).1.vlen, ← h.source.vlen]
        exact hi
      simp [hfield, (h.mask hfield).1.getVmaskData hlt]

/-- The instruction does what it is to do if the two folds agree. -/
theorem yields_reduces_iff (h : o.Reducible t) :
    o.Yields r.opcode .vs (o.Reduces r t) ↔
      0 < (o.v (src 0)).vlen ∧ o.foldedInts r t = o.reduced r t := by
  obtain ⟨active, hactive, hresult⟩ := exists_result (r := r) h
  rw [yields_iff hresult]
  have hlen : (o.v (src 0)).vlen = (ofContext o.csr).vlen := h.source.vlen
  by_cases hpos : 0 < (o.v (src 0)).vlen
  · obtain ⟨vd, hvd, htype, hfirst⟩ := reduceInto_spec h.source h.sourceType h.scalar h.scalarType
      (by rw [h.scalar.vlen, ← hlen]; exact hpos) (r.step_cast t) hactive
    constructor
    · rintro ⟨vd', hvd', hspec⟩
      obtain rfl := Except.ok.inj (hvd.symm.trans hvd')
      exact ⟨hpos, t.elem_injective (Except.ok.inj (hfirst.symm.trans hspec.first))⟩
    · rintro ⟨-, heq⟩
      exact ⟨vd, hvd, htype, hfirst.trans (congrArg (fun x => Except.ok (t.elem x)) heq)⟩
  · refine ⟨?_, fun hsome => absurd hsome.1 hpos⟩
    rintro ⟨vd, hvd, -⟩
    obtain ⟨f, hf⟩ := reduceInto_error (c := o.csr) (by omega) r.step active (o.v (src 0))
      (o.v (src 1))
    cases hvd.symm.trans hf

/-- From a `vstart` that is not negative the loop visits the active lanes and the others. -/
theorem perm_lanes (h : 0 ≤ o.csr.vstart) :
    ((lanes o.csr.vstart (o.v (src 0)).vlen).map ((o.v (src 0)).int t)).Perm
      (o.activeInts t ++ o.inactiveInts t) := by
  have hfilter (on : Bool) : o.lanesThatAre on =
      (lanes o.csr.vstart (o.v (src 0)).vlen).filter (fun i => o.active i == on) := by
    rw [lanes_eq_filter h, List.filter_filter]
    exact List.filter_congr fun i _ => Bool.and_comm ..
  rw [activeInts, inactiveInts, ← List.map_append, hfilter, hfilter]
  have hsplit := List.filter_append_perm o.active (lanes o.csr.vstart (o.v (src 0)).vlen)
  simp only [beq_true, beq_false]
  exact hsplit.symm.map _

theorem foldedInts_of_nothing (h : o.FoldsNothing r) : o.foldedInts r t = o.start t := by
  have hnil : o.foldedLanes r = [] := by
    rw [foldedLanes]
    rcases h with hneg | ⟨rfl, hfield⟩
    · rw [lanes, if_pos hneg, List.filter_nil]
    · rw [List.filter_eq_nil_iff]
      intro i _
      simp [hfield]
  rw [foldedInts, hnil]
  rfl

omit [FloatOps] in
theorem foldedLanes_eq (h : r ≠ .min) :
    o.foldedLanes r = lanes o.csr.vstart (o.v (src 0)).vlen := by
  rw [foldedLanes, List.filter_eq_self]
  intro i _
  rw [bne_iff_ne.mpr h, Bool.true_or]

/-- A sum or a maximum over all lanes. -/
theorem foldedInts_all (h : 0 ≤ o.csr.vstart) (hmin : r ≠ .min) (hor : r ≠ .or) :
    o.foldedInts r t = (o.inactiveInts t).foldl r.op (o.reduced r t) := by
  have hop : (r.folded : BitVec t.bits → _) = r.op := by
    cases r <;> first | rfl | exact absurd rfl hor
  rw [foldedInts, foldedLanes_eq hmin, hop, (perm_lanes h).foldl_eq, List.foldl_append]
  rfl

/-- With a mask `VREDMIN` folds the active lanes. -/
theorem foldedInts_min (h : 0 ≤ o.csr.vstart) (hfield : o.field (src 2) ≠ -1) :
    o.foldedInts .min t = o.reduced .min t := by
  have hlanes : o.foldedLanes .min = o.lanesThatAre true := by
    rw [foldedLanes, lanesThatAre, lanes_eq_filter h, List.filter_filter]
    refine List.filter_congr fun i _ => ?_
    have hpresent : (o.field (src 2) == -1) = false := beq_eq_false_iff_ne.mpr hfield
    simp only [active, bne, hpresent, beq_self_eq_true, Bool.not_true, Bool.not_false,
      Bool.false_or, Bool.true_and, beq_true, Bool.and_comm]
  rw [foldedInts, hlanes]
  rfl

theorem foldedInts_or_iff (h : 0 ≤ o.csr.vstart) :
    o.foldedInts .or t = o.reduced .or t ↔
      o.activeInts t ++ o.inactiveInts t = [] ∨ o.reduced .or t = 1 ∨
        (o.reduced .or t = 0 ∧ ∀ x ∈ o.inactiveInts t, x = 0) := by
  have hperm := perm_lanes (t := t) h
  rw [foldedInts, foldedLanes_eq (by decide)]
  set xs := (lanes o.csr.vstart (o.v (src 0)).vlen).map ((o.v (src 0)).int t)
  by_cases hnil : xs = []
  · have hboth : o.activeInts t ++ o.inactiveInts t = [] := by
      rw [hnil] at hperm
      exact hperm.nil_eq.symm
    have hactive : o.activeInts t = [] := (List.append_eq_nil_iff.mp hboth).1
    refine iff_of_true ?_ (.inl hboth)
    rw [hnil, reduced, hactive]
    rfl
  · have hboth : o.activeInts t ++ o.inactiveInts t ≠ [] := by
      intro hboth
      rw [hboth] at hperm
      exact hnil hperm.eq_nil
    have hzero : (∀ x ∈ o.start t :: xs, x = 0) ↔
        o.reduced .or t = 0 ∧ ∀ x ∈ o.inactiveInts t, x = 0 := by
      rw [reduced, Reduction.foldl_or_eq_zero, List.forall_mem_cons, List.forall_mem_cons,
        and_assoc, ← List.forall_mem_append]
      simp only [hperm.mem_iff]
    rw [or_iff_right hboth]
    by_cases hall : ∀ x ∈ o.start t :: xs, x = 0
    · rw [Reduction.foldl_folded_or_of_zero hall]
      exact iff_of_true (hzero.mp hall).1.symm (.inr (hzero.mp hall))
    · rw [Reduction.foldl_folded_or_of_exists hnil hall,
        or_iff_left (fun h => hall (hzero.mpr h)), eq_comm]

theorem foldedInts_eq_reduced_iff : o.foldedInts r t = o.reduced r t ↔ o.FoldsRight r t := by
  unfold FoldsRight
  split
  case isTrue hnothing =>
    rw [foldedInts_of_nothing hnothing, reduced, eq_comm]
    exact r.foldl_op_eq_self_iff
  case isFalse hsome =>
    obtain ⟨hstart, hmask⟩ := not_or.mp hsome
    rw [Int.not_lt] at hstart
    cases r with
    | sum =>
      rw [foldedInts_all hstart (by decide) (by decide)]
      exact Reduction.foldl_op_eq_self_iff _
    | max =>
      rw [foldedInts_all hstart (by decide) (by decide)]
      exact Reduction.foldl_op_eq_self_iff _
    | min => exact iff_of_true (foldedInts_min hstart fun h => hmask ⟨rfl, h⟩) trivial
    | or => exact foldedInts_or_iff hstart

/-- The sum and the maximum are right if the lanes the mask turns off make no difference, the
minimum if there is a mask, and the bitwise or if it is 0 or 1. -/
theorem reduction_iff (h : o.Reducible t) :
    o.Yields r.opcode .vs (o.Reduces r t) ↔
      0 < (o.v (src 0)).vlen ∧ o.FoldsRight r t := by
  rw [yields_reduces_iff h, foldedInts_eq_reduced_iff]

/-- The numbers from 1 to 8 and the start 5, without a mask. -/
def countingFromFive : Operands where
  v s := if s = src 1 then { counting with data := 5 :: counting.data.tail } else counting

omit [FloatOps] in
theorem reducible_countingFromFive : countingFromFive.Reducible .int32 :=
  ⟨builtFor_counting, rfl, ⟨by decide, rfl, rfl, rfl⟩, rfl, fun h => absurd rfl h⟩

omit [FloatOps] in
theorem reduces_sum_countingFromFive : letI := FloatOps.zero
    countingFromFive.Yields .vredsum .vs (countingFromFive.Reduces .sum .int32) :=
  let _ := FloatOps.zero
  (reduction_iff (r := .sum) reducible_countingFromFive).mpr ⟨by decide, by
    unfold FoldsRight
    rw [if_neg (by decide)]
    exact (rfl : List.sum [] = (0 : BitVec 32))⟩

omit [FloatOps] in
/-- The minimum without a mask is the start. -/
theorem not_reduces_min_countingFromFive : letI := FloatOps.zero
    countingFromFive.Reducible .int32 ∧
    ¬ countingFromFive.Yields .vredmin .vs (countingFromFive.Reduces .min .int32) := by
  let _ := FloatOps.zero
  refine ⟨reducible_countingFromFive, fun h => ?_⟩
  have heq := ((yields_reduces_iff (r := .min) reducible_countingFromFive).mp h).2
  exact absurd heq (by decide +kernel)

end Operands

end NdpSim
