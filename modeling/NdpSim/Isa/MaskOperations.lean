import NdpSim.Isa.Masks

/-!
# Mask operations

The comparisons, the logic of masks, `VMSET`, and `VFIRST` on what they leave. A comparison
reads both vectors at the type of the first and reduces a scalar to that type.
-/
namespace NdpSim

open Library Exec Slot VectorData

/-! ## Comparisons -/

namespace LogicalOp

def opcode : LogicalOp → Opcode
  | eq => .vmseq
  | ne => .vmsne
  | lt => .vmslt
  | le => .vmsle
  | gt => .vmsgt
  | ge => .vmsge

/-- The comparison of two numbers. -/
def compare (op : LogicalOp) (m n : Int) : Bool :=
  match op with
  | .eq => m = n
  | .ne => m ≠ n
  | .lt => m < n
  | .le => m ≤ n
  | .gt => n < m
  | .ge => n ≤ m

theorem operate_eq (op : LogicalOp) (m n : Int) :
    op.operate (m < n) (n < m) (m == n) = op.compare m n := by
  rw [Bool.eq_iff_iff]
  cases op <;> simp only [operate, compare, Bool.or_eq_true, Bool.not_eq_true', beq_iff_eq,
    beq_eq_false_iff_ne, decide_eq_true_eq] <;> omega

end LogicalOp

theorem logicalOperate_integer [FloatOps] {t : DataType} (ht : integerTypes.contains t = true)
    (op : LogicalOp) {a : Elem} (ha : a.type = t) (b : Elem) :
    logicalOperate op a b = op.compare a.toInteger b.toInteger := by
  rw [← op.operate_eq]
  subst ha
  cases a <;> first | rfl | cases ht

/-- The number a scalar is reduced to when it meets elements of an integer type. -/
def reducedTo (t : DataType) (x : BitVec 64) : Int :=
  match t with
  | .int32 => (x.setWidth 32).toInt
  | .int16 => (x.setWidth 16).toInt
  | .char8 => (x.setWidth 8).toInt
  | .uint8 => (x.setWidth 8).toNat
  | .bool => if x = 0 then 0 else 1
  | _ => x.toInt

theorem cast_long_integer [FloatOps] {t : DataType} (ht : integerTypes.contains t = true)
    (x : BitVec 64) :
    ∃ e, Elem.cast t (.long x) = .ok e ∧ e.type = t ∧ e.toInteger = reducedTo t x := by
  have hcut {n : Nat} (hn : n ≤ 64) : BitVec.ofInt n x.toInt = x.setWidth n :=
    BitVec.signExtend_eq_setWidth_of_le x hn
  cases t with
  | int64 => exact ⟨_, rfl, rfl, congrArg BitVec.toInt BitVec.ofInt_toInt⟩
  | int32 => exact ⟨_, rfl, rfl, congrArg BitVec.toInt (hcut (by decide))⟩
  | int16 => exact ⟨_, rfl, rfl, congrArg BitVec.toInt (hcut (by decide))⟩
  | char8 => exact ⟨_, rfl, rfl, congrArg BitVec.toInt (hcut (by decide))⟩
  | uint8 => exact ⟨_, rfl, rfl, congrArg (fun y : BitVec 8 => (y.toNat : Int)) (hcut (by decide))⟩
  | bool =>
    refine ⟨_, rfl, rfl, ?_⟩
    have hzero : x.toInt = 0 ↔ x = 0 := by
      rw [← BitVec.toInt_inj]
      rfl
    by_cases hx : x = 0 <;> simp [Elem.toInteger, Elem.isFloating, reducedTo, hzero, hx]
  | float16 | float32 | vmask | maxDataType => cases ht

/-! ## The operations -/

/-- The operand forms of a comparison. -/
inductive CompareForm
  | vv | vx | vi
  deriving DecidableEq

inductive MaskOp
  | compare (logical : LogicalOp) (form : CompareForm)
  | vmand | vmor | vmset
  deriving DecidableEq

namespace MaskOp

def opcode : MaskOp → Opcode
  | compare logical _ => logical.opcode
  | vmand => .vmand
  | vmor => .vmor
  | vmset => .vmset

def operandType : MaskOp → OperandType
  | compare _ .vv => .vv
  | compare _ .vx => .vx
  | compare _ .vi => .vi
  | vmand | vmor => .mm
  | vmset => .m

/-- The logic of masks sets the type of its result by itself. -/
def retypes : MaskOp → Bool
  | vmand | vmor => true
  | _ => false

/-- The operands have the length of the settings: integer vectors for a comparison, masks for the
logic of masks. -/
def Reads (op : MaskOp) (o : Operands) : Prop :=
  match op with
  | compare _ form => BuiltFor o.csr (o.v (src 0)) ∧
      integerTypes.contains (o.v (src 0)).type = true ∧
      (form = .vv → BuiltFor o.csr (o.v (src 1)))
  | vmand | vmor => BuiltFor o.csr (o.v (src 0)) ∧ (o.v (src 0)).type = .vmask ∧
      BuiltFor o.csr (o.v (src 1)) ∧ (o.v (src 1)).type = .vmask
  | vmset => True

/-- The right side of a comparison in lane `i`, as elements of type `t`. -/
def rhs [FloatOps] (o : Operands) (t : DataType) (i : Nat) : CompareForm → Int
  | .vv => ((o.v (src 1)).elem t i).toInteger
  | .vx => reducedTo t (o.x (src 1))
  | .vi => reducedTo t (BitVec.ofInt 64 (o.field (src 1)))

/-- The result in lane `i`. -/
def bit [FloatOps] (op : MaskOp) (o : Operands) (i : Nat) : Bool :=
  match op with
  | compare logical form =>
    let t := (o.v (src 0)).type
    logical.compare ((o.v (src 0)).elem t i).toInteger (rhs o t i form)
  | vmand => (o.v (src 0)).maskBit i && (o.v (src 1)).maskBit i
  | vmor => (o.v (src 0)).maskBit i || (o.v (src 1)).maskBit i
  | vmset => true

/-! ## Runs -/

theorem mem_elementTypes_of_integer {c : CSR} {v : VectorData} (hv : BuiltFor c v)
    (ht : integerTypes.contains v.type = true) : v.type ∈ elementTypes c.vtypeVsew := by
  refine hv.type.resolve_right fun hmask => ?_
  rw [hmask] at ht
  cases ht

theorem nodup_lanes (start : Int) (n : Nat) : (lanes start n).Nodup := by
  rw [lanes]
  split
  · exact List.nodup_nil
  · exact List.nodup_range'

theorem setMask_congr {v : VectorData} {is : List Nat} {f g : Nat → Except Fault Bool}
    (h : ∀ i ∈ is, f i = g i) : setMask v is f = setMask v is g := by
  induction is generalizing v with
  | nil => rfl
  | cons i is ih =>
    rw [setMask, setMask, List.foldlM_cons, List.foldlM_cons, h i List.mem_cons_self]
    exact bind_congr fun v => ih fun j hj => h j (List.mem_cons_of_mem _ hj)

variable [FloatOps] {op : MaskOp} {o : Operands}

/-- The empty vector of the settings with the bits of the result. -/
def filled (op : MaskOp) (o : Operands) : Except Fault VectorData :=
  setMask (ofContext o.csr) (lanes o.csr.vstart (ofContext o.csr).vlen) fun i => .ok (op.bit o i)

/-- A scalar is reduced once, before the loop. -/
theorem run_against {logical : LogicalOp} {form : CompareForm}
    (h : (compare logical form).Reads o) {x : BitVec 64}
    (hx : ∀ i, rhs o (o.v (src 0)).type i form = reducedTo (o.v (src 0)).type x) :
    Prog.run o.handle ((do
        let rhs ← Elem.cast (o.v (src 0)).type (.long x)
        setMask (ofContext o.csr) (lanes o.csr.vstart (ofContext o.csr).vlen) fun i => do
          return logicalOperate logical (← (o.v (src 0)).get (o.v (src 0)).type i) rhs :
        Exec VectorData) >>= writeV dest) ⟨o.csr, none⟩ =
      (compare logical form).filled o >>= fun v => .ok ((), ⟨o.csr, some v⟩) := by
  obtain ⟨hv1, ht, -⟩ := h
  obtain ⟨e, he, -, hvalue⟩ := cast_long_integer ht x
  rw [Prog.run_bind, Operands.run_liftM_bind, he, ok_bind, ← Prog.run_bind,
    Operands.run_liftM_bind]
  refine congrArg (· >>= _) (setMask_congr fun i hi => ?_)
  obtain ⟨hget, htype⟩ := get_eq_elem hv1 (mem_elementTypes_of_integer hv1 ht)
    (hv1.vlen.symm ▸ (mem_lanes.mp hi).2.2)
  rw [hget, ok_bind, logicalOperate_integer ht logical htype, hvalue, bit, hx]
  rfl

theorem result_compare {logical : LogicalOp} {form : CompareForm}
    (h : (compare logical form).Reads o) :
    o.result logical.opcode (compare logical form).operandType =
      some <$> (compare logical form).filled o := by
  have hresult (hrun : (executeCompare logical (compare logical form).operandType).run o.handle
      ⟨o.csr, none⟩ = (compare logical form).filled o >>= fun v => .ok ((), ⟨o.csr, some v⟩)) :
      o.result logical.opcode (compare logical form).operandType =
        some <$> (compare logical form).filled o := by
    refine Operands.result_of_run ?_ ?_ ?_ ?_ hrun <;> cases logical <;> first | rfl | decide
  have hagainst := fun x => run_against (x := x) h
  obtain ⟨hv1, ht, hv2⟩ := h
  refine hresult ?_
  rw [executeCompare, Operands.run_csr_bind, Operands.run_readV_bind]
  dsimp only [operandType]
  cases form with
  | vv =>
    have hlane {v : VectorData} (hv : BuiltFor o.csr v) {i : Nat}
        (hi : i ∈ lanes o.csr.vstart (ofContext o.csr).vlen) :=
      get_eq_elem hv (mem_elementTypes_of_integer hv1 ht) (hv.vlen.symm ▸ (mem_lanes.mp hi).2.2)
    refine (Operands.run_liftM_bind ..).trans (congrArg (· >>= _) (setMask_congr fun i hi => ?_))
    obtain ⟨hget1, htype1⟩ := hlane hv1 hi
    obtain ⟨hget2, -⟩ := hlane (hv2 rfl) hi
    rw [if_neg (by rw [ht, Bool.or_true]; exact not_not_intro rfl), hget1, hget2]
    change Except.ok _ = _
    rw [logicalOperate_integer ht logical htype1]
    rfl
  | vx =>
    dsimp only
    rw [if_pos ht]
    exact hagainst (o.x (src 1)) fun _ => rfl
  | vi =>
    change Prog.run o.handle ((if integerTypes.contains (o.v (src 0)).type = true then _ else _) >>=
      writeV dest) _ = _
    rw [if_pos ht]
    exact hagainst (BitVec.ofInt 64 (o.field (src 1))) fun _ => rfl

omit [FloatOps] in
theorem run_maskLogic (hv1 : BuiltFor o.csr (o.v (src 0))) (hv2 : BuiltFor o.csr (o.v (src 1)))
    (f : Bool → Bool → Bool) :
    (executeMaskLogic f .mm).run o.handle ⟨o.csr, none⟩ = ((fun v => v.setType .vmask) <$>
      setMask (ofContext o.csr) (lanes o.csr.vstart (ofContext o.csr).vlen) fun i =>
        .ok (f ((o.v (src 0)).maskBit i) ((o.v (src 1)).maskBit i))) >>= fun v =>
          .ok ((), ⟨o.csr, some v⟩) := by
  rw [executeMaskLogic, Operands.run_csr_bind, Operands.run_readV_bind]
  dsimp only
  rw [Operands.run_readV_bind, Operands.run_liftM_bind, setMask_congr (g := fun i =>
    .ok (f ((o.v (src 0)).maskBit i) ((o.v (src 1)).maskBit i))) fun i hi => ?_]
  · cases setMask .. <;> rfl
  · have hlt := (mem_lanes.mp hi).2.2
    rw [hv1.getVmaskData (hv1.vlen.symm ▸ hlt), hv2.getVmaskData (hv2.vlen.symm ▸ hlt)]
    rfl

/-- An operation of this group fills an empty vector with its bits. -/
theorem result_maskOp (h : op.Reads o) : o.result op.opcode op.operandType =
    some <$> ((fun v => if op.retypes then v.setType .vmask else v) <$> op.filled o) := by
  have hid (x : Except Fault VectorData) :
      (fun v : VectorData => if false = true then v.setType .vmask else v) <$> x = x := by
    cases x <;> rfl
  cases op with
  | compare logical form =>
    exact (result_compare h).trans (congrArg _ (hid _).symm)
  | vmand => exact Operands.result_of_run rfl rfl nofun rfl (run_maskLogic h.1 h.2.2.1 (· && ·))
  | vmor => exact Operands.result_of_run rfl rfl nofun rfl (run_maskLogic h.1 h.2.2.1 (· || ·))
  | vmset =>
    have h : o.result .vmset .m = some <$> filled .vmset o :=
      Operands.result_of_run (k := executeVmset) rfl rfl nofun rfl (Operands.run_liftM_bind ..)
    exact h.trans (congrArg _ (hid _).symm)

/-- The result of an operation; its type is that of a mask unless no lane has set it. -/
theorem maskOp_spec (h : op.Reads o) : ∃ vd, o.result op.opcode op.operandType = .ok (some vd) ∧
    (vd.type = .vmask ↔ op.retypes = true ∨
      (0 ≤ o.csr.vstart ∧ o.csr.vstart < (ofContext o.csr).vlen)) ∧
    SameShape (ofContext o.csr) vd ∧ ∀ i, vd.maskBit i =
      (decide (i ∈ lanes o.csr.vstart (ofContext o.csr).vlen) && op.bit o i) := by
  obtain ⟨v, hv, hmasked⟩ := setMask_spec (b := op.bit o) (nodup_lanes o.csr.vstart _)
    (fun i hi => words_of_vlen (mem_lanes.mp hi).2.2) (fun i _ => maskBit_ofContext o.csr i)
    fun _ _ => rfl
  have hlanes : lanes o.csr.vstart (ofContext o.csr).vlen ≠ [] ↔
      0 ≤ o.csr.vstart ∧ o.csr.vstart < (ofContext o.csr).vlen := by
    constructor
    · intro hne
      obtain ⟨i, hi⟩ := List.exists_mem_of_ne_nil _ hne
      obtain ⟨h₀, h₁, h₂⟩ := mem_lanes.mp hi
      omega
    · rintro ⟨h₀, h₁⟩
      exact List.ne_nil_of_mem (mem_lanes.mpr ⟨h₀, Int.toNat_of_nonneg h₀ |>.ge, by omega⟩)
  have hbits (i : Nat) := hmasked.bits i
  simp only [maskBit_ofContext, Bool.false_or] at hbits
  rw [result_maskOp h, filled, hv]
  by_cases hre : op.retypes = true
  · refine ⟨v.setType .vmask, ?_, iff_of_true rfl (.inl hre),
      ⟨hmasked.shape.1, hmasked.shape.2, hmasked.shape.3⟩, hbits⟩
    rw [hre]
    rfl
  · refine ⟨v, ?_, ?_, hmasked.shape, hbits⟩
    · rw [Bool.eq_false_of_not_eq_true hre]
      rfl
    · rw [hmasked.type, or_iff_right hre, ← hlanes]
      split
      case isTrue hnil => exact iff_of_false nofun (not_not_intro hnil)
      case isFalse hnil => exact iff_of_true rfl hnil

end MaskOp

/-! ## The first set bit -/

namespace Operands

/-- The handler that also keeps the first x register value that is written. -/
def handleX (o : Operands) : Prog.Handler accesses Fault (Progress × Option (BitVec 64))
  | .writeX _ x, (p, w) => .ok ((), (p, w.or (some x)))
  | a, (p, w) => do
    let (r, p) ← o.handle a p
    return (r, (p, w))

variable [FloatOps]

/-- The value the instruction hands to its x register. -/
def resultX (o : Operands) (op : Opcode) (operandType : OperandType) :
    Except Fault (Option (BitVec 64)) := do
  let (_, p) ← (execute op operandType 0).run o.handleX (⟨o.csr, none⟩, none)
  return p.2

end Operands

namespace VectorData

/-- The least set bit from `s` on, or -1 if there is none. -/
def IsFirst (v : VectorData) (s r : Int) : Prop :=
  IsLeast {i : Int | s ≤ i ∧ ∃ n : Nat, n = i ∧ v.maskBit n = true} r ∨
    (r = -1 ∧ ∀ n : Nat, s ≤ n → v.maskBit n = false)

variable [FloatOps]

/-- `VFIRST` on `v`. -/
def vfirst (v : VectorData) (c : CSR) : Except Fault (Option (BitVec 64)) :=
  ({ csr := c, v := fun _ => v } : Operands).resultX .vfirst .m

theorem vfirst_eq {v : VectorData} (htype : v.type = .vmask) (c : CSR) :
    v.vfirst c = (fun r => some (BitVec.ofInt 64 r)) <$> firstSet v (lanes c.vstart v.vlen) := by
  let o : Operands := { csr := c, v := fun _ => v }
  have hrun : executeVfirst.run o.handleX (⟨c, none⟩, none) =
      firstSet v (lanes c.vstart v.vlen) >>= fun r =>
        .ok ((), (⟨c, none⟩, some (BitVec.ofInt 64 r))) := by
    change Prog.run o.handleX (if v.type ≠ .vmask then _ else _) _ = _
    rw [if_neg (not_not_intro htype)]
    cases firstSet v (lanes c.vstart v.vlen) <;> rfl
  have hexecute : execute .vfirst .m 0 =
      (executeVfirst >>= fun _ => setVstart 0) >>= fun _ => pure false := rfl
  rw [vfirst, Operands.resultX, hexecute, Prog.run_bind, Prog.run_bind, hrun]
  cases firstSet v (lanes c.vstart v.vlen) <;> rfl

omit [FloatOps] in
/-- Over increasing places that can be read. -/
theorem firstSet_spec {v : VectorData} {is : List Nat} (hsorted : is.Pairwise (· < ·))
    (hread : ∀ i ∈ is, v.getVmaskData i = .ok (v.maskBit i)) :
    (∃ i ∈ is, firstSet v is = .ok (i : Int) ∧ v.maskBit i = true ∧
      ∀ j ∈ is, v.maskBit j = true → i ≤ j) ∨
    (firstSet v is = .ok (-1) ∧ ∀ i ∈ is, v.maskBit i = false) := by
  induction is with
  | nil => exact .inr ⟨rfl, nofun⟩
  | cons i is ih =>
    obtain ⟨hlt, hsorted⟩ := List.pairwise_cons.mp hsorted
    rw [firstSet, hread i List.mem_cons_self, ok_bind]
    cases hi : v.maskBit i with
    | true =>
      refine .inl ⟨i, List.mem_cons_self, rfl, hi, fun j hj _ => ?_⟩
      rcases List.mem_cons.mp hj with rfl | hj
      · exact Nat.le_refl _
      · exact (hlt j hj).le
    | false =>
      obtain ⟨k, hk, hfirst, hbit, hleast⟩ | ⟨hfirst, hclear⟩ :=
        ih hsorted fun j hj => hread j (List.mem_cons_of_mem _ hj)
      · refine .inl ⟨k, List.mem_cons_of_mem _ hk, hfirst, hbit, fun j hj hset => ?_⟩
        rcases List.mem_cons.mp hj with rfl | hj
        · rw [hi] at hset
          cases hset
        · exact hleast j hj hset
      · refine .inr ⟨hfirst, fun j hj => ?_⟩
        rcases List.mem_cons.mp hj with rfl | hj
        · exact hi
        · exact hclear j hj

/-- `VFIRST` on a mask finds the first set bit from a start that is not negative. -/
theorem vfirst_spec {v : VectorData} (htype : v.type = .vmask)
    (hread : ∀ i < v.vlen, v.getVmaskData i = .ok (v.maskBit i))
    (hclear : ∀ i, v.vlen ≤ i → v.maskBit i = false) {c : CSR} (hstart : 0 ≤ c.vstart) :
    ∃ r, v.IsFirst c.vstart r ∧ v.vfirst c = .ok (some (BitVec.ofInt 64 r)) := by
  have hsorted : (lanes c.vstart v.vlen).Pairwise (· < ·) := by
    rw [lanes_eq_filter hstart]
    exact List.pairwise_lt_range.filter _
  have hin {n : Nat} (hle : c.vstart ≤ n) (hset : v.maskBit n = true) :
      n ∈ lanes c.vstart v.vlen := by
    refine mem_lanes.mpr ⟨hstart, hle, not_le.mp fun h => ?_⟩
    rw [hclear n h] at hset
    cases hset
  rw [vfirst_eq htype]
  obtain ⟨i, hi, hfirst, hbit, hleast⟩ | ⟨hfirst, hnone⟩ :=
    firstSet_spec hsorted fun i hi => hread i (mem_lanes.mp hi).2.2
  · refine ⟨i, .inl ⟨⟨(mem_lanes.mp hi).2.1, i, rfl, hbit⟩, ?_⟩, by rw [hfirst]; rfl⟩
    rintro _ ⟨hle, n, rfl, hset⟩
    exact Int.ofNat_le.mpr (hleast n (hin hle hset) hset)
  · refine ⟨-1, .inr ⟨rfl, fun n hle => ?_⟩, by rw [hfirst]; rfl⟩
    by_contra hset
    rw [hnone n (hin hle (Bool.eq_true_of_not_eq_false hset))] at hset
    exact hset rfl

/-- From a negative start `VFIRST` finds nothing. -/
theorem vfirst_negative {v : VectorData} (htype : v.type = .vmask) {c : CSR}
    (hstart : c.vstart < 0) : v.vfirst c = .ok (some (BitVec.ofInt 64 (-1))) := by
  rw [vfirst_eq htype, lanes, if_pos hstart]
  rfl

end VectorData

namespace MaskOp

variable [FloatOps]

/-- The result is a mask with the bits of the lanes from `vstart` on, no lane has its bit outside
of the words, and `VFIRST` from `s` finds the first set bit. -/
structure MaskLaws (op : MaskOp) (o : Operands) (s : Int) (vd : VectorData) : Prop where
  type : vd.type = .vmask
  vlen : vd.vlen = (ofContext o.csr).vlen
  inside : ∀ i < vd.vlen, i / unionDataSize < vd.data.length
  bits : ∀ i, i / unionDataSize < vd.data.length →
    vd.getVmaskData i = .ok (decide (o.csr.vstart ≤ i ∧ i < vd.vlen) && op.bit o i)
  first : ∃ r, vd.IsFirst s r ∧ vd.vfirst { o.csr with vstart := s } =
    .ok (some (BitVec.ofInt 64 r))

/-- A negative start is a start behind the last lane. -/
theorem maskLaws_iff {op : MaskOp} {o : Operands} (h : op.Reads o) (s : Int) :
    o.Yields op.opcode op.operandType (MaskLaws op o s) ↔
      (op.retypes = true ∨ (0 ≤ o.csr.vstart ∧ o.csr.vstart < (ofContext o.csr).vlen)) ∧
      (0 ≤ o.csr.vstart ∨ ∀ i < (ofContext o.csr).vlen, op.bit o i = false) ∧
      (0 ≤ s ∨ ∀ i : Nat, o.csr.vstart ≤ i → i < (ofContext o.csr).vlen → op.bit o i = false) := by
  obtain ⟨vd, hvd, htype, hshape, hbits⟩ := maskOp_spec h
  have hinside {i : Nat} (hi : i < (ofContext o.csr).vlen) :
      i / unionDataSize < vd.data.length := hshape.words ▸ words_of_vlen hi
  have hyields : o.Yields op.opcode op.operandType (MaskLaws op o s) ↔ MaskLaws op o s vd := by
    refine ⟨fun ⟨vd', hvd', hlaws⟩ => ?_, fun hlaws => ⟨vd, hvd, hlaws⟩⟩
    obtain rfl := Option.some_inj.mp (Except.ok.inj (hvd.symm.trans hvd'))
    exact hlaws
  have hnone {i : Nat} (hi : (ofContext o.csr).vlen ≤ i) : vd.maskBit i = false := by
    rw [hbits, decide_eq_false fun hmem => absurd (mem_lanes.mp hmem).2.2 (by omega)]
    rfl
  rw [hyields]
  constructor
  · intro hlaws
    have hbit {i : Nat} (hi : i < (ofContext o.csr).vlen) (hle : o.csr.vstart ≤ i) :
        op.bit o i = vd.maskBit i := by
      have hget := hlaws.bits i (hinside hi)
      rw [getVmaskData_eq (hinside hi), hlaws.vlen, decide_eq_true ⟨hle, hi⟩, Bool.true_and] at hget
      exact (Except.ok.inj hget).symm
    refine ⟨htype.mp hlaws.type, or_iff_not_imp_left.mpr fun hneg i hi => ?_,
      or_iff_not_imp_left.mpr fun hneg i hle hi => ?_⟩
    · rw [hbit hi (by omega), hbits, lanes, if_pos (by omega)]
      rfl
    · obtain ⟨r, hr, hfirst⟩ := hlaws.first
      rw [vfirst_negative hlaws.type (by dsimp only; omega)] at hfirst
      have hr' := Option.some_inj.mp (Except.ok.inj hfirst)
      rw [hbit hi hle]
      obtain ⟨⟨-, n, rfl, hset⟩, -⟩ | ⟨-, hclear⟩ := hr
      · have hn : n < (ofContext o.csr).vlen := by
          by_contra hge
          rw [hnone (by omega)] at hset
          cases hset
        have hle := vlen_ofContext_le o.csr
        have hval := congrArg BitVec.toNat hr'
        rw [BitVec.toNat_ofInt, BitVec.toNat_ofInt] at hval
        omega
      · exact hclear i (by omega)
  · rintro ⟨hret, hstart, hs⟩
    have hmask (i : Nat) : vd.maskBit i =
        (decide (o.csr.vstart ≤ i ∧ i < (ofContext o.csr).vlen) && op.bit o i) := by
      rw [hbits]
      obtain hpos | hclear := hstart
      · simp only [mem_lanes, hpos, true_and]
      · by_cases hi : i < (ofContext o.csr).vlen
        · rw [hclear i hi, Bool.and_false, Bool.and_false]
        · rw [decide_eq_false fun hmem => hi (mem_lanes.mp hmem).2.2,
            decide_eq_false fun hmem => hi hmem.2]
    have hread : ∀ i < vd.vlen, vd.getVmaskData i = .ok (vd.maskBit i) := fun i hi =>
      getVmaskData_eq (hinside (hshape.vlen ▸ hi))
    refine ⟨htype.mpr hret, hshape.vlen, fun i hi => hinside (hshape.vlen ▸ hi), fun i hi => ?_, ?_⟩
    · rw [getVmaskData_eq hi, hmask, hshape.vlen]
    · by_cases hpos : 0 ≤ s
      · exact vfirst_spec (htype.mpr hret) hread (fun i hi => hnone (hshape.vlen ▸ hi))
          (c := { o.csr with vstart := s }) hpos
      · refine ⟨-1, .inr ⟨rfl, fun n _ => ?_⟩,
          vfirst_negative (htype.mpr hret) (not_le.mp hpos)⟩
        rw [hmask]
        by_cases hn : o.csr.vstart ≤ n ∧ n < (ofContext o.csr).vlen
        · rw [hs.resolve_left hpos n hn.1 hn.2, Bool.and_false]
        · rw [decide_eq_false hn]
          rfl

/-- `vmseq.vv` of a vector with itself, from lane `s` on. -/
def comparison (s : Int) : Operands := { csr := { vstart := s }, v := fun _ => counting }

omit [FloatOps] in
theorem reads_comparison (s : Int) : (compare .eq .vv).Reads (comparison s) :=
  have hv : BuiltFor { vstart := s } counting :=
    ⟨builtFor_counting.type, builtFor_counting.vlen, builtFor_counting.doubleReg,
      builtFor_counting.words⟩
  ⟨hv, rfl, fun _ => hv⟩

omit [FloatOps] in
theorem maskLaws_comparison : letI := FloatOps.zero
    (comparison 2).Yields .vmseq .vv (MaskLaws (compare .eq .vv) (comparison 2) 0) :=
  let _ := FloatOps.zero
  (maskLaws_iff (reads_comparison 2) 0).mpr
    ⟨.inr (by decide), .inl (by decide), .inl (by decide)⟩

omit [FloatOps] in
/-- From behind the last lane a comparison leaves no mask. -/
theorem not_maskLaws_comparison : letI := FloatOps.zero
    (compare .eq .vv).Reads (comparison 8) ∧
      ¬ (comparison 8).Yields .vmseq .vv (MaskLaws (compare .eq .vv) (comparison 8) 0) := by
  let _ := FloatOps.zero
  refine ⟨reads_comparison 8, fun ⟨vd, hvd, hlaws⟩ => ?_⟩
  obtain ⟨vd', hvd', htype, -⟩ := maskOp_spec (reads_comparison 8)
  obtain rfl := Option.some_inj.mp (Except.ok.inj (hvd.symm.trans hvd'))
  exact absurd (htype.mp hlaws.type) (by decide)

end MaskOp

end NdpSim
