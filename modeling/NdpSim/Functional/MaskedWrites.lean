import NdpSim.Functional.MaskedRuns
import NdpSim.Isa.Masks

/-!
# Masked writes

Which elements of the destination a masked instruction leaves alone. Only the moves of a scalar and
`VOR` start from the old destination; the move of a vector ignores its mask, and the indexed loads
start from an empty vector and from element 0.
-/
namespace NdpSim

open Library Exec Slot VectorData

namespace MaskedForm

/-- The mask bit of an element is set. -/
def masked (form : MaskedForm) (o : Operands) (i : Nat) : Bool := (o.v form.mask).maskBit i

/-- The element is to be written. -/
def Active (form : MaskedForm) (o : Operands) (i : Nat) : Prop :=
  o.csr.vstart ≤ i ∧ form.masked o i = true

instance (form : MaskedForm) (o : Operands) (i : Nat) : Decidable (form.Active o i) :=
  inferInstanceAs (Decidable (_ ∧ _))

/-- The address the indices of a load are added to. -/
def base (o : Operands) : BitVec 64 := o.x (src 0) + BitVec.ofInt 64 (o.field (src 1))

/-- An immediate as an element; bytes are unsigned. -/
def immediateElem (sew : Vsew) (x : BitVec 64) : Elem :=
  match sew with
  | .e8 => .u8 (x.setWidth 8)
  | .e16 => .short (x.setWidth 16)
  | .e32 => .int (x.setWidth 32)
  | .e64 => .long x

/-- A register as an element; bytes are signed. -/
def scalarElem (sew : Vsew) (x : BitVec 64) : Elem :=
  match sew with
  | .e8 => .char (x.setWidth 8)
  | .e16 => .short (x.setWidth 16)
  | .e32 => .int (x.setWidth 32)
  | .e64 => .long x

variable [FloatOps]

/-- What is loaded for a lane. -/
def loaded (form : MaskedForm) (o : Operands) (memories : Memories) (i : Nat) :
    Except Fault (Option Elem) :=
  match form with
  | load32 => Machine.loadedWord memories (base o) (o.v (src 2)) i
  | load64 => Machine.loadedLong memories (base o) (o.v (src 2)) i
  | _ => .ok none

/-- The bits the instruction without its mask gives element `i`. `VOR` keeps elements of types it
does not know, and a load from a packet of other elements leaves a zero. -/
def value (form : MaskedForm) (o : Operands) (memories : Memories) (i : Nat) :
    Except Fault (BitVec 64) :=
  let sew := o.csr.vtypeVsew
  match form with
  | moveV => (o.v (src 0)).bitsAt sew i
  | moveI => .ok (immediateElem sew (BitVec.ofInt 64 (o.field (src 0)))).bits
  | moveX => .ok (scalarElem sew (o.x (src 0))).bits
  | or => bitsOf (Machine.orElement (o.v (src 0)) (o.v (src 1)) i) ((o.v dest).bitsAt sew i)
  | load32 | load64 =>
    (fun e => bitsOf (.ok e) (.ok 0)) =<< form.loaded o memories i

/-- Active elements get their values, and all others are as they were. -/
def Keeps (form : MaskedForm) (o : Operands) (memories : Memories) (vd : VectorData) : Prop :=
  ∀ i < (ofContext o.csr).vlen, vd.bitsAt o.csr.vtypeVsew i =
    if form.Active o i then form.value o memories i else (o.v dest).bitsAt o.csr.vtypeVsew i

/-- What the destination must have held for that. -/
def KeepsWhen (form : MaskedForm) (o : Operands) (memories : Memories) : Prop :=
  let n := (ofContext o.csr).vlen
  let old (i : Nat) := (o.v dest).bitsAt o.csr.vtypeVsew i
  match form with
  | moveV => ∀ i < n, ¬ form.Active o i → form.value o memories i = old i
  | moveI | moveX | or =>
    0 ≤ o.csr.vstart ∨ ∀ i < n, form.masked o i = true → form.value o memories i = old i
  | load32 =>
    (∃ i < 8, form.masked o i = true ∧ ∃ e, form.loaded o memories i = .ok (some e)) ∧
    (∀ i < 8, n ≤ i → form.masked o i = true → form.loaded o memories i = .ok none) ∧
    (∀ i < n, form.Active o i → 8 ≤ i → form.value o memories i = .ok 0) ∧
    ∀ i < n, ¬ form.Active o i →
      (if i < 8 ∧ form.masked o i = true then form.value o memories i else .ok 0) = old i
  | load64 => 0 < n ∧ ∀ i < n, ¬ form.Active o i →
      (if form.masked o i = true then form.value o memories i else .ok 0) = old i

/-! ## Moves of a scalar -/

variable {form : MaskedForm} {o : Operands} {memories : Memories} {vd : VectorData} {c : CSR}

theorem cast_scalarElem (sew : Vsew) (x : BitVec 64) :
    Elem.cast (integerType sew) (.long x) = .ok (scalarElem sew x) := by
  have hcut {n : Nat} (hn : n ≤ 64) : BitVec.ofInt n x.toInt = x.setWidth n :=
    BitVec.signExtend_eq_setWidth_of_le x hn
  cases sew with
  | e8 => exact congrArg (fun y => Except.ok (Elem.char y)) (hcut (by decide))
  | e16 => exact congrArg (fun y => Except.ok (Elem.short y)) (hcut (by decide))
  | e32 => exact congrArg (fun y => Except.ok (Elem.int y)) (hcut (by decide))
  | e64 => exact congrArg (fun y => Except.ok (Elem.long y)) BitVec.ofInt_toInt

omit [FloatOps] in
theorem type_scalarElem (sew : Vsew) (x : BitVec 64) :
    (scalarElem sew x).type ∈ elementTypes sew := by
  cases sew <;> simp [scalarElem, Elem.type, elementTypes]

theorem setScalar_bits {sew : Vsew} {v : VectorData} {i : Nat} (x : BitVec 64)
    (hroom : ∀ t ∈ elementTypes sew, v.Room t i) :
    ∃ v', (do v.setData (← Elem.cast (integerType sew) (.long x)) i) = .ok v' ∧
      BitsSet sew v i (scalarElem sew x).bits v' := by
  have htype := type_scalarElem sew x
  obtain ⟨v', hv', -, hset⟩ := setData_bits htype (hroom _ htype)
  exact ⟨v', by rw [cast_scalarElem, ok_bind, hv'], hset⟩

/-- The last of the three writes of a byte stays. -/
theorem setImmediate_bits {sew : Vsew} {v : VectorData} {i : Nat} (x : BitVec 64)
    (hroom : ∀ t ∈ elementTypes sew, v.Room t i) :
    ∃ v', setImmediate sew x v i = .ok v' ∧ BitsSet sew v i (immediateElem sew x).bits v' := by
  cases sew with
  | e8 =>
    have hbool : (Elem.bool (x ≠ 0)).type ∈ elementTypes .e8 := by simp [Elem.type, elementTypes]
    have hchar : (Elem.char (x.setWidth 8)).type ∈ elementTypes .e8 := by
      simp [Elem.type, elementTypes]
    have hbyte : (Elem.u8 (x.setWidth 8)).type ∈ elementTypes .e8 := by
      simp [Elem.type, elementTypes]
    obtain ⟨v₁, hv₁, -, h₁⟩ := setData_bits hbool (hroom _ hbool)
    obtain ⟨v₂, hv₂, -, h₂⟩ := setData_bits hchar (h₁.shape.room.mpr (hroom _ hchar))
    obtain ⟨v₃, hv₃, -, h₃⟩ :=
      setData_bits hbyte (h₂.shape.room.mpr (h₁.shape.room.mpr (hroom _ hbyte)))
    refine ⟨(v₃.setType .bool).setType .uint8, ?_, ?_, fun j => ?_⟩
    · simp only [setData] at hv₁ hv₂ hv₃
      rw [setImmediate, hv₁, ok_bind, hv₂, ok_bind, hv₃]
      rfl
    · have hshape := (h₁.shape.trans h₂.shape).trans h₃.shape
      exact ⟨hshape.1, hshape.2, hshape.3⟩
    · change v₃.bitsAt .e8 j = _
      rw [h₃.bits, h₂.bits, h₁.bits]
      split <;> rfl
  | e16 | e32 | e64 => exact setScalar_bits x hroom

omit [FloatOps] in
/-- A loop over a vector of the settings that sets the lanes which are not masked off. -/
theorem setUnmasked_bits {old mask : VectorData} (present : Bool)
    (hroom : ∀ t ∈ elementTypes c.vtypeVsew, ∀ i < old.vlen, old.Room t i)
    (hread : ∀ i < old.vlen, mask.getVmaskData i = .ok (mask.maskBit i))
    {set : VectorData → Nat → Except Fault VectorData} {b : BitVec 64}
    (hset : ∀ u i, (∀ t ∈ elementTypes c.vtypeVsew, u.Room t i) →
      ∃ u', set u i = .ok u' ∧ BitsSet c.vtypeVsew u i b u') :
    ∃ vd, setUnmasked old c (present, mask) set = .ok vd ∧ ∀ j, vd.bitsAt c.vtypeVsew j =
      if j ∈ lanes c.vstart old.vlen ∧ (present = true → mask.maskBit j = true) then .ok b
      else old.bitsAt c.vtypeVsew j := by
  have hon : ∀ u, SameShape old u → ∀ i ∈ lanes c.vstart old.vlen,
      (mask.maskBit i || !present) = true →
      ∃ u', (do
        let active ← mask.getVmaskData i
        if !active && present then return u else set u i) = .ok u' ∧
        BitsSet c.vtypeVsew u i b u' := by
    intro u hu i hi hact
    have hset := hset u i fun t ht => hu.room.mpr (hroom t ht i (mem_lanes.mp hi).2.2)
    rw [hread i (mem_lanes.mp hi).2.2, ok_bind]
    revert hact
    cases mask.maskBit i <;> cases present <;> simp [hset]
  have hoff : ∀ u, ∀ i ∈ lanes c.vstart old.vlen, (mask.maskBit i || !present) = false →
      (do
        let active ← mask.getVmaskData i
        if !active && present then return u else set u i) = .ok u := by
    intro u i hi hact
    rw [hread i (mem_lanes.mp hi).2.2, ok_bind]
    obtain ⟨hm, hp⟩ : mask.maskBit i = false ∧ present = true := by simpa using hact
    rw [hm, hp]
    rfl
  obtain ⟨vd, hvd, -, hbits⟩ := foldlM_bits hon hoff
  refine ⟨vd, hvd, fun j => ?_⟩
  rw [hbits]
  cases present <;> simp

omit [FloatOps] in
theorem setMasked_bits {old mask : VectorData} (hold : BuiltFor c old) (hmask : BuiltFor c mask)
    {set : VectorData → Nat → Except Fault VectorData} {b : BitVec 64}
    (hset : ∀ u i, (∀ t ∈ elementTypes c.vtypeVsew, u.Room t i) →
      ∃ u', set u i = .ok u' ∧ BitsSet c.vtypeVsew u i b u') :
    ∃ vd, setUnmasked old c (true, mask) set = .ok vd ∧ ∀ j, vd.bitsAt c.vtypeVsew j =
      if j ∈ lanes c.vstart old.vlen ∧ mask.maskBit j = true then .ok b
      else old.bitsAt c.vtypeVsew j := by
  have hread : ∀ i < old.vlen, mask.getVmaskData i = .ok (mask.maskBit i) := fun i hi =>
    hmask.getVmaskData (by rwa [hmask.vlen, ← hold.vlen])
  obtain ⟨vd, hvd, hbits⟩ :=
    setUnmasked_bits true (fun t ht i hi => hold.room ht hi) hread hset
  exact ⟨vd, hvd, fun j => by simpa using hbits j⟩

/-- The lanes of a loop from a start that is not negative are the elements from there on. -/
theorem keeps_iff_of_bits {old : VectorData} (hold : old = o.v dest)
    (hbits : ∀ j < (ofContext o.csr).vlen, vd.bitsAt o.csr.vtypeVsew j =
      if j ∈ lanes o.csr.vstart (ofContext o.csr).vlen ∧ form.masked o j = true then
        form.value o memories j
      else old.bitsAt o.csr.vtypeVsew j) :
    form.Keeps o memories vd ↔ (0 ≤ o.csr.vstart ∨ ∀ i < (ofContext o.csr).vlen,
      form.masked o i = true → form.value o memories i = old.bitsAt o.csr.vtypeVsew i) := by
  subst hold
  constructor
  · intro hkeeps
    refine or_iff_not_imp_left.mpr fun hneg i hi hm => ?_
    have heq := hkeeps i hi
    rw [hbits i hi, if_neg fun h => hneg (mem_lanes.mp h.1).1, if_pos ⟨by omega, hm⟩] at heq
    exact heq.symm
  · intro h i hi
    rw [hbits i hi]
    obtain hpos | heq := h
    · have hiff : i ∈ lanes o.csr.vstart (ofContext o.csr).vlen ∧ form.masked o i = true ↔
          form.Active o i := by
        rw [mem_lanes, Active]
        exact ⟨fun h => ⟨h.1.2.1, h.2⟩, fun h => ⟨⟨hpos, h.1, hi⟩, h.2⟩⟩
      simp only [hiff]
    · by_cases hm : form.masked o i = true
      · rw [heq i hi hm, ite_self, ite_self]
      · rw [if_neg fun h => hm h.2, if_neg fun h => hm h.2]

/-! ## `VOR` -/

/-- `VOR` reads words and flags, and leaves elements of other types alone. -/
theorem exists_orElement {vs1 vs2 : VectorData} (hv1 : BuiltFor c vs1) (hv2 : BuiltFor c vs2)
    {i : Nat} (hi : i < (ofContext c).vlen) : ∃ e, Machine.orElement vs1 vs2 i = .ok e ∧
      ∀ e', e = some e' → e'.type ∈ elementTypes c.vtypeVsew := by
  have hget (t : DataType) (ht : vs1.type = t) (hne : t ≠ .vmask) {v : VectorData}
      (hv : BuiltFor c v) : t ∈ elementTypes c.vtypeVsew ∧ ∃ e, v.get t i = .ok e ∧ e.type = t := by
    have hmem : t ∈ elementTypes c.vtypeVsew :=
      ht ▸ hv1.type.resolve_right fun h => hne (ht.symm.trans h)
    exact ⟨hmem, exists_get (elementTypes_ne hmem).1 (elementTypes_ne hmem).2
      (hv.room hmem (hv.vlen.symm ▸ hi))⟩
  have hread {α : Type} (wrap : α → Elem) {x : Except Fault α} {e : Elem}
      (h : wrap <$> x = .ok e) : ∃ a, x = .ok a := by
    cases x with
    | error f => cases h
    | ok a => exact ⟨a, rfl⟩
  rw [Machine.orElement]
  cases ht : vs1.type with
  | int32 =>
    obtain ⟨hmem, e₁, h₁, -⟩ := hget .int32 ht (by decide) hv1
    obtain ⟨-, e₂, h₂, -⟩ := hget .int32 ht (by decide) hv2
    obtain ⟨x, hx⟩ := hread Elem.int h₁
    obtain ⟨y, hy⟩ := hread Elem.int h₂
    exact ⟨_, by dsimp only; rw [hx, hy]; rfl, fun e he => by cases he; exact hmem⟩
  | float32 =>
    obtain ⟨hmem, e₁, h₁, -⟩ := hget .float32 ht (by decide) hv1
    obtain ⟨-, e₂, h₂, -⟩ := hget .float32 ht (by decide) hv2
    obtain ⟨x, hx⟩ := hread Elem.float h₁
    obtain ⟨y, hy⟩ := hread Elem.float h₂
    have hword : DataType.int32 ∈ elementTypes c.vtypeVsew := by
      revert hmem
      cases c.vtypeVsew <;> decide
    exact ⟨_, by dsimp only; rw [hx, hy]; rfl, fun e he => by cases he; exact hword⟩
  | bool =>
    obtain ⟨hmem, e₁, h₁, -⟩ := hget .bool ht (by decide) hv1
    obtain ⟨-, e₂, h₂, -⟩ := hget .bool ht (by decide) hv2
    obtain ⟨x, hx⟩ := hread Elem.bool h₁
    obtain ⟨y, hy⟩ := hread Elem.bool h₂
    exact ⟨_, by dsimp only; rw [hx, hy]; rfl, fun e he => by cases he; exact hmem⟩
  | _ => exact ⟨none, rfl, fun e he => by cases he⟩

/-- The loop of `VOR`. -/
theorem setOr_bits {old mask vs1 vs2 : VectorData} (hold : BuiltFor c old) (hmask : BuiltFor c mask)
    (hv1 : BuiltFor c vs1) (hv2 : BuiltFor c vs2) :
    ∃ vd, old.setLanes (lanes c.vstart old.vlen) (fun i => do
        if ← mask.getVmaskData i then Machine.orElement vs1 vs2 i else return none) = .ok vd ∧
      ∀ j, vd.bitsAt c.vtypeVsew j =
        if j ∈ lanes c.vstart old.vlen ∧ mask.maskBit j = true then
          bitsOf (Machine.orElement vs1 vs2 j) (old.bitsAt c.vtypeVsew j)
        else old.bitsAt c.vtypeVsew j := by
  have hlane {i : Nat} (hi : i ∈ lanes c.vstart old.vlen) :
      (do if ← mask.getVmaskData i then Machine.orElement vs1 vs2 i else return none) =
        if mask.maskBit i = true then Machine.orElement vs1 vs2 i else .ok none := by
    rw [hmask.getVmaskData (by rw [hmask.vlen, ← hold.vlen]; exact (mem_lanes.mp hi).2.2)]
    rfl
  have hall : ∀ i ∈ lanes c.vstart old.vlen, ∃ e,
      (do if ← mask.getVmaskData i then Machine.orElement vs1 vs2 i else return none) = .ok e ∧
        ∀ e', e = some e' → e'.type ∈ elementTypes c.vtypeVsew ∧ old.Room e'.type i := by
    intro i hi
    rw [hlane hi]
    split
    · obtain ⟨e, he, htype⟩ := exists_orElement hv1 hv2 (hold.vlen ▸ (mem_lanes.mp hi).2.2)
      exact ⟨e, he, fun e' he' => ⟨htype e' he', hold.room (htype e' he') (mem_lanes.mp hi).2.2⟩⟩
    · exact ⟨none, rfl, nofun⟩
  obtain ⟨vd, hvd, -, hbits⟩ := setLanes_bits hall
  refine ⟨vd, hvd, fun j => ?_⟩
  rw [hbits]
  by_cases hj : j ∈ lanes c.vstart old.vlen
  · rw [if_pos hj, hlane hj]
    by_cases hm : mask.maskBit j = true
    · rw [if_pos hm, if_pos ⟨hj, hm⟩]
    · rw [if_neg hm, if_neg fun h => hm h.2]
      rfl
  · rw [if_neg hj, if_neg fun h => hj h.1]

/-! ## Indexed loads -/

/-- The lanes an indexed load goes through. -/
def loadLanes (form : MaskedForm) (c : CSR) : List Nat :=
  match form with
  | load32 => List.range 8
  | _ => List.range ((c.vtypeVlmul.eighths + 1) / 2)

/-- One lane of an indexed load. `VLUXEI32` reads the index before it looks at the mask. -/
def loadLane (form : MaskedForm) (o : Operands) (memories : Memories) (i : Nat) :
    Except Fault (Option Elem) := do
  if form = load32 then let _ ← (o.v (src 2)).getIntData i
  if ← (o.v form.mask).getVmaskData i then form.loaded o memories i else return none

theorem type_of_get {v : VectorData} {t : DataType} {i : Nat} {e : Elem} (h : v.get t i = .ok e) :
    e.type = t := by
  have hmap {α : Type} {wrap : α → Elem} {x : Except Fault α} (hwrap : ∀ a, (wrap a).type = t)
      (h : wrap <$> x = .ok e) : e.type = t := by
    cases x with
    | error f => cases h
    | ok a =>
      cases h
      exact hwrap a
  cases t <;> first
    | exact hmap (fun _ => rfl) h
    | cases h

/-- The types of what is loaded. -/
theorem loaded_type {i : Nat} {e : Elem} (h : form.loaded o memories i = .ok (some e)) :
    (form = load32 ∧ [DataType.int32, .float32].contains e.type = true) ∨
      (form = load64 ∧ e.type = .int64) := by
  cases form with
  | load32 =>
    rw [loaded, Machine.loadedWord] at h
    obtain ⟨idx, -, h⟩ := bind_eq_ok.mp h
    obtain ⟨vs, -, h⟩ := bind_eq_ok.mp h
    split at h
    · rename_i hwords
      obtain ⟨e', he', h⟩ := bind_eq_ok.mp h
      obtain rfl := Option.some_inj.mp (Except.ok.inj h)
      refine .inl ⟨rfl, ?_⟩
      rw [type_of_get he']
      revert hwords
      cases vs.type <;> decide
    · cases h
  | load64 =>
    rw [loaded, Machine.loadedLong] at h
    obtain ⟨idx, -, h⟩ := bind_eq_ok.mp h
    obtain ⟨vs, -, h⟩ := bind_eq_ok.mp h
    by_cases hlong : vs.type = .int64
    · rw [if_neg (not_not_intro hlong)] at h
      obtain ⟨x, -, h⟩ := bind_eq_ok.mp h
      obtain rfl := Option.some_inj.mp (Except.ok.inj h)
      exact .inr ⟨rfl, rfl⟩
    · rw [if_pos hlong] at h
      cases h
  | _ => cases h

/-- What is loaded has the width of the settings, and is one element. -/
theorem loaded_fits (hfits : form.fits o.csr.vtypeVsew) {i : Nat} {e : Elem}
    (h : form.loaded o memories i = .ok (some e)) : e.type ∈ elementTypes o.csr.vtypeVsew ∧
      ((ofContext o.csr).Room e.type i → i < (ofContext o.csr).vlen) := by
  obtain ⟨rfl, htype⟩ | ⟨rfl, htype⟩ := loaded_type h
  · have hsew : o.csr.vtypeVsew = .e32 := hfits
    rw [hsew]
    revert htype
    generalize e.type = t
    intro htype
    obtain rfl | rfl : t = .int32 ∨ t = .float32 := by simpa using htype
    all_goals exact ⟨by decide, fun hroom => by simpa [Room, perWord] using hroom.1⟩
  · have hsew : o.csr.vtypeVsew = .e64 := hfits
    rw [hsew, htype]
    exact ⟨by decide, fun hroom => hroom.1⟩

theorem value_load (hload : form = load32 ∨ form = load64) (i : Nat) :
    form.value o memories i =
      form.loaded o memories i >>= fun e => bitsOf (.ok e) (.ok 0) := by
  obtain rfl | rfl := hload <;> rfl

theorem loaded_of_value (hload : form = load32 ∨ form = load64) {i : Nat} {x : BitVec 64}
    (h : form.value o memories i = .ok x) : ∃ e, form.loaded o memories i = .ok e := by
  rw [value_load hload] at h
  obtain ⟨e, he, -⟩ := bind_eq_ok.mp h
  exact ⟨e, he⟩

section Loads

variable {is : List Nat} {f : Nat → Except Fault (Option Elem)}

/-- A loop from an empty vector over lanes that are loaded where their mask bit is set. -/
theorem setLoaded_bits (hload : form = load32 ∨ form = load64) (hfits : form.fits o.csr.vtypeVsew)
    (hf : ∀ i ∈ is, f i = if form.masked o i = true then form.loaded o memories i else .ok none)
    (hall : ∀ i ∈ is, form.masked o i = true → ∃ e, form.loaded o memories i = .ok e ∧
      (e.isSome = true → i < (ofContext o.csr).vlen)) :
    ∃ vd, (ofContext o.csr).setLanes is f = .ok vd ∧ ∀ j < (ofContext o.csr).vlen,
      vd.bitsAt o.csr.vtypeVsew j =
        if j ∈ is ∧ form.masked o j = true then form.value o memories j else .ok 0 := by
  have hlane : ∀ i ∈ is, ∃ e, f i = .ok e ∧
      ∀ e', e = some e' → e'.type ∈ elementTypes o.csr.vtypeVsew ∧
        (ofContext o.csr).Room e'.type i := by
    intro i hi
    rw [hf i hi]
    by_cases hm : form.masked o i = true
    · obtain ⟨e, he, hlt⟩ := hall i hi hm
      rw [if_pos hm]
      refine ⟨e, he, fun e' he' => ?_⟩
      subst he'
      have htype := (loaded_fits hfits he).1
      exact ⟨htype, room_ofContext htype (hlt rfl)⟩
    · rw [if_neg hm]
      exact ⟨none, rfl, nofun⟩
  obtain ⟨vd, hvd, -, hbits⟩ := setLanes_bits hlane
  refine ⟨vd, hvd, fun j hj => ?_⟩
  rw [hbits, bitsAt_ofContext hj]
  by_cases hmem : j ∈ is
  · rw [if_pos hmem, hf j hmem]
    by_cases hm : form.masked o j = true
    · obtain ⟨e, he, -⟩ := hall j hmem hm
      rw [if_pos hm, if_pos ⟨hmem, hm⟩, value_load hload, he, ok_bind]
    · rw [if_neg hm, if_neg fun h => hm h.2]
      rfl
  · rw [if_neg hmem, if_neg fun h => hmem h.1]

theorem keeps_load_iff (hload : form = load32 ∨ form = load64) (hfits : form.fits o.csr.vtypeVsew)
    (hf : ∀ i ∈ is, f i = if form.masked o i = true then form.loaded o memories i else .ok none)
    (hold : BuiltFor o.csr (o.v dest))
    (hvalue : ∀ i < (ofContext o.csr).vlen, form.Active o i →
      ∃ x, form.value o memories i = .ok x) :
    (∃ vd, (ofContext o.csr).setLanes is f = .ok vd ∧ form.Keeps o memories vd) ↔
      (∀ i ∈ is, (ofContext o.csr).vlen ≤ i → form.masked o i = true →
        form.loaded o memories i = .ok none) ∧
      (∀ i < (ofContext o.csr).vlen, form.Active o i → i ∉ is →
        form.value o memories i = .ok 0) ∧
      ∀ i < (ofContext o.csr).vlen, ¬ form.Active o i →
        (if i ∈ is ∧ form.masked o i = true then form.value o memories i else .ok 0) =
          (o.v dest).bitsAt o.csr.vtypeVsew i := by
  constructor
  · rintro ⟨vd, hvd, hkeeps⟩
    have hall : ∀ i ∈ is, form.masked o i = true → ∃ e, form.loaded o memories i = .ok e ∧
        (e.isSome = true → i < (ofContext o.csr).vlen) := by
      intro i hi hm
      obtain ⟨e, he, hroom⟩ := of_setLanes hvd hi
      rw [hf i hi, if_pos hm] at he
      refine ⟨e, he, fun hsome => ?_⟩
      obtain ⟨e', rfl⟩ := Option.isSome_iff_exists.mp hsome
      exact (loaded_fits hfits he).2 (hroom e' rfl)
    obtain ⟨vd', hvd', hbits⟩ := setLoaded_bits hload hfits hf hall
    obtain rfl := Except.ok.inj (hvd.symm.trans hvd')
    refine ⟨fun i hi hle hm => ?_, fun i hi hact hmem => ?_, fun i hi hact => ?_⟩
    · obtain ⟨e, he, hlt⟩ := hall i hi hm
      cases e with
      | none => exact he
      | some e => exact absurd (hlt rfl) (by omega)
    · have heq := hkeeps i hi
      rwa [hbits i hi, if_pos hact, if_neg fun h => hmem h.1, eq_comm] at heq
    · have heq := hkeeps i hi
      rwa [hbits i hi, if_neg hact] at heq
  · rintro ⟨hbeyond, hnever, hinactive⟩
    have hall : ∀ i ∈ is, form.masked o i = true → ∃ e, form.loaded o memories i = .ok e ∧
        (e.isSome = true → i < (ofContext o.csr).vlen) := by
      intro i hi hm
      by_cases hlt : i < (ofContext o.csr).vlen
      · have hok : ∃ x, form.value o memories i = .ok x := by
          by_cases hact : form.Active o i
          · exact hvalue i hlt hact
          · have heq := hinactive i hlt hact
            rw [if_pos ⟨hi, hm⟩] at heq
            rw [heq]
            exact exists_bitsAt hold (hold.vlen ▸ hlt)
        obtain ⟨e, he⟩ := loaded_of_value hload hok.choose_spec
        exact ⟨e, he, fun _ => hlt⟩
      · exact ⟨none, hbeyond i hi (by omega) hm, nofun⟩
    obtain ⟨vd, hvd, hbits⟩ := setLoaded_bits hload hfits hf hall
    refine ⟨vd, hvd, fun i hi => ?_⟩
    rw [hbits i hi]
    by_cases hact : form.Active o i
    · rw [if_pos hact]
      by_cases hmem : i ∈ is
      · rw [if_pos ⟨hmem, hact.2⟩]
      · rw [if_neg fun h => hmem h.1, hnever i hi hact hmem]
    · rw [if_neg hact]
      exact hinactive i hi hact

end Loads

theorem loadLane_eq {i : Nat} (hmask : BuiltFor o.csr (o.v form.mask))
    (hindices : form = load32 → BuiltFor o.csr (o.v (src 2))) (hfits : form.fits o.csr.vtypeVsew)
    (hi : i < (ofContext o.csr).vlen ∨ form = load32 ∧ i < 8) :
    form.loadLane o memories i =
      if form.masked o i = true then form.loaded o memories i else .ok none := by
  have hwords (h : form = load32) : 8 ≤ (ofContext o.csr).data.length := by
    subst h
    have hsew : o.csr.vtypeVsew = .e32 := hfits
    rw [ofContext, hsew]
    cases o.csr.vtypeVlmul <;> decide
  have hbit : (o.v form.mask).getVmaskData i = .ok (form.masked o i) := by
    refine getVmaskData_eq ?_
    rw [hmask.words]
    obtain hlt | ⟨h32, hlt⟩ := hi
    · exact words_of_vlen hlt
    · have hle := hwords h32
      rw [unionDataSize]
      omega
  by_cases h32 : form = load32
  · have hindex : i < (o.v (src 2)).data.length := by
      rw [(hindices h32).words]
      have hle := hwords h32
      obtain hlt | ⟨-, hlt⟩ := hi
      · have hbits := bits_le_words o.csr
        subst h32
        rw [show o.csr.vtypeVsew = .e32 from hfits, Vsew.bits] at hbits
        omega
      · omega
    have hread : (o.v (src 2)).getIntData i = .ok (o.v (src 2)).data[i] := by
      rw [getIntData, word, List.getElem?_eq_getElem hindex]
    rw [loadLane, if_pos h32, hread, ok_bind, hbit]
    rfl
  · rw [loadLane, if_neg h32, hbit]
    rfl

/-! ## The forms -/

/-- The vector the instruction hands to its destination. -/
def result (form : MaskedForm) (o : Operands) (memories : Memories) : Except Fault VectorData :=
  match form with
  | moveV => .ok (o.v (src 0))
  | moveI => setUnmasked (o.v dest) o.csr (true, o.v moveI.mask)
      (setImmediate o.csr.vtypeVsew (BitVec.ofInt 64 (o.field (src 0))))
  | moveX => setUnmasked (o.v dest) o.csr (true, o.v moveX.mask) fun vd i => do
      vd.setData (← Elem.cast (integerType o.csr.vtypeVsew) (.long (o.x (src 0)))) i
  | or => (o.v dest).setLanes (lanes o.csr.vstart (o.v dest).vlen) fun i => do
      if ← (o.v MaskedForm.or.mask).getVmaskData i then
        Machine.orElement (o.v (src 0)) (o.v (src 1)) i
      else return none
  | load32 => do
      let vd ← (ofContext o.csr).setLanes (load32.loadLanes o.csr) (load32.loadLane o memories)
      if [DataType.int32, .float32].contains vd.type then .ok vd else .error .assertion
  | load64 => (ofContext o.csr).setLanes (load64.loadLanes o.csr) (load64.loadLane o memories)

theorem written_eq {renamed : NdpInstruction} {u : RegisterUnit} {ndpId : Int} {req : RequestInfo}
    {context : Context} (memories : Memories) (hcontext : context = ⟨ndpId, o.csr, req⟩)
    (h : Seen form renamed u context o) (hmask : (o.v form.mask).type = .vmask) :
    Machine.written (RegisterUnit.fileOps ndpId req) renamed ⟨u, memories, o.csr⟩ =
      some <$> form.result o memories := by
  subst hcontext
  have hop := h.opcode
  have ht := h.operandType
  refine Machine.written_of_run (by rw [hop]; cases form <;> rfl) (by rw [hop]; cases form <;> rfl)
    (by rw [hop]; cases form <;> decide) ?_
  rw [hop, ht]
  have hx {s : Slot} (hs : s ∈ form.scalars) :
      (RegisterUnit.fileOps ndpId req).recording.readX (u, none) o.csr (renamed.operand s) =
        .ok (o.x s) := h.scalars s hs
  have hv {s : Slot} (hs : s ∈ dest :: form.mask :: form.vectors) (hr : s ∈ form.renamed) :
      (RegisterUnit.fileOps ndpId req).recording.readV (u, none) o.csr (renamed.operand s) =
        .ok (o.v s) := h.vectors s hs hr
  have hdest := hv List.mem_cons_self (by cases form <;> decide)
  cases form with
  | moveV =>
    exact Machine.run_moveV h.masked (h.unrenamed (by decide)) h.inUse hdest
      (hv (by decide) (by decide))
  | moveI =>
    have hrun := Machine.run_moveI (m := ⟨u, memories, o.csr⟩)
      h.masked (hv (s := src 1) (by decide) (by decide)) h.inUse hdest
    rw [h.others (src 0) (by decide)] at hrun
    exact hrun
  | moveX =>
    exact Machine.run_moveX h.masked (hv (s := src 1) (by decide) (by decide)) h.inUse hdest
      (hx (by decide))
  | or =>
    exact Machine.run_or (hv (by decide) (by decide)) hdest (hv (by decide) (by decide))
      (hv (s := src 2) (by decide) (by decide))
  | load32 =>
    have hrun := Machine.run_load32 (m := ⟨u, memories, o.csr⟩) (hx (s := src 0) (by decide))
      (hv (s := src 2) (by decide) (by decide)) (hv (s := src 3) (by decide) (by decide)) hmask
    rw [show renamed.src 1 = o.field (src 1) from h.others (src 1) (by decide)] at hrun
    exact hrun
  | load64 =>
    have hrun := Machine.run_load64 (m := ⟨u, memories, o.csr⟩) h.masked
      (hx (s := src 0) (by decide))
      (hv (s := src 2) (by decide) (by decide)) (hv (s := src 3) (by decide) (by decide)) hmask
    rw [show renamed.src 1 = o.field (src 1) from h.others (src 1) (by decide)] at hrun
    exact hrun

omit [FloatOps] in
theorem loadLanes_load64 {c : CSR} (hfits : MaskedForm.load64.fits c.vtypeVsew)
    (hpos : 0 < (ofContext c).vlen) :
    MaskedForm.load64.loadLanes c = List.range (ofContext c).vlen := by
  have hsew : c.vtypeVsew = .e64 := hfits
  change List.range _ = _
  revert hpos
  rw [ofContext, hsew]
  cases c.vtypeVlmul <;> decide

/-- `VLUXEI32` fails after its loop unless it has loaded an element. -/
theorem result_load32_iff {P : VectorData → Prop}
    (hf : ∀ i < 8, load32.loadLane o memories i =
      if load32.masked o i = true then load32.loaded o memories i else .ok none) :
    (∃ vd, load32.result o memories = .ok vd ∧ P vd) ↔
      (∃ i < 8, load32.masked o i = true ∧ ∃ e, load32.loaded o memories i = .ok (some e)) ∧
      ∃ vd, (ofContext o.csr).setLanes (List.range 8) (load32.loadLane o memories) = .ok vd ∧
        P vd := by
  have htype {vd : VectorData} (h : (ofContext o.csr).setLanes (List.range 8)
      (load32.loadLane o memories) = .ok vd) : [DataType.int32, .float32].contains vd.type = true ↔
      ∃ i < 8, load32.masked o i = true ∧ ∃ e, load32.loaded o memories i = .ok (some e) := by
    obtain ⟨htype, hnone⟩ | ⟨i, hi, e, he, htype⟩ := type_of_setLanes h
    · rw [htype]
      refine ⟨fun h => absurd h (by simp [ofContext]), fun ⟨i, hi, hm, e, he⟩ => ?_⟩
      have heq := hnone i (List.mem_range.mpr hi)
      rw [hf i hi, if_pos hm, he] at heq
      cases heq
    · rw [hf i (List.mem_range.mp hi)] at he
      by_cases hm : load32.masked o i = true
      · rw [if_pos hm] at he
        rw [htype]
        refine iff_of_true ?_ ⟨i, List.mem_range.mp hi, hm, e, he⟩
        obtain ⟨-, h⟩ | ⟨h, -⟩ := loaded_type he
        · exact h
        · cases h
      · rw [if_neg hm] at he
        cases he
  constructor
  · rintro ⟨vd, hvd, hP⟩
    obtain ⟨vd', hvd', hcheck⟩ := bind_eq_ok.mp hvd
    by_cases ht : [DataType.int32, .float32].contains vd'.type = true
    · rw [if_pos ht] at hcheck
      obtain rfl := Except.ok.inj hcheck
      exact ⟨(htype hvd').mp ht, vd', hvd', hP⟩
    · rw [if_neg ht] at hcheck
      cases hcheck
  · rintro ⟨hsome, vd, hvd, hP⟩
    refine ⟨vd, bind_eq_ok.mpr ⟨vd, hvd, ?_⟩, hP⟩
    rw [if_pos ((htype hvd).mpr hsome)]

/-- `VLUXEI64` looks at one lane even if there are none. -/
theorem vlen_pos_of_load64 {vd : VectorData} (hmask : BuiltFor o.csr (o.v MaskedForm.load64.mask))
    (hfits : MaskedForm.load64.fits o.csr.vtypeVsew)
    (h : (ofContext o.csr).setLanes (MaskedForm.load64.loadLanes o.csr)
      (MaskedForm.load64.loadLane o memories) = .ok vd) : 0 < (ofContext o.csr).vlen := by
  have hsew : o.csr.vtypeVsew = .e64 := hfits
  by_contra hzero
  have hlmul : o.csr.vtypeVlmul = .mf8 := by
    revert hzero
    rw [ofContext, hsew]
    cases o.csr.vtypeVlmul <;> decide
  have hlane : 0 ∈ MaskedForm.load64.loadLanes o.csr := by
    change 0 ∈ List.range _
    rw [hlmul]
    decide
  obtain ⟨e, he, -⟩ := of_setLanes h hlane
  have hwords : (o.v MaskedForm.load64.mask).data = [] := by
    rw [← List.length_eq_zero_iff, hmask.words, ofContext, hsew, hlmul]
    rfl
  rw [loadLane, if_neg (by decide)] at he
  obtain ⟨b, hb, -⟩ := bind_eq_ok.mp he
  rw [getVmaskData, word, hwords] at hb
  cases hb

theorem exists_keeps_iff (h : form.result o memories = .ok vd) :
    (∃ vd, form.result o memories = .ok vd ∧ form.Keeps o memories vd) ↔
      form.Keeps o memories vd := by
  refine ⟨fun ⟨vd', hvd', hkeeps⟩ => ?_, fun hkeeps => ⟨vd, h, hkeeps⟩⟩
  obtain rfl := Except.ok.inj (h.symm.trans hvd')
  exact hkeeps

/-- When the destination is as it has to be. -/
theorem result_keeps_iff (vectors : ∀ s ∈ dest :: form.mask :: form.vectors, BuiltFor o.csr (o.v s))
    (hfits : form.fits o.csr.vtypeVsew)
    (hvalue : ∀ i < (ofContext o.csr).vlen, form.Active o i →
      ∃ x, form.value o memories i = .ok x) :
    (∃ vd, form.result o memories = .ok vd ∧ form.Keeps o memories vd) ↔
      form.KeepsWhen o memories := by
  have hold := vectors dest List.mem_cons_self
  have hmask := vectors form.mask (List.mem_cons_of_mem _ List.mem_cons_self)
  cases form with
  | moveV =>
    constructor
    · rintro ⟨vd, hvd, hkeeps⟩ i hi hact
      obtain rfl := Except.ok.inj hvd
      have heq := hkeeps i hi
      rwa [if_neg hact] at heq
    · refine fun h => ⟨_, rfl, fun i hi => ?_⟩
      by_cases hact : moveV.Active o i
      · rw [if_pos hact]
        rfl
      · rw [if_neg hact]
        exact h i hi hact
  | moveI =>
    obtain ⟨vd, hvd, hbits⟩ := setMasked_bits hold hmask
      fun u i => setImmediate_bits (BitVec.ofInt 64 (o.field (src 0)))
    rw [hold.vlen] at hbits
    have hresult : moveI.result o memories = .ok vd := hvd
    exact (exists_keeps_iff hresult).trans (keeps_iff_of_bits rfl fun j _ => hbits j)
  | moveX =>
    obtain ⟨vd, hvd, hbits⟩ := setMasked_bits hold hmask fun u i => setScalar_bits (o.x (src 0))
    rw [hold.vlen] at hbits
    have hresult : moveX.result o memories = .ok vd := hvd
    exact (exists_keeps_iff hresult).trans (keeps_iff_of_bits rfl fun j _ => hbits j)
  | or =>
    obtain ⟨vd, hvd, hbits⟩ := setOr_bits hold hmask (vectors (src 0) (by decide))
      (vectors (src 1) (by decide))
    rw [hold.vlen] at hbits
    have hresult : or.result o memories = .ok vd := hvd
    exact (exists_keeps_iff hresult).trans (keeps_iff_of_bits rfl fun j _ => hbits j)
  | load32 =>
    have hf : ∀ i ∈ load32.loadLanes o.csr, load32.loadLane o memories i =
        if load32.masked o i = true then load32.loaded o memories i else .ok none :=
      fun i hi => loadLane_eq hmask (fun _ => vectors (src 2) (by decide)) hfits
        (.inr ⟨rfl, List.mem_range.mp hi⟩)
    have hiff := keeps_load_iff (.inl rfl) hfits hf hold hvalue
    simp only [loadLanes, List.mem_range, not_lt] at hiff hf
    exact (result_load32_iff hf).trans (and_congr_right' hiff)
  | load64 =>
    have hf : ∀ i ∈ List.range (ofContext o.csr).vlen, load64.loadLane o memories i =
        if load64.masked o i = true then load64.loaded o memories i else .ok none :=
      fun i hi => loadLane_eq hmask nofun hfits (.inl (List.mem_range.mp hi))
    have hiff := keeps_load_iff (.inr rfl) hfits hf hold hvalue
    constructor
    · rintro ⟨vd, hvd, hkeeps⟩
      have hpos := vlen_pos_of_load64 hmask hfits hvd
      rw [result, loadLanes_load64 hfits hpos] at hvd
      have hrest := (hiff.mp ⟨vd, hvd, hkeeps⟩).2.2
      refine ⟨hpos, fun i hi hact => ?_⟩
      simpa only [List.mem_range, hi, true_and] using hrest i hi hact
    · rintro ⟨hpos, hrest⟩
      rw [result, loadLanes_load64 hfits hpos]
      refine hiff.mpr ⟨fun i hi hle => ?_, fun i hi _ hmem => ?_, fun i hi hact => ?_⟩
      · exact absurd (List.mem_range.mp hi) (by omega)
      · exact absurd (List.mem_range.mpr hi) hmem
      · simpa only [List.mem_range, hi, true_and] using hrest i hi hact

/-! ## Without a mask -/

omit [FloatOps] in
/-- An empty register is looked at for the mask bits of a move without a mask. -/
theorem getVmaskData_default {c : CSR} {i : Nat} (hi : i < (ofContext c).vlen) :
    VectorData.default.getVmaskData i = .ok (VectorData.default.maskBit i) := by
  refine getVmaskData_eq ?_
  have hle := vlen_ofContext_le c
  have hwords : VectorData.default.data.length = 8 := rfl
  rw [hwords, unionDataSize]
  omega

omit [FloatOps] in
theorem setAll_bits {old : VectorData} (hvlen : old.vlen = (ofContext c).vlen)
    (hroom : ∀ t ∈ elementTypes c.vtypeVsew, ∀ i < old.vlen, old.Room t i) (hpos : 0 ≤ c.vstart)
    {set : VectorData → Nat → Except Fault VectorData} {b : BitVec 64}
    (hset : ∀ u i, (∀ t ∈ elementTypes c.vtypeVsew, u.Room t i) →
      ∃ u', set u i = .ok u' ∧ BitsSet c.vtypeVsew u i b u') :
    ∃ vd, setUnmasked old c (false, .default) set = .ok vd ∧ ∀ j < (ofContext c).vlen,
      c.vstart ≤ j → vd.bitsAt c.vtypeVsew j = .ok b := by
  obtain ⟨vd, hvd, hbits⟩ := setUnmasked_bits false hroom
    (fun i hi => getVmaskData_default (hvlen ▸ hi)) hset
  refine ⟨vd, hvd, fun j hj hle => ?_⟩
  rw [hbits, if_pos ⟨mem_lanes.mpr ⟨hpos, hle, hvlen ▸ hj⟩, nofun⟩]

omit [FloatOps] in
theorem run_oldDest_bind {p : Operands.Progress} {α : Type} (c : CSR) (k : VectorData → Exec α) :
    Prog.run o.handle (oldDest c >>= k) p =
      (k (if o.inUse = true then o.v dest else ofContext c)).run o.handle p := by
  rw [oldDest, Prog.run_bind, Prog.run_bind]
  change (Prog.run o.handle (if o.inUse = true then readV dest else pure (ofContext c)) p >>= _) = _
  cases o.inUse <;> rfl

omit [FloatOps] in
theorem run_setUnmasked_write (x : Except Fault VectorData) :
    Prog.run o.handle ((liftM x : Exec VectorData) >>= writeV dest) ⟨c, none⟩ =
      x >>= fun v => .ok ((), ⟨c, some v⟩) := by
  cases x <;> rfl

/-- A move without a mask gives every element from the start on its value. -/
theorem unmasked_move (hform : form = moveV ∨ form = moveI ∨ form = moveX)
    (hfield : o.field (src 1) = -1) (hpos : 0 ≤ o.csr.vstart)
    (hdest : o.inUse = true → BuiltFor o.csr (o.v dest)) :
    o.Yields form.opcode form.operandType fun vd => ∀ i < (ofContext o.csr).vlen,
      o.csr.vstart ≤ i → vd.bitsAt o.csr.vtypeVsew i = form.value o memories i := by
  have hmask (k : Bool × VectorData → Exec Unit) :
      Prog.run o.handle (maskOperand (src 1) >>= k) ⟨o.csr, none⟩ =
        (k (false, .default)).run o.handle ⟨o.csr, none⟩ := by
    rw [Operands.run_maskOperand_bind, hfield]
    rfl
  have hempty : ∀ t ∈ elementTypes o.csr.vtypeVsew, ∀ i < (ofContext o.csr).vlen,
      (ofContext o.csr).Room t i := fun t ht i hi => room_ofContext ht hi
  have hold : (if o.inUse = true then o.v dest else ofContext o.csr).vlen =
        (ofContext o.csr).vlen ∧ ∀ t ∈ elementTypes o.csr.vtypeVsew,
      ∀ i < (if o.inUse = true then o.v dest else ofContext o.csr).vlen,
        (if o.inUse = true then o.v dest else ofContext o.csr).Room t i := by
    split
    · rename_i hin
      exact ⟨(hdest hin).vlen, fun t ht i hi => (hdest hin).room ht hi⟩
    · exact ⟨rfl, hempty⟩
  obtain rfl | rfl | rfl := hform
  · refine (Operands.yields_iff (x := .ok (o.v (src 0))) (Operands.result_of_run rfl rfl
      (by decide) (k := executeVmv .v_v) rfl ?_)).mpr ⟨_, rfl, fun i hi hle => rfl⟩
    rw [executeVmv, Operands.run_csr_bind, hmask]
    exact run_oldDest_bind _ _
  · obtain ⟨vd, hvd, hbits⟩ := setAll_bits rfl hempty hpos
      fun u i => setImmediate_bits (BitVec.ofInt 64 (o.field (src 0)))
    refine (Operands.yields_iff (Operands.result_of_run rfl rfl (by decide)
      (k := executeVmv .v_i) rfl ?_)).mpr ⟨vd, hvd, hbits⟩
    rw [executeVmv, Operands.run_csr_bind, hmask]
    change Prog.run o.handle ((if (o.inUse && false) = true then readV dest
      else pure (ofContext o.csr) : Exec VectorData) >>= fun vd => _) _ = _
    rw [Bool.and_false, if_neg (by decide)]
    exact run_setUnmasked_write _
  · obtain ⟨vd, hvd, hbits⟩ := setAll_bits hold.1 hold.2 hpos
      fun u i => setScalar_bits (o.x (src 0))
    refine (Operands.yields_iff (Operands.result_of_run rfl rfl (by decide)
      (k := executeVmv .v_x) rfl ?_)).mpr ⟨vd, hvd, hbits⟩
    rw [executeVmv, Operands.run_csr_bind, hmask]
    exact (run_oldDest_bind _ _).trans (run_setUnmasked_write _)

end MaskedForm

/-- A masked instruction of a packet, renamed and executed. -/
theorem masked_keeps_iff [FloatOps] {form : MaskedForm} {inst : NdpInstruction} {u : RegisterUnit}
    {key ndpId : Int} {req : RequestInfo} {o : Operands} {memories : Memories} (hu : u.Conserved)
    (hl : u.Layout) (h : Sees form inst u key ⟨ndpId, o.csr, req⟩ o)
    (hfits : form.fits o.csr.vtypeVsew)
    (hvalue : ∀ i < (ofContext o.csr).vlen, form.Active o i →
      ∃ x, form.value o memories i = .ok x) :
    (∃ renamed u' vd, u.convertInst key inst = .ok (renamed, u') ∧
      Machine.written (RegisterUnit.fileOps ndpId req) renamed ⟨u', memories, o.csr⟩ =
        .ok (some vd) ∧ form.Keeps o memories vd) ↔ form.KeepsWhen o memories := by
  obtain ⟨renamed, hconvert, hseen⟩ := convertInst_sees hu hl h
  have hwritten := MaskedForm.written_eq memories rfl hseen h.maskType
  rw [← MaskedForm.result_keeps_iff (fun s hs => (h.vectors s hs).1) hfits hvalue]
  constructor
  · rintro ⟨renamed', u', vd, hconvert', hvd, hkeeps⟩
    obtain ⟨rfl, rfl⟩ := Prod.mk.inj (Except.ok.inj (hconvert.symm.trans hconvert'))
    refine ⟨vd, ?_, hkeeps⟩
    rw [hwritten] at hvd
    revert hvd
    cases form.result o memories with
    | error e => exact nofun
    | ok vd' => exact fun hvd => congrArg Except.ok (Option.some_inj.mp (Except.ok.inj hvd))
  · rintro ⟨vd, hvd, hkeeps⟩
    exact ⟨renamed, u, vd, hconvert, by rw [hwritten, hvd]; rfl, hkeeps⟩

/-! ## Masked moves -/

namespace MaskedForm

/-- `vmv v1, x, v0` -/
def maskedMove (t : OperandType) (x : Int) : NdpInstruction :=
  { opcode := .vmv, operandType := t, src := ![x, regVBase, -1, -1, -1], dest := regVBase + 1,
    segDest := 0, segCnt := 0, doBranch := false }

/-- The second and the fifth element are active. -/
def twoActive : VectorData :=
  { (ofContext {}).setType .vmask with data := 18 :: List.replicate 7 0 }

/-- What is in the destination before. -/
def countingDown : VectorData := { counting with data := counting.data.reverse }

/-- Two elements are active, the old destination counts down, and the source up. -/
def partMask (inst : NdpInstruction) : Operands where
  v
    | .dest => countingDown
    | .src 0 => counting
    | _ => twoActive
  field := inst.operand

/-- The packet 0 has names `v0`, `v1` and `v2` for the mask, the destination and the source. -/
def maskedUnit : RegisterUnit :=
  { RegisterUnit.create 0 0 3 with
    vregs := ⟨[], AList.insert 0 (AList.insert (regVBase + 2) (regPVBase + 2)
      (AList.insert (regVBase + 1) (regPVBase + 1) (AList.insert regVBase regPVBase ∅))) ∅⟩
    vregTable := Function.update (Function.update (fun _ => twoActive) (regPVBase + 1)
      countingDown) (regPVBase + 2) counting }

theorem conserved_maskedUnit : maskedUnit.Conserved :=
  ⟨fun c => by cases c <;> decide, nofun⟩

theorem layout_maskedUnit : maskedUnit.Layout := ⟨by decide, by decide, by decide⟩

theorem sees_moveI : Sees moveI (maskedMove .v_i 7) maskedUnit 0 ⟨0, {}, RegisterUnit.sampleRequest⟩
    (partMask (maskedMove .v_i 7)) where
  opcode := rfl
  operandType := rfl
  masked := by decide
  csr := rfl
  field := rfl
  vectors s hs := by
    obtain rfl | rfl : s = dest ∨ s = src 1 := by simpa [mask, vectors] using hs
    · exact ⟨⟨.inl (by decide), rfl, rfl, rfl⟩, regPVBase + 1, rfl, rfl⟩
    · exact ⟨⟨.inr rfl, rfl, rfl, rfl⟩, regPVBase, rfl, rfl⟩
  scalars := nofun
  destType := by decide
  maskType := rfl

/-- An immediate under a mask. -/
theorem masked_keeps_moveI : letI := FloatOps.zero
    ∃ renamed u' vd, maskedUnit.convertInst 0 (maskedMove .v_i 7) = .ok (renamed, u') ∧
      Machine.written (RegisterUnit.fileOps 0 RegisterUnit.sampleRequest) renamed
        ⟨u', noPackets, {}⟩ = .ok (some vd) ∧
      moveI.Keeps (partMask (maskedMove .v_i 7)) noPackets vd :=
  let _ := FloatOps.zero
  have hfits : moveI.fits (partMask (maskedMove .v_i 7)).csr.vtypeVsew := trivial
  have hwhen : moveI.KeepsWhen (partMask (maskedMove .v_i 7)) noPackets := .inl (by decide)
  (masked_keeps_iff conserved_maskedUnit layout_maskedUnit sees_moveI hfits
    fun _ _ _ => ⟨_, rfl⟩).mpr hwhen

theorem sees_moveV :
    Sees moveV (maskedMove .v_v (regVBase + 2)) maskedUnit 0 ⟨0, {}, RegisterUnit.sampleRequest⟩
      (partMask (maskedMove .v_v (regVBase + 2))) where
  opcode := rfl
  operandType := rfl
  masked := by decide
  csr := rfl
  field := rfl
  vectors s hs := by
    obtain rfl | rfl | rfl : s = dest ∨ s = src 1 ∨ s = src 0 := by
      simpa [mask, vectors] using hs
    · exact ⟨⟨.inl (by decide), rfl, rfl, rfl⟩, regPVBase + 1, rfl, rfl⟩
    · exact ⟨⟨.inr rfl, rfl, rfl, rfl⟩, regPVBase, rfl, rfl⟩
    · exact ⟨builtFor_counting, regPVBase + 2, rfl, rfl⟩
  scalars := nofun
  destType := by decide
  maskType := rfl

/-- A vector is moved whole, whatever its mask. -/
theorem not_masked_keeps_moveV : letI := FloatOps.zero
    Sees moveV (maskedMove .v_v (regVBase + 2)) maskedUnit 0 ⟨0, {}, RegisterUnit.sampleRequest⟩
        (partMask (maskedMove .v_v (regVBase + 2))) ∧
      ¬ ∃ renamed u' vd,
        maskedUnit.convertInst 0 (maskedMove .v_v (regVBase + 2)) = .ok (renamed, u') ∧
        Machine.written (RegisterUnit.fileOps 0 RegisterUnit.sampleRequest) renamed
          ⟨u', noPackets, {}⟩ = .ok (some vd) ∧
        moveV.Keeps (partMask (maskedMove .v_v (regVBase + 2))) noPackets vd := by
  let _ := FloatOps.zero
  refine ⟨sees_moveV, ?_⟩
  rintro ⟨renamed', u', vd, hconvert', hvd, hkeeps⟩
  obtain ⟨renamed, hconvert, hseen⟩ :=
    convertInst_sees conserved_maskedUnit layout_maskedUnit sees_moveV
  obtain ⟨rfl, rfl⟩ := Prod.mk.inj (Except.ok.inj (hconvert.symm.trans hconvert'))
  have hwritten := hvd.symm.trans (written_eq noPackets rfl hseen sees_moveV.maskType)
  obtain rfl : vd = counting := Option.some_inj.mp (Except.ok.inj hwritten)
  have heq := hkeeps 0 (by decide)
  rw [if_neg (by decide)] at heq
  exact absurd (Except.ok.inj heq) (by decide)

end MaskedForm

end NdpSim
