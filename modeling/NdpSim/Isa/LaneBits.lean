import NdpSim.Isa.Results

/-!
# Bits of an element

What a register holds in one lane, whatever the type it is read at: an element written at one type
of a width can be read at any other type of that width.
-/
namespace NdpSim

open Library

/-- The bits `SetData` stores for an element. -/
def Elem.bits [FloatOps] : Elem → BitVec 64
  | float x => x.setWidth 64
  | half x => (FloatOps.fp16IeeeFromFp32Value (FloatOps.floatOfHalf x)).setWidth 64
  | long x => x
  | int x => x.setWidth 64
  | short x => x.setWidth 64
  | u8 x => x.setWidth 64
  | char x => x.setWidth 64
  | bool b => (BitVec.ofBool b).setWidth 64

namespace VectorData

/-- The bits of element `i` at the width of the settings. -/
def bitsAt (v : VectorData) (sew : Vsew) (i : Nat) : Except Fault (BitVec 64) :=
  match sew with
  | .e8 => (·.setWidth 64) <$> v.getU8Data i
  | .e16 => (·.setWidth 64) <$> v.getShortData i
  | .e32 => (·.setWidth 64) <$> v.word i
  | .e64 => v.getLongData i

variable {v v' : VectorData} {sew : Vsew} {i : Nat}

theorem exists_bitsAt {c : CSR} (hv : BuiltFor c v) (hi : i < v.vlen) :
    ∃ x, v.bitsAt c.vtypeVsew i = .ok x := by
  have hle := hv.bits_le
  cases hsew : c.vtypeVsew with
  | e8 =>
    have hlt : i / 4 < v.data.length := by rw [hsew, Vsew.bits] at hle; omega
    have hw := List.getElem?_eq_getElem hlt
    simp only [bitsAt, getU8Data, word, hw]
    exact ⟨_, rfl⟩
  | e16 =>
    have hlt : i / 2 < v.data.length := by rw [hsew, Vsew.bits] at hle; omega
    have hw := List.getElem?_eq_getElem hlt
    simp only [bitsAt, getShortData, word, hw]
    exact ⟨_, rfl⟩
  | e32 =>
    have hlt : i < v.data.length := by rw [hsew, Vsew.bits] at hle; omega
    have hw := List.getElem?_eq_getElem hlt
    simp only [bitsAt, word, hw]
    exact ⟨_, rfl⟩
  | e64 =>
    rw [hsew, Vsew.bits] at hle
    exact ⟨_, getLongData_eq_ok (List.getElem?_eq_getElem (by omega : 2 * i < v.data.length))
      (List.getElem?_eq_getElem (by omega : 2 * i + 1 < v.data.length))⟩

/-- The elements of an empty vector are zero. -/
theorem bitsAt_ofContext {c : CSR} (hi : i < (ofContext c).vlen) :
    (ofContext c).bitsAt c.vtypeVsew i = .ok 0 := by
  have hle := bits_le_words c
  have hzero {j : Nat} (hj : j < (ofContext c).data.length) : (ofContext c).data[j]? = some 0 := by
    rw [List.getElem?_eq_getElem hj]
    simp [ofContext]
  cases hsew : c.vtypeVsew with
  | e8 | e16 | e32 =>
    rw [hsew, Vsew.bits] at hle
    first
      | rw [bitsAt, getU8Data, word, hzero (by omega)]
      | rw [bitsAt, getShortData, word, hzero (by omega)]
      | rw [bitsAt, word, hzero (by omega)]
    simp [Bind.bind, Except.bind, Pure.pure, Except.pure, Functor.map, Except.map]
  | e64 =>
    rw [hsew, Vsew.bits] at hle
    exact getLongData_eq_ok (hzero (by omega)) (hzero (by omega))

/-- `v'` is `v` with the bits of element `i` replaced. -/
structure BitsSet (sew : Vsew) (v : VectorData) (i : Nat) (b : BitVec 64) (v' : VectorData) :
    Prop where
  shape : SameShape v v'
  bits : ∀ j, v'.bitsAt sew j = if j = i then .ok b else v.bitsAt sew j

theorem setField_bits {t : DataType} {n perWord : Nat} {x : BitVec n} (hp : 0 < perWord)
    (hn : n * perWord ≤ 32) (hsew : ∀ (v : VectorData) i, v.bitsAt sew i =
      (·.setWidth 64) <$> v.field n perWord i) (hv : i / perWord < v.vlen)
    (hw : i / perWord < v.data.length) : ∃ v', v.setField t i perWord x = .ok v' ∧ v'.type = t ∧
      BitsSet sew v i (x.setWidth 64) v' := by
  have hword := List.getElem?_eq_getElem hw
  refine ⟨_, setField_eq hv hword, rfl, ⟨rfl, rfl, List.length_set ..⟩, fun j => ?_⟩
  rw [hsew, hsew, field_set hp hn hword]
  split <;> rfl

/-- A loop that replaces the active ones of its lanes. -/
theorem foldlM_bits {is : List Nat} {body : VectorData → Nat → Except Fault VectorData}
    {active : Nat → Bool} {b : Nat → BitVec 64}
    (hon : ∀ u, SameShape v u → ∀ i ∈ is, active i = true →
      ∃ u', body u i = .ok u' ∧ BitsSet sew u i (b i) u')
    (hoff : ∀ u, ∀ i ∈ is, active i = false → body u i = .ok u) :
    ∃ v', is.foldlM body v = .ok v' ∧ SameShape v v' ∧ ∀ j, v'.bitsAt sew j =
      if j ∈ is ∧ active j = true then .ok (b j) else v.bitsAt sew j := by
  induction is generalizing v with
  | nil => exact ⟨v, rfl, .refl v, fun j => by simp⟩
  | cons i is ih =>
    obtain ⟨v₁, hv₁, hshape, hbits⟩ : ∃ v₁, body v i = .ok v₁ ∧ SameShape v v₁ ∧ ∀ j,
        v₁.bitsAt sew j = if j = i ∧ active i = true then .ok (b i) else v.bitsAt sew j := by
      cases hi : active i with
      | true =>
        obtain ⟨v₁, hv₁, hset⟩ := hon v (.refl v) i List.mem_cons_self hi
        exact ⟨v₁, hv₁, hset.shape, fun j => by simpa using hset.bits j⟩
      | false => exact ⟨v, hoff v i List.mem_cons_self hi, .refl v, fun j => by simp⟩
    obtain ⟨v', hv', hshape', hbits'⟩ := ih (v := v₁)
      (fun u hu j hj => hon u (hshape.trans hu) j (List.mem_cons_of_mem _ hj))
      fun u j hj => hoff u j (List.mem_cons_of_mem _ hj)
    refine ⟨v', by rw [List.foldlM_cons, hv₁]; exact hv', hshape.trans hshape', fun j => ?_⟩
    rw [hbits', hbits]
    by_cases hj : j = i
    · subst hj
      by_cases hact : active j = true <;> simp [hact]
    · simp [hj]

variable [FloatOps]

/-- An element is stored as its bits. -/
theorem setData_bits {e : Elem} (ht : e.type ∈ elementTypes sew) (hroom : v.Room e.type i) :
    ∃ v', v.setData e i = .ok v' ∧ v'.type = e.type ∧ BitsSet sew v i e.bits v' := by
  cases sew with
  | e8 =>
    have hbyte (v : VectorData) (i : Nat) :
        v.bitsAt .e8 i = (·.setWidth 64) <$> v.field 8 4 i := rfl
    cases e <;> first
      | exact setField_bits (by decide) (by decide) hbyte hroom.1 hroom.2
      | exact absurd ht (by simp [elementTypes, Elem.type])
  | e16 =>
    have hshort (v : VectorData) (i : Nat) :
        v.bitsAt .e16 i = (·.setWidth 64) <$> v.field 16 2 i := rfl
    cases e <;> first
      | exact setField_bits (by decide) (by decide) hshort hroom.1 hroom.2
      | exact absurd ht (by simp [elementTypes, Elem.type])
  | e32 =>
    have hword (v : VectorData) (i : Nat) :
        v.bitsAt .e32 i = (·.setWidth 64) <$> v.field 32 1 i := by
      rw [← word_eq_field]
      rfl
    cases e <;> first
      | exact setField_bits (by decide) (by decide) hword hroom.1 hroom.2
      | exact absurd ht (by simp [elementTypes, Elem.type])
  | e64 =>
    cases e with
    | long x =>
      obtain ⟨v', hv', hat⟩ := setLong_spec (x := x) hroom
      refine ⟨v', hv', hat.type, hat.shape, fun j => ?_⟩
      have hget {w w' : Except Fault (BitVec 64)} (h : Elem.long <$> w = Elem.long <$> w') :
          w = w' := by
        cases w <;> cases w' <;> cases h <;> rfl
      by_cases hj : j = i
      · rw [if_pos hj, hj]
        exact hget hat.self
      · rw [if_neg hj]
        exact hget (hat.other j hj)
    | _ => exact absurd ht (by simp [elementTypes, Elem.type])

/-- The bits of an element or of none. -/
def bitsOf (o : Except Fault (Option Elem)) (default : Except Fault (BitVec 64)) :
    Except Fault (BitVec 64) :=
  match o with
  | .ok (some e) => .ok e.bits
  | _ => default

section SetLanes

variable {is : List Nat} {f : Nat → Except Fault (Option Elem)}

/-- Whether a lane has a value. -/
def hasValue : Except Fault (Option Elem) → Bool
  | .ok (some _) => true
  | _ => false

/-- The bits of the value of a lane that has one. -/
def valueBits : Except Fault (Option Elem) → BitVec 64
  | .ok (some e) => e.bits
  | _ => 0

/-- One lane of the loop. -/
def setLane (f : Nat → Except Fault (Option Elem)) (v : VectorData) (i : Nat) :
    Except Fault VectorData := do
  match ← f i with
  | some e => v.setData e i
  | none => return v

theorem setLanes_eq : v.setLanes is f = is.foldlM (setLane f) v := rfl

theorem setLane_some {e : Elem} (h : f i = .ok (some e)) : setLane f v i = v.setData e i := by
  rw [setLane, h, ok_bind]

theorem setLane_none (h : f i = .ok none) : setLane f v i = .ok v := by
  rw [setLane, h, ok_bind]
  rfl

/-- A loop over lanes that have values of the right width, or none, and room for them. -/
theorem setLanes_bits (hf : ∀ i ∈ is, ∃ o, f i = .ok o ∧
    ∀ e, o = some e → e.type ∈ elementTypes sew ∧ v.Room e.type i) :
    ∃ v', v.setLanes is f = .ok v' ∧ SameShape v v' ∧ ∀ j, v'.bitsAt sew j =
      if j ∈ is then bitsOf (f j) (v.bitsAt sew j) else v.bitsAt sew j := by
  have hon : ∀ u, SameShape v u → ∀ i ∈ is, hasValue (f i) = true →
      ∃ u', setLane f u i = .ok u' ∧ BitsSet sew u i (valueBits (f i)) u' := by
    intro u hu i hi hact
    obtain ⟨o, ho, hroom⟩ := hf i hi
    rw [ho] at hact ⊢
    cases o with
    | none => cases hact
    | some e =>
      obtain ⟨htype, hroom⟩ := hroom e rfl
      obtain ⟨u', hu', -, hset⟩ := setData_bits htype (hu.room.mpr hroom)
      exact ⟨u', (setLane_some ho).trans hu', hset⟩
  have hoff : ∀ u, ∀ i ∈ is, hasValue (f i) = false → setLane f u i = .ok u := by
    intro u i hi hact
    obtain ⟨o, ho, -⟩ := hf i hi
    cases o with
    | none => exact setLane_none ho
    | some e =>
      rw [ho] at hact
      cases hact
  obtain ⟨v', hv', hshape, hbits⟩ := foldlM_bits hon hoff
  refine ⟨v', hv', hshape, fun j => ?_⟩
  rw [hbits]
  by_cases hj : j ∈ is
  · obtain ⟨o, ho, -⟩ := hf j hj
    cases o <;> simp [hj, ho, bitsOf, hasValue, valueBits]
  · simp [hj]

/-- A loop that returns has found a value, or none, and room in every lane. -/
theorem of_setLanes {v' : VectorData} (h : v.setLanes is f = .ok v') {i : Nat} (hi : i ∈ is) :
    ∃ o, f i = .ok o ∧ ∀ e, o = some e → v.Room e.type i := by
  induction is generalizing v with
  | nil => cases hi
  | cons k is ih =>
    rw [setLanes_eq, List.foldlM_cons] at h
    obtain ⟨v₁, hv₁, h⟩ := bind_eq_ok.mp h
    obtain ⟨o, ho, hv₁⟩ := bind_eq_ok.mp hv₁
    have hstep : SameShape v v₁ ∧ ∀ e, o = some e → v.Room e.type k := by
      cases o with
      | none =>
        obtain rfl := Except.ok.inj hv₁
        exact ⟨.refl v, nofun⟩
      | some e =>
        obtain ⟨hroom, hat⟩ := setAt_of_setData hv₁
        exact ⟨hat.shape, fun e' he => by cases he; exact hroom⟩
    obtain rfl | hi := List.mem_cons.mp hi
    · exact ⟨o, ho, hstep.2⟩
    · obtain ⟨o', ho', hroom⟩ := ih h hi
      exact ⟨o', ho', fun e he => hstep.1.room.mp (hroom e he)⟩

/-- The type is that of the last value. -/
theorem type_of_setLanes {v' : VectorData} (h : v.setLanes is f = .ok v') :
    (v'.type = v.type ∧ ∀ i ∈ is, f i = .ok none) ∨
      ∃ i ∈ is, ∃ e, f i = .ok (some e) ∧ v'.type = e.type := by
  induction is generalizing v with
  | nil =>
    obtain rfl := Except.ok.inj h
    exact .inl ⟨rfl, nofun⟩
  | cons k is ih =>
    rw [setLanes_eq, List.foldlM_cons] at h
    obtain ⟨v₁, hv₁, h⟩ := bind_eq_ok.mp h
    obtain ⟨o, ho, hv₁⟩ := bind_eq_ok.mp hv₁
    obtain ⟨htype, hnone⟩ | ⟨i, hi, e, hfi, htype⟩ := ih h
    · cases o with
      | none =>
        obtain rfl := Except.ok.inj hv₁
        exact .inl ⟨htype, List.forall_mem_cons.mpr ⟨ho, hnone⟩⟩
      | some e =>
        exact .inr ⟨k, List.mem_cons_self, e, ho,
          htype.trans (setAt_of_setData hv₁).2.type⟩
    · exact .inr ⟨i, List.mem_cons_of_mem _ hi, e, hfi, htype⟩

/-- A loop over lanes with values of one type, or none, and room for them. -/
theorem setLanes_get {t : DataType} {g : Nat → Option Elem} (ht : v.type = t)
    (hf : ∀ i ∈ is, f i = .ok (g i))
    (hg : ∀ i ∈ is, ∀ e, g i = some e → e.type = t ∧ v.Room t i) :
    ∃ v', v.setLanes is f = .ok v' ∧ v'.type = t ∧ SameShape v v' ∧ ∀ j, v'.get t j =
      match if j ∈ is then g j else none with
      | some e => .ok e.stored
      | none => v.get t j := by
  induction is generalizing v with
  | nil => exact ⟨v, rfl, ht, .refl v, fun j => rfl⟩
  | cons i is ih =>
    have hfi := hf i List.mem_cons_self
    obtain ⟨v₁, hv₁, ht₁, hshape₁, hget₁⟩ : ∃ v₁, setLane f v i = .ok v₁ ∧ v₁.type = t ∧
        SameShape v v₁ ∧ ∀ j, v₁.get t j =
          match if j = i then g j else none with
          | some e => .ok e.stored
          | none => v.get t j := by
      cases hgi : g i with
      | none =>
        refine ⟨v, setLane_none (hfi.trans (congrArg _ hgi)), ht, .refl v, fun j => ?_⟩
        by_cases hj : j = i
        · rw [if_pos hj, hj, hgi]
        · rw [if_neg hj]
      | some e =>
        obtain ⟨rfl, hroom⟩ := hg i List.mem_cons_self e hgi
        obtain ⟨v₁, hv₁, hat⟩ := setData_spec hroom
        refine ⟨v₁, (setLane_some (hfi.trans (congrArg _ hgi))).trans hv₁, hat.type, hat.shape,
          fun j => ?_⟩
        by_cases hj : j = i
        · rw [if_pos hj, hj, hgi, hat.self]
        · rw [if_neg hj, hat.other j hj]
    obtain ⟨v', hv', ht', hshape', hget'⟩ := ih ht₁
      (fun i hi => hf i (List.mem_cons_of_mem _ hi)) fun i hi e he =>
        ⟨(hg i (List.mem_cons_of_mem _ hi) e he).1,
          hshape₁.room.mpr (hg i (List.mem_cons_of_mem _ hi) e he).2⟩
    refine ⟨v', ?_, ht', hshape₁.trans hshape', fun j => ?_⟩
    · rw [setLanes_eq, List.foldlM_cons]
      exact bind_eq_ok.mpr ⟨v₁, hv₁, hv'⟩
    rw [hget', hget₁]
    by_cases hj : j ∈ is
    · rw [if_pos hj, if_pos (List.mem_cons_of_mem _ hj)]
      cases hgj : g j with
      | some e => rfl
      | none => rw [ite_self]
    · rw [if_neg hj]
      by_cases hji : j = i
      · rw [if_pos hji, if_pos (hji ▸ List.mem_cons_self)]
      · rw [if_neg hji, if_neg (List.not_mem_cons_of_ne_of_not_mem hji hj)]

end SetLanes

end VectorData

end NdpSim
