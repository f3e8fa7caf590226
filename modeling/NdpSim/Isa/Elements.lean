import NdpSim.Isa.VectorArith
import NdpSim.Library.Loops

/-!
# Elements of a vector

What a `SetData` does to the elements that the accessors of its type see, and what a loop over
distinct lanes does. Elements of a word or less are fields of one word; a 64-bit element is two
words, the upper half first.
-/
namespace NdpSim

open Library

/-- The type under which `SetData` stores an element. -/
def Elem.type : Elem → DataType
  | float _ => .float32
  | half _ => .float16
  | long _ => .int64
  | int _ => .int32
  | short _ => .int16
  | u8 _ => .uint8
  | char _ => .char8
  | bool _ => .bool

/-- An element as it is read back: a `half` is kept in the format of another library. -/
def Elem.stored [FloatOps] : Elem → Elem
  | half x => half (FloatOps.halfOfFloat (FloatOps.fp16IeeeToFp32Value
      (FloatOps.fp16IeeeFromFp32Value (FloatOps.floatOfHalf x))))
  | e => e

/-- Every bit of an element is clear. -/
def zeroElem : DataType → Elem
  | .float32 => .float 0
  | .float16 => .half 0
  | .int64 => .long 0
  | .int16 => .short 0
  | .uint8 => .u8 0
  | .char8 => .char 0
  | .bool => .bool false
  | _ => .int 0

@[simp] theorem type_zeroElem {t : DataType} (ht : t ≠ .vmask ∧ t ≠ .maxDataType) :
    (zeroElem t).type = t := by
  cases t <;> first | rfl | exact absurd rfl ht.1 | exact absurd rfl ht.2

namespace VectorData

/-! ## Fields of a word -/

theorem extractLsb'_insertField {n k : Nat} (w : BitVec 32) (h : k + n ≤ 32) (x : BitVec n) :
    (insertField w k x).extractLsb' k n = x := by
  apply BitVec.eq_of_getLsbD_eq
  intro i hi
  have hin : k + i < 32 := by omega
  simp [insertField, hi, hin]

theorem extractLsb'_insertField_of_disjoint {n k k' : Nat} (w : BitVec 32) (x : BitVec n)
    (h : k + n ≤ k' ∨ k' + n ≤ k) :
    (insertField w k x).extractLsb' k' n = w.extractLsb' k' n := by
  apply BitVec.eq_of_getLsbD_eq
  intro i hi
  by_cases hin : k' + i < 32
  · rcases h with h | h
    · have hlt : ¬ k' + i - k < n := by omega
      have hbit : x.getLsbD (k' + i - k) = false := BitVec.getLsbD_of_ge _ _ (by omega)
      simp [insertField, hi, hlt, hbit, hin]
    · have hlt : k' + i < k := by omega
      simp [insertField, hi, hlt, hin]
  · have hge : 32 ≤ k' + i := Nat.le_of_not_lt hin
    simp only [BitVec.getLsbD_extractLsb', BitVec.getLsbD_of_ge _ _ hge]

/-- The field `i` of `n` bits, `perWord` of them in a word. -/
def field (v : VectorData) (n perWord i : Nat) : Except Fault (BitVec n) := do
  return (← v.word (i / perWord)).extractLsb' (n * (i % perWord)) n

theorem field_eq_ok {v : VectorData} {n perWord i : Nat} {w : BitVec 32}
    (hw : v.data[i / perWord]? = some w) :
    v.field n perWord i = .ok (w.extractLsb' (n * (i % perWord)) n) := by
  simp only [field, word, hw]
  rfl

theorem word_eq_field (v : VectorData) (i : Nat) : v.word i = v.field 32 1 i := by
  cases hw : v.data[i]? with
  | none => simp [field, word, hw, Bind.bind, Except.bind]
  | some w =>
    rw [field_eq_ok (by simpa using hw)]
    simp [word, hw, Nat.mod_one, BitVec.extractLsb'_eq_self]

theorem setWord_eq {v : VectorData} {i : Nat} {w : BitVec 32} (h : i < v.data.length) :
    v.setWord i w = .ok { v with data := v.data.set i w } := if_pos h

theorem setWord_undefined {v : VectorData} {i : Nat} {w : BitVec 32} (h : ¬ i < v.data.length) :
    v.setWord i w = .error .undefined := if_neg h

theorem insertField_word (w x : BitVec 32) : insertField w 0 x = x := by
  simp [insertField]

section SetField

variable {v : VectorData} {t : DataType} {n i perWord : Nat} {x : BitVec n} {w : BitVec 32}

theorem setField_eq (hv : i / perWord < v.vlen) (hw : v.data[i / perWord]? = some w) :
    v.setField t i perWord x = .ok { v with
      type := t
      data := v.data.set (i / perWord) (insertField w (n * (i % perWord)) x) } := by
  have hlt : i / perWord < v.data.length := (List.getElem?_eq_some_iff.mp hw).1
  simp only [setField, hv, not_true_eq_false, if_false, word, hw]
  exact setWord_eq (v := v.setType t) hlt

theorem setInt_eq {w : BitVec 32} (hv : i < v.vlen) (hw : i < v.data.length) :
    v.setInt w i = .ok { v with type := .int32, data := v.data.set i w } := by
  rw [setInt, setField_eq (w := v.data[i]) (by simpa using hv) (by simp [hw])]
  simp [Nat.mod_one, insertField_word]

/-- A written field is read back, and the other fields are as before. -/
theorem field_set (hp : 0 < perWord) (hn : n * perWord ≤ 32) (hw : v.data[i / perWord]? = some w)
    (j : Nat) :
    ({ v with
        type := t
        data := v.data.set (i / perWord) (insertField w (n * (i % perWord)) x) } :
      VectorData).field n perWord j = if j = i then .ok x else v.field n perWord j := by
  have hlt : i / perWord < v.data.length := (List.getElem?_eq_some_iff.mp hw).1
  by_cases hword : i / perWord = j / perWord
  · rw [field_eq_ok (w := insertField w (n * (i % perWord)) x)
      (by simp [← hword, List.getElem?_set_self hlt])]
    by_cases hij : j = i
    · subst hij
      have hfit : n * (j % perWord) + n ≤ 32 :=
        (Nat.mul_le_mul_left n (Nat.mod_lt j hp)).trans hn
      rw [if_pos rfl, extractLsb'_insertField w hfit]
    · have hmod : i % perWord ≠ j % perWord := by
        intro hmod
        have hi := Nat.div_add_mod i perWord
        have hj := Nat.div_add_mod j perWord
        rw [hword, hmod] at hi
        omega
      rw [if_neg hij, field_eq_ok (hword ▸ hw), extractLsb'_insertField_of_disjoint]
      rcases Nat.lt_or_gt_of_ne hmod with h | h
      · exact .inl (Nat.mul_le_mul_left n h)
      · exact .inr (Nat.mul_le_mul_left n h)
  · have hij : j ≠ i := fun h => hword (by rw [h])
    simp only [if_neg hij, field, word, List.getElem?_set_ne hword]

end SetField

/-! ## Setting an element -/

/-- Elements of a word or less that share a word. -/
def perWord : DataType → Nat
  | .float16 | .int16 => 2
  | .uint8 | .char8 | .bool => 4
  | _ => 1

theorem perWord_pos (t : DataType) : 0 < perWord t := by
  cases t <;> decide

/-- `SetData` finds its assertion satisfied and the words there. -/
def Room (v : VectorData) (t : DataType) (i : Nat) : Prop :=
  if t = .int64 then i < v.vlen ∧ 2 * i + 1 < v.data.length
  else i / perWord t < v.vlen ∧ i / perWord t < v.data.length

instance (v : VectorData) (t : DataType) (i : Nat) : Decidable (v.Room t i) := by
  unfold Room
  infer_instance

/-- The same length, pairing flag and number of words. -/
structure SameShape (v v' : VectorData) : Prop where
  vlen : v'.vlen = v.vlen
  doubleReg : v'.doubleReg = v.doubleReg
  words : v'.data.length = v.data.length

theorem SameShape.refl (v : VectorData) : SameShape v v := ⟨rfl, rfl, rfl⟩

theorem SameShape.trans {u v w : VectorData} (h : SameShape u v) (h' : SameShape v w) :
    SameShape u w :=
  ⟨h'.vlen.trans h.vlen, h'.doubleReg.trans h.doubleReg, h'.words.trans h.words⟩

theorem SameShape.room {v v' : VectorData} (h : SameShape v v') {t : DataType} {i : Nat} :
    v'.Room t i ↔ v.Room t i := by
  simp only [Room, h.vlen, h.words]

variable [FloatOps]

/-- `v'` is `v` with the element `i` of type `e.type` set to `e`. -/
structure SetAt (v : VectorData) (e : Elem) (i : Nat) (v' : VectorData) : Prop where
  type : v'.type = e.type
  shape : SameShape v v'
  self : v'.get e.type i = .ok e.stored
  other : ∀ j, j ≠ i → v'.get e.type j = v.get e.type j

/-- The setter and the getter of a type that fits into a word work on the same fields. -/
theorem exists_field {e : Elem} (h : e.type ≠ .int64) :
    ∃ n, ∃ (x : BitVec n) (dec : BitVec n → Elem), n * perWord e.type ≤ 32 ∧
      (∀ (v : VectorData) i, v.setData e i = v.setField e.type i (perWord e.type) x) ∧
      (∀ (v : VectorData) i, v.get e.type i = dec <$> v.field n (perWord e.type) i) ∧
      dec x = e.stored := by
  cases e with
  | float x =>
    refine ⟨32, x, .float, le_rfl, fun _ _ => rfl, fun v i => ?_, rfl⟩
    exact congrArg (Elem.float <$> ·) (v.word_eq_field i)
  | half x =>
    refine ⟨16, _, fun b => .half (FloatOps.halfOfFloat (FloatOps.fp16IeeeToFp32Value b)),
      le_rfl, fun _ _ => rfl, fun v i => ?_, rfl⟩
    simp only [get, getHalfData, field, Elem.type, perWord]
    cases v.word (i / 2) <;> rfl
  | long x => exact absurd rfl h
  | int x =>
    refine ⟨32, x, .int, le_rfl, fun _ _ => rfl, fun v i => ?_, rfl⟩
    exact congrArg (Elem.int <$> ·) (v.word_eq_field i)
  | short x => exact ⟨16, x, .short, le_rfl, fun _ _ => rfl, fun _ _ => rfl, rfl⟩
  | u8 x => exact ⟨8, x, .u8, le_rfl, fun _ _ => rfl, fun _ _ => rfl, rfl⟩
  | char x => exact ⟨8, x, .char, le_rfl, fun _ _ => rfl, fun _ _ => rfl, rfl⟩
  | bool b =>
    refine ⟨8, _, fun b => .bool (b ≠ 0), le_rfl, fun _ _ => rfl, fun v i => ?_, ?_⟩
    · simp only [get, getBoolData, getU8Data, field, Elem.type, perWord]
      cases v.word (i / 4) <;> rfl
    · cases b <;> rfl

omit [FloatOps] in
theorem getLongData_eq_ok {v : VectorData} {i : Nat} {m l : BitVec 32}
    (hm : v.data[2 * i]? = some m) (hl : v.data[2 * i + 1]? = some l) :
    v.getLongData i = .ok (m ++ l) := by
  simp only [getLongData, word, hm, hl]
  rfl

theorem setLong_spec {v : VectorData} {x : BitVec 64} {i : Nat} (h : v.Room .int64 i) :
    ∃ v', v.setLong x i = .ok v' ∧ SetAt v (.long x) i v' := by
  obtain ⟨hv, hw⟩ : i < v.vlen ∧ 2 * i + 1 < v.data.length := h
  have hmsb : 2 * i < v.data.length := by omega
  refine ⟨{ v with
      type := .int64
      data := (v.data.set (2 * i) (x.extractLsb' 32 32)).set (2 * i + 1) (x.extractLsb' 0 32) },
    ?_, rfl, ⟨rfl, rfl, by simp⟩, ?_, fun j hj => ?_⟩
  · simp only [setLong, hv, not_true_eq_false, if_false]
    rw [setWord_eq (v := v.setType .int64) hmsb]
    exact setWord_eq (by simpa [setType] using hw)
  · have hjoin : x.extractLsb' 32 32 ++ x.extractLsb' 0 32 = x := by
      apply BitVec.eq_of_getLsbD_eq
      intro k hk
      simp
      grind
    have hget := getLongData_eq_ok (v := { v with
      type := .int64
      data := (v.data.set (2 * i) (x.extractLsb' 32 32)).set (2 * i + 1) (x.extractLsb' 0 32) })
      (i := i) (m := x.extractLsb' 32 32) (l := x.extractLsb' 0 32)
      (by rw [List.getElem?_set_ne (by omega), List.getElem?_set_self hmsb])
      (by rw [List.getElem?_set_self (by simpa using hw)])
    simp only [get, Elem.type, hget, hjoin]
    rfl
  · simp only [get, Elem.type, getLongData, word]
    rw [List.getElem?_set_ne (by omega), List.getElem?_set_ne (by omega),
      List.getElem?_set_ne (by omega), List.getElem?_set_ne (by omega)]

theorem setData_spec {v : VectorData} {e : Elem} {i : Nat} (h : v.Room e.type i) :
    ∃ v', v.setData e i = .ok v' ∧ SetAt v e i v' := by
  by_cases ht : e.type = .int64
  · cases e with
    | long x => exact setLong_spec h
    | _ => cases ht
  · obtain ⟨hv, hlt⟩ : i / perWord e.type < v.vlen ∧ i / perWord e.type < v.data.length := by
      simpa only [Room, if_neg ht] using h
    obtain ⟨n, x, dec, hn, hset, hget, hdec⟩ := exists_field ht
    have hw := List.getElem?_eq_getElem hlt
    have hp := perWord_pos e.type
    refine ⟨_, (hset v i).trans (setField_eq hv hw), rfl, ⟨rfl, rfl, by simp⟩, ?_, fun j hj => ?_⟩
    · rw [hget, field_set hp hn hw, if_pos rfl, ← hdec]
      rfl
    · rw [hget, hget, field_set hp hn hw, if_neg hj]

/-- Without room for the element `SetData` stops. -/
theorem setData_of_not_room {v : VectorData} {e : Elem} {i : Nat} (h : ¬ v.Room e.type i) :
    ∃ f, v.setData e i = .error f := by
  by_cases ht : e.type = .int64
  · cases e with
    | long x =>
      simp only [Room, Elem.type, if_true] at h
      by_cases hv : i < v.vlen
      · have hw : ¬ 2 * i + 1 < v.data.length := fun hw => h ⟨hv, hw⟩
        simp only [setData, setLong, hv, not_true_eq_false, if_false]
        by_cases hmsb : 2 * i < v.data.length
        · rw [setWord_eq (v := v.setType .int64) hmsb]
          exact ⟨.undefined, setWord_undefined (by simpa [setType] using hw)⟩
        · rw [setWord_undefined (v := v.setType .int64) hmsb]
          exact ⟨.undefined, rfl⟩
      · exact ⟨.assertion, if_pos hv⟩
    | _ => cases ht
  · obtain ⟨n, x, dec, -, hset, -, -⟩ := exists_field ht
    rw [hset]
    simp only [Room, if_neg ht] at h
    by_cases hv : i / perWord e.type < v.vlen
    · have hw : v.data[i / perWord e.type]? = none :=
        List.getElem?_eq_none (Nat.le_of_not_lt fun hw => h ⟨hv, hw⟩)
      refine ⟨.undefined, ?_⟩
      simp only [setField, hv, not_true_eq_false, if_false, word, hw]
      rfl
    · exact ⟨.assertion, if_pos hv⟩

/-- What a `SetData` that returns has done. -/
theorem setAt_of_setData {v v' : VectorData} {e : Elem} {i : Nat} (h : v.setData e i = .ok v') :
    v.Room e.type i ∧ SetAt v e i v' := by
  by_cases hroom : v.Room e.type i
  · obtain ⟨v₁, hv₁, hat⟩ := setData_spec hroom
    obtain rfl := Except.ok.inj (h.symm.trans hv₁)
    exact ⟨hroom, hat⟩
  · obtain ⟨f, hf⟩ := setData_of_not_room hroom
    cases h.symm.trans hf

/-- An element there is room for can be read. -/
theorem exists_get {v : VectorData} {t : DataType} {i : Nat} (ht : t ≠ .vmask)
    (ht' : t ≠ .maxDataType) (h : v.Room t i) : ∃ e, v.get t i = .ok e ∧ e.type = t := by
  by_cases hlong : t = .int64
  · subst hlong
    obtain ⟨-, hw⟩ : i < v.vlen ∧ 2 * i + 1 < v.data.length := h
    have hget := getLongData_eq_ok (List.getElem?_eq_getElem (by omega : 2 * i < v.data.length))
      (List.getElem?_eq_getElem hw)
    exact ⟨.long _, congrArg (Elem.long <$> ·) hget, rfl⟩
  · obtain ⟨-, hlt⟩ : i / perWord t < v.vlen ∧ i / perWord t < v.data.length := by
      simpa only [Room, if_neg hlong] using h
    have hw := List.getElem?_eq_getElem hlt
    cases t <;> first
      | contradiction
      | simp only [perWord, Nat.div_one] at hw
        simp only [get, getFloatData, getHalfData, getIntData, getShortData, getU8Data,
          getCharData, getBoolData, word, hw]
        exact ⟨_, rfl, rfl⟩

/-- An element of a word or less depends on its word only. -/
theorem get_congr {v v' : VectorData} {t : DataType} (ht : t ≠ .int64) {i : Nat}
    (h : v'.data[i / perWord t]? = v.data[i / perWord t]?) : v'.get t i = v.get t i := by
  cases t <;> first
    | exact absurd rfl ht
    | simp only [perWord, Nat.div_one] at h
      simp only [get, getFloatData, getHalfData, getIntData, getShortData, getU8Data,
        getCharData, getBoolData, word, h]

/-- An element outside of the words cannot be read. -/
theorem get_of_not_lt {v : VectorData} {t : DataType} (ht : t ≠ .int64) {i : Nat}
    (h : ¬ i / perWord t < v.data.length) : ∃ f, v.get t i = .error f := by
  have hw := List.getElem?_eq_none (Nat.le_of_not_lt h)
  cases t <;> first
    | exact absurd rfl ht
    | exact ⟨_, rfl⟩
    | simp only [perWord, Nat.div_one] at hw
      simp only [get, getFloatData, getHalfData, getIntData, getShortData, getU8Data,
        getCharData, getBoolData, word, hw]
      exact ⟨.undefined, rfl⟩

/-- An element of a clear word; the conversion of a `half` is not the model's. -/
theorem get_of_zero {v : VectorData} {t : DataType} (ht : t ≠ .int64)
    (ht' : t ≠ .vmask ∧ t ≠ .maxDataType)
    (hhalf : t = .float16 → FloatOps.halfOfFloat (FloatOps.fp16IeeeToFp32Value 0) = 0) {i : Nat}
    (h : v.data[i / perWord t]? = some 0) : v.get t i = .ok (zeroElem t) := by
  cases t with
  | int64 => exact absurd rfl ht
  | vmask => exact absurd rfl ht'.1
  | maxDataType => exact absurd rfl ht'.2
  | float16 =>
    have hzero := hhalf rfl
    simp only [perWord] at h
    simp only [get, getHalfData, word, h]
    change Except.ok (Elem.half (FloatOps.halfOfFloat (FloatOps.fp16IeeeToFp32Value
      (BitVec.extractLsb' _ 16 0#32)))) = _
    rw [BitVec.extractLsb'_zero]
    exact congrArg (fun x => Except.ok (Elem.half x)) hzero
  | float32 | int32 | int16 | uint8 | char8 | bool =>
    simp only [perWord, Nat.div_one] at h
    simp only [get, getFloatData, getIntData, getShortData, getU8Data, getCharData, getBoolData,
      word, h]
    simp [Functor.map, Except.map, Bind.bind, Except.bind, Pure.pure, Except.pure, zeroElem]

/-! ## Loops over lanes -/

/-- Elements written one after the other. -/
def setAll (v : VectorData) (ps : List (Nat × Elem)) : Except Fault VectorData :=
  ps.foldlM (fun v p => v.setData p.2 p.1) v

/-- `v'` is `v` with the elements `ps` of type `t` set. -/
structure SetAllAt (v : VectorData) (t : DataType) (ps : List (Nat × Elem)) (v' : VectorData) :
    Prop where
  shape : SameShape v v'
  type : v'.type = if ps = [] then v.type else t
  inside : ∀ p ∈ ps, v'.get t p.1 = .ok p.2.stored
  outside : ∀ i, i ∉ ps.map Prod.fst → v'.get t i = v.get t i

theorem setAll_spec {t : DataType} {l : List (Nat × Elem)} {v : VectorData}
    (hroom : ∀ p ∈ l, v.Room t p.1) (htype : ∀ p ∈ l, p.2.type = t)
    (hnodup : (l.map Prod.fst).Nodup) : ∃ v', v.setAll l = .ok v' ∧ SetAllAt v t l v' := by
  induction l generalizing v with
  | nil => exact ⟨v, rfl, .refl v, rfl, by simp, fun _ _ => rfl⟩
  | cons p l ih =>
    obtain rfl := htype p List.mem_cons_self
    obtain ⟨hp, hnodup⟩ := List.nodup_cons.mp hnodup
    obtain ⟨v₁, hv₁, hat⟩ := setData_spec (hroom p List.mem_cons_self)
    obtain ⟨v', hv', hall⟩ := ih (v := v₁)
      (fun q hq => hat.shape.room.mpr (hroom q (List.mem_cons_of_mem _ hq)))
      (fun q hq => htype q (List.mem_cons_of_mem _ hq)) hnodup
    refine ⟨v', ?_, hat.shape.trans hall.shape, ?_, fun q hq => ?_, fun i hi => ?_⟩
    · rw [setAll, List.foldlM_cons, hv₁]
      exact hv'
    · rw [hall.type, hat.type, ite_self, if_neg (List.cons_ne_nil _ _)]
    · obtain rfl | hq := List.mem_cons.mp hq
      · rw [hall.outside _ hp, hat.self]
      · exact hall.inside q hq
    · rw [List.map_cons, List.mem_cons, not_or] at hi
      rw [hall.outside i hi.2, hat.other i hi.1]

theorem shape_of_setAll {ps : List (Nat × Elem)} {v v' : VectorData} (h : v.setAll ps = .ok v') :
    SameShape v v' := by
  induction ps generalizing v with
  | nil =>
    obtain rfl := Except.ok.inj h
    exact .refl v
  | cons p ps ih =>
    rw [setAll, List.foldlM_cons] at h
    obtain ⟨v₁, hv₁, h⟩ := bind_eq_ok.mp h
    exact (setAt_of_setData hv₁).2.shape.trans (ih h)

theorem shape_of_setLanes {is : List Nat} {v v' : VectorData}
    {f : Nat → Except Fault (Option Elem)} (h : v.setLanes is f = .ok v') : SameShape v v' := by
  refine foldlM_invariant (P := SameShape v) (fun u i u' hstep hu => ?_) h (.refl v)
  obtain ⟨o, -, hstep⟩ := bind_eq_ok.mp hstep
  cases o with
  | none =>
    obtain rfl := Except.ok.inj hstep
    exact hu
  | some e => exact hu.trans (setAt_of_setData hstep).2.shape

/-- A loop that writes one element for each of its lanes. -/
theorem foldlM_eq_setAll {is : List Nat} {v : VectorData} {place : Nat → Nat} {e : Nat → Elem}
    {body : VectorData → Nat → Except Fault VectorData}
    (h : ∀ v, ∀ i ∈ is, body v i = v.setData (e i) (place i)) :
    is.foldlM body v = v.setAll (is.map fun i => (place i, e i)) := by
  induction is generalizing v with
  | nil => rfl
  | cons i is ih =>
    rw [List.foldlM_cons, h v i List.mem_cons_self, List.map_cons, setAll, List.foldlM_cons]
    cases v.setData (e i) (place i) with
    | error f => rfl
    | ok v₁ => exact ih fun v j hj => h v j (List.mem_cons_of_mem _ hj)

/-- A loop over lanes stops if there is no value for one of them. -/
theorem setLanes_of_error {is : List Nat} {v : VectorData} {f : Nat → Except Fault (Option Elem)}
    {i : Nat} (hi : i ∈ is) {e : Fault} (h : f i = .error e) :
    ∃ e', v.setLanes is f = .error e' := by
  refine foldlM_error_of_mem hi (fun v => ⟨e, ?_⟩) v
  rw [h]
  rfl

theorem setAll_append (v : VectorData) (ps qs : List (Nat × Elem)) :
    v.setAll (ps ++ qs) = v.setAll ps >>= fun v => v.setAll qs := List.foldlM_append

theorem setAll_singleton (v : VectorData) (i : Nat) (e : Elem) :
    v.setAll [(i, e)] = v.setData e i := by
  simp only [setAll, List.foldlM_cons, List.foldlM_nil]
  exact bind_pure _

theorem setLanes_eq_setAll {is : List Nat} {v : VectorData}
    {f : Nat → Except Fault (Option Elem)} {e : Nat → Elem}
    (h : ∀ i ∈ is, f i = .ok (some (e i))) :
    v.setLanes is f = v.setAll (is.map fun i => (i, e i)) := by
  refine foldlM_eq_setAll fun v i hi => ?_
  rw [h i hi]
  rfl

end VectorData

/-! ## Elements one behind the other -/

namespace VectorData

/-- `v` has the shape of `v₀`, and its first elements are those of the list. -/
structure FilledWith [FloatOps] (t : DataType) (v₀ : VectorData) (es : List Elem) (v : VectorData) :
    Prop where
  shape : SameShape v₀ v
  type : es ≠ [] → v.type = t
  get : ∀ i e, es[i]? = some e → v.get t i = .ok e.stored

variable [FloatOps] {t : DataType} {v₀ v : VectorData} {es : List Elem} {e : Elem}

theorem FilledWith.nil : FilledWith t v [] v := ⟨.refl v, fun h => absurd rfl h, nofun⟩

/-- One more element. -/
theorem FilledWith.setData (h : FilledWith t v₀ es v) (he : e.type = t)
    (hroom : v₀.Room t es.length) :
    ∃ v', v.setData e es.length = .ok v' ∧ FilledWith t v₀ (es ++ [e]) v' := by
  subst he
  obtain ⟨v', hset, hat⟩ := setData_spec (h.shape.room.mpr hroom)
  refine ⟨v', hset, h.shape.trans hat.shape, fun _ => hat.type, fun i e' hi => ?_⟩
  by_cases heq : i = es.length
  · subst heq
    rw [List.getElem?_concat_length] at hi
    cases hi
    exact hat.self
  · have hlt := (List.getElem?_eq_some_iff.mp hi).1
    rw [List.length_append, List.length_singleton] at hlt
    rw [hat.other i heq]
    rw [List.getElem?_append_left (by omega)] at hi
    exact h.get i e' hi

end VectorData

end NdpSim
