import NdpSim.Isa.Elements
import NdpSim.Library.Rounding

/-!
# Typed access to vectors

The constructors count the length of a vector in elements and size its words apart from it. A setter
compares its index, or the number of its word, with the number of elements, so that it can pass its
assertion and miss the words.
-/
namespace NdpSim

open Library

/-- The bytes of an element. -/
def DataType.size : DataType → Nat
  | .int64 => 8
  | .float16 | .int16 => 2
  | .uint8 | .char8 | .bool => 1
  | _ => 4

namespace VectorData

/-! ## Constructors -/

/-- Conversion of a floating-point number to an integer. -/
def truncate (q : Rat) : Int := if q < 0 then -(-q).floor else q.floor

/-- `ROUND_UP(N, PACKET_ENTRIES)` in `unsigned` -/
def roundUpEntries (n : Int) : Nat :=
  ((n + packetEntries - 1) % 2 ^ 32).toNat / packetEntries * packetEntries

/-- `m_vlen` and `vec_len` of `VectorData(sew, lmul)`, before the conversions. -/
def sizedLengths (sew : Int) (lmul : Rat) : Rat × Rat :=
  let vlen := roundTo 24 (roundTo 24 (packetSize * byteBit * lmul) / toFloat sew)
  let div := roundTo 24 (unionDataSize / toFloat sew)
  (vlen, roundTo 24 (vlen / div))

/-- The words of `VectorData(sew, lmul)`. -/
def sizedWords (sew : Int) (lmul : Rat) : Nat := roundUpEntries (truncate (sizedLengths sew lmul).2)

/-- `VectorData(sew, lmul)` in single precision. Numbers that do not fit are not converted, and a
vector has no negative number of words. -/
def ofSizes (sew : Int) (lmul : Rat) : Except Fault VectorData :=
  let (vlen, vecLen) := sizedLengths sew lmul
  if sew = 0 ∨ truncate vecLen < -2 ^ 31 ∨ 2 ^ 31 ≤ truncate vecLen then .error .undefined
  else if truncate vlen < 0 ∨ 2 ^ 32 ≤ truncate vlen then .error .undefined
  else if 2 ^ 31 ≤ sizedWords sew lmul then .error (.runtimeError "vector")
  else .ok ⟨.maxDataType, (truncate vlen).toNat, lmul = 2, List.replicate (sizedWords sew lmul) 0⟩

/-- The constructors and their arguments, and `SetVectorDoubleReg` on what they build. -/
inductive Construction
  | default
  | double (doubleReg : Bool)
  | sizes (sew : Int) (lmul : Rat)
  | context (csr : CSR)
  | doubled (c : Construction)

namespace Construction

def build : Construction → Except Fault VectorData
  | default => .ok .default
  | double doubleReg => .ok (ofDouble doubleReg)
  | sizes sew lmul => ofSizes sew lmul
  | context csr => .ok (ofContext csr)
  | doubled c => do return (← c.build).setVectorDoubleReg

/-- The words a constructor allocates: registers of eight words, as many as the multiplier says. -/
def words : Construction → Nat
  | default => packetEntries
  | double doubleReg => if doubleReg then packetEntries * 2 else packetEntries
  | sizes sew lmul => sizedWords sew lmul
  | context csr => roundUp (vlenOf csr.vtypeVsew.bits csr.vtypeVlmul.eighths * csr.vtypeVsew.bits /
      unionDataSize) packetEntries
  | doubled _ => packetEntries * 2

end Construction

variable {c : Construction} {v : VectorData}

theorem length_data_of_build (h : c.build = .ok v) : v.data.length = c.words := by
  cases c with
  | default =>
    cases h
    rfl
  | double doubleReg =>
    cases h
    exact List.length_replicate
  | sizes sew lmul =>
    simp only [Construction.build, ofSizes] at h
    split_ifs at h
    cases h
    exact List.length_replicate
  | context csr =>
    cases h
    exact List.length_replicate
  | doubled c =>
    obtain ⟨u, -, h⟩ := bind_eq_ok.mp h
    cases h
    simp [setVectorDoubleReg, Construction.words]

/-- Whole packets are allocated. -/
theorem eight_dvd_words (c : Construction) : 8 ∣ c.words := by
  cases c with
  | default => exact dvd_rfl
  | double doubleReg => cases doubleReg <;> decide
  | sizes sew lmul => exact dvd_mul_left _ _
  | context csr => exact dvd_mul_left _ _
  | doubled c => exact ⟨2, rfl⟩

/-! ## Access at an `int` -/

/-- The assertion of `SetData`; the number of the word is compared as an `unsigned`. -/
def Asserted (v : VectorData) (t : DataType) (index : Int) : Prop :=
  (index.tdiv (perWord t) % 2 ^ 32).toNat < v.vlen

instance (v : VectorData) (t : DataType) (index : Int) : Decidable (v.Asserted t index) :=
  inferInstanceAs (Decidable (_ < _))

section Access

variable [FloatOps]

/-- `SetData`; there is nothing in front of the first element. -/
def setDataAt (v : VectorData) (e : Elem) (index : Int) : Except Fault VectorData :=
  if ¬ v.Asserted e.type index then .error .assertion
  else if index < 0 then .error .undefined
  else v.setData e index.toNat

/-- The getter of a type. -/
def getAt (v : VectorData) (t : DataType) (index : Int) : Except Fault Elem :=
  if index < 0 then .error .undefined else v.get t index.toNat

/-- The element is written inside the words, read back, and the others are as before. -/
def Accessed (v : VectorData) (e : Elem) (index : Int) : Prop :=
  ∃ v', v.setDataAt e index = .ok v' ∧ v'.getAt e.type index = .ok e ∧
    ∀ j, j ≠ index → v'.getAt e.type j = v.getAt e.type j

end Access

theorem stored_eq [FloatOps] {e : Elem} (he : e.type ≠ .float16) : e.stored = e := by
  cases e with
  | half x => exact absurd rfl he
  | _ => rfl

/-- An index from 0 on is compared as it is. -/
theorem asserted_natCast {t : DataType} {i : Nat} (hi : i < 2 ^ 31) :
    v.Asserted t i ↔ i / perWord t < v.vlen := by
  have hle : i / perWord t ≤ i := Nat.div_le_self ..
  rw [Asserted, ← Int.ofNat_tdiv]
  generalize i / perWord t = q at hle ⊢
  have hmod : ((q : Int) % 2 ^ 32).toNat = q := by omega
  rw [hmod]

/-- There is room for an element exactly if its bytes are among those of the words. -/
theorem room_iff (hdvd : 8 ∣ v.data.length) {t : DataType} {i : Nat}
    (hi : i / perWord t < v.vlen) : v.Room t i ↔ i * t.size < 4 * v.data.length := by
  by_cases ht : t = .int64
  · subst ht
    rw [Room, if_pos rfl]
    simp only [perWord, Nat.div_one] at hi
    rw [and_iff_right hi, DataType.size]
    omega
  · have hsize : perWord t * t.size = 4 := by
      cases t <;> first | rfl | exact absurd rfl ht
    have hpos : 0 < t.size := by cases t <;> decide
    rw [Room, if_neg ht, and_iff_right hi, Nat.div_lt_iff_lt_mul (perWord_pos t), ← hsize,
      Nat.mul_comm (perWord t), Nat.mul_assoc, Nat.mul_comm t.size, Nat.mul_lt_mul_right hpos,
      Nat.mul_comm]

/-- A negative index that gets past the assertion misses the words. -/
theorem setDataAt_of_neg [FloatOps] {e : Elem} {index : Int} (h : index < 0) :
    ∃ f, v.setDataAt e index = .error f := by
  rw [setDataAt, if_pos h]
  split
  · exact ⟨_, rfl⟩
  · exact ⟨_, rfl⟩

/-- An access is sound exactly if the index counts from the first element and the element is one of
those the constructor has words for. -/
theorem accessed_iff [FloatOps] {e : Elem} (he : e.type ≠ .float16) (hdvd : 8 ∣ v.data.length)
    {index : Int} (hindex : index < 2 ^ 31) (hassert : v.Asserted e.type index) :
    v.Accessed e index ↔ 0 ≤ index ∧ index * e.type.size < 4 * v.data.length := by
  by_cases hneg : index < 0
  · refine iff_of_false ?_ fun h => absurd h.1 (not_le.mpr hneg)
    rintro ⟨v', hset, -⟩
    obtain ⟨f, hf⟩ := setDataAt_of_neg (v := v) (e := e) hneg
    cases hset.symm.trans hf
  obtain ⟨i, rfl⟩ := Int.eq_ofNat_of_zero_le (not_lt.mp hneg)
  have hi : i / perWord e.type < v.vlen := (asserted_natCast (by omega)).mp hassert
  have hroom := room_iff hdvd hi
  have hset : v.setDataAt e i = v.setData e i := by
    rw [setDataAt, if_neg (not_not.mpr hassert), if_neg hneg]
    rfl
  have hcast : ((i : Int) * e.type.size < 4 * v.data.length) ↔ v.Room e.type i := by
    rw [hroom]
    exact_mod_cast Iff.rfl
  rw [hcast, and_iff_right (Int.natCast_nonneg i)]
  constructor
  · rintro ⟨v', hv', -⟩
    exact (setAt_of_setData (hset.symm.trans hv')).1
  · intro h
    obtain ⟨v', hv', hat⟩ := setData_spec h
    refine ⟨v', hset.trans hv', ?_, fun j hj => ?_⟩
    · rw [getAt, if_neg hneg]
      exact hat.self.trans (congrArg Except.ok (stored_eq he))
    · rw [getAt, getAt]
      split
      · rfl
      · exact hat.other _ fun heq => hj (by omega)

/-- No index below the length is rejected. -/
theorem asserted_of_lt {t : DataType} {index : Int} (h0 : 0 ≤ index) (hindex : index < 2 ^ 31)
    (h : index < v.vlen) : v.Asserted t index := by
  obtain ⟨i, rfl⟩ := Int.eq_ofNat_of_zero_le h0
  exact (asserted_natCast (by omega)).mpr ((Nat.div_le_self ..).trans_lt (by exact_mod_cast h))

theorem vlenOf_fits (sew : Vsew) (lmul : Vlmul) :
    vlenOf sew.bits lmul.eighths * sew.bits ≤ 8 * (4 *
      roundUp (vlenOf sew.bits lmul.eighths * sew.bits / unionDataSize) packetEntries) ∧
      vlenOf sew.bits lmul.eighths < 2 ^ 31 := by
  cases sew <;> cases lmul <;> decide

/-- Elements of the width of the settings all have their words. -/
theorem accessed_of_context [FloatOps] {csr : CSR} {e : Elem} (he : e.type ≠ .float16)
    (hsize : e.type.size * 8 = csr.vtypeVsew.bits) {i : Nat} (hi : i < (ofContext csr).vlen) :
    (ofContext csr).Accessed e i := by
  have hlength := length_data_of_build (c := .context csr) rfl
  have hfits : (ofContext csr).vlen * csr.vtypeVsew.bits ≤ 8 * (4 * (ofContext csr).data.length) ∧
      (ofContext csr).vlen < 2 ^ 31 := by
    rw [hlength]
    exact vlenOf_fits csr.vtypeVsew csr.vtypeVlmul
  have hi31 : (i : Int) < 2 ^ 31 := by omega
  have hassert : (ofContext csr).Asserted e.type i :=
    asserted_of_lt (Int.natCast_nonneg i) hi31 (by exact_mod_cast hi)
  refine (accessed_iff he (hlength ▸ eight_dvd_words _) hi31 hassert).mpr
    ⟨Int.natCast_nonneg i, ?_⟩
  have hlt : i * e.type.size < 4 * (ofContext csr).data.length := by
    have hpos : 0 < e.type.size := by cases e.type <;> decide
    have hmul : (i + 1) * (e.type.size * 8) ≤ (ofContext csr).vlen * (e.type.size * 8) :=
      Nat.mul_le_mul_right _ hi
    rw [← hsize] at hfits
    rw [Nat.succ_mul] at hmul
    have hassoc : i * (e.type.size * 8) = i * e.type.size * 8 := (Nat.mul_assoc ..).symm
    omega
  exact_mod_cast hlt

/-- An index that passes the assertion is handled as it should be exactly if it is not negative and
its element is one of those the words of the constructor hold. -/
theorem typed_access_iff [FloatOps] {c : Construction} (hv : c.build = .ok v) {e : Elem}
    (he : e.type ∈ [.int64, .int32, .int16, .uint8, .char8, .bool]) {index : Int}
    (hindex : -2 ^ 31 ≤ index ∧ index < 2 ^ 31) :
    ((v.Asserted e.type index → v.Accessed e index) ∧
      (0 ≤ index ∧ index < v.vlen → v.Asserted e.type index)) ↔
      (v.Asserted e.type index → 0 ≤ index ∧ index * e.type.size < 4 * c.words) := by
  have hhalf : e.type ≠ .float16 := by
    intro h
    rw [h] at he
    exact absurd he (by decide)
  have hdvd := eight_dvd_words c
  rw [← length_data_of_build hv] at hdvd ⊢
  rw [and_iff_left fun h => asserted_of_lt h.1 hindex.2 h.2]
  exact forall_congr' fun hassert => accessed_iff hhalf hdvd hindex.2 hassert

theorem build_shorts : (Construction.sizes 16 1).build = .ok (ofSewLmul 16 8) := by
  decide +kernel

theorem typed_access_short : letI := FloatOps.zero
    ∃ v, (Construction.sizes 16 1).build = .ok v ∧ (((v.Asserted .int16 15 →
      v.Accessed (.short 7) 15) ∧ ((0 : Int) ≤ 15 ∧ (15 : Int) < v.vlen → v.Asserted .int16 15)) ↔
      (v.Asserted .int16 15 → (0 : Int) ≤ 15 ∧ 15 * ((2 : Nat) : Int) <
        4 * ((Construction.sizes 16 1).words : Nat))) := by
  let _ := FloatOps.zero
  refine ⟨ofSewLmul 16 8, build_shorts, ?_⟩
  exact typed_access_iff (e := .short 7) build_shorts (by decide) (by decide)

/-- In a vector of sixteen 16-bit elements the assertion holds for the 17th of them, and for one in
front of the first. -/
theorem typed_access_misses : letI := FloatOps.zero
    ∃ v, (Construction.sizes 16 1).build = .ok v ∧
      (v.Asserted .int16 16 ∧ ¬ v.Accessed (.short 7) 16) ∧
      (v.Asserted .int16 (-1) ∧ ¬ v.Accessed (.short 7) (-1)) := by
  let _ := FloatOps.zero
  refine ⟨ofSewLmul 16 8, build_shorts, ⟨by decide, ?_⟩, ⟨by decide, ?_⟩⟩
  · rintro ⟨v', hset, -⟩
    have hfault : (ofSewLmul 16 8).setDataAt (.short 7) 16 = .error .undefined := by decide
    cases hfault.symm.trans hset
  · rintro ⟨v', hset, -⟩
    have hfault : (ofSewLmul 16 8).setDataAt (.short 7) (-1) = .error .undefined := by decide
    cases hfault.symm.trans hset

end VectorData

end NdpSim
