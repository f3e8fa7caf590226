import NdpSim.Isa.Results

/-!
# Masks

A mask is a vector whose elements are bits. Its bits are set by an addition to a clear word, so
that they are right as long as each is set once. The comparisons, the logic of masks and `VMSET`
fill an empty vector in this way; the type is set with the bits, and not at all if there are none.
-/
namespace NdpSim

open Library

namespace VectorData

/-! ## Setting bits -/

variable {v v' : VectorData} {i n : Nat} {is : List Nat} {b : Nat → Bool}

/-- `v'` is `v` with the bits `b` at the places `is`. -/
structure Masked (v : VectorData) (is : List Nat) (b : Nat → Bool) (v' : VectorData) : Prop where
  type : v'.type = if is = [] then v.type else .vmask
  shape : SameShape v v'
  bits : ∀ j, v'.maskBit j = (v.maskBit j || (decide (j ∈ is) && b j))

/-- A bit that is clear is set by the addition. -/
theorem setVmask_spec (h : i / unionDataSize < v.data.length) (hclear : v.maskBit i = false)
    (p : Bool) : ∃ v', v.setVmask p i = .ok v' ∧ v'.type = .vmask ∧ SameShape v v' ∧
      ∀ j, v'.maskBit j = (v.maskBit j || (decide (j = i) && p)) := by
  cases p with
  | false =>
    exact ⟨v.setType .vmask, rfl, rfl, ⟨rfl, rfl, rfl⟩, fun j => by simp [maskBit, setType]⟩
  | true =>
    have hword := List.getElem?_eq_getElem h
    have hset : v.setVmask true i = .ok { v with
        type := .vmask
        data := v.data.set (i / unionDataSize)
          (v.data[i / unionDataSize] + 1#32 <<< (i % unionDataSize)) } := by
      simp only [setVmask, word, hword]
      exact setWord_eq (v := v.setType .vmask) h
    refine ⟨_, hset, rfl, ⟨rfl, rfl, List.length_set ..⟩, fun j => ?_⟩
    have hclear' : v.data[i / unionDataSize].getLsbD (i % unionDataSize) = false := by
      rw [maskBit, hword] at hclear
      exact hclear
    have hdisjoint :
        v.data[i / unionDataSize] &&& BitVec.twoPow 32 (i % unionDataSize) = 0#32 := by
      rw [BitVec.and_twoPow, hclear']
      rfl
    have hbound : i % unionDataSize < 32 := Nat.mod_lt i (by decide)
    rw [maskBit, maskBit, Bool.and_true]
    dsimp only
    rw [← BitVec.twoPow_eq, BitVec.add_eq_or_of_and_eq_zero _ _ hdisjoint]
    by_cases hj : j / unionDataSize = i / unionDataSize
    · have hiff : j = i ↔ i % unionDataSize = j % unionDataSize := by
        refine ⟨fun h => by rw [h], fun h => ?_⟩
        rw [← Nat.div_add_mod j unionDataSize, ← Nat.div_add_mod i unionDataSize, hj, h]
      rw [hj, List.getElem?_set_self h, hword, Option.getD_some, Option.getD_some,
        BitVec.getLsbD_or, BitVec.getLsbD_twoPow, decide_eq_true hbound, Bool.true_and,
        decide_eq_decide.mpr hiff]
    · have hne : j ≠ i := fun h => hj (by rw [h])
      rw [List.getElem?_set_ne (Ne.symm hj), decide_eq_false hne, Bool.or_false]

/-- A loop that sets each bit once. -/
theorem setMask_spec (hnodup : is.Nodup) (hwords : ∀ i ∈ is, i / unionDataSize < v.data.length)
    (hclear : ∀ i ∈ is, v.maskBit i = false) {f : Nat → Except Fault Bool}
    (hf : ∀ i ∈ is, f i = .ok (b i)) : ∃ v', setMask v is f = .ok v' ∧ Masked v is b v' := by
  induction is generalizing v with
  | nil => exact ⟨v, rfl, rfl, .refl v, fun j => by simp⟩
  | cons i is ih =>
    obtain ⟨hi, hnodup⟩ := List.nodup_cons.mp hnodup
    obtain ⟨v₁, hv₁, htype, hshape, hbits⟩ := setVmask_spec (hwords i List.mem_cons_self)
      (hclear i List.mem_cons_self) (b i)
    obtain ⟨v', hv', hrest⟩ := ih (v := v₁) hnodup
      (fun j hj => hshape.words ▸ hwords j (List.mem_cons_of_mem _ hj))
      (fun j hj => by
        have hne : j ≠ i := fun h => hi (h ▸ hj)
        rw [hbits, hclear j (List.mem_cons_of_mem _ hj), decide_eq_false hne]
        rfl)
      fun j hj => hf j (List.mem_cons_of_mem _ hj)
    refine ⟨v', ?_, ?_, hshape.trans hrest.shape, fun j => ?_⟩
    · rw [setMask, List.foldlM_cons, hf i List.mem_cons_self, ok_bind, hv₁]
      exact hv'
    · rw [hrest.type, htype, ite_self, if_neg (List.cons_ne_nil _ _)]
    · rw [hrest.bits, hbits, Bool.or_assoc]
      by_cases hj : j = i
      · subst hj
        simp [hi]
      · simp [hj]

/-! ## An empty vector -/

theorem words_of_vlen {c : CSR} {i : Nat} (hi : i < (ofContext c).vlen) :
    i / unionDataSize < (ofContext c).data.length := by
  have hle := bits_le_words c
  have hbits : 8 ≤ c.vtypeVsew.bits := by cases c.vtypeVsew <;> decide
  have hmul := Nat.mul_le_mul_left (ofContext c).vlen hbits
  rw [unionDataSize]
  omega

theorem maskBit_ofContext (c : CSR) (i : Nat) : (ofContext c).maskBit i = false := by
  rw [maskBit, ofContext]
  dsimp only
  rw [List.getElem?_replicate]
  split <;> simp

end VectorData

end NdpSim
