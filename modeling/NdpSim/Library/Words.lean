import Mathlib.Data.List.Basic

/-!
# Words from their bits

A word is given by a function of the number of the bit.
-/
namespace NdpSim.Library

/-- The word with these bits. -/
def wordOf (w : Nat) (f : Nat → Bool) : BitVec w :=
  (BitVec.ofBoolListLE ((List.range w).map f)).setWidth w

theorem getLsbD_wordOf (w : Nat) (f : Nat → Bool) (i : Nat) :
    (wordOf w f).getLsbD i = (decide (i < w) && f i) := by
  rw [wordOf, BitVec.getLsbD_setWidth, BitVec.getLsbD_ofBoolListLE]
  by_cases hi : i < w
  · rw [List.getD_eq_getElem?_getD, List.getElem?_map, List.getElem?_range hi]
    rfl
  · rw [decide_eq_false hi, Bool.false_and, Bool.false_and]

/-- A word with given bits at some places, and with the bits of another word elsewhere. -/
theorem exists_word {w : Nat} {ps : List Nat} (hps : ps.Nodup) (hlt : ∀ p ∈ ps, p < w)
    (b : Nat → Bool) (o : BitVec w) : ∃ a : BitVec w,
      (∀ k p, ps[k]? = some p → a.getLsbD p = b k) ∧ ∀ j ∉ ps, a.getLsbD j = o.getLsbD j := by
  refine ⟨wordOf w fun i => if i ∈ ps then b (ps.idxOf i) else o.getLsbD i,
    fun k p hp => ?_, fun j hj => ?_⟩
  · have hmem := List.mem_of_getElem? hp
    obtain ⟨hk, rfl⟩ := List.getElem?_eq_some_iff.mp hp
    rw [getLsbD_wordOf, decide_eq_true (hlt _ hmem), Bool.true_and, if_pos hmem,
      hps.idxOf_getElem]
  · rw [getLsbD_wordOf, if_neg hj]
    by_cases hlt : j < w
    · rw [decide_eq_true hlt, Bool.true_and]
    · rw [decide_eq_false hlt, Bool.false_and, BitVec.getLsbD_of_ge _ _ (Nat.le_of_not_lt hlt)]

end NdpSim.Library
