import NdpSim.Library.Words
import Mathlib.Data.List.GetD
import Mathlib.Tactic.Ring

/-!
# Words in a list of bytes

A list of bytes is an array of words of `n` bytes, each with its lowest byte first.
-/
namespace NdpSim.Library.Bytes

variable {n i j : Nat} {bs : List (BitVec 8)}

/-- Word `i`; bytes behind the end are zero. -/
def word (n : Nat) (bs : List (BitVec 8)) (i : Nat) : BitVec (8 * n) :=
  wordOf (8 * n) fun k => (bs.getD (i * n + k / 8) 0).getLsbD (k % 8)

/-- Word `i` replaced, as far as there is room for it. -/
def setWord (n : Nat) (bs : List (BitVec 8)) (i : Nat) (x : BitVec (8 * n)) : List (BitVec 8) :=
  bs.mapIdx fun j b => if i * n ≤ j ∧ j < i * n + n then x.extractLsb' (8 * (j - i * n)) 8 else b

@[simp] theorem length_setWord (x : BitVec (8 * n)) : (setWord n bs i x).length = bs.length :=
  List.length_mapIdx

/-- The bytes of a list with a word replaced. -/
theorem getD_setWord (x : BitVec (8 * n)) (k : Nat) : (setWord n bs i x).getD k 0 =
    if i * n ≤ k ∧ k < i * n + n ∧ k < bs.length then x.extractLsb' (8 * (k - i * n)) 8
    else bs.getD k 0 := by
  rw [List.getD_eq_getElem?_getD, List.getD_eq_getElem?_getD, setWord, List.getElem?_mapIdx]
  by_cases hk : k < bs.length
  · rw [List.getElem?_eq_getElem hk]
    simp only [Option.map_some, Option.getD_some, hk, and_true]
  · rw [List.getElem?_eq_none (Nat.le_of_not_lt hk), if_neg fun h => hk h.2.2]
    rfl

/-- A word is read back. -/
theorem word_setWord_self (x : BitVec (8 * n)) (h : (i + 1) * n ≤ bs.length) :
    word n (setWord n bs i x) i = x := by
  have hsucc : (i + 1) * n = i * n + n := by ring
  apply BitVec.eq_of_getLsbD_eq
  intro k hk
  rw [word, getLsbD_wordOf, decide_eq_true hk, Bool.true_and, getD_setWord,
    if_pos ⟨by omega, by omega, by omega⟩, BitVec.getLsbD_extractLsb',
    decide_eq_true (Nat.mod_lt k (by decide)), Bool.true_and]
  congr 1
  omega

/-- The other words are as before. -/
theorem word_setWord_ne (x : BitVec (8 * n)) (h : j ≠ i) :
    word n (setWord n bs i x) j = word n bs j := by
  apply BitVec.eq_of_getLsbD_eq
  intro k hk
  rw [word, word, getLsbD_wordOf, getLsbD_wordOf, getD_setWord, if_neg]
  intro hin
  rcases Nat.lt_or_gt_of_ne h with hlt | hlt
  · have hle : (j + 1) * n ≤ i * n := Nat.mul_le_mul_right n hlt
    have hsucc : (j + 1) * n = j * n + n := by ring
    omega
  · have hle : (i + 1) * n ≤ j * n := Nat.mul_le_mul_right n hlt
    have hsucc : (i + 1) * n = i * n + n := by ring
    omega

end NdpSim.Library.Bytes
