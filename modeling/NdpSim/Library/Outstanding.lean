import Mathlib.Data.List.AList
import Mathlib.Data.Multiset.Replicate
import Mathlib.Algebra.Order.Group.Multiset

/-!
# Jobs with outstanding parts

A table has the number of parts of each job that are still to be done, and has no entry for a job
without any. `left` is what is to be done, each part under the name of its job.
-/
namespace NdpSim.Library

variable {κ : Type} [DecidableEq κ]

/-- The table counts the parts. -/
def Outstanding (t : AList fun _ : κ => Int) (left : Multiset κ) : Prop :=
  ∀ k, t.lookup k = if k ∈ left then some (left.count k : Int) else none

namespace Outstanding

variable {t : AList fun _ : κ => Int} {left : Multiset κ} {k : κ}

theorem empty : Outstanding (∅ : AList fun _ : κ => Int) 0 := fun k => by simp

theorem mem_iff (h : Outstanding t left) : k ∈ t ↔ k ∈ left := by
  rw [← AList.lookup_isSome, h k]
  split <;> simp_all

theorem getD (h : Outstanding t left) (k : κ) : (t.lookup k).getD 0 = left.count k := by
  rw [h k]
  split
  · rfl
  case isFalse hmem => simp [Multiset.count_eq_zero_of_notMem hmem]

/-- A job with `n` parts is started. -/
theorem start (h : Outstanding t left) (hk : k ∉ t) {n : Nat} (hn : 0 < n) :
    Outstanding (t.insert k n) (left + Multiset.replicate n k) := by
  have hleft : k ∉ left := fun hmem => hk (h.mem_iff.mpr hmem)
  intro j
  by_cases hj : j = k
  · subst hj
    have hmem : j ∈ left + Multiset.replicate n j :=
      Multiset.mem_add.mpr (.inr (Multiset.mem_replicate.mpr ⟨hn.ne', rfl⟩))
    rw [AList.lookup_insert, if_pos hmem, Multiset.count_add, Multiset.count_replicate_self,
      Multiset.count_eq_zero_of_notMem hleft, zero_add]
  · have hnot : j ∉ Multiset.replicate n k := fun hmem => hj (Multiset.eq_of_mem_replicate hmem)
    rw [AList.lookup_insert_ne hj, h j, Multiset.count_add, Multiset.count_eq_zero_of_notMem hnot,
      add_zero]
    simp only [Multiset.mem_add, hnot, or_false]

/-- The last part of a job is done. -/
theorem last (h : Outstanding t (k ::ₘ left)) (hlast : (t.lookup k).getD 0 - 1 = 0) :
    Outstanding (t.erase k) left ∧ k ∈ t := by
  have hcount : left.count k = 0 := by
    rw [h.getD, Multiset.count_cons_self] at hlast
    omega
  refine ⟨fun j => ?_, h.mem_iff.mpr (Multiset.mem_cons_self k left)⟩
  by_cases hj : j = k
  · subst hj
    rw [AList.lookup_erase, if_neg (Multiset.count_eq_zero.mp hcount)]
  · rw [AList.lookup_erase_ne hj, h j, Multiset.count_cons_of_ne hj]
    simp only [Multiset.mem_cons, hj, false_or]

/-- Another part of a job is done. -/
theorem next (h : Outstanding t (k ::ₘ left)) (hlast : (t.lookup k).getD 0 - 1 ≠ 0) :
    Outstanding (t.insert k ((t.lookup k).getD 0 - 1)) left ∧ k ∈ t := by
  have hgetD := h.getD k
  rw [Multiset.count_cons_self] at hgetD
  refine ⟨fun j => ?_, h.mem_iff.mpr (Multiset.mem_cons_self k left)⟩
  by_cases hj : j = k
  · subst hj
    have hmem : j ∈ left := Multiset.count_ne_zero.mp (by omega)
    rw [AList.lookup_insert, if_pos hmem, hgetD]
    simp
  · rw [AList.lookup_insert_ne hj, h j, Multiset.count_cons_of_ne hj]
    simp only [Multiset.mem_cons, hj, false_or]

end Outstanding

/-! ## Which keys a table has -/

variable {β : κ → Type}

theorem keys_insert_of_notMem {t : AList β} {k : κ} (hk : k ∉ t) (b : β k) :
    ((t.insert k b).keys : Multiset κ) = k ::ₘ (t.keys : Multiset κ) := by
  rw [AList.keys_insert, List.erase_of_not_mem fun hmem => hk (AList.mem_keys.mpr hmem)]
  rfl

theorem keys_insert_of_mem {t : AList β} {k : κ} (hk : k ∈ t) (b : β k) :
    ((t.insert k b).keys : Multiset κ) = t.keys := by
  rw [AList.keys_insert]
  exact Multiset.coe_eq_coe.mpr (List.perm_cons_erase (AList.mem_keys.mp hk)).symm

theorem cons_keys_erase {t : AList β} {k : κ} (hk : k ∈ t) :
    k ::ₘ ((t.erase k).keys : Multiset κ) = t.keys := by
  rw [AList.keys_erase]
  exact Multiset.coe_eq_coe.mpr (List.perm_cons_erase (AList.mem_keys.mp hk)).symm

end NdpSim.Library
