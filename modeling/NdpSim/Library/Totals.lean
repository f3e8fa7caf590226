import Mathlib.Algebra.BigOperators.Group.Finset.Piecewise
import Mathlib.Algebra.Order.Group.Multiset
import Mathlib.Tactic.Abel
import NdpSim.Library.Effects

/-!
# Totals over a table

What all entries of a table hold together, and how it changes with one of them.
-/
namespace NdpSim.Library

open Finset

variable {M α : Type} [AddCommMonoid M] {n j : Nat}

/-- The sum of the first `n` entries. -/
def total (n : Nat) (f : Nat → M) : M := ∑ i ∈ range n, f i

theorem total_zero : total n (fun _ => (0 : M)) = 0 := sum_const_zero

/-- One entry is put in the place of another one. -/
theorem total_update (hj : j < n) (f : Nat → M) (x : M) :
    total n (Function.update f j x) + f j = total n f + x := by
  have hmem : j ∈ range n := mem_range.mpr hj
  rw [total, total, sum_update_of_mem hmem, ← sum_sdiff (singleton_subset_iff.mpr hmem),
    sum_singleton]
  abel

/-- The same for entries that are computed from those of another table. -/
theorem total_comp_update {β : Type} (hj : j < n) (g : β → M) (f : Nat → β) (b : β) :
    total n (fun i => g (Function.update f j b i)) + g (f j) =
      total n (fun i => g (f i)) + g b := by
  have hcomp : (fun i => g (Function.update f j b i)) =
      Function.update (fun i => g (f i)) j (g b) := Function.comp_update g f j b
  rw [hcomp]
  exact total_update hj _ _

/-- All that is in the first `n` queues. -/
def queued (n : Nat) (q : Nat → List α) : Multiset α := total n fun i => (q i : Multiset α)

theorem queued_update (hj : j < n) (q : Nat → List α) (l : List α) :
    queued n (Function.update q j l) + (q j : Multiset α) = queued n q + (l : Multiset α) :=
  total_comp_update hj _ q l

theorem queued_push (hj : j < n) (q : Nat → List α) (a : α) :
    queued n (Function.update q j (q j ++ [a])) = queued n q + {a} := by
  have h := queued_update hj q (q j ++ [a])
  rw [← Multiset.coe_add, add_comm (q j : Multiset α), ← add_assoc] at h
  exact add_right_cancel h

theorem queued_pop {q : Nat → List α} {a : α} {rest : List α} (hj : j < n)
    (hq : q j = a :: rest) : queued n (Function.update q j rest) + {a} = queued n q := by
  have h := queued_update hj q rest
  rw [hq, ← Multiset.cons_coe, ← Multiset.singleton_add, ← add_assoc] at h
  exact add_right_cancel h

theorem mem_queued {q : Nat → List α} {a : α} : a ∈ queued n q ↔ ∃ i < n, a ∈ q i := by
  simp [queued, total, Multiset.mem_sum]

/-! ## Loops over a table -/

/-- What is preserved for each entry holds after a loop over all of them. -/
theorem foldlM_range {ε β : Type} {P : β → Prop} {f : β → Nat → Except ε β}
    (hf : ∀ i < n, ∀ b b', f b i = .ok b' → P b → P b') {b b' : β}
    (h : (List.range n).foldlM f b = .ok b') (hb : P b) : P b' := by
  have hlt : ∀ i ∈ List.range n, i < n := fun i => List.mem_range.mp
  generalize List.range n = l at h hlt
  induction l generalizing b with
  | nil =>
    obtain rfl := Except.ok.inj h
    exact hb
  | cons i l ih =>
    obtain ⟨hi, hlt⟩ := List.forall_mem_cons.mp hlt
    rw [List.foldlM_cons] at h
    obtain ⟨b₁, h₁, h⟩ := bind_eq_ok.mp h
    exact ih (hf i hi b b₁ h₁ hb) h hlt

/-- Such a loop ends if no entry stops it, given what was done before. -/
theorem exists_foldlM_range {ε β : Type} {P : Nat → β → Prop} {f : β → Nat → Except ε β}
    (hf : ∀ i < n, ∀ b, P i b → ∃ b', f b i = .ok b' ∧ P (i + 1) b') {b : β} (hb : P 0 b) :
    ∃ b', (List.range n).foldlM f b = .ok b' ∧ P n b' := by
  induction n with
  | zero => exact ⟨b, rfl, hb⟩
  | succ n ih =>
    obtain ⟨b₁, h₁, hb₁⟩ := ih fun i hi => hf i (hi.trans (Nat.lt_succ_self n))
    obtain ⟨b₂, h₂, hb₂⟩ := hf n (Nat.lt_succ_self n) b₁ hb₁
    refine ⟨b₂, ?_, hb₂⟩
    rw [List.range_succ, List.foldlM_append, h₁, ok_bind, List.foldlM_cons, h₂, ok_bind]
    rfl

end NdpSim.Library
