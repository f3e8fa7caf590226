import Mathlib.Algebra.BigOperators.Group.List.Basic

/-!
# Folds of an operation

Folding elements into a value changes nothing exactly if the operation absorbs each of them; for
a sum, if they add up to zero. Where each element is folded into one entry of a table, an entry
is the fold of the elements that go to it.
-/
namespace NdpSim.Library

variable {α : Type}

theorem foldl_add_eq_self_iff [AddCommGroup α] {l : List α} {b : α} :
    l.foldl (· + ·) b = b ↔ l.sum = 0 := by
  have hsum : l.foldl (· + ·) b = b + l.sum := by
    induction l generalizing b with
    | nil => exact (add_zero b).symm
    | cons x l ih => rw [List.foldl_cons, ih, List.sum_cons, add_assoc]
  rw [hsum, add_eq_left]

section Idempotent

variable {f : α → α → α} [Std.Associative f] [Std.Commutative f] [Std.IdempotentOp f]

omit [Std.IdempotentOp f] in
theorem op_foldl (l : List α) (b x : α) : f (l.foldl f b) x = l.foldl f (f b x) := by
  have hassoc : ∀ a b c : α, f (f a b) c = f a (f b c) := Std.Associative.assoc
  have hcomm : ∀ a b : α, f a b = f b a := Std.Commutative.comm
  induction l generalizing b with
  | nil => rfl
  | cons y l ih => rw [List.foldl_cons, List.foldl_cons, ih, hassoc, hcomm y x, ← hassoc]

/-- What was folded in once is absorbed. -/
theorem op_foldl_of_mem {l : List α} {x : α} (h : x ∈ l) (b : α) :
    f (l.foldl f b) x = l.foldl f b := by
  have hassoc : ∀ a b c : α, f (f a b) c = f a (f b c) := Std.Associative.assoc
  have hidem : ∀ a : α, f a a = a := Std.IdempotentOp.idempotent
  induction l generalizing b with
  | nil => cases h
  | cons y l ih =>
    rcases List.mem_cons.mp h with rfl | h
    · rw [List.foldl_cons, op_foldl (f := f), hassoc, hidem]
    · exact ih h _

theorem foldl_eq_self_iff {l : List α} {b : α} : l.foldl f b = b ↔ ∀ x ∈ l, f b x = b := by
  constructor
  · intro h x hx
    have hmem := op_foldl_of_mem (f := f) hx b
    rwa [h] at hmem
  · intro h
    induction l with
    | nil => rfl
    | cons x l ih =>
      rw [List.foldl_cons, h x List.mem_cons_self]
      exact ih fun y hy => h y (List.mem_cons_of_mem _ hy)

end Idempotent

/-! ## Entries of a table -/

section Scatter

variable {ι κ β : Type} [DecidableEq κ] {f : α → β → α} {key key' : ι → κ} {x : ι → β}
  {l : List ι}

/-- Each index of the list changes the entry at its key in turn. -/
def scatter (f : α → β → α) (key : ι → κ) (x : ι → β) (l : List ι) (table : κ → α) : κ → α :=
  l.foldl (fun table i => Function.update table (key i) (f (table (key i)) (x i))) table

theorem scatter_append (l' : List ι) (table : κ → α) :
    scatter f key x (l ++ l') table = scatter f key x l' (scatter f key x l table) :=
  List.foldl_append

theorem scatter_apply (table : κ → α) (k : κ) :
    scatter f key x l table k =
      (l.filter fun i => key i = k).foldl (fun a i => f a (x i)) (table k) := by
  induction l generalizing table with
  | nil => rfl
  | cons i l ih =>
    refine (ih _).trans ?_
    dsimp only
    by_cases hk : key i = k
    · subst hk
      rw [Function.update_self, List.filter_cons_of_pos (by simp), List.foldl_cons]
    · rw [Function.update_of_ne (Ne.symm hk), List.filter_cons_of_neg (by simpa using hk)]

theorem scatter_congr (h : ∀ i ∈ l, key i = key' i) (table : κ → α) :
    scatter f key x l table = scatter f key' x l table := by
  funext k
  rw [scatter_apply, scatter_apply,
    List.filter_congr fun i hi => by rw [h i hi]]

end Scatter

section Neutral

variable {ι β : Type} {f : α → β → α} {x : ι → β} {l : List ι} {a b : α} {i : ι}

theorem foldl_of_neutral (h : ∀ j ∈ l, f a (x j) = a) :
    l.foldl (fun a j => f a (x j)) a = a := by
  induction l with
  | nil => rfl
  | cons j l ih =>
    rw [List.foldl_cons, h j List.mem_cons_self]
    exact ih fun j hj => h j (List.mem_cons_of_mem _ hj)

/-- One index of the list changes the value, and the others do not. -/
theorem foldl_of_mem (hnodup : l.Nodup) (hi : i ∈ l) (hone : f a (x i) = b)
    (hbefore : ∀ j, j ≠ i → f a (x j) = a) (hafter : ∀ j, j ≠ i → f b (x j) = b) :
    l.foldl (fun a j => f a (x j)) a = b := by
  obtain ⟨l₁, l₂, rfl⟩ := List.append_of_mem hi
  obtain ⟨-, hcons, hdisjoint⟩ := List.nodup_append.mp hnodup
  rw [List.foldl_append, List.foldl_cons,
    foldl_of_neutral fun j hj => hbefore j (hdisjoint j hj i List.mem_cons_self), hone]
  refine foldl_of_neutral fun j hj => hafter j ?_
  rintro rfl
  exact (List.nodup_cons.mp hcons).1 hj

end Neutral

end NdpSim.Library
