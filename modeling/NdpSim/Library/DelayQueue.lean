import Mathlib.Algebra.BigOperators.Group.List.Basic
import Mathlib.Algebra.Order.Group.Multiset
import Mathlib.Data.List.Basic
import Mathlib.Tactic.Abel

/-!
# Queues with a delay

First in, first out, but an element can be seen only when its time has come. An element with a
long delay holds back those behind it. A queue with bound `0` is never full.
-/
namespace NdpSim.Library

variable {α : Type}

structure DelayQueue (α : Type) where
  entries : List (α × Nat)
  now : Nat
  maxSize : Nat

namespace DelayQueue

def create (maxSize : Nat) : DelayQueue α := ⟨[], 0, maxSize⟩

def push (q : DelayQueue α) (x : α) (delay : Nat) : DelayQueue α :=
  { q with entries := q.entries ++ [(x, q.now + delay)] }

/-- The first element, if its time has come. -/
def top? (q : DelayQueue α) : Option α :=
  match q.entries with
  | [] => none
  | (x, finish) :: _ => if q.now < finish then none else some x

def pop (q : DelayQueue α) : DelayQueue α := { q with entries := q.entries.tail }

def cycle (q : DelayQueue α) : DelayQueue α := { q with now := q.now + 1 }

def full (q : DelayQueue α) : Bool := 0 < q.maxSize && q.maxSize ≤ q.entries.length

def items (q : DelayQueue α) : List α := q.entries.map Prod.fst

variable {q : DelayQueue α} {x : α}

@[simp] theorem items_create (maxSize : Nat) : (create maxSize : DelayQueue α).items = [] := rfl

@[simp] theorem items_push (q : DelayQueue α) (x : α) (delay : Nat) :
    (q.push x delay).items = q.items ++ [x] := by
  simp [items, push]

@[simp] theorem items_cycle (q : DelayQueue α) : q.cycle.items = q.items := rfl

theorem items_of_top? (h : q.top? = some x) : q.items = x :: q.pop.items := by
  unfold top? at h
  split at h
  · cases h
  case h_2 y finish rest heq =>
    split at h
    · cases h
    · obtain rfl := Option.some.inj h
      simp [items, pop, heq]

end DelayQueue

/-- One member of a row changes, and what the row amounts to with it. -/
theorem sum_map_modify {M : Type} [AddCommMonoid M] {g : α → M} {f : α → α} {n : Nat} {x : α}
    {row : List α} (hx : row[n]? = some x) :
    g x + ((row.modify n f).map g).sum = g (f x) + (row.map g).sum := by
  induction row generalizing n with
  | nil => cases hx
  | cons y row ih =>
    cases n with
    | zero =>
      obtain rfl := Option.some.inj hx
      simp only [List.modify_zero_cons, List.map_cons, List.sum_cons]
      abel
    | succ n =>
      simp only [List.modify_succ_cons, List.map_cons, List.sum_cons]
      rw [add_left_comm, ih hx, add_left_comm]

namespace DelayQueue

variable {row : List (DelayQueue α)} {n : Nat} {x : α}

theorem sum_items_push {q : DelayQueue α} (h : row[n]? = some q) (x : α) (delay : Nat) :
    ((row.modify n fun q => q.push x delay).map fun q => (q.items : Multiset α)).sum =
      x ::ₘ (row.map fun q => (q.items : Multiset α)).sum := by
  have hsum := sum_map_modify (g := fun q => (q.items : Multiset α))
    (f := fun q => q.push x delay) h
  rw [items_push, ← Multiset.coe_add, add_assoc, add_left_cancel_iff] at hsum
  exact hsum

theorem sum_items_pop (h : row[n]?.bind top? = some x) :
    (row.map fun q => (q.items : Multiset α)).sum =
      x ::ₘ ((row.modify n pop).map fun q => (q.items : Multiset α)).sum := by
  obtain ⟨q, hq, htop⟩ := Option.bind_eq_some_iff.mp h
  have hsum := sum_map_modify (g := fun q => (q.items : Multiset α)) (f := pop) hq
  rw [items_of_top? htop, ← Multiset.cons_coe, Multiset.cons_add, ← Multiset.add_cons,
    add_left_cancel_iff] at hsum
  exact hsum.symm

end DelayQueue

end NdpSim.Library
