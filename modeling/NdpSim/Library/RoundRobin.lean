import Mathlib.Data.List.Basic
import Mathlib.Order.Basic

/-!
# Round robin

The first of `n` places that is wanted, from an offset on and around once.
-/
namespace NdpSim.Library

variable {n off i j : Nat} {p : Nat → Bool}

def wrap (n i : Nat) : Nat := if i < n then i else i - n

/-- How far `i` is from `off`. -/
def ahead (n off i : Nat) : Nat := if off ≤ i then i - off else i + n - off

theorem wrap_lt (hoff : off < n) (hi : i < n) : wrap n (off + i) < n := by
  unfold wrap; split_ifs <;> omega

theorem ahead_lt (hoff : off < n) (hi : i < n) : ahead n off i < n := by
  unfold ahead; split_ifs <;> omega

theorem ahead_wrap (hoff : off < n) (hi : i < n) : ahead n off (wrap n (off + i)) = i := by
  unfold ahead wrap; split_ifs <;> omega

theorem wrap_ahead (hoff : off < n) (hi : i < n) : wrap n (off + ahead n off i) = i := by
  unfold ahead wrap; split_ifs <;> omega

theorem ahead_inj (hoff : off < n) (hi : i < n) (hj : j < n) :
    ahead n off i = ahead n off j ↔ i = j := by
  unfold ahead; split_ifs <;> omega

/-- What is behind `i` comes nearer when `i` had its turn. -/
theorem ahead_next (hoff : off < n) (hi : i < n) (hj : j < n)
    (h : ahead n off i < ahead n off j) :
    ahead n ((i + 1) % n) j < ahead n off j := by
  have hnext : (i + 1) % n = if i + 1 < n then i + 1 else 0 := by
    split_ifs with hlt
    · exact Nat.mod_eq_of_lt hlt
    · obtain rfl : n = i + 1 := by omega
      exact Nat.mod_self _
  rw [hnext]
  unfold ahead at *
  split_ifs at * <;> omega

/-- The places from `off` on. -/
def rotation (n off : Nat) : List Nat := (List.range n).map fun j => wrap n (off + j)

def pick (n off : Nat) (p : Nat → Bool) : Option Nat := (rotation n off).find? p

theorem mem_rotation (hoff : off < n) : i ∈ rotation n off ↔ i < n := by
  constructor
  · intro hi
    obtain ⟨j, hj, rfl⟩ := List.mem_map.mp hi
    exact wrap_lt hoff (List.mem_range.mp hj)
  · intro hi
    exact List.mem_map.mpr ⟨ahead n off i, List.mem_range.mpr (ahead_lt hoff hi),
      wrap_ahead hoff hi⟩

theorem pick_isSome (hoff : off < n) : (pick n off p).isSome ↔ ∃ i < n, p i = true := by
  rw [pick, List.find?_isSome]
  grind [mem_rotation]

/-- Nothing that is nearer is wanted. -/
theorem pick_eq_some (hoff : off < n) (h : pick n off p = some i) :
    i < n ∧ p i = true ∧ ∀ j < n, ahead n off j < ahead n off i → p j = false := by
  obtain ⟨hp, before, after, heq, hbefore⟩ := List.find?_eq_some_iff_append.mp h
  have hi : i < n := by
    apply (mem_rotation hoff).mp
    rw [heq]
    exact List.mem_append_right _ (List.mem_cons_self ..)
  refine ⟨hi, hp, fun j hj hlt => ?_⟩
  have hlen : before.length < n := by
    have hlen := congrArg List.length heq
    simp [rotation] at hlen
    omega
  -- The places of the rotation are in the order of how far they are.
  have hplace : ∀ k < n, (rotation n off)[k]? = some (wrap n (off + k)) := by
    intro k hk
    simp [rotation, hk]
  have hat : wrap n (off + before.length) = i := by
    have hget := hplace _ hlen
    rw [heq, List.getElem?_append_right (Nat.le_refl _), Nat.sub_self] at hget
    exact (Option.some.inj hget).symm
  have hdist : ahead n off i = before.length := by
    rw [← hat, ahead_wrap hoff hlen]
  have hget := hplace _ (ahead_lt hoff hj)
  rw [heq, List.getElem?_append_left (hdist ▸ hlt), wrap_ahead hoff hj] at hget
  have hnot := hbefore j (List.mem_of_getElem? hget)
  simpa using hnot

end NdpSim.Library
