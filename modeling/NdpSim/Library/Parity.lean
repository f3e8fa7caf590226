import Mathlib.Data.List.Basic

/-!
# Hashes over bits

A hash that adds to each bit of an index the parity of some bits of another word. If the parity
that goes to the last bit does not depend on the last bit of the index, then each value of the hash
belongs to exactly one index.
-/
namespace NdpSim.Library

/-- The parity of the bits of a row. -/
def parity (row : List Nat) (a : Nat → Bool) : Bool := row.foldl (fun b i => b ^^ a i) false

@[simp] theorem parity_nil (a : Nat → Bool) : parity [] a = false := rfl

theorem foldl_xor (row : List Nat) (a : Nat → Bool) (b : Bool) :
    row.foldl (fun b i => b ^^ a i) b = (b ^^ parity row a) := by
  induction row generalizing b with
  | nil => exact (Bool.xor_false b).symm
  | cons i row ih => rw [parity, List.foldl_cons, List.foldl_cons, ih, ih (false ^^ a i),
      Bool.false_xor, Bool.xor_assoc]

@[simp] theorem parity_singleton (i : Nat) (a : Nat → Bool) : parity [i] a = a i :=
  Bool.false_xor (a i)

theorem parity_cons (i : Nat) (row : List Nat) (a : Nat → Bool) :
    parity (i :: row) a = (a i ^^ parity row a) := by
  rw [parity, List.foldl_cons, foldl_xor, Bool.false_xor]

theorem parity_congr {row : List Nat} {a a' : Nat → Bool} (h : ∀ i ∈ row, a i = a' i) :
    parity row a = parity row a' := by
  rw [parity, parity]
  exact List.foldl_ext _ _ false fun b i hi => by rw [h i hi]

/-- The parity of a row, of a word with one bit. -/
theorem parity_bit {row : List Nat} (h : row.Nodup) (b : Bool) (j : Nat) :
    parity row (fun i => decide (i = j) && b) = (decide (j ∈ row) && b) := by
  induction row with
  | nil => rfl
  | cons i row ih =>
    obtain ⟨hi, hrow⟩ := List.nodup_cons.mp h
    rw [parity_cons, ih hrow]
    by_cases hij : i = j
    · subst hij
      simp [hi]
    · simp [hij, Ne.symm hij]

/-! ## The last bit decides the others -/

section Mix

variable {n : Nat} {f : Nat → Bool → Bool}

/-- Equal hashes come from equal indices. -/
theorem mix_inj (hn : 0 < n) (hlast : f (n - 1) true = f (n - 1) false) {b b' : Nat → Bool}
    (h : ∀ k < n, (b k ^^ f k (b (n - 1))) = (b' k ^^ f k (b' (n - 1)))) : ∀ k < n, b k = b' k := by
  have hconst : ∀ t t' : Bool, f (n - 1) t = f (n - 1) t' := by
    rintro (_ | _) (_ | _) <;> simp [hlast]
  have htop : b (n - 1) = b' (n - 1) := by
    have hbits := h (n - 1) (by omega)
    rw [hconst (b (n - 1)) (b' (n - 1))] at hbits
    exact Bool.xor_left_inj.mp hbits
  intro k hk
  have hbits := h k hk
  rw [htop] at hbits
  exact Bool.xor_left_inj.mp hbits

/-- Every value is a hash. -/
theorem exists_mix (hlast : f (n - 1) true = f (n - 1) false) (c : Nat → Bool) :
    ∃ b : Nat → Bool, ∀ k < n, (b k ^^ f k (b (n - 1))) = c k := by
  have hconst : ∀ t t' : Bool, f (n - 1) t = f (n - 1) t' := by
    rintro (_ | _) (_ | _) <;> simp [hlast]
  let top := c (n - 1) ^^ f (n - 1) false
  have htop : (c (n - 1) ^^ f (n - 1) top) = top := by
    rw [hconst top false]
  refine ⟨fun k => c k ^^ f k top, fun k _ => ?_⟩
  dsimp only
  rw [htop, Bool.xor_assoc, Bool.xor_self, Bool.xor_false]

end Mix

end NdpSim.Library
