import Mathlib.Data.Nat.Bitwise

/-!
# Fields of bits

The bits of a number from one place on, and numbers that are put together from two fields.
-/
namespace NdpSim.Library

/-- The bits of `x` from `lo` on, as many as `len`. -/
def field (x lo len : Nat) : Nat := x / 2 ^ lo % 2 ^ len

theorem field_lt (x lo len : Nat) : field x lo len < 2 ^ len := Nat.mod_lt _ (Nat.two_pow_pos len)

/-- Two fields that are put together -/
theorem field_add_lt (x lo hi len len' : Nat) :
    field x lo len + 2 ^ len * field x hi len' < 2 ^ (len + len') := by
  have hlow := field_lt x lo len
  have hhigh := Nat.mul_le_mul_left (2 ^ len) (Nat.succ_le_of_lt (field_lt x hi len'))
  rw [Nat.mul_succ] at hhigh
  rw [pow_add]
  omega

theorem field_zero (x len : Nat) : field x 0 len = x % 2 ^ len := by
  rw [field, pow_zero, Nat.div_one]

/-- A field of what is left when a part was cut off. -/
theorem field_div (x n lo len : Nat) : field (x / 2 ^ n) lo len = field x (n + lo) len := by
  rw [field, field, Nat.div_div_eq_div_mul, pow_add]

theorem testBit_field (x lo len i : Nat) :
    (field x lo len).testBit i = (decide (i < len) && x.testBit (i + lo)) := by
  rw [field, Nat.testBit_mod_two_pow, Nat.testBit_div_two_pow]

/-- Two numbers have the same field if they have the same bits there. -/
theorem field_eq_iff {x y lo len : Nat} : field x lo len = field y lo len ↔
    ∀ i, lo ≤ i → i < lo + len → x.testBit i = y.testBit i := by
  constructor
  · intro h i hlo hhi
    have hbit := congrArg (Nat.testBit · (i - lo)) h
    simp only [testBit_field, show i - lo < len by omega, decide_true, Bool.true_and,
      Nat.sub_add_cancel hlo] at hbit
    exact hbit
  · intro h
    apply Nat.eq_of_testBit_eq
    intro i
    rw [testBit_field, testBit_field]
    by_cases hi : i < len
    · rw [h (i + lo) (by omega) (by omega)]
    · simp [hi]

/-- A number put together from a low and a high part tells both. -/
theorem add_mul_eq_iff {b low low' high high' : Nat} (h : low < b) (h' : low' < b) :
    low + b * high = low' + b * high' ↔ low = low' ∧ high = high' := by
  constructor
  · intro heq
    have hlow : low = low' := by
      have hmod := congrArg (· % b) heq
      simpa [Nat.add_mul_mod_self_left, Nat.mod_eq_of_lt h, Nat.mod_eq_of_lt h'] using hmod
    subst hlow
    exact ⟨rfl, Nat.eq_of_mul_eq_mul_left (by omega) (Nat.add_left_cancel heq)⟩
  · rintro ⟨rfl, rfl⟩
    rfl

end NdpSim.Library
