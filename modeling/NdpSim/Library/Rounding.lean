import Mathlib.Data.Rat.Floor

/-!
# Rounding to binary floating point

Numbers are exact and every operation rounds its result to a number of significant bits, to the
nearest and of two to the even one. Overflow and denormal numbers are left out.
-/
namespace NdpSim.Library

/-- The nearest integer, the even one of two. -/
def roundHalfEven (q : Rat) : Int :=
  let r := q - q.floor
  if r < 1 / 2 ∨ r = 1 / 2 ∧ q.floor % 2 = 0 then q.floor else q.floor + 1

/-- `⌊log₂ q⌋` for a positive `q`. -/
def binaryExponent (q : Rat) : Int :=
  let k : Int := (Nat.log2 q.num.natAbs : Int) - Nat.log2 q.den
  if q < 2 ^ k then k - 1 else k

/-- Rounding to `bits` significant bits, for numbers far from both ends of the range. -/
def roundTo (bits : Nat) (q : Rat) : Rat :=
  if q = 0 then 0
  else
    let e := binaryExponent (abs q) - (bits - 1)
    roundHalfEven (q / 2 ^ e) * 2 ^ e

def toFloat (n : Int) : Rat := roundTo 24 n

end NdpSim.Library
