import NdpSim.Isa.VectorData
import NdpSim.Library.Parity

/-!
# Hash functions of indices

The polynomial hash adds to each bit of an index the parity of some of the higher bits, the bitwise
hash the higher bit at its place.
-/
namespace NdpSim

open Library

/-- The bits of `higher_bits` that go into each bit of the index. -/
def ipolyRows : Nat → List (List Nat)
  | 16 => [[11, 10, 9, 8, 6, 4, 3, 0], [12, 8, 7, 6, 5, 3, 1, 0], [9, 8, 7, 6, 4, 2, 1],
      [10, 9, 8, 7, 5, 3, 2]]
  | 32 => [[13, 12, 11, 10, 9, 6, 5, 3, 0], [14, 13, 12, 11, 10, 7, 6, 4, 1],
      [14, 10, 9, 8, 7, 6, 3, 2, 0], [11, 10, 9, 8, 7, 4, 3, 1], [12, 11, 10, 9, 8, 5, 4, 2]]
  | 64 => [[18, 17, 16, 15, 12, 10, 6, 5, 0], [15, 13, 12, 11, 10, 7, 5, 1, 0],
      [16, 14, 13, 12, 11, 8, 6, 2, 1], [17, 15, 14, 13, 12, 9, 7, 3, 2],
      [18, 16, 15, 14, 13, 10, 8, 4, 3], [17, 16, 15, 14, 11, 9, 5, 4]]
  | _ => []

/-- The bits of a number, the lowest first. -/
def ofBits : List Bool → Nat
  | [] => 0
  | b :: bs => b.toNat + 2 * ofBits bs

/-- `ipoly_hash_function`; without its assertion the index is 0 for any other number of sets. -/
def ipolyHash (higherBits index nset : Nat) : Nat :=
  ofBits ((ipolyRows nset).mapIdx fun k row =>
    row.foldl (fun b i => b ^^ higherBits.testBit i) (index.testBit k))

/-- `ipoly_hash_function`, with its assertion. -/
def ipolyHashFunction (higherBits : BitVec 64) (index bankSetNum : BitVec 32) :
    Except Fault (BitVec 32) :=
  if bankSetNum.toNat ∈ [16, 32, 64] then
    .ok (.ofNat 32 (ipolyHash higherBits.toNat index.toNat bankSetNum.toNat))
  else .error .assertion

/-- `bitwise_hash_function` -/
def bitwiseHashFunction (higherBits : BitVec 64) (index bankSetNum : BitVec 32) : BitVec 32 :=
  (index.setWidth 64 ^^^ (higherBits &&& (bankSetNum - 1).setWidth 64)).setWidth 32

theorem ofBits_lt (bs : List Bool) : ofBits bs < 2 ^ bs.length := by
  induction bs with
  | nil => exact Nat.one_pos
  | cons b bs ih =>
    rw [ofBits, List.length_cons, Nat.pow_succ]
    have := b.toNat_le
    omega

theorem testBit_ofBits (bs : List Bool) (k : Nat) : (ofBits bs).testBit k = bs[k]?.getD false := by
  induction bs generalizing k with
  | nil => exact Nat.zero_testBit k
  | cons b bs ih =>
    have hdiv : (b.toNat + 2 * ofBits bs) / 2 = ofBits bs := by
      have := b.toNat_le
      omega
    cases k with
    | zero =>
      rw [ofBits, Nat.testBit_zero]
      cases b <;> simp
    | succ k => rw [ofBits, Nat.testBit_succ, hdiv, ih, List.getElem?_cons_succ]

/-- Each bit of the index with the parity of its row. -/
theorem testBit_ipolyHash (higherBits index nset k : Nat) :
    (ipolyHash higherBits index nset).testBit k = ((ipolyRows nset)[k]?.map fun row =>
      index.testBit k ^^ parity row higherBits.testBit).getD false := by
  rw [ipolyHash, testBit_ofBits, List.getElem?_mapIdx]
  simp only [foldl_xor]

theorem ipolyHash_lt {nset : Nat} (higherBits index : Nat) (h : 0 < nset) :
    ipolyHash higherBits index nset < nset := by
  have hlt := ofBits_lt ((ipolyRows nset).mapIdx fun k row =>
    row.foldl (fun b i => b ^^ higherBits.testBit i) (index.testBit k))
  rw [List.length_mapIdx] at hlt
  refine hlt.trans_le ?_
  unfold ipolyRows
  split
  · exact le_rfl
  · exact le_rfl
  · exact le_rfl
  · exact h

/-- The bits of the index with those at their places. -/
theorem getLsbD_bitwiseHashFunction {n : Nat} (hn : n < 32) (higherBits : BitVec 64)
    (index : BitVec 32) (k : Nat) :
    (bitwiseHashFunction higherBits index (.ofNat 32 (2 ^ n))).getLsbD k =
      (index.getLsbD k ^^ (decide (k < n) && higherBits.getLsbD k)) := by
  have hmask : (BitVec.ofNat 32 (2 ^ n) - 1).toNat = 2 ^ n - 1 := by
    have hpow : 2 ^ n ≤ 2 ^ 31 := Nat.pow_le_pow_right Nat.two_pos (Nat.le_of_lt_succ hn)
    have hpos : 0 < 2 ^ n := Nat.two_pow_pos n
    rw [BitVec.toNat_sub, BitVec.toNat_ofNat]
    change (2 ^ 32 - 1 + 2 ^ n % 2 ^ 32) % 2 ^ 32 = _
    omega
  have hbit : (BitVec.ofNat 32 (2 ^ n) - 1).getLsbD k = decide (k < n) := by
    rw [BitVec.getLsbD, hmask, Nat.testBit_two_pow_sub_one]
  rw [bitwiseHashFunction, BitVec.getLsbD_setWidth, BitVec.getLsbD_xor, BitVec.getLsbD_and,
    BitVec.getLsbD_setWidth, BitVec.getLsbD_setWidth, hbit]
  by_cases hk : k < 32
  · simp [hk, Nat.lt_trans hk (by decide : 32 < 64), Bool.and_comm]
  · have hkn : ¬ k < n := by omega
    simp [hk, hkn, BitVec.getLsbD_of_ge index k (by omega)]

end NdpSim
