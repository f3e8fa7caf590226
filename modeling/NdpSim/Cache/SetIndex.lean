import NdpSim.Cache.Resize

/-!
# Set indices

The set of an address is its line number modulo the number of sets, hashed with the bits above it.
The code compares the address with the number of bits below where it should shift it by them, so
the hashes see one bit only.
-/
namespace NdpSim

open Library

/-! ## Binary logarithms -/

/-- A stage of `LOGB2`: the lower half is dropped if the upper half, under the mask, is not 0. -/
def logb2Stage (s : BitVec 32 × BitVec 32) (stage : BitVec 32 × Nat) : BitVec 32 × BitVec 32 :=
  let (v, r) := s
  let upper : BitVec 32 := if v &&& stage.1 ≠ 0 then 1 else 0
  let shift := upper <<< stage.2
  (v >>> shift, r ||| shift)

def logb2Stages : List (BitVec 32 × Nat) :=
  [(0xFFFF0000, 4), (0xFF00, 3), (0xF0, 2), (0xC, 1), (0x2, 0)]

/-- `LOGB2` -/
def logb2 (v : BitVec 32) : BitVec 32 := (logb2Stages.foldl logb2Stage (v, 0)).2

/-- The search for the highest bit of `n`, with the lower `k` bits of its number to be found. -/
structure Searched (n k : Nat) (s : BitVec 32 × BitVec 32) : Prop where
  rest_eq : s.1.toNat = n / 2 ^ s.2.toNat
  rest_pos : 0 < s.1.toNat
  rest_lt : s.1.toNat < 2 ^ 2 ^ k
  dvd : 2 ^ k ∣ s.2.toNat

/-- The mask tells whether there is a bit in the upper half. -/
theorem and_mask_ne_zero_iff {v mask : BitVec 32} {k : Nat}
    (hmask : ∀ i < 32, mask.getLsbD i = decide (2 ^ k ≤ i ∧ i < 2 ^ (k + 1)))
    (hv : v.toNat < 2 ^ 2 ^ (k + 1)) : v &&& mask ≠ 0 ↔ 2 ^ 2 ^ k ≤ v.toNat := by
  rw [← not_lt, not_iff_not]
  constructor
  · intro hzero
    refine Nat.lt_pow_two_of_testBit _ fun i hi => ?_
    change v.getLsbD i = false
    by_cases hi' : i < 2 ^ (k + 1)
    · by_cases hlt : i < 32
      · have hbit := congrArg (BitVec.getLsbD · i) hzero
        have hand : (v.getLsbD i && mask.getLsbD i) = false := by
          rw [← BitVec.getLsbD_and]
          exact hbit.trans BitVec.getLsbD_zero
        rwa [hmask i hlt, decide_eq_true ⟨hi, hi'⟩, Bool.and_true] at hand
      · exact BitVec.getLsbD_of_ge _ _ (not_lt.mp hlt)
    · exact Nat.testBit_lt_two_pow (hv.trans_le (Nat.pow_le_pow_right Nat.two_pos (not_lt.mp hi')))
  · intro hlow
    refine BitVec.eq_of_getLsbD_eq fun i hi => ?_
    rw [BitVec.getLsbD_and, hmask i hi]
    refine Eq.trans ?_ BitVec.getLsbD_zero.symm
    by_cases hle : 2 ^ k ≤ i
    · have hbit : v.getLsbD i = false :=
        Nat.testBit_lt_two_pow (hlow.trans_le (Nat.pow_le_pow_right Nat.two_pos hle))
      rw [hbit, Bool.false_and]
    · rw [decide_eq_false fun h => hle h.1, Bool.and_false]

theorem Searched.stage {n k : Nat} {s : BitVec 32 × BitVec 32} (mask : BitVec 32) (hk : k < 5)
    (hmask : ∀ i < 32, mask.getLsbD i = decide (2 ^ k ≤ i ∧ i < 2 ^ (k + 1)))
    (h : Searched n (k + 1) s) : Searched n k (logb2Stage s (mask, k)) := by
  obtain ⟨hrest, hpos, hlt, hdvd⟩ := h
  have hdvd' : 2 ^ k ∣ s.2.toNat := (Nat.pow_dvd_pow 2 k.le_succ).trans hdvd
  have hmask := and_mask_ne_zero_iff hmask hlt
  rw [logb2Stage]
  by_cases hupper : 2 ^ 2 ^ k ≤ s.1.toNat
  · have hshift : ((1 : BitVec 32) <<< k).toNat = 2 ^ k := by
      rw [BitVec.toNat_shiftLeft, Nat.shiftLeft_eq]
      have hone : (1 : BitVec 32).toNat = 1 := rfl
      rw [hone, Nat.one_mul]
      exact Nat.mod_eq_of_lt (Nat.pow_lt_pow_right (by decide) (by omega))
    have hor : (s.2 ||| (1 : BitVec 32) <<< k).toNat = s.2.toNat + 2 ^ k := by
      obtain ⟨c, hc⟩ := hdvd
      rw [BitVec.toNat_or, hshift, hc]
      exact (Nat.two_pow_add_eq_or_of_lt (Nat.pow_lt_pow_right (by decide) k.lt_succ_self) c).symm
    have hv : (s.1 >>> ((1 : BitVec 32) <<< k)).toNat = s.1.toNat / 2 ^ 2 ^ k := by
      rw [BitVec.ushiftRight_eq', BitVec.toNat_ushiftRight, hshift, Nat.shiftRight_eq_div_pow]
    simp only [if_pos (hmask.mpr hupper)]
    constructor
    · rw [hv, hor, hrest, Nat.div_div_eq_div_mul, ← Nat.pow_add]
    · rw [hv]
      exact Nat.div_pos hupper (Nat.two_pow_pos _)
    · rw [hv, Nat.div_lt_iff_lt_mul (Nat.two_pow_pos _), ← Nat.pow_add, ← Nat.two_mul,
        ← Nat.pow_succ']
      exact hlt
    · rw [hor]
      exact (Nat.dvd_add_right hdvd').mpr dvd_rfl
  · have hzero : (0 : BitVec 32) <<< k = 0 := BitVec.zero_shiftLeft k
    have hor : s.2 ||| 0 = s.2 := BitVec.or_zero
    simp only [if_neg (hmask.not.mpr hupper), hzero, hor]
    exact ⟨hrest, hpos, not_le.mp hupper, hdvd'⟩

/-- `LOGB2` is the binary logarithm. -/
theorem toNat_logb2 (v : BitVec 32) : (logb2 v).toNat = Nat.log2 v.toNat := by
  by_cases hv : v = 0
  · rw [hv]
    decide
  have hpos : 0 < v.toNat := Nat.pos_of_ne_zero fun h => hv (BitVec.eq_of_toNat_eq h)
  have hstart : Searched v.toNat 5 (v, 0) :=
    ⟨(Nat.div_one _).symm, hpos, v.isLt, dvd_zero _⟩
  have h4 := hstart.stage 0xFFFF0000 (by decide) (by decide)
  have h3 := h4.stage 0xFF00 (by decide) (by decide)
  have h2 := h3.stage 0xF0 (by decide) (by decide)
  have h1 := h2.stage 0xC (by decide) (by decide)
  have h0 : Searched v.toNat 0 (logb2Stages.foldl logb2Stage (v, 0)) :=
    h1.stage 0x2 (by decide) (by decide)
  have hone : v.toNat / 2 ^ (logb2 v).toNat = 1 :=
    h0.rest_eq.symm.trans (Nat.le_antisymm (Nat.le_of_lt_succ h0.rest_lt) h0.rest_pos)
  refine ((Nat.log2_eq_iff hpos.ne').mpr ?_).symm
  have hdiv := Nat.div_add_mod v.toNat (2 ^ (logb2 v).toNat)
  have hmod := Nat.mod_lt v.toNat (Nat.two_pow_pos (logb2 v).toNat)
  rw [hone] at hdiv
  rw [Nat.pow_succ]
  omega

theorem log2_lt (v : BitVec 32) : Nat.log2 v.toNat < 32 := by
  by_cases hv : v.toNat = 0
  · rw [hv]
    decide
  · exact (Nat.log2_lt hv).mpr v.isLt

/-! ## The index -/

/-- What `hash_function` reads of a `CacheConfig`. -/
structure SetIndexConfig where
  setIndexFunction : SetIndexFunction
  nset : BitVec 32
  lineSizeLog2 : BitVec 32
  nsetLog2 : BitVec 32

namespace SetIndexConfig

/-- `init` -/
def init (setIndexFunction : SetIndexFunction) (nset lineSize : BitVec 32) : SetIndexConfig :=
  ⟨setIndexFunction, nset, logb2 lineSize, logb2 nset⟩

/-- The switch of `hash_function`. -/
def setIndex (setIndexFunction : SetIndexFunction) (nset : BitVec 32) (higherBits : BitVec 64)
    (index : BitVec 32) : Except Fault (BitVec 32) :=
  match setIndexFunction with
  | .linear => .ok index
  | .bitwiseXoring => .ok (bitwiseHashFunction higherBits index nset)
  | .hashIpoly => ipolyHashFunction higherBits index nset
  | .custom => .ok 0

/-- `hash_function`; the higher bits are the result of a comparison. -/
def hashFunction (g : SetIndexConfig) (addr : BitVec 64) : Except Fault (BitVec 32) :=
  let higherBits : BitVec 64 := if (g.lineSizeLog2 + g.nsetLog2).setWidth 64 < addr then 1 else 0
  let index := (addr >>> g.lineSizeLog2 &&& (g.nset - 1).setWidth 64).setWidth 32
  setIndex g.setIndexFunction g.nset higherBits index

/-- The number of address bits below the higher bits. -/
def lowerBits (nset lineSize : BitVec 32) : Nat :=
  Nat.log2 lineSize.toNat + Nat.log2 nset.toNat

/-- The line number modulo the number of sets. -/
def linearIndex (nset lineSize : BitVec 32) (addr : BitVec 64) : BitVec 32 :=
  .ofNat 32 (addr.toNat / 2 ^ Nat.log2 lineSize.toNat % nset.toNat)

/-- The index is the linear one, or hashed with the bits above it. -/
def Prescribed (setIndexFunction : SetIndexFunction) (nset lineSize : BitVec 32)
    (addr : BitVec 64) (idx : BitVec 32) : Prop :=
  let higherBits := addr >>> lowerBits nset lineSize
  let index := linearIndex nset lineSize addr
  match setIndexFunction with
  | .linear => idx = index
  | .bitwiseXoring => idx = bitwiseHashFunction higherBits index nset
  | .hashIpoly => .ok idx = ipolyHashFunction higherBits index nset
  | .custom => True

/-- The higher bits that go into each bit of the index. -/
def rows (setIndexFunction : SetIndexFunction) (nset : BitVec 32) : List (List Nat) :=
  match setIndexFunction with
  | .bitwiseXoring => (List.range (Nat.log2 nset.toNat)).map ([·])
  | .hashIpoly => ipolyRows nset.toNat
  | .linear | .custom => []

/-- Geometries `hash_function` is made for. -/
structure Supported (setIndexFunction : SetIndexFunction) (nset : BitVec 32) : Prop where
  pow : ∃ n, nset.toNat = 2 ^ n
  ipoly : setIndexFunction = .hashIpoly → nset.toNat ∈ [16, 32, 64]

variable {f : SetIndexFunction} {nset lineSize : BitVec 32}

theorem Supported.eq_two_pow (h : Supported f nset) : nset.toNat = 2 ^ Nat.log2 nset.toNat := by
  obtain ⟨n, hn⟩ := h.pow
  rw [hn, Nat.log2_two_pow]

theorem Supported.pos (h : Supported f nset) : 0 < nset.toNat :=
  h.eq_two_pow ▸ Nat.two_pow_pos _

theorem ipolyRows_cases : ∀ n ∈ [16, 32, 64], 2 ^ (ipolyRows n).length = n ∧
    ∀ row ∈ ipolyRows n, row.Nodup := by
  decide

theorem length_rows_le (h : Supported f nset) : (rows f nset).length ≤ Nat.log2 nset.toNat := by
  cases f with
  | linear | custom => exact Nat.zero_le _
  | bitwiseXoring => rw [rows, List.length_map, List.length_range]
  | hashIpoly =>
    have hlength : 2 ^ (ipolyRows nset.toNat).length = 2 ^ Nat.log2 nset.toNat :=
      (ipolyRows_cases _ (h.ipoly rfl)).1.trans h.eq_two_pow
    exact (Nat.pow_right_injective le_rfl hlength).le

theorem nodup_of_mem_rows (h : Supported f nset) {row : List Nat} (hrow : row ∈ rows f nset) :
    row.Nodup := by
  cases f with
  | linear | custom => cases hrow
  | bitwiseXoring =>
    obtain ⟨i, -, rfl⟩ := List.mem_map.mp hrow
    exact List.nodup_singleton i
  | hashIpoly => exact (ipolyRows_cases _ (h.ipoly rfl)).2 row hrow

/-- The bits of a hashed index. -/
theorem setIndex_bits (h : Supported f nset) (hf : f ≠ .custom) (higherBits : BitVec 64)
    {index : BitVec 32} (hindex : index.toNat < nset.toNat) :
    ∃ idx, setIndex f nset higherBits index = .ok idx ∧ ∀ j, idx.getLsbD j = (index.getLsbD j ^^
      ((rows f nset)[j]?.map fun row => parity row higherBits.getLsbD).getD false) := by
  have hpow := h.eq_two_pow
  have hnset : nset = .ofNat 32 (2 ^ Nat.log2 nset.toNat) := by
    rw [← hpow, BitVec.ofNat_toNat, BitVec.setWidth_eq]
  cases f with
  | custom => exact absurd rfl hf
  | linear => exact ⟨index, rfl, fun j => (Bool.xor_false _).symm⟩
  | bitwiseXoring =>
    refine ⟨_, rfl, fun j => ?_⟩
    have hbit := getLsbD_bitwiseHashFunction (log2_lt nset) higherBits index j
    rw [← hnset] at hbit
    rw [hbit, rows, List.getElem?_map]
    by_cases hj : j < Nat.log2 nset.toNat
    · rw [List.getElem?_range hj, decide_eq_true hj, Bool.true_and, Option.map_some,
        Option.map_some, parity_singleton]
      rfl
    · rw [List.getElem?_eq_none (by rw [List.length_range]; omega), decide_eq_false hj,
        Bool.false_and]
      rfl
  | hashIpoly =>
    have hmem := h.ipoly rfl
    refine ⟨_, if_pos hmem, fun j => ?_⟩
    rw [BitVec.getLsbD_ofNat, testBit_ipolyHash, rows]
    obtain ⟨hlength, -⟩ := ipolyRows_cases _ hmem
    cases hrow : (ipolyRows nset.toNat)[j]? with
    | none =>
      have hle : (ipolyRows nset.toNat).length ≤ j := List.getElem?_eq_none_iff.mp hrow
      have hbit : index.getLsbD j = false := by
        rw [← hlength] at hindex
        exact Nat.testBit_lt_two_pow (hindex.trans_le (Nat.pow_le_pow_right Nat.two_pos hle))
      rw [hbit, Option.map_none, Option.map_none, Option.getD_none, Bool.and_false, Bool.xor_false]
    | some row =>
      have hlt : j < (ipolyRows nset.toNat).length := (List.getElem?_eq_some_iff.mp hrow).1
      have hj : j < 32 := by
        by_contra hge
        have hpow32 := Nat.pow_le_pow_right Nat.two_pos ((not_lt.mp hge).trans hlt.le)
        rw [hlength] at hpow32
        exact absurd nset.isLt (not_lt.mpr hpow32)
      rw [decide_eq_true hj, Bool.true_and]
      rfl

/-- No set beyond the last. -/
theorem setIndex_lt (h : Supported f nset) (higherBits : BitVec 64) {index idx : BitVec 32}
    (hindex : index.toNat < nset.toNat) (hidx : setIndex f nset higherBits index = .ok idx) :
    idx.toNat < nset.toNat := by
  by_cases hf : f = .custom
  · subst hf
    cases hidx
    exact h.pos
  · obtain ⟨idx', hidx', hbits⟩ := setIndex_bits h hf higherBits hindex
    cases hidx.symm.trans hidx'
    rw [h.eq_two_pow] at hindex ⊢
    refine Nat.lt_pow_two_of_testBit _ fun j hj => ?_
    have hrow : (rows f nset)[j]? = none :=
      List.getElem?_eq_none ((length_rows_le h).trans hj)
    have hbit : index.getLsbD j = false :=
      Nat.testBit_lt_two_pow (hindex.trans_le (Nat.pow_le_pow_right Nat.two_pos hj))
    refine (hbits j).trans ?_
    rw [hrow, hbit]
    rfl

/-- Two hashes of an index are the same exactly if they add the same to each bit. -/
theorem setIndex_eq_iff (h : Supported f nset) (hf : f ≠ .custom) {a b : BitVec 64}
    {index idx : BitVec 32} (hindex : index.toNat < nset.toNat)
    (hidx : setIndex f nset a index = .ok idx) :
    .ok idx = setIndex f nset b index ↔
      ∀ row ∈ rows f nset, parity row b.getLsbD = parity row a.getLsbD := by
  obtain ⟨idx', hidx', hbits⟩ := setIndex_bits h hf a hindex
  obtain ⟨other, hother, hbits'⟩ := setIndex_bits h hf b hindex
  cases hidx.symm.trans hidx'
  rw [hother]
  constructor
  · intro heq row hrow
    cases heq
    obtain ⟨j, hj, rfl⟩ := List.getElem_of_mem hrow
    have hboth := (hbits' j).symm.trans (hbits j)
    rw [List.getElem?_eq_getElem hj] at hboth
    exact Bool.xor_right_inj.mp hboth
  · intro hrows
    congr 1
    refine BitVec.eq_of_getLsbD_eq fun j _ => ?_
    rw [hbits, hbits']
    cases hrow : (rows f nset)[j]? with
    | none => rfl
    | some row => rw [Option.map_some, Option.map_some, hrows row (List.mem_of_getElem? hrow)]

/-! ## The higher bits -/

theorem toNat_lowerBits (nset lineSize : BitVec 32) :
    ((logb2 lineSize + logb2 nset).setWidth 64).toNat = lowerBits nset lineSize := by
  have hline := log2_lt lineSize
  have hset := log2_lt nset
  rw [BitVec.toNat_setWidth, BitVec.toNat_add, toNat_logb2, toNat_logb2, lowerBits]
  omega

/-- The comparison leaves one bit. -/
theorem getLsbD_higherBits (b : Bool) (i : Nat) :
    (if b then 1 else 0 : BitVec 64).getLsbD i = (decide (i = 0) && b) := by
  cases b with
  | false => rw [Bool.and_false]; exact BitVec.getLsbD_zero
  | true => rw [Bool.and_true]; exact BitVec.getLsbD_one.trans (Bool.true_and _)

theorem toNat_setMask (h : Supported f nset) :
    ((nset - 1).setWidth 64).toNat = nset.toNat - 1 := by
  have hpos := h.pos
  have hlt := nset.isLt
  rw [BitVec.toNat_setWidth, BitVec.toNat_sub]
  change (2 ^ 32 - 1 + nset.toNat) % 2 ^ 32 % 2 ^ 64 = _
  omega

/-- The masked line number is the linear index. -/
theorem index_eq (h : Supported f nset) (addr : BitVec 64) :
    (addr >>> (init f nset lineSize).lineSizeLog2 &&&
      ((init f nset lineSize).nset - 1).setWidth 64).setWidth 32 =
      linearIndex nset lineSize addr := by
  have hpow := h.eq_two_pow
  refine BitVec.eq_of_toNat_eq ?_
  rw [BitVec.toNat_setWidth, BitVec.toNat_and, BitVec.ushiftRight_eq', BitVec.toNat_ushiftRight,
    init, toNat_setMask h, toNat_logb2, linearIndex, BitVec.toNat_ofNat, Nat.shiftRight_eq_div_pow]
  conv_lhs => rw [hpow, Nat.and_two_pow_sub_one_eq_mod, ← hpow]

theorem linearIndex_lt (h : Supported f nset) (addr : BitVec 64) :
    (linearIndex nset lineSize addr).toNat < nset.toNat := by
  rw [linearIndex, BitVec.toNat_ofNat]
  exact (Nat.mod_le _ _).trans_lt (Nat.mod_lt _ h.pos)

/-- What the code hashes the linear index with. -/
theorem hashFunction_eq (h : Supported f nset) (addr : BitVec 64) :
    (init f nset lineSize).hashFunction addr =
      setIndex f nset (if decide (lowerBits nset lineSize < addr.toNat) then 1 else 0)
        (linearIndex nset lineSize addr) := by
  rw [hashFunction, index_eq h]
  congr 1
  simp only [init, BitVec.lt_def, toNat_lowerBits, decide_eq_true_eq]

theorem prescribed_iff (hf : f ≠ .custom) (addr : BitVec 64) (idx : BitVec 32) :
    Prescribed f nset lineSize addr idx ↔ .ok idx =
      setIndex f nset (addr >>> lowerBits nset lineSize) (linearIndex nset lineSize addr) := by
  cases f with
  | custom => exact absurd rfl hf
  | linear | bitwiseXoring =>
    exact ⟨fun heq => congrArg Except.ok heq, fun heq => Except.ok.inj heq⟩
  | hashIpoly => exact Iff.rfl

/-- The set index is always a set, and it is the prescribed one exactly if the bits above the index
add to it what the outcome of the comparison adds. -/
theorem set_index_prescribed_iff (h : Supported f nset) (lineSize : BitVec 32)
    (addr : BitVec 64) : ∃ idx, (init f nset lineSize).hashFunction addr = .ok idx ∧
      idx.toNat < nset.toNat ∧ (Prescribed f nset lineSize addr idx ↔ ∀ row ∈ rows f nset,
        parity row (addr >>> lowerBits nset lineSize).getLsbD =
          (decide (0 ∈ row) && decide (lowerBits nset lineSize < addr.toNat))) := by
  have hlt : (linearIndex nset lineSize addr).toNat < nset.toNat := linearIndex_lt h addr
  by_cases hf : f = .custom
  · subst hf
    exact ⟨0, hashFunction_eq h addr, h.pos, iff_of_true trivial nofun⟩
  obtain ⟨idx, hidx, -⟩ := setIndex_bits h hf
    (if decide (lowerBits nset lineSize < addr.toNat) then 1 else 0) hlt
  refine ⟨idx, (hashFunction_eq h addr).trans hidx, setIndex_lt h _ hlt hidx, ?_⟩
  rw [prescribed_iff hf, setIndex_eq_iff h hf hlt hidx]
  refine forall₂_congr fun row hrow => ?_
  rw [funext (getLsbD_higherBits _), parity_bit (nodup_of_mem_rows h hrow)]

/-- The first line whose higher bits are 1. -/
theorem set_index_prescribed_first : ∃ idx,
    (init .hashIpoly 16 32).hashFunction 0x200 = .ok idx ∧ idx.toNat < 16 ∧
      (Prescribed .hashIpoly 16 32 0x200 idx ↔ ∀ row ∈ rows .hashIpoly 16,
        parity row ((0x200 : BitVec 64) >>> lowerBits 16 32).getLsbD =
          (decide (0 ∈ row) && decide (lowerBits 16 32 < (0x200 : BitVec 64).toNat))) :=
  set_index_prescribed_iff ⟨⟨4, rfl⟩, by decide⟩ 32 0x200

/-- A line whose higher bits are 2 goes where one whose higher bits are 1 belongs. -/
theorem set_index_not_prescribed : Supported .hashIpoly 16 ∧
    ∃ idx, (init .hashIpoly 16 32).hashFunction 0x400 = .ok idx ∧
      ¬ Prescribed .hashIpoly 16 32 0x400 idx := by
  refine ⟨⟨⟨4, rfl⟩, by decide⟩, 3, by decide, ?_⟩
  have hindex : ipolyHashFunction ((0x400 : BitVec 64) >>> lowerBits 16 32)
      (linearIndex 16 32 0x400) 16 = .ok 6 := by decide
  rw [Prescribed, hindex]
  decide

end SetIndexConfig

/-! ## The L1 cache -/

theorem L1Config.toNat_setMask (nset : Nat) :
    ((BitVec.ofNat 32 nset - 1).setWidth 64).toNat = setMask nset := by
  rw [BitVec.toNat_setWidth, BitVec.toNat_sub, BitVec.toNat_ofNat, setMask]
  change (2 ^ 32 - 1 + nset % 2 ^ 32) % 2 ^ 32 % 2 ^ 64 = _
  omega

/-- The index of the L1 cache, also after a resize: the logarithms are those of the first size. -/
theorem L1Config.hashFunction_eq {g : L1Config} {nset : Nat} (h : nset < 2 ^ 32)
    (hline : g.base.lineSize < 2 ^ 32) (addr : BitVec 64) {idx : BitVec 32}
    (hidx : SetIndexConfig.hashFunction ⟨g.setIndexFunction, .ofNat 32 nset,
      logb2 (.ofNat 32 g.base.lineSize), logb2 (.ofNat 32 g.originNset)⟩ addr = .ok idx) :
    idx.toNat = g.hashFunction nset addr := by
  have hmask := toNat_setMask nset
  have hlt : setMask nset < 2 ^ 32 := Nat.mod_lt _ (Nat.two_pow_pos 32)
  have hlow : SetIndexConfig.lowerBits (.ofNat 32 g.originNset) (.ofNat 32 g.base.lineSize) =
      Nat.log2 g.base.lineSize + Nat.log2 g.originNset := by
    rw [SetIndexConfig.lowerBits, BitVec.toNat_ofNat, BitVec.toNat_ofNat, Nat.mod_eq_of_lt hline,
      Nat.mod_eq_of_lt g.fits]
  have hindex : ((addr >>> logb2 (.ofNat 32 g.base.lineSize) &&&
      (BitVec.ofNat 32 nset - 1).setWidth 64).setWidth 32).toNat =
      (addr.toNat >>> Nat.log2 g.base.lineSize) &&& setMask nset := by
    rw [BitVec.toNat_setWidth, BitVec.toNat_and, BitVec.ushiftRight_eq', BitVec.toNat_ushiftRight,
      hmask, toNat_logb2, BitVec.toNat_ofNat, Nat.mod_eq_of_lt hline]
    exact Nat.mod_eq_of_lt (Nat.and_le_right.trans_lt hlt)
  have hhigher : (if SetIndexConfig.lowerBits (.ofNat 32 g.originNset)
      (.ofNat 32 g.base.lineSize) < addr.toNat then 1 else 0 : BitVec 64).toNat =
      if Nat.log2 g.base.lineSize + Nat.log2 g.originNset < addr.toNat then 1 else 0 := by
    rw [hlow]
    split
    · rfl
    · rfl
  simp only [SetIndexConfig.hashFunction, BitVec.lt_def, SetIndexConfig.toNat_lowerBits] at hidx
  rw [hashFunction]
  cases hf : g.setIndexFunction with
  | linear =>
    rw [hf] at hidx
    cases hidx
    exact hindex
  | bitwiseXoring =>
    rw [hf] at hidx
    cases hidx
    rw [bitwiseHashFunction, BitVec.toNat_setWidth, BitVec.toNat_xor, BitVec.toNat_and, hmask,
      hhigher, BitVec.toNat_setWidth, hindex]
    have hand : ∀ n, n &&& setMask nset < 2 ^ 32 := fun n => Nat.and_le_right.trans_lt hlt
    rw [Nat.mod_eq_of_lt ((hand _).trans (by decide : 2 ^ 32 < 2 ^ 64))]
    exact Nat.mod_eq_of_lt (Nat.xor_lt_two_pow (hand _) (hand _))
  | hashIpoly =>
    rw [hf] at hidx
    simp only [SetIndexConfig.setIndex, ipolyHashFunction] at hidx
    split at hidx
    case isFalse => cases hidx
    case isTrue hmem =>
      cases hidx
      have hnset : (BitVec.ofNat 32 nset).toNat = nset :=
        (BitVec.toNat_ofNat nset 32).trans (Nat.mod_eq_of_lt h)
      have hpos : 0 < nset := by
        rw [hnset] at hmem
        exact Nat.pos_of_ne_zero (by rintro rfl; exact absurd hmem (by decide))
      rw [BitVec.toNat_ofNat, hhigher, hindex, hnset]
      exact Nat.mod_eq_of_lt ((ipolyHash_lt _ _ hpos).trans h)
  | custom =>
    rw [hf] at hidx
    cases hidx
    rfl

end NdpSim
