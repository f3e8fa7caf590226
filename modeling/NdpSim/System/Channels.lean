import NdpSim.System.AddressMapping
import NdpSim.System.SystemConfig

/-!
# How the addresses spread over the channels

The channel of an address is a hash of its channel bits and of the bits above. The bits above start
at the highest channel bit, so this bit enters the hash twice; the channels are still all used
evenly, unless it is the only one and is added to itself.
-/
namespace NdpSim

open Library

namespace AddressMapping

variable (m : AddressMapping)

def channelPositions : List Nat := positions (m.addrdecMask .ch)

def channelBits : Nat := m.channelPositions.length

/-- The channel of every address exists, and every channel has, for each choice of the other bits,
one choice of the channel bits. -/
structure Spreads (policy : Int) : Prop where
  below : ∀ addr, ∃ c, m.getChannelIndex policy addr = .ok c ∧ (c.toNat : Int) < m.numChannels.toInt
  bijective : ∀ other c : BitVec 64, (c.toNat : Int) < m.numChannels.toInt →
    ∃! addr, addr &&& ~~~m.addrdecMask .ch = other &&& ~~~m.addrdecMask .ch ∧
      m.getChannelIndex policy addr = .ok c

/-- The highest channel bit. -/
def topPosition : Nat := m.channelPositions.getLast?.getD 0

/-- Which of the bits above are added to each channel bit. -/
def hashRows (policy : Int) (n : Nat) : List (List Nat) :=
  match policy with
  | 1 => ipolyRows (2 ^ n)
  | 2 => (List.range n).map ([·])
  | _ => List.replicate n []

/-- A channel bit of an address. -/
def channelBit (addr : BitVec 64) (k : Nat) : Bool :=
  (m.channelPositions[k]?.map addr.getLsbD).getD false

variable {m} {policy : Int}

theorem numChannels_toNat (hm : m.Doubled) (hn : m.channelBits ≤ 30) :
    m.numChannels.toNat = 2 ^ m.channelBits := by
  have hle : 2 ^ m.channelBits ≤ 2 ^ 30 := Nat.pow_le_pow_right Nat.two_pos hn
  rw [hm, BitVec.toNat_ofNat]
  exact Nat.mod_eq_of_lt (by rw [← channelPositions, ← channelBits]; omega)

theorem numChannels_toInt (hm : m.Doubled) (hn : m.channelBits ≤ 30) :
    m.numChannels.toInt = (2 ^ m.channelBits : Nat) := by
  have hle : 2 ^ m.channelBits ≤ 2 ^ 30 := Nat.pow_le_pow_right Nat.two_pos hn
  have hnat := numChannels_toNat hm hn
  rw [BitVec.toInt_eq_toNat_of_lt (by omega), hnat]

/-- The polynomial hash is known for 16, 32 and 64 channels, and reads no bit beyond 31. -/
theorem ipolyRows_spec : ∀ n ∈ [4, 5, 6], 2 ^ n ∈ [16, 32, 64] ∧ (ipolyRows (2 ^ n)).length = n ∧
    ∀ row ∈ ipolyRows (2 ^ n), ∀ i ∈ row, i < 32 := by
  decide

theorem channelBit_of_le (addr : BitVec 64) {k : Nat} (hk : m.channelBits ≤ k) :
    m.channelBit addr k = false := by
  rw [channelBit, List.getElem?_eq_none hk]
  rfl

theorem getLsbD_chBits (hn : m.channelBits ≤ 30) (addr : BitVec 64) (k : Nat) :
    ((m.getPartialBits .ch addr).setWidth 32).getLsbD k = m.channelBit addr k := by
  rw [BitVec.getLsbD_setWidth, getLsbD_getPartialBits, ← channelPositions, ← channelBit]
  by_cases hk : k < 32
  · rw [decide_eq_true hk, Bool.true_and, Bool.true_and]
  · rw [decide_eq_false hk, Bool.false_and, channelBit_of_le addr (by omega)]

theorem getLsbD_higherBits (addr : BitVec 64) {i : Nat} (hi : i < 32) :
    (((m.getHigherBits .ch addr).setWidth 32).signExtend 64).getLsbD i =
      addr.getLsbD (m.topPosition + i) := by
  rw [BitVec.getLsbD_signExtend, if_pos hi, BitVec.getLsbD_setWidth, getHigherBits_eq,
    BitVec.getLsbD_ushiftRight, decide_eq_true hi, decide_eq_true (hi.trans (by decide)),
    Bool.true_and, Bool.true_and]
  rfl

theorem parity_higherBits (addr : BitVec 64) {row : List Nat} (hrow : ∀ i ∈ row, i < 32) :
    parity row (((m.getHigherBits .ch addr).setWidth 32).signExtend 64).getLsbD =
      parity row fun i => addr.getLsbD (m.topPosition + i) :=
  parity_congr fun i hi => getLsbD_higherBits addr (hrow i hi)

/-- The bits of a channel: each is a channel bit of the address with the parity of its row. -/
theorem getChannelIndex_bits (hm : m.Doubled) (hn : m.channelBits ≤ 30)
    (hpolicy : policy = 0 ∨ policy = 1 ∧ m.channelBits ∈ [4, 5, 6] ∨ policy = 2)
    (addr : BitVec 64) : ∃ c, m.getChannelIndex policy addr = .ok c ∧ ∀ k, c.getLsbD k =
      ((hashRows policy m.channelBits)[k]?.map fun row => m.channelBit addr k ^^
        parity row fun i => addr.getLsbD (m.topPosition + i)).getD false := by
  obtain rfl | ⟨rfl, hmem⟩ | rfl := hpolicy
  · have hmsb : ((m.getPartialBits .ch addr).setWidth 32).msb = false := by
      rw [BitVec.msb_eq_getLsbD_last, getLsbD_chBits hn, channelBit_of_le addr (by omega)]
    have hrows : hashRows 0 m.channelBits = List.replicate m.channelBits [] := rfl
    refine ⟨((m.getPartialBits .ch addr).setWidth 32).signExtend 64, rfl, fun k => ?_⟩
    rw [BitVec.getLsbD_signExtend, hmsb, getLsbD_chBits hn, hrows, List.getElem?_replicate]
    by_cases hk : k < m.channelBits
    · rw [if_pos hk, if_pos (by omega), decide_eq_true (by omega), Bool.true_and, Option.map_some,
        parity_nil, Bool.xor_false]
      rfl
    · rw [if_neg hk, channelBit_of_le addr (not_lt.mp hk), ite_self, Bool.and_false]
      rfl
  · obtain ⟨hsupported, hlength, hrange⟩ := ipolyRows_spec _ hmem
    have hnum := numChannels_toNat hm hn
    have hrows : hashRows 1 m.channelBits = ipolyRows (2 ^ m.channelBits) := rfl
    rw [← hnum] at hsupported hlength hrange hrows
    refine ⟨_, bind_eq_ok.mpr ⟨_, if_pos hsupported, rfl⟩, fun k => ?_⟩
    rw [hrows, BitVec.getLsbD_setWidth, BitVec.getLsbD_ofNat, testBit_ipolyHash]
    cases hrow : (ipolyRows m.numChannels.toNat)[k]? with
    | none => simp
    | some row =>
      have hk : k < m.channelBits := by
        rw [← hlength]
        exact (List.getElem?_eq_some_iff.mp hrow).1
      have hparity := parity_higherBits (m := m) addr (hrange row (List.mem_of_getElem? hrow))
      have hch := getLsbD_chBits hn addr k
      rw [decide_eq_true (by omega), decide_eq_true (by omega), Bool.true_and, Bool.true_and]
      exact congrArg₂ Bool.xor hch hparity
  · have hrows : hashRows 2 m.channelBits = (List.range m.channelBits).map ([·]) := rfl
    refine ⟨_, rfl, fun k => ?_⟩
    rw [BitVec.getLsbD_setWidth, hm, ← channelPositions, ← channelBits,
      getLsbD_bitwiseHashFunction (by omega), getLsbD_chBits hn, hrows, List.getElem?_map]
    by_cases hk : k < m.channelBits
    · rw [List.getElem?_range hk, decide_eq_true hk, decide_eq_true (by omega), Bool.true_and,
        Bool.true_and, getLsbD_higherBits addr (by omega), Option.map_some, Option.map_some,
        parity_singleton]
      rfl
    · have hnone : (List.range m.channelBits)[k]? = none := by
        rw [List.getElem?_eq_none_iff, List.length_range]
        omega
      rw [hnone, channelBit_of_le addr (not_lt.mp hk), decide_eq_false hk, Bool.false_and,
        Bool.xor_false, Bool.and_false]
      rfl

/-! ## Addresses with the same other bits -/

theorem mem_positions {mask : BitVec 64} {j : Nat} :
    j ∈ positions mask ↔ mask.getLsbD j = true := by
  rw [positions, List.mem_filter, List.mem_range, and_iff_right_of_imp BitVec.lt_of_getLsbD]

theorem same_others_iff {mask addr other : BitVec 64} :
    addr &&& ~~~mask = other &&& ~~~mask ↔
      ∀ j ∉ positions mask, addr.getLsbD j = other.getLsbD j := by
  rw [BitVec.eq_of_getLsbD_eq_iff]
  refine forall_congr' fun j => ?_
  rw [mem_positions, BitVec.getLsbD_and, BitVec.getLsbD_and, BitVec.getLsbD_not]
  by_cases hj : j < 64
  · cases mask.getLsbD j <;> simp [hj]
  · simp [hj, BitVec.getLsbD_of_ge addr j (by omega), BitVec.getLsbD_of_ge other j (by omega)]

theorem getElem_topPosition (hpos : 0 < m.channelBits) :
    m.channelPositions[m.channelBits - 1]? = some m.topPosition := by
  rw [channelBits] at hpos ⊢
  rw [topPosition, List.getLast?_eq_getElem?]
  cases h : m.channelPositions[m.channelPositions.length - 1]? with
  | none =>
    rw [List.getElem?_eq_none_iff] at h
    omega
  | some p => rfl

theorem sorted_channelPositions : m.channelPositions.Pairwise (· < ·) :=
  List.pairwise_lt_range.filter _

theorem le_topPosition {p : Nat} (hp : p ∈ m.channelPositions) : p ≤ m.topPosition := by
  have hne := List.ne_nil_of_mem hp
  have htop : m.topPosition = m.channelPositions.getLast hne := by
    rw [topPosition, List.getLast?_eq_some_getLast hne]
    rfl
  have hsorted := sorted_channelPositions (m := m)
  rw [← List.dropLast_append_getLast hne, ← htop] at hp hsorted
  rcases List.mem_append.mp hp with hp | hp
  · exact ((List.pairwise_append.mp hsorted).2.2 p hp _ List.mem_cons_self).le
  · exact (List.mem_singleton.mp hp).le

/-- The bits above the channel bits. -/
theorem getLsbD_above {addr other : BitVec 64} (hpos : 0 < m.channelBits)
    (hsame : ∀ j ∉ m.channelPositions, addr.getLsbD j = other.getLsbD j) (i : Nat) :
    addr.getLsbD (m.topPosition + i) = if i = 0 then m.channelBit addr (m.channelBits - 1)
      else other.getLsbD (m.topPosition + i) := by
  by_cases hi : i = 0
  · rw [if_pos hi, hi, channelBit, getElem_topPosition hpos]
    rfl
  · rw [if_neg hi]
    exact hsame _ fun hmem => absurd (le_topPosition hmem) (by omega)

/-- Addresses with the same bits are the same. -/
theorem eq_of_channelBit {addr addr' : BitVec 64}
    (hsame : ∀ j ∉ m.channelPositions, addr.getLsbD j = addr'.getLsbD j)
    (hbits : ∀ k < m.channelBits, m.channelBit addr k = m.channelBit addr' k) : addr = addr' := by
  refine BitVec.eq_of_getLsbD_eq fun j _ => ?_
  by_cases hj : j ∈ m.channelPositions
  · obtain ⟨k, hk, rfl⟩ := List.getElem_of_mem hj
    have hbit := hbits k hk
    rwa [channelBit, channelBit, List.getElem?_eq_getElem hk] at hbit
  · exact hsame j hj

/-- An address with given channel bits and the other bits of another one. -/
theorem exists_address (m : AddressMapping) (b : Nat → Bool) (other : BitVec 64) :
    ∃ addr, (∀ k < m.channelBits, m.channelBit addr k = b k) ∧
      ∀ j ∉ m.channelPositions, addr.getLsbD j = other.getLsbD j := by
  have hnodup : m.channelPositions.Nodup := sorted_channelPositions.imp Nat.ne_of_lt
  have hlt : ∀ p ∈ m.channelPositions, p < 64 := fun p hp =>
    BitVec.lt_of_getLsbD (mem_positions.mp hp)
  obtain ⟨addr, hplaced, hothers⟩ := exists_word hnodup hlt b other
  refine ⟨addr, fun k hk => ?_, hothers⟩
  have hget : m.channelPositions[k]? = some m.channelPositions[k] := List.getElem?_eq_getElem hk
  rw [channelBit, hget]
  exact hplaced k _ hget

/-! ## The hash -/

theorem hashRows_length
    (hpolicy : policy = 0 ∨ policy = 1 ∧ m.channelBits ∈ [4, 5, 6] ∨ policy = 2) :
    (hashRows policy m.channelBits).length = m.channelBits := by
  obtain rfl | ⟨rfl, hmem⟩ | rfl := hpolicy
  · exact List.length_replicate
  · exact (ipolyRows_spec _ hmem).2.1
  · exact (List.length_map _).trans List.length_range

/-- The highest channel bit is not added to itself. -/
theorem zero_notMem_hashRows {row : List Nat}
    (hpolicy : policy = 0 ∨ policy = 1 ∧ m.channelBits ∈ [4, 5, 6] ∨ policy = 2 ∧ 2 ≤ m.channelBits)
    (hrow : (hashRows policy m.channelBits)[m.channelBits - 1]? = some row) : 0 ∉ row := by
  have hipoly : ∀ n ∈ [4, 5, 6], ∀ row ∈ (ipolyRows (2 ^ n))[n - 1]?, 0 ∉ row := by decide
  obtain rfl | ⟨rfl, hmem⟩ | ⟨rfl, htwo⟩ := hpolicy
  · rw [List.eq_of_mem_replicate (List.mem_of_getElem? hrow)]
    exact List.not_mem_nil
  · exact hipoly _ hmem row hrow
  · have hrow' : ((List.range m.channelBits).map ([·]))[m.channelBits - 1]? = some row := hrow
    rw [List.getElem?_map, List.getElem?_range (by omega)] at hrow'
    cases hrow'
    rw [List.mem_singleton]
    omega

/-- What is added to a channel bit: the other bits, and the highest channel bit. -/
def added (m : AddressMapping) (policy : Int) (other : BitVec 64) (k : Nat) (top : Bool) : Bool :=
  parity ((hashRows policy m.channelBits)[k]?.getD []) fun i =>
    if i = 0 then top else other.getLsbD (m.topPosition + i)

theorem getChannelIndex_mix (hm : m.Doubled) (hpos : 0 < m.channelBits) (hn : m.channelBits ≤ 30)
    (hpolicy : policy = 0 ∨ policy = 1 ∧ m.channelBits ∈ [4, 5, 6] ∨ policy = 2)
    {addr other : BitVec 64}
    (hsame : ∀ j ∉ m.channelPositions, addr.getLsbD j = other.getLsbD j) :
    ∃ c, m.getChannelIndex policy addr = .ok c ∧ (∀ k, m.channelBits ≤ k → c.getLsbD k = false) ∧
      ∀ k < m.channelBits, c.getLsbD k = (m.channelBit addr k ^^
        added m policy other k (m.channelBit addr (m.channelBits - 1))) := by
  obtain ⟨c, hc, hbits⟩ := getChannelIndex_bits hm hn hpolicy addr
  have hlength := hashRows_length hpolicy
  refine ⟨c, hc, fun k hk => ?_, fun k hk => ?_⟩
  · rw [hbits, List.getElem?_eq_none (by omega)]
    rfl
  · obtain ⟨row, hrow⟩ : ∃ row, (hashRows policy m.channelBits)[k]? = some row :=
      ⟨_, List.getElem?_eq_getElem (by omega)⟩
    rw [hbits, added, hrow, funext fun i => getLsbD_above hpos hsame i]
    rfl

/-- What is added to the highest channel bit does not depend on it. -/
theorem added_last (hpolicy : policy = 0 ∨ policy = 1 ∧ m.channelBits ∈ [4, 5, 6] ∨
    policy = 2 ∧ 2 ≤ m.channelBits) (other : BitVec 64) :
    added m policy other (m.channelBits - 1) true =
      added m policy other (m.channelBits - 1) false := by
  rw [added, added]
  refine parity_congr fun i hi => ?_
  have hne : i ≠ 0 := by
    rintro rfl
    cases hrow : (hashRows policy m.channelBits)[m.channelBits - 1]? with
    | none =>
      rw [hrow] at hi
      cases hi
    | some row =>
      rw [hrow] at hi
      exact zero_notMem_hashRows hpolicy hrow hi
  rw [if_neg hne, if_neg hne]

theorem spreads (hm : m.Doubled) (hpos : 0 < m.channelBits) (hn : m.channelBits ≤ 30)
    (hpolicy : policy = 0 ∨ policy = 1 ∧ m.channelBits ∈ [4, 5, 6] ∨
      policy = 2 ∧ 2 ≤ m.channelBits) : m.Spreads policy := by
  have hpolicy' : policy = 0 ∨ policy = 1 ∧ m.channelBits ∈ [4, 5, 6] ∨ policy = 2 :=
    hpolicy.imp_right (Or.imp_right And.left)
  have hnum := numChannels_toInt hm hn
  constructor
  · intro addr
    have hsame : ∀ j ∉ m.channelPositions, addr.getLsbD j = addr.getLsbD j := fun _ _ => rfl
    obtain ⟨c, hc, hhigh, -⟩ := getChannelIndex_mix hm hpos hn hpolicy' hsame
    refine ⟨c, hc, ?_⟩
    rw [hnum]
    exact_mod_cast Nat.lt_pow_two_of_testBit _ hhigh
  · intro other c hc
    rw [hnum] at hc
    have hlt : c.toNat < 2 ^ m.channelBits := by exact_mod_cast hc
    have hhigh : ∀ k, m.channelBits ≤ k → c.getLsbD k = false := fun k hk =>
      Nat.testBit_lt_two_pow (hlt.trans_le (Nat.pow_le_pow_right Nat.two_pos hk))
    obtain ⟨b, hb⟩ := exists_mix (added_last hpolicy other) c.getLsbD
    obtain ⟨addr, hplaced, hothers⟩ := exists_address m b other
    obtain ⟨c', hc', hhigh', hbits⟩ := getChannelIndex_mix hm hpos hn hpolicy' hothers
    have heq : c' = c := BitVec.eq_of_getLsbD_eq fun k _ => by
      by_cases hk : k < m.channelBits
      · rw [hbits k hk, hplaced k hk, hplaced _ (by omega), hb k hk]
      · rw [hhigh k (not_lt.mp hk), hhigh' k (not_lt.mp hk)]
    subst heq
    refine ⟨addr, ⟨same_others_iff.mpr hothers, hc'⟩, ?_⟩
    rintro addr' ⟨hsame, hindex⟩
    have hothers' := same_others_iff.mp hsame
    obtain ⟨c'', hc'', -, hbits'⟩ := getChannelIndex_mix hm hpos hn hpolicy' hothers'
    cases hc''.symm.trans hindex
    refine eq_of_channelBit (fun j hj => (hothers' j hj).trans (hothers j hj).symm) ?_
    exact mix_inj hpos (added_last hpolicy other) fun k hk =>
      (hbits' k hk).symm.trans (hbits k hk)

/-! ## When they spread -/

/-- From 31 channel bits on the `int` is not positive. -/
theorem numChannels_nonpos (hm : m.Doubled) (hn : 30 < m.channelBits) :
    m.numChannels.toInt ≤ 0 := by
  rw [hm, ← channelPositions, ← channelBits]
  rcases (by omega : m.channelBits = 31 ∨ 32 ≤ m.channelBits) with h | h
  · rw [h]
    decide
  · obtain ⟨k, hk⟩ := Nat.exists_eq_add_of_le h
    have hzero : BitVec.ofNat 32 (2 ^ m.channelBits) = 0 := by
      rw [hk, ← BitVec.toNat_inj, BitVec.toNat_ofNat, Nat.pow_add, Nat.mul_mod_right]
      rfl
    rw [hzero]
    decide

/-- A single channel bit is added to itself. -/
theorem getChannelIndex_single (hm : m.Doubled) (hone : m.channelBits = 1) (addr : BitVec 64) :
    m.getChannelIndex 2 addr = .ok 0 := by
  have hn : m.channelBits ≤ 30 := by omega
  obtain ⟨c, hc, hbits⟩ := getChannelIndex_bits hm hn (.inr (.inr rfl)) addr
  have hsame : ∀ j ∉ m.channelPositions, addr.getLsbD j = addr.getLsbD j := fun _ _ => rfl
  have habove := getLsbD_above (by omega) hsame 0
  have hzero : c = 0 := BitVec.eq_of_getLsbD_eq fun k _ => by
    rw [hbits, hone]
    cases k with
    | zero =>
      have hrow : (hashRows 2 1)[0]? = some [0] := rfl
      rw [hrow, Option.map_some, parity_singleton, habove, if_pos rfl, hone, Bool.xor_self]
      rfl
    | succ k =>
      have hrow : (hashRows 2 1)[k + 1]? = none := rfl
      rw [hrow]
      exact BitVec.getLsbD_zero.symm
  rw [hc, hzero]

theorem not_spreads_single (hm : m.Doubled) (hone : m.channelBits = 1) : ¬ m.Spreads 2 := by
  intro hspreads
  have hlt : ((1 : BitVec 64).toNat : Int) < m.numChannels.toInt := by
    rw [numChannels_toInt hm (by omega), hone]
    decide
  obtain ⟨addr, ⟨-, hindex⟩, -⟩ := hspreads.bijective 0 1 hlt
  rw [getChannelIndex_single hm hone] at hindex
  cases hindex

/-- The addresses spread evenly over the channels exactly if the number of channels is an `int` and
the bitwise hash has a second channel bit. -/
theorem channels_spread_iff {text : List Char} (h : decodeMemoryMapping text = .ok m)
    (hpos : 0 < m.channelBits) (hpolicy : policy ∈ [0, 1, 2])
    (hipoly : policy = 1 → m.numChannels.toNat ∈ [16, 32, 64]) :
    m.Spreads policy ↔ m.channelBits ≤ 30 ∧ (policy = 2 → 2 ≤ m.channelBits) := by
  have hm := doubled_of_decode h
  constructor
  · intro hspreads
    have hn : m.channelBits ≤ 30 := by
      by_contra hn
      obtain ⟨c, -, hc⟩ := hspreads.below 0
      have hnonpos := numChannels_nonpos hm (not_le.mp hn)
      omega
    refine ⟨hn, ?_⟩
    rintro rfl
    by_contra htwo
    exact not_spreads_single hm (by omega) hspreads
  · rintro ⟨hn, htwo⟩
    refine spreads hm hpos hn ?_
    obtain rfl | rfl | rfl : policy = 0 ∨ policy = 1 ∨ policy = 2 := by simpa using hpolicy
    · exact .inl rfl
    · have hnum := hipoly rfl
      have hinj {k : Nat} (hk : 2 ^ m.channelBits = 2 ^ k) : m.channelBits = k :=
        Nat.pow_right_injective le_rfl hk
      have hmem : m.channelBits ∈ [4, 5, 6] := by
        rw [numChannels_toNat hm hn] at hnum
        obtain h | h | h : 2 ^ m.channelBits = 2 ^ 4 ∨ 2 ^ m.channelBits = 2 ^ 5 ∨
          2 ^ m.channelBits = 2 ^ 6 := by simpa using hnum
        · rw [hinj h]; decide
        · rw [hinj h]; decide
        · rw [hinj h]; decide
      exact .inr (.inl ⟨rfl, hmem⟩)
    · exact .inr (.inr ⟨rfl, htwo rfl⟩)

/-! ## The configuration of the system -/

theorem getPartialBits_eq (decode : MemoryDecode) (addr : BitVec 64) :
    (m.getPartialBits decode addr).setWidth 32 =
      SystemConfig.getPartialBits (m.addrdecMask decode) addr := by
  refine BitVec.eq_of_getLsbD_eq fun k hk => ?_
  rw [BitVec.getLsbD_setWidth, getLsbD_getPartialBits, SystemConfig.getPartialBits,
    BitVec.getLsbD_ofNat, testBit_ofBits, List.getElem?_map, positions, decide_eq_true hk,
    Bool.true_and, Bool.true_and]

theorem toInt_setWidth (x : BitVec 32) : (x.setWidth 64).toInt = x.toNat := by
  have hx := x.isLt
  have hnat : (x.setWidth 64).toNat = x.toNat := by
    rw [BitVec.toNat_setWidth]
    omega
  rw [BitVec.toInt_eq_toNat_of_lt (by omega), hnat]

/-- The channel of an address in a system with this mapping. -/
theorem getChannelIndex_systemConfig {cfg : SystemConfig}
    (hmask : cfg.channelMask = m.addrdecMask .ch)
    (hnum : cfg.numChannels = m.numChannels.toNat) (hpos : 0 < m.numChannels.toNat)
    (hipoly : cfg.channelIndexingPolicy = 1 → m.numChannels.toNat ∈ [16, 32, 64])
    (addr : BitVec 64) : ∃ c, m.getChannelIndex cfg.channelIndexingPolicy addr = .ok c ∧
      c.toInt = cfg.getChannelIndex addr := by
  have hch := getPartialBits_eq (m := m) .ch addr
  have hhigher : m.getHigherBits .ch addr = SystemConfig.getHigherBits cfg.channelMask addr := by
    rw [getHigherBits_eq, hmask]
    rfl
  rw [← hmask] at hch
  rw [SystemConfig.getChannelIndex, hnum, ← hch, ← hhigher]
  split
  case h_1 h =>
    rw [h]
    exact ⟨_, rfl, BitVec.toInt_signExtend_of_le (by decide)⟩
  case h_2 h =>
    rw [h]
    refine ⟨_, bind_eq_ok.mpr ⟨_, if_pos (hipoly h), rfl⟩, ?_⟩
    rw [toInt_setWidth, BitVec.toNat_ofNat,
      Nat.mod_eq_of_lt ((ipolyHash_lt _ _ hpos).trans m.numChannels.isLt)]
  case h_3 h =>
    rw [h]
    refine ⟨_, rfl, ?_⟩
    have hmaskBits : BitVec.ofNat 32 (m.numChannels.toNat - 1) = m.numChannels - 1 := by
      rw [← BitVec.toNat_inj, BitVec.toNat_ofNat, BitVec.toNat_sub]
      change _ = (2 ^ 32 - 1 + m.numChannels.toNat) % 2 ^ 32
      omega
    rw [toInt_setWidth, bitwiseHashFunction, BitVec.setWidth_xor, BitVec.setWidth_and,
      BitVec.setWidth_setWidth_of_le _ (by decide), BitVec.setWidth_setWidth_of_le _ (by decide),
      BitVec.setWidth_setWidth_of_le _ (by decide), BitVec.setWidth_eq, hmaskBits]
  case h_4 h₀ h₁ h₂ =>
    unfold getChannelIndex
    split
    · exact absurd ‹_› h₀
    · exact absurd ‹_› h₁
    · exact absurd ‹_› h₂
    · exact ⟨0, rfl, rfl⟩

/-- The mapping of the configurations, with 32 channels. -/
def defaultMapping : List Char :=
  "GGGGGGGG.00000000.00000000.00RRRRRR.RRRRRRRB.cccccccc.cccCCCCC.bbcSSSSS".toList

theorem decode_defaultMapping :
    ∃ m, decodeMemoryMapping defaultMapping = .ok m ∧ m.channelBits = 5 := by
  have hbits : (decodeMemoryMapping defaultMapping).map channelBits = .ok 5 := by decide +kernel
  cases h : decodeMemoryMapping defaultMapping with
  | error f =>
    rw [h] at hbits
    cases hbits
  | ok m =>
    rw [h] at hbits
    exact ⟨m, rfl, Except.ok.inj hbits⟩

theorem channels_spread_default :
    ∃ m, decodeMemoryMapping defaultMapping = .ok m ∧ m.Spreads 1 := by
  obtain ⟨m, hm, hbits⟩ := decode_defaultMapping
  have hnum : m.numChannels.toNat = 2 ^ 5 :=
    hbits ▸ numChannels_toNat (doubled_of_decode hm) (by omega)
  refine ⟨m, hm, (channels_spread_iff hm (by omega) (by decide) fun _ => ?_).mpr ⟨by omega, nofun⟩⟩
  rw [hnum]
  decide

/-- One channel bit. -/
def singleMapping : List Char := 'C' :: List.replicate 63 '0'

theorem not_channels_spread_single : ∃ m, decodeMemoryMapping singleMapping = .ok m ∧
    0 < m.channelBits ∧ ¬ m.Spreads 2 := by
  have hbits : (decodeMemoryMapping singleMapping).map channelBits = .ok 1 := by decide +kernel
  cases h : decodeMemoryMapping singleMapping with
  | error f =>
    rw [h] at hbits
    cases hbits
  | ok m =>
    rw [h] at hbits
    have hone : m.channelBits = 1 := Except.ok.inj hbits
    exact ⟨m, rfl, by omega, not_spreads_single (doubled_of_decode h) hone⟩

end AddressMapping

end NdpSim
