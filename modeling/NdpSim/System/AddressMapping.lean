import NdpSim.Cache.Hashing
import NdpSim.Library.Loops
import NdpSim.Library.Words
import Mathlib.Logic.Function.Iterate
import Mathlib.Logic.Function.Basic

/-!
# Address mappings

A mapping is a text with a letter for each bit of an address, the highest first. It says which
field a bit belongs to; every letter `C` doubles the number of channels.
-/
namespace NdpSim

open Library

inductive MemoryDecode
  | device | ram | bankGroup | bank | memRow | column | ch | burst
  deriving DecidableEq

structure AddressMapping where
  addrdecMask : MemoryDecode → BitVec 64
  numChannels : BitVec 32

/-- The bits of a mask in their order. -/
def positions (mask : BitVec 64) : List Nat := (List.range 64).filter mask.getLsbD

namespace AddressMapping

/-! ## Decoding -/

def field : Char → Option MemoryDecode
  | 'G' => some .device
  | 'M' => some .ram
  | 'B' => some .bankGroup
  | 'b' => some .bank
  | 'R' => some .memRow
  | 'c' => some .column
  | 'C' => some .ch
  | 'S' => some .burst
  | _ => none

/-- `m_addrdec_mask[decode] |= 1ULL << ofs`, and one more bit for the channels. -/
def select (m : AddressMapping) (decode : MemoryDecode) (ofs : Nat) : AddressMapping where
  addrdecMask := Function.update m.addrdecMask decode
    (m.addrdecMask decode ||| (1 : BitVec 64) <<< ofs)
  numChannels := if decode = .ch then m.numChannels * 2 else m.numChannels

/-- A character of the text; a shift by a negative number is undefined. -/
def decodeStep (s : AddressMapping × Int) (c : Char) : Except Fault (AddressMapping × Int) :=
  let (m, ofs) := s
  match field c with
  | some decode => if ofs < 0 then .error .undefined else .ok (m.select decode ofs.toNat, ofs - 1)
  | none =>
    if c = '0' then .ok (m, ofs - 1)
    else if c ∈ ['|', ' ', '.'] then .ok (m, ofs)
    else .error .assertion

/-- `decode_memory_mapping` -/
def decodeMemoryMapping (addr : List Char) : Except Fault AddressMapping := do
  let (m, ofs) ← (addr.takeWhile (· ≠ '\x00')).foldlM decodeStep (⟨fun _ => 0, 1⟩, 63)
  if ofs ≠ -1 then throw .assertion
  return m

/-! ## Bits of an address -/

/-- The state of the loop of `get_partial_bits`. -/
structure Extraction where
  result : BitVec 32
  id : Nat
  maskBits : BitVec 64
  addrBits : BitVec 64

def Extraction.step (s : Extraction) : Extraction :=
  if s.maskBits &&& 1 ≠ 0 then
    ⟨s.result ||| ((1 &&& s.addrBits) <<< s.id).setWidth 32, s.id + 1, s.maskBits >>> 1,
      s.addrBits >>> 1⟩
  else ⟨s.result, s.id, s.maskBits >>> 1, s.addrBits >>> 1⟩

variable (m : AddressMapping)

def getPartialBits (mask : MemoryDecode) (addr : BitVec 64) : BitVec 64 :=
  let maskBits := m.addrdecMask mask
  (Extraction.step^[64] ⟨0, 0, maskBits, addr &&& maskBits⟩).result.setWidth 64

/-- The loop of `get_higher_bits`, over the complement of the mask. -/
def maxZeroBit (maskBits : BitVec 64) (count : Nat) : Nat × BitVec 64 :=
  (List.range count).foldl (fun (maxZeroBit, maskBits) i =>
    (if maskBits &&& 1 = 0 then i else maxZeroBit, maskBits >>> 1)) (0, maskBits)

def getHigherBits (mask : MemoryDecode) (addr : BitVec 64) : BitVec 64 :=
  addr >>> (maxZeroBit (~~~m.addrdecMask mask) 64).1

/-- `get_channel_index`; both bit fields are converted to `int`. -/
def getChannelIndex (channelIndexingPolicy : Int) (addr : BitVec 64) :
    Except Fault (BitVec 64) := do
  let chBits := (m.getPartialBits .ch addr).setWidth 32
  let higherBits := (m.getHigherBits .ch addr).setWidth 32
  match channelIndexingPolicy with
  | 0 => return chBits.signExtend 64
  | 1 => return (← ipolyHashFunction (higherBits.signExtend 64) chBits m.numChannels).setWidth 64
  | 2 => return (bitwiseHashFunction (higherBits.signExtend 64) chBits m.numChannels).setWidth 64
  | _ => return 0

variable {m}

/-! ## The loops -/

theorem getLsbD_one_and (x : BitVec 64) (j : Nat) :
    (1 &&& x).getLsbD j = (decide (j = 0) && x.getLsbD 0) := by
  have hone : (1 : BitVec 64).getLsbD j = decide (j = 0) :=
    BitVec.getLsbD_one.trans (Bool.true_and _)
  rw [BitVec.getLsbD_and, hone]
  by_cases hj : j = 0
  · rw [hj]
  · rw [decide_eq_false hj, Bool.false_and, Bool.false_and]

theorem and_one_eq_zero_iff (x : BitVec 64) : x &&& 1 = 0 ↔ x.getLsbD 0 = false := by
  rw [BitVec.and_comm, BitVec.eq_of_getLsbD_eq_iff]
  constructor
  · intro h
    have hlow := h 0 (by decide)
    rwa [getLsbD_one_and, decide_eq_true rfl, Bool.true_and] at hlow
  · intro h i _
    rw [getLsbD_one_and, h, Bool.and_false]
    exact BitVec.getLsbD_zero.symm

theorem positions_succ (mask : BitVec 64) (i : Nat) :
    (List.range (i + 1)).filter mask.getLsbD =
      (List.range i).filter mask.getLsbD ++ if mask.getLsbD i then [i] else [] := by
  rw [List.range_succ, List.filter_append, List.filter_cons, List.filter_nil]

/-- What the loop of `get_partial_bits` has put together of the first bits. -/
theorem extraction_spec (mask addr : BitVec 64) (i : Nat) (hi : i ≤ 64) :
    ∃ s, Extraction.step^[i] ⟨0, 0, mask, addr &&& mask⟩ = s ∧ s.maskBits = mask >>> i ∧
      s.addrBits = (addr &&& mask) >>> i ∧ s.id = ((List.range i).filter mask.getLsbD).length ∧
      ∀ k, s.result.getLsbD k = (decide (k < 32) &&
        (((List.range i).filter mask.getLsbD)[k]?.map addr.getLsbD).getD false) := by
  induction i with
  | zero => exact ⟨_, rfl, (BitVec.ushiftRight_zero _).symm, (BitVec.ushiftRight_zero _).symm, rfl,
      fun k => by simp⟩
  | succ i ih =>
    obtain ⟨s, hs, hmask, haddr, hid, hresult⟩ := ih (by omega)
    have hbit : s.maskBits &&& 1 = 0 ↔ mask.getLsbD i = false := by
      rw [and_one_eq_zero_iff, hmask, BitVec.getLsbD_ushiftRight, Nat.add_zero]
    rw [Function.iterate_succ_apply', hs]
    refine ⟨_, rfl, ?_⟩
    rw [Extraction.step, positions_succ]
    by_cases hset : mask.getLsbD i = true
    · have hlow : s.addrBits.getLsbD 0 = addr.getLsbD i := by
        rw [haddr, BitVec.getLsbD_ushiftRight, BitVec.getLsbD_and, Nat.add_zero, hset,
          Bool.and_true]
      rw [if_pos (hbit.not.mpr (by rw [hset]; decide)), if_pos hset]
      refine ⟨?_, ?_, ?_, fun k => ?_⟩
      · rw [hmask, ← BitVec.shiftRight_add]
      · rw [haddr, ← BitVec.shiftRight_add]
      · rw [hid, List.length_append, List.length_singleton]
      · dsimp only
        rw [BitVec.getLsbD_or, BitVec.getLsbD_setWidth, BitVec.getLsbD_shiftLeft, getLsbD_one_and,
          hlow, hresult, List.getElem?_append, ← hid]
        rcases Nat.lt_trichotomy k s.id with hlt | rfl | hgt
        · simp [hlt]
        · have hid' : s.id < 64 := by
            rw [hid]
            exact (List.length_filter_le _ _).trans_lt (by rw [List.length_range]; omega)
          simp [hid', ← hid]
        · have hne : k - s.id ≠ 0 := by omega
          have hnone : ((List.range i).filter mask.getLsbD)[k]? = none :=
            List.getElem?_eq_none (by omega)
          simp [hne, hnone, Nat.lt_asymm hgt]
    · rw [if_neg fun h => h (hbit.mpr (Bool.not_eq_true _ ▸ hset)), if_neg hset]
      refine ⟨?_, ?_, ?_, fun k => ?_⟩
      · rw [hmask, ← BitVec.shiftRight_add]
      · rw [haddr, ← BitVec.shiftRight_add]
      · rw [hid, List.append_nil]
      · rw [hresult, List.append_nil]

/-- `get_partial_bits` puts the bits at the positions of the mask together. -/
theorem getLsbD_getPartialBits (decode : MemoryDecode) (addr : BitVec 64) (k : Nat) :
    (m.getPartialBits decode addr).getLsbD k = (decide (k < 32) &&
      ((positions (m.addrdecMask decode))[k]?.map addr.getLsbD).getD false) := by
  obtain ⟨s, hs, -, -, -, hresult⟩ := extraction_spec (m.addrdecMask decode) addr 64 le_rfl
  rw [getPartialBits, hs, BitVec.getLsbD_setWidth, hresult, positions]
  by_cases hk : k < 32
  · rw [decide_eq_true (hk.trans (by decide)), Bool.true_and]
  · rw [decide_eq_false hk, Bool.false_and, Bool.and_false]

theorem maxZeroBit_spec (mask : BitVec 64) (i : Nat) (hi : i ≤ 64) :
    maxZeroBit (~~~mask) i =
      (((List.range i).filter mask.getLsbD).getLast?.getD 0, ~~~mask >>> i) := by
  induction i with
  | zero => exact congrArg (Prod.mk 0) (BitVec.ushiftRight_zero _).symm
  | succ i ih =>
    rw [maxZeroBit] at ih ⊢
    rw [positions_succ, List.range_succ, List.foldl_append, ih (by omega)]
    have hbit : (~~~mask >>> i) &&& 1 = 0 ↔ mask.getLsbD i = true := by
      rw [and_one_eq_zero_iff, BitVec.getLsbD_ushiftRight, BitVec.getLsbD_not, Nat.add_zero,
        decide_eq_true (by omega : i < 64), Bool.true_and, Bool.not_eq_false']
    rw [List.foldl_cons, List.foldl_nil]
    dsimp only
    rw [← BitVec.shiftRight_add]
    by_cases hset : mask.getLsbD i = true
    · rw [if_pos (hbit.mpr hset), if_pos hset, List.getLast?_append_of_ne_nil _ (by simp)]
      rfl
    · rw [if_neg (hbit.not.mpr hset), if_neg hset, List.append_nil]

/-- The higher bits start at the highest bit of the mask. -/
theorem getHigherBits_eq (decode : MemoryDecode) (addr : BitVec 64) :
    m.getHigherBits decode addr =
      addr >>> (positions (m.addrdecMask decode)).getLast?.getD 0 := by
  rw [getHigherBits, maxZeroBit_spec _ 64 le_rfl, positions]

/-! ## Decoded mappings -/

/-- As many channels as their bits say, in an `int`. -/
def Doubled (m : AddressMapping) : Prop :=
  m.numChannels = .ofNat 32 (2 ^ (positions (m.addrdecMask .ch)).length)

theorem getLsbD_or_bit (mask : BitVec 64) {i j : Nat} (hi : i < 64) :
    (mask ||| (1 : BitVec 64) <<< i).getLsbD j = (mask.getLsbD j || j == i) := by
  have hone : ((1 : BitVec 64) <<< i).getLsbD j = (j == i) := by
    have htwo : (1 : BitVec 64) <<< i = BitVec.twoPow 64 i := (BitVec.twoPow_eq 64 i).symm
    rw [htwo, BitVec.getLsbD_twoPow, decide_eq_true hi, Bool.true_and]
    exact decide_eq_decide.mpr eq_comm
  rw [BitVec.getLsbD_or, hone]

/-- A mask with one more bit has one more position. -/
theorem length_positions_or {mask : BitVec 64} {i : Nat} (hi : i < 64)
    (hfree : mask.getLsbD i = false) :
    (positions (mask ||| (1 : BitVec 64) <<< i)).length = (positions mask).length + 1 := by
  have hcount (l : List Nat) : (l.filter fun j => mask.getLsbD j || j == i).length =
      (l.filter mask.getLsbD).length + l.count i := by
    induction l with
    | nil => rfl
    | cons j l ih =>
      rw [List.filter_cons, List.filter_cons, List.count_cons]
      by_cases hj : j = i
      · subst hj
        simp [hfree, ih, Nat.add_assoc]
      · have hne : (j == i) = false := beq_eq_false_iff_ne.mpr hj
        rw [hne, Bool.or_false, if_neg Bool.false_ne_true, Nat.add_zero]
        cases mask.getLsbD j
        · exact ih
        · rw [if_pos rfl, if_pos rfl, List.length_cons, List.length_cons, ih]
          omega
  have hbits : (mask ||| (1 : BitVec 64) <<< i).getLsbD = fun j => mask.getLsbD j || j == i :=
    funext fun j => getLsbD_or_bit mask hi
  rw [positions, positions, hbits, hcount,
    List.count_eq_one_of_mem List.nodup_range (List.mem_range.mpr hi)]

/-- Below the offset no bit of a mask is set, and the channels are as many as their bits say. -/
structure Decoding (s : AddressMapping × Int) : Prop where
  ofs : s.2 ≤ 63
  free : ∀ i : Nat, (i : Int) ≤ s.2 → (s.1.addrdecMask .ch).getLsbD i = false
  doubled : s.1.Doubled

theorem decoding_select {s : AddressMapping × Int} (hs : Decoding s) (decode : MemoryDecode)
    (hofs : 0 ≤ s.2) : Decoding (s.1.select decode s.2.toNat, s.2 - 1) := by
  have hle := hs.ofs
  have hlt : s.2.toNat < 64 := by omega
  have hfree := hs.free s.2.toNat (by omega)
  by_cases hch : decode = .ch
  · subst hch
    have hmask : (s.1.select .ch s.2.toNat).addrdecMask .ch =
        s.1.addrdecMask .ch ||| (1 : BitVec 64) <<< s.2.toNat :=
      Function.update_self MemoryDecode.ch _ s.1.addrdecMask
    refine ⟨by dsimp only; omega, fun i hi => ?_, ?_⟩
    · dsimp only at hi ⊢
      rw [hmask, getLsbD_or_bit _ hlt, hs.free i (by omega), Bool.false_or, beq_eq_false_iff_ne]
      omega
    · have hdouble : (s.1.select .ch s.2.toNat).numChannels = s.1.numChannels * 2 := rfl
      rw [Doubled, hmask, hdouble, length_positions_or hlt hfree, hs.doubled, Nat.pow_succ]
      exact (BitVec.ofNat_mul _ 2).symm
  · have hmask : (s.1.select decode s.2.toNat).addrdecMask .ch = s.1.addrdecMask .ch :=
      Function.update_of_ne (Ne.symm hch) ..
    have hnum : (s.1.select decode s.2.toNat).numChannels = s.1.numChannels := if_neg hch
    refine ⟨by dsimp only; omega, fun i hi => ?_, ?_⟩
    · dsimp only at hi ⊢
      rw [hmask]
      exact hs.free i (by omega)
    · rw [Doubled, hmask, hnum]
      exact hs.doubled

theorem decoding_decodeStep {s s' : AddressMapping × Int} {c : Char} (hs : Decoding s)
    (h : decodeStep s c = .ok s') : Decoding s' := by
  have hle := hs.ofs
  rw [decodeStep] at h
  split at h
  · split_ifs at h with hneg
    cases h
    exact decoding_select hs _ (not_lt.mp hneg)
  · split_ifs at h
    · cases h
      exact ⟨by dsimp only; omega, fun i hi => hs.free i (by dsimp only at hi; omega), hs.doubled⟩
    · cases h
      exact hs

/-- The invariant of the loop over the text. -/
theorem doubled_of_decode {addr : List Char} (h : decodeMemoryMapping addr = .ok m) :
    m.Doubled := by
  obtain ⟨⟨m', ofs⟩, hm', h⟩ := bind_eq_ok.mp h
  dsimp only at h
  split_ifs at h with hofs
  · cases h
  cases h
  have hstart : Decoding (⟨fun _ => 0, 1⟩, 63) :=
    ⟨le_rfl, fun i _ => BitVec.getLsbD_zero, by rw [Doubled]; decide⟩
  exact (foldlM_invariant (fun _ _ _ hstep hs => decoding_decodeStep hs hstep) hm'
    hstart).doubled

end AddressMapping

end NdpSim
