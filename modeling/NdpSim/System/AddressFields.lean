import NdpSim.Library.Loops
import NdpSim.System.Channels

/-!
# The fields of an address

Every bit of an address belongs to the field its letter names, so that the fields together give the
address back. The value of a field is put together in 32 bits and the number of channels in an
`int`, so that a field can be too long for its value.
-/
namespace NdpSim

open Library

namespace AddressMapping

/-! ## The letters -/

/-- The letters of the bits, the highest first. -/
def written (addr : List Char) : List Char :=
  (addr.takeWhile (· ≠ '\x00')).filter (· ∉ ['|', ' ', '.'])

/-- The letter of a field. -/
def letter : MemoryDecode → Char
  | .device => 'G'
  | .ram => 'M'
  | .bankGroup => 'B'
  | .bank => 'b'
  | .memRow => 'R'
  | .column => 'c'
  | .ch => 'C'
  | .burst => 'S'

theorem field_eq_some {c : Char} {d : MemoryDecode} : field c = some d ↔ c = letter d := by
  constructor
  · intro h
    unfold field at h
    split at h <;> cases h <;> rfl
  · rintro rfl
    cases d <;> rfl

/-- After some letters, the masks have the bits of the letters. -/
structure Reading (w : List Char) (s : AddressMapping × Int) : Prop where
  ofs : s.2 = 63 - w.length
  known : ∀ c ∈ w, c = '0' ∨ (field c).isSome
  mask : ∀ d (i : Nat), i < 64 →
    ((s.1.addrdecMask d).getLsbD i = true ↔ w[63 - i]?.bind field = some d)

/-- One letter more. -/
theorem bind_field_concat (w : List Char) (c : Char) {i : Nat} (d : MemoryDecode) :
    (w ++ [c])[i]?.bind field = some d ↔
      w[i]?.bind field = some d ∨ i = w.length ∧ field c = some d := by
  rcases Nat.lt_trichotomy i w.length with hlt | rfl | hgt
  · rw [List.getElem?_append_left hlt, or_iff_left fun h => absurd h.1 hlt.ne]
  · rw [List.getElem?_concat_length, List.getElem?_eq_none le_rfl]
    simp
  · rw [List.getElem?_eq_none (by rw [List.length_append, List.length_singleton]; omega),
      List.getElem?_eq_none hgt.le]
    simp [hgt.ne']

theorem Reading.select {w : List Char} {s : AddressMapping × Int} {c : Char} {d : MemoryDecode}
    (h : Reading w s) (hc : field c = some d) (hofs : 0 ≤ s.2) :
    Reading (w ++ [c]) (s.1.select d s.2.toNat, s.2 - 1) := by
  have hlen := h.ofs
  refine ⟨?_, fun c' hc' => ?_, fun d' i hi => ?_⟩
  · rw [List.length_append, List.length_singleton]
    dsimp only
    omega
  · obtain hc' | hc' := List.mem_append.mp hc'
    · exact h.known c' hc'
    · rw [List.mem_singleton.mp hc', hc]
      exact .inr rfl
  · rw [bind_field_concat, hc, ← h.mask d' i hi, Option.some_inj]
    dsimp only
    by_cases hd : d' = d
    · subst hd
      have hmask : (s.1.select d' s.2.toNat).addrdecMask d' =
          s.1.addrdecMask d' ||| (1 : BitVec 64) <<< s.2.toNat :=
        Function.update_self d' _ s.1.addrdecMask
      rw [hmask, getLsbD_or_bit _ (by omega), Bool.or_eq_true, beq_iff_eq]
      exact or_congr_right ⟨fun hbit => ⟨by omega, rfl⟩, fun hbit => by omega⟩
    · have hmask : (s.1.select d s.2.toNat).addrdecMask d' = s.1.addrdecMask d' :=
        Function.update_of_ne hd ..
      rw [hmask, or_iff_left fun hbit => hd hbit.2.symm]

theorem Reading.ignore {w : List Char} {m : AddressMapping} {ofs : Int} (h : Reading w (m, ofs)) :
    Reading (w ++ ['0']) (m, ofs - 1) := by
  have hlen := h.ofs
  refine ⟨?_, fun c hc => ?_, fun d i hi => ?_⟩
  · rw [List.length_append, List.length_singleton]
    dsimp only at hlen ⊢
    omega
  · exact (List.mem_append.mp hc).elim (h.known c) fun hc => .inl (List.mem_singleton.mp hc)
  · have hzero : ¬ ((63 - i = w.length) ∧ field '0' = some d) := fun hbit => nomatch hbit.2
    rw [bind_field_concat, ← h.mask d i hi, or_iff_left hzero]

theorem Reading.step {p : List Char} {s s' : AddressMapping × Int} {c : Char}
    (h : Reading (p.filter (· ∉ ['|', ' ', '.'])) s) (hstep : decodeStep s c = .ok s') :
    Reading ((p ++ [c]).filter (· ∉ ['|', ' ', '.'])) s' := by
  rw [List.filter_append, List.filter_cons, List.filter_nil]
  rw [decodeStep] at hstep
  split at hstep
  case h_1 d hd =>
    split_ifs at hstep with hneg
    cases hstep
    have hsep : c ∉ ['|', ' ', '.'] := by
      rw [field_eq_some.mp hd]
      cases d <;> decide
    rw [if_pos (decide_eq_true hsep)]
    exact h.select hd (not_lt.mp hneg)
  case h_2 =>
    split_ifs at hstep with hzero hsep
    · cases hstep
      subst hzero
      exact h.ignore
    · cases hstep
      rw [if_neg (by rw [decide_eq_true_eq, not_not]; exact hsep), List.append_nil]
      exact h

variable {m : AddressMapping} {text : List Char}

/-- The masks of an accepted text, bit by bit. -/
theorem reading_of_decode (h : decodeMemoryMapping text = .ok m) :
    Reading (written text) (m, -1) := by
  obtain ⟨⟨m', ofs⟩, hm', h⟩ := bind_eq_ok.mp h
  dsimp only at h
  split_ifs at h with hofs
  · cases h
  cases h
  rw [not_not.mp hofs] at hm'
  exact foldlM_prefix (p := []) (P := fun p s => Reading (p.filter (· ∉ ['|', ' ', '.'])) s)
    (fun p s c s' hstep hs => hs.step hstep) hm'
    ⟨rfl, nofun, fun d i hi => iff_of_false (by simp) nofun⟩

theorem length_written (h : decodeMemoryMapping text = .ok m) : (written text).length = 64 := by
  have hofs := (reading_of_decode h).ofs
  dsimp only at hofs
  omega

theorem getLsbD_addrdecMask (h : decodeMemoryMapping text = .ok m) (d : MemoryDecode) {i : Nat}
    (hi : i < 64) :
    (m.addrdecMask d).getLsbD i = true ↔ (written text)[63 - i]? = some (letter d) := by
  rw [(reading_of_decode h).mask d i hi, Option.bind_eq_some_iff]
  simp only [field_eq_some, exists_eq_right]

/-- A field has as many bits as its letter is written. -/
theorem length_positions (h : decodeMemoryMapping text = .ok m) (d : MemoryDecode) :
    (positions (m.addrdecMask d)).length = (written text).count (letter d) := by
  have hlen := length_written h
  have hreverse : (List.range 64).map (fun i => (written text)[63 - i]?) =
      (written text).reverse.map some := by
    refine List.ext_getElem (by simp [hlen]) fun i hi _ => ?_
    have hi' : i < 64 := by simpa using hi
    rw [List.getElem_map, List.getElem_map, List.getElem_range, List.getElem_reverse,
      List.getElem?_eq_getElem (by omega)]
    simp only [hlen]
  calc (positions (m.addrdecMask d)).length
      = (List.range 64).countP fun i => (written text)[63 - i]? == some (letter d) := by
        rw [positions, ← List.countP_eq_length_filter]
        refine List.countP_congr fun i hi => ?_
        rw [getLsbD_addrdecMask h d (List.mem_range.mp hi), beq_iff_eq]
    _ = ((List.range 64).map fun i => (written text)[63 - i]?).count (some (letter d)) := by
        rw [List.count, List.countP_map]
        rfl
    _ = (written text).count (letter d) := by
        rw [hreverse, List.count_map_of_injective _ _ (Option.some_injective _),
          List.count_reverse]

/-! ## The fields together -/

/-- What a mapping and the text it was decoded from have to do with each other. -/
structure Decodes (text : List Char) (m : AddressMapping) : Prop where
  length : (written text).length = 64
  disjoint : ∀ d d', d ≠ d' → m.addrdecMask d &&& m.addrdecMask d' = 0
  covered : ∀ i < 64, (∃ d, (m.addrdecMask d).getLsbD i = true) ↔
    ∃ c, (written text)[63 - i]? = some c ∧ c ≠ '0'
  channels : m.numChannels.toInt = 2 ^ (written text).count 'C'
  determined : ∀ a b : BitVec 64,
    (∀ i, (∀ d, (m.addrdecMask d).getLsbD i = false) → a.getLsbD i = b.getLsbD i) →
    (∀ d, m.getPartialBits d a = m.getPartialBits d b) → a = b

/-- A bit has one letter. -/
theorem masks_disjoint (h : decodeMemoryMapping text = .ok m) {d d' : MemoryDecode} {i : Nat}
    (hd : (m.addrdecMask d).getLsbD i = true) (hd' : (m.addrdecMask d').getLsbD i = true) :
    d = d' := by
  have hi := BitVec.lt_of_getLsbD hd
  have hletter := (getLsbD_addrdecMask h d hi).mp hd
  rw [(getLsbD_addrdecMask h d' hi).mp hd'] at hletter
  have hfield : field (letter d') = some d := field_eq_some.mpr (Option.some.inj hletter)
  exact Option.some.inj (hfield.symm.trans (field_eq_some.mpr rfl))

theorem masks_cover (h : decodeMemoryMapping text = .ok m) {i : Nat} (hi : i < 64) :
    (∃ d, (m.addrdecMask d).getLsbD i = true) ↔
      ∃ c, (written text)[63 - i]? = some c ∧ c ≠ '0' := by
  constructor
  · rintro ⟨d, hd⟩
    refine ⟨letter d, (getLsbD_addrdecMask h d hi).mp hd, ?_⟩
    cases d <;> decide
  · rintro ⟨c, hc, hzero⟩
    obtain ⟨d, hd⟩ := Option.isSome_iff_exists.mp
      (((reading_of_decode h).known c (List.mem_of_getElem? hc)).resolve_left hzero)
    exact ⟨d, (getLsbD_addrdecMask h d hi).mpr (field_eq_some.mp hd ▸ hc)⟩

/-- The values of fields of at most 32 bits have all their bits. -/
theorem eq_of_fields (hle : ∀ d, (positions (m.addrdecMask d)).length ≤ 32) {a b : BitVec 64}
    (hignored : ∀ i, (∀ d, (m.addrdecMask d).getLsbD i = false) → a.getLsbD i = b.getLsbD i)
    (hfields : ∀ d, m.getPartialBits d a = m.getPartialBits d b) : a = b := by
  refine BitVec.eq_of_getLsbD_eq fun i _ => ?_
  by_cases hi : ∃ d, (m.addrdecMask d).getLsbD i = true
  · obtain ⟨d, hd⟩ := hi
    obtain ⟨k, hk, rfl⟩ := List.getElem_of_mem (mem_positions.mpr hd)
    have hbit := congrArg (BitVec.getLsbD · k) (hfields d)
    simp only [getLsbD_getPartialBits, List.getElem?_eq_getElem hk,
      decide_eq_true (hk.trans_le (hle d)), Bool.true_and] at hbit
    exact hbit
  · exact hignored i fun d => Bool.eq_false_iff.mpr fun hd => hi ⟨d, hd⟩

/-- The bits of a field beyond the 32nd get lost. -/
theorem exists_same_fields (h : decodeMemoryMapping text = .ok m) {d : MemoryDecode}
    (hlt : 32 < (positions (m.addrdecMask d)).length) : ∃ a b : BitVec 64,
      (∀ i, (∀ d, (m.addrdecMask d).getLsbD i = false) → a.getLsbD i = b.getLsbD i) ∧
      (∀ d, m.getPartialBits d a = m.getPartialBits d b) ∧ a ≠ b := by
  obtain ⟨p, hget⟩ : ∃ p, (positions (m.addrdecMask d))[32]? = some p :=
    ⟨_, List.getElem?_eq_getElem hlt⟩
  have hp : (m.addrdecMask d).getLsbD p = true := mem_positions.mp (List.mem_of_getElem? hget)
  have hp64 : p < 64 := BitVec.lt_of_getLsbD hp
  have hbit (i : Nat) (hi : i ≠ p) :
      (0 : BitVec 64).getLsbD i = (BitVec.twoPow 64 p).getLsbD i := by
    rw [BitVec.getLsbD_twoPow, decide_eq_false hi.symm, Bool.and_false]
    exact BitVec.getLsbD_zero
  refine ⟨0, .twoPow 64 p, fun i hi => hbit i ?_, fun d' => ?_, fun heq => ?_⟩
  · rintro rfl
    exact Bool.false_ne_true ((hi d).symm.trans hp)
  · refine BitVec.eq_of_getLsbD_eq fun k _ => ?_
    rw [getLsbD_getPartialBits, getLsbD_getPartialBits]
    by_cases hk : k < 32
    · cases hj : (positions (m.addrdecMask d'))[k]? with
      | none => rfl
      | some j =>
        rw [Option.map_some, Option.map_some, hbit j]
        rintro rfl
        obtain rfl := masks_disjoint h hp (mem_positions.mp (List.mem_of_getElem? hj))
        have hsame : 32 = k :=
          (List.getElem?_inj hlt (List.nodup_range.filter _)).mp (hget.trans hj.symm)
        omega
    · rw [decide_eq_false hk, Bool.false_and, Bool.false_and]
  · have hone := congrArg (BitVec.getLsbD · p) heq
    simp [hp64] at hone

/-- The fields give the address back exactly if none of them is longer than its value, and the
number of channels is one exactly if it is an `int`. -/
theorem decodes_iff (h : decodeMemoryMapping text = .ok m) : Decodes text m ↔
    (written text).count 'C' ≤ 30 ∧ ∀ d, (written text).count (letter d) ≤ 32 := by
  have hdoubled := doubled_of_decode h
  have hch : m.channelBits = (written text).count 'C' := length_positions h .ch
  constructor
  · intro hm
    constructor
    · by_contra hlt
      have hnonpos := numChannels_nonpos hdoubled (by omega)
      rw [hm.channels] at hnonpos
      exact absurd hnonpos (not_le.mpr (by positivity))
    · intro d
      by_contra hlt
      rw [← length_positions h] at hlt
      obtain ⟨a, b, hignored, hfields, hne⟩ := exists_same_fields h (not_le.mp hlt)
      exact hne (hm.determined a b hignored hfields)
  · rintro ⟨hchannels, hle⟩
    refine ⟨length_written h, fun d d' hne => ?_, fun i hi => masks_cover h hi, ?_,
      fun a b => eq_of_fields fun d => ?_⟩
    · refine BitVec.eq_of_getLsbD_eq fun i _ => ?_
      rw [BitVec.getLsbD_and]
      refine Eq.trans (Bool.eq_false_iff.mpr fun hboth => hne ?_) BitVec.getLsbD_zero.symm
      obtain ⟨hd, hd'⟩ := Bool.and_eq_true_iff.mp hboth
      exact masks_disjoint h hd hd'
    · rw [numChannels_toInt hdoubled (hch ▸ hchannels), hch]
      push_cast
      rfl
    · rw [length_positions h]
      exact hle d

theorem decodes_default :
    ∃ m, decodeMemoryMapping defaultMapping = .ok m ∧ Decodes defaultMapping m := by
  obtain ⟨m, hm, -⟩ := decode_defaultMapping
  refine ⟨m, hm, (decodes_iff hm).mpr ⟨by decide +kernel, fun d => ?_⟩⟩
  cases d <;> decide +kernel

/-- A row number of 33 bits. -/
def longMapping : List Char := List.replicate 31 '0' ++ List.replicate 33 'R'

theorem not_decodes_long :
    ∃ m, decodeMemoryMapping longMapping = .ok m ∧ ¬ Decodes longMapping m := by
  cases h : decodeMemoryMapping longMapping with
  | error f =>
    have hok : (decodeMemoryMapping longMapping).isOk = true := by decide +kernel
    rw [h] at hok
    cases hok
  | ok m =>
    refine ⟨m, rfl, fun hm => ?_⟩
    have hlong : 32 < (written longMapping).count (letter .memRow) := by decide +kernel
    rw [← length_positions h] at hlong
    obtain ⟨a, b, hignored, hfields, hne⟩ := exists_same_fields h hlong
    exact hne (hm.determined a b hignored hfields)

end AddressMapping

end NdpSim
