import NdpSim.Functional.Machine

/-!
# Comparing memory maps

At the end of a run the memory is compared with a target map, packet by packet, with one comparison
for each element type. Some types have none: their packets are accepted whatever the other map
holds. Mask packets are never accepted.
-/
namespace NdpSim

open Library

/-- The tolerance of the comparison for floating point, a relative error of one percent, for the
result first and the target second. -/
class ToleranceOps where
  close : F32 → F32 → Bool
  halfClose : F16 → F16 → Bool

/-- No tolerance, for maps without floating point. -/
@[reducible] def ToleranceOps.none : ToleranceOps where
  close _ _ := false
  halfClose _ _ := false

/-- The outcome of comparing two packets: their types do not match, and the comparison ends, or
whether the elements do. -/
inductive PacketCheck
  | typeMissMatch
  | elements (same : Bool)
  deriving DecidableEq

namespace VectorData

/-- Check the elements one after another; a failure does not end the loop. -/
def checkElements (n : Nat) (check : Nat → Except Fault Bool) : Except Fault PacketCheck := do
  let result ← (List.range n).foldlM (fun result i => do
    let checkData ← check i
    return result && checkData) true
  return .elements result

variable [FloatOps] [ToleranceOps]

/-- The comparison of one packet of the target with that of the other map. -/
def checkPacket (val other : VectorData) : Except Fault PacketCheck :=
  match val.type with
  | .float16 =>
    if other.type ≠ .float16 then return .typeMissMatch
    else checkElements (packetEntries * 2) fun i => do
      let o ← other.getHalfData i
      let a ← val.getHalfData i
      return FloatOps.halfEq o a || ToleranceOps.halfClose o a
  | .float32 =>
    if other.type ≠ .float32 then return .typeMissMatch
    else checkElements packetEntries fun i => do
      let o ← other.getFloatData i
      let a ← val.getFloatData i
      return FloatOps.eq o a || ToleranceOps.close o a
  | .int32 =>
    if other.type ≠ .int32 then return .typeMissMatch
    else checkElements packetEntries fun i => do
      let o ← other.getIntData i
      let a ← val.getIntData i
      return o == a
  | .int64 =>
    if other.type ≠ .int64 then return .typeMissMatch
    else checkElements (packetEntries / 2) fun i => do
      let a ← val.getLongData i
      if a = -1 then return true
      let o ← other.getLongData i
      return o == a
  | .vmask =>
    -- no type is both of these
    if other.type ≠ .uint8 ∨ other.type ≠ .vmask then return .typeMissMatch
    else return .elements true
  | .uint8 =>
    if other.type ≠ .uint8 then return .typeMissMatch
    else checkElements (packetEntries * 4) fun i => do
      let o ← other.getU8Data i
      let a ← val.getU8Data i
      return o == a
  | .bool =>
    if other.type ≠ .bool then return .typeMissMatch
    else checkElements (packetEntries * 4) fun i => do
      let o ← other.getBoolData i
      let a ← val.getBoolData i
      return o == a
  | _ => return .elements true

end VectorData

namespace HashMemoryMap

variable [FloatOps] [ToleranceOps]

/-- The loop of `Match` over the packets of the target. -/
def matchLoop (m other : HashMemoryMap) : List (BitVec 64) → Bool → Except Fault Bool
  | [], result => return result
  | key :: keys, result =>
    match m.data key with
    | none => matchLoop m other keys result
    | some val =>
      match other.data key with
      | none => return false
      | some otherVal => do
        match ← val.checkPacket otherVal with
        | .typeMissMatch => return false
        | .elements same => matchLoop m other keys (result && same)

/-- `Match`, with the packets of the target in the order in which its hash table has them. -/
def matchMap (m other : HashMemoryMap) (keys : List (BitVec 64)) : Except Fault Bool :=
  matchLoop m other keys true

end HashMemoryMap

/-! ## What is compared -/

namespace VectorData

/-- All elements of an integer, boolean or mask packet are the same; `-1` stands for any value. -/
def SameElements (val other : VectorData) : Prop :=
  match val.type with
  | .int16 => ∀ i < packetEntries * 2, other.getShortData i = val.getShortData i
  | .int32 => ∀ i < packetEntries, other.getIntData i = val.getIntData i
  | .int64 => ∀ i < packetEntries / 2,
      val.getLongData i = .ok (-1) ∨ other.getLongData i = val.getLongData i
  | .uint8 => ∀ i < packetEntries * 4, other.getU8Data i = val.getU8Data i
  | .char8 => ∀ i < packetEntries * 4, other.getCharData i = val.getCharData i
  | .bool => ∀ i < packetEntries * 4, other.getBoolData i = val.getBoolData i
  | .vmask => ∀ i < packetEntries * unionDataSize, other.getVmaskData i = val.getVmaskData i
  | _ => True

/-- `Match` has no comparison for the type. -/
def Uncompared (t : DataType) : Prop :=
  t = .int16 ∨ t = .char8 ∨ t = .maxDataType

theorem foldlM_and {α : Type} {check : α → Except Fault Bool} {l : List α} {b : Bool} :
    l.foldlM (fun result i => do
      let checkData ← check i
      return result && checkData) b = .ok true ↔ b = true ∧ ∀ i ∈ l, check i = .ok true := by
  induction l generalizing b with
  | nil => simp [pure, Except.pure]
  | cons i l ih =>
    rw [List.foldlM_cons, bind_eq_ok]
    constructor
    · rintro ⟨b', hb', hl⟩
      obtain ⟨c, hc, hb'⟩ := bind_eq_ok.mp hb'
      obtain rfl := Except.ok.inj hb'
      obtain ⟨hand, hl⟩ := ih.mp hl
      rw [Bool.and_eq_true] at hand
      exact ⟨hand.1, List.forall_mem_cons.mpr ⟨by rw [hc, hand.2], hl⟩⟩
    · rintro ⟨rfl, hl⟩
      obtain ⟨hi, hl⟩ := List.forall_mem_cons.mp hl
      exact ⟨true, by rw [hi]; rfl, ih.mpr ⟨rfl, hl⟩⟩

theorem checkElements_eq {n : Nat} {check : Nat → Except Fault Bool} :
    checkElements n check = .ok (.elements true) ↔ ∀ i < n, check i = .ok true := by
  rw [checkElements, bind_eq_ok]
  constructor
  · rintro ⟨b, hb, heq⟩
    obtain rfl : b = true := by
      have := Except.ok.inj heq
      simpa using this
    intro i hi
    exact (foldlM_and.mp hb).2 i (List.mem_range.mpr hi)
  · intro h
    exact ⟨true, foldlM_and.mpr ⟨rfl, fun i hi => h i (List.mem_range.mp hi)⟩, rfl⟩

/-- Two elements that are read and compared. -/
theorem compare_eq {α : Type} {x y : Except Fault α} {f : α → α → Bool} :
    (do
      let o ← x
      let a ← y
      return f o a) = .ok true ↔ ∃ o a, x = .ok o ∧ y = .ok a ∧ f o a = true := by
  cases x with
  | error e => simp [Bind.bind, Except.bind]
  | ok o =>
    cases y with
    | error e => simp [Bind.bind, Except.bind]
    | ok a => simp [Bind.bind, Except.bind, pure, Except.pure]

variable [FloatOps] [ToleranceOps]

def floatMatches (o a : F32) : Bool := FloatOps.eq o a || ToleranceOps.close o a
def halfMatches (o a : F16) : Bool := FloatOps.halfEq o a || ToleranceOps.halfClose o a

/-- The packets agree as far as the type of the first is compared. -/
def Agrees (val other : VectorData) : Prop :=
  match val.type with
  | .float16 => other.type = .float16 ∧ ∀ i < packetEntries * 2, ∃ o a,
      other.getHalfData i = .ok o ∧ val.getHalfData i = .ok a ∧ halfMatches o a = true
  | .float32 => other.type = .float32 ∧ ∀ i < packetEntries, ∃ o a,
      other.getFloatData i = .ok o ∧ val.getFloatData i = .ok a ∧ floatMatches o a = true
  | .int32 => other.type = .int32 ∧ ∀ i < packetEntries, ∃ a,
      other.getIntData i = .ok a ∧ val.getIntData i = .ok a
  | .int64 => other.type = .int64 ∧ ∀ i < packetEntries / 2,
      val.getLongData i = .ok (-1) ∨ ∃ a, other.getLongData i = .ok a ∧ val.getLongData i = .ok a
  | .uint8 => other.type = .uint8 ∧ ∀ i < packetEntries * 4, ∃ a,
      other.getU8Data i = .ok a ∧ val.getU8Data i = .ok a
  | .bool => other.type = .bool ∧ ∀ i < packetEntries * 4, ∃ a,
      other.getBoolData i = .ok a ∧ val.getBoolData i = .ok a
  | .vmask => False
  | _ => True

theorem checkPacket_eq {val other : VectorData} :
    val.checkPacket other = .ok (.elements true) ↔ Agrees val other := by
  have hmiss {t : DataType} {x : Except Fault PacketCheck} :
      (if other.type ≠ t then pure PacketCheck.typeMissMatch else x) = .ok (.elements true) ↔
        other.type = t ∧ x = .ok (.elements true) := by
    by_cases h : other.type = t <;> simp [h, pure, Except.pure]
  have hsame {α : Type} [BEq α] [LawfulBEq α] {x y : Except Fault α} :
      (∃ o a, x = .ok o ∧ y = .ok a ∧ (o == a) = true) ↔ ∃ a, x = .ok a ∧ y = .ok a := by
    simp
  unfold checkPacket Agrees
  cases ht : val.type with
  | float16 => simp only [hmiss, checkElements_eq, compare_eq]; rfl
  | float32 => simp only [hmiss, checkElements_eq, compare_eq]; rfl
  | int32 => simp only [hmiss, checkElements_eq, compare_eq, hsame]
  | uint8 => simp only [hmiss, checkElements_eq, compare_eq, hsame]
  | bool => simp only [hmiss, checkElements_eq, compare_eq, hsame]
  | int64 =>
    simp only [hmiss, checkElements_eq]
    refine and_congr_right fun _ => forall₂_congr fun i _ => ?_
    rw [bind_eq_ok]
    constructor
    · rintro ⟨a, hval, h⟩
      by_cases ha : a = -1
      · exact .inl (ha ▸ hval)
      · rw [if_neg ha] at h
        obtain ⟨o, hother, h⟩ := bind_eq_ok.mp h
        exact .inr ⟨a, by rw [hother, eq_of_beq (Except.ok.inj h)], hval⟩
    · rintro (hval | ⟨a, hother, hval⟩)
      · exact ⟨-1, hval, if_pos rfl⟩
      · refine ⟨a, hval, ?_⟩
        split
        · rfl
        · rw [hother]
          exact congrArg Except.ok (beq_self_eq_true a)
  | vmask =>
    have hboth : other.type ≠ .uint8 ∨ other.type ≠ .vmask := by
      by_cases h : other.type = .uint8
      · exact .inr (by rw [h]; decide)
      · exact .inl h
    simp [hboth, pure, Except.pure]
  | int16 | char8 | maxDataType => simp [pure, Except.pure]

/-- The packet has a compared type, all its words, and no element that does not match itself. -/
structure SelfMatching (v : VectorData) : Prop where
  type : v.type ≠ .vmask
  words : ¬ Uncompared v.type → packetEntries ≤ v.data.length
  float : v.type = .float32 → ∀ i < packetEntries, ∀ a, v.getFloatData i = .ok a →
    floatMatches a a = true
  half : v.type = .float16 → ∀ i < packetEntries * 2, ∀ a, v.getHalfData i = .ok a →
    halfMatches a a = true

omit [FloatOps] [ToleranceOps] in
theorem exists_word {v : VectorData} {i : Nat} :
    (∃ w, v.word i = .ok w) ↔ i < v.data.length := by
  rw [word]
  split
  case h_1 w hw => simp [(List.getElem?_eq_some_iff.mp hw).1]
  case h_2 hnone => simpa using hnone

omit [FloatOps] [ToleranceOps] in
theorem exists_bind_pure {α β : Type} {x : Except Fault α} {f : α → β} :
    (∃ b, (do let a ← x; return f a) = .ok b) ↔ ∃ a, x = .ok a := by
  cases x with
  | error e => simp [Bind.bind, Except.bind]
  | ok a => simp [Bind.bind, Except.bind, pure, Except.pure]

omit [FloatOps] [ToleranceOps] in
theorem exists_long {v : VectorData} {i : Nat} :
    (∃ a, v.getLongData i = .ok a) ↔ 2 * i + 1 < v.data.length := by
  constructor
  · rintro ⟨a, ha⟩
    obtain ⟨msb, -, ha⟩ := bind_eq_ok.mp ha
    obtain ⟨lsb, hlsb, -⟩ := bind_eq_ok.mp ha
    exact exists_word.mp ⟨lsb, hlsb⟩
  · intro h
    obtain ⟨msb, hmsb⟩ := exists_word.mpr (show 2 * i < v.data.length by omega)
    obtain ⟨lsb, hlsb⟩ := exists_word.mpr h
    exact ⟨msb ++ lsb, by rw [getLongData, hmsb, hlsb]; rfl⟩

omit [FloatOps] [ToleranceOps] in
theorem exists_byte {v : VectorData} {i : Nat} :
    (∃ a, v.getU8Data i = .ok a) ↔ i / 4 < v.data.length :=
  exists_bind_pure.trans exists_word

omit [ToleranceOps] in
theorem exists_half {v : VectorData} {i : Nat} :
    (∃ a, v.getHalfData i = .ok a) ↔ i / 2 < v.data.length :=
  exists_bind_pure.trans exists_word

theorem Agrees.selfMatching {v : VectorData} (h : Agrees v v) : SelfMatching v := by
  unfold Agrees at h
  refine ⟨fun ht => by simp [ht] at h, fun hc => ?_, fun ht i hi a ha => ?_,
    fun ht i hi a ha => ?_⟩
  · -- the last element is read
    cases ht : v.type with
    | float16 =>
      simp only [ht] at h
      obtain ⟨o, a, ho, -⟩ := h.2 15 (by decide)
      exact exists_half.mp ⟨o, ho⟩
    | float32 =>
      simp only [ht] at h
      obtain ⟨o, a, ho, -⟩ := h.2 7 (by decide)
      exact exists_word.mp ⟨o, ho⟩
    | int32 =>
      simp only [ht] at h
      obtain ⟨a, ha, -⟩ := h.2 7 (by decide)
      exact exists_word.mp ⟨a, ha⟩
    | int64 =>
      simp only [ht] at h
      refine (exists_long (i := 3)).mp ?_
      rcases h.2 3 (by decide) with ha | ⟨a, ha, -⟩
      · exact ⟨_, ha⟩
      · exact ⟨a, ha⟩
    | uint8 =>
      simp only [ht] at h
      obtain ⟨a, ha, -⟩ := h.2 31 (by decide)
      exact exists_byte.mp ⟨a, ha⟩
    | bool =>
      simp only [ht] at h
      obtain ⟨a, ha, -⟩ := h.2 31 (by decide)
      exact exists_byte.mp (exists_bind_pure.mp ⟨a, ha⟩)
    | vmask => simp [ht] at h
    | int16 | char8 | maxDataType => exact absurd (by simp [Uncompared, ht]) hc
  · simp only [ht] at h
    obtain ⟨o, a', ho, ha', hm⟩ := h.2 i hi
    rw [ha] at ho ha'
    rwa [← Except.ok.inj ho, ← Except.ok.inj ha'] at hm
  · simp only [ht] at h
    obtain ⟨o, a', ho, ha', hm⟩ := h.2 i hi
    rw [ha] at ho ha'
    rwa [← Except.ok.inj ho, ← Except.ok.inj ha'] at hm

theorem SelfMatching.agrees {v : VectorData} (h : SelfMatching v) : Agrees v v := by
  have hwords (hc : ¬ Uncompared v.type) {i : Nat} (hi : i < packetEntries) : i < v.data.length :=
    Nat.lt_of_lt_of_le hi (h.words hc)
  unfold Agrees
  cases ht : v.type with
  | float16 =>
    refine ⟨rfl, fun i hi => ?_⟩
    obtain ⟨a, ha⟩ := exists_half.mpr (hwords (by simp [Uncompared, ht])
      (show i / 2 < packetEntries by omega))
    exact ⟨a, a, ha, ha, h.half ht i hi a ha⟩
  | float32 =>
    refine ⟨rfl, fun i hi => ?_⟩
    obtain ⟨a, ha⟩ := exists_word.mpr (hwords (by simp [Uncompared, ht]) hi)
    exact ⟨a, a, ha, ha, h.float ht i hi a ha⟩
  | int32 =>
    refine ⟨rfl, fun i hi => ?_⟩
    obtain ⟨a, ha⟩ := exists_word.mpr (hwords (by simp [Uncompared, ht]) hi)
    exact ⟨a, ha, ha⟩
  | int64 =>
    refine ⟨rfl, fun i hi => ?_⟩
    obtain ⟨a, ha⟩ := exists_long.mpr (hwords (by simp [Uncompared, ht])
      (show 2 * i + 1 < packetEntries by omega))
    exact .inr ⟨a, ha, ha⟩
  | uint8 =>
    refine ⟨rfl, fun i hi => ?_⟩
    obtain ⟨a, ha⟩ := exists_byte.mpr (hwords (by simp [Uncompared, ht])
      (show i / 4 < packetEntries by omega))
    exact ⟨a, ha, ha⟩
  | bool =>
    refine ⟨rfl, fun i hi => ?_⟩
    obtain ⟨a, ha⟩ := exists_bind_pure.mpr (exists_byte.mpr (hwords (by simp [Uncompared, ht])
      (show i / 4 < packetEntries by omega)))
    exact ⟨a, ha, ha⟩
  | vmask => exact absurd ht h.type
  | int16 | char8 | maxDataType => trivial

/-- A compared packet that agrees is the same. -/
theorem Agrees.same {val other : VectorData} (h : Agrees val other) (hc : ¬ Uncompared val.type) :
    other.type = val.type ∧ SameElements val other := by
  have hread {α : Type} {x y : Except Fault α} (h : ∃ a, x = .ok a ∧ y = .ok a) : x = y := by
    obtain ⟨a, hx, hy⟩ := h
    rw [hx, hy]
  unfold Agrees at h
  unfold SameElements
  cases ht : val.type with
  | float16 | float32 =>
    simp only [ht] at h
    exact ⟨h.1, trivial⟩
  | int32 | uint8 | bool =>
    simp only [ht] at h
    exact ⟨h.1, fun i hi => hread (h.2 i hi)⟩
  | int64 =>
    simp only [ht] at h
    exact ⟨h.1, fun i hi => (h.2 i hi).imp id hread⟩
  | vmask => simp [ht] at h
  | int16 | char8 | maxDataType => exact absurd (by simp [Uncompared, ht]) hc

/-- Whatever the other packet, one of an uncompared type agrees. -/
theorem agrees_of_uncompared {val other : VectorData} (h : Uncompared val.type) :
    Agrees val other := by
  unfold Agrees
  rcases h with ht | ht | ht <;> rw [ht] <;> trivial

end VectorData

namespace HashMemoryMap

open VectorData

/-- The list has the addresses of all packets of the map. -/
def Enumerates (m : HashMemoryMap) (keys : List (BitVec 64)) : Prop :=
  keys.Nodup ∧ ∀ key, key ∈ keys ↔ m.checkAddr key = true

/-- Every packet of the first map is in the second, with its type and the same elements. -/
def Contained (m other : HashMemoryMap) : Prop :=
  ∀ key val, m.data key = some val → ∃ otherVal, other.data key = some otherVal ∧
    otherVal.type = val.type ∧ val.SameElements otherVal

variable [FloatOps] [ToleranceOps] {m other : HashMemoryMap} {keys : List (BitVec 64)}

/-- A match means something, and a map matches a copy of itself. -/
def MatchSound (m other : HashMemoryMap) (keys : List (BitVec 64)) : Prop :=
  (m.matchMap other keys = .ok true → Contained m other) ∧ m.matchMap m keys = .ok true

theorem matchLoop_eq {result : Bool} : m.matchLoop other keys result = .ok true ↔
    result = true ∧ ∀ key ∈ keys, ∀ val, m.data key = some val →
      ∃ otherVal, other.data key = some otherVal ∧ val.Agrees otherVal := by
  induction keys generalizing result with
  | nil => simp [matchLoop, pure, Except.pure]
  | cons key keys ih =>
    rw [matchLoop, List.forall_mem_cons]
    cases hm : m.data key with
    | none =>
      simp only [ih]
      simp
    | some val =>
      cases ho : other.data key with
      | none => simp [pure, Except.pure]
      | some otherVal =>
        simp only [bind_eq_ok, Option.some.injEq, forall_eq', exists_eq_left']
        constructor
        · rintro ⟨c, hc, h⟩
          cases c with
          | typeMissMatch => simp [pure, Except.pure] at h
          | elements same =>
            obtain ⟨hand, hrest⟩ := ih.mp h
            rw [Bool.and_eq_true] at hand
            exact ⟨hand.1, checkPacket_eq.mp (by rw [hc, hand.2]), hrest⟩
        · rintro ⟨rfl, hc, hrest⟩
          exact ⟨_, checkPacket_eq.mpr hc, ih.mpr ⟨rfl, hrest⟩⟩

/-- Whatever the order of the packets, a match compares each of them. -/
theorem matchMap_eq (henum : m.Enumerates keys) : m.matchMap other keys = .ok true ↔
    ∀ key val, m.data key = some val →
      ∃ otherVal, other.data key = some otherVal ∧ val.Agrees otherVal := by
  rw [matchMap, matchLoop_eq]
  constructor
  · rintro ⟨-, h⟩ key val hval
    exact h key ((henum.2 key).mpr (by simp [checkAddr, hval])) val hval
  · intro h
    exact ⟨rfl, fun key _ val hval => h key val hval⟩

/-- Every packet of the target matches itself, and the packets of uncompared types are in the other
map with the same elements, or else a packet is missing there or differs where it is compared. -/
structure Checkable (m other : HashMemoryMap) : Prop where
  selfMatching : ∀ key val, m.data key = some val → val.SelfMatching
  uncompared :
    (∀ key val otherVal, m.data key = some val → other.data key = some otherVal →
      Uncompared val.type → otherVal.type = val.type ∧ val.SameElements otherVal) ∨
    ∃ key val, m.data key = some val ∧
      ∀ otherVal, other.data key = some otherVal → ¬ val.Agrees otherVal

/-- A match with a target is sound, and the target matches itself, exactly if it is checkable. -/
theorem matchSound_iff (henum : m.Enumerates keys) :
    MatchSound m other keys ↔ Checkable m other := by
  constructor
  · rintro ⟨hsound, hself⟩
    rw [matchMap_eq henum] at hsound hself
    refine ⟨fun key val hval => ?_, ?_⟩
    · obtain ⟨val', hval', hagree⟩ := hself key val hval
      rw [hval] at hval'
      rw [← Option.some_inj.mp hval'] at hagree
      exact hagree.selfMatching
    · by_cases hall : ∀ key val, m.data key = some val →
          ∃ otherVal, other.data key = some otherVal ∧ val.Agrees otherVal
      · refine .inl fun key val otherVal hval hother _ => ?_
        obtain ⟨o, ho, hsame⟩ := hsound hall key val hval
        rw [hother] at ho
        rwa [← Option.some_inj.mp ho] at hsame
      · push Not at hall
        obtain ⟨key, val, hval, hdiffers⟩ := hall
        exact .inr ⟨key, val, hval, hdiffers⟩
  · rintro ⟨hself, hunc⟩
    refine ⟨fun hmatch key val hval => ?_, ?_⟩
    · rw [matchMap_eq henum] at hmatch
      obtain ⟨o, ho, hagree⟩ := hmatch key val hval
      refine ⟨o, ho, ?_⟩
      by_cases hc : Uncompared val.type
      · rcases hunc with hsame | ⟨key', val', hval', hdiffers⟩
        · exact hsame key val o hval ho hc
        · obtain ⟨o', ho', hagree'⟩ := hmatch key' val' hval'
          exact absurd hagree' (hdiffers o' ho')
      · exact hagree.same hc
    · rw [matchMap_eq henum]
      exact fun key val hval => ⟨val, hval, (hself key val hval).agrees⟩

/-- A target is checked soundly against every map only if all its packets are compared. -/
theorem matchSound_forall_iff (henum : m.Enumerates keys) :
    (∀ other, MatchSound m other keys) ↔
      ∀ key val, m.data key = some val → val.SelfMatching ∧ ¬ Uncompared val.type := by
  constructor
  · intro h key val hval
    have hself (other : HashMemoryMap) := (matchSound_iff henum).mp (h other)
    refine ⟨(hself m).selfMatching key val hval, fun hc => ?_⟩
    -- the same map with another type at this packet
    let retyped : VectorData := val.setType (if val.type = .int16 then .char8 else .int16)
    have hne : retyped.type ≠ val.type := by
      simp only [retyped, VectorData.setType]
      split
      case isTrue ht => rw [ht]; decide
      case isFalse ht => exact Ne.symm ht
    rcases (hself { m with data := Function.update m.data key (some retyped) }).uncompared with
      hsame | ⟨key', val', hval', hdiffers⟩
    · exact hne (hsame key val retyped hval (Function.update_self ..) hc).1
    · by_cases heq : key' = key
      · subst heq
        rw [hval] at hval'
        obtain rfl := Option.some_inj.mp hval'
        exact hdiffers retyped (Function.update_self ..) (agrees_of_uncompared hc)
      · refine hdiffers val' ?_ ((hself m).selfMatching key' val' hval').agrees
        exact (Function.update_of_ne heq ..).trans hval'
  · intro h other
    refine (matchSound_iff henum).mpr ⟨fun key val hval => (h key val hval).1, .inl ?_⟩
    intro key val otherVal hval _ hc
    exact absurd hc (h key val hval).2

end HashMemoryMap

namespace HashMemoryMap

open VectorData

def packetOf (t : DataType) (w : BitVec 32) : VectorData :=
  ⟨t, packetEntries, false, List.replicate packetEntries w⟩

/-- A map of one packet, all words `w`. -/
def onePacket (t : DataType) (w : BitVec 32) : HashMemoryMap where
  base := 0
  size := 2 ^ 64 - 1
  synthetic := none
  data := fun addr => if addr = 32 then some (packetOf t w) else none

theorem data_onePacket {t : DataType} {w : BitVec 32} {addr : BitVec 64} {v : VectorData} :
    (onePacket t w).data addr = some v ↔ addr = 32 ∧ packetOf t w = v := by
  rw [onePacket]
  simp

theorem enumerates_onePacket (t : DataType) (w : BitVec 32) : (onePacket t w).Enumerates [32] := by
  refine ⟨List.nodup_singleton _, fun key => ?_⟩
  rw [List.mem_singleton, checkAddr, Option.isSome_iff_exists]
  simp [data_onePacket]

/-- An `INT32` packet is compared. -/
theorem matchSound_int32 :
    @MatchSound .zero .none (onePacket .int32 5) (onePacket .int32 6) [32] := by
  let := FloatOps.zero
  let := ToleranceOps.none
  refine (matchSound_iff (enumerates_onePacket .int32 5)).mpr ⟨fun key val hval => ?_, .inl ?_⟩
  · obtain ⟨-, rfl⟩ := data_onePacket.mp hval
    exact ⟨by decide, fun _ => by decide, nofun, nofun⟩
  · intro key val otherVal hval _ hc
    obtain ⟨-, rfl⟩ := data_onePacket.mp hval
    exact absurd hc (by simp [Uncompared, packetOf])

/-- An `INT16` packet is not. -/
theorem not_matchSound_int16 :
    (onePacket .int16 5).Enumerates [32] ∧
    @matchMap .zero .none (onePacket .int16 5) (onePacket .int16 6) [32] = .ok true ∧
    ¬ @MatchSound .zero .none (onePacket .int16 5) (onePacket .int16 6) [32] := by
  have hmatch : @matchMap .zero .none (onePacket .int16 5) (onePacket .int16 6) [32] =
      .ok true := rfl
  refine ⟨enumerates_onePacket .int16 5, hmatch, fun h => ?_⟩
  obtain ⟨o, ho, -, hsame⟩ := h.1 hmatch 32 _ (data_onePacket.mpr ⟨rfl, rfl⟩)
  obtain ⟨-, rfl⟩ := data_onePacket.mp ho
  exact absurd (hsame 0 (by decide)) (by decide)

end HashMemoryMap

end NdpSim
