import NdpSim.Isa.VectorData
import NdpSim.Library.Effects
import NdpSim.Library.Pool

/-!
# Cache lines and tags

The tag array of a cache: lines of up to four sectors, looked up by set and tag. A line is claimed
for a block when an access misses, and stays reserved, sector by sector, until the data arrives.
-/
namespace NdpSim

open Library

/-! ## Configuration -/

inductive CacheType
  | normal | sector
  deriving DecidableEq

inductive EvictPolicy
  | lru | fifo
  deriving DecidableEq

inductive WritePolicy
  | readOnly | writeBack | writeThrough | writeEvict | localWbGlobalWt
  deriving DecidableEq

inductive AllocationPolicy
  | onMiss | onFill | streaming
  deriving DecidableEq

inductive WriteAllocatePolicy
  | noWriteAllocate | writeAllocate | fetchOnWrite | lazyFetchOnRead
  deriving DecidableEq

inductive MshrConfig
  | assoc | sectorAssoc
  deriving DecidableEq

def sectorChunkSize : Nat := 4
def memAccessSize : Nat := 32

abbrev Sector := Fin 4

/-- Sectors are written as literals. -/
instance neZeroSectors : NeZero 4 := ⟨by decide⟩

/-- A memory request. Requests are told apart by their number, as the pointers of the simulator
are; `byteCount` is the number of bytes in the byte mask, and `invalidated` tells that the data are
the mark of a host's answer to an invalidation. -/
structure MemFetch where
  id : Nat
  addr : BitVec 64
  isWrite : Bool
  isAtomic : Bool
  fromNdp : Bool
  byteCount : Nat
  dataSize : Nat
  dirtyMask : Nat
  invalidated : Bool := false
  deriving DecidableEq

/-- The one sector in the sector mask of a request. -/
def MemFetch.sector (mf : MemFetch) : Sector :=
  ⟨mf.addr.toNat % (memAccessSize * sectorChunkSize) / memAccessSize, by
    rw [memAccessSize, sectorChunkSize]
    omega⟩

structure CacheConfig where
  cacheType : CacheType
  evictPolicy : EvictPolicy
  writePolicy : WritePolicy
  allocPolicy : AllocationPolicy
  writeAllocPolicy : WriteAllocatePolicy
  mshrConfig : MshrConfig
  lineSize : Nat
  assoc : Nat
  mshrEntries : Nat
  mshrMaxMerge : Nat
  missQueueSize : Nat
  /-- `hash_function` -/
  setIndex : BitVec 64 → Nat

/-- `addr & ~(uint64_t)(size - 1)` for a 32-bit `size`. -/
def alignDown (size : Nat) (addr : BitVec 64) : BitVec 64 :=
  addr &&& ~~~BitVec.ofNat 64 ((size + 2 ^ 32 - 1) % 2 ^ 32)

namespace CacheConfig

variable (cfg : CacheConfig)

def atomSize : Nat := if cfg.cacheType = .sector then memAccessSize else cfg.lineSize
def getTag (addr : BitVec 64) : BitVec 64 := alignDown cfg.lineSize addr
def getBlockAddr (addr : BitVec 64) : BitVec 64 := alignDown cfg.lineSize addr
def getMshrAddr (addr : BitVec 64) : BitVec 64 := alignDown cfg.atomSize addr

/-- The part of a line a request is about: a line of a normal cache is a single sector. -/
def sectorOf (mf : MemFetch) : Sector := if cfg.cacheType = .sector then mf.sector else 0

theorem sectorOf_congr {mf mf' : MemFetch} (h : mf.addr = mf'.addr) :
    cfg.sectorOf mf = cfg.sectorOf mf' := by
  simp only [sectorOf, MemFetch.sector, h]

end CacheConfig

/-! ## Lines -/

inductive CacheBlockState
  | invalid | reserved | valid | modified
  deriving DecidableEq

def CacheBlockState.toNat : CacheBlockState → Nat
  | invalid => 0
  | reserved => 1
  | valid => 2
  | modified => 3

structure CacheBlock where
  tag : BitVec 64
  blockAddr : BitVec 64
  status : Sector → CacheBlockState
  ignoreOnFill : Sector → Bool
  modifiedOnFill : Sector → Bool
  readable : Sector → Bool
  lastAccessTime : Nat
  allocTime : Nat

namespace CacheBlock

variable (b : CacheBlock)

def isInvalidLine : Bool := decide (∀ s, b.status s = .invalid)
def isReservedLine : Bool := decide (∃ s, b.status s = .reserved)
def isModifiedLine : Bool := decide (∃ s, b.status s = .modified)

/-- A sectored line is valid if it is not invalid; a plain one has to be `VALID`. -/
def isValidLine (t : CacheType) : Bool :=
  match t with
  | .normal => b.status 0 = .valid
  | .sector => !b.isInvalidLine

def getModifiedSize (t : CacheType) : Nat :=
  match t with
  | .normal => sectorChunkSize * memAccessSize
  | .sector => (Finset.univ.filter fun s => b.status s = .modified).card * memAccessSize

def setStatus (s : Sector) (st : CacheBlockState) : CacheBlock :=
  { b with status := Function.update b.status s st }

def setIgnoreOnFill (s : Sector) (ignore : Bool) : CacheBlock :=
  { b with ignoreOnFill := Function.update b.ignoreOnFill s ignore }

def setModifiedOnFill (s : Sector) (modified : Bool) : CacheBlock :=
  { b with modifiedOnFill := Function.update b.modifiedOnFill s modified }

def setReadable (s : Sector) (readable : Bool) : CacheBlock :=
  { b with readable := Function.update b.readable s readable }

def setLastAccessTime (time : Nat) : CacheBlock := { b with lastAccessTime := time }

/-- Claim the whole line for another block, with one sector reserved. -/
def allocate (t : CacheType) (tag blockAddr : BitVec 64) (time : Nat) (s : Sector) :
    CacheBlock where
  tag := tag
  blockAddr := blockAddr
  status := Function.update (fun _ => .invalid) s .reserved
  ignoreOnFill _ := false
  modifiedOnFill _ := false
  readable := if t = .sector then fun _ => true else b.readable
  lastAccessTime := time
  allocTime := time

/-- Reserve one more sector of a line that has its block already. -/
def allocateSector (time : Nat) (s : Sector) : Except Fault CacheBlock :=
  if b.isValidLine .sector then
    .ok { b with
      status := Function.update b.status s .reserved
      ignoreOnFill := Function.update b.ignoreOnFill s false
      modifiedOnFill := Function.update b.modifiedOnFill s (b.status s = .modified)
      readable := Function.update b.readable s true
      lastAccessTime := time }
  else .error .assertion

def fill (s : Sector) : CacheBlock :=
  b.setStatus s (if b.modifiedOnFill s then .modified else .valid)

end CacheBlock

/-! ## The tag array -/

/-- The lines of a cache; way `w` of set `i` is line `i * assoc + w`. -/
abbrev Lines := Nat → CacheBlock

/-- The outcome of a lookup and the line it is about. -/
inductive Probe
  | hitReserved (idx : Nat)
  | hit (idx : Nat)
  | sectorMiss (idx : Nat)
  | miss (idx : Nat)
  | reservationFail
  deriving DecidableEq

/-- What `get_block` is called with: `cache_index` is `-1` if no line was found. -/
def Probe.idx : Probe → Nat
  | hitReserved i | hit i | sectorMiss i | miss i => i
  | reservationFail => 2 ^ 32 - 1

/-- The candidates for eviction among the ways looked at so far. -/
structure Victims where
  validLine : Option Nat := none
  invalidLine : Option Nat := none
  validTimestamp : Nat := 2 ^ 64 - 1
  allReserved : Bool := true

namespace CacheConfig

variable (cfg : CacheConfig) (lines : Lines)

/-- A line with the wanted tag, unless all of it is invalid. -/
def matchLine (tag : BitVec 64) (s : Sector) (i : Nat) : Option Probe :=
  let line := lines i
  if line.tag = tag then
    if line.status s = .reserved then some (.hitReserved i)
    else if line.status s = .valid ∨ line.status s = .modified ∧ line.readable s then
      some (.hit i)
    else if line.status s = .modified ∧ ¬ line.readable s ∨
        line.isValidLine cfg.cacheType ∧ line.status s = .invalid then
      some (.sectorMiss i)
    else none
  else none

/-- The time the eviction policy compares. -/
def evictTime (line : CacheBlock) : Nat :=
  match cfg.evictPolicy with
  | .lru => line.lastAccessTime
  | .fifo => line.allocTime

/-- A line that can be evicted is remembered: the last invalid one, the oldest of the others. -/
def considerVictim (i : Nat) (v : Victims) : Victims :=
  let line := lines i
  if line.isReservedLine then v
  else
    let v := { v with allReserved := false }
    if line.isInvalidLine then { v with invalidLine := some i }
    else if cfg.evictTime line < v.validTimestamp then
      { v with validTimestamp := cfg.evictTime line, validLine := some i }
    else v

/-- The loop of `probe` over the ways of a set. -/
def probeWays (tag : BitVec 64) (s : Sector) : List Nat → Victims → Except Fault Probe
  | [], v =>
    if v.allReserved then
      if cfg.allocPolicy = .onMiss then .ok .reservationFail else .error .assertion
    else
      match v.invalidLine, v.validLine with
      | some i, _ => .ok (.miss i)
      | none, some i => .ok (.miss i)
      | none, none => .error .assertion
  | i :: is, v =>
    match cfg.matchLine lines tag s i with
    | some p => .ok p
    | none => probeWays tag s is (cfg.considerVictim lines i v)

def ways (addr : BitVec 64) : List Nat :=
  (List.range cfg.assoc).map fun w => cfg.setIndex addr * cfg.assoc + w

def probe (addr : BitVec 64) (s : Sector) : Except Fault Probe :=
  cfg.probeWays lines (cfg.getTag addr) s (cfg.ways addr) {}

end CacheConfig

/-- What is known of an evicted line. -/
structure EvictedBlockInfo where
  blockAddr : BitVec 64
  modifiedSize : Nat
  dirtyMask : Nat
  deriving DecidableEq

namespace CacheConfig

variable (cfg : CacheConfig)

/-- `TagArray::access`: the outcome, the lines after it, and the evicted block if it has to be
written back. -/
def tagAccess (lines : Lines) (addr : BitVec 64) (time : Nat) (s : Sector) :
    Except Fault (Probe × Lines × Option EvictedBlockInfo) := do
  let p ← cfg.probe lines addr s
  match p with
  | .hitReserved _ | .reservationFail => return (p, lines, none)
  | .hit i => return (p, Function.update lines i ((lines i).setLastAccessTime time), none)
  | .sectorMiss i =>
    if cfg.cacheType ≠ .sector then throw .assertion
    if cfg.allocPolicy = .onMiss then
      return (p, Function.update lines i (← (lines i).allocateSector time s), none)
    return (p, lines, none)
  | .miss i =>
    if cfg.allocPolicy = .onMiss then
      let evicted := if (lines i).isModifiedLine then
          some ⟨(lines i).blockAddr, (lines i).getModifiedSize cfg.cacheType,
            ((lines i).status s).toNat⟩
        else none
      return (p, Function.update lines i ((lines i).allocate cfg.cacheType (cfg.getTag addr)
        (cfg.getBlockAddr addr) time s), evicted)
    return (p, lines, none)

/-- `TagArray::fill` by address, for caches that allocate on fill. -/
def tagFill (lines : Lines) (addr : BitVec 64) (time : Nat) (s : Sector) : Except Fault Lines := do
  match ← cfg.probe lines addr s with
  | .miss i =>
    let b := (lines i).allocate cfg.cacheType (cfg.getTag addr) (cfg.getBlockAddr addr) time s
    return Function.update lines i (b.fill s)
  | .sectorMiss i =>
    if cfg.cacheType ≠ .sector then throw .assertion
    return Function.update lines i ((← (lines i).allocateSector time s).fill s)
  | .hit i | .hitReserved i => return Function.update lines i ((lines i).fill s)
  | .reservationFail => throw .undefined

end CacheConfig

/-! ## What a lookup and an access do -/

theorem alignDown_alignDown (size : Nat) (addr : BitVec 64) :
    alignDown size (alignDown size addr) = alignDown size addr := by
  rw [alignDown, alignDown, BitVec.and_assoc, BitVec.and_self]

/-- What a lookup says about the line it found. -/
structure Found (lines : Lines) (tag : BitVec 64) (s : Sector) (p : Probe) : Prop where
  tag : ∀ i, p = .hitReserved i ∨ p = .hit i ∨ p = .sectorMiss i → (lines i).tag = tag
  hitReserved : ∀ i, p = .hitReserved i → (lines i).status s = .reserved
  hit : ∀ i, p = .hit i → (lines i).status s ≠ .reserved
  sectorMiss : ∀ i, p = .sectorMiss i → (lines i).status s ≠ .reserved
  miss : ∀ i, p = .miss i → ∀ t, (lines i).status t ≠ .reserved

namespace CacheConfig

variable {cfg : CacheConfig} {lines : Lines} {tag : BitVec 64} {s : Sector}

theorem found_matchLine {i : Nat} {p : Probe} (h : cfg.matchLine lines tag s i = some p) :
    Found lines tag s p := by
  simp only [matchLine] at h
  split at h
  case isFalse => cases h
  case isTrue ht =>
    split at h
    case isTrue hr =>
      obtain rfl := Option.some_inj.mp h
      refine ⟨?_, ?_, ?_, ?_, ?_⟩ <;> simp_all
    case isFalse hr =>
      split at h
      case isTrue hv =>
        obtain rfl := Option.some_inj.mp h
        refine ⟨?_, ?_, ?_, ?_, ?_⟩ <;> simp_all
      case isFalse =>
        split at h
        case isTrue =>
          obtain rfl := Option.some_inj.mp h
          refine ⟨?_, ?_, ?_, ?_, ?_⟩ <;> simp_all
        case isFalse => cases h

/-- The candidates for eviction have no reserved sector. -/
def Victims.Unreserved (lines : Lines) (v : Victims) : Prop :=
  (∀ i, v.invalidLine = some i → (lines i).isReservedLine = false) ∧
    ∀ i, v.validLine = some i → (lines i).isReservedLine = false

theorem unreserved_considerVictim {v : Victims} (hv : Victims.Unreserved lines v) (i : Nat) :
    Victims.Unreserved lines (cfg.considerVictim lines i v) := by
  simp only [considerVictim]
  split
  case isTrue => exact hv
  case isFalse hr =>
    have hi : (lines i).isReservedLine = false := by simpa using hr
    split
    case isTrue =>
      refine ⟨fun j hj => ?_, hv.2⟩
      obtain rfl := Option.some_inj.mp hj
      exact hi
    case isFalse =>
      split
      case isTrue =>
        refine ⟨hv.1, fun j hj => ?_⟩
        obtain rfl := Option.some_inj.mp hj
        exact hi
      case isFalse => exact hv

theorem found_miss {i : Nat} (h : (lines i).isReservedLine = false) :
    Found lines tag s (.miss i) := by
  refine ⟨by simp, by simp, by simp, by simp, fun j hj t hr => ?_⟩
  obtain rfl := Probe.miss.inj hj
  simp only [CacheBlock.isReservedLine, decide_eq_false_iff_not, not_exists] at h
  exact h t hr

theorem found_probeWays {p : Probe} {is : List Nat} {v : Victims}
    (hv : Victims.Unreserved lines v) (h : cfg.probeWays lines tag s is v = .ok p) :
    Found lines tag s p := by
  induction is generalizing v with
  | nil =>
    simp only [probeWays] at h
    split at h
    · split at h
      · obtain rfl := Except.ok.inj h
        refine ⟨?_, ?_, ?_, ?_, ?_⟩ <;> simp
      · cases h
    · split at h
      case h_1 j hj =>
        obtain rfl := Except.ok.inj h
        exact found_miss (hv.1 _ hj)
      case h_2 j hn hj =>
        obtain rfl := Except.ok.inj h
        exact found_miss (hv.2 _ hj)
      case h_3 => cases h
  | cons i is ih =>
    simp only [probeWays] at h
    split at h
    case h_1 q hq =>
      obtain rfl := Except.ok.inj h
      exact found_matchLine hq
    case h_2 => exact ih (unreserved_considerVictim hv i) h

/-- A line with the wanted tag is passed over only if it has nothing of the block. -/
theorem invalid_of_matchLine {i : Nat} (h : cfg.matchLine lines tag s i = none)
    (htag : (lines i).tag = tag) :
    (lines i).status s = .invalid ∧ (lines i).isValidLine cfg.cacheType = false := by
  simp only [matchLine, htag, if_true] at h
  cases hst : (lines i).status s with
  | invalid => simpa [hst] using h
  | reserved => simp [hst] at h
  | valid => simp [hst] at h
  | modified =>
    cases hr : (lines i).readable s with
    | true => simp [hst, hr] at h
    | false => simp [hst, hr] at h

theorem idx_of_matchLine {i : Nat} {p : Probe} (h : cfg.matchLine lines tag s i = some p) :
    p.idx = i := by
  simp only [matchLine] at h
  grind [Probe.idx]

/-- A line that is remembered as a victim is one of those looked at. -/
theorem victim_considerVictim {v : Victims} {i j : Nat}
    (h : (cfg.considerVictim lines i v).invalidLine = some j ∨
      (cfg.considerVictim lines i v).validLine = some j) :
    j = i ∨ v.invalidLine = some j ∨ v.validLine = some j := by
  simp only [considerVictim] at h
  grind

/-- The line found is one of the set, and a lookup that found no line with the block has passed
all of them over. -/
theorem mem_probeWays {p : Probe} {is : List Nat} {v : Victims}
    (h : cfg.probeWays lines tag s is v = .ok p) :
    (p = .reservationFail ∨ p.idx ∈ is ∨ v.invalidLine = some p.idx ∨
        v.validLine = some p.idx) ∧
      (p = .miss p.idx → ∀ j ∈ is, cfg.matchLine lines tag s j = none) := by
  induction is generalizing v with
  | nil =>
    refine ⟨?_, by simp⟩
    simp only [probeWays] at h
    grind [Probe.idx]
  | cons i is ih =>
    simp only [probeWays] at h
    split at h
    case h_1 q hq =>
      obtain rfl := Except.ok.inj h
      refine ⟨.inr (.inl (by simp [idx_of_matchLine hq])), fun hm => ?_⟩
      rw [hm] at hq
      simp only [matchLine] at hq
      grind
    case h_2 hnone =>
      obtain ⟨hmem, hpassed⟩ := ih h
      refine ⟨?_, fun hm j hj => ?_⟩
      · obtain hf | hi | hv := hmem
        · exact .inl hf
        · exact .inr (.inl (List.mem_cons_of_mem _ hi))
        · obtain hi | hv := victim_considerVictim hv
          · exact .inr (.inl (by rw [hi]; exact List.mem_cons_self))
          · exact .inr (.inr hv)
      · obtain rfl | hj := List.mem_cons.mp hj
        · exact hnone
        · exact hpassed hm j hj

/-- What was found by its tag was found by `matchLine`. -/
theorem match_of_probeWays {p : Probe} {is : List Nat} {v : Victims}
    (h : cfg.probeWays lines tag s is v = .ok p) (hm : p ≠ .miss p.idx)
    (hf : p ≠ .reservationFail) : cfg.matchLine lines tag s p.idx = some p := by
  induction is generalizing v with
  | nil =>
    simp only [probeWays] at h
    grind [Probe.idx]
  | cons i is ih =>
    simp only [probeWays] at h
    split at h
    case h_1 q hq =>
      obtain rfl := Except.ok.inj h
      rw [idx_of_matchLine hq]
      exact hq
    case h_2 => exact ih h

/-- A sector that is there and misses all the same cannot be read. -/
theorem unreadable_of_sectorMiss {addr : BitVec 64} {i : Nat}
    (h : cfg.probe lines addr s = .ok (.sectorMiss i)) (hst : (lines i).status s = .modified) :
    (lines i).readable s = false := by
  have hmatch := match_of_probeWays h (by simp) (by simp)
  by_contra hr
  have hread : (lines i).readable s = true := by simpa using hr
  simp only [Probe.idx, matchLine, hst, hread] at hmatch
  split at hmatch <;> simp at hmatch

theorem idx_mem_ways {addr : BitVec 64} {p : Probe} (h : cfg.probe lines addr s = .ok p)
    (hf : p ≠ .reservationFail) : p.idx ∈ cfg.ways addr := by
  obtain h | h | h | h := (mem_probeWays h).1
  · exact absurd h hf
  · exact h
  · cases h
  · cases h

theorem passed_of_miss {addr : BitVec 64} {i : Nat} (h : cfg.probe lines addr s = .ok (.miss i)) :
    ∀ j ∈ cfg.ways addr, cfg.matchLine lines (cfg.getTag addr) s j = none :=
  (mem_probeWays h).2 rfl

theorem found_probe {addr : BitVec 64} {p : Probe} (h : cfg.probe lines addr s = .ok p) :
    Found lines (cfg.getTag addr) s p :=
  found_probeWays ⟨by simp, by simp⟩ h

end CacheConfig

/-- One line was claimed for the block `tag`, and its sector `s` has the status `st` now. A line
that was found by its tag keeps the rest of its sectors. -/
structure Claimed (lines lines' : Lines) (p : Probe) (tag : BitVec 64) (s : Sector)
    (st : CacheBlockState) : Prop where
  other : ∀ j, j ≠ p.idx → lines' j = lines j
  tag : (lines' p.idx).tag = tag
  status : (lines' p.idx).status =
    Function.update (if p = .miss p.idx then fun _ => .invalid else (lines p.idx).status) s st

/-- Something else is written into the sector. -/
theorem Claimed.store {lines lines' : Lines} {p : Probe} {tag : BitVec 64} {s : Sector}
    {st : CacheBlockState} (h : Claimed lines lines' p tag s st) {b : CacheBlock}
    {st' : CacheBlockState} (htag : b.tag = (lines' p.idx).tag)
    (hst : b.status = Function.update (lines' p.idx).status s st') :
    Claimed lines (Function.update lines' p.idx b) p tag s st' := by
  refine ⟨fun j hj => ?_, ?_, ?_⟩
  · rw [Function.update_of_ne hj, h.other j hj]
  · rw [Function.update_self, htag, h.tag]
  · rw [Function.update_self, hst, h.status, Function.update_idem]

/-- What else is written into a line does not matter for its tag and status. -/
theorem Claimed.congr {lines lines' : Lines} {p : Probe} {tag : BitVec 64} {s : Sector}
    {st : CacheBlockState} (h : Claimed lines lines' p tag s st) {b : CacheBlock}
    (htag : b.tag = (lines' p.idx).tag) (hst : b.status = (lines' p.idx).status) :
    Claimed lines (Function.update lines' p.idx b) p tag s st := by
  refine ⟨fun j hj => ?_, ?_, ?_⟩
  · rw [Function.update_of_ne hj, h.other j hj]
  · rw [Function.update_self, htag, h.tag]
  · rw [Function.update_self, hst, h.status]

namespace CacheConfig

variable {cfg : CacheConfig} {lines lines' : Lines} {s : Sector}

theorem getTag_getBlockAddr (addr : BitVec 64) :
    cfg.getTag (cfg.getBlockAddr addr) = cfg.getTag addr :=
  alignDown_alignDown _ _

/-- An access reports what a lookup finds, and on a cache that allocates on a miss it claims the
line; a hit leaves the status as it is. -/
theorem tagAccess_spec {addr : BitVec 64} {time : Nat} {p : Probe}
    {evicted : Option EvictedBlockInfo}
    (h : cfg.tagAccess lines addr time s = .ok (p, lines', evicted)) :
    cfg.probe lines addr s = .ok p ∧
      (cfg.allocPolicy = .onMiss →
        (p = .reservationFail ∧ lines' = lines) ∨
        (p = .hit p.idx ∧
          Claimed lines lines' p (cfg.getTag addr) s ((lines p.idx).status s)) ∨
        (p ≠ .reservationFail ∧ p ≠ .hit p.idx ∧
          Claimed lines lines' p (cfg.getTag addr) s .reserved)) := by
  simp only [tagAccess] at h
  obtain ⟨q, hq, h⟩ := bind_eq_ok.mp h
  have hf := found_probe hq
  cases q with
  | reservationFail =>
    obtain ⟨rfl, rfl, -⟩ : _ ∧ _ ∧ _ := by simpa using Except.ok.inj h
    exact ⟨hq, fun _ => .inl ⟨rfl, rfl⟩⟩
  | hitReserved i =>
    obtain ⟨rfl, rfl, -⟩ : _ ∧ _ ∧ _ := by simpa using Except.ok.inj h
    refine ⟨hq, fun _ => .inr (.inr ⟨by simp, by simp, fun j _ => rfl, ?_, ?_⟩)⟩
    · exact hf.tag i (.inl rfl)
    · rw [← hf.hitReserved i rfl]
      simp [Probe.idx]
  | hit i =>
    obtain ⟨rfl, rfl, -⟩ : _ ∧ _ ∧ _ := by simpa using Except.ok.inj h
    refine ⟨hq, fun _ => .inr (.inl ⟨rfl, fun j hj => Function.update_of_ne hj _ _, ?_, ?_⟩)⟩
    · simp only [Probe.idx, Function.update_self]
      exact hf.tag i (.inr (.inl rfl))
    · simp [Probe.idx, CacheBlock.setLastAccessTime]
  | sectorMiss i =>
    dsimp only at h
    split at h
    · cases h
    split at h
    case isFalse hp =>
      obtain ⟨rfl, -⟩ : _ ∧ _ := by simpa using Except.ok.inj h
      exact ⟨hq, fun hon => absurd hon hp⟩
    case isTrue =>
      obtain ⟨b, hb, h⟩ := bind_eq_ok.mp h
      obtain ⟨rfl, rfl, -⟩ : _ ∧ _ ∧ _ := by simpa using Except.ok.inj h
      unfold CacheBlock.allocateSector at hb
      split at hb
      case isFalse => cases hb
      case isTrue =>
        obtain rfl := Except.ok.inj hb
        refine ⟨hq, fun _ => .inr (.inr ⟨by simp, by simp, fun j hj => Function.update_of_ne hj _ _,
          ?_, ?_⟩)⟩
        · simp only [Probe.idx, Function.update_self]
          exact hf.tag i (.inr (.inr rfl))
        · simp [Probe.idx]
  | miss i =>
    dsimp only at h
    split at h
    case isFalse hp =>
      obtain ⟨rfl, -⟩ : _ ∧ _ := by simpa using Except.ok.inj h
      exact ⟨hq, fun hon => absurd hon hp⟩
    case isTrue =>
      obtain ⟨rfl, rfl, -⟩ : _ ∧ _ ∧ _ := by simpa using Except.ok.inj h
      refine ⟨hq, fun _ => .inr (.inr ⟨by simp, by simp, fun j hj => Function.update_of_ne hj _ _,
        ?_, ?_⟩)⟩
      · simp [Probe.idx, CacheBlock.allocate]
      · simp [Probe.idx, CacheBlock.allocate]

/-- An access that finds a line claims it, whatever it does with the sector then. -/
theorem tagAccess_claims {addr : BitVec 64} {time : Nat} {p : Probe}
    {evicted : Option EvictedBlockInfo}
    (h : cfg.tagAccess lines (cfg.getBlockAddr addr) time s = .ok (p, lines', evicted))
    (hon : cfg.allocPolicy = .onMiss) (hp : p ≠ .reservationFail) :
    ∃ st, Claimed lines lines' p (cfg.getTag addr) s st ∧ (p = .hit p.idx → st ≠ .reserved) := by
  obtain ⟨hq, hspec⟩ := tagAccess_spec h
  rw [getTag_getBlockAddr] at hspec
  obtain ⟨hf, -⟩ | ⟨hh, hc⟩ | ⟨-, hh, hc⟩ := hspec hon
  · exact absurd hf hp
  · exact ⟨_, hc, fun _ => (found_probe hq).hit _ hh⟩
  · exact ⟨_, hc, fun h => absurd h hh⟩

end CacheConfig

end NdpSim
