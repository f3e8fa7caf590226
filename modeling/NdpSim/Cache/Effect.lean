import NdpSim.Cache.Access

/-!
# The effect of an access

Whatever its policies, a cache does one of five things with a request: it refuses it, it passes it
on, it finds the data, it puts the data of a write into a line without waiting for the rest of the
sector, or it makes the request wait for the block. Here each of them is given in full, with the
lines, the table and the miss queue after it.
-/
namespace NdpSim

open Library

/-- The same block with one sector in another state. -/
structure CacheBlock.Rewrites (b b' : CacheBlock) (s : Sector) (st : CacheBlockState) : Prop where
  tag : b'.tag = b.tag
  blockAddr : b'.blockAddr = b.blockAddr
  status : b'.status = Function.update b.status s st

/-- What `TagArray::access` reports of a line it is about to claim for another block. -/
def CacheConfig.evictedInfo (cfg : CacheConfig) (b : CacheBlock) (s : Sector) :
    Option EvictedBlockInfo :=
  if b.isModifiedLine then
    some ⟨b.blockAddr, b.getModifiedSize cfg.cacheType, (b.status s).toNat⟩
  else none

/-- A line was found for a block it does not have yet, or not all of it. -/
structure Opened (cfg : CacheConfig) (lines lines' : Lines) (p : Probe) (addr : BitVec 64)
    (s : Sector) (evicted : Option EvictedBlockInfo) : Prop where
  other : ∀ j, j ≠ p.idx → lines' j = lines j
  claimed : p = .miss p.idx → cfg.allocPolicy = .onMiss →
    (lines' p.idx).tag = cfg.getTag addr ∧ (lines' p.idx).blockAddr = cfg.getBlockAddr addr ∧
      (lines' p.idx).status = Function.update (fun _ => .invalid) s .reserved ∧
      evicted = cfg.evictedInfo (lines p.idx) s
  kept : p ≠ .miss p.idx ∨ cfg.allocPolicy ≠ .onMiss → evicted = none ∧
    (lines p.idx).Rewrites (lines' p.idx) s
      (if cfg.allocPolicy = .onMiss then .reserved else (lines p.idx).status s)
  readable : p = .sectorMiss p.idx → cfg.allocPolicy = .onMiss →
    (lines' p.idx).readable s = true
  same : cfg.allocPolicy ≠ .onMiss → lines' = lines

namespace CacheConfig

variable {cfg : CacheConfig} {lines lines' : Lines} {s : Sector} {addr : BitVec 64} {time : Nat}
  {p : Probe} {evicted : Option EvictedBlockInfo}

theorem probe_of_tagAccess (h : cfg.tagAccess lines addr time s = .ok (p, lines', evicted)) :
    cfg.probe lines addr s = .ok p :=
  (tagAccess_spec h).1

/-- A hit is dated, and nothing else. -/
theorem tagAccess_hit {i : Nat}
    (h : cfg.tagAccess lines addr time s = .ok (.hit i, lines', evicted)) :
    lines' = Function.update lines i ((lines i).setLastAccessTime time) := by
  have hp := probe_of_tagAccess h
  simp only [tagAccess, hp] at h
  obtain ⟨-, h⟩ := Prod.mk.inj (Except.ok.inj h)
  exact (Prod.mk.inj h).1.symm

theorem tagAccess_opened (h : cfg.tagAccess lines addr time s = .ok (p, lines', evicted))
    (hh : p ≠ .hit p.idx) (hf : p ≠ .reservationFail) :
    Opened cfg lines lines' p addr s evicted := by
  have hp := probe_of_tagAccess h
  have hfound := found_probe hp
  have hsame (b : CacheBlock) : b.Rewrites b s (b.status s) := ⟨rfl, rfl, by simp⟩
  simp only [tagAccess] at h
  obtain ⟨q, hq, h⟩ := bind_eq_ok.mp h
  cases q with
  | reservationFail =>
    obtain ⟨rfl, -⟩ := Prod.mk.inj (Except.ok.inj h)
    exact absurd rfl hf
  | hit i =>
    obtain ⟨rfl, -⟩ := Prod.mk.inj (Except.ok.inj h)
    exact absurd rfl hh
  | hitReserved i =>
    obtain ⟨rfl, he⟩ := Prod.mk.inj (Except.ok.inj h)
    obtain ⟨rfl, rfl⟩ := Prod.mk.inj he
    refine ⟨fun _ _ => rfl, (fun hp => by cases hp), fun _ => ⟨rfl, ?_⟩, (fun hp => by cases hp),
      fun _ => rfl⟩
    split
    · have hst := hfound.hitReserved i rfl
      rw [← hst]
      exact hsame _
    · exact hsame _
  | sectorMiss i =>
    dsimp only at h
    split at h
    · cases h
    split at h
    case isFalse hon =>
      obtain ⟨rfl, he⟩ := Prod.mk.inj (Except.ok.inj h)
      obtain ⟨rfl, rfl⟩ := Prod.mk.inj he
      refine ⟨fun _ _ => rfl, (fun hp => by cases hp), fun _ => ⟨rfl, ?_⟩,
        fun _ ha => absurd ha hon, fun _ => rfl⟩
      rw [if_neg hon]
      exact hsame _
    case isTrue hon =>
      obtain ⟨b, hb, h⟩ := bind_eq_ok.mp h
      obtain ⟨rfl, he⟩ := Prod.mk.inj (Except.ok.inj h)
      obtain ⟨rfl, rfl⟩ := Prod.mk.inj he
      unfold CacheBlock.allocateSector at hb
      split at hb
      case isFalse => cases hb
      case isTrue =>
        obtain rfl := Except.ok.inj hb
        refine ⟨fun j hj => Function.update_of_ne hj _ _, (fun hp => by cases hp),
          fun _ => ⟨rfl, ?_⟩, fun _ _ => ?_, fun ha => absurd hon ha⟩
        · rw [if_pos hon]
          simp only [Probe.idx, Function.update_self]
          exact ⟨rfl, rfl, rfl⟩
        · simp [Probe.idx]
  | miss i =>
    dsimp only at h
    split at h
    case isFalse hon =>
      obtain ⟨rfl, he⟩ := Prod.mk.inj (Except.ok.inj h)
      obtain ⟨rfl, rfl⟩ := Prod.mk.inj he
      refine ⟨fun _ _ => rfl, fun _ ha => absurd ha hon, fun _ => ⟨rfl, ?_⟩,
        (fun hp => by cases hp), fun _ => rfl⟩
      rw [if_neg hon]
      exact hsame _
    case isTrue hon =>
      obtain ⟨rfl, he⟩ := Prod.mk.inj (Except.ok.inj h)
      obtain ⟨rfl, rfl⟩ := Prod.mk.inj he
      refine ⟨fun j hj => Function.update_of_ne hj _ _, fun _ _ => ?_, fun hk => ?_,
        (fun hp => by cases hp), fun ha => absurd hon ha⟩
      · simp only [Probe.idx, Function.update_self]
        exact ⟨rfl, rfl, rfl, rfl⟩
      · exact (hk.elim (fun h => h rfl) fun h => h hon).elim

end CacheConfig

inductive CacheKind
  | readOnly | data
  deriving DecidableEq

namespace Cache

def access (kind : CacheKind) (cfg : CacheConfig) (c : Cache) (mf : MemFetch) (time : Nat) :
    Except Fault (CacheRequestStatus × List CacheEvent × Cache) :=
  match kind with
  | .readOnly => c.readOnlyAccess cfg mf time
  | .data => c.dataAccess cfg mf time

/-! ## The five effects -/

/-- The write puts its data into the line without waiting for the rest of the sector. -/
def overwrites (cfg : CacheConfig) (mf : MemFetch) : Bool :=
  mf.isWrite && (cfg.writeAllocPolicy == .lazyFetchOnRead ||
    cfg.writeAllocPolicy == .fetchOnWrite && writesWholeAtom cfg mf)

/-- A miss of the access asks for the block. -/
def fetches (cfg : CacheConfig) (mf : MemFetch) : Bool :=
  !mf.isWrite || cfg.writeAllocPolicy == .writeAllocate ||
    cfg.writeAllocPolicy == .fetchOnWrite && !writesWholeAtom cfg mf

/-- A write that hits goes to memory as well. -/
def forwardsHit (cfg : CacheConfig) (mf : MemFetch) : Bool :=
  mf.isWrite && (cfg.writePolicy == .writeThrough || cfg.writePolicy == .writeEvict ||
    cfg.writePolicy == .localWbGlobalWt && !mf.fromNdp)

/-- A write that misses goes to memory as well. -/
def forwardsMiss (cfg : CacheConfig) (mf : MemFetch) : Bool :=
  mf.isWrite && (cfg.writeAllocPolicy == .writeAllocate ||
    cfg.writeAllocPolicy == .lazyFetchOnRead && cfg.writePolicy == .writeThrough)

/-- What a miss is reported as: `FETCH_ON_WRITE` reports every write as failed. -/
def missStatus (cfg : CacheConfig) (mf : MemFetch) : CacheRequestStatus :=
  if mf.isWrite && cfg.writeAllocPolicy == .fetchOnWrite then .reservationFail else .miss

/-- The write-backs of an eviction, numbered from `n`. -/
def writeBackPackets (n : Nat) (ev : EvictedBlockInfo) : List MemFetch :=
  (List.range (ev.modifiedSize / packetSize)).map fun i =>
    { id := n + i, addr := ev.blockAddr + BitVec.ofNat 64 (i * packetSize), isWrite := true,
      isAtomic := false, fromNdp := false, byteCount := 0, dataSize := packetSize,
      dirtyMask := ev.dirtyMask }

/-- A read-only cache and one that writes through write nothing back. -/
def evictedPackets (kind : CacheKind) (cfg : CacheConfig) (n : Nat)
    (evicted : Option EvictedBlockInfo) : List MemFetch :=
  if kind = .readOnly ∨ cfg.writePolicy = .writeThrough then []
  else evicted.toList.flatMap (writeBackPackets n)

/-- A line with the data of a write that waits for nothing. A fill that is still to come for the
sector should leave it alone. -/
def writtenBlock (cfg : CacheConfig) (p : Probe) (s : Sector) (b : CacheBlock) : CacheBlock :=
  let b := b.setStatus s .modified
  match cfg.writeAllocPolicy, p with
  | .lazyFetchOnRead, .hitReserved _ =>
    ((b.setIgnoreOnFill s true).setModifiedOnFill s true).setReadable s true
  | .lazyFetchOnRead, _ => b.setReadable s true
  | _, .hitReserved _ => b.setIgnoreOnFill s true
  | _, _ => b

/-- A request waits for its block: it joins those that wait already, or it is the first one and a
request goes to memory. -/
inductive Joins (cfg : CacheConfig) (c : Cache) (mf : MemFetch) (idx : Nat) :
    Binding (BitVec 64) MshrEntry → Binding Nat ExtraMfFields → List MemFetch → Prop
  | merged {e : MshrEntry} (lookup : c.table.lookup (cfg.getMshrAddr mf.addr) = some e)
      (room : e.list.length < cfg.mshrMaxMerge) :
      Joins cfg c mf idx
        (c.table.insert (cfg.getMshrAddr mf.addr) ⟨e.list ++ [mf], e.hasAtomic || mf.isAtomic⟩)
        c.extraMfFields []
  | requested (lookup : c.table.lookup (cfg.getMshrAddr mf.addr) = none)
      (room : c.table.entries.length < cfg.mshrEntries) :
      Joins cfg c mf idx (c.table.insert (cfg.getMshrAddr mf.addr) ⟨[mf], mf.isAtomic⟩)
        (c.extraMfFields.insert mf.id ⟨mf, cfg.getMshrAddr mf.addr, idx⟩)
        [{ mf with addr := cfg.getMshrAddr mf.addr, dataSize := cfg.atomSize }]

/-- The request that waits when `mf` misses: a read itself, for a write a read of its block. -/
def waiter (cfg : CacheConfig) (c : Cache) (mf : MemFetch) : MemFetch :=
  if mf.isWrite then c.allocateRead cfg mf else mf

/-- The checks a miss has to pass. -/
def missRoom (cfg : CacheConfig) (c : Cache) (mf : MemFetch) : Bool :=
  if overwrites cfg mf then !c.missQueueFull cfg 0
  else if mf.isWrite && cfg.writeAllocPolicy == .fetchOnWrite then
    !(c.missQueueFull cfg 1 || c.mshrFull cfg (cfg.getMshrAddr mf.addr) ||
      c.mshrProbe (cfg.getMshrAddr mf.addr) &&
        c.isReadAfterWritePending (cfg.getMshrAddr mf.addr))
  else true

/-- What the caller is told besides the status. -/
structure Tells (events : List CacheEvent) (write allocate : Bool) : Prop where
  write : .writeRequestSent ∈ events ↔ write = true
  allocate : .writeAllocateSent ∈ events ↔ allocate = true

/-- A write of `FETCH_ON_WRITE` that misses is refused for want of room only. -/
def Refusal (cfg : CacheConfig) (c : Cache) (mf : MemFetch) : Prop :=
  mf.isWrite = true → cfg.writeAllocPolicy = .fetchOnWrite → missRoom cfg c mf = true →
    ∃ p, cfg.probe c.lines (cfg.getBlockAddr mf.addr) (cfg.sectorOf mf) = .ok p ∧
      (p = .hit p.idx ∨ p = .reservationFail)

inductive Effect (kind : CacheKind) (cfg : CacheConfig) (c : Cache) (mf : MemFetch) (time : Nat) :
    CacheRequestStatus → List CacheEvent → Cache → Prop
  | refused (reason : Refusal cfg c mf) : Effect kind cfg c mf time .reservationFail [] c
  | forwarded {events : List CacheEvent} (tells : Tells events true false)
      (write : mf.isWrite = true) (policy : cfg.writeAllocPolicy = .noWriteAllocate) :
      Effect kind cfg c mf time .miss events (c.sendWriteRequest mf)
  | hit {events : List CacheEvent} {i : Nat} {b : CacheBlock} {st : CacheBlockState}
      (tells : Tells events (forwardsHit cfg mf) false)
      (probe : cfg.probe c.lines (cfg.getBlockAddr mf.addr) (cfg.sectorOf mf) = .ok (.hit i))
      (rewrites : (c.lines i).Rewrites b (cfg.sectorOf mf) st) (status : st ≠ .reserved) :
      Effect kind cfg c mf time .hit events
        { c with
          lines := Function.update c.lines i b
          missQueue := c.missQueue ++ if forwardsHit cfg mf then [mf] else [] }
  | overwritten {events : List CacheEvent} {p : Probe} {lines : Lines}
      {evicted : Option EvictedBlockInfo}
      (tells : Tells events (forwardsMiss cfg mf) false)
      (tag : cfg.tagAccess c.lines (cfg.getBlockAddr mf.addr) time (cfg.sectorOf mf) =
        .ok (p, lines, evicted))
      (missed : p ≠ .hit p.idx) (found : p ≠ .reservationFail)
      (whole : overwrites cfg mf = true) (room : missRoom cfg c mf = true) :
      Effect kind cfg c mf time (missStatus cfg mf) events
        { c with
          lines := Function.update lines p.idx
            (writtenBlock cfg p (cfg.sectorOf mf) (lines p.idx))
          missQueue := c.missQueue ++ (if forwardsMiss cfg mf then [mf] else []) ++
            evictedPackets kind cfg c.uid evicted
          uid := c.uid + (evictedPackets kind cfg c.uid evicted).length }
  | awaited {events : List CacheEvent} {p : Probe} {lines : Lines}
      {evicted : Option EvictedBlockInfo} {b : CacheBlock}
      {table : Binding (BitVec 64) MshrEntry} {extra : Binding Nat ExtraMfFields}
      {sent : List MemFetch} {uid : Nat}
      (tells : Tells events (forwardsMiss cfg mf)
        (mf.isWrite && cfg.writeAllocPolicy == .fetchOnWrite))
      (tag : cfg.tagAccess c.lines (cfg.getBlockAddr mf.addr) time (cfg.sectorOf mf) =
        .ok (p, lines, evicted))
      (missed : p ≠ .hit p.idx) (found : p ≠ .reservationFail)
      (fetched : fetches cfg mf = true) (room : missRoom cfg c mf = true)
      (rewrites : (lines p.idx).Rewrites b (cfg.sectorOf mf)
        ((lines p.idx).status (cfg.sectorOf mf)))
      (joins : Joins cfg c (waiter cfg c mf) p.idx table extra sent)
      (uids : uid = if mf.isWrite then c.uid + 1 else c.uid) :
      Effect kind cfg c mf time (missStatus cfg mf) events
        { c with
          lines := Function.update lines p.idx b
          table := table
          extraMfFields := extra
          missQueue := c.missQueue ++ (if forwardsMiss cfg mf then [mf] else []) ++ sent ++
            evictedPackets kind cfg uid evicted
          uid := uid + (evictedPackets kind cfg uid evicted).length }

/-! ## The read path -/

section Handlers

variable {kind : CacheKind} {cfg : CacheConfig} {c c' : Cache} {mf : MemFetch} {time : Nat}
  {p : Probe} {status : CacheRequestStatus} {events : List CacheEvent}

theorem refusal_of_read (hr : mf.isWrite = false) : Refusal cfg c mf :=
  fun hw => by simp [hr] at hw

theorem refusal_of_hit {i : Nat}
    (hp : cfg.probe c.lines (cfg.getBlockAddr mf.addr) (cfg.sectorOf mf) = .ok (.hit i)) :
    Refusal cfg c mf :=
  fun _ _ _ => ⟨_, hp, .inl rfl⟩

theorem refusal_of_fail
    (hp : cfg.probe c.lines (cfg.getBlockAddr mf.addr) (cfg.sectorOf mf) = .ok .reservationFail) :
    Refusal cfg c mf :=
  fun _ _ _ => ⟨_, hp, .inr rfl⟩

theorem refusal_of_policy (hpol : cfg.writeAllocPolicy ≠ .fetchOnWrite) : Refusal cfg c mf :=
  fun _ h => absurd h hpol

theorem refusal_of_full (hfull : missRoom cfg c mf = false) : Refusal cfg c mf :=
  fun _ _ h => by simp [hfull] at h

theorem writtenBlock_rewrites (cfg : CacheConfig) (p : Probe) (s : Sector) (b : CacheBlock) :
    b.Rewrites (writtenBlock cfg p s b) s .modified := by
  unfold writtenBlock
  dsimp only
  split <;> exact ⟨rfl, rfl, rfl⟩

theorem writeBackEvicted_eq (evicted : Option EvictedBlockInfo) :
    (c.writeBackEvicted cfg evicted).2 =
      { c with
        missQueue := c.missQueue ++ evictedPackets .data cfg c.uid evicted
        uid := c.uid + (evictedPackets .data cfg c.uid evicted).length } := by
  cases evicted with
  | none => simp [writeBackEvicted, evictedPackets]
  | some ev =>
    by_cases hwt : cfg.writePolicy = .writeThrough
    · simp [writeBackEvicted, evictedPackets, hwt]
    · simp [writeBackEvicted, evictedPackets, hwt, writeBack, writeBackPackets]

theorem tells_writeBackEvicted (evicted : Option EvictedBlockInfo) :
    Tells (c.writeBackEvicted cfg evicted).1 false false := by
  unfold writeBackEvicted
  cases evicted with
  | none => constructor <;> simp
  | some ev =>
    dsimp only
    split
    · constructor <;> simp
    · constructor <;> simp [writeBack]

theorem Tells.append {events' : List CacheEvent} {w w' a a' : Bool} (h : Tells events w a)
    (h' : Tells events' w' a') : Tells (events ++ events') (w || w') (a || a') := by
  constructor
  · rw [List.mem_append, h.write, h'.write, Bool.or_eq_true]
  · rw [List.mem_append, h.allocate, h'.allocate, Bool.or_eq_true]

theorem mshrAdd_eq_ok {B : BitVec 64} (h : c.mshrAdd cfg B mf = .ok c') :
    (∃ e, c.table.lookup B = some e ∧ e.list.length < cfg.mshrMaxMerge ∧
      c' = { c with table := c.table.insert B ⟨e.list ++ [mf], e.hasAtomic || mf.isAtomic⟩ }) ∨
    (c.table.lookup B = none ∧ c.table.entries.length < cfg.mshrEntries ∧
      c' = { c with table := c.table.insert B ⟨[mf], mf.isAtomic⟩ }) := by
  unfold mshrAdd at h
  split at h
  case isTrue => cases h
  case isFalse hfull =>
    obtain rfl := Except.ok.inj h
    unfold mshrFull at hfull
    cases he : c.table.lookup B with
    | some e =>
      simp only [he] at hfull
      exact .inl ⟨e, rfl, by simpa using hfull, by simp⟩
    | none =>
      simp only [he] at hfull
      exact .inr ⟨rfl, by simpa using hfull, by simp⟩

/-- The read path: the request waits, or there is no room and nothing happens. -/
theorem sendReadRequest_cases {wa doMiss : Bool} {evicted : Option EvictedBlockInfo}
    (h : c.sendReadRequest cfg mf time wa = .ok (doMiss, evicted, events, c')) :
    (doMiss = false ∧ events = [] ∧ c' = c ∧
      (c.mshrFull cfg (cfg.getMshrAddr mf.addr) = true ∨ c.missQueueFull cfg 0 = true)) ∨
    (doMiss = true ∧ Tells events false false ∧ ∃ p lines table extra sent,
      cfg.tagAccess c.lines (cfg.getBlockAddr mf.addr) time (cfg.sectorOf mf) =
        .ok (p, lines, evicted) ∧
      Joins cfg c mf p.idx table extra sent ∧
      c' = { c with
        lines := lines, table := table, extraMfFields := extra
        missQueue := c.missQueue ++ sent }) := by
  simp only [sendReadRequest] at h
  split at h
  case isTrue hhit =>
    obtain ⟨⟨p, lines, ev⟩, ht, h⟩ := bind_eq_ok.mp h
    obtain ⟨c₁, ha, h⟩ := bind_eq_ok.mp h
    obtain ⟨rfl, rfl, rfl, rfl⟩ : _ ∧ _ ∧ _ ∧ _ := by simpa using Except.ok.inj h
    obtain ⟨e, he, hroom, rfl⟩ | ⟨hn, -, -⟩ := mshrAdd_eq_ok ha
    · refine .inr ⟨rfl, ⟨by simp, by simp⟩, p, lines, _, _, _, ht, .merged he hroom, ?_⟩
      simp
    · simp only [mshrProbe, Bool.and_eq_true] at hhit
      have hsome := hhit.1
      rw [show c.table.lookup _ = none from hn] at hsome
      cases hsome
  case isFalse hhit =>
    split at h
    case isTrue hnew =>
      obtain ⟨⟨p, lines, ev⟩, ht, h⟩ := bind_eq_ok.mp h
      obtain ⟨c₁, ha, h⟩ := bind_eq_ok.mp h
      obtain ⟨rfl, rfl, rfl, rfl⟩ : _ ∧ _ ∧ _ ∧ _ := by simpa using Except.ok.inj h
      obtain ⟨e, he, -, -⟩ | ⟨hn, hroom, rfl⟩ := mshrAdd_eq_ok ha
      · simp only [mshrProbe, Bool.and_eq_true, Bool.not_eq_true'] at hnew
        have hnone := hnew.1.1
        rw [show c.table.lookup _ = some e from he] at hnone
        cases hnone
      · refine .inr ⟨rfl, ?_, p, lines, _, _, _, ht, .requested hn hroom, rfl⟩
        cases wa <;> exact ⟨by simp, by simp⟩
    case isFalse hnew =>
      obtain ⟨rfl, rfl, rfl, rfl⟩ : _ ∧ _ ∧ _ ∧ _ := by simpa using Except.ok.inj h
      refine .inl ⟨rfl, rfl, rfl, ?_⟩
      grind

theorem joins_congr {idx : Nat} {table : Binding (BitVec 64) MshrEntry}
    {extra : Binding Nat ExtraMfFields} {sent : List MemFetch}
    (h : Joins cfg c' mf idx table extra sent) (htable : c'.table = c.table)
    (hextra : c'.extraMfFields = c.extraMfFields) : Joins cfg c mf idx table extra sent := by
  cases h with
  | merged lookup room =>
    rw [htable] at lookup ⊢
    rw [hextra]
    exact .merged lookup room
  | requested lookup room =>
    rw [htable] at lookup room ⊢
    rw [hextra]
    exact .requested lookup room

/-- The block stays as it is. -/
theorem rewrites_self (b : CacheBlock) (s : Sector) : b.Rewrites b s (b.status s) :=
  ⟨rfl, rfl, by simp⟩

/-- A hit that leaves the sector in state `st`. -/
theorem effect_of_hit {i : Nat} {b : CacheBlock} {st : CacheBlockState}
    (hp : cfg.probe c.lines (cfg.getBlockAddr mf.addr) (cfg.sectorOf mf) = .ok (.hit i))
    (hb : (c.lines i).Rewrites b (cfg.sectorOf mf) st) (hst : st ≠ .reserved)
    (htells : Tells events (forwardsHit cfg mf) false)
    (hc' : c' = { c with
      lines := Function.update c.lines i b
      missQueue := c.missQueue ++ if forwardsHit cfg mf then [mf] else [] }) :
    Effect kind cfg c mf time .hit events c' := by
  rw [hc']
  exact .hit htells hp hb hst

/-- The same after the access was dated. -/
theorem effect_of_dated {i : Nat} {lines : Lines} {evicted : Option EvictedBlockInfo}
    {b : CacheBlock} {st : CacheBlockState}
    (ht : cfg.tagAccess c.lines (cfg.getBlockAddr mf.addr) time (cfg.sectorOf mf) =
      .ok (.hit i, lines, evicted))
    (hb : (lines i).Rewrites b (cfg.sectorOf mf) st) (hst : st ≠ .reserved)
    (htells : Tells events (forwardsHit cfg mf) false)
    (hc' : c' = { c with
      lines := Function.update lines i b
      missQueue := c.missQueue ++ if forwardsHit cfg mf then [mf] else [] }) :
    Effect kind cfg c mf time .hit events c' := by
  have hdated := CacheConfig.tagAccess_hit ht
  rw [hdated, Function.update_self] at hb
  rw [hdated, Function.update_idem] at hc'
  exact effect_of_hit (CacheConfig.probe_of_tagAccess ht) ⟨hb.tag, hb.blockAddr, hb.status⟩ hst
    htells hc'

/-- The request waits, after the checks of its cache. -/
theorem effect_of_awaited {lines : Lines} {evicted : Option EvictedBlockInfo} {b : CacheBlock}
    {table : Binding (BitVec 64) MshrEntry} {extra : Binding Nat ExtraMfFields}
    {sent packets : List MemFetch} {n : Nat}
    (ht : cfg.tagAccess c.lines (cfg.getBlockAddr mf.addr) time (cfg.sectorOf mf) =
      .ok (p, lines, evicted))
    (hh : p ≠ .hit p.idx) (hf : p ≠ .reservationFail) (hfetch : fetches cfg mf = true)
    (hroom : missRoom cfg c mf = true)
    (hb : (lines p.idx).Rewrites b (cfg.sectorOf mf) ((lines p.idx).status (cfg.sectorOf mf)))
    (hjoins : Joins cfg c (waiter cfg c mf) p.idx table extra sent)
    (hn : n = if mf.isWrite then c.uid + 1 else c.uid)
    (hpackets : packets = evictedPackets kind cfg n evicted)
    (htells : Tells events (forwardsMiss cfg mf)
      (mf.isWrite && cfg.writeAllocPolicy == .fetchOnWrite))
    (hstatus : status = missStatus cfg mf)
    (hc' : c' = { c with
      lines := Function.update lines p.idx b
      table := table
      extraMfFields := extra
      missQueue := c.missQueue ++ (if forwardsMiss cfg mf then [mf] else []) ++ sent ++ packets
      uid := n + packets.length }) : Effect kind cfg c mf time status events c' := by
  rw [hstatus, hc', hpackets]
  exact .awaited htells ht hh hf hfetch hroom hb hjoins hn

/-! ## Reads -/

theorem effect_rdHitBase {i : Nat} (hr : mf.isWrite = false)
    (hp : cfg.probe c.lines (cfg.getBlockAddr mf.addr) (cfg.sectorOf mf) = .ok (.hit i))
    (h : c.rdHitBase cfg mf time = .ok (status, events, c')) :
    Effect kind cfg c mf time status events c' := by
  simp only [rdHitBase] at h
  obtain ⟨⟨q, lines, ev⟩, ht, h⟩ := bind_eq_ok.mp h
  obtain rfl : q = .hit i := Except.ok.inj ((CacheConfig.probe_of_tagAccess ht).symm.trans hp)
  obtain ⟨rfl, rfl, rfl⟩ : _ ∧ _ ∧ _ := by simpa using Except.ok.inj h
  have hno : forwardsHit cfg mf = false := by simp [forwardsHit, hr]
  by_cases ha : mf.isAtomic = true
  · have hb : (lines i).Rewrites ((lines i).setStatus (cfg.sectorOf mf) .modified)
        (cfg.sectorOf mf) .modified := ⟨rfl, rfl, rfl⟩
    exact effect_of_dated ht hb (by simp) ⟨by simp [hno], by simp⟩ (by simp [ha, hno, Probe.idx])
  · refine effect_of_dated ht (rewrites_self (lines i) _) ?_ ⟨by simp [hno], by simp⟩
      (by simp [ha, hno])
    rw [CacheConfig.tagAccess_hit ht, Function.update_self]
    exact (CacheConfig.found_probe hp).hit i rfl

/-- A read that misses, after the checks of its cache. -/
theorem effect_of_read {wa doMiss : Bool} {evicted : Option EvictedBlockInfo}
    {events₁ : List CacheEvent} {c₁ : Cache}
    (hp : cfg.probe c.lines (cfg.getBlockAddr mf.addr) (cfg.sectorOf mf) = .ok p)
    (hh : p ≠ .hit p.idx) (hf : p ≠ .reservationFail) (hr : mf.isWrite = false)
    (hs : c.sendReadRequest cfg mf time wa = .ok (doMiss, evicted, events₁, c₁))
    (hstatus : status = if doMiss then .miss else .reservationFail)
    (hrefused : doMiss = false → events = events₁ ∧ c' = c₁)
    (htaken : doMiss = true →
      (∃ events₂, events = events₁ ++ events₂ ∧ Tells events₂ false false) ∧
      c' = { c₁ with
        missQueue := c₁.missQueue ++ evictedPackets kind cfg c₁.uid evicted
        uid := c₁.uid + (evictedPackets kind cfg c₁.uid evicted).length }) :
    Effect kind cfg c mf time status events c' := by
  obtain ⟨rfl, rfl, rfl, -⟩ | ⟨rfl, htells, q, lines, table, extra, sent, ht, hjoins, rfl⟩ :=
    sendReadRequest_cases hs
  · obtain ⟨rfl, rfl⟩ := hrefused rfl
    rw [hstatus]
    exact .refused (refusal_of_read hr)
  · obtain ⟨⟨events₂, rfl, htells₂⟩, hc'⟩ := htaken rfl
    obtain rfl : q = p := Except.ok.inj ((CacheConfig.probe_of_tagAccess ht).symm.trans hp)
    have hall := htells.append htells₂
    refine effect_of_awaited (n := c.uid) ht hh hf (by simp [fetches, hr])
      (by simp [missRoom, overwrites, hr]) (rewrites_self (lines q.idx) _)
      (by simpa [waiter, hr] using hjoins) (by simp [hr]) rfl
      (by simpa [forwardsMiss, hr] using hall) (by simpa [missStatus, hr] using hstatus) ?_
    simp [hc', forwardsMiss, hr]

theorem effect_rdMissBase
    (hp : cfg.probe c.lines (cfg.getBlockAddr mf.addr) (cfg.sectorOf mf) = .ok p)
    (hh : p ≠ .hit p.idx) (hf : p ≠ .reservationFail) (hr : mf.isWrite = false)
    (h : c.rdMissBase cfg mf time = .ok (status, events, c')) :
    Effect .data cfg c mf time status events c' := by
  simp only [rdMissBase] at h
  split at h
  case isTrue =>
    obtain ⟨rfl, rfl, rfl⟩ : _ ∧ _ ∧ _ := by simpa using Except.ok.inj h
    exact .refused (refusal_of_read hr)
  case isFalse =>
    obtain ⟨⟨doMiss, evicted, ev, c₁⟩, hs, h⟩ := bind_eq_ok.mp h
    dsimp only at h
    split at h
    case isTrue hd =>
      obtain ⟨rfl, he⟩ := Prod.mk.inj (Except.ok.inj h)
      obtain ⟨rfl, rfl⟩ := Prod.mk.inj he
      exact effect_of_read hp hh hf hr hs (by simp [hd]) (by simp [hd])
        fun _ => ⟨⟨_, rfl, tells_writeBackEvicted evicted⟩, writeBackEvicted_eq evicted⟩
    case isFalse hd =>
      obtain ⟨rfl, rfl, rfl⟩ : _ ∧ _ ∧ _ := by simpa using Except.ok.inj h
      exact effect_of_read hp hh hf hr hs (by simp [hd]) (fun _ => ⟨rfl, rfl⟩)
        fun hd' => absurd hd' hd

theorem effect_readOnlyAccess (h : c.readOnlyAccess cfg mf time = .ok (status, events, c')) :
    Effect .readOnly cfg c mf time status events c' := by
  simp only [readOnlyAccess] at h
  split at h
  case isTrue => cases h
  case isFalse hok =>
    have hr : mf.isWrite = false := by simp at hok; exact hok.2.2
    obtain ⟨p, hp, h⟩ := bind_eq_ok.mp h
    cases p with
    | hit i =>
      obtain ⟨⟨q, lines, ev⟩, ht, h⟩ := bind_eq_ok.mp h
      obtain rfl : q = .hit i := Except.ok.inj ((CacheConfig.probe_of_tagAccess ht).symm.trans hp)
      obtain ⟨rfl, rfl, rfl⟩ : _ ∧ _ ∧ _ := by simpa using Except.ok.inj h
      have hno : forwardsHit cfg mf = false := by simp [forwardsHit, hr]
      refine effect_of_dated ht (rewrites_self (lines i) _) ?_ ⟨by simp [hno], by simp⟩
        (by simp [hno])
      rw [CacheConfig.tagAccess_hit ht, Function.update_self]
      exact (CacheConfig.found_probe hp).hit i rfl
    | reservationFail =>
      obtain ⟨rfl, rfl, rfl⟩ : _ ∧ _ ∧ _ := by simpa using Except.ok.inj h
      exact .refused (refusal_of_read hr)
    | _ i =>
      dsimp only at h
      split at h
      case isTrue =>
        obtain ⟨rfl, rfl, rfl⟩ : _ ∧ _ ∧ _ := by simpa using Except.ok.inj h
        exact .refused (refusal_of_read hr)
      case isFalse =>
        obtain ⟨⟨doMiss, evicted, ev, c₁⟩, hs, h⟩ := bind_eq_ok.mp h
        obtain ⟨rfl, rfl, rfl⟩ : _ ∧ _ ∧ _ := by simpa using Except.ok.inj h
        refine effect_of_read hp (by simp [Probe.idx]) (by simp) hr hs rfl (fun _ => ⟨rfl, rfl⟩)
          fun _ => ⟨⟨[], (List.append_nil _).symm, ⟨by simp, by simp⟩⟩, by simp [evictedPackets]⟩

/-! ## Writes -/

theorem effect_wrHitWb {i : Nat} (hw : forwardsHit cfg mf = false)
    (hp : cfg.probe c.lines (cfg.getBlockAddr mf.addr) (cfg.sectorOf mf) = .ok (.hit i))
    (h : c.wrHitWb cfg mf time = .ok (status, events, c')) :
    Effect kind cfg c mf time status events c' := by
  simp only [wrHitWb] at h
  obtain ⟨⟨q, lines, ev⟩, ht, h⟩ := bind_eq_ok.mp h
  obtain rfl : q = .hit i := Except.ok.inj ((CacheConfig.probe_of_tagAccess ht).symm.trans hp)
  obtain ⟨rfl, rfl, rfl⟩ : _ ∧ _ ∧ _ := by simpa using Except.ok.inj h
  have hb : (lines i).Rewrites ((lines i).setStatus (cfg.sectorOf mf) .modified)
      (cfg.sectorOf mf) .modified := ⟨rfl, rfl, rfl⟩
  exact effect_of_dated ht hb (by simp) ⟨by simp [hw], by simp⟩ (by simp [hw, Probe.idx])

theorem effect_wrHitWt {i : Nat} (hw : forwardsHit cfg mf = true)
    (hp : cfg.probe c.lines (cfg.getBlockAddr mf.addr) (cfg.sectorOf mf) = .ok (.hit i))
    (h : c.wrHitWt cfg mf time = .ok (status, events, c')) :
    Effect kind cfg c mf time status events c' := by
  simp only [wrHitWt] at h
  split at h
  case isTrue =>
    obtain ⟨rfl, rfl, rfl⟩ : _ ∧ _ ∧ _ := by simpa using Except.ok.inj h
    exact .refused (refusal_of_hit hp)
  case isFalse =>
    obtain ⟨⟨st, ev, c₁⟩, hwb, h⟩ := bind_eq_ok.mp h
    simp only [wrHitWb] at hwb
    obtain ⟨⟨q, lines, evicted⟩, ht, hwb⟩ := bind_eq_ok.mp hwb
    obtain rfl : q = .hit i := Except.ok.inj ((CacheConfig.probe_of_tagAccess ht).symm.trans hp)
    obtain ⟨rfl, rfl, rfl⟩ : _ ∧ _ ∧ _ := by simpa using Except.ok.inj hwb
    obtain ⟨rfl, rfl, rfl⟩ : _ ∧ _ ∧ _ := by simpa using Except.ok.inj h
    have hb : (lines i).Rewrites ((lines i).setStatus (cfg.sectorOf mf) .modified)
        (cfg.sectorOf mf) .modified := ⟨rfl, rfl, rfl⟩
    exact effect_of_dated ht hb (by simp) ⟨by simp [hw], by simp⟩
      (by simp [hw, sendWriteRequest, Probe.idx])

theorem effect_wrHitWe {i : Nat} (hw : forwardsHit cfg mf = true)
    (hp : cfg.probe c.lines (cfg.getBlockAddr mf.addr) (cfg.sectorOf mf) = .ok (.hit i))
    (h : c.wrHitWe cfg mf i = .ok (status, events, c')) :
    Effect kind cfg c mf time status events c' := by
  simp only [wrHitWe] at h
  split at h
  case isTrue =>
    obtain ⟨rfl, rfl, rfl⟩ : _ ∧ _ ∧ _ := by simpa using Except.ok.inj h
    exact .refused (refusal_of_hit hp)
  case isFalse =>
    obtain ⟨rfl, rfl, rfl⟩ : _ ∧ _ ∧ _ := by simpa using Except.ok.inj h
    have hb : (c.lines i).Rewrites ((c.lines i).setStatus (cfg.sectorOf mf) .invalid)
        (cfg.sectorOf mf) .invalid := ⟨rfl, rfl, rfl⟩
    exact effect_of_hit hp hb (by simp) ⟨by simp [hw], by simp⟩ (by simp [hw, sendWriteRequest])

theorem effect_wrHit {i : Nat} (hw : mf.isWrite = true)
    (hp : cfg.probe c.lines (cfg.getBlockAddr mf.addr) (cfg.sectorOf mf) = .ok (.hit i))
    (h : c.wrHit cfg mf time i = .ok (status, events, c')) :
    Effect kind cfg c mf time status events c' := by
  simp only [wrHit] at h
  split at h
  · cases h
  case h_2 hpol => exact effect_wrHitWb (by simp [forwardsHit, hpol]) hp h
  case h_3 hpol => exact effect_wrHitWt (by simp [forwardsHit, hpol, hw]) hp h
  case h_4 hpol => exact effect_wrHitWe (by simp [forwardsHit, hpol, hw]) hp h
  case h_5 hpol =>
    split at h
    case isTrue hn => exact effect_wrHitWb (by simp [forwardsHit, hpol, hn]) hp h
    case isFalse hn => exact effect_wrHitWe (by simp [forwardsHit, hpol, hw, hn]) hp h

theorem effect_wrMissNoWa (hw : mf.isWrite = true)
    (hpol : cfg.writeAllocPolicy = .noWriteAllocate)
    (h : c.wrMissNoWa cfg mf = .ok (status, events, c')) :
    Effect kind cfg c mf time status events c' := by
  simp only [wrMissNoWa] at h
  split at h
  · obtain ⟨rfl, rfl, rfl⟩ : _ ∧ _ ∧ _ := by simpa using Except.ok.inj h
    exact .refused (refusal_of_policy (by simp [hpol]))
  · obtain ⟨rfl, rfl, rfl⟩ : _ ∧ _ ∧ _ := by simpa using Except.ok.inj h
    exact .forwarded ⟨by simp, by simp⟩ hw hpol

theorem effect_wrMissWaNaive
    (hp : cfg.probe c.lines (cfg.getBlockAddr mf.addr) (cfg.sectorOf mf) = .ok p)
    (hh : p ≠ .hit p.idx) (hf : p ≠ .reservationFail) (hw : mf.isWrite = true)
    (hpol : cfg.writeAllocPolicy = .writeAllocate)
    (h : c.wrMissWaNaive cfg mf time = .ok (status, events, c')) :
    Effect .data cfg c mf time status events c' := by
  simp only [wrMissWaNaive] at h
  split at h
  case isTrue =>
    obtain ⟨rfl, rfl, rfl⟩ : _ ∧ _ ∧ _ := by simpa using Except.ok.inj h
    exact .refused (refusal_of_policy (by simp [hpol]))
  case isFalse hroom =>
    obtain ⟨⟨doMiss, evicted, ev, c₁⟩, hs, h⟩ := bind_eq_ok.mp h
    obtain ⟨-, -, -, hfull⟩ |
        ⟨rfl, htells, q, lines, table, extra, sent, ht, hjoins, rfl⟩ := sendReadRequest_cases hs
    · -- the checks before leave room for the read behind the write
      simp only [Bool.or_eq_true, not_or, missQueueFull, decide_eq_true_eq] at hroom
      obtain hfull | hfull := hfull
      · exact absurd hfull hroom.2
      · simp only [missQueueFull, decide_eq_true_eq, sendWriteRequest, List.length_append,
          List.length_singleton] at hfull
        omega
    · obtain rfl : q = p := Except.ok.inj ((CacheConfig.probe_of_tagAccess ht).symm.trans hp)
      simp only [if_true] at h
      obtain ⟨rfl, he⟩ := Prod.mk.inj (Except.ok.inj h)
      obtain ⟨rfl, rfl⟩ := Prod.mk.inj he
      have hsent : Tells [CacheEvent.writeRequestSent] true false := ⟨by simp, by simp⟩
      have hforward : forwardsMiss cfg mf = true := by simp [forwardsMiss, hw, hpol]
      have hfow : (mf.isWrite && cfg.writeAllocPolicy == .fetchOnWrite) = false := by
        rw [hw, hpol]
        rfl
      have hjoins' : Joins cfg c (waiter cfg c mf) q.idx table extra sent := by
        rw [waiter, if_pos hw]
        exact joins_congr hjoins rfl rfl
      refine effect_of_awaited (n := c.uid + 1) ht hh hf (by simp [fetches, hpol])
        (by simp [missRoom, overwrites, hpol]) (rewrites_self (lines q.idx) _) hjoins'
        (by simp [hw]) rfl ?_ (by simp [missStatus, hfow]) ?_
      · rw [hforward, hfow]
        exact (hsent.append htells).append (tells_writeBackEvicted evicted)
      · rw [writeBackEvicted_eq]
        simp [hforward, sendWriteRequest]

/-- A write that puts its data into the line at once. -/
theorem effect_of_overwrite {lines : Lines} {evicted : Option EvictedBlockInfo}
    {events₁ : List CacheEvent} {c₁ : Cache}
    (hh : p ≠ .hit p.idx) (hf : p ≠ .reservationFail) (hover : overwrites cfg mf = true)
    (hroom : missRoom cfg c mf = true)
    (ht : cfg.tagAccess c.lines (cfg.getBlockAddr mf.addr) time (cfg.sectorOf mf) =
      .ok (p, lines, evicted))
    (hc₁ : c₁ = { c with
      lines := Function.update lines p.idx
        (writtenBlock cfg p (cfg.sectorOf mf) (lines p.idx))
      missQueue := c.missQueue ++ if forwardsMiss cfg mf then [mf] else [] })
    (htells : Tells events₁ (forwardsMiss cfg mf) false) (hstatus : status = missStatus cfg mf) :
    Effect .data cfg c mf time status (events₁ ++ (c₁.writeBackEvicted cfg evicted).1)
      (c₁.writeBackEvicted cfg evicted).2 := by
  rw [writeBackEvicted_eq, hstatus]
  have hwb : Tells (c₁.writeBackEvicted cfg evicted).1 false false :=
    tells_writeBackEvicted evicted
  have hall := htells.append hwb
  rw [Bool.or_false, Bool.or_false] at hall
  subst hc₁
  exact .overwritten hall ht hh hf hover hroom

theorem effect_wrMissWaFetchOnWrite
    (hp : cfg.probe c.lines (cfg.getBlockAddr mf.addr) (cfg.sectorOf mf) = .ok p)
    (hh : p ≠ .hit p.idx) (hf : p ≠ .reservationFail) (hw : mf.isWrite = true)
    (hpol : cfg.writeAllocPolicy = .fetchOnWrite)
    (h : c.wrMissWaFetchOnWrite cfg mf time p = .ok (status, events, c')) :
    Effect .data cfg c mf time status events c' := by
  have hno : forwardsMiss cfg mf = false := by simp [forwardsMiss, hpol]
  have hstatus : missStatus cfg mf = .reservationFail := by simp [missStatus, hpol, hw]
  simp only [wrMissWaFetchOnWrite] at h
  split at h
  case isTrue hwhole =>
    have hover : overwrites cfg mf = true := by simp [overwrites, hw, hpol, hwhole]
    split at h
    case isTrue hfull =>
      obtain ⟨rfl, rfl, rfl⟩ : _ ∧ _ ∧ _ := by simpa using Except.ok.inj h
      exact .refused (refusal_of_full (by simp [missRoom, hover, hfull]))
    case isFalse hroom =>
      obtain ⟨⟨q, lines, evicted⟩, ht, h⟩ := bind_eq_ok.mp h
      obtain rfl : q = p := Except.ok.inj ((CacheConfig.probe_of_tagAccess ht).symm.trans hp)
      obtain ⟨rfl, he⟩ := Prod.mk.inj (Except.ok.inj h)
      obtain ⟨rfl, rfl⟩ := Prod.mk.inj he
      have htells : Tells [] (forwardsMiss cfg mf) false := ⟨by simp [hno], by simp⟩
      change Effect .data cfg c mf time .reservationFail ([] ++ _) _
      refine effect_of_overwrite hh hf hover (by simp [missRoom, hover, hroom]) ht ?_ htells
        hstatus.symm
      simp only [hno, Bool.false_eq_true, if_false, List.append_nil, writtenBlock, hpol]
      cases q <;> rfl
  case isFalse hpart =>
    have hover : overwrites cfg mf = false := by simp [overwrites, hpol, hpart]
    split at h
    case isTrue hfull =>
      obtain ⟨rfl, rfl, rfl⟩ : _ ∧ _ ∧ _ := by simpa using Except.ok.inj h
      refine .refused (refusal_of_full ?_)
      rw [missRoom, hover, hw, hpol]
      exact congrArg not hfull
    case isFalse hroom =>
      obtain ⟨⟨doMiss, evicted, ev, c₁⟩, hs, h⟩ := bind_eq_ok.mp h
      obtain ⟨rfl, he⟩ := Prod.mk.inj (Except.ok.inj h)
      obtain ⟨rfl, rfl⟩ := Prod.mk.inj he
      obtain ⟨-, -, -, hfull⟩ |
          ⟨rfl, htells, q, lines, table, extra, sent, ht, hjoins, rfl⟩ := sendReadRequest_cases hs
      · -- the checks before leave room in the table and in the queue
        simp only [Bool.or_eq_true, not_or, missQueueFull, decide_eq_true_eq] at hroom
        obtain hfull | hfull := hfull
        · exact absurd hfull hroom.1.2
        · simp only [missQueueFull, decide_eq_true_eq] at hfull
          omega
      · obtain rfl : q = p := Except.ok.inj ((CacheConfig.probe_of_tagAccess ht).symm.trans hp)
        have hjoins' : Joins cfg c (waiter cfg c mf) q.idx table extra sent := by
          rw [waiter, if_pos hw]
          exact joins_congr hjoins rfl rfl
        have hsent : Tells [CacheEvent.writeAllocateSent] false true := ⟨by simp, by simp⟩
        refine effect_of_awaited (n := c.uid + 1)
          (b := (lines q.idx).setModifiedOnFill (cfg.sectorOf mf) true) ht hh hf
          (by simp [fetches, hpol, hpart]) ?_ ⟨rfl, rfl, ?_⟩ hjoins' (by simp [hw]) rfl ?_
          hstatus.symm ?_
        · rw [missRoom, hover, hw, hpol]
          exact congrArg not (Bool.eq_false_of_not_eq_true hroom)
        · simp [CacheBlock.setModifiedOnFill]
        · rw [hno, hw, hpol]
          exact htells.append (hsent.append (tells_writeBackEvicted evicted))
        · rw [writeBackEvicted_eq]
          simp [hno]

theorem effect_wrMissWaLazyFetchOnRead
    (hp : cfg.probe c.lines (cfg.getBlockAddr mf.addr) (cfg.sectorOf mf) = .ok p)
    (hh : p ≠ .hit p.idx) (hf : p ≠ .reservationFail) (hw : mf.isWrite = true)
    (hpol : cfg.writeAllocPolicy = .lazyFetchOnRead)
    (h : c.wrMissWaLazyFetchOnRead cfg mf time = .ok (status, events, c')) :
    Effect .data cfg c mf time status events c' := by
  have hover : overwrites cfg mf = true := by simp [overwrites, hw, hpol]
  have hfow : (mf.isWrite && cfg.writeAllocPolicy == .fetchOnWrite) = false := by
    rw [hw, hpol]
    rfl
  simp only [wrMissWaLazyFetchOnRead] at h
  split at h
  case isTrue =>
    obtain ⟨rfl, rfl, rfl⟩ : _ ∧ _ ∧ _ := by simpa using Except.ok.inj h
    exact .refused (refusal_of_policy (by simp [hpol]))
  case isFalse hroom =>
    obtain ⟨⟨q, lines, evicted⟩, ht, h⟩ := bind_eq_ok.mp h
    have ht' : cfg.tagAccess c.lines (cfg.getBlockAddr mf.addr) time (cfg.sectorOf mf) =
        .ok (q, lines, evicted) := by
      rw [← ht]
      split <;> rfl
    obtain rfl : q = p := Except.ok.inj ((CacheConfig.probe_of_tagAccess ht').symm.trans hp)
    obtain ⟨rfl, he⟩ := Prod.mk.inj (Except.ok.inj h)
    obtain ⟨rfl, rfl⟩ := Prod.mk.inj he
    refine effect_of_overwrite hh hf hover (by simp [missRoom, hover, hroom]) ht' ?_ ?_
      (by simp [missStatus, hfow])
    · simp only [writtenBlock, hpol]
      by_cases hwt : cfg.writePolicy = .writeThrough
      · cases q <;> simp [hwt, forwardsMiss, hw, hpol, sendWriteRequest]
      · cases q <;> simp [hwt, forwardsMiss, hpol]
    · by_cases hwt : cfg.writePolicy = .writeThrough
      · simp only [hwt, if_true]
        exact ⟨by simp [forwardsMiss, hwt, hw, hpol], by simp⟩
      · simp only [hwt, if_false]
        exact ⟨by simp [forwardsMiss, hwt, hpol], by simp⟩

theorem effect_wrMiss
    (hp : cfg.probe c.lines (cfg.getBlockAddr mf.addr) (cfg.sectorOf mf) = .ok p)
    (hh : p ≠ .hit p.idx)
    (hf : p = .reservationFail → cfg.writeAllocPolicy = .noWriteAllocate) (hw : mf.isWrite = true)
    (h : c.wrMiss cfg mf time p = .ok (status, events, c')) :
    Effect .data cfg c mf time status events c' := by
  simp only [wrMiss] at h
  split at h
  case h_1 hpol => exact effect_wrMissNoWa hw hpol h
  case h_2 hpol => exact effect_wrMissWaNaive hp hh (fun he => by simp [hf he] at hpol) hw hpol h
  case h_3 hpol =>
    exact effect_wrMissWaFetchOnWrite hp hh (fun he => by simp [hf he] at hpol) hw hpol h
  case h_4 hpol =>
    exact effect_wrMissWaLazyFetchOnRead hp hh (fun he => by simp [hf he] at hpol) hw hpol h

theorem effect_dataAccess (h : c.dataAccess cfg mf time = .ok (status, events, c')) :
    Effect .data cfg c mf time status events c' := by
  simp only [dataAccess] at h
  obtain ⟨p, hp, h⟩ := bind_eq_ok.mp h
  split at h
  case isTrue hw =>
    cases p with
    | hit i => exact effect_wrHit hw hp h
    | reservationFail =>
      dsimp only at h
      split at h
      case isTrue hno => exact effect_wrMiss hp (by simp) (fun _ => hno) hw h
      case isFalse =>
        obtain ⟨rfl, rfl, rfl⟩ : _ ∧ _ ∧ _ := by simpa using Except.ok.inj h
        exact .refused (refusal_of_fail hp)
    | _ i => exact effect_wrMiss hp (by simp) (by simp) hw h
  case isFalse hw =>
    have hr : mf.isWrite = false := by simpa using hw
    cases p with
    | hit i => exact effect_rdHitBase hr hp h
    | reservationFail =>
      obtain ⟨rfl, rfl, rfl⟩ : _ ∧ _ ∧ _ := by simpa using Except.ok.inj h
      exact .refused (refusal_of_read hr)
    | _ i => exact effect_rdMissBase hp (by simp) (by simp) hr h

theorem effect_access (h : c.access kind cfg mf time = .ok (status, events, c')) :
    Effect kind cfg c mf time status events c' := by
  cases kind with
  | readOnly => exact effect_readOnlyAccess h
  | data => exact effect_dataAccess h

end Handlers

end Cache

end NdpSim
