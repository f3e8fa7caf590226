import NdpSim.Cache.TagArray
import NdpSim.Library.Effects

/-!
# Cache accesses

A cache is its tag array, the table of missing blocks with the requests that wait for each, the
blocks whose data has arrived, the queue of requests to memory and a record for every read request
under way. Read-only and data caches share the read path; the write path of a data cache depends
on its policies.
-/
namespace NdpSim

open Library

structure MshrEntry where
  list : List MemFetch
  hasAtomic : Bool

/-- What the cache remembers of a read request until its fill. -/
structure ExtraMfFields where
  mf : MemFetch
  blockAddr : BitVec 64
  cacheIndex : Nat

inductive CacheEvent
  | writeBackRequestSent (evicted : EvictedBlockInfo)
  | readRequestSent
  | writeRequestSent
  | writeAllocateSent
  deriving DecidableEq

inductive CacheRequestStatus
  | hit | hitReserved | miss | reservationFail | sectorMiss
  deriving DecidableEq

/-- `uid` numbers the requests the cache creates itself. -/
structure Cache where
  lines : Lines
  table : Binding (BitVec 64) MshrEntry
  currentResponse : List (BitVec 64)
  missQueue : List MemFetch
  extraMfFields : Binding Nat ExtraMfFields
  uid : Nat

namespace Cache

variable (cfg : CacheConfig) (c : Cache)

/-! ## The table of missing blocks -/

def mshrProbe (blockAddr : BitVec 64) : Bool := (c.table.lookup blockAddr).isSome

/-- The requests that wait for a block. -/
def waiting (blockAddr : BitVec 64) : List MemFetch :=
  ((c.table.lookup blockAddr).map MshrEntry.list).getD []

def mshrFull (blockAddr : BitVec 64) : Bool :=
  match c.table.lookup blockAddr with
  | some e => cfg.mshrMaxMerge ≤ e.list.length
  | none => cfg.mshrEntries ≤ c.table.entries.length

def mshrAdd (blockAddr : BitVec 64) (mf : MemFetch) : Except Fault Cache :=
  if c.mshrFull cfg blockAddr then .error .assertion
  else
    let e := (c.table.lookup blockAddr).getD ⟨[], false⟩
    .ok { c with
      table := c.table.insert blockAddr ⟨e.list ++ [mf], e.hasAtomic || mf.isAtomic⟩ }

def accessReady : Bool := !c.currentResponse.isEmpty

/-- The next request whose data has arrived. -/
def popNextAccess : Except Fault (MemFetch × Cache) :=
  match c.currentResponse with
  | [] => .error .assertion
  | blockAddr :: rest =>
    match c.table.lookup blockAddr with
    | none => .error .assertion
    | some ⟨[], _⟩ => .error .undefined
    | some ⟨[mf], _⟩ =>
      .ok (mf, { c with table := c.table.erase blockAddr, currentResponse := rest })
    | some ⟨mf :: mfs, hasAtomic⟩ =>
      .ok (mf, { c with table := c.table.insert blockAddr ⟨mfs, hasAtomic⟩ })

/-- A read waits for the block behind a write that waits for it too. -/
def isReadAfterWritePending (blockAddr : BitVec 64) : Bool :=
  ((c.waiting blockAddr).dropWhile fun mf => !mf.isWrite).any fun mf => !mf.isWrite

/-! ## Requests to memory -/

def missQueueFull (numMisses : Nat) : Bool := cfg.missQueueSize < c.missQueue.length + numMisses

/-- One step of the miss queue; the request goes to memory unless the way there is full. -/
def cycle (toMemFull : Bool) : Option MemFetch × Cache :=
  match c.missQueue with
  | [] => (none, c)
  | mf :: rest => if toMemFull then (none, c) else (some mf, { c with missQueue := rest })

/-- The read path after a miss: whether the access was taken, and what was evicted for it. A block
that is waited for already needs no further request. -/
def sendReadRequest (mf : MemFetch) (time : Nat) (wa : Bool) :
    Except Fault (Bool × Option EvictedBlockInfo × List CacheEvent × Cache) := do
  let mshrAddr := cfg.getMshrAddr mf.addr
  let hit := c.mshrProbe mshrAddr
  let avail := !c.mshrFull cfg mshrAddr
  if hit && avail then
    let (_, lines, evicted) ←
      cfg.tagAccess c.lines (cfg.getBlockAddr mf.addr) time (cfg.sectorOf mf)
    let c ← { c with lines := lines }.mshrAdd cfg mshrAddr mf
    return (true, evicted, [], c)
  else if !hit && avail && !c.missQueueFull cfg 0 then
    let (p, lines, evicted) ←
      cfg.tagAccess c.lines (cfg.getBlockAddr mf.addr) time (cfg.sectorOf mf)
    let c ← { c with lines := lines }.mshrAdd cfg mshrAddr mf
    let c := { c with
      extraMfFields := c.extraMfFields.insert mf.id ⟨mf, mshrAddr, p.idx⟩
      missQueue := c.missQueue ++ [{ mf with addr := mshrAddr, dataSize := cfg.atomSize }] }
    return (true, evicted, if wa then [] else [.readRequestSent], c)
  else return (false, none, [], c)

/-- The lines with the data of a read request, if the cache has a line for it. -/
def fillLines (field : ExtraMfFields) (time : Nat) : Except Fault Lines :=
  match cfg.allocPolicy with
  | .onMiss => .ok (Function.update c.lines field.cacheIndex
      ((c.lines field.cacheIndex).fill (cfg.sectorOf field.mf)))
  | .onFill => cfg.tagFill c.lines field.blockAddr time (cfg.sectorOf field.mf)
  | .streaming => .ok c.lines

/-- The data of a read request has arrived. With a sector-associative table the request has to be
part of another one, which the simulator never makes. -/
def fill (id time : Nat) : Except Fault Cache := do
  if cfg.mshrConfig = .sectorAssoc then throw .assertion
  match c.extraMfFields.lookup id with
  | none => throw .assertion
  | some field =>
    let lines ← c.fillLines cfg field time
    match c.table.lookup field.blockAddr with
    | none => throw .assertion
    | some e =>
      if e.hasAtomic ∧ cfg.allocPolicy ≠ .onMiss then throw .assertion
      let lines := if e.hasAtomic then
          Function.update lines field.cacheIndex
            ((lines field.cacheIndex).setStatus (cfg.sectorOf field.mf) .modified)
        else lines
      return { c with
        lines := lines
        currentResponse := c.currentResponse ++ [field.blockAddr]
        extraMfFields := c.extraMfFields.erase id }

/-! ## Reads -/

/-- `ReadOnlyCache::access` -/
def readOnlyAccess (mf : MemFetch) (time : Nat) :
    Except Fault (CacheRequestStatus × List CacheEvent × Cache) := do
  if cfg.atomSize < mf.dataSize ∨ cfg.writePolicy ≠ .readOnly ∨ mf.isWrite then throw .assertion
  let addr := cfg.getBlockAddr mf.addr
  match ← cfg.probe c.lines addr (cfg.sectorOf mf) with
  | .hit _ =>
    let (_, lines, _) ← cfg.tagAccess c.lines addr time (cfg.sectorOf mf)
    return (.hit, [], { c with lines := lines })
  | .reservationFail => return (.reservationFail, [], c)
  | _ =>
    if c.missQueueFull cfg 0 then return (.reservationFail, [], c)
    let (doMiss, _, events, c) ← c.sendReadRequest cfg mf time false
    return (if doMiss then .miss else .reservationFail, events, c)

def sendWriteRequest (mf : MemFetch) : Cache := { c with missQueue := c.missQueue ++ [mf] }

/-- A write-back of one packet after the other from the start of the evicted block. -/
def writeBack (ev : EvictedBlockInfo) : List CacheEvent × Cache :=
  let packets := (List.range (ev.modifiedSize / packetSize)).map fun i =>
    { id := c.uid + i, addr := ev.blockAddr + BitVec.ofNat 64 (i * packetSize), isWrite := true,
      isAtomic := false, fromNdp := false, byteCount := 0, dataSize := packetSize,
      dirtyMask := ev.dirtyMask }
  (packets.map fun _ => .writeBackRequestSent ev,
    { c with missQueue := c.missQueue ++ packets, uid := c.uid + packets.length })

/-- What follows an eviction: the write-back, unless the cache writes through. -/
def writeBackEvicted (evicted : Option EvictedBlockInfo) : List CacheEvent × Cache :=
  match evicted with
  | none => ([], c)
  | some ev => if cfg.writePolicy = .writeThrough then ([], c) else c.writeBack ev

/-- Read hits of a data cache; an atomic leaves its sector modified. -/
def rdHitBase (mf : MemFetch) (time : Nat) :
    Except Fault (CacheRequestStatus × List CacheEvent × Cache) := do
  let s := cfg.sectorOf mf
  let (p, lines, _) ← cfg.tagAccess c.lines (cfg.getBlockAddr mf.addr) time s
  let lines :=
    if mf.isAtomic then Function.update lines p.idx ((lines p.idx).setStatus s .modified) else lines
  return (.hit, [], { c with lines := lines })

def rdMissBase (mf : MemFetch) (time : Nat) :
    Except Fault (CacheRequestStatus × List CacheEvent × Cache) := do
  if c.missQueueFull cfg 1 then return (.reservationFail, [], c)
  let (doMiss, evicted, events, c) ← c.sendReadRequest cfg mf time true
  if doMiss then
    let (events', c) := c.writeBackEvicted cfg evicted
    return (.miss, events ++ events', c)
  else return (.reservationFail, events, c)

/-! ## Writes -/

def wrHitWb (mf : MemFetch) (time : Nat) :
    Except Fault (CacheRequestStatus × List CacheEvent × Cache) := do
  let s := cfg.sectorOf mf
  let (p, lines, _) ← cfg.tagAccess c.lines (cfg.getBlockAddr mf.addr) time s
  return (.hit, [], { c with
    lines := Function.update lines p.idx ((lines p.idx).setStatus s .modified) })

def wrHitWt (mf : MemFetch) (time : Nat) :
    Except Fault (CacheRequestStatus × List CacheEvent × Cache) := do
  if c.missQueueFull cfg 0 then return (.reservationFail, [], c)
  let (status, events, c) ← c.wrHitWb cfg mf time
  return (status, events ++ [.writeRequestSent], c.sendWriteRequest mf)

/-- The sector is given up; the access time stays as it was. -/
def wrHitWe (mf : MemFetch) (idx : Nat) :
    Except Fault (CacheRequestStatus × List CacheEvent × Cache) := do
  if c.missQueueFull cfg 0 then return (.reservationFail, [], c)
  let c := c.sendWriteRequest mf
  return (.hit, [.writeRequestSent], { c with
    lines := Function.update c.lines idx ((c.lines idx).setStatus (cfg.sectorOf mf) .invalid) })

def wrHit (mf : MemFetch) (time idx : Nat) :
    Except Fault (CacheRequestStatus × List CacheEvent × Cache) :=
  match cfg.writePolicy with
  | .readOnly => .error .assertion
  | .writeBack => c.wrHitWb cfg mf time
  | .writeThrough => c.wrHitWt cfg mf time
  | .writeEvict => c.wrHitWe cfg mf idx
  | .localWbGlobalWt => if mf.fromNdp then c.wrHitWb cfg mf time else c.wrHitWe cfg mf idx

def wrMissNoWa (mf : MemFetch) : Except Fault (CacheRequestStatus × List CacheEvent × Cache) :=
  if c.missQueueFull cfg 0 then .ok (.reservationFail, [], c)
  else .ok (.miss, [.writeRequestSent], c.sendWriteRequest mf)

/-- The read request a write miss makes for its block. -/
def allocateRead (mf : MemFetch) : MemFetch :=
  { id := c.uid, addr := mf.addr, isWrite := false, isAtomic := false, fromNdp := false,
    byteCount := mf.byteCount, dataSize := cfg.atomSize, dirtyMask := 0 }

def wrMissWaNaive (mf : MemFetch) (time : Nat) :
    Except Fault (CacheRequestStatus × List CacheEvent × Cache) := do
  let mshrAddr := cfg.getMshrAddr mf.addr
  if c.missQueueFull cfg 2 || c.mshrFull cfg mshrAddr then return (.reservationFail, [], c)
  let newMf := c.allocateRead cfg mf
  let c := { c.sendWriteRequest mf with uid := c.uid + 1 }
  let (doMiss, evicted, events, c) ← c.sendReadRequest cfg newMf time true
  if doMiss then
    let (events', c) := c.writeBackEvicted cfg evicted
    return (.miss, .writeRequestSent :: events ++ events', c)
  else return (.reservationFail, .writeRequestSent :: events, c)

/-- The write covers the whole sector, or the whole line of a normal cache. -/
def writesWholeAtom (mf : MemFetch) : Bool := mf.byteCount == cfg.atomSize

/-- A write of a whole sector claims its line at once. The access is reported as failed all the
same, as it is when the sector has to be fetched first. -/
def wrMissWaFetchOnWrite (mf : MemFetch) (time : Nat) (status : Probe) :
    Except Fault (CacheRequestStatus × List CacheEvent × Cache) := do
  let s := cfg.sectorOf mf
  let mshrAddr := cfg.getMshrAddr mf.addr
  if writesWholeAtom cfg mf then
    if c.missQueueFull cfg 0 then return (.reservationFail, [], c)
    let (p, lines, evicted) ← cfg.tagAccess c.lines (cfg.getBlockAddr mf.addr) time s
    let block := (lines p.idx).setStatus s .modified
    let block := match status with
      | .hitReserved _ => block.setIgnoreOnFill s true
      | _ => block
    let c := { c with lines := Function.update lines p.idx block }
    let (events, c) := c.writeBackEvicted cfg evicted
    return (.reservationFail, events, c)
  else
    if c.missQueueFull cfg 1 || c.mshrFull cfg mshrAddr ||
        c.mshrProbe mshrAddr && c.isReadAfterWritePending mshrAddr then
      return (.reservationFail, [], c)
    let newMf := c.allocateRead cfg mf
    let c := { c with uid := c.uid + 1 }
    let (_, evicted, events, c) ← c.sendReadRequest cfg newMf time true
    let c := { c with
      lines := Function.update c.lines status.idx
        ((c.lines status.idx).setModifiedOnFill s true) }
    let (events', c) := c.writeBackEvicted cfg evicted
    return (.reservationFail, events ++ .writeAllocateSent :: events', c)

def wrMissWaLazyFetchOnRead (mf : MemFetch) (time : Nat) :
    Except Fault (CacheRequestStatus × List CacheEvent × Cache) := do
  let s := cfg.sectorOf mf
  if c.missQueueFull cfg 0 then return (.reservationFail, [], c)
  let (sent, c) :=
    if cfg.writePolicy = .writeThrough then ([CacheEvent.writeRequestSent], c.sendWriteRequest mf)
    else ([], c)
  let (p, lines, evicted) ← cfg.tagAccess c.lines (cfg.getBlockAddr mf.addr) time s
  let block := (lines p.idx).setStatus s .modified
  let block := match p with
    | .hitReserved _ => (block.setIgnoreOnFill s true).setModifiedOnFill s true
    | _ => block
  let c := { c with lines := Function.update lines p.idx (block.setReadable s true) }
  let (events, c) := c.writeBackEvicted cfg evicted
  return (.miss, sent ++ events, c)

def wrMiss (mf : MemFetch) (time : Nat) (status : Probe) :
    Except Fault (CacheRequestStatus × List CacheEvent × Cache) :=
  match cfg.writeAllocPolicy with
  | .noWriteAllocate => c.wrMissNoWa cfg mf
  | .writeAllocate => c.wrMissWaNaive cfg mf time
  | .fetchOnWrite => c.wrMissWaFetchOnWrite cfg mf time status
  | .lazyFetchOnRead => c.wrMissWaLazyFetchOnRead cfg mf time

/-- `DataCache::access` -/
def dataAccess (mf : MemFetch) (time : Nat) :
    Except Fault (CacheRequestStatus × List CacheEvent × Cache) := do
  let p ← cfg.probe c.lines (cfg.getBlockAddr mf.addr) (cfg.sectorOf mf)
  if mf.isWrite then
    match p with
    | .hit i => c.wrHit cfg mf time i
    | .reservationFail =>
      if cfg.writeAllocPolicy = .noWriteAllocate then c.wrMiss cfg mf time p
      else return (.reservationFail, [], c)
    | _ => c.wrMiss cfg mf time p
  else
    match p with
    | .hit _ => c.rdHitBase cfg mf time
    | .reservationFail => return (.reservationFail, [], c)
    | _ => c.rdMissBase cfg mf time

end Cache

end NdpSim
