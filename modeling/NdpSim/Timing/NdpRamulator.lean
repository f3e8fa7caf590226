import NdpSim.Cache.Forward
import NdpSim.Library.DelayQueue

/-!
# The L2 cache in front of the memory

Requests come from the crossbar, one queue for each bank, and are given to the L2 cache of their
channel. What the cache answers waits for the latency of a hit and goes back to the crossbar. What
the cache sends goes to the DRAM, and what comes back from there has to be a block the cache waits
for, or the acknowledgement of a write-back: nothing else is taken off the return queue.

One channel is modelled here. What the channels have in common are the units of addresses that the
host is giving up: replies to reads of such a unit are held until its answer comes, to whichever
channel.
-/
namespace NdpSim

open Library

structure L2Config where
  cache : CacheConfig
  numBanks : Nat
  hitLatency : Nat
  requestQueueSize : Nat
  biEnabled : Bool
  biUnitSize : Nat

/-- A request that comes from the crossbar, and one that is put on the way back. -/
inductive L2Event
  | pushed (mf : MemFetch)
  | replied (mf : MemFetch)
  deriving DecidableEq

/-- A reply that is held in `_bi_pending_lds`, with its unit and its bank. -/
structure HeldReply where
  unit : Nat
  bank : Nat
  mf : MemFetch
  deriving DecidableEq

/-- One channel of `NdpRamulator`. All requests are numbered by the `uid` of the cache; `requests`
has the numbers of those from the crossbar. `dram` are the requests the DRAM has and `returned`
is its return queue. `pendingLds` are the held replies of this channel, and `inprogress` are the
units that the configuration says are being given up. -/
structure L2Channel where
  fromCrossbar : List (List MemFetch)
  latency : List (DelayQueue MemFetch)
  toCrossbar : List (List MemFetch)
  toCrossbarBi : List (List MemFetch)
  pendingLds : List HeldReply
  inprogress : Finset Nat
  cache : Cache
  toMem : List MemFetch
  dram : List MemFetch
  returned : List MemFetch
  requests : List Nat

namespace L2Channel

variable (cfg : L2Config)

def create (lines : Lines) : L2Channel where
  fromCrossbar := List.replicate cfg.numBanks []
  latency := List.replicate cfg.numBanks (.create cfg.requestQueueSize)
  toCrossbar := List.replicate cfg.numBanks []
  toCrossbarBi := List.replicate cfg.numBanks []
  pendingLds := []
  inprogress := ∅
  cache := .initial lines
  toMem := []
  dram := []
  returned := []
  requests := []

/-- `push`, which asserts that the queue is not full; the request is a new object. -/
def push (u : L2Channel) (mf : MemFetch) (bank : Nat) :
    Except Fault (L2Channel × List L2Event) :=
  match u.fromCrossbar[bank]? with
  | none => .error .undefined
  | some queue =>
    if cfg.requestQueueSize ≤ queue.length then .error .assertion
    else
      let mf := { mf with id := u.cache.uid }
      .ok ({ u with
        fromCrossbar := u.fromCrossbar.modify bank (· ++ [mf])
        cache := { u.cache with uid := u.cache.uid + 1 }
        requests := u.cache.uid :: u.requests }, [.pushed mf])

/-! ## `cache_cycle` -/

def popFromCrossbar (u : L2Channel) (bank : Nat) : L2Channel :=
  { u with fromCrossbar := u.fromCrossbar.modify bank List.tail }

def pushLatency (u : L2Channel) (bank : Nat) (mf : MemFetch) : L2Channel :=
  { u with latency := u.latency.modify bank fun q => q.push mf cfg.hitLatency }

/-- What the cache reports is acted on. -/
def afterAccess (u : L2Channel) (bank : Nat) (mf : MemFetch) (status : CacheRequestStatus)
    (events : List CacheEvent) : Except Fault L2Channel :=
  match status with
  | .hit =>
    if .writeRequestSent ∈ events then .ok (u.popFromCrossbar bank)
    else .ok ((u.pushLatency cfg bank mf).popFromCrossbar bank)
  | .reservationFail =>
    if .readRequestSent ∈ events ∨ .writeRequestSent ∈ events then .error .assertion else .ok u
  | _ =>
    if mf.isWrite ∧ (cfg.cache.writeAllocPolicy = .fetchOnWrite ∨
        cfg.cache.writeAllocPolicy = .lazyFetchOnRead) then
      .ok ((u.pushLatency cfg bank mf).popFromCrossbar bank)
    else .ok (u.popFromCrossbar bank)

/-- From the NDP units to the cache. -/
def ndpToCache (u : L2Channel) (bank time : Nat) : Except Fault L2Channel :=
  match u.fromCrossbar[bank]? with
  | some (mf :: _) => do
    let (status, events, cache) ← u.cache.access .data cfg.cache mf time
    { u with cache := cache }.afterAccess cfg bank mf status events
  | _ => .ok u

/-- From the cache to the NDP units. -/
def cacheToNdp (u : L2Channel) (bank : Nat) : Except Fault L2Channel :=
  match u.latency[bank]? with
  | none => .ok u
  | some queue =>
    if u.cache.accessReady && !queue.full then do
      let (mf, cache) ← u.cache.popNextAccess
      return { u with cache := cache }.pushLatency cfg bank mf
    else .ok u

def biUnit (mf : MemFetch) : Nat := mf.addr.toNat / cfg.biUnitSize

/-- The held replies of a unit go to the queues of their banks, and it is no longer given up. -/
def release (u : L2Channel) (unit : Nat) : L2Channel :=
  { u with
    toCrossbarBi := (u.pendingLds.filter fun r => r.unit = unit).foldl
      (fun queues r => queues.modify r.bank (· ++ [r.mf])) u.toCrossbarBi
    pendingLds := u.pendingLds.filter fun r => r.unit ≠ unit
    inprogress := u.inprogress.erase unit }

def popLatency (u : L2Channel) (bank : Nat) : L2Channel :=
  { u with latency := u.latency.modify bank DelayQueue.pop }

/-- The answer of the host is replied to, before the replies it releases. -/
def answer (u : L2Channel) (bank : Nat) (mf : MemFetch) : L2Channel :=
  release { u.popLatency bank with
    toCrossbarBi := u.toCrossbarBi.modify bank (· ++ [mf]) } (biUnit cfg mf)

def hold (u : L2Channel) (bank : Nat) (mf : MemFetch) : L2Channel :=
  { u.popLatency bank with pendingLds := u.pendingLds ++ [⟨biUnit cfg mf, bank, mf⟩] }

/-- A reply whose time has come goes to the crossbar, if its unit is not being given up; those that
were released go first. -/
def latencyToCrossbar (u : L2Channel) (bank : Nat) : L2Channel × List L2Event :=
  match u.toCrossbarBi[bank]?, u.toCrossbar[bank]? with
  | some (mf :: rest), some queue =>
    if cfg.requestQueueSize ≤ queue.length then (u, [])
    else ({ u with
      toCrossbar := u.toCrossbar.modify bank (· ++ [mf])
      toCrossbarBi := u.toCrossbarBi.modify bank fun _ => rest }, [.replied mf])
  | some [], some queue =>
    match u.latency[bank]?.bind DelayQueue.top? with
    | none => (u, [])
    | some mf =>
      let inprogress := cfg.biEnabled ∧ biUnit cfg mf ∈ u.inprogress
      if inprogress ∧ mf.isWrite ∧ mf.invalidated then (u.answer cfg bank mf, [])
      else if inprogress ∧ mf.isWrite = false then (u.hold cfg bank mf, [])
      else if cfg.requestQueueSize ≤ queue.length then (u, [])
      else ({ u.popLatency bank with
        toCrossbar := u.toCrossbar.modify bank (· ++ [mf]) }, [.replied mf])
  | _, _ => (u, [])

def cacheCycle (u : L2Channel) : L2Channel :=
  let (sent, cache) := u.cache.cycle (cfg.requestQueueSize ≤ u.toMem.length)
  { u with cache := cache, toMem := u.toMem ++ sent.toList }

/-! ## `process_memory_requests` -/

def cacheToMemory (u : L2Channel) (full : Bool) : L2Channel :=
  match u.toMem with
  | [] => u
  | mf :: rest => if full then u else { u with toMem := rest, dram := mf :: u.dram }

def waitingForFill (u : L2Channel) (mf : MemFetch) : Bool :=
  (u.cache.extraMfFields.lookup mf.id).isSome

/-- The acknowledgement of a write-back of this cache. -/
def isWriteBack (u : L2Channel) (mf : MemFetch) : Bool := mf.isWrite && !u.requests.contains mf.id

/-- The head of the return queue is a block the cache waits for or a write-back, or it stays. -/
def fromMemory (u : L2Channel) (time : Nat) : Except Fault L2Channel :=
  match u.returned with
  | [] => .ok u
  | mf :: rest =>
    if u.waitingForFill mf then do
      return { u with cache := ← u.cache.fill cfg.cache mf.id time, returned := rest }
    else if u.isWriteBack mf then .ok { u with returned := rest }
    else .ok u

/-! ## Runs -/

/-- The loops of `cache_cycle` and `dram_cycle` are made of these; `dramReply` is the DRAM. The
units in progress change when a unit draws an invalidation and when an answer comes to another
device, and an answer that comes to another channel releases what is held here. -/
inductive Op
  | push (mf : MemFetch) (bank : Nat)
  | pop (bank : Nat)
  | setInprogress (units : Finset Nat)
  | release (unit : Nat)
  | latencyCycle (bank : Nat)
  | ndpToCache (bank time : Nat)
  | cacheToNdp (bank : Nat)
  | latencyToCrossbar (bank : Nat)
  | cacheCycle
  | cacheToMemory (full : Bool)
  | dramReply (mf : MemFetch)
  | fromMemory (time : Nat)

def step (u : L2Channel) : Op → Except Fault (L2Channel × List L2Event)
  | .push mf bank => u.push cfg mf bank
  | .pop bank => .ok ({ u with toCrossbar := u.toCrossbar.modify bank List.tail }, [])
  | .setInprogress units => .ok ({ u with inprogress := units }, [])
  | .release unit => .ok (u.release unit, [])
  | .latencyCycle bank =>
    .ok ({ u with latency := u.latency.modify bank DelayQueue.cycle }, [])
  | .ndpToCache bank time => do return (← u.ndpToCache cfg bank time, [])
  | .cacheToNdp bank => do return (← u.cacheToNdp cfg bank, [])
  | .latencyToCrossbar bank => .ok (u.latencyToCrossbar cfg bank)
  | .cacheCycle => .ok (u.cacheCycle cfg, [])
  | .cacheToMemory full => .ok (u.cacheToMemory full, [])
  | .dramReply mf =>
    .ok ({ u with dram := u.dram.erase mf, returned := u.returned ++ [mf] }, [])
  | .fromMemory time => do return (← u.fromMemory cfg time, [])

/-- The DRAM replies to what it was sent. -/
def Offered (u : L2Channel) : Op → Prop
  | .dramReply mf => mf ∈ u.dram
  | _ => True

inductive Run (P : L2Channel → Op → Prop) : L2Channel → List L2Event → Prop
  | start (lines : Lines) : Run P (create cfg lines) []
  | step {u u' : L2Channel} {tr ev : List L2Event} (run : Run P u tr) (op : Op) (meets : P u op)
      (offered : u.Offered op) (h : u.step cfg op = .ok (u', ev)) : Run P u' (tr ++ ev)

end L2Channel

end NdpSim
