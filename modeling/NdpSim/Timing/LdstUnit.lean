import NdpSim.Cache.Waiters
import NdpSim.Library.DelayQueue
import NdpSim.Timing.LoadTable

/-!
# The load-store unit

Global loads and stores become requests for single packets, which wait in one queue per bank for
the L1 cache. The cache answers a request at once, after a fill, or not at all if the request goes
on to memory, which then answers it. Everything that leaves goes through the queue to the TLB.
Atomics are meant to bypass the cache.
-/
namespace NdpSim

open Library

/-- `bankIndex` is `get_bank_index` of the configuration. -/
structure LdstConfig where
  l1d : CacheConfig
  numBanks : Nat
  bankIndex : BitVec 64 → Nat
  l1HitLatency : Nat
  maxLatencyQueueSize : Nat
  packetSize : Nat
  toTlbSize : Nat
  toRegSize : Nat
  banks_pos : 0 < numBanks

/-- What can be seen of the unit: requests that enter, that are given to the cache by `access` or
`fill`, that are pushed to the queue to the TLB, and those `handle_response` is called for. -/
inductive LdstEvent
  | pushed (mf : MemFetch)
  | accessed (mf : MemFetch)
  | filled (mf : MemFetch)
  | toTlb (mf : MemFetch)
  | answered (mf : MemFetch)
  deriving DecidableEq

/-- The requests of the unit and those of the cache are numbered by the `uid` of the cache.
`outside` are the requests that left and have not come back. -/
structure LdstUnit where
  banks : List (DelayQueue MemFetch)
  l1d : Cache
  toTlb : List MemFetch
  outside : List MemFetch
  loads : LoadTable
  pendingWriteCount : Int
  finished : List LdstContext

namespace LdstUnit

variable (cfg : LdstConfig)

def create (lines : Lines) : LdstUnit where
  banks := List.replicate cfg.numBanks (.create cfg.maxLatencyQueueSize)
  l1d := .initial lines
  toTlb := []
  outside := []
  loads := .create
  pendingWriteCount := 0
  finished := []

def bankOf (addr : BitVec 64) : Nat := cfg.bankIndex addr % cfg.numBanks

/-- `check_l1_hit_pipeline_full`; the fill levels it adds are never updated. -/
def checkL1HitPipelineFull (addrs : List (BitVec 64)) : Bool :=
  (List.range cfg.numBanks).any fun bank =>
    cfg.maxLatencyQueueSize < addrs.countP fun addr => bankOf cfg addr = bank

/-- The requests for the packets of an instruction, numbered from `n`. -/
def packetRequests (n : Nat) (isWrite isAtomic : Bool) (addrs : List (BitVec 64)) :
    List MemFetch :=
  addrs.mapIdx fun i addr =>
    { id := n + i, addr := addr, isWrite := isWrite, isAtomic := isAtomic, fromNdp := true,
      byteCount := 0, dataSize := cfg.packetSize, dirtyMask := 0 }

def pushBank (delay : Nat) (banks : List (DelayQueue MemFetch)) (mf : MemFetch) :
    List (DelayQueue MemFetch) :=
  banks.modify (bankOf cfg mf.addr) fun q => q.push mf delay

/-- The unit with new requests in the queues of their banks. -/
def enqueue (u : LdstUnit) (delay : Nat) (mfs : List MemFetch) : LdstUnit :=
  { u with
    banks := mfs.foldl (pushBank cfg delay) u.banks
    l1d := { u.l1d with uid := u.l1d.uid + mfs.length } }

/-- The requests an instruction is cut into. -/
def requestsOf (u : LdstUnit) (inst : NdpInstruction) (addrs : List (BitVec 64)) : List MemFetch :=
  packetRequests cfg u.l1d.uid (!inst.opcode.checkLoadOp)
    (inst.opcode.checkLoadOp && inst.opcode.checkAmoOp) addrs

/-- `process_ldst_inst` for an instruction at the head of its unit. -/
def processLdstInst (u : LdstUnit) (inst : NdpInstruction) (addrs : List (BitVec 64))
    (context : LdstContext) : Except Fault (LdstUnit × List LdstEvent) :=
  let mfs := u.requestsOf cfg inst addrs
  if checkL1HitPipelineFull cfg addrs then .ok (u, [])
  else if inst.opcode.checkLoadOp then do
    let u := u.enqueue cfg (if inst.opcode.checkAmoOp then 0 else cfg.l1HitLatency) mfs
    let loads ← u.loads.addLoad (mfs.map MemFetch.id) inst context
    return ({ u with loads := loads }, mfs.map .pushed)
  else
    let u := u.enqueue cfg cfg.l1HitLatency mfs
    .ok ({ u with
      pendingWriteCount := u.pendingWriteCount + addrs.length
      finished := if context.lastInst then u.finished ++ [context] else u.finished },
      mfs.map .pushed)

/-! ## Responses -/

def contextsOf (events : List LoadEvent) : List LdstContext :=
  events.filterMap fun
    | .finished _ context => some context
    | _ => none

def handleResponse (u : LdstUnit) (mf : MemFetch) : Except Fault (LdstUnit × List LdstEvent) :=
  if mf.isWrite then
    .ok ({ u with pendingWriteCount := u.pendingWriteCount - 1 }, [.answered mf])
  else do
    let (loads, events) ← u.loads.handleRead cfg.toRegSize mf.id
    return ({ u with loads := loads, finished := u.finished ++ contextsOf events }, [.answered mf])

def waitingForFill (u : LdstUnit) (mf : MemFetch) : Bool :=
  (u.l1d.extraMfFields.lookup mf.id).isSome

/-- `handle_from_mem`; the writes that are not the unit's own are write-backs of the L1. -/
def handleFromMem (u : LdstUnit) (mf : MemFetch) (time : Nat) :
    Except Fault (LdstUnit × List LdstEvent) :=
  if mf.isAtomic then u.handleResponse cfg mf
  else if u.waitingForFill mf then do
    return ({ u with l1d := ← u.l1d.fill cfg.l1d mf.id time }, [.filled mf])
  else if mf.isWrite && !mf.fromNdp then .ok (u, [])
  else u.handleResponse cfg mf

/-! ## The L1 cache -/

def tlbFull (u : LdstUnit) : Bool := cfg.toTlbSize ≤ u.toTlb.length

def popBank (u : LdstUnit) (bank : Nat) : LdstUnit :=
  { u with banks := u.banks.modify bank DelayQueue.pop }

/-- The request at the head of a bank, if its time has come. -/
def head? (u : LdstUnit) (bank : Nat) : Option MemFetch := u.banks[bank]?.bind DelayQueue.top?

/-- What the cache reports is acted on. -/
def afterAccess (u : LdstUnit) (bank : Nat) (mf : MemFetch) (status : CacheRequestStatus)
    (events : List CacheEvent) : Except Fault (LdstUnit × List LdstEvent) :=
  match status with
  | .hit =>
    if .writeRequestSent ∈ events then .ok (u.popBank bank, [])
    else (u.popBank bank).handleResponse cfg mf
  | .reservationFail =>
    if .readRequestSent ∈ events ∨ .writeRequestSent ∈ events then .error .assertion
    else .ok (u, [])
  | .sectorMiss => .error .assertion
  | .miss | .hitReserved =>
    if mf.isWrite ∧ cfg.l1d.writePolicy ≠ .writeThrough ∧
        (cfg.l1d.writeAllocPolicy = .fetchOnWrite ∨
          cfg.l1d.writeAllocPolicy = .lazyFetchOnRead) ∧
        .writeAllocateSent ∈ events then
      (u.popBank bank).handleResponse cfg mf
    else .ok (u.popBank bank, [])

/-- From the core to the L1 cache. The bypass of an atomic is taken only if the queue to the TLB
has room. -/
def coreToL1 (u : LdstUnit) (bank time : Nat) : Except Fault (LdstUnit × List LdstEvent) :=
  match u.head? bank with
  | none => .ok (u, [])
  | some mf =>
    if mf.isAtomic && !u.tlbFull cfg then
      .ok ({ u.popBank bank with toTlb := u.toTlb ++ [mf] }, [.toTlb mf])
    else do
      let (status, events, l1d) ← u.l1d.access .data cfg.l1d mf time
      let (u, shown) ← { u with l1d := l1d }.afterAccess cfg bank mf status events
      return (u, .accessed mf :: shown)

/-- From the L1 cache to the core. -/
def l1ToCore (u : LdstUnit) : Except Fault (LdstUnit × List LdstEvent) :=
  if u.l1d.accessReady then do
    let (mf, l1d) ← u.l1d.popNextAccess
    { u with l1d := l1d }.handleResponse cfg mf
  else .ok (u, [])

/-- From the L1 cache to the TLB. -/
def l1ToTlb (u : LdstUnit) (full : Bool) : LdstUnit :=
  match u.toTlb with
  | [] => u
  | mf :: rest => if full then u else { u with toTlb := rest, outside := mf :: u.outside }

/-- The cache sends its next request to the queue to the TLB. -/
def l1dCycle (u : LdstUnit) : LdstUnit × List LdstEvent :=
  let (sent, l1d) := u.l1d.cycle (u.tlbFull cfg)
  ({ u with l1d := l1d, toTlb := u.toTlb ++ sent.toList }, sent.toList.map .toTlb)

/-! ## Runs -/

/-- The loop of `process_l1d_access` is `coreToL1`, `l1ToCore` and `l1ToTlb` for one bank after
the other. -/
inductive Op
  | inst (inst : NdpInstruction) (addrs : List (BitVec 64)) (context : LdstContext)
  | coreToL1 (bank time : Nat)
  | l1ToCore
  | l1ToTlb (full : Bool)
  | l1dCycle
  | latencyCycle
  | fromMem (mf : MemFetch) (time : Nat)
  | writeback (subCoreId : Nat)

def step (u : LdstUnit) : Op → Except Fault (LdstUnit × List LdstEvent)
  | .inst inst addrs context => u.processLdstInst cfg inst addrs context
  | .coreToL1 bank time => u.coreToL1 cfg bank time
  | .l1ToCore => u.l1ToCore cfg
  | .l1ToTlb full => .ok (u.l1ToTlb full, [])
  | .l1dCycle => .ok (u.l1dCycle cfg)
  | .latencyCycle => .ok ({ u with banks := u.banks.map DelayQueue.cycle }, [])
  | .fromMem mf time => { u with outside := u.outside.erase mf }.handleFromMem cfg mf time
  | .writeback subCoreId => .ok ({ u with loads := u.loads.writeback subCoreId }, [])

/-- What comes from memory is an answer to a request that left. -/
def Offered (u : LdstUnit) : Op → Prop
  | .fromMem mf _ => mf ∈ u.outside
  | _ => True

/-- The runs of the unit in which every step meets `P`, with what they show. -/
inductive Run (P : LdstUnit → Op → Prop) : LdstUnit → List LdstEvent → Prop
  | start (lines : Lines) : Run P (create cfg lines) []
  | step {u u' : LdstUnit} {tr ev : List LdstEvent} (run : Run P u tr) (op : Op) (meets : P u op)
      (offered : u.Offered op) (h : u.step cfg op = .ok (u', ev)) : Run P u' (tr ++ ev)

/-! ## The queues of the banks -/

section Banks

variable {cfg} {u u' : LdstUnit} {mf : MemFetch}

/-- The requests that wait for the L1 cache. -/
def queued (u : LdstUnit) : Multiset MemFetch :=
  (u.banks.map fun q => (q.items : Multiset MemFetch)).sum

theorem queued_pushBank (delay : Nat) (mf : MemFetch) (h : u.banks.length = cfg.numBanks) :
    queued { u with banks := pushBank cfg delay u.banks mf } = mf ::ₘ u.queued := by
  have hlt : bankOf cfg mf.addr < u.banks.length := by
    rw [h]
    exact Nat.mod_lt _ cfg.banks_pos
  exact DelayQueue.sum_items_push (List.getElem?_eq_getElem hlt) mf delay

theorem length_pushBanks {delay : Nat} {mfs : List MemFetch}
    {banks : List (DelayQueue MemFetch)} :
    (mfs.foldl (pushBank cfg delay) banks).length = banks.length := by
  induction mfs generalizing banks with
  | nil => rfl
  | cons mf mfs ih => rw [List.foldl_cons, ih, pushBank, List.length_modify]

theorem queued_enqueue (delay : Nat) (mfs : List MemFetch) (h : u.banks.length = cfg.numBanks) :
    (u.enqueue cfg delay mfs).queued = mfs + u.queued := by
  have hfold : ∀ (mfs : List MemFetch) (u : LdstUnit), u.banks.length = cfg.numBanks →
      queued { u with banks := mfs.foldl (pushBank cfg delay) u.banks } = mfs + u.queued := by
    intro mfs
    induction mfs with
    | nil => exact fun u _ => (zero_add _).symm
    | cons mf mfs ih =>
      intro u hlen
      have hrest := ih { u with banks := pushBank cfg delay u.banks mf }
        (by rw [← hlen]; exact List.length_modify _ _ _)
      rw [List.foldl_cons]
      rw [queued_pushBank delay mf hlen] at hrest
      rw [hrest, ← Multiset.cons_coe, Multiset.cons_add, Multiset.add_cons]
  exact hfold mfs u h

theorem queued_popBank {bank : Nat} (h : u.head? bank = some mf) :
    u.queued = mf ::ₘ (u.popBank bank).queued :=
  DelayQueue.sum_items_pop h

theorem queued_cycle (u : LdstUnit) :
    queued { u with banks := u.banks.map DelayQueue.cycle } = u.queued := by
  unfold queued
  rw [List.map_map]
  rfl

end Banks

/-! ## What the steps do -/

section Steps

variable {cfg} {u u' : LdstUnit} {mf : MemFetch} {ev : List LdstEvent}

/-- A response changes the books only. -/
theorem handleResponse_cases (h : u.handleResponse cfg mf = .ok (u', ev)) :
    ∃ loads finished, u' = { u with
      loads := loads
      pendingWriteCount := if mf.isWrite then u.pendingWriteCount - 1 else u.pendingWriteCount
      finished := finished } ∧ ev = [.answered mf] := by
  unfold handleResponse at h
  split at h
  case isTrue hwrite =>
    obtain ⟨rfl, rfl⟩ := Prod.mk.inj (Except.ok.inj h)
    exact ⟨u.loads, u.finished, by rw [if_pos hwrite], rfl⟩
  case isFalse hread =>
    obtain ⟨⟨loads, events⟩, -, h⟩ := bind_eq_ok.mp h
    obtain ⟨rfl, rfl⟩ := Prod.mk.inj (Except.ok.inj h)
    exact ⟨loads, u.finished ++ contextsOf events, by rw [if_neg hread], rfl⟩

/-- An access is answered without a request to memory. -/
def AnswersAtOnce (cfg : LdstConfig) (mf : MemFetch) (status : CacheRequestStatus)
    (events : List CacheEvent) : Prop :=
  status = .hit ∧ .writeRequestSent ∉ events ∨
  (status = .miss ∨ status = .hitReserved) ∧ mf.isWrite = true ∧
    cfg.l1d.writePolicy ≠ .writeThrough ∧
    (cfg.l1d.writeAllocPolicy = .fetchOnWrite ∨ cfg.l1d.writeAllocPolicy = .lazyFetchOnRead) ∧
    .writeAllocateSent ∈ events

theorem afterAccess_cases {bank : Nat} {status : CacheRequestStatus} {events : List CacheEvent}
    (h : u.afterAccess cfg bank mf status events = .ok (u', ev)) :
    status = .reservationFail ∧ u' = u ∧ ev = [] ∨
    status ≠ .reservationFail ∧ AnswersAtOnce cfg mf status events ∧
      (u.popBank bank).handleResponse cfg mf = .ok (u', ev) ∨
    status ≠ .reservationFail ∧ ¬ AnswersAtOnce cfg mf status events ∧ u' = u.popBank bank ∧
      ev = [] := by
  unfold afterAccess at h
  unfold AnswersAtOnce
  cases status with
  | hit =>
    simp only at h
    split at h
    case isTrue hsent =>
      obtain ⟨rfl, rfl⟩ := Prod.mk.inj (Except.ok.inj h)
      exact .inr (.inr ⟨by simp, by simp [hsent], rfl, rfl⟩)
    case isFalse hsent => exact .inr (.inl ⟨by simp, by simp [hsent], h⟩)
  | reservationFail =>
    simp only at h
    split at h
    · cases h
    · obtain ⟨rfl, rfl⟩ := Prod.mk.inj (Except.ok.inj h)
      exact .inl ⟨rfl, rfl, rfl⟩
  | sectorMiss => cases h
  | miss =>
    simp only at h
    split at h
    case isTrue hcond => exact .inr (.inl ⟨by simp, .inr ⟨.inl rfl, hcond⟩, h⟩)
    case isFalse hcond =>
      obtain ⟨rfl, rfl⟩ := Prod.mk.inj (Except.ok.inj h)
      exact .inr (.inr ⟨by simp, by simpa using hcond, rfl, rfl⟩)
  | hitReserved =>
    simp only at h
    split at h
    case isTrue hcond => exact .inr (.inl ⟨by simp, .inr ⟨.inr rfl, hcond⟩, h⟩)
    case isFalse hcond =>
      obtain ⟨rfl, rfl⟩ := Prod.mk.inj (Except.ok.inj h)
      exact .inr (.inr ⟨by simp, by simpa using hcond, rfl, rfl⟩)

/-- The head of a bank bypasses the cache or is given to it. -/
theorem coreToL1_cases {bank time : Nat} (h : u.coreToL1 cfg bank time = .ok (u', ev)) :
    u.head? bank = none ∧ u' = u ∧ ev = [] ∨
    ∃ mf, u.head? bank = some mf ∧
      (mf.isAtomic = true ∧ u.tlbFull cfg = false ∧
        u' = { u.popBank bank with toTlb := u.toTlb ++ [mf] } ∧ ev = [.toTlb mf] ∨
      (mf.isAtomic = true → u.tlbFull cfg = true) ∧
        ∃ status events l1d shown, u.l1d.access .data cfg.l1d mf time = .ok (status, events, l1d) ∧
          afterAccess cfg { u with l1d := l1d } bank mf status events = .ok (u', shown) ∧
          ev = .accessed mf :: shown) := by
  unfold coreToL1 at h
  split at h
  case h_1 hnone =>
    obtain ⟨rfl, rfl⟩ := Prod.mk.inj (Except.ok.inj h)
    exact .inl ⟨hnone, rfl, rfl⟩
  case h_2 mf hhead =>
  refine .inr ⟨mf, hhead, ?_⟩
  split at h
  case isTrue hatomic =>
    obtain ⟨rfl, rfl⟩ := Prod.mk.inj (Except.ok.inj h)
    simp only [Bool.and_eq_true, Bool.not_eq_true'] at hatomic
    exact .inl ⟨hatomic.1, hatomic.2, rfl, rfl⟩
  case isFalse hatomic =>
    obtain ⟨⟨status, events, l1d⟩, haccess, h⟩ := bind_eq_ok.mp h
    obtain ⟨⟨u₁, shown⟩, hafter, h⟩ := bind_eq_ok.mp h
    obtain ⟨rfl, rfl⟩ := Prod.mk.inj (Except.ok.inj h)
    exact .inr ⟨by simpa using hatomic, status, events, l1d, shown, haccess, hafter, rfl⟩

/-- What comes from memory fills a block, is dropped, or is a response. -/
theorem handleFromMem_cases {time : Nat} (h : u.handleFromMem cfg mf time = .ok (u', ev)) :
    mf.isAtomic = false ∧ u.waitingForFill mf = true ∧
      (∃ l1d, u.l1d.fill cfg.l1d mf.id time = .ok l1d ∧ u' = { u with l1d := l1d }) ∧
      ev = [.filled mf] ∨
    mf.isAtomic = false ∧ u.waitingForFill mf = false ∧ mf.isWrite = true ∧ mf.fromNdp = false ∧
      u' = u ∧ ev = [] ∨
    (mf.isAtomic = false → u.waitingForFill mf = false ∧
      (mf.isWrite = true → mf.fromNdp = true)) ∧
      u.handleResponse cfg mf = .ok (u', ev) := by
  unfold handleFromMem at h
  split at h
  case isTrue hatomic => exact .inr (.inr ⟨by simp [hatomic], h⟩)
  case isFalse hatomic =>
  have hatomic : mf.isAtomic = false := by simpa using hatomic
  split at h
  case isTrue hwait =>
    obtain ⟨l1d, hfill, h⟩ := bind_eq_ok.mp h
    obtain ⟨rfl, rfl⟩ := Prod.mk.inj (Except.ok.inj h)
    exact .inl ⟨hatomic, hwait, ⟨l1d, hfill, rfl⟩, rfl⟩
  case isFalse hwait =>
  have hwait : u.waitingForFill mf = false := by simpa using hwait
  split at h
  case isTrue hwb =>
    obtain ⟨rfl, rfl⟩ := Prod.mk.inj (Except.ok.inj h)
    simp only [Bool.and_eq_true, Bool.not_eq_true'] at hwb
    exact .inr (.inl ⟨hatomic, hwait, hwb.1, hwb.2, rfl, rfl⟩)
  case isFalse hwb => exact .inr (.inr ⟨fun _ => ⟨hwait, by simpa using hwb⟩, h⟩)

/-- An instruction is not taken, or all its requests are. -/
theorem processLdstInst_cases {inst : NdpInstruction} {addrs : List (BitVec 64)}
    {context : LdstContext} (h : u.processLdstInst cfg inst addrs context = .ok (u', ev)) :
    u' = u ∧ ev = [] ∨
    ∃ delay loads finished, u' = { u.enqueue cfg delay (u.requestsOf cfg inst addrs) with
        loads := loads
        pendingWriteCount := if inst.opcode.checkLoadOp then u.pendingWriteCount
          else u.pendingWriteCount + addrs.length
        finished := finished } ∧
      ev = (u.requestsOf cfg inst addrs).map .pushed := by
  unfold processLdstInst at h
  dsimp only at h
  split at h
  · obtain ⟨rfl, rfl⟩ := Prod.mk.inj (Except.ok.inj h)
    exact .inl ⟨rfl, rfl⟩
  split at h
  case isTrue hload =>
    obtain ⟨loads, -, h⟩ := bind_eq_ok.mp h
    obtain ⟨rfl, rfl⟩ := Prod.mk.inj (Except.ok.inj h)
    exact .inr ⟨_, loads, _, by simp only [hload, if_true]; rfl, rfl⟩
  case isFalse hload =>
    obtain ⟨rfl, rfl⟩ := Prod.mk.inj (Except.ok.inj h)
    exact .inr ⟨cfg.l1HitLatency, u.loads, _, by simp only [hload]; rfl, rfl⟩

theorem afterAccess_l1d {bank : Nat} {status : CacheRequestStatus} {events : List CacheEvent}
    (h : u.afterAccess cfg bank mf status events = .ok (u', ev)) :
    u'.l1d = u.l1d ∧ u'.banks.length = u.banks.length ∧ ∀ mf, .pushed mf ∉ ev := by
  obtain ⟨-, rfl, rfl⟩ | ⟨-, -, h⟩ | ⟨-, -, rfl, rfl⟩ := afterAccess_cases h
  · exact ⟨rfl, rfl, by simp⟩
  · obtain ⟨loads, finished, rfl, rfl⟩ := handleResponse_cases h
    exact ⟨rfl, List.length_modify _ _ _, by simp⟩
  · exact ⟨rfl, List.length_modify _ _ _, by simp⟩

/-- The cache sends the head of its miss queue, if there is room. -/
theorem l1dCycle_cases (cfg : LdstConfig) (u : LdstUnit) :
    u.l1dCycle cfg = (u, []) ∨
    ∃ mf rest, u.l1d.missQueue = mf :: rest ∧ u.l1dCycle cfg =
      ({ u with l1d := { u.l1d with missQueue := rest }, toTlb := u.toTlb ++ [mf] },
        [.toTlb mf]) := by
  cases hqueue : u.l1d.missQueue with
  | nil =>
    refine .inl ?_
    simp [l1dCycle, Cache.cycle, hqueue]
  | cons mf rest =>
    cases hfull : u.tlbFull cfg with
    | true =>
      refine .inl ?_
      simp [l1dCycle, Cache.cycle, hqueue, hfull]
    | false =>
      refine .inr ⟨mf, rest, rfl, ?_⟩
      simp [l1dCycle, Cache.cycle, hqueue, hfull]

/-- Only an instruction brings new requests. -/
theorem quiet_of_step {op : Op} (h : u.step cfg op = .ok (u', ev))
    (hop : ∀ inst addrs context, op ≠ .inst inst addrs context) :
    u.l1d.uid ≤ u'.l1d.uid ∧ u'.banks.length = u.banks.length ∧ ∀ mf, .pushed mf ∉ ev := by
  cases op with
  | inst inst addrs context => exact absurd rfl (hop inst addrs context)
  | coreToL1 bank time =>
    obtain ⟨-, rfl, rfl⟩ | ⟨mf, -, ⟨-, -, rfl, rfl⟩ | ⟨-, status, events, l1d, shown, haccess,
      hafter, rfl⟩⟩ := coreToL1_cases h
    · exact ⟨le_rfl, rfl, by simp⟩
    · exact ⟨le_rfl, List.length_modify _ _ _, by simp⟩
    · obtain ⟨hl1d, hlen, hquiet⟩ := afterAccess_l1d hafter
      refine ⟨?_, hlen, by simpa using hquiet⟩
      rw [hl1d]
      exact (Cache.effect_access haccess).frame.uid
  | l1ToCore =>
    simp only [step, l1ToCore] at h
    split at h
    · obtain ⟨⟨mf, l1d⟩, hpop, h⟩ := bind_eq_ok.mp h
      obtain ⟨B, rest, e, hpops⟩ := Cache.popNextAccess_cases hpop
      obtain ⟨loads, finished, rfl, rfl⟩ := handleResponse_cases h
      exact ⟨hpops.uid.ge, rfl, by simp⟩
    · obtain ⟨rfl, rfl⟩ := Prod.mk.inj (Except.ok.inj h)
      exact ⟨le_rfl, rfl, by simp⟩
  | l1ToTlb full =>
    obtain ⟨rfl, rfl⟩ := Prod.mk.inj (Except.ok.inj h)
    unfold l1ToTlb
    split
    · exact ⟨le_rfl, rfl, by simp⟩
    · split <;> exact ⟨le_rfl, rfl, by simp⟩
  | l1dCycle =>
    have h := Except.ok.inj h
    obtain hidle | ⟨mf, rest, -, hsend⟩ := l1dCycle_cases cfg u
    · obtain ⟨rfl, rfl⟩ := Prod.mk.inj (hidle.symm.trans h)
      exact ⟨le_rfl, rfl, by simp⟩
    · obtain ⟨rfl, rfl⟩ := Prod.mk.inj (hsend.symm.trans h)
      exact ⟨le_rfl, rfl, by simp⟩
  | latencyCycle =>
    obtain ⟨rfl, rfl⟩ := Prod.mk.inj (Except.ok.inj h)
    exact ⟨le_rfl, List.length_map _, by simp⟩
  | fromMem mf time =>
    obtain ⟨-, -, ⟨l1d, hfill, rfl⟩, rfl⟩ | ⟨-, -, -, -, rfl, rfl⟩ | ⟨-, h⟩ := handleFromMem_cases h
    · obtain ⟨f, hfills⟩ := Cache.fill_cases hfill
      exact ⟨hfills.uid.ge, rfl, by simp⟩
    · exact ⟨le_rfl, rfl, by simp⟩
    · obtain ⟨loads, finished, rfl, rfl⟩ := handleResponse_cases h
      exact ⟨le_rfl, rfl, by simp⟩
  | writeback subCoreId =>
    obtain ⟨rfl, rfl⟩ := Prod.mk.inj (Except.ok.inj h)
    exact ⟨le_rfl, rfl, by simp⟩

/-- The requests have numbers of their own. -/
structure Numbered (cfg : LdstConfig) (u : LdstUnit) (tr : List LdstEvent) : Prop where
  banks : u.banks.length = cfg.numBanks
  id_lt : ∀ mf, .pushed mf ∈ tr → mf.id < u.l1d.uid
  unique : ∀ mf mf', .pushed mf ∈ tr → .pushed mf' ∈ tr → mf.id = mf'.id → mf = mf'
  once : ∀ mf, tr.count (.pushed mf) ≤ 1

theorem numbered_create (lines : Lines) : Numbered cfg (create cfg lines) [] := by
  constructor <;> simp [create]

theorem mem_requestsOf {inst : NdpInstruction} {addrs : List (BitVec 64)}
    (h : mf ∈ u.requestsOf cfg inst addrs) :
    u.l1d.uid ≤ mf.id ∧ mf.id < u.l1d.uid + (u.requestsOf cfg inst addrs).length := by
  obtain ⟨i, hi, rfl⟩ := List.mem_mapIdx.mp h
  simp only [requestsOf, packetRequests, List.length_mapIdx]
  omega

theorem nodup_ids_requestsOf (cfg : LdstConfig) (u : LdstUnit) (inst : NdpInstruction)
    (addrs : List (BitVec 64)) :
    ((u.requestsOf cfg inst addrs).map MemFetch.id).Nodup := by
  have hids : (u.requestsOf cfg inst addrs).map MemFetch.id =
      List.range' u.l1d.uid addrs.length := by
    refine List.ext_getElem (by simp [requestsOf, packetRequests]) fun i h₁ h₂ => ?_
    simp [requestsOf, packetRequests]
  rw [hids]
  exact List.nodup_range'

theorem Numbered.step {tr : List LdstEvent} (h : Numbered cfg u tr) {op : Op}
    (hs : u.step cfg op = .ok (u', ev)) : Numbered cfg u' (tr ++ ev) := by
  by_cases hop : ∃ inst addrs context, op = .inst inst addrs context
  · obtain ⟨inst, addrs, context, rfl⟩ := hop
    obtain ⟨rfl, rfl⟩ | ⟨delay, loads, finished, rfl, rfl⟩ := processLdstInst_cases hs
    · simpa using h
    set mfs := u.requestsOf cfg inst addrs
    have hnew : ∀ mf, .pushed mf ∈ mfs.map LdstEvent.pushed ↔ mf ∈ mfs := by simp
    have hdisj : ∀ mf, .pushed mf ∈ tr → mf ∉ mfs :=
      fun mf hmf hmem => absurd (h.id_lt mf hmf) (Nat.not_lt.mpr (mem_requestsOf hmem).1)
    have hnodup := nodup_ids_requestsOf cfg u inst addrs
    refine ⟨length_pushBanks.trans h.banks, fun mf hmf => ?_, fun mf mf' hmf hmf' hid => ?_,
      fun mf => ?_⟩
    · obtain hmf | hmf := List.mem_append.mp hmf
      · exact (h.id_lt mf hmf).trans_le (Nat.le_add_right _ _)
      · exact (mem_requestsOf ((hnew mf).mp hmf)).2
    · obtain hmf | hmf := List.mem_append.mp hmf <;> obtain hmf' | hmf' := List.mem_append.mp hmf'
      · exact h.unique mf mf' hmf hmf' hid
      · have h₁ := h.id_lt mf hmf
        have h₂ := (mem_requestsOf ((hnew mf').mp hmf')).1
        omega
      · have h₁ := h.id_lt mf' hmf'
        have h₂ := (mem_requestsOf ((hnew mf).mp hmf)).1
        omega
      · exact List.inj_on_of_nodup_map hnodup ((hnew mf).mp hmf) ((hnew mf').mp hmf') hid
    · rw [List.count_append]
      have hcount : (mfs.map LdstEvent.pushed).count (.pushed mf) = mfs.count mf :=
        List.count_map_of_injective _ _ (fun _ _ => LdstEvent.pushed.inj) mf
      rw [hcount]
      by_cases hmem : mf ∈ mfs
      · have hold : tr.count (.pushed mf) = 0 :=
          List.count_eq_zero.mpr fun hmf => hdisj mf hmf hmem
        have hone : mfs.count mf ≤ 1 := List.nodup_iff_count_le_one.mp hnodup.of_map mf
        omega
      · rw [List.count_eq_zero.mpr hmem]
        exact h.once mf
  · obtain ⟨huid, hlen, hquiet⟩ := quiet_of_step hs fun inst addrs context heq =>
      hop ⟨inst, addrs, context, heq⟩
    have hmem : ∀ mf, .pushed mf ∈ tr ++ ev ↔ .pushed mf ∈ tr := by simp [hquiet]
    refine ⟨hlen.trans h.banks, fun mf hmf => (h.id_lt mf ((hmem mf).mp hmf)).trans_le huid,
      fun mf mf' hmf hmf' => h.unique mf mf' ((hmem mf).mp hmf) ((hmem mf').mp hmf'),
      fun mf => ?_⟩
    rw [List.count_append, List.count_eq_zero.mpr (hquiet mf)]
    exact h.once mf

theorem Run.numbered {P : LdstUnit → Op → Prop} {tr : List LdstEvent} (h : Run cfg P u tr) :
    Numbered cfg u tr := by
  induction h with
  | start lines => exact numbered_create lines
  | step _ op _ _ hs ih => exact ih.step hs

end Steps

/-- One bank, and room for one request on the way to the TLB. -/
def oneBank (l1d : CacheConfig) : LdstConfig where
  l1d := l1d
  numBanks := 1
  bankIndex _ := 0
  l1HitLatency := 0
  maxLatencyQueueSize := 4
  packetSize := 32
  toTlbSize := 1
  toRegSize := 1
  banks_pos := Nat.one_pos

def sampleStore : NdpInstruction :=
  { opcode := .vse32, operandType := .v, src := ![0, 0, 0, 0, 0], dest := 0, segDest := 0,
    segCnt := 0, doBranch := false }

end LdstUnit

end NdpSim
