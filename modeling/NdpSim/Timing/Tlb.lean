import NdpSim.Cache.Forward
import NdpSim.Library.DelayQueue

/-!
# Address translation

A request waits for the latency of the TLB and is then looked up in a read-only cache of the page
table. A hit, or any request of an ideal TLB, is finished at once; a miss waits for its entry. An
entry that no TLB has seen before can take a further latency on its way back.

An ideal TLB never asks its cache but goes on as if it had missed: with the finished queue full
the request is popped all the same.
-/
namespace NdpSim

open Library

structure TlbConfig where
  cache : CacheConfig
  pageSize : Nat
  entrySize : Nat
  hitLatency : Nat
  requestQueueSize : Nat
  ideal : Bool
  useDramTlb : Bool
  dramMissHandling : Bool
  dramMissHandlingLatency : Nat

def dramTlbBase : BitVec 64 := 0x100000000000#64

/-- A request is accepted, and one is taken from the finished queue. -/
inductive TlbEvent
  | accepted (mf : MemFetch)
  | popped (mf : MemFetch)
  deriving DecidableEq

/-- `made` are the requests the TLB has made requests of its own for, which are numbered in this
order. `memory` has those that were sent to memory; `accessed` is shared by all TLBs. -/
structure Tlb where
  requestQueue : DelayQueue MemFetch
  dramQueue : DelayQueue MemFetch
  cache : Cache
  finished : List MemFetch
  accessed : List (BitVec 64)
  memory : List MemFetch
  made : List MemFetch

namespace Tlb

variable (cfg : TlbConfig)

def create (lines : Lines) : Tlb where
  requestQueue := .create cfg.requestQueueSize
  dramQueue := .create cfg.requestQueueSize
  cache := .initial lines
  finished := []
  accessed := []
  memory := []
  made := []

/-- An ideal TLB has no latency. -/
def hitLatency : Nat := if cfg.ideal then 0 else cfg.hitLatency

def full (t : Tlb) : Bool :=
  cfg.requestQueueSize ≤ t.requestQueue.entries.length + t.dramQueue.entries.length

def finishedFull (t : Tlb) : Bool := cfg.requestQueueSize ≤ t.finished.length

def access (t : Tlb) (mf : MemFetch) : Except Fault Tlb :=
  if t.full cfg then .error .assertion
  else .ok { t with requestQueue := t.requestQueue.push mf (hitLatency cfg) }

def getTlbAddr (addr : BitVec 64) : BitVec 64 :=
  BitVec.ofNat 64 (addr.toNat / cfg.pageSize * cfg.entrySize) + dramTlbBase

/-- The request of the TLB for the entry of a page. -/
def tlbRequest (t : Tlb) (mf : MemFetch) : MemFetch where
  id := t.made.length
  addr := getTlbAddr cfg mf.addr
  isWrite := false
  isAtomic := false
  fromNdp := true
  byteCount := 0
  dataSize := cfg.entrySize
  dirtyMask := 0

/-- `get_tlb_original_mf` -/
def original (t : Tlb) (tlbMf : MemFetch) : MemFetch := t.made[tlbMf.id]?.getD tlbMf

/-- `fill`: the entry has come from memory. -/
def fill (t : Tlb) (mf : MemFetch) (time : Nat) : Except Fault Tlb :=
  if !cfg.dramMissHandling then
    if mf.addr < dramTlbBase then .error .assertion
    else do return { t with cache := ← t.cache.fill cfg.cache mf.id time }
  else if mf.addr ∉ t.accessed then
    .ok { t with
      accessed := if cfg.useDramTlb then mf.addr :: t.accessed else t.accessed
      dramQueue := t.dramQueue.push mf cfg.dramMissHandlingLatency }
  else do return { t with cache := ← t.cache.fill cfg.cache mf.id time }

/-- An entry that was new has arrived. -/
def dramArrival (t : Tlb) (time : Nat) : Except Fault Tlb :=
  match t.dramQueue.top? with
  | none => .ok t
  | some mf => do
    return { t with cache := ← t.cache.fill cfg.cache mf.id time, dramQueue := t.dramQueue.pop }

/-- A request that waited for its entry is finished. -/
def nextAccess (t : Tlb) : Except Fault Tlb :=
  if t.cache.accessReady && !t.finishedFull cfg then do
    let (tlbMf, cache) ← t.cache.popNextAccess
    return { t with cache := cache, finished := t.finished ++ [t.original tlbMf] }
  else .ok t

/-- What follows from the lookup for the first request. -/
def afterLookup (t : Tlb) (mf : MemFetch) (stat : CacheRequestStatus) : Tlb :=
  if (stat = .hit ∨ cfg.ideal) ∧ t.finishedFull cfg = false then
    { t with finished := t.finished ++ [mf], requestQueue := t.requestQueue.pop }
  else if stat = .hit ∧ t.finishedFull cfg then t
  else if stat ≠ .reservationFail then { t with requestQueue := t.requestQueue.pop }
  else t

/-- The first request whose latency is over is looked up. -/
def lookupFirst (t : Tlb) (time : Nat) : Except Fault Tlb :=
  match t.requestQueue.top? with
  | none => .ok t
  | some mf => do
    let tlbMf := t.tlbRequest cfg mf
    let t := { t with made := t.made ++ [mf] }
    if cfg.ideal then return t.afterLookup cfg mf .miss
    let (stat, _, cache) ←
      { t.cache with uid := tlbMf.id + 1 }.access .readOnly cfg.cache tlbMf time
    return { t with cache := cache }.afterLookup cfg mf stat

/-- `bank_access_cycle` -/
def bankAccessCycle (t : Tlb) (time : Nat) : Except Fault Tlb := do
  let t ← t.dramArrival cfg time
  let t ← t.nextAccess cfg
  t.lookupFirst cfg time

/-- `cycle` -/
def cycle (t : Tlb) (toMemFull : Bool) : Tlb :=
  let (sent, cache) := t.cache.cycle toMemFull
  { t with
    cache := cache
    memory := t.memory ++ sent.toList
    requestQueue := t.requestQueue.cycle
    dramQueue := t.dramQueue.cycle }

/-! ## Runs -/

inductive Op
  | access (mf : MemFetch)
  | bankAccessCycle (time : Nat)
  | cycle (toMemFull : Bool)
  | fill (mf : MemFetch) (time : Nat)
  | pop
  /-- another TLB sees an entry for the first time -/
  | seen (addr : BitVec 64)

def step (t : Tlb) : Op → Except Fault (Tlb × List TlbEvent)
  | .access mf => do return (← t.access cfg mf, [.accepted mf])
  | .bankAccessCycle time => do return (← t.bankAccessCycle cfg time, [])
  | .cycle toMemFull => return (t.cycle toMemFull, [])
  | .fill mf time => do return (← { t with memory := t.memory.erase mf }.fill cfg mf time, [])
  | .pop =>
    match t.finished with
    | [] => return (t, [])
    | mf :: rest => return ({ t with finished := rest }, [.popped mf])
  | .seen addr => return ({ t with accessed := addr :: t.accessed }, [])

/-- Memory answers what it was sent, once. -/
def Offered (t : Tlb) : Op → Prop
  | .fill mf _ => mf ∈ t.memory
  | _ => True

/-- The runs in which every step meets `P`. -/
inductive Run (cfg : TlbConfig) (P : Tlb → Op → Prop) : Tlb → List TlbEvent → Prop
  | start (lines : Lines) : Run cfg P (create cfg lines) []
  | step {t t' : Tlb} {tr ev : List TlbEvent} (run : Run cfg P t tr) (op : Op) (meets : P t op)
      (offered : t.Offered op) (h : t.step cfg op = .ok (t', ev)) : Run cfg P t' (tr ++ ev)

/-! ## Conservation -/

def acceptedOf (tr : List TlbEvent) : List MemFetch :=
  tr.filterMap fun
    | .accepted mf => some mf
    | .popped _ => none

def poppedOf (tr : List TlbEvent) : List MemFetch :=
  tr.filterMap fun
    | .popped mf => some mf
    | .accepted _ => none

@[simp] theorem acceptedOf_append (tr tr' : List TlbEvent) :
    acceptedOf (tr ++ tr') = acceptedOf tr ++ acceptedOf tr' := List.filterMap_append

@[simp] theorem poppedOf_append (tr tr' : List TlbEvent) :
    poppedOf (tr ++ tr') = poppedOf tr ++ poppedOf tr' := List.filterMap_append

/-- The requests the TLB has: in its queues, or waiting for an entry. -/
def holds (t : Tlb) : Multiset MemFetch :=
  t.requestQueue.items + t.cache.waiters.map t.original + t.finished

/-- The numbers of the requests that have been sent for an entry that has not come. -/
def asked (t : Tlb) : List Nat :=
  (t.cache.missQueue ++ t.memory ++ t.dramQueue.items).map MemFetch.id

/-- Nothing is under way. -/
structure Drained (t : Tlb) : Prop where
  requestQueue : t.requestQueue.items = []
  asked : t.asked = []
  ready : t.cache.accessReady = false
  finished : t.finished = []

/-- Every request that was accepted has been popped or is still there, and once nothing is under
way all of them have been popped. -/
structure Conserves (t : Tlb) (tr : List TlbEvent) : Prop where
  balance : (acceptedOf tr : Multiset MemFetch) = poppedOf tr + t.holds
  drained : t.Drained → (poppedOf tr).Perm (acceptedOf tr)

/-- An ideal TLB has room for what it finishes. -/
def RoomIfIdeal (t : Tlb) : Op → Prop
  | .bankAccessCycle _ =>
    cfg.ideal = true → t.requestQueue.top? ≠ none → t.finishedFull cfg = false
  | _ => True

/-- The requests for entries that are under way are those the cache waits for, and each request
the cache holds was made by the TLB. -/
structure Sound (t : Tlb) : Prop where
  waiter_lt : ∀ w ∈ t.cache.waiters, w.id < t.made.length
  key_lt : ∀ id ∈ t.cache.extraMfFields.keys, id < t.made.length
  tracked : Cache.Tracked cfg.cache t.cache
  uid_le : t.cache.uid ≤ t.made.length
  keys : (t.cache.extraMfFields.keys : Multiset Nat) = t.asked
  unused : cfg.ideal = true → t.cache.currentResponse = [] ∧ t.asked = []

structure Inv (t : Tlb) (tr : List TlbEvent) : Prop extends Sound cfg t where
  balance : (acceptedOf tr : Multiset MemFetch) = poppedOf tr + t.holds

variable {cfg} {t t' : Tlb} {tr ev : List TlbEvent} {mf : MemFetch} {time : Nat}

theorem inv_create (cfg : TlbConfig) (lines : Lines) : Inv cfg (create cfg lines) [] where
  balance := by simp [create, holds, acceptedOf, poppedOf]
  waiter_lt := by simp [create]
  key_lt := by simp [create, Cache.initial]
  tracked := Cache.tracked_initial _ _
  uid_le := Nat.le_refl _
  keys := rfl
  unused _ := ⟨rfl, rfl⟩

/-! ## The cache -/

section Cache

variable {c c' : Cache} {status : CacheRequestStatus} {events : List CacheEvent}

/-- A read that misses may ask for its block; nothing else is sent. -/
theorem asks_of_access {ccfg : CacheConfig} (hread : mf.isWrite = false)
    (hfresh : mf.id ∉ c.extraMfFields.keys)
    (h : c.access .readOnly ccfg mf time = .ok (status, events, c')) :
    c'.uid = c.uid ∧ ∃ sent, c'.missQueue = c.missQueue ++ sent ∧
      c'.extraMfFields.keys = sent.map MemFetch.id ++ c.extraMfFields.keys ∧
      ∀ q ∈ sent, q.id = mf.id := by
  cases Cache.effect_access h with
  | refused => exact ⟨rfl, [], by simp⟩
  | forwarded tells write => simp [hread] at write
  | hit => exact ⟨rfl, [], by simp [Cache.forwardsHit, hread]⟩
  | overwritten tells tag missed found whole => simp [Cache.overwrites, hread] at whole
  | awaited tells tag missed found fetched room rewrites joins uids =>
    have hwaiter : Cache.waiter ccfg c mf = mf := by simp [Cache.waiter, hread]
    rw [hwaiter] at joins
    refine ⟨by simp [uids, hread, Cache.evictedPackets], _, ?_,
      Cache.keys_of_joins joins hfresh, ?_⟩
    · simp [Cache.forwardsMiss, hread, Cache.evictedPackets]
    · cases joins with
      | merged => simp
      | requested => simp

end Cache

/-- The requests behind those the cache gives back do not change as further ones are made. -/
theorem map_original_append {ws : Multiset MemFetch} (hlt : ∀ w ∈ ws, w.id < t.made.length)
    (hmade : t'.made = t.made ++ [mf]) : ws.map t'.original = ws.map t.original := by
  refine Multiset.map_congr rfl fun w hw => ?_
  rw [original, original, hmade, List.getElem?_append_left (hlt w hw)]

theorem original_congr (hmade : t'.made = t.made) : t'.original = t.original := by
  funext w
  rw [original, original, hmade]

theorem original_made (hmade : t'.made = t.made ++ [mf]) {w : MemFetch}
    (hid : w.id = t.made.length) : t'.original w = mf := by
  rw [original, hmade, hid, List.getElem?_concat_length]
  rfl

/-- An entry has come and is put into the cache. -/
theorem Inv.filled {id : Nat} (hinv : Inv cfg t tr)
    (hfill : t.cache.fill cfg.cache id time = .ok t'.cache)
    (hqueue : t'.requestQueue.items = t.requestQueue.items) (hfinished : t'.finished = t.finished)
    (hmade : t'.made = t.made)
    (hwas : (t.memory ++ t.dramQueue.items).map MemFetch.id |>.Perm
      (id :: (t'.memory ++ t'.dramQueue.items).map MemFetch.id)) : Inv cfg t' tr := by
  obtain ⟨f, hfills⟩ := Cache.fill_cases hfill
  have hwaiters := Cache.waiters_fill hfill
  have hasked : t.asked.Perm (id :: t'.asked) := by
    simp only [asked, List.append_assoc, List.map_append, hfills.queue] at hwas ⊢
    exact (hwas.append_left _).trans List.perm_middle
  have hkeys : t'.cache.extraMfFields.keys = t.cache.extraMfFields.keys.erase id := by
    rw [hfills.extra, AList.keys_erase]
  refine ⟨⟨?_, ?_, ?_, ?_, ?_, ?_⟩, ?_⟩
  · rw [hwaiters, hmade]
    exact hinv.waiter_lt
  · rw [hkeys, hmade]
    exact fun id' hid => hinv.key_lt id' (List.mem_of_mem_erase hid)
  · exact hinv.tracked.fill hfills
  · rw [hfills.uid, hmade]
    exact hinv.uid_le
  · rw [hkeys, ← Multiset.coe_erase, hinv.keys, Multiset.coe_eq_coe.mpr hasked,
      ← Multiset.cons_coe, Multiset.erase_cons_head]
  · intro hideal
    rw [(hinv.unused hideal).2] at hasked
    simp at hasked
  · rw [hinv.balance, holds, holds, hqueue, hwaiters, hfinished, original_congr hmade]

/-! ## Steps -/

theorem Inv.access (hinv : Inv cfg t tr) (h : t.access cfg mf = .ok t') :
    Inv cfg t' (tr ++ [.accepted mf]) := by
  simp only [Tlb.access] at h
  split at h
  · cases h
  obtain rfl := Except.ok.inj h
  refine ⟨⟨hinv.waiter_lt, hinv.key_lt, hinv.tracked, hinv.uid_le, hinv.keys, hinv.unused⟩, ?_⟩
  have hsame : original { t with
      requestQueue := t.requestQueue.push mf (hitLatency cfg) } = t.original := rfl
  have haccepted : acceptedOf [.accepted mf] = [mf] := rfl
  have hpopped : poppedOf [.accepted mf] = [] := rfl
  have hbalance := hinv.balance
  simp only [holds] at hbalance
  simp only [holds, acceptedOf_append, poppedOf_append, DelayQueue.items_push, haccepted, hpopped,
    ← Multiset.coe_add, hbalance, List.append_nil, hsame]
  abel

theorem Inv.fill (hinv : Inv cfg t tr) (hmem : mf ∈ t.memory)
    (h : { t with memory := t.memory.erase mf }.fill cfg mf time = .ok t') : Inv cfg t' tr := by
  have hperm := List.perm_cons_erase hmem
  have hfilled : ∀ {cache}, t.cache.fill cfg.cache mf.id time = .ok cache →
      Inv cfg { t with cache := cache, memory := t.memory.erase mf } tr := by
    intro cache hfill
    refine hinv.filled hfill rfl rfl rfl ?_
    rw [← List.map_cons, ← List.cons_append]
    exact (hperm.append_right _).map _
  simp only [Tlb.fill] at h
  split at h
  · split at h
    · cases h
    · obtain ⟨cache, hfill, h⟩ := bind_eq_ok.mp h
      obtain rfl := Except.ok.inj h
      exact hfilled hfill
  · split at h
    · obtain rfl := Except.ok.inj h
      have hasked : (t.asked).Perm (asked { t with
          memory := t.memory.erase mf
          dramQueue := t.dramQueue.push mf cfg.dramMissHandlingLatency }) := by
        simp only [asked, DelayQueue.items_push, List.append_assoc]
        refine List.Perm.map _ (List.Perm.append_left _ ?_)
        refine (hperm.append_right _).trans ?_
        rw [List.cons_append, ← List.append_assoc]
        exact (List.perm_append_singleton _ _).symm
      refine ⟨⟨hinv.waiter_lt, hinv.key_lt, hinv.tracked, hinv.uid_le,
        hinv.keys.trans (Multiset.coe_eq_coe.mpr hasked), fun hideal => ?_⟩, hinv.balance⟩
      obtain ⟨hresp, hnone⟩ := hinv.unused hideal
      rw [hnone] at hasked
      exact ⟨hresp, hasked.nil_eq.symm⟩
    · obtain ⟨cache, hfill, h⟩ := bind_eq_ok.mp h
      obtain rfl := Except.ok.inj h
      exact hfilled hfill

theorem Inv.dramArrival (hinv : Inv cfg t tr) (h : t.dramArrival cfg time = .ok t') :
    Inv cfg t' tr := by
  simp only [Tlb.dramArrival] at h
  split at h
  · exact Except.ok.inj h ▸ hinv
  case h_2 mf htop =>
    obtain ⟨cache, hfill, h⟩ := bind_eq_ok.mp h
    obtain rfl := Except.ok.inj h
    refine hinv.filled hfill rfl rfl rfl ?_
    rw [DelayQueue.items_of_top? htop, ← List.map_cons]
    exact List.perm_middle.map _

theorem Inv.nextAccess (hinv : Inv cfg t tr) (h : t.nextAccess cfg = .ok t') :
    Inv cfg t' tr := by
  simp only [Tlb.nextAccess] at h
  split at h
  case isFalse => exact Except.ok.inj h ▸ hinv
  case isTrue hready =>
    obtain ⟨⟨tlbMf, cache⟩, hpop, h⟩ := bind_eq_ok.mp h
    obtain rfl := Except.ok.inj h
    obtain ⟨B, rest, e, hpops⟩ := Cache.popNextAccess_cases hpop
    have hwaiters := Cache.waiters_popNextAccess hpop
    refine ⟨⟨fun w hw => hinv.waiter_lt w ?_, ?_, hinv.tracked.pop hpops, ?_, ?_, ?_⟩, ?_⟩
    · rw [hwaiters]
      exact Multiset.mem_cons_of_mem hw
    · rw [hpops.extra]
      exact hinv.key_lt
    · rw [hpops.uid]
      exact hinv.uid_le
    · rw [hpops.extra, hinv.keys]
      simp only [asked, hpops.queue]
    · intro hideal
      simp [Cache.accessReady, (hinv.unused hideal).1] at hready
    · have hsame : original { t with cache := cache, finished := t.finished ++
          [t.original tlbMf] } = t.original := rfl
      rw [hinv.balance, holds, holds, hwaiters, Multiset.map_cons, hsame, ← Multiset.coe_add,
        Multiset.coe_singleton, ← Multiset.singleton_add]
      abel

/-! ## The lookup -/

/-- The first request goes from the queue to the finished ones. -/
theorem holds_finish (htop : t.requestQueue.top? = some mf) :
    holds { t with finished := t.finished ++ [mf], requestQueue := t.requestQueue.pop } =
      t.holds := by
  have hsame : original { t with
    finished := t.finished ++ [mf], requestQueue := t.requestQueue.pop } = t.original := rfl
  rw [holds, holds, hsame, DelayQueue.items_of_top? htop, ← Multiset.coe_add,
    Multiset.coe_singleton, ← Multiset.cons_coe, ← Multiset.singleton_add]
  abel

/-- The first request leaves the queue. -/
theorem holds_pop (htop : t.requestQueue.top? = some mf) :
    mf ::ₘ holds { t with requestQueue := t.requestQueue.pop } = t.holds := by
  have hsame : original { t with requestQueue := t.requestQueue.pop } = t.original := rfl
  rw [holds, holds, hsame, DelayQueue.items_of_top? htop, ← Multiset.cons_coe, Multiset.cons_add,
    Multiset.cons_add]

/-- Unless it waits for its entry the request stays with the TLB, which is ideal only if there is
room for what it finishes. -/
theorem holds_afterLookup {stat : CacheRequestStatus} (htop : t.requestQueue.top? = some mf)
    (hroom : cfg.ideal = true → t.finishedFull cfg = false)
    (hstat : stat = .hit ∨ stat = .reservationFail ∨ cfg.ideal = true) :
    (t.afterLookup cfg mf stat).holds = t.holds := by
  unfold Tlb.afterLookup
  split
  · exact holds_finish htop
  case isFalse hnot =>
  split
  · rfl
  case isFalse hnot' =>
  split
  case isFalse => rfl
  case isTrue hne =>
    have hideal : cfg.ideal = true := by
      obtain rfl | h | h := hstat
      · cases hfull : t.finishedFull cfg <;> simp_all
      · exact absurd h hne
      · exact h
    exact absurd ⟨.inr hideal, hroom hideal⟩ hnot

theorem holds_afterLookup_miss (htop : t.requestQueue.top? = some mf)
    (hreal : cfg.ideal = false) : mf ::ₘ (t.afterLookup cfg mf .miss).holds = t.holds := by
  simp only [Tlb.afterLookup, hreal]
  exact holds_pop htop

theorem Sound.afterLookup (h : Sound cfg t) (mf : MemFetch) (stat : CacheRequestStatus) :
    Sound cfg (t.afterLookup cfg mf stat) := by
  have hsame : ∀ {t'}, t'.cache = t.cache → t'.memory = t.memory → t'.dramQueue = t.dramQueue →
      t'.made = t.made → Sound cfg t' := by
    rintro ⟨⟩ rfl rfl rfl rfl
    exact ⟨h.waiter_lt, h.key_lt, h.tracked, h.uid_le, h.keys, h.unused⟩
  unfold Tlb.afterLookup
  split
  · exact hsame rfl rfl rfl rfl
  split
  · exact h
  split
  · exact hsame rfl rfl rfl rfl
  · exact h

/-- A request for an entry has been made, for a TLB that does not use it. -/
theorem Sound.made (h : Sound cfg t) (mf : MemFetch) :
    Sound cfg { t with made := t.made ++ [mf] } := by
  have hle : t.made.length ≤ (t.made ++ [mf]).length := by simp
  exact ⟨fun w hw => (h.waiter_lt w hw).trans_le hle, fun id hid => (h.key_lt id hid).trans_le hle,
    h.tracked, h.uid_le.trans hle, h.keys, h.unused⟩

section Lookup

variable {stat : CacheRequestStatus} {events : List CacheEvent} {cache : Cache}

theorem Sound.looked (h : Sound cfg t) (hreal : cfg.ideal = false)
    (haccess : { t.cache with uid := t.made.length + 1 }.access .readOnly cfg.cache
      (t.tlbRequest cfg mf) time = .ok (stat, events, cache)) :
    Sound cfg { t with made := t.made ++ [mf], cache := cache } := by
  have hfresh : (t.tlbRequest cfg mf).id ∉ t.cache.extraMfFields.keys := by
    intro hmem
    exact Nat.lt_irrefl _ (h.key_lt _ hmem)
  have hlookup : t.cache.extraMfFields.lookup (t.tlbRequest cfg mf).id = none :=
    AList.lookup_eq_none.mpr hfresh
  obtain ⟨huid, sent, hqueue, hkeys, hsent⟩ :=
    asks_of_access (c := { t.cache with uid := t.made.length + 1 }) rfl hfresh haccess
  have hwaiters := Cache.waiters_read rfl haccess
  have htracked : Cache.Tracked cfg.cache { t.cache with uid := t.made.length + 1 } :=
    h.tracked.of_eq rfl (h.uid_le.trans (Nat.le_succ _)) (fun _ => Iff.rfl) rfl
  have hlen : (t.made ++ [mf]).length = t.made.length + 1 := by simp
  refine ⟨fun w hw => ?_, fun id hid => ?_, htracked.access (Nat.lt_succ_self _) hlookup haccess,
    ?_, ?_, fun hideal => by simp [hreal] at hideal⟩
  · rw [hlen]
    have hcases : w = t.tlbRequest cfg mf ∨ w ∈ t.cache.waiters := by
      simp only [hwaiters] at hw
      split at hw
      · exact Multiset.mem_cons.mp hw
      · exact .inr hw
    obtain rfl | hw := hcases
    · exact Nat.lt_succ_self _
    · exact (h.waiter_lt w hw).trans (Nat.lt_succ_self _)
  · rw [hlen]
    rw [hkeys] at hid
    obtain hid | hid := List.mem_append.mp hid
    · obtain ⟨q, hq, rfl⟩ := List.mem_map.mp hid
      rw [hsent q hq]
      exact Nat.lt_succ_self _
    · exact (h.key_lt id hid).trans (Nat.lt_succ_self _)
  · rw [huid, hlen]
  · have hold := h.keys
    simp only [asked, List.map_append, ← Multiset.coe_add] at hold ⊢
    rw [hkeys, hqueue, List.map_append, ← Multiset.coe_add, ← Multiset.coe_add, hold]
    abel

/-- The request that was looked up is with the TLB as before if it is kept, is finished or waits
for its entry. -/
theorem holds_looked (h : Sound cfg t) (hreal : cfg.ideal = false)
    (htop : t.requestQueue.top? = some mf)
    (haccess : { t.cache with uid := t.made.length + 1 }.access .readOnly cfg.cache
      (t.tlbRequest cfg mf) time = .ok (stat, events, cache)) :
    (afterLookup cfg { t with made := t.made ++ [mf], cache := cache } mf stat).holds =
      t.holds := by
  have hwaiters : cache.waiters = if stat = .miss then t.tlbRequest cfg mf ::ₘ t.cache.waiters
      else t.cache.waiters :=
    Cache.waiters_read (c := { t.cache with uid := t.made.length + 1 }) rfl haccess
  have hold : t.cache.waiters.map (original { t with made := t.made ++ [mf], cache := cache }) =
      t.cache.waiters.map t.original := map_original_append h.waiter_lt rfl
  by_cases hmiss : stat = .miss
  · subst hmiss
    have hlooked : holds { t with made := t.made ++ [mf], cache := cache } = mf ::ₘ t.holds := by
      rw [holds, holds, hwaiters, if_pos rfl, Multiset.map_cons, hold, original_made rfl rfl,
        Multiset.add_cons, Multiset.cons_add]
    refine (Multiset.cons_inj_right mf).mp ?_
    rw [← hlooked]
    exact holds_afterLookup_miss htop hreal
  · have hlooked : holds { t with made := t.made ++ [mf], cache := cache } = t.holds := by
      rw [holds, holds, hwaiters, if_neg hmiss, hold]
    rw [← hlooked]
    refine holds_afterLookup htop (fun hideal => by simp [hreal] at hideal) ?_
    obtain h | h | h := Cache.status_of_access haccess
    · exact .inl h
    · exact absurd h hmiss
    · exact .inr (.inl h)

end Lookup

theorem Inv.lookupFirst (hinv : Inv cfg t tr)
    (hroom : cfg.ideal = true → t.requestQueue.top? ≠ none → t.finishedFull cfg = false)
    (h : t.lookupFirst cfg time = .ok t') : Inv cfg t' tr := by
  simp only [Tlb.lookupFirst] at h
  split at h
  case h_1 => exact Except.ok.inj h ▸ hinv
  case h_2 mf htop =>
    by_cases hideal : cfg.ideal = true
    · simp only [hideal, if_true] at h
      obtain rfl := Except.ok.inj h
      refine ⟨(hinv.toSound.made mf).afterLookup _ _, ?_⟩
      have hlooked : holds { t with made := t.made ++ [mf] } = t.holds := by
        rw [holds, holds, map_original_append hinv.waiter_lt rfl]
      rw [holds_afterLookup (t := { t with made := t.made ++ [mf] }) htop
        (fun _ => hroom hideal (by simp [htop])) (.inr (.inr hideal)), hlooked, hinv.balance]
    · simp only [hideal] at h
      obtain ⟨⟨stat, events, cache⟩, haccess, h⟩ := bind_eq_ok.mp h
      obtain rfl := Except.ok.inj h
      have hreal : cfg.ideal = false := by simpa using hideal
      refine ⟨(hinv.toSound.looked hreal haccess).afterLookup _ _, ?_⟩
      rw [holds_looked hinv.toSound hreal htop haccess, hinv.balance]

/-- Before the lookup an ideal TLB changes nothing. -/
theorem eq_of_ideal {t₁ t₂ : Tlb} (hinv : Inv cfg t tr) (hideal : cfg.ideal = true)
    (h₁ : t.dramArrival cfg time = .ok t₁) (h₂ : t₁.nextAccess cfg = .ok t₂) : t₂ = t := by
  obtain ⟨hresp, hasked⟩ := hinv.unused hideal
  have hitems : t.dramQueue.items = [] := by
    simp only [asked, List.map_eq_nil_iff, List.append_eq_nil_iff] at hasked
    exact hasked.2
  have htop : t.dramQueue.top? = none := by
    cases htop : t.dramQueue.top? with
    | none => rfl
    | some mf => simp [DelayQueue.items_of_top? htop] at hitems
  simp only [Tlb.dramArrival, htop] at h₁
  obtain rfl := Except.ok.inj h₁
  simp only [Tlb.nextAccess, Cache.accessReady, hresp] at h₂
  exact (Except.ok.inj h₂).symm

theorem Inv.bankAccessCycle (hinv : Inv cfg t tr)
    (hroom : cfg.ideal = true → t.requestQueue.top? ≠ none → t.finishedFull cfg = false)
    (h : t.bankAccessCycle cfg time = .ok t') : Inv cfg t' tr := by
  obtain ⟨t₁, h₁, h⟩ := bind_eq_ok.mp h
  obtain ⟨t₂, h₂, h⟩ := bind_eq_ok.mp h
  refine ((hinv.dramArrival h₁).nextAccess h₂).lookupFirst (fun hideal => ?_) h
  rw [eq_of_ideal hinv hideal h₁ h₂]
  exact hroom hideal

theorem Inv.cycle (hinv : Inv cfg t tr) (toMemFull : Bool) : Inv cfg (t.cycle toMemFull) tr := by
  have hstill : ∀ {memory}, memory = t.memory → Inv cfg { t with
      memory := memory
      requestQueue := t.requestQueue.cycle
      dramQueue := t.dramQueue.cycle } tr := by
    rintro _ rfl
    exact ⟨⟨hinv.waiter_lt, hinv.key_lt, hinv.tracked, hinv.uid_le, hinv.keys, hinv.unused⟩,
      hinv.balance⟩
  simp only [Tlb.cycle, Cache.cycle]
  split
  · exact hstill (List.append_nil _)
  case h_2 mf rest hqueue =>
    cases toMemFull with
    | true => exact hstill (List.append_nil _)
    | false =>
      have htracked : Cache.Tracked cfg.cache { t.cache with missQueue := rest } :=
        hinv.tracked.of_eq rfl (Nat.le_refl _) (fun _ => Iff.rfl) rfl
      have hasked : t.asked.Perm ((rest ++ (t.memory ++ [mf]) ++ t.dramQueue.items).map
          MemFetch.id) := by
        rw [asked, hqueue, ← List.append_assoc rest]
        refine List.Perm.map _ (List.Perm.append_right _ ?_)
        exact (List.perm_append_singleton mf (rest ++ t.memory)).symm
      refine ⟨⟨hinv.waiter_lt, hinv.key_lt, htracked, hinv.uid_le,
        hinv.keys.trans (Multiset.coe_eq_coe.mpr hasked), fun hideal => ?_⟩, hinv.balance⟩
      obtain ⟨hresp, hnone⟩ := hinv.unused hideal
      rw [hnone] at hasked
      exact ⟨hresp, hasked.nil_eq.symm⟩

/-- What a step of the TLB keeps. -/
theorem Inv.step {op : Op} (hinv : Inv cfg t tr) (hroom : RoomIfIdeal cfg t op)
    (hoffered : t.Offered op) (h : t.step cfg op = .ok (t', ev)) : Inv cfg t' (tr ++ ev) := by
  cases op with
  | access mf =>
    obtain ⟨t₁, h₁, h⟩ := bind_eq_ok.mp h
    obtain ⟨rfl, rfl⟩ := Prod.mk.inj (Except.ok.inj h)
    exact hinv.access h₁
  | bankAccessCycle time =>
    obtain ⟨t₁, h₁, h⟩ := bind_eq_ok.mp h
    obtain ⟨rfl, rfl⟩ := Prod.mk.inj (Except.ok.inj h)
    rw [List.append_nil]
    exact hinv.bankAccessCycle hroom h₁
  | cycle toMemFull =>
    obtain ⟨rfl, rfl⟩ := Prod.mk.inj (Except.ok.inj h)
    rw [List.append_nil]
    exact hinv.cycle toMemFull
  | fill mf time =>
    obtain ⟨t₁, h₁, h⟩ := bind_eq_ok.mp h
    obtain ⟨rfl, rfl⟩ := Prod.mk.inj (Except.ok.inj h)
    rw [List.append_nil]
    exact hinv.fill hoffered h₁
  | pop =>
    simp only [Tlb.step] at h
    split at h
    · obtain ⟨rfl, rfl⟩ := Prod.mk.inj (Except.ok.inj h)
      rw [List.append_nil]
      exact hinv
    case h_2 mf rest hfinished =>
      obtain ⟨rfl, rfl⟩ := Prod.mk.inj (Except.ok.inj h)
      refine ⟨⟨hinv.waiter_lt, hinv.key_lt, hinv.tracked, hinv.uid_le, hinv.keys, hinv.unused⟩, ?_⟩
      have haccepted : acceptedOf [.popped mf] = [] := rfl
      have hpopped : poppedOf [.popped mf] = [mf] := rfl
      have hsame : original { t with finished := rest } = t.original := rfl
      have hbalance := hinv.balance
      rw [acceptedOf_append, haccepted, List.append_nil, hbalance, poppedOf_append, hpopped, holds,
        holds, hsame, hfinished, ← Multiset.coe_add, Multiset.coe_singleton, ← Multiset.cons_coe,
        ← Multiset.singleton_add]
      abel
  | seen addr =>
    obtain ⟨rfl, rfl⟩ := Prod.mk.inj (Except.ok.inj h)
    rw [List.append_nil]
    exact ⟨⟨hinv.waiter_lt, hinv.key_lt, hinv.tracked, hinv.uid_le, hinv.keys, hinv.unused⟩,
      hinv.balance⟩

theorem inv_run (h : Run cfg (RoomIfIdeal cfg) t tr) : Inv cfg t tr := by
  induction h with
  | start lines => exact inv_create cfg lines
  | step run op meets offered h ih => exact ih.step meets offered h

theorem Inv.holds_eq_zero (hinv : Inv cfg t tr) (h : t.Drained) : t.holds = 0 := by
  have hkeys : t.cache.extraMfFields.keys = [] := by
    have hkeys := hinv.keys
    rw [h.asked] at hkeys
    exact (Multiset.coe_eq_zero _).mp hkeys
  have hresp : t.cache.currentResponse = [] := by
    simpa [Cache.accessReady] using h.ready
  rw [holds, hinv.tracked.waiters_eq_zero hresp hkeys, h.requestQueue, h.finished]
  rfl

/-- A TLB that has room for what it finishes at once loses no request and doubles none. -/
theorem conserves_of_room (h : Run cfg (RoomIfIdeal cfg) t tr) : t.Conserves tr := by
  have hinv := inv_run h
  refine ⟨hinv.balance, fun hdrained => ?_⟩
  have hbalance := hinv.balance
  rw [hinv.holds_eq_zero hdrained, add_zero] at hbalance
  exact (Multiset.coe_eq_coe.mp hbalance).symm

/-- A TLB with room for a single request. -/
def smallTlb (ideal : Bool) : TlbConfig where
  cache := { Cache.oneLine .noWriteAllocate with writePolicy := .readOnly }
  pageSize := 4096
  entrySize := 8
  hitLatency := 1
  requestQueueSize := 1
  ideal := ideal
  useDramTlb := true
  dramMissHandling := true
  dramMissHandlingLatency := 1

/-- A request of an ideal TLB, and one that misses and waits for its entry. -/
theorem conserves_of_room_one :
    (∃ t tr, Run (smallTlb true) (RoomIfIdeal (smallTlb true)) t tr ∧ t.Conserves tr ∧
      poppedOf tr = [Cache.wordRequest 0 8192 false]) ∧
    ∃ t tr, Run (smallTlb false) (RoomIfIdeal (smallTlb false)) t tr ∧ t.Conserves tr ∧
      poppedOf tr = [Cache.wordRequest 0 8192 false] := by
  have hempty (ideal : Bool) : Run (smallTlb ideal) (RoomIfIdeal (smallTlb ideal)) _ _ :=
    .start fun _ => Cache.emptyLine
  have hstart (ideal : Bool) := (hempty ideal).step
    (.access (Cache.wordRequest 0 8192 false)) trivial trivial rfl
  have hideal := ((hstart true).step (.bankAccessCycle 0) (fun _ _ => rfl) trivial rfl).step .pop
    trivial trivial rfl
  have hsent := (((hstart false).step (.cycle false) trivial trivial rfl).step
    (.bankAccessCycle 1) nofun trivial rfl).step (.cycle false) trivial trivial rfl
  have harrived := (hsent.step (.fill ⟨0, dramTlbBase, false, false, true, 0, 32, 0, false⟩ 2)
    trivial (List.mem_singleton_self _) rfl).step (.cycle false) trivial trivial rfl
  have hreal := (harrived.step (.bankAccessCycle 3) nofun trivial rfl).step .pop trivial trivial rfl
  exact ⟨⟨_, _, hideal, conserves_of_room hideal, rfl⟩, _, _, hreal, conserves_of_room hreal, rfl⟩

/-- An ideal TLB whose finished queue is full drops a request. -/
theorem not_conserves_full : ∃ t tr, Run (smallTlb true) (fun _ _ => True) t tr ∧
    ¬ t.Conserves tr := by
  have hstart : Run (smallTlb true) (fun _ _ => True) _ _ := .start fun _ => Cache.emptyLine
  have hrun := (((hstart.step (.access (Cache.wordRequest 0 8192 false)) trivial trivial
    rfl).step (.bankAccessCycle 0) trivial trivial rfl).step
    (.access (Cache.wordRequest 1 16384 false)) trivial trivial rfl).step
    (.bankAccessCycle 1) trivial trivial rfl
  refine ⟨_, _, hrun, fun h => ?_⟩
  have hcard := congrArg Multiset.card h.balance
  revert hcard
  decide

end Tlb

end NdpSim
