import NdpSim.Library.DelayQueue
import NdpSim.Library.Effects
import NdpSim.Library.Replay
import NdpSim.System.Message

/-!
# Back invalidation

A load can make the host give up a unit of addresses. Until the host has answered, replies to reads
of the unit are held by the memory of the device; the answer, a write with a mark, lets them go.
Which units are in progress is kept once for all devices, the replies are held by each of them.
-/
namespace NdpSim

open Library

structure BiConfig where
  enabled : Bool
  unitSize : Nat
  numChannels : Nat
  numBanks : Nat
  hitLatency : Nat
  requestQueueSize : Nat

/-- What becomes of the reply a bank finds at the head of its latency queue. -/
inductive BiOutcome
  | answered | held | sent | stays
  deriving DecidableEq

/-- The channel and the bank of a device. -/
structure BankPlace where
  device : Nat
  ch : Nat
  bank : Nat
  deriving DecidableEq

/-- A unit is in progress from now on, a bank looks at the head of its latency queue, and a reply
goes from the queue of released replies to the crossbar. -/
inductive BiEvent
  | began (unit : Nat)
  | looked (place : BankPlace) (mf : Message) (outcome : BiOutcome)
  | released (place : BankPlace) (mf : Message)
  deriving DecidableEq

/-- The queues of a bank on the way to the crossbar. -/
structure BiBank where
  latency : DelayQueue Message
  toCrossbarBi : List Message
  toCrossbar : List Message

structure BiPendingInfo where
  mf : Message
  ch : Nat
  bank : Nat
  deriving DecidableEq

/-- `banks` and `pendingLds` are those of all devices, by device; the rest belongs to the
configuration that they share. -/
structure BiSystem where
  banks : BankPlace → BiBank
  pendingLds : Nat → Nat → List BiPendingInfo
  handled : Finset Nat
  inprogress : Finset Nat
  inprogressMfs : Nat → Option Nat

namespace BiSystem

variable (cfg : BiConfig)

def create : BiSystem where
  banks _ := ⟨.create cfg.requestQueueSize, [], []⟩
  pendingLds _ _ := []
  handled := ∅
  inprogress := ∅
  inprogressMfs _ := none

def unitOf (addr : BitVec 64) : Nat := addr.toNat / cfg.unitSize

/-! ## The load-store unit -/

/-- A load of unit `ndpId`; `chance` is the outcome of the draw. -/
def load (s : BiSystem) (ndpId : Nat) (addr : BitVec 64) (chance : Bool) :
    Except Fault (BiSystem × List BiEvent) :=
  let unit := unitOf cfg addr
  if !cfg.enabled then .ok (s, [])
  else if chance ∧ unit ∉ s.handled ∧ unit ∉ s.inprogress then
    .ok ({ s with
      handled := insert unit s.handled
      inprogress := insert unit s.inprogress
      inprogressMfs := Function.update s.inprogressMfs unit (some ndpId) }, [.began unit])
  else if unit ∉ s.handled ∧ unit ∉ s.inprogress then
    .ok ({ s with handled := insert unit s.handled }, [])
  else if unit ∈ s.inprogress then
    match s.inprogressMfs unit with
    | none => .error .undefined
    | some owner => if owner = ndpId then .ok (s, []) else .error .assertion
  else .ok (s, [])

/-- A store never puts a unit in progress. -/
def store (s : BiSystem) (addr : BitVec 64) (chance : Bool) : BiSystem :=
  let unit := unitOf cfg addr
  if cfg.enabled ∧ chance ∧ unit ∉ s.handled ∧ unit ∉ s.inprogress then
    { s with handled := insert unit s.handled }
  else s

/-! ## `cache_cycle` -/

def setBank (s : BiSystem) (p : BankPlace) (b : BiBank) : BiSystem :=
  { s with banks := Function.update s.banks p b }

/-- The time of the latency queue goes on, and what the cache answers is put behind it. -/
def arrive (s : BiSystem) (p : BankPlace) (mfs : List Message) : BiSystem :=
  s.setBank p { s.banks p with
    latency := mfs.foldl (fun q mf => q.push mf cfg.hitLatency) (s.banks p).latency.cycle }

/-- Held replies go to the queues of their own banks. -/
def releaseTo (banks : BankPlace → BiBank) (device : Nat) (pending : List BiPendingInfo) :
    BankPlace → BiBank :=
  pending.foldl (fun banks info =>
    let p : BankPlace := ⟨device, info.ch, info.bank⟩
    Function.update banks p { banks p with
      toCrossbarBi := (banks p).toCrossbarBi ++ [info.mf] }) banks

/-- The answer of the host to an invalidation. -/
def isAnswer (mf : Message) : Bool := mf.isWrite && mf.data == .invalidated

/-- The answer `req` is at the head of bank `p`. -/
def answer (s : BiSystem) (p : BankPlace) (req : Message) : BiSystem :=
  let unit := unitOf cfg req.addr
  let s := s.setBank p { s.banks p with
    toCrossbarBi := (s.banks p).toCrossbarBi ++ [req]
    latency := (s.banks p).latency.pop }
  { s with
    banks := releaseTo s.banks p.device (s.pendingLds p.device unit)
    pendingLds := Function.update s.pendingLds p.device
      (Function.update (s.pendingLds p.device) unit [])
    inprogress := s.inprogress.erase unit
    inprogressMfs := Function.update s.inprogressMfs unit none }

/-- The reply `req` at the head of bank `p` has to wait. -/
def hold (s : BiSystem) (p : BankPlace) (req : Message) : BiSystem :=
  let unit := unitOf cfg req.addr
  { s.setBank p { s.banks p with latency := (s.banks p).latency.pop } with
    pendingLds := Function.update s.pendingLds p.device
      (Function.update (s.pendingLds p.device) unit
        (s.pendingLds p.device unit ++ [⟨req, p.ch, p.bank⟩])) }

def crossbarFull (s : BiSystem) (p : BankPlace) : Bool :=
  cfg.requestQueueSize ≤ (s.banks p).toCrossbar.length

/-- From the queues of bank `p` to the crossbar. Released replies come first. -/
def turn (s : BiSystem) (p : BankPlace) : BiSystem × List BiEvent :=
  match (s.banks p).toCrossbarBi with
  | mf :: rest =>
    if s.crossbarFull cfg p then (s, [])
    else (s.setBank p { s.banks p with
      toCrossbar := (s.banks p).toCrossbar ++ [mf], toCrossbarBi := rest }, [.released p mf])
  | [] =>
    match (s.banks p).latency.top? with
    | none => (s, [])
    | some req =>
      let inprogress := cfg.enabled ∧ unitOf cfg req.addr ∈ s.inprogress
      if inprogress ∧ isAnswer req then (s.answer cfg p req, [.looked p req .answered])
      else if inprogress ∧ req.isWrite = false then (s.hold cfg p req, [.looked p req .held])
      else if s.crossbarFull cfg p = false then
        (s.setBank p { s.banks p with
          toCrossbar := (s.banks p).toCrossbar ++ [req]
          latency := (s.banks p).latency.pop }, [.looked p req .sent])
      else (s, [.looked p req .stays])

/-- The turns of several banks, with what the cache answers for each of them. -/
def turns (s : BiSystem) : List (BankPlace × List Message) → BiSystem × List BiEvent
  | [] => (s, [])
  | (p, mfs) :: rest =>
    let (s, ev) := (s.arrive cfg p mfs).turn cfg p
    let (s, ev') := s.turns rest
    (s, ev ++ ev')

/-- The banks of a device in the order of the loops. -/
def places (device : Nat) : List BankPlace :=
  (List.range cfg.numChannels).flatMap fun ch =>
    (List.range cfg.numBanks).map fun bank => ⟨device, ch, bank⟩

def cacheCycle (s : BiSystem) (device : Nat) (replies : BankPlace → List Message) :
    BiSystem × List BiEvent :=
  s.turns cfg ((places cfg device).map fun p => (p, replies p))

/-! ## Runs -/

inductive Op
  | load (ndpId : Nat) (addr : BitVec 64) (chance : Bool)
  | store (addr : BitVec 64) (chance : Bool)
  | cacheCycle (device : Nat) (replies : BankPlace → List Message)
  /-- the crossbar takes a reply -/
  | pop (p : BankPlace)

def step (s : BiSystem) : Op → Except Fault (BiSystem × List BiEvent)
  | .load ndpId addr chance => s.load cfg ndpId addr chance
  | .store addr chance => .ok (s.store cfg addr chance, [])
  | .cacheCycle device replies => .ok (s.cacheCycle cfg device replies)
  | .pop p => .ok (s.setBank p { s.banks p with toCrossbar := (s.banks p).toCrossbar.tail }, [])

/-- The runs in which every step meets `P`. -/
inductive Run (cfg : BiConfig) (P : Op → Prop) : BiSystem → List BiEvent → Prop
  | start : Run cfg P (create cfg) []
  | step {s s' : BiSystem} {tr ev : List BiEvent} (run : Run cfg P s tr) (op : Op) (meets : P op)
      (h : s.step cfg op = .ok (s', ev)) : Run cfg P s' (tr ++ ev)

/-! ## Holding and releasing -/

/-- The units in progress after these events. -/
def inProgressAfter (tr : List BiEvent) : Finset Nat :=
  tr.foldl (fun units e =>
    match e with
    | .began unit => insert unit units
    | .looked _ mf .answered => units.erase (unitOf cfg mf.addr)
    | .looked .. | .released .. => units) ∅

/-- The reply has been held at this place, and after that its unit has been answered. -/
def AnsweredSince (tr : List BiEvent) (p : BankPlace) (mf : Message) : Prop :=
  ∃ q resp, unitOf cfg resp.addr = unitOf cfg mf.addr ∧ q.device = p.device ∧
    List.Sublist [.looked p mf .held, .looked q resp .answered] tr

/-- An event after those before it: a reply to a read is held if its unit is in progress, and only
then, and it is released after the answer. -/
def Right (before : List BiEvent) : BiEvent → Prop
  | .began _ => True
  | .looked _ mf outcome =>
    mf.isWrite = false → (outcome = .held ↔ unitOf cfg mf.addr ∈ inProgressAfter cfg before)
  | .released p mf => mf.isWrite = false → AnsweredSince cfg before p mf

/-- How often a reply is held for its place. -/
def heldFor (s : BiSystem) (p : BankPlace) (mf : Message) : Nat :=
  (s.pendingLds p.device (unitOf cfg mf.addr)).count ⟨mf, p.ch, p.bank⟩

/-- All replies and answers of a unit come to one device. -/
def AtHome (home : Nat → Nat) : Op → Prop
  | .cacheCycle device replies =>
    ∀ p, ∀ mf ∈ replies p, home (unitOf cfg mf.addr) = device
  | _ => True

structure Inv (home : Nat → Nat) (s : BiSystem) (tr : List BiEvent) : Prop where
  latency : ∀ p, ∀ mf ∈ (s.banks p).latency.items, home (unitOf cfg mf.addr) = p.device
  pending : ∀ device unit, ∀ info ∈ s.pendingLds device unit,
    unitOf cfg info.mf.addr = unit ∧ home unit = device ∧ unit ∈ s.inprogress ∧
      .looked ⟨device, info.ch, info.bank⟩ info.mf .held ∈ tr
  progress : inProgressAfter cfg tr = s.inprogress
  disabled : cfg.enabled = false → s.inprogress = ∅
  ready : ∀ p, ∀ mf ∈ (s.banks p).toCrossbarBi, mf.isWrite = false → AnsweredSince cfg tr p mf
  right : Each (Right cfg) tr
  once : ∀ p mf, mf.isWrite = false → tr.count (.looked p mf .held) =
    tr.count (.released p mf) + (s.banks p).toCrossbarBi.count mf + s.heldFor cfg p mf

variable {cfg} {home : Nat → Nat} {s s' : BiSystem} {tr ev : List BiEvent} {p : BankPlace}
  {mf : Message}

theorem inv_create (cfg : BiConfig) (home : Nat → Nat) : Inv cfg home (create cfg) [] where
  latency := by simp [create]
  pending := by simp [create]
  progress := rfl
  disabled _ := rfl
  ready := by simp [create]
  right := trivial
  once := by simp [create, heldFor]

/-! ## One event more -/

theorem AnsweredSince.mono {tr' : List BiEvent} (h : AnsweredSince cfg tr p mf) :
    AnsweredSince cfg (tr ++ tr') p mf := by
  obtain ⟨q, resp, hunit, hdevice, hsub⟩ := h
  exact ⟨q, resp, hunit, hdevice, hsub.trans (List.sublist_append_left _ _)⟩

theorem AnsweredSince.of_held {q : BankPlace} {resp : Message}
    (hheld : .looked p mf .held ∈ tr) (hunit : unitOf cfg resp.addr = unitOf cfg mf.addr)
    (hdevice : q.device = p.device) :
    AnsweredSince cfg (tr ++ [.looked q resp .answered]) p mf :=
  ⟨q, resp, hunit, hdevice, (List.singleton_sublist.mpr hheld).append (List.Sublist.refl _)⟩

theorem inProgressAfter_concat (tr : List BiEvent) (e : BiEvent) :
    inProgressAfter cfg (tr ++ [e]) = match e with
      | .began unit => insert unit (inProgressAfter cfg tr)
      | .looked _ mf .answered => (inProgressAfter cfg tr).erase (unitOf cfg mf.addr)
      | .looked .. | .released .. => inProgressAfter cfg tr := by
  rw [inProgressAfter, List.foldl_concat]
  rfl

@[simp] theorem banks_setBank (s : BiSystem) (p q : BankPlace) (b : BiBank) :
    (s.setBank p b).banks q = if q = p then b else s.banks q :=
  Function.update_apply ..

@[simp] theorem pendingLds_setBank (s : BiSystem) (p : BankPlace) (b : BiBank) :
    (s.setBank p b).pendingLds = s.pendingLds := rfl

/-! ## Released replies -/

theorem releaseTo_apply (banks : BankPlace → BiBank) (device : Nat) (pending : List BiPendingInfo)
    (p : BankPlace) : releaseTo banks device pending p = { banks p with
      toCrossbarBi := (banks p).toCrossbarBi ++
        (pending.filter fun info => p = ⟨device, info.ch, info.bank⟩).map BiPendingInfo.mf } := by
  induction pending generalizing banks with
  | nil => simp [releaseTo]
  | cons info pending ih =>
    rw [releaseTo, List.foldl_cons, ← releaseTo, ih]
    by_cases hp : p = ⟨device, info.ch, info.bank⟩
    · simp [hp]
    · simp [hp]

theorem count_released (pending : List BiPendingInfo) (p : BankPlace) (mf : Message) :
    ((pending.filter fun info => p = ⟨p.device, info.ch, info.bank⟩).map BiPendingInfo.mf).count
      mf = pending.count ⟨mf, p.ch, p.bank⟩ := by
  induction pending with
  | nil => rfl
  | cons info pending ih =>
    obtain ⟨m, ch, bank⟩ := info
    by_cases hp : p = ⟨p.device, ch, bank⟩
    · have hch : p.ch = ch := congrArg BankPlace.ch hp
      have hbank : p.bank = bank := congrArg BankPlace.bank hp
      rw [List.filter_cons_of_pos (by simpa using hp), List.map_cons, List.count_cons, ih,
        List.count_cons]
      simp [hch, hbank]
    · rw [List.filter_cons_of_neg (by simpa using hp), ih, List.count_cons_of_ne]
      rintro heq
      obtain ⟨-, rfl, rfl⟩ := BiPendingInfo.mk.inj heq
      exact hp rfl

/-! ## The turn of a bank -/

/-- Replies arrive at their device. -/
theorem Inv.arrive (h : Inv cfg home s tr) {mfs : List Message}
    (hhome : ∀ mf ∈ mfs, home (unitOf cfg mf.addr) = p.device) :
    Inv cfg home (s.arrive cfg p mfs) tr := by
  have hitems : ∀ q : DelayQueue Message,
      (mfs.foldl (fun q mf => q.push mf cfg.hitLatency) q).items = q.items ++ mfs := by
    clear hhome
    induction mfs with
    | nil => simp
    | cons mf mfs ih => simp [ih]
  have hbi : ∀ q, ((s.arrive cfg p mfs).banks q).toCrossbarBi = (s.banks q).toCrossbarBi := by
    intro q
    rw [BiSystem.arrive, banks_setBank]
    split
    case isTrue heq => rw [heq]
    case isFalse => rfl
  refine ⟨fun q mf hmf => ?_, h.pending, h.progress, h.disabled, ?_, h.right, ?_⟩
  · rw [BiSystem.arrive, banks_setBank] at hmf
    split at hmf
    case isTrue heq =>
      rw [hitems, DelayQueue.items_cycle] at hmf
      rw [heq]
      obtain hmf | hmf := List.mem_append.mp hmf
      · exact h.latency p mf hmf
      · exact hhome mf hmf
    case isFalse => exact h.latency q mf hmf
  · intro q
    rw [hbi]
    exact h.ready q
  · intro q
    rw [hbi]
    exact h.once q

/-- A released reply goes to the crossbar. -/
theorem Inv.released (h : Inv cfg home s tr) {rest : List Message}
    (hqueue : (s.banks p).toCrossbarBi = mf :: rest) (toCrossbar : List Message) :
    Inv cfg home (s.setBank p { s.banks p with toCrossbar := toCrossbar, toCrossbarBi := rest })
      (tr ++ [.released p mf]) := by
  have hmem : mf ∈ (s.banks p).toCrossbarBi := by
    rw [hqueue]
    exact List.mem_cons_self
  refine ⟨fun q m hm => h.latency q m ?_, ?_, ?_, h.disabled, ?_,
    each_concat.mpr ⟨h.right, h.ready p mf hmem⟩, ?_⟩
  · rw [banks_setBank] at hm
    split at hm
    case isTrue heq => rwa [heq]
    case isFalse => exact hm
  · intro device unit info hinfo
    obtain ⟨hunit, hhome, hin, hheld⟩ := h.pending device unit info hinfo
    exact ⟨hunit, hhome, hin, List.mem_append_left _ hheld⟩
  · rw [inProgressAfter_concat]
    exact h.progress
  · intro q m hm hread
    refine (h.ready q m ?_ hread).mono
    rw [banks_setBank] at hm
    split at hm
    case isTrue heq =>
      rw [heq, hqueue]
      exact List.mem_cons_of_mem _ hm
    case isFalse => exact hm
  · intro q m hread
    have honce := h.once q m hread
    have hkept : heldFor cfg (s.setBank p { s.banks p with
      toCrossbar := toCrossbar, toCrossbarBi := rest }) q m = s.heldFor cfg q m := rfl
    rw [hkept, banks_setBank, List.count_append, List.count_append, honce]
    by_cases hq : q = p
    · subst hq
      rw [hqueue, List.count_cons]
      by_cases hm : mf = m
      · subst hm
        simp
        omega
      · simp [hm]
    · simp [hq, Ne.symm hq]

/-- Replies leave a latency queue or a queue of the crossbar. -/
theorem Inv.quiet (h : Inv cfg home s tr)
    (hlatency : ∀ q, (s'.banks q).latency.items ⊆ (s.banks q).latency.items)
    (hbi : ∀ q, (s'.banks q).toCrossbarBi = (s.banks q).toCrossbarBi)
    (hpending : s'.pendingLds = s.pendingLds) (hin : s'.inprogress = s.inprogress) :
    Inv cfg home s' tr := by
  refine ⟨fun q m hm => h.latency q m (hlatency q hm), ?_, ?_, ?_, ?_, h.right, ?_⟩
  · rw [hpending, hin]
    exact h.pending
  · rw [hin]
    exact h.progress
  · rw [hin]
    exact h.disabled
  · intro q
    rw [hbi]
    exact h.ready q
  · intro q m
    rw [hbi, heldFor, hpending]
    exact h.once q m

theorem Inv.setBank {b : BiBank} (h : Inv cfg home s tr)
    (hlatency : b.latency.items ⊆ (s.banks p).latency.items)
    (hbi : b.toCrossbarBi = (s.banks p).toCrossbarBi) : Inv cfg home (s.setBank p b) tr := by
  refine h.quiet (fun q => ?_) (fun q => ?_) rfl rfl
  · rw [banks_setBank]
    split
    case isTrue heq => rwa [heq]
    case isFalse => exact fun _ hm => hm
  · rw [banks_setBank]
    split
    case isTrue heq => rwa [heq]
    case isFalse => rfl

/-- A reply is looked at and not held. -/
theorem Inv.looked {outcome : BiOutcome} (h : Inv cfg home s tr) (hheld : outcome ≠ .held)
    (hanswered : outcome ≠ .answered)
    (hright : mf.isWrite = false → unitOf cfg mf.addr ∉ s.inprogress) :
    Inv cfg home s (tr ++ [.looked p mf outcome]) := by
  have hprogress : inProgressAfter cfg (tr ++ [.looked p mf outcome]) = s.inprogress := by
    rw [inProgressAfter_concat, ← h.progress]
    cases outcome with
    | answered => exact absurd rfl hanswered
    | _ => rfl
  refine ⟨h.latency, ?_, hprogress, h.disabled, fun q m hm hread => (h.ready q m hm hread).mono,
    each_concat.mpr ⟨h.right, fun hread => ?_⟩, fun q m hread => ?_⟩
  · intro device unit info hinfo
    obtain ⟨hunit, hhome, hin, hheld⟩ := h.pending device unit info hinfo
    exact ⟨hunit, hhome, hin, List.mem_append_left _ hheld⟩
  · rw [h.progress]
    exact iff_of_false hheld (hright hread)
  · rw [List.count_append, List.count_append, h.once q m hread]
    have hne : BiEvent.looked p mf outcome ≠ .looked q m .held := by
      intro heq
      exact hheld (BiEvent.looked.inj heq).2.2
    simp [hne]

/-- The first reply of a latency queue has to wait. -/
theorem Inv.held (h : Inv cfg home s tr) (htop : (s.banks p).latency.top? = some mf)
    (hin : unitOf cfg mf.addr ∈ s.inprogress) :
    Inv cfg home (s.hold cfg p mf) (tr ++ [.looked p mf .held]) := by
  have hitems := DelayQueue.items_of_top? htop
  have hhome : home (unitOf cfg mf.addr) = p.device := by
    refine h.latency p mf ?_
    rw [hitems]
    exact List.mem_cons_self
  have hbanks : ∀ q, ((s.hold cfg p mf).banks q).latency.items ⊆ (s.banks q).latency.items ∧
      ((s.hold cfg p mf).banks q).toCrossbarBi = (s.banks q).toCrossbarBi := by
    intro q
    simp only [hold, banks_setBank]
    split
    case isTrue heq =>
      subst heq
      refine ⟨fun m hm => ?_, rfl⟩
      rw [hitems]
      exact List.mem_cons_of_mem _ hm
    case isFalse => exact ⟨fun _ hm => hm, rfl⟩
  have hpending : ∀ device unit, (s.hold cfg p mf).pendingLds device unit =
      s.pendingLds device unit ++ if device = p.device ∧ unit = unitOf cfg mf.addr then
        [⟨mf, p.ch, p.bank⟩] else [] := by
    intro device unit
    simp only [hold, Function.update_apply]
    by_cases hd : device = p.device
    · subst hd
      by_cases hu : unit = unitOf cfg mf.addr <;> simp [hu]
    · simp [hd]
  refine ⟨fun q m hm => h.latency q m ((hbanks q).1 hm), ?_, ?_, h.disabled, ?_,
    each_concat.mpr ⟨h.right, fun _ => ?_⟩, ?_⟩
  · intro device unit info hinfo
    rw [hpending] at hinfo
    obtain hold | hnew := List.mem_append.mp hinfo
    · obtain ⟨hunit, hhome, hin, hheld⟩ := h.pending device unit info hold
      exact ⟨hunit, hhome, hin, List.mem_append_left _ hheld⟩
    · split at hnew
      case isTrue heq =>
        obtain ⟨rfl, rfl⟩ := heq
        obtain rfl := List.mem_singleton.mp hnew
        exact ⟨rfl, hhome, hin, List.mem_append_right _ (List.mem_singleton_self _)⟩
      case isFalse => cases hnew
  · rw [inProgressAfter_concat]
    exact h.progress
  · intro q m hm hread
    rw [(hbanks q).2] at hm
    exact (h.ready q m hm hread).mono
  · rw [h.progress]
    exact iff_of_true rfl hin
  · intro q m hread
    have hnew : [BiEvent.looked p mf .held].count (.looked q m .held) =
        (if q.device = p.device ∧ unitOf cfg m.addr = unitOf cfg mf.addr then
          [BiPendingInfo.mk mf p.ch p.bank] else []).count ⟨m, q.ch, q.bank⟩ := by
      by_cases heq : p = q ∧ mf = m
      · obtain ⟨rfl, rfl⟩ := heq
        simp
      · have hne : BiEvent.looked p mf .held ≠ .looked q m .held := by
          intro h
          exact heq ⟨(BiEvent.looked.inj h).1, (BiEvent.looked.inj h).2.1⟩
        rw [List.count_singleton, if_neg (by simpa using hne)]
        split
        case isTrue hsame =>
          refine (List.count_eq_zero.mpr fun hmem => heq ?_).symm
          obtain ⟨rfl, hch, hbank⟩ := BiPendingInfo.mk.inj (List.mem_singleton.mp hmem)
          obtain ⟨device, ch, bank⟩ := q
          simp_all
        case isFalse => rfl
    rw [List.count_append, List.count_append, h.once q m hread, (hbanks q).2, heldFor, heldFor,
      hpending, List.count_append, hnew]
    simp only [List.count_singleton, reduceCtorEq, beq_iff_eq, if_false]
    omega

/-- The answer to an invalidation lets the replies of its unit go, and there are none elsewhere. -/
theorem Inv.answered (h : Inv cfg home s tr) (htop : (s.banks p).latency.top? = some mf)
    (hanswer : isAnswer mf = true) :
    Inv cfg home (s.answer cfg p mf) (tr ++ [.looked p mf .answered]) := by
  have hitems := DelayQueue.items_of_top? htop
  have hhome : home (unitOf cfg mf.addr) = p.device := by
    refine h.latency p mf ?_
    rw [hitems]
    exact List.mem_cons_self
  have hwrite : mf.isWrite = true := by
    simp only [isAnswer, Bool.and_eq_true] at hanswer
    exact hanswer.1
  have hlatency : ∀ q, ((s.answer cfg p mf).banks q).latency.items ⊆
      (s.banks q).latency.items := by
    intro q
    simp only [answer, releaseTo_apply, banks_setBank]
    split
    case isTrue heq =>
      subst heq
      intro m hm
      rw [hitems]
      exact List.mem_cons_of_mem _ hm
    case isFalse => exact fun _ hm => hm
  have hbi : ∀ q, ((s.answer cfg p mf).banks q).toCrossbarBi =
      (s.banks q).toCrossbarBi ++ (if q = p then [mf] else []) ++
        ((s.pendingLds p.device (unitOf cfg mf.addr)).filter fun info =>
          q = ⟨p.device, info.ch, info.bank⟩).map BiPendingInfo.mf := by
    intro q
    simp only [answer, releaseTo_apply, banks_setBank]
    by_cases hq : q = p
    · subst hq
      simp
    · simp [hq]
  have hpending : ∀ device unit, (s.answer cfg p mf).pendingLds device unit =
      if device = p.device ∧ unit = unitOf cfg mf.addr then [] else s.pendingLds device unit := by
    intro device unit
    simp only [answer, pendingLds_setBank, Function.update_apply]
    by_cases hd : device = p.device
    · subst hd
      by_cases hu : unit = unitOf cfg mf.addr <;> simp [hu]
    · simp [hd]
  refine ⟨fun q m hm => h.latency q m (hlatency q hm), ?_, ?_, fun hoff => ?_, ?_,
    each_concat.mpr ⟨h.right, fun hread => by simp [hwrite] at hread⟩, ?_⟩
  · intro device unit info hinfo
    rw [hpending] at hinfo
    split at hinfo
    case isTrue => cases hinfo
    case isFalse hne =>
      obtain ⟨hunit, hdev, hin, hheld⟩ := h.pending device unit info hinfo
      refine ⟨hunit, hdev, Finset.mem_erase.mpr ⟨fun heq => hne ⟨?_, heq⟩, hin⟩,
        List.mem_append_left _ hheld⟩
      rw [← hdev, heq, hhome]
  · rw [inProgressAfter_concat, h.progress]
    rfl
  · exact Finset.subset_empty.mp ((Finset.erase_subset _ _).trans (h.disabled hoff).subset)
  · intro q m hm hread
    rw [hbi] at hm
    obtain hm | hm := List.mem_append.mp hm
    · obtain hm | hm := List.mem_append.mp hm
      · exact (h.ready q m hm hread).mono
      · split at hm
        · rw [List.mem_singleton.mp hm, hwrite] at hread
          cases hread
        · cases hm
    · obtain ⟨info, hinfo, rfl⟩ := List.mem_map.mp hm
      obtain ⟨hpend, hq⟩ := List.mem_filter.mp hinfo
      obtain rfl := of_decide_eq_true hq
      obtain ⟨hunit, -, -, hheld⟩ := h.pending _ _ info hpend
      exact .of_held hheld hunit.symm rfl
  · intro q m hread
    have hown : (if q = p then [mf] else []).count m = 0 := by
      refine List.count_eq_zero.mpr fun hm => ?_
      split at hm
      · rw [List.mem_singleton.mp hm, hwrite] at hread
        cases hread
      · cases hm
    have hmoved : (((s.pendingLds p.device (unitOf cfg mf.addr)).filter fun info =>
        q = ⟨p.device, info.ch, info.bank⟩).map BiPendingInfo.mf).count m +
        (s.answer cfg p mf).heldFor cfg q m = s.heldFor cfg q m := by
      rw [heldFor, heldFor, hpending]
      split
      case isTrue hsame =>
        rw [← hsame.1, ← hsame.2, count_released]
        rfl
      case isFalse hother =>
        rw [List.count_eq_zero.mpr, Nat.zero_add]
        intro hm
        obtain ⟨info, hinfo, rfl⟩ := List.mem_map.mp hm
        obtain ⟨hpend, hq⟩ := List.mem_filter.mp hinfo
        obtain rfl := of_decide_eq_true hq
        exact hother ⟨rfl, (h.pending _ _ info hpend).1⟩
    rw [List.count_append, List.count_append, h.once q m hread, hbi, List.count_append,
      List.count_append, hown]
    simp only [List.count_singleton, beq_iff_eq, reduceCtorEq, BiEvent.looked.injEq, and_false,
      if_false]
    omega

theorem Inv.turn (h : Inv cfg home s tr) (p : BankPlace) :
    Inv cfg home (s.turn cfg p).1 (tr ++ (s.turn cfg p).2) := by
  have hnil : Inv cfg home s (tr ++ []) := by rwa [List.append_nil]
  unfold BiSystem.turn
  split
  case h_1 mf rest hqueue =>
    split
    · exact hnil
    · exact h.released hqueue _
  case h_2 =>
    split
    case h_1 => exact hnil
    case h_2 req htop =>
      dsimp only
      split
      case isTrue hin => exact h.answered htop hin.2
      case isFalse =>
      split
      case isTrue hin => exact h.held htop hin.1.2
      case isFalse hnot =>
      have hright : req.isWrite = false → unitOf cfg req.addr ∉ s.inprogress := by
        intro hread hin
        refine hnot ⟨⟨?_, hin⟩, hread⟩
        by_contra hoff
        simp [h.disabled (by simpa using hoff)] at hin
      have hpop : (s.banks p).latency.pop.items ⊆ (s.banks p).latency.items := by
        rw [DelayQueue.items_of_top? htop]
        exact List.subset_cons_self _ _
      split
      · exact (h.looked (by simp) (by simp) hright).setBank hpop rfl
      · exact h.looked (by simp) (by simp) hright

theorem Inv.turns (h : Inv cfg home s tr) {banks : List (BankPlace × List Message)}
    (hhome : ∀ b ∈ banks, ∀ mf ∈ b.2, home (unitOf cfg mf.addr) = b.1.device) :
    Inv cfg home (s.turns cfg banks).1 (tr ++ (s.turns cfg banks).2) := by
  induction banks generalizing s tr with
  | nil => simpa [BiSystem.turns] using h
  | cons b banks ih =>
    simp only [BiSystem.turns]
    rw [← List.append_assoc]
    refine ih ((h.arrive (hhome b List.mem_cons_self)).turn b.1) fun b' hb' => ?_
    exact hhome b' (List.mem_cons_of_mem _ hb')

theorem Inv.load {ndpId : Nat} {addr : BitVec 64} {chance : Bool} (h : Inv cfg home s tr)
    (hs : s.load cfg ndpId addr chance = .ok (s', ev)) : Inv cfg home s' (tr ++ ev) := by
  have hnil : ∀ {s₁ : BiSystem}, s₁.banks = s.banks → s₁.pendingLds = s.pendingLds →
      s₁.inprogress = s.inprogress → Inv cfg home s₁ (tr ++ []) := by
    intro s₁ hbanks hpending hin
    rw [List.append_nil]
    exact h.quiet (by simp [hbanks]) (by simp [hbanks]) hpending hin
  simp only [BiSystem.load] at hs
  split at hs
  · obtain ⟨rfl, rfl⟩ := Prod.mk.inj (Except.ok.inj hs)
    exact hnil rfl rfl rfl
  case isFalse hon =>
  split at hs
  · obtain ⟨rfl, rfl⟩ := Prod.mk.inj (Except.ok.inj hs)
    refine ⟨h.latency, ?_, ?_, fun hoff => by simp [hoff] at hon,
      fun q m hm hread => (h.ready q m hm hread).mono, each_concat.mpr ⟨h.right, trivial⟩, ?_⟩
    · intro device unit info hinfo
      obtain ⟨hunit, hdev, hin, hheld⟩ := h.pending device unit info hinfo
      exact ⟨hunit, hdev, Finset.mem_insert_of_mem hin, List.mem_append_left _ hheld⟩
    · rw [inProgressAfter_concat, h.progress]
    · intro q m hread
      rw [List.count_append, List.count_append, h.once q m hread]
      simp [heldFor]
  split at hs
  · obtain ⟨rfl, rfl⟩ := Prod.mk.inj (Except.ok.inj hs)
    exact hnil rfl rfl rfl
  split at hs
  · split at hs
    · cases hs
    · split at hs
      · obtain ⟨rfl, rfl⟩ := Prod.mk.inj (Except.ok.inj hs)
        exact hnil rfl rfl rfl
      · cases hs
  · obtain ⟨rfl, rfl⟩ := Prod.mk.inj (Except.ok.inj hs)
    exact hnil rfl rfl rfl

theorem Inv.step {op : Op} (h : Inv cfg home s tr) (hhome : AtHome cfg home op)
    (hs : s.step cfg op = .ok (s', ev)) : Inv cfg home s' (tr ++ ev) := by
  cases op with
  | load ndpId addr chance => exact h.load hs
  | store addr chance =>
    obtain ⟨rfl, rfl⟩ := Prod.mk.inj (Except.ok.inj hs)
    rw [List.append_nil, BiSystem.store]
    split
    · exact h.quiet (fun _ _ hm => hm) (fun _ => rfl) rfl rfl
    · exact h
  | cacheCycle device replies =>
    obtain ⟨rfl, rfl⟩ := Prod.mk.inj (Except.ok.inj hs)
    refine h.turns fun b hb mf hmf => ?_
    obtain ⟨p, hp, rfl⟩ := List.mem_map.mp hb
    obtain ⟨ch, -, hp⟩ := List.mem_flatMap.mp hp
    obtain ⟨bank, -, rfl⟩ := List.mem_map.mp hp
    exact hhome _ mf hmf
  | pop p =>
    obtain ⟨rfl, rfl⟩ := Prod.mk.inj (Except.ok.inj hs)
    rw [List.append_nil]
    exact h.setBank (fun _ hm => hm) rfl

/-- Units of 4096 bytes, and a single bank in every device. -/
def oneBank : BiConfig where
  enabled := true
  unitSize := 4096
  numChannels := 1
  numBanks := 1
  hitLatency := 0
  requestQueueSize := 4

def readReply (addr : BitVec 64) : Message := .create 1 addr .globalAccR .readReply

end BiSystem

end NdpSim
