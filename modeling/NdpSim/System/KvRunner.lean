import Mathlib.Data.List.AList
import NdpSim.Library.Effects
import NdpSim.Library.Rounding
import NdpSim.System.Message

/-!
# The runner of the key-value store

`KVRunner::run` with its `InjectionQueue`: commands are taken from the list at the injection rate,
wait in a queue, and count as injected once their launch request is handed to the link. A command
of kernel 1 is followed by a read of its result, and ends with the reply to that.

The link and the devices are an environment that answers what it was given, in any order.
-/
namespace NdpSim

open Library

structure InjectionConfig where
  injectionRate : Rat
  maxMps : Nat
  serial : Bool
  biHostLatency : Nat
  linksPerHost : Nat

/-- `m_injection_times` is keyed by the request of a command. -/
structure InjectionQueue where
  queue : List (Message × Nat)
  injectionTimes : AList fun _ : Nat => Nat
  counter : Rat

namespace InjectionQueue

variable (g : InjectionConfig)

/-- `m_counter += m_injection_rate`, a `float` and a `double`. -/
def counted (q : InjectionQueue) : Rat := roundTo 24 (roundTo 53 (q.counter + g.injectionRate))

/-- `cycle`, which asserts that the command has one request. -/
def cycle (q : InjectionQueue) (ndpCycle : Bool) (now : Nat) (commands : List (List Message)) :
    Except Fault (InjectionQueue × List (List Message)) :=
  if !ndpCycle then .ok (q, commands)
  else if q.counted g < 1 then .ok ({ q with counter := q.counted g }, commands)
  else
    let q := { q with counter := roundTo 24 (q.counted g - 1) }
    if g.serial ∧ q.injectionTimes.keys.length > 1 then .ok (q, commands)
    else
      match commands with
      | [] => .ok (q, [])
      | [mf] :: rest => .ok ({ q with queue := q.queue ++ [(mf, now)] }, rest)
      | _ => .error .assertion

def top (q : InjectionQueue) : Option Message :=
  match q.queue with
  | [] => none
  | (mf, _) :: _ => if g.maxMps ≤ q.injectionTimes.keys.length then none else some mf

def pop (q : InjectionQueue) : InjectionQueue :=
  match q.queue with
  | [] => q
  | (mf, time) :: rest =>
    if g.maxMps ≤ q.injectionTimes.keys.length then q
    else { q with queue := rest, injectionTimes := q.injectionTimes.insert mf.id time }

def finish (q : InjectionQueue) (id : Nat) : InjectionQueue :=
  { q with injectionTimes := q.injectionTimes.erase id }

variable {g} {q q' : InjectionQueue}

/-- A command is taken from the list, or only the counter changes. -/
theorem cycle_cases {ndpCycle : Bool} {now : Nat} {commands commands' : List (List Message)}
    (h : q.cycle g ndpCycle now commands = .ok (q', commands')) :
    q'.injectionTimes = q.injectionTimes ∧ (q'.queue = q.queue ∧ commands' = commands ∨
      (ndpCycle = true ∧ 1 ≤ q.counted g) ∧
        ∃ mf, commands = [mf] :: commands' ∧ q'.queue = q.queue ++ [(mf, now)]) := by
  simp only [cycle] at h
  split at h
  · cases h
    exact ⟨rfl, .inl ⟨rfl, rfl⟩⟩
  case isFalse hcycle =>
    split at h
    · cases h
      exact ⟨rfl, .inl ⟨rfl, rfl⟩⟩
    case isFalse hcount =>
      split at h
      · cases h
        exact ⟨rfl, .inl ⟨rfl, rfl⟩⟩
      · split at h
        · cases h
          exact ⟨rfl, .inl ⟨rfl, rfl⟩⟩
        · cases h
          exact ⟨rfl, .inr ⟨⟨by simpa using hcycle, not_lt.mp hcount⟩, _, rfl, rfl⟩⟩
        · cases h

/-- The first command, when there is room for it. -/
theorem pop_of_top {mf : Message} (h : q.top g = some mf) :
    ∃ time rest, q.queue = (mf, time) :: rest ∧ q.injectionTimes.keys.length < g.maxMps ∧
      q.pop g = { q with queue := rest, injectionTimes := q.injectionTimes.insert mf.id time } := by
  unfold top at h
  unfold pop
  split at h
  · cases h
  case h_2 time rest hq =>
    split at h <;> cases h
    exact ⟨time, rest, hq, not_le.mp ‹_›, if_neg ‹_›⟩

end InjectionQueue

structure KvRunner where
  ndpCycle : Nat
  biReqs : List (Message × Nat)
  memoryReqs : List Message
  commands : List (List Message)
  injection : InjectionQueue
  remaining : Int

namespace KvRunner

variable (g : InjectionConfig)

/-- `m_injection_queue.finished()` -/
def finished (s : KvRunner) : Bool :=
  s.commands.isEmpty && s.injection.queue.isEmpty && s.injection.injectionTimes.keys.isEmpty

/-- `!check_all_simulaiton_finished()`, where `busy` is what the link and the devices say. -/
def running (s : KvRunner) (busy : Bool) : Bool :=
  s.remaining > 0 || !s.memoryReqs.isEmpty || !s.commands.isEmpty || !s.finished || busy

/-- The first answer that waits goes to the request queue. -/
def release (s : KvRunner) : KvRunner × List HostEvent :=
  match releaseBi s.ndpCycle s.biReqs with
  | (some mf, biReqs) =>
    ({ s with biReqs := biReqs, memoryReqs := s.memoryReqs ++ [mf] },
      [.looked s.ndpCycle (some (0, mf))])
  | (none, _) => (s, [.looked s.ndpCycle none])

/-- The first command of the injection queue goes to the request queue. -/
def inject (s : KvRunner) : KvRunner × List HostEvent :=
  match s.injection.top g with
  | none => (s, [])
  | some mf =>
    ({ s with memoryReqs := s.memoryReqs ++ [mf], injection := s.injection.pop g },
      [.injected mf.id])

/-- What happens before `process_memory_access`. -/
def begin (s : KvRunner) (ndpCycle : Bool) : Except Fault (KvRunner × List HostEvent) := do
  let s := { s with ndpCycle := s.ndpCycle + ndpCycle.toNat }
  let (injection, commands) ← s.injection.cycle g ndpCycle s.ndpCycle s.commands
  let s := { s with injection := injection, commands := commands }
  let (s, looked) := s.release
  let (s, injected) := s.inject g
  return (s, looked ++ injected)

theorem begin_eq_ok {s s' : KvRunner} {ndpCycle : Bool} {events : List HostEvent}
    (h : s.begin g ndpCycle = .ok (s', events)) : ∃ u : KvRunner,
      s.injection.cycle g ndpCycle u.ndpCycle s.commands = .ok (u.injection, u.commands) ∧
      u = { s with ndpCycle := u.ndpCycle, injection := u.injection, commands := u.commands } ∧
      s' = (u.release.1.inject g).1 ∧ events = u.release.2 ++ (u.release.1.inject g).2 := by
  obtain ⟨⟨injection, commands⟩, hc, h⟩ := bind_eq_ok.mp h
  obtain ⟨rfl, rfl⟩ := Prod.mk.inj (Except.ok.inj h)
  exact ⟨⟨_, s.biReqs, s.memoryReqs, commands, injection, s.remaining⟩, hc, rfl, rfl, rfl⟩

/-- The first request is given to the link. -/
def sendRequest (s : KvRunner) (node : Nat) (hasBuffer : Bool) : KvRunner × List HostEvent :=
  match s.memoryReqs with
  | [] => (s, [])
  | mf :: reqs =>
    if !hasBuffer then (s, [])
    else
      let counted := mf.countsAsRequest
      ({ s with memoryReqs := reqs, remaining := s.remaining + counted.1.toNat },
        [.sent 0 node counted.2])

/-- The read of what a command has stored. -/
def getRequest (mf : Message) (info : LaunchCommand) : Message :=
  { Message.create mf.id info.baseAddr .globalAccR .readRequest with data := .origin mf.id info }

/-- `m_injection_queue.finish` -/
def finish (s : KvRunner) (id : Nat) : KvRunner × List HostEvent :=
  ({ s with injection := s.injection.finish id }, [.finished id])

/-- What has come for the host: the reply to a launch, the reply to a read, or a request to
invalidate. -/
def receive (s : KvRunner) (mf : Message) : Except Fault (KvRunner × List HostEvent) :=
  if !mf.isRequest then
    let s := { s with remaining := s.remaining - 1 }
    if mf.isWrite ∧ mf.addr = kernelLaunchAddr then
      match mf.data with
      | .launch info =>
        if info.kernelId = 1 then
          .ok ({ s with memoryReqs := s.memoryReqs ++ [getRequest mf info] }, [])
        else .ok (s.finish mf.id)
      | _ => .error .undefined
    else
      match mf.data with
      | .origin id info => if info.kernelId = 1 then .ok (s.finish id) else .error .assertion
      | _ => .error .undefined
  else do
    let mf ← mf.answerInvalidation
    return ({ s with biReqs := s.biReqs ++ [(mf, s.ndpCycle + g.biHostLatency)] },
      [.arrived 0 mf s.ndpCycle])

end KvRunner

/-! ## The runner and its environment -/

/-- A line of the trace. The memory buffer is the only one, so the command has one request, a new
object. -/
structure KvCommand where
  id : Nat
  info : LaunchCommand

/-- `fill_memory_access` -/
def KvCommand.memoryReqs (c : KvCommand) : List Message := [.launchRequest c.id c.info]

structure KvTrace where
  commands : List KvCommand
  nodup : (commands.map KvCommand.id).Nodup

def KvTrace.ids (t : KvTrace) : List Nat := t.commands.map KvCommand.id

/-- What the link delivers at a node: nothing, the reply to one of the requests that are still to
be answered, or a request to invalidate. -/
inductive Delivery
  | nothing
  | reply (index : Nat)
  | invalidate (mf : Message)

structure KvNode where
  hasBuffer : Bool
  delivery : Delivery

structure KvInput where
  ndpCycle : Bool
  busy : Bool
  node : Nat → KvNode

/-- The runner and the requests that are still to be answered. -/
structure KvSystem where
  runner : KvRunner
  pending : List Message

namespace KvSystem

variable (g : InjectionConfig)

def create (t : KvTrace) : KvSystem where
  runner :=
    { ndpCycle := 0, biReqs := [], memoryReqs := [],
      commands := t.commands.map KvCommand.memoryReqs, injection := ⟨[], ∅, 0⟩, remaining := 0 }
  pending := []

/-- What is sent and is not the answer to an invalidation has to be answered. -/
def awaited : List HostEvent → List Message
  | [] => []
  | .sent _ _ mf :: events =>
    if mf.bi || mf.biWriteback then awaited events else mf :: awaited events
  | _ :: events => awaited events

/-- What is delivered at a node: a request that was sent comes back as a reply, once. -/
def deliver (x : KvSystem) : Delivery → Except Fault (Option Message × List Message)
  | .nothing => .ok (none, x.pending)
  | .reply index =>
    match x.pending[index % x.pending.length]? with
    | none => .ok (none, x.pending)
    | some mf => do return (some (← mf.setReply), x.pending.eraseIdx (index % x.pending.length))
  | .invalidate mf =>
    if mf.isRequest && mf.bi then .ok (some mf, x.pending) else .ok (none, x.pending)

/-- One round of the loop in `process_memory_access`. -/
def processNode (x : KvSystem) (node : Nat) (i : KvNode) :
    Except Fault (KvSystem × List HostEvent) := do
  let (runner, sent) := x.runner.sendRequest node i.hasBuffer
  let x := { x with runner := runner, pending := x.pending ++ awaited sent }
  match ← x.deliver i.delivery with
  | (none, pending) => return ({ x with pending := pending }, sent)
  | (some mf, pending) =>
    let (runner, received) ← x.runner.receive g mf
    return (⟨runner, pending⟩, sent ++ received)

/-- `process_memory_access` -/
def processMemoryAccess (x : KvSystem) (i : KvInput) :
    List Nat → Except Fault (KvSystem × List HostEvent)
  | [] => .ok (x, [])
  | node :: rest => do
    let (x, events) ← x.processNode g node (i.node node)
    let (x, later) ← x.processMemoryAccess i rest
    return (x, events ++ later)

/-- One iteration of `run`. -/
def step (x : KvSystem) (i : KvInput) : Except Fault (KvSystem × List HostEvent) := do
  let (runner, begun) ← x.runner.begin g i.ndpCycle
  if g.linksPerHost = 0 then throw .assertion
  let (x, events) ← KvSystem.processMemoryAccess g ⟨runner, x.pending⟩ i (List.range g.linksPerHost)
  return (x, begun ++ events)

/-- The runs in which every iteration meets `P`. -/
inductive Run (g : InjectionConfig) (P : KvSystem → KvInput → Prop) (t : KvTrace) :
    KvSystem → List HostEvent → Prop
  | start : Run g P t (create t) []
  | step {x x' : KvSystem} {log events : List HostEvent} (run : Run g P t x log)
      (i : KvInput) (meets : P x i) (going : x.runner.running i.busy = true)
      (h : x.step g i = .ok (x', events)) : Run g P t x' (log ++ events)

end KvSystem

end NdpSim
