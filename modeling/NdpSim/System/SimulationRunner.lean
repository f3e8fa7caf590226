import NdpSim.System.Message

/-!
# The runner of a simulation

`SimulationRunner::run`. The devices and the link are not modelled here: what the runner asks them
is the input of an iteration.
-/
namespace NdpSim

structure RunnerConfig where
  numHosts : Nat
  linksPerHost : Nat
  biHostLatency : Nat
  serialLaunch : Bool

structure SimulationCommand where
  isBarrier : Bool
  memoryReqs : List (List Message)

/-- What the runner finds in one iteration. `busy` and `stillBusy` say that the link or a device is
active, at the test of the loop and after the devices' cycles. -/
structure SimulationInput where
  ndpCycle : Bool
  busy : Bool
  stillBusy : Bool
  kernelActive : Bool
  canRegister : Bool
  node : Nat → Nat → NodeInput

structure SimulationRunner where
  ndpCycle : Nat
  biReqs : List (Message × Nat)
  memoryReqs : List (List Message)
  commands : List SimulationCommand
  remaining : Int

namespace SimulationRunner

variable (g : RunnerConfig)

def create (commands : List SimulationCommand) : SimulationRunner where
  ndpCycle := 0
  biReqs := []
  memoryReqs := List.replicate g.numHosts []
  commands := commands
  remaining := 0

def checkAllMemoryReqsEmpty (s : SimulationRunner) : Bool := s.memoryReqs.all List.isEmpty

/-- `!check_all_simulaiton_finished()` -/
def running (s : SimulationRunner) (busy : Bool) : Bool :=
  s.remaining > 0 || !s.checkAllMemoryReqsEmpty || !s.commands.isEmpty || busy

def checkSingleSimulationFinished (s : SimulationRunner) (busy : Bool) : Bool :=
  !(s.remaining > 0 || !s.checkAllMemoryReqsEmpty || busy)

/-- The first answer that waits goes to host 0. -/
def release (s : SimulationRunner) : Except Fault (SimulationRunner × List HostEvent) :=
  match releaseBi s.ndpCycle s.biReqs, s.memoryReqs with
  | (some mf, biReqs), reqs :: others =>
    .ok ({ s with biReqs := biReqs, memoryReqs := (reqs ++ [mf]) :: others },
      [.looked s.ndpCycle (some (0, mf))])
  | (some _, _), [] => .error .undefined
  | (none, _), _ => .ok (s, [.looked s.ndpCycle none])

/-- `launch_ndp_kernel` -/
def launchNdpKernel (s : SimulationRunner) (command : SimulationCommand) :
    Except Fault SimulationRunner :=
  match command.memoryReqs with
  | [] => .error .undefined
  | reqs :: _ =>
    if reqs.isEmpty then .error .assertion else .ok { s with memoryReqs := command.memoryReqs }

/-- The next command, once everything before it has finished. A barrier is popped on its own and
then launched like any other. -/
def nextCommand (s : SimulationRunner) (i : SimulationInput) : Except Fault SimulationRunner := do
  if !s.checkSingleSimulationFinished i.stillBusy then return s
  match s.commands with
  | [] => return s
  | command :: rest =>
    let s := if command.isBarrier ∧ i.kernelActive = false ∧ s.remaining = 0 ∧
      s.checkAllMemoryReqsEmpty then { s with commands := rest } else s
    if !i.canRegister then return s
    let s ← s.launchNdpKernel command
    match s.commands with
    | [] => throw .undefined
    | _ :: rest => return { s with commands := rest }

def serialExecutionCheck (s : SimulationRunner) (kernelActive : Bool) : Except Fault Bool :=
  match s.memoryReqs with
  | [] => .error .undefined
  | reqs :: _ =>
    let isKernelLaunch := match reqs with
      | [] => false
      | mf :: _ => mf.addr = kernelLaunchAddr
    .ok (!g.serialLaunch || !isKernelLaunch || !(kernelActive || s.remaining > 0))

/-- The first request of a host is given to the link. -/
def sendRequest (s : SimulationRunner) (i : SimulationInput) (host node : Nat) :
    Except Fault (SimulationRunner × List HostEvent) := do
  let check ← s.serialExecutionCheck g i.kernelActive
  match s.memoryReqs[host]? with
  | none => throw .undefined
  | some [] => return (s, [])
  | some (mf :: reqs) =>
    if !check || !(i.node host node).hasBuffer then return (s, [])
    let counted := mf.countsAsRequest
    let s := { s with memoryReqs := s.memoryReqs.set host reqs }
    if counted.1 && !mf.uthreadRequest then
      return ({ s with remaining := s.remaining + 1 }, [.sent host node counted.2])
    return (s, [.sent host node counted.2])

/-- What has come for a host: a reply to one of its requests, or a request to invalidate. -/
def receive (s : SimulationRunner) (i : SimulationInput) (host node : Nat) :
    Except Fault (SimulationRunner × List HostEvent) :=
  match (i.node host node).top with
  | none => .ok (s, [])
  | some mf =>
    if !mf.isRequest then
      if mf.fromNdp || mf.fromDma then .error .assertion
      else .ok ({ s with remaining := s.remaining - 1 }, [])
    else do
      let mf ← mf.answerInvalidation
      return ({ s with biReqs := s.biReqs ++ [(mf, s.ndpCycle + g.biHostLatency)] },
        [.arrived host mf s.ndpCycle])

/-- `process_memory_access` -/
def processMemoryAccess (s : SimulationRunner) (i : SimulationInput) :
    List (Nat × Nat) → Except Fault (SimulationRunner × List HostEvent)
  | [] => .ok (s, [])
  | (host, node) :: rest => do
    let (s, sent) ← s.sendRequest g i host node
    let (s, received) ← s.receive g i host node
    let (s, events) ← s.processMemoryAccess i rest
    return (s, sent ++ received ++ events)

/-- All links of all hosts. -/
def nodes : List (Nat × Nat) :=
  (List.range g.numHosts).flatMap fun host =>
    (List.range g.linksPerHost).map fun node => (host, node)

/-- One iteration of `run`. -/
def step (s : SimulationRunner) (i : SimulationInput) :
    Except Fault (SimulationRunner × List HostEvent) := do
  let s := { s with ndpCycle := s.ndpCycle + i.ndpCycle.toNat }
  let (s, looked) ← s.release
  let s ← s.nextCommand i
  if g.linksPerHost = 0 then throw .assertion
  let (s, events) ← s.processMemoryAccess g i (nodes g)
  return (s, looked ++ events)

inductive Run (g : RunnerConfig) : SimulationRunner → List HostEvent → Prop
  | start (commands : List SimulationCommand) : Run g (create g commands) []
  | step {s s' : SimulationRunner} {log events : List HostEvent} (run : Run g s log)
      (i : SimulationInput) (going : s.running i.busy = true) (h : s.step g i = .ok (s', events)) :
      Run g s' (log ++ events)

end SimulationRunner

end NdpSim
