import NdpSim.System.LaunchTrace
import NdpSim.System.Quiescence

/-!
# Serial launches

With `serial_launch` the runner sends a launch command only while no launch is active on a device
and no host request waits for its reply. A device answers an asynchronous command before the launch
has ended, so that the two tests take turns.

The counter of the host requests goes down with every reply that comes to a host. The L1 cache does
not mark the requests that it makes for itself, and the replies to them come to a host as well.
-/
namespace NdpSim

open Library

namespace Message

/-- A reply that a host takes for the reply to one of its requests. -/
def repliesToHost (mf : Message) : Bool := !mf.isRequest && !mf.fromNdp && !mf.fromDma

end Message

namespace LaunchTrace

/-- What `m_data` of a launch command points to. An object that has been deleted, or a pointer that
was never set, yields `stale`. -/
def infoAt (t : LaunchTrace) (deleted : List Nat) (mf : Message) (stale : LaunchInfo) :
    LaunchInfo :=
  match t.data mf.id with
  | none => stale
  | some object => if object ∈ deleted then stale else t.infos[object]?.getD stale

end LaunchTrace

/-- `m_cxl_command_response[i].pop_front()` -/
def LaunchBuffer.popResponse (b : LaunchBuffer) (i : Nat) : LaunchBuffer :=
  { b with cxlCommandResponse := b.cxlCommandResponse.modify i List.tail }

/-- The runner, the devices and the messages between them; the number with a message is that of the
device or the port of the host it goes to. `deleted` are the launch informations that the hosts have
deleted. `outstanding` are the launch commands that have been sent and have no reply yet, `started`
the launches of the devices with the commands they are of. -/
structure SerialSystem where
  runner : SimulationRunner
  devices : List LaunchBuffer
  globalLaunchId : Nat
  toDevices : List (Nat × Message)
  toHosts : List (Nat × Message)
  deleted : List Nat
  outstanding : List Nat
  started : List (Nat × Nat)

namespace SerialSystem

variable (g : RunnerConfig) (cfg : SystemConfig) (t : LaunchTrace)

def create : SerialSystem where
  runner := .create g t.commands
  devices := List.replicate cfg.numM2ndps (.create cfg)
  globalLaunchId := 0
  toDevices := []
  toHosts := []
  deleted := []
  outstanding := []
  started := []

/-! ## Steps -/

/-- `check_ndp_kenrel_active` -/
def checkNdpKernelActive (s : SerialSystem) : Bool := s.devices.any (·.isLaunchActive 0)

/-- What the runner finds. -/
def input (s : SerialSystem) (stillBusy canRegister hasBuffer : Bool) (top : Option Message) :
    SimulationInput where
  ndpCycle := false
  busy := stillBusy
  stillBusy := stillBusy
  kernelActive := s.checkNdpKernelActive
  canRegister := canRegister
  node _ _ := ⟨hasBuffer, top⟩

/-- What happens. The parts of an iteration of the runner may come in any order, and so may the
messages: the runner looks at its clock, its answers, its commands, a node of a host or a message
that has come for a host; a device takes a message from link `i`, has its units go on or its
launches checked, or gives a reply to link `i`; another message sets out. -/
inductive Op
  | tick
  | release
  | nextCommand (stillBusy canRegister : Bool)
  | send (host node : Nat) (hasBuffer : Bool)
  | receive (k node : Nat)
  | deliver (k i : Nat) (gen : Nat → GeneratorConfig) (stale : LaunchInfo)
  | units (d : Nat) (gen : Nat → GeneratorConfig) (op : LaunchBuffer.Op)
  | transfer (d i : Nat)
  | toHost (host : Nat) (mf : Message)
  | toDevice (d : Nat) (mf : Message)

/-- Something to do with launches at a device. The counter of the launches is one for all. -/
def atDevice (s : SerialSystem) (d : Nat) (gen : Nat → GeneratorConfig) (op : LaunchBuffer.Op) :
    Except Fault SerialSystem :=
  match s.devices[d]? with
  | none => .error .undefined
  | some b => do
    let (b, _) ← { b with globalLaunchId := s.globalLaunchId }.step cfg d gen op
    return { s with devices := s.devices.set d b, globalLaunchId := b.globalLaunchId }

/-- A message goes from a host to the device of the node. -/
def sendRequest (s : SerialSystem) (host node : Nat) (hasBuffer : Bool) :
    Except Fault SerialSystem := do
  let (runner, events) ← s.runner.sendRequest g (s.input false false hasBuffer none) host node
  let s := { s with runner := runner }
  match events with
  | .sent _ node mf :: _ =>
    let s := { s with toDevices := s.toDevices ++ [(node, mf)] }
    if mf.isLaunchCommand then return { s with outstanding := s.outstanding ++ [mf.id] }
    return s
  | _ => return s

/-- Message `k` of those on their way to the hosts has come. The reply to a write takes the launch
information with it. -/
def receive (s : SerialSystem) (k node : Nat) : Except Fault SerialSystem :=
  match s.toHosts[k]? with
  | none => .error .undefined
  | some (host, mf) => do
    let (runner, _) ← s.runner.receive g (s.input false false false (some mf)) host node
    let s := { s with runner := runner, toHosts := s.toHosts.eraseIdx k }
    if mf.isRequest then return s
    let deleted := if mf.isWrite then (t.data mf.id).toList else []
    return { s with
      deleted := s.deleted ++ deleted
      outstanding := s.outstanding.erase mf.id }

/-- Message `k` of those on their way to the devices is taken from link `i`. What is not a launch
command goes on to the units or to the memory. -/
def deliver (s : SerialSystem) (k i : Nat) (gen : Nat → GeneratorConfig) (stale : LaunchInfo) :
    Except Fault SerialSystem :=
  match s.toDevices[k]? with
  | none => .error .undefined
  | some (d, mf) => do
    let s := { s with toDevices := s.toDevices.eraseIdx k }
    if !mf.isLaunchCommand then return s
    let info := t.infoAt s.deleted mf stale
    let launchId := s.globalLaunchId
    let s ← s.atDevice cfg d gen (.receive i mf info.hostId info.sync info.kinfo)
    return { s with started := s.started ++ [(launchId, mf.id)] }

/-- A reply leaves by link `i`: the ports of the hosts come first. -/
def transfer (s : SerialSystem) (d i : Nat) : Except Fault SerialSystem :=
  match s.devices[d]? with
  | none => .error .undefined
  | some b =>
    match b.cxlCommandResponse[i]? with
    | some (mf :: _) =>
      let s := { s with devices := s.devices.set d (b.popResponse i) }
      if i < cfg.hostPorts then .ok { s with toHosts := s.toHosts ++ [(i, mf)] }
      else .ok { s with toDevices := s.toDevices ++ [(i - cfg.hostPorts, mf)] }
    | _ => .ok s

def step (s : SerialSystem) : Op → Except Fault SerialSystem
  | .tick => .ok { s with runner := { s.runner with ndpCycle := s.runner.ndpCycle + 1 } }
  | .release => do
    let (runner, _) ← s.runner.release
    return { s with runner := runner }
  | .nextCommand stillBusy canRegister => do
    let runner ← s.runner.nextCommand (s.input stillBusy canRegister false none)
    return { s with runner := runner }
  | .send host node hasBuffer => s.sendRequest g host node hasBuffer
  | .receive k node => s.receive g t k node
  | .deliver k i gen stale => s.deliver cfg t k i gen stale
  | .units d gen op => s.atDevice cfg d gen op
  | .transfer d i => s.transfer cfg d i
  | .toHost host mf => .ok { s with toHosts := s.toHosts ++ [(host, mf)] }
  | .toDevice d mf => .ok { s with toDevices := s.toDevices ++ [(d, mf)] }

/-- The units of a device go on, or its launches are checked. -/
def IsLocal : LaunchBuffer.Op → Prop
  | .cycle _ | .generate .. | .complete .. | .checkKernelActive => True
  | .receive .. | .transfer _ | .elsewhere => False

instance : DecidablePred IsLocal := fun
  | .cycle _ | .generate .. | .complete .. | .checkKernelActive => isTrue trivial
  | .receive .. | .transfer _ | .elsewhere => isFalse id

/-- The runner looks at the nodes there are. -/
def Offered (s : SerialSystem) : Op → Prop
  | .send host node _ => (host, node) ∈ SimulationRunner.nodes g
  | .receive k node => ∀ p ∈ s.toHosts[k]?, (p.1, node) ∈ SimulationRunner.nodes g
  | .units _ _ op => IsLocal op
  | _ => True

instance (s : SerialSystem) : DecidablePred (s.Offered g) := fun
  | .send host node _ => inferInstanceAs (Decidable ((host, node) ∈ SimulationRunner.nodes g))
  | .receive k node =>
    inferInstanceAs (Decidable (∀ p ∈ s.toHosts[k]?, (p.1, node) ∈ SimulationRunner.nodes g))
  | .units _ _ op => inferInstanceAs (Decidable (IsLocal op))
  | .tick | .release | .nextCommand .. | .deliver .. | .transfer .. | .toHost .. | .toDevice .. =>
    isTrue trivial

/-- The runs in which every step meets `P`. -/
inductive Run (g : RunnerConfig) (cfg : SystemConfig) (t : LaunchTrace)
    (P : SerialSystem → Op → Prop) : SerialSystem → Prop
  | start : Run g cfg t P (create g cfg t)
  | step {s s' : SerialSystem} (run : Run g cfg t P s) (op : Op) (meets : P s op)
      (offered : s.Offered g op) (h : s.step g cfg t op = .ok s') : Run g cfg t P s'

/-! ## Exclusion -/

/-- A launch of the command is active on a unit. -/
def Active (s : SerialSystem) (id : Nat) : Prop :=
  ∃ launchId, (launchId, id) ∈ s.started ∧
    ∃ b ∈ s.devices, ∃ unit, b.unitActive unit launchId = true

/-- The command has been sent and has no reply yet, or its launch is active. -/
def Underway (s : SerialSystem) (id : Nat) : Prop := id ∈ s.outstanding ∨ s.Active id

/-- No two launches overlap. -/
structure Exclusive (s : SerialSystem) : Prop where
  one : s.outstanding.length ≤ 1
  same : ∀ id id', s.Underway id → s.Underway id' → id = id'

/-- A device reads host 0 as the host of a launch; a reply that comes to a host is the reply to a
launch command; and nothing else goes to the address of the launch commands. -/
def Meets (s : SerialSystem) : Op → Prop
  | .deliver k _ _ stale => ∀ p ∈ s.toDevices[k]?, p.2.isLaunchCommand = true →
      (t.infoAt s.deleted p.2 stale).hostId = 0
  | .toHost _ mf => mf.isLaunchCommand = false ∧ mf.repliesToHost = false
  | .toDevice _ mf => mf.isLaunchCommand = false
  | _ => True

instance (s : SerialSystem) : DecidablePred (s.Meets t) := fun
  | .deliver k _ _ stale => inferInstanceAs (Decidable (∀ p ∈ s.toDevices[k]?,
      p.2.isLaunchCommand = true → (t.infoAt s.deleted p.2 stale).hostId = 0))
  | .toHost _ mf =>
    inferInstanceAs (Decidable (mf.isLaunchCommand = false ∧ mf.repliesToHost = false))
  | .toDevice _ mf => inferInstanceAs (Decidable (mf.isLaunchCommand = false))
  | .tick | .release | .nextCommand .. | .send .. | .receive .. | .units .. | .transfer .. =>
    isTrue trivial

/-- The steps one after the other, if each meets `P`. -/
def execute (P : SerialSystem → Op → Prop) [∀ s, DecidablePred (P s)] (s : SerialSystem) :
    List Op → Option SerialSystem
  | [] => some s
  | op :: ops =>
    if P s op ∧ s.Offered g op then (s.step g cfg t op).toOption.bind (execute P · ops) else none

end SerialSystem

end NdpSim
