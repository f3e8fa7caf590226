import NdpSim.Library.Text
import NdpSim.System.SimulationRunner
import NdpSim.Timing.UThreadGenerator

/-!
# The launch commands of a trace

`SimulationRunner::parse_ndp_trace`. A kernel of the trace has a launch file. For each line of it
every device gets a launch command; the commands of a line share one `KernelLaunchInfo`. All
requests go to host 0.
-/
namespace NdpSim

open Library

/-- What a device reads of a `KernelLaunchInfo`. -/
structure LaunchInfo where
  hostId : Nat
  sync : Bool
  kinfo : KernelLaunchInfo

/-- The values of a line of a launch file. -/
structure LaunchLine where
  sync : Bool
  kinfo : KernelLaunchInfo

/-- A kernel of the trace: `ndp_kernel_path` and the lines of its launch file. -/
structure TracedKernel where
  path : Text
  lines : List LaunchLine

structure TraceConfig where
  numHosts : Nat
  numM2ndps : Nat
  isScWork : Bool

/-- What has been made of the trace so far: the next number of a `mem_fetch`, the objects that hold
launch information, which of them `m_data` of a request points to, and the commands. -/
structure LaunchTrace where
  uid : Nat
  infos : List LaunchInfo
  data : Nat → Option Nat
  commands : List SimulationCommand

namespace Message

/-- A memory buffer takes the request for a launch command. -/
def isLaunchCommand (mf : Message) : Bool := !mf.uthreadRequest && mf.addr = kernelLaunchAddr

end Message

namespace LaunchTrace

variable (g : TraceConfig)

def empty : LaunchTrace := ⟨0, [], fun _ => none, []⟩

/-- `parse_kernel_launch` -/
def parseKernelLaunch (line : LaunchLine) (hostId : Nat) : LaunchInfo :=
  ⟨hostId, line.sync, line.kinfo⟩

def iterations (path : Text) : Nat :=
  let iter := 1
  let iter := if "fc".toList <:+: path then 2 else iter
  let iter := if "proj".toList <:+: path then 2 else iter
  if "attention1".toList <:+: path then 3 else iter

/-- A request to generate micro-threads. -/
def uthreadRequest (id : Nat) (addr : BitVec 64) : Message :=
  { Message.create id addr .dmaAllocW .writeRequest with uthreadRequest := true }

/-- `generate_uthresds` -/
def generateUthreads (uid : Nat) (path : Text) (kinfo : KernelLaunchInfo) : List Message :=
  let packets := (List.range ((kinfo.size + packetSize - 1) / packetSize)).map (· * packetSize)
  let offsets := (List.replicate (iterations path) packets).flatten
  (offsets.zipIdx uid).map fun (offset, id) =>
    uthreadRequest id (BitVec.ofNat 64 (kinfo.baseAddr + offset))

/-- The requests for the devices that are left. -/
def requests (path : Text) (info : LaunchInfo) : Nat → Nat → List Message
  | _, 0 => []
  | uid, devices + 1 =>
    let command : LaunchCommand :=
      ⟨info.sync, info.kinfo.kernelId, BitVec.ofNat 64 info.kinfo.baseAddr⟩
    let uthreads := if g.isScWork then generateUthreads (uid + 1) path info.kinfo else []
    Message.launchRequest uid command :: uthreads ++
      requests path info (uid + 1 + uthreads.length) devices

/-- `fill_memory_access`, with the requests the command has already. -/
def fillMemoryAccess (path : Text) (t : LaunchTrace) (reqs : List (List Message))
    (line : LaunchLine) : LaunchTrace × List (List Message) :=
  let hostId := 0
  let info := parseKernelLaunch line hostId
  let made := requests g path info t.uid g.numM2ndps
  let object := t.infos.length
  ({ t with
    uid := t.uid + made.length
    infos := t.infos ++ [info]
    data := fun id => if t.uid ≤ id ∧ id < t.uid + made.length then some object else t.data id },
  (reqs.takeD g.numHosts []).modify hostId (· ++ made))

/-- The requests of a kernel. -/
def parseKernel (t : LaunchTrace) (kernel : TracedKernel) : LaunchTrace :=
  let (t, reqs) := kernel.lines.foldl
    (fun (t, reqs) line => fillMemoryAccess g kernel.path t reqs line) (t, [])
  { t with commands := t.commands ++ [⟨false, reqs⟩] }

/-- `parse_ndp_trace` -/
def parseNdpTrace (kernels : List TracedKernel) : LaunchTrace := kernels.foldl (parseKernel g) empty

/-! ## What the requests are like -/

/-- Launch commands are requests of host 0, and the runner counts them. -/
def LaunchesFirst (queues : List (List Message)) : Prop :=
  ∀ host reqs, queues[host]? = some reqs → ∀ mf ∈ reqs, mf.isLaunchCommand = true →
    host = 0 ∧ mf.bi = false ∧ mf.biWriteback = false

/-- The numbers of the requests. -/
def ids (queues : List (List Message)) : List Nat := queues.flatten.map Message.id

/-- The launch commands of a trace go to host 0, every request has a number of its own, and the
launches are those of host 0. -/
structure Parsed (g : TraceConfig) (t : LaunchTrace) : Prop where
  commands : ∀ command ∈ t.commands, LaunchesFirst command.memoryReqs
  numbered : 0 < g.numHosts →
    (t.commands.flatMap fun command => ids command.memoryReqs).Perm (List.range t.uid)
  hostId : ∀ info ∈ t.infos, info.hostId = 0

variable {g} {path : Text} {t : LaunchTrace} {reqs : List (List Message)} {info : LaunchInfo}

theorem counted_of_mem_requests {uid devices : Nat} {mf : Message}
    (h : mf ∈ requests g path info uid devices) : mf.bi = false ∧ mf.biWriteback = false := by
  induction devices generalizing uid with
  | zero => cases h
  | succ devices ih =>
    rw [requests, List.cons_append, List.mem_cons, List.mem_append] at h
    rcases h with rfl | h | h
    · exact ⟨rfl, rfl⟩
    · split at h
      · obtain ⟨p, -, rfl⟩ := List.mem_map.mp h
        exact ⟨rfl, rfl⟩
      · cases h
    · exact ih h

theorem ids_generateUthreads (uid : Nat) (path : Text) (kinfo : KernelLaunchInfo) :
    (generateUthreads uid path kinfo).map Message.id =
      List.range' uid (generateUthreads uid path kinfo).length := by
  simp only [generateUthreads, List.map_map, List.length_map, List.length_zipIdx]
  exact List.zipIdx_map_snd uid _

theorem ids_requests (uid devices : Nat) :
    (requests g path info uid devices).map Message.id =
      List.range' uid (requests g path info uid devices).length := by
  induction devices generalizing uid with
  | zero => rfl
  | succ devices ih =>
    have hids : ∀ uthreads : List Message,
        uthreads.map Message.id = List.range' (uid + 1) uthreads.length →
        (uthreads ++ requests g path info (uid + 1 + uthreads.length) devices).map Message.id =
          List.range' (uid + 1) (uthreads ++
            requests g path info (uid + 1 + uthreads.length) devices).length := by
      intro uthreads huthreads
      rw [List.map_append, huthreads, ih, List.length_append, List.range'_append_1]
    rw [requests, List.cons_append, List.map_cons, List.length_cons, List.range'_succ]
    refine congrArg _ (hids _ ?_)
    split
    · exact ids_generateUthreads _ _ _
    · rfl

theorem getElem?_takeD {α : Type} (n : Nat) (l : List α) (d : α) (i : Nat) :
    (l.takeD n d)[i]? = if i < n then some (l[i]?.getD d) else none := by
  induction n generalizing l i with
  | zero => simp
  | succ n ih =>
    rw [List.takeD_succ]
    cases i with
    | zero => cases l <;> simp
    | succ i => cases l <;> simp [ih, List.getElem?_replicate]

theorem launchesFirst_fill (h : LaunchesFirst reqs) (line : LaunchLine) :
    LaunchesFirst (fillMemoryAccess g path t reqs line).2 := by
  intro host queue hqueue mf hmf hlaunch
  rw [fillMemoryAccess, List.getElem?_modify, getElem?_takeD] at hqueue
  obtain ⟨old, hold, rfl⟩ := Option.map_eq_some_iff.mp hqueue
  have hkept : mf ∈ old → host = 0 ∧ mf.bi = false ∧ mf.biWriteback = false := by
    intro hmem
    split at hold
    case isTrue =>
      obtain rfl := Option.some.inj hold
      cases hqueue : reqs[host]? with
      | none =>
        rw [hqueue] at hmem
        cases hmem
      | some queue =>
        rw [hqueue] at hmem
        exact h host queue hqueue mf hmem hlaunch
    case isFalse => cases hold
  split at hmf
  case isTrue hzero =>
    obtain hmf | hmf := List.mem_append.mp hmf
    · exact hkept hmf
    · exact ⟨hzero.symm, counted_of_mem_requests hmf⟩
  case isFalse => exact hkept hmf

theorem flatten_takeD {α : Type} {n : Nat} {l : List (List α)} (h : l.length ≤ n) :
    (l.takeD n []).flatten = l.flatten := by
  induction n generalizing l with
  | zero =>
    obtain rfl := List.eq_nil_of_length_eq_zero (Nat.le_zero.mp h)
    rfl
  | succ n ih =>
    cases l with
    | nil => simp
    | cons x l =>
      rw [List.length_cons, Nat.add_le_add_iff_right] at h
      rw [List.takeD_succ, List.flatten_cons, List.tail_cons, ih h]
      rfl

theorem flatten_modify_perm {α : Type} {l : List (List α)} (h : 0 < l.length) (made : List α) :
    (l.modify 0 (· ++ made)).flatten.Perm (l.flatten ++ made) := by
  cases l with
  | nil => cases h
  | cons x l =>
    rw [List.modify_zero_cons, List.flatten_cons, List.flatten_cons, List.append_assoc,
      List.append_assoc]
    exact List.Perm.append_left _ List.perm_append_comm

/-- The requests of the commands that have been parsed, with those of the kernel at hand. -/
structure Filled (g : TraceConfig) (t : LaunchTrace) (reqs : List (List Message)) : Prop where
  commands : ∀ command ∈ t.commands, LaunchesFirst command.memoryReqs
  queues : LaunchesFirst reqs
  length : reqs.length ≤ g.numHosts
  numbered : 0 < g.numHosts →
    ((t.commands.flatMap fun command => ids command.memoryReqs) ++ ids reqs).Perm
      (List.range t.uid)
  hostId : ∀ info ∈ t.infos, info.hostId = 0

theorem Filled.fill (h : Filled g t reqs) (line : LaunchLine) :
    Filled g (fillMemoryAccess g path t reqs line).1 (fillMemoryAccess g path t reqs line).2 where
  commands := h.commands
  queues := launchesFirst_fill h.queues line
  length := by rw [fillMemoryAccess, List.length_modify, List.takeD_length]
  numbered hhosts := by
    have hlength : 0 < (reqs.takeD g.numHosts []).length := by rwa [List.takeD_length]
    have hflat := (flatten_modify_perm hlength
      (requests g path (parseKernelLaunch line 0) t.uid g.numM2ndps)).map Message.id
    rw [flatten_takeD h.length, List.map_append, ids_requests] at hflat
    have hids := (List.Perm.append_left
      (t.commands.flatMap fun command => ids command.memoryReqs) hflat).trans
      (List.append_assoc .. ▸ List.Perm.append_right _ (h.numbered hhosts))
    have hrange : ∀ n m, List.range n ++ List.range' n m = List.range (n + m) := by
      intro n m
      rw [List.range_add, List.range'_eq_map_range]
    rwa [hrange] at hids
  hostId info hinfo := by
    obtain hinfo | hinfo := List.mem_append.mp hinfo
    · exact h.hostId info hinfo
    · obtain rfl := List.mem_singleton.mp hinfo
      rfl

theorem Filled.fills (h : Filled g t reqs) (path : Text) (lines : List LaunchLine) :
    Filled g
      (lines.foldl (fun (t, reqs) line => fillMemoryAccess g path t reqs line) (t, reqs)).1
      (lines.foldl (fun (t, reqs) line => fillMemoryAccess g path t reqs line) (t, reqs)).2 := by
  induction lines generalizing t reqs with
  | nil => exact h
  | cons line lines ih => exact ih (h.fill line)

theorem Parsed.kernel (h : Parsed g t) (kernel : TracedKernel) :
    Parsed g (parseKernel g t kernel) := by
  have hfirst : Filled g t [] := by
    refine ⟨h.commands, ?_, Nat.zero_le _, ?_, h.hostId⟩
    · intro host reqs hreqs
      cases hreqs
    · intro hhosts
      rw [ids, List.flatten_nil, List.map_nil, List.append_nil]
      exact h.numbered hhosts
  have hfilled := hfirst.fills kernel.path kernel.lines
  refine ⟨?_, ?_, hfilled.hostId⟩
  · intro command hcommand
    obtain hcommand | hcommand := List.mem_append.mp hcommand
    · exact hfilled.commands command hcommand
    · obtain rfl := List.mem_singleton.mp hcommand
      exact hfilled.queues
  · intro hhosts
    simp only [parseKernel, List.flatMap_append, List.flatMap_singleton]
    exact hfilled.numbered hhosts

theorem parsed (g : TraceConfig) (kernels : List TracedKernel) :
    Parsed g (parseNdpTrace g kernels) := by
  have hempty : Parsed g empty := ⟨nofun, fun _ => List.Perm.refl _, nofun⟩
  suffices hall : ∀ t, Parsed g t → Parsed g (kernels.foldl (parseKernel g) t) from
    hall empty hempty
  induction kernels with
  | nil => exact fun t h => h
  | cons kernel kernels ih => exact fun t h => ih _ (h.kernel kernel)

end LaunchTrace

end NdpSim
