import NdpSim.System.Launch
import NdpSim.System.SimulationRunner

/-!
# The end of a simulation

`check_all_simulaiton_finished` asks the link and the devices whether they are active. A device is
active if a launch of a host is, if the link is, or if the queues at its memory are not empty. The
queues of the units, the crossbar, the buffers of the link, the L2 cache and the requests that wait
for an invalidation are not looked at. What is in them counts only through the launch of the unit
that sent it, and a store does not hold up the end of its launch, neither once it has been sent nor
while its instruction is still on the way through the units.
-/
namespace NdpSim

open Library

/-- Where a memory request of an NDP unit can be. -/
inductive Stage
  | l1Latency | missQueue | mshr | tlb | toMem | crossbar | linkIn | network | linkOut | host
  | fromCrossbar | l2Cache | dram | latency | biPending | biRelease | toCrossbar | fromMem
  deriving DecidableEq

namespace Stage

/-- Where a request goes next. -/
def next : Stage → List Stage
  | .l1Latency => [.missQueue, .mshr, .tlb]
  | .missQueue => [.tlb, .toMem]
  | .mshr => []
  | .tlb => [.toMem]
  | .toMem => [.crossbar, .linkIn]
  | .crossbar => [.fromCrossbar, .linkIn, .fromMem]
  | .linkIn => [.network]
  | .network => [.linkOut]
  | .linkOut => [.crossbar, .host]
  | .host => [.linkIn]
  | .fromCrossbar => [.l2Cache, .latency]
  | .l2Cache => [.dram, .latency]
  | .dram => [.l2Cache]
  | .latency => [.biPending, .biRelease, .toCrossbar]
  | .biPending => [.biRelease]
  | .biRelease => [.toCrossbar]
  | .toCrossbar => [.crossbar]
  | .fromMem => [.mshr, .tlb]

/-- Where a cache puts a request of its own when it works on a request: a line or a page table
entry to read, or a line to write back. -/
def makes : Stage → List Stage
  | .l1Latency | .tlb => [.missQueue]
  | .fromCrossbar => [.l2Cache]
  | _ => []

/-- A request can end here: it hits, its data or its acknowledgement has come, it has been written
to memory, or it is a reply that a host takes. -/
def isLast : Stage → Bool
  | .l1Latency | .mshr | .tlb | .fromMem | .dram | .linkOut => true
  | _ => false

/-- What `NdpRamulator::is_active` looks at. -/
def isMemory : Stage → Bool
  | .fromCrossbar | .toCrossbar | .latency | .dram => true
  | _ => false

end Stage

/-- The unit that sent a memory request, and the launch it did so for. -/
structure NdpRequest where
  device : Nat
  unit : Nat
  launchId : Nat

structure MemoryFlight where
  request : NdpRequest
  device : Nat
  stage : Stage

/-- The devices and the memory requests that are in flight. -/
structure MemorySystem where
  devices : List LaunchBuffer
  flights : List MemoryFlight
  globalLaunchId : Nat

namespace LaunchBuffer

/-- `is_launch_active` -/
def isLaunchActive (b : LaunchBuffer) (hostId : Nat) : Bool :=
  b.launchInfos.any fun info =>
    info.hostId == hostId && b.ndpUnits.any (·.isLaunchActive info.launchId)

def unitActive (b : LaunchBuffer) (unit launchId : Nat) : Bool :=
  b.ndpUnits[unit]?.any (·.isLaunchActive launchId)

end LaunchBuffer

namespace MemorySystem

variable (cfg : SystemConfig) (gen : Nat → Nat → GeneratorConfig)

def create : MemorySystem where
  devices := List.replicate cfg.numM2ndps (.create cfg)
  flights := []
  globalLaunchId := 0

/-! ## The test -/

/-- The interconnect of the link is busy with a request. -/
def linkActive (s : MemorySystem) : Bool := s.flights.any fun f => f.stage = .network

/-- `NdpRamulator::is_active` -/
def ramulatorActive (s : MemorySystem) (d : Nat) : Bool :=
  s.flights.any fun f => f.device = d && f.stage.isMemory

/-- `M2NDP::is_active` -/
def deviceActive (s : MemorySystem) (d : Nat) (b : LaunchBuffer) : Bool :=
  (List.range cfg.numHosts).any fun hostId =>
    b.isLaunchActive hostId || s.linkActive || s.ramulatorActive d

/-- `check_all_simulaiton_finished`. The requests of the hosts can keep the link and the memories
active as well. -/
def checkAllSimulationFinished (s : MemorySystem) (r : SimulationRunner) (hostTraffic : Bool) :
    Bool :=
  !r.running (s.linkActive || s.devices.zipIdx.any (fun (b, d) => s.deviceActive cfg d b) ||
    hostTraffic)

/-! ## Runs -/

/-- What happens: something to do with launches at a device, and a memory request is issued, made
by a cache, moved or done with. -/
inductive Op
  | launches (d : Nat) (op : LaunchBuffer.Op)
  | issue (request : NdpRequest)
  | make (i : Nat) (stage : Stage)
  | move (i : Nat) (stage : Stage) (d : Nat)
  | retire (i : Nat)

/-- The counter of the launches is one for all devices. -/
def step (s : MemorySystem) : Op → Except Fault MemorySystem
  | .launches d op =>
    match s.devices[d]? with
    | none => .error .undefined
    | some b => do
      let (b, _) ← { b with globalLaunchId := s.globalLaunchId }.step cfg d (gen d) op
      return { s with devices := s.devices.set d b, globalLaunchId := b.globalLaunchId }
  | .issue request =>
    return { s with flights := s.flights ++ [⟨request, request.device, .l1Latency⟩] }
  | .make i stage =>
    match s.flights[i]? with
    | none => .error .undefined
    | some f => return { s with flights := s.flights ++ [{ f with stage := stage }] }
  | .move i stage d =>
    return { s with flights := s.flights.modify i fun f => { f with stage := stage, device := d } }
  | .retire i => return { s with flights := s.flights.eraseIdx i }

def requestActive (s : MemorySystem) (r : NdpRequest) : Bool :=
  s.devices[r.device]?.any (·.unitActive r.unit r.launchId)

/-- Launches are for the hosts there are. -/
def Offered (s : MemorySystem) : Op → Prop
  | .launches _ op => LaunchBuffer.Offered cfg op ∧ match op with
    | .receive _ _ hostId _ _ => hostId < cfg.numHosts
    | _ => True
  | .issue _ => True
  | .make i stage => ∃ f, s.flights[i]? = some f ∧ stage ∈ f.stage.makes
  | .move i stage d => ∃ f, s.flights[i]? = some f ∧ stage ∈ f.stage.next ∧
      (f.stage = .network ∨ d = f.device)
  | .retire i => ∃ f, s.flights[i]? = some f ∧ f.stage.isLast = true

/-- The runs in which every step meets `P`. -/
inductive Run (cfg : SystemConfig) (gen : Nat → Nat → GeneratorConfig)
    (P : MemorySystem → Op → Prop) : MemorySystem → Prop
  | start : Run cfg gen P (create cfg)
  | step {s s' : MemorySystem} (run : Run cfg gen P s) (op : Op) (meets : P s op)
      (offered : s.Offered cfg op) (h : s.step cfg gen op = .ok s') : Run cfg gen P s'

/-- A unit finishes a launch only when none of its requests for that launch is in flight, and sends
none for a launch that it has finished. -/
def Meets (s : MemorySystem) : Op → Prop
  | .launches d (.complete unit info) => info.type = .finalizer →
      ∀ f ∈ s.flights, f.request ≠ ⟨d, unit, info.launchId⟩
  | .issue request => s.requestActive request = true
  | _ => True

/-- When the simulation is found to be finished, no request is in flight. -/
def Quiescent (s : MemorySystem) : Prop :=
  ∀ r hostTraffic, s.checkAllSimulationFinished cfg r hostTraffic = true → s.flights = []

end MemorySystem

/-! ## Launches of a device -/

namespace LaunchBuffer

variable {cfg : SystemConfig} {bufferId : Nat} {gen : Nat → GeneratorConfig}
  {b b' : LaunchBuffer} {ev : List LaunchEvent} {op : Op} {unit launchId : Nat}

theorem unitActive_iff : b.unitActive unit launchId = true ↔
    ∃ g, b.ndpUnits[unit]? = some g ∧ g.isLaunchActive launchId = true := by
  rw [unitActive, Option.any_eq_true]

theorem unitActive_set {g g' : UThreadGenerator} {n : Nat} (hunit : b.ndpUnits[n]? = some g)
    (hsame : unit = n → g'.isLaunchActive launchId = g.isLaunchActive launchId) :
    unitActive { b with ndpUnits := b.ndpUnits.set n g' } unit launchId =
      b.unitActive unit launchId := by
  by_cases hn : unit = n
  · subst hn
    have hlt := (List.getElem?_eq_some_iff.mp hunit).1
    rw [unitActive, unitActive, List.getElem?_set_self hlt, hunit]
    exact hsame rfl
  · rw [unitActive, unitActive, List.getElem?_set_ne (Ne.symm hn)]

theorem AlikeBut.unitActive {next : Nat} (h : AlikeBut next b.ndpUnits b'.ndpUnits)
    (hne : launchId ≠ next) : b'.unitActive unit launchId = b.unitActive unit launchId := by
  rw [LaunchBuffer.unitActive, LaunchBuffer.unitActive]
  by_cases hlt : unit < b.ndpUnits.length
  · have hlt' : unit < b'.ndpUnits.length := List.Forall₂.length_eq h ▸ hlt
    rw [List.getElem?_eq_getElem hlt, List.getElem?_eq_getElem hlt']
    exact (List.forall₂_iff_get.mp h).2 unit hlt hlt' launchId hne
  · have hlen := List.Forall₂.length_eq h
    rw [List.getElem?_eq_none (by omega), List.getElem?_eq_none (by omega)]

/-- The check keeps the units, and forgets only a launch that is finished. -/
theorem checkKernelActive_keeps (h : b.checkKernelActive cfg bufferId = .ok (b', ev)) :
    b'.globalLaunchId = b.globalLaunchId ∧ b'.ndpUnits = b.ndpUnits ∧
    ∀ info ∈ b.launchInfos, info ∈ b'.launchInfos ∨ b.allFinished info.launchId = true := by
  simp only [checkKernelActive] at h
  split at h
  case h_1 =>
    obtain ⟨rfl, rfl⟩ := Prod.mk.inj (Except.ok.inj h)
    exact ⟨rfl, rfl, fun info hinfo => Or.inl hinfo⟩
  case h_2 found hfind =>
    obtain ⟨hfinished, l, r, hinfos, herase⟩ := eraseP_of_find? hfind
    have hkept : ∀ info ∈ b.launchInfos,
        info ∈ l ++ r ∨ b.allFinished info.launchId = true := by
      intro info hinfo
      rw [hinfos, List.mem_append, List.mem_cons] at hinfo
      rw [List.mem_append]
      rcases hinfo with hinfo | rfl | hinfo
      · exact Or.inl (Or.inl hinfo)
      · exact Or.inr hfinished
      · exact Or.inl (Or.inr hinfo)
    rw [herase] at h
    split at h
    · obtain ⟨reply, -, h⟩ := bind_eq_ok.mp h
      obtain ⟨b₁, hpush, h⟩ := bind_eq_ok.mp h
      obtain ⟨rfl, rfl⟩ := Prod.mk.inj (Except.ok.inj h)
      obtain ⟨-, -, rfl⟩ := pushResponse_cases hpush
      exact ⟨rfl, rfl, hkept⟩
    · obtain ⟨rfl, rfl⟩ := Prod.mk.inj (Except.ok.inj h)
      exact ⟨rfl, rfl, hkept⟩

/-- What a step does to the launches: a launch is added, a unit is told of a finished request, or
the units keep what they have and only launches that no unit has are done with. -/
theorem step_launches (h : b.step cfg bufferId gen op = .ok (b', ev)) :
    (∃ i mf hostId sync kinfo mf', op = .receive i mf hostId sync kinfo ∧
      b'.launchInfos = b.launchInfos ++ [⟨b.globalLaunchId, hostId, sync, mf'⟩] ∧
      b'.globalLaunchId = b.globalLaunchId + 1 ∧
      AlikeBut b.globalLaunchId b.ndpUnits b'.ndpUnits) ∨
    (∃ n info g, op = .complete n info ∧ b.ndpUnits[n]? = some g ∧
      b' = { b with ndpUnits := b.ndpUnits.set n (g.complete info) }) ∨
    (b.globalLaunchId ≤ b'.globalLaunchId ∧
      (∀ unit launchId, b'.unitActive unit launchId = b.unitActive unit launchId) ∧
      ∀ info ∈ b.launchInfos, info ∈ b'.launchInfos ∨ b.allFinished info.launchId = true) := by
  cases op with
  | receive i mf hostId sync kinfo =>
    left
    cases sync with
    | true =>
      obtain ⟨b₁, hlaunch, h⟩ := bind_eq_ok.mp h
      obtain ⟨rfl, rfl⟩ := Prod.mk.inj (Except.ok.inj h)
      obtain ⟨hinfos, -, hglobal, halike⟩ := launchNdpKernel_cases hlaunch
      exact ⟨i, mf, hostId, true, kinfo, mf, rfl, hinfos, hglobal, halike⟩
    | false =>
      obtain ⟨reply, -, h⟩ := bind_eq_ok.mp h
      obtain ⟨b₁, hpush, h⟩ := bind_eq_ok.mp h
      obtain ⟨b₂, hlaunch, h⟩ := bind_eq_ok.mp h
      obtain ⟨rfl, rfl⟩ := Prod.mk.inj (Except.ok.inj h)
      obtain ⟨-, -, rfl⟩ := pushResponse_cases hpush
      obtain ⟨hinfos, -, hglobal, halike⟩ := launchNdpKernel_cases hlaunch
      exact ⟨i, mf, hostId, false, kinfo, reply, rfl, hinfos, hglobal, halike⟩
  | cycle n =>
    right; right
    obtain ⟨g, g', hunit, hsame, rfl, -⟩ := step_cycle h
    exact ⟨Nat.le_refl _, fun unit launchId => unitActive_set hunit fun _ => hsame launchId,
      fun info hinfo => Or.inl hinfo⟩
  | generate n threads =>
    right; right
    obtain ⟨g, g', hunit, hsame, rfl, -⟩ := step_generate h
    exact ⟨Nat.le_refl _, fun unit launchId => unitActive_set hunit fun _ => hsame launchId,
      fun info hinfo => Or.inl hinfo⟩
  | complete n info =>
    right; left
    obtain ⟨g, hunit, rfl, -⟩ := step_complete h
    exact ⟨n, info, g, rfl, hunit, rfl⟩
  | checkKernelActive =>
    right; right
    obtain ⟨hsame, hunits, hinfos⟩ := checkKernelActive_keeps h
    refine ⟨Nat.le_of_eq hsame.symm, fun unit launchId => ?_, hinfos⟩
    rw [unitActive, unitActive, hunits]
  | transfer i =>
    right; right
    obtain ⟨rfl, rfl⟩ := Prod.mk.inj (Except.ok.inj h)
    exact ⟨Nat.le_refl _, fun _ _ => rfl, fun info hinfo => Or.inl hinfo⟩
  | elsewhere =>
    right; right
    obtain ⟨rfl, rfl⟩ := Prod.mk.inj (Except.ok.inj h)
    exact ⟨Nat.le_succ _, fun _ _ => rfl, fun info hinfo => Or.inl hinfo⟩

theorem globalLaunchId_le (h : b.step cfg bufferId gen op = .ok (b', ev)) :
    b.globalLaunchId ≤ b'.globalLaunchId := by
  obtain ⟨i, mf, hostId, sync, kinfo, mf', rfl, -, hglobal, -⟩ |
    ⟨n, info, g, rfl, -, rfl⟩ | ⟨hle, -, -⟩ := step_launches h
  · omega
  · exact Nat.le_refl _
  · exact hle

/-- Every launch that a unit has is recorded, for a host that is asked about. -/
def Recorded (cfg : SystemConfig) (next : Nat) (b : LaunchBuffer) : Prop :=
  ∀ unit launchId, b.unitActive unit launchId = true → launchId < next ∧
    ∃ info ∈ b.launchInfos, info.launchId = launchId ∧ info.hostId < cfg.numHosts

theorem recorded_create (cfg : SystemConfig) (next : Nat) : Recorded cfg next (create cfg) := by
  intro unit launchId h
  obtain ⟨g, hg, hactive⟩ := unitActive_iff.mp h
  obtain rfl := List.eq_of_mem_replicate (List.mem_of_getElem? hg)
  cases hactive

theorem not_allFinished (h : b.unitActive unit launchId = true) :
    b.allFinished launchId ≠ true := by
  obtain ⟨g, hg, hactive⟩ := unitActive_iff.mp h
  intro hfinished
  have hidle := List.all_eq_true.mp hfinished g (List.mem_of_getElem? hg)
  rw [hactive] at hidle
  cases hidle

/-- A unit that is told of a finished request has no launch that it did not have. -/
theorem unitActive_complete {g : UThreadGenerator} {n : Nat} {info : RequestInfo}
    (hunit : b.ndpUnits[n]? = some g)
    (h : unitActive { b with ndpUnits := b.ndpUnits.set n (g.complete info) } unit launchId
      = true) : b.unitActive unit launchId = true := by
  by_cases hidle : unit = n ∧ g.isLaunchActive launchId = false
  · obtain ⟨rfl, hidle⟩ := hidle
    have hlt := (List.getElem?_eq_some_iff.mp hunit).1
    rw [unitActive, List.getElem?_set_self hlt, Option.any_some,
      UThreadGenerator.isLaunchActive_complete info hidle] at h
    cases h
  · by_cases hn : unit = n
    · rw [unitActive, hn, hunit]
      exact Bool.of_not_eq_false fun heq => hidle ⟨hn, heq⟩
    · rwa [unitActive_set hunit fun heq => absurd heq hn] at h

theorem Recorded.step (h : Recorded cfg b.globalLaunchId b)
    (hs : b.step cfg bufferId gen op = .ok (b', ev))
    (hhost : ∀ i mf hostId sync kinfo, op = .receive i mf hostId sync kinfo →
      hostId < cfg.numHosts) : Recorded cfg b'.globalLaunchId b' := by
  intro unit launchId hactive
  obtain ⟨i, mf, hostId, sync, kinfo, mf', rfl, hinfos, hglobal, halike⟩ |
    ⟨n, info, g, rfl, hunit, rfl⟩ | ⟨hle, hsame, hinfos⟩ := step_launches hs
  · rw [hinfos, hglobal]
    by_cases heq : launchId = b.globalLaunchId
    · exact ⟨by omega, _, List.mem_concat_self, heq.symm, hhost i mf hostId sync kinfo rfl⟩
    · rw [halike.unitActive heq] at hactive
      obtain ⟨hlt, info, hinfo, hid⟩ := h unit launchId hactive
      exact ⟨by omega, info, List.mem_append_left _ hinfo, hid⟩
  · exact h unit launchId (unitActive_complete hunit hactive)
  · rw [hsame] at hactive
    obtain ⟨hlt, info, hinfo, rfl, hhost⟩ := h unit launchId hactive
    obtain hinfo | hfinished := hinfos info hinfo
    · exact ⟨by omega, info, hinfo, rfl, hhost⟩
    · exact absurd hfinished (not_allFinished hactive)

/-- A unit keeps a launch, unless it is told that the finalizer has finished. -/
theorem Recorded.unitActive_step (h : Recorded cfg b.globalLaunchId b)
    (hs : b.step cfg bufferId gen op = .ok (b', ev))
    (hlast : ∀ info, op = .complete unit info → info.type = .finalizer →
      info.launchId ≠ launchId)
    (hactive : b.unitActive unit launchId = true) : b'.unitActive unit launchId = true := by
  obtain ⟨i, mf, hostId, sync, kinfo, mf', rfl, -, -, halike⟩ |
    ⟨n, info, g, rfl, hunit, rfl⟩ | ⟨-, hsame, -⟩ := step_launches hs
  · have hlt := (h unit launchId hactive).1
    rwa [halike.unitActive (Nat.ne_of_lt hlt)]
  · rw [unitActive_set hunit, hactive]
    rintro rfl
    exact UThreadGenerator.isLaunchActive_complete_of_ne (hlast info rfl)
  · rwa [hsame]

/-- A launch that is recorded keeps its device active. -/
theorem Recorded.isLaunchActive {next : Nat} (h : Recorded cfg next b)
    (hactive : b.unitActive unit launchId = true) :
    ∃ hostId < cfg.numHosts, b.isLaunchActive hostId = true := by
  obtain ⟨-, info, hinfo, rfl, hhost⟩ := h unit launchId hactive
  obtain ⟨g, hg, hlaunch⟩ := unitActive_iff.mp hactive
  refine ⟨info.hostId, hhost, List.any_eq_true.mpr ⟨info, hinfo, ?_⟩⟩
  rw [beq_self_eq_true, Bool.true_and]
  exact List.any_eq_true.mpr ⟨g, List.mem_of_getElem? hg, hlaunch⟩

end LaunchBuffer

/-! ## The requests in flight -/

namespace MemorySystem

variable {cfg : SystemConfig} {gen : Nat → Nat → GeneratorConfig} {s s' : MemorySystem} {op : Op}

structure Inv (cfg : SystemConfig) (s : MemorySystem) : Prop where
  recorded : ∀ b ∈ s.devices, b.Recorded cfg s.globalLaunchId
  active : ∀ f ∈ s.flights, s.requestActive f.request = true

theorem inv_create (cfg : SystemConfig) : Inv cfg (create cfg) where
  recorded b hb := by
    obtain rfl := List.eq_of_mem_replicate hb
    exact LaunchBuffer.recorded_create cfg _
  active f hf := nomatch hf

theorem requestActive_iff {r : NdpRequest} : s.requestActive r = true ↔
    ∃ b, s.devices[r.device]? = some b ∧ b.unitActive r.unit r.launchId = true := by
  rw [requestActive, Option.any_eq_true]

/-- The launches of one device go on. -/
theorem Inv.launches (h : Inv cfg s) {d : Nat} {op : LaunchBuffer.Op}
    (hmeets : s.Meets (.launches d op)) (hoffered : s.Offered cfg (.launches d op))
    (hs : s.step cfg gen (.launches d op) = .ok s') : Inv cfg s' := by
  simp only [step] at hs
  split at hs
  case h_1 => cases hs
  case h_2 b hb =>
    obtain ⟨⟨b', ev⟩, hstep, hs⟩ := bind_eq_ok.mp hs
    obtain rfl := Except.ok.inj hs
    have hmem := List.mem_of_getElem? hb
    have hrec : LaunchBuffer.Recorded cfg s.globalLaunchId
      { b with globalLaunchId := s.globalLaunchId } := h.recorded b hmem
    have hle := LaunchBuffer.globalLaunchId_le hstep
    constructor
    · intro x hx
      obtain hx | rfl := List.mem_or_eq_of_mem_set hx
      · intro unit launchId hactive
        obtain ⟨hlt, hinfo⟩ := h.recorded x hx unit launchId hactive
        exact ⟨hlt.trans_le hle, hinfo⟩
      · refine hrec.step hstep fun i mf hostId sync kinfo heq => ?_
        subst heq
        exact hoffered.2
    · intro f hf
      obtain ⟨x, hx, hactive⟩ := requestActive_iff.mp (h.active f hf)
      refine requestActive_iff.mpr ?_
      by_cases hd : f.request.device = d
      · rw [hd, hb] at hx
        obtain rfl := Option.some.inj hx
        have hlt := (List.getElem?_eq_some_iff.mp hb).1
        refine ⟨b', by rw [hd]; exact List.getElem?_set_self hlt, ?_⟩
        refine hrec.unitActive_step hstep (fun info heq hfinal hid => ?_) hactive
        subst heq
        refine hmeets hfinal f hf ?_
        rw [← hd, hid]
      · exact ⟨x, by rw [List.getElem?_set_ne (Ne.symm hd)]; exact hx, hactive⟩

theorem Inv.step (h : Inv cfg s) (hmeets : s.Meets op) (hoffered : s.Offered cfg op)
    (hs : s.step cfg gen op = .ok s') : Inv cfg s' := by
  cases op with
  | launches d op => exact h.launches hmeets hoffered hs
  | issue request =>
    obtain rfl := Except.ok.inj hs
    refine ⟨h.recorded, fun f hf => ?_⟩
    obtain hf | hf := List.mem_append.mp hf
    · exact h.active f hf
    · obtain rfl := List.mem_singleton.mp hf
      exact hmeets
  | make i stage =>
    obtain ⟨parent, hparent, -⟩ := hoffered
    simp only [MemorySystem.step, hparent] at hs
    obtain rfl := Except.ok.inj hs
    refine ⟨h.recorded, fun f hf => ?_⟩
    obtain hf | hf := List.mem_append.mp hf
    · exact h.active f hf
    · obtain rfl := List.mem_singleton.mp hf
      exact h.active parent (List.mem_of_getElem? hparent)
  | move i stage d =>
    obtain rfl := Except.ok.inj hs
    refine ⟨h.recorded, fun f hf => ?_⟩
    obtain ⟨n, hn⟩ := List.getElem?_of_mem hf
    rw [List.getElem?_modify] at hn
    obtain ⟨old, hold, rfl⟩ := Option.map_eq_some_iff.mp hn
    have hactive := h.active old (List.mem_of_getElem? hold)
    split
    · exact hactive
    · exact hactive
  | retire i =>
    obtain rfl := Except.ok.inj hs
    exact ⟨h.recorded, fun f hf => h.active f (List.mem_of_mem_eraseIdx hf)⟩

/-- A request in flight keeps its device active. -/
theorem Inv.not_finished (h : Inv cfg s) {f : MemoryFlight} (hf : f ∈ s.flights)
    (r : SimulationRunner) (hostTraffic : Bool) :
    s.checkAllSimulationFinished cfg r hostTraffic = false := by
  obtain ⟨b, hb, hactive⟩ := requestActive_iff.mp (h.active f hf)
  obtain ⟨hostId, hhost, hlaunch⟩ :=
    (h.recorded b (List.mem_of_getElem? hb)).isLaunchActive hactive
  have hdevice : s.deviceActive cfg f.request.device b = true := by
    refine List.any_eq_true.mpr ⟨hostId, List.mem_range.mpr hhost, ?_⟩
    rw [hlaunch, Bool.true_or, Bool.true_or]
  have hany : (s.devices.zipIdx.any fun (b, d) => s.deviceActive cfg d b) = true :=
    List.any_eq_true.mpr ⟨(b, f.request.device), List.mem_zipIdx_iff_getElem?.mpr hb, hdevice⟩
  simp [checkAllSimulationFinished, SimulationRunner.running, hany]

/-- If a unit finishes a launch only when none of its requests for the launch is in flight and sends
none afterwards, no request is in flight when the simulation is found to be finished. -/
theorem quiescent_of_run (cfg : SystemConfig) (gen : Nat → Nat → GeneratorConfig)
    {s : MemorySystem} (h : Run cfg gen Meets s) : s.Quiescent cfg := by
  have hinv : Inv cfg s := by
    induction h with
    | start => exact inv_create cfg
    | step run op meets offered hs ih => exact ih.step meets offered hs
  intro r hostTraffic hfinished
  refine List.eq_nil_iff_forall_not_mem.mpr fun f hf => ?_
  rw [hinv.not_finished hf r hostTraffic] at hfinished
  cases hfinished

/-- One host, one link and one unit. -/
def small : SystemConfig := LaunchBuffer.oneUnit 0x80#64

def kernels : Nat → Nat → GeneratorConfig := fun _ _ => LaunchBuffer.oneKernel

/-- The command of a host that does not wait for the kernel. -/
def asyncLaunch : Op := .launches 0 (.receive 0 (.launchRequest 0 ⟨false, 0, 0⟩) 0 false
  LaunchBuffer.onePacket)

/-- The unit is told that the initializer, the body or the finalizer has finished. -/
def finish (type : RequestType) (id : Nat) : Op :=
  .launches 0 (.complete 0 (UThreadGenerator.mkRequest LaunchBuffer.onePacket id type 0 0 0))

def idleRunner : SimulationRunner := ⟨0, [], [], [], 0⟩

/-- A store hits before its launch ends. -/
theorem quiescent_store_done : ∃ s, Run small kernels Meets s ∧ s.Quiescent small ∧
    s.checkAllSimulationFinished small idleRunner false = true := by
  have hstart : Run small kernels Meets _ := .start
  have hlaunched := hstart.step asyncLaunch trivial ⟨⟨by decide, rfl, rfl, rfl⟩, by decide⟩ rfl
  have hbegun := hlaunched.step (finish .initializer 0) (nofun) ⟨trivial, trivial⟩ rfl
  have hissued := hbegun.step (.issue ⟨0, 0, 0⟩) rfl trivial rfl
  have hdone := hissued.step (.retire 0) trivial ⟨_, rfl, rfl⟩ rfl
  have hbody := hdone.step (finish .kernelBody 1) (nofun) ⟨trivial, trivial⟩ rfl
  have hfinished := hbody.step (finish .finalizer 2) (fun _ f hf => nomatch hf)
    ⟨trivial, trivial⟩ rfl
  exact ⟨_, hfinished, quiescent_of_run _ _ hfinished, rfl⟩

/-- The launch ends while its store is in the crossbar, and nothing is found to be active. The same
happens to a store that is sent after the end of the launch. -/
theorem store_in_crossbar :
    (∃ s, Run small kernels (fun _ _ => True) s ∧ ¬ s.Quiescent small) ∧
    ∃ s, Run small kernels (fun s op => (∃ r, op = .issue r) ∨ s.Meets op) s ∧
      ¬ s.Quiescent small := by
  constructor
  · have hstart : Run small kernels (fun _ _ => True) _ := .start
    have hlaunched := hstart.step asyncLaunch trivial ⟨⟨by decide, rfl, rfl, rfl⟩, by decide⟩ rfl
    have hbegun := hlaunched.step (finish .initializer 0) trivial ⟨trivial, trivial⟩ rfl
    have hissued := hbegun.step (.issue ⟨0, 0, 0⟩) trivial trivial rfl
    have hmissed := hissued.step (.move 0 .missQueue 0) trivial ⟨_, rfl, by decide, .inr rfl⟩ rfl
    have htlb := hmissed.step (.move 0 .tlb 0) trivial ⟨_, rfl, by decide, .inr rfl⟩ rfl
    have hout := htlb.step (.move 0 .toMem 0) trivial ⟨_, rfl, by decide, .inr rfl⟩ rfl
    have hcrossbar := hout.step (.move 0 .crossbar 0) trivial ⟨_, rfl, by decide, .inr rfl⟩ rfl
    have hbody := hcrossbar.step (finish .kernelBody 1) trivial ⟨trivial, trivial⟩ rfl
    have hfinished := hbody.step (finish .finalizer 2) trivial ⟨trivial, trivial⟩ rfl
    have hchecked := hfinished.step (.launches 0 .checkKernelActive) trivial ⟨trivial, trivial⟩ rfl
    refine ⟨_, hchecked, fun h => ?_⟩
    have hnil := h idleRunner false rfl
    cases hnil
  · have hstart : Run small kernels (fun s op => (∃ r, op = .issue r) ∨ s.Meets op) _ := .start
    have hlaunched := hstart.step asyncLaunch (.inr trivial)
      ⟨⟨by decide, rfl, rfl, rfl⟩, by decide⟩ rfl
    have hbegun := hlaunched.step (finish .initializer 0) (.inr fun h => by cases h)
      ⟨trivial, trivial⟩ rfl
    have hbody := hbegun.step (finish .kernelBody 1) (.inr fun h => by cases h)
      ⟨trivial, trivial⟩ rfl
    have hfinished := hbody.step (finish .finalizer 2) (.inr fun _ f hf => by cases hf)
      ⟨trivial, trivial⟩ rfl
    have hissued := hfinished.step (.issue ⟨0, 0, 0⟩) (.inl ⟨_, rfl⟩) trivial rfl
    refine ⟨_, hissued, fun h => ?_⟩
    have hnil := h idleRunner false rfl
    cases hnil

end MemorySystem

end NdpSim
