import NdpSim.Library.Loops
import NdpSim.System.Routing
import NdpSim.Timing.GeneratorSteps

/-!
# Launch commands

A host launches a kernel with a write to a fixed address. The device hands the launch to all its
NDP units. An asynchronous command is answered at once. For a synchronous one the units are polled
until none of them has the launch any more; the answer is put into the queue that the port of a
reply to the host names, although the ports count banks and hosts and the queues count links.
-/
namespace NdpSim

open Library

/-- A launch that the device waits for. -/
structure LaunchRecord where
  launchId : Nat
  hostId : Nat
  sync : Bool
  cxlCommand : Message

/-- A launch command is taken from the link, and its reply is put into the queue of a link. -/
inductive LaunchEvent
  | accepted (launchId : Nat) (sync : Bool) (mf : Message)
  | queued (link : Nat) (launchId : Nat) (mf : Message)
  deriving DecidableEq

/-- What a device has to do with launches. `globalLaunchId` is shared by all devices. -/
structure LaunchBuffer where
  launchInfos : List LaunchRecord
  ndpUnits : List UThreadGenerator
  cxlCommandResponse : List (List Message)
  globalLaunchId : Nat

/-! ## The units -/

namespace UThreadGenerator

variable {cfg : GeneratorConfig} {g g' : UThreadGenerator} {launchId : Nat}

/-- A launch leaves the other launches of the unit alone. -/
theorem isLaunchActive_launch {kinfo : KernelLaunchInfo} (h : g.launch cfg kinfo = .ok g')
    (hne : launchId ≠ kinfo.launchId) : g'.isLaunchActive launchId = g.isLaunchActive launchId := by
  have hinsert : (g.launchInfos.insert kinfo.launchId kinfo).lookup launchId =
      g.launchInfos.lookup launchId := AList.lookup_insert_ne hne
  simp only [launch] at h
  split at h
  · cases h
  split at h
  · cases h
  split at h
  · obtain rfl := Except.ok.inj h
    rw [isLaunchActive, isLaunchActive, hinsert]
  · obtain rfl := Except.ok.inj h
    rw [isLaunchActive, (checkKernelLaunch_keeps cfg _).2.2, isLaunchActive]
    split
    · rw [finishLaunch, AList.lookup_erase_ne hne, hinsert]
    · rw [hinsert]

theorem isLaunchActive_complete (info : RequestInfo) (h : g.isLaunchActive launchId = false) :
    (g.complete info).isLaunchActive launchId = false := by
  unfold complete
  dsimp only
  split
  · simp only [isLaunchActive, increaseCount, finishLaunch] at h ⊢
    rw [Binding.lookup_erase_eq_ite]
    split
    · rfl
    · exact h
  · exact h

theorem isLaunchActive_complete_of_ne {info : RequestInfo}
    (h : info.type = .finalizer → info.launchId ≠ launchId) :
    (g.complete info).isLaunchActive launchId = g.isLaunchActive launchId := by
  unfold complete
  dsimp only
  split
  case isTrue hfinal =>
    simp only [isLaunchActive, increaseCount, finishLaunch]
    rw [AList.lookup_erase_ne (h hfinal).symm]
  case isFalse => rfl

end UThreadGenerator

namespace LaunchBuffer

variable (cfg : SystemConfig) (bufferId : Nat) (gen : Nat → GeneratorConfig)

def create : LaunchBuffer where
  launchInfos := []
  ndpUnits := List.replicate cfg.ndpUnitsPerBuffer .create
  cxlCommandResponse := List.replicate cfg.linksPerMemoryBuffer []
  globalLaunchId := 0

/-- `m_cxl_command_response[i].push_back(mf)` -/
def pushResponse (s : LaunchBuffer) (i : Int) (mf : Message) : Except Fault LaunchBuffer :=
  if 0 ≤ i ∧ i < s.cxlCommandResponse.length then
    .ok { s with cxlCommandResponse := s.cxlCommandResponse.modify i.toNat (· ++ [mf]) }
  else .error .undefined

/-- `launch_ndp_kernel` -/
def launchNdpKernel (s : LaunchBuffer) (kinfo : KernelLaunchInfo) (hostId : Nat) (sync : Bool)
    (mf : Message) : Except Fault LaunchBuffer := do
  let launchId := s.globalLaunchId
  let units ← s.ndpUnits.zipIdx.mapM fun (g, n) =>
    g.launch (gen n) { kinfo with launchId := launchId }
  return { s with
    globalLaunchId := launchId + 1
    launchInfos := s.launchInfos ++ [⟨launchId, hostId, sync, mf⟩]
    ndpUnits := units }

/-- A launch command comes from link `i`. -/
def receive (s : LaunchBuffer) (i : Nat) (mf : Message) (hostId : Nat) (sync : Bool)
    (kinfo : KernelLaunchInfo) : Except Fault (LaunchBuffer × List LaunchEvent) := do
  let launchId := s.globalLaunchId
  if sync then
    return (← s.launchNdpKernel gen kinfo hostId sync mf, [.accepted launchId sync mf])
  let reply ← mf.setReply
  let s ← s.pushResponse i reply
  return (← s.launchNdpKernel gen kinfo hostId sync reply,
    [.accepted launchId sync mf, .queued i launchId reply])

/-- No unit has the launch. -/
def allFinished (s : LaunchBuffer) (launchId : Nat) : Bool :=
  s.ndpUnits.all fun g => !g.isLaunchActive launchId

/-- `check_kernel_active`: the first launch that is finished is done with. -/
def checkKernelActive (s : LaunchBuffer) : Except Fault (LaunchBuffer × List LaunchEvent) :=
  match s.launchInfos.find? fun info => s.allFinished info.launchId with
  | none => .ok (s, [])
  | some info => do
    let rest := s.launchInfos.eraseP fun info => s.allFinished info.launchId
    if info.sync then
      let reply ← info.cxlCommand.setReply
      let i := cfg.getOutputPortId bufferId reply
      let s ← s.pushResponse i reply
      return ({ s with launchInfos := rest }, [.queued i.toNat info.launchId reply])
    return ({ s with launchInfos := rest }, [])

/-! ## Runs -/

/-- What happens to a device: a launch command comes, a unit generates requests or is told of a
finished one, the launches are checked, a reply is given to the link, and another device takes a
launch command. -/
inductive Op
  | receive (i : Nat) (mf : Message) (hostId : Nat) (sync : Bool) (kinfo : KernelLaunchInfo)
  | cycle (unit : Nat)
  | generate (unit threads : Nat)
  | complete (unit : Nat) (info : RequestInfo)
  | checkKernelActive
  | transfer (i : Nat)
  | elsewhere

def step (s : LaunchBuffer) : Op → Except Fault (LaunchBuffer × List LaunchEvent)
  | .receive i mf hostId sync kinfo => s.receive gen i mf hostId sync kinfo
  | .cycle unit =>
    match s.ndpUnits[unit]? with
    | none => .error .undefined
    | some g => do return ({ s with ndpUnits := s.ndpUnits.set unit (← g.cycle (gen unit)) }, [])
  | .generate unit threads =>
    match s.ndpUnits[unit]? with
    | none => .error .undefined
    | some g => do
      let g ← g.generateUthreads (gen unit) threads
      return ({ s with ndpUnits := s.ndpUnits.set unit g }, [])
  | .complete unit info =>
    match s.ndpUnits[unit]? with
    | none => .error .undefined
    | some g => return ({ s with ndpUnits := s.ndpUnits.set unit (g.complete info) }, [])
  | .checkKernelActive => s.checkKernelActive cfg bufferId
  | .transfer i =>
    return ({ s with cxlCommandResponse := s.cxlCommandResponse.modify i List.tail }, [])
  | .elsewhere => return ({ s with globalLaunchId := s.globalLaunchId + 1 }, [])

/-- A launch command as the hosts make it, at one of the links. -/
def Offered : Op → Prop
  | .receive i mf _ _ _ => i < cfg.linksPerMemoryBuffer ∧ mf.addr = kernelLaunchAddr ∧
      mf.type = .writeRequest ∧ mf.fromNdp = false
  | _ => True

/-- The runs in which every step meets `P`. -/
inductive Run (cfg : SystemConfig) (bufferId : Nat) (gen : Nat → GeneratorConfig)
    (P : Op → Prop) : LaunchBuffer → List LaunchEvent → Prop
  | start : Run cfg bufferId gen P (create cfg) []
  | step {s s' : LaunchBuffer} {tr ev : List LaunchEvent} (run : Run cfg bufferId gen P s tr)
      (op : Op) (meets : P op) (offered : Offered cfg op)
      (h : s.step cfg bufferId gen op = .ok (s', ev)) : Run cfg bufferId gen P s' (tr ++ ev)

/-! ## Answers -/

def acceptedIds (tr : List LaunchEvent) : List Nat :=
  tr.filterMap fun
    | .accepted launchId _ _ => some launchId
    | .queued .. => none

def queuedIds (tr : List LaunchEvent) : List Nat :=
  tr.filterMap fun
    | .queued _ launchId _ => some launchId
    | .accepted .. => none

/-- The synchronous launches that are not done with. -/
def waitingIds (s : LaunchBuffer) : List Nat :=
  (s.launchInfos.filter LaunchRecord.sync).map LaunchRecord.launchId

/-- Every command is answered once, unless its launch is still under way. -/
structure AnswersOnce (s : LaunchBuffer) (tr : List LaunchEvent) : Prop where
  distinct : (acceptedIds tr).Nodup
  once : (queuedIds tr ++ s.waitingIds).Perm (acceptedIds tr)
  existing : ∀ link launchId mf, .queued link launchId mf ∈ tr →
    link < cfg.linksPerMemoryBuffer ∧
      ∃ sync command, .accepted launchId sync command ∈ tr ∧ command.setReply = .ok mf
  asynchronous : ∀ launchId mf, .accepted launchId false mf ∈ tr → launchId ∈ queuedIds tr
  synchronous : ∀ launchId mf, .accepted launchId true mf ∈ tr → launchId ∈ queuedIds tr →
    s.allFinished launchId = true
  /-- a launch that is finished is done with when the launches are checked -/
  served : (∃ info ∈ s.launchInfos, s.allFinished info.launchId = true) → ∃ s' ev,
    s.checkKernelActive cfg bufferId = .ok (s', ev) ∧
      s'.launchInfos.length + 1 = s.launchInfos.length

/-- The port of a reply to the host is the number of a link. -/
def InRange (host : Nat) : Prop :=
  let i : Int := host * cfg.linkPerHost + (cfg.getChannelIndex kernelLaunchAddr *
    cfg.l2dNumBanks + cfg.bankId kernelLaunchAddr).tmod cfg.linkPerHost
  0 < cfg.linkPerHost ∧ 0 ≤ i ∧ i < cfg.linksPerMemoryBuffer

def Meets : Op → Prop
  | .receive _ mf _ sync _ => sync = true → InRange cfg mf.srcId
  | _ => True

structure Inv (s : LaunchBuffer) (tr : List LaunchEvent) : Prop where
  links : s.cxlCommandResponse.length = cfg.linksPerMemoryBuffer
  accepted_lt : ∀ launchId ∈ acceptedIds tr, launchId < s.globalLaunchId
  distinct : (acceptedIds tr).Nodup
  once : (queuedIds tr ++ s.waitingIds).Perm (acceptedIds tr)
  existing : ∀ link launchId mf, .queued link launchId mf ∈ tr →
    link < cfg.linksPerMemoryBuffer ∧
      ∃ sync command, .accepted launchId sync command ∈ tr ∧ command.setReply = .ok mf
  asynchronous : ∀ launchId mf, .accepted launchId false mf ∈ tr → launchId ∈ queuedIds tr
  synchronous : ∀ launchId mf, .accepted launchId true mf ∈ tr → launchId ∈ queuedIds tr →
    s.allFinished launchId = true
  waiting : ∀ info ∈ s.launchInfos, info.sync = true →
    .accepted info.launchId true info.cxlCommand ∈ tr ∧
      info.cxlCommand.addr = kernelLaunchAddr ∧ info.cxlCommand.type = .writeRequest ∧
      info.cxlCommand.fromNdp = false ∧ InRange cfg info.cxlCommand.srcId

variable {cfg} {bufferId} {gen} {s s' : LaunchBuffer} {tr ev : List LaunchEvent} {mf : Message}
  {launchId : Nat}

@[simp] theorem acceptedIds_append (tr tr' : List LaunchEvent) :
    acceptedIds (tr ++ tr') = acceptedIds tr ++ acceptedIds tr' := List.filterMap_append

@[simp] theorem queuedIds_append (tr tr' : List LaunchEvent) :
    queuedIds (tr ++ tr') = queuedIds tr ++ queuedIds tr' := List.filterMap_append

theorem mem_acceptedIds {sync : Bool} (h : .accepted launchId sync mf ∈ tr) :
    launchId ∈ acceptedIds tr := List.mem_filterMap.mpr ⟨_, h, rfl⟩

theorem inv_create (cfg : SystemConfig) : Inv cfg (create cfg) [] where
  links := List.length_replicate
  accepted_lt := by simp [acceptedIds]
  distinct := List.nodup_nil
  once := List.Perm.refl _
  existing := by simp
  asynchronous := by simp
  synchronous := by simp
  waiting := by simp [create]

/-- Units go on; none of them gets a launch that it did not have. -/
theorem Inv.units (h : Inv cfg s tr) {units : List UThreadGenerator}
    (hactive : ∀ launchId, s.allFinished launchId = true →
      allFinished { s with ndpUnits := units } launchId = true) :
    Inv cfg { s with ndpUnits := units } tr :=
  ⟨h.links, h.accepted_lt, h.distinct, h.once, h.existing, h.asynchronous,
    fun launchId mf ha hq => hactive launchId (h.synchronous launchId mf ha hq), h.waiting⟩

/-- A cycle of a unit leaves its launches as they are. -/
theorem step_cycle {unit : Nat} (h : s.step cfg bufferId gen (.cycle unit) = .ok (s', ev)) :
    ∃ g g', s.ndpUnits[unit]? = some g ∧
      (∀ launchId, g'.isLaunchActive launchId = g.isLaunchActive launchId) ∧
      s' = { s with ndpUnits := s.ndpUnits.set unit g' } ∧ ev = [] := by
  simp only [step] at h
  split at h
  case h_1 => cases h
  case h_2 g hunit =>
    obtain ⟨g', hg, h⟩ := bind_eq_ok.mp h
    obtain ⟨rfl, rfl⟩ := Prod.mk.inj (Except.ok.inj h)
    refine ⟨g, g', hunit, fun launchId => ?_, rfl, rfl⟩
    rw [UThreadGenerator.isLaunchActive, UThreadGenerator.isLaunchActive,
      (UThreadGenerator.cycle_changes hg).launchInfos_eq]

theorem step_generate {unit threads : Nat}
    (h : s.step cfg bufferId gen (.generate unit threads) = .ok (s', ev)) :
    ∃ g g', s.ndpUnits[unit]? = some g ∧
      (∀ launchId, g'.isLaunchActive launchId = g.isLaunchActive launchId) ∧
      s' = { s with ndpUnits := s.ndpUnits.set unit g' } ∧ ev = [] := by
  simp only [step] at h
  split at h
  case h_1 => cases h
  case h_2 g hunit =>
    obtain ⟨g', hg, h⟩ := bind_eq_ok.mp h
    obtain ⟨rfl, rfl⟩ := Prod.mk.inj (Except.ok.inj h)
    refine ⟨g, g', hunit, fun launchId => ?_, rfl, rfl⟩
    rw [UThreadGenerator.isLaunchActive, UThreadGenerator.isLaunchActive,
      (UThreadGenerator.generateUthreads_pushes hg).changes.launchInfos_eq]

theorem step_complete {unit : Nat} {info : RequestInfo}
    (h : s.step cfg bufferId gen (.complete unit info) = .ok (s', ev)) :
    ∃ g, s.ndpUnits[unit]? = some g ∧
      s' = { s with ndpUnits := s.ndpUnits.set unit (g.complete info) } ∧ ev = [] := by
  simp only [step] at h
  split at h
  case h_1 => cases h
  case h_2 g hunit =>
    obtain ⟨rfl, rfl⟩ := Prod.mk.inj (Except.ok.inj h)
    exact ⟨g, hunit, rfl, rfl⟩

theorem allFinished_set {g g' : UThreadGenerator} {unit : Nat} (hunit : s.ndpUnits[unit]? = some g)
    (hactive : g.isLaunchActive launchId = false → g'.isLaunchActive launchId = false)
    (h : s.allFinished launchId = true) :
    allFinished { s with ndpUnits := s.ndpUnits.set unit g' } launchId = true := by
  simp only [allFinished, List.all_eq_true, Bool.not_eq_true'] at h ⊢
  intro x hx
  obtain hx | rfl := List.mem_or_eq_of_mem_set hx
  · exact h x hx
  · exact hactive (h g (List.mem_of_getElem? hunit))

/-- The units differ in one launch at most. -/
def AlikeBut (launchId : Nat) (units units' : List UThreadGenerator) : Prop :=
  List.Forall₂ (fun g g' => ∀ other, other ≠ launchId →
    g'.isLaunchActive other = g.isLaunchActive other) units units'

theorem AlikeBut.all {units units' : List UThreadGenerator} {other : Nat}
    (h : AlikeBut launchId units units') (hne : other ≠ launchId) :
    (units'.all fun g => !g.isLaunchActive other) =
      units.all fun g => !g.isLaunchActive other := by
  unfold AlikeBut at h
  induction h with
  | nil => rfl
  | cons hg _ ih => rw [List.all_cons, List.all_cons, ih, hg other hne]

/-- The units take a launch. -/
theorem launchNdpKernel_cases {kinfo : KernelLaunchInfo} {hostId : Nat} {sync : Bool}
    (h : s.launchNdpKernel gen kinfo hostId sync mf = .ok s') :
    s'.launchInfos = s.launchInfos ++ [⟨s.globalLaunchId, hostId, sync, mf⟩] ∧
    s'.cxlCommandResponse = s.cxlCommandResponse ∧ s'.globalLaunchId = s.globalLaunchId + 1 ∧
    AlikeBut s.globalLaunchId s.ndpUnits s'.ndpUnits := by
  obtain ⟨units, hunits, h⟩ := bind_eq_ok.mp h
  obtain rfl := Except.ok.inj h
  refine ⟨rfl, rfl, rfl, ?_⟩
  have hall : List.Forall₂ (fun (x : UThreadGenerator × Nat) g' => ∀ other,
      other ≠ s.globalLaunchId → g'.isLaunchActive other = x.1.isLaunchActive other)
      s.ndpUnits.zipIdx units := by
    refine (forall₂_of_mapM hunits).imp fun x g' hlaunch other hne => ?_
    exact UThreadGenerator.isLaunchActive_launch hlaunch hne
  have hunits : s.ndpUnits = s.ndpUnits.zipIdx.map Prod.fst := (List.zipIdx_map_fst 0 _).symm
  rw [AlikeBut, hunits, List.forall₂_map_left_iff]
  exact hall

theorem pushResponse_cases {i : Int} (h : s.pushResponse i mf = .ok s') :
    0 ≤ i ∧ i < s.cxlCommandResponse.length ∧ s' = { s with
      cxlCommandResponse := s.cxlCommandResponse.modify i.toNat (· ++ [mf]) } := by
  simp only [pushResponse] at h
  split at h
  case isTrue hin => exact ⟨hin.1, hin.2, (Except.ok.inj h).symm⟩
  case isFalse => cases h

theorem Inv.fresh (h : Inv cfg s tr) : s.globalLaunchId ∉ acceptedIds tr :=
  fun hmem => Nat.lt_irrefl _ (h.accepted_lt _ hmem)

theorem Inv.fresh_queued (h : Inv cfg s tr) : s.globalLaunchId ∉ queuedIds tr :=
  fun hmem => h.fresh (h.once.subset (List.mem_append_left _ hmem))

/-- The launch that was answered before is still finished after another one has been taken. -/
theorem Inv.finished_launch (h : Inv cfg s tr)
    (hactive : AlikeBut s.globalLaunchId s.ndpUnits s'.ndpUnits)
    (ha : .accepted launchId true mf ∈ tr) (hq : launchId ∈ queuedIds tr) :
    s'.allFinished launchId = true := by
  rw [allFinished, hactive.all fun heq => h.fresh (heq ▸ mem_acceptedIds ha)]
  exact h.synchronous launchId mf ha hq

theorem Inv.accepted_concat (h : Inv cfg s tr) :
    (acceptedIds tr ++ [s.globalLaunchId]).Nodup ∧
      ∀ launchId ∈ acceptedIds tr ++ [s.globalLaunchId], launchId < s.globalLaunchId + 1 := by
  refine ⟨?_, fun launchId hmem => ?_⟩
  · refine List.Nodup.append h.distinct (List.nodup_singleton _) fun x hx hx' => ?_
    exact h.fresh (List.mem_singleton.mp hx' ▸ hx)
  · obtain hmem | hmem := List.mem_append.mp hmem
    · exact (h.accepted_lt _ hmem).trans (Nat.lt_succ_self _)
    · exact List.mem_singleton.mp hmem ▸ Nat.lt_succ_self _

/-- A synchronous command waits for its launch. -/
theorem Inv.receive_sync (h : Inv cfg s tr) {kinfo : KernelLaunchInfo} {hostId : Nat}
    (hlaunch : s.launchNdpKernel gen kinfo hostId true mf = .ok s')
    (haddr : mf.addr = kernelLaunchAddr)
    (htype : mf.type = .writeRequest) (hndp : mf.fromNdp = false) (hin : InRange cfg mf.srcId) :
    Inv cfg s' (tr ++ [.accepted s.globalLaunchId true mf]) := by
  obtain ⟨hinfos, hresponses, hglobal, hactive⟩ := launchNdpKernel_cases hlaunch
  have haccepted : acceptedIds (tr ++ [.accepted s.globalLaunchId true mf]) =
      acceptedIds tr ++ [s.globalLaunchId] := acceptedIds_append _ _
  have hqueued : queuedIds (tr ++ [.accepted s.globalLaunchId true mf]) = queuedIds tr := by
    rw [queuedIds_append]
    exact List.append_nil _
  have hwaiting : s'.waitingIds = s.waitingIds ++ [s.globalLaunchId] := by
    rw [waitingIds, hinfos, List.filter_append, List.map_append]
    rfl
  constructor
  · rw [hresponses]
    exact h.links
  · rw [haccepted, hglobal]
    exact h.accepted_concat.2
  · rw [haccepted]
    exact h.accepted_concat.1
  · rw [haccepted, hqueued, hwaiting, ← List.append_assoc]
    exact h.once.append_right _
  · intro link launchId m hm
    obtain ⟨hlink, sync, command, hmem, hreply⟩ := h.existing link launchId m (by simpa using hm)
    exact ⟨hlink, sync, command, List.mem_append_left _ hmem, hreply⟩
  · intro launchId m hm
    rw [hqueued]
    exact h.asynchronous launchId m (by simpa using hm)
  · intro launchId m hm hq
    rw [hqueued] at hq
    obtain hm | hm := List.mem_append.mp hm
    · exact h.finished_launch hactive hm hq
    · obtain ⟨rfl, -⟩ := LaunchEvent.accepted.inj (List.mem_singleton.mp hm)
      exact absurd hq h.fresh_queued
  · intro info hinfo hsync
    rw [hinfos] at hinfo
    obtain hinfo | hinfo := List.mem_append.mp hinfo
    · obtain ⟨hmem, hrest⟩ := h.waiting info hinfo hsync
      exact ⟨List.mem_append_left _ hmem, hrest⟩
    · obtain rfl := List.mem_singleton.mp hinfo
      exact ⟨by simp, haddr, htype, hndp, hin⟩

/-- An asynchronous command is answered at once. -/
theorem Inv.receive_async (h : Inv cfg s tr) {kinfo : KernelLaunchInfo} {i hostId : Nat}
    {reply : Message} {s₁ : LaunchBuffer} (hreply : mf.setReply = .ok reply)
    (hpush : s.pushResponse i reply = .ok s₁)
    (hlaunch : s₁.launchNdpKernel gen kinfo hostId false reply = .ok s') :
    Inv cfg s' (tr ++ [.accepted s.globalLaunchId false mf,
      .queued i s.globalLaunchId reply]) := by
  obtain ⟨-, hlt, rfl⟩ := pushResponse_cases hpush
  obtain ⟨hinfos, hresponses, hglobal, hactive⟩ := launchNdpKernel_cases hlaunch
  have haccepted : acceptedIds (tr ++ [.accepted s.globalLaunchId false mf,
      .queued i s.globalLaunchId reply]) = acceptedIds tr ++ [s.globalLaunchId] :=
    acceptedIds_append _ _
  have hqueued : queuedIds (tr ++ [.accepted s.globalLaunchId false mf,
      .queued i s.globalLaunchId reply]) = queuedIds tr ++ [s.globalLaunchId] :=
    queuedIds_append _ _
  have hwaiting : s'.waitingIds = s.waitingIds := by
    rw [waitingIds, hinfos, List.filter_append, List.map_append]
    exact List.append_nil _
  constructor
  · rw [hresponses, List.length_modify]
    exact h.links
  · rw [haccepted, hglobal]
    exact h.accepted_concat.2
  · rw [haccepted]
    exact h.accepted_concat.1
  · rw [haccepted, hqueued, hwaiting, List.append_assoc]
    refine (List.Perm.append_left _ List.perm_append_comm).trans ?_
    rw [← List.append_assoc]
    exact h.once.append_right _
  · intro link launchId m hm
    obtain hm | hm := List.mem_append.mp hm
    · obtain ⟨hlink, sync, command, hmem, hreply⟩ := h.existing link launchId m hm
      exact ⟨hlink, sync, command, List.mem_append_left _ hmem, hreply⟩
    · obtain ⟨rfl, rfl, rfl⟩ : link = i ∧ launchId = s.globalLaunchId ∧ m = reply := by
        simpa using hm
      rw [h.links] at hlt
      exact ⟨by exact_mod_cast hlt, false, mf, by simp, hreply⟩
  · intro launchId m hm
    rw [hqueued]
    obtain hm | hm := List.mem_append.mp hm
    · exact List.mem_append_left _ (h.asynchronous launchId m hm)
    · obtain ⟨rfl, -⟩ : launchId = s.globalLaunchId ∧ m = mf := by simpa using hm
      exact List.mem_append_right _ (List.mem_singleton_self _)
  · intro launchId m hm hq
    have hm : .accepted launchId true m ∈ tr := by simpa using hm
    have hne : launchId ≠ s.globalLaunchId := fun heq => h.fresh (heq ▸ mem_acceptedIds hm)
    rw [hqueued] at hq
    have hq : launchId ∈ queuedIds tr := by simpa [hne] using hq
    exact h.finished_launch hactive hm hq
  · intro info hinfo hsync
    rw [hinfos] at hinfo
    obtain hinfo | hinfo := List.mem_append.mp hinfo
    · obtain ⟨hmem, hrest⟩ := h.waiting info hinfo hsync
      exact ⟨List.mem_append_left _ hmem, hrest⟩
    · obtain rfl := List.mem_singleton.mp hinfo
      cases hsync

/-! ## The check -/

/-- The answer to a synchronous command has a queue. -/
theorem pushResponse_waiting (h : Inv cfg s tr) {info : LaunchRecord} (bufferId : Nat)
    (hinfo : info ∈ s.launchInfos) (hsync : info.sync = true) :
    ∃ reply s₁, info.cxlCommand.setReply = .ok reply ∧
      s.pushResponse (cfg.getOutputPortId bufferId reply) reply = .ok s₁ := by
  obtain ⟨-, haddr, htype, hndp, hin⟩ := h.waiting info hinfo hsync
  refine ⟨{ info.cxlCommand with type := .writeAck }, ?_⟩
  have hreply : info.cxlCommand.setReply = .ok { info.cxlCommand with type := .writeAck } := by
    rw [Message.setReply, htype]
  have hport := @SystemConfig.getOutputPortId_host cfg bufferId
    { info.cxlCommand with type := .writeAck } hndp rfl
  rw [haddr] at hport
  rw [hport, pushResponse, h.links, if_pos hin.2]
  exact ⟨_, hreply, rfl⟩

theorem Inv.checked (h : Inv cfg s tr)
    (hs : s.checkKernelActive cfg bufferId = .ok (s', ev)) : Inv cfg s' (tr ++ ev) := by
  simp only [checkKernelActive] at hs
  split at hs
  case h_1 =>
    obtain ⟨rfl, rfl⟩ := Prod.mk.inj (Except.ok.inj hs)
    rwa [List.append_nil]
  case h_2 info hfind =>
    obtain ⟨hfinished, l, r, hinfos, herase⟩ := eraseP_of_find? hfind
    have hsub : ∀ x ∈ l ++ r, x ∈ s.launchInfos := by
      intro x hx
      rw [hinfos]
      simp only [List.mem_append, List.mem_cons] at hx ⊢
      tauto
    rw [herase] at hs
    split at hs
    case isTrue hsync =>
      obtain ⟨reply, hreply, hs⟩ := bind_eq_ok.mp hs
      obtain ⟨s₁, hpush, hs⟩ := bind_eq_ok.mp hs
      obtain ⟨rfl, rfl⟩ := Prod.mk.inj (Except.ok.inj hs)
      obtain ⟨hle, hlt, rfl⟩ := pushResponse_cases hpush
      rw [h.links] at hlt
      have hmem : info ∈ s.launchInfos := by simp [hinfos]
      have hwaiting := (h.waiting info hmem hsync).1
      have hqueued : queuedIds (tr ++ [.queued (cfg.getOutputPortId bufferId reply).toNat
          info.launchId reply]) = queuedIds tr ++ [info.launchId] := queuedIds_append _ _
      have haccepted : acceptedIds (tr ++ [.queued (cfg.getOutputPortId bufferId reply).toNat
          info.launchId reply]) = acceptedIds tr := by
        rw [acceptedIds_append]
        exact List.append_nil _
      have hids : s.waitingIds.Perm (info.launchId :: ((l ++ r).filter LaunchRecord.sync).map
          LaunchRecord.launchId) := by
        rw [waitingIds, hinfos, List.filter_append, List.filter_cons_of_pos hsync,
          List.filter_append, List.map_append, List.map_append, List.map_cons]
        exact List.perm_middle
      constructor
      · rw [List.length_modify]
        exact h.links
      · rw [haccepted]
        exact h.accepted_lt
      · rw [haccepted]
        exact h.distinct
      · rw [hqueued, haccepted, List.append_assoc]
        exact (List.Perm.append_left _ hids.symm).trans h.once
      · intro link launchId m hm
        obtain hm | hm := List.mem_append.mp hm
        · obtain ⟨hlink, sync, command, hacc, hrep⟩ := h.existing link launchId m hm
          exact ⟨hlink, sync, command, List.mem_append_left _ hacc, hrep⟩
        · obtain ⟨rfl, rfl, rfl⟩ := LaunchEvent.queued.inj (List.mem_singleton.mp hm)
          exact ⟨by omega, true, info.cxlCommand, List.mem_append_left _ hwaiting, hreply⟩
      · intro launchId m hm
        rw [hqueued]
        exact List.mem_append_left _ (h.asynchronous launchId m (by simpa using hm))
      · intro launchId m hm hq
        rw [hqueued] at hq
        obtain hq | hq := List.mem_append.mp hq
        · exact h.synchronous launchId m (by simpa using hm) hq
        · exact List.mem_singleton.mp hq ▸ hfinished
      · intro x hx hxsync
        obtain ⟨hacc, hrest⟩ := h.waiting x (hsub x hx) hxsync
        exact ⟨List.mem_append_left _ hacc, hrest⟩
    case isFalse hasync =>
      obtain ⟨rfl, rfl⟩ := Prod.mk.inj (Except.ok.inj hs)
      rw [List.append_nil]
      have hsame : waitingIds { s with launchInfos := l ++ r } = s.waitingIds := by
        rw [waitingIds, waitingIds, hinfos, List.filter_append, List.filter_append,
          List.filter_cons_of_neg hasync]
      exact ⟨h.links, h.accepted_lt, h.distinct, by rw [hsame]; exact h.once, h.existing,
        h.asynchronous, h.synchronous, fun x hx => h.waiting x (hsub x hx)⟩

/-- A launch that is finished is found and done with. -/
theorem Inv.served (h : Inv cfg s tr) (bufferId : Nat)
    (hex : ∃ info ∈ s.launchInfos, s.allFinished info.launchId = true) : ∃ s' ev,
    s.checkKernelActive cfg bufferId = .ok (s', ev) ∧
      s'.launchInfos.length + 1 = s.launchInfos.length := by
  obtain ⟨info, hfind⟩ : ∃ info,
      s.launchInfos.find? (fun info => s.allFinished info.launchId) = some info :=
    Option.isSome_iff_exists.mp (List.find?_isSome.mpr hex)
  obtain ⟨-, l, r, hinfos, herase⟩ := eraseP_of_find? hfind
  have hlen : (l ++ r).length + 1 = s.launchInfos.length := by
    rw [hinfos]
    simp
    omega
  simp only [checkKernelActive, hfind, herase]
  by_cases hsync : info.sync = true
  · obtain ⟨reply, s₁, hreply, hpush⟩ :=
      pushResponse_waiting h bufferId (List.mem_of_find?_eq_some hfind) hsync
    rw [if_pos hsync]
    exact ⟨_, _, bind_eq_ok.mpr ⟨reply, hreply, bind_eq_ok.mpr ⟨s₁, hpush, rfl⟩⟩,
      by rwa [(pushResponse_cases hpush).2.2]⟩
  · rw [if_neg hsync]
    exact ⟨_, _, rfl, hlen⟩

theorem Inv.step {op : Op} (h : Inv cfg s tr) (hmeets : Meets cfg op) (hoffered : Offered cfg op)
    (hs : s.step cfg bufferId gen op = .ok (s', ev)) : Inv cfg s' (tr ++ ev) := by
  cases op with
  | receive i mf hostId sync kinfo =>
    obtain ⟨-, haddr, htype, hndp⟩ := hoffered
    cases sync with
    | true =>
      obtain ⟨s₁, hlaunch, hs⟩ := bind_eq_ok.mp hs
      obtain ⟨rfl, rfl⟩ := Prod.mk.inj (Except.ok.inj hs)
      exact h.receive_sync hlaunch haddr htype hndp (hmeets rfl)
    | false =>
      obtain ⟨reply, hreply, hs⟩ := bind_eq_ok.mp hs
      obtain ⟨s₁, hpush, hs⟩ := bind_eq_ok.mp hs
      obtain ⟨s₂, hlaunch, hs⟩ := bind_eq_ok.mp hs
      obtain ⟨rfl, rfl⟩ := Prod.mk.inj (Except.ok.inj hs)
      exact h.receive_async hreply hpush hlaunch
  | cycle unit =>
    obtain ⟨g, g', hunit, hsame, rfl, rfl⟩ := step_cycle hs
    rw [List.append_nil]
    exact h.units fun launchId => allFinished_set hunit (hsame launchId).trans
  | generate unit threads =>
    obtain ⟨g, g', hunit, hsame, rfl, rfl⟩ := step_generate hs
    rw [List.append_nil]
    exact h.units fun launchId => allFinished_set hunit (hsame launchId).trans
  | complete unit info =>
    obtain ⟨g, hunit, rfl, rfl⟩ := step_complete hs
    rw [List.append_nil]
    exact h.units fun launchId =>
      allFinished_set hunit (UThreadGenerator.isLaunchActive_complete info)
  | checkKernelActive => exact h.checked hs
  | transfer i =>
    obtain ⟨rfl, rfl⟩ := Prod.mk.inj (Except.ok.inj hs)
    rw [List.append_nil]
    exact ⟨by rw [List.length_modify]; exact h.links, h.accepted_lt, h.distinct, h.once,
      h.existing, h.asynchronous, h.synchronous, h.waiting⟩
  | elsewhere =>
    obtain ⟨rfl, rfl⟩ := Prod.mk.inj (Except.ok.inj hs)
    rw [List.append_nil]
    exact ⟨h.links, fun launchId hmem => (h.accepted_lt launchId hmem).trans (Nat.lt_succ_self _),
      h.distinct, h.once, h.existing, h.asynchronous, h.synchronous, h.waiting⟩

/-- One host, one link and one unit. The bank is taken from a bit that the launch address has set
if `bankMask` says so. -/
def oneUnit (bankMask : BitVec 64) : SystemConfig where
  numHosts := 1
  numM2ndps := 1
  linksPerHost := 1
  linksPerMemoryBuffer := 1
  cxlLinkBufferSize := 1
  numNdpUnits := 1
  ndpUnitsPerBuffer := 1
  l2dNumBanks := 2
  numChannels := 1
  channelIndexingPolicy := 0
  deviceMask := 0xff00000000000000#64
  channelMask := 0
  bankMask := bankMask

def oneKernel : GeneratorConfig where
  ndpId := 0
  checkAddrMatch _ := true
  registeredFunctions := {0}
  numKernelBodies _ := 1
  spadSize := 131072
  maxKernelLaunch := 1
  isCoarseGrained := false
  isScWork := false
  requestQueueSize := 4

def onePacket : KernelLaunchInfo := ⟨0, 0, 0, 32, 64⟩

end LaunchBuffer

end NdpSim
