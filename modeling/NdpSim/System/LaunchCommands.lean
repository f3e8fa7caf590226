import NdpSim.System.SerialLaunch

/-!
# Where launch commands are

The launch commands that the runner still has are requests of host 0, those that a device has taken
wait for its launches or as replies. What each part of the runner and of a device does to them.
-/
namespace NdpSim

open Library

/-! ## The runner -/

theorem Message.isLaunchCommand_answerInvalidation {mf mf' : Message}
    (h : mf.answerInvalidation = .ok mf') : mf'.isLaunchCommand = mf.isLaunchCommand := by
  simp only [answerInvalidation, setReply] at h
  cases htype : mf.type <;> rw [htype] at h
  case readRequest => cases h; rfl
  case writeRequest => cases h; rfl
  case readReply => cases h
  case writeAck => cases h

theorem Message.isLaunchCommand_setReply {mf mf' : Message} (h : mf.setReply = .ok mf') :
    mf'.isLaunchCommand = mf.isLaunchCommand ∧ mf'.isRequest = false ∧ mf'.id = mf.id := by
  simp only [setReply] at h
  split at h <;> cases h <;> exact ⟨rfl, rfl, rfl⟩

namespace SimulationRunner

variable {g : RunnerConfig} {r r' : SimulationRunner} {i : SimulationInput}
  {ev : List HostEvent} {host node : Nat}

/-- The launch commands that the runner has are requests of host 0. -/
structure Prepared (r : SimulationRunner) : Prop where
  queues : LaunchTrace.LaunchesFirst r.memoryReqs
  commands : ∀ command ∈ r.commands, LaunchTrace.LaunchesFirst command.memoryReqs
  answers : ∀ p ∈ r.biReqs, p.1.isLaunchCommand = false

theorem Prepared.create {trace : TraceConfig} {t : LaunchTrace} (h : t.Parsed trace) :
    Prepared (create g t.commands) where
  queues host reqs hreqs mf hmf := by
    have hmem : reqs ∈ List.replicate g.numHosts [] := List.mem_of_getElem? hreqs
    obtain rfl := List.eq_of_mem_replicate hmem
    cases hmf
  commands := h.commands
  answers p hp := absurd hp List.not_mem_nil

theorem eq_cons_of_releaseBi {now : Nat} {mf : Message} {reqs rest : List (Message × Nat)}
    (h : releaseBi now reqs = (some mf, rest)) : ∃ ready, reqs = (mf, ready) :: rest := by
  simp only [releaseBi] at h
  split at h
  · split at h <;> cases h
    exact ⟨_, rfl⟩
  · cases h

theorem Prepared.release (h : r.Prepared) (hr : r.release = .ok (r', ev)) :
    r'.Prepared ∧ r'.remaining = r.remaining := by
  simp only [SimulationRunner.release] at hr
  split at hr
  case h_1 answer biReqs reqs others hbi hqueues =>
    obtain ⟨rfl, -⟩ := Prod.mk.inj (Except.ok.inj hr)
    obtain ⟨ready, hwaiting⟩ := eq_cons_of_releaseBi hbi
    have hanswer : answer.isLaunchCommand = false :=
      h.answers (answer, ready) (hwaiting ▸ List.mem_cons_self)
    refine ⟨⟨?_, h.commands, fun p hp => ?_⟩, rfl⟩
    · intro host queue hqueue mf hmf hlaunch
      have hold := h.queues host
      rw [hqueues] at hold
      cases host with
      | zero =>
        obtain rfl := Option.some.inj hqueue
        obtain hmf | hmf := List.mem_append.mp hmf
        · exact hold reqs rfl mf hmf hlaunch
        · rw [List.mem_singleton.mp hmf, hanswer] at hlaunch
          cases hlaunch
      | succ host => exact hold queue hqueue mf hmf hlaunch
    · exact h.answers p (hwaiting ▸ List.mem_cons_of_mem _ hp)
  case h_2 => cases hr
  case h_3 =>
    obtain ⟨rfl, -⟩ := Prod.mk.inj (Except.ok.inj hr)
    exact ⟨h, rfl⟩

theorem nextCommand_cases (h : r.nextCommand i = .ok r') :
    r'.biReqs = r.biReqs ∧ r'.remaining = r.remaining ∧
    (r'.memoryReqs = r.memoryReqs ∨ ∃ command ∈ r.commands, r'.memoryReqs = command.memoryReqs) ∧
    ∀ command ∈ r'.commands, command ∈ r.commands := by
  simp only [nextCommand] at h
  split at h
  · cases h
    exact ⟨rfl, rfl, Or.inl rfl, fun _ hc => hc⟩
  split at h
  · cases h
    exact ⟨rfl, rfl, Or.inl rfl, fun _ hc => hc⟩
  case h_2 command rest hcommands =>
    have hpop : ∀ (c : Prop) [Decidable c],
        let popped := if c then { r with commands := rest } else r
        popped.biReqs = r.biReqs ∧ popped.remaining = r.remaining ∧
          popped.memoryReqs = r.memoryReqs ∧ ∀ c ∈ popped.commands, c ∈ r.commands := by
      intro c _
      dsimp only
      split
      · exact ⟨rfl, rfl, rfl, fun c hc => hcommands ▸ List.mem_cons_of_mem _ hc⟩
      · exact ⟨rfl, rfl, rfl, fun _ hc => hc⟩
    obtain ⟨hbi, hremaining, hqueues, hsub⟩ := hpop (command.isBarrier = true ∧
      i.kernelActive = false ∧ r.remaining = 0 ∧ r.checkAllMemoryReqsEmpty = true)
    split at h
    · cases h
      exact ⟨hbi, hremaining, Or.inl hqueues, hsub⟩
    · obtain ⟨u, hu, h⟩ := bind_eq_ok.mp h
      simp only [launchNdpKernel] at hu
      split at hu
      · cases hu
      split at hu
      · cases hu
      cases hu
      split at h
      · cases h
      case h_2 rest' hrest =>
        cases h
        refine ⟨hbi, hremaining, Or.inr ⟨command, ?_, rfl⟩, fun c hc => hsub c ?_⟩
        · rw [hcommands]
          exact List.mem_cons_self
        · exact hrest ▸ List.mem_cons_of_mem _ hc

theorem Prepared.nextCommand (h : r.Prepared) (hr : r.nextCommand i = .ok r') :
    r'.Prepared ∧ r'.remaining = r.remaining := by
  obtain ⟨hbi, hremaining, hqueues, hsub⟩ := nextCommand_cases hr
  refine ⟨⟨?_, fun c hc => h.commands c (hsub c hc), by rw [hbi]; exact h.answers⟩, hremaining⟩
  obtain hqueues | ⟨command, hcommand, hqueues⟩ := hqueues
  · rw [hqueues]
    exact h.queues
  · rw [hqueues]
    exact h.commands command hcommand

/-- A request is sent or not; it is the first one of its host. -/
theorem sendRequest_cases (h : r.sendRequest g i host node = .ok (r', ev)) :
    (r' = r ∧ ev = []) ∨ ∃ mf reqs, r.memoryReqs[host]? = some (mf :: reqs) ∧
      r.serialExecutionCheck g i.kernelActive = .ok true ∧
      ev = [.sent host node mf.countsAsRequest.2] ∧
      r' = { r with
        memoryReqs := r.memoryReqs.set host reqs
        remaining := r.remaining +
          if mf.countsAsRequest.1 && !mf.uthreadRequest then 1 else 0 } := by
  obtain ⟨check, hcheck, h⟩ := bind_eq_ok.mp h
  split at h
  · cases h
  · cases h
    exact Or.inl ⟨rfl, rfl⟩
  case h_3 mf reqs hreqs =>
    split at h
    · cases h
      exact Or.inl ⟨rfl, rfl⟩
    case isFalse hsent =>
      have hchecked : check = true := by
        cases check
        · exact absurd rfl hsent
        · rfl
      refine Or.inr ⟨mf, reqs, hreqs, hchecked ▸ hcheck, ?_⟩
      dsimp only at h
      split at h
      case isTrue hcounted =>
        cases h
        exact ⟨rfl, by rw [if_pos hcounted]⟩
      case isFalse hcounted =>
        cases h
        exact ⟨rfl, by rw [if_neg hcounted, Int.add_zero]⟩

/-- A reply is taken off the count, a request is answered. -/
theorem receive_cases {mf : Message} (htop : (i.node host node).top = some mf)
    (h : r.receive g i host node = .ok (r', ev)) :
    (mf.isRequest = false ∧ mf.repliesToHost = true ∧
      r' = { r with remaining := r.remaining - 1 }) ∨
    (mf.isRequest = true ∧ ∃ answer, mf.answerInvalidation = .ok answer ∧
      r' = { r with biReqs := r.biReqs ++ [(answer, r.ndpCycle + g.biHostLatency)] }) := by
  simp only [receive, htop] at h
  split at h
  case isTrue hreply =>
    split at h
    · cases h
    case isFalse hhost =>
      cases h
      have hmarks : mf.fromNdp = false ∧ mf.fromDma = false := by simpa using hhost
      exact Or.inl ⟨by simpa using hreply, by simp [Message.repliesToHost, hreply, hmarks], rfl⟩
  case isFalse hrequest =>
    obtain ⟨answer, hanswer, h⟩ := bind_eq_ok.mp h
    cases h
    exact Or.inr ⟨by simpa using hrequest, answer, hanswer, rfl⟩

theorem launchesFirst_tail {queues : List (List Message)} {mf : Message} {reqs : List Message}
    (h : LaunchTrace.LaunchesFirst queues) (hqueue : queues[host]? = some (mf :: reqs)) :
    LaunchTrace.LaunchesFirst (queues.set host reqs) := by
  intro other queue hother m hm hlaunch
  by_cases heq : host = other
  · subst heq
    rw [List.getElem?_set_self (List.getElem?_eq_some_iff.mp hqueue).1] at hother
    obtain rfl := Option.some.inj hother
    exact h host (mf :: reqs) hqueue m (List.mem_cons_of_mem _ hm) hlaunch
  · rw [List.getElem?_set_ne heq] at hother
    exact h other queue hother m hm hlaunch

theorem Prepared.answered (h : r.Prepared) {mf answer : Message} {ready : Nat}
    (hmf : mf.isLaunchCommand = false) (hanswer : mf.answerInvalidation = .ok answer) :
    Prepared { r with biReqs := r.biReqs ++ [(answer, ready)] } where
  queues := h.queues
  commands := h.commands
  answers p hp := by
    obtain hp | hp := List.mem_append.mp hp
    · exact h.answers p hp
    · rw [List.mem_singleton.mp hp, Message.isLaunchCommand_answerInvalidation hanswer, hmf]

/-- The check lets a launch command pass only while no kernel is active and no request waits. -/
theorem serialExecutionCheck_launch {mf : Message} {reqs : List Message} {active : Bool}
    (hserial : g.serialLaunch = true) (hqueue : r.memoryReqs[0]? = some (mf :: reqs))
    (hlaunch : mf.isLaunchCommand = true) (h : r.serialExecutionCheck g active = .ok true) :
    active = false ∧ r.remaining ≤ 0 := by
  have haddr : mf.addr = kernelLaunchAddr := by
    simp only [Message.isLaunchCommand, Bool.and_eq_true, decide_eq_true_eq] at hlaunch
    exact hlaunch.2
  cases hqueues : r.memoryReqs with
  | nil =>
    rw [hqueues] at hqueue
    cases hqueue
  | cons queue others =>
    rw [hqueues] at hqueue
    obtain rfl := Option.some.inj hqueue
    simp only [serialExecutionCheck, hqueues, hserial, haddr] at h
    have hcheck := Except.ok.inj h
    simpa using hcheck

theorem counted_launch {mf : Message} (hlaunch : mf.isLaunchCommand = true)
    (hbi : mf.bi = false) (hwriteback : mf.biWriteback = false) :
    (mf.countsAsRequest.1 && !mf.uthreadRequest) = true := by
  simp only [Message.isLaunchCommand, Bool.and_eq_true, Bool.not_eq_true'] at hlaunch
  simp [Message.countsAsRequest, Message.isBiWriteback, hbi, hwriteback, hlaunch.1]

theorem countsAsRequest_same (mf : Message) :
    mf.countsAsRequest.2.isLaunchCommand = mf.isLaunchCommand ∧
      mf.countsAsRequest.2.id = mf.id := by
  simp only [Message.countsAsRequest]
  split <;> exact ⟨rfl, rfl⟩

end SimulationRunner

/-! ## The devices -/

namespace LaunchBuffer

variable {cfg : SystemConfig} {bufferId : Nat} {gen : Nat → GeneratorConfig}
  {b b' : LaunchBuffer} {ev : List LaunchEvent} {op : Op}

/-- The launch commands whose replies are still to be given to the link: those of the synchronous
launches that are waited for, and the replies that wait. -/
def commands (b : LaunchBuffer) : List Nat :=
  (b.launchInfos.filter LaunchRecord.sync).map (fun info => info.cxlCommand.id) ++
    b.cxlCommandResponse.flatten.map Message.id

/-- What waits are launch commands and replies to launch commands. -/
structure HoldsCommands (b : LaunchBuffer) : Prop where
  waiting : ∀ info ∈ b.launchInfos, info.sync = true → info.cxlCommand.isLaunchCommand = true
  replies : ∀ mf ∈ b.cxlCommandResponse.flatten, mf.isLaunchCommand = true ∧ mf.isRequest = false

theorem holdsCommands_create (cfg : SystemConfig) : (create cfg).HoldsCommands where
  waiting info hinfo := absurd hinfo List.not_mem_nil
  replies mf hmf := by
    obtain ⟨queue, hqueue, hmf⟩ := List.mem_flatten.mp hmf
    rw [List.eq_of_mem_replicate hqueue] at hmf
    exact absurd hmf List.not_mem_nil

theorem commands_create (cfg : SystemConfig) : (create cfg).commands = [] := by
  simp [commands, create]

theorem flatten_modify_concat_perm {α : Type} {l : List (List α)} {i : Nat} (h : i < l.length)
    (x : α) : (l.modify i (· ++ [x])).flatten.Perm (x :: l.flatten) := by
  induction l generalizing i with
  | nil => cases h
  | cons y l ih =>
    cases i with
    | zero =>
      rw [List.modify_zero_cons, List.flatten_cons, List.flatten_cons, List.append_assoc]
      exact List.perm_middle
    | succ i =>
      rw [List.modify_succ_cons, List.flatten_cons, List.flatten_cons]
      exact (List.Perm.append_left _ (ih (Nat.lt_of_succ_lt_succ h))).trans List.perm_middle

theorem flatten_modify_tail_perm {α : Type} {l : List (List α)} {i : Nat} {x : α} {queue : List α}
    (h : l[i]? = some (x :: queue)) : l.flatten.Perm (x :: (l.modify i List.tail).flatten) := by
  induction l generalizing i with
  | nil => cases h
  | cons y l ih =>
    cases i with
    | zero =>
      obtain rfl := Option.some.inj h
      exact List.Perm.refl _
    | succ i =>
      rw [List.modify_succ_cons, List.flatten_cons, List.flatten_cons]
      exact (List.Perm.append_left _ (ih h)).trans List.perm_middle

/-- A reply is put into a queue. -/
theorem HoldsCommands.push (h : b.HoldsCommands) {i : Int} {reply : Message}
    (hb : b.pushResponse i reply = .ok b') (hlaunch : reply.isLaunchCommand = true)
    (hreply : reply.isRequest = false) :
    b'.HoldsCommands ∧ b'.commands.Perm (reply.id :: b.commands) := by
  obtain ⟨hle, hlt, rfl⟩ := pushResponse_cases hb
  have hperm := flatten_modify_concat_perm (l := b.cxlCommandResponse) (i := i.toNat)
    (by omega) reply
  refine ⟨⟨h.waiting, fun mf hmf => ?_⟩, ?_⟩
  · obtain rfl | hmf := List.mem_cons.mp (hperm.subset hmf)
    · exact ⟨hlaunch, hreply⟩
    · exact h.replies mf hmf
  · exact (List.Perm.append_left _ (hperm.map Message.id)).trans List.perm_middle

/-- A launch command is taken: it waits for its launch, or its reply does. -/
theorem HoldsCommands.receive (h : b.HoldsCommands) {i hostId : Nat} {mf : Message} {sync : Bool}
    {kinfo : KernelLaunchInfo} (hlaunch : mf.isLaunchCommand = true)
    (hb : b.receive gen i mf hostId sync kinfo = .ok (b', ev)) :
    b'.HoldsCommands ∧ b'.commands.Perm (mf.id :: b.commands) := by
  cases sync with
  | true =>
    obtain ⟨b₁, htaken, hb⟩ := bind_eq_ok.mp hb
    obtain ⟨rfl, -⟩ := Prod.mk.inj (Except.ok.inj hb)
    obtain ⟨hinfos, hresponse, -, -⟩ := launchNdpKernel_cases htaken
    refine ⟨⟨fun info hinfo hsync => ?_, fun m hm => h.replies m (hresponse ▸ hm)⟩, ?_⟩
    · rw [hinfos] at hinfo
      obtain hinfo | hinfo := List.mem_append.mp hinfo
      · exact h.waiting info hinfo hsync
      · rwa [List.mem_singleton.mp hinfo]
    · rw [commands, hinfos, hresponse, List.filter_append, List.map_append, List.append_assoc]
      exact List.perm_middle
  | false =>
    obtain ⟨reply, hreply, hb⟩ := bind_eq_ok.mp hb
    obtain ⟨b₁, hpush, hb⟩ := bind_eq_ok.mp hb
    obtain ⟨b₂, htaken, hb⟩ := bind_eq_ok.mp hb
    obtain ⟨rfl, -⟩ := Prod.mk.inj (Except.ok.inj hb)
    obtain ⟨hinfos, hresponse, -, -⟩ := launchNdpKernel_cases htaken
    obtain ⟨hcommand, hrequest, hid⟩ := Message.isLaunchCommand_setReply hreply
    obtain ⟨hholds, hperm⟩ := h.push hpush (hcommand.trans hlaunch) hrequest
    refine ⟨⟨fun info hinfo hsync => ?_, fun m hm => hholds.replies m (hresponse ▸ hm)⟩, ?_⟩
    · rw [hinfos] at hinfo
      obtain hinfo | hinfo := List.mem_append.mp hinfo
      · exact hholds.waiting info hinfo hsync
      · rw [List.mem_singleton.mp hinfo] at hsync
        cases hsync
    · rw [← hid]
      refine List.Perm.trans (List.Perm.of_eq ?_) hperm
      rw [commands, hinfos, hresponse, List.filter_append]
      simp [commands]

theorem globalLaunchId_receive {i hostId : Nat} {mf : Message} {sync : Bool}
    {kinfo : KernelLaunchInfo} (hb : b.receive gen i mf hostId sync kinfo = .ok (b', ev)) :
    b'.globalLaunchId = b.globalLaunchId + 1 := by
  cases sync with
  | true =>
    obtain ⟨b₁, htaken, hb⟩ := bind_eq_ok.mp hb
    obtain ⟨rfl, -⟩ := Prod.mk.inj (Except.ok.inj hb)
    exact (launchNdpKernel_cases htaken).2.2.1
  | false =>
    obtain ⟨reply, -, hb⟩ := bind_eq_ok.mp hb
    obtain ⟨b₁, hpush, hb⟩ := bind_eq_ok.mp hb
    obtain ⟨b₂, htaken, hb⟩ := bind_eq_ok.mp hb
    obtain ⟨rfl, -⟩ := Prod.mk.inj (Except.ok.inj hb)
    obtain ⟨-, -, rfl⟩ := pushResponse_cases hpush
    exact (launchNdpKernel_cases htaken).2.2.1

/-- The reply to a launch that is finished takes the place of its command. -/
theorem HoldsCommands.checked (h : b.HoldsCommands)
    (hb : b.checkKernelActive cfg bufferId = .ok (b', ev)) :
    b'.HoldsCommands ∧ b'.commands.Perm b.commands := by
  simp only [checkKernelActive] at hb
  split at hb
  case h_1 =>
    obtain ⟨rfl, -⟩ := Prod.mk.inj (Except.ok.inj hb)
    exact ⟨h, List.Perm.refl _⟩
  case h_2 info hfind =>
    obtain ⟨-, l, r, hinfos, herase⟩ := eraseP_of_find? hfind
    have hsub : ∀ x ∈ l ++ r, x ∈ b.launchInfos := by
      intro x hx
      rw [hinfos]
      simp only [List.mem_append, List.mem_cons] at hx ⊢
      tauto
    rw [herase] at hb
    split at hb
    case isTrue hsync =>
      obtain ⟨reply, hreply, hb⟩ := bind_eq_ok.mp hb
      obtain ⟨b₁, hpush, hb⟩ := bind_eq_ok.mp hb
      obtain ⟨rfl, -⟩ := Prod.mk.inj (Except.ok.inj hb)
      obtain ⟨hcommand, hrequest, hid⟩ := Message.isLaunchCommand_setReply hreply
      have hlaunch := h.waiting info (hinfos ▸ by simp) hsync
      obtain ⟨hholds, hperm⟩ := h.push hpush (hcommand.trans hlaunch) hrequest
      obtain ⟨-, -, rfl⟩ := pushResponse_cases hpush
      refine ⟨⟨fun x hx => h.waiting x (hsub x hx), hholds.replies⟩, ?_⟩
      have hwaiting : (b.launchInfos.filter LaunchRecord.sync).Perm
          (info :: (l ++ r).filter LaunchRecord.sync) := by
        rw [hinfos, List.filter_append, List.filter_cons_of_pos hsync, List.filter_append]
        exact List.perm_middle
      have hboth := (List.Perm.append_right _
        (hwaiting.map fun info => info.cxlCommand.id)).symm.trans hperm
      rw [hid] at hboth
      exact List.Perm.cons_inv hboth
    case isFalse hasync =>
      obtain ⟨rfl, -⟩ := Prod.mk.inj (Except.ok.inj hb)
      refine ⟨⟨fun x hx => h.waiting x (hsub x hx), h.replies⟩, List.Perm.of_eq ?_⟩
      rw [commands, commands, hinfos, List.filter_append, List.filter_append,
        List.filter_cons_of_neg hasync]

/-- The units go on or the launches are checked: the commands that wait stay the same. -/
theorem HoldsCommands.step (h : b.HoldsCommands) (hlocal : SerialSystem.IsLocal op)
    (hb : b.step cfg bufferId gen op = .ok (b', ev)) :
    b'.HoldsCommands ∧ b'.commands.Perm b.commands := by
  cases op with
  | cycle unit =>
    obtain ⟨g, g', -, -, rfl, -⟩ := step_cycle hb
    exact ⟨⟨h.waiting, h.replies⟩, List.Perm.refl _⟩
  | generate unit threads =>
    obtain ⟨g, g', -, -, rfl, -⟩ := step_generate hb
    exact ⟨⟨h.waiting, h.replies⟩, List.Perm.refl _⟩
  | complete unit info =>
    obtain ⟨g, -, rfl, -⟩ := step_complete hb
    exact ⟨⟨h.waiting, h.replies⟩, List.Perm.refl _⟩
  | checkKernelActive => exact h.checked hb
  | receive i mf hostId sync kinfo => exact hlocal.elim
  | transfer i => exact hlocal.elim
  | elsewhere => exact hlocal.elim

/-- A reply is given to the link. -/
theorem HoldsCommands.transfer (h : b.HoldsCommands) {i : Nat} {mf : Message}
    {queue : List Message} (hqueue : b.cxlCommandResponse[i]? = some (mf :: queue)) :
    (b.popResponse i).HoldsCommands ∧ b.commands.Perm (mf.id :: (b.popResponse i).commands) ∧
      mf.isLaunchCommand = true ∧ mf.isRequest = false := by
  have hperm := flatten_modify_tail_perm hqueue
  refine ⟨⟨h.waiting, fun m hm => h.replies m (hperm.symm.subset (List.mem_cons_of_mem _ hm))⟩,
    ?_, h.replies mf (hperm.symm.subset List.mem_cons_self)⟩
  exact (List.Perm.append_left _ (hperm.map Message.id)).trans List.perm_middle

/-- The recorded host of every launch of a unit is host 0. -/
def RecordedFirst (next : Nat) (b : LaunchBuffer) : Prop :=
  ∀ unit launchId, b.unitActive unit launchId = true → launchId < next ∧
    ∃ info ∈ b.launchInfos, info.launchId = launchId ∧ info.hostId = 0

theorem recordedFirst_iff (cfg : SystemConfig) {next : Nat} :
    b.RecordedFirst next ↔ b.Recorded { cfg with numHosts := 1 } next := by
  simp only [RecordedFirst, Recorded, Nat.lt_one_iff]

/-- The port of a reply does not depend on the number of hosts. -/
theorem step_oneHost (cfg : SystemConfig) (b : LaunchBuffer) (bufferId : Nat)
    (gen : Nat → GeneratorConfig) (op : Op) :
    b.step { cfg with numHosts := 1 } bufferId gen op = b.step cfg bufferId gen op := rfl

theorem RecordedFirst.step (h : b.RecordedFirst b.globalLaunchId)
    (hb : b.step cfg bufferId gen op = .ok (b', ev))
    (hhost : ∀ i mf hostId sync kinfo, op = .receive i mf hostId sync kinfo → hostId = 0) :
    b'.RecordedFirst b'.globalLaunchId := by
  rw [← step_oneHost] at hb
  refine (recordedFirst_iff cfg).mpr (((recordedFirst_iff cfg).mp h).step hb ?_)
  intro i mf hostId sync kinfo heq
  rw [hhost i mf hostId sync kinfo heq]
  exact Nat.one_pos

/-- A launch that is recorded for host 0 is seen by the runner. -/
theorem RecordedFirst.isLaunchActive {next unit launchId : Nat} (h : b.RecordedFirst next)
    (hactive : b.unitActive unit launchId = true) : b.isLaunchActive 0 = true := by
  obtain ⟨-, info, hinfo, rfl, hhost⟩ := h unit launchId hactive
  obtain ⟨g, hg, hlaunch⟩ := unitActive_iff.mp hactive
  refine List.any_eq_true.mpr ⟨info, hinfo, ?_⟩
  rw [hhost, beq_self_eq_true, Bool.true_and]
  exact List.any_eq_true.mpr ⟨g, List.mem_of_getElem? hg, hlaunch⟩

/-- No unit has a launch that it did not have, unless it is the one that comes. -/
theorem unitActive_of_step {unit launchId : Nat} (hb : b.step cfg bufferId gen op = .ok (b', ev))
    (hactive : b'.unitActive unit launchId = true) :
    b.unitActive unit launchId = true ∨
      launchId = b.globalLaunchId ∧ ¬ SerialSystem.IsLocal op := by
  obtain ⟨i, mf, hostId, sync, kinfo, mf', rfl, -, -, halike⟩ |
    ⟨n, info, g, rfl, hunit, rfl⟩ | ⟨-, hsame, -⟩ := step_launches hb
  · by_cases heq : launchId = b.globalLaunchId
    · exact Or.inr ⟨heq, id⟩
    · rw [halike.unitActive heq] at hactive
      exact Or.inl hactive
  · exact Or.inl (unitActive_complete hunit hactive)
  · rw [hsame] at hactive
    exact Or.inl hactive

end LaunchBuffer

end NdpSim
