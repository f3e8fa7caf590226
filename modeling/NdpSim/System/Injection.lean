import Mathlib.Data.Multiset.AddSub
import Mathlib.Data.Multiset.ZeroCons
import Mathlib.Tactic.Abel
import NdpSim.System.KvRunner

/-!
# Injection control

Every command of the trace is in one place: still in the list, in the injection queue, in
`m_injection_times`, or finished. The ones in `m_injection_times` have one request on the way. The
limit is tested where a command enters `m_injection_times`. The serial mode asks too late and for
too much: a second command is taken while one is in the queue or on the way.
-/
namespace NdpSim

open Library

def injectedIds (log : List HostEvent) : List Nat :=
  log.filterMap fun
    | .injected id => some id
    | _ => none

def finishedIds (log : List HostEvent) : List Nat :=
  log.filterMap fun
    | .finished id => some id
    | _ => none

@[simp] theorem injectedIds_append (log log' : List HostEvent) :
    injectedIds (log ++ log') = injectedIds log ++ injectedIds log' := List.filterMap_append

@[simp] theorem finishedIds_append (log log' : List HostEvent) :
    finishedIds (log ++ log') = finishedIds log ++ finishedIds log' := List.filterMap_append

namespace Message

/-- The answer to an invalidation. -/
def isAnswer (mf : Message) : Bool := mf.bi || mf.biWriteback

/-- A request for a command: the launch, or the read that follows. -/
inductive IsCommand (id : Nat) (mf : Message) : Prop
  | launch (info : LaunchCommand) (hid : mf.id = id) (ha : mf.isAnswer = false)
      (hd : mf.data = .launch info) (ht : mf.type = .writeRequest)
      (haddr : mf.addr = kernelLaunchAddr)
  | get (info : LaunchCommand) (ha : mf.isAnswer = false) (hd : mf.data = .origin id info)
      (ht : mf.type = .readRequest) (hk : info.kernelId = 1)

/-- The command a request is for. -/
def command (mf : Message) : Option Nat :=
  if mf.isAnswer then none
  else
    match mf.data with
    | .launch _ => some mf.id
    | .origin id _ => some id
    | _ => none

variable {mf : Message} {id : Nat}

theorem IsCommand.not_answer (h : mf.IsCommand id) : mf.isAnswer = false := by
  cases h <;> assumption

theorem IsCommand.command_eq (h : mf.IsCommand id) : mf.command = some id := by
  cases h with
  | launch info hid ha hd => simp [command, ha, hd, hid]
  | get info ha hd => simp [command, ha, hd]

theorem command_of_answer (h : mf.isAnswer = true) : mf.command = none := by
  simp [command, h]

theorem isCommand_launchRequest (info : LaunchCommand) : (launchRequest id info).IsCommand id :=
  .launch info rfl rfl rfl rfl rfl

theorem isCommand_getRequest {info : LaunchCommand} (hk : info.kernelId = 1) :
    (KvRunner.getRequest mf info).IsCommand mf.id :=
  .get info rfl rfl rfl hk

/-- Sending a message changes nothing that matters here. -/
theorem IsCommand.countsAsRequest (h : mf.IsCommand id) : mf.countsAsRequest.2.IsCommand id := by
  unfold Message.countsAsRequest
  split
  · exact h
  · cases h with
    | launch info hid ha hd ht haddr => exact .launch info hid ha hd ht haddr
    | get info ha hd ht hk => exact .get info ha hd ht hk

theorem isAnswer_countsAsRequest (mf : Message) : mf.countsAsRequest.2.isAnswer = mf.isAnswer := by
  unfold Message.countsAsRequest
  split <;> rfl

theorem isAnswer_of_answerInvalidation {mf' : Message} (hb : mf.bi = true)
    (h : mf.answerInvalidation = .ok mf') : mf'.isAnswer = true := by
  obtain ⟨u, hu, h⟩ := bind_eq_ok.mp h
  have hbi : u.bi = true := by
    simp only [setReply] at hu
    split at hu <;> cases hu <;> exact hb
  dsimp only at h
  split at h
  · cases h
    simp [isAnswer, hbi]
  · obtain ⟨v, -, h⟩ := bind_eq_ok.mp h
    cases h
    simp [isAnswer]

end Message

/-! ## Where the commands are -/

namespace KvSystem

def commandIds (x : KvSystem) : List Nat := x.runner.commands.flatten.map Message.id
def queueIds (x : KvSystem) : List Nat := x.runner.injection.queue.map fun e => e.1.id
def keys (x : KvSystem) : List Nat := x.runner.injection.injectionTimes.keys

structure Inv (g : InjectionConfig) (all : List Nat) (x : KvSystem) (log : List HostEvent) :
    Prop where
  commands : ∀ c ∈ x.runner.commands, ∃ mf : Message, c = [mf] ∧ mf.IsCommand mf.id
  queue : ∀ e ∈ x.runner.injection.queue, e.1.IsCommand e.1.id
  answers : ∀ e ∈ x.runner.biReqs, e.1.isAnswer = true
  requests : ∀ mf ∈ x.runner.memoryReqs, mf.isAnswer = true ∨ ∃ id, mf.IsCommand id
  pending : ∀ mf ∈ x.pending, ∃ id, mf.IsCommand id
  accounts : (x.commandIds + x.queueIds + x.keys + finishedIds log : Multiset Nat) = all
  injected : (injectedIds log : Multiset Nat) = x.keys + finishedIds log
  underway : (x.keys : Multiset Nat) =
    x.runner.memoryReqs.filterMap Message.command + x.pending.filterMap Message.command
  limit : x.keys.length ≤ g.maxMps

variable {g : InjectionConfig} {all : List Nat} {x : KvSystem} {log : List HostEvent}

theorem inv_create (g : InjectionConfig) (t : KvTrace) : Inv g t.ids (create t) [] where
  commands c hc := by
    obtain ⟨k, -, rfl⟩ := List.mem_map.mp hc
    exact ⟨_, rfl, Message.isCommand_launchRequest k.info⟩
  queue _ he := absurd he List.not_mem_nil
  answers _ he := absurd he List.not_mem_nil
  requests _ he := absurd he List.not_mem_nil
  pending _ he := absurd he List.not_mem_nil
  accounts := by
    have hids : (create t).commandIds = t.ids := by
      simp only [create, commandIds, KvTrace.ids]
      induction t.commands with
      | nil => rfl
      | cons c cs ih => simp [ih, KvCommand.memoryReqs, Message.launchRequest, Message.create]
    rw [hids]
    simp [create, queueIds, keys, finishedIds]
  injected := by simp [create, keys, injectedIds, finishedIds]
  underway := by simp [create, keys]
  limit := by simp [create, keys]

end KvSystem

/-! ## Steps -/

namespace KvSystem

variable {g : InjectionConfig} {all : List Nat} {x x' : KvSystem} {log : List HostEvent}

theorem coe_cons (a : Nat) (l : List Nat) : ((a :: l : List Nat) : Multiset Nat) = {a} + l := rfl

theorem coe_append (l l' : List Nat) : ((l ++ l' : List Nat) : Multiset Nat) = l + l' := rfl

theorem Inv.cycle (h : Inv g all x log) {q : InjectionQueue} {commands : List (List Message)}
    {now now' : Nat} {ndpCycle : Bool}
    (hc : x.runner.injection.cycle g ndpCycle now x.runner.commands = .ok (q, commands)) :
    Inv g all { x with runner := { x.runner with
      ndpCycle := now', injection := q, commands := commands } } log := by
  obtain ⟨htimes, ⟨hqueue, hcommands⟩ | ⟨-, mf, hcommands, hqueue⟩⟩ :=
    InjectionQueue.cycle_cases hc
  · cases q
    cases hqueue
    cases htimes
    cases hcommands
    exact { h with }
  · have hkeys : q.injectionTimes.keys = x.keys := congrArg AList.keys htimes
    obtain ⟨mf', hmf, hcmd⟩ := h.commands [mf] (hcommands ▸ List.mem_cons_self)
    obtain rfl : mf = mf' := List.singleton_inj.mp hmf
    refine { h with commands := ?_, queue := ?_, accounts := ?_, injected := ?_, underway := ?_,
                    limit := ?_ }
    · intro c hc
      exact h.commands c (hcommands ▸ List.mem_cons_of_mem _ hc)
    · intro e he
      change e ∈ q.queue at he
      rw [hqueue] at he
      obtain he | he := List.mem_append.mp he
      · exact h.queue e he
      · obtain rfl := List.mem_singleton.mp he
        exact hcmd
    · have haccounts := h.accounts
      simp only [commandIds, queueIds, keys, hcommands, List.flatten_cons, List.map_append,
        List.map_cons, List.map_nil, coe_append] at haccounts
      simp only [commandIds, queueIds, keys, hqueue, htimes, List.map_append, List.map_cons,
        List.map_nil, coe_append]
      rw [← haccounts]
      abel
    · exact h.injected.trans (congrArg (fun k : List Nat => (k : Multiset Nat) + _) hkeys.symm)
    · exact (congrArg _ hkeys).trans h.underway
    · exact (congrArg _ hkeys).trans_le h.limit

/-- Events of other kinds. -/
theorem Inv.log_append (h : Inv g all x log) {events : List HostEvent}
    (hi : injectedIds events = []) (hf : finishedIds events = []) :
    Inv g all x (log ++ events) where
  commands := h.commands
  queue := h.queue
  answers := h.answers
  requests := h.requests
  pending := h.pending
  accounts := by simpa [hf] using h.accounts
  injected := by simpa [hi, hf] using h.injected
  underway := h.underway
  limit := h.limit

/-- An answer to an invalidation goes back. -/
theorem Inv.release (h : Inv g all x log) :
    Inv g all { x with runner := x.runner.release.1 } (log ++ x.runner.release.2) := by
  unfold KvRunner.release
  split
  case h_1 mf biReqs hr =>
    have hb : ∃ ready, x.runner.biReqs = (mf, ready) :: biReqs := by
      unfold releaseBi at hr
      split at hr
      · split at hr <;> cases hr
        exact ⟨_, ‹_›⟩
      · cases hr
    obtain ⟨ready, hb⟩ := hb
    have hanswer : mf.isAnswer = true := h.answers _ (hb ▸ List.mem_cons_self)
    refine Inv.log_append ?_ rfl rfl
    refine { h with answers := ?_, requests := ?_, underway := ?_ }
    · intro e he
      exact h.answers e (hb ▸ List.mem_cons_of_mem _ he)
    · intro m hm
      obtain hm | hm := List.mem_append.mp hm
      · exact h.requests m hm
      · obtain rfl := List.mem_singleton.mp hm
        exact .inl hanswer
    · have hcommand := Message.command_of_answer hanswer
      refine h.underway.trans ?_
      simp [List.filterMap_append, hcommand]
  case h_2 => exact h.log_append rfl rfl

theorem Inv.nodup (h : Inv g all x log) (hall : all.Nodup) :
    (x.commandIds + x.queueIds + x.keys + finishedIds log : Multiset Nat).Nodup := by
  rw [h.accounts]
  exact Multiset.coe_nodup.mpr hall

/-- The first command of the injection queue is injected. -/
theorem Inv.inject (h : Inv g all x log) (hall : all.Nodup) :
    Inv g all { x with runner := (x.runner.inject g).1 } (log ++ (x.runner.inject g).2) := by
  unfold KvRunner.inject
  split
  case h_1 => simpa using h
  case h_2 mf htop =>
    obtain ⟨time, rest, hqueue, hroom, hpop⟩ := InjectionQueue.pop_of_top htop
    have hcmd : mf.IsCommand mf.id := h.queue _ (hqueue ▸ List.mem_cons_self)
    have hnew : mf.id ∉ x.keys := by
      have hnodup := h.nodup hall
      simp only [queueIds, hqueue, List.map_cons, coe_cons] at hnodup
      have hcount := Multiset.nodup_iff_count_le_one.mp hnodup mf.id
      simp only [Multiset.count_add, Multiset.count_singleton_self] at hcount
      intro hmem
      have := Multiset.count_pos.mpr (Multiset.mem_coe.mpr hmem)
      omega
    have hkeys : (x.runner.injection.injectionTimes.insert mf.id time).keys = mf.id :: x.keys := by
      rw [AList.keys_insert]
      exact congrArg _ (List.erase_of_not_mem hnew)
    rw [hpop]
    refine { h with queue := ?_, requests := ?_, accounts := ?_, injected := ?_, underway := ?_,
                    limit := ?_ }
    · intro e he
      exact h.queue e (hqueue ▸ List.mem_cons_of_mem _ he)
    · intro m hm
      obtain hm | hm := List.mem_append.mp hm
      · exact h.requests m hm
      · obtain rfl := List.mem_singleton.mp hm
        exact .inr ⟨_, hcmd⟩
    · have haccounts := h.accounts
      simp only [queueIds, hqueue, List.map_cons, coe_cons] at haccounts
      simp only [commandIds, queueIds, keys, hkeys, coe_cons, finishedIds_append] at haccounts ⊢
      rw [← haccounts]
      simp only [finishedIds, List.filterMap_cons, List.filterMap_nil, List.append_nil]
      abel
    · have hinjected := h.injected
      simp only [keys, hkeys, coe_cons, injectedIds_append, finishedIds_append, coe_append,
        hinjected]
      simp only [injectedIds, finishedIds, List.filterMap_cons, List.filterMap_nil, coe_cons,
        Multiset.coe_nil]
      abel
    · have hunderway := h.underway
      simp only [keys, hkeys, coe_cons, List.filterMap_append, coe_append] at hunderway ⊢
      rw [hunderway]
      simp only [List.filterMap_cons, hcmd.command_eq, List.filterMap_nil, coe_cons,
        Multiset.coe_nil]
      abel
    · change (x.runner.injection.injectionTimes.insert mf.id time).keys.length ≤ g.maxMps
      rw [hkeys]
      exact hroom

/-- A request leaves the queue. If it is for a command, it has to be answered. -/
theorem Inv.sendRequest (h : Inv g all x log) (node : Nat) (hasBuffer : Bool) :
    Inv g all ⟨(x.runner.sendRequest node hasBuffer).1,
      x.pending ++ awaited (x.runner.sendRequest node hasBuffer).2⟩
      (log ++ (x.runner.sendRequest node hasBuffer).2) := by
  unfold KvRunner.sendRequest
  split
  · simpa [awaited] using h
  case h_2 mf reqs hreqs =>
    split
    · simpa [awaited] using h
    · refine Inv.log_append ?_ rfl rfl
      have hrest : ∀ m ∈ reqs, m.isAnswer = true ∨ ∃ id, m.IsCommand id :=
        fun m hm => h.requests m (hreqs ▸ List.mem_cons_of_mem _ hm)
      have hunderway := h.underway
      rw [hreqs] at hunderway
      have hanswer : (mf.countsAsRequest.2.bi || mf.countsAsRequest.2.biWriteback) = mf.isAnswer :=
        mf.isAnswer_countsAsRequest
      obtain ha | ⟨id, hcmd⟩ := h.requests mf (hreqs ▸ List.mem_cons_self)
      · simp only [awaited, hanswer, ha, if_true, List.append_nil]
        refine { h with requests := hrest, underway := ?_ }
        refine hunderway.trans ?_
        rw [List.filterMap_cons_none (Message.command_of_answer ha)]
      · simp only [awaited, hanswer, hcmd.not_answer, Bool.false_eq_true, if_false]
        refine { h with requests := hrest, pending := ?_, underway := ?_ }
        · intro m hm
          obtain hm | hm := List.mem_append.mp hm
          · exact h.pending m hm
          · obtain rfl := List.mem_singleton.mp hm
            exact ⟨id, hcmd.countsAsRequest⟩
        · refine hunderway.trans ?_
          simp only [List.filterMap_cons, hcmd.command_eq, List.filterMap_append,
            hcmd.countsAsRequest.command_eq, List.filterMap_nil, coe_cons, coe_append,
            Multiset.coe_nil]
          abel

/-- A command is finished by the reply to its last request. -/
theorem Inv.finish (h : Inv g all x log) {id : Nat} {pending : List Message}
    (hp : ∀ mf ∈ pending, mf ∈ x.pending)
    (hid : (x.pending.filterMap Message.command : Multiset Nat) =
      {id} + pending.filterMap Message.command) (remaining : Int) :
    Inv g all ⟨{ x.runner with
        injection := x.runner.injection.finish id, remaining := remaining }, pending⟩
      (log ++ [.finished id]) := by
  have hunderway := h.underway
  rw [hid, add_left_comm] at hunderway
  have hmem : id ∈ x.keys := by
    rw [← Multiset.mem_coe, hunderway]
    exact Multiset.mem_add.mpr (.inl (Multiset.mem_singleton_self id))
  have hkeys : ({id} + (x.keys.erase id : List Nat) : Multiset Nat) = x.keys := by
    rw [← Multiset.coe_erase]
    exact Multiset.cons_erase (Multiset.mem_coe.mpr hmem)
  have herase : (x.runner.injection.injectionTimes.erase id).keys = x.keys.erase id :=
    AList.keys_erase ..
  refine { h with pending := fun mf hmf => h.pending mf (hp mf hmf), accounts := ?_, injected := ?_,
                  underway := ?_, limit := ?_ }
  · have haccounts := h.accounts
    rw [← hkeys] at haccounts
    simp only [commandIds, queueIds, keys, InjectionQueue.finish, herase, finishedIds_append,
      coe_append] at haccounts ⊢
    rw [← haccounts]
    simp only [finishedIds, List.filterMap_cons, List.filterMap_nil, coe_cons, Multiset.coe_nil]
    abel
  · have hinjected := h.injected
    rw [← hkeys] at hinjected
    simp only [keys, InjectionQueue.finish, herase, injectedIds_append, finishedIds_append,
      coe_append, hinjected]
    simp only [injectedIds, finishedIds, List.filterMap_cons, List.filterMap_nil, coe_cons,
      Multiset.coe_nil]
    abel
  · rw [← hkeys] at hunderway
    simp only [keys, InjectionQueue.finish, herase]
    exact add_left_cancel hunderway
  · refine le_trans ?_ h.limit
    change (x.runner.injection.injectionTimes.erase id).keys.length ≤ x.keys.length
    rw [herase]
    exact List.length_erase_le

/-- The reply to one of the requests that are to be answered. -/
theorem Inv.reply (h : Inv g all x log) {k : Nat} {mf mf' : Message} {runner : KvRunner}
    {received : List HostEvent} (hk : x.pending[k]? = some mf) (hr : mf.setReply = .ok mf')
    (hrec : x.runner.receive g mf' = .ok (runner, received)) :
    Inv g all ⟨runner, x.pending.eraseIdx k⟩ (log ++ received) := by
  obtain ⟨id, hcmd⟩ := h.pending mf (List.mem_of_getElem? hk)
  have hp : ∀ m ∈ x.pending.eraseIdx k, m ∈ x.pending := fun m hm => List.mem_of_mem_eraseIdx hm
  have hid : (x.pending.filterMap Message.command : Multiset Nat) =
      {id} + (x.pending.eraseIdx k).filterMap Message.command := by
    obtain ⟨hlt, rfl⟩ := List.getElem?_eq_some_iff.mp hk
    rw [← coe_cons, Multiset.coe_eq_coe]
    have hperm := (List.getElem_cons_eraseIdx_perm hlt).symm.filterMap Message.command
    rwa [List.filterMap_cons_some hcmd.command_eq] at hperm
  cases hcmd with
  | launch info hmf ha hd ht haddr =>
    simp only [Message.setReply, ht] at hr
    cases hr
    simp only [KvRunner.receive, Message.isRequest, Message.isWrite, haddr, hd] at hrec
    by_cases hone : info.kernelId = 1
    · simp only [hone] at hrec
      cases hrec
      have hget : (KvRunner.getRequest { mf with type := .writeAck } info).IsCommand id :=
        hmf ▸ Message.isCommand_getRequest hone
      rw [List.append_nil]
      refine { h with requests := ?_, pending := fun m hm => h.pending m (hp m hm), underway := ?_ }
      · intro m hm
        obtain hm | hm := List.mem_append.mp hm
        · exact h.requests m hm
        · obtain rfl := List.mem_singleton.mp hm
          exact .inr ⟨id, hget⟩
      · have hlast := List.filterMap_cons_some (l := []) hget.command_eq
        refine h.underway.trans ?_
        rw [hid, List.filterMap_append, coe_append, add_assoc]
        refine congrArg _ (congrArg (fun l : List Nat => (l : Multiset Nat) + _) hlast.symm)
    · simp only [hone] at hrec
      cases hrec
      exact hmf ▸ h.finish hp (hmf ▸ hid) _
  | get info ha hd ht hone =>
    simp only [Message.setReply, ht] at hr
    cases hr
    simp only [KvRunner.receive, Message.isRequest, Message.isWrite, hd, hone] at hrec
    cases hrec
    exact h.finish hp hid _

/-- A request to invalidate comes and is answered. -/
theorem Inv.invalidate (h : Inv g all x log) {mf : Message} {runner : KvRunner}
    {received : List HostEvent} (hq : mf.isRequest = true) (hb : mf.bi = true)
    (hrec : x.runner.receive g mf = .ok (runner, received)) :
    Inv g all ⟨runner, x.pending⟩ (log ++ received) := by
  simp only [KvRunner.receive, hq] at hrec
  obtain ⟨mf', ha, hrec⟩ := bind_eq_ok.mp hrec
  cases hrec
  refine Inv.log_append ?_ rfl rfl
  refine { h with answers := ?_ }
  intro e he
  obtain he | he := List.mem_append.mp he
  · exact h.answers e he
  · obtain rfl := List.mem_singleton.mp he
    exact Message.isAnswer_of_answerInvalidation hb ha

theorem Inv.processNode (h : Inv g all x log) {node : Nat} {i : KvNode}
    {events : List HostEvent} (hn : x.processNode g node i = .ok (x', events)) :
    Inv g all x' (log ++ events) := by
  obtain ⟨⟨top, pending⟩, hd, hn⟩ := bind_eq_ok.mp hn
  have hsent := h.sendRequest node i.hasBuffer
  cases hi : i.delivery with
  | nothing =>
    rw [hi] at hd
    cases hd
    cases hn
    exact hsent
  | reply index =>
    simp only [deliver, hi] at hd
    split at hd
    · cases hd
      cases hn
      exact hsent
    case h_2 mf hk =>
      obtain ⟨mf', hr, hd⟩ := bind_eq_ok.mp hd
      cases hd
      obtain ⟨⟨runner, received⟩, hrec, hn⟩ := bind_eq_ok.mp hn
      cases hn
      rw [← List.append_assoc]
      exact hsent.reply hk hr hrec
  | invalidate mf =>
    simp only [deliver, hi] at hd
    split at hd
    case isTrue hq =>
      cases hd
      obtain ⟨⟨runner, received⟩, hrec, hn⟩ := bind_eq_ok.mp hn
      cases hn
      rw [← List.append_assoc]
      rw [Bool.and_eq_true] at hq
      exact hsent.invalidate hq.1 hq.2 hrec
    · cases hd
      cases hn
      exact hsent

theorem Inv.processMemoryAccess {i : KvInput} {nodes : List Nat} {events : List HostEvent}
    (h : Inv g all x log) (hp : x.processMemoryAccess g i nodes = .ok (x', events)) :
    Inv g all x' (log ++ events) := by
  induction nodes generalizing x log events with
  | nil =>
    cases hp
    simpa using h
  | cons node rest ih =>
    obtain ⟨⟨y, now⟩, hn, hp⟩ := bind_eq_ok.mp hp
    obtain ⟨⟨z, later⟩, hl, hp⟩ := bind_eq_ok.mp hp
    cases hp
    rw [← List.append_assoc]
    exact ih (h.processNode hn) hl

theorem Inv.begin (h : Inv g all x log) (hall : all.Nodup) {ndpCycle : Bool} {runner : KvRunner}
    {events : List HostEvent} (hb : x.runner.begin g ndpCycle = .ok (runner, events)) :
    Inv g all { x with runner := runner } (log ++ events) := by
  obtain ⟨u, hc, hu, rfl, rfl⟩ := KvRunner.begin_eq_ok g hb
  have hcycled : Inv g all { x with runner := u } log := by
    rw [hu]
    exact h.cycle hc
  rw [← List.append_assoc]
  exact hcycled.release.inject hall

theorem Inv.step (h : Inv g all x log) (hall : all.Nodup) {i : KvInput} {events : List HostEvent}
    (hs : x.step g i = .ok (x', events)) : Inv g all x' (log ++ events) := by
  obtain ⟨⟨runner, begun⟩, hb, hs⟩ := bind_eq_ok.mp hs
  dsimp only at hs
  split at hs
  · cases hs
  · obtain ⟨⟨y, later⟩, hp, hs⟩ := bind_eq_ok.mp hs
    cases hs
    rw [← List.append_assoc]
    exact (h.begin hall hb).processMemoryAccess hp

theorem Run.inv {P : KvSystem → KvInput → Prop} {t : KvTrace} (h : Run g P t x log) :
    Inv g t.ids x log := by
  induction h with
  | start => exact inv_create g t
  | step _ _ _ _ hstep ih => exact ih.step t.nodup hstep

end KvSystem

end NdpSim
