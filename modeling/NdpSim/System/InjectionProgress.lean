import NdpSim.System.Injection

/-!
# Every command comes to its end

As long as the link takes messages, the devices answer and the injection counter comes up, some
command always moves on. A request can wait behind answers to invalidations, but each of those
leaves when the link takes a message.
-/
namespace NdpSim

open Library

namespace KvSystem

variable {g : InjectionConfig} {all : List Nat} {x x' : KvSystem} {log : List HostEvent}

/-- The requests a command still has to send once this one is on its way. -/
def rank (mf : Message) : Nat :=
  match mf.data with
  | .launch _ => 3
  | _ => 1

def load (reqs : List Message) : Nat :=
  (reqs.map fun mf => if mf.isAnswer then 0 else rank mf + 1).sum

/-- How far the commands are from their end. -/
def potential (x : KvSystem) : Nat :=
  6 * x.runner.commands.length + 5 * x.runner.injection.queue.length + load x.runner.memoryReqs +
    (x.pending.map rank).sum

/-- The place of the first request for a command, counted from 1. -/
def position : List Message → Nat
  | [] => 0
  | mf :: reqs => if mf.isAnswer then if position reqs = 0 then 0 else position reqs + 1 else 1

/-- Nothing has happened to a command, except that answers before it have gone. -/
structure Still (x x' : KvSystem) : Prop where
  commands : x'.runner.commands = x.runner.commands
  queue : x'.runner.injection.queue = x.runner.injection.queue
  times : x'.runner.injection.injectionTimes = x.runner.injection.injectionTimes
  pending : x'.pending = x.pending
  load : load x'.runner.memoryReqs = load x.runner.memoryReqs
  position_le : position x'.runner.memoryReqs ≤ position x.runner.memoryReqs
  position_pos : 0 < position x.runner.memoryReqs → 0 < position x'.runner.memoryReqs

def Onward (x x' : KvSystem) : Prop := potential x' < potential x ∨ Still x x'

/-- A command has moved, or there is one answer less before it. -/
def Advances (x x' : KvSystem) : Prop :=
  potential x' < potential x ∨
    potential x' = potential x ∧ position x'.runner.memoryReqs < position x.runner.memoryReqs

variable {x'' : KvSystem}

theorem Still.refl (x : KvSystem) : Still x x := ⟨rfl, rfl, rfl, rfl, rfl, le_rfl, id⟩

theorem Still.potential_eq (h : Still x x') : potential x' = potential x := by
  simp only [potential, h.commands, h.queue, h.pending, h.load]

theorem Still.trans (h : Still x x') (h' : Still x' x'') : Still x x'' where
  commands := h'.commands.trans h.commands
  queue := h'.queue.trans h.queue
  times := h'.times.trans h.times
  pending := h'.pending.trans h.pending
  load := h'.load.trans h.load
  position_le := h'.position_le.trans h.position_le
  position_pos := h'.position_pos ∘ h.position_pos

theorem Onward.le (h : Onward x x') : potential x' ≤ potential x := by
  obtain h | h := h
  · exact h.le
  · exact h.potential_eq.le

theorem Onward.trans (h : Onward x x') (h' : Onward x' x'') : Onward x x'' := by
  obtain h | h := h
  · exact .inl (h'.le.trans_lt h)
  · obtain h' | h' := h'
    · exact .inl (h.potential_eq ▸ h')
    · exact .inr (h.trans h')

theorem Onward.advances (h : Onward x x') (h' : Advances x' x'') : Advances x x'' := by
  obtain h | h := h
  · obtain h' | h' := h'
    · exact .inl (h'.trans h)
    · exact .inl (h'.1.trans_lt h)
  · have heq := h.potential_eq
    have hle := h.position_le
    unfold Advances at h' ⊢
    omega

theorem Advances.onward (h : Advances x x') (h' : Onward x' x'') : Advances x x'' := by
  obtain h' | h' := h'
  · unfold Advances at h ⊢
    omega
  · have heq := h'.potential_eq
    have hle := h'.position_le
    unfold Advances at h ⊢
    omega

theorem position_append {a : Message} (ha : a.isAnswer = true) (reqs : List Message) :
    position (reqs ++ [a]) = position reqs := by
  induction reqs with
  | nil => simp [position, ha]
  | cons mf reqs ih => simp [position, ih]

theorem load_append (reqs reqs' : List Message) :
    load (reqs ++ reqs') = load reqs + load reqs' := by
  simp [load]

theorem load_answer {a : Message} (ha : a.isAnswer = true) : load [a] = 0 := by
  simp [load, ha]

theorem load_command {mf : Message} (ha : mf.isAnswer = false) : load [mf] = rank mf + 1 := by
  simp [load, ha]

theorem filterMap_of_position {reqs : List Message} (h : position reqs = 0) :
    reqs.filterMap Message.command = [] := by
  induction reqs with
  | nil => rfl
  | cons mf reqs ih =>
    simp only [position] at h
    split at h
    case isTrue ha =>
      rw [List.filterMap_cons_none (Message.command_of_answer ha)]
      split at h
      · exact ih ‹_›
      · omega
    · omega

/-! ## One iteration -/

theorem onward_cycle {q : InjectionQueue} {commands : List (List Message)} {now now' : Nat}
    {ndpCycle : Bool}
    (hc : x.runner.injection.cycle g ndpCycle now x.runner.commands = .ok (q, commands)) :
    Onward x { x with runner := { x.runner with
      ndpCycle := now', injection := q, commands := commands } } := by
  obtain ⟨htimes, ⟨hqueue, hcommands⟩ | ⟨-, mf, hcommands, hqueue⟩⟩ :=
    InjectionQueue.cycle_cases hc
  · exact .inr ⟨hcommands, hqueue, htimes, rfl, rfl, le_rfl, id⟩
  · left
    simp only [potential, hcommands, hqueue, List.length_cons, List.length_append,
      List.length_nil]
    omega

theorem Inv.still_release (h : Inv g all x log) :
    Still x { x with runner := x.runner.release.1 } := by
  unfold KvRunner.release
  split
  case h_1 mf biReqs hr =>
    have hanswer : mf.isAnswer = true := by
      unfold releaseBi at hr
      split at hr
      case h_1 ready rest hb =>
        split at hr <;> cases hr
        exact h.answers _ (hb ▸ List.mem_cons_self)
      · cases hr
    have hpos := position_append hanswer x.runner.memoryReqs
    refine ⟨rfl, rfl, rfl, rfl, ?_, hpos.le, fun hp => hpos.symm ▸ hp⟩
    rw [load_append, load_answer hanswer, Nat.add_zero]
  case h_2 => exact .refl x

/-- A command that is injected has moved. -/
theorem Inv.inject_cases (h : Inv g all x log) :
    (x.runner.injection.top g = none ∧ (x.runner.inject g).1 = x.runner) ∨
      potential { x with runner := (x.runner.inject g).1 } < potential x := by
  unfold KvRunner.inject
  split
  case h_1 htop => exact .inl ⟨htop, rfl⟩
  case h_2 mf htop =>
    right
    obtain ⟨time, rest, hqueue, -, hpop⟩ := InjectionQueue.pop_of_top htop
    have hcmd : mf.IsCommand mf.id := h.queue _ (hqueue ▸ List.mem_cons_self)
    have hrank : rank mf ≤ 3 := by
      unfold rank
      split <;> omega
    simp only [potential, hqueue, hpop, load_append, load_command hcmd.not_answer,
      List.length_cons]
    omega

theorem Inv.onward_begin (h : Inv g all x log) {ndpCycle : Bool} {runner : KvRunner}
    {events : List HostEvent} (hb : x.runner.begin g ndpCycle = .ok (runner, events)) :
    Onward x { x with runner := runner } := by
  obtain ⟨u, hc, hu, rfl, -⟩ := KvRunner.begin_eq_ok g hb
  have hcycled : Inv g all { x with runner := u } log := by
    rw [hu]
    exact h.cycle hc
  have htaken : Onward x { x with runner := u } := by
    rw [hu]
    exact onward_cycle hc
  refine htaken.trans (.trans (.inr hcycled.still_release) ?_)
  obtain ⟨-, heq⟩ | hlt := hcycled.release.inject_cases
  · right
    rw [heq]
    exact .refl _
  · exact .inl hlt

/-- A command is taken when the counter comes up and nothing is on the way. -/
theorem Inv.begin_takes (h : Inv g all x log) {runner : KvRunner} {events : List HostEvent}
    (hb : x.runner.begin g true = .ok (runner, events))
    (hcount : 1 ≤ x.runner.injection.counted g) (hkeys : x.keys = [])
    (hcommands : x.runner.commands ≠ []) : potential { x with runner := runner } < potential x := by
  obtain hlt | hstill := h.onward_begin hb
  · exact hlt
  · exfalso
    obtain ⟨u, hc, hu, rfl, -⟩ := KvRunner.begin_eq_ok g hb
    have hcycled : Inv g all { x with runner := u } log := by
      rw [hu]
      exact h.cycle hc
    -- what follows leaves the list of commands alone
    have hsame : u.commands = x.runner.commands := by
      have hinject : ((u.release.1.inject g).1).commands = u.release.1.commands := by
        unfold KvRunner.inject
        split <;> rfl
      exact (hinject.trans hcycled.still_release.commands).symm.trans hstill.commands
    obtain ⟨mf, rest, hx⟩ : ∃ mf rest, x.runner.commands = [mf] :: rest := by
      obtain ⟨c, rest, hx⟩ := List.exists_cons_of_ne_nil hcommands
      obtain ⟨mf, rfl, -⟩ := h.commands c (hx ▸ List.mem_cons_self)
      exact ⟨mf, rest, hx⟩
    have hsize : ¬ (g.serial = true ∧ x.runner.injection.injectionTimes.keys.length > 1) := by
      change ¬ (g.serial = true ∧ x.keys.length > 1)
      simp [hkeys]
    rw [hx] at hc hsame
    simp only [InjectionQueue.cycle, not_lt.mpr hcount, Bool.not_true, Bool.false_eq_true,
      if_false, hsize] at hc
    have hu' := congrArg Prod.snd (Except.ok.inj hc)
    exact List.cons_ne_self _ _ (hu'.trans hsame).symm

/-- A command that waits is injected when there is room. -/
theorem Inv.begin_injects (h : Inv g all x log) {ndpCycle : Bool} {runner : KvRunner}
    {events : List HostEvent} (hb : x.runner.begin g ndpCycle = .ok (runner, events))
    (hroom : x.keys.length < g.maxMps) (hqueue : x.runner.injection.queue ≠ []) :
    potential { x with runner := runner } < potential x := by
  obtain ⟨u, hc, hu, rfl, -⟩ := KvRunner.begin_eq_ok g hb
  have hcycled : Inv g all { x with runner := u } log := by
    rw [hu]
    exact h.cycle hc
  have htaken : Onward x { x with runner := u } := by
    rw [hu]
    exact onward_cycle hc
  have hrel := hcycled.still_release
  obtain ⟨hnone, -⟩ | hlt := hcycled.release.inject_cases
  · exfalso
    obtain ⟨htimes, hq⟩ := InjectionQueue.cycle_cases hc
    have hne : u.injection.queue ≠ [] := by
      obtain ⟨hq, -⟩ | ⟨-, mf, -, hq⟩ := hq
      · rwa [hq]
      · simp [hq]
    obtain ⟨⟨mf, time⟩, rest, hcons⟩ := List.exists_cons_of_ne_nil hne
    have hsize : ¬ g.maxMps ≤ u.release.1.injection.injectionTimes.keys.length := by
      rw [show u.release.1.injection.injectionTimes = u.injection.injectionTimes from hrel.times,
        htimes]
      exact not_le.mpr hroom
    have hreleased : u.release.1.injection.queue = (mf, time) :: rest := hrel.queue.trans hcons
    simp only [InjectionQueue.top, hreleased, hsize, if_false] at hnone
    cases hnone
  · exact hlt.trans_le (hrel.potential_eq.le.trans htaken.le)

/-- A message that leaves the queue is a request for a command, or there is one answer less before
the first of those. -/
theorem Inv.send_cases (h : Inv g all x log) (node : Nat) (hasBuffer : Bool) :
    let x' : KvSystem := ⟨(x.runner.sendRequest node hasBuffer).1,
      x.pending ++ awaited (x.runner.sendRequest node hasBuffer).2⟩
    Onward x x' ∧ (hasBuffer = true → 0 < position x.runner.memoryReqs → Advances x x') := by
  unfold KvRunner.sendRequest
  split
  case h_1 hreqs =>
    simp only [awaited, List.append_nil]
    refine ⟨.inr (.refl x), fun _ hpos => ?_⟩
    simp [hreqs, position] at hpos
  case h_2 mf reqs hreqs =>
    split
    case isTrue hno =>
      simp only [awaited, List.append_nil]
      refine ⟨.inr (.refl x), fun hyes => ?_⟩
      simp [hyes] at hno
    case isFalse =>
      have hanswer : (mf.countsAsRequest.2.bi || mf.countsAsRequest.2.biWriteback) = mf.isAnswer :=
        mf.isAnswer_countsAsRequest
      have hload : load x.runner.memoryReqs = load [mf] + load reqs := by
        rw [hreqs]
        exact load_append [mf] reqs
      obtain ha | ⟨id, hcmd⟩ := h.requests mf (hreqs ▸ List.mem_cons_self)
      · simp only [awaited, hanswer, ha, if_true, List.append_nil]
        have hposition : position x.runner.memoryReqs =
            if position reqs = 0 then 0 else position reqs + 1 := by
          rw [hreqs, position, if_pos ha]
        rw [load_answer ha, Nat.zero_add] at hload
        have hstill : Still x ⟨{ x.runner with
            memoryReqs := reqs,
            remaining := x.runner.remaining + mf.countsAsRequest.1.toNat }, x.pending⟩ := by
          refine ⟨rfl, rfl, rfl, rfl, hload.symm, ?_, ?_⟩
          · change position reqs ≤ position x.runner.memoryReqs
            rw [hposition]
            split <;> omega
          · change 0 < position x.runner.memoryReqs → 0 < position reqs
            rw [hposition]
            split <;> omega
        refine ⟨.inr hstill, fun _ hpos => .inr ⟨hstill.potential_eq, ?_⟩⟩
        change position reqs < _
        rw [hposition] at hpos ⊢
        split <;> simp_all
      · have hmoved : potential ⟨{ x.runner with
            memoryReqs := reqs,
            remaining := x.runner.remaining + mf.countsAsRequest.1.toNat },
            x.pending ++ [mf.countsAsRequest.2]⟩ < potential x := by
          have hrank : rank mf.countsAsRequest.2 = rank mf := by
            unfold Message.countsAsRequest
            split <;> rfl
          rw [load_command hcmd.not_answer] at hload
          simp only [potential, hload, List.map_append, List.sum_append, List.map_cons,
            List.map_nil, List.sum_cons, List.sum_nil, hrank]
          omega
        simp only [awaited, hanswer, hcmd.not_answer, Bool.false_eq_true, if_false]
        exact ⟨.inl hmoved, fun _ _ => .inl hmoved⟩

/-- A reply moves its command. -/
theorem Inv.reply_moves (h : Inv g all x log) {k : Nat} {mf mf' : Message} {runner : KvRunner}
    {received : List HostEvent} (hk : x.pending[k]? = some mf) (hr : mf.setReply = .ok mf')
    (hrec : x.runner.receive g mf' = .ok (runner, received)) :
    potential ⟨runner, x.pending.eraseIdx k⟩ < potential x := by
  obtain ⟨id, hcmd⟩ := h.pending mf (List.mem_of_getElem? hk)
  have hsum : (x.pending.map rank).sum = rank mf + ((x.pending.eraseIdx k).map rank).sum := by
    obtain ⟨hlt, rfl⟩ := List.getElem?_eq_some_iff.mp hk
    exact ((List.getElem_cons_eraseIdx_perm hlt).map rank).sum_eq.symm
  cases hcmd with
  | launch info hmf ha hd ht haddr =>
    have hrank : rank mf = 3 := by simp [rank, hd]
    simp only [Message.setReply, ht] at hr
    cases hr
    simp only [KvRunner.receive, Message.isRequest, Message.isWrite, haddr, hd] at hrec
    by_cases hone : info.kernelId = 1
    · simp only [hone] at hrec
      cases hrec
      have hget : load [KvRunner.getRequest { mf with type := .writeAck } info] = 2 := rfl
      have hload := load_append x.runner.memoryReqs
        [KvRunner.getRequest { mf with type := .writeAck } info]
      rw [hget] at hload
      unfold potential
      dsimp only
      rw [hsum, hrank]
      change _ + load (x.runner.memoryReqs ++
        [KvRunner.getRequest { mf with type := .writeAck } info]) + _ < _
      omega
    · simp only [hone] at hrec
      cases hrec
      simp only [potential, InjectionQueue.finish, hsum, hrank]
      omega
  | get info ha hd ht hone =>
    have hrank : rank mf = 1 := by simp [rank, hd]
    simp only [Message.setReply, ht] at hr
    cases hr
    simp only [KvRunner.receive, Message.isRequest, Message.isWrite, hd, hone] at hrec
    cases hrec
    simp only [potential, InjectionQueue.finish, hsum, hrank]
    omega

theorem still_invalidate {mf : Message} {runner : KvRunner} {received : List HostEvent}
    (hq : mf.isRequest = true) (hrec : x.runner.receive g mf = .ok (runner, received)) :
    Still x ⟨runner, x.pending⟩ := by
  simp only [KvRunner.receive, hq] at hrec
  obtain ⟨mf', -, hrec⟩ := bind_eq_ok.mp hrec
  cases hrec
  exact ⟨rfl, rfl, rfl, rfl, rfl, le_rfl, id⟩

/-- What one round of the loop does: the first request goes if there is room, and a reply moves a
command. -/
theorem Inv.node_cases (h : Inv g all x log) {node : Nat} {i : KvNode} {events : List HostEvent}
    (hn : x.processNode g node i = .ok (x', events)) :
    Onward x x' ∧
      (i.hasBuffer = true → 0 < position x.runner.memoryReqs → Advances x x') ∧
      ((∃ k, i.delivery = .reply k) → x.pending ≠ [] → potential x' < potential x) := by
  obtain ⟨⟨top, pending⟩, hd, hn⟩ := bind_eq_ok.mp hn
  have hsent := h.sendRequest node i.hasBuffer
  obtain ⟨honward, hadvances⟩ := h.send_cases node i.hasBuffer
  cases hi : i.delivery with
  | nothing =>
    rw [hi] at hd
    cases hd
    cases hn
    exact ⟨honward, hadvances, by rintro ⟨k, hk⟩; cases hk⟩
  | reply index =>
    simp only [deliver, hi] at hd
    split at hd
    case h_1 hk =>
      cases hd
      cases hn
      refine ⟨honward, hadvances, fun _ hne => ?_⟩
      -- something is to be answered, so there is a reply
      have hpos : 0 < (x.pending ++ awaited (x.runner.sendRequest node i.hasBuffer).2).length :=
        List.length_pos_iff.mpr (List.append_ne_nil_of_left_ne_nil hne _)
      exact absurd (Nat.mod_lt index hpos) (not_lt.mpr (List.getElem?_eq_none_iff.mp hk))
    case h_2 mf hk =>
      obtain ⟨mf', hr, hd⟩ := bind_eq_ok.mp hd
      cases hd
      obtain ⟨⟨runner, received⟩, hrec, hn⟩ := bind_eq_ok.mp hn
      cases hn
      have hmoves := hsent.reply_moves hk hr hrec
      have hlt := hmoves.trans_le honward.le
      exact ⟨.inl hlt, fun _ _ => .inl hlt, fun _ _ => hlt⟩
  | invalidate mf =>
    simp only [deliver, hi] at hd
    split at hd
    case isTrue hq =>
      cases hd
      obtain ⟨⟨runner, received⟩, hrec, hn⟩ := bind_eq_ok.mp hn
      cases hn
      rw [Bool.and_eq_true] at hq
      have hstill := still_invalidate hq.1 hrec
      exact ⟨honward.trans (.inr hstill),
        fun hb hpos => (hadvances hb hpos).onward (.inr hstill), by rintro ⟨k, hk⟩; cases hk⟩
    · cases hd
      cases hn
      exact ⟨honward, hadvances, by rintro ⟨k, hk⟩; cases hk⟩

theorem Inv.nodes_cases {i : KvInput} {nodes : List Nat} {events : List HostEvent}
    (h : Inv g all x log) (hp : x.processMemoryAccess g i nodes = .ok (x', events)) :
    Onward x x' ∧
      ((∃ n ∈ nodes, (i.node n).hasBuffer = true) → 0 < position x.runner.memoryReqs →
        Advances x x') ∧
      ((∃ n ∈ nodes, ∃ k, (i.node n).delivery = .reply k) → x.pending ≠ [] →
        potential x' < potential x) := by
  induction nodes generalizing x log events with
  | nil =>
    cases hp
    exact ⟨.inr (.refl _), by simp, by simp⟩
  | cons node rest ih =>
    obtain ⟨⟨y, now⟩, hn, hp⟩ := bind_eq_ok.mp hp
    obtain ⟨⟨z, later⟩, hl, hp⟩ := bind_eq_ok.mp hp
    cases hp
    obtain ⟨hy, hsends, hreplies⟩ := h.node_cases hn
    obtain ⟨hz, hsends', hreplies'⟩ := ih (h.processNode hn) hl
    refine ⟨hy.trans hz, ?_, ?_⟩
    · rintro ⟨n, hmem, hb⟩ hpos
      obtain rfl | hmem := List.mem_cons.mp hmem
      · exact (hsends hb hpos).onward hz
      · -- either something has moved before that node, or it is all as it was
        obtain hlt | hstill := hy
        · exact .inl (hz.le.trans_lt hlt)
        · exact Onward.advances (.inr hstill) (hsends' ⟨n, hmem, hb⟩ (hstill.position_pos hpos))
    · rintro ⟨n, hmem, hk⟩ hne
      obtain rfl | hmem := List.mem_cons.mp hmem
      · exact hz.le.trans_lt (hreplies hk hne)
      · obtain hlt | hstill := hy
        · exact hz.le.trans_lt hlt
        · exact (hreplies' ⟨n, hmem, hk⟩ (hstill.pending ▸ hne)).trans_le hstill.potential_eq.le

/-- What an iteration does for the commands. -/
structure Iterates (g : InjectionConfig) (x : KvSystem) (i : KvInput) (x' : KvSystem) : Prop where
  onward : Onward x x'
  takes : i.ndpCycle = true → 1 ≤ x.runner.injection.counted g → x.keys = [] →
    x.runner.commands ≠ [] → potential x' < potential x
  injects : x.keys.length < g.maxMps → x.runner.injection.queue ≠ [] →
    potential x' < potential x
  sends : (∃ n < g.linksPerHost, (i.node n).hasBuffer = true) →
    0 < position x.runner.memoryReqs → Advances x x'
  replies : (∃ n < g.linksPerHost, ∃ k, (i.node n).delivery = .reply k) → x.pending ≠ [] →
    potential x' < potential x

theorem Inv.iterates (h : Inv g all x log) (hall : all.Nodup) {i : KvInput}
    {events : List HostEvent} (hs : x.step g i = .ok (x', events)) : Iterates g x i x' := by
  obtain ⟨⟨runner, begun⟩, hb, hs⟩ := bind_eq_ok.mp hs
  dsimp only at hs
  split at hs
  · cases hs
  · obtain ⟨⟨y, later⟩, hp, hs⟩ := bind_eq_ok.mp hs
    cases hs
    have hbegun := h.onward_begin hb
    obtain ⟨hy, hsends, hreplies⟩ := (h.begin hall hb).nodes_cases hp
    refine ⟨hbegun.trans hy, ?_, ?_, ?_, ?_⟩
    · intro hcycle hcount hkeys hcommands
      rw [hcycle] at hb
      exact hy.le.trans_lt (h.begin_takes hb hcount hkeys hcommands)
    · intro hroom hqueue
      exact hy.le.trans_lt (h.begin_injects hb hroom hqueue)
    · rintro ⟨n, hn, hbuf⟩ hpos
      obtain hlt | hstill := hbegun
      · exact .inl (hy.le.trans_lt hlt)
      · exact Onward.advances (.inr hstill)
          (hsends ⟨n, List.mem_range.mpr hn, hbuf⟩ (hstill.position_pos hpos))
    · rintro ⟨n, hn, hk⟩ hne
      obtain hlt | hstill := hbegun
      · exact hy.le.trans_lt hlt
      · exact (hreplies ⟨n, List.mem_range.mpr hn, hk⟩ hne).trans_le hstill.potential_eq.le

/-! ## Whole runs -/

/-- The loop going on for ever. -/
structure Execution (g : InjectionConfig) (t : KvTrace) (xs : Nat → KvSystem)
    (is : Nat → KvInput) : Prop where
  start : xs 0 = create t
  step : ∀ n, ∃ events, (xs n).step g (is n) = .ok (xs (n + 1), events)

/-- Again and again the injection counter comes up, the link takes a message, and a reply comes if
there is something to be answered. -/
structure Fair (g : InjectionConfig) (xs : Nat → KvSystem) (is : Nat → KvInput) : Prop where
  takes : ∀ n, ∃ m ≥ n, (is m).ndpCycle = true ∧ 1 ≤ (xs m).runner.injection.counted g
  sends : ∀ n, ∃ m ≥ n, ∃ k < g.linksPerHost, ((is m).node k).hasBuffer = true
  replies : ∀ n, ∃ m ≥ n, ∃ k < g.linksPerHost, ∃ j, ((is m).node k).delivery = .reply j

variable {t : KvTrace} {xs : Nat → KvSystem} {is : Nat → KvInput}

theorem Execution.inv (h : Execution g t xs is) (n : Nat) : ∃ log, Inv g t.ids (xs n) log := by
  induction n with
  | zero => exact ⟨[], h.start ▸ inv_create g t⟩
  | succ n ih =>
    obtain ⟨log, hinv⟩ := ih
    obtain ⟨events, hs⟩ := h.step n
    exact ⟨_, hinv.step t.nodup hs⟩

theorem Execution.iterates (h : Execution g t xs is) (n : Nat) :
    Iterates g (xs n) (is n) (xs (n + 1)) := by
  obtain ⟨log, hinv⟩ := h.inv n
  obtain ⟨events, hs⟩ := h.step n
  exact hinv.iterates t.nodup hs

theorem Execution.onward (h : Execution g t xs is) {n m : Nat} (hnm : n ≤ m) :
    Onward (xs n) (xs m) := by
  induction m, hnm using Nat.le_induction with
  | base => exact .inr (.refl _)
  | succ m _ ih => exact ih.trans (h.iterates m).onward

theorem wellFounded_advances : WellFounded fun x' x : KvSystem => Advances x x' := by
  refine Subrelation.wf ?_ (InvImage.wf
    (fun x : KvSystem => (potential x, position x.runner.memoryReqs))
    (WellFounded.prod_lex Nat.lt_wfRel.wf Nat.lt_wfRel.wf))
  rintro x' x (hlt | ⟨heq, hlt⟩)
  · exact Prod.Lex.left _ _ hlt
  · exact Prod.lex_def.mpr (.inr ⟨heq, hlt⟩)

/-- As long as something is left to do, some command moves on. -/
theorem Execution.advances (h : Execution g t xs is) (hf : Fair g xs is) (hm : 1 ≤ g.maxMps)
    {n : Nat} (hn : (xs n).runner.finished = false) : ∃ m, Advances (xs n) (xs m) := by
  -- what makes the difference comes later, and until then nothing moves
  have hlater : ∀ m ≥ n, (Still (xs n) (xs m) → Advances (xs m) (xs (m + 1))) →
      ∃ k, Advances (xs n) (xs k) := by
    intro m hge hstep
    obtain hlt | hstill := h.onward hge
    · exact ⟨m, .inl hlt⟩
    · exact ⟨m + 1, Onward.advances (.inr hstill) (hstep hstill)⟩
  by_cases hpending : (xs n).pending = []
  case neg =>
    obtain ⟨m, hge, hreply⟩ := hf.replies n
    exact hlater m hge fun hstill =>
      .inl ((h.iterates m).replies hreply (hstill.pending ▸ hpending))
  by_cases hposition : position (xs n).runner.memoryReqs = 0
  case neg =>
    obtain ⟨m, hge, hsend⟩ := hf.sends n
    exact hlater m hge fun hstill =>
      (h.iterates m).sends hsend (hstill.position_pos (Nat.pos_of_ne_zero hposition))
  -- no request is on the way, so nothing is injected
  have hkeys : (xs n).keys = [] := by
    obtain ⟨log, hinv⟩ := h.inv n
    have hunderway := hinv.underway
    rw [filterMap_of_position hposition, hpending] at hunderway
    exact Multiset.coe_eq_zero _ |>.mp hunderway
  by_cases hqueue : (xs n).runner.injection.queue = []
  case neg =>
    refine hlater n le_rfl fun _ => .inl ((h.iterates n).injects ?_ hqueue)
    rw [hkeys]
    exact hm
  have hcommands : (xs n).runner.commands ≠ [] := by
    intro hnil
    have hk : (xs n).runner.injection.injectionTimes.keys = [] := hkeys
    simp [KvRunner.finished, hnil, hqueue, hk] at hn
  obtain ⟨m, hge, hcycle, hcount⟩ := hf.takes n
  refine hlater m hge fun hstill => .inl ((h.iterates m).takes hcycle hcount ?_ ?_)
  · exact (congrArg AList.keys hstill.times).trans hkeys
  · exact hstill.commands ▸ hcommands

theorem Execution.finishes (h : Execution g t xs is) (hf : Fair g xs is) (hm : 1 ≤ g.maxMps) :
    ∃ n, (xs n).runner.finished = true := by
  have hall : ∀ x n, xs n = x → ∃ m, (xs m).runner.finished = true := by
    intro x
    induction x using wellFounded_advances.induction with
    | h x ih =>
      rintro n rfl
      cases hn : (xs n).runner.finished with
      | true => exact ⟨n, hn⟩
      | false =>
        obtain ⟨m, hm⟩ := h.advances hf hm hn
        exact ih (xs m) hm m rfl
  exact hall _ 0 rfl

/-! ## Taking commands -/

theorem commands_sendRequest (s : KvRunner) (node : Nat) (hasBuffer : Bool) :
    (s.sendRequest node hasBuffer).1.commands = s.commands := by
  unfold KvRunner.sendRequest
  split
  · rfl
  · split <;> rfl

theorem commands_receive {s s' : KvRunner} {mf : Message} {events : List HostEvent}
    (h : s.receive g mf = .ok (s', events)) : s'.commands = s.commands := by
  simp only [KvRunner.receive] at h
  split at h
  · split at h
    · split at h
      · split at h <;> cases h <;> rfl
      · cases h
    · split at h
      · split at h <;> cases h
        rfl
      · cases h
  · obtain ⟨mf, -, h⟩ := bind_eq_ok.mp h
    cases h
    rfl

theorem commands_processMemoryAccess {i : KvInput} {nodes : List Nat} {events : List HostEvent}
    (h : x.processMemoryAccess g i nodes = .ok (x', events)) :
    x'.runner.commands = x.runner.commands := by
  induction nodes generalizing x events with
  | nil =>
    cases h
    rfl
  | cons node rest ih =>
    obtain ⟨⟨y, now⟩, hn, h⟩ := bind_eq_ok.mp h
    obtain ⟨⟨z, later⟩, hl, h⟩ := bind_eq_ok.mp h
    cases h
    refine (ih hl).trans ?_
    obtain ⟨⟨top, pending⟩, -, hn⟩ := bind_eq_ok.mp hn
    have hsent := commands_sendRequest x.runner node (i.node node).hasBuffer
    cases top with
    | none =>
      cases hn
      exact hsent
    | some mf =>
      obtain ⟨⟨runner, received⟩, hr, hn⟩ := bind_eq_ok.mp hn
      cases hn
      exact (commands_receive hr).trans hsent

/-- A command leaves the list when the counter has come up. -/
theorem commands_step {i : KvInput} {events : List HostEvent}
    (h : x.step g i = .ok (x', events)) : x'.runner.commands = x.runner.commands ∨
      (i.ndpCycle = true ∧ 1 ≤ x.runner.injection.counted g) ∧
        ∃ c, x.runner.commands = c :: x'.runner.commands := by
  obtain ⟨⟨runner, begun⟩, hb, h⟩ := bind_eq_ok.mp h
  dsimp only at h
  split at h
  · cases h
  · obtain ⟨⟨y, later⟩, hp, h⟩ := bind_eq_ok.mp h
    cases h
    obtain ⟨u, hc, -, rfl, -⟩ := KvRunner.begin_eq_ok g hb
    have hinject : (u.release.1.inject g).1.commands = u.release.1.commands := by
      unfold KvRunner.inject
      split <;> rfl
    have hrelease : u.release.1.commands = u.commands := by
      unfold KvRunner.release
      split <;> rfl
    rw [commands_processMemoryAccess hp]
    dsimp only
    rw [hinject, hrelease]
    obtain ⟨-, ⟨-, hsame⟩ | ⟨hcount, mf, hcommands, -⟩⟩ := InjectionQueue.cycle_cases hc
    · exact .inl hsame
    · exact .inr ⟨hcount, [mf], hcommands⟩

/-- In serial mode the counter comes up only when no command is in the queue or on the way. -/
def TakesInTurn (g : InjectionConfig) (x : KvSystem) (i : KvInput) : Prop :=
  g.serial = true → i.ndpCycle = true → 1 ≤ x.runner.injection.counted g →
    x.runner.commands ≠ [] → x.runner.injection.queue = [] ∧ x.keys = []

theorem Inv.length_eq (h : Inv g all x log) :
    x.runner.commands.length + x.runner.injection.queue.length + x.keys.length +
      (finishedIds log).length = all.length := by
  have hcommands : x.commandIds.length = x.runner.commands.length := by
    have hone : ∀ c ∈ x.runner.commands, c.length = 1 := by
      intro c hc
      obtain ⟨mf, rfl, -⟩ := h.commands c hc
      rfl
    rw [commandIds, List.length_map, List.length_flatten]
    rw [List.map_congr_left hone, List.map_const', List.sum_replicate, smul_eq_mul, mul_one]
  have hcard := congrArg Multiset.card h.accounts
  simp only [Multiset.card_add, Multiset.coe_card, hcommands, queueIds, List.length_map] at hcard
  exact hcard

theorem Run.serial_le (h : Run g (TakesInTurn g) t x log) (hs : g.serial = true) :
    t.ids.length ≤ x.runner.commands.length + (finishedIds log).length + 1 := by
  induction h with
  | start =>
    have hlen : t.ids.length = (create t).runner.commands.length := by
      simp [create, KvTrace.ids]
    omega
  | step run i meets _ hstep ih =>
    have hlen := run.inv.length_eq
    rw [finishedIds_append, List.length_append]
    obtain hsame | ⟨⟨hcycle, hcount⟩, c, hcommands⟩ := commands_step hstep
    · rw [hsame]
      omega
    · obtain ⟨hqueue, hkeys⟩ := meets hs hcycle hcount (hcommands ▸ List.cons_ne_nil _ _)
      simp only [hqueue, hkeys, hcommands, List.length_cons, List.length_nil] at hlen
      omega

/-! ## No iteration fails -/

theorem Inv.cycle_ok (h : Inv g all x log) (ndpCycle : Bool) (now : Nat) :
    ∃ y, x.runner.injection.cycle g ndpCycle now x.runner.commands = .ok y := by
  unfold InjectionQueue.cycle
  split
  · exact ⟨_, rfl⟩
  split
  · exact ⟨_, rfl⟩
  dsimp only
  split
  · exact ⟨_, rfl⟩
  cases hc : x.runner.commands with
  | nil => exact ⟨_, rfl⟩
  | cons c rest =>
    obtain ⟨mf, rfl, -⟩ := h.commands c (hc ▸ List.mem_cons_self)
    exact ⟨_, rfl⟩

theorem receive_reply_ok {mf : Message} {id : Nat} (hcmd : mf.IsCommand id) (s : KvRunner) :
    ∃ mf', mf.setReply = .ok mf' ∧ ∃ y, s.receive g mf' = .ok y := by
  cases hcmd with
  | launch info hmf ha hd ht haddr =>
    refine ⟨{ mf with type := .writeAck }, by simp [Message.setReply, ht], ?_⟩
    simp only [KvRunner.receive, Message.isRequest, Message.isWrite, haddr, hd]
    by_cases hone : info.kernelId = 1
    · exact ⟨_, by simp [hone]; rfl⟩
    · exact ⟨_, by simp [hone]; rfl⟩
  | get info ha hd ht hone =>
    refine ⟨{ mf with type := .readReply }, by simp [Message.setReply, ht], ?_⟩
    simp only [KvRunner.receive, Message.isRequest, Message.isWrite, hd, hone]
    exact ⟨_, rfl⟩

theorem receive_invalidate_ok {mf : Message} (hq : mf.isRequest = true) (s : KvRunner) :
    ∃ y, s.receive g mf = .ok y := by
  have hanswer : ∃ mf', mf.answerInvalidation = .ok mf' := by
    obtain ⟨id, addr, type⟩ := mf
    cases type with
    | readRequest | writeRequest => exact ⟨_, rfl⟩
    | readReply | writeAck => cases hq
  obtain ⟨mf', hanswer⟩ := hanswer
  simp only [KvRunner.receive, hq, hanswer]
  exact ⟨_, rfl⟩

theorem Inv.node_ok (h : Inv g all x log) (node : Nat) (i : KvNode) :
    ∃ y, x.processNode g node i = .ok y := by
  have hsent := h.sendRequest node i.hasBuffer
  unfold KvSystem.processNode
  dsimp only
  cases hi : i.delivery with
  | nothing => exact ⟨_, rfl⟩
  | reply index =>
    simp only [deliver]
    split
    · exact ⟨_, rfl⟩
    case h_2 mf hk =>
      obtain ⟨id, hcmd⟩ := hsent.pending mf (List.mem_of_getElem? hk)
      obtain ⟨mf', hr, y, hy⟩ :=
        receive_reply_ok (g := g) hcmd (x.runner.sendRequest node i.hasBuffer).1
      exact ⟨_, by rw [hr]; exact bind_eq_ok.mpr ⟨_, rfl, bind_eq_ok.mpr ⟨y, hy, rfl⟩⟩⟩
  | invalidate mf =>
    simp only [deliver]
    split
    case isTrue hq =>
      rw [Bool.and_eq_true] at hq
      obtain ⟨y, hy⟩ :=
        receive_invalidate_ok (g := g) hq.1 (x.runner.sendRequest node i.hasBuffer).1
      exact ⟨_, bind_eq_ok.mpr ⟨_, rfl, bind_eq_ok.mpr ⟨y, hy, rfl⟩⟩⟩
    · exact ⟨_, rfl⟩

theorem Inv.nodes_ok (h : Inv g all x log) (i : KvInput) (nodes : List Nat) :
    ∃ y, x.processMemoryAccess g i nodes = .ok y := by
  induction nodes generalizing x log with
  | nil => exact ⟨_, rfl⟩
  | cons node rest ih =>
    obtain ⟨⟨y, now⟩, hn⟩ := h.node_ok node (i.node node)
    obtain ⟨z, hz⟩ := ih (h.processNode hn)
    exact ⟨_, bind_eq_ok.mpr ⟨_, hn, bind_eq_ok.mpr ⟨z, hz, rfl⟩⟩⟩

theorem Inv.step_ok (h : Inv g all x log) (hall : all.Nodup) (hl : 0 < g.linksPerHost)
    (i : KvInput) : ∃ y, x.step g i = .ok y := by
  obtain ⟨y, hy⟩ := h.cycle_ok i.ndpCycle (x.runner.ndpCycle + i.ndpCycle.toNat)
  obtain ⟨⟨runner, begun⟩, hb⟩ : ∃ y, x.runner.begin g i.ndpCycle = .ok y :=
    ⟨_, bind_eq_ok.mpr ⟨y, hy, rfl⟩⟩
  obtain ⟨z, hz⟩ := (h.begin hall hb).nodes_ok i (List.range g.linksPerHost)
  refine ⟨(z.1, begun ++ z.2), bind_eq_ok.mpr ⟨_, hb, ?_⟩⟩
  dsimp only
  rw [if_neg hl.ne']
  exact bind_eq_ok.mpr ⟨z, hz, rfl⟩

/-! ## Injection control -/

/-- What holds of a run up to any iteration. -/
structure Controlled (g : InjectionConfig) (t : KvTrace) (x : KvSystem) (log : List HostEvent) :
    Prop where
  injected_once : (injectedIds log).Nodup ∧ injectedIds log ⊆ t.ids
  finished_once : (finishedIds log).Nodup ∧ finishedIds log ⊆ injectedIds log
  limit : (injectedIds log).length ≤ (finishedIds log).length + g.maxMps
  serial : g.serial = true →
    t.ids.length ≤ x.runner.commands.length + (finishedIds log).length + 1
  complete : x.runner.finished = true → ∀ id ∈ t.ids,
    (injectedIds log).count id = 1 ∧ (finishedIds log).count id = 1

theorem Inv.controlled (h : Inv g t.ids x log) (hserial : g.serial = true →
    t.ids.length ≤ x.runner.commands.length + (finishedIds log).length + 1) :
    Controlled g t x log := by
  have hnodup := h.nodup t.nodup
  have hinjected : (injectedIds log : Multiset Nat) ≤ t.ids := by
    rw [← h.accounts, h.injected, add_assoc]
    exact Multiset.le_add_left _ _
  have hfinished : (finishedIds log : Multiset Nat) ≤ injectedIds log := by
    rw [h.injected]
    exact Multiset.le_add_left _ _
  have hids : (t.ids : Multiset Nat).Nodup := Multiset.coe_nodup.mpr t.nodup
  have hsub := Multiset.subset_of_le hinjected
  have hsub' := Multiset.subset_of_le hfinished
  have hinodup := Multiset.nodup_of_le hinjected hids
  refine ⟨⟨Multiset.coe_nodup.mp hinodup, fun _ hm => hsub hm⟩,
    ⟨Multiset.coe_nodup.mp (Multiset.nodup_of_le hfinished hinodup), fun _ hm => hsub' hm⟩,
    ?_, hserial, ?_⟩
  · have hcard := congrArg Multiset.card h.injected
    simp only [Multiset.card_add, Multiset.coe_card] at hcard
    have := h.limit
    omega
  · intro hdone id hid
    simp only [KvRunner.finished, Bool.and_eq_true, List.isEmpty_iff] at hdone
    obtain ⟨⟨hcommands, hqueue⟩, hkeys⟩ := hdone
    have hkeys : x.keys = [] := hkeys
    have hall : (finishedIds log : Multiset Nat) = t.ids := by
      rw [← h.accounts, hkeys, commandIds, hcommands, queueIds, hqueue]
      simp
    have hsame : (injectedIds log : Multiset Nat) = t.ids := by
      rw [h.injected, hkeys, ← hall]
      simp
    have hcount : t.ids.count id = 1 := List.count_eq_one_of_mem t.nodup hid
    refine ⟨?_, ?_⟩
    · rw [← Multiset.coe_count, hsame, Multiset.coe_count, hcount]
    · rw [← Multiset.coe_count, hall, Multiset.coe_count, hcount]

/-- Commands are injected and finished once each and within the limits. No iteration fails, and a
run whose environment is fair comes to its end. -/
theorem injection_controlled (hm : 1 ≤ g.maxMps) (t : KvTrace) :
    (∀ x log, Run g (TakesInTurn g) t x log →
      Controlled g t x log ∧ ∀ i, 0 < g.linksPerHost → ∃ y, x.step g i = .ok y) ∧
    ∀ xs is, Execution g t xs is → Fair g xs is → ∃ n, (xs n).runner.finished = true :=
  ⟨fun _ _ h => ⟨h.inv.controlled h.serial_le, fun i hl => h.inv.step_ok t.nodup hl i⟩,
    fun _ _ h hf => h.finishes hf hm⟩

def twoCommands : KvTrace := ⟨[⟨0, false, 0, 0⟩, ⟨1, false, 0, 0⟩], by decide⟩

/-- A command in every cycle. -/
def serialConfig : InjectionConfig := ⟨1, 2, true, 0, 1⟩

/-- A cycle of the NDP units; the link is idle, or takes a message and answers the first one. -/
def kvInput (answers : Bool) : KvInput :=
  ⟨true, true, fun _ => ⟨answers, if answers then .reply 0 else .nothing⟩⟩

theorem cycle_serialConfig {q : InjectionQueue} (hq : q.counter = 0)
    (hk : q.injectionTimes.keys.length ≤ 1) (now : Nat) (mf : Message)
    (rest : List (List Message)) : q.cycle serialConfig true now ([mf] :: rest) =
      .ok ({ q with queue := q.queue ++ [(mf, now)], counter := 0 }, rest) := by
  have hcounted : q.counted serialConfig = 1 := by
    unfold InjectionQueue.counted
    rw [hq]
    decide +kernel
  have hzero : roundTo 24 0 = 0 := by decide +kernel
  simp [InjectionQueue.cycle, hcounted, hzero, Nat.not_lt.mpr hk]

/-- Each command is answered before the next is taken. -/
theorem injection_controlled_two : ∃ x log, Run serialConfig (TakesInTurn serialConfig) twoCommands
    x log ∧ finishedIds log = [0, 1] ∧ Controlled serialConfig twoCommands x log := by
  obtain ⟨x, first, y, second, hx, hy, hqueue, hkeys, hlog⟩ : ∃ x first y second,
      (create twoCommands).step serialConfig (kvInput true) = .ok (x, first) ∧
      x.step serialConfig (kvInput true) = .ok (y, second) ∧
      x.runner.injection.queue = [] ∧ x.keys = [] ∧ finishedIds (first ++ second) = [0, 1] :=
    ⟨_, _, _, _,
      bind_eq_ok.mpr ⟨_, bind_eq_ok.mpr ⟨_, cycle_serialConfig rfl (by decide) _ _ _, rfl⟩, rfl⟩,
      bind_eq_ok.mpr ⟨_, bind_eq_ok.mpr ⟨_, cycle_serialConfig rfl (by decide) _ _ _, rfl⟩, rfl⟩,
      rfl, rfl, rfl⟩
  have hstart : Run serialConfig (TakesInTurn serialConfig) twoCommands (create twoCommands) [] :=
    .start
  have hrun : Run serialConfig (TakesInTurn serialConfig) twoCommands y ([] ++ first ++ second) :=
    (hstart.step _ (fun _ _ _ _ => ⟨rfl, rfl⟩) rfl hx).step _ (fun _ _ _ _ => ⟨hqueue, hkeys⟩)
      (by simp [KvRunner.running, kvInput]) hy
  exact ⟨y, _, hrun, hlog, (((injection_controlled (by decide) twoCommands).1 _ _ hrun)).1⟩

/-- The second command is taken while the first is on its way. -/
theorem serial_overtakes : ∃ x log, Run serialConfig (fun _ _ => True) twoCommands x log ∧
    ¬ Controlled serialConfig twoCommands x log := by
  obtain ⟨x, first, y, second, hx, hy, hcommands, hlog⟩ : ∃ x first y second,
      (create twoCommands).step serialConfig (kvInput false) = .ok (x, first) ∧
      x.step serialConfig (kvInput false) = .ok (y, second) ∧
      y.runner.commands = [] ∧ finishedIds ([] ++ first ++ second) = [] :=
    ⟨_, _, _, _,
      bind_eq_ok.mpr ⟨_, bind_eq_ok.mpr ⟨_, cycle_serialConfig rfl (by decide) _ _ _, rfl⟩, rfl⟩,
      bind_eq_ok.mpr ⟨_, bind_eq_ok.mpr ⟨_, cycle_serialConfig rfl (by decide) _ _ _, rfl⟩, rfl⟩,
      rfl, rfl⟩
  have hstart : Run serialConfig (fun _ _ => True) twoCommands (create twoCommands) [] := .start
  refine ⟨y, _, (hstart.step _ trivial rfl hx).step _ trivial
    (by simp [KvRunner.running, kvInput]) hy, fun h => ?_⟩
  have hle := h.serial rfl
  rw [hcommands, hlog] at hle
  exact absurd hle (by decide)

end KvSystem

end NdpSim
