import NdpSim.Library.Replay
import NdpSim.System.KvRunner
import NdpSim.System.SimulationRunner

/-!
# The latency of back invalidation

An answer to an invalidation should go back when the host has held it for its latency. Both
runners compare the wrong way round: an answer goes back before its time, and one whose time has
passed stays for ever.
-/
namespace NdpSim

open Library

/-! ## When answers should go back -/

/-- An answer that waits: the host its request came to, and when it may go back. -/
abbrev WaitingAnswer := Nat × Message × Nat

/-- What waits after an event. -/
def waitingAfter (latency : Nat) (w : List WaitingAnswer) : HostEvent → List WaitingAnswer
  | .arrived host mf cycle => w ++ [(host, mf, cycle + latency)]
  | .looked _ (some _) => w.tail
  | .looked _ none | .sent .. | .injected _ | .finished _ => w

/-- The comparison of the runners. -/
def Released (w : List WaitingAnswer) : HostEvent → Prop
  | .looked now released => released = (releaseBi now (w.map Prod.snd)).1.map fun mf => (0, mf)
  | _ => True

/-- If nothing goes back, the queue is as before. -/
theorem eq_of_releaseBi_none {now : Nat} {b b' : List (Message × Nat)}
    (h : releaseBi now b = (none, b')) : b' = b := by
  unfold releaseBi at h
  split at h
  · split at h <;> cases h
    rfl
  · cases h
    rfl

/-- How a piece of a runner changes `m_bi_reqs`. -/
abbrev Answers (latency : Nat) (b : List (Message × Nat)) (events : List HostEvent)
    (b' : List (Message × Nat)) : Prop :=
  Traces (waitingAfter latency) Released (List.map Prod.snd) b events b'

variable {latency : Nat} {b : List (Message × Nat)}

theorem answers_looked (now : Nat) :
    Answers latency b [.looked now ((releaseBi now b).1.map fun mf => (0, mf))]
      (releaseBi now b).2 := by
  rintro w rfl
  refine ⟨⟨rfl, trivial⟩, ?_⟩
  cases w with
  | nil => rfl
  | cons e rest =>
    obtain ⟨host, mf, ready⟩ := e
    simp only [releaseBi, List.map_cons, List.foldl_cons, List.foldl_nil]
    split <;> rfl

theorem answers_arrived (host : Nat) (mf : Message) (now : Nat) :
    Answers latency b [.arrived host mf now] (b ++ [(mf, now + latency)]) := by
  rintro w rfl
  exact ⟨⟨trivial, trivial⟩, by simp [waitingAfter]⟩

theorem answers_other {e : HostEvent} (h : ∀ w, waitingAfter latency w e = w)
    (hr : ∀ w, Released w e) : Answers latency b [e] b := by
  rintro w rfl
  exact ⟨⟨hr w, trivial⟩, by simp [h]⟩

theorem answers_sent (host node : Nat) (mf : Message) :
    Answers latency b [.sent host node mf] b :=
  answers_other (fun _ => rfl) fun _ => trivial

theorem answers_injected (id : Nat) : Answers latency b [.injected id] b :=
  answers_other (fun _ => rfl) fun _ => trivial

theorem answers_finished (id : Nat) : Answers latency b [.finished id] b :=
  answers_other (fun _ => rfl) fun _ => trivial

namespace SimulationRunner

variable {g : RunnerConfig} {s s' : SimulationRunner} {events : List HostEvent}

theorem answers_release (h : s.release = .ok (s', events)) :
    Answers latency s.biReqs events s'.biReqs := by
  have hlooked : Answers latency s.biReqs _ _ := answers_looked s.ndpCycle
  simp only [release] at h
  split at h
  case h_1 mf biReqs reqs others hr _ =>
    cases h
    rwa [hr] at hlooked
  case h_2 => cases h
  case h_3 biReqs hr =>
    cases h
    rw [hr] at hlooked
    rwa [eq_of_releaseBi_none hr] at hlooked

theorem biReqs_launchNdpKernel {command : SimulationCommand}
    (h : s.launchNdpKernel command = .ok s') : s'.biReqs = s.biReqs := by
  simp only [launchNdpKernel] at h
  split at h
  · cases h
  · split at h <;> cases h
    rfl

theorem biReqs_nextCommand {i : SimulationInput} (h : s.nextCommand i = .ok s') :
    s'.biReqs = s.biReqs := by
  simp only [nextCommand] at h
  split at h
  · cases h
    rfl
  split at h
  · cases h
    rfl
  case h_2 command rest _ =>
    have hpop : ∀ (c : Prop) [Decidable c],
        (if c then { s with commands := rest } else s).biReqs = s.biReqs := by
      intro c _
      split <;> rfl
    split at h
    · cases h
      exact hpop _
    · obtain ⟨u, hu, h⟩ := bind_eq_ok.mp h
      split at h <;> cases h
      exact (biReqs_launchNdpKernel hu).trans (hpop _)

theorem answers_sendRequest {i : SimulationInput} {host node : Nat}
    (h : s.sendRequest g i host node = .ok (s', events)) :
    Answers latency s.biReqs events s'.biReqs := by
  obtain ⟨check, -, h⟩ := bind_eq_ok.mp h
  split at h
  · cases h
  · cases h
    exact .nil _
  · split at h
    · cases h
      exact .nil _
    · dsimp only at h
      split at h <;> cases h <;> exact answers_sent _ _ _

theorem answers_receive {i : SimulationInput} {host node : Nat}
    (h : s.receive g i host node = .ok (s', events)) :
    Answers g.biHostLatency s.biReqs events s'.biReqs := by
  simp only [receive] at h
  split at h
  · cases h
    exact .nil _
  split at h
  · split at h <;> cases h
    exact .nil _
  · obtain ⟨mf, -, h⟩ := bind_eq_ok.mp h
    cases h
    exact answers_arrived _ _ _

theorem answers_processMemoryAccess {i : SimulationInput} {nodes : List (Nat × Nat)}
    (h : s.processMemoryAccess g i nodes = .ok (s', events)) :
    Answers g.biHostLatency s.biReqs events s'.biReqs := by
  induction nodes generalizing s events with
  | nil =>
    cases h
    exact .nil _
  | cons n rest ih =>
    obtain ⟨host, node⟩ := n
    obtain ⟨⟨u, sent⟩, hs, h⟩ := bind_eq_ok.mp h
    obtain ⟨⟨v, received⟩, hr, h⟩ := bind_eq_ok.mp h
    obtain ⟨⟨t, later⟩, hl, h⟩ := bind_eq_ok.mp h
    cases h
    exact ((answers_sendRequest hs).append (answers_receive hr)).append (ih hl)

theorem answers_step {i : SimulationInput} (h : s.step g i = .ok (s', events)) :
    Answers g.biHostLatency s.biReqs events s'.biReqs := by
  obtain ⟨⟨u, looked⟩, hr, h⟩ := bind_eq_ok.mp h
  obtain ⟨v, hn, h⟩ := bind_eq_ok.mp h
  split at h
  · cases h
  · obtain ⟨⟨t, later⟩, hp, h⟩ := bind_eq_ok.mp h
    cases h
    refine (answers_release hr).append ?_
    rw [← biReqs_nextCommand hn]
    exact answers_processMemoryAccess hp

theorem answers_run {log : List HostEvent} (h : Run g s log) :
    Answers g.biHostLatency [] log s.biReqs := by
  induction h with
  | start => exact .nil _
  | step _ _ _ hstep ih => exact ih.append (answers_step hstep)

end SimulationRunner

namespace KvRunner

variable {g : InjectionConfig} {s s' : KvRunner} {events : List HostEvent}

theorem answers_release (s : KvRunner) :
    Answers latency s.biReqs s.release.2 s.release.1.biReqs := by
  have hlooked : Answers latency s.biReqs _ _ := answers_looked s.ndpCycle
  unfold release
  split
  case h_1 mf biReqs hr => rwa [hr] at hlooked
  case h_2 biReqs hr =>
    rw [hr] at hlooked
    rwa [eq_of_releaseBi_none hr] at hlooked

theorem answers_inject (s : KvRunner) :
    Answers latency s.biReqs (s.inject g).2 (s.inject g).1.biReqs := by
  unfold inject
  split
  · exact .nil _
  · exact answers_injected _

theorem answers_begin {ndpCycle : Bool} (h : s.begin g ndpCycle = .ok (s', events)) :
    Answers latency s.biReqs events s'.biReqs := by
  obtain ⟨u, -, hu, rfl, rfl⟩ := begin_eq_ok g h
  have hsame : u.biReqs = s.biReqs := by rw [hu]
  exact hsame ▸ (answers_release u).append (answers_inject _)

theorem answers_sendRequest (s : KvRunner) (node : Nat) (hasBuffer : Bool) :
    Answers latency s.biReqs (s.sendRequest node hasBuffer).2
      (s.sendRequest node hasBuffer).1.biReqs := by
  unfold sendRequest
  split
  · exact .nil _
  · split
    · exact .nil _
    · exact answers_sent _ _ _

theorem answers_receive {mf : Message} (h : s.receive g mf = .ok (s', events)) :
    Answers g.biHostLatency s.biReqs events s'.biReqs := by
  simp only [receive] at h
  split at h
  · split at h
    · split at h
      · split at h <;> cases h
        · exact .nil _
        · exact answers_finished _
      · cases h
    · split at h
      · split at h <;> cases h
        exact answers_finished _
      · cases h
  · obtain ⟨mf, -, h⟩ := bind_eq_ok.mp h
    cases h
    exact answers_arrived _ _ _

end KvRunner

namespace KvSystem

variable {g : InjectionConfig} {x x' : KvSystem} {events : List HostEvent}

theorem answers_processNode {node : Nat} {i : KvNode}
    (h : x.processNode g node i = .ok (x', events)) :
    Answers g.biHostLatency x.runner.biReqs events x'.runner.biReqs := by
  obtain ⟨⟨top, pending⟩, -, h⟩ := bind_eq_ok.mp h
  have hsent : Answers g.biHostLatency x.runner.biReqs _ _ :=
    x.runner.answers_sendRequest node i.hasBuffer
  cases top with
  | none =>
    cases h
    exact hsent
  | some mf =>
    obtain ⟨⟨runner, received⟩, hr, h⟩ := bind_eq_ok.mp h
    cases h
    exact hsent.append (KvRunner.answers_receive hr)

theorem answers_processMemoryAccess {i : KvInput} {nodes : List Nat}
    (h : x.processMemoryAccess g i nodes = .ok (x', events)) :
    Answers g.biHostLatency x.runner.biReqs events x'.runner.biReqs := by
  induction nodes generalizing x events with
  | nil =>
    cases h
    exact .nil _
  | cons node rest ih =>
    obtain ⟨⟨y, now⟩, hn, h⟩ := bind_eq_ok.mp h
    obtain ⟨⟨z, later⟩, hl, h⟩ := bind_eq_ok.mp h
    cases h
    exact (answers_processNode hn).append (ih hl)

theorem answers_step {i : KvInput} (h : x.step g i = .ok (x', events)) :
    Answers g.biHostLatency x.runner.biReqs events x'.runner.biReqs := by
  obtain ⟨⟨runner, begun⟩, hb, h⟩ := bind_eq_ok.mp h
  dsimp only at h
  split at h
  · cases h
  · obtain ⟨⟨y, later⟩, hp, h⟩ := bind_eq_ok.mp h
    cases h
    exact (KvRunner.answers_begin hb).append (answers_processMemoryAccess hp)

theorem answers_run {P : KvSystem → KvInput → Prop} {t : KvTrace} {log : List HostEvent}
    (h : Run g P t x log) :
    Answers g.biHostLatency [] log x.runner.biReqs := by
  induction h with
  | start => exact .nil _
  | step _ _ _ _ hstep ih => exact ih.append (answers_step hstep)

end KvSystem

/-- The runs of both runners, by what they do with invalidations. -/
inductive HostRun (latency : Nat) (log : List HostEvent) : Prop
  | simulation {g : RunnerConfig} {s : SimulationRunner} (h : SimulationRunner.Run g s log)
      (hl : g.biHostLatency = latency)
  | keyValue {g : InjectionConfig} {t : KvTrace} {x : KvSystem}
      (h : KvSystem.Run g (fun _ _ => True) t x log) (hl : g.biHostLatency = latency)

theorem HostRun.released {log : List HostEvent} (h : HostRun latency log) :
    Always (waitingAfter latency) Released [] log := by
  cases h with
  | simulation h hl => exact hl ▸ (SimulationRunner.answers_run h [] rfl).1
  | keyValue h hl => exact hl ▸ (KvSystem.answers_run h [] rfl).1

def oneHost (latency : Nat) : RunnerConfig := ⟨1, 1, latency, false⟩

end NdpSim
