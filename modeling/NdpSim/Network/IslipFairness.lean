import NdpSim.Network.Islip

/-!
# No request starves

A request is served if those for its output stay until they are served. The pointer of the output
comes nearer to its input, or the input that was granted to is nearer, or the pointer of that input
comes nearer to the output.
-/
namespace NdpSim

open Library

namespace Islip

/-- Requests are added and removed. -/
inductive Asks (a : Islip) : Islip → Prop
  | refl : Asks a a
  | add {b b' : Islip} (asks : Asks a b) (input output label : Nat)
      (h : b.addRequest input output label = .ok b') : Asks a b'
  | remove {b b' : Islip} (asks : Asks a b) (input output label : Nat)
      (h : b.removeRequest input output label = .ok b') : Asks a b'

/-- Only ports ask and are asked. -/
def Bounded (a : Islip) : Prop :=
  ∀ input output, (a.request input output).isSome → input < a.inputs ∧ output < a.outputs

variable {a b b' : Islip} {input output inputs outputs iters : Nat}

theorem Bounded.setRequest (ha : a.Bounded) {label : Option Nat}
    (h : input < a.inputs ∧ output < a.outputs) : (a.setRequest input output label).Bounded := by
  intro i o hreq
  rw [setRequest_request] at hreq
  split_ifs at hreq with heq
  · obtain ⟨rfl, rfl⟩ := heq
    exact h
  · exact ha i o hreq

theorem Bounded.addRequest (ha : a.Bounded) {label : Nat}
    (h : a.addRequest input output label = .ok b) : b.Bounded := by
  obtain rfl := addRequest_eq_ok h
  apply ha.setRequest
  unfold Islip.addRequest at h
  split_ifs at h with hports
  exact ⟨hports.1, hports.2.1⟩

theorem Bounded.removeRequest (ha : a.Bounded) {label : Nat}
    (h : a.removeRequest input output label = .ok b) : b.Bounded := by
  obtain rfl := removeRequest_eq_ok h
  apply ha.setRequest
  unfold Islip.removeRequest at h
  split_ifs at h with hports
  exact ⟨hports.1, hports.2.1⟩

theorem Asks.frame (h : Asks a b) : b = { a with request := b.request } := by
  induction h with
  | refl => rfl
  | add asks input output label h ih =>
    obtain rfl := addRequest_eq_ok h
    rw [ih]
    rfl
  | remove asks input output label h ih =>
    obtain rfl := removeRequest_eq_ok h
    rw [ih]
    rfl

theorem Asks.bounded (h : Asks a b) (ha : a.Bounded) : b.Bounded := by
  induction h with
  | refl => exact ha
  | add asks input output label h ih => exact ih.addRequest h
  | remove asks input output label h ih => exact ih.removeRequest h

/-! ## The pointers after all iterations -/

theorem iteration_pointers (a : Islip) :
    (a.iteration false).gptrs = a.gptrs ∧ (a.iteration false).aptrs = a.aptrs := by
  constructor
  · funext output
    dsimp only [Islip.iteration]
    split <;> rfl
  · funext input
    dsimp only [Islip.iteration]
    split <;> rfl

/-- The first iteration tells the pointers, and what it matched stays. -/
theorem iterate_first (ha : a.Pointed) (hm : a.Matched) (k : Nat) :
    (a.iterate (k + 1)).gptrs = (a.iteration true).gptrs ∧
      (a.iterate (k + 1)).aptrs = (a.iteration true).aptrs ∧
      ∀ input output, a.accept input = some output →
        (a.iterate (k + 1)).inmatch input = some output := by
  induction k with
  | zero =>
    refine ⟨rfl, rfl, fun input output h => ?_⟩
    change (a.iteration true).inmatch input = some output
    simp [Islip.iteration, h]
  | succ k ih =>
    obtain ⟨hg, hacc, hkept⟩ := ih
    obtain ⟨hpointed, -⟩ := iterate_matched ha hm (k + 1)
    rw [iterate_succ]
    obtain ⟨hg', hacc'⟩ := iteration_pointers (a.iterate (k + 1))
    refine ⟨hg'.trans hg, hacc'.trans hacc, fun input output h => ?_⟩
    have hin := hkept input output h
    have hnone : (a.iterate (k + 1)).accept input = none :=
      accept_eq_none hpointed (by rw [hin]; simp)
    change ((a.iterate (k + 1)).accept input).or _ = _
    rw [hnone, hin]
    rfl

/-! ## What a request waits for -/

/-- How long a request may still wait. -/
def wait (a : Islip) (input output : Nat) : Nat :=
  ahead a.inputs (a.gptrs output) input * (a.inputs * a.outputs) +
    match a.grant output with
    | some other => ahead a.inputs (a.gptrs output) other * a.outputs +
        ahead a.outputs (a.aptrs other) output
    | none => 0

/-- Ready to allocate. -/
structure Asked (a : Islip) : Prop where
  pointed : a.Pointed
  unmatched : a.Unmatched
  bounded : a.Bounded

/-- Nobody who asks for the output is nearer than the one it grants to. -/
theorem Asked.exists_grant (ha : a.Asked) (hreq : (a.request input output).isSome) :
    ∃ other, a.grant output = some other ∧ other < a.inputs ∧ (a.request other output).isSome ∧
      ahead a.inputs (a.gptrs output) other ≤ ahead a.inputs (a.gptrs output) input := by
  obtain ⟨hin, hout⟩ := ha.unmatched
  have hsome : (a.grant output).isSome := by
    rw [grant, if_neg (by simp [hout])]
    apply (pick_isSome (ha.pointed.gptr output)).mpr
    exact ⟨input, (ha.bounded input output hreq).1, by simp [hreq, hin]⟩
  obtain ⟨other, hgrant⟩ := Option.isSome_iff_exists.mp hsome
  obtain ⟨-, hlt, hother, -⟩ := grant_eq_some ha.pointed hgrant
  refine ⟨other, hgrant, hlt, hother, ?_⟩
  rw [grant, if_neg (by simp [hout])] at hgrant
  obtain ⟨-, -, hnearest⟩ := pick_eq_some (ha.pointed.gptr output) hgrant
  by_contra hnear
  have hnot := hnearest input (ha.bounded input output hreq).1 (by omega)
  simp [hreq, hin] at hnot

theorem Asked.exists_accept (ha : a.Asked) (hgrant : a.grant output = some input) :
    ∃ other, a.accept input = some other ∧ other < a.outputs ∧
      ahead a.outputs (a.aptrs input) other ≤ ahead a.outputs (a.aptrs input) output := by
  obtain ⟨-, -, hreq, -⟩ := grant_eq_some ha.pointed hgrant
  have hlt := (ha.bounded input output hreq).2
  have hsome : (a.accept input).isSome := by
    apply (pick_isSome (ha.pointed.aptr input)).mpr
    exact ⟨output, hlt, by simp [hreq, hgrant]⟩
  obtain ⟨other, haccept⟩ := Option.isSome_iff_exists.mp hsome
  obtain ⟨hother, -, hnearest⟩ := pick_eq_some (ha.pointed.aptr input) haccept
  refine ⟨other, haccept, hother, ?_⟩
  by_contra hnear
  have hnot := hnearest output hlt (by omega)
  simp [hreq, hgrant] at hnot

/-- Of two numbers of this form the one with the smaller multiple is smaller. -/
theorem mul_add_lt_mul_add {n near far x : Nat} (y : Nat) (hnear : near < far) (hx : x < n) :
    near * n + x < far * n + y := by
  have hstep : near * n + n ≤ far * n := by
    rw [← Nat.succ_mul]
    exact Nat.mul_le_mul_right n hnear
  omega

theorem Asked.wait_lt (ha : a.Asked) (hreq : (a.request input output).isSome) :
    a.wait input output < a.inputs * (a.inputs * a.outputs) := by
  obtain ⟨other, hgrant, hlt, -, -⟩ := ha.exists_grant hreq
  obtain ⟨hin, hout⟩ := ha.bounded input output hreq
  have hfar := ahead_lt (ha.pointed.gptr output) hin
  have hother := ahead_lt (ha.pointed.gptr output) hlt
  have hback := ahead_lt (ha.pointed.aptr other) hout
  rw [wait, hgrant]
  dsimp only
  have hturn := mul_add_lt_mul_add 0 hother hback
  exact mul_add_lt_mul_add 0 hfar hturn

/-- A request that is not served will wait for less. -/
theorem Asked.wait_next (ha : a.Asked) (hiters : 0 < a.iters) (hasks : Asks a.allocate.clear b)
    (hreq : (a.request input output).isSome)
    (hpersist : ∀ other, (a.request other output).isSome →
      a.allocate.inmatch other ≠ some output → (b.request other output).isSome)
    (hwaits : a.allocate.inmatch input ≠ some output) :
    b.wait input output < a.wait input output := by
  obtain ⟨k, hk⟩ := Nat.exists_eq_succ_of_ne_zero hiters.ne'
  obtain ⟨hg, hacc, hkept⟩ := iterate_first ha.pointed ha.unmatched.matched k
  obtain ⟨hinputs, houtputs, -⟩ := iterate_frame a a.iters
  have hb : b.inputs = a.inputs ∧ b.outputs = a.outputs ∧
      b.gptrs = (a.iteration true).gptrs ∧ b.aptrs = (a.iteration true).aptrs := by
    rw [hasks.frame, allocate, hk]
    rw [hk] at hinputs houtputs
    exact ⟨hinputs, houtputs, hg, hacc⟩
  obtain ⟨hbin, hbout, hbg, hbacc⟩ := hb
  have hbAsked : b.Asked := by
    refine ⟨⟨fun o => ?_, fun i => ?_⟩, ?_, hasks.bounded fun i o h => by cases h⟩
    · rw [hbin, hbg]
      exact ha.pointed.iteration.gptr o
    · rw [hbout, hbacc]
      exact ha.pointed.iteration.aptr i
    · rw [hasks.frame]
      exact ⟨fun _ => rfl, fun _ => rfl⟩
  have hbreq := hpersist input hreq hwaits
  obtain ⟨other, hgrant, hother, hotherReq, hle⟩ := ha.exists_grant hreq
  obtain ⟨served, haccept, hserved, hnear⟩ := ha.exists_accept hgrant
  obtain ⟨other', hgrant', hother', hotherReq', hle'⟩ := hbAsked.exists_grant hbreq
  obtain ⟨hin, hout⟩ := ha.bounded input output hreq
  have hmatched : a.allocate.inmatch other = some served := by
    rw [allocate, hk]
    exact hkept other served haccept
  rw [hbin] at hother'
  have hfar' : ahead a.inputs ((a.iteration true).gptrs output) other' < a.inputs :=
    ahead_lt (ha.pointed.iteration.gptr output) hother'
  have hback' : ahead a.outputs ((a.iteration true).aptrs other') output < a.outputs :=
    ahead_lt (ha.pointed.iteration.aptr other') hout
  rw [wait, wait, hgrant, hgrant', hbin, hbout, hbg, hbacc]
  dsimp only
  by_cases hsame : served = output
  · -- The pointer of the output moves behind the one that was served.
    subst hsame
    have hne : other ≠ input := fun heq => hwaits (heq ▸ hmatched)
    have hgptr : (a.iteration true).gptrs served = (other + 1) % a.inputs := by
      have haccepted := (accepted_eq_some ha.pointed).mpr haccept
      simp [Islip.iteration, haccepted]
    have hlt : ahead a.inputs (a.gptrs served) other < ahead a.inputs (a.gptrs served) input := by
      apply hle.lt_of_ne
      rwa [Ne, ahead_inj (ha.pointed.gptr served) hother hin]
    have hnext := ahead_next (ha.pointed.gptr served) hother hin hlt
    rw [← hgptr] at hnext
    have hturn := mul_add_lt_mul_add 0 hfar' hback'
    exact mul_add_lt_mul_add _ hnext hturn
  · -- The output stays where it is and grants to the same input or to a nearer one.
    have hgptr : (a.iteration true).gptrs output = a.gptrs output := by
      have hnone : a.accepted output = none := by
        cases haccepted : a.accepted output with
        | none => rfl
        | some i =>
          have hi := (accepted_eq_some ha.pointed).mp haccepted
          have hgi := (accept_eq_some ha.pointed hi).2
          grind
      simp [Islip.iteration, hnone]
    have hstays : (b.request other output).isSome := by
      apply hpersist other hotherReq
      rw [hmatched]
      exact fun heq => hsame (Option.some.inj heq)
    obtain ⟨nearer, hgrant'', -, -, hle''⟩ := hbAsked.exists_grant hstays
    obtain rfl : nearer = other' := Option.some.inj (hgrant''.symm.trans hgrant')
    rw [hbin, hbg, hgptr] at hle''
    rw [hgptr] at hfar' ⊢
    by_cases hagain : nearer = other
    · subst hagain
      have hlt : ahead a.outputs (a.aptrs nearer) served <
          ahead a.outputs (a.aptrs nearer) output := by
        apply hnear.lt_of_ne
        rwa [Ne, ahead_inj (ha.pointed.aptr nearer) hserved hout]
      have hnext := ahead_next (ha.pointed.aptr nearer) hserved hout hlt
      have haptr : (a.iteration true).aptrs nearer = (served + 1) % a.outputs := by
        simp [Islip.iteration, haccept]
      rw [haptr]
      exact Nat.add_lt_add_left (Nat.add_lt_add_left hnext _) _
    · have hlt : ahead a.inputs (a.gptrs output) nearer <
          ahead a.inputs (a.gptrs output) other := by
        apply hle''.lt_of_ne
        rwa [Ne, ahead_inj (ha.pointed.gptr output) hother' hother]
      apply Nat.add_lt_add_left
      exact mul_add_lt_mul_add _ hlt hback'

/-! ## All cycles -/

theorem Runs.bounded {allocated : Bool} (hrun : Runs inputs outputs iters allocated a) :
    a.Bounded := by
  induction hrun with
  | create hin hout => exact fun i o h => by cases h
  | clear run ih => exact fun i o h => by cases h
  | add run input output label h ih => exact ih.addRequest h
  | remove run input output label h ih => exact ih.removeRequest h
  | @allocate a run ih =>
    obtain ⟨hinputs, houtputs, hrequest⟩ := iterate_frame a a.iters
    intro i o h
    rw [Islip.allocate, hrequest] at h
    rw [Islip.allocate, hinputs, houtputs]
    exact ih i o h

theorem Runs.asks {allocated : Bool} (hrun : Runs inputs outputs iters allocated a)
    (hasks : Asks a.clear b) : Runs inputs outputs iters false b := by
  induction hasks with
  | refl => exact hrun.clear
  | add asks input output label h ih => exact ih.add input output label h
  | remove asks input output label h ih => exact ih.remove input output label h

theorem Runs.asked (hrun : Runs inputs outputs iters false a) : a.Asked := by
  obtain ⟨hsized, hunmatched⟩ := hrun.sized
  exact ⟨hsized.pointed, hunmatched rfl, hrun.bounded⟩

theorem served_within {n : Nat} {asked : Nat → Islip} (hiters : 0 < iters)
    (hstart : Runs inputs outputs iters false (asked 0))
    (hnext : ∀ t, Asks (asked t).allocate.clear (asked (t + 1)))
    (hpersist : ∀ t i, ((asked t).request i output).isSome →
      (asked t).allocate.inmatch i ≠ some output → ((asked (t + 1)).request i output).isSome)
    (hreq : ((asked 0).request input output).isSome) (hwait : (asked 0).wait input output < n) :
    ∃ t < n, (asked t).allocate.inmatch input = some output := by
  induction n generalizing asked with
  | zero => omega
  | succ n ih =>
    by_cases hserved : (asked 0).allocate.inmatch input = some output
    · exact ⟨0, Nat.succ_pos n, hserved⟩
    have hlt := hstart.asked.wait_next (hstart.sized.1.iters_eq ▸ hiters) (hnext 0) hreq
      (hpersist 0) hserved
    obtain ⟨t, ht, hserved⟩ := ih (hstart.allocate.asks (hnext 0)) (fun t => hnext (t + 1))
      (fun t => hpersist (t + 1)) (hpersist 0 input hreq hserved) (by omega)
    exact ⟨t + 1, by omega, hserved⟩

/-- A request that stays until it is served, as all others for its output do, is served. -/
theorem served_in_turn {asked : Nat → Islip} (hiters : 0 < iters)
    (hstart : Runs inputs outputs iters false (asked 0))
    (hnext : ∀ t, Asks (asked t).allocate.clear (asked (t + 1)))
    (hpersist : ∀ t i, ((asked t).request i output).isSome →
      (asked t).allocate.inmatch i ≠ some output → ((asked (t + 1)).request i output).isSome)
    (hreq : ((asked 0).request input output).isSome) :
    ∃ t < inputs * (inputs * outputs), (asked t).allocate.inmatch input = some output := by
  apply served_within hiters hstart hnext hpersist hreq
  have hlt := hstart.asked.wait_lt hreq
  obtain ⟨hinputs, houtputs, -, -⟩ := hstart.sized.1
  rwa [hinputs, houtputs] at hlt

/-- Two inputs ask for the same output, and the second one asks again. -/
def turns : Nat → Islip
  | 0 => ({ inputs := 2, outputs := 1, iters := 1 : Islip }.setRequest 0 0 (some 0)).setRequest 1 0
      (some 0)
  | 1 => (turns 0).allocate.clear.setRequest 1 0 (some 0)
  | t + 2 => (turns (t + 1)).allocate.clear

theorem served_in_turn_second :
    ∃ t < 2 * (2 * 1), (turns t).allocate.inmatch 1 = some 0 := by
  have hstart : Runs 2 1 1 false (turns 0) :=
    ((Runs.create (by decide) (by decide)).add 0 0 0 rfl).add 1 0 0 rfl
  refine served_in_turn (by decide) hstart (fun t => ?_) (fun t i hreq hwaits => ?_) (by decide)
  · cases t with
    | zero => exact .add .refl 1 0 0 rfl
    | succ t => exact .refl
  · obtain _ | _ | t := t
    · obtain ⟨hi, -⟩ := hstart.bounded i 0 hreq
      obtain rfl | rfl : i = 0 ∨ i = 1 := Nat.le_one_iff_eq_zero_or_eq_one.mp (Nat.le_of_lt_succ hi)
      · exact absurd (by decide) hwaits
      · decide
    · have hagain : Runs 2 1 1 false (turns 1) := hstart.allocate.asks (.add .refl 1 0 0 rfl)
      obtain ⟨hi, -⟩ := hagain.bounded i 0 hreq
      obtain rfl | rfl : i = 0 ∨ i = 1 := Nat.le_one_iff_eq_zero_or_eq_one.mp (Nat.le_of_lt_succ hi)
      · exact absurd hreq (by decide)
      · exact absurd (by decide) hwaits
    · cases hreq

end Islip

end NdpSim
