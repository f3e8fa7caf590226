import NdpSim.Timing.LaunchTables
import NdpSim.Timing.Registration

/-!
# The divisions of the issue check

Whether a body request may go is decided with two divisions: by the body count of its kernel, which
is whatever the last registration said, and by the number of requests for each body, which comes
from the launch. Registrations may come at any time between launches, cycles and completions.
-/
namespace NdpSim

open Library

namespace UThreadGenerator

/-- The front requests of the launches in turn, up to the first that may go or cannot be checked. -/
def inspected (cfg : GeneratorConfig) (g : UThreadGenerator) : List Nat → List RequestInfo
  | [] => []
  | l :: ls =>
    match g.generated l with
    | [] => g.inspected cfg ls
    | info :: _ =>
      if checkCanIssue cfg g info = .ok false then info :: g.inspected cfg ls else [info]

/-- The requests for which `get_next_launch_id` evaluates `check_can_issue`. -/
def evaluated (cfg : GeneratorConfig) (g : UThreadGenerator) : List RequestInfo :=
  g.inspected cfg g.activeLaunchIds.sort

/-- For a body request, both divisors of `check_can_issue` are nonzero. -/
def Divides (cfg : GeneratorConfig) (g : UThreadGenerator) (info : RequestInfo) : Prop :=
  info.type = .kernelBody → cfg.numKernelBodies info.kernelId ≠ 0 ∧
    (g.total info.launchId - 2) / cfg.numKernelBodies info.kernelId ≠ 0

instance (cfg : GeneratorConfig) (g : UThreadGenerator) (info : RequestInfo) :
    Decidable (Divides cfg g info) :=
  inferInstanceAs (Decidable (_ → _))

theorem mem_inspected {cfg : GeneratorConfig} {g : UThreadGenerator} {ls : List Nat}
    {info : RequestInfo} (hi : info ∈ g.inspected cfg ls) :
    ∃ l ∈ ls, info ∈ g.generated l := by
  induction ls with
  | nil => cases hi
  | cons l ls ih =>
    have hrest (hi : info ∈ g.inspected cfg ls) : ∃ l' ∈ l :: ls, info ∈ g.generated l' := by
      obtain ⟨l', hl', hmem⟩ := ih hi
      exact ⟨l', List.mem_cons_of_mem _ hl', hmem⟩
    have hfront {info' : RequestInfo} {rest : List RequestInfo}
        (hg : g.generated l = info' :: rest) (heq : info = info') :
        ∃ l' ∈ l :: ls, info ∈ g.generated l' :=
      ⟨l, List.mem_cons_self, by rw [hg, heq]; exact List.mem_cons_self⟩
    rw [inspected] at hi
    split at hi
    case h_1 => exact hrest hi
    case h_2 info' rest hg =>
      split at hi
      · rcases List.mem_cons.mp hi with heq | hi
        · exact hfront hg heq
        · exact hrest hi
      · exact hfront hg (List.mem_singleton.mp hi)

/-- Only active launches are looked at. -/
theorem mem_evaluated {cfg : GeneratorConfig} {g : UThreadGenerator} {info : RequestInfo}
    (hi : info ∈ g.evaluated cfg) : ∃ l ∈ g.activeLaunchIds, info ∈ g.generated l := by
  obtain ⟨l, hl, hmem⟩ := mem_inspected hi
  exact ⟨l, (Finset.mem_sort _).mp hl, hmem⟩

end UThreadGenerator

/-! ## Registrations between the steps of the generator -/

/-- The configuration of the generator with what is registered. -/
def GeneratorConfig.withTables (cfg : GeneratorConfig) (t : KernelTables) : GeneratorConfig :=
  { cfg with registeredFunctions := t.registeredFunctions, numKernelBodies := t.bodies }

/-- The kernel tables of a unit and the history of its generator. -/
structure RegisteredUnit where
  tables : KernelTables
  history : History

namespace RegisteredUnit

open UThreadGenerator

inductive Action
  | register (k : NdpKernel)
  | launch (kinfo : KernelLaunchInfo)
  | run

inductive Step (cfg : GeneratorConfig) (maxKernelRegister : Nat) :
    Action → RegisteredUnit → RegisteredUnit → Prop
  | register {t t' : KernelTables} {h : History} (k : NdpKernel)
      (hr : t.registerNdpKernel maxKernelRegister k = .ok t') :
      Step cfg maxKernelRegister (.register k) ⟨t, h⟩ ⟨t', h⟩
  | launch {t : KernelTables} {h : History} {g' : UThreadGenerator} (kinfo : KernelLaunchInfo)
      (plan : List RequestInfo) (fresh : h.launches.lookup kinfo.launchId = none)
      (hl : h.gen.launch (cfg.withTables t) kinfo = .ok g') :
      Step cfg maxKernelRegister (.launch kinfo) ⟨t, h⟩ ⟨t, h.afterLaunch kinfo plan g'⟩
  | run {t : KernelTables} {h h' : History} (hs : History.Step (cfg.withTables t) h h')
      (hsame : h'.launches = h.launches) : Step cfg maxKernelRegister .run ⟨t, h⟩ ⟨t, h'⟩

/-- The launch waits or runs. -/
def Underway (g : UThreadGenerator) (l : Nat) : Prop := l ∈ g.activeLaunchIds ∨ l ∈ g.launchQueue

/-- A launch needs a body if it has packets on the unit. A registration must leave a body, and no
more bodies than requests, to the launches of its kernel that still have body requests. -/
def Fits (cfg : GeneratorConfig) (u : RegisteredUnit) : Action → Prop
  | .register k => ∀ l, Underway u.history.gen l → ∀ r ∈ u.history.gen.generated l,
      r.type = .kernelBody → r.kernelId = k.kernelId →
      0 < k.numKernelBodies ∧ k.numKernelBodies ≤ u.history.gen.total l - 2
  | .launch kinfo => kinfo.kernelId ∈ u.tables.registeredFunctions → matched cfg kinfo ≠ [] →
      0 < u.tables.bodies kinfo.kernelId
  | .run => True

def start : RegisteredUnit := ⟨.create, ⟨.create, ∅, []⟩⟩

/-- A run all steps of which meet `C`. -/
inductive Run (cfg : GeneratorConfig) (maxKernelRegister : Nat)
    (C : RegisteredUnit → Action → Prop) : RegisteredUnit → Prop
  | start : Run cfg maxKernelRegister C start
  | step {u u' : RegisteredUnit} {a : Action} (hrun : Run cfg maxKernelRegister C u) (hc : C u a)
      (hs : Step cfg maxKernelRegister a u u') : Run cfg maxKernelRegister C u'

/-! ## The divisors stay nonzero -/

/-- With the body counts `bodies`, every launch under way can be divided into its bodies. -/
structure Divisible (bodies : Nat → Nat) (g : UThreadGenerator) : Prop where
  queue : g.launchQueue.Nodup
  inactive : ∀ l ∈ g.launchQueue, l ∉ g.activeLaunchIds
  unsent : ∀ l ∈ g.launchQueue, ∀ r ∈ g.sent, r.launchId ≠ l
  own : ∀ l, ∀ r ∈ g.generated l, r.launchId = l
  divides : ∀ l, Underway g l → ∀ r ∈ g.generated l, r.type = .kernelBody →
    0 < bodies r.kernelId ∧ bodies r.kernelId ≤ g.total l - 2

namespace Divisible

variable {cfg : GeneratorConfig} {bodies : Nat → Nat} {g g' : UThreadGenerator}

theorem activate (hd : Divisible bodies g) {l : Nat} {rest : List Nat}
    (hq : g.launchQueue = l :: rest) : Divisible bodies (g.activate l rest) := by
  have hqueue := hd.queue
  rw [hq] at hqueue
  have hmem {l' : Nat} (hl' : l' ∈ rest) : l' ∈ g.launchQueue := by
    rw [hq]
    exact List.mem_cons_of_mem _ hl'
  refine ⟨(List.nodup_cons.mp hqueue).2, fun l' hl' => ?_, fun l' hl' => hd.unsent l' (hmem hl'),
    hd.own, fun l' hl' => hd.divides l' ?_⟩
  · intro hact
    rcases Finset.mem_insert.mp hact with rfl | hact
    · exact (List.nodup_cons.mp hqueue).1 hl'
    · exact hd.inactive l' (hmem hl') hact
  · rcases hl' with hact | hl'
    · rcases Finset.mem_insert.mp hact with rfl | hact
      · exact .inr (by rw [hq]; exact List.mem_cons_self)
      · exact .inl hact
    · exact .inr (hmem hl')

theorem issue (hd : Divisible bodies g) {l : Nat} {info : RequestInfo} {rest : List RequestInfo}
    (hl : l ∈ g.activeLaunchIds) (hg : g.generated l = info :: rest) :
    Divisible bodies (g.push l info rest) := by
  have hsub {l' : Nat} {r : RequestInfo} (hr : r ∈ (g.push l info rest).generated l') :
      r ∈ g.generated l' := by
    rw [UThreadGenerator.generated, UThreadGenerator.push, Binding.lookup_insert_eq_ite] at hr
    split at hr
    case isTrue heq =>
      subst heq
      rw [hg]
      exact List.mem_cons_of_mem _ hr
    case isFalse => exact hr
  refine ⟨hd.queue, hd.inactive, fun l' hl' r hr => ?_, fun l' r hr => hd.own l' r (hsub hr),
    fun l' hl' r hr => hd.divides l' hl' r (hsub hr)⟩
  rcases List.mem_append.mp hr with hr | hr
  · exact hd.unsent l' hl' r hr
  · rw [List.mem_singleton.mp hr, hd.own l info (by rw [hg]; exact List.mem_cons_self)]
    rintro rfl
    exact hd.inactive l hl' hl

theorem change (hd : Divisible bodies g) (hs : Change cfg g g') : Divisible bodies g' := by
  cases hs with
  | activate l rest hq => exact hd.activate hq
  | push hs =>
    cases hs with
    | push l info rest hl hg => exact hd.issue hl hg
    | unlaunch => exact ⟨hd.queue, hd.inactive, hd.unsent, hd.own, hd.divides⟩

theorem changes (hd : Divisible bodies g) (hs : Changes cfg g g') : Divisible bodies g' :=
  hs.induct (fun _ _ hs hd => Divisible.change hd hs) hd

/-- A launch of a kernel that has a body, or that owns no packet. -/
theorem launch (hd : Divisible cfg.numKernelBodies g) {kinfo : KernelLaunchInfo}
    (hqueue : kinfo.launchId ∉ g.launchQueue) (hact : kinfo.launchId ∉ g.activeLaunchIds)
    (hsent : ∀ r ∈ g.sent, r.launchId ≠ kinfo.launchId)
    (hb : kinfo.kernelId ∈ cfg.registeredFunctions → matched cfg kinfo ≠ [] →
      0 < cfg.numKernelBodies kinfo.kernelId)
    (hl : g.launch cfg kinfo = .ok g') : Divisible cfg.numKernelBodies g' := by
  obtain ⟨-, ⟨-, rfl⟩ | ⟨-, -, rfl⟩ | ⟨hreg, hm, rfl⟩⟩ := launch_cases hl
  · exact ⟨hd.queue, hd.inactive, hd.unsent, hd.own, hd.divides⟩
  · suffices hpassed : Divisible cfg.numKernelBodies (g.passedOver kinfo) from
      hpassed.changes (checkKernelLaunch_changes cfg _)
    have hsame : (g.passedOver kinfo).activeLaunchIds = g.activeLaunchIds :=
      Finset.erase_eq_of_notMem hact
    refine ⟨hd.queue, fun l hl => by rw [hsame]; exact hd.inactive l hl, hd.unsent, hd.own,
      fun l hl r hr ht => ?_⟩
    have hl : Underway g l := by rwa [Underway, hsame] at hl
    have hne : l ≠ kinfo.launchId := by
      rintro rfl
      exact hl.elim hact hqueue
    have htotal : (g.passedOver kinfo).total l = g.total l := by
      simp [UThreadGenerator.total, passedOver, AList.lookup_erase_ne hne,
        AList.lookup_insert_ne hne]
    rw [htotal]
    exact hd.divides l hl r hr ht
  · suffices hqueued : Divisible cfg.numKernelBodies
        (g.enqueued kinfo (launchRequests cfg kinfo g.globalReqId)) from
      hqueued.changes (checkKernelLaunch_changes cfg _)
    have hgen {l : Nat} {r : RequestInfo}
        (hr : r ∈ (g.enqueued kinfo (launchRequests cfg kinfo g.globalReqId)).generated l) :
        (l = kinfo.launchId ∧ r ∈ launchRequests cfg kinfo g.globalReqId) ∨
          (l ≠ kinfo.launchId ∧ r ∈ g.generated l) := by
      rw [UThreadGenerator.generated, enqueued, Binding.lookup_insert_eq_ite] at hr
      split at hr
      case isTrue heq => exact .inl ⟨heq, hr⟩
      case isFalse hne => exact .inr ⟨hne, hr⟩
    refine ⟨?_, fun l hl => ?_, fun l hl => ?_, fun l r hr => ?_, fun l hl r hr ht => ?_⟩
    · refine List.Nodup.append hd.queue (List.nodup_singleton _) ?_
      rw [List.disjoint_singleton]
      exact hqueue
    · rcases List.mem_append.mp hl with hl | hl
      · exact hd.inactive l hl
      · rwa [List.mem_singleton.mp hl]
    · rcases List.mem_append.mp hl with hl | hl
      · exact hd.unsent l hl
      · rwa [List.mem_singleton.mp hl]
    · rcases hgen hr with ⟨rfl, hmem⟩ | ⟨-, hr⟩
      · obtain ⟨_, _, _, _, _, rfl, -⟩ := History.mem_launchRequests hmem
        rfl
      · exact hd.own l r hr
    · rcases hgen hr with ⟨rfl, hmem⟩ | ⟨hne, hr⟩
      · have hpos := hb hreg hm
        have hplan := History.plan_launchRequests cfg kinfo g.globalReqId hpos hm
        have htotal : (g.enqueued kinfo (launchRequests cfg kinfo g.globalReqId)).total
            kinfo.launchId =
              cfg.numKernelBodies kinfo.kernelId * (matched cfg kinfo).length + 2 := by
          rw [← hplan.length]
          simp [UThreadGenerator.total, enqueued]
        rw [(hplan.launch r hmem).2, htotal, Nat.add_sub_cancel]
        exact ⟨hpos, Nat.le_mul_of_pos_right _ (List.length_pos_iff.mpr hm)⟩
      · have htotal : (g.enqueued kinfo (launchRequests cfg kinfo g.globalReqId)).total l =
            g.total l := by
          simp [UThreadGenerator.total, enqueued, AList.lookup_insert_ne hne]
        rw [htotal]
        refine hd.divides l (hl.imp id fun hl => ?_) r hr ht
        rcases List.mem_append.mp hl with hl | hl
        · exact hl
        · exact absurd (List.mem_singleton.mp hl) hne

theorem complete (hd : Divisible bodies g) {r : RequestInfo} (hr : r ∈ g.sent) :
    Divisible bodies (g.complete r) := by
  unfold UThreadGenerator.complete
  split
  case isFalse => exact ⟨hd.queue, hd.inactive, hd.unsent, hd.own, hd.divides⟩
  case isTrue =>
    refine ⟨hd.queue, fun l hl hact => hd.inactive l hl (Finset.mem_of_mem_erase hact), hd.unsent,
      hd.own, fun l hl q hq ht => ?_⟩
    have hne : l ≠ r.launchId := by
      rintro rfl
      rcases hl with hl | hl
      · exact Finset.ne_of_mem_erase hl rfl
      · exact hd.unsent _ hl r hr rfl
    have htotal : ((g.finishLaunch r.launchId).increaseCount r.launchId).total l = g.total l := by
      simp [UThreadGenerator.total, increaseCount, finishLaunch, AList.lookup_erase_ne hne]
    rw [htotal]
    exact hd.divides l (hl.imp (fun hl => Finset.mem_of_mem_erase hl) id) q hq ht

/-- What can be divided is. -/
theorem evaluated (hd : Divisible cfg.numKernelBodies g) :
    ∀ info ∈ g.evaluated cfg, Divides cfg g info := by
  intro info hi ht
  obtain ⟨l, hl, hmem⟩ := mem_evaluated hi
  obtain ⟨hpos, hle⟩ := hd.divides l (.inl hl) info hmem ht
  rw [hd.own l info hmem]
  exact ⟨Nat.ne_of_gt hpos, Nat.ne_of_gt (Nat.div_pos hle hpos)⟩

end Divisible

variable {cfg : GeneratorConfig} {maxKernelRegister : Nat} {u : RegisteredUnit}

/-- The launches in the tables are known, and the counts fit them. -/
structure Sound (u : RegisteredUnit) : Prop where
  owned : Owned (fun l => (u.history.launches.lookup l).isSome) u.history.gen
  logged : ∀ r, .push r ∈ u.history.log → r ∈ u.history.gen.sent
  divisible : Divisible u.tables.bodies u.history.gen

theorem bodies_registerNdpKernel {t t' : KernelTables} {k : NdpKernel}
    (hr : t.registerNdpKernel maxKernelRegister k = .ok t') (id : Nat) :
    t'.bodies id = if id = k.kernelId then k.numKernelBodies else t.bodies id := by
  unfold KernelTables.registerNdpKernel at hr
  split at hr
  case isFalse => cases hr
  case isTrue =>
    obtain rfl := Except.ok.inj hr
    have hkeep : (t.bufferRegisterKernel k).numKernelBodies = t.numKernelBodies := by
      unfold KernelTables.bufferRegisterKernel
      split <;> rfl
    rw [KernelTables.bodies, KernelTables.generatorRegisterKernel, hkeep,
      Binding.lookup_insert_eq_ite]
    split <;> rfl

/-- A step that fits keeps the counts fitting. -/
theorem Sound.step (h : Sound u) {u' : RegisteredUnit} {a : Action} (hc : Fits cfg u a)
    (hs : Step cfg maxKernelRegister a u u') : Sound u' := by
  obtain ⟨howned, hlogged, hd⟩ := h
  cases hs with
  | register k hr =>
    refine ⟨howned, hlogged, hd.queue, hd.inactive, hd.unsent, hd.own, fun l hl r hmem ht => ?_⟩
    rw [bodies_registerNdpKernel hr]
    split
    case isTrue heq => exact hc l hl r hmem ht heq
    case isFalse => exact hd.divides l hl r hmem ht
  | @launch t h g' kinfo plan fresh hl =>
    have hnew {l : Nat} (hl : (h.launches.lookup l).isSome) : l ≠ kinfo.launchId := by
      rintro rfl
      rw [fresh] at hl
      cases hl
    refine ⟨?_, fun r hr => ?_, ?_⟩
    · refine (howned.mono fun l hl => ?_).launch ?_ hl
      · simp only [History.afterLaunch, AList.lookup_insert_ne (hnew hl)]
        exact hl
      · simp only [History.afterLaunch, AList.lookup_insert, Option.isSome_some]
    · obtain ⟨-, ⟨-, rfl⟩ | ⟨-, -, rfl⟩ | ⟨-, -, rfl⟩⟩ := launch_cases hl
      · exact hlogged r hr
      · exact (checkKernelLaunch_changes _ _).sent_grows.subset (hlogged r hr)
      · exact (checkKernelLaunch_changes _ _).sent_grows.subset (hlogged r hr)
    · have hbodies : kinfo.kernelId ∈ (cfg.withTables t).registeredFunctions →
          matched (cfg.withTables t) kinfo ≠ [] →
          0 < (cfg.withTables t).numKernelBodies kinfo.kernelId := hc
      exact hd.launch
        (fun hmem => hnew (howned.queue _ hmem) rfl) (fun hmem => hnew (howned.active _ hmem) rfl)
        (fun r hr => hnew (howned.sent r hr)) hbodies hl
  | @run t h h' hs hsame =>
    have hchanges {g' : UThreadGenerator} (hch : Changes (cfg.withTables t) h.gen g') :
        Sound ⟨t, { h with gen := g', log := h.log ++ History.pushes h.gen g' }⟩ := by
      refine ⟨howned.changes hch, fun r hr => ?_, hd.changes hch⟩
      rcases List.mem_append.mp hr with hr | hr
      · exact hch.sent_grows.subset (hlogged r hr)
      · obtain ⟨r', hr', heq⟩ := List.mem_map.mp hr
        obtain rfl := Event.push.inj heq
        exact List.mem_of_mem_drop hr'
    cases hs with
    | launch kinfo fresh hl =>
      -- a launch would be one more
      have hlook : h.launches.lookup kinfo.launchId ≠ none := by
        rw [← hsame, AList.lookup_insert]
        exact Option.some_ne_none _
      exact absurd fresh hlook
    | cycle hcycle => exact hchanges (cycle_changes hcycle)
    | generateUthreads threads hg => exact hchanges (generateUthreads_pushes hg).changes
    | take _ =>
      exact ⟨⟨howned.own, howned.sent, howned.active, howned.queue, howned.generated, howned.total,
        howned.count⟩, hlogged, hd.queue, hd.inactive, hd.unsent, hd.own, hd.divides⟩
    | complete r hp hcomplete =>
      have hr := hlogged r hp
      refine ⟨howned.complete (howned.sent r hr), fun q hq => ?_, hd.complete hr⟩
      dsimp only at hq ⊢
      rw [(History.complete_spec h.gen r).1]
      exact hlogged q (by simpa using hq)

theorem Run.sound (hrun : Run cfg maxKernelRegister (Fits cfg) u) : Sound u := by
  induction hrun with
  | start =>
    refine ⟨⟨?_, ?_, ?_, ?_, ?_, ?_, ?_⟩, ?_, ⟨?_, ?_, ?_, ?_, ?_⟩⟩ <;>
      simp [RegisteredUnit.start, create, UThreadGenerator.generated]
  | step _ hc hs ih => exact ih.step hc hs

/-- If every registration and every launch fits, then no division of the issue check is by zero, at
no state the generator passes through in a step. -/
theorem issue_check_divides (hrun : Run cfg maxKernelRegister (Fits cfg) u)
    {g : UThreadGenerator} (hg : Changes (cfg.withTables u.tables) u.history.gen g) :
    ∀ info ∈ g.evaluated (cfg.withTables u.tables),
      Divides (cfg.withTables u.tables) g info := by
  have hd : Divisible (cfg.withTables u.tables).numKernelBodies u.history.gen :=
    hrun.sound.divisible
  exact (hd.changes hg).evaluated

open History in
/-- A kernel of one body, launched. -/
theorem issue_check_divides_sample : ∃ u, Run sampleConfig 2 (Fits sampleConfig) u ∧
    u.history.gen.activeLaunchIds = {0} ∧
    ∀ info ∈ u.history.gen.evaluated (sampleConfig.withTables u.tables),
      Divides (sampleConfig.withTables u.tables) u.history.gen info := by
  have h₁ : Run sampleConfig 2 (Fits sampleConfig) _ :=
    .step .start (by simp [Fits, Underway, start, create])
      (.register (KernelTables.bodiesOnly 1) rfl)
  have h₂ := h₁.step (a := .launch sampleLaunch) (fun _ _ => Nat.zero_lt_one)
    (.launch sampleLaunch [] rfl (ok_getD (d := create) (by decide +kernel)))
  exact ⟨_, h₂, by decide +kernel, issue_check_divides h₂ .refl⟩

open History in
/-- A kernel without a body, launched: after the initializer, the first division is by zero. -/
theorem issue_check_divides_by_zero : ∃ u, Run sampleConfig 2 (fun _ _ => True) u ∧
    (∃ info ∈ u.history.gen.evaluated (sampleConfig.withTables u.tables),
      u.history.gen.count info.launchId ≠ 0 ∧
      ¬ Divides (sampleConfig.withTables u.tables) u.history.gen info) ∧
    getNextLaunchId (sampleConfig.withTables u.tables) u.history.gen = .error .undefined := by
  have h₁ : Run sampleConfig 2 (fun _ _ => True) _ :=
    .step .start trivial (.register (KernelTables.bodiesOnly 0) rfl)
  have h₂ := h₁.step trivial
    (.launch sampleLaunch [] rfl (ok_getD (d := create) (by decide +kernel)))
  have h₃ := h₂.step trivial (.run (.cycle (ok_getD (d := create) (by decide +kernel))) rfl)
  have h₄ := h₃.step trivial (.run (.complete (mkRequest sampleLaunch 0 .initializer 0 0 0)
    (by decide +kernel) (by decide +kernel)) rfl)
  exact ⟨_, h₄, ⟨mkRequest sampleLaunch 1 .kernelBody 0 0 0, by decide +kernel, by decide +kernel,
    by decide +kernel⟩, by decide +kernel⟩

end RegisteredUnit

end NdpSim
