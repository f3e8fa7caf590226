import NdpSim.Timing.Barrier
import NdpSim.Timing.GeneratorSteps

/-!
# The tables of the generator

A launch is entered into the launch table before anything about it is checked, and is taken out of
the tables by its finalizer before the finalizer itself is counted. So a rejected launch stays in
the launch table, and a finished one in the table of completion counts; only a launch that owns no
packet leaves nothing behind.
-/
namespace NdpSim

open Library

namespace UThreadGenerator

variable {cfg : GeneratorConfig} {g g' : UThreadGenerator} {kinfo : KernelLaunchInfo}

/-! ## Rejected launches -/

/-- What the rest of the unit and the host see of the generator is the same. -/
structure SameOutside (g g' : UThreadGenerator) : Prop where
  isActive : g'.isActive = g.isActive
  isLaunchActive : ∀ l, g'.isLaunchActive l = g.isLaunchActive l
  launchQueue : g'.launchQueue = g.launchQueue
  activeLaunchIds : g'.activeLaunchIds = g.activeLaunchIds
  generatedRequests : g'.generatedRequests = g.generatedRequests
  totalRequests : g'.totalRequests = g.totalRequests
  countRequests : g'.countRequests = g.countRequests
  allocated : g'.getAllocatedSpadSize = g.getAllocatedSpadSize

theorem isLaunchActive_entered (g : UThreadGenerator) (kinfo : KernelLaunchInfo) (l : Nat) :
    (g.entered kinfo).isLaunchActive l = (l == kinfo.launchId || g.isLaunchActive l) := by
  simp only [isLaunchActive, entered, Binding.lookup_insert_eq_ite]
  split <;> simp_all

theorem smemSize_entered (g : UThreadGenerator) (kinfo : KernelLaunchInfo) (l : Nat) :
    (g.entered kinfo).smemSize l = if l = kinfo.launchId then kinfo.smemSize else g.smemSize l := by
  simp only [smemSize, entered, Binding.lookup_insert_eq_ite]
  split <;> rfl

theorem isActive_of_isLaunchActive {l : Nat} (h : g.isLaunchActive l = true) :
    g.isActive = true := by
  obtain ⟨kinfo, hk⟩ := Option.isSome_iff_exists.mp h
  have hmem := AList.mem_lookup_iff.mp hk
  rw [isActive, Bool.not_eq_true', List.isEmpty_eq_false_iff]
  exact List.ne_nil_of_mem hmem

/-- The scratchpad in use changes with the entry of an active launch. -/
theorem allocated_entered (g : UThreadGenerator) (kinfo : KernelLaunchInfo) :
    (g.entered kinfo).getAllocatedSpadSize = g.getAllocatedSpadSize ↔
      (kinfo.launchId ∈ g.activeLaunchIds →
        g.smemSize kinfo.launchId % 2 ^ 32 = kinfo.smemSize % 2 ^ 32) := by
  simp only [getAllocatedSpadSize, smemSize_entered]
  rw [show (g.entered kinfo).activeLaunchIds = g.activeLaunchIds from rfl]
  by_cases hact : kinfo.launchId ∈ g.activeLaunchIds
  · have hrest : ∑ l ∈ g.activeLaunchIds.erase kinfo.launchId,
        (if l = kinfo.launchId then kinfo.smemSize else g.smemSize l) =
        ∑ l ∈ g.activeLaunchIds.erase kinfo.launchId, g.smemSize l :=
      Finset.sum_congr rfl fun l hl => if_neg (Finset.ne_of_mem_erase hl)
    rw [← Finset.add_sum_erase _ _ hact, ← Finset.add_sum_erase _ _ hact, hrest, if_pos rfl]
    simp only [hact, forall_const]
    omega
  · have hsame : ∑ l ∈ g.activeLaunchIds,
        (if l = kinfo.launchId then kinfo.smemSize else g.smemSize l) =
        ∑ l ∈ g.activeLaunchIds, g.smemSize l :=
      Finset.sum_congr rfl fun l hl => if_neg (ne_of_mem_of_not_mem hl hact)
    simp [hact, hsame]

/-- A launch of an unregistered kernel leaves no trace only if its number is in the launch table
already and, should that launch be active, with the same scratchpad size. -/
theorem rejected_unseen_iff (hl : g.launch cfg kinfo = .ok g')
    (hreg : kinfo.kernelId ∉ cfg.registeredFunctions) :
    SameOutside g g' ↔ g.isLaunchActive kinfo.launchId = true ∧
      (kinfo.launchId ∈ g.activeLaunchIds →
        g.smemSize kinfo.launchId % 2 ^ 32 = kinfo.smemSize % 2 ^ 32) := by
  obtain ⟨-, ⟨-, rfl⟩ | ⟨hin, -⟩ | ⟨hin, -⟩⟩ := launch_cases hl
  · constructor
    · intro h
      refine ⟨?_, (allocated_entered g kinfo).mp h.allocated⟩
      rw [← h.isLaunchActive, isLaunchActive_entered]
      simp
    · rintro ⟨hact, hsize⟩
      have hsame (l : Nat) : (g.entered kinfo).isLaunchActive l = g.isLaunchActive l := by
        rw [isLaunchActive_entered]
        by_cases heq : l = kinfo.launchId
        · simp [heq, hact]
        · simp [heq]
      refine ⟨?_, hsame, rfl, rfl, rfl, rfl, rfl, (allocated_entered g kinfo).mpr hsize⟩
      rw [isActive_of_isLaunchActive hact,
        isActive_of_isLaunchActive (l := kinfo.launchId) (by rw [hsame, hact])]
  · exact absurd hin hreg
  · exact absurd hin hreg

/-- A launch of a kernel that was never registered. -/
def strayLaunch : KernelLaunchInfo := { History.sampleLaunch with kernelId := 1 }

/-- The second launch under the same number changes nothing more. -/
theorem rejected_unseen_again : ∃ g, (create.entered strayLaunch).launch History.sampleConfig
    strayLaunch = .ok g ∧ SameOutside (create.entered strayLaunch) g := by
  have h : (create.entered strayLaunch).launch History.sampleConfig strayLaunch =
      .ok ((create.entered strayLaunch).entered strayLaunch) := rfl
  exact ⟨_, h, (rejected_unseen_iff h (by decide)).mpr (by decide)⟩

/-- On a new generator the rejected launch is active. -/
theorem rejected_seen : ∃ g, create.launch History.sampleConfig strayLaunch = .ok g ∧
    strayLaunch.kernelId ∉ History.sampleConfig.registeredFunctions ∧ ¬ SameOutside create g := by
  refine ⟨_, rfl, by decide, fun h => ?_⟩
  exact absurd h.isActive (by decide)

/-! ## Who is in the tables -/

/-- Only launches in `S` are in the tables other than the launch table, and have requests. -/
structure Owned (S : Nat → Prop) (g : UThreadGenerator) : Prop where
  own : ∀ l, ∀ r ∈ g.generated l, r.launchId = l
  sent : ∀ r ∈ g.sent, S r.launchId
  active : ∀ l ∈ g.activeLaunchIds, S l
  queue : ∀ l ∈ g.launchQueue, S l
  generated : ∀ l, (g.generatedRequests.lookup l).isSome → S l
  total : ∀ l, (g.totalRequests.lookup l).isSome → S l
  count : ∀ l, (g.countRequests.lookup l).isSome → S l

namespace Owned

variable {S S' : Nat → Prop}

theorem mono (h : Owned S g) (hS : ∀ l, S l → S' l) : Owned S' g :=
  ⟨h.own, fun r hr => hS _ (h.sent r hr), fun l hl => hS _ (h.active l hl),
    fun l hl => hS _ (h.queue l hl), fun l hl => hS _ (h.generated l hl),
    fun l hl => hS _ (h.total l hl), fun l hl => hS _ (h.count l hl)⟩

theorem push (h : Owned S g) (hs : Push cfg g g') : Owned S g' := by
  cases hs with
  | push l info rest hl hg =>
    have hown : info.launchId = l := h.own l info (by rw [hg]; exact List.mem_cons_self)
    refine ⟨fun l' r hr => ?_, fun r hr => ?_, h.active, h.queue, fun l' hl' => ?_, h.total,
      h.count⟩
    · rw [UThreadGenerator.generated, UThreadGenerator.push, Binding.lookup_insert_eq_ite] at hr
      split at hr
      case isTrue heq =>
        subst heq
        exact h.own l' r (by rw [hg]; exact List.mem_cons_of_mem _ hr)
      case isFalse => exact h.own l' r hr
    · rcases List.mem_append.mp hr with hr | hr
      · exact h.sent r hr
      · rw [List.mem_singleton.mp hr, hown]
        exact h.active l hl
    · rw [UThreadGenerator.push, Binding.lookup_insert_eq_ite] at hl'
      split at hl'
      case isTrue heq => exact heq ▸ h.active l hl
      case isFalse => exact h.generated l' hl'
  | unlaunch => exact ⟨h.own, h.sent, h.active, h.queue, h.generated, h.total, h.count⟩

theorem change (h : Owned S g) (hs : Change cfg g g') : Owned S g' := by
  cases hs with
  | activate l rest hq =>
    have hl : S l := h.queue l (by rw [hq]; exact List.mem_cons_self)
    refine ⟨h.own, h.sent, fun l' hl' => ?_, fun l' hl' => ?_, h.generated, h.total, h.count⟩
    · rcases Finset.mem_insert.mp hl' with rfl | hl'
      · exact hl
      · exact h.active l' hl'
    · exact h.queue l' (by rw [hq]; exact List.mem_cons_of_mem _ hl')
  | push hs => exact h.push hs

theorem changes (h : Owned S g) (hs : Changes cfg g g') : Owned S g' :=
  hs.induct (fun _ _ hs h => Owned.change h hs) h

theorem passedOver (h : Owned S g) (kinfo : KernelLaunchInfo) : Owned S (g.passedOver kinfo) := by
  have hkeep {b : Binding Nat Nat} {l : Nat}
      (hl : (AList.lookup l ((b.insert kinfo.launchId 0).erase kinfo.launchId)).isSome) :
      (b.lookup l).isSome := by
    rw [Binding.lookup_erase_eq_ite] at hl
    split at hl
    case isTrue => cases hl
    case isFalse hne => rwa [AList.lookup_insert_ne hne] at hl
  exact ⟨h.own, h.sent, fun l hl => h.active l (Finset.mem_of_mem_erase hl), h.queue, h.generated,
    fun l hl => h.total l (hkeep hl), fun l hl => h.count l (hkeep hl)⟩

theorem enqueued (h : Owned S g) (hS : S kinfo.launchId) {requests : List RequestInfo}
    (hreq : ∀ r ∈ requests, r.launchId = kinfo.launchId) : Owned S (g.enqueued kinfo requests) := by
  have hkeep {α : Type} {b : Binding Nat α} {x : α} {l : Nat}
      (hb : ∀ l, (b.lookup l).isSome → S l)
      (hl : (AList.lookup l (b.insert kinfo.launchId x)).isSome) : S l := by
    rw [Binding.lookup_insert_eq_ite] at hl
    split at hl
    case isTrue heq => rwa [heq]
    case isFalse => exact hb l hl
  refine ⟨fun l r hr => ?_, h.sent, h.active, fun l hl => ?_, fun l => hkeep h.generated,
    fun l => hkeep h.total, fun l => hkeep h.count⟩
  · rw [UThreadGenerator.generated, UThreadGenerator.enqueued,
      Binding.lookup_insert_eq_ite] at hr
    split at hr
    case isTrue heq => exact (hreq r hr).trans heq.symm
    case isFalse => exact h.own l r hr
  · rcases List.mem_append.mp hl with hl | hl
    · exact h.queue l hl
    · rwa [List.mem_singleton.mp hl]

theorem launch (h : Owned S g) (hS : S kinfo.launchId) (hl : g.launch cfg kinfo = .ok g') :
    Owned S g' := by
  obtain ⟨-, ⟨-, rfl⟩ | ⟨-, -, rfl⟩ | ⟨-, -, rfl⟩⟩ := launch_cases hl
  · exact ⟨h.own, h.sent, h.active, h.queue, h.generated, h.total, h.count⟩
  · exact (h.passedOver kinfo).changes (checkKernelLaunch_changes cfg _)
  · refine (h.enqueued hS fun r hr => ?_).changes (checkKernelLaunch_changes cfg _)
    obtain ⟨_, _, _, _, _, rfl, -⟩ := History.mem_launchRequests hr
    rfl

theorem finishLaunch (h : Owned S g) (l : Nat) : Owned S (g.finishLaunch l) := by
  have hkeep {b : Binding Nat Nat} {l' : Nat} (hl : (AList.lookup l' (b.erase l)).isSome) :
      (b.lookup l').isSome := by
    rw [Binding.lookup_erase_eq_ite] at hl
    split at hl
    case isTrue => cases hl
    case isFalse => exact hl
  exact ⟨h.own, h.sent, fun l' hl => h.active l' (Finset.mem_of_mem_erase hl), h.queue,
    h.generated, fun l' hl => h.total l' (hkeep hl), fun l' hl => h.count l' (hkeep hl)⟩

theorem increaseCount (h : Owned S g) {l : Nat} (hl : S l) : Owned S (g.increaseCount l) := by
  refine ⟨h.own, h.sent, h.active, h.queue, h.generated, h.total, fun l' hl' => ?_⟩
  rw [UThreadGenerator.increaseCount, Binding.lookup_insert_eq_ite] at hl'
  split at hl'
  case isTrue heq => rwa [heq]
  case isFalse => exact h.count l' hl'

theorem complete (h : Owned S g) {r : RequestInfo} (hr : S r.launchId) :
    Owned S (g.complete r) := by
  unfold UThreadGenerator.complete
  split
  · exact (h.finishLaunch r.launchId).increaseCount hr
  · exact h.increaseCount hr

end Owned

/-- No table mentions the launch. -/
structure Forgotten (g : UThreadGenerator) (l : Nat) : Prop where
  launchInfos : g.launchInfos.lookup l = none
  activeLaunchIds : l ∉ g.activeLaunchIds
  totalRequests : g.totalRequests.lookup l = none
  countRequests : g.countRequests.lookup l = none
  generatedRequests : g.generatedRequests.lookup l = none

theorem Owned.forgotten {S : Nat → Prop} (h : Owned S g) {l : Nat} (hl : ¬ S l)
    (hinfo : g.launchInfos.lookup l = none) : Forgotten g l := by
  refine ⟨hinfo, fun ha => hl (h.active l ha), ?_, ?_, ?_⟩
  · exact Option.eq_none_iff_forall_ne_some.mpr fun n hn => hl (h.total l (by simp [hn]))
  · exact Option.eq_none_iff_forall_ne_some.mpr fun n hn => hl (h.count l (by simp [hn]))
  · exact Option.eq_none_iff_forall_ne_some.mpr fun n hn => hl (h.generated l (by simp [hn]))

end UThreadGenerator

/-! ## Histories -/

namespace History

open UThreadGenerator

variable {cfg : GeneratorConfig} {h : History}

/-- A launch of a registered kernel that owns a packet. -/
def Served (cfg : GeneratorConfig) (h : History) (l : Nat) : Prop :=
  ∃ kinfo plan, h.launches.lookup l = some (kinfo, plan) ∧
    kinfo.kernelId ∈ cfg.registeredFunctions ∧ matched cfg kinfo ≠ []

/-- The history after a launch. -/
def afterLaunch (h : History) (kinfo : KernelLaunchInfo) (plan : List RequestInfo)
    (g : UThreadGenerator) : History :=
  { h with gen := g, launches := h.launches.insert kinfo.launchId (kinfo, plan) }

structure Tabled (cfg : GeneratorConfig) (h : History) : Prop where
  owned : Owned (h.Served cfg) h.gen
  logged : ∀ r, .push r ∈ h.log → r ∈ h.gen.sent
  /-- A launch that is in the launch table waits to be served, or never will be. -/
  infos : ∀ l, h.gen.isLaunchActive l = true → ∃ kinfo plan,
    h.launches.lookup l = some (kinfo, plan) ∧
      (kinfo.kernelId ∈ cfg.registeredFunctions → matched cfg kinfo ≠ [])
  rejected : ∀ l kinfo plan, h.launches.lookup l = some (kinfo, plan) →
    kinfo.kernelId ∉ cfg.registeredFunctions → h.gen.isLaunchActive l = true
  counted : ∀ r, .complete r ∈ h.log → (h.gen.countRequests.lookup r.launchId).isSome

namespace Tabled

theorem start : Tabled cfg ⟨.create, ∅, []⟩ := by
  refine ⟨⟨?_, ?_, ?_, ?_, ?_, ?_, ?_⟩, ?_, ?_, ?_, ?_⟩ <;>
    simp [create, UThreadGenerator.generated, isLaunchActive]

theorem changes (ht : Tabled cfg h) {g' : UThreadGenerator} (hs : Changes cfg h.gen g') :
    Tabled cfg { h with gen := g', log := h.log ++ pushes h.gen g' } := by
  have hcount : g'.countRequests = h.gen.countRequests := by
    refine hs.induct (I := fun g' => g'.countRequests = h.gen.countRequests)
      (fun _ _ hs hi => ?_) rfl
    cases hs with
    | activate => exact hi
    | push hs => cases hs <;> exact hi
  refine ⟨ht.owned.changes hs, fun r hr => ?_, fun l hl => ?_, fun l kinfo plan hl hreg => ?_,
    fun r hr => ?_⟩
  · rcases List.mem_append.mp hr with hr | hr
    · exact hs.sent_grows.subset (ht.logged r hr)
    · obtain ⟨r', hr', heq⟩ := List.mem_map.mp hr
      obtain rfl := Event.push.inj heq
      exact List.mem_of_mem_drop hr'
  · refine ht.infos l ?_
    rwa [isLaunchActive, hs.launchInfos_eq] at hl
  · have hact := ht.rejected l kinfo plan hl hreg
    rwa [isLaunchActive, ← hs.launchInfos_eq] at hact
  · rcases List.mem_append.mp hr with hr | hr
    · dsimp only
      rw [hcount]
      exact ht.counted r hr
    · obtain ⟨r', -, heq⟩ := List.mem_map.mp hr
      cases heq

variable {kinfo : KernelLaunchInfo} {plan : List RequestInfo}

theorem served_afterLaunch (fresh : h.launches.lookup kinfo.launchId = none) (g : UThreadGenerator)
    {l : Nat} (hl : h.Served cfg l) : (h.afterLaunch kinfo plan g).Served cfg l := by
  obtain ⟨kinfo', plan', hlook, hk⟩ := hl
  have hne : l ≠ kinfo.launchId := by
    rintro rfl
    rw [fresh] at hlook
    cases hlook
  exact ⟨kinfo', plan', by rw [History.afterLaunch, AList.lookup_insert_ne hne, hlook], hk⟩

/-- A launch keeps the invariant if it enters itself into the launch table unless it is passed
over. -/
theorem afterLaunch (ht : Tabled cfg h) (fresh : h.launches.lookup kinfo.launchId = none)
    {g' : UThreadGenerator} (howned : Owned ((h.afterLaunch kinfo plan g').Served cfg) g')
    (hsent : g'.sent = h.gen.sent)
    (hcount : ∀ l, l ≠ kinfo.launchId →
      g'.countRequests.lookup l = h.gen.countRequests.lookup l)
    (hother : ∀ l, l ≠ kinfo.launchId → g'.isLaunchActive l = h.gen.isLaunchActive l)
    (hself : g'.isLaunchActive kinfo.launchId = true ↔
      (kinfo.kernelId ∈ cfg.registeredFunctions → matched cfg kinfo ≠ [])) :
    Tabled cfg (h.afterLaunch kinfo plan g') := by
  refine ⟨howned, fun r hr => ?_, fun l hl => ?_, fun l kinfo' plan' hl hreg => ?_,
    fun r hr => ?_⟩
  · rw [History.afterLaunch, hsent]
    exact ht.logged r hr
  · by_cases heq : l = kinfo.launchId
    · subst heq
      exact ⟨kinfo, plan, AList.lookup_insert _, hself.mp hl⟩
    · obtain ⟨kinfo', plan', hlook, hk⟩ := ht.infos l (by rw [← hother l heq]; exact hl)
      exact ⟨kinfo', plan', by rw [History.afterLaunch, AList.lookup_insert_ne heq, hlook], hk⟩
  · by_cases heq : l = kinfo.launchId
    · subst heq
      rw [History.afterLaunch, AList.lookup_insert] at hl
      obtain ⟨rfl, -⟩ := Prod.mk.inj (Option.some_inj.mp hl)
      exact hself.mpr fun hin => absurd hin hreg
    · rw [History.afterLaunch, AList.lookup_insert_ne heq] at hl
      exact (hother l heq).trans (ht.rejected l kinfo' plan' hl hreg)
  · have hserved := ht.counted r hr
    have hne : r.launchId ≠ kinfo.launchId := by
      intro heq
      obtain ⟨kinfo', plan', hlook, -⟩ := ht.owned.count r.launchId hserved
      rw [heq, fresh] at hlook
      cases hlook
    rw [History.afterLaunch, hcount _ hne]
    exact hserved

theorem launch (ht : Tabled cfg h) (fresh : h.launches.lookup kinfo.launchId = none)
    {g' : UThreadGenerator} (hl : h.gen.launch cfg kinfo = .ok g') :
    Tabled cfg (h.afterLaunch kinfo plan g') := by
  have hmono : Owned ((h.afterLaunch kinfo plan g').Served cfg) h.gen :=
    ht.owned.mono fun _ => served_afterLaunch fresh g'
  obtain ⟨-, ⟨hreg, rfl⟩ | ⟨hreg, hm, rfl⟩ | ⟨hreg, hm, rfl⟩⟩ := launch_cases hl
  · refine ht.afterLaunch fresh ?_ rfl (fun _ _ => rfl) (fun l hne => ?_) ?_
    · exact ⟨hmono.own, hmono.sent, hmono.active, hmono.queue, hmono.generated, hmono.total,
        hmono.count⟩
    · rw [isLaunchActive_entered, beq_eq_false_iff_ne.mpr hne, Bool.false_or]
    · rw [isLaunchActive_entered]
      simp [hreg]
  · -- the launch takes itself out of the tables again
    have hnone {l : Nat} (hne : l ≠ kinfo.launchId) {b : Binding Nat Nat} :
        AList.lookup l ((b.insert kinfo.launchId 0).erase kinfo.launchId) = b.lookup l := by
      rw [AList.lookup_erase_ne hne, AList.lookup_insert_ne hne]
    obtain ⟨hsent, hcount, hinfos⟩ := checkKernelLaunch_keeps cfg (h.gen.passedOver kinfo)
    refine ht.afterLaunch fresh
      ((hmono.passedOver kinfo).changes (checkKernelLaunch_changes cfg _)) hsent
      (fun l hne => ?_) (fun l hne => ?_) ?_
    · rw [hcount]
      exact hnone hne
    · rw [isLaunchActive, hinfos, isLaunchActive, passedOver, finishLaunch, entered,
        AList.lookup_erase_ne hne, AList.lookup_insert_ne hne]
    · rw [isLaunchActive, hinfos, passedOver, finishLaunch, AList.lookup_erase]
      simp [hreg, hm]
  · obtain ⟨hsent, hcount, hinfos⟩ := checkKernelLaunch_keeps cfg
      (h.gen.enqueued kinfo (launchRequests cfg kinfo h.gen.globalReqId))
    refine ht.afterLaunch fresh ?_ hsent (fun l hne => ?_) (fun l hne => ?_) ?_
    · refine (hmono.enqueued ⟨kinfo, plan, AList.lookup_insert _, hreg, hm⟩
        fun r hr => ?_).changes (checkKernelLaunch_changes cfg _)
      obtain ⟨_, _, _, _, _, rfl, -⟩ := mem_launchRequests hr
      rfl
    · rw [hcount, enqueued, AList.lookup_insert_ne hne]
    · rw [isLaunchActive, hinfos, isLaunchActive, enqueued, entered, AList.lookup_insert_ne hne]
    · rw [isLaunchActive, hinfos, enqueued, entered, AList.lookup_insert]
      simp [hm]

theorem complete (ht : Tabled cfg h) {r : RequestInfo} (hp : .push r ∈ h.log) :
    Tabled cfg { h with gen := h.gen.complete r, log := h.log ++ [.complete r] } := by
  have hserved : h.Served cfg r.launchId := ht.owned.sent r (ht.logged r hp)
  have hsent : (h.gen.complete r).sent = h.gen.sent := (complete_spec h.gen r).1
  have hactive {l : Nat} (hl : (h.gen.complete r).isLaunchActive l = true) :
      h.gen.isLaunchActive l = true := by
    unfold UThreadGenerator.complete at hl
    split at hl
    · simp only [isLaunchActive, increaseCount, finishLaunch, Binding.lookup_erase_eq_ite] at hl
      split at hl
      case isTrue => cases hl
      case isFalse => exact hl
    · exact hl
  refine ⟨ht.owned.complete hserved, fun q hq => ?_, fun l hl => ht.infos l (hactive hl),
    fun l kinfo plan hl hreg => ?_, fun q hq => ?_⟩
  · dsimp only
    rw [hsent]
    exact ht.logged q (by simpa using hq)
  · -- a rejected launch has no requests
    have hne : l ≠ r.launchId := by
      rintro rfl
      obtain ⟨kinfo', plan', hlook, hin, -⟩ := hserved
      rw [hl] at hlook
      obtain ⟨rfl, -⟩ := Prod.mk.inj (Option.some_inj.mp hlook)
      exact hreg hin
    have hact := ht.rejected l kinfo plan hl hreg
    unfold UThreadGenerator.complete
    split
    · simpa [isLaunchActive, increaseCount, finishLaunch, AList.lookup_erase_ne hne] using hact
    · exact hact
  · have hinsert : (h.gen.complete r).countRequests.lookup q.launchId =
        if q.launchId = r.launchId then
          (h.gen.complete r).countRequests.lookup r.launchId
        else h.gen.countRequests.lookup q.launchId := by
      split
      case isTrue heq => rw [heq]
      case isFalse hne =>
        unfold UThreadGenerator.complete
        split <;> simp [increaseCount, finishLaunch, AList.lookup_insert_ne hne,
          AList.lookup_erase_ne hne]
    have hself : ((h.gen.complete r).countRequests.lookup r.launchId).isSome := by
      unfold UThreadGenerator.complete
      split <;> simp [increaseCount]
    dsimp only
    rw [hinsert]
    split
    case isTrue => exact hself
    case isFalse hne =>
      refine ht.counted q ?_
      rcases List.mem_append.mp hq with hq | hq
      · exact hq
      · rw [Event.complete.inj (List.mem_singleton.mp hq)] at hne
        exact absurd rfl hne

end Tabled

theorem Run.tabled (hr : Run cfg h) : Tabled cfg h := by
  induction hr with
  | refl => exact Tabled.start
  | tail _ hs ih =>
    cases hs with
    | launch kinfo fresh hl => exact ih.launch fresh hl
    | cycle hc => exact ih.changes (cycle_changes hc)
    | generateUthreads threads hg => exact ih.changes ((generateUthreads_pushes hg).changes)
    | take _ =>
      exact ⟨⟨ih.owned.own, ih.owned.sent, ih.owned.active, ih.owned.queue, ih.owned.generated,
        ih.owned.total, ih.owned.count⟩, ih.logged, ih.infos, ih.rejected, ih.counted⟩
    | complete r hp hc => exact ih.complete hp

/-- A rejected launch stays active for ever. -/
theorem rejected_stays {l : Nat} {kinfo : KernelLaunchInfo} {plan : List RequestInfo}
    (hrun : Run cfg h) (hl : h.launches.lookup l = some (kinfo, plan))
    (hreg : kinfo.kernelId ∉ cfg.registeredFunctions) : h.gen.isLaunchActive l = true :=
  hrun.tabled.rejected l kinfo plan hl hreg

/-- A launch is over when its finalizer has completed, or at once if it owns no packet. -/
def Over (cfg : GeneratorConfig) (h : History) (l : Nat) (kinfo : KernelLaunchInfo) : Prop :=
  matched cfg kinfo = [] ∨
    ∃ r, .complete r ∈ h.log ∧ r.launchId = l ∧ r.type = .finalizer

/-- Of the launches that are over, the tables forget those of registered kernels that own no
packet, and no others. -/
theorem over_forgotten_iff {l : Nat} {kinfo : KernelLaunchInfo} {plan : List RequestInfo}
    (hrun : Run cfg h) (hl : h.launches.lookup l = some (kinfo, plan))
    (hover : h.Over cfg l kinfo) :
    Forgotten h.gen l ↔ matched cfg kinfo = [] ∧ kinfo.kernelId ∈ cfg.registeredFunctions := by
  have ht := hrun.tabled
  constructor
  · intro hf
    rcases hover with hm | ⟨r, hr, rfl, -⟩
    · refine ⟨hm, ?_⟩
      by_contra hreg
      have hact := ht.rejected l kinfo plan hl hreg
      rw [isLaunchActive, hf.launchInfos] at hact
      cases hact
    · have hcount := ht.counted r hr
      rw [hf.countRequests] at hcount
      cases hcount
  · rintro ⟨hm, hreg⟩
    refine ht.owned.forgotten ?_ ?_
    · rintro ⟨kinfo', plan', hlook, -, hne⟩
      rw [hl] at hlook
      obtain ⟨rfl, -⟩ := Prod.mk.inj (Option.some_inj.mp hlook)
      exact hne hm
    · by_contra hsome
      obtain ⟨kinfo', plan', hlook, hne⟩ :=
        ht.infos l (Option.isSome_iff_ne_none.mpr hsome)
      rw [hl] at hlook
      obtain ⟨rfl, -⟩ := Prod.mk.inj (Option.some_inj.mp hlook)
      exact hne hreg hm

/-- A launch of no packets. -/
def emptyLaunch : KernelLaunchInfo := { sampleLaunch with size := 0 }

theorem over_forgotten_empty : ∃ h, Run sampleConfig h ∧ Forgotten h.gen 0 := by
  have hrun : Run sampleConfig _ :=
    .single (.launch emptyLaunch rfl (ok_getD (d := create) (by decide +kernel)))
  exact ⟨_, hrun, (over_forgotten_iff (l := 0) hrun (AList.lookup_insert _)
    (.inl (by decide))).mpr (by decide)⟩

/-- The whole of a launch of one packet; at the end its completions are still counted. -/
theorem over_not_forgotten : ∃ h, Run sampleConfig h ∧ h.Over sampleConfig 0 sampleLaunch ∧
    ¬ Forgotten h.gen 0 := by
  have h₁ : Run sampleConfig _ :=
    .single (.launch sampleLaunch rfl (ok_getD (d := create) (by decide +kernel)))
  have h₂ := h₁.tail (.cycle (ok_getD (d := create) (by decide +kernel)))
  have h₃ := h₂.tail (.complete (mkRequest sampleLaunch 0 .initializer 0 0 0)
    (by decide +kernel) (by decide +kernel))
  have h₄ := h₃.tail (.cycle (ok_getD (d := create) (by decide +kernel)))
  have h₅ := h₄.tail (.complete (mkRequest sampleLaunch 1 .kernelBody 0 0 0)
    (by decide +kernel) (by decide +kernel))
  have h₆ := h₅.tail (.cycle (ok_getD (d := create) (by decide +kernel)))
  have h₇ := h₆.tail (.complete (mkRequest sampleLaunch 2 .finalizer 0 0 0)
    (by decide +kernel) (by decide +kernel))
  refine ⟨_, h₇, .inr ⟨mkRequest sampleLaunch 2 .finalizer 0 0 0, by decide +kernel, rfl, rfl⟩,
    fun hf => ?_⟩
  exact absurd hf.countRequests (by decide +kernel)

end History

end NdpSim
