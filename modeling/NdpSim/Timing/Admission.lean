import NdpSim.Timing.LaunchTables

/-!
# Admission of launches

Launches wait in a queue until scratchpad and launch slots allow them to become active. The test
keeps a reserve of 8192 bytes that the assertion at the launch does not know of: with the reserve
respected by the configuration and by every launch, the active launches fit, and the queue cannot
be blocked.
-/
namespace NdpSim

open Library

namespace History

open UThreadGenerator

variable {cfg : GeneratorConfig} {h h' : History} {started : List Nat}

/-- The launches that become active in a step. -/
def starts (g g' : UThreadGenerator) : List Nat :=
  (g'.activeLaunchIds \ g.activeLaunchIds).sort

/-- A history with the launches in the order in which they became active. -/
inductive Activations (cfg : GeneratorConfig) : History → List Nat → Prop
  | start : Activations cfg ⟨.create, ∅, []⟩ []
  | step {h h' : History} {started : List Nat} (ha : Activations cfg h started)
      (hs : Step cfg h h') : Activations cfg h' (started ++ starts h.gen h'.gen)

theorem Activations.run (ha : Activations cfg h started) : Run cfg h := by
  induction ha with
  | start => exact .refl
  | step _ hs ih => exact ih.tail hs

/-- The launches of a history that have requests, in launch order. -/
def servedOrder (cfg : GeneratorConfig) (h : History) : List Nat :=
  h.launches.keys.reverse.filter fun l =>
    match h.launches.lookup l with
    | some (kinfo, _) => kinfo.kernelId ∈ cfg.registeredFunctions ∧ matched cfg kinfo ≠ []
    | none => false

/-- Scratchpad in use by the active launches. -/
def spadInUse (g : UThreadGenerator) : Nat := ∑ l ∈ g.activeLaunchIds, g.smemSize l

/-- What the queue and the active set have to do with the launches. -/
structure Admitted (cfg : GeneratorConfig) (h : History) (g : UThreadGenerator)
    (started : List Nat) : Prop where
  order : started ++ g.launchQueue = servedOrder cfg h
  active : ∀ l ∈ g.activeLaunchIds, l ∈ started
  info : ∀ l, l ∈ g.activeLaunchIds ∨ l ∈ g.launchQueue → ∃ kinfo plan,
    h.launches.lookup l = some (kinfo, plan) ∧ g.launchInfos.lookup l = some kinfo
  pushed : ∀ l ∈ g.sent.map RequestInfo.launchId, l ∈ started
  own : ∀ l, ∀ r ∈ g.generated l, r.launchId = l
  slots : g.activeLaunchIds.card ≤ cfg.maxKernelLaunch
  fits : 8192 ≤ cfg.spadSize → cfg.spadSize < 2 ^ 31 →
    (spadInUse g : Int) ≤ cfg.spadSize - 8192

theorem nodup_servedOrder (cfg : GeneratorConfig) (h : History) : (servedOrder cfg h).Nodup :=
  ((List.nodup_reverse.mpr h.launches.keys_nodup)).filter _

theorem starts_of_subset {g g' : UThreadGenerator}
    (hsub : g'.activeLaunchIds ⊆ g.activeLaunchIds) : starts g g' = [] := by
  rw [starts, Finset.sdiff_eq_empty_iff_subset.mpr hsub, Finset.sort_empty]

theorem starts_activate {g : UThreadGenerator} {l : Nat} (rest : List Nat)
    (hl : l ∉ g.activeLaunchIds) : starts g (g.activate l rest) = [l] := by
  have hdiff : insert l g.activeLaunchIds \ g.activeLaunchIds = {l} :=
    Finset.insert_sdiff_cancel hl
  rw [starts, activate, hdiff, Finset.sort_singleton]

theorem spadInUse_congr {g g' : UThreadGenerator} (hact : g'.activeLaunchIds = g.activeLaunchIds)
    (hinfo : ∀ l ∈ g.activeLaunchIds, g'.launchInfos.lookup l = g.launchInfos.lookup l) :
    spadInUse g' = spadInUse g := by
  rw [spadInUse, spadInUse, hact]
  refine Finset.sum_congr rfl fun l hl => ?_
  rw [smemSize, smemSize, hinfo l hl]

namespace Admitted

variable {g g' : UThreadGenerator}

theorem nodup (ha : Admitted cfg h g started) : (started ++ g.launchQueue).Nodup := by
  rw [ha.order]
  exact nodup_servedOrder cfg h

/-- A waiting launch has not been active yet. -/
theorem notMem_of_queued (ha : Admitted cfg h g started) {l : Nat} (hl : l ∈ g.launchQueue) :
    l ∉ started :=
  fun hs => List.disjoint_of_nodup_append ha.nodup hs hl

theorem head_inactive (ha : Admitted cfg h g started) {l : Nat} {rest : List Nat}
    (hq : g.launchQueue = l :: rest) : l ∉ g.activeLaunchIds := by
  intro hact
  exact ha.notMem_of_queued (by rw [hq]; exact List.mem_cons_self) (ha.active l hact)

theorem activate (ha : Admitted cfg h g started) {l : Nat} {rest : List Nat}
    (hq : g.launchQueue = l :: rest) (hadm : g.Admits cfg l) :
    Admitted cfg h (g.activate l rest) (started ++ [l]) := by
  have hnew := ha.head_inactive hq
  have hhead : l ∈ g.launchQueue := by
    rw [hq]
    exact List.mem_cons_self
  refine ⟨?_, fun l' hl' => ?_, fun l' hl' => ?_, fun l' hl' => ?_, ha.own, ?_,
    fun hlow hhigh => ?_⟩
  · rw [← ha.order, hq, UThreadGenerator.activate, List.append_assoc]
    rfl
  · rcases Finset.mem_insert.mp hl' with rfl | hl'
    · exact List.mem_append_right _ (List.mem_singleton_self _)
    · exact List.mem_append_left _ (ha.active l' hl')
  · refine ha.info l' ?_
    rcases hl' with hl' | hl'
    · rcases Finset.mem_insert.mp hl' with rfl | hl'
      · exact .inr hhead
      · exact .inl hl'
    · exact .inr (by rw [hq]; exact List.mem_cons_of_mem _ hl')
  · exact List.mem_append_left _ (ha.pushed l' hl')
  · rw [UThreadGenerator.activate, Finset.card_insert_of_notMem hnew]
    exact hadm.2
  · -- nothing is lost in the 32-bit sum
    have hsum := ha.fits hlow hhigh
    have hexact : g.getAllocatedSpadSize = spadInUse g := by
      rw [getAllocatedSpadSize]
      exact Nat.mod_eq_of_lt (by rw [spadInUse] at hsum; omega)
    have hfit : (g.smemSize l + g.getAllocatedSpadSize : Int) ≤ cfg.spadSize - 8192 := by
      rcases hadm.1 with hsmall | hfit
      · omega
      · exact hfit
    have hinsert : spadInUse (g.activate l rest) = g.smemSize l + spadInUse g := by
      rw [spadInUse, UThreadGenerator.activate, Finset.sum_insert hnew]
      rfl
    rw [hinsert]
    rw [hexact] at hfit
    push_cast
    exact hfit

theorem issue (ha : Admitted cfg h g started) {l : Nat} {info : RequestInfo}
    {rest : List RequestInfo} (hl : l ∈ g.activeLaunchIds) (hg : g.generated l = info :: rest) :
    Admitted cfg h (g.push l info rest) started := by
  refine ⟨ha.order, ha.active, ha.info, fun l' hl' => ?_, fun l' r hr => ?_, ha.slots, ha.fits⟩
  · rw [UThreadGenerator.push, List.map_append] at hl'
    rcases List.mem_append.mp hl' with hl' | hl'
    · exact ha.pushed l' hl'
    · rw [List.mem_singleton.mp hl', ha.own l info (by rw [hg]; exact List.mem_cons_self)]
      exact ha.active l hl
  · rw [UThreadGenerator.generated, UThreadGenerator.push, Binding.lookup_insert_eq_ite] at hr
    split at hr
    case isTrue heq =>
      subst heq
      exact ha.own l' r (by rw [hg]; exact List.mem_cons_of_mem _ hr)
    case isFalse => exact ha.own l' r hr

theorem push (ha : Admitted cfg h g started) (hs : Push cfg g g') :
    Admitted cfg h g' started := by
  cases hs with
  | unlaunch => exact ⟨ha.order, ha.active, ha.info, ha.pushed, ha.own, ha.slots, ha.fits⟩
  | push l info rest hl hg => exact ha.issue hl hg

theorem pushes (ha : Admitted cfg h g started) (hs : Pushes cfg g g') :
    Admitted cfg h g' started ∧ g'.activeLaunchIds = g.activeLaunchIds := by
  induction hs with
  | refl => exact ⟨ha, rfl⟩
  | tail _ hs ih =>
    refine ⟨ih.1.push hs, ?_⟩
    cases hs <;> exact ih.2

theorem check (ha : Admitted cfg h g started) :
    Admitted cfg h (checkKernelLaunch cfg g) (started ++ starts g (checkKernelLaunch cfg g)) := by
  rcases checkKernelLaunch_cases cfg g with heq | ⟨l, rest, hq, -, hadm, heq⟩
  · rw [heq, starts_of_subset subset_rfl, List.append_nil]
    exact ha
  · rw [heq, starts_activate rest (ha.head_inactive hq)]
    exact ha.activate hq hadm

theorem cycle (ha : Admitted cfg h g started) (hc : g.cycle cfg = .ok g') :
    Admitted cfg h g' (started ++ starts g g') := by
  obtain ⟨hpushed, hact⟩ := ha.check.pushes (cycle_pushes hc)
  have hsame : starts g g' = starts g (checkKernelLaunch cfg g) := by
    rw [starts, starts, hact]
  rwa [hsame]

/-- A launch goes to the end of the order if it has requests. -/
theorem servedOrder_afterLaunch {kinfo : KernelLaunchInfo} {plan : List RequestInfo}
    (fresh : h.launches.lookup kinfo.launchId = none) (g : UThreadGenerator) :
    servedOrder cfg (h.afterLaunch kinfo plan g) = servedOrder cfg h ++
      if kinfo.kernelId ∈ cfg.registeredFunctions ∧ matched cfg kinfo ≠ [] then [kinfo.launchId]
      else [] := by
  have hnew : kinfo.launchId ∉ h.launches := AList.lookup_eq_none.mp fresh
  have hkeys : (h.launches.insert kinfo.launchId (kinfo, plan)).keys =
      kinfo.launchId :: h.launches.keys := by
    rw [AList.keys_insert, List.erase_of_not_mem hnew]
  rw [servedOrder, afterLaunch, hkeys, List.reverse_cons, List.filter_append]
  congr 1
  · refine List.filter_congr fun l hl => ?_
    have hne : l ≠ kinfo.launchId := by
      rintro rfl
      exact hnew (List.mem_reverse.mp hl)
    rw [AList.lookup_insert_ne hne]
  · simp only [List.filter_singleton, AList.lookup_insert, Bool.cond_decide]

/-- A launch that was entered into the tables, with the queue it leaves. -/
theorem afterLaunch (ha : Admitted cfg h g started) (g' gen : UThreadGenerator)
    {kinfo : KernelLaunchInfo} {plan : List RequestInfo}
    (fresh : h.launches.lookup kinfo.launchId = none)
    (hqueue : g'.launchQueue = g.launchQueue ++
      if kinfo.kernelId ∈ cfg.registeredFunctions ∧ matched cfg kinfo ≠ [] then [kinfo.launchId]
      else [])
    (hself : kinfo.launchId ∈ g'.launchQueue →
      g'.launchInfos.lookup kinfo.launchId = some kinfo)
    (hother : ∀ l, l ≠ kinfo.launchId → g'.launchInfos.lookup l = g.launchInfos.lookup l)
    (hact : g'.activeLaunchIds = g.activeLaunchIds) (hsent : g'.sent = g.sent)
    (hown : ∀ l, ∀ r ∈ g'.generated l, r.launchId = l) :
    Admitted cfg (h.afterLaunch kinfo plan gen) g' started := by
  have hknown {l : Nat} (hl : l ∈ started ∨ l ∈ g.launchQueue) : l ≠ kinfo.launchId := by
    rintro rfl
    have hmem : kinfo.launchId ∈ servedOrder cfg h := by
      rw [← ha.order]
      exact List.mem_append.mpr hl
    have hkey := List.mem_reverse.mp (List.mem_of_mem_filter hmem)
    exact AList.lookup_eq_none.mp fresh hkey
  refine ⟨?_, fun l hl => ?_, fun l hl => ?_, fun l hl => ?_, hown, ?_, fun hlow hhigh => ?_⟩
  · rw [hqueue, ← List.append_assoc, ha.order, servedOrder_afterLaunch fresh]
  · rw [hact] at hl
    exact ha.active l hl
  · by_cases heq : l = kinfo.launchId
    · subst heq
      rcases hl with hl | hl
      · rw [hact] at hl
        exact absurd rfl (hknown (.inl (ha.active _ hl)))
      · exact ⟨kinfo, plan, AList.lookup_insert _, hself hl⟩
    · have hold : l ∈ g.activeLaunchIds ∨ l ∈ g.launchQueue := by
        rcases hl with hl | hl
        · exact .inl (hact ▸ hl)
        · rw [hqueue] at hl
          rcases List.mem_append.mp hl with hl | hl
          · exact .inr hl
          · split at hl
            · exact absurd (List.mem_singleton.mp hl) heq
            · cases hl
      obtain ⟨kinfo', plan', hlook, hinfo⟩ := ha.info l hold
      exact ⟨kinfo', plan', by rw [History.afterLaunch, AList.lookup_insert_ne heq, hlook],
        by rw [hother l heq, hinfo]⟩
  · rw [hsent] at hl
    exact ha.pushed l hl
  · rw [hact]
    exact ha.slots
  · rw [spadInUse_congr hact fun l hl => hother l (hknown (.inl (ha.active l hl)))]
    exact ha.fits hlow hhigh

theorem launch (ha : Admitted cfg h g started) {kinfo : KernelLaunchInfo}
    {plan : List RequestInfo} (fresh : h.launches.lookup kinfo.launchId = none)
    (hl : g.launch cfg kinfo = .ok g') :
    Admitted cfg (h.afterLaunch kinfo plan g') g' (started ++ starts g g') := by
  have hnew : kinfo.launchId ∉ g.launchQueue ∧ kinfo.launchId ∉ g.activeLaunchIds := by
    constructor
    · intro hmem
      obtain ⟨_, _, hlook, -⟩ := ha.info _ (.inr hmem)
      rw [fresh] at hlook
      cases hlook
    · intro hmem
      obtain ⟨_, _, hlook, -⟩ := ha.info _ (.inl hmem)
      rw [fresh] at hlook
      cases hlook
  have hother {l : Nat} (hne : l ≠ kinfo.launchId) :
      (g.launchInfos.insert kinfo.launchId kinfo).lookup l = g.launchInfos.lookup l :=
    AList.lookup_insert_ne hne
  obtain ⟨-, ⟨hreg, rfl⟩ | ⟨hreg, hm, rfl⟩ | ⟨hreg, hm, rfl⟩⟩ := launch_cases hl
  · have hnone : starts g (g.entered kinfo) = [] := starts_of_subset subset_rfl
    rw [hnone, List.append_nil]
    refine ha.afterLaunch _ _ fresh ?_ (fun hmem => absurd hmem hnew.1)
      (fun l hne => hother hne) rfl rfl ha.own
    simp [hreg, entered]
  · have hbase : Admitted cfg (h.afterLaunch kinfo plan
        (checkKernelLaunch cfg (g.passedOver kinfo))) (g.passedOver kinfo) started := by
      refine ha.afterLaunch _ _ fresh ?_ (fun hmem => absurd hmem hnew.1) (fun l hne => ?_) ?_
        rfl ha.own
      · simp [hm, passedOver, finishLaunch, entered]
      · exact (AList.lookup_erase_ne hne).trans (hother hne)
      · exact Finset.erase_eq_of_notMem hnew.2
    have hstarts : starts g (checkKernelLaunch cfg (g.passedOver kinfo)) =
        starts (g.passedOver kinfo) (checkKernelLaunch cfg (g.passedOver kinfo)) := by
      rw [starts, starts, passedOver, finishLaunch, entered]
      dsimp only
      rw [Finset.erase_eq_of_notMem hnew.2]
    rw [hstarts]
    exact hbase.check
  · have hbase : Admitted cfg (h.afterLaunch kinfo plan
        (checkKernelLaunch cfg (g.enqueued kinfo (launchRequests cfg kinfo g.globalReqId))))
        (g.enqueued kinfo (launchRequests cfg kinfo g.globalReqId)) started := by
      refine ha.afterLaunch _ _ fresh ?_ (fun _ => AList.lookup_insert _)
        (fun l hne => hother hne) rfl rfl (fun l r hr => ?_)
      · rw [if_pos ⟨hreg, hm⟩]
        rfl
      · rw [UThreadGenerator.generated, enqueued, Binding.lookup_insert_eq_ite] at hr
        split at hr
        case isTrue heq =>
          obtain ⟨_, _, _, _, _, rfl, -⟩ := mem_launchRequests hr
          exact heq.symm
        case isFalse => exact ha.own l r hr
    exact hbase.check

theorem complete (ha : Admitted cfg h g started) {r : RequestInfo} (hr : r ∈ g.sent) :
    Admitted cfg h (g.complete r) (started ++ starts g (g.complete r)) := by
  have hstarted : r.launchId ∈ started := ha.pushed _ (List.mem_map_of_mem hr)
  have hsub : (g.complete r).activeLaunchIds ⊆ g.activeLaunchIds := by
    unfold UThreadGenerator.complete
    split
    · exact Finset.erase_subset _ _
    · exact subset_rfl
  rw [starts_of_subset hsub, List.append_nil]
  unfold UThreadGenerator.complete
  split
  · have hkeep {l : Nat} (hne : l ≠ r.launchId) :
        (g.launchInfos.erase r.launchId).lookup l = g.launchInfos.lookup l :=
      AList.lookup_erase_ne hne
    refine ⟨ha.order, fun l hl => ha.active l (Finset.mem_of_mem_erase hl), fun l hl => ?_,
      ha.pushed, ha.own, ?_, fun hlow hhigh => ?_⟩
    · have hne : l ≠ r.launchId := by
        rintro rfl
        rcases hl with hl | hl
        · exact Finset.ne_of_mem_erase hl rfl
        · exact ha.notMem_of_queued hl hstarted
      obtain ⟨kinfo, plan, hlook, hinfo⟩ := ha.info l
        (hl.imp (fun hl => Finset.mem_of_mem_erase hl) id)
      exact ⟨kinfo, plan, hlook, (hkeep hne).trans hinfo⟩
    · exact (Finset.card_erase_le).trans ha.slots
    · have hle : spadInUse ((g.finishLaunch r.launchId).increaseCount r.launchId) ≤
          spadInUse g := by
        rw [spadInUse, spadInUse, increaseCount, finishLaunch]
        refine (Finset.sum_le_sum fun l hl => ?_).trans
          (Finset.sum_le_sum_of_subset (Finset.erase_subset r.launchId _))
        rw [smemSize, smemSize, hkeep (Finset.ne_of_mem_erase hl)]
      exact (Int.ofNat_le.mpr hle).trans (ha.fits hlow hhigh)
  · exact ⟨ha.order, ha.active, ha.info, ha.pushed, ha.own, ha.slots, ha.fits⟩

end Admitted

theorem Activations.admitted (ha : Activations cfg h started) :
    Admitted cfg h h.gen started := by
  induction ha with
  | start =>
    refine ⟨rfl, ?_, ?_, ?_, ?_, ?_, ?_⟩ <;>
      simp +contextual [create, UThreadGenerator.generated, spadInUse]
  | @step h h' started hrun hs ih =>
    cases hs with
    | launch kinfo fresh hl => exact ih.launch fresh hl
    | cycle hc =>
      have hnext := ih.cycle hc
      exact ⟨hnext.order, hnext.active, hnext.info, hnext.pushed, hnext.own, hnext.slots,
        hnext.fits⟩
    | generateUthreads threads hg =>
      obtain ⟨hnext, hact⟩ := ih.pushes (generateUthreads_pushes hg)
      rw [starts_of_subset (by rw [hact]), List.append_nil]
      exact ⟨hnext.order, hnext.active, hnext.info, hnext.pushed, hnext.own, hnext.slots,
        hnext.fits⟩
    | take _ =>
      have hnone : starts h.gen { h.gen with taken := h.gen.taken + 1 } = [] :=
        starts_of_subset subset_rfl
      rw [hnone, List.append_nil]
      exact ⟨ih.order, ih.active, ih.info, ih.pushed, ih.own, ih.slots, ih.fits⟩
    | complete r hp hc =>
      have hnext := ih.complete (hrun.run.tabled.logged r hp)
      exact ⟨hnext.order, hnext.active, hnext.info, hnext.pushed, hnext.own, hnext.slots,
        hnext.fits⟩

/-- If the scratchpad is larger than the reserve and no launch asks for the reserve, then the active
launches leave the reserve free, do not exceed the launch slots, were activated in launch order, and
a waiting launch can become active as soon as none is. -/
theorem admission_sound (ha : Activations cfg h started) (hlow : 8192 ≤ cfg.spadSize)
    (hhigh : cfg.spadSize < 2 ^ 31) (hslots : 0 < cfg.maxKernelLaunch)
    (hsmem : ∀ l ∈ servedOrder cfg h, ∀ kinfo plan, h.launches.lookup l = some (kinfo, plan) →
      (kinfo.smemSize : Int) ≤ cfg.spadSize - 8192) :
    (spadInUse h.gen : Int) ≤ cfg.spadSize - 8192 ∧
    h.gen.activeLaunchIds.card ≤ cfg.maxKernelLaunch ∧
    started <+: servedOrder cfg h ∧
    (h.gen.activeLaunchIds = ∅ → ∀ l rest, h.gen.launchQueue = l :: rest →
      h.gen.Admits cfg l) := by
  have hadm := ha.admitted
  refine ⟨hadm.fits hlow hhigh, hadm.slots, ⟨_, hadm.order⟩, fun hempty l rest hq => ?_⟩
  have hl : l ∈ h.gen.launchQueue := by
    rw [hq]
    exact List.mem_cons_self
  obtain ⟨kinfo, plan, hlook, hinfo⟩ := hadm.info l (.inr hl)
  have hfit := hsmem l (by rw [← hadm.order]; exact List.mem_append_right _ hl) kinfo plan hlook
  refine ⟨.inr ?_, by rwa [hempty, Finset.card_empty]⟩
  rw [getAllocatedSpadSize, hempty, smemSize, hinfo]
  simpa using hfit

theorem admission_sound_sample : ∃ h started, Activations sampleConfig h started ∧
    started = [0] ∧ started <+: servedOrder sampleConfig h := by
  have ha : Activations sampleConfig _ _ := .step .start
    (.launch sampleLaunch rfl (ok_getD (d := create) (by decide +kernel)))
  refine ⟨_, _, ha, by decide +kernel, (admission_sound ha (by decide) (by decide) (by decide)
    fun l _ kinfo plan hlook => ?_).2.2.1⟩
  simp only [Binding.lookup_insert_eq_ite] at hlook
  split at hlook
  · obtain ⟨rfl, -⟩ := Prod.mk.inj (Option.some_inj.mp hlook)
    decide
  · cases hlook

/-- A launch that fits the scratchpad but not beside the reserve. -/
def reserveLaunch : KernelLaunchInfo := { sampleLaunch with smemSize := 8193 }

theorem admission_blocked : ∃ h started, Activations sampleConfig h started ∧
    h.gen.activeLaunchIds = ∅ ∧ h.gen.launchQueue = [0] ∧ ¬ h.gen.Admits sampleConfig 0 := by
  have ha : Activations sampleConfig _ _ := .step .start
    (.launch reserveLaunch rfl (ok_getD (d := create) (by decide +kernel)))
  exact ⟨_, _, ha, by decide +kernel, by decide +kernel, by decide +kernel⟩

end History

end NdpSim
