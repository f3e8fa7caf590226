import NdpSim.Timing.Admission

/-!
# The request queue

Nobody who pushes into the request queue looks for space first. What bounds the queue is the
barrier between the parts of a launch: the waiting requests of a launch all belong to one part,
so that there are no more of them than the launch has packets on the unit.
-/
namespace NdpSim

open Library

namespace UThreadGenerator

/-- The requests that wait in the request queue. -/
def waiting (g : UThreadGenerator) : List RequestInfo := g.sent.drop g.taken

def packetCount (cfg : GeneratorConfig) (g : UThreadGenerator) (launchId : Nat) : Nat :=
  ((g.launchInfos.lookup launchId).map fun kinfo => (matched cfg kinfo).length).getD 0

/-- The packets of all active launches on the unit. -/
def load (cfg : GeneratorConfig) (g : UThreadGenerator) : Nat :=
  ∑ l ∈ g.activeLaunchIds, packetCount cfg g l

end UThreadGenerator

namespace History

open UThreadGenerator

variable {cfg : GeneratorConfig} {h h' : History}

/-- A step in which only requests complete that were taken from the queue. -/
def QueueStep (cfg : GeneratorConfig) (h h' : History) : Prop :=
  Step cfg h h' ∧ ∀ r, .complete r ∈ h'.log → r ∈ h'.gen.sent.take h'.gen.taken

def QueueRun (cfg : GeneratorConfig) : History → Prop :=
  Relation.ReflTransGen (QueueStep cfg) ⟨.create, ∅, []⟩

theorem QueueRun.run (hrun : QueueRun cfg h) : Run cfg h := by
  induction hrun with
  | refl => exact .refl
  | tail _ hs ih => exact ih.tail hs.1

theorem Run.activations (hrun : Run cfg h) : ∃ started, Activations cfg h started := by
  induction hrun with
  | refl => exact ⟨_, .start⟩
  | tail _ hs ih =>
    obtain ⟨started, ha⟩ := ih
    exact ⟨_, ha.step hs⟩

theorem QueueRun.done (hrun : QueueRun cfg h) :
    ∀ r, .complete r ∈ h.log → r ∈ h.gen.sent.take h.gen.taken := by
  cases hrun with
  | refl =>
    intro r hr
    cases hr
  | tail _ hs => exact hs.2

/-! ## One launch in the queue -/

/-- Requests that follow one another in a launch and belong to one part of it. -/
theorem Plan.segment_le {kinfo : KernelLaunchInfo} {n m : Nat}
    {before segment after : List RequestInfo} (hm : 0 < m)
    (hp : Plan kinfo n m (before ++ segment ++ after))
    (hpart : ∀ q ∈ segment, ∀ r ∈ segment, ¬ Before q r) : segment.length ≤ m := by
  by_cases hnil : segment = []
  · simp [hnil]
  have hpos : 0 < segment.length := List.length_pos_iff.mpr hnil
  have hplace {i : Nat} (hi : i < segment.length) :
      (before ++ segment ++ after)[before.length + i]? = some segment[i] := by
    rw [List.append_assoc, List.getElem?_append_right (by omega),
      List.getElem?_append_left (by omega)]
    simp [hi]
  have hfirst := hplace hpos
  have hlast := hplace (i := segment.length - 1) (by omega)
  have hnot := hpart _ (List.getElem_mem hpos) _
    (List.getElem_mem (show segment.length - 1 < segment.length by omega))
  unfold Before at hnot
  rcases hp.place_cases hlast with ⟨hj, ht⟩ | ⟨p, hj, hp', ht⟩ | ⟨hj, ht⟩
  · omega
  · -- the first of them is in the same body as the last
    have hbody := (hp.body p _ hp' (hj ▸ hlast)).2
    rw [ht] at hnot
    rcases hp.place_cases hfirst with ⟨hi, ht'⟩ | ⟨q, hi, hq, ht'⟩ | ⟨hi, ht'⟩
    · exact absurd (.inl ht') hnot
    · have hbody' := (hp.body q _ hq (hi ▸ hfirst)).2
      have hle : p / m ≤ q / m := by
        rw [← hbody, ← hbody']
        by_contra hlt
        exact hnot (.inr ⟨ht', by omega⟩)
      have hp := Nat.lt_mul_div_succ p hm
      have hq := Nat.mul_div_le q m
      have hmul : m * (p / m + 1) ≤ m * (q / m) + m := by
        rw [Nat.mul_succ]
        exact Nat.add_le_add_right (Nat.mul_le_mul_left m hle) m
      omega
    · omega
  · rw [ht] at hnot
    have := hp.place_of_finalizer hfirst (not_not.mp hnot)
    omega

/-- The launches of the waiting requests are active. -/
structure Live (g : UThreadGenerator) : Prop where
  own : ∀ l, ∀ r ∈ g.generated l, r.launchId = l
  active : ∀ r ∈ g.waiting, r.launchId ∈ g.activeLaunchIds
  taken : g.taken ≤ g.sent.length

namespace Live

variable {g g' : UThreadGenerator}

theorem issue (hl : Live g) {l : Nat} {info : RequestInfo} {rest : List RequestInfo}
    (hact : l ∈ g.activeLaunchIds) (hg : g.generated l = info :: rest) :
    Live (g.push l info rest) := by
  refine ⟨fun l' r hr => ?_, fun r hr => ?_, ?_⟩
  · rw [UThreadGenerator.generated, UThreadGenerator.push, Binding.lookup_insert_eq_ite] at hr
    split at hr
    case isTrue heq =>
      subst heq
      exact hl.own l' r (by rw [hg]; exact List.mem_cons_of_mem _ hr)
    case isFalse => exact hl.own l' r hr
  · simp only [waiting, UThreadGenerator.push, List.drop_append_of_le_length hl.taken,
      List.mem_append, List.mem_singleton] at hr
    rcases hr with hr | rfl
    · exact hl.active r hr
    · rwa [hl.own l r (by rw [hg]; exact List.mem_cons_self)]
  · simp only [UThreadGenerator.push, List.length_append]
    exact Nat.le_add_right_of_le hl.taken

theorem change (hl : Live g) (hs : Change cfg g g') : Live g' := by
  cases hs with
  | activate => exact ⟨hl.own, fun r hr => Finset.mem_insert_of_mem (hl.active r hr), hl.taken⟩
  | push hs =>
    cases hs with
    | unlaunch => exact ⟨hl.own, hl.active, hl.taken⟩
    | push l info rest hact hg => exact hl.issue hact hg

theorem changes (hl : Live g) (hs : Changes cfg g g') : Live g' :=
  hs.induct (fun _ _ hs hl => Live.change hl hs) hl

/-- A launch under a number that waits for nothing. -/
theorem launch (hl : Live g) {kinfo : KernelLaunchInfo} (hnew : kinfo.launchId ∉ g.activeLaunchIds)
    (hlaunch : g.launch cfg kinfo = .ok g') : Live g' := by
  obtain ⟨-, ⟨-, rfl⟩ | ⟨-, -, rfl⟩ | ⟨-, -, rfl⟩⟩ := launch_cases hlaunch
  · exact ⟨hl.own, hl.active, hl.taken⟩
  · have hpassed : Live (g.passedOver kinfo) := by
      refine ⟨hl.own, fun r hr => ?_, hl.taken⟩
      have hact := hl.active r hr
      exact Finset.mem_erase.mpr ⟨fun heq => hnew (heq ▸ hact), hact⟩
    exact hpassed.changes (checkKernelLaunch_changes cfg _)
  · suffices hqueued : Live (g.enqueued kinfo (launchRequests cfg kinfo g.globalReqId)) from
      hqueued.changes (checkKernelLaunch_changes cfg _)
    refine ⟨fun l r hr => ?_, hl.active, hl.taken⟩
    rw [UThreadGenerator.generated, enqueued, Binding.lookup_insert_eq_ite] at hr
    split at hr
    case isTrue heq =>
      obtain ⟨_, _, _, _, _, rfl, -⟩ := mem_launchRequests hr
      exact heq.symm
    case isFalse => exact hl.own l r hr

theorem take (hl : Live g) (ht : g.taken < g.sent.length) :
    Live { g with taken := g.taken + 1 } := by
  refine ⟨hl.own, fun r hr => hl.active r ?_, ht⟩
  rw [waiting, ← List.drop_drop] at hr
  exact List.mem_of_mem_drop hr

/-- A launch whose finalizer completes has nothing left in the queue. -/
theorem complete (hl : Live g) {r : RequestInfo}
    (hend : r.type = .finalizer → ∀ q ∈ g.waiting, q.launchId ≠ r.launchId) :
    Live (g.complete r) := by
  unfold UThreadGenerator.complete
  split
  case isTrue ht =>
    refine ⟨hl.own, fun q hq => ?_, hl.taken⟩
    exact Finset.mem_erase.mpr ⟨hend ht q hq, hl.active q hq⟩
  case isFalse => exact ⟨hl.own, hl.active, hl.taken⟩

end Live

/-- What bounds the queue: completed requests have left it. -/
structure Metered (cfg : GeneratorConfig) (h : History) : Prop where
  inv : Inv cfg h
  admitted : ∃ started, Admitted cfg h h.gen started
  done : ∀ r, .complete r ∈ h.log → r ∈ h.gen.sent.take h.gen.taken
  live : Live h.gen

namespace Metered

/-- The requests of a launch, sent and not yet sent. -/
theorem launch_parts (hm : Metered cfg h) {l : Nat} {kinfo : KernelLaunchInfo}
    {plan : List RequestInfo} (hl : h.launches.lookup l = some (kinfo, plan)) :
    ((h.gen.sent.take h.gen.taken).filter fun r => r.launchId = l) ++
      (h.gen.waiting.filter fun r => r.launchId = l) ++ h.gen.generated l = plan := by
  rw [← hm.inv.split l kinfo plan hl, pushedOf, hm.inv.queue, waiting, ← List.filter_append,
    List.take_append_drop]

/-- A waiting request has not completed. -/
theorem not_completed (hm : Metered cfg h) {r : RequestInfo} (hr : r ∈ h.gen.waiting)
    {kinfo : KernelLaunchInfo} {plan : List RequestInfo}
    (hl : h.launches.lookup r.launchId = some (kinfo, plan)) (hnd : plan.Nodup) :
    .complete r ∉ h.log := by
  intro hc
  rw [← hm.launch_parts hl] at hnd
  have hdisj := List.disjoint_of_nodup_append (List.nodup_append.mp hnd).1
  refine hdisj (a := r) ?_ ?_
  · simpa using hm.done r hc
  · simpa using hr

/-- No more requests of a launch wait than it has packets on the unit. -/
theorem waiting_launch_le (hm : Metered cfg h) {l : Nat} (hl : l ∈ h.gen.activeLaunchIds) :
    (h.gen.waiting.filter fun r => r.launchId = l).length ≤ packetCount cfg h.gen l := by
  obtain ⟨started, ha⟩ := hm.admitted
  obtain ⟨kinfo, plan, hlook, hinfo⟩ := ha.info l (.inl hl)
  have hparts := hm.launch_parts hlook
  have hcount : packetCount cfg h.gen l = (matched cfg kinfo).length := by
    rw [packetCount, hinfo]
    rfl
  rw [hcount]
  rcases hm.inv.planned l kinfo plan hlook with rfl | ⟨hk, hn, m, hpos, hplan⟩
  · simp only [List.append_eq_nil_iff] at hparts
    simp [hparts.1.2]
  have hlaunch : ∀ q ∈ plan, q.launchId = l := by
    intro q hq
    rw [(hplan.launch q hq).1, hk]
  have hlen : m = (matched cfg kinfo).length := by
    have hshapes := congrArg List.length (hm.inv.shapes l kinfo plan hlook)
    rw [List.length_map, hplan.length] at hshapes
    split at hshapes
    · unfold expected at hshapes
      simp only at hshapes
      split at hshapes
      · cases hshapes
      · simp at hshapes
        omega
    · cases hshapes
  rw [← hlen]
  refine Plan.segment_le hpos (hparts ▸ hplan) ?_
  intro q hq r hr hbefore
  have hsub : ∀ r ∈ h.gen.waiting.filter (fun r => r.launchId = l), r ∈ pushedOf h.log l := by
    intro r hr
    rw [pushedOf, hm.inv.queue]
    simp only [List.mem_filter] at hr ⊢
    exact ⟨List.mem_of_mem_drop hr.1, hr.2⟩
  have hq' : q ∈ plan := by
    rw [← hparts]
    simp [List.mem_filter.mp hq]
  have hdone := hm.inv.past hlook hlaunch r (hsub r hr) q hq' hbefore
  have hql : q.launchId = l := hlaunch q hq'
  refine hm.not_completed (List.mem_filter.mp hq).1 (by rw [hql, hlook]) hplan.nodup ?_
  exact (mem_completedOf.mp hdone).1

/-- The queue holds no more than the packets of the active launches. -/
theorem waiting_le (hm : Metered cfg h) : h.gen.waiting.length ≤ load cfg h.gen := by
  have hsum : ∑ l ∈ h.gen.activeLaunchIds,
      (h.gen.waiting.filter fun r => r.launchId = l).length = h.gen.waiting.length := by
    have hcount := Multiset.sum_count_eq_card (s := h.gen.activeLaunchIds)
      (m := (h.gen.waiting.map RequestInfo.launchId : Multiset Nat)) (by simpa using hm.live.active)
    simp only [Multiset.coe_count, Multiset.coe_card, List.length_map] at hcount
    rw [← hcount]
    refine Finset.sum_congr rfl fun l _ => ?_
    rw [List.count, List.countP_map, List.countP_eq_length_filter]
    rfl
  rw [← hsum, load]
  exact Finset.sum_le_sum fun l hl => hm.waiting_launch_le hl

/-- A front request that may go finds room, and the queue stays bounded. -/
theorem push (hm : Metered cfg h) {l : Nat} {info : RequestInfo} {rest : List RequestInfo}
    (hl : l ∈ h.gen.activeLaunchIds) (hg : h.gen.generated l = info :: rest)
    (hi : checkCanIssue cfg h.gen info = .ok true) (hload : load cfg h.gen ≤ cfg.requestQueueSize) :
    h.gen.pushFront cfg l info rest = .ok (h.gen.push l info rest) ∧
    Metered cfg
      { h with gen := h.gen.push l info rest, log := h.log ++ [.push info] } := by
  obtain ⟨started, ha⟩ := hm.admitted
  have hm' : Metered cfg
      { h with gen := h.gen.push l info rest, log := h.log ++ [.push info] } := by
    refine ⟨hm.inv.issue hg hi, ⟨started, ?_⟩, ?_, hm.live.issue hl hg⟩
    · have := ha.issue hl hg
      exact ⟨this.order, this.active, this.info, this.pushed, this.own, this.slots, this.fits⟩
    · intro r hr
      have hr : .complete r ∈ h.log := by simpa using hr
      simp only [UThreadGenerator.push, List.take_append_of_le_length hm.live.taken]
      exact hm.done r hr
  refine ⟨?_, hm'⟩
  have hle := hm'.waiting_le
  have htaken := hm.live.taken
  simp only [waiting, UThreadGenerator.push, List.length_drop, List.length_append,
    List.length_singleton] at hle
  have hsame : load cfg (h.gen.push l info rest) = load cfg h.gen := rfl
  rw [UThreadGenerator.push] at hsame
  rw [pushFront, if_pos (by omega)]
  rfl

theorem check (hm : Metered cfg h) :
    Metered cfg { h with gen := checkKernelLaunch cfg h.gen } := by
  obtain ⟨started, ha⟩ := hm.admitted
  have hsame := checkKernelLaunch_same cfg h.gen
  have ha' := ha.check
  refine ⟨hm.inv.same hsame, ⟨_, ha'.order, ha'.active, ha'.info, ha'.pushed, ha'.own, ha'.slots,
    ha'.fits⟩, ?_, hm.live.changes (checkKernelLaunch_changes cfg h.gen)⟩
  rcases checkKernelLaunch_cases cfg h.gen with heq | ⟨l, rest, -, -, -, heq⟩
  · rw [heq]
    exact hm.done
  · rw [heq]
    exact hm.done

/-- Body requests are generated without overfilling the queue. -/
theorem generateUthreads (hm : Metered cfg h) (hload : load cfg h.gen ≤ cfg.requestQueueSize)
    (threads : Nat) : ∃ h' : History, h.gen.generateUthreads cfg threads = .ok h'.gen ∧
      Metered cfg h' ∧ load cfg h'.gen ≤ cfg.requestQueueSize := by
  induction threads generalizing h with
  | zero => exact ⟨h, rfl, hm, hload⟩
  | succ threads ih =>
    simp only [UThreadGenerator.generateUthreads]
    split
    case isFalse => exact ih hm hload
    case isTrue =>
      obtain ⟨next, hl⟩ := hm.inv.nextOf h.gen.activeLaunchIds.sort
      rw [getNextLaunchId, hl]
      cases next with
      | none => exact ⟨h, rfl, hm, hload⟩
      | some l =>
        obtain ⟨hact, info, rest, hg, hi⟩ := getNextLaunchId_eq_some hl
        simp only [ok_bind, hg]
        split
        · obtain ⟨hpush, hm'⟩ := hm.push hact hg hi hload
          rw [hpush]
          exact ih hm' hload
        · exact ih hm hload

/-- So are initializers and finalizers. -/
theorem pushEnds (hm : Metered cfg h) (hload : load cfg h.gen ≤ cfg.requestQueueSize) :
    ∃ g', h.gen.pushEnds cfg = .ok g' := by
  simp only [UThreadGenerator.pushEnds]
  split
  case isFalse => exact ⟨_, rfl⟩
  case isTrue =>
    obtain ⟨next, hl⟩ := hm.inv.nextOf h.gen.activeLaunchIds.sort
    rw [getNextLaunchId, hl]
    cases next with
    | none => exact ⟨_, rfl⟩
    | some l =>
      obtain ⟨hact, info, rest, hg, hi⟩ := getNextLaunchId_eq_some hl
      obtain ⟨hpush, -⟩ := hm.push hact hg hi hload
      simp only [ok_bind, hg, hpush]
      split
      · split <;> exact ⟨_, rfl⟩
      · exact ⟨_, rfl⟩
      · exact ⟨_, rfl⟩

theorem cycle (hm : Metered cfg h)
    (hload : load cfg (checkKernelLaunch cfg h.gen) ≤ cfg.requestQueueSize) :
    ∃ g', h.gen.cycle cfg = .ok g' := by
  simp only [UThreadGenerator.cycle]
  split
  · obtain ⟨h', hg, hm', hload'⟩ := hm.check.generateUthreads hload 1
    rw [hg]
    exact hm'.pushEnds hload'
  · exact hm.check.pushEnds hload

end Metered

/-! ## Runs -/

/-- When a finalizer has completed, all requests of its launch have. -/
theorem Metered.finalizer_last (hm : Metered cfg h) {r : RequestInfo} (hp : .push r ∈ h.log)
    (hr : r ∈ h.gen.sent.take h.gen.taken) (ht : r.type = .finalizer) :
    ∀ q ∈ h.gen.waiting, q.launchId ≠ r.launchId := by
  intro q hq heq
  obtain ⟨started, ha⟩ := hm.admitted
  obtain ⟨kinfo, plan, hlook, -⟩ := ha.info _ (.inl (hm.live.active q hq))
  have hparts := hm.launch_parts hlook
  have hq' : q ∈ plan := by
    rw [← hparts]
    simp [hq]
  rcases hm.inv.planned _ kinfo plan hlook with rfl | ⟨-, -, m, -, hplan⟩
  · cases hq'
  have hnot := hm.not_completed hq hlook hplan.nodup
  by_cases hqt : q.type = .finalizer
  · -- the only finalizer of the launch is `r`, which is no longer waiting
    have hr' : r ∈ plan := by
      rw [← hparts]
      simp [hr, heq]
    obtain ⟨i, hi⟩ := List.getElem?_of_mem hq'
    obtain ⟨j, hj⟩ := List.getElem?_of_mem hr'
    have hij : q = r := by
      rw [hplan.place_of_finalizer hi hqt] at hi
      rw [hplan.place_of_finalizer hj ht, hi] at hj
      exact Option.some_inj.mp hj
    have hnd := hplan.nodup
    rw [← hparts] at hnd
    refine List.disjoint_of_nodup_append (List.nodup_append.mp hnd).1 (a := q) ?_ ?_
    · simp [hij, hr]
    · simp [hq]
  · obtain ⟨pre, post, hlog⟩ := List.append_of_mem hp
    rw [heq] at hlook
    refine hnot ?_
    rw [hlog]
    refine List.mem_append_left _ (hm.inv.barrier pre r post hlog kinfo plan hlook q hq' ?_)
    unfold Before
    rw [ht]
    exact hqt

theorem QueueRun.metered (hb : ∀ k ∈ cfg.registeredFunctions, 1 ≤ cfg.numKernelBodies k)
    (hrun : QueueRun cfg h) : Metered cfg h := by
  have hlive : Live h.gen := by
    induction hrun with
    | refl => exact ⟨by simp [create, UThreadGenerator.generated], by simp [create, waiting],
        Nat.le_refl 0⟩
    | @tail h h' hrun hs ih =>
      obtain ⟨hs, hdone⟩ := hs
      obtain ⟨started, ha⟩ := QueueRun.run hrun |>.activations
      have hm : Metered cfg h := ⟨(QueueRun.run hrun).inv hb, ⟨started, ha.admitted⟩,
        QueueRun.done hrun, ih⟩
      cases hs with
      | launch kinfo fresh hl =>
        refine ih.launch ?_ hl
        intro hmem
        obtain ⟨_, _, hlook, -⟩ := ha.admitted.info _ (.inl hmem)
        rw [fresh] at hlook
        cases hlook
      | cycle hc => exact ih.changes (cycle_changes hc)
      | generateUthreads threads hg => exact ih.changes (generateUthreads_pushes hg).changes
      | take ht => exact ih.take ht
      | complete r hp hc =>
        refine ih.complete fun ht => hm.finalizer_last hp ?_ ht
        have := hdone r (by simp)
        unfold UThreadGenerator.complete at this
        split at this <;> exact this
  obtain ⟨started, ha⟩ := hrun.run.activations
  exact ⟨hrun.run.inv hb, ⟨started, ha.admitted⟩, hrun.done, hlive⟩

/-- Whatever the mode, the queue and the number of threads asked for: while the packets of the
active launches fit into the request queue, nothing is pushed into a full one. -/
theorem request_queue_not_overfilled
    (hb : ∀ k ∈ cfg.registeredFunctions, 1 ≤ cfg.numKernelBodies k) (hrun : QueueRun cfg h) :
    (load cfg (checkKernelLaunch cfg h.gen) ≤ cfg.requestQueueSize →
      ∃ g', h.gen.cycle cfg = .ok g') ∧
    (load cfg h.gen ≤ cfg.requestQueueSize →
      ∀ threads, ∃ g', h.gen.generateUthreads cfg threads = .ok g') := by
  have hm := hrun.metered hb
  refine ⟨hm.cycle, fun hload threads => ?_⟩
  obtain ⟨h', hg, -, -⟩ := hm.generateUthreads hload threads
  exact ⟨_, hg⟩

theorem request_queue_sample : ∃ h, QueueRun sampleConfig h ∧
    h.gen.activeLaunchIds = {0} ∧ ∃ g', h.gen.cycle sampleConfig = .ok g' := by
  have hrun : QueueRun sampleConfig _ := .single
    ⟨.launch sampleLaunch rfl (ok_getD (d := create) (by decide +kernel)), by simp⟩
  exact ⟨_, hrun, by decide +kernel,
    (request_queue_not_overfilled (by decide) hrun).1 (by decide +kernel)⟩

/-! ## An overfull queue -/

theorem hasWork_of_front {g : UThreadGenerator} {l : Nat} {info : RequestInfo}
    {rest : List RequestInfo} (hact : g.activeLaunchIds = {l})
    (hg : g.generated l = info :: rest) : g.hasWork = true := by
  have hne : g.generatedRequests.entries ≠ [] := by
    intro hnil
    have hnone : g.generatedRequests.lookup l = none := by
      rw [AList.lookup, hnil]
      rfl
    rw [UThreadGenerator.generated, hnone] at hg
    cases hg
  simp [hasWork, hact, hne]

theorem getNextLaunchId_of_alone {g : UThreadGenerator} {l : Nat} {info : RequestInfo}
    {rest : List RequestInfo} (hact : g.activeLaunchIds = {l})
    (hg : g.generated l = info :: rest) (hi : checkCanIssue cfg g info = .ok true) :
    getNextLaunchId cfg g = .ok (some l) := by
  rw [getNextLaunchId, hact, Finset.sort_singleton]
  simp only [nextOf, hg, hi, ok_bind, if_true]
  rfl

/-- The initializer of a launch that is active alone. -/
theorem cycle_initializer {g : UThreadGenerator} {l : Nat} {info : RequestInfo}
    {rest : List RequestInfo} (hcoarse : cfg.isCoarseGrained = true) (hqueue : g.launchQueue = [])
    (hact : g.activeLaunchIds = {l}) (hg : g.generated l = info :: rest)
    (ht : info.type = .initializer) (hroom : g.sent.length - g.taken < cfg.requestQueueSize) :
    g.cycle cfg = .ok { g.push l info rest with launched := false } := by
  have hcheck : checkKernelLaunch cfg g = g := by
    rw [checkKernelLaunch, hqueue]
  have hnext : getNextLaunchId cfg g = .ok (some l) := by
    refine getNextLaunchId_of_alone hact hg ?_
    simp only [checkCanIssue, ht]
  simp only [UThreadGenerator.cycle, hcheck, hcoarse, not_true_eq_false, false_and, if_false,
    UThreadGenerator.pushEnds, hasWork_of_front hact hg, hnext, ok_bind, hg, ht, if_true, pushFront,
    if_pos hroom]
  rfl

/-- A launch that is active alone, with more packets in its first body than there is room. -/
theorem generateUthreads_overfull {g : UThreadGenerator} {l room threads : Nat}
    {front rest : List RequestInfo} (hact : g.activeLaunchIds = {l}) (hcount : g.count l = 1)
    (hg : g.generated l = front ++ rest)
    (hfront : ∀ r ∈ front, r.type = .kernelBody ∧ r.kernelBodyId = 0 ∧ r.launchId = l)
    (hbodies : ∀ id, cfg.numKernelBodies id = 1) (htotal : 2 < g.total l)
    (htaken : g.taken ≤ g.sent.length)
    (hroom : g.sent.length - g.taken + room = cfg.requestQueueSize)
    (hlen : room < front.length) (hthreads : room < threads) :
    g.generateUthreads cfg threads = .error .assertion := by
  induction threads generalizing g room front with
  | zero => omega
  | succ threads ih =>
    cases front with
    | nil => simp at hlen
    | cons info front =>
      obtain ⟨htype, hbody, hlaunch⟩ := hfront info List.mem_cons_self
      rw [List.cons_append] at hg
      have hissue : checkCanIssue cfg g info = .ok true := by
        have hmore : ¬ g.total l ≤ 2 := Nat.not_le.mpr htotal
        simp [checkCanIssue, htype, hbody, hlaunch, hcount, hbodies, Nat.sub_eq_zero_iff_le, hmore]
      have hnext := getNextLaunchId_of_alone hact hg hissue
      have hwork := hasWork_of_front hact hg
      simp only [UThreadGenerator.generateUthreads, hwork, hnext, ok_bind, hg, htype, hcount,
        Nat.le_refl, and_self, if_true, pushFront]
      split
      case isFalse => rfl
      case isTrue hlt =>
        have hpushed : (g.push l info (front ++ rest)).generated l = front ++ rest := by
          simp [UThreadGenerator.generated, UThreadGenerator.push]
        have hlength : (g.push l info (front ++ rest)).sent.length = g.sent.length + 1 := by
          simp [UThreadGenerator.push]
        have hroom' : (g.push l info (front ++ rest)).sent.length -
            (g.push l info (front ++ rest)).taken + (room - 1) = cfg.requestQueueSize := by
          rw [hlength]
          simp only [UThreadGenerator.push]
          omega
        have htaken' : (g.push l info (front ++ rest)).taken ≤
            (g.push l info (front ++ rest)).sent.length := by
          rw [hlength]
          exact Nat.le_succ_of_le htaken
        simp only [List.length_cons] at hlen
        exact ih hact hcount hpushed (fun r hr => hfront r (List.mem_cons_of_mem _ hr)) htotal
          htaken' hroom' (by omega) (by omega)

/-- The queue of the NDP unit, in the mode that asks for all threads at once. -/
def coarseConfig : GeneratorConfig :=
  { sampleConfig with requestQueueSize := 2048, isCoarseGrained := true }

/-- One packet more than the queue holds. -/
def wideLaunch : KernelLaunchInfo := { sampleLaunch with size := 2049 * packetSize }

theorem length_matched_wideLaunch : (matched coarseConfig wideLaunch).length = 2049 := by
  simp [matched, packets, wideLaunch, sampleLaunch, coarseConfig, sampleConfig, packetSize]

theorem wideLaunch_requests : ∃ bodies last,
    launchRequests coarseConfig wideLaunch 0 =
      mkRequest wideLaunch 0 .initializer 0 0 0 :: (bodies ++ [last]) ∧
    bodies.length = 2049 ∧
    ∀ r ∈ bodies, r.type = .kernelBody ∧ r.kernelBodyId = 0 ∧ r.launchId = 0 := by
  have hlen := length_matched_wideLaunch
  obtain ⟨last, heq⟩ := launchRequests_eq coarseConfig wideLaunch 0 (Nat.le_refl 1)
    (List.ne_nil_of_length_pos (by omega))
  refine ⟨_, _, heq, ?_, ?_⟩
  · rw [length_laterBodies, hlen]
    rfl
  · intro r hr
    obtain ⟨body, hbody, i, addr, offset, rfl⟩ := mem_laterBodies hr
    refine ⟨rfl, ?_, rfl⟩
    change body ∈ [0] at hbody
    exact List.mem_singleton.mp hbody

theorem wideLaunch_active {reqs : List RequestInfo}
    (hreq : launchRequests coarseConfig wideLaunch 0 = reqs) :
    create.launch coarseConfig wideLaunch =
      .ok ((create.enqueued wideLaunch reqs).activate 0 []) := by
  have hm : matched coarseConfig wideLaunch ≠ [] :=
    List.ne_nil_of_length_pos (by rw [length_matched_wideLaunch]; omega)
  rw [launch_enqueued (by decide) (by decide) (by decide) hm]
  rw [show create.globalReqId = 0 from rfl, hreq]
  refine congrArg Except.ok (checkKernelLaunch_of_admits rfl rfl ⟨.inr ?_, Nat.zero_lt_one⟩)
  have hsmem : (create.enqueued wideLaunch reqs).smemSize 0 = 64 :=
    smemSize_entered create wideLaunch 0
  rw [hsmem]
  exact (by decide : (64 : Int) ≤ 16384 - 8192)

/-- After its initializer, the launch asks for more requests than fit. -/
theorem request_queue_overfilled : ∃ h, QueueRun coarseConfig h ∧
    h.gen.generateUthreads coarseConfig 4096 = .error .assertion := by
  obtain ⟨bodies, last, hreq, hlen, hbodies⟩ := wideLaunch_requests
  generalize hinit : mkRequest wideLaunch 0 .initializer 0 0 0 = init at hreq
  have htype : init.type = .initializer := by rw [← hinit]; rfl
  have hid : init.launchId = 0 := by rw [← hinit]; rfl
  have hlaunch : QueueRun coarseConfig _ :=
    .single ⟨.launch wideLaunch rfl (wideLaunch_active hreq), by simp⟩
  have hcoarse : coarseConfig.isCoarseGrained = true := rfl
  have hcycle := cycle_initializer (l := 0)
    (g := (create.enqueued wideLaunch (init :: (bodies ++ [last]))).activate 0 [])
    hcoarse rfl rfl rfl htype (by exact (by decide : 0 < 2048))
  have hfirst (launches : Binding Nat (KernelLaunchInfo × List RequestInfo)) :
      Step coarseConfig ⟨_, launches, []⟩ ⟨_, launches, [.push init]⟩ :=
    Step.cycle (h := ⟨_, launches, []⟩) hcycle
  have hpush := hlaunch.tail ⟨hfirst _, by simp⟩
  have htake : QueueRun coarseConfig ⟨_, _, [.push init]⟩ :=
    hpush.tail ⟨.take Nat.zero_lt_one, by simp⟩
  have hsame (g : UThreadGenerator) : g.complete init = g.increaseCount 0 := by
    simp [UThreadGenerator.complete, htype, hid]
  have hlast (g : UThreadGenerator)
      (launches : Binding Nat (KernelLaunchInfo × List RequestInfo)) :
      Step coarseConfig ⟨g, launches, [.push init]⟩
        ⟨g.increaseCount 0, launches, [.push init] ++ [.complete init]⟩ := by
    rw [← hsame]
    exact .complete init (List.mem_singleton_self _) (by simp)
  refine ⟨_, htake.tail ⟨hlast _ _, fun r hr => ?_⟩, ?_⟩
  · have hr : r = init := by simpa using hr
    rw [hr]
    exact List.mem_singleton_self init
  · have htotal : 2 < (init :: (bodies ++ [last])).length := by simp [hlen]
    exact generateUthreads_overfull (l := 0) rfl rfl (Eq.refl (bodies ++ [last])) hbodies
      (fun _ => rfl) htotal (Nat.le_refl 1) (Nat.zero_add 2048) (by omega) (by omega)

end History

end NdpSim
