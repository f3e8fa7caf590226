import NdpSim.Timing.GeneratorSteps

/-!
# Barriers between kernel bodies

The generator separates the bodies of a launch only by a completion counter. Over any history
of launches, cycles, generation steps and completions, the requests of a launch are pushed in
the order in which they were generated, and none before all requests of the earlier parts of
its launch have completed.
-/
namespace NdpSim

open Library

/-- What can be seen of a history: requests pushed and requests completed. -/
inductive Event
  | push (r : RequestInfo)
  | complete (r : RequestInfo)
  deriving DecidableEq

def Event.pushed? : Event → Option RequestInfo
  | push r => some r
  | complete _ => none

def Event.completed? : Event → Option RequestInfo
  | push _ => none
  | complete r => some r

/-- A generator with its past: every launch with the requests it generated, and the events. -/
structure History where
  gen : UThreadGenerator
  launches : Binding Nat (KernelLaunchInfo × List RequestInfo)
  log : List Event

namespace History

/-- The part of a request a launch decides, without the running number. -/
def shape (r : RequestInfo) : RequestType × Nat × BitVec 64 × BitVec 64 :=
  (r.type, r.kernelBodyId, r.addr, r.offset)

/-- What a launch is expected to push: the initializer, every matched packet once for each
body in turn, the finalizer; nothing if no packet matches. -/
def expected (cfg : GeneratorConfig) (kinfo : KernelLaunchInfo) :
    List (RequestType × Nat × BitVec 64 × BitVec 64) :=
  let addrs := UThreadGenerator.matched cfg kinfo
  let ends (t : RequestType) :=
    (t, 0, BitVec.ofNat 64 kinfo.baseAddr, BitVec.ofNat 64 cfg.ndpId)
  if addrs = [] then []
  else
    ends .initializer ::
      ((List.range (cfg.numKernelBodies kinfo.kernelId)).flatMap fun body =>
        addrs.map fun addr => (.kernelBody, body, BitVec.ofNat 64 addr,
          BitVec.ofNat 64 (addr - kinfo.baseAddr))) ++
      [ends .finalizer]

/-- `q` has to complete before `r` may be pushed. -/
def Before (q r : RequestInfo) : Prop :=
  match r.type with
  | .initializer => False
  | .kernelBody => q.type = .initializer ∨ q.type = .kernelBody ∧ q.kernelBodyId < r.kernelBodyId
  | .finalizer => q.type ≠ .finalizer

/-- The requests of launch `l` pushed in a log, in order. -/
def pushedOf (log : List Event) (l : Nat) : List RequestInfo :=
  (log.filterMap Event.pushed?).filter fun r => r.launchId = l

/-- The requests of launch `l` completed in a log, in order. -/
def completedOf (log : List Event) (l : Nat) : List RequestInfo :=
  (log.filterMap Event.completed?).filter fun r => r.launchId = l

/-- The events of a step that changed the generator to `g'`. -/
def pushes (g g' : UThreadGenerator) : List Event := (g'.sent.drop g.sent.length).map .push

/-- One step; launch numbers are never reused and a pushed request completes once. -/
inductive Step (cfg : GeneratorConfig) : History → History → Prop
  | launch {h g'} (kinfo : KernelLaunchInfo) (fresh : h.launches.lookup kinfo.launchId = none)
      (hl : h.gen.launch cfg kinfo = .ok g') :
      Step cfg h
        { gen := g'
          launches := h.launches.insert kinfo.launchId (kinfo,
            if kinfo.kernelId ∈ cfg.registeredFunctions then
              UThreadGenerator.launchRequests cfg kinfo h.gen.globalReqId
            else [])
          log := h.log }
  | cycle {h g'} (hc : h.gen.cycle cfg = .ok g') :
      Step cfg h { h with gen := g', log := h.log ++ pushes h.gen g' }
  | generateUthreads {h g'} (threads : Nat) (hg : h.gen.generateUthreads cfg threads = .ok g') :
      Step cfg h { h with gen := g', log := h.log ++ pushes h.gen g' }
  | take {h} (ht : h.gen.taken < h.gen.sent.length) :
      Step cfg h { h with gen := { h.gen with taken := h.gen.taken + 1 } }
  | complete {h} (r : RequestInfo) (hp : .push r ∈ h.log) (hc : .complete r ∉ h.log) :
      Step cfg h { h with gen := h.gen.complete r, log := h.log ++ [.complete r] }

def Run (cfg : GeneratorConfig) : History → Prop :=
  Relation.ReflTransGen (Step cfg) ⟨.create, ∅, []⟩

/-! ## What a launch generates -/

open UThreadGenerator

theorem length_bodyRequests (kinfo : KernelLaunchInfo) (body id : Nat) (addrs : List Nat) :
    (bodyRequests kinfo body id addrs).length = addrs.length := by
  induction addrs generalizing id with
  | nil => rfl
  | cons addr addrs ih => simp [bodyRequests, ih]

theorem length_laterBodies (kinfo : KernelLaunchInfo) (addrs : List Nat) (id : Nat)
    (bodies : List Nat) :
    (laterBodies kinfo addrs id bodies).length = bodies.length * addrs.length := by
  induction bodies generalizing id with
  | nil => simp [laterBodies]
  | cons body bodies ih =>
    simp only [laterBodies, List.length_append, length_bodyRequests, ih, List.length_cons]
    ring

theorem shape_bodyRequests (kinfo : KernelLaunchInfo) (body id : Nat) (addrs : List Nat) :
    (bodyRequests kinfo body id addrs).map shape = addrs.map fun addr =>
      (.kernelBody, body, BitVec.ofNat 64 addr, BitVec.ofNat 64 (addr - kinfo.baseAddr)) := by
  induction addrs generalizing id with
  | nil => rfl
  | cons addr addrs ih => simp [bodyRequests, ih, shape, mkRequest]

theorem shape_laterBodies (kinfo : KernelLaunchInfo) (addrs : List Nat) (id : Nat)
    (bodies : List Nat) :
    (laterBodies kinfo addrs id bodies).map shape = bodies.flatMap fun body =>
      addrs.map fun addr =>
        (.kernelBody, body, BitVec.ofNat 64 addr, BitVec.ofNat 64 (addr - kinfo.baseAddr)) := by
  induction bodies generalizing id with
  | nil => rfl
  | cons body bodies ih =>
    simp only [laterBodies, List.map_append, shape_bodyRequests, ih, List.flatMap_cons]

theorem shape_launchRequests (cfg : GeneratorConfig) (kinfo : KernelLaunchInfo) (id : Nat)
    (hb : 1 ≤ cfg.numKernelBodies kinfo.kernelId) :
    (launchRequests cfg kinfo id).map shape = expected cfg kinfo := by
  have hrange : List.range (cfg.numKernelBodies kinfo.kernelId) =
      0 :: List.range' 1 (cfg.numKernelBodies kinfo.kernelId - 1) := by
    rw [List.range_eq_range', ← Nat.sub_add_cancel hb, List.range'_succ]
    simp
  unfold launchRequests expected
  cases matched cfg kinfo with
  | nil => simp
  | cons addr addrs =>
    rw [hrange]
    simp [shape_bodyRequests, shape_laterBodies, shape, mkRequest]

theorem id_bodyRequests (kinfo : KernelLaunchInfo) (body id : Nat) (addrs : List Nat) :
    (bodyRequests kinfo body id addrs).map RequestInfo.id = List.range' id addrs.length := by
  induction addrs generalizing id with
  | nil => rfl
  | cons addr addrs ih => simp [bodyRequests, ih, mkRequest, List.range'_succ]

theorem id_laterBodies (kinfo : KernelLaunchInfo) (addrs : List Nat) (id : Nat)
    (bodies : List Nat) : (laterBodies kinfo addrs id bodies).map RequestInfo.id =
      List.range' id (bodies.length * addrs.length) := by
  induction bodies generalizing id with
  | nil => simp [laterBodies]
  | cons body bodies ih =>
    simp only [laterBodies, List.map_append, id_bodyRequests, ih, List.length_cons]
    rw [List.range'_append_1, Nat.succ_mul, Nat.add_comm]

/-- The requests of a launch are numbered one after another. -/
theorem id_launchRequests (cfg : GeneratorConfig) (kinfo : KernelLaunchInfo) (id : Nat) :
    (launchRequests cfg kinfo id).map RequestInfo.id =
      List.range' id (launchRequests cfg kinfo id).length := by
  unfold launchRequests
  cases matched cfg kinfo with
  | nil => rfl
  | cons addr addrs =>
    simp only [List.map_append, List.map_cons, List.map_nil, id_bodyRequests, id_laterBodies,
      List.length_append, List.length_cons, List.length_nil, length_bodyRequests,
      length_laterBodies, mkRequest]
    rw [← List.range'_succ, List.range'_append_1, ← List.range'_one, List.range'_append_1]

theorem nodup_launchRequests (cfg : GeneratorConfig) (kinfo : KernelLaunchInfo) (id : Nat) :
    (launchRequests cfg kinfo id).Nodup := by
  refine List.Nodup.of_map RequestInfo.id ?_
  rw [id_launchRequests]
  exact List.nodup_range'

theorem mem_bodyRequests {kinfo : KernelLaunchInfo} {body id : Nat} {addrs : List Nat}
    {r : RequestInfo} (hr : r ∈ bodyRequests kinfo body id addrs) :
    ∃ i addr offset, r = mkRequest kinfo i .kernelBody body addr offset := by
  induction addrs generalizing id with
  | nil => cases hr
  | cons addr addrs ih =>
    obtain rfl | hr := List.mem_cons.mp hr
    · exact ⟨_, _, _, rfl⟩
    · exact ih hr

theorem mem_laterBodies {kinfo : KernelLaunchInfo} {addrs : List Nat} {id : Nat} {bs : List Nat}
    {req : RequestInfo} (h : req ∈ laterBodies kinfo addrs id bs) :
    ∃ body ∈ bs, ∃ i addr offset, req = mkRequest kinfo i .kernelBody body addr offset := by
  induction bs generalizing id with
  | nil => cases h
  | cons body bs ih =>
    obtain h | h := List.mem_append.mp h
    · exact ⟨body, List.mem_cons_self, mem_bodyRequests h⟩
    · obtain ⟨body', hmem, hreq⟩ := ih h
      exact ⟨body', List.mem_cons_of_mem _ hmem, hreq⟩

/-- A launch asks for its first body in any case, and for those the generator counts. -/
theorem mem_launchRequests {cfg : GeneratorConfig} {kinfo : KernelLaunchInfo} {id : Nat}
    {req : RequestInfo} (h : req ∈ launchRequests cfg kinfo id) :
    ∃ type i body addr offset, req = mkRequest kinfo i type body addr offset ∧
      (body = 0 ∨ body < cfg.numKernelBodies kinfo.kernelId) := by
  unfold launchRequests at h
  split at h
  case h_1 => cases h
  case h_2 =>
    simp only [List.mem_append, List.mem_cons, List.not_mem_nil, or_false] at h
    obtain ((rfl | h) | h) | rfl := h
    · exact ⟨_, _, _, _, _, rfl, .inl rfl⟩
    · obtain ⟨i, addr, offset, rfl⟩ := mem_bodyRequests h
      exact ⟨_, _, _, _, _, rfl, .inl rfl⟩
    · obtain ⟨body, hbody, i, addr, offset, rfl⟩ := mem_laterBodies h
      rw [List.mem_range'_1] at hbody
      exact ⟨_, _, _, _, _, rfl, .inr (by omega)⟩
    · exact ⟨_, _, _, _, _, rfl, .inl rfl⟩

/-- The request at place `p` of the later bodies belongs to the `p / addrs.length`-th of them. -/
theorem getElem?_laterBodies {kinfo : KernelLaunchInfo} {addrs : List Nat} {id s n p : Nat}
    {r : RequestInfo} (hr : (laterBodies kinfo addrs id (List.range' s n))[p]? = some r) :
    ∃ i addr offset,
      r = mkRequest kinfo i .kernelBody (s + p / addrs.length) addr offset := by
  induction n generalizing id s p with
  | zero => simp [laterBodies] at hr
  | succ n ih =>
    rw [List.range'_succ, laterBodies] at hr
    by_cases hp : p < addrs.length
    · rw [List.getElem?_append_left (by rwa [length_bodyRequests])] at hr
      rw [Nat.div_eq_of_lt hp]
      exact mem_bodyRequests (List.mem_of_getElem? hr)
    · rw [List.getElem?_append_right (by rw [length_bodyRequests]; omega),
        length_bodyRequests] at hr
      have hpos : 0 < addrs.length := by
        by_contra h0
        have hnil : addrs = [] := List.eq_nil_of_length_eq_zero (by omega)
        have hlen := length_laterBodies kinfo addrs (id + addrs.length) (List.range' (s + 1) n)
        have hlt := (List.getElem?_eq_some_iff.mp hr).1
        rw [hlen, hnil] at hlt
        simp at hlt
      obtain ⟨i, addr, offset, rfl⟩ := ih hr
      refine ⟨i, addr, offset, ?_⟩
      rw [Nat.div_eq p addrs.length, if_pos ⟨hpos, by omega⟩]
      congr 1
      omega

/-- The first body is generated with the initializer, but like the others. -/
theorem launchRequests_eq (cfg : GeneratorConfig) (kinfo : KernelLaunchInfo) (id : Nat)
    (hb : 1 ≤ cfg.numKernelBodies kinfo.kernelId) (hm : matched cfg kinfo ≠ []) :
    ∃ last, launchRequests cfg kinfo id =
      mkRequest kinfo id .initializer 0 kinfo.baseAddr cfg.ndpId ::
        (laterBodies kinfo (matched cfg kinfo) (id + 1)
          (List.range' 0 (cfg.numKernelBodies kinfo.kernelId)) ++
        [mkRequest kinfo last .finalizer 0 kinfo.baseAddr cfg.ndpId]) := by
  rw [← Nat.sub_add_cancel hb, List.range'_succ, laterBodies]
  unfold launchRequests
  cases hmm : matched cfg kinfo with
  | nil => exact absurd hmm hm
  | cons addr addrs =>
    refine ⟨id + (addrs.length + 1 + (cfg.numKernelBodies kinfo.kernelId - 1) *
      (addrs.length + 1) + 1), ?_⟩
    simp only [List.cons_append, List.append_assoc, List.length_cons, List.length_append,
      length_bodyRequests, length_laterBodies, List.length_range']
    rw [Nat.add_assoc id 1, Nat.add_comm 1 (addrs.length + 1), Nat.zero_add]

/-- The parts of a launch with `n` bodies of `m` packets each, by place. -/
structure Plan (kinfo : KernelLaunchInfo) (n m : Nat) (plan : List RequestInfo) : Prop where
  length : plan.length = n * m + 2
  first : ∀ r, plan[0]? = some r → r.type = .initializer
  body : ∀ p r, p < n * m → plan[p + 1]? = some r → r.type = .kernelBody ∧ r.kernelBodyId = p / m
  last : ∀ r, plan[n * m + 1]? = some r → r.type = .finalizer
  launch : ∀ r ∈ plan, r.launchId = kinfo.launchId ∧ r.kernelId = kinfo.kernelId
  nodup : plan.Nodup

theorem plan_launchRequests (cfg : GeneratorConfig) (kinfo : KernelLaunchInfo) (id : Nat)
    (hb : 1 ≤ cfg.numKernelBodies kinfo.kernelId) (hm : matched cfg kinfo ≠ []) :
    Plan kinfo (cfg.numKernelBodies kinfo.kernelId) (matched cfg kinfo).length
      (launchRequests cfg kinfo id) := by
  have hnd := nodup_launchRequests cfg kinfo id
  obtain ⟨last, heq⟩ := launchRequests_eq cfg kinfo id hb hm
  rw [heq] at hnd ⊢
  have hlen := length_laterBodies kinfo (matched cfg kinfo) (id + 1)
    (List.range' 0 (cfg.numKernelBodies kinfo.kernelId))
  rw [List.length_range'] at hlen
  refine ⟨?_, ?_, fun p r hp hr => ?_, fun r hr => ?_, fun r hr => ?_, hnd⟩
  · simp [hlen]
  · intro r hr
    obtain rfl := Option.some_inj.mp hr
    rfl
  · rw [List.getElem?_cons_succ, List.getElem?_append_left (by omega)] at hr
    obtain ⟨i, addr, offset, rfl⟩ := getElem?_laterBodies hr
    exact ⟨rfl, Nat.zero_add _⟩
  · rw [List.getElem?_cons_succ, List.getElem?_append_right (by omega), hlen,
      Nat.sub_self] at hr
    obtain rfl := Option.some_inj.mp hr
    rfl
  · simp only [List.mem_cons, List.mem_append, List.not_mem_nil, or_false] at hr
    obtain rfl | hr | rfl := hr
    · exact ⟨rfl, rfl⟩
    · obtain ⟨p, hp⟩ := List.getElem?_of_mem hr
      obtain ⟨i, addr, offset, rfl⟩ := getElem?_laterBodies hp
      exact ⟨rfl, rfl⟩
    · exact ⟨rfl, rfl⟩

namespace Plan

variable {kinfo : KernelLaunchInfo} {n m : Nat} {plan : List RequestInfo}

/-- Each place of a plan is its first, its last, or in a body. -/
theorem place_cases (h : Plan kinfo n m plan) {j : Nat} {r : RequestInfo}
    (hj : plan[j]? = some r) :
    j = 0 ∧ r.type = .initializer ∨
    (∃ p, j = p + 1 ∧ p < n * m ∧ r.type = .kernelBody) ∨
    j = n * m + 1 ∧ r.type = .finalizer := by
  have hlt := (List.getElem?_eq_some_iff.mp hj).1
  have hlen := h.length
  obtain rfl | ⟨p, rfl⟩ : j = 0 ∨ ∃ p, j = p + 1 := by
    cases j with
    | zero => exact .inl rfl
    | succ p => exact .inr ⟨p, rfl⟩
  · exact .inl ⟨rfl, h.first r hj⟩
  · by_cases hp : p < n * m
    · exact .inr (.inl ⟨p, rfl, hp, (h.body p r hp hj).1⟩)
    · obtain rfl : p = n * m := by omega
      exact .inr (.inr ⟨rfl, h.last r hj⟩)

theorem place_of_initializer (h : Plan kinfo n m plan) {j : Nat} {r : RequestInfo}
    (hj : plan[j]? = some r) (ht : r.type = .initializer) : j = 0 := by
  obtain ⟨rfl, -⟩ | ⟨p, -, -, ht'⟩ | ⟨-, ht'⟩ := h.place_cases hj
  · rfl
  · simp [ht] at ht'
  · simp [ht] at ht'

theorem place_of_kernelBody (h : Plan kinfo n m plan) {j : Nat} {r : RequestInfo}
    (hj : plan[j]? = some r) (ht : r.type = .kernelBody) : ∃ p, j = p + 1 ∧ p < n * m := by
  obtain ⟨-, ht'⟩ | ⟨p, hp, hlt, -⟩ | ⟨-, ht'⟩ := h.place_cases hj
  · simp [ht] at ht'
  · exact ⟨p, hp, hlt⟩
  · simp [ht] at ht'

theorem place_of_finalizer (h : Plan kinfo n m plan) {j : Nat} {r : RequestInfo}
    (hj : plan[j]? = some r) (ht : r.type = .finalizer) : j = n * m + 1 := by
  obtain ⟨-, ht'⟩ | ⟨p, -, -, ht'⟩ | ⟨hp, -⟩ := h.place_cases hj
  · simp [ht] at ht'
  · simp [ht] at ht'
  · exact hp

end Plan

/-! ## The barrier at one push -/

/-- If a sublist-free completion set is as large as the pushed list, everything pushed has
completed. -/
theorem all_completed {pushed completed : List RequestInfo} (hc : completed.Nodup)
    (hsub : completed ⊆ pushed) (hlen : pushed.length ≤ completed.length) :
    pushed ⊆ completed :=
  (hc.subperm hsub).perm_of_length_le hlen |>.symm.subset

/-- The front request of a launch that the counter lets go: everything that has to be before it
has completed. -/
theorem before_completed {kinfo : KernelLaunchInfo} {n m : Nat}
    {pushed rest completed : List RequestInfo} {r : RequestInfo}
    (hplan : Plan kinfo n m (pushed ++ r :: rest)) (hm : 0 < m)
    (hc : completed.Nodup) (hsub : completed ⊆ pushed)
    (hpast : ∀ r' ∈ pushed, ∀ q ∈ pushed ++ r :: rest, Before q r' → q ∈ completed)
    (hissue : match r.type with
      | .initializer => True
      | .kernelBody => 1 ≤ completed.length ∧ r.kernelBodyId = (completed.length - 1) / m
      | .finalizer => completed.length = n * m + 1) :
    ∀ q ∈ pushed ++ r :: rest, Before q r → q ∈ completed := by
  intro q hq hbefore
  have hr : (pushed ++ r :: rest)[pushed.length]? = some r := by simp
  obtain ⟨j, hj⟩ := List.getElem?_of_mem hq
  have hmem {i : Nat} (hi : i < pushed.length) {s : RequestInfo}
      (hs : (pushed ++ r :: rest)[i]? = some s) : s ∈ pushed := by
    rw [List.getElem?_append_left hi] at hs
    exact List.mem_of_getElem? hs
  have hlen := hplan.length
  simp only [List.length_append, List.length_cons] at hlen
  unfold Before at hbefore
  split at hbefore
  case h_1 => exact hbefore.elim
  case h_2 ht =>
    rw [ht] at hissue
    obtain ⟨hpos, hk⟩ := hissue
    obtain ⟨p, hp, hlt⟩ : ∃ p, pushed.length = p + 1 ∧ p < n * m :=
      hplan.place_of_kernelBody hr ht
    have hbody := (hplan.body p r hlt (hp ▸ hr)).2
    -- the counter has passed all earlier bodies
    have hcount : p / m * m ≤ completed.length - 1 := by
      rw [← hbody, hk]
      exact Nat.div_mul_le_self _ _
    have hjp : j < p / m * m + 1 := by
      obtain hi | ⟨hb, hlt'⟩ := hbefore
      · have := hplan.place_of_initializer hj hi
        omega
      · obtain ⟨i, rfl, hin⟩ := hplan.place_of_kernelBody hj hb
        rw [(hplan.body i q hin hj).2, hbody, Nat.div_lt_iff_lt_mul hm] at hlt'
        omega
    have hle : p / m * m ≤ p := Nat.div_mul_le_self _ _
    by_cases hfirst : p = p / m * m
    · -- `r` is the first of its body: the completed requests are all that was pushed
      exact all_completed hc hsub (by omega) (hmem (by omega) hj)
    · -- a request of the same body went before, when the earlier bodies had completed
      obtain ⟨r', hr'⟩ : ∃ r', (pushed ++ r :: rest)[p / m * m + 1]? = some r' :=
        ⟨_, List.getElem?_eq_getElem (by simp; omega)⟩
      obtain ⟨ht', hb'⟩ := hplan.body (p / m * m) r' (by omega) hr'
      rw [Nat.mul_div_cancel _ hm, ← hbody] at hb'
      refine hpast r' (hmem (by omega) hr') q hq ?_
      unfold Before
      rw [ht', hb']
      exact hbefore
  case h_3 ht =>
    rw [ht] at hissue
    have hp := hplan.place_of_finalizer hr ht
    refine all_completed hc hsub (by omega) (hmem ?_ hj)
    have hj' := (List.getElem?_eq_some_iff.mp hj).1
    have hne : j ≠ n * m + 1 := by
      rintro rfl
      exact hbefore (hplan.last q hj)
    simp only [List.length_append, List.length_cons] at hj'
    omega

/-- The parts of the generator the barrier depends on are the same. -/
structure SameQueues (g g' : UThreadGenerator) : Prop where
  generated : ∀ l, g'.generated l = g.generated l
  count : ∀ l, g'.count l = g.count l
  total : ∀ l, g'.total l = g.total l
  sent : g'.sent = g.sent

theorem checkKernelLaunch_same (cfg : GeneratorConfig) (g : UThreadGenerator) :
    SameQueues g (checkKernelLaunch cfg g) := by
  unfold checkKernelLaunch
  split
  · exact ⟨fun _ => rfl, fun _ => rfl, fun _ => rfl, rfl⟩
  · split <;> exact ⟨fun _ => rfl, fun _ => rfl, fun _ => rfl, rfl⟩

/-! ## The invariant -/

/-- The barrier over a log: when a request was pushed, everything before it had completed. -/
def Barrier (launches : Binding Nat (KernelLaunchInfo × List RequestInfo)) (log : List Event) :
    Prop :=
  ∀ pre r post, log = pre ++ .push r :: post → ∀ kinfo plan,
    launches.lookup r.launchId = some (kinfo, plan) → ∀ q ∈ plan, Before q r → .complete q ∈ pre

structure Inv (cfg : GeneratorConfig) (h : History) : Prop where
  queue : h.log.filterMap Event.pushed? = h.gen.sent
  shapes : ∀ l kinfo plan, h.launches.lookup l = some (kinfo, plan) →
    plan.map shape =
      if kinfo.kernelId ∈ cfg.registeredFunctions then expected cfg kinfo else []
  planned : ∀ l kinfo plan, h.launches.lookup l = some (kinfo, plan) →
    plan = [] ∨ kinfo.launchId = l ∧ 0 < cfg.numKernelBodies kinfo.kernelId ∧
      ∃ m, 0 < m ∧ Plan kinfo (cfg.numKernelBodies kinfo.kernelId) m plan
  split : ∀ l kinfo plan, h.launches.lookup l = some (kinfo, plan) →
    pushedOf h.log l ++ h.gen.generated l = plan
  unknown : ∀ l, h.launches.lookup l = none → h.gen.generated l = [] ∧ pushedOf h.log l = []
  once : ∀ l, (completedOf h.log l).Nodup
  pushed : ∀ l, completedOf h.log l ⊆ pushedOf h.log l
  counted : ∀ l kinfo plan, h.launches.lookup l = some (kinfo, plan) → plan ≠ [] →
    (∀ r ∈ completedOf h.log l, r.type ≠ .finalizer) →
    h.gen.count l = (completedOf h.log l).length ∧ h.gen.total l = plan.length
  barrier : Barrier h.launches h.log

theorem mem_completedOf {log : List Event} {l : Nat} {r : RequestInfo} :
    r ∈ completedOf log l ↔ .complete r ∈ log ∧ r.launchId = l := by
  simp only [completedOf, List.mem_filter, List.mem_filterMap, decide_eq_true_eq]
  refine and_congr_left fun _ => ⟨?_, fun h => ⟨_, h, rfl⟩⟩
  rintro ⟨e, he, h⟩
  cases e with
  | push _ => cases h
  | complete q => rwa [← Option.some_inj.mp h]

theorem mem_pushedOf {log : List Event} {l : Nat} {r : RequestInfo} :
    r ∈ pushedOf log l ↔ .push r ∈ log ∧ r.launchId = l := by
  simp only [pushedOf, List.mem_filter, List.mem_filterMap, decide_eq_true_eq]
  refine and_congr_left fun _ => ⟨?_, fun h => ⟨_, h, rfl⟩⟩
  rintro ⟨e, he, h⟩
  cases e with
  | complete _ => cases h
  | push q => rwa [← Option.some_inj.mp h]

theorem pushedOf_push (log : List Event) (l : Nat) (r : RequestInfo) :
    pushedOf (log ++ [.push r]) l = pushedOf log l ++ if r.launchId = l then [r] else [] := by
  simp [pushedOf, Event.pushed?, List.filter_cons]

theorem pushedOf_complete (log : List Event) (l : Nat) (r : RequestInfo) :
    pushedOf (log ++ [.complete r]) l = pushedOf log l := by
  simp [pushedOf, Event.pushed?]

theorem completedOf_push (log : List Event) (l : Nat) (r : RequestInfo) :
    completedOf (log ++ [.push r]) l = completedOf log l := by
  simp [completedOf, Event.completed?]

theorem completedOf_complete (log : List Event) (l : Nat) (r : RequestInfo) :
    completedOf (log ++ [.complete r]) l =
      completedOf log l ++ if r.launchId = l then [r] else [] := by
  simp [completedOf, Event.completed?, List.filter_cons]

/-- Appending an event keeps the barrier if the event does. -/
theorem Barrier.snoc {launches : Binding Nat (KernelLaunchInfo × List RequestInfo)}
    {log : List Event} {e : Event} (hb : Barrier launches log)
    (he : ∀ r, e = .push r → ∀ kinfo plan, launches.lookup r.launchId = some (kinfo, plan) →
      ∀ q ∈ plan, Before q r → .complete q ∈ log) :
    Barrier launches (log ++ [e]) := by
  intro pre r post hlog kinfo plan hl q hq hbefore
  obtain rfl | ⟨post, e', rfl⟩ := List.eq_nil_or_concat' post
  · obtain ⟨rfl, hr⟩ := List.append_inj' hlog rfl
    obtain rfl : e = .push r := by simpa using hr
    exact he r rfl kinfo plan hl q hq hbefore
  · rw [← List.cons_append, ← List.append_assoc] at hlog
    obtain ⟨rfl, -⟩ := List.append_inj' hlog rfl
    exact hb pre r post rfl kinfo plan hl q hq hbefore

section Preserved

variable {cfg : GeneratorConfig} {h : History}

/-- The front request of a launch, with what the invariant says about its launch. -/
theorem Inv.front (hi : Inv cfg h) {l : Nat} {info : RequestInfo} {rest : List RequestInfo}
    (hg : h.gen.generated l = info :: rest) :
    ∃ kinfo m, h.launches.lookup l = some (kinfo, pushedOf h.log l ++ info :: rest) ∧
      kinfo.launchId = l ∧ 0 < cfg.numKernelBodies kinfo.kernelId ∧ 0 < m ∧
      Plan kinfo (cfg.numKernelBodies kinfo.kernelId) m (pushedOf h.log l ++ info :: rest) := by
  cases hl : h.launches.lookup l with
  | none => simp [(hi.unknown l hl).1] at hg
  | some entry =>
    obtain ⟨kinfo, plan⟩ := entry
    have hs := hi.split l kinfo plan hl
    rw [hg] at hs
    subst hs
    obtain hnil | ⟨hk, hn, m, hm, hp⟩ := hi.planned l kinfo _ hl
    · simp at hnil
    · exact ⟨kinfo, m, rfl, hk, hn, hm, hp⟩

/-- While a launch has requests left, its finalizer has not been pushed. -/
theorem Plan.not_finalizer {kinfo : KernelLaunchInfo} {n m : Nat} {info : RequestInfo}
    {pushed rest : List RequestInfo} (hp : Plan kinfo n m (pushed ++ info :: rest)) :
    ∀ r ∈ pushed, r.type ≠ .finalizer := by
  intro r hr ht
  obtain ⟨j, hj⟩ := List.getElem?_of_mem hr
  have hlt := (List.getElem?_eq_some_iff.mp hj).1
  have hj' : (pushed ++ info :: rest)[j]? = some r := by
    rw [List.getElem?_append_left hlt, hj]
  have hlen := hp.length
  have hplace := hp.place_of_finalizer hj' ht
  simp only [List.length_append, List.length_cons] at hlen
  omega

/-- Everything before an already pushed request of the launch has completed. -/
theorem Inv.past (hi : Inv cfg h) {l : Nat} {kinfo : KernelLaunchInfo} {plan : List RequestInfo}
    (hl : h.launches.lookup l = some (kinfo, plan)) (hlaunch : ∀ q ∈ plan, q.launchId = l) :
    ∀ r ∈ pushedOf h.log l, ∀ q ∈ plan, Before q r → q ∈ completedOf h.log l := by
  intro r hr q hq hbefore
  obtain ⟨hmem, rfl⟩ := mem_pushedOf.mp hr
  obtain ⟨pre, post, hlog⟩ := List.append_of_mem hmem
  have hq' := hi.barrier pre r post hlog kinfo plan hl q hq hbefore
  refine mem_completedOf.mpr ⟨?_, hlaunch q hq⟩
  rw [hlog]
  exact List.mem_append_left _ hq'

/-- What the counter check says, given what the invariant says about the counters: it divides by
nothing that is zero. -/
theorem checkCanIssue_spec {g : UThreadGenerator} {info : RequestInfo} {n m c : Nat}
    (hn : 0 < n) (hm : 0 < m) (hbodies : cfg.numKernelBodies info.kernelId = n)
    (hcount : g.count info.launchId = c) (htotal : g.total info.launchId = n * m + 2) :
    ∃ may, checkCanIssue cfg g info = .ok may ∧ (may = true →
      match info.type with
      | .initializer => True
      | .kernelBody => 1 ≤ c ∧ info.kernelBodyId = (c - 1) / m
      | .finalizer => c = n * m + 1) := by
  unfold checkCanIssue
  simp only [hcount, htotal, hbodies, Nat.add_sub_cancel, Nat.mul_div_cancel_left m hn]
  cases ht : info.type with
  | initializer => exact ⟨true, rfl, fun _ => trivial⟩
  | kernelBody =>
    dsimp only
    by_cases hc : c = 0
    · exact ⟨false, if_pos hc, fun h => by cases h⟩
    · refine ⟨_, by rw [if_neg hc, if_neg (by omega)], fun h => ⟨by omega, by simpa using h⟩⟩
  | finalizer => exact ⟨_, rfl, fun h => by simpa using h⟩

/-- The front request of a launch can be checked; where it may go, its turn has come. -/
theorem Inv.check (hi : Inv cfg h) {l : Nat} {info : RequestInfo} {rest : List RequestInfo}
    (hg : h.gen.generated l = info :: rest) :
    ∃ kinfo n m may, h.launches.lookup l = some (kinfo, pushedOf h.log l ++ info :: rest) ∧
      kinfo.launchId = l ∧ 0 < m ∧ Plan kinfo n m (pushedOf h.log l ++ info :: rest) ∧
      checkCanIssue cfg h.gen info = .ok may ∧ (may = true →
        match info.type with
        | .initializer => True
        | .kernelBody => 1 ≤ (completedOf h.log l).length ∧
            info.kernelBodyId = ((completedOf h.log l).length - 1) / m
        | .finalizer => (completedOf h.log l).length = n * m + 1) := by
  obtain ⟨kinfo, m, hl, hk, hn, hm, hplan⟩ := hi.front hg
  obtain ⟨hlaunch, hkernel⟩ := hplan.launch info (by simp)
  rw [hk] at hlaunch
  have hnofin : ∀ r ∈ completedOf h.log l, r.type ≠ .finalizer := fun r hr =>
    hplan.not_finalizer r (hi.pushed l hr)
  obtain ⟨hcount, htotal⟩ := hi.counted l kinfo _ hl (by simp) hnofin
  obtain ⟨may, hmay, hturn⟩ := checkCanIssue_spec (g := h.gen) hn hm (by rw [hkernel])
    (by rw [hlaunch, hcount]) (by rw [hlaunch, htotal, hplan.length])
  exact ⟨kinfo, _, m, may, hl, hk, hm, hplan, hmay, hturn⟩

/-- The next launch is found without a fault. -/
theorem Inv.nextOf (hi : Inv cfg h) (ls : List Nat) :
    ∃ next, UThreadGenerator.nextOf cfg h.gen ls = .ok next := by
  induction ls with
  | nil => exact ⟨none, rfl⟩
  | cons l ls ih =>
    simp only [UThreadGenerator.nextOf]
    split
    case h_1 => exact ih
    case h_2 info rest hg =>
      obtain ⟨-, -, -, may, -, -, -, -, hmay, -⟩ := hi.check hg
      rw [hmay]
      cases may with
      | false => exact ih
      | true => exact ⟨some l, rfl⟩

theorem Inv.issue (hi : Inv cfg h) {l : Nat} {info : RequestInfo} {rest : List RequestInfo}
    (hg : h.gen.generated l = info :: rest) (hc : checkCanIssue cfg h.gen info = .ok true) :
    Inv cfg { h with gen := h.gen.push l info rest, log := h.log ++ [.push info] } := by
  obtain ⟨kinfo, n, m, may, hl, hk, hm, hplan, hmay, hturn⟩ := hi.check hg
  have hlaunch := (hplan.launch info (by simp)).1
  rw [hk] at hlaunch
  have hbefore : ∀ q ∈ pushedOf h.log l ++ info :: rest, Before q info →
      q ∈ completedOf h.log l := by
    refine before_completed hplan hm (hi.once l) (hi.pushed l)
      (hi.past hl fun q hq => by rw [(hplan.launch q hq).1, hk]) (hturn ?_)
    exact Except.ok.inj (hmay.symm.trans hc)
  have hgen (l' : Nat) : (h.gen.push l info rest).generated l' =
      if l' = l then rest else h.gen.generated l' := by
    by_cases heq : l' = l
    · subst heq
      simp [UThreadGenerator.generated, UThreadGenerator.push, AList.lookup_insert]
    · simp [UThreadGenerator.generated, UThreadGenerator.push, AList.lookup_insert_ne heq, heq]
  refine ⟨?_, hi.shapes, hi.planned, ?_, ?_, ?_, ?_, ?_, ?_⟩
  · simp [List.filterMap_append, hi.queue, Event.pushed?, UThreadGenerator.push]
  · intro l' kinfo' plan' hl'
    dsimp only
    rw [hgen, pushedOf_push, hlaunch]
    by_cases heq : l' = l
    · subst heq
      rw [hl] at hl'
      obtain ⟨-, rfl⟩ := Prod.mk.inj (Option.some_inj.mp hl')
      simp
    · rw [if_neg heq, if_neg (Ne.symm heq), List.append_nil]
      exact hi.split l' kinfo' plan' hl'
  · intro l' hl'
    have hne : l' ≠ l := by
      rintro rfl
      simp [hl] at hl'
    dsimp only
    rw [hgen, pushedOf_push, hlaunch, if_neg hne, if_neg (Ne.symm hne), List.append_nil]
    exact hi.unknown l' hl'
  · intro l'
    rw [completedOf_push]
    exact hi.once l'
  · intro l'
    rw [completedOf_push, pushedOf_push]
    exact List.Subset.trans (hi.pushed l') (List.subset_append_left _ _)
  · intro l' kinfo' plan' hl' hne hfin
    rw [completedOf_push] at hfin ⊢
    exact hi.counted l' kinfo' plan' hl' hne hfin
  · refine hi.barrier.snoc fun r hr kinfo' plan' hl' q hq hb => ?_
    obtain rfl := Event.push.inj hr
    rw [hlaunch, hl] at hl'
    obtain ⟨-, rfl⟩ := Prod.mk.inj (Option.some_inj.mp hl')
    exact (mem_completedOf.mp (hbefore q hq hb)).1

theorem Inv.same (hi : Inv cfg h) {g' : UThreadGenerator} (hs : SameQueues h.gen g') :
    Inv cfg { h with gen := g' } := by
  refine ⟨hi.queue.trans hs.sent.symm, hi.shapes, hi.planned, fun l kinfo plan hl => ?_,
    fun l hl => ?_, hi.once, hi.pushed, fun l kinfo plan hl hne hfin => ?_, hi.barrier⟩
  · rw [hs.generated]
    exact hi.split l kinfo plan hl
  · rw [hs.generated]
    exact hi.unknown l hl
  · rw [hs.count, hs.total]
    exact hi.counted l kinfo plan hl hne hfin

/-- A sequence of changes keeps the invariant, with the pushed requests added to the log. -/
theorem Inv.changes (hi : Inv cfg h) {g' : UThreadGenerator} (hc : Changes cfg h.gen g') :
    h.gen.sent <+: g'.sent ∧ Inv cfg { h with gen := g', log := h.log ++ pushes h.gen g' } := by
  induction hc with
  | refl => simpa [pushes] using hi
  | @tail g g' _ hstep ih =>
    obtain ⟨⟨added, hadded⟩, ih⟩ := ih
    have hkept (hsame : SameQueues g g') : h.gen.sent <+: g'.sent ∧
        Inv cfg { h with gen := g', log := h.log ++ pushes h.gen g' } := by
      refine ⟨⟨added, by rw [hsame.sent, hadded]⟩, ?_⟩
      have hinv := ih.same hsame
      simpa [pushes, hsame.sent] using hinv
    cases hstep with
    | activate l rest hq hl ha => exact hkept ⟨fun _ => rfl, fun _ => rfl, fun _ => rfl, rfl⟩
    | push hpush =>
      cases hpush with
      | push l info rest hl hg hmay =>
        refine ⟨⟨added ++ [info], by simp [UThreadGenerator.push, ← hadded]⟩, ?_⟩
        have hinv := ih.issue hg hmay
        simpa [pushes, UThreadGenerator.push, ← hadded] using hinv
      | unlaunch => exact hkept ⟨fun _ => rfl, fun _ => rfl, fun _ => rfl, rfl⟩

/-- What a launch does to the queues and counters of each launch number. -/
theorem launch_spec {g g' : UThreadGenerator} {kinfo : KernelLaunchInfo}
    (hl : g.launch cfg kinfo = .ok g') (hold : g.generated kinfo.launchId = []) :
    g'.sent = g.sent ∧
    (∀ l, l ≠ kinfo.launchId → g'.generated l = g.generated l ∧ g'.count l = g.count l ∧
      g'.total l = g.total l) ∧
    if kinfo.kernelId ∈ cfg.registeredFunctions then
      g'.generated kinfo.launchId = launchRequests cfg kinfo g.globalReqId ∧
      (launchRequests cfg kinfo g.globalReqId ≠ [] → g'.count kinfo.launchId = 0 ∧
        g'.total kinfo.launchId = (launchRequests cfg kinfo g.globalReqId).length)
    else g'.generated kinfo.launchId = [] := by
  simp only [UThreadGenerator.launch] at hl
  split at hl
  · cases hl
  split at hl
  · cases hl
  split at hl
  case isTrue hreg =>
    obtain rfl := Except.ok.inj hl
    rw [if_neg hreg]
    exact ⟨rfl, fun l _ => ⟨rfl, rfl, rfl⟩, hold⟩
  case isFalse hreg =>
    rw [if_pos (not_not.mp hreg)]
    obtain rfl := Except.ok.inj hl
    have hsame := checkKernelLaunch_same cfg
    simp only [(hsame _).generated, (hsame _).count, (hsame _).total, (hsame _).sent]
    cases hreq : launchRequests cfg kinfo g.globalReqId with
    | nil =>
      refine ⟨rfl, fun l hne => ⟨rfl, ?_, ?_⟩, hold, fun h => absurd rfl h⟩
      · simp [UThreadGenerator.count, finishLaunch, AList.lookup_erase_ne hne,
          AList.lookup_insert_ne hne]
      · simp [UThreadGenerator.total, finishLaunch, AList.lookup_erase_ne hne,
          AList.lookup_insert_ne hne]
    | cons r rs =>
      refine ⟨rfl, fun l hne => ⟨?_, ?_, ?_⟩, ?_, fun _ => ⟨?_, ?_⟩⟩
      · simp [UThreadGenerator.generated, AList.lookup_insert_ne hne]
      · simp [UThreadGenerator.count, AList.lookup_insert_ne hne]
      · simp [UThreadGenerator.total, AList.lookup_insert_ne hne]
      · simp [UThreadGenerator.generated, AList.lookup_insert]
      · simp [UThreadGenerator.count, AList.lookup_insert]
      · simp [UThreadGenerator.total, AList.lookup_insert]

theorem Inv.take (hi : Inv cfg h) :
    Inv cfg { h with gen := { h.gen with taken := h.gen.taken + 1 } } :=
  hi.same ⟨fun _ => rfl, fun _ => rfl, fun _ => rfl, rfl⟩

/-- What a completion does to the counters, unless it ends its launch. -/
theorem complete_spec (g : UThreadGenerator) (r : RequestInfo) :
    (g.complete r).sent = g.sent ∧ (∀ l, (g.complete r).generated l = g.generated l) ∧
    (∀ l, l ≠ r.launchId → (g.complete r).count l = g.count l ∧
      (g.complete r).total l = g.total l) ∧
    (r.type ≠ .finalizer → (g.complete r).count r.launchId = g.count r.launchId + 1 ∧
      (g.complete r).total r.launchId = g.total r.launchId) := by
  unfold UThreadGenerator.complete
  by_cases hr : r.type = .finalizer
  · refine ⟨by simp [hr, increaseCount, finishLaunch], fun l => ?_, fun l hne => ⟨?_, ?_⟩,
      fun h => absurd hr h⟩
    · simp [hr, increaseCount, finishLaunch, UThreadGenerator.generated]
    · simp [hr, increaseCount, finishLaunch, UThreadGenerator.count,
        AList.lookup_insert_ne hne, AList.lookup_erase_ne hne]
    · simp [hr, increaseCount, finishLaunch, UThreadGenerator.total, AList.lookup_erase_ne hne]
  · refine ⟨by simp [hr, increaseCount], fun l => ?_, fun l hne => ⟨?_, ?_⟩,
      fun _ => ⟨?_, ?_⟩⟩
    · simp [hr, increaseCount, UThreadGenerator.generated]
    · simp [hr, increaseCount, UThreadGenerator.count, AList.lookup_insert_ne hne]
    · simp [hr, increaseCount, UThreadGenerator.total]
    · simp [hr, increaseCount, UThreadGenerator.count, AList.lookup_insert]
    · simp [hr, increaseCount, UThreadGenerator.total]

theorem Inv.complete (hi : Inv cfg h) (r : RequestInfo) (hp : .push r ∈ h.log)
    (hc : .complete r ∉ h.log) :
    Inv cfg { h with gen := h.gen.complete r, log := h.log ++ [.complete r] } := by
  obtain ⟨hsent, hgen, hother, hself⟩ := complete_spec h.gen r
  refine ⟨?_, hi.shapes, hi.planned, fun l kinfo plan hl => ?_, fun l hl => ?_, fun l => ?_,
    fun l => ?_, fun l kinfo plan hl hne hfin => ?_, hi.barrier.snoc fun r' hr' => by cases hr'⟩
  · simp [List.filterMap_append, hi.queue, Event.pushed?, hsent]
  · dsimp only
    rw [hgen, pushedOf_complete]
    exact hi.split l kinfo plan hl
  · dsimp only
    rw [hgen, pushedOf_complete]
    exact hi.unknown l hl
  · rw [completedOf_complete]
    split
    case isTrue heq =>
      have hnot : r ∉ completedOf h.log l := fun hmem => hc (mem_completedOf.mp hmem).1
      exact List.nodup_append.mpr ⟨hi.once l, List.nodup_singleton r, by
        rintro a ha b hb rfl
        obtain rfl := List.mem_singleton.mp hb
        exact hnot ha⟩
    case isFalse => simpa using hi.once l
  · rw [completedOf_complete, pushedOf_complete]
    refine List.append_subset.mpr ⟨hi.pushed l, fun q hq => ?_⟩
    split at hq
    case isTrue heq =>
      obtain rfl := List.mem_singleton.mp hq
      exact mem_pushedOf.mpr ⟨hp, heq⟩
    case isFalse => cases hq
  · rw [completedOf_complete] at hfin ⊢
    dsimp only
    by_cases heq : r.launchId = l
    · subst heq
      rw [if_pos rfl] at hfin ⊢
      obtain ⟨hcount, htotal⟩ := hself (hfin r (by simp))
      obtain ⟨hcount', htotal'⟩ := hi.counted _ kinfo plan hl hne fun q hq =>
        hfin q (List.mem_append_left _ hq)
      rw [hcount, htotal, hcount', htotal', List.length_append]
      exact ⟨rfl, rfl⟩
    · rw [if_neg heq, List.append_nil] at hfin ⊢
      rw [(hother l (Ne.symm heq)).1, (hother l (Ne.symm heq)).2]
      exact hi.counted l kinfo plan hl hne hfin

theorem Inv.launch (hi : Inv cfg h) {kinfo : KernelLaunchInfo} {g' : UThreadGenerator}
    (hb : ∀ k ∈ cfg.registeredFunctions, 1 ≤ cfg.numKernelBodies k)
    (fresh : h.launches.lookup kinfo.launchId = none) (hl : h.gen.launch cfg kinfo = .ok g') :
    Inv cfg
      { gen := g'
        launches := h.launches.insert kinfo.launchId (kinfo,
          if kinfo.kernelId ∈ cfg.registeredFunctions then
            launchRequests cfg kinfo h.gen.globalReqId
          else [])
        log := h.log } := by
  obtain ⟨hnone, hpushed⟩ := hi.unknown _ fresh
  obtain ⟨hsent, hother, hself⟩ := launch_spec hl hnone
  have hcompleted : completedOf h.log kinfo.launchId = [] :=
    List.subset_nil.mp (hpushed ▸ hi.pushed kinfo.launchId)
  have hcases {l : Nat} {kinfo' : KernelLaunchInfo} {plan : List RequestInfo}
      (hlook : (h.launches.insert kinfo.launchId (kinfo,
        if kinfo.kernelId ∈ cfg.registeredFunctions then
          launchRequests cfg kinfo h.gen.globalReqId
        else [])).lookup l = some (kinfo', plan)) :
      (l ≠ kinfo.launchId ∧ h.launches.lookup l = some (kinfo', plan)) ∨
      (l = kinfo.launchId ∧ kinfo' = kinfo ∧ kinfo.kernelId ∉ cfg.registeredFunctions ∧
        plan = []) ∨
      (l = kinfo.launchId ∧ kinfo' = kinfo ∧ kinfo.kernelId ∈ cfg.registeredFunctions ∧
        plan = launchRequests cfg kinfo h.gen.globalReqId) := by
    by_cases heq : l = kinfo.launchId
    · subst heq
      rw [AList.lookup_insert] at hlook
      obtain ⟨rfl, rfl⟩ := Prod.mk.inj (Option.some_inj.mp hlook)
      by_cases hreg : kinfo.kernelId ∈ cfg.registeredFunctions
      · exact .inr (.inr ⟨rfl, rfl, hreg, if_pos hreg⟩)
      · exact .inr (.inl ⟨rfl, rfl, hreg, if_neg hreg⟩)
    · rw [AList.lookup_insert_ne heq] at hlook
      exact .inl ⟨heq, hlook⟩
  refine ⟨hi.queue.trans hsent.symm, fun l kinfo' plan hlook => ?_,
    fun l kinfo' plan hlook => ?_, fun l kinfo' plan hlook => ?_, fun l hlook => ?_,
    hi.once, hi.pushed, fun l kinfo' plan hlook hne hfin => ?_, ?_⟩
  · obtain ⟨-, hold⟩ | ⟨-, rfl, hreg, rfl⟩ | ⟨-, rfl, hreg, rfl⟩ := hcases hlook
    · exact hi.shapes l kinfo' plan hold
    · rw [if_neg hreg, List.map_nil]
    · rw [if_pos hreg, shape_launchRequests cfg kinfo' _ (hb _ hreg)]
  · obtain ⟨-, hold⟩ | ⟨-, -, -, rfl⟩ | ⟨rfl, rfl, hreg, rfl⟩ := hcases hlook
    · exact hi.planned l kinfo' plan hold
    · exact .inl rfl
    · by_cases hm : matched cfg kinfo' = []
      · exact .inl (by simp [launchRequests, hm])
      · exact .inr ⟨rfl, hb _ hreg, _, List.length_pos_iff.mpr hm,
          plan_launchRequests cfg kinfo' _ (hb _ hreg) hm⟩
  · dsimp only
    obtain ⟨hne, hold⟩ | ⟨rfl, -, hreg, rfl⟩ | ⟨rfl, rfl, hreg, rfl⟩ := hcases hlook
    · rw [(hother l hne).1]
      exact hi.split l kinfo' plan hold
    · rw [if_neg hreg] at hself
      rw [hself, hpushed]
      rfl
    · rw [if_pos hreg] at hself
      rw [hself.1, hpushed, List.nil_append]
  · dsimp only at hlook ⊢
    by_cases heq : l = kinfo.launchId
    · subst heq
      simp [AList.lookup_insert] at hlook
    · rw [AList.lookup_insert_ne heq] at hlook
      rw [(hother l heq).1]
      exact hi.unknown l hlook
  · dsimp only
    obtain ⟨hne', hold⟩ | ⟨-, -, -, rfl⟩ | ⟨rfl, rfl, hreg, rfl⟩ := hcases hlook
    · rw [(hother l hne').2.1, (hother l hne').2.2]
      exact hi.counted l kinfo' plan hold hne hfin
    · exact absurd rfl hne
    · rw [if_pos hreg] at hself
      rw [hcompleted]
      exact hself.2 hne
  · intro pre r post hlog kinfo' plan hlook
    -- nothing of the new launch has been pushed
    have hmem : .push r ∈ h.log := by
      rw [show h.log = _ from hlog]
      simp
    have hr : r ∈ pushedOf h.log r.launchId := mem_pushedOf.mpr ⟨hmem, rfl⟩
    have hne : r.launchId ≠ kinfo.launchId := by
      intro heq
      rw [heq, hpushed] at hr
      cases hr
    rw [AList.lookup_insert_ne hne] at hlook
    exact hi.barrier pre r post hlog kinfo' plan hlook

theorem Run.inv (hb : ∀ k ∈ cfg.registeredFunctions, 1 ≤ cfg.numKernelBodies k)
    (hr : Run cfg h) : Inv cfg h := by
  induction hr with
  | refl =>
    refine ⟨rfl, fun l _ _ hl => ?_, fun l _ _ hl => ?_, fun l _ _ hl => ?_,
      fun l _ => ⟨rfl, rfl⟩, fun l => List.nodup_nil, fun l => List.Subset.refl _,
      fun l _ _ hl => ?_, fun pre r post hlog => by simp at hlog⟩
    all_goals simp at hl
  | tail _ hs ih =>
    cases hs with
    | launch kinfo fresh hl => exact ih.launch hb fresh hl
    | cycle hc => exact (ih.changes (cycle_changes hc)).2
    | generateUthreads threads hg => exact (ih.changes (generateUthreads_pushes hg).changes).2
    | take _ => exact ih.take
    | complete r hp hc => exact ih.complete r hp hc

end Preserved

/-- For every launch of every history: its requests reach the queue in the expected order, each
once and all of them by the time the finalizer is pushed, and every request is pushed only when
all requests that have to be before it have completed. -/
theorem launch_requests_ordered {cfg : GeneratorConfig}
    (hb : ∀ k ∈ cfg.registeredFunctions, 1 ≤ cfg.numKernelBodies k) {h : History}
    (hrun : Run cfg h) {l : Nat} {kinfo : KernelLaunchInfo} {plan : List RequestInfo}
    (hl : h.launches.lookup l = some (kinfo, plan)) :
    plan.map shape = (if kinfo.kernelId ∈ cfg.registeredFunctions then expected cfg kinfo else []) ∧
    (h.gen.sent.filter fun r => r.launchId = l) <+: plan ∧
    ((∃ r ∈ h.gen.sent, r.launchId = l ∧ r.type = .finalizer) →
      (h.gen.sent.filter fun r => r.launchId = l) = plan) ∧
    ∀ pre r post, h.log = pre ++ .push r :: post → r.launchId = l →
      ∀ q ∈ plan, Before q r → .complete q ∈ pre := by
  have hi := hrun.inv hb
  have hsent : (h.gen.sent.filter fun r => r.launchId = l) = pushedOf h.log l := by
    rw [pushedOf, hi.queue]
  have hsplit := hi.split l kinfo plan hl
  rw [hsent]
  refine ⟨hi.shapes l kinfo plan hl, ⟨_, hsplit⟩, ?_, ?_⟩
  · rintro ⟨r, hr, hrl, hfin⟩
    have hr : r ∈ pushedOf h.log l := by
      rw [← hsent]
      simp [hr, hrl]
    cases hg : h.gen.generated l with
    | nil => rw [← hsplit, hg, List.append_nil]
    | cons info rest =>
      obtain ⟨_, _, -, -, -, -, hplan⟩ := hi.front hg
      exact absurd hfin (hplan.not_finalizer r hr)
  · rintro pre r post hlog rfl
    exact hi.barrier pre r post hlog kinfo plan hl

def sampleConfig : GeneratorConfig where
  ndpId := 0
  checkAddrMatch := fun _ => true
  registeredFunctions := {0}
  numKernelBodies := fun _ => 1
  spadSize := 16384
  maxKernelLaunch := 1
  isCoarseGrained := false
  isScWork := false
  requestQueueSize := 8

/-- One packet, one body. -/
def sampleLaunch : KernelLaunchInfo where
  launchId := 0
  kernelId := 0
  baseAddr := 0
  size := 32
  smemSize := 64

theorem ok_getD {ε α : Type} {x : Except ε α} {d : α} (h : x.toOption.isSome = true) :
    x = .ok (x.toOption.getD d) := by
  cases x with
  | error e => cases h
  | ok a => rfl

/-- The initializer is pushed and completes, then the packet of the only body is pushed. -/
theorem sampleLaunch_run : ∃ h, Run sampleConfig h ∧
    h.launches.lookup 0 = some (sampleLaunch, launchRequests sampleConfig sampleLaunch 0) ∧
    h.gen.sent = [mkRequest sampleLaunch 0 .initializer 0 0 0,
      mkRequest sampleLaunch 1 .kernelBody 0 0 0] := by
  have h₁ : Step sampleConfig ⟨create, ∅, []⟩ _ :=
    .launch sampleLaunch (by rfl) (ok_getD (d := create) (by decide +kernel))
  have h₂ := Relation.ReflTransGen.tail (.single h₁)
    (.cycle (ok_getD (d := create) (by decide +kernel)))
  have h₃ := h₂.tail (.complete (mkRequest sampleLaunch 0 .initializer 0 0 0)
    (by decide +kernel) (by decide +kernel))
  exact ⟨_, h₃.tail (.cycle (ok_getD (d := create) (by decide +kernel))),
    by rfl, by decide +kernel⟩

theorem launch_requests_ordered_sample : ∃ h, Run sampleConfig h ∧ h.gen.sent.length = 2 ∧
    ∀ pre post, h.log = pre ++ .push (mkRequest sampleLaunch 1 .kernelBody 0 0 0) :: post →
      .complete (mkRequest sampleLaunch 0 .initializer 0 0 0) ∈ pre := by
  obtain ⟨h, hrun, hl, hsent⟩ := sampleLaunch_run
  refine ⟨h, hrun, by rw [hsent]; rfl, fun pre post hlog => ?_⟩
  exact (launch_requests_ordered (by decide) hrun hl).2.2.2 pre _ post hlog rfl _
    (by decide +kernel) (.inl rfl)

end History

end NdpSim
