import NdpSim.Library.Effects
import NdpSim.Timing.UThreadGenerator

/-!
# What the generator does, step by step

Whatever a cycle or a generation step does is a sequence of three kinds of changes: a launch becomes
active, a front request is pushed, the flag that one launch was activated is taken back. A launch
ends in one of three ways.
-/
namespace NdpSim

open Library

namespace UThreadGenerator

variable {cfg : GeneratorConfig} {g g' : UThreadGenerator}

/-- The condition under which the oldest waiting launch becomes active. -/
def Admits (cfg : GeneratorConfig) (g : UThreadGenerator) (launchId : Nat) : Prop :=
  (cfg.spadSize < 8192 ∨
    (g.smemSize launchId + g.getAllocatedSpadSize : Int) ≤ cfg.spadSize - 8192) ∧
  g.activeLaunchIds.card < cfg.maxKernelLaunch

instance (launchId : Nat) : Decidable (g.Admits cfg launchId) :=
  inferInstanceAs (Decidable (_ ∧ _))

def activate (g : UThreadGenerator) (launchId : Nat) (rest : List Nat) : UThreadGenerator :=
  { g with
    activeLaunchIds := insert launchId g.activeLaunchIds
    launchQueue := rest
    launched := true }

def push (g : UThreadGenerator) (launchId : Nat) (info : RequestInfo) (rest : List RequestInfo) :
    UThreadGenerator :=
  { g with
    sent := g.sent ++ [info]
    generatedRequests := g.generatedRequests.insert launchId rest }

/-- A front request that may go is pushed, or the flag is taken back. -/
inductive Push (cfg : GeneratorConfig) : UThreadGenerator → UThreadGenerator → Prop
  | push {g : UThreadGenerator} (l : Nat) (info : RequestInfo) (rest : List RequestInfo)
      (hl : l ∈ g.activeLaunchIds) (hg : g.generated l = info :: rest)
      (hi : checkCanIssue cfg g info = .ok true)
      (hroom : g.sent.length - g.taken < cfg.requestQueueSize) :
      Push cfg g (g.push l info rest)
  | unlaunch {g : UThreadGenerator} : Push cfg g { g with launched := false }

abbrev Pushes (cfg : GeneratorConfig) : UThreadGenerator → UThreadGenerator → Prop :=
  Relation.ReflTransGen (Push cfg)

inductive Change (cfg : GeneratorConfig) : UThreadGenerator → UThreadGenerator → Prop
  | activate {g : UThreadGenerator} (l : Nat) (rest : List Nat)
      (hq : g.launchQueue = l :: rest) (hl : g.launched = false) (ha : g.Admits cfg l) :
      Change cfg g (g.activate l rest)
  | push {g g' : UThreadGenerator} (h : Push cfg g g') : Change cfg g g'

abbrev Changes (cfg : GeneratorConfig) : UThreadGenerator → UThreadGenerator → Prop :=
  Relation.ReflTransGen (Change cfg)

theorem Pushes.changes (h : Pushes cfg g g') : Changes cfg g g' := by
  induction h with
  | refl => exact .refl
  | tail _ hs ih => exact ih.tail (.push hs)

/-! ## Cycles -/

theorem checkKernelLaunch_of_admits {l : Nat} {rest : List Nat} (hq : g.launchQueue = l :: rest)
    (hl : g.launched = false) (ha : g.Admits cfg l) :
    checkKernelLaunch cfg g = g.activate l rest := by
  unfold checkKernelLaunch
  rw [hq]
  exact if_pos ⟨by simp [hl], ha⟩

theorem checkKernelLaunch_cases (cfg : GeneratorConfig) (g : UThreadGenerator) :
    checkKernelLaunch cfg g = g ∨ ∃ l rest, g.launchQueue = l :: rest ∧ g.launched = false ∧
      g.Admits cfg l ∧ checkKernelLaunch cfg g = g.activate l rest := by
  unfold checkKernelLaunch
  split
  case h_1 => exact .inl rfl
  case h_2 l rest hq =>
    split
    case isTrue h => exact .inr ⟨l, rest, hq, Bool.eq_false_of_not_eq_true h.1, h.2, rfl⟩
    case isFalse => exact .inl rfl

theorem checkKernelLaunch_changes (cfg : GeneratorConfig) (g : UThreadGenerator) :
    Changes cfg g (checkKernelLaunch cfg g) := by
  rcases checkKernelLaunch_cases cfg g with h | ⟨l, rest, hq, hl, ha, h⟩
  · rw [h]
  · rw [h]
    exact .single (.activate l rest hq hl ha)

theorem checkKernelLaunch_keeps (cfg : GeneratorConfig) (g : UThreadGenerator) :
    (checkKernelLaunch cfg g).sent = g.sent ∧
    (checkKernelLaunch cfg g).countRequests = g.countRequests ∧
    (checkKernelLaunch cfg g).launchInfos = g.launchInfos := by
  rcases checkKernelLaunch_cases cfg g with heq | ⟨_, _, -, -, -, heq⟩ <;> rw [heq] <;>
    exact ⟨rfl, rfl, rfl⟩

theorem nextOf_eq_some {ls : List Nat} {l : Nat} (h : nextOf cfg g ls = .ok (some l)) :
    l ∈ ls ∧ ∃ info rest, g.generated l = info :: rest ∧ checkCanIssue cfg g info = .ok true := by
  induction ls with
  | nil => cases h
  | cons l' ls ih =>
    simp only [nextOf] at h
    split at h
    case h_1 => exact (ih h).imp_left (List.mem_cons_of_mem _)
    case h_2 info rest hg =>
      obtain ⟨may, hmay, h⟩ := bind_eq_ok.mp h
      cases may with
      | false => exact (ih h).imp_left (List.mem_cons_of_mem _)
      | true =>
        obtain rfl := Option.some.inj (Except.ok.inj h)
        exact ⟨List.mem_cons_self, info, rest, hg, hmay⟩

theorem getNextLaunchId_eq_some {l : Nat} (h : getNextLaunchId cfg g = .ok (some l)) :
    l ∈ g.activeLaunchIds ∧
      ∃ info rest, g.generated l = info :: rest ∧ checkCanIssue cfg g info = .ok true :=
  (nextOf_eq_some h).imp_left (Finset.mem_sort _).mp

theorem pushFront_push {l : Nat} {info : RequestInfo} {rest : List RequestInfo}
    (hl : l ∈ g.activeLaunchIds) (hg : g.generated l = info :: rest)
    (hi : checkCanIssue cfg g info = .ok true) (h : g.pushFront cfg l info rest = .ok g') :
    Push cfg g g' := by
  simp only [pushFront] at h
  split at h
  case isTrue hroom =>
    obtain rfl := Except.ok.inj h
    exact .push l info rest hl hg hi hroom
  case isFalse => cases h

theorem generateUthreads_pushes {threads : Nat} (h : g.generateUthreads cfg threads = .ok g') :
    Pushes cfg g g' := by
  induction threads generalizing g with
  | zero =>
    obtain rfl := Except.ok.inj h
    exact .refl
  | succ threads ih =>
    simp only [generateUthreads] at h
    split at h
    case isFalse => exact ih h
    case isTrue =>
      obtain ⟨next, hl, h⟩ := bind_eq_ok.mp h
      cases next with
      | none =>
        obtain rfl := Except.ok.inj h
        exact .refl
      | some l =>
        obtain ⟨hact, info, rest, hg, hi⟩ := getNextLaunchId_eq_some hl
        simp only [hg] at h
        split at h
        · obtain ⟨g₁, hp, h⟩ := bind_eq_ok.mp h
          exact .head (pushFront_push hact hg hi hp) (ih h)
        · exact ih h

theorem pushEnds_pushes (h : g.pushEnds cfg = .ok g') : Pushes cfg g g' := by
  simp only [pushEnds] at h
  split at h
  case isFalse =>
    obtain rfl := Except.ok.inj h
    exact .single .unlaunch
  case isTrue =>
    obtain ⟨next, hl, h⟩ := bind_eq_ok.mp h
    cases next with
    | none =>
      obtain rfl := Except.ok.inj h
      exact .refl
    | some l =>
      obtain ⟨hact, info, rest, hg, hi⟩ := getNextLaunchId_eq_some hl
      simp only [hg] at h
      split at h
      · split at h
        · obtain ⟨g₁, hp, h⟩ := bind_eq_ok.mp h
          obtain rfl := Except.ok.inj h
          exact .tail (.single (pushFront_push hact hg hi hp)) .unlaunch
        · obtain rfl := Except.ok.inj h
          exact .single .unlaunch
      · obtain ⟨g₁, hp, h⟩ := bind_eq_ok.mp h
        obtain rfl := Except.ok.inj h
        exact .tail (.single (pushFront_push hact hg hi hp)) .unlaunch
      · obtain rfl := Except.ok.inj h
        exact .single .unlaunch

/-- A cycle activates a launch at most once, at its beginning. -/
theorem cycle_pushes (h : g.cycle cfg = .ok g') : Pushes cfg (checkKernelLaunch cfg g) g' := by
  simp only [cycle] at h
  split at h
  · obtain ⟨g₁, h₁, h⟩ := bind_eq_ok.mp h
    exact (generateUthreads_pushes h₁).trans (pushEnds_pushes h)
  · exact pushEnds_pushes h

theorem cycle_changes (h : g.cycle cfg = .ok g') : Changes cfg g g' :=
  (checkKernelLaunch_changes cfg g).trans (cycle_pushes h).changes

/-- What every change keeps, a sequence of changes keeps. -/
theorem Changes.induct {I : UThreadGenerator → Prop} (hI : ∀ g g', Change cfg g g' → I g → I g')
    (h : Changes cfg g g') (hg : I g) : I g' := by
  induction h with
  | refl => exact hg
  | tail _ hs ih => exact hI _ _ hs ih

/-- The launch table changes only with launches and completions. -/
theorem Changes.launchInfos_eq (h : Changes cfg g g') : g'.launchInfos = g.launchInfos := by
  refine h.induct (I := fun g' => g'.launchInfos = g.launchInfos) (fun _ _ hs heq => ?_) rfl
  cases hs with
  | activate => exact heq
  | push hs => cases hs <;> exact heq

/-- What was sent stays sent. -/
theorem Changes.sent_grows (h : Changes cfg g g') : g.sent <+: g'.sent := by
  refine h.induct (I := fun g' => g.sent <+: g'.sent) (fun _ _ hs hp => ?_) List.prefix_rfl
  cases hs with
  | activate => exact hp
  | push hs =>
    cases hs with
    | push l info rest => exact hp.trans (List.prefix_append _ _)
    | unlaunch => exact hp

/-! ## Launches -/

/-- The launch as it is entered into the launch table, before anything is checked. -/
def entered (g : UThreadGenerator) (kinfo : KernelLaunchInfo) : UThreadGenerator :=
  { g with launchInfos := g.launchInfos.insert kinfo.launchId kinfo }

/-- The launch with its requests. -/
def enqueued (g : UThreadGenerator) (kinfo : KernelLaunchInfo) (requests : List RequestInfo) :
    UThreadGenerator :=
  { g.entered kinfo with
    globalReqId := g.globalReqId + requests.length
    totalRequests := g.totalRequests.insert kinfo.launchId requests.length
    countRequests := g.countRequests.insert kinfo.launchId 0
    launchQueue := g.launchQueue ++ [kinfo.launchId]
    generatedRequests := g.generatedRequests.insert kinfo.launchId requests }

/-- A launch that owns no packet is finished at once. -/
def passedOver (g : UThreadGenerator) (kinfo : KernelLaunchInfo) : UThreadGenerator :=
  { (g.entered kinfo).finishLaunch kinfo.launchId with
    totalRequests := (g.totalRequests.insert kinfo.launchId 0).erase kinfo.launchId
    countRequests := (g.countRequests.insert kinfo.launchId 0).erase kinfo.launchId }

theorem launch_enqueued {kinfo : KernelLaunchInfo} (hsmem : (kinfo.smemSize : Int) ≤ cfg.spadSize)
    (hsize : kinfo.size % packetSize = 0) (hreg : kinfo.kernelId ∈ cfg.registeredFunctions)
    (hm : matched cfg kinfo ≠ []) : g.launch cfg kinfo =
      .ok (checkKernelLaunch cfg (g.enqueued kinfo (launchRequests cfg kinfo g.globalReqId))) := by
  have hne : (launchRequests cfg kinfo g.globalReqId).isEmpty = false := by
    cases heq : matched cfg kinfo with
    | nil => exact absurd heq hm
    | cons addr addrs => simp [launchRequests, heq]
  rw [launch, if_neg (not_not.mpr hsmem), if_neg (not_not.mpr hsize), if_neg (not_not.mpr hreg)]
  simp only [hne]
  rfl

/-- A launch is rejected, passed over or enqueued. -/
theorem launch_cases {kinfo : KernelLaunchInfo} (h : g.launch cfg kinfo = .ok g') :
    (kinfo.smemSize : Int) ≤ cfg.spadSize ∧
    ((kinfo.kernelId ∉ cfg.registeredFunctions ∧ g' = g.entered kinfo) ∨
    (kinfo.kernelId ∈ cfg.registeredFunctions ∧ matched cfg kinfo = [] ∧
      g' = checkKernelLaunch cfg (g.passedOver kinfo)) ∨
    (kinfo.kernelId ∈ cfg.registeredFunctions ∧ matched cfg kinfo ≠ [] ∧
      g' = checkKernelLaunch cfg
        (g.enqueued kinfo (launchRequests cfg kinfo g.globalReqId)))) := by
  simp only [launch] at h
  split at h
  · cases h
  case isFalse hsmem =>
    refine ⟨not_not.mp hsmem, ?_⟩
    split at h
    · cases h
    split at h
    case isTrue hreg =>
      obtain rfl := Except.ok.inj h
      exact .inl ⟨hreg, rfl⟩
    case isFalse hreg =>
      obtain rfl := Except.ok.inj h
      refine .inr ?_
      cases hm : matched cfg kinfo with
      | nil =>
        have hnil : launchRequests cfg kinfo g.globalReqId = [] := by
          rw [launchRequests, hm]
        refine .inl ⟨not_not.mp hreg, rfl, ?_⟩
        rw [hnil]
        rfl
      | cons addr addrs =>
        refine .inr ⟨not_not.mp hreg, List.cons_ne_nil _ _, ?_⟩
        have hcons : (launchRequests cfg kinfo g.globalReqId).isEmpty = false := by
          rw [launchRequests, hm]
          simp
        rw [if_neg (by simp [hcons])]
        rfl

end UThreadGenerator

end NdpSim
