import NdpSim.System.LaunchCommands

/-!
# Serial launches exclude each other

Every launch command without a reply is in one place and has been counted, and a launch that is
active is seen by the runner. So the runner sends a launch command only when nothing is under way.
-/
namespace NdpSim

open Library

namespace SerialSystem

variable {g : RunnerConfig} {cfg : SystemConfig} {t : LaunchTrace} {s s' : SerialSystem} {op : Op}

/-- The launch commands among messages. -/
def launchIds (mfs : List (Nat × Message)) : List Nat :=
  (mfs.filter fun p => p.2.isLaunchCommand).map fun p => p.2.id

/-- Where the launch commands without a reply are. -/
def inFlight (s : SerialSystem) : List Nat :=
  launchIds s.toDevices ++ s.devices.flatMap LaunchBuffer.commands ++ launchIds s.toHosts

/-- Every launch command without a reply is in one place and has been counted. A launch that is
active is recorded for host 0. -/
structure Inv (s : SerialSystem) : Prop where
  prepared : s.runner.Prepared
  recorded : ∀ b ∈ s.devices, b.RecordedFirst s.globalLaunchId
  holds : ∀ b ∈ s.devices, b.HoldsCommands
  started : ∀ p ∈ s.started, p.1 < s.globalLaunchId
  replies : ∀ p ∈ s.toHosts, p.2.isLaunchCommand = true ∧ p.2.isRequest = false ∨
    p.2.isLaunchCommand = false ∧ p.2.repliesToHost = false
  inFlight : s.inFlight.Perm s.outstanding
  counted : (s.outstanding.length : Int) ≤ s.runner.remaining
  exclusive : s.Exclusive

theorem Exclusive.mono (h : s.Exclusive) (hlength : s'.outstanding.length ≤ s.outstanding.length)
    (hunderway : ∀ id, s'.Underway id → s.Underway id) : s'.Exclusive where
  one := hlength.trans h.one
  same id id' hid hid' := h.same id id' (hunderway id hid) (hunderway id' hid')

theorem launchIds_append (l r : List (Nat × Message)) :
    launchIds (l ++ r) = launchIds l ++ launchIds r := by
  rw [launchIds, List.filter_append, List.map_append, launchIds, launchIds]

theorem launchIds_launch {mf : Message} (d : Nat) (h : mf.isLaunchCommand = true) :
    launchIds [(d, mf)] = [mf.id] := by
  rw [launchIds, List.filter_singleton, h]
  rfl

theorem launchIds_other {mf : Message} (d : Nat) (h : mf.isLaunchCommand = false) :
    launchIds [(d, mf)] = [] := by
  rw [launchIds, List.filter_singleton, h]
  rfl

theorem launchIds_eraseIdx {l : List (Nat × Message)} {k : Nat} {p : Nat × Message}
    (h : l[k]? = some p) : (launchIds l).Perm (launchIds [p] ++ launchIds (l.eraseIdx k)) := by
  obtain ⟨hlt, rfl⟩ := List.getElem?_eq_some_iff.mp h
  rw [← launchIds_append]
  exact ((List.getElem_cons_eraseIdx_perm hlt).symm.filter _).map _

/-- One device is replaced by another. -/
theorem count_commands_set {devices : List LaunchBuffer} {d : Nat} {b : LaunchBuffer}
    (hb : devices[d]? = some b) (b' : LaunchBuffer) (id : Nat) :
    ((devices.set d b').flatMap LaunchBuffer.commands).count id + b.commands.count id =
      (devices.flatMap LaunchBuffer.commands).count id + b'.commands.count id := by
  obtain ⟨hlt, rfl⟩ := List.getElem?_eq_some_iff.mp hb
  have hold := ((List.getElem_cons_eraseIdx_perm hlt).flatMap_right LaunchBuffer.commands).count_eq
    id
  have hnew := ((List.set_perm_cons_eraseIdx hlt b').flatMap_right LaunchBuffer.commands).count_eq
    id
  rw [List.flatMap_cons, List.count_append] at hold hnew
  omega

theorem perm_of_count {a a' b b' c c' ids : List Nat} (h : (a ++ b ++ c).Perm ids)
    (hcount : ∀ id, a'.count id + b'.count id + c'.count id =
      a.count id + b.count id + c.count id) : (a' ++ b' ++ c').Perm ids := by
  refine List.Perm.trans (List.perm_iff_count.mpr fun id => ?_) h
  simp only [List.count_append]
  exact hcount id

theorem perm_append_between {α : Type} (a b c d : List α) :
    ((a ++ d) ++ b ++ c).Perm ((a ++ b ++ c) ++ d) := by
  rw [List.append_assoc, List.append_assoc, List.append_assoc, List.append_assoc]
  refine List.Perm.append_left _ ?_
  rw [← List.append_assoc b c d]
  exact List.perm_append_comm

theorem inv_create (g : RunnerConfig) (cfg : SystemConfig) {trace : TraceConfig}
    (h : t.Parsed trace) :
    Inv (create g cfg t) where
  prepared := .create h
  recorded b hb := by
    obtain rfl := List.eq_of_mem_replicate hb
    exact (LaunchBuffer.recordedFirst_iff cfg).mpr (LaunchBuffer.recorded_create _ 0)
  holds b hb := by
    obtain rfl := List.eq_of_mem_replicate hb
    exact LaunchBuffer.holdsCommands_create cfg
  started p hp := absurd hp List.not_mem_nil
  replies p hp := absurd hp List.not_mem_nil
  inFlight := by
    have hnone : (create g cfg t).devices.flatMap LaunchBuffer.commands = [] := by
      refine List.flatMap_eq_nil_iff.mpr fun b hb => ?_
      obtain rfl := List.eq_of_mem_replicate hb
      exact LaunchBuffer.commands_create cfg
    rw [SerialSystem.inFlight, hnone]
    exact List.Perm.refl _
  counted := Int.le_refl _
  exclusive := by
    refine ⟨Nat.zero_le _, fun id id' hid => ?_⟩
    obtain hid | ⟨launchId, hstarted, -⟩ := hid
    · exact absurd hid List.not_mem_nil
    · exact absurd hstarted List.not_mem_nil

/-- The runner goes on and keeps its count. -/
theorem Inv.runner (h : s.Inv) {r : SimulationRunner} (hprepared : r.Prepared)
    (hremaining : r.remaining = s.runner.remaining) : Inv { s with runner := r } where
  prepared := hprepared
  recorded := h.recorded
  holds := h.holds
  started := h.started
  replies := h.replies
  inFlight := h.inFlight
  counted := hremaining ▸ h.counted
  exclusive := h.exclusive.mono (Nat.le_refl _) fun _ hid => hid

/-- While a launch is active the runner finds a kernel active. -/
theorem Inv.active (h : s.Inv) (hidle : s.checkNdpKernelActive = false) (id : Nat) :
    ¬ s.Active id := by
  rintro ⟨launchId, -, b, hb, unit, hactive⟩
  have hseen : s.checkNdpKernelActive = true :=
    List.any_eq_true.mpr ⟨b, hb, (h.recorded b hb).isLaunchActive hactive⟩
  rw [hidle] at hseen
  cases hseen

/-- A message that is not a launch command sets out. -/
theorem Inv.toDevice (h : s.Inv) (d : Nat) {mf : Message} (hmf : mf.isLaunchCommand = false) :
    Inv { s with toDevices := s.toDevices ++ [(d, mf)] } where
  prepared := h.prepared
  recorded := h.recorded
  holds := h.holds
  started := h.started
  replies := h.replies
  inFlight := by
    rw [SerialSystem.inFlight, launchIds_append, launchIds_other d hmf, List.append_nil]
    exact h.inFlight
  counted := h.counted
  exclusive := h.exclusive.mono (Nat.le_refl _) fun _ hid => hid

theorem Inv.toHost (h : s.Inv) (host : Nat) {mf : Message} (hmf : mf.isLaunchCommand = false)
    (hreply : mf.repliesToHost = false) :
    Inv { s with toHosts := s.toHosts ++ [(host, mf)] } where
  prepared := h.prepared
  recorded := h.recorded
  holds := h.holds
  started := h.started
  replies p hp := by
    obtain hp | hp := List.mem_append.mp hp
    · exact h.replies p hp
    · rw [List.mem_singleton.mp hp]
      exact Or.inr ⟨hmf, hreply⟩
  inFlight := by
    rw [SerialSystem.inFlight, launchIds_append, launchIds_other host hmf, List.append_nil]
    exact h.inFlight
  counted := h.counted
  exclusive := h.exclusive.mono (Nat.le_refl _) fun _ hid => hid

/-- The runner sends a launch command only if nothing is under way. -/
theorem Inv.sent (h : s.Inv) (hserial : g.serialLaunch = true) {host node : Nat}
    {hasBuffer : Bool} (hs : s.sendRequest g host node hasBuffer = .ok s') : s'.Inv := by
  obtain ⟨⟨r, events⟩, hr, hs⟩ := bind_eq_ok.mp hs
  obtain ⟨rfl, rfl⟩ | ⟨mf, reqs, hqueue, hcheck, rfl, rfl⟩ :=
    SimulationRunner.sendRequest_cases hr
  · obtain rfl := Except.ok.inj hs
    exact h
  obtain ⟨hsame, hid⟩ := SimulationRunner.countsAsRequest_same mf
  have hprepared : SimulationRunner.Prepared { s.runner with
      memoryReqs := s.runner.memoryReqs.set host reqs
      remaining := s.runner.remaining +
        if mf.countsAsRequest.1 && !mf.uthreadRequest then 1 else 0 } :=
    ⟨SimulationRunner.launchesFirst_tail h.prepared.queues hqueue, h.prepared.commands,
      h.prepared.answers⟩
  dsimp only at hs
  split at hs
  case isTrue hlaunch =>
    obtain rfl := Except.ok.inj hs
    rw [hsame] at hlaunch
    obtain ⟨rfl, hbi, hwriteback⟩ := h.prepared.queues host _ hqueue mf List.mem_cons_self hlaunch
    obtain ⟨hidle, hnone⟩ :=
      SimulationRunner.serialExecutionCheck_launch hserial hqueue hlaunch hcheck
    have hempty : s.outstanding = [] := by
      have hcounted := h.counted
      exact List.eq_nil_of_length_eq_zero (by omega)
    constructor
    · exact hprepared
    · exact h.recorded
    · exact h.holds
    · exact h.started
    · exact h.replies
    · dsimp only [SerialSystem.inFlight]
      rw [launchIds_append, launchIds_launch node (hsame.trans hlaunch), hid]
      exact (perm_append_between _ _ _ _).trans (List.Perm.append_right _ h.inFlight)
    · have hcounted := SimulationRunner.counted_launch hlaunch hbi hwriteback
      have hbefore := h.counted
      dsimp only
      rw [if_pos hcounted, List.length_append, List.length_singleton]
      omega
    · have hone : ∀ id, id ∈ s.outstanding ++ [mf.countsAsRequest.2.id] ∨ s.Active id →
          id = mf.id := by
        rintro id (hmem | hactive)
        · rw [hempty, hid] at hmem
          exact List.mem_singleton.mp hmem
        · exact absurd hactive (h.active hidle id)
      refine ⟨?_, fun id id' hleft hright => (hone id hleft).trans (hone id' hright).symm⟩
      rw [hempty]
      exact Nat.le_refl _
  case isFalse hother =>
    obtain rfl := Except.ok.inj hs
    have hcounted := h.counted
    refine Inv.toDevice (s := { s with runner := _ })
      ⟨hprepared, h.recorded, h.holds, h.started, h.replies, h.inFlight, ?_,
        h.exclusive.mono (Nat.le_refl _) fun _ hid => hid⟩ node ?_
    · dsimp only
      split <;> omega
    · simpa using hother

/-- A reply that a host takes is that of a launch command; a request is answered. -/
theorem Inv.received (h : s.Inv) {k node : Nat} (hs : s.receive g t k node = .ok s') :
    s'.Inv := by
  simp only [receive] at hs
  split at hs
  case h_1 => cases hs
  case h_2 host mf hk =>
  obtain ⟨⟨r, events⟩, hr, hs⟩ := bind_eq_ok.mp hs
  have hkept : ∀ p ∈ s.toHosts.eraseIdx k, p ∈ s.toHosts :=
    fun p hp => List.mem_of_mem_eraseIdx hp
  have hlaunches := launchIds_eraseIdx hk
  obtain ⟨hrequest, hreply, rfl⟩ | ⟨hrequest, answer, hanswer, rfl⟩ :=
    SimulationRunner.receive_cases rfl hr
  · -- a reply
    rw [hrequest] at hs
    obtain rfl := Except.ok.inj hs
    have hlaunch : mf.isLaunchCommand = true := by
      obtain ⟨hlaunch, -⟩ | ⟨-, hother⟩ := h.replies (host, mf) (List.mem_of_getElem? hk)
      · exact hlaunch
      · rw [hreply] at hother
        cases hother
    rw [launchIds_launch host hlaunch] at hlaunches
    have hinFlight : (mf.id :: (launchIds s.toDevices ++ s.devices.flatMap LaunchBuffer.commands ++
        launchIds (s.toHosts.eraseIdx k))).Perm s.outstanding :=
      (List.perm_middle.symm.trans (List.Perm.append_left _ hlaunches.symm)).trans h.inFlight
    have hmem : mf.id ∈ s.outstanding := hinFlight.subset List.mem_cons_self
    have hlength := List.length_erase_of_mem hmem
    have hpos := List.length_pos_of_mem hmem
    have hcounted := h.counted
    constructor
    · exact ⟨h.prepared.queues, h.prepared.commands, h.prepared.answers⟩
    · exact h.recorded
    · exact h.holds
    · exact h.started
    · exact fun p hp => h.replies p (hkept p hp)
    · exact List.Perm.cons_inv (hinFlight.trans (List.perm_cons_erase hmem))
    · dsimp only
      rw [hlength]
      omega
    · refine h.exclusive.mono (by dsimp only; omega) fun id hid => ?_
      obtain hid | hactive := hid
      · exact Or.inl (List.mem_of_mem_erase hid)
      · exact Or.inr hactive
  · -- a request
    rw [hrequest] at hs
    obtain rfl := Except.ok.inj hs
    have hother : mf.isLaunchCommand = false := by
      obtain ⟨-, hnot⟩ | ⟨hother, -⟩ := h.replies (host, mf) (List.mem_of_getElem? hk)
      · rw [hrequest] at hnot
        cases hnot
      · exact hother
    rw [launchIds_other host hother] at hlaunches
    exact ⟨h.prepared.answered hother hanswer, h.recorded, h.holds, h.started,
      fun p hp => h.replies p (hkept p hp),
      (List.Perm.append_left _ hlaunches.symm).trans h.inFlight, h.counted,
      h.exclusive.mono (Nat.le_refl _) fun _ hid => hid⟩

/-- A device goes on. A launch that is active then was active before, or is a new one of a command
that is under way. -/
theorem underway_of_set {d : Nat} {b b' : LaunchBuffer} (hb : s.devices[d]? = some b)
    (hdevices : s'.devices = s.devices.set d b') (houtstanding : s'.outstanding = s.outstanding)
    (hstarted : ∀ p ∈ s'.started, p ∈ s.started ∨ s.Underway p.2)
    (hactive : ∀ p ∈ s.started, ∀ unit, b'.unitActive unit p.1 = true →
      b.unitActive unit p.1 = true) (id : Nat) (h : s'.Underway id) : s.Underway id := by
  obtain hmem | ⟨launchId, hnew, x, hx, unit, hunit⟩ := h
  · exact Or.inl (houtstanding ▸ hmem)
  obtain hold | hunderway := hstarted _ hnew
  · right
    rw [hdevices] at hx
    obtain hx | rfl := List.mem_or_eq_of_mem_set hx
    · exact ⟨launchId, hold, x, hx, unit, hunit⟩
    · exact ⟨launchId, hold, b, List.mem_of_getElem? hb, unit, hactive _ hold unit hunit⟩
  · exact hunderway

theorem recorded_set {d next : Nat} {b' : LaunchBuffer} (h : s.Inv)
    (hnext : s.globalLaunchId ≤ next) (hb' : b'.RecordedFirst next) :
    ∀ x ∈ s.devices.set d b', x.RecordedFirst next := by
  intro x hx unit launchId hactive
  obtain hx | rfl := List.mem_or_eq_of_mem_set hx
  · obtain ⟨hlt, hinfo⟩ := h.recorded x hx unit launchId hactive
    exact ⟨hlt.trans_le hnext, hinfo⟩
  · exact hb' unit launchId hactive

theorem holds_set {d : Nat} {b' : LaunchBuffer} (h : s.Inv) (hb' : b'.HoldsCommands) :
    ∀ x ∈ s.devices.set d b', x.HoldsCommands := by
  intro x hx
  obtain hx | rfl := List.mem_or_eq_of_mem_set hx
  · exact h.holds x hx
  · exact hb'

/-- A reply is given to the link. -/
theorem Inv.transferred (h : s.Inv) {d i : Nat} (hs : s.transfer cfg d i = .ok s') : s'.Inv := by
  simp only [transfer] at hs
  split at hs
  case h_1 => cases hs
  case h_2 b hb =>
  have hmem := List.mem_of_getElem? hb
  split at hs
  case h_1 mf queue hqueue =>
    obtain ⟨hholds, hperm, hlaunch, hreply⟩ := (h.holds b hmem).transfer hqueue
    have hpopped : (b.popResponse i).RecordedFirst s.globalLaunchId := h.recorded b hmem
    have hrecorded := recorded_set (d := d) h (Nat.le_refl _) hpopped
    have hunderway : ∀ {s' : SerialSystem}, s'.devices = s.devices.set d (b.popResponse i) →
        s'.outstanding = s.outstanding → s'.started = s.started →
        ∀ id, s'.Underway id → s.Underway id := fun hdevices houtstanding hstarted =>
      underway_of_set hb hdevices houtstanding (fun p hp => Or.inl (hstarted ▸ hp))
        fun _ _ _ hunit => hunit
    split at hs
    case isTrue hport =>
      obtain rfl := Except.ok.inj hs
      refine ⟨h.prepared, hrecorded, holds_set h hholds, h.started, fun p hp => ?_, ?_, h.counted,
        h.exclusive.mono (Nat.le_refl _) (hunderway rfl rfl rfl)⟩
      · obtain hp | hp := List.mem_append.mp hp
        · exact h.replies p hp
        · rw [List.mem_singleton.mp hp]
          exact Or.inl ⟨hlaunch, hreply⟩
      · refine perm_of_count h.inFlight fun id => ?_
        have hdevice := count_commands_set hb (b.popResponse i) id
        rw [hperm.count_eq id, List.count_cons] at hdevice
        rw [launchIds_append, launchIds_launch i hlaunch, List.count_append, List.count_singleton]
        dsimp only
        omega
    case isFalse hport =>
      obtain rfl := Except.ok.inj hs
      refine ⟨h.prepared, hrecorded, holds_set h hholds, h.started, h.replies, ?_, h.counted,
        h.exclusive.mono (Nat.le_refl _) (hunderway rfl rfl rfl)⟩
      refine perm_of_count h.inFlight fun id => ?_
      have hdevice := count_commands_set hb (b.popResponse i) id
      rw [hperm.count_eq id, List.count_cons] at hdevice
      rw [launchIds_append, launchIds_launch _ hlaunch, List.count_append, List.count_singleton]
      dsimp only
      omega
  case h_2 =>
    obtain rfl := Except.ok.inj hs
    exact h

theorem atDevice_cases {d : Nat} {gen : Nat → GeneratorConfig} {op : LaunchBuffer.Op}
    (hs : s.atDevice cfg d gen op = .ok s') : ∃ b b' ev, s.devices[d]? = some b ∧
      LaunchBuffer.step cfg d gen { b with globalLaunchId := s.globalLaunchId } op =
        .ok (b', ev) ∧
      s' = { s with devices := s.devices.set d b', globalLaunchId := b'.globalLaunchId } := by
  simp only [atDevice] at hs
  split at hs
  case h_1 => cases hs
  case h_2 b hb =>
    obtain ⟨⟨b', ev⟩, hstep, hs⟩ := bind_eq_ok.mp hs
    exact ⟨b, b', ev, hb, hstep, (Except.ok.inj hs).symm⟩

/-- The units of a device go on, or its launches are checked. -/
theorem Inv.units (h : s.Inv) {d : Nat} {gen : Nat → GeneratorConfig} {op : LaunchBuffer.Op}
    (hlocal : IsLocal op) (hs : s.atDevice cfg d gen op = .ok s') : s'.Inv := by
  obtain ⟨b, b', ev, hb, hstep, rfl⟩ := atDevice_cases hs
  have hmem := List.mem_of_getElem? hb
  have hle : s.globalLaunchId ≤ b'.globalLaunchId := LaunchBuffer.globalLaunchId_le hstep
  have hholds : LaunchBuffer.HoldsCommands { b with globalLaunchId := s.globalLaunchId } :=
    ⟨(h.holds b hmem).waiting, (h.holds b hmem).replies⟩
  obtain ⟨hholds', hperm⟩ := hholds.step hlocal hstep
  have hrecorded' : b'.RecordedFirst b'.globalLaunchId := by
    refine LaunchBuffer.RecordedFirst.step (h.recorded b hmem) hstep ?_
    rintro i mf hostId sync kinfo rfl
    exact hlocal.elim
  have hunits : ∀ p ∈ s.started, ∀ unit, b'.unitActive unit p.1 = true →
      b.unitActive unit p.1 = true := by
    intro p hp unit hunit
    obtain hunit | ⟨-, hnot⟩ := LaunchBuffer.unitActive_of_step hstep hunit
    · exact hunit
    · exact absurd hlocal hnot
  refine ⟨h.prepared, recorded_set h hle hrecorded', holds_set h hholds',
    fun p hp => (h.started p hp).trans_le hle, h.replies, ?_, h.counted,
    h.exclusive.mono (Nat.le_refl _)
      (underway_of_set hb rfl rfl (fun p hp => Or.inl hp) hunits)⟩
  refine perm_of_count h.inFlight fun id => ?_
  have hdevice := count_commands_set hb b' id
  have hsame : b'.commands.count id = b.commands.count id := hperm.count_eq id
  dsimp only
  omega

/-- A device takes a message. -/
theorem Inv.delivered (h : s.Inv) {k i : Nat} {gen : Nat → GeneratorConfig} {stale : LaunchInfo}
    (hmeets : s.Meets t (.deliver k i gen stale)) (hs : s.deliver cfg t k i gen stale = .ok s') :
    s'.Inv := by
  simp only [deliver] at hs
  split at hs
  case h_1 => cases hs
  case h_2 d mf hk =>
  have hlaunches := launchIds_eraseIdx hk
  have hcount := fun id => hlaunches.count_eq id
  simp only [List.count_append] at hcount
  split at hs
  case isTrue hother =>
    obtain rfl := Except.ok.inj hs
    have hother : mf.isLaunchCommand = false := by simpa using hother
    refine ⟨h.prepared, h.recorded, h.holds, h.started, h.replies, ?_, h.counted,
      h.exclusive.mono (Nat.le_refl _) fun _ hid => hid⟩
    refine perm_of_count h.inFlight fun id => ?_
    rw [hcount, launchIds_other d hother]
    simp
  case isFalse hlaunch =>
    have hlaunch : mf.isLaunchCommand = true := by simpa using hlaunch
    obtain ⟨s₁, hdevice, hs⟩ := bind_eq_ok.mp hs
    obtain rfl := Except.ok.inj hs
    obtain ⟨b, b', ev, hb, hstep, rfl⟩ := atDevice_cases hdevice
    have hmem := List.mem_of_getElem? hb
    have hle : s.globalLaunchId < b'.globalLaunchId :=
      LaunchBuffer.globalLaunchId_receive hstep ▸ Nat.lt_succ_self s.globalLaunchId
    have hholds : LaunchBuffer.HoldsCommands { b with globalLaunchId := s.globalLaunchId } :=
      ⟨(h.holds b hmem).waiting, (h.holds b hmem).replies⟩
    obtain ⟨hholds', hperm⟩ := hholds.receive hlaunch hstep
    have hrecorded' : b'.RecordedFirst b'.globalLaunchId := by
      refine LaunchBuffer.RecordedFirst.step (h.recorded b hmem) hstep ?_
      intro i mf' hostId sync kinfo heq
      cases heq
      exact hmeets (d, mf) hk hlaunch
    rw [launchIds_launch d hlaunch] at hlaunches hcount
    have hsent : mf.id ∈ s.outstanding := by
      refine h.inFlight.subset (List.mem_append_left _ (List.mem_append_left _ ?_))
      exact hlaunches.symm.subset (List.mem_append_left _ (List.mem_singleton_self _))
    have hunits : ∀ p ∈ s.started, ∀ unit, b'.unitActive unit p.1 = true →
        b.unitActive unit p.1 = true := by
      intro p hp unit hunit
      obtain hunit | ⟨heq, -⟩ := LaunchBuffer.unitActive_of_step hstep hunit
      · exact hunit
      · exact absurd heq (Nat.ne_of_lt (h.started p hp))
    have hstarted : ∀ p ∈ s.started ++ [(s.globalLaunchId, mf.id)],
        p ∈ s.started ∨ s.Underway p.2 := by
      intro p hp
      obtain hp | hp := List.mem_append.mp hp
      · exact Or.inl hp
      · rw [List.mem_singleton.mp hp]
        exact Or.inr (Or.inl hsent)
    refine ⟨h.prepared, recorded_set (s := s) h (Nat.le_of_lt hle) hrecorded',
      holds_set (s := s) h hholds', fun p hp => ?_, h.replies, ?_, h.counted,
      h.exclusive.mono (Nat.le_refl _) (underway_of_set hb rfl rfl hstarted hunits)⟩
    · obtain hp | hp := List.mem_append.mp hp
      · exact (h.started p hp).trans hle
      · rw [List.mem_singleton.mp hp]
        exact hle
    · refine perm_of_count h.inFlight fun id => ?_
      have hdevice := count_commands_set hb b' id
      have htaken : b'.commands.count id = [mf.id].count id + b.commands.count id := by
        rw [← List.count_append]
        exact hperm.count_eq id
      have hleft := hcount id
      dsimp only at hdevice ⊢
      omega

theorem Inv.step (hserial : g.serialLaunch = true) (h : s.Inv) (hmeets : s.Meets t op)
    (hoffered : s.Offered g op) (hs : s.step g cfg t op = .ok s') : s'.Inv := by
  cases op with
  | tick =>
    obtain rfl := Except.ok.inj hs
    exact h.runner ⟨h.prepared.queues, h.prepared.commands, h.prepared.answers⟩ rfl
  | release =>
    obtain ⟨⟨r, events⟩, hr, hs⟩ := bind_eq_ok.mp hs
    obtain rfl := Except.ok.inj hs
    obtain ⟨hprepared, hremaining⟩ := h.prepared.release hr
    exact h.runner hprepared hremaining
  | nextCommand stillBusy canRegister =>
    obtain ⟨r, hr, hs⟩ := bind_eq_ok.mp hs
    obtain rfl := Except.ok.inj hs
    obtain ⟨hprepared, hremaining⟩ := h.prepared.nextCommand hr
    exact h.runner hprepared hremaining
  | send host node hasBuffer => exact h.sent hserial hs
  | receive k node => exact h.received hs
  | deliver k i gen stale => exact h.delivered hmeets hs
  | units d gen op => exact h.units hoffered hs
  | transfer d i => exact h.transferred hs
  | toHost host mf =>
    obtain rfl := Except.ok.inj hs
    exact h.toHost host hmeets.1 hmeets.2
  | toDevice d mf =>
    obtain rfl := Except.ok.inj hs
    exact h.toDevice d hmeets

/-- The trace as the runner parses it. -/
def launchTrace (g : RunnerConfig) (cfg : SystemConfig) (isScWork : Bool)
    (kernels : List TracedKernel) : LaunchTrace :=
  .parseNdpTrace ⟨g.numHosts, cfg.numM2ndps, isScWork⟩ kernels

/-- If what a device reads of a launch command is that the host is host 0, and no reply comes to a
host but those to launch commands, serial launches do not overlap. -/
theorem exclusive_of_run (g : RunnerConfig) (cfg : SystemConfig) (isScWork : Bool)
    (kernels : List TracedKernel) (hserial : g.serialLaunch = true) {s : SerialSystem}
    (h : Run g cfg (launchTrace g cfg isScWork kernels)
      (Meets (launchTrace g cfg isScWork kernels)) s) : s.Exclusive := by
  have hinv : Inv s := by
    induction h with
    | start => exact inv_create g cfg (LaunchTrace.parsed _ kernels)
    | step run op meets offered hs ih => exact ih.step hserial meets offered hs
  exact hinv.exclusive

theorem run_execute {P : SerialSystem → Op → Prop} [∀ s, DecidablePred (P s)]
    (h : Run g cfg t P s) {ops : List Op} (hs : s.execute g cfg t P ops = some s') :
    Run g cfg t P s' := by
  induction ops generalizing s with
  | nil =>
    obtain rfl := Option.some.inj hs
    exact h
  | cons op ops ih =>
    rw [execute] at hs
    split at hs
    case isTrue hmeets =>
      obtain ⟨s₁, hstep, hs⟩ := Option.bind_eq_some_iff.mp hs
      refine ih (h.step op hmeets.1 hmeets.2 ?_) hs
      cases hresult : s.step g cfg t op with
      | error e =>
        rw [hresult] at hstep
        cases hstep
      | ok s₂ =>
        rw [hresult] at hstep
        rw [Option.some.inj hstep]
    case isFalse => cases hs

/-- One host with one link. -/
def oneHost : RunnerConfig := ⟨1, 1, 0, true⟩

def oneDevice : SystemConfig := LaunchBuffer.oneUnit 0x80#64

/-- The trace of a kernel with asynchronous launches of one packet. -/
abbrev launches (n : Nat) : LaunchTrace :=
  launchTrace oneHost oneDevice false [⟨[], List.replicate n ⟨false, LaunchBuffer.onePacket⟩⟩]

def oneKernel : Nat → GeneratorConfig := fun _ => LaunchBuffer.oneKernel

/-- The first launch: its command goes to the device, the reply comes to the host. -/
def firstLaunch : List Op :=
  [.nextCommand false true, .send 0 0 true,
    .deliver 0 0 oneKernel ⟨0, false, LaunchBuffer.onePacket⟩, .transfer 0 0, .receive 0 0]

/-- The unit is told that the finalizer of the first launch has finished. -/
def firstFinished : Op :=
  .units 0 oneKernel (.complete 0 (UThreadGenerator.mkRequest LaunchBuffer.onePacket 2 .finalizer
    0 0 0))

/-- The second launch is sent when the first one has ended. -/
theorem exclusive_of_run_two : ∃ s, Run oneHost oneDevice (launches 2) (Meets (launches 2)) s ∧
    s.Exclusive ∧ s.outstanding = [1] := by
  have hruns : ((create oneHost oneDevice (launches 2)).execute oneHost oneDevice (launches 2)
      (Meets (launches 2)) (firstLaunch ++ [firstFinished, .send 0 0 true])).any
        (·.outstanding = [1]) = true := by
    decide +kernel
  obtain ⟨s, hs, hsent⟩ := (Option.any_eq_true _ _).mp hruns
  have hrun := run_execute .start hs
  exact ⟨s, hrun, exclusive_of_run _ _ _ _ rfl hrun, of_decide_eq_true hsent⟩

/-- The reply to a read that an L1 cache makes for itself when a write misses. -/
def allocateReply : Message := .create 9 64#64 .l1CacheWa .readReply

/-- The reply to a read of the L1 cache is counted as one to a launch command, so that the third
launch is sent while the second one is on its way. -/
theorem launches_overlap : ∃ s, Run oneHost oneDevice (launches 3) (fun _ _ => True) s ∧
    ¬ s.Exclusive := by
  have hruns : ((create oneHost oneDevice (launches 3)).execute oneHost oneDevice (launches 3)
      (fun _ _ => True) (firstLaunch ++ [.toHost 0 allocateReply, .receive 0 0, firstFinished,
        .send 0 0 true, .send 0 0 true])).any (·.outstanding = [1, 2]) = true := by
    decide +kernel
  obtain ⟨s, hs, hsent⟩ := (Option.any_eq_true _ _).mp hruns
  refine ⟨s, run_execute .start hs, fun h => ?_⟩
  have hone := h.one
  rw [of_decide_eq_true hsent] at hone
  exact absurd hone (by decide)

end SerialSystem

end NdpSim
