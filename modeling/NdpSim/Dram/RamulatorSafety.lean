import NdpSim.Dram.ControllerRuns
import NdpSim.Dram.RamulatorReplies

/-!
# An LPDDR5 memory behind its wrapper

The wrapper gives the controllers what they expect, so that all that holds in the runs of a
controller holds in the runs of the whole memory, and a cycle ends when there is room for what it
adds.
-/
namespace NdpSim

open Library

namespace Ramulator

open Lpddr5 (Command State SpeedEntry)

variable {s : SpeedEntry} {c k : Nat} {name : MemoryName} {r r' : Ramulator Command State 3}
  {req : Request} {i : Nat}

/-- Each controller is in a run of its own. -/
def Driven (s : SpeedEntry) (c k : Nat) (r : Ramulator Command State 3) : Prop :=
  ∀ i : Nat, i < 2 ^ c → ∃ taken done, Lpddr5.Runs s (2 ^ c) (2 ^ k) i taken done (r.ctrls i)

theorem Driven.setCtrl (hr : Driven s c k r) {ctrl : Controller Command State 3}
    {taken done : List Request} (hctrl : Lpddr5.Runs s (2 ^ c) (2 ^ k) i taken done ctrl) :
    Driven s c k { r with ctrls := Function.update r.ctrls i ctrl } := by
  intro j hj
  dsimp only
  by_cases hj' : j = i
  · subst hj'
    rw [Function.update_self]
    exact ⟨taken, done, hctrl⟩
  · rw [Function.update_of_ne hj']
    exact hr j hj

theorem complete_frame {C S : Type} {n : Nat} {S' : MemorySpec C S} {r r' : Ramulator C S n}
    (h : r.complete S' req = .ok r') : r'.ctrls = r.ctrls ∧
      ∀ j, j ≠ (req.addrVec.idx 0).toNat → r'.rwq j = r.rwq j := by
  unfold Ramulator.complete at h
  split at h
  · cases h
  case h_2 mf hmf =>
    dsimp only at h
    split_ifs at h with hch hfull hlast
    · obtain rfl := Except.ok.inj h
      exact ⟨rfl, fun j hj => Function.update_of_ne hj ..⟩
    · obtain rfl := Except.ok.inj h
      exact ⟨rfl, fun j hj => rfl⟩

theorem completeAll_frame {C S : Type} {n : Nat} {S' : MemorySpec C S} {r r' : Ramulator C S n}
    {done : List Request} (h : done.foldlM (Ramulator.complete S') r = .ok r') :
    r'.ctrls = r.ctrls :=
  foldlM_invariant (P := fun r₁ => r₁.ctrls = r.ctrls)
    (fun _ _ _ hstep heq => (complete_frame hstep).1.trans heq) h rfl

theorem Driven.tickChannel (hr : Driven s c k r) (hi : i < 2 ^ c)
    (h : r.tickChannel (lpddr5Memory s c k name) i = .ok r') : Driven s c k r' := by
  obtain ⟨⟨ctrl, done⟩, hc, h⟩ := bind_eq_ok.mp h
  obtain ⟨taken, past, hrun⟩ := hr i hi
  have hset := hr.setCtrl (hrun.tick _ hc)
  have hctrls := completeAll_frame h
  intro j hj
  rw [hctrls]
  exact hset j hj

theorem Driven.send (hr : Driven s c k r) (haccess : req.isAccess = true)
    (hfresh : req.isFirstCommand = true)
    (h : r.send (lpddr5Memory s c k name) i req = .ok (some r')) : Driven s c k r' := by
  obtain ⟨ch, hch, mf, addrVec, ctrl, hmf, hvec, hplace, hc, rfl⟩ := send_eq_ok h
  obtain ⟨v, hv, haddressed, hchannel⟩ :=
    Lpddr5.exists_addressVector c k name req.addr (r.mfs mf).channel
  obtain rfl := Except.ok.inj (hv.symm.trans hvec)
  obtain ⟨taken, done, hrun⟩ := hr ch hch
  have htype : req.type = .read ∨ req.type = .write := by
    simpa [Request.isAccess] using haccess
  refine hr.setCtrl
    (hrun.enqueue { req with addrVec := v } haccess hfresh ⟨haddressed _ htype, ?_⟩ hc)
  rw [← hplace, hchannel]
  rfl

theorem Driven.sendAll {l left : List Request} (hr : Driven s c k r)
    (hall : ∀ req ∈ l, req.isAccess = true ∧ req.isFirstCommand = true)
    (h : sendAll (lpddr5Memory s c k name) i l r = .ok (left, r')) : Driven s c k r' := by
  induction l generalizing r with
  | nil =>
    obtain ⟨-, rfl⟩ := Prod.mk.inj (Except.ok.inj h)
    exact hr
  | cons req l ih =>
    obtain ⟨⟨haccess, hfresh⟩, hall⟩ := List.forall_mem_cons.mp hall
    obtain ⟨sent?, hsent, h⟩ := bind_eq_ok.mp h
    cases sent? with
    | none =>
      obtain ⟨-, rfl⟩ := Prod.mk.inj (Except.ok.inj h)
      exact hr
    | some r₁ => exact ih (hr.send haccess hfresh hsent) hall h

theorem Driven.sendUnaccepted (hr : Driven s c k r)
    (hall : ∀ req ∈ r.unaccepted i, req.isAccess = true ∧ req.isFirstCommand = true)
    (h : r.sendUnaccepted (lpddr5Memory s c k name) i = .ok r') : Driven s c k r' := by
  obtain ⟨⟨left, r₁⟩, hsend, h⟩ := bind_eq_ok.mp h
  obtain rfl := Except.ok.inj h
  have hdriven : Driven s c k r₁ := hr.sendAll hall hsend
  exact hdriven

theorem Driven.drain {l : List Nat} (hr : Driven s c k r)
    (hplaced : Placed (lpddr5Memory s c k name) r) (hi : i < 2 ^ c)
    (h : drain (lpddr5Memory s c k name) i l r = .ok r') : Driven s c k r' := by
  induction l generalizing r with
  | nil => exact hr.sendUnaccepted (fun req hreq => (hplaced.unaccepted i hi req hreq).1) h
  | cons mf rest ih =>
    obtain ⟨r₁, h₁, h⟩ := bind_eq_ok.mp h
    have hr₁ := hr.sendUnaccepted (fun req hreq => (hplaced.unaccepted i hi req hreq).1) h₁
    split at h
    case isTrue =>
      obtain rfl := Except.ok.inj h
      exact hr₁
    case isFalse =>
      obtain ⟨reqs, hreqs, h⟩ := bind_eq_ok.mp h
      refine ih ?_ ((hplaced.sendUnaccepted hi h₁).accept hreqs) h
      exact hr₁

theorem Driven.reply (hr : Driven s c k r) (h : r.reply i = .ok r') : Driven s c k r' := by
  unfold Ramulator.reply at h
  split_ifs at h with hfull
  · obtain rfl := Except.ok.inj h
    exact hr
  · split at h
    · obtain rfl := Except.ok.inj h
      exact hr
    · obtain ⟨type, -, h⟩ := bind_eq_ok.mp h
      obtain rfl := Except.ok.inj h
      exact hr

/-- What a run of the memory keeps. -/
structure Safe (s : SpeedEntry) (c k : Nat) (name : MemoryName) (all : Multiset Nat)
    (r : Ramulator Command State 3) : Prop where
  regular : Regular (lpddr5Memory s c k name) all r
  driven : Driven s c k r

variable {all : Multiset Nat}

theorem Safe.tickChannel (hr : Safe s c k name all r) (hi : i < 2 ^ c)
    (h : r.tickChannel (lpddr5Memory s c k name) i = .ok r') : Safe s c k name all r' :=
  ⟨hr.regular.tickChannel hi h, hr.driven.tickChannel hi h⟩

theorem Safe.cycleChannel (hr : Safe s c k name all r) (hi : i < 2 ^ c)
    (h : r.cycleChannel (lpddr5Memory s c k name) i = .ok r') : Safe s c k name all r' := by
  obtain ⟨r₁, h₁, h⟩ := bind_eq_ok.mp h
  have hregular := hr.regular.reply hi h₁
  exact ⟨hregular.drain hi h, (hr.driven.reply h₁).drain hregular.placed hi h⟩

theorem Safe.cycle (hr : Safe s c k name all r) (h : r.cycle (lpddr5Memory s c k name) = .ok r') :
    Safe s c k name all r' := by
  obtain ⟨r₁, h₁, h⟩ := bind_eq_ok.mp h
  have hr₁ : Safe s c k name all r₁ :=
    foldlM_range (fun _ hi _ _ hstep hsafe => hsafe.tickChannel hi hstep) h₁ hr
  exact foldlM_range (fun _ hi _ _ hstep hsafe => hsafe.cycleChannel hi hstep) h hr₁

theorem Runs.safe {pushed popped : List Nat}
    (hrun : Runs (lpddr5Memory s c k name) 3 pushed popped r) : ∃ all, Safe s c k name all r := by
  induction hrun with
  | start mfs =>
    have hrun : Runs (lpddr5Memory s c k name) 3 [] [] (create _ 3 mfs) := .start mfs
    obtain ⟨all, hregular⟩ := hrun.regular
    exact ⟨all, hregular, fun i hi => ⟨[], [], .start⟩⟩
  | @push pushed popped r r' run mf f ch hch hfresh hrequest htarget hsize hr ih =>
    obtain ⟨all, hregular, hdriven⟩ := ih
    have hfresh' : mf ∉ all := hregular.accounts.inside_eq ▸ hfresh
    refine ⟨_, hregular.push hch hfresh' hrequest htarget hsize hr, ?_⟩
    unfold Ramulator.push at hr
    split_ifs at hr
    obtain rfl := Except.ok.inj hr
    exact hdriven
  | cycle run hr ih =>
    obtain ⟨all, hsafe⟩ := ih
    exact ⟨all, hsafe.cycle hr⟩
  | @pop pushed popped r mf run ch hch hr ih =>
    obtain ⟨all, hregular, hdriven⟩ := ih
    obtain ⟨all', -, hregular'⟩ := hregular.pop hch hr
    exact ⟨all', hregular', hdriven⟩

/-! ## A cycle ends -/

section Generic

variable {C S : Type} {n : Nat}

theorem length_serveCompleted {ctrl ctrl' : Controller C S n} {full : Bool} {done : List Request}
    (h : ctrl.serveCompleted full = .ok (ctrl', done)) : done.length ≤ 1 := by
  obtain ⟨-, rfl⟩ | ⟨req, rest, serving, -, -, -, rfl⟩ := Controller.serveCompleted_cases h
  · exact Nat.zero_le _
  · exact le_rfl

variable [DecidableEq C]

theorem length_advance (S' : DramSpec C S) (ctrl : Controller C S n) (queue : QueueId) (i : Nat)
    (req : Request) (cmd : C) : (ctrl.advance S' queue i req cmd).2.length ≤ 1 := by
  unfold Controller.advance
  dsimp only
  split_ifs
  · exact Nat.zero_le _
  · exact Nat.zero_le _
  · split
    · exact Nat.zero_le _
    · split
      · exact Nat.zero_le _
      · exact le_rfl
    · exact Nat.zero_le _

/-- A cycle of a controller calls back a read and a write at most. -/
theorem length_done {S' : DramSpec C S} {ctrl ctrl' : Controller C S n} {full : Bool}
    {done : List Request} (h : ctrl.tick S' full = .ok (ctrl', done)) : done.length ≤ 2 := by
  obtain ⟨c₁, reads, writes, hc₁, hc₂, rfl⟩ := (Controller.tick_eq_ok S').mp h
  have hreads : reads.length ≤ 1 := by
    obtain ⟨c₃, c₄, hc₃, -⟩ := (Controller.prepare_eq_ok S').mp hc₁
    exact length_serveCompleted hc₃
  have hwrites : writes.length ≤ 1 := by
    obtain ⟨-, rfl⟩ | ⟨queue, i, req, cmd, -, hissue⟩ := Controller.schedule_cases S' hc₂
    · exact Nat.zero_le _
    · obtain ⟨issuer, serving, -, heq⟩ := Controller.issue_cases S' hissue
      obtain ⟨-, rfl⟩ := Prod.mk.inj heq
      exact length_advance S' _ queue i req cmd
  rw [List.length_append]
  omega

variable {S' : MemorySpec C S} {r : Ramulator C S n}

variable (S') in
omit [DecidableEq C] in
theorem completeAll_isOk {done : List Request} (hi : i < S'.channels)
    (hroom : (r.rwq i).length + done.length ≤ rwqMaxLen)
    (hdone : ∀ req ∈ done, (∃ mf, req.mf = some mf) ∧ (req.addrVec.idx 0).toNat = i) :
    ∃ r', done.foldlM (Ramulator.complete S') r = .ok r' ∧ ∀ j, j ≠ i → r'.rwq j = r.rwq j := by
  induction done generalizing r with
  | nil => exact ⟨r, rfl, fun j hj => rfl⟩
  | cons req done ih =>
    obtain ⟨⟨⟨mf, hmf⟩, hplace⟩, hdone⟩ := List.forall_mem_cons.mp hdone
    rw [List.length_cons] at hroom
    have hstep : ∃ r₁, r.complete S' req = .ok r₁ ∧
        (r₁.rwq i).length ≤ (r.rwq i).length + 1 := by
      rw [Ramulator.complete, hmf]
      dsimp only
      rw [hplace, if_neg (not_le.mpr hi), if_neg (by omega)]
      split
      · exact ⟨_, rfl, by simp⟩
      · exact ⟨_, rfl, Nat.le_succ _⟩
    obtain ⟨r₁, h₁, hlen⟩ := hstep
    obtain ⟨r', h', hother⟩ := ih (r := r₁) (by omega) hdone
    refine ⟨r', by rw [List.foldlM_cons, h₁, ok_bind, h'], fun j hj => ?_⟩
    rw [hother j hj, (complete_frame h₁).2 j (hplace ▸ hj)]

end Generic

/-- There is room for the refreshes of all ranks and for what a channel calls back. -/
def Room (k : Nat) (r : Ramulator Command State 3) (i : Nat) : Prop :=
  ((r.ctrls i).queues .otherq).length + 2 ^ k ≤ Controller.queueMax ∧
    (r.rwq i).length + 2 ≤ rwqMaxLen

theorem Safe.tickChannel_isOk (hr : Safe s c k name all r) (hi : i < 2 ^ c)
    (hroom : Room k r i) : ∃ r', r.tickChannel (lpddr5Memory s c k name) i = .ok r' ∧
      ∀ j, j ≠ i → r'.ctrls j = r.ctrls j ∧ r'.rwq j = r.rwq j := by
  obtain ⟨taken, past, hrun⟩ := hr.driven i hi
  obtain ⟨ctrl, done, htick⟩ := Lpddr5.tick_isOk hrun hroom.1 (rwqMaxLen ≤ (r.rwq i).length)
  have hlen := length_done htick
  have hheld := Controller.held_tick htick
  have hdone : ∀ req ∈ done, (∃ mf, req.mf = some mf) ∧ (req.addrVec.idx 0).toNat = i := by
    intro req hreq
    have haccess := ((hr.regular.accounts.reads i).tick htick).2 req hreq
    have hmem : req.ident ∈ (r.ctrls i).held :=
      hheld ▸ Multiset.mem_add.mpr (.inr (mem_idents hreq haccess))
    obtain ⟨mf, hmf, hplace, -⟩ := hr.regular.placed.held i hi req.ident hmem
    exact ⟨⟨mf, hmf⟩, hplace⟩
  obtain ⟨r', h', hother⟩ := completeAll_isOk (lpddr5Memory s c k name)
    (r := { r with ctrls := Function.update r.ctrls i ctrl }) hi
    ((Nat.add_le_add_left hlen _).trans hroom.2) hdone
  refine ⟨r', bind_eq_ok.mpr ⟨(ctrl, done), htick, h'⟩, fun j hj => ⟨?_, hother j hj⟩⟩
  rw [completeAll_frame h']
  exact Function.update_of_ne hj ..

theorem Regular.reply_isOk {C S : Type} {n : Nat} {S' : MemorySpec C S} {r : Ramulator C S n}
    (hr : Regular S' all r) (hi : i < S'.channels) : ∃ r', r.reply i = .ok r' := by
  unfold Ramulator.reply
  split
  · exact ⟨_, rfl⟩
  · split
    · exact ⟨_, rfl⟩
    case h_2 mf rest hrwq =>
      have hmf : mf ∈ queued S'.channels r.rwq :=
        mem_queued.mpr ⟨i, hi, by rw [hrwq]; exact List.mem_cons_self ..⟩
      obtain ⟨type, htype⟩ := MfType.setReply_isOk
        (hr.isReply_eq_false (Multiset.mem_add.mpr (.inr hmf)))
      exact ⟨_, bind_eq_ok.mpr ⟨type, htype, rfl⟩⟩

theorem send_isOk {C S : Type} {n : Nat} (S' : MemorySpec C S) {r : Ramulator C S n} (i : Nat)
    {mf : Nat} {v : AddrVec} (hmf : req.mf = some mf)
    (hv : addressVector S'.org S'.name req.addr (r.mfs mf).channel = .ok v)
    (hplace : (v.idx 0).toNat < S'.channels) : ∃ sent?, r.send S' i req = .ok sent? := by
  unfold Ramulator.send
  split
  · rw [hmf]
    dsimp only
    rw [hv, ok_bind, if_neg (not_le.mpr hplace)]
    split <;> exact ⟨_, rfl⟩
  · exact ⟨_, rfl⟩

/-- Every address has a place in one of the channels. -/
theorem exists_place (c k : Nat) (name : MemoryName) (addr : Nat) {channel : Nat}
    (hchannel : channel < 2 ^ c) : ∃ v : AddrVec,
    addressVector (Lpddr5.orgEntry (2 ^ c) (2 ^ k)) name addr channel = .ok v ∧
      (v.idx 0).toNat < 2 ^ c := by
  obtain ⟨v, hv, -, hplace⟩ := Lpddr5.exists_addressVector c k name addr channel
  refine ⟨v, hv, ?_⟩
  rw [hplace, Int.toNat_natCast]
  split
  · exact field_lt _ _ _
  · exact hchannel

variable (s k name) in
theorem sendAll_isOk (i : Nat) {l : List Request}
    (hl : ∀ req ∈ l, ∃ mf, req.mf = some mf ∧ (r.mfs mf).channel < 2 ^ c) :
    ∃ left r', sendAll (lpddr5Memory s c k name) i l r = .ok (left, r') := by
  induction l generalizing r with
  | nil => exact ⟨[], r, rfl⟩
  | cons req l ih =>
    obtain ⟨⟨mf, hmf, hchannel⟩, hl⟩ := List.forall_mem_cons.mp hl
    obtain ⟨v, hv, hplace⟩ := exists_place c k name req.addr hchannel
    obtain ⟨sent?, hsend⟩ := send_isOk (lpddr5Memory s c k name) i hmf hv hplace
    cases sent? with
    | none => exact ⟨req :: l, r, by rw [sendAll, hsend]; rfl⟩
    | some r₁ =>
      obtain ⟨ch, -, mf, addrVec, ctrl, -, -, -, -, heq⟩ := send_eq_ok hsend
      obtain ⟨left, r', h'⟩ := ih (r := r₁) (by rw [heq]; exact hl)
      exact ⟨left, r', by rw [sendAll, hsend]; exact h'⟩

/-- The requests and the memory fetches that wait have a place. -/
def Sendable (c : Nat) (i : Nat) (r : Ramulator Command State 3) : Prop :=
  (∀ req ∈ r.unaccepted i, ∃ mf, req.mf = some mf ∧ (r.mfs mf).channel < 2 ^ c) ∧
    ∀ mf ∈ r.fromGpgpusim i, (r.mfs mf).channel < 2 ^ c ∧ (r.mfs mf).type.isReply = false

variable (s k name) in
theorem Sendable.sendUnaccepted (hr : Sendable c i r) :
    ∃ r', r.sendUnaccepted (lpddr5Memory s c k name) i = .ok r' ∧ Sendable c i r' ∧
      r'.fromGpgpusim = r.fromGpgpusim := by
  obtain ⟨left, r₁, h₁⟩ := sendAll_isOk s k name i hr.1
  refine ⟨_, bind_eq_ok.mpr ⟨(left, r₁), h₁, rfl⟩, ?_⟩
  obtain ⟨⟨ctrls, rfl⟩, -, -, hsuffix⟩ := sendAll_spec h₁
  refine ⟨⟨fun req hreq => ?_, hr.2⟩, rfl⟩
  dsimp only at hreq
  rw [Function.update_self] at hreq
  exact hr.1 req (hsuffix.subset hreq)

theorem parts_isOk {C S : Type} (S' : MemorySpec C S) (mf : Nat) {f : Fetch}
    (hf : f.type.isReply = false) : ∃ reqs, parts S' mf f = .ok reqs := by
  unfold parts
  cases htype : f.type with
  | readRequest | writeRequest => exact ⟨_, rfl⟩
  | readReply | writeAck =>
    rw [htype] at hf
    cases hf

variable (s k name) in
theorem drain_isOk {l : List Nat} (hr : Sendable c i r) (hfrom : r.fromGpgpusim i = l) :
    ∃ r', drain (lpddr5Memory s c k name) i l r = .ok r' := by
  induction l generalizing r with
  | nil =>
    obtain ⟨r', h', -⟩ := hr.sendUnaccepted s k name
    exact ⟨r', h'⟩
  | cons mf rest ih =>
    obtain ⟨r₁, h₁, hr₁, hfrom₁⟩ := hr.sendUnaccepted s k name
    rw [drain, h₁, ok_bind]
    split
    · exact ⟨r₁, rfl⟩
    · have hall : ∀ m ∈ mf :: rest,
          (r₁.mfs m).channel < 2 ^ c ∧ (r₁.mfs m).type.isReply = false := by
        rw [← hfrom, ← hfrom₁]
        exact hr₁.2
      obtain ⟨⟨hchannel, htype⟩, hrest⟩ := List.forall_mem_cons.mp hall
      obtain ⟨reqs, hreqs⟩ := parts_isOk (lpddr5Memory s c k name) mf htype
      rw [hreqs, ok_bind]
      refine ih ⟨fun req hreq => ?_, fun m hm => ?_⟩ ?_
      · dsimp only at hreq
        rw [Function.update_self] at hreq
        exact ⟨mf, ((parts_eq_ok hreqs).2 req hreq).2, hchannel⟩
      · dsimp only at hm
        rw [Function.update_self] at hm
        exact hrest m hm
      · exact Function.update_self ..

theorem Safe.sendable (hr : Safe s c k name all r) (hi : i < 2 ^ c) : Sendable c i r := by
  have hdescribed := hr.regular.described
  refine ⟨fun req hreq => ?_, fun mf hmf => ?_⟩
  · obtain ⟨⟨haccess, -⟩, mf, hmf⟩ := hr.regular.placed.unaccepted i hi req hreq
    exact ⟨mf, hmf, (hdescribed mf (hr.regular.accounts.mem_inside_of_unserved
      (mem_unserved_of_unaccepted hi hreq haccess hmf))).1⟩
  · have hmem : mf ∈ queued (lpddr5Memory s c k name).channels r.fromGpgpusim +
        r.runningMfReqs.keys + queued (lpddr5Memory s c k name).channels r.rwq :=
      Multiset.mem_add.mpr (.inl (Multiset.mem_add.mpr (.inl (mem_queued.mpr ⟨i, hi, hmf⟩))))
    exact ⟨(hdescribed mf (Multiset.mem_add.mpr (.inl hmem))).1, hr.regular.isReply_eq_false hmem⟩

theorem Safe.cycleChannel_isOk (hr : Safe s c k name all r) (hi : i < 2 ^ c) :
    ∃ r', r.cycleChannel (lpddr5Memory s c k name) i = .ok r' ∧ Safe s c k name all r' := by
  obtain ⟨r₁, h₁⟩ := hr.regular.reply_isOk hi
  have hr₁ : Safe s c k name all r₁ := ⟨hr.regular.reply hi h₁, hr.driven.reply h₁⟩
  obtain ⟨r₂, h₂⟩ := drain_isOk s k name (hr₁.sendable hi) rfl
  have hcycle : r.cycleChannel (lpddr5Memory s c k name) i = .ok r₂ :=
    bind_eq_ok.mpr ⟨r₁, h₁, h₂⟩
  exact ⟨r₂, hcycle, hr.cycleChannel hi hcycle⟩

theorem Safe.tickMemory_isOk (hr : Safe s c k name all r) (hroom : ∀ i < 2 ^ c, Room k r i) :
    ∃ r', r.tickMemory (lpddr5Memory s c k name) = .ok r' ∧ Safe s c k name all r' := by
  -- The channels that were not ticked yet are as they were.
  let P (i : Nat) (r : Ramulator Command State 3) : Prop :=
    Safe s c k name all r ∧ ∀ j, i ≤ j → j < 2 ^ c → Room k r j
  have hstep : ∀ i < (lpddr5Memory s c k name).channels, ∀ r, P i r →
      ∃ r', r.tickChannel (lpddr5Memory s c k name) i = .ok r' ∧ P (i + 1) r' := by
    rintro i hi r ⟨hsafe, hrest⟩
    obtain ⟨r', h', hother⟩ := hsafe.tickChannel_isOk hi (hrest i le_rfl hi)
    refine ⟨r', h', hsafe.tickChannel hi h', fun j hij hj => ?_⟩
    obtain ⟨hctrl, hrwq⟩ := hother j (by omega)
    rw [Room, hctrl, hrwq]
    exact hrest j (by omega) hj
  obtain ⟨r', h', hsafe, -⟩ := exists_foldlM_range hstep ⟨hr, fun j _ hj => hroom j hj⟩
  exact ⟨r', h', hsafe⟩

/-- A cycle of the memory ends without an assertion if each channel has room for the refreshes of
its ranks and for two more fetches that are done. -/
theorem cycle_isOk {pushed popped : List Nat}
    (hrun : Runs (lpddr5Memory s c k name) 3 pushed popped r) (hroom : ∀ i < 2 ^ c, Room k r i) :
    ∃ r', r.cycle (lpddr5Memory s c k name) = .ok r' := by
  obtain ⟨all, hsafe⟩ := hrun.safe
  obtain ⟨r₁, h₁, hr₁⟩ := hsafe.tickMemory_isOk hroom
  have hstep : ∀ i < (lpddr5Memory s c k name).channels, ∀ r, Safe s c k name all r →
      ∃ r', r.cycleChannel (lpddr5Memory s c k name) i = .ok r' ∧ Safe s c k name all r' :=
    fun i hi r hr => hr.cycleChannel_isOk hi
  obtain ⟨r₂, h₂, -⟩ := exists_foldlM_range hstep hr₁
  exact ⟨r₂, bind_eq_ok.mpr ⟨r₁, h₁, h₂⟩⟩

theorem cycle_isOk_read : ∃ r, Runs (lpddr5Memory Lpddr5.lpddr5_6400 0 0 .m2ndp) 3 [1] [] r ∧
    ∃ r', r.cycle (lpddr5Memory Lpddr5.lpddr5_6400 0 0 .m2ndp) = .ok r' := by
  have hstart : Runs (lpddr5Memory Lpddr5.lpddr5_6400 0 0 .m2ndp) 3 [] [] _ :=
    .start fun _ => unitFetch .readRequest
  have hread := hstart.push 1 (unitFetch .readRequest) 0 (by decide) (by decide) (.inl rfl)
    (by decide) (by decide) rfl
  refine ⟨_, hread, cycle_isOk hread fun i hi => ?_⟩
  obtain rfl : i = 0 := by omega
  exact ⟨by decide, by decide⟩

/-- Each controller of the memory is in a run, so that its commands keep the rules of its banks and
the timing, and reads and writes are called back when they were served. -/
theorem controllers_run {pushed popped : List Nat}
    (hrun : Runs (lpddr5Memory s c k name) 3 pushed popped r) (hi : i < 2 ^ c) :
    ∃ taken done, Lpddr5.Runs s (2 ^ c) (2 ^ k) i taken done (r.ctrls i) := by
  obtain ⟨all, hsafe⟩ := hrun.safe
  exact hsafe.driven i hi

theorem controllers_run_read : ∃ r, Runs (lpddr5Memory Lpddr5.lpddr5_6400 0 0 .cxl) 3 [1] [] r ∧
    ∃ taken done, Lpddr5.Runs Lpddr5.lpddr5_6400 1 1 0 taken done (r.ctrls 0) := by
  have hstart : Runs (lpddr5Memory Lpddr5.lpddr5_6400 0 0 .cxl) 3 [] [] _ :=
    .start fun _ => unitFetch .readRequest
  have hread := hstart.push 1 (unitFetch .readRequest) 0 (by decide) (by decide) (.inl rfl)
    (by decide) (by decide) rfl
  have hsent := hread.cycle rfl
  have hopened := hsent.cycle rfl
  exact ⟨_, hopened, controllers_run hopened (i := 0) (by decide)⟩

end Ramulator

end NdpSim
