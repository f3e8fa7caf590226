import NdpSim.Dram.Controller
import NdpSim.Dram.OpenRowTable
import NdpSim.Library.Loops

/-!
# Controllers of LPDDR5 channels

In a controller that is only given requests to places of its channel, a cycle runs into no assertion
as long as there is room for the refreshes.
-/
namespace NdpSim

open Library

namespace Lpddr5

variable {s : SpeedEntry} {channels ranks : Nat} {id : Int} {h : List (IssuedCmd Command)}
  {c c' : Controller Command State 3} {queue : QueueId} {req r : Request} {cmd : Command}
  {fwd : Request → Prop}

/-- The request is for a place of the channel. -/
def For (ranks : Nat) (id : Int) (r : Request) : Prop :=
  Addressed ranks r.type r.addrVec ∧ r.addrVec.idx 0 = id

theorem For.congr {r' : Request} (hr : For ranks id r) (htype : r'.type = r.type)
    (haddr : r'.addrVec = r.addrVec) : For ranks id r' := by
  rw [For, htype, haddr]
  exact hr

/-- The write queue answered the read, of which `fwd` tells, or the memory did. -/
def ReadServed (s : SpeedEntry) (fwd : Request → Prop) (h : List (IssuedCmd Command))
    (r : Request) : Prop :=
  r.type = .read ∧ (fwd r ∨ ⟨.rd, r.addrVec, r.depart - (s.nCL + s.nBL)⟩ ∈ h)

theorem ReadServed.mono {fwd' : Request → Prop} {h' : List (IssuedCmd Command)}
    (hr : ReadServed s fwd h r) (hfwd : ∀ r, fwd r → fwd' r) (hsub : h ⊆ h') :
    ReadServed s fwd' h' r :=
  ⟨hr.1, hr.2.imp (hfwd r) fun hmem => hsub hmem⟩

structure Sound (s : SpeedEntry) (channels ranks : Nat) (id : Int) (fwd : Request → Prop)
    (h : List (IssuedCmd Command)) (c : Controller Command State 3) : Prop where
  clk_nonneg : 0 ≤ c.clk
  queued : ∀ queue, ∀ r ∈ c.queues queue, For ranks id r
  controls : Controls s channels ranks id h c.issuer
  pending : ∀ r ∈ c.pending, For ranks id r ∧ ReadServed s fwd h r

theorem Sound.mono {fwd' : Request → Prop} (hc : Sound s channels ranks id fwd h c)
    (hfwd : ∀ r, fwd r → fwd' r) : Sound s channels ranks id fwd' h c :=
  ⟨hc.clk_nonneg, hc.queued, hc.controls,
    fun r hr => (hc.pending r hr).imp_right fun hserved =>
      hserved.mono hfwd (List.Subset.refl h)⟩

theorem Sound.setQueue (hc : Sound s channels ranks id fwd h c) {q : List Request}
    (hq : ∀ r ∈ q, For ranks id r) : Sound s channels ranks id fwd h (c.setQueue queue q) where
  clk_nonneg := hc.clk_nonneg
  queued queue' r hr := by
    rw [Controller.queues_setQueue] at hr
    split at hr
    · exact hq r hr
    · exact hc.queued queue' r hr
  controls := hc.controls
  pending := hc.pending

theorem Sound.enqueue (hc : Sound s channels ranks id fwd h c) (hreq : For ranks id req)
    (hfwd : c.forwards req = true → fwd { req with arrive := c.clk, depart := c.clk + 1 })
    (he : c.enqueue req = some c') : Sound s channels ranks id fwd h c' := by
  obtain ⟨-, ⟨hforwards, rfl⟩ | ⟨-, rfl⟩⟩ := Controller.enqueue_eq_some.mp he
  · refine ⟨hc.clk_nonneg, hc.queued, hc.controls, fun r hr => ?_⟩
    obtain hr | hr := List.mem_append.mp hr
    · exact hc.pending r hr
    · obtain rfl := List.mem_singleton.mp hr
      have hread := hforwards
      simp only [Controller.forwards, Bool.and_eq_true, decide_eq_true_eq] at hread
      exact ⟨hreq, hread.1, .inl (hfwd hforwards)⟩
  · refine hc.setQueue fun r hr => ?_
    obtain hr | hr := List.mem_append.mp hr
    · exact hc.queued _ r hr
    · obtain rfl := List.mem_singleton.mp hr
      exact hreq

/-! ## Refreshes -/

theorem Serves.children {d : Dram Command State 3} (hd : Serves s channels ranks id h d) :
    d.children.length = ranks ∧ ∀ rank ∈ d.children, 0 ≤ rank.self.id ∧ rank.self.id < ranks := by
  have hsome : ∀ i : Nat, (d.children[i]?).isSome ↔ i < ranks := by
    intro i
    rw [← isSome_create_rank s channels ranks id, ← hd.find?_isSome,
      Dram.find?_cons]
    cases d.children[i]? <;> simp
  constructor
  · apply le_antisymm
    · by_contra hlt
      have := (hsome ranks).mp (by rw [List.getElem?_eq_getElem (by omega)]; rfl)
      omega
    · by_contra hlt
      have := (hsome d.children.length).mpr (by omega)
      simp at this
  · intro rank hrank
    obtain ⟨i, hi⟩ := List.mem_iff_getElem?.mp hrank
    have hnum := hd.issues.tells.1 [] i rank.self (by
      rw [List.nil_append, Dram.find?_cons, hi]
      exact Dram.find?_nil rank)
    have hlt := (hsome i).mp (by rw [hi]; rfl)
    omega

theorem Sound.for_refresh (hc : Sound s channels ranks id fwd h c) {rank : Int}
    (hrank : 0 ≤ rank ∧ rank < ranks) :
    For ranks id (c.refreshRequest (lpddr5Spec s channels ranks) rank) :=
  ⟨⟨hrank, rfl⟩, hc.controls.follows.1.issues.tells.2.2.1⟩

theorem Sound.refreshTarget (hc : Sound s channels ranks id fwd h c) {rank : Int}
    (hrank : 0 ≤ rank ∧ rank < ranks)
    (hc' : c.refreshTarget (lpddr5Spec s channels ranks) rank = .ok c') :
    Sound s channels ranks id fwd h c' := by
  unfold Controller.refreshTarget at hc'
  split at hc'
  case h_1 c₁ he =>
    obtain rfl := Except.ok.inj hc'
    apply hc.enqueue (hc.for_refresh hrank) _ he
    intro hforwards
    simp [Controller.forwards, Controller.refreshRequest] at hforwards
  case h_2 => cases hc'

theorem refreshTarget_isOk (rank : Int) (channels ranks : Nat)
    (hroom : (c.queues .otherq).length < 256) :
    ∃ c', c.refreshTarget (lpddr5Spec s channels ranks) rank = .ok c' ∧
      (c'.queues .otherq).length = (c.queues .otherq).length + 1 := by
  let req := c.refreshRequest (lpddr5Spec s channels ranks) rank
  have he : c.enqueue req = some (c.setQueue .otherq
      (c.queues .otherq ++ [{ req with arrive := c.clk }])) :=
    Controller.enqueue_eq_some.mpr ⟨hroom.ne, .inr ⟨rfl, rfl⟩⟩
  refine ⟨_, by rw [Controller.refreshTarget, he], ?_⟩
  rw [Controller.queues_setQueue, if_pos rfl, List.length_append]
  rfl

theorem refreshAll_isOk {l : List (Dram Command State 2)} (channels ranks : Nat)
    (hroom : (c.queues .otherq).length + l.length ≤ 256) :
    ∃ c', l.foldlM (fun c rank => c.refreshTarget (lpddr5Spec s channels ranks) rank.self.id) c =
      .ok c' := by
  induction l generalizing c with
  | nil => exact ⟨c, rfl⟩
  | cons rank l ih =>
    rw [List.length_cons] at hroom
    obtain ⟨c₁, h₁, hlen⟩ :=
      refreshTarget_isOk (s := s) (c := c) rank.self.id channels ranks (by omega)
    obtain ⟨c₂, h₂⟩ := ih (c := c₁) (by omega)
    exact ⟨c₂, by rw [List.foldlM_cons, h₁, ok_bind, h₂]⟩

theorem tickRef_isOk (hc : Sound s channels ranks id fwd h c)
    (hroom : (c.queues .otherq).length + ranks ≤ 256) :
    ∃ c', c.tickRef (lpddr5Spec s channels ranks) = .ok c' := by
  obtain ⟨hlen, -⟩ := hc.controls.follows.1.children
  unfold Controller.tickRef
  dsimp only
  split
  · obtain ⟨c₂, h₂⟩ := refreshAll_isOk (s := s) (c := { c with refreshClk := c.refreshClk + 1 })
      (l := c.issuer.channel.children) channels ranks (by rw [hlen]; exact hroom)
    rw [h₂]
    exact ⟨_, rfl⟩
  · exact ⟨_, rfl⟩

theorem Sound.refreshAll (hc : Sound s channels ranks id fwd h c) {l : List (Dram Command State 2)}
    (hl : ∀ rank ∈ l, 0 ≤ rank.self.id ∧ rank.self.id < ranks)
    (hc' : l.foldlM (fun c rank => c.refreshTarget (lpddr5Spec s channels ranks) rank.self.id) c =
      .ok c') : Sound s channels ranks id fwd h c' := by
  induction l generalizing c with
  | nil =>
    obtain rfl := Except.ok.inj hc'
    exact hc
  | cons rank l ih =>
    obtain ⟨hrank, hl⟩ := List.forall_mem_cons.mp hl
    rw [List.foldlM_cons] at hc'
    obtain ⟨c₁, h₁, hc'⟩ := bind_eq_ok.mp hc'
    exact ih (hc.refreshTarget hrank h₁) hl hc'

theorem Sound.tickRef (hc : Sound s channels ranks id fwd h c)
    (hc' : c.tickRef (lpddr5Spec s channels ranks) = .ok c') :
    Sound s channels ranks id fwd h c' := by
  obtain ⟨-, hranks⟩ := hc.controls.follows.1.children
  have hc₁ : Sound s channels ranks id fwd h { c with refreshClk := c.refreshClk + 1 } :=
    ⟨hc.clk_nonneg, hc.queued, hc.controls, hc.pending⟩
  unfold Controller.tickRef at hc'
  dsimp only at hc'
  split at hc'
  · obtain ⟨c₂, h₂, hc'⟩ := bind_eq_ok.mp hc'
    obtain rfl := Except.ok.inj hc'
    have hc₂ := hc₁.refreshAll hranks h₂
    exact ⟨hc₂.clk_nonneg, hc₂.queued, hc₂.controls, hc₂.pending⟩
  · obtain rfl := Except.ok.inj hc'
    exact hc₁

/-! ## The candidates of the scheduler -/

theorem checkRow_refresh {d : Dram Command State 3} {addr : AddrVec}
    (hd : Serves s channels ranks id h d) (haddr : Addressed ranks .refresh addr)
    {table : Nat → Command → Option (Node → Int → Except Fault Bool)}
    (hnone : ∀ level < 3, table level .refab = none) :
    d.checkRow table 0 .refab addr = .ok false := by
  obtain ⟨i, hi, hsome⟩ := hd.rank haddr
  rw [Dram.find?_cons] at hsome
  obtain ⟨node, hnode⟩ := Option.isSome_iff_exists.mp hsome
  obtain ⟨rank, hrank, -⟩ := Option.bind_eq_some_iff.mp hnode
  have hneg : addr.idx 2 < 0 := by
    have := haddr.2
    simp only at this
    omega
  simp only [Dram.checkRow, hnone 0 (by decide), hnone 1 (by decide), hi, (descend hrank).1,
    (descend hrank).2, or_false, Nat.zero_add]
  rw [if_neg (by omega)]
  exact if_pos (.inl hneg)

theorem Sound.first (hc : Sound s channels ranks id fwd h c) (hr : For ranks id r) :
    c.firstCmd (lpddr5Spec s channels ranks) r =
      .ok (nextCommand (OpenRows.after (rowOps h)) r.type r.addrVec) ∧
    ∃ ready, c.isReady (lpddr5Spec s channels ranks)
      (nextCommand (OpenRows.after (rowOps h)) r.type r.addrVec) r.addrVec = .ok ready := by
  obtain ⟨hdecode, hready, -⟩ := hc.controls.follows.1.next hr.1 c.clk
  exact ⟨hdecode, hready⟩

/-- What the scheduler is told about a request. -/
theorem Sound.candidate (hc : Sound s channels ranks id fwd h c) (hr : For ranks id r) :
    ∃ cand, c.candidate (lpddr5Spec s channels ranks) r = .ok cand ∧
      cand.rowgroup = bankKey id (bankOf r.addrVec) ∧
      (r.type = .read ∨ r.type = .write →
        (cand.hit = true ↔ OpenRows.after (rowOps h) (bankOf r.addrVec) = some (r.addrVec.idx 4)) ∧
        (cand.rowOpen = true ↔ OpenRows.after (rowOps h) (bankOf r.addrVec) ≠ none)) := by
  obtain ⟨hfirst, ready, hready⟩ := hc.first hr
  obtain ⟨haddr, hid⟩ := hr
  obtain ⟨hserves, -⟩ := hc.controls.follows
  have hrows : ∃ hit rowOpen,
      c.issuer.channel.checkRowHit (lpddr5Spec s channels ranks).toStandard
        ((lpddr5Spec s channels ranks).translate r.type) r.addrVec = .ok hit ∧
      c.issuer.channel.checkRowOpen (lpddr5Spec s channels ranks).toStandard
        ((lpddr5Spec s channels ranks).translate r.type) r.addrVec = .ok rowOpen ∧
      (r.type = .read ∨ r.type = .write →
        (hit = true ↔ OpenRows.after (rowOps h) (bankOf r.addrVec) = some (r.addrVec.idx 4)) ∧
        (rowOpen = true ↔ OpenRows.after (rowOps h) (bankOf r.addrVec) ≠ none)) := by
    obtain htype | htype := haddr.cases
    · obtain ⟨i, j, k, hbank, hsome⟩ := hserves.bank haddr htype
      obtain ⟨hhit, hopen⟩ := checkRow_access (s := s)
        hserves.follows.2.2 htype hbank hsome
      exact ⟨_, _, hhit, hopen, fun _ => ⟨by simp, by simp [Option.isSome_iff_ne_none]⟩⟩
    · rw [htype] at haddr ⊢
      exact ⟨_, _, checkRow_refresh hserves haddr fun _ hl => (row_tables hl _).1,
        checkRow_refresh hserves haddr fun _ hl => (row_tables hl _).2, by simp⟩
  obtain ⟨hit, rowOpen, hhit, hopen, hspec⟩ := hrows
  refine ⟨_, by
    rw [Controller.candidate, hfirst, ok_bind, hready, ok_bind, hhit, ok_bind, hopen]
    rfl, ?_, hspec⟩
  exact (group_eq hid).1

/-! ## A cycle -/

theorem Sound.pick (hc : Sound s channels ranks id fwd h c) (queue : QueueId) :
    ∃ picked, c.pick (lpddr5Spec s channels ranks) queue = .ok picked := by
  obtain ⟨cands, hcands⟩ := exists_mapM_eq_ok.mpr fun r hr =>
    (hc.candidate (hc.queued queue r hr)).imp fun cand hcand => hcand.1
  have hlen := (forall₂_of_mapM hcands).length_eq
  rw [Controller.pick, hcands, ok_bind]
  cases hhead : getHead .frfcfsPriorHit 16 cands with
  | none => exact ⟨none, rfl⟩
  | some i =>
    obtain ⟨cand, hcand, -⟩ := (getHead_priorHit 16 cands).2 i hhead
    have hlt := (List.getElem?_eq_some_iff.mp hcand).1
    have hreq : (c.queues queue)[i]? = some (c.queues queue)[i] :=
      List.getElem?_eq_getElem (by omega)
    obtain ⟨hfirst, ready, hready⟩ := hc.first (hc.queued queue _ (List.mem_of_getElem? hreq))
    dsimp only
    rw [hreq]
    dsimp only
    rw [hfirst, ok_bind, hready]
    exact ⟨_, rfl⟩

/-- A row is not closed while a request of the same queue hits it. -/
theorem Sound.pick_pre (hc : Sound s channels ranks id fwd h c) {i : Nat}
    (hpick : c.pick (lpddr5Spec s channels ranks) queue = .ok (some (i, req, .pre))) :
    ∀ r ∈ c.queues queue, r.type = .read ∨ r.type = .write →
      bankOf r.addrVec = bankOf req.addrVec →
      OpenRows.after (rowOps h) (bankOf r.addrVec) ≠ some (r.addrVec.idx 4) := by
  intro r hr htype hbank hhit
  obtain ⟨cands, hcands, hpick⟩ := bind_eq_ok.mp hpick
  have hall := forall₂_of_mapM hcands
  split at hpick
  · cases hpick
  case h_2 j hhead =>
    obtain ⟨cand, hcand, -, -, hspare⟩ := (getHead_priorHit 16 cands).2 j hhead
    split at hpick
    · cases hpick
    case h_2 r₁ hr₁ =>
      obtain ⟨cmd, hfirst, hpick⟩ := bind_eq_ok.mp hpick
      obtain ⟨ready, -, hpick⟩ := bind_eq_ok.mp hpick
      cases ready with
      | false => cases hpick
      | true =>
        obtain ⟨rfl, rfl, rfl⟩ := by simpa using Except.ok.inj hpick
        have hfor := hc.queued queue r₁ (List.mem_of_getElem? hr₁)
        obtain ⟨hlt, rfl⟩ := List.getElem?_eq_some_iff.mp hr₁
        obtain ⟨hlt', rfl⟩ := List.getElem?_eq_some_iff.mp hcand
        have hself : c.candidate (lpddr5Spec s channels ranks) (c.queues queue)[j] =
            .ok cands[j] := hall.get hlt hlt'
        obtain ⟨cand₁, hcand₁, hgroup₁, hspec₁⟩ := hc.candidate hfor
        obtain rfl := Except.ok.inj (hcand₁.symm.trans hself)
        obtain ⟨cand, hmem, hcand⟩ := exists_of_forall₂_left hall hr
        obtain ⟨cand', hcand', hgroup, hspec⟩ := hc.candidate (hc.queued queue r hr)
        obtain rfl := Except.ok.inj (hcand'.symm.trans hcand)
        have hnext := Except.ok.inj ((hc.first hfor).1.symm.trans hfirst)
        obtain ⟨htype₁, row, hrow, hne⟩ := of_nextCommand_eq_pre hfor.1 hnext
        obtain ⟨hhit₁, hopen₁⟩ := hspec₁ htype₁
        have hclosed := hspare cand' hmem ((hspec htype).1.mpr hhit)
          (by rw [hgroup, hgroup₁, hbank]) (hopen₁.mpr (by rw [hrow]; simp))
        rw [hhit₁, hrow] at hclosed
        exact hne (Option.some.inj hclosed)

/-- A request that is called back was served. -/
def Answered (s : SpeedEntry) (fwd : Request → Prop) (h : List (IssuedCmd Command)) (clk : Int)
    (r : Request) : Prop :=
  ReadServed s fwd h r ∧ r.depart ≤ clk ∨ r.type = .write ∧ ∃ t ≤ clk, ⟨.wr, r.addrVec, t⟩ ∈ h

/-- The command that was picked is issued. -/
theorem Sound.issue (hc : Sound s channels ranks id fwd h c) {i : Nat} {done : List Request}
    (hreq : (c.queues queue)[i]? = some req)
    (hfirst : c.firstCmd (lpddr5Spec s channels ranks) req = .ok cmd)
    (hissue : c.issue (lpddr5Spec s channels ranks) queue i req cmd = .ok (c', done)) :
    c'.clk = c.clk ∧ Sound s channels ranks id fwd (⟨cmd, req.addrVec, c.clk⟩ :: h) c' ∧
      ∀ r ∈ done, Answered s fwd (⟨cmd, req.addrVec, c.clk⟩ :: h) c.clk r := by
  have hr := hc.queued queue req (List.mem_of_getElem? hreq)
  obtain ⟨issuer, serving, hissuer, hp⟩ := Controller.issue_cases _ hissue
  have hcontrols :=
    hc.controls.issue req.type req.addrVec c.clk hr.1 hr.2 hc.clk_nonneg hfirst hissuer
  obtain ⟨hsame, hclk, -⟩ :=
    { c with issuer, serving }.frame_advance (lpddr5Spec s channels ranks) queue i req cmd
  rw [← hp] at hsame hclk
  refine ⟨hclk, ⟨hclk ▸ hc.clk_nonneg, fun queue' r₁ hr₁ => ?_, hsame ▸ hcontrols,
    fun r₁ hr₁ => ?_⟩, fun r hr₁ => ?_⟩
  · have hmem : r₁ ∈ ({ c with issuer, serving }.advance (lpddr5Spec s channels ranks) queue i req
      cmd).1.queues queue' := by rwa [← hp]
    obtain hmem | ⟨htype, haddr⟩ := Controller.mem_advance _ hmem
    · exact hc.queued queue' r₁ hmem
    · exact hr.congr htype haddr
  · have hmem : r₁ ∈ ({ c with issuer, serving }.advance (lpddr5Spec s channels ranks) queue i req
      cmd).1.pending := by rwa [← hp]
    obtain hmem | ⟨htype, rfl, htype₁, haddr, hdepart⟩ := Controller.mem_pending_advance _ hmem
    · exact (hc.pending r₁ hmem).imp_right fun hserved =>
        hserved.mono (fun _ hfwd => hfwd) (List.subset_cons_self ..)
    · refine ⟨hr.congr (htype₁.trans htype.symm) haddr, htype₁, .inr ?_⟩
      have hlast : r₁.depart - (s.nCL + s.nBL) = c.clk := by
        rw [hdepart]
        exact add_sub_cancel_right c.clk (s.nCL + s.nBL)
      rw [haddr, hlast, htype]
      exact List.mem_cons_self ..
  · have hmem : r ∈ ({ c with issuer, serving }.advance (lpddr5Spec s channels ranks) queue i req
      cmd).2 := by rwa [← hp]
    obtain ⟨htype, rfl, htype₁, haddr⟩ := Controller.mem_done_advance _ hmem
    refine .inr ⟨htype₁, c.clk, le_rfl, ?_⟩
    rw [haddr, htype]
    exact List.mem_cons_self ..

/-- A cycle issues one command or none. -/
theorem Sound.schedule (hc : Sound s channels ranks id fwd h c) {done : List Request}
    (hschedule : c.schedule (lpddr5Spec s channels ranks) = .ok (c', done)) :
    ∃ h', c'.clk = c.clk ∧ h ⊆ h' ∧ Sound s channels ranks id fwd h' c' ∧
      ∀ r ∈ done, Answered s fwd h' c.clk r := by
  obtain ⟨rfl, rfl⟩ | ⟨queue, i, req, cmd, hpick, hissue⟩ :=
    Controller.schedule_cases _ hschedule
  · exact ⟨h, rfl, List.Subset.refl h, hc, fun r hr => absurd hr List.not_mem_nil⟩
  · obtain ⟨hreq, hfirst, -⟩ := Controller.pick_eq_ok _ hpick
    obtain ⟨hclk, hc', hdone⟩ := hc.issue hreq hfirst hissue
    exact ⟨_, hclk, List.subset_cons_self .., hc', hdone⟩

end Lpddr5

end NdpSim
