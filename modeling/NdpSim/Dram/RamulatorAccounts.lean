import NdpSim.Dram.Conservation
import NdpSim.Dram.Ramulator
import NdpSim.Library.Outstanding
import NdpSim.Library.Totals

/-!
# Every memory fetch is replied to once

A memory fetch that came in is in exactly one place until its reply is taken. The running ones are
those with requests that are still to be served, and the wrapper knows how many these are.
-/
namespace NdpSim

open Library

/-- The memory fetches that the requests are for. -/
def fetches (x : Idents) : Multiset Nat := x.filterMap fun p => p.2.1

theorem fetches_zero : fetches 0 = 0 := rfl

theorem fetches_add (x y : Idents) : fetches (x + y) = fetches x + fetches y :=
  Quot.induction_on₂ x y fun _ _ => congrArg Multiset.ofList (List.filterMap_append)

theorem fetches_singleton {req : Request} {mf : Nat} (haccess : req.isAccess = true)
    (hmf : req.mf = some mf) : fetches (idents [req]) = {mf} := by
  rw [fetches, idents, Multiset.filterMap_coe]
  simp [haccess, Request.ident, hmf]

theorem fetches_congr {req req' : Request} (htype : req'.type = req.type)
    (hmf : req'.mf = req.mf) : fetches (idents [req']) = fetches (idents [req]) := by
  have haccess := Request.isAccess_congr htype
  rw [fetches, fetches, idents, idents, Multiset.filterMap_coe, Multiset.filterMap_coe]
  cases ha : req.isAccess <;> simp [haccess, ha, Request.ident, hmf, List.filterMap_cons]

theorem fetches_replicate {l : List Request} {mf : Nat}
    (hl : ∀ req ∈ l, req.isAccess = true ∧ req.mf = some mf) :
    fetches (idents l) = Multiset.replicate l.length mf := by
  induction l with
  | nil => rfl
  | cons req l ih =>
    obtain ⟨⟨haccess, hmf⟩, hl⟩ := List.forall_mem_cons.mp hl
    rw [idents_cons, fetches_add, fetches_singleton haccess hmf, ih hl, List.length_cons,
      Multiset.replicate_succ, Multiset.singleton_add]

/-! ## What a controller calls back -/

namespace Controller

variable {C S : Type} {n : Nat} {c c' : Controller C S n} {queue : QueueId} {req r : Request}

/-- Only reads wait for their data. -/
def ReadsPending (c : Controller C S n) : Prop := ∀ r ∈ c.pending, r.type = .read

theorem ReadsPending.enqueue (hc : c.ReadsPending) (h : c.enqueue req = some c') :
    c'.ReadsPending := by
  obtain ⟨-, ⟨hforwards, rfl⟩ | ⟨-, rfl⟩⟩ := enqueue_eq_some.mp h
  · intro r hr
    obtain hr | hr := List.mem_append.mp hr
    · exact hc r hr
    · obtain rfl := List.mem_singleton.mp hr
      simp only [forwards, Bool.and_eq_true, decide_eq_true_eq] at hforwards
      exact hforwards.1
  · exact hc

theorem ReadsPending.serveCompleted {full : Bool} {done : List Request} (hc : c.ReadsPending)
    (h : c.serveCompleted full = .ok (c', done)) :
    c'.ReadsPending ∧ ∀ r ∈ done, r.type = .read := by
  obtain ⟨rfl, rfl⟩ | ⟨req, rest, serving, hpending, -, rfl, rfl⟩ := serveCompleted_cases h
  · exact ⟨hc, fun r hr => absurd hr List.not_mem_nil⟩
  · rw [ReadsPending, hpending] at hc
    obtain ⟨hreq, hrest⟩ := List.forall_mem_cons.mp hc
    refine ⟨hrest, fun r hr => ?_⟩
    rwa [List.mem_singleton.mp hr]

variable {S' : DramSpec C S}

theorem ReadsPending.tickRef (hc : c.ReadsPending) (h : c.tickRef S' = .ok c') :
    c'.ReadsPending := by
  unfold Controller.tickRef at h
  dsimp only at h
  split at h
  · obtain ⟨c₁, hc₁, h⟩ := bind_eq_ok.mp h
    obtain rfl := Except.ok.inj h
    have hall : c₁.ReadsPending := by
      refine foldlM_invariant (P := ReadsPending) (fun c₂ rank c₃ h₁ hp => ?_) hc₁ hc
      unfold refreshTarget at h₁
      split at h₁
      case h_1 c₄ hc₄ =>
        obtain rfl := Except.ok.inj h₁
        exact hp.enqueue hc₄
      case h_2 => cases h₁
    exact hall
  · obtain rfl := Except.ok.inj h
    exact hc

variable [DecidableEq C]

theorem ReadsPending.issue {i : Nat} {cmd : C} {done : List Request} (hc : c.ReadsPending)
    (h : c.issue S' queue i req cmd = .ok (c', done)) :
    c'.ReadsPending ∧ ∀ r ∈ done, r.type = .write := by
  obtain ⟨issuer, serving, -, heq⟩ := issue_cases S' h
  obtain ⟨rfl, rfl⟩ := Prod.mk.inj heq
  refine ⟨fun r hr => ?_, fun r hr => (mem_done_advance S' hr).2.2.1⟩
  obtain hr | ⟨-, -, htype, -⟩ := mem_pending_advance S' hr
  · exact hc r hr
  · exact htype

theorem ReadsPending.schedule {done : List Request} (hc : c.ReadsPending)
    (h : c.schedule S' = .ok (c', done)) : c'.ReadsPending ∧ ∀ r ∈ done, r.type = .write := by
  obtain ⟨rfl, rfl⟩ | ⟨queue, i, req, cmd, -, hissue⟩ := schedule_cases S' h
  · exact ⟨hc, fun r hr => absurd hr List.not_mem_nil⟩
  · exact hc.issue hissue

theorem ReadsPending.tick {full : Bool} {done : List Request} (hc : c.ReadsPending)
    (h : c.tick S' full = .ok (c', done)) :
    c'.ReadsPending ∧ ∀ r ∈ done, r.isAccess = true := by
  obtain ⟨c₁, reads, writes, hc₁, hc₂, rfl⟩ := (tick_eq_ok S').mp h
  obtain ⟨c₃, c₄, hc₃, hc₄, rfl⟩ := (prepare_eq_ok S').mp hc₁
  have hclk : ReadsPending { c with clk := c.clk + 1 } := hc
  obtain ⟨hserve, hreads⟩ := hclk.serveCompleted hc₃
  have href := hserve.tickRef hc₄
  have hmode : c₄.switchMode.ReadsPending := by
    unfold switchMode
    dsimp only
    split_ifs <;> exact href
  obtain ⟨hschedule, hwrites⟩ := hmode.schedule hc₂
  refine ⟨hschedule, fun r hr => ?_⟩
  obtain hr | hr := List.mem_append.mp hr
  · simp [Request.isAccess, hreads r hr]
  · simp [Request.isAccess, hwrites r hr]

end Controller

/-! ## The accounts -/

namespace Ramulator

variable {C S : Type} {n : Nat} {r r' : Ramulator C S n} {S' : MemorySpec C S}
  {all : Multiset Nat} {inHand : List Request} {req : Request} {mf : Nat}

/-- The memory fetches that came in and whose replies were not taken. -/
def inside (S' : MemorySpec C S) (r : Ramulator C S n) : Multiset Nat :=
  queued S'.channels r.fromGpgpusim + r.runningMfReqs.keys + queued S'.channels r.rwq +
    queued S'.channels r.returnq

/-- The memory fetches of the requests that no controller has taken, one for each request. -/
def waiting (S' : MemorySpec C S) (r : Ramulator C S n) : Multiset Nat :=
  total S'.channels fun i => fetches (idents (r.unaccepted i))

def sent (S' : MemorySpec C S) (r : Ramulator C S n) : Multiset Nat :=
  total S'.channels fun i => fetches (r.ctrls i).held

/-- The memory fetches of the requests that are still to be served. -/
def unserved (S' : MemorySpec C S) (r : Ramulator C S n) : Multiset Nat :=
  r.waiting S' + r.sent S'

/-- `inHand` are requests that are just called back. -/
structure Accounts (S' : MemorySpec C S) (all : Multiset Nat) (inHand : List Request)
    (r : Ramulator C S n) : Prop where
  inside_eq : r.inside S' = all
  nodup : all.Nodup
  outstanding : Outstanding r.runningMfReqs (r.unserved S' + fetches (idents inHand))
  reads : ∀ i, (r.ctrls i).ReadsPending
  sizes : ∀ i < S'.channels, ∀ mf ∈ r.fromGpgpusim i, 0 < (r.mfs mf).dataSize / S'.org.channelUnit

/-! ## Callbacks -/

theorem Accounts.complete (hr : Accounts S' all (req :: inHand) r) (haccess : req.isAccess = true)
    (h : r.complete S' req = .ok r') : Accounts S' all inHand r' := by
  unfold Ramulator.complete at h
  split at h
  · cases h
  case h_2 mf hmf =>
    dsimp only at h
    have hleft : Outstanding r.runningMfReqs
        (mf ::ₘ (r.unserved S' + fetches (idents inHand))) := by
      have hout := hr.outstanding
      rw [idents_cons, fetches_add, fetches_singleton haccess hmf] at hout
      rwa [← Multiset.singleton_add, add_left_comm]
    split_ifs at h with hch hfull hlast
    · obtain rfl := Except.ok.inj h
      obtain ⟨hout, hmem⟩ := hleft.last hlast
      refine ⟨?_, hr.nodup, hout, hr.reads, hr.sizes⟩
      rw [← hr.inside_eq, inside, inside, ← cons_keys_erase hmem, ← Multiset.singleton_add]
      dsimp only
      rw [queued_push (by omega)]
      abel
    · obtain rfl := Except.ok.inj h
      obtain ⟨hout, hmem⟩ := hleft.next hlast
      refine ⟨?_, hr.nodup, hout, hr.reads, hr.sizes⟩
      rw [← hr.inside_eq, inside, inside, keys_insert_of_mem hmem]

theorem Accounts.completeAll (hr : Accounts S' all inHand r)
    (haccess : ∀ req ∈ inHand, req.isAccess = true)
    (h : inHand.foldlM (Ramulator.complete S') r = .ok r') : Accounts S' all [] r' := by
  induction inHand generalizing r with
  | nil =>
    obtain rfl := Except.ok.inj h
    exact hr
  | cons req inHand ih =>
    obtain ⟨hreq, haccess⟩ := List.forall_mem_cons.mp haccess
    rw [List.foldlM_cons] at h
    obtain ⟨r₁, h₁, h⟩ := bind_eq_ok.mp h
    exact ih (hr.complete hreq h₁) haccess h

/-- The requests that a controller took or called back make the difference. -/
theorem sent_setCtrl {i : Nat} (hi : i < S'.channels) (c : Controller C S n) :
    Ramulator.sent S' { r with ctrls := Function.update r.ctrls i c } +
      fetches (r.ctrls i).held = r.sent S' + fetches c.held :=
  total_comp_update hi (fun c : Controller C S n => fetches c.held) r.ctrls c

theorem waiting_setUnaccepted {i : Nat} (hi : i < S'.channels) (l : List Request) :
    Ramulator.waiting S' { r with unaccepted := Function.update r.unaccepted i l } +
      fetches (idents (r.unaccepted i)) = r.waiting S' + fetches (idents l) :=
  total_comp_update hi (fun l => fetches (idents l)) r.unaccepted l

/-! ## Replies and new requests -/

theorem Accounts.reply (hr : Accounts S' all [] r) {i : Nat} (hi : i < S'.channels)
    (h : r.reply i = .ok r') : Accounts S' all [] r' := by
  unfold Ramulator.reply at h
  split_ifs at h with hfull
  · obtain rfl := Except.ok.inj h
    exact hr
  · split at h
    · obtain rfl := Except.ok.inj h
      exact hr
    case h_2 mf rest hrwq =>
      obtain ⟨type, -, h⟩ := bind_eq_ok.mp h
      obtain rfl := Except.ok.inj h
      refine ⟨?_, hr.nodup, hr.outstanding, hr.reads, fun j hj m hm => ?_⟩
      · rw [← hr.inside_eq, inside, inside, ← queued_pop hi hrwq]
        dsimp only
        rw [queued_push hi]
        abel
      · show 0 < (Function.update r.mfs mf { r.mfs mf with type } m).dataSize / _
        have hsize := hr.sizes j hj m hm
        rw [Function.update_apply]
        split
        case isTrue heq => exact heq ▸ hsize
        case isFalse => exact hsize

/-- A request that is sent is given to one of the controllers. -/
theorem send_eq_ok {i : Nat} (h : r.send S' i req = .ok (some r')) : ∃ ch < S'.channels,
    ∃ mf addrVec c, req.mf = some mf ∧
      addressVector S'.org S'.name req.addr (r.mfs mf).channel = .ok addrVec ∧
      (addrVec.idx 0).toNat = ch ∧ (r.ctrls ch).enqueue { req with addrVec } = some c ∧
      r' = { r with ctrls := Function.update r.ctrls ch c } := by
  unfold Ramulator.send at h
  split at h
  case isFalse => cases h
  case isTrue =>
    split at h
    case h_1 => cases h
    case h_2 mf hmf =>
      obtain ⟨addrVec, hvec, h⟩ := bind_eq_ok.mp h
      dsimp only at h
      split at h
      case isTrue => cases h
      case isFalse hch =>
        split at h
        case h_1 c hc =>
          obtain rfl := Option.some.inj (Except.ok.inj h)
          exact ⟨_, by omega, mf, addrVec, c, hmf, hvec, rfl, hc, rfl⟩
        case h_2 => cases h

/-- Requests go from the front of the queue to the controllers. -/
theorem sendAll_spec {i : Nat} {l left : List Request} (h : sendAll S' i l r = .ok (left, r')) :
    (∃ ctrls, r' = { r with ctrls }) ∧
      r'.sent S' + fetches (idents left) = r.sent S' + fetches (idents l) ∧
      ((∀ j, (r.ctrls j).ReadsPending) → ∀ j, (r'.ctrls j).ReadsPending) ∧ left <:+ l := by
  induction l generalizing r with
  | nil =>
    obtain ⟨rfl, rfl⟩ := Prod.mk.inj (Except.ok.inj h)
    exact ⟨⟨_, rfl⟩, rfl, id, List.suffix_refl _⟩
  | cons req l ih =>
    obtain ⟨sent?, hsend, h⟩ := bind_eq_ok.mp h
    cases sent? with
    | none =>
      obtain ⟨rfl, rfl⟩ := Prod.mk.inj (Except.ok.inj h)
      exact ⟨⟨_, rfl⟩, rfl, id, List.suffix_refl _⟩
    | some r₁ =>
      obtain ⟨ch, hch, mf, addrVec, c, -, -, -, hc, rfl⟩ := send_eq_ok hsend
      obtain ⟨⟨ctrls, rfl⟩, heq, hreads, hsuffix⟩ := ih h
      refine ⟨⟨ctrls, rfl⟩, ?_, fun hr => hreads fun j => ?_, hsuffix.trans (List.suffix_cons ..)⟩
      · have hset := sent_setCtrl (r := r) hch c
        have hsame : fetches (idents [{ req with addrVec }]) = fetches (idents [req]) :=
          fetches_congr rfl rfl
        rw [Controller.held_enqueue hc, fetches_add, hsame, add_comm (fetches _), ← add_assoc]
          at hset
        rw [heq, idents_cons req l, fetches_add, ← add_assoc]
        exact congrArg (· + _) (add_right_cancel hset)
      · show (Function.update r.ctrls ch c j).ReadsPending
        rw [Function.update_apply]
        split
        · exact (hr ch).enqueue hc
        · exact hr j

theorem Accounts.sendUnaccepted (hr : Accounts S' all [] r) {i : Nat} (hi : i < S'.channels)
    (h : r.sendUnaccepted S' i = .ok r') : Accounts S' all [] r' := by
  obtain ⟨⟨left, r₁⟩, hsend, h⟩ := bind_eq_ok.mp h
  obtain rfl := Except.ok.inj h
  obtain ⟨⟨ctrls, rfl⟩, hsent, hreads, -⟩ := sendAll_spec hsend
  refine ⟨hr.inside_eq, hr.nodup, ?_, hreads hr.reads, hr.sizes⟩
  have hwaiting := waiting_setUnaccepted (r := r) hi left
  have hsame : Ramulator.unserved S' { r with
      ctrls, unaccepted := Function.update r.unaccepted i left } = r.unserved S' := by
    apply add_right_cancel (b := fetches (idents (r.unaccepted i)) + fetches (idents left))
    calc _ = (Ramulator.waiting S' { r with unaccepted := Function.update r.unaccepted i left } +
            fetches (idents (r.unaccepted i))) +
          (Ramulator.sent S' { r with ctrls } + fetches (idents left)) := by
          rw [add_add_add_comm]
          rfl
      _ = (r.waiting S' + fetches (idents left)) +
          (r.sent S' + fetches (idents (r.unaccepted i))) := by
          rw [hsent, hwaiting]
      _ = _ := by
          rw [unserved]
          abel
  have hout := hr.outstanding
  rwa [← hsame] at hout

theorem sendUnaccepted_eq {i : Nat} (h : r.sendUnaccepted S' i = .ok r') :
    ∃ ctrls left, r' = { r with ctrls, unaccepted := Function.update r.unaccepted i left } := by
  obtain ⟨⟨left, r₁⟩, hsend, h⟩ := bind_eq_ok.mp h
  obtain rfl := Except.ok.inj h
  obtain ⟨⟨ctrls, rfl⟩, -⟩ := sendAll_spec hsend
  exact ⟨ctrls, left, rfl⟩

theorem parts_eq_ok {f : Fetch} {reqs : List Request} (h : parts S' mf f = .ok reqs) :
    reqs.length = f.dataSize / S'.org.channelUnit ∧
      ∀ req ∈ reqs, (req.isAccess = true ∧ req.isFirstCommand = true) ∧ req.mf = some mf := by
  unfold parts at h
  dsimp only at h
  split at h
  case h_3 | h_4 => cases h
  all_goals
    obtain rfl := Except.ok.inj h
    refine ⟨by rw [List.length_map, List.length_range], fun req hreq => ?_⟩
    obtain ⟨part, -, rfl⟩ := List.mem_map.mp hreq
    exact ⟨⟨rfl, rfl⟩, rfl⟩

/-- A memory fetch is split into its requests. -/
theorem Accounts.accept (hr : Accounts S' all [] r) {i : Nat} (hi : i < S'.channels)
    {rest : List Nat} {reqs : List Request} (hfrom : r.fromGpgpusim i = mf :: rest)
    (hempty : r.unaccepted i = []) (hreqs : parts S' mf (r.mfs mf) = .ok reqs) :
    Accounts S' all [] { r with
      runningMfReqs := r.runningMfReqs.insert mf reqs.length
      unaccepted := Function.update r.unaccepted i reqs
      fromGpgpusim := Function.update r.fromGpgpusim i rest } := by
  obtain ⟨hlen, hall⟩ := parts_eq_ok hreqs
  have hmem : mf ∈ r.fromGpgpusim i := by
    rw [hfrom]
    exact List.mem_cons_self ..
  have hnot : mf ∉ r.runningMfReqs := by
    have hnodup := hr.nodup
    rw [← hr.inside_eq, inside] at hnodup
    have hdisjoint := Multiset.disjoint_of_nodup_add
      (Multiset.nodup_add.mp (Multiset.nodup_add.mp hnodup).1).1
    intro hkey
    exact Multiset.disjoint_left.mp hdisjoint (mem_queued.mpr ⟨i, hi, hmem⟩)
      (Multiset.mem_coe.mpr (AList.mem_keys.mp hkey))
  refine ⟨?_, hr.nodup, ?_, hr.reads, fun j hj m hm => ?_⟩
  · rw [← hr.inside_eq, inside, inside, ← queued_pop hi hfrom]
    dsimp only
    rw [keys_insert_of_notMem hnot, ← Multiset.singleton_add]
    abel
  · have hstart := hr.outstanding.start hnot (hlen ▸ hr.sizes i hi mf hmem)
    have hwaiting := waiting_setUnaccepted (r := r) hi reqs
    rw [hempty, idents_nil, fetches_zero, add_zero,
      fetches_replicate fun req hreq => (hall req hreq).imp_left And.left] at hwaiting
    rw [idents_nil, fetches_zero, add_zero] at hstart ⊢
    rw [unserved, add_right_comm, ← hwaiting] at hstart
    exact hstart
  · refine hr.sizes j hj m ?_
    dsimp only at hm
    by_cases hij : j = i
    · subst hij
      rw [Function.update_self] at hm
      rw [hfrom]
      exact List.mem_cons_of_mem _ hm
    · rwa [Function.update_of_ne hij] at hm

theorem Accounts.drain {l : List Nat} {i : Nat} (hr : Accounts S' all [] r)
    (hi : i < S'.channels) (hfrom : r.fromGpgpusim i = l) (h : drain S' i l r = .ok r') :
    Accounts S' all [] r' := by
  induction l generalizing r with
  | nil => exact hr.sendUnaccepted hi h
  | cons mf rest ih =>
    obtain ⟨r₁, h₁, h⟩ := bind_eq_ok.mp h
    have hr₁ := hr.sendUnaccepted hi h₁
    obtain ⟨ctrls, left, heq⟩ := sendUnaccepted_eq h₁
    have hfrom₁ : r₁.fromGpgpusim i = mf :: rest := by rw [heq, hfrom]
    split at h
    case isTrue =>
      obtain rfl := Except.ok.inj h
      exact hr₁
    case isFalse hempty =>
      obtain ⟨reqs, hreqs, h⟩ := bind_eq_ok.mp h
      refine ih (hr₁.accept hi hfrom₁ (not_not.mp hempty) hreqs) ?_ h
      exact Function.update_self ..

/-! ## A cycle -/

variable [DecidableEq C]

theorem Accounts.tickChannel (hr : Accounts S' all [] r) {i : Nat} (hi : i < S'.channels)
    (h : r.tickChannel S' i = .ok r') : Accounts S' all [] r' := by
  obtain ⟨⟨c, done⟩, hc, h⟩ := bind_eq_ok.mp h
  obtain ⟨hreads, haccess⟩ := (hr.reads i).tick hc
  have htick : Accounts S' all done { r with ctrls := Function.update r.ctrls i c } := by
    refine ⟨hr.inside_eq, hr.nodup, ?_, fun j => ?_, hr.sizes⟩
    · have hset := sent_setCtrl (r := r) hi c
      rw [← Controller.held_tick hc, fetches_add, add_comm (fetches c.held), ← add_assoc] at hset
      have hout := hr.outstanding
      rwa [idents_nil, fetches_zero, add_zero, unserved, ← add_right_cancel hset, ← add_assoc]
        at hout
    · show (Function.update r.ctrls i c j).ReadsPending
      rw [Function.update_apply]
      split
      · exact hreads
      · exact hr.reads j
  exact htick.completeAll haccess h

theorem Accounts.tickMemory (hr : Accounts S' all [] r) (h : r.tickMemory S' = .ok r') :
    Accounts S' all [] r' :=
  foldlM_range (fun _ hi _ _ hstep hacc => hacc.tickChannel hi hstep) h hr

theorem Accounts.cycle (hr : Accounts S' all [] r) (h : r.cycle S' = .ok r') :
    Accounts S' all [] r' := by
  obtain ⟨r₁, h₁, h⟩ := bind_eq_ok.mp h
  refine foldlM_range (fun i hi r₂ r₃ hstep hr₂ => ?_) h (hr.tickMemory h₁)
  obtain ⟨r₄, h₄, hstep⟩ := bind_eq_ok.mp hstep
  exact (hr₂.reply hi h₄).drain hi rfl hstep

/-! ## Runs -/

/-- Memory fetches are pushed, cycles go by and replies are taken. A fetch that is pushed is an
object that is not in the memory, asks for something, and is at least as large as one request. -/
inductive Runs (S' : MemorySpec C S) (n : Nat) : List Nat → List Nat → Ramulator C S n → Prop
  | start (mfs : Nat → Fetch) : Runs S' n [] [] (create S' n mfs)
  | push {pushed popped : List Nat} {r r' : Ramulator C S n} (run : Runs S' n pushed popped r)
      (mf : Nat) (f : Fetch) (ch : Nat) (channel : ch < S'.channels) (fresh : mf ∉ r.inside S')
      (request : f.type = .readRequest ∨ f.type = .writeRequest) (target : f.channel < S'.channels)
      (size : 0 < f.dataSize / S'.org.channelUnit) (hr : r.push mf f ch = .ok r') :
      Runs S' n (pushed ++ [mf]) popped r'
  | cycle {pushed popped : List Nat} {r r' : Ramulator C S n} (run : Runs S' n pushed popped r)
      (hr : r.cycle S' = .ok r') : Runs S' n pushed popped r'
  | pop {pushed popped : List Nat} {r : Ramulator C S n} {mf : Nat}
      (run : Runs S' n pushed popped r) (ch : Nat) (channel : ch < S'.channels)
      (hr : (r.pop ch).1 = some mf) :
      Runs S' n pushed (popped ++ [mf]) (r.pop ch).2

variable {pushed popped : List Nat}

omit [DecidableEq C] in
theorem Accounts.create (S' : MemorySpec C S) (n : Nat) (mfs : Nat → Fetch) :
    Accounts S' 0 [] (create S' n mfs) := by
  refine ⟨?_, Multiset.nodup_zero, ?_, fun i r hr => absurd hr List.not_mem_nil,
    fun i hi mf hmf => absurd hmf List.not_mem_nil⟩
  · have hqueued : queued S'.channels (fun _ => ([] : List Nat)) = 0 := total_zero
    rw [inside, Ramulator.create, hqueued]
    rfl
  · have hwaiting : (Ramulator.create S' n mfs).waiting S' = 0 := total_zero
    have hsent : (Ramulator.create S' n mfs).sent S' = 0 := total_zero
    rw [unserved, hwaiting, hsent]
    exact Outstanding.empty

omit [DecidableEq C] in
theorem Accounts.push (hr : Accounts S' all [] r) {f : Fetch} {ch : Nat} (hch : ch < S'.channels)
    (hfresh : mf ∉ all) (hsize : 0 < f.dataSize / S'.org.channelUnit)
    (h : r.push mf f ch = .ok r') : Accounts S' (mf ::ₘ all) [] r' := by
  unfold Ramulator.push at h
  split_ifs at h
  obtain rfl := Except.ok.inj h
  refine ⟨?_, Multiset.nodup_cons.mpr ⟨hfresh, hr.nodup⟩, hr.outstanding, hr.reads,
    fun j hj m hm => ?_⟩
  · rw [← hr.inside_eq, inside, inside, ← Multiset.singleton_add]
    dsimp only
    rw [queued_push hch]
    abel
  · dsimp only at hm ⊢
    by_cases hmf : m = mf
    · rw [hmf, Function.update_self]
      exact hsize
    · rw [Function.update_of_ne hmf]
      refine hr.sizes j hj m ?_
      by_cases hj' : j = ch
      · subst hj'
        rw [Function.update_self] at hm
        exact (List.mem_append.mp hm).resolve_right fun hlast => hmf (List.mem_singleton.mp hlast)
      · rwa [Function.update_of_ne hj'] at hm

omit [DecidableEq C] in
theorem Accounts.pop (hr : Accounts S' all [] r) {ch : Nat} (hch : ch < S'.channels)
    (h : (r.pop ch).1 = some mf) :
    ∃ all', mf ::ₘ all' = all ∧ Accounts S' all' [] (r.pop ch).2 := by
  obtain ⟨rest, hrest⟩ := List.head?_eq_some_iff.mp h
  have hinside : mf ::ₘ (r.pop ch).2.inside S' = all := by
    rw [← hr.inside_eq, inside, inside, ← queued_pop hch hrest, ← Multiset.singleton_add]
    simp only [Ramulator.pop, hrest, List.tail_cons]
    abel
  exact ⟨_, hinside, rfl, (Multiset.nodup_cons.mp (hinside ▸ hr.nodup)).2, hr.outstanding, hr.reads,
    hr.sizes⟩

theorem Runs.accounts (hrun : Runs S' n pushed popped r) :
    ∃ all, Accounts S' all [] r ∧ (pushed : Multiset Nat) = all + popped := by
  induction hrun with
  | start mfs => exact ⟨0, .create S' n mfs, rfl⟩
  | @push pushed popped r r' run mf f ch hch hfresh _ _ hsize hr ih =>
    obtain ⟨all, hacc, htotal⟩ := ih
    refine ⟨_, hacc.push hch (hacc.inside_eq ▸ hfresh) hsize hr, ?_⟩
    rw [← Multiset.coe_add, htotal, ← Multiset.singleton_add]
    exact add_comm _ _ |>.trans (add_assoc _ _ _).symm
  | cycle run hr ih =>
    obtain ⟨all, hacc, htotal⟩ := ih
    exact ⟨all, hacc.cycle hr, htotal⟩
  | @pop pushed popped r mf run ch hch hr ih =>
    obtain ⟨all, hacc, htotal⟩ := ih
    obtain ⟨all', rfl, hacc'⟩ := hacc.pop hch hr
    refine ⟨all', hacc', ?_⟩
    rw [htotal, ← Multiset.coe_add, ← Multiset.singleton_add, add_comm {mf} all', add_assoc,
      add_comm (popped : Multiset Nat)]
    rfl

/-- Each memory fetch that was pushed is in one place or its reply was taken, once. It is running as
long as it has requests that are to be served, which are in the wrapper or in a controller, and the
wrapper has counted them. -/
theorem replied_once (hrun : Runs S' n pushed popped r) :
    (pushed : Multiset Nat) = r.inside S' + popped ∧ (r.inside S').Nodup ∧
      ∀ mf, r.runningMfReqs.lookup mf =
        if mf ∈ r.unserved S' then some ((r.unserved S').count mf : Int) else none := by
  obtain ⟨all, hacc, htotal⟩ := hrun.accounts
  have hout := hacc.outstanding
  rw [idents_nil, fetches_zero, add_zero] at hout
  rw [hacc.inside_eq]
  exact ⟨htotal, hacc.nodup, hout⟩

/-- A memory fetch of one request, for the examples. -/
def unitFetch (type : MfType) : Fetch where
  addr := 0x1000
  dataSize := 32
  channel := 0
  type

/-- A memory fetch of two requests -/
def wideFetch (type : MfType) : Fetch := { unitFetch type with dataSize := 64 }

theorem replied_once_forward : ∃ r,
    Runs (lpddr5Memory Lpddr5.lpddr5_6400 0 0 .m2ndp) 3 [1, 2] [2] r ∧
    (([1, 2] : List Nat) : Multiset Nat) =
      r.inside (lpddr5Memory Lpddr5.lpddr5_6400 0 0 .m2ndp) + ([2] : List Nat) ∧
    r.runningMfReqs.lookup 1 = some 2 ∧ r.runningMfReqs.lookup 2 = none := by
  have hstart : Runs (lpddr5Memory Lpddr5.lpddr5_6400 0 0 .m2ndp) 3 [] [] _ :=
    .start fun _ => unitFetch .writeRequest
  have hwrite := hstart.push 1 (wideFetch .writeRequest) 0 (by decide) (by decide) (.inr rfl)
    (by decide) (by decide) rfl
  have hread := hwrite.push 2 (wideFetch .readRequest) 0 (by decide) (by decide) (.inl rfl)
    (by decide) (by decide) rfl
  -- The two parts of the read are answered by the write queue, one in a cycle.
  have haccepted := hread.cycle rfl
  have hpart := haccepted.cycle rfl
  have hserved := hpart.cycle rfl
  have htaken := hserved.pop 0 (by decide) rfl
  exact ⟨_, htaken, (replied_once htaken).1, rfl, rfl⟩

end Ramulator

end NdpSim
