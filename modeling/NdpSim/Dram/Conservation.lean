import Mathlib.Algebra.BigOperators.Group.List.Basic
import Mathlib.Data.Multiset.AddSub
import NdpSim.Dram.Controller
import NdpSim.Library.Loops

/-!
# No request is lost

A read or a write that a controller took is in exactly one of its queues until it is called back,
which happens once.
-/
namespace NdpSim

open Library

namespace Request

/-- What stays as it is while the request is served. -/
def ident (r : Request) : DramRequestType × Option Nat × AddrVec := (r.type, r.mf, r.addrVec)

end Request

abbrev Idents := Multiset (DramRequestType × Option Nat × AddrVec)

def idents (l : List Request) : Idents := ((l.filter Request.isAccess).map Request.ident : List _)

theorem idents_nil : idents [] = 0 := rfl

theorem idents_append (l l' : List Request) : idents (l ++ l') = idents l + idents l' := by
  rw [idents, List.filter_append, List.map_append, ← Multiset.coe_add]
  rfl

theorem idents_cons (r : Request) (l : List Request) : idents (r :: l) = idents [r] + idents l :=
  idents_append [r] l

theorem idents_eq_sum (l : List Request) : idents l = (l.map fun r => idents [r]).sum := by
  induction l with
  | nil => rfl
  | cons r l ih => rw [idents_cons, ih, List.map_cons, List.sum_cons]

theorem idents_singleton_congr {r r' : Request} (h : r'.ident = r.ident) :
    idents [r'] = idents [r] := by
  have htype : r'.type = r.type := congrArg Prod.fst h
  have hacc := Request.isAccess_congr htype
  cases ha : r.isAccess <;> simp [idents, hacc, ha, h]

theorem idents_singleton_of_not_access {r : Request} (h : r.isAccess = false) : idents [r] = 0 := by
  simp [idents, h]

/-! ## Weights -/

namespace Controller

variable {C S : Type} {n : Nat} {c c' : Controller C S n} {queue : QueueId} {req : Request}

section Weight

variable {M : Type} [AddCommMonoid M]

/-- What the requests weigh together, by `w` in the queues and by `v` where they are pending. -/
def weight (w v : Request → M) (c : Controller C S n) : M :=
  ((c.queues .readq).map w).sum + ((c.queues .writeq).map w).sum + ((c.queues .actq).map w).sum +
    ((c.queues .otherq).map w).sum + (c.pending.map v).sum

variable {w v : Request → M}

theorem sum_map_eraseIdx {l : List Request} {i : Nat} (h : l[i]? = some req) :
    ((l.eraseIdx i).map w).sum + w req = (l.map w).sum := by
  obtain ⟨hlt, rfl⟩ := List.getElem?_eq_some_iff.mp h
  have hsum := List.add_sum_eraseIdx (l := l.map w) (i := i) (by simpa using hlt)
    fun _ _ => AddCommute.all ..
  rwa [List.getElem_map, List.eraseIdx_map, add_comm] at hsum

theorem sum_map_set {l : List Request} {i : Nat} (h : l[i]? = some req) (r : Request) :
    ((l.set i r).map w).sum + w req = (l.map w).sum + w r := by
  induction l generalizing i with
  | nil => cases h
  | cons a l ih =>
    cases i with
    | zero =>
      obtain rfl := Option.some.inj h
      rw [List.set_cons_zero, List.map_cons, List.map_cons, List.sum_cons, List.sum_cons]
      abel
    | succ i =>
      rw [List.set_cons_succ, List.map_cons, List.map_cons, List.sum_cons, List.sum_cons,
        add_assoc, ih h, add_assoc]

theorem weight_setQueue (c : Controller C S n) (queue : QueueId) (q : List Request) :
    (c.setQueue queue q).weight w v + ((c.queues queue).map w).sum =
      c.weight w v + (q.map w).sum := by
  cases queue <;> simp [weight, setQueue, Function.update] <;> abel

variable [IsCancelAdd M]

theorem weight_eraseIdx {i : Nat} (h : (c.queues queue)[i]? = some req) :
    (c.setQueue queue ((c.queues queue).eraseIdx i)).weight w v + w req = c.weight w v := by
  have hset := weight_setQueue (w := w) (v := v) c queue ((c.queues queue).eraseIdx i)
  rw [← sum_map_eraseIdx h, add_comm _ (w req), ← add_assoc] at hset
  exact add_right_cancel hset

theorem weight_set {i : Nat} (h : (c.queues queue)[i]? = some req) (r : Request) :
    (c.setQueue queue ((c.queues queue).set i r)).weight w v + w req = c.weight w v + w r := by
  have hset := weight_setQueue (w := w) (v := v) c queue ((c.queues queue).set i r)
  apply add_right_cancel (b := ((c.queues queue).map w).sum)
  rw [add_right_comm, hset, add_assoc, sum_map_set h, add_right_comm, add_assoc]

theorem weight_push (c : Controller C S n) (queue : QueueId) (r : Request) :
    (c.setQueue queue (c.queues queue ++ [r])).weight w v = c.weight w v + w r := by
  have hset := weight_setQueue (w := w) (v := v) c queue (c.queues queue ++ [r])
  rw [List.map_append, List.sum_append, List.map_singleton, List.sum_singleton,
    add_comm (List.sum _) (w r), ← add_assoc] at hset
  exact add_right_cancel hset

omit [IsCancelAdd M] in
theorem weight_push_pending (c : Controller C S n) (r : Request) :
    { c with pending := c.pending ++ [r] }.weight w v = c.weight w v + v r := by
  simp [weight, add_assoc]

omit [IsCancelAdd M] in
theorem weight_pop_pending {rest : List Request} (h : c.pending = req :: rest) :
    { c with pending := rest }.weight w v + v req = c.weight w v := by
  simp only [weight, h, List.map_cons, List.sum_cons]
  abel

/-- A request that was moved is still at its place in the queue that it came from. -/
theorem getElem?_push {i : Nat} (h : (c.queues queue)[i]? = some req) (queue' : QueueId)
    (r : Request) :
    ((c.setQueue queue' (c.queues queue' ++ [r])).queues queue)[i]? = some req := by
  by_cases hq : queue = queue'
  · subst hq
    have hlt := (List.getElem?_eq_some_iff.mp h).1
    rw [queues_setQueue, if_pos rfl, List.getElem?_append_left hlt, h]
  · rw [queues_setQueue, if_neg hq, h]

theorem weight_move {i : Nat} (h : (c.queues queue)[i]? = some req) (queue' : QueueId)
    (r : Request) :
    let c' := c.setQueue queue' (c.queues queue' ++ [r])
    (c'.setQueue queue ((c'.queues queue).eraseIdx i)).weight w v + w req =
      c.weight w v + w r := by
  dsimp only
  rw [weight_eraseIdx (getElem?_push h queue' r), weight_push]

theorem weight_move_pending {i : Nat} (h : (c.queues queue)[i]? = some req) (r : Request) :
    let c' := { c with pending := c.pending ++ [r] }
    (c'.setQueue queue ((c'.queues queue).eraseIdx i)).weight w v + w req =
      c.weight w v + v r := by
  dsimp only
  rw [weight_eraseIdx (c := { c with pending := c.pending ++ [r] }) h, weight_push_pending]

variable {S' : DramSpec C S}

/-- Requests that weigh nothing may come in. -/
theorem weight_enqueue (h : c.enqueue req = some c')
    (hpending : c.forwards req = true →
      v { req with arrive := c.clk, depart := c.clk + 1 } = w { req with arrive := c.clk }) :
    c'.weight w v = c.weight w v + w { req with arrive := c.clk } := by
  obtain ⟨-, ⟨hforwards, rfl⟩ | ⟨-, rfl⟩⟩ := enqueue_eq_some.mp h
  · rw [weight_push_pending, hpending hforwards]
  · exact weight_push c _ _

theorem weight_tickRef (hrefresh : ∀ r : Request, r.type = .refresh → w r = 0)
    (h : c.tickRef S' = .ok c') : c'.weight w v = c.weight w v := by
  have hstep : ∀ (c₁ : Controller C S n) (rank : Dram C S (n - 1)) (c₂ : Controller C S n),
      c₁.refreshTarget S' rank.self.id = .ok c₂ →
      c₁.weight w v = c.weight w v → c₂.weight w v = c.weight w v := by
    intro c₁ rank c₂ h₁ heq
    unfold refreshTarget at h₁
    split at h₁
    case h_1 c₃ hc₃ =>
      obtain rfl := Except.ok.inj h₁
      rw [weight_enqueue hc₃ (fun hforwards => by simp [forwards, refreshRequest] at hforwards),
        hrefresh _ rfl, add_zero, heq]
    case h_2 => cases h₁
  unfold tickRef at h
  dsimp only at h
  split at h
  · obtain ⟨c₁, hc, h⟩ := bind_eq_ok.mp h
    obtain rfl := Except.ok.inj h
    exact foldlM_invariant (P := fun c₁ => c₁.weight w v = c.weight w v) hstep hc rfl
  · obtain rfl := Except.ok.inj h
    rfl

omit [IsCancelAdd M] in
theorem weight_switchMode (c : Controller C S n) : c.switchMode.weight w v = c.weight w v := by
  unfold switchMode
  dsimp only
  split_ifs <;> rfl

end Weight

/-- The reads and writes in all queues. -/
def held (c : Controller C S n) : Idents :=
  idents (c.queues .readq) + idents (c.queues .writeq) + idents (c.queues .actq) +
    idents (c.queues .otherq) + idents c.pending

theorem held_eq_weight (c : Controller C S n) :
    c.held = c.weight (fun r => idents [r]) fun r => idents [r] := by
  rw [held, weight, ← idents_eq_sum, ← idents_eq_sum, ← idents_eq_sum, ← idents_eq_sum,
    ← idents_eq_sum]

/-! ## One step -/

theorem held_enqueue (h : c.enqueue req = some c') : c'.held = c.held + idents [req] := by
  have hsame : ∀ r : Request, r.ident = req.ident → idents [r] = idents [req] :=
    fun r hr => idents_singleton_congr hr
  rw [held_eq_weight, held_eq_weight, weight_enqueue h fun _ =>
    (hsame { req with arrive := c.clk, depart := c.clk + 1 } rfl).trans
      (hsame { req with arrive := c.clk } rfl).symm]
  exact congrArg _ (hsame { req with arrive := c.clk } rfl)

theorem held_serveCompleted {full : Bool} {done : List Request}
    (h : c.serveCompleted full = .ok (c', done)) : c'.held + idents done = c.held := by
  obtain ⟨rfl, rfl⟩ | ⟨req, rest, serving, hpending, -, rfl, rfl⟩ := serveCompleted_cases h
  · exact add_zero _
  · rw [held_eq_weight, held_eq_weight]
    exact weight_pop_pending hpending

variable {S' : DramSpec C S}

theorem held_prepare {full : Bool} {reads : List Request}
    (h : c.prepare S' full = .ok (c', reads)) : c'.held + idents reads = c.held := by
  obtain ⟨c₁, c₂, hc₁, hc₂, rfl⟩ := (prepare_eq_ok S').mp h
  have hserve := held_serveCompleted hc₁
  have href : c₂.switchMode.held = c₁.held := by
    rw [held_eq_weight, weight_switchMode, weight_tickRef
      (fun r hr => idents_singleton_of_not_access (by simp [Request.isAccess, hr])) hc₂,
      ← held_eq_weight]
  rw [href]
  exact hserve

variable [DecidableEq C]

/-- A command moves its request from one queue to another, or out of the controller. -/
theorem held_advance (S' : DramSpec C S) {i : Nat} (cmd : C)
    (hreq : (c.queues queue)[i]? = some req) :
    (c.advance S' queue i req cmd).1.held + idents (c.advance S' queue i req cmd).2 = c.held := by
  have hkept : ∀ r : Request, r.ident = req.ident →
      ∀ c' : Controller C S n, c'.held + idents [req] = c.held + idents [r] →
        c'.held + idents [] = c.held := by
    intro r hr c' hc'
    rw [idents_singleton_congr hr] at hc'
    exact (add_zero _).trans (add_right_cancel hc')
  simp only [held_eq_weight] at hkept ⊢
  unfold advance
  dsimp only
  split_ifs
  · exact hkept { req with isFirstCommand := false } rfl _ (weight_move hreq .actq _)
  · exact hkept { req with isFirstCommand := false } rfl _ (weight_set hreq _)
  · split
    · exact hkept { req with isFirstCommand := false, depart := c.clk + S'.readLatency } rfl _
        (weight_move_pending hreq _)
    · split
      case h_1 addr _ =>
        exact hkept { req with addr, nextAddr := req.nextAddr.dropLast, isFirstCommand := true } rfl
          _ (weight_set hreq _)
      · have herase := weight_eraseIdx (w := fun r => idents [r]) (v := fun r => idents [r]) hreq
        have hsame : idents [{ req with isFirstCommand := false }] = idents [req] :=
          idents_singleton_congr rfl
        rwa [hsame]
    · have hnone : idents [req] = 0 := idents_singleton_of_not_access (by
        cases htype : req.type <;> simp_all [Request.isAccess])
      have herase := weight_eraseIdx (w := fun r => idents [r]) (v := fun r => idents [r]) hreq
      rwa [hnone] at herase

theorem held_issue {i : Nat} {cmd : C} {done : List Request}
    (hreq : (c.queues queue)[i]? = some req) (h : c.issue S' queue i req cmd = .ok (c', done)) :
    c'.held + idents done = c.held := by
  obtain ⟨issuer, serving, -, heq⟩ := issue_cases S' h
  have hadvance := held_advance (c := { c with issuer, serving }) S' cmd hreq
  rwa [← heq] at hadvance

theorem held_schedule {done : List Request} (h : c.schedule S' = .ok (c', done)) :
    c'.held + idents done = c.held := by
  obtain ⟨rfl, rfl⟩ | ⟨queue, i, req, cmd, hpick, hissue⟩ := schedule_cases S' h
  · exact add_zero _
  · exact held_issue (pick_eq_ok S' hpick).1 hissue

/-- What a cycle calls back is what it takes out of the queues. -/
theorem held_tick {full : Bool} {done : List Request} (h : c.tick S' full = .ok (c', done)) :
    c'.held + idents done = c.held := by
  obtain ⟨c₁, reads, writes, hc₁, hc₂, rfl⟩ := (tick_eq_ok S').mp h
  rw [idents_append, add_comm (idents reads), ← add_assoc, held_schedule hc₂, held_prepare hc₁]

end Controller

end NdpSim
