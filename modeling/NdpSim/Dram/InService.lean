import NdpSim.Dram.Conservation
import NdpSim.Dram.ControllerSafety

/-!
# The requests in service

A node counts at least the reads and writes below it that were begun and are not served yet, so that
its count is never too small for one of them to be done.
-/
namespace NdpSim

open Library

/-- The way to an address from the channel. -/
def AddrVec.place (n : Nat) (addr : AddrVec) : List Nat :=
  (List.range n).map fun level => (addr.idx (level + 1)).toNat

/-- One for an address below the node at the end of `p`, if it counts. -/
def countAt (n : Nat) (counts : Bool) (addr : AddrVec) (p : List Nat) : Nat :=
  if counts = true ∧ p <+: addr.place n then 1 else 0

theorem countAt_false {n : Nat} {addr : AddrVec} {p : List Nat} :
    countAt n false addr p = 0 :=
  if_neg fun h => Bool.false_ne_true h.1

theorem countAt_true {n : Nat} {addr : AddrVec} {p : List Nat} :
    countAt n true addr p = if p <+: addr.place n then 1 else 0 := by
  simp [countAt]

theorem countAt_mono {n : Nat} {counts counts' : Bool} (addr : AddrVec) (p : List Nat)
    (h : counts = true → counts' = true) : countAt n counts addr p ≤ countAt n counts' addr p := by
  cases counts with
  | false => exact countAt_false.trans_le (Nat.zero_le _)
  | true => rw [h rfl]

namespace Controller

variable {C S : Type} {n : Nat} {c c' : Controller C S n} {queue : QueueId} {req : Request}

/-- Requests of a queue that were begun -/
def begunAt (n : Nat) (p : List Nat) (r : Request) : Nat :=
  countAt n (!r.isFirstCommand && r.isAccess) r.addrVec p

/-- Reads that wait for their data -/
def readAt (n : Nat) (p : List Nat) (r : Request) : Nat :=
  countAt n (r.depart - r.arrive > 1) r.addrVec p

def inService (c : Controller C S n) (p : List Nat) : Nat := c.weight (begunAt n p) (readAt n p)

/-- The counts of the nodes suffice. -/
def Counted (c : Controller C S n) : Prop := Dram.Covers c.inService c.serving

theorem Counted.congr (hc : c.Counted) (hserving : c'.serving = c.serving)
    (hservice : ∀ p, c'.inService p = c.inService p) : c'.Counted := by
  rw [Counted, hserving]
  exact hc.mono fun p => (hservice p).le

theorem begunAt_fresh {r : Request} (h : r.isFirstCommand = true) (p : List Nat) :
    begunAt n p r = 0 := by
  rw [begunAt, h]
  exact countAt_false

theorem Counted.enqueue (hc : c.Counted) (hfresh : req.isFirstCommand = true)
    (h : c.enqueue req = some c') : c'.Counted := by
  refine hc.congr (frame_enqueue h).2 fun p => ?_
  have hforward : readAt n p { req with arrive := c.clk, depart := c.clk + 1 } = 0 := by
    simp [readAt, countAt]
  have hqueued : begunAt n p { req with arrive := c.clk } = 0 := begunAt_fresh hfresh p
  rw [inService, weight_enqueue h fun _ => hforward.trans hqueued.symm, hqueued]
  rfl

theorem Counted.tickRef {S' : DramSpec C S} (hc : c.Counted) (h : c.tickRef S' = .ok c') :
    c'.Counted :=
  hc.congr (frame_tickRef h).2 fun p =>
    weight_tickRef (fun r hr => by simp [begunAt, countAt, Request.isAccess, hr]) h

theorem Counted.switchMode (hc : c.Counted) : c.switchMode.Counted := by
  refine hc.congr ?_ fun p => weight_switchMode c
  unfold Controller.switchMode
  dsimp only
  split_ifs <;> rfl

/-! ## Requests are begun and done -/

variable {w : List Nat → Nat} {addr : AddrVec} {counts : Bool}

theorem updateServing_begin (hc : Dram.Covers w c.serving) (hclk : 0 ≤ c.clk)
    (hlead : counts = true → c.issuer.channel.Leads addr [] (addr.place n)) :
    ∃ serving, c.updateServing counts addr 1 = .ok { c with serving } ∧
      Dram.Covers (fun p => w p + countAt n counts addr p) serving := by
  unfold updateServing
  cases counts with
  | false => exact ⟨c.serving, rfl, hc.mono fun p => by rw [countAt_false, add_zero]⟩
  | true =>
    obtain ⟨serving, hserving, hcovers⟩ := (hlead rfl).begin hc hclk
    exact ⟨serving, bind_eq_ok.mpr ⟨serving, hserving, rfl⟩,
      hcovers.mono fun p => by rw [countAt_true]⟩

theorem updateServing_done (hc : Dram.Covers w c.serving)
    (hlead : counts = true → c.issuer.channel.Leads addr [] (addr.place n))
    (hw : ∀ p, countAt n counts addr p ≤ w p) :
    ∃ serving, c.updateServing counts addr (-1) = .ok { c with serving } ∧
      Dram.Covers (fun p => w p - countAt n counts addr p) serving := by
  unfold updateServing
  cases counts with
  | false => exact ⟨c.serving, rfl, hc.mono fun p => by rw [countAt_false, Nat.sub_zero]⟩
  | true =>
    have hpos : ∀ p, p <+: addr.place n → 0 < w p := by
      intro p hp
      have hle := hw p
      rwa [countAt_true, if_pos hp] at hle
    obtain ⟨serving, hserving, hcovers⟩ := (hlead rfl).done hc hpos c.clk
    exact ⟨serving, bind_eq_ok.mpr ⟨serving, hserving, rfl⟩,
      hcovers.mono fun p => by rw [countAt_true]⟩

theorem Counted.serveCompleted (hc : c.Counted) (full : Bool)
    (hlead : ∀ r ∈ c.pending, c.issuer.channel.Leads r.addrVec [] (r.addrVec.place n)) :
    ∃ c' done, c.serveCompleted full = .ok (c', done) ∧ c'.Counted := by
  unfold Controller.serveCompleted
  split
  case h_1 req rest hpending =>
    split
    case isTrue =>
      have hpop : ∀ p, { c with pending := rest }.inService p + readAt n p req = c.inService p :=
        fun p => weight_pop_pending hpending
      have hreq := hlead req (by rw [hpending]; exact List.mem_cons_self ..)
      obtain ⟨serving, hserving, hcovers⟩ := updateServing_done hc (fun _ => hreq)
        fun p => (Nat.le_add_left _ _).trans (hpop p).le
      refine ⟨_, _, bind_eq_ok.mpr ⟨_, hserving, rfl⟩, hcovers.mono fun p => ?_⟩
      rw [← hpop]
      exact (Nat.add_sub_cancel ..).ge
    case isFalse => exact ⟨c, [], rfl, hc⟩
  case h_2 => exact ⟨c, [], rfl, hc⟩

variable [DecidableEq C] {S' : DramSpec C S}

/-- A request that was begun stays in service until its last command, and a read until it has its
data. -/
theorem inService_advance {i : Nat} {cmd : C} (hreq : (c.queues queue)[i]? = some req)
    (p : List Nat) :
    (c.advance S' queue i req cmd).1.inService p + begunAt n p req +
        countAt n (cmd = S'.translate req.type && req.type = .write) req.addrVec p ≤
      c.inService p + countAt n req.isAccess req.addrVec p := by
  have hgone : (c.setQueue queue ((c.queues queue).eraseIdx i)).inService p + begunAt n p req =
      c.inService p := weight_eraseIdx hreq
  unfold advance
  dsimp only
  by_cases hlast : cmd = S'.translate req.type
  · rw [if_neg (not_not.mpr hlast), decide_eq_true hlast, Bool.true_and]
    split
    case h_1 htype =>
      let r : Request := { req with isFirstCommand := false, depart := c.clk + S'.readLatency }
      have hmove := weight_move_pending (w := begunAt n p) (v := readAt n p) hreq r
      have hread : readAt n p r ≤ countAt n req.isAccess req.addrVec p :=
        countAt_mono _ _ fun _ => by simp [Request.isAccess, htype]
      rw [decide_eq_false (by simp [htype]), countAt_false]
      exact hmove.le.trans (Nat.add_le_add_left hread _)
    case h_2 htype =>
      have haccess : req.isAccess = true := by simp [Request.isAccess, htype]
      rw [haccess, decide_eq_true htype]
      apply Nat.add_le_add_right
      split
      case h_1 addr _ =>
        let r : Request := { req with
          addr, nextAddr := req.nextAddr.dropLast, isFirstCommand := true }
        have hset := weight_set (w := begunAt n p) (v := readAt n p) hreq r
        have hfresh : begunAt n p r = 0 := begunAt_fresh rfl p
        rw [hfresh] at hset
        exact hset.le
      case h_2 => exact hgone.le
    case h_3 _ hwrite =>
      rw [decide_eq_false hwrite, countAt_false]
      exact hgone.le.trans (Nat.le_add_right ..)
  · let r : Request := { req with isFirstCommand := false }
    have hbegun : begunAt n p r = countAt n req.isAccess req.addrVec p := rfl
    rw [if_pos hlast, decide_eq_false hlast, Bool.false_and, countAt_false, add_zero, ← hbegun]
    split
    · have hmove := weight_move (w := begunAt n p) (v := readAt n p) hreq .actq r
      exact hmove.le
    · have hset := weight_set (w := begunAt n p) (v := readAt n p) hreq r
      exact hset.le

/-- The command of a request is issued, if the tree and the row table allow it. -/
theorem Counted.issue {i : Nat} {cmd : C} {issuer : Issuer C S n} (hc : c.Counted)
    (hclk : 0 ≤ c.clk) (hreq : (c.queues queue)[i]? = some req)
    (hissuer : c.issuer.issueCmd S'.toStandard cmd req.addrVec c.clk = .ok issuer)
    (hlead : req.isAccess = true → c.issuer.channel.Leads req.addrVec [] (req.addrVec.place n) ∧
      issuer.channel.Leads req.addrVec [] (req.addrVec.place n)) :
    ∃ c' done, c.issue S' queue i req cmd = .ok (c', done) ∧ c'.Counted := by
  have hfirst : (req.isFirstCommand && req.isAccess) = true →
      c.issuer.channel.Leads req.addrVec [] (req.addrVec.place n) := by
    intro hcounts
    exact (hlead (Bool.and_eq_true_iff.mp hcounts).2).1
  obtain ⟨serving, hserving, hcovers⟩ := updateServing_begin hc hclk hfirst
  -- With its first command the request is in service, whether it was before or not.
  have hbegun : ∀ p, countAt n (req.isFirstCommand && req.isAccess) req.addrVec p +
      begunAt n p req = countAt n req.isAccess req.addrVec p := by
    intro p
    cases hfirst : req.isFirstCommand with
    | false => rw [begunAt, hfirst, Bool.false_and, countAt_false, zero_add]; rfl
    | true => rw [begunAt_fresh hfirst, Bool.true_and, add_zero]
  have hle : ∀ serving p, ({ c with issuer, serving }.advance S' queue i req cmd).1.inService p +
      countAt n (cmd = S'.translate req.type && req.type = .write) req.addrVec p ≤
        c.inService p + countAt n (req.isFirstCommand && req.isAccess) req.addrVec p := by
    intro serving p
    have hadvance : ({ c with issuer, serving }.advance S' queue i req cmd).1.inService p +
        begunAt n p req + countAt n (cmd = S'.translate req.type && req.type = .write)
          req.addrVec p ≤ c.inService p + countAt n req.isAccess req.addrVec p :=
      inService_advance (c := { c with issuer, serving }) hreq p
    have hsum := hbegun p
    omega
  have hwrite : (decide (cmd = S'.translate req.type) && decide (req.type = .write)) = true →
      issuer.channel.Leads req.addrVec [] (req.addrVec.place n) := by
    intro hcounts
    have htype := of_decide_eq_true (Bool.and_eq_true_iff.mp hcounts).2
    exact (hlead (by simp [Request.isAccess, htype])).2
  obtain ⟨serving', hserving', hcovers'⟩ := updateServing_done (c := { c with issuer, serving })
    hcovers hwrite fun p => (Nat.le_add_left ..).trans (hle c.serving p)
  refine ⟨({ c with issuer, serving := serving' }.advance S' queue i req cmd).1,
    ({ c with issuer, serving := serving' }.advance S' queue i req cmd).2,
    bind_eq_ok.mpr ⟨_, hserving, bind_eq_ok.mpr ⟨issuer, hissuer,
      bind_eq_ok.mpr ⟨_, hserving', rfl⟩⟩⟩, ?_⟩
  rw [Counted, (frame_advance ..).2.2]
  exact hcovers'.mono fun p => Nat.le_sub_of_add_le (hle serving' p)

end Controller

/-- In a tree whose children are numbered, the numbers of an address lead to it. -/
theorem Dram.Numbered.leads {C S : Type} {n : Nat} {d : Dram C S n} {addr : AddrVec}
    {path rest : List Nat} (hd : d.Numbered) (hid : d.self.id = addr.idx path.length)
    (hlen : rest.length = n) (hsome : (d.find? rest).isSome)
    (hrest : ∀ level (hlevel : level < rest.length),
      addr.idx (path.length + 1 + level) = rest[level]) : d.Leads addr path rest := by
  induction n generalizing path rest with
  | zero => exact ⟨hid, List.eq_nil_of_length_eq_zero hlen⟩
  | succ n ih =>
    cases rest with
    | nil => cases hlen
    | cons i rest =>
      obtain ⟨node, hnode⟩ := Option.isSome_iff_exists.mp hsome
      obtain ⟨c, hc, hnode⟩ := Option.bind_eq_some_iff.mp ((find?_cons d i rest).symm.trans hnode)
      obtain ⟨hchild, hnumbered⟩ := hd.child hc
      have hidx : addr.idx (path.length + 1) = i := hrest 0 (Nat.succ_pos _)
      refine ⟨hid, i, rest, c, rfl, hidx, hc, ih hnumbered ?_ (Nat.succ.inj hlen) ?_ ?_⟩
      · rw [hchild, List.length_append, List.length_singleton, hidx]
      · rw [hnode]
        rfl
      · intro level hlevel
        have hnext := hrest (level + 1) (Nat.succ_lt_succ hlevel)
        rw [List.length_append, List.length_singleton]
        rwa [show path.length + 1 + (level + 1) = path.length + 1 + 1 + level by omega] at hnext

namespace Lpddr5

variable {s : SpeedEntry} {channels ranks : Nat} {id : Int} {h : List (IssuedCmd Command)}
  {c c' : Controller Command State 3} {queue : QueueId} {req r : Request} {cmd : Command}
  {fwd : Request → Prop} {issuer : Issuer Command State 3}

theorem Controls.leads (hrun : Controls s channels ranks id h issuer) (hr : For ranks id r)
    (haccess : r.isAccess = true) :
    issuer.channel.Leads r.addrVec [] (r.addrVec.place 3) := by
  have htype : r.type = .read ∨ r.type = .write := by
    simpa [Request.isAccess] using haccess
  obtain ⟨hserves, -⟩ := hrun.follows
  obtain ⟨hnumbered, -, hself, -⟩ := hserves.issues.tells
  obtain ⟨i, j, k, hbank, hsome⟩ := hserves.bank hr.1 htype
  simp only [bankOf, Prod.mk.injEq] at hbank
  obtain ⟨hi, hj, hk⟩ := hbank
  have hplace : r.addrVec.place 3 = [i, j, k] := by
    simp [AddrVec.place, List.range_succ, hi, hj, hk]
  rw [hplace]
  refine hnumbered.leads (hself.trans hr.2.symm) rfl hsome fun level hlevel => ?_
  obtain rfl | rfl | rfl : level = 0 ∨ level = 1 ∨ level = 2 := by
    simp only [List.length_cons, List.length_nil] at hlevel
    omega
  · exact hi
  · exact hj
  · exact hk

theorem Sound.serveCompleted_isOk (hc : Sound s channels ranks id fwd h c) (hs : c.Counted)
    (full : Bool) : ∃ c' done, c.serveCompleted full = .ok (c', done) ∧ c'.Counted := by
  refine hs.serveCompleted full fun r hr => ?_
  obtain ⟨hfor, htype, -⟩ := hc.pending r hr
  exact hc.controls.leads hfor (by simp [Request.isAccess, htype])

theorem Sound.issue_isOk (hc : Sound s channels ranks id fwd h c) (hs : c.Counted) {i : Nat}
    (hreq : (c.queues queue)[i]? = some req)
    (hfirst : c.firstCmd (lpddr5Spec s channels ranks) req = .ok cmd)
    (hready : c.isReady (lpddr5Spec s channels ranks) cmd req.addrVec = .ok true) :
    ∃ c' done, c.issue (lpddr5Spec s channels ranks) queue i req cmd = .ok (c', done) ∧
      c'.Counted := by
  have hr := hc.queued queue req (List.mem_of_getElem? hreq)
  obtain ⟨issuer, hissuer⟩ := hc.controls.issueCmd_isOk hr.1 hr.2 hfirst hready
  have hcontrols :=
    hc.controls.issue req.type req.addrVec c.clk hr.1 hr.2 hc.clk_nonneg hfirst hissuer
  exact hs.issue hc.clk_nonneg hreq hissuer fun haccess =>
    ⟨hc.controls.leads hr haccess, hcontrols.leads hr haccess⟩

theorem Sound.next_isOk (hc : Sound s channels ranks id fwd h c) :
    ∃ picked, c.next (lpddr5Spec s channels ranks) = .ok picked := by
  obtain ⟨picked, hpick⟩ := hc.pick .actq
  rw [Controller.next, hpick, ok_bind]
  cases picked with
  | some p => exact ⟨_, rfl⟩
  | none =>
    dsimp only
    generalize (if c.queues .otherq ≠ [] then QueueId.otherq
      else if c.writeMode = true then .writeq else .readq) = queue
    obtain ⟨picked, hpick⟩ := hc.pick queue
    rw [hpick, ok_bind]
    cases picked with
    | some p => exact ⟨_, rfl⟩
    | none => exact ⟨_, rfl⟩

theorem Sound.schedule_isOk (hc : Sound s channels ranks id fwd h c) (hs : c.Counted) :
    ∃ c' done, c.schedule (lpddr5Spec s channels ranks) = .ok (c', done) ∧ c'.Counted := by
  obtain ⟨picked, hnext⟩ := hc.next_isOk
  rw [Controller.schedule, hnext, ok_bind]
  cases picked with
  | some p =>
    obtain ⟨hreq, hfirst, hready⟩ := Controller.pick_eq_ok _ (Controller.next_cases _ hnext)
    exact hc.issue_isOk hs hreq hfirst hready
  | none => exact ⟨c, [], rfl, hs⟩

end Lpddr5

end NdpSim
