import NdpSim.Dram.RowTable
import NdpSim.Dram.Scheduler
import NdpSim.Dram.Serving
import NdpSim.Library.Loops

/-!
# The memory controller

A controller holds the requests to one channel. In each cycle it answers a read whose data are
there, queues the refreshes that are due, and issues one command for the request its scheduler
picks.
-/
namespace NdpSim

open Library

/-- `mf` is the memory fetch that the request is a part of. -/
structure Request where
  addr : Nat
  addrVec : AddrVec
  type : DramRequestType
  mf : Option Nat
  nextAddr : List Nat := []
  isFirstCommand : Bool := true
  arrive : Int := 0
  depart : Int := 0

namespace Request

/-- A read or a write. -/
def isAccess (r : Request) : Bool := r.type = .read || r.type = .write

theorem isAccess_congr {r r' : Request} (h : r'.type = r.type) : r'.isAccess = r.isAccess := by
  rw [isAccess, isAccess, h]

end Request

inductive QueueId
  | readq | writeq | actq | otherq
  deriving DecidableEq

/-- `get_queue` -/
def DramRequestType.queue : DramRequestType → QueueId
  | .read => .readq
  | .write => .writeq
  | _ => .otherq

/-- `serving` belongs to the nodes of the channel, by the paths to them. The last fields are the
clock of the refresh scheduler and when it last refreshed. -/
structure Controller (C S : Type) (n : Nat) where
  clk : Int := 0
  issuer : Issuer C S n
  serving : List Nat → Serving := fun _ => {}
  queues : QueueId → List Request := fun _ => []
  pending : List Request := []
  writeMode : Bool := false
  refreshClk : Int := 0
  refreshed : Int := 0

namespace Controller

variable {C S : Type} {n : Nat}

/-- `Queue::max` -/
def queueMax : Nat := 256

def setQueue (c : Controller C S n) (queue : QueueId) (q : List Request) : Controller C S n :=
  { c with queues := Function.update c.queues queue q }

@[simp] theorem queues_setQueue (c : Controller C S n) (queue queue' : QueueId)
    (q : List Request) : (c.setQueue queue q).queues queue' =
      if queue' = queue then q else c.queues queue' :=
  Function.update_apply ..

/-- A read of what is about to be written -/
def forwards (c : Controller C S n) (req : Request) : Bool :=
  req.type = .read && (c.queues .writeq).any (req.addr = ·.addr)

/-- `enqueue`, which answers `none` for `false`. The write queue answers a read of its data. -/
def enqueue (c : Controller C S n) (req : Request) : Option (Controller C S n) :=
  let queue := req.type.queue
  if (c.queues queue).length = queueMax then none
  else
    let req := { req with arrive := c.clk }
    if c.forwards req then
      some { c with pending := c.pending ++ [{ req with depart := c.clk + 1 }] }
    else some (c.setQueue queue (c.queues queue ++ [req]))

theorem enqueue_eq_some {c c' : Controller C S n} {req : Request} : c.enqueue req = some c' ↔
    (c.queues req.type.queue).length ≠ queueMax ∧
      (c.forwards req = true ∧
          c' = { c with
            pending := c.pending ++ [{ req with arrive := c.clk, depart := c.clk + 1 }] } ∨
        c.forwards req = false ∧ c' = c.setQueue req.type.queue
          (c.queues req.type.queue ++ [{ req with arrive := c.clk }])) := by
  have hforwards : c.forwards { req with arrive := c.clk } = c.forwards req := rfl
  simp only [enqueue, hforwards]
  by_cases hfull : (c.queues req.type.queue).length = queueMax
  · simp [hfull]
  · cases hf : c.forwards req <;> simp [hfull, eq_comm (b := c')]

/-- `update_serving_requests` of the channel, if the request counts. -/
def updateServing (c : Controller C S n) (counts : Bool) (addr : AddrVec) (delta : Int) :
    Except Fault (Controller C S n) :=
  if counts then do
    return { c with serving := ← c.issuer.channel.updateServing delta c.clk addr [] c.serving }
  else .ok c

theorem exists_of_updateServing {c c' : Controller C S n} {counts : Bool} {addr : AddrVec}
    {delta : Int} (h : c.updateServing counts addr delta = .ok c') :
    ∃ serving, c' = { c with serving } := by
  unfold updateServing at h
  split at h
  · obtain ⟨serving, -, h⟩ := bind_eq_ok.mp h
    exact ⟨serving, (Except.ok.inj h).symm⟩
  · exact ⟨c.serving, (Except.ok.inj h).symm⟩

/-- The first read that is pending is called back once its data are there. One that the write queue
answered did not access a row. -/
def serveCompleted (c : Controller C S n) (rwqFull : Bool) :
    Except Fault (Controller C S n × List Request) :=
  match c.pending with
  | req :: rest =>
    if !rwqFull && req.depart ≤ c.clk then do
      let c ← c.updateServing (req.depart - req.arrive > 1) req.addrVec (-1)
      return ({ c with pending := rest }, [req])
    else .ok (c, [])
  | [] => .ok (c, [])

/-- Nothing is served, or the first read that is pending. -/
theorem serveCompleted_cases {c c' : Controller C S n} {full : Bool} {done : List Request}
    (h : c.serveCompleted full = .ok (c', done)) : c' = c ∧ done = [] ∨
      ∃ req rest serving, c.pending = req :: rest ∧ req.depart ≤ c.clk ∧
        c' = { c with serving, pending := rest } ∧ done = [req] := by
  unfold serveCompleted at h
  split at h
  case h_1 req rest hpending =>
    split at h
    case isTrue hready =>
      simp only [Bool.and_eq_true, decide_eq_true_eq] at hready
      obtain ⟨c₁, hc₁, h⟩ := bind_eq_ok.mp h
      obtain ⟨rfl, rfl⟩ := Prod.mk.inj (Except.ok.inj h)
      obtain ⟨serving, rfl⟩ := exists_of_updateServing hc₁
      exact .inr ⟨req, rest, serving, hpending, hready.2, rfl, rfl⟩
    case isFalse =>
      obtain ⟨rfl, rfl⟩ := Prod.mk.inj (Except.ok.inj h)
      exact .inl ⟨rfl, rfl⟩
  case h_2 =>
    obtain ⟨rfl, rfl⟩ := Prod.mk.inj (Except.ok.inj h)
    exact .inl ⟨rfl, rfl⟩

def refreshRequest (S' : DramSpec C S) (c : Controller C S n) (rank : Int) : Request where
  addr := 0
  addrVec := c.issuer.channel.self.id :: rank :: List.replicate (S'.levels - 2) (-1)
  type := .refresh
  mf := none

/-- `refresh_target` -/
def refreshTarget (S' : DramSpec C S) (c : Controller C S n) (rank : Int) :
    Except Fault (Controller C S n) :=
  match c.enqueue (c.refreshRequest S' rank) with
  | some c => .ok c
  | none => .error .assertion

/-- `tick_ref`, with `inject_refresh` for all ranks. -/
def tickRef (S' : DramSpec C S) (c : Controller C S n) : Except Fault (Controller C S n) := do
  let c := { c with refreshClk := c.refreshClk + 1 }
  if c.refreshClk - c.refreshed ≥ S'.nREFI then
    let c ← c.issuer.channel.children.foldlM (fun c rank => c.refreshTarget S' rank.self.id) c
    return { c with refreshed := c.refreshClk }
  else return c

theorem frame_enqueue {c c' : Controller C S n} {req : Request} (h : c.enqueue req = some c') :
    c'.clk = c.clk ∧ c'.serving = c.serving := by
  obtain ⟨-, ⟨-, rfl⟩ | ⟨-, rfl⟩⟩ := enqueue_eq_some.mp h <;> exact ⟨rfl, rfl⟩

theorem frame_tickRef {S' : DramSpec C S} {c c' : Controller C S n} (h : c.tickRef S' = .ok c') :
    c'.clk = c.clk ∧ c'.serving = c.serving := by
  unfold tickRef at h
  dsimp only at h
  split at h
  · obtain ⟨c₁, hc, h⟩ := bind_eq_ok.mp h
    obtain rfl := Except.ok.inj h
    refine foldlM_invariant (P := fun c₁ => c₁.clk = c.clk ∧ c₁.serving = c.serving)
      (fun c₁ rank c₂ h₁ heq => ?_) hc ⟨rfl, rfl⟩
    unfold refreshTarget at h₁
    split at h₁
    case h_1 c₃ hc₃ =>
      obtain rfl := Except.ok.inj h₁
      obtain ⟨hclk, hserving⟩ := frame_enqueue hc₃
      exact ⟨hclk.trans heq.1, hserving.trans heq.2⟩
    case h_2 => cases h₁
  · obtain rfl := Except.ok.inj h
    exact ⟨rfl, rfl⟩

/-- 0.8 and 0.2 of the size of a queue. -/
def highWatermark : Nat := 204

def lowWatermark : Nat := 51

/-- Writes are served from when there are many, or no reads, until there are few and reads. -/
def switchMode (c : Controller C S n) : Controller C S n :=
  let writes := (c.queues .writeq).length
  let reads := (c.queues .readq).length
  if !c.writeMode then
    if writes > highWatermark ∨ reads = 0 then { c with writeMode := true } else c
  else if writes < lowWatermark ∧ reads ≠ 0 then { c with writeMode := false } else c

/-! ## Picking a request -/

variable [DecidableEq C] (S' : DramSpec C S)

/-- `get_first_cmd` -/
def firstCmd (c : Controller C S n) (req : Request) : Except Fault C :=
  c.issuer.channel.decode S'.toStandard 0 [] (S'.translate req.type) req.addrVec

/-- `is_ready` of a command -/
def isReady (c : Controller C S n) (cmd : C) (addr : AddrVec) : Except Fault Bool :=
  c.issuer.channel.check S'.toTimingTable 0 cmd addr c.clk

/-- What the scheduler asks about a request. -/
def candidate (c : Controller C S n) (req : Request) : Except Fault Candidate := do
  let cmd ← c.firstCmd S' req
  let ready ← c.isReady S' cmd req.addrVec
  let hit ← c.issuer.channel.checkRowHit S'.toStandard (S'.translate req.type) req.addrVec
  let rowOpen ← c.issuer.channel.checkRowOpen S'.toStandard (S'.translate req.type) req.addrVec
  return {
    ready, hit, rowOpen
    rowgroup := req.addrVec.group (S'.scope S'.pre + 1)
    hits := c.issuer.rowtable.getHits S'.toStandard req.addrVec false
    arrive := req.arrive }

/-- The head of the queue, with its first command, if that is ready. -/
def pick (c : Controller C S n) (queue : QueueId) : Except Fault (Option (Nat × Request × C)) := do
  let q := c.queues queue
  let candidates ← q.mapM (c.candidate S')
  match getHead .frfcfsPriorHit 16 candidates with
  | none => return none
  | some i =>
    match q[i]? with
    | none => .error .undefined
    | some req =>
      let cmd ← c.firstCmd S' req
      let ready ← c.isReady S' cmd req.addrVec
      return if ready then some (i, req, cmd) else none

theorem pick_eq_ok {c : Controller C S n} {queue : QueueId} {i : Nat} {req : Request} {cmd : C}
    (h : c.pick S' queue = .ok (some (i, req, cmd))) : (c.queues queue)[i]? = some req ∧
      c.firstCmd S' req = .ok cmd ∧ c.isReady S' cmd req.addrVec = .ok true := by
  obtain ⟨candidates, -, h⟩ := bind_eq_ok.mp h
  split at h
  · cases h
  · split at h
    · cases h
    case h_2 r hr =>
      obtain ⟨cmd', hcmd, h⟩ := bind_eq_ok.mp h
      obtain ⟨ready, hready, h⟩ := bind_eq_ok.mp h
      cases ready with
      | false => cases h
      | true =>
        obtain ⟨rfl, rfl, rfl⟩ := by simpa using Except.ok.inj h
        exact ⟨hr, hcmd, hready⟩

/-! ## Issuing a command -/

/-- After the command of a request. A request whose row is opened goes to `actq`, one that is done
leaves its queue; a write is called back. -/
def advance (c : Controller C S n) (queue : QueueId) (i : Nat) (req : Request) (cmd : C) :
    Controller C S n × List Request :=
  let req := { req with isFirstCommand := false }
  let rest (c : Controller C S n) := c.setQueue queue ((c.queues queue).eraseIdx i)
  let keep (req : Request) := c.setQueue queue ((c.queues queue).set i req)
  if cmd ≠ S'.translate req.type then
    if S'.isOpening cmd then (rest (c.setQueue .actq (c.queues .actq ++ [req])), [])
    else (keep req, [])
  else match req.type with
    | .read =>
      let req := { req with depart := c.clk + S'.readLatency }
      (rest { c with pending := c.pending ++ [req] }, [])
    | .write =>
      match req.nextAddr.getLast? with
      | some addr =>
        (keep { req with isFirstCommand := true, addr, nextAddr := req.nextAddr.dropLast }, [])
      | none => (rest c, [req])
    | _ => (rest c, [])

section Advance

variable {c : Controller C S n} {queue : QueueId} {i : Nat} {req : Request} {cmd : C}

theorem frame_advance (c : Controller C S n) (queue : QueueId) (i : Nat) (req : Request)
    (cmd : C) :
    (c.advance S' queue i req cmd).1.issuer = c.issuer ∧
    (c.advance S' queue i req cmd).1.clk = c.clk ∧
    (c.advance S' queue i req cmd).1.serving = c.serving := by
  unfold advance
  dsimp only
  split_ifs
  · exact ⟨rfl, rfl, rfl⟩
  · exact ⟨rfl, rfl, rfl⟩
  · split
    · exact ⟨rfl, rfl, rfl⟩
    · split <;> exact ⟨rfl, rfl, rfl⟩
    · exact ⟨rfl, rfl, rfl⟩

/-- What is in the queues after a command was there before, or is its request. -/
theorem mem_advance {queue' : QueueId} {r : Request}
    (h : r ∈ (c.advance S' queue i req cmd).1.queues queue') :
    r ∈ c.queues queue' ∨ r.type = req.type ∧ r.addrVec = req.addrVec := by
  have hrest : ∀ c₁ : Controller C S n,
      r ∈ (c₁.setQueue queue ((c₁.queues queue).eraseIdx i)).queues queue' →
        r ∈ c₁.queues queue' := by
    intro c₁ h₁
    rw [queues_setQueue] at h₁
    split at h₁
    case isTrue hq =>
      subst hq
      exact List.mem_of_mem_eraseIdx h₁
    case isFalse => exact h₁
  have hkeep : ∀ r₁ : Request, r ∈ (c.setQueue queue ((c.queues queue).set i r₁)).queues queue' →
      r ∈ c.queues queue' ∨ r = r₁ := by
    intro r₁ h₁
    rw [queues_setQueue] at h₁
    split at h₁
    case isTrue hq =>
      subst hq
      exact List.mem_or_eq_of_mem_set h₁
    case isFalse => exact .inl h₁
  unfold advance at h
  dsimp only at h
  split_ifs at h
  · have hpush := hrest _ h
    rw [queues_setQueue] at hpush
    split at hpush
    case isTrue hq =>
      subst hq
      obtain hmem | hmem := List.mem_append.mp hpush
      · exact .inl hmem
      · obtain rfl := List.mem_singleton.mp hmem
        exact .inr ⟨rfl, rfl⟩
    case isFalse => exact .inl hpush
  · obtain hmem | rfl := hkeep _ h
    · exact .inl hmem
    · exact .inr ⟨rfl, rfl⟩
  · split at h
    · exact .inl (hrest _ h)
    · split at h
      · obtain hmem | rfl := hkeep _ h
        · exact .inl hmem
        · exact .inr ⟨rfl, rfl⟩
      · exact .inl (hrest _ h)
    · exact .inl (hrest _ h)

/-- A read that becomes pending was served by the command. -/
theorem mem_pending_advance {r : Request} (h : r ∈ (c.advance S' queue i req cmd).1.pending) :
    r ∈ c.pending ∨ req.type = .read ∧ cmd = S'.translate req.type ∧ r.type = .read ∧
      r.addrVec = req.addrVec ∧ r.depart = c.clk + S'.readLatency := by
  unfold advance at h
  dsimp only at h
  split_ifs at h with hlast
  · exact .inl h
  · exact .inl h
  · split at h
    case h_1 htype =>
      obtain hmem | hmem := List.mem_append.mp h
      · exact .inl hmem
      · obtain rfl := List.mem_singleton.mp hmem
        exact .inr ⟨htype, not_not.mp hlast, htype, rfl, rfl⟩
    · split at h <;> exact .inl h
    · exact .inl h

/-- A request that is called back at its command is a write. -/
theorem mem_done_advance {r : Request} (h : r ∈ (c.advance S' queue i req cmd).2) :
    req.type = .write ∧ cmd = S'.translate req.type ∧ r.type = .write ∧
      r.addrVec = req.addrVec := by
  unfold advance at h
  dsimp only at h
  split_ifs at h with hlast
  · simp at h
  · simp at h
  · split at h
    · simp at h
    case h_2 htype =>
      split at h
      · simp at h
      · obtain rfl := List.mem_singleton.mp h
        exact ⟨htype, not_not.mp hlast, htype, rfl⟩
    · simp at h

end Advance

/-- `issue_cmd` with what precedes and follows it. With its first command a request is begun, with
its last one a write is done. -/
def issue (c : Controller C S n) (queue : QueueId) (i : Nat) (req : Request) (cmd : C) :
    Except Fault (Controller C S n × List Request) := do
  let c ← c.updateServing (req.isFirstCommand && req.isAccess) req.addrVec 1
  let issuer ← c.issuer.issueCmd S'.toStandard cmd req.addrVec c.clk
  let c := { c with issuer }
  let c ← c.updateServing (cmd = S'.translate req.type && req.type = .write) req.addrVec (-1)
  return c.advance S' queue i req cmd

theorem issue_cases {c c' : Controller C S n} {queue : QueueId} {i : Nat} {req : Request} {cmd : C}
    {done : List Request} (h : c.issue S' queue i req cmd = .ok (c', done)) :
    ∃ issuer serving, c.issuer.issueCmd S'.toStandard cmd req.addrVec c.clk = .ok issuer ∧
      (c', done) = { c with issuer, serving }.advance S' queue i req cmd := by
  obtain ⟨c₁, hc₁, h⟩ := bind_eq_ok.mp h
  obtain ⟨issuer, hissuer, h⟩ := bind_eq_ok.mp h
  obtain ⟨c₂, hc₂, h⟩ := bind_eq_ok.mp h
  obtain ⟨serving, rfl⟩ := exists_of_updateServing hc₁
  obtain ⟨serving', rfl⟩ := exists_of_updateServing hc₂
  exact ⟨issuer, serving', hissuer, (Except.ok.inj h).symm⟩

/-! ## A cycle -/

/-- The request that the command of the cycle is for. First comes the queue of those whose row was
opened for them. -/
def next (c : Controller C S n) : Except Fault (Option (QueueId × Nat × Request × C)) := do
  match ← c.pick S' .actq with
  | some (i, req, cmd) => return some (.actq, i, req, cmd)
  | none =>
    let queue := if c.queues .otherq ≠ [] then .otherq else if c.writeMode then .writeq else .readq
    match ← c.pick S' queue with
    | some (i, req, cmd) => return some (queue, i, req, cmd)
    | none => return none

theorem next_cases {c : Controller C S n} {p : QueueId × Nat × Request × C}
    (h : c.next S' = .ok (some p)) : c.pick S' p.1 = .ok (some p.2) := by
  obtain ⟨picked, hpick, h⟩ := bind_eq_ok.mp h
  cases picked with
  | some p₁ =>
    obtain rfl := Option.some.inj (Except.ok.inj h)
    exact hpick
  | none =>
    obtain ⟨picked, hpick, h⟩ := bind_eq_ok.mp h
    cases picked with
    | some p₁ =>
      obtain rfl := Option.some.inj (Except.ok.inj h)
      exact hpick
    | none => cases h

/-- The command of the cycle. Without one that is ready, an open row stays open. -/
def schedule (c : Controller C S n) : Except Fault (Controller C S n × List Request) := do
  match ← c.next S' with
  | some (queue, i, req, cmd) => c.issue S' queue i req cmd
  | none => return (c, [])

/-- A command is issued for the request that was picked, or nothing changes. -/
theorem schedule_cases {c c' : Controller C S n} {done : List Request}
    (h : c.schedule S' = .ok (c', done)) : c' = c ∧ done = [] ∨ ∃ queue i req cmd,
      c.pick S' queue = .ok (some (i, req, cmd)) ∧ c.issue S' queue i req cmd = .ok (c', done) := by
  obtain ⟨picked, hnext, h⟩ := bind_eq_ok.mp h
  cases picked with
  | some p => exact .inr ⟨p.1, p.2.1, p.2.2.1, p.2.2.2, next_cases S' hnext, h⟩
  | none =>
    obtain ⟨rfl, rfl⟩ := Prod.mk.inj (Except.ok.inj h)
    exact .inl ⟨rfl, rfl⟩

/-- What comes before the command of a cycle, with the reads that are called back. -/
def prepare (c : Controller C S n) (rwqFull : Bool) :
    Except Fault (Controller C S n × List Request) := do
  let (c, reads) ← { c with clk := c.clk + 1 }.serveCompleted rwqFull
  let c ← c.tickRef S'
  return (c.switchMode, reads)

/-- `tick`, with the requests it calls back. -/
def tick (c : Controller C S n) (rwqFull : Bool) :
    Except Fault (Controller C S n × List Request) := do
  let (c, reads) ← c.prepare S' rwqFull
  let (c, writes) ← c.schedule S'
  return (c, reads ++ writes)

omit [DecidableEq C] in
theorem prepare_eq_ok {c c' : Controller C S n} {full : Bool} {reads : List Request} :
    c.prepare S' full = .ok (c', reads) ↔ ∃ c₁ c₂,
      { c with clk := c.clk + 1 }.serveCompleted full = .ok (c₁, reads) ∧
        c₁.tickRef S' = .ok c₂ ∧ c' = c₂.switchMode := by
  constructor
  · intro h
    obtain ⟨⟨c₁, reads⟩, hc₁, h⟩ := bind_eq_ok.mp h
    obtain ⟨c₂, hc₂, h⟩ := bind_eq_ok.mp h
    obtain ⟨rfl, rfl⟩ := Prod.mk.inj (Except.ok.inj h)
    exact ⟨c₁, c₂, hc₁, hc₂, rfl⟩
  · rintro ⟨c₁, c₂, hc₁, hc₂, rfl⟩
    exact bind_eq_ok.mpr ⟨(c₁, reads), hc₁, bind_eq_ok.mpr ⟨c₂, hc₂, rfl⟩⟩

theorem tick_eq_ok {c c' : Controller C S n} {full : Bool} {done : List Request} :
    c.tick S' full = .ok (c', done) ↔ ∃ c₁ reads writes, c.prepare S' full = .ok (c₁, reads) ∧
      c₁.schedule S' = .ok (c', writes) ∧ done = reads ++ writes := by
  constructor
  · intro h
    obtain ⟨⟨c₁, reads⟩, hc₁, h⟩ := bind_eq_ok.mp h
    obtain ⟨⟨c₂, writes⟩, hc₂, h⟩ := bind_eq_ok.mp h
    obtain ⟨rfl, rfl⟩ := Prod.mk.inj (Except.ok.inj h)
    exact ⟨c₁, reads, writes, hc₁, hc₂, rfl⟩
  · rintro ⟨c₁, reads, writes, hc₁, hc₂, rfl⟩
    exact bind_eq_ok.mpr ⟨(c₁, reads), hc₁, bind_eq_ok.mpr ⟨(c', writes), hc₂, rfl⟩⟩

end Controller

end NdpSim
