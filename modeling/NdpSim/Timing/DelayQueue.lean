import NdpSim.Isa.VectorData
import NdpSim.Library.DelayQueue
import NdpSim.Library.Effects

/-!
# The queues of the pipeline

A `DelayQueue<T>` gives its elements back in their order, each when its delay is over, and takes the
next one when the interval of the last one is over. Its clock is a word: a delay that is reckoned
past the last cycle of the clock is over too early.
-/
namespace NdpSim

open Library

/-- `DelayQueue<T>`, each element with its `finish_cycle`. -/
structure TimedQueue (α : Type) where
  queue : List (α × BitVec 64)
  interval : Int
  clock : BitVec 64
  size : Int
  maxSize : Int
  issued : Bool
  onlyLatency : Bool

namespace TimedQueue

variable {α : Type}

def create (onlyLatency : Bool) (maxSize : Int) : TimedQueue α :=
  ⟨[], 0, 0, 0, maxSize, false, onlyLatency⟩

/-- What both pushes begin with; the number of elements is an `int`. -/
def enqueue (q : TimedQueue α) (data : α) (delay : BitVec 32) : Except Fault (TimedQueue α) :=
  if 2 ^ 31 ≤ q.size + 1 then .error .undefined
  else .ok { q with
    size := q.size + 1
    queue := q.queue ++ [(data, q.clock + delay.signExtend 64)] }

/-- `push(data, delay)` -/
def push (q : TimedQueue α) (data : α) (delay : BitVec 32) : Except Fault (TimedQueue α) :=
  if q.onlyLatency then q.enqueue data delay else .error .assertion

/-- `push(data, delay, interval)` -/
def pushInterval (q : TimedQueue α) (data : α) (delay interval : BitVec 32) :
    Except Fault (TimedQueue α) := do
  if q.issued then throw .assertion
  let q ← q.enqueue data delay
  return { q with issued := if q.onlyLatency then q.issued else true, interval := interval.toInt }

def empty (q : TimedQueue α) : Bool :=
  match q.queue with
  | [] => true
  | (_, finishCycle) :: _ => q.clock < finishCycle

def full (q : TimedQueue α) : Bool :=
  q.issued || decide (0 < q.maxSize) && decide (q.maxSize ≤ q.size)

def pop (q : TimedQueue α) : Except Fault (TimedQueue α) :=
  if q.empty then .error .assertion
  else .ok { q with queue := q.queue.tail, size := q.size - 1 }

def top (q : TimedQueue α) : Except Fault α :=
  match q.queue with
  | [] => .error .assertion
  | (data, _) :: _ => if q.empty then .error .assertion else .ok data

def cycle (q : TimedQueue α) : TimedQueue α :=
  let interval := if 0 < q.interval then q.interval - 1 else q.interval
  { q with
    interval := interval
    issued := if interval ≤ 0 then false else q.issued
    clock := q.clock + 1 }

/-! ## Runs -/

inductive Call (α : Type)
  | push (data : α) (delay : BitVec 32)
  | pushInterval (data : α) (delay interval : BitVec 32)
  | pop
  | top
  | cycle

/-- Nothing is taken from an empty queue, and nothing put into a full one. -/
def Allowed (q : TimedQueue α) : Call α → Prop
  | .push .. | .pushInterval .. => q.full = false
  | .pop | .top => q.empty = false
  | .cycle => True

/-- An element, what it was pushed with, and after how many cycles. -/
structure Push (α : Type) where
  data : α
  delay : Int
  interval : Option Int
  time : Nat

/-- A queue and what was done with it: all pushes, what was popped, and the number of cycles. -/
structure Journal (α : Type) where
  queue : TimedQueue α
  pushes : List (Push α)
  popped : List α
  time : Nat

def Journal.call (j : Journal α) : Call α → Except Fault (Journal α)
  | .push data delay => do
    return { j with
      queue := ← j.queue.push data delay
      pushes := j.pushes ++ [⟨data, delay.toInt, none, j.time⟩] }
  | .pushInterval data delay interval => do
    return { j with
      queue := ← j.queue.pushInterval data delay interval
      pushes := j.pushes ++ [⟨data, delay.toInt, some interval.toInt, j.time⟩] }
  | .pop => do
    let data ← j.queue.top
    return { j with queue := ← j.queue.pop, popped := j.popped ++ [data] }
  | .top => do
    let _ ← j.queue.top
    return j
  | .cycle => .ok { j with queue := j.queue.cycle, time := j.time + 1 }

/-- Calls one after the other, each where it is allowed. -/
inductive Run (onlyLatency : Bool) (maxSize : Int) : List (Call α) → Journal α → Prop
  | nil : Run onlyLatency maxSize [] ⟨create onlyLatency maxSize, [], [], 0⟩
  | call {cs : List (Call α)} {c : Call α} {j j' : Journal α} (hrun : Run onlyLatency maxSize cs j)
      (hallowed : j.queue.Allowed c) (hcall : j.call c = .ok j') :
      Run onlyLatency maxSize (cs ++ [c]) j'

/-- The delay ends within the clock. -/
def Push.FitsClock (p : Push α) : Prop := ((p.time % 2 ^ 64 : Nat) : Int) + p.delay < 2 ^ 64

/-- What a queue keeps to. -/
structure Disciplined (onlyLatency : Bool) (maxSize : Int) (j : Journal α) : Prop where
  fifo : j.pushes.map Push.data = j.popped ++ j.queue.queue.map Prod.fst
  waited : j.queue.empty = false → ∃ p, j.pushes[j.popped.length]? = some p ∧
    (p.FitsClock → p.delay ≤ (j.time : Int) - p.time)
  size : j.queue.size = j.queue.queue.length
  bounded : 0 < maxSize → j.queue.size ≤ maxSize
  spaced : onlyLatency = false → ∀ k p p', j.pushes[k]? = some p → j.pushes[k + 1]? = some p' →
    ∃ i, p.interval = some i ∧ max 1 i ≤ (p'.time : Int) - p.time

/-! ## Steps -/

/-- What a push does. -/
structure Pushed (q : TimedQueue α) (p : Push α) (q' : TimedQueue α) : Prop where
  full : q.full = false
  queue : q'.queue = q.queue ++ [(p.data, q.clock + .ofInt 64 p.delay)]
  clock : q'.clock = q.clock
  size : q'.size = q.size + 1
  maxSize : q'.maxSize = q.maxSize
  onlyLatency : q'.onlyLatency = q.onlyLatency
  paced : q.onlyLatency = false → ∃ i, p.interval = some i ∧ q'.issued = true ∧ q'.interval = i

/-- The steps of a queue. -/
inductive Step (j : Journal α) : Journal α → Prop
  | push {p : Push α} {q' : TimedQueue α} (htime : p.time = j.time) (hpush : Pushed j.queue p q') :
      Step j ⟨q', j.pushes ++ [p], j.popped, j.time⟩
  | pop {data : α} {finish : BitVec 64} {rest : List (α × BitVec 64)}
      (hqueue : j.queue.queue = (data, finish) :: rest) :
      Step j ⟨{ j.queue with queue := rest, size := j.queue.size - 1 }, j.pushes,
        j.popped ++ [data], j.time⟩
  | top : Step j j
  | cycle : Step j ⟨j.queue.cycle, j.pushes, j.popped, j.time + 1⟩

variable {q q' : TimedQueue α} {j j' : Journal α} {c : Call α} {data : α}
  {delay interval : BitVec 32} {time : Nat}

theorem enqueue_eq_ok (h : q.enqueue data delay = .ok q') : q' = { q with
    size := q.size + 1
    queue := q.queue ++ [(data, q.clock + delay.signExtend 64)] } := by
  unfold enqueue at h
  split at h
  · cases h
  · exact (Except.ok.inj h).symm

theorem pushed_of_push (hfull : q.full = false) (h : q.push data delay = .ok q') :
    Pushed q ⟨data, delay.toInt, none, time⟩ q' := by
  unfold push at h
  split at h
  case isFalse => cases h
  case isTrue honly =>
    obtain rfl := enqueue_eq_ok h
    refine ⟨hfull, rfl, rfl, rfl, rfl, rfl, fun hnot => ?_⟩
    rw [honly] at hnot
    cases hnot

theorem pushed_of_pushInterval (hfull : q.full = false)
    (h : q.pushInterval data delay interval = .ok q') :
    Pushed q ⟨data, delay.toInt, some interval.toInt, time⟩ q' := by
  simp only [pushInterval] at h
  split at h
  · cases h
  obtain ⟨q₁, hq₁, h⟩ := bind_eq_ok.mp h
  obtain rfl := enqueue_eq_ok hq₁
  cases h
  refine ⟨hfull, rfl, rfl, rfl, rfl, rfl, fun hnot => ⟨_, rfl, ?_, rfl⟩⟩
  dsimp only
  rw [hnot]
  rfl

theorem step_of_call (hallowed : j.queue.Allowed c) (h : j.call c = .ok j') : Step j j' := by
  cases c with
  | push data delay =>
    obtain ⟨q', hq', h⟩ := bind_eq_ok.mp h
    cases h
    exact .push rfl (pushed_of_push hallowed hq')
  | pushInterval data delay interval =>
    obtain ⟨q', hq', h⟩ := bind_eq_ok.mp h
    cases h
    exact .push rfl (pushed_of_pushInterval hallowed hq')
  | pop =>
    obtain ⟨data, hdata, h⟩ := bind_eq_ok.mp h
    obtain ⟨q', hq', h⟩ := bind_eq_ok.mp h
    cases h
    have hempty : j.queue.empty = false := hallowed
    rw [pop, hempty] at hq'
    cases hq'
    cases hqueue : j.queue.queue with
    | nil =>
      rw [empty, hqueue] at hempty
      cases hempty
    | cons entry rest =>
      obtain ⟨data', finish⟩ := entry
      simp only [top, hqueue, hempty] at hdata
      cases hdata
      exact .pop hqueue
  | top =>
    obtain ⟨data, -, h⟩ := bind_eq_ok.mp h
    cases h
    exact .top
  | cycle =>
    cases h
    exact .cycle

/-! ## The elements -/

/-- The entry of an element. -/
def Push.entry (p : Push α) : α × BitVec 64 :=
  (p.data, .ofNat 64 p.time + .ofInt 64 p.delay)

/-- The elements that were not popped are in the queue, behind one another. -/
structure Stored (j : Journal α) : Prop where
  clock : j.queue.clock = .ofNat 64 j.time
  popped : (j.pushes.take j.popped.length).map Push.data = j.popped
  entries : j.queue.queue = (j.pushes.drop j.popped.length).map Push.entry
  times : ∀ p ∈ j.pushes, p.time ≤ j.time

theorem Stored.popped_le (h : Stored j) : j.popped.length ≤ j.pushes.length := by
  have hlength := congrArg List.length h.popped
  rw [List.length_map, List.length_take] at hlength
  omega

/-- The element in front. -/
theorem Stored.front (h : Stored j) {entry : α × BitVec 64} {rest : List (α × BitVec 64)}
    (hqueue : j.queue.queue = entry :: rest) : ∃ p, j.pushes[j.popped.length]? = some p ∧
      entry = p.entry ∧ rest = (j.pushes.drop (j.popped.length + 1)).map Push.entry := by
  have hentries := h.entries
  rw [hqueue] at hentries
  cases hdrop : j.pushes.drop j.popped.length with
  | nil =>
    rw [hdrop] at hentries
    cases hentries
  | cons p ps =>
    rw [hdrop] at hentries
    obtain ⟨hentry, hrest⟩ := List.cons.inj hentries
    have hp : j.pushes[j.popped.length]? = some p := by
      have hget := congrArg (·[0]?) hdrop
      rwa [List.getElem?_drop] at hget
    have hps : j.pushes.drop (j.popped.length + 1) = ps := by
      rw [← List.tail_drop, hdrop]
      rfl
    exact ⟨p, hp, hentry, hps ▸ hrest⟩

theorem stored_step (h : Stored j) (hstep : Step j j') : Stored j' := by
  cases hstep with
  | push htime hpush =>
    have hle := h.popped_le
    refine ⟨hpush.clock.trans h.clock, ?_, ?_, fun p hp => ?_⟩
    · rw [List.take_append_of_le_length hle, h.popped]
    · rw [List.drop_append_of_le_length hle, List.map_append, ← h.entries, hpush.queue, h.clock,
        ← htime]
      rfl
    · obtain hp | hp := List.mem_append.mp hp
      · exact h.times p hp
      · rw [List.mem_singleton.mp hp]
        exact htime.le
  | pop hqueue =>
    obtain ⟨p, hp, hentry, hrest⟩ := h.front hqueue
    refine ⟨h.clock, ?_, ?_, h.times⟩
    · rw [List.length_append, List.length_singleton, List.take_add_one, hp, List.map_append,
        h.popped]
      exact congrArg (j.popped ++ [·]) (congrArg Prod.fst hentry).symm
    · rw [List.length_append, List.length_singleton]
      exact hrest
  | top => exact h
  | cycle =>
    refine ⟨?_, h.popped, h.entries, fun p hp => (h.times p hp).trans (Nat.le_succ _)⟩
    rw [BitVec.ofNat_add, ← h.clock]
    rfl

/-- Elements leave in the order they came in. -/
theorem Stored.fifo (h : Stored j) :
    j.pushes.map Push.data = j.popped ++ j.queue.queue.map Prod.fst := by
  rw [h.entries, List.map_map]
  calc j.pushes.map Push.data
      = (j.pushes.take j.popped.length ++ j.pushes.drop j.popped.length).map Push.data := by
        rw [List.take_append_drop]
    _ = j.popped ++ (j.pushes.drop j.popped.length).map Push.data := by
        rw [List.map_append, h.popped]

/-- The element in front has waited. -/
theorem Stored.waited (h : Stored j) (hempty : j.queue.empty = false) :
    ∃ p, j.pushes[j.popped.length]? = some p ∧
      (p.FitsClock → p.delay ≤ (j.time : Int) - p.time) := by
  cases hqueue : j.queue.queue with
  | nil =>
    rw [empty, hqueue] at hempty
    cases hempty
  | cons entry rest =>
    obtain ⟨p, hp, rfl, -⟩ := h.front hqueue
    refine ⟨p, hp, fun hfits => ?_⟩
    have htime := h.times p (List.mem_of_getElem? hp)
    have hready : (BitVec.ofNat 64 p.time + BitVec.ofInt 64 p.delay).toNat ≤
        (BitVec.ofNat 64 j.time).toNat := by
      rw [empty, hqueue] at hempty
      rw [← h.clock]
      exact not_lt.mp (of_decide_eq_false hempty)
    rw [BitVec.toNat_add, BitVec.toNat_ofNat, BitVec.toNat_ofNat, BitVec.toNat_ofInt] at hready
    rw [Push.FitsClock] at hfits
    omega

/-! ## Their number -/

/-- `m_size` counts the elements and keeps to its bound. -/
structure Sized (bound : Int) (q : TimedQueue α) : Prop where
  maxSize : q.maxSize = bound
  size : q.size = q.queue.length
  bounded : 0 < bound → q.size ≤ bound

theorem sized_step {bound : Int} (h : Sized bound j.queue) (hstep : Step j j') :
    Sized bound j'.queue := by
  have hmax := h.maxSize
  have hsize := h.size
  have hbounded := h.bounded
  cases hstep with
  | push htime hpush =>
    refine ⟨hpush.maxSize.trans hmax, ?_, fun hpos => ?_⟩
    · rw [hpush.size, hpush.queue, hsize, List.length_append, List.length_singleton]
      push_cast
      rfl
    · have hfull := hpush.full
      rw [full, Bool.or_eq_false_iff, hmax, decide_eq_true hpos, Bool.true_and] at hfull
      have hroom := of_decide_eq_false hfull.2
      rw [hpush.size]
      omega
  | pop hqueue =>
    rw [hqueue, List.length_cons] at hsize
    refine ⟨hmax, by dsimp only; omega, fun hpos => ?_⟩
    have hle := hbounded hpos
    dsimp only
    omega
  | top => exact h
  | cycle => exact ⟨hmax, hsize, hbounded⟩

/-! ## Their intervals -/

/-- `n` cycles after a push with interval `i`, either it is still on, or it has been on for long
enough. -/
def Pacing (i n : Int) (q : TimedQueue α) : Prop :=
  (q.issued = false → max 1 i ≤ n) ∧
    (q.issued = true → q.interval = i - n ∧ (n = 0 ∨ 0 < q.interval))

theorem pacing_cycle {i n : Int} (hn : 0 ≤ n) (h : Pacing i n q) : Pacing i (n + 1) q.cycle := by
  obtain ⟨hover, hon⟩ := h
  rw [Pacing, cycle]
  cases hissued : q.issued with
  | false =>
    have hle := hover hissued
    exact ⟨fun _ => by omega, by simp⟩
  | true =>
    obtain ⟨hinterval, hpos⟩ := hon hissued
    dsimp only
    split_ifs with hleft hlast hlast
    · exact ⟨fun _ => by omega, nofun⟩
    · exact ⟨nofun, fun _ => by omega⟩
    · exact ⟨fun _ => by omega, nofun⟩
    · omega

/-- The last push, and the pushes before it. -/
structure Paced (j : Journal α) : Prop where
  onlyLatency : j.queue.onlyLatency = false
  last : ∀ p, j.pushes.getLast? = some p →
    ∃ i, p.interval = some i ∧ Pacing i ((j.time : Int) - p.time) j.queue
  spaced : ∀ k p p', j.pushes[k]? = some p → j.pushes[k + 1]? = some p' →
    ∃ i, p.interval = some i ∧ max 1 i ≤ (p'.time : Int) - p.time

theorem paced_step (hstored : Stored j) (h : Paced j) (hstep : Step j j') : Paced j' := by
  cases hstep with
  | @push p q' htime hpush =>
    obtain ⟨i, hi, hissued, hinterval⟩ := hpush.paced h.onlyLatency
    refine ⟨hpush.onlyLatency.trans h.onlyLatency, fun p' hp' => ?_, fun k p₁ p₂ hp₁ hp₂ => ?_⟩
    · rw [List.getLast?_concat] at hp'
      cases hp'
      refine ⟨i, hi, fun hnot => ?_, fun _ => ?_⟩
      · rw [hissued] at hnot
        cases hnot
      · dsimp only
        rw [hinterval]
        omega
    · dsimp only at hp₁ hp₂
      by_cases hlt : k + 1 < j.pushes.length
      · rw [List.getElem?_append_left (by omega)] at hp₁ hp₂
        exact h.spaced k p₁ p₂ hp₁ hp₂
      · have hk : k + 1 = j.pushes.length := by
          have hlength := (List.getElem?_eq_some_iff.mp hp₂).1
          rw [List.length_append, List.length_singleton] at hlength
          omega
        rw [hk, List.getElem?_concat_length] at hp₂
        cases hp₂
        rw [List.getElem?_append_left (by omega)] at hp₁
        have hlast : j.pushes.getLast? = some p₁ := by
          rw [List.getLast?_eq_getElem?, ← hk]
          exact hp₁
        obtain ⟨i₁, hi₁, hover, -⟩ := h.last p₁ hlast
        have hfree : j.queue.issued = false := (Bool.or_eq_false_iff.mp hpush.full).1
        exact ⟨i₁, hi₁, htime ▸ hover hfree⟩
  | pop hqueue => exact ⟨h.onlyLatency, h.last, h.spaced⟩
  | top => exact h
  | cycle =>
    refine ⟨h.onlyLatency, fun p hp => ?_, h.spaced⟩
    obtain ⟨i, hi, hpacing⟩ := h.last p hp
    have htime := hstored.times p (List.mem_of_getLast? hp)
    have hnext : ((j.time + 1 : Nat) : Int) - p.time = (j.time : Int) - p.time + 1 := by omega
    refine ⟨i, hi, ?_⟩
    dsimp only
    rw [hnext]
    exact pacing_cycle (by omega) hpacing

/-! ## Whole runs -/

/-- Whatever is called, as long as it is allowed, the queue is disciplined afterwards. -/
theorem disciplined_of_run {onlyLatency : Bool} {maxSize : Int} {cs : List (Call α)}
    (h : Run onlyLatency maxSize cs j) : Disciplined onlyLatency maxSize j := by
  have hinv : Stored j ∧ Sized maxSize j.queue ∧ (onlyLatency = false → Paced j) := by
    induction h with
    | nil =>
      refine ⟨⟨rfl, rfl, rfl, nofun⟩, ⟨rfl, rfl, fun hpos => hpos.le⟩, ?_⟩
      rintro rfl
      exact ⟨rfl, nofun, nofun⟩
    | call hrun hallowed hcall ih =>
      obtain ⟨hstored, hsized, hpaced⟩ := ih
      have hstep := step_of_call hallowed hcall
      exact ⟨stored_step hstored hstep, sized_step hsized hstep,
        fun honly => paced_step hstored (hpaced honly) hstep⟩
  obtain ⟨hstored, hsized, hpaced⟩ := hinv
  exact ⟨hstored.fifo, hstored.waited, hsized.size, hsized.bounded, fun honly =>
    (hpaced honly).spaced⟩

theorem exists_top (h : q.empty = false) : ∃ data, q.top = .ok data := by
  rw [top]
  split
  case h_1 hqueue =>
    rw [empty, hqueue] at h
    cases h
  case h_2 data finish rest hqueue => exact ⟨data, if_neg (Bool.eq_false_iff.mp h)⟩

/-- An allowed call returns, but for a push without an interval where one is wanted, and for more
elements than an `int` can count. -/
theorem exists_call (hallowed : j.queue.Allowed c)
    (honly : ∀ data delay, c = .push data delay → j.queue.onlyLatency = true)
    (hsize : j.queue.size + 1 < 2 ^ 31) : ∃ j', j.call c = .ok j' := by
  have henqueue (data : α) (delay : BitVec 32) : ∃ q', j.queue.enqueue data delay = .ok q' :=
    ⟨_, if_neg (not_le.mpr hsize)⟩
  cases c with
  | push data delay =>
    obtain ⟨q', hq'⟩ := henqueue data delay
    refine ⟨_, bind_eq_ok.mpr ⟨q', ?_, rfl⟩⟩
    rw [push, if_pos (honly data delay rfl), hq']
  | pushInterval data delay interval =>
    obtain ⟨q', hq'⟩ := henqueue data delay
    have hissued : j.queue.issued = false := (Bool.or_eq_false_iff.mp hallowed).1
    have hpush : ∃ q'', j.queue.pushInterval data delay interval = .ok q'' := by
      rw [pushInterval, hissued, hq']
      exact ⟨_, rfl⟩
    obtain ⟨q'', hq''⟩ := hpush
    exact ⟨_, bind_eq_ok.mpr ⟨q'', hq'', rfl⟩⟩
  | pop =>
    obtain ⟨data, hdata⟩ := exists_top hallowed
    exact ⟨_, bind_eq_ok.mpr ⟨data, hdata, bind_eq_ok.mpr
      ⟨_, if_neg (Bool.eq_false_iff.mp hallowed), rfl⟩⟩⟩
  | top =>
    obtain ⟨data, hdata⟩ := exists_top hallowed
    exact ⟨j, bind_eq_ok.mpr ⟨data, hdata, rfl⟩⟩
  | cycle => exact ⟨_, rfl⟩

/-- Two elements, the second one put in when the interval of the first one is over. -/
theorem disciplined_spaced : ∃ (cs : List (Call Nat)) (j : Journal Nat), Run false 2 cs j ∧
    j.popped = [7] ∧ j.queue.empty = false ∧ Disciplined false 2 j := by
  have hpush : Run false 2 [.pushInterval 7 3 2] _ :=
    .call (c := .pushInterval 7 3 2) (.nil (α := Nat)) rfl rfl
  have hwait := (hpush.call (c := .cycle) trivial rfl).call (c := .cycle) trivial rfl
  have hnext := hwait.call (c := .pushInterval 8 1 1) rfl rfl
  have hpop := (hnext.call (c := .cycle) trivial rfl).call (c := .pop) rfl rfl
  exact ⟨_, _, hpop, rfl, rfl, disciplined_of_run hpop⟩

theorem run_cycles (onlyLatency : Bool) (maxSize : Int) (n : Nat) :
    ∃ cs : List (Call α), Run onlyLatency maxSize cs
      ⟨{ create onlyLatency maxSize with clock := .ofNat 64 n }, [], [], n⟩ := by
  induction n with
  | zero => exact ⟨[], .nil⟩
  | succ n ih =>
    obtain ⟨cs, hrun⟩ := ih
    refine ⟨cs ++ [.cycle], .call (c := .cycle) hrun trivial ?_⟩
    rw [BitVec.ofNat_add]
    rfl

/-- In the last cycle of the clock a delay is over at once. -/
theorem early_in_last_cycle : ∃ (cs : List (Call Unit)) (j : Journal Unit), Run false (-1) cs j ∧
    j.queue.empty = false ∧ ∃ p, j.pushes[j.popped.length]? = some p ∧
      (j.time : Int) - p.time < p.delay := by
  obtain ⟨cs, hrun⟩ := run_cycles (α := Unit) false (-1) (2 ^ 64 - 1)
  refine ⟨cs ++ [.pushInterval () 1 1], _, .call (c := .pushInterval () 1 1) hrun rfl rfl, ?_, _,
    rfl, ?_⟩
  · decide
  · dsimp only
    rw [Int.sub_self]
    decide

/-! ## Latency queues -/

/-- A latency queue, as the caches use it, while its clock does not wrap. -/
structure Represents (q : TimedQueue α) (a : DelayQueue α) : Prop where
  entries : q.queue = a.entries.map fun e => (e.1, .ofNat 64 e.2)
  finish_lt : ∀ e ∈ a.entries, e.2 < 2 ^ 64
  clock : q.clock = .ofNat 64 a.now
  now_lt : a.now < 2 ^ 64
  size : q.size = a.entries.length
  maxSize : q.maxSize = a.maxSize
  onlyLatency : q.onlyLatency = true
  issued : q.issued = false

variable {a : DelayQueue α}

theorem represents_create (maxSize : Nat) :
    Represents (create true maxSize : TimedQueue α) (DelayQueue.create maxSize) :=
  ⟨rfl, nofun, rfl, Nat.two_pow_pos 64, rfl, rfl, rfl, rfl⟩

theorem Represents.full (h : Represents q a) : q.full = a.full := by
  rw [TimedQueue.full, DelayQueue.full, h.issued, h.maxSize, h.size, Bool.false_or]
  simp only [Int.natCast_pos, Int.ofNat_le]

theorem Represents.push (h : Represents q a) (hdelay : 0 ≤ delay.toInt)
    (hclock : a.now + delay.toInt.toNat < 2 ^ 64) (hpush : q.push data delay = .ok q') :
    Represents q' (a.push data delay.toInt.toNat) := by
  rw [TimedQueue.push, if_pos h.onlyLatency] at hpush
  obtain rfl := enqueue_eq_ok hpush
  have hfinish : q.clock + delay.signExtend 64 = .ofNat 64 (a.now + delay.toInt.toNat) := by
    have hofNat : delay.signExtend 64 = .ofNat 64 delay.toInt.toNat := by
      rw [← BitVec.ofInt_natCast, Int.toNat_of_nonneg hdelay]
      rfl
    rw [h.clock, BitVec.ofNat_add, hofNat]
  refine ⟨?_, fun e he => ?_, h.clock, h.now_lt, ?_, h.maxSize, h.onlyLatency, h.issued⟩
  · rw [DelayQueue.push, List.map_append, ← h.entries, hfinish]
    rfl
  · obtain he | he := List.mem_append.mp he
    · exact h.finish_lt e he
    · rw [List.mem_singleton.mp he]
      exact hclock
  · rw [DelayQueue.push, List.length_append, List.length_singleton, h.size]
    push_cast
    rfl

theorem Represents.cycle (h : Represents q a) (hclock : a.now + 1 < 2 ^ 64) :
    Represents q.cycle a.cycle := by
  refine ⟨h.entries, h.finish_lt, ?_, hclock, h.size, h.maxSize, h.onlyLatency, ?_⟩
  · rw [TimedQueue.cycle, h.clock, DelayQueue.cycle, BitVec.ofNat_add]
    rfl
  · rw [TimedQueue.cycle, h.issued, ite_self]

/-- The two show the same element. -/
theorem Represents.top (h : Represents q a) : q.top.toOption = a.top? := by
  have hentries := h.entries
  rw [TimedQueue.top, DelayQueue.top?]
  cases ha : a.entries with
  | nil =>
    rw [ha] at hentries
    rw [hentries]
    rfl
  | cons e rest =>
    rw [ha] at hentries
    have hlt := h.finish_lt e (ha ▸ List.mem_cons_self)
    have hnow := h.now_lt
    have hready : q.empty = decide (a.now < e.2) := by
      rw [empty, hentries, List.map_cons, h.clock]
      refine decide_eq_decide.mpr ?_
      rw [BitVec.lt_def, BitVec.toNat_ofNat, BitVec.toNat_ofNat, Nat.mod_eq_of_lt hnow,
        Nat.mod_eq_of_lt hlt]
    rw [hentries, List.map_cons]
    dsimp only
    rw [hready]
    by_cases hwait : a.now < e.2
    · simp [hwait, Except.toOption]
    · simp [hwait, Except.toOption]

theorem Represents.pop (h : Represents q a) (hpop : q.pop = .ok q') : Represents q' a.pop := by
  rw [TimedQueue.pop] at hpop
  split at hpop
  case isTrue => cases hpop
  case isFalse hempty =>
    cases hpop
    refine ⟨?_, fun e he => h.finish_lt e (List.mem_of_mem_tail he), h.clock, h.now_lt, ?_,
      h.maxSize, h.onlyLatency, h.issued⟩
    · rw [DelayQueue.pop, h.entries, List.map_tail]
    · have hne : a.entries ≠ [] := by
        intro hnil
        rw [empty, h.entries, hnil] at hempty
        exact hempty rfl
      have hpos := List.length_pos_iff.mpr hne
      rw [DelayQueue.pop, List.length_tail]
      dsimp only
      rw [h.size]
      omega

end TimedQueue

end NdpSim
