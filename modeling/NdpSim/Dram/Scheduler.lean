import Mathlib.Data.Prod.Lex
import Mathlib.Data.List.Basic

/-!
# Which request is scheduled

The policies of the memory scheduler, over what the controller tells it about each request of a
queue.
-/
namespace NdpSim

/-- What the scheduler asks about a request: `is_ready`, `is_row_hit`, `is_row_open`, the numbers of
its bank, `get_hits`, and when it arrived. -/
structure Candidate where
  ready : Bool
  hit : Bool
  rowOpen : Bool
  rowgroup : List Int
  hits : Nat
  arrive : Int

inductive SchedulerType
  | fcfs | frfcfs | frfcfsCap | frfcfsPriorHit
  deriving DecidableEq

namespace SchedulerType

/-- What a policy calls ready. -/
def prefers (cap : Nat) (c : Candidate) : SchedulerType → Bool
  | fcfs => false
  | frfcfs => c.ready
  | frfcfsCap => c.ready && c.hits ≤ cap
  | frfcfsPriorHit => c.ready && c.hit

variable (type : SchedulerType) (cap : Nat)

/-- `compare`, of two requests with their places in the queue. -/
def compare (req1 req2 : Candidate × Nat) : Candidate × Nat :=
  let ready1 := type.prefers cap req1.1
  let ready2 := type.prefers cap req2.1
  if ready1 ^^ ready2 then
    if ready1 then req1 else req2
  else if req1.1.arrive ≤ req2.1.arrive then req1 else req2

def first : List (Candidate × Nat) → Option (Candidate × Nat)
  | [] => none
  | head :: q => some (q.foldl (type.compare cap) head)

end SchedulerType

/-- Its next command is a `PRE` that closes a row which another request hits. -/
def Candidate.violatesHit (hitReqs : List (List Int)) (c : Candidate) : Bool :=
  !c.hit && c.rowOpen && c.rowgroup ∈ hitReqs

def hitReqs (q : List Candidate) : List (List Int) := (q.filter (·.hit)).map (·.rowgroup)

/-- A step of the last loop, for a request that closes no such row. -/
def better (cap : Nat) (head : Option (Candidate × Nat)) (itr : Candidate × Nat) :
    Option (Candidate × Nat) :=
  match head with
  | none => some itr
  | some head => some (SchedulerType.frfcfs.compare cap head itr)

/-- `get_head`: a place in the queue. -/
def getHead (type : SchedulerType) (cap : Nat) (q : List Candidate) : Option Nat :=
  if type ≠ .frfcfsPriorHit then (type.first cap q.zipIdx).map Prod.snd
  else match type.first cap q.zipIdx with
    | none => none
    | some head =>
      if head.1.ready && head.1.hit then some head.2
      else
        let head := q.zipIdx.foldl (fun head itr =>
          if itr.1.violatesHit (hitReqs q) then head else better cap head itr) none
        head.map Prod.snd

/-! ## The first request of a policy -/

namespace SchedulerType

variable {type : SchedulerType} {cap : Nat} {a b m : Candidate × Nat} {l : List (Candidate × Nat)}

/-- What is preferred comes first, then what arrived first, then what is first in the queue. -/
def rank (type : SchedulerType) (cap : Nat) (a : Candidate × Nat) : Bool ×ₗ Int ×ₗ Nat :=
  toLex (!type.prefers cap a.1, toLex (a.1.arrive, a.2))

theorem rank_le_iff : type.rank cap a ≤ type.rank cap b ↔
    (type.prefers cap a.1 = true ∧ type.prefers cap b.1 = false) ∨
      type.prefers cap a.1 = type.prefers cap b.1 ∧
        (a.1.arrive < b.1.arrive ∨ a.1.arrive = b.1.arrive ∧ a.2 ≤ b.2) := by
  rw [rank, rank, Prod.Lex.toLex_le_toLex, Prod.Lex.toLex_le_toLex]
  cases type.prefers cap a.1 <;> cases type.prefers cap b.1 <;> simp

theorem compare_eq (type : SchedulerType) (cap : Nat) (hab : a.2 < b.2) :
    type.compare cap a b = if type.rank cap a ≤ type.rank cap b then a else b := by
  have hle : a.2 ≤ b.2 := hab.le
  simp only [compare, rank_le_iff]
  cases ha : type.prefers cap a.1 <;> cases hb : type.prefers cap b.1 <;>
    simp [hle, ← le_iff_lt_or_eq]

theorem compare_mem (type : SchedulerType) (cap : Nat) (a b : Candidate × Nat) :
    type.compare cap a b = a ∨ type.compare cap a b = b := by
  unfold compare
  dsimp only
  split_ifs <;> simp

theorem first_eq_some (hl : l.Pairwise fun a b => a.2 < b.2) (hm : type.first cap l = some m) :
    m ∈ l ∧ ∀ a ∈ l, type.rank cap m ≤ type.rank cap a := by
  cases l with
  | nil => cases hm
  | cons head q =>
    obtain rfl := Option.some.inj hm
    clear hm
    induction q generalizing head with
    | nil => simp
    | cons b q ih =>
      obtain ⟨hhead, hq⟩ := List.pairwise_cons.mp hl
      obtain ⟨hb, hq'⟩ := List.pairwise_cons.mp hq
      have hlt : head.2 < b.2 := hhead b (List.mem_cons_self ..)
      have hcomp := compare_eq type cap hlt
      have hnext : (type.compare cap head b :: q).Pairwise fun a b => a.2 < b.2 := by
        refine List.pairwise_cons.mpr ⟨fun c hc => ?_, hq'⟩
        obtain h | h := compare_mem type cap head b
        · rw [h]
          exact hhead c (List.mem_cons_of_mem _ hc)
        · rw [h]
          exact hb c hc
      obtain ⟨hmem, hmin⟩ := ih _ hnext
      have hfirst := hmin _ (List.mem_cons_self ..)
      have hle : type.rank cap (type.compare cap head b) ≤ type.rank cap head ∧
          type.rank cap (type.compare cap head b) ≤ type.rank cap b := by
        rw [hcomp]
        split
        case isTrue h => exact ⟨le_rfl, h⟩
        case isFalse h => exact ⟨(not_le.mp h).le, le_rfl⟩
      constructor
      · obtain hm | hm := List.mem_cons.mp hmem
        · rw [List.foldl_cons, hm]
          obtain h | h := compare_mem type cap head b <;> simp [h]
        · exact List.mem_cons_of_mem _ (List.mem_cons_of_mem _ hm)
      · intro a ha
        obtain rfl | ha := List.mem_cons.mp ha
        · exact hfirst.trans hle.1
        · obtain rfl | ha := List.mem_cons.mp ha
          · exact hfirst.trans hle.2
          · exact hmin a (List.mem_cons_of_mem _ ha)

theorem first_eq_none : type.first cap l = none ↔ l = [] := by
  cases l <;> simp [first]

end SchedulerType

/-! ## What the head of the queue is -/

variable {cap i : Nat} {q : List Candidate}

theorem mem_zipIdx {c : Candidate} : (c, i) ∈ q.zipIdx ↔ q[i]? = some c := by
  rw [List.mk_mem_zipIdx_iff_getElem?]

theorem pairwise_zipIdx (q : List Candidate) : q.zipIdx.Pairwise fun a b => a.2 < b.2 := by
  rw [← List.pairwise_map, List.zipIdx_map_snd]
  exact List.pairwise_lt_range'

theorem foldl_better (l : List (Candidate × Nat)) :
    l.foldl (better cap) none = SchedulerType.frfcfs.first cap l := by
  have hsome : ∀ (q : List (Candidate × Nat)) (head : Candidate × Nat),
      q.foldl (better cap) (some head) =
        some (q.foldl (SchedulerType.frfcfs.compare cap) head) := by
    intro q
    induction q with
    | nil => exact fun _ => rfl
    | cons b q ih => exact fun head => ih _
  cases l with
  | nil => rfl
  | cons head q => exact hsome q head

/-- The last loop takes the first of those that do not close a row another one hits. -/
theorem last_loop (hits : List (List Int)) (l : List (Candidate × Nat)) :
    l.foldl (fun head itr => if itr.1.violatesHit hits then head else better cap head itr) none =
      SchedulerType.frfcfs.first cap (l.filter fun itr => !itr.1.violatesHit hits) := by
  rw [← foldl_better, List.foldl_filter]
  congr 1
  funext head itr
  cases itr.1.violatesHit hits <;> rfl

/-- Nothing is held back where nothing is hit, and what hits is not held back. -/
theorem exists_not_violatesHit (hq : q ≠ []) :
    ∃ itr ∈ q.zipIdx, itr.1.violatesHit (hitReqs q) = false := by
  have hidx : ∀ c ∈ q, ∃ i, (c, i) ∈ q.zipIdx := by
    intro c hc
    obtain ⟨i, hi⟩ := List.mem_iff_getElem?.mp hc
    exact ⟨i, mem_zipIdx.mpr hi⟩
  by_cases hhit : ∃ c ∈ q, c.hit = true
  · obtain ⟨c, hc, hhit⟩ := hhit
    obtain ⟨i, hi⟩ := hidx c hc
    exact ⟨(c, i), hi, by simp [Candidate.violatesHit, hhit]⟩
  · obtain ⟨c, hc⟩ := List.exists_mem_of_ne_nil q hq
    obtain ⟨i, hi⟩ := hidx c hc
    have hnil : hitReqs q = [] := by
      rw [hitReqs, List.map_eq_nil_iff, List.filter_eq_nil_iff]
      exact fun c hc h => hhit ⟨c, hc, h⟩
    exact ⟨(c, i), hi, by simp [Candidate.violatesHit, hnil]⟩

/-- Before `j`, or arrived earlier. -/
def Candidate.Before (c : Candidate) (i : Nat) (c' : Candidate) (j : Nat) : Prop :=
  c.arrive < c'.arrive ∨ c.arrive = c'.arrive ∧ i ≤ j

theorem before_of_rank {type : SchedulerType} {a b : Candidate × Nat}
    (h : type.rank cap a ≤ type.rank cap b) : (type.prefers cap b.1 → type.prefers cap a.1) ∧
      (type.prefers cap a.1 = type.prefers cap b.1 → a.1.Before a.2 b.1 b.2) := by
  rw [SchedulerType.rank_le_iff] at h
  obtain ⟨ha, hb⟩ | ⟨heq, hbefore⟩ := h
  · exact ⟨fun _ => ha, fun heq => by simp [ha, hb] at heq⟩
  · exact ⟨fun hb => heq.trans hb, fun _ => hbefore⟩

/-- A row hit is ready. -/
def SomeReadyHit (q : List Candidate) : Prop := ∃ c ∈ q, c.ready = true ∧ c.hit = true

/-- The loops of `get_head`: the second one is only for queues without a row hit that is ready. -/
theorem getHead_cases (cap : Nat) (hq : q ≠ []) : ∃ head,
    getHead .frfcfsPriorHit cap q = some head.2 ∧
    ((SomeReadyHit q ∧ (head.1.ready = true ∧ head.1.hit = true) ∧
        SchedulerType.frfcfsPriorHit.first cap q.zipIdx = some head) ∨
      ¬ SomeReadyHit q ∧ SchedulerType.frfcfs.first cap
        (q.zipIdx.filter fun itr => !itr.1.violatesHit (hitReqs q)) = some head) := by
  rw [getHead, if_neg (by simp)]
  cases hfirst : SchedulerType.frfcfsPriorHit.first cap q.zipIdx with
  | none => exact absurd (List.zipIdx_eq_nil_iff.mp (SchedulerType.first_eq_none.mp hfirst)) hq
  | some head =>
    obtain ⟨hmem, hmin⟩ := SchedulerType.first_eq_some (pairwise_zipIdx q) hfirst
    dsimp only
    by_cases hready : (head.1.ready && head.1.hit) = true
    · rw [if_pos hready]
      rw [Bool.and_eq_true] at hready
      have hin : head.1 ∈ q := List.mem_of_getElem? (mem_zipIdx.mp hmem)
      exact ⟨head, rfl, .inl ⟨⟨head.1, hin, hready⟩, hready, rfl⟩⟩
    · rw [if_neg hready, last_loop]
      obtain ⟨itr, hitr, hkeep⟩ := exists_not_violatesHit hq
      have hne : q.zipIdx.filter (fun itr => !itr.1.violatesHit (hitReqs q)) ≠ [] :=
        List.ne_nil_of_mem (List.mem_filter.mpr ⟨hitr, by rw [hkeep]; rfl⟩)
      obtain ⟨last, hlast⟩ := Option.ne_none_iff_exists'.mp
        (mt SchedulerType.first_eq_none.mp hne : SchedulerType.frfcfs.first cap _ ≠ none)
      rw [hlast]
      refine ⟨last, rfl, .inr ⟨?_, rfl⟩⟩
      rintro ⟨c, hc, hr, hh⟩
      obtain ⟨j, hj⟩ := List.mem_iff_getElem?.mp hc
      have hrank := before_of_rank (hmin _ (mem_zipIdx.mpr hj))
      exact hready (hrank.1 (by simp [SchedulerType.prefers, hr, hh]))

/-- A request is found unless the queue is empty. It is the first of the row hits that are ready,
or, if there are none, of all that do not close a row which another request hits, those that are
ready before the others. A row that a request hits is never closed. -/
theorem getHead_priorHit (cap : Nat) (q : List Candidate) :
    (getHead .frfcfsPriorHit cap q = none ↔ q = []) ∧
    ∀ i, getHead .frfcfsPriorHit cap q = some i → ∃ c, q[i]? = some c ∧
      (SomeReadyHit q → (c.ready ∧ c.hit) ∧
        ∀ j c', q[j]? = some c' → c'.ready → c'.hit → c.Before i c' j) ∧
      (¬ SomeReadyHit q → ∀ j c', q[j]? = some c' →
        c'.violatesHit (hitReqs q) = false → (c'.ready → c.ready) ∧
          (c.ready = c'.ready → c.Before i c' j)) ∧
      ∀ c' ∈ q, c'.hit → c'.rowgroup = c.rowgroup → c.rowOpen → c.hit := by
  by_cases hq : q = []
  · subst hq
    exact ⟨iff_of_true rfl rfl, fun i h => by cases h⟩
  · obtain ⟨head, hget, hcase⟩ := getHead_cases cap hq
    rw [hget]
    refine ⟨by simp [hq], fun i hi => ?_⟩
    obtain rfl := Option.some.inj hi
    obtain ⟨hsome, hready, hfirst⟩ | ⟨hnone, hfirst⟩ := hcase
    · obtain ⟨hmem, hmin⟩ := SchedulerType.first_eq_some (pairwise_zipIdx q) hfirst
      refine ⟨head.1, mem_zipIdx.mp hmem, fun _ => ⟨hready, ?_⟩, fun h => absurd hsome h,
        fun _ _ _ _ _ => hready.2⟩
      intro j c' hj hr hh
      refine (before_of_rank (hmin _ (mem_zipIdx.mpr hj))).2 ?_
      simp [SchedulerType.prefers, hready, hr, hh]
    · obtain ⟨hmem, hmin⟩ :=
        SchedulerType.first_eq_some ((pairwise_zipIdx q).filter _) hfirst
      obtain ⟨hmem, hkeep⟩ := List.mem_filter.mp hmem
      refine ⟨head.1, mem_zipIdx.mp hmem, fun h => absurd h hnone, fun _ j c' hj hno => ?_, ?_⟩
      · exact before_of_rank (hmin _ (List.mem_filter.mpr ⟨mem_zipIdx.mpr hj, by rw [hno]; rfl⟩))
      · intro c' hc' hhit hgroup hopen
        by_contra hmiss
        have hin : head.1.rowgroup ∈ hitReqs q := by
          rw [← hgroup]
          exact List.mem_map_of_mem (List.mem_filter.mpr ⟨hc', hhit⟩)
        simp [Candidate.violatesHit, hmiss, hopen, hin] at hkeep

end NdpSim
