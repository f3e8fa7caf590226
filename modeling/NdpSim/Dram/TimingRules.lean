import NdpSim.Dram.Lpddr5
import NdpSim.Library.Loops

/-!
# What a command waits for

The clocks of a tree are read off the commands that were issued: a node takes a command when all
that the timing table of its level makes it wait for has passed, and not before.
-/
namespace NdpSim

open Library

variable {C S : Type} [DecidableEq C]

/-- A command that was issued, and when. -/
structure IssuedCmd (C : Type) where
  cmd : C
  addr : AddrVec
  clk : Int

/-! ## The table and the history -/

/-- A command is for a node, for another child of its parent, or does not get that far down. -/
inductive Reach
  | target | sibling | beyond
  deriving DecidableEq

/-- From a node of that level and number down to the end of the path. -/
def AddrVec.reach (addr : AddrVec) : Nat → Int → List Nat → Reach
  | level, id, [] => if id ≠ addr.idx level then .sibling else .target
  | level, id, i :: path => if id ≠ addr.idx level then .beyond else addr.reach (level + 1) i path

/-- When commands `p` reached the node at a path in a given way, the last one first. -/
def timesOf (root : Int) (path : List Nat) (r : Reach) (h : List (IssuedCmd C)) (p : C) :
    List Int :=
  (h.filter fun i => i.cmd = p ∧ i.addr.reach 0 root path = r).map IssuedCmd.clk

/-- The table makes `c` wait until `b` at the node at the end of the path. The commands issued so
far are given with the last one first. -/
def WaitsUntil (T : TimingTable C) (root : Int) (path : List Nat) (h : List (IssuedCmd C)) (c : C)
    (b : Int) : Prop :=
  ∃ p, ∃ t ∈ T.timing path.length p, t.cmd = c ∧
    (t.sibling = true ∧ (∃ past ∈ timesOf root path .sibling h p, b = past + t.val) ∨
      t.sibling = false ∧
        ∃ past ∈ (timesOf root path .target h p).drop (t.dist - 1), b = past + t.val)

/-! ## Delays -/

namespace Clocks

variable {k : Clocks C} {T : TimingTable C} {level : Nat} {cmd c : C} {clk : Int}

/-- Several delays, one after the other. -/
def delays (k : Clocks C) (l : List (C × Int)) : Clocks C :=
  l.foldl (fun k e => k.delay e.1 e.2) k

@[simp] theorem prev_delays (k : Clocks C) (l : List (C × Int)) : (k.delays l).prev = k.prev := by
  induction l generalizing k with
  | nil => rfl
  | cons e l ih => exact ih (k.delay e.1 e.2)

theorem next_le_next_delay (k : Clocks C) (cmd c : C) (future : Int) :
    k.next c ≤ (k.delay cmd future).next c := by
  by_cases hc : c = cmd
  · subst hc
    simp [delay]
  · simp [delay, hc]

theorem next_le_next_delays (k : Clocks C) (l : List (C × Int)) (c : C) :
    k.next c ≤ (k.delays l).next c := by
  induction l generalizing k with
  | nil => exact le_rfl
  | cons e l ih => exact (next_le_next_delay k e.1 c e.2).trans (ih _)

theorem le_next_delays {l : List (C × Int)} {future : Int} (h : (c, future) ∈ l) :
    future ≤ (k.delays l).next c := by
  induction l generalizing k with
  | nil => cases h
  | cons e l ih =>
    obtain rfl | h := List.mem_cons.mp h
    · refine le_trans ?_ (next_le_next_delays _ l c)
      simp [delay]
    · exact ih h

theorem next_delays (k : Clocks C) (l : List (C × Int)) (c : C) :
    (k.delays l).next c = k.next c ∨ (c, (k.delays l).next c) ∈ l := by
  induction l generalizing k with
  | nil => exact .inl rfl
  | cons e l ih =>
    obtain heq | hmem := ih (k.delay e.1 e.2)
    · change (k.delays (e :: l)).next c = _ at heq
      rw [heq]
      by_cases hc : c = e.1
      · subst hc
        rcases max_choice (k.next e.1) e.2 with hmax | hmax <;> simp [delay, hmax]
      · simp [delay, hc]
    · exact .inr (List.mem_cons_of_mem _ hmem)

/-- The delays of a node that a command is for. -/
def futures (T : TimingTable C) (level : Nat) (prev : List Int) (cmd : C) : List (C × Int) :=
  ((T.timing level cmd).filter (!·.sibling)).filterMap fun t =>
    let past := prev.getD (t.dist - 1) (-1)
    if past < 0 then none else some (t.cmd, past + t.val)

@[simp] theorem next_remember (k : Clocks C) (cmd : C) (clk : Int) :
    (k.remember cmd clk).next = k.next := by
  unfold remember
  split <;> rfl

/-- What a command that reaches a node in that way does to its clocks. -/
def seen (T : TimingTable C) (level : Nat) (k : Clocks C) (r : Reach) (cmd : C) (clk : Int) :
    Clocks C :=
  match r with
  | .target => (k.remember cmd clk).delays (futures T level ((k.remember cmd clk).prev cmd) cmd)
  | .sibling =>
    k.delays (((T.timing level cmd).filter (·.sibling)).map fun t => (t.cmd, clk + t.val))
  | .beyond => k

theorem eq_seen_of_sibling {k' : Clocks C} (h : k.sibling T level cmd clk = .ok k') :
    k' = k.seen T level .sibling cmd clk := by
  rw [sibling] at h
  rw [seen]
  generalize (T.timing level cmd).filter (·.sibling) = l at h ⊢
  induction l generalizing k with
  | nil => exact (Except.ok.inj h).symm
  | cons t l ih =>
    rw [List.foldlM_cons] at h
    split at h
    · exact ih h
    · cases h

theorem eq_seen_of_target {k' : Clocks C} (h : k.target T level cmd clk = .ok k') :
    k' = k.seen T level .target cmd clk := by
  rw [target] at h
  rw [seen, futures]
  generalize k.remember cmd clk = k at h ⊢
  generalize (T.timing level cmd).filter (!·.sibling) = l at h ⊢
  generalize hprev : k.prev cmd = prev
  induction l generalizing k with
  | nil => exact (Except.ok.inj h).symm
  | cons t l ih =>
    simp only [List.foldlM_cons, hprev] at h
    simp only [List.filterMap_cons]
    split at h
    case isTrue hneg =>
      rw [if_pos hneg]
      exact ih _ h hprev
    case isFalse hneg =>
      rw [if_neg hneg]
      split at h
      · cases h
      · exact ih _ h hprev

end Clocks

/-! ## The assertions on the table -/

/-- Siblings wait for the last command only, and so does the opening of a row after a refresh. -/
structure TimingTable.Immediate (T : TimingTable C) : Prop where
  sibling : ∀ level cmd, ∀ t ∈ T.timing level cmd, t.sibling = true → t.dist = 1
  refresh : ∀ level cmd, T.isRefreshing cmd = true → ∀ t ∈ T.timing level cmd,
    T.isOpening t.cmd = true → t.dist = 1

namespace Clocks

variable {k : Clocks C} {T : TimingTable C} {level : Nat} {cmd : C} {clk : Int}

theorem sibling_isOk (hT : T.Immediate) (k : Clocks C) :
    ∃ k', k.sibling T level cmd clk = .ok k' := by
  have hall : ∀ t ∈ (T.timing level cmd).filter (·.sibling), t.dist = 1 := by
    intro t ht
    obtain ⟨ht, hs⟩ := List.mem_filter.mp ht
    exact hT.sibling level cmd t ht hs
  rw [sibling]
  generalize (T.timing level cmd).filter (·.sibling) = l at hall ⊢
  induction l generalizing k with
  | nil => exact ⟨k, rfl⟩
  | cons t l ih =>
    obtain ⟨hdist, hall⟩ := List.forall_mem_cons.mp hall
    rw [List.foldlM_cons, if_pos hdist]
    exact ih _ hall

/-- The last command that the node remembers is the one that it was just given. -/
theorem target_isOk (hT : T.Immediate) (k : Clocks C) :
    ∃ k', k.target T level cmd clk = .ok k' := by
  have hlast : (k.remember cmd clk).prev cmd = [] ∨
      ∃ prev, (k.remember cmd clk).prev cmd = clk :: prev := by
    unfold remember
    split
    case isTrue hempty => exact .inl (List.isEmpty_iff.mp hempty)
    case isFalse => exact .inr ⟨_, Function.update_self ..⟩
  have hall : ∀ t ∈ (T.timing level cmd).filter (!·.sibling),
      T.isRefreshing cmd = true → T.isOpening t.cmd = true → t.dist = 1 := by
    intro t ht hrefresh hopen
    exact hT.refresh level cmd hrefresh t (List.mem_filter.mp ht).1 hopen
  rw [target]
  generalize (T.timing level cmd).filter (!·.sibling) = l at hall ⊢
  generalize k.remember cmd clk = k at hlast ⊢
  induction l generalizing k with
  | nil => exact ⟨k, rfl⟩
  | cons t l ih =>
    obtain ⟨hdist, hall⟩ := List.forall_mem_cons.mp hall
    simp only [List.foldlM_cons]
    split
    · exact ih hall k hlast
    case isFalse hpast =>
      rw [if_neg]
      · exact ih hall _ hlast
      · rintro ⟨hrefresh, hopen, hne⟩
        rw [hdist hrefresh hopen] at hpast hne
        obtain hnil | ⟨prev, hcons⟩ := hlast
        · simp [hnil] at hpast
        · simp [hcons] at hne

end Clocks

/-! ## The clocks of a node and its history -/

variable {T : TimingTable C} {root : Int} {path : List Nat} {h : List (IssuedCmd C)}
  {i : IssuedCmd C} {k : Clocks C} {c : C} {b : Int}

/-- The clocks say of the history what the table says. -/
structure Clocks.Tells (T : TimingTable C) (root : Int) (path : List Nat) (h : List (IssuedCmd C))
    (k : Clocks C) : Prop where
  prev : ∀ p, k.prev p = (timesOf root path .target h p ++
    List.replicate (Clocks.historyLength T path.length p) (-1)).take
      (Clocks.historyLength T path.length p)
  waits : ∀ c b, WaitsUntil T root path h c b → b ≤ k.next c
  only : ∀ c, k.next c = -1 ∨ WaitsUntil T root path h c (k.next c)

theorem Clocks.tells_create (T : TimingTable C) (root : Int) (path : List Nat) :
    (Clocks.create T path.length).Tells T root path [] := by
  constructor
  case prev =>
    intro p
    simp [timesOf, Clocks.create]
  case waits =>
    rintro c b ⟨p, t, -, -, ⟨-, past, hpast, -⟩ | ⟨-, past, hpast, -⟩⟩ <;> simp [timesOf] at hpast
  case only => exact fun c => .inl rfl

omit [DecidableEq C] in
theorem dist_le_historyLength {level : Nat} {p : C} {t : TimingEntry C}
    (ht : t ∈ T.timing level p) : t.dist ≤ Clocks.historyLength T level p := by
  have hfold : ∀ (l : List (TimingEntry C)) (d : Nat),
      d ≤ l.foldl (fun d t => max d t.dist) d ∧
      ∀ t ∈ l, t.dist ≤ l.foldl (fun d t => max d t.dist) d := by
    intro l
    induction l with
    | nil => exact fun d => ⟨le_rfl, by simp⟩
    | cons s l ih =>
      intro d
      obtain ⟨hle, hall⟩ := ih (max d s.dist)
      refine ⟨(le_max_left d s.dist).trans hle, fun t ht => ?_⟩
      obtain rfl | ht := List.mem_cons.mp ht
      · exact (le_max_right d t.dist).trans hle
      · exact hall t ht
  exact (hfold _ 0).2 t ht

theorem timesOf_cons_of_ne {r : Reach} {p : C}
    (hne : ¬ (i.cmd = p ∧ i.addr.reach 0 root path = r)) :
    timesOf root path r (i :: h) p = timesOf root path r h p := by
  simp [timesOf, hne]

theorem timesOf_cons_of_eq {r : Reach} (hr : i.addr.reach 0 root path = r) :
    timesOf root path r (i :: h) i.cmd = i.clk :: timesOf root path r h i.cmd := by
  simp [timesOf, hr]

/-- An older history makes a command wait no longer. -/
theorem WaitsUntil.cons (hw : WaitsUntil T root path h c b) (i : IssuedCmd C) :
    WaitsUntil T root path (i :: h) c b := by
  obtain ⟨p, t, ht, hc, ⟨hs, past, hpast, rfl⟩ | ⟨hs, past, hpast, rfl⟩⟩ := hw
  · refine ⟨p, t, ht, hc, .inl ⟨hs, past, ?_, rfl⟩⟩
    by_cases hi : i.cmd = p ∧ i.addr.reach 0 root path = .sibling
    · obtain ⟨rfl, hr⟩ := hi
      rw [timesOf_cons_of_eq hr]
      exact List.mem_cons_of_mem _ hpast
    · rwa [timesOf_cons_of_ne hi]
  · refine ⟨p, t, ht, hc, .inr ⟨hs, past, ?_, rfl⟩⟩
    by_cases hi : i.cmd = p ∧ i.addr.reach 0 root path = .target
    · obtain ⟨rfl, hr⟩ := hi
      rw [timesOf_cons_of_eq hr]
      obtain ⟨d, hd⟩ : ∃ d, t.dist = d + 1 := ⟨t.dist - 1, by have := t.dist_pos; omega⟩
      rw [hd, Nat.add_sub_cancel] at hpast ⊢
      cases d with
      | zero => exact List.mem_cons_of_mem _ hpast
      | succ d => exact List.mem_of_mem_drop (by simpa [List.drop_drop] using hpast)
    · rwa [timesOf_cons_of_ne hi]

theorem WaitsUntil.of_cons_beyond (hr : i.addr.reach 0 root path = .beyond)
    (hw : WaitsUntil T root path (i :: h) c b) : WaitsUntil T root path h c b := by
  have hsame : ∀ r, r ≠ .beyond → ∀ p, timesOf root path r (i :: h) p = timesOf root path r h p :=
    fun r hne p => timesOf_cons_of_ne fun heq => hne (heq.2.symm.trans hr)
  obtain ⟨p, t, ht, hc, hcase⟩ := hw
  rw [hsame .sibling (by decide), hsame .target (by decide)] at hcase
  exact ⟨p, t, ht, hc, hcase⟩

namespace Clocks.Tells

theorem beyond (hk : k.Tells T root path h) (hr : i.addr.reach 0 root path = .beyond) :
    k.Tells T root path (i :: h) := by
  constructor
  case prev =>
    intro p
    rw [timesOf_cons_of_ne fun heq => absurd (heq.2.symm.trans hr) (by decide)]
    exact hk.prev p
  case waits => exact fun c b hw => hk.waits c b (hw.of_cons_beyond hr)
  case only => exact fun c => (hk.only c).imp_right fun hw => hw.cons i

theorem sibling (hk : k.Tells T root path h) (hr : i.addr.reach 0 root path = .sibling) :
    (k.seen T path.length .sibling i.cmd i.clk).Tells T root path (i :: h) := by
  have htarget : ∀ p, timesOf root path .target (i :: h) p = timesOf root path .target h p :=
    fun p => timesOf_cons_of_ne fun heq => absurd (heq.2.symm.trans hr) (by decide)
  rw [Clocks.seen]
  constructor
  case prev =>
    intro p
    rw [htarget, prev_delays]
    exact hk.prev p
  case waits =>
    rintro c b ⟨p, t, ht, rfl, ⟨hs, past, hpast, rfl⟩ | ⟨hs, past, hpast, rfl⟩⟩
    · by_cases hp : i.cmd = p
      · subst hp
        rw [timesOf_cons_of_eq hr] at hpast
        obtain rfl | hpast := List.mem_cons.mp hpast
        · refine le_next_delays (List.mem_map.mpr ⟨t, ?_, rfl⟩)
          exact List.mem_filter.mpr ⟨ht, hs⟩
        · exact (hk.waits _ _ ⟨_, t, ht, rfl, .inl ⟨hs, past, hpast, rfl⟩⟩).trans
            (next_le_next_delays _ _ _)
      · rw [timesOf_cons_of_ne fun heq => hp heq.1] at hpast
        exact (hk.waits _ _ ⟨_, t, ht, rfl, .inl ⟨hs, past, hpast, rfl⟩⟩).trans
          (next_le_next_delays _ _ _)
    · rw [htarget] at hpast
      exact (hk.waits _ _ ⟨_, t, ht, rfl, .inr ⟨hs, past, hpast, rfl⟩⟩).trans
        (next_le_next_delays _ _ _)
  case only =>
    intro c
    obtain heq | hmem := next_delays k (((T.timing path.length i.cmd).filter (·.sibling)).map
      fun t => (t.cmd, i.clk + t.val)) c
    · rw [heq]
      exact (hk.only c).imp_right fun hw => hw.cons i
    · right
      obtain ⟨t, ht, heq⟩ := List.mem_map.mp hmem
      obtain ⟨ht, hs⟩ := List.mem_filter.mp ht
      obtain ⟨hc, hb⟩ := Prod.mk.inj heq
      refine ⟨i.cmd, t, ht, hc, .inl ⟨hs, i.clk, ?_, hb.symm⟩⟩
      rw [timesOf_cons_of_eq hr]
      exact List.mem_cons_self

theorem prev_remember (hk : k.Tells T root path h) (hr : i.addr.reach 0 root path = .target)
    (p : C) : (k.remember i.cmd i.clk).prev p = (timesOf root path .target (i :: h) p ++
      List.replicate (historyLength T path.length p) (-1)).take
        (historyLength T path.length p) := by
  have hlen := congrArg List.length (hk.prev i.cmd)
  by_cases hp : i.cmd = p
  · subst hp
    rw [timesOf_cons_of_eq hr]
    cases hD : historyLength T path.length i.cmd with
    | zero =>
      have hnil : k.prev i.cmd = [] := by simpa [hD] using hk.prev i.cmd
      simp [remember, hnil]
    | succ D =>
      have hprev := hk.prev i.cmd
      rw [hD] at hprev
      have hne : (k.prev i.cmd).isEmpty = false := by
        rw [hprev]
        simp [List.isEmpty_eq_false_iff, List.replicate_succ]
      simp only [remember, hne, Bool.false_eq_true, if_false, Function.update_self,
        List.cons_append, List.take_succ_cons, List.cons.injEq, true_and]
      rw [hprev, List.dropLast_eq_take, List.take_take]
      congr 1
      simp
  · rw [timesOf_cons_of_ne fun heq => hp heq.1, ← hk.prev p]
    unfold remember
    split
    · rfl
    · exact Function.update_of_ne (Ne.symm hp) _ _

theorem target (hk : k.Tells T root path h) (hr : i.addr.reach 0 root path = .target)
    (hclk : ∀ j ∈ i :: h, 0 ≤ j.clk) :
    (k.seen T path.length .target i.cmd i.clk).Tells T root path (i :: h) := by
  have hsib : ∀ p, timesOf root path .sibling (i :: h) p = timesOf root path .sibling h p :=
    fun p => timesOf_cons_of_ne fun heq => absurd (heq.2.symm.trans hr) (by decide)
  have hprev := hk.prev_remember hr
  -- what the history of a table entry holds: a time, if there were enough
  have hpast : ∀ t ∈ T.timing path.length i.cmd, ∀ past,
      (timesOf root path .target (i :: h) i.cmd)[t.dist - 1]? = some past ↔
        (((k.remember i.cmd i.clk).prev i.cmd).getD (t.dist - 1) (-1) = past ∧ 0 ≤ past) := by
    intro t ht past
    have hle := dist_le_historyLength ht
    have hpos := t.dist_pos
    have hlt : t.dist - 1 < historyLength T path.length i.cmd := by omega
    rw [hprev, List.getD_eq_getElem?_getD, List.getElem?_take_of_lt hlt]
    by_cases hin : t.dist - 1 < (timesOf root path .target (i :: h) i.cmd).length
    · rw [List.getElem?_append_left hin, List.getElem?_eq_getElem hin]
      have hmem := List.getElem_mem hin
      obtain ⟨j, hj, hjclk⟩ := List.mem_map.mp hmem
      have hnonneg := hclk j (List.mem_filter.mp hj).1
      rw [hjclk] at hnonneg
      simp only [Option.some.injEq, Option.getD_some]
      constructor
      · rintro rfl
        exact ⟨rfl, hnonneg⟩
      · exact fun heq => heq.1
    · rw [List.getElem?_append_right (by omega), List.getElem?_eq_none (by omega),
        List.getElem?_replicate]
      split <;> simp <;> omega
  rw [Clocks.seen]
  constructor
  case prev =>
    intro p
    rw [prev_delays]
    exact hprev p
  case waits =>
    rintro c b ⟨p, t, ht, rfl, ⟨hs, past, hin, rfl⟩ | ⟨hs, past, hin, rfl⟩⟩
    · rw [hsib] at hin
      refine le_trans ?_ (next_le_next_delays _ _ _)
      rw [next_remember]
      exact hk.waits _ _ ⟨_, t, ht, rfl, .inl ⟨hs, past, hin, rfl⟩⟩
    · by_cases hp : i.cmd = p
      · subst hp
        obtain ⟨m, hget⟩ := List.mem_iff_getElem?.mp hin
        rw [List.getElem?_drop] at hget
        cases m with
        | zero =>
          obtain ⟨hget, hnonneg⟩ := (hpast t ht past).mp (by simpa using hget)
          refine le_next_delays (List.mem_filterMap.mpr ⟨t, List.mem_filter.mpr ⟨ht, ?_⟩, ?_⟩)
          · simp [hs]
          · simp only [hget]
            rw [if_neg (not_lt.mpr hnonneg)]
        | succ m =>
          refine le_trans ?_ (next_le_next_delays _ _ _)
          rw [next_remember]
          rw [timesOf_cons_of_eq hr] at hget
          have hold : past ∈ (timesOf root path .target h i.cmd).drop (t.dist - 1) := by
            rw [List.mem_iff_getElem?]
            refine ⟨m, ?_⟩
            rw [List.getElem?_drop]
            rwa [← Nat.add_assoc, List.getElem?_cons_succ] at hget
          exact hk.waits _ _ ⟨_, t, ht, rfl, .inr ⟨hs, past, hold, rfl⟩⟩
      · rw [timesOf_cons_of_ne fun heq => hp heq.1] at hin
        refine le_trans ?_ (next_le_next_delays _ _ _)
        rw [next_remember]
        exact hk.waits _ _ ⟨_, t, ht, rfl, .inr ⟨hs, past, hin, rfl⟩⟩
  case only =>
    intro c
    obtain heq | hmem := next_delays (k.remember i.cmd i.clk)
      (futures T path.length ((k.remember i.cmd i.clk).prev i.cmd) i.cmd) c
    · rw [heq, next_remember]
      exact (hk.only c).imp_right fun hw => hw.cons i
    · right
      obtain ⟨t, ht, heq⟩ := List.mem_filterMap.mp hmem
      obtain ⟨ht, hs⟩ := List.mem_filter.mp ht
      dsimp only at heq
      split at heq
      · cases heq
      case isFalse hneg =>
        obtain ⟨hc, hb⟩ := Prod.mk.inj (Option.some.inj heq)
        refine ⟨i.cmd, t, ht, hc, .inr ⟨by simpa using hs, _, ?_, hb.symm⟩⟩
        have hget := (hpast t ht _).mpr ⟨rfl, not_lt.mp hneg⟩
        rw [List.mem_iff_getElem?]
        exact ⟨0, by rw [List.getElem?_drop]; exact hget⟩

theorem seen (hk : k.Tells T root path h) (hclk : ∀ j ∈ i :: h, 0 ≤ j.clk) :
    (k.seen T path.length (i.addr.reach 0 root path) i.cmd i.clk).Tells T root path (i :: h) := by
  cases hr : i.addr.reach 0 root path with
  | target => exact hk.target hr hclk
  | sibling => exact hk.sibling hr
  | beyond => exact hk.beyond hr

end Clocks.Tells

/-- A node is ready exactly when nothing in the table makes the command wait any longer. -/
theorem Clocks.Tells.ready_iff (hk : k.Tells T root path h) {clk : Int} (hclk : 0 ≤ clk) :
    k.ready c clk = true ↔ ∀ b, WaitsUntil T root path h c b → b ≤ clk := by
  rw [Clocks.ready, Bool.or_eq_true, decide_eq_true_eq, decide_eq_true_eq]
  constructor
  · rintro (hnone | hle) b hw
    · have := hk.waits c b hw
      omega
    · exact (hk.waits c b hw).trans hle
  · exact fun hall => (hk.only c).imp_right (hall _)

/-! ## Trees -/

/-- The numbers of the address lead down the path. -/
def AddrVec.Along (addr : AddrVec) : Nat → List Nat → Prop
  | _, [] => True
  | level, i :: path => addr.idx (level + 1) = i ∧ addr.Along (level + 1) path

/-- A node after a command that reaches it in that way. -/
def DramNode.seen (T : TimingTable C) (level : Nat) (node : DramNode C S) (r : Reach) (cmd : C)
    (clk : Int) : DramNode C S :=
  { node with clocks := node.clocks.seen T level r cmd clk }

namespace Dram

variable {n level : Nat} {d d' : Dram C S n} {cmd : C} {addr : AddrVec} {clk : Int}

/-- Every child is numbered by its place. -/
def Numbered (d : Dram C S n) : Prop :=
  ∀ (path : List Nat) (i : Nat) (node : DramNode C S), d.find? (path ++ [i]) = some node →
    node.id = i

omit [DecidableEq C] in
theorem Numbered.child {d : Dram C S (n + 1)} (hd : d.Numbered) {i : Nat} {c : Dram C S n}
    (hc : d.children[i]? = some c) : c.self.id = i ∧ c.Numbered := by
  constructor
  · apply hd [] i c.self
    rw [List.nil_append, find?_cons, hc, Option.bind_some, find?_nil]
  · intro path j node hnode
    apply hd (i :: path) j node
    rw [List.cons_append, find?_cons, hc]
    exact hnode

omit [DecidableEq C] in
theorem Numbered.of_skeleton (hd : d.Numbered)
    (heq : ∀ path, (d'.skeleton path).map Prod.fst = (d.skeleton path).map Prod.fst) :
    d'.Numbered := by
  intro path i node hnode
  have hid := heq (path ++ [i])
  rw [skeleton, hnode, skeleton] at hid
  cases hold : d.find? (path ++ [i]) with
  | none =>
    rw [hold] at hid
    cases hid
  | some old =>
    rw [hold] at hid
    exact (Option.some.inj hid).trans (hd path i old hold)

theorem eq_seen_of_updateTiming {node node' : DramNode C S}
    (h : node.updateTiming T level cmd addr clk = .ok node') :
    node' = node.seen T level (addr.reach level node.id []) cmd clk := by
  rw [DramNode.updateTiming] at h
  rw [DramNode.seen, AddrVec.reach]
  split at h
  case isTrue hid =>
    obtain ⟨k, hk, h⟩ := bind_eq_ok.mp h
    obtain rfl := Except.ok.inj h
    rw [if_pos hid, Clocks.eq_seen_of_sibling hk]
  case isFalse hid =>
    obtain ⟨k, hk, h⟩ := bind_eq_ok.mp h
    obtain rfl := Except.ok.inj h
    rw [if_neg hid, Clocks.eq_seen_of_target hk]

theorem self_updateTiming (h : d.updateTiming T level cmd addr clk = .ok d') :
    d'.self = d.self.seen T level (addr.reach level d.self.id []) cmd clk := by
  cases n with
  | zero => exact eq_seen_of_updateTiming h
  | succ n =>
    obtain ⟨node, hnode, h⟩ := bind_eq_ok.mp h
    split at h
    · obtain rfl := Except.ok.inj h
      exact eq_seen_of_updateTiming hnode
    · obtain ⟨children, -, h⟩ := bind_eq_ok.mp h
      obtain rfl := Except.ok.inj h
      exact eq_seen_of_updateTiming hnode

/-- A command changes the clocks of each node by how it reaches it. -/
theorem find?_updateTiming (hd : d.Numbered) (h : d.updateTiming T level cmd addr clk = .ok d')
    (path : List Nat) : d'.find? path = (d.find? path).map fun node =>
      node.seen T (level + path.length) (addr.reach level d.self.id path) cmd clk := by
  induction path generalizing n level with
  | nil =>
    rw [find?_nil, find?_nil, self_updateTiming h]
    rfl
  | cons i path ih =>
    cases n with
    | zero => rfl
    | succ n =>
      obtain ⟨node, -, h⟩ := bind_eq_ok.mp h
      rw [AddrVec.reach, find?_cons, find?_cons]
      split at h
      case isTrue hid =>
        obtain rfl := Except.ok.inj h
        rw [children_mk, if_pos hid]
        exact (Option.map_id' (x := (d.children[i]?).bind fun c => c.find? path)).symm
      case isFalse hid =>
        obtain ⟨children, hchildren, h⟩ := bind_eq_ok.mp h
        obtain rfl := Except.ok.inj h
        rw [children_mk, if_neg hid]
        have hall := forall₂_of_mapM hchildren
        cases hc : d.children[i]? with
        | none =>
          have hlen := hall.length_eq
          rw [List.getElem?_eq_none_iff] at hc
          rw [List.getElem?_eq_none (by omega)]
          rfl
        | some c =>
          obtain ⟨hlt, rfl⟩ := List.getElem?_eq_some_iff.mp hc
          have hlt' : i < children.length := hall.length_eq ▸ hlt
          obtain ⟨hnum, hsub⟩ := hd.child hc
          have hi := ih hsub (hall.get hlt hlt')
          rw [List.get_eq_getElem, hnum] at hi
          rw [List.getElem?_eq_getElem hlt', Option.bind_some, Option.bind_some, List.length_cons,
            Nat.add_comm path.length, ← Nat.add_assoc]
          exact hi

theorem updateTiming_isOk (hT : T.Immediate) (level : Nat) (d : Dram C S n) :
    ∃ d', d.updateTiming T level cmd addr clk = .ok d' := by
  have hnode : ∀ (level : Nat) (node : DramNode C S),
      ∃ node', node.updateTiming T level cmd addr clk = .ok node' := by
    intro level node
    rw [DramNode.updateTiming]
    split
    · obtain ⟨k, hk⟩ := Clocks.sibling_isOk hT node.clocks
      exact ⟨_, by rw [hk]; rfl⟩
    · obtain ⟨k, hk⟩ := Clocks.target_isOk hT node.clocks
      exact ⟨_, by rw [hk]; rfl⟩
  induction n generalizing level with
  | zero => exact hnode level d.self
  | succ n ih =>
    obtain ⟨node, hself⟩ := hnode level d.self
    obtain ⟨children, hchildren⟩ := exists_mapM_eq_ok.mpr
      fun (c : Dram C S n) (_ : c ∈ d.children) => ih (level + 1) c
    rw [updateTiming, hself, ok_bind]
    split
    · exact ⟨_, rfl⟩
    · exact ⟨_, by rw [hchildren]; rfl⟩

/-- `check` answers whether all nodes on the way down are ready. -/
theorem check_iff {b : Bool} (h : d.check T level cmd addr clk = .ok b) :
    b = true ↔ ∀ path node, d.find? path = some node → addr.Along level path →
      (∀ m < path.length, level + m ≠ T.scope cmd) → node.clocks.ready cmd clk = true := by
  induction n generalizing level with
  | zero =>
    obtain rfl := Except.ok.inj h
    constructor
    · intro hready path node hnode _ _
      cases path with
      | nil =>
        obtain rfl := Option.some.inj hnode
        exact hready
      | cons i path => cases hnode
    · exact fun hall => hall [] d rfl trivial (by simp)
  | succ n ih =>
    have hroot : (∀ path node, d.find? path = some node → addr.Along level path →
        (∀ m < path.length, level + m ≠ T.scope cmd) → node.clocks.ready cmd clk = true) →
        d.self.clocks.ready cmd clk = true :=
      fun hall => hall [] d.self (find?_nil d) trivial (by simp)
    rw [check] at h
    split at h
    case isFalse hready =>
      obtain rfl := Except.ok.inj h
      exact ⟨fun hfalse => absurd hfalse (by decide), fun hall => absurd (hroot hall) hready⟩
    case isTrue hready =>
      dsimp only at h
      split at h
      case isTrue hstop =>
        obtain rfl := Except.ok.inj h
        refine ⟨fun _ path nd hnd halong hscope => ?_, fun _ => rfl⟩
        cases path with
        | nil =>
          obtain rfl := Option.some.inj hnd
          exact hready
        | cons i path =>
          exfalso
          obtain hneg | hlevel | hnil := hstop
          · have := halong.1
            omega
          · exact hscope 0 (by simp) hlevel
          · rw [find?_cons, hnil] at hnd
            cases hnd
      case isFalse hgo =>
        split at h
        · cases h
        case h_2 c hc =>
          obtain ⟨i, hi, hget⟩ := child?_eq_some.mp hc
          have hpath : ∀ path, d.find? (i :: path) = find? (n := n) c path := by
            intro path
            rw [find?_cons, hget]
            rfl
          rw [ih h]
          constructor
          · intro hall path nd hnd halong hscope
            cases path with
            | nil =>
              obtain rfl := Option.some.inj hnd
              exact hready
            | cons j path =>
              obtain ⟨hj, halong⟩ := halong
              obtain rfl : i = j := by omega
              rw [hpath] at hnd
              refine hall path nd hnd halong fun m hm => ?_
              have := hscope (m + 1) (by simpa using hm)
              omega
          · intro hall path nd hnd halong hscope
            refine hall (i :: path) nd ((hpath path).trans hnd) ⟨hi, halong⟩ fun m hm => ?_
            cases m with
            | zero => exact fun heq => hgo (.inr (.inl heq))
            | succ m =>
              have := hscope m (by simpa using hm)
              omega

/-! ## Updates -/

variable {S' : Standard C S}

omit [DecidableEq C] in
theorem skeleton_applyLambda (S' : Standard C S) (level : Nat) (cmd : C) (d : Dram C S n)
    (childId : Int) (path : List Nat) :
    (d.applyLambda S' level cmd childId).skeleton path = d.skeleton path := by
  unfold applyLambda
  split
  case h_1 f hf => exact S'.lambda_skeleton level cmd f hf n d childId path
  case h_2 => rfl

omit [DecidableEq C] in
/-- The states of the nodes are of no interest to the timing. -/
theorem skeleton_updateState (h : d.updateState S' level cmd addr = .ok d') (path : List Nat) :
    d'.skeleton path = d.skeleton path := by
  induction n generalizing level path with
  | zero =>
    obtain rfl := Except.ok.inj h
    exact skeleton_applyLambda S' level cmd d _ path
  | succ n ih =>
    rw [updateState] at h
    rw [← skeleton_applyLambda S' level cmd d (addr.idx (level + 1)) path]
    generalize d.applyLambda S' level cmd (addr.idx (level + 1)) = e at h ⊢
    split at h
    · obtain rfl := Except.ok.inj h
      rfl
    · split at h
      · cases h
      case h_2 c hc =>
        obtain ⟨c', hc', heq⟩ := bind_eq_ok.mp h
        obtain rfl := Except.ok.inj heq
        obtain ⟨i, hi, hget⟩ := child?_eq_some.mp hc
        cases path with
        | nil => rw [skeleton_nil, skeleton_nil, self_mk]
        | cons j path =>
          rw [skeleton_cons, skeleton_cons, children_mk, hi, Int.toNat_natCast, List.getElem?_set]
          by_cases hij : i = j
          · subst hij
            have hlt : i < e.children.length := (List.getElem?_eq_some_iff.mp hget).1
            rw [if_pos rfl, if_pos hlt, hget]
            exact ih hc' path
          · rw [if_neg hij]

theorem Numbered.updateTiming (hd : d.Numbered)
    (h : d.updateTiming T level cmd addr clk = .ok d') : d'.Numbered := by
  refine hd.of_skeleton fun path => ?_
  rw [skeleton, skeleton, find?_updateTiming hd h, Option.map_map, Option.map_map, Option.map_map]
  rfl

/-- The clocks after an update. -/
theorem skeleton_update (hd : d.Numbered) (h : d.update S' cmd addr clk = .ok d') :
    d'.Numbered ∧ ∀ path, d'.skeleton path = (d.skeleton path).map fun e =>
      (e.1, e.2.seen S'.toTimingTable path.length (addr.reach 0 d.self.id path) cmd clk) := by
  obtain ⟨e, he, htiming⟩ := bind_eq_ok.mp h
  have hskel : ∀ path, e.skeleton path = d.skeleton path :=
    fun path => (skeleton_updateState he path).trans
      (skeleton_mapSelf (f := fun node => { node with curClk := clk }) (fun _ => ⟨rfl, rfl⟩) d path)
  have hnum : e.Numbered := hd.of_skeleton fun path => by rw [hskel]
  have hself : e.self.id = d.self.id := by
    have hnil := hskel []
    rw [skeleton_nil, skeleton_nil] at hnil
    exact congrArg Prod.fst (Option.some.inj hnil)
  refine ⟨hnum.updateTiming htiming, fun path => ?_⟩
  rw [← hskel, skeleton, skeleton, find?_updateTiming hnum htiming, Option.map_map, Option.map_map,
    hself, Nat.zero_add]
  rfl

omit [DecidableEq C] in
theorem self_create (S' : Standard C S) (n level : Nat) (id : Int) :
    (create S' n level id).self = DramNode.create S' level id := by
  cases n <;> rfl

omit [DecidableEq C] in
theorem find?_create {S' : Standard C S} {n level : Nat} {id : Int} {path : List Nat}
    {node : DramNode C S} (h : (create S' n level id).find? path = some node) :
    ∃ id', node = DramNode.create S' (level + path.length) id' := by
  induction path generalizing n level id with
  | nil =>
    rw [find?_nil, self_create] at h
    exact ⟨id, (Option.some.inj h).symm⟩
  | cons i path ih =>
    cases n with
    | zero => cases h
    | succ n =>
      rw [find?_cons, create, children_mk, List.getElem?_map] at h
      obtain ⟨c, hc, h⟩ := Option.bind_eq_some_iff.mp h
      obtain ⟨j, -, rfl⟩ := Option.map_eq_some_iff.mp hc
      obtain ⟨id', rfl⟩ := ih h
      exact ⟨id', by rw [List.length_cons, Nat.add_right_comm, Nat.add_assoc]⟩

omit [DecidableEq C] in
theorem numbered_create (S' : Standard C S) (n level : Nat) (id : Int) :
    (create S' n level id).Numbered := by
  intro path
  induction path generalizing n level id with
  | nil =>
    intro i node h
    cases n with
    | zero => cases h
    | succ n =>
      rw [List.nil_append, find?_cons, create, children_mk, List.getElem?_map] at h
      obtain ⟨c, hc, h⟩ := Option.bind_eq_some_iff.mp h
      obtain ⟨j, hj, rfl⟩ := Option.map_eq_some_iff.mp hc
      rw [find?_nil] at h
      obtain rfl := (self_create S' n (level + 1) j).symm.trans (Option.some.inj h)
      have hrange := List.getElem?_eq_some_iff.mp hj
      simp only [List.getElem_range] at hrange
      rw [hrange.2]
      rfl
  | cons j path ih =>
    intro i node h
    cases n with
    | zero => cases h
    | succ n =>
      rw [List.cons_append, find?_cons, create, children_mk, List.getElem?_map] at h
      obtain ⟨c, hc, h⟩ := Option.bind_eq_some_iff.mp h
      obtain ⟨m, -, rfl⟩ := Option.map_eq_some_iff.mp hc
      exact ih n (level + 1) m i node h

end Dram

/-! ## Runs -/

/-- Commands are issued to a new tree, each at a time when `check` answers yes. The last one comes
first. -/
inductive Issues (S' : Standard C S) (n : Nat) (id : Int) : List (IssuedCmd C) → Dram C S n → Prop
  | start : Issues S' n id [] (.create S' n 0 id)
  | issue {h : List (IssuedCmd C)} {d d' : Dram C S n} (run : Issues S' n id h d) (i : IssuedCmd C)
      (clk_nonneg : 0 ≤ i.clk)
      (ready : d.check S'.toTimingTable 0 i.cmd i.addr i.clk = .ok true)
      (hd : d.update S' i.cmd i.addr i.clk = .ok d') : Issues S' n id (i :: h) d'

/-- The node at the end of the path is one that the command is for, not below its scope. -/
structure Concerned (S' : Standard C S) (n : Nat) (id : Int) (cmd : C) (addr : AddrVec)
    (path : List Nat) : Prop where
  node : ((Dram.create S' n 0 id).find? path).isSome
  along : addr.Along 0 path
  scope : ∀ m < path.length, m ≠ S'.scope cmd

/-- After these commands, nothing in the tables makes `cmd` wait for any longer than `clk`. -/
def Obeys (S' : Standard C S) (n : Nat) (id : Int) (h : List (IssuedCmd C)) (cmd : C)
    (addr : AddrVec) (clk : Int) : Prop :=
  ∀ path, Concerned S' n id cmd addr path →
    ∀ b, WaitsUntil S'.toTimingTable id path h cmd b → b ≤ clk

namespace Issues

variable {S' : Standard C S} {n : Nat} {id : Int} {d : Dram C S n}

theorem clk_nonneg (h' : Issues S' n id h d) : ∀ i ∈ h, 0 ≤ i.clk := by
  induction h' with
  | start => simp
  | issue _ i hclk _ _ ih =>
    intro j hj
    obtain rfl | hj := List.mem_cons.mp hj
    · exact hclk
    · exact ih j hj

/-- The clocks of all nodes tell what was issued. -/
theorem tells (h' : Issues S' n id h d) : d.Numbered ∧
    (∀ path, (d.skeleton path).isSome = ((Dram.create S' n 0 id).find? path).isSome) ∧
    d.self.id = id ∧ ∀ path e, d.skeleton path = some e →
      e.2.Tells S'.toTimingTable id path h := by
  induction h' with
  | start =>
    refine ⟨Dram.numbered_create S' n 0 id, fun path => ?_, ?_, fun path e he => ?_⟩
    · rw [Dram.skeleton, Option.isSome_map]
    · rw [Dram.self_create]
      rfl
    · obtain ⟨node, hnode, rfl⟩ := Option.map_eq_some_iff.mp he
      obtain ⟨id', rfl⟩ := Dram.find?_create hnode
      rw [Nat.zero_add]
      exact Clocks.tells_create S'.toTimingTable id path
  | issue run i hclk _ hd ih =>
    obtain ⟨hnum, hsome, hself, htells⟩ := ih
    obtain ⟨hnum', hskel⟩ := Dram.skeleton_update hnum hd
    refine ⟨hnum', fun path => ?_, ?_, fun path e he => ?_⟩
    · rw [hskel, Option.isSome_map, hsome]
    · have hnil := hskel []
      rw [Dram.skeleton_nil, Dram.skeleton_nil] at hnil
      exact (congrArg Prod.fst (Option.some.inj hnil)).trans hself
    · rw [hskel] at he
      obtain ⟨old, hold, rfl⟩ := Option.map_eq_some_iff.mp he
      rw [hself]
      exact (htells path old hold).seen (run.issue i hclk ‹_› hd).clk_nonneg

theorem check_iff_obeys (h' : Issues S' n id h d) {cmd : C} {addr : AddrVec} {clk : Int} {b : Bool}
    (hclk : 0 ≤ clk) (hb : d.check S'.toTimingTable 0 cmd addr clk = .ok b) :
    b = true ↔ Obeys S' n id h cmd addr clk := by
  obtain ⟨-, hsome, -, htells⟩ := h'.tells
  rw [Dram.check_iff hb]
  constructor
  · intro hall path hpath t ht
    obtain ⟨e, he⟩ := Option.isSome_iff_exists.mp ((hsome path).trans hpath.node)
    obtain ⟨node, hnode, rfl⟩ := Option.map_eq_some_iff.mp he
    have hready := hall path node hnode hpath.along (by simpa using hpath.scope)
    exact ((htells path _ he).ready_iff hclk).mp hready t ht
  · intro hobeys path node hnode halong hscope
    have he : d.skeleton path = some (node.id, node.clocks) := by rw [Dram.skeleton, hnode]; rfl
    have hnode' : ((Dram.create S' n 0 id).find? path).isSome := by rw [← hsome, he]; rfl
    exact ((htells path _ he).ready_iff hclk).mpr
      (hobeys path ⟨hnode', halong, by simpa using hscope⟩)

end Issues

/-- `check` answers yes exactly when all waits of the timing tables are over, and in a run that asks
it before each command every command obeys the tables. -/
theorem check_exact_and_obeyed {S' : Standard C S} {n : Nat} {id : Int} {h : List (IssuedCmd C)}
    {d : Dram C S n} (hrun : Issues S' n id h d) :
    (∀ cmd addr clk b, 0 ≤ clk → d.check S'.toTimingTable 0 cmd addr clk = .ok b →
      (b = true ↔ Obeys S' n id h cmd addr clk)) ∧
    ∀ later i earlier, h = later ++ i :: earlier → Obeys S' n id earlier i.cmd i.addr i.clk := by
  refine ⟨fun cmd addr clk b hclk hb => hrun.check_iff_obeys hclk hb, ?_⟩
  induction hrun with
  | start =>
    intro later i earlier heq
    cases later <;> cases heq
  | issue run j hclk ready hd ih =>
    intro later i earlier heq
    cases later with
    | nil =>
      obtain ⟨rfl, rfl⟩ := List.cons.inj heq
      exact (run.check_iff_obeys hclk ready).mp rfl
    | cons k later => exact ih later i earlier (List.cons.inj heq).2

open Lpddr5 in
/-- A row of LPDDR5 is not read sooner than 15 cycles after it was opened. -/
theorem check_exact_and_obeyed_read : ∃ d, Issues (lpddr5 lpddr5_6400 1 1) 3 0
    [⟨.act1, [0, 0, 1, 2, 7, 3], 5⟩] d ∧
    d.check (lpddr5 lpddr5_6400 1 1).toTimingTable 0 .rd [0, 0, 1, 2, 7, 3] 19 = .ok false ∧
    ¬ Obeys (lpddr5 lpddr5_6400 1 1) 3 0 [⟨.act1, [0, 0, 1, 2, 7, 3], 5⟩] .rd
      [0, 0, 1, 2, 7, 3] 19 := by
  have hstart : Issues (lpddr5 lpddr5_6400 1 1) 3 0 [] _ := .start
  have hact := hstart.issue ⟨.act1, [0, 0, 1, 2, 7, 3], 5⟩ (by decide) rfl rfl
  refine ⟨_, hact, rfl, fun hobeys => ?_⟩
  have hcheck := ((check_exact_and_obeyed hact).1 .rd [0, 0, 1, 2, 7, 3] 19 false (by decide)
    rfl).mpr
  exact absurd (hcheck hobeys) (by decide)

end NdpSim
