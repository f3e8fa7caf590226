import NdpSim.Cache.Run

/-!
# Conservation of requests

Seen from outside, a cache is one queue per block: reads that miss join the queue of their block,
and once the data of the block is there, the queue is given back from its front. Here the table of
missing blocks is shown to be these queues, over all runs of reads.
-/
namespace NdpSim

open Library

/-! ## Queues of a history -/

section History

variable (cfg : CacheConfig) (B : BitVec 64)

def CacheTrace.missedIn : CacheTrace → Option MemFetch
  | .missed mf => if cfg.getMshrAddr mf.addr = B then some mf else none
  | _ => none

def CacheTrace.returnedIn : CacheTrace → Option MemFetch
  | .returned mf => if cfg.getMshrAddr mf.addr = B then some mf else none
  | _ => none

/-- The reads of a block that missed, in order. -/
def missedOf (tr : List CacheTrace) : List MemFetch := tr.filterMap (CacheTrace.missedIn cfg B)

def returnedOf (tr : List CacheTrace) : List MemFetch := tr.filterMap (CacheTrace.returnedIn cfg B)

/-- The requests of a block that were not returned yet. -/
def unreturned (tr : List CacheTrace) : List MemFetch :=
  (missedOf cfg B tr).drop (returnedOf cfg B tr).length

/-- The data of the block came while requests waited for it, and some have been waiting ever
since. -/
def FilledFor (tr : List CacheTrace) : Prop :=
  ∃ before since, tr = before ++ .filled B :: since ∧
    ∀ part, part <+: since → unreturned cfg B (before ++ .filled B :: part) ≠ []

variable {cfg} {B}

theorem FilledFor.unreturned_ne_nil {tr : List CacheTrace} (h : FilledFor cfg B tr) :
    unreturned cfg B tr ≠ [] := by
  obtain ⟨before, since, rfl, h⟩ := h
  exact h since (List.prefix_refl _)

theorem filledFor_snoc {tr : List CacheTrace} {x : CacheTrace} :
    FilledFor cfg B (tr ++ [x]) ↔
      (FilledFor cfg B tr ∨ x = .filled B) ∧ unreturned cfg B (tr ++ [x]) ≠ [] := by
  constructor
  · intro h
    refine ⟨?_, h.unreturned_ne_nil⟩
    obtain ⟨before, since, heq, hall⟩ := h
    rcases List.eq_nil_or_concat' since with rfl | ⟨since, y, rfl⟩
    · exact .inr (by simpa using congrArg List.getLast? heq)
    · left
      rw [← List.cons_append, ← List.append_assoc] at heq
      obtain ⟨rfl, -⟩ := List.append_inj' heq rfl
      exact ⟨before, since, rfl, fun part hpart => hall part (hpart.trans (List.prefix_append _ _))⟩
  · rintro ⟨h | rfl, hne⟩
    · obtain ⟨before, since, rfl, hall⟩ := h
      refine ⟨before, since ++ [x], by simp, fun part hpart => ?_⟩
      rcases List.prefix_concat_iff.mp hpart with rfl | hpart
      · simpa using hne
      · exact hall part hpart
    · refine ⟨tr, [], rfl, fun part hpart => ?_⟩
      rw [List.prefix_nil.mp hpart]
      exact hne

theorem missedOf_snoc (tr : List CacheTrace) (x : CacheTrace) :
    missedOf cfg B (tr ++ [x]) = missedOf cfg B tr ++ (x.missedIn cfg B).toList := by
  simp [missedOf, List.filterMap_append, List.filterMap_cons]
  cases x.missedIn cfg B <;> rfl

theorem returnedOf_snoc (tr : List CacheTrace) (x : CacheTrace) :
    returnedOf cfg B (tr ++ [x]) = returnedOf cfg B tr ++ (x.returnedIn cfg B).toList := by
  simp [returnedOf, List.filterMap_append, List.filterMap_cons]
  cases x.returnedIn cfg B <;> rfl

theorem mem_unreturned {tr : List CacheTrace} {mf : MemFetch} (h : mf ∈ unreturned cfg B tr) :
    cfg.getMshrAddr mf.addr = B := by
  obtain ⟨x, -, hx⟩ := List.mem_filterMap.mp (List.mem_of_mem_drop h)
  unfold CacheTrace.missedIn at hx
  split at hx
  · split at hx
    case isTrue hB =>
      obtain rfl := Option.some_inj.mp hx
      exact hB
    case isFalse => cases hx
  · cases hx

end History

namespace Cache

variable {kind : CacheKind} {cfg : CacheConfig} {c c' : Cache} {tr : List CacheTrace}

/-- Only reads access the cache. -/
def OnlyReads (_ : Cache) : CacheOp → Prop
  | .access mf _ => mf.isWrite = false
  | _ => True

/-- Every return is of the request at the front of its block's queue, after the block's data. -/
def ReturnsHeads (cfg : CacheConfig) (tr : List CacheTrace) : Prop :=
  ∀ before mf since, tr = before ++ .returned mf :: since →
    FilledFor cfg (cfg.getMshrAddr mf.addr) before ∧
      (unreturned cfg (cfg.getMshrAddr mf.addr) before).head? = some mf

theorem ReturnsHeads.snoc (h : ReturnsHeads cfg tr) {x : CacheTrace}
    (hx : ∀ mf, x = .returned mf → FilledFor cfg (cfg.getMshrAddr mf.addr) tr ∧
      (unreturned cfg (cfg.getMshrAddr mf.addr) tr).head? = some mf) :
    ReturnsHeads cfg (tr ++ [x]) := by
  intro before mf since heq
  rcases List.eq_nil_or_concat' since with rfl | ⟨since, y, rfl⟩
  · obtain ⟨rfl, hlast⟩ := List.append_inj' heq rfl
    exact hx mf (by simpa using hlast)
  · rw [← List.cons_append, ← List.append_assoc] at heq
    obtain ⟨rfl, -⟩ := List.append_inj' heq rfl
    exact h before mf since rfl

/-- The requests of each block that are in the cache are the unreturned ones of the history. -/
structure Accounts (cfg : CacheConfig) (c : Cache) (tr : List CacheTrace) : Prop where
  waiting : ∀ B, c.waiting B = unreturned cfg B tr
  split : ∀ B, returnedOf cfg B tr ++ unreturned cfg B tr = missedOf cfg B tr
  nonempty : ∀ B e, c.table.lookup B = some e → e.list ≠ []
  arrived : ∀ B, B ∈ c.currentResponse ↔ FilledFor cfg B tr
  entries : c.table.entries.length ≤ cfg.mshrEntries
  merged : ∀ B, (c.waiting B).length ≤ max 1 cfg.mshrMaxMerge
  sent : ∀ id f, c.extraMfFields.lookup id = some f →
    (∃ mf ∈ c.missQueue, mf.id = id) ∨ ∃ mf, .sent mf ∈ tr ∧ mf.id = id
  returned : ReturnsHeads cfg tr

theorem accounts_initial (cfg : CacheConfig) (lines : Lines) : Accounts cfg (initial lines) [] := by
  constructor <;>
    simp [initial, Cache.waiting, unreturned, missedOf, returnedOf, FilledFor, ReturnsHeads]

/-- A step that shows nothing, or only that a request left, changes no queue. -/
theorem unreturned_sent (B : BitVec 64) (mf : MemFetch) :
    unreturned cfg B (tr ++ [.sent mf]) = unreturned cfg B tr := by
  simp [unreturned, missedOf_snoc, returnedOf_snoc, CacheTrace.missedIn, CacheTrace.returnedIn]

theorem unreturned_filled (B B' : BitVec 64) :
    unreturned cfg B (tr ++ [.filled B']) = unreturned cfg B tr := by
  simp [unreturned, missedOf_snoc, returnedOf_snoc, CacheTrace.missedIn, CacheTrace.returnedIn]

theorem unreturned_missed {B : BitVec 64}
    (h : returnedOf cfg B tr ++ unreturned cfg B tr = missedOf cfg B tr) (mf : MemFetch) :
    unreturned cfg B (tr ++ [.missed mf]) =
      if cfg.getMshrAddr mf.addr = B then unreturned cfg B tr ++ [mf] else unreturned cfg B tr := by
  have hle : (returnedOf cfg B tr).length ≤ (missedOf cfg B tr).length := by
    rw [← h, List.length_append]
    omega
  rw [unreturned, missedOf_snoc, returnedOf_snoc]
  simp only [CacheTrace.missedIn, CacheTrace.returnedIn, Option.toList_none, List.append_nil]
  split
  case isTrue => rw [Option.toList_some, List.drop_append_of_le_length hle, unreturned]
  case isFalse => rw [Option.toList_none, List.append_nil, unreturned]

theorem unreturned_returned (B : BitVec 64) (mf : MemFetch) :
    unreturned cfg B (tr ++ [.returned mf]) =
      if cfg.getMshrAddr mf.addr = B then (unreturned cfg B tr).tail else unreturned cfg B tr := by
  rw [unreturned, missedOf_snoc, returnedOf_snoc]
  simp only [CacheTrace.missedIn, CacheTrace.returnedIn, Option.toList_none, List.append_nil]
  split
  case isTrue =>
    rw [Option.toList_some, List.length_append, List.length_singleton, unreturned, List.tail_drop]
  case isFalse => rw [Option.toList_none, List.append_nil, unreturned]

/-- Nothing is shown, and the queues stay. -/
theorem Accounts.quiet (h : Accounts cfg c tr) (htable : c'.table = c.table)
    (hresp : c'.currentResponse = c.currentResponse) (hextra : c'.extraMfFields = c.extraMfFields)
    (hqueue : c.missQueue <+: c'.missQueue) : Accounts cfg c' tr := by
  have hwaiting (B : BitVec 64) : c'.waiting B = c.waiting B := by
    rw [Cache.waiting, htable, Cache.waiting]
  constructor
  · exact fun B => (hwaiting B).trans (h.waiting B)
  · exact h.split
  · rw [htable]
    exact h.nonempty
  · rw [hresp]
    exact h.arrived
  · rw [htable]
    exact h.entries
  · exact fun B => by rw [hwaiting B]; exact h.merged B
  · rw [hextra]
    intro id f hl
    refine (h.sent id f hl).imp_left ?_
    rintro ⟨mf, hm, hid⟩
    exact ⟨mf, hqueue.subset hm, hid⟩
  · exact h.returned

theorem Accounts.send (h : Accounts cfg c tr) {mf : MemFetch} {rest : List MemFetch}
    (hq : c.missQueue = mf :: rest) :
    Accounts cfg { c with missQueue := rest } (tr ++ [.sent mf]) := by
  constructor
  · intro B
    rw [unreturned_sent]
    exact h.waiting B
  · intro B
    rw [unreturned_sent, missedOf_snoc, returnedOf_snoc]
    simpa [CacheTrace.missedIn, CacheTrace.returnedIn] using h.split B
  · exact h.nonempty
  · intro B
    rw [filledFor_snoc, unreturned_sent, h.arrived B]
    exact ⟨fun hf => ⟨.inl hf, hf.unreturned_ne_nil⟩, fun hf => hf.1.resolve_right (by simp)⟩
  · exact h.entries
  · exact h.merged
  · intro id f hl
    obtain ⟨m, hm, hid⟩ | ⟨m, hm, hid⟩ := h.sent id f hl
    · rw [hq] at hm
      obtain rfl | hm := List.mem_cons.mp hm
      · exact .inr ⟨m, by simp, hid⟩
      · exact .inl ⟨m, hm, hid⟩
    · exact .inr ⟨m, List.mem_append_left _ hm, hid⟩
  · exact h.returned.snoc (by simp)

theorem Accounts.fill (h : Accounts cfg c tr) {id : Nat} {f : ExtraMfFields}
    (hf : Fills cfg c id f c') : Accounts cfg c' (tr ++ [.filled f.blockAddr]) := by
  have hwaiting (B : BitVec 64) : c'.waiting B = c.waiting B := by
    rw [Cache.waiting, hf.table, Cache.waiting]
  have hwaits : unreturned cfg f.blockAddr tr ≠ [] := by
    obtain ⟨e, he⟩ := hf.entry
    rw [← h.waiting, Cache.waiting, he]
    exact h.nonempty _ e he
  constructor
  · intro B
    rw [unreturned_filled, hwaiting]
    exact h.waiting B
  · intro B
    rw [unreturned_filled, missedOf_snoc, returnedOf_snoc]
    simpa [CacheTrace.missedIn, CacheTrace.returnedIn] using h.split B
  · rw [hf.table]
    exact h.nonempty
  · intro B
    rw [filledFor_snoc, unreturned_filled, hf.response, List.mem_append, h.arrived B,
      List.mem_singleton]
    constructor
    · rintro (hB | rfl)
      · exact ⟨.inl hB, hB.unreturned_ne_nil⟩
      · exact ⟨.inr rfl, hwaits⟩
    · rintro ⟨hB | hB, -⟩
      · exact .inl hB
      · exact .inr (CacheTrace.filled.inj hB).symm
  · rw [hf.table]
    exact h.entries
  · exact fun B => by rw [hwaiting B]; exact h.merged B
  · intro id' f' hl
    rw [hf.extra] at hl
    rw [hf.queue]
    refine (h.sent id' f' (Binding.lookup_erase_eq_some.mp hl).2).imp_right ?_
    rintro ⟨m, hm, hid⟩
    exact ⟨m, List.mem_append_left _ hm, hid⟩
  · exact h.returned.snoc (by simp)

theorem Accounts.miss (h : Accounts cfg c tr) {mf : MemFetch} {a : Bool}
    (htable : c'.table = c.table.insert (cfg.getMshrAddr mf.addr)
      ⟨c.waiting (cfg.getMshrAddr mf.addr) ++ [mf], a⟩)
    (hroom : (c.waiting (cfg.getMshrAddr mf.addr)).length < max 1 cfg.mshrMaxMerge)
    (hentries : c'.table.entries.length ≤ cfg.mshrEntries)
    (hresp : c'.currentResponse = c.currentResponse)
    (hsent : ∀ id f, c'.extraMfFields.lookup id = some f →
      (∃ mf ∈ c'.missQueue, mf.id = id) ∨ ∃ mf, .sent mf ∈ tr ∧ mf.id = id) :
    Accounts cfg c' (tr ++ [.missed mf]) := by
  have hwaiting (B : BitVec 64) : c'.waiting B =
      if cfg.getMshrAddr mf.addr = B then c.waiting B ++ [mf] else c.waiting B := by
    rw [Cache.waiting, htable, Binding.lookup_insert_eq_ite]
    by_cases hB : cfg.getMshrAddr mf.addr = B
    · simp [hB]
    · simp [hB, Ne.symm hB, Cache.waiting]
  constructor
  · intro B
    rw [hwaiting, unreturned_missed (h.split B), h.waiting B]
  · intro B
    rw [unreturned_missed (h.split B), missedOf_snoc, returnedOf_snoc, ← h.split B]
    simp only [CacheTrace.missedIn, CacheTrace.returnedIn]
    split <;> simp
  · intro B e he
    rw [htable] at he
    obtain ⟨-, rfl⟩ | ⟨-, he⟩ := Binding.lookup_insert_eq_some.mp he
    · simp
    · exact h.nonempty B e he
  · intro B
    rw [filledFor_snoc, unreturned_missed (h.split B), hresp, h.arrived B]
    constructor
    · intro hf
      refine ⟨.inl hf, ?_⟩
      split
      · simp
      · exact hf.unreturned_ne_nil
    · exact fun hf => hf.1.resolve_right (by simp)
  · exact hentries
  · intro B
    rw [hwaiting]
    split
    case isTrue hB =>
      rw [hB] at hroom
      rw [List.length_append, List.length_singleton]
      omega
    case isFalse => exact h.merged B
  · intro id f hl
    refine (hsent id f hl).imp_right ?_
    rintro ⟨m, hm, hid⟩
    exact ⟨m, List.mem_append_left _ hm, hid⟩
  · exact h.returned.snoc (by simp)

theorem Accounts.pop (ht : Tracked cfg c) (h : Accounts cfg c tr) {mf : MemFetch} {B : BitVec 64}
    {rest : List (BitVec 64)} {e : MshrEntry} (hp : Pops c mf c' B rest e) :
    Accounts cfg c' (tr ++ [.returned mf]) := by
  have hqueue : unreturned cfg B tr = mf :: e.list := by
    rw [← h.waiting, Cache.waiting, hp.lookup]
    rfl
  have hmf : cfg.getMshrAddr mf.addr = B := by
    have hmem : mf ∈ unreturned cfg B tr := by rw [hqueue]; exact List.mem_cons_self
    exact mem_unreturned hmem
  have hafter (B' : BitVec 64) : unreturned cfg B' (tr ++ [.returned mf]) =
      if B' = B then e.list else unreturned cfg B' tr := by
    rw [unreturned_returned, hmf]
    by_cases hB : B' = B
    · simp [hB, hqueue]
    · simp [hB, Ne.symm hB]
  have hwaiting (B' : BitVec 64) : c'.waiting B' = if B' = B then e.list else c.waiting B' := by
    rw [Cache.waiting, hp.table]
    by_cases hlast : e.list = []
    · rw [if_pos hlast, Binding.lookup_erase_eq_ite]
      by_cases hB : B' = B <;> simp [hB, hlast, Cache.waiting]
    · rw [if_neg hlast, Binding.lookup_insert_eq_ite]
      by_cases hB : B' = B <;> simp [hB, Cache.waiting]
  constructor
  · intro B'
    rw [hwaiting, hafter, h.waiting B']
  · intro B'
    rw [hafter, missedOf_snoc, returnedOf_snoc, ← h.split B']
    simp only [CacheTrace.missedIn, CacheTrace.returnedIn, hmf]
    by_cases hB : B' = B
    · simp [hB, hqueue]
    · simp [hB, Ne.symm hB]
  · intro B' e' he'
    rw [hp.table] at he'
    split at he'
    case isTrue => exact h.nonempty B' e' (Binding.lookup_erase_eq_some.mp he').2
    case isFalse hlast =>
      obtain ⟨-, rfl⟩ | ⟨-, he'⟩ := Binding.lookup_insert_eq_some.mp he'
      · exact hlast
      · exact h.nonempty B' e' he'
  · intro B'
    have hnodup := ht.nodup
    rw [hp.response, List.nodup_cons] at hnodup
    rw [filledFor_snoc, hafter, ← h.arrived, hp.response, hp.response']
    by_cases hB : B' = B
    · subst hB
      by_cases hlast : e.list = []
      · simp [hlast, hnodup.1]
      · simp [hlast]
    · have hne : B' ∈ rest → unreturned cfg B' tr ≠ [] := fun hm =>
        ((h.arrived B').mp (by rw [hp.response]; exact List.mem_cons_of_mem _ hm)).unreturned_ne_nil
      by_cases hlast : e.list = []
      · simpa [hlast, hB] using hne
      · simpa [hlast, hB] using hne
  · have hentries := h.entries
    rw [hp.table]
    split
    · rw [Binding.length_erase hp.lookup] at hentries
      omega
    · rw [Binding.length_insert_of_lookup hp.lookup]
      exact hentries
  · intro B'
    rw [hwaiting]
    split
    case isTrue =>
      have hm := h.merged B
      rw [h.waiting, hqueue, List.length_cons] at hm
      omega
    case isFalse => exact h.merged B'
  · rw [hp.extra, hp.queue]
    intro id f hl
    refine (h.sent id f hl).imp_right ?_
    rintro ⟨m, hm, hid⟩
    exact ⟨m, List.mem_append_left _ hm, hid⟩
  · refine h.returned.snoc fun m hm => ?_
    obtain rfl := CacheTrace.returned.inj hm
    rw [hmf, hqueue, ← h.arrived, hp.response]
    exact ⟨List.mem_cons_self, rfl⟩

theorem Accounts.does (ht : Tracked cfg c) (h : Accounts cfg c tr) {op : CacheOp}
    {ev : List CacheTrace} (hop : OnlyReads c op) (hd : Does cfg c op c' ev) :
    Accounts cfg c' (tr ++ ev) := by
  cases hd with
  | stay => rwa [List.append_nil]
  | send hq => exact h.send hq
  | pop hpops => exact h.pop ht hpops
  | fill hfills => exact h.fill hfills
  | @access mf time status _ hout hframe =>
    have hread : mf.isWrite = false := hop
    cases hout with
    | idle lines table extra quiet =>
      have hno : status ≠ .miss := fun hm => by simp [hread] at quiet; exact quiet hm
      rw [if_neg fun hm => hno hm.1, List.append_nil]
      exact h.quiet table hframe.response extra hframe.queue
    | touched probe claimed found overwritten table extra quiet =>
      have hno : status ≠ .miss := fun hm => by simp [hread] at quiet; exact quiet hm
      rw [if_neg fun hm => hno hm.1, List.append_nil]
      exact h.quiet table hframe.response extra hframe.queue
    | @awaits p newMf probe missed found fetched serves taken =>
      obtain ⟨rfl, rfl⟩ := serves.read hread
      rw [if_pos ⟨rfl, hread⟩]
      have hsent (id : Nat) (f : ExtraMfFields) (hl : c.extraMfFields.lookup id = some f) :
          (∃ mf ∈ c'.missQueue, mf.id = id) ∨ ∃ mf, .sent mf ∈ tr ∧ mf.id = id := by
        refine (h.sent id f hl).imp_left ?_
        rintro ⟨m, hm, hid⟩
        exact ⟨m, hframe.queue.subset hm, hid⟩
      cases taken with
      | @merged q e _ _ lookup room table extra =>
        have hlookup : c.table.lookup _ = some e := lookup
        have hwaiting : c.waiting (cfg.getMshrAddr newMf.addr) = e.list := by
          rw [Cache.waiting, hlookup]
          rfl
        refine h.miss (by rw [hwaiting]; exact table) ?_ ?_ hframe.response ?_
        · rw [hwaiting]
          exact room.trans_le (le_max_right _ _)
        · rw [table]
          exact (Binding.length_insert_of_lookup hlookup _).trans_le h.entries
        · rw [extra]
          exact hsent
      | @requested q _ _ lookup room table extra sent =>
        have hlookup : c.table.lookup _ = none := lookup
        have hwaiting : c.waiting (cfg.getMshrAddr newMf.addr) = [] := by
          rw [Cache.waiting, hlookup]
          rfl
        refine h.miss (by rw [hwaiting]; exact table) ?_ ?_ hframe.response ?_
        · rw [hwaiting]
          exact Nat.lt_of_lt_of_le Nat.zero_lt_one (le_max_left _ _)
        · rw [table, AList.entries_insert_of_notMem (AList.lookup_eq_none.mp hlookup)]
          exact room
        · intro id f hl
          rw [extra] at hl
          obtain ⟨rfl, -⟩ | ⟨-, hl⟩ := Binding.lookup_insert_eq_some.mp hl
          · exact .inl sent
          · exact hsent id f hl

theorem Run.accounts (h : Run kind cfg OnlyReads c tr) : Accounts cfg c tr := by
  induction h with
  | start lines _ => exact accounts_initial cfg lines
  | step run op meets fresh hs ih => exact ih.does run.tracked meets (step_cases hs)

/-- What a cache promises to the callers whose reads missed. -/
structure Conserves (cfg : CacheConfig) (c : Cache) (tr : List CacheTrace) : Prop where
  /-- What was returned is the first part of what missed, block by block. -/
  order : ∀ B, returnedOf cfg B tr <+: missedOf cfg B tr
  /-- A request is returned from the front of its block's queue, and after the block's data. -/
  returned : ReturnsHeads cfg tr
  entries : c.table.entries.length ≤ cfg.mshrEntries
  merged : ∀ B, (c.waiting B).length ≤ max 1 cfg.mshrMaxMerge
  ready : c.accessReady = true ↔ ∃ B, FilledFor cfg B tr
  /-- Data that has arrived can be taken. -/
  pop : c.accessReady = true → ∃ mf c', c.popNextAccess = .ok (mf, c')
  /-- What is not returned has its data, or a read request that is queued or has been sent and
  not been filled. -/
  pending : ∀ B, unreturned cfg B tr ≠ [] → FilledFor cfg B tr ∨
    ∃ id f, c.extraMfFields.lookup id = some f ∧ f.blockAddr = B ∧
      ((∃ mf ∈ c.missQueue, mf.id = id) ∨ ∃ mf, .sent mf ∈ tr ∧ mf.id = id)
  /-- The data of a request under way can arrive, if the lines can take it. An atomic needs a
  line that was allocated for it. -/
  fill : ∀ id time f lines e, c.extraMfFields.lookup id = some f →
    c.fillLines cfg f time = .ok lines → c.table.lookup f.blockAddr = some e →
    (e.hasAtomic = true → cfg.allocPolicy = .onMiss) → ∃ c', c.fill cfg id time = .ok c'
  /-- With nothing queued, nothing unfilled and nothing ready, every miss was returned. -/
  complete : c.missQueue = [] →
    (∀ mf, .sent mf ∈ tr → c.extraMfFields.lookup mf.id = none) → c.accessReady = false →
    ∀ B, returnedOf cfg B tr = missedOf cfg B tr

theorem accessReady_iff (h : Accounts cfg c tr) :
    c.accessReady = true ↔ ∃ B, FilledFor cfg B tr := by
  simp only [accessReady, Bool.not_eq_true', List.isEmpty_eq_false_iff_exists_mem, h.arrived]

theorem Accounts.pending (ht : Tracked cfg c) (h : Accounts cfg c tr) {B : BitVec 64}
    (hB : unreturned cfg B tr ≠ []) : FilledFor cfg B tr ∨
      ∃ id f, c.extraMfFields.lookup id = some f ∧ f.blockAddr = B ∧
        ((∃ mf ∈ c.missQueue, mf.id = id) ∨ ∃ mf, .sent mf ∈ tr ∧ mf.id = id) := by
  rw [← h.waiting, Cache.waiting] at hB
  cases he : c.table.lookup B with
  | none => simp [he] at hB
  | some e =>
    obtain hm | ⟨id, f, hl, hf⟩ := ht.covered B e he
    · exact .inl ((h.arrived B).mp hm)
    · exact .inr ⟨id, f, hl, hf, h.sent id f hl⟩

theorem Accounts.popNextAccess (ht : Tracked cfg c) (h : Accounts cfg c tr)
    (hready : c.accessReady = true) : ∃ mf c', c.popNextAccess = .ok (mf, c') := by
  cases hresp : c.currentResponse with
  | nil => simp [accessReady, hresp] at hready
  | cons B rest =>
    obtain ⟨⟨list, a⟩, he⟩ := ht.arrived B (by rw [hresp]; exact List.mem_cons_self)
    match list, he with
    | [], he => exact absurd rfl (h.nonempty B _ he)
    | [mf], he =>
      simp only [Cache.popNextAccess, hresp, he]
      exact ⟨_, _, rfl⟩
    | mf :: mf' :: mfs, he =>
      simp only [Cache.popNextAccess, hresp, he]
      exact ⟨_, _, rfl⟩

theorem fill_eq_ok (hassoc : cfg.mshrConfig = .assoc) {id time : Nat} {f : ExtraMfFields}
    {lines : Lines} {e : MshrEntry} (hl : c.extraMfFields.lookup id = some f)
    (hlines : c.fillLines cfg f time = .ok lines) (he : c.table.lookup f.blockAddr = some e)
    (ha : e.hasAtomic = true → cfg.allocPolicy = .onMiss) : ∃ c', c.fill cfg id time = .ok c' := by
  have hguard : ¬ (e.hasAtomic = true ∧ cfg.allocPolicy ≠ .onMiss) := fun h => h.2 (ha h.1)
  have hsector : ¬ cfg.mshrConfig = .sectorAssoc := by simp [hassoc]
  simp only [Cache.fill, hl, hlines, he, if_neg hsector, if_neg hguard]
  exact ⟨_, rfl⟩

/-- Every run of reads conserves the requests that missed. -/
theorem mshr_conserves (hassoc : cfg.mshrConfig = .assoc) (hrun : Run kind cfg OnlyReads c tr) :
    Conserves cfg c tr := by
  have ht := hrun.tracked
  have h := hrun.accounts
  constructor
  · exact fun B => ⟨_, h.split B⟩
  · exact h.returned
  · exact h.entries
  · exact h.merged
  · exact accessReady_iff h
  · exact h.popNextAccess ht
  · exact fun B => h.pending ht
  · exact fun id time f lines e => fill_eq_ok hassoc
  · intro hqueue hsent hready B
    have hnil : unreturned cfg B tr = [] := by
      by_contra hne
      obtain hf | ⟨id, f, hl, -, hm⟩ := h.pending ht hne
      · rw [(accessReady_iff h).mpr ⟨B, hf⟩] at hready
        cases hready
      · obtain ⟨mf, hm, -⟩ | ⟨mf, hm, rfl⟩ := hm
        · rw [hqueue] at hm
          cases hm
        · rw [hsent mf hm] at hl
          cases hl
    have hsplit := h.split B
    rwa [hnil, List.append_nil] at hsplit

theorem mshr_conserves_two_reads : ∃ c tr,
    Run .data (oneLine .noWriteAllocate) OnlyReads c tr ∧
    tr = [.missed (wordRequest 0 0 false), .missed (wordRequest 1 4 false), .filled 0,
      .returned (wordRequest 0 0 false)] ∧ Conserves (oneLine .noWriteAllocate) c tr := by
  have hrun : Run .data (oneLine .noWriteAllocate) OnlyReads _ _ :=
    .step (.step (.step (.step (.start (fun _ => emptyLine) fun _ _ => rfl)
      (.access (wordRequest 0 0 false) 1) rfl rfl rfl)
      (.access (wordRequest 1 4 false) 2) rfl rfl rfl)
      (.fill 0 3) trivial trivial rfl)
      .pop trivial trivial rfl
  exact ⟨_, _, hrun, rfl, mshr_conserves rfl hrun⟩

def noMerge : CacheConfig := { oneLine .noWriteAllocate with mshrMaxMerge := 0 }

/-- A table that allows no merging takes the first request of a block all the same. -/
theorem waiting_exceeds_mshrMaxMerge : ∃ c tr, Run .data noMerge OnlyReads c tr ∧
    noMerge.mshrMaxMerge < (c.waiting 0).length := by
  have hrun : Run .data noMerge OnlyReads _ _ :=
    .step (.start (fun _ => emptyLine) fun _ _ => rfl) (.access (wordRequest 0 0 false) 1) rfl rfl
      rfl
  exact ⟨_, _, hrun, by decide⟩

end Cache

end NdpSim
