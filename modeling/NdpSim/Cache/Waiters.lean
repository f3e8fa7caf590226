import NdpSim.Cache.Run

/-!
# The requests a cache holds

The requests in the table of missing blocks, whatever block they wait for. An access adds at most
one, and only a pop takes one away.
-/
namespace NdpSim

open Library

namespace Cache

def waiters (c : Cache) : Multiset MemFetch := (c.table.values.flatMap MshrEntry.list : List _)

variable {kind : CacheKind} {cfg : CacheConfig} {c c' : Cache} {mf : MemFetch}
  {status : CacheRequestStatus}

@[simp] theorem waiters_initial (lines : Lines) : (initial lines).waiters = 0 := rfl

theorem waiters_congr (h : c'.table = c.table) : c'.waiters = c.waiters := by
  rw [waiters, waiters, h]

/-- The entry of a block is exchanged. -/
theorem waiters_insert_of_lookup {B : BitVec 64} {e e' : MshrEntry}
    (hlookup : c.table.lookup B = some e) (htable : c'.table = c.table.insert B e') :
    (e.list : Multiset MemFetch) + c'.waiters = e'.list + c.waiters := by
  have hperm := (Binding.values_insert_of_lookup hlookup e').flatMap_right MshrEntry.list
  rw [waiters, waiters, htable, Multiset.coe_add, Multiset.coe_add]
  simpa only [List.flatMap_cons] using Multiset.coe_eq_coe.mpr hperm

theorem Joins.waiters {idx : Nat} {table : Binding (BitVec 64) MshrEntry}
    {extra : Binding Nat ExtraMfFields} {sent : List MemFetch}
    (h : Joins cfg c mf idx table extra sent) (htable : c'.table = table) :
    c'.waiters = mf ::ₘ c.waiters := by
  cases h with
  | merged lookup room =>
    have hsum := waiters_insert_of_lookup lookup htable
    rw [← Multiset.coe_add, add_assoc, add_left_cancel_iff] at hsum
    simpa using hsum
  | requested lookup room =>
    rw [Cache.waiters, htable, Binding.values_insert _ lookup]
    rfl

theorem Awaits.waiters (h : Awaits cfg c mf c') : c'.waiters = mf ::ₘ c.waiters := by
  cases h with
  | merged _ _ lookup room table _ =>
    have hjoins : Joins cfg c mf 0 _ _ _ := .merged lookup room
    exact hjoins.waiters table
  | requested _ _ lookup room table _ _ =>
    have hjoins : Joins cfg c mf 0 _ _ _ := .requested lookup room
    exact hjoins.waiters table

theorem Pops.waiters {B : BitVec 64} {rest : List (BitVec 64)} {e : MshrEntry}
    (h : Pops c mf c' B rest e) : c.waiters = mf ::ₘ c'.waiters := by
  have htable := h.table
  split at htable
  case isTrue hempty =>
    have hperm := (Binding.values_erase h.lookup).flatMap_right MshrEntry.list
    rw [Cache.waiters, Cache.waiters, htable, Multiset.cons_coe]
    refine Multiset.coe_eq_coe.mpr (hperm.trans ?_)
    rw [List.flatMap_cons, hempty]
    rfl
  case isFalse hmore =>
    have hsum := waiters_insert_of_lookup h.lookup htable
    simp only [← Multiset.cons_coe, Multiset.cons_add] at hsum
    rw [← Multiset.add_cons, add_left_cancel_iff] at hsum
    exact hsum.symm

/-- What an access adds to the waiting requests. -/
theorem Outcome.waiters (h : Outcome cfg c mf status c') :
    c'.waiters = c.waiters ∧ (status = .miss → mf.isWrite = true) ∨
      ∃ newMf, Serves c mf status c' newMf ∧ c'.waiters = newMf ::ₘ c.waiters := by
  cases h with
  | idle _ table _ quiet => exact .inl ⟨waiters_congr table, quiet⟩
  | touched _ _ _ _ table _ quiet => exact .inl ⟨waiters_congr table, quiet⟩
  | awaits _ _ _ _ serves taken => exact .inr ⟨_, serves, taken.waiters⟩

/-- A read waits if it misses, and only then. -/
theorem waiters_read {time : Nat} {events : List CacheEvent} (hread : mf.isWrite = false)
    (h : c.access kind cfg mf time = .ok (status, events, c')) :
    c'.waiters = if status = .miss then mf ::ₘ c.waiters else c.waiters := by
  obtain ⟨heq, hquiet⟩ | ⟨newMf, hserves, heq⟩ := (effect_access h).outcome.waiters
  · rw [heq, if_neg fun hmiss => by simp [hquiet hmiss] at hread]
  · obtain ⟨rfl, hmiss⟩ := hserves.read hread
    rw [heq, if_pos hmiss]

/-- An access is answered with a hit, a miss or a failure. -/
theorem status_of_access {time : Nat} {events : List CacheEvent}
    (h : c.access kind cfg mf time = .ok (status, events, c')) :
    status = .hit ∨ status = .miss ∨ status = .reservationFail := by
  have hmiss : missStatus cfg mf = .miss ∨ missStatus cfg mf = .reservationFail := by
    unfold missStatus
    split <;> simp
  cases effect_access h with
  | refused => exact .inr (.inr rfl)
  | forwarded => exact .inr (.inl rfl)
  | hit => exact .inl rfl
  | overwritten => exact .inr hmiss
  | awaited => exact .inr hmiss

/-- Write-backs are writes of the cache's own, with new numbers. -/
structure WriteBacks (n n' : Nat) (mfs : List MemFetch) : Prop where
  isWrite : ∀ mf ∈ mfs, mf.isWrite = true
  isAtomic : ∀ mf ∈ mfs, mf.isAtomic = false
  fromNdp : ∀ mf ∈ mfs, mf.fromNdp = false
  le_id : ∀ mf ∈ mfs, n ≤ mf.id
  id_lt : ∀ mf ∈ mfs, mf.id < n'

theorem writeBacks_evictedPackets (kind : CacheKind) (cfg : CacheConfig) (n : Nat)
    (evicted : Option EvictedBlockInfo) :
    WriteBacks n (n + (evictedPackets kind cfg n evicted).length)
      (evictedPackets kind cfg n evicted) := by
  unfold evictedPackets
  split
  · constructor <;> simp
  cases evicted with
  | none => constructor <;> simp
  | some info =>
    simp only [Option.toList_some, List.flatMap_singleton, writeBackPackets]
    constructor <;> simp +contextual

theorem WriteBacks.mono {n m n' : Nat} {mfs : List MemFetch} (h : WriteBacks m n' mfs)
    (hle : n ≤ m) : WriteBacks n n' mfs :=
  ⟨h.isWrite, h.isAtomic, h.fromNdp, fun mf hmf => hle.trans (h.le_id mf hmf), h.id_lt⟩

theorem WriteBacks.nil (n n' : Nat) : WriteBacks n n' [] := by constructor <;> simp

theorem waiters_fill {id time : Nat} (h : c.fill cfg id time = .ok c') :
    c'.waiters = c.waiters := by
  obtain ⟨f, hfills⟩ := fill_cases h
  exact waiters_congr hfills.table

theorem waiters_popNextAccess (h : c.popNextAccess = .ok (mf, c')) :
    c.waiters = mf ::ₘ c'.waiters := by
  obtain ⟨B, rest, e, hpops⟩ := popNextAccess_cases h
  exact hpops.waiters

theorem waiters_cycle (c : Cache) (full : Bool) : (c.cycle full).2.waiters = c.waiters := by
  unfold cycle
  split
  · rfl
  · split <;> rfl

/-- Nothing waits if no read is under way and no block has arrived. -/
theorem Tracked.waiters_eq_zero (hc : Tracked cfg c) (hresp : c.currentResponse = [])
    (hkeys : c.extraMfFields.keys = []) : c.waiters = 0 := by
  have hvalues : c.table.values = [] := by
    refine List.eq_nil_iff_forall_not_mem.mpr fun e he => ?_
    obtain ⟨B, hB⟩ := Binding.mem_values.mp he
    obtain harrived | ⟨id, f, hf, -⟩ := hc.covered B e hB
    · rw [hresp] at harrived
      cases harrived
    · have hmem : id ∈ c.extraMfFields.keys := by
        rw [← AList.mem_keys, ← AList.lookup_isSome, hf]
        rfl
      rw [hkeys] at hmem
      cases hmem
  rw [waiters, hvalues]
  rfl

/-- An access of a request with a number of its own. -/
theorem Tracked.access {time : Nat} {events : List CacheEvent} (hc : Tracked cfg c)
    (hid : mf.id < c.uid) (hfresh : c.extraMfFields.lookup mf.id = none)
    (h : c.access kind cfg mf time = .ok (status, events, c')) : Tracked cfg c' := by
  have heffect := effect_access h
  have hmax : { c with uid := max c.uid (mf.id + 1) } = c := by rw [max_eq_left hid]
  have hdoes : Does cfg c (.access mf time) c'
      (if status = .miss ∧ mf.isWrite = false then [.missed mf] else []) := by
    refine .access ?_ ?_
    · rw [hmax]
      exact heffect.outcome
    · rw [hmax]
      exact heffect.frame
  exact Tracked.does hc (show c.Fresh (.access mf time) from hfresh) hdoes

/-- The request that asked for a block waits for it. -/
def Asked (c : Cache) : Prop :=
  ∀ id f, c.extraMfFields.lookup id = some f → f.mf.id = id ∧
    ∃ e, c.table.lookup f.blockAddr = some e ∧ f.mf ∈ e.list

theorem Asked.of_eq (hc : Asked c) (htable : c'.table = c.table)
    (hextra : c'.extraMfFields = c.extraMfFields) : Asked c' := by
  unfold Asked
  rw [htable, hextra]
  exact hc

theorem Asked.awaits (hc : Asked c) (h : Awaits cfg c mf c') : Asked c' := by
  cases h with
  | @merged p e probe claimed lookup room table extra =>
    intro id f hf
    rw [extra] at hf
    obtain ⟨hid, e', he', hmem⟩ := hc id f hf
    refine ⟨hid, ?_⟩
    rw [table, Binding.lookup_insert_eq_ite]
    split
    case isTrue heq =>
      rw [heq, lookup] at he'
      obtain rfl := Option.some.inj he'
      exact ⟨_, rfl, List.mem_append_left _ hmem⟩
    case isFalse => exact ⟨e', he', hmem⟩
  | requested probe claimed lookup room table extra sent =>
    intro id f hf
    rw [extra] at hf
    rw [table]
    obtain ⟨rfl, rfl⟩ | ⟨hne, hf⟩ := Binding.lookup_insert_eq_some.mp hf
    · exact ⟨rfl, _, AList.lookup_insert _, List.mem_singleton_self _⟩
    · obtain ⟨hid, e', he', hmem⟩ := hc id f hf
      have hB : f.blockAddr ≠ cfg.getMshrAddr mf.addr := by
        intro heq
        rw [heq, lookup] at he'
        cases he'
      exact ⟨hid, e', by rw [AList.lookup_insert_ne hB, he'], hmem⟩

theorem Asked.access {time : Nat} {events : List CacheEvent} (hc : Asked c)
    (h : c.access kind cfg mf time = .ok (status, events, c')) : Asked c' := by
  cases (effect_access h).outcome with
  | idle _ table extra => exact hc.of_eq table extra
  | touched _ _ _ _ table extra => exact hc.of_eq table extra
  | awaits _ _ _ _ _ taken => exact hc.awaits taken

theorem Asked.fill {id : Nat} {f : ExtraMfFields} (hc : Asked c) (h : Fills cfg c id f c') :
    Asked c' := by
  intro id' f' hf'
  rw [h.extra] at hf'
  rw [h.table]
  exact hc id' f' (Binding.lookup_erase_eq_some.mp hf').2

/-- A block that is given back is not asked for. -/
theorem Asked.pop {B : BitVec 64} {rest : List (BitVec 64)} {e : MshrEntry} (hc : Asked c)
    (ht : Tracked cfg c) (h : Pops c mf c' B rest e) : Asked c' := by
  intro id f hf
  rw [h.extra] at hf
  obtain ⟨hid, e', he', hmem⟩ := hc id f hf
  have hB : f.blockAddr ≠ B := by
    rintro rfl
    refine ht.disjoint id f hf ?_
    rw [h.response]
    exact List.mem_cons_self
  refine ⟨hid, e', ?_, hmem⟩
  rw [h.table]
  split
  · rw [AList.lookup_erase_ne hB, he']
  · rw [AList.lookup_insert_ne hB, he']

theorem mem_waiters {B : BitVec 64} {e : MshrEntry} (he : c.table.lookup B = some e)
    (hmf : mf ∈ e.list) : mf ∈ c.waiters :=
  Multiset.mem_coe.mpr (List.mem_flatMap.mpr ⟨e, Binding.mem_values.mpr ⟨B, he⟩, hmf⟩)

end Cache

end NdpSim
