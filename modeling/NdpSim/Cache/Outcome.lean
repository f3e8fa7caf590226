import NdpSim.Cache.Effect

/-!
# What an access can do

For the tags and the table of missing blocks, the effects of an access come down to three: nothing
changes, a line changes that needs no data from memory, or a request waits for its block.
-/
namespace NdpSim

open Library

namespace Cache

/-- What no access changes: the blocks whose data has arrived, and what the miss queue holds
already. -/
structure Frame (c c' : Cache) : Prop where
  response : c'.currentResponse = c.currentResponse
  uid : c.uid ≤ c'.uid
  queue : c.missQueue <+: c'.missQueue

theorem Frame.refl (c : Cache) : Frame c c := ⟨rfl, le_refl _, List.prefix_refl _⟩

/-- The request the cache makes for an access: the access itself, or a read of its block. -/
structure Serves (c : Cache) (mf : MemFetch) (status : CacheRequestStatus) (c' : Cache)
    (newMf : MemFetch) : Prop where
  addr : newMf.addr = mf.addr
  id : newMf = mf ∨ newMf.id = c.uid ∧ c.uid < c'.uid
  read : mf.isWrite = false → newMf = mf ∧ status = .miss

/-- The read path took `mf`: it joins the requests that wait for its block, or it is the first and
a request goes to memory. -/
inductive Awaits (cfg : CacheConfig) (c : Cache) (mf : MemFetch) (c' : Cache) : Prop
  | merged {p : Probe} {e : MshrEntry}
      (probe : cfg.probe c.lines (cfg.getBlockAddr mf.addr) (cfg.sectorOf mf) = .ok p)
      (claimed : cfg.allocPolicy = .onMiss → p ≠ .hit p.idx → p ≠ .reservationFail →
        Claimed c.lines c'.lines p (cfg.getTag mf.addr) (cfg.sectorOf mf) .reserved)
      (lookup : c.table.lookup (cfg.getMshrAddr mf.addr) = some e)
      (room : e.list.length < cfg.mshrMaxMerge)
      (table : c'.table = c.table.insert (cfg.getMshrAddr mf.addr)
        ⟨e.list ++ [mf], e.hasAtomic || mf.isAtomic⟩)
      (extra : c'.extraMfFields = c.extraMfFields)
  | requested {p : Probe}
      (probe : cfg.probe c.lines (cfg.getBlockAddr mf.addr) (cfg.sectorOf mf) = .ok p)
      (claimed : cfg.allocPolicy = .onMiss → p ≠ .hit p.idx → p ≠ .reservationFail →
        Claimed c.lines c'.lines p (cfg.getTag mf.addr) (cfg.sectorOf mf) .reserved)
      (lookup : c.table.lookup (cfg.getMshrAddr mf.addr) = none)
      (room : c.table.entries.length < cfg.mshrEntries)
      (table : c'.table = c.table.insert (cfg.getMshrAddr mf.addr) ⟨[mf], mf.isAtomic⟩)
      (extra : c'.extraMfFields = c.extraMfFields.insert mf.id
        ⟨mf, cfg.getMshrAddr mf.addr, p.idx⟩)
      (sent : ∃ q ∈ c'.missQueue, q.id = mf.id)

inductive Outcome (cfg : CacheConfig) (c : Cache) (mf : MemFetch) (status : CacheRequestStatus)
    (c' : Cache) : Prop
  | idle (lines : c'.lines = c.lines) (table : c'.table = c.table)
      (extra : c'.extraMfFields = c.extraMfFields)
      (quiet : status = .miss → mf.isWrite = true)
  | touched {p : Probe}
      (probe : cfg.probe c.lines (cfg.getBlockAddr mf.addr) (cfg.sectorOf mf) = .ok p)
      (claimed : cfg.allocPolicy = .onMiss → ∃ st ≠ .reserved,
        Claimed c.lines c'.lines p (cfg.getTag mf.addr) (cfg.sectorOf mf) st)
      (found : p ≠ .reservationFail)
      (overwritten : p ≠ .hit p.idx → overwrites cfg mf = true)
      (table : c'.table = c.table) (extra : c'.extraMfFields = c.extraMfFields)
      (quiet : status = .miss → mf.isWrite = true)
  | awaits {p : Probe} {newMf : MemFetch}
      (probe : cfg.probe c.lines (cfg.getBlockAddr mf.addr) (cfg.sectorOf mf) = .ok p)
      (missed : p ≠ .hit p.idx) (found : p ≠ .reservationFail)
      (fetched : fetches cfg mf = true) (serves : Serves c mf status c' newMf)
      (taken : Awaits cfg c newMf c')

section Cases

variable {kind : CacheKind} {cfg : CacheConfig} {c c' : Cache} {mf : MemFetch} {time : Nat}
  {status : CacheRequestStatus} {events : List CacheEvent}

theorem modified_ne_reserved : CacheBlockState.modified ≠ .reserved := by simp

/-- The line that was found for a request that waits is reserved for it. -/
theorem claimed_of_opened {p : Probe} {lines : Lines} {evicted : Option EvictedBlockInfo}
    {b : CacheBlock}
    (ht : cfg.tagAccess c.lines (cfg.getBlockAddr mf.addr) time (cfg.sectorOf mf) =
      .ok (p, lines, evicted))
    (hb : (lines p.idx).Rewrites b (cfg.sectorOf mf) ((lines p.idx).status (cfg.sectorOf mf)))
    (hon : cfg.allocPolicy = .onMiss) (hh : p ≠ .hit p.idx) (hf : p ≠ .reservationFail) :
    Claimed c.lines (Function.update lines p.idx b) p (cfg.getTag mf.addr) (cfg.sectorOf mf)
      .reserved := by
  obtain ⟨-, hspec⟩ := CacheConfig.tagAccess_spec ht
  rw [CacheConfig.getTag_getBlockAddr] at hspec
  obtain ⟨h, -⟩ | ⟨h, -⟩ | ⟨-, -, h⟩ := hspec hon
  · exact absurd h hf
  · exact absurd h hh
  · refine h.congr hb.tag ?_
    rw [hb.status, Function.update_eq_self]

/-- A line whose sector is written without waiting is claimed for the block, too. -/
theorem claimed_of_written {p : Probe} {lines : Lines} {evicted : Option EvictedBlockInfo}
    {b : CacheBlock} {st : CacheBlockState}
    (ht : cfg.tagAccess c.lines (cfg.getBlockAddr mf.addr) time (cfg.sectorOf mf) =
      .ok (p, lines, evicted))
    (hb : (lines p.idx).Rewrites b (cfg.sectorOf mf) st)
    (hon : cfg.allocPolicy = .onMiss) (hf : p ≠ .reservationFail) :
    Claimed c.lines (Function.update lines p.idx b) p (cfg.getTag mf.addr) (cfg.sectorOf mf)
      st := by
  obtain ⟨_, hclaim, -⟩ := CacheConfig.tagAccess_claims ht hon hf
  exact hclaim.store hb.tag hb.status

theorem claimed_of_hit {i : Nat} {b : CacheBlock} {st : CacheBlockState}
    (hp : cfg.probe c.lines (cfg.getBlockAddr mf.addr) (cfg.sectorOf mf) = .ok (.hit i))
    (hb : (c.lines i).Rewrites b (cfg.sectorOf mf) st) :
    Claimed c.lines (Function.update c.lines i b) (.hit i) (cfg.getTag mf.addr)
      (cfg.sectorOf mf) st := by
  have htag := (CacheConfig.found_probe hp).tag i (.inr (.inl rfl))
  rw [CacheConfig.getTag_getBlockAddr] at htag
  refine ⟨fun j hj => Function.update_of_ne hj _ _, ?_, ?_⟩
  · simp only [Probe.idx, Function.update_self]
    exact hb.tag.trans htag
  · simp [Probe.idx, hb.status]

theorem serves_waiter (hu : mf.isWrite = true → c.uid < c'.uid)
    (hstatus : mf.isWrite = false → status = .miss) :
    Serves c mf status c' (waiter cfg c mf) := by
  by_cases hw : mf.isWrite = true
  · rw [waiter, if_pos hw]
    exact ⟨rfl, .inr ⟨rfl, hu hw⟩, by simp [hw]⟩
  · rw [waiter, if_neg hw]
    exact ⟨rfl, .inl rfl, fun hr => ⟨rfl, hstatus hr⟩⟩

/-- The table and the requests under way once `mf` waits. -/
theorem awaits_of_joins {p : Probe} {table : Binding (BitVec 64) MshrEntry}
    {extra : Binding Nat ExtraMfFields} {sent : List MemFetch}
    (hp : cfg.probe c.lines (cfg.getBlockAddr mf.addr) (cfg.sectorOf mf) = .ok p)
    (hclaim : cfg.allocPolicy = .onMiss → p ≠ .hit p.idx → p ≠ .reservationFail →
      Claimed c.lines c'.lines p (cfg.getTag mf.addr) (cfg.sectorOf mf) .reserved)
    (hjoins : Joins cfg c mf p.idx table extra sent) (htable : c'.table = table)
    (hextra : c'.extraMfFields = extra) (hsent : ∀ q ∈ sent, q ∈ c'.missQueue) :
    Awaits cfg c mf c' := by
  cases hjoins with
  | merged lookup room => exact .merged hp hclaim lookup room htable hextra
  | requested lookup room =>
    exact .requested hp hclaim lookup room htable hextra ⟨_, hsent _ List.mem_cons_self, rfl⟩

theorem waiter_addr (cfg : CacheConfig) (c : Cache) (mf : MemFetch) :
    (waiter cfg c mf).addr = mf.addr := by
  unfold waiter
  split <;> rfl

theorem Effect.frame (h : Effect kind cfg c mf time status events c') : Frame c c' := by
  cases h with
  | refused reason => exact Frame.refl c
  | forwarded => exact ⟨rfl, le_refl _, List.prefix_append _ _⟩
  | hit => exact ⟨rfl, le_refl _, List.prefix_append _ _⟩
  | overwritten =>
    refine ⟨rfl, Nat.le_add_right _ _, ?_⟩
    rw [List.append_assoc]
    exact List.prefix_append _ _
  | awaited tells tag missed found fetched room rewrites joins uids =>
    refine ⟨rfl, ?_, ?_⟩
    · have hle : c.uid ≤ if mf.isWrite = true then c.uid + 1 else c.uid := by
        split <;> omega
      exact (uids ▸ hle).trans (Nat.le_add_right _ _)
    · rw [List.append_assoc, List.append_assoc]
      exact List.prefix_append _ _

theorem Effect.outcome (h : Effect kind cfg c mf time status events c') :
    Outcome cfg c mf status c' := by
  cases h with
  | refused reason => exact .idle rfl rfl rfl (by simp)
  | forwarded tells write policy => exact .idle rfl rfl rfl fun _ => write
  | hit tells probe rewrites hst =>
    exact .touched probe (fun _ => ⟨_, hst, claimed_of_hit probe rewrites⟩) (by simp)
      (fun h => absurd rfl h) rfl rfl (by simp)
  | overwritten tells tag missed found whole room =>
    have hw : mf.isWrite = true := by
      simp only [overwrites, Bool.and_eq_true] at whole
      exact whole.1
    exact .touched (CacheConfig.probe_of_tagAccess tag)
      (fun hon => ⟨_, modified_ne_reserved,
        claimed_of_written tag (writtenBlock_rewrites ..) hon found⟩) found (fun _ => whole) rfl rfl
      fun _ => hw
  | awaited tells tag missed found fetched room rewrites joins uids =>
    have haddr := waiter_addr cfg c mf
    have hsector : cfg.sectorOf (waiter cfg c mf) = cfg.sectorOf mf :=
      cfg.sectorOf_congr haddr
    have hp := CacheConfig.probe_of_tagAccess tag
    refine .awaits hp missed found fetched (serves_waiter (fun hw => ?_) fun hr => ?_)
      (awaits_of_joins (by rw [haddr, hsector]; exact hp) (fun hon hh hf => ?_) joins rfl rfl ?_)
    · rw [if_pos hw] at uids
      simp only [uids]
      omega
    · simp [missStatus, hr]
    · rw [haddr, hsector]
      exact claimed_of_opened tag rewrites hon hh hf
    · intro q hq
      exact List.mem_append_left _ (List.mem_append_right _ hq)

end Cases

end Cache

end NdpSim
