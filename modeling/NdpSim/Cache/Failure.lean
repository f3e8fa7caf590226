import NdpSim.Cache.Run

/-!
# Failed accesses

The callers of a cache bring a request that was refused again in the next cycle, so a refused
access should leave no trace. `FETCH_ON_WRITE` reports every write that misses as refused, also
when it has put the data into a line or has asked for the block.
-/
namespace NdpSim

open Library

namespace Cache

/-- The address and the size the request object carries: those of its block while it is under way
to memory. -/
def requestRange (cfg : CacheConfig) (c : Cache) (mf : MemFetch) : BitVec 64 × Nat :=
  match c.extraMfFields.lookup mf.id with
  | some f => (f.blockAddr, cfg.atomSize)
  | none => (mf.addr, mf.dataSize)

/-- All the state of a cache and of the request that an access can change. -/
structure Untouched (cfg : CacheConfig) (mf : MemFetch) (c c' : Cache) : Prop where
  lines : c'.lines = c.lines
  table : c'.table = c.table
  response : c'.currentResponse = c.currentResponse
  queue : c'.missQueue = c.missQueue
  extra : c'.extraMfFields = c.extraMfFields
  request : c'.requestRange cfg mf = c.requestRange cfg mf

/-- A write that `FETCH_ON_WRITE` carries out although it reports it as failed: it misses, it
passes the checks, and it is not one that finds its sector modified in a line that is not allocated
on a miss. -/
def failsLate (kind : CacheKind) (cfg : CacheConfig) (c : Cache) (mf : MemFetch) : Bool :=
  kind == .data && mf.isWrite && cfg.writeAllocPolicy == .fetchOnWrite && c.missRoom cfg mf &&
    match cfg.probe c.lines (cfg.getBlockAddr mf.addr) (cfg.sectorOf mf) with
    | .error _ | .ok (.hit _) | .ok .reservationFail => false
    | .ok p => !writesWholeAtom cfg mf || cfg.allocPolicy == .onMiss ||
        (c.lines p.idx).status (cfg.sectorOf mf) != .modified

variable {kind : CacheKind} {cfg : CacheConfig} {c c' : Cache} {mf : MemFetch} {time : Nat}
  {events : List CacheEvent} {p : Probe} {lines : Lines} {evicted : Option EvictedBlockInfo}

theorem failsLate_eq_true :
    failsLate kind cfg c mf = true ↔
      kind = .data ∧ mf.isWrite = true ∧ cfg.writeAllocPolicy = .fetchOnWrite ∧
        missRoom cfg c mf = true ∧
        ∃ p, cfg.probe c.lines (cfg.getBlockAddr mf.addr) (cfg.sectorOf mf) = .ok p ∧
          p ≠ .hit p.idx ∧ p ≠ .reservationFail ∧
          (writesWholeAtom cfg mf = false ∨ cfg.allocPolicy = .onMiss ∨
            (c.lines p.idx).status (cfg.sectorOf mf) ≠ .modified) := by
  unfold failsLate
  cases hp : cfg.probe c.lines (cfg.getBlockAddr mf.addr) (cfg.sectorOf mf) with
  | error => simp
  | ok q => cases q <;> simp [Probe.idx, or_assoc, and_assoc]

theorem fetchOnWrite_of_missStatus (h : missStatus cfg mf = .reservationFail) :
    mf.isWrite = true ∧ cfg.writeAllocPolicy = .fetchOnWrite := by
  simp only [missStatus] at h
  grind

theorem writtenBlock_fetchOnWrite (hpol : cfg.writeAllocPolicy = .fetchOnWrite) {s : Sector}
    (b : CacheBlock) : (writtenBlock cfg p s b).readable = b.readable := by
  simp only [writtenBlock, hpol]
  cases p <;> rfl

/-- A line is taken for the write, or its sector was not modified before. -/
theorem written_ne (hpol : cfg.writeAllocPolicy = .fetchOnWrite)
    (ht : cfg.tagAccess c.lines (cfg.getBlockAddr mf.addr) time (cfg.sectorOf mf) =
      .ok (p, lines, evicted)) (hh : p ≠ .hit p.idx) (hf : p ≠ .reservationFail)
    (hlate : cfg.allocPolicy = .onMiss ∨
      (c.lines p.idx).status (cfg.sectorOf mf) ≠ .modified) :
    Function.update lines p.idx (writtenBlock cfg p (cfg.sectorOf mf) (lines p.idx)) ≠
      c.lines := by
  intro heq
  have hblock := congrFun heq p.idx
  rw [Function.update_self] at hblock
  have hb := writtenBlock_rewrites cfg p (cfg.sectorOf mf) (lines p.idx)
  rw [hblock] at hb
  have hst : (c.lines p.idx).status (cfg.sectorOf mf) = .modified := by
    rw [hb.status, Function.update_self]
  have hon : cfg.allocPolicy = .onMiss := hlate.resolve_right (absurd hst)
  have hp := CacheConfig.probe_of_tagAccess ht
  have hopened := CacheConfig.tagAccess_opened ht hh hf
  cases p with
  | hit i => exact hh rfl
  | reservationFail => exact hf rfl
  | hitReserved i =>
    have hreserved := (CacheConfig.found_probe hp).hitReserved i rfl
    simp [Probe.idx, hreserved] at hst
  | sectorMiss i =>
    have hread := writtenBlock_fetchOnWrite hpol (p := .sectorMiss i) (s := cfg.sectorOf mf)
      (lines i)
    simp only [Probe.idx] at hblock hread
    rw [hblock] at hread
    have hold := CacheConfig.unreadable_of_sectorMiss hp hst
    have hnew := hopened.readable rfl hon
    simp only [Probe.idx] at hnew
    rw [hread, hnew] at hold
    cases hold
  | miss i =>
    have htag : (c.lines i).tag = cfg.getTag (cfg.getBlockAddr mf.addr) :=
      hb.tag.trans (hopened.claimed rfl hon).1
    have hway := CacheConfig.idx_mem_ways hp (by simp)
    have hinvalid := (CacheConfig.invalid_of_matchLine
      (CacheConfig.passed_of_miss hp i hway) htag).1
    simp [Probe.idx, hinvalid] at hst

/-- Nothing is written into a line that has the sector modified already. -/
theorem written_eq (hpol : cfg.writeAllocPolicy = .fetchOnWrite)
    (ht : cfg.tagAccess c.lines (cfg.getBlockAddr mf.addr) time (cfg.sectorOf mf) =
      .ok (p, lines, evicted)) (hh : p ≠ .hit p.idx) (hf : p ≠ .reservationFail)
    (hon : cfg.allocPolicy ≠ .onMiss)
    (hst : (c.lines p.idx).status (cfg.sectorOf mf) = .modified) :
    Function.update lines p.idx (writtenBlock cfg p (cfg.sectorOf mf) (lines p.idx)) = c.lines ∧
      evicted = none := by
  have hp := CacheConfig.probe_of_tagAccess ht
  have hopened := CacheConfig.tagAccess_opened ht hh hf
  obtain rfl := hopened.same hon
  refine ⟨?_, (hopened.kept (.inr hon)).1⟩
  have hblock : writtenBlock cfg p (cfg.sectorOf mf) (c.lines p.idx) = c.lines p.idx := by
    cases p with
    | hitReserved i =>
      have hreserved := (CacheConfig.found_probe hp).hitReserved i rfl
      simp [Probe.idx, hreserved] at hst
    | _ => simp only [writtenBlock, hpol, CacheBlock.setStatus, ← hst, Function.update_eq_self]
  rw [hblock, Function.update_eq_self]

theorem joins_table_ne {m : MemFetch} {i : Nat} {table : Binding (BitVec 64) MshrEntry}
    {extra : Binding Nat ExtraMfFields} {sent : List MemFetch}
    (h : Joins cfg c m i table extra sent) : table ≠ c.table := by
  intro heq
  have hlookup := congrArg (AList.lookup (cfg.getMshrAddr m.addr)) heq
  cases h with
  | merged lookup room =>
    rw [AList.lookup_insert, lookup] at hlookup
    have hlist := congrArg MshrEntry.list (Option.some_inj.mp hlookup)
    simp at hlist
  | requested lookup room =>
    rw [AList.lookup_insert, lookup] at hlookup
    cases hlookup

theorem data_of_write {status : CacheRequestStatus}
    (h : c.access kind cfg mf time = .ok (status, events, c')) (hw : mf.isWrite = true) :
    kind = .data := by
  cases kind with
  | data => rfl
  | readOnly =>
    simp only [access, readOnlyAccess] at h
    split at h
    case isTrue => cases h
    case isFalse hok => exact absurd (.inr (.inr hw)) hok

/-- A refused access leaves everything as it was exactly if it is not a write that
`FETCH_ON_WRITE` carries out. -/
theorem failed_access_untouched_iff
    (h : c.access kind cfg mf time = .ok (.reservationFail, events, c')) :
    Untouched cfg mf c c' ↔ failsLate kind cfg c mf = false := by
  have heffect := effect_access h
  have hkind : mf.isWrite = true → kind = .data := data_of_write h
  rw [← Bool.not_eq_true, failsLate_eq_true]
  generalize hs : CacheRequestStatus.reservationFail = status at heffect
  cases heffect with
  | forwarded => cases hs
  | hit => cases hs
  | refused reason =>
    refine iff_of_true ⟨rfl, rfl, rfl, rfl, rfl, rfl⟩ ?_
    rintro ⟨-, hw, hpol, hroom, p, hp, hh, hf, -⟩
    obtain ⟨q, hq, hhit | hfail⟩ := reason hw hpol hroom
    · obtain rfl : q = p := Except.ok.inj (hq.symm.trans hp)
      exact hh hhit
    · obtain rfl : q = p := Except.ok.inj (hq.symm.trans hp)
      exact hf hfail
  | overwritten tells tag missed found whole room =>
    obtain ⟨hw, hpol⟩ := fetchOnWrite_of_missStatus hs.symm
    have hatom : writesWholeAtom cfg mf = true := by simpa [overwrites, hw, hpol] using whole
    have hno : forwardsMiss cfg mf = false := by simp [forwardsMiss, hpol]
    have hp := CacheConfig.probe_of_tagAccess tag
    constructor
    · rintro huntouched ⟨-, -, -, -, q, hq, -, -, hlate⟩
      obtain rfl := Except.ok.inj (hq.symm.trans hp)
      exact written_ne hpol tag missed found (hlate.resolve_left (by simp [hatom]))
        huntouched.lines
    · intro hlate
      have hon : cfg.allocPolicy ≠ .onMiss := fun hon =>
        hlate ⟨hkind hw, hw, hpol, room, _, hp, missed, found, .inr (.inl hon)⟩
      obtain ⟨hlines, rfl⟩ := written_eq hpol tag missed found hon (by
        by_contra hst
        exact hlate ⟨hkind hw, hw, hpol, room, _, hp, missed, found, .inr (.inr hst)⟩)
      refine ⟨hlines, rfl, rfl, ?_, rfl, rfl⟩
      simp [hno, evictedPackets]
  | awaited tells tag missed found fetched room rewrites joins uids =>
    obtain ⟨hw, hpol⟩ := fetchOnWrite_of_missStatus hs.symm
    have hpart : writesWholeAtom cfg mf = false := by simpa [fetches, hw, hpol] using fetched
    refine iff_of_false (fun huntouched => joins_table_ne joins huntouched.table) (not_not.mpr ?_)
    exact ⟨hkind hw, hw, hpol, room, _, CacheConfig.probe_of_tagAccess tag, missed, found,
      .inl hpart⟩

def noQueue : CacheConfig := { oneLine .fetchOnWrite with missQueueSize := 0 }

/-- A read that finds no room in the miss queue leaves nothing behind. -/
theorem failed_read_untouched :
    ∃ c', (initial fun _ => emptyLine).access .data noQueue (wordRequest 0 0 false) 1 =
        .ok (.reservationFail, [], c') ∧
      Untouched noQueue (wordRequest 0 0 false) (initial fun _ => emptyLine) c' := by
  have h : (initial fun _ => emptyLine).access .data noQueue (wordRequest 0 0 false) 1 =
      .ok (.reservationFail, [], _) := rfl
  exact ⟨_, h, (failed_access_untouched_iff h).mpr rfl⟩

/-- A write of four bytes asks for its block and is reported as failed. -/
theorem failed_write_touches : ∃ c tr mf time events c',
    Run .data (oneLine .fetchOnWrite) (fun _ _ => True) c tr ∧ c.Fresh (.access mf time) ∧
      { c with uid := max c.uid (mf.id + 1) }.access .data (oneLine .fetchOnWrite) mf time =
        .ok (.reservationFail, events, c') ∧
      ¬ Untouched (oneLine .fetchOnWrite) mf c c' := by
  refine ⟨_, _, wordRequest 0 0 true, 1, _, _, .start (fun _ => emptyLine) fun _ _ => rfl, rfl, rfl,
    fun h => ?_⟩
  have hqueue := congrArg List.length h.queue
  exact absurd hqueue (by decide)

end Cache

end NdpSim
