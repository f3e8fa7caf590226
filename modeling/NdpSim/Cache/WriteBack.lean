import NdpSim.Cache.Run

/-!
# Write-backs

The line an access evicts is summed up by the number of its modified sectors and by a mask, and
`write_back` makes its requests from these alone. The mask it is given is not the one of the dirty
sectors but the state of the accessed sector, and the requests are for the first sectors of the
block, whichever were modified.
-/
namespace NdpSim

open Library

namespace CacheBlock

variable (b : CacheBlock)

/-- The sectors that have to go to memory: all of them for a line without sectors. -/
def dirtySectors (t : CacheType) : List Sector :=
  match t with
  | .normal => if b.isModifiedLine then List.finRange 4 else []
  | .sector => (List.finRange 4).filter fun s => b.status s = .modified

def getDirtyMask (t : CacheType) : Nat :=
  match t with
  | .normal => 2 ^ sectorChunkSize - 1
  | .sector => ∑ s ∈ Finset.univ.filter fun s => b.status s = .modified, 2 ^ s.val

def sectorAddr (s : Sector) : BitVec 64 := b.blockAddr + BitVec.ofNat 64 (s.val * packetSize)

end CacheBlock

namespace Cache

/-- The writes a step of the cache has queued that are no request of a caller. -/
def writeBacks (c c' : Cache) : List MemFetch :=
  (c'.missQueue.drop c.missQueue.length).filter fun mf => mf.isWrite && c.uid ≤ mf.id

/-- Every dirty sector of the line is written back once, with the dirty mask of the line. -/
structure WritesBack (cfg : CacheConfig) (b : CacheBlock) (packets : List MemFetch) : Prop where
  addrs : (packets.map MemFetch.addr).Perm ((b.dirtySectors cfg.cacheType).map b.sectorAddr)
  mask : ∀ mf ∈ packets, mf.dirtyMask = b.getDirtyMask cfg.cacheType

/-- The access gives line `i` to another block. -/
structure Evicts (cfg : CacheConfig) (c : Cache) (mf : MemFetch) (c' : Cache) (i : Nat) :
    Prop where
  policy : cfg.allocPolicy = .onMiss
  probe : cfg.probe c.lines (cfg.getBlockAddr mf.addr) (cfg.sectorOf mf) = .ok (.miss i)
  claimed : c'.lines i ≠ c.lines i

/-- What is written back of a line is what should be: nothing has to be, or it is the first two
sectors and the access is to one of them. -/
def writesBackRight (cfg : CacheConfig) (b : CacheBlock) (s : Sector) : Bool :=
  !b.isModifiedLine || cfg.cacheType == .sector &&
    decide (∀ t, b.status t = .modified ↔ t.val < 2) && decide (s.val < 2)

/-! ## Sectors -/

variable {kind : CacheKind} {cfg : CacheConfig} {c c' : Cache} {mf : MemFetch} {time i n : Nat}
  {status : CacheRequestStatus} {events : List CacheEvent} {b : CacheBlock} {s : Sector}

theorem sectorAddr_injective (b : CacheBlock) : Function.Injective b.sectorAddr := by
  intro s t h
  have hoff := (BitVec.add_right_inj _).mp h
  clear h
  revert s t
  decide

/-- The packets of `write_back` are those of the first sectors. -/
theorem range_map_eq_take {k : Nat} (hk : k ≤ 4) (b : CacheBlock) :
    (List.range k).map (fun i => b.blockAddr + BitVec.ofNat 64 (i * packetSize)) =
      ((List.finRange 4).take k).map b.sectorAddr := by
  interval_cases k <;> rfl

/-- The first sectors are the modified ones, and the state of one sector is the mask of all: this
happens for the first two sectors only. -/
theorem take_perm_and_mask_iff {M : Finset Sector} (hM : M.Nonempty) {st : CacheBlockState}
    (hr : st ≠ .reserved) (hst : st = .modified ↔ s ∈ M) :
    (((List.finRange 4).take M.card).Perm ((List.finRange 4).filter (· ∈ M)) ∧
        st.toNat = ∑ t ∈ M, 2 ^ t.val) ↔ M = {0, 1} ∧ s.val < 2 := by
  have hall : ∀ (M : Finset Sector), M.Nonempty → ∀ (s : Sector), ∀ code ∈ [0, 2, 3],
      (code = 3 ↔ s ∈ M) →
      ((((List.finRange 4).take M.card).Perm ((List.finRange 4).filter (· ∈ M)) ∧
        code = ∑ t ∈ M, 2 ^ t.val) ↔ M = {0, 1} ∧ s.val < 2) := by decide +kernel
  apply hall M hM s st.toNat
  · cases st <;> simp_all [CacheBlockState.toNat]
  · rw [← hst]
    cases st <;> simp [CacheBlockState.toNat]

/-! ## The packets of an eviction -/

theorem addr_writeBackPackets (n : Nat) (ev : EvictedBlockInfo) :
    (writeBackPackets n ev).map MemFetch.addr =
      (List.range (ev.modifiedSize / packetSize)).map
        fun i => ev.blockAddr + BitVec.ofNat 64 (i * packetSize) := by
  simp [writeBackPackets]

theorem mask_writeBackPackets {n : Nat} {ev : EvictedBlockInfo} {m : Nat}
    (hpos : 0 < ev.modifiedSize / packetSize) :
    (∀ mf ∈ writeBackPackets n ev, mf.dirtyMask = m) ↔ ev.dirtyMask = m := by
  constructor
  · intro h
    exact h _ (List.mem_map.mpr ⟨0, List.mem_range.mpr hpos, rfl⟩)
  · intro h mf hmf
    obtain ⟨j, -, rfl⟩ := List.mem_map.mp hmf
    exact h

theorem toNat_lt (st : CacheBlockState) : st.toNat < 4 := by cases st <;> decide

/-- A dirty line without sectors gets a mask of two bits at most. -/
theorem not_writesBack_normal {ev : EvictedBlockInfo} (ht : cfg.cacheType = .normal)
    (hsize : ev.modifiedSize = b.getModifiedSize .normal) (hmask : ev.dirtyMask < 4) :
    ¬ WritesBack cfg b (writeBackPackets n ev) := by
  intro h
  have hpos : 0 < ev.modifiedSize / packetSize := by
    simp [hsize, CacheBlock.getModifiedSize, sectorChunkSize, memAccessSize, packetSize]
  have heq := (mask_writeBackPackets hpos).mp h.mask
  rw [ht] at heq
  simp only [CacheBlock.getDirtyMask, sectorChunkSize] at heq
  omega

theorem writesBack_sector_iff {ev : EvictedBlockInfo} (ht : cfg.cacheType = .sector)
    (hr : ∀ t, b.status t ≠ .reserved) (hm : b.isModifiedLine = true)
    (hev : ev = ⟨b.blockAddr, b.getModifiedSize .sector, (b.status s).toNat⟩) :
    WritesBack cfg b (writeBackPackets n ev) ↔
      (∀ t, b.status t = .modified ↔ t.val < 2) ∧ s.val < 2 := by
  subst hev
  set M : Finset Sector := Finset.univ.filter fun t => b.status t = .modified with hM
  have hmem : ∀ t, t ∈ M ↔ b.status t = .modified := by simp [hM]
  have hne : M.Nonempty := by
    obtain ⟨t, hmod⟩ : ∃ t, b.status t = .modified := by
      simpa [CacheBlock.isModifiedLine] using hm
    exact ⟨t, (hmem t).mpr hmod⟩
  have hcard : b.getModifiedSize .sector / packetSize = M.card := by
    simp only [CacheBlock.getModifiedSize, memAccessSize, packetSize, ← hM]
    omega
  have hle : M.card ≤ 4 := (Finset.card_le_univ M).trans (by simp)
  have hdirty : b.dirtySectors .sector = (List.finRange 4).filter (· ∈ M) := by
    simp only [CacheBlock.dirtySectors, hmem]
  have hfirst : M = {0, 1} ↔ ∀ t, b.status t = .modified ↔ t.val < 2 := by
    simp only [Finset.ext_iff, hmem]
    refine forall_congr' fun t => ?_
    have : t ∈ ({0, 1} : Finset Sector) ↔ t.val < 2 := by revert t; decide
    rw [this]
  rw [← hfirst, ← take_perm_and_mask_iff hne (hr s) (hmem s).symm]
  have hpos : 0 < b.getModifiedSize .sector / packetSize := by
    rw [hcard]
    exact hne.card_pos
  constructor
  · rintro ⟨haddrs, hmask⟩
    rw [ht] at haddrs hmask
    rw [addr_writeBackPackets, hcard, range_map_eq_take hle,
      List.map_perm_map_iff (sectorAddr_injective b), hdirty] at haddrs
    exact ⟨haddrs, (mask_writeBackPackets hpos).mp hmask⟩
  · rintro ⟨haddrs, hmask⟩
    refine ⟨?_, ?_⟩
    · rw [ht, addr_writeBackPackets, hcard, range_map_eq_take hle,
        List.map_perm_map_iff (sectorAddr_injective b), hdirty]
      exact haddrs
    · rw [ht]
      exact (mask_writeBackPackets hpos).mpr hmask

theorem writesBack_evicted_iff (hr : ∀ t, b.status t ≠ .reserved) :
    WritesBack cfg b ((cfg.evictedInfo b s).toList.flatMap (writeBackPackets n)) ↔
      writesBackRight cfg b s = true := by
  by_cases hm : b.isModifiedLine = true
  case neg =>
    have hno : b.isModifiedLine = false := by simpa using hm
    have hclean : ∀ t, b.status t ≠ .modified := by
      simpa [CacheBlock.isModifiedLine] using hno
    refine iff_of_true ⟨?_, ?_⟩ (by simp [writesBackRight, hno])
    · have hdirty : b.dirtySectors cfg.cacheType = [] := by
        cases cfg.cacheType <;> simp [CacheBlock.dirtySectors, hno, hclean]
      simp [CacheConfig.evictedInfo, hno, hdirty]
    · simp [CacheConfig.evictedInfo, hno]
  case pos =>
    simp only [CacheConfig.evictedInfo, hm, if_true, Option.toList_some, List.flatMap_cons,
      List.flatMap_nil, List.append_nil]
    cases ht : cfg.cacheType with
    | normal =>
      exact iff_of_false (not_writesBack_normal ht rfl (toNat_lt (b.status s)))
        (by simp [writesBackRight, hm, ht])
    | sector =>
      rw [writesBack_sector_iff ht hr hm rfl]
      simp [writesBackRight, hm, ht]

/-! ## The requests an access queues -/

/-- The write-backs are what the miss queue gets besides requests of the callers and reads. -/
theorem writeBacks_append {fwd sent : List MemFetch} {evicted : Option EvictedBlockInfo} {n : Nat}
    (hqueue : c'.missQueue = c.missQueue ++ fwd ++ sent ++
      evicted.toList.flatMap (writeBackPackets n))
    (hfwd : ∀ m ∈ fwd, m.id < c.uid) (hsent : ∀ m ∈ sent, m.isWrite = false)
    (hn : c.uid ≤ n) : writeBacks c c' = evicted.toList.flatMap (writeBackPackets n) := by
  have hnone : ∀ m ∈ fwd ++ sent, ¬ (m.isWrite && decide (c.uid ≤ m.id)) = true := by
    intro m hm
    obtain hm | hm := List.mem_append.mp hm
    · have := hfwd m hm
      simp
      omega
    · simp [hsent m hm]
  have hall : ∀ m ∈ evicted.toList.flatMap (writeBackPackets n),
      (m.isWrite && decide (c.uid ≤ m.id)) = true := by
    intro m hm
    obtain ⟨ev, -, hm⟩ := List.mem_flatMap.mp hm
    obtain ⟨j, -, rfl⟩ := List.mem_map.mp hm
    simp
    omega
  rw [writeBacks, hqueue, List.append_assoc, List.append_assoc, List.drop_left,
    ← List.append_assoc, List.filter_append, List.filter_eq_nil_iff.mpr hnone,
    List.filter_eq_self.mpr hall, List.nil_append]

theorem waiter_isWrite (cfg : CacheConfig) (c : Cache) (mf : MemFetch) :
    (waiter cfg c mf).isWrite = false := by
  unfold waiter
  split
  case isTrue => rfl
  case isFalse h => simpa using h

theorem isWrite_of_joins {m : MemFetch} {table : Binding (BitVec 64) MshrEntry}
    {extra : Binding Nat ExtraMfFields} {sent : List MemFetch}
    (h : Joins cfg c m i table extra sent) (hr : m.isWrite = false) :
    ∀ q ∈ sent, q.isWrite = false := by
  cases h with
  | merged => simp
  | requested => simp [hr]

/-- A line is claimed with its write-backs queued, in every way a miss can be handled. -/
theorem writeBacks_of_evicts (hwb : cfg.writePolicy = .writeBack) (hid : mf.id < c.uid)
    (h : Effect .data cfg c mf time status events c') (hev : Evicts cfg c mf c' i) :
    ∃ n, writeBacks c c' =
      (cfg.evictedInfo (c.lines i) (cfg.sectorOf mf)).toList.flatMap (writeBackPackets n) := by
  have hpackets : ∀ n evicted, evictedPackets .data cfg n evicted =
      evicted.toList.flatMap (writeBackPackets n) := by simp [evictedPackets, hwb]
  have hfwd : ∀ m ∈ if forwardsMiss cfg mf then [mf] else [], m.id < c.uid := by
    intro m hm
    split at hm
    · rwa [List.mem_singleton.mp hm]
    · cases hm
  cases h with
  | refused => exact absurd rfl hev.claimed
  | forwarded => exact absurd rfl hev.claimed
  | hit tells probe rewrites hst => cases Except.ok.inj (probe.symm.trans hev.probe)
  | overwritten tells tag missed found whole room =>
    obtain rfl := Except.ok.inj ((CacheConfig.probe_of_tagAccess tag).symm.trans hev.probe)
    have hopened := CacheConfig.tagAccess_opened tag missed found
    obtain ⟨-, -, -, rfl⟩ := hopened.claimed rfl hev.policy
    have hsent : ∀ m ∈ ([] : List MemFetch), m.isWrite = false := by simp
    refine ⟨c.uid, writeBacks_append ?_ hfwd hsent (le_refl _)⟩
    rw [List.append_nil, ← hpackets]
    rfl
  | awaited tells tag missed found fetched room rewrites joins uids =>
    obtain rfl := Except.ok.inj ((CacheConfig.probe_of_tagAccess tag).symm.trans hev.probe)
    have hopened := CacheConfig.tagAccess_opened tag missed found
    obtain ⟨-, -, -, rfl⟩ := hopened.claimed rfl hev.policy
    have hsent := isWrite_of_joins joins (waiter_isWrite cfg c mf)
    refine ⟨_, writeBacks_append ?_ hfwd hsent (n := if mf.isWrite then c.uid + 1 else c.uid) ?_⟩
    · rw [← uids, ← hpackets]
      rfl
    · split <;> omega

/-- The write-backs of an access are right exactly if the evicted line is clean, or has its first
two sectors modified and the access is to one of them. -/
theorem writeBacks_right_iff (hwb : cfg.writePolicy = .writeBack) (hid : mf.id < c.uid)
    (h : c.access .data cfg mf time = .ok (status, events, c')) (hev : Evicts cfg c mf c' i) :
    WritesBack cfg (c.lines i) (writeBacks c c') ↔
      writesBackRight cfg (c.lines i) (cfg.sectorOf mf) = true := by
  obtain ⟨n, hpackets⟩ := writeBacks_of_evicts hwb hid (effect_access h) hev
  rw [hpackets]
  exact writesBack_evicted_iff ((CacheConfig.found_probe hev.probe).miss i rfl)

/-- A cache with a single line of four sectors that writes back. -/
def oneSectorLine : CacheConfig :=
  { oneLine .lazyFetchOnRead with cacheType := .sector, lineSize := 128 }

theorem writeBacks_first_sectors : ∃ c tr c' events,
    Run .data oneSectorLine (fun _ _ => True) c tr ∧
      c.access .data oneSectorLine (wordRequest 0 128 false) 3 = .ok (.miss, events, c') ∧
      WritesBack oneSectorLine (c.lines 0) (writeBacks c c') := by
  have hrun : Run .data oneSectorLine (fun _ _ => True) _ _ :=
    .step (.step (.start (fun _ => emptyLine) fun _ _ => rfl)
      (.access (wordRequest 2 0 true) 1) trivial rfl rfl)
      (.access (wordRequest 1 32 true) 2) trivial rfl rfl
  obtain ⟨c, tr, hrun, c', events, haccess, hev, hid, hright⟩ :
      ∃ c tr, Run .data oneSectorLine (fun _ _ => True) c tr ∧ ∃ c' events,
        c.access .data oneSectorLine (wordRequest 0 128 false) 3 = .ok (.miss, events, c') ∧
        Evicts oneSectorLine c (wordRequest 0 128 false) c' 0 ∧ 0 < c.uid ∧
        writesBackRight oneSectorLine (c.lines 0) 0 = true := by
    refine ⟨_, _, hrun, _, _, rfl, ⟨rfl, rfl, fun h => ?_⟩, by decide, by decide⟩
    exact absurd (congrArg CacheBlock.tag h) (by decide)
  exact ⟨c, tr, c', events, hrun, haccess, (writeBacks_right_iff rfl hid haccess hev).mpr hright⟩

/-- A line with its third sector modified is written back as its first. -/
theorem writeBacks_third_sector : ∃ c tr c' events,
    Run .data oneSectorLine (fun _ _ => True) c tr ∧
      c.access .data oneSectorLine (wordRequest 0 128 false) 2 = .ok (.miss, events, c') ∧
      Evicts oneSectorLine c (wordRequest 0 128 false) c' 0 ∧
      ¬ WritesBack oneSectorLine (c.lines 0) (writeBacks c c') := by
  have hrun : Run .data oneSectorLine (fun _ _ => True) _ _ :=
    .step (.start (fun _ => emptyLine) fun _ _ => rfl)
      (.access (wordRequest 1 64 true) 1) trivial rfl rfl
  refine ⟨_, _, _, _, hrun, rfl, ⟨rfl, rfl, fun h => ?_⟩, fun h => ?_⟩
  · exact absurd (congrArg CacheBlock.tag h) (by decide)
  · have haddr := h.addrs.subset List.mem_cons_self
    exact absurd haddr (by decide)

end Cache

end NdpSim
