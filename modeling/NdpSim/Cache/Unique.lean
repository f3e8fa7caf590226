import NdpSim.Cache.Run

/-!
# One line per block

A block has one line at most, in the set of its address. A lookup chooses a victim only if no line
of the set has the block, so an access keeps this. A fill does not look: it writes into the line it
remembers, which may have been given up by then. And where lines are allocated by fills, a write
that waits for nothing is put into the victim as it stands.
-/
namespace NdpSim

open Library

/-- A line that is not fully `INVALID`. -/
def CacheBlock.Live (b : CacheBlock) : Prop := ∃ s, b.status s ≠ .invalid

instance (b : CacheBlock) : Decidable b.Live := inferInstanceAs (Decidable (∃ _, _))

/-- Every block has one line at most among those that are not fully `INVALID`, and the line is in
the set of the block. -/
structure OneLinePerBlock (cfg : CacheConfig) (lines : Lines) : Prop where
  unique : ∀ i j, (lines i).Live → (lines j).Live → i / cfg.assoc = j / cfg.assoc →
    (lines i).tag = (lines j).tag → i = j
  home : ∀ i, (lines i).Live → i / cfg.assoc = cfg.setIndex (lines i).blockAddr

/-- The lines as lookups need them: a block has one line in its set, with its address as the tag,
and a line without sectors has a single state. -/
structure Placed (cfg : CacheConfig) (lines : Lines) : Prop where
  plain : cfg.cacheType = .normal → ∀ i s, s ≠ 0 → (lines i).status s = .invalid
  aligned : ∀ i, (lines i).Live → (lines i).tag = (lines i).blockAddr
  home : ∀ i, (lines i).Live → i ∈ cfg.ways (lines i).blockAddr
  unique : ∀ i j, (lines i).Live → (lines j).Live → (lines i).tag = (lines j).tag → i = j

theorem CacheBlock.Rewrites.trans {b b' b'' : CacheBlock} {s : Sector} {st st' : CacheBlockState}
    (h : b.Rewrites b' s st) (h' : b'.Rewrites b'' s st') : b.Rewrites b'' s st' := by
  refine ⟨h'.tag.trans h.tag, h'.blockAddr.trans h.blockAddr, ?_⟩
  rw [h'.status, h.status, Function.update_idem]

namespace CacheConfig

variable {cfg : CacheConfig} {lines lines' : Lines} {s : Sector} {i : Nat} {b : CacheBlock}
  {addr : BitVec 64}

theorem live_of_matchLine {tag : BitVec 64} {p : Probe}
    (h : cfg.matchLine lines tag s i = some p) : (lines i).Live := by
  by_contra hno
  have hall : ∀ t, (lines i).status t = .invalid := by simpa [CacheBlock.Live] using hno
  simp only [matchLine, hall] at h
  cases ht : cfg.cacheType <;>
    simp [ht, CacheBlock.isValidLine, CacheBlock.isInvalidLine, hall] at h

/-- What a lookup found by its tag is not fully `INVALID`. -/
theorem live_of_probe {p : Probe} (h : cfg.probe lines addr s = .ok p) (hm : p ≠ .miss p.idx)
    (hf : p ≠ .reservationFail) : (lines p.idx).Live :=
  live_of_matchLine (match_of_probeWays h hm hf)

theorem div_of_mem_ways (h : i ∈ cfg.ways addr) : i / cfg.assoc = cfg.setIndex addr := by
  obtain ⟨w, hw, rfl⟩ := List.mem_map.mp h
  have hlt := List.mem_range.mp hw
  rw [Nat.mul_comm, Nat.mul_add_div (by omega), Nat.div_eq_of_lt hlt, Nat.add_zero]

theorem getTag_getTag (addr : BitVec 64) : cfg.getTag (cfg.getTag addr) = cfg.getTag addr :=
  alignDown_alignDown _ _

theorem ways_congr {a a' : BitVec 64} (h : cfg.setIndex a = cfg.setIndex a') :
    cfg.ways a = cfg.ways a' := by
  simp only [ways, h]

end CacheConfig

namespace Placed

variable {cfg : CacheConfig} {lines : Lines} {s : Sector} {i : Nat} {b : CacheBlock}
  {addr : BitVec 64} {st : CacheBlockState}

theorem oneLinePerBlock (h : Placed cfg lines) : OneLinePerBlock cfg lines :=
  ⟨fun i j hi hj _ => h.unique i j hi hj, fun i hi => CacheConfig.div_of_mem_ways (h.home i hi)⟩

theorem start (h : ∀ i s, (lines i).status s = .invalid) : Placed cfg lines := by
  have hdead : ∀ i, ¬ (lines i).Live := fun i ⟨s, hs⟩ => hs (h i s)
  exact ⟨fun _ i s _ => h i s, fun i hi => absurd hi (hdead i), fun i hi => absurd hi (hdead i),
    fun i _ hi => absurd hi (hdead i)⟩

/-- A line keeps its block, and does not come to life. -/
theorem rewrite (h : Placed cfg lines) (hb : (lines i).Rewrites b s st)
    (hs : cfg.cacheType = .normal → s = 0) (hlive : b.Live → (lines i).Live) :
    Placed cfg (Function.update lines i b) := by
  have hold : ∀ j, (Function.update lines i b j).Live → (lines j).Live ∧
      (Function.update lines i b j).tag = (lines j).tag ∧
      (Function.update lines i b j).blockAddr = (lines j).blockAddr := by
    intro j hj
    by_cases hji : j = i
    · subst hji
      rw [Function.update_self] at hj ⊢
      exact ⟨hlive hj, hb.tag, hb.blockAddr⟩
    · rw [Function.update_of_ne hji] at hj ⊢
      exact ⟨hj, rfl, rfl⟩
  refine ⟨fun ht j t hne => ?_, fun j hj => ?_, fun j hj => ?_, fun j k hj hk htag => ?_⟩
  · by_cases hji : j = i
    · subst hji
      rw [Function.update_self, hb.status, Function.update_of_ne, h.plain ht j t hne]
      rw [hs ht]
      exact hne
    · rw [Function.update_of_ne hji]
      exact h.plain ht j t hne
  · obtain ⟨hj, htag, hblock⟩ := hold j hj
    rw [htag, hblock]
    exact h.aligned j hj
  · obtain ⟨hj, -, hblock⟩ := hold j hj
    rw [hblock]
    exact h.home j hj
  · obtain ⟨hj, htj, -⟩ := hold j hj
    obtain ⟨hk, htk, -⟩ := hold k hk
    rw [htj, htk] at htag
    exact h.unique j k hj hk htag

/-- A line with the wanted tag that the lookup has passed over is fully `INVALID`. -/
theorem dead_of_passed (h : Placed cfg lines) (hs : cfg.cacheType = .normal → s = 0)
    {tag : BitVec 64} (hpass : cfg.matchLine lines tag s i = none) (htag : (lines i).tag = tag) :
    ¬ (lines i).Live := by
  obtain ⟨hst, hvalid⟩ := CacheConfig.invalid_of_matchLine hpass htag
  rintro ⟨t, ht⟩
  cases hc : cfg.cacheType with
  | normal =>
    rw [hs hc] at hst
    by_cases h0 : t = 0
    · exact ht (h0 ▸ hst)
    · exact ht (h.plain hc i t h0)
  | sector =>
    have hall : ∀ t, (lines i).status t = .invalid := by
      simpa [hc, CacheBlock.isValidLine, CacheBlock.isInvalidLine] using hvalid
    exact ht (hall t)

/-- A line of the set is given to a block that no line has. -/
theorem claim (h : Placed cfg lines) (hs : cfg.cacheType = .normal → s = 0)
    (hi : i ∈ cfg.ways addr)
    (hpass : ∀ j ∈ cfg.ways addr, cfg.matchLine lines (cfg.getTag addr) s j = none)
    (hset : cfg.setIndex (cfg.getTag addr) = cfg.setIndex addr)
    (htag : b.tag = cfg.getTag addr) (hblock : b.blockAddr = cfg.getTag addr)
    (hst : ∀ t, t ≠ s → b.status t = .invalid) : Placed cfg (Function.update lines i b) := by
  have hnone : ∀ j, (lines j).Live → (lines j).tag ≠ cfg.getTag addr := by
    intro j hj hjtag
    have hhome := h.home j hj
    rw [← h.aligned j hj, hjtag, CacheConfig.ways_congr hset] at hhome
    exact h.dead_of_passed hs (hpass j hhome) hjtag hj
  refine ⟨fun hc j t hne => ?_, fun j hj => ?_, fun j hj => ?_, fun j k hj hk heq => ?_⟩
  · by_cases hji : j = i
    · subst hji
      rw [Function.update_self]
      apply hst
      rw [hs hc]
      exact hne
    · rw [Function.update_of_ne hji]
      exact h.plain hc j t hne
  · by_cases hji : j = i
    · subst hji
      rw [Function.update_self, htag, hblock]
    · rw [Function.update_of_ne hji] at hj ⊢
      exact h.aligned j hj
  · by_cases hji : j = i
    · subst hji
      rw [Function.update_self, hblock, CacheConfig.ways_congr hset]
      exact hi
    · rw [Function.update_of_ne hji] at hj ⊢
      exact h.home j hj
  · by_cases hji : j = i <;> by_cases hki : k = i
    · rw [hji, hki]
    · subst hji
      rw [Function.update_self, Function.update_of_ne hki, htag] at heq
      rw [Function.update_of_ne hki] at hk
      exact absurd heq.symm (hnone k hk)
    · subst hki
      rw [Function.update_self, Function.update_of_ne hji, htag] at heq
      rw [Function.update_of_ne hji] at hj
      exact absurd heq (hnone j hj)
    · rw [Function.update_of_ne hji] at hj heq
      rw [Function.update_of_ne hki] at hk heq
      exact h.unique j k hj hk heq

end Placed

namespace Cache

variable {kind : CacheKind} {cfg : CacheConfig} {c c' : Cache} {mf : MemFetch} {time : Nat}

theorem sectorOf_normal (mf : MemFetch) (h : cfg.cacheType = .normal) : cfg.sectorOf mf = 0 := by
  simp [CacheConfig.sectorOf, h]

/-! ## Accesses -/

/-- The line found for a miss, with a sector of it written. -/
theorem placed_opened {p : Probe} {lines : Lines} {evicted : Option EvictedBlockInfo}
    {b : CacheBlock} {st : CacheBlockState} (h : Placed cfg c.lines)
    (ht : cfg.tagAccess c.lines (cfg.getBlockAddr mf.addr) time (cfg.sectorOf mf) =
      .ok (p, lines, evicted)) (hh : p ≠ .hit p.idx) (hf : p ≠ .reservationFail)
    (hb : (lines p.idx).Rewrites b (cfg.sectorOf mf) st)
    (hlive : p = .miss p.idx → cfg.allocPolicy ≠ .onMiss → b.Live → (c.lines p.idx).Live) :
    Placed cfg (Function.update lines p.idx b) := by
  have hp := CacheConfig.probe_of_tagAccess ht
  have hopened := CacheConfig.tagAccess_opened ht hh hf
  have hupdate : Function.update lines p.idx b = Function.update c.lines p.idx b := by
    funext j
    by_cases hj : j = p.idx
    · rw [hj, Function.update_self, Function.update_self]
    · rw [Function.update_of_ne hj, Function.update_of_ne hj, hopened.other j hj]
  rw [hupdate]
  by_cases hclaim : p = .miss p.idx ∧ cfg.allocPolicy = .onMiss
  case pos =>
    obtain ⟨hmiss, hon⟩ := hclaim
    obtain ⟨htag, hblock, hst, -⟩ := hopened.claimed hmiss hon
    have hway := CacheConfig.idx_mem_ways hp hf
    rw [hmiss] at hp
    refine h.claim (sectorOf_normal mf) hway (CacheConfig.passed_of_miss hp) ?_
      (hb.tag.trans htag) (hb.blockAddr.trans hblock) fun t hne => ?_
    · exact congrArg cfg.setIndex (CacheConfig.getTag_getTag mf.addr)
    · rw [hb.status, hst, Function.update_idem, Function.update_of_ne hne]
  case neg =>
    have hkept := (hopened.kept (not_and_or.mp hclaim)).2
    refine h.rewrite (hkept.trans hb) (sectorOf_normal mf) fun hbl => ?_
    by_cases hmiss : p = .miss p.idx
    · exact hlive hmiss (fun hon => hclaim ⟨hmiss, hon⟩) hbl
    · exact CacheConfig.live_of_probe hp hmiss hf

/-- No write is put into a fully `INVALID` line that was not allocated for it. -/
def WritesPlaced (cfg : CacheConfig) (c : Cache) (mf : MemFetch) : Prop :=
  cfg.allocPolicy = .onMiss ∨ overwrites cfg mf = false ∨
    ∀ i, cfg.probe c.lines (cfg.getBlockAddr mf.addr) (cfg.sectorOf mf) = .ok (.miss i) →
      (c.lines i).Live

theorem placed_access {status : CacheRequestStatus} {events : List CacheEvent}
    (h : Placed cfg c.lines) (hplaced : WritesPlaced cfg c mf)
    (heff : Effect kind cfg c mf time status events c') : Placed cfg c'.lines := by
  cases heff with
  | refused => exact h
  | forwarded => exact h
  | hit tells probe rewrites hst =>
    exact h.rewrite rewrites (sectorOf_normal mf) fun _ =>
      CacheConfig.live_of_probe probe (by simp) (by simp)
  | overwritten tells tag missed found whole room =>
    refine placed_opened h tag missed found (writtenBlock_rewrites ..) fun hmiss hon _ => ?_
    have hp := CacheConfig.probe_of_tagAccess tag
    rw [hmiss] at hp
    obtain hon' | hno | hlive := hplaced
    · exact absurd hon' hon
    · simp [whole] at hno
    · exact hlive _ hp
  | awaited tells tag missed found fetched room rewrites joins uids =>
    refine placed_opened h tag missed found rewrites fun _ hon hbl => ?_
    have hsame := (CacheConfig.tagAccess_opened tag missed found).same hon
    obtain ⟨t, ht⟩ := hbl
    rw [rewrites.status, Function.update_eq_self, hsame] at ht
    exact ⟨t, ht⟩

/-! ## Fills -/

/-- The lines after a fill, for each policy. -/
structure FillsLines (cfg : CacheConfig) (c : Cache) (f : ExtraMfFields) (time : Nat)
    (lines : Lines) : Prop where
  onMiss : cfg.allocPolicy = .onMiss → ∃ b st, lines = Function.update c.lines f.cacheIndex b ∧
    (c.lines f.cacheIndex).Rewrites b (cfg.sectorOf f.mf) st
  onFill : cfg.allocPolicy = .onFill →
    cfg.tagFill c.lines f.blockAddr time (cfg.sectorOf f.mf) = .ok lines
  streaming : cfg.allocPolicy = .streaming → lines = c.lines

theorem fill_lines {id : Nat} (h : c.fill cfg id time = .ok c') :
    ∃ f, c.extraMfFields.lookup id = some f ∧ FillsLines cfg c f time c'.lines := by
  simp only [fill] at h
  split at h
  · cases h
  cases hf : c.extraMfFields.lookup id with
  | none => simp only [hf] at h; cases h
  | some f =>
    simp only [hf] at h
    obtain ⟨lines, hl, h⟩ := bind_eq_ok.mp h
    cases he : c.table.lookup f.blockAddr with
    | none => simp only [he] at h; cases h
    | some e =>
      simp only [he] at h
      split at h
      · cases h
      case isFalse hatomic =>
        obtain rfl := Except.ok.inj h
        refine ⟨f, rfl, fun hon => ?_, fun hon => ?_, fun hon => ?_⟩
        · simp only [fillLines, hon] at hl
          obtain rfl := Except.ok.inj hl
          by_cases ha : e.hasAtomic = true
          · simp only [ha, if_true, Function.update_idem, Function.update_self]
            refine ⟨_, .modified, rfl, rfl, rfl, ?_⟩
            simp only [CacheBlock.setStatus, CacheBlock.fill, Function.update_idem]
          · simp only [ha, Bool.false_eq_true, if_false]
            exact ⟨_, _, rfl, rfl, rfl, rfl⟩
        · have ha : e.hasAtomic = false := by
            by_contra ha
            exact hatomic ⟨by simpa using ha, by simp [hon]⟩
          simp only [fillLines, hon] at hl
          simpa [ha] using hl
        · have ha : e.hasAtomic = false := by
            by_contra ha
            exact hatomic ⟨by simpa using ha, by simp [hon]⟩
          simp only [fillLines, hon] at hl
          simpa [ha] using (Except.ok.inj hl).symm

theorem rewrites_allocateSector {b b' : CacheBlock} {s : Sector}
    (h : b.allocateSector time s = .ok b') : b.Rewrites b' s .reserved := by
  unfold CacheBlock.allocateSector at h
  split at h
  case isFalse => cases h
  case isTrue =>
    obtain rfl := Except.ok.inj h
    exact ⟨rfl, rfl, rfl⟩

theorem rewrites_fill (b : CacheBlock) (s : Sector) :
    b.Rewrites (b.fill s) s (if b.modifiedOnFill s then .modified else .valid) :=
  ⟨rfl, rfl, rfl⟩

/-- A fill by address claims a line for the block unless one has it. -/
theorem placed_tagFill {lines lines' : Lines} {addr : BitVec 64} {s : Sector}
    (h : Placed cfg lines) (hs : cfg.cacheType = .normal → s = 0)
    (hset : cfg.setIndex (cfg.getTag addr) = cfg.setIndex addr)
    (hfill : cfg.tagFill lines addr time s = .ok lines') : Placed cfg lines' := by
  simp only [CacheConfig.tagFill] at hfill
  obtain ⟨p, hp, hfill⟩ := bind_eq_ok.mp hfill
  cases p with
  | reservationFail => cases hfill
  | miss i =>
    obtain rfl := Except.ok.inj hfill
    refine h.claim hs (CacheConfig.idx_mem_ways hp (by simp)) (CacheConfig.passed_of_miss hp) hset
      rfl rfl fun t hne => ?_
    simp only [CacheBlock.fill, CacheBlock.setStatus, CacheBlock.allocate, Function.update_idem]
    rw [Function.update_of_ne hne]
  | sectorMiss i =>
    dsimp only at hfill
    split at hfill
    · cases hfill
    obtain ⟨b, hb, hfill⟩ := bind_eq_ok.mp hfill
    obtain rfl := Except.ok.inj hfill
    exact h.rewrite ((rewrites_allocateSector hb).trans (rewrites_fill b s)) hs fun _ =>
      CacheConfig.live_of_probe hp (by simp) (by simp)
  | _ i =>
    obtain rfl := Except.ok.inj hfill
    exact h.rewrite (rewrites_fill (lines i) s) hs fun _ =>
      CacheConfig.live_of_probe hp (by simp) (by simp)

/-- The line a fill goes to was not given up, or is found in the set of its block. -/
def FillPlaced (cfg : CacheConfig) (c : Cache) (id : Nat) : Prop :=
  ∀ f, c.extraMfFields.lookup id = some f →
    (cfg.allocPolicy = .onMiss → (c.lines f.cacheIndex).Live) ∧
      (cfg.allocPolicy = .onFill →
        cfg.setIndex (cfg.getBlockAddr f.blockAddr) = cfg.setIndex f.blockAddr)

theorem placed_fill {id : Nat} (h : Placed cfg c.lines) (hplaced : FillPlaced cfg c id)
    (hfill : c.fill cfg id time = .ok c') : Placed cfg c'.lines := by
  obtain ⟨f, hf, hlines⟩ := fill_lines hfill
  obtain ⟨hlive, hset⟩ := hplaced f hf
  cases hpol : cfg.allocPolicy with
  | onMiss =>
    obtain ⟨b, st, heq, hb⟩ := hlines.onMiss hpol
    rw [heq]
    exact h.rewrite hb (sectorOf_normal f.mf) fun _ => hlive hpol
  | onFill => exact placed_tagFill h (sectorOf_normal f.mf) (hset hpol) (hlines.onFill hpol)
  | streaming =>
    rw [hlines.streaming hpol]
    exact h

/-! ## Runs -/

/-- Nothing is written into a line that is not the block's. -/
def StaysPlaced (cfg : CacheConfig) (c : Cache) : CacheOp → Prop
  | .access mf _ => WritesPlaced cfg c mf
  | .fill id _ => FillPlaced cfg c id
  | .pop => True
  | .cycle _ => True

theorem placed_step {op : CacheOp} {ev : List CacheTrace} (h : Placed cfg c.lines)
    (hplaced : StaysPlaced cfg c op) (hstep : c.step kind cfg op = .ok (c', ev)) :
    Placed cfg c'.lines := by
  cases op with
  | access mf time =>
    obtain ⟨⟨status, events, c₁⟩, ha, hstep⟩ := bind_eq_ok.mp hstep
    obtain ⟨rfl, -⟩ := Prod.mk.inj (Except.ok.inj hstep)
    exact placed_access (c := { c with uid := max c.uid (mf.id + 1) }) h hplaced
      (effect_access ha)
  | fill id time =>
    obtain ⟨c₁, hf, hstep⟩ := bind_eq_ok.mp hstep
    obtain ⟨rfl, -⟩ := Prod.mk.inj (Except.ok.inj hstep)
    exact placed_fill h hplaced hf
  | pop =>
    cases step_cases hstep with
    | pop hpops =>
      rw [hpops.lines]
      exact h
  | cycle full =>
    cases step_cases hstep with
    | stay => exact h
    | send => exact h

theorem Run.placed {P : Cache → CacheOp → Prop} {tr : List CacheTrace}
    (hP : ∀ c op, P c op → StaysPlaced cfg c op) (h : Run kind cfg P c tr) :
    Placed cfg c.lines := by
  induction h with
  | start lines hl => exact Placed.start hl
  | step _ op meets _ hs ih => exact placed_step ih (hP _ _ meets) hs

/-- As long as nothing is written into a line that is not the block's, every block has one line at
most, and that in its set. -/
theorem one_line_per_block {tr : List CacheTrace} (h : Run kind cfg (StaysPlaced cfg) c tr) :
    OneLinePerBlock cfg c.lines :=
  (h.placed fun _ _ hp => hp).oneLinePerBlock

/-- A cache with one set of two lines that gives a line up when it is written. -/
def twoLines : CacheConfig :=
  { oneLine .lazyFetchOnRead with writePolicy := .writeEvict, assoc := 2 }

/-- A block is read, and its data arrives. -/
theorem one_line_after_fill : ∃ c tr, Run .data twoLines (StaysPlaced twoLines) c tr ∧
    (c.lines 1).Live ∧ OneLinePerBlock twoLines c.lines := by
  have hrun : Run .data twoLines (StaysPlaced twoLines) _ _ :=
    .step (.step (.start (fun _ => emptyLine) fun _ _ => rfl)
      (.access (wordRequest 0 0 false) 1) (.inl rfl) rfl rfl)
      (.fill 0 2) (fun f hf => ⟨fun _ => by
        obtain rfl := Option.some.inj (show some _ = some f from hf)
        decide, nofun⟩) trivial rfl
  exact ⟨_, _, hrun, by decide, one_line_per_block hrun⟩

/-- A block is read into the first line and written twice before its data arrives: the first write
is kept in the line, the second gives the line up. Another read takes the second line, and the fill
brings the first one back. -/
theorem two_lines_for_block : ∃ c tr, Run .data twoLines (fun _ _ => True) c tr ∧
    ¬ OneLinePerBlock twoLines c.lines := by
  have hrun : Run .data twoLines (fun _ _ => True) _ _ :=
    .step (.step (.step (.step (.step (.step (.step (.start (fun _ => emptyLine) fun _ _ => rfl)
      (.access (wordRequest 0 32 true) 1) trivial rfl rfl)
      (.access (wordRequest 1 0 false) 2) trivial rfl rfl)
      (.access (wordRequest 2 0 true) 3) trivial rfl rfl)
      (.access (wordRequest 3 0 true) 4) trivial rfl rfl)
      (.access (wordRequest 4 32 true) 5) trivial rfl rfl)
      (.access (wordRequest 5 0 false) 6) trivial rfl rfl)
      (.fill 1 7) trivial trivial rfl
  refine ⟨_, _, hrun, fun h => ?_⟩
  have := h.unique 0 1 (by decide) (by decide) (by decide) (by decide)
  exact absurd this (by decide)

end Cache

end NdpSim
