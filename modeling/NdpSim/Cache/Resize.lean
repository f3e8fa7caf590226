import NdpSim.Cache.Hashing
import NdpSim.Cache.Unique
import NdpSim.Library.Rounding

/-!
# Resizing the L1 cache

With an adaptive L1 cache every launch sets the number of sets anew, by the part of the memory the
scratchpad leaves over. The lines stay where they are: a block that belongs to another set
afterwards is not found any more, and with no set left the index is any number.
-/
namespace NdpSim

open Library

/-! ## Single precision -/

/-- `int new_sets = max_sets * ((origin - option) / origin) + 0.5` in single precision; the sum is
one of doubles. -/
def newSets (maxSets originSize optionSize : Int) : Int :=
  let origin := toFloat originSize
  let ratio := roundTo 24 (roundTo 24 (origin - toFloat optionSize) / origin)
  let sum := roundTo 53 (roundTo 24 (toFloat maxSets * ratio) + 1 / 2)
  if sum < 0 then -((-sum).floor) else sum.floor

/-! ## Set indices -/

inductive SetIndexFunction
  | linear | bitwiseXoring | hashIpoly | custom
  deriving DecidableEq

/-- The geometry of the L1 cache and what the launches can ask for. -/
structure L1Config where
  base : CacheConfig
  setIndexFunction : SetIndexFunction
  originNset : Nat
  adaptive : Bool
  spadSize : Int
  shmemOption : List Int
  fits : originNset < 2 ^ 32

namespace L1Config

variable (g : L1Config)

/-- `m_nset - 1` in 32 bits. -/
def setMask (nset : Nat) : Nat := (nset + 2 ^ 32 - 1) % 2 ^ 32

/-- `hash_function`; the upper bits are compared where they should be shifted. -/
def hashFunction (nset : Nat) (addr : BitVec 64) : Nat :=
  let lineSizeLog2 := Nat.log2 g.base.lineSize
  let higherBits := if lineSizeLog2 + Nat.log2 g.originNset < addr.toNat then 1 else 0
  let index := (addr.toNat >>> lineSizeLog2) &&& setMask nset
  match g.setIndexFunction with
  | .linear => index
  | .bitwiseXoring => index ^^^ (higherBits &&& setMask nset)
  | .hashIpoly => ipolyHash higherBits index nset
  | .custom => 0

/-- The configuration with `nset` sets. -/
def cfg (nset : Nat) : CacheConfig := { g.base with setIndex := g.hashFunction nset }

def originSize : Nat := g.base.lineSize * g.base.assoc * g.originNset

/-- The lines that were allocated. -/
def numLines : Nat := g.originNset * g.base.assoc

/-- `smem_option_size`: the first option that is large enough, else the last. -/
def smemOptionSize (smemSize : Int) : Except Fault Int :=
  match g.shmemOption.find? fun o => smemSize ≤ o * 1024 with
  | some o => .ok (o * 1024)
  | none =>
    match g.shmemOption.getLast? with
    | some o => .ok (o * 1024)
    | none => .error .undefined

/-- The number of sets a launch asks for. -/
def setsFor (smemSize : Int) : Except Fault Int := do
  if g.spadSize ≠ g.originSize then throw .assertion
  return newSets g.originNset g.originSize (← g.smemOptionSize smemSize)

variable {g} {nset : Nat}

/-- With some sets left every index is one of them. -/
theorem hashFunction_lt (h : 0 < nset) (hu : nset ≤ 2 ^ 32) (addr : BitVec 64) :
    g.hashFunction nset addr < nset := by
  have hmask : setMask nset = nset - 1 := by
    unfold setMask
    omega
  simp only [hashFunction, hmask]
  split
  · exact Nat.lt_of_le_pred h Nat.and_le_right
  · rw [← Nat.and_xor_distrib_right]
    exact Nat.lt_of_le_pred h Nat.and_le_right
  · exact ipolyHash_lt _ _ h
  · exact h

theorem mem_ways_lt (h : 0 < nset) (hle : nset ≤ g.originNset)
    {addr : BitVec 64} {i : Nat} (hi : i ∈ (g.cfg nset).ways addr) : i < g.numLines := by
  obtain ⟨w, hw, rfl⟩ := List.mem_map.mp hi
  have hw : w < g.base.assoc := List.mem_range.mp hw
  have hset : g.hashFunction nset addr < nset :=
    hashFunction_lt h (hle.trans g.fits.le) addr
  calc g.hashFunction nset addr * g.base.assoc + w
      < (g.hashFunction nset addr + 1) * g.base.assoc := by rw [Nat.succ_mul]; omega
    _ ≤ g.originNset * g.base.assoc := Nat.mul_le_mul_right _ (by omega)

end L1Config

/-! ## Lookups -/

namespace CacheConfig

variable {cfg : CacheConfig} {lines : Lines} {tag : BitVec 64} {s : Sector}

/-- A lookup stops at the first line it can use. -/
theorem probeWays_of_match {is : List Nat} (h : ∃ i ∈ is, (cfg.matchLine lines tag s i).isSome) :
    ∀ v, ∃ p, ∃ i ∈ is, cfg.matchLine lines tag s i = some p ∧
      cfg.probeWays lines tag s is v = .ok p := by
  induction is with
  | nil => simp at h
  | cons i is ih =>
    intro v
    rw [probeWays]
    cases hm : cfg.matchLine lines tag s i with
    | some p => exact ⟨p, i, List.mem_cons_self, hm, rfl⟩
    | none =>
      obtain ⟨j, hj, hjm⟩ := h
      obtain rfl | hj := List.mem_cons.mp hj
      · rw [hm] at hjm
        cases hjm
      · obtain ⟨p, k, hk, hkm, hp⟩ := ih ⟨j, hj, hjm⟩ (cfg.considerVictim lines i v)
        exact ⟨p, k, List.mem_cons_of_mem _ hk, hkm, hp⟩

theorem tag_of_matchLine {i : Nat} {p : Probe} (h : cfg.matchLine lines tag s i = some p) :
    p ≠ .miss i ∧ (lines i).tag = tag := by
  simp only [matchLine] at h
  split at h
  case isFalse => cases h
  case isTrue ht =>
    split at h
    · obtain rfl := Option.some_inj.mp h
      exact ⟨Probe.noConfusion, ht⟩
    split at h
    · obtain rfl := Option.some_inj.mp h
      exact ⟨Probe.noConfusion, ht⟩
    split at h
    · obtain rfl := Option.some_inj.mp h
      exact ⟨Probe.noConfusion, ht⟩
    · cases h

end CacheConfig

/-- Every line is found by a lookup for its block. -/
theorem Placed.reachable {cfg : CacheConfig} {lines : Lines} (h : Placed cfg lines) {i : Nat}
    (hi : (lines i).Live) {mf : MemFetch} (htag : cfg.getBlockAddr mf.addr = (lines i).tag) :
    ∃ p, cfg.probe lines (cfg.getBlockAddr mf.addr) (cfg.sectorOf mf) = .ok p ∧ p.idx = i ∧
      p ≠ .miss i := by
  have hget : cfg.getTag (cfg.getBlockAddr mf.addr) = (lines i).tag :=
    (CacheConfig.getTag_getTag mf.addr).trans htag
  have hway : i ∈ cfg.ways (cfg.getBlockAddr mf.addr) := by
    rw [htag, h.aligned i hi]
    exact h.home i hi
  have hmatch : (cfg.matchLine lines (lines i).tag (cfg.sectorOf mf) i).isSome := by
    by_contra hnone
    rw [Option.not_isSome_iff_eq_none] at hnone
    exact h.dead_of_passed (Cache.sectorOf_normal mf) hnone rfl hi
  unfold CacheConfig.probe
  rw [hget]
  obtain ⟨p, j, -, hj, hp⟩ := CacheConfig.probeWays_of_match ⟨i, hway, hmatch⟩ {}
  obtain ⟨hmiss, hjtag⟩ := CacheConfig.tag_of_matchLine hj
  -- the line found has the tag too, so it is the same one
  obtain rfl := h.unique j i (CacheConfig.live_of_matchLine hj) hi hjtag
  exact ⟨p, hp, CacheConfig.idx_of_matchLine hj, hmiss⟩

/-! ## Runs -/

/-- The L1 cache with its current number of sets. -/
structure L1Cache where
  nset : Nat
  cache : Cache

inductive L1Op
  | cache (op : CacheOp)
  | launch (smemSize : Int)

namespace L1Cache

variable (g : L1Config)

/-- `set_l1d_size` -/
def setL1dSize (s : L1Cache) (smemSize : Int) : Except Fault L1Cache := do
  if g.adaptive then return { s with nset := ((← g.setsFor smemSize) % 2 ^ 32).toNat }
  return s

def step (s : L1Cache) : L1Op → Except Fault L1Cache
  | .cache op => do
    let (c, _) ← s.cache.step .data (g.cfg s.nset) op
    return { s with cache := c }
  | .launch smemSize => s.setL1dSize g smemSize

def Fresh (s : L1Cache) : L1Op → Prop
  | .cache op => s.cache.Fresh op
  | .launch _ => True

/-- The runs in which every step meets `P`. -/
inductive Run (g : L1Config) (P : L1Cache → L1Op → Prop) : L1Cache → Prop
  | start (lines : Lines) (h : ∀ i s, (lines i).status s = .invalid) :
      Run g P ⟨g.originNset, Cache.initial lines⟩
  | step {s s' : L1Cache} (run : Run g P s) (op : L1Op) (meets : P s op) (fresh : s.Fresh op)
      (h : s.step g op = .ok s') : Run g P s'

/-- Every index stays within the allocated lines, no block has two lines, and every line is found
by a lookup for its block. -/
structure Sound (s : L1Cache) : Prop where
  index : ∀ addr, ∀ i ∈ (g.cfg s.nset).ways addr, i < g.numLines
  fills : ∀ id f, s.cache.extraMfFields.lookup id = some f → f.cacheIndex < g.numLines
  unique : ∀ i j, (s.cache.lines i).Live → (s.cache.lines j).Live →
    (s.cache.lines i).tag = (s.cache.lines j).tag → i = j
  reachable : ∀ i, (s.cache.lines i).Live → ∀ mf : MemFetch,
    (g.cfg s.nset).getBlockAddr mf.addr = (s.cache.lines i).tag →
      ∃ p, (g.cfg s.nset).probe s.cache.lines ((g.cfg s.nset).getBlockAddr mf.addr)
        ((g.cfg s.nset).sectorOf mf) = .ok p ∧ p.idx = i ∧ p ≠ .miss i

/-- A launch leaves some sets, not more than were allocated, and every line in its set. -/
def Resizes (s : L1Cache) (smemSize : Int) : Prop :=
  g.adaptive = true → ∀ n, g.setsFor smemSize = .ok n → 1 ≤ n ∧ n ≤ g.originNset ∧
    ∀ i, (s.cache.lines i).Live →
      g.hashFunction n.toNat (s.cache.lines i).blockAddr =
        g.hashFunction s.nset (s.cache.lines i).blockAddr

/-- Nothing is written into a line that is not the block's, and no launch moves a line to another
set. -/
def Keeps (s : L1Cache) : L1Op → Prop
  | .cache op => Cache.StaysPlaced (g.cfg s.nset) s.cache op
  | .launch smemSize => s.Resizes g smemSize

/-- What every step keeps. -/
structure Inv (s : L1Cache) : Prop where
  pos : 0 < s.nset
  le : s.nset ≤ g.originNset
  placed : Placed (g.cfg s.nset) s.cache.lines
  fills : ∀ id f, s.cache.extraMfFields.lookup id = some f → f.cacheIndex < g.numLines

variable {g} {s s' : L1Cache}

theorem Inv.sound (h : s.Inv g) : s.Sound g :=
  ⟨fun _ _ hi => L1Config.mem_ways_lt h.pos h.le hi, h.fills, h.placed.unique,
    fun _ hi _ htag => h.placed.reachable hi htag⟩

/-- A read request remembers a line of its set. -/
theorem extra_access {cfg : CacheConfig} {c c' : Cache} {mf : MemFetch} {time : Nat}
    {status : CacheRequestStatus} {events : List CacheEvent}
    (h : Cache.Effect .data cfg c mf time status events c') {id : Nat} {f : ExtraMfFields}
    (hf : c'.extraMfFields.lookup id = some f) :
    c.extraMfFields.lookup id = some f ∨
      f.cacheIndex ∈ cfg.ways (cfg.getBlockAddr mf.addr) := by
  cases h with
  | refused | forwarded | hit | overwritten => exact .inl hf
  | awaited tells tag missed found fetched room rewrites joins uids =>
    cases joins with
    | merged => exact .inl hf
    | requested =>
      change AList.lookup id (AList.insert _ _ c.extraMfFields) = some f at hf
      by_cases hid : id = (Cache.waiter cfg c mf).id
      · rw [hid, AList.lookup_insert] at hf
        obtain rfl := Option.some_inj.mp hf
        exact .inr (CacheConfig.idx_mem_ways (CacheConfig.probe_of_tagAccess tag) found)
      · rw [AList.lookup_insert_ne hid] at hf
        exact .inl hf

theorem extra_step {cfg : CacheConfig} {c c' : Cache} {op : CacheOp} {ev : List CacheTrace}
    (h : c.step .data cfg op = .ok (c', ev)) {id : Nat} {f : ExtraMfFields}
    (hf : c'.extraMfFields.lookup id = some f) :
    c.extraMfFields.lookup id = some f ∨ ∃ addr, f.cacheIndex ∈ cfg.ways addr := by
  cases op with
  | access mf time =>
    obtain ⟨⟨status, events, c₁⟩, ha, h⟩ := bind_eq_ok.mp h
    obtain ⟨rfl, -⟩ := Prod.mk.inj (Except.ok.inj h)
    exact (extra_access (Cache.effect_access ha) hf).imp_right fun hway => ⟨_, hway⟩
  | fill id' time =>
    obtain ⟨c₁, hfill, h⟩ := bind_eq_ok.mp h
    obtain ⟨rfl, -⟩ := Prod.mk.inj (Except.ok.inj h)
    obtain ⟨f', hfills⟩ := Cache.fill_cases hfill
    rw [hfills.extra] at hf
    by_cases hid : id = id'
    · subst hid
      rw [AList.lookup_erase] at hf
      cases hf
    · rw [AList.lookup_erase_ne hid] at hf
      exact .inl hf
  | pop =>
    cases Cache.step_cases h with
    | pop hpops =>
      rw [hpops.extra] at hf
      exact .inl hf
  | cycle full =>
    cases Cache.step_cases h with
    | stay | send => exact .inl hf

theorem Inv.cache {op : CacheOp} {c : Cache} {ev : List CacheTrace} (h : s.Inv g)
    (hplaced : Cache.StaysPlaced (g.cfg s.nset) s.cache op)
    (hstep : s.cache.step .data (g.cfg s.nset) op = .ok (c, ev)) :
    Inv g { s with cache := c } := by
  refine ⟨h.pos, h.le, Cache.placed_step h.placed hplaced hstep, fun id f hf => ?_⟩
  obtain hf | ⟨addr, hway⟩ := extra_step hstep hf
  · exact h.fills id f hf
  · exact L1Config.mem_ways_lt h.pos h.le hway

/-- A line that stays in its set stays where lookups find it. -/
theorem placed_resize {n : Nat} {lines : Lines} (h : Placed (g.cfg s.nset) lines)
    (hset : ∀ i, (lines i).Live → g.hashFunction n (lines i).blockAddr =
      g.hashFunction s.nset (lines i).blockAddr) : Placed (g.cfg n) lines := by
  refine ⟨h.plain, h.aligned, fun i hi => ?_, h.unique⟩
  have hways : (g.cfg n).ways (lines i).blockAddr = (g.cfg s.nset).ways (lines i).blockAddr := by
    simp only [CacheConfig.ways, L1Config.cfg, hset i hi]
  rw [hways]
  exact h.home i hi

theorem Inv.launch {smemSize : Int} (h : s.Inv g)
    (hresize : s.Resizes g smemSize) (hstep : s.setL1dSize g smemSize = .ok s') : s'.Inv g := by
  unfold setL1dSize at hstep
  split at hstep
  case isFalse =>
    obtain rfl := Except.ok.inj hstep
    exact h
  case isTrue hadaptive =>
    obtain ⟨n, hn, hstep⟩ := bind_eq_ok.mp hstep
    obtain rfl := Except.ok.inj hstep
    obtain ⟨hpos, hle, hset⟩ := hresize hadaptive n hn
    have hfits := g.fits
    have hcut : (n % 2 ^ 32).toNat = n.toNat := by omega
    refine ⟨?_, ?_, ?_, h.fills⟩
    · change 0 < (n % 2 ^ 32).toNat
      omega
    · change (n % 2 ^ 32).toNat ≤ g.originNset
      omega
    · have hplaced := placed_resize h.placed hset
      rwa [← hcut] at hplaced

theorem Run.inv {P : L1Cache → L1Op → Prop} (hP : ∀ s op, P s op → s.Keeps g op)
    (hpos : 0 < g.originNset) (h : Run g P s) : s.Inv g := by
  induction h with
  | start lines hl => exact ⟨hpos, le_rfl, Placed.start hl, nofun⟩
  | step run op meets fresh h ih =>
    cases op with
    | cache op =>
      obtain ⟨⟨c, ev⟩, hstep, h⟩ := bind_eq_ok.mp h
      obtain rfl := Except.ok.inj h
      exact ih.cache (hP _ _ meets) hstep
    | launch smemSize => exact ih.launch (hP _ _ meets) h

/-- In a run in which launches leave every line in its set, and nothing is written into a line that
is not the block's, resizing is sound. -/
theorem resizing_sound (hpos : 0 < g.originNset) (h : Run g (Keeps g) s) : s.Sound g :=
  (h.inv (fun _ _ hk => hk) hpos).sound

/-- An L1 cache of 64 sets with one line of 32 bytes each. -/
def smallL1 : L1Config where
  base := Cache.oneLine .noWriteAllocate
  setIndexFunction := .linear
  originNset := 64
  adaptive := true
  spadSize := 2048
  shmemOption := [0, 1, 2]
  fits := by decide

theorem setsFor_small (option : Int) (smemSize : Int)
    (h : smallL1.smemOptionSize smemSize = .ok option) :
    smallL1.setsFor smemSize = .ok (newSets 64 2048 option) := by
  change (do return newSets 64 2048 (← smallL1.smemOptionSize smemSize)) = _
  rw [h]
  rfl

/-- A launch without scratchpad memory keeps all sets. -/
theorem resizing_sound_full : ∃ s, Run smallL1 (Keeps smallL1) s ∧ (s.cache.lines 32).Live ∧
    s.Sound smallL1 := by
  have hsets : smallL1.setsFor 0 = .ok 64 := by
    rw [setsFor_small 0 0 rfl]
    exact congrArg _ (by decide +kernel)
  have hlaunch : L1Cache.step smallL1 ⟨64, Cache.initial fun _ => Cache.emptyLine⟩ (.launch 0) =
      .ok ⟨64, Cache.initial fun _ => Cache.emptyLine⟩ := by
    change (do return L1Cache.mk ((← smallL1.setsFor 0) % 2 ^ 32).toNat _) = _
    rw [hsets]
    rfl
  have hkeeps : Keeps smallL1 ⟨64, Cache.initial fun _ => Cache.emptyLine⟩ (.launch 0) := by
    intro _ n hn
    obtain rfl := Except.ok.inj (hsets.symm.trans hn)
    exact ⟨by decide, by decide, fun _ _ => rfl⟩
  obtain ⟨s, hread, hlive⟩ : ∃ s, L1Cache.step smallL1
      ⟨64, Cache.initial fun _ => Cache.emptyLine⟩
      (.cache (.access (Cache.wordRequest 0 1024 false) 1)) = .ok s ∧
      (s.cache.lines 32).Live := ⟨_, rfl, by decide⟩
  have hplaced : Keeps smallL1 ⟨64, Cache.initial fun _ => Cache.emptyLine⟩
      (.cache (.access (Cache.wordRequest 0 1024 false) 1)) := Or.inl rfl
  have hrun : Run smallL1 (Keeps smallL1) s :=
    .step (.step (.start _ fun _ _ => rfl) _ hkeeps trivial hlaunch) _ hplaced rfl hread
  exact ⟨s, hrun, hlive, resizing_sound (by decide) hrun⟩

/-- The block of address 1024 is read into line 32. After a launch that leaves 32 sets it belongs
to set 0 and is not found any more. -/
theorem resizing_hides_line : ∃ s, Run smallL1 (fun _ _ => True) s ∧ ¬ s.Sound smallL1 := by
  have hsets : smallL1.setsFor 1000 = .ok 32 := by
    rw [setsFor_small 1024 1000 rfl]
    exact congrArg _ (by decide +kernel)
  obtain ⟨c, hread, hlive, htag, hprobe⟩ : ∃ c, L1Cache.step smallL1
      ⟨64, Cache.initial fun _ => Cache.emptyLine⟩
      (.cache (.access (Cache.wordRequest 0 1024 false) 1)) = .ok ⟨64, c⟩ ∧
      (c.lines 32).Live ∧ (c.lines 32).tag = 1024#64 ∧
      (smallL1.cfg 32).probe c.lines 1024#64 0 = .ok (.miss 0) :=
    ⟨_, rfl, by decide, by decide, rfl⟩
  have hlaunch : L1Cache.step smallL1 ⟨64, c⟩ (.launch 1000) = .ok ⟨32, c⟩ := by
    change (do return L1Cache.mk ((← smallL1.setsFor 1000) % 2 ^ 32).toNat c) = _
    rw [hsets]
    rfl
  have hrun : Run smallL1 (fun _ _ => True) ⟨64, c⟩ :=
    .step (.start _ fun _ _ => rfl) (.cache (.access (Cache.wordRequest 0 1024 false) 1))
      trivial rfl hread
  refine ⟨⟨32, c⟩, hrun.step (.launch 1000) trivial trivial hlaunch, fun hsound => ?_⟩
  have hblock : (smallL1.cfg 32).getBlockAddr 1024#64 = 1024#64 := by decide
  obtain ⟨p, hp, hidx, -⟩ := hsound.reachable 32 hlive (Cache.wordRequest 0 1024 false)
    (hblock.trans htag.symm)
  change (smallL1.cfg 32).probe c.lines ((smallL1.cfg 32).getBlockAddr 1024#64) 0 = .ok p at hp
  rw [hblock] at hp
  obtain rfl := Except.ok.inj (hprobe.symm.trans hp)
  exact absurd hidx (by decide)

end L1Cache

end NdpSim
