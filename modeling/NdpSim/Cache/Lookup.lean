import NdpSim.Cache.Unique

/-!
# What a lookup finds

A lookup goes over the ways of a set once. It stops at the first line with the wanted tag that
is not fully invalid, and remembers which line it would evict otherwise.
-/
namespace NdpSim

open Library

namespace CacheConfig

variable {cfg : CacheConfig} {lines : Lines} {tag addr : BitVec 64} {s : Sector} {i : Nat}

/-! ## Lines that match -/

/-- The three outcomes at a line with the wanted tag. -/
structure Reserved (lines : Lines) (tag : BitVec 64) (s : Sector) (i : Nat) : Prop where
  tag : (lines i).tag = tag
  status : (lines i).status s = .reserved

structure Readable (lines : Lines) (tag : BitVec 64) (s : Sector) (i : Nat) : Prop where
  tag : (lines i).tag = tag
  status : (lines i).status s = .valid ∨
    (lines i).status s = .modified ∧ (lines i).readable s = true

structure Unreadable (cfg : CacheConfig) (lines : Lines) (tag : BitVec 64) (s : Sector) (i : Nat) :
    Prop where
  tag : (lines i).tag = tag
  status : (lines i).status s = .invalid ∧ (lines i).isValidLine cfg.cacheType = true ∨
    (lines i).status s = .modified ∧ (lines i).readable s = false

/-- The lookup stops at the line. -/
def Stops (cfg : CacheConfig) (lines : Lines) (tag : BitVec 64) (s : Sector) (i : Nat) : Prop :=
  Reserved lines tag s i ∨ Readable lines tag s i ∨ Unreadable cfg lines tag s i

theorem matchLine_reserved (cfg : CacheConfig) (h : Reserved lines tag s i) :
    cfg.matchLine lines tag s i = some (.hitReserved i) := by
  rw [matchLine, if_pos h.tag, if_pos h.status]

theorem matchLine_readable (cfg : CacheConfig) (h : Readable lines tag s i) :
    cfg.matchLine lines tag s i = some (.hit i) := by
  have hne : (lines i).status s ≠ .reserved := by
    rintro heq
    obtain hs | ⟨hs, -⟩ := h.status <;> rw [heq] at hs <;> cases hs
  rw [matchLine, if_pos h.tag, if_neg hne, if_pos h.status]

theorem matchLine_unreadable (h : Unreadable cfg lines tag s i) :
    cfg.matchLine lines tag s i = some (.sectorMiss i) := by
  rw [matchLine, if_pos h.tag]
  obtain ⟨hs, hvalid⟩ | ⟨hs, hread⟩ := h.status
  · simp [hs, hvalid]
  · simp [hs, hread]

theorem matchLine_none (h : ¬ Stops cfg lines tag s i) : cfg.matchLine lines tag s i = none := by
  rw [Stops, not_or, not_or] at h
  obtain ⟨hreserved, hreadable, hunreadable⟩ := h
  by_cases htag : (lines i).tag = tag
  · cases hs : (lines i).status s with
    | reserved => exact absurd ⟨htag, hs⟩ hreserved
    | valid => exact absurd ⟨htag, .inl hs⟩ hreadable
    | modified =>
      cases hread : (lines i).readable s with
      | true => exact absurd ⟨htag, .inr ⟨hs, hread⟩⟩ hreadable
      | false => exact absurd ⟨htag, .inr ⟨hs, hread⟩⟩ hunreadable
    | invalid =>
      have hvalid : ¬ (lines i).isValidLine cfg.cacheType = true := fun hvalid =>
        hunreadable ⟨htag, .inl ⟨hs, hvalid⟩⟩
      simp [matchLine, htag, hs, hvalid]
  · rw [matchLine, if_neg htag]

theorem matchLine_eq_some {p : Probe} (h : cfg.matchLine lines tag s i = some p) :
    p = .hitReserved i ∧ Reserved lines tag s i ∨ p = .hit i ∧ Readable lines tag s i ∨
      p = .sectorMiss i ∧ Unreadable cfg lines tag s i := by
  by_cases hstops : Stops cfg lines tag s i
  · obtain hreserved | hreadable | hunreadable := hstops
    · cases (matchLine_reserved cfg hreserved).symm.trans h
      exact .inl ⟨rfl, hreserved⟩
    · cases (matchLine_readable cfg hreadable).symm.trans h
      exact .inr (.inl ⟨rfl, hreadable⟩)
    · cases (matchLine_unreadable hunreadable).symm.trans h
      exact .inr (.inr ⟨rfl, hunreadable⟩)
  · rw [matchLine_none hstops] at h
    cases h

theorem stops_iff : Stops cfg lines tag s i ↔ cfg.matchLine lines tag s i ≠ none := by
  constructor
  · intro h hnone
    obtain h | h | h := h
    · cases (matchLine_reserved cfg h).symm.trans hnone
    · cases (matchLine_readable cfg h).symm.trans hnone
    · cases (matchLine_unreadable h).symm.trans hnone
  · intro h
    by_contra hno
    exact h (matchLine_none hno)

/-- A line the lookup stops at has the tag and is not fully invalid. -/
theorem live_of_stops (h : Stops cfg lines tag s i) :
    (lines i).tag = tag ∧ (lines i).Live := by
  obtain hreserved | hreadable | hunreadable := h
  · exact ⟨hreserved.tag, live_of_matchLine (matchLine_reserved cfg hreserved)⟩
  · exact ⟨hreadable.tag, live_of_matchLine (matchLine_readable cfg hreadable)⟩
  · exact ⟨hunreadable.tag, live_of_matchLine (matchLine_unreadable hunreadable)⟩

/-! ## The loop -/

/-- The loop stops at the first line that matches, or goes over all of them for a victim. -/
theorem probeWays_eq (cfg : CacheConfig) (lines : Lines) (tag : BitVec 64) (s : Sector)
    (is : List Nat) (v : Victims) :
    cfg.probeWays lines tag s is v = match is.findSome? (cfg.matchLine lines tag s) with
      | some p => .ok p
      | none => cfg.probeWays lines tag s []
          (is.foldl (fun v i => cfg.considerVictim lines i v) v) := by
  induction is generalizing v with
  | nil => rfl
  | cons i is ih =>
    have hcons : cfg.probeWays lines tag s (i :: is) v = match cfg.matchLine lines tag s i with
      | some p => .ok p
      | none => cfg.probeWays lines tag s is (cfg.considerVictim lines i v) := rfl
    rw [hcons, List.findSome?_cons, List.foldl_cons]
    cases cfg.matchLine lines tag s i with
    | some p => rfl
    | none => exact ih _

/-- A line that can be evicted although it holds a block. -/
def Evictable (lines : Lines) (i : Nat) : Prop :=
  (lines i).isReservedLine = false ∧ (lines i).isInvalidLine = false

/-- The candidates among the ways that were looked at. -/
structure Candidates (cfg : CacheConfig) (lines : Lines) (seen : List Nat) (v : Victims) :
    Prop where
  allReserved : v.allReserved = true ↔ ∀ i ∈ seen, (lines i).isReservedLine = true
  invalid : ∀ i, v.invalidLine = some i → i ∈ seen ∧ (lines i).isInvalidLine = true
  noInvalid : v.invalidLine = none → ∀ i ∈ seen, (lines i).isInvalidLine = false
  valid : ∀ i, v.validLine = some i → i ∈ seen ∧ Evictable lines i ∧
    v.validTimestamp = cfg.evictTime (lines i)
  noValid : v.validLine = none → v.validTimestamp = 2 ^ 64 - 1
  oldest : ∀ i ∈ seen, Evictable lines i → v.validTimestamp ≤ cfg.evictTime (lines i)

theorem candidates_nil (cfg : CacheConfig) (lines : Lines) : Candidates cfg lines [] {} :=
  ⟨iff_of_true rfl nofun, nofun, fun _ => nofun, nofun, fun _ => rfl, nofun⟩

theorem forall_mem_concat {seen : List Nat} {Q : Nat → Prop} :
    (∀ j ∈ seen ++ [i], Q j) ↔ (∀ j ∈ seen, Q j) ∧ Q i := by
  rw [List.forall_mem_append, List.forall_mem_singleton]

theorem isInvalidLine_of_reserved {b : CacheBlock} (h : b.isReservedLine = true) :
    b.isInvalidLine = false := by
  rw [CacheBlock.isReservedLine, decide_eq_true_eq] at h
  obtain ⟨s, hs⟩ := h
  rw [CacheBlock.isInvalidLine, decide_eq_false_iff_not]
  intro hall
  rw [hall s] at hs
  cases hs

/-- One more way. -/
theorem candidates_considerVictim {seen : List Nat} {v : Victims}
    (hv : Candidates cfg lines seen v) (i : Nat) :
    Candidates cfg lines (seen ++ [i]) (cfg.considerVictim lines i v) := by
  have hmem : i ∈ seen ++ [i] := List.mem_append_right _ (List.mem_singleton_self i)
  have hleft {j : Nat} (hj : j ∈ seen) : j ∈ seen ++ [i] := List.mem_append_left _ hj
  rw [considerVictim]
  split
  case isTrue hreserved =>
    have hinvalid := isInvalidLine_of_reserved hreserved
    refine ⟨?_, fun j hj => ⟨hleft (hv.invalid j hj).1, (hv.invalid j hj).2⟩, fun hnone => ?_,
      fun j hj => ⟨hleft (hv.valid j hj).1, (hv.valid j hj).2⟩, hv.noValid, ?_⟩
    · rw [hv.allReserved, forall_mem_concat, and_iff_left hreserved]
    · exact forall_mem_concat.mpr ⟨hv.noInvalid hnone, hinvalid⟩
    · refine forall_mem_concat.mpr ⟨hv.oldest, fun h => ?_⟩
      rw [h.1] at hreserved
      cases hreserved
  case isFalse hfree =>
    have hall : false = true ↔ ∀ j ∈ seen ++ [i], (lines j).isReservedLine = true :=
      iff_of_false Bool.false_ne_true fun h => hfree (h i hmem)
    dsimp only
    split
    case isTrue hinvalid =>
      refine ⟨hall, fun j hj => ?_, (fun h => by cases h),
        fun j hj => ⟨hleft (hv.valid j hj).1, (hv.valid j hj).2⟩, hv.noValid, ?_⟩
      · cases hj
        exact ⟨hmem, hinvalid⟩
      · refine forall_mem_concat.mpr ⟨hv.oldest, fun h => ?_⟩
        rw [h.2] at hinvalid
        cases hinvalid
    case isFalse hvalid =>
      have hevictable : Evictable lines i :=
        ⟨Bool.not_eq_true _ ▸ hfree, Bool.not_eq_true _ ▸ hvalid⟩
      split
      case isTrue hlt =>
        refine ⟨hall, fun j hj => ⟨hleft (hv.invalid j hj).1, (hv.invalid j hj).2⟩, fun hnone => ?_,
          fun j hj => ?_, (fun h => by cases h), ?_⟩
        · exact forall_mem_concat.mpr ⟨hv.noInvalid hnone, hevictable.2⟩
        · cases hj
          exact ⟨hmem, hevictable, rfl⟩
        · exact forall_mem_concat.mpr
            ⟨fun j hj h => hlt.le.trans (hv.oldest j hj h), fun _ => le_rfl⟩
      case isFalse hle =>
        refine ⟨hall, fun j hj => ⟨hleft (hv.invalid j hj).1, (hv.invalid j hj).2⟩, fun hnone => ?_,
          fun j hj => ⟨hleft (hv.valid j hj).1, (hv.valid j hj).2⟩, hv.noValid, ?_⟩
        · exact forall_mem_concat.mpr ⟨hv.noInvalid hnone, hevictable.2⟩
        · exact forall_mem_concat.mpr ⟨hv.oldest, fun _ => not_lt.mp hle⟩

/-- The candidates after the loop. -/
theorem candidates_foldl {seen : List Nat} {v : Victims} (hv : Candidates cfg lines seen v)
    (is : List Nat) :
    Candidates cfg lines (seen ++ is) (is.foldl (fun v i => cfg.considerVictim lines i v) v) := by
  induction is generalizing seen v with
  | nil => rwa [List.append_nil]
  | cons i is ih =>
    have hrest := ih (candidates_considerVictim hv i)
    rwa [List.append_assoc, List.singleton_append] at hrest

/-! ## The characterisation -/

/-- At most one line of the set is not fully invalid for each tag. -/
def OneLivePerTag (cfg : CacheConfig) (lines : Lines) (addr : BitVec 64) : Prop :=
  ∀ i ∈ cfg.ways addr, ∀ j ∈ cfg.ways addr, (lines i).Live → (lines j).Live →
    (lines i).tag = (lines j).tag → i = j

/-- The times are those of 32-bit parameters. -/
def Stamped (lines : Lines) : Prop :=
  ∀ i, (lines i).lastAccessTime < 2 ^ 32 ∧ (lines i).allocTime < 2 ^ 32

/-- No line of the set matches. -/
def NoneStops (cfg : CacheConfig) (lines : Lines) (addr : BitVec 64) (s : Sector) : Prop :=
  ∀ i ∈ cfg.ways addr, ¬ Stops cfg lines (cfg.getTag addr) s i

/-- The line to be evicted: an invalid one if there is one, else one of the oldest. -/
structure Victim (cfg : CacheConfig) (lines : Lines) (addr : BitVec 64) (i : Nat) : Prop where
  mem : i ∈ cfg.ways addr
  free : (lines i).isReservedLine = false
  choice : (lines i).isInvalidLine = true ∨
    (∀ j ∈ cfg.ways addr, (lines j).isInvalidLine = false) ∧
    ∀ j ∈ cfg.ways addr, (lines j).isReservedLine = false →
      cfg.evictTime (lines i) ≤ cfg.evictTime (lines j)

/-- What a lookup returns. -/
structure Characterised (cfg : CacheConfig) (lines : Lines) (addr : BitVec 64) (s : Sector)
    (p : Probe) : Prop where
  hitReserved : ∀ i, p = .hitReserved i ↔
    i ∈ cfg.ways addr ∧ Reserved lines (cfg.getTag addr) s i
  hit : ∀ i, p = .hit i ↔ i ∈ cfg.ways addr ∧ Readable lines (cfg.getTag addr) s i
  sectorMiss : ∀ i, p = .sectorMiss i ↔
    i ∈ cfg.ways addr ∧ Unreadable cfg lines (cfg.getTag addr) s i
  reservationFail : p = .reservationFail ↔ NoneStops cfg lines addr s ∧
    ∀ i ∈ cfg.ways addr, (lines i).isReservedLine = true
  miss : (∃ i, p = .miss i) ↔ NoneStops cfg lines addr s ∧
    ∃ i ∈ cfg.ways addr, (lines i).isReservedLine = false
  victim : ∀ i, p = .miss i → Victim cfg lines addr i

/-- The lookup stops at the only line that matches. -/
theorem characterised_match (hone : OneLivePerTag cfg lines addr) (hi : i ∈ cfg.ways addr)
    {p : Probe} (h : cfg.matchLine lines (cfg.getTag addr) s i = some p) :
    Characterised cfg lines addr s p := by
  have hkind := matchLine_eq_some h
  have hstops : Stops cfg lines (cfg.getTag addr) s i := by
    rw [stops_iff, h]
    exact Option.some_ne_none p
  have honly : ∀ j ∈ cfg.ways addr, Stops cfg lines (cfg.getTag addr) s j → j = i := by
    intro j hj hj'
    obtain ⟨htag, hlive⟩ := live_of_stops hstops
    obtain ⟨htag', hlive'⟩ := live_of_stops hj'
    exact hone j hj i hi hlive' hlive (htag'.trans htag.symm)
  have hsome {q : Probe} {j : Nat} (hj : j ∈ cfg.ways addr)
      (hq : cfg.matchLine lines (cfg.getTag addr) s j = some q)
      (hj' : Stops cfg lines (cfg.getTag addr) s j) : p = q := by
    rw [honly j hj hj', h] at hq
    exact Option.some.inj hq
  refine ⟨fun j => ⟨?_, fun ⟨hj, h⟩ => hsome hj (matchLine_reserved cfg h) (.inl h)⟩,
    fun j => ⟨?_, fun ⟨hj, h⟩ => hsome hj (matchLine_readable cfg h) (.inr (.inl h))⟩,
    fun j => ⟨?_, fun ⟨hj, h⟩ => hsome hj (matchLine_unreadable h) (.inr (.inr h))⟩, ?_, ?_, ?_⟩
  · rintro rfl
    obtain ⟨heq, hfound⟩ | ⟨heq, -⟩ | ⟨heq, -⟩ := hkind
    · cases heq
      exact ⟨hi, hfound⟩
    · cases heq
    · cases heq
  · rintro rfl
    obtain ⟨heq, -⟩ | ⟨heq, hfound⟩ | ⟨heq, -⟩ := hkind
    · cases heq
    · cases heq
      exact ⟨hi, hfound⟩
    · cases heq
  · rintro rfl
    obtain ⟨heq, -⟩ | ⟨heq, -⟩ | ⟨heq, hfound⟩ := hkind
    · cases heq
    · cases heq
    · cases heq
      exact ⟨hi, hfound⟩
  · refine iff_of_false ?_ fun hnone => hnone.1 i hi hstops
    rintro rfl
    obtain ⟨heq, -⟩ | ⟨heq, -⟩ | ⟨heq, -⟩ := hkind <;> cases heq
  · refine iff_of_false ?_ fun hnone => hnone.1 i hi hstops
    rintro ⟨j, rfl⟩
    obtain ⟨heq, -⟩ | ⟨heq, -⟩ | ⟨heq, -⟩ := hkind <;> cases heq
  · rintro j rfl
    obtain ⟨heq, -⟩ | ⟨heq, -⟩ | ⟨heq, -⟩ := hkind <;> cases heq

theorem characterised_reservationFail (hnone : NoneStops cfg lines addr s)
    (hall : ∀ i ∈ cfg.ways addr, (lines i).isReservedLine = true) :
    Characterised cfg lines addr s .reservationFail := by
  refine ⟨fun i => iff_of_false nofun fun h => hnone i h.1 (.inl h.2),
    fun i => iff_of_false nofun fun h => hnone i h.1 (.inr (.inl h.2)),
    fun i => iff_of_false nofun fun h => hnone i h.1 (.inr (.inr h.2)),
    iff_of_true rfl ⟨hnone, hall⟩, iff_of_false (fun ⟨i, h⟩ => by cases h) ?_, nofun⟩
  rintro ⟨-, i, hi, hfree⟩
  rw [hall i hi] at hfree
  cases hfree

theorem characterised_miss (hnone : NoneStops cfg lines addr s) (hi : Victim cfg lines addr i) :
    Characterised cfg lines addr s (.miss i) := by
  refine ⟨fun i => iff_of_false nofun fun h => hnone i h.1 (.inl h.2),
    fun i => iff_of_false nofun fun h => hnone i h.1 (.inr (.inl h.2)),
    fun i => iff_of_false nofun fun h => hnone i h.1 (.inr (.inr h.2)),
    iff_of_false nofun fun h => ?_, iff_of_true ⟨i, rfl⟩ ⟨hnone, i, hi.mem, hi.free⟩, ?_⟩
  · have hfree := hi.free
    rw [h.2 i hi.mem] at hfree
    cases hfree
  · rintro j h
    cases h
    exact hi

theorem evictTime_lt (ht : Stamped lines) (i : Nat) : cfg.evictTime (lines i) < 2 ^ 64 - 1 := by
  obtain ⟨hlast, halloc⟩ := ht i
  rw [evictTime]
  cases cfg.evictPolicy with
  | lru => exact hlast.trans (by decide)
  | fifo => exact halloc.trans (by decide)

/-- With a line that is not reserved there is a victim. -/
theorem exists_victim (ht : Stamped lines) {v : Victims}
    (hv : Candidates cfg lines (cfg.ways addr) v) (hfree : v.allReserved = false) :
    ∃ i, cfg.probeWays lines tag s [] v = .ok (.miss i) ∧ Victim cfg lines addr i := by
  have hnotAll : ¬ ∀ i ∈ cfg.ways addr, (lines i).isReservedLine = true := by
    rw [← hv.allReserved, hfree]
    exact Bool.false_ne_true
  rw [probeWays, if_neg (by rw [hfree]; exact Bool.false_ne_true)]
  split
  case h_1 i hinvalid =>
    obtain ⟨hmem, hi⟩ := hv.invalid i hinvalid
    refine ⟨i, rfl, hmem, ?_, .inl hi⟩
    by_contra hreserved
    rw [isInvalidLine_of_reserved (Bool.not_eq_false _ ▸ hreserved)] at hi
    cases hi
  case h_2 i hnone hvalid =>
    obtain ⟨hmem, hevictable, htime⟩ := hv.valid i hvalid
    refine ⟨i, rfl, hmem, hevictable.1, .inr ⟨hv.noInvalid hnone, fun j hj hj' => ?_⟩⟩
    rw [← htime]
    exact hv.oldest j hj ⟨hj', hv.noInvalid hnone j hj⟩
  case h_3 hnone hvalid =>
    refine absurd (fun i hi => ?_) hnotAll
    by_contra hreserved
    have hle := hv.oldest i hi ⟨Bool.not_eq_true _ ▸ hreserved, hv.noInvalid hnone i hi⟩
    rw [hv.noValid hvalid] at hle
    exact absurd (evictTime_lt ht i) (not_lt.mpr hle)

/-- What a lookup returns, and when it does not reach an assertion. -/
theorem probe_characterised (cfg : CacheConfig) {lines : Lines} {addr : BitVec 64} (mf : MemFetch)
    (hone : OneLivePerTag cfg lines addr) (ht : Stamped lines) :
    (∀ p, cfg.probe lines addr (cfg.sectorOf mf) = .ok p →
      Characterised cfg lines addr (cfg.sectorOf mf) p) ∧
    ((∃ p, cfg.probe lines addr (cfg.sectorOf mf) = .ok p) ↔ cfg.allocPolicy = .onMiss ∨
      ¬ (NoneStops cfg lines addr (cfg.sectorOf mf) ∧
        ∀ i ∈ cfg.ways addr, (lines i).isReservedLine = true)) := by
  rw [probe, probeWays_eq]
  cases hfind : (cfg.ways addr).findSome? (cfg.matchLine lines (cfg.getTag addr) (cfg.sectorOf mf))
    with
  | some q =>
    obtain ⟨i, hi, hmatch⟩ := List.exists_of_findSome?_eq_some hfind
    have hq := characterised_match hone hi hmatch
    refine ⟨fun p hp => Except.ok.inj hp ▸ hq, iff_of_true ⟨q, rfl⟩ (.inr fun h => ?_)⟩
    exact h.1 i hi (stops_iff.mpr (by rw [hmatch]; exact Option.some_ne_none q))
  | none =>
    have hnone : NoneStops cfg lines addr (cfg.sectorOf mf) := fun i hi hstops =>
      stops_iff.mp hstops (List.findSome?_eq_none_iff.mp hfind i hi)
    have hv := candidates_foldl (candidates_nil cfg lines) (cfg.ways addr)
    rw [List.nil_append] at hv
    dsimp only
    generalize (cfg.ways addr).foldl (fun v i => cfg.considerVictim lines i v) {} = v at hv ⊢
    cases hall : v.allReserved with
    | true =>
      have hreserved := hv.allReserved.mp hall
      rw [probeWays, if_pos hall]
      by_cases hon : cfg.allocPolicy = .onMiss
      · rw [if_pos hon]
        refine ⟨fun p hp => ?_, iff_of_true ⟨_, rfl⟩ (.inl hon)⟩
        cases hp
        exact characterised_reservationFail hnone hreserved
      · rw [if_neg hon]
        refine ⟨(fun p hp => by cases hp), iff_of_false (by rintro ⟨p, hp⟩; cases hp) ?_⟩
        rintro (h | h)
        · exact hon h
        · exact h ⟨hnone, hreserved⟩
    | false =>
      obtain ⟨i, hi, hvictim⟩ := exists_victim ht hv hall
      rw [hi]
      refine ⟨fun p hp => ?_, iff_of_true ⟨_, rfl⟩ (.inr fun h => ?_)⟩
      · cases hp
        exact characterised_miss hnone hvictim
      · have hfree := hvictim.free
        rw [h.2 i hvictim.mem] at hfree
        cases hfree

/-! ## Reachable states -/

/-- The lines of a run of the cache are what the lookup needs. -/
theorem oneLivePerTag_of_placed (h : Placed cfg lines) (addr : BitVec 64) :
    OneLivePerTag cfg lines addr :=
  fun i _ j _ hi hj htag => h.unique i j hi hj htag

theorem Stamped.update (h : Stamped lines) {b : CacheBlock} (hlast : b.lastAccessTime < 2 ^ 32)
    (halloc : b.allocTime < 2 ^ 32) (i : Nat) : Stamped (Function.update lines i b) := by
  intro j
  by_cases hj : j = i
  · rw [hj, Function.update_self]
    exact ⟨hlast, halloc⟩
  · rw [Function.update_of_ne hj]
    exact h j

theorem stamped_allocateSector {b b' : CacheBlock} {time : Nat}
    (h : b.allocateSector time s = .ok b') :
    b'.lastAccessTime = time ∧ b'.allocTime = b.allocTime := by
  rw [CacheBlock.allocateSector] at h
  split at h
  · cases h
    exact ⟨rfl, rfl⟩
  · cases h

/-- Accesses at 32-bit times keep the times of the lines so. -/
theorem stamped_tagAccess (h : Stamped lines) {time : Nat} (htime : time < 2 ^ 32)
    {lines' : Lines} {p : Probe} {evicted : Option EvictedBlockInfo}
    (haccess : cfg.tagAccess lines addr time s = .ok (p, lines', evicted)) : Stamped lines' := by
  rw [tagAccess] at haccess
  obtain ⟨q, -, haccess⟩ := bind_eq_ok.mp haccess
  cases q with
  | reservationFail =>
    cases haccess
    exact h
  | hitReserved i =>
    cases haccess
    exact h
  | hit i =>
    cases haccess
    have htouched : ((lines i).setLastAccessTime time).lastAccessTime < 2 ^ 32 := htime
    exact h.update htouched (h i).2 i
  | sectorMiss i =>
    dsimp only at haccess
    split at haccess
    · cases haccess
    split at haccess
    · obtain ⟨b, hb, haccess⟩ := bind_eq_ok.mp haccess
      cases haccess
      obtain ⟨hlast, halloc⟩ := stamped_allocateSector hb
      exact h.update (hlast ▸ htime) (halloc ▸ (h i).2) i
    · cases haccess
      exact h
  | miss i =>
    dsimp only at haccess
    split at haccess
    · cases haccess
      exact h.update htime htime i
    · cases haccess
      exact h

/-- Two lines, of which the first holds the block at 0. -/
def firstValid : Lines :=
  Function.update (fun _ => Cache.emptyLine) 0 (Cache.emptyLine.setStatus 0 .valid)

theorem oneLivePerTag_firstValid (addr : BitVec 64) :
    OneLivePerTag Cache.twoLines firstValid addr := by
  have honly : ∀ i, (firstValid i).Live → i = 0 := by
    intro i hi
    by_contra hne
    rw [firstValid, Function.update_of_ne hne] at hi
    exact absurd hi (by decide)
  exact fun i _ j _ hi hj _ => (honly i hi).trans (honly j hj).symm

theorem stamped_firstValid : Stamped firstValid := by
  have hempty : Stamped fun _ => Cache.emptyLine := fun _ =>
    ⟨Nat.two_pow_pos 32, Nat.two_pow_pos 32⟩
  exact hempty.update (by decide) (by decide) 0

/-- The block is found, and for another one the invalid line is taken. -/
theorem probe_characterised_firstValid :
    Characterised Cache.twoLines firstValid 0 0 (.hit 0) ∧
      Characterised Cache.twoLines firstValid 32 0 (.miss 1) :=
  ⟨(probe_characterised Cache.twoLines (Cache.wordRequest 0 0 false) (oneLivePerTag_firstValid 0)
      stamped_firstValid).1 _ rfl,
    (probe_characterised Cache.twoLines (Cache.wordRequest 0 32 false)
      (oneLivePerTag_firstValid 32) stamped_firstValid).1 _ rfl⟩

end CacheConfig

end NdpSim
