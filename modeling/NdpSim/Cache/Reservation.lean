import NdpSim.Cache.Run

/-!
# Reservations

A sector is reserved from a miss until its fill. Only the reservation keeps the line from being
claimed for another block while the data is on its way, and only a fill ends it.
-/
namespace NdpSim

open Library

section Claimed

variable {lines lines' : Lines} {p : Probe} {tag : BitVec 64} {s t : Sector}
  {st : CacheBlockState} {i : Nat}

/-- The lookup found the sector reserved only if it says so. -/
theorem Found.hitReserved_of_reserved (hf : Found lines tag s p) (hp : p ≠ .reservationFail)
    (hr : (lines p.idx).status s = .reserved) : p = .hitReserved p.idx := by
  cases p with
  | hitReserved i => rfl
  | hit i => exact absurd hr (hf.hit i rfl)
  | sectorMiss i => exact absurd hr (hf.sectorMiss i rfl)
  | miss i => exact absurd hr (hf.miss i rfl s)
  | reservationFail => exact absurd rfl hp

/-- A line with a reserved sector is claimed for the block it has. -/
theorem Found.keeps_tag (hf : Found lines tag s p) (hp : p ≠ .reservationFail)
    (hr : (lines p.idx).status t = .reserved) :
    p ≠ .miss p.idx ∧ (lines p.idx).tag = tag := by
  cases p with
  | hitReserved i => exact ⟨by simp, hf.tag i (.inl rfl)⟩
  | hit i => exact ⟨by simp, hf.tag i (.inr (.inl rfl))⟩
  | sectorMiss i => exact ⟨by simp, hf.tag i (.inr (.inr rfl))⟩
  | miss i => exact absurd hr (hf.miss i rfl t)
  | reservationFail => exact absurd rfl hp

/-- Reservations other than of the claimed sector stay. -/
theorem Claimed.keeps (h : Claimed lines lines' p tag s st) (hf : Found lines tag s p)
    (hp : p ≠ .reservationFail) (hr : (lines i).status t = .reserved)
    (hne : st = .reserved ∨ ¬ (i = p.idx ∧ t = s)) :
    (lines' i).tag = (lines i).tag ∧ (lines' i).status t = .reserved := by
  by_cases hi : i = p.idx
  · subst hi
    obtain ⟨hmiss, htag⟩ := hf.keeps_tag hp hr
    refine ⟨h.tag.trans htag.symm, ?_⟩
    rw [h.status, if_neg hmiss, Function.update_apply]
    split
    case isTrue ht => exact hne.resolve_right fun hc => hc ⟨rfl, ht⟩
    case isFalse => exact hr
  · rw [h.other i hi]
    exact ⟨rfl, hr⟩

/-- A reservation that is there after a claim was there before, or is the claimed one. -/
theorem Claimed.origin (h : Claimed lines lines' p tag s st) (hf : Found lines tag s p)
    (hp : p ≠ .reservationFail) (hr : (lines' i).status t = .reserved) :
    (i = p.idx ∧ t = s ∧ st = .reserved) ∨
      ((lines i).status t = .reserved ∧ (lines' i).tag = (lines i).tag) := by
  by_cases hi : i = p.idx
  · subst hi
    rw [h.status, Function.update_apply] at hr
    split at hr
    case isTrue ht => exact .inl ⟨rfl, ht, hr⟩
    case isFalse =>
      split at hr
      case isTrue => cases hr
      case isFalse =>
        obtain ⟨-, htag⟩ := hf.keeps_tag hp hr
        exact .inr ⟨hr, h.tag.trans htag.symm⟩
  · rw [h.other i hi] at hr ⊢
    exact .inr ⟨hr, rfl⟩

end Claimed

namespace Cache

variable {kind : CacheKind} {cfg : CacheConfig} {c c' : Cache}

/-! ## A fill reaches its line -/

/-- A sector that is reserved and has a request under way is left alone: the access does not write
into it and does not send a second request for it. -/
def LeavesReserved (cfg : CacheConfig) (c : Cache) : CacheOp → Prop
  | .access mf _ => ∀ i id f,
    cfg.probe c.lines (cfg.getBlockAddr mf.addr) (cfg.sectorOf mf) = .ok (.hitReserved i) →
    c.extraMfFields.lookup id = some f → f.cacheIndex = i → cfg.sectorOf f.mf = cfg.sectorOf mf →
    overwrites cfg mf = false ∧
      (fetches cfg mf = true → c.mshrProbe (cfg.getMshrAddr mf.addr) = true)
  | _ => True

/-- The line of every request under way has the block of the request, and its sector is reserved
for that request alone. -/
structure Aimed (cfg : CacheConfig) (c : Cache) : Prop where
  tag : ∀ id f, c.extraMfFields.lookup id = some f →
    (c.lines f.cacheIndex).tag = cfg.getTag f.mf.addr
  reserved : ∀ id f, c.extraMfFields.lookup id = some f →
    (c.lines f.cacheIndex).status (cfg.sectorOf f.mf) = .reserved
  unique : ∀ id id' f f', c.extraMfFields.lookup id = some f →
    c.extraMfFields.lookup id' = some f' → f.cacheIndex = f'.cacheIndex →
    cfg.sectorOf f.mf = cfg.sectorOf f'.mf → id = id'

theorem aimed_initial (cfg : CacheConfig) (lines : Lines) : Aimed cfg (initial lines) := by
  constructor <;> simp [initial]

/-- The requests under way stay the same, and so does what they rely on. -/
theorem Aimed.of_keeps (hc : Aimed cfg c) (hextra : c'.extraMfFields = c.extraMfFields)
    (hkeeps : ∀ id f, c.extraMfFields.lookup id = some f →
      (c'.lines f.cacheIndex).tag = (c.lines f.cacheIndex).tag ∧
        (c'.lines f.cacheIndex).status (cfg.sectorOf f.mf) = .reserved) : Aimed cfg c' := by
  constructor
  · rw [hextra]
    exact fun id f h => (hkeeps id f h).1.trans (hc.tag id f h)
  · rw [hextra]
    exact fun id f h => (hkeeps id f h).2
  · rw [hextra]
    exact hc.unique

theorem Aimed.request (hc : Aimed cfg c) {newMf : MemFetch} {p : Probe} {B : BitVec 64}
    (hextra : c'.extraMfFields = c.extraMfFields.insert newMf.id ⟨newMf, B, p.idx⟩)
    (hclaim : Claimed c.lines c'.lines p (cfg.getTag newMf.addr) (cfg.sectorOf newMf) .reserved)
    (hf : Found c.lines (cfg.getTag newMf.addr) (cfg.sectorOf newMf) p)
    (hp : p ≠ .reservationFail)
    (halone : ∀ id f, c.extraMfFields.lookup id = some f → f.cacheIndex = p.idx →
      cfg.sectorOf f.mf ≠ cfg.sectorOf newMf) : Aimed cfg c' := by
  have hfield : ∀ id f, c'.extraMfFields.lookup id = some f →
      (id = newMf.id ∧ f = ⟨newMf, B, p.idx⟩) ∨ c.extraMfFields.lookup id = some f := by
    rw [hextra]
    exact fun _ _ h => (Binding.lookup_insert_eq_some.mp h).imp_right And.right
  have hkeeps : ∀ id f, c.extraMfFields.lookup id = some f →
      (c'.lines f.cacheIndex).tag = (c.lines f.cacheIndex).tag ∧
        (c'.lines f.cacheIndex).status (cfg.sectorOf f.mf) = .reserved :=
    fun id f h => hclaim.keeps hf hp (hc.reserved id f h) (.inl rfl)
  constructor
  · intro id f h
    obtain ⟨-, rfl⟩ | h := hfield id f h
    · exact hclaim.tag
    · exact (hkeeps id f h).1.trans (hc.tag id f h)
  · intro id f h
    obtain ⟨-, rfl⟩ | h := hfield id f h
    · simp only [hclaim.status, Function.update_self]
    · exact (hkeeps id f h).2
  · intro id id' f f' h h' hi hs
    obtain ⟨rfl, rfl⟩ | h := hfield id f h
    · obtain ⟨rfl, -⟩ | h' := hfield id' f' h'
      · rfl
      · exact absurd hs.symm (halone id' f' h' hi.symm)
    · obtain ⟨-, rfl⟩ | h' := hfield id' f' h'
      · exact absurd hs (halone id f h hi)
      · exact hc.unique id id' f f' h h' hi hs

theorem Aimed.fill (hon : cfg.allocPolicy = .onMiss) (hc : Aimed cfg c) {id : Nat}
    {f : ExtraMfFields} (h : Fills cfg c id f c') : Aimed cfg c' := by
  obtain ⟨b, hlines, htag, st, -, hst⟩ := h.lines hon
  have hfield : ∀ id' f', c'.extraMfFields.lookup id' = some f' →
      id' ≠ id ∧ c.extraMfFields.lookup id' = some f' := by
    rw [h.extra]
    exact fun _ _ => Binding.lookup_erase_eq_some.mp
  have hkeeps : ∀ id' f', c'.extraMfFields.lookup id' = some f' →
      (c'.lines f'.cacheIndex).tag = (c.lines f'.cacheIndex).tag ∧
        (c'.lines f'.cacheIndex).status (cfg.sectorOf f'.mf) = .reserved := by
    intro id' f' hl
    obtain ⟨hne, hl⟩ := hfield id' f' hl
    have hr := hc.reserved id' f' hl
    rw [hlines, Function.update_apply]
    split
    case isTrue hi =>
      have hs : cfg.sectorOf f'.mf ≠ cfg.sectorOf f.mf := fun hs =>
        hne (hc.unique id' id f' f hl h.field hi hs)
      rw [htag, hi, hst, Function.update_of_ne hs, ← hi]
      exact ⟨rfl, hr⟩
    case isFalse => exact ⟨rfl, hr⟩
  constructor
  · intro id' f' hl
    exact (hkeeps id' f' hl).1.trans (hc.tag id' f' (hfield id' f' hl).2)
  · exact fun id' f' hl => (hkeeps id' f' hl).2
  · intro id₁ id₂ f₁ f₂ h₁ h₂
    exact hc.unique id₁ id₂ f₁ f₂ (hfield id₁ f₁ h₁).2 (hfield id₂ f₂ h₂).2

theorem Aimed.does (hon : cfg.allocPolicy = .onMiss) (hc : Aimed cfg c) {op : CacheOp}
    {ev : List CacheTrace} (hop : LeavesReserved cfg c op) (h : Does cfg c op c' ev) :
    Aimed cfg c' := by
  cases h with
  | stay => exact hc
  | send hq => exact ⟨hc.tag, hc.reserved, hc.unique⟩
  | pop hpops =>
    refine hc.of_keeps hpops.extra fun id f h => ?_
    rw [hpops.lines]
    exact ⟨rfl, hc.reserved id f h⟩
  | fill hfills => exact hc.fill hon hfills
  | @access mf time status _ hout hframe =>
    cases hout with
    | idle lines table extra quiet =>
      refine hc.of_keeps extra fun id f h => ?_
      rw [lines]
      exact ⟨rfl, hc.reserved id f h⟩
    | @touched p probe claimed found overwritten table extra quiet =>
      obtain ⟨st, -, hclaim⟩ := claimed hon
      have hf := CacheConfig.found_probe probe
      rw [CacheConfig.getTag_getBlockAddr] at hf
      refine hc.of_keeps extra fun id f h => hclaim.keeps hf found (hc.reserved id f h) (.inr ?_)
      rintro ⟨hi, hs⟩
      -- the written sector is reserved, so the write is one that must not happen
      have hr := hc.reserved id f h
      rw [hi, hs] at hr
      have hp := hf.hitReserved_of_reserved found hr
      have hwrites := overwritten (by rw [hp]; simp)
      rw [hp] at probe
      rw [(hop _ id f probe h hi hs).1] at hwrites
      cases hwrites
    | @awaits p newMf probe missed found fetched serves taken =>
      have hsector := cfg.sectorOf_congr serves.addr
      rw [← serves.addr, ← hsector] at probe
      have hf := CacheConfig.found_probe probe
      rw [CacheConfig.getTag_getBlockAddr] at hf
      cases taken with
      | @merged q e hq hclaim lookup room table extra =>
        obtain rfl : q = p := Except.ok.inj (hq.symm.trans probe)
        exact hc.of_keeps extra fun id f h =>
          (hclaim hon missed found).keeps hf found (hc.reserved id f h) (.inl rfl)
      | @requested q hq hclaim lookup room table extra sent =>
        obtain rfl : q = p := Except.ok.inj (hq.symm.trans probe)
        refine hc.request extra (hclaim hon missed found) hf found fun id f h hi hs => ?_
        -- a second request for a reserved sector is one that must not happen
        have hr := hc.reserved id f h
        rw [hi, hs] at hr
        rw [hf.hitReserved_of_reserved found hr, serves.addr, hsector] at probe
        have hentry := (hop _ id f probe h hi (hs.trans hsector)).2 fetched
        rw [serves.addr] at lookup
        rw [mshrProbe, show c.table.lookup _ = none from lookup] at hentry
        cases hentry

theorem Run.aimed (hon : cfg.allocPolicy = .onMiss) {tr : List CacheTrace}
    (h : Run kind cfg (LeavesReserved cfg) c tr) : Aimed cfg c := by
  induction h with
  | start lines _ => exact aimed_initial cfg lines
  | step _ op meets _ hs ih => exact ih.does hon meets (step_cases hs)

/-- In every run that leaves reserved sectors alone, the line a fill writes has the block of its
request, and no other sector changes. -/
theorem fill_targets_line (hon : cfg.allocPolicy = .onMiss) {tr : List CacheTrace}
    (hrun : Run kind cfg (LeavesReserved cfg) c tr) {id time : Nat}
    (h : c.fill cfg id time = .ok c') :
    ∃ f, c.extraMfFields.lookup id = some f ∧
      (c.lines f.cacheIndex).tag = cfg.getTag f.mf.addr ∧
      (c'.lines f.cacheIndex).tag = cfg.getTag f.mf.addr ∧
      ∀ i s, (c'.lines i).status s ≠ (c.lines i).status s →
        i = f.cacheIndex ∧ s = cfg.sectorOf f.mf := by
  obtain ⟨f, hf⟩ := fill_cases h
  obtain ⟨b, hlines, htag, st, -, hst⟩ := hf.lines hon
  have haimed := (hrun.aimed hon).tag id f hf.field
  refine ⟨f, hf.field, haimed, ?_, fun i s hne => ?_⟩
  · rw [hlines, Function.update_self, htag, haimed]
  · by_cases hi : i = f.cacheIndex
    · subst hi
      refine ⟨rfl, ?_⟩
      by_contra hs
      rw [hlines, Function.update_self, hst, Function.update_of_ne hs] at hne
      exact hne rfl
    · rw [hlines, Function.update_of_ne hi] at hne
      exact absurd rfl hne

/-- Two reads wait for one block and a read of another one claims the line after them. -/
theorem fill_targets_line_read : ∃ c c' tr,
    Run .data (oneLine .lazyFetchOnRead) (LeavesReserved (oneLine .lazyFetchOnRead)) c tr ∧
    c.fill (oneLine .lazyFetchOnRead) 2 6 = .ok c' ∧
    ∃ f, c.extraMfFields.lookup 2 = some f ∧
      (c.lines f.cacheIndex).tag = (oneLine .lazyFetchOnRead).getTag f.mf.addr := by
  suffices hfill : ∃ c c' tr,
      Run .data (oneLine .lazyFetchOnRead) (LeavesReserved (oneLine .lazyFetchOnRead)) c tr ∧
      c.fill (oneLine .lazyFetchOnRead) 2 6 = .ok c' by
    obtain ⟨c, c', tr, hrun, hfill⟩ := hfill
    obtain ⟨f, hf, htag, -⟩ := fill_targets_line rfl hrun hfill
    exact ⟨c, c', tr, hrun, hfill, f, hf, htag⟩
  have hfirst : Run .data (oneLine .lazyFetchOnRead)
      (LeavesReserved (oneLine .lazyFetchOnRead)) _ _ :=
    .step (.start (fun _ => emptyLine) fun _ _ => rfl) (.access (wordRequest 0 0 false) 1)
      (fun _ _ _ _ h => nomatch h) rfl rfl
  have hmerged := hfirst.step (.access (wordRequest 1 8 false) 2)
    (fun _ _ _ _ _ _ _ => ⟨rfl, fun _ => rfl⟩) rfl rfl
  have hsent := hmerged.step (.cycle false) trivial trivial rfl
  have hfilled := hsent.step (.fill 0 4) trivial trivial rfl
  have hother := hfilled.step (.access (wordRequest 2 32 false) 5) (fun i _ _ h =>
    nomatch (h : (.ok (.miss 0) : Except Fault Probe) = .ok (.hitReserved i))) rfl rfl
  exact ⟨_, _, _, hother, rfl⟩

/-- A write takes the reservation of a block, a read of another block claims the line, and the
fill of the first block makes the second one valid. -/
theorem fill_validates_other_block : ∃ c c' tr f,
    Run .data (oneLine .lazyFetchOnRead) (fun _ _ => True) c tr ∧
    c.fill (oneLine .lazyFetchOnRead) 0 4 = .ok c' ∧ c.extraMfFields.lookup 0 = some f ∧
    (c.lines f.cacheIndex).tag ≠ (oneLine .lazyFetchOnRead).getTag f.mf.addr ∧
    (c.lines f.cacheIndex).status 0 = .reserved ∧ (c'.lines f.cacheIndex).status 0 = .valid := by
  have hrun : Run .data (oneLine .lazyFetchOnRead) (fun _ _ => True) _ _ :=
    .step (.step (.step (.start (fun _ => emptyLine) fun _ _ => rfl)
      (.access (wordRequest 0 0 false) 1) trivial rfl rfl)
      (.access (wordRequest 1 0 true) 2) trivial rfl rfl)
      (.access (wordRequest 2 32 false) 3) trivial rfl rfl
  exact ⟨_, _, _, _, hrun, rfl, rfl, by decide, rfl, rfl⟩

/-! ## A reservation gets its fill -/

/-- An access that claims a sector and needs its data sends a request for it: the block is not
waited for already. -/
def RequestsWhatItClaims (cfg : CacheConfig) (c : Cache) : CacheOp → Prop
  | .access mf _ => fetches cfg mf = true → c.mshrProbe (cfg.getMshrAddr mf.addr) = true →
    ∀ i, cfg.probe c.lines (cfg.getBlockAddr mf.addr) (cfg.sectorOf mf) ≠ .ok (.miss i) ∧
      cfg.probe c.lines (cfg.getBlockAddr mf.addr) (cfg.sectorOf mf) ≠ .ok (.sectorMiss i)
  | _ => True

/-- A request under way fills the sector `s` of line `i`, which has its block. -/
def Fillable (cfg : CacheConfig) (c : Cache) (i : Nat) (s : Sector) : Prop :=
  ∃ id f, c.extraMfFields.lookup id = some f ∧ f.cacheIndex = i ∧ cfg.sectorOf f.mf = s ∧
    cfg.getTag f.mf.addr = (c.lines i).tag

def Backed (cfg : CacheConfig) (c : Cache) : Prop :=
  ∀ i s, (c.lines i).status s = .reserved → Fillable cfg c i s

theorem Fillable.of_lookup {i : Nat} {s : Sector} (h : Fillable cfg c i s)
    (htag : (c'.lines i).tag = (c.lines i).tag)
    (hextra : ∀ id f, c.extraMfFields.lookup id = some f → f.cacheIndex = i →
      cfg.sectorOf f.mf = s → c'.extraMfFields.lookup id = some f) : Fillable cfg c' i s := by
  obtain ⟨id, f, hl, hi, hs, ht⟩ := h
  exact ⟨id, f, hextra id f hl hi hs, hi, hs, ht.trans htag.symm⟩

theorem Backed.fill (hon : cfg.allocPolicy = .onMiss) (hc : Backed cfg c) {id : Nat}
    {f : ExtraMfFields} (h : Fills cfg c id f c') : Backed cfg c' := by
  obtain ⟨b, hlines, htag, st, hst, hstatus⟩ := h.lines hon
  intro i s hr
  have hold : (c.lines i).status s = .reserved ∧ (c'.lines i).tag = (c.lines i).tag ∧
      ¬ (f.cacheIndex = i ∧ cfg.sectorOf f.mf = s) := by
    rw [hlines, Function.update_apply] at hr ⊢
    split at hr
    case isTrue hi =>
      subst hi
      rw [hstatus, Function.update_apply] at hr
      split at hr
      case isTrue => exact absurd hr hst
      case isFalse hs => exact ⟨hr, by simp [htag], fun hcon => hs hcon.2.symm⟩
    case isFalse hi => exact ⟨hr, by simp [hi], fun hcon => hi hcon.1.symm⟩
  obtain ⟨hr, htag, hne⟩ := hold
  refine (hc i s hr).of_lookup htag fun id' f' hl hi hs => ?_
  rw [h.extra]
  refine Binding.lookup_erase_eq_some.mpr ⟨?_, hl⟩
  rintro rfl
  obtain rfl : f = f' := Option.some_inj.mp (h.field.symm.trans hl)
  exact hne ⟨hi, hs⟩

theorem Backed.does (hon : cfg.allocPolicy = .onMiss) (ht : Tracked cfg c) (hc : Backed cfg c)
    {op : CacheOp} {ev : List CacheTrace} (hfresh : c.Fresh op)
    (hop : RequestsWhatItClaims cfg c op) (h : Does cfg c op c' ev) : Backed cfg c' := by
  have hsame (hextra : c'.extraMfFields = c.extraMfFields) {i : Nat} {s : Sector}
      (hr : (c.lines i).status s = .reserved) (htag : (c'.lines i).tag = (c.lines i).tag) :
      Fillable cfg c' i s :=
    (hc i s hr).of_lookup htag fun id f hl _ _ => by rw [hextra, hl]
  cases h with
  | stay => exact hc
  | send hq => exact hc
  | pop hpops =>
    intro i s hr
    rw [hpops.lines] at hr
    exact hsame hpops.extra hr (by rw [hpops.lines])
  | fill hfills => exact hc.fill hon hfills
  | @access mf time status _ hout hframe =>
    intro i s hr
    cases hout with
    | idle lines table extra quiet =>
      rw [lines] at hr
      exact hsame extra hr (by rw [lines])
    | @touched p probe claimed found overwritten table extra quiet =>
      obtain ⟨st, hst, hclaim⟩ := claimed hon
      have hf := CacheConfig.found_probe probe
      rw [CacheConfig.getTag_getBlockAddr] at hf
      obtain ⟨-, -, hcon⟩ | ⟨hr, htag⟩ := hclaim.origin hf found hr
      · exact absurd hcon hst
      · exact hsame extra hr htag
    | @awaits p newMf probe missed found fetched serves taken =>
      have hsector := cfg.sectorOf_congr serves.addr
      rw [← serves.addr, ← hsector] at probe
      have hf := CacheConfig.found_probe probe
      rw [CacheConfig.getTag_getBlockAddr] at hf
      obtain ⟨-, hnone⟩ := serves.fresh ht hfresh hframe.uid
      cases taken with
      | @merged q e hq hclaim lookup room table extra =>
        obtain rfl : q = p := Except.ok.inj (hq.symm.trans probe)
        obtain ⟨rfl, rfl, -⟩ | ⟨hr, htag⟩ := (hclaim hon missed found).origin hf found hr
        · have hentry : c.mshrProbe (cfg.getMshrAddr mf.addr) = true := by
            rw [← serves.addr, mshrProbe, show c.table.lookup _ = some e from lookup]
            rfl
          have hother := hop fetched hentry q.idx
          rw [← serves.addr, ← hsector, show cfg.probe c.lines _ _ = .ok q from probe] at hother
          have hq : q = .hitReserved q.idx := by
            cases q <;> simp_all [Probe.idx]
          have hr := hf.hitReserved _ hq
          exact hsame extra hr ((hclaim hon missed found).tag.trans (hf.keeps_tag found hr).2.symm)
        · exact hsame extra hr htag
      | @requested q hq hclaim lookup room table extra sent =>
        obtain rfl : q = p := Except.ok.inj (hq.symm.trans probe)
        obtain ⟨rfl, rfl, -⟩ | ⟨hr, htag⟩ := (hclaim hon missed found).origin hf found hr
        · refine ⟨newMf.id, _, by rw [extra, AList.lookup_insert], rfl, rfl, ?_⟩
          exact (hclaim hon missed found).tag.symm
        · refine (hc i s hr).of_lookup htag fun id f hl _ _ => ?_
          have hne : id ≠ newMf.id := by
            rintro rfl
            rw [hnone] at hl
            cases hl
          rw [extra, AList.lookup_insert_ne hne]
          exact hl

/-- In every run in which no access claims a sector of a block that is waited for already, every
reserved sector has a request under way that fills it. -/
theorem reservation_fillable (hon : cfg.allocPolicy = .onMiss) {tr : List CacheTrace}
    (hrun : Run kind cfg (RequestsWhatItClaims cfg) c tr) {i : Nat} {s : Sector}
    (hr : (c.lines i).status s = .reserved) : Fillable cfg c i s := by
  suffices hbacked : Backed cfg c from hbacked i s hr
  clear hr
  induction hrun with
  | start lines h =>
    intro i s hr
    rw [initial, h] at hr
    cases hr
  | step run op meets fresh hs ih => exact ih.does hon run.tracked fresh meets (step_cases hs)

/-- After the line was filled for one block it is reserved for another one. -/
theorem reservation_fillable_read : ∃ c tr,
    Run .data (oneLine .noWriteAllocate)
      (RequestsWhatItClaims (oneLine .noWriteAllocate)) c tr ∧
    (c.lines 0).status 0 = .reserved ∧ Fillable (oneLine .noWriteAllocate) c 0 0 := by
  have hfirst : Run .data (oneLine .noWriteAllocate)
      (RequestsWhatItClaims (oneLine .noWriteAllocate)) _ _ :=
    .step (.start (fun _ => emptyLine) fun _ _ => rfl) (.access (wordRequest 0 0 false) 1)
      (fun _ h => nomatch h) rfl rfl
  have hsent := hfirst.step (.cycle false) trivial trivial rfl
  have hfilled := hsent.step (.fill 0 3) trivial trivial rfl
  have hother := hfilled.step (.access (wordRequest 1 32 false) 4)
    (fun _ h => nomatch (h : false = true)) rfl rfl
  exact ⟨_, _, hother, rfl, reservation_fillable rfl hother rfl⟩

/-- The entry of a block outlives its fill. If the block is evicted and read again before the
request is popped, the line is reserved once more and nothing will fill it. -/
theorem reserved_without_request : ∃ c tr,
    Run .data (oneLine .noWriteAllocate) (fun _ _ => True) c tr ∧
    (c.lines 0).status 0 = .reserved ∧ ¬ Fillable (oneLine .noWriteAllocate) c 0 0 ∧
    c.missQueue = [] := by
  have hrun : Run .data (oneLine .noWriteAllocate) (fun _ _ => True) _ _ :=
    .step (.step (.step (.step (.step (.step (.step (.start (fun _ => emptyLine) fun _ _ => rfl)
      (.access (wordRequest 0 0 false) 1) trivial rfl rfl)
      (.cycle false) trivial trivial rfl)
      (.fill 0 2) trivial trivial rfl)
      (.access (wordRequest 1 32 false) 3) trivial rfl rfl)
      (.cycle false) trivial trivial rfl)
      (.fill 1 4) trivial trivial rfl)
      (.access (wordRequest 2 0 false) 5) trivial rfl rfl
  refine ⟨_, _, hrun, rfl, ?_, rfl⟩
  rintro ⟨_, _, h, -⟩
  cases h

end Cache

end NdpSim
