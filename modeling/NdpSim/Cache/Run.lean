import NdpSim.Cache.Outcome

/-!
# Runs of a cache

Accesses, fills, pops and cycles in any order. The requests of the callers are objects of their
own: an access never brings one whose read request is still under way.
-/
namespace NdpSim

open Library

inductive CacheOp
  | access (mf : MemFetch) (time : Nat)
  | fill (id time : Nat)
  | pop
  | cycle (toMemFull : Bool)

/-- What a step shows: a read that missed, a block whose data arrived, a request given back to the
caller, a request that left for memory. -/
inductive CacheTrace
  | missed (mf : MemFetch)
  | filled (blockAddr : BitVec 64)
  | returned (mf : MemFetch)
  | sent (mf : MemFetch)
  deriving DecidableEq

namespace Cache

def step (kind : CacheKind) (cfg : CacheConfig) (c : Cache) :
    CacheOp → Except Fault (Cache × List CacheTrace)
  | .access mf time => do
    let (status, _, c) ← { c with uid := max c.uid (mf.id + 1) }.access kind cfg mf time
    return (c, if status = .miss ∧ mf.isWrite = false then [.missed mf] else [])
  | .fill id time => do
    let c' ← c.fill cfg id time
    return (c', (c.extraMfFields.lookup id).toList.map fun f => .filled f.blockAddr)
  | .pop => do
    let (mf, c) ← c.popNextAccess
    return (c, [.returned mf])
  | .cycle toMemFull =>
    let (mf, c) := c.cycle toMemFull
    return (c, mf.toList.map .sent)

/-- The request of an access is not the one of a read that is under way. -/
def Fresh (c : Cache) : CacheOp → Prop
  | .access mf _ => c.extraMfFields.lookup mf.id = none
  | _ => True

def initial (lines : Lines) : Cache where
  lines := lines
  table := ∅
  currentResponse := []
  missQueue := []
  extraMfFields := ∅
  uid := 0

/-- The runs of a cache in which every step meets `P`, with what they show. -/
inductive Run (kind : CacheKind) (cfg : CacheConfig) (P : Cache → CacheOp → Prop) :
    Cache → List CacheTrace → Prop
  | start (lines : Lines) (h : ∀ i s, (lines i).status s = .invalid) :
      Run kind cfg P (initial lines) []
  | step {c c' : Cache} {tr ev : List CacheTrace} (run : Run kind cfg P c tr) (op : CacheOp)
      (meets : P c op) (fresh : c.Fresh op) (h : c.step kind cfg op = .ok (c', ev)) :
      Run kind cfg P c' (tr ++ ev)

/-- A cache with a single line of 32 bytes that writes back. -/
def oneLine (writeAllocPolicy : WriteAllocatePolicy) : CacheConfig where
  cacheType := .normal
  evictPolicy := .lru
  writePolicy := .writeBack
  allocPolicy := .onMiss
  writeAllocPolicy := writeAllocPolicy
  mshrConfig := .assoc
  lineSize := 32
  assoc := 1
  mshrEntries := 4
  mshrMaxMerge := 4
  missQueueSize := 8
  setIndex _ := 0

def emptyLine : CacheBlock where
  tag := 0
  blockAddr := 0
  status _ := .invalid
  ignoreOnFill _ := false
  modifiedOnFill _ := false
  readable _ := true
  lastAccessTime := 0
  allocTime := 0

/-- A request for four bytes. -/
def wordRequest (id : Nat) (addr : BitVec 64) (isWrite : Bool) : MemFetch where
  id := id
  addr := addr
  isWrite := isWrite
  isAtomic := false
  fromNdp := true
  byteCount := 4
  dataSize := 4
  dirtyMask := 0

/-! ## What a step can do -/

/-- The data of the read request `id` has arrived. -/
structure Fills (cfg : CacheConfig) (c : Cache) (id : Nat) (f : ExtraMfFields) (c' : Cache) :
    Prop where
  field : c.extraMfFields.lookup id = some f
  entry : ∃ e, c.table.lookup f.blockAddr = some e
  lines : cfg.allocPolicy = .onMiss → ∃ b, c'.lines = Function.update c.lines f.cacheIndex b ∧
    b.tag = (c.lines f.cacheIndex).tag ∧ ∃ st ≠ .reserved,
      b.status = Function.update (c.lines f.cacheIndex).status (cfg.sectorOf f.mf) st
  table : c'.table = c.table
  response : c'.currentResponse = c.currentResponse ++ [f.blockAddr]
  extra : c'.extraMfFields = c.extraMfFields.erase id
  queue : c'.missQueue = c.missQueue
  uid : c'.uid = c.uid

/-- The first request that waits for the first block with data leaves. -/
structure Pops (c : Cache) (mf : MemFetch) (c' : Cache) (B : BitVec 64) (rest : List (BitVec 64))
    (e : MshrEntry) : Prop where
  response : c.currentResponse = B :: rest
  lookup : c.table.lookup B = some ⟨mf :: e.list, e.hasAtomic⟩
  table : c'.table = if e.list = [] then c.table.erase B else c.table.insert B e
  response' : c'.currentResponse = if e.list = [] then rest else B :: rest
  lines : c'.lines = c.lines
  extra : c'.extraMfFields = c.extraMfFields
  queue : c'.missQueue = c.missQueue
  uid : c'.uid = c.uid

/-- What a step does, for each operation. -/
inductive Does (cfg : CacheConfig) (c : Cache) :
    CacheOp → Cache → List CacheTrace → Prop
  | access {mf : MemFetch} {time : Nat} {status : CacheRequestStatus} {c' : Cache}
      (outcome : Outcome cfg { c with uid := max c.uid (mf.id + 1) } mf status c')
      (frame : Frame { c with uid := max c.uid (mf.id + 1) } c') :
      Does cfg c (.access mf time) c'
        (if status = .miss ∧ mf.isWrite = false then [.missed mf] else [])
  | fill {id time : Nat} {f : ExtraMfFields} {c' : Cache} (fills : Fills cfg c id f c') :
      Does cfg c (.fill id time) c' [.filled f.blockAddr]
  | pop {mf : MemFetch} {c' : Cache} {B : BitVec 64} {rest : List (BitVec 64)} {e : MshrEntry}
      (pops : Pops c mf c' B rest e) : Does cfg c .pop c' [.returned mf]
  | stay {full : Bool} : Does cfg c (.cycle full) c []
  | send {mf : MemFetch} {rest : List MemFetch} (queue : c.missQueue = mf :: rest) :
      Does cfg c (.cycle false) { c with missQueue := rest } [.sent mf]

variable {kind : CacheKind} {cfg : CacheConfig} {c c' : Cache}

theorem fill_cases {id time : Nat} (h : c.fill cfg id time = .ok c') :
    ∃ f, Fills cfg c id f c' := by
  simp only [fill] at h
  split at h
  · cases h
  cases hf : c.extraMfFields.lookup id with
  | none => simp only [hf] at h; cases h
  | some f =>
    simp only [hf] at h
    obtain ⟨lines, hl, h⟩ := bind_eq_ok.mp h
    cases he : c.table.lookup f.blockAddr with
    | none => simp only [he] at h; cases h
    | some e =>
      simp only [he] at h
      split at h
      · cases h
      case isFalse =>
        obtain rfl := Except.ok.inj h
        refine ⟨f, hf, ⟨e, he⟩, fun hon => ?_, rfl, rfl, rfl, rfl, rfl⟩
        simp only [fillLines, hon] at hl
        obtain rfl := Except.ok.inj hl
        -- an atomic that waits for the block marks the sector once more
        by_cases ha : e.hasAtomic = true
        · simp only [ha, if_true, Function.update_idem, Function.update_self]
          refine ⟨_, rfl, rfl, .modified, modified_ne_reserved, ?_⟩
          simp only [CacheBlock.setStatus, CacheBlock.fill, Function.update_idem]
        · simp only [ha, Bool.false_eq_true, if_false]
          refine ⟨_, rfl, rfl, _, ?_, rfl⟩
          split <;> simp

theorem popNextAccess_cases {mf : MemFetch} (h : c.popNextAccess = .ok (mf, c')) :
    ∃ B rest e, Pops c mf c' B rest e := by
  simp only [popNextAccess] at h
  split at h
  case h_1 => cases h
  case h_2 B rest hresp =>
    split at h
    case h_1 => cases h
    case h_2 => cases h
    case h_3 m a hl =>
      obtain ⟨rfl, rfl⟩ := Prod.mk.inj (Except.ok.inj h)
      exact ⟨B, rest, ⟨[], a⟩, hresp, hl, by simp, by simp, rfl, rfl, rfl, rfl⟩
    case h_4 m mfs a hne hl =>
      obtain ⟨rfl, rfl⟩ := Prod.mk.inj (Except.ok.inj h)
      exact ⟨B, rest, ⟨mfs, a⟩, hresp, hl, (if_neg hne).symm, hresp.trans (if_neg hne).symm, rfl,
        rfl, rfl, rfl⟩

theorem step_cases {op : CacheOp} {ev : List CacheTrace}
    (h : c.step kind cfg op = .ok (c', ev)) : Does cfg c op c' ev := by
  cases op with
  | access mf time =>
    obtain ⟨⟨status, events, c₁⟩, ha, h⟩ := bind_eq_ok.mp h
    obtain ⟨rfl, rfl⟩ := Prod.mk.inj (Except.ok.inj h)
    have heffect := effect_access ha
    exact .access heffect.outcome heffect.frame
  | fill id time =>
    obtain ⟨c₁, hf, h⟩ := bind_eq_ok.mp h
    obtain ⟨rfl, rfl⟩ := Prod.mk.inj (Except.ok.inj h)
    obtain ⟨f, hfills⟩ := fill_cases hf
    rw [hfills.field]
    exact .fill hfills
  | pop =>
    obtain ⟨⟨mf, c₁⟩, hp, h⟩ := bind_eq_ok.mp h
    obtain ⟨rfl, rfl⟩ := Prod.mk.inj (Except.ok.inj h)
    obtain ⟨B, rest, e, hpops⟩ := popNextAccess_cases hp
    exact .pop hpops
  | cycle full =>
    obtain ⟨rfl, rfl⟩ := Prod.mk.inj (Except.ok.inj h)
    split
    case h_1 => exact .stay
    case h_2 mf rest hq =>
      cases full with
      | true => exact .stay
      | false => exact .send hq

/-! ## Requests under way -/

/-- Every read request under way has its entry in the table; a block in the table waits for one
request, or has its data already. -/
structure Tracked (cfg : CacheConfig) (c : Cache) : Prop where
  id_lt : ∀ id f, c.extraMfFields.lookup id = some f → id < c.uid
  blockAddr : ∀ id f, c.extraMfFields.lookup id = some f →
    f.blockAddr = cfg.getMshrAddr f.mf.addr
  entry : ∀ id f, c.extraMfFields.lookup id = some f → ∃ e, c.table.lookup f.blockAddr = some e
  unique : ∀ id id' f f', c.extraMfFields.lookup id = some f →
    c.extraMfFields.lookup id' = some f' → f.blockAddr = f'.blockAddr → id = id'
  nodup : c.currentResponse.Nodup
  arrived : ∀ B ∈ c.currentResponse, ∃ e, c.table.lookup B = some e
  disjoint : ∀ id f, c.extraMfFields.lookup id = some f → f.blockAddr ∉ c.currentResponse
  covered : ∀ B e, c.table.lookup B = some e →
    B ∈ c.currentResponse ∨ ∃ id f, c.extraMfFields.lookup id = some f ∧ f.blockAddr = B

theorem tracked_initial (cfg : CacheConfig) (lines : Lines) : Tracked cfg (initial lines) := by
  constructor <;> simp [initial]

/-- Nothing changes for the requests under way. -/
theorem Tracked.of_eq (hc : Tracked cfg c) (hresp : c'.currentResponse = c.currentResponse)
    (huid : c.uid ≤ c'.uid)
    (htable : ∀ B, (∃ e, c'.table.lookup B = some e) ↔ ∃ e, c.table.lookup B = some e)
    (hextra : c'.extraMfFields = c.extraMfFields) : Tracked cfg c' := by
  constructor
  · rw [hextra]
    exact fun id f h => (hc.id_lt id f h).trans_le huid
  · rw [hextra]
    exact hc.blockAddr
  · rw [hextra]
    exact fun id f h => (htable _).mpr (hc.entry id f h)
  · rw [hextra]
    exact hc.unique
  · rw [hresp]
    exact hc.nodup
  · rw [hresp]
    exact fun B h => (htable _).mpr (hc.arrived B h)
  · rw [hextra, hresp]
    exact hc.disjoint
  · rw [hextra, hresp]
    intro B e he
    obtain ⟨e', he'⟩ := (htable B).mp ⟨e, he⟩
    exact hc.covered B e' he'

/-- A block that nobody waits for gets an entry and a request. -/
theorem Tracked.request (hc : Tracked cfg c) {newMf : MemFetch} {e : MshrEntry} {i : Nat}
    (hresp : c'.currentResponse = c.currentResponse) (huid : c.uid ≤ c'.uid)
    (hid : newMf.id < c'.uid) (hfresh : c.extraMfFields.lookup newMf.id = none)
    (hnone : c.table.lookup (cfg.getMshrAddr newMf.addr) = none)
    (htable : c'.table = c.table.insert (cfg.getMshrAddr newMf.addr) e)
    (hextra : c'.extraMfFields = c.extraMfFields.insert newMf.id
      ⟨newMf, cfg.getMshrAddr newMf.addr, i⟩) : Tracked cfg c' := by
  have hfield : ∀ id f, c'.extraMfFields.lookup id = some f →
      (id = newMf.id ∧ f = ⟨newMf, cfg.getMshrAddr newMf.addr, i⟩) ∨
        (id ≠ newMf.id ∧ c.extraMfFields.lookup id = some f ∧
          f.blockAddr ≠ cfg.getMshrAddr newMf.addr) := by
    intro id f h
    rw [hextra] at h
    obtain h | ⟨hne, h⟩ := Binding.lookup_insert_eq_some.mp h
    · exact .inl h
    · refine .inr ⟨hne, h, fun hB => ?_⟩
      obtain ⟨e', he'⟩ := hc.entry id f h
      rw [hB, hnone] at he'
      cases he'
  have hentry : ∀ B, (∃ e, c'.table.lookup B = some e) ↔
      B = cfg.getMshrAddr newMf.addr ∨ ∃ e, c.table.lookup B = some e := by
    intro B
    rw [htable, Binding.lookup_insert_eq_ite]
    split <;> simp [*]
  have hout : cfg.getMshrAddr newMf.addr ∉ c.currentResponse := by
    intro hm
    obtain ⟨e', he'⟩ := hc.arrived _ hm
    rw [hnone] at he'
    cases he'
  constructor
  · intro id f h
    obtain ⟨rfl, -⟩ | ⟨-, h, -⟩ := hfield id f h
    · exact hid
    · exact (hc.id_lt id f h).trans_le huid
  · intro id f h
    obtain ⟨-, rfl⟩ | ⟨-, h, -⟩ := hfield id f h
    · rfl
    · exact hc.blockAddr id f h
  · intro id f h
    rw [hentry]
    obtain ⟨-, rfl⟩ | ⟨-, h, -⟩ := hfield id f h
    · exact .inl rfl
    · exact .inr (hc.entry id f h)
  · intro id id' f f' h h' hB
    obtain ⟨rfl, rfl⟩ | ⟨-, h, hne⟩ := hfield id f h
    · obtain ⟨rfl, -⟩ | ⟨-, -, hne'⟩ := hfield id' f' h'
      · rfl
      · exact absurd hB.symm hne'
    · obtain ⟨-, rfl⟩ | ⟨-, h', -⟩ := hfield id' f' h'
      · exact absurd hB hne
      · exact hc.unique id id' f f' h h' hB
  · rw [hresp]
    exact hc.nodup
  · rw [hresp]
    exact fun B h => (hentry B).mpr (.inr (hc.arrived B h))
  · intro id f h
    rw [hresp]
    obtain ⟨-, rfl⟩ | ⟨-, h, -⟩ := hfield id f h
    · exact hout
    · exact hc.disjoint id f h
  · intro B e he
    rw [hresp, hextra]
    obtain rfl | ⟨e', he'⟩ := (hentry B).mp ⟨e, he⟩
    · exact .inr ⟨newMf.id, _, AList.lookup_insert _, rfl⟩
    · obtain h | ⟨id, f, hl, hB⟩ := hc.covered B e' he'
      · exact .inl h
      · refine .inr ⟨id, f, ?_, hB⟩
        have hne : id ≠ newMf.id := by
          rintro rfl
          rw [hfresh] at hl
          cases hl
        rw [AList.lookup_insert_ne hne, hl]

theorem Tracked.fill (hc : Tracked cfg c) {id : Nat} {f : ExtraMfFields}
    (h : Fills cfg c id f c') : Tracked cfg c' := by
  have hfield : ∀ id' f', c'.extraMfFields.lookup id' = some f' →
      id' ≠ id ∧ c.extraMfFields.lookup id' = some f' := by
    rw [h.extra]
    exact fun _ _ => Binding.lookup_erase_eq_some.mp
  constructor
  · intro id' f' hl
    rw [h.uid]
    exact hc.id_lt id' f' (hfield id' f' hl).2
  · intro id' f' hl
    exact hc.blockAddr id' f' (hfield id' f' hl).2
  · intro id' f' hl
    rw [h.table]
    exact hc.entry id' f' (hfield id' f' hl).2
  · intro id₁ id₂ f₁ f₂ h₁ h₂
    exact hc.unique id₁ id₂ f₁ f₂ (hfield id₁ f₁ h₁).2 (hfield id₂ f₂ h₂).2
  · rw [h.response]
    exact hc.nodup.append (List.nodup_singleton _)
      (List.disjoint_singleton.mpr (hc.disjoint id f h.field))
  · intro B hB
    rw [h.response] at hB
    rw [h.table]
    obtain hB | hB := List.mem_append.mp hB
    · exact hc.arrived B hB
    · rw [List.mem_singleton.mp hB]
      exact h.entry
  · intro id' f' hl hm
    obtain ⟨hne, hl⟩ := hfield id' f' hl
    rw [h.response] at hm
    obtain hm | hm := List.mem_append.mp hm
    · exact hc.disjoint id' f' hl hm
    · exact hne (hc.unique id' id f' f hl h.field (List.mem_singleton.mp hm))
  · intro B e he
    rw [h.table] at he
    rw [h.response, h.extra]
    obtain hB | ⟨id', f', hl, hB⟩ := hc.covered B e he
    · exact .inl (List.mem_append_left _ hB)
    · by_cases hid : id' = id
      · subst hid
        obtain rfl : f = f' := Option.some_inj.mp (h.field.symm.trans hl)
        exact .inl (List.mem_append_right _ (List.mem_singleton.mpr hB.symm))
      · exact .inr ⟨id', f', by rw [AList.lookup_erase_ne hid, hl], hB⟩

theorem Tracked.pop (hc : Tracked cfg c) {mf : MemFetch} {B : BitVec 64}
    {rest : List (BitVec 64)} {e : MshrEntry} (h : Pops c mf c' B rest e) : Tracked cfg c' := by
  by_cases hlast : e.list = []
  case neg =>
    -- the entry stays, with one request less
    have htable := h.table
    have hresp := h.response'
    rw [if_neg hlast] at htable hresp
    refine hc.of_eq (hresp.trans h.response.symm) (le_of_eq h.uid.symm) (fun B' => ?_) h.extra
    rw [htable, Binding.lookup_insert_eq_ite]
    split
    case isTrue heq =>
      rw [heq]
      exact ⟨fun _ => ⟨_, h.lookup⟩, fun _ => ⟨_, rfl⟩⟩
    case isFalse => rfl
  case pos =>
    have htable := h.table
    have hresp := h.response'
    rw [if_pos hlast] at htable hresp
    have hnodup := hc.nodup
    rw [h.response, List.nodup_cons] at hnodup
    have hB : B ∈ c.currentResponse := by rw [h.response]; exact List.mem_cons_self
    have hsub : ∀ B' ∈ rest, B' ∈ c.currentResponse ∧ B' ≠ B := fun B' hB' =>
      ⟨by rw [h.response]; exact List.mem_cons_of_mem _ hB', fun he => hnodup.1 (he ▸ hB')⟩
    constructor
    · rw [h.extra, h.uid]
      exact hc.id_lt
    · rw [h.extra]
      exact hc.blockAddr
    · rw [h.extra, htable]
      intro id f hl
      have hne : f.blockAddr ≠ B := by
        rintro rfl
        exact hc.disjoint id f hl hB
      rw [AList.lookup_erase_ne hne]
      exact hc.entry id f hl
    · rw [h.extra]
      exact hc.unique
    · rw [hresp]
      exact hnodup.2
    · rw [hresp, htable]
      intro B' hB'
      rw [AList.lookup_erase_ne (hsub B' hB').2]
      exact hc.arrived B' (hsub B' hB').1
    · rw [h.extra, hresp]
      exact fun id f hl hm => hc.disjoint id f hl (hsub _ hm).1
    · rw [h.extra, hresp, htable]
      intro B' e' he'
      obtain ⟨hne, he'⟩ := Binding.lookup_erase_eq_some.mp he'
      obtain hm | hf := hc.covered B' e' he'
      · rw [h.response] at hm
        exact .inl ((List.mem_cons.mp hm).resolve_left hne)
      · exact .inr hf

/-- The number of a new request, with the room the access makes for it. -/
theorem Serves.fresh (hc : Tracked cfg c) {mf newMf : MemFetch} {status : CacheRequestStatus}
    (hfresh : c.extraMfFields.lookup mf.id = none)
    (h : Serves { c with uid := max c.uid (mf.id + 1) } mf status c' newMf)
    (huid : max c.uid (mf.id + 1) ≤ c'.uid) :
    newMf.id < c'.uid ∧ c.extraMfFields.lookup newMf.id = none := by
  obtain rfl | ⟨hid, hlt⟩ := h.id
  · exact ⟨by omega, hfresh⟩
  · have heq : newMf.id = max c.uid (mf.id + 1) := hid
    refine ⟨by rw [heq]; exact hlt, ?_⟩
    cases hl : c.extraMfFields.lookup newMf.id with
    | none => rfl
    | some f =>
      have := hc.id_lt _ f hl
      omega

theorem Tracked.does (hc : Tracked cfg c) {op : CacheOp} {ev : List CacheTrace}
    (hfresh : c.Fresh op) (h : Does cfg c op c' ev) : Tracked cfg c' := by
  cases h with
  | stay => exact hc
  | send hq => exact hc.of_eq rfl (le_refl _) (fun _ => Iff.rfl) rfl
  | pop hpops => exact hc.pop hpops
  | fill hfills => exact hc.fill hfills
  | @access mf time status _ hout hframe =>
    have huid : c.uid ≤ c'.uid := (le_max_left _ _).trans hframe.uid
    cases hout with
    | idle lines table extra quiet =>
      exact hc.of_eq hframe.response huid (fun B => by rw [table]) extra
    | touched probe claimed found overwritten table extra quiet =>
      exact hc.of_eq hframe.response huid (fun B => by rw [table]) extra
    | awaits probe missed found fetched serves taken =>
      obtain ⟨hid, hnone⟩ := serves.fresh hc hfresh hframe.uid
      cases taken with
      | merged _ _ lookup room table extra =>
        refine hc.of_eq hframe.response huid (fun B => ?_) extra
        rw [table, Binding.lookup_insert_eq_ite]
        split
        case isTrue heq =>
          rw [heq]
          exact ⟨fun _ => ⟨_, lookup⟩, fun _ => ⟨_, rfl⟩⟩
        case isFalse => rfl
      | requested _ _ lookup room table extra sent =>
        exact hc.request hframe.response huid hid hnone lookup table extra

theorem Run.tracked {P : Cache → CacheOp → Prop} {tr : List CacheTrace}
    (h : Run kind cfg P c tr) : Tracked cfg c := by
  induction h with
  | start lines _ => exact tracked_initial cfg lines
  | step _ op _ fresh hs ih => exact ih.does fresh (step_cases hs)

end Cache

end NdpSim
