import NdpSim.Cache.Forward
import NdpSim.Timing.LdstUnit

/-!
# The L1 cache answers every request

A request is answered when the cache has its data, when memory has taken a write that was sent on,
or when memory has done an atomic. Some of the policies for a write that misses break this: with
`LAZY_FETCH_ON_READ` the write is answered only if it is sent on as well, and a block that is
fetched for a write comes back as a response to a load that does not exist.
-/
namespace NdpSim

open Library

namespace LdstUnit

/-! ## Requests and answers -/

def pushed (tr : List LdstEvent) : Multiset MemFetch :=
  (tr.filterMap fun | .pushed mf => some mf | _ => none : List MemFetch)

def answered (tr : List LdstEvent) : Multiset MemFetch :=
  (tr.filterMap fun | .answered mf => some mf | _ => none : List MemFetch)

/-- Nothing is left to do for the unit, the cache and the memory. -/
structure Drained (u : LdstUnit) : Prop where
  banks : u.queued = 0
  response : u.l1d.currentResponse = []
  missQueue : u.l1d.missQueue = []
  toTlb : u.toTlb = []
  outside : u.outside = []

/-- No request is answered twice or without need, none is forgotten, the pending writes are those
that are not answered, and no answer fails unless a register file has no room. -/
structure AnswersOnce (cfg : LdstConfig) (u : LdstUnit) (tr : List LdstEvent) : Prop where
  distinct : (pushed tr).Nodup
  once : answered tr ≤ pushed tr
  drained : u.Drained → answered tr = pushed tr
  writes : u.pendingWriteCount = (((pushed tr - answered tr).filter (·.isWrite)).card : Nat)
  handled : ∀ mf ∈ pushed tr - answered tr,
    (∀ subCoreId, u.loads.toRegFull cfg.toRegSize subCoreId = false) →
      ∃ r, u.handleResponse cfg mf = .ok r

/-- The cache takes the write if it misses. -/
def writeRoom (cfg : CacheConfig) (c : Cache) (mf : MemFetch) : Bool :=
  Cache.missRoom cfg c mf && !(cfg.writeAllocPolicy == .writeAllocate &&
    (c.missQueueFull cfg 2 || c.mshrFull cfg (cfg.getMshrAddr mf.addr)))

/-- The write hits or is refused, or its miss leaves it to memory or to the next attempt. -/
def WriteSettles (cfg : CacheConfig) (c : Cache) (mf : MemFetch) : Prop :=
  cfg.writeAllocPolicy = .noWriteAllocate ∨
  cfg.writeAllocPolicy = .lazyFetchOnRead ∧ cfg.writePolicy = .writeThrough ∨
  cfg.writeAllocPolicy = .fetchOnWrite ∧ Cache.writesWholeAtom cfg mf = true ∨
  writeRoom cfg c mf = false ∨
  ∃ p, cfg.probe c.lines (cfg.getBlockAddr mf.addr) (cfg.sectorOf mf) = .ok p ∧
    (p = .hit p.idx ∨ p = .reservationFail)

/-- What the unit may find at the head of a bank. -/
def Answerable (cfg : LdstConfig) (u : LdstUnit) : Op → Prop
  | .coreToL1 bank _ => ∀ mf, u.head? bank = some mf →
      (mf.isAtomic = true → u.tlbFull cfg = false) ∧
      (mf.isWrite = true → WriteSettles cfg.l1d u.l1d mf)
  | _ => True

variable {cfg : LdstConfig} {u u' : LdstUnit} {tr ev : List LdstEvent} {mf : MemFetch}

theorem mem_pushed : mf ∈ pushed tr ↔ .pushed mf ∈ tr := by
  simp only [pushed, Multiset.mem_coe, List.mem_filterMap]
  constructor
  · rintro ⟨e, he, heq⟩
    split at heq
    · obtain rfl := Option.some.inj heq
      exact he
    · cases heq
  · exact fun h => ⟨_, h, rfl⟩

theorem pushed_append : pushed (tr ++ ev) = pushed tr + pushed ev := by
  rw [pushed, List.filterMap_append]
  rfl

theorem answered_append : answered (tr ++ ev) = answered tr + answered ev := by
  rw [answered, List.filterMap_append]
  rfl

theorem pushed_eq_zero (h : ∀ mf, .pushed mf ∉ ev) : pushed ev = 0 :=
  Multiset.eq_zero_of_forall_notMem fun mf hmf => h mf (mem_pushed.mp hmf)

theorem pushed_map (mfs : List MemFetch) : pushed (mfs.map .pushed) = mfs := by
  rw [pushed, List.filterMap_map]
  exact congrArg _ (List.filterMap_some)

theorem answered_map_pushed (mfs : List MemFetch) : answered (mfs.map .pushed) = 0 := by
  rw [answered, List.filterMap_map]
  exact congrArg _ (List.filterMap_eq_nil_iff.mpr fun _ _ => rfl)

theorem writes_of_answer (n : Int) (mf : MemFetch) :
    (if mf.isWrite then n - 1 else n) =
      n - ((answered [.answered mf]).filter (·.isWrite)).card := by
  change _ = n - ((({mf} : Multiset MemFetch).filter (·.isWrite)).card : Int)
  cases hw : mf.isWrite <;> simp [Multiset.filter_singleton, hw]

theorem Numbered.nodup_pushed (h : Numbered cfg u tr) : (pushed tr).Nodup := by
  refine Multiset.nodup_iff_count_le_one.mpr fun mf => (le_of_eq ?_).trans (h.once mf)
  rw [pushed, Multiset.coe_count, List.count_filterMap]
  refine List.countP_congr fun e _ => ?_
  cases e <;> simp

/-! ## What becomes of a request that is given to the cache -/

/-- The cache keeps the request waiting at the head of its bank, has it answered, sends it on, or
makes it wait for its block. -/
inductive Given (cfg : LdstConfig) (c : Cache) (mf : MemFetch) (status : CacheRequestStatus)
    (events : List CacheEvent) (c' : Cache) : Prop
  | kept {back : List MemFetch} (refused : status = .reservationFail) (table : c'.table = c.table)
      (extra : c'.extraMfFields = c.extraMfFields) (queue : c'.missQueue = c.missQueue ++ back)
      (back : Cache.WriteBacks c.uid c'.uid back)
  | done (taken : status ≠ .reservationFail) (atOnce : AnswersAtOnce cfg mf status events)
      (table : c'.table = c.table) (extra : c'.extraMfFields = c.extraMfFields)
      (queue : c'.missQueue = c.missQueue)
  | sent (taken : status ≠ .reservationFail) (later : ¬ AnswersAtOnce cfg mf status events)
      (write : mf.isWrite = true) (table : c'.table = c.table)
      (extra : c'.extraMfFields = c.extraMfFields) (queue : c'.missQueue = c.missQueue ++ [mf])
  | waits {fetch back : List MemFetch} (taken : status ≠ .reservationFail)
      (later : ¬ AnswersAtOnce cfg mf status events) (read : mf.isWrite = false)
      (waiters : c'.waiters = mf ::ₘ c.waiters)
      (queue : c'.missQueue = c.missQueue ++ fetch ++ back)
      (keys : c'.extraMfFields.keys = fetch.map MemFetch.id ++ c.extraMfFields.keys)
      (fetch : ∀ q ∈ fetch, q.id = mf.id ∧ q.isWrite = false ∧ q.isAtomic = mf.isAtomic)
      (back : Cache.WriteBacks c.uid c'.uid back)

section Given

variable {c c' : Cache} {status : CacheRequestStatus} {events : List CacheEvent} {time : Nat}

theorem not_answersAtOnce_read (cfg : LdstConfig) (events : List CacheEvent)
    (hread : mf.isWrite = false) (hstatus : status = .miss) :
    ¬ AnswersAtOnce cfg mf status events := by
  simp [AnswersAtOnce, hread, hstatus]

/-- A write that misses and is taken is one that settles. -/
theorem WriteSettles.policy {p : Probe} (h : WriteSettles cfg.l1d c mf)
    (hp : cfg.l1d.probe c.lines (cfg.l1d.getBlockAddr mf.addr) (cfg.l1d.sectorOf mf) = .ok p)
    (hmissed : p ≠ .hit p.idx) (hfound : p ≠ .reservationFail)
    (hroom : writeRoom cfg.l1d c mf = true) :
    cfg.l1d.writeAllocPolicy = .noWriteAllocate ∨
    cfg.l1d.writeAllocPolicy = .lazyFetchOnRead ∧ cfg.l1d.writePolicy = .writeThrough ∨
    cfg.l1d.writeAllocPolicy = .fetchOnWrite ∧ Cache.writesWholeAtom cfg.l1d mf = true := by
  obtain h | h | h | h | ⟨q, hq, h⟩ := h
  · exact .inl h
  · exact .inr (.inl h)
  · exact .inr (.inr h)
  · simp [hroom] at h
  · obtain rfl : q = p := Except.ok.inj (hq.symm.trans hp)
    exact (h.elim hmissed hfound).elim

theorem given_of_effect (h : Cache.Effect .data cfg.l1d c mf time status events c')
    (haccess : c.access .data cfg.l1d mf time = .ok (status, events, c'))
    (hsettles : mf.isWrite = true → WriteSettles cfg.l1d c mf)
    (hfresh : mf.id ∉ c.extraMfFields.keys) : Given cfg c mf status events c' := by
  cases h with
  | refused =>
    exact .kept rfl rfl rfl (List.append_nil _).symm (.nil _ _)
  | forwarded tells write policy =>
    refine .sent (by simp) ?_ write rfl rfl rfl
    simp [AnswersAtOnce, policy]
  | hit tells =>
    by_cases hforward : Cache.forwardsHit cfg.l1d mf = true
    · have hwrite : mf.isWrite = true := by
        simp only [Cache.forwardsHit, Bool.and_eq_true] at hforward
        exact hforward.1
      refine .sent (by simp) ?_ hwrite rfl rfl (by simp [hforward])
      simp [AnswersAtOnce, tells.write, hforward]
    · refine .done (by simp) (.inl ⟨rfl, ?_⟩) rfl rfl (by simp [hforward])
      rw [tells.write]
      exact hforward
  | @overwritten _ p _ evicted tells tag missed found whole room =>
    simp only [Cache.overwrites, Bool.and_eq_true, Bool.or_eq_true, beq_iff_eq] at whole
    obtain ⟨hwrite, hlazy | ⟨hfow, -⟩⟩ := whole
    · have hroom : writeRoom cfg.l1d c mf = true := by simp [writeRoom, room, hlazy]
      obtain h | ⟨-, hthrough⟩ | ⟨h, -⟩ := (hsettles hwrite).policy
        (CacheConfig.probe_of_tagAccess tag) missed found hroom
      · simp [hlazy] at h
      · have hstatus : Cache.missStatus cfg.l1d mf = .miss := by simp [Cache.missStatus, hlazy]
        refine .sent (by simp [hstatus]) ?_ hwrite rfl rfl ?_
        · simp [AnswersAtOnce, hstatus, hthrough]
        · simp [Cache.forwardsMiss, hwrite, hlazy, hthrough, Cache.evictedPackets]
      · simp [hlazy] at h
    · refine .kept (by simp [Cache.missStatus, hwrite, hfow]) rfl rfl ?_
        (Cache.writeBacks_evictedPackets .data cfg.l1d c.uid evicted)
      simp [Cache.forwardsMiss, hfow]
  | @awaited _ p _ evicted _ _ _ _ _ tells tag missed found fetched room rewrites joins uids =>
    by_cases hwrite : mf.isWrite = true
    · -- a write that fetches its block does not settle
      have hpolicy : cfg.l1d.writeAllocPolicy = .writeAllocate ∨
          cfg.l1d.writeAllocPolicy = .fetchOnWrite ∧ Cache.writesWholeAtom cfg.l1d mf = false := by
        simpa [Cache.fetches, hwrite] using fetched
      have hprobe := CacheConfig.probe_of_tagAccess tag
      have hroom : writeRoom cfg.l1d c mf = true := by
        obtain hpol | ⟨hpol, -⟩ := hpolicy
        · cases hfull : (c.missQueueFull cfg.l1d 2 ||
              c.mshrFull cfg.l1d (cfg.l1d.getMshrAddr mf.addr)) with
          | false => simp [writeRoom, room, hfull]
          | true =>
            have hmiss := Cache.refused_of_full hwrite hpol hfull (fun i hi => ?_) haccess
            · simp [Cache.missStatus, hpol] at hmiss
            · obtain rfl : p = .hit i := Except.ok.inj (hprobe.symm.trans hi)
              exact missed rfl
        · simp [writeRoom, room, hpol]
      obtain h | ⟨h, -⟩ | ⟨h, hwhole⟩ := (hsettles hwrite).policy hprobe missed found hroom
      · simp [h] at hpolicy
      · simp [h] at hpolicy
      · simp [h, hwhole] at hpolicy
    · have hread : mf.isWrite = false := by simpa using hwrite
      have hstatus : Cache.missStatus cfg.l1d mf = .miss := by simp [Cache.missStatus, hread]
      have hno : Cache.forwardsMiss cfg.l1d mf = false := by simp [Cache.forwardsMiss, hread]
      have hwaiters := Cache.waiters_read hread haccess
      rw [if_pos hstatus] at hwaiters
      rw [if_neg hwrite] at uids
      rw [Cache.waiter, if_neg hwrite] at joins
      subst uids
      simp only [hno, Bool.false_eq_true, if_false, List.append_nil] at hwaiters ⊢
      have hback := Cache.writeBacks_evictedPackets .data cfg.l1d c.uid evicted
      have htaken : Cache.missStatus cfg.l1d mf ≠ .reservationFail := by simp [hstatus]
      have hlater := not_answersAtOnce_read cfg events hread hstatus
      refine .waits htaken hlater hread hwaiters rfl
        (Cache.keys_of_joins joins hfresh) (fun q hq => ?_) hback
      cases joins with
      | merged => cases hq
      | requested =>
        rw [List.mem_singleton.mp hq]
        exact ⟨rfl, hread, rfl⟩

end Given

/-! ## Where the requests are -/

/-- What is on its way to memory and back. -/
def transit (u : LdstUnit) : Multiset MemFetch :=
  u.l1d.missQueue + (u.toTlb + (u.outside : Multiset MemFetch))

/-- Memory answers the request itself. -/
def answeredByMemory (mf : MemFetch) : Bool := mf.isAtomic || mf.isWrite && mf.fromNdp

/-- The read of a block. -/
def fetchesBlock (mf : MemFetch) : Bool := !mf.isAtomic && !mf.isWrite

/-- The requests that are not answered. -/
def held (u : LdstUnit) : Multiset MemFetch :=
  u.queued + u.l1d.waiters + u.transit.filter fun mf => answeredByMemory mf

structure AnswerInv (cfg : LdstConfig) (u : LdstUnit) (tr : List LdstEvent) : Prop where
  tracked : Cache.Tracked cfg.l1d u.l1d
  balance : pushed tr = answered tr + u.held
  fromNdp : ∀ mf ∈ pushed tr, mf.fromNdp = true
  fetches : ((u.transit.filter fun mf => fetchesBlock mf).map MemFetch.id) =
    u.l1d.extraMfFields.keys
  asked : ∀ id ∈ u.l1d.extraMfFields.keys, ∃ mf ∈ pushed tr,
    mf.id = id ∧ mf.isWrite = false ∧ mf ∉ u.queued
  back : ∀ q ∈ u.transit, q.isWrite = true → q.fromNdp = false →
    q.id < u.l1d.uid ∧ ∀ mf ∈ pushed tr, mf.id ≠ q.id
  writes : u.pendingWriteCount =
    ((pushed tr).filter (·.isWrite)).card - ((answered tr).filter (·.isWrite)).card

theorem answerInv_create (lines : Lines) : AnswerInv cfg (create cfg lines) [] := by
  have hqueued : (create cfg lines).queued = 0 := by
    simp [queued, create, List.map_replicate, List.sum_replicate]
  have htransit : (create cfg lines).transit = 0 := rfl
  refine ⟨Cache.tracked_initial cfg.l1d lines, ?_, by simp [pushed], ?_, ?_, ?_, ?_⟩
  · rw [held, hqueued, htransit]
    rfl
  · rw [htransit]
    rfl
  · intro id hid
    cases hid
  · rw [htransit]
    simp
  · rfl

/-- A step that brings no request. -/
theorem AnswerInv.move (h : AnswerInv cfg u tr) (hnum : Numbered cfg u tr)
    (hquiet : ∀ mf, .pushed mf ∉ ev)
    (htracked : Cache.Tracked cfg.l1d u'.l1d) (hheld : u.held = answered ev + u'.held)
    (hfetches : ((u'.transit.filter fun mf => fetchesBlock mf).map MemFetch.id) =
      u'.l1d.extraMfFields.keys)
    (hqueued : u'.queued ≤ u.queued)
    (hasked : ∀ id ∈ u'.l1d.extraMfFields.keys, id ∈ u.l1d.extraMfFields.keys ∨
      ∃ mf ∈ pushed tr, mf.id = id ∧ mf.isWrite = false ∧ mf ∉ u'.queued)
    (hback : ∀ q ∈ u'.transit, q.isWrite = true → q.fromNdp = false →
      q ∈ u.transit ∨ u.l1d.uid ≤ q.id ∧ q.id < u'.l1d.uid)
    (huid : u.l1d.uid ≤ u'.l1d.uid)
    (hwrites : u'.pendingWriteCount =
      u.pendingWriteCount - ((answered ev).filter (·.isWrite)).card) :
    AnswerInv cfg u' (tr ++ ev) := by
  have hpushed : pushed (tr ++ ev) = pushed tr := by
    rw [pushed_append, pushed_eq_zero hquiet, add_zero]
  refine ⟨htracked, ?_, ?_, hfetches, ?_, ?_, ?_⟩
  · rw [hpushed, answered_append, h.balance, hheld, add_assoc]
  · rw [hpushed]
    exact h.fromNdp
  · rw [hpushed]
    intro id hid
    obtain hid | hnew := hasked id hid
    · obtain ⟨mf, hmf, heq, hread, hout⟩ := h.asked id hid
      exact ⟨mf, hmf, heq, hread, fun hq => hout (Multiset.mem_of_le hqueued hq)⟩
    · exact hnew
  · rw [hpushed]
    intro q hq hwrite hcache
    obtain hold | ⟨hle, hlt⟩ := hback q hq hwrite hcache
    · obtain ⟨hlt, hne⟩ := h.back q hold hwrite hcache
      exact ⟨hlt.trans_le huid, hne⟩
    · refine ⟨hlt, fun mf hmf => ?_⟩
      have := hnum.id_lt mf (mem_pushed.mp hmf)
      omega
  · rw [hpushed, answered_append, Multiset.filter_add, Multiset.card_add, hwrites, h.writes]
    push_cast
    ring

/-- Nothing comes from memory: requests of the unit, reads of blocks and write-backs leave for
it. -/
theorem AnswerInv.send (h : AnswerInv cfg u tr) (hnum : Numbered cfg u tr)
    (own fetch back : List MemFetch) (hquiet : ∀ mf, .pushed mf ∉ ev)
    (htracked : Cache.Tracked cfg.l1d u'.l1d)
    (htransit : u'.transit = u.transit + own + fetch + back)
    (hown : ∀ q ∈ own, answeredByMemory q = true ∧ (q.isWrite = true → q.fromNdp = true))
    (hfetch : ∀ q ∈ fetch, fetchesBlock q = true)
    (hback : Cache.WriteBacks u.l1d.uid u'.l1d.uid back) (huid : u.l1d.uid ≤ u'.l1d.uid)
    (hkeys : u'.l1d.extraMfFields.keys = fetch.map MemFetch.id ++ u.l1d.extraMfFields.keys)
    (hasked : ∀ q ∈ fetch, ∃ mf ∈ pushed tr,
      mf.id = q.id ∧ mf.isWrite = false ∧ mf ∉ u'.queued)
    (hqueued : u'.queued ≤ u.queued)
    (hheld : u.queued + u.l1d.waiters = answered ev + (u'.queued + u'.l1d.waiters + own))
    (hwrites : u'.pendingWriteCount =
      u.pendingWriteCount - ((answered ev).filter (·.isWrite)).card) :
    AnswerInv cfg u' (tr ++ ev) := by
  have hown' : (own : Multiset MemFetch).filter (fun mf => fetchesBlock mf) = 0 := by
    refine Multiset.filter_eq_nil.mpr fun q hq => ?_
    have hmem := hown q (Multiset.mem_coe.mp hq)
    simp only [answeredByMemory, fetchesBlock] at hmem ⊢
    grind
  have hfetch' : (fetch : Multiset MemFetch).filter (fun mf => answeredByMemory mf) = 0 := by
    refine Multiset.filter_eq_nil.mpr fun q hq => ?_
    have hmem := hfetch q (Multiset.mem_coe.mp hq)
    simp only [answeredByMemory, fetchesBlock] at hmem ⊢
    grind
  have hback' : (back : Multiset MemFetch).filter (fun mf => answeredByMemory mf) = 0 ∧
      (back : Multiset MemFetch).filter (fun mf => fetchesBlock mf) = 0 := by
    refine ⟨Multiset.filter_eq_nil.mpr fun q hq => ?_, Multiset.filter_eq_nil.mpr fun q hq => ?_⟩
    · simp [answeredByMemory, hback.isAtomic q hq, hback.fromNdp q hq]
    · simp [fetchesBlock, hback.isWrite q hq]
  refine h.move hnum hquiet htracked ?_ ?_ hqueued (fun id hid => ?_) (fun q hq hw hc => ?_) huid
    hwrites
  · have hall : (own : Multiset MemFetch).filter (fun mf => answeredByMemory mf) = own :=
      Multiset.filter_eq_self.mpr fun q hq => (hown q (Multiset.mem_coe.mp hq)).1
    rw [held, held, hheld, htransit, Multiset.filter_add, Multiset.filter_add, Multiset.filter_add,
      hall, hfetch', hback'.1]
    abel
  · have hall : (fetch : Multiset MemFetch).filter (fun mf => fetchesBlock mf) = fetch :=
      Multiset.filter_eq_self.mpr fun q hq => hfetch q (Multiset.mem_coe.mp hq)
    rw [htransit, Multiset.filter_add, Multiset.filter_add, Multiset.filter_add, hown', hall,
      hback'.2, add_zero, add_zero, Multiset.map_add, h.fetches, hkeys, add_comm,
      Multiset.map_coe, Multiset.coe_add]
  · rw [hkeys] at hid
    obtain hid | hid := List.mem_append.mp hid
    · obtain ⟨q, hq, rfl⟩ := List.mem_map.mp hid
      exact .inr (hasked q hq)
    · exact .inl hid
  · rw [htransit] at hq
    obtain hq | hq := Multiset.mem_add.mp hq
    · obtain hq | hq := Multiset.mem_add.mp hq
      · obtain hq | hq := Multiset.mem_add.mp hq
        · exact .inl hq
        · have hmem := (hown q (Multiset.mem_coe.mp hq)).2 hw
          simp [hc] at hmem
      · have hmem := hfetch q (Multiset.mem_coe.mp hq)
        simp [fetchesBlock, hw] at hmem
    · exact .inr ⟨hback.le_id q hq, hback.id_lt q hq⟩

/-- Requests change places between the cache and memory. -/
theorem AnswerInv.shift (h : AnswerInv cfg u tr) (hnum : Numbered cfg u tr)
    (hquiet : ∀ mf, .pushed mf ∉ ev) (hsilent : answered ev = 0)
    (htracked : Cache.Tracked cfg.l1d u'.l1d) (htransit : u'.transit = u.transit)
    (huid : u.l1d.uid ≤ u'.l1d.uid) (hkeys : u'.l1d.extraMfFields.keys = u.l1d.extraMfFields.keys)
    (hqueued : u'.queued = u.queued) (hwaiters : u'.l1d.waiters = u.l1d.waiters)
    (hwrites : u'.pendingWriteCount = u.pendingWriteCount) : AnswerInv cfg u' (tr ++ ev) := by
  refine h.send hnum [] [] [] hquiet htracked (by simp [htransit]) (by simp)
    (by simp) (.nil _ _) huid hkeys (by simp) hqueued.le ?_ ?_
  · rw [hqueued, hwaiters, hsilent]
    simp
  · rw [hwrites, hsilent]
    simp

theorem AnswerInv.inst (h : AnswerInv cfg u tr) (hnum : Numbered cfg u tr) {inst : NdpInstruction}
    {addrs : List (BitVec 64)} {context : LdstContext}
    (hs : u.processLdstInst cfg inst addrs context = .ok (u', ev)) :
    AnswerInv cfg u' (tr ++ ev) := by
  obtain ⟨rfl, rfl⟩ | ⟨delay, loads, finished, rfl, rfl⟩ := processLdstInst_cases hs
  · simpa using h
  set mfs := u.requestsOf cfg inst addrs with hmfs
  have hqueued := queued_enqueue delay mfs hnum.banks
  have hpushed : pushed (tr ++ mfs.map .pushed) = pushed tr + mfs := by
    rw [pushed_append, pushed_map]
  have hanswered : answered (tr ++ mfs.map .pushed) = answered tr := by
    rw [answered_append, answered_map_pushed, add_zero]
  have hnew : ∀ mf ∈ mfs, mf.fromNdp = true ∧ mf.isWrite = !inst.opcode.checkLoadOp := by
    intro mf hmf
    obtain ⟨i, hi, rfl⟩ := List.mem_mapIdx.mp hmf
    exact ⟨rfl, rfl⟩
  constructor
  case tracked =>
    exact h.tracked.of_eq rfl (Nat.le_add_right _ _) (fun _ => Iff.rfl) rfl
  case balance =>
    rw [hpushed, hanswered, h.balance]
    change _ = answered tr + ((u.enqueue cfg delay mfs).queued + u.l1d.waiters + _)
    rw [hqueued]
    change _ = answered tr + (_ + u.l1d.waiters + u.transit.filter _)
    rw [held]
    abel
  case fromNdp =>
    rw [hpushed]
    intro mf hmf
    obtain hmf | hmf := Multiset.mem_add.mp hmf
    · exact h.fromNdp mf hmf
    · exact (hnew mf (Multiset.mem_coe.mp hmf)).1
  case fetches => exact h.fetches
  case asked =>
    intro id hid
    obtain ⟨mf, hmf, heq, hread, hout⟩ := h.asked id hid
    refine ⟨mf, by rw [hpushed]; exact Multiset.mem_add.mpr (.inl hmf), heq, hread, ?_⟩
    change mf ∉ (u.enqueue cfg delay mfs).queued
    rw [hqueued]
    intro hmem
    obtain hmem | hmem := Multiset.mem_add.mp hmem
    · have hlt := hnum.id_lt mf (mem_pushed.mp hmf)
      have hle := (mem_requestsOf (Multiset.mem_coe.mp hmem)).1
      omega
    · exact hout hmem
  case back =>
    intro q hq hwrite hcache
    obtain ⟨hlt, hne⟩ := h.back q hq hwrite hcache
    refine ⟨hlt.trans_le (Nat.le_add_right _ _), fun mf hmf => ?_⟩
    rw [hpushed] at hmf
    obtain hmf | hmf := Multiset.mem_add.mp hmf
    · exact hne mf hmf
    · have hle := (mem_requestsOf (Multiset.mem_coe.mp hmf)).1
      omega
  case writes =>
    rw [hpushed, hanswered, Multiset.filter_add, Multiset.card_add]
    change (if inst.opcode.checkLoadOp then u.pendingWriteCount
      else u.pendingWriteCount + addrs.length) = _
    rw [h.writes]
    cases hload : inst.opcode.checkLoadOp with
    | true =>
      have hnone : (mfs : Multiset MemFetch).filter (·.isWrite) = 0 := by
        refine Multiset.filter_eq_nil.mpr fun mf hmf => ?_
        simp [(hnew mf (Multiset.mem_coe.mp hmf)).2, hload]
      simp [hnone]
    | false =>
      have hall : (mfs : Multiset MemFetch).filter (·.isWrite) = mfs := by
        refine Multiset.filter_eq_self.mpr fun mf hmf => ?_
        simp [(hnew mf (Multiset.mem_coe.mp hmf)).2, hload]
      have hlength : mfs.length = addrs.length := by simp [hmfs, requestsOf, packetRequests]
      simp [hall, hlength]
      ring

theorem Numbered.mem_pushed_of_queued (h : AnswerInv cfg u tr) (hmf : mf ∈ u.queued) :
    mf ∈ pushed tr := by
  rw [h.balance, held]
  simp [hmf]

/-- A request at the head of its bank has no read under way. -/
theorem AnswerInv.fresh (h : AnswerInv cfg u tr) (hnum : Numbered cfg u tr)
    (hmf : mf ∈ u.queued) : mf.id ∉ u.l1d.extraMfFields.keys := by
  intro hid
  obtain ⟨mf', hmf', heq, -, hout⟩ := h.asked _ hid
  have hpushed := Numbered.mem_pushed_of_queued h hmf
  obtain rfl := hnum.unique mf' mf (mem_pushed.mp hmf') (mem_pushed.mp hpushed) heq
  exact hout hmf

/-- The head of a bank occurs once. -/
theorem AnswerInv.notMem_of_cons (h : AnswerInv cfg u tr) (hnum : Numbered cfg u tr)
    {rest : Multiset MemFetch} (hqueued : u.queued = mf ::ₘ rest) : mf ∉ rest := by
  have hnodup := hnum.nodup_pushed
  rw [h.balance, held, hqueued] at hnodup
  have hcons : (mf ::ₘ rest).Nodup := by
    refine Multiset.nodup_of_le ?_ hnodup
    exact (Multiset.le_add_right _ _).trans
      ((Multiset.le_add_right _ _).trans (Multiset.le_add_left _ _))
  exact (Multiset.nodup_cons.mp hcons).1

theorem AnswerInv.given (h : AnswerInv cfg u tr) (hnum : Numbered cfg u tr) {bank : Nat}
    (hhead : u.head? bank = some mf) (hatomic : mf.isAtomic = false) {l1d : Cache}
    {status : CacheRequestStatus} {events : List CacheEvent} {shown : List LdstEvent}
    (hgiven : Given cfg u.l1d mf status events l1d) (htracked : Cache.Tracked cfg.l1d l1d)
    (huid : u.l1d.uid ≤ l1d.uid)
    (hafter : afterAccess cfg { u with l1d := l1d } bank mf status events = .ok (u', shown)) :
    AnswerInv cfg u' (tr ++ .accessed mf :: shown) := by
  have hpop := queued_popBank hhead
  have hle : (u.popBank bank).queued ≤ u.queued := by
    rw [hpop]
    exact Multiset.le_cons_self _ _
  have hmem : mf ∈ pushed tr := Numbered.mem_pushed_of_queued h (by rw [hpop]; simp)
  have htransit (sent : List MemFetch) (hqueue : l1d.missQueue = u.l1d.missQueue ++ sent) :
      transit { u with l1d := l1d } = u.transit + sent := by
    simp only [transit, hqueue, ← Multiset.coe_add]
    abel
  have hsame (htable : l1d.table = u.l1d.table) : l1d.waiters = u.l1d.waiters :=
    Cache.waiters_congr htable
  obtain ⟨hstatus, rfl, rfl⟩ | ⟨hstatus, hnow, hresp⟩ | ⟨hstatus, hlater, rfl, rfl⟩ :=
    afterAccess_cases hafter
  · cases hgiven with
    | @kept back refused table extra queue hback =>
      refine h.send hnum [] [] back (by simp) htracked
        ((htransit _ queue).trans (by simp)) (by simp) (by simp) hback huid
        (by rw [extra]; rfl) (by simp) le_rfl ?_ (by simp [answered])
      change _ = _ + (u.queued + l1d.waiters + _)
      rw [hsame table]
      simp [answered]
    | done taken => exact absurd hstatus taken
    | sent taken => exact absurd hstatus taken
    | waits taken => exact absurd hstatus taken
  · obtain ⟨loads, finished, rfl, rfl⟩ := handleResponse_cases hresp
    cases hgiven with
    | kept refused => exact absurd refused hstatus
    | done taken atOnce table extra queue =>
      refine h.send hnum [] [] [] (by simp) htracked
        ((htransit [] (queue.trans (List.append_nil _).symm)).trans (by simp))
        (by simp) (by simp) (.nil _ _) huid (by rw [← extra]; rfl) (by simp) hle ?_ ?_
      · change _ = _ + ((u.popBank bank).queued + l1d.waiters + _)
        rw [hsame table, hpop]
        simp [answered]
      · exact writes_of_answer u.pendingWriteCount mf
    | sent taken later => exact absurd hnow later
    | waits taken later => exact absurd hnow later
  · have hwrites : (u.pendingWriteCount : Int) =
        u.pendingWriteCount - ((answered [.accessed mf]).filter (·.isWrite)).card := by
      simp [answered]
    cases hgiven with
    | kept refused => exact absurd refused hstatus
    | done taken atOnce => exact absurd atOnce hlater
    | sent taken later write table extra queue =>
      refine h.send hnum [mf] [] [] (by simp) htracked
        ((htransit _ queue).trans (by simp)) ?_ (by simp) (.nil _ _) huid
        (by rw [← extra]; rfl) (by simp) hle ?_ hwrites
      · simp [answeredByMemory, write, h.fromNdp mf hmem]
      · change _ = _ + ((u.popBank bank).queued + l1d.waiters + _)
        rw [hsame table, hpop]
        simp [answered, add_comm, Multiset.singleton_add]
    | @waits fetch back taken later read waiters queue keys hfetch hback =>
      rw [List.append_assoc] at queue
      refine h.send hnum [] fetch back (by simp) htracked
        ((htransit _ queue).trans (by simp [← Multiset.coe_add, add_assoc]))
        (by simp) (fun q hq => ?_) hback huid keys (fun q hq => ?_) hle ?_ hwrites
      · obtain ⟨-, hread, hna⟩ := hfetch q hq
        simp [fetchesBlock, hread, hna, hatomic]
      · exact ⟨mf, hmem, (hfetch q hq).1.symm, read, h.notMem_of_cons hnum hpop⟩
      · change _ = _ + ((u.popBank bank).queued + l1d.waiters + _)
        rw [waiters, hpop]
        simp [answered]

theorem AnswerInv.coreToL1 (h : AnswerInv cfg u tr) (hnum : Numbered cfg u tr) {bank time : Nat}
    (hok : Answerable cfg u (.coreToL1 bank time))
    (hs : u.coreToL1 cfg bank time = .ok (u', ev)) : AnswerInv cfg u' (tr ++ ev) := by
  obtain ⟨-, rfl, rfl⟩ | ⟨mf, hhead, ⟨hatomic, -, rfl, rfl⟩ | ⟨hfull, status, events, l1d, shown,
    haccess, hafter, rfl⟩⟩ := coreToL1_cases hs
  · simpa using h
  · have hpop := queued_popBank hhead
    refine h.send hnum [mf] [] [] (by simp) h.tracked ?_ ?_ (by simp) (.nil _ _) le_rfl rfl
      (by simp) ?_ ?_ (by simp [answered, popBank])
    · simp only [transit, popBank, ← Multiset.coe_add]
      simp only [Multiset.coe_nil, add_zero]
      abel
    · intro q hq
      rw [List.mem_singleton.mp hq]
      refine ⟨by simp [answeredByMemory, hatomic], fun _ => h.fromNdp mf ?_⟩
      exact Numbered.mem_pushed_of_queued h (by rw [hpop]; simp)
    · change (u.popBank bank).queued ≤ _
      rw [hpop]
      exact Multiset.le_cons_self _ _
    · change _ = _ + ((u.popBank bank).queued + u.l1d.waiters + _)
      rw [hpop]
      simp [answered, add_comm, Multiset.singleton_add]
  · obtain ⟨hopen, hsettles⟩ := hok mf hhead
    have hatomic : mf.isAtomic = false := by
      refine Bool.eq_false_iff.mpr fun hatomic => ?_
      have hroom := hopen hatomic
      simp [hfull hatomic] at hroom
    have hqueued : mf ∈ u.queued := by
      rw [queued_popBank hhead]
      exact Multiset.mem_cons_self _ _
    have hid : mf.id < u.l1d.uid :=
      hnum.id_lt mf (mem_pushed.mp (Numbered.mem_pushed_of_queued h hqueued))
    have hfresh := h.fresh hnum hqueued
    have heffect := Cache.effect_access haccess
    have htracked := h.tracked.access hid (AList.lookup_eq_none.mpr hfresh) haccess
    exact h.given hnum hhead hatomic (given_of_effect heffect haccess hsettles hfresh) htracked
      heffect.frame.uid hafter

theorem AnswerInv.l1ToCore (h : AnswerInv cfg u tr) (hnum : Numbered cfg u tr)
    (hs : u.l1ToCore cfg = .ok (u', ev)) : AnswerInv cfg u' (tr ++ ev) := by
  simp only [LdstUnit.l1ToCore] at hs
  split at hs
  case isFalse =>
    obtain ⟨rfl, rfl⟩ := Prod.mk.inj (Except.ok.inj hs)
    simpa using h
  case isTrue =>
    obtain ⟨⟨mf, l1d⟩, hpop, hs⟩ := bind_eq_ok.mp hs
    obtain ⟨B, rest, e, hpops⟩ := Cache.popNextAccess_cases hpop
    obtain ⟨loads, finished, rfl, rfl⟩ := handleResponse_cases hs
    refine h.send hnum [] [] [] (by simp) (h.tracked.pop hpops) ?_ (by simp) (by simp) (.nil _ _)
      hpops.uid.ge (by rw [← hpops.extra]; rfl) (by simp) le_rfl ?_ (writes_of_answer _ mf)
    · simp [transit, hpops.queue]
    · change _ = {mf} + (u.queued + l1d.waiters + _)
      rw [hpops.waiters]
      simp only [Multiset.coe_nil, add_zero, ← Multiset.singleton_add]
      abel

/-- A request comes back from memory. -/
theorem AnswerInv.receive (h : AnswerInv cfg u tr) (hnum : Numbered cfg u tr)
    (hquiet : ∀ mf, .pushed mf ∉ ev) (htracked : Cache.Tracked cfg.l1d u'.l1d)
    (htransit : u.transit = mf ::ₘ u'.transit) (huid : u'.l1d.uid = u.l1d.uid)
    (hqueued : u'.queued = u.queued) (hwaiters : u'.l1d.waiters = u.l1d.waiters)
    (hanswered : answered ev = if answeredByMemory mf then {mf} else 0)
    (hkeys : u'.l1d.extraMfFields.keys = if fetchesBlock mf then
      u.l1d.extraMfFields.keys.erase mf.id else u.l1d.extraMfFields.keys)
    (hwrites : u'.pendingWriteCount =
      u.pendingWriteCount - ((answered ev).filter (·.isWrite)).card) :
    AnswerInv cfg u' (tr ++ ev) := by
  refine h.move hnum hquiet htracked ?_ ?_ hqueued.le (fun id hid => ?_) (fun q hq _ _ => ?_)
    huid.ge hwrites
  · rw [held, held, hqueued, hwaiters, htransit, Multiset.filter_cons, hanswered]
    abel
  · have hfetches := h.fetches
    rw [htransit, Multiset.filter_cons, Multiset.map_add] at hfetches
    rw [hkeys]
    split
    case isTrue hfetch =>
      rw [if_pos hfetch, Multiset.map_singleton, Multiset.singleton_add] at hfetches
      rw [← Multiset.coe_erase, ← hfetches, Multiset.erase_cons_head]
    case isFalse hother =>
      rw [if_neg hother, Multiset.map_zero, zero_add] at hfetches
      exact hfetches
  · rw [hkeys] at hid
    split at hid
    · exact .inl (List.mem_of_mem_erase hid)
    · exact .inl hid
  · rw [htransit]
    exact .inl (Multiset.mem_cons_of_mem hq)

theorem AnswerInv.fromMem (h : AnswerInv cfg u tr) (hnum : Numbered cfg u tr) {time : Nat}
    (hoff : mf ∈ u.outside)
    (hs : handleFromMem cfg { u with outside := u.outside.erase mf } mf time = .ok (u', ev)) :
    AnswerInv cfg u' (tr ++ ev) := by
  have htransit : u.transit = mf ::ₘ transit { u with outside := u.outside.erase mf } := by
    have hperm : (u.outside : Multiset MemFetch) = mf ::ₘ (u.outside.erase mf : List MemFetch) :=
      Multiset.coe_eq_coe.mpr (List.perm_cons_erase hoff)
    rw [transit, hperm, Multiset.add_cons, Multiset.add_cons]
    rfl
  have hmem : mf ∈ u.transit := by
    rw [htransit]
    exact Multiset.mem_cons_self _ _
  have hwaiting : waitingForFill { u with outside := u.outside.erase mf } mf = true ↔
      mf.id ∈ u.l1d.extraMfFields.keys := by
    rw [waitingForFill, AList.lookup_isSome, AList.mem_keys]
  obtain ⟨hatomic, hwait, ⟨l1d, hfill, rfl⟩, rfl⟩ | ⟨hatomic, -, hwrite, hcache, rfl, rfl⟩ |
    ⟨hcond, hresp⟩ := handleFromMem_cases hs
  · obtain ⟨f, hfills⟩ := Cache.fill_cases hfill
    have hread : mf.isWrite = false := by
      -- a write does not have the number of a read
      refine Bool.eq_false_iff.mpr fun hwrite => ?_
      obtain ⟨mf', hmf', hid, hread, -⟩ := h.asked _ (hwaiting.mp hwait)
      cases hndp : mf.fromNdp with
      | true =>
        have hpushed : mf ∈ pushed tr := by
          rw [h.balance, held]
          simp [hmem, answeredByMemory, hwrite, hndp]
        obtain rfl := hnum.unique mf' mf (mem_pushed.mp hmf') (mem_pushed.mp hpushed) hid
        simp [hwrite] at hread
      | false => exact (h.back mf hmem hwrite hndp).2 mf' hmf' hid
    have htransit' : u.transit =
        mf ::ₘ transit { u with l1d := l1d, outside := u.outside.erase mf } := by
      rw [htransit, transit, transit, hfills.queue]
    refine h.receive hnum (by simp) (h.tracked.fill hfills) htransit' hfills.uid rfl
      (Cache.waiters_fill hfill) ?_ ?_ (by simp [answered])
    · simp [answeredByMemory, hatomic, hread, answered]
    · rw [if_pos (by simp [fetchesBlock, hatomic, hread])]
      exact (congrArg AList.keys hfills.extra).trans (AList.keys_erase _ _)
  · refine h.receive hnum (by simp) h.tracked htransit rfl rfl rfl ?_ ?_ (by simp [answered])
    · simp [answeredByMemory, hatomic, hcache, answered]
    · simp [fetchesBlock, hwrite]
  · have hown : answeredByMemory mf = true := by
      by_cases hatomic : mf.isAtomic = true
      · simp [answeredByMemory, hatomic]
      have hatomic : mf.isAtomic = false := by simpa using hatomic
      obtain ⟨hnot, hndp⟩ := hcond hatomic
      cases hwrite : mf.isWrite with
      | true => simp [answeredByMemory, hwrite, hndp hwrite]
      | false =>
        -- the read of a block is waited for
        have hid : mf.id ∈ (u.l1d.extraMfFields.keys : Multiset Nat) := by
          rw [← h.fetches]
          refine Multiset.mem_map_of_mem _ (Multiset.mem_filter.mpr ⟨hmem, ?_⟩)
          simp [fetchesBlock, hatomic, hwrite]
        have hwait := hwaiting.mpr (Multiset.mem_coe.mp hid)
        simp [hnot] at hwait
    have hother : fetchesBlock mf = false := by
      simp only [answeredByMemory, fetchesBlock] at hown ⊢
      grind
    obtain ⟨loads, finished, rfl, rfl⟩ := handleResponse_cases hresp
    refine h.receive hnum (by simp) h.tracked htransit rfl rfl rfl ?_ ?_ (writes_of_answer _ mf)
    · rw [if_pos hown]
      rfl
    · simp [hother]

theorem AnswerInv.step (h : AnswerInv cfg u tr) (hnum : Numbered cfg u tr) {op : Op}
    (hok : Answerable cfg u op) (hoff : u.Offered op) (hs : u.step cfg op = .ok (u', ev)) :
    AnswerInv cfg u' (tr ++ ev) := by
  cases op with
  | inst inst addrs context => exact h.inst hnum hs
  | coreToL1 bank time => exact h.coreToL1 hnum hok hs
  | l1ToCore => exact h.l1ToCore hnum hs
  | l1ToTlb full =>
    obtain ⟨rfl, rfl⟩ := Prod.mk.inj (Except.ok.inj hs)
    unfold l1ToTlb
    split
    case h_1 => simpa using h
    case h_2 mf rest hqueue =>
      split
      · simpa using h
      · refine h.shift hnum (by simp) rfl h.tracked ?_ le_rfl rfl rfl rfl rfl
        simp only [transit, hqueue, ← Multiset.cons_coe, Multiset.add_cons, Multiset.cons_add]
  | l1dCycle =>
    have hs := Except.ok.inj hs
    obtain hidle | ⟨mf, rest, hqueue, hsend⟩ := l1dCycle_cases cfg u
    · obtain ⟨rfl, rfl⟩ := Prod.mk.inj (hidle.symm.trans hs)
      simpa using h
    · obtain ⟨rfl, rfl⟩ := Prod.mk.inj (hsend.symm.trans hs)
      refine h.shift hnum (by simp) rfl (h.tracked.of_eq rfl le_rfl (fun _ => Iff.rfl) rfl) ?_
        le_rfl rfl rfl rfl rfl
      simp only [transit, hqueue, ← Multiset.cons_coe, ← Multiset.coe_add, Multiset.cons_add]
      simp only [← Multiset.singleton_add]
      abel
  | latencyCycle =>
    obtain ⟨rfl, rfl⟩ := Prod.mk.inj (Except.ok.inj hs)
    exact h.shift hnum (by simp) rfl h.tracked rfl le_rfl rfl (queued_cycle u) rfl rfl
  | fromMem mf time => exact h.fromMem hnum hoff hs
  | writeback subCoreId =>
    obtain ⟨rfl, rfl⟩ := Prod.mk.inj (Except.ok.inj hs)
    exact h.shift hnum (by simp) rfl h.tracked rfl le_rfl rfl rfl rfl rfl

theorem Run.answerInv (h : Run cfg (Answerable cfg) u tr) : AnswerInv cfg u tr := by
  induction h with
  | start lines => exact answerInv_create lines
  | step run op hok hoff hs ih => exact ih.step run.numbered hok hoff hs

/-! ## The loads behind the requests -/

theorem handleResponse_loads (h : u.handleResponse cfg mf = .ok (u', ev)) :
    mf.isWrite = true ∧ u'.loads = u.loads ∨
    mf.isWrite = false ∧
      ∃ events, u.loads.handleRead cfg.toRegSize mf.id = .ok (u'.loads, events) := by
  unfold handleResponse at h
  split at h
  case isTrue hwrite =>
    obtain ⟨rfl, rfl⟩ := Prod.mk.inj (Except.ok.inj h)
    exact .inl ⟨hwrite, rfl⟩
  case isFalse hread =>
    obtain ⟨⟨loads, events⟩, hloads, h⟩ := bind_eq_ok.mp h
    obtain ⟨rfl, rfl⟩ := Prod.mk.inj (Except.ok.inj h)
    exact .inr ⟨by simpa using hread, events, hloads⟩

/-- What a step does to the tables of the loads. -/
inductive LoadStep (cfg : LdstConfig) (u u' : LdstUnit) (ev : List LdstEvent) : Prop
  | none (loads : u'.loads = u.loads) (answers : ∀ mf ∈ answered ev, mf.isWrite = true)
      (brings : ∀ mf ∈ pushed ev, mf.isWrite = true)
  | respond {mf : MemFetch} {events : List LoadEvent} (read : mf.isWrite = false)
      (loads : u.loads.handleRead cfg.toRegSize mf.id = .ok (u'.loads, events))
      (answers : answered ev = {mf}) (brings : pushed ev = 0)
  | load (inst : NdpInstruction) (addrs : List (BitVec 64)) (context : LdstContext)
      (loads : u.loads.addLoad ((u.requestsOf cfg inst addrs).map MemFetch.id) inst context =
        .ok u'.loads) (shown : ev = (u.requestsOf cfg inst addrs).map .pushed)
  | writeback (subCoreId : Nat) (loads : u'.loads = u.loads.writeback subCoreId) (shown : ev = [])

theorem loadStep_of_response {w : LdstUnit} {shown : List LdstEvent} (seen : List LdstEvent)
    (h : w.handleResponse cfg mf = .ok (u', shown)) (hloads : w.loads = u.loads)
    (hanswered : answered seen = 0) (hpushed : pushed seen = 0) :
    LoadStep cfg u u' (seen ++ shown) := by
  obtain ⟨loads, finished, -, rfl⟩ := handleResponse_cases h
  have hanswer : answered (seen ++ [.answered mf]) = {mf} := by
    rw [answered_append, hanswered, zero_add]
    rfl
  have hpush : pushed (seen ++ [.answered mf]) = 0 := by
    rw [pushed_append, hpushed, zero_add]
    rfl
  obtain ⟨hwrite, hsame⟩ | ⟨hread, events, hread'⟩ := handleResponse_loads h
  · refine .none (hsame.trans hloads) ?_ ?_
    · rw [hanswer]
      simpa using hwrite
    · simp [hpush]
  · exact .respond hread (hloads ▸ hread') hanswer hpush

theorem loadStep_of_step {op : Op} (h : u.step cfg op = .ok (u', ev)) : LoadStep cfg u u' ev := by
  cases op with
  | inst inst addrs context =>
    simp only [step, processLdstInst] at h
    split at h
    · obtain ⟨rfl, rfl⟩ := Prod.mk.inj (Except.ok.inj h)
      exact .none rfl (by simp [answered]) (by simp [pushed])
    split at h
    case isTrue hload =>
      obtain ⟨loads, hloads, h⟩ := bind_eq_ok.mp h
      obtain ⟨rfl, rfl⟩ := Prod.mk.inj (Except.ok.inj h)
      exact .load inst addrs context hloads rfl
    case isFalse hload =>
      obtain ⟨rfl, rfl⟩ := Prod.mk.inj (Except.ok.inj h)
      refine .none rfl (by simp [answered_map_pushed]) ?_
      rw [pushed_map]
      intro mf hmf
      obtain ⟨i, hi, rfl⟩ := List.mem_mapIdx.mp (Multiset.mem_coe.mp hmf)
      simpa using hload
  | coreToL1 bank time =>
    obtain ⟨-, rfl, rfl⟩ | ⟨mf, hhead, ⟨-, -, rfl, rfl⟩ | ⟨-, status, events, l1d, shown, haccess,
      hafter, rfl⟩⟩ := coreToL1_cases h
    · exact .none rfl (by simp [answered]) (by simp [pushed])
    · exact .none rfl (by simp [answered]) (by simp [pushed])
    · obtain ⟨-, rfl, rfl⟩ | ⟨-, -, hresp⟩ | ⟨-, -, rfl, rfl⟩ := afterAccess_cases hafter
      · exact .none rfl (by simp [answered]) (by simp [pushed])
      · exact loadStep_of_response [.accessed mf] hresp rfl rfl rfl
      · exact .none rfl (by simp [answered]) (by simp [pushed])
  | l1ToCore =>
    simp only [step, LdstUnit.l1ToCore] at h
    split at h
    · obtain ⟨⟨mf, l1d⟩, hpop, h⟩ := bind_eq_ok.mp h
      exact loadStep_of_response [] h rfl rfl rfl
    · obtain ⟨rfl, rfl⟩ := Prod.mk.inj (Except.ok.inj h)
      exact .none rfl (by simp [answered]) (by simp [pushed])
  | l1ToTlb full =>
    obtain ⟨rfl, rfl⟩ := Prod.mk.inj (Except.ok.inj h)
    refine .none ?_ (by simp [answered]) (by simp [pushed])
    unfold l1ToTlb
    split
    · rfl
    · split <;> rfl
  | l1dCycle =>
    have h := Except.ok.inj h
    obtain hidle | ⟨mf, rest, hqueue, hsend⟩ := l1dCycle_cases cfg u
    · obtain ⟨rfl, rfl⟩ := Prod.mk.inj (hidle.symm.trans h)
      exact .none rfl (by simp [answered]) (by simp [pushed])
    · obtain ⟨rfl, rfl⟩ := Prod.mk.inj (hsend.symm.trans h)
      exact .none rfl (by simp [answered]) (by simp [pushed])
  | latencyCycle =>
    obtain ⟨rfl, rfl⟩ := Prod.mk.inj (Except.ok.inj h)
    exact .none rfl (by simp [answered]) (by simp [pushed])
  | fromMem mf time =>
    obtain ⟨-, -, ⟨l1d, hfill, rfl⟩, rfl⟩ | ⟨-, -, -, -, rfl, rfl⟩ | ⟨-, hresp⟩ :=
      handleFromMem_cases h
    · exact .none rfl (by simp [answered]) (by simp [pushed])
    · exact .none rfl (by simp [answered]) (by simp [pushed])
    · exact loadStep_of_response [] hresp rfl rfl rfl
  | writeback subCoreId =>
    obtain ⟨rfl, rfl⟩ := Prod.mk.inj (Except.ok.inj h)
    exact .writeback subCoreId rfl rfl

/-- The history of the loads behind a run of the unit. -/
structure Linked (cfg : LdstConfig) (u : LdstUnit) (tr : List LdstEvent) (hist : LoadHistory) :
    Prop where
  run : LoadHistory.Run cfg.toRegSize hist
  table : hist.table = u.loads
  requests : ∀ mf ∈ pushed tr, mf.isWrite = false → ∃ l ∈ hist.loads, mf.id ∈ l.ids
  loads : ∀ l ∈ hist.loads, ∀ i ∈ l.ids, ∃ mf ∈ pushed tr, mf.id = i
  answers : ∀ i ∈ hist.answered, ∃ mf ∈ answered tr, mf.id = i

theorem linked_create (lines : Lines) : Linked cfg (create cfg lines) [] .create := by
  refine ⟨.start, rfl, by simp [pushed], ?_, ?_⟩ <;> simp [LoadHistory.create]

theorem AnswerInv.answered_le (h : AnswerInv cfg u tr) : answered tr ≤ pushed tr := by
  rw [h.balance]
  exact Multiset.le_add_right _ _

/-- A request that is not answered is none of the answered ones. -/
theorem Linked.notMem_answered {hist : LoadHistory} (hlink : Linked cfg u tr hist)
    (hnum : Numbered cfg u tr) (h : answered tr ≤ pushed tr) (hmf : mf ∈ pushed tr)
    (hnew : mf ∉ answered tr) : mf.id ∉ hist.answered := by
  intro hid
  obtain ⟨mf', hmf', heq⟩ := hlink.answers _ hid
  have hpushed := Multiset.mem_of_le h hmf'
  obtain rfl := hnum.unique mf' mf (mem_pushed.mp hpushed) (mem_pushed.mp hmf) heq
  exact hnew hmf'

theorem Linked.step {hist : LoadHistory} (hlink : Linked cfg u tr hist) (hnum : Numbered cfg u tr)
    (h : AnswerInv cfg u tr)
    (h' : AnswerInv cfg u' (tr ++ ev)) (hstep : LoadStep cfg u u' ev) :
    ∃ hist', Linked cfg u' (tr ++ ev) hist' := by
  cases hstep with
  | none loads answers brings =>
    refine ⟨hist, hlink.run, hlink.table.trans loads.symm, fun mf hmf hread => ?_,
      fun l hl i hi => ?_, fun i hi => ?_⟩
    · rw [pushed_append] at hmf
      obtain hmf | hmf := Multiset.mem_add.mp hmf
      · exact hlink.requests mf hmf hread
      · simp [brings mf hmf] at hread
    · obtain ⟨mf, hmf, heq⟩ := hlink.loads l hl i hi
      exact ⟨mf, by rw [pushed_append]; exact Multiset.mem_add.mpr (.inl hmf), heq⟩
    · obtain ⟨mf, hmf, heq⟩ := hlink.answers i hi
      exact ⟨mf, by rw [answered_append]; exact Multiset.mem_add.mpr (.inl hmf), heq⟩
  | writeback subCoreId loads shown =>
    subst shown
    rw [List.append_nil]
    refine ⟨{ hist with table := u'.loads }, hlink.run.step (.writeback subCoreId) trivial ?_, rfl,
      hlink.requests, hlink.loads, hlink.answers⟩
    rw [loads, ← hlink.table]
    rfl
  | @respond mf events read loads answers brings =>
    have hpushed : pushed (tr ++ ev) = pushed tr := by rw [pushed_append, brings, add_zero]
    have hanswered : answered (tr ++ ev) = mf ::ₘ answered tr := by
      rw [answered_append, answers, add_comm, Multiset.singleton_add]
    have hle := h'.answered_le
    rw [hpushed, hanswered] at hle
    have hmem : mf ∈ pushed tr := Multiset.mem_of_le hle (Multiset.mem_cons_self _ _)
    have hnew : mf ∉ answered tr :=
      (Multiset.nodup_cons.mp (Multiset.nodup_of_le hle hnum.nodup_pushed)).1
    have hid := hlink.notMem_answered hnum h.answered_le hmem hnew
    refine ⟨{ hist with
      table := u'.loads, answered := insert mf.id hist.answered, events := hist.events ++ events },
      hlink.run.step (.respond mf.id) ⟨hlink.requests mf hmem read, hid⟩ ?_, rfl, ?_, ?_, ?_⟩
    · simp only [LoadHistory.step, hlink.table, loads]
      rfl
    · rw [hpushed]
      exact hlink.requests
    · rw [hpushed]
      exact hlink.loads
    · intro i hi
      rw [hanswered]
      obtain rfl | hi := Finset.mem_insert.mp hi
      · exact ⟨mf, Multiset.mem_cons_self _ _, rfl⟩
      · obtain ⟨mf', hmf', heq⟩ := hlink.answers i hi
        exact ⟨mf', Multiset.mem_cons_of_mem hmf', heq⟩
  | load inst addrs context loads shown =>
    set mfs := u.requestsOf cfg inst addrs with hmfs
    have hpushed : pushed (tr ++ ev) = pushed tr + mfs := by rw [pushed_append, shown, pushed_map]
    have hanswered : answered (tr ++ ev) = answered tr := by
      rw [answered_append, shown, answered_map_pushed, add_zero]
    have hnodup := nodup_ids_requestsOf cfg u inst addrs
    cases hids : mfs.map MemFetch.id with
    | nil =>
      rw [hids] at loads
      cases loads
    | cons key rest =>
      have hl : (⟨key, rest, inst, context⟩ : Load).ids = mfs.map MemFetch.id := hids.symm
      refine ⟨{ hist with
        table := u'.loads, loads := ⟨key, rest, inst, context⟩ :: hist.loads },
        hlink.run.step (.load ⟨key, rest, inst, context⟩) ⟨hl ▸ hnodup, ?_⟩ ?_, rfl, ?_, ?_, ?_⟩
      · intro l' hl' i hi hnew
        obtain ⟨mf, hmf, rfl⟩ := hlink.loads l' hl' i hi
        rw [hl] at hnew
        obtain ⟨q, hq, heq⟩ := List.mem_map.mp hnew
        have hlt := hnum.id_lt mf (mem_pushed.mp hmf)
        have hle := (mem_requestsOf hq).1
        omega
      · simp only [LoadHistory.step, hlink.table, hl, loads]
        rfl
      · intro mf hmf hread
        rw [hpushed] at hmf
        obtain hmf | hmf := Multiset.mem_add.mp hmf
        · obtain ⟨l, hl, hi⟩ := hlink.requests mf hmf hread
          exact ⟨l, List.mem_cons_of_mem _ hl, hi⟩
        · exact ⟨_, List.mem_cons_self, hl ▸ List.mem_map_of_mem (Multiset.mem_coe.mp hmf)⟩
      · intro l' hl' i hi
        rw [hpushed]
        obtain rfl | hl' := List.mem_cons.mp hl'
        · rw [hl] at hi
          obtain ⟨mf, hmf, heq⟩ := List.mem_map.mp hi
          exact ⟨mf, Multiset.mem_add.mpr (.inr (Multiset.mem_coe.mpr hmf)), heq⟩
        · obtain ⟨mf, hmf, heq⟩ := hlink.loads l' hl' i hi
          exact ⟨mf, Multiset.mem_add.mpr (.inl hmf), heq⟩
      · rw [hanswered]
        exact hlink.answers

theorem Run.linked (h : Run cfg (Answerable cfg) u tr) : ∃ hist, Linked cfg u tr hist := by
  induction h with
  | start lines => exact ⟨_, linked_create lines⟩
  | step run op hok hoff hs ih =>
    obtain ⟨hist, hlink⟩ := ih
    exact hlink.step run.numbered run.answerInv (run.step op hok hoff hs).answerInv
      (loadStep_of_step hs)

/-! ## Every request is answered once -/

theorem AnswerInv.pushed_sub (h : AnswerInv cfg u tr) : pushed tr - answered tr = u.held := by
  rw [h.balance, add_tsub_cancel_left]

/-- Nothing waits in the cache once everything has come back. -/
theorem AnswerInv.held_of_drained (h : AnswerInv cfg u tr) (hdrained : u.Drained) :
    u.held = 0 := by
  have htransit : u.transit = 0 := by
    rw [transit, hdrained.missQueue, hdrained.toTlb, hdrained.outside]
    rfl
  have hkeys : u.l1d.extraMfFields.keys = [] := by
    have hfetches := h.fetches
    rw [htransit] at hfetches
    exact Multiset.coe_eq_zero _ |>.mp hfetches.symm
  rw [held, hdrained.banks, h.tracked.waiters_eq_zero hdrained.response hkeys, htransit]
  rfl

/-- As long as every write at the head of a bank settles, and no atomic finds the queue to the TLB
full, all requests are answered once. -/
theorem requests_answered_once (h : Run cfg (Answerable cfg) u tr) : AnswersOnce cfg u tr := by
  have hinv := h.answerInv
  have hnum := h.numbered
  obtain ⟨hist, hlink⟩ := h.linked
  refine ⟨hnum.nodup_pushed, hinv.answered_le, fun hdrained => ?_, ?_, fun mf hmf hroom => ?_⟩
  · rw [hinv.balance, hinv.held_of_drained hdrained, add_zero]
  · rw [hinv.pushed_sub, hinv.writes, hinv.balance, Multiset.filter_add, Multiset.card_add]
    push_cast
    ring
  · have hpushed : mf ∈ pushed tr := Multiset.mem_of_le tsub_le_self hmf
    have hnew : mf ∉ answered tr := by
      have hnodup := hnum.nodup_pushed
      rw [hinv.balance] at hnodup
      rw [hinv.pushed_sub] at hmf
      exact fun hans => (Multiset.disjoint_left.mp (Multiset.nodup_add.mp hnodup).2.2) hans hmf
    cases hwrite : mf.isWrite with
    | true => exact ⟨_, if_pos hwrite⟩
    | false =>
      obtain ⟨l, hl, hi⟩ := hlink.requests mf hpushed hwrite
      have hloads := hlink.run.inv
      have hid := hlink.notMem_answered hnum hinv.answered_le hpushed hnew
      obtain ⟨hfull, -⟩ | ⟨t, events, ht, -⟩ :=
        (hloads.accounted l hl).respond cfg.toRegSize (hloads.nodup l hl) hi hid
      · rw [hlink.table, hroom] at hfull
        cases hfull
      · rw [hlink.table] at ht
        exact ⟨_, (if_neg (by simp [hwrite])).trans (bind_eq_ok.mpr ⟨_, ht, rfl⟩)⟩

/-- A load of one packet and a store to it, which goes through to memory. -/
theorem load_and_store_answered : ∃ u tr, Run (oneBank (Cache.oneLine .noWriteAllocate))
    (Answerable (oneBank (Cache.oneLine .noWriteAllocate))) u tr ∧ (pushed tr).card = 2 ∧
    (answered tr).card = 1 ∧ AnswersOnce (oneBank (Cache.oneLine .noWriteAllocate)) u tr := by
  have hrun : Run (oneBank (Cache.oneLine .noWriteAllocate))
      (Answerable (oneBank (Cache.oneLine .noWriteAllocate))) _ _ :=
    .step (.step (.step (.step (.step (.step (.step (.step (.start fun _ => Cache.emptyLine)
      (.inst LoadHistory.sampleVectorLoad [0] ⟨0, 0, false⟩) trivial trivial rfl)
      (.inst sampleStore [0] ⟨0, 0, true⟩) trivial trivial rfl)
      (.coreToL1 0 1) (fun _ h => by cases h; exact ⟨nofun, fun _ => .inl rfl⟩) trivial rfl)
      (.coreToL1 0 2) (fun _ h => by cases h; exact ⟨nofun, fun _ => .inl rfl⟩) trivial rfl)
      .l1dCycle trivial trivial rfl)
      (.l1ToTlb false) trivial trivial rfl)
      (.fromMem ⟨0, 0, false, false, true, 0, 32, 0, false⟩ 3) trivial (.head _) rfl)
      .l1ToCore trivial trivial rfl
  exact ⟨_, _, hrun, rfl, by decide, requests_answered_once hrun⟩

/-- A store that misses in a cache that fetches lazily and writes back is never answered. -/
theorem lazy_store_unanswered : ∃ u tr,
    Run (oneBank (Cache.oneLine .lazyFetchOnRead)) (fun _ _ => True) u tr ∧ u.Drained ∧
      ¬ AnswersOnce (oneBank (Cache.oneLine .lazyFetchOnRead)) u tr := by
  have hrun : Run (oneBank (Cache.oneLine .lazyFetchOnRead)) (fun _ _ => True) _ _ :=
    .step (.step (.start fun _ => Cache.emptyLine)
      (.inst sampleStore [0] ⟨0, 0, true⟩) trivial trivial rfl)
      (.coreToL1 0 1) trivial trivial rfl
  refine ⟨_, _, hrun, ⟨rfl, rfl, rfl, rfl, rfl⟩, fun h => ?_⟩
  have hcard := congrArg Multiset.card (h.drained ⟨rfl, rfl, rfl, rfl, rfl⟩)
  exact absurd hcard (by decide)

end LdstUnit

end NdpSim
