import NdpSim.Cache.Waiters

/-!
# Writes that are sent on

Which writes a cache passes on to the memory behind it can be told before the access. All other
requests stay with the cache: they are done at once, wait for their block, or are refused.
-/
namespace NdpSim

open Library

namespace Cache

/-- The cache passes the write on. -/
def sendsWrite (cfg : CacheConfig) (c : Cache) (mf : MemFetch) : Bool :=
  mf.isWrite &&
    match cfg.probe c.lines (cfg.getBlockAddr mf.addr) (cfg.sectorOf mf) with
    | .error _ => false
    | .ok (.hit _) => forwardsHit cfg mf && !c.missQueueFull cfg 0
    | .ok p =>
      match cfg.writeAllocPolicy with
      | .noWriteAllocate => !c.missQueueFull cfg 0
      | .writeAllocate => p != .reservationFail &&
        !(c.missQueueFull cfg 2 || c.mshrFull cfg (cfg.getMshrAddr mf.addr))
      | .fetchOnWrite => false
      | .lazyFetchOnRead => p != .reservationFail && cfg.writePolicy == .writeThrough &&
        !c.missQueueFull cfg 0

variable {cfg : CacheConfig} {c c' : Cache} {mf : MemFetch} {status : CacheRequestStatus}
  {events : List CacheEvent} {time : Nat} {p : Probe}

/-- A write that the cache would pass on is refused if there is no room for it. -/
theorem refused_of_wrHit {i : Nat} (hforward : forwardsHit cfg mf = true)
    (hfull : c.missQueueFull cfg 0 = true)
    (h : c.wrHit cfg mf time i = .ok (status, events, c')) :
    status = .reservationFail ∧ events = [] ∧ c' = c := by
  simp only [forwardsHit, Bool.and_eq_true, Bool.or_eq_true, beq_iff_eq, Bool.not_eq_true',
    or_assoc] at hforward
  obtain ⟨-, hpol | hpol | ⟨hpol, hndp⟩⟩ := hforward
  · simp only [wrHit, hpol, wrHitWt, hfull, if_true] at h
    simpa [eq_comm] using Except.ok.inj h
  · simp only [wrHit, hpol, wrHitWe, hfull, if_true] at h
    simpa [eq_comm] using Except.ok.inj h
  · simp only [wrHit, hpol, hndp, wrHitWe, hfull, if_true] at h
    simpa [eq_comm] using Except.ok.inj h

theorem wrHit_ne_miss {i : Nat} (h : c.wrHit cfg mf time i = .ok (status, events, c')) :
    status ≠ .miss := by
  have hwb : ∀ {status events c'}, c.wrHitWb cfg mf time = .ok (status, events, c') →
      status = .hit := by
    intro status events c' h
    obtain ⟨q, -, h⟩ := bind_eq_ok.mp h
    exact (Prod.mk.inj (Except.ok.inj h)).1.symm
  have hwe : ∀ {status events c'}, c.wrHitWe cfg mf i = .ok (status, events, c') →
      status ≠ .miss := by
    intro status events c' h
    simp only [wrHitWe] at h
    split at h <;> rw [← (Prod.mk.inj (Except.ok.inj h)).1] <;> simp
  simp only [wrHit] at h
  split at h
  · cases h
  · simp [hwb h]
  · simp only [wrHitWt] at h
    split at h
    · rw [← (Prod.mk.inj (Except.ok.inj h)).1]
      simp
    · obtain ⟨⟨status₁, events₁, c₁⟩, h₁, h⟩ := bind_eq_ok.mp h
      rw [← (Prod.mk.inj (Except.ok.inj h)).1, hwb h₁]
      simp
  · exact hwe h
  · split at h
    · simp [hwb h]
    · exact hwe h

/-- A write that is not allocated is passed on if it misses. -/
theorem sendsWrite_of_forwarded (hw : mf.isWrite = true)
    (hpol : cfg.writeAllocPolicy = .noWriteAllocate)
    (h : c.access .data cfg mf time = .ok (.miss, events, c')) : sendsWrite cfg c mf = true := by
  simp only [access, dataAccess] at h
  obtain ⟨p, hp, h⟩ := bind_eq_ok.mp h
  rw [if_pos hw] at h
  have hroom : ∀ q, c.wrMiss cfg mf time q = .ok (.miss, events, c') →
      c.missQueueFull cfg 0 = false := by
    intro q hq
    simp only [wrMiss, hpol, wrMissNoWa] at hq
    split at hq
    · cases hq
    case isFalse hfull => simpa using hfull
  cases p with
  | hit i => exact absurd rfl (wrHit_ne_miss h)
  | reservationFail =>
    simp only [hpol, if_true] at h
    simp [sendsWrite, hw, hp, hpol, hroom _ h]
  | _ i => simp [sendsWrite, hw, hp, hpol, hroom _ h]

/-- A write that allocates is refused if there is no room for it and the read of its block. -/
theorem refused_of_full (hw : mf.isWrite = true) (hpol : cfg.writeAllocPolicy = .writeAllocate)
    (hfull : (c.missQueueFull cfg 2 || c.mshrFull cfg (cfg.getMshrAddr mf.addr)) = true)
    (hmiss : ∀ i, cfg.probe c.lines (cfg.getBlockAddr mf.addr) (cfg.sectorOf mf) ≠ .ok (.hit i))
    (h : c.access .data cfg mf time = .ok (status, events, c')) : status = .reservationFail := by
  simp only [access, dataAccess] at h
  obtain ⟨p, hp, h⟩ := bind_eq_ok.mp h
  rw [if_pos hw] at h
  have hnaive : c.wrMiss cfg mf time p = .ok (.reservationFail, [], c) := by
    simp only [wrMiss, hpol, wrMissWaNaive, hfull, if_true]
    rfl
  cases p with
  | hit i => exact absurd hp (hmiss i)
  | reservationFail =>
    simp only [hpol] at h
    exact (Prod.mk.inj (Except.ok.inj h)).1.symm
  | _ i => exact (Prod.mk.inj (Except.ok.inj (hnaive.symm.trans h))).1.symm

/-- What an access adds: requests that wait, reads of their blocks and write-backs that leave. -/
structure Adds (c c' : Cache) (made fetch back : List MemFetch) : Prop where
  waiters : c'.waiters = made + c.waiters
  queue : c'.missQueue = c.missQueue ++ fetch ++ back
  keys : c'.extraMfFields.keys = fetch.map MemFetch.id ++ c.extraMfFields.keys
  fetch : ∀ q ∈ fetch, q.isWrite = false ∧ ∃ w ∈ made, w.id = q.id
  apart : ∀ q ∈ back, ∀ w ∈ made, q.id ≠ w.id
  back : WriteBacks c.uid c'.uid back

theorem adds_quiet {back : List MemFetch} (htable : c'.table = c.table)
    (hextra : c'.extraMfFields = c.extraMfFields) (hqueue : c'.missQueue = c.missQueue ++ back)
    (hback : WriteBacks c.uid c'.uid back) : Adds c c' [] [] back :=
  ⟨by simpa using waiters_congr htable, by simpa using hqueue, by rw [hextra]; rfl, by simp,
    by simp, hback⟩

/-- What becomes of a request that the cache does not pass on. -/
inductive Keeps (cfg : CacheConfig) (c : Cache) (mf : MemFetch) (status : CacheRequestStatus)
    (events : List CacheEvent) (c' : Cache) : Prop
  | refused {made fetch back : List MemFetch} (status : status = .reservationFail)
      (adds : Adds c c' made fetch back) (made : ∀ w ∈ made, c.uid ≤ w.id ∧ w.id < c'.uid)
  | hit (status : status = .hit) (quiet : .writeRequestSent ∉ events) (adds : Adds c c' [] [] [])
  | overwritten {back : List MemFetch} (status : status = .miss) (write : mf.isWrite = true)
      (policy : cfg.writeAllocPolicy = .lazyFetchOnRead) (adds : Adds c c' [] [] back)
  | waits {fetch back : List MemFetch} (status : status = .miss) (read : mf.isWrite = false)
      (adds : Adds c c' [mf] fetch back)

/-- The reads under way once a request waits for its block. -/
theorem keys_of_joins {w : MemFetch} {idx : Nat} {table : Binding (BitVec 64) MshrEntry}
    {extra : Binding Nat ExtraMfFields} {sent : List MemFetch}
    (h : Joins cfg c w idx table extra sent) (hfresh : w.id ∉ c.extraMfFields.keys) :
    extra.keys = sent.map MemFetch.id ++ c.extraMfFields.keys := by
  cases h with
  | merged => rfl
  | requested =>
    rw [AList.keys_insert, List.erase_of_not_mem hfresh]
    rfl

theorem adds_of_joins {w : MemFetch} {idx : Nat} {table : Binding (BitVec 64) MshrEntry}
    {extra : Binding Nat ExtraMfFields} {sent back : List MemFetch}
    (h : Joins cfg c w idx table extra sent) (hread : w.isWrite = false)
    (hfresh : w.id ∉ c.extraMfFields.keys) (htable : c'.table = table)
    (hextra : c'.extraMfFields = extra) (hqueue : c'.missQueue = c.missQueue ++ sent ++ back)
    (hback : WriteBacks c.uid c'.uid back) (hapart : ∀ q ∈ back, q.id ≠ w.id) :
    Adds c c' [w] sent back := by
  refine ⟨h.waiters htable, hqueue, by rw [hextra]; exact keys_of_joins h hfresh, fun q hq => ?_,
    by simpa using hapart, hback⟩
  cases h with
  | merged => cases hq
  | requested =>
    rw [List.mem_singleton.mp hq]
    exact ⟨hread, w, List.mem_singleton_self _, rfl⟩

theorem keeps_of_access (hstays : sendsWrite cfg c mf = false)
    (hid : mf.id < c.uid) (hfresh : mf.id ∉ c.extraMfFields.keys)
    (hids : ∀ id ∈ c.extraMfFields.keys, id < c.uid)
    (h : c.access .data cfg mf time = .ok (status, events, c')) :
    Keeps cfg c mf status events c' := by
  cases effect_access h with
  | refused =>
    exact .refused rfl (adds_quiet rfl rfl (List.append_nil _).symm (.nil _ _)) (by simp)
  | forwarded tells write policy =>
    simp [sendsWrite_of_forwarded write policy h] at hstays
  | @hit _ i _ _ tells probe =>
    have hno : forwardsHit cfg mf = false := by
      refine Bool.eq_false_iff.mpr fun hforward => ?_
      have hw : mf.isWrite = true := by
        simp only [forwardsHit, Bool.and_eq_true] at hforward
        exact hforward.1
      have hfull : c.missQueueFull cfg 0 = true := by
        simpa [sendsWrite, hw, probe, hforward] using hstays
      simp only [access, dataAccess, hw, if_true] at h
      obtain ⟨q, hq, h⟩ := bind_eq_ok.mp h
      obtain rfl : q = .hit i := Except.ok.inj (hq.symm.trans probe)
      cases (refused_of_wrHit hforward hfull h).1
    refine .hit rfl (by simp [tells.write, hno]) (adds_quiet rfl rfl (by simp [hno]) (.nil _ _))
  | @overwritten _ p _ evicted tells tag missed found whole room =>
    have hback := writeBacks_evictedPackets .data cfg c.uid evicted
    have hprobe := CacheConfig.probe_of_tagAccess tag
    have hover := whole
    simp only [overwrites, Bool.and_eq_true, Bool.or_eq_true, beq_iff_eq] at hover
    obtain ⟨hw, hlazy | ⟨hfow, -⟩⟩ := hover
    · have hroom : c.missQueueFull cfg 0 = false := by simpa [missRoom, whole] using room
      have hwt : cfg.writePolicy ≠ .writeThrough := by
        intro hwt
        cases p with
        | hit i => exact missed rfl
        | reservationFail => exact found rfl
        | _ i => simp [sendsWrite, hw, hprobe, hlazy, hwt, hroom] at hstays
      refine .overwritten (by simp [missStatus, hlazy]) hw hlazy (adds_quiet rfl rfl ?_ hback)
      simp [forwardsMiss, hlazy, hwt]
    · refine .refused (by simp [missStatus, hw, hfow]) (adds_quiet rfl rfl ?_ hback) (by simp)
      simp [forwardsMiss, hfow]
  | @awaited _ p _ evicted _ _ _ _ uid tells tag missed found fetched room rewrites joins uids =>
    have hback := writeBacks_evictedPackets .data cfg uid evicted
    have hprobe := CacheConfig.probe_of_tagAccess tag
    cases hw : mf.isWrite with
    | false =>
      rw [waiter, if_neg (by simp [hw])] at joins
      rw [if_neg (by simp [hw])] at uids
      subst uids
      exact .waits (by simp [missStatus, hw]) hw
        (adds_of_joins joins hw hfresh rfl rfl (by simp [forwardsMiss, hw]) hback
          fun q hq => (hid.trans_le (hback.le_id q hq)).ne')
    | true =>
      have hpolicy : cfg.writeAllocPolicy = .writeAllocate ∨
          cfg.writeAllocPolicy = .fetchOnWrite ∧ writesWholeAtom cfg mf = false := by
        simpa [fetches, hw] using fetched
      obtain hpol | ⟨hpol, -⟩ := hpolicy
      · -- the write would be passed on, or there is no room for it
        have hfull : (c.missQueueFull cfg 2 ||
            c.mshrFull cfg (cfg.getMshrAddr mf.addr)) = true := by
          cases p with
          | hit i => exact absurd rfl missed
          | reservationFail => exact absurd rfl found
          | _ i =>
            refine Bool.not_eq_false _ |>.mp fun hroom => ?_
            simp [sendsWrite, hw, hprobe, hpol, hroom] at hstays
        have hfail := refused_of_full hw hpol hfull (fun i hi => ?_) h
        · simp [missStatus, hpol] at hfail
        · obtain rfl : p = .hit i := Except.ok.inj (hprobe.symm.trans hi)
          exact missed rfl
      · rw [waiter, if_pos hw] at joins
        rw [if_pos hw] at uids
        subst uids
        refine .refused (by simp [missStatus, hw, hpol]) (adds_of_joins joins rfl ?_ rfl rfl
          (by simp [forwardsMiss, hpol]) (hback.mono (Nat.le_succ _))
          fun q hq => (Nat.lt_of_succ_le (hback.le_id q hq)).ne') ?_
        · exact fun hmem => absurd (hids _ hmem) (lt_irrefl _)
        · simp [allocateRead]
          omega

end Cache

end NdpSim
