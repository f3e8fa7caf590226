import NdpSim.Timing.LdstUnit

/-!
# Atomics and the L1 cache

Atomics are performed at the L2 cache, so the load-store unit sends them past the L1. It does so
only while the queue to the TLB has room: an atomic that finds the queue full is given to the L1
like any other load.
-/
namespace NdpSim

open Library

namespace LdstUnit

/-- The queue to the TLB has room when an atomic is at the head of the bank. -/
def BypassOpen (cfg : LdstConfig) (u : LdstUnit) : Op → Prop
  | .coreToL1 bank _ => ∀ mf, u.head? bank = some mf → mf.isAtomic = true → u.tlbFull cfg = false
  | _ => True

variable {cfg : LdstConfig} {u u' : LdstUnit} {tr ev : List LdstEvent} {mf : MemFetch}

/-- An access that is no atomic sends no atomic. -/
theorem nonatomic_of_access {c c' : Cache} {ccfg : CacheConfig} {time : Nat}
    {status : CacheRequestStatus} {events : List CacheEvent}
    (h : c.access .data ccfg mf time = .ok (status, events, c')) (hmf : mf.isAtomic = false)
    (hc : ∀ q ∈ c.missQueue, q.isAtomic = false) : ∀ q ∈ c'.missQueue, q.isAtomic = false := by
  have hpackets : ∀ (n : Nat) (evicted : Option EvictedBlockInfo),
      ∀ q ∈ Cache.evictedPackets .data ccfg n evicted, q.isAtomic = false :=
    fun n evicted => (Cache.writeBacks_evictedPackets .data ccfg n evicted).isAtomic
  have hself : ∀ (b : Bool), ∀ q ∈ (if b then [mf] else []), q.isAtomic = false := by
    intro b q hq
    split at hq
    · rw [List.mem_singleton.mp hq, hmf]
    · cases hq
  cases Cache.effect_access h with
  | refused => exact hc
  | forwarded => simpa [Cache.sendWriteRequest, or_imp, forall_and, hmf] using hc
  | hit =>
    refine List.forall_mem_append.mpr ⟨hc, hself _⟩
  | overwritten =>
    exact List.forall_mem_append.mpr ⟨List.forall_mem_append.mpr ⟨hc, hself _⟩, hpackets _ _⟩
  | awaited _ _ _ _ _ _ _ joins =>
    refine List.forall_mem_append.mpr ⟨List.forall_mem_append.mpr
      ⟨List.forall_mem_append.mpr ⟨hc, hself _⟩, fun q hq => ?_⟩, hpackets _ _⟩
    cases joins with
    | merged => cases hq
    | requested =>
      rw [List.mem_singleton.mp hq]
      simp only [Cache.waiter]
      split
      · rfl
      · exact hmf

structure AtomicsInv (u : LdstUnit) (tr : List LdstEvent) : Prop where
  accessed : ∀ mf, .accessed mf ∈ tr → mf.isAtomic = false
  filled : ∀ mf, .filled mf ∈ tr → mf.isAtomic = false
  sent : ∀ q ∈ u.l1d.missQueue, q.isAtomic = false
  balance : ∀ mf, mf.isAtomic = true →
    u.queued.count mf + tr.count (.toTlb mf) = tr.count (.pushed mf)

/-- A step shows no atomic to the cache and keeps the balance. -/
theorem AtomicsInv.extend (h : AtomicsInv u tr)
    (haccessed : ∀ mf, .accessed mf ∈ ev → mf.isAtomic = false)
    (hfilled : ∀ mf, .filled mf ∈ ev → mf.isAtomic = false)
    (hsent : ∀ q ∈ u'.l1d.missQueue, q.isAtomic = false)
    (hbalance : ∀ mf, mf.isAtomic = true → u'.queued.count mf + ev.count (.toTlb mf) =
      u.queued.count mf + ev.count (.pushed mf)) : AtomicsInv u' (tr ++ ev) := by
  refine ⟨fun mf hmf => ?_, fun mf hmf => ?_, hsent, fun mf hmf => ?_⟩
  · exact (List.mem_append.mp hmf).elim (h.accessed mf) (haccessed mf)
  · exact (List.mem_append.mp hmf).elim (h.filled mf) (hfilled mf)
  · have hold := h.balance mf hmf
    have hnew := hbalance mf hmf
    rw [List.count_append, List.count_append]
    omega

/-- Nothing happens that concerns atomics. -/
theorem AtomicsInv.quiet (h : AtomicsInv u tr) (hsent : u'.l1d.missQueue = u.l1d.missQueue)
    (hqueued : u'.queued = u.queued)
    (hev : ∀ mf, .accessed mf ∉ ev ∧ .toTlb mf ∉ ev ∧ .pushed mf ∉ ev ∧
      (.filled mf ∈ ev → mf.isAtomic = false)) : AtomicsInv u' (tr ++ ev) := by
  refine h.extend (fun mf hmf => absurd hmf (hev mf).1) (fun mf => (hev mf).2.2.2)
    (hsent ▸ h.sent) fun mf _ => ?_
  rw [hqueued, List.count_eq_zero.mpr (hev mf).2.1, List.count_eq_zero.mpr (hev mf).2.2.1]

theorem AtomicsInv.inst (h : AtomicsInv u tr) (hnum : Numbered cfg u tr) {inst : NdpInstruction}
    {addrs : List (BitVec 64)} {context : LdstContext}
    (hs : u.processLdstInst cfg inst addrs context = .ok (u', ev)) :
    AtomicsInv u' (tr ++ ev) := by
  obtain ⟨rfl, rfl⟩ | ⟨delay, loads, finished, rfl, rfl⟩ := processLdstInst_cases hs
  · simpa using h
  refine h.extend (by simp) (by simp) h.sent fun mf _ => ?_
  have hqueued := queued_enqueue delay (u.requestsOf cfg inst addrs) hnum.banks
  have hcount : ((u.requestsOf cfg inst addrs).map LdstEvent.pushed).count (.pushed mf) =
      (u.requestsOf cfg inst addrs).count mf :=
    List.count_map_of_injective _ _ (fun _ _ => LdstEvent.pushed.inj) mf
  have hnone : ((u.requestsOf cfg inst addrs).map LdstEvent.pushed).count (.toTlb mf) = 0 :=
    List.count_eq_zero.mpr (by simp)
  change (u.enqueue cfg delay (u.requestsOf cfg inst addrs)).queued.count mf + _ = _
  rw [hqueued, hcount, hnone, Multiset.count_add, Multiset.coe_count]
  omega

theorem AtomicsInv.coreToL1 (h : AtomicsInv u tr) {bank time : Nat}
    (hopen : BypassOpen cfg u (.coreToL1 bank time))
    (hs : u.coreToL1 cfg bank time = .ok (u', ev)) : AtomicsInv u' (tr ++ ev) := by
  obtain ⟨-, rfl, rfl⟩ | ⟨mf, hhead, ⟨hatomic, -, rfl, rfl⟩ | ⟨hfull, status, events, l1d, shown,
    haccess, hafter, rfl⟩⟩ := coreToL1_cases hs
  · simpa using h
  · have hpop := queued_popBank hhead
    refine h.extend (by simp) (by simp) h.sent fun mf' _ => ?_
    change (u.popBank bank).queued.count mf' + _ = _
    rw [hpop, Multiset.count_cons]
    by_cases heq : mf' = mf
    · simp [heq]
    · simp [heq, Ne.symm heq]
  · -- an atomic would have taken the bypass
    have hmf : mf.isAtomic = false := by
      refine Bool.eq_false_iff.mpr fun hatomic => ?_
      have hroom := hopen mf hhead hatomic
      simp [hfull hatomic] at hroom
    have hsent := nonatomic_of_access haccess hmf h.sent
    have hpop := queued_popBank hhead
    have hshown : ∀ mf', .accessed mf' ∉ shown ∧ .filled mf' ∉ shown ∧ .toTlb mf' ∉ shown ∧
        .pushed mf' ∉ shown := by
      obtain ⟨-, -, rfl⟩ | ⟨-, -, hresp⟩ | ⟨-, -, -, rfl⟩ := afterAccess_cases hafter
      · simp
      · obtain ⟨loads, finished, -, rfl⟩ := handleResponse_cases hresp
        simp
      · simp
    have hqueued : ∀ mf', mf'.isAtomic = true → u'.queued.count mf' = u.queued.count mf' := by
      intro mf' hatomic
      have hne : mf' ≠ mf := by
        rintro rfl
        simp [hmf] at hatomic
      obtain ⟨-, rfl, -⟩ | ⟨-, -, hresp⟩ | ⟨-, -, rfl, -⟩ := afterAccess_cases hafter
      · rfl
      · obtain ⟨loads, finished, rfl, -⟩ := handleResponse_cases hresp
        rw [hpop, Multiset.count_cons_of_ne hne]
        rfl
      · rw [hpop, Multiset.count_cons_of_ne hne]
        rfl
    refine h.extend (fun mf' hmem => ?_) (fun mf' hmem => ?_) ?_ fun mf' hatomic => ?_
    · obtain heq | hmem := List.mem_cons.mp hmem
      · rw [LdstEvent.accessed.inj heq, hmf]
      · exact absurd hmem (hshown mf').1
    · obtain heq | hmem := List.mem_cons.mp hmem
      · cases heq
      · exact absurd hmem (hshown mf').2.1
    · rw [(afterAccess_l1d hafter).1]
      exact hsent
    · rw [hqueued mf' hatomic, List.count_cons_of_ne (by simp), List.count_cons_of_ne (by simp),
        List.count_eq_zero.mpr (hshown mf').2.2.1, List.count_eq_zero.mpr (hshown mf').2.2.2]

theorem AtomicsInv.step (h : AtomicsInv u tr) (hnum : Numbered cfg u tr) {op : Op}
    (hopen : BypassOpen cfg u op) (hs : u.step cfg op = .ok (u', ev)) :
    AtomicsInv u' (tr ++ ev) := by
  cases op with
  | inst inst addrs context => exact h.inst hnum hs
  | coreToL1 bank time => exact h.coreToL1 hopen hs
  | l1ToCore =>
    simp only [LdstUnit.step, l1ToCore] at hs
    split at hs
    · obtain ⟨⟨mf, l1d⟩, hpop, hs⟩ := bind_eq_ok.mp hs
      obtain ⟨B, rest, e, hpops⟩ := Cache.popNextAccess_cases hpop
      obtain ⟨loads, finished, rfl, rfl⟩ := handleResponse_cases hs
      exact h.quiet hpops.queue rfl (by simp)
    · obtain ⟨rfl, rfl⟩ := Prod.mk.inj (Except.ok.inj hs)
      simpa using h
  | l1ToTlb full =>
    obtain ⟨rfl, rfl⟩ := Prod.mk.inj (Except.ok.inj hs)
    unfold l1ToTlb
    split
    · simpa using h
    · split
      · simpa using h
      · exact h.quiet rfl rfl (by simp)
  | l1dCycle =>
    have hs := Except.ok.inj hs
    obtain hidle | ⟨q, rest, hq, hsend⟩ := l1dCycle_cases cfg u
    · obtain ⟨rfl, rfl⟩ := Prod.mk.inj (hidle.symm.trans hs)
      simpa using h
    · obtain ⟨rfl, rfl⟩ := Prod.mk.inj (hsend.symm.trans hs)
      have hmem := h.sent
      rw [hq] at hmem
      obtain ⟨hqa, hrest⟩ := List.forall_mem_cons.mp hmem
      refine h.extend (by simp) (by simp) hrest fun mf hatomic => ?_
      have hne : q ≠ mf := by
        rintro rfl
        simp [hqa] at hatomic
      rw [List.count_eq_zero.mpr (by simpa using hne.symm), List.count_eq_zero.mpr (by simp)]
      rfl
  | latencyCycle =>
    obtain ⟨rfl, rfl⟩ := Prod.mk.inj (Except.ok.inj hs)
    exact h.quiet rfl (queued_cycle u) (by simp)
  | fromMem mf time =>
    obtain ⟨hmf, -, ⟨l1d, hfill, rfl⟩, rfl⟩ | ⟨-, -, -, -, rfl, rfl⟩ | ⟨-, hs⟩ :=
      handleFromMem_cases hs
    · obtain ⟨f, hfills⟩ := Cache.fill_cases hfill
      refine h.quiet hfills.queue rfl fun mf' => ⟨by simp, by simp, by simp, fun hmem => ?_⟩
      rw [LdstEvent.filled.inj (List.mem_singleton.mp hmem), hmf]
    · exact h.quiet rfl rfl (by simp)
    · obtain ⟨loads, finished, rfl, rfl⟩ := handleResponse_cases hs
      exact h.quiet rfl rfl (by simp)
  | writeback subCoreId =>
    obtain ⟨rfl, rfl⟩ := Prod.mk.inj (Except.ok.inj hs)
    exact h.quiet rfl rfl (by simp)

end LdstUnit

end NdpSim
