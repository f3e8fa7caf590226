import NdpSim.Timing.NdpRamulator

/-!
# The L2 cache replies to every request

As long as the cache keeps every write it is given, a request from the crossbar is replied to once
and the return queue of the DRAM never gets stuck. A write that is sent on comes back as an
acknowledgement that nobody takes.
-/
namespace NdpSim

open Library

namespace L2Channel

/-! ## Where the requests are -/

def waiting (u : L2Channel) : Multiset MemFetch :=
  (u.fromCrossbar.map Multiset.ofList).sum

/-- The replies on their way to the crossbar, also those that are held. -/
def replying (u : L2Channel) : Multiset MemFetch :=
  (u.latency.map fun q => (q.items : Multiset MemFetch)).sum +
    (u.toCrossbarBi.map Multiset.ofList).sum + u.pendingLds.map HeldReply.mf

/-- The requests to be replied to. -/
def holds (u : L2Channel) : Multiset MemFetch := u.waiting + u.cache.waiters + u.replying

/-- What is on its way to the DRAM and back. -/
def transit (u : L2Channel) : Multiset MemFetch :=
  u.cache.missQueue + (u.toMem + (u.dram + (u.returned : Multiset MemFetch)))

structure Drained (u : L2Channel) : Prop where
  waiting : u.waiting = 0
  replying : u.replying = 0
  response : u.cache.currentResponse = []
  transit : u.transit = 0

/-- No write is at the head of a queue that the cache passes on. -/
def KeepsWrites (cfg : L2Config) (u : L2Channel) : Op → Prop
  | .ndpToCache bank _ => ∀ mf rest, u.fromCrossbar[bank]? = some (mf :: rest) →
      Cache.sendsWrite cfg.cache u.cache mf = false
  | _ => True

structure ReplyInv (cfg : L2Config) (u : L2Channel) (tr : List L2Event) : Prop where
  tracked : Cache.Tracked cfg.cache u.cache
  asked : Cache.Asked u.cache
  banks : u.fromCrossbar.length = cfg.numBanks ∧ u.latency.length = cfg.numBanks
  biBanks : u.toCrossbarBi.length = cfg.numBanks ∧ ∀ r ∈ u.pendingLds, r.bank < cfg.numBanks
  numbered : ∀ mf, .pushed mf ∈ tr → mf.id ∈ u.requests
  id_lt : ∀ id ∈ u.requests, id < u.cache.uid
  unique : ∀ mf mf', .pushed mf ∈ tr → .pushed mf' ∈ tr → mf.id = mf'.id → mf = mf'
  queue : ∀ q ∈ u.waiting, .pushed q ∈ tr
  replied : ∀ mf, .replied mf ∈ tr → mf.id < u.cache.uid
  balance : ∀ mf, .pushed mf ∈ tr → tr.count (.replied mf) + u.holds.count mf = 1
  held : ∀ q ∈ u.holds, .pushed q ∈ tr ∨ q.id ∉ u.requests ∧ q.id < u.cache.uid
  fetches : (u.transit.filter fun q => q.isWrite = false).map MemFetch.id =
    u.cache.extraMfFields.keys
  back : ∀ q ∈ u.transit, q.isWrite = true →
    q.id ∉ u.requests ∧ q.id < u.cache.uid ∧ q.id ∉ u.cache.extraMfFields.keys

variable {cfg : L2Config} {u u' : L2Channel} {tr ev : List L2Event} {mf : MemFetch}

/-- A step that brings no request. -/
theorem ReplyInv.move (h : ReplyInv cfg u tr) (hquiet : ∀ mf, .pushed mf ∉ ev)
    (htracked : Cache.Tracked cfg.cache u'.cache) (hasked : Cache.Asked u'.cache)
    (hbanks : u'.fromCrossbar.length = u.fromCrossbar.length ∧
      u'.latency.length = u.latency.length)
    (hbi : u'.toCrossbarBi.length = cfg.numBanks ∧ ∀ r ∈ u'.pendingLds, r.bank < cfg.numBanks)
    (hrequests : u'.requests = u.requests) (huid : u.cache.uid ≤ u'.cache.uid)
    (hwaiting : u'.waiting ≤ u.waiting)
    (hreplied : ∀ mf, .replied mf ∈ ev → mf ∈ u.holds)
    (hbalance : ∀ mf, .pushed mf ∈ tr →
      ev.count (.replied mf) + u'.holds.count mf = u.holds.count mf)
    (hheld : ∀ q ∈ u'.holds, q ∈ u.holds ∨ u.cache.uid ≤ q.id ∧ q.id < u'.cache.uid)
    (hfetches : (u'.transit.filter fun q => q.isWrite = false).map MemFetch.id =
      u'.cache.extraMfFields.keys)
    (hback : ∀ q ∈ u'.transit, q.isWrite = true → q.id ∉ u'.cache.extraMfFields.keys ∧
      (q ∈ u.transit ∨ u.cache.uid ≤ q.id ∧ q.id < u'.cache.uid)) :
    ReplyInv cfg u' (tr ++ ev) := by
  have hpushed : ∀ mf, .pushed mf ∈ tr ++ ev ↔ .pushed mf ∈ tr := by simp [hquiet]
  have hnew : ∀ id, u.cache.uid ≤ id → id ∉ u.requests :=
    fun id hle hmem => absurd (h.id_lt id hmem) (Nat.not_lt.mpr hle)
  have hlt : ∀ q ∈ u.holds, q.id < u.cache.uid := by
    intro q hq
    obtain hq | ⟨-, hq⟩ := h.held q hq
    · exact h.id_lt _ (h.numbered q hq)
    · exact hq
  constructor
  case tracked => exact htracked
  case asked => exact hasked
  case banks => exact ⟨hbanks.1.trans h.banks.1, hbanks.2.trans h.banks.2⟩
  case biBanks => exact hbi
  case numbered =>
    intro mf hmf
    rw [hrequests]
    exact h.numbered mf ((hpushed mf).mp hmf)
  case id_lt =>
    rw [hrequests]
    exact fun id hid => (h.id_lt id hid).trans_le huid
  case unique =>
    exact fun mf mf' hmf hmf' => h.unique mf mf' ((hpushed mf).mp hmf) ((hpushed mf').mp hmf')
  case queue =>
    exact fun q hq => (hpushed q).mpr (h.queue q (Multiset.mem_of_le hwaiting hq))
  case replied =>
    intro mf hmf
    obtain hmf | hmf := List.mem_append.mp hmf
    · exact (h.replied mf hmf).trans_le huid
    · exact (hlt mf (hreplied mf hmf)).trans_le huid
  case balance =>
    intro mf hmf
    have hold := h.balance mf ((hpushed mf).mp hmf)
    have hstep := hbalance mf ((hpushed mf).mp hmf)
    rw [List.count_append]
    omega
  case held =>
    intro q hq
    rw [hrequests]
    obtain hq | ⟨hle, hq⟩ := hheld q hq
    · obtain hq | ⟨hout, hq⟩ := h.held q hq
      · exact .inl ((hpushed q).mpr hq)
      · exact .inr ⟨hout, hq.trans_le huid⟩
    · exact .inr ⟨hnew _ hle, hq⟩
  case fetches => exact hfetches
  case back =>
    intro q hq hwrite
    rw [hrequests]
    obtain ⟨hkey, hq | ⟨hle, hq⟩⟩ := hback q hq hwrite
    · obtain ⟨hout, hq, -⟩ := h.back q hq hwrite
      exact ⟨hout, hq.trans_le huid, hkey⟩
    · exact ⟨hnew _ hle, hq, hkey⟩

/-! ## The queues -/

theorem waiting_pop {bank : Nat} {rest : List MemFetch}
    (h : u.fromCrossbar[bank]? = some (mf :: rest)) :
    u.waiting = mf ::ₘ (u.popFromCrossbar bank).waiting := by
  have hsum := sum_map_modify (g := Multiset.ofList) (f := List.tail) h
  simp only [List.tail_cons, ← Multiset.cons_coe, Multiset.cons_add] at hsum
  rw [← Multiset.add_cons, add_left_cancel_iff] at hsum
  exact hsum.symm

theorem waiting_push (mf : MemFetch) {bank : Nat} {queue : List MemFetch}
    (h : u.fromCrossbar[bank]? = some queue) :
    waiting { u with fromCrossbar := u.fromCrossbar.modify bank (· ++ [mf]) } =
      mf ::ₘ u.waiting := by
  have hsum := sum_map_modify (g := Multiset.ofList) (f := (· ++ [mf])) h
  rw [← Multiset.coe_add, add_assoc, add_left_cancel_iff] at hsum
  exact hsum

theorem replying_push {bank : Nat} {queue : DelayQueue MemFetch}
    (h : u.latency[bank]? = some queue) :
    (u.pushLatency cfg bank mf).replying = mf ::ₘ u.replying := by
  have hsum := DelayQueue.sum_items_push h mf cfg.hitLatency
  change (((u.pushLatency cfg bank mf).latency.map fun q =>
    (q.items : Multiset MemFetch)).sum + _) + _ = _
  rw [pushLatency, hsum, Multiset.cons_add, Multiset.cons_add]
  rfl

theorem replying_pop {bank : Nat} (h : u.latency[bank]?.bind DelayQueue.top? = some mf) :
    u.replying = mf ::ₘ (u.popLatency bank).replying := by
  rw [replying, DelayQueue.sum_items_pop h, Multiset.cons_add, Multiset.cons_add]
  rfl

theorem replying_cycle (u : L2Channel) (bank : Nat) :
    replying { u with latency := u.latency.modify bank DelayQueue.cycle } = u.replying := by
  cases hq : u.latency[bank]? with
  | none =>
    have hlen := List.getElem?_eq_none_iff.mp hq
    simp only [replying, List.modify_eq_self hlen]
  | some q =>
    have hsum := sum_map_modify (g := fun q => (q.items : Multiset MemFetch))
      (f := DelayQueue.cycle) hq
    rw [DelayQueue.items_cycle, add_left_cancel_iff] at hsum
    simp only [replying, hsum]

theorem sum_push {queues : List (List MemFetch)} {bank : Nat} (h : bank < queues.length)
    (mf : MemFetch) : ((queues.modify bank (· ++ [mf])).map Multiset.ofList).sum =
      mf ::ₘ (queues.map Multiset.ofList).sum := by
  have hsum := sum_map_modify (g := Multiset.ofList) (f := (· ++ [mf]))
    (List.getElem?_eq_getElem h)
  rw [← Multiset.coe_add, add_assoc, add_left_cancel_iff] at hsum
  exact hsum

/-- Replies that are put into the queues of their banks. -/
theorem sum_pushAll {rs : List HeldReply} {queues : List (List MemFetch)}
    (h : ∀ r ∈ rs, r.bank < queues.length) :
    ((rs.foldl (fun queues r => queues.modify r.bank (· ++ [r.mf])) queues).map
      Multiset.ofList).sum = rs.map HeldReply.mf + (queues.map Multiset.ofList).sum := by
  induction rs generalizing queues with
  | nil => exact (zero_add _).symm
  | cons r rs ih =>
    obtain ⟨hr, hrs⟩ := List.forall_mem_cons.mp h
    rw [List.foldl_cons, ih (fun r' hr' => (List.length_modify ..).symm ▸ hrs r' hr'),
      sum_push hr, List.map_cons, ← Multiset.cons_coe, Multiset.cons_add, Multiset.add_cons]

theorem length_pushAll (rs : List HeldReply) (queues : List (List MemFetch)) :
    (rs.foldl (fun queues r => queues.modify r.bank (· ++ [r.mf])) queues).length =
      queues.length := by
  induction rs generalizing queues with
  | nil => rfl
  | cons r rs ih => rw [List.foldl_cons, ih, List.length_modify]

/-- Held replies are still replies on their way once they are released. -/
theorem replying_release (h : ∀ r ∈ u.pendingLds, r.bank < u.toCrossbarBi.length) (unit : Nat) :
    (u.release unit).replying = u.replying := by
  have hbanks : ∀ r ∈ u.pendingLds.filter (fun r => r.unit = unit),
      r.bank < u.toCrossbarBi.length := fun r hr => h r (List.mem_of_mem_filter hr)
  have hsum := sum_pushAll hbanks
  have hsplit :
      ((u.pendingLds.filter fun r => r.unit = unit).map HeldReply.mf : Multiset MemFetch) +
        (u.pendingLds.filter fun r => r.unit ≠ unit).map HeldReply.mf =
          u.pendingLds.map HeldReply.mf := by
    have hperm := (List.filter_append_perm (fun r : HeldReply => r.unit = unit)
      u.pendingLds).map HeldReply.mf
    rw [List.map_append] at hperm
    rw [Multiset.coe_add]
    simpa [decide_not] using Multiset.coe_eq_coe.mpr hperm
  rw [replying, replying, ← hsplit, release]
  simp only [hsum]
  abel

/-! ## What the steps keep -/

/-- Nothing happens to the requests but that they change places. -/
theorem ReplyInv.shift (h : ReplyInv cfg u tr) (hcache : u'.cache.extraMfFields =
      u.cache.extraMfFields) (htracked : Cache.Tracked cfg.cache u'.cache)
    (hasked : Cache.Asked u'.cache) (huid : u'.cache.uid = u.cache.uid)
    (hbanks : u'.fromCrossbar.length = u.fromCrossbar.length ∧
      u'.latency.length = u.latency.length)
    (hbi : u'.toCrossbarBi.length = cfg.numBanks ∧ ∀ r ∈ u'.pendingLds, r.bank < cfg.numBanks)
    (hrequests : u'.requests = u.requests)
    (hwaiting : u'.waiting ≤ u.waiting) (hholds : u'.holds = u.holds)
    (htransit : u'.transit = u.transit) : ReplyInv cfg u' tr := by
  rw [← List.append_nil tr]
  refine h.move (by simp) htracked hasked hbanks hbi hrequests huid.ge hwaiting (by simp)
    (fun mf _ => by simp [hholds]) (fun q hq => .inl (hholds ▸ hq)) ?_ ?_
  · rw [htransit, hcache]
    exact h.fetches
  · rw [htransit, hcache]
    exact fun q hq hwrite => ⟨(h.back q hq hwrite).2.2, .inl hq⟩

theorem ReplyInv.adds (h : ReplyInv cfg u tr) {made fetch back : List MemFetch}
    (hadds : Cache.Adds u.cache u'.cache made fetch back)
    (htracked : Cache.Tracked cfg.cache u'.cache) (hasked : Cache.Asked u'.cache)
    (huid : u.cache.uid ≤ u'.cache.uid)
    (hbanks : u'.fromCrossbar.length = u.fromCrossbar.length ∧
      u'.latency.length = u.latency.length) (hrequests : u'.requests = u.requests)
    (hwaiting : u'.waiting ≤ u.waiting)
    (hbalance : ∀ mf, .pushed mf ∈ tr → u'.holds.count mf = u.holds.count mf)
    (hheld : ∀ q ∈ u'.holds, q ∈ u.holds ∨ u.cache.uid ≤ q.id ∧ q.id < u'.cache.uid)
    (hmade : ∀ w ∈ made, w.id ∈ u.requests ∨ u.cache.uid ≤ w.id)
    (hrest : u'.toMem = u.toMem ∧ u'.dram = u.dram ∧ u'.returned = u.returned ∧
      u'.toCrossbarBi = u.toCrossbarBi ∧ u'.pendingLds = u.pendingLds) :
    ReplyInv cfg u' tr := by
  obtain ⟨htoMem, hdram, hreturned, hbi, hpending⟩ := hrest
  have htransit : u'.transit = u.transit + fetch + back := by
    rw [transit, transit, hadds.queue, htoMem, hdram, hreturned, ← Multiset.coe_add,
      ← Multiset.coe_add]
    abel
  have hfetch : (fetch : Multiset MemFetch).filter (fun q => q.isWrite = false) = fetch :=
    Multiset.filter_eq_self.mpr fun q hq => (hadds.fetch q (Multiset.mem_coe.mp hq)).1
  have hback : (back : Multiset MemFetch).filter (fun q => q.isWrite = false) = 0 :=
    Multiset.filter_eq_nil.mpr fun q hq => by
      simp [hadds.back.isWrite q (Multiset.mem_coe.mp hq)]
  rw [← List.append_nil tr]
  refine h.move (by simp) htracked hasked hbanks (by rw [hbi, hpending]; exact h.biBanks) hrequests
    huid hwaiting (by simp) (fun mf hmf => by simp [hbalance mf hmf]) hheld ?_ fun q hq hwrite => ?_
  · rw [htransit, Multiset.filter_add, Multiset.filter_add, hfetch, hback, add_zero,
      Multiset.map_add, h.fetches, hadds.keys, add_comm, Multiset.map_coe, Multiset.coe_add]
  · rw [htransit] at hq
    rw [hadds.keys]
    obtain hq | hq := Multiset.mem_add.mp hq
    · obtain hq | hq := Multiset.mem_add.mp hq
      · obtain ⟨hout, hlt, hkey⟩ := h.back q hq hwrite
        refine ⟨fun hmem => ?_, .inl hq⟩
        obtain hmem | hmem := List.mem_append.mp hmem
        · obtain ⟨r, hr, heq⟩ := List.mem_map.mp hmem
          obtain ⟨-, w, hw, hid⟩ := hadds.fetch r hr
          obtain hreq | hle := hmade w hw
          · rw [hid, heq] at hreq
            exact hout hreq
          · omega
        · exact hkey hmem
      · simp [(hadds.fetch q (Multiset.mem_coe.mp hq)).1] at hwrite
    · have hq := Multiset.mem_coe.mp hq
      have hle := hadds.back.le_id q hq
      refine ⟨fun hmem => ?_, .inr ⟨hle, hadds.back.id_lt q hq⟩⟩
      obtain hmem | hmem := List.mem_append.mp hmem
      · obtain ⟨r, hr, heq⟩ := List.mem_map.mp hmem
        obtain ⟨-, w, hw, hid⟩ := hadds.fetch r hr
        exact hadds.apart q hq w hw (heq.symm.trans hid.symm)
      · rw [← AList.mem_keys, ← AList.lookup_isSome] at hmem
        obtain ⟨f, hf⟩ := Option.isSome_iff_exists.mp hmem
        have := h.tracked.id_lt _ f hf
        omega

theorem ReplyInv.id_lt_of_held (h : ReplyInv cfg u tr) {q : MemFetch} (hq : q ∈ u.holds) :
    q.id < u.cache.uid := by
  obtain hq | ⟨-, hq⟩ := h.held q hq
  · exact h.id_lt _ (h.numbered q hq)
  · exact hq

theorem ReplyInv.push (h : ReplyInv cfg u tr) {bank : Nat}
    (hs : u.push cfg mf bank = .ok (u', ev)) : ReplyInv cfg u' (tr ++ ev) := by
  unfold L2Channel.push at hs
  split at hs
  case h_1 => cases hs
  case h_2 queue hqueue =>
  split at hs
  · cases hs
  obtain ⟨rfl, rfl⟩ := Prod.mk.inj (Except.ok.inj hs)
  set new : MemFetch := { mf with id := u.cache.uid } with hnew
  have hwaiting := waiting_push new hqueue
  have hholds : holds { u with
      fromCrossbar := u.fromCrossbar.modify bank (· ++ [new])
      cache := { u.cache with uid := u.cache.uid + 1 }
      requests := u.cache.uid :: u.requests } = new ::ₘ u.holds := by
    change waiting { u with fromCrossbar := u.fromCrossbar.modify bank (· ++ [new]) } +
      u.cache.waiters + u.replying = _
    rw [hwaiting, Multiset.cons_add, Multiset.cons_add]
    rfl
  have hpushed : ∀ q, .pushed q ∈ tr ++ [L2Event.pushed new] ↔ .pushed q ∈ tr ∨ q = new := by simp
  have hold : ∀ q, .pushed q ∈ tr → q.id < u.cache.uid :=
    fun q hq => h.id_lt _ (h.numbered q hq)
  constructor
  case tracked => exact h.tracked.of_eq rfl (Nat.le_succ _) (fun _ => Iff.rfl) rfl
  case asked => exact h.asked.of_eq rfl rfl
  case banks => exact ⟨(List.length_modify _ _ _).trans h.banks.1, h.banks.2⟩
  case biBanks => exact h.biBanks
  case numbered =>
    intro q hq
    obtain hq | rfl := (hpushed q).mp hq
    · exact List.mem_cons_of_mem _ (h.numbered q hq)
    · exact List.mem_cons_self
  case id_lt =>
    intro id hid
    obtain rfl | hid := List.mem_cons.mp hid
    · exact Nat.lt_succ_self _
    · exact (h.id_lt id hid).trans (Nat.lt_succ_self _)
  case unique =>
    intro q q' hq hq' hid
    obtain hq | rfl := (hpushed q).mp hq <;> obtain hq' | rfl := (hpushed q').mp hq'
    · exact h.unique q q' hq hq' hid
    · exact absurd hid (hold q hq).ne
    · exact absurd hid (hold q' hq').ne'
    · rfl
  case queue =>
    intro q hq
    change q ∈ waiting { u with fromCrossbar := u.fromCrossbar.modify bank (· ++ [new]) } at hq
    rw [hwaiting] at hq
    obtain rfl | hq := Multiset.mem_cons.mp hq
    · exact (hpushed new).mpr (.inr rfl)
    · exact (hpushed q).mpr (.inl (h.queue q hq))
  case replied =>
    intro q hq
    have hq : .replied q ∈ tr := by simpa using hq
    exact (h.replied q hq).trans (Nat.lt_succ_self _)
  case balance =>
    intro q hq
    rw [hholds, List.count_append, List.count_singleton, if_neg (by simp), add_zero]
    obtain hq | rfl := (hpushed q).mp hq
    · have hne : q ≠ new := fun heq => absurd (congrArg MemFetch.id heq) (hold q hq).ne
      rw [Multiset.count_cons_of_ne hne]
      exact h.balance q hq
    · have hnone : u.holds.count new = 0 :=
        Multiset.count_eq_zero.mpr fun hmem => absurd (h.id_lt_of_held hmem) (lt_irrefl _)
      have hsilent : tr.count (.replied new) = 0 :=
        List.count_eq_zero.mpr fun hmem => absurd (h.replied new hmem) (lt_irrefl _)
      rw [Multiset.count_cons_self, hnone, hsilent]
  case held =>
    intro q hq
    rw [hholds] at hq
    obtain rfl | hq := Multiset.mem_cons.mp hq
    · exact .inl ((hpushed new).mpr (.inr rfl))
    · obtain hq | ⟨hout, hlt⟩ := h.held q hq
      · exact .inl ((hpushed q).mpr (.inl hq))
      · exact .inr ⟨by simp [hout, hlt.ne], hlt.trans (Nat.lt_succ_self _)⟩
  case fetches => exact h.fetches
  case back =>
    intro q hq hwrite
    obtain ⟨hout, hlt, hkey⟩ := h.back q hq hwrite
    exact ⟨by simp [hout, hlt.ne], hlt.trans (Nat.lt_succ_self _), hkey⟩

/-- A request at the head of its queue has no read under way. -/
theorem ReplyInv.fresh (h : ReplyInv cfg u tr) {rest : Multiset MemFetch}
    (hwaiting : u.waiting = mf ::ₘ rest) : mf.id ∉ u.cache.extraMfFields.keys := by
  intro hid
  have hmem : mf ∈ u.waiting := by
    rw [hwaiting]
    exact Multiset.mem_cons_self _ _
  have hpushed := h.queue mf hmem
  rw [← AList.mem_keys, ← AList.lookup_isSome] at hid
  obtain ⟨f, hf⟩ := Option.isSome_iff_exists.mp hid
  obtain ⟨heq, e, he, hwaits⟩ := h.asked _ f hf
  have hwaiter := Cache.mem_waiters he hwaits
  -- the request that asked is the same one, which would be held twice
  obtain hf' | ⟨hout, -⟩ := h.held f.mf (by simp [holds, hwaiter])
  · obtain rfl := h.unique _ _ hf' hpushed heq
    have hbalance := h.balance _ hpushed
    have h₁ := Multiset.count_pos.mpr hmem
    have h₂ := Multiset.count_pos.mpr hwaiter
    rw [holds, Multiset.count_add, Multiset.count_add] at hbalance
    omega
  · rw [heq] at hout
    exact hout (h.numbered mf hpushed)

/-- What `afterAccess` does with a request that the cache keeps. -/
theorem afterAccess_cases {bank : Nat} {status : CacheRequestStatus} {events : List CacheEvent}
    {c : Cache} (hkeeps : Cache.Keeps cfg.cache c mf status events u.cache)
    (hs : u.afterAccess cfg bank mf status events = .ok u') :
    (∃ made fetch back, Cache.Adds c u.cache made fetch back ∧
      (∀ w ∈ made, c.uid ≤ w.id ∧ w.id < u.cache.uid) ∧ u' = u) ∨
    (∃ back, Cache.Adds c u.cache [] [] back ∧
      u' = (u.pushLatency cfg bank mf).popFromCrossbar bank) ∨
    ∃ fetch back, Cache.Adds c u.cache [mf] fetch back ∧ u' = u.popFromCrossbar bank := by
  cases hkeeps with
  | @refused made fetch back hstatus adds hmade =>
    simp only [afterAccess, hstatus] at hs
    split at hs
    · cases hs
    · obtain rfl := Except.ok.inj hs
      exact .inl ⟨made, fetch, back, adds, hmade, rfl⟩
  | hit hstatus quiet adds =>
    simp only [afterAccess, hstatus, quiet, if_false] at hs
    obtain rfl := Except.ok.inj hs
    exact .inr (.inl ⟨[], adds, rfl⟩)
  | @overwritten back hstatus write policy adds =>
    simp only [afterAccess, hstatus, write, policy, true_and, or_true, if_true] at hs
    obtain rfl := Except.ok.inj hs
    exact .inr (.inl ⟨back, adds, rfl⟩)
  | @waits fetch back hstatus read adds =>
    simp only [afterAccess, hstatus, read, Bool.false_eq_true, false_and, if_false] at hs
    obtain rfl := Except.ok.inj hs
    exact .inr (.inr ⟨fetch, back, adds, rfl⟩)

theorem ReplyInv.ndpToCache (h : ReplyInv cfg u tr) {bank time : Nat}
    (hok : KeepsWrites cfg u (.ndpToCache bank time))
    (hs : u.ndpToCache cfg bank time = .ok u') : ReplyInv cfg u' tr := by
  unfold L2Channel.ndpToCache at hs
  split at hs
  case h_2 =>
    obtain rfl := Except.ok.inj hs
    exact h
  case h_1 mf rest hqueue =>
  obtain ⟨⟨status, events, cache⟩, haccess, hs⟩ := bind_eq_ok.mp hs
  have hpop := waiting_pop hqueue
  have hle : (u.popFromCrossbar bank).waiting ≤ u.waiting := by
    rw [hpop]
    exact Multiset.le_cons_self _ _
  have hpushed : .pushed mf ∈ tr := h.queue mf (by rw [hpop]; exact Multiset.mem_cons_self _ _)
  have hreq := h.numbered mf hpushed
  have hid := h.id_lt _ hreq
  have hfresh := h.fresh hpop
  have hids : ∀ id ∈ u.cache.extraMfFields.keys, id < u.cache.uid := by
    intro id hmem
    rw [← AList.mem_keys, ← AList.lookup_isSome] at hmem
    obtain ⟨f, hf⟩ := Option.isSome_iff_exists.mp hmem
    exact h.tracked.id_lt _ f hf
  have hkeeps := Cache.keeps_of_access (hok mf rest hqueue) hid hfresh hids haccess
  have htracked := h.tracked.access hid (AList.lookup_eq_none.mpr hfresh) haccess
  have hasked := h.asked.access haccess
  have huid := (Cache.effect_access haccess).frame.uid
  obtain ⟨queue, hlatency⟩ : ∃ queue, u.latency[bank]? = some queue := by
    have hlt := (List.getElem?_eq_some_iff.mp hqueue).1
    rw [h.banks.1, ← h.banks.2] at hlt
    exact ⟨_, List.getElem?_eq_getElem hlt⟩
  obtain ⟨made, fetch, back, hadds, hmade, rfl⟩ | ⟨back, hadds, rfl⟩ | ⟨fetch, back, hadds, rfl⟩ :=
    afterAccess_cases hkeeps hs
  · have hholds : holds { u with cache := cache } = made + u.holds := by
      change u.waiting + cache.waiters + u.replying = _
      rw [hadds.waiters, holds]
      abel
    refine h.adds hadds htracked hasked huid ⟨rfl, rfl⟩ rfl le_rfl (fun q hq => ?_) (fun q hq => ?_)
      (fun w hw => .inr (hmade w hw).1) ⟨rfl, rfl, rfl, rfl, rfl⟩
    · have hnone : (made : Multiset MemFetch).count q = 0 := by
        refine Multiset.count_eq_zero.mpr fun hmem => ?_
        have hlt := h.id_lt _ (h.numbered q hq)
        have hnew := (hmade q (Multiset.mem_coe.mp hmem)).1
        omega
      rw [hholds, Multiset.count_add, hnone, zero_add]
    · rw [hholds] at hq
      obtain hq | hq := Multiset.mem_add.mp hq
      · exact .inr (hmade q (Multiset.mem_coe.mp hq))
      · exact .inl hq
  · have hholds : holds ((pushLatency cfg { u with cache := cache } bank mf).popFromCrossbar bank) =
        u.holds := by
      change (u.popFromCrossbar bank).waiting + cache.waiters +
        (u.pushLatency cfg bank mf).replying = _
      rw [replying_push hlatency, hadds.waiters, holds, hpop]
      simp only [← Multiset.singleton_add, Multiset.coe_nil, zero_add]
      abel
    refine h.adds hadds htracked hasked huid
      ⟨List.length_modify _ _ _, List.length_modify _ _ _⟩ rfl hle (fun q _ => by rw [hholds])
      (fun q hq => .inl (hholds ▸ hq)) (by simp) ⟨rfl, rfl, rfl, rfl, rfl⟩
  · have hholds : holds (popFromCrossbar { u with cache := cache } bank) = u.holds := by
      change (u.popFromCrossbar bank).waiting + cache.waiters + u.replying = _
      rw [hadds.waiters, holds, hpop]
      simp only [← Multiset.singleton_add, Multiset.coe_singleton]
      abel
    refine h.adds hadds htracked hasked huid ⟨List.length_modify _ _ _, rfl⟩ rfl hle
      (fun q _ => by rw [hholds]) (fun q hq => .inl (hholds ▸ hq)) ?_ ⟨rfl, rfl, rfl, rfl, rfl⟩
    intro w hw
    rw [List.mem_singleton.mp hw]
    exact .inl hreq

theorem ReplyInv.cacheToNdp (h : ReplyInv cfg u tr) {bank : Nat}
    (hs : u.cacheToNdp cfg bank = .ok u') : ReplyInv cfg u' tr := by
  unfold L2Channel.cacheToNdp at hs
  split at hs
  case h_1 =>
    obtain rfl := Except.ok.inj hs
    exact h
  case h_2 queue hlatency =>
  split at hs
  case isFalse =>
    obtain rfl := Except.ok.inj hs
    exact h
  case isTrue =>
    obtain ⟨⟨mf, cache⟩, hpop, hs⟩ := bind_eq_ok.mp hs
    obtain rfl := Except.ok.inj hs
    obtain ⟨B, rest, e, hpops⟩ := Cache.popNextAccess_cases hpop
    refine h.shift hpops.extra (h.tracked.pop hpops) (h.asked.pop h.tracked hpops) hpops.uid
      ⟨rfl, List.length_modify _ _ _⟩ h.biBanks rfl le_rfl ?_ ?_
    · change u.waiting + cache.waiters + (u.pushLatency cfg bank mf).replying = _
      rw [replying_push hlatency, holds, hpops.waiters]
      simp only [← Multiset.singleton_add]
      abel
    · change (cache.missQueue : Multiset MemFetch) + _ = _
      rw [hpops.queue]
      rfl

/-- A reply goes to the crossbar. -/
theorem ReplyInv.send (h : ReplyInv cfg u tr)
    (hsame : u'.cache = u.cache ∧ u'.fromCrossbar = u.fromCrossbar ∧ u'.requests = u.requests ∧
      u'.transit = u.transit) (hlatency : u'.latency.length = u.latency.length)
    (hbi : u'.toCrossbarBi.length = cfg.numBanks ∧ ∀ r ∈ u'.pendingLds, r.bank < cfg.numBanks)
    (hreplying : u.replying = mf ::ₘ u'.replying) : ReplyInv cfg u' (tr ++ [.replied mf]) := by
  obtain ⟨hcache, hfrom, hrequests, htransit⟩ := hsame
  have hwaiting : u'.waiting = u.waiting := by rw [waiting, waiting, hfrom]
  have hholds : u.holds = mf ::ₘ u'.holds := by
    rw [holds, holds, hreplying, hwaiting, hcache, Multiset.add_cons]
  refine h.move (by simp) (hcache ▸ h.tracked) (hcache ▸ h.asked) ⟨by rw [hfrom], hlatency⟩ hbi
    hrequests (by rw [hcache]) hwaiting.le ?_ (fun q _ => ?_) (fun q hq => ?_) ?_ ?_
  · intro q hq
    rw [L2Event.replied.inj (List.mem_singleton.mp hq), hholds]
    exact Multiset.mem_cons_self _ _
  · rw [hholds, Multiset.count_cons, add_comm]
    by_cases heq : q = mf
    · simp [heq]
    · simp [heq, Ne.symm heq]
  · rw [hholds]
    exact .inl (Multiset.mem_cons_of_mem hq)
  · rw [htransit, hcache]
    exact h.fetches
  · rw [htransit, hcache]
    exact fun q hq hwrite => ⟨(h.back q hq hwrite).2.2, .inl hq⟩

theorem ReplyInv.release (h : ReplyInv cfg u tr) (unit : Nat) :
    ReplyInv cfg (u.release unit) tr := by
  obtain ⟨hlen, hpending⟩ := h.biBanks
  refine h.shift rfl h.tracked h.asked rfl ⟨rfl, rfl⟩ ⟨?_, fun r hr => ?_⟩ rfl le_rfl ?_ rfl
  · exact (length_pushAll ..).trans hlen
  · exact hpending r (List.mem_of_mem_filter hr)
  · change u.waiting + u.cache.waiters + (u.release unit).replying = _
    rw [replying_release (by rwa [hlen])]
    rfl

theorem ReplyInv.answer (h : ReplyInv cfg u tr) {bank : Nat} (hbank : bank < u.toCrossbarBi.length)
    (htop : u.latency[bank]?.bind DelayQueue.top? = some mf) :
    ReplyInv cfg (u.answer cfg bank mf) tr := by
  obtain ⟨hlen, hpending⟩ := h.biBanks
  have hmoved : ReplyInv cfg { u.popLatency bank with
      toCrossbarBi := u.toCrossbarBi.modify bank (· ++ [mf]) } tr := by
    refine h.shift rfl h.tracked h.asked rfl ⟨rfl, List.length_modify ..⟩
      ⟨(List.length_modify ..).trans hlen, hpending⟩ rfl le_rfl ?_ rfl
    rw [holds, holds, replying_pop htop, replying, replying]
    simp only [sum_push hbank, popLatency, waiting, ← Multiset.singleton_add]
    abel
  exact hmoved.release _

theorem ReplyInv.hold (h : ReplyInv cfg u tr) {bank : Nat} (hbank : bank < u.toCrossbarBi.length)
    (htop : u.latency[bank]?.bind DelayQueue.top? = some mf) :
    ReplyInv cfg (u.hold cfg bank mf) tr := by
  obtain ⟨hlen, hpending⟩ := h.biBanks
  refine h.shift rfl h.tracked h.asked rfl ⟨rfl, List.length_modify ..⟩ ⟨hlen, fun r hr => ?_⟩ rfl
    le_rfl ?_ rfl
  · obtain hr | hr := List.mem_append.mp hr
    · exact hpending r hr
    · rw [List.mem_singleton.mp hr, ← hlen]
      exact hbank
  · rw [holds, holds, replying_pop htop, replying, replying]
    simp only [L2Channel.hold, popLatency, waiting, List.map_append, List.map_singleton,
      ← Multiset.coe_add, Multiset.coe_singleton, ← Multiset.singleton_add]
    abel

theorem ReplyInv.latencyToCrossbar (h : ReplyInv cfg u tr) {bank : Nat}
    (hs : u.latencyToCrossbar cfg bank = (u', ev)) : ReplyInv cfg u' (tr ++ ev) := by
  have hsame (hu : u = u') (hev : ev = []) : ReplyInv cfg u' (tr ++ ev) := by
    rw [← hu, hev, List.append_nil]
    exact h
  unfold L2Channel.latencyToCrossbar at hs
  split at hs
  case h_1 mf rest queue hbi hqueue =>
    split at hs
    · exact hsame (Prod.mk.inj hs).1 (Prod.mk.inj hs).2.symm
    obtain ⟨rfl, rfl⟩ := Prod.mk.inj hs
    refine h.send ⟨rfl, rfl, rfl, rfl⟩ rfl ⟨(List.length_modify ..).trans h.biBanks.1,
      h.biBanks.2⟩ ?_
    have hsum := sum_map_modify (g := Multiset.ofList) (f := fun _ => rest) hbi
    rw [← Multiset.cons_coe, Multiset.cons_add, ← Multiset.add_cons, add_left_cancel_iff] at hsum
    rw [replying, ← hsum, Multiset.add_cons, Multiset.cons_add]
    rfl
  case h_2 queue hbi hqueue =>
    have hbank : bank < u.toCrossbarBi.length := (List.getElem?_eq_some_iff.mp hbi).1
    cases htop : u.latency[bank]?.bind DelayQueue.top? with
    | none =>
      simp only [htop] at hs
      exact hsame (Prod.mk.inj hs).1 (Prod.mk.inj hs).2.symm
    | some mf =>
      simp only [htop] at hs
      split at hs
      · obtain ⟨rfl, rfl⟩ := Prod.mk.inj hs
        rw [List.append_nil]
        exact h.answer hbank htop
      split at hs
      · obtain ⟨rfl, rfl⟩ := Prod.mk.inj hs
        rw [List.append_nil]
        exact h.hold hbank htop
      split at hs
      · exact hsame (Prod.mk.inj hs).1 (Prod.mk.inj hs).2.symm
      · obtain ⟨rfl, rfl⟩ := Prod.mk.inj hs
        exact h.send ⟨rfl, rfl, rfl, rfl⟩ (List.length_modify ..) h.biBanks (replying_pop htop)
  case h_3 => exact hsame (Prod.mk.inj hs).1 (Prod.mk.inj hs).2.symm

/-- The head of the return queue is taken, and what becomes of it. -/
theorem ReplyInv.fromMemory_cases (h : ReplyInv cfg u tr) {time : Nat} {rest : List MemFetch}
    (hreturned : u.returned = mf :: rest) (hs : u.fromMemory cfg time = .ok u') :
    (∃ cache, mf.isWrite = false ∧ u.cache.fill cfg.cache mf.id time = .ok cache ∧
      u' = { u with cache := cache, returned := rest }) ∨
    mf.isWrite = true ∧ u' = { u with returned := rest } := by
  have hmem : mf ∈ u.transit := by simp [transit, hreturned]
  have hwaiting : u.waitingForFill mf = true ↔ mf.id ∈ u.cache.extraMfFields.keys := by
    rw [waitingForFill, AList.lookup_isSome, AList.mem_keys]
  unfold fromMemory at hs
  simp only [hreturned] at hs
  cases hwrite : mf.isWrite with
  | false =>
    have hid : mf.id ∈ (u.cache.extraMfFields.keys : Multiset Nat) := by
      rw [← h.fetches]
      exact Multiset.mem_map_of_mem _ (Multiset.mem_filter.mpr ⟨hmem, hwrite⟩)
    rw [if_pos (hwaiting.mpr (Multiset.mem_coe.mp hid))] at hs
    obtain ⟨cache, hfill, hs⟩ := bind_eq_ok.mp hs
    obtain rfl := Except.ok.inj hs
    exact .inl ⟨cache, rfl, hfill, rfl⟩
  | true =>
    obtain ⟨hout, -, hkey⟩ := h.back mf hmem hwrite
    rw [if_neg fun hwait => hkey (hwaiting.mp hwait),
      if_pos (by simp [isWriteBack, hwrite, hout])] at hs
    obtain rfl := Except.ok.inj hs
    exact .inr ⟨rfl, rfl⟩

theorem ReplyInv.fromMemory (h : ReplyInv cfg u tr) {time : Nat}
    (hs : u.fromMemory cfg time = .ok u') : ReplyInv cfg u' tr := by
  cases hreturned : u.returned with
  | nil =>
    simp only [L2Channel.fromMemory, hreturned] at hs
    obtain rfl := Except.ok.inj hs
    exact h
  | cons mf rest =>
    have htransit : u.transit = mf ::ₘ transit { u with returned := rest } := by
      rw [transit, hreturned, ← Multiset.cons_coe, Multiset.add_cons, Multiset.add_cons,
        Multiset.add_cons]
      rfl
    have hfetches := h.fetches
    rw [htransit] at hfetches
    obtain ⟨cache, hread, hfill, rfl⟩ | ⟨hwrite, rfl⟩ := h.fromMemory_cases hreturned hs
    · obtain ⟨f, hfills⟩ := Cache.fill_cases hfill
      have hkeys : cache.extraMfFields.keys = u.cache.extraMfFields.keys.erase mf.id := by
        rw [hfills.extra, AList.keys_erase]
      have hsame : transit { u with cache := cache, returned := rest } =
          transit { u with returned := rest } := by
        rw [transit, transit, hfills.queue]
      have hholds : holds { u with cache := cache, returned := rest } = u.holds := by
        change u.waiting + cache.waiters + u.replying = _
        rw [Cache.waiters_fill hfill]
        rfl
      rw [← List.append_nil tr]
      refine h.move (by simp) (h.tracked.fill hfills) (h.asked.fill hfills) ⟨rfl, rfl⟩ h.biBanks rfl
        hfills.uid.ge le_rfl (by simp) (fun q _ => by simp [hholds])
        (fun q hq => .inl (hholds ▸ hq)) ?_ fun q hq hw => ?_
      · rw [hsame]
        change _ = (cache.extraMfFields.keys : Multiset Nat)
        rw [Multiset.filter_cons_of_pos _ (by simp [hread]), Multiset.map_cons] at hfetches
        rw [hkeys, ← Multiset.coe_erase, ← hfetches, Multiset.erase_cons_head]
      · rw [hsame] at hq
        have hq : q ∈ u.transit := htransit ▸ Multiset.mem_cons_of_mem hq
        refine ⟨fun hmem => (h.back q hq hw).2.2 ?_, .inl hq⟩
        change q.id ∈ cache.extraMfFields.keys at hmem
        rw [hkeys] at hmem
        exact List.mem_of_mem_erase hmem
    · rw [Multiset.filter_cons_of_neg _ (by simp [hwrite])] at hfetches
      rw [← List.append_nil tr]
      refine h.move (by simp) h.tracked h.asked ⟨rfl, rfl⟩ h.biBanks rfl le_rfl le_rfl (by simp)
        (fun q _ => by simp [holds]; rfl) (fun q hq => .inl hq) hfetches fun q hq hw => ?_
      · have hq : q ∈ u.transit := htransit ▸ Multiset.mem_cons_of_mem hq
        exact ⟨(h.back q hq hw).2.2, .inl hq⟩

theorem ReplyInv.cacheCycle (h : ReplyInv cfg u tr) : ReplyInv cfg (u.cacheCycle cfg) tr := by
  unfold L2Channel.cacheCycle Cache.cycle
  cases hqueue : u.cache.missQueue with
  | nil =>
    exact h.shift rfl h.tracked h.asked rfl ⟨rfl, rfl⟩ h.biBanks rfl le_rfl rfl (by simp [transit])
  | cons mf rest =>
    by_cases hfull : cfg.requestQueueSize ≤ u.toMem.length
    · simp only [hfull, decide_true, if_true]
      exact h.shift rfl h.tracked h.asked rfl ⟨rfl, rfl⟩ h.biBanks rfl le_rfl rfl
        (by simp [transit])
    · simp only [hfull, decide_false, Bool.false_eq_true, if_false]
      refine h.shift rfl (h.tracked.of_eq rfl le_rfl (fun _ => Iff.rfl) rfl)
        (h.asked.of_eq rfl rfl) rfl ⟨rfl, rfl⟩ h.biBanks rfl le_rfl rfl ?_
      simp only [transit, hqueue, Option.toList_some, ← Multiset.coe_add, ← Multiset.cons_coe,
        ← Multiset.singleton_add]
      abel

theorem ReplyInv.step (h : ReplyInv cfg u tr) {op : Op} (hok : KeepsWrites cfg u op)
    (hoff : u.Offered op) (hs : u.step cfg op = .ok (u', ev)) : ReplyInv cfg u' (tr ++ ev) := by
  cases op with
  | push mf bank => exact h.push hs
  | pop bank =>
    obtain ⟨rfl, rfl⟩ := Prod.mk.inj (Except.ok.inj hs)
    rw [List.append_nil]
    exact h.shift rfl h.tracked h.asked rfl ⟨rfl, rfl⟩ h.biBanks rfl le_rfl rfl rfl
  | setInprogress units =>
    obtain ⟨rfl, rfl⟩ := Prod.mk.inj (Except.ok.inj hs)
    rw [List.append_nil]
    exact h.shift rfl h.tracked h.asked rfl ⟨rfl, rfl⟩ h.biBanks rfl le_rfl rfl rfl
  | release unit =>
    obtain ⟨rfl, rfl⟩ := Prod.mk.inj (Except.ok.inj hs)
    rw [List.append_nil]
    exact h.release unit
  | latencyCycle bank =>
    obtain ⟨rfl, rfl⟩ := Prod.mk.inj (Except.ok.inj hs)
    rw [List.append_nil]
    refine h.shift rfl h.tracked h.asked rfl ⟨rfl, List.length_modify _ _ _⟩ h.biBanks rfl le_rfl
      ?_ rfl
    rw [holds, replying_cycle]
    rfl
  | ndpToCache bank time =>
    obtain ⟨u₁, hu₁, heq⟩ := bind_eq_ok.mp hs
    obtain ⟨rfl, rfl⟩ := Prod.mk.inj (Except.ok.inj heq)
    rw [List.append_nil]
    exact h.ndpToCache hok hu₁
  | cacheToNdp bank =>
    obtain ⟨u₁, hu₁, heq⟩ := bind_eq_ok.mp hs
    obtain ⟨rfl, rfl⟩ := Prod.mk.inj (Except.ok.inj heq)
    rw [List.append_nil]
    exact h.cacheToNdp hu₁
  | latencyToCrossbar bank => exact h.latencyToCrossbar (Except.ok.inj hs)
  | cacheCycle =>
    obtain ⟨rfl, rfl⟩ := Prod.mk.inj (Except.ok.inj hs)
    rw [List.append_nil]
    exact h.cacheCycle
  | cacheToMemory full =>
    obtain ⟨rfl, rfl⟩ := Prod.mk.inj (Except.ok.inj hs)
    rw [List.append_nil]
    unfold cacheToMemory
    split
    case h_1 => exact h
    case h_2 mf rest hqueue =>
      split
      · exact h
      · refine h.shift rfl h.tracked h.asked rfl ⟨rfl, rfl⟩ h.biBanks rfl le_rfl rfl ?_
        simp only [transit, hqueue, ← Multiset.cons_coe, Multiset.add_cons, Multiset.cons_add]
  | dramReply mf =>
    obtain ⟨rfl, rfl⟩ := Prod.mk.inj (Except.ok.inj hs)
    rw [List.append_nil]
    refine h.shift rfl h.tracked h.asked rfl ⟨rfl, rfl⟩ h.biBanks rfl le_rfl rfl ?_
    have hperm : (u.dram : Multiset MemFetch) = mf ::ₘ (u.dram.erase mf : List MemFetch) :=
      Multiset.coe_eq_coe.mpr (List.perm_cons_erase hoff)
    simp only [transit, hperm, ← Multiset.coe_add, ← Multiset.singleton_add]
    abel
  | fromMemory time =>
    obtain ⟨u₁, hu₁, heq⟩ := bind_eq_ok.mp hs
    obtain ⟨rfl, rfl⟩ := Prod.mk.inj (Except.ok.inj heq)
    rw [List.append_nil]
    exact h.fromMemory hu₁

def oneBank (cache : CacheConfig) : L2Config where
  cache := cache
  numBanks := 1
  hitLatency := 0
  requestQueueSize := 4
  biEnabled := true
  biUnitSize := 4096

end L2Channel

end NdpSim
