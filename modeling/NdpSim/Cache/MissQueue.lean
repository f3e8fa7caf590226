import NdpSim.Cache.Forward
import NdpSim.Cache.Run

/-!
# The length of the miss queue

Every handler asks for some room in the miss queue before it sends anything, and some send more
than they asked for: a read of one block may write back four sectors, and asking for no room is
granted in a full queue. The queue stays within its size as long as no access falls into the gap.
-/
namespace NdpSim

open Library

namespace Cache

/-- The write-backs of the line a miss claims. -/
def writeBackCount (kind : CacheKind) (cfg : CacheConfig) (c : Cache) (mf : MemFetch) :
    Probe → Nat
  | .miss i =>
    if cfg.allocPolicy = .onMiss then
      (evictedPackets kind cfg 0 (cfg.evictedInfo (c.lines i) (cfg.sectorOf mf))).length
    else 0
  | _ => 0

/-- The requests an access sends if it is taken: the write, the read of the block unless it is
waited for already, the write-backs. -/
def sendCount (kind : CacheKind) (cfg : CacheConfig) (c : Cache) (mf : MemFetch) : Probe → Nat
  | .hit _ => if forwardsHit cfg mf then 1 else 0
  | p =>
    if mf.isWrite ∧ cfg.writeAllocPolicy = .noWriteAllocate then 1
    else if p = .reservationFail then 0
    else
      (if forwardsMiss cfg mf then 1 else 0) +
        (if fetches cfg mf && !c.mshrProbe (cfg.getMshrAddr mf.addr) then 1 else 0) +
        writeBackCount kind cfg c mf p

/-- The room the handler of a miss asks for. -/
def reserve (kind : CacheKind) (cfg : CacheConfig) (mf : MemFetch) : Nat :=
  match kind with
  | .readOnly => 0
  | .data =>
    if mf.isWrite then
      match cfg.writeAllocPolicy with
      | .noWriteAllocate | .lazyFetchOnRead => 0
      | .writeAllocate => 2
      | .fetchOnWrite => if writesWholeAtom cfg mf then 0 else 1
    else 1

/-- The handler turns the access away. -/
def turnsAway (kind : CacheKind) (cfg : CacheConfig) (c : Cache) (mf : MemFetch) : Probe → Bool
  | .hit _ => forwardsHit cfg mf && c.missQueueFull cfg 0
  | _ => c.missQueueFull cfg (reserve kind cfg mf) ||
    fetches cfg mf && c.mshrFull cfg (cfg.getMshrAddr mf.addr) || !missRoom cfg c mf

/-- An access finds room for everything it sends, or is turned away. -/
def Roomy (kind : CacheKind) (cfg : CacheConfig) (c : Cache) : CacheOp → Prop
  | .access mf _ => ∀ p, cfg.probe c.lines (cfg.getBlockAddr mf.addr) (cfg.sectorOf mf) = .ok p →
    c.missQueue.length + sendCount kind cfg c mf p ≤ cfg.missQueueSize ∨
      turnsAway kind cfg c mf p = true
  | _ => True

section Access

variable {kind : CacheKind} {cfg : CacheConfig} {c c' : Cache} {mf : MemFetch}
  {status : CacheRequestStatus} {events : List CacheEvent} {time : Nat} {p : Probe}

/-- A miss whose handler finds no room changes nothing. -/
theorem eq_of_full (hp : cfg.probe c.lines (cfg.getBlockAddr mf.addr) (cfg.sectorOf mf) = .ok p)
    (hmiss : p ≠ .hit p.idx) (hfull : c.missQueueFull cfg (reserve kind cfg mf) = true)
    (h : c.access kind cfg mf time = .ok (status, events, c')) : c' = c := by
  cases kind with
  | readOnly =>
    simp only [access, readOnlyAccess] at h
    split at h
    · cases h
    simp only [reserve] at hfull
    cases p with
    | hit i => exact absurd rfl hmiss
    | _ =>
      simp only [hp, hfull] at h
      exact ((Prod.mk.inj (Prod.mk.inj (Except.ok.inj h)).2).2).symm
  | data =>
    have hread : mf.isWrite = false → c.rdMissBase cfg mf time = .ok (.reservationFail, [], c) := by
      intro hr
      simp only [reserve, hr, Bool.false_eq_true, if_false] at hfull
      simp only [rdMissBase, hfull, if_true]
      rfl
    have hwrite : mf.isWrite = true →
        c.wrMiss cfg mf time p = .ok (.reservationFail, [], c) := by
      intro hw
      simp only [reserve, hw, if_true] at hfull
      cases hpol : cfg.writeAllocPolicy <;> simp only [hpol] at hfull
      · simp [wrMiss, hpol, wrMissNoWa, hfull]
      · simp only [wrMiss, hpol, wrMissWaNaive, hfull, Bool.true_or, if_true]
        rfl
      · simp only [wrMiss, hpol, wrMissWaFetchOnWrite]
        split at hfull
        case isTrue hwhole =>
          simp only [hwhole, hfull, if_true]
          rfl
        case isFalse hwhole =>
          simp only [hwhole, hfull, Bool.true_or, if_true]
          rfl
      · simp only [wrMiss, hpol, wrMissWaLazyFetchOnRead, hfull, if_true]
        rfl
    simp only [access, dataAccess] at h
    obtain ⟨q, hq, h⟩ := bind_eq_ok.mp h
    obtain rfl := Except.ok.inj (hq.symm.trans hp)
    have hsame {r : Except Fault (CacheRequestStatus × List CacheEvent × Cache)}
        (hr : r = .ok (.reservationFail, [], c)) (h : r = .ok (status, events, c')) : c' = c := by
      rw [hr] at h
      exact (Prod.mk.inj (Prod.mk.inj (Except.ok.inj h)).2).2.symm
    split at h
    case isTrue hw =>
      cases q with
      | hit i => exact absurd rfl hmiss
      | reservationFail =>
        dsimp only at h
        split at h
        · exact hsame (hwrite hw) h
        · exact hsame rfl h
      | _ i => exact hsame (hwrite hw) h
    case isFalse hr =>
      cases q with
      | hit i => exact absurd rfl hmiss
      | reservationFail => exact hsame rfl h
      | _ i => exact hsame (hread (by simpa using hr)) h

/-- A hit that would be passed on is turned away by a full queue. -/
theorem eq_of_hit {i : Nat}
    (hp : cfg.probe c.lines (cfg.getBlockAddr mf.addr) (cfg.sectorOf mf) = .ok (.hit i))
    (haway : turnsAway kind cfg c mf (.hit i) = true)
    (h : c.access kind cfg mf time = .ok (status, events, c')) : c' = c := by
  obtain ⟨hforward, hfull⟩ := Bool.and_eq_true_iff.mp haway
  have hw : mf.isWrite = true := (Bool.and_eq_true_iff.mp hforward).1
  cases kind with
  | readOnly =>
    simp only [access, readOnlyAccess, hw, or_true, if_true] at h
    cases h
  | data =>
    simp only [access, dataAccess, hp, if_pos hw] at h
    exact (refused_of_wrHit hforward hfull h).2.2

theorem length_evictedPackets (n : Nat) (evicted : Option EvictedBlockInfo) :
    (evictedPackets kind cfg n evicted).length = (evictedPackets kind cfg 0 evicted).length := by
  unfold evictedPackets
  split
  · rfl
  · cases evicted with
    | none => rfl
    | some ev => simp [writeBackPackets]

/-- What is written back is what the line held that the miss claims. -/
theorem length_evicted {lines : Lines} {evicted : Option EvictedBlockInfo}
    (htag : cfg.tagAccess c.lines (cfg.getBlockAddr mf.addr) time (cfg.sectorOf mf) =
      .ok (p, lines, evicted)) (hmiss : p ≠ .hit p.idx) (hfound : p ≠ .reservationFail) (n : Nat) :
    (evictedPackets kind cfg n evicted).length = writeBackCount kind cfg c mf p := by
  have hopen := CacheConfig.tagAccess_opened htag hmiss hfound
  have hnone : (evictedPackets kind cfg n none).length = 0 := by
    unfold evictedPackets
    split <;> rfl
  cases p with
  | hit i => exact absurd rfl hmiss
  | reservationFail => exact absurd rfl hfound
  | miss i =>
    by_cases hon : cfg.allocPolicy = .onMiss
    · rw [(hopen.claimed rfl hon).2.2.2, length_evictedPackets, writeBackCount, if_pos hon]
      rfl
    · rw [(hopen.kept (.inr hon)).1, hnone, writeBackCount, if_neg hon]
  | hitReserved i | sectorMiss i =>
    rw [(hopen.kept (.inl (by simp))).1, hnone]
    rfl

theorem sendCount_of_miss (hmiss : p ≠ .hit p.idx) (hfound : p ≠ .reservationFail)
    (hpol : ¬ (mf.isWrite = true ∧ cfg.writeAllocPolicy = .noWriteAllocate)) :
    sendCount kind cfg c mf p = (if forwardsMiss cfg mf then 1 else 0) +
      (if fetches cfg mf && !c.mshrProbe (cfg.getMshrAddr mf.addr) then 1 else 0) +
      writeBackCount kind cfg c mf p := by
  cases p with
  | hit i => exact absurd rfl hmiss
  | reservationFail => exact absurd rfl hfound
  | _ i => rw [sendCount, if_neg hpol, if_neg hfound]; nofun

theorem turnsAway_of_miss (hmiss : p ≠ .hit p.idx) :
    turnsAway kind cfg c mf p = (c.missQueueFull cfg (reserve kind cfg mf) ||
      fetches cfg mf && c.mshrFull cfg (cfg.getMshrAddr mf.addr) || !missRoom cfg c mf) := by
  cases p with
  | hit i => exact absurd rfl hmiss
  | _ => rfl

theorem fetches_of_overwrites (h : overwrites cfg mf = true) : fetches cfg mf = false := by
  unfold overwrites at h
  unfold fetches
  cases hpol : cfg.writeAllocPolicy <;> simp_all

theorem policy_of_overwrites (h : overwrites cfg mf = true) :
    ¬ (mf.isWrite = true ∧ cfg.writeAllocPolicy = .noWriteAllocate) := by
  rintro ⟨-, hpol⟩
  simp [overwrites, hpol] at h

theorem policy_of_fetches (h : fetches cfg mf = true) :
    ¬ (mf.isWrite = true ∧ cfg.writeAllocPolicy = .noWriteAllocate) := by
  rintro ⟨hw, hpol⟩
  simp [fetches, hpol, hw] at h

/-- A request that waits found room in the table; it is sent unless its block is waited for. -/
theorem room_of_joins {w : MemFetch} {idx : Nat} {table : Binding (BitVec 64) MshrEntry}
    {extra : Binding Nat ExtraMfFields} {sent : List MemFetch}
    (h : Joins cfg c w idx table extra sent) :
    c.mshrFull cfg (cfg.getMshrAddr w.addr) = false ∧
      sent.length = if !c.mshrProbe (cfg.getMshrAddr w.addr) then 1 else 0 := by
  cases h with
  | merged lookup room => simp [mshrFull, mshrProbe, lookup, room]
  | requested lookup room => simp [mshrFull, mshrProbe, lookup, room]

theorem kind_of_write (hw : mf.isWrite = true)
    (h : c.access kind cfg mf time = .ok (status, events, c')) : kind = .data := by
  cases kind with
  | data => rfl
  | readOnly =>
    simp only [access, readOnlyAccess, hw, or_true, if_true] at h
    cases h

/-- A write that is passed on was not turned away, and is all that is sent. -/
theorem counts_of_forwarded
    (hp : cfg.probe c.lines (cfg.getBlockAddr mf.addr) (cfg.sectorOf mf) = .ok p)
    (hw : mf.isWrite = true) (hpol : cfg.writeAllocPolicy = .noWriteAllocate)
    (h : c.access kind cfg mf time = .ok (.miss, events, c')) :
    turnsAway kind cfg c mf p = false ∧ sendCount kind cfg c mf p = 1 := by
  obtain rfl := kind_of_write hw h
  have hsends := sendsWrite_of_forwarded hw hpol h
  have hfetch : fetches cfg mf = false := by simp [fetches, hw, hpol]
  have hroom : missRoom cfg c mf = true := by simp [missRoom, overwrites, hpol]
  cases p with
  | hit i =>
    simp only [sendsWrite, hw, hp, Bool.true_and, Bool.and_eq_true] at hsends
    simpa [turnsAway, sendCount, hsends.1] using hsends.2
  | _ =>
    simp only [sendsWrite, hw, hp, hpol, Bool.true_and] at hsends
    simpa [turnsAway, sendCount, hw, hpol, hfetch, hroom, reserve] using hsends

/-- An access leaves the queue as it is, or was not turned away and adds all it sends. -/
theorem length_access
    (hp : cfg.probe c.lines (cfg.getBlockAddr mf.addr) (cfg.sectorOf mf) = .ok p)
    (h : c.access kind cfg mf time = .ok (status, events, c')) :
    c'.missQueue = c.missQueue ∨ turnsAway kind cfg c mf p = false ∧
      c'.missQueue.length = c.missQueue.length + sendCount kind cfg c mf p := by
  cases effect_access h with
  | refused => exact .inl rfl
  | forwarded tells write policy =>
    obtain ⟨haway, hcount⟩ := counts_of_forwarded hp write policy h
    exact .inr ⟨haway, by simp [sendWriteRequest, hcount]⟩
  | hit tells probe =>
    obtain rfl := Except.ok.inj (hp.symm.trans probe)
    cases haway : turnsAway kind cfg c mf (.hit _) with
    | true => exact .inl (congrArg missQueue (eq_of_hit hp haway h))
    | false =>
      refine .inr ⟨rfl, ?_⟩
      rw [List.length_append, sendCount]
      split <;> rfl
  | overwritten tells tag missed found whole room =>
    obtain rfl := Except.ok.inj (hp.symm.trans (CacheConfig.probe_of_tagAccess tag))
    have hfetch : fetches cfg mf = false := fetches_of_overwrites whole
    by_cases hfull : c.missQueueFull cfg (reserve kind cfg mf) = true
    · exact .inl (congrArg missQueue (eq_of_full hp missed hfull h))
    refine .inr ⟨?_, ?_⟩
    · rw [turnsAway_of_miss missed]
      simp [hfull, hfetch, room]
    · rw [sendCount_of_miss missed found (policy_of_overwrites whole), hfetch]
      simp only [List.length_append, length_evicted tag missed found, Bool.false_and]
      split <;> simp [Nat.add_assoc]
  | awaited tells tag missed found fetched room rewrites joins uids =>
    obtain rfl := Except.ok.inj (hp.symm.trans (CacheConfig.probe_of_tagAccess tag))
    by_cases hfull : c.missQueueFull cfg (reserve kind cfg mf) = true
    · exact .inl (congrArg missQueue (eq_of_full hp missed hfull h))
    obtain ⟨hmshr, hsent⟩ := room_of_joins joins
    rw [waiter_addr] at hmshr hsent
    refine .inr ⟨?_, ?_⟩
    · rw [turnsAway_of_miss missed]
      simp [hfull, hmshr, room]
    · rw [sendCount_of_miss missed found (policy_of_fetches fetched), fetched, Bool.true_and]
      simp only [List.length_append, length_evicted tag missed found, hsent]
      split <;> simp [Nat.add_assoc]

theorem probe_of_access (h : c.access kind cfg mf time = .ok (status, events, c')) :
    ∃ p, cfg.probe c.lines (cfg.getBlockAddr mf.addr) (cfg.sectorOf mf) = .ok p := by
  cases kind with
  | readOnly =>
    simp only [access, readOnlyAccess] at h
    split at h
    · cases h
    · obtain ⟨p, hp, -⟩ := bind_eq_ok.mp h
      exact ⟨p, hp⟩
  | data =>
    simp only [access, dataAccess] at h
    obtain ⟨p, hp, -⟩ := bind_eq_ok.mp h
    exact ⟨p, hp⟩

end Access

variable {kind : CacheKind} {cfg : CacheConfig} {c c' : Cache}

theorem bounded_step {op : CacheOp} {ev : List CacheTrace} (hroom : c.Roomy kind cfg op)
    (h : c.step kind cfg op = .ok (c', ev)) (hc : c.missQueue.length ≤ cfg.missQueueSize) :
    c'.missQueue.length ≤ cfg.missQueueSize := by
  cases op with
  | access mf time =>
    obtain ⟨⟨status, events, c₁⟩, ha, h⟩ := bind_eq_ok.mp h
    obtain ⟨rfl, -⟩ := Prod.mk.inj (Except.ok.inj h)
    obtain ⟨p, hp⟩ := probe_of_access ha
    obtain hsame | ⟨haway, hlen⟩ := length_access hp ha
    · rw [hsame]
      exact hc
    · obtain hle | htaken := hroom p hp
      · rw [hlen]
        exact hle
      · exact absurd (haway.symm.trans htaken) (by decide)
  | fill id time =>
    obtain ⟨c₁, hf, h⟩ := bind_eq_ok.mp h
    obtain ⟨rfl, -⟩ := Prod.mk.inj (Except.ok.inj h)
    obtain ⟨f, hfills⟩ := fill_cases hf
    rwa [hfills.queue]
  | pop =>
    obtain ⟨⟨mf, c₁⟩, hpop, h⟩ := bind_eq_ok.mp h
    obtain ⟨rfl, -⟩ := Prod.mk.inj (Except.ok.inj h)
    obtain ⟨B, rest, e, hpops⟩ := popNextAccess_cases hpop
    rwa [hpops.queue]
  | cycle full =>
    cases step_cases h with
    | stay => exact hc
    | send queue =>
      rw [queue, List.length_cons] at hc
      exact Nat.le_of_succ_le hc

/-- In a run in which every access finds room for all it sends, or is turned away, the miss queue
stays within its size. -/
theorem missQueue_bounded {tr : List CacheTrace} (h : Run kind cfg (Roomy kind cfg) c tr) :
    c.missQueue.length ≤ cfg.missQueueSize := by
  induction h with
  | start => exact Nat.zero_le _
  | step run op meets fresh h ih => exact bounded_step meets h ih

/-- A read-only cache with a miss queue of one place. -/
def oneMiss : CacheConfig :=
  { oneLine .noWriteAllocate with writePolicy := .readOnly, missQueueSize := 1, assoc := 2 }

/-- A single read miss fits. -/
theorem missQueue_bounded_one : ∃ c tr, Run .readOnly oneMiss (Roomy .readOnly oneMiss) c tr ∧
    c.missQueue.length = 1 ∧ c.missQueue.length ≤ oneMiss.missQueueSize := by
  obtain ⟨c, ev, h, hlen⟩ : ∃ c ev, (initial fun _ => emptyLine).step .readOnly oneMiss
      (.access (wordRequest 0 0 false) 0) = .ok (c, ev) ∧ c.missQueue.length = 1 :=
    ⟨_, _, rfl, rfl⟩
  have hroom : (initial fun _ => emptyLine).Roomy .readOnly oneMiss
      (.access (wordRequest 0 0 false) 0) := by
    intro p hp
    obtain rfl := Except.ok.inj hp
    exact .inl (by decide)
  have hrun := Run.step (.start _ fun _ _ => rfl) _ hroom rfl h
  exact ⟨c, _, hrun, hlen, missQueue_bounded hrun⟩

/-- The queue with one place takes a second read: asking for no room is granted when it is full. -/
theorem missQueue_exceeded : ∃ c tr, Run .readOnly oneMiss (fun _ _ => True) c tr ∧
    oneMiss.missQueueSize < c.missQueue.length := by
  obtain ⟨c, ev, c', ev', h, hfresh, h', hlen⟩ : ∃ c ev c' ev',
      (initial fun _ => emptyLine).step .readOnly oneMiss (.access (wordRequest 0 0 false) 0) =
        .ok (c, ev) ∧
      c.Fresh (.access (wordRequest 1 32 false) 1) ∧
      c.step .readOnly oneMiss (.access (wordRequest 1 32 false) 1) = .ok (c', ev') ∧
      c'.missQueue.length = 2 := ⟨_, _, _, _, rfl, rfl, rfl, rfl⟩
  have hrun : Run .readOnly oneMiss (fun _ _ => True) c _ :=
    .step (.start _ fun _ _ => rfl) (.access (wordRequest 0 0 false) 0) trivial rfl h
  exact ⟨c', _, hrun.step _ trivial hfresh h', by rw [hlen]; decide⟩

end Cache

end NdpSim
