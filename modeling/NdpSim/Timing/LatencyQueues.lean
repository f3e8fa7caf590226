import NdpSim.Timing.LdstUnit

/-!
# The bound of the latency queues

An instruction puts the request of each packet into the queue of its bank, or no request at all.
The room is looked up in a table that nothing updates, so a queue stays within its bound as long as
what it holds already leaves room for the instruction.
-/
namespace NdpSim

open Library

namespace LdstUnit

variable (cfg : LdstConfig)

/-- No queue holds more requests than it is meant to. -/
def Bounded (u : LdstUnit) : Prop := ∀ q ∈ u.banks, q.items.length ≤ cfg.maxLatencyQueueSize

/-- An instruction that is taken finds room in the queue of each of its packets. -/
def RoomFor (u : LdstUnit) : Op → Prop
  | .inst _ addrs _ => checkL1HitPipelineFull cfg addrs = false →
    ∀ bank q, u.banks[bank]? = some q →
      q.items.length + addrs.countP (bankOf cfg · = bank) ≤ cfg.maxLatencyQueueSize
  | _ => True

/-- No request enters, or each of them enters the queue of its bank, behind what is there. -/
def AllOrNothing (mfs : List MemFetch) (u u' : LdstUnit) : Prop :=
  u'.banks = u.banks ∨
  (∀ mf ∈ mfs, bankOf cfg mf.addr < u.banks.length) ∧
    ∀ bank q, u.banks[bank]? = some q → ∃ q', u'.banks[bank]? = some q' ∧
      q'.items = q.items ++ mfs.filter (bankOf cfg ·.addr = bank)

variable {cfg} {u u' : LdstUnit} {ev tr : List LdstEvent}

/-- What a list of requests leaves in a queue. -/
theorem pushBanks_spec (delay : Nat) (mfs : List MemFetch) {banks : List (DelayQueue MemFetch)}
    {bank : Nat} {q : DelayQueue MemFetch} (hq : banks[bank]? = some q) :
    ∃ q', (mfs.foldl (pushBank cfg delay) banks)[bank]? = some q' ∧
      q'.items = q.items ++ mfs.filter (bankOf cfg ·.addr = bank) := by
  induction mfs generalizing banks q with
  | nil => exact ⟨q, hq, (List.append_nil _).symm⟩
  | cons mf mfs ih =>
    rw [List.foldl_cons]
    have hhead : (pushBank cfg delay banks mf)[bank]? =
        some (if bankOf cfg mf.addr = bank then q.push mf delay else q) := by
      rw [pushBank, List.getElem?_modify, hq]
      rfl
    obtain ⟨q', hq', hitems⟩ := ih hhead
    refine ⟨q', hq', ?_⟩
    by_cases hbank : bankOf cfg mf.addr = bank
    · rw [hitems, if_pos hbank, DelayQueue.items_push,
        List.filter_cons, if_pos (decide_eq_true hbank), List.append_assoc, List.singleton_append]
    · rw [hitems, if_neg hbank, List.filter_cons, if_neg (by rwa [decide_eq_true_eq])]

/-- The packets of an instruction for a bank are counted by the check. -/
theorem length_filter_requestsOf (u : LdstUnit) (inst : NdpInstruction) (addrs : List (BitVec 64))
    (bank : Nat) : ((u.requestsOf cfg inst addrs).filter (bankOf cfg ·.addr = bank)).length =
      addrs.countP (bankOf cfg · = bank) := by
  have haddrs : (u.requestsOf cfg inst addrs).map MemFetch.addr = addrs := by
    refine List.ext_getElem (by simp [requestsOf, packetRequests]) fun i h₁ h₂ => ?_
    simp [requestsOf, packetRequests]
  rw [← List.countP_eq_length_filter]
  conv_rhs => rw [← haddrs]
  rw [List.countP_map]
  rfl

/-- An instruction is issued with all of its packets or not at all. -/
theorem allOrNothing_of_inst {inst : NdpInstruction} {addrs : List (BitVec 64)}
    {context : LdstContext} (hbanks : u.banks.length = cfg.numBanks)
    (h : u.processLdstInst cfg inst addrs context = .ok (u', ev)) :
    AllOrNothing cfg (u.requestsOf cfg inst addrs) u u' := by
  obtain ⟨rfl, -⟩ | ⟨delay, loads, finished, rfl, -⟩ := processLdstInst_cases h
  · exact .inl rfl
  · refine .inr ⟨fun mf _ => ?_, fun bank q hq => pushBanks_spec delay _ hq⟩
    rw [hbanks]
    exact Nat.mod_lt _ cfg.banks_pos

/-- The check decides whether the requests enter. -/
theorem banks_of_inst {inst : NdpInstruction} {addrs : List (BitVec 64)} {context : LdstContext}
    (h : u.processLdstInst cfg inst addrs context = .ok (u', ev)) :
    checkL1HitPipelineFull cfg addrs = true ∧ u'.banks = u.banks ∨
    checkL1HitPipelineFull cfg addrs = false ∧ ∃ delay,
      u'.banks = (u.requestsOf cfg inst addrs).foldl (pushBank cfg delay) u.banks := by
  rw [processLdstInst] at h
  split at h
  case isTrue hfull =>
    cases h
    exact .inl ⟨hfull, rfl⟩
  case isFalse hfull =>
    refine .inr ⟨Bool.not_eq_true _ ▸ hfull, ?_⟩
    split at h
    · obtain ⟨loads, -, h⟩ := bind_eq_ok.mp h
      cases h
      exact ⟨_, rfl⟩
    · cases h
      exact ⟨_, rfl⟩

/-- An instruction keeps the bound exactly if there is room for it. -/
theorem bounded_inst_iff {inst : NdpInstruction} {addrs : List (BitVec 64)} {context : LdstContext}
    (hu : Bounded cfg u) (h : u.processLdstInst cfg inst addrs context = .ok (u', ev)) :
    Bounded cfg u' ↔ RoomFor cfg u (.inst inst addrs context) := by
  obtain ⟨hfull, hbanks⟩ | ⟨hfree, delay, hbanks⟩ := banks_of_inst h
  · refine iff_of_true (by rwa [Bounded, hbanks]) fun hfree => ?_
    rw [hfull] at hfree
    cases hfree
  · have hlength {bank : Nat} {q q' : DelayQueue MemFetch}
        (hitems : q'.items = q.items ++ (u.requestsOf cfg inst addrs).filter
          (bankOf cfg ·.addr = bank)) :
        q'.items.length = q.items.length + addrs.countP (bankOf cfg · = bank) := by
      rw [hitems, List.length_append, length_filter_requestsOf]
    constructor
    · intro hu' _ bank q hq
      obtain ⟨q', hq', hitems⟩ := pushBanks_spec delay (u.requestsOf cfg inst addrs) hq
      rw [← hlength hitems]
      exact hu' q' (hbanks ▸ List.mem_of_getElem? hq')
    · intro hroom q' hq'
      obtain ⟨bank, hbank⟩ := List.mem_iff_getElem?.mp hq'
      have hlt : bank < u.banks.length := by
        rw [← length_pushBanks, ← hbanks]
        exact (List.getElem?_eq_some_iff.mp hbank).1
      obtain ⟨q'', hq'', hitems⟩ := pushBanks_spec delay (u.requestsOf cfg inst addrs)
        (List.getElem?_eq_getElem hlt)
      rw [hbanks, hq''] at hbank
      cases hbank
      rw [hlength hitems]
      exact hroom hfree bank _ (List.getElem?_eq_getElem hlt)

/-- Outside of instructions the queues only get shorter. -/
theorem banks_of_step {op : Op} (h : u.step cfg op = .ok (u', ev))
    (hop : ∀ inst addrs context, op ≠ .inst inst addrs context) :
    u'.banks = u.banks ∨ (∃ bank, u'.banks = u.banks.modify bank DelayQueue.pop) ∨
      u'.banks = u.banks.map DelayQueue.cycle := by
  have hresponse {v v' : LdstUnit} {mf : MemFetch} {shown : List LdstEvent}
      (h : v.handleResponse cfg mf = .ok (v', shown)) : v'.banks = v.banks := by
    obtain ⟨loads, finished, rfl, -⟩ := handleResponse_cases h
    rfl
  cases op with
  | inst inst addrs context => exact absurd rfl (hop inst addrs context)
  | coreToL1 bank time =>
    obtain ⟨-, rfl, -⟩ | ⟨mf, -, ⟨-, -, rfl, -⟩ | ⟨-, status, events, l1d, shown, -, hafter, -⟩⟩ :=
      coreToL1_cases h
    · exact .inl rfl
    · exact .inr (.inl ⟨bank, rfl⟩)
    · obtain ⟨-, rfl, -⟩ | ⟨-, -, hafter⟩ | ⟨-, -, rfl, -⟩ := afterAccess_cases hafter
      · exact .inl rfl
      · exact .inr (.inl ⟨bank, hresponse hafter⟩)
      · exact .inr (.inl ⟨bank, rfl⟩)
  | l1ToCore =>
    simp only [step, l1ToCore] at h
    split at h
    · obtain ⟨⟨mf, l1d⟩, -, h⟩ := bind_eq_ok.mp h
      have hbanks := hresponse h
      exact .inl hbanks
    · cases h
      exact .inl rfl
  | l1ToTlb full =>
    cases h
    refine .inl ?_
    rw [l1ToTlb]
    split
    · rfl
    · split <;> rfl
  | l1dCycle =>
    cases h
    exact .inl rfl
  | latencyCycle =>
    cases h
    exact .inr (.inr rfl)
  | fromMem mf time =>
    obtain ⟨-, -, ⟨l1d, -, rfl⟩, -⟩ | ⟨-, -, -, -, rfl, -⟩ | ⟨-, h⟩ := handleFromMem_cases h
    · exact .inl rfl
    · exact .inl rfl
    · have hbanks := hresponse h
      exact .inl hbanks
  | writeback subCoreId =>
    cases h
    exact .inl rfl

theorem Bounded.step {op : Op} (hu : Bounded cfg u) (hroom : RoomFor cfg u op)
    (h : u.step cfg op = .ok (u', ev)) : Bounded cfg u' := by
  by_cases hop : ∃ inst addrs context, op = .inst inst addrs context
  · obtain ⟨inst, addrs, context, rfl⟩ := hop
    exact (bounded_inst_iff hu h).mpr hroom
  · obtain hbanks | ⟨bank, hbanks⟩ | hbanks := banks_of_step h fun inst addrs context heq =>
      hop ⟨inst, addrs, context, heq⟩
    · rwa [Bounded, hbanks]
    · intro q hq
      obtain ⟨i, hi⟩ := List.mem_iff_getElem?.mp hq
      rw [hbanks, List.getElem?_modify] at hi
      obtain ⟨q₀, hq₀, rfl⟩ := Option.map_eq_some_iff.mp hi
      have hle := hu q₀ (List.mem_of_getElem? hq₀)
      have hpop : q₀.pop.items.length ≤ q₀.items.length := by
        rw [DelayQueue.items, DelayQueue.items, List.length_map, List.length_map, DelayQueue.pop,
          List.length_tail]
        exact Nat.sub_le _ _
      split
      · exact hpop.trans hle
      · exact hle
    · intro q hq
      rw [hbanks] at hq
      obtain ⟨q₀, hq₀, rfl⟩ := List.mem_map.mp hq
      exact hu q₀ hq₀

theorem bounded_create (lines : Lines) : Bounded cfg (create cfg lines) := by
  intro q hq
  rw [List.eq_of_mem_replicate hq]
  exact Nat.zero_le _

/-- Every instruction enters with all of its packets or not at all, and the queues stay within their
bound as long as each instruction that is taken finds room; a queue within its bound leaves it
exactly where one does not. -/
theorem latency_queues {P : LdstUnit → Op → Prop} (h : Run cfg P u tr) :
    ((∀ v op, P v op → RoomFor cfg v op) → Bounded cfg u) ∧
    ∀ inst addrs context u' ev, u.processLdstInst cfg inst addrs context = .ok (u', ev) →
      AllOrNothing cfg (u.requestsOf cfg inst addrs) u u' ∧
      (Bounded cfg u → (Bounded cfg u' ↔ RoomFor cfg u (.inst inst addrs context))) := by
  refine ⟨fun hroom => ?_, fun inst addrs context u' ev hinst =>
    ⟨allOrNothing_of_inst h.numbered.banks hinst, fun hu => bounded_inst_iff hu hinst⟩⟩
  induction h with
  | start lines => exact bounded_create lines
  | step _ op meets _ hs ih => exact ih.step (hroom _ op meets) hs

/-- One bank, with a queue that is meant for a vector of bytes and for the latency. -/
def latencyBank : LdstConfig :=
  { oneBank (Cache.oneLine .noWriteAllocate) with
    l1HitLatency := 20
    maxLatencyQueueSize := 20 + 32 * 2 }

/-- The packets of a store that is scattered over the memory. -/
def scattered : List (BitVec 64) := (List.range 16).map fun i => .ofNat 64 (32 * i)

def scatter : NdpInstruction := { sampleStore with opcode := .vsuxei32 }

theorem countP_scattered (bank : Nat) : scattered.countP (bankOf latencyBank · = bank) ≤ 16 :=
  List.countP_le_length

/-- The first such store finds room. -/
theorem latency_queues_first : ∃ u tr, Run latencyBank (RoomFor latencyBank) u tr ∧
    tr.length = 16 ∧ Bounded latencyBank u := by
  have hroom : RoomFor latencyBank (create latencyBank fun _ => Cache.emptyLine)
      (.inst scatter scattered ⟨0, 0, true⟩) := by
    intro _ bank q hq
    have hempty : q.items = [] := by
      rw [List.eq_of_mem_replicate (List.mem_of_getElem? hq)]
      rfl
    rw [hempty]
    exact (Nat.zero_add _).le.trans ((countP_scattered bank).trans (by decide))
  have hrun : Run latencyBank (RoomFor latencyBank) _ _ :=
    .step (.start fun _ => Cache.emptyLine) (.inst scatter scattered ⟨0, 0, true⟩) hroom trivial rfl
  exact ⟨_, _, hrun, by decide, (latency_queues hrun).1 fun _ _ h => h⟩

/-- One store after the other enters, whatever waits in the queue. -/
theorem exists_run_scattered (n : Nat) : ∃ u tr q, Run latencyBank (fun _ _ => True) u tr ∧
    u.banks = [q] ∧ q.items.length = 16 * n := by
  induction n with
  | zero => exact ⟨_, _, _, .start fun _ => Cache.emptyLine, rfl, rfl⟩
  | succ n ih =>
    obtain ⟨u, tr, q, hrun, hbanks, hlength⟩ := ih
    have hq : u.banks[0]? = some q := by rw [hbanks]; rfl
    obtain ⟨u', ev, hinst⟩ : ∃ u' ev,
        u.processLdstInst latencyBank scatter scattered ⟨0, 0, true⟩ = .ok (u', ev) := ⟨_, _, rfl⟩
    obtain ⟨hfull, -⟩ | ⟨-, delay, hbanks'⟩ := banks_of_inst hinst
    · exact absurd hfull (by decide)
    · obtain ⟨q', hq', hitems⟩ :=
        pushBanks_spec delay (u.requestsOf latencyBank scatter scattered) hq
      rw [← hbanks'] at hq'
      have hone : u'.banks.length = 1 := by
        rw [hbanks', length_pushBanks, hbanks]
        rfl
      obtain ⟨q'', hq''⟩ := List.length_eq_one_iff.mp hone
      rw [hq''] at hq'
      cases hq'
      refine ⟨u', _, q', .step hrun (.inst scatter scattered ⟨0, 0, true⟩) trivial trivial hinst,
        hq'', ?_⟩
      have hcount : scattered.countP (bankOf latencyBank · = 0) = 16 := by decide
      rw [hitems, List.length_append, length_filter_requestsOf, hcount, hlength]
      exact (Nat.mul_succ 16 n).symm

theorem not_latency_queues_sixth : ∃ u tr, Run latencyBank (fun _ _ => True) u tr ∧
    ¬ Bounded latencyBank u := by
  obtain ⟨u, tr, q, hrun, hbanks, hlength⟩ := exists_run_scattered 6
  refine ⟨u, tr, hrun, fun h => ?_⟩
  have hle := h q (by rw [hbanks]; exact List.mem_singleton_self q)
  rw [hlength] at hle
  exact absurd hle (by decide)

end LdstUnit

end NdpSim
