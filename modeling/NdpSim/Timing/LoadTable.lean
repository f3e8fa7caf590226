import NdpSim.Isa.Instruction
import NdpSim.Isa.VectorData
import NdpSim.Library.Effects
import NdpSim.Library.Pool

/-!
# Loads in flight

A load is cut into one request for each of its packets. The requests share a counter, and one of
them, the key, stands for the load in the tables of the load-store unit. The load is complete when
the counter is down to zero; only then the key is given up, whenever its own response came.
-/
namespace NdpSim

open Library

/-- What the load-store unit reads of a context. -/
structure LdstContext where
  subCoreId : Nat
  instColId : Nat
  lastInst : Bool
  deriving DecidableEq

structure ReadRequestInfo where
  keyMf : Nat
  count : Nat
  deriving DecidableEq

/-- What can be seen of a response. -/
inductive LoadEvent
  | wrote (key subCoreId : Nat) (dest : Int)
  | finished (key : Nat) (context : LdstContext)
  | deletedMf (id : Nat)
  | deletedInfo (key : Nat)
  deriving DecidableEq

/-- The requests that exist, with the counter each points to, and the counters, which are told
apart by their key. `toReg` has the destinations on their way to the register files. -/
structure LoadTable where
  readRequest : Binding Nat Nat
  infos : Binding Nat ReadRequestInfo
  pendingLdst : Binding Nat NdpInstruction
  pendingLdstContext : Binding Nat LdstContext
  toReg : List (Nat × Int)

namespace LoadTable

def create : LoadTable := ⟨∅, ∅, ∅, ∅, []⟩

def toRegFull (size : Nat) (t : LoadTable) (subCoreId : Nat) : Bool :=
  size ≤ t.toReg.countP fun r => r.1 = subCoreId

/-- `process_ldst_inst` for a load with requests `ids`, of which the first is the key. -/
def addLoad (t : LoadTable) (ids : List Nat) (inst : NdpInstruction) (context : LdstContext) :
    Except Fault LoadTable :=
  match ids with
  | [] => .error .undefined
  | key :: _ => .ok
    { t with
      readRequest := ids.foldl (fun requests id => requests.insert id key) t.readRequest
      infos := t.infos.insert key ⟨key, ids.length⟩
      pendingLdst := t.pendingLdst.insert key inst
      pendingLdstContext := t.pendingLdstContext.insert key context }

def deleteMf (t : LoadTable) (id : Nat) : Except Fault LoadTable :=
  if (t.readRequest.lookup id).isSome then
    .ok { t with readRequest := t.readRequest.erase id }
  else .error .undefined

/-- The last response of a load came: its destination is written, and what it needed is given
back. -/
def complete (size : Nat) (t : LoadTable) (key : Nat) :
    Except Fault (LoadTable × List LoadEvent) :=
  match t.pendingLdst.lookup key, t.pendingLdstContext.lookup key with
  | some inst, some context =>
    if t.toRegFull size context.subCoreId then .error .assertion
    else do
      let t ← { t with
        infos := t.infos.erase key
        toReg := t.toReg ++ [(context.subCoreId, inst.dest)]
        pendingLdst := t.pendingLdst.erase key
        pendingLdstContext := t.pendingLdstContext.erase key }.deleteMf key
      return (t, [.deletedInfo key, .wrote key context.subCoreId inst.dest] ++
        (if context.lastInst then [.finished key context] else []) ++ [.deletedMf key])
  | _, _ => .error .assertion

/-- A response deletes its request unless it is the key. -/
def release (t : LoadTable) (id key : Nat) : Except Fault LoadTable :=
  if id = key then .ok t else t.deleteMf id

def releasedBy (id key : Nat) : List LoadEvent := if id = key then [] else [.deletedMf id]

/-- `handle_response` for a read; a request without a counter is a null pointer. -/
def handleRead (size : Nat) (t : LoadTable) (id : Nat) :
    Except Fault (LoadTable × List LoadEvent) :=
  match t.readRequest.lookup id with
  | none => .error .undefined
  | some i =>
    match t.infos.lookup i with
    | none => .error .undefined
    | some info => do
      let t ← { t with
        infos := t.infos.insert i { info with count := info.count - 1 } }.release id info.keyMf
      if info.count - 1 ≠ 0 then return (t, releasedBy id info.keyMf)
      else do
        let (t, events) ← t.complete size info.keyMf
        return (t, releasedBy id info.keyMf ++ events)

/-- `rf_writeback` takes everything a sub-core was sent. -/
def writeback (t : LoadTable) (subCoreId : Nat) : LoadTable :=
  { t with toReg := t.toReg.filter fun r => r.1 ≠ subCoreId }

end LoadTable

/-! ## Runs -/

/-- A load that was processed, with the numbers of its requests. -/
structure Load where
  key : Nat
  rest : List Nat
  inst : NdpInstruction
  context : LdstContext

namespace Load

def ids (l : Load) : List Nat := l.key :: l.rest

/-- The requests that were not answered. -/
def left (l : Load) (answered : Finset Nat) : List Nat := l.ids.filter (· ∉ answered)

def Done (l : Load) (answered : Finset Nat) : Prop := l.left answered = []

instance (l : Load) (answered : Finset Nat) : Decidable (l.Done answered) :=
  inferInstanceAs (Decidable (_ = _))

/-- The key lives until the load is done, the other requests until their own response. -/
def Released (l : Load) (answered : Finset Nat) (i : Nat) : Prop :=
  if i = l.key then l.Done answered else i ∈ answered

instance (l : Load) (answered : Finset Nat) (i : Nat) : Decidable (l.Released answered i) :=
  inferInstanceAs (Decidable (ite _ _ _))

end Load

/-- The tables with what happened so far. -/
structure LoadHistory where
  table : LoadTable
  loads : List Load
  answered : Finset Nat
  events : List LoadEvent

namespace LoadHistory

def create : LoadHistory := ⟨.create, [], ∅, []⟩

inductive Op
  | load (l : Load)
  | respond (id : Nat)
  | writeback (subCoreId : Nat)

def step (size : Nat) (h : LoadHistory) : Op → Except Fault LoadHistory
  | .load l => do
    return { h with table := ← h.table.addLoad l.ids l.inst l.context, loads := l :: h.loads }
  | .respond id => do
    let (table, events) ← h.table.handleRead size id
    return { h with
      table := table, answered := insert id h.answered, events := h.events ++ events }
  | .writeback subCoreId => .ok { h with table := h.table.writeback subCoreId }

/-- The requests of a load are new objects, and each is answered once. -/
def Offered (h : LoadHistory) : Op → Prop
  | .load l => l.ids.Nodup ∧ ∀ l' ∈ h.loads, ∀ i ∈ l'.ids, i ∉ l.ids
  | .respond id => (∃ l ∈ h.loads, id ∈ l.ids) ∧ id ∉ h.answered
  | .writeback _ => True

inductive Run (size : Nat) : LoadHistory → Prop
  | start : Run size create
  | step {h h' : LoadHistory} (run : Run size h) (op : Op) (offered : h.Offered op)
      (hs : h.step size op = .ok h') : Run size h'

end LoadHistory

/-- Where the destination of the load was written, according to an event. -/
def LoadEvent.write? (key : Nat) : LoadEvent → Option (Nat × Int)
  | .wrote k subCoreId dest => if k = key then some (subCoreId, dest) else none
  | _ => none

def LoadEvent.finish? (key : Nat) : LoadEvent → Option LdstContext
  | .finished k context => if k = key then some context else none
  | _ => none

/-- The tables know the load until it is done; then, and only then, its destination is written and
its context reported if it is the last. Its objects are given back once. -/
structure Load.Accounted (l : Load) (h : LoadHistory) : Prop where
  info : h.table.infos.lookup l.key =
    if l.Done h.answered then none else some ⟨l.key, (l.left h.answered).length⟩
  request : ∀ i ∈ l.ids, h.table.readRequest.lookup i =
    if l.Released h.answered i then none else some l.key
  inst : h.table.pendingLdst.lookup l.key = if l.Done h.answered then none else some l.inst
  context : h.table.pendingLdstContext.lookup l.key =
    if l.Done h.answered then none else some l.context
  writes : h.events.filterMap (LoadEvent.write? l.key) =
    if l.Done h.answered then [(l.context.subCoreId, l.inst.dest)] else []
  finishes : h.events.filterMap (LoadEvent.finish? l.key) =
    if l.Done h.answered ∧ l.context.lastInst then [l.context] else []
  deletedMf : ∀ i ∈ l.ids, h.events.count (.deletedMf i) =
    if l.Released h.answered i then 1 else 0
  deletedInfo : h.events.count (.deletedInfo l.key) = if l.Done h.answered then 1 else 0

/-! ## Responses -/

section Responses

variable {size : Nat} {t t' : LoadTable} {l : Load} {answered : Finset Nat} {id : Nat}
  {events : List LoadEvent} {h h' : LoadHistory}

/-- The object an event is about. -/
def LoadEvent.subject : LoadEvent → Nat
  | .wrote key _ _ => key
  | .finished key _ => key
  | .deletedMf id => id
  | .deletedInfo key => key

namespace Load

theorem key_mem_ids (l : Load) : l.key ∈ l.ids := List.mem_cons_self

theorem mem_left {i : Nat} : i ∈ l.left answered ↔ i ∈ l.ids ∧ i ∉ answered := by
  simp [left]

theorem left_congr {answered' : Finset Nat}
    (h : ∀ i ∈ l.ids, i ∈ answered' ↔ i ∈ answered) : l.left answered' = l.left answered := by
  refine List.filter_congr fun i hi => ?_
  simp [h i hi]

theorem not_done (hid : id ∈ l.ids) (hnew : id ∉ answered) : ¬ l.Done answered := by
  intro hdone
  have hmem := mem_left.mpr ⟨hid, hnew⟩
  rw [hdone] at hmem
  cases hmem

theorem not_released (hid : id ∈ l.ids) (hnew : id ∉ answered) : ¬ l.Released answered id := by
  unfold Released
  split
  · exact not_done hid hnew
  · exact hnew

/-- One response more. -/
theorem length_left_insert (hnodup : l.ids.Nodup) (hid : id ∈ l.ids) (hnew : id ∉ answered) :
    (l.left (insert id answered)).length = (l.left answered).length - 1 := by
  have herase : l.left (insert id answered) = (l.left answered).erase id := by
    rw [left, left, (hnodup.filter _).erase_eq_filter, List.filter_filter]
    refine List.filter_congr fun i _ => ?_
    simp only [Finset.mem_insert, not_or, Bool.decide_and, decide_not]
    rfl
  rw [herase, List.length_erase_of_mem (mem_left.mpr ⟨hid, hnew⟩)]

theorem done_iff_length : l.Done answered ↔ (l.left answered).length = 0 :=
  List.length_eq_zero_iff.symm

theorem write?_of_quiet (hsub : ∀ e ∈ events, e.subject ∉ l.ids) :
    events.filterMap (LoadEvent.write? l.key) = [] := by
  refine List.filterMap_eq_nil_iff.mpr fun e he => ?_
  have hne := hsub e he
  cases e with
  | wrote k c d =>
    refine if_neg fun hk => hne ?_
    rw [LoadEvent.subject, hk]
    exact l.key_mem_ids
  | _ => rfl

theorem finish?_of_quiet (hsub : ∀ e ∈ events, e.subject ∉ l.ids) :
    events.filterMap (LoadEvent.finish? l.key) = [] := by
  refine List.filterMap_eq_nil_iff.mpr fun e he => ?_
  have hne := hsub e he
  cases e with
  | finished k c =>
    refine if_neg fun hk => hne ?_
    rw [LoadEvent.subject, hk]
    exact l.key_mem_ids
  | _ => rfl

theorem count_of_quiet (hsub : ∀ e ∈ events, e.subject ∉ l.ids) (e : LoadEvent)
    (he : e.subject ∈ l.ids) : events.count e = 0 :=
  List.count_eq_zero.mpr fun hmem => hsub e hmem he

/-- A load that the step does not touch. -/
theorem Accounted.frame (hl : l.Accounted h)
    (hinfo : h'.table.infos.lookup l.key = h.table.infos.lookup l.key)
    (hreq : ∀ i ∈ l.ids, h'.table.readRequest.lookup i = h.table.readRequest.lookup i)
    (hinst : h'.table.pendingLdst.lookup l.key = h.table.pendingLdst.lookup l.key)
    (hctx : h'.table.pendingLdstContext.lookup l.key = h.table.pendingLdstContext.lookup l.key)
    (hans : ∀ i ∈ l.ids, i ∈ h'.answered ↔ i ∈ h.answered)
    (hev : h'.events = h.events ++ events) (hsub : ∀ e ∈ events, e.subject ∉ l.ids) :
    l.Accounted h' := by
  have hleft := left_congr hans
  have hdone : l.Done h'.answered ↔ l.Done h.answered := by rw [Done, Done, hleft]
  have hrel : ∀ i ∈ l.ids, l.Released h'.answered i ↔ l.Released h.answered i := by
    intro i hi
    unfold Released
    split
    · exact hdone
    · exact hans i hi
  have hwrite := write?_of_quiet hsub
  have hfinish := finish?_of_quiet hsub
  have hcount := count_of_quiet hsub
  refine ⟨?_, fun i hi => ?_, ?_, ?_, ?_, ?_, fun i hi => ?_, ?_⟩
  · simp only [hinfo, hl.info, hdone, hleft]
  · simp only [hreq i hi, hl.request i hi, hrel i hi]
  · simp only [hinst, hl.inst, hdone]
  · simp only [hctx, hl.context, hdone]
  · simp only [hev, List.filterMap_append, hwrite, List.append_nil, hl.writes, hdone]
  · simp only [hev, List.filterMap_append, hfinish, List.append_nil, hl.finishes, hdone]
  · simp only [hev, List.count_append, hcount (.deletedMf i) hi, Nat.add_zero, hl.deletedMf i hi,
      hrel i hi]
  · simp only [hev, List.count_append, hcount (.deletedInfo l.key) l.key_mem_ids, Nat.add_zero,
      hl.deletedInfo, hdone]

end Load

namespace LoadTable

theorem deleteMf_eq (hreq : t.readRequest.lookup id ≠ none) :
    t.deleteMf id = .ok { t with readRequest := t.readRequest.erase id } := by
  rw [deleteMf, if_pos (Option.isSome_iff_ne_none.mpr hreq)]

/-- The requests after a response. -/
def requestsAfter (t : LoadTable) (id key : Nat) : Binding Nat Nat :=
  if id = key then t.readRequest else t.readRequest.erase id

theorem release_eq {key : Nat} (hreq : t.readRequest.lookup id ≠ none) :
    t.release id key = .ok { t with readRequest := t.requestsAfter id key } := by
  unfold release requestsAfter
  split
  · rfl
  · exact deleteMf_eq hreq

/-- A response that is not the last one. -/
theorem handleRead_of_left {n key : Nat} (hreq : t.readRequest.lookup id = some key)
    (hinfo : t.infos.lookup key = some ⟨key, n⟩) (hn : n - 1 ≠ 0) :
    t.handleRead size id = .ok ({ t with
      infos := t.infos.insert key ⟨key, n - 1⟩
      readRequest := t.requestsAfter id key }, releasedBy id key) := by
  simp only [handleRead, hreq, hinfo]
  rw [release_eq (by simp [hreq])]
  simp only [ne_eq, hn, not_false_eq_true, if_true]
  rfl

theorem complete_eq (size : Nat) (t : LoadTable) {key : Nat} {inst : NdpInstruction}
    {context : LdstContext}
    (hreq : t.readRequest.lookup key ≠ none) (hinst : t.pendingLdst.lookup key = some inst)
    (hctx : t.pendingLdstContext.lookup key = some context) :
    t.complete size key = if t.toRegFull size context.subCoreId then .error .assertion
      else .ok (⟨t.readRequest.erase key, t.infos.erase key, t.pendingLdst.erase key,
        t.pendingLdstContext.erase key, t.toReg ++ [(context.subCoreId, inst.dest)]⟩,
        [.deletedInfo key, .wrote key context.subCoreId inst.dest] ++
          (if context.lastInst then [.finished key context] else []) ++ [.deletedMf key]) := by
  simp only [complete, hinst, hctx]
  split
  · rfl
  · exact bind_eq_ok.mpr ⟨_, deleteMf_eq hreq, rfl⟩

/-- The last response. -/
theorem handleRead_of_last (size : Nat) {key : Nat} {inst : NdpInstruction} {context : LdstContext}
    (hreq : t.readRequest.lookup id = some key) (hkeyreq : t.readRequest.lookup key ≠ none)
    (hinfo : t.infos.lookup key = some ⟨key, 1⟩) (hinst : t.pendingLdst.lookup key = some inst)
    (hctx : t.pendingLdstContext.lookup key = some context) :
    t.handleRead size id = if t.toRegFull size context.subCoreId then .error .assertion
      else .ok (⟨(t.requestsAfter id key).erase key, (t.infos.insert key ⟨key, 0⟩).erase key,
        t.pendingLdst.erase key, t.pendingLdstContext.erase key,
        t.toReg ++ [(context.subCoreId, inst.dest)]⟩, releasedBy id key ++
          ([.deletedInfo key, .wrote key context.subCoreId inst.dest] ++
            (if context.lastInst then [.finished key context] else []) ++ [.deletedMf key])) := by
  have hkey : (t.requestsAfter id key).lookup key ≠ none := by
    unfold requestsAfter
    split
    · exact hkeyreq
    case isFalse hne => rwa [AList.lookup_erase_ne (Ne.symm hne)]
  have hcomplete := complete_eq size { t with
    infos := t.infos.insert key ⟨key, 0⟩
    readRequest := t.requestsAfter id key } hkey hinst hctx
  have hroom : ({ t with
    infos := t.infos.insert key ⟨key, 0⟩
    readRequest := t.requestsAfter id key } : LoadTable).toRegFull size context.subCoreId =
      t.toRegFull size context.subCoreId := rfl
  rw [hroom] at hcomplete
  simp only [handleRead, hreq, hinfo]
  rw [release_eq (by simp [hreq])]
  cases hfull : t.toRegFull size context.subCoreId with
  | true =>
    rw [hfull, if_pos rfl] at hcomplete
    have hbind := congrArg (fun x => x >>= fun r => Except.ok (r.1, releasedBy id key ++ r.2))
      hcomplete
    exact hbind
  | false =>
    rw [hfull, if_neg (by simp)] at hcomplete
    simp only [Bool.false_eq_true, if_false]
    exact bind_eq_ok.mpr ⟨_, rfl, bind_eq_ok.mpr ⟨_, hcomplete, rfl⟩⟩

theorem lookup_requestsAfter {key i : Nat} : (t.requestsAfter id key).lookup i =
    if i = id ∧ id ≠ key then none else t.readRequest.lookup i := by
  unfold requestsAfter
  by_cases hkey : id = key
  · simp [hkey]
  · rw [if_neg hkey, Binding.lookup_erase_eq_ite]
    simp [hkey]

/-- The events of a completed load. -/
def completed (key : Nat) (inst : NdpInstruction) (context : LdstContext) : List LoadEvent :=
  [.deletedInfo key, .wrote key context.subCoreId inst.dest] ++
    (if context.lastInst then [.finished key context] else []) ++ [.deletedMf key]

theorem count_releasedBy {key i : Nat} : (releasedBy id key).count (.deletedMf i) =
    if i = id ∧ id ≠ key then 1 else 0 := by
  unfold releasedBy
  split <;> grind

theorem count_completed {key i : Nat} {inst : NdpInstruction} {context : LdstContext} :
    (completed key inst context).count (.deletedMf i) = if i = key then 1 else 0 := by
  unfold completed
  split <;> grind

@[simp] theorem write?_releasedBy {key k : Nat} :
    (releasedBy id key).filterMap (LoadEvent.write? k) = [] := by
  unfold releasedBy
  split <;> rfl

@[simp] theorem finish?_releasedBy {key k : Nat} :
    (releasedBy id key).filterMap (LoadEvent.finish? k) = [] := by
  unfold releasedBy
  split <;> rfl

@[simp] theorem deletedInfo_releasedBy {key k : Nat} :
    (releasedBy id key).count (.deletedInfo k) = 0 := by
  unfold releasedBy
  split <;> simp

theorem write?_completed {key : Nat} {inst : NdpInstruction} {context : LdstContext} :
    (completed key inst context).filterMap (LoadEvent.write? key) =
      [(context.subCoreId, inst.dest)] := by
  unfold completed
  split <;> simp [LoadEvent.write?, List.filterMap_cons]

theorem finish?_completed {key : Nat} {inst : NdpInstruction} {context : LdstContext} :
    (completed key inst context).filterMap (LoadEvent.finish? key) =
      if context.lastInst then [context] else [] := by
  unfold completed
  split <;> simp [LoadEvent.finish?, List.filterMap_cons]

theorem deletedInfo_completed {key : Nat} {inst : NdpInstruction} {context : LdstContext} :
    (completed key inst context).count (.deletedInfo key) = 1 := by
  unfold completed
  split <;> simp

theorem subject_releasedBy {key : Nat} {e : LoadEvent} (he : e ∈ releasedBy id key) :
    e.subject = id := by
  unfold releasedBy at he
  split at he
  · cases he
  · rw [List.mem_singleton.mp he]
    rfl

theorem subject_completed {key : Nat} {inst : NdpInstruction} {context : LdstContext}
    {e : LoadEvent} (he : e ∈ completed key inst context) : e.subject = key := by
  unfold completed at he
  split at he
  · simp only [List.cons_append, List.nil_append, List.mem_cons, List.not_mem_nil, or_false] at he
    obtain rfl | rfl | rfl | rfl := he <;> rfl
  · simp only [List.append_nil, List.cons_append, List.nil_append, List.mem_cons,
      List.not_mem_nil, or_false] at he
    obtain rfl | rfl | rfl := he <;> rfl

end LoadTable

/-- What a response changes: the entries of its load, and nothing else. -/
structure Load.Answers (l : Load) (h : LoadHistory) (id : Nat) (t : LoadTable)
    (events : List LoadEvent) : Prop where
  own : l.Accounted ⟨t, h.loads, insert id h.answered, h.events ++ events⟩
  subjects : ∀ e ∈ events, e.subject ∈ l.ids
  infos : ∀ k, k ∉ l.ids → t.infos.lookup k = h.table.infos.lookup k
  requests : ∀ k, k ∉ l.ids → t.readRequest.lookup k = h.table.readRequest.lookup k
  insts : ∀ k, k ∉ l.ids → t.pendingLdst.lookup k = h.table.pendingLdst.lookup k
  contexts : ∀ k, k ∉ l.ids → t.pendingLdstContext.lookup k = h.table.pendingLdstContext.lookup k

theorem Load.Accounted.respond_left (hl : l.Accounted h) (hnodup : l.ids.Nodup) (hid : id ∈ l.ids)
    (hnew : id ∉ h.answered) (hn : (l.left h.answered).length - 1 ≠ 0) :
    ∃ t events, h.table.handleRead size id = .ok (t, events) ∧ l.Answers h id t events := by
  have hreq := hl.request id hid
  rw [if_neg (not_released hid hnew)] at hreq
  have hinfo := hl.info
  have hdone := not_done hid hnew
  rw [if_neg hdone] at hinfo
  refine ⟨_, _, LoadTable.handleRead_of_left hreq hinfo hn, ?_⟩
  have hlen := length_left_insert hnodup hid hnew
  have hdone' : ¬ l.Done (insert id h.answered) := by rw [done_iff_length, hlen]; exact hn
  have hrel : ∀ i, l.Released (insert id h.answered) i ↔
      l.Released h.answered i ∨ i = id ∧ id ≠ l.key := by
    intro i
    unfold Load.Released
    split <;> grind
  refine ⟨⟨?_, fun i hi => ?_, ?_, ?_, ?_, ?_, fun i hi => ?_, ?_⟩, fun e he => ?_, fun k hk => ?_,
    fun k hk => ?_, fun _ _ => rfl, fun _ _ => rfl⟩
  · rw [if_neg hdone', hlen, AList.lookup_insert]
  · dsimp only
    rw [LoadTable.lookup_requestsAfter, hl.request i hi]
    simp only [hrel i]
    split_ifs <;> simp_all
  · rw [if_neg hdone']
    exact hl.inst.trans (if_neg hdone)
  · rw [if_neg hdone']
    exact hl.context.trans (if_neg hdone)
  · rw [if_neg hdone', List.filterMap_append, LoadTable.write?_releasedBy, List.append_nil,
      hl.writes, if_neg hdone]
  · rw [if_neg fun h => hdone' h.1, List.filterMap_append, LoadTable.finish?_releasedBy,
      List.append_nil, hl.finishes, if_neg fun h => hdone h.1]
  · rw [List.count_append, hl.deletedMf i hi, LoadTable.count_releasedBy]
    simp only [hrel i]
    have hnot := not_released hid hnew
    split_ifs <;> simp_all
  · rw [if_neg hdone', List.count_append, LoadTable.deletedInfo_releasedBy, hl.deletedInfo,
      if_neg hdone]
  · rw [LoadTable.subject_releasedBy he]
    exact hid
  · exact AList.lookup_insert_ne fun hkey => hk (hkey ▸ l.key_mem_ids)
  · dsimp only
    rw [LoadTable.lookup_requestsAfter, if_neg]
    rintro ⟨rfl, -⟩
    exact hk hid

theorem Load.Accounted.respond_last (hl : l.Accounted h) (hnodup : l.ids.Nodup) (hid : id ∈ l.ids)
    (hnew : id ∉ h.answered) (hn : (l.left h.answered).length - 1 = 0) :
    h.table.toRegFull size l.context.subCoreId = true ∧
      h.table.handleRead size id = .error .assertion ∨
    ∃ t events, h.table.handleRead size id = .ok (t, events) ∧ l.Answers h id t events := by
  have hreq := hl.request id hid
  rw [if_neg (not_released hid hnew)] at hreq
  have hdone := not_done hid hnew
  have hkeyreq := hl.request l.key l.key_mem_ids
  rw [if_neg (by simpa [Load.Released] using hdone)] at hkeyreq
  have hpos := List.length_pos_of_mem (mem_left.mpr ⟨hid, hnew⟩)
  have hone : (l.left h.answered).length = 1 := by omega
  have hinfo := hl.info
  rw [if_neg hdone, hone] at hinfo
  have hinst := hl.inst
  rw [if_neg hdone] at hinst
  have hctx := hl.context
  rw [if_neg hdone] at hctx
  have hread := LoadTable.handleRead_of_last size hreq (by simp [hkeyreq]) hinfo hinst
    hctx
  cases hfull : h.table.toRegFull size l.context.subCoreId with
  | true =>
    rw [hfull, if_pos rfl] at hread
    exact .inl ⟨rfl, hread⟩
  | false =>
  rw [hfull, if_neg (by simp)] at hread
  refine .inr ⟨_, _, hread, ?_⟩
  have hlen := length_left_insert hnodup hid hnew
  have hdone' : l.Done (insert id h.answered) := by rw [done_iff_length, hlen]; exact hn
  -- all the other requests were answered before
  have hans : ∀ i ∈ l.ids, i ≠ id → i ∈ h.answered := by
    intro i hi hne
    by_contra hnot
    have hmem := mem_left.mpr ⟨hi, hnot⟩
    obtain ⟨x, hx⟩ := List.length_eq_one_iff.mp hone
    have hidmem := mem_left.mpr ⟨hid, hnew⟩
    rw [hx, List.mem_singleton] at hmem hidmem
    exact hne (hmem.trans hidmem.symm)
  have hrel : ∀ i ∈ l.ids, l.Released (insert id h.answered) i := by
    intro i hi
    unfold Load.Released
    split
    · exact hdone'
    · by_cases hne : i = id
      · exact Finset.mem_insert.mpr (.inl hne)
      · exact Finset.mem_insert_of_mem (hans i hi hne)
  have hold : ∀ i ∈ l.ids, l.Released h.answered i ↔ i ≠ l.key ∧ i ≠ id := by
    intro i hi
    unfold Load.Released
    split
    · simp_all
    · have := hans i hi
      grind
  change l.Answers h id _ (LoadTable.releasedBy id l.key ++
    LoadTable.completed l.key l.inst l.context)
  refine ⟨⟨?_, fun i hi => ?_, ?_, ?_, ?_, ?_, fun i hi => ?_, ?_⟩, fun e he => ?_, fun k hk => ?_,
    fun k hk => ?_, fun k hk => ?_, fun k hk => ?_⟩
  · rw [if_pos hdone', AList.lookup_erase]
  · rw [if_pos (hrel i hi), Binding.lookup_erase_eq_ite, LoadTable.lookup_requestsAfter,
      hl.request i hi]
    simp only [hold i hi]
    split_ifs <;> simp_all
  · rw [if_pos hdone', AList.lookup_erase]
  · rw [if_pos hdone', AList.lookup_erase]
  · rw [if_pos hdone', List.filterMap_append, List.filterMap_append, LoadTable.write?_releasedBy,
      LoadTable.write?_completed, hl.writes, if_neg hdone]
    rfl
  · rw [List.filterMap_append, List.filterMap_append, LoadTable.finish?_releasedBy,
      LoadTable.finish?_completed, hl.finishes, if_neg fun h => hdone h.1]
    simp [hdone']
  · rw [if_pos (hrel i hi), List.count_append, List.count_append, hl.deletedMf i hi,
      LoadTable.count_releasedBy, LoadTable.count_completed]
    simp only [hold i hi]
    grind
  · rw [if_pos hdone', List.count_append, List.count_append, LoadTable.deletedInfo_releasedBy,
      LoadTable.deletedInfo_completed, hl.deletedInfo, if_neg hdone]
  · obtain he | he := List.mem_append.mp he
    · rw [LoadTable.subject_releasedBy he]
      exact hid
    · rw [LoadTable.subject_completed he]
      exact l.key_mem_ids
  all_goals have hkey : k ≠ l.key := fun hkey => hk (hkey ▸ l.key_mem_ids)
  · rw [AList.lookup_erase_ne hkey, AList.lookup_insert_ne hkey]
  · rw [AList.lookup_erase_ne hkey, LoadTable.lookup_requestsAfter, if_neg]
    rintro ⟨rfl, -⟩
    exact hk hid
  · exact AList.lookup_erase_ne hkey
  · exact AList.lookup_erase_ne hkey

/-- A response is handled, unless the register file of its sub-core cannot take it. -/
theorem Load.Accounted.respond (size : Nat) (hl : l.Accounted h) (hnodup : l.ids.Nodup)
    (hid : id ∈ l.ids) (hnew : id ∉ h.answered) :
    h.table.toRegFull size l.context.subCoreId = true ∧
      h.table.handleRead size id = .error .assertion ∨
    ∃ t events, h.table.handleRead size id = .ok (t, events) ∧ l.Answers h id t events := by
  by_cases hn : (l.left h.answered).length - 1 = 0
  · exact hl.respond_last hnodup hid hnew hn
  · exact .inr (hl.respond_left hnodup hid hnew hn)

end Responses

/-! ## All loads -/

namespace LoadHistory

variable {size : Nat} {h h' : LoadHistory}

/-- The loads have requests of their own, and nothing happened to other requests. -/
structure Inv (h : LoadHistory) : Prop where
  nodup : ∀ l ∈ h.loads, l.ids.Nodup
  own : ∀ l ∈ h.loads, ∀ l' ∈ h.loads, ∀ i, i ∈ l.ids → i ∈ l'.ids → l = l'
  answered : ∀ i ∈ h.answered, ∃ l ∈ h.loads, i ∈ l.ids
  events : ∀ e ∈ h.events, ∃ l ∈ h.loads, e.subject ∈ l.ids
  accounted : ∀ l ∈ h.loads, l.Accounted h

theorem inv_create : Inv create := by
  constructor <;> simp [create]

theorem lookup_foldl_insert (ids : List Nat) (key i : Nat) (b : Binding Nat Nat) :
    AList.lookup i (ids.foldl (fun requests id => requests.insert id key) b) =
      if i ∈ ids then some key else b.lookup i := by
  induction ids generalizing b with
  | nil => rfl
  | cons id ids ih =>
    rw [List.foldl_cons, ih, Binding.lookup_insert_eq_ite]
    grind

theorem Inv.load (hinv : Inv h) {l : Load} (hnodup : l.ids.Nodup)
    (hnew : ∀ l' ∈ h.loads, ∀ i ∈ l'.ids, i ∉ l.ids)
    (hs : h.step size (.load l) = .ok h') : Inv h' := by
  obtain ⟨t, ht, hs⟩ := bind_eq_ok.mp hs
  obtain rfl := Except.ok.inj hs
  simp only [LoadTable.addLoad, Load.ids] at ht
  obtain rfl := Except.ok.inj ht
  have hfresh : ∀ i ∈ l.ids, i ∉ h.answered := by
    intro i hi hans
    obtain ⟨l', hl', hi'⟩ := hinv.answered i hans
    exact hnew l' hl' i hi' hi
  have hleft : l.left h.answered = l.ids :=
    List.filter_eq_self.mpr fun i hi => by simpa using hfresh i hi
  have hdone : ¬ l.Done h.answered := Load.not_done l.key_mem_ids (hfresh _ l.key_mem_ids)
  have hrel : ∀ i ∈ l.ids, ¬ l.Released h.answered i :=
    fun i hi => Load.not_released hi (hfresh i hi)
  have hquiet : ∀ e ∈ h.events, e.subject ∉ l.ids := by
    intro e he
    obtain ⟨l', hl', hsub⟩ := hinv.events e he
    exact hnew l' hl' _ hsub
  refine ⟨List.forall_mem_cons.mpr ⟨hnodup, hinv.nodup⟩, fun l₁ h₁ l₂ h₂ i hi₁ hi₂ => ?_,
    fun i hi => ?_, fun e he => ?_, ?_⟩
  · obtain rfl | hold₁ := List.mem_cons.mp h₁
    · obtain rfl | hold₂ := List.mem_cons.mp h₂
      · rfl
      · exact absurd hi₁ (hnew l₂ hold₂ i hi₂)
    · obtain rfl | hold₂ := List.mem_cons.mp h₂
      · exact absurd hi₂ (hnew l₁ hold₁ i hi₁)
      · exact hinv.own l₁ hold₁ l₂ hold₂ i hi₁ hi₂
  · obtain ⟨l', hl', hi'⟩ := hinv.answered i hi
    exact ⟨l', List.mem_cons_of_mem _ hl', hi'⟩
  · obtain ⟨l', hl', he'⟩ := hinv.events e he
    exact ⟨l', List.mem_cons_of_mem _ hl', he'⟩
  refine List.forall_mem_cons.mpr ⟨?_, fun l' hl' => ?_⟩
  · refine ⟨?_, fun i hi => ?_, ?_, ?_, ?_, ?_, fun i hi => ?_, ?_⟩
    · rw [if_neg hdone, hleft, AList.lookup_insert]
      rfl
    · rw [if_neg (hrel i hi)]
      exact (lookup_foldl_insert l.ids l.key i _).trans (if_pos hi)
    · rw [if_neg hdone, AList.lookup_insert]
    · rw [if_neg hdone, AList.lookup_insert]
    · rw [if_neg hdone, Load.write?_of_quiet hquiet]
    · rw [if_neg fun h => hdone h.1, Load.finish?_of_quiet hquiet]
    · rw [if_neg (hrel i hi), Load.count_of_quiet hquiet (.deletedMf i) hi]
    · rw [if_neg hdone, Load.count_of_quiet hquiet (.deletedInfo l.key) l.key_mem_ids]
  · have hkey : l'.key ≠ l.key := by
      intro heq
      exact hnew l' hl' _ l'.key_mem_ids (heq ▸ l.key_mem_ids)
    refine (hinv.accounted l' hl').frame (AList.lookup_insert_ne hkey) (fun i hi => ?_)
      (AList.lookup_insert_ne hkey) (AList.lookup_insert_ne hkey) (fun _ _ => Iff.rfl)
      (List.append_nil _).symm (fun _ he => by cases he)
    exact (lookup_foldl_insert l.ids l.key i _).trans (if_neg (hnew l' hl' i hi))

theorem Inv.respond (hinv : Inv h) {id : Nat} (hoff : h.Offered (.respond id))
    (hs : h.step size (.respond id) = .ok h') : Inv h' := by
  obtain ⟨⟨l, hl, hid⟩, hnew⟩ := hoff
  obtain ⟨⟨t, events⟩, ht, hs⟩ := bind_eq_ok.mp hs
  obtain rfl := Except.ok.inj hs
  have hans : l.Answers h id t events := by
    obtain ⟨-, herror⟩ | ⟨t', events', ht', hans⟩ :=
      (hinv.accounted l hl).respond size (hinv.nodup l hl) hid hnew
    · cases ht.symm.trans herror
    · obtain ⟨rfl, rfl⟩ := Prod.mk.inj (Except.ok.inj (ht.symm.trans ht'))
      exact hans
  refine ⟨hinv.nodup, hinv.own, fun i hi => ?_, fun e he => ?_, fun l' hl' => ?_⟩
  · obtain rfl | hi := Finset.mem_insert.mp hi
    · exact ⟨l, hl, hid⟩
    · exact hinv.answered i hi
  · obtain he | he := List.mem_append.mp he
    · exact hinv.events e he
    · exact ⟨l, hl, hans.subjects e he⟩
  by_cases heq : l' = l
  · rw [heq]
    exact hans.own
  · have hother : ∀ i ∈ l'.ids, i ∉ l.ids :=
      fun i hi' hi => heq (hinv.own l' hl' l hl i hi' hi)
    refine (hinv.accounted l' hl').frame (hans.infos _ (hother _ l'.key_mem_ids))
      (fun i hi => hans.requests i (hother i hi)) (hans.insts _ (hother _ l'.key_mem_ids))
      (hans.contexts _ (hother _ l'.key_mem_ids)) (fun i hi => ?_) rfl fun e he hsub => ?_
    · have hne : i ≠ id := fun hi' => hother i hi (hi' ▸ hid)
      simp [hne]
    · exact hother _ hsub (hans.subjects e he)

theorem Run.inv (hrun : Run size h) : Inv h := by
  induction hrun with
  | start => exact inv_create
  | step _ op hoff hs ih =>
    cases op with
    | load l => exact ih.load hoff.1 hoff.2 hs
    | respond id => exact ih.respond hoff hs
    | writeback subCoreId =>
      obtain rfl := Except.ok.inj hs
      refine ⟨ih.nodup, ih.own, ih.answered, ih.events, fun l hl => ?_⟩
      exact (ih.accounted l hl).frame rfl (fun _ _ => rfl) rfl rfl (fun _ _ => Iff.rfl)
        (List.append_nil _).symm (fun _ he => by cases he)

def sampleVectorLoad : NdpInstruction :=
  { opcode := .vle32, operandType := .v, src := ![0, 0, 0, 0, 0], dest := 7, segDest := 0,
    segCnt := 0, doBranch := false }

end LoadHistory

end NdpSim
