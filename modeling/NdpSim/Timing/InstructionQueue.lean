import NdpSim.Timing.SubCore

/-!
# The instruction queue

The columns of a sub-core that are being executed: a list with a counter beside it, a cursor that
goes round, and for every launch with columns in the queue the part of the kernel they belong to.
-/
namespace NdpSim

open Library

/-- Where the fetching of a column stands; `currentInst` and `fetchedInst` point into its
instructions. -/
structure FetchState where
  pc : Int := 0
  block : Bool := false
  pending : Bool := false
  currentInst : Option Nat := none
  fetchedInst : Option Nat := none
  fetchedLast : Bool := false
  deriving DecidableEq

structure QueuedColumn where
  id : Nat
  column : InstColumn
  baseAddr : BitVec 64
  fetch : FetchState

namespace QueuedColumn

def key (c : QueuedColumn) : Nat × Nat := InstructionQueue.getDependencyKey c.column

/-- The part of the kernel the column belongs to. -/
def part (c : QueuedColumn) : RequestType × Nat := (c.column.req.type, c.column.req.kernelBodyId)

end QueuedColumn

/-- `iter` is the position of `m_inst_columns_iter`. -/
structure FetchQueue where
  columns : List QueuedColumn
  instColId : Nat
  numColumns : Int
  iter : Nat
  dependencyInfo : AList fun _ : Nat × Nat => DependencyInfo

namespace FetchQueue

def create : FetchQueue := ⟨[], 0, 0, 0, ∅⟩

def canPush (q : FetchQueue) (uthreadSlots : Nat) (col : InstColumn) : Bool :=
  if uthreadSlots ≤ q.numColumns then false
  else
    match q.dependencyInfo.lookup (InstructionQueue.getDependencyKey col) with
    | some info =>
      info.currentType = col.req.type && info.currentKernelBodyId = col.req.kernelBodyId
    | none => true

/-- The numbers of the columns are of type `int`, and there is none after the largest. -/
def push (q : FetchQueue) (uthreadSlots : Nat) (col : InstColumn) (baseAddr : BitVec 64) :
    Except Fault FetchQueue := do
  if !q.canPush uthreadSlots col then throw .assertion
  if col.insts.isEmpty then throw .assertion
  if 2 ^ 31 ≤ q.instColId + 1 then throw .undefined
  let key := InstructionQueue.getDependencyKey col
  let info := match q.dependencyInfo.lookup key with
    | none => ⟨col.req.type, col.req.kernelBodyId, 1⟩
    | some info => { info with count := info.count + 1 }
  return { columns := q.columns ++ [⟨q.instColId, col, baseAddr, {}⟩]
           instColId := q.instColId + 1
           numColumns := q.numColumns + 1
           iter := 0
           dependencyInfo := q.dependencyInfo.insert key info }

/-- The column the cursor points at; past the last one there is none. -/
def current (q : FetchQueue) : Except Fault QueuedColumn :=
  match q.columns[q.iter]? with
  | some c => .ok c
  | none => .error .undefined

def setCurrent (q : FetchQueue) (fetch : FetchState) : FetchQueue :=
  { q with columns := q.columns.modify q.iter fun c => { c with fetch := fetch } }

def canFetch (c : QueuedColumn) : Bool :=
  !c.fetch.block && !c.fetch.pending && c.fetch.currentInst.isSome

/-- `fetch_context`, as far as it changes the column: `feteched_last` is set for the last
instruction unless it is a branch. -/
def fetchContext (q : FetchQueue) : Except Fault FetchQueue := do
  let c ← q.current
  if !canFetch c then throw .assertion
  let last := c.fetch.pc = (c.column.insts.length : Int) - 1 ∧
    (c.column.insts.getLast?.all fun inst => !inst.opcode.checkBranchOp)
  return q.setCurrent { c.fetch with fetchedLast := last }

def fetchSuccess (q : FetchQueue) : Except Fault FetchQueue := do
  let c ← q.current
  return q.setCurrent { c.fetch with fetchedInst := c.fetch.currentInst, currentInst := none }

/-- The cursor cannot be moved past the end. -/
def next (q : FetchQueue) : Except Fault FetchQueue :=
  if q.columns.length ≤ q.iter then .error .undefined
  else .ok { q with iter := if q.iter + 1 = q.columns.length then 0 else q.iter + 1 }

def finishInstColumn (q : FetchQueue) (colId : Nat) : Except Fault FetchQueue :=
  match q.columns.find? fun c => c.id = colId with
  | none => .error .assertion
  | some c =>
    match q.dependencyInfo.lookup c.key with
    | none => .error .assertion
    | some info =>
      .ok { q with
        columns := q.columns.eraseP fun c => c.id = colId
        numColumns := q.numColumns - 1
        iter := 0
        dependencyInfo := if info.count - 1 = 0 then q.dependencyInfo.erase c.key
          else q.dependencyInfo.insert c.key { info with count := info.count - 1 } }

/-! ## Runs -/

inductive Op
  | push (col : InstColumn) (baseAddr : BitVec 64)
  | next
  | fetchContext
  | fetchSuccess
  | finish (colId : Nat)
  /-- Instructions are delivered and issued, branches resolved. -/
  | others (fetch : Nat → FetchState)

def step (uthreadSlots : Nat) (q : FetchQueue) : Op → Except Fault FetchQueue
  | .push col baseAddr => q.push uthreadSlots col baseAddr
  | .next => q.next
  | .fetchContext => q.fetchContext
  | .fetchSuccess => q.fetchSuccess
  | .finish colId => q.finishInstColumn colId
  | .others fetch => .ok { q with columns := q.columns.map fun c => { c with fetch := fetch c.id } }

def Run (uthreadSlots : Nat) : FetchQueue → Prop :=
  Relation.ReflTransGen (fun q q' => ∃ op, q.step uthreadSlots op = .ok q') create

/-- The counter, the cursor and the table of launches agree with the list of columns. -/
structure Represents (uthreadSlots : Nat) (q : FetchQueue) : Prop where
  count : q.numColumns = q.columns.length
  slots : q.numColumns ≤ uthreadSlots
  ids : (q.columns.map QueuedColumn.id).Nodup
  entry : ∀ k, (∃ info, q.dependencyInfo.lookup k = some info) ↔ ∃ c ∈ q.columns, c.key = k
  launched : ∀ k info, q.dependencyInfo.lookup k = some info →
    info.count = (q.columns.countP fun c => c.key = k : Nat)
  part : ∀ c ∈ q.columns, ∀ c' ∈ q.columns, c.key = c'.key → c.part = c'.part
  cursor : q.columns ≠ [] → ∃ c ∈ q.columns, q.current = .ok c

end FetchQueue

/-! ## The table of launches -/

namespace InstructionQueue

variable {slots : Nat} {q q' : InstructionQueue} {cols cols' : List (Nat × InstColumn)}
  {e : Nat × InstColumn} {k : Nat × Nat} {o : Option DependencyInfo} {info : DependencyInfo}

/-- The entry of a launch counts its columns, which all belong to the same part. -/
def Agrees (cols : List (Nat × InstColumn)) (k : Nat × Nat) : Option DependencyInfo → Prop
  | none => ∀ e ∈ cols, getDependencyKey e.2 ≠ k
  | some info => info.count = (cols.countP fun e => getDependencyKey e.2 = k : Nat) ∧
      0 < info.count ∧ ∀ e ∈ cols, getDependencyKey e.2 = k →
        e.2.req.type = info.currentType ∧ e.2.req.kernelBodyId = info.currentKernelBodyId

theorem Agrees.perm (h : Agrees cols k o) (hp : cols.Perm cols') : Agrees cols' k o := by
  cases o with
  | none => exact fun e he => h e (hp.mem_iff.mpr he)
  | some info =>
    obtain ⟨hcount, hpos, hpart⟩ := h
    rw [hp.countP_eq] at hcount
    exact ⟨hcount, hpos, fun e he => hpart e (hp.mem_iff.mpr he)⟩

theorem agrees_cons_of_ne (hne : getDependencyKey e.2 ≠ k) :
    Agrees (e :: cols) k o ↔ Agrees cols k o := by
  cases o with
  | none => simp [Agrees, hne]
  | some info => simp [Agrees, hne]

/-- The entry of a launch with one more column. -/
def pushedInfo (col : InstColumn) : Option DependencyInfo → DependencyInfo
  | none => ⟨col.req.type, col.req.kernelBodyId, 1⟩
  | some info => { info with count := info.count + 1 }

theorem Agrees.cons (h : Agrees cols (getDependencyKey e.2) o)
    (hpart : ∀ info, o = some info →
      info.currentType = e.2.req.type ∧ info.currentKernelBodyId = e.2.req.kernelBodyId) :
    Agrees (e :: cols) (getDependencyKey e.2) (some (pushedInfo e.2 o)) := by
  cases o with
  | none =>
    have hzero : (cols.countP fun x => getDependencyKey x.2 = getDependencyKey e.2) = 0 :=
      List.countP_eq_zero.mpr fun x hx => by simpa using h x hx
    refine ⟨by simp [pushedInfo, hzero], Int.one_pos, fun x hx hkey => ?_⟩
    obtain rfl | hx := List.mem_cons.mp hx
    · exact ⟨rfl, rfl⟩
    · exact absurd hkey (h x hx)
  | some info =>
    obtain ⟨hcount, hpos, hold⟩ := h
    obtain ⟨htype, hbody⟩ := hpart info rfl
    refine ⟨by simp [pushedInfo, hcount], by simp only [pushedInfo]; omega, fun x hx hkey => ?_⟩
    obtain rfl | hx := List.mem_cons.mp hx
    · exact ⟨htype.symm, hbody.symm⟩
    · exact hold x hx hkey

/-- One column of a launch less. -/
theorem Agrees.of_cons (h : Agrees (e :: cols) (getDependencyKey e.2) (some info)) :
    Agrees cols (getDependencyKey e.2)
      (if info.count - 1 = 0 then none else some { info with count := info.count - 1 }) := by
  obtain ⟨hcount, hpos, hpart⟩ := h
  simp only [List.countP_cons, decide_true, if_true] at hcount
  split
  case isTrue hlast =>
    intro x hx hkey
    have hnone : (cols.countP fun x => getDependencyKey x.2 = getDependencyKey e.2) = 0 := by omega
    exact List.countP_eq_zero.mp hnone x hx (by simpa using hkey)
  case isFalse hlast =>
    refine ⟨by simp only [hcount]; omega, by simp only; omega, fun x hx hkey => ?_⟩
    exact hpart x (List.mem_cons_of_mem _ hx) hkey

structure Accounted (slots : Nat) (q : InstructionQueue) : Prop where
  slots : q.columns.length ≤ slots
  numbered : ∀ e ∈ q.columns, e.1 < q.instColId
  ids : (q.columns.map Prod.fst).Nodup
  agrees : ∀ k, Agrees q.columns k (q.dependencyInfo.lookup k)

theorem accounted_create (slots : Nat) : Accounted slots create := by
  constructor <;> simp [create, Agrees]

theorem canPush_eq_true {col : InstColumn} (h : q.canPush slots col = true) :
    q.columns.length < slots ∧
      ∀ info, q.dependencyInfo.lookup (getDependencyKey col) = some info →
        info.currentType = col.req.type ∧ info.currentKernelBodyId = col.req.kernelBodyId := by
  simp only [canPush] at h
  split at h
  · cases h
  case isFalse hroom =>
    refine ⟨Nat.not_le.mp hroom, fun info hinfo => ?_⟩
    simpa [hinfo] using h

theorem Accounted.push (h : Accounted slots q) {col : InstColumn}
    (hpush : q.push slots col = .ok q') : Accounted slots q' := by
  simp only [InstructionQueue.push] at hpush
  split at hpush
  · cases hpush
  case isFalse hcan =>
  split at hpush
  · cases hpush
  obtain rfl := Except.ok.inj hpush
  obtain ⟨hroom, hpart⟩ := canPush_eq_true (by simpa using hcan)
  have hperm : ((q.instColId, col) :: q.columns).Perm (q.columns ++ [(q.instColId, col)]) :=
    (List.perm_append_singleton _ _).symm
  refine ⟨?_, fun e he => ?_, ?_, fun k => ?_⟩
  · simpa using hroom
  · obtain he | he := List.mem_append.mp he
    · exact (h.numbered e he).trans (Nat.lt_succ_self _)
    · rw [List.mem_singleton.mp he]
      exact Nat.lt_succ_self _
  · rw [List.map_append, List.map_singleton]
    refine h.ids.append (List.nodup_singleton _) (List.disjoint_singleton.mpr fun hmem => ?_)
    obtain ⟨e, he, heq⟩ := List.mem_map.mp hmem
    exact absurd (h.numbered e he) (by simp [heq])
  · refine Agrees.perm ?_ hperm
    rw [Binding.lookup_insert_eq_ite]
    split
    case isTrue heq =>
      subst heq
      have hcons := Agrees.cons (e := (q.instColId, col)) (h.agrees _) hpart
      unfold pushedInfo at hcons
      exact hcons
    case isFalse hne => exact (agrees_cons_of_ne (Ne.symm hne)).mpr (h.agrees k)

/-- The column that is finished is taken out of the list. -/
theorem perm_of_find {colId : Nat} (hids : (cols.map Prod.fst).Nodup)
    (h : cols.find? (fun e => e.1 == colId) = some e) :
    cols.Perm (e :: cols.filter fun e => e.1 != colId) := by
  obtain ⟨hid, pre, post, rfl, hpre⟩ := List.find?_eq_some_iff_append.mp h
  have hid : e.1 = colId := by simpa using hid
  rw [List.map_append, List.map_cons, List.nodup_append] at hids
  have hpost : ∀ x ∈ post, x.1 ≠ colId := by
    intro x hx heq
    have := (List.nodup_cons.mp hids.2.1).1
    exact this (List.mem_map.mpr ⟨x, hx, heq.trans hid.symm⟩)
  have hfilter : (pre ++ e :: post).filter (fun x => x.1 != colId) = pre ++ post := by
    rw [List.filter_append, List.filter_cons_of_neg (by simp [hid]),
      List.filter_eq_self.mpr, List.filter_eq_self.mpr]
    · exact fun x hx => by simpa using hpost x hx
    · exact fun x hx => by simpa using hpre x hx
  rw [hfilter]
  exact List.perm_middle

theorem Accounted.finish (h : Accounted slots q) {colId : Nat}
    (hfinish : q.finishInstColumn colId = .ok q') : Accounted slots q' := by
  simp only [finishInstColumn] at hfinish
  split at hfinish
  · cases hfinish
  case h_2 id col hfind =>
  split at hfinish
  · cases hfinish
  case h_2 info hinfo =>
  have hperm := perm_of_find h.ids hfind
  have hagrees : ∀ k, Agrees ((id, col) :: q.columns.filter fun e => e.1 != colId) k
      (q.dependencyInfo.lookup k) := fun k => (h.agrees k).perm hperm
  have hsub : (q.columns.filter fun e => e.1 != colId).Sublist q.columns :=
    List.filter_sublist
  have hself := hagrees (getDependencyKey col)
  rw [hinfo] at hself
  have hleft := Agrees.of_cons (e := (id, col)) hself
  split at hfinish
  case isTrue hlast =>
    obtain rfl := Except.ok.inj hfinish
    refine ⟨hsub.length_le.trans h.slots, fun e he => h.numbered e (hsub.subset he),
      (hsub.map _).nodup h.ids, fun k => ?_⟩
    rw [Binding.lookup_erase_eq_ite]
    split
    case isTrue heq =>
      rw [heq]
      simpa [hlast] using hleft
    case isFalse hne => exact (agrees_cons_of_ne (Ne.symm hne)).mp (hagrees k)
  case isFalse hlast =>
    obtain rfl := Except.ok.inj hfinish
    refine ⟨hsub.length_le.trans h.slots, fun e he => h.numbered e (hsub.subset he),
      (hsub.map _).nodup h.ids, fun k => ?_⟩
    rw [Binding.lookup_insert_eq_ite]
    split
    case isTrue heq =>
      rw [heq]
      simpa [hlast] using hleft
    case isFalse hne => exact (agrees_cons_of_ne (Ne.symm hne)).mp (hagrees k)

end InstructionQueue

/-! ## The queue of the source -/

namespace FetchQueue

variable {slots : Nat} {q q' : FetchQueue} {col : InstColumn}

/-- The queue without its counter, its cursor and the state of the fetches. -/
def toInstructionQueue (q : FetchQueue) : InstructionQueue where
  columns := q.columns.map fun c => (c.id, c.column)
  instColId := q.instColId
  dependencyInfo := q.dependencyInfo

theorem canPush_eq (h : q.numColumns = q.columns.length) :
    q.canPush slots col = q.toInstructionQueue.canPush slots col := by
  have hroom : (slots : Int) ≤ q.numColumns ↔ slots ≤ q.toInstructionQueue.columns.length := by
    rw [h, toInstructionQueue, List.length_map, Nat.cast_le]
  by_cases hfull : slots ≤ q.toInstructionQueue.columns.length
  · exact (if_pos (hroom.mpr hfull)).trans (if_pos hfull).symm
  · exact (if_neg (hroom.not.mpr hfull)).trans (if_neg hfull).symm

/-- `push` and `finish_inst_column` are those of the plain queue. -/
theorem push_toInstructionQueue (hcount : q.numColumns = q.columns.length)
    {baseAddr : BitVec 64} (h : q.push slots col baseAddr = .ok q') :
    q.toInstructionQueue.push slots col = .ok q'.toInstructionQueue ∧
      q'.numColumns = q'.columns.length ∧ q'.iter = 0 ∧ q'.columns ≠ [] := by
  simp only [push, canPush_eq hcount] at h
  split at h
  · cases h
  case isFalse hcan =>
  split at h
  · cases h
  case isFalse hinsts =>
  split at h
  · cases h
  obtain rfl := Except.ok.inj h
  refine ⟨?_, by simp [hcount], rfl, by simp⟩
  simp only [InstructionQueue.push, hcan, hinsts]
  simp [toInstructionQueue]
  rfl

theorem map_eraseP_eq_filter {cs : List QueuedColumn} (colId : Nat)
    (hids : (cs.map QueuedColumn.id).Nodup) :
    (cs.eraseP fun c => c.id = colId).map (fun c => (c.id, c.column)) =
      (cs.map fun c => (c.id, c.column)).filter fun e => e.1 != colId := by
  induction cs with
  | nil => rfl
  | cons c cs ih =>
    rw [List.map_cons, List.nodup_cons] at hids
    by_cases hid : c.id = colId
    · have hrest : ∀ e ∈ cs.map (fun c => (c.id, c.column)), (e.1 != colId) = true := by
        intro e he
        obtain ⟨x, hx, rfl⟩ := List.mem_map.mp he
        simp only [bne_iff_ne]
        rintro rfl
        exact hids.1 (List.mem_map.mpr ⟨x, hx, hid.symm⟩)
      rw [List.eraseP_cons_of_pos (by simpa using hid), List.map_cons,
        List.filter_cons_of_neg (by simpa using hid), List.filter_eq_self.mpr hrest]
    · rw [List.eraseP_cons_of_neg (by simpa using hid), List.map_cons, List.map_cons,
        List.filter_cons_of_pos (by simpa using hid), ih hids.2]

theorem finish_toInstructionQueue (hids : (q.columns.map QueuedColumn.id).Nodup)
    (hcount : q.numColumns = q.columns.length) {colId : Nat}
    (h : q.finishInstColumn colId = .ok q') :
    q.toInstructionQueue.finishInstColumn colId = .ok q'.toInstructionQueue ∧
      q'.numColumns = q'.columns.length ∧ q'.iter = 0 := by
  simp only [finishInstColumn] at h
  split at h
  · cases h
  case h_2 c hfind =>
  split at h
  · cases h
  case h_2 info hinfo =>
  obtain rfl := Except.ok.inj h
  have hmem := List.mem_of_find?_eq_some hfind
  have hlen : (q.columns.eraseP fun c => c.id = colId).length = q.columns.length - 1 :=
    List.length_eraseP_of_mem hmem (by simpa using List.find?_some hfind)
  have hpos : 0 < q.columns.length := List.length_pos_of_mem hmem
  refine ⟨?_, by simp only [hlen, hcount]; omega, rfl⟩
  have hfound : q.toInstructionQueue.columns.find? (fun e => e.1 == colId) =
      some (c.id, c.column) := by
    simp only [toInstructionQueue, List.find?_map]
    rw [show (fun e : Nat × InstColumn => e.1 == colId) ∘ (fun c : QueuedColumn =>
      (c.id, c.column)) = fun c => decide (c.id = colId) from rfl, hfind]
    rfl
  have hinfo' : q.toInstructionQueue.dependencyInfo.lookup
      (InstructionQueue.getDependencyKey c.column) = some info := hinfo
  simp only [InstructionQueue.finishInstColumn, hfound, hinfo']
  simp only [toInstructionQueue, map_eraseP_eq_filter _ hids]
  split <;> rfl

structure Inv (slots : Nat) (q : FetchQueue) : Prop where
  accounted : q.toInstructionQueue.Accounted slots
  count : q.numColumns = q.columns.length
  cursor : q.columns ≠ [] → q.iter < q.columns.length

theorem Inv.ids (h : Inv slots q) : (q.columns.map QueuedColumn.id).Nodup := by
  have hids := h.accounted.ids
  rwa [toInstructionQueue, List.map_map] at hids

/-- Only the state of the fetches and the cursor have changed. -/
theorem Inv.congr (h : Inv slots q)
    (hcols : q'.columns.map (fun c => (c.id, c.column)) = q.columns.map fun c => (c.id, c.column))
    (hid : q'.instColId = q.instColId) (hdeps : q'.dependencyInfo = q.dependencyInfo)
    (hnum : q'.numColumns = q.numColumns)
    (hiter : q.iter < q.columns.length → q'.iter < q.columns.length) : Inv slots q' := by
  have hsame : q'.toInstructionQueue = q.toInstructionQueue := by
    simp only [toInstructionQueue, hcols, hid, hdeps]
  have hlen : q'.columns.length = q.columns.length := by
    simpa using congrArg List.length hcols
  refine ⟨hsame ▸ h.accounted, by rw [hnum, hlen, h.count], fun hne => ?_⟩
  have hpos : q.columns ≠ [] := List.length_pos_iff.mp (hlen ▸ List.length_pos_iff.mpr hne)
  rw [hlen]
  exact hiter (h.cursor hpos)

theorem map_setCurrent (q : FetchQueue) (fetch : FetchState) :
    (q.setCurrent fetch).columns.map (fun c => (c.id, c.column)) =
      q.columns.map fun c => (c.id, c.column) := by
  refine List.ext_getElem? fun i => ?_
  simp only [setCurrent, List.getElem?_map, List.getElem?_modify]
  cases q.columns[i]? with
  | none => rfl
  | some c => split <;> rfl

theorem Inv.step (h : Inv slots q) (op : Op) (hs : q.step slots op = .ok q') : Inv slots q' := by
  cases op with
  | push col baseAddr =>
    obtain ⟨hpush, hcount, hiter, hne⟩ := push_toInstructionQueue h.count hs
    exact ⟨h.accounted.push hpush, hcount, fun _ => hiter ▸ List.length_pos_iff.mpr hne⟩
  | finish colId =>
    obtain ⟨hfinish, hcount, hiter⟩ := finish_toInstructionQueue h.ids h.count hs
    exact ⟨h.accounted.finish hfinish, hcount, fun hne => hiter ▸ List.length_pos_iff.mpr hne⟩
  | next =>
    simp only [FetchQueue.step, next] at hs
    split at hs
    · cases hs
    case isFalse hin =>
      obtain rfl := Except.ok.inj hs
      refine h.congr rfl rfl rfl rfl fun _ => ?_
      dsimp only
      split <;> omega
  | fetchContext =>
    simp only [FetchQueue.step, fetchContext] at hs
    obtain ⟨c, -, hs⟩ := bind_eq_ok.mp hs
    split at hs
    · cases hs
    · obtain rfl := Except.ok.inj hs
      exact h.congr (map_setCurrent q _) rfl rfl rfl id
  | fetchSuccess =>
    obtain ⟨c, -, hs⟩ := bind_eq_ok.mp hs
    obtain rfl := Except.ok.inj hs
    exact h.congr (map_setCurrent q _) rfl rfl rfl id
  | others fetch =>
    obtain rfl := Except.ok.inj hs
    refine h.congr ?_ rfl rfl rfl id
    rw [List.map_map]
    rfl

theorem inv_create (slots : Nat) : Inv slots create :=
  ⟨InstructionQueue.accounted_create slots, rfl, fun h => absurd rfl h⟩

theorem Run.inv (h : Run slots q) : Inv slots q := by
  induction h with
  | refl => exact inv_create slots
  | tail _ hs ih =>
    obtain ⟨op, hs⟩ := hs
    exact ih.step op hs

theorem Inv.represents (h : Inv slots q) : Represents slots q := by
  have hslots := h.accounted.slots
  have hagrees := h.accounted.agrees
  simp only [toInstructionQueue, List.length_map] at hslots hagrees
  refine ⟨h.count, by rw [h.count]; exact_mod_cast hslots, h.ids, fun k => ?_,
    fun k info hk => ?_, fun c hc c' hc' hkey => ?_, fun hne => ?_⟩
  · have hk := hagrees k
    cases hlook : q.dependencyInfo.lookup k with
    | none =>
      rw [hlook] at hk
      refine iff_of_false (by simp) ?_
      rintro ⟨c, hc, hkey⟩
      exact hk _ (List.mem_map.mpr ⟨c, hc, rfl⟩) hkey
    | some info =>
      rw [hlook] at hk
      refine iff_of_true ⟨info, rfl⟩ ?_
      have hpos : 0 < (q.columns.map fun c => (c.id, c.column)).countP
          fun e => InstructionQueue.getDependencyKey e.2 = k := by
        have := hk.1 ▸ hk.2.1
        exact_mod_cast this
      obtain ⟨e, he, hkey⟩ := List.countP_pos_iff.mp hpos
      obtain ⟨c, hc, rfl⟩ := List.mem_map.mp he
      exact ⟨c, hc, of_decide_eq_true hkey⟩
  · have hcount := hagrees k
    rw [hk] at hcount
    rw [hcount.1, List.countP_map]
    rfl
  · have hboth := hagrees c.key
    cases hlook : q.dependencyInfo.lookup c.key with
    | none =>
      rw [hlook] at hboth
      exact absurd rfl (hboth _ (List.mem_map.mpr ⟨c, hc, rfl⟩))
    | some info =>
      rw [hlook] at hboth
      obtain ⟨ht, hb⟩ := hboth.2.2 _ (List.mem_map.mpr ⟨c, hc, rfl⟩) rfl
      obtain ⟨ht', hb'⟩ := hboth.2.2 _ (List.mem_map.mpr ⟨c', hc', rfl⟩) hkey.symm
      exact Prod.ext (ht.trans ht'.symm) (hb.trans hb'.symm)
  · have hiter := h.cursor hne
    have hget := List.getElem?_eq_getElem hiter
    exact ⟨q.columns[q.iter], List.getElem_mem hiter, by simp [current, hget]⟩

/-- Whatever is pushed, fetched and finished, the counter, the cursor and the table agree with the
columns. -/
theorem run_represents (h : Run slots q) : Represents slots q := h.inv.represents

/-- Two columns of a launch are queued, and the first of them is finished. -/
theorem represents_after_finish : ∃ q, Run 2 q ∧ q.columns.map QueuedColumn.id = [1] ∧
    Represents 2 q := by
  set col := countedColumn [RegisterUnit.sampleLi] ∅ RegisterUnit.sampleRequest
  have hrun : Run 2 _ :=
    .tail (.tail (.tail (.tail .refl ⟨.push col 0, rfl⟩) ⟨.push col 0, rfl⟩) ⟨.next, rfl⟩)
      ⟨.finish 0, rfl⟩
  exact ⟨_, hrun, rfl, run_represents hrun⟩

end FetchQueue

end NdpSim
