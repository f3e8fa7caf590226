import NdpSim.Timing.InstructionBuffer

/-!
# The life of a column

A column handed to a sub-core is renamed, queued, executed and finally handled by the NDP
unit, which gives its registers back. Columns without instructions skip the queue: they are
reported finished under sub-core `-1`, and nothing releases what renaming bound for them.
-/
namespace NdpSim

open Library

structure DependencyInfo where
  currentType : RequestType
  currentKernelBodyId : Nat
  count : Int

/-- The columns being executed, each under the number the queue gave it, and which part of
which launch may be in the queue at a time. -/
structure InstructionQueue where
  columns : List (Nat × InstColumn)
  instColId : Nat
  dependencyInfo : AList fun _ : Nat × Nat => DependencyInfo

namespace InstructionQueue

def create : InstructionQueue := ⟨[], 0, ∅⟩

def getDependencyKey (col : InstColumn) : Nat × Nat := (col.req.kernelId, col.req.launchId)

/-- The queue has a slot, and what it holds of the launch is of the same part. -/
def canPush (q : InstructionQueue) (uthreadSlots : Nat) (col : InstColumn) : Bool :=
  if uthreadSlots ≤ q.columns.length then false
  else
    match q.dependencyInfo.lookup (getDependencyKey col) with
    | some info =>
      info.currentType = col.req.type && info.currentKernelBodyId = col.req.kernelBodyId
    | none => true

def push (q : InstructionQueue) (uthreadSlots : Nat) (col : InstColumn) :
    Except Fault InstructionQueue := do
  if !q.canPush uthreadSlots col then throw .assertion
  if col.insts.isEmpty then throw .assertion
  let key := getDependencyKey col
  let info := match q.dependencyInfo.lookup key with
    | none => ⟨col.req.type, col.req.kernelBodyId, 1⟩
    | some info => { info with count := info.count + 1 }
  return { columns := q.columns ++ [(q.instColId, col)]
           instColId := q.instColId + 1
           dependencyInfo := q.dependencyInfo.insert key info }

def finishInstColumn (q : InstructionQueue) (colId : Nat) : Except Fault InstructionQueue :=
  match q.columns.find? fun e => e.1 == colId with
  | none => .error .assertion
  | some (_, col) =>
    match q.dependencyInfo.lookup (getDependencyKey col) with
    | none => .error .assertion
    | some info =>
      let rest := q.columns.filter fun e => e.1 != colId
      if info.count - 1 = 0 then
        .ok { q with
          columns := rest
          dependencyInfo := q.dependencyInfo.erase (getDependencyKey col) }
      else
        .ok { q with
          columns := rest
          dependencyInfo :=
            q.dependencyInfo.insert (getDependencyKey col) { info with count := info.count - 1 } }

end InstructionQueue

/-- The report that a column is finished; sub-core `-1` stands for an empty column. -/
structure FinishedContext where
  subCoreId : Int
  instColId : Nat
  requestInfo : RequestInfo

structure SubCore where
  subCoreId : Nat
  uthreadSlots : Nat
  instColumnQ : List InstColumn
  registerUnit : RegisterUnit
  instructionQueue : InstructionQueue
  /-- The queue numbers of the columns whose last instruction has completed. -/
  completed : List Nat
  finishedContexts : List FinishedContext

namespace SubCore

def create (subCoreId uthreadSlots nx nf nv : Nat) : SubCore :=
  ⟨subCoreId, uthreadSlots, [], .create nx nf nv, .create, [], []⟩

/-- Rename the next column if its counted demand is free. -/
def instructionRegisterAllocate (s : SubCore) : Except Fault SubCore :=
  match s.instColumnQ with
  | [] => .ok s
  | col :: rest =>
    if s.registerUnit.renameFull col then .ok s
    else do
      let u ← s.registerUnit.renamePush col (toInt col.req.id)
      return { s with instColumnQ := rest, registerUnit := u }

/-- Queue the next renamed column, or report it finished at once if it is empty. -/
def instructionQueueAllocate (s : SubCore) : Except Fault SubCore :=
  match s.registerUnit.afterRename with
  | [] => .ok s
  | col :: rest =>
    if !s.instructionQueue.canPush s.uthreadSlots col then .ok s
    else
      let s := { s with registerUnit := { s.registerUnit with afterRename := rest } }
      if col.insts.isEmpty then
        .ok { s with finishedContexts := s.finishedContexts ++ [⟨-1, 0, col.req⟩] }
      else do
        let q ← s.instructionQueue.push s.uthreadSlots col
        return { s with instructionQueue := q }

/-- One round of `handle_finished_context` on the first report. -/
def handleFinishedContext (s : SubCore) (context : FinishedContext)
    (rest : List FinishedContext)
    (order : s.registerUnit.IterationOrder (toInt context.requestInfo.id)) :
    Except Fault SubCore :=
  let s' := { s with finishedContexts := rest }
  if context.subCoreId = -1 then .ok s'
  else do
    let u := s.registerUnit.freeRegs (toInt context.requestInfo.id) order
    let q ← s.instructionQueue.finishInstColumn context.instColId
    return { s' with registerUnit := u, instructionQueue := q }

/-- The columns that were handed over and not handled yet. -/
def inFlight (s : SubCore) : List InstColumn :=
  s.instColumnQ ++ (s.registerUnit.afterRename ++ s.instructionQueue.columns.map Prod.snd)

/-- What happens to a sub-core, in any order, when only columns that `allowed` permits are handed
over. -/
inductive Step (allowed : SubCore → InstColumn → Prop) : SubCore → SubCore → Prop
  | hand {s} (col : InstColumn) (ha : allowed s col) :
      Step allowed s { s with instColumnQ := s.instColumnQ ++ [col] }
  | instructionRegisterAllocate {s s'} (h : s.instructionRegisterAllocate = .ok s') :
      Step allowed s s'
  | instructionQueueAllocate {s s'} (h : s.instructionQueueAllocate = .ok s') : Step allowed s s'
  /-- Instructions are issued and written back: contents and readiness of registers change. -/
  | execute {s} (xt : Int → BitVec 64) (ft : Int → F32) (vt : Int → VectorData)
      (notReady : Finset Int) :
      Step allowed s { s with registerUnit := { s.registerUnit with
        xregTable := xt, fregTable := ft, vregTable := vt, notReady := notReady } }
  /-- The last instruction of a queued column leaves its execution unit. -/
  | complete {s} (id : Nat) (col : InstColumn) (hq : (id, col) ∈ s.instructionQueue.columns)
      (hc : id ∉ s.completed) :
      Step allowed s { s with
        completed := id :: s.completed
        finishedContexts := s.finishedContexts ++ [⟨s.subCoreId, id, col.req⟩] }
  | handleFinishedContext {s s' context rest order}
      (hf : s.finishedContexts = context :: rest)
      (h : s.handleFinishedContext context rest order = .ok s') : Step allowed s s'

/-- The states a run from an idle sub-core reaches. -/
def Run (allowed : SubCore → InstColumn → Prop) (subCoreId uthreadSlots nx nf nv : Nat) :
    SubCore → Prop :=
  Relation.ReflTransGen (Step allowed) (create subCoreId uthreadSlots nx nf nv)

/-- Nothing is left of what the sub-core was handed. -/
def Quiescent (s : SubCore) : Prop := s.inFlight = [] ∧ s.finishedContexts = []

/-- All registers are back in their free lists and no packet is mapped. -/
def NothingHeld (s : SubCore) : Prop :=
  (∀ c, (s.registerUnit.pool c).free.Perm (c.physical (s.registerUnit.numRegs c))) ∧
    ∀ key, ¬ s.registerUnit.Live key

/-- The packet numbers in the sub-core. -/
def packetIds (s : SubCore) : List Int := s.inFlight.map fun col => toInt col.req.id

/-- A column has instructions, and its packet number is not in use in the sub-core. -/
def Releasable (s : SubCore) (col : InstColumn) : Prop :=
  col.insts ≠ [] ∧ toInt col.req.id ∉ s.packetIds

/-! ## What the steps do to the queue -/

end SubCore

namespace InstructionQueue

theorem push_eq_ok {q q' : InstructionQueue} {slots : Nat} {col : InstColumn}
    (h : q.push slots col = .ok q') :
    q'.columns = q.columns ++ [(q.instColId, col)] ∧ q'.instColId = q.instColId + 1 := by
  simp only [push] at h
  split at h
  · cases h
  split at h
  · cases h
  obtain rfl := Except.ok.inj h
  exact ⟨rfl, rfl⟩

theorem finishInstColumn_eq_ok {q q' : InstructionQueue} {colId : Nat}
    (h : q.finishInstColumn colId = .ok q') :
    (∃ col, (colId, col) ∈ q.columns) ∧ q'.columns = q.columns.filter (fun e => e.1 != colId) ∧
      q'.instColId = q.instColId := by
  simp only [finishInstColumn] at h
  split at h
  case h_1 => cases h
  case h_2 id col hfind =>
    have hid : id = colId := by simpa using List.find?_some hfind
    refine ⟨⟨col, hid ▸ List.mem_of_find?_eq_some hfind⟩, ?_⟩
    split at h
    · cases h
    split at h
    · obtain rfl := Except.ok.inj h
      exact ⟨rfl, rfl⟩
    · obtain rfl := Except.ok.inj h
      exact ⟨rfl, rfl⟩

end InstructionQueue

namespace SubCore

/-- What the sub-core keeps while only releasable columns are handed over: a packet is mapped
exactly while its column is renamed or queued, and every report belongs to a queued column. -/
structure Inv (n : RegClass → Nat) (s : SubCore) : Prop where
  conserved : s.registerUnit.Conserved
  numRegs : s.registerUnit.numRegs = n
  nodup : s.packetIds.Nodup
  nonempty : ∀ col ∈ s.inFlight, col.insts ≠ []
  live : ∀ key, s.registerUnit.Live key ↔ ∃ col ∈ s.registerUnit.afterRename ++
    s.instructionQueue.columns.map Prod.snd, toInt col.req.id = key
  queued : (s.instructionQueue.columns.map Prod.fst).Nodup
  numbered : ∀ e ∈ s.instructionQueue.columns, e.1 < s.instructionQueue.instColId
  reported : (s.finishedContexts.map FinishedContext.instColId).Nodup
  done : ∀ r ∈ s.finishedContexts, r.instColId ∈ s.completed
  reports : ∀ r ∈ s.finishedContexts, r.subCoreId ≠ -1 ∧
    ∃ col, (r.instColId, col) ∈ s.instructionQueue.columns ∧ col.req = r.requestInfo

theorem Inv.create (subCoreId uthreadSlots nx nf nv : Nat) :
    Inv (RegisterUnit.create nx nf nv).numRegs (create subCoreId uthreadSlots nx nf nv) where
  conserved := RegisterUnit.Conserved.create nx nf nv
  numRegs := rfl
  nodup := List.nodup_nil
  nonempty := by simp [inFlight, SubCore.create, InstructionQueue.create, RegisterUnit.create]
  live key := by
    refine iff_of_false ?_ ?_
    · rintro ⟨c, hc⟩
      cases c <;> exact AList.notMem_empty _ hc
    · simp [SubCore.create, InstructionQueue.create, RegisterUnit.create]
  queued := List.nodup_nil
  numbered := by simp [SubCore.create, InstructionQueue.create]
  reported := List.nodup_nil
  done := by simp [SubCore.create]
  reports := by simp [SubCore.create]

/-- A quiescent sub-core with the invariant holds nothing. -/
theorem Inv.nothingHeld {n : RegClass → Nat} {s : SubCore} (h : s.Inv n) (hq : s.Quiescent) :
    s.NothingHeld := by
  have hl : ∀ key, ¬ s.registerUnit.Live key := by
    intro key hk
    obtain ⟨col, hc, -⟩ := (h.live key).mp hk
    have hm : col ∈ s.inFlight := List.mem_append_right _ hc
    rw [hq.1] at hm
    cases hm
  exact ⟨h.conserved.free_perm hl, hl⟩

section Preserved

variable {n : RegClass → Nat} {s s' : SubCore}

theorem Inv.hand (h : s.Inv n) {col : InstColumn} (ha : Releasable s col) :
    Inv n { s with instColumnQ := s.instColumnQ ++ [col] } := by
  refine ⟨h.conserved, h.numRegs, ?_, ?_, h.live, h.queued, h.numbered, h.reported, h.done,
    h.reports⟩
  · have hp : (packetIds { s with instColumnQ := s.instColumnQ ++ [col] }).Perm
        (toInt col.req.id :: s.packetIds) := by
      simp only [packetIds, inFlight, List.append_assoc, List.map_append, List.singleton_append,
        List.map_cons]
      exact List.perm_middle
    exact hp.nodup_iff.mpr (List.nodup_cons.mpr ⟨ha.2, h.nodup⟩)
  · intro c hc
    simp only [inFlight, List.mem_append, List.mem_singleton] at hc
    obtain (hc | rfl) | hc := hc
    · exact h.nonempty c (List.mem_append_left _ hc)
    · exact ha.1
    · exact h.nonempty c (List.mem_append_right _ (List.mem_append.mpr hc))

theorem afterRename_convert {u u' : RegisterUnit} {insts out : List NdpInstruction} {key : Int}
    {req : RequestInfo} (h : u.convert insts key req = .ok (out, u')) :
    u'.afterRename = u.afterRename := by
  obtain ⟨u₁, u₂, h₁, h₂, h⟩ := RegisterUnit.convert_eq_ok.mp h
  obtain ⟨px, rest, -, rfl⟩ := RegisterUnit.initXreg_eq_ok.mp h₁
  obtain ⟨px', rest', -, rfl⟩ := RegisterUnit.initXreg_eq_ok.mp h₂
  refine RegisterUnit.convertInsts_invariant (P := fun w => w.afterRename = u.afterRename)
    (fun _ hw => hw) (fun {w w' c} _ _ _ _ hd hw => ?_) h rfl
  obtain ⟨-, rfl⟩ | ⟨-, -, rest, -, rfl⟩ | ⟨-, -, partner, rest, -, rfl⟩ :=
    RegisterUnit.destRename_cases hd
  · exact hw
  · cases c <;> exact hw
  · cases c <;> exact hw

/-- Nothing was renamed, or the first column was. -/
theorem instructionRegisterAllocate_cases (hs : s.instructionRegisterAllocate = .ok s') :
    s' = s ∨ ∃ col rest insts u, s.instColumnQ = col :: rest ∧
      s.registerUnit.renameFull col = false ∧
      s.registerUnit.convert col.insts (toInt col.req.id) col.req = .ok (insts, u) ∧
      s' = { s with
        instColumnQ := rest
        registerUnit :=
          { u with afterRename := u.afterRename ++ [{ col with insts := insts }] } } := by
  unfold instructionRegisterAllocate at hs
  cases hq : s.instColumnQ with
  | nil =>
    rw [hq] at hs
    exact .inl (Except.ok.inj hs).symm
  | cons col rest =>
    simp only [hq] at hs
    split at hs
    · exact .inl (Except.ok.inj hs).symm
    obtain ⟨u, hu, hs⟩ := bind_eq_ok.mp hs
    obtain ⟨hfull, insts, u₁, hc, rfl⟩ := RegisterUnit.renamePush_eq_ok.mp hu
    exact .inr ⟨col, rest, insts, u₁, rfl, hfull, hc, (Except.ok.inj hs).symm⟩

theorem instructionRegisterAllocate_cons {col : InstColumn} {rest : List InstColumn}
    {u : RegisterUnit} (hq : s.instColumnQ = col :: rest)
    (hfull : s.registerUnit.renameFull col = false)
    (hpush : s.registerUnit.renamePush col (toInt col.req.id) = .ok u) :
    s.instructionRegisterAllocate = .ok { s with instColumnQ := rest, registerUnit := u } := by
  simp only [instructionRegisterAllocate, hq, hfull, hpush, Bool.false_eq_true, if_false]
  rfl

/-- Nothing was queued, or the first renamed column was, or it was empty and reported. -/
theorem instructionQueueAllocate_cases (hs : s.instructionQueueAllocate = .ok s') :
    s' = s ∨ ∃ col rest, s.registerUnit.afterRename = col :: rest ∧
      ((col.insts = [] ∧ s' = { s with
          registerUnit := { s.registerUnit with afterRename := rest }
          finishedContexts := s.finishedContexts ++ [⟨-1, 0, col.req⟩] }) ∨
        ∃ q, s.instructionQueue.push s.uthreadSlots col = .ok q ∧ s' = { s with
          registerUnit := { s.registerUnit with afterRename := rest }
          instructionQueue := q }) := by
  unfold instructionQueueAllocate at hs
  cases hq : s.registerUnit.afterRename with
  | nil =>
    simp only [hq] at hs
    exact .inl (Except.ok.inj hs).symm
  | cons col rest =>
    simp only [hq] at hs
    split at hs
    · exact .inl (Except.ok.inj hs).symm
    refine .inr ⟨col, rest, rfl, ?_⟩
    split at hs
    case isTrue he => exact .inl ⟨List.isEmpty_iff.mp he, (Except.ok.inj hs).symm⟩
    case isFalse =>
      obtain ⟨q, hpush, hs⟩ := bind_eq_ok.mp hs
      exact .inr ⟨q, hpush, (Except.ok.inj hs).symm⟩

/-- The report of an empty column is dropped; another one frees its packet and its column. -/
theorem handleFinishedContext_cases {context : FinishedContext} {rest : List FinishedContext}
    {order : s.registerUnit.IterationOrder (toInt context.requestInfo.id)}
    (hs : s.handleFinishedContext context rest order = .ok s') :
    (context.subCoreId = -1 ∧ s' = { s with finishedContexts := rest }) ∨
      (context.subCoreId ≠ -1 ∧ ∃ q,
        s.instructionQueue.finishInstColumn context.instColId = .ok q ∧
        s' = { s with
          finishedContexts := rest
          registerUnit := s.registerUnit.freeRegs (toInt context.requestInfo.id) order
          instructionQueue := q }) := by
  simp only [handleFinishedContext] at hs
  split at hs
  case isTrue he => exact .inl ⟨he, (Except.ok.inj hs).symm⟩
  case isFalse hne =>
    obtain ⟨q, hq, hs⟩ := bind_eq_ok.mp hs
    exact .inr ⟨hne, q, hq, (Except.ok.inj hs).symm⟩

theorem Inv.instructionRegisterAllocate (h : s.Inv n)
    (hs : s.instructionRegisterAllocate = .ok s') : s'.Inv n := by
  obtain rfl | ⟨col, rest, insts, u₁, hq, -, hc, rfl⟩ := instructionRegisterAllocate_cases hs
  · exact h
  · have hin : s.inFlight = col :: (rest ++ (s.registerUnit.afterRename ++
        s.instructionQueue.columns.map Prod.snd)) := by
      rw [inFlight, hq, List.cons_append]
    -- the packet number of the column is not mapped yet
    have hfresh : ¬ s.registerUnit.Live (toInt col.req.id) := by
      intro hl
      obtain ⟨c, hc, he⟩ := (h.live _).mp hl
      have hnd := h.nodup
      rw [packetIds, hin, List.map_cons, List.nodup_cons] at hnd
      exact hnd.1 (List.mem_map.mpr ⟨c, List.mem_append_right _ hc, he⟩)
    have hcons := h.conserved.convert hfresh hc
    have hafter := afterRename_convert hc
    have hne : insts ≠ [] := by
      have hcol := h.nonempty col (by simp [hin])
      rw [← List.length_pos_iff] at hcol ⊢
      rwa [RegisterUnit.length_convert hc]
    refine ⟨⟨hcons.perm, hcons.paired⟩, (RegisterUnit.numRegs_convert hc).trans h.numRegs, ?_, ?_,
      fun key => ?_, h.queued, h.numbered, h.reported, h.done, h.reports⟩
    · have hnd := h.nodup
      rw [packetIds, hin] at hnd
      simp only [packetIds, inFlight, hafter, List.map_append, List.map_cons,
        List.append_assoc, List.singleton_append] at hnd ⊢
      refine (List.Perm.nodup_iff ?_).mp hnd
      rw [← List.append_assoc, ← List.append_assoc]
      exact List.perm_middle.symm
    · intro c hm
      simp only [inFlight, hafter, List.mem_append, List.mem_singleton] at hm
      obtain hm | (hm | rfl) | hm := hm
      · exact h.nonempty c (by simp [hin, hm])
      · exact h.nonempty c (by simp [hin, hm])
      · exact hne
      · exact h.nonempty c (by rw [hin]; simp [hm])
    · refine (RegisterUnit.live_convert hc).trans ?_
      rw [h.live key]
      simp only [hafter, List.mem_append, List.mem_singleton]
      constructor
      · rintro (hk | ⟨c, hm, he⟩)
        · exact ⟨{ col with insts := insts }, .inl (.inr rfl), hk.symm⟩
        · exact ⟨c, hm.imp_left .inl, he⟩
      · rintro ⟨c, (hm | rfl) | hm, he⟩
        · exact .inr ⟨c, .inl hm, he⟩
        · exact .inl he.symm
        · exact .inr ⟨c, .inr hm, he⟩

theorem Inv.instructionQueueAllocate (h : s.Inv n)
    (hs : s.instructionQueueAllocate = .ok s') : s'.Inv n := by
  obtain rfl | ⟨col, rest, hq, hs⟩ := instructionQueueAllocate_cases hs
  · exact h
  · have hin : s.inFlight = s.instColumnQ ++ (col :: rest ++
        s.instructionQueue.columns.map Prod.snd) := by rw [inFlight, hq]
    obtain ⟨hempty, -⟩ | ⟨q, hpush, rfl⟩ := hs
    · exact absurd hempty (h.nonempty col (by simp [hin]))
    obtain ⟨hcols, hid⟩ := InstructionQueue.push_eq_ok hpush
    refine ⟨⟨h.conserved.perm, h.conserved.paired⟩, h.numRegs, ?_, ?_, fun key => ?_, ?_, ?_,
      h.reported, h.done, ?_⟩
    · have hnd := h.nodup
      rw [packetIds, hin] at hnd
      simp only [packetIds, inFlight, hcols, List.map_append, List.map_cons, List.map_nil,
        List.cons_append] at hnd ⊢
      refine (List.Perm.nodup_iff ?_).mp hnd
      refine List.Perm.append_left _ ?_
      rw [← List.append_assoc]
      exact (List.perm_append_singleton _ _).symm
    · intro c hm
      refine h.nonempty c ?_
      rw [hin]
      simp only [inFlight, hcols, List.map_append, List.map_cons, List.map_nil, List.mem_append,
        List.mem_cons, List.not_mem_nil, or_false] at hm ⊢
      tauto
    · refine (h.live key).trans ?_
      rw [hq]
      have hm (c : InstColumn) : c ∈ col :: rest ++ s.instructionQueue.columns.map Prod.snd ↔
          c ∈ rest ++ q.columns.map Prod.snd := by
        simp only [hcols, List.map_append, List.map_cons, List.map_nil, List.mem_append,
          List.mem_cons, List.not_mem_nil, or_false]
        tauto
      simp only [hm]
    · rw [hcols, List.map_append, List.map_cons, List.map_nil]
      refine List.nodup_append'.mpr ⟨h.queued, List.nodup_singleton _, ?_⟩
      rintro id hm hi
      obtain rfl := List.mem_singleton.mp hi
      obtain ⟨e, he, hid⟩ := List.mem_map.mp hm
      exact absurd hid (h.numbered e he).ne
    · intro e he
      rw [hcols, List.mem_append, List.mem_singleton] at he
      rw [hid]
      obtain he | rfl := he
      · have := h.numbered e he
        omega
      · exact Nat.lt_succ_self _
    · intro r hr
      obtain ⟨hsc, c, hm, he⟩ := h.reports r hr
      exact ⟨hsc, c, by rw [hcols]; exact List.mem_append_left _ hm, he⟩

theorem Inv.complete (h : s.Inv n) {id : Nat} {col : InstColumn}
    (hq : (id, col) ∈ s.instructionQueue.columns) (hc : id ∉ s.completed) :
    Inv n { s with
      completed := id :: s.completed
      finishedContexts := s.finishedContexts ++ [⟨s.subCoreId, id, col.req⟩] } := by
  refine ⟨h.conserved, h.numRegs, h.nodup, h.nonempty, h.live, h.queued, h.numbered, ?_, ?_, ?_⟩
  · rw [List.map_append, List.map_cons, List.map_nil]
    refine List.nodup_append'.mpr ⟨h.reported, List.nodup_singleton _, ?_⟩
    intro i hm hi
    obtain rfl := List.mem_singleton.mp hi
    obtain ⟨r, hr, rfl⟩ := List.mem_map.mp hm
    exact hc (h.done r hr)
  · intro r hr
    obtain hr | hr := List.mem_append.mp hr
    · exact List.mem_cons_of_mem _ (h.done r hr)
    · rw [List.mem_singleton.mp hr]
      exact List.mem_cons_self
  · intro r hr
    obtain hr | hr := List.mem_append.mp hr
    · exact h.reports r hr
    · rw [List.mem_singleton.mp hr]
      exact ⟨by simp, col, hq, rfl⟩

/-- Releasing a packet leaves exactly the other columns mapped. -/
theorem Inv.handleFinishedContext (h : s.Inv n) {context : FinishedContext}
    {rest : List FinishedContext}
    {order : s.registerUnit.IterationOrder (toInt context.requestInfo.id)}
    (hf : s.finishedContexts = context :: rest)
    (hs : s.handleFinishedContext context rest order = .ok s') : s'.Inv n := by
  obtain ⟨hsc, col, hcol, hreq⟩ := h.reports context (by simp [hf])
  obtain ⟨he, -⟩ | ⟨-, q, hq, rfl⟩ := handleFinishedContext_cases hs
  · exact absurd he hsc
  obtain ⟨-, hcols, hid⟩ := InstructionQueue.finishInstColumn_eq_ok hq
  have hsub : q.columns.Sublist s.instructionQueue.columns := hcols ▸ List.filter_sublist
  have hcons := h.conserved.freeRegs _ order
  have hnd : (s.registerUnit.afterRename.map (fun c => toInt c.req.id) ++
      s.instructionQueue.columns.map fun e => toInt e.2.req.id).Nodup := by
    have hnd := h.nodup
    simp only [packetIds, inFlight, List.map_append, List.map_map, Function.comp_def] at hnd
    exact hnd.of_append_right
  -- among the queued columns the packet number identifies the reported one
  have hkey : ∀ e ∈ s.instructionQueue.columns,
      toInt e.2.req.id = toInt context.requestInfo.id ↔ e.1 = context.instColId := by
    intro e he
    constructor
    · intro hk
      rw [← hreq] at hk
      have hec : e = (context.instColId, col) :=
        List.inj_on_of_nodup_map hnd.of_append_right he hcol hk
      rw [hec]
    · intro hk
      have hec : e = (context.instColId, col) :=
        List.inj_on_of_nodup_map h.queued he hcol hk
      rw [hec, ← hreq]
  have hmem : ∀ c, c ∈ s.registerUnit.afterRename ++ q.columns.map Prod.snd ↔
      c ∈ s.registerUnit.afterRename ++ s.instructionQueue.columns.map Prod.snd ∧
        toInt c.req.id ≠ toInt context.requestInfo.id := by
    intro c
    rw [List.mem_append, List.mem_append, hcols]
    constructor
    · rintro (hc | hc)
      · refine ⟨.inl hc, fun hk => ?_⟩
        refine List.disjoint_of_nodup_append hnd (List.mem_map.mpr ⟨c, hc, hk⟩) ?_
        exact List.mem_map.mpr ⟨_, hcol, by rw [hreq]⟩
      · obtain ⟨e, he, rfl⟩ := List.mem_map.mp hc
        obtain ⟨he, hne⟩ := List.mem_filter.mp he
        exact ⟨.inr (List.mem_map.mpr ⟨e, he, rfl⟩), fun hk => by
          simp [(hkey e he).mp hk] at hne⟩
    · rintro ⟨hc | hc, hne⟩
      · exact .inl hc
      · obtain ⟨e, he, rfl⟩ := List.mem_map.mp hc
        refine .inr (List.mem_map.mpr ⟨e, List.mem_filter.mpr ⟨he, ?_⟩, rfl⟩)
        have hi : e.1 ≠ context.instColId := fun hi => hne ((hkey e he).mpr hi)
        simpa using hi
  refine ⟨hcons, h.numRegs, ?_, ?_, fun key => ?_, ?_, ?_, ?_, ?_, ?_⟩
  · refine h.nodup.sublist (List.Sublist.map _ ?_)
    exact (List.Sublist.refl _).append ((List.Sublist.refl _).append (hsub.map _))
  · intro c hc
    obtain hc | hc := List.mem_append.mp hc
    · exact h.nonempty c (List.mem_append_left _ hc)
    · exact h.nonempty c (List.mem_append_right _ ((hmem c).mp hc).1)
  · refine (RegisterUnit.live_freeRegs order).trans ?_
    rw [h.live key]
    constructor
    · rintro ⟨hne, c, hc, rfl⟩
      exact ⟨c, (hmem c).mpr ⟨hc, hne⟩, rfl⟩
    · rintro ⟨c, hc, rfl⟩
      obtain ⟨hc, hne⟩ := (hmem c).mp hc
      exact ⟨hne, c, hc, rfl⟩
  · exact h.queued.sublist (hsub.map _)
  · intro e he
    rw [hid]
    exact h.numbered e (hsub.subset he)
  · have hr := h.reported
    rw [hf, List.map_cons, List.nodup_cons] at hr
    exact hr.2
  · intro r hr
    exact h.done r (by simp [hf, hr])
  · intro r hr
    obtain ⟨hrs, c, hc, he⟩ := h.reports r (by simp [hf, hr])
    refine ⟨hrs, c, ?_, he⟩
    have hr' := h.reported
    rw [hf, List.map_cons, List.nodup_cons] at hr'
    have hne : r.instColId ≠ context.instColId := fun heq =>
      hr'.1 (List.mem_map.mpr ⟨r, hr, heq⟩)
    rw [hcols, List.mem_filter]
    exact ⟨hc, by simpa using hne⟩

theorem Inv.step (h : s.Inv n) (hs : Step Releasable s s') : s'.Inv n := by
  cases hs with
  | hand col ha => exact h.hand ha
  | instructionRegisterAllocate hs => exact h.instructionRegisterAllocate hs
  | instructionQueueAllocate hs => exact h.instructionQueueAllocate hs
  | execute xt ft vt notReady =>
    exact ⟨⟨h.conserved.perm, h.conserved.paired⟩, h.numRegs, h.nodup, h.nonempty, h.live,
      h.queued, h.numbered, h.reported, h.done, h.reports⟩
  | complete id col hq hc => exact h.complete hq hc
  | handleFinishedContext hf hs => exact h.handleFinishedContext hf hs

end Preserved

theorem Run.inv {subCoreId uthreadSlots nx nf nv : Nat} {s : SubCore}
    (h : Run Releasable subCoreId uthreadSlots nx nf nv s) :
    s.Inv (RegisterUnit.create nx nf nv).numRegs := by
  induction h with
  | refl => exact Inv.create ..
  | tail _ hs ih => exact ih.step hs

/-- If every column handed over has instructions and a packet number of its own, a sub-core
that has handled all of them holds no registers. -/
theorem quiescent_nothingHeld {subCoreId uthreadSlots nx nf nv : Nat} {s : SubCore}
    (h : Run Releasable subCoreId uthreadSlots nx nf nv s) (hq : s.Quiescent) : s.NothingHeld :=
  h.inv.nothingHeld hq

/-- A single column with the given section goes through a sub-core from hand-over to
handling. -/
theorem quiescent_nothingHeld_load : ∃ s, Run Releasable 0 1 2 0 1 s ∧ s.Quiescent ∧
    s.completed = [0] ∧ s.NothingHeld := by
  have hcol : Releasable (create 0 1 2 0 1)
      (countedColumn [RegisterUnit.sampleLoad] ∅ RegisterUnit.sampleRequest) :=
    ⟨by simp [countedColumn], by decide⟩
  have h₁ : Run Releasable 0 1 2 0 1 _ := .tail .refl (.hand _ hcol)
  have h₂ : Run Releasable 0 1 2 0 1 _ := .tail h₁ (.instructionRegisterAllocate rfl)
  have h₃ : Run Releasable 0 1 2 0 1 _ := .tail h₂ (.instructionQueueAllocate rfl)
  have h₄ : Run Releasable 0 1 2 0 1 _ :=
    .tail h₃ (.complete 0 _ List.mem_cons_self (by simp [create]))
  have h₅ : Run Releasable 0 1 2 0 1 _ := .tail h₄
    (@Step.handleFinishedContext _ _ _ _ _ ⟨fun _ => _, fun _ => .refl _⟩ rfl rfl)
  exact ⟨_, h₅, ⟨rfl, rfl⟩, rfl, quiescent_nothingHeld h₅ ⟨rfl, rfl⟩⟩

/-- A column without instructions, as a kernel without initializer has it, is renamed and
handled, and keeps its two preset registers for ever. -/
theorem empty_column_leaks : ∃ s, Run (fun _ _ => True) 0 1 2 0 0 s ∧ s.Quiescent ∧
    s.registerUnit.xregs.free = [] ∧ ¬ s.NothingHeld := by
  have h₁ : Run (fun _ _ => True) 0 1 2 0 0 _ :=
    .tail .refl (.hand (countedColumn [] ∅ RegisterUnit.sampleRequest) trivial)
  have h₂ : Run (fun _ _ => True) 0 1 2 0 0 _ := .tail h₁ (.instructionRegisterAllocate rfl)
  have h₃ : Run (fun _ _ => True) 0 1 2 0 0 _ := .tail h₂ (.instructionQueueAllocate rfl)
  have h₄ : Run (fun _ _ => True) 0 1 2 0 0 _ := .tail h₃
    (@Step.handleFinishedContext _ _ _ _ _ ⟨fun _ => _, fun _ => .refl _⟩ rfl rfl)
  refine ⟨_, h₄, ⟨rfl, rfl⟩, rfl, fun hn => ?_⟩
  have hp : ([] : List Int).Perm (RegClass.x.physical 2) := hn.1 .x
  exact absurd hp.nil_eq (by decide)

end SubCore

end NdpSim
