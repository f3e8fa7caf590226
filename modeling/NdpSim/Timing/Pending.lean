import NdpSim.Register.Substitution
import NdpSim.Timing.Scoreboard
import NdpSim.Timing.SubCore

/-!
# Freed registers and instructions in flight

The context of a column is reported finished at several places: when an `EXIT` is issued, when the
last instruction leaves its execution unit, when it leaves for the scratchpad or the memory, or
when its data has come back. Older instructions of the column may still be on their way then. The
report gives the registers of the column back, so that what is still on its way holds registers
that are free.
-/
namespace NdpSim

open Library

namespace RegisterUnit

variable {u u' : RegisterUnit} {key r : Int}

/-- The packet `key` holds the register `r` under some name. -/
def Owns (u : RegisterUnit) (key r : Int) : Prop := ∃ c n, (u.pool c).find? key n = some r

/-- The destination of a renamed instruction is a register of its packet, or no register. -/
def OwnsDest (u : RegisterUnit) (key : Int) (inst : NdpInstruction) : Prop :=
  u.isPhysical (toInt inst.dest) = true → u.Owns key (toInt inst.dest)

/-- A destination that `Convert` does not rename is not the number of a physical register. -/
def DestNamed (u : RegisterUnit) (inst : NdpInstruction) : Prop :=
  (∀ c, (c, Slot.dest) ∉ inst.registerFields) → u.isPhysical (toInt inst.dest) = false

theorem isPhysical_iff : u.isPhysical r = true ↔ ∃ c : RegClass, r ∈ c.physical (u.numRegs c) := by
  simp only [isPhysical, isXreg, isFreg, isVreg, Bool.or_eq_true, Bool.and_eq_true,
    decide_eq_true_eq, RegClass.mem_physical]
  constructor
  · rintro ((h | h) | h)
    · exact ⟨.x, h⟩
    · exact ⟨.f, h⟩
    · exact ⟨.v, h⟩
  · rintro ⟨c, h⟩
    cases c
    · exact .inl (.inl h)
    · exact .inl (.inr h)
    · exact .inr h

/-- The classes have ranges of their own. -/
theorem Layout.physical_unique (hl : u.Layout) {c c' : RegClass}
    (h : r ∈ c.physical (u.numRegs c)) (h' : r ∈ c'.physical (u.numRegs c')) : c = c' := by
  rw [RegClass.mem_physical] at h h'
  obtain ⟨hx, hf, hv⟩ := hl
  cases c <;> cases c' <;>
    first
      | rfl
      | (simp only [RegClass.base, numRegs] at h h'; omega)

theorem Layout.range (hl : u.Layout) (h : u.isPhysical r = true) :
    regPXBase ≤ r ∧ r < spcialRegStart := by
  obtain ⟨c, hc⟩ := isPhysical_iff.mp h
  rw [RegClass.mem_physical] at hc
  obtain ⟨hx, hf, hv⟩ := hl
  simp only [regPXBase, regPFBase, regPVBase, spcialRegStart] at hx hf hv ⊢
  cases c <;> simp only [RegClass.base, numRegs, regPXBase, regPFBase, regPVBase] at hc <;> omega

/-- A register some packet holds is not free, and no other packet holds it. -/
theorem Owns.exclusive (hu : u.Conserved) (hl : u.Layout) (h : u.Owns key r) :
    (∀ c, r ∉ (u.pool c).free) ∧ ∀ key', u.Owns key' r → key' = key := by
  obtain ⟨c, n, hf⟩ := h
  obtain ⟨hfree, honce⟩ := hu.bound_once hf
  have hphys := hu.mem_physical_of_find? hf
  constructor
  · intro c' hr
    have hmem : r ∈ u.held c' := List.mem_append_left _ (List.mem_append_left _ hr)
    obtain rfl := hl.physical_unique ((hu.perm c').mem_iff.mp hmem) hphys
    exact hfree hr
  · rintro key' ⟨c', n', hf'⟩
    obtain rfl := hl.physical_unique (hu.mem_physical_of_find? hf') hphys
    exact (honce key' n' hf').1

/-- What renaming writes into a destination field. -/
def Found (u : RegisterUnit) (key x : Int) : Prop :=
  u.Owns key x ∨ spcialRegStart < toInt x ∨ x = -1

theorem Found.mono (h : u.Found key r)
    (hm : ∀ c n p, (u.pool c).find? key n = some p → (u'.pool c).find? key n = some p) :
    u'.Found key r := by
  obtain ⟨c, n, hf⟩ | h := h
  · exact .inl ⟨c, n, hm c n r hf⟩
  · exact .inr h

theorem Outcome.found {inst renamed renamed' : NdpInstruction} {st : RenameStep}
    {c : Option RegClass} (h : Outcome u key inst renamed st renamed' u')
    (ht : st.target = some (c, .dest)) : u'.Found key renamed'.dest := by
  cases h with
  | noDest => exact .inr (.inr rfl)
  | use ht' hd hu =>
    obtain ⟨rfl, rfl⟩ : c = _ ∧ Slot.dest = _ := by simpa [ht] using ht'
    cases hu with
    | bound hf => exact .inl ⟨_, _, hf⟩
    | special hf hs =>
      refine .inr (.inl ?_)
      change spcialRegStart < toInt (toInt (inst.operand .dest))
      rw [toInt_toInt]
      exact of_decide_eq_true hs
    | absent hf ho =>
      -- only source operands are optional
      cases st with
      | lookUpIfExist i => cases ht
      | _ => cases ho
  | define ht' hd hb =>
    obtain ⟨rfl, rfl⟩ : c = _ ∧ Slot.dest = _ := by simpa [ht] using ht'
    exact .inl ⟨_, _, by rw [hb.find, if_pos ⟨rfl, rfl⟩]; rfl⟩

/-- After the steps the destination was renamed, or none of them was about it. -/
theorem runSteps_dest {inst : NdpInstruction} {ss : List RenameStep} :
    ∀ {u u' : RegisterUnit} {renamed renamed'},
      u.runSteps key inst renamed ss = .ok (renamed', u') →
      u'.Found key renamed'.dest ∨
        renamed'.dest = renamed.dest ∧ ∀ st ∈ ss, ∀ c, st.target ≠ some (c, .dest) := by
  induction ss with
  | nil =>
    intro u u' renamed renamed' h
    obtain ⟨rfl, -⟩ := Prod.mk.inj (Except.ok.inj h)
    exact .inr ⟨rfl, by simp⟩
  | cons st ss ih =>
    intro u u' renamed renamed' h
    obtain ⟨⟨renamed₁, u₁⟩, hs, h⟩ := bind_eq_ok.mp h
    obtain hfound | ⟨hsame, hrest⟩ := ih h
    · exact .inl hfound
    by_cases ht : ∃ c, st.target = some (c, .dest)
    · obtain ⟨c, ht⟩ := ht
      left
      rw [hsame]
      exact ((runStep_outcome hs).found ht).mono (runSteps_mono h)
    · have hst : ∀ st' ∈ [st], ∀ c, st'.target ≠ some (c, .dest) := by
        intro st' hst' c htc
        obtain rfl := List.mem_singleton.mp hst'
        exact ht ⟨c, htc⟩
      have hone : u.runSteps key inst renamed [st] = .ok (renamed₁, u₁) :=
        bind_eq_ok.mpr ⟨_, hs, rfl⟩
      refine .inr ⟨hsame.trans (runSteps_other hone hst), fun st' hst' => ?_⟩
      obtain rfl | hst' := List.mem_cons.mp hst'
      · exact hst _ (List.mem_singleton_self _)
      · exact hrest st' hst'

theorem Found.ownsDest {inst : NdpInstruction} (hu : u.Conserved) (hl : u.Layout)
    (h : u.Found key inst.dest) : u.OwnsDest key inst := by
  intro hphys
  have hrange := hl.range hphys
  simp only [regPXBase, spcialRegStart] at hrange
  obtain hown | hspecial | hnone := h
  · obtain ⟨c, n, hf⟩ := hown
    have hr : u.isPhysical inst.dest = true := isPhysical_iff.mpr ⟨c, hu.mem_physical_of_find? hf⟩
    have hrange' := hl.range hr
    simp only [regPXBase, spcialRegStart] at hrange'
    rw [toInt_of_range (by omega) (by omega)]
    exact ⟨c, n, hf⟩
  · simp only [spcialRegStart] at hspecial
    omega
  · rw [hnone] at hrange
    exact absurd hrange.1 (by decide)

theorem convertInst_dest {inst renamed : NdpInstruction}
    (h : u.convertInst key inst = .ok (renamed, u')) :
    u'.Found key renamed.dest ∨
      renamed.dest = inst.dest ∧ ∀ c, (c, Slot.dest) ∉ inst.registerFields := by
  refine (runSteps_dest h).imp_right (And.imp_right fun hst c hmem => ?_)
  obtain ⟨st, hmem, ht⟩ := mem_registerFields.mp hmem
  exact hst st hmem c ht

/-- Every destination of a renamed section is a register of its packet, or no register. -/
theorem convertInsts_ownsDest {insts out : List NdpInstruction}
    (h : u.convertInsts key insts = .ok (out, u')) (hu : u'.Conserved) (hl : u'.Layout)
    (hnamed : ∀ inst ∈ insts, u'.DestNamed inst) : ∀ renamed ∈ out, u'.OwnsDest key renamed := by
  induction insts generalizing u out with
  | nil =>
    obtain ⟨rfl, -⟩ := Prod.mk.inj (Except.ok.inj h)
    simp
  | cons inst insts ih =>
    obtain ⟨⟨renamed, u₁⟩, h₁, h⟩ := bind_eq_ok.mp h
    obtain ⟨⟨rest, u₂⟩, h₂, h⟩ := bind_eq_ok.mp h
    obtain ⟨rfl, rfl⟩ := Prod.mk.inj (Except.ok.inj h)
    intro r hr
    obtain rfl | hr := List.mem_cons.mp hr
    · obtain hfound | ⟨hsame, hnone⟩ := convertInst_dest h₁
      · exact (hfound.mono (convertInsts_mono h₂)).ownsDest hu hl
      · intro hphys
        rw [hsame, hnamed inst List.mem_cons_self hnone] at hphys
        cases hphys
    · exact ih h₂ (fun i hi => hnamed i (List.mem_cons_of_mem _ hi)) r hr

end RegisterUnit

/-! ## Steps -/

/-- Where an instruction is between its issue and its write-back. -/
inductive Place
  /-- in an execution unit, or in an address unit and the queues and units behind it -/
  | unit
  /-- in the delay queue of the scratchpad -/
  | spadDelay
  /-- waiting for the replies of the memory -/
  | pendingLdst
  /-- its destination is queued for the register file -/
  | toReg
  deriving DecidableEq

/-- An instruction on its way, with what its context says. -/
structure Dispatched where
  inst : NdpInstruction
  instColId : Nat
  requestInfo : RequestInfo
  addrs : Finset (BitVec 64)
  doBranch : Bool
  lastInst : Bool
  place : Place

namespace Dispatched

def packetId (f : Dispatched) : Int := toInt f.requestInfo.id

/-- The destination will be set ready: by the execution unit, or by `rf_writeback` for everything
that loads. -/
def setsReady (f : Dispatched) : Bool :=
  f.inst.opcode.checkDestWrite || f.inst.opcode.checkLoadOp

/-- The first address of the set is in the scratchpad. -/
def spadOp (f : Dispatched) : Bool :=
  decide (∃ a ∈ f.addrs, (∀ b ∈ f.addrs, a.toNat ≤ b.toNat) ∧ checkScratchpad a = true)

/-- Where the instruction goes next, or that it is done. -/
def next (f : Dispatched) : Option Place :=
  match f.place with
  | .unit =>
    if f.inst.opcode.checkAddressOp then
      if f.spadOp then some .spadDelay
      else if f.inst.opcode.checkLoadOp then some .pendingLdst else none
    else none
  | .spadDelay => if f.inst.opcode.checkLoadOp then some .toReg else none
  | .pendingLdst => some .toReg
  | .toReg => none

/-- The context is reported finished on this way: not when a load leaves for the memory. -/
def reports (f : Dispatched) : Bool :=
  f.lastInst &&
    match f.place with
    | .unit => f.spadOp || !f.inst.opcode.checkLoadOp
    | .pendingLdst => true
    | .spadDelay | .toReg => false

/-- The destination is set ready on this way. -/
def readies (f : Dispatched) : Bool :=
  match f.place with
  | .unit => !f.inst.opcode.checkAddressOp && f.inst.opcode.checkDestWrite
  | .spadDelay | .pendingLdst => false
  | .toReg => true

end Dispatched

/-- The vector settings and the program counter of a queued column. -/
structure ColumnState where
  csr : CSR := {}
  pc : Int := 0
  block : Bool := false

/-- A sub-core of an NDP unit, the memories, the columns of the queue by their numbers, and what
is on its way from the sub-core. The other sub-cores have register units of their own. -/
structure CoreState where
  core : SubCore
  memories : Memories
  columns : Nat → ColumnState
  dispatched : List Dispatched

/-- What is fixed for a sub-core. -/
structure CoreInfo where
  ndpId : Int
  packet : Nat

inductive CoreEvent
  | hand (col : InstColumn)
  | instructionRegisterAllocate
  | instructionQueueAllocate
  | exit (id : Nat)
  | issue (id : Nat)
  | resolve (f : Dispatched)
  | advance (f : Dispatched)
  | handleFinishedContext (context : FinishedContext)
  | others

namespace SubCore

/-- `m_finished_contexts->push` -/
def report (s : SubCore) (id : Nat) (req : RequestInfo) : SubCore :=
  { s with finishedContexts := s.finishedContexts ++ [⟨s.subCoreId, id, req⟩] }

end SubCore

namespace CoreState

/-- Nothing was handed over. -/
def start (subCoreId uthreadSlots nx nf nv : Nat) (memories : Memories) : CoreState :=
  { core := .create subCoreId uthreadSlots nx nf nv, memories := memories, columns := fun _ => {},
    dispatched := [] }

def machine (s : CoreState) (id : Nat) : Machine RegisterUnit :=
  ⟨s.core.registerUnit, s.memories, (s.columns id).csr⟩

/-- The instruction a queued column fetches. -/
def Fetches (s : CoreState) (id : Nat) (col : InstColumn) (inst : NdpInstruction) : Prop :=
  (id, col) ∈ s.core.instructionQueue.columns ∧ (s.columns id).block = false ∧
    0 ≤ (s.columns id).pc ∧ col.insts[(s.columns id).pc.toNat]? = some inst

/-- Set the destination of an instruction ready that leaves. -/
def setReady (s : CoreState) (f : Dispatched) (readies : Bool) : CoreState :=
  if readies then
    let u := s.core.registerUnit.setReady (toInt f.inst.dest)
    { s with core := { s.core with registerUnit := u } }
  else s

def report (s : CoreState) (id : Nat) (req : RequestInfo) (reports : Bool) : CoreState :=
  if reports then { s with core := s.core.report id req } else s

def afterExit (s : CoreState) (id : Nat) (col : InstColumn) : CoreState :=
  report { s with
    columns := Function.update s.columns id { s.columns id with pc := (s.columns id).pc + 1 } }
    id col.req true

def afterIssue (s : CoreState) (id : Nat) (col : InstColumn) (inst : NdpInstruction)
    (addrs : Finset (BitVec 64)) (doBranch : Bool) (m : Machine RegisterUnit) : CoreState :=
  { core := { s.core with registerUnit := m.regs }
    memories := m.memories
    columns := Function.update s.columns id
      { csr := m.csr
        pc := if inst.opcode.checkBranchOp then (s.columns id).pc else (s.columns id).pc + 1
        block := inst.opcode.checkBranchOp }
    dispatched :=
      { inst := inst
        instColId := id
        requestInfo := col.req
        addrs := addrs
        doBranch := doBranch
        lastInst := (s.columns id).pc = (col.insts.length : Int) - 1 ∧
          inst.opcode.checkBranchOp = false
        place := .unit } :: s.dispatched }

/-- The program counter after a branch; a missing label is an exception. -/
def target (s : CoreState) (col : InstColumn) (f : Dispatched) : Option Int :=
  if Machine.isBranch f.inst f.doBranch ≠ -1 then
    col.loopMap.lookup (Machine.isBranch f.inst f.doBranch)
  else some ((s.columns f.instColId).pc + 1)

def afterResolve (s : CoreState) (col : InstColumn) (f : Dispatched) (rest : List Dispatched)
    (pc : Int) : CoreState :=
  (setReady { s with
    dispatched := rest
    columns := Function.update s.columns f.instColId
      { s.columns f.instColId with pc := pc, block := false } } f
    f.inst.opcode.checkDestWrite).report f.instColId f.requestInfo
    ((col.insts.length : Int) - 1 < pc)

def afterAdvance (s : CoreState) (f : Dispatched) (pre post : List Dispatched) : CoreState :=
  (setReady { s with
    dispatched := pre ++ (f.next.map fun p => { f with place := p }).toList ++ post } f
    f.readies).report f.instColId f.requestInfo f.reports

/-- One event of the sub-core or of the unit around it. What is on its way goes on in any
order. -/
inductive Step [FloatOps] (info : CoreInfo) : CoreState → CoreEvent → CoreState → Prop
  | hand {s} (col : InstColumn) :
      Step info s (.hand col)
        { s with core := { s.core with instColumnQ := s.core.instColumnQ ++ [col] } }
  | instructionRegisterAllocate {s core} (h : s.core.instructionRegisterAllocate = .ok core) :
      Step info s .instructionRegisterAllocate { s with core := core }
  | instructionQueueAllocate {s core} (h : s.core.instructionQueueAllocate = .ok core) :
      Step info s .instructionQueueAllocate { s with core := core }
  | exit {s id col inst} (hf : s.Fetches id col inst) (he : inst.opcode = .exit) :
      Step info s (.exit id) (s.afterExit id col)
  | issue {s id col inst addrs doBranch m} (hf : s.Fetches id col inst) (he : inst.opcode ≠ .exit)
      (h : (s.machine id).issue info.packet info.ndpId col.req inst =
        .ok (some (addrs, doBranch, m))) :
      Step info s (.issue id) (s.afterIssue id col inst addrs doBranch m)
  | resolve {s pre f post col pc} (hf : s.dispatched = pre ++ f :: post)
      (hb : f.inst.opcode.checkBranchOp = true)
      (hq : (f.instColId, col) ∈ s.core.instructionQueue.columns) (ht : s.target col f = some pc) :
      Step info s (.resolve f) (s.afterResolve col f (pre ++ post) pc)
  | advance {s pre f post} (hf : s.dispatched = pre ++ f :: post)
      (hb : f.inst.opcode.checkBranchOp = false) :
      Step info s (.advance f) (s.afterAdvance f pre post)
  | handleFinishedContext {s context rest order core}
      (hf : s.core.finishedContexts = context :: rest)
      (h : s.core.handleFinishedContext context rest order = .ok core) :
      Step info s (.handleFinishedContext context) { s with core := core }
  | others {s} (memories : Memories) : Step info s .others { s with memories := memories }

/-- A packet number is renamed for while it is not mapped, its instructions name their
destinations, and registers are given back when no instruction of the packet on its way has one
of them as its destination. -/
def Meets (s : CoreState) : CoreEvent → Prop
  | .instructionRegisterAllocate => ∀ col rest, s.core.instColumnQ = col :: rest →
    s.core.registerUnit.renameFull col = false →
    ¬ s.core.registerUnit.Live (toInt col.req.id) ∧
      ∀ inst ∈ col.insts, s.core.registerUnit.DestNamed inst
  | .handleFinishedContext context => context.subCoreId ≠ -1 → ∀ f ∈ s.dispatched,
    f.setsReady = true → s.core.registerUnit.isPhysical (toInt f.inst.dest) = true →
    f.packetId ≠ toInt context.requestInfo.id
  | _ => True

/-- A run all of whose events meet the condition. -/
def Run [FloatOps] (info : CoreInfo) : CoreState → CoreState → Prop :=
  Relation.ReflTransGen fun s s' => ∃ e, Step info s e s' ∧ s.Meets e

/-- No free register is not ready or the destination of an instruction on its way. -/
def NoFreedPending (s : CoreState) : Prop :=
  ∀ c, ∀ r ∈ (s.core.registerUnit.pool c).free, r ∉ s.core.registerUnit.notReady ∧
    ∀ f ∈ s.dispatched, f.setsReady = true → toInt f.inst.dest ≠ r

/-- What an instruction sets ready is no register of another packet. -/
def ReadiesOwn (s : CoreState) : Prop :=
  ∀ f ∈ s.dispatched, f.setsReady = true → ∀ key,
    s.core.registerUnit.Owns key (toInt f.inst.dest) → key = f.packetId

end CoreState

/-! ## The columns of a sub-core -/

namespace RegisterUnit

variable {u u' : RegisterUnit} {key : Int}

/-- The register unit up to contents and readiness of registers. -/
structure SameAccount (u u' : RegisterUnit) : Prop where
  pool : u'.pool = u.pool
  doubleVreg : u'.doubleVreg = u.doubleVreg
  numRegs : u'.numRegs = u.numRegs
  afterRename : u'.afterRename = u.afterRename

theorem SameAccount.conserved (h : u.SameAccount u') (hu : u.Conserved) : u'.Conserved := by
  refine ⟨fun c => ?_, fun q hq => ?_⟩
  · have hheld : u'.held c = u.held c := by
      cases c <;> simp only [held, partners, h.pool, h.doubleVreg]
    rw [hheld, h.numRegs]
    exact hu.perm c
  · have hv : u'.vregs = u.vregs := congrFun h.pool .v
    rw [h.doubleVreg] at hq
    rw [hv]
    exact hu.paired q hq

theorem SameAccount.owns (h : u.SameAccount u') {r : Int} : u'.Owns key r ↔ u.Owns key r := by
  simp only [Owns, h.pool]

theorem SameAccount.live (h : u.SameAccount u') : u'.Live key ↔ u.Live key := by
  simp only [Live, h.pool]

theorem SameAccount.ownsDest (h : u.SameAccount u') {inst : NdpInstruction} :
    u'.OwnsDest key inst ↔ u.OwnsDest key inst := by
  simp only [OwnsDest, h.owns, isPhysical_congr h.numRegs]

theorem find?_freeRegs (order : u.IterationOrder key) (c : RegClass) {k : Int} (hk : k ≠ key)
    (n : Int) : ((u.freeRegs key order).pool c).find? k n = (u.pool c).find? k n := by
  cases c <;> exact congrArg (AList.lookup n) (Pool.binding_release_of_ne _ _ hk)

theorem OwnsDest.freeRegs {inst : NdpInstruction} {k : Int} (h : u.OwnsDest k inst)
    (order : u.IterationOrder key) (hk : k ≠ key) : (u.freeRegs key order).OwnsDest k inst := by
  intro hphys
  obtain ⟨c, n, hf⟩ := h hphys
  exact ⟨c, n, by rw [find?_freeRegs order c hk, hf]⟩

theorem find?_setPool_bind_of_ne (c c' : RegClass) (name r : Int) (rest : List Int) {k : Int}
    (hk : k ≠ key) (n : Int) :
    ((u.setPool c (Pool.bind ⟨rest, (u.pool c).bindings⟩ key name r)).pool c').find? k n =
      (u.pool c').find? k n := by
  rw [pool_setPool]
  split
  case isTrue hc =>
    subst hc
    rw [Pool.find?, Pool.binding_bind_of_ne _ _ _ hk]
    rfl
  case isFalse => rfl

/-- Renaming leaves what other packets hold alone. -/
theorem find?_convert {insts out : List NdpInstruction} {req : RequestInfo}
    (h : u.convert insts key req = .ok (out, u')) (c : RegClass) {k : Int} (hk : k ≠ key)
    (n : Int) : (u'.pool c).find? k n = (u.pool c).find? k n := by
  obtain ⟨u₁, u₂, h₁, h₂, h⟩ := convert_eq_ok.mp h
  obtain ⟨p₁, rest₁, -, rfl⟩ := initXreg_eq_ok.mp h₁
  obtain ⟨p₂, rest₂, -, rfl⟩ := initXreg_eq_ok.mp h₂
  refine convertInsts_invariant (P := fun w => (w.pool c).find? k n = (u.pool c).find? k n)
    (fun m hw => by cases c <;> exact hw) (fun {w w' c'} name _ r _ hd hw => ?_) h ?_
  · obtain ⟨-, rfl⟩ | ⟨-, -, rest, -, rfl⟩ | ⟨-, -, partner, rest, -, rfl⟩ := destRename_cases hd
    · exact hw
    · exact (find?_setPool_bind_of_ne c' c _ r rest hk n).trans hw
    · refine Eq.trans ?_ ((find?_setPool_bind_of_ne c' c (toInt name) r rest hk n).trans hw)
      cases c <;> rfl
  · cases c with
    | x =>
      refine congrArg (AList.lookup n) ?_
      exact (Pool.binding_bind_of_ne _ _ _ hk).trans (Pool.binding_bind_of_ne _ _ _ hk)
    | f | v => rfl

theorem OwnsDest.convert {insts out : List NdpInstruction} {req : RequestInfo} {k : Int}
    {inst : NdpInstruction} (h : u.OwnsDest k inst)
    (hc : u.convert insts key req = .ok (out, u')) (hkey : ¬ u.Live key) :
    u'.OwnsDest k inst := by
  intro hphys
  rw [isPhysical_congr (numRegs_convert hc)] at hphys
  obtain ⟨c, n, hf⟩ := h hphys
  have hk : k ≠ key := by
    rintro rfl
    rw [find?_of_not_live hkey c n] at hf
    cases hf
  exact ⟨c, n, by rw [find?_convert hc c hk, hf]⟩

end RegisterUnit

namespace InstColumn

def packetId (col : InstColumn) : Int := toInt col.req.id

end InstColumn

namespace SubCore

/-- The columns that are renamed and not freed. -/
def resident (s : SubCore) : List InstColumn :=
  s.registerUnit.afterRename ++ s.instructionQueue.columns.map Prod.snd

/-- Each renamed column has its packet mapped, no two have the same one, and the destinations of
its instructions are registers of its packet. -/
structure Housed (s : SubCore) : Prop where
  conserved : s.registerUnit.Conserved
  layout : s.registerUnit.Layout
  live : ∀ col ∈ s.resident, s.registerUnit.Live col.packetId
  nodup : (s.resident.map InstColumn.packetId).Nodup
  owned : ∀ col ∈ s.resident, ∀ inst ∈ col.insts, s.registerUnit.OwnsDest col.packetId inst
  queued : (s.instructionQueue.columns.map Prod.fst).Nodup
  numbered : ∀ e ∈ s.instructionQueue.columns, e.1 < s.instructionQueue.instColId

namespace Housed

variable {s s' : SubCore}

theorem create (subCoreId uthreadSlots nx nf nv : Nat)
    (hl : (RegisterUnit.create nx nf nv).Layout) :
    Housed (SubCore.create subCoreId uthreadSlots nx nf nv) := by
  refine ⟨RegisterUnit.Conserved.create nx nf nv, hl, ?_, List.nodup_nil, ?_, List.nodup_nil, ?_⟩
  all_goals simp [resident, SubCore.create, RegisterUnit.create, InstructionQueue.create]

/-- Contents and readiness of registers do not matter, nor what waits at either end. -/
theorem sameAccount (h : s.Housed) (hu : s.registerUnit.SameAccount s'.registerUnit)
    (hq : s'.instructionQueue = s.instructionQueue) : s'.Housed := by
  have hres : s'.resident = s.resident := by rw [resident, resident, hu.afterRename, hq]
  refine ⟨hu.conserved h.conserved, h.layout.congr hu.numRegs, ?_, ?_, ?_, ?_, ?_⟩
  · intro col hcol
    rw [hres] at hcol
    exact hu.live.mpr (h.live col hcol)
  · rw [hres]
    exact h.nodup
  · intro col hcol inst hi
    rw [hres] at hcol
    exact hu.ownsDest.mpr (h.owned col hcol inst hi)
  · rw [hq]
    exact h.queued
  · rw [hq]
    exact h.numbered

theorem instructionRegisterAllocate (h : s.Housed)
    (hs : s.instructionRegisterAllocate = .ok s')
    (hmeets : ∀ col rest, s.instColumnQ = col :: rest → s.registerUnit.renameFull col = false →
      ¬ s.registerUnit.Live (toInt col.req.id) ∧
        ∀ inst ∈ col.insts, s.registerUnit.DestNamed inst) : s'.Housed := by
  obtain rfl | ⟨col, rest, insts, u, hq, hfull, hc, rfl⟩ := instructionRegisterAllocate_cases hs
  · exact h
  obtain ⟨hfresh, hnamed⟩ := hmeets col rest hq hfull
  have hcons := h.conserved.convert hfresh hc
  have hlayout := h.layout.convert hc
  -- the renamed column stands between those that were renamed before and the queue
  have hres {P : InstColumn → Prop} (hnew : P { col with insts := insts })
      (hold : ∀ c ∈ s.resident, P c) : ∀ c ∈ (u.afterRename ++ [{ col with insts := insts }]) ++
        s.instructionQueue.columns.map Prod.snd, P c := by
    intro c hm
    rw [afterRename_convert hc, List.mem_append, List.mem_append, List.mem_singleton] at hm
    obtain (hm | rfl) | hm := hm
    · exact hold c (List.mem_append_left _ hm)
    · exact hnew
    · exact hold c (List.mem_append_right _ hm)
  refine ⟨⟨hcons.perm, hcons.paired⟩, ⟨hlayout.x, hlayout.f, hlayout.v⟩, ?_, ?_, ?_, h.queued,
    h.numbered⟩
  · refine hres ?_ fun c hm => ?_
    · exact (RegisterUnit.live_convert hc).mpr (.inl rfl)
    · exact (RegisterUnit.live_convert hc).mpr (.inr (h.live c hm))
  · change (((u.afterRename ++ [{ col with insts := insts }]) ++
      s.instructionQueue.columns.map Prod.snd).map InstColumn.packetId).Nodup
    rw [afterRename_convert hc, List.append_assoc, List.singleton_append, List.map_append,
      List.map_cons, List.perm_middle.nodup_iff, ← List.map_append]
    refine List.nodup_cons.mpr ⟨fun hm => ?_, h.nodup⟩
    obtain ⟨c, hm, he⟩ := List.mem_map.mp hm
    have hlive := h.live c hm
    rw [he] at hlive
    exact hfresh hlive
  · refine hres (fun inst hi => ?_) fun c hm inst hi => ?_
    · obtain ⟨w, hw, -, -⟩ := RegisterUnit.convert_start hc h.conserved hfresh
      refine RegisterUnit.convertInsts_ownsDest hw hcons hlayout (fun i hi hnone => ?_) inst hi
      rw [RegisterUnit.isPhysical_congr (RegisterUnit.numRegs_convert hc)]
      exact hnamed i hi hnone
    · have howned : u.OwnsDest c.packetId inst := (h.owned c hm inst hi).convert hc hfresh
      exact howned

theorem instructionQueueAllocate (h : s.Housed) (hs : s.instructionQueueAllocate = .ok s') :
    s'.Housed := by
  obtain rfl | ⟨col, rest, hq, hs⟩ := instructionQueueAllocate_cases hs
  · exact h
  have hres : s.resident = col :: (rest ++ s.instructionQueue.columns.map Prod.snd) := by
    rw [resident, hq, List.cons_append]
  have hnodup := h.nodup
  rw [hres, List.map_cons] at hnodup
  obtain ⟨-, rfl⟩ | ⟨q, hpush, rfl⟩ := hs
  · have hsub {c : InstColumn} (hm : c ∈ rest ++ s.instructionQueue.columns.map Prod.snd) :
        c ∈ s.resident := by
      rw [hres]
      exact List.mem_cons_of_mem _ hm
    exact ⟨⟨h.conserved.perm, h.conserved.paired⟩, ⟨h.layout.x, h.layout.f, h.layout.v⟩,
      fun c hm => h.live c (hsub hm), (List.nodup_cons.mp hnodup).2,
      fun c hm => h.owned c (hsub hm), h.queued, h.numbered⟩
  · obtain ⟨hcols, hid⟩ := InstructionQueue.push_eq_ok hpush
    have hperm : (rest ++ q.columns.map Prod.snd).Perm s.resident := by
      rw [hres, hcols, List.map_append, ← List.append_assoc]
      exact List.perm_append_singleton _ _
    have hsub {c : InstColumn} (hm : c ∈ rest ++ q.columns.map Prod.snd) : c ∈ s.resident :=
      hperm.mem_iff.mp hm
    refine ⟨⟨h.conserved.perm, h.conserved.paired⟩, ⟨h.layout.x, h.layout.f, h.layout.v⟩,
      fun c hm => h.live c (hsub hm), (hperm.map _).nodup_iff.mpr h.nodup,
      fun c hm => h.owned c (hsub hm), ?_, ?_⟩
    · rw [hcols, List.map_append, List.perm_append_comm.nodup_iff]
      refine List.nodup_cons.mpr ⟨fun hm => ?_, h.queued⟩
      obtain ⟨e, he, hid⟩ := List.mem_map.mp hm
      exact absurd hid (h.numbered e he).ne
    · intro e he
      rw [hcols, List.mem_append, List.mem_singleton] at he
      rw [hid]
      obtain he | rfl := he
      · exact (h.numbered e he).trans (Nat.lt_succ_self _)
      · exact Nat.lt_succ_self _

/-- The column that is reported has the packet number of the report. -/
theorem handleFinishedContext (h : s.Housed) {context : FinishedContext}
    {rest : List FinishedContext}
    {order : s.registerUnit.IterationOrder (toInt context.requestInfo.id)}
    (hs : s.handleFinishedContext context rest order = .ok s')
    (hreport : context.subCoreId ≠ -1 → ∀ col,
      (context.instColId, col) ∈ s.instructionQueue.columns →
      col.packetId = toInt context.requestInfo.id) : s'.Housed := by
  obtain ⟨-, rfl⟩ | ⟨hne, q, hq, rfl⟩ := handleFinishedContext_cases hs
  · exact h.sameAccount ⟨rfl, rfl, rfl, rfl⟩ rfl
  obtain ⟨⟨col, hcol⟩, hcols, hid⟩ := InstructionQueue.finishInstColumn_eq_ok hq
  have hkey := hreport hne col hcol
  have hsub : (q.columns).Sublist s.instructionQueue.columns := hcols ▸ List.filter_sublist
  have hnodup : (s.registerUnit.afterRename.map InstColumn.packetId ++
      s.instructionQueue.columns.map fun e => e.2.packetId).Nodup := by
    simpa only [resident, List.map_append, List.map_map, Function.comp_def] using h.nodup
  -- what stays has another packet number
  have hres : ∀ c ∈ s.registerUnit.afterRename ++ q.columns.map Prod.snd,
      c ∈ s.resident ∧ c.packetId ≠ toInt context.requestInfo.id := by
    intro c hm
    obtain hm | hm := List.mem_append.mp hm
    · refine ⟨List.mem_append_left _ hm, fun he => ?_⟩
      refine List.disjoint_of_nodup_append hnodup (List.mem_map.mpr ⟨c, hm, rfl⟩) ?_
      exact List.mem_map.mpr ⟨_, hcol, hkey.trans he.symm⟩
    · obtain ⟨e, he, rfl⟩ := List.mem_map.mp hm
      have hold := hsub.subset he
      refine ⟨List.mem_append_right _ (List.mem_map.mpr ⟨e, hold, rfl⟩), fun hk => ?_⟩
      have hec : e = (context.instColId, col) :=
        List.inj_on_of_nodup_map hnodup.of_append_right hold hcol (hk.trans hkey.symm)
      rw [hcols, hec] at he
      simp at he
  have hlayout : (s.registerUnit.freeRegs _ order).Layout := h.layout.congr rfl
  refine ⟨h.conserved.freeRegs _ order, hlayout, fun c hm => ?_, ?_, fun c hm inst hi => ?_,
    h.queued.sublist (hsub.map _), fun e he => ?_⟩
  · obtain ⟨hold, hk⟩ := hres c hm
    exact (RegisterUnit.live_freeRegs order).mpr ⟨hk, h.live c hold⟩
  · refine h.nodup.sublist (List.Sublist.map _ ?_)
    exact (List.Sublist.refl _).append (hsub.map _)
  · obtain ⟨hold, hk⟩ := hres c hm
    have howned : (s.registerUnit.freeRegs _ order).OwnsDest c.packetId inst :=
      (h.owned c hold inst hi).freeRegs order hk
    exact howned
  · change e.1 < q.instColId
    rw [hid]
    exact h.numbered e (hsub.subset he)

end Housed

end SubCore

/-! ## Runs -/

namespace InstructionQueue

/-- The number belongs to a column with the packet number `key`, if the column is still queued. -/
structure Refers (q : InstructionQueue) (id : Nat) (key : Int) : Prop where
  lt : id < q.instColId
  packet : ∀ col, (id, col) ∈ q.columns → col.packetId = key

theorem Refers.sublist {q q' : InstructionQueue} {id : Nat} {key : Int} (h : q.Refers id key)
    (hsub : ∀ e ∈ q'.columns, e ∈ q.columns ∨ e.1 = q.instColId)
    (hid : q.instColId ≤ q'.instColId) : q'.Refers id key := by
  refine ⟨h.lt.trans_le hid, fun col hm => ?_⟩
  obtain hm | he := hsub _ hm
  · exact h.packet col hm
  · exact absurd he h.lt.ne

end InstructionQueue

namespace CoreState

/-- What is on its way belongs to a column of its packet; as long as it will set its destination
ready, that is a register of the packet; and nothing else is not ready. -/
structure Inv (s : CoreState) : Prop where
  housed : s.core.Housed
  reports : ∀ r ∈ s.core.finishedContexts, r.subCoreId ≠ -1 →
    s.core.instructionQueue.Refers r.instColId (toInt r.requestInfo.id)
  refers : ∀ f ∈ s.dispatched, s.core.instructionQueue.Refers f.instColId f.packetId
  placed : ∀ f ∈ s.dispatched, f.place ≠ .unit → f.inst.opcode.checkAddressOp = true
  owned : ∀ f ∈ s.dispatched, f.setsReady = true →
    s.core.registerUnit.OwnsDest f.packetId f.inst
  pending : ∀ r ∈ s.core.registerUnit.notReady,
    ∃ f ∈ s.dispatched, f.setsReady = true ∧ toInt f.inst.dest = r

namespace Inv

variable {s : CoreState}

theorem start (subCoreId uthreadSlots nx nf nv : Nat) (memories : Memories)
    (hl : (RegisterUnit.create nx nf nv).Layout) :
    Inv (CoreState.start subCoreId uthreadSlots nx nf nv memories) := by
  refine ⟨SubCore.Housed.create subCoreId uthreadSlots nx nf nv hl, ?_, ?_, ?_, ?_, ?_⟩
  all_goals simp [CoreState.start, SubCore.create, RegisterUnit.create]

theorem noFreedPending (h : Inv s) : s.NoFreedPending := by
  intro c r hr
  have hdest : ∀ f ∈ s.dispatched, f.setsReady = true → toInt f.inst.dest ≠ r := by
    rintro f hf hsets rfl
    have hheld : toInt f.inst.dest ∈ s.core.registerUnit.held c :=
      List.mem_append_left _ (List.mem_append_left _ hr)
    have hphys := (h.housed.conserved.perm c).mem_iff.mp hheld
    have hown := h.owned f hf hsets (RegisterUnit.isPhysical_iff.mpr ⟨c, hphys⟩)
    exact (hown.exclusive h.housed.conserved h.housed.layout).1 c hr
  refine ⟨fun hnot => ?_, hdest⟩
  obtain ⟨f, hf, hsets, hd⟩ := h.pending r hnot
  exact hdest f hf hsets hd

theorem readiesOwn (h : Inv s) : s.ReadiesOwn := by
  intro f hf hsets key hkey
  obtain ⟨c, n, hfind⟩ := hkey
  have hphys := h.housed.conserved.mem_physical_of_find? hfind
  have hown := h.owned f hf hsets (RegisterUnit.isPhysical_iff.mpr ⟨c, hphys⟩)
  exact (hown.exclusive h.housed.conserved h.housed.layout).2 key ⟨c, n, hfind⟩

theorem refers_of_queued (h : Inv s) {id : Nat} {col : InstColumn}
    (hq : (id, col) ∈ s.core.instructionQueue.columns) :
    s.core.instructionQueue.Refers id col.packetId := by
  refine ⟨h.housed.numbered _ hq, fun col' hq' => ?_⟩
  have he := List.inj_on_of_nodup_map h.housed.queued hq' hq rfl
  rw [(Prod.mk.inj he).2]

/-- A report is about the column of the context. -/
theorem report (h : Inv s) {id : Nat} {req : RequestInfo}
    (href : s.core.instructionQueue.Refers id (toInt req.id)) (reports : Bool) :
    Inv (s.report id req reports) := by
  unfold CoreState.report
  split
  case isFalse => exact h
  case isTrue =>
    refine ⟨h.housed.sameAccount ⟨rfl, rfl, rfl, rfl⟩ rfl, fun r hr hne => ?_, h.refers, h.placed,
      h.owned, h.pending⟩
    obtain hr | hr := List.mem_append.mp hr
    · exact h.reports r hr hne
    · obtain rfl := List.mem_singleton.mp hr
      exact href

/-- An instruction goes on, or it leaves and its destination is ready then. -/
theorem replace (h : Inv s) {pre post : List Dispatched} {f : Dispatched}
    (hf : s.dispatched = pre ++ f :: post) (columns : Nat → ColumnState) {readies : Bool}
    {place : Option Place}
    (hplaced : ∀ p, place = some p → f.inst.opcode.checkAddressOp = true)
    (hdone : place = none → readies = true ∨ f.setsReady = false) :
    Inv (setReady { s with
      dispatched := pre ++ (place.map fun p => { f with place := p }).toList ++ post
      columns := columns } f readies) := by
  have hmem : ∀ g ∈ pre ++ (place.map fun p => { f with place := p }).toList ++ post,
      g ∈ s.dispatched ∨ ∃ p, place = some p ∧ g = { f with place := p } := by
    intro g hg
    rw [hf]
    simp only [List.mem_append, Option.mem_toList, Option.map_eq_some_iff] at hg
    obtain (hg | ⟨p, hp, rfl⟩) | hg := hg
    · exact .inl (List.mem_append_left _ hg)
    · exact .inr ⟨p, hp, rfl⟩
    · exact .inl (List.mem_append_right _ (List.mem_cons_of_mem _ hg))
  -- everything but the pending registers is inherited
  have hrefers : ∀ g ∈ pre ++ (place.map fun p => { f with place := p }).toList ++ post,
      s.core.instructionQueue.Refers g.instColId g.packetId := by
    intro g hg
    obtain hg | ⟨p, -, rfl⟩ := hmem g hg
    · exact h.refers g hg
    · exact h.refers f (by simp [hf])
  have hplaces : ∀ g ∈ pre ++ (place.map fun p => { f with place := p }).toList ++ post,
      g.place ≠ .unit → g.inst.opcode.checkAddressOp = true := by
    intro g hg hne
    obtain hg | ⟨p, hp, rfl⟩ := hmem g hg
    · exact h.placed g hg hne
    · exact hplaced p hp
  have howned : ∀ g ∈ pre ++ (place.map fun p => { f with place := p }).toList ++ post,
      g.setsReady = true → s.core.registerUnit.OwnsDest g.packetId g.inst := by
    intro g hg hsets
    obtain hg | ⟨p, -, rfl⟩ := hmem g hg
    · exact h.owned g hg hsets
    · exact h.owned f (by simp [hf]) hsets
  have hother : ∀ g ∈ s.dispatched, g ≠ f →
      g ∈ pre ++ (place.map fun p => { f with place := p }).toList ++ post := by
    intro g hg hne
    rw [hf, List.mem_append, List.mem_cons] at hg
    simp only [List.mem_append]
    tauto
  unfold setReady
  split
  case isTrue =>
    refine ⟨h.housed.sameAccount ⟨rfl, rfl, rfl, rfl⟩ rfl, h.reports, hrefers, hplaces, howned,
      fun r hr => ?_⟩
    obtain ⟨hne, hr⟩ := Finset.mem_erase.mp hr
    obtain ⟨g, hg, hsets, rfl⟩ := h.pending r hr
    exact ⟨g, hother g hg fun he => hne (by rw [he]), hsets, rfl⟩
  case isFalse hno =>
    refine ⟨h.housed.sameAccount ⟨rfl, rfl, rfl, rfl⟩ rfl, h.reports, hrefers, hplaces, howned,
      fun r hr => ?_⟩
    obtain ⟨g, hg, hsets, rfl⟩ := h.pending r hr
    by_cases he : g = f
    · subst he
      cases hp : place with
      | none =>
        obtain hr | hsets' := hdone hp
        · exact absurd hr hno
        · rw [hsets'] at hsets
          cases hsets
      | some p => exact ⟨{ g with place := p }, by simp, hsets, rfl⟩
    · exact ⟨g, hother g hg he, hsets, rfl⟩

theorem checkDestWrite_of_store {op : Opcode} (ha : op.checkAddressOp = true)
    (hl : op.checkLoadOp = false) : op.checkDestWrite = false := by
  rw [Opcode.checkAddressOp, hl, Bool.false_or] at ha
  simp [Opcode.checkDestWrite, ha]

theorem instructionQueue_setReady (s : CoreState) (f : Dispatched) (readies : Bool) :
    (s.setReady f readies).core.instructionQueue = s.core.instructionQueue := by
  unfold setReady
  split <;> rfl

theorem advance (h : Inv s) {pre post : List Dispatched} {f : Dispatched}
    (hf : s.dispatched = pre ++ f :: post) : Inv (s.afterAdvance f pre post) := by
  have hmem : f ∈ s.dispatched := by simp [hf]
  have hplaced := h.placed f hmem
  have hnext : ∀ p, f.next = some p → f.inst.opcode.checkAddressOp = true := by
    intro p hp
    by_contra hno
    have hunit : f.place = .unit := by
      by_contra hne
      exact hno (hplaced hne)
    simp [Dispatched.next, hunit, hno] at hp
  have hdone : f.next = none → f.readies = true ∨ f.setsReady = false := by
    intro hnone
    rw [Dispatched.setsReady]
    cases hp : f.place with
    | unit =>
      cases ha : f.inst.opcode.checkAddressOp with
      | true =>
        cases hl : f.inst.opcode.checkLoadOp with
        | true => by_cases hs : f.spadOp <;> simp [Dispatched.next, hp, ha, hl, hs] at hnone
        | false => exact .inr (by simp [checkDestWrite_of_store ha hl])
      | false =>
        rw [Dispatched.readies, hp, ha]
        obtain ⟨hl, -⟩ := Bool.or_eq_false_iff.mp ha
        cases f.inst.opcode.checkDestWrite <;> simp [hl]
    | spadDelay =>
      have ha := hplaced (by simp [hp])
      cases hl : f.inst.opcode.checkLoadOp with
      | true => simp [Dispatched.next, hp, hl] at hnone
      | false => exact .inr (by simp [checkDestWrite_of_store ha hl])
    | pendingLdst => simp [Dispatched.next, hp] at hnone
    | toReg => exact .inl (by simp [Dispatched.readies, hp])
  have hinv := h.replace hf s.columns hnext hdone
  refine hinv.report ?_ _
  rw [instructionQueue_setReady]
  exact h.refers f hmem

/-- A branch leaves its unit. -/
theorem resolve (h : Inv s) {pre post : List Dispatched} {f : Dispatched}
    (hf : s.dispatched = pre ++ f :: post) (hb : f.inst.opcode.checkBranchOp = true)
    (col : InstColumn) (pc : Int) : Inv (s.afterResolve col f (pre ++ post) pc) := by
  have hdone : (none : Option Place) = none →
      f.inst.opcode.checkDestWrite = true ∨ f.setsReady = false := by
    intro _
    have hl : f.inst.opcode.checkLoadOp = false := by
      revert hb
      cases f.inst.opcode <;> decide
    rw [Dispatched.setsReady, hl]
    cases f.inst.opcode.checkDestWrite <;> simp
  have hinv := h.replace hf
    (Function.update s.columns f.instColId { s.columns f.instColId with pc := pc, block := false })
    (by simp) hdone
  rw [Option.map_none, Option.toList_none, List.append_nil] at hinv
  refine hinv.report ?_ _
  rw [instructionQueue_setReady]
  exact h.refers f (by simp [hf])

/-- The columns, the reports and the flights after a change of the core that keeps the queue. -/
theorem keepQueue (h : Inv s) {core : SubCore} (hh : core.Housed)
    (hreports : ∀ r ∈ core.finishedContexts, r.subCoreId ≠ -1 → r ∈ s.core.finishedContexts)
    (hsub : ∀ e ∈ core.instructionQueue.columns,
      e ∈ s.core.instructionQueue.columns ∨ e.1 = s.core.instructionQueue.instColId)
    (hid : s.core.instructionQueue.instColId ≤ core.instructionQueue.instColId)
    (howned : ∀ f ∈ s.dispatched, f.setsReady = true →
      core.registerUnit.OwnsDest f.packetId f.inst)
    (hready : core.registerUnit.notReady = s.core.registerUnit.notReady) :
    Inv { s with core := core } := by
  refine ⟨hh, fun r hr hne => (h.reports r (hreports r hr hne) hne).sublist hsub hid,
    fun f hf => (h.refers f hf).sublist hsub hid, h.placed, howned, fun r hr => ?_⟩
  change r ∈ core.registerUnit.notReady at hr
  rw [hready] at hr
  exact h.pending r hr

theorem instructionRegisterAllocate (h : Inv s) {core : SubCore}
    (hs : s.core.instructionRegisterAllocate = .ok core)
    (hmeets : s.Meets .instructionRegisterAllocate) : Inv { s with core := core } := by
  have hh := h.housed.instructionRegisterAllocate hs hmeets
  obtain rfl | ⟨col, rest, insts, u, hq, hfull, hc, rfl⟩ :=
    SubCore.instructionRegisterAllocate_cases hs
  · exact h
  obtain ⟨hfresh, -⟩ := hmeets col rest hq hfull
  refine h.keepQueue hh (fun r hr _ => hr) (fun e he => .inl he) le_rfl (fun f hf hsets => ?_)
    (RegisterUnit.SameBoard.convert hc).1
  have howned : u.OwnsDest f.packetId f.inst := (h.owned f hf hsets).convert hc hfresh
  exact howned

theorem instructionQueueAllocate (h : Inv s) {core : SubCore}
    (hs : s.core.instructionQueueAllocate = .ok core) : Inv { s with core := core } := by
  have hh := h.housed.instructionQueueAllocate hs
  obtain rfl | ⟨col, rest, hq, ⟨-, rfl⟩ | ⟨q, hpush, rfl⟩⟩ :=
    SubCore.instructionQueueAllocate_cases hs
  · exact h
  · refine h.keepQueue hh (fun r hr hne => ?_) (fun e he => .inl he) le_rfl h.owned rfl
    obtain hr | hr := List.mem_append.mp hr
    · exact hr
    · obtain rfl := List.mem_singleton.mp hr
      exact absurd rfl hne
  · obtain ⟨hcols, hid⟩ := InstructionQueue.push_eq_ok hpush
    refine h.keepQueue hh (fun r hr _ => hr) (fun e he => ?_) (by rw [hid]; exact Nat.le_succ _)
      h.owned rfl
    change e ∈ q.columns at he
    rw [hcols, List.mem_append, List.mem_singleton] at he
    exact he.imp_right fun he => by rw [he]

theorem handleFinishedContext (h : Inv s) {core : SubCore} {context : FinishedContext}
    {rest : List FinishedContext}
    {order : s.core.registerUnit.IterationOrder (toInt context.requestInfo.id)}
    (hf : s.core.finishedContexts = context :: rest)
    (hs : s.core.handleFinishedContext context rest order = .ok core)
    (hmeets : s.Meets (.handleFinishedContext context)) : Inv { s with core := core } := by
  have hmem {r : FinishedContext} (hr : r ∈ rest) : r ∈ s.core.finishedContexts := by
    rw [hf]
    exact List.mem_cons_of_mem _ hr
  have hh := h.housed.handleFinishedContext hs fun hne =>
    (h.reports context (by simp [hf]) hne).packet
  obtain ⟨-, rfl⟩ | ⟨hne, q, hq, rfl⟩ := SubCore.handleFinishedContext_cases hs
  · exact h.keepQueue hh (fun r hr _ => hmem hr) (fun e he => .inl he) le_rfl h.owned rfl
  · obtain ⟨-, hcols, hid⟩ := InstructionQueue.finishInstColumn_eq_ok hq
    have hsub : q.columns.Sublist s.core.instructionQueue.columns :=
      hcols ▸ List.filter_sublist
    refine h.keepQueue hh (fun r hr _ => hmem hr) (fun e he => .inl (hsub.subset he)) hid.ge
      (fun f hf hsets => ?_) rfl
    -- an instruction with a register to come belongs to another packet
    have howned : (s.core.registerUnit.freeRegs _ order).OwnsDest f.packetId f.inst := by
      intro hphys
      exact (h.owned f hf hsets).freeRegs order (hmeets hne f hf hsets hphys) hphys
    exact howned

theorem exit (h : Inv s) {id : Nat} {col : InstColumn}
    (hq : (id, col) ∈ s.core.instructionQueue.columns) : Inv (s.afterExit id col) := by
  have hinv (columns : Nat → ColumnState) : Inv { s with columns := columns } :=
    ⟨h.housed, h.reports, h.refers, h.placed, h.owned, h.pending⟩
  refine (hinv _).report ?_ true
  exact h.refers_of_queued hq

theorem issue [FloatOps] {info : CoreInfo} (h : Inv s) {id : Nat} {col : InstColumn}
    {inst : NdpInstruction} {addrs : Finset (BitVec 64)} {doBranch : Bool}
    {m : Machine RegisterUnit} (hf : s.Fetches id col inst)
    (hi : (s.machine id).issue info.packet info.ndpId col.req inst =
      .ok (some (addrs, doBranch, m))) : Inv (s.afterIssue id col inst addrs doBranch m) := by
  obtain ⟨hq, -, -, hget⟩ := hf
  obtain ⟨-, m₁, hexec, rfl⟩ := Machine.issue_eq_some hi
  obtain ⟨xt, ft, vt, hregs⟩ := (Machine.exec_refilled hexec).1
  -- only contents and readiness change
  set m' := if inst.opcode.checkDestWrite then
    { m₁ with regs := m₁.regs.setNotReady (toInt inst.dest) } else m₁ with hm'
  have hsame : s.core.registerUnit.SameAccount m'.regs := by
    rw [hm']
    split <;> rw [hregs] <;> exact ⟨rfl, rfl, rfl, rfl⟩
  have hnot : ∀ r ∈ m'.regs.notReady, r ∈ s.core.registerUnit.notReady ∨
      inst.opcode.checkDestWrite = true ∧ toInt inst.dest = r := by
    intro r hr
    rw [hm'] at hr
    split at hr
    case isTrue hd =>
      obtain rfl | hr := Finset.mem_insert.mp hr
      · exact .inr ⟨hd, rfl⟩
      · rw [hregs] at hr
        exact .inl hr
    case isFalse =>
      rw [hregs] at hr
      exact .inl hr
  have hres : col ∈ s.core.resident :=
    List.mem_append_right _ (List.mem_map.mpr ⟨_, hq, rfl⟩)
  refine ⟨h.housed.sameAccount hsame rfl, h.reports, fun f hf => ?_, fun f hf hne => ?_,
    fun f hf hsets => ?_, fun r hr => ?_⟩
  · obtain rfl | hf := List.mem_cons.mp hf
    · exact h.refers_of_queued hq
    · exact h.refers f hf
  · obtain rfl | hf := List.mem_cons.mp hf
    · exact absurd rfl hne
    · exact h.placed f hf hne
  · refine hsame.ownsDest.mpr ?_
    obtain rfl | hf := List.mem_cons.mp hf
    · exact h.housed.owned col hres inst (List.mem_of_getElem? hget)
    · exact h.owned f hf hsets
  · obtain hr | ⟨hd, rfl⟩ := hnot r hr
    · obtain ⟨f, hf, hsets, hr⟩ := h.pending r hr
      exact ⟨f, List.mem_cons_of_mem _ hf, hsets, hr⟩
    · exact ⟨_, List.mem_cons_self, by simp [Dispatched.setsReady, hd], rfl⟩

theorem step [FloatOps] {info : CoreInfo} (h : Inv s) {e : CoreEvent} {s' : CoreState}
    (hs : Step info s e s') (hmeets : s.Meets e) : Inv s' := by
  cases hs with
  | hand col =>
    exact ⟨h.housed.sameAccount ⟨rfl, rfl, rfl, rfl⟩ rfl, h.reports, h.refers, h.placed, h.owned,
      h.pending⟩
  | instructionRegisterAllocate hs => exact h.instructionRegisterAllocate hs hmeets
  | instructionQueueAllocate hs => exact h.instructionQueueAllocate hs
  | exit hf he => exact h.exit hf.1
  | issue hf he hi => exact h.issue hf hi
  | resolve hf hb hq ht => exact h.resolve hf hb _ _
  | advance hf hb => exact h.advance hf
  | handleFinishedContext hf hs => exact h.handleFinishedContext hf hs hmeets
  | others memories => exact ⟨h.housed, h.reports, h.refers, h.placed, h.owned, h.pending⟩

end Inv

theorem Run.inv [FloatOps] {info : CoreInfo} {subCoreId uthreadSlots nx nf nv : Nat}
    {memories : Memories} {s : CoreState} (hl : (RegisterUnit.create nx nf nv).Layout)
    (h : Run info (start subCoreId uthreadSlots nx nf nv memories) s) : Inv s := by
  induction h with
  | refl => exact Inv.start subCoreId uthreadSlots nx nf nv memories hl
  | tail _ hstep ih =>
    obtain ⟨e, hs, hmeets⟩ := hstep
    exact ih.step hs hmeets

/-- If packets are freed only after the write-backs to their registers, no free register is
pending, and what is written back never belongs to another packet. -/
theorem no_freed_pending [FloatOps] {info : CoreInfo} {subCoreId uthreadSlots nx nf nv : Nat}
    {memories : Memories} {s : CoreState} (hl : (RegisterUnit.create nx nf nv).Layout)
    (h : Run info (start subCoreId uthreadSlots nx nf nv memories) s) :
    s.NoFreedPending ∧ s.ReadiesOwn :=
  ⟨(h.inv hl).noFreedPending, (h.inv hl).readiesOwn⟩

/-! ## A division and an `exit` -/

/-- An instruction on `x1` and `x2` with the destination `x3`. -/
def sampleArith (op : Opcode) : NdpInstruction :=
  { opcode := op, operandType := .none, src := ![regXBase + 1, regXBase + 2, 0, 0, 0],
    dest := regXBase + 3, segDest := 0, segCnt := 0, doBranch := false }

/-- `div x3, x1, x2; exit` -/
def sampleSection : InstColumn :=
  countedColumn [sampleArith .div, sampleArith .exit] ∅ RegisterUnit.sampleRequest

/-- The division after renaming. -/
def sampleDiv : NdpInstruction :=
  (((sampleArith .div).setSrc 0 regPXBase).setSrc 1 (regPXBase + 1)).setDest (regPXBase + 2)

def sampleRenamed : InstColumn := { sampleSection with insts := [sampleDiv, sampleArith .exit] }

/-- The register unit after renaming. -/
def sampleUnit : RegisterUnit :=
  { RegisterUnit.create 3 0 0 with
    xregs := ⟨[], AList.insert 7 (AList.insert (regXBase + 3) (regPXBase + 2)
      (AList.insert (regXBase + 2) (regPXBase + 1) (AList.insert (regXBase + 1) regPXBase ∅))) ∅⟩
    cvtVlmulStatus := immM1
    xregTable := Function.update
      (Function.update (RegisterUnit.create 3 0 0).xregTable regPXBase 64) (regPXBase + 1) 32 }

def sampleStart : CoreState :=
  start 0 1 3 0 0 ⟨⟨0, 0, none, fun _ => none⟩, ⟨0, 0, none, fun _ => none⟩⟩

/-- The section has been handed over, and then renamed, and then queued. -/
def sampleHanded : CoreState :=
  { sampleStart with core := { sampleStart.core with instColumnQ := [sampleSection] } }

def sampleAllocated : CoreState :=
  { sampleStart with core := { sampleStart.core with
    registerUnit := { sampleUnit with afterRename := [sampleRenamed] } } }

def sampleQueued : CoreState :=
  { sampleStart with core := { sampleStart.core with
    registerUnit := sampleUnit
    instructionQueue := ⟨[(0, sampleRenamed)], 1, AList.insert (0, 0) ⟨.kernelBody, 0, 1⟩ ∅⟩ } }

theorem sample_renamed :
    sampleHanded.core.instructionRegisterAllocate = .ok sampleAllocated.core := by
  have hid : toInt (sampleSection.req.id : Int) = 7 := by decide
  refine SubCore.instructionRegisterAllocate_cons rfl rfl ?_
  rw [hid]
  rfl

/-- `div x3, x1, x2; exit`, where the division is done when `exit` is issued. -/
theorem no_freed_pending_div : letI := FloatOps.zero
    ∃ s, Run ⟨0, 32⟩ sampleStart s ∧ regPXBase + 2 ∈ s.core.registerUnit.xregs.free ∧
      s.NoFreedPending ∧ s.ReadiesOwn := by
  let _ := FloatOps.zero
  have hl : (RegisterUnit.create 3 0 0).Layout := ⟨by decide, by decide, by decide⟩
  have hqueue : sampleAllocated.core.instructionQueueAllocate = .ok sampleQueued.core := rfl
  have hmeets : sampleHanded.Meets .instructionRegisterAllocate := by
    intro col rest hq _
    obtain ⟨rfl, -⟩ := List.cons.inj hq
    refine ⟨?_, fun inst hi hnone => ?_⟩
    · rintro ⟨c, hc⟩
      cases c <;> exact AList.notMem_empty _ hc
    · obtain rfl | rfl := List.mem_pair.mp hi
      all_goals decide
  have h₁ : Run ⟨0, 32⟩ sampleStart sampleHanded :=
    .single ⟨_, .hand sampleSection, trivial⟩
  have h₂ : Run ⟨0, 32⟩ sampleStart sampleAllocated :=
    h₁.tail ⟨_, .instructionRegisterAllocate sample_renamed, hmeets⟩
  have h₃ : Run ⟨0, 32⟩ sampleStart sampleQueued :=
    h₂.tail ⟨_, .instructionQueueAllocate hqueue, trivial⟩
  have hf : sampleQueued.Fetches 0 sampleRenamed sampleDiv :=
    ⟨List.mem_cons_self, rfl, by decide, rfl⟩
  have h₄ : Run ⟨0, 32⟩ sampleStart _ := h₃.tail ⟨.issue 0, .issue hf (by decide) rfl, trivial⟩
  have h₅ : Run ⟨0, 32⟩ sampleStart _ :=
    h₄.tail ⟨.advance _, .advance (List.nil_append _).symm rfl, trivial⟩
  have h₆ : Run ⟨0, 32⟩ sampleStart _ :=
    h₅.tail ⟨.exit 0, .exit ⟨List.mem_cons_self, rfl, by decide, rfl⟩ rfl, trivial⟩
  -- nothing is on its way when the report is handled
  obtain ⟨s, h₇, hfree⟩ : ∃ s, Run ⟨0, 32⟩ sampleStart s ∧
      regPXBase + 2 ∈ s.core.registerUnit.xregs.free := by
    refine ⟨_, h₆.tail ⟨_, @Step.handleFinishedContext _ ⟨0, 32⟩ _ _ _
      ⟨fun _ => _, fun _ => .refl _⟩ _ rfl rfl, ?_⟩, by decide⟩
    intro _ f hf
    exact absurd hf List.not_mem_nil
  exact ⟨s, h₇, hfree, no_freed_pending hl h₇⟩

/-- The division takes long, and `exit` is issued without waiting for it. The register of `x3` is
free while the division has still to set it ready. -/
theorem freed_while_pending : letI := FloatOps.zero
    ∃ s, Relation.ReflTransGen (fun s s' => ∃ e, Step ⟨0, 32⟩ s e s') sampleStart s ∧
      regPXBase + 2 ∈ s.core.registerUnit.xregs.free ∧
      regPXBase + 2 ∈ s.core.registerUnit.notReady ∧
      ∃ f ∈ s.dispatched, f.inst.opcode = .div ∧ f.place = .unit ∧
        f.inst.dest = regPXBase + 2 := by
  let _ := FloatOps.zero
  have hqueue : sampleAllocated.core.instructionQueueAllocate = .ok sampleQueued.core := rfl
  have h₁ : Relation.ReflTransGen (fun s s' => ∃ e, Step ⟨0, 32⟩ s e s') sampleStart
      sampleHanded := .single ⟨_, .hand sampleSection⟩
  have h₂ : Relation.ReflTransGen _ sampleStart sampleAllocated :=
    h₁.tail ⟨_, .instructionRegisterAllocate sample_renamed⟩
  have h₃ : Relation.ReflTransGen _ sampleStart sampleQueued :=
    h₂.tail ⟨_, .instructionQueueAllocate hqueue⟩
  have hf : sampleQueued.Fetches 0 sampleRenamed sampleDiv :=
    ⟨List.mem_cons_self, rfl, by decide, rfl⟩
  have h₄ := h₃.tail ⟨.issue 0, .issue hf (by decide) rfl⟩
  have h₅ := h₄.tail ⟨.exit 0, .exit ⟨List.mem_cons_self, rfl, by decide, rfl⟩ rfl⟩
  have h₆ := h₅.tail ⟨_,
    @Step.handleFinishedContext _ ⟨0, 32⟩ _ _ _ ⟨fun _ => _, fun _ => .refl _⟩ _ rfl rfl⟩
  exact ⟨_, h₆, by decide, by decide, _, List.mem_cons_self, rfl, rfl, rfl⟩

end CoreState

end NdpSim
