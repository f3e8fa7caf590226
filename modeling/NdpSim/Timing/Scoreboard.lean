import NdpSim.Register.Conservation
import NdpSim.Timing.ExecutionUnit

/-!
# The scoreboard

The scoreboard is a set of registers that are not ready. `issue` looks up some of the operands of
an instruction and enters its destination; the destination is taken out when the instruction
leaves its execution unit or, for a load, when its data is written back. The set speaks for the
instructions in flight as long as no instruction relies on an operand that `issue` does not look
up, no destination is entered twice, and no register is written that is never entered.
-/
namespace NdpSim

open Library

namespace RegisterUnit

def isPhysical (u : RegisterUnit) (reg : Int) : Bool := u.isXreg reg || u.isFreg reg || u.isVreg reg

/-- The same registers, and the same of them not ready. -/
def SameBoard (u u' : RegisterUnit) : Prop :=
  u'.notReady = u.notReady ∧ u'.numRegs = u.numRegs

theorem SameBoard.trans {u u' u'' : RegisterUnit} (h : u.SameBoard u') (h' : u'.SameBoard u'') :
    u.SameBoard u'' := ⟨h'.1.trans h.1, h'.2.trans h.2⟩

theorem Refilled.sameBoard {u u' : RegisterUnit} (h : u.Refilled u') : u.SameBoard u' := by
  obtain ⟨xt, ft, vt, rfl⟩ := h
  exact ⟨rfl, rfl⟩

theorem isPhysical_congr {u u' : RegisterUnit} (h : u'.numRegs = u.numRegs) (reg : Int) :
    u'.isPhysical reg = u.isPhysical reg := by
  have hx : u'.numXregs = u.numXregs := congrFun h .x
  have hf : u'.numFregs = u.numFregs := congrFun h .f
  have hv : u'.numVregs = u.numVregs := congrFun h .v
  simp only [isPhysical, isXreg, isFreg, isVreg, hx, hf, hv]

theorem notReady_setPool (u : RegisterUnit) (c : RegClass) (p : Pool Int Int Int) :
    (u.setPool c p).notReady = u.notReady := by
  cases c <;> rfl

theorem notReady_destRename {u u' : RegisterUnit} {c : RegClass} {key name r : Int}
    {double : Bool} (h : u.destRename c key name double = .ok (r, u')) :
    u'.notReady = u.notReady := by
  obtain ⟨-, rfl⟩ | ⟨-, -, rest, -, rfl⟩ | ⟨-, -, partner, rest, -, rfl⟩ := destRename_cases h
  · rfl
  · exact notReady_setPool u c _
  · exact notReady_setPool u c _

/-- Renaming does not touch the scoreboard. -/
theorem SameBoard.convert {u u' : RegisterUnit} {insts out : List NdpInstruction} {key : Int}
    {req : RequestInfo} (h : u.convert insts key req = .ok (out, u')) : u.SameBoard u' := by
  refine ⟨?_, numRegs_convert h⟩
  obtain ⟨u₁, u₂, h₁, h₂, h⟩ := convert_eq_ok.mp h
  obtain ⟨px, rest, -, rfl⟩ := initXreg_eq_ok.mp h₁
  obtain ⟨px', rest', -, rfl⟩ := initXreg_eq_ok.mp h₂
  exact convertInsts_invariant (P := fun w => w.notReady = u.notReady) (fun _ hw => hw)
    (fun _ hd hw => (notReady_destRename hd).trans hw) h rfl

theorem isVreg_of_writeVreg {u u' : RegisterUnit} {reg : Int} {value : VectorData}
    {context : Context} (h : u.writeVreg reg value context = .ok u') :
    u.isVreg (toInt reg) = true := by
  simp only [writeVreg] at h
  split at h
  · cases h
  split at h
  case isTrue hr => exact hr
  case isFalse => cases h

end RegisterUnit

namespace Machine

variable [FloatOps] {ρ : Type} {ndpId : Int} {req : RequestInfo} {inst : NdpInstruction}

/-- The registers whose contents `Execute` reads. -/
def reads (ops : FileOps ρ) (inst : NdpInstruction) (m : Machine ρ) : List Int :=
  (m.trace ops inst).filterMap fun a => a.reads?.map fun s => toInt (inst.operand s)

/-- The registers `Execute` writes. -/
def writes (ops : FileOps ρ) (inst : NdpInstruction) (m : Machine ρ) : List Int :=
  (m.trace ops inst).filterMap fun a => a.writes?.map fun s => toInt (inst.operand s)

/-- A write that returns went to a physical register. -/
theorem isPhysical_of_handle {a : Access} {r : a.Ans} {m m' : Machine RegisterUnit} {s : Slot}
    (h : handle (RegisterUnit.fileOps ndpId req) inst a m = .ok (r, m'))
    (hs : a.writes? = some s) : m.regs.isPhysical (toInt (inst.operand s)) = true := by
  cases a <;> cases hs
  case writeX.refl x =>
    obtain ⟨u, hu, -⟩ := bind_eq_ok.mp h
    simp [RegisterUnit.isPhysical, (RegisterUnit.writeXreg_eq_ok.mp hu).1]
  case writeF.refl x =>
    obtain ⟨u, hu, -⟩ := bind_eq_ok.mp h
    simp [RegisterUnit.isPhysical, (RegisterUnit.writeFreg_eq_ok.mp hu).1]
  case writeV.refl v =>
    obtain ⟨u, hu, -⟩ := bind_eq_ok.mp h
    simp [RegisterUnit.isPhysical, RegisterUnit.isVreg_of_writeVreg hu]

/-- Execution changes the contents of registers only, and those of physical ones. -/
theorem exec_refilled {m m' : Machine RegisterUnit} {b : Bool}
    (h : m.exec (RegisterUnit.fileOps ndpId req) inst = .ok (b, m')) :
    m.regs.Refilled m'.regs ∧
      ∀ r ∈ m.writes (RegisterUnit.fileOps ndpId req) inst, m.regs.isPhysical r = true := by
  obtain ⟨hsame, hall⟩ := Prog.run_invariant (I := fun m' => m.regs.Refilled m'.regs)
    (fun a s r s' ha hs => hs.trans (refilled_handle ha)) h (RegisterUnit.Refilled.refl _)
  refine ⟨hsame, fun r hr => ?_⟩
  obtain ⟨a, ha, hr⟩ := List.mem_filterMap.mp hr
  obtain ⟨s, hs, rfl⟩ := Option.map_eq_some_iff.mp hr
  obtain ⟨t, x, t', ht, hok⟩ := hall a ha
  rw [← RegisterUnit.isPhysical_congr ht.sameBoard.2]
  exact isPhysical_of_handle hok hs

/-- What is written is the destination of an instruction that enters it, unless the instruction
is a segment load or an atomic. -/
theorem writes_dest (hseg : inst.opcode ≠ .vlsseg) {m : Machine RegisterUnit} {r : Int}
    (hr : r ∈ m.writes (RegisterUnit.fileOps ndpId req) inst) :
    r = toInt inst.dest ∧
      (inst.opcode.checkDestWrite = true ∨ inst.opcode.checkAmoOp = true) := by
  obtain ⟨a, ha, hr⟩ := List.mem_filterMap.mp hr
  obtain ⟨s, hs, rfl⟩ := Option.map_eq_some_iff.mp hr
  obtain ⟨c, hc⟩ := Access.use?_of_writes? hs
  obtain ⟨rfl, hmarked⟩ :=
    inst.writes_usesOf hseg ((within_of_mem_trace ha).use _ hc)
  exact ⟨rfl, hmarked⟩

end Machine

/-! ## Runs -/

/-- An instruction that was issued and not written back, with the registers it writes. -/
structure Outstanding where
  inst : NdpInstruction
  writes : List Int

/-- The registers and memories of a sub-core, and what is in flight on it. -/
structure Scoreboard where
  regs : RegisterUnit
  memories : Memories
  inFlight : List Outstanding

namespace Outstanding

/-- The destination is taken out of the scoreboard when the instruction is done: by the execution
unit, or through `set_rf_ready` for everything that loads. -/
def setsReady (f : Outstanding) : Bool :=
  f.inst.opcode.checkDestWrite || f.inst.opcode.checkLoadOp

/-- Atomics take out what they did not enter. -/
theorem checkAmoOp_of_setsReady {f : Outstanding} (h : f.setsReady = true)
    (hd : f.inst.opcode.checkDestWrite = false) : f.inst.opcode.checkAmoOp = true := by
  rw [setsReady, hd, Bool.false_or] at h
  revert h hd
  cases f.inst.opcode <;> decide

end Outstanding

/-- What happens next; `csr` are the settings of the column that issues. -/
inductive SubCoreEvent
  | issue (packet : Nat) (ndpId : Int) (req : RequestInfo) (inst : NdpInstruction) (csr : CSR)
  | writeBack (f : Outstanding)
  | rename
  | free
  | others

namespace Scoreboard

/-- Nothing is in flight. -/
def start (regs : RegisterUnit) (memories : Memories) : Scoreboard := ⟨regs, memories, []⟩

/-- The machine as a column with the settings `csr` sees it. -/
def machine (s : Scoreboard) (csr : CSR) : Machine RegisterUnit := ⟨s.regs, s.memories, csr⟩

section Steps

variable [FloatOps]

/-- One step of the sub-core: an instruction of some column is issued, an instruction in flight
is written back, in any order, or a column is renamed or freed. Other units change the
memories. -/
inductive Step : Scoreboard → SubCoreEvent → Scoreboard → Prop
  | issue {s : Scoreboard} {packet ndpId req inst csr addrs doBranch m}
      (he : inst.opcode ≠ .exit) (h : (s.machine csr).issue packet ndpId req inst =
        .ok (some (addrs, doBranch, m))) :
      Step s (.issue packet ndpId req inst csr) ⟨m.regs, m.memories,
        ⟨inst, (s.machine csr).writes (RegisterUnit.fileOps ndpId req) inst⟩ :: s.inFlight⟩
  | writeBack {s : Scoreboard} {pre f post} (hf : s.inFlight = pre ++ f :: post) :
      Step s (.writeBack f) { s with
        regs := if f.setsReady then s.regs.setReady (toInt f.inst.dest) else s.regs
        inFlight := pre ++ post }
  | rename {s : Scoreboard} {insts out key req regs}
      (h : s.regs.convert insts key req = .ok (out, regs)) :
      Step s .rename { s with regs := regs }
  | free {s : Scoreboard} (key : Int) (order : s.regs.IterationOrder key) :
      Step s .free { s with regs := s.regs.freeRegs key order }
  | others {s : Scoreboard} (memories : Memories) :
      Step s .others { s with memories := memories }

/-- What `issue` does not see to: registers read through fields it does not look up are ready, a
destination it enters was not entered already, an atomic has no destination register, and the
instruction is no segment load. -/
structure Issuable (ndpId : Int) (req : RequestInfo) (inst : NdpInstruction)
    (m : Machine RegisterUnit) : Prop where
  unchecked : ∀ a ∈ m.trace (RegisterUnit.fileOps ndpId req) inst, ∀ slot,
    a.reads? = some slot → slot ∉ inst.checkedSlots →
    m.regs.checkReady (toInt (inst.operand slot)) = true
  fresh : inst.opcode.checkDestWrite = true → m.regs.isPhysical (toInt inst.dest) = true →
    m.regs.checkReady (toInt inst.dest) = true
  atomic : inst.opcode.checkAmoOp = true → m.regs.isPhysical (toInt inst.dest) = false
  segment : inst.opcode ≠ .vlsseg

def Meets (s : Scoreboard) : SubCoreEvent → Prop
  | .issue _ ndpId req inst csr => Issuable ndpId req inst (s.machine csr)
  | _ => True

/-- A run all of whose issues meet the condition. -/
def Run : Scoreboard → Scoreboard → Prop :=
  Relation.ReflTransGen fun s s' => ∃ e, Step s e s' ∧ s.Meets e

/-- A ready register is not about to be written. -/
def ReadySound (s : Scoreboard) : Prop :=
  ∀ r, s.regs.checkReady r = true → ∀ f ∈ s.inFlight, r ∉ f.writes

/-- An instruction that is issued reads no register that is about to be written. -/
def NoHazard (s : Scoreboard) : SubCoreEvent → Prop
  | .issue _ ndpId req inst csr =>
    ∀ r ∈ (s.machine csr).reads (RegisterUnit.fileOps ndpId req) inst, ∀ f ∈ s.inFlight,
      r ∉ f.writes
  | _ => True

end Steps

/-- The instruction has a register of its own in the scoreboard. -/
def Enters (u : RegisterUnit) (f : Outstanding) : Prop :=
  f.inst.opcode.checkDestWrite = true ∧ u.isPhysical (toInt f.inst.dest) = true

/-- Each instruction in flight that has a destination register has entered it alone, writes
nothing else, and what takes out a register has entered it. -/
structure Inv (s : Scoreboard) : Prop where
  entered : ∀ f ∈ s.inFlight, Enters s.regs f → toInt f.inst.dest ∈ s.regs.notReady
  covered : ∀ f ∈ s.inFlight, ∀ r ∈ f.writes, Enters s.regs f ∧ r = toInt f.inst.dest
  alone : s.inFlight.Pairwise fun f g => Enters s.regs f → Enters s.regs g →
    toInt f.inst.dest ≠ toInt g.inst.dest
  silent : ∀ f ∈ s.inFlight, f.setsReady = true → f.inst.opcode.checkDestWrite = false →
    s.regs.isPhysical (toInt f.inst.dest) = false

namespace Inv

variable {s : Scoreboard}

theorem start (regs : RegisterUnit) (memories : Memories) :
    Inv (Scoreboard.start regs memories) := by
  refine ⟨?_, ?_, List.Pairwise.nil, ?_⟩ <;> intro f hf <;> cases hf

theorem enters_congr {u u' : RegisterUnit} (h : u'.numRegs = u.numRegs) (f : Outstanding) :
    Enters u' f ↔ Enters u f := by
  rw [Enters, Enters, RegisterUnit.isPhysical_congr h]

/-- The invariant depends on the scoreboard and the instructions in flight only. -/
theorem sameBoard (h : Inv s) {u : RegisterUnit} (hu : s.regs.SameBoard u)
    (memories : Memories) : Inv ⟨u, memories, s.inFlight⟩ := by
  have he (f : Outstanding) : Enters u f ↔ Enters s.regs f := enters_congr hu.2 f
  refine ⟨fun f hf hen => ?_, fun f hf r hr => ?_, ?_, fun f hf hs hd => ?_⟩
  · change toInt f.inst.dest ∈ u.notReady
    rw [hu.1]
    exact h.entered f hf ((he f).mp hen)
  · obtain ⟨hen, hr⟩ := h.covered f hf r hr
    exact ⟨(he f).mpr hen, hr⟩
  · exact h.alone.imp fun hne hf hg => hne ((he _).mp hf) ((he _).mp hg)
  · change u.isPhysical (toInt f.inst.dest) = false
    rw [RegisterUnit.isPhysical_congr hu.2]
    exact h.silent f hf hs hd

theorem readySound (h : Inv s) : s.ReadySound := by
  intro r hready f hf hr
  obtain ⟨hen, rfl⟩ := h.covered f hf r hr
  have hin := h.entered f hf hen
  rw [RegisterUnit.checkReady, decide_eq_true_eq] at hready
  exact hready hin

/-- What leaves takes its own register out and no other. -/
theorem writeBack (h : Inv s) {pre post : List Outstanding} {f : Outstanding}
    (hf : s.inFlight = pre ++ f :: post) :
    Inv { s with
      regs := if f.setsReady then s.regs.setReady (toInt f.inst.dest) else s.regs
      inFlight := pre ++ post } := by
  have hsub : ∀ g ∈ pre ++ post, g ∈ s.inFlight := by
    intro g hg
    rw [hf]
    simp only [List.mem_append, List.mem_cons] at hg ⊢
    tauto
  have hnum : (if f.setsReady then s.regs.setReady (toInt f.inst.dest) else s.regs).numRegs =
      s.regs.numRegs := by
    split <;> rfl
  have he (g : Outstanding) := enters_congr hnum g
  have halone := h.alone
  rw [hf, List.pairwise_append, List.pairwise_cons] at halone
  obtain ⟨hpre, ⟨hfpost, hpost⟩, hcross⟩ := halone
  -- no other instruction has the register of `f`
  have hother : ∀ g ∈ pre ++ post, Enters s.regs g → f.setsReady = true →
      toInt g.inst.dest ≠ toInt f.inst.dest := by
    intro g hg hen hsets heq
    cases hd : f.inst.opcode.checkDestWrite with
    | false =>
      have hno := h.silent f (by simp [hf]) hsets hd
      rw [← heq, hen.2] at hno
      cases hno
    | true =>
      have henf : Enters s.regs f := ⟨hd, by rw [← heq]; exact hen.2⟩
      obtain hg | hg := List.mem_append.mp hg
      · exact hcross g hg f List.mem_cons_self hen henf heq
      · exact hfpost g hg henf hen heq.symm
  refine ⟨fun g hg hen => ?_, fun g hg r hr => ?_, ?_, fun g hg hs hd => ?_⟩
  · have hen' := (he g).mp hen
    have hin := h.entered g (hsub g hg) hen'
    dsimp only
    split
    case isTrue hsets => exact Finset.mem_erase.mpr ⟨hother g hg hen' hsets, hin⟩
    case isFalse => exact hin
  · obtain ⟨hen, hr⟩ := h.covered g (hsub g hg) r hr
    exact ⟨(he g).mpr hen, hr⟩
  · have hrest := List.pairwise_append.mpr ⟨hpre, hpost,
      fun a ha b hb => hcross a ha b (List.mem_cons_of_mem _ hb)⟩
    exact hrest.imp fun hne hf hg => hne ((he _).mp hf) ((he _).mp hg)
  · dsimp only
    rw [RegisterUnit.isPhysical_congr hnum]
    exact h.silent g (hsub g hg) hs hd

variable [FloatOps]

/-- An issued instruction enters a register that nothing in flight has. -/
theorem issue (h : Inv s) {packet : Nat} {ndpId : Int} {req : RequestInfo}
    {inst : NdpInstruction} {csr : CSR} {addrs : Finset (BitVec 64)} {doBranch : Bool}
    {m : Machine RegisterUnit}
    (hi : (s.machine csr).issue packet ndpId req inst = .ok (some (addrs, doBranch, m)))
    (hmeets : Issuable ndpId req inst (s.machine csr)) :
    Inv ⟨m.regs, m.memories,
      ⟨inst, (s.machine csr).writes (RegisterUnit.fileOps ndpId req) inst⟩ :: s.inFlight⟩ := by
  obtain ⟨-, m₁, hexec, rfl⟩ := Machine.issue_eq_some hi
  obtain ⟨hrefilled, hphys⟩ := Machine.exec_refilled hexec
  have hboard := hrefilled.sameBoard
  -- what the board looks like after the issue
  set regs := (if inst.opcode.checkDestWrite then
    { m₁ with regs := m₁.regs.setNotReady (toInt inst.dest) } else m₁).regs with hregs
  have hnum : regs.numRegs = s.regs.numRegs := by
    rw [hregs]
    split
    · exact hboard.2
    · exact hboard.2
  have hmono : s.regs.notReady ⊆ regs.notReady := by
    rw [hregs]
    split
    · exact (Finset.subset_insert _ _).trans_eq' hboard.1
    · exact hboard.1.ge
  have he (g : Outstanding) : Enters regs g ↔ Enters s.regs g := enters_congr hnum g
  refine ⟨fun g hg hen => ?_, fun g hg r hr => ?_, List.pairwise_cons.mpr ⟨fun g hg => ?_, ?_⟩,
    fun g hg hs hd => ?_⟩
  · obtain rfl | hg := List.mem_cons.mp hg
    · rw [hregs, if_pos hen.1]
      exact Finset.mem_insert_self _ _
    · exact hmono (h.entered g hg ((he g).mp hen))
  · obtain rfl | hg := List.mem_cons.mp hg
    · obtain ⟨rfl, hd⟩ := Machine.writes_dest hmeets.segment hr
      have hp := hphys _ hr
      refine ⟨(he _).mpr ⟨?_, hp⟩, rfl⟩
      refine hd.resolve_right fun ham => ?_
      rw [hmeets.atomic ham] at hp
      cases hp
    · obtain ⟨hen, hr⟩ := h.covered g hg r hr
      exact ⟨(he g).mpr hen, hr⟩
  · intro henf heng heq
    have hin := h.entered g hg ((he g).mp heng)
    have hready := hmeets.fresh henf.1 ((he _).mp henf).2
    rw [RegisterUnit.checkReady, decide_eq_true_eq] at hready
    refine hready ?_
    change toInt inst.dest ∈ s.regs.notReady
    rwa [show toInt inst.dest = toInt g.inst.dest from heq]
  · exact h.alone.imp fun hne hf hg => hne ((he _).mp hf) ((he _).mp hg)
  · change regs.isPhysical (toInt g.inst.dest) = false
    rw [RegisterUnit.isPhysical_congr hnum]
    obtain rfl | hg := List.mem_cons.mp hg
    · exact hmeets.atomic (Outstanding.checkAmoOp_of_setsReady hs hd)
    · exact h.silent g hg hs hd

theorem step (h : Inv s) {e : SubCoreEvent} {s' : Scoreboard} (hs : Step s e s')
    (hmeets : s.Meets e) : Inv s' := by
  cases hs with
  | issue he hi => exact h.issue hi hmeets
  | writeBack hf => exact h.writeBack hf
  | rename hc => exact h.sameBoard (RegisterUnit.SameBoard.convert hc) s.memories
  | free key order =>
    exact h.sameBoard (u := s.regs.freeRegs key order) ⟨rfl, rfl⟩ s.memories
  | others memories => exact h.sameBoard ⟨rfl, rfl⟩ memories

/-- An operand is looked up, or ready by the condition; and what is ready is not in flight. -/
theorem noHazard (h : Inv s) {e : SubCoreEvent} {s' : Scoreboard} (hs : Step s e s')
    (hmeets : s.Meets e) : s.NoHazard e := by
  cases hs with
  | @issue packet ndpId req inst csr addrs doBranch m he hi =>
    intro r hr f hf
    obtain ⟨a, ha, hr⟩ := List.mem_filterMap.mp hr
    obtain ⟨slot, hslot, rfl⟩ := Option.map_eq_some_iff.mp hr
    refine h.readySound _ ?_ f hf
    by_cases hchecked : slot ∈ inst.checkedSlots
    · exact RegisterUnit.checkReady_of_checkDependency (Machine.issue_eq_some hi).1 hchecked
    · exact hmeets.unchecked a ha slot hslot hchecked
  | writeBack | rename | free | others => trivial

end Inv

theorem Run.inv [FloatOps] {regs : RegisterUnit} {memories : Memories} {s : Scoreboard}
    (h : Run (start regs memories) s) : Inv s := by
  induction h with
  | refl => exact Inv.start regs memories
  | tail _ hstep ih =>
    obtain ⟨e, hs, hmeets⟩ := hstep
    exact ih.step hs hmeets

/-- In every run whose issues meet the condition, a ready register is not about to be written,
and no instruction that is issued reads a register that is. -/
theorem scoreboard_sound [FloatOps] {regs : RegisterUnit} {memories : Memories} {s : Scoreboard}
    (h : Run (start regs memories) s) :
    s.ReadySound ∧ ∀ e s', Step s e s' → s.Meets e → s.NoHazard e :=
  ⟨h.inv.readySound, fun _ _ hs hmeets => h.inv.noHazard hs hmeets⟩

/-! ## Two instructions with one destination -/

/-- An instruction on the first physical x register. -/
def sampleInst (op : Opcode) : NdpInstruction :=
  { opcode := op, operandType := .none, src := fun _ => regPXBase, dest := regPXBase, segDest := 0,
    segCnt := 0, doBranch := false }

def sampleStart : Scoreboard :=
  start (RegisterUnit.create 1 0 0)
    ⟨⟨0, 0, none, fun _ => none⟩, ⟨0, 0, none, fun _ => none⟩⟩

def sampleIssue (op : Opcode) : SubCoreEvent :=
  .issue 32 0 RegisterUnit.sampleRequest (sampleInst op) {}

/-- A `li` is issued and its register is not ready while it is in flight. -/
theorem scoreboard_sound_li : letI := FloatOps.zero
    ∃ s, Run sampleStart s ∧ s.regs.checkReady regPXBase = false ∧
      s.inFlight.map Outstanding.writes = [[regPXBase]] ∧ s.ReadySound := by
  let _ := FloatOps.zero
  have hmeets : sampleStart.Meets (sampleIssue .li) := by
    refine ⟨fun a ha slot hslot => ?_, fun _ _ => rfl, fun ham => ?_, by decide⟩
    · change a ∈ [Access.operand (.src 0), .writeX .dest (BitVec.ofInt 64 regPXBase)] at ha
      obtain rfl | rfl := List.mem_pair.mp ha
      all_goals cases hslot
    · cases ham
  have h₁ : Run sampleStart _ := .single ⟨sampleIssue .li, .issue (by decide) rfl, hmeets⟩
  exact ⟨_, h₁, by decide, rfl, (scoreboard_sound h₁).1⟩

/-- An `and` is issued while the `li` that writes its operand is in flight. After two `li` to one
register and the write-back of the first, the register is ready though the second still has to
write it. -/
theorem ready_while_in_flight : letI := FloatOps.zero
    (∃ s s', Relation.ReflTransGen (fun s s' => ∃ e, Step s e s') sampleStart s ∧
      Step s (sampleIssue .and) s' ∧ ¬ s.NoHazard (sampleIssue .and)) ∧
    ∃ s, Relation.ReflTransGen (fun s s' => ∃ e, Step s e s') sampleStart s ∧
      ¬ s.ReadySound := by
  let _ := FloatOps.zero
  have h₁ : Relation.ReflTransGen (fun s s' => ∃ e, Step s e s') sampleStart _ :=
    .single ⟨sampleIssue .li, .issue (by decide) rfl⟩
  have h₂ := h₁.tail ⟨sampleIssue .li, .issue (by decide) rfl⟩
  have h₃ := h₂.tail ⟨.writeBack _, .writeBack (List.nil_append _).symm⟩
  refine ⟨⟨_, _, h₁, .issue (by decide) rfl, fun h => ?_⟩, _, h₃, fun h => ?_⟩
  · exact h regPXBase List.mem_cons_self _ List.mem_cons_self List.mem_cons_self
  · exact h regPXBase (by decide) _ List.mem_cons_self List.mem_cons_self

end Scoreboard

end NdpSim
