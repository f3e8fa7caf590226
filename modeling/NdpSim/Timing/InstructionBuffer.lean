import NdpSim.Register.Demand

/-!
# Register counts and admission

When a kernel is registered, the instruction buffer counts the registers each section will
need; renaming is admitted when that many registers are free. The count is taken from the
destination fields alone and so differs from what renaming allocates.
-/
namespace NdpSim

open Library

/-- The destination fields `count_required_regs` has collected. -/
structure UsedRegs where
  xregs : Finset Int := ∅
  fregs : Finset Int := ∅
  vregs : Finset Int := ∅
  doubleVreg : Finset Int := ∅
  vmul : Nat := 1

namespace UsedRegs

def add (a : UsedRegs) (inst : NdpInstruction) : UsedRegs :=
  if inst.opcode.checkScalarOp then
    if inst.opcode.checkFloatOp then { a with fregs := insert (toInt inst.dest) a.fregs }
    else if inst.opcode ≠ .csrwi ∧ inst.opcode ≠ .csrw then
      { a with xregs := insert (toInt inst.dest) a.xregs }
    else a
  else if inst.opcode = .vsetvli then
    if inst.src 3 = immM1 then { a with vmul := 1 }
    else if inst.src 3 = immM2 then { a with vmul := 2 }
    else a
  else if inst.operandType = .f_s then { a with fregs := insert (toInt inst.dest) a.fregs }
  else if inst.opcode ≠ .vse16 ∧ inst.opcode ≠ .vse32 ∧ inst.opcode ≠ .vsuxei32 then
    { a with
      vregs := insert (toInt inst.dest) a.vregs
      doubleVreg := if 1 < a.vmul then insert (toInt inst.dest) a.doubleVreg else a.doubleVreg }
  else a

end UsedRegs

/-- The counts of one section, per class. -/
def countRequiredRegs (insts : List NdpInstruction) : RegClass → Nat :=
  let used := insts.foldl UsedRegs.add {}
  fun
  | .x => used.xregs.card
  | .f => used.fregs.card
  | .v => used.vregs.card + used.doubleVreg.card

/-- The column the instruction buffer builds for a request. -/
def countedColumn (insts : List NdpInstruction) (loopMap : LoopMap) (req : RequestInfo) :
    InstColumn where
  req := req
  insts := insts
  loopMap := loopMap
  xregs := countRequiredRegs insts .x
  fregs := countRequiredRegs insts .f
  vregs := countRequiredRegs insts .v

namespace RegisterUnit

/-- Admission is sound for a section: in every reachable unit that does not refuse its column,
renaming it for a new packet never takes a register from an empty free list. -/
def AdmissionSound (insts : List NdpInstruction) : Prop :=
  ∀ nx nf nv u, Reachable nx nf nv u → u.Layout → ∀ key req loopMap, ¬ u.Live key →
    u.renameFull (countedColumn insts loopMap req) = false →
    u.renamePush (countedColumn insts loopMap req) key ≠ .error .emptyFreeList

/-- The names the section introduces, with its pairs, are covered by the counted fields. -/
def Covered (insts : List NdpInstruction) : Prop :=
  ∀ c, (Names.ofSection insts).demand c ≤ countRequiredRegs insts c

/-- A unit with just the counted registers fits the register numbering. -/
def CountFits (insts : List NdpInstruction) : Prop :=
  (create (countRequiredRegs insts .x) (countRequiredRegs insts .f)
    (countRequiredRegs insts .v)).Layout

theorem renameFull_eq_false {u : RegisterUnit} {insts : List NdpInstruction} {loopMap : LoopMap}
    {req : RequestInfo} : u.renameFull (countedColumn insts loopMap req) = false ↔
      ∀ c, countRequiredRegs insts c ≤ (u.pool c).free.length := by
  simp only [renameFull, Bool.or_eq_false_iff, decide_eq_false_iff_not, Nat.not_lt]
  constructor
  · rintro ⟨⟨hx, hf⟩, hv⟩ c
    cases c with
    | x => exact hx
    | f => exact hf
    | v => exact hv
  · intro h
    exact ⟨⟨h .x, h .f⟩, h .v⟩

theorem renamePush_eq_empty {u : RegisterUnit} {col : InstColumn} {key : Int}
    (hf : u.renameFull col = false) :
    u.renamePush col key = .error .emptyFreeList ↔
      u.convert col.insts key col.req = .error .emptyFreeList := by
  unfold renamePush
  cases hc : u.convert col.insts key col.req with
  | ok res => simp [hf, Bind.bind, Except.bind, pure, Except.pure]
  | error e => simp [hf, Bind.bind, Except.bind]

/-- Covered sections are admitted soundly, and only those, as far as no first source is a
number in the physical vector range and the counts fit the numbering. -/
theorem admissionSound_iff_covered (insts : List NdpInstruction) :
    (Covered insts → AdmissionSound insts) ∧
    (Plain insts → CountFits insts → (AdmissionSound insts ↔ Covered insts)) := by
  have hsuff : Covered insts → AdmissionSound insts := by
    intro hcov nx nf nv u hu hl key req loopMap hk hfull
    rw [Ne, renamePush_eq_empty hfull]
    have hfree := renameFull_eq_false.mp hfull
    exact convert_ne_empty hu.conserved hl hk insts req fun c => (hcov c).trans (hfree c)
  refine ⟨hsuff, fun hplain hfit => ⟨fun hsound c => ?_, hsuff⟩⟩
  -- a fresh unit with exactly the counted registers is the tightest one that admits the column
  set u := create (countRequiredRegs insts .x) (countRequiredRegs insts .f)
    (countRequiredRegs insts .v)
  have hu : Reachable _ _ _ u := .refl
  have hlen (c : RegClass) : (u.pool c).free.length = countRequiredRegs insts c := by
    cases c <;> simp [u, create, pool, RegClass.physical]
  have hk : ¬ u.Live 0 := by
    rintro ⟨c, hc⟩
    cases c <;> exact AList.notMem_empty _ hc
  have hfull : u.renameFull (countedColumn insts ∅ sampleRequest) = false :=
    renameFull_eq_false.mpr fun c => (hlen c).ge
  have hpush := hsound _ _ _ u hu hfit 0 sampleRequest ∅ hk hfull
  rw [Ne, renamePush_eq_empty hfull] at hpush
  rw [← hlen c]
  exact demand_le_of_convert hu.conserved hfit hk hplain sampleRequest hpush c

/-- `li x3, 5` -/
def sampleLi : NdpInstruction :=
  { opcode := .li, operandType := .none, src := ![5, 0, 0, 0, 0], dest := regXBase + 3,
    segDest := 0, segCnt := 0, doBranch := false }

/-- One register is counted for `li x3, 5`, but its packet takes three: with a single free
register the column is admitted and renaming runs out. -/
theorem not_admissionSound_li : ¬ AdmissionSound [sampleLi] := by
  intro h
  have hk : ¬ (create 1 0 0).Live 0 := by
    rintro ⟨c, hc⟩
    cases c <;> exact AList.notMem_empty _ hc
  exact h 1 0 0 (create 1 0 0) .refl ⟨by decide, by decide, by decide⟩ 0 sampleRequest ∅ hk
    (by decide) rfl

end RegisterUnit

end NdpSim
