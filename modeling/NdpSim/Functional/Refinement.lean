import NdpSim.Functional.Machine
import NdpSim.Register.Substitution

/-!
# Renamed code and the code as written

A scalar program that was renamed for a packet runs on the shared register file as the program
as written runs on a register file of its own: same memory, same control flow, and the same
register contents up to the renaming.
-/
namespace NdpSim

open Library

/-! ## The program as written -/

/-- A private register file, by architectural name. -/
structure ArchFile where
  x : Int → BitVec 64
  f : Int → F32

namespace ArchFile

/-- The special registers that can be read. -/
def readSpecial (ndpId : Int) (req : RequestInfo) (reg : Int) : Except Fault (BitVec 64) :=
  if reg = regNdpId then .ok (BitVec.ofInt 64 ndpId)
  else if reg = regAddr then .ok req.addr
  else if reg = regRequestOffset then .ok req.offset
  else if reg = regX0 then .ok 0
  else .error (.runtimeError "RegisterUnit::ReadXreg: Invalid register")

/-- The registers of the file are those in `names`; all others are special or invalid. A private
file has no vector registers. -/
def ops (names : Finset (RegClass × Int)) (ndpId : Int) (req : RequestInfo) :
    FileOps ArchFile where
  readX a _ reg :=
    if (.x, toInt reg) ∈ names then .ok (a.x (toInt reg)) else readSpecial ndpId req (toInt reg)
  readF a reg :=
    if (.f, toInt reg) ∈ names then .ok (a.f (toInt reg))
    else .error (.runtimeError "RegisterUnit::ReadFreg: Invalid register")
  readV _ _ _ := .error .undefined
  writeX a reg x :=
    if (.x, toInt reg) ∈ names then .ok { a with x := Function.update a.x (toInt reg) x }
    else .error (.runtimeError "RegisterUnit::WriteXreg: Invalid register")
  writeF a reg x :=
    if (.f, toInt reg) ∈ names then .ok { a with f := Function.update a.f (toInt reg) x }
    else .error (.runtimeError "RegisterUnit::WriteFreg: Invalid register")
  writeV _ _ _ _ := .error .undefined
  exist _ _ := false

/-- `x1` and `x2` hold the request, and a register that was never written holds what its
physical register holds. -/
structure Initial (map : RegClass → Int → Option Int) (u : RegisterUnit) (req : RequestInfo)
    (a : ArchFile) : Prop where
  addr : a.x (regXBase + 1) = req.addr
  offset : a.x (regXBase + 2) = req.offset
  x : ∀ n p, n ≠ regXBase + 1 → n ≠ regXBase + 2 → map .x n = some p → a.x n = u.xregTable p
  f : ∀ n p, map .f n = some p → a.f n = u.fregTable p

end ArchFile

/-- Scalar integer and float instructions, loads, stores and branches, none of which has `x0`
for its destination. -/
def ScalarProgram (insts : List NdpInstruction) : Prop :=
  ∀ inst ∈ insts, inst.opcode.checkScalarOp = true ∧ inst.opcode.checkCsrOp = false ∧
    ∀ a ∈ inst.nameUses, a.defines = true → a.name ≠ regX0

/-- A machine over the register unit and one over a private file that agree up to `map`. What
`map` does not reach is as it was in `u`. -/
structure Matches (map : RegClass → Int → Option Int) (u : RegisterUnit)
    (m : Machine RegisterUnit) (a : Machine ArchFile) : Prop where
  memories : m.memories = a.memories
  csr : m.csr = a.csr
  unit : m.regs = { u with xregTable := m.regs.xregTable, fregTable := m.regs.fregTable }
  x : ∀ n p, map .x n = some p → m.regs.xregTable p = a.regs.x n
  f : ∀ n p, map .f n = some p → m.regs.fregTable p = a.regs.f n
  othersX : ∀ p, (∀ n, map .x n ≠ some p) → m.regs.xregTable p = u.xregTable p
  othersF : ∀ p, (∀ n, map .f n ≠ some p) → m.regs.fregTable p = u.fregTable p

/-- The renaming of a section for `key` is a substitution, and a scalar section runs renamed as
it runs on a private register file, for every number of iterations. -/
structure SoundRenaming [FloatOps] (u : RegisterUnit) (key : Int) (req : RequestInfo)
    (insts out : List NdpInstruction) (map : RegClass → Int → Option Int) : Prop where
  injective : ∀ c n n' r, map c n = some r → map c n' = some r → n = n'
  physical : ∀ c n r, map c n = some r → r ∈ c.physical (u.numRegs c)
  disjoint : ∀ c n r, map c n = some r → ∀ key' n', (u.pool c).find? key' n' = some r → key' = key
  renames : List.Forall₂ (RegisterUnit.RenamesArchitectural map) insts out
  refines : ScalarProgram insts → ∀ ndpId loopMap n memories csr a,
    ArchFile.Initial map u req a → Prog.Related (Matches map u)
      (Machine.executeInstsArray (RegisterUnit.fileOps ndpId req) out loopMap n 0
        ⟨u, memories, csr⟩)
      (Machine.executeInstsArray (ArchFile.ops (sectionNames insts) ndpId req) insts loopMap n 0
        ⟨a, memories, csr⟩)

/-! ## What a scalar instruction accesses -/

/-- The access goes to a register through a field that is renamed in its class, or to a number
through a field that is not renamed. -/
def fits (fields : List (Option RegClass × Slot)) : Access → Prop
  | .readX s | .writeX s _ => (some .x, s) ∈ fields
  | .readF s | .writeF s _ => (some .f, s) ∈ fields
  | .operand s | .present s => s ∉ fields.map Prod.snd
  | .readV _ | .writeV _ _ | .checkExistRenameVreg _ => False
  | _ => True

/-- Segment loads are vector instructions. -/
theorem checkSegOp_of_scalar {op : Opcode} (h : op.checkVectorOp = false) :
    op.checkSegOp = false := by
  have hall : ∀ op ∈ Opcode.segOps, op.checkVectorOp = true := by decide
  by_contra hseg
  rw [Bool.not_eq_false, Opcode.checkSegOp, List.contains_iff_mem] at hseg
  cases h.symm.trans (hall op hseg)

section Fits

variable [FloatOps] {fields : List (Option RegClass × Slot)}

theorem fits_executeScalar (inst : NdpInstruction)
    (hf : fields = inst.scalarSteps.filterMap RenameStep.target) :
    (executeScalar inst.opcode inst.operandType).wp (fits fields) fun _ => True := by
  obtain ⟨op, ot, src, dest, segDest, segCnt, doBranch⟩ := inst
  subst hf
  delta executeScalar NdpInstruction.scalarSteps
  cases op
  all_goals dsimp only
  case fmv =>
    cases ot
    case x_w | w_x => simp [fits, RenameStep.target]
    all_goals trivial
  case amoadd | famoadd =>
    -- the operand type decides the width only
    simp only [loadOrEmpty, famoaddHalf, Prog.wp_bind, Exec.wp_readX]
    refine ⟨?_, fun addr => ?_⟩
    · simp [fits, RenameStep.target]
    · split <;> simp [fits, RenameStep.target]
  all_goals
    simp [registerOp, immediateOp, floatOp, storeElement, effectiveAddr, loadOrEmpty,
      famoaddHalf, fits, RenameStep.target]

omit [FloatOps] in
theorem fits_executeBranch (inst : NdpInstruction) (hb : inst.opcode.checkBranchOp = true)
    (hf : fields = inst.branchSteps.filterMap RenameStep.target) :
    (executeBranch inst.opcode).wp (fits fields) fun _ => True := by
  obtain ⟨op, ot, src, dest, segDest, segCnt, doBranch⟩ := inst
  dsimp only at hb ⊢
  cases op <;> first
    | exact absurd hb (by decide)
    | simp [executeBranch, branchOp, fits, hf, NdpInstruction.branchSteps, RenameStep.target]

theorem fits_execute {inst : NdpInstruction} (hs : inst.opcode.checkScalarOp = true)
    (hc : inst.opcode.checkCsrOp = false) :
    (execute inst.opcode inst.operandType inst.segCnt).wp (fits inst.registerFields)
      fun _ => True := by
  have hv : inst.opcode.checkVectorOp = false := by
    simpa [Opcode.checkScalarOp, Opcode.checkVectorOp] using hs
  have hseg := checkSegOp_of_scalar hv
  unfold execute
  split
  · trivial
  split
  case isTrue hb =>
    refine fits_executeBranch inst hb ?_
    rw [NdpInstruction.registerFields, NdpInstruction.renameSteps, if_pos hb]
  case isFalse hb =>
    rw [hc, hv, hseg, if_neg (by simp), Prog.wp_bind]
    refine fits_executeScalar inst ?_
    rw [NdpInstruction.registerFields, NdpInstruction.renameSteps, if_neg hb, hseg, hv]
    rfl

end Fits

/-! ## One instruction -/

/-- `renamed` is `inst` under `map` as far as its x and f fields go: a name with an image is
replaced, any other is a special register and stays. -/
structure Translates (map : RegClass → Int → Option Int) (inst renamed : NdpInstruction) :
    Prop where
  opcode : renamed.opcode = inst.opcode
  operandType : renamed.operandType = inst.operandType
  segCnt : renamed.segCnt = inst.segCnt
  field : ∀ c s, c ≠ .v → (some c, s) ∈ inst.registerFields →
    map c (toInt (inst.operand s)) = some (renamed.operand s) ∨
      map c (toInt (inst.operand s)) = none ∧
        RegisterUnit.checkSpecialReg (toInt (inst.operand s)) = true ∧
        toInt (renamed.operand s) = toInt (inst.operand s)
  other : ∀ s, (∀ c, (c, s) ∉ inst.registerFields) → renamed.operand s = inst.operand s

/-- What a map from names to registers of `u` has to be like for runs to match. -/
structure MapsInto (map : RegClass → Int → Option Int) (names : Finset (RegClass × Int))
    (u : RegisterUnit) : Prop where
  layout : u.Layout
  injective : ∀ c n n' r, map c n = some r → map c n' = some r → n = n'
  physical : ∀ c n r, map c n = some r → r ∈ c.physical (u.numRegs c)
  names : ∀ c n, (map c n).isSome = true ↔ (c, n) ∈ names

namespace MapsInto

variable {map : RegClass → Int → Option Int} {names : Finset (RegClass × Int)}
  {u : RegisterUnit}

theorem mem (h : MapsInto map names u) {c : RegClass} {n r : Int} (hr : map c n = some r) :
    (c, n) ∈ names := by
  rw [← h.names, hr, Option.isSome_some]

theorem notMem (h : MapsInto map names u) {c : RegClass} {n : Int} (hn : map c n = none) :
    (c, n) ∉ names := by
  rw [← h.names, hn]
  simp

theorem bounds (h : MapsInto map names u) {c : RegClass} {n r : Int} (hr : map c n = some r) :
    c.base ≤ r ∧ r < c.base + u.numRegs c :=
  RegClass.mem_physical.mp (h.physical c n r hr)

/-- Physical numbers are small and none of them is special. -/
theorem isXreg (h : MapsInto map names u) {n r : Int} (hr : map .x n = some r) :
    u.isXreg (toInt r) = true ∧ toInt r = r ∧ r < spcialRegStart := by
  have hb := h.bounds hr
  have hx := h.layout.x
  simp only [RegClass.base, RegisterUnit.numRegs, regPXBase, regPFBase] at hb hx
  have ht : toInt r = r := toInt_of_range (by omega) (by omega)
  refine ⟨?_, ht, by simp only [spcialRegStart]; omega⟩
  simp only [ht, RegisterUnit.isXreg, regPXBase, Bool.and_eq_true, decide_eq_true_eq]
  exact hb

theorem isFreg (h : MapsInto map names u) {n r : Int} (hr : map .f n = some r) :
    u.isFreg (toInt r) = true ∧ toInt r = r := by
  have hb := h.bounds hr
  have hf := h.layout.f
  simp only [RegClass.base, RegisterUnit.numRegs, regPFBase, regPVBase] at hb hf
  have ht : toInt r = r := toInt_of_range (by omega) (by omega)
  refine ⟨?_, ht⟩
  simp only [ht, RegisterUnit.isFreg, regPFBase, Bool.and_eq_true, decide_eq_true_eq]
  exact hb

theorem special (h : MapsInto map names u) {r : Int}
    (hr : RegisterUnit.checkSpecialReg r = true) : u.isXreg r = false ∧ u.isFreg r = false := by
  have hlt : spcialRegStart < r := of_decide_eq_true hr
  have hx := h.layout.x
  have hf := h.layout.f
  simp only [spcialRegStart, regPXBase, regPFBase, regPVBase] at hlt hx hf
  constructor
  · refine Bool.and_eq_false_imp.mpr fun _ => decide_eq_false ?_
    simp only [regPXBase]
    omega
  · refine Bool.and_eq_false_imp.mpr fun _ => decide_eq_false ?_
    simp only [regPFBase]
    omega

end MapsInto

section Simulation

variable {map : RegClass → Int → Option Int} {names : Finset (RegClass × Int)}
  {u : RegisterUnit} {m : Machine RegisterUnit} {a : Machine ArchFile} {ndpId : Int}
  {req : RequestInfo}

namespace Matches

theorem isXreg (hm : Matches map u m a) (r : Int) : m.regs.isXreg r = u.isXreg r := by
  rw [hm.unit]
  rfl

theorem isFreg (hm : Matches map u m a) (r : Int) : m.regs.isFreg r = u.isFreg r := by
  rw [hm.unit]
  rfl

theorem readX (hm : Matches map u m a) (hmap : MapsInto map names u) {inst renamed : NdpInstruction}
    (ht : Translates map inst renamed) {s : Slot} (hs : (some .x, s) ∈ inst.registerFields) :
    (RegisterUnit.fileOps ndpId req).readX m.regs m.csr (renamed.operand s) =
      (ArchFile.ops names ndpId req).readX a.regs a.csr (inst.operand s) := by
  simp only [RegisterUnit.fileOps, ArchFile.ops, RegisterUnit.readXreg]
  obtain hr | ⟨hr, hspecial, he⟩ := ht.field .x s (by decide) hs
  · obtain ⟨hphys, hint, hlt⟩ := hmap.isXreg hr
    rw [if_pos (hmap.mem hr), hm.isXreg, hphys, hint, hm.x _ _ hr]
    simp only [regNdpId, regAddr, regRequestOffset, regX0, spcialRegStart] at hlt ⊢
    rw [if_neg (by omega), if_neg (by omega), if_neg (by omega), if_neg (by omega), if_pos trivial]
  · rw [if_neg (hmap.notMem hr), he, hm.isXreg, (hmap.special hspecial).1]
    simp only [ArchFile.readSpecial, Bool.false_eq_true, if_false]

theorem readF (hm : Matches map u m a) (hmap : MapsInto map names u) {inst renamed : NdpInstruction}
    (ht : Translates map inst renamed) {s : Slot} (hs : (some .f, s) ∈ inst.registerFields) :
    (RegisterUnit.fileOps ndpId req).readF m.regs (renamed.operand s) =
      (ArchFile.ops names ndpId req).readF a.regs (inst.operand s) := by
  simp only [RegisterUnit.fileOps, ArchFile.ops, RegisterUnit.readFreg]
  obtain hr | ⟨hr, hspecial, he⟩ := ht.field .f s (by decide) hs
  · obtain ⟨hphys, hint⟩ := hmap.isFreg hr
    rw [if_pos (hmap.mem hr), hm.isFreg, hphys, hint, hm.f _ _ hr, if_pos rfl]
  · rw [if_neg (hmap.notMem hr), he, hm.isFreg, (hmap.special hspecial).2]
    rfl

/-- A write through a renamed field keeps the files alike, or is rejected by both. -/
theorem writeX (hm : Matches map u m a) (hmap : MapsInto map names u)
    {inst renamed : NdpInstruction} (ht : Translates map inst renamed) {s : Slot}
    (hs : (some .x, s) ∈ inst.registerFields) (x : BitVec 64) :
    Prog.Related (Matches map u)
      (do return ((), { m with
        regs := ← (RegisterUnit.fileOps ndpId req).writeX m.regs (renamed.operand s) x }))
      (do return ((), { a with
        regs := ← (ArchFile.ops names ndpId req).writeX a.regs (inst.operand s) x })) := by
  simp only [RegisterUnit.fileOps, ArchFile.ops, RegisterUnit.writeXreg]
  obtain hr | ⟨hr, hspecial, he⟩ := ht.field .x s (by decide) hs
  · obtain ⟨hphys, hint, -⟩ := hmap.isXreg hr
    rw [if_pos (hmap.mem hr), hm.isXreg, hphys, hint, if_pos rfl]
    refine ⟨rfl, hm.memories, hm.csr, ?_, fun n p hp => ?_, hm.f, fun p hp => ?_, hm.othersF⟩
    · rw [hm.unit]
    · by_cases hn : n = toInt (inst.operand s)
      · obtain rfl : renamed.operand s = p := by
          rw [hn, hr] at hp
          exact Option.some_inj.mp hp
        simp [hn]
      · have hne : p ≠ renamed.operand s := by
          rintro rfl
          exact hn (hmap.injective .x _ _ _ hp hr)
        simp [hn, hne, hm.x n p hp]
    · have hne : p ≠ renamed.operand s := by
        rintro rfl
        exact hp _ hr
      simp [hne, hm.othersX p hp]
  · rw [if_neg (hmap.notMem hr), he, hm.isXreg, (hmap.special hspecial).1]
    rfl

theorem writeF (hm : Matches map u m a) (hmap : MapsInto map names u)
    {inst renamed : NdpInstruction} (ht : Translates map inst renamed) {s : Slot}
    (hs : (some .f, s) ∈ inst.registerFields) (x : F32) :
    Prog.Related (Matches map u)
      (do return ((), { m with
        regs := ← (RegisterUnit.fileOps ndpId req).writeF m.regs (renamed.operand s) x }))
      (do return ((), { a with
        regs := ← (ArchFile.ops names ndpId req).writeF a.regs (inst.operand s) x })) := by
  simp only [RegisterUnit.fileOps, ArchFile.ops, RegisterUnit.writeFreg]
  obtain hr | ⟨hr, hspecial, he⟩ := ht.field .f s (by decide) hs
  · obtain ⟨hphys, hint⟩ := hmap.isFreg hr
    rw [if_pos (hmap.mem hr), hm.isFreg, hphys, hint, if_pos rfl]
    refine ⟨rfl, hm.memories, hm.csr, ?_, hm.x, fun n p hp => ?_, hm.othersX, fun p hp => ?_⟩
    · rw [hm.unit]
    · by_cases hn : n = toInt (inst.operand s)
      · obtain rfl : renamed.operand s = p := by
          rw [hn, hr] at hp
          exact Option.some_inj.mp hp
        simp [hn]
      · have hne : p ≠ renamed.operand s := by
          rintro rfl
          exact hn (hmap.injective .f _ _ _ hp hr)
        simp [hn, hne, hm.f n p hp]
    · have hne : p ≠ renamed.operand s := by
        rintro rfl
        exact hp _ hr
      simp [hne, hm.othersF p hp]
  · rw [if_neg (hmap.notMem hr), he, hm.isFreg, (hmap.special hspecial).2]
    rfl

/-- A memory access sees the same memories. -/
theorem effect {α : Type} {x : Except Fault α} (hm : Matches map u m a) :
    Prog.Related (Matches map u) (do return (← x, m)) (do return (← x, a)) := by
  cases x with
  | error e => rfl
  | ok r => exact ⟨rfl, hm⟩

end Matches

variable [FloatOps]

theorem handle_matches (hmap : MapsInto map names u) {inst renamed : NdpInstruction}
    (ht : Translates map inst renamed) (o : Access) (m : Machine RegisterUnit)
    (a : Machine ArchFile) (ho : fits inst.registerFields o) (hm : Matches map u m a) :
    Prog.Related (Matches map u)
      (Machine.handle (RegisterUnit.fileOps ndpId req) renamed o m)
      (Machine.handle (ArchFile.ops names ndpId req) inst o a) := by
  have hother {s : Slot} (hs : s ∉ inst.registerFields.map Prod.snd) :
      renamed.operand s = inst.operand s :=
    ht.other s fun c hc => hs (List.mem_map_of_mem hc)
  cases o with
  | readX s =>
    simp only [Machine.handle, hm.readX hmap ht ho]
    exact hm.effect
  | readF s =>
    simp only [Machine.handle, hm.readF hmap ht ho]
    exact hm.effect
  | readV | writeV | checkExistRenameVreg => exact ho.elim
  | writeX s x => exact hm.writeX hmap ht ho x
  | writeF s x => exact hm.writeF hmap ht ho x
  | operand s | present s => exact ⟨by rw [hother ho], hm⟩
  | csr => exact ⟨hm.csr, hm⟩
  | setVstart | setVsew | setVlmul =>
    refine ⟨rfl, hm.memories, ?_, hm.unit, hm.x, hm.f, hm.othersX, hm.othersF⟩
    rw [hm.csr]
  | load addr =>
    simp only [Machine.handle, hm.memories]
    exact hm.effect
  | store addr v =>
    simp only [Machine.handle, hm.memories]
    cases a.memories.store addr v with
    | error e => rfl
    | ok memories => exact ⟨rfl, rfl, hm.csr, hm.unit, hm.x, hm.f, hm.othersX, hm.othersF⟩
  | checkAddr addr =>
    simp only [Machine.handle, hm.memories]
    exact ⟨rfl, hm⟩
  | tryLoad addr =>
    simp only [Machine.handle, hm.memories]
    exact hm.effect

theorem exec_matches (hmap : MapsInto map names u) {inst renamed : NdpInstruction}
    (ht : Translates map inst renamed) (hs : inst.opcode.checkScalarOp = true)
    (hc : inst.opcode.checkCsrOp = false) (hm : Matches map u m a) :
    Prog.Related (Matches map u) (Machine.exec (RegisterUnit.fileOps ndpId req) renamed m)
      (Machine.exec (ArchFile.ops names ndpId req) inst a) := by
  unfold Machine.exec
  rw [ht.opcode, ht.operandType, ht.segCnt]
  exact Prog.run_related (handle_matches hmap ht) (fits_execute hs hc).mem_trace hm

omit [FloatOps] in
/-- The label of a branch is not a register. -/
theorem isBranch_translates {inst renamed : NdpInstruction} (ht : Translates map inst renamed)
    (doBranch : Bool) : Machine.isBranch renamed doBranch = Machine.isBranch inst doBranch := by
  unfold Machine.isBranch
  rw [ht.opcode]
  by_cases hb : inst.opcode.checkBranchOp = true
  · have hlabel : renamed.operand (.src 2) = inst.operand (.src 2) := by
      refine ht.other _ fun c hc => ?_
      rw [NdpInstruction.registerFields, NdpInstruction.renameSteps, if_pos hb,
        NdpInstruction.branchSteps] at hc
      split at hc
      · cases hc
      · split at hc <;> simp [RenameStep.target] at hc
    rw [show renamed.src 2 = inst.src 2 from hlabel]
  · simp [hb]

theorem executeInstsArray_matches (hmap : MapsInto map names u)
    {insts out : List NdpInstruction} (ht : List.Forall₂ (Translates map) insts out)
    (hs : ScalarProgram insts) (loopMap : LoopMap) (n : Nat) :
    ∀ {i : Int} {m : Machine RegisterUnit} {a : Machine ArchFile}, Matches map u m a →
      Prog.Related (Matches map u)
        (Machine.executeInstsArray (RegisterUnit.fileOps ndpId req) out loopMap n i m)
        (Machine.executeInstsArray (ArchFile.ops names ndpId req) insts loopMap n i a) := by
  induction n with
  | zero => exact fun hm => ⟨rfl, hm⟩
  | succ n ih =>
    intro i m a hm
    unfold Machine.executeInstsArray
    split
    · exact ⟨rfl, hm⟩
    · by_cases hi : i.toNat < insts.length
      · have hi' : i.toNat < out.length := ht.length_eq ▸ hi
        have hinst : Translates map insts[i.toNat] out[i.toNat] := ht.get hi hi'
        obtain ⟨hscalar, hcsr, -⟩ := hs _ (List.get_mem insts ⟨i.toNat, hi⟩)
        rw [List.getElem?_eq_getElem hi, List.getElem?_eq_getElem hi']
        refine Prog.Related.bind (R := Matches map u) ?_ fun j m a hm => ih hm
        refine Prog.Related.bind (exec_matches hmap hinst hscalar hcsr hm) fun b m a hm => ?_
        simp only [isBranch_translates hinst]
        exact hm.effect
      · have hi' : ¬ i.toNat < out.length := ht.length_eq ▸ hi
        rw [List.getElem?_eq_none (by omega), List.getElem?_eq_none (by omega)]
        exact ⟨rfl, hm⟩

end Simulation

/-! ## The renaming `Convert` performs -/

namespace RegisterUnit

variable {u u' : RegisterUnit} {key : Int}

/-- Scalar instructions have no optional operands. -/
theorem optional_scalar {inst : NdpInstruction} (hs : inst.opcode.checkScalarOp = true)
    {st : RenameStep} (hst : st ∈ inst.renameSteps) : st.optional = false := by
  have hv : inst.opcode.checkVectorOp = false := by
    simpa [Opcode.checkScalarOp, Opcode.checkVectorOp] using hs
  have hseg := checkSegOp_of_scalar hv
  have hall : inst.renameSteps.all (fun st => !st.optional) = true := by
    unfold NdpInstruction.renameSteps
    rw [hseg, hv]
    split
    · unfold NdpInstruction.branchSteps
      split
      · rfl
      · split <;> rfl
    · rw [if_neg (by simp), if_neg (by simp)]
      unfold NdpInstruction.scalarSteps
      repeat' split
      all_goals rfl
  simpa using List.all_eq_true.mp hall st hst

/-- The names a packet has in the end, under the registers they are bound to. -/
def finalMap (u : RegisterUnit) (key : Int) (c : RegClass) (n : Int) : Option Int :=
  (u.pool c).find? key n

theorem convertInst_translates {inst renamed : NdpInstruction}
    {map : RegClass → Int → Option Int} {all : Finset (RegClass × Int)}
    (h : u.convertInst key inst = .ok (renamed, u')) (hren : Renames map inst renamed)
    (hfin : Final u' key map all) (hs : inst.opcode.checkScalarOp = true) :
    Translates map inst renamed := by
  refine ⟨hren.opcode, hren.operandType, hren.segCnt, fun c s _ hmem => ?_, hren.other⟩
  obtain ⟨st, hst, ht⟩ := mem_registerFields.mp hmem
  have hok := hren.field c s hmem (.inl fun st' hst' _ _ => optional_scalar hs hst')
  unfold FieldOk at hok
  split at hok
  case h_1 p hp => exact .inl (hok ▸ hp)
  case h_2 hnone =>
    refine .inr ⟨hnone, ?_, hok⟩
    refine (runSteps_found hst ht (optional_scalar hs hst) h).resolve_left fun hsome => ?_
    obtain ⟨p, hp⟩ := Option.isSome_iff_exists.mp hsome
    simp [hfin.includes _ _ _ hp] at hnone

theorem convertInsts_translates {insts out : List NdpInstruction}
    {map : RegClass → Int → Option Int} {all : Finset (RegClass × Int)}
    (h : u.convertInsts key insts = .ok (out, u'))
    (hren : List.Forall₂ (Renames map) insts out) (hfin : Final u' key map all)
    (hs : ScalarProgram insts) : List.Forall₂ (Translates map) insts out := by
  induction insts generalizing u out with
  | nil =>
    obtain ⟨rfl, -⟩ := Prod.mk.inj (Except.ok.inj h)
    exact .nil
  | cons inst insts ih =>
    obtain ⟨⟨renamed, u₁⟩, h₁, h⟩ := bind_eq_ok.mp h
    obtain ⟨⟨rest, u₂⟩, h₂, h⟩ := bind_eq_ok.mp h
    obtain ⟨rfl, rfl⟩ := Prod.mk.inj (Except.ok.inj h)
    obtain ⟨hren₁, hren₂⟩ := List.forall₂_cons.mp hren
    refine .cons (convertInst_translates h₁ hren₁ (hfin.of_mono (convertInsts_mono h₂))
      (hs inst List.mem_cons_self).1) (ih h₂ hren₂ fun i hi => ?_)
    exact hs i (List.mem_cons_of_mem _ hi)

variable {insts out : List NdpInstruction} {req : RequestInfo}

/-- A settled section is renamed soundly. -/
theorem sound_of_settled [FloatOps] (hu : u.Conserved) (hl : u.Layout) (hk : ¬ u.Live key)
    (h : u.convert insts key req = .ok (out, u')) (hset : Settled insts) :
    SoundRenaming u' key req insts out (u'.finalMap key) := by
  obtain ⟨w, hw, hknows, hstart⟩ := convert_start h hu hk
  have hu' := hu.convert hk h
  have hl' := hl.convert h
  have hall : u'.Knows key (sectionNames insts) := convertInsts_knows hw hknows
  have hfin : Final u' key (u'.finalMap key) (sectionNames insts) := by
    refine ⟨fun c n p hp => hp, fun c n hn => ?_⟩
    rw [← hall c n, Option.not_isSome_iff_eq_none] at hn
    exact hn
  have hren := convertInsts_renames hw hknows hset hfin
  have hmap : MapsInto (u'.finalMap key) (sectionNames insts) u' :=
    ⟨hl', fun c n n' r hr hr' => ((hu'.bound_once hr').2 _ _ hr).2,
      fun c n r hr => hu'.mem_physical_of_find? hr, hall⟩
  refine ⟨hmap.injective, hmap.physical, fun c n r hr key' n' hr' =>
    ((hu'.bound_once hr).2 _ _ hr').1, hren.imp fun inst renamed hr c s hmem ha =>
      hr.field c s hmem (.inr ha), fun hs ndpId loopMap k memories csr a ha => ?_⟩
  refine executeInstsArray_matches hmap (convertInsts_translates hw hren hfin hs) hs loopMap k ?_
  obtain ⟨⟨p₁, hp₁, hv₁⟩, ⟨p₂, hp₂, hv₂⟩⟩ := hstart.convertInsts hw
  refine ⟨rfl, rfl, rfl, fun n p hp => ?_, fun n p hp => (ha.f n p hp).symm, fun _ _ => rfl,
    fun _ _ => rfl⟩
  by_cases h₁ : n = regXBase + 1
  · subst h₁
    obtain rfl : p₁ = p := Option.some_inj.mp (hp₁.symm.trans hp)
    exact hv₁.trans ha.addr.symm
  by_cases h₂ : n = regXBase + 2
  · subst h₂
    obtain rfl : p₂ = p := Option.some_inj.mp (hp₂.symm.trans hp)
    exact hv₂.trans ha.offset.symm
  exact (ha.x n p h₁ h₂ hp).symm

/-- Only settled sections have a substitution. -/
theorem settled_of_renames {map : RegClass → Int → Option Int} (hu : u.Conserved)
    (hl : u.Layout) (hk : ¬ u.Live key) (h : u.convert insts key req = .ok (out, u'))
    (hren : List.Forall₂ (RenamesArchitectural map) insts out) : Settled insts := by
  obtain ⟨w, hw, hknows, -⟩ := convert_start h hu hk
  have hphys : u'.BindsPhysical key := (hu.convert hk h).bindsPhysical (hl.convert h)
  refine settledIn_of_section hw hknows hren fun c n hmem ha hnot => ?_
  exact image_of_section hw hphys hren ((Finset.mem_union.mp hmem).resolve_left hnot) ha

/-- The renaming of a section is a sound substitution exactly if no register name is used before
the first instruction that assigns it. -/
theorem renaming_sound_iff [FloatOps] {nx nf nv : Nat} (hu : Reachable nx nf nv u) (hl : u.Layout)
    (hk : ¬ u.Live key) (h : u.convert insts key req = .ok (out, u')) :
    (∃ map, SoundRenaming u' key req insts out map) ↔ Settled insts := by
  constructor
  · rintro ⟨map, hsound⟩
    exact settled_of_renames hu.conserved hl hk h hsound.renames
  · intro hset
    exact ⟨_, sound_of_settled hu.conserved hl hk h hset⟩

/-- `op dest, src0, src1` on x registers -/
def sampleScalar (op : Opcode) (dest src0 src1 : Int) : NdpInstruction :=
  { opcode := op, operandType := .none, src := ![src0, src1, 0, 0, 0], dest := dest,
    segDest := 0, segCnt := 0, doBranch := false }

/-- `add x3, x1, x0` -/
theorem renaming_sound_iff_add : letI := FloatOps.zero
    ∃ out u', (create 3 0 0).convert [sampleScalar .add (regXBase + 3) (regXBase + 1) regX0] 7
        sampleRequest = .ok (out, u') ∧
      ∃ map, SoundRenaming u' 7 sampleRequest
        [sampleScalar .add (regXBase + 3) (regXBase + 1) regX0] out map := by
  have hl : ¬ (create 3 0 0).Live 7 := by
    rintro ⟨c, hc⟩
    cases c <;> exact AList.notMem_empty _ hc
  let _ := FloatOps.zero
  have hr : Reachable 3 0 0 (create 3 0 0) := .refl
  obtain ⟨out, u', h⟩ : ∃ out u', (create 3 0 0).convert
      [sampleScalar .add (regXBase + 3) (regXBase + 1) regX0] 7 sampleRequest = .ok (out, u') :=
    ⟨_, _, rfl⟩
  refine ⟨out, u', h, ?_⟩
  exact (renaming_sound_iff hr ⟨by decide, by decide, by decide⟩ hl h).mpr (by decide)

/-- `add x3, x0, x0; li x0, 5; add x4, x0, x0`: the first `x0` stays the special register, the
last one is a physical register. -/
def sampleEarly : List NdpInstruction :=
  [sampleScalar .add (regXBase + 3) regX0 regX0, sampleScalar .li regX0 5 0,
    sampleScalar .add (regXBase + 4) regX0 regX0]

theorem renaming_unsound_early : letI := FloatOps.zero
    ∃ out u', (create 5 0 0).convert sampleEarly 7 sampleRequest = .ok (out, u') ∧
      ¬ ∃ map, SoundRenaming u' 7 sampleRequest sampleEarly out map := by
  have hl : ¬ (create 5 0 0).Live 7 := by
    rintro ⟨c, hc⟩
    cases c <;> exact AList.notMem_empty _ hc
  let _ := FloatOps.zero
  obtain ⟨out, u', h⟩ : ∃ out u', (create 5 0 0).convert sampleEarly 7 sampleRequest =
      .ok (out, u') := ⟨_, _, rfl⟩
  refine ⟨out, u', h, ?_⟩
  rintro ⟨map, hsound⟩
  have hset := settled_of_renames (Conserved.create 5 0 0) ⟨by decide, by decide, by decide⟩ hl h
    hsound.renames
  exact absurd hset (by decide)

end RegisterUnit

end NdpSim
