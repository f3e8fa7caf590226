import NdpSim.Functional.Packets
import NdpSim.Isa.LaneBits
import NdpSim.Register.Substitution

/-!
# Running a masked instruction

The instructions with a mask, from the operands as they are written to the vector that reaches the
destination register: `Convert` decides whether the mask operand is renamed, `Execute` whether the
mask and the old destination are looked at.
-/
namespace NdpSim

open Library Exec Slot VectorData

/-! ## Renaming bound names -/

/-- The field the step assigns. -/
def RenameStep.field? (st : RenameStep) : Option Slot := st.target.map Prod.snd

namespace RegisterUnit

variable {u : RegisterUnit} {key : Int}

/-- The step finds the register `image s` for its field `s`. -/
def Finds (u : RegisterUnit) (key : Int) (inst : NdpInstruction) (image : Slot → Int)
    (st : RenameStep) : Prop :=
  ∃ c s, st.target = some (some c, s) ∧ u.lookUp c key (inst.operand s) = .ok (image s) ∧
    ((st.defines || st.optional) = true →
      (u.pool c).find? key (toInt (inst.operand s)) = some (image s))

theorem lookUp_of_find? {c : RegClass} {reg p : Int}
    (h : (u.pool c).find? key (toInt reg) = some p) : u.lookUp c key reg = .ok p := by
  rw [lookUp, h]

theorem destRename_of_find? {c : RegClass} {name p : Int} (double : Bool)
    (h : (u.pool c).find? key (toInt name) = some p) :
    u.destRename c key name double = .ok (p, u) := by
  rw [destRename, h]

theorem runStep_of_finds {inst : NdpInstruction} {image : Slot → Int} {st : RenameStep}
    (renamed : NdpInstruction) (h : u.Finds key inst image st) : ∃ c s, st.target = some (c, s) ∧
      u.runStep key inst renamed st = .ok (renamed.setOperand s (image s), u) := by
  obtain ⟨c, s, ht, hlook, hfind⟩ := h
  refine ⟨some c, s, ht, ?_⟩
  cases st with
  | lookUp c' i =>
    obtain ⟨rfl, rfl⟩ : c' = c ∧ src i = s := by simpa [RenameStep.target] using ht
    exact bind_eq_ok.mpr ⟨_, hlook, rfl⟩
  | lookUpIfExist i =>
    obtain ⟨rfl, rfl⟩ : RegClass.v = c ∧ src i = s := by simpa [RenameStep.target] using ht
    have hexist : u.checkExistVreg key (inst.src i) = true :=
      congrArg Option.isSome (hfind rfl)
    rw [runStep, if_pos hexist]
    exact bind_eq_ok.mpr ⟨_, hlook, rfl⟩
  | lookUpDest c' =>
    obtain ⟨rfl, rfl⟩ : c' = c ∧ dest = s := by simpa [RenameStep.target] using ht
    exact bind_eq_ok.mpr ⟨_, hlook, rfl⟩
  | noDest => simp [RenameStep.target] at ht
  | destRenameX =>
    obtain ⟨rfl, rfl⟩ : RegClass.x = c ∧ dest = s := by simpa [RenameStep.target] using ht
    exact bind_eq_ok.mpr ⟨_, destRename_of_find? _ (hfind rfl), rfl⟩
  | destRenameF =>
    obtain ⟨rfl, rfl⟩ : RegClass.f = c ∧ dest = s := by simpa [RenameStep.target] using ht
    exact bind_eq_ok.mpr ⟨_, destRename_of_find? _ (hfind rfl), rfl⟩
  | destRenameV fromRenamed =>
    obtain ⟨rfl, rfl⟩ : RegClass.v = c ∧ dest = s := by simpa [RenameStep.target] using ht
    cases fromRenamed <;> exact bind_eq_ok.mpr ⟨_, destRename_of_find? _ (hfind rfl), rfl⟩
  | destRenameSegV index =>
    by_cases hindex : index < 8
    · obtain ⟨rfl, rfl⟩ : RegClass.v = c ∧ segDest ⟨index, hindex⟩ = s := by
        simpa [RenameStep.target, hindex] using ht
      rw [runStep, dif_pos hindex]
      exact bind_eq_ok.mpr ⟨_, destRename_of_find? _ (hfind rfl), rfl⟩
    · simp [RenameStep.target, hindex] at ht

/-- Where every name is bound the unit stays as it is, and each field that is renamed gets its
register. -/
theorem runSteps_of_finds {inst : NdpInstruction} {image : Slot → Int} {ss : List RenameStep}
    (renamed : NdpInstruction) (h : ∀ st ∈ ss, u.Finds key inst image st) :
    ∃ renamed', u.runSteps key inst renamed ss = .ok (renamed', u) ∧ ∀ s, renamed'.operand s =
      if s ∈ ss.filterMap RenameStep.field? then image s else renamed.operand s := by
  induction ss generalizing renamed with
  | nil => exact ⟨renamed, rfl, fun s => by simp⟩
  | cons st ss ih =>
    obtain ⟨c, t, ht, hstep⟩ := runStep_of_finds renamed (h st List.mem_cons_self)
    obtain ⟨renamed', hrest, hfields⟩ := ih (renamed.setOperand t (image t))
      fun st hst => h st (List.mem_cons_of_mem _ hst)
    refine ⟨renamed', bind_eq_ok.mpr ⟨_, hstep, hrest⟩, fun s => ?_⟩
    have htarget : st.field? = some t := congrArg (Option.map Prod.snd) ht
    rw [hfields, NdpInstruction.operand_setOperand, List.filterMap_cons_some htarget]
    by_cases hs : s = t
    · subst hs
      simp
    · by_cases hmem : s ∈ ss.filterMap RenameStep.field?
      · rw [if_pos hmem, if_pos (List.mem_cons_of_mem _ hmem)]
      · rw [if_neg hmem, if_neg hs, if_neg (List.not_mem_cons_of_ne_of_not_mem hs hmem)]

end RegisterUnit

/-! ## The instructions -/

/-- The masked forms. -/
inductive MaskedForm
  | moveV | moveI | moveX | or | load32 | load64
  deriving DecidableEq

namespace MaskedForm

def opcode : MaskedForm → Opcode
  | moveV | moveI | moveX => .vmv
  | or => .vor
  | load32 => .vluxei32
  | load64 => .vluxei64

def operandType : MaskedForm → OperandType
  | moveV => .v_v
  | moveI => .v_i
  | moveX => .v_x
  | or => .vv
  | load32 | load64 => .v

/-- The field of the mask. -/
def mask : MaskedForm → Slot
  | moveV | moveI | moveX => src 1
  | or => src 2
  | load32 | load64 => src 3

/-- The vectors an instruction reads besides its mask and its destination. -/
def vectors : MaskedForm → List Slot
  | moveV => [src 0]
  | moveI | moveX => []
  | or => [src 0, src 1]
  | load32 | load64 => [src 2]

def scalars : MaskedForm → List Slot
  | moveV | moveI | or => []
  | moveX | load32 | load64 => [src 0]

def steps : MaskedForm → List RenameStep
  | moveV => [.lookUp .v 0, .destRenameV true]
  | moveI => [.lookUp .v 1, .destRenameV true]
  | moveX => [.lookUp .x 0, .lookUp .v 1, .destRenameV true]
  | or => [.lookUp .v 0, .lookUp .v 1, .lookUpIfExist 2, .destRenameV false]
  | load32 | load64 => [.lookUp .x 0, .destRenameV false, .lookUp .v 2, .lookUp .v 3]

/-- The fields that `Convert` renames. -/
def renamed (form : MaskedForm) : List Slot :=
  form.steps.filterMap RenameStep.field?

/-- An indexed load moves elements of one width. -/
def fits (sew : Vsew) : MaskedForm → Prop
  | load32 => sew = .e32
  | load64 => sew = .e64
  | _ => True

theorem step_target (form : MaskedForm) : ∀ st ∈ form.steps,
    (∃ s ∈ dest :: form.mask :: form.vectors, st.target = some (some .v, s)) ∨
      ∃ s ∈ form.scalars, st.target = some (some .x, s) ∧ (st.defines || st.optional) = false := by
  cases form <;> decide

theorem scalars_subset (form : MaskedForm) : ∀ s ∈ form.scalars, s ∈ form.renamed := by
  cases form <;> decide

end MaskedForm

/-- The instruction is of the form, it has a mask, and the registers of packet `key` hold the values
`o`: the destination a vector of the settings, the mask field a mask. -/
structure Sees (form : MaskedForm) (inst : NdpInstruction) (u : RegisterUnit) (key : Int)
    (context : Context) (o : Operands) : Prop where
  opcode : inst.opcode = form.opcode
  operandType : inst.operandType = form.operandType
  masked : regVBase ≤ toInt (inst.operand form.mask) ∧ toInt (inst.operand form.mask) < regPXBase
  csr : o.csr = context.csr
  field : o.field = inst.operand
  vectors : ∀ s ∈ dest :: form.mask :: form.vectors, BuiltFor o.csr (o.v s) ∧
    ∃ p, u.vregs.find? key (toInt (inst.operand s)) = some p ∧ u.readVreg p context = .ok (o.v s)
  scalars : ∀ s ∈ form.scalars,
    ∃ p, u.lookUpX key (inst.operand s) = .ok p ∧ u.readXreg p context = .ok (o.x s)
  destType : (o.v dest).type ∈ elementTypes o.csr.vtypeVsew
  maskType : (o.v form.mask).type = .vmask

/-- The renamed instruction, and what `Execute` reads through its fields. -/
structure Seen (form : MaskedForm) (renamed : NdpInstruction) (u : RegisterUnit)
    (context : Context) (o : Operands) : Prop where
  opcode : renamed.opcode = form.opcode
  operandType : renamed.operandType = form.operandType
  masked : renamed.operand form.mask ≠ -1
  inUse : u.checkExistRenameVreg (renamed.operand dest) = true
  vectors : ∀ s ∈ dest :: form.mask :: form.vectors, s ∈ form.renamed →
    u.readVreg (renamed.operand s) context = .ok (o.v s)
  scalars : ∀ s ∈ form.scalars, u.readXreg (renamed.operand s) context = .ok (o.x s)
  others : ∀ s, s ∉ form.renamed → renamed.operand s = o.field s
  /-- A field that is not renamed reads as an empty register. -/
  unrenamed : form.mask ∉ form.renamed →
    u.readVreg (renamed.operand form.mask) context = .ok .default

theorem MaskedForm.renameSteps_eq {form : MaskedForm} {inst : NdpInstruction}
    (hop : inst.opcode = form.opcode) (ht : inst.operandType = form.operandType)
    (hm : inst.operand form.mask ≠ -1) :
    inst.renameSteps = form.steps := by
  unfold NdpInstruction.renameSteps NdpInstruction.vectorSteps NdpInstruction.vectorVSteps
  cases form with
  | moveV | or =>
    rw [hop, ht]
    rfl
  | moveI | moveX =>
    have hm' : inst.src 1 ≠ -1 := hm
    rw [hop, ht]
    simp only [hm', ne_eq, not_false_eq_true, if_true]
    rfl
  | load32 | load64 =>
    have hm' : inst.src 3 ≠ -1 := hm
    rw [hop, ht]
    simp only [hm', ne_eq, not_false_eq_true, if_true]
    rfl

theorem convertInst_sees {form : MaskedForm} {inst : NdpInstruction} {u : RegisterUnit} {key : Int}
    {context : Context} {o : Operands} (hu : u.Conserved) (hl : u.Layout)
    (h : Sees form inst u key context o) :
    ∃ renamed, u.convertInst key inst = .ok (renamed, u) ∧ Seen form renamed u context o := by
  have hmasked : inst.operand form.mask ≠ -1 := by
    intro hm
    have hname := h.masked.1
    rw [hm] at hname
    exact absurd hname (by decide)
  have hexists : ∀ s : Slot, ∃ p, (s ∈ dest :: form.mask :: form.vectors →
      u.vregs.find? key (toInt (inst.operand s)) = some p ∧ u.readVreg p context = .ok (o.v s)) ∧
      (s ∈ form.scalars → u.lookUpX key (inst.operand s) = .ok p ∧
        u.readXreg p context = .ok (o.x s)) := by
    intro s
    by_cases hv : s ∈ dest :: form.mask :: form.vectors
    · obtain ⟨-, p, hp⟩ := h.vectors s hv
      refine ⟨p, fun _ => hp, fun hx => ?_⟩
      revert hv hx
      cases form <;> cases s <;> simp [MaskedForm.mask, MaskedForm.vectors, MaskedForm.scalars] <;>
        omega
    · by_cases hx : s ∈ form.scalars
      · obtain ⟨p, hp⟩ := h.scalars s hx
        exact ⟨p, fun hv' => absurd hv' hv, fun _ => hp⟩
      · exact ⟨0, fun hv' => absurd hv' hv, fun hx' => absurd hx' hx⟩
  choose image hvector hscalar using hexists
  have hfinds : ∀ st ∈ form.steps, u.Finds key inst image st := by
    have hv (s : Slot) (hs : s ∈ dest :: form.mask :: form.vectors) :
        u.lookUp .v key (inst.operand s) = .ok (image s) ∧
          u.vregs.find? key (toInt (inst.operand s)) = some (image s) :=
      ⟨RegisterUnit.lookUp_of_find? (hvector s hs).1, (hvector s hs).1⟩
    have hx (s : Slot) (hs : s ∈ form.scalars) : u.lookUp .x key (inst.operand s) = .ok (image s) :=
      (hscalar s hs).1
    intro st hst
    obtain ⟨s, hs, ht⟩ | ⟨s, hs, ht, hused⟩ := form.step_target st hst
    · exact ⟨.v, s, ht, (hv s hs).1, fun _ => (hv s hs).2⟩
    · exact ⟨.x, s, ht, hx s hs, fun h => by rw [hused] at h; cases h⟩
  obtain ⟨renamed, hrun, hfields⟩ := RegisterUnit.runSteps_of_finds inst hfinds
  have hnote : u.noteVlmul inst = u := by
    rw [RegisterUnit.noteVlmul, h.opcode, if_neg (by cases form <;> decide)]
  have hshape := RegisterUnit.shape_runSteps hrun
  have hfield {s : Slot} (hs : s ∈ form.renamed) : renamed.operand s = image s := by
    rw [hfields]
    exact if_pos hs
  have hother {s : Slot} (hs : s ∉ form.renamed) : renamed.operand s = inst.operand s := by
    rw [hfields]
    exact if_neg hs
  have hphysical {s : Slot} (hs : s ∈ dest :: form.mask :: form.vectors) :
      regPVBase ≤ image s ∧ image s < regPVBase + u.numVregs :=
    RegClass.mem_physical.mp (hu.mem_physical_of_find? (c := .v) (hvector s hs).1)
  have hdest : dest ∈ form.renamed := by cases form <;> decide
  refine ⟨renamed, ?_, hshape.1.trans h.opcode, hshape.2.1.trans h.operandType, ?_, ?_,
    fun s hs hr => ?_, fun s hs => ?_, fun s hs => ?_, fun hs => ?_⟩
  · rw [RegisterUnit.convertInst, hnote, MaskedForm.renameSteps_eq h.opcode h.operandType hmasked]
    exact hrun
  · by_cases hs : form.mask ∈ form.renamed
    · have hle := (hphysical (List.mem_cons_of_mem _ List.mem_cons_self)).1
      rw [hfield hs]
      simp only [regPVBase] at hle
      omega
    · rwa [hother hs]
  · have hphys := hphysical List.mem_cons_self
    have hbound : image dest ∈ u.vregs.bound :=
      Pool.mem_bound.mpr ⟨key, _, (hvector dest List.mem_cons_self).1⟩
    have hdisjoint := List.disjoint_of_nodup_append (hu.nodup_held .v).of_append_left
    have hv := hl.v
    simp only [regPVBase, spcialRegStart] at hphys hv
    rw [hfield hdest, RegisterUnit.checkExistRenameVreg, toInt_of_range (by omega) (by omega)]
    exact decide_eq_true fun hfree => hdisjoint hfree hbound
  · rw [hfield hr]
    exact (hvector s hs).2
  · rw [hfield (form.scalars_subset s hs)]
    exact (hscalar s hs).2
  · rw [hother hs, h.field]
  · have hname := h.masked.2
    simp only [regPXBase] at hname
    have hnot : u.isVreg (toInt (inst.operand form.mask)) = false :=
      Bool.and_eq_false_imp.mpr fun hle => absurd (of_decide_eq_true hle) (by
        simp only [regPVBase]
        omega)
    rw [hother hs]
    simp only [RegisterUnit.readVreg, hnot, Bool.false_eq_true, if_false]
    rfl

/-! ## What reaches the destination -/

/-- The register file that keeps the first vector that is written. -/
def FileOps.recording {ρ : Type} (ops : FileOps ρ) : FileOps (ρ × Option VectorData) where
  readX r c reg := ops.readX r.1 c reg
  readF r reg := ops.readF r.1 reg
  readV r c reg := ops.readV r.1 c reg
  writeX r reg x := (·, r.2) <$> ops.writeX r.1 reg x
  writeF r reg x := (·, r.2) <$> ops.writeF r.1 reg x
  writeV r _ _ v := .ok (r.1, r.2.or (some v))
  exist r reg := ops.exist r.1 reg

namespace Machine

variable [FloatOps] {ρ : Type} {ops : FileOps ρ} {inst : NdpInstruction} {m : Machine ρ}

/-- The machine at the start of a recording. -/
def record (m : Machine ρ) : Machine (ρ × Option VectorData) := ⟨(m.regs, none), m.memories, m.csr⟩

/-- The vector the instruction hands to its destination. -/
def written (ops : FileOps ρ) (inst : NdpInstruction) (m : Machine ρ) :
    Except Fault (Option VectorData) := do
  let (_, m) ← exec ops.recording inst m.record
  return m.regs.2

theorem written_of_run {x : Except Fault VectorData} (hop : inst.opcode.checkVectorOp = true)
    (hbranch : inst.opcode.checkBranchOp = false) (hexit : inst.opcode ≠ .exit)
    (hrun : (executeVectorOp inst.opcode inst.operandType inst.segCnt).run
      (handle ops.recording inst) m.record =
        x >>= fun v => .ok ((), { m.record with regs := (m.regs, some v) })) :
    m.written ops inst = some <$> x := by
  rw [written, exec, execute, if_neg hexit, hbranch, hop, executeVector]
  simp only [Bool.or_true, Bool.true_or, if_true, Bool.false_eq_true, if_false, Prog.run_bind, hrun]
  cases x <;> rfl

/-- A write of a vector is recorded. -/
theorem run_writeV_record (s : Slot) (v : VectorData) :
    (writeV s v).run (handle ops.recording inst) m.record =
      .ok ((), { m.record with regs := (m.regs, some v) }) := rfl

theorem run_liftM_writeV (s : Slot) (x : Except Fault VectorData) :
    ((liftM x : Exec VectorData) >>= writeV s).run (handle ops.recording inst) m.record =
      x >>= fun v => .ok ((), { m.record with regs := (m.regs, some v) }) := by
  cases x <;> rfl

theorem run_maskOperand_bind {α : Type} {s : Slot} {v : VectorData} (hs : inst.operand s ≠ -1)
    (h : ops.readV m.regs m.csr (inst.operand s) = .ok v) (k : Bool × VectorData → Exec α) :
    (maskOperand s >>= k).run (handle ops inst) m = (k (true, v)).run (handle ops inst) m := by
  have hpresent : (inst.operand s != -1) = true := bne_iff_ne.mpr hs
  rw [maskOperand, Prog.run_bind]
  change (if (inst.operand s != -1) = true then _ else _ : Exec _).run _ _ >>= _ = _
  rw [if_pos hpresent, run_readV_bind s h]
  rfl

theorem run_oldDest_bind {α : Type} {v : VectorData}
    (hexist : ops.exist m.regs (inst.operand dest) = true)
    (h : ops.readV m.regs m.csr (inst.operand dest) = .ok v) (c : CSR) (k : VectorData → Exec α) :
    (oldDest c >>= k).run (handle ops inst) m = (k v).run (handle ops inst) m := by
  rw [oldDest, Prog.run_bind]
  change (if ops.exist m.regs (inst.operand dest) = true then _ else _ : Exec _).run _ _ >>= _ = _
  have hread : (readV dest).run (handle ops inst) m = .ok (v, m) := run_readV_bind dest h pure
  rw [if_pos hexist, hread]
  rfl

section Moves

variable {old mask vs : VectorData}

theorem run_moveV (hmask : inst.operand (src 1) ≠ -1)
    (hvm : ops.recording.readV m.record.regs m.record.csr (inst.operand (src 1)) = .ok mask)
    (hexist : ops.recording.exist m.record.regs (inst.operand dest) = true)
    (hold : ops.recording.readV m.record.regs m.record.csr (inst.operand dest) = .ok old)
    (hvs : ops.recording.readV m.record.regs m.record.csr (inst.operand (src 0)) = .ok vs) :
    (executeVmv .v_v).run (handle ops.recording inst) m.record =
      .ok ((), { m.record with regs := (m.regs, some vs) }) := by
  rw [executeVmv, run_csr_bind, run_maskOperand_bind hmask hvm]
  dsimp only
  rw [run_oldDest_bind hexist hold,
    run_readV_bind (src 0) hvs]
  rfl

theorem run_moveI (hmask : inst.operand (src 1) ≠ -1)
    (hvm : ops.recording.readV m.record.regs m.record.csr (inst.operand (src 1)) = .ok mask)
    (hexist : ops.recording.exist m.record.regs (inst.operand dest) = true)
    (hold : ops.recording.readV m.record.regs m.record.csr (inst.operand dest) = .ok old) :
    (executeVmv .v_i).run (handle ops.recording inst) m.record =
      setUnmasked old m.csr (true, mask)
        (setImmediate m.csr.vtypeVsew (BitVec.ofInt 64 (inst.operand (src 0)))) >>= fun v =>
          .ok ((), { m.record with regs := (m.regs, some v) }) := by
  rw [executeVmv, run_csr_bind, run_maskOperand_bind hmask hvm]
  change ((if (ops.recording.exist m.record.regs (inst.operand dest) && true) = true then readV dest
    else _ : Exec VectorData) >>= fun vd => _).run _ _ = _
  rw [hexist, if_pos (Bool.and_true true),
    run_readV_bind dest hold]
  exact run_liftM_writeV dest _

theorem run_moveX {x : BitVec 64} (hmask : inst.operand (src 1) ≠ -1)
    (hvm : ops.recording.readV m.record.regs m.record.csr (inst.operand (src 1)) = .ok mask)
    (hexist : ops.recording.exist m.record.regs (inst.operand dest) = true)
    (hold : ops.recording.readV m.record.regs m.record.csr (inst.operand dest) = .ok old)
    (hx : ops.recording.readX m.record.regs m.record.csr (inst.operand (src 0)) = .ok x) :
    (executeVmv .v_x).run (handle ops.recording inst) m.record =
      setUnmasked old m.csr (true, mask) (fun vd i => do
        vd.setData (← Elem.cast (integerType m.csr.vtypeVsew) (.long x)) i) >>= fun v =>
          .ok ((), { m.record with regs := (m.regs, some v) }) := by
  rw [executeVmv, run_csr_bind, run_maskOperand_bind hmask hvm]
  dsimp only
  rw [run_oldDest_bind hexist hold,
    run_readX_bind (src 0) hx]
  exact run_liftM_writeV dest _

end Moves

/-- What `VOR` computes in a lane that is active. -/
def orElement (vs1 vs2 : VectorData) (i : Nat) : Except Fault (Option Elem) :=
  match vs1.type with
  | .int32 => do
    let r := (← vs1.getIntData i) == 1 || (← vs2.getIntData i) == 1
    return some (.int (BitVec.ofBool r |>.setWidth 32))
  | .float32 => do
    let one : F32 := FloatOps.ofInt 1
    let r := FloatOps.eq (← vs1.getFloatData i) one || FloatOps.eq (← vs2.getFloatData i) one
    return some (.int (BitVec.ofBool r |>.setWidth 32))
  | .bool => do return some (.bool ((← vs1.getBoolData i) || (← vs2.getBoolData i)))
  | _ => return none

theorem run_or {old mask vs1 vs2 : VectorData}
    (hvs1 : ops.recording.readV m.record.regs m.record.csr (inst.operand (src 0)) = .ok vs1)
    (hold : ops.recording.readV m.record.regs m.record.csr (inst.operand dest) = .ok old)
    (hvs2 : ops.recording.readV m.record.regs m.record.csr (inst.operand (src 1)) = .ok vs2)
    (hvm : ops.recording.readV m.record.regs m.record.csr (inst.operand (src 2)) = .ok mask) :
    (executeVor .vv).run (handle ops.recording inst) m.record =
      old.setLanes (lanes m.csr.vstart old.vlen) (fun i => do
        if ← mask.getVmaskData i then orElement vs1 vs2 i else return none) >>= fun v =>
          .ok ((), { m.record with regs := (m.regs, some v) }) := by
  rw [executeVor, run_csr_bind, run_readV_bind (src 0) hvs1,
    run_readV_bind dest hold]
  dsimp only
  rw [Prog.run_bind, run_readV_bind (src 1) hvs2,
    run_readV_bind (src 2) hvm, ← Prog.run_bind]
  refine (run_liftM_writeV dest _).trans (congrArg (fun f => old.setLanes _ f >>= _) ?_)
  funext i
  cases mask.getVmaskData i with
  | error e => rfl
  | ok b =>
    cases b with
    | false => rfl
    | true =>
      simp only [ok_bind, orElement]
      cases vs1.type <;> rfl

/-! ## Indexed loads -/

/-- The word `VLUXEI32` loads for a lane; a packet of other elements gives none. -/
def loadedWord (memories : Memories) (base : BitVec 64) (vs2 : VectorData) (i : Nat) :
    Except Fault (Option Elem) := do
  let addr := base + (← vs2.getIntData i).signExtend 64
  let vs ← memories.load addr
  if [DataType.float32, .int32].contains vs.type then
    return some (← vs.get vs.type (addr.toNat % packetSize / 4))
  else return none

/-- The double word `VLUXEI64` loads for a lane. -/
def loadedLong (memories : Memories) (base : BitVec 64) (vs2 : VectorData) (i : Nat) :
    Except Fault (Option Elem) := do
  let addr := base + (← vs2.getLongData i)
  let vs ← memories.load addr
  if vs.type ≠ .int64 then throw .assertion
  return some (.long (← vs.getLongData (addr.toNat % packetSize / 8)))

/-- A loop that computes the lanes of a vector and leaves the machine alone. -/
theorem run_foldlM_lanes {is : List Nat} {body : VectorData → Nat → Exec VectorData}
    {f : Nat → Except Fault (Option Elem)}
    (h : ∀ vd i, (body vd i).run (handle ops inst) m = f i >>= fun o =>
      (match o with
        | some e => vd.setData e i
        | none => .ok vd) >>= fun v => .ok (v, m)) (vd : VectorData) :
    (is.foldlM body vd).run (handle ops inst) m =
      vd.setLanes is f >>= fun v => .ok (v, m) := by
  induction is generalizing vd with
  | nil => rfl
  | cons i is ih =>
    rw [List.foldlM_cons, Prog.run_bind, h, setLanes, List.foldlM_cons]
    cases f i with
    | error e => rfl
    | ok o =>
      cases o with
      | none => exact ih vd
      | some e =>
        change (vd.setData e i >>= fun v => .ok (v, m)) >>= _ = (vd.setData e i >>= _) >>= _
        cases vd.setData e i with
        | error e => rfl
        | ok v => exact ih v

theorem run_load32 {base : BitVec 64} {mask vs2 : VectorData}
    (hx : ops.recording.readX m.record.regs m.record.csr (inst.operand (src 0)) = .ok base)
    (hvs2 : ops.recording.readV m.record.regs m.record.csr (inst.operand (src 2)) = .ok vs2)
    (hvm : ops.recording.readV m.record.regs m.record.csr (inst.operand (src 3)) = .ok mask)
    (hmask : mask.type = .vmask) :
    executeVluxei32.run (handle ops.recording inst) m.record =
      ((ofContext m.csr).setLanes (List.range 8) (fun i => do
        let _ ← vs2.getIntData i
        if ← mask.getVmaskData i then
          loadedWord m.memories (base + BitVec.ofInt 64 (inst.src 1)) vs2 i
        else return none) >>= fun vd =>
          if [DataType.int32, .float32].contains vd.type then .ok vd else .error .assertion) >>=
        fun v => .ok ((), { m.record with regs := (m.regs, some v) }) := by
  rw [executeVluxei32, run_effectiveAddr_bind hx,
    run_readV_bind (src 2) hvs2,
    run_readV_bind (src 3) hvm, run_csr_bind,
    Prog.run_bind]
  rw [run_foldlM_lanes (f := fun i => do
        let _ ← vs2.getIntData i
        if ← mask.getVmaskData i then
          loadedWord m.memories (base + BitVec.ofInt 64 (inst.src 1)) vs2 i
        else return none)]
  · have hcsr : m.record.csr = m.csr := rfl
    rw [hcsr]
    generalize (ofContext m.csr).setLanes (List.range 8) _ = x
    cases x with
    | error e => rfl
    | ok vd =>
      rw [ok_bind, ok_bind, ok_bind]
      dsimp only
      rw [Prog.run_bind, run_writeV_record, ok_bind]
      by_cases htype : [DataType.int32, .float32].contains vd.type = true
      · rw [if_neg (not_not_intro htype), if_pos htype]
        rfl
      · rw [if_pos htype, if_neg htype]
        rfl
  · intro vd i
    rw [run_liftM_bind]
    cases hidx : vs2.getIntData i with
    | error e => rfl
    | ok idx =>
      rw [ok_bind, run_liftM_bind, ok_bind]
      cases mask.getVmaskData i with
      | error e => rfl
      | ok b =>
        rw [ok_bind, ok_bind]
        cases b with
        | false =>
          rw [if_pos ⟨hmask, rfl⟩]
          rfl
        | true =>
          rw [if_neg (fun h => by cases h.2), run_load_bind, if_pos rfl, loadedWord, hidx, ok_bind,
            bind_assoc]
          change m.memories.load _ >>= _ = m.memories.load _ >>= _
          refine bind_congr fun vs => ?_
          by_cases hwords : [DataType.float32, .int32].contains vs.type = true
          · rw [if_pos hwords, if_pos hwords]
            rw [run_liftM_bind]
            cases vs.get vs.type _ with
            | error e => rfl
            | ok e => exact run_liftM (vd.setData e i)
          · rw [if_neg hwords, if_neg hwords]
            rfl

theorem run_load64 {base : BitVec 64} {mask vs2 : VectorData} (hfield : inst.operand (src 3) ≠ -1)
    (hx : ops.recording.readX m.record.regs m.record.csr (inst.operand (src 0)) = .ok base)
    (hvs2 : ops.recording.readV m.record.regs m.record.csr (inst.operand (src 2)) = .ok vs2)
    (hvm : ops.recording.readV m.record.regs m.record.csr (inst.operand (src 3)) = .ok mask)
    (hmask : mask.type = .vmask) :
    executeVluxei64.run (handle ops.recording inst) m.record =
      (ofContext m.csr).setLanes (List.range ((m.csr.vtypeVlmul.eighths + 1) / 2)) (fun i => do
        if ← mask.getVmaskData i then
          loadedLong m.memories (base + BitVec.ofInt 64 (inst.src 1)) vs2 i
        else return none) >>=
        fun v => .ok ((), { m.record with regs := (m.regs, some v) }) := by
  rw [executeVluxei64, run_effectiveAddr_bind hx,
    run_readV_bind (src 2) hvs2, run_csr_bind,
    run_maskOperand_bind hfield hvm, Prog.run_bind,
    run_foldlM_lanes (f := fun i => do
      if ← mask.getVmaskData i then
        loadedLong m.memories (base + BitVec.ofInt 64 (inst.src 1)) vs2 i
      else return none)]
  · have hcsr : m.record.csr = m.csr := rfl
    rw [hcsr]
    generalize (ofContext m.csr).setLanes _ _ = x
    cases x <;> rfl
  · intro vd i
    dsimp only
    rw [if_pos hmask, run_liftM_bind]
    cases mask.getVmaskData i with
    | error e => rfl
    | ok b =>
      rw [ok_bind, ok_bind]
      cases b with
      | false => rfl
      | true =>
        rw [if_neg (by decide), if_pos rfl, run_liftM_bind, loadedLong, bind_assoc]
        refine bind_congr fun idx => ?_
        rw [run_load_bind, bind_assoc]
        change m.memories.load _ >>= _ = m.memories.load _ >>= _
        refine bind_congr fun vs => ?_
        by_cases hlong : vs.type = .int64
        · rw [if_neg (not_not_intro hlong), if_neg (not_not_intro hlong), run_liftM_bind]
          cases vs.getLongData _ with
          | error e => rfl
          | ok x => exact run_liftM (vd.setLong x i)
        · rw [if_pos hlong, if_pos hlong]
          rfl

end Machine

end NdpSim
