import NdpSim.Isa.Vector
import NdpSim.Register.Unit

/-!
# What an instruction uses its operand fields for

`Execute` decides by opcode and operand type which fields it takes for registers of which class
and which for numbers. `uses` is that decision as a table, and `execute_within` says that no run
of an instruction goes beyond it.
-/
namespace NdpSim

open Library Exec Slot

/-- A way to use an operand field. -/
inductive Use
  | read (c : RegClass)
  | write (c : RegClass)
  | number
  deriving DecidableEq

def Use.isWrite : Use → Bool
  | write _ => true
  | _ => false

namespace Access

/-- The field a register is written through. -/
def writes? : Access → Option Slot
  | writeX s _ | writeF s _ | writeV s _ => some s
  | _ => none

/-- The field the contents of a register are read through. -/
def reads? : Access → Option Slot
  | readX s | readF s | readV s => some s
  | _ => none

/-- The field an access goes through, and as what. -/
def use? : Access → Option (Slot × Use)
  | readX s => some (s, .read .x)
  | readF s => some (s, .read .f)
  | readV s => some (s, .read .v)
  | writeX s _ => some (s, .write .x)
  | writeF s _ => some (s, .write .f)
  | writeV s _ => some (s, .write .v)
  | checkExistRenameVreg s => some (s, .read .v)
  | operand s => some (s, .number)
  | _ => none

theorem use?_of_writes? {a : Access} {s : Slot} (h : a.writes? = some s) :
    ∃ c, a.use? = some (s, .write c) := by
  cases a <;> cases h
  case writeX => exact ⟨.x, rfl⟩
  case writeF => exact ⟨.f, rfl⟩
  case writeV => exact ⟨.v, rfl⟩

/-- The access changes the element width or the register multiplier. -/
def setsType : Access → Bool
  | setVsew _ | setVlmul _ => true
  | _ => false

/-- The access uses a field as the table says, and changes the settings for `vsetvli` only. -/
structure Within (op : Opcode) (us : List (Slot × Use)) (a : Access) : Prop where
  use : ∀ p, a.use? = some p → p ∈ us
  setting : a.setsType = true → op = .vsetvli

section Within

variable {op : Opcode} {us : List (Slot × Use)} (s : Slot)

theorem within_of_use {a : Access} {p : Slot × Use} (ha : a.use? = some p)
    (hs : a.setsType = false) : Within op us a ↔ p ∈ us := by
  constructor
  · intro h
    exact h.use p ha
  · intro h
    refine ⟨fun q hq => ?_, fun ht => ?_⟩
    · rw [ha] at hq
      exact Option.some_inj.mp hq ▸ h
    · rw [hs] at ht
      cases ht

theorem within_of_none {a : Access} (ha : a.use? = none) (hs : a.setsType = false) :
    Within op us a := by
  refine ⟨fun p hp => ?_, fun ht => ?_⟩
  · rw [ha] at hp
    cases hp
  · rw [hs] at ht
    cases ht

@[simp] theorem within_readX : Within op us (readX s) ↔ (s, .read .x) ∈ us :=
  within_of_use rfl rfl

@[simp] theorem within_readF : Within op us (readF s) ↔ (s, .read .f) ∈ us :=
  within_of_use rfl rfl

@[simp] theorem within_readV : Within op us (readV s) ↔ (s, .read .v) ∈ us :=
  within_of_use rfl rfl

@[simp] theorem within_writeX (x : BitVec 64) : Within op us (writeX s x) ↔ (s, .write .x) ∈ us :=
  within_of_use rfl rfl

@[simp] theorem within_writeF (x : F32) : Within op us (writeF s x) ↔ (s, .write .f) ∈ us :=
  within_of_use rfl rfl

@[simp] theorem within_writeV (v : VectorData) :
    Within op us (writeV s v) ↔ (s, .write .v) ∈ us := within_of_use rfl rfl

@[simp] theorem within_checkExistRenameVreg :
    Within op us (checkExistRenameVreg s) ↔ (s, .read .v) ∈ us := within_of_use rfl rfl

@[simp] theorem within_operand : Within op us (operand s) ↔ (s, .number) ∈ us :=
  within_of_use rfl rfl

@[simp] theorem within_present : Within op us (present s) := within_of_none rfl rfl

@[simp] theorem within_csr : Within op us csr := within_of_none rfl rfl

@[simp] theorem within_setVstart (n : Int) : Within op us (setVstart n) := within_of_none rfl rfl

@[simp] theorem within_setVsew (sew : Vsew) : Within .vsetvli us (setVsew sew) :=
  ⟨nofun, fun _ => rfl⟩

@[simp] theorem within_setVlmul (lmul : Vlmul) : Within .vsetvli us (setVlmul lmul) :=
  ⟨nofun, fun _ => rfl⟩

@[simp] theorem within_load (addr : BitVec 64) : Within op us (load addr) := within_of_none rfl rfl

@[simp] theorem within_store (addr : BitVec 64) (v : VectorData) : Within op us (store addr v) :=
  within_of_none rfl rfl

@[simp] theorem within_checkAddr (addr : BitVec 64) : Within op us (checkAddr addr) :=
  within_of_none rfl rfl

@[simp] theorem within_tryLoad (addr : BitVec 64) : Within op us (tryLoad addr) :=
  within_of_none rfl rfl

end Within

end Access

/-! ## The table -/

abbrev useX (s : Slot) : Slot × Use := (s, .read .x)
abbrev useF (s : Slot) : Slot × Use := (s, .read .f)
abbrev useV (s : Slot) : Slot × Use := (s, .read .v)
abbrev number (s : Slot) : Slot × Use := (s, .number)
abbrev intoX : Slot × Use := (dest, .write .x)
abbrev intoF : Slot × Use := (dest, .write .f)
abbrev intoV : Slot × Use := (dest, .write .v)

def branchUses (op : Opcode) : List (Slot × Use) :=
  if op = .j then []
  else if op ∈ [.beq, .blt, .bgt, .ble, .bge, .bne] then [useX (src 0), useX (src 1)]
  else [useX (src 0)]

def scalarUses (op : Opcode) (operandType : OperandType) : List (Slot × Use) :=
  match op with
  | .add | .sub | .mul | .sll | .srl | .div | .rem | .and | .or =>
    [useX (src 0), useX (src 1), intoX]
  | .addi | .muli | .slli | .srli | .andi | .ori => [useX (src 0), number (src 1), intoX]
  | .csrwi => [number dest, number (src 0)]
  | .csrw => [number dest, useX (src 0)]
  | .li => [number (src 0), intoX]
  | .lw | .ld => [useX (src 0), number (src 1), intoX]
  | .lbu => [useX (src 0), intoX]
  | .sb | .sw | .sd => [useX dest, useX (src 0), number (src 1)]
  | .fadd | .fsub | .fdiv | .fmul => [useF (src 0), useF (src 1), intoF]
  | .fmv =>
    match operandType with
    | .x_w => [useF (src 0), intoX]
    | .w_x => [useX (src 0), intoF]
    | _ => []
  | .flw => [useX (src 0), number (src 1), intoF]
  | .fsw => [useF dest, useX (src 0), number (src 1)]
  | .amoadd => [useX (src 2), useX (src 1), intoX]
  | .famoadd | .famoaddh => [useX (src 2), useF (src 1), intoF]
  | .fexp => [useF (src 0), intoF]
  | _ => []

/-- The second source of an operation with the usual operand types. -/
def rightUses : OperandType → List (Slot × Use)
  | .vv => [useV (src 1)]
  | .vx => [useX (src 1)]
  | .vi => [number (src 1)]
  | .vf => [useF (src 1)]
  | _ => []

def moveUses : OperandType → List (Slot × Use)
  | .v_v => [useV dest, useV (src 0), intoV]
  | .v_i => [useV dest, number (src 0), intoV]
  | .v_x | .s_x => [useV dest, useX (src 0), intoV]
  | .v_f => [useV dest]
  | .x_s => [useV (src 0), intoX]
  | _ => []

def floatMoveUses : OperandType → List (Slot × Use)
  | .v_v => [useV (src 0)]
  | .v_i => [number (src 0)]
  | .v_x => [useX (src 0)]
  | .v_f | .s_f => [useV dest, useF (src 0), intoV]
  | .f_s => [useV (src 0), intoF]
  | _ => []

def vectorUses (op : Opcode) (operandType : OperandType) (segCnt : Int) : List (Slot × Use) :=
  match op with
  | .vsetvli => [number (src 1), number (src 2)]
  | .vadd | .vfadd | .vsub | .vfsub | .vmul | .vfmul | .vdiv | .vfdiv | .vfwsub | .vfwmul | .vsll
  | .vmseq | .vmsne | .vmslt | .vmsle | .vmsgt | .vmsge | .vslidedown
  | .vfsgnj | .vfsgnjn | .vfsgnjx => [useV (src 0), intoV] ++ rightUses operandType
  | .vrsub | .vfrsub =>
    [useV (src 1), intoV] ++
      match operandType with
      | .vi => [number (src 0)]
      | .vf => [useF (src 0)]
      | _ => []
  | .vsrl =>
    match operandType with
    | .vi => [useV (src 0), number (src 1), intoV]
    | _ => []
  | .vnadd =>
    [useV (src 0), intoV] ++
      match operandType with
      | .wx => [useX (src 1)]
      | _ => []
  | .vfrdiv => [useV (src 0), useF (src 1), intoV]
  | .vmv => moveUses operandType
  | .vid | .vmset => [intoV]
  | .vmand | .vmor =>
    [useV (src 0), intoV] ++
      match operandType with
      | .mm => [useV (src 1)]
      | _ => []
  | .vand =>
    [useV (src 0), intoV] ++
      match operandType with
      | .vv => [useV (src 1)]
      | .vi => [number (src 1)]
      | _ => []
  | .vor =>
    [useV (src 0), useV dest, intoV] ++
      match operandType with
      | .vv => [useV (src 1), useV (src 2)]
      | .vi => [number (src 1)]
      | _ => []
  | .vfirst => [useV (src 0), intoX]
  | .vmin | .vmax =>
    [useV (src 0), intoV] ++
      match operandType with
      | .vv => [useV (src 1)]
      | _ => []
  | .vcompress =>
    [useV (src 0), intoV] ++
      match operandType with
      | .vm => [useV (src 1)]
      | _ => []
  | .vslide1down | .vslide1up => [useV (src 0), useX (src 1), intoV]
  | .vlsseg =>
    [useX (src 0), useV (src 1)] ++
      (List.range segCnt.toNat).map fun i => (segDest (Fin.ofNat 8 i), .write .v)
  | .test =>
    match operandType with
    | .v_x => [useX (src 0)]
    | .v_f => [useF (src 0)]
    | _ => [useV (src 0)]
  | .vfmacc | .vfwmacc => [useV (src 0), useV dest, intoV] ++ rightUses operandType
  | .vfmsub =>
    [useV (src 1), useV dest, intoV] ++
      match operandType with
      | .vv => [useV (src 0)]
      | .vf => [useF (src 0)]
      | _ => []
  | .vfncvt | .vfcvt | .vfwcvt | .vfsqrt | .vfexp => [useV (src 0), intoV]
  | .vfmv => floatMoveUses operandType
  | .vfredomax | .vfredosum | .vredsum | .vredmax | .vredmin | .vredor | .vwredosum
  | .vwredomax => [useV (src 0), useV (src 1), intoV]
  | .vle8 | .vle16 | .vle32 | .vle64 => [useX (src 0), number (src 1), intoV]
  | .vse8 | .vse16 | .vse32 | .vse64 => [useX (src 0), number (src 1), useV dest]
  | .vluxei32 => [useX (src 0), number (src 1), useV (src 2), useV (src 3), intoV]
  | .vluxei64 => [useX (src 0), number (src 1), useV (src 2), intoV]
  | .vsuxei32 => [useX (src 0), number (src 1), useV (src 2), useV dest, useV (src 3)]
  | .vamoaddei8 | .vamoaddei16 | .vamoaddei32 | .vamoaddei64 | .vamoandei16 | .vamoandei32
  | .vamoorei16 | .vamoorei32 | .vamomaxei16 | .vamomaxei32 | .vamominei16 | .vamominei32 =>
    [useX (src 0), useV (src 1), useV (src 2)]
  | _ => []

/-- The mask field, which is used only if there is a mask. -/
def maskSlot : Opcode → Option Slot
  | .vmv => some (src 1)
  | .vredmin => some (src 2)
  | .vluxei64 | .vamoaddei8 | .vamoaddei16 | .vamoaddei32 | .vamoaddei64 | .vamoandei16
  | .vamoandei32 | .vamoorei16 | .vamoorei32 | .vamomaxei16 | .vamomaxei32 | .vamominei16
  | .vamominei32 => some (src 3)
  | _ => none

/-- Every use `Execute` makes of a field, the mask apart. -/
def uses (op : Opcode) (operandType : OperandType) (segCnt : Int) : List (Slot × Use) :=
  if op = .exit then []
  else if op.checkBranchOp then branchUses op
  else if op.checkCsrOp || op.checkVectorOp || op.checkSegOp then
    vectorUses op operandType segCnt
  else scalarUses op operandType

/-- Only the segment load depends on the segment count. -/
theorem uses_segCnt {op : Opcode} (h : op ≠ .vlsseg) (operandType : OperandType) (segCnt : Int) :
    uses op operandType segCnt = uses op operandType 0 := by
  cases op
  case vlsseg => exact absurd rfl h
  all_goals rfl

/-- A decidable property of the table, checked at every opcode and operand type. -/
theorem forall_entry {P : Opcode → OperandType → Prop}
    (h : ∀ n < 140, ∀ k < 34, P (.ofNat n) (.ofNat k)) (op : Opcode) (operandType : OperandType) :
    P op operandType := by
  have hentry := h op.ctorIdx (by cases op <;> decide) operandType.ctorIdx
    (by cases operandType <;> decide)
  rwa [Opcode.ofNat_ctorIdx, OperandType.ofNat_ctorIdx] at hentry

/-- Results go to the destination field, and only those of instructions that mark it or of
atomics. -/
theorem writes_uses {op : Opcode} (h : op ≠ .vlsseg) (operandType : OperandType) (segCnt : Int)
    {s : Slot} {c : RegClass} (hs : (s, .write c) ∈ uses op operandType segCnt) :
    s = dest ∧ (op.checkDestWrite = true ∨ op.checkAmoOp = true) := by
  have hentry := forall_entry (P := fun op operandType =>
    (uses op operandType 0).all (fun p => op = .vlsseg || !p.2.isWrite ||
      (p.1 = dest && (op.checkDestWrite || op.checkAmoOp))) = true) (by decide +kernel)
  rw [uses_segCnt h] at hs
  have hp := List.all_eq_true.mp (hentry op operandType) _ hs
  simpa [h, Use.isWrite] using hp

namespace NdpInstruction

/-- The use of the mask field, if there is a mask. -/
def maskUses (inst : NdpInstruction) : List (Slot × Use) :=
  (maskSlot inst.opcode).toList.flatMap fun s =>
    if inst.operand s = -1 then [] else [useV s]

/-- Every use of a field of an instruction. -/
def usesOf (inst : NdpInstruction) : List (Slot × Use) :=
  uses inst.opcode inst.operandType inst.segCnt ++ inst.maskUses

theorem writes_usesOf (inst : NdpInstruction) (h : inst.opcode ≠ .vlsseg) {s : Slot}
    {c : RegClass} (hs : (s, .write c) ∈ inst.usesOf) :
    s = .dest ∧ (inst.opcode.checkDestWrite = true ∨ inst.opcode.checkAmoOp = true) := by
  obtain hs | hs := List.mem_append.mp hs
  · exact writes_uses h _ _ hs
  · obtain ⟨t, -, hs⟩ := List.mem_flatMap.mp hs
    split at hs <;> simp at hs

/-- What an instruction is answered: it has an operand or not. -/
def answers (inst : NdpInstruction) : (a : Access) → a.Ans → Prop
  | .present s, b => b = (inst.operand s != -1)
  | _, _ => True

end NdpInstruction

/-! ## Nothing beyond the table -/

section Loops

variable {op : Opcode} {us : List (Slot × Use)}

theorem within_loadEight (addr : BitVec 64) :
    (loadEight addr).wp (Access.Within op us) fun _ => True := by
  unfold loadEight
  simp only [Prog.wp_bind, wp_load, Prog.wp_liftM]
  refine ⟨by simp, fun first vd _ => ?_⟩
  refine Prog.wp.foldlM (fun vd i _ => ?_) trivial _
  simp

theorem within_executeVsetvli :
    executeVsetvli.wp (Access.Within .vsetvli [number (src 1), number (src 2)])
      fun _ => True := by
  simp only [executeVsetvli, Prog.wp_bind, wp_operand]
  refine ⟨by simp, fun n => ?_⟩
  split
  · simp only [Prog.wp_bind, wp_setVsew, wp_operand]
    refine ⟨by simp, by simp, fun k => ?_⟩
    split <;> simp
  · trivial

variable [FloatOps]

theorem within_executeVluxei32 :
    executeVluxei32.wp (Access.Within op
      [useX (src 0), number (src 1), useV (src 2), useV (src 3), intoV]) fun _ => True := by
  unfold executeVluxei32
  simp only [Prog.wp_bind, effectiveAddr, wp_readX, wp_immediate, wp_readV, wp_csr, Prog.wp_pure]
  refine ⟨by simp, fun base => ⟨by simp, fun n => ⟨by simp, fun vs2 => ⟨by simp, fun vs3 =>
    ⟨by simp, fun c => ?_⟩⟩⟩⟩⟩
  refine (Prog.wp.foldlM (Q := fun _ => True) (fun vd i _ => ?_) trivial _).mono
    (fun _ h => h) fun vd _ => ?_
  · simp
  · simp

theorem within_executeVsuxei32 :
    executeVsuxei32.wp (Access.Within op
      [useX (src 0), number (src 1), useV (src 2), useV dest, useV (src 3)]) fun _ => True := by
  unfold executeVsuxei32
  simp only [Prog.wp_bind, effectiveAddr, wp_readX, wp_immediate, wp_readV, Prog.wp_pure]
  refine ⟨by simp, fun base => ⟨by simp, fun n => ⟨by simp, fun vs2 => ⟨by simp, fun vd =>
    ⟨by simp, fun vs3 => ?_⟩⟩⟩⟩⟩
  refine Prog.wp.foldlM (fun _ i _ => ?_) trivial _
  simp [loadOrEmpty]

theorem within_executeVfsgnj (op : Opcode) (operandType : OperandType) :
    (executeVfsgnj op operandType).wp
      (Access.Within op ([useV (src 0), intoV] ++ rightUses operandType)) fun _ => True := by
  unfold executeVfsgnj
  split
  · simp [rightUses]
  · simp only [Prog.wp_bind, wp_readV, wp_csr]
    refine ⟨by simp, fun vs1 => ⟨by simp, fun c => ?_⟩⟩
    refine (Prog.wp.foldlM (Q := fun _ => True) (fun vd i _ => ?_) trivial _).mono
      (fun _ h => h) fun vd _ => ?_
    · simp [unsupported, rightUses]
    · simp
  · trivial

omit [FloatOps] in
theorem within_executeVlsseg (operandType : OperandType) (segCnt : Int) :
    (executeVlsseg operandType segCnt).wp
      (Access.Within op ([useX (src 0), useV (src 1)] ++
        (List.range segCnt.toNat).map fun i => (segDest (Fin.ofNat 8 i), .write .v)))
      fun _ => True := by
  unfold executeVlsseg
  simp only [Prog.wp_bind, wp_csr, wp_readX, wp_readV]
  refine ⟨by simp, fun c => ⟨by simp, fun base => ⟨by simp, fun vs2 => ?_⟩⟩⟩
  split
  · simp only [Prog.wp_bind]
    refine (Prog.wp.foldlM (Q := fun _ => True) (fun vds i _ => ?_) trivial _).mono
      (fun _ h => h) fun vds _ => ?_
    · simp only [Prog.wp_bind, Prog.wp_liftM]
      intro offset _
      refine Prog.wp.foldlM (fun vds j _ => ?_) trivial _
      simp only [segmentLane, Prog.wp_bind, wp_load]
      refine ⟨by simp, fun vs => ?_⟩
      split
      · trivial
      · split <;> simp
    · refine Prog.wp.foldlM_mem (fun _ i hi _ => ?_) trivial
      split
      · simp only [wp_writeV, Access.within_writeV, and_true]
        exact List.mem_append_right _ (List.mem_map_of_mem hi)
      · trivial
  · trivial

end Loops

section Cases

variable [FloatOps] (operandType : OperandType)

omit [FloatOps] in
theorem within_arithmetic (op : Opcode) (forms : VectorData → Forms) :
    (arithmetic operandType forms).wp
      (Access.Within op ([useV (src 0), intoV] ++ rightUses operandType)) fun _ => True := by
  simp only [arithmetic, Prog.wp_bind, wp_readV]
  refine ⟨by simp, fun vs1 => ?_⟩
  split <;> simp [immediate32, unsupported, rightUses]

theorem within_executeCompare (op : Opcode) (logical : LogicalOp) :
    (executeCompare logical operandType).wp
      (Access.Within op ([useV (src 0), intoV] ++ rightUses operandType)) fun _ => True := by
  simp only [executeCompare, Prog.wp_bind, wp_csr, wp_readV]
  refine ⟨by simp, fun c => ⟨by simp, fun vs1 => ?_⟩⟩
  split <;> simp [rightUses]

omit [FloatOps] in
theorem within_executeMaskLogic (op : Opcode) (f : Bool → Bool → Bool) :
    (executeMaskLogic f operandType).wp (Access.Within op ([useV (src 0), intoV] ++
      match operandType with
      | .mm => [useV (src 1)]
      | _ => [])) fun _ => True := by
  simp only [executeMaskLogic, Prog.wp_bind, wp_csr, wp_readV]
  refine ⟨by simp, fun c => ⟨by simp, fun vs1 => ?_⟩⟩
  split <;> simp

theorem within_executeFloatReduction (op : Opcode) (what : String)
    (step : Elem → Elem → Except Fault Elem) (byPair : Bool) :
    (executeFloatReduction what step byPair operandType).wp
      (Access.Within op [useV (src 0), useV (src 1), intoV]) fun _ => True := by
  simp [executeFloatReduction]

theorem within_executeReduction (op : Opcode) (what : String)
    (step : Elem → Elem → Except Fault Elem) : (executeReduction what step operandType).wp
      (Access.Within op [useV (src 0), useV (src 1), intoV]) fun _ => True := by
  simp [executeReduction]

theorem within_executeWideReduction (op : Opcode) (what : String) (step : F32 → F32 → F32) :
    (executeWideReduction what step operandType).wp
      (Access.Within op [useV (src 0), useV (src 1), intoV]) fun _ => True := by
  simp [executeWideReduction]

theorem within_executeVfmv :
    (executeVfmv operandType).wp (Access.Within .vfmv (floatMoveUses operandType))
      fun _ => True := by
  simp only [executeVfmv, Prog.wp_bind, wp_csr]
  refine ⟨by simp, fun c => ?_⟩
  split
  case h_5 =>
    simp only [Prog.wp_bind, wp_readV]
    refine ⟨by simp [floatMoveUses], fun vs => ?_⟩
    split <;> simp [floatMoveUses]
  all_goals simp [floatMoveUses, oldDest]

theorem within_executeVfwmacc :
    (executeVfwmacc operandType).wp (Access.Within .vfwmacc
      ([useV (src 0), useV dest, intoV] ++ rightUses operandType)) fun _ => True := by
  simp only [executeVfwmacc, Prog.wp_bind, wp_csr, Prog.wp_ite, wp_error, wp_readV]
  refine ⟨by simp, fun c => ⟨fun _ => trivial, fun _ => ⟨by simp, fun vs1 => ⟨by simp, fun _ =>
    ⟨by simp, fun vd => ?_⟩⟩⟩⟩⟩
  split
  · simp only [Prog.wp_bind, wp_readV, Prog.wp_ite, wp_error]
    refine ⟨by simp [rightUses], fun vs2 => ⟨fun _ => trivial, fun _ => ?_⟩⟩
    split <;> simp
  · simp [rightUses]
  · trivial

theorem within_executeVnadd (segCnt : Int) :
    (executeVnadd operandType).wp (Access.Within .vnadd (vectorUses .vnadd operandType segCnt))
      fun _ => True := by
  delta vectorUses
  simp only [executeVnadd, Prog.wp_bind, wp_csr, wp_readV]
  refine ⟨by simp, fun c => ⟨by simp, fun vs2 => ?_⟩⟩
  cases operandType
  case wx | wv => simp
  all_goals trivial

theorem within_executeMinMax (isMin : Bool) (op : Opcode) (h : op = .vmin ∨ op = .vmax)
    (segCnt : Int) : (executeMinMax isMin operandType).wp
      (Access.Within op (vectorUses op operandType segCnt)) fun _ => True := by
  rcases h with rfl | rfl <;>
  · delta vectorUses
    simp only [executeMinMax, Prog.wp_bind, wp_csr, wp_readV]
    refine ⟨by simp, fun c => ⟨by simp, fun vs1 => ?_⟩⟩
    cases operandType
    case vv | vi | vf => simp
    all_goals trivial

end Cases

/-! ### Masks -/

section Masks

variable {inst : NdpInstruction} {op : Opcode} {us : List (Slot × Use)} {β : Type}
  {Q : β → Prop}

theorem Access.Within.mono {us' : List (Slot × Use)} {a : Access} (h : a.Within op us)
    (hus : ∀ p ∈ us, p ∈ us') : a.Within op us' :=
  ⟨fun p hp => hus p (h.use p hp), h.setting⟩

/-- A mask is read only if there is one. -/
theorem within_maskOperand {s : Slot} {f : Bool × VectorData → Exec β}
    (hmask : inst.operand s ≠ -1 → useV s ∈ us)
    (hf : ∀ vm, (f vm).wp (Access.Within op us) Q) :
    (maskOperand s >>= f).wpOf inst.answers (Access.Within op us) Q := by
  refine Prog.wpOf_bind.mpr ⟨by simp, fun b hb => ?_⟩
  cases b with
  | false => exact (hf _).wpOf
  | true =>
    have hgiven : inst.operand s ≠ -1 := bne_iff_ne.mp (Eq.symm hb)
    exact ⟨by simpa using hmask hgiven, fun v _ => (hf _).wpOf⟩

/-- The same with the base uses apart. -/
theorem within_of_base {us' : List (Slot × Use)} {p : Exec β}
    (hp : p.wp (Access.Within op us) Q) (hus : ∀ q ∈ us, q ∈ us') :
    p.wp (Access.Within op us') Q :=
  hp.mono (fun _ h => h.mono hus) fun _ h => h

theorem within_executeVluxei64
    (hus : ∀ p ∈ [useX (src 0), number (src 1), useV (src 2), intoV], p ∈ us)
    (hmask : inst.operand (src 3) ≠ -1 → useV (src 3) ∈ us) :
    executeVluxei64.wpOf inst.answers (Access.Within op us) fun _ => True := by
  simp only [List.forall_mem_cons] at hus
  obtain ⟨hbase, hoffset, hindex, hdest, -⟩ := hus
  refine ⟨by simpa using hbase, fun base _ => ⟨by simpa using hoffset, fun n _ =>
    ⟨by simpa using hindex, fun vs2 _ => ⟨by simp, fun c _ => ?_⟩⟩⟩⟩
  refine within_maskOperand hmask fun vm => Prog.wp_bind.mpr ?_
  refine (Prog.wp.foldlM (Q := fun _ => True) (fun vd i _ => ?_) trivial _).mono
    (fun _ h => h) fun vd _ => ?_
  · simp
  · simpa using hdest

variable [FloatOps] (operandType : OperandType)

theorem within_executeVmv (hus : ∀ p ∈ moveUses operandType, p ∈ us)
    (hmask : inst.operand (src 1) ≠ -1 → useV (src 1) ∈ us) :
    (executeVmv operandType).wpOf inst.answers (Access.Within op us) fun _ => True := by
  refine ⟨by simp, fun c _ => ?_⟩
  refine within_maskOperand hmask fun vm => within_of_base ?_ hus
  split
  case h_5 =>
    simp only [Prog.wp_bind, wp_readV, Prog.wp_liftM]
    refine ⟨by simp [moveUses], fun v x _ => ?_⟩
    split <;> simp [moveUses]
  all_goals simp [moveUses, oldDest, unsupported]

theorem within_executeVredmin (hus : ∀ p ∈ [useV (src 0), useV (src 1), intoV], p ∈ us)
    (hmask : inst.operand (src 2) ≠ -1 → useV (src 2) ∈ us) :
    (executeVredmin operandType).wpOf inst.answers (Access.Within op us) fun _ => True := by
  simp only [List.forall_mem_cons] at hus
  obtain ⟨hvs1, hvs2, hdest, -⟩ := hus
  refine ⟨by simp, fun c _ => ?_⟩
  dsimp only
  split
  · trivial
  · refine ⟨by simpa using hvs1, fun vs1 _ => ⟨by simpa using hvs2, fun vs2 _ => ?_⟩⟩
    refine within_maskOperand hmask fun vm => ?_
    simp [hdest]

theorem within_executeVamo (arith : ArithOp)
    (hus : ∀ p ∈ [useX (src 0), useV (src 1), useV (src 2)], p ∈ us)
    (hmask : inst.operand (src 3) ≠ -1 → useV (src 3) ∈ us) :
    (executeVamo arith).wpOf inst.answers (Access.Within op us) fun _ => True := by
  simp only [List.forall_mem_cons] at hus
  obtain ⟨hbase, hoffset, hvs, -⟩ := hus
  have hloop (base : BitVec 64) (vmask offsets vs : VectorData) (is : List Nat) :
      (is.foldlM (fun (_ : Unit) i => amoLane arith base vmask offsets vs i) ()).wpOf
        inst.answers (Access.Within op us) fun _ => True := by
    refine (Prog.wp.foldlM (fun _ i _ => ?_) trivial is).wpOf
    simp [amoLane]
  refine ⟨by simp, fun c _ => ⟨by simpa using hbase, fun base _ => ⟨by simpa using hoffset,
    fun offset _ => ⟨by simpa using hvs, fun vs _ => ?_⟩⟩⟩⟩
  change Prog.wpOf _ _ _ ((liftM (setMask _ _ _) : Exec VectorData) >>= _)
  rw [Prog.wpOf_bind]
  refine (Prog.wp_liftM.mpr fun all _ => ?_ : Prog.wp _ _ _).wpOf
  refine ⟨by simp, fun b hb => ?_⟩
  cases b with
  | false => exact hloop _ _ _ _ _
  | true =>
    have hgiven : inst.operand (src 3) ≠ -1 := bne_iff_ne.mp (Eq.symm hb)
    exact ⟨by simpa using hmask hgiven, fun vm _ => hloop _ _ _ _ _⟩

end Masks

section All

variable [FloatOps]

theorem within_executeVectorOp {op : Opcode} (h : maskSlot op = none) (operandType : OperandType)
    (segCnt : Int) : (executeVectorOp op operandType segCnt).wp
      (Access.Within op (vectorUses op operandType segCnt)) fun _ => True := by
  cases op
  case vlsseg => exact within_executeVlsseg operandType segCnt
  case vsetvli => exact within_executeVsetvli
  case vfmv => exact within_executeVfmv operandType
  case vfwmacc => exact within_executeVfwmacc operandType
  case vnadd => exact within_executeVnadd operandType segCnt
  case vmin | vmax => exact within_executeMinMax operandType _ _ (by simp) segCnt
  case vluxei32 => exact within_executeVluxei32
  case vsuxei32 => exact within_executeVsuxei32
  case vfsgnj | vfsgnjn | vfsgnjx => exact within_executeVfsgnj _ operandType
  case vmv | vredmin | vluxei64 | vamoaddei8 | vamoaddei16 | vamoaddei32 | vamoaddei64
      | vamoandei16 | vamoandei32 | vamoorei16 | vamoorei32 | vamomaxei16 | vamomaxei32
      | vamominei16 | vamominei32 => cases h
  case vle64 =>
    delta executeVectorOp vectorUses
    simp [executeVleWide, effectiveAddr, within_loadEight]
  case vadd | vfadd | vmul | vfmul => exact within_arithmetic operandType _ _
  case vsub | vfsub | vdiv | vfdiv => exact ⟨by simp, fun c => within_arithmetic operandType _ _⟩
  case vmseq | vmsne | vmslt | vmsle | vmsgt | vmsge => exact within_executeCompare operandType _ _
  case vmand | vmor => exact within_executeMaskLogic operandType _ _
  case vfredomax | vfredosum => exact within_executeFloatReduction operandType _ _ _ _
  case vredsum | vredmax | vredor => exact within_executeReduction operandType _ _ _
  case vwredosum | vwredomax => exact within_executeWideReduction operandType _ _ _
  all_goals delta executeVectorOp vectorUses
  all_goals dsimp only
  all_goals try trivial
  all_goals
    simp [executeVrsub, executeVfwsub, executeVfwmul, executeVsll, executeVsrl, executeVfrdiv,
      executeVid, executeVmset, executeVand, executeVor, executeVfirst, executeVcompress,
      executeVslide1down, executeVslidedown, executeVslide1up, executeTest, executeVfmacc,
      executeVfmsub, executeVfncvt, executeVfcvt, executeVfwcvt, executeVfsqrt, executeVleNarrow,
      executeVleWide, executeVseNarrow, executeVseWide, executeVfexp, effectiveAddr, unsupported]
  all_goals
    split <;> simp [immediate32, rightUses]

theorem within_executeScalar (op : Opcode) (operandType : OperandType) :
    (executeScalar op operandType).wp (Access.Within op (scalarUses op operandType))
      fun _ => True := by
  cases op
  case fmv =>
    delta executeScalar scalarUses
    dsimp only
    split <;> simp
  case amoadd | famoadd =>
    delta executeScalar scalarUses
    simp only [Prog.wp_bind, wp_readX]
    refine ⟨by simp, fun addr => ?_⟩
    split <;> simp [loadOrEmpty, famoaddHalf]
  all_goals delta executeScalar scalarUses
  all_goals
    simp [registerOp, immediateOp, floatOp, storeElement,
      effectiveAddr, loadOrEmpty, famoaddHalf]

omit [FloatOps] in
theorem within_executeBranch (op : Opcode) :
    (executeBranch op).wp (Access.Within op (branchUses op)) fun _ => True := by
  unfold executeBranch branchUses
  split
  · trivial
  · simp only [Prog.wp_bind, wp_readX]
    by_cases hb : op ∈ [Opcode.beq, .blt, .bgt, .ble, .bge, .bne]
    · rw [if_pos hb]
      refine ⟨by simp, fun lhs => ?_⟩
      split
      · trivial
      · split <;> simp
    · rw [if_neg hb]
      refine ⟨by simp, fun lhs => ?_⟩
      split
      · trivial
      · rw [if_neg (by simpa using hb)]
        simp

theorem within_masked {inst : NdpInstruction} {s : Slot} (h : maskSlot inst.opcode = some s) :
    (executeVectorOp inst.opcode inst.operandType inst.segCnt).wpOf inst.answers
      (Access.Within inst.opcode (vectorUses inst.opcode inst.operandType inst.segCnt ++
        inst.maskUses)) fun _ => True := by
  have hmask (hs : inst.operand s ≠ -1) :
      useV s ∈ vectorUses inst.opcode inst.operandType inst.segCnt ++ inst.maskUses := by
    refine List.mem_append_right _ ?_
    simp [NdpInstruction.maskUses, h, hs]
  generalize hop : inst.opcode = op at h hmask ⊢
  cases op
  all_goals cases h
  case vmv => exact within_executeVmv _ (fun p => List.mem_append_left _) hmask
  case vredmin => exact within_executeVredmin _ (fun p => List.mem_append_left _) hmask
  case vluxei64 => exact within_executeVluxei64 (fun p => List.mem_append_left _) hmask
  all_goals exact within_executeVamo _ (fun p => List.mem_append_left _) hmask

/-- No run of an instruction goes beyond the table. -/
theorem execute_within (inst : NdpInstruction) :
    (execute inst.opcode inst.operandType inst.segCnt).wpOf inst.answers
      (Access.Within inst.opcode inst.usesOf) fun _ => True := by
  unfold execute NdpInstruction.usesOf uses
  split
  · trivial
  split
  · exact (within_of_base (within_executeBranch _) fun p => List.mem_append_left _).wpOf
  split
  · refine Prog.wpOf_bind.mpr (Prog.wpOf_bind.mpr ?_)
    cases hs : maskSlot inst.opcode with
    | none =>
      refine ((within_of_base (within_executeVectorOp hs inst.operandType inst.segCnt)
        fun p => List.mem_append_left _).mono (fun _ h => h) fun _ _ => ?_).wpOf
      exact ⟨by simp, fun _ _ => trivial⟩
    | some s =>
      refine (within_masked hs).mono fun _ _ => ?_
      exact ⟨by simp, fun _ _ => trivial⟩
  · refine (Prog.wp_bind.mpr ?_).wpOf
    refine (within_of_base (within_executeScalar inst.opcode inst.operandType)
      fun p => List.mem_append_left _).mono (fun _ h => h) fun _ _ => ?_
    simp

end All

end NdpSim
