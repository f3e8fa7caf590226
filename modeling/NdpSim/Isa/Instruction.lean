import Mathlib.Data.Fintype.Pi
import Mathlib.Tactic

/-!
# Instructions

Opcodes, operand types and the instruction record of the simulator, with the opcode
classes (`CheckVectorOp` and its siblings) that every later pass branches on. Register
operands are plain numbers: architectural, physical and special registers live in
disjoint ranges above their bases.
-/
namespace NdpSim

/-! ## Register numbering -/

def regXBase : Int := 100000
def regFBase : Int := 150000
def regVBase : Int := 200000
def regPXBase : Int := 300000
def regPFBase : Int := 350000
def regPVBase : Int := 400000

def spcialRegStart : Int := 1500000
def regNdpId : Int := spcialRegStart + 1
def regRequestOffset : Int := spcialRegStart + 2
def regRequestData : Int := spcialRegStart + 3
def regAddr : Int := spcialRegStart + 4
def regVstart : Int := spcialRegStart + 5
def regX0 : Int := spcialRegStart + 6

def specialImmediateStart : Int := 1600000
def immE8 : Int := specialImmediateStart + 1
def immE16 : Int := specialImmediateStart + 2
def immE32 : Int := specialImmediateStart + 3
def immE64 : Int := specialImmediateStart + 4
def immMF8 : Int := specialImmediateStart + 5
def immMF4 : Int := specialImmediateStart + 6
def immMF2 : Int := specialImmediateStart + 7
def immM1 : Int := specialImmediateStart + 8
def immM2 : Int := specialImmediateStart + 9
def immM4 : Int := specialImmediateStart + 10
def immM8 : Int := specialImmediateStart + 11
def immTA : Int := specialImmediateStart + 12
def immTU : Int := specialImmediateStart + 13
def immMA : Int := specialImmediateStart + 14
def immMU : Int := specialImmediateStart + 15

/-- Operands are 64-bit fields, but register numbers travel as `int`. -/
def toInt (x : Int) : Int := x.bmod 4294967296

theorem toInt_of_range {x : Int} (hl : -2147483648 ≤ x) (hu : x < 2147483648) : toInt x = x := by
  rw [toInt, Int.bmod_eq_of_le] <;> omega

@[simp] theorem toInt_toInt (x : Int) : toInt (toInt x) = toInt x := Int.bmod_bmod

/-! ## Opcodes -/

inductive Opcode
  | invalidInst | nop | add | addi | sub | mul | muli | sll | slli | srl | srli | div | rem
  | and | andi | or | ori | csrw | csrwi | li | lb | lw | ld | lbu | sb | sd | sw
  | fadd | fsub | fdiv | fmul | fmv | flw | fsw
  | vsetvli | vadd | vsub | vrsub | vmul | vdiv | vsll | vsrl | vsra | vnadd
  | vmv | vfadd | vfsub | vfrsub | vfmul | vfdiv | vfrdiv | vfmacc | vfmsub | vfwmacc
  | vfncvt | vfcvt | vfwcvt | vfwsub | vfwmul | vfredosum | vwredosum | vfredomax | vwredomax
  | vfmv | vfsqrt | vmin | vmax
  | vle8 | vse8 | vle16 | vse16 | vle32 | vse32 | vle64 | vse64
  | vamoaddei8 | vamoaddei16 | vamoaddei32 | vamoaddei64 | vamoandei16 | vamoandei32
  | vamoorei16 | vamoorei32 | vamomaxei16 | vamomaxei32 | vamominei16 | vamominei32
  | amoadd | amomax | famoadd | famoaddh | famomax
  | vid | vmset | vmseq | vmsne | vmslt | vmsgt | vmsle | vmsge | vmand | vmor | vcompress
  | vand | vor | vfirst | vlsseg
  | vslide1down | vslidedown | vslide1up | vslideup
  | vredsum | vredmax | vredmin | vredand | vredor
  | vluxei32 | vluxei64 | vsuxei32 | vsuxei64 | vfsgnj | vfsgnjn | vfsgnjx
  | j | beq | beqz | bgt | bgtz | blt | bltz | ble | blez | bge | bgez | bne | bnez
  | fexp | vfexp | test | exit
  deriving DecidableEq

/-- How the operands are laid out, written as the suffix of the mnemonic. -/
inductive OperandType
  | none | v | wv | vv | vi | vx | vf | vs | v_v | v_x | v_i | v_f | f_s | s_f
  | xu_f_v | x_f_v | f_xu_v | f_x_v | f_f_v | f_f_w | xu_f_w | x_f_w | f_xu_w | f_x_w
  | vm | m | mm | x_s | s_x | x_w | w_x | wx | d | w
  deriving DecidableEq

namespace Opcode

def floatOps : List Opcode :=
  [fadd, fsub, fdiv, fmul, fmv, flw, fsw, vfadd, vfsub, vfrsub, vfmul, vfwmul, vfdiv, vfmacc,
    vfwmacc, vfncvt, vfcvt, vfwcvt, vfmv, vfredomax, vfredosum, fexp, vfexp, vfwsub, vfmsub,
    vfsqrt]

def vectorOps : List Opcode :=
  [vadd, vsub, vsrl, vrsub, vmul, vdiv, vmv, vfadd, vfsub, vfrsub, vfmul, vfwmul, vfdiv,
    vfrdiv, vfmacc, vfwmacc, vfncvt, vfcvt, vfwcvt, vfmv, vfredomax, vfredosum, vwredosum,
    vwredomax, vmin, vmax, vle8, vse8, vse16, vle32, vse32, vle64, vse64, vamoaddei8,
    vamoaddei16, vle16, vamoaddei32, vamoaddei64, vamoandei16, vamoandei32, vamoorei16,
    vamoorei32, vamomaxei16, vamomaxei32, vamominei16, vamominei32, vand, vor, vfirst, test,
    vslide1down, vslidedown, vslide1up, vslideup, vredsum, vredmax, vredmin, vredand, vredor,
    vluxei32, vsuxei32, vluxei64, vsuxei64, vlsseg, vmset, vmseq, vmsne, vmslt, vmsgt, vmsle,
    vmsge, vmand, vmor, vcompress, vnadd, vsll, vid, vfexp, vfsgnj, vfsgnjn, vfsgnjx, vfwsub,
    vfmsub, vfsqrt]

def narrowingOps : List Opcode := [vfncvt]

def wideningOps : List Opcode := [vfwmacc, vfwcvt, vfwsub, vfwmul, vwredosum, vwredomax]

def amoOps : List Opcode :=
  [vamoaddei16, vamoaddei32, vamoaddei64, vamoandei16, vamoandei32, vamoorei16, vamoorei32,
    vamomaxei16, vamomaxei32, vamominei16, vamominei32, amoadd, amomax, famoadd, famomax,
    vamoaddei8, famoaddh]

def csrOps : List Opcode := [vsetvli]

def segOps : List Opcode := [vlsseg]

def branchOps : List Opcode :=
  [j, beq, beqz, bgt, blez, bgtz, blt, ble, bltz, bge, bgez, bne, bnez]

def checkScalarOp (op : Opcode) : Bool := !vectorOps.contains op
def checkFloatOp (op : Opcode) : Bool := floatOps.contains op
def checkVectorOp (op : Opcode) : Bool := vectorOps.contains op
def checkNarrowingOp (op : Opcode) : Bool := narrowingOps.contains op
def checkWideningOp (op : Opcode) : Bool := wideningOps.contains op
def checkAmoOp (op : Opcode) : Bool := amoOps.contains op
def checkCsrOp (op : Opcode) : Bool := csrOps.contains op
def checkSegOp (op : Opcode) : Bool := segOps.contains op
def checkBranchOp (op : Opcode) : Bool := branchOps.contains op

def checkLoadOp (op : Opcode) : Bool :=
  [vle8, vle16, vle32, vle64, lw, ld, lb, flw, vluxei32, vluxei64, vlsseg].contains op ||
    checkAmoOp op

def checkStoreOp (op : Opcode) : Bool :=
  [vse8, vse16, vse32, vse64, sw, sd, sb, fsw, vsuxei32].contains op

def checkIndexedOp (op : Opcode) : Bool := [vluxei32, vsuxei32].contains op

def checkDestWrite (op : Opcode) : Bool :=
  !([vsetvli, csrwi, csrw].contains op || checkStoreOp op || checkAmoOp op)

end Opcode

/-! ## The instruction record -/

/-! The slots of the source operands and of the segments are written as literals. -/

instance neZeroSources : NeZero 5 := ⟨by decide⟩

instance neZeroSegments : NeZero 8 := ⟨by decide⟩

/-- One instruction. `segDest` and `segCnt` are used by segment loads only, `doBranch` is set
by the execution of a taken branch. -/
@[ext] structure NdpInstruction where
  opcode : Opcode
  operandType : OperandType
  src : Fin 5 → Int
  dest : Int
  segDest : Fin 8 → Int
  segCnt : Int
  doBranch : Bool
  deriving DecidableEq

namespace NdpInstruction

def setSrc (inst : NdpInstruction) (i : Fin 5) (r : Int) : NdpInstruction :=
  { inst with src := Function.update inst.src i r }

def setDest (inst : NdpInstruction) (r : Int) : NdpInstruction := { inst with dest := r }

def setSegDest (inst : NdpInstruction) (i : Fin 8) (r : Int) : NdpInstruction :=
  { inst with segDest := Function.update inst.segDest i r }

/-- The instruction with other source operands. -/
def withSrc (inst : NdpInstruction) (src : Fin 5 → Int) : NdpInstruction := { inst with src := src }

section Fields

variable (inst : NdpInstruction) (i : Fin 5) (k : Fin 8) (r : Int)

@[simp] theorem opcode_setSrc : (inst.setSrc i r).opcode = inst.opcode := rfl
@[simp] theorem operandType_setSrc : (inst.setSrc i r).operandType = inst.operandType := rfl
@[simp] theorem dest_setSrc : (inst.setSrc i r).dest = inst.dest := rfl
@[simp] theorem segDest_setSrc : (inst.setSrc i r).segDest = inst.segDest := rfl
@[simp] theorem src_setSrc : (inst.setSrc i r).src = Function.update inst.src i r := rfl
@[simp] theorem opcode_setDest : (inst.setDest r).opcode = inst.opcode := rfl
@[simp] theorem operandType_setDest : (inst.setDest r).operandType = inst.operandType := rfl
@[simp] theorem src_setDest : (inst.setDest r).src = inst.src := rfl
@[simp] theorem dest_setDest : (inst.setDest r).dest = r := rfl
@[simp] theorem segDest_setDest : (inst.setDest r).segDest = inst.segDest := rfl
@[simp] theorem opcode_setSegDest : (inst.setSegDest k r).opcode = inst.opcode := rfl
@[simp] theorem operandType_setSegDest :
    (inst.setSegDest k r).operandType = inst.operandType := rfl
@[simp] theorem src_setSegDest : (inst.setSegDest k r).src = inst.src := rfl
@[simp] theorem dest_setSegDest : (inst.setSegDest k r).dest = inst.dest := rfl
@[simp] theorem segDest_setSegDest :
    (inst.setSegDest k r).segDest = Function.update inst.segDest k r := rfl

end Fields

end NdpInstruction

end NdpSim
