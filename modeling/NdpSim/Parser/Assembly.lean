import NdpSim.Library.Numerals
import NdpSim.Parser.Kernel

/-!
# The assembly language

What a line of a kernel means, said apart from the parser: the operands each opcode takes with
each operand type its execution has a case for, how they are written, and the fields of the
instruction that stand for them. Operands fill the source fields in the order they are written in,
behind the destination; an offset follows its base.
-/
namespace NdpSim

open Library Text

/-! ## Operands -/

/-- The registers that are written by name. -/
inductive SpecialReg
  | data | offset | addr | ndpid | vstart
  deriving DecidableEq

inductive Reg
  | x (n : Nat)
  | f (n : Nat)
  | v (n : Nat)
  | special (r : SpecialReg)
  deriving DecidableEq

namespace SpecialReg

def text : SpecialReg → Text
  | data => "DATA".toList
  | offset => "OFFSET".toList
  | addr => "ADDR".toList
  | ndpid => "NDPID".toList
  | vstart => "vstart".toList

def number : SpecialReg → Int
  | data => regRequestData
  | offset => regRequestOffset
  | addr => regAddr
  | ndpid => regNdpId
  | vstart => regVstart

end SpecialReg

namespace Reg

def text : Reg → Text
  | x n => 'x' :: numeral n
  | f n => 'f' :: numeral n
  | v n => 'v' :: numeral n
  | special r => r.text

/-- What an operand field holds for the register. -/
def number : Reg → Int
  | x 0 => regX0
  | x n => regXBase + n
  | f n => regFBase + n
  | v n => regVBase + n
  | special r => r.number

/-- Register numbers travel in 32 bits. -/
def Fits (r : Reg) : Prop := r.number < 2 ^ 32

/-- The number it is written with. -/
def index? : Reg → Option Nat
  | x n | f n | v n => some n
  | special _ => none

end Reg

inductive Operand
  | reg (r : Reg)
  | imm (n : Int)
  | mem (offset : Option Int) (base : Reg)
  | label (l : Label)
  deriving DecidableEq

def Label.text (l : Label) : Text :=
  (if l.skip then ".SKIP".toList else ".LOOP".toList) ++ signedNumeral l.number

/-- The number of a label and the number it goes by are `int`s. -/
def Label.Fits (l : Label) : Prop := -2 ^ 31 ≤ l.number ∧ l.number < 2 ^ 31 ∧ l.key < 2 ^ 31

def Operand.text : Operand → Text
  | reg r => r.text
  | imm n => signedNumeral n
  | mem offset base => (offset.elim [] signedNumeral) ++ '(' :: (base.text ++ [')'])
  | label l => l.text

/-- The destination field, filled by the first operand; a jump has no destination. -/
def Operand.destField : Operand → Int
  | reg r => r.number
  | _ => 0

/-- What can stand at a place of an instruction. -/
inductive Kind
  | reg
  | imm
  /-- `offset(base)` -/
  | mem
  /-- `(base)` -/
  | base
  /-- `offset(base)`, or a register without parentheses -/
  | address
  | label
  deriving DecidableEq

namespace Kind

def accepts : Kind → Operand → Bool
  | reg, .reg _ | imm, .imm _ | mem, .mem _ _ | base, .mem none _ | address, .mem _ _
  | address, .reg _ | label, .label _ => true
  | _, _ => false

/-- The fields an operand fills. -/
def fields : Kind → Operand → List Int
  | address, .reg r => [r.number, 0]
  | base, .mem _ r => [r.number]
  | _, .reg r => [r.number]
  | _, .imm n => [n]
  | _, .mem offset r => [r.number, offset.getD 0]
  | _, .label l => [l.key]

end Kind

/-! ## Forms -/

/-- The operands of an instruction, and whether a mask register may follow them. -/
structure Form where
  operands : List Kind
  masked : Bool
  deriving DecidableEq

/-- The operands are of the given kinds. -/
def Form.accepts (form : Form) (operands : List Operand) : Prop :=
  List.Forall₂ (fun k o => k.accepts o) form.operands operands ∨
    form.masked ∧ List.Forall₂ (fun k o => k.accepts o) (form.operands ++ [.reg]) operands

/-- The fields of every operand. -/
def Form.fields (form : Form) (operands : List Operand) : List (List Int) :=
  List.zipWith Kind.fields (form.operands ++ [.reg]) operands

/-- A mask register follows the operands. -/
def Form.Masks (form : Form) (operands : List Operand) : Prop :=
  form.operands.length < operands.length

/-- Opcodes with operand types, and the form they share. -/
structure Group where
  opcodes : List Opcode
  operandTypes : List OperandType
  form : Form
  deriving DecidableEq

def scalarRegisterOps : List Opcode :=
  [.add, .sub, .mul, .sll, .srl, .div, .rem, .and, .or, .fadd, .fsub, .fmul, .fdiv]

def scalarImmediateOps : List Opcode := [.addi, .muli, .slli, .srli, .andi, .ori, .lbu]

/-- Vector operations on two vectors, and on a vector and a scalar. -/
def arithmeticOps : List Opcode := [.vadd, .vfadd, .vsub, .vfsub, .vmul, .vfmul, .vdiv, .vfdiv]

def compareOps : List Opcode := [.vmseq, .vmsne, .vmslt, .vmsgt, .vmsle, .vmsge]

def reductionOps : List Opcode := [.vredsum, .vredmax, .vredmin, .vredand, .vredor]

def orderedReductionOps : List Opcode := [.vfredosum, .vwredosum, .vfredomax, .vwredomax]

def vectorMemoryOps : List Opcode :=
  [.vle8, .vse8, .vle16, .vse16, .vle32, .vse32, .vle64, .vse64]

def scalarMemoryOps : List Opcode := [.lb, .lw, .ld, .sb, .sd, .sw, .flw, .fsw]

def vectorAmoOps : List Opcode :=
  [.vamoaddei8, .vamoaddei16, .vamoaddei32, .vamoaddei64, .vamoandei16, .vamoandei32,
    .vamoorei16, .vamoorei32, .vamomaxei16, .vamomaxei32, .vamominei16, .vamominei32]

def branchRegisterOps : List Opcode := [.beq, .bgt, .blt, .bne, .ble, .bge]

def branchZeroOps : List Opcode := [.beqz, .bgtz, .bltz, .bnez, .blez, .bgez]

def groups : List Group :=
  let registers : Form := ⟨[.reg, .reg, .reg], false⟩
  let maskedRegisters : Form := ⟨[.reg, .reg, .reg], true⟩
  let immediate : Form := ⟨[.reg, .reg, .imm], false⟩
  let move : Form := ⟨[.reg, .reg], false⟩
  let maskedMove : Form := ⟨[.reg, .reg], true⟩
  let scalarAmo : Form := ⟨[.reg, .reg, .base], false⟩
  [⟨scalarRegisterOps, [.none], registers⟩,
    ⟨arithmeticOps ++ compareOps, [.vv, .vx, .vf], registers⟩,
    ⟨[.vfwmul, .vmin, .vmax, .vfmacc, .vfmsub, .vfwmacc, .vfsgnj, .vfsgnjn, .vfsgnjx],
      [.vv, .vf], registers⟩,
    ⟨[.vsll, .vsra], [.vv, .vx], registers⟩,
    ⟨[.vfwsub, .vrsub, .vfrsub, .vfrdiv], [.vf], registers⟩,
    ⟨[.vnadd], [.wx, .wv], registers⟩,
    ⟨[.vmand, .vmor], [.mm], registers⟩,
    ⟨[.vand], [.vv], registers⟩,
    ⟨[.vcompress], [.vm], registers⟩,
    ⟨[.vslide1down, .vslidedown, .vslide1up, .vslideup], [.vx], registers⟩,
    ⟨orderedReductionOps, [.vs], registers⟩,
    ⟨reductionOps, [.vs], maskedRegisters⟩,
    ⟨[.vor], [.vv], maskedRegisters⟩,
    ⟨scalarImmediateOps, [.none], immediate⟩,
    ⟨arithmeticOps ++ compareOps ++
      [.vrsub, .vfrsub, .vsll, .vsrl, .vsra, .vand, .vor, .vmin, .vmax, .vslidedown, .vslideup],
      [.vi], immediate⟩,
    ⟨[.csrw, .fexp], [.none], move⟩,
    ⟨[.fmv], [.x_w, .w_x], move⟩,
    ⟨[.vmv], [.v_f, .x_s, .s_x], move⟩,
    ⟨[.vmv], [.v_v, .v_x], maskedMove⟩,
    ⟨[.vfmv], [.v_v, .v_x, .v_f, .f_s, .s_f], move⟩,
    ⟨[.vfncvt], [.xu_f_w, .x_f_w, .f_f_w, .f_xu_w, .f_x_w], move⟩,
    ⟨[.vfcvt], [.xu_f_v, .x_f_v, .f_xu_v, .f_x_v], move⟩,
    ⟨[.vfwcvt], [.xu_f_v, .x_f_v, .f_f_v, .f_xu_v, .f_x_v], move⟩,
    ⟨[.vfirst], [.m], move⟩,
    ⟨[.test], [.v_x, .v_f, .vv], move⟩,
    ⟨[.vfsqrt, .vfexp], [.v], maskedMove⟩,
    ⟨[.li, .csrwi], [.none], ⟨[.reg, .imm], false⟩⟩,
    ⟨[.vfmv], [.v_i], ⟨[.reg, .imm], false⟩⟩,
    ⟨[.vmv], [.v_i], ⟨[.reg, .imm], true⟩⟩,
    ⟨[.vid], [.v], ⟨[.reg], true⟩⟩,
    ⟨[.vmset], [.m], ⟨[.reg], false⟩⟩,
    ⟨scalarMemoryOps, [.none], ⟨[.reg, .address], false⟩⟩,
    ⟨vectorMemoryOps, [.v], ⟨[.reg, .address], false⟩⟩,
    ⟨[.vluxei32, .vluxei64, .vsuxei32, .vsuxei64], [.v], ⟨[.reg, .mem, .reg], true⟩⟩,
    ⟨[.vlsseg], [.v], ⟨[.reg, .base, .reg], false⟩⟩,
    ⟨[.amoadd, .amomax, .famomax], [.w, .d], scalarAmo⟩,
    ⟨[.famoadd], [.none, .w, .d], scalarAmo⟩,
    ⟨[.famoaddh], [.none], scalarAmo⟩,
    ⟨vectorAmoOps, [.v], ⟨[.reg, .base, .reg, .reg], true⟩⟩,
    ⟨[.j], [.none], ⟨[.label], false⟩⟩,
    ⟨branchRegisterOps, [.none], ⟨[.reg, .reg, .label], false⟩⟩,
    ⟨branchZeroOps, [.none], ⟨[.reg, .label], false⟩⟩,
    ⟨[.exit], [.none], ⟨[], false⟩⟩]

/-- Every opcode but one has a form. -/
example : ∀ e ∈ opcodeTypeMap, e.2 = .vsetvli ∨ ∃ g ∈ groups, e.2 ∈ g.opcodes := by
  decide +kernel

def Form.IsOf (form : Form) (op : Opcode) (operandType : OperandType) : Prop :=
  ∃ g ∈ groups, op ∈ g.opcodes ∧ operandType ∈ g.operandTypes ∧ g.form = form

/-- Which operands are sources. The first operand of a branch is its first source, and a label is
the third one; a scalar atomic operation reads its destination as well. -/
inductive Arrangement
  | behindDest
  | all
  | branchZero
  | jump
  deriving DecidableEq

/-- The source fields, `none` standing for one that is left alone between others. -/
def Arrangement.arrange {α : Type} (none : α) (fields : List (List α)) : Arrangement → List α
  | behindDest => (fields.drop 1).flatten
  | all => fields.flatten
  | branchZero => (fields.take 1).flatten ++ [none] ++ (fields.drop 1).flatten
  | jump => [none, none] ++ fields.flatten

def arrangementOf (op : Opcode) : Arrangement :=
  if op = .j then .jump
  else if op ∈ branchZeroOps then .branchZero
  else if op ∈ branchRegisterOps ++ [.amoadd, .amomax, .famoadd, .famoaddh, .famomax] then .all
  else .behindDest

/-! ## Mnemonics -/

/-- The suffix an operand type is written with. -/
def OperandType.suffix : OperandType → String
  | .none => "" | .v => "v" | .wv => "wv" | .vv => "vv" | .vi => "vi" | .vx => "vx"
  | .vf => "vf" | .vs => "vs" | .v_v => "v.v" | .v_x => "v.x" | .v_i => "v.i" | .v_f => "v.f"
  | .f_s => "f.s" | .s_f => "s.f" | .xu_f_v => "xu.f.v" | .x_f_v => "x.f.v"
  | .f_xu_v => "f.xu.v" | .f_x_v => "f.x.v" | .f_f_v => "f.f.v" | .f_f_w => "f.f.w"
  | .xu_f_w => "xu.f.w" | .x_f_w => "x.f.w" | .f_xu_w => "f.xu.w" | .f_x_w => "f.x.w"
  | .vm => "vm" | .m => "m" | .mm => "mm" | .x_s => "x.s" | .s_x => "s.x" | .x_w => "x.w"
  | .w_x => "w.x" | .wx => "wx" | .d => "d" | .w => "w"

/-- `vlsseg4e32` and its siblings: the number of segments and the width of the indices. -/
def segmentMnemonics : List (Text × Nat) :=
  (List.range' 1 8).flatMap fun segments =>
    [8, 16, 32, 64].map fun width =>
      ("vlsseg".toList ++ numeral segments ++ 'e' :: numeral width, segments)

/-- The names of an opcode, with the number of segments it loads. -/
def names (op : Opcode) : List (Text × Nat) :=
  if op = .vlsseg then segmentMnemonics
  else (opcodeTypeMap.filter (·.2 = op)).map fun e => (e.1.toList, 0)

def withSuffix (name : Text) (operandType : OperandType) : Text :=
  if operandType = .none then name else name ++ '.' :: operandType.suffix.toList

/-! ## Lines -/

/-- An instruction as it is written. -/
structure Assembly where
  opcode : Opcode
  operandType : OperandType
  name : Text
  segments : Nat
  form : Form
  operands : List Operand
  named : (name, segments) ∈ names opcode
  formed : form.IsOf opcode operandType
  accepted : form.accepts operands

namespace Assembly

variable (a : Assembly)

/-- The line, with `blanks i` additional blanks before operand `i`. -/
def text (blanks : Nat → Nat) : Text :=
  let mnemonic := withSuffix a.name a.operandType
  if a.operands = [] then mnemonic
  else
    mnemonic ++ ' ' :: join ',' (a.operands.mapIdx fun i o =>
      List.replicate (blanks i) ' ' ++ o.text)

def dest : Int :=
  match a.operands with
  | o :: _ => o.destField
  | [] => 0

def sources : List Int :=
  Arrangement.arrange (-1) (a.form.fields a.operands) (arrangementOf a.opcode)

end Assembly

end NdpSim
