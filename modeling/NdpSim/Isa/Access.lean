import NdpSim.Isa.VectorArith
import NdpSim.Library.Effects

/-!
# What an instruction accesses

`Execute` touches the machine through a few calls: registers and immediates named by operand
fields, the vector settings, and the two memory maps. An instruction is a program over these
accesses, written in terms of its operand fields, so that it is the same program before and
after renaming and for every register file.
-/
namespace NdpSim

open Library

/-- An operand field of an instruction. -/
inductive Slot
  | src (i : Fin 5)
  | dest
  | segDest (i : Fin 8)
  deriving DecidableEq

/-- The number in an operand field. -/
def NdpInstruction.operand (inst : NdpInstruction) : Slot → Int
  | .src i => inst.src i
  | .dest => inst.dest
  | .segDest i => inst.segDest i

namespace NdpInstruction

def setOperand (inst : NdpInstruction) : Slot → Int → NdpInstruction
  | .src i, r => inst.setSrc i r
  | .dest, r => inst.setDest r
  | .segDest i, r => inst.setSegDest i r

theorem operand_setOperand (inst : NdpInstruction) (s t : Slot) (r : Int) :
    (inst.setOperand s r).operand t = if t = s then r else inst.operand t := by
  cases s <;> cases t <;>
    simp [setOperand, operand, Function.update_apply, setSrc, setDest, setSegDest]

@[simp] theorem operand_setOperand_self (inst : NdpInstruction) (s : Slot) (r : Int) :
    (inst.setOperand s r).operand s = r := by
  rw [operand_setOperand, if_pos rfl]

end NdpInstruction

inductive Access
  | readX (s : Slot)
  | readF (s : Slot)
  | readV (s : Slot)
  | writeX (s : Slot) (x : BitVec 64)
  | writeF (s : Slot) (x : F32)
  | writeV (s : Slot) (v : VectorData)
  | checkExistRenameVreg (s : Slot)
  /-- The field used as a number. -/
  | operand (s : Slot)
  /-- The field is not `-1`. -/
  | present (s : Slot)
  | csr
  | setVstart (n : Int)
  | setVsew (sew : Vsew)
  | setVlmul (lmul : Vlmul)
  /-- `MemoryMapLoad`, `MemoryMapStore` and `CheckMemoryMap`. -/
  | load (addr : BitVec 64)
  | store (addr : BitVec 64) (v : VectorData)
  | checkAddr (addr : BitVec 64)
  /-- A load whose exceptions are caught. -/
  | tryLoad (addr : BitVec 64)

def Access.Ans : Access → Type
  | readX _ => BitVec 64
  | readF _ => F32
  | readV _ => VectorData
  | writeX _ _ | writeF _ _ | writeV _ _ => Unit
  | checkExistRenameVreg _ => Bool
  | operand _ => Int
  | present _ => Bool
  | csr => CSR
  | setVstart _ | setVsew _ | setVlmul _ => Unit
  | load _ => VectorData
  | store _ _ => Unit
  | checkAddr _ => Bool
  | tryLoad _ => Option VectorData

abbrev accesses : Signature := ⟨Access, Access.Ans⟩

abbrev Exec (α : Type) := Prog accesses Fault α

def formatAddr (addr : BitVec 64) : BitVec 64 := addr &&& ~~~31#64

/-- The packet an access goes to. -/
def Access.packet? : Access → Option (BitVec 64)
  | load addr | store addr _ | checkAddr addr | tryLoad addr => some (formatAddr addr)
  | _ => none

namespace Exec

def access (a : Access) : Exec a.Ans := Prog.perform (S := accesses) a

def readX (s : Slot) : Exec (BitVec 64) := access (.readX s)
def readF (s : Slot) : Exec F32 := access (.readF s)
def readV (s : Slot) : Exec VectorData := access (.readV s)
def writeX (s : Slot) (x : BitVec 64) : Exec Unit := access (.writeX s x)
def writeF (s : Slot) (x : F32) : Exec Unit := access (.writeF s x)
def writeV (s : Slot) (v : VectorData) : Exec Unit := access (.writeV s v)
def checkExistRenameVreg (s : Slot) : Exec Bool := access (.checkExistRenameVreg s)
def operand (s : Slot) : Exec Int := access (.operand s)
def present (s : Slot) : Exec Bool := access (.present s)
def csr : Exec CSR := access .csr
def setVstart (n : Int) : Exec Unit := access (.setVstart n)
def setVsew (sew : Vsew) : Exec Unit := access (.setVsew sew)
def setVlmul (lmul : Vlmul) : Exec Unit := access (.setVlmul lmul)
def load (addr : BitVec 64) : Exec VectorData := access (.load addr)
def store (addr : BitVec 64) (v : VectorData) : Exec Unit := access (.store addr v)
def checkAddr (addr : BitVec 64) : Exec Bool := access (.checkAddr addr)
def tryLoad (addr : BitVec 64) : Exec (Option VectorData) := access (.tryLoad addr)

def error {α : Type} (what : String) : Exec α := .throw (.runtimeError what)

/-- An operand field as a 64-bit immediate. -/
def immediate (s : Slot) : Exec (BitVec 64) := do
  return BitVec.ofInt 64 (← operand s)

section Wp

variable {P : Access → Prop} (s : Slot) (addr : BitVec 64)

@[simp] theorem wp_readX {Q : BitVec 64 → Prop} : (readX s).wp P Q ↔ P (.readX s) ∧ ∀ x, Q x :=
  Iff.rfl

@[simp] theorem wp_readF {Q : F32 → Prop} : (readF s).wp P Q ↔ P (.readF s) ∧ ∀ x, Q x :=
  Iff.rfl

@[simp] theorem wp_readV {Q : VectorData → Prop} : (readV s).wp P Q ↔ P (.readV s) ∧ ∀ v, Q v :=
  Iff.rfl

@[simp] theorem wp_writeX (x : BitVec 64) {Q : Unit → Prop} :
    (writeX s x).wp P Q ↔ P (.writeX s x) ∧ Q () := and_congr_right' ⟨fun h => h (), fun h _ => h⟩

@[simp] theorem wp_writeF (x : F32) {Q : Unit → Prop} :
    (writeF s x).wp P Q ↔ P (.writeF s x) ∧ Q () := and_congr_right' ⟨fun h => h (), fun h _ => h⟩

@[simp] theorem wp_writeV (v : VectorData) {Q : Unit → Prop} :
    (writeV s v).wp P Q ↔ P (.writeV s v) ∧ Q () := and_congr_right' ⟨fun h => h (), fun h _ => h⟩

@[simp] theorem wp_checkExistRenameVreg {Q : Bool → Prop} :
    (checkExistRenameVreg s).wp P Q ↔ P (.checkExistRenameVreg s) ∧ ∀ b, Q b := Iff.rfl

@[simp] theorem wp_operand {Q : Int → Prop} :
    (operand s).wp P Q ↔ P (.operand s) ∧ ∀ n, Q n := Iff.rfl

@[simp] theorem wp_present {Q : Bool → Prop} :
    (present s).wp P Q ↔ P (.present s) ∧ ∀ b, Q b := Iff.rfl

@[simp] theorem wp_csr {Q : CSR → Prop} : csr.wp P Q ↔ P .csr ∧ ∀ c, Q c := Iff.rfl

@[simp] theorem wp_setVstart (n : Int) {Q : Unit → Prop} :
    (setVstart n).wp P Q ↔ P (.setVstart n) ∧ Q () := and_congr_right' ⟨fun h => h (), fun h _ => h⟩

@[simp] theorem wp_setVsew (sew : Vsew) {Q : Unit → Prop} :
    (setVsew sew).wp P Q ↔ P (.setVsew sew) ∧ Q () := and_congr_right' ⟨fun h => h (), fun h _ => h⟩

@[simp] theorem wp_setVlmul (lmul : Vlmul) {Q : Unit → Prop} :
    (setVlmul lmul).wp P Q ↔ P (.setVlmul lmul) ∧ Q () :=
  and_congr_right' ⟨fun h => h (), fun h _ => h⟩

@[simp] theorem wp_load {Q : VectorData → Prop} :
    (load addr).wp P Q ↔ P (.load addr) ∧ ∀ v, Q v := Iff.rfl

@[simp] theorem wp_store (v : VectorData) {Q : Unit → Prop} :
    (store addr v).wp P Q ↔ P (.store addr v) ∧ Q () :=
  and_congr_right' ⟨fun h => h (), fun h _ => h⟩

@[simp] theorem wp_checkAddr {Q : Bool → Prop} :
    (checkAddr addr).wp P Q ↔ P (.checkAddr addr) ∧ ∀ b, Q b := Iff.rfl

@[simp] theorem wp_tryLoad {Q : Option VectorData → Prop} :
    (tryLoad addr).wp P Q ↔ P (.tryLoad addr) ∧ ∀ v, Q v := Iff.rfl

@[simp] theorem wp_error {α : Type} {Q : α → Prop} (what : String) :
    (error what : Exec α).wp P Q := trivial

@[simp] theorem wp_immediate {Q : BitVec 64 → Prop} :
    (immediate s).wp P Q ↔ P (.operand s) ∧ ∀ n, Q (BitVec.ofInt 64 n) := Iff.rfl

end Wp

end Exec

end NdpSim
