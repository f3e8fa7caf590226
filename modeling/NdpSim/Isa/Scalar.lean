import NdpSim.Isa.Access

/-!
# Scalar instructions

`ExecuteScalar` and `ExecuteBranch`. Both are given by opcode and operand type; the families of
instructions that differ only in their arithmetic share one program.
-/
namespace NdpSim

open Library Exec Slot

/-- Two registers into one. -/
def registerOp (f : BitVec 64 → BitVec 64 → Except Fault (BitVec 64)) : Exec Unit := do
  let rs1 ← readX (src 0)
  let rs2 ← readX (src 1)
  writeX dest (← f rs1 rs2)

/-- A register and an immediate into a register. -/
def immediateOp (f : BitVec 64 → BitVec 64 → Except Fault (BitVec 64)) : Exec Unit := do
  let rs1 ← readX (src 0)
  let rs2 ← immediate (src 1)
  writeX dest (← f rs1 rs2)

def signed (f : Int → Int → Except Fault Int) (a b : BitVec 64) : Except Fault (BitVec 64) :=
  BitVec.ofInt 64 <$> f a.toInt b.toInt

/-- `<<` and `>>` of `int64_t`; the right shift keeps the sign. -/
def shl : BitVec 64 → BitVec 64 → Except Fault (BitVec 64) := signed (shiftLeft 64)
def shr : BitVec 64 → BitVec 64 → Except Fault (BitVec 64) := signed (shiftRight 64)

/-- `addr % PACKET_SIZE` of a signed address. -/
def packetOffset (addr : BitVec 64) : Int := addr.toInt.tmod packetSize

/-- The subscript `(addr % PACKET_SIZE) / size`. -/
def elementIndex (addr : BitVec 64) (size : Int) : Except Fault Nat :=
  index ((packetOffset addr).tdiv size)

/-- The base register plus the offset field. -/
def effectiveAddr : Exec (BitVec 64) := do
  let addr ← readX (src 0)
  return addr + (← immediate (src 1))

/-- The packet at `addr`, or an empty vector if there is none. -/
def loadOrEmpty (addr : BitVec 64) : Exec VectorData := do
  let vs := VectorData.ofContext (← csr)
  if ← checkAddr addr then load addr else return vs

variable [FloatOps]

def floatOp (f : F32 → F32 → F32) : Exec Unit := do
  let rs1 ← readF (src 0)
  let rs2 ← readF (src 1)
  writeF dest (f rs1 rs2)

/-- `SW`, `SD` and `FSW` after the stored value has been read. -/
def storeElement (e : Elem) (size : Int) : Exec Unit := do
  let addr ← effectiveAddr
  let vs ← loadOrEmpty addr
  store addr (← vs.setData e (← elementIndex addr size))

/-- The atomic additions on a half-precision element. -/
def famoaddHalf (addr : BitVec 64) (vd : VectorData) : Exec (F32 × VectorData) := do
  let i ← elementIndex addr 2
  let old ← vd.getHalfData i
  let value := FloatOps.add (FloatOps.floatOfHalf old) (← readF (src 1))
  return (value, ← vd.setHalf (FloatOps.halfOfFloat value) i)

def executeScalar (op : Opcode) (operandType : OperandType) : Exec Unit :=
  match op with
  | .add => registerOp fun a b => .ok (a + b)
  | .addi => immediateOp fun a b => .ok (a + b)
  | .sub => registerOp fun a b => .ok (a - b)
  | .mul => registerOp fun a b => .ok (a * b)
  | .muli => immediateOp fun a b => .ok (a * b)
  | .sll => registerOp shl
  | .slli => immediateOp shl
  | .srl => registerOp shr
  | .srli => immediateOp shr
  | .div => registerOp (signed (Elem.divInt 64))
  | .rem => registerOp (signed (ArithOp.rem.onInt 64))
  | .and => registerOp fun a b => .ok (a &&& b)
  | .andi => immediateOp fun a b => .ok (a &&& b)
  | .or => registerOp fun a b => .ok (a ||| b)
  | .ori => immediateOp fun a b => .ok (a ||| b)
  | .csrwi => do
    if (← operand dest) = regVstart then setVstart (toInt (← operand (src 0)))
  | .csrw => do
    if (← operand dest) = regVstart then
      setVstart ((← readX (src 0)).setWidth 32).toInt
    else error "Not supported instruction yet."
  | .li => do writeX dest (← immediate (src 0))
  | .lw => do
    let addr ← effectiveAddr
    let vs ← load addr
    let i ← elementIndex addr 4
    if vs.type ≠ .int32 then .throw .assertion
    writeX dest ((← vs.getIntData i).signExtend 64)
  | .ld => do
    let addr ← effectiveAddr
    let vs ← load addr
    if vs.type ≠ .int64 then .throw .assertion
    writeX dest (← vs.getLongData ((addr - formatAddr addr).toNat / 8))
  | .lbu => do
    let rs1 ← readX (src 0)
    writeX dest ((rs1.setWidth 8).signExtend 64)
  | .sb => do
    let value ← readX dest
    let addr ← effectiveAddr
    let base := BitVec.ofInt 64 (addr.toInt.tdiv packetSize * packetSize)
    let vs ← loadOrEmpty base
    store base (← vs.setU8 (value.setWidth 8) (← index (packetOffset addr)))
  | .sw => do storeElement (.int ((← readX dest).setWidth 32)) 4
  | .sd => do storeElement (.long (← readX dest)) 8
  | .fadd => floatOp FloatOps.add
  | .fsub => floatOp FloatOps.sub
  | .fdiv => floatOp FloatOps.div
  | .fmul => floatOp FloatOps.mul
  | .fmv =>
    match operandType with
    | .x_w => do
      let value ← Elem.truncated 32 (.float (← readF (src 0)))
      writeX dest (BitVec.ofInt 64 value)
    | .w_x => do writeF dest (FloatOps.ofInt (← readX (src 0)).toInt)
    | _ => return
  | .flw => do
    let addr ← effectiveAddr
    let vs ← load addr
    let i ← elementIndex addr 4
    if vs.type ≠ .float32 then .throw .assertion
    writeF dest (← vs.getFloatData i)
  | .fsw => do storeElement (.float (← readF dest)) 4
  | .amoadd => do
    let addr ← readX (src 2)
    let vd ← loadOrEmpty addr
    -- both widths go through an `int`
    let (value, i) ← show Exec (BitVec 32 × Nat) from
      match operandType with
      | .w => do
        let i ← elementIndex addr 4
        return ((← vd.getIntData i) + (← readX (src 1)).setWidth 32, i)
      | .d => do
        let i ← elementIndex addr 8
        return (((← vd.getLongData i) + (← readX (src 1))).setWidth 32, i)
      | _ => error "Unsupported scalar instruction"
    store addr (← vd.setInt value i)
    writeX dest (value.signExtend 64)
  | .famoadd => do
    let addr ← readX (src 2)
    let vd ← loadOrEmpty addr
    let (value, vd) ← show Exec (F32 × VectorData) from
      match operandType with
      | .w => do
        let i ← elementIndex addr 4
        let value := FloatOps.add (← vd.getFloatData i) (← readF (src 1))
        return (value, ← vd.setFloat value i)
      | _ => famoaddHalf addr vd
    store addr vd
    writeF dest value
  | .famoaddh => do
    let addr ← readX (src 2)
    let vd ← loadOrEmpty addr
    let (value, vd) ← famoaddHalf addr vd
    store addr vd
    writeF dest value
  | .amomax => return
  | .fexp => do writeF dest (FloatOps.exp (← readF (src 0)))
  | _ => error "Unsupported scalar instruction"

/-! ## Branches -/

def branchOp : Opcode → Option LogicalOp
  | .beqz | .beq => some .eq
  | .bltz | .blt => some .lt
  | .bgtz | .bgt => some .gt
  | .blez | .ble => some .le
  | .bgez | .bge => some .ge
  | .bnez | .bne => some .ne
  | _ => none

/-- `ExecuteBranch`, returning what it assigns to `doBranch`. -/
def executeBranch (op : Opcode) : Exec Bool :=
  if op = .j then return true
  else do
    let lhs ← readX (src 0)
    match branchOp op with
    | none => error "Unsupported branch instruction"
    | some logical =>
      let rhs ← if [Opcode.beq, .blt, .bgt, .ble, .bge, .bne].contains op then readX (src 1)
        else pure 0
      return logical.operate (lhs.slt rhs) (rhs.slt lhs) (lhs == rhs)

end NdpSim
