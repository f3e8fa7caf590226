import NdpSim.Isa.Scalar

/-!
# Vector instructions

`ExecuteVector`, one program per family of opcodes. Each reads its operands, computes without
touching the machine, and writes its destination; only the memory operations and a few others
access the machine inside their loops.
-/
namespace NdpSim

open Library Exec Slot

def unsupported {α : Type} : Exec α := error "Unsupported vector instruction"

/-- `int32_t x = src[i]` -/
def immediate32 (s : Slot) : Exec (BitVec 32) := do
  return (← immediate s).setWidth 32

/-! ## Settings -/

def vsewOf (imm : Int) : Option Vsew :=
  if imm = immE8 then some .e8
  else if imm = immE16 then some .e16
  else if imm = immE32 then some .e32
  else if imm = immE64 then some .e64
  else none

def vlmulOf (imm : Int) : Option Vlmul :=
  if imm = immM1 then some .m1
  else if imm = immM2 then some .m2
  else if imm = immM4 then some .m4
  else if imm = immM8 then some .m8
  else if imm = immMF2 then some .mf2
  else if imm = immMF4 then some .mf4
  else if imm = immMF8 then some .mf8
  else none

def executeVsetvli : Exec Unit := do
  match vsewOf (← operand (src 1)) with
  | some sew => setVsew sew
  | none => error "Not implemented vtype_vsew"
  match vlmulOf (← operand (src 2)) with
  | some lmul => setVlmul lmul
  | none => error "Not implemented vtype_vlmul"

variable [FloatOps]

/-! ## Arithmetic -/

/-- The right operand of an arithmetic operation. -/
structure Forms where
  vv : VectorData → Except Fault VectorData
  vx : BitVec 64 → Except Fault VectorData
  vi : BitVec 32 → Except Fault VectorData
  vf : F32 → Except Fault VectorData

/-- Read the right operand as the operand type says, compute, and write the destination. -/
def arithmetic (operandType : OperandType) (forms : VectorData → Forms) : Exec Unit := do
  let vs1 ← readV (src 0)
  let vd ← show Exec VectorData from
    match operandType with
    | .vv => do (forms vs1).vv (← readV (src 1))
    | .vx => do (forms vs1).vx (← readX (src 1))
    | .vi => do (forms vs1).vi (← immediate32 (src 1))
    | .vf => do (forms vs1).vf (← readF (src 1))
    | _ => unsupported
  writeV dest vd

/-- The floating type of the current element width; everything but 32 bits counts as half. -/
def floatType (sew : Vsew) : DataType := if sew = .e32 then .float32 else .float16

/-- The type an operand is given by some operations before they compute. -/
def retyped (op : Opcode) (sew : Vsew) (v : VectorData) : VectorData :=
  v.setType (if op.checkFloatOp then floatType sew else .int32)

def executeVadd (operandType : OperandType) : Exec Unit :=
  arithmetic operandType fun vs1 =>
    { vv := vs1.add
      vx := fun x => vs1.addInt (.long x)
      vi := fun x => vs1.addInt (.int x)
      vf := vs1.addFloat }

def executeVsub (op : Opcode) (operandType : OperandType) : Exec Unit := do
  let sew := (← csr).vtypeVsew
  let retype (v : VectorData) := if op.checkFloatOp then v.setType (floatType sew) else v
  arithmetic operandType fun vs1 =>
    let vs1 := retype vs1
    { vv := fun vs2 => vs1.sub (retype vs2)
      vx := fun x => vs1.subInt (x.setWidth 32)
      vi := fun x => vs1.subInt x
      vf := fun x => (if sew = .e16 then vs1.setType .float16 else vs1).subFloat x }

def executeVmul (operandType : OperandType) : Exec Unit :=
  arithmetic operandType fun vs1 =>
    { vv := vs1.mul
      vx := fun x => vs1.mulInt (x.setWidth 32)
      vi := fun x => vs1.mulInt x
      vf := vs1.mulFloat }

def executeVdiv (op : Opcode) (operandType : OperandType) : Exec Unit := do
  let sew := (← csr).vtypeVsew
  arithmetic operandType fun vs1 =>
    let vs1 := retyped op sew vs1
    { vv := vs1.div
      vx := fun x => vs1.divInt (x.setWidth 32)
      vi := fun x => vs1.divInt x
      vf := vs1.divFloat }

/-- The vector is the second operand; the first is an immediate or a floating register. -/
def executeVrsub (op : Opcode) (operandType : OperandType) : Exec Unit := do
  let sew := (← csr).vtypeVsew
  let vs2 ← readV (src 1)
  let vs2 := retyped op sew vs2
  let vd ← show Exec VectorData from
    match operandType with
    | .vi => do VectorData.intSub (← immediate32 (src 0)) vs2
    | .vf => do VectorData.floatSub (← readF (src 0)) vs2
    | _ => unsupported
  writeV dest vd

def executeVfrdiv (operandType : OperandType) : Exec Unit := do
  let vs1 ← readV (src 0)
  let f2 ← readF (src 1)
  if operandType = .vf then writeV dest (← VectorData.floatDiv f2 vs1)
  else unsupported

/-- Half-precision elements as single-precision ones in a register pair. -/
def widened (vd : VectorData) (is : List Nat) (vs : VectorData) : Except Fault VectorData :=
  vd.setLanes is fun i => do return some (.float (FloatOps.floatOfHalf (← vs.getHalfData i)))

def executeVfwsub (operandType : OperandType) : Exec Unit := do
  let c ← csr
  let vs1 ← readV (src 0)
  if vs1.type ≠ .float16 then .throw .assertion
  let temp ← widened ((VectorData.ofContext c).setVectorDoubleReg.setType .float32)
    (lanes c.vstart vs1.vlen) vs1
  match operandType with
  | .vf => do writeV dest (← temp.subFloat (← readF (src 1)))
  | _ => error "Unsupported vector instruction yet"

def executeVfwmul (operandType : OperandType) : Exec Unit := do
  let c ← csr
  let vs1 ← readV (src 0)
  let widen (temp : VectorData) :=
    widened (VectorData.ofContext c).setVectorDoubleReg (List.range temp.vlen) temp
  match operandType with
  | .vv => do
    let vs2 ← readV (src 1)
    if vs1.type ≠ vs2.type then error "VFWMUL must use same typed operands"
    else if vs1.type ≠ .float16 then error "Unsupported source operand type"
    else writeV dest (← widen (← vs1.mul vs2))
  | .vf => do
    let f2 ← readF (src 1)
    if vs1.type ≠ .float16 then error "Unsupported source operand type"
    else writeV dest (← widen (← vs1.mulFloat f2))
  | _ => unsupported

/-- Shift `e` in the width its type is promoted to. -/
def shifted (shift : Nat → Int → Int → Except Fault Int) (t : DataType) (e : Elem) (n : Int) :
    Except Fault Elem := do
  let r ← shift (if t = .int64 then 64 else 32) e.toInteger n
  Elem.cast t (.long (BitVec.ofInt 64 r))

def executeVsll (operandType : OperandType) : Exec Unit := do
  let c ← csr
  let vs2 ← readV (src 0)
  let vd := VectorData.ofContext c
  let shiftBy (amount : Nat → Except Fault Int) :=
    vd.setLanes (lanes c.vstart vd.vlen) fun i =>
      if [DataType.int64, .int32, .int16].contains vs2.type then do
        return some (← shifted shiftLeft vs2.type (← vs2.get vs2.type i) (← amount i))
      else return none
  match operandType with
  | .vv => do
    let vs1 ← readV (src 1)
    writeV dest (← shiftBy fun i => Elem.toInteger <$> vs1.get vs2.type i)
  | .vx => do
    let rs1 ← readX (src 1)
    writeV dest (← shiftBy fun _ => .ok rs1.toInt)
  | .vi => do
    let uimm ← immediate32 (src 1)
    writeV dest (← shiftBy fun _ => .ok uimm.toNat)
  | _ => unsupported

def executeVsrl (operandType : OperandType) : Exec Unit := do
  let c ← csr
  match operandType with
  | .vi => do
    let uimm ← immediate32 (src 1)
    let vs2 ← readV (src 0)
    let vd := VectorData.ofContext c
    let vd ← vd.setLanes (lanes c.vstart vd.vlen) fun i =>
      if [DataType.int64, .int32, .int16].contains vs2.type then do
        return some (← shifted shiftRight vs2.type (← vs2.get vs2.type i) uimm.toNat)
      else if vs2.type = .uint8 then do
        -- an `int8_t` is stored as an `int`
        let r ← shiftRight 32 (← vs2.getU8Data i).toNat uimm.toNat
        return some (.int ((BitVec.ofInt 8 r).signExtend 32))
      else return none
    writeV dest vd
  | _ => return

def executeVnadd (operandType : OperandType) : Exec Unit := do
  let c ← csr
  let vs2 ← readV (src 0)
  let vd := VectorData.ofContext c
  match operandType with
  | .wx => do
    let rs1 ← readX (src 1)
    let vd ← vd.setLanes (lanes c.vstart vd.vlen) fun i =>
      match vs2.type with
      | .int64 => do return some (.int ((rs1.setWidth 32).signExtend 64 +
          (← vs2.getLongData i) |>.setWidth 32))
      | .int32 => do return some (.short ((rs1.setWidth 32 + (← vs2.getIntData i)).setWidth 16))
      | _ => return none
    writeV dest vd
  | .wv => writeV dest vd
  | _ => unsupported

/-- Accumulation; the first source is read twice. -/
def executeVfmacc (operandType : OperandType) : Exec Unit := do
  let vs1 ← readV (src 0)
  let _ ← readV (src 0)
  let vd ← readV dest
  let vd ← show Exec VectorData from
    match operandType with
    | .vv => do (← vs1.mul (← readV (src 1))).add vd
    | .vf => do (← vs1.mulFloat (← readF (src 1))).add vd
    | _ => unsupported
  writeV dest vd

def executeVfmsub (operandType : OperandType) : Exec Unit := do
  let vs1 ← readV (src 1)
  let _ ← readV (src 1)
  let vd ← readV dest
  let vd ← show Exec VectorData from
    match operandType with
    | .vv => do (← vd.mul (← readV (src 0))).sub vs1
    | .vf => do (← vd.mulFloat (← readF (src 0))).sub vs1
    | _ => unsupported
  writeV dest vd

def executeVfwmacc (operandType : OperandType) : Exec Unit := do
  let c ← csr
  if c.vtypeVsew = .e32 then error "VFWMACC must use double dest register"
  else do
    let vs1 ← readV (src 0)
    let _ ← readV (src 0)
    let vd ← readV dest
    match operandType with
    | .vv => do
      let vs2 ← readV (src 1)
      if vs1.type ≠ vs2.type then error "VFWMACC must use same typed operands"
      else
        match vs1.type with
        | .float16 => do writeV dest (← (vd.setType .float32).add (← vs1.mul vs2))
        | .int16 => do writeV dest (← (vd.setType .int32).add (← vs1.mul vs2))
        | _ => error "Not supported type"
    | .vf =>
      if vs1.type ≠ .float16 ∧ vd.type ≠ .float32 then
        error "VFWMACC.vf must use half typed operands"
      else do
        let f2 ← readF (src 1)
        let temp := (VectorData.ofSewLmul 32 (c.vtypeVlmul.eighths * 2)).setType .float32
        let temp ← temp.setLanes (List.range vd.vlen) fun i => do
          let product := FloatOps.mul (FloatOps.floatOfHalf (← vs1.getHalfData i)) f2
          return some (.float (FloatOps.add (← vd.getFloatData i) product))
        writeV dest temp
    | _ => unsupported

def executeVfsqrt (operandType : OperandType) : Exec Unit := do
  let c ← csr
  let vs1 ← readV (src 0)
  match operandType with
  | .v => do
    let vd ← (VectorData.ofContext c).setLanes (lanes c.vstart vs1.vlen) fun i =>
      match vs1.type with
      | .float32 => do return some (.float (FloatOps.sqrt (← vs1.getFloatData i)))
      | .float16 => do return some (.half (FloatOps.halfSqrt (← vs1.getHalfData i)))
      | _ => return none
    writeV dest vd
  | _ => unsupported

def executeVfexp (operandType : OperandType) : Exec Unit := do
  let c ← csr
  let vs1 ← readV (src 0)
  match operandType with
  | .v => do writeV dest (← ((VectorData.ofContext c).setType vs1.type).exp vs1)
  | _ => unsupported

/-! ## Sign injection -/

def fabs (x : F32) : F32 := x &&& 0x7fffffff#32

/-- `negative ? -1 * abs(f) : abs(f)` -/
def withSign (negative : Bool) (x : F32) : F32 :=
  if negative then FloatOps.mul (FloatOps.ofInt (-1)) (fabs x) else fabs x

/-- The sign of the result from the signs of the two operands. -/
def signRule : Opcode → Bool → Bool → Bool
  | .vfsgnjn, _, msb2 => !msb2
  | .vfsgnjx, msb1, msb2 => msb1 ^^ msb2
  | _, _, msb2 => msb2

def injectSign (op : Opcode) (a b : Elem) : Elem :=
  let zero : F32 := FloatOps.ofInt 0
  let r := withSign (signRule op (FloatOps.lt a.toFloat zero) (FloatOps.lt b.toFloat zero))
    a.toFloat
  match a with
  | .half _ => .half (FloatOps.halfOfFloat r)
  | _ => .float r

def executeVfsgnj (op : Opcode) (operandType : OperandType) : Exec Unit :=
  match operandType with
  | .vv => do
    let vs1 ← readV (src 0)
    let vs2 ← readV (src 1)
    let c ← csr
    let vd := VectorData.ofContext c
    let vd ← vd.setLanes (lanes c.vstart vd.vlen) fun i =>
      if [DataType.float32, .float16].contains vs1.type then do
        return some (injectSign op (← vs1.get vs1.type i) (← vs2.get vs1.type i))
      else throw (.runtimeError "Unsupported vector instruction")
    writeV dest vd
  | .vf => do
    let vs1 ← readV (src 0)
    let c ← csr
    let vd := VectorData.ofContext c
    -- the scalar is read again in every lane
    let vd ← (lanes c.vstart vd.vlen).foldlM (fun vd i =>
      if vs1.type = .float32 then do
        let a ← vs1.getFloatData i
        let b ← readF (src 1)
        vd.setData (injectSign op (.float a) (.float b)) i
      else unsupported) vd
    writeV dest vd
  | _ => unsupported

/-! ## Moves -/

/-- The destination's old value if the register is in use, else an empty vector. -/
def oldDest (c : CSR) : Exec VectorData := do
  if ← checkExistRenameVreg dest then readV dest else return VectorData.ofContext c

/-- The mask operand, and whether there is one. -/
def maskOperand (s : Slot) : Exec (Bool × VectorData) := do
  if ← present s then do return (true, ← readV s)
  else return (false, VectorData.default)

/-- Set every lane that is not masked off. -/
def setUnmasked (vd : VectorData) (c : CSR) (mask : Bool × VectorData)
    (set : VectorData → Nat → Except Fault VectorData) : Except Fault VectorData :=
  (lanes c.vstart vd.vlen).foldlM (fun vd i => do
    let active ← mask.2.getVmaskData i
    if !active && mask.1 then return vd else set vd i) vd

def integerType : Vsew → DataType
  | .e8 => .char8
  | .e16 => .int16
  | .e32 => .int32
  | .e64 => .int64

/-- `vmv.v.i` with 8-bit elements writes its byte three times under three types. -/
def setImmediate (sew : Vsew) (x : BitVec 64) (vd : VectorData) (i : Nat) :
    Except Fault VectorData := do
  match sew with
  | .e8 =>
    let vd ← vd.setBool (x ≠ 0) i
    let vd ← vd.setChar (x.setWidth 8) i
    let vd ← vd.setU8 (x.setWidth 8) i
    return (vd.setType .bool).setType .uint8
  | _ => vd.setData (← Elem.cast (integerType sew) (.long x)) i

/-- The element `vstart` of a vector as an x register value. -/
def elementToX (c : CSR) (v : VectorData) : Except Fault (Option (BitVec 64)) :=
  match v.type with
  | .vmask =>
    if c.vtypeVsew = .e8 then do
      return some ((← v.getVmaskAsByte (8 * (← index c.vstart))).setWidth 64)
    else throw (.runtimeError "Not supported vmask type yet")
  | .float16 | .float32 | .int16 | .int32 | .int64 | .char8 => do
    let e ← v.get v.type (← index c.vstart)
    return some (BitVec.ofInt 64 (← e.truncated 64))
  | _ => return none

/-- Element types a scalar can be moved into. -/
def movable : List DataType := [.float16, .float32, .int16, .int32, .int64, .char8]

def executeVmv (operandType : OperandType) : Exec Unit := do
  let c ← csr
  let vm ← maskOperand (src 1)
  match operandType with
  | .v_v => do
    let _ ← oldDest c
    writeV dest (← readV (src 0))
  | .v_i => do
    let inUse ← checkExistRenameVreg dest
    let vd ← show Exec VectorData from
      if inUse && vm.1 then readV dest else return VectorData.ofContext c
    let x1 ← immediate (src 0)
    writeV dest (← setUnmasked vd c vm (setImmediate c.vtypeVsew x1))
  | .v_x => do
    let vd ← oldDest c
    let x1 ← readX (src 0)
    writeV dest (← setUnmasked vd c vm fun vd i => do
      vd.setData (← Elem.cast (integerType c.vtypeVsew) (.long x1)) i)
  | .v_f => do
    -- `VMV` is no floating operation, so this form always throws
    let _ ← oldDest c
    error "VFMV must use float dest register"
  | .x_s => do
    match ← elementToX c (← readV (src 0)) with
    | some x => writeX dest x
    | none => return
  | .s_x => do
    let vd ← readV dest
    let vd ← show Exec VectorData from
      if movable.contains vd.type then do
        let x ← readX (src 0)
        vd.setData (← Elem.cast vd.type (.long x)) (← index c.vstart)
      else return vd
    writeV dest vd
  | _ => unsupported

/-- Every lane is one word, or one word of two halves. -/
def splatFloat (c : CSR) (x : F32) (vd : VectorData) : Except Fault VectorData :=
  (lanes c.vstart vd.vlen).foldlM (fun (vd : VectorData) i =>
    if c.vtypeVsew = .e32 then vd.setFloat x i
    else do
      let vd ← vd.setHalf (FloatOps.halfOfFloat x) (2 * i)
      vd.setHalf (FloatOps.halfOfFloat x) (2 * i + 1)) vd

def executeVfmv (operandType : OperandType) : Exec Unit := do
  let c ← csr
  let word := c.vtypeVsew = .e32
  match operandType with
  | .v_v => do
    -- the moved value is never written
    let _ ← readV (src 0)
    return
  | .v_i => do
    let _ ← operand (src 0)
    return
  | .v_x => do
    let x1 ← readX (src 0)
    let vd := VectorData.ofContext c
    let _ ← vd.setLanes (lanes c.vstart vd.vlen) fun _ => return some (.int (x1.setWidth 32))
    return
  | .v_f => do
    let vd ← oldDest c
    let f2 ← readF (src 0)
    let vd ← splatFloat c f2 vd
    writeV dest (vd.setType (floatType c.vtypeVsew))
  | .f_s => do
    let vs ← readV (src 0)
    match vs.type with
    | .float32 => do writeF dest (← vs.getFloatData (← index c.vstart))
    | .float16 => do
      writeF dest (FloatOps.floatOfHalf (← vs.getHalfData (← index c.vstart)))
    | _ => return
  | .s_f => do
    let vd ← readV dest
    let f2 ← readF (src 0)
    let e : Elem := if word then .float f2 else .half (FloatOps.halfOfFloat f2)
    writeV dest (← vd.setData e (← index c.vstart))
  | _ => return

/-! ## Conversions -/

/-- `(uint16_t)` of a float; the result is stored as an `int`. -/
def toUint16 (x : F32) : Except Fault Elem :=
  match FloatOps.toInt x with
  | some n => if 0 ≤ n ∧ n < 65536 then .ok (.int (BitVec.ofInt 32 n)) else .error .undefined
  | none => .error .undefined

def executeVfncvt (operandType : OperandType) : Exec Unit := do
  let c ← csr
  let vs ← readV (src 0)
  let precision := if vs.type = .int32 ∨ vs.type = .float32 then 4 else 2
  let vd := VectorData.ofDouble (32 < precision * vs.vlen)
  let vd ← vd.setLanes (lanes c.vstart vd.vlen) fun i =>
    match operandType with
    | .xu_f_w | .x_f_w => do return some (← toUint16 (← vs.getFloatData i))
    | .f_f_w => do return some (.half (FloatOps.halfOfFloat (← vs.getFloatData i)))
    | .f_xu_w | .f_x_w => do return some (.half (Elem.int (← vs.getIntData i)).toHalf)
    | _ => return none
  writeV dest vd

def executeVfcvt (operandType : OperandType) : Exec Unit := do
  let c ← csr
  let vs ← readV (src 0)
  let vd := VectorData.ofContext c
  let vd ← vd.setLanes (lanes c.vstart vd.vlen) fun i =>
    match operandType with
    | .f_xu_v | .f_x_v =>
      if vs.type = .int32 then do return some (.float (Elem.int (← vs.getIntData i)).toFloat)
      else do return some (.half (Elem.short (← vs.getShortData i)).toHalf)
    | .xu_f_v | .x_f_v => do return some (← Elem.cast .int32 (.float (← vs.getFloatData i)))
    | _ => return none
  writeV dest vd

def executeVfwcvt (operandType : OperandType) : Exec Unit := do
  let c ← csr
  let vs ← readV (src 0)
  let vd := (VectorData.ofContext c).setVectorDoubleReg
  let vd ← vd.setLanes (lanes c.vstart vd.vlen) fun i =>
    match operandType with
    | .f_xu_v | .f_x_v =>
      if vs.type = .int32 then do return some (.float (Elem.int (← vs.getIntData i)).toFloat)
      else do return some (.float (Elem.short (← vs.getShortData i)).toFloat)
    | .f_f_v => do return some (.float (FloatOps.floatOfHalf (← vs.getHalfData i)))
    | .xu_f_v | .x_f_v => do return some (← Elem.cast .int32 (.float (← vs.getFloatData i)))
    | _ => return none
  writeV dest vd

/-! ## Masks -/

def setMask (v : VectorData) (is : List Nat) (f : Nat → Except Fault Bool) :
    Except Fault VectorData :=
  is.foldlM (fun v i => do v.setVmask (← f i) i) v

def executeVid : Exec Unit := do
  let c ← csr
  let vd := VectorData.ofContext c
  let t : DataType := if c.vtypeVsew = .e8 then .uint8 else integerType c.vtypeVsew
  writeV dest (← vd.setLanes (lanes c.vstart vd.vlen) fun i => do
    return some (← Elem.cast t (.long (BitVec.ofNat 64 i))))

def executeVmset : Exec Unit := do
  let c ← csr
  let vd := VectorData.ofContext c
  writeV dest (← setMask vd (lanes c.vstart vd.vlen) fun _ => .ok true)

def logicalOpOf : Opcode → Option LogicalOp
  | .vmseq => some .eq
  | .vmsne => some .ne
  | .vmslt => some .lt
  | .vmsle => some .le
  | .vmsgt => some .gt
  | .vmsge => some .ge
  | _ => none

def integerTypes : List DataType := [.int64, .int32, .int16, .char8, .uint8, .bool]

def executeCompare (logical : LogicalOp) (operandType : OperandType) : Exec Unit := do
  let c ← csr
  let vs1 ← readV (src 0)
  let vd := VectorData.ofContext c
  let is := lanes c.vstart vd.vlen
  let against (e : Elem) : Exec VectorData := do
    let rhs ← e.cast vs1.type
    setMask vd is fun i => do return logicalOperate logical (← vs1.get vs1.type i) rhs
  let floating := [DataType.float32, .float16].contains vs1.type
  let vd ← show Exec VectorData from
    match operandType with
    | .vv => do
      let vs2 ← readV (src 1)
      setMask vd is fun i => do
        if ¬ (floating || integerTypes.contains vs1.type) then
          throw (.runtimeError "Unsupported type.")
        return logicalOperate logical (← vs1.get vs1.type i) (← vs2.get vs1.type i)
    | .vi => do
      let x2 ← immediate (src 1)
      if integerTypes.contains vs1.type then against (.long x2)
      else if floating then error "Immediate value cannot be Float type."
      else error "Unsupported type."
    | .vx =>
      if integerTypes.contains vs1.type then do against (.long (← readX (src 1)))
      else if floating then error "Operand type VX is not for Float type."
      else error "Unsupported type."
    | .vf =>
      if floating then do against (.float (← readF (src 1))) else error "Unsupported type."
    | _ => return vd
  writeV dest vd

/-- `vmand.mm` and `vmor.mm` -/
def executeMaskLogic (f : Bool → Bool → Bool) (operandType : OperandType) : Exec Unit := do
  let c ← csr
  let vs1 ← readV (src 0)
  let vd := VectorData.ofContext c
  match operandType with
  | .mm => do
    let vs2 ← readV (src 1)
    let vd ← setMask vd (lanes c.vstart vd.vlen) fun i => do
      return f (← vs1.getVmaskData i) (← vs2.getVmaskData i)
    writeV dest (vd.setType .vmask)
  | _ => error "VMAND must use mm operand_type"

/-- The first set bit from `vstart` on. -/
def firstSet (v : VectorData) : List Nat → Except Fault Int
  | [] => .ok (-1)
  | i :: is => do
    if ← v.getVmaskData i then return i else firstSet v is

def executeVfirst : Exec Unit := do
  let c ← csr
  let vs0 ← readV (src 0)
  if vs0.type ≠ .vmask then .throw .assertion
  writeX dest (BitVec.ofInt 64 (← firstSet vs0 (lanes c.vstart vs0.vlen)))

/-! ## Bitwise operations, minimum and maximum -/

def executeVand (operandType : OperandType) : Exec Unit := do
  let c ← csr
  let vs1 ← readV (src 0)
  let vd := VectorData.ofContext c
  let is := lanes c.vstart vd.vlen
  let vd ← show Exec VectorData from
    match operandType with
    | .vv => do
      let vs2 ← readV (src 1)
      vd.setLanes is fun i =>
        match vs1.type with
        | .int32 => do return some (.int ((← vs1.getIntData i) &&& (← vs2.getIntData i)))
        | .int64 => do return some (.long ((← vs1.getLongData i) &&& (← vs2.getLongData i)))
        | .float32 => do
          let product := FloatOps.mul (← vs1.getFloatData i) (← vs2.getFloatData i)
          return some (← Elem.cast .int32 (.float product))
        | .bool => do return some (.bool ((← vs1.getBoolData i) && (← vs2.getBoolData i)))
        | _ => return none
    | .vi => do
      let x2 ← immediate32 (src 1)
      vd.setLanes is fun i =>
        match c.vtypeVsew with
        | .e32 => do return some (.int ((← vs1.getIntData i) &&& x2))
        | .e64 => do return some (.long ((← vs1.getLongData i) &&& x2.signExtend 64))
        | .e16 => do return some (.short ((← vs1.getShortData i) &&& x2.setWidth 16))
        -- an `int8_t` is stored as an `int`
        | .e8 => do
          return some (.int (((← vs1.getCharData i) &&& x2.setWidth 8).signExtend 32))
    | _ => return vd
  writeV dest vd

def executeVor (operandType : OperandType) : Exec Unit := do
  let c ← csr
  let vs1 ← readV (src 0)
  let vd ← readV dest
  let one : F32 := FloatOps.ofInt 1
  let vd ← show Exec VectorData from
    match operandType with
    | .vv => do
      let vs2 ← readV (src 1)
      let vm ← readV (src 2)
      vd.setLanes (lanes c.vstart vd.vlen) fun i => do
        if ¬ (← vm.getVmaskData i) then return none
        match vs1.type with
        | .int32 =>
          let r := (← vs1.getIntData i) == 1 || (← vs2.getIntData i) == 1
          return some (.int (BitVec.ofBool r |>.setWidth 32))
        | .float32 =>
          let r := FloatOps.eq (← vs1.getFloatData i) one || FloatOps.eq (← vs2.getFloatData i) one
          return some (.int (BitVec.ofBool r |>.setWidth 32))
        | .bool => return some (.bool ((← vs1.getBoolData i) || (← vs2.getBoolData i)))
        | _ => return none
    | .vi => do
      let _ ← operand (src 1)
      return vd
    | _ => return vd
  writeV dest vd

def minMaxTypes : List DataType := [.int32, .float32, .float16, .char8]

/-- `VMIN` looks at the type of its second operand, `VMAX` at the type of its first. -/
def executeMinMax (isMin : Bool) (operandType : OperandType) : Exec Unit := do
  let c ← csr
  let vs1 ← readV (src 0)
  let vd := if isMin then (VectorData.ofDouble (c.vtypeVlmul = .m2)).setType .int32
    else VectorData.ofContext c
  let vd ← show Exec VectorData from
    match operandType with
    | .vv => do
      let vs2 ← readV (src 1)
      let t := if isMin then vs2.type else vs1.type
      vd.setLanes (lanes c.vstart vd.vlen) fun i =>
        if minMaxTypes.contains t then do
          let a ← vs1.get t i
          let b ← vs2.get t i
          return some (if logicalOperate (if isMin then .lt else .gt) a b then a else b)
        else return none
    | .vi | .vf => return vd
    | _ => unsupported
  writeV dest vd

/-! ## Permutations -/

/-- The selected elements packed from `vstart` on, then the rest cleared. -/
def compressed (c : CSR) (vs1 vs2 : VectorData) : Except Fault VectorData := do
  let (vd, j) ← (lanes c.vstart vs1.vlen).foldlM (fun ((vd, j) : VectorData × Int) i => do
    if ← vs2.getVmaskData i then
      return (← vd.setInt (← vs1.getIntData i) (← index j), j + 1)
    else return (vd, j)) (VectorData.ofContext c, c.vstart)
  vd.setLanes (lanes j vd.vlen) fun _ => return some (.int 0)

def executeVcompress (operandType : OperandType) : Exec Unit := do
  let c ← csr
  let vs1 ← readV (src 0)
  match operandType with
  | .vm => do writeV dest (← compressed c vs1 (← readV (src 1)))
  | _ => unsupported

/-- `unsigned` subtraction. -/
def wrappedSub (a : Nat) (b : Int) : Nat := ((a - b) % 2 ^ 32).toNat

def slideTypes : List DataType := [.float16, .float32, .int16, .int32, .int64, .char8]

def executeVslide1down : Exec Unit := do
  let c ← csr
  let vs1 ← readV (src 0)
  let vd := VectorData.ofContext c
  let t := vs1.type
  if slideTypes.contains t then do
    let last := wrappedSub vd.vlen 1
    let vd ← vd.setLanes (lanes c.vstart last) fun i => do return some (← vs1.get t (i + 1))
    let x ← readX (src 1)
    let vd ← vd.setData (← Elem.cast t (.long x)) last
    writeV dest (vd.setType t)
  else writeV dest vd

/-- The vacated words are cleared as integers, from the end. -/
def clearTail (vd : VectorData) (move : Nat) : Except Fault VectorData :=
  (List.range' 1 move).foldlM (fun (vd : VectorData) i =>
    if vd.vlen < i then .error .assertion else vd.setInt 0 (vd.vlen - i)) vd

def executeVslidedown (operandType : OperandType) : Exec Unit := do
  let c ← csr
  let vs1 ← readV (src 0)
  let vd := VectorData.ofContext c
  let move ← show Exec (BitVec 32) from
    match operandType with
    | .vx => do return (← readX (src 1)).setWidth 32
    | .vi => immediate32 (src 1)
    | _ => error "Unsupported operand type"
  let move := move.toInt
  let t := vs1.type
  if [DataType.float16, .float32, .int16, .int32, .char8].contains t then do
    let vd ← vd.setLanes (lanes c.vstart (wrappedSub vd.vlen move)) fun i => do
      return some (← vs1.get t (← index (i + move)))
    writeV dest ((← clearTail vd move.toNat).setType t)
  else writeV dest vd

def shiftedUp (t : DataType) (is : List Nat) (vs1 vd : VectorData) : Except Fault VectorData :=
  is.foldlM (fun (vd : VectorData) i => do vd.setData (← vs1.get t i) (i + 1)) vd

def executeVslide1up : Exec Unit := do
  let c ← csr
  let vs1 ← readV (src 0)
  let vd := VectorData.ofContext c
  let t := vs1.type
  if slideTypes.contains t then do
    let vd ← shiftedUp t (lanes c.vstart (wrappedSub vd.vlen 1)) vs1 vd
    let x ← readX (src 1)
    let vd ← vd.setData (← Elem.cast t (.long x)) 0
    writeV dest (vd.setType t)
  else writeV dest vd

/-! ## Reductions -/

/-- Fold the active elements of `vs1` into element 0 of `vs2`. -/
def reduce (t : DataType) (step : Elem → Elem → Except Fault Elem)
    (active : Nat → Except Fault Bool) (is : List Nat) (vs1 vs2 : VectorData) :
    Except Fault Elem := do
  is.foldlM (fun acc i => do
    if ← active i then do
      let e ← step acc (← vs1.get t i)
      e.cast t
    else return acc) (← vs2.get t 0)

def maxElem (a b : Elem) : Except Fault Elem := .ok (if logicalOperate .lt a b then b else a)
def minElem (a b : Elem) : Except Fault Elem := .ok (if logicalOperate .lt b a then b else a)

def orElem (a b : Elem) : Except Fault Elem := do
  match ← a.cast .bool, ← b.cast .bool with
  | .bool x, .bool y => return .bool (x || y)
  | _, _ => throw .undefined

/-- `vfredomax.vs` and `vfredosum.vs`; the first builds its result by the pair flag when the
elements are words. -/
def executeFloatReduction (what : String) (step : Elem → Elem → Except Fault Elem)
    (byPair : Bool) (operandType : OperandType) : Exec Unit := do
  let c ← csr
  if operandType ≠ .vs then error what
  else do
    let vs1 ← readV (src 0)
    let vs2 ← readV (src 1)
    let word := c.vtypeVsew = .e32
    let vd := if word ∧ byPair then VectorData.ofDouble (c.vtypeVlmul = .m2)
      else VectorData.ofContext c
    let r ← reduce (if word then .float32 else .float16) step (fun _ => .ok true)
      (lanes c.vstart vs1.vlen) vs1 vs2
    writeV dest (← vd.setData r 0)

def reductionTypes : List DataType := [.int64, .int32, .int16, .float32, .float16]

def reduceInto (c : CSR) (step : Elem → Elem → Except Fault Elem)
    (active : Nat → Except Fault Bool) (vs1 vs2 : VectorData) : Except Fault VectorData := do
  if reductionTypes.contains vs2.type then
    let r ← reduce vs2.type step active (lanes c.vstart vs1.vlen) vs1 vs2
    (VectorData.ofContext c).setData r 0
  else if vs2.type = .char8 then throw (.runtimeError "Can't use char8 type")
  else throw (.runtimeError "Unsupported type")

/-- `vredsum.vs`, `vredmax.vs` and `vredor.vs` -/
def executeReduction (what : String) (step : Elem → Elem → Except Fault Elem)
    (operandType : OperandType) : Exec Unit := do
  let c ← csr
  if operandType ≠ .vs then error what
  else do
    let vs1 ← readV (src 0)
    let vs2 ← readV (src 1)
    writeV dest (← reduceInto c step (fun _ => .ok true) vs1 vs2)

/-- `vredmin.vs` alone has a mask operand, and folds nothing without one. -/
def executeVredmin (operandType : OperandType) : Exec Unit := do
  let c ← csr
  if operandType ≠ .vs then error "VREDMIN must use vector-vector[0]"
  else do
    let vs1 ← readV (src 0)
    let vs2 ← readV (src 1)
    let vm ← maskOperand (src 2)
    if vm.1 && vm.2.type != .vmask then .throw .assertion
    writeV dest (← reduceInto c minElem
      (fun i => if vm.1 then vm.2.getVmaskData i else .ok false) vs1 vs2)

def wideReduce (step : F32 → F32 → F32) (is : List Nat) (vs1 vs2 : VectorData) :
    Except Fault F32 := do
  is.foldlM (fun acc i => do return step acc (FloatOps.floatOfHalf (← vs1.getHalfData i)))
    (FloatOps.floatOfHalf (← vs2.getHalfData 0))

/-- The widening reductions work on half-precision vectors only, and do nothing else. -/
def executeWideReduction (what : String) (step : F32 → F32 → F32)
    (operandType : OperandType) : Exec Unit := do
  let c ← csr
  if operandType ≠ .vs then error what
  else do
    let vs1 ← readV (src 0)
    let vs2 ← readV (src 1)
    if vs1.type = .float16 ∧ vs2.type = .float16 then do
      let vd := (VectorData.ofSewLmul 32 c.vtypeVlmul.eighths).setType .float32
      writeV dest (← vd.setFloat (← wideReduce step (lanes c.vstart vs1.vlen) vs1 vs2) 0)
    else return

/-! ## Memory operations -/

/-- `vle8.v` and `vle16.v` load one packet whatever the register multiplier. -/
def executeVleNarrow : Exec Unit := do
  let addr ← effectiveAddr
  writeV dest (← load addr)

/-- Eight packets appended one after the other; the second append always throws. -/
def loadEight (addr : BitVec 64) : Exec VectorData := do
  let first ← load addr
  let vd ← first.append first
  (List.range' 1 7).foldlM (fun (vd : VectorData) i => do
    vd.append (← load (addr + BitVec.ofNat 64 (i * packetSize)))) vd

def executeVleWide (op : Opcode) : Exec Unit := do
  let addr ← effectiveAddr
  let c ← csr
  let vd ← load addr
  let vd ← show Exec VectorData from
    if c.vtypeVlmul = .m2 then do vd.append (← load (addr + 32#64))
    else if op = .vle64 ∧ c.vtypeVlmul = .m8 then loadEight addr
    else return vd
  writeV dest vd

def executeVseNarrow : Exec Unit := do
  let addr ← effectiveAddr
  store addr (← readV dest)

def executeVseWide : Exec Unit := do
  let addr ← effectiveAddr
  let c ← csr
  let vs ← readV dest
  if c.vtypeVlmul = .m2 then do
    let (lo, hi) ← vs.split
    store addr lo
    store (addr + 32#64) hi
  else store addr vs

/-- Byte offset of an index vector's lane. -/
def laneOffset (v : VectorData) (i : Nat) : Except Fault (BitVec 64) :=
  match v.type with
  | .int64 => v.getLongData i
  | .int32 => do return (← v.getIntData i).signExtend 64
  | .int16 => do return (← v.getShortData i).signExtend 64
  | .uint8 => do return (← v.getU8Data i).setWidth 64
  | _ => throw (.runtimeError "Unsupported offset type")

/-- The element an atomic operation addresses, in units of the offset type. -/
def amoIndex (t : DataType) (addr : BitVec 64) : Nat :=
  let inPacket := addr.toNat % packetSize
  match t with
  | .int64 => inPacket / 8
  | .int32 => inPacket / 4
  | .int16 => inPacket / 2
  | _ => inPacket

/-- The element type an atomic operation computes in: some types are looked up in the loaded
packet, the others in the operand. -/
def amoType (vd vs : VectorData) : Except Fault DataType :=
  if [DataType.float32, .uint8].contains vd.type then .ok vd.type
  else if [DataType.int16, .float16, .int32, .int64].contains vs.type then .ok vs.type
  else throw (.runtimeError "Unsupported Data Type")

def amoLane (op : ArithOp) (base : BitVec 64) (vmask offsets vs : VectorData) (i : Nat) :
    Exec Unit := do
  if ¬ (← vmask.getVmaskData i) then return
  else do
    let addr := base + (← laneOffset offsets i)
    let i' := amoIndex offsets.type addr
    let vd ← tryLoad addr
    let vd := vd.getD ((VectorData.ofSewLmul (vs.getPrecision * 8) 8).setType vs.type)
    let t ← amoType vd vs
    let r ← arithOp op (← vd.get t i') (← vs.get t i)
    store addr (← vd.setData r i')

def getArithOp : Opcode → Option ArithOp
  | .vamoaddei8 | .vamoaddei16 | .vamoaddei32 | .vamoaddei64 => some .add
  | .vamoandei16 | .vamoandei32 => some .and
  | .vamoorei16 | .vamoorei32 => some .or
  | .vamomaxei16 | .vamomaxei32 => some .max
  | .vamominei16 | .vamominei32 => some .min
  | _ => none

/-- `amo_loop` with its operands. -/
def executeVamo (arith : ArithOp) : Exec Unit := do
  let c ← csr
  let base ← readX (src 0)
  let offset ← readV (src 1)
  let vs ← readV (src 2)
  let all := VectorData.ofContext c
  let all ← setMask all (List.range all.vlen) fun _ => .ok true
  let vmask ← show Exec VectorData from do
    if ← present (src 3) then readV (src 3) else return all
  (List.range offset.vlen).foldlM
    (fun (_ : Unit) i => amoLane arith base (vmask.setType .vmask) offset vs i) ()

/-- The mask register is read even if there is none. -/
def executeVluxei32 : Exec Unit := do
  let base ← effectiveAddr
  let vs2 ← readV (src 2)
  let vs3 ← readV (src 3)
  let c ← csr
  let vd ← (List.range 8).foldlM (fun (vd : VectorData) i => do
    let idx ← vs2.getIntData i
    let vm ← vs3.getVmaskData i
    if vs3.type = .vmask ∧ vm = false then return vd
    else do
      let addr := base + idx.signExtend 64
      let vs ← load addr
      if [DataType.float32, .int32].contains vs.type then
        vd.setData (← vs.get vs.type (addr.toNat % packetSize / 4)) i
      else return vd) (VectorData.ofContext c)
  writeV dest vd
  if ¬ [DataType.int32, .float32].contains vd.type then .throw .assertion

def executeVluxei64 : Exec Unit := do
  let base ← effectiveAddr
  let vs2 ← readV (src 2)
  let c ← csr
  let vm ← maskOperand (src 3)
  -- `i < PACKET_SIZE * lmul / 8` for an integer `i` and a possibly fractional multiplier
  let vd ← (List.range ((c.vtypeVlmul.eighths + 1) / 2)).foldlM (fun (vd : VectorData) i => do
    let active ← show Exec Bool from
      if vm.2.type = .vmask then vm.2.getVmaskData i else pure true
    if !active then return vd
    else do
      let addr := base + (← vs2.getLongData i)
      let vs ← load addr
      if vs.type ≠ .int64 then .throw .assertion
      vd.setLong (← vs.getLongData (addr.toNat % packetSize / 8)) i) (VectorData.ofContext c)
  writeV dest vd

def executeVsuxei32 : Exec Unit := do
  let base ← effectiveAddr
  let vs2 ← readV (src 2)
  let vd ← readV dest
  let vs3 ← readV (src 3)
  (List.range 8).foldlM (fun (_ : Unit) i => do
    let idx ← vs2.getIntData i
    let vm ← vs3.getVmaskData i
    if vs3.type = .vmask ∧ vm = false then return
    else do
      let addr := base + idx.signExtend 64
      let packet ← loadOrEmpty addr
      if [DataType.float32, .int32].contains vd.type then do
        store addr (← packet.setData (← vd.get vd.type i) (addr.toNat % packetSize / 4))
      else error "Unsupported Data Type (VSUXEI32)") ()

/-- The byte offset of a segment: 32-bit and 16-bit indices are divided as unsigned numbers. -/
def segmentOffset (sew : Vsew) (v : VectorData) (i : Nat) : Except Fault (BitVec 64) := do
  let bits : Int := sew.bits
  match v.type with
  | .int64 => return BitVec.ofInt 64 ((((← v.getLongData i).toInt * bits).bmod (2 ^ 64)).tdiv 8)
  | .int32 => return BitVec.ofInt 64 ((← v.getIntData i).toInt * bits % 2 ^ 32 / 8)
  | .int16 => return BitVec.ofInt 64 ((← v.getShortData i).toInt * bits % 2 ^ 32 / 8)
  | _ => throw (.runtimeError "Unsupported type")

/-- One element of one segment, and the segment it goes to. -/
def segmentLane (c : CSR) (addr : BitVec 64) (i : Nat) (vds : List VectorData) (j : Nat) :
    Exec (List VectorData) := do
  let newAddr := addr + BitVec.ofNat 64 (j * c.vtypeVsew.bits / 8)
  let vs ← load newAddr
  let offset := newAddr.toNat % packetSize
  match vds[j]? with
  | none => .throw .undefined
  | some vd =>
    match vs.type with
    | .char8 => do return vds.set j (← vd.setChar (← vs.getCharData offset) i)
    | .uint8 => do return vds.set j (← vd.setU8 (← vs.getU8Data offset) i)
    | _ => return vds

def executeVlsseg (operandType : OperandType) (segCnt : Int) : Exec Unit := do
  let c ← csr
  let base ← readX (src 0)
  let vs2 ← readV (src 1)
  match operandType with
  | .v => do
    let segments := List.range segCnt.toNat
    let vds ← (lanes c.vstart vs2.vlen).foldlM (fun vds i => do
      let addr := base + (← segmentOffset c.vtypeVsew vs2 i)
      segments.foldlM (segmentLane c addr i) vds) (List.replicate 8 (VectorData.ofContext c))
    segments.foldlM (fun (_ : Unit) i =>
      match vds[i]? with
      | some vd => writeV (segDest (Fin.ofNat 8 i)) vd
      | none => .throw .undefined) ()
  | _ => error "Unsupported Segment Indexed Load instruction"

/-- `TEST` prints its operand. -/
def executeTest (operandType : OperandType) : Exec Unit :=
  match operandType with
  | .v_x => do
    let _ ← readX (src 0)
    let _ ← readX (src 0)
    return
  | .v_f => do
    let _ ← readF (src 0)
    return
  | _ => do
    let _ ← readV (src 0)
    return

/-! ## Dispatch -/

def executeVectorOp (op : Opcode) (operandType : OperandType) (segCnt : Int) : Exec Unit :=
  match op with
  | .vsetvli => executeVsetvli
  | .vadd | .vfadd => executeVadd operandType
  | .vsub | .vfsub => executeVsub op operandType
  | .vfwsub => executeVfwsub operandType
  | .vrsub | .vfrsub => executeVrsub op operandType
  | .vmul | .vfmul => executeVmul operandType
  | .vfwmul => executeVfwmul operandType
  | .vdiv | .vfdiv => executeVdiv op operandType
  | .vsll => executeVsll operandType
  | .vsrl => executeVsrl operandType
  | .vsra => return
  | .vnadd => executeVnadd operandType
  | .vfrdiv => executeVfrdiv operandType
  | .vmv => executeVmv operandType
  | .vid => executeVid
  | .vmset => executeVmset
  | .vmseq | .vmsne | .vmslt | .vmsle | .vmsgt | .vmsge =>
    match logicalOpOf op with
    | some logical => executeCompare logical operandType
    | none => unsupported
  | .vmand => executeMaskLogic (· && ·) operandType
  | .vmor => executeMaskLogic (· || ·) operandType
  | .vand => executeVand operandType
  | .vor => executeVor operandType
  | .vfirst => executeVfirst
  | .vmin => executeMinMax true operandType
  | .vmax => executeMinMax false operandType
  | .vcompress => executeVcompress operandType
  | .vslide1down => executeVslide1down
  | .vslidedown => executeVslidedown operandType
  | .vslide1up => executeVslide1up
  | .vslideup => return
  | .vlsseg => executeVlsseg operandType segCnt
  | .test => executeTest operandType
  | .vfmacc => executeVfmacc operandType
  | .vfmsub => executeVfmsub operandType
  | .vfwmacc => executeVfwmacc operandType
  | .vfncvt => executeVfncvt operandType
  | .vfcvt => executeVfcvt operandType
  | .vfwcvt => executeVfwcvt operandType
  | .vfmv => executeVfmv operandType
  | .vfsqrt => executeVfsqrt operandType
  | .vfredomax =>
    executeFloatReduction "VFREDOMAX must use vector-vector[0]" maxElem true operandType
  | .vfredosum =>
    executeFloatReduction "VFREDOMAX must use vector-vector[0]" Elem.add false operandType
  | .vredsum => executeReduction "VREDSUM must use vector-vector[0]" Elem.add operandType
  | .vredmax => executeReduction "VREDMAX must use vector-vector[0]" maxElem operandType
  | .vredmin => executeVredmin operandType
  | .vredor => executeReduction "VREDOR must use vector-vector[0]" orElem operandType
  | .vwredosum =>
    executeWideReduction "VFREDOMAX must use vector-vector[0]" FloatOps.add operandType
  | .vwredomax =>
    executeWideReduction "VWREDOMAX must use vector-vector[0]"
      (fun a b => if FloatOps.lt a b then b else a) operandType
  | .vle8 | .vle16 => executeVleNarrow
  | .vle32 | .vle64 => executeVleWide op
  | .vse8 | .vse16 => executeVseNarrow
  | .vse32 | .vse64 => executeVseWide
  | .vluxei32 => executeVluxei32
  | .vluxei64 => executeVluxei64
  | .vsuxei32 => executeVsuxei32
  | .vfexp => executeVfexp operandType
  | .vfsgnj | .vfsgnjn | .vfsgnjx => executeVfsgnj op operandType
  | _ =>
    match getArithOp op with
    | some arith => executeVamo arith
    | none => unsupported

/-- Every vector instruction that does not throw resets `vstart`. -/
def executeVector (op : Opcode) (operandType : OperandType) (segCnt : Int) : Exec Unit := do
  executeVectorOp op operandType segCnt
  setVstart 0

/-- `Execute` by opcode, operand type and segment count; the result says whether a branch is
taken. -/
def execute (op : Opcode) (operandType : OperandType) (segCnt : Int) : Exec Bool :=
  if op = .exit then return false
  else if op.checkBranchOp then executeBranch op
  else if op.checkCsrOp || op.checkVectorOp || op.checkSegOp then do
    executeVector op operandType segCnt
    return false
  else do
    executeScalar op operandType
    return false

end NdpSim
