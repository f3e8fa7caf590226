import NdpSim.Isa.VectorData

/-!
# Element arithmetic

The overloaded `SetData` and the arithmetic operators of `VectorData`. Operands of different
element types meet in C++'s common type; the result is converted back to the type of the left
vector. Integer overflow wraps, division by zero and conversions out of range are undefined.
-/
namespace NdpSim

/-- A value of one of the element types. -/
inductive Elem
  | float (x : F32)
  | half (x : F16)
  | long (x : BitVec 64)
  | int (x : BitVec 32)
  | short (x : BitVec 16)
  | u8 (x : BitVec 8)
  | char (x : BitVec 8)
  | bool (x : Bool)
  deriving DecidableEq

namespace Elem

def isFloating : Elem → Bool
  | float _ | half _ => true
  | _ => false

def isLong : Elem → Bool
  | long _ => true
  | _ => false

/-- The value of an integer element; floating ones are converted by `truncated`. -/
def toInteger : Elem → Int
  | float _ | half _ => 0
  | long x => x.toInt
  | int x => x.toInt
  | short x => x.toInt
  | u8 x => x.toNat
  | char x => x.toInt
  | bool x => if x then 1 else 0

/-- `x` as a signed `w`-bit integer, if it fits. -/
def checked (w : Nat) (x : Option Int) : Except Fault Int :=
  match x with
  | some n => if -2 ^ (w - 1) ≤ n ∧ n < 2 ^ (w - 1) then .ok n else .error .undefined
  | none => .error .undefined

section

variable [FloatOps]

def toFloat : Elem → F32
  | float x => x
  | half x => FloatOps.floatOfHalf x
  | e => FloatOps.ofInt e.toInteger

def toHalf : Elem → F16
  | half x => x
  | e => FloatOps.halfOfFloat e.toFloat

/-- The conversion of a floating element to a signed `w`-bit integer, of an integer to itself. -/
def truncated (w : Nat) (e : Elem) : Except Fault Int :=
  if e.isFloating then checked w (FloatOps.toInt e.toFloat) else .ok e.toInteger

/-- The conversion to an element of type `t`. -/
def cast (t : DataType) (e : Elem) : Except Fault Elem :=
  match t with
  | .float32 => .ok (float e.toFloat)
  | .float16 => .ok (half e.toHalf)
  | .int64 => (fun n => long (BitVec.ofInt 64 n)) <$> e.truncated 64
  | .int32 => (fun n => int (BitVec.ofInt 32 n)) <$> e.truncated 32
  | .int16 => (fun n => short (BitVec.ofInt 16 n)) <$> e.truncated 16
  | .uint8 => (fun n => u8 (BitVec.ofInt 8 n)) <$> e.truncated 8
  | .char8 => (fun n => char (BitVec.ofInt 8 n)) <$> e.truncated 8
  | .bool => .ok (bool (if e.isFloating then !FloatOps.eq e.toFloat (FloatOps.ofInt 0)
      else e.toInteger ≠ 0))
  | .vmask | .maxDataType => .error .undefined

/-- An operator in the common type of its operands; small integers are promoted to `int`. The
operator on integers is told the width of the common type. -/
def binary (fop : F32 → F32 → F32) (hop : F16 → F16 → F16)
    (iop : Nat → Int → Int → Except Fault Int) : Elem → Elem → Except Fault Elem
  | half a, half b => .ok (half (hop a b))
  | a, b =>
    if a.isFloating || b.isFloating then .ok (float (fop a.toFloat b.toFloat))
    else if a.isLong || b.isLong then do
      return long (BitVec.ofInt 64 (← iop 64 a.toInteger b.toInteger))
    else do
      return int (BitVec.ofInt 32 (← iop 32 a.toInteger b.toInteger))

/-- The quotient rounds towards zero. The one quotient that does not fit into `w` bits is
undefined like a division by zero. -/
def divInt (w : Nat) (a b : Int) : Except Fault Int :=
  if b = 0 ∨ (a = -2 ^ (w - 1) ∧ b = -1) then .error .undefined else .ok (a.tdiv b)

def add : Elem → Elem → Except Fault Elem :=
  binary FloatOps.add FloatOps.halfAdd fun _ a b => .ok (a + b)

def sub : Elem → Elem → Except Fault Elem :=
  binary FloatOps.sub FloatOps.halfSub fun _ a b => .ok (a - b)

def mul : Elem → Elem → Except Fault Elem :=
  binary FloatOps.mul FloatOps.halfMul fun _ a b => .ok (a * b)

def div : Elem → Elem → Except Fault Elem :=
  binary FloatOps.div FloatOps.halfDiv divInt

/-- `(float)` on a `half` operand. -/
def widen : Elem → Elem
  | half x => float (FloatOps.floatOfHalf x)
  | e => e

end

end Elem

/-! ## Comparison and atomic operations -/

inductive LogicalOp
  | eq | ne | lt | le | gt | ge
  deriving DecidableEq

/-- `logical_operate` from the two comparisons it needs. -/
def LogicalOp.operate (op : LogicalOp) (lt gt eq : Bool) : Bool :=
  match op with
  | .eq => eq
  | .ne => !eq
  | .lt => lt
  | .le => lt || eq
  | .gt => gt
  | .ge => gt || eq

/-- `logical_operate` on two elements of one type. -/
def logicalOperate [FloatOps] (op : LogicalOp) : Elem → Elem → Bool
  | .float a, .float b => op.operate (FloatOps.lt a b) (FloatOps.lt b a) (FloatOps.eq a b)
  | .half a, .half b =>
    op.operate (FloatOps.halfLt a b) (FloatOps.halfLt b a) (FloatOps.halfEq a b)
  | a, b => op.operate (a.toInteger < b.toInteger) (b.toInteger < a.toInteger)
      (a.toInteger == b.toInteger)

inductive ArithOp
  | add | sub | mul | div | min | max | rem | mod | shl | shr | and | or | xor
  deriving DecidableEq

/-- Bitwise operations on the two's complement representation. -/
def bitwise (f : BitVec 64 → BitVec 64 → BitVec 64) (a b : Int) : Int :=
  (f (BitVec.ofInt 64 a) (BitVec.ofInt 64 b)).toInt

/-- A shift is undefined unless its amount is below the width of the left operand. -/
def shiftLeft (w : Nat) (a n : Int) : Except Fault Int :=
  if 0 ≤ n ∧ n < w then .ok (a * 2 ^ n.toNat) else .error .undefined

def shiftRight (w : Nat) (a n : Int) : Except Fault Int :=
  if 0 ≤ n ∧ n < w then .ok (a / 2 ^ n.toNat) else .error .undefined

/-- `arith_op` on integers that are promoted to `w` bits. -/
def ArithOp.onInt (w : Nat) (op : ArithOp) (a b : Int) : Except Fault Int :=
  match op with
  | .add => .ok (a + b)
  | .sub => .ok (a - b)
  | .mul => .ok (a * b)
  | .div => Elem.divInt w a b
  | .min => .ok (if a < b then a else b)
  | .max => .ok (if b < a then a else b)
  | .rem | .mod =>
    if b = 0 ∨ (a = -2 ^ (w - 1) ∧ b = -1) then .error .undefined else .ok (a.tmod b)
  | .shl => shiftLeft w a b
  | .shr => shiftRight w a b
  | .and => .ok (bitwise (· &&& ·) a b)
  | .or => .ok (bitwise (· ||| ·) a b)
  | .xor => .ok (bitwise (· ^^^ ·) a b)

section

variable [FloatOps]

def ofBool (b : Bool) : F32 := FloatOps.ofInt (if b then 1 else 0)

def truthy (x : F32) : Bool := !FloatOps.eq x (FloatOps.ofInt 0)

def ArithOp.onFloat (op : ArithOp) (a b : F32) : F32 :=
  match op with
  | .add => FloatOps.add a b
  | .sub => FloatOps.sub a b
  | .mul => FloatOps.mul a b
  | .div => FloatOps.div a b
  | .min => if FloatOps.lt a b then a else b
  | .max => if FloatOps.lt b a then a else b
  | .rem | .mod => FloatOps.fmod a b
  | .shl => FloatOps.ldexp a b
  | .shr => FloatOps.ldexp a (FloatOps.neg b)
  | .and => ofBool (truthy a && truthy b)
  | .or => ofBool (truthy a || truthy b)
  | .xor => ofBool (!FloatOps.eq a b)

def ArithOp.onHalf (op : ArithOp) (a b : F16) : Except Fault F16 :=
  match op with
  | .add => .ok (FloatOps.halfAdd a b)
  | .sub => .ok (FloatOps.halfSub a b)
  | .mul => .ok (FloatOps.halfMul a b)
  | .div => .ok (FloatOps.halfDiv a b)
  | .min => .ok (if FloatOps.halfLt a b then a else b)
  | .max => .ok (if FloatOps.halfLt b a then a else b)
  | _ => .error (.runtimeError "Unsupported half operation")

/-- `arith_op<T>` where `T` is the type of both elements. -/
def arithOp (op : ArithOp) : Elem → Elem → Except Fault Elem
  | .float a, .float b => .ok (.float (op.onFloat a b))
  | .half a, .half b => .half <$> op.onHalf a b
  | .long a, .long b => (fun n => .long (BitVec.ofInt 64 n)) <$> op.onInt 64 a.toInt b.toInt
  | .int a, .int b => (fun n => .int (BitVec.ofInt 32 n)) <$> op.onInt 32 a.toInt b.toInt
  | .short a, .short b => (fun n => .short (BitVec.ofInt 16 n)) <$> op.onInt 32 a.toInt b.toInt
  | .u8 a, .u8 b => (fun n => .u8 (BitVec.ofInt 8 n)) <$> op.onInt 32 a.toNat b.toNat
  | _, _ => .error .undefined

end

/-! ## Vectors -/

/-- The lanes of `for (int i = start; i < bound; i++)` with an unsigned bound: a negative start
counts as a huge one. -/
def lanes (start : Int) (bound : Nat) : List Nat :=
  if start < 0 then [] else List.range' start.toNat (bound - start.toNat)

/-- A subscript; a negative one is outside of every array. -/
def index (i : Int) : Except Fault Nat :=
  if i < 0 then .error .undefined else .ok i.toNat

namespace VectorData

variable [FloatOps]

/-- The getter for elements of type `t`. -/
def get (v : VectorData) (t : DataType) (i : Nat) : Except Fault Elem :=
  match t with
  | .float32 => .float <$> v.getFloatData i
  | .float16 => .half <$> v.getHalfData i
  | .int64 => .long <$> v.getLongData i
  | .int32 => .int <$> v.getIntData i
  | .int16 => .short <$> v.getShortData i
  | .uint8 => .u8 <$> v.getU8Data i
  | .char8 => .char <$> v.getCharData i
  | .bool => .bool <$> v.getBoolData i
  | .vmask | .maxDataType => .error .undefined

/-- The overloaded `SetData`. -/
def setData (v : VectorData) (e : Elem) (i : Nat) : Except Fault VectorData :=
  match e with
  | .float x => v.setFloat x i
  | .half x => v.setHalf x i
  | .long x => v.setLong x i
  | .int x => v.setInt x i
  | .short x => v.setShort x i
  | .u8 x => v.setU8 x i
  | .char x => v.setChar x i
  | .bool x => v.setBool x i

/-- Set lane after lane to the value `f` gives for it; lanes without a value are skipped. -/
def setLanes (v : VectorData) (is : List Nat) (f : Nat → Except Fault (Option Elem)) :
    Except Fault VectorData :=
  is.foldlM (fun v i => do
    match ← f i with
    | some e => v.setData e i
    | none => return v) v

/-- The loop of the vector-vector operators. -/
def zipWith (what : String) (allowed : DataType → DataType → Bool)
    (op : Elem → Elem → Except Fault Elem) (lhs rhs : VectorData) : Except Fault VectorData := do
  if lhs.vlen ≠ rhs.vlen then throw .assertion
  lhs.setLanes (List.range lhs.vlen) fun i => do
    if ¬ allowed lhs.type rhs.type then throw (.runtimeError what)
    let r ← op (← lhs.get lhs.type i) (← rhs.get rhs.type i)
    return some (← r.cast lhs.type)

def common : List DataType := [.float32, .float16, .int32, .int16]

def add : VectorData → VectorData → Except Fault VectorData :=
  zipWith "operator+: invalid m_type"
    (fun l r =>
      match l with
      | .float32 => [.float32, .float16, .int32].contains r
      | .float16 | .int32 => common.contains r
      | .int64 => r = .int64
      | _ => false)
    fun a b => a.widen.add b.widen

/-- A left operand of 64-bit integers is returned as it is if the right one is different. -/
def sub (lhs rhs : VectorData) : Except Fault VectorData :=
  if lhs.vlen = rhs.vlen ∧ lhs.type = .int64 ∧ rhs.type ≠ .int64 then .ok lhs
  else
    zipWith "operator-: invalid m_type"
      (fun l r => common.contains l && common.contains r || l = .int64) Elem.sub lhs rhs

def mul : VectorData → VectorData → Except Fault VectorData :=
  zipWith "operator*: invalid m_type"
    (fun l r => [.float32, .float16, .int32].contains l && common.contains r)
    fun a b => a.widen.mul b.widen

def div : VectorData → VectorData → Except Fault VectorData :=
  zipWith "operator/: invalid m_type" (fun l r => common.contains l && common.contains r) Elem.div

/-- The loop of the vector-scalar operators; some set another type afterwards. -/
def mapWith (what : String) (allowed : List DataType) (retype : DataType → DataType)
    (f : Elem → Except Fault Elem) (v : VectorData) : Except Fault VectorData :=
  (List.range v.vlen).foldlM (fun ret i => do
    if ¬ allowed.contains v.type then throw (.runtimeError what)
    let r ← f (← v.get v.type i)
    let ret ← ret.setData (← r.cast v.type) i
    return ret.setType (retype v.type)) v

/-- Integer elements that met a `float` are labelled as floating. -/
def relabel : DataType → DataType
  | .int32 => .float32
  | .int16 => .float16
  | t => t

def addFloat (v : VectorData) (x : F32) : Except Fault VectorData :=
  v.mapWith "operator+: invalid m_type" common relabel fun e => e.add (.float x)

/-- The right operand is a 32-bit or a 64-bit integer. -/
def addInt (v : VectorData) (x : Elem) : Except Fault VectorData :=
  v.mapWith "operator+: invalid m_type" (.int64 :: common) id fun e => e.add x

def subFloat (v : VectorData) (x : F32) : Except Fault VectorData :=
  v.mapWith "operator-: invalid m_type" common id fun e => e.sub (.float x)

def subInt (v : VectorData) (x : BitVec 32) : Except Fault VectorData :=
  v.mapWith "operator-: invalid m_type" common id fun e => e.sub (.int x)

def floatSub (x : F32) (v : VectorData) : Except Fault VectorData :=
  v.mapWith "operator-: invalid m_type" common relabel fun e => Elem.sub (.float x) e

def intSub (x : BitVec 32) (v : VectorData) : Except Fault VectorData :=
  v.mapWith "operator-: invalid m_type" common id fun e => Elem.sub (.int x) e

def mulFloat (v : VectorData) (x : F32) : Except Fault VectorData :=
  v.mapWith "operator*: invalid m_type" common id fun e => e.mul (.float x)

def mulInt (v : VectorData) (x : BitVec 32) : Except Fault VectorData :=
  v.mapWith "operator*: invalid m_type" (.int64 :: .uint8 :: common) id fun e => e.mul (.int x)

def divFloat (v : VectorData) (x : F32) : Except Fault VectorData :=
  v.mapWith "operator/: invalid m_type" common id fun e => e.div (.float x)

def floatDiv (x : F32) (v : VectorData) : Except Fault VectorData :=
  v.mapWith "operator/: invalid m_type" common id fun e => Elem.div (.float x) e

def divInt (v : VectorData) (x : BitVec 32) : Except Fault VectorData :=
  v.mapWith "operator/: invalid m_type" common id fun e => e.div (.int x)

/-- `Exp`: the type and length of `v`, the data of `rhs`. -/
def exp (v rhs : VectorData) : Except Fault VectorData :=
  v.setLanes (List.range v.vlen) fun i =>
    match v.type with
    | .float32 => do return some (.float (FloatOps.exp (← rhs.getFloatData i)))
    | .float16 => do
      let x := FloatOps.exp (FloatOps.floatOfHalf (← rhs.getHalfData i))
      return some (.half (FloatOps.halfOfFloat x))
    | _ => throw (.runtimeError "VectorData::Exp: Support only fp32")

end VectorData

end NdpSim
