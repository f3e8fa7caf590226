import NdpSim.Isa.Instruction

/-!
# Vector registers

A vector register holds a typed, growable sequence of 32-bit words. Its element accessors
reinterpret those words; reading or writing past the last word is undefined behaviour of the
simulator and is a fault here, as are failed assertions and thrown exceptions.

Floating-point arithmetic comes from the hardware and from two header-only libraries, so it is
a parameter of the development.
-/
namespace NdpSim

/-- Every way in which the simulator stops instead of returning. -/
inductive Fault
  | runtimeError (what : String)
  | outOfRange
  | assertion
  | emptyFreeList
  | undefined
  deriving DecidableEq

/-- Bit patterns of `float` and of `half`. -/
abbrev F32 := BitVec 32
abbrev F16 := BitVec 16

/-- The floating-point operations the simulator calls. -/
class FloatOps where
  add : F32 → F32 → F32
  sub : F32 → F32 → F32
  mul : F32 → F32 → F32
  div : F32 → F32 → F32
  lt : F32 → F32 → Bool
  eq : F32 → F32 → Bool
  exp : F32 → F32
  sqrt : F32 → F32
  fmod : F32 → F32 → F32
  ldexp : F32 → F32 → F32
  neg : F32 → F32
  ofInt : Int → F32
  /-- Truncation towards zero, `none` where C++ leaves the result undefined. -/
  toInt : F32 → Option Int
  halfAdd : F16 → F16 → F16
  halfSub : F16 → F16 → F16
  halfMul : F16 → F16 → F16
  halfDiv : F16 → F16 → F16
  halfLt : F16 → F16 → Bool
  halfEq : F16 → F16 → Bool
  halfExp : F16 → F16
  halfSqrt : F16 → F16
  halfOfFloat : F32 → F16
  floatOfHalf : F16 → F32
  fp16IeeeToFp32Value : BitVec 16 → F32
  fp16IeeeFromFp32Value : F32 → BitVec 16

/-- An arithmetic for runs without floating point: every result is zero. -/
@[reducible] def FloatOps.zero : FloatOps where
  add _ _ := 0
  sub _ _ := 0
  mul _ _ := 0
  div _ _ := 0
  lt _ _ := false
  eq _ _ := false
  exp _ := 0
  sqrt _ := 0
  fmod _ _ := 0
  ldexp _ _ := 0
  neg _ := 0
  ofInt _ := 0
  toInt _ := none
  halfAdd _ _ := 0
  halfSub _ _ := 0
  halfMul _ _ := 0
  halfDiv _ _ := 0
  halfLt _ _ := false
  halfEq _ _ := false
  halfExp _ := 0
  halfSqrt _ := 0
  halfOfFloat _ := 0
  floatOfHalf _ := 0
  fp16IeeeToFp32Value _ := 0
  fp16IeeeFromFp32Value _ := 0

/-! ## Vector configuration -/

inductive Vsew
  | e8 | e16 | e32 | e64
  deriving DecidableEq

def Vsew.bits : Vsew → Nat
  | e8 => 8
  | e16 => 16
  | e32 => 32
  | e64 => 64

inductive Vlmul
  | mf8 | mf4 | mf2 | m1 | m2 | m4 | m8
  deriving DecidableEq

/-- The register multiplier in eighths, so that fractional settings stay exact. -/
def Vlmul.eighths : Vlmul → Nat
  | mf8 => 1
  | mf4 => 2
  | mf2 => 4
  | m1 => 8
  | m2 => 16
  | m4 => 32
  | m8 => 64

/-- The vector settings of one instruction column. Its program counter and its issue block, which
`Execute` does not look at, are kept with the column. -/
structure CSR where
  vstart : Int := 0
  vtypeVsew : Vsew := .e32
  vtypeVlmul : Vlmul := .m1
  deriving DecidableEq

def packetSize : Nat := 32
def byteBit : Nat := 8
def unionDataSize : Nat := 32
def packetEntries : Nat := packetSize / 4

def roundUp (n s : Nat) : Nat := (n + s - 1) / s * s

inductive DataType
  | float16 | float32 | int16 | int32 | int64 | uint8 | char8 | bool | vmask | maxDataType
  deriving DecidableEq

/-- The type, length in elements, pairing flag and words of a vector register. -/
@[ext] structure VectorData where
  type : DataType
  vlen : Nat
  doubleReg : Bool
  data : List (BitVec 32)
  deriving DecidableEq

namespace VectorData

/-! ## Constructors -/

def default : VectorData := ⟨.maxDataType, packetEntries, false, List.replicate packetEntries 0⟩

instance : Inhabited VectorData := ⟨default⟩

def ofDouble (doubleReg : Bool) : VectorData :=
  let entries := if doubleReg then packetEntries * 2 else packetEntries
  ⟨.maxDataType, entries, doubleReg, List.replicate entries 0⟩

/-- `PACKET_SIZE * BYTE_BIT * lmul / sew`, rounded down. -/
def vlenOf (sew eighths : Nat) : Nat := packetSize * byteBit * eighths / 8 / sew

/-- `VectorData(sew, lmul)`, the multiplier given in eighths. -/
def ofSewLmul (sew eighths : Nat) : VectorData :=
  let vecLen := packetSize * byteBit * eighths / 8 / unionDataSize
  ⟨.maxDataType, vlenOf sew eighths, eighths = 16,
    List.replicate (roundUp vecLen packetEntries) 0⟩

def ofContext (csr : CSR) : VectorData :=
  let vlen := vlenOf csr.vtypeVsew.bits csr.vtypeVlmul.eighths
  let vecLen := vlen * csr.vtypeVsew.bits / unionDataSize
  ⟨.maxDataType, vlen, csr.vtypeVlmul = .m2,
    List.replicate (roundUp vecLen packetEntries) 0⟩

def setType (v : VectorData) (t : DataType) : VectorData := { v with type := t }

def setVlen (v : VectorData) (n : Nat) : VectorData := { v with vlen := n % 2 ^ 32 }

def setVectorDoubleReg (v : VectorData) : VectorData :=
  { v with
    data := (v.data ++ List.replicate (packetEntries * 2) 0).take (packetEntries * 2)
    doubleReg := true }

def getPrecision (v : VectorData) : Nat :=
  match v.type with
  | .int64 => 8
  | .float32 | .int32 => 4
  | .int16 | .float16 => 2
  | _ => 1

/-! ## Words -/

def word (v : VectorData) (i : Nat) : Except Fault (BitVec 32) :=
  match v.data[i]? with
  | some w => .ok w
  | none => .error .undefined

def setWord (v : VectorData) (i : Nat) (w : BitVec 32) : Except Fault VectorData :=
  if i < v.data.length then .ok { v with data := v.data.set i w } else .error .undefined

/-- Replace the `n`-bit field of `w` that starts at bit `k`. -/
def insertField {n : Nat} (w : BitVec 32) (k : Nat) (x : BitVec n) : BitVec 32 :=
  (w &&& ~~~((BitVec.allOnes n).setWidth 32 <<< k)) ||| (x.setWidth 32 <<< k)

def getFloatData (v : VectorData) (i : Nat) : Except Fault F32 := v.word i

def getIntData (v : VectorData) (i : Nat) : Except Fault (BitVec 32) := v.word i

def getShortData (v : VectorData) (i : Nat) : Except Fault (BitVec 16) := do
  let w ← v.word (i / 2)
  return w.extractLsb' (16 * (i % 2)) 16

def getU8Data (v : VectorData) (i : Nat) : Except Fault (BitVec 8) := do
  let w ← v.word (i / 4)
  return w.extractLsb' (8 * (i % 4)) 8

def getCharData (v : VectorData) (i : Nat) : Except Fault (BitVec 8) := v.getU8Data i

/-- Any byte but 0 is true. -/
def getBoolData (v : VectorData) (i : Nat) : Except Fault Bool := do
  let b ← v.getU8Data i
  return b ≠ 0

def getLongData (v : VectorData) (i : Nat) : Except Fault (BitVec 64) := do
  let msb ← v.word (2 * i)
  let lsb ← v.word (2 * i + 1)
  return msb ++ lsb

def getHalfData [FloatOps] (v : VectorData) (i : Nat) : Except Fault F16 := do
  let w ← v.word (i / 2)
  return FloatOps.halfOfFloat (FloatOps.fp16IeeeToFp32Value (w.extractLsb' (16 * (i % 2)) 16))

def getVmaskData (v : VectorData) (i : Nat) : Except Fault Bool := do
  let w ← v.word (i / unionDataSize)
  return w.getLsbD (i % unionDataSize)

/-- Eight mask bits from `i` on; bit `j` is added at place `j % 8`. -/
def getVmaskAsByte (v : VectorData) (i : Nat) : Except Fault (BitVec 8) :=
  (List.range' i 8).foldlM (fun ret j => do
    let b ← v.getVmaskData j
    return ret + (BitVec.ofBool b).setWidth 8 <<< (j % 8)) 0

/-- The store shared by the typed setters: retype, then overwrite one word field. -/
def setField {n : Nat} (v : VectorData) (t : DataType) (i perWord : Nat) (x : BitVec n) :
    Except Fault VectorData := do
  if ¬ i / perWord < v.vlen then throw .assertion
  let w ← v.word (i / perWord)
  (v.setType t).setWord (i / perWord) (insertField w (n * (i % perWord)) x)

def setFloat (v : VectorData) (x : F32) (i : Nat) : Except Fault VectorData :=
  v.setField .float32 i 1 x

def setInt (v : VectorData) (x : BitVec 32) (i : Nat) : Except Fault VectorData :=
  v.setField .int32 i 1 x

def setShort (v : VectorData) (x : BitVec 16) (i : Nat) : Except Fault VectorData :=
  v.setField .int16 i 2 x

def setU8 (v : VectorData) (x : BitVec 8) (i : Nat) : Except Fault VectorData :=
  v.setField .uint8 i 4 x

def setChar (v : VectorData) (x : BitVec 8) (i : Nat) : Except Fault VectorData :=
  v.setField .char8 i 4 x

def setBool (v : VectorData) (b : Bool) (i : Nat) : Except Fault VectorData :=
  v.setField .bool i 4 ((BitVec.ofBool b).setWidth 8)

def setHalf [FloatOps] (v : VectorData) (x : F16) (i : Nat) : Except Fault VectorData :=
  v.setField .float16 i 2 (FloatOps.fp16IeeeFromFp32Value (FloatOps.floatOfHalf x))

def setLong (v : VectorData) (x : BitVec 64) (i : Nat) : Except Fault VectorData := do
  if ¬ i < v.vlen then throw .assertion
  let v ← (v.setType .int64).setWord (2 * i) (x.extractLsb' 32 32)
  v.setWord (2 * i + 1) (x.extractLsb' 0 32)

/-- Mask bits are added, not assigned: setting one twice carries into its neighbour. -/
def setVmask (v : VectorData) (b : Bool) (i : Nat) : Except Fault VectorData := do
  if b then
    let w ← v.word (i / unionDataSize)
    (v.setType .vmask).setWord (i / unionDataSize) (w + 1#32 <<< (i % unionDataSize))
  else
    return v.setType .vmask

/-! ## Register pairs -/

def append (v rhs : VectorData) : Except Fault VectorData := do
  let iter := if rhs.type = .int64 then rhs.vlen * 2 else rhs.vlen
  if rhs.data.length < iter then throw .undefined
  if v.doubleReg then throw (.runtimeError "Double appending register")
  return { v with
    data := v.data ++ rhs.data.take iter
    vlen := (v.vlen + rhs.vlen) % 2 ^ 32
    doubleReg := true }

/-- The element width whose one-register shape `Split` gives to both halves. -/
def splitShape (t : DataType) : VectorData :=
  match t with
  | .int64 => ofSewLmul 64 8
  | .int32 | .float32 => ofSewLmul 32 8
  | .int16 | .float16 => ofSewLmul 16 8
  | .char8 => ofSewLmul 8 8
  | _ => default

def split (v : VectorData) : Except Fault (VectorData × VectorData) := do
  let iter := if v.type = .int64 then v.vlen * 2 else v.vlen
  let shape := splitShape v.type
  -- both halves are written inside their own words, and all of `iter` words are read
  if v.data.length < iter ∨ shape.data.length < iter - iter / 2 then throw .undefined
  let half (ws : List (BitVec 32)) : VectorData :=
    { shape with
      type := v.type
      vlen := v.vlen / 2
      data := ws ++ shape.data.drop ws.length }
  return (half (v.data.take (iter / 2)), half ((v.data.take iter).drop (iter / 2)))

end VectorData

end NdpSim
