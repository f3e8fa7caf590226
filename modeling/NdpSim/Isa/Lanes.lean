import NdpSim.Isa.Integers

/-!
# Integer lanes

The integer types of vector elements: how wide an element is and which number it stands for.
-/
namespace NdpSim

open Library VectorData

/-- The integer types a vector can hold. -/
inductive LaneType
  | uint8 | char8 | int16 | int32 | int64
  deriving DecidableEq

namespace LaneType

def type : LaneType → DataType
  | uint8 => .uint8
  | char8 => .char8
  | int16 => .int16
  | int32 => .int32
  | int64 => .int64

def sew : LaneType → Vsew
  | uint8 | char8 => .e8
  | int16 => .e16
  | int32 => .e32
  | int64 => .e64

def bits (t : LaneType) : Nat := t.sew.bits

/-- The bytes of an element. -/
def size : LaneType → Nat
  | uint8 | char8 => 1
  | int16 => 2
  | int32 => 4
  | int64 => 8

def elem : (t : LaneType) → BitVec t.bits → Elem
  | uint8, x => .u8 x
  | char8, x => .char x
  | int16, x => .short x
  | int32, x => .int x
  | int64, x => .long x

/-- The number an element stands for. -/
def value : (t : LaneType) → BitVec t.bits → Int
  | uint8, x => x.toNat
  | char8, x | int16, x | int32, x | int64, x => x.toInt

@[simp] theorem type_elem (t : LaneType) (x : BitVec t.bits) : (t.elem x).type = t.type := by
  cases t <;> rfl

@[simp] theorem stored_elem [FloatOps] (t : LaneType) (x : BitVec t.bits) :
    (t.elem x).stored = t.elem x := by
  cases t <;> rfl

theorem elem_injective (t : LaneType) : Function.Injective t.elem := by
  intro x y h
  cases t <;> exact (by injection h)

theorem type_eq_int64 (t : LaneType) : t.type = .int64 ↔ t = .int64 := by
  cases t <;> decide

theorem type_ne_float16 (t : LaneType) : t.type ≠ .float16 := by
  cases t <;> decide

theorem zeroElem_type (t : LaneType) : zeroElem t.type = t.elem 0 := by
  cases t <;> rfl

theorem ofInt_value (t : LaneType) (x : BitVec t.bits) : BitVec.ofInt t.bits (t.value x) = x := by
  cases t with
  | uint8 => exact (BitVec.ofNat_toNat 8 x).trans (BitVec.setWidth_eq x)
  | char8 | int16 | int32 | int64 => exact BitVec.ofInt_toInt

theorem bits_le (t : LaneType) : t.bits ≤ 64 := by
  cases t <;> decide

theorem type_mem (t : LaneType) : t.type ∈ elementTypes t.sew := by
  cases t <;> decide

/-- The elements of one packet. -/
def count (t : LaneType) : Nat := packetSize / t.size

end LaneType

end NdpSim
