import NdpSim.Isa.Results

/-!
# Integer elements

The three integer types that arithmetic is defined on. An operation on two elements of one type
is carried out in the type they are promoted to, and converted back.
-/
namespace NdpSim

open Library

inductive IntType
  | int16 | int32 | int64
  deriving DecidableEq

namespace IntType

def bits : IntType → Nat
  | int16 => 16
  | int32 => 32
  | int64 => 64

def type : IntType → DataType
  | int16 => .int16
  | int32 => .int32
  | int64 => .int64

def elem : (t : IntType) → BitVec t.bits → Elem
  | int16, x => .short x
  | int32, x => .int x
  | int64, x => .long x

/-- The bits of an element, sign-extended or truncated to the type. -/
def ofElem (t : IntType) (e : Elem) : BitVec t.bits := BitVec.ofInt t.bits e.toInteger

@[simp] theorem type_elem (t : IntType) (x : BitVec t.bits) : (t.elem x).type = t.type := by
  cases t <;> rfl

@[simp] theorem toInteger_elem (t : IntType) (x : BitVec t.bits) :
    (t.elem x).toInteger = x.toInt := by
  cases t <;> rfl

@[simp] theorem ofElem_elem (t : IntType) (x : BitVec t.bits) : t.ofElem (t.elem x) = x := by
  rw [ofElem, toInteger_elem, BitVec.ofInt_toInt]

theorem elem_injective (t : IntType) : Function.Injective t.elem :=
  Function.LeftInverse.injective t.ofElem_elem

theorem elem_ofElem {t : IntType} {e : Elem} (h : e.type = t.type) : t.elem (t.ofElem e) = e := by
  have hint {w : Nat} (x : BitVec w) : BitVec.ofInt w x.toInt = x := BitVec.ofInt_toInt
  cases t <;> cases e <;> cases h <;> exact congrArg _ (hint _)

theorem type_ne (t : IntType) : t.type ≠ .vmask ∧ t.type ≠ .maxDataType := by
  cases t <;> decide

end IntType

/-- A number that was cut to more bits first. -/
theorem ofInt_toInt_ofInt {v w : Nat} (h : v ≤ w) (n : Int) :
    BitVec.ofInt v (BitVec.ofInt w n).toInt = BitVec.ofInt v n := by
  apply BitVec.eq_of_toInt_eq
  rw [BitVec.toInt_ofInt, BitVec.toInt_ofInt, BitVec.toInt_ofInt]
  exact Int.bmod_bmod_of_dvd (Nat.pow_dvd_pow 2 h)

namespace IntType

variable [FloatOps]

/-- An integer of any type is sign-extended or truncated. -/
theorem cast_of_toInteger (t : IntType) (e : Elem) (he : e.isFloating = false) :
    e.cast t.type = .ok (t.elem (t.ofElem e)) := by
  cases t <;> simp [Elem.cast, type, elem, ofElem, Elem.truncated, he, Functor.map, Except.map,
    bits]

/-- Integer operands are promoted, and the result is converted back. -/
theorem binary_cast (t : IntType) (fop : F32 → F32 → F32) (hop : F16 → F16 → F16)
    (f : Int → Int → Int) (a : BitVec t.bits) {e : Elem} (he : e.isFloating = false) :
    (Elem.binary fop hop (fun _ m n => .ok (f m n)) (t.elem a) e >>= Elem.cast t.type) =
      .ok (t.elem (BitVec.ofInt t.bits (f a.toInt e.toInteger))) := by
  have hbinary : Elem.binary fop hop (fun _ m n => .ok (f m n)) (t.elem a) e =
      if t = .int64 ∨ e.isLong then .ok (.long (BitVec.ofInt 64 (f a.toInt e.toInteger)))
      else .ok (.int (BitVec.ofInt 32 (f a.toInt e.toInteger))) := by
    cases t <;> cases e <;> first | rfl | cases he
  rw [hbinary]
  split
  case isTrue =>
    have hbits : t.bits ≤ 64 := by cases t <;> decide
    refine (t.cast_of_toInteger _ rfl).trans ?_
    exact congrArg (fun x => Except.ok (t.elem x)) (ofInt_toInt_ofInt hbits _)
  case isFalse h =>
    have hbits : t.bits ≤ 32 := by
      cases t with
      | int64 => exact absurd (.inl rfl) h
      | _ => decide
    refine (t.cast_of_toInteger _ rfl).trans ?_
    exact congrArg (fun x => Except.ok (t.elem x)) (ofInt_toInt_ofInt hbits _)

omit [FloatOps] in
theorem isFloating_elem (t : IntType) (x : BitVec t.bits) : (t.elem x).isFloating = false := by
  cases t <;> rfl

theorem cast_elem (t : IntType) (x : BitVec t.bits) :
    (t.elem x).cast t.type = .ok (t.elem x) := by
  rw [t.cast_of_toInteger _ (t.isFloating_elem x), t.ofElem_elem]

theorem cast_bool (t : IntType) (x : BitVec t.bits) :
    (t.elem x).cast .bool = .ok (.bool (x ≠ 0)) := by
  have hzero : x.toInt ≠ 0 ↔ x ≠ 0 := by
    rw [ne_eq, ne_eq, ← BitVec.toInt_inj]
    simp
  simp only [Elem.cast, t.isFloating_elem, toInteger_elem, hzero, Bool.false_eq_true, if_false]

theorem bool_cast (t : IntType) (p : Bool) :
    (Elem.bool p).cast t.type = .ok (t.elem (if p then 1 else 0)) := by
  cases t <;> cases p <;> rfl

end IntType

namespace VectorData

variable [FloatOps]

/-- The element at an index as an integer of type `t`. -/
def int (v : VectorData) (t : IntType) (i : Nat) : BitVec t.bits := t.ofElem (v.elem t.type i)

omit [FloatOps] in
theorem mem_elementTypes {c : CSR} {v : VectorData} (hv : BuiltFor c v) {t : IntType}
    (ht : v.type = t.type) : t.type ∈ elementTypes c.vtypeVsew :=
  ht ▸ hv.type.resolve_right fun h => t.type_ne.1 (ht.symm.trans h)

theorem get_int {c : CSR} {v : VectorData} (hv : BuiltFor c v) {t : IntType} (ht : v.type = t.type)
    {i : Nat} (hi : i < v.vlen) : v.get t.type i = .ok (t.elem (v.int t i)) := by
  obtain ⟨hget, htype⟩ := get_eq_elem hv (mem_elementTypes hv ht) hi
  rw [hget, int, IntType.elem_ofElem htype]

end VectorData

end NdpSim
