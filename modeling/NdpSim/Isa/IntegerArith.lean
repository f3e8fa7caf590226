import NdpSim.Isa.Integers
import Mathlib.Data.BitVec

/-!
# Integer arithmetic

The vector-vector, vector-scalar and vector-immediate forms of `VADD`, `VSUB` and `VMUL` are
operators of their own, each with a list of the types it accepts.
-/
namespace NdpSim

open Library

inductive IntArith
  | add | sub | mul
  deriving DecidableEq

namespace IntArith

def opcode : IntArith → Opcode
  | add => .vadd
  | sub => .vsub
  | mul => .vmul

def onInt : IntArith → Int → Int → Int
  | add, a, b => a + b
  | sub, a, b => a - b
  | mul, a, b => a * b

/-- The operation modulo `2 ^ w`. -/
def op {w : Nat} : IntArith → BitVec w → BitVec w → BitVec w
  | add, a, b => a + b
  | sub, a, b => a - b
  | mul, a, b => a * b

theorem ofInt_onInt (a : IntArith) (w : Nat) (m n : Int) :
    BitVec.ofInt w (a.onInt m n) = a.op (BitVec.ofInt w m) (BitVec.ofInt w n) := by
  cases a with
  | add => exact BitVec.ofInt_add m n
  | sub =>
    apply BitVec.eq_of_toInt_eq
    simp [onInt, op]
  | mul => exact BitVec.ofInt_mul m n

/-- The types all three forms of the operation accept. -/
def accepts : IntArith → List IntType
  | add => [.int32, .int64]
  | sub => [.int16, .int32]
  | mul => [.int32]

/-- An immediate is read as an `int32_t`, whatever the elements are. -/
def KeepsImmediate (t : IntType) (imm : BitVec 64) : Prop :=
  t = .int64 → -2 ^ 31 ≤ imm.toInt ∧ imm.toInt < 2 ^ 31

/-- A register or an immediate that is truncated to a word keeps what a word has of it. -/
theorem ofInt_setWidth {w : Nat} (hw : w ≤ 32) (x : BitVec 64) :
    BitVec.ofInt w (x.setWidth 32).toInt = BitVec.ofInt w x.toInt := by
  have hword : x.setWidth 32 = BitVec.ofInt 32 x.toInt :=
    (BitVec.signExtend_eq_setWidth_of_le x (by decide)).symm
  rw [hword, ofInt_toInt_ofInt hw]

theorem keepsImmediate_iff (t : IntType) (imm : BitVec 64) : KeepsImmediate t imm ↔
    BitVec.ofInt t.bits (imm.setWidth 32).toInt = BitVec.ofInt t.bits imm.toInt := by
  have hword (ht : t.bits ≤ 32) (hne : t ≠ .int64) : KeepsImmediate t imm ↔
      BitVec.ofInt t.bits (imm.setWidth 32).toInt = BitVec.ofInt t.bits imm.toInt :=
    iff_of_true (fun h => absurd h hne) (ofInt_setWidth ht imm)
  cases t with
  | int16 => exact hword (by decide) (by decide)
  | int32 => exact hword (by decide) (by decide)
  | int64 =>
    have hlow : (imm.setWidth 32).toInt = imm.toInt.bmod (2 ^ 32) := by
      rw [BitVec.toInt_setWidth, BitVec.toInt_eq_toNat_bmod,
        Int.bmod_bmod_of_dvd (Nat.pow_dvd_pow 2 (by decide))]
    have hsame : BitVec.ofInt 64 (imm.setWidth 32).toInt = BitVec.ofInt 64 imm.toInt ↔
        imm.toInt.bmod (2 ^ 32) = imm.toInt := by
      rw [← BitVec.toInt_inj, BitVec.ofInt_toInt, BitVec.toInt_ofInt, hlow]
      simp only [Int.bmod]
      omega
    rw [show IntType.int64.bits = 64 from rfl, hsame]
    simp only [KeepsImmediate, Int.bmod, forall_const]
    omega

variable [FloatOps]

def onElem : IntArith → Elem → Elem → Except Fault Elem
  | add => fun a b => a.widen.add b.widen
  | sub => Elem.sub
  | mul => fun a b => a.widen.mul b.widen

/-- The operators, for two vectors, for a vector and a register and for a vector and an
immediate. -/
def vv : IntArith → VectorData → VectorData → Except Fault VectorData
  | add => VectorData.add
  | sub => VectorData.sub
  | mul => VectorData.mul

def vx : IntArith → VectorData → BitVec 64 → Except Fault VectorData
  | add, v, x => v.addInt (.long x)
  | sub, v, x => v.subInt (x.setWidth 32)
  | mul, v, x => v.mulInt (x.setWidth 32)

def vi : IntArith → VectorData → BitVec 32 → Except Fault VectorData
  | add, v, x => v.addInt (.int x)
  | sub, v, x => v.subInt x
  | mul, v, x => v.mulInt x

/-- The operation on elements the operators with a scalar use. -/
def onScalar : IntArith → Elem → Elem → Except Fault Elem
  | add => Elem.add
  | sub => Elem.sub
  | mul => Elem.mul

theorem onScalar_cast (a : IntArith) (t : IntType) (x : BitVec t.bits) {e : Elem}
    (he : e.isFloating = false) :
    (a.onScalar (t.elem x) e >>= Elem.cast t.type) = .ok (t.elem (a.op x (t.ofElem e))) := by
  have hop (n : Int) :
      BitVec.ofInt t.bits (a.onInt x.toInt n) = a.op x (BitVec.ofInt t.bits n) := by
    rw [a.ofInt_onInt, BitVec.ofInt_toInt]
  rw [IntType.ofElem, ← hop]
  cases a with
  | add => exact t.binary_cast _ _ (· + ·) x he
  | sub => exact t.binary_cast _ _ (· - ·) x he
  | mul => exact t.binary_cast _ _ (· * ·) x he

theorem onElem_cast (a : IntArith) (t : IntType) (x y : BitVec t.bits) :
    (a.onElem (t.elem x) (t.elem y) >>= Elem.cast t.type) = .ok (t.elem (a.op x y)) := by
  have hwiden (x : BitVec t.bits) : (t.elem x).widen = t.elem x := by cases t <;> rfl
  have heq : a.onElem (t.elem x) (t.elem y) = a.onScalar (t.elem x) (t.elem y) := by
    cases a <;> simp only [onElem, onScalar, hwiden]
  rw [heq, a.onScalar_cast t x (t.isFloating_elem y), t.ofElem_elem]

end IntArith

namespace VectorData

variable [FloatOps] {c : CSR} {t : IntType} {vs1 vs2 : VectorData}

/-- The lanes of `vs1` with the values `f`. -/
def withInts (vs1 : VectorData) (t : IntType) (f : Nat → BitVec t.bits) :
    Except Fault VectorData :=
  vs1.setAll ((List.range vs1.vlen).map fun i => (i, t.elem (f i)))

theorem zipWith_eq (hv1 : BuiltFor c vs1) (ht1 : vs1.type = t.type) (hv2 : BuiltFor c vs2)
    (ht2 : vs2.type = t.type) {what : String} {allowed : DataType → DataType → Bool}
    (hallowed : allowed t.type t.type = true) {op : Elem → Elem → Except Fault Elem}
    {f : BitVec t.bits → BitVec t.bits → BitVec t.bits}
    (hop : ∀ x y, (op (t.elem x) (t.elem y) >>= Elem.cast t.type) = .ok (t.elem (f x y))) :
    zipWith what allowed op vs1 vs2 = vs1.withInts t fun i => f (vs1.int t i) (vs2.int t i) := by
  have hlen : vs1.vlen = vs2.vlen := hv1.vlen.trans hv2.vlen.symm
  rw [zipWith, if_neg (not_not.mpr hlen), ht1, ht2]
  refine setLanes_eq_setAll fun i hi => ?_
  rw [List.mem_range] at hi
  rw [if_neg (not_not.mpr hallowed), get_int hv1 ht1 hi, get_int hv2 ht2 (hlen ▸ hi)]
  change (op (t.elem _) (t.elem _) >>= fun r => Elem.cast t.type r >>= fun e => pure (some e)) = _
  rw [← bind_assoc, hop]
  rfl

theorem mapWith_eq (hv1 : BuiltFor c vs1) (ht1 : vs1.type = t.type) {what : String}
    {allowed : List DataType} (hallowed : allowed.contains t.type = true)
    {g : Elem → Except Fault Elem} {f : BitVec t.bits → BitVec t.bits}
    (hg : ∀ x, (g (t.elem x) >>= Elem.cast t.type) = .ok (t.elem (f x))) :
    mapWith what allowed id g vs1 = vs1.withInts t fun i => f (vs1.int t i) := by
  refine foldlM_eq_setAll fun v i hi => ?_
  rw [List.mem_range] at hi
  rw [ht1, if_neg (not_not.mpr hallowed), get_int hv1 ht1 hi]
  change (g (t.elem _) >>= fun r => Elem.cast t.type r >>= fun e => v.setData e i >>=
    fun ret => pure (ret.setType t.type)) = _
  rw [← bind_assoc, hg]
  change (v.setData (t.elem _) i >>= fun ret => pure (ret.setType t.type)) = _
  cases hset : v.setData (t.elem (f (vs1.int t i))) i with
  | error e => rfl
  | ok v' =>
    have htype : v'.type = t.type := (setAt_of_setData hset).2.type.trans (t.type_elem _)
    rw [← htype]
    rfl

theorem zipWith_error (hlen : vs1.vlen = vs2.vlen) (hpos : 0 < vs1.vlen) {what : String}
    {allowed : DataType → DataType → Bool} (hallowed : allowed vs1.type vs2.type = false)
    (op : Elem → Elem → Except Fault Elem) :
    ∃ f, zipWith what allowed op vs1 vs2 = .error f := by
  rw [zipWith, if_neg (not_not.mpr hlen)]
  refine setLanes_of_error (List.mem_range.mpr hpos) (e := .runtimeError what) ?_
  rw [hallowed]
  rfl

theorem mapWith_error (hpos : 0 < vs1.vlen) {what : String} {allowed : List DataType}
    (hallowed : allowed.contains vs1.type = false) (retype : DataType → DataType)
    (g : Elem → Except Fault Elem) : ∃ f, mapWith what allowed retype g vs1 = .error f := by
  refine foldlM_error_of_mem (List.mem_range.mpr hpos) (fun v => ⟨.runtimeError what, ?_⟩) vs1
  rw [hallowed]
  rfl

/-- The lanes that are set have their values, and everything else is as before. -/
theorem withInts_spec (hv1 : BuiltFor c vs1) (ht1 : vs1.type = t.type) (f : Nat → BitVec t.bits) :
    ∃ vd, vs1.withInts t f = .ok vd ∧ BuiltFor c vd ∧ vd.type = t.type ∧
      ∀ i < vs1.vlen, vd.get t.type i = .ok (t.elem (f i)) := by
  have hmem := mem_elementTypes hv1 ht1
  obtain ⟨vd, hvd, hall⟩ := setAll_spec (v := vs1) (t := t.type)
    (l := (List.range vs1.vlen).map fun i => (i, t.elem (f i)))
    (by
      intro p hp
      obtain ⟨i, hi, rfl⟩ := List.mem_map.mp hp
      exact hv1.room hmem (List.mem_range.mp hi))
    (by
      intro p hp
      obtain ⟨i, -, rfl⟩ := List.mem_map.mp hp
      exact t.type_elem _)
    (by
      rw [List.map_map]
      exact (List.map_id _).symm ▸ List.nodup_range)
  have htype : vd.type = t.type := by
    rw [hall.type, ht1, ite_self]
  refine ⟨vd, hvd, ⟨.inl (htype ▸ hmem), hall.shape.vlen.trans hv1.vlen,
    hall.shape.doubleReg.trans hv1.doubleReg, hall.shape.words.trans hv1.words⟩, htype,
    fun i hi => ?_⟩
  have hstored : (t.elem (f i)).stored = t.elem (f i) := by cases t <;> rfl
  rw [← hstored]
  exact hall.inside _ (List.mem_map.mpr ⟨i, List.mem_range.mpr hi, rfl⟩)

/-- A vector whose elements are all `y`. -/
structure Splat (c : CSR) (t : IntType) (y : BitVec t.bits) (v : VectorData) : Prop where
  built : BuiltFor c v
  type : v.type = t.type
  elements : ∀ i < v.vlen, v.get t.type i = .ok (t.elem y)

theorem Splat.int {y : BitVec t.bits} {v : VectorData} (h : Splat c t y v) {i : Nat}
    (hi : i < v.vlen) : v.int t i = y :=
  t.elem_injective (Except.ok.inj ((get_int h.built h.type hi).symm.trans (h.elements i hi)))

/-- The settings fit the type, and a register holds at least one element. -/
theorem exists_splat (hv1 : BuiltFor c vs1) (ht1 : vs1.type = t.type) (y : BitVec t.bits) :
    ∃ v, Splat c t y v := by
  obtain ⟨v, -, hbuilt, htype, hget⟩ := withInts_spec hv1 ht1 fun _ => y
  refine ⟨v, hbuilt, htype, fun i hi => hget i ?_⟩
  rwa [hv1.vlen, ← hbuilt.vlen]

end VectorData

namespace IntArith

open VectorData

variable [FloatOps] {c : CSR} {a : IntArith} {t : IntType} {vs1 vs2 : VectorData}

/-! ## The three forms -/

/-- Two vectors are refused by additions of half words and by multiplications of half words and
of double words. -/
theorem vv_eq (hv1 : BuiltFor c vs1) (ht1 : vs1.type = t.type) (hv2 : BuiltFor c vs2)
    (ht2 : vs2.type = t.type) (h : t ∈ a.accepts ∨ (a = .sub ∧ t = .int64)) :
    a.vv vs1 vs2 = vs1.withInts t fun i => a.op (vs1.int t i) (vs2.int t i) := by
  have hop := a.onElem_cast t
  cases a with
  | add =>
    rw [vv, VectorData.add]
    refine zipWith_eq hv1 ht1 hv2 ht2 ?_ hop
    revert h
    cases t <;> decide
  | sub =>
    have hsame : ¬ (vs1.vlen = vs2.vlen ∧ vs1.type = .int64 ∧ vs2.type ≠ .int64) := by
      rw [ht1, ht2]
      exact fun h => h.2.2 h.2.1
    rw [vv, VectorData.sub, if_neg hsame]
    refine zipWith_eq hv1 ht1 hv2 ht2 ?_ hop
    cases t <;> rfl
  | mul =>
    rw [vv, VectorData.mul]
    refine zipWith_eq hv1 ht1 hv2 ht2 ?_ hop
    revert h
    cases t <;> decide

theorem vv_error (hv1 : BuiltFor c vs1) (ht1 : vs1.type = t.type) (hv2 : BuiltFor c vs2)
    (ht2 : vs2.type = t.type) (hpos : 0 < vs1.vlen)
    (h : ¬ (t ∈ a.accepts ∨ (a = .sub ∧ t = .int64))) : ∃ f, a.vv vs1 vs2 = .error f := by
  have hlen : vs1.vlen = vs2.vlen := hv1.vlen.trans hv2.vlen.symm
  cases a with
  | add =>
    rw [vv, VectorData.add]
    refine zipWith_error hlen hpos ?_ _
    rw [ht1, ht2]
    revert h
    cases t <;> decide
  | sub =>
    refine absurd ?_ h
    cases t <;> decide
  | mul =>
    rw [vv, VectorData.mul]
    refine zipWith_error hlen hpos ?_ _
    rw [ht1, ht2]
    revert h
    cases t <;> decide

theorem mapWith_scalar (hv1 : BuiltFor c vs1) (ht1 : vs1.type = t.type) (a : IntArith)
    {what : String} {allowed : List DataType} (hallowed : allowed.contains t.type = true)
    {e : Elem} (he : e.isFloating = false) :
    mapWith what allowed id (fun y => a.onScalar y e) vs1 =
      vs1.withInts t fun i => a.op (vs1.int t i) (t.ofElem e) :=
  mapWith_eq hv1 ht1 hallowed (g := fun y => a.onScalar y e) (f := fun y => a.op y (t.ofElem e))
    fun y => a.onScalar_cast t y he

/-- An immediate, or a register that was truncated to a word. -/
theorem vi_eq (hv1 : BuiltFor c vs1) (ht1 : vs1.type = t.type) (h : t ∈ a.accepts)
    (x : BitVec 32) :
    a.vi vs1 x = vs1.withInts t fun i => a.op (vs1.int t i) (BitVec.ofInt t.bits x.toInt) := by
  cases a with
  | add => exact mapWith_scalar hv1 ht1 .add (by cases t <;> rfl) (e := .int x) rfl
  | sub =>
    have hcommon : common.contains t.type = true := by
      revert h
      cases t <;> decide
    exact mapWith_scalar hv1 ht1 .sub hcommon (e := .int x) rfl
  | mul => exact mapWith_scalar hv1 ht1 .mul (by cases t <;> rfl) (e := .int x) rfl

/-- A register is a scalar of the width of the elements. -/
theorem vx_eq (hv1 : BuiltFor c vs1) (ht1 : vs1.type = t.type) (h : t ∈ a.accepts)
    (x : BitVec 64) :
    a.vx vs1 x = vs1.withInts t fun i => a.op (vs1.int t i) (BitVec.ofInt t.bits x.toInt) := by
  cases a with
  | add => exact mapWith_scalar hv1 ht1 .add (by cases t <;> rfl) (e := .long x) rfl
  | sub =>
    rw [← ofInt_setWidth (by revert h; cases t <;> decide)]
    exact vi_eq hv1 ht1 h (x.setWidth 32)
  | mul =>
    rw [← ofInt_setWidth (by revert h; cases t <;> decide)]
    exact vi_eq hv1 ht1 h (x.setWidth 32)

/-- There is no scalar form of the subtraction of double words. -/
theorem vx_error (ht1 : vs1.type = .int64) (hpos : 0 < vs1.vlen) (x : BitVec 64) :
    ∃ f, IntArith.sub.vx vs1 x = .error f := by
  rw [vx, VectorData.subInt]
  refine mapWith_error hpos ?_ _ _
  rw [ht1]
  rfl

end IntArith

namespace Operands

open VectorData Slot

variable [FloatOps]

/-- Two vectors, or a vector and the scalar or immediate. -/
def arithOperands (c : CSR) (vs1 vs2 : VectorData) (x imm : BitVec 64) : Operands where
  csr := c
  v s := if s = src 0 then vs1 else vs2
  x _ := x
  field _ := imm.toInt

section Forms

variable (a : IntArith) (c : CSR) (vs1 vs2 : VectorData) (x imm : BitVec 64)

theorem result_vv :
    (arithOperands c vs1 vs2 x imm).result a.opcode .vv = some <$> a.vv vs1 vs2 := by
  cases a with
  | add => exact result_of_run (k := executeVadd .vv) rfl rfl nofun rfl (run_liftM_bind ..)
  | sub => exact result_of_run (k := executeVsub .vsub .vv) rfl rfl nofun rfl (run_liftM_bind ..)
  | mul => exact result_of_run (k := executeVmul .vv) rfl rfl nofun rfl (run_liftM_bind ..)

theorem result_vx :
    (arithOperands c vs1 vs2 x imm).result a.opcode .vx = some <$> a.vx vs1 x := by
  cases a with
  | add => exact result_of_run (k := executeVadd .vx) rfl rfl nofun rfl (run_liftM_bind ..)
  | sub => exact result_of_run (k := executeVsub .vsub .vx) rfl rfl nofun rfl (run_liftM_bind ..)
  | mul => exact result_of_run (k := executeVmul .vx) rfl rfl nofun rfl (run_liftM_bind ..)

theorem result_vi :
    (arithOperands c vs1 vs2 x imm).result a.opcode .vi =
      some <$> a.vi vs1 (imm.setWidth 32) := by
  have himm : BitVec.ofInt 64 imm.toInt = imm := BitVec.ofInt_toInt
  conv => rhs; rw [← himm]
  cases a with
  | add => exact result_of_run (k := executeVadd .vi) rfl rfl nofun rfl (run_liftM_bind ..)
  | sub => exact result_of_run (k := executeVsub .vsub .vi) rfl rfl nofun rfl (run_liftM_bind ..)
  | mul => exact result_of_run (k := executeVmul .vi) rfl rfl nofun rfl (run_liftM_bind ..)

end Forms

/-- The lanes are those of the operation, and the scalar forms are the vector form with a vector
of equal elements. -/
structure ArithLaws (a : IntArith) (t : IntType) (c : CSR) (vs1 vs2 : VectorData)
    (x imm : BitVec 64) : Prop where
  vv : (arithOperands c vs1 vs2 x imm).Yields a.opcode .vv fun vd =>
    vd.type = t.type ∧ vd.vlen = vs1.vlen ∧
      ∀ i < vs1.vlen, vd.get t.type i = .ok (t.elem (a.op (vs1.int t i) (vs2.int t i)))
  vx : ∀ v, Splat c t (BitVec.ofInt t.bits x.toInt) v →
    (arithOperands c vs1 vs2 x imm).result a.opcode .vx =
      (arithOperands c vs1 v x imm).result a.opcode .vv
  vi : ∀ v, Splat c t (BitVec.ofInt t.bits imm.toInt) v →
    (arithOperands c vs1 vs2 x imm).result a.opcode .vi =
      (arithOperands c vs1 v x imm).result a.opcode .vv

theorem vv_splat {a : IntArith} {t : IntType} {c : CSR} {vs1 v : VectorData} {y : BitVec t.bits}
    (hv1 : BuiltFor c vs1) (ht1 : vs1.type = t.type) (h : t ∈ a.accepts) (hv : Splat c t y v) :
    a.vv vs1 v = vs1.withInts t fun i => a.op (vs1.int t i) y := by
  rw [IntArith.vv_eq hv1 ht1 hv.built hv.type (.inl h)]
  refine congrArg vs1.setAll (List.map_congr_left fun i hi => ?_)
  rw [List.mem_range, hv1.vlen, ← hv.built.vlen] at hi
  dsimp only
  rw [hv.int hi]

theorem vv_splat_vi {a : IntArith} {t : IntType} {c : CSR} {vs1 v : VectorData} {imm : BitVec 64}
    (hv1 : BuiltFor c vs1) (ht1 : vs1.type = t.type) (h : t ∈ a.accepts) (hpos : 0 < vs1.vlen)
    (hv : Splat c t (BitVec.ofInt t.bits imm.toInt) v) :
    a.vi vs1 (imm.setWidth 32) = a.vv vs1 v ↔ IntArith.KeepsImmediate t imm := by
  rw [IntArith.vi_eq hv1 ht1 h, vv_splat hv1 ht1 h hv, IntArith.keepsImmediate_iff]
  refine ⟨fun heq => ?_, fun heq => by rw [heq]⟩
  obtain ⟨vd, hvd, -, -, hget⟩ := withInts_spec hv1 ht1
    fun i => a.op (vs1.int t i) (BitVec.ofInt t.bits (imm.setWidth 32).toInt)
  obtain ⟨vd', hvd', -, -, hget'⟩ := withInts_spec hv1 ht1
    fun i => a.op (vs1.int t i) (BitVec.ofInt t.bits imm.toInt)
  obtain rfl := Except.ok.inj (hvd.symm.trans (heq.trans hvd'))
  have hfirst := t.elem_injective (Except.ok.inj ((hget 0 hpos).symm.trans (hget' 0 hpos)))
  cases a with
  | add => exact add_left_cancel hfirst
  | sub => exact sub_right_injective hfirst
  | mul =>
    -- only words are multiplied, and a word keeps the immediate
    have hbits : t.bits ≤ 32 := by
      revert h
      cases t <;> decide
    exact IntArith.ofInt_setWidth hbits imm

/-- The laws hold for additions of words and double words, for subtractions of half words and
words, and for multiplications of words; an immediate for double words has to fit into a word. -/
theorem arithLaws_iff (a : IntArith) (t : IntType) {c : CSR} {vs1 vs2 : VectorData}
    (hlmul : c.vtypeVlmul = .m1 ∨ c.vtypeVlmul = .m2) (hv1 : BuiltFor c vs1)
    (ht1 : vs1.type = t.type) (hv2 : BuiltFor c vs2) (ht2 : vs2.type = t.type)
    (x imm : BitVec 64) :
    ArithLaws a t c vs1 vs2 x imm ↔ t ∈ a.accepts ∧ IntArith.KeepsImmediate t imm := by
  have hpos : 0 < vs1.vlen := by
    rw [hv1.vlen, ofContext]
    rcases hlmul with h | h <;> rw [h] <;> cases c.vtypeVsew <;> decide
  have hsome {r r' : Except Fault VectorData} (h : some <$> r = some <$> r') : r = r' := by
    cases r <;> cases r' <;> cases h <;> rfl
  constructor
  · intro hlaws
    obtain ⟨vd, hvd, -⟩ := (yields_iff (result_vv a c vs1 vs2 x imm)).mp hlaws.vv
    have haccepts : t ∈ a.accepts := by
      by_contra hnot
      by_cases hlong : a = .sub ∧ t = .int64
      · obtain ⟨rfl, rfl⟩ := hlong
        obtain ⟨v, hv⟩ := exists_splat hv1 ht1 (BitVec.ofInt 64 x.toInt)
        have heq := hlaws.vx v hv
        obtain ⟨f, hf⟩ := IntArith.vx_error ht1 hpos x
        obtain ⟨vd', hvd', -⟩ := withInts_spec hv1 ht1 fun i => vs1.int .int64 i - v.int .int64 i
        have hvv := IntArith.vv_eq (a := .sub) hv1 ht1 hv.built hv.type (.inr ⟨rfl, rfl⟩)
        rw [result_vx, result_vv, hf, hvv] at heq
        change _ = some <$> withInts vs1 .int64 fun i => vs1.int .int64 i - v.int .int64 i at heq
        rw [hvd'] at heq
        cases heq
      · obtain ⟨f, hf⟩ := IntArith.vv_error hv1 ht1 hv2 ht2 hpos (not_or.mpr ⟨hnot, hlong⟩)
        cases hvd.symm.trans hf
    refine ⟨haccepts, ?_⟩
    obtain ⟨v, hv⟩ := exists_splat hv1 ht1 (BitVec.ofInt t.bits imm.toInt)
    have heq := hlaws.vi v hv
    rw [result_vi, result_vv] at heq
    exact (vv_splat_vi hv1 ht1 haccepts hpos hv).mp (hsome heq)
  · rintro ⟨h, himm⟩
    refine ⟨?_, fun v hv => ?_, fun v hv => ?_⟩
    · rw [yields_iff (result_vv a c vs1 vs2 x imm), IntArith.vv_eq hv1 ht1 hv2 ht2 (.inl h)]
      obtain ⟨vd, hvd, hbuilt, htype, hget⟩ :=
        withInts_spec hv1 ht1 fun i => a.op (vs1.int t i) (vs2.int t i)
      exact ⟨vd, hvd, htype, hbuilt.vlen.trans hv1.vlen.symm, hget⟩
    · rw [result_vx, result_vv, IntArith.vx_eq hv1 ht1 h, vv_splat hv1 ht1 h hv]
    · rw [result_vi, result_vv, (vv_splat_vi hv1 ht1 h hpos hv).mpr himm]

omit [FloatOps] in
theorem arithLaws_counting : letI := FloatOps.zero
    ArithLaws .add .int32 {} counting counting 5 3 :=
  let _ := FloatOps.zero
  (arithLaws_iff .add .int32 (.inl rfl) builtFor_counting rfl builtFor_counting rfl 5 3).mpr
    ⟨by decide, fun h => by cases h⟩

/-- A vector of sixteen half words. -/
def halfWords : VectorData := (ofContext { vtypeVsew := .e16 }).setType .int16

omit [FloatOps] in
/-- Half words are not added. -/
theorem not_arithLaws_halfWords : letI := FloatOps.zero
    BuiltFor { vtypeVsew := .e16 } halfWords ∧
    ¬ ArithLaws .add .int16 { vtypeVsew := .e16 } halfWords halfWords 0 0 := by
  let _ := FloatOps.zero
  have hv : BuiltFor { vtypeVsew := .e16 } halfWords := ⟨by decide, rfl, rfl, rfl⟩
  refine ⟨hv, fun h => ?_⟩
  obtain ⟨vd, hvd, -⟩ := (yields_iff (result_vv .add _ halfWords halfWords 0 0)).mp h.vv
  obtain ⟨f, hf⟩ := IntArith.vv_error (a := .add) (t := .int16) hv rfl hv rfl (by decide)
    (by decide)
  cases hvd.symm.trans hf

end Operands

end NdpSim
