import NdpSim.Isa.Elements
import NdpSim.Isa.Vector
import NdpSim.Register.RoundTrip

/-!
# Results of vector instructions

An instruction that computes a vector is run on given values of its operands, and its result is
what it hands to the destination register.
-/
namespace NdpSim

open Library Exec

/-- The values behind the operand fields of one instruction, and the vector settings. -/
structure Operands where
  csr : CSR := {}
  x : Slot → BitVec 64 := fun _ => 0
  f : Slot → F32 := fun _ => 0
  v : Slot → VectorData := fun _ => .default
  field : Slot → Int := fun _ => -1
  inUse : Bool := false

namespace Operands

/-- The settings the instruction goes on with, and the first vector it has written. -/
structure Progress where
  csr : CSR
  written : Option VectorData

/-- Registers and fields have the given values, and there is no memory. -/
def handle (o : Operands) : Prog.Handler accesses Fault Progress
  | .readX s, p => .ok (o.x s, p)
  | .readF s, p => .ok (o.f s, p)
  | .readV s, p => .ok (o.v s, p)
  | .writeX _ _, p => .ok ((), p)
  | .writeF _ _, p => .ok ((), p)
  | .writeV _ v, p => .ok ((), { p with written := p.written.or (some v) })
  | .checkExistRenameVreg _, p => .ok (o.inUse, p)
  | .operand s, p => .ok (o.field s, p)
  | .present s, p => .ok (o.field s != -1, p)
  | .csr, p => .ok (p.csr, p)
  | .setVstart n, p => .ok ((), { p with csr := { p.csr with vstart := n } })
  | .setVsew sew, p => .ok ((), { p with csr := { p.csr with vtypeVsew := sew } })
  | .setVlmul lmul, p => .ok ((), { p with csr := { p.csr with vtypeVlmul := lmul } })
  | .load _, _ => .error .undefined
  | .store _ _, _ => .error .undefined
  | .checkAddr _, p => .ok (false, p)
  | .tryLoad _, _ => .error .undefined

section Run

variable {o : Operands} {p : Progress} {α : Type}

@[simp] theorem run_csr_bind (k : CSR → Exec α) :
    Prog.run o.handle (Exec.csr >>= k) p = (k p.csr).run o.handle p := rfl

@[simp] theorem run_readX_bind (s : Slot) (k : BitVec 64 → Exec α) :
    Prog.run o.handle (readX s >>= k) p = (k (o.x s)).run o.handle p := rfl

@[simp] theorem run_readV_bind (s : Slot) (k : VectorData → Exec α) :
    Prog.run o.handle (readV s >>= k) p = (k (o.v s)).run o.handle p := rfl

@[simp] theorem run_present_bind (s : Slot) (k : Bool → Exec α) :
    Prog.run o.handle (present s >>= k) p = (k (o.field s != -1)).run o.handle p := rfl

@[simp] theorem run_immediate32_bind (s : Slot) (k : BitVec 32 → Exec α) :
    Prog.run o.handle (immediate32 s >>= k) p =
      (k ((BitVec.ofInt 64 (o.field s)).setWidth 32)).run o.handle p := rfl

@[simp] theorem run_liftM_bind {β : Type} {x : Except Fault β} (k : β → Exec α) :
    Prog.run o.handle (liftM x >>= k) p = x >>= fun v => (k v).run o.handle p := by
  cases x <;> rfl

theorem run_maskOperand_bind (s : Slot) (k : Bool × VectorData → Exec α) :
    Prog.run o.handle (maskOperand s >>= k) p =
      (k (if o.field s != -1 then (true, o.v s) else (false, .default))).run o.handle p := by
  rw [maskOperand, Prog.run_bind, run_present_bind]
  split
  · rw [run_readV_bind]
    rfl
  · rfl

end Run

variable [FloatOps]

/-- The vector the instruction hands to its destination. -/
def result (o : Operands) (op : Opcode) (operandType : OperandType) :
    Except Fault (Option VectorData) := do
  let (_, p) ← (execute op operandType 0).run o.handle ⟨o.csr, none⟩
  return p.written

/-- The instruction has a result, and it satisfies `P`. -/
def Yields (o : Operands) (op : Opcode) (operandType : OperandType) (P : VectorData → Prop) :
    Prop := ∃ vd, o.result op operandType = .ok (some vd) ∧ P vd

/-- A program that computes a vector and writes it. -/
theorem result_of_run {o : Operands} {op : Opcode} {operandType : OperandType}
    {x : Except Fault VectorData} {k : Exec Unit}
    (hop : (op.checkCsrOp || op.checkVectorOp || op.checkSegOp) = true)
    (hbranch : op.checkBranchOp = false) (hexit : op ≠ .exit)
    (hk : executeVectorOp op operandType 0 = k)
    (hrun : k.run o.handle ⟨o.csr, none⟩ = x >>= fun v => .ok ((), ⟨o.csr, some v⟩)) :
    o.result op operandType = some <$> x := by
  rw [result, execute, if_neg hexit, hbranch, hop, executeVector, hk]
  simp only [if_true, Bool.false_eq_true, if_false, Prog.run_bind, hrun]
  cases x <;> rfl

theorem yields_iff {o : Operands} {op : Opcode} {operandType : OperandType}
    {x : Except Fault VectorData} (h : o.result op operandType = some <$> x)
    {P : VectorData → Prop} : o.Yields op operandType P ↔ ∃ vd, x = .ok vd ∧ P vd := by
  rw [Yields, h]
  cases x with
  | error f => simp [Functor.map, Except.map]
  | ok v => simp [Functor.map, Except.map]

end Operands

/-! ## Lanes -/

theorem mem_lanes {s : Int} {n i : Nat} : i ∈ lanes s n ↔ 0 ≤ s ∧ s ≤ i ∧ i < n := by
  rw [lanes]
  split
  · simp only [List.not_mem_nil, false_iff]
    omega
  · rw [List.mem_range'_1]
    omega

/-- From a start that is not negative the lanes are those from the start on. -/
theorem lanes_eq_filter {s : Int} (h : 0 ≤ s) (n : Nat) :
    lanes s n = (List.range n).filter fun i : Nat => decide (s ≤ i) := by
  obtain ⟨k, rfl⟩ := Int.eq_ofNat_of_zero_le h
  rw [lanes, if_neg (by omega), Int.toNat_natCast]
  induction n with
  | zero => simp
  | succ n ih =>
    rw [List.range_succ, List.filter_append, ← ih]
    by_cases hle : k ≤ n
    · have hone : n + 1 - k = n - k + 1 := by omega
      rw [hone, List.range'_1_concat]
      simp [hle]
    · have hzero : n + 1 - k = 0 := by omega
      have hzero' : n - k = 0 := by omega
      rw [hzero, hzero']
      simp [hle]

namespace VectorData

/-! ## Vectors that fit the settings -/

/-- The bits of the elements fit into the words. -/
theorem bits_le_words (csr : CSR) :
    (ofContext csr).vlen * csr.vtypeVsew.bits ≤ 32 * (ofContext csr).data.length := by
  rw [ofContext]
  cases csr.vtypeVsew <;> cases csr.vtypeVlmul <;> decide

theorem BuiltFor.bits_le {csr : CSR} {v : VectorData} (hv : BuiltFor csr v) :
    v.vlen * csr.vtypeVsew.bits ≤ 32 * v.data.length := by
  rw [hv.vlen, hv.words]
  exact bits_le_words csr

/-- An element of the width of the settings has room at every position. -/
theorem BuiltFor.room {csr : CSR} {v : VectorData} (hv : BuiltFor csr v) {t : DataType}
    (ht : t ∈ elementTypes csr.vtypeVsew) {i : Nat} (hi : i < v.vlen) : v.Room t i := by
  have hle := hv.bits_le
  cases hsew : csr.vtypeVsew with
  | e64 =>
    rw [hsew] at ht hle
    obtain rfl := List.mem_singleton.mp ht
    simp only [Vsew.bits] at hle
    exact ⟨hi, by omega⟩
  | e8 | e16 | e32 =>
    rw [hsew] at ht hle
    simp only [elementTypes, List.mem_cons, List.not_mem_nil, or_false] at ht
    simp only [Vsew.bits] at hle
    rcases ht with rfl | rfl | rfl <;>
      simp only [Room, perWord, reduceCtorEq, if_false] <;> omega

/-- An element of that width has room in an empty vector. -/
theorem room_ofContext {csr : CSR} {t : DataType} (ht : t ∈ elementTypes csr.vtypeVsew) {i : Nat}
    (hi : i < (ofContext csr).vlen) : (ofContext csr).Room t i :=
  BuiltFor.room (v := (ofContext csr).setType t) ⟨.inl ht, rfl, rfl, rfl⟩ ht hi

theorem vlen_ofContext_le (csr : CSR) : (ofContext csr).vlen ≤ 256 := by
  rw [ofContext]
  cases csr.vtypeVsew <;> cases csr.vtypeVlmul <;> decide

theorem words_ofContext_le (csr : CSR) : (ofContext csr).data.length ≤ 64 := by
  rw [ofContext]
  cases csr.vtypeVsew <;> cases csr.vtypeVlmul <;> decide

/-- Only vectors of 64-bit elements can be empty. -/
theorem vlen_ofContext_pos {csr : CSR} {t : DataType} (ht : t ∈ elementTypes csr.vtypeVsew)
    (hlong : t ≠ .int64) : 0 < (ofContext csr).vlen := by
  rw [ofContext]
  cases hsew : csr.vtypeVsew with
  | e64 =>
    rw [hsew] at ht
    exact absurd (List.mem_singleton.mp ht) hlong
  | e8 | e16 | e32 => cases csr.vtypeVlmul <;> decide

theorem elementTypes_ne {sew : Vsew} {t : DataType} (ht : t ∈ elementTypes sew) :
    t ≠ .vmask ∧ t ≠ .maxDataType := by
  cases sew <;> revert t <;> decide

/-- The elements of an empty vector. -/
theorem get_ofContext [FloatOps] {csr : CSR} {t : DataType} (ht : t ≠ .vmask ∧ t ≠ .maxDataType)
    (hhalf : t = .float16 → FloatOps.halfOfFloat (FloatOps.fp16IeeeToFp32Value 0) = 0) {i : Nat}
    (h : (ofContext csr).Room t i) : (ofContext csr).get t i = .ok (zeroElem t) := by
  have hzero {j : Nat} (hj : j < (ofContext csr).data.length) :
      (ofContext csr).data[j]? = some 0 := by
    rw [List.getElem?_eq_getElem hj]
    simp [ofContext]
  by_cases hlong : t = .int64
  · subst hlong
    obtain ⟨-, hw⟩ : i < (ofContext csr).vlen ∧ 2 * i + 1 < (ofContext csr).data.length := h
    have hget := getLongData_eq_ok (hzero (by omega : 2 * i < _)) (hzero hw)
    simp only [get, hget]
    rfl
  · obtain ⟨-, hlt⟩ : i / perWord t < (ofContext csr).vlen ∧
        i / perWord t < (ofContext csr).data.length := by
      simpa only [Room, if_neg hlong] using h
    exact get_of_zero hlong ht hhalf (hzero hlt)

/-- The element at an index, a zero where there is none. -/
def elem [FloatOps] (v : VectorData) (t : DataType) (i : Nat) : Elem :=
  match v.get t i with
  | .ok e => e
  | .error _ => zeroElem t

theorem get_eq_elem [FloatOps] {c : CSR} {v : VectorData} (hv : BuiltFor c v) {t : DataType}
    (ht : t ∈ elementTypes c.vtypeVsew) {i : Nat} (hi : i < v.vlen) :
    v.get t i = .ok (v.elem t i) ∧ (v.elem t i).type = t := by
  obtain ⟨e, he, htype⟩ :=
    exists_get (elementTypes_ne ht).1 (elementTypes_ne ht).2 (hv.room ht hi)
  rw [elem, he]
  exact ⟨rfl, htype⟩

/-- A vector of consecutive 32-bit integers. -/
def counting : VectorData :=
  { (ofContext {}).setType .int32 with data := [1, 2, 3, 4, 5, 6, 7, 8] }

theorem builtFor_counting : BuiltFor {} counting := ⟨by decide, rfl, rfl, rfl⟩

/-! ## Masks -/

/-- A mask bit; the words end in zeros. -/
def maskBit (v : VectorData) (i : Nat) : Bool :=
  (v.data[i / unionDataSize]?.getD 0).getLsbD (i % unionDataSize)

theorem getVmaskData_eq {v : VectorData} {i : Nat} (h : i / unionDataSize < v.data.length) :
    v.getVmaskData i = .ok (v.maskBit i) := by
  have hw := List.getElem?_eq_getElem h
  simp only [getVmaskData, maskBit, word, hw]
  rfl

theorem BuiltFor.getVmaskData {csr : CSR} {v : VectorData} (hv : BuiltFor csr v) {i : Nat}
    (hi : i < v.vlen) : v.getVmaskData i = .ok (v.maskBit i) := by
  have hle := hv.bits_le
  have hbits : 8 ≤ csr.vtypeVsew.bits := by cases csr.vtypeVsew <;> decide
  have hmul := Nat.mul_le_mul_left v.vlen hbits
  refine getVmaskData_eq ?_
  simp only [unionDataSize]
  omega

end VectorData

end NdpSim
