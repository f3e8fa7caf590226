import NdpSim.Functional.Packets
import NdpSim.Register.Conservation

/-!
# Scalar arithmetic and RV64

The integer instructions of `ExecuteScalar` against the results of the architecture. The source
shifts, divides and takes remainders with the signed operators of C++, which leave out the amounts
and divisors the architecture defines, and its right shift keeps the sign.
-/
namespace NdpSim

open Library Exec Slot

/-- The integer instructions with two operands. -/
inductive ScalarOp
  | add | addi | sub | mul | sll | slli | srl | srli | div | rem | and | andi | or | ori
  deriving DecidableEq

namespace ScalarOp

def opcode : ScalarOp → Opcode
  | add => .add
  | addi => .addi
  | sub => .sub
  | mul => .mul
  | sll => .sll
  | slli => .slli
  | srl => .srl
  | srli => .srli
  | div => .div
  | rem => .rem
  | and => .and
  | andi => .andi
  | or => .or
  | ori => .ori

/-- The second operand is the immediate field. -/
def immediate : ScalarOp → Bool
  | addi | slli | srli | andi | ori => true
  | _ => false

/-- What the source computes. -/
def compute (op : ScalarOp) (a b : BitVec 64) : Except Fault (BitVec 64) :=
  match op with
  | add | addi => .ok (a + b)
  | sub => .ok (a - b)
  | mul => .ok (a * b)
  | sll | slli => shl a b
  | srl | srli => shr a b
  | div => signed (Elem.divInt 64) a b
  | rem => signed (ArithOp.rem.onInt 64) a b
  | and | andi => .ok (a &&& b)
  | or | ori => .ok (a ||| b)

/-- What RV64 defines: a division by zero gives -1 and its remainder is the dividend. -/
def rv64 (op : ScalarOp) (a b : BitVec 64) : BitVec 64 :=
  match op with
  | add | addi => a + b
  | sub => a - b
  | mul => a * b
  | sll | slli => a <<< (b.toNat % 64)
  | srl | srli => a >>> (b.toNat % 64)
  | div => if b = 0 then -1 else a.sdiv b
  | rem => if b = 0 then a else a.srem b
  | and | andi => a &&& b
  | or | ori => a ||| b

/-- The operands for which the two agree. -/
def Agrees (op : ScalarOp) (a b : BitVec 64) : Prop :=
  match op with
  | sll | slli => b.toNat < 64
  | srl | srli => b.toNat < 64 ∧ (b = 0 ∨ a.msb = false)
  | div | rem => b ≠ 0 ∧ ¬ (a = BitVec.intMin 64 ∧ b = -1)
  | _ => True

variable {op : ScalarOp} {a b : BitVec 64}

/-- A shift amount as a signed number. -/
theorem toInt_lt_iff : (0 ≤ b.toInt ∧ b.toInt < ((64 : Nat) : Int)) ↔ b.toNat < 64 := by
  rw [BitVec.toInt_eq_toNat_cond]
  omega

theorem toNat_toInt (h : b.toNat < 64) : b.toInt.toNat = b.toNat := by
  rw [BitVec.toInt_eq_toNat_cond]
  omega

theorem shl_eq : shl a b = if b.toNat < 64 then .ok (a <<< b.toNat) else .error .undefined := by
  rw [shl, signed, shiftLeft]
  by_cases h : b.toNat < 64
  · have hpow : BitVec.ofInt 64 (2 ^ b.toNat) = BitVec.twoPow 64 b.toNat := by
      apply BitVec.eq_of_toNat_eq
      rw [BitVec.toNat_ofInt, BitVec.toNat_twoPow]
      norm_cast
    rw [if_pos (toInt_lt_iff.mpr h), if_pos h, toNat_toInt h, BitVec.shiftLeft_eq_mul_twoPow,
      ← hpow]
    refine congrArg Except.ok ?_
    rw [BitVec.ofInt_mul, BitVec.ofInt_toInt]
  · rw [if_neg (fun h' => h (toInt_lt_iff.mp h')), if_neg h]
    rfl

theorem shr_eq : shr a b =
    if b.toNat < 64 then .ok (a.sshiftRight b.toNat) else .error .undefined := by
  rw [shr, signed, shiftRight]
  by_cases h : b.toNat < 64
  · rw [if_pos (toInt_lt_iff.mpr h), if_pos h, toNat_toInt h, BitVec.sshiftRight_eq,
      Int.shiftRight_eq_div_pow]
    rfl
  · rw [if_neg (fun h' => h (toInt_lt_iff.mp h')), if_neg h]
    rfl

/-- The signed and the logical shift differ for negative numbers that are shifted at all. -/
theorem sshiftRight_eq_iff (h : b.toNat < 64) :
    a.sshiftRight b.toNat = a >>> b.toNat ↔ b = 0 ∨ a.msb = false := by
  constructor
  · intro heq
    refine or_iff_not_imp_right.mpr fun hmsb => ?_
    have hbit := congrArg BitVec.msb heq
    rw [BitVec.msb_sshiftRight, BitVec.msb_ushiftRight, Bool.eq_true_of_not_eq_false hmsb,
      Bool.and_true, eq_comm, Bool.not_eq_true', decide_eq_false_iff_not] at hbit
    exact BitVec.eq_of_toNat_eq (by simpa using hbit)
  · rintro (rfl | hmsb)
    · simp
    · exact BitVec.sshiftRight_eq_of_msb_false hmsb

/-- The divisor is neither zero nor does the quotient leave the range. -/
theorem divides_iff :
    (b.toInt = 0 ∨ a.toInt = -2 ^ (64 - 1) ∧ b.toInt = -1) ↔
      b = 0 ∨ a = BitVec.intMin 64 ∧ b = -1 := by
  have hzero : b.toInt = 0 ↔ b = 0 := by
    rw [← BitVec.toInt_inj]
    rfl
  have hone : b.toInt = -1 ↔ b = -1 := by
    rw [← BitVec.toInt_inj]
    rfl
  have hmin : a.toInt = -2 ^ (64 - 1) ↔ a = BitVec.intMin 64 := by
    rw [← BitVec.toInt_inj]
    rfl
  rw [hzero, hone, hmin]

theorem compute_div : compute div a b =
    if b = 0 ∨ a = BitVec.intMin 64 ∧ b = -1 then .error .undefined else .ok (a.sdiv b) := by
  rw [compute, signed, Elem.divInt]
  by_cases h : b = 0 ∨ a = BitVec.intMin 64 ∧ b = -1
  · rw [if_pos (divides_iff.mpr h), if_pos h]
    rfl
  · rw [if_neg (fun h' => h (divides_iff.mp h')), if_neg h]
    refine congrArg Except.ok ?_
    rw [← BitVec.toInt_sdiv_of_ne_or_ne a b (by tauto), BitVec.ofInt_toInt]

theorem compute_rem : compute rem a b =
    if b = 0 ∨ a = BitVec.intMin 64 ∧ b = -1 then .error .undefined else .ok (a.srem b) := by
  rw [compute, signed, ArithOp.onInt]
  by_cases h : b = 0 ∨ a = BitVec.intMin 64 ∧ b = -1
  · rw [if_pos (divides_iff.mpr h), if_pos h]
    rfl
  · rw [if_neg (fun h' => h (divides_iff.mp h')), if_neg h]
    refine congrArg Except.ok ?_
    rw [← BitVec.toInt_srem, BitVec.ofInt_toInt]

theorem compute_eq_iff : op.compute a b = .ok (op.rv64 a b) ↔ op.Agrees a b := by
  cases op with
  | add | addi | sub | mul | and | andi | or | ori => exact iff_of_true rfl trivial
  | sll | slli =>
    change shl a b = .ok (a <<< (b.toNat % 64)) ↔ b.toNat < 64
    rw [shl_eq]
    by_cases h : b.toNat < 64
    · rw [if_pos h, Nat.mod_eq_of_lt h]
      exact iff_of_true rfl h
    · rw [if_neg h]
      exact iff_of_false nofun h
  | srl | srli =>
    change shr a b = .ok (a >>> (b.toNat % 64)) ↔ b.toNat < 64 ∧ (b = 0 ∨ a.msb = false)
    rw [shr_eq]
    by_cases h : b.toNat < 64
    · rw [if_pos h, Nat.mod_eq_of_lt h, Except.ok.injEq, sshiftRight_eq_iff h]
      exact (and_iff_right h).symm
    · rw [if_neg h]
      exact iff_of_false nofun fun h' => h h'.1
  | div =>
    rw [compute_div]
    by_cases h : b = 0 ∨ a = BitVec.intMin 64 ∧ b = -1
    · rw [if_pos h]
      exact iff_of_false nofun fun h' => h.elim h'.1 h'.2
    · obtain ⟨hb, hmin⟩ := not_or.mp h
      rw [if_neg h, rv64, if_neg hb]
      exact iff_of_true rfl ⟨hb, hmin⟩
  | rem =>
    rw [compute_rem]
    by_cases h : b = 0 ∨ a = BitVec.intMin 64 ∧ b = -1
    · rw [if_pos h]
      exact iff_of_false nofun fun h' => h.elim h'.1 h'.2
    · obtain ⟨hb, hmin⟩ := not_or.mp h
      rw [if_neg h, rv64, if_neg hb]
      exact iff_of_true rfl ⟨hb, hmin⟩

/-! ## Instructions -/

variable [FloatOps]

theorem executeScalar_eq (t : OperandType) : executeScalar op.opcode t =
    if op.immediate = true then immediateOp op.compute else registerOp op.compute := by
  cases op <;> rfl

theorem execute_eq (t : OperandType) (segCnt : Int) : execute op.opcode t segCnt = do
    executeScalar op.opcode t
    return false := by
  cases op <;> rfl

/-- The second operand of an instruction: the value of a register or the immediate. -/
def SecondOperand (op : ScalarOp) (u : RegisterUnit) (inst : NdpInstruction) (context : Context)
    (b : BitVec 64) : Prop :=
  if op.immediate = true then b = BitVec.ofInt 64 (inst.src 1)
  else u.readXreg (inst.src 1) context = .ok b

section Run

variable {inst : NdpInstruction} {m : Machine RegisterUnit} {ndpId : Int} {req : RequestInfo}

theorem run_write (x : Except Fault (BitVec 64)) :
    (do writeX dest (← x) : Exec Unit).run
        (Machine.handle (RegisterUnit.fileOps ndpId req) inst) m = do
      let u ← m.regs.writeXreg inst.dest (← x)
      return ((), { m with regs := u }) := by
  rw [Machine.run_liftM_bind]
  refine bind_congr fun v => ?_
  have hhandle : Machine.handle (RegisterUnit.fileOps ndpId req) inst (.writeX dest v) m = do
      let u ← m.regs.writeXreg inst.dest v
      return ((), { m with regs := u }) := rfl
  change (do let (r, m) ← Machine.handle (RegisterUnit.fileOps ndpId req) inst (.writeX dest v) m
             .ok (r, m)) = _
  rw [hhandle]
  cases m.regs.writeXreg inst.dest v <;> rfl

/-- The instruction writes what the source computes. -/
theorem exec_eq (hop : inst.opcode = op.opcode)
    (ha : m.regs.readXreg (inst.src 0) ⟨ndpId, m.csr, req⟩ = .ok a)
    (hb : op.SecondOperand m.regs inst ⟨ndpId, m.csr, req⟩ b) :
    Machine.exec (RegisterUnit.fileOps ndpId req) inst m = do
      let u ← m.regs.writeXreg inst.dest (← op.compute a b)
      return (false, { m with regs := u }) := by
  have ha' : (RegisterUnit.fileOps ndpId req).readX m.regs m.csr (inst.operand (.src 0)) = .ok a :=
    ha
  have hrun : (executeScalar op.opcode inst.operandType).run
      (Machine.handle (RegisterUnit.fileOps ndpId req) inst) m = do
        let u ← m.regs.writeXreg inst.dest (← op.compute a b)
        return ((), { m with regs := u }) := by
    rw [executeScalar_eq]
    by_cases himm : op.immediate = true
    · obtain rfl : b = BitVec.ofInt 64 (inst.src 1) := by simpa [SecondOperand, himm] using hb
      rw [if_pos himm, immediateOp, Machine.run_readX_bind _ ha']
      exact run_write _
    · have hb' : (RegisterUnit.fileOps ndpId req).readX m.regs m.csr (inst.operand (.src 1)) =
          .ok b := by
        rw [SecondOperand, if_neg himm] at hb
        exact hb
      rw [if_neg himm, registerOp, Machine.run_readX_bind _ ha', Machine.run_readX_bind _ hb']
      exact run_write _
  rw [Machine.exec, hop, execute_eq, Prog.run_bind, hrun]
  cases op.compute a b with
  | error e => rfl
  | ok x =>
    rw [ok_bind, ok_bind]
    cases m.regs.writeXreg inst.dest x <;> rfl

/-- An integer instruction writes the result of the architecture, and nothing else, for exactly the
operands on which the two agree. -/
theorem scalar_rv64_iff (hop : inst.opcode = op.opcode)
    (ha : m.regs.readXreg (inst.src 0) ⟨ndpId, m.csr, req⟩ = .ok a)
    (hb : op.SecondOperand m.regs inst ⟨ndpId, m.csr, req⟩ b)
    (hdest : m.regs.isXreg (toInt inst.dest) = true) :
    (∃ u, m.regs.writeXreg inst.dest (op.rv64 a b) = .ok u ∧
      Machine.exec (RegisterUnit.fileOps ndpId req) inst m = .ok (false, { m with regs := u })) ↔
      op.Agrees a b := by
  have hwrite (x : BitVec 64) : m.regs.writeXreg inst.dest x = .ok
      { m.regs with
        xregTable := Function.update m.regs.xregTable (toInt inst.dest) x } := by
    rw [RegisterUnit.writeXreg, if_pos hdest]
  rw [exec_eq hop ha hb, ← compute_eq_iff]
  constructor
  · rintro ⟨u, hu, hexec⟩
    obtain ⟨x, hx, hexec⟩ := bind_eq_ok.mp hexec
    obtain ⟨u', hu', hexec⟩ := bind_eq_ok.mp hexec
    obtain rfl : u' = u := congrArg (fun r => r.2.regs) (Except.ok.inj hexec)
    rw [hwrite] at hu hu'
    have htable := congrArg (fun u => u.xregTable (toInt inst.dest))
      (Except.ok.inj (hu'.trans hu.symm))
    simp only [Function.update_self] at htable
    rw [hx, htable]
  · intro h
    refine ⟨_, hwrite _, ?_⟩
    rw [h, ok_bind, hwrite]
    rfl

end Run

/-! ## A negative dividend -/

/-- `px0` holds -1, and `px1` one. -/
def minusOneUnit : RegisterUnit :=
  { RegisterUnit.create 3 0 0 with
    xregTable := Function.update (Function.update (fun _ => 0) regPXBase (-1)) (regPXBase + 1) 1 }

/-- `op px2, px0, px1` -/
def ofPx0Px1 (op : Opcode) : NdpInstruction :=
  { opcode := op, operandType := .none, src := ![regPXBase, regPXBase + 1, 0, 0, 0],
    dest := regPXBase + 2, segDest := 0, segCnt := 0, doBranch := false }

omit [FloatOps] in
theorem scalar_rv64_div : letI := FloatOps.zero
    ∃ u, minusOneUnit.writeXreg (regPXBase + 2) (div.rv64 (-1) 1) = .ok u ∧
      Machine.exec (RegisterUnit.fileOps 0 RegisterUnit.sampleRequest) (ofPx0Px1 .div)
        ⟨minusOneUnit, noPackets, {}⟩ = .ok (false, ⟨u, noPackets, {}⟩) :=
  let _ := FloatOps.zero
  have hdividend : minusOneUnit.readXreg regPXBase ⟨0, {}, RegisterUnit.sampleRequest⟩ =
      .ok (-1) := rfl
  have hdivisor : div.SecondOperand minusOneUnit (ofPx0Px1 .div)
      ⟨0, {}, RegisterUnit.sampleRequest⟩ 1 := rfl
  have hagrees : div.Agrees (-1) 1 := ⟨by decide, by decide⟩
  have hop : (ofPx0Px1 .div).opcode = div.opcode := rfl
  (scalar_rv64_iff (m := ⟨minusOneUnit, noPackets, {}⟩) hop hdividend hdivisor rfl).mpr hagrees

omit [FloatOps] in
/-- The right shift of -1 by one is -1. -/
theorem not_scalar_rv64_srl : letI := FloatOps.zero
    ¬ ∃ u, minusOneUnit.writeXreg (regPXBase + 2) (srl.rv64 (-1) 1) = .ok u ∧
      Machine.exec (RegisterUnit.fileOps 0 RegisterUnit.sampleRequest) (ofPx0Px1 .srl)
        ⟨minusOneUnit, noPackets, {}⟩ = .ok (false, ⟨u, noPackets, {}⟩) := by
  let _ := FloatOps.zero
  rintro ⟨u, hu, hexec⟩
  have hshift : Machine.exec (RegisterUnit.fileOps 0 RegisterUnit.sampleRequest) (ofPx0Px1 .srl)
      ⟨minusOneUnit, noPackets, {}⟩ = .ok (false, ⟨{ minusOneUnit with
        xregTable := Function.update minusOneUnit.xregTable (regPXBase + 2) (-1) },
        noPackets, {}⟩) := rfl
  obtain rfl := congrArg (fun r => r.2.regs) (Except.ok.inj (hexec.symm.trans hshift))
  have htable := congrArg (fun u => u.xregTable (regPXBase + 2)) (Except.ok.inj hu)
  exact absurd htable (by decide)

end ScalarOp

end NdpSim
