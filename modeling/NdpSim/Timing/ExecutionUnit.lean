import NdpSim.Functional.Machine

/-!
# Issuing an instruction

`ExecutionUnit::issue` checks that the registers of an instruction are ready, computes the
packets a memory instruction will ask the caches for, executes the instruction and enters its
destination into the scoreboard. Latencies, and with them the free execution units, are left to
the steps of the pipeline.
-/
namespace NdpSim

open Library

namespace Opcode

/-- Scalar instructions of which both source fields are checked. -/
def checksBoth : List Opcode :=
  [add, sub, mul, div, rem, bne, beq, blt, ble, bgt, bge, sd, sw, fsw, fdiv, fmul, fadd, fsub]

/-- Scalar instructions of which the first source field is checked. -/
def checksFirst : List Opcode :=
  [addi, muli, slli, srli, bgtz, bltz, beqz, blez, bgez, bnez, ld, lw, flw, fmv]

/-- `GetAluOpType` is `ADDRESS_OP`. -/
def checkAddressOp (op : Opcode) : Bool := op.checkLoadOp || op.checkStoreOp

end Opcode

namespace NdpInstruction

/-- Operand type `V`; what is not listed goes on to the next case. -/
def checkedSlotsV (op : Opcode) : List Slot :=
  if op ∈ [Opcode.vle16, .vle32, .vle64] then [.src 0]
  else if op ∈ [Opcode.vse16, .vse32, .vse64] then [.src 0, .dest]
  else if op ∈ [Opcode.vluxei32, .vluxei64] then [.src 0, .src 2, .src 3]
  else if op ∈ [Opcode.vsuxei32, .vsuxei64] then [.src 0, .src 2, .src 3, .dest]
  else [.src 0]

/-- The fields whose registers `check_dependency_fail` wants to be ready. -/
def checkedSlots (inst : NdpInstruction) : List Slot :=
  if inst.opcode.checkScalarOp then
    if inst.opcode ∈ Opcode.checksBoth then [.src 0, .src 1]
    else if inst.opcode ∈ Opcode.checksFirst then [.src 0]
    else []
  else if inst.opcode.checkAmoOp then [.src 0, .src 1, .src 2]
  else
    match inst.operandType with
    | .v => checkedSlotsV inst.opcode
    | .vi | .v_v | .xu_f_v | .x_f_v | .f_xu_v | .f_x_v | .f_f_v | .f_f_w | .v_x | .x_s | .s_f
    | .v_f | .f_s => [.src 0]
    | .vv | .wv | .vx | .vf | .vs => [.src 0, .src 1]
    | .s_x => [.src 0, .dest]
    | _ => []

/-- The indexed stores insist on a mask operand. -/
def needsMask (inst : NdpInstruction) : Bool :=
  !inst.opcode.checkScalarOp && !inst.opcode.checkAmoOp && inst.operandType == .v &&
    [Opcode.vsuxei32, .vsuxei64].contains inst.opcode

end NdpInstruction

namespace RegisterUnit

/-- `check_dependency_fail` returns `SUCCESS`. -/
def checkDependency (u : RegisterUnit) (inst : NdpInstruction) : Except Fault Bool :=
  if inst.needsMask && inst.src 3 == -1 then .error .assertion
  else .ok (inst.checkedSlots.all fun s => u.checkReady (toInt (inst.operand s)))

theorem checkReady_of_checkDependency {u : RegisterUnit} {inst : NdpInstruction}
    (h : u.checkDependency inst = .ok true) {s : Slot} (hs : s ∈ inst.checkedSlots) :
    u.checkReady (toInt (inst.operand s)) = true := by
  unfold checkDependency at h
  split at h
  · cases h
  · exact List.all_eq_true.mp (Except.ok.inj h) s hs

end RegisterUnit

/-! ## The packets of a memory instruction -/

/-- An index as `uint64_t`. -/
def indexOf [FloatOps] (v : VectorData) (i : Nat) : Except Fault (BitVec 64) :=
  match v.type with
  | .int32 => do return (← v.getIntData i).signExtend 64
  | .int64 => v.getLongData i
  | .float32 => do
    match FloatOps.toInt (← v.getFloatData i) with
    | some n => if 0 ≤ n ∧ n < 2 ^ 64 then return BitVec.ofInt 64 n else throw .undefined
    | none => throw .undefined
  | .int16 => do return (← v.getShortData i).signExtend 64
  | _ => throw (.runtimeError "unsupported index type")

/-- The packets of one lane: none if the mask operand says so. -/
def laneAddrs [FloatOps] (base : BitVec 64) (vs2 : VectorData) (mask : Option VectorData)
    (i : Nat) : Except Fault (Finset (BitVec 64)) := do
  let idx ← indexOf vs2 i
  match mask with
  | none => return {formatAddr (base + idx)}
  | some vs3 =>
    let vm ← vs3.getVmaskData i
    if vs3.type = .vmask ∧ vm = false then return ∅
    return {formatAddr (base + idx)}

/-- The bytes a load or store without indices is taken to touch, for packets of `packet` bytes. -/
def accessSize (packet : Nat) (op : Opcode) (lmul : Vlmul) : Nat :=
  let reqSize :=
    if op = .vle16 ∨ op = .vse16 then 16
    else if op = .vle32 ∨ op = .vse32 then 32
    else packet
  lmul.eighths * roundUp reqSize packet / 8

/-- The addresses without indices: one for every packet of the access, `packet` squared apart. -/
def generalAddrs (packet : Nat) (op : Opcode) (lmul : Vlmul) (addr : BitVec 64) :
    Finset (BitVec 64) :=
  ((List.range ((accessSize packet op lmul + packet - 1) / packet)).map fun k =>
    formatAddr (addr + BitVec.ofNat 64 (k * packet * packet))).toFinset

namespace RegisterUnit

/-- `inst.addr_set` of a memory instruction. -/
def addrSet [FloatOps] (packet : Nat) (u : RegisterUnit) (inst : NdpInstruction)
    (context : Context) : Except Fault (Finset (BitVec 64)) := do
  let base := formatAddr (← u.readXreg (inst.src 0) context)
  if inst.opcode.checkIndexedOp || inst.opcode.checkAmoOp then
    if inst.opcode.checkVectorOp then
      let vs2 ← u.readVreg (inst.src 2) context
      let vs2 ← if inst.opcode.checkAmoOp then u.readVreg (inst.src 1) context else pure vs2
      let mask ← if inst.src 3 ≠ -1 then some <$> u.readVreg (inst.src 3) context else pure none
      let addrs ← (List.range vs2.vlen).foldlM
        (fun addrs i => do return addrs ∪ (← laneAddrs base vs2 mask i)) ∅
      if addrs = ∅ then throw (.runtimeError "addr set is empty")
      return addrs
    else return {formatAddr base}
  else
    return generalAddrs packet inst.opcode context.csr.vtypeVlmul
      (base + BitVec.ofInt 64 (inst.src 1))

end RegisterUnit

/-! ## Issue -/

/-- The packets `issue` asks the caches for. -/
def Machine.packets [FloatOps] (packet : Nat) (ndpId : Int) (req : RequestInfo)
    (inst : NdpInstruction) (m : Machine RegisterUnit) : Except Fault (Finset (BitVec 64)) :=
  if inst.opcode.checkAddressOp then m.regs.addrSet packet inst ⟨ndpId, m.csr, req⟩ else .ok ∅

/-- `issue` of an instruction other than `EXIT`, with functional simulation: its packets, whether
it branches, and the machine after it. `none` if a register is not ready. -/
def Machine.issue [FloatOps] (packet : Nat) (ndpId : Int) (req : RequestInfo)
    (inst : NdpInstruction) (m : Machine RegisterUnit) :
    Except Fault (Option (Finset (BitVec 64) × Bool × Machine RegisterUnit)) := do
  if ← m.regs.checkDependency inst then
    let addrs ← m.packets packet ndpId req inst
    let (doBranch, m) ← Machine.exec (RegisterUnit.fileOps ndpId req) inst m
    if inst.opcode.checkDestWrite then
      return some (addrs, doBranch, { m with regs := m.regs.setNotReady (toInt inst.dest) })
    return some (addrs, doBranch, m)
  else return none

/-- A successful issue checked its registers and executed the instruction. -/
theorem Machine.issue_eq_some [FloatOps] {packet : Nat} {ndpId : Int} {req : RequestInfo}
    {inst : NdpInstruction} {m m' : Machine RegisterUnit} {addrs : Finset (BitVec 64)}
    {doBranch : Bool} (h : m.issue packet ndpId req inst = .ok (some (addrs, doBranch, m'))) :
    m.regs.checkDependency inst = .ok true ∧
    ∃ m₁, Machine.exec (RegisterUnit.fileOps ndpId req) inst m = .ok (doBranch, m₁) ∧
      m' = if inst.opcode.checkDestWrite then
        { m₁ with regs := m₁.regs.setNotReady (toInt inst.dest) } else m₁ := by
  obtain ⟨ready, hr, h⟩ := bind_eq_ok.mp h
  split at h
  case isFalse => cases h
  case isTrue ht =>
    obtain ⟨addrs', -, h⟩ := bind_eq_ok.mp h
    obtain ⟨⟨b, m₁⟩, he, h⟩ := bind_eq_ok.mp h
    refine ⟨by rw [hr, ht], m₁, ?_⟩
    dsimp only at h
    split at h
    case isTrue hd =>
      have hsome := Option.some_inj.mp (Except.ok.inj h)
      simp only [Prod.mk.injEq] at hsome
      obtain ⟨-, rfl, rfl⟩ := hsome
      exact ⟨he, (if_pos hd).symm⟩
    case isFalse hd =>
      have hsome := Option.some_inj.mp (Except.ok.inj h)
      simp only [Prod.mk.injEq] at hsome
      obtain ⟨-, rfl, rfl⟩ := hsome
      exact ⟨he, (if_neg hd).symm⟩

end NdpSim
