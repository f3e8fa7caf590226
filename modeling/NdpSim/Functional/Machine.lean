import NdpSim.Register.Uses

/-!
# The functional machine

What the accesses of an instruction do to the register unit, to the memory maps and to the
vector settings of a micro-thread, and the loop that runs a renamed section.
-/
namespace NdpSim

open Library

/-! ## Memory maps -/

/-- `HashMemoryMap`: packets by address, within a range. Part of the range may be synthetic. -/
structure HashMemoryMap where
  base : Nat
  size : Nat
  synthetic : Option (Nat × Nat)
  data : BitVec 64 → Option VectorData

namespace HashMemoryMap

def inRange (m : HashMemoryMap) (addr : BitVec 64) : Prop :=
  m.base ≤ addr.toNat ∧ addr.toNat < (m.base + m.size) % 2 ^ 64

instance (m : HashMemoryMap) (addr : BitVec 64) : Decidable (m.inRange addr) :=
  inferInstanceAs (Decidable (_ ∧ _))

def isSynthetic (m : HashMemoryMap) (addr : BitVec 64) : Bool :=
  match m.synthetic with
  | some (base, size) => base ≤ addr.toNat && addr.toNat < (base + size) % 2 ^ 64
  | none => false

def load [FloatOps] (m : HashMemoryMap) (addr : BitVec 64) : Except Fault VectorData := do
  if ¬ m.inRange addr then throw .assertion
  if m.isSynthetic addr then
    return ← (VectorData.ofSewLmul 32 8).setFloat (FloatOps.ofInt (addr.toNat % 0x100000)) 0
  match m.data addr with
  | none => throw (.runtimeError "HashMemoryMap::Load failed")
  | some v =>
    if v.doubleReg then throw (.runtimeError "HashMemoryMap::Double reg Stored!")
    return v

def store (m : HashMemoryMap) (addr : BitVec 64) (v : VectorData) : Except Fault HashMemoryMap := do
  if ¬ m.inRange addr then throw .assertion
  if (m.data addr).any VectorData.doubleReg then
    throw (.runtimeError "HashMemoryMap::Double reg Stored!")
  return { m with data := Function.update m.data addr (some v) }

/-- A store faults or overwrites one packet. -/
theorem store_eq (m : HashMemoryMap) (addr : BitVec 64) (v : VectorData) :
    m.store addr v =
      if m.inRange addr then
        if (m.data addr).any VectorData.doubleReg then
          .error (.runtimeError "HashMemoryMap::Double reg Stored!")
        else .ok { m with data := Function.update m.data addr (some v) }
      else .error .assertion := by
  unfold store
  by_cases hr : m.inRange addr
  · rw [if_neg (not_not_intro hr), if_pos hr]
    split <;> rfl
  · rw [if_pos hr, if_neg hr]
    rfl

def checkAddr (m : HashMemoryMap) (addr : BitVec 64) : Bool := (m.data addr).isSome

end HashMemoryMap

def scratchpadBase : Nat := 0x1000000000000000
def scratchpadMaxSize : Nat := 0x0100000000000000

def checkScratchpad (addr : BitVec 64) : Bool :=
  scratchpadBase ≤ addr.toNat && addr.toNat < scratchpadBase + scratchpadMaxSize

/-- The two maps a context points to. -/
structure Memories where
  global : HashMemoryMap
  scratchpad : HashMemoryMap

namespace Memories

def get (m : Memories) (addr : BitVec 64) : HashMemoryMap :=
  if checkScratchpad addr then m.scratchpad else m.global

def set (m : Memories) (addr : BitVec 64) (map : HashMemoryMap) : Memories :=
  if checkScratchpad addr then { m with scratchpad := map } else { m with global := map }

def load [FloatOps] (m : Memories) (addr : BitVec 64) : Except Fault VectorData :=
  (m.get (formatAddr addr)).load (formatAddr addr)

def store (m : Memories) (addr : BitVec 64) (v : VectorData) : Except Fault Memories := do
  return m.set (formatAddr addr) (← (m.get (formatAddr addr)).store (formatAddr addr) v)

def checkAddr (m : Memories) (addr : BitVec 64) : Bool :=
  (m.get (formatAddr addr)).checkAddr (formatAddr addr)

/-- The load of `amo_loop`, which catches `std::runtime_error` only. -/
def tryLoad [FloatOps] (m : Memories) (addr : BitVec 64) : Except Fault (Option VectorData) :=
  match (m.get addr).load (formatAddr addr) with
  | .ok v => .ok (some v)
  | .error (.runtimeError _) => .ok none
  | .error e => .error e

end Memories

/-! ## Register files -/

/-- The accesses that depend on the register file, from a state with memories and settings. -/
structure Machine (ρ : Type) where
  regs : ρ
  memories : Memories
  csr : CSR

/-- How a register file answers the accesses through operand fields. -/
structure FileOps (ρ : Type) where
  readX : ρ → CSR → Int → Except Fault (BitVec 64)
  readF : ρ → Int → Except Fault F32
  readV : ρ → CSR → Int → Except Fault VectorData
  writeX : ρ → Int → BitVec 64 → Except Fault ρ
  writeF : ρ → Int → F32 → Except Fault ρ
  writeV : ρ → CSR → Int → VectorData → Except Fault ρ
  exist : ρ → Int → Bool

namespace Machine

variable [FloatOps] {ρ : Type}

/-- The effect of one access of `inst`. -/
def handle (ops : FileOps ρ) (inst : NdpInstruction) : Prog.Handler accesses Fault (Machine ρ)
  | .readX s, m => do return (← ops.readX m.regs m.csr (inst.operand s), m)
  | .readF s, m => do return (← ops.readF m.regs (inst.operand s), m)
  | .readV s, m => do return (← ops.readV m.regs m.csr (inst.operand s), m)
  | .writeX s x, m => do return ((), { m with regs := ← ops.writeX m.regs (inst.operand s) x })
  | .writeF s x, m => do return ((), { m with regs := ← ops.writeF m.regs (inst.operand s) x })
  | .writeV s v, m => do
    return ((), { m with regs := ← ops.writeV m.regs m.csr (inst.operand s) v })
  | .checkExistRenameVreg s, m => .ok (ops.exist m.regs (inst.operand s), m)
  | .operand s, m => .ok (inst.operand s, m)
  | .present s, m => .ok (inst.operand s != -1, m)
  | .csr, m => .ok (m.csr, m)
  | .setVstart n, m => .ok ((), { m with csr := { m.csr with vstart := n } })
  | .setVsew sew, m => .ok ((), { m with csr := { m.csr with vtypeVsew := sew } })
  | .setVlmul lmul, m => .ok ((), { m with csr := { m.csr with vtypeVlmul := lmul } })
  | .load addr, m => do return (← m.memories.load addr, m)
  | .store addr v, m => do return ((), { m with memories := ← m.memories.store addr v })
  | .checkAddr addr, m => .ok (m.memories.checkAddr addr, m)
  | .tryLoad addr, m => do return (← m.memories.tryLoad addr, m)

/-- `Execute` of one instruction; the answer is the branch flag. -/
def exec (ops : FileOps ρ) (inst : NdpInstruction) (m : Machine ρ) :
    Except Fault (Bool × Machine ρ) :=
  (execute inst.opcode inst.operandType inst.segCnt).run (handle ops inst) m

/-- The accesses `Execute` makes, in order. -/
def trace (ops : FileOps ρ) (inst : NdpInstruction) (m : Machine ρ) : List Access :=
  (execute inst.opcode inst.operandType inst.segCnt).trace (handle ops inst) m

theorem answers_handle {ops : FileOps ρ} {inst : NdpInstruction} (a : Access) (m : Machine ρ)
    (r : a.Ans) (m' : Machine ρ) (h : handle ops inst a m = .ok (r, m')) : inst.answers a r := by
  cases a
  case present s => exact (Prod.mk.inj (Except.ok.inj h)).1.symm
  all_goals trivial

/-- A run stays within the table of uses. -/
theorem within_of_mem_trace {ops : FileOps ρ} {inst : NdpInstruction} {m : Machine ρ} {a : Access}
    (ha : a ∈ m.trace ops inst) : a.Within inst.opcode inst.usesOf :=
  (execute_within inst).mem_trace answers_handle a ha

/-- What the accesses in the table of uses preserve, `Execute` preserves. -/
theorem exec_invariant {ops : FileOps ρ} {inst : NdpInstruction} {I : Machine ρ → Prop}
    (hI : ∀ (a : Access) m (r : a.Ans) m', a.Within inst.opcode inst.usesOf →
      handle ops inst a m = .ok (r, m') → I m → I m')
    {m m' : Machine ρ} {b : Bool} (h : exec ops inst m = .ok (b, m')) (hm : I m) : I m' :=
  (execute_within inst).invariant answers_handle hI h hm

/-- `IsBranch` after `Execute` returned the branch flag. -/
def isBranch (inst : NdpInstruction) (doBranch : Bool) : Int :=
  if inst.opcode.checkBranchOp && doBranch then toInt (inst.src 2) else -1

/-- The index the loop goes on with. A label that is not in the map is undefined behaviour. -/
def nextIndex (loopMap : LoopMap) (i key : Int) : Except Fault Int :=
  if 0 ≤ key then
    match loopMap.lookup key with
    | some target => .ok target
    | none => .error .undefined
  else .ok (i + 1)

/-- One iteration of `ExecuteInsts_Array` at an index inside the section. -/
def iterate (ops : FileOps ρ) (loopMap : LoopMap) (inst : NdpInstruction) (i : Int)
    (m : Machine ρ) : Except Fault (Int × Machine ρ) := do
  let (doBranch, m) ← exec ops inst m
  return (← nextIndex loopMap i (isBranch inst doBranch), m)

/-- At most `n` iterations of `ExecuteInsts_Array` from index `i`; the loop is over when the
index leaves the section, at either end. -/
def executeInstsArray (ops : FileOps ρ) (insts : List NdpInstruction) (loopMap : LoopMap) :
    Nat → Int → Machine ρ → Except Fault (Int × Machine ρ)
  | 0, i, m => .ok (i, m)
  | n + 1, i, m =>
    if i < 0 then .ok (i, m)
    else
      match insts[i.toNat]? with
      | none => .ok (i, m)
      | some inst => do
        let (i, m) ← iterate ops loopMap inst i m
        executeInstsArray ops insts loopMap n i m

/-- The indices `ExecuteInsts_Array` executes in at most `n` iterations from index `i` on; an
instruction that faults is the last. -/
def indices (ops : FileOps ρ) (insts : List NdpInstruction) (loopMap : LoopMap) :
    Nat → Int → Machine ρ → List Int
  | 0, _, _ => []
  | n + 1, i, m =>
    if i < 0 then []
    else
      match insts[i.toNat]? with
      | none => []
      | some inst => i ::
        match iterate ops loopMap inst i m with
        | .ok (i, m) => indices ops insts loopMap n i m
        | .error _ => []

section Loop

variable {ops : FileOps ρ} {insts : List NdpInstruction} {loopMap : LoopMap}

/-- An index outside the section ends the loop. -/
theorem executeInstsArray_outside {i : Int} (hi : i < 0 ∨ (insts.length : Int) ≤ i) (n : Nat)
    (m : Machine ρ) : executeInstsArray ops insts loopMap n i m = .ok (i, m) := by
  cases n with
  | zero => rfl
  | succ n =>
    unfold executeInstsArray
    split
    · rfl
    · rw [List.getElem?_eq_none (by omega)]

theorem indices_outside {i : Int} (hi : i < 0 ∨ (insts.length : Int) ≤ i) (n : Nat)
    (m : Machine ρ) : indices ops insts loopMap n i m = [] := by
  cases n with
  | zero => rfl
  | succ n =>
    unfold indices
    split
    · rfl
    · rw [List.getElem?_eq_none (by omega)]

/-- One iteration inside the section. -/
theorem executeInstsArray_succ {k : Nat} {inst : NdpInstruction} (hi : insts[k]? = some inst)
    (n : Nat) (m : Machine ρ) :
    executeInstsArray ops insts loopMap (n + 1) k m =
      iterate ops loopMap inst k m >>= fun r => executeInstsArray ops insts loopMap n r.1 r.2 := by
  rw [executeInstsArray, if_neg (by omega), Int.toNat_natCast, hi]

theorem indices_succ {k : Nat} {inst : NdpInstruction} (hi : insts[k]? = some inst) {i : Int}
    {m m' : Machine ρ} (hit : iterate ops loopMap inst k m = .ok (i, m')) (n : Nat) :
    indices ops insts loopMap (n + 1) k m = (k : Int) :: indices ops insts loopMap n i m' := by
  rw [indices, if_neg (by omega), Int.toNat_natCast, hi]
  dsimp only
  rw [hit]

theorem executeInstsArray_one {k : Nat} {inst : NdpInstruction} (hi : insts[k]? = some inst)
    (m : Machine ρ) :
    executeInstsArray ops insts loopMap 1 k m = iterate ops loopMap inst k m := by
  rw [executeInstsArray_succ hi]
  cases iterate ops loopMap inst k m <;> rfl

theorem executeInstsArray_add {n k : Nat} {i j : Int} {m m' : Machine ρ}
    (h : executeInstsArray ops insts loopMap n i m = .ok (j, m')) :
    executeInstsArray ops insts loopMap (n + k) i m =
      executeInstsArray ops insts loopMap k j m' := by
  induction n generalizing i m with
  | zero =>
    obtain ⟨rfl, rfl⟩ := Prod.mk.inj (Except.ok.inj h)
    rw [Nat.zero_add]
  | succ n ih =>
    by_cases hout : i < 0 ∨ (insts.length : Int) ≤ i
    · rw [executeInstsArray_outside hout] at h ⊢
      obtain ⟨rfl, rfl⟩ := Prod.mk.inj (Except.ok.inj h)
      rw [executeInstsArray_outside hout]
    · obtain ⟨p, rfl⟩ := Int.eq_ofNat_of_zero_le (by omega : 0 ≤ i)
      have hi := List.getElem?_eq_getElem (by omega : p < insts.length)
      rw [executeInstsArray_succ hi] at h
      obtain ⟨⟨i₁, m₁⟩, hit, h⟩ := bind_eq_ok.mp h
      rw [Nat.add_right_comm, executeInstsArray_succ hi, hit]
      exact ih h

/-- The last of `n + 1` iterations. -/
theorem executeInstsArray_last {n : Nat} {i : Int} {m : Machine ρ} {r : Int × Machine ρ}
    (h : executeInstsArray ops insts loopMap (n + 1) i m = .ok r) :
    ∃ j m', executeInstsArray ops insts loopMap n i m = .ok (j, m') ∧
      executeInstsArray ops insts loopMap 1 j m' = .ok r := by
  induction n generalizing i m with
  | zero => exact ⟨i, m, rfl, h⟩
  | succ n ih =>
    by_cases hout : i < 0 ∨ (insts.length : Int) ≤ i
    · rw [executeInstsArray_outside hout] at h
      refine ⟨i, m, executeInstsArray_outside hout _ _, ?_⟩
      rw [executeInstsArray_outside hout]
      exact h
    · obtain ⟨p, rfl⟩ := Int.eq_ofNat_of_zero_le (by omega : 0 ≤ i)
      have hi := List.getElem?_eq_getElem (by omega : p < insts.length)
      rw [executeInstsArray_succ hi] at h
      obtain ⟨⟨i₁, m₁⟩, hit, h⟩ := bind_eq_ok.mp h
      obtain ⟨j, m', hn, hlast⟩ := ih h
      refine ⟨j, m', ?_, hlast⟩
      rw [executeInstsArray_succ hi, hit]
      exact hn

theorem indices_add {n k : Nat} {i j : Int} {m m' : Machine ρ}
    (h : executeInstsArray ops insts loopMap n i m = .ok (j, m')) :
    indices ops insts loopMap (n + k) i m =
      indices ops insts loopMap n i m ++ indices ops insts loopMap k j m' := by
  induction n generalizing i m with
  | zero =>
    obtain ⟨rfl, rfl⟩ := Prod.mk.inj (Except.ok.inj h)
    rw [Nat.zero_add]
    rfl
  | succ n ih =>
    by_cases hout : i < 0 ∨ (insts.length : Int) ≤ i
    · rw [executeInstsArray_outside hout] at h
      obtain ⟨rfl, rfl⟩ := Prod.mk.inj (Except.ok.inj h)
      rw [indices_outside hout, indices_outside hout, indices_outside hout]
      rfl
    · obtain ⟨p, rfl⟩ := Int.eq_ofNat_of_zero_le (by omega : 0 ≤ i)
      have hi := List.getElem?_eq_getElem (by omega : p < insts.length)
      rw [executeInstsArray_succ hi] at h
      obtain ⟨⟨i₁, m₁⟩, hit, h⟩ := bind_eq_ok.mp h
      rw [Nat.add_right_comm, indices_succ hi hit, indices_succ hi hit, ih h]
      rfl

end Loop

end Machine

/-- The register unit as it serves the accesses of a request on unit `ndpId`. -/
def RegisterUnit.fileOps (ndpId : Int) (req : RequestInfo) : FileOps RegisterUnit where
  readX u csr reg := u.readXreg reg ⟨ndpId, csr, req⟩
  readF u reg := u.readFreg reg
  readV u csr reg := u.readVreg reg ⟨ndpId, csr, req⟩
  writeX u reg x := u.writeXreg reg x
  writeF u reg x := u.writeFreg reg x
  writeV u csr reg v := u.writeVreg reg v ⟨ndpId, csr, req⟩
  exist u reg := u.checkExistRenameVreg reg

namespace RegisterUnit

/-- The same unit up to the contents of the registers. -/
def Refilled (u u' : RegisterUnit) : Prop :=
  ∃ xt ft vt, u' = { u with xregTable := xt, fregTable := ft, vregTable := vt }

theorem Refilled.refl (u : RegisterUnit) : u.Refilled u :=
  ⟨u.xregTable, u.fregTable, u.vregTable, rfl⟩

theorem Refilled.trans {u u' u'' : RegisterUnit} (h : u.Refilled u') (h' : u'.Refilled u'') :
    u.Refilled u'' := by
  obtain ⟨xt, ft, vt, rfl⟩ := h
  obtain ⟨xt', ft', vt', rfl⟩ := h'
  exact ⟨xt', ft', vt', rfl⟩

end RegisterUnit

namespace Machine

variable [FloatOps] {ndpId : Int} {req : RequestInfo} {inst : NdpInstruction}

/-- No access changes more of the register unit than the contents of registers. -/
theorem refilled_handle {a : Access} {r : a.Ans} {m m' : Machine RegisterUnit}
    (h : handle (RegisterUnit.fileOps ndpId req) inst a m = .ok (r, m')) :
    m.regs.Refilled m'.regs := by
  cases a
  case writeX s x =>
    obtain ⟨u, hu, h⟩ := bind_eq_ok.mp h
    obtain ⟨-, rfl⟩ := RegisterUnit.writeXreg_eq_ok.mp hu
    obtain ⟨-, rfl⟩ := Prod.mk.inj (Except.ok.inj h)
    exact ⟨_, _, _, rfl⟩
  case writeF s x =>
    obtain ⟨u, hu, h⟩ := bind_eq_ok.mp h
    obtain ⟨-, rfl⟩ := RegisterUnit.writeFreg_eq_ok.mp hu
    obtain ⟨-, rfl⟩ := Prod.mk.inj (Except.ok.inj h)
    exact ⟨_, _, _, rfl⟩
  case writeV s v =>
    obtain ⟨u, hu, h⟩ := bind_eq_ok.mp h
    obtain ⟨table, rfl⟩ := RegisterUnit.writeVreg_frame hu
    obtain ⟨-, rfl⟩ := Prod.mk.inj (Except.ok.inj h)
    exact ⟨_, _, _, rfl⟩
  case readX | readF | readV | load | store | tryLoad =>
    obtain ⟨x, -, h⟩ := bind_eq_ok.mp h
    obtain ⟨-, rfl⟩ := Prod.mk.inj (Except.ok.inj h)
    exact RegisterUnit.Refilled.refl _
  all_goals
    obtain ⟨-, rfl⟩ := Prod.mk.inj (Except.ok.inj h)
    exact RegisterUnit.Refilled.refl _

end Machine

end NdpSim
