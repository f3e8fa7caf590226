import NdpSim.Isa.VectorData
import NdpSim.Library.Effects
import NdpSim.Library.Pool

/-!
# The register unit

Physical registers are handed out per packet and per register class. A vector register may be
paired with a second physical register when it holds two registers' worth of data; the pairing
is a side map keyed by the first of the two.
-/
namespace NdpSim

open Library

inductive RequestType
  | initializer | kernelBody | finalizer
  deriving DecidableEq

structure RequestInfo where
  type : RequestType
  id : Nat
  launchId : Nat
  kernelId : Nat
  kernelBodyId : Nat
  addr : BitVec 64
  offset : BitVec 64
  deriving DecidableEq

/-- Branch labels and the instruction indices they stand for. -/
abbrev LoopMap := Binding Int Int

/-- The instructions of one request on their way through a sub-core, with the register demand
that was counted for them. -/
structure InstColumn where
  req : RequestInfo
  insts : List NdpInstruction
  loopMap : LoopMap
  xregs : Nat
  fregs : Nat
  vregs : Nat

/-- What a register access sees besides the register file. -/
structure Context where
  ndpId : Int
  csr : CSR
  requestInfo : RequestInfo

inductive RegClass
  | x | f | v
  deriving DecidableEq

structure RegisterUnit where
  numXregs : Nat
  numFregs : Nat
  numVregs : Nat
  xregs : Pool Int Int Int
  fregs : Pool Int Int Int
  vregs : Pool Int Int Int
  doubleVreg : Binding Int Int
  cvtVlmulStatus : Int
  xregTable : Int → BitVec 64
  fregTable : Int → F32
  vregTable : Int → VectorData
  afterRename : List InstColumn
  notReady : Finset Int

namespace RegClass

def base : RegClass → Int
  | x => regPXBase
  | f => regPFBase
  | v => regPVBase

/-- The `n` physical registers of a class. -/
def physical (c : RegClass) (n : Nat) : List Int :=
  (List.range n).map fun i : Nat => c.base + (i : Int)

theorem mem_physical {c : RegClass} {n : Nat} {r : Int} :
    r ∈ c.physical n ↔ c.base ≤ r ∧ r < c.base + n := by
  simp only [physical, List.mem_map, List.mem_range]
  constructor
  · rintro ⟨i, hi, rfl⟩
    omega
  · rintro ⟨hl, hu⟩
    exact ⟨(r - c.base).toNat, by omega, by omega⟩

theorem nodup_physical (c : RegClass) (n : Nat) : (c.physical n).Nodup := by
  refine (List.nodup_map_iff ?_).mpr List.nodup_range
  intro i j h
  simpa using h

def notFound : RegClass → String
  | x => "RegisterUnit::LookUpX: Register not found"
  | f => "RegisterUnit::LookUpF: Register not found"
  | v => "RegisterUnit::LookUpV: Register not found"

end RegClass

namespace RegisterUnit

/-- A fresh register unit: everything is free. `std::vector::resize` clears the tables. -/
def create (numXreg numFreg numVreg : Nat) : RegisterUnit where
  numXregs := numXreg
  numFregs := numFreg
  numVregs := numVreg
  xregs := ⟨RegClass.x.physical numXreg, ∅⟩
  fregs := ⟨RegClass.f.physical numFreg, ∅⟩
  vregs := ⟨RegClass.v.physical numVreg, ∅⟩
  doubleVreg := ∅
  cvtVlmulStatus := 0
  xregTable _ := 0
  fregTable _ := 0
  vregTable _ := VectorData.default
  afterRename := []
  notReady := ∅

def pool (u : RegisterUnit) : RegClass → Pool Int Int Int
  | .x => u.xregs
  | .f => u.fregs
  | .v => u.vregs

def setPool (u : RegisterUnit) (c : RegClass) (p : Pool Int Int Int) : RegisterUnit :=
  match c with
  | .x => { u with xregs := p }
  | .f => { u with fregs := p }
  | .v => { u with vregs := p }

def numRegs (u : RegisterUnit) : RegClass → Nat
  | .x => u.numXregs
  | .f => u.numFregs
  | .v => u.numVregs

@[simp] theorem pool_setPool (u : RegisterUnit) (c : RegClass) (p : Pool Int Int Int)
    (c' : RegClass) : (u.setPool c p).pool c' = if c' = c then p else u.pool c' := by
  cases c <;> cases c' <;> rfl

@[simp] theorem setPool_setPool (u : RegisterUnit) (c : RegClass) (p q : Pool Int Int Int) :
    (u.setPool c p).setPool c q = u.setPool c q := by
  cases c <;> rfl

@[simp] theorem doubleVreg_setPool (u : RegisterUnit) (c : RegClass) (p : Pool Int Int Int) :
    (u.setPool c p).doubleVreg = u.doubleVreg := by
  cases c <;> rfl

@[simp] theorem numRegs_setPool (u : RegisterUnit) (c : RegClass) (p : Pool Int Int Int)
    (c' : RegClass) : (u.setPool c p).numRegs c' = u.numRegs c' := by
  cases c <;> cases c' <;> rfl

/-! ## Readiness -/

def checkReady (u : RegisterUnit) (reg : Int) : Bool := reg ∉ u.notReady

def setNotReady (u : RegisterUnit) (reg : Int) : RegisterUnit :=
  { u with notReady := insert reg u.notReady }

def setReady (u : RegisterUnit) (reg : Int) : RegisterUnit :=
  { u with notReady := u.notReady.erase reg }

/-! ## Renaming -/

def checkSpecialReg (reg : Int) : Bool := spcialRegStart < reg

def checkDoubleReg (u : RegisterUnit) (reg : Int) : Bool :=
  !(toInt reg < regPVBase) && (u.doubleVreg.lookup (toInt reg)).isSome

def checkExistVreg (u : RegisterUnit) (key reg : Int) : Bool :=
  (u.vregs.find? key (toInt reg)).isSome

/-- The lookup shared by the three classes: a bound name, else a special register. -/
def lookUp (u : RegisterUnit) (c : RegClass) (key reg : Int) : Except Fault Int :=
  match (u.pool c).find? key (toInt reg) with
  | some p => .ok p
  | none =>
    if checkSpecialReg (toInt reg) then .ok (toInt reg)
    else .error (.runtimeError c.notFound)

def lookUpX (u : RegisterUnit) (key reg : Int) : Except Fault Int := u.lookUp .x key reg
def lookUpV (u : RegisterUnit) (key reg : Int) : Except Fault Int := u.lookUp .v key reg

/-- `front()` and `pop_front()` of a free list. -/
def popFree (u : RegisterUnit) (c : RegClass) : Except Fault (Int × RegisterUnit) :=
  match (u.pool c).free with
  | [] => .error .emptyFreeList
  | r :: rest => .ok (r, u.setPool c { u.pool c with free := rest })

theorem popFree_eq_ok {u u' : RegisterUnit} {c : RegClass} {r : Int} :
    u.popFree c = .ok (r, u') ↔
      ∃ rest, (u.pool c).free = r :: rest ∧ u' = u.setPool c ⟨rest, (u.pool c).bindings⟩ := by
  unfold popFree
  cases (u.pool c).free with
  | nil => simp
  | cons q rest => simp [eq_comm]

def bind (u : RegisterUnit) (c : RegClass) (key name r : Int) : RegisterUnit :=
  u.setPool c ((u.pool c).bind key name r)

/-- The destination renaming shared by the classes: a bound name keeps its register, a new one
takes the first free register and, for `double`, the next one as its partner. -/
def destRename (u : RegisterUnit) (c : RegClass) (key name : Int) (double : Bool) :
    Except Fault (Int × RegisterUnit) :=
  match (u.pool c).find? key (toInt name) with
  | some p => .ok (p, u)
  | none => do
    let (result, u) ← u.popFree c
    let u := u.bind c key (toInt name) result
    if double then
      let (partner, u) ← u.popFree c
      return (result, { u with doubleVreg := u.doubleVreg.insert result partner })
    else
      return (result, u)

/-- What a successful renaming did: nothing, or one allocation with or without a partner. -/
theorem destRename_cases {u u' : RegisterUnit} {c : RegClass} {key name r : Int} {double : Bool}
    (h : u.destRename c key name double = .ok (r, u')) :
    ((u.pool c).find? key (toInt name) = some r ∧ u' = u) ∨
    ((u.pool c).find? key (toInt name) = none ∧ double = false ∧ ∃ rest,
      (u.pool c).free = r :: rest ∧
      u' = u.setPool c (Pool.bind ⟨rest, (u.pool c).bindings⟩ key (toInt name) r)) ∨
    ((u.pool c).find? key (toInt name) = none ∧ double = true ∧ ∃ partner rest,
      (u.pool c).free = r :: partner :: rest ∧
      u' = { u.setPool c (Pool.bind ⟨rest, (u.pool c).bindings⟩ key (toInt name) r) with
        doubleVreg := u.doubleVreg.insert r partner }) := by
  unfold destRename at h
  cases hf : (u.pool c).find? key (toInt name) with
  | some p =>
    simp only [hf, Except.ok.injEq, Prod.mk.injEq] at h
    exact .inl ⟨congrArg some h.1, h.2.symm⟩
  | none =>
    simp only [hf] at h
    obtain ⟨⟨r₁, u₁⟩, h₁, h⟩ := bind_eq_ok.mp h
    obtain ⟨rest, hfree, rfl⟩ := popFree_eq_ok.mp h₁
    cases double with
    | false =>
      have he : (r₁, _) = (r, u') := Except.ok.inj h
      obtain ⟨rfl, rfl⟩ := Prod.mk.inj he
      refine .inr (.inl ⟨rfl, rfl, rest, hfree, ?_⟩)
      simp [bind]
    | true =>
      obtain ⟨⟨partner, u₂⟩, h₂, h⟩ := bind_eq_ok.mp h
      obtain ⟨rest', hfree', rfl⟩ := popFree_eq_ok.mp h₂
      have he : (r₁, _) = (r, u') := Except.ok.inj h
      obtain ⟨rfl, rfl⟩ := Prod.mk.inj he
      simp only [bind, pool_setPool, if_true, Pool.free_bind] at hfree'
      refine .inr (.inr ⟨rfl, rfl, partner, rest', by rw [hfree, hfree'], ?_⟩)
      simp [bind, Pool.bind, Pool.binding]

/-- A renaming fails only when the free list is too short. -/
theorem destRename_error {u : RegisterUnit} {c : RegClass} {key name : Int} {double : Bool}
    {e : Fault} (h : u.destRename c key name double = .error e) :
    e = .emptyFreeList ∧ (u.pool c).find? key (toInt name) = none ∧
      (u.pool c).free.length < if double then 2 else 1 := by
  unfold destRename at h
  cases hf : (u.pool c).find? key (toInt name) with
  | some p => simp [hf] at h
  | none =>
    simp only [hf, popFree] at h
    cases hfree : (u.pool c).free with
    | nil =>
      rw [hfree] at h
      obtain rfl : Fault.emptyFreeList = e := Except.error.inj h
      cases double <;> simp
    | cons r rest =>
      rw [hfree] at h
      cases double with
      | false => cases h
      | true =>
        cases rest with
        | nil =>
          simp only [bind, pool_setPool, if_true, Pool.bind, Bind.bind, Except.bind] at h
          obtain rfl : Fault.emptyFreeList = e := Except.error.inj h
          simp
        | cons partner rest =>
          simp only [bind, pool_setPool, if_true, Pool.bind, Bind.bind, Except.bind] at h
          cases h

/-- The destination is as wide as a pair: the source is one and the operation does not narrow,
or the source is none and the operation widens. -/
def doublesDest (u : RegisterUnit) (inst : NdpInstruction) : Bool :=
  !inst.opcode.checkNarrowingOp && u.checkDoubleReg (inst.src 0) ||
    inst.opcode.checkWideningOp && !u.checkDoubleReg (inst.src 0)

def destRenameX (u : RegisterUnit) (key : Int) (inst : NdpInstruction) :
    Except Fault (Int × RegisterUnit) := u.destRename .x key inst.dest false

def destRenameF (u : RegisterUnit) (key : Int) (inst : NdpInstruction) :
    Except Fault (Int × RegisterUnit) := u.destRename .f key inst.dest false

def destRenameV (u : RegisterUnit) (key : Int) (inst : NdpInstruction) :
    Except Fault (Int × RegisterUnit) :=
  u.destRename .v key inst.dest (u.doublesDest inst || u.cvtVlmulStatus == immM2)

/-- Segment destinations follow the same rule, but ignore the register multiplier. -/
def destRenameSegV (u : RegisterUnit) (key : Int) (inst : NdpInstruction) (index : Fin 8) :
    Except Fault (Int × RegisterUnit) :=
  u.destRename .v key (inst.segDest index) (u.doublesDest inst)

/-! ## Release -/

/-- The order in which the hash maps list what a packet holds: any order at all. -/
structure IterationOrder (u : RegisterUnit) (key : Int) where
  regs : RegClass → List Int
  perm : ∀ c, (regs c).Perm ((u.pool c).binding key).values

/-- Give back vector registers one by one, each followed by its partner if it has one. -/
def freeVregs : List Int → Binding Int Int → List Int × Binding Int Int
  | [], d => ([], d)
  | r :: rs, d =>
    match d.lookup r with
    | some partner =>
      let (freed, d') := freeVregs rs (d.erase r)
      (r :: partner :: freed, d')
    | none =>
      let (freed, d') := freeVregs rs d
      (r :: freed, d')

def freeRegs (u : RegisterUnit) (key : Int) (order : u.IterationOrder key) : RegisterUnit :=
  let (freed, doubleVreg) := freeVregs (order.regs .v) u.doubleVreg
  { u with
    xregs := u.xregs.release key (order.regs .x)
    fregs := u.fregs.release key (order.regs .f)
    vregs := u.vregs.release key freed
    doubleVreg := doubleVreg }

/-! ## Reading and writing -/

def isXreg (u : RegisterUnit) (reg : Int) : Bool := regPXBase ≤ reg && reg < regPXBase + u.numXregs
def isFreg (u : RegisterUnit) (reg : Int) : Bool := regPFBase ≤ reg && reg < regPFBase + u.numFregs
def isVreg (u : RegisterUnit) (reg : Int) : Bool := regPVBase ≤ reg && reg < regPVBase + u.numVregs

def checkExistRenameVreg (u : RegisterUnit) (reg : Int) : Bool := toInt reg ∉ u.vregs.free

def readXreg (u : RegisterUnit) (reg : Int) (context : Context) : Except Fault (BitVec 64) :=
  let reg := toInt reg
  if reg = regNdpId then .ok (BitVec.ofInt 64 context.ndpId)
  else if reg = regAddr then .ok context.requestInfo.addr
  else if reg = regRequestOffset then .ok context.requestInfo.offset
  else if reg = regX0 then .ok 0
  else if u.isXreg reg then .ok (u.xregTable reg)
  else .error (.runtimeError "RegisterUnit::ReadXreg: Invalid register")

def readFreg (u : RegisterUnit) (reg : Int) : Except Fault F32 :=
  let reg := toInt reg
  if u.isFreg reg then .ok (u.fregTable reg)
  else .error (.runtimeError "RegisterUnit::ReadFreg: Invalid register")

/-- A value is too long for its words; masks are exempt. -/
def overflows (v : VectorData) : Bool :=
  v.type ≠ .vmask && v.data.length < v.vlen * v.getPrecision % 2 ^ 32 / (unionDataSize / byteBit)

/-- Pairs are read as one register, unless the first register alone already has the length the
vector settings ask for. A number that is no vector register reads as an empty register. -/
def readVreg (u : RegisterUnit) (reg : Int) (context : Context) : Except Fault VectorData :=
  let reg := toInt reg
  if u.isVreg reg then
    let result := u.vregTable reg
    match u.doubleVreg.lookup reg with
    | some partner =>
      if result.vlen * context.csr.vtypeVsew.bits * 8 =
          packetSize * byteBit * context.csr.vtypeVlmul.eighths then .ok result
      else result.append (u.vregTable partner)
    | none => .ok result
  else if overflows VectorData.default then
    .error (.runtimeError "RegisterUnit::ReadVreg: Overflow Detected!")
  else .ok VectorData.default

def writeXreg (u : RegisterUnit) (reg : Int) (value : BitVec 64) : Except Fault RegisterUnit :=
  let reg := toInt reg
  if u.isXreg reg then .ok { u with xregTable := Function.update u.xregTable reg value }
  else .error (.runtimeError "RegisterUnit::WriteXreg: Invalid register")

def writeFreg (u : RegisterUnit) (reg : Int) (value : F32) : Except Fault RegisterUnit :=
  let reg := toInt reg
  if u.isFreg reg then .ok { u with fregTable := Function.update u.fregTable reg value }
  else .error (.runtimeError "RegisterUnit::WriteFreg: Invalid register")

/-- A pair is written by halves; a single register keeps its partner's old contents. -/
def writeVreg (u : RegisterUnit) (reg : Int) (value : VectorData) (context : Context) :
    Except Fault RegisterUnit := do
  let reg := toInt reg
  if overflows value then throw (.runtimeError "RegisterUnit::WriteVreg: Overflow Detected!")
  if u.isVreg reg then
    if context.csr.vtypeVlmul = .m2 || value.doubleReg then
      let (lo, hi) ← value.split
      -- a missing partner is created as register 0 by the map access and then rejected
      let partner := (u.doubleVreg.lookup reg).getD 0
      if partner < regPVBase then
        throw (.runtimeError "RegisterUnit::Double register not allocated")
      return { u with
        vregTable := Function.update (Function.update u.vregTable reg lo) partner hi }
    else
      return { u with vregTable := Function.update u.vregTable reg value }
  else throw (.runtimeError "RegisterUnit::WriteVreg: Invalid register")

theorem writeXreg_eq_ok {u u' : RegisterUnit} {reg : Int} {value : BitVec 64} :
    u.writeXreg reg value = .ok u' ↔ u.isXreg (toInt reg) = true ∧
      u' = { u with xregTable := Function.update u.xregTable (toInt reg) value } := by
  simp only [writeXreg]
  split
  case isTrue hr => simp only [hr, Except.ok.injEq, true_and, eq_comm]
  case isFalse hr => simp [hr]

theorem writeFreg_eq_ok {u u' : RegisterUnit} {reg : Int} {value : F32} :
    u.writeFreg reg value = .ok u' ↔ u.isFreg (toInt reg) = true ∧
      u' = { u with fregTable := Function.update u.fregTable (toInt reg) value } := by
  simp only [writeFreg]
  split
  case isTrue hr => simp only [hr, Except.ok.injEq, true_and, eq_comm]
  case isFalse hr => simp [hr]

/-- A vector write changes the vector table only. -/
theorem writeVreg_frame {u u' : RegisterUnit} {reg : Int} {value : VectorData}
    {context : Context} (h : u.writeVreg reg value context = .ok u') :
    ∃ table, u' = { u with vregTable := table } := by
  simp only [writeVreg] at h
  split at h
  · cases h
  split at h
  · split at h
    · obtain ⟨⟨lo, hi⟩, -, h⟩ := bind_eq_ok.mp h
      dsimp only at h
      split at h
      · cases h
      · exact ⟨_, (Except.ok.inj h).symm⟩
    · exact ⟨_, (Except.ok.inj h).symm⟩
  · cases h

end RegisterUnit

end NdpSim
