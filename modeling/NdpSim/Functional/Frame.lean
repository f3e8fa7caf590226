import NdpSim.Functional.Machine

/-!
# What an instruction looks at

The execution of an instruction depends on the registers its fields name, on their partners, on
the vector settings and on the packets it accesses, and on nothing else of the machine.
-/
namespace NdpSim

open Library

/-- Two memory maps that agree on the packets of `packets`. -/
structure HashMemoryMap.Same (packets : Set (BitVec 64)) (m m' : HashMemoryMap) : Prop where
  base : m.base = m'.base
  size : m.size = m'.size
  synthetic : m.synthetic = m'.synthetic
  data : ∀ addr ∈ packets, m.data addr = m'.data addr

/-- Two register units that agree on the registers of `regs`. -/
structure RegisterUnit.Same (regs : Set Int) (u u' : RegisterUnit) : Prop where
  numXregs : u.numXregs = u'.numXregs
  numFregs : u.numFregs = u'.numFregs
  numVregs : u.numVregs = u'.numVregs
  x : ∀ r ∈ regs, u.xregTable r = u'.xregTable r
  f : ∀ r ∈ regs, u.fregTable r = u'.fregTable r
  v : ∀ r ∈ regs, u.vregTable r = u'.vregTable r
  partner : ∀ r ∈ regs, u.doubleVreg.lookup r = u'.doubleVreg.lookup r
  partnerV : ∀ r ∈ regs, ∀ p, u.doubleVreg.lookup r = some p → u.vregTable p = u'.vregTable p
  free : ∀ r ∈ regs, r ∈ u.vregs.free ↔ r ∈ u'.vregs.free

/-- The numbers in the operand fields of a section. -/
def operands (insts : List NdpInstruction) : Set Int :=
  {r | ∃ inst ∈ insts, ∃ s, r = toInt (inst.operand s)}

namespace HashMemoryMap.Same

variable {packets : Set (BitVec 64)} {m m' : HashMemoryMap} {addr : BitVec 64}

theorem refl (m : HashMemoryMap) : m.Same packets m := ⟨rfl, rfl, rfl, fun _ _ => rfl⟩

theorem symm (h : m.Same packets m') : m'.Same packets m :=
  ⟨h.base.symm, h.size.symm, h.synthetic.symm, fun addr ha => (h.data addr ha).symm⟩

theorem trans {m'' : HashMemoryMap} (h : m.Same packets m') (h' : m'.Same packets m'') :
    m.Same packets m'' :=
  ⟨h.base.trans h'.base, h.size.trans h'.size, h.synthetic.trans h'.synthetic,
    fun addr ha => (h.data addr ha).trans (h'.data addr ha)⟩

theorem inRange (h : m.Same packets m') (addr : BitVec 64) : m.inRange addr ↔ m'.inRange addr := by
  rw [HashMemoryMap.inRange, HashMemoryMap.inRange, h.base, h.size]

theorem load [FloatOps] (h : m.Same packets m') (ha : addr ∈ packets) :
    m.load addr = m'.load addr := by
  unfold HashMemoryMap.load HashMemoryMap.isSynthetic
  simp only [h.inRange, h.synthetic, h.data addr ha]

theorem checkAddr (h : m.Same packets m') (ha : addr ∈ packets) :
    m.checkAddr addr = m'.checkAddr addr := by
  rw [HashMemoryMap.checkAddr, HashMemoryMap.checkAddr, h.data addr ha]

/-- A store changes the same packet of both maps, or faults in both. -/
theorem store (h : m.Same packets m') (ha : addr ∈ packets) (v : VectorData) :
    (∃ e, m.store addr v = .error e ∧ m'.store addr v = .error e) ∨
    ∃ n n', m.store addr v = .ok n ∧ m'.store addr v = .ok n' ∧ n.Same packets n' := by
  simp only [store_eq, h.inRange, h.data addr ha]
  split
  · split
    · exact .inl ⟨_, rfl, rfl⟩
    · refine .inr ⟨_, _, rfl, rfl, h.base, h.size, h.synthetic, fun a ha => ?_⟩
      by_cases he : a = addr
      · simp [he]
      · simp [he, h.data a ha]
  · exact .inl ⟨_, rfl, rfl⟩

end HashMemoryMap.Same

namespace RegisterUnit.Same

variable {regs : Set Int} {u u' : RegisterUnit} {r : Int}

theorem refl (u : RegisterUnit) : u.Same regs u :=
  ⟨rfl, rfl, rfl, fun _ _ => rfl, fun _ _ => rfl, fun _ _ => rfl, fun _ _ => rfl,
    fun _ _ _ _ => rfl, fun _ _ => Iff.rfl⟩

theorem symm (h : u.Same regs u') : u'.Same regs u :=
  ⟨h.numXregs.symm, h.numFregs.symm, h.numVregs.symm, fun r hr => (h.x r hr).symm,
    fun r hr => (h.f r hr).symm, fun r hr => (h.v r hr).symm, fun r hr => (h.partner r hr).symm,
    fun r hr p hp => (h.partnerV r hr p ((h.partner r hr).trans hp)).symm,
    fun r hr => (h.free r hr).symm⟩

theorem trans {u'' : RegisterUnit} (h : u.Same regs u') (h' : u'.Same regs u'') :
    u.Same regs u'' :=
  ⟨h.numXregs.trans h'.numXregs, h.numFregs.trans h'.numFregs, h.numVregs.trans h'.numVregs,
    fun r hr => (h.x r hr).trans (h'.x r hr), fun r hr => (h.f r hr).trans (h'.f r hr),
    fun r hr => (h.v r hr).trans (h'.v r hr), fun r hr => (h.partner r hr).trans (h'.partner r hr),
    fun r hr p hp => (h.partnerV r hr p hp).trans
      (h'.partnerV r hr p ((h.partner r hr).symm.trans hp)),
    fun r hr => (h.free r hr).trans (h'.free r hr)⟩

theorem isXreg (h : u.Same regs u') (r : Int) : u.isXreg r = u'.isXreg r := by
  rw [RegisterUnit.isXreg, RegisterUnit.isXreg, h.numXregs]

theorem isFreg (h : u.Same regs u') (r : Int) : u.isFreg r = u'.isFreg r := by
  rw [RegisterUnit.isFreg, RegisterUnit.isFreg, h.numFregs]

theorem isVreg (h : u.Same regs u') (r : Int) : u.isVreg r = u'.isVreg r := by
  rw [RegisterUnit.isVreg, RegisterUnit.isVreg, h.numVregs]

theorem readXreg (h : u.Same regs u') (hr : toInt r ∈ regs) (context : Context) :
    u.readXreg r context = u'.readXreg r context := by
  simp only [RegisterUnit.readXreg, h.isXreg, h.x _ hr]

theorem readFreg (h : u.Same regs u') (hr : toInt r ∈ regs) : u.readFreg r = u'.readFreg r := by
  simp only [RegisterUnit.readFreg, h.isFreg, h.f _ hr]

theorem readVreg (h : u.Same regs u') (hr : toInt r ∈ regs) (context : Context) :
    u.readVreg r context = u'.readVreg r context := by
  simp only [RegisterUnit.readVreg, h.isVreg, h.v _ hr, h.partner _ hr]
  split
  · cases hp : u'.doubleVreg.lookup (toInt r) with
    | none => rfl
    | some p => simp only [h.partnerV _ hr p ((h.partner _ hr).trans hp)]
  · rfl

theorem checkExistRenameVreg (h : u.Same regs u') (hr : toInt r ∈ regs) :
    u.checkExistRenameVreg r = u'.checkExistRenameVreg r := by
  rw [RegisterUnit.checkExistRenameVreg, RegisterUnit.checkExistRenameVreg,
    decide_eq_decide.mpr (not_congr (h.free _ hr))]

/-- The scoreboard is not looked at. -/
theorem setNotReady (u : RegisterUnit) (r : Int) : (u.setNotReady r).Same regs u :=
  ⟨rfl, rfl, rfl, fun _ _ => rfl, fun _ _ => rfl, fun _ _ => rfl, fun _ _ => rfl,
    fun _ _ _ _ => rfl, fun _ _ => Iff.rfl⟩

theorem setX (h : u.Same regs u') (r : Int) (x : BitVec 64) :
    { u with xregTable := Function.update u.xregTable r x }.Same regs
      { u' with xregTable := Function.update u'.xregTable r x } := by
  refine ⟨h.numXregs, h.numFregs, h.numVregs, fun q hq => ?_, h.f, h.v, h.partner, h.partnerV,
    h.free⟩
  by_cases he : q = r
  · simp [he]
  · simp [he, h.x q hq]

theorem setF (h : u.Same regs u') (r : Int) (x : F32) :
    { u with fregTable := Function.update u.fregTable r x }.Same regs
      { u' with fregTable := Function.update u'.fregTable r x } := by
  refine ⟨h.numXregs, h.numFregs, h.numVregs, h.x, fun q hq => ?_, h.v, h.partner, h.partnerV,
    h.free⟩
  by_cases he : q = r
  · simp [he]
  · simp [he, h.f q hq]

theorem setV (h : u.Same regs u') (r : Int) (v : VectorData) :
    { u with vregTable := Function.update u.vregTable r v }.Same regs
      { u' with vregTable := Function.update u'.vregTable r v } := by
  have hset (q : Int) (hq : u.vregTable q = u'.vregTable q) :
      Function.update u.vregTable r v q = Function.update u'.vregTable r v q := by
    by_cases he : q = r
    · simp [he]
    · simp [he, hq]
  exact ⟨h.numXregs, h.numFregs, h.numVregs, h.x, h.f, fun q hq => hset q (h.v q hq), h.partner,
    fun q hq p hp => hset p (h.partnerV q hq p hp), h.free⟩

end RegisterUnit.Same

/-- Two results that are the same fault, or values that are alike. -/
def alike {α β : Type} (R : α → β → Prop) : Except Fault α → Except Fault β → Prop
  | .ok a, .ok b => R a b
  | .error e, .error e' => e = e'
  | _, _ => False

namespace RegisterUnit.Same

variable {regs : Set Int} {u u' : RegisterUnit} {r : Int}

theorem writeXreg (h : u.Same regs u') (r : Int) (x : BitVec 64) :
    alike (RegisterUnit.Same regs) (u.writeXreg r x) (u'.writeXreg r x) := by
  simp only [RegisterUnit.writeXreg, h.isXreg]
  split
  · exact h.setX _ x
  · rfl

theorem writeFreg (h : u.Same regs u') (r : Int) (x : F32) :
    alike (RegisterUnit.Same regs) (u.writeFreg r x) (u'.writeFreg r x) := by
  simp only [RegisterUnit.writeFreg, h.isFreg]
  split
  · exact h.setF _ x
  · rfl

theorem writeVreg (h : u.Same regs u') (hr : toInt r ∈ regs) (v : VectorData)
    (context : Context) :
    alike (RegisterUnit.Same regs) (u.writeVreg r v context) (u'.writeVreg r v context) := by
  simp only [RegisterUnit.writeVreg, h.isVreg, h.partner _ hr]
  split
  · rfl
  split
  · split
    · cases v.split with
      | error e => rfl
      | ok halves =>
        dsimp only [Bind.bind, Except.bind]
        split
        · rfl
        · exact (h.setV _ _).setV _ _
    · exact h.setV _ v
  · rfl

end RegisterUnit.Same

namespace Memories

variable {packets : Set (BitVec 64)} {m m' : Memories} {addr : BitVec 64}

/-- Two memories that agree on the packets of `packets`. -/
structure Same (packets : Set (BitVec 64)) (m m' : Memories) : Prop where
  global : m.global.Same packets m'.global
  scratchpad : m.scratchpad.Same packets m'.scratchpad

theorem Same.refl (m : Memories) : m.Same packets m :=
  ⟨HashMemoryMap.Same.refl _, HashMemoryMap.Same.refl _⟩

theorem Same.trans {m'' : Memories} (h : m.Same packets m') (h' : m'.Same packets m'') :
    m.Same packets m'' :=
  ⟨h.global.trans h'.global, h.scratchpad.trans h'.scratchpad⟩

theorem Same.symm (h : m.Same packets m') : m'.Same packets m :=
  ⟨h.global.symm, h.scratchpad.symm⟩

theorem Same.get (h : m.Same packets m') (addr : BitVec 64) :
    (m.get addr).Same packets (m'.get addr) := by
  unfold Memories.get
  split
  · exact h.scratchpad
  · exact h.global

theorem Same.store (h : m.Same packets m') (ha : formatAddr addr ∈ packets) (v : VectorData) :
    alike (Memories.Same packets) (m.store addr v) (m'.store addr v) := by
  unfold Memories.store
  obtain ⟨e, hs, hs'⟩ | ⟨n, n', hs, hs', hn⟩ := (h.get (formatAddr addr)).store ha v
  · rw [hs, hs']
    rfl
  · rw [hs, hs']
    change (m.set _ n).Same packets (m'.set _ n')
    unfold Memories.set
    split
    · exact ⟨h.global, hn⟩
    · exact ⟨hn, h.scratchpad⟩

end Memories

/-- Two machines that agree on what instructions with these registers and packets look at. -/
structure Machine.Same (regs : Set Int) (packets : Set (BitVec 64))
    (m m' : Machine RegisterUnit) : Prop where
  regs : m.regs.Same regs m'.regs
  memories : m.memories.Same packets m'.memories
  csr : m.csr = m'.csr

namespace Machine.Same

variable {regs : Set Int} {packets : Set (BitVec 64)} {m m' : Machine RegisterUnit} {ndpId : Int}
  {req : RequestInfo} {inst : NdpInstruction}

theorem refl (m : Machine RegisterUnit) : m.Same regs packets m :=
  ⟨RegisterUnit.Same.refl _, Memories.Same.refl _, rfl⟩

theorem symm (h : m.Same regs packets m') : m'.Same regs packets m :=
  ⟨h.regs.symm, h.memories.symm, h.csr.symm⟩

theorem trans {m'' : Machine RegisterUnit} (h : m.Same regs packets m')
    (h' : m'.Same regs packets m'') : m.Same regs packets m'' :=
  ⟨h.regs.trans h'.regs, h.memories.trans h'.memories, h.csr.trans h'.csr⟩

theorem of_answer {α : Type} (x : Except Fault α) (h : m.Same regs packets m') :
    Prog.Related (Machine.Same regs packets) (do return (← x, m)) (do return (← x, m')) := by
  cases x with
  | error e => rfl
  | ok a => exact ⟨rfl, h⟩

theorem of_regs {x x' : Except Fault RegisterUnit} (h : m.Same regs packets m')
    (hx : alike (RegisterUnit.Same regs) x x') :
    Prog.Related (Machine.Same regs packets) (do return ((), { m with regs := ← x }))
      (do return ((), { m' with regs := ← x' })) := by
  match x, x', hx with
  | .ok u, .ok u', hu => exact ⟨rfl, hu, h.memories, h.csr⟩
  | .error e, .error _, rfl => rfl

variable [FloatOps]

/-- One access of an instruction. -/
theorem handle (hr : ∀ s, toInt (inst.operand s) ∈ regs) (o : Access)
    (m m' : Machine RegisterUnit) (ho : ∀ addr, o.packet? = some addr → addr ∈ packets)
    (h : m.Same regs packets m') :
    Prog.Related (Machine.Same regs packets)
      (Machine.handle (RegisterUnit.fileOps ndpId req) inst o m)
      (Machine.handle (RegisterUnit.fileOps ndpId req) inst o m') := by
  cases o with
  | readX s =>
    simp only [Machine.handle, RegisterUnit.fileOps, h.regs.readXreg (hr s), h.csr]
    exact h.of_answer _
  | readF s =>
    simp only [Machine.handle, RegisterUnit.fileOps, h.regs.readFreg (hr s)]
    exact h.of_answer _
  | readV s =>
    simp only [Machine.handle, RegisterUnit.fileOps, h.regs.readVreg (hr s), h.csr]
    exact h.of_answer _
  | writeX s x => exact h.of_regs (h.regs.writeXreg _ x)
  | writeF s x => exact h.of_regs (h.regs.writeFreg _ x)
  | writeV s v =>
    refine h.of_regs ?_
    change alike _ (m.regs.writeVreg _ v ⟨ndpId, m.csr, req⟩)
      (m'.regs.writeVreg _ v ⟨ndpId, m'.csr, req⟩)
    rw [h.csr]
    exact h.regs.writeVreg (hr s) v _
  | checkExistRenameVreg s => exact ⟨h.regs.checkExistRenameVreg (hr s), h⟩
  | operand s | present s => exact ⟨rfl, h⟩
  | csr => exact ⟨h.csr, h⟩
  | setVstart | setVsew | setVlmul =>
    refine ⟨rfl, h.regs, h.memories, ?_⟩
    rw [h.csr]
  | load addr =>
    have hload : m.memories.load addr = m'.memories.load addr :=
      (h.memories.get _).load (ho _ rfl)
    simp only [Machine.handle, hload]
    exact h.of_answer _
  | store addr v =>
    simp only [Machine.handle]
    have hs := h.memories.store (ho _ rfl) v
    match m.memories.store addr v, m'.memories.store addr v, hs with
    | .ok n, .ok n', hn => exact ⟨rfl, h.regs, hn, h.csr⟩
    | .error e, .error _, rfl => rfl
  | checkAddr addr => exact ⟨(h.memories.get _).checkAddr (ho _ rfl), h⟩
  | tryLoad addr =>
    have hload : m.memories.tryLoad addr = m'.memories.tryLoad addr := by
      unfold Memories.tryLoad
      rw [(h.memories.get addr).load (ho _ rfl)]
    simp only [Machine.handle, hload]
    exact h.of_answer _

theorem exec (hr : ∀ s, toInt (inst.operand s) ∈ regs)
    (ho : ∀ o ∈ m.trace (RegisterUnit.fileOps ndpId req) inst, ∀ addr, o.packet? = some addr →
      addr ∈ packets) (h : m.Same regs packets m') :
    Prog.Related (Machine.Same regs packets)
      (Machine.exec (RegisterUnit.fileOps ndpId req) inst m)
      (Machine.exec (RegisterUnit.fileOps ndpId req) inst m') :=
  Prog.run_related (handle hr) ho h

end Machine.Same

end NdpSim
