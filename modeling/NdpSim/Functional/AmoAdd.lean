import NdpSim.Functional.Packets
import NdpSim.Isa.Integers
import Mathlib.Algebra.BigOperators.Group.List.Basic
import Mathlib.Data.BitVec

/-!
# Scalar atomic additions

`AMOADD` adds a register to an element of a packet. Both widths compute an `int` and store it as a
word, so that the additions of a list add up whatever their order is, but in words only.
-/
namespace NdpSim

open Library Exec Slot VectorData

inductive AddWidth
  | w | d
  deriving DecidableEq

namespace AddWidth

def operandType : AddWidth → OperandType
  | w => .w
  | d => .d

def type : AddWidth → IntType
  | w => .int32
  | d => .int64

def size : AddWidth → Nat
  | w => 4
  | d => 8

theorem size_dvd (k : AddWidth) : k.size = 2 ∨ k.size = 4 ∨ k.size = 8 := by
  cases k
  · exact .inr (.inl rfl)
  · exact .inr (.inr rfl)

end AddWidth

/-- An instruction of some micro-thread, with its registers and settings. -/
structure Issued (ρ : Type) where
  inst : NdpInstruction
  regs : ρ
  csr : CSR

namespace Machine

variable [FloatOps] {ρ : Type} {ops : FileOps ρ}

/-- Instructions of any micro-threads executed one after the other on one memory. -/
def executeAll (ops : FileOps ρ) : List (Issued ρ) → Memories → Except Fault Memories
  | [], mem => .ok mem
  | a :: as, mem => do
    let (_, m) ← exec ops a.inst ⟨a.regs, mem, a.csr⟩
    executeAll ops as m.memories

omit [FloatOps] in
/-- The instruction is an `AMOADD` of `x` to the element at `addr`, with a destination that can be
written. -/
structure Adds (ops : FileOps ρ) (k : AddWidth) (addr x : BitVec 64) (a : Issued ρ) : Prop where
  opcode : a.inst.opcode = .amoadd
  operandType : a.inst.operandType = k.operandType
  address : ops.readX a.regs a.csr (a.inst.operand (src 2)) = .ok addr
  operand : ops.readX a.regs a.csr (a.inst.operand (src 1)) = .ok x
  destination : ∀ y, ∃ regs, ops.writeX a.regs (a.inst.operand dest) y = .ok regs

/-- The packet of `addr` is `v` up to its element `i`, which is `y`; the other packets are as
before. -/
structure Changed (t : IntType) (addr : BitVec 64) (i : Nat) (y : BitVec t.bits)
    (mem : Memories) (v : VectorData) (mem' : Memories) : Prop where
  packet : ∃ v', mem'.load addr = .ok v' ∧ v'.type = v.type ∧ v'.vlen = v.vlen ∧
    v'.get t.type i = .ok (t.elem y) ∧ ∀ j, j ≠ i → v'.get t.type j = v.get t.type j
  others : ∀ a, formatAddr a ≠ formatAddr addr → mem'.packet a = mem.packet a

/-- The value `AMOADD` stores: an `int`, whatever the width is. -/
def sum (k : AddWidth) (v : VectorData) (i : Nat) (x : BitVec 64) : Except Fault (BitVec 32) :=
  match k with
  | .w => do return (← v.getIntData i) + x.setWidth 32
  | .d => do return ((← v.getLongData i) + x).setWidth 32

theorem exec_amoadd {k : AddWidth} {addr x : BitVec 64} {a : Issued ρ} (h : Adds ops k addr x a)
    (mem : Memories) : exec ops a.inst ⟨a.regs, mem, a.csr⟩ = do
      let v ← mem.loadOrEmpty a.csr addr
      let i ← elementIndex addr k.size
      let y ← sum k v i x
      let v ← v.setInt y i
      let mem ← mem.store addr v
      let regs ← ops.writeX a.regs (a.inst.operand dest) (y.signExtend 64)
      return (false, ⟨regs, mem, a.csr⟩) := by
  have hunder : exec ops a.inst ⟨a.regs, mem, a.csr⟩ =
      (executeScalar .amoadd k.operandType).run (handle ops a.inst) ⟨a.regs, mem, a.csr⟩ >>=
        fun r => pure (false, r.2) := by
    rw [exec, h.opcode, h.operandType]
    exact Prog.run_bind ..
  have haddr : (readX (src 2)).run (handle ops a.inst) ⟨a.regs, mem, a.csr⟩ =
      .ok (addr, ⟨a.regs, mem, a.csr⟩) := run_readX _ h.address
  have hx : (readX (src 1)).run (handle ops a.inst) ⟨a.regs, mem, a.csr⟩ =
      .ok (x, ⟨a.regs, mem, a.csr⟩) := run_readX _ h.operand
  rw [hunder]
  cases k with
  | w =>
    simp only [executeScalar, AddWidth.operandType, Prog.run_bind, haddr, hx, run_liftM,
      run_loadOrEmpty, run_store, run_writeX, bind_assoc, ok_bind, Prog.run_pure, sum, pure_bind]
    rfl
  | d =>
    simp only [executeScalar, AddWidth.operandType, Prog.run_bind, haddr, hx, run_liftM,
      run_loadOrEmpty, run_store, run_writeX, bind_assoc, ok_bind, Prog.run_pure, sum, pure_bind]
    rfl

/-- What an addition that returns has stored. -/
theorem stored_of_amoadd {k : AddWidth} {addr x : BitVec 64} {a : Issued ρ}
    (h : Adds ops k addr x a) {mem : Memories} {r : Bool × Machine ρ}
    (hr : exec ops a.inst ⟨a.regs, mem, a.csr⟩ = .ok r) :
    ∃ v i y v', mem.loadOrEmpty a.csr addr = .ok v ∧ elementIndex addr k.size = .ok i ∧
      sum k v i x = .ok y ∧ v.setInt y i = .ok v' ∧ mem.Stored addr v' r.2.memories := by
  rw [exec_amoadd h] at hr
  obtain ⟨v, hv, hr⟩ := bind_eq_ok.mp hr
  obtain ⟨i, hi, hr⟩ := bind_eq_ok.mp hr
  obtain ⟨y, hy, hr⟩ := bind_eq_ok.mp hr
  obtain ⟨v', hv', hr⟩ := bind_eq_ok.mp hr
  obtain ⟨mem', hmem', hr⟩ := bind_eq_ok.mp hr
  obtain ⟨regs, -, hr⟩ := bind_eq_ok.mp hr
  obtain rfl := Except.ok.inj hr
  exact ⟨v, i, y, v', hv, hi, hy, hv', (Memories.stored_of_store hmem').2.2⟩

/-- Every addition leaves a packet of words. -/
theorem int32_of_executeAll {k : AddWidth} {addr : BitVec 64} {as : List (Issued ρ × BitVec 64)}
    (hadds : ∀ p ∈ as, Adds ops k addr p.2 p.1) {mem mem' : Memories}
    (hrun : executeAll ops (as.map Prod.fst) mem = .ok mem')
    (h : as ≠ [] ∨ ∃ w, mem.packet addr = some w ∧ w.type = .int32) :
    ∃ w, mem'.packet addr = some w ∧ w.type = .int32 := by
  induction as generalizing mem with
  | nil =>
    obtain rfl := Except.ok.inj hrun
    exact h.resolve_left (not_not.mpr rfl)
  | cons p as ih =>
    obtain ⟨r, hr, hrun⟩ := bind_eq_ok.mp hrun
    obtain ⟨v, i, y, v', -, -, -, hset, hstored⟩ :=
      stored_of_amoadd (hadds p List.mem_cons_self) hr
    refine ih (fun q hq => hadds q (List.mem_cons_of_mem _ hq)) hrun (.inr ⟨v', hstored.self, ?_⟩)
    exact (setAt_of_setData (e := .int y) hset).2.type

/-- One addition to a word. -/
theorem exec_amoadd_word {addr x : BitVec 64} {a : Issued ρ} (h : Adds ops .w addr x a)
    {mem : Memories} {v : VectorData} {old : BitVec 32} (hload : mem.load addr = .ok v)
    (htype : v.type = .int32) (halign : addr.toNat % 4 = 0) (hindexable : Indexable addr)
    (hold : v.get .int32 (elementAt addr 4) = .ok (.int old)) (hlt : elementAt addr 4 < v.vlen) :
    ∃ regs mem', exec ops a.inst ⟨a.regs, mem, a.csr⟩ = .ok (false, ⟨regs, mem', a.csr⟩) ∧
      Changed .int32 addr (elementAt addr 4) (old + x.setWidth 32) mem v mem' := by
  have hsyn := Memories.not_synthetic_of_load hload (by rw [htype]; decide)
  have hr := Memories.inRange_of_load hload
  obtain ⟨hpacket, hsingle⟩ := Memories.packet_of_load hr hsyn hload
  have hword : elementAt addr 4 < v.data.length := by
    by_contra hge
    obtain ⟨f, hf⟩ := get_of_not_lt (v := v) (t := .int32) (i := elementAt addr 4) (by decide)
      (by simpa [perWord] using hge)
    cases hold.symm.trans hf
  have hroom : v.Room .int32 (elementAt addr 4) := by
    refine (if_neg (by decide)).mpr ⟨?_, ?_⟩ <;> simpa [perWord]
  obtain ⟨v', hset, hat⟩ := setData_spec (e := .int (old + x.setWidth 32)) hroom
  have hsingle' : v'.doubleReg = false := hat.shape.doubleReg.trans hsingle
  obtain ⟨mem', hstore, hstored⟩ := Memories.store_spec hr
    (fun w hw => by obtain rfl := Option.some.inj (hpacket.symm.trans hw); exact hsingle) v'
  obtain ⟨regs, hregs⟩ := h.destination ((old + x.setWidth 32).signExtend 64)
  have hindex : elementIndex addr AddWidth.w.size = .ok (elementAt addr 4) :=
    (elementIndex_eq AddWidth.w.size_dvd halign).trans (if_pos hindexable)
  have hsum : sum .w v (elementAt addr 4) x = .ok (old + x.setWidth 32) := by
    have hint : v.getIntData (elementAt addr 4) = .ok old := by
      cases hint : v.getIntData (elementAt addr 4) with
      | error e =>
        simp only [VectorData.get, hint] at hold
        cases hold
      | ok w =>
        simp only [VectorData.get, hint] at hold
        exact congrArg Except.ok (Elem.int.inj (Except.ok.inj hold))
    rw [sum, hint]
    rfl
  refine ⟨regs, mem', ?_, ⟨v', ?_, hat.type.trans htype.symm, hat.shape.vlen, hat.self, hat.other⟩,
    fun a => hstored.other⟩
  · rw [exec_amoadd h, Memories.loadOrEmpty_of_packet hpacket, hload]
    change (elementIndex addr AddWidth.w.size >>= _) = _
    rw [hindex, ok_bind, hsum, ok_bind]
    change (v.setData (.int (old + x.setWidth 32)) (elementAt addr 4) >>= _) = _
    rw [hset, ok_bind, hstore, ok_bind, hregs, ok_bind]
    rfl
  · exact Memories.load_of_packet ((hstored.inRange addr).mpr hr)
      ((hstored.isSynthetic addr).trans hsyn) hstored.self hsingle'

/-- Additions to a word add up. -/
theorem executeAll_words {addr : BitVec 64} (halign : addr.toNat % 4 = 0)
    (hindexable : Indexable addr) {as : List (Issued ρ × BitVec 64)}
    (hadds : ∀ p ∈ as, Adds ops .w addr p.2 p.1) {mem : Memories} {v : VectorData}
    {old : BitVec 32} (hload : mem.load addr = .ok v) (htype : v.type = .int32)
    (hold : v.get .int32 (elementAt addr 4) = .ok (.int old)) (hlt : elementAt addr 4 < v.vlen) :
    ∃ mem', executeAll ops (as.map Prod.fst) mem = .ok mem' ∧
      Changed .int32 addr (elementAt addr 4) (old + (as.map fun p => p.2.setWidth 32).sum) mem v
        mem' := by
  induction as generalizing mem v old with
  | nil =>
    refine ⟨mem, rfl, ⟨v, hload, rfl, rfl, ?_, fun _ _ => rfl⟩, fun _ _ => rfl⟩
    rw [List.map_nil, List.sum_nil, add_zero]
    exact hold
  | cons p as ih =>
    obtain ⟨regs, mem₁, hexec, ⟨v₁, hload₁, htype₁, hlen₁, hget₁, hother₁⟩, hothers₁⟩ :=
      exec_amoadd_word (hadds p List.mem_cons_self) hload htype halign hindexable hold hlt
    obtain ⟨mem₂, hrun, ⟨v₂, hload₂, htype₂, hlen₂, hget₂, hother₂⟩, hothers₂⟩ :=
      ih (fun q hq => hadds q (List.mem_cons_of_mem _ hq)) hload₁ (htype₁.trans htype) hget₁
        (by rw [hlen₁]; exact hlt)
    refine ⟨mem₂, ?_, ⟨v₂, hload₂, htype₂.trans htype₁, hlen₂.trans hlen₁, ?_, fun j hj => ?_⟩,
      fun a ha => (hothers₂ a ha).trans (hothers₁ a ha)⟩
    · rw [List.map_cons, executeAll, hexec]
      exact hrun
    · rw [List.map_cons, List.sum_cons, ← add_assoc]
      exact hget₂
    · rw [hother₂ j hj, hother₁ j hj]

/-- Atomic additions to one element add up in any order for words, and never for double words. -/
theorem amoadd_iff {k : AddWidth} {addr : BitVec 64} {as : List (Issued ρ × BitVec 64)}
    (hne : as ≠ []) (hadds : ∀ p ∈ as, Adds ops k addr p.2 p.1) {mem : Memories} {v : VectorData}
    (hload : mem.load addr = .ok v) (htype : v.type = k.type.type) {old : BitVec k.type.bits}
    (hold : v.get k.type.type (elementAt addr k.size) = .ok (k.type.elem old))
    (halign : addr.toNat % k.size = 0) :
    (∀ as' : List (Issued ρ × BitVec 64), as'.Perm as →
      ∃ mem', executeAll ops (as'.map Prod.fst) mem = .ok mem' ∧
      Changed k.type addr (elementAt addr k.size)
        (old + (as.map fun p => p.2.setWidth k.type.bits).sum) mem v mem') ↔
      k = .w ∧ Indexable addr ∧ elementAt addr k.size < v.vlen := by
  constructor
  · intro h
    obtain ⟨mem', hrun, ⟨v', hload', htype', -⟩, -⟩ := h as (List.Perm.refl as)
    obtain ⟨w, hw, hint⟩ := int32_of_executeAll hadds hrun (.inl hne)
    have hnotfloat : v'.type ≠ .float32 := by
      rw [htype', htype]
      cases k <;> decide
    obtain ⟨hpacket, -⟩ := Memories.packet_of_load (Memories.inRange_of_load hload')
      (Memories.not_synthetic_of_load hload' hnotfloat) hload'
    obtain rfl := Option.some.inj (hw.symm.trans hpacket)
    obtain rfl : k = .w := by
      rw [hint, htype] at htype'
      cases k with
      | w => rfl
      | d => cases htype'
    obtain ⟨p, rest, rfl⟩ := List.exists_cons_of_ne_nil hne
    obtain ⟨r, hr, -⟩ := bind_eq_ok.mp hrun
    obtain ⟨v₀, i, y, v₁, hv₀, hi, -, hset, -⟩ :=
      stored_of_amoadd (hadds p List.mem_cons_self) hr
    have hsyn := Memories.not_synthetic_of_load hload (by rw [htype]; decide)
    obtain ⟨hpacket₀, -⟩ := Memories.packet_of_load (Memories.inRange_of_load hload) hsyn hload
    rw [Memories.loadOrEmpty_of_packet hpacket₀, hload] at hv₀
    obtain rfl := Except.ok.inj hv₀
    rw [elementIndex_eq AddWidth.w.size_dvd halign] at hi
    split at hi
    case isFalse => cases hi
    case isTrue hindexable =>
      obtain rfl := Except.ok.inj hi
      have hroom : v.Room .int32 (elementAt addr 4) := (setAt_of_setData (e := .int y) hset).1
      refine ⟨rfl, hindexable, ?_⟩
      have hlt : elementAt addr 4 / 1 < v.vlen := ((if_neg (by decide)).mp hroom).1
      rw [Nat.div_one] at hlt
      exact hlt
  · rintro ⟨rfl, hindexable, hlt⟩ as' hperm
    rw [← (hperm.map _).sum_eq]
    exact executeAll_words halign hindexable (fun p hp => hadds p (hperm.subset hp)) hload htype
      hold hlt

/-- Register 2 is added to the element at the address in register 1. -/
def atomicAdd (k : AddWidth) : Issued (Int → BitVec 64) :=
  ⟨⟨.amoadd, k.operandType, ![-1, 2, 1, -1, -1], 3, fun _ => 0, 0, false⟩,
    fun i => if i = 2 then 7 else 8, {}⟩

omit [FloatOps] in
theorem adds_atomicAdd (k : AddWidth) : Adds plainFile k 8 7 (atomicAdd k) :=
  ⟨rfl, rfl, rfl, rfl, fun _ => ⟨_, rfl⟩⟩

/-- Memories with one packet, at address 0. -/
def onePacket (v : VectorData) : Memories :=
  ⟨⟨0, 1024, none, fun a => if a = 0 then some v else none⟩, ⟨0, 0, none, fun _ => none⟩⟩

def fives (t : IntType) (vlen : Nat) : VectorData := ⟨t.type, vlen, false, List.replicate 8 5⟩

omit [FloatOps] in
theorem amoadd_sampleWord : letI := FloatOps.zero
    ∃ mem', executeAll plainFile ([(atomicAdd .w, 7#64), (atomicAdd .w, 7#64)].map Prod.fst)
        (onePacket (fives .int32 8)) = .ok mem' ∧
      Changed .int32 8 2 (19#32) (onePacket (fives .int32 8)) (fives .int32 8) mem' := by
  let _ := FloatOps.zero
  have hadds : ∀ p ∈ [(atomicAdd .w, 7#64), (atomicAdd .w, 7#64)],
      Adds plainFile .w 8 p.2 p.1 := by
    intro p hp
    rcases List.mem_cons.mp hp with rfl | hp
    · exact adds_atomicAdd .w
    · obtain rfl := List.mem_singleton.mp hp
      exact adds_atomicAdd .w
  have hload : (onePacket (fives .int32 8)).load 8 = .ok (fives .int32 8) := rfl
  have hold : (fives .int32 8).get .int32 2 = .ok (.int 5) := rfl
  exact (amoadd_iff (List.cons_ne_nil _ _) hadds hload rfl hold rfl).mpr
    ⟨rfl, by decide, by decide⟩ _ (List.Perm.refl _)

omit [FloatOps] in
/-- A packet of double words is one of words after the addition. -/
theorem not_amoadd_sampleDouble : letI := FloatOps.zero
    ¬ ∃ mem', executeAll plainFile [atomicAdd .d] (onePacket (fives .int64 4)) = .ok mem' ∧
      Changed .int64 8 1 ((0x500000005#64) + 7#64) (onePacket (fives .int64 4)) (fives .int64 4)
        mem' := by
  let _ := FloatOps.zero
  rintro ⟨mem', hrun, ⟨v, hload, htype, -⟩, -⟩
  have htype' : (do
      let mem ← executeAll plainFile [atomicAdd .d] (onePacket (fives .int64 4))
      VectorData.type <$> mem.load 8) = .ok .int32 := rfl
  rw [hrun, ok_bind, hload] at htype'
  have hword : v.type = .int32 := Except.ok.inj htype'
  cases hword.symm.trans htype

end Machine

end NdpSim
