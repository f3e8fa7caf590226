import NdpSim.Functional.Packets

/-!
# Scalar loads and stores

`SW`, `SD` and `FSW` change one element of a packet, and `LW`, `LD` and `FLW` read it back. A
store to an address without a packet starts from a vector of the current settings, whatever the
width of the access is.
-/
namespace NdpSim

open Library Exec Slot

/-- A store with the value of its register, and the load that belongs to it. -/
inductive ScalarAccess
  | word (x : BitVec 64)
  | double (x : BitVec 64)
  | float (x : F32)

namespace ScalarAccess

def storeOp : ScalarAccess → Opcode
  | word _ => .sw
  | double _ => .sd
  | float _ => .fsw

def loadOp : ScalarAccess → Opcode
  | word _ => .lw
  | double _ => .ld
  | float _ => .flw

def size : ScalarAccess → Nat
  | word _ | float _ => 4
  | double _ => 8

/-- The element that is stored. -/
def elem : ScalarAccess → Elem
  | word x => .int (x.setWidth 32)
  | double x => .long x
  | float x => .float x

/-- The value that is to be loaded, and the register it goes to. -/
def written : ScalarAccess → Access
  | word x => .writeX dest ((x.setWidth 32).signExtend 64)
  | double x => .writeX dest x
  | float x => .writeF dest x

theorem size_dvd (s : ScalarAccess) : s.size = 2 ∨ s.size = 4 ∨ s.size = 8 := by
  cases s
  · exact .inr (.inl rfl)
  · exact .inr (.inr rfl)
  · exact .inr (.inl rfl)

@[simp] theorem stored_elem [FloatOps] (s : ScalarAccess) : s.elem.stored = s.elem := by
  cases s <;> rfl

variable {ρ : Type} (ops : FileOps ρ) (s : ScalarAccess)

/-- The register the store names holds the value. -/
def Holds (st : NdpInstruction) (m : Machine ρ) : Prop :=
  match s with
  | word x | double x => ops.readX m.regs m.csr (st.operand dest) = .ok x
  | float x => ops.readF m.regs (st.operand dest) = .ok x

/-- The instruction's base register and offset make the address. -/
def Addresses (inst : NdpInstruction) (m : Machine ρ) (addr : BitVec 64) : Prop :=
  ∃ base, ops.readX m.regs m.csr (inst.operand (src 0)) = .ok base ∧
    base + BitVec.ofInt 64 (inst.src 1) = addr

end ScalarAccess

namespace Machine

open ScalarAccess VectorData

variable [FloatOps] {ρ : Type} {ops : FileOps ρ} {s : ScalarAccess} {st ld : NdpInstruction}
  {m : Machine ρ} {addr : BitVec 64}

theorem exec_store (hop : st.opcode = s.storeOp) (hx : s.Holds ops st m)
    (ha : Addresses ops st m addr) : exec ops st m = do
      let v ← m.memories.loadOrEmpty m.csr addr
      let i ← elementIndex addr s.size
      let v ← v.setData s.elem i
      let mem ← m.memories.store addr v
      return (false, { m with memories := mem }) := by
  obtain ⟨base, hbase, rfl⟩ := ha
  have hstore (e : Elem) (size : Int) :
      (storeElement e size).run (handle ops st) m = do
        let v ← m.memories.loadOrEmpty m.csr (base + BitVec.ofInt 64 (st.src 1))
        let i ← elementIndex (base + BitVec.ofInt 64 (st.src 1)) size
        let v ← v.setData e i
        let mem ← m.memories.store (base + BitVec.ofInt 64 (st.src 1)) v
        return ((), { m with memories := mem }) := by
    simp only [storeElement, run_effectiveAddr_bind hbase, run_loadOrEmpty_bind, run_liftM_bind,
      run_store]
    rfl
  have hexec : exec ops st m =
      (storeElement s.elem s.size).run (handle ops st) m >>= fun r => pure (false, r.2) := by
    rw [exec, hop]
    cases s with
    | word x =>
      change ((readX dest >>= fun x => storeElement (.int (x.setWidth 32)) 4) >>=
        fun _ => pure false : Exec Bool).run _ _ = _
      rw [Prog.run_bind, run_readX_bind _ hx]
      rfl
    | double x =>
      change ((readX dest >>= fun x => storeElement (.long x) 8) >>=
        fun _ => pure false : Exec Bool).run _ _ = _
      rw [Prog.run_bind, run_readX_bind _ hx]
      rfl
    | float x =>
      change ((readF dest >>= fun x => storeElement (.float x) 4) >>=
        fun _ => pure false : Exec Bool).run _ _ = _
      rw [Prog.run_bind, run_readF_bind _ hx]
      rfl
  rw [hexec, hstore]
  simp only [bind_assoc, pure_bind]

/-- What a load hands over: the element of its type at the index. -/
def delivered (s : ScalarAccess) (mem : Memories) (addr : BitVec 64) : Except Fault Access := do
  let v ← mem.load addr
  match s with
  | .word _ => do
    let i ← elementIndex addr 4
    if v.type ≠ .int32 then .error .assertion
    else do return .writeX dest ((← v.getIntData i).signExtend 64)
  | .double _ =>
    if v.type ≠ .int64 then .error .assertion
    else do return .writeX dest (← v.getLongData ((addr - formatAddr addr).toNat / 8))
  | .float _ => do
    let i ← elementIndex addr 4
    if v.type ≠ .float32 then .error .assertion
    else do return .writeF dest (← v.getFloatData i)

theorem registerWrites_eq (hop : ld.opcode = s.loadOp) (ha : Addresses ops ld m addr) :
    registerWrites ops ld m = once (delivered s m.memories addr) := by
  obtain ⟨base, hbase, rfl⟩ := ha
  have hunder : registerWrites ops ld m =
      writesOf ops ld (executeScalar s.loadOp ld.operandType) m := by
    rw [registerWrites, trace, hop, writesOf]
    cases s <;> exact congrArg _ (Prog.trace_bind_pure ..)
  rw [hunder]
  cases s with
  | word x =>
    refine (writesOf_effectiveAddr_bind hbase _).trans (writesOf_load_once _ fun v => ?_)
    refine writesOf_liftM_once fun i => writesOf_throw_once ?_
    exact writesOf_liftM_once fun w => writesOf_access rfl
  | double x =>
    refine (writesOf_effectiveAddr_bind hbase _).trans (writesOf_load_once _ fun v => ?_)
    refine writesOf_throw_once ?_
    exact writesOf_liftM_once fun w => writesOf_access rfl
  | float x =>
    refine (writesOf_effectiveAddr_bind hbase _).trans (writesOf_load_once _ fun v => ?_)
    refine writesOf_liftM_once fun i => writesOf_throw_once ?_
    exact writesOf_liftM_once fun w => writesOf_access rfl

omit [FloatOps] in
/-- Reading an element under a type, and handing over what was read. -/
theorem checkedRead_eq_ok_iff {β : Type} {t t' : DataType} {read : Except Fault β}
    {w : β → Access} {con : β → Elem} (hw : Function.Injective w) (hcon : Function.Injective con)
    (b : β) : (if t' ≠ t then .error .assertion else do return w (← read)) = .ok (w b) ↔
      t' = t ∧ con <$> read = .ok (con b) := by
  by_cases ht : t' = t
  · rw [if_neg (not_not.mpr ht), and_iff_right ht]
    cases read with
    | ok b' =>
      change Except.ok (w b') = Except.ok (w b) ↔ Except.ok (con b') = Except.ok (con b)
      rw [Except.ok.injEq, Except.ok.injEq, hw.eq_iff, hcon.eq_iff]
    | error e => exact iff_of_false nofun nofun
  · rw [if_pos ht]
    exact iff_of_false nofun fun h => ht h.1

omit [FloatOps] in
theorem writeX_signExtend_injective :
    Function.Injective fun w : BitVec 32 => Access.writeX dest (w.signExtend 64) := by
  intro a b h
  have hint := congrArg BitVec.toInt (Access.writeX.inj h).2
  rw [BitVec.toInt_signExtend_of_le (by decide), BitVec.toInt_signExtend_of_le (by decide)] at hint
  exact BitVec.eq_of_toInt_eq hint

/-- The load hands over its value exactly if the packet can be loaded, has the type of the access
and has the value at the index. -/
theorem delivered_eq_ok_iff (halign : addr.toNat % s.size = 0) {mem : Memories} :
    delivered s mem addr = .ok s.written ↔ ∃ v, mem.load addr = .ok v ∧
      v.type = s.elem.type ∧ v.get s.elem.type (elementAt addr s.size) = .ok s.elem ∧
      (s.size = 4 → Indexable addr) := by
  rw [delivered, bind_eq_ok]
  refine exists_congr fun v => and_congr_right fun _ => ?_
  cases s with
  | word x =>
    have hindex : elementIndex addr 4 = _ := elementIndex_eq (.inr (.inl rfl)) halign
    rw [hindex]
    by_cases hi : Indexable addr
    · rw [if_pos hi]
      refine (checkedRead_eq_ok_iff writeX_signExtend_injective (fun _ _ => Elem.int.inj)
        (x.setWidth 32)).trans (and_congr_right fun _ => ?_)
      exact (and_iff_left fun _ => hi).symm
    · rw [if_neg hi]
      exact iff_of_false nofun fun h => hi (h.2.2 rfl)
  | double x =>
    rw [toNat_sub_formatAddr]
    refine (checkedRead_eq_ok_iff (fun _ _ h => (Access.writeX.inj h).2) (fun _ _ => Elem.long.inj)
      x).trans (and_congr_right fun _ => ?_)
    exact (and_iff_left fun h => absurd (show 8 = 4 from h) (by decide)).symm
  | float x =>
    have hindex : elementIndex addr 4 = _ := elementIndex_eq (.inr (.inl rfl)) halign
    rw [hindex]
    by_cases hi : Indexable addr
    · rw [if_pos hi]
      refine (checkedRead_eq_ok_iff (fun _ _ h => (Access.writeF.inj h).2)
        (fun _ _ => Elem.float.inj) x).trans (and_congr_right fun _ => ?_)
      exact (and_iff_left fun _ => hi).symm
    · rw [if_neg hi]
      exact iff_of_false nofun fun h => hi (h.2.2 rfl)

/-! ## The law -/

/-- After the store of `s` the memory is `mem`. The load hands over the stored value, the other
elements of the packet and the other packets are as before, and no double packet has come up. -/
structure ReadBack (ops : FileOps ρ) (ld : NdpInstruction) (m : Machine ρ) (s : ScalarAccess)
    (addr : BitVec 64) (mem : Memories) : Prop where
  loaded : registerWrites ops ld { m with memories := mem } = [s.written]
  elements : ∀ v, m.memories.load addr = .ok v → ∃ v', mem.load addr = .ok v' ∧
    v'.vlen = v.vlen ∧ ∀ j, j ≠ elementAt addr s.size →
      v'.get s.elem.type j = v.get s.elem.type j
  packets : ∀ a, formatAddr a ≠ formatAddr addr → mem.packet a = m.memories.packet a
  noDouble : mem.NoDouble

/-- What the store finds: the packet as a load answers it, or an empty vector of the settings.
It must not be a double one and must have room for the element; a packet of a synthetic address
keeps its generated contents. -/
structure Storable (m : Machine ρ) (s : ScalarAccess) (addr : BitVec 64) : Prop where
  indexable : Indexable addr
  found : ∃ v, m.memories.loadOrEmpty m.csr addr = .ok v ∧ v.doubleReg = false ∧
    v.Room s.elem.type (elementAt addr s.size)
  seen : m.memories.isSynthetic addr = true → ∃ v, Memories.generated addr = .ok v ∧
    v.type = s.elem.type ∧ v.get s.elem.type (elementAt addr s.size) = .ok s.elem

/-- A store and the load after it keep their promise exactly if the store finds room. -/
theorem store_load_iff (hst : st.opcode = s.storeOp) (hld : ld.opcode = s.loadOp)
    (hx : s.Holds ops st m) (ha : Addresses ops st m addr) (ha' : Addresses ops ld m addr)
    (halign : addr.toNat % s.size = 0) (hr : m.memories.inRange addr)
    (hd : m.memories.NoDouble) :
    (∃ mem, exec ops st m = .ok (false, { m with memories := mem }) ∧
      ReadBack ops ld m s addr mem) ↔ Storable m s addr := by
  have hindex := elementIndex_eq s.size_dvd halign
  have hwrites (mem : Memories) : registerWrites ops ld { m with memories := mem } = [s.written] ↔
      ∃ v, mem.load addr = .ok v ∧ v.type = s.elem.type ∧
        v.get s.elem.type (elementAt addr s.size) = .ok s.elem ∧
        (s.size = 4 → Indexable addr) := by
    rw [registerWrites_eq (m := { m with memories := mem }) hld ha', once_eq_singleton_iff]
    exact delivered_eq_ok_iff halign
  rw [exec_store hst hx ha]
  constructor
  · rintro ⟨mem, hexec, hback⟩
    obtain ⟨v, hfound, hexec⟩ := bind_eq_ok.mp hexec
    obtain ⟨i, hi, hexec⟩ := bind_eq_ok.mp hexec
    obtain ⟨v', hset, hexec⟩ := bind_eq_ok.mp hexec
    obtain ⟨mem', hstore, hexec⟩ := bind_eq_ok.mp hexec
    obtain rfl : mem' = mem := congrArg (·.2.memories) (Except.ok.inj hexec)
    rw [hindex] at hi
    split at hi
    case isFalse => cases hi
    case isTrue hindexable =>
      obtain rfl := Except.ok.inj hi
      obtain ⟨hroom, hat⟩ := setAt_of_setData hset
      obtain ⟨-, -, hstored⟩ := Memories.stored_of_store hstore
      refine ⟨hindexable, ⟨v, hfound, ?_, hroom⟩, fun hsyn => ?_⟩
      · rw [← hat.shape.doubleReg]
        exact hback.noDouble addr v' hstored.self
      · obtain ⟨w, hw, htype, hget, -⟩ := (hwrites mem').mp hback.loaded
        rw [Memories.load_of_synthetic ((hstored.inRange addr).mpr hr)
          ((hstored.isSynthetic addr).trans hsyn)] at hw
        exact ⟨w, hw, htype, hget⟩
  · rintro ⟨hindexable, ⟨v, hfound, hsingle, hroom⟩, hseen⟩
    obtain ⟨v', hset, hat⟩ := setData_spec hroom
    obtain ⟨mem, hstore, hstored⟩ := Memories.store_spec hr (hd addr) v'
    have hsingle' : v'.doubleReg = false := hat.shape.doubleReg.trans hsingle
    rw [hindex, if_pos hindexable, hfound]
    refine ⟨mem, ?_, ?_, fun w hw => ?_, fun a => hstored.other, hstored.noDouble hd hsingle'⟩
    · change (v.setData s.elem (elementAt addr s.size) >>= _) = _
      rw [hset]
      change (m.memories.store addr v' >>= _) = _
      rw [hstore]
      rfl
    · refine (hwrites mem).mpr ?_
      cases hsyn : m.memories.isSynthetic addr with
      | true =>
        obtain ⟨w, hw, htype, hget⟩ := hseen hsyn
        refine ⟨w, ?_, htype, hget, fun _ => hindexable⟩
        rw [← hw]
        exact Memories.load_of_synthetic ((hstored.inRange addr).mpr hr)
          ((hstored.isSynthetic addr).trans hsyn)
      | false =>
        refine ⟨v', ?_, hat.type, hat.self.trans (by rw [s.stored_elem]), fun _ => hindexable⟩
        exact Memories.load_of_packet ((hstored.inRange addr).mpr hr)
          ((hstored.isSynthetic addr).trans hsyn) hstored.self hsingle'
    · cases hsyn : m.memories.isSynthetic addr with
      | true =>
        refine ⟨w, ?_, rfl, fun _ _ => rfl⟩
        rw [Memories.load_of_synthetic hr hsyn] at hw
        rw [← hw]
        exact Memories.load_of_synthetic ((hstored.inRange addr).mpr hr)
          ((hstored.isSynthetic addr).trans hsyn)
      | false =>
        obtain ⟨hpacket, -⟩ := Memories.packet_of_load hr hsyn hw
        rw [Memories.loadOrEmpty_of_packet hpacket, hw] at hfound
        obtain rfl := Except.ok.inj hfound
        refine ⟨v', ?_, hat.shape.vlen, hat.other⟩
        exact Memories.load_of_packet ((hstored.inRange addr).mpr hr)
          ((hstored.isSynthetic addr).trans hsyn) hstored.self hsingle'

/-- Without a packet the registers are not to be grouped, and the lower half of a packet is all
a word has room in if the elements are of 64 bits. -/
theorem storable_absent_iff (hnone : m.memories.packet addr = none)
    (hsyn : m.memories.isSynthetic addr = false)
    (hlmul : m.csr.vtypeVlmul = .m1 ∨ m.csr.vtypeVlmul = .m2) :
    Storable m s addr ↔ Indexable addr ∧ m.csr.vtypeVlmul = .m1 ∧
      (m.csr.vtypeVsew = .e64 → s.size = 4 → elementAt addr s.size < 4) := by
  have hempty : m.memories.loadOrEmpty m.csr addr = .ok (ofContext m.csr) := by
    rw [Memories.loadOrEmpty, Memories.checkAddr_eq, hnone]
    rfl
  have hroom (hone : m.csr.vtypeVlmul = .m1) :
      (ofContext m.csr).Room s.elem.type (elementAt addr s.size) ↔
        (m.csr.vtypeVsew = .e64 → s.size = 4 → elementAt addr s.size < 4) := by
    have hlt : addr.toNat % packetSize < 32 := Nat.mod_lt _ (by decide)
    rw [ofContext, hone]
    cases s <;> cases hsew : m.csr.vtypeVsew <;>
      simp [Room, ScalarAccess.elem, Elem.type, perWord, ScalarAccess.size, elementAt, vlenOf,
        roundUp, packetSize, byteBit, packetEntries, unionDataSize, Vsew.bits, Vlmul.eighths] <;>
      simp only [packetSize] at hlt <;> omega
  constructor
  · rintro ⟨hindexable, ⟨v, hv, hsingle, hr⟩, -⟩
    obtain rfl := Except.ok.inj (hempty.symm.trans hv)
    have hone : m.csr.vtypeVlmul = .m1 := by
      refine hlmul.resolve_right fun htwo => ?_
      rw [ofContext, htwo] at hsingle
      cases hsingle
    exact ⟨hindexable, hone, (hroom hone).mp hr⟩
  · rintro ⟨hindexable, hone, hr⟩
    refine ⟨hindexable, ⟨_, hempty, ?_, (hroom hone).mpr hr⟩, fun h => ?_⟩
    · rw [ofContext, hone]
      rfl
    · rw [hsyn] at h
      cases h

/-- A word is stored to and loaded from an offset of register 1, through register 2. -/
def wordAccess (op : Opcode) (offset : Int) : NdpInstruction :=
  ⟨op, .none, ![1, offset, -1, -1, -1], 2, fun _ => 0, 0, false⟩

def wordMachine (csr : CSR) : Machine (Int → BitVec 64) :=
  ⟨fun i => if i = 2 then 7 else 0, noPackets, csr⟩

omit [FloatOps] in
theorem store_load_sampleWord : letI := FloatOps.zero
    ∃ mem, exec plainFile (wordAccess .sw 8) (wordMachine {}) =
        .ok (false, { wordMachine {} with memories := mem }) ∧
      ReadBack plainFile (wordAccess .lw 8) (wordMachine {}) (.word 7) 8 mem := by
  let _ := FloatOps.zero
  have hx : Holds plainFile (.word 7) (wordAccess .sw 8) (wordMachine {}) := rfl
  have ha : Addresses plainFile (wordAccess .sw 8) (wordMachine {}) 8 := ⟨0, rfl, rfl⟩
  have ha' : Addresses plainFile (wordAccess .lw 8) (wordMachine {}) 8 := ⟨0, rfl, rfl⟩
  refine (store_load_iff rfl rfl hx ha ha' rfl ⟨by decide, by decide⟩ noDouble_noPackets).mpr ?_
  exact ⟨by decide, ⟨_, rfl, rfl, by decide⟩, fun h => absurd h (by decide)⟩

omit [FloatOps] in
/-- The vector of four 64-bit elements that stands for a missing packet has no word 4. -/
theorem not_store_load_upperWord : letI := FloatOps.zero
    ¬ ∃ mem, exec plainFile (wordAccess .sw 16) (wordMachine { vtypeVsew := .e64 }) =
        .ok (false, { wordMachine { vtypeVsew := .e64 } with memories := mem }) ∧
      ReadBack plainFile (wordAccess .lw 16) (wordMachine { vtypeVsew := .e64 }) (.word 7) 16
        mem := by
  let _ := FloatOps.zero
  rintro ⟨mem, hexec, -⟩
  have hfault : exec plainFile (wordAccess .sw 16) (wordMachine { vtypeVsew := .e64 }) =
      .error .assertion := rfl
  cases hfault.symm.trans hexec

end Machine

end NdpSim
