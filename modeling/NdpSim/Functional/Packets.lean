import NdpSim.Functional.Machine
import NdpSim.Isa.Results

/-!
# Packets

What the loads and stores of an instruction do to single packets of the two memory maps, and which
registers a run writes.
-/
namespace NdpSim

open Library Exec Slot

/-! ## Addresses -/

theorem formatAddr_eq_shift (a : BitVec 64) : formatAddr a = (a >>> 5) <<< 5 := by
  have hmask : ∀ i : Fin 64, (~~~31#64).getLsbD i = decide (5 ≤ i.val) := by decide
  unfold formatAddr
  ext i hi
  have hbit := hmask ⟨i, hi⟩
  rw [BitVec.getElem_and, BitVec.getElem_shiftLeft, ← BitVec.getLsbD_eq_getElem (x := ~~~31#64),
    hbit]
  by_cases h : i < 5
  · simp [h]
  · have h5 : 5 + (i - 5) = i := by omega
    simp [h, h5, hi, BitVec.getLsbD_eq_getElem]
    omega

theorem toNat_formatAddr (a : BitVec 64) : (formatAddr a).toNat = a.toNat / 32 * 32 := by
  rw [formatAddr_eq_shift, BitVec.toNat_shiftLeft, BitVec.toNat_ushiftRight]
  have := a.isLt
  omega

@[simp] theorem formatAddr_formatAddr (a : BitVec 64) :
    formatAddr (formatAddr a) = formatAddr a := by
  rw [← BitVec.toNat_inj, toNat_formatAddr, toNat_formatAddr]
  omega

theorem toNat_sub_formatAddr (a : BitVec 64) : (a - formatAddr a).toNat = a.toNat % 32 := by
  have hle : formatAddr a ≤ a := by
    rw [BitVec.le_def, toNat_formatAddr]
    omega
  rw [BitVec.toNat_sub_of_le hle, toNat_formatAddr]
  omega

/-- The index of the element at an address. -/
def elementAt (addr : BitVec 64) (size : Nat) : Nat := addr.toNat % packetSize / size

/-- The code takes the remainder of a signed address, which is negative if the address is, unless
it is that of a packet. -/
def Indexable (addr : BitVec 64) : Prop := addr.toNat < 2 ^ 63 ∨ addr.toNat % packetSize = 0

instance (addr : BitVec 64) : Decidable (Indexable addr) :=
  inferInstanceAs (Decidable (_ ∨ _))

theorem packetOffset_of_lt {addr : BitVec 64} (h : addr.toNat < 2 ^ 63) :
    packetOffset addr = (addr.toNat % packetSize : Nat) := by
  rw [packetOffset, BitVec.toInt_eq_toNat_of_lt (by omega), Int.tmod_eq_emod_of_nonneg (by omega)]
  rfl

theorem packetOffset_of_ge {addr : BitVec 64} (h : 2 ^ 63 ≤ addr.toNat) :
    packetOffset addr = -((2 ^ 64 - addr.toNat) % packetSize : Nat) := by
  have hint : addr.toInt = -((2 ^ 64 - addr.toNat : Nat) : Int) := by
    rw [BitVec.toInt_eq_toNat_cond, if_neg (by omega)]
    have := addr.isLt
    omega
  rw [packetOffset, hint, Int.neg_tmod, Int.tmod_eq_emod_of_nonneg (by omega)]
  rfl

/-- The subscript of a naturally aligned address is that of its element, or it is negative. -/
theorem elementIndex_eq {addr : BitVec 64} {size : Nat} (hsize : size = 2 ∨ size = 4 ∨ size = 8)
    (halign : addr.toNat % size = 0) :
    elementIndex addr size =
      if Indexable addr then .ok (elementAt addr size) else .error .undefined := by
  have hlt := addr.isLt
  have hmod : addr.toNat % packetSize % size = 0 := by
    rw [packetSize]
    rcases hsize with rfl | rfl | rfl <;> omega
  by_cases hsmall : addr.toNat < 2 ^ 63
  · have hindexable : Indexable addr := .inl hsmall
    rw [elementIndex, index, packetOffset_of_lt hsmall, Int.tdiv_eq_ediv_of_nonneg (by omega),
      if_pos hindexable, ← Int.natCast_ediv, if_neg (Int.not_lt.mpr (Int.natCast_nonneg _))]
    rfl
  · rw [elementIndex, index, packetOffset_of_ge (by omega), Int.neg_tdiv,
      Int.tdiv_eq_ediv_of_nonneg (by omega), ← Int.natCast_ediv]
    by_cases hzero : addr.toNat % packetSize = 0
    · have hindexable : Indexable addr := .inr hzero
      have hneg : (2 ^ 64 - addr.toNat) % packetSize = 0 := by
        rw [packetSize] at hzero ⊢
        omega
      rw [if_pos hindexable, hneg, elementAt, hzero, Nat.zero_div]
      rfl
    · have hindexable : ¬ Indexable addr := not_or.mpr ⟨hsmall, hzero⟩
      have hneg : size ≤ (2 ^ 64 - addr.toNat) % packetSize := by
        rw [packetSize] at hzero hmod ⊢
        rcases hsize with rfl | rfl | rfl <;> omega
      have hdiv : 0 < (2 ^ 64 - addr.toNat) % packetSize / size :=
        Nat.div_pos hneg (by omega)
      rw [if_neg hindexable, if_pos (Int.neg_neg_of_pos (Int.natCast_pos.mpr hdiv))]

/-! ## Stored packets -/

namespace Memories

/-- The packet that is stored for an address. -/
def packet (m : Memories) (addr : BitVec 64) : Option VectorData :=
  (m.get (formatAddr addr)).data (formatAddr addr)

def inRange (m : Memories) (addr : BitVec 64) : Prop :=
  (m.get (formatAddr addr)).inRange (formatAddr addr)

def isSynthetic (m : Memories) (addr : BitVec 64) : Bool :=
  (m.get (formatAddr addr)).isSynthetic (formatAddr addr)

/-- No packet is half of a register pair's contents. -/
def NoDouble (m : Memories) : Prop := ∀ addr v, m.packet addr = some v → v.doubleReg = false

theorem checkAddr_eq (m : Memories) (addr : BitVec 64) :
    m.checkAddr addr = (m.packet addr).isSome := rfl

/-- The packet of a synthetic address. -/
def generated [FloatOps] (addr : BitVec 64) : Except Fault VectorData :=
  (VectorData.ofSewLmul 32 8).setFloat (FloatOps.ofInt ((formatAddr addr).toNat % 0x100000)) 0

variable {m m' : Memories} {addr : BitVec 64} {v : VectorData}

/-- A load within the range. -/
theorem load_eq [FloatOps] (hr : m.inRange addr) : m.load addr =
    if m.isSynthetic addr then generated addr
    else
      match m.packet addr with
      | none => .error (.runtimeError "HashMemoryMap::Load failed")
      | some v =>
        if v.doubleReg then .error (.runtimeError "HashMemoryMap::Double reg Stored!")
        else .ok v := by
  rw [inRange] at hr
  rw [isSynthetic, packet, load, HashMemoryMap.load]
  simp only [hr, not_true_eq_false, if_false]
  split
  · rfl
  · cases (m.get (formatAddr addr)).data (formatAddr addr) with
    | none => rfl
    | some v => cases hd : v.doubleReg <;> simp [hd] <;> rfl

theorem load_of_synthetic [FloatOps] (hr : m.inRange addr) (hs : m.isSynthetic addr = true) :
    m.load addr = generated addr := by
  rw [load_eq hr, if_pos hs]

theorem load_of_packet [FloatOps] (hr : m.inRange addr) (hs : m.isSynthetic addr = false)
    (hv : m.packet addr = some v) (hd : v.doubleReg = false) : m.load addr = .ok v := by
  rw [load_eq hr, hs, hv]
  simp [hd]

/-- A load that returns has found a packet that is not a double one. -/
theorem packet_of_load [FloatOps] (hr : m.inRange addr) (hs : m.isSynthetic addr = false)
    (h : m.load addr = .ok v) : m.packet addr = some v ∧ v.doubleReg = false := by
  rw [load_eq hr, hs] at h
  cases hp : m.packet addr with
  | none =>
    rw [hp] at h
    cases h
  | some w =>
    rw [hp] at h
    cases hd : w.doubleReg with
    | true => simp [hd] at h
    | false =>
      obtain rfl : w = v := by simpa [hd] using h
      exact ⟨rfl, hd⟩

theorem inRange_of_load [FloatOps] (h : m.load addr = .ok v) : m.inRange addr := by
  by_contra hr
  rw [inRange] at hr
  rw [load, HashMemoryMap.load] at h
  simp only [hr, not_false_eq_true, if_true] at h
  cases h

/-- A synthetic packet holds single-precision numbers. -/
theorem not_synthetic_of_load [FloatOps] (h : m.load addr = .ok v) (htype : v.type ≠ .float32) :
    m.isSynthetic addr = false := by
  by_contra hs
  rw [Bool.not_eq_false] at hs
  rw [load_of_synthetic (inRange_of_load h) hs] at h
  exact htype (VectorData.setAt_of_setData (e := .float _) h).2.type

/-- `m'` is `m` with the packet of `addr` replaced. -/
structure Stored (m : Memories) (addr : BitVec 64) (v : VectorData) (m' : Memories) : Prop where
  packet : ∀ a, m'.packet a = if formatAddr a = formatAddr addr then some v else m.packet a
  inRange : ∀ a, m'.inRange a ↔ m.inRange a
  isSynthetic : ∀ a, m'.isSynthetic a = m.isSynthetic a

theorem Stored.self (h : Stored m addr v m') : m'.packet addr = some v := by
  rw [h.packet, if_pos rfl]

theorem Stored.other (h : Stored m addr v m') {a : BitVec 64}
    (ha : formatAddr a ≠ formatAddr addr) : m'.packet a = m.packet a := by
  rw [h.packet, if_neg ha]

theorem Stored.noDouble (h : Stored m addr v m') (hm : m.NoDouble) (hd : v.doubleReg = false) :
    m'.NoDouble := by
  intro a w hw
  rw [h.packet] at hw
  split at hw
  · obtain rfl := Option.some.inj hw
    exact hd
  · exact hm a w hw

/-- The replacement of a packet in the map its address belongs to. -/
theorem stored_set (m : Memories) (addr : BitVec 64) (v : VectorData) :
    Stored m addr v (m.set (formatAddr addr) { m.get (formatAddr addr) with
      data := Function.update (m.get (formatAddr addr)).data (formatAddr addr) (some v) }) := by
  have hget (a : BitVec 64) : (m.set (formatAddr addr) { m.get (formatAddr addr) with
      data := Function.update (m.get (formatAddr addr)).data (formatAddr addr) (some v) }).get a =
      if checkScratchpad a = checkScratchpad (formatAddr addr) then
        { m.get a with
          data := Function.update (m.get a).data (formatAddr addr) (some v) } else m.get a := by
    unfold Memories.get Memories.set
    cases checkScratchpad a <;> cases checkScratchpad (formatAddr addr) <;> rfl
  refine ⟨fun a => ?_, fun a => ?_, fun a => ?_⟩
  · rw [packet, packet, hget]
    by_cases ha : formatAddr a = formatAddr addr
    · rw [if_pos (by rw [ha]), if_pos ha, ha]
      exact Function.update_self ..
    · rw [if_neg ha]
      split
      · exact Function.update_of_ne ha ..
      · rfl
  · rw [inRange, inRange, hget]
    split <;> rfl
  · rw [isSynthetic, isSynthetic, hget]
    split <;> rfl

theorem store_spec (hr : m.inRange addr) (hd : ∀ w, m.packet addr = some w → w.doubleReg = false)
    (v : VectorData) : ∃ m', m.store addr v = .ok m' ∧ Stored m addr v m' := by
  refine ⟨_, ?_, m.stored_set addr v⟩
  have hany : ((m.get (formatAddr addr)).data (formatAddr addr)).any VectorData.doubleReg =
      false := by
    rw [Option.any_eq_false]
    exact fun w hw => by simp [hd w hw]
  rw [inRange] at hr
  rw [store, HashMemoryMap.store_eq, if_pos hr, hany]
  rfl

/-- A store that returns has replaced a packet that was not a double one. -/
theorem stored_of_store (h : m.store addr v = .ok m') :
    m.inRange addr ∧ (∀ w, m.packet addr = some w → w.doubleReg = false) ∧ Stored m addr v m' := by
  obtain ⟨map, hmap, hm'⟩ := bind_eq_ok.mp h
  obtain rfl := Except.ok.inj hm'
  rw [HashMemoryMap.store_eq] at hmap
  split at hmap
  case isFalse => cases hmap
  case isTrue hr =>
    split at hmap
    case isTrue => cases hmap
    case isFalse hany =>
      obtain rfl := Except.ok.inj hmap
      refine ⟨hr, fun w hw => ?_, m.stored_set addr v⟩
      rw [Bool.not_eq_true, Option.any_eq_false] at hany
      simpa using hany w hw

/-- The packet an instruction goes on with: an empty vector if none is stored. -/
def loadOrEmpty [FloatOps] (m : Memories) (csr : CSR) (addr : BitVec 64) :
    Except Fault VectorData :=
  if m.checkAddr addr then m.load addr else .ok (VectorData.ofContext csr)

theorem loadOrEmpty_of_packet [FloatOps] (h : m.packet addr = some v) (csr : CSR) :
    m.loadOrEmpty csr addr = m.load addr := by
  rw [loadOrEmpty, checkAddr_eq, h]
  rfl

end Memories

/-! ## Runs -/

/-- The access writes a register. -/
def Access.isWrite : Access → Bool
  | writeX _ _ | writeF _ _ | writeV _ _ => true
  | _ => false

namespace Machine

variable [FloatOps] {ρ : Type} {ops : FileOps ρ} {inst : NdpInstruction} {m : Machine ρ} {α : Type}

/-- The register writes of a program, in order. -/
def writesOf (ops : FileOps ρ) (inst : NdpInstruction) (p : Exec α) (m : Machine ρ) : List Access :=
  (p.trace (handle ops inst) m).filter Access.isWrite

/-- The register writes of one instruction. -/
def registerWrites (ops : FileOps ρ) (inst : NdpInstruction) (m : Machine ρ) : List Access :=
  (m.trace ops inst).filter Access.isWrite

section Run

variable (s : Slot) (addr : BitVec 64) (v : VectorData)

theorem run_readX_bind {x : BitVec 64} (h : ops.readX m.regs m.csr (inst.operand s) = .ok x)
    (k : BitVec 64 → Exec α) :
    (readX s >>= k).run (handle ops inst) m = (k x).run (handle ops inst) m := by
  change (do let (r, m) ← handle ops inst (.readX s) m; (k r).run (handle ops inst) m) = _
  rw [handle, h]
  rfl

theorem run_readF_bind {x : F32} (h : ops.readF m.regs (inst.operand s) = .ok x)
    (k : F32 → Exec α) :
    (readF s >>= k).run (handle ops inst) m = (k x).run (handle ops inst) m := by
  change (do let (r, m) ← handle ops inst (.readF s) m; (k r).run (handle ops inst) m) = _
  rw [handle, h]
  rfl

theorem run_readV_bind {x : VectorData} (h : ops.readV m.regs m.csr (inst.operand s) = .ok x)
    (k : VectorData → Exec α) :
    (readV s >>= k).run (handle ops inst) m = (k x).run (handle ops inst) m := by
  change (do let (r, m) ← handle ops inst (.readV s) m; (k r).run (handle ops inst) m) = _
  rw [handle, h]
  rfl

theorem run_csr_bind (k : CSR → Exec α) :
    (Exec.csr >>= k).run (handle ops inst) m = (k m.csr).run (handle ops inst) m := rfl

theorem run_liftM_bind {β : Type} {x : Except Fault β} (k : β → Exec α) :
    (liftM x >>= k).run (handle ops inst) m =
      x >>= fun v => (k v).run (handle ops inst) m := by
  cases x <;> rfl

theorem run_effectiveAddr_bind {x : BitVec 64}
    (h : ops.readX m.regs m.csr (inst.operand (src 0)) = .ok x) (k : BitVec 64 → Exec α) :
    (effectiveAddr >>= k).run (handle ops inst) m =
      (k (x + BitVec.ofInt 64 (inst.src 1))).run (handle ops inst) m := by
  rw [effectiveAddr, Prog.run_bind, run_readX_bind _ h]
  rfl

theorem run_load_bind (k : VectorData → Exec α) :
    (load addr >>= k).run (handle ops inst) m =
      m.memories.load addr >>= fun v => (k v).run (handle ops inst) m := by
  change (do let (r, m) ← handle ops inst (.load addr) m; (k r).run (handle ops inst) m) = _
  rw [handle]
  cases m.memories.load addr <;> rfl

theorem run_loadOrEmpty_bind (k : VectorData → Exec α) :
    (loadOrEmpty addr >>= k).run (handle ops inst) m =
      m.memories.loadOrEmpty m.csr addr >>= fun v => (k v).run (handle ops inst) m := by
  rw [loadOrEmpty, Prog.run_bind, run_csr_bind]
  change (if m.memories.checkAddr addr = true then _ else _ : Exec VectorData).run _ _ >>= _ = _
  rw [Memories.loadOrEmpty]
  split
  · have hload : (load addr >>= fun v => pure v).run (handle ops inst) m = _ :=
      run_load_bind addr (fun v => pure v)
    change (load addr >>= fun v => pure v).run (handle ops inst) m >>= _ = _
    rw [hload]
    cases m.memories.load addr <;> rfl
  · rfl

theorem run_readX {x : BitVec 64} (h : ops.readX m.regs m.csr (inst.operand s) = .ok x) :
    (readX s).run (handle ops inst) m = .ok (x, m) := run_readX_bind s h pure

theorem run_liftM {β : Type} (x : Except Fault β) :
    (liftM x : Exec β).run (handle ops inst) m = x >>= fun v => .ok (v, m) := by
  cases x <;> rfl

theorem run_loadOrEmpty :
    (loadOrEmpty addr).run (handle ops inst) m =
      m.memories.loadOrEmpty m.csr addr >>= fun v => .ok (v, m) := by
  have hpure : (loadOrEmpty addr >>= pure).run (handle ops inst) m =
      (loadOrEmpty addr).run (handle ops inst) m := by
    rw [Prog.run_bind]
    cases (loadOrEmpty addr).run (handle ops inst) m <;> rfl
  rw [← hpure, run_loadOrEmpty_bind]
  rfl

theorem run_writeX (x : BitVec 64) :
    (writeX s x).run (handle ops inst) m =
      ops.writeX m.regs (inst.operand s) x >>= fun regs => .ok ((), { m with regs := regs }) := by
  change (do let (r, m) ← handle ops inst (.writeX s x) m; Except.ok (r, m)) = _
  rw [handle]
  cases ops.writeX m.regs (inst.operand s) x <;> rfl

theorem run_readV : (readV s).run (handle ops inst) m =
    ops.readV m.regs m.csr (inst.operand s) >>= fun v => .ok (v, m) := by
  change (do let (r, m) ← handle ops inst (.readV s) m; Except.ok (r, m)) = _
  rw [handle]
  cases ops.readV m.regs m.csr (inst.operand s) <;> rfl

theorem run_writeV (v : VectorData) : (writeV s v).run (handle ops inst) m =
    ops.writeV m.regs m.csr (inst.operand s) v >>=
      fun regs => .ok ((), { m with regs := regs }) := by
  change (do let (r, m) ← handle ops inst (.writeV s v) m; Except.ok (r, m)) = _
  rw [handle]
  cases ops.writeV m.regs m.csr (inst.operand s) v <;> rfl

theorem run_load : (load addr).run (handle ops inst) m =
    m.memories.load addr >>= fun v => .ok (v, m) := by
  change (do let (r, m) ← handle ops inst (.load addr) m; Except.ok (r, m)) = _
  rw [handle]
  cases m.memories.load addr <;> rfl

theorem run_store (v : VectorData) :
    (store addr v).run (handle ops inst) m =
      m.memories.store addr v >>= fun mem => .ok ((), { m with memories := mem }) := by
  change (do let (r, m) ← handle ops inst (.store addr v) m; Except.ok (r, m)) = _
  rw [handle]
  cases m.memories.store addr v <;> rfl

end Run

section Writes

variable (s : Slot) (addr : BitVec 64) (v : VectorData)

theorem writesOf_ask {o : Access} (ho : o.isWrite = false) {next : o.Ans → Exec α} :
    writesOf ops inst (.ask o next) m =
      match handle ops inst o m with
      | .ok (r, m) => writesOf ops inst (next r) m
      | .error _ => [] := by
  rw [writesOf, Prog.trace, List.filter_cons_of_neg (by rw [ho]; exact Bool.false_ne_true)]
  cases handle ops inst o m <;> rfl

theorem writesOf_readX_bind {x : BitVec 64} (h : ops.readX m.regs m.csr (inst.operand s) = .ok x)
    (k : BitVec 64 → Exec α) : writesOf ops inst (readX s >>= k) m = writesOf ops inst (k x) m := by
  refine (writesOf_ask (o := .readX s) rfl).trans ?_
  rw [handle, h]
  rfl

theorem writesOf_load_bind (k : VectorData → Exec α) : writesOf ops inst (load addr >>= k) m =
    match m.memories.load addr with
    | .ok v => writesOf ops inst (k v) m
    | .error _ => [] := by
  refine (writesOf_ask (o := .load addr) rfl).trans ?_
  rw [handle]
  cases m.memories.load addr <;> rfl

theorem writesOf_effectiveAddr_bind {x : BitVec 64}
    (h : ops.readX m.regs m.csr (inst.operand (src 0)) = .ok x) (k : BitVec 64 → Exec α) :
    writesOf ops inst (effectiveAddr >>= k) m =
      writesOf ops inst (k (x + BitVec.ofInt 64 (inst.src 1))) m := by
  refine (writesOf_readX_bind (src 0) h fun x => .ask (.operand (src 1)) fun n =>
    k (x + BitVec.ofInt 64 n)).trans ?_
  exact writesOf_ask (o := .operand (src 1)) rfl

/-- One register write if the computation returns. -/
def once (x : Except Fault Access) : List Access :=
  match x with
  | .ok o => [o]
  | .error _ => []

omit [FloatOps] in
theorem once_eq_singleton_iff {x : Except Fault Access} {o : Access} :
    once x = [o] ↔ x = .ok o := by
  cases x with
  | ok o' => simp [once]
  | error e => simp [once]

theorem writesOf_liftM_once {β : Type} {x : Except Fault β} {k : β → Exec α}
    {y : β → Except Fault Access} (h : ∀ b, writesOf ops inst (k b) m = once (y b)) :
    writesOf ops inst (liftM x >>= k) m = once (x >>= y) := by
  cases x with
  | ok b => exact h b
  | error e => rfl

theorem writesOf_load_once {k : VectorData → Exec α} {y : VectorData → Except Fault Access}
    (h : ∀ v, writesOf ops inst (k v) m = once (y v)) :
    writesOf ops inst (load addr >>= k) m = once (m.memories.load addr >>= y) := by
  rw [writesOf_load_bind]
  cases m.memories.load addr with
  | ok v => exact h v
  | error e => rfl

theorem writesOf_throw_once {β : Type} {c : Prop} [Decidable c] {e : Fault} {k : β → Exec α}
    {p : Exec α} {y : Except Fault Access} (h : writesOf ops inst p m = once y) :
    writesOf ops inst (if c then Prog.throw e >>= k else p) m =
      once (if c then .error e else y) := by
  split
  · rfl
  · exact h

/-- The register write that ends a load. -/
theorem writesOf_access {o : Access} (ho : o.isWrite = true) :
    writesOf ops inst (Exec.access o) m = [o] := by
  rw [writesOf, Exec.access, Prog.perform, Prog.trace, List.filter_cons_of_pos ho]
  cases handle ops inst o m <;> rfl

end Writes

end Machine

/-- One file of scalar registers, and memories without a packet. -/
def plainFile : FileOps (Int → BitVec 64) where
  readX regs _ i := .ok (regs i)
  readF regs i := .ok ((regs i).setWidth 32)
  readV _ _ _ := .error .assertion
  writeX regs i x := .ok (Function.update regs i x)
  writeF regs i x := .ok (Function.update regs i (x.setWidth 64))
  writeV _ _ _ _ := .error .assertion
  exist _ _ := false

def noPackets : Memories := ⟨⟨0, 1024, none, fun _ => none⟩, ⟨0, 0, none, fun _ => none⟩⟩

theorem noDouble_noPackets : noPackets.NoDouble := by
  intro addr v h
  have hnone : noPackets.packet addr = none := by
    unfold Memories.packet Memories.get
    split <;> rfl
  rw [hnone] at h
  cases h

end NdpSim
