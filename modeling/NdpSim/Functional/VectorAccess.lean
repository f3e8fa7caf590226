import NdpSim.Functional.ScalarAccess
import NdpSim.Register.RoundTrip

/-!
# Vector stores and loads

`VSE` writes the registers of a group to packets and `VLE` reads packets into a group. For words
and double words a pair of registers takes two packets. For bytes and half words both handle one
packet whatever the multiplier is.
-/
namespace NdpSim

open Library Exec Slot VectorData

namespace Vsew

def storeOp : Vsew → Opcode
  | e8 => .vse8
  | e16 => .vse16
  | e32 => .vse32
  | e64 => .vse64

def loadOp : Vsew → Opcode
  | e8 => .vle8
  | e16 => .vle16
  | e32 => .vle32
  | e64 => .vle64

/-- The widths that are stored and loaded by halves. -/
def Wide (w : Vsew) : Prop := w = e32 ∨ w = e64

instance (w : Vsew) : Decidable w.Wide := inferInstanceAs (Decidable (_ ∨ _))

end Vsew

namespace Memories

variable [FloatOps]

/-- What a vector store does to the memories. -/
def storeVector (mem : Memories) (csr : CSR) (w : Vsew) (addr : BitVec 64) (v : VectorData) :
    Except Fault Memories :=
  if w.Wide ∧ csr.vtypeVlmul = .m2 then do
    let (lo, hi) ← v.split
    let mem ← mem.store addr lo
    mem.store (addr + 32#64) hi
  else mem.store addr v

/-- What a vector load finds in the memories. -/
def loadVector (mem : Memories) (csr : CSR) (w : Vsew) (addr : BitVec 64) :
    Except Fault VectorData := do
  let v ← mem.load addr
  if w.Wide ∧ csr.vtypeVlmul = .m2 then v.append (← mem.load (addr + 32#64)) else return v

end Memories

namespace Machine

variable [FloatOps] {ρ : Type} {ops : FileOps ρ} {st ld : NdpInstruction} {m : Machine ρ}
  {addr : BitVec 64} {v : VectorData} {w : Vsew}

/-- Every vector instruction that returns has reset `vstart`. -/
def resume (csr : CSR) : CSR := { csr with vstart := 0 }

theorem exec_vector {inst : NdpInstruction} (hexit : inst.opcode ≠ .exit)
    (hbranch : inst.opcode.checkBranchOp = false) (hvector : inst.opcode.checkVectorOp = true) :
    exec ops inst m =
      (executeVectorOp inst.opcode inst.operandType inst.segCnt).run (handle ops inst) m >>=
        fun r => .ok (false, { r.2 with csr := resume r.2.csr }) := by
  rw [exec, execute, if_neg hexit, hbranch, hvector, Bool.or_true, Bool.true_or]
  change ((executeVectorOp inst.opcode inst.operandType inst.segCnt >>= fun _ => setVstart 0) >>=
    fun _ => (pure false : Exec Bool)).run (handle ops inst) m = _
  rw [Prog.run_bind, Prog.run_bind, bind_assoc]
  rfl

theorem exec_vectorStore (hop : st.opcode = w.storeOp)
    (ha : ScalarAccess.Addresses ops st m addr) : exec ops st m = do
      let v ← ops.readV m.regs m.csr (st.operand dest)
      let mem ← m.memories.storeVector m.csr w addr v
      return (false, { m with memories := mem, csr := resume m.csr }) := by
  obtain ⟨base, hbase, rfl⟩ := ha
  have hnarrow (hw : ¬ w.Wide) : executeVseNarrow.run (handle ops st) m = do
      let v ← ops.readV m.regs m.csr (st.operand dest)
      let mem ← m.memories.storeVector m.csr w (base + BitVec.ofInt 64 (st.src 1)) v
      return ((), { m with memories := mem }) := by
    rw [executeVseNarrow, run_effectiveAddr_bind hbase, Prog.run_bind, run_readV, bind_assoc]
    refine bind_congr fun v => ?_
    rw [ok_bind, Memories.storeVector, if_neg fun h => hw h.1]
    exact run_store ..
  have hwide (hw : w.Wide) : executeVseWide.run (handle ops st) m = do
      let v ← ops.readV m.regs m.csr (st.operand dest)
      let mem ← m.memories.storeVector m.csr w (base + BitVec.ofInt 64 (st.src 1)) v
      return ((), { m with memories := mem }) := by
    rw [executeVseWide, run_effectiveAddr_bind hbase, run_csr_bind, Prog.run_bind, run_readV,
      bind_assoc]
    refine bind_congr fun v => ?_
    rw [ok_bind, Memories.storeVector]
    dsimp only
    by_cases hl : m.csr.vtypeVlmul = .m2
    · rw [if_pos hl, if_pos ⟨hw, hl⟩, run_liftM_bind]
      simp only [Prog.run_bind, run_store, bind_assoc, ok_bind]
      rfl
    · rw [if_neg hl, if_neg fun h => hl h.2]
      exact run_store ..
  have hrun : (executeVectorOp st.opcode st.operandType st.segCnt).run (handle ops st) m = do
      let v ← ops.readV m.regs m.csr (st.operand dest)
      let mem ← m.memories.storeVector m.csr w (base + BitVec.ofInt 64 (st.src 1)) v
      return ((), { m with memories := mem }) := by
    rw [hop]
    cases w
    · exact hnarrow (by decide)
    · exact hnarrow (by decide)
    · exact hwide (by decide)
    · exact hwide (by decide)
  rw [exec_vector (by rw [hop]; cases w <;> decide) (by rw [hop]; cases w <;> rfl)
    (by rw [hop]; cases w <;> rfl), hrun]
  simp only [bind_assoc, pure_bind]
  rfl

theorem exec_vectorLoad (hop : ld.opcode = w.loadOp)
    (ha : ScalarAccess.Addresses ops ld m addr)
    (hlmul : m.csr.vtypeVlmul = .m1 ∨ m.csr.vtypeVlmul = .m2) : exec ops ld m = do
      let v ← m.memories.loadVector m.csr w addr
      let regs ← ops.writeV m.regs m.csr (ld.operand dest) v
      return (false, { m with regs := regs, csr := resume m.csr }) := by
  obtain ⟨base, hbase, rfl⟩ := ha
  have hnarrow (hw : ¬ w.Wide) : executeVleNarrow.run (handle ops ld) m = do
      let v ← m.memories.loadVector m.csr w (base + BitVec.ofInt 64 (ld.src 1))
      let regs ← ops.writeV m.regs m.csr (ld.operand dest) v
      return ((), { m with regs := regs }) := by
    rw [executeVleNarrow, run_effectiveAddr_bind hbase, run_load_bind, Memories.loadVector,
      bind_assoc]
    refine bind_congr fun v => ?_
    rw [if_neg fun h => hw h.1]
    exact run_writeV ..
  have hwide (hw : w.Wide) (op : Opcode) : (executeVleWide op).run (handle ops ld) m = do
      let v ← m.memories.loadVector m.csr w (base + BitVec.ofInt 64 (ld.src 1))
      let regs ← ops.writeV m.regs m.csr (ld.operand dest) v
      return ((), { m with regs := regs }) := by
    have height : ¬ (op = .vle64 ∧ m.csr.vtypeVlmul = .m8) := by
      rcases hlmul with hl | hl <;> simp [hl]
    rw [executeVleWide, run_effectiveAddr_bind hbase, run_csr_bind, run_load_bind,
      Memories.loadVector, bind_assoc]
    refine bind_congr fun v => ?_
    by_cases hl : m.csr.vtypeVlmul = .m2
    · rw [if_pos hl, if_pos ⟨hw, hl⟩]
      simp only [Prog.run_bind, run_load, run_liftM, run_writeV, bind_assoc, ok_bind]
      rfl
    · rw [if_neg hl, if_neg height, if_neg fun h => hl h.2]
      exact run_writeV ..
  have hrun : (executeVectorOp ld.opcode ld.operandType ld.segCnt).run (handle ops ld) m = do
      let v ← m.memories.loadVector m.csr w (base + BitVec.ofInt 64 (ld.src 1))
      let regs ← ops.writeV m.regs m.csr (ld.operand dest) v
      return ((), { m with regs := regs }) := by
    rw [hop]
    cases w
    · exact hnarrow (by decide)
    · exact hnarrow (by decide)
    · exact hwide (by decide) _
    · exact hwide (by decide) _
  rw [exec_vector (by rw [hop]; cases w <;> decide) (by rw [hop]; cases w <;> rfl)
    (by rw [hop]; cases w <;> rfl), hrun]
  simp only [bind_assoc, pure_bind]
  rfl

end Machine

/-! ## Registers of a group -/

namespace VectorData

/-- As many elements of type `t` as one register takes. -/
structure Fills (t : DataType) (sew : Vsew) (v : VectorData) : Prop where
  mem : t ∈ elementTypes sew
  type : v.type = t
  vlen : v.vlen * sew.bits = packetSize * byteBit
  single : v.doubleReg = false
  words : v.data.length = packetEntries

variable {t t' : DataType} {sew : Vsew} {p q v v' : VectorData}

theorem Fills.iter (h : Fills t sew p) (hw : sew.Wide) : p.iter = packetEntries := by
  have hvlen := h.vlen
  have hmem := h.mem
  rw [VectorData.iter, h.type]
  rcases hw with rfl | rfl
  · rw [if_neg (by rintro rfl; exact absurd hmem (by decide))]
    simp only [Vsew.bits, packetSize, byteBit, packetEntries] at hvlen ⊢
    omega
  · rw [if_pos (List.mem_singleton.mp hmem)]
    simp only [Vsew.bits, packetSize, byteBit, packetEntries] at hvlen ⊢
    omega

/-- Two registers of words or double words make up a vector for both. -/
theorem Fills.append (hp : Fills t sew p) (hq : Fills t' sew q) (hw : sew.Wide) :
    p.append q = .ok ⟨t, p.vlen + q.vlen, true, p.data ++ q.data⟩ := by
  have hiter := hq.iter hw
  have hwords := hq.words
  have hvlen := hp.vlen
  have hvlen' := hq.vlen
  have hbound : (p.vlen + q.vlen) % 2 ^ 32 = p.vlen + q.vlen := by
    refine Nat.mod_eq_of_lt ?_
    rcases hw with rfl | rfl <;>
      simp only [Vsew.bits, packetSize, byteBit] at hvlen hvlen' <;> omega
  rw [VectorData.iter] at hiter
  unfold VectorData.append
  rw [hiter, if_neg (by omega), hp.single, hbound, List.take_of_length_le (by omega), hp.type]
  rfl

/-- Bytes and half words are counted past the words of the second register. -/
theorem Fills.append_narrow (hq : Fills t sew q) (hw : ¬ sew.Wide) (p : VectorData) :
    p.append q = .error .undefined := by
  have hmem := hq.mem
  have hvlen := hq.vlen
  have hlt : q.data.length < if q.type = .int64 then q.vlen * 2 else q.vlen := by
    rw [hq.words, hq.type]
    cases sew with
    | e8 =>
      rw [if_neg (by rintro rfl; exact absurd hmem (by decide))]
      simp only [Vsew.bits, packetSize, byteBit, packetEntries] at hvlen ⊢
      omega
    | e16 =>
      rw [if_neg (by rintro rfl; exact absurd hmem (by decide))]
      simp only [Vsew.bits, packetSize, byteBit, packetEntries] at hvlen ⊢
      omega
    | e32 => exact absurd (.inl rfl) hw
    | e64 => exact absurd (.inr rfl) hw
  unfold VectorData.append
  rw [if_pos hlt]
  rfl

theorem Fills.vlen_eq (hp : Fills t sew p) (hq : Fills t' sew q) : p.vlen = q.vlen := by
  have hvlen := hp.vlen
  have hvlen' := hq.vlen
  cases sew <;> simp only [Vsew.bits] at hvlen hvlen' <;> omega

/-- The vector for both is split into what the two registers hold. -/
theorem Fills.split (hp : Fills t sew p) (hq : Fills t sew q) (hw : sew.Wide) :
    (⟨t, p.vlen + q.vlen, true, p.data ++ q.data⟩ : VectorData).split = .ok (p, q) := by
  have hlo := hp.iter hw
  have hhi := hq.iter hw
  have hiter : VectorData.iter ⟨t, p.vlen + q.vlen, true, p.data ++ q.data⟩ =
      packetEntries + packetEntries := by
    rw [VectorData.iter, hp.type] at hlo
    rw [VectorData.iter, hq.type] at hhi
    rw [VectorData.iter]
    dsimp only
    split
    case isTrue ht =>
      rw [if_pos ht] at hlo hhi
      omega
    case isFalse ht =>
      rw [if_neg ht] at hlo hhi
      omega
  have hhalf {r : VectorData} (hr : Fills t sew r) :
      VectorData.half ⟨t, p.vlen + q.vlen, true, p.data ++ q.data⟩ r.data = r := by
    have hdrop : (splitShape t).data.drop r.data.length = [] := by
      rw [(splitShape_eq t).1, hr.words]
      rfl
    have hvlen : (p.vlen + q.vlen) / 2 = r.vlen := by
      have := hp.vlen_eq hr
      have := hq.vlen_eq hr
      omega
    rw [VectorData.half, hdrop, List.append_nil, (splitShape_eq t).2, hvlen, ← hr.single,
      ← hr.type]
  have hlen : (p.data ++ q.data).length = packetEntries + packetEntries := by
    rw [List.length_append, hp.words, hq.words]
  rw [split_eq (by rw [hiter, hlen]) (by rw [hiter]; decide), hiter]
  dsimp only
  have hdouble : (packetEntries + packetEntries) / 2 = packetEntries := rfl
  have hall : (p.data ++ q.data).take (packetEntries + packetEntries) = p.data ++ q.data :=
    List.take_of_length_le (by rw [hlen])
  rw [hdouble, hall, List.take_left' hp.words, List.drop_left' hp.words, hhalf hp, hhalf hq]

/-- Both registers together hold what the settings ask for. -/
theorem Fills.builtFor_append {csr : CSR} (hp : Fills t csr.vtypeVsew p)
    (hq : Fills t' csr.vtypeVsew q) (hlmul : csr.vtypeVlmul = .m2) :
    BuiltFor csr ⟨t, p.vlen + q.vlen, true, p.data ++ q.data⟩ := by
  have hvlen := hp.vlen
  have hvlen' := hq.vlen
  refine ⟨.inl hp.mem, ?_, ?_, ?_⟩
  · rw [ofContext, hlmul]
    cases hsew : csr.vtypeVsew <;> rw [hsew] at hvlen hvlen' <;>
      simp only [Vsew.bits, packetSize, byteBit] at hvlen hvlen' <;>
      simp [vlenOf, packetSize, byteBit, Vsew.bits, Vlmul.eighths] <;> omega
  · rw [ofContext, hlmul]
    rfl
  · rw [List.length_append, hp.words, hq.words, ofContext, hlmul]
    cases csr.vtypeVsew <;> rfl

theorem Fills.builtFor {csr : CSR} (hp : Fills t csr.vtypeVsew p) (hlmul : csr.vtypeVlmul = .m1) :
    BuiltFor csr p := by
  have hvlen := hp.vlen
  refine ⟨.inl (hp.type ▸ hp.mem), ?_, ?_, ?_⟩
  · rw [ofContext, hlmul]
    cases hsew : csr.vtypeVsew <;> rw [hsew] at hvlen <;>
      simp only [Vsew.bits, packetSize, byteBit] at hvlen <;>
      simp [vlenOf, packetSize, byteBit, Vsew.bits, Vlmul.eighths] <;> omega
  · rw [hp.single, ofContext, hlmul]
    rfl
  · rw [hp.words, ofContext, hlmul]
    cases csr.vtypeVsew <;> rfl

/-- Vectors that are the same as a third one. -/
theorem SameVector.of_both (h : SameVector v p) (h' : SameVector v' p) : SameVector v v' :=
  ⟨h'.type.symm.trans h.type, h'.vlen.symm.trans h.vlen, fun i hi =>
    (h'.elements i (by rw [← h'.vlen, h.vlen]; exact hi)).symm.trans (h.elements i hi)⟩

/-- Single-precision numbers are words. -/
theorem Fills.sew_eq (h : Fills .float32 sew p) : sew = .e32 := by
  have hmem := h.mem
  cases sew <;> first | rfl | exact absurd hmem (by decide)

theorem Fills.words_eq (h : Fills t .e32 p) : p.data.length = p.vlen := by
  have hvlen := h.vlen
  have hwords := h.words
  simp only [Vsew.bits, packetSize, byteBit, packetEntries] at hvlen hwords
  omega

/-- Vectors of words with the same elements have the same words. -/
theorem SameVector.data_eq (h : SameVector v v') (ht : v.type = .float32 ∨ v.type = .int32)
    (hlen : v.data.length = v.vlen) (hlen' : v'.data.length = v'.vlen) : v'.data = v.data := by
  have helement (u : VectorData) (hu : u.type = .float32 ∨ u.type = .int32) (i : Nat) :
      u.element i = do return (← u.word i).setWidth 64 := by
    rw [element]
    rcases hu with hu | hu <;> rw [hu]
  refine List.ext_getElem (by rw [hlen, hlen', h.vlen]) fun i hi hi' => ?_
  have heq := h.elements i (by omega)
  rw [helement v ht, helement v' (h.type ▸ ht), word, word, List.getElem?_eq_getElem hi,
    List.getElem?_eq_getElem hi'] at heq
  have hwidth : v'.data[i].setWidth 64 = v.data[i].setWidth 64 := Except.ok.inj heq
  have hback := congrArg (BitVec.setWidth 32) hwidth
  rwa [BitVec.setWidth_setWidth_of_le _ (by decide), BitVec.setWidth_setWidth_of_le _ (by decide),
    BitVec.setWidth_eq, BitVec.setWidth_eq] at hback

/-- Appending counts what it reads in elements of one word. -/
theorem append_eq (p q : VectorData) : p.append q =
    if q.data.length < q.iter then .error .undefined
    else if p.doubleReg then .error (.runtimeError "Double appending register")
    else .ok ⟨p.type, (p.vlen + q.vlen) % 2 ^ 32, true, p.data ++ q.data.take q.iter⟩ := by
  unfold VectorData.append VectorData.iter
  split
  · rfl
  · split <;> rfl

theorem type_of_append (h : p.append q = .ok v) : v.type = p.type := by
  rw [append_eq] at h
  split at h
  · cases h
  split at h
  · cases h
  · obtain rfl := Except.ok.inj h
    rfl

/-- A register of words after one of double words. -/
theorem overflows_append (hp : Fills t .e64 p) (hq : Fills t' .e32 q) (h : p.append q = .ok v) :
    RegisterUnit.overflows v = true := by
  have hvlen := hp.vlen
  have hvlen' := hq.vlen
  have hp4 : p.vlen = 4 := by
    simp only [Vsew.bits, packetSize, byteBit] at hvlen
    omega
  have hq8 : q.vlen = 8 := by
    simp only [Vsew.bits, packetSize, byteBit] at hvlen'
    omega
  have htake : (q.data.take q.iter).length ≤ packetEntries := by
    rw [List.length_take, hq.words]
    exact Nat.min_le_right ..
  have hshort : v.data.length ≤ packetEntries + packetEntries ∧ v.vlen = 12 := by
    rw [append_eq] at h
    split at h
    · cases h
    split at h
    · cases h
    · obtain rfl := Except.ok.inj h
      dsimp only
      rw [List.length_append, hp.words, hp4, hq8]
      exact ⟨Nat.add_le_add_left htake _, rfl⟩
  have ht : v.type = .int64 := by
    rw [type_of_append h, hp.type]
    exact List.mem_singleton.mp hp.mem
  have hlong : v.data.length < v.vlen * v.getPrecision % 2 ^ 32 / (unionDataSize / byteBit) := by
    rw [hshort.2, getPrecision, ht]
    exact Nat.lt_of_le_of_lt hshort.1 (by decide)
  rw [RegisterUnit.overflows, Bool.and_eq_true, decide_eq_true_iff, decide_eq_true_iff]
  exact ⟨by rw [ht]; decide, hlong⟩

theorem type_of_split (h : v.split = .ok (p, q)) : p.type = v.type ∧ q.type = v.type := by
  by_cases hbound : v.data.length < v.iter ∨
      (splitShape v.type).data.length < v.iter - v.iter / 2
  · cases h.symm.trans (if_pos hbound)
  · obtain ⟨rfl, rfl⟩ := Prod.mk.inj (Except.ok.inj (h.symm.trans (if_neg hbound)))
    exact ⟨rfl, rfl⟩

end VectorData

namespace RegisterUnit

/-- The number names a register, and under multiplier 2 a pair of registers. -/
structure Grouped (u : RegisterUnit) (lmul : Vlmul) (reg : Int) : Prop where
  isVreg : u.isVreg (toInt reg) = true
  partner : lmul = .m2 → ∃ partner, u.doubleVreg.lookup (toInt reg) = some partner ∧
    u.isVreg partner = true ∧ partner ≠ toInt reg

/-- What the registers of a group hold. -/
def contents (u : RegisterUnit) (lmul : Vlmul) (reg : Int) : List VectorData :=
  u.vregTable (toInt reg) ::
    if lmul = .m2 then ((u.doubleVreg.lookup (toInt reg)).map u.vregTable).toList else []

variable {u u' : RegisterUnit} {reg partner : Int} {context : Context} {t : DataType}
  {v v' : VectorData}

theorem contents_one (u : RegisterUnit) (reg : Int) :
    u.contents .m1 reg = [u.vregTable (toInt reg)] := rfl

theorem contents_two (hlook : u.doubleVreg.lookup (toInt reg) = some partner) :
    u.contents .m2 reg = [u.vregTable (toInt reg), u.vregTable partner] := by
  rw [contents, if_pos rfl, hlook]
  rfl

theorem readVreg_one (hreg : u.isVreg (toInt reg) = true) (hlmul : context.csr.vtypeVlmul = .m1)
    (hvlen : (u.vregTable (toInt reg)).vlen * context.csr.vtypeVsew.bits = packetSize * byteBit) :
    u.readVreg reg context = .ok (u.vregTable (toInt reg)) := by
  simp only [readVreg, hreg, if_true, hvlen, hlmul]
  cases u.doubleVreg.lookup (toInt reg) <;> rfl

theorem readVreg_two (hreg : u.isVreg (toInt reg) = true)
    (hlook : u.doubleVreg.lookup (toInt reg) = some partner)
    (hlmul : context.csr.vtypeVlmul = .m2)
    (hvlen : (u.vregTable (toInt reg)).vlen * context.csr.vtypeVsew.bits = packetSize * byteBit) :
    u.readVreg reg context = (u.vregTable (toInt reg)).append (u.vregTable partner) := by
  simp only [readVreg, hreg, if_true, hvlen, hlmul, hlook]
  rfl

theorem roundTrips_pair (hlmul : context.csr.vtypeVlmul = .m2) (hw : context.csr.vtypeVsew.Wide)
    (hg : u.Grouped .m2 reg) (hv : BuiltFor context.csr v) : RoundTrips u reg context v := by
  obtain ⟨partner, hlook, hvreg, hne⟩ := hg.partner rfl
  obtain ⟨lo, hi, v', hsplit, hlo, happend, hsame⟩ := exists_append_split hlmul hv hw
  exact roundTrips_two hg.isVreg hlook hvreg hne hlmul hv hsplit hlo happend hsame

/-- A register that was written is read under the type of the value. -/
theorem type_of_written (hwrite : u.writeVreg reg v context = .ok u')
    (hread : u'.readVreg reg context = .ok v') : v'.type = v.type := by
  simp only [writeVreg] at hwrite
  split at hwrite
  · cases hwrite
  split at hwrite
  case isFalse => cases hwrite
  case isTrue hreg =>
    have htype : u'.isVreg (toInt reg) = true ∧ (u'.vregTable (toInt reg)).type = v.type := by
      split at hwrite
      · obtain ⟨⟨lo, hi⟩, hsplit, hwrite⟩ := bind_eq_ok.mp hwrite
        obtain ⟨hlo, hhi⟩ := type_of_split hsplit
        dsimp only at hwrite
        split at hwrite
        · cases hwrite
        · obtain rfl := Except.ok.inj hwrite
          refine ⟨hreg, ?_⟩
          dsimp only
          rw [Function.update_apply]
          split
          · exact hhi
          · rw [Function.update_self]
            exact hlo
      · obtain rfl := Except.ok.inj hwrite
        exact ⟨hreg, congrArg VectorData.type (Function.update_self ..)⟩
    simp only [readVreg, htype.1, if_true] at hread
    rw [← htype.2]
    split at hread
    · split at hread
      · rw [Except.ok.inj hread]
      · exact type_of_append hread
    · rw [Except.ok.inj hread]

end RegisterUnit

/-! ## Packets of a group -/

namespace Memories

variable {mem mem' : Memories} {addr : BitVec 64} {p : VectorData}

/-- The address of packet `i` from an address on. -/
def packetAt (addr : BitVec 64) (i : Nat) : BitVec 64 := addr + BitVec.ofNat 64 (packetSize * i)

@[simp] theorem packetAt_zero (addr : BitVec 64) : packetAt addr 0 = addr := BitVec.add_zero addr

@[simp] theorem packetAt_one (addr : BitVec 64) : packetAt addr 1 = addr + 32#64 := rfl

theorem formatAddr_of_aligned (h : addr.toNat % packetSize = 0) : formatAddr addr = addr := by
  rw [← BitVec.toNat_inj, toNat_formatAddr]
  rw [packetSize] at h
  omega

theorem packetAt_aligned (h : addr.toNat % packetSize = 0) (i : Nat) :
    (packetAt addr i).toNat % packetSize = 0 := by
  rw [packetSize] at h
  rw [packetAt, BitVec.toNat_add, BitVec.toNat_ofNat, packetSize]
  omega

theorem packetAt_one_ne (addr : BitVec 64) : addr + 32#64 ≠ addr := by
  intro h
  have hnat := congrArg BitVec.toNat h
  rw [BitVec.toNat_add, BitVec.toNat_ofNat] at hnat
  omega

variable [FloatOps]

/-- A load from the packet of an address that holds `p`. -/
theorem load_eq_shown (hr : mem.inRange addr) (hp : mem.packet addr = some p)
    (hd : p.doubleReg = false) :
    mem.load addr = if mem.isSynthetic addr then generated addr else .ok p := by
  cases hs : mem.isSynthetic addr with
  | true => exact load_of_synthetic hr hs
  | false => exact load_of_packet hr hs hp hd

/-- Eight single-precision numbers, whatever the settings are. -/
theorem generated_spec (addr : BitVec 64) :
    ∃ g, generated addr = .ok g ∧ Fills .float32 .e32 g := by
  have hroom : (ofSewLmul 32 8).Room .float32 0 :=
    (if_neg (by decide)).mpr ⟨by decide, by decide⟩
  obtain ⟨g, hg, hat⟩ := setData_spec (v := ofSewLmul 32 8)
    (e := .float (FloatOps.ofInt ((formatAddr addr).toNat % 0x100000))) hroom
  refine ⟨g, hg, by decide, hat.type, ?_, hat.shape.doubleReg, hat.shape.words⟩
  rw [hat.shape.vlen]
  rfl

/-- Packets in the synthetic range answer loads with numbers of their own. They must be the words
stored there, and of their type where the first packet decides on it. -/
def Shows (mem : Memories) (addr : BitVec 64) (ps : List VectorData) : Prop :=
  ∀ i p, ps[i]? = some p → mem.isSynthetic (packetAt addr i) = true →
    ∃ g, generated (packetAt addr i) = .ok g ∧ g.vlen = p.vlen ∧ g.data = p.data ∧
      (i = 0 → g.type = p.type)

end Memories

/-! ## The law -/

namespace Machine

open RegisterUnit Memories

variable [FloatOps] {ndpId : Int} {req : RequestInfo} {st ld : NdpInstruction}
  {m : Machine RegisterUnit} {addr : BitVec 64} {t : DataType}

/-- After the store of group `rs` the memory is `mem`, and after the load of group `rd` the
registers are `u`. The loaded group reads as the stored one did, the packets hold what the
registers hold, no other packet has changed and none is a double one. -/
structure VectorReadBack (ndpId : Int) (req : RequestInfo) (m : Machine RegisterUnit) (rs rd : Int)
    (addr : BitVec 64) (mem : Memories) (u : RegisterUnit) : Prop where
  register : ∃ v v', m.regs.readVreg rs ⟨ndpId, m.csr, req⟩ = .ok v ∧
    u.readVreg rd ⟨ndpId, m.csr, req⟩ = .ok v' ∧ SameVector v v'
  packets : ∀ i p, (m.regs.contents m.csr.vtypeVlmul rs)[i]? = some p →
    mem.packet (packetAt addr i) = some p
  others : ∀ a, (∀ i < (m.regs.contents m.csr.vtypeVlmul rs).length,
    formatAddr a ≠ packetAt addr i) → mem.packet a = m.memories.packet a
  noDouble : mem.NoDouble

/-- The store and the load return, and what was written is read back. -/
def StoresAndLoads (ndpId : Int) (req : RequestInfo) (st ld : NdpInstruction)
    (m : Machine RegisterUnit) (addr : BitVec 64) : Prop :=
  ∃ mem u, exec (RegisterUnit.fileOps ndpId req) st m = .ok (false, ⟨m.regs, mem, resume m.csr⟩) ∧
    exec (RegisterUnit.fileOps ndpId req) ld ⟨m.regs, mem, resume m.csr⟩ =
      .ok (false, ⟨u, mem, resume m.csr⟩) ∧
    VectorReadBack ndpId req m (st.operand dest) (ld.operand dest) addr mem u

/-- A store of `VSE` and a load of `VLE` of the width of the settings, at one address. -/
structure SameAddress (ndpId : Int) (req : RequestInfo) (st ld : NdpInstruction)
    (m : Machine RegisterUnit) (addr : BitVec 64) : Prop where
  storeOp : st.opcode = m.csr.vtypeVsew.storeOp
  loadOp : ld.opcode = m.csr.vtypeVsew.loadOp
  store : ScalarAccess.Addresses (RegisterUnit.fileOps ndpId req) st m addr
  load : ScalarAccess.Addresses (RegisterUnit.fileOps ndpId req) ld
    { m with csr := resume m.csr } addr
  aligned : addr.toNat % packetSize = 0

theorem storesAndLoads_iff_runs (h : SameAddress ndpId req st ld m addr)
    (hlmul : m.csr.vtypeVlmul = .m1 ∨ m.csr.vtypeVlmul = .m2) :
    StoresAndLoads ndpId req st ld m addr ↔ ∃ v mem w u,
      m.regs.readVreg (st.operand dest) ⟨ndpId, m.csr, req⟩ = .ok v ∧
      m.memories.storeVector m.csr m.csr.vtypeVsew addr v = .ok mem ∧
      mem.loadVector m.csr m.csr.vtypeVsew addr = .ok w ∧
      m.regs.writeVreg (ld.operand dest) w ⟨ndpId, m.csr, req⟩ = .ok u ∧
      VectorReadBack ndpId req m (st.operand dest) (ld.operand dest) addr mem u := by
  have hstore := exec_vectorStore h.storeOp h.store
  have hload (mem : Memories) : exec (RegisterUnit.fileOps ndpId req) ld
      ⟨m.regs, mem, resume m.csr⟩ = do
        let w ← mem.loadVector m.csr m.csr.vtypeVsew addr
        let u ← m.regs.writeVreg (ld.operand dest) w ⟨ndpId, m.csr, req⟩
        return (false, ⟨u, mem, resume m.csr⟩) :=
    exec_vectorLoad (m := ⟨m.regs, mem, resume m.csr⟩) h.loadOp h.load hlmul
  constructor
  · rintro ⟨mem, u, hst, hld, hback⟩
    rw [hstore] at hst
    obtain ⟨v, hv, hst⟩ := bind_eq_ok.mp hst
    obtain ⟨mem', hmem, hst⟩ := bind_eq_ok.mp hst
    obtain rfl : mem' = mem := congrArg (·.2.memories) (Except.ok.inj hst)
    rw [hload] at hld
    obtain ⟨w, hw, hld⟩ := bind_eq_ok.mp hld
    obtain ⟨u', hu, hld⟩ := bind_eq_ok.mp hld
    obtain rfl : u' = u := congrArg (·.2.regs) (Except.ok.inj hld)
    exact ⟨v, mem', w, u', hv, hmem, hw, hu, hback⟩
  · rintro ⟨v, mem, w, u, hv, hmem, hw, hu, hback⟩
    refine ⟨mem, u, ?_, ?_, hback⟩
    · rw [hstore]
      change (m.regs.readVreg (st.operand dest) ⟨ndpId, m.csr, req⟩ >>= _) = _
      rw [hv, ok_bind, hmem]
      rfl
    · rw [hload, hw, ok_bind, hu]
      rfl

/-- One packet that was stored answers the load. -/
theorem storeVector_one {p : VectorData} (hlmul : m.csr.vtypeVlmul = .m1) (w : Vsew)
    (hr : m.memories.inRange addr) (hd : m.memories.NoDouble) (hp : p.doubleReg = false) :
    ∃ mem, m.memories.storeVector m.csr w addr p = .ok mem ∧ m.memories.Stored addr p mem ∧
      mem.NoDouble ∧ mem.loadVector m.csr w addr =
        if m.memories.isSynthetic addr then generated addr else .ok p := by
  have hone : ¬ (w.Wide ∧ m.csr.vtypeVlmul = .m2) := fun h => by cases hlmul.symm.trans h.2
  obtain ⟨mem, hstore, hstored⟩ := Memories.store_spec hr (hd addr) p
  refine ⟨mem, (if_neg hone).trans hstore, hstored, hstored.noDouble hd hp, ?_⟩
  have hload := load_eq_shown ((hstored.inRange addr).mpr hr) hstored.self hp
  rw [hstored.isSynthetic] at hload
  rw [loadVector, hload]
  cases (if m.memories.isSynthetic addr then generated addr else .ok p) with
  | error e => rfl
  | ok w => exact if_neg hone

/-- The first packet of those shown is the one that was stored. -/
theorem first_of_shows {mem : Memories} {p : VectorData} {ps : List VectorData} {w : Vsew}
    (h : Shows mem addr (p :: ps)) (hp : Fills t w p) :
    (if mem.isSynthetic addr then generated addr else .ok p : Except Fault VectorData) =
      .ok p := by
  split
  case isTrue hsyn =>
    obtain ⟨g, hg, hvlen, hdata, htype⟩ := h 0 p rfl (by rwa [packetAt_zero])
    rw [packetAt_zero] at hg
    obtain ⟨g', hg', hfills⟩ := generated_spec addr
    obtain rfl := Except.ok.inj (hg.symm.trans hg')
    rw [hg]
    exact congrArg Except.ok (VectorData.ext (htype rfl) hvlen
      (hfills.single.trans hp.single.symm) hdata)
  case isFalse => rfl

/-- Under multiplier 1 one packet is written and read. -/
theorem storesAndLoads_one (hlmul : m.csr.vtypeVlmul = .m1)
    (h : SameAddress ndpId req st ld m addr) (hrs : m.regs.isVreg (toInt (st.operand dest)) = true)
    (hrd : m.regs.isVreg (toInt (ld.operand dest)) = true)
    (hp : Fills t m.csr.vtypeVsew (m.regs.vregTable (toInt (st.operand dest))))
    (hr : m.memories.inRange addr) (hd : m.memories.NoDouble) :
    StoresAndLoads ndpId req st ld m addr ↔
      Shows m.memories addr (m.regs.contents m.csr.vtypeVlmul (st.operand dest)) := by
  have hread : m.regs.readVreg (st.operand dest) ⟨ndpId, m.csr, req⟩ = _ :=
    readVreg_one hrs hlmul hp.vlen
  obtain ⟨mem, hstore, hstored, hno, hload⟩ :=
    storeVector_one hlmul m.csr.vtypeVsew hr hd hp.single
  have hcontents : m.regs.contents m.csr.vtypeVlmul (st.operand dest) =
      [m.regs.vregTable (toInt (st.operand dest))] := by
    rw [hlmul, contents_one]
  rw [storesAndLoads_iff_runs h (.inl hlmul), hcontents]
  generalize m.regs.vregTable (toInt (st.operand dest)) = p at *
  constructor
  · rintro ⟨v, mem', w, u, hv, hmem, hw, hu, hback⟩
    refine forall_getElem?_singleton.mpr fun hsyn => ?_
    rw [packetAt_zero] at hsyn ⊢
    obtain rfl := Except.ok.inj (hread.symm.trans hv)
    obtain rfl := Except.ok.inj (hstore.symm.trans hmem)
    obtain ⟨g, hg, hfills⟩ := generated_spec addr
    rw [hload, hsyn, if_pos rfl, hg] at hw
    obtain rfl := Except.ok.inj hw
    obtain ⟨p₁, v', hp₁, hv', hsame⟩ := hback.register
    obtain rfl := Except.ok.inj (hread.symm.trans hp₁)
    have htype : p.type = .float32 :=
      hsame.type.symm.trans ((type_of_written hu hv').trans hfills.type)
    obtain rfl := hp.type.symm.trans htype
    have hsew := hp.sew_eq
    have hround : RoundTrips m.regs (ld.operand dest) ⟨ndpId, m.csr, req⟩ g :=
      roundTrips_one hrd hlmul (Fills.builtFor (hsew ▸ hfills) hlmul)
    obtain ⟨u', v₁, hu', hv₁, hsame'⟩ := hround
    obtain rfl := Except.ok.inj (hu.symm.trans hu')
    obtain rfl := Except.ok.inj (hv'.symm.trans hv₁)
    have hboth := hsame.of_both hsame'
    rw [hsew] at hp
    exact ⟨g, hg, hboth.vlen, hboth.data_eq (.inl htype) hp.words_eq hfills.words_eq,
      fun _ => hboth.type⟩
  · intro hshows
    have hshown : mem.loadVector m.csr m.csr.vtypeVsew addr = .ok p := by
      rw [hload, first_of_shows hshows hp]
    have hround : RoundTrips m.regs (ld.operand dest) ⟨ndpId, m.csr, req⟩ p :=
      roundTrips_one hrd hlmul (hp.builtFor hlmul)
    obtain ⟨u, v', hu, hv', hsame⟩ := hround
    refine ⟨p, mem, p, u, hread, hstore, hshown, hu, ⟨p, v', hread, hv', hsame⟩, ?_, ?_, hno⟩
    · rw [hcontents]
      refine forall_getElem?_singleton.mpr ?_
      rw [packetAt_zero]
      exact hstored.self
    · rw [hcontents]
      intro a ha
      refine hstored.other fun heq => ha 0 Nat.one_pos ?_
      rw [heq, packetAt_zero, formatAddr_of_aligned h.aligned]

/-- Two packets that were stored answer the load. -/
theorem storeVector_two {p q : VectorData} (hlmul : m.csr.vtypeVlmul = .m2) {w : Vsew}
    (hw : w.Wide) (hp : Fills t w p) (hq : Fills t w q) (halign : addr.toNat % packetSize = 0)
    (hr : m.memories.inRange addr) (hr' : m.memories.inRange (addr + 32#64))
    (hd : m.memories.NoDouble) : ∃ mem,
      m.memories.storeVector m.csr w addr ⟨t, p.vlen + q.vlen, true, p.data ++ q.data⟩ = .ok mem ∧
      mem.packet addr = some p ∧ mem.packet (addr + 32#64) = some q ∧
      (∀ a, formatAddr a ≠ addr → formatAddr a ≠ addr + 32#64 →
        mem.packet a = m.memories.packet a) ∧
      mem.NoDouble ∧ mem.loadVector m.csr w addr =
        ((if m.memories.isSynthetic addr then generated addr else .ok p) >>= fun a =>
          (if m.memories.isSynthetic (addr + 32#64) then generated (addr + 32#64) else .ok q) >>=
            a.append) := by
  have htwo : w.Wide ∧ m.csr.vtypeVlmul = .m2 := ⟨hw, hlmul⟩
  have hfirst := formatAddr_of_aligned halign
  have hsecond : formatAddr (addr + 32#64) = addr + 32#64 :=
    formatAddr_of_aligned (packetAt_aligned halign 1)
  have hne := packetAt_one_ne addr
  obtain ⟨mem₁, hstore₁, hstored₁⟩ := Memories.store_spec hr (hd addr) p
  have hd₁ := hstored₁.noDouble hd hp.single
  obtain ⟨mem, hstore, hstored⟩ :=
    Memories.store_spec ((hstored₁.inRange _).mpr hr') (hd₁ (addr + 32#64)) q
  have hp' : mem.packet addr = some p := by
    rw [hstored.other (by rw [hfirst, hsecond]; exact hne.symm), hstored₁.self]
  refine ⟨mem, ?_, hp', hstored.self, fun a ha ha' => ?_, hstored.noDouble hd₁ hq.single, ?_⟩
  · rw [storeVector, if_pos htwo, hp.split hq hw, ok_bind]
    dsimp only
    rw [hstore₁, ok_bind, hstore]
  · rw [hstored.other (by rwa [hsecond]), hstored₁.other (by rwa [hfirst])]
  · have hr₁ := (hstored.inRange addr).mpr ((hstored₁.inRange addr).mpr hr)
    have hr₂ := (hstored.inRange (addr + 32#64)).mpr ((hstored₁.inRange _).mpr hr')
    have hload := load_eq_shown hr₁ hp' hp.single
    have hload' := load_eq_shown hr₂ hstored.self hq.single
    rw [hstored.isSynthetic, hstored₁.isSynthetic] at hload hload'
    rw [loadVector, hload, hload']
    refine bind_congr fun a => ?_
    rw [if_pos htwo]

/-- A pair of registers of words or double words takes two packets. -/
theorem storesAndLoads_two (hlmul : m.csr.vtypeVlmul = .m2) (hw : m.csr.vtypeVsew.Wide)
    (h : SameAddress ndpId req st ld m addr) {partner : Int}
    (hrs : m.regs.isVreg (toInt (st.operand dest)) = true)
    (hlook : m.regs.doubleVreg.lookup (toInt (st.operand dest)) = some partner)
    (hrd : m.regs.Grouped .m2 (ld.operand dest))
    (hp : Fills t m.csr.vtypeVsew (m.regs.vregTable (toInt (st.operand dest))))
    (hq : Fills t m.csr.vtypeVsew (m.regs.vregTable partner))
    (hr : m.memories.inRange addr) (hr' : m.memories.inRange (addr + 32#64))
    (hd : m.memories.NoDouble) :
    StoresAndLoads ndpId req st ld m addr ↔
      Shows m.memories addr (m.regs.contents m.csr.vtypeVlmul (st.operand dest)) := by
  have hread : m.regs.readVreg (st.operand dest) ⟨ndpId, m.csr, req⟩ = _ :=
    readVreg_two hrs hlook hlmul hp.vlen
  have hcontents : m.regs.contents m.csr.vtypeVlmul (st.operand dest) =
      [m.regs.vregTable (toInt (st.operand dest)), m.regs.vregTable partner] := by
    rw [hlmul, contents_two hlook]
  obtain ⟨mem, hstore, hpacket, hpacket', hothers, hno, hload⟩ :=
    storeVector_two hlmul hw hp hq h.aligned hr hr' hd
  rw [hp.append hq hw] at hread
  rw [storesAndLoads_iff_runs h (.inr hlmul), hcontents]
  generalize m.regs.vregTable (toInt (st.operand dest)) = p at *
  generalize m.regs.vregTable partner = q at *
  obtain ⟨g, hg, hfills⟩ := generated_spec addr
  obtain ⟨g', hg', hfills'⟩ := generated_spec (addr + 32#64)
  rw [hg, hg'] at hload
  constructor
  · rintro ⟨v, mem', w, u, hv, hmem, hloaded, hu, hback⟩
    obtain rfl := Except.ok.inj (hread.symm.trans hv)
    obtain rfl := Except.ok.inj (hstore.symm.trans hmem)
    rw [hload] at hloaded
    obtain ⟨a, ha, hloaded⟩ := bind_eq_ok.mp hloaded
    obtain ⟨b, hb, hab⟩ := bind_eq_ok.mp hloaded
    obtain ⟨v, v', hv, hv', hsame⟩ := hback.register
    obtain rfl := Except.ok.inj (hread.symm.trans hv)
    have htype : a.type = t := by
      rw [← type_of_append hab, ← type_of_written hu hv', hsame.type]
    rcases hw with hsew | hsew
    · -- what is loaded fills a pair of registers, wherever it comes from
      rw [hsew] at hp hq
      have hfa : Fills t .e32 a := by
        split at ha
        · obtain rfl := Except.ok.inj ha
          obtain rfl := hfills.type.symm.trans htype
          exact hfills
        · exact Except.ok.inj ha ▸ hp
      obtain ⟨t', hfb⟩ : ∃ t', Fills t' .e32 b := by
        split at hb
        · exact ⟨_, Except.ok.inj hb ▸ hfills'⟩
        · exact ⟨_, Except.ok.inj hb ▸ hq⟩
      obtain rfl := Except.ok.inj ((hfa.append hfb (.inl rfl)).symm.trans hab)
      have hbuilt := (hsew ▸ hfa).builtFor_append (hsew ▸ hfb) hlmul
      have hround : RoundTrips m.regs (ld.operand dest) ⟨ndpId, m.csr, req⟩ _ :=
        roundTrips_pair hlmul (.inl hsew) hrd hbuilt
      obtain ⟨u', v₁, hu', hv₁, hsame'⟩ := hround
      obtain rfl := Except.ok.inj (hu.symm.trans hu')
      obtain rfl := Except.ok.inj (hv'.symm.trans hv₁)
      have ht : t = .float32 ∨ t = .int32 := by
        simpa [elementTypes] using hp.mem
      have hdata := (hsame.of_both hsame').data_eq ht
        (by rw [List.length_append, hp.words_eq, hq.words_eq])
        (by rw [List.length_append, hfa.words_eq, hfb.words_eq])
      obtain ⟨hda, hdb⟩ := List.append_inj hdata (hfa.words.trans hp.words.symm)
      refine forall_getElem?_pair.mpr ⟨fun hsyn => ?_, fun hsyn => ?_⟩
      · rw [packetAt_zero] at hsyn ⊢
        rw [if_pos hsyn] at ha
        obtain rfl := Except.ok.inj ha
        exact ⟨g, hg, hfills.vlen_eq hp, hda, fun _ => htype.trans hp.type.symm⟩
      · rw [packetAt_one] at hsyn ⊢
        rw [if_pos hsyn] at hb
        obtain rfl := Except.ok.inj hb
        exact ⟨g', hg', hfills'.vlen_eq hq, hdb, fun h => absurd h (by decide)⟩
    · have ht : t = .int64 := by
        have hmem := hp.mem
        rw [hsew] at hmem
        exact List.mem_singleton.mp hmem
      have hfirst : m.memories.isSynthetic addr = false := by
        by_contra hsyn
        rw [Bool.not_eq_false] at hsyn
        rw [hsyn, if_pos rfl] at ha
        obtain rfl := Except.ok.inj ha
        rw [hfills.type, ht] at htype
        cases htype
      have hsecond : m.memories.isSynthetic (addr + 32#64) = false := by
        by_contra hsyn
        rw [Bool.not_eq_false] at hsyn
        rw [hsyn, if_pos rfl] at hb
        obtain rfl := Except.ok.inj hb
        rw [hfirst] at ha
        obtain rfl : p = a := Except.ok.inj ha
        have hover := overflows_append (hsew ▸ hp) hfills' hab
        simp only [writeVreg, hover] at hu
        cases hu
      refine forall_getElem?_pair.mpr ⟨fun hsyn => ?_, fun hsyn => ?_⟩
      · rw [packetAt_zero, hfirst] at hsyn
        cases hsyn
      · rw [packetAt_one, hsecond] at hsyn
        cases hsyn
  · intro hshows
    have hfirst := first_of_shows hshows hp
    rw [hg] at hfirst
    have hsecond : ((if m.memories.isSynthetic (addr + 32#64) then .ok g' else .ok q :
        Except Fault VectorData) >>= p.append) = p.append q := by
      split
      case isTrue hsyn =>
        obtain ⟨g₁, hg₁, hvlen, hdata, -⟩ := hshows 1 q rfl (by rwa [packetAt_one])
        rw [packetAt_one, hg'] at hg₁
        obtain rfl := Except.ok.inj hg₁
        have hsew : m.csr.vtypeVsew = .e32 := by
          refine hw.resolve_right fun hsew => ?_
          have hq4 := hq.vlen
          have hg8 := hfills'.vlen
          rw [hsew] at hq4
          rw [← hvlen] at hq4
          simp only [Vsew.bits, packetSize, byteBit] at hq4 hg8
          omega
        rw [ok_bind, hp.append hq hw, hp.append (hsew ▸ hfills') hw, hvlen, hdata]
      case isFalse => rfl
    have hloaded := hload
    rw [hfirst, ok_bind, hsecond, hp.append hq hw] at hloaded
    have hround : RoundTrips m.regs (ld.operand dest) ⟨ndpId, m.csr, req⟩ _ :=
      roundTrips_pair hlmul hw hrd (hp.builtFor_append hq hlmul)
    obtain ⟨u, v', hu, hv', hsame⟩ := hround
    refine ⟨_, mem, _, u, hread, hstore, hloaded, hu, ⟨_, v', hread, hv', hsame⟩, ?_, ?_, hno⟩
    · rw [hcontents]
      refine forall_getElem?_pair.mpr ⟨?_, ?_⟩
      · rw [packetAt_zero]
        exact hpacket
      · rw [packetAt_one]
        exact hpacket'
    · rw [hcontents]
      intro a ha
      have hne := ha 0 Nat.two_pos
      have hne' := ha 1 Nat.one_lt_two
      rw [packetAt_zero] at hne
      rw [packetAt_one] at hne'
      exact hothers a hne hne'

/-- A vector store and the load after it keep their promise under multiplier 1, and under
multiplier 2 for words and double words. In the synthetic range the stored numbers must be those
the simulator makes up. -/
theorem vse_vle_iff (h : SameAddress ndpId req st ld m addr)
    (hlmul : m.csr.vtypeVlmul = .m1 ∨ m.csr.vtypeVlmul = .m2)
    (hrs : m.regs.Grouped m.csr.vtypeVlmul (st.operand dest))
    (hrd : m.regs.Grouped m.csr.vtypeVlmul (ld.operand dest))
    (hfills : ∀ p ∈ m.regs.contents m.csr.vtypeVlmul (st.operand dest),
      Fills t m.csr.vtypeVsew p)
    (hr : ∀ i < (m.regs.contents m.csr.vtypeVlmul (st.operand dest)).length,
      m.memories.inRange (packetAt addr i)) (hd : m.memories.NoDouble) :
    StoresAndLoads ndpId req st ld m addr ↔
      (m.csr.vtypeVlmul = .m1 ∨ m.csr.vtypeVsew.Wide) ∧
        Shows m.memories addr (m.regs.contents m.csr.vtypeVlmul (st.operand dest)) := by
  have hp := hfills _ List.mem_cons_self
  have hr₀ := hr 0 (Nat.succ_pos _)
  rw [packetAt_zero] at hr₀
  rcases hlmul with hl | hl
  · rw [storesAndLoads_one hl h hrs.isVreg hrd.isVreg hp hr₀ hd]
    exact (and_iff_right (.inl hl)).symm
  · obtain ⟨partner, hlook, -, -⟩ := hrs.partner hl
    rw [hl, contents_two hlook] at hfills hr
    have hq := hfills (m.regs.vregTable partner) (List.mem_cons_of_mem _ List.mem_cons_self)
    by_cases hw : m.csr.vtypeVsew.Wide
    · have hr₁ := hr 1 Nat.one_lt_two
      rw [packetAt_one] at hr₁
      rw [storesAndLoads_two hl hw h hrs.isVreg hlook (hl ▸ hrd) hp hq hr₀ hr₁ hd]
      exact (and_iff_right (.inr hw)).symm
    · refine iff_of_false ?_ fun hright => ?_
      · rw [storesAndLoads_iff_runs h (.inr hl)]
        rintro ⟨v, -, -, -, hv, -⟩
        rw [readVreg_two hrs.isVreg hlook hl hp.vlen, hq.append_narrow hw] at hv
        cases hv
      · rcases hright.1 with hone | hwide
        · cases hl.symm.trans hone
        · exact hw hwide

/-- A vector register is stored to or loaded from the address of the request. -/
def vectorAccess (op : Opcode) (reg : Int) : NdpInstruction :=
  ⟨op, .v, ![regAddr, 0, -1, -1, -1], reg, fun _ => 0, 0, false⟩

/-- Two pairs of registers that hold threes, under multiplier 2. -/
def pairMachine (t : DataType) (vlen : Nat) (sew : Vsew) : Machine RegisterUnit where
  regs := { create 0 0 4 with
    doubleVreg := (AList.singleton regPVBase (regPVBase + 1)).insert (regPVBase + 2) (regPVBase + 3)
    vregTable _ := ⟨t, vlen, false, List.replicate 8 3⟩ }
  memories := noPackets
  csr := (pairContext sew).csr

omit [FloatOps] in
theorem sameAddress_pairMachine (t : DataType) (vlen : Nat) (sew : Vsew) :
    SameAddress 0 (pairContext sew).requestInfo (vectorAccess sew.storeOp regPVBase)
      (vectorAccess sew.loadOp (regPVBase + 2)) (pairMachine t vlen sew) 0 :=
  ⟨rfl, rfl, ⟨0, rfl, rfl⟩, ⟨0, rfl, rfl⟩, rfl⟩

omit [FloatOps] in
theorem vse_vle_sampleWords : letI := FloatOps.zero
    StoresAndLoads 0 (pairContext .e32).requestInfo (vectorAccess .vse32 regPVBase)
      (vectorAccess .vle32 (regPVBase + 2)) (pairMachine .int32 8 .e32) 0 := by
  let _ := FloatOps.zero
  have hfills : ∀ p ∈ (pairMachine .int32 8 .e32).regs.contents .m2 regPVBase,
      Fills .int32 .e32 p := by
    intro p hp
    have hp' : p ∈ List.replicate 2 ⟨.int32, 8, false, List.replicate 8 3⟩ := hp
    rw [List.eq_of_mem_replicate hp']
    exact ⟨by decide, rfl, rfl, rfl, rfl⟩
  refine (vse_vle_iff (sameAddress_pairMachine .int32 8 .e32) (.inr rfl)
    ⟨rfl, fun _ => ⟨regPVBase + 1, rfl, rfl, by decide⟩⟩
    ⟨rfl, fun _ => ⟨regPVBase + 3, rfl, rfl, by decide⟩⟩ hfills ?_ noDouble_noPackets).mpr
    ⟨.inr (.inl rfl), fun i p _ h => ?_⟩
  · rintro (_ | _ | i) hi
    · exact ⟨by decide, by decide⟩
    · exact ⟨by decide, by decide⟩
    · have htwo : i + 2 < 2 := hi
      omega
  · have hnone : noPackets.isSynthetic (packetAt 0 i) = false := by
      unfold Memories.isSynthetic Memories.get
      split <;> rfl
    cases hnone.symm.trans h

omit [FloatOps] in
/-- A pair of registers of half words. -/
theorem not_vse_vle_sampleHalfWords : letI := FloatOps.zero
    ¬ StoresAndLoads 0 (pairContext .e16).requestInfo (vectorAccess .vse16 regPVBase)
      (vectorAccess .vle16 (regPVBase + 2)) (pairMachine .int16 16 .e16) 0 := by
  let _ := FloatOps.zero
  rintro ⟨mem, u, hst, -⟩
  have hfault : exec (RegisterUnit.fileOps 0 (pairContext .e16).requestInfo)
      (vectorAccess .vse16 regPVBase) (pairMachine .int16 16 .e16) = .error .undefined := rfl
  cases hfault.symm.trans hst

end Machine

end NdpSim
