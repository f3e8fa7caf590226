import NdpSim.Functional.Machine
import NdpSim.Register.Substitution

/-!
# Register pairs

`WriteVreg` writes two registers if the multiplier is 2 or the value says so, and needs a partner
then. `Convert` gives a register a partner when its name comes up first in the text. What it goes
by is the multiplier in the order of the text and the first source operand, so the write may come
to a register that has none.
-/
namespace NdpSim

open Library

def doubleNotAllocated : Fault := .runtimeError "RegisterUnit::Double register not allocated"

namespace Machine

variable [FloatOps] {ρ : Type}

/-- In a run of a section, instruction `k` makes access `a` in state `m`. -/
def Makes (ops : FileOps ρ) (insts : List NdpInstruction) (loopMap : LoopMap) (start : Machine ρ)
    (k : Nat) (a : Access) (m : Machine ρ) : Prop :=
  ∃ n m₀ inst, executeInstsArray ops insts loopMap n 0 start = .ok ((k : Int), m₀) ∧
    insts[k]? = some inst ∧
    (a, m) ∈ (execute inst.opcode inst.operandType inst.segCnt).visits (handle ops inst) m₀

/-- A write of `v` fills two registers. -/
def NeedsPair (m : Machine ρ) (v : VectorData) : Prop :=
  m.csr.vtypeVlmul = .m2 ∨ v.doubleReg = true

section Unit

variable {ndpId : Int} {req : RequestInfo} {inst : NdpInstruction} {insts : List NdpInstruction}
  {loopMap : LoopMap} {start m : Machine RegisterUnit} {k : Nat} {a : Access}

theorem refilled_exec {m' : Machine RegisterUnit} {b : Bool}
    (h : m.exec (RegisterUnit.fileOps ndpId req) inst = .ok (b, m')) :
    m.regs.Refilled m'.regs :=
  (Prog.run_invariant (I := fun t => m.regs.Refilled t.regs)
    (fun _ _ _ _ ha ht => ht.trans (refilled_handle ha)) h (.refl _)).1

theorem refilled_run {n : Nat} {i j : Int}
    (h : executeInstsArray (RegisterUnit.fileOps ndpId req) insts loopMap n i start = .ok (j, m)) :
    start.regs.Refilled m.regs := by
  induction n generalizing i start with
  | zero =>
    obtain ⟨-, rfl⟩ := Prod.mk.inj (Except.ok.inj h)
    exact .refl _
  | succ n ih =>
    rw [executeInstsArray] at h
    split at h
    · obtain ⟨-, rfl⟩ := Prod.mk.inj (Except.ok.inj h)
      exact .refl _
    · split at h
      · obtain ⟨-, rfl⟩ := Prod.mk.inj (Except.ok.inj h)
        exact .refl _
      · obtain ⟨⟨i₁, m₁⟩, hit, h⟩ := bind_eq_ok.mp h
        obtain ⟨⟨b, m₂⟩, hexec, hit⟩ := bind_eq_ok.mp hit
        obtain ⟨i₂, -, hit⟩ := bind_eq_ok.mp hit
        obtain ⟨-, rfl⟩ := Prod.mk.inj (Except.ok.inj hit)
        exact (refilled_exec hexec).trans (ih h)

/-- Which registers there are, and which of them are pairs, does not change in a run. -/
theorem Makes.refilled
    (h : Makes (RegisterUnit.fileOps ndpId req) insts loopMap start k a m) :
    start.regs.Refilled m.regs := by
  obtain ⟨n, m₀, inst, hrun, -, hvisit⟩ := h
  refine (refilled_run hrun).trans ?_
  exact Prog.visits_invariant (I := fun t => m₀.regs.Refilled t.regs)
    (fun _ _ _ _ ha ht => ht.trans (refilled_handle ha)) hvisit (.refl _)

theorem Makes.within (h : Makes (RegisterUnit.fileOps ndpId req) insts loopMap start k a m)
    (hi : insts[k]? = some inst) : a.Within inst.opcode inst.usesOf := by
  obtain ⟨n, m₀, inst', -, hi', hvisit⟩ := h
  obtain rfl := Option.some.inj (hi.symm.trans hi')
  exact within_of_mem_trace (Prog.mem_trace_of_mem_visits hvisit)

end Unit

end Machine

/-! ## When a program is given its partners -/

section Statement

variable [FloatOps] (insts out : List NdpInstruction) (ndpId : Int) (req : RequestInfo)
  (loopMap : LoopMap) (start : Machine RegisterUnit)

/-- A write to two registers finds a partner. -/
def PairsSuffice : Prop :=
  ∀ k renamed s v m, out[k]? = some renamed →
    Machine.Makes (RegisterUnit.fileOps ndpId req) out loopMap start k (.writeV s v) m →
    m.NeedsPair v → toInt (renamed.operand s) ∈ m.regs.doubleVreg ∧
      m.regs.writeVreg (renamed.operand s) v ⟨ndpId, m.csr, req⟩ ≠ .error doubleNotAllocated

/-- A write to two registers goes to a field that is renamed as a vector register, and the name in
it was given a partner where it came up first in the text. -/
def PairsForeseen : Prop :=
  ∀ k inst s v m, insts[k]? = some inst →
    Machine.Makes (RegisterUnit.fileOps ndpId req) out loopMap start k (.writeV s v) m →
    m.NeedsPair v → (some .v, s) ∈ inst.registerFields ∧
      toInt (inst.operand s) ∈ (Names.ofSection insts).wide

/-- No destination field holds the number of a physical vector register. -/
def PlainDests : Prop :=
  ∀ inst ∈ insts, ∀ s, (s = .dest ∨ ∃ i, s = .segDest i) →
    ¬ (regPVBase ≤ toInt (inst.operand s) ∧ toInt (inst.operand s) < spcialRegStart)

end Statement

/-! ## Where a vector result goes -/

/-- The destination field holds what is stored. -/
def Opcode.storesDest (op : Opcode) : Bool :=
  op.checkStoreOp || op = .vsuxei64 || op.checkVectorOp && op.checkAmoOp

theorem Opcode.storesDest_of_looksUpDest {op : Opcode} (h : NdpInstruction.LooksUpDest op) :
    op.storesDest = true := by
  rw [storesDest, Bool.or_eq_true, Bool.and_eq_true]
  obtain hmem | hamo := h
  · left
    revert op
    decide
  · exact .inr hamo

/-- A destination that is not assigned by the renaming is one that is stored. -/
theorem defines_or_storesDest (inst : NdpInstruction) :
    (∀ st ∈ inst.renameSteps, ∀ c, st.target = some (c, .dest) → st.defines = true) ∨
      inst.opcode.storesDest = true := by
  have hall : ∀ ss ∈ NdpInstruction.resultSteps,
      ∀ st ∈ ss, (st.defines || st.target.all fun a => a.2 ≠ .dest) = true := by decide
  obtain hseg | hmem | ⟨hop, -⟩ := inst.renameSteps_cases
  · left
    rw [hseg]
    intro st hst c ht
    simp only [NdpInstruction.loadSegSteps, List.cons_append, List.nil_append, List.mem_cons,
      List.mem_map] at hst
    obtain rfl | rfl | rfl | ⟨i, -, rfl⟩ := hst
    · cases ht
    · cases ht
    · rfl
    · rfl
  · left
    intro st hst c ht
    simpa [ht] using hall _ hmem st hst
  · exact .inr (Opcode.storesDest_of_looksUpDest hop)

/-- No vector register is written through a destination field that is stored. -/
theorem not_writes_of_storesDest {op : Opcode} (h : op.storesDest = true)
    (operandType : OperandType) (segCnt : Int) :
    (Slot.dest, Use.write .v) ∉ uses op operandType segCnt := by
  cases op
  all_goals first
    | (cases h; done)
    | exact of_decide_eq_true rfl

theorem writes_vlsseg {operandType : OperandType} {segCnt : Int} {s : Slot} {c : RegClass}
    (h : (s, .write c) ∈ uses .vlsseg operandType segCnt) : ∃ i, s = .segDest i := by
  have hmem : (s, Use.write c) ∈ [useX (.src 0), useV (.src 1)] ++
      (List.range segCnt.toNat).map fun i => (Slot.segDest (Fin.ofNat 8 i), Use.write .v) := h
  obtain hmem | hmem := List.mem_append.mp hmem
  · simp at hmem
  · obtain ⟨i, -, heq⟩ := List.mem_map.mp hmem
    exact ⟨_, (Prod.mk.inj heq).1.symm⟩

theorem slot_of_write {op : Opcode} {operandType : OperandType} {segCnt : Int} {s : Slot}
    {c : RegClass} (h : (s, .write c) ∈ uses op operandType segCnt) :
    s = .dest ∨ ∃ i, s = .segDest i := by
  by_cases hop : op = .vlsseg
  · subst hop
    exact .inr (writes_vlsseg h)
  · exact .inl (writes_uses hop _ _ h).1

namespace NdpInstruction

variable {inst : NdpInstruction} {s : Slot}

theorem write_mem_uses {c : RegClass} (h : (s, .write c) ∈ inst.usesOf) :
    (s, .write c) ∈ uses inst.opcode inst.operandType inst.segCnt := by
  obtain h | h := List.mem_append.mp h
  · exact h
  · obtain ⟨t, -, h⟩ := List.mem_flatMap.mp h
    split at h <;> simp at h

/-- The field of a vector result is assigned by the renaming, if it is renamed at all. -/
theorem defines_of_write
    (h : (s, .write .v) ∈ uses inst.opcode inst.operandType inst.segCnt) {st : RenameStep}
    (hst : st ∈ inst.renameSteps) {c : Option RegClass} (ht : st.target = some (c, s)) :
    st.defines = true := by
  obtain rfl | ⟨i, rfl⟩ := slot_of_write h
  · obtain hall | hstores := defines_or_storesDest inst
    · exact hall st hst c ht
    · exact absurd h (not_writes_of_storesDest hstores _ _)
  · cases st with
    | destRenameSegV index => rfl
    | _ => simp [RenameStep.target] at ht

end NdpInstruction

namespace RegisterUnit

variable {u u' : RegisterUnit} {key : Int} {insts out : List NdpInstruction} {req : RequestInfo}
  {k : Nat} {inst renamed : NdpInstruction} {s : Slot}

/-- The renaming of instruction `k`, and what it binds is bound in the end. -/
theorem convertInst_at (h : u.convert insts key req = .ok (out, u')) (hi : insts[k]? = some inst)
    (ho : out[k]? = some renamed) : ∃ w w' : RegisterUnit,
    w.convertInst key inst = .ok (renamed, w') ∧
      ∀ c n p, (w'.pool c).find? key n = some p → (u'.pool c).find? key n = some p := by
  obtain ⟨u₁, u₂, -, -, h⟩ := convert_eq_ok.mp h
  obtain ⟨hlt, rfl⟩ := List.getElem?_eq_some_iff.mp hi
  have hsplit : insts = insts.take k ++ insts[k] :: insts.drop (k + 1) := by simp
  rw [hsplit] at h
  obtain ⟨out₁, renamed', out₂, w, w', hpre, hinst, hpost, rfl⟩ := convertInsts_split h
  have hlen : out₁.length = k := by
    rw [length_convertInsts hpre, List.length_take]
    omega
  have hat : (out₁ ++ renamed' :: out₂)[k]? = some renamed' := by
    rw [← hlen, List.getElem?_append_right (Nat.le_refl _)]
    simp
  obtain rfl := Option.some.inj (ho.symm.trans hat)
  exact ⟨w, w', hinst, convertInsts_mono hpost⟩

theorem shape_at (h : u.convert insts key req = .ok (out, u')) (hi : insts[k]? = some inst)
    (ho : out[k]? = some renamed) : renamed.opcode = inst.opcode ∧
      renamed.operandType = inst.operandType ∧ renamed.segCnt = inst.segCnt := by
  obtain ⟨w, w', hinst, -⟩ := convertInst_at h hi ho
  exact shape_runSteps hinst

/-- The field of a vector result holds the register that its name is bound to. -/
theorem find?_of_write (h : u.convert insts key req = .ok (out, u')) (hi : insts[k]? = some inst)
    (ho : out[k]? = some renamed)
    (hs : (s, .write .v) ∈ uses inst.opcode inst.operandType inst.segCnt)
    {c : Option RegClass} (hc : (c, s) ∈ inst.registerFields) :
    ∃ c', c = some c' ∧
      (u'.pool c').find? key (toInt (inst.operand s)) = some (renamed.operand s) := by
  obtain ⟨w, w', hinst, hmono⟩ := convertInst_at h hi ho
  obtain ⟨st, hst, ht⟩ := mem_registerFields.mp hc
  have hd := NdpInstruction.defines_of_write hs hst ht
  have hw := writtenOnce_renameSteps inst
  obtain ⟨pre, post, hsplit⟩ := List.append_of_mem hst
  rw [convertInst, hsplit] at hinst
  rw [hsplit] at hw
  cases c with
  | none => cases st <;> simp_all [RenameStep.target, RenameStep.defines]
  | some c' => exact ⟨c', rfl, hmono _ _ _ (runSteps_defined hinst hw ht hd)⟩

theorem operand_of_unrenamed (h : u.convert insts key req = .ok (out, u'))
    (hi : insts[k]? = some inst) (ho : out[k]? = some renamed)
    (hs : ∀ c, (c, s) ∉ inst.registerFields) : renamed.operand s = inst.operand s := by
  obtain ⟨w, w', hinst, -⟩ := convertInst_at h hi ho
  exact runSteps_other hinst fun st hst c ht => hs c (mem_registerFields.mpr ⟨st, hst, ht⟩)

/-! ## Partners -/

theorem Conserved.mem_physical_of_double (hu : u.Conserved) {r : Int} (h : r ∈ u.doubleVreg) :
    r ∈ RegClass.v.physical u.numVregs := by
  refine (hu.perm .v).mem_iff.mp ?_
  have hb : r ∈ (u.pool .v).bound := hu.paired r h
  simp [held, hb]

theorem Conserved.partner_le (hu : u.Conserved) {r p : Int} (h : u.doubleVreg.lookup r = some p) :
    regPVBase ≤ p := by
  have hp : p ∈ u.partners .v := Binding.mem_values.mpr ⟨r, h⟩
  have hheld : p ∈ u.held .v := by simp [held, hp]
  exact (RegClass.mem_physical.mp ((hu.perm .v).mem_iff.mp hheld)).1

theorem split_error {v : VectorData} {e : Fault} (h : v.split = .error e) : e = .undefined := by
  simp only [VectorData.split] at h
  generalize (if v.type = .int64 then v.vlen * 2 else v.vlen) = iter at h
  by_cases hlong : v.data.length < iter ∨
      (VectorData.splitShape v.type).data.length < iter - iter / 2
  · rw [if_pos hlong] at h
    exact (Except.error.inj h).symm
  · rw [if_neg hlong] at h
    cases h

/-- A write to a register with a partner does not miss one. -/
theorem Conserved.writeVreg_ne (hu : u.Conserved) {reg : Int} (h : toInt reg ∈ u.doubleVreg)
    (v : VectorData) (context : Context) :
    u.writeVreg reg v context ≠ .error doubleNotAllocated := by
  obtain ⟨p, hp⟩ := Option.isSome_iff_exists.mp (AList.lookup_isSome.mpr h)
  have hle : ¬ p < regPVBase := Int.not_lt.mpr (hu.partner_le hp)
  intro herr
  simp only [writeVreg, hp, Option.getD_some, if_neg hle] at herr
  split at herr
  · have hwhat : Fault.runtimeError "RegisterUnit::WriteVreg: Overflow Detected!" =
        doubleNotAllocated := Except.error.inj herr
    exact absurd hwhat (by decide)
  split at herr
  · split at herr
    · cases hv : v.split with
      | error e =>
        rw [hv] at herr
        have hwhat : e = doubleNotAllocated := Except.error.inj herr
        exact absurd (hwhat.symm.trans (split_error hv)) (by decide)
      | ok halves =>
        rw [hv] at herr
        cases herr
    · cases herr
  · have hwhat : Fault.runtimeError "RegisterUnit::WriteVreg: Invalid register" =
        doubleNotAllocated := Except.error.inj herr
    exact absurd hwhat (by decide)

/-- The account of a section that was renamed. -/
theorem tracks_of_convert (hu : u.Conserved) (hl : u.Layout) (hk : ¬ u.Live key)
    (h : u.convert insts key req = .ok (out, u')) (hplain : Plain insts) :
    ∃ free, Tracks free key u' (Names.ofSection insts) (Names.ofSection insts).wide := by
  have ha := convert_agrees hu hl hk insts req
  rw [h] at ha
  unfold Names.ofSection
  generalize Names.start.insts insts = acc at ha ⊢
  cases ha with
  | ok hafter =>
    obtain ⟨w, ht, hw⟩ := hafter
    rw [hw hplain] at ht
    exact ⟨_, ht⟩

theorem toInt_bound (hu : u.Conserved) (hl : u.Layout) {c : RegClass} {n r : Int}
    (h : (u.pool c).find? key n = some r) : toInt r = r := (hu.bindsPhysical hl c n r h).2

/-- A physical register of one class has a number of that class only. -/
theorem Layout.eq_v_of_double (hl : u.Layout) (hu : u.Conserved) {c : RegClass} {name r : Int}
    (hf : (u.pool c).find? key name = some r) (hr : r ∈ u.doubleVreg) : c = .v := by
  have hphys := RegClass.mem_physical.mp (hu.mem_physical_of_find? hf)
  have hdouble := RegClass.mem_physical.mp (hu.mem_physical_of_double hr)
  have hx := hl.x
  have hf := hl.f
  cases c with
  | x =>
    simp only [RegClass.base, numRegs] at hphys hdouble
    have hle : regPFBase ≤ regPVBase := by decide
    omega
  | f =>
    simp only [RegClass.base, numRegs] at hphys hdouble
    omega
  | v => rfl

end RegisterUnit

section Main

open RegisterUnit

variable [FloatOps] {u u' : RegisterUnit} {key : Int} {insts out : List NdpInstruction}
  {req : RequestInfo}

theorem writes_of_makes (h : u.convert insts key req = .ok (out, u')) {k : Nat}
    {inst renamed : NdpInstruction} (hi : insts[k]? = some inst) (ho : out[k]? = some renamed)
    {ndpId : Int} {loopMap : LoopMap} {start m : Machine RegisterUnit} {s : Slot} {v : VectorData}
    (hmakes : Machine.Makes (RegisterUnit.fileOps ndpId req) out loopMap start k (.writeV s v) m) :
    (s, .write .v) ∈ uses inst.opcode inst.operandType inst.segCnt := by
  obtain ⟨hop, htype, hseg⟩ := shape_at h hi ho
  have hmem := NdpInstruction.write_mem_uses ((hmakes.within ho).use _ rfl)
  rwa [hop, htype, hseg] at hmem

/-- If no operand is mistaken for a physical register, the pairs that are allocated suffice exactly
if every write to two registers goes to a name that got a partner at its first place in the
text. -/
theorem pairs_suffice_iff {nx nf nv : Nat} (hu : Reachable nx nf nv u) (hl : u.Layout)
    (hk : ¬ u.Live key) (h : u.convert insts key req = .ok (out, u')) (hplain : Plain insts)
    (ndpId : Int) (loopMap : LoopMap) (memories : Memories) (csr : CSR) :
    (PairsForeseen insts out ndpId req loopMap ⟨u', memories, csr⟩ →
      PairsSuffice out ndpId req loopMap ⟨u', memories, csr⟩) ∧
    (PlainDests insts → PairsSuffice out ndpId req loopMap ⟨u', memories, csr⟩ →
      PairsForeseen insts out ndpId req loopMap ⟨u', memories, csr⟩) := by
  have hu' : u'.Conserved := hu.conserved.convert hk h
  have hl' : u'.Layout := hl.convert h
  obtain ⟨free, ht⟩ := tracks_of_convert hu.conserved hl hk h hplain
  constructor
  · intro hforeseen k renamed s v m ho hmakes hneeds
    have hlt : k < insts.length := by
      rw [← length_convert h]
      exact (List.getElem?_eq_some_iff.mp ho).1
    obtain ⟨inst, hi⟩ : ∃ inst, insts[k]? = some inst := ⟨_, List.getElem?_eq_getElem hlt⟩
    obtain ⟨hfield, hwide⟩ := hforeseen k inst s v m hi hmakes hneeds
    have hwrite := writes_of_makes h hi ho hmakes
    obtain ⟨c, hc, hf⟩ := find?_of_write h hi ho hwrite hfield
    obtain rfl := Option.some.inj hc
    have hreg := toInt_bound hu' hl' hf
    have hdouble : toInt (renamed.operand s) ∈ u'.doubleVreg := by
      rw [hreg]
      exact (ht.paired _ _ hf).mpr hwide
    obtain ⟨xt, ft, vt, hm⟩ := hmakes.refilled
    rw [hm]
    have hsame : RegisterUnit.Conserved
        { u' with xregTable := xt, fregTable := ft, vregTable := vt } := ⟨hu'.perm, hu'.paired⟩
    exact ⟨hdouble, hsame.writeVreg_ne hdouble v _⟩
  · intro hdests hsuffice k inst s v m hi hmakes hneeds
    have hlt : k < out.length := by
      rw [length_convert h]
      exact (List.getElem?_eq_some_iff.mp hi).1
    obtain ⟨renamed, ho⟩ : ∃ renamed, out[k]? = some renamed := ⟨_, List.getElem?_eq_getElem hlt⟩
    have hwrite := writes_of_makes h hi ho hmakes
    obtain ⟨hdouble, -⟩ := hsuffice k renamed s v m ho hmakes hneeds
    obtain ⟨xt, ft, vt, hm⟩ := hmakes.refilled
    rw [hm] at hdouble
    have hdouble : toInt (renamed.operand s) ∈ u'.doubleVreg := hdouble
    by_cases hrenamed : ∃ c, (c, s) ∈ inst.registerFields
    · obtain ⟨c, hc⟩ := hrenamed
      obtain ⟨c', rfl, hf⟩ := find?_of_write h hi ho hwrite hc
      rw [toInt_bound hu' hl' hf] at hdouble
      obtain rfl := hl'.eq_v_of_double hu' hf hdouble
      exact ⟨hc, (ht.paired _ _ hf).mp hdouble⟩
    · rw [operand_of_unrenamed h hi ho fun c hc => hrenamed ⟨c, hc⟩] at hdouble
      have hphys := RegClass.mem_physical.mp (hu'.mem_physical_of_double hdouble)
      have hv := hl'.v
      refine absurd ⟨hphys.1, ?_⟩ (hdests inst (List.mem_of_getElem? hi) s (slot_of_write hwrite))
      exact hphys.2.trans_le hv

end Main

/-- `vsetvli x0, x5, e32, m2` -/
def settingM2 : NdpInstruction :=
  ⟨.vsetvli, .none, ![regXBase + 5, immE32, immM2, 0, 0], regX0, fun _ => 0, 0, false⟩

/-- `vmv.s.x v1, x1` -/
def inserting : NdpInstruction :=
  ⟨.vmv, .s_x, ![regXBase + 1, -1, -1, -1, -1], regVBase + 1, fun _ => 0, 0, false⟩

def emptyMemories : Memories := ⟨⟨0, 0, none, fun _ => none⟩, ⟨0, 0, none, fun _ => none⟩⟩

/-- The register comes up first with the multiplier it is written with later. -/
theorem pairs_suffice_behind_m2 : letI := FloatOps.zero
    ∃ out u', (RegisterUnit.create 3 0 4).convert [settingM2, inserting, inserting] 7
        RegisterUnit.sampleRequest = .ok (out, u') ∧
      PairsSuffice out 0 RegisterUnit.sampleRequest ∅ ⟨u', emptyMemories, {}⟩ := by
  let _ := FloatOps.zero
  have hk : ¬ (RegisterUnit.create 3 0 4).Live 7 := by
    rintro ⟨c, hc⟩
    cases c <;> exact AList.notMem_empty _ hc
  have hl : (RegisterUnit.create 3 0 4).Layout := by
    constructor <;> decide
  have hplain : RegisterUnit.Plain [settingM2, inserting, inserting] := by
    intro inst hinst _
    simp only [List.mem_cons, List.not_mem_nil, or_false] at hinst
    obtain rfl | rfl | rfl := hinst <;> (unfold RegisterUnit.PlainSource; decide)
  obtain ⟨out, u', h⟩ : ∃ out u', (RegisterUnit.create 3 0 4).convert
      [settingM2, inserting, inserting] 7 RegisterUnit.sampleRequest = .ok (out, u') := ⟨_, _, rfl⟩
  refine ⟨out, u', h, (pairs_suffice_iff .refl hl hk h hplain 0 ∅ emptyMemories {}).1 ?_⟩
  intro k inst s v m hi hmakes _
  have hlt : k < out.length := by
    rw [RegisterUnit.length_convert h]
    exact (List.getElem?_eq_some_iff.mp hi).1
  have hwrite := writes_of_makes h hi (List.getElem?_eq_getElem hlt) hmakes
  have hinserted : ∀ inst ∈ [inserting, inserting],
      (s, .write .v) ∈ uses inst.opcode inst.operandType inst.segCnt →
      (some .v, s) ∈ inst.registerFields ∧
      toInt (inst.operand s) ∈ (Names.ofSection [settingM2, inserting, inserting]).wide := by
    intro inst hinst hwrite
    obtain rfl : inst = inserting := by simpa using hinst
    obtain rfl : s = .dest := (writes_uses (by decide) _ _ hwrite).1
    exact ⟨by decide, by decide⟩
  match k, hi with
  | 0, hi =>
    obtain rfl := Option.some.inj hi
    have hnone : (s, .write .v) ∈ [number (.src 1), number (.src 2)] := hwrite
    simp at hnone
  | k + 1, hi => exact hinserted inst (List.mem_of_getElem? hi) hwrite

/-- The unit that has renamed an insertion before the multiplier is set and one behind it. -/
def unpairedUnit : RegisterUnit :=
  match (RegisterUnit.create 3 0 4).convert [inserting, settingM2, inserting] 7
      RegisterUnit.sampleRequest with
  | .ok r => r.2
  | .error _ => .create 3 0 4

/-- `vmv.s.x pv0, px0` -/
def insertingRenamed : NdpInstruction := (inserting.setSrc 0 regPXBase).setDest regPVBase

/-- The state in front of the second insertion. -/
def beforeInsertion [FloatOps] : Machine RegisterUnit :=
  match Machine.executeInstsArray (RegisterUnit.fileOps 0 RegisterUnit.sampleRequest)
      [insertingRenamed, settingM2, insertingRenamed] ∅ 2 0 ⟨unpairedUnit, emptyMemories, {}⟩ with
  | .ok r => r.2
  | .error _ => ⟨unpairedUnit, emptyMemories, {}⟩

/-- A write of the destination with multiplier 2. -/
def writesDouble : Option (Access × Machine RegisterUnit) → Bool
  | some (.writeV .dest _, m) => m.csr.vtypeVlmul = .m2
  | _ => false

theorem exists_of_writesDouble {a : Option (Access × Machine RegisterUnit)}
    (h : writesDouble a = true) :
    ∃ v m, a = some (.writeV .dest v, m) ∧ m.csr.vtypeVlmul = .m2 := by
  unfold writesDouble at h
  split at h
  case h_1 v m => exact ⟨v, m, rfl, of_decide_eq_true h⟩
  case h_2 => cases h

/-- The register comes up first with multiplier 1 and gets no partner. -/
theorem pair_not_allocated : letI := FloatOps.zero
    ∃ out u', (RegisterUnit.create 3 0 4).convert [inserting, settingM2, inserting] 7
        RegisterUnit.sampleRequest = .ok (out, u') ∧
      ¬ PairsSuffice out 0 RegisterUnit.sampleRequest ∅ ⟨u', emptyMemories, {}⟩ := by
  let _ := FloatOps.zero
  refine ⟨[insertingRenamed, settingM2, insertingRenamed], unpairedUnit, rfl, fun hsuffice => ?_⟩
  have hrun : Machine.executeInstsArray (RegisterUnit.fileOps 0 RegisterUnit.sampleRequest)
      [insertingRenamed, settingM2, insertingRenamed] ∅ 2 0 ⟨unpairedUnit, emptyMemories, {}⟩ =
      .ok (2, beforeInsertion) := rfl
  have hwrites : writesDouble ((execute .vmv .s_x 0).visits (Machine.handle
      (RegisterUnit.fileOps 0 RegisterUnit.sampleRequest) insertingRenamed)
      beforeInsertion)[3]? = true := by decide +kernel
  obtain ⟨v, m, hvisit, hlmul⟩ := exists_of_writesDouble hwrites
  have hmakes : Machine.Makes (RegisterUnit.fileOps 0 RegisterUnit.sampleRequest)
      [insertingRenamed, settingM2, insertingRenamed] ∅ ⟨unpairedUnit, emptyMemories, {}⟩ 2
      (.writeV .dest v) m := ⟨2, _, insertingRenamed, hrun, rfl, List.mem_of_getElem? hvisit⟩
  have hpaired := (hsuffice 2 insertingRenamed .dest v m rfl hmakes (.inl hlmul)).1
  obtain ⟨xt, ft, vt, hregs⟩ := hmakes.refilled
  rw [hregs] at hpaired
  exact AList.notMem_empty _ hpaired

end NdpSim
