import NdpSim.Functional.Refinement

/-!
# The zero register

The parser gives `x0` the number of a special register, and reading that number gives zero. But
`x0` is a name like any other for `Convert`: once an instruction has it as its destination it is
bound to a physical register, and every operand `x0` further down in the text is that register.
-/
namespace NdpSim

open Library

/-- `x0` as an operand that is looked up, and as a destination. -/
def readX0 : NameUse := ⟨false, .x, regX0⟩

def assignX0 : NameUse := ⟨true, .x, regX0⟩

/-- Behind the first instruction with the destination `x0`, no operand is `x0`. -/
def X0Clear (insts : List NdpInstruction) : Prop :=
  readX0 ∉ (insts.flatMap NdpInstruction.nameUses).dropWhile (· ≠ assignX0)

instance (insts : List NdpInstruction) : Decidable (X0Clear insts) :=
  inferInstanceAs (Decidable (¬ _))

/-- The operand was written `x0`, and `Convert` takes it for an x register that is read or leaves
it alone. -/
def X0Operand (inst : NdpInstruction) (s : Slot) : Prop :=
  toInt (inst.operand s) = regX0 ∧
    ∀ st ∈ inst.renameSteps, ∀ c, st.target = some (c, s) → c = some .x ∧ st.defines = false

/-- Every operand that was written `x0` reads as zero at every point of every execution of the
renamed section. The registers the section was given hold whatever was left in them. -/
def X0Zero [FloatOps] (insts out : List NdpInstruction) (u : RegisterUnit) (ndpId : Int)
    (req : RequestInfo) : Prop :=
  ∀ contents memories csr loopMap n i m,
    Machine.executeInstsArray (RegisterUnit.fileOps ndpId req) out loopMap n 0
      ⟨{ u with xregTable := contents }, memories, csr⟩ = .ok (i, m) →
    ∀ (k : Nat) (inst renamed : NdpInstruction) (s : Slot), insts[k]? = some inst →
      out[k]? = some renamed → X0Operand inst s →
      m.regs.readXreg (renamed.operand s) ⟨ndpId, m.csr, req⟩ = .ok 0

theorem mem_dropWhile_ne {α : Type} [DecidableEq α] {l : List α} {a d : α} (hne : a ≠ d) :
    a ∈ l.dropWhile (· ≠ d) ↔ ∃ pre post, l = pre ++ a :: post ∧ d ∈ pre := by
  induction l with
  | nil => simp
  | cons b l ih =>
    by_cases hb : b = d
    · subst hb
      rw [List.dropWhile_cons_of_neg (by simp)]
      constructor
      · intro h
        obtain ⟨pre, post, rfl⟩ := List.append_of_mem ((List.mem_cons.mp h).resolve_left hne)
        exact ⟨b :: pre, post, rfl, List.mem_cons_self⟩
      · rintro ⟨pre, post, heq, -⟩
        rw [heq]
        simp
    · rw [List.dropWhile_cons_of_pos (by simpa using hb), ih]
      constructor
      · rintro ⟨pre, post, rfl, hd⟩
        exact ⟨b :: pre, post, rfl, List.mem_cons_of_mem _ hd⟩
      · rintro ⟨pre, post, heq, hd⟩
        cases pre with
        | nil => cases hd
        | cons c pre =>
          obtain ⟨rfl, rfl⟩ := List.cons.inj heq
          exact ⟨pre, post, rfl, (List.mem_cons.mp hd).resolve_left (Ne.symm hb)⟩

theorem flatMap_eq_append_cons {α β : Type} {f : α → List β} {l : List α} {pre post : List β}
    {b : β} (h : l.flatMap f = pre ++ b :: post) :
    ∃ l₁ a l₂ pre' post', l = l₁ ++ a :: l₂ ∧ f a = pre' ++ b :: post' ∧
      pre = l₁.flatMap f ++ pre' := by
  induction l generalizing pre with
  | nil => simp at h
  | cons a l ih =>
    rw [List.flatMap_cons] at h
    obtain ⟨as, rfl, hrest⟩ | ⟨bs, hfa, hrest⟩ := List.append_eq_append_iff.mp h
    · obtain ⟨l₁, a', l₂, pre', post', rfl, hf, rfl⟩ := ih hrest
      exact ⟨a :: l₁, a', l₂, pre', post', rfl, hf, by simp⟩
    · cases bs with
      | nil =>
        simp only [List.nil_append] at hrest
        obtain ⟨l₁, a', l₂, pre', post', rfl, hf, he⟩ := @ih [] hrest.symm
        refine ⟨a :: l₁, a', l₂, pre', post', rfl, hf, ?_⟩
        rw [List.append_nil] at hfa
        rw [List.flatMap_cons, List.append_assoc, ← he, List.append_nil, hfa]
      | cons c bs =>
        obtain ⟨rfl, rfl⟩ := List.cons.inj hrest
        exact ⟨[], a, l, pre, bs, rfl, hfa, by simp⟩

/-- A field that is looked up is not assigned. -/
theorem WrittenOnce.looksUp {ss : List RenameStep} (h : WrittenOnce ss) {st st' : RenameStep}
    (hst : st ∈ ss) (hst' : st' ∈ ss) {c c' : Option RegClass} {s : Slot}
    (ht : st.target = some (c, s)) (ht' : st'.target = some (c', s)) (hd : st.defines = false) :
    st'.defines = false := by
  obtain ⟨pre, post, rfl⟩ := List.append_of_mem hst'
  obtain hst | hst := List.mem_append.mp hst
  · obtain ⟨a, b, rfl⟩ := List.append_of_mem hst
    rw [List.append_assoc, List.cons_append] at h
    obtain hother | ⟨-, hpost⟩ := h.at
    · exact absurd rfl (hother st' (by simp) (c, s) (c', s) ht ht')
    · exact hpost st' (by simp)
  · obtain rfl | hst := List.mem_cons.mp hst
    · exact hd
    · obtain hother | ⟨hd', -⟩ := h.at
      · exact absurd rfl (hother st hst (c', s) (c, s) ht' ht)
      · exact hd'

namespace RegisterUnit

variable {u u' : RegisterUnit} {key : Int}

/-- As long as it is looked up only, a bound name's field gets its register. -/
theorem runSteps_bound {inst : NdpInstruction} {c : RegClass} {s : Slot} {p : Int}
    {ss : List RenameStep} :
    ∀ {u u' : RegisterUnit} {renamed renamed'},
      u.runSteps key inst renamed ss = .ok (renamed', u') →
      (∀ st ∈ ss, ∀ c', st.target = some (c', s) → c' = some c) →
      (u.pool c).find? key (toInt (inst.operand s)) = some p → renamed.operand s = p →
      renamed'.operand s = p := by
  induction ss with
  | nil =>
    intro u u' renamed renamed' h _ _ hr
    obtain ⟨rfl, -⟩ := Prod.mk.inj (Except.ok.inj h)
    exact hr
  | cons st ss ih =>
    intro u u' renamed renamed' h hss hp hr
    obtain ⟨⟨renamed₁, u₁⟩, hs, h⟩ := bind_eq_ok.mp h
    have hstep : u.runSteps key inst renamed [st] = .ok (renamed₁, u₁) :=
      bind_eq_ok.mpr ⟨_, hs, rfl⟩
    refine ih h (fun st' hst' => hss st' (List.mem_cons_of_mem _ hst'))
      (runSteps_mono hstep _ _ _ hp) ?_
    have hst := hss st List.mem_cons_self
    have hset {t : Slot} {r : Int} (hr' : t = s → r = p) :
        (renamed.setOperand t r).operand s = p := by
      rw [NdpInstruction.operand_setOperand]
      split
      case isTrue he => exact hr' he.symm
      case isFalse => exact hr
    cases runStep_outcome hs with
    | noDest =>
      refine hset ?_
      rintro rfl
      cases hst none rfl
    | use ht hd hu =>
      cases hu with
      | bound hf =>
        refine hset ?_
        rintro rfl
        obtain rfl := Option.some_inj.mp (hst _ ht)
        exact Option.some_inj.mp (hf.symm.trans hp)
      | special hf _ =>
        refine hset ?_
        rintro rfl
        obtain rfl := Option.some_inj.mp (hst _ ht)
        rw [hp] at hf
        cases hf
      | absent => exact hr
    | define ht hd hb =>
      refine hset ?_
      rintro rfl
      obtain rfl := Option.some_inj.mp (hst _ ht)
      exact (hb.same _ hp).symm

/-- A name used while it is bound becomes its register. -/
theorem runSteps_late {inst renamed' : NdpInstruction} {pre post : List RenameStep}
    {st : RenameStep} {c : RegClass} {s : Slot} {r₁ r₂ : NdpInstruction} {w w' : RegisterUnit}
    {p : Int} (h₂ : w.runStep key inst r₁ st = .ok (r₂, w'))
    (h₃ : w'.runSteps key inst r₂ post = .ok (renamed', u'))
    (hco : Coherent (pre ++ st :: post)) (ht : st.target = some (some c, s))
    (hp : (w.pool c).find? key (toInt (inst.operand s)) = some p) : renamed'.operand s = p := by
  obtain ⟨f, hf⟩ := hco
  have hcls : ∀ st' ∈ post, ∀ c', st'.target = some (c', s) → c' = some c := by
    intro st' hst' c' ht'
    exact (hf st' (by simp [hst']) _ ht').trans (hf st (by simp) _ ht).symm
  have hstep : w.runSteps key inst r₁ [st] = .ok (r₂, w') := bind_eq_ok.mpr ⟨_, h₂, rfl⟩
  refine runSteps_bound h₃ hcls (runSteps_mono hstep _ _ _ hp) ?_
  cases runStep_outcome h₂ with
  | noDest => simp [RenameStep.target] at ht
  | use ht' _ hu =>
    obtain ⟨rfl, rfl⟩ : c = _ ∧ s = _ := by simpa [ht] using ht'
    cases hu with
    | bound hf =>
      rw [NdpInstruction.operand_setOperand_self]
      exact Option.some_inj.mp (hf.symm.trans hp)
    | special hf _ | absent hf _ =>
      rw [hp] at hf
      cases hf
  | define ht' _ hb =>
    obtain ⟨rfl, rfl⟩ : c = _ ∧ s = _ := by simpa [ht] using ht'
    rw [NdpInstruction.operand_setOperand_self]
    exact (hb.same _ hp).symm

/-- Where in an instruction a name is used. -/
theorem split_of_nameUses {inst : NdpInstruction} {pre' post' : List NameUse} {a : NameUse}
    (h : inst.nameUses = pre' ++ a :: post') :
    ∃ pre st post s, inst.renameSteps = pre ++ st :: post ∧
      pre.filterMap (NameUse.of inst) = pre' ∧ st.target = some (some a.cls, s) ∧
      st.defines = a.defines ∧ toInt (inst.operand s) = a.name := by
  obtain ⟨pre, rest, hsplit, rfl, hrest⟩ := List.filterMap_eq_append_iff.mp h
  obtain ⟨skipped, st, post, rfl, hskipped, huse, rfl⟩ := List.filterMap_eq_cons_iff.mp hrest
  unfold NameUse.of at huse
  split at huse
  case h_2 => cases huse
  case h_1 c s ht =>
    obtain rfl := Option.some_inj.mp huse
    refine ⟨pre ++ skipped, st, post, s, by rw [hsplit, List.append_assoc], ?_, ht, rfl, rfl⟩
    rw [List.filterMap_append, List.filterMap_eq_nil_iff.mpr hskipped, List.append_nil]

section Instruction

variable {inst renamed : NdpInstruction} {known : Finset (RegClass × Int)} {s : Slot}

/-- An operand `x0` stays what it is if the name is not bound where it is used. -/
theorem convertInst_x0_unbound (h : u.convertInst key inst = .ok (renamed, u'))
    (hk : u.Knows key known) (hs : X0Operand inst s)
    (hclear : ∀ pre post, inst.nameUses = pre ++ readX0 :: post →
      (RegClass.x, regX0) ∉ known ∪ assigned pre) : toInt (renamed.operand s) = regX0 := by
  obtain ⟨hname, honly⟩ := hs
  by_cases hst : ∃ st ∈ inst.renameSteps, ∃ c, st.target = some (c, s)
  · obtain ⟨st, hst, c, ht⟩ := hst
    obtain ⟨rfl, hd⟩ := honly st hst c ht
    obtain ⟨pre, post, hsplit⟩ := List.append_of_mem hst
    have huses : inst.nameUses = pre.filterMap (NameUse.of inst) ++
        readX0 :: post.filterMap (NameUse.of inst) := by
      have hof : NameUse.of inst st = some readX0 := by
        simp [NameUse.of, ht, hd, hname, readX0]
      rw [NdpInstruction.nameUses, hsplit, List.filterMap_append, List.filterMap_cons_some hof]
    have hrun : (u.noteVlmul inst).runSteps key inst inst inst.renameSteps = .ok (renamed, u') := h
    have hco := coherent_renameSteps inst
    have hw := writtenOnce_renameSteps inst
    rw [hsplit] at hrun hco hw
    obtain ⟨r₁, w, r₂, w', h₁, h₂, h₃⟩ := runSteps_split hrun
    have hkw := runSteps_knows h₁ (knows_noteVlmul.mpr hk)
    rw [← hname]
    refine runSteps_early h₁ h₂ h₃ hco hw ht hd ?_
    rw [← Option.not_isSome_iff_eq_none, hkw, hname]
    exact hclear _ _ huses
  · rw [runSteps_other h fun st hst' c ht => hst ⟨st, hst', c, ht⟩]
    exact hname

/-- An operand `x0` becomes the register `x0` is bound to where it is used. -/
theorem convertInst_x0_bound (h : u.convertInst key inst = .ok (renamed, u'))
    (hk : u.Knows key known) {pre' post' : List NameUse}
    (huses : inst.nameUses = pre' ++ readX0 :: post')
    (hbound : (RegClass.x, regX0) ∈ known ∪ assigned pre') :
    ∃ s, X0Operand inst s ∧ (u'.pool .x).find? key regX0 = some (renamed.operand s) := by
  obtain ⟨pre, st, post, s, hsplit, rfl, ht, hd, hname⟩ := split_of_nameUses huses
  have hrun : (u.noteVlmul inst).runSteps key inst inst inst.renameSteps = .ok (renamed, u') := h
  have hco := coherent_renameSteps inst
  have hw := writtenOnce_renameSteps inst
  have hoperand : X0Operand inst s := by
    obtain ⟨f, hf⟩ := hco
    have hst : st ∈ inst.renameSteps := by simp [hsplit]
    refine ⟨hname, fun st' hst' c ht' => ⟨?_, hw.looksUp hst hst' ht ht' hd⟩⟩
    exact (hf st' hst' _ ht').trans (hf st hst _ ht).symm
  rw [hsplit] at hrun hco hw
  obtain ⟨r₁, w, r₂, w', h₁, h₂, h₃⟩ := runSteps_split hrun
  have hkw := runSteps_knows h₁ (knows_noteVlmul.mpr hk)
  obtain ⟨p, hp⟩ := Option.isSome_iff_exists.mp ((hkw .x regX0).mpr hbound)
  have hp' : (w.pool .x).find? key (toInt (inst.operand s)) = some p := by rw [hname]; exact hp
  refine ⟨s, hoperand, ?_⟩
  rw [runSteps_late h₂ h₃ hco ht hp']
  have hstep : w.runSteps key inst r₁ (st :: post) = .ok (renamed, u') :=
    bind_eq_ok.mpr ⟨_, h₂, h₃⟩
  exact runSteps_mono hstep _ _ _ hp

end Instruction

section Sections

variable {insts out : List NdpInstruction} {req : RequestInfo}

theorem x0_notMem_initialNames : (RegClass.x, regX0) ∉ initialNames := by decide

theorem mem_known_iff {uses : List NameUse} :
    (RegClass.x, regX0) ∈ initialNames ∪ assigned uses ↔ assignX0 ∈ uses := by
  rw [Finset.mem_union, mem_assigned]
  exact or_iff_right x0_notMem_initialNames

theorem readX0_ne_assignX0 : readX0 ≠ assignX0 := by decide

/-- Operands `x0` keep their name in a section that is clear. -/
theorem x0_kept (h : u.convertInsts key insts = .ok (out, u')) (hk : u.Knows key initialNames)
    (hclear : X0Clear insts) {k : Nat} {inst renamed : NdpInstruction} {s : Slot}
    (hi : insts[k]? = some inst) (ho : out[k]? = some renamed) (hs : X0Operand inst s) :
    toInt (renamed.operand s) = regX0 := by
  obtain ⟨is₁, is₂, rfl, rfl⟩ : ∃ is₁ is₂, insts = is₁ ++ inst :: is₂ ∧ is₁.length = k := by
    obtain ⟨hlt, rfl⟩ := List.getElem?_eq_some_iff.mp hi
    exact ⟨insts.take k, insts.drop (k + 1), by simp, by simp; omega⟩
  obtain ⟨out₁, renamed', out₂, w, w', h₁, h₂, -, rfl⟩ := convertInsts_split h
  obtain rfl : renamed' = renamed := by
    rw [← length_convertInsts h₁] at ho
    simpa using ho
  refine convertInst_x0_unbound h₂ (convertInsts_knows h₁ hk) hs fun pre post huses hmem => ?_
  rw [Finset.union_assoc, ← assigned_append, mem_known_iff] at hmem
  refine hclear ((mem_dropWhile_ne readX0_ne_assignX0).mpr
    ⟨_, post ++ is₂.flatMap NdpInstruction.nameUses, ?_, hmem⟩)
  simp [huses]

/-- In a section that is not clear some operand `x0` becomes an x register. -/
theorem x0_renamed (h : u.convertInsts key insts = .ok (out, u')) (hk : u.Knows key initialNames)
    (hclear : ¬ X0Clear insts) :
    ∃ (k : Nat) (inst renamed : NdpInstruction) (s : Slot), insts[k]? = some inst ∧
      out[k]? = some renamed ∧ X0Operand inst s ∧
      (u'.pool .x).find? key regX0 = some (renamed.operand s) := by
  obtain ⟨pre, post, hsplit, hmem⟩ :=
    (mem_dropWhile_ne readX0_ne_assignX0).mp (not_not.mp hclear)
  obtain ⟨is₁, inst, is₂, pre', post', rfl, huses, rfl⟩ := flatMap_eq_append_cons hsplit
  obtain ⟨out₁, renamed, out₂, w, w', h₁, h₂, h₃, rfl⟩ := convertInsts_split h
  have hbound : (RegClass.x, regX0) ∈
      initialNames ∪ assigned (is₁.flatMap NdpInstruction.nameUses) ∪ assigned pre' := by
    rwa [Finset.union_assoc, ← assigned_append, mem_known_iff]
  obtain ⟨s, hs, hfind⟩ := convertInst_x0_bound h₂ (convertInsts_knows h₁ hk) huses hbound
  refine ⟨is₁.length, inst, renamed, s, by simp, ?_, hs, convertInsts_mono h₃ _ _ _ hfind⟩
  rw [← length_convertInsts h₁]
  simp

/-- `x0` reads as zero in every execution if no operand `x0` stands behind an instruction with the
destination `x0`; and only then, as far as the x registers have numbers of their own. -/
theorem x0_zero_iff [FloatOps] (hu : u.Conserved) (hk : ¬ u.Live key)
    (h : u.convert insts key req = .ok (out, u')) (ndpId : Int) :
    (X0Clear insts → X0Zero insts out u' ndpId req) ∧
      (u.Layout → X0Zero insts out u' ndpId req → X0Clear insts) := by
  obtain ⟨w, hconv, hknows, -⟩ := convert_start h hu hk
  constructor
  · intro hclear contents memories csr loopMap n i m _ k inst renamed s hi ho hs
    have hkept := x0_kept hconv hknows hclear hi ho hs
    rw [readXreg, hkept]
    rfl
  · intro hl hzero
    by_contra hclear
    obtain ⟨k, inst, renamed, s, hi, ho, hs, hfind⟩ := x0_renamed hconv hknows hclear
    have hphys := RegClass.mem_physical.mp ((hu.convert hk h).mem_physical_of_find? hfind)
    have hnum : u'.numXregs = u.numXregs := congrFun (numRegs_convert h) .x
    have hx := hl.x
    simp only [RegClass.base, numRegs, hnum] at hphys
    simp only [regPXBase, regPFBase] at hphys hx
    have hint : toInt (renamed.operand s) = renamed.operand s :=
      toInt_of_range (by omega) (by omega)
    -- the register holds a one that was left in it
    have hread := hzero (Function.update u'.xregTable (renamed.operand s) 1)
      ⟨⟨0, 0, none, fun _ => none⟩, ⟨0, 0, none, fun _ => none⟩⟩ {} ∅ 0 0 _ rfl k inst renamed s
      hi ho hs
    simp only [readXreg, hint, isXreg, hnum, regNdpId, regAddr, regRequestOffset, regX0,
      spcialRegStart, regPXBase, Function.update_self] at hread
    rw [if_neg (by omega), if_neg (by omega), if_neg (by omega), if_neg (by omega)] at hread
    rw [if_pos (by simp; omega)] at hread
    cases hread

/-- `add x3, x0, x0` -/
theorem x0_zero_iff_add : letI := FloatOps.zero
    ∃ out u', (create 3 0 0).convert [sampleScalar .add (regXBase + 3) regX0 regX0] 7
        sampleRequest = .ok (out, u') ∧
      X0Zero [sampleScalar .add (regXBase + 3) regX0 regX0] out u' 0 sampleRequest := by
  have hl : ¬ (create 3 0 0).Live 7 := by
    rintro ⟨c, hc⟩
    cases c <;> exact AList.notMem_empty _ hc
  let _ := FloatOps.zero
  obtain ⟨out, u', h⟩ : ∃ out u', (create 3 0 0).convert
      [sampleScalar .add (regXBase + 3) regX0 regX0] 7 sampleRequest = .ok (out, u') :=
    ⟨_, _, rfl⟩
  exact ⟨out, u', h, (x0_zero_iff (Conserved.create 3 0 0) hl h 0).1 (by decide)⟩

/-- `li x0, 5; add x3, x0, x0` -/
def sampleX0 : List NdpInstruction :=
  [sampleScalar .li regX0 5 0, sampleScalar .add (regXBase + 3) regX0 regX0]

/-- When the `add` is about to be executed, its first operand `x0` reads as five. -/
theorem x0_reads_five : letI := FloatOps.zero
    ∃ out u', (create 4 0 0).convert sampleX0 7 sampleRequest = .ok (out, u') ∧
      ∃ m renamed, Machine.executeInstsArray (fileOps 0 sampleRequest) out ∅ 1 0
          ⟨u', ⟨⟨0, 0, none, fun _ => none⟩, ⟨0, 0, none, fun _ => none⟩⟩, {}⟩ = .ok (1, m) ∧
        out[1]? = some renamed ∧
        toInt ((sampleScalar .add (regXBase + 3) regX0 regX0).operand (.src 0)) = regX0 ∧
        m.regs.readXreg (renamed.operand (.src 0)) ⟨0, m.csr, sampleRequest⟩ = .ok 5 := by
  let _ := FloatOps.zero
  exact ⟨_, _, rfl, _, _, rfl, rfl, rfl, rfl⟩

end Sections

end RegisterUnit

end NdpSim
