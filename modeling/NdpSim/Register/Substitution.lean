import NdpSim.Isa.Access
import NdpSim.Register.Conservation
import NdpSim.Register.Demand

/-!
# Renaming as a substitution

A renamed section is the original one under a map from names to physical registers, provided
that no name is used before the instruction that first assigns it. Ordinary names cannot be:
their lookup fails. Special registers and optional mask operands can, and then the early use
and the late one differ.
-/
namespace NdpSim

open Library

namespace RenameStep

/-- The field a step writes, with the class of the register it looks for. -/
def target : RenameStep → Option (Option RegClass × Slot)
  | lookUp c i => some (some c, .src i)
  | lookUpIfExist i => some (some .v, .src i)
  | lookUpDest c => some (some c, .dest)
  | noDest => some (none, .dest)
  | destRenameX => some (some .x, .dest)
  | destRenameF => some (some .f, .dest)
  | destRenameV _ => some (some .v, .dest)
  | destRenameSegV index =>
    if h : index < 8 then some (some .v, .segDest ⟨index, h⟩) else none

/-- The step leaves an operand alone whose name is not bound. -/
def optional : RenameStep → Bool
  | lookUpIfExist _ => true
  | _ => false

/-- The step binds its name. -/
def defines : RenameStep → Bool
  | destRenameX | destRenameF | destRenameV _ | destRenameSegV _ => true
  | _ => false

end RenameStep

/-- A name in a class, as an instruction uses or assigns it. -/
structure NameUse where
  defines : Bool
  cls : RegClass
  name : Int
  deriving DecidableEq

def NameUse.of (inst : NdpInstruction) (st : RenameStep) : Option NameUse :=
  match st.target with
  | some (some c, s) => some ⟨st.defines, c, toInt (inst.operand s)⟩
  | _ => none

namespace NdpInstruction

/-- The register names of an instruction in the order in which `Convert` comes to them. -/
def nameUses (inst : NdpInstruction) : List NameUse :=
  inst.renameSteps.filterMap (NameUse.of inst)

/-- The fields `Convert` takes for registers, with their classes. -/
def registerFields (inst : NdpInstruction) : List (Option RegClass × Slot) :=
  inst.renameSteps.filterMap RenameStep.target

end NdpInstruction

/-- No physical register has this number. -/
def architectural (n : Int) : Prop := n < regPXBase ∨ spcialRegStart ≤ n

instance (n : Int) : Decidable (architectural n) := inferInstanceAs (Decidable (_ ∨ _))

/-- The names a list of uses assigns. -/
def assigned (uses : List NameUse) : Finset (RegClass × Int) :=
  ((uses.filter NameUse.defines).map fun a => (a.cls, a.name)).toFinset

/-- Every use of a name of `all` comes after an assignment of it; `known` are assigned before. -/
def settledIn (all : Finset (RegClass × Int)) :
    Finset (RegClass × Int) → List NameUse → Prop
  | _, [] => True
  | known, a :: uses =>
    (a.defines = false → architectural a.name → (a.cls, a.name) ∈ all →
      (a.cls, a.name) ∈ known) ∧
    settledIn all (if a.defines then insert (a.cls, a.name) known else known) uses

instance decidableSettledIn (all : Finset (RegClass × Int)) :
    ∀ (known : Finset (RegClass × Int)) (uses : List NameUse), Decidable (settledIn all known uses)
  | _, [] => .isTrue trivial
  | _, _ :: uses =>
    @instDecidableAnd _ _ inferInstance (decidableSettledIn all _ uses)

/-- The names every packet has from the start. -/
def initialNames : Finset (RegClass × Int) := {(.x, regXBase + 1), (.x, regXBase + 2)}

/-- The names a section ever assigns. -/
def sectionNames (insts : List NdpInstruction) : Finset (RegClass × Int) :=
  initialNames ∪ assigned (insts.flatMap NdpInstruction.nameUses)

/-- No register name is used before the first instruction that assigns it. -/
def Settled (insts : List NdpInstruction) : Prop :=
  settledIn (sectionNames insts) initialNames (insts.flatMap NdpInstruction.nameUses)

instance (insts : List NdpInstruction) : Decidable (Settled insts) :=
  inferInstanceAs (Decidable (settledIn _ _ _))

theorem mem_assigned_cons {a : NameUse} {uses : List NameUse} {e : RegClass × Int} :
    e ∈ assigned (a :: uses) ↔ (a.defines = true ∧ e = (a.cls, a.name)) ∨ e ∈ assigned uses := by
  cases h : a.defines <;> simp [assigned, h]

@[simp] theorem assigned_nil : assigned [] = ∅ := rfl

theorem assigned_append (l l' : List NameUse) :
    assigned (l ++ l') = assigned l ∪ assigned l' := by
  ext e
  simp [assigned]

theorem settledIn_append {all known : Finset (RegClass × Int)} {l l' : List NameUse} :
    settledIn all known (l ++ l') ↔
      settledIn all known l ∧ settledIn all (known ∪ assigned l) l' := by
  induction l generalizing known with
  | nil => simp [settledIn]
  | cons a l ih =>
    have hk : (if a.defines then insert (a.cls, a.name) known else known) ∪ assigned l =
        known ∪ assigned (a :: l) := by
      ext e
      simp only [Finset.mem_union, mem_assigned_cons]
      cases h : a.defines <;> simp [or_comm, or_left_comm]
    rw [List.cons_append, settledIn, settledIn, ih, hk, and_assoc]

/-! ## Fields and classes -/

/-- Each field is written in one class. -/
def Coherent (ss : List RenameStep) : Prop :=
  ∃ f : Slot → Option RegClass, ∀ st ∈ ss, ∀ a, st.target = some a → a.1 = f a.2

/-- The class in which a list of steps first writes a field. -/
def classIn (ss : List RenameStep) (s : Slot) : Option RegClass :=
  ((ss.filterMap RenameStep.target).find? fun a => a.2 = s).bind Prod.fst

def coherent (ss : List RenameStep) : Bool :=
  (ss.filterMap RenameStep.target).all fun a => a.1 = classIn ss a.2

theorem coherent_of_check {ss : List RenameStep} (h : coherent ss = true) : Coherent ss := by
  refine ⟨classIn ss, fun st hst a ha => ?_⟩
  have hmem : a ∈ ss.filterMap RenameStep.target := List.mem_filterMap.mpr ⟨st, hst, ha⟩
  simpa using List.all_eq_true.mp h a hmem

theorem coherent_renameSteps (inst : NdpInstruction) : Coherent inst.renameSteps := by
  have hall : ∀ ss ∈ NdpInstruction.resultSteps ++ NdpInstruction.storeSteps,
      coherent ss = true := by decide
  obtain hseg | hmem | ⟨-, hmem⟩ := inst.renameSteps_cases
  · -- the base register is the only operand that is not a vector
    rw [hseg]
    refine ⟨fun s => if s = .src 0 then some .x else some .v, fun st hst a ha => ?_⟩
    simp only [NdpInstruction.loadSegSteps, List.cons_append, List.nil_append, List.mem_cons,
      List.mem_map, List.mem_range] at hst
    obtain rfl | rfl | rfl | ⟨i, -, rfl⟩ := hst
    · obtain rfl := Option.some_inj.mp ha
      rfl
    · obtain rfl := Option.some_inj.mp ha
      rfl
    · obtain rfl := Option.some_inj.mp ha
      rfl
    · simp only [RenameStep.target] at ha
      split at ha
      · obtain rfl := Option.some_inj.mp ha
        rfl
      · cases ha
  · exact coherent_of_check (hall _ (List.mem_append_left _ hmem))
  · exact coherent_of_check (hall _ (List.mem_append_right _ hmem))

/-- A field is written once, or again only while nothing is bound. -/
def WrittenOnce : List RenameStep → Prop
  | [] => True
  | st :: post =>
    ((∀ st' ∈ post, ∀ a b, st.target = some a → st'.target = some b → a.2 ≠ b.2) ∨
      st.defines = false ∧ ∀ st' ∈ post, st'.defines = false) ∧ WrittenOnce post

theorem WrittenOnce.at {pre post : List RenameStep} {st : RenameStep}
    (h : WrittenOnce (pre ++ st :: post)) :
    (∀ st' ∈ post, ∀ a b, st.target = some a → st'.target = some b → a.2 ≠ b.2) ∨
      st.defines = false ∧ ∀ st' ∈ post, st'.defines = false := by
  induction pre with
  | nil => exact h.1
  | cons _ pre ih => exact ih h.2

def writtenOnce : List RenameStep → Bool
  | [] => true
  | st :: post =>
    (post.all (fun st' => st.target.all fun a => st'.target.all fun b => a.2 ≠ b.2) ||
      !st.defines && post.all fun st' => !st'.defines) && writtenOnce post

theorem writtenOnce_of_check {ss : List RenameStep} (h : writtenOnce ss = true) :
    WrittenOnce ss := by
  induction ss with
  | nil => trivial
  | cons st post ih =>
    rw [writtenOnce, Bool.and_eq_true, Bool.or_eq_true] at h
    refine ⟨h.1.imp (fun hall st' hst' a b ha hb => ?_) fun hnone => ?_, ih h.2⟩
    · have := List.all_eq_true.mp hall st' hst'
      simpa [ha, hb] using this
    · simpa using hnone

theorem writtenOnce_segSteps (l : List Nat) (hl : l.Nodup) :
    WrittenOnce (l.map RenameStep.destRenameSegV) := by
  induction l with
  | nil => trivial
  | cons i l ih =>
    refine ⟨.inl fun st hst a b ha hb => ?_, ih hl.of_cons⟩
    obtain ⟨j, hj, rfl⟩ := List.mem_map.mp hst
    simp only [RenameStep.target] at ha hb
    split at ha
    · split at hb
      · obtain rfl := Option.some_inj.mp ha
        obtain rfl := Option.some_inj.mp hb
        rintro he
        have hij : i = j := by simpa using he
        exact (List.nodup_cons.mp hl).1 (hij ▸ hj)
      · cases hb
    · cases ha

theorem writtenOnce_loadSegSteps (segCnt : Int) :
    WrittenOnce (NdpInstruction.loadSegSteps segCnt) := by
  have hseg (st : RenameStep) (hst : ∀ a, st.target = some a → ∀ i, a.2 ≠ .segDest i)
      (st' : RenameStep) (hst' : st' ∈ (List.range segCnt.toNat).map RenameStep.destRenameSegV) :
      ∀ a b, st.target = some a → st'.target = some b → a.2 ≠ b.2 := by
    intro a b ha hb
    obtain ⟨j, -, rfl⟩ := List.mem_map.mp hst'
    simp only [RenameStep.target] at hb
    split at hb
    · obtain rfl := Option.some_inj.mp hb
      exact hst a ha _
    · cases hb
  refine ⟨.inl fun st' hst' => ?_, .inl fun st' hst' => ?_, .inl fun st' hst' => ?_,
    writtenOnce_segSteps _ List.nodup_range⟩
  · obtain rfl | hst' := List.mem_cons.mp hst'
    · simp [RenameStep.target]
    · obtain rfl | hst' := List.mem_cons.mp hst'
      · simp [RenameStep.target]
      · exact hseg _ (by simp [RenameStep.target]) st' hst'
  · obtain rfl | hst' := List.mem_cons.mp hst'
    · simp [RenameStep.target]
    · exact hseg _ (by simp [RenameStep.target]) st' hst'
  · exact hseg _ (by simp [RenameStep.target]) st' hst'

theorem writtenOnce_renameSteps (inst : NdpInstruction) : WrittenOnce inst.renameSteps := by
  have hall : ∀ ss ∈ NdpInstruction.resultSteps ++ NdpInstruction.storeSteps,
      writtenOnce ss = true := by decide
  obtain hseg | hmem | ⟨-, hmem⟩ := inst.renameSteps_cases
  · rw [hseg]
    exact writtenOnce_loadSegSteps inst.segCnt
  · exact writtenOnce_of_check (hall _ (List.mem_append_left _ hmem))
  · exact writtenOnce_of_check (hall _ (List.mem_append_right _ hmem))

namespace RegisterUnit

variable {u u' : RegisterUnit} {key : Int}

/-! ## One step -/

/-- `n` is bound to `r` in `u'`, which is otherwise as in `u`. -/
structure Bound (key : Int) (u u' : RegisterUnit) (c : RegClass) (n r : Int) : Prop where
  find : ∀ c' m, (u'.pool c').find? key m =
    if c' = c ∧ m = n then some r else (u.pool c').find? key m
  same : ∀ p, (u.pool c).find? key n = some p → p = r

theorem bound_of_destRename {c : RegClass} {name r : Int} {double : Bool}
    (h : u.destRename c key name double = .ok (r, u')) : Bound key u u' c (toInt name) r := by
  obtain ⟨hf, rfl⟩ | ⟨hf, -, rest, -, rfl⟩ | ⟨hf, -, partner, rest, -, rfl⟩ := destRename_cases h
  · refine ⟨fun c' m => ?_, fun p hp => Option.some_inj.mp (hp.symm.trans hf)⟩
    split
    case isTrue he => rw [he.1, he.2, hf]
    case isFalse => rfl
  · exact ⟨fun c' m => find?_setPool_bind u c c' key (toInt name) r rest m,
      fun p hp => by simp [hf] at hp⟩
  · exact ⟨fun c' m => find?_setPool_bind u c c' key (toInt name) r rest m,
      fun p hp => by simp [hf] at hp⟩

/-- What a step that uses a name did: it found the name bound, it let a special register pass,
or it left an optional operand alone. -/
inductive Used (u : RegisterUnit) (key : Int) (inst renamed : NdpInstruction) (optional : Bool)
    (c : RegClass) (s : Slot) : NdpInstruction → Prop
  | bound {p} (h : (u.pool c).find? key (toInt (inst.operand s)) = some p) :
      Used u key inst renamed optional c s (renamed.setOperand s p)
  | special (h : (u.pool c).find? key (toInt (inst.operand s)) = none)
      (hs : checkSpecialReg (toInt (inst.operand s)) = true) :
      Used u key inst renamed optional c s (renamed.setOperand s (toInt (inst.operand s)))
  | absent (h : (u.pool c).find? key (toInt (inst.operand s)) = none) (ho : optional = true) :
      Used u key inst renamed optional c s renamed

/-- Everything a step can do. -/
inductive Outcome (u : RegisterUnit) (key : Int) (inst renamed : NdpInstruction) :
    RenameStep → NdpInstruction → RegisterUnit → Prop
  | noDest : Outcome u key inst renamed .noDest (renamed.setOperand .dest (-1)) u
  | use {st c s renamed'} (ht : st.target = some (some c, s)) (hd : st.defines = false)
      (h : Used u key inst renamed st.optional c s renamed') :
      Outcome u key inst renamed st renamed' u
  | define {st c s r u'} (ht : st.target = some (some c, s)) (hd : st.defines = true)
      (h : Bound key u u' c (toInt (inst.operand s)) r) :
      Outcome u key inst renamed st (renamed.setOperand s r) u'

theorem used_of_lookUp {inst renamed : NdpInstruction} {optional : Bool} {c : RegClass}
    {s : Slot} {r : Int}
    (h : u.lookUp c key (inst.operand s) = .ok r) :
    Used u key inst renamed optional c s (renamed.setOperand s r) := by
  unfold lookUp at h
  split at h
  case h_1 p hf =>
    obtain rfl := Except.ok.inj h
    exact .bound hf
  case h_2 hf =>
    split at h
    case isTrue hs =>
      obtain rfl := Except.ok.inj h
      exact .special hf hs
    case isFalse => cases h

theorem runStep_outcome {inst renamed renamed' : NdpInstruction} {st : RenameStep}
    (h : u.runStep key inst renamed st = .ok (renamed', u')) :
    Outcome u key inst renamed st renamed' u' := by
  cases st with
  | lookUp c i =>
    obtain ⟨r, hr, h⟩ := bind_eq_ok.mp h
    obtain ⟨rfl, rfl⟩ := Prod.mk.inj (Except.ok.inj h)
    exact .use rfl rfl (used_of_lookUp (s := .src i) hr)
  | lookUpDest c =>
    obtain ⟨r, hr, h⟩ := bind_eq_ok.mp h
    obtain ⟨rfl, rfl⟩ := Prod.mk.inj (Except.ok.inj h)
    exact .use rfl rfl (used_of_lookUp (s := .dest) hr)
  | lookUpIfExist i =>
    simp only [runStep] at h
    split at h
    case isTrue =>
      obtain ⟨r, hr, h⟩ := bind_eq_ok.mp h
      obtain ⟨rfl, rfl⟩ := Prod.mk.inj (Except.ok.inj h)
      exact .use rfl rfl (used_of_lookUp (c := .v) (s := .src i) hr)
    case isFalse he =>
      obtain ⟨rfl, rfl⟩ := Prod.mk.inj (Except.ok.inj h)
      refine .use (c := .v) (s := .src i) rfl rfl (.absent ?_ rfl)
      rw [checkExistVreg, Option.not_isSome_iff_eq_none] at he
      exact he
  | noDest =>
    obtain ⟨rfl, rfl⟩ := Prod.mk.inj (Except.ok.inj h)
    exact .noDest
  | destRenameX | destRenameF | destRenameV fromRenamed =>
    obtain ⟨⟨r, u₁⟩, hd, h⟩ := bind_eq_ok.mp h
    obtain ⟨rfl, rfl⟩ := Prod.mk.inj (Except.ok.inj h)
    refine .define (s := .dest) rfl rfl ?_
    have hb := bound_of_destRename hd
    first
      | exact hb
      | (cases fromRenamed <;> exact hb)
  | destRenameSegV index =>
    simp only [runStep] at h
    split at h
    case isTrue hi =>
      obtain ⟨⟨r, u₁⟩, hd, h⟩ := bind_eq_ok.mp h
      obtain ⟨rfl, rfl⟩ := Prod.mk.inj (Except.ok.inj h)
      exact .define (s := .segDest ⟨index, hi⟩) (dif_pos hi) rfl (bound_of_destRename hd)
    case isFalse => cases h

/-! ## A section -/

/-- The names bound for `key` are the known ones. -/
def Knows (u : RegisterUnit) (key : Int) (known : Finset (RegClass × Int)) : Prop :=
  ∀ c n, ((u.pool c).find? key n).isSome = true ↔ (c, n) ∈ known

theorem Bound.knows {c : RegClass} {n r : Int} {known : Finset (RegClass × Int)}
    (h : Bound key u u' c n r) (hk : u.Knows key known) : u'.Knows key (insert (c, n) known) := by
  intro c' m
  rw [h.find, Finset.mem_insert, Prod.mk.injEq, ← hk c' m]
  split
  case isTrue he => simp [he]
  case isFalse he => simp [he]

/-- A field holds what the map gives for the name in it; a name without an image is kept. -/
def FieldOk (map : RegClass → Int → Option Int) (inst renamed : NdpInstruction) (c : RegClass)
    (s : Slot) : Prop :=
  match map c (toInt (inst.operand s)) with
  | some p => renamed.operand s = p
  | none => toInt (renamed.operand s) = toInt (inst.operand s)

theorem FieldOk.congr {map : RegClass → Int → Option Int} {inst renamed renamed' : NdpInstruction}
    {c : RegClass} {s : Slot} (h : FieldOk map inst renamed c s)
    (he : renamed'.operand s = renamed.operand s) : FieldOk map inst renamed' c s := by
  unfold FieldOk at h ⊢
  rwa [he]

theorem runSteps_knows {inst : NdpInstruction} {ss : List RenameStep} :
    ∀ {u u' : RegisterUnit} {renamed renamed'} {known : Finset (RegClass × Int)},
      u.runSteps key inst renamed ss = .ok (renamed', u') → u.Knows key known →
        u'.Knows key (known ∪ assigned (ss.filterMap (NameUse.of inst))) := by
  induction ss with
  | nil =>
    intro u u' renamed renamed' known h hk
    obtain ⟨-, rfl⟩ := Prod.mk.inj (Except.ok.inj h)
    simpa using hk
  | cons st ss ih =>
    intro u u' renamed renamed' known h hk
    obtain ⟨⟨renamed₁, u₁⟩, hs, h⟩ := bind_eq_ok.mp h
    have hrest := @ih u₁ u' renamed₁ renamed'
    cases runStep_outcome hs with
    | noDest => exact hrest h hk
    | use ht hd _ =>
      have he : assigned ((st :: ss).filterMap (NameUse.of inst)) =
          assigned (ss.filterMap (NameUse.of inst)) := by
        ext e
        simp [NameUse.of, ht, hd, mem_assigned_cons]
      rw [he]
      exact hrest h hk
    | @define _ c s r _ ht hd hb =>
      have he : known ∪ assigned ((st :: ss).filterMap (NameUse.of inst)) =
          insert (c, toInt (inst.operand s)) known ∪
            assigned (ss.filterMap (NameUse.of inst)) := by
        ext e
        simp only [List.filterMap_cons, NameUse.of, ht, hd, Finset.mem_union, mem_assigned_cons,
          Finset.mem_insert, true_and]
        tauto
      rw [he]
      exact hrest h (hb.knows hk)

/-- Fields no step writes stay as they are. -/
theorem runSteps_other {inst : NdpInstruction} {s : Slot} {ss : List RenameStep} :
    ∀ {u u' : RegisterUnit} {renamed renamed'},
      u.runSteps key inst renamed ss = .ok (renamed', u') →
      (∀ st ∈ ss, ∀ c, st.target ≠ some (c, s)) → renamed'.operand s = renamed.operand s := by
  induction ss with
  | nil =>
    intro u u' renamed renamed' h _
    rw [(Prod.mk.inj (Except.ok.inj h)).1]
  | cons st ss ih =>
    intro u u' renamed renamed' h hss
    obtain ⟨⟨renamed₁, u₁⟩, hs, h⟩ := bind_eq_ok.mp h
    have hst := hss st List.mem_cons_self
    have hkeep {t : Slot} {r : Int} {c : Option RegClass} (ht : st.target = some (c, t)) :
        (renamed.setOperand t r).operand s = renamed.operand s := by
      rw [NdpInstruction.operand_setOperand, if_neg]
      rintro rfl
      exact hst c ht
    rw [ih h fun st' hst' => hss st' (List.mem_cons_of_mem _ hst')]
    cases runStep_outcome hs with
    | noDest => exact hkeep rfl
    | use ht hd hu =>
      cases hu with
      | bound | special => exact hkeep ht
      | absent => rfl
    | define ht hd hb => exact hkeep ht

/-- What the final map must satisfy at a step for the step to write the right register. -/
theorem Outcome.fieldOk {inst renamed renamed' : NdpInstruction} {st : RenameStep}
    {map : RegClass → Int → Option Int} {c : RegClass} {s : Slot}
    (h : Outcome u key inst renamed st renamed' u') (ht : st.target = some (some c, s))
    (hmap : ∀ p, (u'.pool c).find? key (toInt (inst.operand s)) = some p →
      map c (toInt (inst.operand s)) = some p)
    (hlate : st.defines = false → (u.pool c).find? key (toInt (inst.operand s)) = none →
      architectural (toInt (inst.operand s)) → map c (toInt (inst.operand s)) = none)
    (hn : st.optional = false ∨ architectural (toInt (inst.operand s)))
    (hprev : renamed.operand s = inst.operand s ∨ FieldOk map inst renamed c s) :
    FieldOk map inst renamed' c s := by
  unfold FieldOk
  cases h with
  | noDest => simp [RenameStep.target] at ht
  | use ht' hd hu =>
    obtain ⟨rfl, rfl⟩ : c = _ ∧ s = _ := by simpa [ht] using ht'
    cases hu with
    | bound hf => simp [hmap _ hf]
    | special hf hs =>
      have ha : architectural (toInt (inst.operand s)) := .inr (by
        simp only [checkSpecialReg, decide_eq_true_eq] at hs
        omega)
      simp [hlate hd hf ha]
    | absent hf ho =>
      have hnone := hlate hd hf (hn.resolve_left (by simp [ho]))
      rw [hnone]
      obtain he | hok := hprev
      · rw [he]
      · simpa [FieldOk, hnone] using hok
  | define ht' hd hb =>
    obtain ⟨rfl, rfl⟩ : c = _ ∧ s = _ := by simpa [ht] using ht'
    simp [hmap _ (by rw [hb.find, if_pos ⟨rfl, rfl⟩])]

/-- The final map: it extends every map on the way and knows nothing else. -/
structure Final (u : RegisterUnit) (key : Int) (map : RegClass → Int → Option Int)
    (all : Finset (RegClass × Int)) : Prop where
  includes : ∀ c n p, (u.pool c).find? key n = some p → map c n = some p
  only : ∀ c n, (c, n) ∉ all → map c n = none

theorem runSteps_mono {inst renamed renamed' : NdpInstruction} {ss : List RenameStep}
    (h : u.runSteps key inst renamed ss = .ok (renamed', u')) (c : RegClass) (n p : Int)
    (hf : (u.pool c).find? key n = some p) : (u'.pool c).find? key n = some p := by
  refine runSteps_invariant (P := fun w => (w.pool c).find? key n = some p) ?_ h hf
  intro w w' c' name double r _ hd hw
  have hb := bound_of_destRename hd
  rw [hb.find]
  split
  case isTrue he =>
    obtain ⟨rfl, rfl⟩ := he
    rw [hb.same p hw]
  case isFalse => exact hw

theorem runSteps_field {inst : NdpInstruction} {map : RegClass → Int → Option Int}
    {all : Finset (RegClass × Int)} {c : RegClass} {s : Slot} {ss : List RenameStep} :
    ∀ {u u' : RegisterUnit} {renamed renamed'} {known : Finset (RegClass × Int)},
      u.runSteps key inst renamed ss = .ok (renamed', u') → u.Knows key known →
      settledIn all known (ss.filterMap (NameUse.of inst)) → Final u' key map all →
      (∀ st ∈ ss, ∀ c', st.target = some (c', s) → c' = some c ∧
        (st.optional = false ∨ architectural (toInt (inst.operand s)))) →
      FieldOk map inst renamed c s ∨
        renamed.operand s = inst.operand s ∧ (∃ st ∈ ss, st.target = some (some c, s)) →
      FieldOk map inst renamed' c s := by
  induction ss with
  | nil =>
    intro u u' renamed renamed' known h _ _ _ _ hprev
    obtain ⟨rfl, -⟩ := Prod.mk.inj (Except.ok.inj h)
    obtain hok | ⟨-, st, hst, -⟩ := hprev
    · exact hok
    · cases hst
  | cons st ss ih =>
    intro u u' renamed renamed' known h hk hset hfin hss hprev
    obtain ⟨⟨renamed₁, u₁⟩, hs, h⟩ := bind_eq_ok.mp h
    have hone : u.runSteps key inst renamed [st] = .ok (renamed₁, u₁) :=
      bind_eq_ok.mpr ⟨_, hs, rfl⟩
    have hk₁ := runSteps_knows hone hk
    have hsplit : (st :: ss).filterMap (NameUse.of inst) =
        [st].filterMap (NameUse.of inst) ++ ss.filterMap (NameUse.of inst) :=
      List.filterMap_append (l := [st])
    rw [hsplit, settledIn_append] at hset
    refine ih h hk₁ hset.2 hfin (fun st' hst' => hss st' (List.mem_cons_of_mem _ hst')) ?_
    by_cases ht : ∃ c', st.target = some (c', s)
    · -- the step writes the field
      obtain ⟨c', ht⟩ := ht
      obtain ⟨rfl, hn⟩ := hss st List.mem_cons_self c' ht
      refine .inl ((runStep_outcome hs).fieldOk ht
        (fun p hp => hfin.includes _ _ _ (runSteps_mono h _ _ _ hp)) (fun hd hf ha => ?_) hn
        (hprev.symm.imp_left And.left))
      have huse := hset.1
      simp only [List.filterMap_cons, NameUse.of, ht, List.filterMap_nil, settledIn] at huse
      refine hfin.only _ _ fun hall => ?_
      have hknown := (hk _ _).mpr (huse.1 hd ha hall)
      rw [hf] at hknown
      cases hknown
    · -- another field
      have hother : renamed₁.operand s = renamed.operand s :=
        runSteps_other hone (by
          intro st' hst' c' ht'
          obtain rfl := List.mem_singleton.mp hst'
          exact ht ⟨c', ht'⟩)
      obtain hok | ⟨he, st', hst', ht'⟩ := hprev
      · exact .inl (hok.congr hother)
      · obtain rfl | hst' := List.mem_cons.mp hst'
        · exact absurd ⟨_, ht'⟩ ht
        · exact .inr ⟨hother.trans he, st', hst', ht'⟩

/-- `renamed` is `inst` with its register fields under the map. An optional operand that is
itself a physical register's number is exempt. -/
structure Renames (map : RegClass → Int → Option Int) (inst renamed : NdpInstruction) : Prop where
  opcode : renamed.opcode = inst.opcode
  operandType : renamed.operandType = inst.operandType
  segCnt : renamed.segCnt = inst.segCnt
  field : ∀ c s, (some c, s) ∈ inst.registerFields →
    ((∀ st ∈ inst.renameSteps, ∀ c', st.target = some (c', s) → st.optional = false) ∨
      architectural (toInt (inst.operand s))) → FieldOk map inst renamed c s
  other : ∀ s, (∀ c, (c, s) ∉ inst.registerFields) → renamed.operand s = inst.operand s

theorem shape_runSteps {inst : NdpInstruction} {ss : List RenameStep} :
    ∀ {u u' : RegisterUnit} {renamed renamed' : NdpInstruction},
      u.runSteps key inst renamed ss = .ok (renamed', u') →
      renamed'.opcode = renamed.opcode ∧ renamed'.operandType = renamed.operandType ∧
        renamed'.segCnt = renamed.segCnt := by
  induction ss with
  | nil =>
    intro u u' renamed renamed' h
    obtain ⟨rfl, -⟩ := Prod.mk.inj (Except.ok.inj h)
    exact ⟨rfl, rfl, rfl⟩
  | cons st ss ih =>
    intro u u' renamed renamed' h
    obtain ⟨⟨renamed₁, u₁⟩, hs, h⟩ := bind_eq_ok.mp h
    obtain ⟨h₁, h₂, h₃⟩ := ih h
    have hset (s : Slot) (r : Int) : (renamed.setOperand s r).opcode = renamed.opcode ∧
        (renamed.setOperand s r).operandType = renamed.operandType ∧
        (renamed.setOperand s r).segCnt = renamed.segCnt := by
      cases s <;> exact ⟨rfl, rfl, rfl⟩
    rw [h₁, h₂, h₃]
    cases runStep_outcome hs with
    | noDest => exact hset _ _
    | use _ _ hu =>
      cases hu with
      | bound | special => exact hset _ _
      | absent => exact ⟨rfl, rfl, rfl⟩
    | define => exact hset _ _

theorem mem_registerFields {inst : NdpInstruction} {c : Option RegClass} {s : Slot} :
    (c, s) ∈ inst.registerFields ↔ ∃ st ∈ inst.renameSteps, st.target = some (c, s) :=
  List.mem_filterMap

@[simp] theorem pool_noteVlmul (u : RegisterUnit) (inst : NdpInstruction) (c : RegClass) :
    (u.noteVlmul inst).pool c = u.pool c := by
  unfold noteVlmul
  split <;> cases c <;> rfl

theorem knows_noteVlmul {inst : NdpInstruction} {known : Finset (RegClass × Int)} :
    (u.noteVlmul inst).Knows key known ↔ u.Knows key known := by
  simp [Knows]

theorem convertInst_renames {inst renamed : NdpInstruction} {map : RegClass → Int → Option Int}
    {all known : Finset (RegClass × Int)} (h : u.convertInst key inst = .ok (renamed, u'))
    (hk : u.Knows key known) (hset : settledIn all known inst.nameUses)
    (hfin : Final u' key map all) : Renames map inst renamed := by
  obtain ⟨h₁, h₂, h₃⟩ := shape_runSteps h
  obtain ⟨f, hf⟩ := coherent_renameSteps inst
  refine ⟨h₁, h₂, h₃, fun c s hmem hn => ?_, fun s hs => ?_⟩
  · obtain ⟨st, hst, ht⟩ := mem_registerFields.mp hmem
    refine runSteps_field h (knows_noteVlmul.mpr hk) hset hfin (fun st' hst' c' ht' => ?_)
      (.inr ⟨rfl, st, hst, ht⟩)
    have hc : c' = some c := (hf st' hst' _ ht').trans (hf st hst _ ht).symm
    exact ⟨hc, hn.imp_left fun ho => ho st' hst' c' ht'⟩
  · refine runSteps_other h fun st hst c ht => hs c (mem_registerFields.mpr ⟨st, hst, ht⟩)

theorem Final.of_mono {w : RegisterUnit} {map : RegClass → Int → Option Int}
    {all : Finset (RegClass × Int)} (h : Final w key map all)
    (hm : ∀ c n p, (u.pool c).find? key n = some p → (w.pool c).find? key n = some p) :
    Final u key map all :=
  ⟨fun c n p hp => h.includes c n p (hm c n p hp), h.only⟩

theorem convertInsts_mono {insts out : List NdpInstruction}
    (h : u.convertInsts key insts = .ok (out, u')) (c : RegClass) (n p : Int)
    (hf : (u.pool c).find? key n = some p) : (u'.pool c).find? key n = some p := by
  induction insts generalizing u out with
  | nil =>
    obtain ⟨-, rfl⟩ := Prod.mk.inj (Except.ok.inj h)
    exact hf
  | cons inst insts ih =>
    obtain ⟨⟨renamed, u₁⟩, h₁, h⟩ := bind_eq_ok.mp h
    obtain ⟨⟨rest, u₂⟩, h₂, h⟩ := bind_eq_ok.mp h
    obtain ⟨-, rfl⟩ := Prod.mk.inj (Except.ok.inj h)
    exact ih h₂ (runSteps_mono h₁ c n p (by rwa [pool_noteVlmul]))

theorem convertInsts_knows {insts out : List NdpInstruction} {known : Finset (RegClass × Int)}
    (h : u.convertInsts key insts = .ok (out, u')) (hk : u.Knows key known) :
    u'.Knows key (known ∪ assigned (insts.flatMap NdpInstruction.nameUses)) := by
  induction insts generalizing u out known with
  | nil =>
    obtain ⟨-, rfl⟩ := Prod.mk.inj (Except.ok.inj h)
    simpa using hk
  | cons inst insts ih =>
    obtain ⟨⟨renamed, u₁⟩, h₁, h⟩ := bind_eq_ok.mp h
    obtain ⟨⟨rest, u₂⟩, h₂, h⟩ := bind_eq_ok.mp h
    obtain ⟨-, rfl⟩ := Prod.mk.inj (Except.ok.inj h)
    rw [List.flatMap_cons, assigned_append, ← Finset.union_assoc]
    exact ih h₂ (runSteps_knows h₁ (knows_noteVlmul.mpr hk))

theorem convertInsts_renames {insts out : List NdpInstruction}
    {map : RegClass → Int → Option Int} {all known : Finset (RegClass × Int)}
    (h : u.convertInsts key insts = .ok (out, u')) (hk : u.Knows key known)
    (hset : settledIn all known (insts.flatMap NdpInstruction.nameUses))
    (hfin : Final u' key map all) : List.Forall₂ (Renames map) insts out := by
  induction insts generalizing u out known with
  | nil =>
    obtain ⟨rfl, -⟩ := Prod.mk.inj (Except.ok.inj h)
    exact .nil
  | cons inst insts ih =>
    obtain ⟨⟨renamed, u₁⟩, h₁, h⟩ := bind_eq_ok.mp h
    obtain ⟨⟨rest, u₂⟩, h₂, h⟩ := bind_eq_ok.mp h
    obtain ⟨rfl, rfl⟩ := Prod.mk.inj (Except.ok.inj h)
    rw [List.flatMap_cons, settledIn_append] at hset
    refine .cons (convertInst_renames h₁ hk hset.1 (hfin.of_mono (convertInsts_mono h₂))) ?_
    exact ih h₂ (runSteps_knows h₁ (knows_noteVlmul.mpr hk)) hset.2

/-! ## Early uses -/

/-- As long as a name is not bound, a field that holds it is left alone. -/
theorem runSteps_unbound {inst : NdpInstruction} {c : RegClass} {s : Slot}
    {ss : List RenameStep} :
    ∀ {u u' : RegisterUnit} {renamed renamed'},
      u.runSteps key inst renamed ss = .ok (renamed', u') →
      (∀ st ∈ ss, ∀ c', st.target = some (c', s) → c' = some c) →
      (u'.pool c).find? key (toInt (inst.operand s)) = none →
      toInt (renamed.operand s) = toInt (inst.operand s) →
      toInt (renamed'.operand s) = toInt (inst.operand s) := by
  induction ss with
  | nil =>
    intro u u' renamed renamed' h _ _ hr
    obtain ⟨rfl, -⟩ := Prod.mk.inj (Except.ok.inj h)
    exact hr
  | cons st ss ih =>
    intro u u' renamed renamed' h hss hnone hr
    obtain ⟨⟨renamed₁, u₁⟩, hs, h⟩ := bind_eq_ok.mp h
    refine ih h (fun st' hst' => hss st' (List.mem_cons_of_mem _ hst')) hnone ?_
    have hnone₁ : (u₁.pool c).find? key (toInt (inst.operand s)) = none := by
      cases hf : (u₁.pool c).find? key (toInt (inst.operand s)) with
      | none => rfl
      | some p => exact absurd (runSteps_mono h _ _ _ hf) (by simp [hnone])
    have hst := hss st List.mem_cons_self
    have hset {t : Slot} {r : Int} {c' : Option RegClass} (ht : st.target = some (c', t))
        (hr' : t = s → toInt r = toInt (inst.operand s)) :
        toInt ((renamed.setOperand t r).operand s) = toInt (inst.operand s) := by
      rw [NdpInstruction.operand_setOperand]
      split
      case isTrue he => exact hr' he.symm
      case isFalse => exact hr
    cases runStep_outcome hs with
    | noDest =>
      refine hset rfl ?_
      rintro rfl
      cases hst none rfl
    | use ht hd hu =>
      cases hu with
      | bound hf =>
        refine hset ht ?_
        rintro rfl
        obtain rfl := Option.some_inj.mp (hst _ ht)
        simp [hnone₁] at hf
      | special hf _ =>
        refine hset ht ?_
        rintro rfl
        exact toInt_toInt _
      | absent => exact hr
    | define ht hd hb =>
      refine hset ht ?_
      rintro rfl
      obtain rfl := Option.some_inj.mp (hst _ ht)
      rw [hb.find, if_pos ⟨rfl, rfl⟩] at hnone₁
      cases hnone₁

theorem runSteps_unchanged {inst : NdpInstruction} {ss : List RenameStep} :
    ∀ {u u' : RegisterUnit} {renamed renamed'},
      u.runSteps key inst renamed ss = .ok (renamed', u') →
      (∀ st ∈ ss, st.defines = false) → u' = u := by
  induction ss with
  | nil =>
    intro u u' renamed renamed' h _
    exact (Prod.mk.inj (Except.ok.inj h)).2.symm
  | cons st ss ih =>
    intro u u' renamed renamed' h hss
    obtain ⟨⟨renamed₁, u₁⟩, hs, h⟩ := bind_eq_ok.mp h
    rw [ih h fun st' hst' => hss st' (List.mem_cons_of_mem _ hst')]
    cases runStep_outcome hs with
    | noDest => rfl
    | use => rfl
    | define _ hd _ => simp [hss st List.mem_cons_self] at hd

theorem runSteps_append {inst : NdpInstruction} {pre post : List RenameStep} :
    ∀ {u : RegisterUnit} {renamed : NdpInstruction},
      u.runSteps key inst renamed (pre ++ post) =
        u.runSteps key inst renamed pre >>= fun (r, w) => w.runSteps key inst r post := by
  induction pre with
  | nil => intro u renamed; rfl
  | cons st pre ih =>
    intro u renamed
    simp only [List.cons_append, runSteps, bind_assoc]
    cases u.runStep key inst renamed st with
    | error e => rfl
    | ok r => exact ih

/-- The place of a step in the renaming of an instruction: what came before, the step itself,
what comes after. -/
theorem runSteps_split {inst renamed renamed' : NdpInstruction} {pre post : List RenameStep}
    {st : RenameStep} (h : u.runSteps key inst renamed (pre ++ st :: post) = .ok (renamed', u')) :
    ∃ r₁ w r₂ w', u.runSteps key inst renamed pre = .ok (r₁, w) ∧
      w.runStep key inst r₁ st = .ok (r₂, w') ∧
      w'.runSteps key inst r₂ post = .ok (renamed', u') := by
  rw [runSteps_append] at h
  obtain ⟨⟨r₁, w⟩, h₁, h⟩ := bind_eq_ok.mp h
  obtain ⟨⟨r₂, w'⟩, h₂, h⟩ := bind_eq_ok.mp h
  exact ⟨r₁, w, r₂, w', h₁, h₂, h⟩

/-- A name used while it is not bound stays in its field. -/
theorem runSteps_early {inst renamed' : NdpInstruction} {pre post : List RenameStep}
    {st : RenameStep} {c : RegClass} {s : Slot} {r₁ r₂ : NdpInstruction} {w w' : RegisterUnit}
    (h₁ : u.runSteps key inst inst pre = .ok (r₁, w)) (h₂ : w.runStep key inst r₁ st = .ok (r₂, w'))
    (h₃ : w'.runSteps key inst r₂ post = .ok (renamed', u'))
    (hco : Coherent (pre ++ st :: post)) (hw : WrittenOnce (pre ++ st :: post))
    (ht : st.target = some (some c, s)) (hd : st.defines = false)
    (hnone : (w.pool c).find? key (toInt (inst.operand s)) = none) :
    toInt (renamed'.operand s) = toInt (inst.operand s) := by
  obtain ⟨f, hf⟩ := hco
  have hcls : ∀ st' ∈ pre ++ st :: post, ∀ c', st'.target = some (c', s) → c' = some c := by
    intro st' hst' c' ht'
    exact (hf st' hst' _ ht').trans (hf st (by simp) _ ht).symm
  have hstep : w.runSteps key inst r₁ [st] = .ok (r₂, w') := bind_eq_ok.mpr ⟨_, h₂, rfl⟩
  have hsame : w' = w := runSteps_unchanged hstep (by simpa using hd)
  subst hsame
  have hr₁ := runSteps_unbound h₁ (fun st' hst' => hcls st' (by simp [hst'])) hnone rfl
  have hr₂ := runSteps_unbound hstep (fun st' hst' => hcls st' (by simp_all)) hnone hr₁
  obtain hother | ⟨-, hpost⟩ := hw.at
  · rw [runSteps_other h₃ fun st' hst' c' ht' => hother st' hst' _ _ ht ht' rfl]
    exact hr₂
  · rw [← runSteps_unchanged h₃ hpost] at hnone
    exact runSteps_unbound h₃ (fun st' hst' => hcls st' (by simp [hst'])) hnone hr₂

/-- A destination field holds the register its name is bound to. -/
theorem runSteps_defined {inst renamed' : NdpInstruction} {pre post : List RenameStep}
    {st : RenameStep} {c : RegClass} {s : Slot}
    (h : u.runSteps key inst inst (pre ++ st :: post) = .ok (renamed', u'))
    (hw : WrittenOnce (pre ++ st :: post)) (ht : st.target = some (some c, s))
    (hd : st.defines = true) :
    (u'.pool c).find? key (toInt (inst.operand s)) = some (renamed'.operand s) := by
  obtain ⟨r₁, w, r₂, w', -, h₂, h₃⟩ := runSteps_split h
  obtain hother | ⟨hd', -⟩ := hw.at
  · rw [runSteps_other h₃ fun st' hst' c' ht' => hother st' hst' _ _ ht ht' rfl]
    refine runSteps_mono h₃ _ _ _ ?_
    cases runStep_outcome h₂ with
    | noDest => simp [RenameStep.target] at ht
    | use _ hd' => simp [hd] at hd'
    | define ht' _ hb =>
      obtain ⟨rfl, rfl⟩ : c = _ ∧ s = _ := by simpa [ht] using ht'
      rw [hb.find, if_pos ⟨rfl, rfl⟩, NdpInstruction.operand_setOperand_self]
  · simp [hd] at hd'

/-- The fields of architectural names hold what the map gives for them. -/
def RenamesArchitectural (map : RegClass → Int → Option Int) (inst renamed : NdpInstruction) :
    Prop :=
  ∀ c s, (some c, s) ∈ inst.registerFields → architectural (toInt (inst.operand s)) →
    FieldOk map inst renamed c s

/-- What is bound are physical registers. -/
def BindsPhysical (u : RegisterUnit) (key : Int) : Prop :=
  ∀ c n p, (u.pool c).find? key n = some p → ¬ architectural p ∧ toInt p = p

theorem mem_assigned {uses : List NameUse} {c : RegClass} {n : Int} :
    (c, n) ∈ assigned uses ↔ ⟨true, c, n⟩ ∈ uses := by
  simp only [assigned, List.mem_toFinset, List.mem_map, List.mem_filter, Prod.mk.injEq]
  constructor
  · rintro ⟨⟨d, c', n'⟩, ⟨hmem, hd⟩, rfl, rfl⟩
    obtain rfl : d = true := hd
    exact hmem
  · intro hmem
    exact ⟨_, ⟨hmem, rfl⟩, rfl, rfl⟩

/-- If the fields of an instruction are right, the map knows the names it assigns. -/
theorem image_of_assigned {inst renamed : NdpInstruction} {map : RegClass → Int → Option Int}
    (h : u.convertInst key inst = .ok (renamed, u')) (hphys : u'.BindsPhysical key)
    (hmap : RenamesArchitectural map inst renamed) {c : RegClass} {n : Int}
    (hn : (c, n) ∈ assigned inst.nameUses) (ha : architectural n) :
    ∃ r, map c n = some r ∧ toInt r ≠ n := by
  obtain ⟨st, hst, huse⟩ := List.mem_filterMap.mp (mem_assigned.mp hn)
  obtain ⟨pre, post, hsplit⟩ := List.append_of_mem hst
  unfold NameUse.of at huse
  split at huse
  case h_2 => cases huse
  case h_1 c' s ht =>
    obtain ⟨hd, rfl, rfl⟩ : st.defines = true ∧ c' = c ∧ toInt (inst.operand s) = n := by
      simpa using huse
    have hw := writtenOnce_renameSteps inst
    have hrun : (u.noteVlmul inst).runSteps key inst inst inst.renameSteps = .ok (renamed, u') := h
    rw [hsplit] at hw hrun
    have hbound := runSteps_defined hrun hw ht hd
    obtain ⟨hp, hp'⟩ := hphys _ _ _ hbound
    have hfield := hmap c' s (mem_registerFields.mpr ⟨st, hst, ht⟩) ha
    unfold FieldOk at hfield
    split at hfield
    case h_1 p hp₁ =>
      refine ⟨p, hp₁, ?_⟩
      rw [← hfield, hp']
      rintro heq
      exact hp (heq ▸ ha)
    case h_2 =>
      rw [hp'] at hfield
      exact absurd (hfield ▸ ha) hp

theorem settledIn_iff {all known : Finset (RegClass × Int)} {uses : List NameUse} :
    settledIn all known uses ↔ ∀ pre a post, uses = pre ++ a :: post → a.defines = false →
      architectural a.name → (a.cls, a.name) ∈ all → (a.cls, a.name) ∈ known ∪ assigned pre := by
  constructor
  · rintro h pre a post rfl hd ha hall
    have h' := (settledIn_append.mp h).2
    exact h'.1 hd ha hall
  · induction uses generalizing known with
    | nil => intro _; trivial
    | cons a uses ih =>
      intro h
      refine ⟨fun hd ha hall => by simpa using h [] a uses rfl hd ha hall, ih ?_⟩
      rintro pre b post rfl hd ha hall
      have hmem := h (a :: pre) b post rfl hd ha hall
      simp only [Finset.mem_union, mem_assigned_cons] at hmem ⊢
      obtain hmem | ⟨hda, heq⟩ | hmem := hmem
      · left
        split
        · exact Finset.mem_insert_of_mem hmem
        · exact hmem
      · left
        rw [if_pos hda, heq]
        exact Finset.mem_insert_self _ _
      · exact .inr hmem

/-- If the fields of an instruction are right, it uses no name early. -/
theorem settledIn_of_renames {inst renamed : NdpInstruction}
    {map : RegClass → Int → Option Int} {all known : Finset (RegClass × Int)}
    (h : u.convertInst key inst = .ok (renamed, u')) (hk : u.Knows key known)
    (hmap : RenamesArchitectural map inst renamed)
    (hall : ∀ c n, (c, n) ∈ all → architectural n → (c, n) ∉ known →
      ∃ r, map c n = some r ∧ toInt r ≠ n) :
    settledIn all known inst.nameUses := by
  refine settledIn_iff.mpr fun pre' a post' huses hd ha hmem => ?_
  by_contra hnot
  -- the step behind the early use
  obtain ⟨pre, rest, hsplit, rfl, hrest⟩ := List.filterMap_eq_append_iff.mp huses
  obtain ⟨skipped, st, post, rfl, hskipped, huse, rfl⟩ := List.filterMap_eq_cons_iff.mp hrest
  unfold NameUse.of at huse
  split at huse
  case h_2 => cases huse
  case h_1 c s ht =>
    obtain rfl := Option.some_inj.mp huse
    have hco := coherent_renameSteps inst
    have hw := writtenOnce_renameSteps inst
    have hrun : (u.noteVlmul inst).runSteps key inst inst inst.renameSteps = .ok (renamed, u') := h
    have hst : st ∈ inst.renameSteps := by simp [hsplit]
    rw [hsplit, ← List.append_assoc] at hco hw hrun
    obtain ⟨r₁, w, r₂, w', h₁, h₂, h₃⟩ := runSteps_split hrun
    have hkw := runSteps_knows h₁ (knows_noteVlmul.mpr hk)
    have hpre : (pre ++ skipped).filterMap (NameUse.of inst) =
        pre.filterMap (NameUse.of inst) := by
      rw [List.filterMap_append, List.filterMap_eq_nil_iff.mpr hskipped, List.append_nil]
    rw [hpre] at hkw
    have hnone : (w.pool c).find? key (toInt (inst.operand s)) = none := by
      rw [← Option.not_isSome_iff_eq_none, hkw]
      exact hnot
    have hearly := runSteps_early h₁ h₂ h₃ hco hw ht hd hnone
    obtain ⟨r, hr, hne⟩ := hall c _ hmem ha fun hin => hnot (Finset.mem_union_left _ hin)
    have hfield := hmap c s (mem_registerFields.mpr ⟨st, hst, ht⟩) ha
    rw [FieldOk, hr] at hfield
    rw [hfield] at hearly
    exact hne hearly

theorem BindsPhysical.of_mono {w : RegisterUnit} (h : w.BindsPhysical key)
    (hm : ∀ c n p, (u.pool c).find? key n = some p → (w.pool c).find? key n = some p) :
    u.BindsPhysical key :=
  fun c n p hp => h c n p (hm c n p hp)

theorem image_of_section {insts out : List NdpInstruction} {map : RegClass → Int → Option Int}
    (h : u.convertInsts key insts = .ok (out, u')) (hphys : u'.BindsPhysical key)
    (hmap : List.Forall₂ (RenamesArchitectural map) insts out) {c : RegClass} {n : Int}
    (hn : (c, n) ∈ assigned (insts.flatMap NdpInstruction.nameUses)) (ha : architectural n) :
    ∃ r, map c n = some r ∧ toInt r ≠ n := by
  induction insts generalizing u out with
  | nil => simp at hn
  | cons inst insts ih =>
    obtain ⟨⟨renamed, u₁⟩, h₁, h⟩ := bind_eq_ok.mp h
    obtain ⟨⟨rest, u₂⟩, h₂, h⟩ := bind_eq_ok.mp h
    obtain ⟨rfl, rfl⟩ := Prod.mk.inj (Except.ok.inj h)
    obtain ⟨hmap₁, hmap₂⟩ := List.forall₂_cons.mp hmap
    rw [List.flatMap_cons, assigned_append, Finset.mem_union] at hn
    obtain hn | hn := hn
    · exact image_of_assigned h₁ (hphys.of_mono (convertInsts_mono h₂)) hmap₁ hn ha
    · exact ih h₂ hmap₂ hn

theorem settledIn_of_section {insts out : List NdpInstruction}
    {map : RegClass → Int → Option Int} {all known : Finset (RegClass × Int)}
    (h : u.convertInsts key insts = .ok (out, u')) (hk : u.Knows key known)
    (hmap : List.Forall₂ (RenamesArchitectural map) insts out)
    (hall : ∀ c n, (c, n) ∈ all → architectural n → (c, n) ∉ known →
      ∃ r, map c n = some r ∧ toInt r ≠ n) :
    settledIn all known (insts.flatMap NdpInstruction.nameUses) := by
  induction insts generalizing u out known with
  | nil => trivial
  | cons inst insts ih =>
    obtain ⟨⟨renamed, u₁⟩, h₁, h⟩ := bind_eq_ok.mp h
    obtain ⟨⟨rest, u₂⟩, h₂, h⟩ := bind_eq_ok.mp h
    obtain ⟨rfl, rfl⟩ := Prod.mk.inj (Except.ok.inj h)
    obtain ⟨hmap₁, hmap₂⟩ := List.forall₂_cons.mp hmap
    rw [List.flatMap_cons, settledIn_append]
    refine ⟨settledIn_of_renames h₁ hk hmap₁ hall, ?_⟩
    refine ih h₂ (runSteps_knows h₁ (knows_noteVlmul.mpr hk)) hmap₂ fun c n hmem ha hnot => ?_
    exact hall c n hmem ha fun hin => hnot (Finset.mem_union_left _ hin)

/-! ## Whole calls -/

theorem Conserved.bindsPhysical (hu : u.Conserved) (hl : u.Layout) : u.BindsPhysical key := by
  intro c n p hp
  have hmem := RegClass.mem_physical.mp (hu.mem_physical_of_find? hp)
  have hx := hl.x
  have hf := hl.f
  have hv := hl.v
  simp only [architectural, regPXBase, regPFBase, regPVBase, spcialRegStart] at *
  constructor <;> cases c <;>
    simp only [RegClass.base, numRegs, regPXBase, regPFBase, regPVBase] at hmem
  all_goals first | omega | exact toInt_of_range (by omega) (by omega)

/-- The registers `Convert` initialises: `x1` with the address, `x2` with the offset. -/
structure Started (u : RegisterUnit) (key : Int) (req : RequestInfo) : Prop where
  addr : ∃ p, u.xregs.find? key (regXBase + 1) = some p ∧ u.xregTable p = req.addr
  offset : ∃ p, u.xregs.find? key (regXBase + 2) = some p ∧ u.xregTable p = req.offset

/-- What `Convert` does before it comes to the instructions. -/
theorem convert_start {insts out : List NdpInstruction} {req : RequestInfo}
    (h : u.convert insts key req = .ok (out, u')) (hu : u.Conserved) (hk : ¬ u.Live key) :
    ∃ w : RegisterUnit, w.convertInsts key insts = .ok (out, u') ∧
      w.Knows key initialNames ∧ w.Started key req := by
  obtain ⟨u₁, u₂, h₁, h₂, h⟩ := convert_eq_ok.mp h
  obtain ⟨p₁, rest₁, hf₁, rfl⟩ := initXreg_eq_ok.mp h₁
  obtain ⟨p₂, rest₂, hf₂, rfl⟩ := initXreg_eq_ok.mp h₂
  have hne : p₁ ≠ p₂ := by
    have hnd := (hu.nodup_held .x).of_append_left.of_append_left
    rw [show (u.pool .x).free = p₁ :: p₂ :: rest₂ from hf₁.trans (congrArg _ hf₂)] at hnd
    rintro rfl
    simp at hnd
  have hfind (n : Int) :
      (Pool.bind ⟨rest₂, (Pool.bind ⟨rest₁, u.xregs.bindings⟩ key (regXBase + 1) p₁).bindings⟩
        key (regXBase + 2) p₂).find? key n =
      if n = regXBase + 2 then some p₂ else if n = regXBase + 1 then some p₁ else none := by
    have hx : u.xregs.find? key n = none := find?_of_not_live hk .x n
    rw [Pool.find?_bind]
    change (if _ then _ else (Pool.bind ⟨rest₁, u.xregs.bindings⟩ key _ p₁).find? key n) = _
    rw [Pool.find?_bind]
    change (if _ then _ else if _ then _ else u.xregs.find? key n) = _
    simp [hx]
  refine ⟨_, h, fun c n => ?_, ⟨p₁, ?_, ?_⟩, ⟨p₂, ?_, ?_⟩⟩
  · cases c with
    | x =>
      refine (Bool.eq_iff_iff.mp (congrArg Option.isSome (hfind n))).trans ?_
      rw [initialNames]
      split
      · simp_all
      · split <;> simp_all
    | f =>
      have hf : u.fregs.find? key n = none := find?_of_not_live hk .f n
      change (u.fregs.find? key n).isSome = true ↔ _
      simp [hf, initialNames]
    | v =>
      have hv : u.vregs.find? key n = none := find?_of_not_live hk .v n
      change (u.vregs.find? key n).isSome = true ↔ _
      simp [hv, initialNames]
  · exact (hfind _).trans (by simp)
  · change Function.update (Function.update u.xregTable p₁ req.addr) p₂ req.offset p₁ = _
    rw [Function.update_of_ne hne, Function.update_self]
  · exact (hfind _).trans (by simp)
  · change Function.update (Function.update u.xregTable p₁ req.addr) p₂ req.offset p₂ = _
    rw [Function.update_self]

/-- Renaming the instructions leaves the contents of the registers alone. -/
theorem convertInsts_tables {insts out : List NdpInstruction}
    (h : u.convertInsts key insts = .ok (out, u')) :
    u'.xregTable = u.xregTable ∧ u'.fregTable = u.fregTable := by
  refine convertInsts_invariant (P := fun w => w.xregTable = u.xregTable ∧
    w.fregTable = u.fregTable) (fun _ hw => hw) (fun _ hd hw => ?_) h ⟨rfl, rfl⟩
  have hset (w : RegisterUnit) (c : RegClass) (q : Pool Int Int Int) :
      (w.setPool c q).xregTable = w.xregTable ∧ (w.setPool c q).fregTable = w.fregTable := by
    cases c <;> exact ⟨rfl, rfl⟩
  obtain ⟨-, rfl⟩ | ⟨-, -, rest, -, rfl⟩ | ⟨-, -, partner, rest, -, rfl⟩ := destRename_cases hd
  · exact hw
  · exact ⟨(hset _ _ _).1.trans hw.1, (hset _ _ _).2.trans hw.2⟩
  · exact ⟨(hset _ _ _).1.trans hw.1, (hset _ _ _).2.trans hw.2⟩

theorem Started.convertInsts {insts out : List NdpInstruction} {req : RequestInfo}
    (h : u.convertInsts key insts = .ok (out, u')) (hs : u.Started key req) :
    u'.Started key req := by
  obtain ⟨⟨p, hp, hp'⟩, ⟨q, hq, hq'⟩⟩ := hs
  have ht := (convertInsts_tables h).1
  exact ⟨⟨p, convertInsts_mono h .x _ _ hp, by rw [ht, hp']⟩,
    ⟨q, convertInsts_mono h .x _ _ hq, by rw [ht, hq']⟩⟩

/-! ## Lookups that succeeded -/

/-- A register that must be there is bound in the end, or it is a special one. -/
theorem runSteps_found {inst : NdpInstruction} {ss : List RenameStep} {st : RenameStep}
    {c : RegClass} {s : Slot} (hst : st ∈ ss) (ht : st.target = some (some c, s))
    (ho : st.optional = false) :
    ∀ {u u' : RegisterUnit} {renamed renamed'},
      u.runSteps key inst renamed ss = .ok (renamed', u') →
      ((u'.pool c).find? key (toInt (inst.operand s))).isSome = true ∨
        checkSpecialReg (toInt (inst.operand s)) = true := by
  intro u u' renamed renamed' h
  obtain ⟨pre, post, rfl⟩ := List.append_of_mem hst
  obtain ⟨r₁, w, r₂, w', -, h₂, h₃⟩ := runSteps_split h
  have hmono {p : Int} (hp : (w'.pool c).find? key (toInt (inst.operand s)) = some p) :
      ((u'.pool c).find? key (toInt (inst.operand s))).isSome = true := by
    rw [runSteps_mono h₃ _ _ _ hp, Option.isSome_some]
  cases runStep_outcome h₂ with
  | noDest => simp [RenameStep.target] at ht
  | use ht' _ hu =>
    obtain ⟨rfl, rfl⟩ : c = _ ∧ s = _ := by simpa [ht] using ht'
    cases hu with
    | bound hf => exact .inl (hmono hf)
    | special _ hs => exact .inr hs
    | absent _ ho' => simp [ho] at ho'
  | define ht' _ hb =>
    obtain ⟨rfl, rfl⟩ : c = _ ∧ s = _ := by simpa [ht] using ht'
    exact .inl (hmono (by rw [hb.find, if_pos ⟨rfl, rfl⟩]))

end RegisterUnit

end NdpSim
