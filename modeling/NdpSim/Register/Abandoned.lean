import NdpSim.Register.Conservation

/-!
# What an exception leaves behind

`Convert` allocates as it goes, and nothing is given back when a lookup throws: what the packet
has been given stays bound to it. A vector write that throws on the value or on the register
number has changed nothing.
-/
namespace NdpSim

open Library

namespace RegisterUnit

/-- What is returned, or the exception, each with the unit as it is then. -/
abbrev Attempt (α : Type) := Except (Fault × RegisterUnit) (α × RegisterUnit)

namespace Attempt

variable {α : Type}

def unit : Attempt α → RegisterUnit
  | .ok (_, u) => u
  | .error (_, u) => u

/-- The result for a caller that does not look at the unit after an exception. -/
def forget : Attempt α → Except Fault (α × RegisterUnit)
  | .ok r => .ok r
  | .error (e, _) => .error e

end Attempt

/-- A step that throws has looked a register up, and has changed nothing. -/
def tryRunSteps (u : RegisterUnit) (key : Int) (inst : NdpInstruction) :
    NdpInstruction → List RenameStep → Attempt NdpInstruction
  | renamed, [] => .ok (renamed, u)
  | renamed, s :: ss =>
    match u.runStep key inst renamed s with
    | .ok (renamed, u) => u.tryRunSteps key inst renamed ss
    | .error e => .error (e, u)

def tryConvertInst (u : RegisterUnit) (key : Int) (inst : NdpInstruction) :
    Attempt NdpInstruction :=
  (u.noteVlmul inst).tryRunSteps key inst inst inst.renameSteps

def tryConvertInsts (u : RegisterUnit) (key : Int) :
    List NdpInstruction → Attempt (List NdpInstruction)
  | [] => .ok ([], u)
  | inst :: insts =>
    match u.tryConvertInst key inst with
    | .ok (renamed, u) =>
      match u.tryConvertInsts key insts with
      | .ok (rest, u) => .ok (renamed :: rest, u)
      | .error e => .error e
    | .error e => .error e

/-- `Convert` with the unit it leaves behind when it throws. -/
def tryConvert (u : RegisterUnit) (insts : List NdpInstruction) (packetId : Int)
    (req : RequestInfo) : Attempt (List NdpInstruction) :=
  match u.initXreg packetId (regXBase + 1) req.addr with
  | .error e => .error (e, u)
  | .ok u =>
    match u.initXreg packetId (regXBase + 2) req.offset with
    | .error e => .error (e, u)
    | .ok u => tryConvertInsts { u with cvtVlmulStatus := immM1 } packetId insts

/-- `WriteVreg` with the unit it leaves behind. Without a partner the first half is written and
the map has got an entry when it throws. -/
def tryWriteVreg (u : RegisterUnit) (reg : Int) (value : VectorData) (context : Context) :
    Attempt Unit :=
  let reg := toInt reg
  if overflows value then
    .error (.runtimeError "RegisterUnit::WriteVreg: Overflow Detected!", u)
  else if u.isVreg reg then
    if context.csr.vtypeVlmul = .m2 || value.doubleReg then
      match value.split with
      | .error e => .error (e, u)
      | .ok (lo, hi) =>
        let partner := (u.doubleVreg.lookup reg).getD 0
        let u := { u with
          vregTable := Function.update u.vregTable reg lo
          doubleVreg :=
            if (u.doubleVreg.lookup reg).isSome then u.doubleVreg
            else u.doubleVreg.insert reg 0 }
        if partner < regPVBase then
          .error (.runtimeError "RegisterUnit::Double register not allocated", u)
        else .ok ((), { u with vregTable := Function.update u.vregTable partner hi })
    else .ok ((), { u with vregTable := Function.update u.vregTable reg value })
  else .error (.runtimeError "RegisterUnit::WriteVreg: Invalid register", u)

section Forget

variable {u : RegisterUnit} {key : Int} {inst : NdpInstruction}

theorem forget_tryRunSteps (ss : List RenameStep) (renamed : NdpInstruction) :
    (u.tryRunSteps key inst renamed ss).forget = u.runSteps key inst renamed ss := by
  induction ss generalizing u renamed with
  | nil => rfl
  | cons s ss ih =>
    rw [tryRunSteps, runSteps]
    cases u.runStep key inst renamed s with
    | error e => rfl
    | ok r => exact ih r.1

theorem forget_tryConvertInsts (insts : List NdpInstruction) :
    (u.tryConvertInsts key insts).forget = u.convertInsts key insts := by
  induction insts generalizing u with
  | nil => rfl
  | cons inst insts ih =>
    have hinst : (u.tryConvertInst key inst).forget = u.convertInst key inst :=
      forget_tryRunSteps ..
    rw [tryConvertInsts, convertInsts, ← hinst]
    cases u.tryConvertInst key inst with
    | error e => rfl
    | ok r =>
      change _ = (r.2.convertInsts key insts >>= fun q => pure (r.1 :: q.1, q.2))
      rw [← ih]
      dsimp only
      cases r.2.tryConvertInsts key insts <;> rfl

/-- Up to what is left behind after an exception, it is the same renaming. -/
theorem forget_tryConvert (insts : List NdpInstruction) (req : RequestInfo) :
    (u.tryConvert insts key req).forget = u.convert insts key req := by
  rw [tryConvert, convert]
  cases u.initXreg key (regXBase + 1) req.addr with
  | error e => rfl
  | ok u₁ =>
    rw [ok_bind]
    dsimp only
    cases u₁.initXreg key (regXBase + 2) req.offset with
    | error e => rfl
    | ok u₂ => exact forget_tryConvertInsts insts

theorem forget_tryWriteVreg (reg : Int) (value : VectorData) (context : Context) :
    Prod.snd <$> (u.tryWriteVreg reg value context).forget = u.writeVreg reg value context := by
  simp only [tryWriteVreg, writeVreg]
  split
  · rfl
  split
  case isFalse => rfl
  case isTrue =>
    split
    case isFalse => rfl
    case isTrue =>
      cases value.split with
      | error e => rfl
      | ok halves =>
        rw [ok_bind]
        dsimp only
        split
        · rfl
        case isFalse hpartner =>
          -- only a register without an entry gets one, and then the partner is 0
          have hsome : (u.doubleVreg.lookup (toInt reg)).isSome = true := by
            by_contra hnone
            rw [Bool.not_eq_true, Option.isSome_eq_false_iff, Option.isNone_iff_eq_none] at hnone
            rw [hnone] at hpartner
            exact hpartner (by decide)
          rw [if_pos hsome]
          rfl

end Forget

/-! ## Renaming -/

/-- What renaming for packet `key` makes of a unit: free registers move to the packet, and the
contents of other registers stay as they are. -/
structure Grown (key : Int) (u w : RegisterUnit) : Prop where
  conserved : w.Conserved
  numRegs : w.numRegs = u.numRegs
  free : ∀ c, ∃ taken, (u.pool c).free = taken ++ (w.pool c).free
  others : ∀ k, k ≠ key → ∀ c name, (w.pool c).find? k name = (u.pool c).find? k name
  own : ∀ c name r, (u.pool c).find? key name = some r → (w.pool c).find? key name = some r
  pairs : ∀ r partner, u.doubleVreg.lookup r = some partner → w.doubleVreg.lookup r = some partner
  xregTable : ∀ r, w.xregTable r ≠ u.xregTable r → ∃ name, w.xregs.find? key name = some r
  fregTable : w.fregTable = u.fregTable
  vregTable : w.vregTable = u.vregTable

namespace Grown

variable {key : Int} {u w w' : RegisterUnit}

theorem refl (key : Int) (hu : u.Conserved) : Grown key u u :=
  ⟨hu, rfl, fun _ => ⟨[], rfl⟩, fun _ _ _ _ => rfl, fun _ _ _ h => h, fun _ _ h => h,
    fun _ h => absurd rfl h, rfl, rfl⟩

theorem noteVlmul (h : Grown key u w) (m : Int) : Grown key u { w with cvtVlmulStatus := m } :=
  ⟨⟨h.conserved.perm, h.conserved.paired⟩, h.numRegs, h.free, h.others, h.own, h.pairs,
    h.xregTable, h.fregTable, h.vregTable⟩

/-- The first free register is bound to a new name of the packet. -/
theorem bind (h : Grown key u w) {c : RegClass} {name r : Int} {rest : List Int}
    (hfree : (w.pool c).free = r :: rest) (hn : (w.pool c).find? key name = none) :
    Grown key u (w.setPool c (Pool.bind ⟨rest, (w.pool c).bindings⟩ key name r)) := by
  have hkeep (c' : RegClass) {n q : Int} (hq : (w.pool c').find? key n = some q) :
      ((w.setPool c (Pool.bind ⟨rest, (w.pool c).bindings⟩ key name r)).pool c').find? key n =
        some q := by
    rw [find?_setPool_bind, if_neg]
    · exact hq
    · rintro ⟨rfl, rfl⟩
      cases hn.symm.trans hq
  refine ⟨h.conserved.bind hfree hn, ?_, fun c' => ?_, fun k hk c' n => ?_, fun c' n q hq => ?_,
    ?_, fun q hq => ?_, ?_, ?_⟩
  · rw [← h.numRegs]
    exact funext (numRegs_setPool w c _)
  · obtain ⟨taken, htaken⟩ := h.free c'
    rw [pool_setPool]
    split
    case isTrue hc =>
      subst hc
      exact ⟨taken ++ [r], by rw [htaken, hfree, List.append_assoc]; rfl⟩
    case isFalse => exact ⟨taken, htaken⟩
  · have hother : (w.pool c').find? k n = (u.pool c').find? k n := h.others k hk c' n
    rw [pool_setPool]
    split
    case isTrue hc =>
      subst hc
      rw [Pool.find?_bind, if_neg fun h => hk h.1]
      exact hother
    case isFalse => exact hother
  · exact hkeep c' (h.own c' n q hq)
  · rw [doubleVreg_setPool]
    exact h.pairs
  · obtain ⟨n, hbound⟩ := h.xregTable q (by cases c <;> exact hq)
    exact ⟨n, hkeep .x hbound⟩
  · rw [← h.fregTable]
    cases c <;> rfl
  · rw [← h.vregTable]
    cases c <;> rfl

theorem destRename (h : Grown key u w) {c : RegClass} {name r : Int} {double : Bool}
    (hc : double = true → c = .v) (hd : w.destRename c key name double = .ok (r, w')) :
    Grown key u w' := by
  have hconserved := h.conserved.destRename hc hd
  obtain ⟨-, rfl⟩ | ⟨hn, -, rest, hfree, rfl⟩ | ⟨hn, hdouble, partner, rest, hfree, rfl⟩ :=
    destRename_cases hd
  · exact h
  · exact h.bind hfree hn
  · obtain rfl := hc hdouble
    -- as after the first register alone, with the second one taken off the free list as well
    have hone := h.bind hfree hn
    refine ⟨hconserved, hone.numRegs, fun c => ?_, fun k hk c n => ?_, fun c n q hq => ?_,
      fun q p hq => ?_, hone.xregTable, hone.fregTable, hone.vregTable⟩
    · cases c with
      | x => exact hone.free .x
      | f => exact hone.free .f
      | v =>
        obtain ⟨taken, htaken⟩ := hone.free .v
        exact ⟨taken ++ [partner], by rw [htaken, List.append_assoc]; rfl⟩
    · have hsame := hone.others k hk c n
      cases c <;> exact hsame
    · have hkept := hone.own c n q hq
      cases c <;> exact hkept
    · have hkept := h.pairs q p hq
      have hnew : q ≠ r := by
        rintro rfl
        have hnone := h.conserved.free_unpaired (List.mem_of_mem_head? (congrArg List.head? hfree))
        cases hnone.symm.trans hkept
      exact (AList.lookup_insert_ne hnew).trans hkept

/-- The next free x register is bound to a new name and is given a value. -/
theorem initXreg (h : Grown key u w) {name : Int} {value : BitVec 64}
    (hn : w.xregs.find? key name = none) (hi : w.initXreg key name value = .ok w') :
    Grown key u w' := by
  have hconserved := h.conserved.initXreg hn hi
  obtain ⟨px, rest, hfree, rfl⟩ := initXreg_eq_ok.mp hi
  have hone : Grown key u _ := h.bind (c := .x) hfree hn
  refine ⟨hconserved, hone.numRegs, hone.free, hone.others, hone.own, hone.pairs, fun q hq => ?_,
    hone.fregTable, hone.vregTable⟩
  by_cases heq : q = px
  · subst heq
    exact ⟨name, (Pool.find?_bind ..).trans (if_pos ⟨rfl, rfl⟩)⟩
  · change Function.update w.xregTable px value q ≠ _ at hq
    rw [Function.update_of_ne heq] at hq
    exact hone.xregTable q hq

end Grown

section Renaming

variable {key : Int} {u : RegisterUnit} {P : RegisterUnit → Prop}

theorem tryRunSteps_invariant
    (hd : ∀ {u u' c name double r}, (double = true → c = .v) →
      u.destRename c key name double = .ok (r, u') → P u → P u')
    {inst : NdpInstruction} (ss : List RenameStep) (renamed : NdpInstruction) (hu : P u) :
    P (u.tryRunSteps key inst renamed ss).unit := by
  induction ss generalizing u renamed with
  | nil => exact hu
  | cons s ss ih =>
    rw [tryRunSteps]
    cases hs : u.runStep key inst renamed s with
    | error e => exact hu
    | ok r =>
      refine ih r.1 ?_
      obtain hsame | ⟨c, name, double, q, hc, hq⟩ := runStep_cases hs
      · rw [hsame]
        exact hu
      · exact hd hc hq hu

/-- What destination renamings and multiplier changes preserve, renaming preserves, whether it
returns or throws. -/
theorem tryConvertInsts_invariant (hm : ∀ {u : RegisterUnit} (m : Int), P u →
      P { u with cvtVlmulStatus := m })
    (hd : ∀ {u u' c name double r}, (double = true → c = .v) →
      u.destRename c key name double = .ok (r, u') → P u → P u')
    (insts : List NdpInstruction) (hu : P u) : P (u.tryConvertInsts key insts).unit := by
  induction insts generalizing u with
  | nil => exact hu
  | cons inst insts ih =>
    have hnoted : P (u.noteVlmul inst) := by
      unfold RegisterUnit.noteVlmul
      split
      · exact hm _ hu
      · exact hu
    have hinst : P (u.tryConvertInst key inst).unit := tryRunSteps_invariant hd _ _ hnoted
    rw [tryConvertInsts]
    cases hone : u.tryConvertInst key inst with
    | error e =>
      rw [hone] at hinst
      exact hinst
    | ok r =>
      rw [hone] at hinst
      have hrest : P (r.2.tryConvertInsts key insts).unit := ih hinst
      dsimp only
      cases hall : r.2.tryConvertInsts key insts with
      | error e =>
        rw [hall] at hrest
        exact hrest
      | ok q =>
        rw [hall] at hrest
        exact hrest

/-- `Convert` for a new packet, whether it returns or throws. -/
theorem grown_tryConvert (hu : u.Conserved) (hk : ¬ u.Live key) (insts : List NdpInstruction)
    (req : RequestInfo) : Grown key u (u.tryConvert insts key req).unit := by
  have hu' : Grown key u u := .refl key hu
  rw [tryConvert]
  cases h₁ : u.initXreg key (regXBase + 1) req.addr with
  | error e => exact hu'
  | ok u₁ =>
    have hu₁ := hu'.initXreg (find?_of_not_live hk .x _) h₁
    have hn : u₁.xregs.find? key (regXBase + 2) = none := by
      obtain ⟨px, rest, -, rfl⟩ := initXreg_eq_ok.mp h₁
      rw [Pool.find?_bind, if_neg (by simp [regXBase])]
      exact find?_of_not_live hk .x _
    dsimp only
    cases h₂ : u₁.initXreg key (regXBase + 2) req.offset with
    | error e => exact hu₁
    | ok u₂ =>
      have hu₂ := hu₁.initXreg hn h₂
      exact tryConvertInsts_invariant (fun m h => h.noteVlmul m) (fun hc hd h => h.destRename hc hd)
        insts (hu₂.noteVlmul immM1)

end Renaming

/-! ## Vector writes -/

theorem unit_tryWriteVreg {u : RegisterUnit} {reg : Int} {value : VectorData} {context : Context}
    {what : String} (h : u.writeVreg reg value context = .error (.runtimeError what))
    (hwhat : what ≠ "RegisterUnit::Double register not allocated") :
    (u.tryWriteVreg reg value context).unit = u := by
  rw [← forget_tryWriteVreg] at h
  simp only [tryWriteVreg] at h ⊢
  split at h
  case isTrue hover =>
    rw [if_pos hover]
    rfl
  case isFalse hover =>
    rw [if_neg hover]
    split at h
    case isFalse hreg =>
      rw [if_neg hreg]
      rfl
    case isTrue hreg =>
      rw [if_pos hreg]
      split at h
      case isFalse => cases h
      case isTrue hdouble =>
        rw [if_pos hdouble]
        cases hsplit : value.split with
        | error e => rfl
        | ok halves =>
          rw [hsplit] at h
          dsimp only at h
          split at h
          · exact absurd (Fault.runtimeError.inj (Except.error.inj h)).symm hwhat
          · cases h

/-- After an exception the account of the registers still holds: a renaming that throws keeps what
it took for its packet and has left the other packets alone, and a write that overflows or names
no vector register has changed nothing. -/
theorem unit_after_exception {u : RegisterUnit} (hu : u.Conserved) {what : String} :
    (∀ insts key req, ¬ u.Live key → u.convert insts key req = .error (.runtimeError what) →
      Grown key u (u.tryConvert insts key req).unit) ∧
    ∀ reg value context, u.writeVreg reg value context = .error (.runtimeError what) →
      what ≠ "RegisterUnit::Double register not allocated" →
      (u.tryWriteVreg reg value context).unit = u :=
  ⟨fun insts _ req hk _ => grown_tryConvert hu hk insts req,
    fun _ _ _ h hwhat => unit_tryWriteVreg h hwhat⟩

/-- `add x5, x3, x3`, where no `x3` has been written. -/
def unknownSource : NdpInstruction :=
  { opcode := .add, operandType := .none, src := ![regXBase + 3, regXBase + 3, 0, 0, 0],
    dest := regXBase + 5, segDest := 0, segCnt := 0, doBranch := false }

theorem not_live_create (nx nf nv : Nat) (key : Int) : ¬ (create nx nf nv).Live key := by
  rintro ⟨c, hc⟩
  cases c <;> exact AList.notMem_empty _ hc

theorem unit_after_exception_unknownSource :
    Grown 7 (create 2 0 0) ((create 2 0 0).tryConvert [unknownSource] 7 sampleRequest).unit :=
  (unit_after_exception (Conserved.create 2 0 0)).1 _ 7 _ (not_live_create 2 0 0 7) rfl

/-- The two registers of the packet are not given back. -/
theorem not_atomic_unknownSource :
    (create 2 0 0).convert [unknownSource] 7 sampleRequest =
      .error (.runtimeError "RegisterUnit::LookUpX: Register not found") ∧
    ((create 2 0 0).tryConvert [unknownSource] 7 sampleRequest).unit.xregs.free ≠
      (create 2 0 0).xregs.free := by
  refine ⟨rfl, fun h => ?_⟩
  have hnil : ((create 2 0 0).tryConvert [unknownSource] 7 sampleRequest).unit.xregs.free = [] :=
    rfl
  cases hnil.symm.trans h

end RegisterUnit

end NdpSim
