import NdpSim.Functional.Machine
import NdpSim.Parser.Instruction
import NdpSim.Register.Substitution
import NdpSim.Timing.InstructionBuffer

/-!
# The register multiplier

A `vsetvli` is read three times: `Execute` takes the multiplier from it when it is executed,
`Convert` takes it in the order of the text, and `count_required_regs` would take it from yet
another field but never comes to it, because `vsetvli` counts as a scalar operation there.
-/
namespace NdpSim

open Library Text

/-! ## What the text says -/

/-- A line of a section with the instruction the parser makes of it. -/
structure SourceLine where
  text : Text
  inst : NdpInstruction
  parsed : parseNdpInstruction text = .ok inst

namespace SourceLine

/-- The operands behind the destination. -/
def operands (line : SourceLine) : List Text := fields ',' (splitLine line.text).2.2

def isVsetvli (line : SourceLine) : Bool := line.inst.opcode = .vsetvli

theorem isVsetvli_iff {line : SourceLine} :
    line.isVsetvli = true ↔ line.inst.opcode = .vsetvli := decide_eq_true_iff

def lmulNames : List (String × Vlmul) :=
  [("mf8", .mf8), ("mf4", .mf4), ("mf2", .mf2), ("m1", .m1), ("m2", .m2), ("m4", .m4),
    ("m8", .m8)]

/-- The multiplier a `vsetvli` names behind its source register, which is `m1` if it names
none. -/
def writtenLmul (line : SourceLine) : Vlmul :=
  ((line.operands.drop 1).findSome? fun t => lmulNames.lookup (String.ofList t)).getD .m1

/-- The field that `Execute` and `Convert` look at holds `m1`: with two or five operands always,
with three, four or six if the third operand is `m1`, and never with more. -/
def SlotM1 (line : SourceLine) : Prop :=
  line.operands.length = 2 ∨ line.operands.length = 5 ∨
    line.operands.length ∈ [3, 4, 6] ∧ line.operands[2]?.map getRegValue = some (.ok immM1)

instance (line : SourceLine) : Decidable line.SlotM1 :=
  inferInstanceAs (Decidable (_ ∨ _ ∨ _ ∧ _))

end SourceLine

theorem getRegValue_range {t : Text} {r : Int} (h : getRegValue t = .ok r) :
    0 ≤ r ∧ r < 2 ^ 32 := by
  have hnum {base : Int} {ds : Text} (h : regNumber base ds = .ok r) : 0 ≤ r ∧ r < 2 ^ 32 := by
    obtain ⟨n, -, h⟩ := bind_eq_ok.mp h
    obtain rfl := Except.ok.inj h
    exact ⟨Int.emod_nonneg _ (by norm_num), Int.emod_lt_of_pos _ (by norm_num)⟩
  unfold getRegValue at h
  split at h
  case h_1 s hs =>
    obtain rfl := Except.ok.inj h
    have hall : ∀ p ∈ namedRegs, 0 ≤ p.2 ∧ p.2 < 2 ^ 32 := by decide
    obtain ⟨l₁, l₂, hl, -⟩ := List.lookup_eq_some_iff.mp hs
    exact hall (String.ofList t, _) (by simp [hl])
  case h_2 =>
    split at h
    · exact hnum h
    · exact hnum h
    · exact hnum h
    · obtain rfl := Except.ok.inj h
      norm_num

theorem getElem?_fields_two {src : Text} (h : 2 ≤ src.count ',') :
    (fields ',' src)[2]? = some (before ',' (after ',' (after ',' src))) := by
  have hmem : ',' ∈ src := List.count_pos_iff.mp (by omega)
  have hcount := count_after hmem
  have hmem' : ',' ∈ after ',' src := List.count_pos_iff.mp (by omega)
  rw [getElem?_fields_succ hmem, getElem?_fields_succ hmem', getElem?_fields_zero]

/-- The multiplier field of a `vsetvli` by the number of its operands. -/
theorem parseVsetvli_lmul {src : Text} {rs : List Int} (h : parseVsetvli src = .ok rs) :
    ((fields ',' src).length = 2 ∨ (fields ',' src).length = 5) ∧ sources rs 2 = immM1 ∨
    (fields ',' src).length ∈ [3, 4, 6] ∧
      (fields ',' src)[2]?.map getRegValue = some (.ok (sources rs 2)) ∨
    6 < (fields ',' src).length ∧ sources rs 2 = -1 := by
  simp only [parseVsetvli] at h
  split at h
  · cases h
  split at h
  case h_1 hcount =>
    obtain ⟨r₁, -, h⟩ := bind_eq_ok.mp h
    obtain ⟨r₂, -, h⟩ := bind_eq_ok.mp h
    obtain rfl := Except.ok.inj h
    exact .inl ⟨.inl (by rw [length_fields, hcount]), rfl⟩
  case h_2 hcount =>
    obtain ⟨r₁, -, h⟩ := bind_eq_ok.mp h
    obtain ⟨r₂, -, h⟩ := bind_eq_ok.mp h
    obtain ⟨r₃, h₃, h⟩ := bind_eq_ok.mp h
    obtain rfl := Except.ok.inj h
    refine .inr (.inl ⟨by rw [length_fields, hcount]; decide, ?_⟩)
    rw [getElem?_fields_two (by omega), Option.map_some, h₃]
    rfl
  case h_3 hcount =>
    obtain ⟨r₁, -, h⟩ := bind_eq_ok.mp h
    obtain ⟨r₂, -, h⟩ := bind_eq_ok.mp h
    obtain ⟨r₃, h₃, h⟩ := bind_eq_ok.mp h
    obtain ⟨r₄, -, h⟩ := bind_eq_ok.mp h
    obtain rfl := Except.ok.inj h
    refine .inr (.inl ⟨by rw [length_fields, hcount]; decide, ?_⟩)
    rw [getElem?_fields_two (by omega), Option.map_some, h₃]
    rfl
  case h_4 hcount =>
    obtain ⟨r₁, -, h⟩ := bind_eq_ok.mp h
    obtain ⟨r₂, -, h⟩ := bind_eq_ok.mp h
    obtain ⟨r₃, -, h⟩ := bind_eq_ok.mp h
    obtain ⟨r₄, -, h⟩ := bind_eq_ok.mp h
    obtain rfl := Except.ok.inj h
    exact .inl ⟨.inr (by rw [length_fields, hcount]), rfl⟩
  case h_5 hcount =>
    obtain ⟨r₁, -, h⟩ := bind_eq_ok.mp h
    obtain ⟨r₂, -, h⟩ := bind_eq_ok.mp h
    obtain ⟨r₃, h₃, h⟩ := bind_eq_ok.mp h
    obtain ⟨r₄, -, h⟩ := bind_eq_ok.mp h
    obtain ⟨r₅, -, h⟩ := bind_eq_ok.mp h
    obtain rfl := Except.ok.inj h
    refine .inr (.inl ⟨by rw [length_fields, hcount]; decide, ?_⟩)
    rw [getElem?_fields_two (by omega), Option.map_some, h₃]
    rfl
  case h_6 hcount _ h2 h3 h4 h5 h6 =>
    obtain rfl := Except.ok.inj h
    refine .inr (.inr ⟨?_, rfl⟩)
    rw [length_fields]
    grind

/-- Both consumers see `m1` in the multiplier field exactly if the text says so. -/
theorem SourceLine.lmul_eq_m1 (line : SourceLine) (hop : line.inst.opcode = .vsetvli) :
    line.inst.src 2 = immM1 ↔ line.SlotM1 := by
  have hp := parsedAs_of_parse line.parsed (by rw [hop]; decide)
  obtain ⟨rs, hrs, hsrc⟩ := hp.src
  rw [hop] at hrs
  replace hrs : parseVsetvli (splitLine line.text).2.2 = .ok rs := hrs
  rw [hsrc]
  obtain ⟨hlen, hslot⟩ | ⟨hlen, hslot⟩ | ⟨hlen, hslot⟩ := parseVsetvli_lmul hrs
  · refine iff_of_true hslot ?_
    exact hlen.imp_right .inl
  · unfold SlotM1 operands
    rw [hslot]
    have hne : ¬ ((fields ',' (splitLine line.text).2.2).length = 2 ∨
        (fields ',' (splitLine line.text).2.2).length = 5) := by
      simp only [List.mem_cons, List.not_mem_nil, or_false] at hlen
      omega
    simp only [hlen, true_and, Option.some_inj, Except.ok.injEq]
    tauto
  · refine iff_of_false (by rw [hslot]; decide) ?_
    unfold SlotM1 operands
    simp only [List.mem_cons, List.not_mem_nil, or_false]
    omega

/-- The field is no number that only as an `int` would be `m1`. -/
theorem SourceLine.toInt_lmul (line : SourceLine) (hop : line.inst.opcode = .vsetvli) :
    toInt (line.inst.src 2) = immM1 ↔ line.inst.src 2 = immM1 := by
  have hp := parsedAs_of_parse line.parsed (by rw [hop]; decide)
  obtain ⟨rs, hrs, hsrc⟩ := hp.src
  rw [hop] at hrs
  replace hrs : parseVsetvli (splitLine line.text).2.2 = .ok rs := hrs
  rw [hsrc]
  have hrange : sources rs 2 = -1 ∨ 0 ≤ sources rs 2 ∧ sources rs 2 < 2 ^ 32 := by
    obtain ⟨-, hslot⟩ | ⟨-, hslot⟩ | ⟨-, hslot⟩ := parseVsetvli_lmul hrs
    · right
      rw [hslot]
      decide
    · obtain ⟨t, -, ht⟩ := Option.map_eq_some_iff.mp hslot
      exact .inr (getRegValue_range ht)
    · exact .inl hslot
  simp only [toInt, immM1, specialImmediateStart, Int.bmod_def]
  omega

/-! ## What the three consumers take -/

theorem vlmulOf_eq_m1 {imm : Int} : vlmulOf imm = some .m1 ↔ imm = immM1 := by
  unfold vlmulOf
  split
  case isTrue h => exact iff_of_true rfl h
  case isFalse h =>
    refine iff_of_false ?_ h
    repeat' split
    all_goals simp

namespace Machine

variable [FloatOps] {ρ : Type} {ops : FileOps ρ} {inst : NdpInstruction} {m m' : Machine ρ}
  {b : Bool}

theorem run_executeVsetvli {r : Unit} (h : executeVsetvli.run (handle ops inst) m = .ok (r, m')) :
    vlmulOf (inst.src 2) = some m'.csr.vtypeVlmul := by
  rw [executeVsetvli, Prog.run_bind] at h
  obtain ⟨⟨sew, m₁⟩, h₁, h⟩ := bind_eq_ok.mp h
  obtain ⟨rfl, rfl⟩ := Prod.mk.inj (Except.ok.inj h₁)
  dsimp only at h
  split at h
  case h_1 sew _ =>
    rw [Prog.run_bind] at h
    obtain ⟨⟨_, m₂⟩, h₂, h⟩ := bind_eq_ok.mp h
    dsimp only at h
    rw [Prog.run_bind] at h
    obtain ⟨⟨imm, m₃⟩, h₃, h⟩ := bind_eq_ok.mp h
    obtain ⟨rfl, rfl⟩ := Prod.mk.inj (Except.ok.inj h₃)
    dsimp only at h
    split at h
    case h_1 lmul hl =>
      obtain ⟨-, rfl⟩ := Prod.mk.inj (Except.ok.inj h)
      exact hl
    case h_2 => cases h
  case h_2 => cases h

/-- A `vsetvli` sets the multiplier its third source field stands for. -/
theorem exec_vsetvli (hop : inst.opcode = .vsetvli) (h : exec ops inst m = .ok (b, m')) :
    vlmulOf (inst.src 2) = some m'.csr.vtypeVlmul := by
  unfold exec at h
  rw [hop] at h
  replace h : ((executeVsetvli >>= fun _ => Exec.setVstart 0) >>= fun _ => pure false).run
    (handle ops inst) m = .ok (b, m') := h
  rw [Prog.run_bind, Prog.run_bind] at h
  obtain ⟨⟨_, m₂⟩, h₂, h⟩ := bind_eq_ok.mp h
  obtain ⟨⟨_, m₁⟩, h₁, h₂⟩ := bind_eq_ok.mp h₂
  obtain ⟨-, rfl⟩ := Prod.mk.inj (Except.ok.inj h₂)
  obtain ⟨-, rfl⟩ := Prod.mk.inj (Except.ok.inj h)
  rw [run_executeVsetvli h₁]

/-- No other instruction changes it. -/
theorem exec_vlmul (hop : inst.opcode ≠ .vsetvli) (h : exec ops inst m = .ok (b, m')) :
    m'.csr.vtypeVlmul = m.csr.vtypeVlmul := by
  refine exec_invariant (I := fun t => t.csr.vtypeVlmul = m.csr.vtypeVlmul)
    (fun a t r t' ha ht hI => ?_) h rfl
  cases a
  case setVlmul lmul => exact absurd (ha.setting rfl) hop
  case readX | readF | readV | writeX | writeF | writeV | load | store | tryLoad =>
    obtain ⟨x, -, ht⟩ := bind_eq_ok.mp ht
    obtain ⟨-, rfl⟩ := Prod.mk.inj (Except.ok.inj ht)
    exact hI
  all_goals
    obtain ⟨-, rfl⟩ := Prod.mk.inj (Except.ok.inj ht)
    exact hI

end Machine

/-- The last `vsetvli` of a list of lines. -/
def lastVsetvli (lines : List SourceLine) : Option SourceLine :=
  lines.reverse.find? SourceLine.isVsetvli

theorem lastVsetvli_concat (lines : List SourceLine) (line : SourceLine) :
    lastVsetvli (lines ++ [line]) = if line.isVsetvli then some line else lastVsetvli lines := by
  unfold lastVsetvli
  rw [List.reverse_append, List.reverse_singleton, List.singleton_append, List.find?_cons]
  cases line.isVsetvli <;> rfl

theorem isVsetvli_of_last {lines : List SourceLine} {line : SourceLine}
    (h : lastVsetvli lines = some line) : line.inst.opcode = .vsetvli :=
  SourceLine.isVsetvli_iff.mp (List.find?_some h)

namespace RegisterUnit

variable {u u' : RegisterUnit} {key : Int} {req : RequestInfo}

theorem cvtVlmulStatus_destRename {c : RegClass} {name r : Int} {double : Bool}
    (h : u.destRename c key name double = .ok (r, u')) :
    u'.cvtVlmulStatus = u.cvtVlmulStatus := by
  have hset (p : Pool Int Int Int) : (u.setPool c p).cvtVlmulStatus = u.cvtVlmulStatus := by
    cases c <;> rfl
  obtain ⟨-, rfl⟩ | ⟨-, -, rest, -, rfl⟩ | ⟨-, -, partner, rest, -, rfl⟩ := destRename_cases h
  · rfl
  · exact hset _
  · exact hset _

theorem cvtVlmulStatus_convertInst {inst renamed : NdpInstruction}
    (h : u.convertInst key inst = .ok (renamed, u')) :
    u'.cvtVlmulStatus = (u.noteVlmul inst).cvtVlmulStatus :=
  runSteps_invariant (P := fun w => w.cvtVlmulStatus = (u.noteVlmul inst).cvtVlmulStatus)
    (fun _ hd hw => (cvtVlmulStatus_destRename hd).trans hw) h rfl

/-- The multiplier `Convert` has after some lines: that of the last `vsetvli` among them. -/
def statusAfter (lines : List SourceLine) (start : Int) : Int :=
  match lastVsetvli lines with
  | some line => toInt (line.inst.src 2)
  | none => start

theorem statusAfter_concat (lines : List SourceLine) (line : SourceLine) (start : Int)
    (hu : u.cvtVlmulStatus = statusAfter lines start) :
    (u.noteVlmul line.inst).cvtVlmulStatus = statusAfter (lines ++ [line]) start := by
  unfold statusAfter
  rw [lastVsetvli_concat]
  by_cases hv : line.inst.opcode = .vsetvli
  · rw [noteVlmul, if_pos hv, if_pos (SourceLine.isVsetvli_iff.mpr hv)]
  · rw [noteVlmul, if_neg hv, if_neg (mt SourceLine.isVsetvli_iff.mp hv)]
    exact hu

theorem cvtVlmulStatus_convertInsts {lines : List SourceLine} :
    ∀ {u' : RegisterUnit} {out},
      u.convertInsts key (lines.map SourceLine.inst) = .ok (out, u') →
      u'.cvtVlmulStatus = statusAfter lines u.cvtVlmulStatus := by
  induction lines using List.reverseRecOn with
  | nil =>
    intro u' out h
    obtain ⟨-, rfl⟩ := Prod.mk.inj (Except.ok.inj h)
    rfl
  | append_singleton lines line ih =>
    intro u' out h
    rw [List.map_append, List.map_singleton] at h
    obtain ⟨out₁, renamed, out₂, w, w', hpre, hinst, hpost, rfl⟩ := convertInsts_split h
    obtain ⟨-, rfl⟩ := Prod.mk.inj (Except.ok.inj hpost)
    rw [cvtVlmulStatus_convertInst hinst]
    exact statusAfter_concat lines line _ (ih hpre)

end RegisterUnit

namespace UsedRegs

/-- `count_required_regs` never changes its multiplier: `vsetvli` is no vector operation. -/
theorem vmul_add (a : UsedRegs) (inst : NdpInstruction) : (a.add inst).vmul = a.vmul := by
  unfold add
  split
  · split
    · rfl
    · split <;> rfl
  case isFalse hs =>
    split
    case isTrue hv => exact absurd (by rw [hv]; decide) hs
    case isFalse =>
      split
      · rfl
      · split <;> rfl

theorem vmul_foldl (insts : List NdpInstruction) (a : UsedRegs) :
    (insts.foldl add a).vmul = a.vmul := by
  induction insts generalizing a with
  | nil => rfl
  | cons inst insts ih => rw [List.foldl_cons, ih, vmul_add]

end UsedRegs

/-! ## Runs -/

/-- After `n` iterations the instruction at `k` is executed, and `m'` is the machine then. -/
def Machine.Executes [FloatOps] {ρ : Type} (ops : FileOps ρ) (insts : List NdpInstruction)
    (loopMap : LoopMap) (start : Machine ρ) (n k : Nat) (m' : Machine ρ) : Prop :=
  ∃ m inst b, executeInstsArray ops insts loopMap n 0 start = .ok ((k : Int), m) ∧
    insts[k]? = some inst ∧ exec ops inst m = .ok (b, m')

/-- The lines at some indices. -/
def linesAt (code : List SourceLine) (is : List Int) : List SourceLine :=
  is.filterMap fun i => code[i.toNat]?

section Runs

variable [FloatOps] (code : List SourceLine) (u : RegisterUnit) (key : Int) (req : RequestInfo)
  (out : List NdpInstruction) (ndpId : Int) (loopMap : LoopMap) (start : Machine RegisterUnit)

/-- The last `vsetvli` executed up to the `n`-th iteration, that one included. -/
def lastExecuted (n : Nat) : Option SourceLine :=
  lastVsetvli (linesAt code
    (Machine.indices (RegisterUnit.fileOps ndpId req) out loopMap (n + 1) 0 start))

/-- The multiplier written in `last` is the one in the settings, the one with which `Convert`
renamed the instruction at `k`, and the one with which its destination was counted. -/
structure LmulAgreesAt (k : Nat) (csr : CSR) (last : SourceLine) : Prop where
  execute : csr.vtypeVlmul = last.writtenLmul
  convert : ∀ line out₁ w, code[k]? = some line →
    u.convert ((code.take k).map SourceLine.inst) key req = .ok (out₁, w) →
    vlmulOf (w.noteVlmul line.inst).cvtVlmulStatus = some last.writtenLmul
  count : (((code.take k).map SourceLine.inst).foldl UsedRegs.add {}).vmul * 8 =
    last.writtenLmul.eighths

/-- At every executed instruction of the renamed section `out`, the last executed `vsetvli` and
its three readers agree. -/
def LmulAgrees : Prop :=
  ∀ n k m, Machine.Executes (RegisterUnit.fileOps ndpId req) out loopMap start n k m →
    ∀ last, lastExecuted code req out ndpId loopMap start n = some last →
      LmulAgreesAt code u key req k m.csr last

/-- From the first executed `vsetvli` on, every executed `vsetvli` names `m1`, and above every
executed instruction the nearest `vsetvli` of the text holds `m1` in its multiplier field. -/
def OnlyM1 : Prop :=
  ∀ n k m, Machine.Executes (RegisterUnit.fileOps ndpId req) out loopMap start n k m →
    (lastExecuted code req out ndpId loopMap start n).isSome →
      (∀ line, code[k]? = some line → line.isVsetvli → line.writtenLmul = .m1) ∧
      ∀ line, lastVsetvli (code.take (k + 1)) = some line → line.SlotM1

end Runs

section Agreement

variable {code : List SourceLine} {u u' : RegisterUnit} {key : Int} {req : RequestInfo}
  {out : List NdpInstruction} {k : Nat} {line : SourceLine}

theorem Vlmul.eighths_eq_eight {l : Vlmul} : 8 = l.eighths ↔ l = .m1 := by
  cases l <;> decide

theorem statusAfter_eq_m1 (lines : List SourceLine) :
    RegisterUnit.statusAfter lines immM1 = immM1 ↔
      ∀ line, lastVsetvli lines = some line → line.SlotM1 := by
  unfold RegisterUnit.statusAfter
  cases h : lastVsetvli lines with
  | none => simp
  | some line =>
    have hop := isVsetvli_of_last h
    simp only [Option.some_inj, forall_eq']
    rw [line.toInt_lmul hop, line.lmul_eq_m1 hop]

theorem take_succ_of_getElem? (hline : code[k]? = some line) :
    code.take (k + 1) = code.take k ++ [line] := by
  rw [List.take_add_one, hline, Option.toList_some]

/-- The multiplier with which `Convert` renames the instruction at `k`. -/
theorem cvtVlmulStatus_at {out₁ : List NdpInstruction} {w : RegisterUnit}
    (hline : code[k]? = some line)
    (h : u.convert ((code.take k).map SourceLine.inst) key req = .ok (out₁, w)) :
    (w.noteVlmul line.inst).cvtVlmulStatus =
      RegisterUnit.statusAfter (code.take (k + 1)) immM1 := by
  obtain ⟨u₁, u₂, -, -, h⟩ := RegisterUnit.convert_eq_ok.mp h
  rw [take_succ_of_getElem? hline]
  exact RegisterUnit.statusAfter_concat _ line _ (RegisterUnit.cvtVlmulStatus_convertInsts h)

/-- An instruction of the renamed section has a line, and a `vsetvli` is not renamed. -/
theorem line_of_renamed (h : u.convert (code.map SourceLine.inst) key req = .ok (out, u'))
    {renamed : NdpInstruction} (hi : out[k]? = some renamed) :
    ∃ line out₁ w, code[k]? = some line ∧
      u.convert ((code.take k).map SourceLine.inst) key req = .ok (out₁, w) ∧
      renamed.opcode = line.inst.opcode ∧
      (line.inst.opcode = .vsetvli → renamed = line.inst) := by
  have hlt : k < code.length := by
    have hlen := RegisterUnit.length_convert h
    obtain ⟨hk, -⟩ := List.getElem?_eq_some_iff.mp hi
    rw [List.length_map] at hlen
    omega
  have hline := List.getElem?_eq_getElem hlt
  have hk : (code.map SourceLine.inst)[k]? = some code[k].inst := by
    rw [List.getElem?_map, hline]
    rfl
  obtain ⟨out₁, w, renamed', w', hpre, hinst, hr⟩ := RegisterUnit.convert_at h hk
  obtain rfl : renamed' = renamed := Option.some_inj.mp (hr.symm.trans hi)
  rw [← List.map_take] at hpre
  refine ⟨code[k], out₁, w, hline, hpre, (RegisterUnit.shape_runSteps hinst).1, fun hop => ?_⟩
  have hsteps : code[k].inst.renameSteps = [] := by
    simp [NdpInstruction.renameSteps, NdpInstruction.scalarSteps, hop, Opcode.checkBranchOp,
      Opcode.branchOps, Opcode.checkSegOp, Opcode.segOps, Opcode.checkVectorOp, Opcode.vectorOps]
  rw [RegisterUnit.convertInst, hsteps] at hinst
  exact (Prod.mk.inj (Except.ok.inj hinst)).1.symm

variable [FloatOps] {ndpId : Int} {loopMap : LoopMap} {start m : Machine RegisterUnit} {n : Nat}
  {last : SourceLine}

theorem lastExecuted_eq (h : Machine.executeInstsArray (RegisterUnit.fileOps ndpId req) out
      loopMap n 0 start = .ok ((k : Int), m)) {renamed : NdpInstruction}
    (hi : out[k]? = some renamed) (hline : code[k]? = some line) :
    lastExecuted code req out ndpId loopMap start n =
      if line.isVsetvli then some line
      else lastVsetvli (linesAt code
        (Machine.indices (RegisterUnit.fileOps ndpId req) out loopMap n 0 start)) := by
  have hone : Machine.indices (RegisterUnit.fileOps ndpId req) out loopMap 1 (k : Int) m =
      [(k : Int)] := by
    rw [Machine.indices, if_neg (by omega), Int.toNat_natCast, hi]
    dsimp only
    split <;> rfl
  rw [lastExecuted, Machine.indices_add h, hone, ← lastVsetvli_concat]
  simp [linesAt, hline]

/-- One executed instruction keeps `m1` in force. -/
theorem lmul_m1_step (h : u.convert (code.map SourceLine.inst) key req = .ok (out, u'))
    (hm1 : OnlyM1 code req out ndpId loopMap start) {renamed : NdpInstruction} {b : Bool}
    {m' : Machine RegisterUnit}
    (hrun : Machine.executeInstsArray (RegisterUnit.fileOps ndpId req) out loopMap n 0 start =
      .ok ((k : Int), m))
    (hi : out[k]? = some renamed)
    (hexec : Machine.exec (RegisterUnit.fileOps ndpId req) renamed m = .ok (b, m'))
    (hprev : ∀ last, lastVsetvli (linesAt code (Machine.indices (RegisterUnit.fileOps ndpId req)
      out loopMap n 0 start)) = some last → last.writtenLmul = .m1 ∧ m.csr.vtypeVlmul = .m1)
    (hlast : lastExecuted code req out ndpId loopMap start n = some last) :
    last.writtenLmul = .m1 ∧ m'.csr.vtypeVlmul = .m1 := by
  obtain ⟨line, out₁, w, hline, -, hop, hsame⟩ := line_of_renamed h hi
  obtain ⟨hwritten, hslot⟩ := hm1 n k m' ⟨m, renamed, b, hrun, hi, hexec⟩ (by rw [hlast]; rfl)
  rw [lastExecuted_eq hrun hi hline] at hlast
  by_cases hv : line.isVsetvli = true
  · rw [if_pos hv] at hlast
    obtain rfl := Option.some_inj.mp hlast
    have hv' := SourceLine.isVsetvli_iff.mp hv
    refine ⟨hwritten _ hline hv, ?_⟩
    have hm1 : line.SlotM1 := by
      refine hslot line ?_
      rw [take_succ_of_getElem? hline, lastVsetvli_concat, if_pos hv]
    have hset := Machine.exec_vsetvli (hop.trans hv') hexec
    rw [hsame hv', (line.lmul_eq_m1 hv').mpr hm1] at hset
    exact (Option.some_inj.mp hset).symm
  · rw [if_neg hv] at hlast
    obtain ⟨hw, hcsr⟩ := hprev last hlast
    refine ⟨hw, ?_⟩
    rw [Machine.exec_vlmul (fun hc => hv (SourceLine.isVsetvli_iff.mpr (hop.symm.trans hc))) hexec]
    exact hcsr

/-- As long as only `m1` is named, `m1` is the multiplier in force. -/
theorem lmul_m1_run (h : u.convert (code.map SourceLine.inst) key req = .ok (out, u'))
    (hm1 : OnlyM1 code req out ndpId loopMap start) :
    ∀ {i : Int} {m : Machine RegisterUnit} {last : SourceLine},
      Machine.executeInstsArray (RegisterUnit.fileOps ndpId req) out loopMap n 0 start =
        .ok (i, m) →
      lastVsetvli (linesAt code (Machine.indices (RegisterUnit.fileOps ndpId req) out loopMap n 0
        start)) = some last →
      last.writtenLmul = .m1 ∧ m.csr.vtypeVlmul = .m1 := by
  induction n with
  | zero =>
    intro i m last _ hlast
    cases hlast
  | succ n ih =>
    intro i m last hrun hlast
    obtain ⟨j, m₁, hn, hone⟩ := Machine.executeInstsArray_last hrun
    by_cases hout : j < 0 ∨ (out.length : Int) ≤ j
    · rw [Machine.executeInstsArray_outside hout] at hone
      obtain ⟨rfl, rfl⟩ := Prod.mk.inj (Except.ok.inj hone)
      rw [Machine.indices_add hn, Machine.indices_outside hout, List.append_nil] at hlast
      exact ih hn hlast
    · obtain ⟨k, rfl⟩ := Int.eq_ofNat_of_zero_le (by omega : 0 ≤ j)
      have hi := List.getElem?_eq_getElem (by omega : k < out.length)
      rw [Machine.executeInstsArray_one hi] at hone
      obtain ⟨⟨b, m₂⟩, hexec, hone⟩ := bind_eq_ok.mp hone
      obtain ⟨i', -, hone⟩ := bind_eq_ok.mp hone
      obtain ⟨-, rfl⟩ := Prod.mk.inj (Except.ok.inj hone)
      exact lmul_m1_step h hm1 hn hi hexec (fun last => ih hn) hlast

/-- The last executed `vsetvli` and its three readers agree at every executed instruction of a
run exactly if the run comes across no multiplier but `m1`. -/
theorem lmul_agrees_iff (h : u.convert (code.map SourceLine.inst) key req = .ok (out, u'))
    (ndpId : Int) (loopMap : LoopMap) (start : Machine RegisterUnit) :
    LmulAgrees code u key req out ndpId loopMap start ↔
      OnlyM1 code req out ndpId loopMap start := by
  constructor
  · intro hall n k m hexec hsome
    obtain ⟨last, hlast⟩ := Option.isSome_iff_exists.mp hsome
    have hat := hall n k m hexec last hlast
    obtain ⟨m₁, renamed, b, hrun, hi, -⟩ := hexec
    obtain ⟨line, out₁, w, hline, hpre, -, -⟩ := line_of_renamed h hi
    have hm1 : last.writtenLmul = .m1 := by
      have hcount := hat.count
      rw [UsedRegs.vmul_foldl] at hcount
      exact Vlmul.eighths_eq_eight.mp hcount
    refine ⟨fun line' hline' hv => ?_, ?_⟩
    · rw [lastExecuted_eq hrun hi hline', if_pos hv] at hlast
      rw [Option.some_inj.mp hlast]
      exact hm1
    · rw [← statusAfter_eq_m1, ← cvtVlmulStatus_at hline hpre, ← vlmulOf_eq_m1, ← hm1]
      exact hat.convert line out₁ w hline hpre
  · intro hm1 n k m hexec last hlast
    obtain ⟨-, hslot⟩ := hm1 n k m hexec (by rw [hlast]; rfl)
    obtain ⟨m₁, renamed, b, hrun, hi, hexec⟩ := hexec
    obtain ⟨hw, hcsr⟩ := lmul_m1_step h hm1 hrun hi hexec (fun last => lmul_m1_run h hm1 hrun)
      hlast
    refine ⟨hcsr.trans hw.symm, fun line out₁ w hline hpre => ?_, ?_⟩
    · rw [hw, vlmulOf_eq_m1, cvtVlmulStatus_at hline hpre, statusAfter_eq_m1]
      exact hslot
    · rw [UsedRegs.vmul_foldl, hw]
      rfl

omit [FloatOps] in
theorem mem_of_lastVsetvli {lines : List SourceLine} (h : lastVsetvli lines = some line) :
    line ∈ lines ∧ line.isVsetvli = true :=
  ⟨List.mem_reverse.mp (List.mem_of_find?_eq_some h), List.find?_some h⟩

/-- A text with no multiplier but `m1`. -/
theorem onlyM1_of_text (hcode : ∀ line ∈ code, line.isVsetvli = true →
      line.writtenLmul = .m1 ∧ line.SlotM1) : OnlyM1 code req out ndpId loopMap start := by
  intro n k m _ _
  refine ⟨fun line hline hv => (hcode line (List.mem_of_getElem? hline) hv).1, fun line hl => ?_⟩
  obtain ⟨hmem, hv⟩ := mem_of_lastVsetvli hl
  exact (hcode line (List.mem_of_mem_take hmem) hv).2

end Agreement

/-- `vsetvli x0, x5, e32, m1` -/
def sampleM1 : SourceLine where
  text := "vsetvli x0, x5, e32, m1".toList
  inst := ⟨.vsetvli, .none, sources [regXBase + 5, immE32, immM1, 0, 0], regX0, fun _ => 0, 0,
    false⟩
  parsed := rfl

/-- `vsetvli x0, x5, e32, m2` -/
def sampleM2 : SourceLine where
  text := "vsetvli x0, x5, e32, m2".toList
  inst := ⟨.vsetvli, .none, sources [regXBase + 5, immE32, immM2, 0, 0], regX0, fun _ => 0, 0,
    false⟩
  parsed := rfl

/-- `add x3, x1, x2` -/
def sampleAdd : SourceLine where
  text := "add x3, x1, x2".toList
  inst := ⟨.add, .none, sources [regXBase + 1, regXBase + 2], regXBase + 3, fun _ => 0, 0, false⟩
  parsed := rfl

def sampleMachine (u : RegisterUnit) : Machine RegisterUnit :=
  ⟨u, ⟨⟨0, 0, none, fun _ => none⟩, ⟨0, 0, none, fun _ => none⟩⟩, {}⟩

theorem lmul_agrees_m1 : letI := FloatOps.zero
    ∃ out u', (RegisterUnit.create 3 0 0).convert [sampleM1.inst, sampleAdd.inst] 7
        RegisterUnit.sampleRequest = .ok (out, u') ∧
      LmulAgrees [sampleM1, sampleAdd] (RegisterUnit.create 3 0 0) 7 RegisterUnit.sampleRequest
        out 0 ∅ (sampleMachine u') := by
  let _ := FloatOps.zero
  obtain ⟨out, u', h⟩ : ∃ out u', (RegisterUnit.create 3 0 0).convert
      [sampleM1.inst, sampleAdd.inst] 7 RegisterUnit.sampleRequest = .ok (out, u') := ⟨_, _, rfl⟩
  refine ⟨out, u', h, (lmul_agrees_iff h 0 ∅ (sampleMachine u')).mpr ?_⟩
  exact onlyM1_of_text (by decide)

/-- The `add` behind `vsetvli x0, x5, e32, m2` is executed and renamed with two registers, but
its destination is counted with one. -/
theorem lmul_disagrees_m2 : letI := FloatOps.zero
    ∃ out u', (RegisterUnit.create 3 0 0).convert [sampleM2.inst, sampleAdd.inst] 7
        RegisterUnit.sampleRequest = .ok (out, u') ∧
      ¬ LmulAgrees [sampleM2, sampleAdd] (RegisterUnit.create 3 0 0) 7 RegisterUnit.sampleRequest
        out 0 ∅ (sampleMachine u') := by
  let _ := FloatOps.zero
  obtain ⟨u', h⟩ : ∃ u', (RegisterUnit.create 3 0 0).convert [sampleM2.inst, sampleAdd.inst] 7
      RegisterUnit.sampleRequest = .ok ([sampleM2.inst,
        ((sampleAdd.inst.setSrc 0 regPXBase).setSrc 1 (regPXBase + 1)).setDest (regPXBase + 2)],
        u') := ⟨_, rfl⟩
  have hn : u'.numXregs = 3 := congrFun (RegisterUnit.numRegs_convert h) .x
  refine ⟨_, u', h, fun hall => ?_⟩
  obtain ⟨nx, nf, nv, xs, fs, vs, dv, cvt, xt, ft, vt, after, notReady⟩ := u'
  obtain rfl : nx = 3 := hn
  have hat := hall 1 1 _ ⟨_, _, _, rfl, rfl, rfl⟩ sampleM2 rfl
  have hcount := hat.count
  rw [UsedRegs.vmul_foldl] at hcount
  exact absurd hcount (by decide)

end NdpSim
