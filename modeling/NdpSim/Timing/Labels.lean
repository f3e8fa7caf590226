import NdpSim.Parser.Kernel
import NdpSim.Register.Substitution
import NdpSim.Timing.ControlFlow

/-!
# Where a branch leads

The labels of all sections of a kernel share one map, a loop label `n + 100` and a skip label `n`
share a number in it, and its entries count instructions from the last heading. A taken branch
finds its own label as long as the last label with that number, anywhere in the file, agrees with
it.
-/
namespace NdpSim

open Library Text

/-! ## The text of a branch -/

/-- The operand of a branch that names its label. -/
def branchToken (line : Text) : Option Text :=
  let (opcode, dest, src) := splitLine line
  let (_, op, operandType) := parseOpcode opcode
  if operandType ≠ .none then none
  else if op = .j then some dest
  else if op ∈ [Opcode.beq, .bgt, .blt, .bne, .ble, .bge] then some (after ',' src)
  else if op ∈ [Opcode.beqz, .bgtz, .bltz, .bnez, .blez, .bgez] then some (before ',' src)
  else none

/-- Line `q` is a branch to the label `l`. -/
def BranchAt (lines : List Text) (q : Nat) (l : Label) : Prop :=
  ∃ line token, lines[q]? = some line ∧ lineKind line = .instruction ∧
    branchToken line = some token ∧ Label.ofText token = some l

theorem key_of_parseLabel {token : Text} {l : Label} {key : Int}
    (h : Label.ofText token = some l) (hkey : parseLabel token = .ok key) : key = l.key := by
  unfold Label.ofText labelText at h
  unfold parseLabel at hkey
  split at h
  case h_2 => cases h
  case h_1 skip digits ht =>
    cases hn : stoi digits with
    | error f =>
      rw [hn] at h
      cases h
    | ok n =>
      rw [hn] at h
      obtain rfl := Option.some_inj.mp h
      split at ht
      case isTrue hloop =>
        obtain ⟨rfl, rfl⟩ : false = skip ∧ token.drop 5 = digits := by simpa using ht
        rw [if_pos hloop, hn] at hkey
        exact (Except.ok.inj hkey).symm
      case isFalse hloop =>
        split at ht
        case isFalse => cases ht
        case isTrue hskip =>
          obtain ⟨rfl, rfl⟩ : true = skip ∧ token.drop 5 = digits := by simpa using ht
          rw [if_neg hloop, if_pos hskip, hn] at hkey
          exact (ofSum_eq_ok.mp hkey).2

theorem opcode_of_parse {line : Text} {inst : NdpInstruction}
    (h : parseNdpInstruction line = .ok inst) :
    (parseOpcode (splitLine line).1).2 = (inst.opcode, inst.operandType) := by
  by_cases he : inst.opcode = .exit
  · simp only [parseNdpInstruction] at h
    split at h
    · cases h
    split at h
    case isTrue =>
      obtain rfl := Except.ok.inj h
      rfl
    case isFalse hne =>
      obtain ⟨r, -, h⟩ := bind_eq_ok.mp h
      obtain ⟨rs, -, h⟩ := bind_eq_ok.mp h
      obtain ⟨seg, -, h⟩ := bind_eq_ok.mp h
      obtain rfl := Except.ok.inj h
      rfl
  · exact (parsedAs_of_parse h he).opcode

theorem parseSources_compare {op : Opcode} (h : op ∈ [Opcode.beq, .bgt, .blt, .bne, .ble, .bge])
    (dest src : Text) :
    parseSources op .none dest src = (do
      let label ← parseLabel (after ',' src)
      return [← getRegValue dest, ← getRegValue (before ',' src), label]) := by
  simp only [List.mem_cons, List.not_mem_nil, or_false] at h
  rcases h with rfl | rfl | rfl | rfl | rfl | rfl <;> rfl

theorem parseSources_zero {op : Opcode}
    (h : op ∈ [Opcode.beqz, .bgtz, .bltz, .bnez, .blez, .bgez]) (dest src : Text) :
    parseSources op .none dest src = (do
      let label ← parseLabel (before ',' src)
      return [← getRegValue dest, -1, label]) := by
  simp only [List.mem_cons, List.not_mem_nil, or_false] at h
  rcases h with rfl | rfl | rfl | rfl | rfl | rfl <;> rfl

/-- The third source of a branch is the number of its label. -/
theorem src_two_of_branch {line token : Text} {op : Opcode} {rs : List Int}
    (hop : (parseOpcode (splitLine line).1).2 = (op, .none))
    (htoken : branchToken line = some token)
    (hrs : parseSources op .none (splitLine line).2.1 (splitLine line).2.2 = .ok rs) :
    op.checkBranchOp = true ∧ parseLabel token = .ok (sources rs 2) := by
  simp only [branchToken, hop, ne_eq, not_true_eq_false, if_false] at htoken
  split at htoken
  case isTrue hj =>
    subst hj
    obtain rfl := Option.some_inj.mp htoken
    have hj : parseSources .j .none (splitLine line).2.1 (splitLine line).2.2 =
        (do return [-1, -1, ← parseLabel (splitLine line).2.1]) := rfl
    rw [hj] at hrs
    obtain ⟨label, hlabel, hrs⟩ := bind_eq_ok.mp hrs
    obtain rfl := Except.ok.inj hrs
    exact ⟨rfl, hlabel⟩
  split at htoken
  case isTrue hmem =>
    obtain rfl := Option.some_inj.mp htoken
    rw [parseSources_compare hmem] at hrs
    obtain ⟨label, hlabel, hrs⟩ := bind_eq_ok.mp hrs
    obtain ⟨r, -, hrs⟩ := bind_eq_ok.mp hrs
    obtain ⟨r', -, hrs⟩ := bind_eq_ok.mp hrs
    obtain rfl := Except.ok.inj hrs
    refine ⟨?_, hlabel⟩
    simp only [List.mem_cons, List.not_mem_nil, or_false] at hmem
    rcases hmem with rfl | rfl | rfl | rfl | rfl | rfl <;> rfl
  split at htoken
  case isTrue hmem =>
    obtain rfl := Option.some_inj.mp htoken
    rw [parseSources_zero hmem] at hrs
    obtain ⟨label, hlabel, hrs⟩ := bind_eq_ok.mp hrs
    obtain ⟨r, -, hrs⟩ := bind_eq_ok.mp hrs
    obtain rfl := Except.ok.inj hrs
    refine ⟨?_, hlabel⟩
    simp only [List.mem_cons, List.not_mem_nil, or_false] at hmem
    rcases hmem with rfl | rfl | rfl | rfl | rfl | rfl <;> rfl
  case isFalse => cases htoken

/-- A branch carries the number of its label. -/
theorem branch_parsed {line token : Text} {l : Label} {inst : NdpInstruction}
    (hparse : parseNdpInstruction line = .ok inst) (htoken : branchToken line = some token)
    (hl : Label.ofText token = some l) :
    inst.opcode.checkBranchOp = true ∧ inst.src 2 = l.key := by
  have hop := opcode_of_parse hparse
  have htype : inst.operandType = .none := by
    by_contra hne
    simp [branchToken, hop, hne] at htoken
  have hexit : inst.opcode ≠ .exit := by
    intro he
    simp [branchToken, hop, htype, he] at htoken
  obtain ⟨rs, hrs, hsrc⟩ := (parsedAs_of_parse hparse hexit).src
  rw [htype] at hop hrs
  rw [hsrc]
  obtain ⟨hb, hkey⟩ := src_two_of_branch hop htoken hrs
  exact ⟨hb, key_of_parseLabel hl hkey⟩

/-! ## The two models at a taken branch -/

/-- Both models go on at `target` when the branch at index `i` is taken: the functional loop and
the column, once the integer unit resolves the branch. -/
def ContinuesAt (loopMap : LoopMap) (i : Nat) (inst : NdpInstruction) (target : Int) : Prop :=
  Machine.nextIndex loopMap i (Machine.isBranch inst true) = .ok target ∧
  ∀ (col : ColumnInfo) (s : Pipeline) (lastInst : Bool), col.loopMap = loopMap →
    s.resolved col ⟨inst, true, lastInst⟩ = some target

/-- With a label number that is none of a fall-through, both models look the label up. -/
theorem continuesAt_iff {loopMap : LoopMap} {i : Nat} {inst : NdpInstruction} {target : Int}
    (hb : inst.opcode.checkBranchOp = true) (hl : 0 ≤ inst.src 2) (hu : inst.src 2 < 2 ^ 31) :
    ContinuesAt loopMap i inst target ↔ loopMap.lookup (inst.src 2) = some target := by
  have hkey : Machine.isBranch inst true = inst.src 2 := by
    rw [Machine.isBranch, hb, Bool.and_self, if_pos rfl, toInt_of_range (by omega) (by omega)]
  have hne : inst.src 2 ≠ -1 := by omega
  constructor
  · rintro ⟨hloop, -⟩
    rw [hkey, Machine.nextIndex, if_pos hl] at hloop
    cases h : loopMap.lookup (inst.src 2) with
    | none => simp [h] at hloop
    | some j =>
      rw [h] at hloop
      exact congrArg some (Except.ok.inj hloop)
  · intro h
    constructor
    · rw [hkey, Machine.nextIndex, if_pos hl, h]
    · rintro col s lastInst rfl
      rw [Pipeline.resolved, hkey, if_pos hne, h]

/-- The instruction as a register unit renames it for some packet. -/
def RenamedTo (inst renamed : NdpInstruction) : Prop :=
  ∃ u key u', RegisterUnit.convertInst u key inst = .ok (renamed, u')

/-- Renaming keeps the label of a branch. -/
theorem RenamedTo.label {inst renamed : NdpInstruction} (h : RenamedTo inst renamed)
    (hb : inst.opcode.checkBranchOp = true) :
    renamed.opcode = inst.opcode ∧ renamed.src 2 = inst.src 2 := by
  obtain ⟨u, key, u', h⟩ := h
  refine ⟨(RegisterUnit.shape_runSteps h).1, ?_⟩
  refine RegisterUnit.runSteps_other (s := .src 2) h fun st hst c ht => ?_
  rw [NdpInstruction.renameSteps, if_pos hb, NdpInstruction.branchSteps] at hst
  split at hst
  · cases hst
  · obtain rfl | hst := List.mem_cons.mp hst
    · simp [RenameStep.target] at ht
    · split at hst
      · obtain rfl := List.mem_singleton.mp hst
        simp [RenameStep.target] at ht
      · cases hst

/-- Some register unit renames a branch. -/
theorem exists_renamed {inst : NdpInstruction} (hb : inst.opcode.checkBranchOp = true) :
    ∃ renamed, RenamedTo inst renamed := by
  let u := ((RegisterUnit.create 1 0 0).bind .x 0 (toInt (inst.src 0)) regPXBase).bind .x 0
    (toInt (inst.src 1)) regPXBase
  have hlook {w : RegisterUnit} (hw : w.pool .x = u.pool .x) {i : Fin 5} (hi : i = 0 ∨ i = 1) :
      w.lookUp .x 0 (inst.src i) = .ok regPXBase := by
    have hfind : (w.pool .x).find? 0 (toInt (inst.src i)) = some regPXBase := by
      rw [hw]
      rcases hi with rfl | rfl <;> simp [u, RegisterUnit.bind, Pool.find?_bind]
    rw [RegisterUnit.lookUp, hfind]
  have hnote : (u.noteVlmul inst).pool .x = u.pool .x := RegisterUnit.pool_noteVlmul u inst .x
  suffices hok : ∃ r, u.convertInst 0 inst = .ok r by
    obtain ⟨⟨renamed, u'⟩, h⟩ := hok
    exact ⟨renamed, u, 0, u', h⟩
  rw [RegisterUnit.convertInst, NdpInstruction.renameSteps, if_pos hb, NdpInstruction.branchSteps]
  split
  · exact ⟨_, rfl⟩
  have hstep (renamed : NdpInstruction) {i : Fin 5} (hi : i = 0 ∨ i = 1) :
      (u.noteVlmul inst).runStep 0 inst renamed (.lookUp .x i) =
        .ok (renamed.setSrc i regPXBase, u.noteVlmul inst) :=
    bind_eq_ok.mpr ⟨_, hlook hnote hi, rfl⟩
  split
  · exact ⟨_, bind_eq_ok.mpr ⟨_, hstep inst (.inl rfl),
      bind_eq_ok.mpr ⟨_, hstep _ (.inr rfl), rfl⟩⟩⟩
  · exact ⟨_, bind_eq_ok.mpr ⟨_, hstep inst (.inl rfl), rfl⟩⟩

/-- Every label of a section that a branch of the section uses is where the taken branch
continues. -/
def LabelsResolve (lines : List Text) (t : KernelTrace) : Prop :=
  ∀ S l p q, 0 ≤ l.number → LabelAt lines p l → sectionOf (lines.take p) = S →
    BranchAt lines q l → sectionOf (lines.take q) = S →
    ∀ inst renamed, (t.insts S)[indexOfLine lines S q]? = some inst → RenamedTo inst renamed →
      ContinuesAt t.loopMap (indexOfLine lines S q) renamed (indexOfLine lines S p)

/-- For every such label the last label line of the file with the same number stands as many
instructions behind its heading as the label stands behind the start of its section. -/
def LabelsAgree (lines : List Text) : Prop :=
  ∀ S l p q, 0 ≤ l.number → LabelAt lines p l → sectionOf (lines.take p) = S →
    BranchAt lines q l → sectionOf (lines.take q) = S →
    ∀ r, LastLabel lines l.key r → offset (lines.take r) = indexOfLine lines S p

theorem exists_lastLabel {lines : List Text} {p : Nat} {l : Label} (h : LabelAt lines p l) :
    ∃ r, LastLabel lines l.key r := by
  classical
  let P := fun r => ∃ l', LabelAt lines r l' ∧ l'.key = l.key
  have hp : P p := ⟨l, h, rfl⟩
  refine ⟨Nat.findGreatest P lines.length, Nat.findGreatest_spec h.lt.le hp, ?_⟩
  intro r l' hr hl' hkey
  exact Nat.findGreatest_is_greatest hr hl'.lt.le ⟨l', hl', hkey⟩

theorem labels_resolve_iff {file : List Text} {t : KernelTrace}
    (h : parseNdpKernel file = .ok t) :
    LabelsResolve (kernelLines file) t ↔ LabelsAgree (kernelLines file) := by
  have ht := tracks_of_parse h
  -- what a branch finds is what the last label with its number has put into the map
  have hbranch {S : KernelSection} {l : Label} {p q r : Nat} (hn : 0 ≤ l.number)
      (hp : LabelAt (kernelLines file) p l) (hq : BranchAt (kernelLines file) q l)
      (hS : sectionOf ((kernelLines file).take q) = S)
      (hr : LastLabel (kernelLines file) l.key r) :
      ∃ inst, (t.insts S)[indexOfLine (kernelLines file) S q]? = some inst ∧
        inst.opcode.checkBranchOp = true ∧ ∀ renamed, RenamedTo inst renamed →
          ∀ target : Nat, ContinuesAt t.loopMap (indexOfLine (kernelLines file) S q) renamed
            target ↔ offset ((kernelLines file).take r) = target := by
    obtain ⟨line, token, hline, hkind, htoken, hl⟩ := hq
    obtain ⟨inst, hparse, hget⟩ := ht.content q line hline (by simp [isInstruction, hkind])
    rw [hS] at hget
    obtain ⟨hb, hsrc⟩ := branch_parsed hparse htoken hl
    refine ⟨inst, hget, hb, fun renamed hren target => ?_⟩
    obtain ⟨hop, hsrc'⟩ := hren.label hb
    have hkey : 0 ≤ l.key := by
      unfold Label.key skipLabel
      split <;> omega
    rw [continuesAt_iff (by rw [hop, hb]) (by rwa [hsrc', hsrc])
      (by rw [hsrc', hsrc]; exact ht.bounded p l hp), hsrc', hsrc, ht.labels _ r hr]
    simp
  constructor
  · intro hres S l p q hn hp hSp hq hSq r hr
    obtain ⟨inst, hget, hb, hiff⟩ := hbranch hn hp hq hSq hr
    obtain ⟨renamed, hren⟩ := exists_renamed hb
    exact (hiff renamed hren _).mp (hres S l p q hn hp hSp hq hSq inst renamed hget hren)
  · intro hag S l p q hn hp hSp hq hSq inst renamed hget hren
    obtain ⟨r, hr⟩ := exists_lastLabel hp
    obtain ⟨inst', hget', hb, hiff⟩ := hbranch hn hp hq hSq hr
    obtain rfl := Option.some_inj.mp (hget.symm.trans hget')
    exact (hiff renamed hren _).mpr (hag S l p q hn hp hSp hq hSq r hr)

/-- A body that counts down to zero. -/
def loopFile : List Text :=
  ["-kernel name = countdown", "-kernel id = 1", "", "KERNELBODY:", "li x3, 2", ".LOOP0",
    "addi x3, x3, -1", "bnez x3, .LOOP0"].map String.toList

theorem labels_resolve_loop :
    ∃ t, parseNdpKernel loopFile = .ok t ∧ LabelsResolve (kernelLines loopFile) t := by
  obtain ⟨t, h⟩ : ∃ t, parseNdpKernel loopFile = .ok t := ⟨_, rfl⟩
  refine ⟨t, h, (labels_resolve_iff h).mpr ?_⟩
  have hone {p : Nat} {l : Label} (hl : LabelAt (kernelLines loopFile) p l) : p = 2 := by
    have hlt : p < 5 := hl.lt
    obtain ⟨line, skip, digits, hline, hkind, -⟩ := hl
    have hctor : (lineKind line).ctorIdx = 2 := congrArg LineKind.ctorIdx hkind
    interval_cases p
    all_goals obtain rfl := Option.some_inj.mp hline
    all_goals first
      | rfl
      | exact absurd hctor (by decide)
  rintro S l p q - hp rfl - - r ⟨⟨l', hr, -⟩, -⟩
  obtain rfl := hone hp
  obtain rfl := hone hr
  rfl

/-- An initializer and a body that both use `.LOOP0`. -/
def shadowedFile : List Text :=
  ["-kernel name = shadowed", "-kernel id = 1", "", "INITIALIZER:", ".LOOP0", "j .LOOP0",
    "KERNELBODY:", "li x3, 2", ".LOOP0", "addi x3, x3, -1", "bnez x3, .LOOP0"].map String.toList

/-- The label of the body hides the one of the initializer, whose jump leaves its section. -/
theorem labels_shadowed :
    ∃ t, parseNdpKernel shadowedFile = .ok t ∧ ¬ LabelsResolve (kernelLines shadowedFile) t := by
  obtain ⟨t, inst, h, hmap, hinst, hb, hsrc⟩ : ∃ t inst, parseNdpKernel shadowedFile = .ok t ∧
      t.loopMap.lookup 0 = some 1 ∧ (t.insts .initializer)[0]? = some inst ∧
      inst.opcode.checkBranchOp = true ∧ inst.src 2 = 0 := ⟨_, _, rfl, rfl, rfl, rfl, rfl⟩
  refine ⟨t, h, fun hres => ?_⟩
  obtain ⟨renamed, hren⟩ := exists_renamed hb
  have hcont := hres .initializer ⟨false, 0⟩ 1 2 le_rfl
    ⟨".LOOP0".toList, false, "0".toList, rfl, rfl, rfl⟩ rfl
    ⟨"j .LOOP0".toList, ".LOOP0".toList, rfl, rfl, rfl, rfl⟩ rfl inst renamed hinst hren
  obtain ⟨hop, hsrc'⟩ := hren.label hb
  rw [continuesAt_iff (by rw [hop, hb]) (by omega) (by omega), hsrc', hsrc, hmap] at hcont
  exact absurd (Option.some_inj.mp hcont) (by decide)

end NdpSim
