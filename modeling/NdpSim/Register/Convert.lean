import NdpSim.Register.Unit

/-!
# Renaming a column

`Convert` rewrites the register operands of a section for one packet. Which operands of an
instruction are renamed, in which order and in which class, depends only on its opcode and
operand type, so it is given as a list of renaming steps; running the list allocates.
-/
namespace NdpSim

open Library

/-- One assignment of `Convert` to the renamed copy of an instruction. -/
inductive RenameStep
  /-- `renamed.src[i] = LookUp(key, inst.src[i])` -/
  | lookUp (c : RegClass) (i : Fin 5)
  /-- The same for a vector operand, only if the packet already has it. -/
  | lookUpIfExist (i : Fin 5)
  /-- `renamed.dest = LookUp(key, inst.dest)` -/
  | lookUpDest (c : RegClass)
  /-- `renamed.dest = -1` -/
  | noDest
  | destRenameX
  | destRenameF
  /-- The pairing rule looks at the original or at the partly renamed instruction. -/
  | destRenameV (fromRenamed : Bool)
  | destRenameSegV (index : Nat)
  deriving DecidableEq

namespace NdpInstruction

open RenameStep RegClass

def branchSteps (inst : NdpInstruction) : List RenameStep :=
  if inst.opcode = .j then []
  else
    lookUp x 0 ::
      if inst.opcode ∈ [Opcode.beq, .bgt, .blt, .bne, .ble, .bge] then [lookUp x 1] else []

def segSteps (inst : NdpInstruction) : List RenameStep :=
  match inst.operandType with
  | .v =>
    [lookUp x 0, lookUp v 1, destRenameV true] ++
      (List.range inst.segCnt.toNat).map destRenameSegV
  | _ => []

/-- Operand type `V`: unary operations and every vector access to memory. -/
def vectorVSteps (inst : NdpInstruction) : List RenameStep :=
  if inst.opcode = .vfsqrt then [destRenameV false, lookUp v 0, lookUp v 1]
  else if inst.opcode = .vid ∨ inst.opcode = .vfexp then [lookUp v 0, destRenameV false]
  else
    lookUp x 0 ::
      if inst.opcode ∈ [Opcode.vse8, .vse16, .vse32, .vse64] then [lookUpDest v]
      else if inst.opcode ∈ [Opcode.vle8, .vle16, .vle32, .vle64] then [destRenameV false]
      else if inst.opcode ∈ [Opcode.vluxei32, .vluxei64] then
        [destRenameV false, lookUp v 2] ++ if inst.src 3 ≠ -1 then [lookUp v 3] else []
      else if inst.opcode ∈ [Opcode.vsuxei32, .vsuxei64] then
        [lookUp x 0, lookUpDest v, lookUp v 2, lookUp v 3]
      else if inst.opcode.checkAmoOp then
        (if regVBase ≤ inst.dest ∧ inst.dest < regPXBase then lookUpDest v else noDest) ::
          [lookUp x 0, lookUp v 1, lookUp v 2] ++ if inst.src 3 ≠ -1 then [lookUp v 3] else []
      else [lookUp v 1, lookUp v 2]

def vectorSteps (inst : NdpInstruction) : List RenameStep :=
  match inst.operandType with
  | .m =>
    if inst.opcode = .vmset then [destRenameV false]
    else if inst.opcode = .vfirst then [destRenameX, lookUp v 0]
    else []
  | .x_s => [destRenameX, lookUp v 0]
  | .v => inst.vectorVSteps
  | .wv | .vv | .vs | .vm | .mm => [lookUp v 0, lookUp v 1, lookUpIfExist 2, destRenameV false]
  | .vi | .v_v | .xu_f_v | .x_f_v | .f_xu_v | .f_x_v | .f_f_v | .f_f_w =>
    [lookUp v 0, destRenameV true]
  | .v_i => (if inst.src 1 ≠ -1 then [lookUp v 1] else []) ++ [destRenameV true]
  | .v_x | .s_x =>
    lookUp x 0 :: (if inst.src 1 ≠ -1 then [lookUp v 1] else []) ++ [destRenameV true]
  | .vx | .wx => [lookUp v 0, lookUp x 1, destRenameV true]
  | .vf =>
    if inst.opcode = .vfmsub then [lookUp f 0, lookUp v 1, destRenameV true]
    else [lookUp v 0, lookUp f 1, destRenameV true]
  | .s_f | .v_f => [lookUp f 0, destRenameV true]
  | .f_s => [lookUp v 0, destRenameF]
  | _ => []

def scalarSteps (inst : NdpInstruction) : List RenameStep :=
  match inst.opcode with
  | .add | .sub | .mul | .div | .rem | .and | .sll | .srl | .or =>
    [lookUp x 0, lookUp x 1, destRenameX]
  | .addi | .muli | .andi | .slli | .srli | .ori => [lookUp x 0, destRenameX]
  | .li => [destRenameX]
  | .lbu | .lb | .lw | .ld => [lookUp x 0, destRenameX]
  | .sb | .sw | .sd => [lookUp x 0, lookUpDest x]
  | .amoadd | .amomax => [destRenameX, lookUp x 1, lookUp x 2]
  | .famoadd | .famoaddh | .famomax => [destRenameF, lookUp f 1, lookUp x 2]
  | .csrw => [lookUp x 0]
  | .fadd | .fsub | .fdiv | .fmul => [lookUp f 0, lookUp f 1, destRenameF]
  | .flw => [lookUp x 0, destRenameF]
  | .fsw => [lookUp x 0, lookUpDest f]
  | .fmv =>
    if inst.operandType = .x_w then [lookUp f 0, destRenameX]
    else if inst.operandType = .w_x then [lookUp x 0, destRenameF]
    else []
  | .fexp => [lookUp f 0, destRenameF]
  | _ => []

/-- Every renaming `Convert` performs on an instruction, in order. -/
def renameSteps (inst : NdpInstruction) : List RenameStep :=
  if inst.opcode.checkBranchOp then inst.branchSteps
  else if inst.opcode.checkSegOp then inst.segSteps
  else if inst.opcode.checkVectorOp then inst.vectorSteps
  else inst.scalarSteps

/-! ## The lists of steps -/

/-- The steps of instructions that store nothing from their destination field, segment loads
apart. -/
def resultSteps : List (List RenameStep) :=
  [[], [lookUp x 0], [lookUp x 0, lookUp x 1],
    [destRenameV false, lookUp v 0, lookUp v 1], [lookUp v 0, destRenameV false],
    [lookUp x 0, destRenameV false], [lookUp x 0, destRenameV false, lookUp v 2],
    [lookUp x 0, destRenameV false, lookUp v 2, lookUp v 3],
    [lookUp x 0, lookUp v 1, lookUp v 2], [destRenameV false], [destRenameX, lookUp v 0],
    [lookUp v 0, lookUp v 1, lookUpIfExist 2, destRenameV false], [lookUp v 0, destRenameV true],
    [destRenameV true], [lookUp v 1, destRenameV true], [lookUp x 0, destRenameV true],
    [lookUp x 0, lookUp v 1, destRenameV true], [lookUp v 0, lookUp x 1, destRenameV true],
    [lookUp f 0, lookUp v 1, destRenameV true], [lookUp v 0, lookUp f 1, destRenameV true],
    [lookUp f 0, destRenameV true], [lookUp v 0, destRenameF],
    [lookUp x 0, lookUp x 1, destRenameX], [lookUp x 0, destRenameX], [destRenameX],
    [destRenameX, lookUp x 1, lookUp x 2], [destRenameF, lookUp f 1, lookUp x 2],
    [lookUp f 0, lookUp f 1, destRenameF], [lookUp x 0, destRenameF], [lookUp f 0, destRenameX],
    [lookUp f 0, destRenameF]]

/-- The steps of instructions that store their destination field or use it for nothing. -/
def storeSteps : List (List RenameStep) :=
  [[lookUp x 0, lookUpDest x], [lookUp x 0, lookUpDest f], [lookUp x 0, lookUpDest v],
    [lookUp x 0, lookUp x 0, lookUpDest v, lookUp v 2, lookUp v 3],
    [lookUp x 0, lookUpDest v, lookUp x 0, lookUp v 1, lookUp v 2],
    [lookUp x 0, lookUpDest v, lookUp x 0, lookUp v 1, lookUp v 2, lookUp v 3],
    [lookUp x 0, noDest, lookUp x 0, lookUp v 1, lookUp v 2],
    [lookUp x 0, noDest, lookUp x 0, lookUp v 1, lookUp v 2, lookUp v 3]]

/-- The opcodes whose destination field is only looked up. -/
def LooksUpDest (op : Opcode) : Prop :=
  op ∈ [Opcode.vse8, .vse16, .vse32, .vse64, .vsuxei32, .vsuxei64, .sb, .sw, .sd, .fsw] ∨
    op.checkVectorOp = true ∧ op.checkAmoOp = true

theorem branchSteps_mem (inst : NdpInstruction) : inst.branchSteps ∈ resultSteps := by
  unfold branchSteps
  split
  · decide
  · split <;> decide

theorem vectorVSteps_mem (inst : NdpInstruction) (h : inst.opcode.checkVectorOp = true) :
    inst.vectorVSteps ∈ resultSteps ∨ LooksUpDest inst.opcode ∧ inst.vectorVSteps ∈ storeSteps := by
  unfold vectorVSteps
  by_cases hsqrt : inst.opcode = .vfsqrt
  · rw [if_pos hsqrt]
    exact .inl (by decide)
  rw [if_neg hsqrt]
  by_cases hunary : inst.opcode = .vid ∨ inst.opcode = .vfexp
  · rw [if_pos hunary]
    exact .inl (by decide)
  rw [if_neg hunary]
  by_cases hstore : inst.opcode ∈ [Opcode.vse8, .vse16, .vse32, .vse64]
  · rw [if_pos hstore]
    refine .inr ⟨.inl ?_, by decide⟩
    exact List.mem_append_left [Opcode.vsuxei32, .vsuxei64, .sb, .sw, .sd, .fsw] hstore
  rw [if_neg hstore]
  by_cases hload : inst.opcode ∈ [Opcode.vle8, .vle16, .vle32, .vle64]
  · rw [if_pos hload]
    exact .inl (by decide)
  rw [if_neg hload]
  by_cases hgather : inst.opcode ∈ [Opcode.vluxei32, .vluxei64]
  · rw [if_pos hgather]
    split <;> exact .inl (by decide)
  rw [if_neg hgather]
  by_cases hscatter : inst.opcode ∈ [Opcode.vsuxei32, .vsuxei64]
  · rw [if_pos hscatter]
    refine .inr ⟨.inl ?_, by decide⟩
    simp only [List.mem_cons, List.not_mem_nil, or_false] at hscatter
    obtain hop | hop := hscatter <;> simp [hop]
  rw [if_neg hscatter]
  split
  case isTrue hamo =>
    refine .inr ⟨.inr ⟨h, hamo⟩, ?_⟩
    split <;> split <;> decide
  case isFalse => exact .inl (by decide)

theorem vectorSteps_mem (inst : NdpInstruction) (h : inst.opcode.checkVectorOp = true) :
    inst.vectorSteps ∈ resultSteps ∨ LooksUpDest inst.opcode ∧ inst.vectorSteps ∈ storeSteps := by
  have hv := vectorVSteps_mem inst h
  delta vectorSteps
  cases inst.operandType
  case v => exact hv
  all_goals
    left
    dsimp only
  case m | v_i | v_x | s_x | vf =>
    repeat' split
    all_goals decide
  all_goals decide

theorem scalarSteps_mem (inst : NdpInstruction) :
    inst.scalarSteps ∈ resultSteps ∨ LooksUpDest inst.opcode ∧ inst.scalarSteps ∈ storeSteps := by
  delta scalarSteps LooksUpDest
  cases inst.opcode
  all_goals dsimp only
  case fmv =>
    left
    repeat' split
    all_goals decide
  case sb | sw | sd | fsw => exact .inr ⟨.inl (by decide), by decide⟩
  all_goals exact .inl (by decide)

/-- The steps of a segment load. -/
def loadSegSteps (segCnt : Int) : List RenameStep :=
  [lookUp x 0, lookUp v 1, destRenameV true] ++
    (List.range segCnt.toNat).map destRenameSegV

/-- The lists of steps there are. -/
theorem renameSteps_cases (inst : NdpInstruction) :
    inst.renameSteps = loadSegSteps inst.segCnt ∨ inst.renameSteps ∈ resultSteps ∨
      LooksUpDest inst.opcode ∧ inst.renameSteps ∈ storeSteps := by
  unfold renameSteps
  split
  · exact .inr (.inl (branchSteps_mem inst))
  split
  · unfold segSteps
    split
    · exact .inl rfl
    · exact .inr (.inl (by decide))
  split
  case isTrue hvector => exact .inr (vectorSteps_mem inst hvector)
  case isFalse => exact .inr (scalarSteps_mem inst)

end NdpInstruction

namespace RegisterUnit

/-- One step on the pair of the original and the partly renamed instruction. A destination
field is still the original one when it is renamed, so of the renamed instruction only the
sources matter there. -/
def runStep (u : RegisterUnit) (key : Int) (inst renamed : NdpInstruction) :
    RenameStep → Except Fault (NdpInstruction × RegisterUnit)
  | .lookUp c i => do
    let r ← u.lookUp c key (inst.src i)
    return (renamed.setSrc i r, u)
  | .lookUpIfExist i =>
    if u.checkExistVreg key (inst.src i) then do
      let r ← u.lookUpV key (inst.src i)
      return (renamed.setSrc i r, u)
    else .ok (renamed, u)
  | .lookUpDest c => do
    let r ← u.lookUp c key inst.dest
    return (renamed.setDest r, u)
  | .noDest => .ok (renamed.setDest (-1), u)
  | .destRenameX => do
    let (r, u) ← u.destRenameX key inst
    return (renamed.setDest r, u)
  | .destRenameF => do
    let (r, u) ← u.destRenameF key inst
    return (renamed.setDest r, u)
  | .destRenameV fromRenamed => do
    let (r, u) ← u.destRenameV key (if fromRenamed then inst.withSrc renamed.src else inst)
    return (renamed.setDest r, u)
  | .destRenameSegV index =>
    -- an instruction has eight segment destinations; further ones are read past the array
    if h : index < 8 then do
      let (r, u) ← u.destRenameSegV key (inst.withSrc renamed.src) ⟨index, h⟩
      return (renamed.setSegDest ⟨index, h⟩ r, u)
    else .error .undefined

/-- A successful step leaves the unit alone or renames one destination; only vector
destinations get a partner. -/
theorem runStep_cases {u u' : RegisterUnit} {key : Int} {inst renamed renamed' : NdpInstruction}
    {s : RenameStep} (h : u.runStep key inst renamed s = .ok (renamed', u')) :
    u' = u ∨ ∃ c name double r, (double = true → c = .v) ∧
      u.destRename c key name double = .ok (r, u') := by
  cases s with
  | lookUp c i | lookUpDest c =>
    obtain ⟨r, -, h⟩ := bind_eq_ok.mp h
    exact .inl (Prod.mk.inj (Except.ok.inj h)).2.symm
  | lookUpIfExist i =>
    simp only [runStep] at h
    split at h
    · obtain ⟨r, -, h⟩ := bind_eq_ok.mp h
      exact .inl (Prod.mk.inj (Except.ok.inj h)).2.symm
    · exact .inl (Prod.mk.inj (Except.ok.inj h)).2.symm
  | noDest => exact .inl (Prod.mk.inj (Except.ok.inj h)).2.symm
  | destRenameX | destRenameF =>
    obtain ⟨⟨r, u₁⟩, hd, h⟩ := bind_eq_ok.mp h
    obtain ⟨-, rfl⟩ := Prod.mk.inj (Except.ok.inj h)
    exact .inr ⟨_, _, _, r, by simp, hd⟩
  | destRenameV fromRenamed =>
    obtain ⟨⟨r, u₁⟩, hd, h⟩ := bind_eq_ok.mp h
    obtain ⟨-, rfl⟩ := Prod.mk.inj (Except.ok.inj h)
    exact .inr ⟨_, _, _, r, fun _ => rfl, hd⟩
  | destRenameSegV index =>
    simp only [runStep] at h
    split at h
    · obtain ⟨⟨r, u₁⟩, hd, h⟩ := bind_eq_ok.mp h
      obtain ⟨-, rfl⟩ := Prod.mk.inj (Except.ok.inj h)
      exact .inr ⟨_, _, _, r, fun _ => rfl, hd⟩
    · cases h

def runSteps (u : RegisterUnit) (key : Int) (inst : NdpInstruction) :
    NdpInstruction → List RenameStep → Except Fault (NdpInstruction × RegisterUnit)
  | renamed, [] => .ok (renamed, u)
  | renamed, s :: ss => do
    let (renamed, u) ← u.runStep key inst renamed s
    u.runSteps key inst renamed ss

/-- A `vsetvli` changes the multiplier for the renamings that follow it. -/
def noteVlmul (u : RegisterUnit) (inst : NdpInstruction) : RegisterUnit :=
  if inst.opcode = .vsetvli then { u with cvtVlmulStatus := toInt (inst.src 2) } else u

def convertInst (u : RegisterUnit) (key : Int) (inst : NdpInstruction) :
    Except Fault (NdpInstruction × RegisterUnit) :=
  (u.noteVlmul inst).runSteps key inst inst inst.renameSteps

def convertInsts (u : RegisterUnit) (key : Int) :
    List NdpInstruction → Except Fault (List NdpInstruction × RegisterUnit)
  | [] => .ok ([], u)
  | inst :: insts => do
    let (renamed, u) ← u.convertInst key inst
    let (rest, u) ← u.convertInsts key insts
    return (renamed :: rest, u)

theorem length_convertInsts {insts : List NdpInstruction} {key : Int} :
    ∀ {u u' : RegisterUnit} {out}, u.convertInsts key insts = .ok (out, u') →
      out.length = insts.length := by
  induction insts with
  | nil =>
    intro u u' out h
    rw [← (Prod.mk.inj (Except.ok.inj h)).1]
  | cons inst insts ih =>
    intro u u' out h
    obtain ⟨⟨renamed, u₁⟩, -, h⟩ := bind_eq_ok.mp h
    obtain ⟨⟨rest, u₂⟩, h₂, h⟩ := bind_eq_ok.mp h
    rw [← (Prod.mk.inj (Except.ok.inj h)).1]
    simp [ih h₂]

theorem convertInsts_split {u u' : RegisterUnit} {key : Int} {is₁ is₂ out : List NdpInstruction}
    {inst : NdpInstruction}
    (h : u.convertInsts key (is₁ ++ inst :: is₂) = .ok (out, u')) :
    ∃ out₁ renamed out₂ w w', u.convertInsts key is₁ = .ok (out₁, w) ∧
      w.convertInst key inst = .ok (renamed, w') ∧ w'.convertInsts key is₂ = .ok (out₂, u') ∧
      out = out₁ ++ renamed :: out₂ := by
  induction is₁ generalizing u out with
  | nil =>
    obtain ⟨⟨renamed, w'⟩, h₁, h⟩ := bind_eq_ok.mp h
    obtain ⟨⟨rest, w⟩, h₂, h⟩ := bind_eq_ok.mp h
    obtain ⟨rfl, rfl⟩ := Prod.mk.inj (Except.ok.inj h)
    exact ⟨[], renamed, rest, u, w', rfl, h₁, h₂, rfl⟩
  | cons i is₁ ih =>
    obtain ⟨⟨r, u₁⟩, h₁, h⟩ := bind_eq_ok.mp h
    obtain ⟨⟨rest, u₂⟩, h₂, h⟩ := bind_eq_ok.mp h
    obtain ⟨rfl, rfl⟩ := Prod.mk.inj (Except.ok.inj h)
    obtain ⟨out₁, renamed, out₂, w, w', hpre, hinst, hpost, rfl⟩ := ih h₂
    refine ⟨r :: out₁, renamed, out₂, w, w', ?_, hinst, hpost, rfl⟩
    exact bind_eq_ok.mpr ⟨_, h₁, bind_eq_ok.mpr ⟨_, hpre, rfl⟩⟩

section Invariant

variable {P : RegisterUnit → Prop} {key : Int}

theorem runSteps_invariant
    (hd : ∀ {u u' c name double r}, (double = true → c = .v) →
      u.destRename c key name double = .ok (r, u') → P u → P u')
    {inst : NdpInstruction} {ss : List RenameStep} :
    ∀ {u u' renamed renamed'}, u.runSteps key inst renamed ss = .ok (renamed', u') →
      P u → P u' := by
  induction ss with
  | nil =>
    intro u u' renamed renamed' h hu
    obtain ⟨-, rfl⟩ := Prod.mk.inj (Except.ok.inj h)
    exact hu
  | cons s ss ih =>
    intro u u' renamed renamed' h hu
    obtain ⟨⟨renamed₁, u₁⟩, hs, h⟩ := bind_eq_ok.mp h
    have hu₁ : P u₁ := by
      obtain rfl | ⟨c, name, double, r, hc, hr⟩ := runStep_cases hs
      · exact hu
      · exact hd hc hr hu
    exact ih h hu₁

/-- What destination renamings and multiplier changes preserve, renaming a section preserves. -/
theorem convertInsts_invariant (hm : ∀ {u : RegisterUnit} (m : Int), P u →
      P { u with cvtVlmulStatus := m })
    (hd : ∀ {u u' c name double r}, (double = true → c = .v) →
      u.destRename c key name double = .ok (r, u') → P u → P u')
    {insts : List NdpInstruction} :
    ∀ {u u' out}, u.convertInsts key insts = .ok (out, u') → P u → P u' := by
  induction insts with
  | nil =>
    intro u u' out h hu
    obtain ⟨-, rfl⟩ := Prod.mk.inj (Except.ok.inj h)
    exact hu
  | cons inst insts ih =>
    intro u u' out h hu
    obtain ⟨⟨renamed, u₁⟩, h₁, h⟩ := bind_eq_ok.mp h
    obtain ⟨⟨rest, u₂⟩, h₂, h⟩ := bind_eq_ok.mp h
    obtain ⟨-, rfl⟩ := Prod.mk.inj (Except.ok.inj h)
    have hn : P (u.noteVlmul inst) := by
      unfold noteVlmul
      split
      · exact hm _ hu
      · exact hu
    exact ih h₂ (runSteps_invariant hd h₁ hn)

end Invariant

/-- Bind a name to the next free x register and give it a value. -/
def initXreg (u : RegisterUnit) (key name : Int) (value : BitVec 64) :
    Except Fault RegisterUnit := do
  let (px, u) ← u.popFree .x
  let u := u.bind .x key name px
  return { u with xregTable := Function.update u.xregTable px value }

theorem initXreg_eq_ok {u u' : RegisterUnit} {key name : Int} {value : BitVec 64} :
    u.initXreg key name value = .ok u' ↔ ∃ px rest, u.xregs.free = px :: rest ∧
      u' = { u with
        xregs := Pool.bind ⟨rest, u.xregs.bindings⟩ key name px
        xregTable := Function.update u.xregTable px value } := by
  constructor
  · intro h
    obtain ⟨⟨px, u₁⟩, hp, h⟩ := bind_eq_ok.mp h
    obtain ⟨rest, hfree, rfl⟩ := popFree_eq_ok.mp hp
    obtain rfl := Except.ok.inj h
    exact ⟨px, rest, hfree, rfl⟩
  · rintro ⟨px, rest, hfree, rfl⟩
    exact bind_eq_ok.mpr ⟨_, popFree_eq_ok.mpr ⟨rest, hfree, rfl⟩, rfl⟩

/-- Rename a section for a packet: `x1` and `x2` hold the request's address and offset. -/
def convert (u : RegisterUnit) (insts : List NdpInstruction) (packetId : Int)
    (req : RequestInfo) : Except Fault (List NdpInstruction × RegisterUnit) := do
  let u ← u.initXreg packetId (regXBase + 1) req.addr
  let u ← u.initXreg packetId (regXBase + 2) req.offset
  convertInsts { u with cvtVlmulStatus := immM1 } packetId insts

theorem convert_eq_ok {u u' : RegisterUnit} {insts out : List NdpInstruction} {key : Int}
    {req : RequestInfo} : u.convert insts key req = .ok (out, u') ↔
      ∃ u₁ u₂, u.initXreg key (regXBase + 1) req.addr = .ok u₁ ∧
        u₁.initXreg key (regXBase + 2) req.offset = .ok u₂ ∧
        convertInsts { u₂ with cvtVlmulStatus := immM1 } key insts = .ok (out, u') := by
  simp only [convert, bind_eq_ok]
  constructor
  · rintro ⟨u₁, h₁, u₂, h₂, h⟩
    exact ⟨u₁, u₂, h₁, h₂, h⟩
  · rintro ⟨u₁, u₂, h₁, h₂, h⟩
    exact ⟨u₁, h₁, u₂, h₂, h⟩

theorem length_convert {u u' : RegisterUnit} {insts out : List NdpInstruction} {key : Int}
    {req : RequestInfo} (h : u.convert insts key req = .ok (out, u')) :
    out.length = insts.length := by
  obtain ⟨u₁, u₂, -, -, h⟩ := convert_eq_ok.mp h
  exact length_convertInsts h

/-- The renaming of one instruction of a section. -/
theorem convert_at {u u' : RegisterUnit} {insts out : List NdpInstruction} {key : Int}
    {req : RequestInfo} (h : u.convert insts key req = .ok (out, u')) {k : Nat}
    {inst : NdpInstruction} (hi : insts[k]? = some inst) :
    ∃ out₁ w renamed w', u.convert (insts.take k) key req = .ok (out₁, w) ∧
      w.convertInst key inst = .ok (renamed, w') ∧ out[k]? = some renamed := by
  obtain ⟨u₁, u₂, h₁, h₂, h⟩ := convert_eq_ok.mp h
  obtain ⟨hlt, rfl⟩ := List.getElem?_eq_some_iff.mp hi
  have hsplit : insts = insts.take k ++ insts[k] :: insts.drop (k + 1) := by simp
  rw [hsplit] at h
  obtain ⟨out₁, renamed, out₂, w, w', hpre, hinst, -, rfl⟩ := convertInsts_split h
  refine ⟨out₁, w, renamed, w', convert_eq_ok.mpr ⟨u₁, u₂, h₁, h₂, hpre⟩, hinst, ?_⟩
  have hlen : out₁.length = k := by
    rw [length_convertInsts hpre, List.length_take]
    omega
  rw [List.getElem?_append_right (by omega), hlen, Nat.sub_self, List.getElem?_cons_zero]

/-! ## The rename queue -/

def renameFull (u : RegisterUnit) (col : InstColumn) : Bool :=
  u.xregs.free.length < col.xregs || u.fregs.free.length < col.fregs ||
    u.vregs.free.length < col.vregs

def renamePush (u : RegisterUnit) (col : InstColumn) (packetId : Int) :
    Except Fault RegisterUnit := do
  if u.renameFull col then throw .assertion
  let (insts, u) ← u.convert col.insts packetId col.req
  return { u with afterRename := u.afterRename ++ [{ col with insts := insts }] }

theorem renamePush_eq_ok {u u' : RegisterUnit} {col : InstColumn} {key : Int} :
    u.renamePush col key = .ok u' ↔ u.renameFull col = false ∧ ∃ insts u₁,
      u.convert col.insts key col.req = .ok (insts, u₁) ∧
      u' = { u₁ with afterRename := u₁.afterRename ++ [{ col with insts := insts }] } := by
  unfold renamePush
  cases hf : u.renameFull col with
  | true => simp [throw, throwThe, MonadExceptOf.throw, Bind.bind, Except.bind]
  | false =>
    cases hc : u.convert col.insts key col.req with
    | error e => simp [Bind.bind, Except.bind]
    | ok r =>
      obtain ⟨insts, u₁⟩ := r
      simp [Bind.bind, Except.bind, pure, Except.pure, eq_comm]

end RegisterUnit

end NdpSim
