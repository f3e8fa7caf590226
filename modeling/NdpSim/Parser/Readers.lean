import NdpSim.Parser.Operands

/-!
# The cases of the parser

`ParseNdpInstruction` has about twenty ways to read the operands behind the destination. Each is
given by name here, with the fields it reads on operands that stand in the order it expects.
-/
namespace NdpSim

open Library Text

inductive Reader
  | number | register | byteOffset | registers | immediate | nothing | vor | memory
  | indexedLoad | indexedStore | segment | scalarAmo | vectorAmo | vsetvli | reduction | unary
  | first | splat | test | testTwice | jump | branch | branchZero | binary
  | unsupported (what : String)
  deriving DecidableEq

/-- Read the operands behind `dest`. -/
def Reader.run (dest src : Text) : Reader → Parse (List Int)
  | number => do return [← Parse.ofText (stoll src)]
  | register => do return [← getRegValue src]
  | byteOffset => do
    return [← getRegValue (before ',' src), ← Parse.ofText (stoi (after ',' src))]
  | registers => parseRegisters src
  | immediate => parseImmediate src
  | nothing => return []
  | vor => parseVor src
  | memory => parseMemory src
  | indexedLoad => parseIndexedLoad src
  | indexedStore => parseIndexedStore src
  | segment => do
    let (vs1, _) ← baseAndOffset src
    return [← getRegValue vs1, ← getRegValue (after ',' src)]
  | scalarAmo => parseScalarAmo dest src
  | vectorAmo => parseVectorAmo src
  | vsetvli => parseVsetvli src
  | reduction => parseReduction src
  | unary => do
    return [← getRegValue (before ',' src), ← getRegValue (before ',' (after ',' src))]
  | first => do return [← getRegValue (before ',' src)]
  | splat => do
    let x ← Parse.ofText (stoi src)
    if ',' ∈ src then return [x, ← getRegValue (after ',' src)] else return [x]
  | test => do
    let s1 ← getRegValue (before ',' src)
    return [s1]
  | testTwice => do
    let s1 ← getRegValue (before ',' src)
    return [s1, s1]
  | jump => do return [-1, -1, ← parseLabel dest]
  | branch => do
    let label ← parseLabel (after ',' src)
    return [← getRegValue dest, ← getRegValue (before ',' src), label]
  | branchZero => do
    let label ← parseLabel (before ',' src)
    return [← getRegValue dest, -1, label]
  | binary => parseBinary src
  | unsupported what => throw (.runtimeError what)

/-- The case an opcode and an operand type lead to. -/
def readerOf (op : Opcode) (operandType : OperandType) : Reader :=
  if op ∈ [.li, .csrwi] then .number
  else if op = .csrw then .register
  else if op = .lbu then .byteOffset
  else if op = .vand then
    if operandType = .vv then .registers
    else if operandType = .vi then .immediate
    else .nothing
  else if op = .vor then
    if operandType = .vv then .vor else .nothing
  else if op ∈ [.vmand, .vmor] then
    if operandType = .mm then .registers else .nothing
  else if op ∈ [.vle8, .vse8, .vle16, .vse16, .vle32, .vse32, .vle64, .vse64, .lw, .sw, .flw,
      .fsw, .sb, .sd, .lb, .ld] then .memory
  else if op ∈ [.vluxei32, .vluxei64] then .indexedLoad
  else if op ∈ [.vsuxei32, .vsuxei64] then .indexedStore
  else if op = .vlsseg then .segment
  else if op = .vid then .register
  else if op ∈ [.vmseq, .vmsne, .vmslt, .vmsgt, .vmsle, .vmsge] then
    if operandType = .vi then .immediate
    else if operandType ∈ [.vx, .vv, .vf] then .registers
    else .nothing
  else if op.checkAmoOp then
    if op ∈ [.amoadd, .famoadd, .famoaddh, .amomax, .famomax] then .scalarAmo else .vectorAmo
  else if op = .vsetvli then .vsetvli
  else if op ∈ [.addi, .muli, .slli, .srli, .andi, .ori] ∨ operandType = .vi then .immediate
  else if op ∈ [.vslide1down, .vslide1up, .vslidedown, .vslideup] then
    if operandType = .vx then .registers
    else .unsupported "Unsupported Operand Type for VSLIDE"
  else if op ∈ [.vredsum, .vredmax, .vredmin, .vredand, .vredor] then
    if operandType ≠ .vs then .unsupported "Unsupported Operand Type for VRED"
    else .reduction
  else if operandType = .v then .unary
  else if operandType = .m then .register
  else if operandType = .x_s ∨ operandType = .s_x then .first
  else if operandType = .v_i then .splat
  else if operandType = .vf then .registers
  else if op = .test then if operandType = .vv then .testTwice else .test
  else if op = .j then .jump
  else if op ∈ [.beq, .bgt, .blt, .bne, .ble, .bge] then .branch
  else if op ∈ [.beqz, .bgtz, .bltz, .bnez, .blez, .bgez] then .branchZero
  else if op ∈ [.fexp, .vfexp] then .first
  else .binary

theorem run_ite (dest src : Text) (c : Prop) [Decidable c] (r r' : Reader) :
    (if c then r else r').run dest src = if c then r.run dest src else r'.run dest src := by
  split <;> rfl

theorem parseSources_eq (op : Opcode) (operandType : OperandType) (dest src : Text) :
    parseSources op operandType dest src = (readerOf op operandType).run dest src := by
  unfold parseSources readerOf
  simp only [run_ite]
  repeat' refine if_congr Iff.rfl ?_ ?_
  all_goals first | rfl | (cases operandType <;> rfl)

/-! ## What each case reads -/

section Texts

variable {s t m : Text}

theorem reads_byteOffset (dest : Text) (hs : ',' ∉ s) :
    Reads (Reader.byteOffset.run dest (join ',' [s, t]))
      [getRegValue s, Parse.ofText (stoi t)] := by
  simp only [Reader.run, before_join hs, after_join hs, join_singleton]
  exact reads_two _ _

theorem reads_registers (hs : ',' ∉ s) :
    Reads (parseRegisters (join ',' [s, t])) [getRegValue s, getRegValue t] := by
  simp only [parseRegisters, before_join hs, after_join hs, join_singleton]
  exact reads_two _ _

theorem reads_immediate (hs : ',' ∉ s) :
    Reads (parseImmediate (join ',' [s, t])) [getRegValue s, Parse.ofText (stoll t)] := by
  simp only [parseImmediate, before_join hs, after_join hs, join_singleton]
  exact reads_two _ _

theorem reads_binary_one (hs : ',' ∉ s) : Reads (parseBinary s) [getRegValue s] := by
  simp only [parseBinary, before_of_notMem hs, if_neg hs]
  exact reads_one _

theorem reads_binary_two (hs : ',' ∉ s) :
    Reads (parseBinary (join ',' [s, t])) [getRegValue s, getRegValue t] := by
  simp only [parseBinary, before_join hs, after_join hs, join_singleton, if_pos (mem_join _ _ _ _)]
  exact reads_two _ _

/-- Without a mask the second operand is read twice. -/
theorem reads_vor_two (hs : ',' ∉ s) (ht : ',' ∉ t) :
    Reads (parseVor (join ',' [s, t])) [getRegValue s, getRegValue t, getRegValue t] := by
  simp only [parseVor, before_join hs, after_join hs, join_singleton, before_of_notMem ht,
    after_of_notMem ht]
  exact reads_three _ _ _

theorem reads_vor_three (hs : ',' ∉ s) (ht : ',' ∉ t) :
    Reads (parseVor (join ',' [s, t, m])) [getRegValue s, getRegValue t, getRegValue m] := by
  simp only [parseVor, before_join hs, after_join hs, before_join ht, after_join ht,
    join_singleton]
  exact reads_three _ _ _

theorem reads_reduction_two (hs : ',' ∉ s) (ht : ',' ∉ t) :
    Reads (parseReduction (join ',' [s, t])) [getRegValue s, getRegValue t] := by
  simp only [parseReduction, before_join hs, after_join hs, join_singleton, before_of_notMem ht,
    if_neg ht]
  exact reads_two _ _

theorem reads_reduction_three (hs : ',' ∉ s) (ht : ',' ∉ t) (hm : ',' ∉ m) :
    Reads (parseReduction (join ',' [s, t, m]))
      [getRegValue s, getRegValue t, getRegValue m] := by
  simp only [parseReduction, before_join hs, after_join hs, before_join ht, after_join ht,
    join_singleton, before_of_notMem hm, if_pos (mem_join _ _ _ _)]
  exact reads_three _ _ _

/-- Without a mask the operand is read twice. -/
theorem reads_unary_one (dest : Text) (hs : ',' ∉ s) :
    Reads (Reader.unary.run dest s) [getRegValue s, getRegValue s] := by
  simp only [Reader.run, before_of_notMem hs, after_of_notMem hs]
  exact reads_two _ _

theorem reads_unary_two (dest : Text) (hs : ',' ∉ s) (hm : ',' ∉ m) :
    Reads (Reader.unary.run dest (join ',' [s, m])) [getRegValue s, getRegValue m] := by
  simp only [Reader.run, before_join hs, after_join hs, join_singleton, before_of_notMem hm]
  exact reads_two _ _

theorem reads_first (dest : Text) (hs : ',' ∉ s) :
    Reads (Reader.first.run dest s) [getRegValue s] := by
  simp only [Reader.run, before_of_notMem hs]
  exact reads_one _

theorem reads_test (dest : Text) (hs : ',' ∉ s) :
    Reads (Reader.test.run dest s) [getRegValue s] := by
  simp only [Reader.run, before_of_notMem hs]
  exact reads_one _

theorem reads_branch (dest : Text) (hs : ',' ∉ s) :
    Reads (Reader.branch.run dest (join ',' [s, t]))
      [getRegValue dest, getRegValue s, parseLabel t] := by
  simp only [Reader.run, before_join hs, after_join hs, join_singleton]
  exact reads_last_first _ _ _

theorem reads_branchZero (dest : Text) (hs : ',' ∉ s) :
    Reads (Reader.branchZero.run dest s) [getRegValue dest, .ok (-1), parseLabel s] := by
  simp only [Reader.run, before_of_notMem hs]
  exact reads_last_first _ (.ok (-1)) _

theorem reads_jump (dest src : Text) :
    Reads (Reader.jump.run dest src) [.ok (-1), .ok (-1), parseLabel dest] :=
  reads_three (.ok (-1)) (.ok (-1)) (parseLabel dest)

/-- A number is read up to the comma. -/
theorem reads_splat (dest : Text) (n : Int) :
    Reads (Reader.splat.run dest (signedNumeral n)) [Parse.ofText (stoi (signedNumeral n))] := by
  simp only [Reader.run, if_neg ((plain_signedNumeral n).notMem (c := ',') (by decide))]
  exact reads_one _

theorem reads_splat_masked (dest : Text) (n : Int) :
    Reads (Reader.splat.run dest (join ',' [signedNumeral n, m]))
      [Parse.ofText (stoi (signedNumeral n)), getRegValue m] := by
  have hn : ',' ∉ signedNumeral n := (plain_signedNumeral n).notMem (by decide)
  have hread : stoi (join ',' [signedNumeral n, m]) = stoi (signedNumeral n) := by
    have hcomma : EndsNumber (',' :: m) := by simp [EndsNumber]
    have hjoin : join ',' [signedNumeral n, m] = signedNumeral n ++ ',' :: m := rfl
    rw [hjoin, stoi, readSigned_signedNumeral 32 n hcomma]
    have hend := readSigned_signedNumeral 32 n endsNumber_nil
    rw [List.append_nil] at hend
    exact hend.symm
  simp only [Reader.run, hread, after_join hn, join_singleton, if_pos (mem_join _ _ _ _)]
  exact reads_two _ _

end Texts

section Addresses

variable (offset : Option Int) (base : Reg) {s t m : Text}

/-- The offset field; a missing offset is 0. -/
def readOffset (offset : Option Int) : Parse Int :=
  offset.elim (.ok 0) fun n => Parse.ofText (stoll (signedNumeral n))

theorem parseOffset_text : parseOffset (offset.elim [] signedNumeral) = readOffset offset := by
  cases offset with
  | none => rfl
  | some n =>
    have hne : signedNumeral n ≠ [] := by
      unfold signedNumeral
      split
      · exact List.cons_ne_nil _ _
      · exact numeral_ne_nil _
    exact if_pos hne

theorem baseAndOffset_mem (rest : Text) :
    baseAndOffset ((Operand.mem offset base).text ++ rest) =
      .ok (base.text, offset.elim [] signedNumeral) := by
  have h := baseAndOffset_text ((plain_offset offset).notMem (c := '(') (by decide))
    ((plain_offset offset).notMem (by decide)) (base.plain_text.notMem (by decide)) rest
  simpa [Operand.text] using h

theorem reads_memory :
    Reads (parseMemory (Operand.mem offset base).text)
      [getRegValue base.text, readOffset offset] := by
  have hparts := baseAndOffset_mem offset base []
  rw [List.append_nil] at hparts
  have hparen : '(' ∈ (Operand.mem offset base).text := by simp [Operand.text]
  have hrun : parseMemory (Operand.mem offset base).text =
      (do return [← getRegValue base.text, ← parseOffset (offset.elim [] signedNumeral)]) := by
    simp only [parseMemory, hparts, hparen, and_true, parseOffset]
    change (getRegValue base.text >>= fun r => _) = (getRegValue base.text >>= fun r => _)
    congr 1
    funext r
    split <;> rfl
  rw [hrun, parseOffset_text]
  exact reads_two _ _

/-- A register without parentheses is a base without an offset. -/
theorem reads_memory_bare (r : Reg) :
    Reads (parseMemory r.text) [getRegValue r.text, .ok 0] := by
  have hopen : '(' ∉ r.text := r.plain_text.notMem (by decide)
  have hparts := baseAndOffset_bare hopen (r.plain_text.notMem (by decide))
  simp only [parseMemory, hparts, hopen, and_false, if_false]
  exact reads_two _ (.ok 0)

theorem join_mem (ts : List Text) (u : Text) :
    join ',' ((Operand.mem offset base).text :: u :: ts) =
      (Operand.mem offset base).text ++ ',' :: join ',' (u :: ts) := rfl

theorem reads_indexedLoad_two (hs : ',' ∉ s) :
    Reads (parseIndexedLoad (join ',' [(Operand.mem offset base).text, s]))
      [getRegValue base.text, readOffset offset, getRegValue s] := by
  have hm := (Operand.mem offset base).notMem_text (c := ',') (by decide)
  have hparts := baseAndOffset_mem offset base (',' :: join ',' [s])
  rw [← join_mem] at hparts
  simp only [parseIndexedLoad, hparts, ok_bind, after_join hm, join_singleton,
    before_of_notMem hs, if_neg hs, parseOffset_text]
  exact reads_three _ _ _

theorem reads_indexedLoad_three (hs : ',' ∉ s) :
    Reads (parseIndexedLoad (join ',' [(Operand.mem offset base).text, s, m]))
      [getRegValue base.text, readOffset offset, getRegValue s, getRegValue m] := by
  have hm := (Operand.mem offset base).notMem_text (c := ',') (by decide)
  have hparts := baseAndOffset_mem offset base (',' :: join ',' [s, m])
  rw [← join_mem] at hparts
  simp only [parseIndexedLoad, hparts, ok_bind, after_join hm, before_join hs,
    after_join hs, join_singleton, if_pos (mem_join _ _ _ _), parseOffset_text]
  exact reads_four _ _ _ _

/-- What an indexed store reads behind its address. -/
theorem reads_indexedStore (ts : List Text) :
    Reads (parseIndexedStore (join ',' ((Operand.mem offset base).text :: s :: ts)))
      [getRegValue base.text, readOffset offset, getRegValue ((join ',' (s :: ts)).take 2),
        getRegValue (after ',' (join ',' (s :: ts)))] := by
  have hm := (Operand.mem offset base).notMem_text (c := ',') (by decide)
  have hparts := baseAndOffset_mem offset base (',' :: join ',' (s :: ts))
  rw [← join_mem] at hparts
  have hdrop := dropWhile_append_cons hm (join ',' (s :: ts))
  rw [← join_mem] at hdrop
  have hindex : substr (',' :: join ',' (s :: ts)) 1 2 = .ok ((join ',' (s :: ts)).take 2) := by
    unfold substr
    rw [if_neg (by simp only [List.length_cons]; omega)]
    rfl
  have hafter : after ',' (',' :: join ',' (s :: ts)) = join ',' (s :: ts) :=
    after_append_cons (t := []) (by simp) _
  simp only [parseIndexedStore, hparts, if_pos (mem_join _ _ _ _), hdrop, Parse.ofText, ok_bind,
    hindex, hafter, parseOffset_text]
  exact reads_four _ _ _ _

theorem reads_segment (dest : Text) :
    Reads (Reader.segment.run dest (join ',' [(Operand.mem none base).text, s]))
      [getRegValue base.text, getRegValue s] := by
  have hm := (Operand.mem none base).notMem_text (c := ',') (by decide)
  have hparts := baseAndOffset_mem none base (',' :: join ',' [s])
  rw [← join_mem] at hparts
  simp only [Reader.run, hparts, after_join hm, join_singleton]
  exact reads_two _ _

theorem reads_scalarAmo (dest : Text) (r : Reg) :
    Reads (parseScalarAmo dest (join ',' [r.text, (Operand.mem none base).text]))
      [getRegValue dest, getRegValue r.text, getRegValue base.text] := by
  have hr {c : Char} (hc : c ∈ [' ', ',', '(', ')']) : c ∉ r.text := r.plain_text.notMem hc
  have hopen : '(' ∉ r.text ++ [','] := by simp [hr (c := '(') (by decide)]
  have hclose : ')' ∉ r.text ++ [','] := by simp [hr (c := ')') (by decide)]
  have hparts := baseAndOffset_text hopen hclose (base.plain_text.notMem (by decide)) []
  have hjoin : join ',' [r.text, (Operand.mem none base).text] =
      (r.text ++ [',']) ++ '(' :: (base.text ++ ')' :: []) := by
    simp [join, Operand.text]
  simp only [parseScalarAmo, hjoin, hparts]
  rw [← hjoin, before_join (hr (by decide))]
  exact reads_three _ _ _

theorem reads_vectorAmo_three (hs : ',' ∉ s) (ht : ',' ∉ t) :
    Reads (parseVectorAmo (join ',' [(Operand.mem none base).text, s, t]))
      [getRegValue base.text, getRegValue s, getRegValue t] := by
  have hm := (Operand.mem none base).notMem_text (c := ',') (by decide)
  have hparts := baseAndOffset_mem none base (',' :: join ',' [s, t])
  rw [← join_mem] at hparts
  simp only [parseVectorAmo, hparts, after_join hm, before_join hs, after_join hs, join_singleton,
    before_of_notMem ht, after_of_notMem ht, if_neg ht]
  exact reads_three _ _ _

/-- The mask of a vector atomic operation is never read. -/
theorem reads_vectorAmo_four (hs : ',' ∉ s) (ht : ',' ∉ t) (hmask : ',' ∉ m) :
    Reads (parseVectorAmo (join ',' [(Operand.mem none base).text, s, t, m]))
      [getRegValue base.text, getRegValue s, getRegValue t] := by
  have hm := (Operand.mem none base).notMem_text (c := ',') (by decide)
  have hparts := baseAndOffset_mem none base (',' :: join ',' [s, t, m])
  rw [← join_mem] at hparts
  simp only [parseVectorAmo, hparts, after_join hm, before_join hs, after_join hs, before_join ht,
    after_join ht, join_singleton, if_neg hmask]
  exact reads_three _ _ _

end Addresses

end NdpSim
