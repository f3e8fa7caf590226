import NdpSim.Isa.Instruction
import NdpSim.Library.Effects
import NdpSim.Library.Text

/-!
# Parsing an instruction

`ParseNdpInstruction` cuts a line into mnemonic, destination and the rest, looks the mnemonic up
and lets the opcode, then the operand type, decide how the rest is read. Operands are read by
position only: what kind of register a position holds is not checked.
-/
namespace NdpSim

open Library Text

inductive ParseFault
  | text (f : Text.Fault)
  | assertion
  | runtimeError (what : String)
  | undefined
  deriving DecidableEq

abbrev Parse (α : Type) := Except ParseFault α

def Parse.ofText {α : Type} : Except Text.Fault α → Parse α
  | .ok a => .ok a
  | .error f => .error (.text f)

/-! ## Names -/

/-- `opcode_type_map` -/
def opcodeTypeMap : List (String × Opcode) :=
  [("add", .add), ("addi", .addi), ("sub", .sub), ("mul", .mul), ("muli", .muli), ("sll", .sll),
    ("slli", .slli), ("srl", .srl), ("srli", .srli), ("div", .div), ("rem", .rem), ("and", .and),
    ("andi", .andi), ("or", .or), ("ori", .ori), ("csrw", .csrw), ("csrwi", .csrwi), ("li", .li),
    ("lb", .lb), ("lw", .lw), ("ld", .ld), ("lbu", .lbu), ("sb", .sb), ("sd", .sd), ("sw", .sw),
    ("fadd", .fadd), ("fsub", .fsub), ("fmul", .fmul), ("fdiv", .fdiv), ("fmv", .fmv),
    ("flw", .flw), ("fsw", .fsw), ("vsetvli", .vsetvli), ("vadd", .vadd), ("vsub", .vsub),
    ("vrsub", .vrsub), ("vmul", .vmul), ("vdiv", .vdiv), ("vsll", .vsll), ("vsrl", .vsrl),
    ("vsra", .vsra), ("vnadd", .vnadd), ("vfrdiv", .vfrdiv), ("vmv", .vmv), ("vfadd", .vfadd),
    ("vfsub", .vfsub), ("vfrsub", .vfrsub), ("vfmul", .vfmul), ("vfwmul", .vfwmul),
    ("vfdiv", .vfdiv), ("vfmacc", .vfmacc), ("vfmsub", .vfmsub), ("vfwmacc", .vfwmacc),
    ("vfncvt", .vfncvt), ("vfcvt", .vfcvt), ("vfwcvt", .vfwcvt), ("vfwsub", .vfwsub),
    ("vfredosum", .vfredosum), ("vwredosum", .vwredosum), ("vfredomax", .vfredomax),
    ("vwredomax", .vwredomax), ("vfmv", .vfmv), ("vfsqrt", .vfsqrt), ("vmin", .vmin),
    ("vmax", .vmax), ("vle8", .vle8), ("vse8", .vse8), ("vle16", .vle16), ("vse16", .vse16),
    ("vle32", .vle32), ("vse32", .vse32), ("vle64", .vle64), ("vse64", .vse64),
    ("vamoaddei8", .vamoaddei8), ("vamoaddei16", .vamoaddei16), ("vamoaddei32", .vamoaddei32),
    ("vamoaddei64", .vamoaddei64), ("vamoandei16", .vamoandei16), ("vamoandei32", .vamoandei32),
    ("vamoorei16", .vamoorei16), ("vamoorei32", .vamoorei32), ("vamomaxei16", .vamomaxei16),
    ("vamomaxei32", .vamomaxei32), ("vamominei16", .vamominei16), ("vamominei32", .vamominei32),
    ("amoadd", .amoadd), ("amomax", .amomax), ("famoadd", .famoadd), ("famoaddh", .famoaddh),
    ("famomax", .famomax), ("vid", .vid), ("vmset", .vmset), ("vmseq", .vmseq),
    ("vmsne", .vmsne), ("vmslt", .vmslt), ("vmsgt", .vmsgt), ("vmsle", .vmsle),
    ("vmsge", .vmsge), ("vmand", .vmand), ("vmor", .vmor), ("vcompress", .vcompress),
    ("vand", .vand), ("vor", .vor), ("vfirst", .vfirst), ("vlsseg", .vlsseg),
    ("vslide1down", .vslide1down), ("vslidedown", .vslidedown), ("vslide1up", .vslide1up),
    ("vslideup", .vslideup), ("vredsum", .vredsum), ("vredmax", .vredmax), ("vredmin", .vredmin),
    ("vredand", .vredand), ("vredor", .vredor), ("vfsgnj", .vfsgnj), ("vfsgnjn", .vfsgnjn),
    ("vfsgnjx", .vfsgnjx), ("j", .j), ("beq", .beq), ("beqz", .beqz), ("bgt", .bgt),
    ("bgtz", .bgtz), ("blt", .blt), ("ble", .ble), ("bltz", .bltz), ("blez", .blez),
    ("bge", .bge), ("bgez", .bgez), ("bne", .bne), ("bnez", .bnez), ("vluxei32", .vluxei32),
    ("vluxei64", .vluxei64), ("vsuxei32", .vsuxei32), ("vsuxei64", .vsuxei64), ("fexp", .fexp),
    ("vfexp", .vfexp), ("TEST", .test), ("EXIT", .exit)]

/-- `operand_type_map`; the types it does not name cannot be written. -/
def operandTypeMap : List (String × OperandType) :=
  [("v", .v), ("wv", .wv), ("vv", .vv), ("vi", .vi), ("vx", .vx), ("vf", .vf), ("vs", .vs),
    ("v.v", .v_v), ("v.x", .v_x), ("v.i", .v_i), ("v.f", .v_f), ("f.s", .f_s), ("s.f", .s_f),
    ("xu.f.v", .xu_f_v), ("x.f.v", .x_f_v), ("f.xu.v", .f_xu_v), ("f.x.v", .f_x_v),
    ("f.f.v", .f_f_v), ("f.f.w", .f_f_w), ("vm", .vm), ("m", .m), ("mm", .mm), ("x.s", .x_s),
    ("s.x", .s_x), ("x.w", .x_w), ("w.x", .w_x), ("wx", .wx), ("d", .d), ("w", .w)]

/-- The operands `GetRegValue` knows by name. -/
def namedRegs : List (String × Int) :=
  [("DATA", regRequestData), ("OFFSET", regRequestOffset), ("ADDR", regAddr),
    ("NDPID", regNdpId), ("e8", immE8), ("e16", immE16), ("e32", immE32), ("e64", immE64),
    ("mf8", immMF8), ("mf4", immMF4), ("mf2", immMF2), ("m1", immM1), ("m2", immM2),
    ("m4", immM4), ("m8", immM8), ("ma", immMA), ("mu", immMU), ("ta", immTA), ("tu", immTU),
    ("vstart", regVstart), ("x0", regX0)]

/-- A register number is cut to 32 bits. -/
def regNumber (base : Int) (digits : Text) : Parse Int := do
  return (base + (← Parse.ofText (stoull digits))) % 2 ^ 32

/-- `GetRegValue`; a token it does not know is warned about and counts as 0. -/
def getRegValue (token : Text) : Parse Int :=
  match namedRegs.lookup (String.ofList token) with
  | some r => .ok r
  | none =>
    match token with
    | 'x' :: d :: ds => regNumber regXBase (d :: ds)
    | 'f' :: d :: ds => regNumber regFBase (d :: ds)
    | 'v' :: d :: ds => regNumber regVBase (d :: ds)
    | _ => .ok 0

/-! ## Operands -/

/-- The source fields, those not given being `-1`. -/
def sources (rs : List Int) : Fin 5 → Int := fun i => rs.getD i (-1)

/-- What stands between the parentheses, and before them. -/
def baseAndOffset (src : Text) : Parse (Text × Text) := do
  let first := find '(' src
  let last := find ')' src
  let offset ← Parse.ofText (substr src 0 first)
  let base ← Parse.ofText (substr src (first + 1) (last - first - 1))
  return (base, offset)

/-- Two registers. -/
def parseRegisters (src : Text) : Parse (List Int) := do
  return [← getRegValue (before ',' src), ← getRegValue (after ',' src)]

/-- A register and an immediate. -/
def parseImmediate (src : Text) : Parse (List Int) := do
  return [← getRegValue (before ',' src), ← Parse.ofText (stoll (after ',' src))]

/-- A register, and a second one behind a comma. -/
def parseBinary (src : Text) : Parse (List Int) := do
  let vs1 ← getRegValue (before ',' src)
  if ',' ∈ src then return [vs1, ← getRegValue (after ',' src)] else return [vs1]

/-- `offset(base)` -/
def parseMemory (src : Text) : Parse (List Int) := do
  let (base, offset) ← baseAndOffset src
  let r ← getRegValue base
  if offset ≠ [] ∧ '(' ∈ src then return [r, ← Parse.ofText (stoll offset)] else return [r, 0]

def parseOffset (offset : Text) : Parse Int :=
  if offset ≠ [] then Parse.ofText (stoll offset) else .ok 0

/-- `offset(base), vs2[, vm]` -/
def parseIndexedLoad (src : Text) : Parse (List Int) := do
  let (base, offset) ← baseAndOffset src
  let src := after ',' src
  let r ← getRegValue base
  let n ← parseOffset offset
  let vs2 ← getRegValue (before ',' src)
  if ',' ∈ src then return [r, n, vs2, ← getRegValue (after ',' src)] else return [r, n, vs2]

/-- The name of the index register is cut to two characters. -/
def parseIndexedStore (src : Text) : Parse (List Int) := do
  let (base, offset) ← baseAndOffset src
  let src ← Parse.ofText (if ',' ∈ src then .ok (src.dropWhile (· ≠ ',')) else .error .outOfRange)
  let vs2 ← Parse.ofText (substr src 1 2)
  let vs3 := after ',' (after ',' src)
  let r ← getRegValue base
  let n ← parseOffset offset
  return [r, n, ← getRegValue vs2, ← getRegValue vs3]

/-- `rd, rs2, (rs1)`; the destination is a source as well. -/
def parseScalarAmo (dest src : Text) : Parse (List Int) := do
  let (rs1, _) ← baseAndOffset src
  return [← getRegValue dest, ← getRegValue (before ',' src), ← getRegValue rs1]

/-- `(base), vs2, vs3[, vm]` -/
def parseVectorAmo (src : Text) : Parse (List Int) := do
  let (base, _) ← baseAndOffset src
  let src := after ',' src
  let vs2 := before ',' src
  let src := after ',' src
  let vs3 := before ',' src
  let src := after ',' src
  let rs := [← getRegValue base, ← getRegValue vs2, ← getRegValue vs3]
  if ',' ∈ src then return rs ++ [← getRegValue (before ',' src)] else return rs

/-- The register multiplier lands in another field for every number of operands. -/
def parseVsetvli (src : Text) : Parse (List Int) := do
  let operandCount := src.count ',' + 1
  if operandCount < 2 then throw .assertion
  let vs1 := before ',' src
  let src := after ',' src
  let vs2 := before ',' src
  let src := after ',' src
  match operandCount with
  | 2 => return [← getRegValue vs1, ← getRegValue vs2, immM1, 0, 0]
  | 3 => return [← getRegValue vs1, ← getRegValue vs2, ← getRegValue (before ',' src), 0, 0]
  | 4 =>
    let vs3 := before ',' src
    let vs4 := before ',' src
    return [← getRegValue vs1, ← getRegValue vs2, ← getRegValue vs3, ← getRegValue vs4, 0]
  | 5 =>
    let vs3 := before ',' src
    let src := after ',' src
    let vs4 := before ',' src
    return [← getRegValue vs1, ← getRegValue vs2, immM1, ← getRegValue vs3, ← getRegValue vs4]
  | 6 =>
    let vs3 := before ',' src
    let src := after ',' src
    let vs4 := before ',' src
    let src := after ',' src
    let vs5 := before ',' src
    return [← getRegValue vs1, ← getRegValue vs2, ← getRegValue vs3, ← getRegValue vs4,
      ← getRegValue vs5]
  | _ => return []

/-- `vs1, vs2[, vm]` of a reduction. -/
def parseReduction (src : Text) : Parse (List Int) := do
  let vs1 := before ',' src
  let src := after ',' src
  let rs := [← getRegValue vs1, ← getRegValue (before ',' src)]
  if ',' ∈ src then return rs ++ [← getRegValue (before ',' (after ',' src))] else return rs

/-- `vor.vv` reads its last operand as a mask even if there is none. -/
def parseVor (src : Text) : Parse (List Int) := do
  let vs1 := before ',' src
  let src := after ',' src
  return [← getRegValue vs1, ← getRegValue (before ',' src), ← getRegValue (after ',' src)]

def skipLabel : Int := 100

/-- An `int`; an overflowing sum is undefined behaviour. -/
def ofSum (n : Int) : Parse Int := if n < 2 ^ 31 then .ok n else .error .undefined

theorem ofSum_eq_ok {n m : Int} : ofSum n = .ok m ↔ n < 2 ^ 31 ∧ m = n := by
  unfold ofSum
  split
  case isTrue h => exact ⟨fun he => ⟨h, (Except.ok.inj he).symm⟩, fun he => by rw [he.2]⟩
  case isFalse h => exact ⟨fun he => (nomatch he), fun he => absurd he.1 h⟩

/-- The number of a label. -/
def parseLabel (loop : Text) : Parse Int :=
  if loop.take 5 = ".LOOP".toList then Parse.ofText (stoi (loop.drop 5))
  else if loop.take 5 = ".SKIP".toList then do
    ofSum ((← Parse.ofText (stoi (loop.drop 5))) + skipLabel)
  else throw (.runtimeError "Wrong Loop Name.")

/-- The sources of an instruction, in the order in which the parser tries its cases. -/
def parseSources (op : Opcode) (operandType : OperandType) (dest src : Text) :
    Parse (List Int) :=
  if op ∈ [.li, .csrwi] then do return [← Parse.ofText (stoll src)]
  else if op = .csrw then do return [← getRegValue src]
  else if op = .lbu then do
    return [← getRegValue (before ',' src), ← Parse.ofText (stoi (after ',' src))]
  else if op = .vand then
    match operandType with
    | .vv => parseRegisters src
    | .vi => parseImmediate src
    | _ => return []
  else if op = .vor then
    if operandType = .vv then parseVor src else return []
  else if op ∈ [.vmand, .vmor] then
    if operandType = .mm then parseRegisters src else return []
  else if op ∈ [.vle8, .vse8, .vle16, .vse16, .vle32, .vse32, .vle64, .vse64, .lw, .sw, .flw,
      .fsw, .sb, .sd, .lb, .ld] then parseMemory src
  else if op ∈ [.vluxei32, .vluxei64] then parseIndexedLoad src
  else if op ∈ [.vsuxei32, .vsuxei64] then parseIndexedStore src
  else if op = .vlsseg then do
    let (vs1, _) ← baseAndOffset src
    return [← getRegValue vs1, ← getRegValue (after ',' src)]
  else if op = .vid then do return [← getRegValue src]
  else if op ∈ [.vmseq, .vmsne, .vmslt, .vmsgt, .vmsle, .vmsge] then
    match operandType with
    | .vi => parseImmediate src
    | .vx | .vv | .vf => parseRegisters src
    | _ => return []
  else if op.checkAmoOp then
    if op ∈ [.amoadd, .famoadd, .famoaddh, .amomax, .famomax] then parseScalarAmo dest src
    else parseVectorAmo src
  else if op = .vsetvli then parseVsetvli src
  else if op ∈ [.addi, .muli, .slli, .srli, .andi, .ori] ∨ operandType = .vi then
    parseImmediate src
  else if op ∈ [.vslide1down, .vslide1up, .vslidedown, .vslideup] then
    if operandType = .vx then parseRegisters src
    else throw (.runtimeError "Unsupported Operand Type for VSLIDE")
  else if op ∈ [.vredsum, .vredmax, .vredmin, .vredand, .vredor] then
    if operandType ≠ .vs then throw (.runtimeError "Unsupported Operand Type for VRED")
    else parseReduction src
  else if operandType = .v then do
    return [← getRegValue (before ',' src), ← getRegValue (before ',' (after ',' src))]
  else if operandType = .m then do return [← getRegValue src]
  else if operandType = .x_s ∨ operandType = .s_x then do
    return [← getRegValue (before ',' src)]
  else if operandType = .v_i then do
    let x ← Parse.ofText (stoi src)
    if ',' ∈ src then return [x, ← getRegValue (after ',' src)] else return [x]
  else if operandType = .vf then parseRegisters src
  else if op = .test then do
    let s1 ← getRegValue (before ',' src)
    if operandType = .vv then return [s1, s1] else return [s1]
  else if op = .j then do return [-1, -1, ← parseLabel dest]
  else if op ∈ [.beq, .bgt, .blt, .bne, .ble, .bge] then do
    let label ← parseLabel (after ',' src)
    return [← getRegValue dest, ← getRegValue (before ',' src), label]
  else if op ∈ [.beqz, .bgtz, .bltz, .bnez, .blez, .bgez] then do
    let label ← parseLabel (before ',' src)
    return [← getRegValue dest, -1, label]
  else if op ∈ [.fexp, .vfexp] then do return [← getRegValue (before ',' src)]
  else parseBinary src

/-- The segment count of a mnemonic such as `vlsseg4`, and the registers of the segments. -/
def parseSegments (mnemonic dest : Text) (r : Int) : Parse (Int × (Fin 8 → Int)) := do
  let segCnt ← Parse.ofText (do stoi (← substr mnemonic 6 1))
  if 8 < segCnt then throw .assertion
  let i0 ← Parse.ofText (do stoi (← substr dest 1 (-1)))
  let rest ← (List.range' 1 (segCnt.toNat - 1)).mapM fun (i : Nat) => do
    let n ← ofSum (i0 + i)
    getRegValue (dest.take 1 ++ (toString n).toList)
  return (segCnt, fun i => (r :: rest).getD i 0)

/-- Only segment loads have segments. -/
def segmentsOf (op : Opcode) (mnemonic dest : Text) (r : Int) : Parse (Int × (Fin 8 → Int)) :=
  if op = .vlsseg then parseSegments mnemonic dest r else .ok (0, fun _ => 0)

/-! ## The instruction -/

/-- The mnemonic up to the first point, and its suffix behind it. -/
def parseOpcode (opcode : Text) : Text × Opcode × OperandType :=
  let lookup (name : Text) := (opcodeTypeMap.lookup (String.ofList name)).getD .invalidInst
  if '.' ∈ opcode then
    let mnemonic := before '.' opcode
    let op :=
      -- the last occurrence of the name is the first
      if "vlsseg".toList <+: mnemonic ∧ ¬ "vlsseg".toList <:+: mnemonic.drop 1 then .vlsseg
      else lookup mnemonic
    (mnemonic, op, (operandTypeMap.lookup (String.ofList (after '.' opcode))).getD .none)
  else (opcode, lookup opcode, .none)

/-- The three parts of a line; blanks are dropped behind the mnemonic. -/
def splitLine (line : Text) : Text × Text × Text :=
  let operands := (after ' ' line).filter (· ≠ ' ')
  (before ' ' line, before ',' operands, after ',' operands)

/-- Fields the parser leaves alone are 0, or `-1` if they are sources. -/
def parseNdpInstruction (line : Text) : Parse NdpInstruction := do
  let (opcode, dest, src) := splitLine line
  let (mnemonic, op, operandType) := parseOpcode opcode
  if op = .invalidInst then throw .assertion
  if op = .exit then
    return {
      opcode := op
      operandType := operandType
      src := sources []
      dest := 0
      segDest := fun _ => 0
      segCnt := 0
      doBranch := false }
  let r ← getRegValue dest
  let rs ← parseSources op operandType dest src
  let (segCnt, segDest) ← segmentsOf op mnemonic dest r
  return {
    opcode := op
    operandType := operandType
    src := sources rs
    dest := r
    segDest := segDest
    segCnt := segCnt
    doBranch := false }

/-- The parts of a line that is no `EXIT`. -/
structure ParsedAs (line : Text) (inst : NdpInstruction) : Prop where
  valid : inst.opcode ≠ .invalidInst
  opcode : (parseOpcode (splitLine line).1).2 = (inst.opcode, inst.operandType)
  dest : getRegValue (splitLine line).2.1 = .ok inst.dest
  src : ∃ rs, parseSources inst.opcode inst.operandType (splitLine line).2.1
    (splitLine line).2.2 = .ok rs ∧ inst.src = sources rs
  segments : segmentsOf inst.opcode (parseOpcode (splitLine line).1).1 (splitLine line).2.1
    inst.dest = .ok (inst.segCnt, inst.segDest)

theorem parsedAs_of_parse {line : Text} {inst : NdpInstruction}
    (h : parseNdpInstruction line = .ok inst) (hexit : inst.opcode ≠ .exit) :
    ParsedAs line inst := by
  simp only [parseNdpInstruction] at h
  split at h
  · cases h
  split at h
  case isTrue he =>
    obtain rfl := Except.ok.inj h
    exact absurd he hexit
  case isFalse hvalid he =>
    obtain ⟨r, hr, h⟩ := bind_eq_ok.mp h
    obtain ⟨rs, hrs, h⟩ := bind_eq_ok.mp h
    obtain ⟨⟨segCnt, segDest⟩, hseg, h⟩ := bind_eq_ok.mp h
    obtain rfl := Except.ok.inj h
    exact ⟨hvalid, rfl, hr, ⟨rs, hrs, rfl⟩, hseg⟩

end NdpSim
