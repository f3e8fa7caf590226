import NdpSim.Parser.Instruction
import NdpSim.Register.Unit

/-!
# Parsing a kernel

`parse_ndp_kernel` reads a trace line by line: headings open a section, labels are entered into
one map for the whole kernel, everything else is an instruction of the open section. A label
stands for the number of instructions since the last heading.
-/
namespace NdpSim

open Library Text

/-! ## Lines -/

/-- A label as it is written: `.LOOPn` or `.SKIPn`. -/
structure Label where
  skip : Bool
  number : Int
  deriving DecidableEq

/-- The number a label goes by in the map. -/
def Label.key (l : Label) : Int := if l.skip then l.number + skipLabel else l.number

/-- What follows `.LOOP` or `.SKIP`. -/
def labelText (t : Text) : Option (Bool × Text) :=
  if t.take 5 = ".LOOP".toList then some (false, t.drop 5)
  else if t.take 5 = ".SKIP".toList then some (true, t.drop 5)
  else none

def Label.ofText (t : Text) : Option Label :=
  match labelText t with
  | some (skip, digits) => (stoi digits).toOption.map (Label.mk skip)
  | none => none

inductive LineKind
  | skipped
  | heading (type : RequestType)
  | label (skip : Bool) (digits : Text)
  | instruction
  deriving DecidableEq

/-- What `parse_ndp_kernel` takes a line for. -/
def lineKind (line : Text) : LineKind :=
  if line.length ≤ 1 then .skipped
  else if line.take 1 = "#".toList then .skipped
  else if line = "INITIALIZER:".toList then .heading .initializer
  else if line = "KERNELBODY:".toList then .heading .kernelBody
  else if line = "FINALIZER:".toList then .heading .finalizer
  else
    match labelText line with
    | some (skip, digits) => .label skip digits
    | none => .instruction

/-! ## The parser -/

/-- A section of a kernel. -/
inductive KernelSection
  | initializer
  | kernelBody (i : Nat)
  | finalizer
  deriving DecidableEq

/-- What has been read of a kernel. -/
structure KernelTrace where
  kernelId : Nat
  step : RequestType
  arrIdx : Nat
  loopMap : LoopMap
  initializerInsts : List NdpInstruction
  kernelBodyInsts : List (List NdpInstruction)
  finalizerInsts : List NdpInstruction

namespace KernelTrace

def start (kernelId : Nat) : KernelTrace where
  kernelId := kernelId
  step := .initializer
  arrIdx := 0
  loopMap := ∅
  initializerInsts := []
  kernelBodyInsts := []
  finalizerInsts := []

/-- The instructions of a section. -/
def insts (t : KernelTrace) : KernelSection → List NdpInstruction
  | .initializer => t.initializerInsts
  | .kernelBody i => t.kernelBodyInsts.getD i []
  | .finalizer => t.finalizerInsts

def openSection (t : KernelTrace) : RequestType → Parse KernelTrace
  | .initializer => .ok { t with step := .initializer, arrIdx := 0 }
  | .kernelBody =>
    .ok { t with step := .kernelBody, arrIdx := 0, kernelBodyInsts := t.kernelBodyInsts ++ [[]] }
  | .finalizer =>
    if t.step = .kernelBody then .ok { t with step := .finalizer, arrIdx := 0 }
    else .error .assertion

/-- The label number is an `int`; an overflowing sum is undefined behaviour. -/
def addLabel (t : KernelTrace) (l : Label) : Parse KernelTrace :=
  if l.key < 2 ^ 31 then .ok { t with loopMap := t.loopMap.insert l.key t.arrIdx }
  else .error .undefined

def addInst (t : KernelTrace) (inst : NdpInstruction) : KernelTrace :=
  let t := { t with arrIdx := t.arrIdx + 1 }
  match t.step with
  | .initializer => { t with initializerInsts := t.initializerInsts ++ [inst] }
  | .kernelBody =>
    { t with
      kernelBodyInsts :=
        t.kernelBodyInsts.modify (t.kernelBodyInsts.length - 1) fun body => body ++ [inst] }
  | .finalizer => { t with finalizerInsts := t.finalizerInsts ++ [inst] }

def parseLine (t : KernelTrace) (line : Text) : Parse KernelTrace :=
  match lineKind line with
  | .skipped => .ok t
  | .heading type => t.openSection type
  | .label skip digits => do t.addLabel ⟨skip, ← Parse.ofText (stoi digits)⟩
  | .instruction => do return t.addInst (← parseNdpInstruction line)

end KernelTrace

/-- `sscanf(line, "-kernel id = %d")`, with the 32 bits of the `int` that is read; a kernel id it
does not find is left as it was. -/
def scanKernelId (line : Text) (kernelId : Nat) : Nat :=
  match (line.drop 10).dropWhile isSpace with
  | '=' :: rest =>
    match readNumber rest with
    | some (negative, n) => (BitVec.ofInt 32 (if negative then -n else n)).toNat
    | none => kernelId
  | _ => kernelId

/-- One of the two lines of the header. -/
def parseHeader (kernelId : Nat) (line : Text) : Parse Nat :=
  if line.take 12 = "-kernel name".toList then .ok kernelId
  else if line.take 10 = "-kernel id".toList then .ok (scanKernelId line kernelId)
  else .error .assertion

/-- The lines behind the header; the line after it is skipped. -/
def kernelLines (file : List Text) : List Text := file.drop 3

/-- `parse_ndp_kernel` -/
def parseNdpKernel (file : List Text) : Parse KernelTrace := do
  match file with
  | first :: second :: _ =>
    let kernelId ← parseHeader (← parseHeader 0 first) second
    (kernelLines file).foldlM KernelTrace.parseLine (.start kernelId)
  | _ => throw .assertion

/-! ## The text of a section -/

def isHeading (line : Text) : Bool :=
  match lineKind line with
  | .heading _ => true
  | _ => false

def isInstruction (line : Text) : Bool := lineKind line == .instruction

/-- The kernel bodies opened by some lines. -/
def bodyCount (lines : List Text) : Nat := lines.countP (lineKind · = .heading .kernelBody)

/-- The section that is open behind some lines, by their last heading. -/
def sectionOf (lines : List Text) : KernelSection :=
  match (lines.reverse.find? isHeading).map lineKind with
  | some (.heading .kernelBody) => .kernelBody (bodyCount lines - 1)
  | some (.heading .finalizer) => .finalizer
  | _ => .initializer

/-- The instructions since the last heading. -/
def offset (lines : List Text) : Nat :=
  (lines.reverse.takeWhile fun line => !isHeading line).countP isInstruction

/-- The line is an instruction of a section. -/
def InSection (lines : List Text) (S : KernelSection) (p : Nat) : Prop :=
  lines[p]?.any isInstruction = true ∧ sectionOf (lines.take p) = S

instance (lines : List Text) (S : KernelSection) (p : Nat) : Decidable (InSection lines S p) :=
  inferInstanceAs (Decidable (_ ∧ _))

/-- The instructions of a section before line `p`: the index of its first one from there on. -/
def indexOfLine (lines : List Text) (S : KernelSection) (p : Nat) : Nat :=
  (List.range p).countP fun i => InSection lines S i

/-- Line `p` is the label `l`. -/
def LabelAt (lines : List Text) (p : Nat) (l : Label) : Prop :=
  ∃ line skip digits, lines[p]? = some line ∧ lineKind line = .label skip digits ∧
    (stoi digits).toOption.map (Label.mk skip) = some l

/-- Line `p` is the last label with a number. -/
def LastLabel (lines : List Text) (key : Int) (p : Nat) : Prop :=
  (∃ l, LabelAt lines p l ∧ l.key = key) ∧ ∀ r l, p < r → LabelAt lines r l → l.key ≠ key

section Snoc

variable (lines : List Text) {line : Text}

theorem isHeading_iff {line : Text} :
    isHeading line = true ↔ ∃ type, lineKind line = .heading type := by
  unfold isHeading
  split
  case h_1 type h => simp [h]
  case h_2 h => simpa using fun type => h type

theorem sectionOf_snoc_heading {type : RequestType} (h : lineKind line = .heading type) :
    sectionOf (lines ++ [line]) =
      match type with
      | .initializer => .initializer
      | .kernelBody => .kernelBody (bodyCount lines)
      | .finalizer => .finalizer := by
  have hh : isHeading line = true := isHeading_iff.mpr ⟨type, h⟩
  simp only [sectionOf, List.reverse_append, List.reverse_singleton, List.singleton_append,
    List.find?_cons_of_pos hh, Option.map_some, h]
  cases type <;> simp [bodyCount, h]

theorem sectionOf_snoc (h : isHeading line = false) :
    sectionOf (lines ++ [line]) = sectionOf lines := by
  have hbody : lineKind line ≠ .heading .kernelBody := by
    intro hk
    rw [isHeading_iff.mpr ⟨_, hk⟩] at h
    cases h
  have hcount : bodyCount (lines ++ [line]) = bodyCount lines := by
    simp [bodyCount, hbody]
  simp only [sectionOf, List.reverse_append, List.reverse_singleton, List.singleton_append,
    List.find?_cons_of_neg (by simpa using h), hcount]

theorem offset_snoc : offset (lines ++ [line]) =
    if isHeading line then 0 else offset lines + if isInstruction line then 1 else 0 := by
  simp only [offset, List.reverse_append, List.reverse_singleton, List.singleton_append,
    List.takeWhile_cons]
  cases isHeading line with
  | true => simp
  | false => simp [List.countP_cons]

theorem inSection_append (more : List Text) {S : KernelSection} {p : Nat} (hp : p < lines.length) :
    InSection (lines ++ more) S p ↔ InSection lines S p := by
  rw [InSection, InSection, List.getElem?_append_left hp, List.take_append_of_le_length hp.le]

theorem indexOfLine_append (more : List Text) (S : KernelSection) {p : Nat}
    (hp : p ≤ lines.length) : indexOfLine (lines ++ more) S p = indexOfLine lines S p := by
  refine List.countP_congr fun i hi => ?_
  have hlt : i < lines.length := (List.mem_range.mp hi).trans_le hp
  simpa using inSection_append lines more hlt

theorem indexOfLine_succ (S : KernelSection) (p : Nat) :
    indexOfLine lines S (p + 1) =
      indexOfLine lines S p + if InSection lines S p then 1 else 0 := by
  simp [indexOfLine, List.range_succ]

theorem inSection_snoc {S : KernelSection} :
    InSection (lines ++ [line]) S lines.length ↔
      isInstruction line = true ∧ sectionOf lines = S := by
  simp [InSection]

theorem labelAt_append {more : List Text} {l : Label} {p : Nat} (hp : p < lines.length) :
    LabelAt (lines ++ more) p l ↔ LabelAt lines p l := by
  rw [LabelAt, LabelAt, List.getElem?_append_left hp]

theorem LabelAt.lt {lines : List Text} {p : Nat} {l : Label} (h : LabelAt lines p l) :
    p < lines.length := by
  obtain ⟨line, -, -, hline, -⟩ := h
  exact (List.getElem?_eq_some_iff.mp hline).1

end Snoc

/-! ## The parser keeps to the text -/

namespace KernelTrace

/-- The section instructions are added to. -/
def current (t : KernelTrace) : KernelSection :=
  match t.step with
  | .initializer => .initializer
  | .kernelBody => .kernelBody (t.kernelBodyInsts.length - 1)
  | .finalizer => .finalizer

theorem insts_addInst {t : KernelTrace} (inst : NdpInstruction)
    (hopen : t.step = .kernelBody → t.kernelBodyInsts ≠ []) (S : KernelSection) :
    (t.addInst inst).insts S = if S = t.current then t.insts S ++ [inst] else t.insts S := by
  unfold addInst current
  cases hstep : t.step with
  | initializer | finalizer => cases S <;> simp [insts]
  | kernelBody =>
    have hpos := List.length_pos_iff.mpr (hopen hstep)
    cases S with
    | initializer | finalizer => simp [insts]
    | kernelBody i =>
      simp only [insts, List.getD_eq_getElem?_getD, List.getElem?_modify,
        KernelSection.kernelBody.injEq]
      by_cases hi : t.kernelBodyInsts.length - 1 = i
      · subst hi
        simp [List.getElem?_eq_getElem (Nat.sub_lt hpos Nat.one_pos)]
      · simp [hi, Ne.symm hi]

theorem insts_openSection {t t' : KernelTrace} {type : RequestType}
    (h : t.openSection type = .ok t') (S : KernelSection) : t'.insts S = t.insts S := by
  cases type with
  | initializer =>
    obtain rfl := Except.ok.inj h
    cases S <;> rfl
  | finalizer =>
    simp only [openSection] at h
    split at h
    · obtain rfl := Except.ok.inj h
      cases S <;> rfl
    · cases h
  | kernelBody =>
    obtain rfl := Except.ok.inj h
    cases S with
    | initializer | finalizer => rfl
    | kernelBody i =>
      simp only [insts, List.getD_eq_getElem?_getD, List.getElem?_append]
      split
      · rfl
      case isFalse hi =>
        rw [List.getElem?_eq_none (Nat.not_lt.mp hi)]
        cases i - t.kernelBodyInsts.length <;> rfl

/-- What has been read agrees with the text of the lines read. -/
structure Tracks (lines : List Text) (t : KernelTrace) : Prop where
  current : t.current = sectionOf lines
  bodies : t.kernelBodyInsts.length = bodyCount lines
  isOpen : t.step = .kernelBody → t.kernelBodyInsts ≠ []
  arrIdx : t.arrIdx = offset lines
  length : ∀ S, (t.insts S).length = indexOfLine lines S lines.length
  content : ∀ p line, lines[p]? = some line → isInstruction line = true →
    ∃ inst, parseNdpInstruction line = .ok inst ∧
      (t.insts (sectionOf (lines.take p)))[indexOfLine lines (sectionOf (lines.take p)) p]? =
        some inst
  labels : ∀ key p, LastLabel lines key p →
    t.loopMap.lookup key = some ((offset (lines.take p) : Nat) : Int)
  bounded : ∀ p l, LabelAt lines p l → l.key < 2 ^ 31

section Step

variable {lines : List Text} {line : Text} {t t' : KernelTrace}

/-- A new line does not move the instructions already read. -/
theorem Tracks.content_snoc (h : Tracks lines t) (hline : isInstruction line = false)
    (hinsts : ∀ S, t'.insts S = t.insts S) :
    ∀ p l, (lines ++ [line])[p]? = some l → isInstruction l = true →
      ∃ inst, parseNdpInstruction l = .ok inst ∧
        (t'.insts (sectionOf ((lines ++ [line]).take p)))[indexOfLine (lines ++ [line])
          (sectionOf ((lines ++ [line]).take p)) p]? = some inst := by
  intro p l hp hl
  have hlt : p < lines.length := by
    by_contra hge
    rw [List.getElem?_append_right (Nat.not_lt.mp hge)] at hp
    have hmem := List.mem_of_getElem? hp
    rw [List.mem_singleton.mp hmem, hline] at hl
    cases hl
  rw [List.getElem?_append_left hlt] at hp
  rw [List.take_append_of_le_length hlt.le, indexOfLine_append lines _ _ hlt.le, hinsts]
  exact h.content p l hp hl

theorem Tracks.length_snoc (h : Tracks lines t) (hline : isInstruction line = false)
    (hinsts : ∀ S, t'.insts S = t.insts S) (S : KernelSection) :
    (t'.insts S).length = indexOfLine (lines ++ [line]) S (lines ++ [line]).length := by
  rw [hinsts, h.length, List.length_append, List.length_singleton, indexOfLine_succ,
    indexOfLine_append lines _ _ le_rfl, if_neg]
  · rfl
  · rw [inSection_snoc, hline]
    simp

/-- A line that is no label leaves the labels as they are. -/
theorem labelAt_snoc (hline : ∀ skip digits, lineKind line ≠ .label skip digits) {p : Nat}
    {l : Label} : LabelAt (lines ++ [line]) p l ↔ LabelAt lines p l := by
  constructor
  · intro h
    have hlt := h.lt
    rw [List.length_append, List.length_singleton] at hlt
    obtain hlt | rfl := Nat.lt_succ_iff_lt_or_eq.mp hlt
    · exact (labelAt_append lines hlt).mp h
    · obtain ⟨line', skip, digits, hl, hkind, -⟩ := h
      rw [List.getElem?_concat_length] at hl
      obtain rfl := Option.some_inj.mp hl
      exact absurd hkind (hline skip digits)
  · intro h
    exact (labelAt_append lines h.lt).mpr h

theorem Tracks.labels_snoc (h : Tracks lines t)
    (hline : ∀ skip digits, lineKind line ≠ .label skip digits) (hmap : t'.loopMap = t.loopMap) :
    ∀ key p, LastLabel (lines ++ [line]) key p →
      t'.loopMap.lookup key = some ((offset ((lines ++ [line]).take p) : Nat) : Int) := by
  intro key p hlast
  simp only [LastLabel, labelAt_snoc hline] at hlast
  obtain ⟨l, hl, -⟩ := hlast.1
  rw [hmap, List.take_append_of_le_length hl.lt.le]
  exact h.labels key p hlast

theorem Tracks.bounded_snoc (h : Tracks lines t)
    (hline : ∀ skip digits, lineKind line ≠ .label skip digits) :
    ∀ p l, LabelAt (lines ++ [line]) p l → l.key < 2 ^ 31 :=
  fun p l hl => h.bounded p l ((labelAt_snoc hline).mp hl)

theorem Tracks.skipped (h : Tracks lines t) (hline : lineKind line = .skipped) :
    Tracks (lines ++ [line]) t := by
  have hh : isHeading line = false := by simp [isHeading, hline]
  have hi : isInstruction line = false := by simp [isInstruction, hline]
  have hl : ∀ skip digits, lineKind line ≠ .label skip digits := by simp [hline]
  refine ⟨?_, ?_, h.isOpen, ?_, h.length_snoc hi fun _ => rfl, h.content_snoc hi fun _ => rfl,
    h.labels_snoc hl rfl, h.bounded_snoc hl⟩
  · rw [sectionOf_snoc lines hh, h.current]
  · rw [h.bodies]
    simp [bodyCount, hline]
  · rw [offset_snoc, hh, hi, h.arrIdx]
    rfl

theorem Tracks.heading {type : RequestType} (h : Tracks lines t)
    (hline : lineKind line = .heading type) (ht : t.openSection type = .ok t') :
    Tracks (lines ++ [line]) t' := by
  have hh : isHeading line = true := isHeading_iff.mpr ⟨type, hline⟩
  have hi : isInstruction line = false := by simp [isInstruction, hline]
  have hl : ∀ skip digits, lineKind line ≠ .label skip digits := by simp [hline]
  have hinsts := insts_openSection ht
  have hfields : t'.step = type ∧ t'.arrIdx = 0 ∧ t'.loopMap = t.loopMap ∧
      t'.kernelBodyInsts = t.kernelBodyInsts ++ if type = .kernelBody then [[]] else [] := by
    cases type with
    | initializer | kernelBody =>
      obtain rfl := Except.ok.inj ht
      simp
    | finalizer =>
      simp only [openSection] at ht
      split at ht
      · obtain rfl := Except.ok.inj ht
        simp
      · cases ht
  obtain ⟨hstep, hidx, hmap, hbodies⟩ := hfields
  refine ⟨?_, ?_, ?_, ?_, h.length_snoc hi hinsts, h.content_snoc hi hinsts,
    h.labels_snoc hl hmap, h.bounded_snoc hl⟩
  · rw [sectionOf_snoc_heading lines hline, KernelTrace.current, hstep, hbodies, ← h.bodies]
    cases type <;> simp
  · rw [hbodies, List.length_append, h.bodies]
    cases type <;> simp [bodyCount, hline]
  · intro hk
    rw [hbodies, if_pos (hstep ▸ hk)]
    simp
  · rw [offset_snoc, hh, hidx]
    rfl

theorem Tracks.label {skip : Bool} {digits : Text} {n : Int} (h : Tracks lines t)
    (hline : lineKind line = .label skip digits) (hn : stoi digits = .ok n)
    (ht : t.addLabel ⟨skip, n⟩ = .ok t') : Tracks (lines ++ [line]) t' := by
  have hh : isHeading line = false := by simp [isHeading, hline]
  have hi : isInstruction line = false := by simp [isInstruction, hline]
  unfold addLabel at ht
  split at ht
  case isFalse => cases ht
  case isTrue hkey =>
    obtain rfl := Except.ok.inj ht
    have hinsts (S : KernelSection) : KernelTrace.insts
        { t with loopMap := t.loopMap.insert (Label.key ⟨skip, n⟩) t.arrIdx } S = t.insts S := by
      cases S <;> rfl
    have hlast {l : Label} : LabelAt (lines ++ [line]) lines.length l ↔ l = ⟨skip, n⟩ := by
      constructor
      · rintro ⟨line', skip', digits', hl, hkind, hl'⟩
        rw [List.getElem?_concat_length] at hl
        obtain rfl := Option.some_inj.mp hl
        rw [hline] at hkind
        obtain ⟨rfl, rfl⟩ : skip = skip' ∧ digits = digits' := by simpa using hkind
        simpa [hn, Except.toOption, eq_comm] using hl'
      · rintro rfl
        exact ⟨line, skip, digits, by simp, hline, by simp [hn, Except.toOption]⟩
    refine ⟨?_, ?_, h.isOpen, ?_, h.length_snoc hi hinsts, h.content_snoc hi hinsts, ?_, ?_⟩
    · rw [sectionOf_snoc lines hh]
      exact h.current
    · simp [bodyCount, hline, h.bodies]
    · rw [offset_snoc, hh, hi]
      exact h.arrIdx
    · -- the new label hides the older ones with its number
      rintro key p ⟨⟨l, hl, rfl⟩, hafter⟩
      have hlt := hl.lt
      rw [List.length_append, List.length_singleton] at hlt
      obtain hlt | rfl := Nat.lt_succ_iff_lt_or_eq.mp hlt
      · have hne : l.key ≠ Label.key ⟨skip, n⟩ :=
          (hafter lines.length ⟨skip, n⟩ hlt (hlast.mpr rfl)).symm
        rw [AList.lookup_insert_ne hne, List.take_append_of_le_length hlt.le]
        refine h.labels _ p ⟨⟨l, (labelAt_append lines hlt).mp hl, rfl⟩, fun r l' hr hl' => ?_⟩
        exact hafter r l' hr ((labelAt_append lines hl'.lt).mpr hl')
      · obtain rfl := hlast.mp hl
        rw [AList.lookup_insert, List.take_left', h.arrIdx]
        rfl
    · intro p l hl
      have hlt := hl.lt
      rw [List.length_append, List.length_singleton] at hlt
      obtain hlt | rfl := Nat.lt_succ_iff_lt_or_eq.mp hlt
      · exact h.bounded p l ((labelAt_append lines hlt).mp hl)
      · rw [hlast.mp hl]
        exact hkey

theorem Tracks.instruction {inst : NdpInstruction} (h : Tracks lines t)
    (hline : lineKind line = .instruction) (hinst : parseNdpInstruction line = .ok inst) :
    Tracks (lines ++ [line]) (t.addInst inst) := by
  have hh : isHeading line = false := by simp [isHeading, hline]
  have hi : isInstruction line = true := by simp [isInstruction, hline]
  have hl : ∀ skip digits, lineKind line ≠ .label skip digits := by simp [hline]
  have hinsts := insts_addInst inst h.isOpen
  have hfields : (t.addInst inst).step = t.step ∧ (t.addInst inst).arrIdx = t.arrIdx + 1 ∧
      (t.addInst inst).loopMap = t.loopMap ∧
      (t.addInst inst).kernelBodyInsts.length = t.kernelBodyInsts.length := by
    unfold addInst
    cases hs : t.step <;> simp
  obtain ⟨hstep, hidx, hmap, hbodies⟩ := hfields
  refine ⟨?_, ?_, ?_, ?_, fun S => ?_, fun p l hp hl => ?_, h.labels_snoc hl hmap,
    h.bounded_snoc hl⟩
  · rw [sectionOf_snoc lines hh, ← h.current, KernelTrace.current, KernelTrace.current, hstep,
      hbodies]
  · rw [hbodies, h.bodies]
    simp [bodyCount, hline]
  · intro hk
    rw [← List.length_pos_iff, hbodies, List.length_pos_iff]
    exact h.isOpen (hstep ▸ hk)
  · rw [offset_snoc, hh, hi, hidx, h.arrIdx]
    rfl
  · rw [hinsts, List.length_append, List.length_singleton, indexOfLine_succ,
      indexOfLine_append lines _ _ le_rfl, ← h.length, h.current]
    simp only [inSection_snoc, hi, true_and, eq_comm (a := S)]
    split <;> simp
  · by_cases hlt : p < lines.length
    · rw [List.getElem?_append_left hlt] at hp
      obtain ⟨inst', hparse, hget⟩ := h.content p l hp hl
      refine ⟨inst', hparse, ?_⟩
      rw [List.take_append_of_le_length hlt.le, indexOfLine_append lines _ _ hlt.le, hinsts]
      split
      · rw [List.getElem?_append_left (List.getElem?_eq_some_iff.mp hget).1]
        exact hget
      · exact hget
    · -- the instruction just read is the last of its section
      obtain rfl : p = lines.length := by
        have := (List.getElem?_eq_some_iff.mp hp).1
        rw [List.length_append, List.length_singleton] at this
        omega
      rw [List.getElem?_concat_length] at hp
      obtain rfl := Option.some_inj.mp hp
      refine ⟨inst, hinst, ?_⟩
      rw [List.take_left', indexOfLine_append lines _ _ le_rfl, hinsts, if_pos h.current.symm,
        ← h.length, List.getElem?_concat_length]
      rfl

theorem Tracks.parseLine (h : Tracks lines t) (ht : t.parseLine line = .ok t') :
    Tracks (lines ++ [line]) t' := by
  unfold KernelTrace.parseLine at ht
  split at ht
  case h_1 hk =>
    obtain rfl := Except.ok.inj ht
    exact h.skipped hk
  case h_2 type hk => exact h.heading hk ht
  case h_3 skip digits hk =>
    obtain ⟨n, hn, ht⟩ := bind_eq_ok.mp ht
    have hn' : stoi digits = .ok n := by
      cases hd : stoi digits with
      | ok k =>
        rw [hd] at hn
        exact congrArg _ (Except.ok.inj hn)
      | error f =>
        rw [hd] at hn
        cases hn
    exact h.label hk hn' ht
  case h_4 hk =>
    obtain ⟨inst, hinst, ht⟩ := bind_eq_ok.mp ht
    obtain rfl := Except.ok.inj ht
    exact h.instruction hk hinst

end Step

theorem tracks_start (kernelId : Nat) : Tracks [] (start kernelId) := by
  refine ⟨rfl, rfl, nofun, rfl, ?_, nofun, ?_, ?_⟩
  · intro S
    cases S <;> rfl
  · rintro key p ⟨⟨l, hl, -⟩, -⟩
    exact absurd hl.lt (Nat.not_lt_zero _)
  · intro p l hl
    exact absurd hl.lt (Nat.not_lt_zero _)

theorem tracks_foldlM {lines : List Text} {t t' : KernelTrace} {pre : List Text}
    (h : Tracks pre t) (ht : lines.foldlM parseLine t = .ok t') : Tracks (pre ++ lines) t' := by
  induction lines generalizing pre t with
  | nil =>
    obtain rfl := Except.ok.inj ht
    rwa [List.append_nil]
  | cons line lines ih =>
    obtain ⟨t₁, h₁, ht⟩ := bind_eq_ok.mp ht
    rw [← List.singleton_append, ← List.append_assoc]
    exact ih (h.parseLine h₁) ht

end KernelTrace

/-- What was parsed agrees with the text of the file. -/
theorem tracks_of_parse {file : List Text} {t : KernelTrace} (h : parseNdpKernel file = .ok t) :
    t.Tracks (kernelLines file) := by
  unfold parseNdpKernel at h
  split at h
  case h_1 =>
    obtain ⟨id₁, -, h⟩ := bind_eq_ok.mp h
    obtain ⟨id₂, -, h⟩ := bind_eq_ok.mp h
    exact KernelTrace.tracks_foldlM (KernelTrace.tracks_start id₂) h
  case h_2 => cases h

end NdpSim
