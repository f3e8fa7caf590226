import NdpSim.Functional.Machine
import NdpSim.Isa.Elements
import NdpSim.Library.Streams

/-!
# Memory images

The constructor of `HashMemoryMap` that reads a file, line by line. A line of data is read into one
of four scratch vectors, by the declared type, and one of the four is stored.
-/
namespace NdpSim

open Library VectorData

/-- An exception of `std::stoi` that nobody catches. -/
def Fault.ofStoi : Text.Fault → Fault
  | .invalidArgument => .runtimeError "stoi"
  | .outOfRange => .outOfRange

/-- How floating-point numbers are read. -/
structure FloatReader where
  stof : Text → Except Fault F32
  read : Text → Option F32 × Text

/-- What `>>` has stored; a variable that nothing is stored in has not been initialized. -/
def assignedValue {α : Type} : Option α × Stream → Except Fault (α × Stream)
  | (some x, ss) => .ok (x, ss)
  | (none, _) => .error .undefined

/-- `input_data64` and the others. -/
structure InputData where
  data64 : VectorData
  data32 : VectorData
  data16 : VectorData
  data8 : VectorData

namespace InputData

def create (metaType : DataType) : InputData :=
  ⟨ofSewLmul 64 8, (ofSewLmul 32 8).setType metaType, ofSewLmul 16 8,
    (ofSewLmul 8 8).setType metaType⟩

section Read

variable [FloatOps] (reader : FloatReader)

def readHalves (iter : Nat) (input : InputData) (ss : Stream) :
    Except Fault (InputData × Stream) := do
  let (str₀, ss) := ss.word
  let (str₁, ss) := ss.word
  let fp₀ ← reader.stof str₀
  let fp₁ ← reader.stof str₁
  let v ← input.data16.setData (.half (FloatOps.halfOfFloat fp₀)) (iter * 2)
  let v ← v.setData (.half (FloatOps.halfOfFloat fp₁)) (iter * 2 + 1)
  return ({ input with data16 := v }, ss)

/-- The three byte types differ in the conversion only. -/
def readBytes (elem : Int → Elem) (iter : Nat) (input : InputData) (ss : Stream) :
    Except Fault (InputData × Stream) := do
  let (str₀, ss) := ss.word
  let (str₁, ss) := ss.word
  let (str₂, ss) := ss.word
  let (str₃, ss) := ss.word
  let x₀ ← (Text.stoi str₀).mapError Fault.ofStoi
  let x₁ ← (Text.stoi str₁).mapError Fault.ofStoi
  let x₂ ← (Text.stoi str₂).mapError Fault.ofStoi
  let x₃ ← (Text.stoi str₃).mapError Fault.ofStoi
  let v ← input.data8.setData (elem x₀) (iter * 4)
  let v ← v.setData (elem x₁) (iter * 4 + 1)
  let v ← v.setData (elem x₂) (iter * 4 + 2)
  let v ← v.setData (elem x₃) (iter * 4 + 3)
  return ({ input with data8 := v }, ss)

/-- One step of the loop over a line. There is no branch for `INT16`. -/
def read (metaType : DataType) (iter : Nat) (input : InputData) (ss : Stream) :
    Except Fault (InputData × Stream) :=
  match metaType with
  | .float16 => readHalves reader iter input ss
  | .float32 => do
    let (fp32, ss) ← assignedValue (ss.real reader.read 0)
    let v ← input.data32.setData (.float fp32) iter
    return ({ input with data32 := v }, ss)
  | .int32 => do
    let (int32, ss) ← assignedValue (ss.signed 10 32)
    let v ← input.data32.setData (.int (BitVec.ofInt 32 int32)) iter
    return ({ input with data32 := v }, ss)
  | .int64 =>
    if iter ≥ packetSize / 8 then return (input, ss)
    else do
      let (int64, ss) ← assignedValue (ss.signed 10 64)
      let v ← input.data64.setData (.long (BitVec.ofInt 64 int64)) iter
      return ({ input with data64 := v }, ss)
  | .char8 => readBytes (fun x => .char (BitVec.ofInt 8 x)) iter input ss
  | .uint8 => readBytes (fun x => .u8 (BitVec.ofInt 8 x)) iter input ss
  | .bool => readBytes (fun x => .bool (x ≠ 0)) iter input ss
  | _ => return (input, ss)

/-- The vector that goes into the map. -/
def stored (metaType : DataType) (input : InputData) : Except Fault VectorData :=
  match metaType with
  | .char8 | .uint8 | .bool => .ok input.data8
  | .float16 | .int16 => .ok input.data16
  | .float32 | .int32 => .ok input.data32
  | .int64 => .ok input.data64
  | _ => .error (.runtimeError "Unknown data type")

/-- The numbers of a line of data. -/
def readLine (metaType : DataType) (ss : Stream) : Except Fault VectorData := do
  let (input, _) ← (List.range (packetSize / 4)).foldlM
    (fun r iter => read reader metaType iter r.1 r.2) (create metaType, ss)
  input.stored metaType

end Read

end InputData

/-- The words that declare a type. -/
def metaTypeOf (tmp : Text) : Option DataType :=
  if tmp = "float16".toList then some .float16
  else if tmp = "float32".toList then some .float32
  else if tmp = "int16".toList then some .int16
  else if tmp = "int32".toList then some .int32
  else if tmp = "char8".toList then some .char8
  else if tmp = "int64".toList then some .int64
  else if tmp = "uint8".toList then some .uint8
  else if tmp = "bool8".toList then some .bool
  else none

/-- What the constructor keeps from line to line. The type is not initialized. -/
structure ImageLoader where
  metaRead : Bool
  metaType : Option DataType
  map : HashMemoryMap

namespace ImageLoader

variable [FloatOps] (reader : FloatReader)

def dataLine (s : ImageLoader) (line : Text) : Except Fault ImageLoader := do
  let (addr, ss) ← assignedValue ((Stream.ofText line).unsigned 16 64)
  let addrBase := BitVec.ofNat 64 addr
  if ¬ addrBase ≠ 0 then throw .assertion
  if ¬ addrBase.toNat % packetSize = 0 then throw .assertion
  match s.metaType with
  | none => throw .undefined
  | some metaType =>
    let v ← InputData.readLine reader metaType ss
    if (s.map.data addrBase).isSome then throw .assertion
    return { s with map.data := Function.update s.map.data addrBase (some v) }

/-- One pass of the loop over the lines. -/
def line (s : ImageLoader) (line : Text) : Except Fault ImageLoader :=
  if "_META_".toList <:+: line then .ok { s with metaRead := true }
  else if "_DATA_".toList <:+: line then .ok { s with metaRead := false }
  else if line.length = 0 then .ok s
  else if s.metaRead then
    match metaTypeOf (Stream.ofText line).word.1 with
    | some metaType => .ok { s with metaType := some metaType }
    | none => .ok s
  else s.dataLine reader line

end ImageLoader

/-- `HashMemoryMap(file_path)`, with the contents of the file. -/
def HashMemoryMap.ofFile [FloatOps] (reader : FloatReader) (file : Text) :
    Except Fault HashMemoryMap := do
  let s ← (file.splitOn '\n').foldlM (ImageLoader.line reader)
    ⟨false, none, ⟨0, 2 ^ 64 - 1, none, fun _ => none⟩⟩
  return s.map

/-! ## Lines of numbers -/

/-- The word is a decimal numeral for the number. -/
def Decimal (t : Text) (x : Int) : Prop :=
  ∃ negative n, Text.Numeral 10 t negative n ∧ Text.signedValue negative n = x

namespace InputData

open Text

variable [FloatOps] {reader : FloatReader} {t : DataType} {v₀ : VectorData} {elem : Int → Elem}
  {toks : List Text} {xs : List Int}

/-- Numbers that are extracted. Behind one that is out of range there is nothing to store. -/
theorem foldlM_read_signed {w n : Nat} {vec : InputData → VectorData}
    {put : InputData → VectorData → InputData} (hput : ∀ input v, vec (put input v) = v)
    (hread : ∀ iter < n, ∀ input ss, read reader t iter input ss =
      (assignedValue (ss.signed 10 w) >>= fun r => (vec input).setData (elem r.1) iter >>= fun v =>
        pure (put input v, r.2)))
    (helem : ∀ x, (elem x).type = t) (hroom : ∀ i < n, v₀.Room t i)
    (hxs : List.Forall₂ Decimal toks xs) :
    ∀ {s : Text} {es : List Elem} {input : InputData}, Spelled toks s →
      FilledWith t v₀ es (vec input) → es.length + xs.length ≤ n →
      if ∀ x ∈ xs.dropLast, InRange w x then
        ∃ input' ss, (List.range' es.length xs.length).foldlM
            (fun r iter => read reader t iter r.1 r.2) (input, ⟨s, false⟩) = .ok (input', ss) ∧
          FilledWith t v₀ (es ++ xs.map fun x => elem (clamp w x)) (vec input')
      else ∃ f, (List.range' es.length xs.length).foldlM
        (fun r iter => read reader t iter r.1 r.2) (input, ⟨s, false⟩) = .error f := by
  induction hxs with
  | nil =>
    intro s es input hs hfilled hn
    rw [if_pos nofun]
    refine ⟨input, ⟨s, false⟩, rfl, ?_⟩
    rwa [List.map_nil, List.append_nil]
  | @cons tok x toks xs hx hxs ih =>
    intro s es input hs hfilled hn
    obtain ⟨negative, m, hnum, hvalue⟩ := hx
    obtain ⟨rest, hsigned, htail⟩ := signed_numeral w hs hnum
    rw [List.length_cons] at hn
    obtain ⟨v, hset, hfilled'⟩ := hfilled.setData (helem (clamp w x)) (hroom es.length (by omega))
    have hstep : read reader t es.length input ⟨s, false⟩ =
        .ok (put input v, ⟨rest, decide (¬ InRange w x)⟩) := by
      rw [hread _ (by omega), hsigned, hvalue]
      exact bind_eq_ok.mpr ⟨_, rfl, bind_eq_ok.mpr ⟨v, hset, rfl⟩⟩
    rw [List.length_cons, List.range'_succ, List.foldlM_cons, hstep, ok_bind]
    rw [← hput input v] at hfilled'
    cases hxs with
    | nil =>
      rw [List.dropLast_singleton, if_pos nofun]
      exact ⟨_, _, rfl, hfilled'⟩
    | @cons tok' y toks ys hy hys =>
      by_cases hrange : InRange w x
      · have hih := ih htail hfilled' (by rw [List.length_append, List.length_singleton]; omega)
        rw [List.length_append, List.length_singleton] at hih
        rw [decide_eq_false (not_not_intro hrange)]
        have hall : (∀ z ∈ (x :: y :: ys).dropLast, InRange w z) ↔
            ∀ z ∈ (y :: ys).dropLast, InRange w z := by
          rw [List.dropLast_cons_cons, List.forall_mem_cons]
          exact and_iff_right hrange
        simp only [hall]
        split at hih
        · rw [if_pos ‹_›, List.map_cons, List.append_cons]
          exact hih
        · rw [if_neg ‹_›]
          exact hih
      · have hmem : x ∈ (x :: y :: ys).dropLast := by
          rw [List.dropLast_cons_cons]
          exact List.mem_cons_self
        rw [if_neg fun h => hrange (h x hmem), decide_eq_true hrange, List.length_cons,
          List.range'_succ, List.foldlM_cons]
        rw [List.length_cons] at hn
        rw [hread _ (by omega), signed_failed]
        exact ⟨_, rfl⟩

/-- A number of type `int`. -/
def ranged (x : Int) : Except Fault Int := if InRange 32 x then .ok x else .error .outOfRange

omit [FloatOps] in
theorem stoi_decimal {tok : Text} {x : Int} (h : Decimal tok x) :
    (stoi tok).mapError Fault.ofStoi = ranged x := by
  obtain ⟨negative, n, hnum, hvalue⟩ := h
  rw [Text.stoi_numeral hnum, hvalue, ranged]
  split <;> rfl

/-- The bytes of one step. -/
theorem readBytes_eq {x₀ x₁ x₂ x₃ : Int} {t₀ t₁ t₂ t₃ : Text} {s : Text} {es : List Elem}
    {input : InputData} (hs : Spelled (t₀ :: t₁ :: t₂ :: t₃ :: toks) s) (h₀ : Decimal t₀ x₀)
    (h₁ : Decimal t₁ x₁) (h₂ : Decimal t₂ x₂) (h₃ : Decimal t₃ x₃)
    (helem : ∀ x, (elem x).type = t) (hroom : ∀ i < es.length + 4, v₀.Room t i)
    (hfilled : FilledWith t v₀ es input.data8) {iter : Nat} (hiter : es.length = iter * 4) :
    if ∀ x ∈ [x₀, x₁, x₂, x₃], InRange 32 x then
      ∃ input' rest, readBytes elem iter input ⟨s, false⟩ = .ok (input', ⟨rest, false⟩) ∧
        Spelled toks rest ∧
        FilledWith t v₀ (es ++ [elem x₀, elem x₁, elem x₂, elem x₃]) input'.data8
    else ∃ f, readBytes elem iter input ⟨s, false⟩ = .error f := by
  obtain ⟨s₁, hword₀, hs₁⟩ := word_spelled hs
  obtain ⟨s₂, hword₁, hs₂⟩ := word_spelled hs₁
  obtain ⟨s₃, hword₂, hs₃⟩ := word_spelled hs₂
  obtain ⟨s₄, hword₃, hs₄⟩ := word_spelled hs₃
  have hread : readBytes elem iter input ⟨s, false⟩ = (do
      let x₀ ← ranged x₀
      let x₁ ← ranged x₁
      let x₂ ← ranged x₂
      let x₃ ← ranged x₃
      let v ← input.data8.setData (elem x₀) (iter * 4)
      let v ← v.setData (elem x₁) (iter * 4 + 1)
      let v ← v.setData (elem x₂) (iter * 4 + 2)
      let v ← v.setData (elem x₃) (iter * 4 + 3)
      return ({ input with data8 := v }, ⟨s₄, false⟩)) := by
    rw [readBytes, hword₀]
    dsimp only
    rw [hword₁]
    dsimp only
    rw [hword₂]
    dsimp only
    rw [hword₃]
    dsimp only
    rw [stoi_decimal h₀, stoi_decimal h₁, stoi_decimal h₂, stoi_decimal h₃]
  have hall : (∀ x ∈ [x₀, x₁, x₂, x₃], InRange 32 x) ↔
      InRange 32 x₀ ∧ InRange 32 x₁ ∧ InRange 32 x₂ ∧ InRange 32 x₃ := by
    simp only [List.forall_mem_cons, List.not_mem_nil, false_implies, implies_true, and_true]
  rw [hread]
  split
  case isTrue h =>
    obtain ⟨h₀, h₁, h₂, h₃⟩ := hall.mp h
    rw [ranged, if_pos h₀, ok_bind, ranged, if_pos h₁, ok_bind, ranged, if_pos h₂, ok_bind, ranged,
      if_pos h₃, ok_bind]
    obtain ⟨v₀, hv₀, hfilled⟩ := hfilled.setData (helem x₀) (hroom _ (by omega))
    obtain ⟨v₁, hv₁, hfilled⟩ := hfilled.setData (helem x₁) (hroom _ (by simp))
    obtain ⟨v₂, hv₂, hfilled⟩ := hfilled.setData (helem x₂) (hroom _ (by simp))
    obtain ⟨v₃, hv₃, hfilled⟩ := hfilled.setData (helem x₃) (hroom _ (by simp))
    simp only [List.length_append, List.length_singleton, hiter] at hv₀ hv₁ hv₂ hv₃
    rw [hv₀, ok_bind, hv₁, ok_bind, hv₂, ok_bind, hv₃, ok_bind]
    refine ⟨_, s₄, rfl, hs₄, ?_⟩
    simpa only [List.append_assoc, List.cons_append, List.nil_append] using hfilled
  case isFalse h =>
    by_cases h₀ : InRange 32 x₀
    case neg =>
      rw [ranged, if_neg h₀]
      exact ⟨_, rfl⟩
    by_cases h₁ : InRange 32 x₁
    case neg =>
      rw [ranged, if_pos h₀, ok_bind, ranged, if_neg h₁]
      exact ⟨_, rfl⟩
    by_cases h₂ : InRange 32 x₂
    case neg =>
      rw [ranged, if_pos h₀, ok_bind, ranged, if_pos h₁, ok_bind, ranged, if_neg h₂]
      exact ⟨_, rfl⟩
    by_cases h₃ : InRange 32 x₃
    case neg =>
      rw [ranged, if_pos h₀, ok_bind, ranged, if_pos h₁, ok_bind, ranged, if_pos h₂, ok_bind,
        ranged, if_neg h₃]
      exact ⟨_, rfl⟩
    exact absurd (hall.mpr ⟨h₀, h₁, h₂, h₃⟩) h

/-- Bytes, all of them in range. -/
theorem foldlM_read_bytes {n : Nat}
    (hread : ∀ iter input ss, read reader t iter input ss = readBytes elem iter input ss)
    (helem : ∀ x, (elem x).type = t) (hroom : ∀ i < n, v₀.Room t i) {k : Nat} :
    ∀ {j : Nat} {toks : List Text} {xs : List Int} {s : Text} {es : List Elem} {input : InputData},
      List.Forall₂ Decimal toks xs → xs.length = k * 4 → Spelled toks s →
      FilledWith t v₀ es input.data8 → es.length = j * 4 → es.length + xs.length ≤ n →
      if ∀ x ∈ xs, InRange 32 x then
        ∃ input' ss, (List.range' j k).foldlM
            (fun r iter => read reader t iter r.1 r.2) (input, ⟨s, false⟩) = .ok (input', ss) ∧
          FilledWith t v₀ (es ++ xs.map elem) input'.data8
      else ∃ f, (List.range' j k).foldlM
        (fun r iter => read reader t iter r.1 r.2) (input, ⟨s, false⟩) = .error f := by
  induction k with
  | zero =>
    intro j toks xs s es input hxs hlen hs hfilled hes hn
    obtain rfl : xs = [] := List.length_eq_zero_iff.mp (by omega)
    rw [if_pos nofun]
    refine ⟨input, ⟨s, false⟩, rfl, ?_⟩
    rwa [List.map_nil, List.append_nil]
  | succ k ih =>
    intro j toks xs s es input hxs hlen hs hfilled hes hn
    obtain ⟨x₀, x₁, x₂, x₃, ys, rfl⟩ : ∃ x₀ x₁ x₂ x₃ ys, xs = x₀ :: x₁ :: x₂ :: x₃ :: ys := by
      obtain _ | ⟨x₀, _ | ⟨x₁, _ | ⟨x₂, _ | ⟨x₃, ys⟩⟩⟩⟩ := xs
      · simp at hlen
      · simp at hlen
        omega
      · simp at hlen
        omega
      · simp at hlen
        omega
      · exact ⟨x₀, x₁, x₂, x₃, ys, rfl⟩
    cases hxs with | cons h₀ hxs =>
    cases hxs with | cons h₁ hxs =>
    cases hxs with | cons h₂ hxs =>
    cases hxs with | cons h₃ hxs =>
    simp only [List.length_cons] at hlen hn
    have hstep := readBytes_eq hs h₀ h₁ h₂ h₃ helem
      (fun i hi => hroom i (by omega)) hfilled hes
    have hall : (∀ x ∈ x₀ :: x₁ :: x₂ :: x₃ :: ys, InRange 32 x) ↔
        (∀ x ∈ [x₀, x₁, x₂, x₃], InRange 32 x) ∧ ∀ x ∈ ys, InRange 32 x := by
      rw [← List.forall_mem_append]
      rfl
    rw [List.range'_succ, List.foldlM_cons]
    simp only [hread] at ih ⊢
    by_cases hfour : ∀ x ∈ [x₀, x₁, x₂, x₃], InRange 32 x
    · rw [if_pos hfour] at hstep
      obtain ⟨input', rest, hok, htail, hfilled'⟩ := hstep
      have hih := ih (j := j + 1) hxs (by omega) htail hfilled' (by simp; omega) (by simp; omega)
      rw [hok, ok_bind]
      split at hih
      · rw [if_pos (hall.mpr ⟨hfour, ‹_›⟩)]
        rw [List.append_assoc] at hih
        exact hih
      · rw [if_neg fun h => absurd (hall.mp h).2 ‹_›]
        exact hih
    · rw [if_neg hfour] at hstep
      obtain ⟨f, hf⟩ := hstep
      rw [if_neg fun h => hfour (hall.mp h).1, hf]
      exact ⟨f, rfl⟩

end InputData

/-! ## Declared types -/

/-- The types a file declares for integers. -/
inductive DeclaredType
  | int16 | int32 | int64 | char8 | uint8 | bool8
  deriving DecidableEq

namespace DeclaredType

def name : DeclaredType → Text
  | int16 => "int16".toList
  | int32 => "int32".toList
  | int64 => "int64".toList
  | char8 => "char8".toList
  | uint8 => "uint8".toList
  | bool8 => "bool8".toList

def type : DeclaredType → DataType
  | int16 => .int16
  | int32 => .int32
  | int64 => .int64
  | char8 => .char8
  | uint8 => .uint8
  | bool8 => .bool

/-- The elements of a packet. -/
def lanes : DeclaredType → Nat
  | int16 => packetSize / 2
  | int32 => packetSize / 4
  | int64 => packetSize / 8
  | char8 | uint8 | bool8 => packetSize

/-- A number as an element of the type. -/
def elem : DeclaredType → Int → Elem
  | int16, x => .short (BitVec.ofInt 16 x)
  | int32, x => .int (BitVec.ofInt 32 x)
  | int64, x => .long (BitVec.ofInt 64 x)
  | char8, x => .char (BitVec.ofInt 8 x)
  | uint8, x => .u8 (BitVec.ofInt 8 x)
  | bool8, x => .bool (x ≠ 0)

/-- The numbers are in the range of the type. For the last one it is enough that the number the
stream replaces it by has the same bits. -/
def Extractable (w : Nat) (xs : List Int) : Prop :=
  (∀ x ∈ xs.dropLast, Text.InRange w x) ∧
    ∀ x ∈ xs.getLast?, BitVec.ofInt w (Text.clamp w x) = BitVec.ofInt w x

/-- The numbers of a line that are read as they should be. -/
def Readable : DeclaredType → List Int → Prop
  | int16, _ => False
  | int32, xs => Extractable 32 xs
  | int64, xs => Extractable 64 xs
  | char8, xs | uint8, xs | bool8, xs => ∀ x ∈ xs, Text.InRange 32 x

/-- A packet of the declared type with the numbers of a line. -/
structure IsPacket [FloatOps] (d : DeclaredType) (xs : List Int) (v : VectorData) : Prop where
  type : v.type = d.type
  get : ∀ i x, xs[i]? = some x → v.get d.type i = .ok (d.elem x)

theorem type_elem (d : DeclaredType) (x : Int) : (d.elem x).type = d.type := by
  cases d <;> rfl

theorem stored_elem [FloatOps] (d : DeclaredType) (x : Int) : (d.elem x).stored = d.elem x := by
  cases d <;> rfl

theorem metaTypeOf_name (d : DeclaredType) : metaTypeOf d.name = some d.type := by
  cases d <;> decide

end DeclaredType

namespace InputData

open Text DeclaredType

variable [FloatOps] {reader : FloatReader} {toks : List Text} {xs : List Int} {s : Text}

theorem isPacket_of_filledWith {d : DeclaredType} {v₀ v : VectorData} (hne : xs ≠ [])
    (h : FilledWith d.type v₀ (xs.map d.elem) v) : d.IsPacket xs v := by
  refine ⟨h.type fun h => hne (List.map_eq_nil_iff.mp h), fun i x hx => ?_⟩
  rw [h.get i (d.elem x) (by rw [List.getElem?_map, hx]; rfl), d.stored_elem]

/-- The branch of a type of `w` bits extracts one number a step, in the first steps of the loop. -/
structure ReadsSigned (reader : FloatReader) (d : DeclaredType) (w : Nat)
    (vec : InputData → VectorData) (put : InputData → VectorData → InputData) : Prop where
  vec_put : ∀ input v, vec (put input v) = v
  extracts : ∀ iter < d.lanes, ∀ input ss, read reader d.type iter input ss =
    (assignedValue (ss.signed 10 w) >>= fun r => (vec input).setData (d.elem r.1) iter >>= fun v =>
      pure (put input v, r.2))
  rest : ∀ iter, d.lanes ≤ iter → iter < packetSize / 4 → ∀ input ss,
    read reader d.type iter input ss = .ok (input, ss)
  lanes : ∃ left, d.lanes + left = packetSize / 4
  room : ∀ i < d.lanes, (vec (create d.type)).Room d.type i
  stored : ∀ input, stored d.type input = .ok (vec input)
  elem : ∀ x y, d.elem x = d.elem y ↔ BitVec.ofInt w x = BitVec.ofInt w y

theorem foldlM_read_rest {d : DeclaredType} {m n : Nat} {input : InputData} {ss : Stream}
    (h : ∀ iter, m ≤ iter → iter < m + n → ∀ input ss,
      read reader d.type iter input ss = .ok (input, ss)) :
    (List.range' m n).foldlM (fun r iter => read reader d.type iter r.1 r.2) (input, ss) =
      .ok (input, ss) := by
  induction n generalizing m with
  | zero => rfl
  | succ n ih =>
    rw [List.range'_succ, List.foldlM_cons, h m le_rfl (by omega), ok_bind]
    exact ih fun iter hm hn => h iter (by omega) (by omega)

theorem readLine_signed {d : DeclaredType} {w : Nat} {vec : InputData → VectorData}
    {put : InputData → VectorData → InputData} (h : ReadsSigned reader d w vec put)
    (hs : Spelled toks s) (hxs : List.Forall₂ Decimal toks xs) (hlen : xs.length = d.lanes)
    (hne : xs ≠ []) :
    (∃ v, readLine reader d.type ⟨s, false⟩ = .ok v ∧ d.IsPacket xs v) ↔ Extractable w xs := by
  have hloop := foldlM_read_signed h.vec_put h.extracts d.type_elem h.room hxs hs
    (FilledWith.nil (v := vec (create d.type))) (by rw [hlen, List.length_nil, Nat.zero_add])
  rw [hlen, List.length_nil, List.nil_append] at hloop
  obtain ⟨left, hleft⟩ := h.lanes
  have hrange : List.range (packetSize / 4) =
      List.range' 0 d.lanes ++ List.range' d.lanes left := by
    rw [List.range_eq_range', ← hleft, ← List.range'_append_1, Nat.zero_add]
  rw [readLine, hrange, List.foldlM_append]
  by_cases hinit : ∀ x ∈ xs.dropLast, InRange w x
  · rw [if_pos hinit] at hloop
    obtain ⟨input, ss, hok, hfilled⟩ := hloop
    rw [hok, ok_bind, foldlM_read_rest fun iter hm hn => h.rest iter hm (by omega), ok_bind]
    dsimp only
    rw [h.stored]
    constructor
    · rintro ⟨v, hv, hpacket⟩
      cases hv
      refine ⟨hinit, fun x hx => ?_⟩
      have hlast : xs[xs.length - 1]? = some x := by
        rw [← List.getLast?_eq_getElem?]
        exact hx
      have hget := hfilled.get (xs.length - 1) (d.elem (clamp w x)) (by
        rw [List.getElem?_map, hlast]
        rfl)
      rw [d.stored_elem, hpacket.get _ x hlast] at hget
      exact ((h.elem _ _).mp (Except.ok.inj hget)).symm
    · rintro ⟨-, hlast⟩
      have hsame : ∀ x ∈ xs, d.elem (clamp w x) = d.elem x := by
        intro x hx
        obtain ⟨y, hy⟩ :=
          Option.ne_none_iff_exists'.mp fun hn => hne (List.getLast?_eq_none_iff.mp hn)
        rw [← List.dropLast_append_getLast? y hy, List.mem_append, List.mem_singleton] at hx
        obtain hx | rfl := hx
        · rw [clamp_of_inRange (hinit x hx)]
        · exact (h.elem _ _).mpr (hlast x hy)
      rw [List.map_congr_left hsame] at hfilled
      exact ⟨_, rfl, isPacket_of_filledWith hne hfilled⟩
  · rw [if_neg hinit] at hloop
    obtain ⟨f, hf⟩ := hloop
    rw [hf]
    exact iff_of_false (fun ⟨v, hv, _⟩ => nomatch hv) fun h => hinit h.1

theorem readLine_bytes {d : DeclaredType} (hlanes : d.lanes = packetSize)
    (hread : ∀ iter input ss, read reader d.type iter input ss = readBytes d.elem iter input ss)
    (hroom : ∀ i < packetSize, (create d.type).data8.Room d.type i)
    (hstored : ∀ input, stored d.type input = .ok input.data8)
    (hs : Spelled toks s) (hxs : List.Forall₂ Decimal toks xs) (hlen : xs.length = d.lanes)
    (hne : xs ≠ []) : (∃ v, readLine reader d.type ⟨s, false⟩ = .ok v ∧ d.IsPacket xs v) ↔
      ∀ x ∈ xs, InRange 32 x := by
  rw [hlanes] at hlen
  have hloop := foldlM_read_bytes hread d.type_elem hroom (k := 8) (j := 0) hxs
    hlen hs (FilledWith.nil (v := (create d.type).data8)) rfl
    (by rw [hlen, List.length_nil, Nat.zero_add])
  have hrange : List.range (packetSize / 4) = List.range' 0 8 := List.range_eq_range'
  rw [readLine, hrange]
  by_cases hall : ∀ x ∈ xs, InRange 32 x
  · rw [if_pos hall, List.nil_append] at hloop
    obtain ⟨input, ss, hok, hfilled⟩ := hloop
    rw [hok, ok_bind]
    exact iff_of_true ⟨_, hstored _, isPacket_of_filledWith hne hfilled⟩ hall
  · rw [if_neg hall] at hloop
    obtain ⟨f, hf⟩ := hloop
    rw [hf]
    exact iff_of_false (fun ⟨v, hv, _⟩ => nomatch hv) hall

/-- Which lines are read as they should be. -/
theorem readLine_iff (d : DeclaredType) (hs : Spelled toks s) (hxs : List.Forall₂ Decimal toks xs)
    (hlen : xs.length = d.lanes) :
    (∃ v, readLine reader d.type ⟨s, false⟩ = .ok v ∧ d.IsPacket xs v) ↔ d.Readable xs := by
  have hne : xs ≠ [] := by
    rintro rfl
    revert hlen
    cases d <;> decide
  cases d with
  | int16 =>
    refine iff_of_false ?_ id
    rintro ⟨v, hv, hpacket⟩
    rw [readLine, List.range_eq_range', foldlM_read_rest fun _ _ _ _ _ => rfl] at hv
    cases hv
    exact absurd hpacket.type (by decide)
  | int32 =>
    have hreads : ReadsSigned reader int32 32 data32 (fun input v => { input with data32 := v }) :=
      ⟨fun _ _ => rfl, fun _ _ _ _ => rfl, fun _ h h' => absurd (h.trans_lt h') (by decide),
        ⟨0, rfl⟩, by decide, fun _ => rfl, fun x y => by simp [DeclaredType.elem]⟩
    exact readLine_signed hreads hs hxs hlen hne
  | int64 =>
    have hreads : ReadsSigned reader int64 64 data64 (fun input v => { input with data64 := v }) :=
      ⟨fun _ _ => rfl, fun _ h _ _ => if_neg (not_le.mpr h), fun _ h _ _ _ => if_pos h,
        ⟨4, rfl⟩, by decide, fun _ => rfl, fun x y => by simp [DeclaredType.elem]⟩
    exact readLine_signed hreads hs hxs hlen hne
  | char8 => exact readLine_bytes rfl (fun _ _ _ => rfl) (by decide) (fun _ => rfl) hs hxs hlen hne
  | uint8 => exact readLine_bytes rfl (fun _ _ _ => rfl) (by decide) (fun _ => rfl) hs hxs hlen hne
  | bool8 => exact readLine_bytes rfl (fun _ _ _ => rfl) (by decide) (fun _ => rfl) hs hxs hlen hne

end InputData

end NdpSim
