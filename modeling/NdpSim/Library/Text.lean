import Mathlib.Data.List.TakeWhile
import Mathlib.Tactic

/-!
# Text

Cutting strings at a character and reading numbers off them, as `std::string` and the
`std::stoi` family do it. A character that does not occur is found at `npos`, and cutting there
gives the whole string on either side.
-/
namespace NdpSim.Library

abbrev Text := List Char

/-- To decide what holds of all elements, these are gone through, and not the whole type. -/
theorem forall_mem_iff_all {α : Type} {p : α → Prop} [DecidablePred p] {l : List α} :
    (∀ a ∈ l, p a) ↔ l.all (fun a => decide (p a)) = true := by
  simp

/-- The members are tried, not all characters. -/
instance (priority := high) decidableForallMem {p : Char → Prop} [DecidablePred p]
    (l : List Char) : Decidable (∀ c ∈ l, p c) :=
  decidable_of_iff _ forall_mem_iff_all.symm

namespace Text

/-- `std::invalid_argument` and `std::out_of_range`. -/
inductive Fault
  | invalidArgument
  | outOfRange
  deriving DecidableEq

/-- `s.substr(0, s.find(c))` -/
def before (c : Char) (s : Text) : Text := s.takeWhile (· ≠ c)

/-- `s.substr(s.find(c) + 1)` -/
def after (c : Char) (s : Text) : Text :=
  match s.dropWhile (· ≠ c) with
  | [] => s
  | _ :: rest => rest

/-- `s.find(c)` as an `int`. -/
def find (c : Char) (s : Text) : Int :=
  match s.idxOf? c with
  | some i => i
  | none => -1

/-- `s.substr(pos, count)`; a negative count is a huge one. -/
def substr (s : Text) (pos : Int) (count : Int) : Except Fault Text :=
  if pos < 0 ∨ (s.length : Int) < pos then .error .outOfRange
  else
    let rest := s.drop pos.toNat
    .ok (if count < 0 then rest else rest.take count.toNat)

/-- The parts between the occurrences of `c`. -/
def fields (c : Char) : Text → List Text
  | [] => [[]]
  | d :: s =>
    if d = c then [] :: fields c s
    else
      match fields c s with
      | [] => [[d]]
      | f :: fs => (d :: f) :: fs

section Cut

variable {c : Char}

theorem before_cons_of_ne {d : Char} (h : d ≠ c) (s : Text) :
    before c (d :: s) = d :: before c s := by
  simp [before, h]

theorem after_cons_of_ne {d : Char} (h : d ≠ c) {s : Text} (hs : c ∈ s) :
    after c (d :: s) = after c s := by
  unfold after
  rw [List.dropWhile_cons_of_pos (by simpa using h)]
  cases hd : s.dropWhile (· ≠ c) with
  | nil => simpa using List.dropWhile_eq_nil_iff.mp hd c hs
  | cons e rest => rfl

theorem fields_of_notMem {s : Text} (h : c ∉ s) : fields c s = [s] := by
  induction s with
  | nil => rfl
  | cons d s ih =>
    have hd : d ≠ c := fun hd => h (by simp [hd])
    rw [fields, if_neg hd, ih fun hs => h (List.mem_cons_of_mem _ hs)]

/-- Cutting off the first part. -/
theorem fields_of_mem {s : Text} (h : c ∈ s) :
    fields c s = before c s :: fields c (after c s) := by
  induction s with
  | nil => cases h
  | cons d s ih =>
    by_cases hd : d = c
    · subst hd
      simp [fields, before, after]
    · have hs : c ∈ s := (List.mem_cons.mp h).resolve_left (Ne.symm hd)
      rw [fields, if_neg hd, ih hs, before_cons_of_ne hd, after_cons_of_ne hd hs]

theorem getElem?_fields_zero (s : Text) : (fields c s)[0]? = some (before c s) := by
  by_cases h : c ∈ s
  · rw [fields_of_mem h, List.getElem?_cons_zero]
  · have hb : before c s = s := by
      refine List.takeWhile_eq_self_iff.mpr fun d hd => decide_eq_true ?_
      rintro rfl
      exact h hd
    rw [fields_of_notMem h, List.getElem?_cons_zero, hb]

theorem getElem?_fields_succ {s : Text} (h : c ∈ s) (i : Nat) :
    (fields c s)[i + 1]? = (fields c (after c s))[i]? := by
  rw [fields_of_mem h, List.getElem?_cons_succ]

theorem count_after {s : Text} (h : c ∈ s) : (after c s).count c + 1 = s.count c := by
  induction s with
  | nil => cases h
  | cons d s ih =>
    by_cases hd : d = c
    · subst hd
      simp [after]
    · have hs : c ∈ s := (List.mem_cons.mp h).resolve_left (Ne.symm hd)
      rw [after_cons_of_ne hd hs, ih hs, List.count_cons_of_ne hd]

theorem length_fields (s : Text) : (fields c s).length = s.count c + 1 := by
  induction s with
  | nil => rfl
  | cons d s ih =>
    by_cases hd : d = c
    · subst hd
      simp [fields, ih]
    · have hcons : (fields c (d :: s)).length = (fields c s).length := by
        rw [fields, if_neg hd]
        cases hs : fields c s with
        | nil => rw [hs] at ih; simp at ih
        | cons f fs => rfl
      rw [hcons, ih, List.count_cons_of_ne hd]

end Cut

/-! ## Numbers -/

def isSpace (c : Char) : Bool := [' ', '\t', '\n', '\x0b', '\x0c', '\r'].contains c

def natOfDigits (ds : Text) : Nat := ds.foldl (fun n d => 10 * n + (d.toNat - 48)) 0

/-- The number a string starts with, behind blanks; what follows it is ignored. -/
def readNumber (s : Text) : Option (Bool × Nat) :=
  let (negative, s) : Bool × Text :=
    match s.dropWhile isSpace with
    | '-' :: s => (true, s)
    | '+' :: s => (false, s)
    | s => (false, s)
  let ds := s.takeWhile Char.isDigit
  if ds = [] then none else some (negative, natOfDigits ds)

/-- A number in the range of a signed type. -/
def readSigned (bits : Nat) (s : Text) : Except Fault Int :=
  match readNumber s with
  | none => .error .invalidArgument
  | some (negative, n) =>
    let x : Int := if negative then -n else n
    if -2 ^ (bits - 1) ≤ x ∧ x < 2 ^ (bits - 1) then .ok x else .error .outOfRange

def stoi (s : Text) : Except Fault Int := readSigned 32 s

def stoll (s : Text) : Except Fault Int := readSigned 64 s

/-- A minus sign negates in the unsigned type. -/
def stoull (s : Text) : Except Fault Nat :=
  match readNumber s with
  | none => .error .invalidArgument
  | some (negative, n) =>
    if n < 2 ^ 64 then .ok (if negative then (2 ^ 64 - n) % 2 ^ 64 else n)
    else .error .outOfRange

end Text

end NdpSim.Library
