import NdpSim.Library.Numerals

/-!
# Input streams

Formatted extraction from a text: `>>` skips blanks and takes a word, or the number a word starts
with. A stream that has failed stays as it is. What the operations give back is stated for texts
that are spelled of given words.
-/
namespace NdpSim.Library

/-- What is left of the text, and the fail bit. -/
structure Stream where
  rest : Text
  failed : Bool

namespace Text

/-- The value of a digit, also of one above nine. -/
def digitValue (c : Char) : Option Nat :=
  if c.isDigit then some (c.toNat - 48)
  else if 'a' ≤ c ∧ c ≤ 'f' then some (c.toNat - 87)
  else if 'A' ≤ c ∧ c ≤ 'F' then some (c.toNat - 55)
  else none

def isDigitOf (base : Nat) (c : Char) : Bool := (digitValue c).any (· < base)

def ofDigits (base : Nat) (ds : Text) : Nat :=
  ds.foldl (fun n d => base * n + (digitValue d).getD 0) 0

/-- The sign in front of a number. -/
def splitSign : Text → Bool × Text
  | '-' :: s => (true, s)
  | '+' :: s => (false, s)
  | s => (false, s)

/-- A hexadecimal number may start with `0x`. -/
def dropPrefix (base : Nat) (s : Text) : Text :=
  match base, s with
  | 16, '0' :: 'x' :: s | 16, '0' :: 'X' :: s => s
  | _, s => s

end Text

namespace Stream

open Text

/-- `std::stringstream ss(s)` -/
def ofText (s : Text) : Stream := ⟨s, false⟩

def fail (s : Stream) : Stream := { s with failed := true }

/-- `>>` into a string that is empty. -/
def word (s : Stream) : Text × Stream :=
  if s.failed then ([], s)
  else match s.rest.dropWhile isSpace with
    | [] => ([], ⟨[], true⟩)
    | r => (r.takeWhile fun c => !isSpace c, ⟨r.dropWhile fun c => !isSpace c, false⟩)

/-- A sign and the digits behind it, if there are any. Nothing is read from a stream that has
failed or is at its end. -/
def number (base : Nat) (s : Stream) : Option (Bool × Option Nat) × Stream :=
  if s.failed then (none, s)
  else match s.rest.dropWhile isSpace with
    | [] => (none, ⟨[], true⟩)
    | r =>
      let (negative, r) := splitSign r
      let r := dropPrefix base r
      let ds := r.takeWhile (isDigitOf base)
      (some (negative, if ds = [] then none else some (ofDigits base ds)),
        ⟨r.dropWhile (isDigitOf base), false⟩)

/-- `>>` into an unsigned integer. The answer is what is stored; a value out of range is replaced
by the largest one. -/
def unsigned (base bits : Nat) (s : Stream) : Option Nat × Stream :=
  match s.number base with
  | (none, s) => (none, s)
  | (some (_, none), s) => (some 0, s.fail)
  | (some (negative, some n), s) =>
    if n < 2 ^ bits then (some (if negative then (2 ^ bits - n) % 2 ^ bits else n), s)
    else (some (2 ^ bits - 1), s.fail)

/-- `>>` into a signed integer. -/
def signed (base bits : Nat) (s : Stream) : Option Int × Stream :=
  match s.number base with
  | (none, s) => (none, s)
  | (some (_, none), s) => (some 0, s.fail)
  | (some (negative, some n), s) =>
    let x : Int := if negative then -n else n
    if x < -2 ^ (bits - 1) then (some (-2 ^ (bits - 1)), s.fail)
    else if x < 2 ^ (bits - 1) then (some x, s)
    else (some (2 ^ (bits - 1) - 1), s.fail)

/-- `>>` into a truth value: a number other than 0 and 1 counts as true, and fails. -/
def flag (base bits : Nat) (s : Stream) : Option Bool × Stream :=
  match s.signed base bits with
  | (none, s) => (none, s)
  | (some x, s) => (some (x != 0), if x = 0 ∨ x = 1 then s else s.fail)

/-- `>>` into a number that `read` takes from the front of a text. -/
def real {φ : Type} (read : Text → Option φ × Text) (zero : φ) (s : Stream) :
    Option φ × Stream :=
  if s.failed then (none, s)
  else match s.rest.dropWhile isSpace with
    | [] => (none, ⟨[], true⟩)
    | r =>
      match read r with
      | (some x, r) => (some x, ⟨r, false⟩)
      | (none, r) => (some zero, ⟨r, true⟩)

end Stream

/-! ## Words -/

namespace Text

/-- What follows a word is a blank, or nothing. -/
def EndsWord (rest : Text) : Prop := ∀ c ∈ rest.head?, isSpace c = true

structure IsWord (t : Text) : Prop where
  ne_nil : t ≠ []
  noSpace : ∀ c ∈ t, isSpace c = false

/-- The text is spelled of the words, with blanks between and around them. -/
inductive Spelled : List Text → Text → Prop
  | nil {s : Text} (blank : ∀ c ∈ s, isSpace c = true) : Spelled [] s
  | cons {b t rest : Text} {ts : List Text} (blank : ∀ c ∈ b, isSpace c = true) (word : IsWord t)
      (ends : EndsWord rest) (tail : Spelled ts rest) : Spelled (t :: ts) (b ++ t ++ rest)

variable {b t rest s : Text} {ts : List Text} {base : Nat}

theorem dropWhile_blank (hb : ∀ c ∈ b, isSpace c = true) (s : Text) :
    (b ++ s).dropWhile isSpace = s.dropWhile isSpace := by
  induction b with
  | nil => rfl
  | cons c b ih =>
    rw [List.cons_append, List.dropWhile_cons, if_pos (hb c List.mem_cons_self)]
    exact ih fun d hd => hb d (List.mem_cons_of_mem _ hd)

/-- A word ends the blanks in front of it. -/
theorem dropWhile_word (hb : ∀ c ∈ b, isSpace c = true) (ht : IsWord t) (rest : Text) :
    (b ++ t ++ rest).dropWhile isSpace = t ++ rest := by
  rw [List.append_assoc, dropWhile_blank hb]
  cases t with
  | nil => exact absurd rfl ht.ne_nil
  | cons c t =>
    rw [List.cons_append, List.dropWhile_cons, if_neg (by simp [ht.noSpace c List.mem_cons_self])]

theorem IsWord.exists_cons (ht : IsWord t) (rest : Text) : ∃ c r, t ++ rest = c :: r := by
  cases t with
  | nil => exact absurd rfl ht.ne_nil
  | cons c t => exact ⟨c, t ++ rest, rfl⟩

theorem takeWhile_append_of_ends {p : Char → Bool} (ht : ∀ c ∈ t, p c = true)
    (hrest : ∀ c ∈ rest.head?, p c = false) :
    (t ++ rest).takeWhile p = t ∧ (t ++ rest).dropWhile p = rest := by
  induction t with
  | nil =>
    cases rest with
    | nil => exact ⟨rfl, rfl⟩
    | cons c rest =>
      have hc := hrest c rfl
      simp [hc]
  | cons c t ih =>
    obtain ⟨htake, hdrop⟩ := ih fun d hd => ht d (List.mem_cons_of_mem _ hd)
    have hc := ht c List.mem_cons_self
    simp [hc, htake, hdrop]

/-- A word is read back. -/
theorem word_spelled (h : Spelled (t :: ts) s) :
    ∃ rest, (Stream.mk s false).word = (t, ⟨rest, false⟩) ∧ Spelled ts rest := by
  cases h with
  | @cons b t rest ts hb ht hends htail =>
    have hword : ∀ c ∈ t, (!isSpace c) = true := fun c hc => by simp [ht.noSpace c hc]
    have hrest : ∀ c ∈ rest.head?, (!isSpace c) = false := fun c hc => by simp [hends c hc]
    obtain ⟨htake, hdrop⟩ := takeWhile_append_of_ends (p := fun c => !isSpace c) hword hrest
    refine ⟨rest, ?_, htail⟩
    rw [Stream.word, if_neg Bool.false_ne_true, dropWhile_word hb ht]
    cases t with
    | nil => exact absurd rfl ht.ne_nil
    | cons c t =>
      dsimp only [List.cons_append] at htake hdrop ⊢
      rw [htake, hdrop]

/-! ## Numerals of words -/

/-- The word is a numeral: a sign, a prefix and digits. -/
inductive Numeral (base : Nat) : Text → Bool → Nat → Prop
  | mk {sign pre ds : Text} {negative : Bool}
      (hsign : sign = ['-'] ∧ negative = true ∨ (sign = [] ∨ sign = ['+']) ∧ negative = false)
      (hpre : pre = [] ∨ base = 16 ∧ (pre = ['0', 'x'] ∨ pre = ['0', 'X']))
      (ne_nil : ds ≠ []) (digits : ∀ d ∈ ds, isDigitOf base d = true) :
      Numeral base (sign ++ (pre ++ ds)) negative (ofDigits base ds)

/-- Neither blanks nor signs nor the letter of a prefix are digits. -/
theorem not_digit {c : Char} (hc : isSpace c = true ∨ c ∈ ['-', '+', 'x', 'X']) :
    isDigitOf base c = false := by
  have hfixed : (∀ c ∈ [' ', '\t', '\n', '\x0b', '\x0c', '\x0d'], digitValue c = none) ∧
      ∀ c ∈ ['-', '+', 'x', 'X'], digitValue c = none := by
    decide
  have hnone : digitValue c = none := by
    obtain hc | hc := hc
    · rw [isSpace, List.contains_iff_mem] at hc
      exact hfixed.1 c hc
    · exact hfixed.2 c hc
  rw [isDigitOf, hnone]
  rfl

theorem not_isSpace_of_digit {c : Char} (h : isDigitOf base c = true) : isSpace c = false := by
  by_contra hc
  rw [not_digit (.inl (Bool.eq_true_of_not_eq_false hc))] at h
  cases h

theorem Numeral.isWord {negative : Bool} {n : Nat} (h : Numeral base t negative n) : IsWord t := by
  obtain ⟨hsign, hpre, hne, hdigits⟩ := h
  have hfixed : ∀ l ∈ [[], ['-'], ['+'], ['0', 'x'], ['0', 'X']], ∀ c ∈ l, isSpace c = false := by
    decide
  refine ⟨fun h => hne ?_, fun c hc => ?_⟩
  · exact (List.append_eq_nil_iff.mp (List.append_eq_nil_iff.mp h).2).2
  · obtain hc | hc | hc : c ∈ _ ∨ c ∈ _ ∨ c ∈ _ := by simpa only [List.mem_append] using hc
    · exact hfixed _ (by obtain ⟨rfl, -⟩ | ⟨rfl | rfl, -⟩ := hsign <;> simp) c hc
    · exact hfixed _ (by obtain rfl | ⟨-, rfl | rfl⟩ := hpre <;> simp) c hc
    · exact not_isSpace_of_digit (hdigits c hc)

/-- Digits alone. -/
theorem numeral_digits {ds : Text} (hne : ds ≠ []) (hdigits : ∀ d ∈ ds, isDigitOf base d = true) :
    Numeral base ds false (ofDigits base ds) := by
  have h : Numeral base ([] ++ ([] ++ ds)) false (ofDigits base ds) :=
    .mk (.inr ⟨.inl rfl, rfl⟩) (.inl rfl) hne hdigits
  rwa [List.nil_append, List.nil_append] at h

/-- A numeral has no other letters. -/
theorem Numeral.notMem {negative : Bool} {n : Nat} (h : Numeral base t negative n) {c : Char}
    (hc : isDigitOf base c = false) (hfixed : c ∉ ['-', '+', '0', 'x', 'X']) : c ∉ t := by
  obtain ⟨hsign, hpre, hne, hdigits⟩ := h
  simp only [List.mem_cons, List.not_mem_nil, or_false, not_or] at hfixed
  intro hmem
  obtain hmem | hmem | hmem : c ∈ _ ∨ c ∈ _ ∨ c ∈ _ := by simpa only [List.mem_append] using hmem
  · obtain ⟨rfl, -⟩ | ⟨rfl | rfl, -⟩ := hsign <;> simp [hfixed] at hmem
  · obtain rfl | ⟨-, rfl | rfl⟩ := hpre <;> simp [hfixed] at hmem
  · rw [hdigits c hmem] at hc
    cases hc

theorem Numeral.ne_of_mem {negative : Bool} {n : Nat} (h : Numeral base t negative n) {c : Char}
    {u : Text} (hc : isDigitOf base c = false) (hfixed : c ∉ ['-', '+', '0', 'x', 'X'])
    (hmem : c ∈ u) : t ≠ u := by
  rintro rfl
  exact h.notMem hc hfixed hmem

/-- The letters of the text are blanks and those of the words. -/
theorem Spelled.mem (h : Spelled ts s) {c : Char} (hc : c ∈ s) :
    isSpace c = true ∨ ∃ t ∈ ts, c ∈ t := by
  induction h with
  | nil blank => exact .inl (blank c hc)
  | @cons b t rest ts blank word ends tail ih =>
    rw [List.mem_append, List.mem_append] at hc
    obtain (hc | hc) | hc := hc
    · exact .inl (blank c hc)
    · exact .inr ⟨t, List.mem_cons_self, hc⟩
    · obtain hspace | ⟨u, hu, hcu⟩ := ih hc
      · exact .inl hspace
      · exact .inr ⟨u, List.mem_cons_of_mem _ hu, hcu⟩

theorem Spelled.ne_nil (h : Spelled (t :: ts) s) : s ≠ [] := by
  cases h with
  | cons blank word ends tail =>
    intro h
    exact word.ne_nil (List.append_eq_nil_iff.mp (List.append_eq_nil_iff.mp h).1).2

/-- A word alone. -/
theorem spelled_self (ht : IsWord t) : Spelled [t] t := by
  have h : Spelled [t] ([] ++ t ++ []) := .cons nofun ht nofun (.nil nofun)
  rwa [List.nil_append, List.append_nil] at h

/-- The words with a blank in front of each. -/
def lineOf (ts : List Text) : Text := ts.flatMap fun t => ' ' :: t

theorem spelled_lineOf (h : ∀ t ∈ ts, IsWord t) : Spelled ts (lineOf ts) := by
  induction ts with
  | nil => exact .nil nofun
  | cons t ts ih =>
    have hends : EndsWord (lineOf ts) := by
      intro c hc
      cases ts with
      | nil => cases hc
      | cons u ts =>
        cases hc
        rfl
    rw [lineOf, List.flatMap_cons]
    exact .cons (b := [' ']) (by decide) (h t List.mem_cons_self) hends
      (ih fun u hu => h u (List.mem_cons_of_mem _ hu))

/-- No digits start with a sign or a prefix. -/
theorem splitSign_of_head {s : Text} (h : ∀ c ∈ s.head?, c ∉ ['-', '+']) :
    splitSign s = (false, s) := by
  unfold splitSign
  split
  · exact absurd (List.mem_cons_self) (h '-' rfl)
  · exact absurd (by decide) (h '+' rfl)
  · rfl

theorem dropPrefix_digits {ds : Text} (hne : ds ≠ []) (hdigits : ∀ d ∈ ds, isDigitOf base d = true)
    (hrest : EndsWord rest) : dropPrefix base (ds ++ rest) = ds ++ rest := by
  have hletter : ∀ (c d : Char) (r : Text), ds ++ rest = c :: d :: r → d ≠ 'x' ∧ d ≠ 'X' := by
    intro c d r h
    have hdigit : isDigitOf base d = true ∨ isSpace d = true := by
      cases ds with
      | nil => exact absurd rfl hne
      | cons e es =>
        cases es with
        | nil =>
          have hr : rest = d :: r := (List.cons.inj h).2
          exact .inr (hrest d (by rw [hr]; rfl))
        | cons d' es =>
          obtain rfl : d' = d := (List.cons.inj (List.cons.inj h).2).1
          exact .inl (hdigits d' (by simp))
    constructor <;> rintro rfl
    · rw [not_digit (.inr (by decide))] at hdigit
      exact absurd hdigit (by decide)
    · rw [not_digit (.inr (by decide))] at hdigit
      exact absurd hdigit (by decide)
  unfold dropPrefix
  split
  · rename_i h
    exact absurd rfl (hletter _ _ _ h).1
  · rename_i h
    exact absurd rfl (hletter _ _ _ h).2
  · rfl

/-- What a numeral leaves when its sign and its prefix are taken off. -/
theorem dropPrefix_splitSign {sign pre ds : Text} {negative : Bool}
    (hsign : sign = ['-'] ∧ negative = true ∨ (sign = [] ∨ sign = ['+']) ∧ negative = false)
    (hpre : pre = [] ∨ base = 16 ∧ (pre = ['0', 'x'] ∨ pre = ['0', 'X']))
    (hne : ds ≠ []) (hdigits : ∀ d ∈ ds, isDigitOf base d = true) (hrest : EndsWord rest) :
    splitSign (sign ++ (pre ++ ds) ++ rest) = (negative, pre ++ (ds ++ rest)) ∧
      dropPrefix base (pre ++ (ds ++ rest)) = ds ++ rest := by
  have hunsigned : splitSign (pre ++ (ds ++ rest)) = (false, pre ++ (ds ++ rest)) := by
    refine splitSign_of_head fun c hc hmem => ?_
    obtain rfl | ⟨-, rfl | rfl⟩ := hpre
    · cases ds with
      | nil => exact hne rfl
      | cons d ds =>
        obtain rfl : d = c := by simpa using hc
        have hd := hdigits d List.mem_cons_self
        rw [not_digit (.inr (by revert hmem; simp; tauto))] at hd
        cases hd
    · obtain rfl : '0' = c := by simpa using hc
      revert hmem
      decide
    · obtain rfl : '0' = c := by simpa using hc
      revert hmem
      decide
  constructor
  · obtain ⟨rfl, rfl⟩ | ⟨rfl | rfl, rfl⟩ := hsign
    · simp [splitSign]
    · simpa using hunsigned
    · simp [splitSign]
  · obtain rfl | ⟨rfl, rfl | rfl⟩ := hpre
    · rw [List.nil_append]
      exact dropPrefix_digits hne hdigits hrest
    · rfl
    · rfl

/-- A numeral is read back. -/
theorem number_spelled {negative : Bool} {n : Nat} (h : Spelled (t :: ts) s)
    (hnum : Numeral base t negative n) : ∃ rest,
      (Stream.mk s false).number base = (some (negative, some n), ⟨rest, false⟩) ∧
        Spelled ts rest := by
  cases h with
  | @cons b t rest ts hb ht hends htail =>
    refine ⟨rest, ?_, htail⟩
    rw [Stream.number, if_neg Bool.false_ne_true, dropWhile_word hb ht]
    obtain ⟨c, r, hcr⟩ := ht.exists_cons rest
    rw [hcr]
    dsimp only
    rw [← hcr]
    obtain ⟨hsign, hpre, hne, hdigits⟩ := hnum
    obtain ⟨hsplit, hdrop⟩ := dropPrefix_splitSign hsign hpre hne hdigits hends
    have hstop : ∀ c ∈ rest.head?, isDigitOf base c = false := fun c hc =>
      not_digit (.inl (hends c hc))
    obtain ⟨htake, hleft⟩ := takeWhile_append_of_ends hdigits hstop
    rw [hsplit]
    dsimp only
    rw [hdrop, htake, hleft, if_neg hne]

/-- An unsigned numeral in range is stored. -/
theorem unsigned_spelled (bits : Nat) {n : Nat} (h : Spelled (t :: ts) s)
    (hnum : Numeral base t false n) (hn : n < 2 ^ bits) : ∃ rest,
      (Stream.mk s false).unsigned base bits = (some n, ⟨rest, false⟩) ∧ Spelled ts rest := by
  obtain ⟨rest, hnumber, htail⟩ := number_spelled h hnum
  refine ⟨rest, ?_, htail⟩
  rw [Stream.unsigned, hnumber]
  dsimp only
  rw [if_pos hn, if_neg Bool.false_ne_true]

/-- The number a numeral is for. -/
def signedValue (negative : Bool) (n : Nat) : Int := if negative then -n else n

/-- A number of a signed type. -/
def InRange (bits : Nat) (x : Int) : Prop := -2 ^ (bits - 1) ≤ x ∧ x < 2 ^ (bits - 1)

instance (bits : Nat) (x : Int) : Decidable (InRange bits x) :=
  inferInstanceAs (Decidable (_ ∧ _))

/-- The number of a signed type that is closest to a number. -/
def clamp (bits : Nat) (x : Int) : Int := max (-2 ^ (bits - 1)) (min x (2 ^ (bits - 1) - 1))

theorem clamp_of_inRange {bits : Nat} {x : Int} (h : InRange bits x) : clamp bits x = x := by
  rw [clamp, min_eq_left (Int.le_sub_one_of_lt h.2), max_eq_right h.1]

/-- What is stored for a numeral. -/
theorem signed_numeral (bits : Nat) {n : Nat} {negative : Bool} (h : Spelled (t :: ts) s)
    (hnum : Numeral base t negative n) : ∃ rest, (Stream.mk s false).signed base bits =
      (some (clamp bits (signedValue negative n)),
        ⟨rest, decide (¬ InRange bits (signedValue negative n))⟩) ∧ Spelled ts rest := by
  obtain ⟨rest, hnumber, htail⟩ := number_spelled h hnum
  refine ⟨rest, ?_, htail⟩
  have hpos : (0 : Int) < 2 ^ (bits - 1) := by positivity
  rw [Stream.signed, hnumber]
  dsimp only
  rw [← signedValue]
  generalize signedValue negative n = x
  rw [clamp]
  split_ifs with hlow hhigh
  · have hout : ¬ InRange bits x := fun h => absurd h.1 (by omega)
    rw [min_eq_left (by omega), max_eq_left hlow.le, decide_eq_true hout]
    rfl
  · rw [min_eq_left (by omega), max_eq_right (by omega),
      decide_eq_false (not_not_intro ⟨by omega, hhigh⟩)]
  · have hout : ¬ InRange bits x := fun h => hhigh h.2
    rw [min_eq_right (by omega), max_eq_right (by omega), decide_eq_true hout]
    rfl

/-- A numeral in range is stored. -/
theorem signed_spelled (bits : Nat) {n : Nat} {negative : Bool} (h : Spelled (t :: ts) s)
    (hnum : Numeral base t negative n) (hrange : InRange bits (signedValue negative n)) : ∃ rest,
      (Stream.mk s false).signed base bits = (some (signedValue negative n), ⟨rest, false⟩) ∧
        Spelled ts rest := by
  obtain ⟨rest, hsigned, htail⟩ := signed_numeral bits h hnum
  refine ⟨rest, ?_, htail⟩
  rw [hsigned, clamp_of_inRange hrange, decide_eq_false (not_not_intro hrange)]

/-- Nothing is stored from a stream that has failed. -/
theorem signed_failed (s : Text) (base bits : Nat) :
    (Stream.mk s true).signed base bits = (none, ⟨s, true⟩) := rfl

theorem digit_decimal {c : Char} (h : isDigitOf 10 c = true) :
    c.isDigit = true ∧ (digitValue c).getD 0 = c.toNat - 48 := by
  rw [isDigitOf, digitValue] at h
  split_ifs at h with hdigit hlower hupper
  · rw [digitValue, if_pos hdigit]
    exact ⟨hdigit, rfl⟩
  · have hle : 97 ≤ c.toNat := hlower.1
    simp only [Option.any_some, decide_eq_true_eq] at h
    omega
  · have hle : 65 ≤ c.toNat := hupper.1
    simp only [Option.any_some, decide_eq_true_eq] at h
    omega
  · cases h

theorem natOfDigits_eq {ds : Text} (h : ∀ d ∈ ds, isDigitOf 10 d = true) :
    natOfDigits ds = ofDigits 10 ds :=
  List.foldl_ext _ _ _ fun n d hd => by rw [(digit_decimal (h d hd)).2]

/-- `std::stoi` of a numeral. -/
theorem stoi_numeral {n : Nat} {negative : Bool} (h : Numeral 10 t negative n) :
    stoi t = if InRange 32 (signedValue negative n) then .ok (signedValue negative n)
      else .error .outOfRange := by
  have hdrop : t.dropWhile isSpace = t := by
    have hword := dropWhile_word (b := []) nofun h.isWord []
    rwa [List.nil_append, List.append_nil] at hword
  cases h with
  | @mk sign pre ds negative hsign hpre hne hdigits =>
    obtain rfl := hpre.resolve_right fun h => absurd h.1 (by decide)
    have htake : ds.takeWhile Char.isDigit = ds :=
      List.takeWhile_eq_self_iff.mpr fun d hd => (digit_decimal (hdigits d hd)).1
    have hread : readNumber (sign ++ ([] ++ ds)) = some (negative, ofDigits 10 ds) := by
      have hnumber : readNumber (sign ++ ([] ++ ds)) =
          let r := splitSign ((sign ++ ([] ++ ds)).dropWhile isSpace)
          let ds := r.2.takeWhile Char.isDigit
          if ds = [] then none else some (r.1, natOfDigits ds) := rfl
      have hends : EndsWord [] := nofun
      have hsplit := (dropPrefix_splitSign hsign (.inl rfl) hne hdigits hends).1
      rw [List.append_nil, List.append_nil] at hsplit
      rw [hnumber, hdrop, hsplit]
      dsimp only [List.nil_append]
      rw [htake, if_neg hne, natOfDigits_eq hdigits]
    rw [stoi, readSigned, hread]
    rfl

/-- Zero and one are read as truth values. -/
theorem flag_spelled (bits : Nat) {b : Bool} (h : Spelled (t :: ts) s)
    (hnum : Numeral base t false b.toNat) (hbits : 1 < bits) : ∃ rest,
      (Stream.mk s false).flag base bits = (some b, ⟨rest, false⟩) ∧ Spelled ts rest := by
  have hpow : (2 : Int) ^ 1 ≤ 2 ^ (bits - 1) :=
    pow_le_pow_right₀ (by decide) (by omega)
  have hb : b.toNat ≤ 1 := by cases b <;> decide
  have hvalue : signedValue false b.toNat = b.toNat := rfl
  obtain ⟨rest, hsigned, htail⟩ := signed_spelled bits h hnum
    ⟨by omega, by omega⟩
  refine ⟨rest, ?_, htail⟩
  rw [Stream.flag, hsigned, hvalue]
  cases b <;> rfl

section Real

variable {φ : Type} {read : Text → Option φ × Text}

/-- The number is read from the front of a text that starts with the word. -/
structure Reads (read : Text → Option φ × Text) (t : Text) (x : φ) : Prop where
  isWord : IsWord t
  read : ∀ rest, EndsWord rest → read (t ++ rest) = (some x, rest)

theorem real_spelled {x : φ} (h : Spelled (t :: ts) s) (hx : Reads read t x) (zero : φ) : ∃ rest,
    (Stream.mk s false).real read zero = (some x, ⟨rest, false⟩) ∧ Spelled ts rest := by
  cases h with
  | @cons b t rest ts hb ht hends htail =>
    refine ⟨rest, ?_, htail⟩
    rw [Stream.real, if_neg Bool.false_ne_true, dropWhile_word hb ht]
    obtain ⟨c, r, hcr⟩ := ht.exists_cons rest
    rw [hcr]
    dsimp only
    rw [← hcr, hx.read rest hends]

end Real

end Text

end NdpSim.Library
