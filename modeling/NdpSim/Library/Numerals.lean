import NdpSim.Library.Text

/-!
# Writing text

Decimal numerals, and parts put together with one character between them, with what cutting and
reading give back on such text.
-/
namespace NdpSim.Library.Text

/-! ## Numerals -/

def numeral (n : Nat) : Text := Nat.toDigits 10 n

def signedNumeral (n : Int) : Text :=
  if n < 0 then '-' :: numeral n.natAbs else numeral n.natAbs

/-- What follows a number does not go on with a digit. -/
def EndsNumber (rest : Text) : Prop := ∀ c ∈ rest.head?, c.isDigit = false

theorem endsNumber_nil : EndsNumber [] := by simp [EndsNumber]

theorem isDigit_of_mem_numeral {n : Nat} {c : Char} (h : c ∈ numeral n) : c.isDigit :=
  Nat.isDigit_of_mem_toDigits (by omega) (le_refl 10) h

theorem numeral_ne_nil (n : Nat) : numeral n ≠ [] := Nat.toDigits_ne_nil

theorem toList_toString (n : Nat) : (toString n).toList = numeral n := Nat.toList_repr

theorem numeral_of_lt {n : Nat} (h : n < 10) : numeral n = [n.digitChar] :=
  Nat.toDigits_of_lt_base h

theorem numeral_of_le {n : Nat} (h : 10 ≤ n) :
    numeral n = numeral (n / 10) ++ [(n % 10).digitChar] :=
  Nat.toDigits_of_base_le (by omega) h

/-- The first digit. -/
theorem take_one_numeral (n : Nat) :
    ∃ k, (numeral n).take 1 = numeral k ∧ k < 10 ∧ (k = n ↔ n < 10) ∧ (k = 0 ↔ n = 0) := by
  induction n using Nat.strong_induction_on with
  | _ n ih =>
    by_cases h : n < 10
    · exact ⟨n, by simp [numeral_of_lt h], h, by simp [h], Iff.rfl⟩
    · obtain ⟨k, hk, hlt, -, hzero⟩ := ih (n / 10) (by omega)
      have hlength : 1 ≤ (numeral (n / 10)).length :=
        List.length_pos_iff.mpr (numeral_ne_nil _)
      refine ⟨k, ?_, hlt, by omega, by omega⟩
      rw [numeral_of_le (by omega), List.take_append_of_le_length hlength, hk]

theorem natOfDigits_numeral (n : Nat) : natOfDigits (numeral n) = n :=
  Nat.ofDigitChars_ten_toDigits

theorem not_isSpace_of_isDigit {c : Char} (h : c.isDigit) : isSpace c = false := by
  have hne (d : Char) (hd : d.isDigit = false) : c ≠ d := by
    rintro rfl
    exact absurd h (by simp [hd])
  simp [isSpace, hne ' ' rfl, hne '\t' rfl, hne '\n' rfl, hne '\x0b' rfl, hne '\x0c' rfl,
    hne '\r' rfl]

theorem takeWhile_numeral (n : Nat) {rest : Text} (h : EndsNumber rest) :
    (numeral n ++ rest).takeWhile Char.isDigit = numeral n := by
  rw [List.takeWhile_append_of_pos fun c hc => isDigit_of_mem_numeral hc]
  cases rest with
  | nil => simp
  | cons c rest => simp [h c rfl]

/-- A numeral starts with a digit. -/
theorem numeral_cons (n : Nat) : ∃ d ds, numeral n = d :: ds ∧ d.isDigit := by
  obtain ⟨d, ds, h⟩ := List.exists_cons_of_ne_nil (numeral_ne_nil n)
  exact ⟨d, ds, h, isDigit_of_mem_numeral (by rw [h]; exact List.mem_cons_self)⟩

theorem readNumber_numeral (n : Nat) {rest : Text} (h : EndsNumber rest) :
    readNumber (numeral n ++ rest) = some (false, n) := by
  obtain ⟨d, ds, hn, hd⟩ := numeral_cons n
  have hspace : (numeral n ++ rest).dropWhile isSpace = numeral n ++ rest := by
    rw [hn, List.cons_append, List.dropWhile_cons_of_neg (by simp [not_isSpace_of_isDigit hd])]
  have hhead (c : Char) (s : Text) (hc : c.isDigit = false) : numeral n ++ rest ≠ c :: s := by
    intro he
    obtain ⟨rfl, -⟩ := List.cons_eq_cons.mp (hn ▸ he)
    exact absurd hd (by simp [hc])
  simp only [readNumber, hspace]
  split
  case h_1 heq => exact absurd heq (hhead _ _ rfl)
  case h_2 heq => exact absurd heq (hhead _ _ rfl)
  case h_3 =>
    simp only [takeWhile_numeral n h, natOfDigits_numeral, if_neg (numeral_ne_nil n)]

theorem readNumber_neg (n : Nat) {rest : Text} (h : EndsNumber rest) :
    readNumber ('-' :: (numeral n ++ rest)) = some (true, n) := by
  have hspace : ('-' :: (numeral n ++ rest)).dropWhile isSpace = '-' :: (numeral n ++ rest) :=
    List.dropWhile_cons_of_neg (by decide)
  simp only [readNumber, hspace, takeWhile_numeral n h, natOfDigits_numeral,
    if_neg (numeral_ne_nil n)]

/-- A written number is read if it is in the range of the type. -/
theorem readSigned_signedNumeral (bits : Nat) (n : Int) {rest : Text} (h : EndsNumber rest) :
    readSigned bits (signedNumeral n ++ rest) =
      if -2 ^ (bits - 1) ≤ n ∧ n < 2 ^ (bits - 1) then .ok n else .error .outOfRange := by
  have hread : readNumber (signedNumeral n ++ rest) = some (decide (n < 0), n.natAbs) := by
    unfold signedNumeral
    split
    case isTrue hn => rw [List.cons_append, readNumber_neg _ h, decide_eq_true hn]
    case isFalse hn => rw [readNumber_numeral _ h, decide_eq_false hn]
  have hvalue : (if decide (n < 0) then -(n.natAbs : Int) else (n.natAbs : Int)) = n := by
    split <;> rename_i hn <;> simp only [decide_eq_true_eq] at hn <;> omega
  simp only [readSigned, hread, hvalue]

theorem stoull_numeral (n : Nat) {rest : Text} (h : EndsNumber rest) :
    stoull (numeral n ++ rest) = if n < 2 ^ 64 then .ok n else .error .outOfRange := by
  simp [stoull, readNumber_numeral n h]

/-! ## Parts behind each other -/

/-- The parts with `c` between them. -/
def join (c : Char) : List Text → Text
  | [] => []
  | [t] => t
  | t :: u :: ts => t ++ c :: join c (u :: ts)

variable {c : Char}

@[simp] theorem join_singleton (c : Char) (t : Text) : join c [t] = t := rfl

theorem before_of_notMem {t : Text} (h : c ∉ t) : before c t = t :=
  List.takeWhile_eq_self_iff.mpr fun d hd => by
    have hne : d ≠ c := by rintro rfl; exact h hd
    simpa using hne

theorem after_of_notMem {t : Text} (h : c ∉ t) : after c t = t := by
  have hd : t.dropWhile (· ≠ c) = [] := List.dropWhile_eq_nil_iff.mpr fun d hd => by
    have hne : d ≠ c := by rintro rfl; exact h hd
    simpa using hne
  unfold after
  rw [hd]

theorem before_append_cons {t : Text} (h : c ∉ t) (s : Text) : before c (t ++ c :: s) = t := by
  induction t with
  | nil => simp [before]
  | cons d t ih =>
    have hd : d ≠ c := by rintro rfl; simp at h
    rw [List.cons_append, before_cons_of_ne hd, ih fun ht => h (List.mem_cons_of_mem _ ht)]

theorem after_append_cons {t : Text} (h : c ∉ t) (s : Text) : after c (t ++ c :: s) = s := by
  induction t with
  | nil => simp [after]
  | cons d t ih =>
    have hd : d ≠ c := by rintro rfl; simp at h
    rw [List.cons_append, after_cons_of_ne hd (by simp),
      ih fun ht => h (List.mem_cons_of_mem _ ht)]

theorem dropWhile_append_cons {t : Text} (h : c ∉ t) (s : Text) :
    (t ++ c :: s).dropWhile (· ≠ c) = c :: s := by
  have hne : ∀ d ∈ t, decide (d ≠ c) = true := fun d hd => by
    have hdc : d ≠ c := by rintro rfl; exact h hd
    simpa using hdc
  rw [List.dropWhile_append_of_pos hne]
  exact List.dropWhile_cons_of_neg (by simp)

theorem before_join {t : Text} (h : c ∉ t) (ts : List Text) : before c (join c (t :: ts)) = t := by
  cases ts with
  | nil => exact before_of_notMem h
  | cons u ts => exact before_append_cons h _

theorem after_join {t : Text} (h : c ∉ t) (u : Text) (ts : List Text) :
    after c (join c (t :: u :: ts)) = join c (u :: ts) :=
  after_append_cons h _

theorem mem_join (c : Char) (t u : Text) (ts : List Text) : c ∈ join c (t :: u :: ts) := by
  simp [join]

theorem idxOf?_append_cons {t : Text} (h : c ∉ t) (s : Text) :
    (t ++ c :: s).idxOf? c = some t.length := by
  induction t with
  | nil => simp [List.idxOf?_cons]
  | cons d t ih =>
    have hd : d ≠ c := by rintro rfl; simp at h
    simp [List.idxOf?_cons, hd, ih fun ht => h (List.mem_cons_of_mem _ ht)]

theorem find_append_cons {t : Text} (h : c ∉ t) (s : Text) : find c (t ++ c :: s) = t.length := by
  rw [find, idxOf?_append_cons h]

theorem find_of_notMem {t : Text} (h : c ∉ t) : find c t = -1 := by
  rw [find, List.idxOf?_eq_none_iff.mpr h]

/-- The characters between the first `s` and what follows the next `t`. -/
theorem substr_middle (s t u : Text) : substr (s ++ (t ++ u)) s.length t.length = .ok t := by
  unfold substr
  rw [if_neg (by simp only [List.length_append]; omega)]
  simp

theorem substr_zero_neg (s : Text) : substr s 0 (-1) = .ok s := by
  unfold substr
  rw [if_neg (by omega)]
  simp

/-- Dropping characters from the parts. -/
theorem filter_join {p : Char → Bool} (hc : p c) (ts : List Text) :
    (join c ts).filter p = join c (ts.map (List.filter p)) := by
  induction ts with
  | nil => rfl
  | cons t ts ih =>
    cases ts with
    | nil => rfl
    | cons u ts => simpa [join, hc] using ih

end NdpSim.Library.Text
