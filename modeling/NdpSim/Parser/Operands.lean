import NdpSim.Parser.Assembly

/-!
# Reading operands back

What the parser's pieces give on an operand as the assembly language writes it: a register token
gives its number as long as that fits 32 bits, an immediate its value as long as it fits the type
it is read as, and the parts of an address are found between the parentheses.
-/
namespace NdpSim

open Library Text

theorem ofText_eq_ok {α : Type} {x : Except Text.Fault α} {a : α} :
    Parse.ofText x = .ok a ↔ x = .ok a := by
  cases x <;> simp [Parse.ofText]

/-! ## Registers -/

theorem Reg.number_nonneg (r : Reg) : 0 ≤ r.number := by
  cases r with
  | x n =>
    cases n with
    | zero => decide
    | succ n => simp only [number, regXBase]; omega
  | f n => simp only [number, regFBase]; omega
  | v n => simp only [number, regVBase]; omega
  | special r => cases r <;> decide

/-- A numbered register has none of the names. -/
theorem lookup_numbered {c : Char} {n : Nat} (hc : c ∈ ['x', 'f', 'v']) (hx : c = 'x' → n ≠ 0) :
    namedRegs.lookup (String.ofList (c :: numeral n)) = none := by
  have hnames : ∀ e ∈ namedRegs, ∀ d ∈ e.1.toList.head?.toList, d ∈ ['x', 'f', 'v'] →
      e.1.toList = ['x', '0'] ∨ e.1.toList = "vstart".toList := by
    simp only [forall_mem_iff_all]
    decide
  refine List.lookup_eq_none_iff.mpr fun e he => bne_iff_ne.mpr fun heq => ?_
  have htext : e.1.toList = c :: numeral n := by rw [← heq, String.toList_ofList]
  rcases hnames e he c (by simp [htext]) hc with h | h
  · rw [htext] at h
    obtain ⟨rfl, hn⟩ := List.cons_eq_cons.mp h
    have hzero := natOfDigits_numeral n
    rw [hn] at hzero
    exact hx rfl hzero.symm
  · rw [htext] at h
    obtain ⟨rfl, hn⟩ := List.cons_eq_cons.mp h
    have hs : 's' ∈ numeral n := by rw [hn]; decide
    exact absurd (isDigit_of_mem_numeral hs) (by decide)

theorem regNumber_numeral (base : Int) (n : Nat) :
    regNumber base (numeral n) =
      if n < 2 ^ 64 then .ok ((base + n) % 2 ^ 32) else .error (.text .outOfRange) := by
  have hread := stoull_numeral n endsNumber_nil
  rw [List.append_nil] at hread
  rw [regNumber, hread]
  split <;> rfl

theorem regNumber_eq_iff {base : Int} (hb : 0 ≤ base) (n : Nat) :
    regNumber base (numeral n) = .ok (base + n) ↔ base + n < 2 ^ 32 := by
  rw [regNumber_numeral]
  constructor
  · intro h
    split at h
    · have hm := Except.ok.inj h
      omega
    · cases h
  · intro h
    rw [if_pos (by omega), Int.emod_eq_of_lt (by omega) h]

theorem getRegValue_numbered {c : Char} {n : Nat} (hx : c = 'x' → n ≠ 0)
    (hc : c ∈ ['x', 'f', 'v']) :
    getRegValue (c :: numeral n) =
      regNumber (if c = 'x' then regXBase else if c = 'f' then regFBase else regVBase)
        (numeral n) := by
  obtain ⟨d, ds, hn, -⟩ := numeral_cons n
  unfold getRegValue
  rw [lookup_numbered hc hx, hn]
  simp only [List.mem_cons, List.not_mem_nil, or_false] at hc
  rcases hc with rfl | rfl | rfl <;> rfl

/-- A register token is read as its register exactly if the number fits. -/
theorem getRegValue_text (r : Reg) : getRegValue r.text = .ok r.number ↔ r.Fits := by
  cases r with
  | x n =>
    cases n with
    | zero => simp only [Reg.Fits]; decide
    | succ n =>
      rw [Reg.text, getRegValue_numbered (by simp) (by simp)]
      exact regNumber_eq_iff (by decide) _
  | f n =>
    rw [Reg.text, getRegValue_numbered (by simp) (by simp)]
    exact regNumber_eq_iff (by decide) _
  | v n =>
    rw [Reg.text, getRegValue_numbered (by simp) (by simp)]
    exact regNumber_eq_iff (by decide) _
  | special r => simp only [Reg.Fits]; cases r <;> decide

/-- No token is read as the mark of an unused field. -/
theorem getRegValue_nonneg {t : Text} {n : Int} (h : getRegValue t = .ok n) : 0 ≤ n := by
  have hnumber {base : Int} {ds : Text} (h : regNumber base ds = .ok n) : 0 ≤ n := by
    obtain ⟨m, -, h⟩ := bind_eq_ok.mp h
    obtain rfl := Except.ok.inj h
    exact Int.emod_nonneg _ (by decide)
  unfold getRegValue at h
  split at h
  case h_1 hname =>
    obtain rfl := Except.ok.inj h
    have hall : ∀ e ∈ namedRegs, 0 ≤ e.2 := by decide
    obtain ⟨before, rest, hsplit, -⟩ := List.lookup_eq_some_iff.mp hname
    exact hall (String.ofList t, _) (by simp [hsplit])
  case h_2 =>
    split at h
    · exact hnumber h
    · exact hnumber h
    · exact hnumber h
    · exact (Except.ok.inj h).le

/-! ## The characters of an operand -/

/-- Characters that separate nothing. -/
def PlainText (t : Text) : Prop := ∀ c ∈ t, c ∉ [' ', ',', '(', ')']

theorem plain_numeral (n : Nat) : PlainText (numeral n) := by
  intro c hc hmem
  have hd := isDigit_of_mem_numeral hc
  simp only [List.mem_cons, List.not_mem_nil, or_false] at hmem
  rcases hmem with rfl | rfl | rfl | rfl <;> cases hd

theorem PlainText.cons {c : Char} {t : Text} (hc : c ∉ [' ', ',', '(', ')']) (h : PlainText t) :
    PlainText (c :: t) := by
  intro d hd
  rcases List.mem_cons.mp hd with rfl | hd
  · exact hc
  · exact h d hd

theorem PlainText.append {s t : Text} (hs : PlainText s) (ht : PlainText t) :
    PlainText (s ++ t) := by
  intro c hc
  rcases List.mem_append.mp hc with hc | hc
  · exact hs c hc
  · exact ht c hc

theorem plain_signedNumeral (n : Int) : PlainText (signedNumeral n) := by
  unfold signedNumeral
  split
  · exact (plain_numeral _).cons (by decide)
  · exact plain_numeral _

theorem Reg.plain_text (r : Reg) : PlainText r.text := by
  cases r with
  | x n | f n | v n => exact (plain_numeral n).cons (by decide)
  | special r =>
    refine forall_mem_iff_all.mpr ?_
    cases r <;> decide

theorem Label.plain_text (l : Label) : PlainText l.text := by
  refine PlainText.append ?_ (plain_signedNumeral _)
  have hall : ∀ b : Bool, ∀ c ∈ (if b then ".SKIP".toList else ".LOOP".toList),
      c ∉ [' ', ',', '(', ')'] := by
    simp only [forall_mem_iff_all]
    decide
  exact hall l.skip

theorem plain_offset (offset : Option Int) : PlainText (offset.elim [] signedNumeral) := by
  cases offset with
  | none => intro c hc; cases hc
  | some n => exact plain_signedNumeral n

theorem PlainText.notMem {t : Text} {c : Char} (h : PlainText t)
    (hc : c ∈ [' ', ',', '(', ')']) : c ∉ t :=
  fun hmem => h c hmem hc

/-- Operands hold neither blanks nor commas. -/
theorem Operand.notMem_text {c : Char} (hc : c ∈ [' ', ',']) (o : Operand) : c ∉ o.text := by
  have hsep : c ∈ [' ', ',', '(', ')'] := List.mem_append_left _ hc
  cases o with
  | reg r => exact r.plain_text.notMem hsep
  | imm n => exact (plain_signedNumeral n).notMem hsep
  | mem offset base =>
    have ho := (plain_offset offset).notMem hsep
    have hb := base.plain_text.notMem hsep
    simp only [List.mem_cons, List.not_mem_nil, or_false] at hc
    rcases hc with rfl | rfl <;> simp [text, ho, hb]
  | label l => exact l.plain_text.notMem hsep

/-! ## Reading a list of fields -/

/-- The parser `p` reads these fields, one after the other. -/
def Reads (p : Parse (List Int)) (reads : List (Parse Int)) : Prop :=
  ∀ rs, p = .ok rs ↔ List.Forall₂ (fun r x => r = .ok x) reads rs

def readAll : List (Parse Int) → Parse (List Int)
  | [] => return []
  | r :: rs => do
    let x ← r
    let xs ← readAll rs
    return x :: xs

theorem reads_readAll (reads : List (Parse Int)) : Reads (readAll reads) reads := by
  induction reads with
  | nil =>
    intro rs
    rw [List.forall₂_nil_left_iff]
    exact ⟨fun h => (Except.ok.inj h).symm, fun h => h ▸ rfl⟩
  | cons r reads ih =>
    intro rs
    rw [List.forall₂_cons_left_iff]
    constructor
    · intro h
      obtain ⟨x, hx, h⟩ := bind_eq_ok.mp h
      obtain ⟨xs, hxs, h⟩ := bind_eq_ok.mp h
      exact ⟨x, xs, hx, (ih xs).mp hxs, (Except.ok.inj h).symm⟩
    · rintro ⟨x, xs, hx, hxs, rfl⟩
      exact bind_eq_ok.mpr ⟨x, hx, bind_eq_ok.mpr ⟨xs, (ih xs).mpr hxs, rfl⟩⟩

section Reads

variable (r₁ r₂ r₃ r₄ : Parse Int)

theorem reads_one : Reads (do return [← r₁]) [r₁] := by
  simpa [readAll] using reads_readAll [r₁]

theorem reads_two : Reads (do return [← r₁, ← r₂]) [r₁, r₂] := by
  simpa [readAll] using reads_readAll [r₁, r₂]

theorem reads_three : Reads (do return [← r₁, ← r₂, ← r₃]) [r₁, r₂, r₃] := by
  simpa [readAll] using reads_readAll [r₁, r₂, r₃]

theorem reads_four : Reads (do return [← r₁, ← r₂, ← r₃, ← r₄]) [r₁, r₂, r₃, r₄] := by
  simpa [readAll] using reads_readAll [r₁, r₂, r₃, r₄]

/-- The last field may be read first. -/
theorem reads_last_first :
    Reads (do let x₃ ← r₃; return [← r₁, ← r₂, x₃]) [r₁, r₂, r₃] := by
  intro rs
  constructor
  · intro h
    obtain ⟨x₃, h₃, h⟩ := bind_eq_ok.mp h
    obtain ⟨x₁, h₁, h⟩ := bind_eq_ok.mp h
    obtain ⟨x₂, h₂, h⟩ := bind_eq_ok.mp h
    obtain rfl := Except.ok.inj h
    exact .cons h₁ (.cons h₂ (.cons h₃ .nil))
  · rintro (_ | ⟨h₁, _ | ⟨h₂, _ | ⟨h₃, ⟨⟩⟩⟩⟩)
    rw [h₁, h₂, h₃]
    rfl

end Reads

/-! ## Addresses -/

/-- What stands between the parentheses, and before them. -/
theorem baseAndOffset_text {offset base : Text} (hopen : '(' ∉ offset) (hclose : ')' ∉ offset)
    (hb : ')' ∉ base) (rest : Text) :
    baseAndOffset (offset ++ '(' :: (base ++ ')' :: rest)) = .ok (base, offset) := by
  have hfirst : find '(' (offset ++ '(' :: (base ++ ')' :: rest)) = offset.length :=
    find_append_cons hopen _
  have hlast : find ')' (offset ++ '(' :: (base ++ ')' :: rest)) =
      offset.length + 1 + base.length := by
    have hc : ')' ∉ offset ++ '(' :: base := by simp [hclose, hb]
    have hfind := find_append_cons hc rest
    simp only [List.append_assoc, List.cons_append, List.length_append, List.length_cons] at hfind
    rw [hfind]
    push_cast
    ring
  have hoffset := substr_middle [] offset ('(' :: (base ++ ')' :: rest))
  have hbase := substr_middle (offset ++ ['(']) base (')' :: rest)
  simp only [List.nil_append, List.length_nil, Nat.cast_zero] at hoffset
  simp only [List.append_assoc, List.cons_append, List.nil_append, List.length_append,
    List.length_cons, List.length_nil, Nat.zero_add, Nat.cast_add, Nat.cast_one] at hbase
  have hlength : (offset.length : Int) + 1 + base.length - offset.length - 1 = base.length := by
    ring
  simp only [baseAndOffset, hfirst, hlast, hlength, hoffset, hbase, Parse.ofText]
  rfl

/-- Without parentheses the whole text is taken twice. -/
theorem baseAndOffset_bare {t : Text} (hopen : '(' ∉ t) (hclose : ')' ∉ t) :
    baseAndOffset t = .ok (t, t) := by
  simp only [baseAndOffset, find_of_notMem hopen, find_of_notMem hclose]
  norm_num only [substr_zero_neg, Parse.ofText]
  rfl

end NdpSim
