import NdpSim.Library.Loops
import NdpSim.Parser.Readers

/-!
# Recovering operands

Which source fields each case of the parser gives back on operands that are written as the
assembly language has them. Most give them back exactly if every register number fits 32 bits and
every immediate the type it is read as; a few read an operand that is not there, or leave one out.
-/
namespace NdpSim

open Library Text

/-! ## Values -/

/-- A number of a signed type. -/
def InBits (bits : Nat) (n : Int) : Prop := -2 ^ (bits - 1) ≤ n ∧ n < 2 ^ (bits - 1)

/-- The operand is read as what it denotes, its immediate in a type of the given width. -/
def Operand.Fits (bits : Nat) : Operand → Prop
  | reg r => r.Fits
  | imm n => InBits bits n
  | mem offset base => base.Fits ∧ ∀ n ∈ offset, InBits 64 n
  | label l => l.Fits

theorem readSigned_iff (bits : Nat) (n : Int) :
    readSigned bits (signedNumeral n) = .ok n ↔ InBits bits n := by
  have hread := readSigned_signedNumeral bits n endsNumber_nil
  rw [List.append_nil] at hread
  rw [hread, InBits]
  split
  case isTrue h => exact ⟨fun _ => h, fun _ => rfl⟩
  case isFalse h => exact ⟨fun he => (nomatch he), fun hn => absurd hn h⟩

theorem stoll_iff (n : Int) : Parse.ofText (stoll (signedNumeral n)) = .ok n ↔ InBits 64 n := by
  rw [ofText_eq_ok]
  exact readSigned_iff 64 n

theorem stoi_iff (n : Int) : Parse.ofText (stoi (signedNumeral n)) = .ok n ↔ InBits 32 n := by
  rw [ofText_eq_ok]
  exact readSigned_iff 32 n

theorem readOffset_iff (offset : Option Int) :
    readOffset offset = .ok (offset.getD 0) ↔ ∀ n ∈ offset, InBits 64 n := by
  cases offset with
  | none => simp [readOffset]
  | some n => simpa [readOffset] using stoll_iff n

theorem parseLabel_text (l : Label) : parseLabel l.text = .ok l.key ↔ l.Fits := by
  obtain ⟨skip, n⟩ := l
  have hnumber := readSigned_iff 32 n
  cases skip with
  | false =>
    have htake : (Label.text ⟨false, n⟩).take 5 = ".LOOP".toList := by simp [Label.text]
    have hdrop : (Label.text ⟨false, n⟩).drop 5 = signedNumeral n := by simp [Label.text]
    rw [parseLabel, if_pos htake, hdrop, ofText_eq_ok]
    simp only [Label.key, Label.Fits, Bool.false_eq_true, if_false]
    rw [stoi, hnumber, InBits]
    omega
  | true =>
    have htake : (Label.text ⟨true, n⟩).take 5 = ".SKIP".toList := by simp [Label.text]
    have hdrop : (Label.text ⟨true, n⟩).drop 5 = signedNumeral n := by simp [Label.text]
    rw [parseLabel, if_neg (by rw [htake]; decide), if_pos htake, hdrop]
    simp only [Label.key, Label.Fits, if_true]
    constructor
    · intro h
      obtain ⟨m, hm, h⟩ := bind_eq_ok.mp h
      obtain ⟨hlt, hkey⟩ := ofSum_eq_ok.mp h
      obtain rfl : m = n := by omega
      have hbits := hnumber.mp (ofText_eq_ok.mp hm)
      simp only [InBits] at hbits
      omega
    · rintro ⟨hlo, hhi, hkey⟩
      have hm : Parse.ofText (stoi (signedNumeral n)) = .ok n :=
        ofText_eq_ok.mpr (hnumber.mpr ⟨hlo, hhi⟩)
      exact bind_eq_ok.mpr ⟨n, hm, ofSum_eq_ok.mpr ⟨hkey, rfl⟩⟩

/-! ## Recovering the sources -/

/-- The parser's case gives the source fields `xs`. -/
def Recovers (r : Reader) (dest src : Text) (xs : List Int) : Prop :=
  ∃ rs, r.run dest src = .ok rs ∧ sources rs = sources xs

theorem sources_inj {xs ys : List Int} (hlen : xs.length = ys.length) (h5 : ys.length ≤ 5)
    (h : sources xs = sources ys) : xs = ys := by
  refine List.ext_getElem hlen fun i hi hi' => ?_
  have hslot := congrFun h ⟨i, by omega⟩
  simpa [sources, hi, hi'] using hslot

section Recovers

variable {r : Reader} {dest src : Text} {xs : List Int}

theorem recovers_iff {reads : List (Parse Int)} (h : Reads (r.run dest src) reads)
    (hlen : reads.length = xs.length) (h5 : xs.length ≤ 5) :
    Recovers r dest src xs ↔ List.Forall₂ (fun r x => r = .ok x) reads xs := by
  constructor
  · rintro ⟨rs, hrs, hsame⟩
    have hall := (h rs).mp hrs
    rwa [sources_inj (hall.length_eq.symm.trans hlen) h5 hsame] at hall
  · intro hall
    exact ⟨xs, (h xs).mpr hall, rfl⟩

/-- A further register that is read shows in a field that should be unused. -/
theorem not_recovers_of_extra (reads : List (Parse Int)) {t : Text}
    (h : Reads (r.run dest src) (reads ++ [getRegValue t]))
    (hlen : reads.length = xs.length) (h5 : xs.length < 5) : ¬ Recovers r dest src xs := by
  rintro ⟨rs, hrs, hsame⟩
  have hall := (h rs).mp hrs
  have hlength : rs.length = xs.length + 1 := by
    rw [← hall.length_eq, List.length_append, hlen, List.length_singleton]
  have hlast : getRegValue t = .ok rs[xs.length] := by
    have hget := hall.get (i := xs.length) (by simp [hlen]) (by omega)
    simpa [← hlen] using hget
  have hslot := congrFun hsame ⟨xs.length, h5⟩
  have hunused : rs[xs.length] = -1 := by simpa [sources, hlength] using hslot
  have hnonneg := getRegValue_nonneg hlast
  omega

/-- A field that is not read is missed. -/
theorem not_recovers_of_missing {reads : List (Parse Int)} {x : Int}
    (h : Reads (r.run dest src) reads) (hx : xs[reads.length]? = some x) (hne : x ≠ -1)
    (h5 : reads.length < 5) : ¬ Recovers r dest src xs := by
  rintro ⟨rs, hrs, hsame⟩
  have hlen := ((h rs).mp hrs).length_eq
  have hslot := congrFun hsame ⟨reads.length, h5⟩
  simp only [sources, List.getD_eq_getElem?_getD, hx, Option.getD_some] at hslot
  rw [List.getElem?_eq_none (by omega), Option.getD_none] at hslot
  exact hne hslot.symm

end Recovers

/-! ## The cases that read every operand -/

section Cases

variable (dest : Text) (a b m : Reg) (n : Int) (offset : Option Int) (l : Label)

theorem Reg.comma (r : Reg) : ',' ∉ r.text := r.plain_text.notMem (by decide)

theorem recovers_number : Recovers .number dest (signedNumeral n) [n] ↔ InBits 64 n := by
  refine Iff.trans (recovers_iff (reads_one _) rfl (by simp)) ?_
  simp [stoll_iff]

theorem recovers_register : Recovers .register dest a.text [a.number] ↔ a.Fits := by
  refine Iff.trans (recovers_iff (reads_one _) rfl (by simp)) ?_
  simp [getRegValue_text]

theorem recovers_byteOffset :
    Recovers .byteOffset dest (join ',' [a.text, signedNumeral n]) [a.number, n] ↔
      a.Fits ∧ InBits 32 n := by
  refine Iff.trans (recovers_iff (reads_byteOffset dest a.comma) rfl (by simp)) ?_
  simp [getRegValue_text, stoi_iff]

theorem recovers_registers :
    Recovers .registers dest (join ',' [a.text, b.text]) [a.number, b.number] ↔
      a.Fits ∧ b.Fits := by
  refine Iff.trans (recovers_iff (reads_registers a.comma) rfl (by simp)) ?_
  simp [getRegValue_text]

theorem recovers_immediate :
    Recovers .immediate dest (join ',' [a.text, signedNumeral n]) [a.number, n] ↔
      a.Fits ∧ InBits 64 n := by
  refine Iff.trans (recovers_iff (reads_immediate a.comma) rfl (by simp)) ?_
  simp [getRegValue_text, stoll_iff]

theorem recovers_vor :
    Recovers .vor dest (join ',' [a.text, b.text, m.text]) [a.number, b.number, m.number] ↔
      a.Fits ∧ b.Fits ∧ m.Fits := by
  refine Iff.trans (recovers_iff (reads_vor_three a.comma b.comma) rfl (by simp)) ?_
  simp [getRegValue_text]

theorem recovers_memory :
    Recovers .memory dest (Operand.mem offset a).text [a.number, offset.getD 0] ↔
      a.Fits ∧ ∀ n ∈ offset, InBits 64 n := by
  refine Iff.trans (recovers_iff (reads_memory offset a) rfl (by simp)) ?_
  simp [getRegValue_text, readOffset_iff]

theorem recovers_memory_bare : Recovers .memory dest a.text [a.number, 0] ↔ a.Fits := by
  refine Iff.trans (recovers_iff (reads_memory_bare a) rfl (by simp)) ?_
  simp [getRegValue_text]

theorem recovers_indexedLoad_two :
    Recovers .indexedLoad dest (join ',' [(Operand.mem offset a).text, b.text])
        [a.number, offset.getD 0, b.number] ↔
      (a.Fits ∧ ∀ n ∈ offset, InBits 64 n) ∧ b.Fits := by
  refine Iff.trans (recovers_iff (reads_indexedLoad_two offset a b.comma) rfl (by simp)) ?_
  simp [getRegValue_text, readOffset_iff, and_assoc]

theorem recovers_indexedLoad_three :
    Recovers .indexedLoad dest (join ',' [(Operand.mem offset a).text, b.text, m.text])
        [a.number, offset.getD 0, b.number, m.number] ↔
      (a.Fits ∧ ∀ n ∈ offset, InBits 64 n) ∧ b.Fits ∧ m.Fits := by
  refine Iff.trans (recovers_iff (reads_indexedLoad_three offset a b.comma) rfl (by simp)) ?_
  simp [getRegValue_text, readOffset_iff, and_assoc]

theorem recovers_segment :
    Recovers .segment dest (join ',' [(Operand.mem none a).text, b.text]) [a.number, b.number] ↔
      a.Fits ∧ b.Fits := by
  refine Iff.trans (recovers_iff (reads_segment a dest) rfl (by simp)) ?_
  simp [getRegValue_text]

theorem recovers_scalarAmo (d : Reg) :
    Recovers .scalarAmo d.text (join ',' [b.text, (Operand.mem none a).text])
        [d.number, b.number, a.number] ↔
      d.Fits ∧ b.Fits ∧ a.Fits := by
  refine Iff.trans (recovers_iff (reads_scalarAmo a d.text b) rfl (by simp)) ?_
  simp [getRegValue_text]

theorem recovers_vectorAmo :
    Recovers .vectorAmo dest (join ',' [(Operand.mem none a).text, b.text, m.text])
        [a.number, b.number, m.number] ↔
      a.Fits ∧ b.Fits ∧ m.Fits := by
  refine Iff.trans (recovers_iff (reads_vectorAmo_three a b.comma m.comma) rfl (by simp)) ?_
  simp [getRegValue_text]

theorem recovers_reduction_two :
    Recovers .reduction dest (join ',' [a.text, b.text]) [a.number, b.number] ↔
      a.Fits ∧ b.Fits := by
  refine Iff.trans (recovers_iff (reads_reduction_two a.comma b.comma) rfl (by simp)) ?_
  simp [getRegValue_text]

theorem recovers_reduction_three :
    Recovers .reduction dest (join ',' [a.text, b.text, m.text]) [a.number, b.number, m.number] ↔
      a.Fits ∧ b.Fits ∧ m.Fits := by
  refine Iff.trans (recovers_iff (reads_reduction_three a.comma b.comma m.comma) rfl (by simp)) ?_
  simp [getRegValue_text]

theorem recovers_unary :
    Recovers .unary dest (join ',' [a.text, m.text]) [a.number, m.number] ↔
      a.Fits ∧ m.Fits := by
  refine Iff.trans (recovers_iff (reads_unary_two dest a.comma m.comma) rfl (by simp)) ?_
  simp [getRegValue_text]

theorem recovers_first : Recovers .first dest a.text [a.number] ↔ a.Fits := by
  refine Iff.trans (recovers_iff (reads_first dest a.comma) rfl (by simp)) ?_
  simp [getRegValue_text]

theorem recovers_splat : Recovers .splat dest (signedNumeral n) [n] ↔ InBits 32 n := by
  refine Iff.trans (recovers_iff (reads_splat dest n) rfl (by simp)) ?_
  simp [stoi_iff]

theorem recovers_splat_masked :
    Recovers .splat dest (join ',' [signedNumeral n, m.text]) [n, m.number] ↔
      InBits 32 n ∧ m.Fits := by
  refine Iff.trans (recovers_iff (reads_splat_masked dest n) rfl (by simp)) ?_
  simp [stoi_iff, getRegValue_text]

theorem recovers_test : Recovers .test dest a.text [a.number] ↔ a.Fits := by
  refine Iff.trans (recovers_iff (reads_test dest a.comma) rfl (by simp)) ?_
  simp [getRegValue_text]

theorem recovers_jump (src : Text) : Recovers .jump l.text src [-1, -1, l.key] ↔ l.Fits := by
  refine Iff.trans (recovers_iff (reads_jump l.text src) rfl (by simp)) ?_
  simp [parseLabel_text]

theorem recovers_branch (d : Reg) :
    Recovers .branch d.text (join ',' [a.text, l.text]) [d.number, a.number, l.key] ↔
      d.Fits ∧ a.Fits ∧ l.Fits := by
  refine Iff.trans (recovers_iff (reads_branch d.text a.comma) rfl (by simp)) ?_
  simp [getRegValue_text, parseLabel_text]

theorem recovers_branchZero (d : Reg) :
    Recovers .branchZero d.text l.text [d.number, -1, l.key] ↔ d.Fits ∧ l.Fits := by
  have hl : ',' ∉ l.text := l.plain_text.notMem (by decide)
  refine Iff.trans (recovers_iff (reads_branchZero d.text hl) rfl (by simp)) ?_
  simp [getRegValue_text, parseLabel_text]

theorem recovers_binary_one : Recovers .binary dest a.text [a.number] ↔ a.Fits := by
  refine Iff.trans (recovers_iff (reads_binary_one a.comma) rfl (by simp)) ?_
  simp [getRegValue_text]

theorem recovers_binary_two :
    Recovers .binary dest (join ',' [a.text, b.text]) [a.number, b.number] ↔
      a.Fits ∧ b.Fits := by
  refine Iff.trans (recovers_iff (reads_binary_two a.comma) rfl (by simp)) ?_
  simp [getRegValue_text]

/-! ## The cases that go wrong -/

/-- `vid.v` and `vmset.m` without a mask read their destination as one. -/
theorem not_recovers_register (r : Reg) : ¬ Recovers .register dest r.text [] :=
  not_recovers_of_extra [] (reads_one _) rfl (by decide)

theorem not_recovers_nothing (src : Text) : ¬ Recovers .nothing dest src [a.number, n] := by
  have hnonneg := a.number_nonneg
  exact not_recovers_of_missing (reads_readAll []) rfl (by omega) (by decide)

theorem not_recovers_vor :
    ¬ Recovers .vor dest (join ',' [a.text, b.text]) [a.number, b.number] :=
  not_recovers_of_extra [_, _] (reads_vor_two a.comma b.comma) rfl (by simp)

theorem not_recovers_unary : ¬ Recovers .unary dest a.text [a.number] :=
  not_recovers_of_extra [_] (reads_unary_one dest a.comma) rfl (by simp)

theorem not_recovers_vectorAmo (c : Reg) :
    ¬ Recovers .vectorAmo dest (join ',' [(Operand.mem none a).text, b.text, c.text, m.text])
      [a.number, b.number, c.number, m.number] := by
  have hnonneg := m.number_nonneg
  exact not_recovers_of_missing (reads_vectorAmo_four a b.comma c.comma m.comma) rfl (by omega)
    (by simp)

theorem not_recovers_testTwice : ¬ Recovers .testTwice dest a.text [a.number] := by
  rintro ⟨rs, hrs, hsame⟩
  simp only [Reader.run, before_of_notMem a.comma] at hrs
  obtain ⟨x, hx, hrs⟩ := bind_eq_ok.mp hrs
  obtain rfl := Except.ok.inj hrs
  have hslot : x = -1 := congrFun hsame 1
  have hnonneg := getRegValue_nonneg hx
  omega

/-- What an indexed store reads as its index: the first two characters of the register. -/
theorem getRegValue_cut (r : Reg) :
    getRegValue (r.text.take 2) = .ok r.number ↔ ∃ n, r.index? = some n ∧ n < 10 := by
  have hfits {k : Nat} (hk : k < 10) : (Reg.x k).Fits ∧ (Reg.f k).Fits ∧ (Reg.v k).Fits := by
    cases k <;> simp only [Reg.Fits, Reg.number, regX0, spcialRegStart, regXBase, regFBase,
      regVBase] <;> omega
  cases r with
  | x n =>
    obtain ⟨k, hcut, hk, hsame, hzero⟩ := take_one_numeral n
    have htext : (Reg.x n).text.take 2 = (Reg.x k).text := congrArg ('x' :: ·) hcut
    rw [htext, (getRegValue_text (.x k)).mpr (hfits hk).1]
    simp only [Reg.index?, Option.some_inj, exists_eq_left', Except.ok.injEq, ← hsame]
    cases n <;> cases k <;> simp [Reg.number] at hzero ⊢
  | f n =>
    obtain ⟨k, hcut, hk, hsame, -⟩ := take_one_numeral n
    have htext : (Reg.f n).text.take 2 = (Reg.f k).text := congrArg ('f' :: ·) hcut
    rw [htext, (getRegValue_text (.f k)).mpr (hfits hk).2.1]
    simp [Reg.index?, Reg.number, hsame]
  | v n =>
    obtain ⟨k, hcut, hk, hsame, -⟩ := take_one_numeral n
    have htext : (Reg.v n).text.take 2 = (Reg.v k).text := congrArg ('v' :: ·) hcut
    rw [htext, (getRegValue_text (.v k)).mpr (hfits hk).2.2]
    simp [Reg.index?, Reg.number, hsame]
  | special r =>
    simp only [Reg.index?]
    cases r <;> decide

theorem Reg.two_le_length (r : Reg) : 2 ≤ r.text.length := by
  have hnumeral (n : Nat) : 1 ≤ (numeral n).length := List.length_pos_iff.mpr (numeral_ne_nil n)
  cases r with
  | x n | f n | v n => simpa [text] using hnumeral n
  | special r => cases r <;> decide

theorem recovers_indexedStore :
    Recovers .indexedStore dest (join ',' [(Operand.mem offset a).text, b.text, m.text])
        [a.number, offset.getD 0, b.number, m.number] ↔
      (a.Fits ∧ ∀ n ∈ offset, InBits 64 n) ∧ (∃ n, b.index? = some n ∧ n < 10) ∧ m.Fits := by
  have hcut : (join ',' [b.text, m.text]).take 2 = b.text.take 2 :=
    List.take_append_of_le_length b.two_le_length
  refine Iff.trans (recovers_iff (reads_indexedStore offset a [m.text]) rfl (by simp)) ?_
  simp [hcut, after_join b.comma, getRegValue_text, readOffset_iff, getRegValue_cut, and_assoc]

/-- Without a mask the index register is read as one. -/
theorem not_recovers_indexedStore :
    ¬ Recovers .indexedStore dest (join ',' [(Operand.mem offset a).text, b.text])
      [a.number, offset.getD 0, b.number] := by
  have hreads := reads_indexedStore (s := b.text) offset a []
  exact not_recovers_of_extra [_, _, _] hreads rfl (by simp)

end Cases

/-! ## Segments -/

theorem segmentMnemonics_read : ∀ e ∈ segmentMnemonics,
    (do stoi (← substr e.1 6 1)) = .ok (e.2 : Int) ∧ 1 ≤ e.2 ∧ e.2 ≤ 8 := by
  decide +kernel

theorem toList_toString_add (n i : Nat) : (toString ((n : Int) + i)).toList = numeral (n + i) := by
  rw [← Int.natCast_add]
  exact toList_toString (n + i)

theorem stoi_numeral (n : Nat) :
    stoi (numeral n) = if n < 2 ^ 31 then .ok (n : Int) else .error .outOfRange := by
  have hread := readSigned_signedNumeral 32 n endsNumber_nil
  have hnonneg : ¬ (n : Int) < 0 := by omega
  simp only [signedNumeral, hnonneg, if_false, Int.natAbs_natCast, List.append_nil] at hread
  rw [stoi, hread]
  exact if_congr (by omega) rfl rfl

/-- The registers of the segments are numbered in an `int`. -/
theorem exists_parseSegments_numbered {name : Text} {segments : Nat}
    (hname : (name, segments) ∈ segmentMnemonics) {c : Char} {mk : Nat → Reg}
    (htext : ∀ n, (mk n).text = c :: numeral n) (hfits : ∀ n < 2 ^ 31, (mk n).Fits) (n : Nat)
    (x : Int) :
    (∃ sg, parseSegments name (mk n).text x = .ok sg) ↔ n + segments ≤ 2 ^ 31 := by
  obtain ⟨hcnt, hpos, hle⟩ := segmentMnemonics_read _ hname
  simp only at hcnt hpos hle
  have hdigits : (do stoi (← substr (mk n).text 1 (-1))) = stoi (numeral n) := by
    rw [htext, substr, if_neg (by simp only [List.length_cons]; omega)]
    rfl
  have hsegment (i : Nat) : (∃ y, (do
      let m ← ofSum (n + i)
      getRegValue ((mk n).text.take 1 ++ (toString m).toList)) = .ok y) ↔ n + i < 2 ^ 31 := by
    constructor
    · rintro ⟨y, hy⟩
      obtain ⟨m, hm, -⟩ := bind_eq_ok.mp hy
      have hlt := (ofSum_eq_ok.mp hm).1
      omega
    · intro hlt
      have hread := (getRegValue_text _).mpr (hfits (n + i) hlt)
      refine ⟨(mk (n + i)).number, bind_eq_ok.mpr ⟨n + i, ofSum_eq_ok.mpr ⟨by omega, rfl⟩, ?_⟩⟩
      rw [toList_toString_add, htext]
      rwa [htext] at hread
  have hrest := (exists_mapM_eq_ok (l := List.range' 1 (segments - 1))).trans
    (forall_congr' fun i => imp_congr_right fun _ => hsegment i)
  unfold parseSegments
  rw [hcnt, hdigits, stoi_numeral]
  by_cases hn : n < 2 ^ 31
  case neg =>
    simp only [if_neg hn, Parse.ofText, ok_bind]
    rw [if_neg (by omega)]
    constructor
    · rintro ⟨sg, h⟩
      cases h
    · intro hroom
      omega
  case pos =>
    simp only [if_pos hn, Parse.ofText, ok_bind]
    rw [if_neg (by omega), Int.toNat_natCast]
    constructor
    · rintro ⟨sg, h⟩
      obtain ⟨ys, hys, -⟩ := bind_eq_ok.mp h
      have hall := hrest.mp ⟨ys, hys⟩
      by_contra hroom
      have hlast := hall (segments - 1) (by rw [List.mem_range'_1]; omega)
      omega
    · intro hroom
      obtain ⟨ys, hys⟩ := hrest.mpr fun i hi => by
        rw [List.mem_range'_1] at hi
        omega
      exact ⟨_, bind_eq_ok.mpr ⟨ys, hys, rfl⟩⟩

theorem exists_parseSegments_iff {name : Text} {segments : Nat}
    (hname : (name, segments) ∈ segmentMnemonics) (r : Reg) (x : Int) :
    (∃ sg, parseSegments name r.text x = .ok sg) ↔
      ∃ n, r.index? = some n ∧ n + segments ≤ 2 ^ 31 := by
  cases r with
  | x n =>
    refine (exists_parseSegments_numbered hname (fun _ => rfl) (fun n hn => ?_) n x).trans ?_
    · cases n <;> simp only [Reg.Fits, Reg.number, regX0, spcialRegStart, regXBase] <;> omega
    · simp [Reg.index?]
  | f n =>
    refine (exists_parseSegments_numbered hname (fun _ => rfl) (fun n hn => ?_) n x).trans ?_
    · simp only [Reg.Fits, Reg.number, regFBase]; omega
    · simp [Reg.index?]
  | v n =>
    refine (exists_parseSegments_numbered hname (fun _ => rfl) (fun n hn => ?_) n x).trans ?_
    · simp only [Reg.Fits, Reg.number, regVBase]; omega
    · simp [Reg.index?]
  | special r =>
    obtain ⟨hcnt, -, hle⟩ := segmentMnemonics_read _ hname
    simp only at hcnt hle
    have hdigits : (do stoi (← substr r.text 1 (-1))) = .error .invalidArgument := by
      cases r <;> decide
    simp only [Reg.index?, reduceCtorEq, false_and, exists_false, iff_false]
    rintro ⟨sg, h⟩
    unfold parseSegments at h
    rw [hcnt, Reg.text, hdigits] at h
    simp only [Parse.ofText, ok_bind] at h
    rw [if_neg (by omega)] at h
    cases h

end NdpSim
