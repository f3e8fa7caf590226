import NdpSim.Parser.Recovery

/-!
# The parser round trip

Which instructions of the assembly language the parser gives back. It does so for most forms,
with register numbers of 32 bits and immediates of the width they are read in; the exceptions are
slips in single cases: a missing mask replaced by another operand, a mask that is never read, an
index register cut to one digit, an operand type without an entry in the table.
-/
namespace NdpSim

open Library Text

/-! ## The exceptions -/

/-- The operand types the parser knows. -/
def OperandType.Known (operandType : OperandType) : Prop :=
  operandType = .none ∨ operandType.suffix ∈ operandTypeMap.map Prod.fst

instance (operandType : OperandType) : Decidable operandType.Known :=
  inferInstanceAs (Decidable (_ ∨ _))

/-- What keeps an instruction from being read right. -/
inductive Caveat
  /-- nothing -/
  | none
  /-- the operands are never read right -/
  | never
  /-- without a mask another operand is read as one -/
  | needsMask
  /-- a mask is not read -/
  | refusesMask
  /-- as `needsMask`, and the index register is cut to one digit -/
  | shortIndex
  deriving DecidableEq

def caveatOf (op : Opcode) (operandType : OperandType) : Caveat :=
  if op = .vmset ∨ op = .vor ∧ operandType = .vi ∨ op = .test ∧ operandType = .vv then .never
  else if op ∈ [.vid, .vor, .vfsqrt, .vfexp] then .needsMask
  else if op ∈ vectorAmoOps then .refusesMask
  else if op ∈ [.vsuxei32, .vsuxei64] then .shortIndex
  else .none

/-- The operands are such that the caveat does no harm. -/
def Caveat.Heeded (form : Form) (operands : List Operand) : Caveat → Prop
  | none => True
  | never => False
  | needsMask => form.Masks operands
  | refusesMask => ¬ form.Masks operands
  | shortIndex => form.Masks operands ∧
      ∀ r, operands[2]? = some (.reg r) → ∃ n, r.index? = some n ∧ n < 10

/-- The bits of the type an immediate is read as. -/
def immBits (op : Opcode) (operandType : OperandType) : Nat :=
  if op = .lbu ∨ operandType = .v_i then 32 else 64

/-! ## Forms and cases -/

/-- A form, the case of the parser that reads it, and what has to be heeded. -/
structure Reading where
  form : Form
  reader : Reader
  arrangement : Arrangement
  bits : Nat
  caveat : Caveat
  deriving DecidableEq

/-- The text of the operands behind the first one; the parser takes the first for it if it is
the only one. -/
def srcText (o : Operand) : List Operand → Text
  | [] => o.text
  | p :: os => join ',' ((p :: os).map Operand.text)

/-- The first operand and the sources are read right exactly on fitting operands that heed the
caveat. -/
def Reading.Sound (r : Reading) : Prop :=
  ∀ o os, r.form.accepts (o :: os) →
    ((getRegValue o.text = .ok o.destField ∧
      Recovers r.reader o.text (srcText o os)
        (Arrangement.arrange (-1) (r.form.fields (o :: os)) r.arrangement)) ↔
      (∀ q ∈ o :: os, q.Fits r.bits) ∧ r.caveat.Heeded r.form (o :: os))

section Accepts

variable {o : Operand} {ks : List Kind} {os : List Operand}

theorem accepts_reg (h : Kind.reg.accepts o) : ∃ r, o = .reg r := by
  cases o <;> simp_all [Kind.accepts]

theorem accepts_imm (h : Kind.imm.accepts o) : ∃ n, o = .imm n := by
  cases o <;> simp_all [Kind.accepts]

theorem accepts_mem (h : Kind.mem.accepts o) : ∃ offset base, o = .mem offset base := by
  cases o <;> simp_all [Kind.accepts]

theorem accepts_base (h : Kind.base.accepts o) : ∃ base, o = .mem none base := by
  cases o with
  | mem offset base => cases offset <;> simp_all [Kind.accepts]
  | _ => simp_all [Kind.accepts]

theorem accepts_address (h : Kind.address.accepts o) :
    (∃ offset base, o = .mem offset base) ∨ ∃ r, o = .reg r := by
  cases o <;> simp_all [Kind.accepts]

theorem accepts_label (h : Kind.label.accepts o) : ∃ l, o = .label l := by
  cases o <;> simp_all [Kind.accepts]

/-- Operands of the kinds `ks`. -/
def OfKinds (ks : List Kind) (os : List Operand) : Prop :=
  List.Forall₂ (fun k o => k.accepts o) ks os

theorem kinds_two_regs (h : OfKinds [.reg, .reg] os) : ∃ d a, os = [.reg d, .reg a] := by
  rcases h with _ | ⟨hd, _ | ⟨ha, ⟨⟩⟩⟩
  obtain ⟨d, rfl⟩ := accepts_reg hd
  obtain ⟨a, rfl⟩ := accepts_reg ha
  exact ⟨d, a, rfl⟩

theorem kinds_three_regs (h : OfKinds [.reg, .reg, .reg] os) :
    ∃ d a b, os = [.reg d, .reg a, .reg b] := by
  rcases h with _ | ⟨hd, h⟩
  obtain ⟨d, rfl⟩ := accepts_reg hd
  obtain ⟨a, b, rfl⟩ := kinds_two_regs h
  exact ⟨d, a, b, rfl⟩

theorem kinds_four_regs (h : OfKinds [.reg, .reg, .reg, .reg] os) :
    ∃ d a b m, os = [.reg d, .reg a, .reg b, .reg m] := by
  rcases h with _ | ⟨hd, h⟩
  obtain ⟨d, rfl⟩ := accepts_reg hd
  obtain ⟨a, b, m, rfl⟩ := kinds_three_regs h
  exact ⟨d, a, b, m, rfl⟩

end Accepts

/-- An instruction without a mask. -/
theorem Reading.sound_of_kinds {ks : List Kind} {reader : Reader} {arrangement : Arrangement}
    {bits : Nat} {caveat : Caveat}
    (h : ∀ o os, OfKinds ks (o :: os) →
      ((getRegValue o.text = .ok o.destField ∧
        Recovers reader o.text (srcText o os) (Arrangement.arrange (-1)
          (List.zipWith Kind.fields (ks ++ [.reg]) (o :: os)) arrangement)) ↔
        (∀ q ∈ o :: os, q.Fits bits) ∧ caveat.Heeded ⟨ks, false⟩ (o :: os))) :
    Reading.Sound ⟨⟨ks, false⟩, reader, arrangement, bits, caveat⟩ := by
  rintro o os (hacc | ⟨⟨⟩, -⟩)
  exact h o os hacc

theorem sound_binary : Reading.Sound
    ⟨⟨[.reg, .reg, .reg], false⟩, .binary, .behindDest, 64, .none⟩ := by
  refine Reading.sound_of_kinds fun o os h => ?_
  obtain ⟨d, a, b, heq⟩ := kinds_three_regs h
  obtain ⟨rfl, rfl⟩ := List.cons_eq_cons.mp heq
  refine Iff.trans (and_congr (getRegValue_text d) (recovers_binary_two _ a b)) ?_
  simp [Operand.Fits, Caveat.Heeded]

theorem sound_registers : Reading.Sound
    ⟨⟨[.reg, .reg, .reg], false⟩, .registers, .behindDest, 64, .none⟩ := by
  refine Reading.sound_of_kinds fun o os h => ?_
  obtain ⟨d, a, b, heq⟩ := kinds_three_regs h
  obtain ⟨rfl, rfl⟩ := List.cons_eq_cons.mp heq
  refine Iff.trans (and_congr (getRegValue_text d) (recovers_registers _ a b)) ?_
  simp [Operand.Fits, Caveat.Heeded]

theorem sound_reduction : Reading.Sound
    ⟨⟨[.reg, .reg, .reg], true⟩, .reduction, .behindDest, 64, .none⟩ := by
  rintro o os (h | ⟨-, h⟩)
  · obtain ⟨d, a, b, heq⟩ := kinds_three_regs h
    obtain ⟨rfl, rfl⟩ := List.cons_eq_cons.mp heq
    refine Iff.trans (and_congr (getRegValue_text d) (recovers_reduction_two _ a b)) ?_
    simp [Operand.Fits, Caveat.Heeded]
  · obtain ⟨d, a, b, m, heq⟩ := kinds_four_regs h
    obtain ⟨rfl, rfl⟩ := List.cons_eq_cons.mp heq
    refine Iff.trans (and_congr (getRegValue_text d) (recovers_reduction_three _ a b m)) ?_
    simp [Operand.Fits, Caveat.Heeded]

theorem sound_vor : Reading.Sound
    ⟨⟨[.reg, .reg, .reg], true⟩, .vor, .behindDest, 64, .needsMask⟩ := by
  rintro o os (h | ⟨-, h⟩)
  · obtain ⟨d, a, b, heq⟩ := kinds_three_regs h
    obtain ⟨rfl, rfl⟩ := List.cons_eq_cons.mp heq
    refine iff_of_false (fun h => not_recovers_vor _ a b h.2) fun h => ?_
    simp [Caveat.Heeded, Form.Masks] at h
  · obtain ⟨d, a, b, m, heq⟩ := kinds_four_regs h
    obtain ⟨rfl, rfl⟩ := List.cons_eq_cons.mp heq
    refine Iff.trans (and_congr (getRegValue_text d) (recovers_vor _ a b m)) ?_
    simp [Operand.Fits, Caveat.Heeded, Form.Masks]

theorem sound_move {reader : Reader} (hreader : reader ∈ [.register, .first, .binary, .test]) :
    Reading.Sound ⟨⟨[.reg, .reg], false⟩, reader, .behindDest, 64, .none⟩ := by
  refine Reading.sound_of_kinds fun o os h => ?_
  obtain ⟨d, a, heq⟩ := kinds_two_regs h
  obtain ⟨rfl, rfl⟩ := List.cons_eq_cons.mp heq
  have hrecovers : Recovers reader d.text a.text [a.number] ↔ a.Fits := by
    simp only [List.mem_cons, List.not_mem_nil, or_false] at hreader
    rcases hreader with rfl | rfl | rfl | rfl
    · exact recovers_register _ a
    · exact recovers_first _ a
    · exact recovers_binary_one _ a
    · exact recovers_test _ a
  refine Iff.trans (and_congr (getRegValue_text d) hrecovers) ?_
  simp [Operand.Fits, Caveat.Heeded]

theorem sound_testTwice : Reading.Sound
    ⟨⟨[.reg, .reg], false⟩, .testTwice, .behindDest, 64, .never⟩ := by
  refine Reading.sound_of_kinds fun o os h => ?_
  obtain ⟨d, a, heq⟩ := kinds_two_regs h
  obtain ⟨rfl, rfl⟩ := List.cons_eq_cons.mp heq
  exact iff_of_false (fun h => not_recovers_testTwice _ a h.2) fun h => h.2

theorem sound_maskedMove : Reading.Sound
    ⟨⟨[.reg, .reg], true⟩, .binary, .behindDest, 64, .none⟩ := by
  rintro o os (h | ⟨-, h⟩)
  · obtain ⟨d, a, heq⟩ := kinds_two_regs h
    obtain ⟨rfl, rfl⟩ := List.cons_eq_cons.mp heq
    refine Iff.trans (and_congr (getRegValue_text d) (recovers_binary_one _ a)) ?_
    simp [Operand.Fits, Caveat.Heeded]
  · obtain ⟨d, a, m, heq⟩ := kinds_three_regs h
    obtain ⟨rfl, rfl⟩ := List.cons_eq_cons.mp heq
    refine Iff.trans (and_congr (getRegValue_text d) (recovers_binary_two _ a m)) ?_
    simp [Operand.Fits, Caveat.Heeded]

theorem sound_unary : Reading.Sound
    ⟨⟨[.reg, .reg], true⟩, .unary, .behindDest, 64, .needsMask⟩ := by
  rintro o os (h | ⟨-, h⟩)
  · obtain ⟨d, a, heq⟩ := kinds_two_regs h
    obtain ⟨rfl, rfl⟩ := List.cons_eq_cons.mp heq
    refine iff_of_false (fun h => not_recovers_unary _ a h.2) fun h => ?_
    simp [Caveat.Heeded, Form.Masks] at h
  · obtain ⟨d, a, m, heq⟩ := kinds_three_regs h
    obtain ⟨rfl, rfl⟩ := List.cons_eq_cons.mp heq
    refine Iff.trans (and_congr (getRegValue_text d) (recovers_unary _ a m)) ?_
    simp [Operand.Fits, Caveat.Heeded, Form.Masks]

/-- `vid.v` -/
theorem sound_register : Reading.Sound
    ⟨⟨[.reg], true⟩, .register, .behindDest, 64, .needsMask⟩ := by
  rintro o os (h | ⟨-, h⟩)
  · rcases h with _ | ⟨hd, ⟨⟩⟩
    obtain ⟨d, rfl⟩ := accepts_reg hd
    refine iff_of_false (fun h => not_recovers_register _ d h.2) fun h => ?_
    simp [Caveat.Heeded, Form.Masks] at h
  · obtain ⟨d, m, heq⟩ := kinds_two_regs h
    obtain ⟨rfl, rfl⟩ := List.cons_eq_cons.mp heq
    refine Iff.trans (and_congr (getRegValue_text d) (recovers_register _ m)) ?_
    simp [Operand.Fits, Caveat.Heeded, Form.Masks]

/-- `vmset.m` -/
theorem sound_alone : Reading.Sound
    ⟨⟨[.reg], false⟩, .register, .behindDest, 64, .never⟩ := by
  refine Reading.sound_of_kinds fun o os h => ?_
  rcases h with _ | ⟨hd, ⟨⟩⟩
  obtain ⟨d, rfl⟩ := accepts_reg hd
  exact iff_of_false (fun h => not_recovers_register _ d h.2) fun h => h.2

/-! ### Immediates -/

theorem kinds_reg_reg_imm {os : List Operand} (h : OfKinds [.reg, .reg, .imm] os) :
    ∃ d a n, os = [.reg d, .reg a, .imm n] := by
  rcases h with _ | ⟨hd, _ | ⟨ha, _ | ⟨hn, ⟨⟩⟩⟩⟩
  obtain ⟨d, rfl⟩ := accepts_reg hd
  obtain ⟨a, rfl⟩ := accepts_reg ha
  obtain ⟨n, rfl⟩ := accepts_imm hn
  exact ⟨d, a, n, rfl⟩

theorem kinds_reg_imm {os : List Operand} (h : OfKinds [.reg, .imm] os) :
    ∃ d n, os = [.reg d, .imm n] := by
  rcases h with _ | ⟨hd, _ | ⟨hn, ⟨⟩⟩⟩
  obtain ⟨d, rfl⟩ := accepts_reg hd
  obtain ⟨n, rfl⟩ := accepts_imm hn
  exact ⟨d, n, rfl⟩

theorem sound_immediate : Reading.Sound
    ⟨⟨[.reg, .reg, .imm], false⟩, .immediate, .behindDest, 64, .none⟩ := by
  refine Reading.sound_of_kinds fun o os h => ?_
  obtain ⟨d, a, n, heq⟩ := kinds_reg_reg_imm h
  obtain ⟨rfl, rfl⟩ := List.cons_eq_cons.mp heq
  refine Iff.trans (and_congr (getRegValue_text d) (recovers_immediate _ a n)) ?_
  simp [Operand.Fits, Caveat.Heeded]

theorem sound_byteOffset : Reading.Sound
    ⟨⟨[.reg, .reg, .imm], false⟩, .byteOffset, .behindDest, 32, .none⟩ := by
  refine Reading.sound_of_kinds fun o os h => ?_
  obtain ⟨d, a, n, heq⟩ := kinds_reg_reg_imm h
  obtain ⟨rfl, rfl⟩ := List.cons_eq_cons.mp heq
  refine Iff.trans (and_congr (getRegValue_text d) (recovers_byteOffset _ a n)) ?_
  simp [Operand.Fits, Caveat.Heeded]

/-- `vor.vi` -/
theorem sound_nothing : Reading.Sound
    ⟨⟨[.reg, .reg, .imm], false⟩, .nothing, .behindDest, 64, .never⟩ := by
  refine Reading.sound_of_kinds fun o os h => ?_
  obtain ⟨d, a, n, heq⟩ := kinds_reg_reg_imm h
  obtain ⟨rfl, rfl⟩ := List.cons_eq_cons.mp heq
  exact iff_of_false (fun h => not_recovers_nothing _ a n _ h.2) fun h => h.2

theorem sound_number : Reading.Sound
    ⟨⟨[.reg, .imm], false⟩, .number, .behindDest, 64, .none⟩ := by
  refine Reading.sound_of_kinds fun o os h => ?_
  obtain ⟨d, n, heq⟩ := kinds_reg_imm h
  obtain ⟨rfl, rfl⟩ := List.cons_eq_cons.mp heq
  refine Iff.trans (and_congr (getRegValue_text d) (recovers_number _ n)) ?_
  simp [Operand.Fits, Caveat.Heeded]

theorem sound_splat (masked : Bool) : Reading.Sound
    ⟨⟨[.reg, .imm], masked⟩, .splat, .behindDest, 32, .none⟩ := by
  rintro o os (h | ⟨-, h⟩)
  · obtain ⟨d, n, heq⟩ := kinds_reg_imm h
    obtain ⟨rfl, rfl⟩ := List.cons_eq_cons.mp heq
    refine Iff.trans (and_congr (getRegValue_text d) (recovers_splat _ n)) ?_
    simp [Operand.Fits, Caveat.Heeded]
  · rcases h with _ | ⟨hd, _ | ⟨hn, _ | ⟨hm, ⟨⟩⟩⟩⟩
    obtain ⟨d, rfl⟩ := accepts_reg hd
    obtain ⟨n, rfl⟩ := accepts_imm hn
    obtain ⟨m, rfl⟩ := accepts_reg hm
    refine Iff.trans (and_congr (getRegValue_text d) (recovers_splat_masked _ m n)) ?_
    simp [Operand.Fits, Caveat.Heeded]

/-! ### Addresses -/

theorem sound_memory : Reading.Sound
    ⟨⟨[.reg, .address], false⟩, .memory, .behindDest, 64, .none⟩ := by
  refine Reading.sound_of_kinds fun o os h => ?_
  rcases h with _ | ⟨hd, _ | ⟨ha, ⟨⟩⟩⟩
  obtain ⟨d, rfl⟩ := accepts_reg hd
  rcases accepts_address ha with ⟨offset, a, rfl⟩ | ⟨a, rfl⟩
  · refine Iff.trans (and_congr (getRegValue_text d) (recovers_memory _ a offset)) ?_
    simp [Operand.Fits, Caveat.Heeded]
  · refine Iff.trans (and_congr (getRegValue_text d) (recovers_memory_bare _ a)) ?_
    simp [Operand.Fits, Caveat.Heeded]

theorem kinds_indexed {os : List Operand} (h : OfKinds [.reg, .mem, .reg] os) :
    ∃ d offset a b, os = [.reg d, .mem offset a, .reg b] := by
  rcases h with _ | ⟨hd, _ | ⟨ha, _ | ⟨hb, ⟨⟩⟩⟩⟩
  obtain ⟨d, rfl⟩ := accepts_reg hd
  obtain ⟨offset, a, rfl⟩ := accepts_mem ha
  obtain ⟨b, rfl⟩ := accepts_reg hb
  exact ⟨d, offset, a, b, rfl⟩

theorem kinds_indexed_masked {os : List Operand} (h : OfKinds [.reg, .mem, .reg, .reg] os) :
    ∃ d offset a b m, os = [.reg d, .mem offset a, .reg b, .reg m] := by
  rcases h with _ | ⟨hd, _ | ⟨ha, h⟩⟩
  obtain ⟨d, rfl⟩ := accepts_reg hd
  obtain ⟨offset, a, rfl⟩ := accepts_mem ha
  obtain ⟨b, m, rfl⟩ := kinds_two_regs h
  exact ⟨d, offset, a, b, m, rfl⟩

theorem sound_indexedLoad : Reading.Sound
    ⟨⟨[.reg, .mem, .reg], true⟩, .indexedLoad, .behindDest, 64, .none⟩ := by
  rintro o os (h | ⟨-, h⟩)
  · obtain ⟨d, offset, a, b, heq⟩ := kinds_indexed h
    obtain ⟨rfl, rfl⟩ := List.cons_eq_cons.mp heq
    refine Iff.trans (and_congr (getRegValue_text d) (recovers_indexedLoad_two _ a b offset)) ?_
    simp [Operand.Fits, Caveat.Heeded]
  · obtain ⟨d, offset, a, b, m, heq⟩ := kinds_indexed_masked h
    obtain ⟨rfl, rfl⟩ := List.cons_eq_cons.mp heq
    refine Iff.trans (and_congr (getRegValue_text d)
      (recovers_indexedLoad_three _ a b m offset)) ?_
    simp [Operand.Fits, Caveat.Heeded]

theorem Reg.fits_of_index {r : Reg} {n : Nat} (h : r.index? = some n) (hn : n < 10) : r.Fits := by
  cases r with
  | x k =>
    obtain rfl := Option.some_inj.mp h
    cases k <;> simp only [Fits, number, regX0, spcialRegStart, regXBase] <;> omega
  | f k =>
    obtain rfl := Option.some_inj.mp h
    simp only [Fits, number, regFBase]
    omega
  | v k =>
    obtain rfl := Option.some_inj.mp h
    simp only [Fits, number, regVBase]
    omega
  | special r => cases h

theorem sound_indexedStore : Reading.Sound
    ⟨⟨[.reg, .mem, .reg], true⟩, .indexedStore, .behindDest, 64, .shortIndex⟩ := by
  rintro o os (h | ⟨-, h⟩)
  · obtain ⟨d, offset, a, b, heq⟩ := kinds_indexed h
    obtain ⟨rfl, rfl⟩ := List.cons_eq_cons.mp heq
    refine iff_of_false (fun h => not_recovers_indexedStore _ a b offset h.2) fun h => ?_
    simp [Caveat.Heeded, Form.Masks] at h
  · obtain ⟨d, offset, a, b, m, heq⟩ := kinds_indexed_masked h
    obtain ⟨rfl, rfl⟩ := List.cons_eq_cons.mp heq
    refine Iff.trans (and_congr (getRegValue_text d) (recovers_indexedStore _ a b m offset)) ?_
    have hindex : (∃ n, b.index? = some n ∧ n < 10) → b.Fits := fun ⟨n, hn, hlt⟩ =>
      b.fits_of_index hn hlt
    simp only [Operand.Fits, Caveat.Heeded, Form.Masks, List.forall_mem_cons]
    constructor
    · rintro ⟨hd, ha, hi, hm⟩
      refine ⟨⟨hd, ha, hindex hi, hm, by simp⟩, by simp, fun r hr => ?_⟩
      obtain rfl : b = r := by simpa using hr
      exact hi
    · rintro ⟨⟨hd, ha, -, hm, -⟩, -, hi⟩
      exact ⟨hd, ha, hi b rfl, hm⟩

theorem sound_segment : Reading.Sound
    ⟨⟨[.reg, .base, .reg], false⟩, .segment, .behindDest, 64, .none⟩ := by
  refine Reading.sound_of_kinds fun o os h => ?_
  rcases h with _ | ⟨hd, _ | ⟨ha, _ | ⟨hb, ⟨⟩⟩⟩⟩
  obtain ⟨d, rfl⟩ := accepts_reg hd
  obtain ⟨a, rfl⟩ := accepts_base ha
  obtain ⟨b, rfl⟩ := accepts_reg hb
  refine Iff.trans (and_congr (getRegValue_text d) (recovers_segment _ a b)) ?_
  simp [Operand.Fits, Caveat.Heeded]

theorem sound_scalarAmo : Reading.Sound
    ⟨⟨[.reg, .reg, .base], false⟩, .scalarAmo, .all, 64, .none⟩ := by
  refine Reading.sound_of_kinds fun o os h => ?_
  rcases h with _ | ⟨hd, _ | ⟨hb, _ | ⟨ha, ⟨⟩⟩⟩⟩
  obtain ⟨d, rfl⟩ := accepts_reg hd
  obtain ⟨a, rfl⟩ := accepts_base ha
  obtain ⟨b, rfl⟩ := accepts_reg hb
  refine Iff.trans (and_congr (getRegValue_text d) (recovers_scalarAmo a b d)) ?_
  simp [Operand.Fits, Caveat.Heeded]

theorem sound_vectorAmo : Reading.Sound
    ⟨⟨[.reg, .base, .reg, .reg], true⟩, .vectorAmo, .behindDest, 64, .refusesMask⟩ := by
  rintro o os (h | ⟨-, h⟩)
  · rcases h with _ | ⟨hd, _ | ⟨ha, h⟩⟩
    obtain ⟨d, rfl⟩ := accepts_reg hd
    obtain ⟨a, rfl⟩ := accepts_base ha
    obtain ⟨b, c, rfl⟩ := kinds_two_regs h
    refine Iff.trans (and_congr (getRegValue_text d) (recovers_vectorAmo _ a b c)) ?_
    simp [Operand.Fits, Caveat.Heeded, Form.Masks]
  · rcases h with _ | ⟨hd, _ | ⟨ha, h⟩⟩
    obtain ⟨d, rfl⟩ := accepts_reg hd
    obtain ⟨a, rfl⟩ := accepts_base ha
    obtain ⟨b, c, m, rfl⟩ := kinds_three_regs h
    refine iff_of_false (fun h => not_recovers_vectorAmo _ a b m c h.2) fun h => ?_
    simp [Caveat.Heeded, Form.Masks] at h

/-! ### Labels -/

/-- A label is no register and counts as 0. -/
theorem getRegValue_label (l : Label) : getRegValue l.text = .ok 0 := by
  have hnames : ∀ e ∈ namedRegs, e.1.toList.head? ≠ some '.' := by decide
  obtain ⟨t, ht⟩ : ∃ t, l.text = '.' :: t := by
    unfold Label.text
    split <;> exact ⟨_, rfl⟩
  have hnone : namedRegs.lookup (String.ofList ('.' :: t)) = none := by
    refine List.lookup_eq_none_iff.mpr fun e he => bne_iff_ne.mpr fun heq => hnames e he ?_
    rw [← heq, String.toList_ofList]
    rfl
  rw [ht]
  unfold getRegValue
  rw [hnone]
  rfl

theorem sound_jump : Reading.Sound ⟨⟨[.label], false⟩, .jump, .jump, 64, .none⟩ := by
  refine Reading.sound_of_kinds fun o os h => ?_
  rcases h with _ | ⟨hl, ⟨⟩⟩
  obtain ⟨l, rfl⟩ := accepts_label hl
  refine Iff.trans (and_congr (iff_true_intro (getRegValue_label l)) (recovers_jump l _)) ?_
  simp [Operand.Fits, Caveat.Heeded]

theorem sound_branch : Reading.Sound
    ⟨⟨[.reg, .reg, .label], false⟩, .branch, .all, 64, .none⟩ := by
  refine Reading.sound_of_kinds fun o os h => ?_
  rcases h with _ | ⟨hd, _ | ⟨ha, _ | ⟨hl, ⟨⟩⟩⟩⟩
  obtain ⟨d, rfl⟩ := accepts_reg hd
  obtain ⟨a, rfl⟩ := accepts_reg ha
  obtain ⟨l, rfl⟩ := accepts_label hl
  refine Iff.trans (and_congr (getRegValue_text d) (recovers_branch a l d)) ?_
  simp [Operand.Fits, Caveat.Heeded]

theorem sound_branchZero : Reading.Sound
    ⟨⟨[.reg, .label], false⟩, .branchZero, .branchZero, 64, .none⟩ := by
  refine Reading.sound_of_kinds fun o os h => ?_
  rcases h with _ | ⟨hd, _ | ⟨hl, ⟨⟩⟩⟩
  obtain ⟨d, rfl⟩ := accepts_reg hd
  obtain ⟨l, rfl⟩ := accepts_label hl
  refine Iff.trans (and_congr (getRegValue_text d) (recovers_branchZero l d)) ?_
  simp [Operand.Fits, Caveat.Heeded]

/-! ## Every form -/

def readings : List Reading :=
  let reg3 : Form := ⟨[.reg, .reg, .reg], false⟩
  let reg3m : Form := ⟨[.reg, .reg, .reg], true⟩
  let imm3 : Form := ⟨[.reg, .reg, .imm], false⟩
  let reg2 : Form := ⟨[.reg, .reg], false⟩
  let reg2m : Form := ⟨[.reg, .reg], true⟩
  [⟨reg3, .binary, .behindDest, 64, .none⟩, ⟨reg3, .registers, .behindDest, 64, .none⟩,
    ⟨reg3m, .reduction, .behindDest, 64, .none⟩, ⟨reg3m, .vor, .behindDest, 64, .needsMask⟩,
    ⟨reg2, .register, .behindDest, 64, .none⟩, ⟨reg2, .first, .behindDest, 64, .none⟩,
    ⟨reg2, .binary, .behindDest, 64, .none⟩, ⟨reg2, .test, .behindDest, 64, .none⟩,
    ⟨reg2, .testTwice, .behindDest, 64, .never⟩, ⟨reg2m, .binary, .behindDest, 64, .none⟩,
    ⟨reg2m, .unary, .behindDest, 64, .needsMask⟩,
    ⟨⟨[.reg], true⟩, .register, .behindDest, 64, .needsMask⟩,
    ⟨⟨[.reg], false⟩, .register, .behindDest, 64, .never⟩,
    ⟨imm3, .immediate, .behindDest, 64, .none⟩, ⟨imm3, .byteOffset, .behindDest, 32, .none⟩,
    ⟨imm3, .nothing, .behindDest, 64, .never⟩,
    ⟨⟨[.reg, .imm], false⟩, .number, .behindDest, 64, .none⟩,
    ⟨⟨[.reg, .imm], false⟩, .splat, .behindDest, 32, .none⟩,
    ⟨⟨[.reg, .imm], true⟩, .splat, .behindDest, 32, .none⟩,
    ⟨⟨[.reg, .address], false⟩, .memory, .behindDest, 64, .none⟩,
    ⟨⟨[.reg, .mem, .reg], true⟩, .indexedLoad, .behindDest, 64, .none⟩,
    ⟨⟨[.reg, .mem, .reg], true⟩, .indexedStore, .behindDest, 64, .shortIndex⟩,
    ⟨⟨[.reg, .base, .reg], false⟩, .segment, .behindDest, 64, .none⟩,
    ⟨⟨[.reg, .reg, .base], false⟩, .scalarAmo, .all, 64, .none⟩,
    ⟨⟨[.reg, .base, .reg, .reg], true⟩, .vectorAmo, .behindDest, 64, .refusesMask⟩,
    ⟨⟨[.label], false⟩, .jump, .jump, 64, .none⟩,
    ⟨⟨[.reg, .reg, .label], false⟩, .branch, .all, 64, .none⟩,
    ⟨⟨[.reg, .label], false⟩, .branchZero, .branchZero, 64, .none⟩]

theorem sound_of_mem {r : Reading} (h : r ∈ readings) : r.Sound := by
  have hall : List.Forall Reading.Sound readings :=
    ⟨sound_binary, sound_registers, sound_reduction, sound_vor, sound_move (by decide),
      sound_move (by decide), sound_move (by decide), sound_move (by decide), sound_testTwice,
      sound_maskedMove, sound_unary, sound_register, sound_alone, sound_immediate,
      sound_byteOffset, sound_nothing, sound_number, sound_splat false, sound_splat true,
      sound_memory, sound_indexedLoad, sound_indexedStore, sound_segment, sound_scalarAmo,
      sound_vectorAmo, sound_jump, sound_branch, sound_branchZero⟩
  exact List.forall_iff_forall_mem.mp hall r h

/-- What is checked of an opcode with an operand type and a form. -/
def Group.Checked (g : Group) (op : Opcode) (operandType : OperandType) : Prop :=
  op = .exit ∧ operandType = .none ∧ g.form = ⟨[], false⟩ ∨
    g.form.operands ≠ [] ∧ op ≠ .exit ∧ op ≠ .invalidInst ∧
      (operandType.Known →
        ⟨g.form, readerOf op operandType, arrangementOf op, immBits op operandType,
          caveatOf op operandType⟩ ∈ readings) ∧
      (op = .vlsseg → operandType ≠ .none ∧ g.form.operands.head? = some .reg)

instance (g : Group) (op : Opcode) (operandType : OperandType) :
    Decidable (g.Checked op operandType) :=
  inferInstanceAs (Decidable (_ ∨ _))

theorem groups_checked : ∀ g ∈ groups, ∀ op ∈ g.opcodes, ∀ operandType ∈ g.operandTypes,
    g.Checked op operandType := by
  decide +kernel

/-! ## Mnemonics -/

theorem lookup_of_nodup {α β : Type} [BEq α] [LawfulBEq α] {l : List (α × β)} {k : α} {v : β}
    (h : (l.map Prod.fst).Nodup) (hmem : (k, v) ∈ l) : l.lookup k = some v := by
  induction l with
  | nil => cases hmem
  | cons e l ih =>
    rw [List.map_cons, List.nodup_cons] at h
    rcases List.mem_cons.mp hmem with rfl | hmem
    · simp
    · have hne : k ≠ e.1 := by
        rintro rfl
        exact h.1 (List.mem_map.mpr ⟨_, hmem, rfl⟩)
      rw [List.lookup_cons, beq_eq_false_iff_ne.mpr hne]
      exact ih h.2 hmem

/-- The names of the opcodes differ, as numbers in base 256. -/
theorem opcodeNames_nodup : (opcodeTypeMap.map Prod.fst).Nodup := by
  refine List.Nodup.of_map (fun name => name.toList.foldl (fun n c => 256 * n + c.toNat) 0) ?_
  decide +kernel

theorem opcodeNames_plain : ∀ e ∈ opcodeTypeMap,
    (∀ c ∈ e.1.toList, c ∉ ['.', ' ']) ∧ ("vlsseg".toList <+: e.1.toList → e.2 = .vlsseg) := by
  simp only [forall_mem_iff_all]
  decide +kernel

theorem segmentMnemonics_plain : ∀ e ∈ segmentMnemonics,
    (∀ c ∈ e.1, c ∉ ['.', ' ']) ∧ "vlsseg".toList <+: e.1 ∧
      ¬ "vlsseg".toList <:+: e.1.drop 1 := by
  simp only [forall_mem_iff_all]
  decide +kernel

theorem suffix_read (operandType : OperandType) : (∀ c ∈ operandType.suffix.toList, c ≠ ' ') ∧
    (operandType ≠ .none →
      (operandTypeMap.lookup (String.ofList operandType.suffix.toList)).getD .none =
        if operandType.Known then operandType else .none) := by
  rw [forall_mem_iff_all]
  cases operandType <;> decide +kernel

/-- A name is either a segment load's or stands in the table. -/
theorem mem_names {op : Opcode} {e : Text × Nat} (h : e ∈ names op) :
    op = .vlsseg ∧ e ∈ segmentMnemonics ∨
      op ≠ .vlsseg ∧ ∃ name, (name, op) ∈ opcodeTypeMap ∧ name.toList = e.1 := by
  unfold names at h
  split at h
  case isTrue hop => exact .inl ⟨hop, h⟩
  case isFalse hop =>
    obtain ⟨⟨name, op'⟩, hfilter, rfl⟩ := List.mem_map.mp h
    obtain ⟨hmem, hop'⟩ := List.mem_filter.mp hfilter
    obtain rfl : op' = op := of_decide_eq_true hop'
    exact .inr ⟨hop, name, hmem, rfl⟩

theorem blank_notMem_withSuffix {op : Opcode} {e : Text × Nat} (h : e ∈ names op)
    (operandType : OperandType) : ' ' ∉ withSuffix e.1 operandType := by
  have hname : ' ' ∉ e.1 := by
    rcases mem_names h with ⟨-, hseg⟩ | ⟨-, name, hmem, heq⟩
    · exact fun hc => (segmentMnemonics_plain e hseg).1 _ hc (by decide)
    · rw [← heq]
      exact fun hc => (opcodeNames_plain _ hmem).1 _ hc (by decide)
  have hsuffix : ' ' ∉ operandType.suffix.toList := fun hc => (suffix_read operandType).1 _ hc rfl
  unfold withSuffix
  split
  · exact hname
  · simp [hname, hsuffix]

/-- The mnemonic is read as its opcode, and as its operand type if that is known. -/
theorem parseOpcode_withSuffix {op : Opcode} {e : Text × Nat} (h : e ∈ names op)
    {operandType : OperandType} (hseg : op = .vlsseg → operandType ≠ .none) :
    parseOpcode (withSuffix e.1 operandType) =
      (e.1, op, if operandType.Known then operandType else .none) := by
  have hdot : '.' ∉ e.1 := by
    rcases mem_names h with ⟨-, hseg⟩ | ⟨-, name, hmem, heq⟩
    · exact fun hc => (segmentMnemonics_plain e hseg).1 _ hc (by decide)
    · rw [← heq]
      exact fun hc => (opcodeNames_plain _ hmem).1 _ hc (by decide)
  have hlookup (hop : op ≠ .vlsseg) : opcodeTypeMap.lookup (String.ofList e.1) = some op := by
    rcases mem_names h with ⟨hop', -⟩ | ⟨-, name, hmem, heq⟩
    · exact absurd hop' hop
    · rw [← heq, String.ofList_toList]
      exact lookup_of_nodup opcodeNames_nodup hmem
  by_cases hnone : operandType = .none
  · have hop : op ≠ .vlsseg := fun hop => hseg hop hnone
    have hknown : operandType.Known := .inl hnone
    rw [withSuffix, if_pos hnone, if_pos hknown]
    simp only [parseOpcode, if_neg hdot, hlookup hop, Option.getD_some, hnone]
  · have hmem : '.' ∈ e.1 ++ '.' :: operandType.suffix.toList := by simp
    rw [withSuffix, if_neg hnone]
    simp only [parseOpcode, if_pos hmem, before_append_cons hdot, after_append_cons hdot,
      (suffix_read operandType).2 hnone]
    rcases mem_names h with ⟨rfl, hs⟩ | ⟨hop, name, hname, heq⟩
    · rw [if_pos (segmentMnemonics_plain e hs).2]
    · have hprefix : ¬ "vlsseg".toList <+: e.1 := fun hp =>
        hop ((opcodeNames_plain _ hname).2 (heq ▸ hp))
      rw [if_neg fun hp => hprefix hp.1, hlookup hop, Option.getD_some]

/-! ## Lines -/

theorem filter_blanks (k : Nat) {t : Text} (h : ' ' ∉ t) :
    (List.replicate k ' ' ++ t).filter (· ≠ ' ') = t := by
  rw [List.filter_append, List.filter_replicate_of_neg (by simp), List.nil_append]
  refine List.filter_eq_self.mpr fun c hc => ?_
  have hne : c ≠ ' ' := by rintro rfl; exact h hc
  simpa using hne

/-- The parser drops the blanks between the operands. -/
theorem filter_operands (os : List Operand) (blanks : Nat → Nat) :
    (join ',' (os.mapIdx fun i o => List.replicate (blanks i) ' ' ++ o.text)).filter (· ≠ ' ') =
      join ',' (os.map Operand.text) := by
  rw [filter_join (by decide)]
  congr 1
  refine List.ext_getElem (by simp) fun i hi hi' => ?_
  simp only [List.getElem_map, List.getElem_mapIdx]
  exact filter_blanks _ (Operand.notMem_text (by decide) _)

namespace Assembly

variable (a : Assembly)

/-- The line gives back the instruction. -/
def Recovered (line : Text) : Prop :=
  ∃ inst, parseNdpInstruction line = .ok inst ∧ inst.opcode = a.opcode ∧
    inst.operandType = a.operandType ∧ inst.dest = a.dest ∧ inst.src = NdpSim.sources a.sources

/-- The instructions that are read right: the parser knows the operand type, the operands are in
range, a mask is there or not as the form's slips require, and segments have numbered registers
in range. -/
structure Readable : Prop where
  known : a.operandType.Known
  fits : ∀ o ∈ a.operands, o.Fits (immBits a.opcode a.operandType)
  heeded : (caveatOf a.opcode a.operandType).Heeded a.form a.operands
  segments : a.opcode = .vlsseg → ∃ r n, a.operands.head? = some (.reg r) ∧
    r.index? = some n ∧ n + a.segments ≤ 2 ^ 31

variable {a}

theorem splitLine_text {o : Operand} {os : List Operand} (hops : a.operands = o :: os)
    (hblank : ' ' ∉ withSuffix a.name a.operandType) (blanks : Nat → Nat) :
    splitLine (a.text blanks) = (withSuffix a.name a.operandType, o.text, srcText o os) := by
  have hcomma : ',' ∉ o.text := Operand.notMem_text (by decide) o
  have hsrc : after ',' (join ',' ((o :: os).map Operand.text)) = srcText o os := by
    cases os with
    | nil => exact after_of_notMem hcomma
    | cons p os => exact after_join hcomma _ _
  have hdest : before ',' (join ',' ((o :: os).map Operand.text)) = o.text :=
    before_join hcomma _
  simp only [text, hops, reduceCtorEq, if_false]
  simp only [splitLine, before_append_cons hblank, after_append_cons hblank, filter_operands,
    hdest, hsrc]

theorem recovered_iff_parts {line mnemonic : Text} {o : Operand} {os : List Operand}
    {operandType : OperandType}
    (hsplit : splitLine line = (mnemonic, o.text, srcText o os))
    (hopcode : parseOpcode mnemonic = (a.name, a.opcode, operandType))
    (hexit : a.opcode ≠ .exit) (hvalid : a.opcode ≠ .invalidInst) :
    a.Recovered line ↔ operandType = a.operandType ∧ getRegValue o.text = .ok a.dest ∧
      Recovers (readerOf a.opcode operandType) o.text (srcText o os) a.sources ∧
      ∃ sg, segmentsOf a.opcode a.name o.text a.dest = .ok sg := by
  simp only [Recovered, parseNdpInstruction, hsplit, hopcode, if_neg hvalid, if_neg hexit,
    parseSources_eq]
  constructor
  · rintro ⟨inst, h, -, htype, hdest, hsrc⟩
    obtain ⟨r, hr, h⟩ := bind_eq_ok.mp h
    obtain ⟨rs, hrs, h⟩ := bind_eq_ok.mp h
    obtain ⟨sg, hsg, h⟩ := bind_eq_ok.mp h
    obtain rfl := Except.ok.inj h
    obtain rfl : r = a.dest := hdest
    exact ⟨htype, hr, ⟨rs, hrs, hsrc⟩, sg, hsg⟩
  · rintro ⟨htype, hr, ⟨rs, hrs, hsrc⟩, sg, hsg⟩
    refine ⟨_, bind_eq_ok.mpr ⟨_, hr, bind_eq_ok.mpr ⟨_, hrs, bind_eq_ok.mpr ⟨_, hsg, rfl⟩⟩⟩,
      rfl, htype, rfl, hsrc⟩

/-- `EXIT` is read before its operands are. -/
theorem recovered_exit {line mnemonic dest src : Text}
    (hsplit : splitLine line = (mnemonic, dest, src))
    (hopcode : parseOpcode mnemonic = (a.name, a.opcode, a.operandType))
    (hexit : a.opcode = .exit) (hops : a.operands = []) : a.Recovered line := by
  have hne : a.opcode ≠ .invalidInst := by rw [hexit]; decide
  have hdest : a.dest = 0 := by rw [Assembly.dest, hops]
  have hsources : a.sources = [] := by
    rw [sources, hops, hexit]
    cases h : a.form.operands ++ [.reg] <;> simp [Form.fields, h, arrangementOf] <;> rfl
  refine ⟨{
    opcode := a.opcode
    operandType := a.operandType
    src := NdpSim.sources []
    dest := 0
    segDest := fun _ => 0
    segCnt := 0
    doBranch := false }, ?_, rfl, rfl, hdest.symm, by rw [hsources]⟩
  simp only [parseNdpInstruction, hsplit, hopcode, if_neg hne, if_pos hexit]
  rfl

theorem exists_segmentsOf_iff {o : Operand} {os : List Operand} (hops : a.operands = o :: os)
    (hreg : a.opcode = .vlsseg → ∃ r, o = .reg r) (x : Int) :
    (∃ sg, segmentsOf a.opcode a.name o.text x = .ok sg) ↔
      (a.opcode = .vlsseg → ∃ r n, a.operands.head? = some (.reg r) ∧
        r.index? = some n ∧ n + a.segments ≤ 2 ^ 31) := by
  by_cases hop : a.opcode = .vlsseg
  · obtain ⟨r, rfl⟩ := hreg hop
    have hname : (a.name, a.segments) ∈ segmentMnemonics := by
      have hnamed := a.named
      rwa [names, if_pos hop] at hnamed
    rw [segmentsOf, if_pos hop]
    refine (exists_parseSegments_iff hname r x).trans ?_
    simp [hop, hops]
  · simp [segmentsOf, hop]

variable (a)

theorem recovered_iff_of_known {line : Text} {o : Operand} {os : List Operand}
    (hops : a.operands = o :: os)
    (hsplit : splitLine line = (withSuffix a.name a.operandType, o.text, srcText o os))
    (hopcode : parseOpcode (withSuffix a.name a.operandType) =
      (a.name, a.opcode, a.operandType))
    (hexit : a.opcode ≠ .exit) (hvalid : a.opcode ≠ .invalidInst) (hknown : a.operandType.Known)
    (hreg : a.opcode = .vlsseg → ∃ r, o = .reg r)
    (hsound : Reading.Sound ⟨a.form, readerOf a.opcode a.operandType, arrangementOf a.opcode,
      immBits a.opcode a.operandType, caveatOf a.opcode a.operandType⟩) :
    a.Recovered line ↔ a.Readable := by
  have hdest : a.dest = o.destField := by rw [dest, hops]
  have hoperands := hsound o os (hops ▸ a.accepted)
  have hsegments := exists_segmentsOf_iff hops hreg a.dest
  rw [recovered_iff_parts hsplit hopcode hexit hvalid]
  constructor
  · rintro ⟨-, hd, hr, hsg⟩
    rw [hdest] at hd
    rw [sources, hops] at hr
    obtain ⟨hfits, hheeded⟩ := hoperands.mp ⟨hd, hr⟩
    exact ⟨hknown, hops ▸ hfits, hops ▸ hheeded, hsegments.mp hsg⟩
  · rintro ⟨-, hfits, hheeded, hsg⟩
    rw [hops] at hfits hheeded
    obtain ⟨hd, hr⟩ := hoperands.mpr ⟨hfits, hheeded⟩
    refine ⟨rfl, hdest ▸ hd, ?_, hsegments.mpr hsg⟩
    rw [sources, hops]
    exact hr

/-- The parser gives back exactly the readable instructions, whatever the blanks. -/
theorem recovered_iff (blanks : Nat → Nat) : a.Recovered (a.text blanks) ↔ a.Readable := by
  obtain ⟨g, hg, hop, htype, hform⟩ := a.formed
  have hform' := groups_checked g hg _ hop _ htype
  have hblank := blank_notMem_withSuffix a.named a.operandType
  unfold Group.Checked at hform'
  rw [hform] at hform'
  have haccepted := a.accepted
  rcases hform' with ⟨hexit, hnone, hempty⟩ | ⟨hcons, hexit, hvalid, hreading, hhead⟩
  · have hops : a.operands = [] := by
      rw [hempty] at haccepted
      rcases haccepted with h | ⟨⟨⟩, -⟩
      exact List.forall₂_nil_left_iff.mp h
    have hknown : a.operandType.Known := .inl hnone
    have hsplit : splitLine (a.text blanks) =
        (withSuffix a.name a.operandType, (splitLine (a.text blanks)).2) := by
      rw [text, if_pos hops, splitLine, before_of_notMem hblank]
    have hseg : a.opcode = .vlsseg → a.operandType ≠ .none := by simp [hexit]
    have hopcode := parseOpcode_withSuffix a.named hseg
    rw [if_pos hknown] at hopcode
    refine iff_of_true (recovered_exit hsplit hopcode hexit hops) ⟨hknown, ?_, ?_, ?_⟩
    · simp [hops]
    · rw [hexit, hnone]
      trivial
    · simp [hexit]
  · obtain ⟨o, os, hops⟩ : ∃ o os, a.operands = o :: os := by
      refine List.exists_cons_of_ne_nil fun hnil => hcons ?_
      rw [hnil] at haccepted
      rcases haccepted with h | ⟨-, h⟩
      · exact List.forall₂_nil_right_iff.mp h
      · simp at h
    have hsplit := splitLine_text hops hblank blanks
    have hopcode := parseOpcode_withSuffix a.named fun hseg => (hhead hseg).1
    by_cases hknown : a.operandType.Known
    · rw [if_pos hknown] at hopcode
      refine a.recovered_iff_of_known hops hsplit hopcode hexit hvalid hknown (fun hseg => ?_)
        (sound_of_mem (hreading hknown))
      obtain ⟨ks, hks⟩ := List.head?_eq_some_iff.mp (hhead hseg).2
      rw [hops] at haccepted
      unfold Form.accepts at haccepted
      rw [hks] at haccepted
      rcases haccepted with h | ⟨-, h⟩
      · exact accepts_reg (List.forall₂_cons.mp h).1
      · exact accepts_reg (List.forall₂_cons.mp h).1
    · rw [if_neg hknown] at hopcode
      rw [recovered_iff_parts hsplit hopcode hexit hvalid]
      exact iff_of_false (fun h => hknown (.inl h.1.symm)) fun h => hknown h.known

/-- `vsuxei32.v v5, (x5), v10, v0` -/
def storeThroughTen : Assembly where
  opcode := .vsuxei32
  operandType := .v
  name := "vsuxei32".toList
  segments := 0
  form := ⟨[.reg, .mem, .reg], true⟩
  operands := [.reg (.v 5), .mem none (.x 5), .reg (.v 10), .reg (.v 0)]
  named := by decide
  formed := ⟨⟨[.vluxei32, .vluxei64, .vsuxei32, .vsuxei64], [.v], ⟨[.reg, .mem, .reg], true⟩⟩,
    by decide, by decide, by decide, rfl⟩
  accepted := .inr ⟨rfl, by decide⟩

/-- The index register of an indexed store is cut: the store goes through `v1`. -/
theorem storeThroughTen_misread :
    ¬ ∀ (a : Assembly) (blanks : Nat → Nat), a.Recovered (a.text blanks) := by
  intro h
  obtain ⟨inst, hparse, -, -, -, hsrc⟩ := h storeThroughTen fun _ => 1
  have hread : (parseNdpInstruction (storeThroughTen.text fun _ => 1)).map (·.src 2) =
      .ok (regVBase + 1) := by decide +kernel
  rw [hparse] at hread
  have hslot := congrFun hsrc 2
  have hvalue : inst.src 2 = regVBase + 1 := Except.ok.inj hread
  rw [hvalue] at hslot
  exact absurd hslot (by decide)

end Assembly

end NdpSim
