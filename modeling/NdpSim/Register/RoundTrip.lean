import NdpSim.Register.Unit

/-!
# Writing and reading vector registers

A vector for two registers is split into halves when it is written and appended when it is read.
Both loops count elements where the registers hold words, so that they fit together only for
elements of a word or more.
-/
namespace NdpSim

open Library

namespace VectorData

/-- The element types of a width. -/
def elementTypes : Vsew → List DataType
  | .e8 => [.uint8, .char8, .bool]
  | .e16 => [.float16, .int16]
  | .e32 => [.float32, .int32]
  | .e64 => [.int64]

/-- What the constructor for the vector settings leaves, with elements of their width or masks. -/
structure BuiltFor (csr : CSR) (v : VectorData) : Prop where
  type : v.type ∈ elementTypes csr.vtypeVsew ∨ v.type = .vmask
  vlen : v.vlen = (ofContext csr).vlen
  doubleReg : v.doubleReg = (ofContext csr).doubleReg
  words : v.data.length = (ofContext csr).data.length

/-- The bits of an element, by its type. -/
def element (v : VectorData) (i : Nat) : Except Fault (BitVec 64) :=
  match v.type with
  | .int64 => v.getLongData i
  | .float32 | .int32 => return (← v.word i).setWidth 64
  | .float16 | .int16 => return (← v.getShortData i).setWidth 64
  | .vmask => return (BitVec.ofBool (← v.getVmaskData i)).setWidth 64
  | _ => return (← v.getU8Data i).setWidth 64

/-- Type, length and elements are the same. -/
structure SameVector (v v' : VectorData) : Prop where
  type : v'.type = v.type
  vlen : v'.vlen = v.vlen
  elements : ∀ i < v.vlen, v'.element i = v.element i

theorem SameVector.rfl {v : VectorData} : SameVector v v := ⟨.refl _, .refl _, fun _ _ => .refl _⟩

/-! ## Halves -/

/-- What `Split` and `Append` count, two for each 64-bit element. -/
def iter (v : VectorData) : Nat := if v.type = .int64 then v.vlen * 2 else v.vlen

def half (v : VectorData) (words : List (BitVec 32)) : VectorData :=
  { splitShape v.type with
    type := v.type
    vlen := v.vlen / 2
    data := words ++ (splitShape v.type).data.drop words.length }

theorem splitShape_eq (t : DataType) :
    (splitShape t).data = List.replicate packetEntries 0 ∧ (splitShape t).doubleReg = false := by
  cases t <;> decide

theorem length_half {v : VectorData} {words : List (BitVec 32)}
    (h : words.length ≤ packetEntries) : (v.half words).data.length = packetEntries := by
  rw [half, List.length_append, List.length_drop, (splitShape_eq v.type).1, List.length_replicate]
  omega

theorem split_eq {v : VectorData} (hread : v.iter ≤ v.data.length)
    (hwrite : v.iter ≤ 2 * packetEntries) : v.split = .ok
      (v.half (v.data.take (v.iter / 2)), v.half ((v.data.take v.iter).drop (v.iter / 2))) := by
  have hlen : (splitShape v.type).data.length = packetEntries := by
    rw [(splitShape_eq v.type).1, List.length_replicate]
  have hbound : ¬ (v.data.length < v.iter ∨
      (splitShape v.type).data.length < v.iter - v.iter / 2) := by
    rw [hlen]
    omega
  exact if_neg hbound

/-- More elements than words are read past the last word. -/
theorem split_undefined {v : VectorData} (h : v.data.length < v.iter) :
    v.split = .error .undefined := by
  exact if_pos (.inl h)

/-- The halves of a vector, appended. -/
theorem append_half {v : VectorData} {lo hi : List (BitVec 32)} (hhi : hi.length ≤ packetEntries)
    (hiter : (v.half hi).iter ≤ packetEntries) (hvlen : v.vlen < 2 ^ 32) :
    (v.half lo).append (v.half hi) = .ok
      ⟨v.type, v.vlen / 2 + v.vlen / 2, true,
        (v.half lo).data ++ (v.half hi).data.take (v.half hi).iter⟩ := by
  unfold append
  rw [show (if (v.half hi).type = .int64 then (v.half hi).vlen * 2 else (v.half hi).vlen) =
    (v.half hi).iter from rfl, length_half hhi, if_neg (by omega)]
  rw [show (v.half lo).doubleReg = false from (splitShape_eq v.type).2]
  have hsum : ((v.half lo).vlen + (v.half hi).vlen) % 2 ^ 32 = v.vlen / 2 + v.vlen / 2 := by
    simp only [half]
    omega
  rw [hsum]
  rfl

/-- A vector that fills two registers comes back as it was. -/
theorem append_split_full {v : VectorData} (hiter : v.iter = 2 * packetEntries)
    (hlen : v.data.length = 2 * packetEntries) (hvlen : v.vlen / 2 + v.vlen / 2 = v.vlen)
    (hbound : v.vlen < 2 ^ 32) (hd : v.doubleReg = true)
    (hhalf : ∀ ws, (v.half ws).iter = packetEntries) :
    ∃ lo hi, v.split = .ok (lo, hi) ∧ lo.vlen = v.vlen / 2 ∧ lo.append hi = .ok v := by
  refine ⟨_, _, split_eq (by omega) (by omega), rfl, ?_⟩
  have hlo : (v.data.take packetEntries).length = packetEntries := by
    rw [List.length_take]
    omega
  have hhi : (v.data.drop packetEntries).length = packetEntries := by
    rw [List.length_drop]
    omega
  have hfull {ws : List (BitVec 32)} (h : ws.length = packetEntries) : (v.half ws).data = ws := by
    rw [half, h, (splitShape_eq v.type).1, List.drop_replicate, Nat.sub_self]
    exact List.append_nil ws
  have hall : v.data.take (2 * packetEntries) = v.data := List.take_of_length_le (by omega)
  have hrest : (v.data.drop packetEntries).take packetEntries = v.data.drop packetEntries :=
    List.take_of_length_le (by omega)
  rw [hiter, Nat.mul_div_cancel_left _ (by decide), hall,
    append_half (by omega) (by rw [hhalf]) hbound, hfull hlo, hfull hhi, hhalf, hrest,
    List.take_append_drop, hvlen, ← hd]

/-- Mask bits are all in the first word. -/
theorem append_split_mask {v : VectorData} (ht : v.type = .vmask) (hvlen : v.vlen = packetEntries)
    (hlen : v.data.length = 2 * packetEntries) :
    ∃ lo hi v', v.split = .ok (lo, hi) ∧ lo.vlen = v.vlen / 2 ∧ lo.append hi = .ok v' ∧
      SameVector v v' := by
  have hiter : v.iter = packetEntries := by
    rw [iter, ht, ← hvlen]
    rfl
  have hhalf (ws : List (BitVec 32)) : (v.half ws).iter = packetEntries / 2 := by
    rw [iter, half, ht, hvlen]
    rfl
  refine ⟨_, _, _, split_eq (by omega) (by omega), rfl, append_half ?_ ?_ ?_, ht.symm ▸ rfl, ?_, ?_⟩
  · rw [List.length_drop, List.length_take]
    omega
  · rw [hhalf]
    decide
  · rw [hvlen]
    decide
  · rw [hvlen]
    rfl
  · intro i hi
    have hword : i / unionDataSize = 0 := by
      rw [hvlen] at hi
      exact Nat.div_eq_of_lt (Nat.lt_trans hi (by decide))
    obtain ⟨w, ws, hdata⟩ := List.exists_cons_of_length_pos (l := v.data) (by rw [hlen]; decide)
    simp only [element, ht, getVmaskData, word, hword, half, hdata, hiter]
    rfl

end VectorData

namespace RegisterUnit

open VectorData

/-- Writing a vector to a register and reading it back gives the vector, and no word outside of a
register is touched. -/
def RoundTrips (u : RegisterUnit) (reg : Int) (context : Context) (v : VectorData) : Prop :=
  ∃ u' v', u.writeVreg reg v context = .ok u' ∧ u'.readVreg reg context = .ok v' ∧ SameVector v v'

variable {u : RegisterUnit} {reg : Int} {context : Context} {v : VectorData}

/-- Vectors of one or two registers pass the sanity check. -/
theorem not_overflows (hlmul : context.csr.vtypeVlmul = .m1 ∨ context.csr.vtypeVlmul = .m2)
    (hv : BuiltFor context.csr v) : overflows v = false := by
  rcases hv.type with htype | htype
  · rw [overflows, hv.words, hv.vlen, getPrecision, ofContext]
    generalize v.type = t at htype ⊢
    generalize context.csr.vtypeVsew = sew at htype ⊢
    revert t
    rcases hlmul with hlmul | hlmul <;> rw [hlmul] <;> cases sew <;> decide
  · simp [overflows, htype]

theorem roundTrips_one (hreg : u.isVreg (toInt reg) = true)
    (hlmul : context.csr.vtypeVlmul = .m1) (hv : BuiltFor context.csr v) :
    RoundTrips u reg context v := by
  have hd : v.doubleReg = false := by
    rw [hv.doubleReg, ofContext, hlmul]
    rfl
  have hvlen : v.vlen * context.csr.vtypeVsew.bits * 8 =
      packetSize * byteBit * context.csr.vtypeVlmul.eighths := by
    rw [hv.vlen, ofContext, hlmul]
    cases context.csr.vtypeVsew <;> rfl
  have hover := not_overflows (.inl hlmul) hv
  refine ⟨{ u with vregTable := Function.update u.vregTable (toInt reg) v }, v, ?_, ?_, .rfl⟩
  · simp only [writeVreg, hover, hreg, hlmul, hd]
    rfl
  · have hreg' : ({ u with
        vregTable := Function.update u.vregTable (toInt reg) v } : RegisterUnit).isVreg
        (toInt reg) = true := hreg
    simp only [readVreg, hreg', if_true, Function.update_self]
    split
    · rw [if_pos hvlen]
    · rfl

/-- A pair is written half by half, and read as the halves appended. -/
theorem roundTrips_two (hreg : u.isVreg (toInt reg) = true) {partner : Int}
    (hlook : u.doubleVreg.lookup (toInt reg) = some partner) (hpartner : u.isVreg partner = true)
    (hne : partner ≠ toInt reg) (hlmul : context.csr.vtypeVlmul = .m2)
    (hv : BuiltFor context.csr v) {lo hi v' : VectorData} (hsplit : v.split = .ok (lo, hi))
    (hvlen : lo.vlen = v.vlen / 2) (happend : lo.append hi = .ok v') (hsame : SameVector v v') :
    RoundTrips u reg context v := by
  have hover := not_overflows (.inr hlmul) hv
  have hbase : ¬ partner < regPVBase := by
    simp only [isVreg, Bool.and_eq_true, decide_eq_true_eq] at hpartner
    omega
  have hlength : ¬ lo.vlen * context.csr.vtypeVsew.bits * 8 =
      packetSize * byteBit * context.csr.vtypeVlmul.eighths := by
    rw [hvlen, hv.vlen, ofContext, hlmul]
    cases context.csr.vtypeVsew <;> decide
  let written : RegisterUnit := { u with
    vregTable := Function.update (Function.update u.vregTable (toInt reg) lo) partner hi }
  have hlo : written.vregTable (toInt reg) = lo := by
    simp only [written, Function.update_of_ne (Ne.symm hne), Function.update_self]
  have hhi : written.vregTable partner = hi := Function.update_self ..
  have hreg' : written.isVreg (toInt reg) = true := hreg
  have hlook' : written.doubleVreg.lookup (toInt reg) = some partner := hlook
  refine ⟨written, v', ?_, ?_, hsame⟩
  · simp only [writeVreg, hover, hreg, hlmul, hsplit, hlook, Option.getD_some]
    exact if_neg hbase
  · simp only [readVreg, hreg', if_true, hlook', hlo, hhi]
    rw [if_neg hlength, happend]

/-- For elements of less than a word, the loop of `Split` runs past the words of the pair. -/
theorem split_narrow (hlmul : context.csr.vtypeVlmul = .m2) (hv : BuiltFor context.csr v)
    (hsew : context.csr.vtypeVsew = .e8 ∨ context.csr.vtypeVsew = .e16) :
    v.split = .error .undefined := by
  have htype : v.type ≠ .int64 := by
    intro ht
    rcases hv.type with hmem | hmask
    · rw [ht] at hmem
      rcases hsew with hsew | hsew <;> rw [hsew] at hmem <;> exact absurd hmem (by decide)
    · rw [ht] at hmask
      cases hmask
  refine split_undefined ?_
  rw [iter, if_neg htype, hv.words, hv.vlen, ofContext, hlmul]
  rcases hsew with hsew | hsew <;> rw [hsew] <;> decide

/-- For elements of a word or two, the halves of the pair make up the vector again. -/
theorem exists_append_split (hlmul : context.csr.vtypeVlmul = .m2) (hv : BuiltFor context.csr v)
    (hsew : context.csr.vtypeVsew = .e32 ∨ context.csr.vtypeVsew = .e64) :
    ∃ lo hi v', v.split = .ok (lo, hi) ∧ lo.vlen = v.vlen / 2 ∧ lo.append hi = .ok v' ∧
      SameVector v v' := by
  have hd : v.doubleReg = true := by
    rw [hv.doubleReg, ofContext, hlmul]
    rfl
  have hlen : v.data.length = 2 * packetEntries := by
    rw [hv.words, ofContext, hlmul]
    rcases hsew with hsew | hsew <;> rw [hsew] <;> rfl
  have hfull (words : v.iter = 2 * packetEntries) (hvlen : v.vlen = 8 ∨ v.vlen = 16)
      (hhalf : ∀ ws, (v.half ws).iter = packetEntries) : ∃ lo hi v', v.split = .ok (lo, hi) ∧
        lo.vlen = v.vlen / 2 ∧ lo.append hi = .ok v' ∧ SameVector v v' := by
    obtain ⟨lo, hi, hs, hlo, ha⟩ := append_split_full words hlen (by omega) (by omega) hd hhalf
    exact ⟨lo, hi, v, hs, hlo, ha, .rfl⟩
  rcases hsew with hsew | hsew
  · have hvlen : v.vlen = 16 := by
      rw [hv.vlen, ofContext, hlmul, hsew]
      rfl
    have htype : v.type ≠ .int64 := by
      intro ht
      rcases hv.type with hmem | hmask
      · rw [ht, hsew] at hmem
        exact absurd hmem (by decide)
      · rw [ht] at hmask
        cases hmask
    refine hfull ?_ (.inr hvlen) fun ws => ?_
    · rw [iter, if_neg htype, hvlen]
      rfl
    · rw [iter, half, if_neg htype, hvlen]
      rfl
  · have hvlen : v.vlen = 8 := by
      rw [hv.vlen, ofContext, hlmul, hsew]
      rfl
    rcases hv.type with hmem | hmask
    · rw [hsew, elementTypes, List.mem_singleton] at hmem
      refine hfull ?_ (.inl hvlen) fun ws => ?_
      · rw [iter, if_pos hmem, hvlen]
        rfl
      · rw [iter, half, if_pos hmem, hvlen]
        exact (by decide : 8 / 2 * 2 = packetEntries)
    · exact append_split_mask hmask hvlen hlen

/-- Written vectors are read back unchanged except those of bytes and half words in a pair of
registers, whose halves are cut outside of their words. -/
theorem roundTrips_iff (hreg : u.isVreg (toInt reg) = true)
    (hlmul : context.csr.vtypeVlmul = .m1 ∨ context.csr.vtypeVlmul = .m2)
    (hpartner : context.csr.vtypeVlmul = .m2 → ∃ partner,
      u.doubleVreg.lookup (toInt reg) = some partner ∧ u.isVreg partner = true ∧
        partner ≠ toInt reg)
    (hv : BuiltFor context.csr v) : RoundTrips u reg context v ↔
      context.csr.vtypeVlmul = .m1 ∨ context.csr.vtypeVsew = .e32 ∨
        context.csr.vtypeVsew = .e64 := by
  constructor
  · rintro ⟨u', v', hwrite, -, -⟩
    rcases hlmul with hlmul | hlmul
    · exact .inl hlmul
    · refine .inr ?_
      have hover := not_overflows (.inr hlmul) hv
      have hnarrow (hsew : context.csr.vtypeVsew = .e8 ∨ context.csr.vtypeVsew = .e16) : False := by
        simp only [writeVreg, hover, hreg, hlmul, split_narrow hlmul hv hsew] at hwrite
        cases hwrite
      cases hsew : context.csr.vtypeVsew with
      | e8 => exact (hnarrow (.inl hsew)).elim
      | e16 => exact (hnarrow (.inr hsew)).elim
      | e32 => exact .inl rfl
      | e64 => exact .inr rfl
  · intro h
    rcases hlmul with hlmul | hlmul
    · exact roundTrips_one hreg hlmul hv
    · obtain ⟨partner, hlook, hvreg, hne⟩ := hpartner hlmul
      have hsew := h.resolve_left (by rw [hlmul]; decide)
      obtain ⟨lo, hi, v', hs, hlo, ha, hsame⟩ := exists_append_split hlmul hv hsew
      exact roundTrips_two hreg hlook hvreg hne hlmul hv hs hlo ha hsame

/-- A unit of four vector registers, the first two of them a pair. -/
def pairUnit : RegisterUnit :=
  { create 0 0 4 with doubleVreg := AList.singleton regPVBase (regPVBase + 1) }

def pairContext (sew : Vsew) : Context where
  ndpId := 0
  csr := { vtypeVsew := sew, vtypeVlmul := .m2 }
  requestInfo := ⟨.kernelBody, 0, 0, 0, 0, 0, 0⟩

/-- Sixteen words that are all different. -/
def pairWords : VectorData :=
  { (ofContext (pairContext .e32).csr).setType .int32 with
    data := (List.range 16).map (BitVec.ofNat 32) }

theorem roundTrips_words : RoundTrips pairUnit regPVBase (pairContext .e32) pairWords :=
  (roundTrips_iff (by decide) (.inr rfl) (fun _ => ⟨regPVBase + 1, by decide, by decide, by decide⟩)
    ⟨by decide, by decide, by decide, by decide⟩).mpr (.inr (.inl rfl))

/-- Half words in a pair of registers. -/
theorem not_roundTrips_halfWords :
    BuiltFor (pairContext .e16).csr ((ofContext (pairContext .e16).csr).setType .int16) ∧
    ¬ RoundTrips pairUnit regPVBase (pairContext .e16)
      ((ofContext (pairContext .e16).csr).setType .int16) := by
  have hv : BuiltFor (pairContext .e16).csr
      ((ofContext (pairContext .e16).csr).setType .int16) :=
    ⟨by decide, by decide, by decide, by decide⟩
  refine ⟨hv, ?_⟩
  rintro ⟨u', v', hwrite, -⟩
  simp only [writeVreg, not_overflows (.inr rfl) hv, split_narrow rfl hv (.inr rfl)] at hwrite
  cases hwrite

end RegisterUnit

end NdpSim
