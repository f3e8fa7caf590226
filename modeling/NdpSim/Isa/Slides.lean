import NdpSim.Isa.Results

/-!
# Slides

`VSLIDE1DOWN`, `VSLIDEDOWN` and `VSLIDE1UP` move the elements of a vector to other lanes. The
first and the last work for six element types. `VSLIDEDOWN` leaves out 64-bit integers, and
clears the lanes it vacates as if every element were a word.
-/
namespace NdpSim

open Library

/-! ## Elements up to the choice of a NaN -/

/-- The exponent of a half-precision number is all ones and its fraction is not zero. -/
def isNaN16 (x : F16) : Bool := x &&& 0x7c00#16 == 0x7c00#16 && x &&& 0x03ff#16 != 0#16

namespace Elem

/-- The same value. Conversions may exchange one half-precision NaN for another. -/
def Same : Elem → Elem → Prop
  | half x, half y => x = y ∨ (isNaN16 x = true ∧ isNaN16 y = true)
  | a, b => a = b

theorem Same.refl (e : Elem) : e.Same e := by
  cases e <;> simp [Same]

theorem Same.symm {a b : Elem} (h : a.Same b) : b.Same a := by
  cases a with
  | half x =>
    cases b with
    | half y =>
      rcases h with rfl | ⟨hx, hy⟩
      · exact .inl rfl
      · exact .inr ⟨hy, hx⟩
    | _ => cases h
  | _ =>
    obtain rfl := h
    exact Same.refl _

theorem Same.trans {a b c : Elem} (h : a.Same b) (h' : b.Same c) : a.Same c := by
  cases b with
  | half y =>
    cases a with
    | half x =>
      cases c with
      | half z =>
        rcases h with rfl | ⟨hx, hy⟩
        · exact h'
        · rcases h' with rfl | ⟨-, hz⟩
          · exact .inr ⟨hx, hy⟩
          · exact .inr ⟨hx, hz⟩
      | _ => cases h'
    | _ => cases h
  | _ =>
    obtain rfl := h'
    exact h

variable [FloatOps]

/-- A scalar register as an element. -/
def ofScalar (t : DataType) (x : BitVec 64) : Elem :=
  match t with
  | .float32 => float (FloatOps.ofInt x.toInt)
  | .float16 => half (FloatOps.halfOfFloat (FloatOps.ofInt x.toInt))
  | .int64 => long x
  | .int16 => short (x.setWidth 16)
  | .char8 => char (x.setWidth 8)
  | _ => int (x.setWidth 32)

theorem cast_long {t : DataType} (ht : t ∈ slideTypes) (x : BitVec 64) :
    cast t (long x) = .ok (ofScalar t x) := by
  have hnarrow {w : Nat} (hw : w ≤ 64) : BitVec.ofInt w x.toInt = x.setWidth w :=
    BitVec.signExtend_eq_setWidth_of_le x hw
  fin_cases ht <;>
    simp [cast, ofScalar, truncated, isFloating, toInteger, toHalf, toFloat, Functor.map,
      Except.map, hnarrow]

theorem type_ofScalar {t : DataType} (ht : t ∈ slideTypes) (x : BitVec 64) :
    (ofScalar t x).type = t := by
  fin_cases ht <;> rfl

end Elem

/-- What the conversions between the formats of half-precision numbers do with the numbers that
all formats have. -/
structure HalfConversions [FloatOps] : Prop where
  stored : ∀ x : F16, (Elem.half x).stored.Same (.half x)
  load_zero : FloatOps.halfOfFloat (FloatOps.fp16IeeeToFp32Value 0) = 0
  ofInt_zero : FloatOps.ofInt 0 = 0
  half_zero : FloatOps.halfOfFloat 0 = 0

theorem HalfConversions.same [FloatOps] (h : HalfConversions) (e : Elem) : e.stored.Same e := by
  cases e with
  | half x => exact h.stored x
  | _ => rfl

theorem HalfConversions.ofScalar_zero [FloatOps] (h : HalfConversions) {t : DataType}
    (ht : t ∈ slideTypes) : Elem.ofScalar t 0 = zeroElem t := by
  have hhalf : FloatOps.halfOfFloat 0#32 = 0#16 := h.half_zero
  fin_cases ht <;> simp [Elem.ofScalar, zeroElem, h.ofInt_zero, hhalf]

namespace VectorData

variable [FloatOps]

/-! ## What the slides are to give -/

/-- The element at an index is `e`. -/
def Reads (v : VectorData) (t : DataType) (i : Nat) (e : Elem) : Prop :=
  ∃ e', v.get t i = .ok e' ∧ e'.Same e

/-- `vd` has the type and the length of `vs`, and the elements `f`. -/
structure Slid (vs vd : VectorData) (f : Nat → Elem) : Prop where
  type : vd.type = vs.type
  vlen : vd.vlen = vs.vlen
  elements : ∀ i < vs.vlen, vd.Reads vs.type i (f i)

def downBy (vs : VectorData) (k i : Nat) : Elem :=
  if i + k < vs.vlen then vs.elem vs.type (i + k) else zeroElem vs.type

def downOne (vs : VectorData) (x : BitVec 64) (i : Nat) : Elem :=
  if i + 1 < vs.vlen then vs.elem vs.type (i + 1) else .ofScalar vs.type x

def upOne (vs : VectorData) (x : BitVec 64) (i : Nat) : Elem :=
  if i = 0 then .ofScalar vs.type x else vs.elem vs.type (i - 1)

/-! ## The vectors the instructions compute -/

def slide1down (c : CSR) (x : BitVec 64) (vs1 : VectorData) : Except Fault VectorData :=
  let vd := ofContext c
  let t := vs1.type
  if slideTypes.contains t then do
    let last := wrappedSub vd.vlen 1
    let vd ← vd.setLanes (lanes c.vstart last) fun i => do return some (← vs1.get t (i + 1))
    let vd ← vd.setData (← Elem.cast t (.long x)) last
    return vd.setType t
  else return vd

def slidedown (c : CSR) (move : BitVec 32) (vs1 : VectorData) : Except Fault VectorData :=
  let vd := ofContext c
  let t := vs1.type
  if [DataType.float16, .float32, .int16, .int32, .char8].contains t then do
    let vd ← vd.setLanes (lanes c.vstart (wrappedSub vd.vlen move.toInt)) fun i => do
      return some (← vs1.get t (← index (i + move.toInt)))
    return (← clearTail vd move.toInt.toNat).setType t
  else return vd

def slide1up (c : CSR) (x : BitVec 64) (vs1 : VectorData) : Except Fault VectorData :=
  let vd := ofContext c
  let t := vs1.type
  if slideTypes.contains t then do
    let vd ← shiftedUp t (lanes c.vstart (wrappedSub vd.vlen 1)) vs1 vd
    let vd ← vd.setData (← Elem.cast t (.long x)) 0
    return vd.setType t
  else return vd

@[simp] theorem get_setType (v : VectorData) (t t' : DataType) (i : Nat) :
    (v.setType t').get t i = v.get t i := by
  cases t <;> rfl

omit [FloatOps] in
theorem wrappedSub_eq {a : Nat} {b : Int} (hb : 0 ≤ b) (hle : b ≤ (a : Int)) (ha : a < 2 ^ 32) :
    wrappedSub a b = a - b.toNat := by
  rw [wrappedSub, Int.emod_eq_of_lt (by omega) (by omega)]
  omega

/-! ## Slides by one -/

section

variable {c : CSR} {vs : VectorData}

/-- Elements written into an empty vector. -/
theorem slid_of_setAll (conv : HalfConversions) (hv : BuiltFor c vs)
    (ht : vs.type ∈ elementTypes c.vtypeVsew) {l : List (Nat × Elem)} {f : Nat → Elem}
    (htype : ∀ p ∈ l, p.2.type = vs.type) (hnodup : (l.map Prod.fst).Nodup)
    (hbound : ∀ p ∈ l, p.1 < vs.vlen) (hf : ∀ i < vs.vlen, (i, f i) ∈ l) :
    ∃ vd, (ofContext c).setAll l = .ok vd ∧ BuiltFor c (vd.setType vs.type) ∧
      Slid vs (vd.setType vs.type) f := by
  obtain ⟨vd, hvd, hall⟩ := setAll_spec
    (fun p hp => room_ofContext ht (hv.vlen ▸ hbound p hp)) htype hnodup
  refine ⟨vd, hvd, ⟨hv.type, hall.shape.vlen, hall.shape.doubleReg, hall.shape.words⟩,
    rfl, hall.shape.vlen.trans hv.vlen.symm, fun i hi => ?_⟩
  exact ⟨_, (get_setType ..).trans (hall.inside _ (hf i hi)), conv.same _⟩

/-- Every lane but the last one is read from its neighbour. -/
theorem setLanes_moved (hv : BuiltFor c vs) (ht : vs.type ∈ elementTypes c.vtypeVsew)
    {vd : VectorData} {is : List Nat} {m : Nat} (hbound : ∀ i ∈ is, i + m < vs.vlen) :
    (vd.setLanes is fun i => do return some (← vs.get vs.type (i + m))) =
      vd.setAll (is.map fun i => (i, vs.elem vs.type (i + m))) := by
  refine setLanes_eq_setAll fun i hi => ?_
  rw [(get_eq_elem hv ht (hbound i hi)).1]
  rfl

/-- The writes that move lanes to other places, and the scalar to the place that is left. -/
def movedWith (vs : VectorData) (is : List Nat) (place source : Nat → Nat) (j : Nat)
    (x : BitVec 64) : List (Nat × Elem) :=
  (is.map fun i => (place i, vs.elem vs.type (source i))) ++ [(j, Elem.ofScalar vs.type x)]

theorem mem_movedWith {is : List Nat} {place source : Nat → Nat} {j : Nat} {x : BitVec 64}
    {p : Nat × Elem} : p ∈ movedWith vs is place source j x ↔
      p = (j, .ofScalar vs.type x) ∨ ∃ i ∈ is, p = (place i, vs.elem vs.type (source i)) := by
  simp only [movedWith, List.mem_append, List.mem_map, List.mem_singleton, eq_comm, or_comm]

theorem slid_with_scalar (conv : HalfConversions) (hv : BuiltFor c vs)
    (ht : vs.type ∈ elementTypes c.vtypeVsew) (hslide : vs.type ∈ slideTypes) {is : List Nat}
    {place source : Nat → Nat} {j : Nat} {x : BitVec 64} {f : Nat → Elem}
    (hsource : ∀ i ∈ is, source i < vs.vlen) (hplace : ∀ i ∈ is, place i < vs.vlen)
    (hj : j < vs.vlen) (hnodup : (is.map place ++ [j]).Nodup)
    (hf : ∀ i < vs.vlen, (i, f i) ∈ movedWith vs is place source j x) :
    ∃ vd, (ofContext c).setAll (movedWith vs is place source j x) = .ok vd ∧
      BuiltFor c (vd.setType vs.type) ∧ Slid vs (vd.setType vs.type) f := by
  have htype : ∀ p ∈ movedWith vs is place source j x, p.2.type = vs.type := by
    intro p hp
    rcases mem_movedWith.mp hp with rfl | ⟨i, hi, rfl⟩
    · exact Elem.type_ofScalar hslide x
    · exact (get_eq_elem hv ht (hsource i hi)).2
  have hbound : ∀ p ∈ movedWith vs is place source j x, p.1 < vs.vlen := by
    intro p hp
    rcases mem_movedWith.mp hp with rfl | ⟨i, hi, rfl⟩
    · exact hj
    · exact hplace i hi
  have hfst : (movedWith vs is place source j x).map Prod.fst = is.map place ++ [j] := by
    rw [movedWith, List.map_append, List.map_map]
    rfl
  exact slid_of_setAll conv hv ht htype (hfst ▸ hnodup) hbound hf

omit [FloatOps] in
/-- All lanes but the last one have a neighbour. -/
theorem lanes_but_last (hstart : c.vstart = 0) (hv : BuiltFor c vs) (hpos : 0 < vs.vlen) :
    wrappedSub (ofContext c).vlen 1 = vs.vlen - 1 ∧
      lanes c.vstart (vs.vlen - 1) = List.range' 0 (vs.vlen - 1) ∧
      ∀ i ∈ List.range' 0 (vs.vlen - 1), i + 1 < vs.vlen := by
  have hle := vlen_ofContext_le c
  rw [← hv.vlen] at hle ⊢
  refine ⟨wrappedSub_eq (by decide) (by omega) (by omega), by rw [hstart]; rfl, fun i hi => ?_⟩
  rw [List.mem_range'_1] at hi
  omega

theorem slide1down_spec (conv : HalfConversions) (hstart : c.vstart = 0) (hv : BuiltFor c vs)
    (ht : vs.type ∈ elementTypes c.vtypeVsew) (hslide : vs.type ∈ slideTypes)
    (hpos : 0 < vs.vlen) (x : BitVec 64) :
    ∃ vd, slide1down c x vs = .ok vd ∧ BuiltFor c vd ∧ Slid vs vd (downOne vs x) := by
  obtain ⟨hlast, hlanes, hmem⟩ := lanes_but_last hstart hv hpos
  have hnodup : ((List.range' 0 (vs.vlen - 1)).map (fun i => i) ++ [vs.vlen - 1]).Nodup := by
    have hconcat := List.range'_1_concat (s := 0) (n := vs.vlen - 1)
    rw [Nat.zero_add] at hconcat
    rw [List.map_id', ← hconcat]
    exact List.nodup_range'
  obtain ⟨vd, hvd, hslid⟩ := slid_with_scalar (f := downOne vs x) conv hv ht hslide hmem
    (fun i hi => (Nat.lt_succ_self i).trans (hmem i hi)) (Nat.sub_lt hpos one_pos) hnodup
    fun i hi => by
      rw [mem_movedWith, downOne]
      split
      case isTrue hlt => exact .inr ⟨i, List.mem_range'_1.mpr (by omega), rfl⟩
      case isFalse hge =>
        obtain rfl : i = vs.vlen - 1 := by omega
        exact .inl rfl
  refine ⟨vd.setType vs.type, ?_, hslid⟩
  rw [movedWith, setAll_append] at hvd
  simp only [setAll_singleton] at hvd
  rw [slide1down, if_pos (List.contains_iff_mem.mpr hslide)]
  dsimp only
  rw [hlast, hlanes, setLanes_moved hv ht hmem, Elem.cast_long hslide]
  simp only [ok_bind, ← bind_assoc, hvd]
  rfl

theorem slide1up_spec (conv : HalfConversions) (hstart : c.vstart = 0) (hv : BuiltFor c vs)
    (ht : vs.type ∈ elementTypes c.vtypeVsew) (hslide : vs.type ∈ slideTypes)
    (hpos : 0 < vs.vlen) (x : BitVec 64) :
    ∃ vd, slide1up c x vs = .ok vd ∧ BuiltFor c vd ∧ Slid vs vd (upOne vs x) := by
  obtain ⟨hlast, hlanes, hmem⟩ := lanes_but_last hstart hv hpos
  have hlt : ∀ i ∈ List.range' 0 (vs.vlen - 1), i < vs.vlen :=
    fun i hi => (Nat.lt_succ_self i).trans (hmem i hi)
  have hloop : shiftedUp vs.type (List.range' 0 (vs.vlen - 1)) vs (ofContext c) =
      (ofContext c).setAll
        ((List.range' 0 (vs.vlen - 1)).map fun i => (i + 1, vs.elem vs.type i)) := by
    refine foldlM_eq_setAll fun v i hi => ?_
    rw [(get_eq_elem hv ht (hlt i hi)).1]
    rfl
  have hnodup : ((List.range' 0 (vs.vlen - 1)).map (· + 1) ++ [0]).Nodup := by
    refine List.Nodup.append ?_ (List.nodup_singleton _) fun j hj hzero => ?_
    · exact List.Nodup.map (fun i j h => Nat.succ.inj h) List.nodup_range'
    · obtain ⟨i, -, rfl⟩ := List.mem_map.mp hj
      exact Nat.succ_ne_zero i (List.mem_singleton.mp hzero)
  obtain ⟨vd, hvd, hslid⟩ := slid_with_scalar (f := upOne vs x) conv hv ht hslide hlt hmem hpos
    hnodup fun i hi => by
      rw [mem_movedWith, upOne]
      split
      case isTrue hzero =>
        obtain rfl := hzero
        exact .inl rfl
      case isFalse hne =>
        obtain ⟨j, rfl⟩ := Nat.exists_eq_succ_of_ne_zero hne
        exact .inr ⟨j, List.mem_range'_1.mpr (by omega), rfl⟩
  refine ⟨vd.setType vs.type, ?_, hslid⟩
  rw [movedWith, setAll_append] at hvd
  simp only [setAll_singleton] at hvd
  rw [slide1up, if_pos (List.contains_iff_mem.mpr hslide), hlast, hlanes, hloop,
    Elem.cast_long hslide]
  simp only [ok_bind, ← bind_assoc, hvd]
  rfl

/-! ## Slides by any amount -/

omit [FloatOps] in
/-- The last `m` words below the length are cleared, if they are there. -/
theorem clearTail_spec {v : VectorData} {m : Nat} (hm : m ≤ v.vlen)
    (hw : m = 0 ∨ v.vlen ≤ v.data.length) :
    ∃ v', clearTail v m = .ok v' ∧ SameShape v v' ∧ ∀ w,
      v'.data[w]? = if v.vlen - m ≤ w ∧ w < v.vlen then some 0 else v.data[w]? := by
  induction m with
  | zero =>
    refine ⟨v, rfl, .refl v, fun w => ?_⟩
    rw [if_neg (by omega)]
  | succ m ih =>
    obtain hle : v.vlen ≤ v.data.length := by omega
    obtain ⟨vd₁, hvd₁, hshape, hwords⟩ := ih (by omega) (.inr hle)
    have hlen : vd₁.vlen - (m + 1) < vd₁.vlen := by
      rw [hshape.vlen]
      omega
    have hlt : vd₁.vlen - (m + 1) < vd₁.data.length := by
      rw [hshape.words]
      rw [hshape.vlen] at hlen ⊢
      omega
    refine ⟨{ vd₁ with type := .int32, data := vd₁.data.set (vd₁.vlen - (m + 1)) 0 }, ?_,
      hshape.trans ⟨rfl, rfl, by simp⟩, fun w => ?_⟩
    · rw [clearTail, List.range'_1_concat, List.foldlM_append]
      change clearTail v m >>= _ = _
      rw [hvd₁, Nat.add_comm 1 m]
      change ((if vd₁.vlen < m + 1 then .error .assertion
        else vd₁.setInt 0 (vd₁.vlen - (m + 1))) >>= pure) = _
      rw [if_neg (by rw [hshape.vlen]; omega), setInt_eq hlen hlt]
      rfl
    · rw [List.getElem?_set, hwords]
      rw [hshape.vlen] at hlt ⊢
      by_cases hhere : v.vlen - (m + 1) = w
      · rw [if_pos hhere, if_pos hlt, if_pos (by omega)]
      · have hiff : v.vlen - m ≤ w ∧ w < v.vlen ↔ v.vlen - (m + 1) ≤ w ∧ w < v.vlen := by
          omega
        rw [if_neg hhere]
        simp only [hiff]

theorem slidedown_spec (conv : HalfConversions) (hstart : c.vstart = 0) (hv : BuiltFor c vs)
    (ht : vs.type ∈ elementTypes c.vtypeVsew)
    (hslide : vs.type ∈ [DataType.float16, .float32, .int16, .int32, .char8])
    {d : BitVec 32} {m : Nat} (hmove : d.toInt = (m : Int)) (hle : m ≤ vs.vlen)
    (hw : m = 0 ∨ vs.vlen ≤ vs.data.length) :
    ∃ vd, slidedown c d vs = .ok vd ∧ Slid vs vd (downBy vs m) := by
  have hlong : vs.type ≠ .int64 := fun h => by simp [h] at hslide
  have hbound := vlen_ofContext_le c
  rw [← hv.vlen] at hbound
  have hcount : wrappedSub vs.vlen (m : Int) = vs.vlen - m :=
    wrappedSub_eq (by omega) (by omega) (by omega)
  have hlanes : lanes 0 (vs.vlen - m) = List.range' 0 (vs.vlen - m) := rfl
  have hmem : ∀ i ∈ List.range' 0 (vs.vlen - m), i + m < vs.vlen := by
    intro i hi
    rw [List.mem_range'_1] at hi
    omega
  set ps := (List.range' 0 (vs.vlen - m)).map (fun i => (i, vs.elem vs.type (i + m))) with hps
  have hloop : ((ofContext c).setLanes (List.range' 0 (vs.vlen - m)) fun i => do
      return some (← vs.get vs.type (← index (i + (m : Int))))) = (ofContext c).setAll ps := by
    rw [hps, ← setLanes_moved hv ht hmem]
    rfl
  have hfst : ps.map Prod.fst = List.range' 0 (vs.vlen - m) := by
    rw [hps, List.map_map]
    exact List.map_id _
  obtain ⟨vd₁, hvd₁, hall⟩ := setAll_spec (v := ofContext c) (t := vs.type) (l := ps)
    (by
      intro p hp
      obtain ⟨i, hi, rfl⟩ := List.mem_map.mp hp
      have := hmem i hi
      exact room_ofContext ht (by rw [← hv.vlen]; omega))
    (by
      intro p hp
      obtain ⟨i, hi, rfl⟩ := List.mem_map.mp hp
      exact (get_eq_elem hv ht (hmem i hi)).2)
    (by rw [hfst]; exact List.nodup_range')
  have hlen : vd₁.vlen = vs.vlen := hall.shape.vlen.trans hv.vlen.symm
  have hwords : vd₁.data.length = vs.data.length := hall.shape.words.trans hv.words.symm
  obtain ⟨vd₂, hvd₂, hshape, hclear⟩ := clearTail_spec (v := vd₁) (m := m) (by omega) (by omega)
  refine ⟨vd₂.setType vs.type, ?_, rfl, hshape.vlen.trans hlen, fun i hi => ?_⟩
  · rw [slidedown, if_pos (List.contains_iff_mem.mpr hslide), hstart, hmove, ← hv.vlen, hcount,
      hlanes, hloop, hvd₁]
    change (clearTail vd₁ (m : Int).toNat >>= _) = _
    rw [Int.toNat_natCast, hvd₂]
    rfl
  · have hdiv : i / perWord vs.type ≤ i := Nat.div_le_self ..
    have hword := hclear (i / perWord vs.type)
    rw [hlen] at hword
    rw [Reads, get_setType, downBy]
    by_cases hlt : i + m < vs.vlen
    · rw [if_neg (by omega)] at hword
      have hin : (i, vs.elem vs.type (i + m)) ∈ ps :=
        List.mem_map.mpr ⟨i, List.mem_range'_1.mpr (by omega), rfl⟩
      rw [if_pos hlt, get_congr hlong hword]
      exact ⟨_, hall.inside _ hin, conv.same _⟩
    · rw [if_neg hlt]
      by_cases hcut : vs.vlen - m ≤ i / perWord vs.type
      · rw [if_pos (by omega)] at hword
        exact ⟨_, get_of_zero hlong (elementTypes_ne ht) (fun _ => conv.load_zero) hword, .refl _⟩
      · rw [if_neg (by omega)] at hword
        have hout : i ∉ ps.map Prod.fst := by
          rw [hfst, List.mem_range'_1]
          omega
        rw [get_congr hlong hword, hall.outside i hout]
        have hroom := room_ofContext ht (i := i) (by rw [← hv.vlen]; exact hi)
        exact ⟨_, get_ofContext (elementTypes_ne ht) (fun _ => conv.load_zero) hroom, .refl _⟩

/-- A slide by a negative amount, by more than the length, or past the words that are there. -/
theorem slidedown_error (hstart : c.vstart = 0) (hv : BuiltFor c vs)
    (hslide : vs.type ∈ [DataType.float16, .float32, .int16, .int32, .char8])
    {d : BitVec 32} (hpos : 0 < vs.vlen)
    (h : d.toInt < 0 ∨ vs.vlen < d.toInt ∨
      (0 < d.toInt ∧ vs.data.length < vs.vlen)) :
    ∃ f, slidedown c d vs = .error f := by
  have hlong : vs.type ≠ .int64 := fun h => by simp [h] at hslide
  have hbound := vlen_ofContext_le c
  have hwords := words_ofContext_le c
  rw [← hv.vlen] at hbound
  rw [← hv.words] at hwords
  have hlo : -2 ^ 31 ≤ d.toInt := BitVec.le_toInt d
  have hhi : d.toInt < 2 ^ 31 := BitVec.toInt_lt
  rw [slidedown, if_pos (List.contains_iff_mem.mpr hslide), hstart, ← hv.vlen]
  have hlanes (n : Nat) : lanes 0 n = List.range' 0 n := rfl
  rw [hlanes]
  rcases h with hneg | hlarge | ⟨hmove, hshort⟩
  · -- lane 0 is read at a negative index
    have hmem : 0 ∈ List.range' 0 (wrappedSub vs.vlen d.toInt) := by
      rw [List.mem_range'_1, wrappedSub, Int.emod_eq_of_lt (by omega) (by omega)]
      omega
    have hindex : index ((0 : Nat) + d.toInt) = .error .undefined := by
      rw [index, if_pos (by omega)]
    obtain ⟨f, hf⟩ := setLanes_of_error (v := ofContext c)
      (f := fun i => do return some (← vs.get vs.type (← index (i + d.toInt)))) hmem
      (e := .undefined) (by rw [hindex]; rfl)
    exact ⟨f, by rw [hf]; rfl⟩
  · -- the bound wraps around, and the lanes leave the words
    have hp := perWord_pos vs.type
    have hper : perWord vs.type ≤ 4 := by cases vs.type <;> decide
    have hlane : perWord vs.type * vs.data.length ≤ 4 * 64 := Nat.mul_le_mul hper hwords
    have hmem : perWord vs.type * vs.data.length ∈
        List.range' 0 (wrappedSub vs.vlen d.toInt) := by
      have hwrap : wrappedSub vs.vlen d.toInt = (vs.vlen - d.toInt + 2 ^ 32).toNat := by
        rw [wrappedSub, ← Int.add_emod_right, Int.emod_eq_of_lt (by omega) (by omega)]
      rw [List.mem_range'_1, hwrap]
      omega
    have hout : ¬ (perWord vs.type * vs.data.length + d.toInt.toNat) / perWord vs.type <
        vs.data.length := by
      rw [Nat.mul_add_div hp]
      exact Nat.not_lt.mpr (Nat.le_add_right ..)
    obtain ⟨e, he⟩ := get_of_not_lt hlong hout
    have hindex : index ((perWord vs.type * vs.data.length : Nat) + d.toInt) =
        .ok (perWord vs.type * vs.data.length + d.toInt.toNat) := by
      rw [index, if_neg (by omega)]
      exact congrArg Except.ok (by omega)
    obtain ⟨f, hf⟩ := setLanes_of_error (v := ofContext c)
      (f := fun i => do return some (← vs.get vs.type (← index (i + d.toInt)))) hmem
      (e := e) (by rw [hindex]; change vs.get _ _ >>= _ = _; rw [he]; rfl)
    exact ⟨f, by rw [hf]; rfl⟩
  · -- the last lane is cleared as a word that is not there
    obtain ⟨m, hm⟩ : ∃ m, d.toInt.toNat = m + 1 := ⟨d.toInt.toNat - 1, by omega⟩
    cases hloop : (ofContext c).setLanes (List.range' 0 (wrappedSub vs.vlen d.toInt))
        fun i => do return some (← vs.get vs.type (← index (i + d.toInt))) with
    | error f => exact ⟨f, rfl⟩
    | ok vd =>
      have hshape := shape_of_setLanes hloop
      have hlen : vd.vlen = vs.vlen := hshape.vlen.trans hv.vlen.symm
      have hdata : vd.data.length = vs.data.length := hshape.words.trans hv.words.symm
      obtain ⟨f, hf⟩ := setData_of_not_room (v := vd) (e := .int 0) (i := vs.vlen - 1)
        (by simp only [Room, Elem.type, reduceCtorEq, if_false, perWord]; omega)
      refine ⟨f, ?_⟩
      change (clearTail vd d.toInt.toNat >>= _) = _
      have hclear : clearTail vd (m + 1) = .error f := by
        rw [clearTail, List.range'_succ, List.foldlM_cons, if_neg (by omega), hlen]
        change (vd.setData (.int 0) (vs.vlen - 1) >>= _) = _
        rw [hf]
        rfl
      rw [hm, hclear]
      rfl

/-! ## Repeated slides by one -/

/-- `k` slides by one, each of which moves a zero in. -/
def slideDownTimes (c : CSR) : Nat → VectorData → Except Fault VectorData
  | 0, vs => .ok vs
  | k + 1, vs => slideDownTimes c k vs >>= slide1down c 0

theorem elem_same {vd : VectorData} {f : Nat → Elem} (h : Slid vs vd f) {i : Nat}
    (hi : i < vs.vlen) : (vd.elem vd.type i).Same (f i) := by
  obtain ⟨e, he, hsame⟩ := h.elements i hi
  rw [elem, h.type, he]
  exact hsame

theorem Slid.congr {vd : VectorData} {f g : Nat → Elem} (h : Slid vs vd f)
    (hfg : ∀ i < vs.vlen, (f i).Same (g i)) : Slid vs vd g := by
  refine ⟨h.type, h.vlen, fun i hi => ?_⟩
  obtain ⟨e, he, hsame⟩ := h.elements i hi
  exact ⟨e, he, hsame.trans (hfg i hi)⟩

theorem slideDownTimes_spec (conv : HalfConversions) (hstart : c.vstart = 0) (hv : BuiltFor c vs)
    (ht : vs.type ∈ elementTypes c.vtypeVsew) (hslide : vs.type ∈ slideTypes)
    (hpos : 0 < vs.vlen) (k : Nat) :
    ∃ vd, slideDownTimes c k vs = .ok vd ∧ BuiltFor c vd ∧ Slid vs vd (downBy vs k) := by
  induction k with
  | zero =>
    refine ⟨vs, rfl, hv, rfl, rfl, fun i hi => ⟨_, (get_eq_elem hv ht hi).1, ?_⟩⟩
    rw [downBy, if_pos (by omega)]
    exact .refl _
  | succ k ih =>
    obtain ⟨vd, hvd, hbuilt, hslid⟩ := ih
    obtain ⟨vd', hvd', hbuilt', hslid'⟩ := slide1down_spec conv hstart hbuilt
      (by rw [hslid.type]; exact ht) (by rw [hslid.type]; exact hslide)
      (by rw [hslid.vlen]; exact hpos) 0
    refine ⟨vd', ?_, hbuilt', hslid'.type.trans hslid.type, hslid'.vlen.trans hslid.vlen,
      fun i hi => ?_⟩
    · rw [slideDownTimes, hvd]
      exact hvd'
    · obtain ⟨e, he, hsame⟩ := hslid'.elements i (by rw [hslid.vlen]; exact hi)
      refine ⟨e, by rw [← hslid.type]; exact he, hsame.trans ?_⟩
      rw [downOne, hslid.vlen]
      split
      case isTrue hlt =>
        have hstep : downBy vs k (i + 1) = downBy vs (k + 1) i := by
          simp only [downBy, show i + 1 + k = i + (k + 1) by omega]
        rw [← hstep]
        exact elem_same hslid hlt
      case isFalse hge =>
        rw [hslid.type, conv.ofScalar_zero hslide, downBy, if_neg (by omega)]
        exact .refl _

end

end VectorData

namespace Operands

open VectorData Slot

variable [FloatOps] (o : Operands)

theorem result_vslide1down {t : OperandType} :
    o.result .vslide1down t = some <$> slide1down o.csr (o.x (src 1)) (o.v (src 0)) := by
  refine result_of_run (k := executeVslide1down) rfl rfl nofun rfl ?_
  simp only [executeVslide1down, run_csr_bind, run_readV_bind, slide1down]
  split
  · simp only [run_liftM_bind, run_readX_bind, bind_assoc]
    rfl
  · rfl

theorem result_vslide1up {t : OperandType} :
    o.result .vslide1up t = some <$> slide1up o.csr (o.x (src 1)) (o.v (src 0)) := by
  refine result_of_run (k := executeVslide1up) rfl rfl nofun rfl ?_
  simp only [executeVslide1up, run_csr_bind, run_readV_bind, slide1up]
  split
  · simp only [run_liftM_bind, run_readX_bind, bind_assoc]
    rfl
  · rfl

theorem result_vslidedown {t : OperandType} {move : BitVec 32}
    (h : t = .vx ∧ move = (o.x (src 1)).setWidth 32 ∨
      t = .vi ∧ move = (BitVec.ofInt 64 (o.field (src 1))).setWidth 32) :
    o.result .vslidedown t = some <$> slidedown o.csr move (o.v (src 0)) := by
  refine result_of_run (k := executeVslidedown t) rfl rfl nofun rfl ?_
  rcases h with ⟨rfl, rfl⟩ | ⟨rfl, rfl⟩ <;>
  · simp only [executeVslidedown, run_csr_bind, run_readV_bind, slidedown]
    rw [Prog.run_bind]
    change (if _ then _ else _ : Exec Unit).run o.handle _ = _
    split
    · simp only [run_liftM_bind, bind_assoc]
      rfl
    · rfl

/-! ## The laws of the slides -/

/-- The vector in the first operand, and the scalar or immediate in the second. -/
def slideOperands (c : CSR) (vs : VectorData) (x : BitVec 64) : Operands where
  csr := c
  v _ := vs
  x _ := x
  field _ := x.toInt

/-- `k` times `VSLIDE1DOWN` with the scalar zero. -/
def slideRepeatedly (c : CSR) : Nat → VectorData → Except Fault VectorData
  | 0, vs => .ok vs
  | k + 1, vs => do
    let vd ← slideRepeatedly c k vs
    match ← (slideOperands c vd 0).result .vslide1down .vx with
    | some vd => return vd
    | none => throw .undefined

theorem slideRepeatedly_eq (c : CSR) (k : Nat) (vs : VectorData) :
    slideRepeatedly c k vs = slideDownTimes c k vs := by
  induction k with
  | zero => rfl
  | succ k ih =>
    rw [slideRepeatedly, slideDownTimes, ih]
    refine congrArg (slideDownTimes c k vs >>= ·) (funext fun vd => ?_)
    rw [result_vslide1down]
    change (some <$> slide1down c 0 vd) >>= _ = _
    cases slide1down c 0 vd <;> rfl

/-- The slides of `vs` by `k` and by one with the scalar `x`. -/
structure SlideLaws (c : CSR) (vs : VectorData) (t : OperandType) (x : BitVec 64) (k : Nat) :
    Prop where
  down : (slideOperands c vs (BitVec.ofNat 64 k)).Yields .vslidedown t
    (Slid vs · (downBy vs k))
  downOne : (slideOperands c vs x).Yields .vslide1down .vx (Slid vs · (downOne vs x))
  upOne : (slideOperands c vs x).Yields .vslide1up .vx (Slid vs · (upOne vs x))
  repeated : k ≤ vs.vlen → ∃ vd vd', slideRepeatedly c k vs = .ok vd ∧
    (slideOperands c vs (BitVec.ofNat 64 k)).result .vslidedown t = .ok (some vd') ∧
    Slid vd' vd (vd'.elem vs.type)

/-- The amount as the instruction takes it, an `int`. -/
def slideAmount (k : Nat) : Int := (BitVec.ofNat 32 k).toInt

theorem result_slidedown_ofNat {c : CSR} {v : VectorData} {t : OperandType} {k : Nat}
    (ht : t = .vx ∨ t = .vi) :
    (slideOperands c v (BitVec.ofNat 64 k)).result .vslidedown t =
      some <$> slidedown c (BitVec.ofNat 32 k) v := by
  have hmove : (BitVec.ofNat 64 k).setWidth 32 = BitVec.ofNat 32 k := by
    apply BitVec.eq_of_toNat_eq
    simp only [BitVec.toNat_setWidth, BitVec.toNat_ofNat]
    omega
  refine result_vslidedown _ ?_
  rcases ht with rfl | rfl
  · exact .inl ⟨rfl, hmove.symm⟩
  · refine .inr ⟨rfl, ?_⟩
    change _ = (BitVec.ofInt 64 (BitVec.ofNat 64 k).toInt).setWidth 32
    rw [BitVec.ofInt_toInt, hmove]

/-- A vector of another type than the five is not moved, and the result has no type. -/
theorem slidedown_of_unsupported {c : CSR} {vs : VectorData} {move : BitVec 32}
    (h : vs.type ∉ [DataType.float16, .float32, .int16, .int32, .char8]) :
    slidedown c move vs = .ok (ofContext c) := by
  rw [slidedown, if_neg (fun hmem => h (List.contains_iff_mem.mp hmem))]
  rfl

/-- The slides do what they are to do for the five types `VSLIDEDOWN` knows and an amount that,
as an `int`, is not past the length; the tail must be clearable as words, and an amount that
wraps around must leave nothing but zeros. -/
theorem slideLaws_iff {c : CSR} {vs : VectorData} (conv : HalfConversions) (hstart : c.vstart = 0)
    (hv : BuiltFor c vs) (ht : vs.type ∈ elementTypes c.vtypeVsew) {t : OperandType}
    (hform : t = .vx ∨ t = .vi) (x : BitVec 64) (k : Nat) :
    SlideLaws c vs t x k ↔
      vs.type ∈ [DataType.float16, .float32, .int16, .int32, .char8] ∧
      0 ≤ slideAmount k ∧ slideAmount k ≤ vs.vlen ∧
      (slideAmount k = 0 ∨ vs.vlen ≤ vs.data.length) ∧
      (k ≤ vs.vlen ∨ ∀ i < vs.vlen, slideAmount k ≤ i →
        (vs.elem vs.type i).Same (zeroElem vs.type)) := by
  have hbound := vlen_ofContext_le c
  rw [← hv.vlen] at hbound
  by_cases hfive : vs.type ∈ [DataType.float16, .float32, .int16, .int32, .char8]
  case neg =>
    refine ⟨fun h => ?_, fun h => absurd h.1 hfive⟩
    obtain ⟨vd, hvd, hslid⟩ := (yields_iff (result_slidedown_ofNat hform)).mp h.down
    rw [slidedown_of_unsupported hfive] at hvd
    obtain rfl := Except.ok.inj hvd
    exact absurd hslid.type.symm (elementTypes_ne ht).2
  case pos =>
    have hslide : vs.type ∈ slideTypes := by
      revert hfive
      cases vs.type <;> decide
    have hpos : 0 < vs.vlen := by
      rw [hv.vlen]
      exact vlen_ofContext_pos ht fun h => by rw [h] at hfive; exact absurd hfive (by decide)
    by_cases hmove : 0 ≤ slideAmount k ∧ slideAmount k ≤ vs.vlen ∧
        (slideAmount k = 0 ∨ vs.vlen ≤ vs.data.length)
    case neg =>
      refine ⟨fun h => ?_, fun h => absurd ⟨h.2.1, h.2.2.1, h.2.2.2.1⟩ hmove⟩
      obtain ⟨vd, hvd, -⟩ := (yields_iff (result_slidedown_ofNat hform)).mp h.down
      obtain ⟨f, hf⟩ := slidedown_error (d := BitVec.ofNat 32 k) hstart hv hfive hpos
        (by change slideAmount k < 0 ∨ _ < slideAmount k ∨ 0 < slideAmount k ∧ _; omega)
      cases hvd.symm.trans hf
    case pos =>
      obtain ⟨hnonneg, hle, hwords⟩ := hmove
      obtain ⟨m, hm⟩ := Int.eq_ofNat_of_zero_le hnonneg
      rw [hm] at hle hwords ⊢
      obtain ⟨vd, hvd, hslid⟩ := slidedown_spec conv hstart hv ht hfive (d := BitVec.ofNat 32 k)
        hm (by omega) (by omega)
      have hresult := result_slidedown_ofNat hform (c := c) (v := vs) (k := k)
      have hsmall : k ≤ vs.vlen → m = k := by
        intro hk
        have hnat : (BitVec.ofNat 32 k).toNat = k := by
          rw [BitVec.toNat_ofNat]
          omega
        rw [slideAmount, BitVec.toInt_eq_toNat_of_lt (by omega), hnat] at hm
        exact (Int.ofNat.inj hm).symm
      constructor
      · intro h
        refine ⟨hfive, by omega, hle, hwords, ?_⟩
        by_cases hk : k ≤ vs.vlen
        · exact .inl hk
        · refine .inr fun i hi hmi => ?_
          obtain ⟨vd', hvd', hslid'⟩ := (yields_iff hresult).mp h.down
          obtain rfl := Except.ok.inj (hvd.symm.trans hvd')
          have hi' : i - m < vs.vlen := by omega
          have hsame := (elem_same hslid hi').symm.trans (elem_same hslid' hi')
          rw [downBy, downBy, if_pos (by omega), if_neg (by omega),
            Nat.sub_add_cancel (by omega)] at hsame
          exact hsame
      · rintro ⟨-, -, -, -, htail⟩
        have heq : ∀ i < vs.vlen, (downBy vs m i).Same (downBy vs k i) := by
          intro i hi
          rcases htail with hk | hzero
          · rw [hsmall hk]
            exact .refl _
          · by_cases hk : k ≤ vs.vlen
            · rw [hsmall hk]
              exact .refl _
            · rw [downBy, downBy, if_neg (by omega : ¬ i + k < vs.vlen)]
              split
              case isTrue hlt => exact hzero _ hlt (by omega)
              case isFalse => exact .refl _
        obtain ⟨vd₁, hvd₁, -, hslid₁⟩ := slide1down_spec conv hstart hv ht hslide hpos x
        obtain ⟨vd₂, hvd₂, -, hslid₂⟩ := slide1up_spec conv hstart hv ht hslide hpos x
        refine ⟨(yields_iff hresult).mpr ⟨vd, hvd, hslid.congr heq⟩,
          (yields_iff (result_vslide1down _)).mpr ⟨vd₁, hvd₁, hslid₁⟩,
          (yields_iff (result_vslide1up _)).mpr ⟨vd₂, hvd₂, hslid₂⟩, fun hk => ?_⟩
        obtain ⟨vd₃, hvd₃, -, hslid₃⟩ := slideDownTimes_spec conv hstart hv ht hslide hpos k
        refine ⟨vd₃, vd, by rw [slideRepeatedly_eq, hvd₃], by rw [hresult, hvd]; rfl,
          hslid₃.type.trans hslid.type.symm, hslid₃.vlen.trans hslid.vlen.symm, fun i hi => ?_⟩
        rw [hslid.vlen] at hi
        obtain ⟨e, he, hsame⟩ := hslid₃.elements i hi
        have hother := elem_same hslid hi
        rw [hslid.type, hsmall hk] at hother
        exact ⟨e, by rw [hslid.type]; exact he, hsame.trans hother.symm⟩

/-- The numbers of half precision kept as their bits. -/
@[reducible] def bitConversions : FloatOps :=
  { FloatOps.zero with
    halfOfFloat := .setWidth 16
    floatOfHalf := .setWidth 32
    fp16IeeeToFp32Value := .setWidth 32
    fp16IeeeFromFp32Value := .setWidth 16 }

omit [FloatOps] in
theorem halfConversions_bits : letI := bitConversions; HalfConversions := by
  let _ := bitConversions
  refine ⟨fun x => .inl ?_, rfl, rfl, rfl⟩
  change ((((x.setWidth 32).setWidth 16).setWidth 32).setWidth 16 : BitVec 16) = x
  simp

omit [FloatOps] in
theorem slideLaws_counting : letI := bitConversions
    SlideLaws {} counting .vi 9 3 :=
  let _ := bitConversions
  (slideLaws_iff halfConversions_bits rfl builtFor_counting (by decide) (.inr rfl) 9 3).mpr
    ⟨by decide, by decide, by decide, by decide, .inl (by decide)⟩

omit [FloatOps] in
/-- A vector of words is not to be moved by more than its length. -/
theorem not_slideLaws_counting : letI := bitConversions
    BuiltFor {} counting ∧ ¬ SlideLaws {} counting .vi 9 9 := by
  let _ := bitConversions
  refine ⟨builtFor_counting, fun h => ?_⟩
  obtain ⟨vd, hvd, -⟩ := (yields_iff (result_slidedown_ofNat (.inr rfl))).mp h.down
  obtain ⟨f, hf⟩ := slidedown_error (d := BitVec.ofNat 32 9) rfl builtFor_counting (by decide)
    (by decide) (by decide)
  cases hvd.symm.trans hf

end Operands

end NdpSim
