import NdpSim.Isa.Results

/-!
# Compress

`VCOMPRESS.vm` packs the elements a mask selects. Its two loops are one sequence of writes to
the positions from `vstart` on. They move words whatever the element type is.
-/
namespace NdpSim

open Library

namespace VectorData

/-- The lanes a mask selects from `vstart` on, in order. -/
def selected (vstart : Int) (vs1 mask : VectorData) : List Nat :=
  (List.range vs1.vlen).filter fun i => decide (vstart ≤ i) && mask.maskBit i

/-- `vd` holds the selected elements of `vs1` from `vstart` on, and zeros everywhere else. -/
structure Compressed [FloatOps] (vstart : Int) (vs1 mask vd : VectorData) : Prop where
  type : vd.type = vs1.type
  vlen : vd.vlen = vs1.vlen
  packed : ∀ k i j : Nat, (selected vstart vs1 mask)[k]? = some i → (j : Int) = vstart + (k : Int) →
    vd.get vs1.type j = vs1.get vs1.type i
  rest : ∀ j < vd.vlen, (j : Int) < vstart ∨
    vstart + ((selected vstart vs1 mask).length : Int) ≤ (j : Int) →
    vd.get vs1.type j = .ok (zeroElem vs1.type)

/-- The writes that pack the lanes `is` from position `j` on. -/
def packing (vs1 : VectorData) (j : Nat) : List Nat → List (Nat × Elem)
  | [] => []
  | i :: is => (j, .int (vs1.data[i]?.getD 0)) :: packing vs1 (j + 1) is

/-- The writes that clear `n` positions from `j` on. -/
def clearing (j n : Nat) : List (Nat × Elem) := (List.range' j n).map fun j => (j, .int 0)

theorem map_fst_packing (vs1 : VectorData) (j : Nat) (is : List Nat) :
    (packing vs1 j is).map Prod.fst = List.range' j is.length := by
  induction is generalizing j with
  | nil => rfl
  | cons i is ih => rw [packing, List.map_cons, ih, List.length_cons, List.range'_succ]

theorem mem_packing {vs1 : VectorData} {j k i : Nat} {is : List Nat} (h : is[k]? = some i) :
    (j + k, Elem.int (vs1.data[i]?.getD 0)) ∈ packing vs1 j is := by
  induction is generalizing j k with
  | nil => cases h
  | cons i' is ih =>
    cases k with
    | zero =>
      obtain rfl := Option.some.inj h
      exact List.mem_cons_self
    | succ k =>
      have hk := ih (j := j + 1) (k := k) h
      rw [Nat.add_right_comm, Nat.add_assoc] at hk
      exact List.mem_cons_of_mem _ hk

theorem type_of_mem_packing {vs1 : VectorData} {j : Nat} {is : List Nat} {p : Nat × Elem}
    (h : p ∈ packing vs1 j is) : p.2.type = .int32 := by
  induction is generalizing j with
  | nil => cases h
  | cons i is ih =>
    obtain rfl | h := List.mem_cons.mp h
    · rfl
    · exact ih h

/-- One iteration of the first loop. -/
def packStep (vs1 mask : VectorData) :
    VectorData × Int → Nat → Except Fault (VectorData × Int) := fun (vd, j) i => do
  if ← mask.getVmaskData i then
    return (← vd.setInt (← vs1.getIntData i) (← index j), j + 1)
  else return (vd, j)

theorem packStep_of_selected {vs1 mask vd : VectorData} {i j : Nat}
    (hmask : mask.getVmaskData i = .ok true) (hread : i < vs1.data.length) :
    packStep vs1 mask (vd, (j : Int)) i =
      (fun vd' => (vd', ((j + 1 : Nat) : Int))) <$> vd.setInt (vs1.data[i]?.getD 0) j := by
  have hword : vs1.getIntData i = .ok (vs1.data[i]?.getD 0) := by
    simp [getIntData, word, List.getElem?_eq_getElem hread]
  have hindex : index (j : Int) = .ok j := by simp [index]
  generalize vs1.data[i]?.getD 0 = w at hword ⊢
  simp only [packStep, hmask, hword, hindex]
  change (vd.setInt w j >>= fun v => .ok (v, (j : Int) + 1)) = _
  cases vd.setInt w j <;> rfl

variable [FloatOps]

/-- The first loop writes the selected lanes and counts them. -/
theorem packLoop_eq {vs1 mask : VectorData} {is : List Nat}
    (hmask : ∀ i ∈ is, mask.getVmaskData i = .ok (mask.maskBit i))
    (hread : ∀ i ∈ is, i < vs1.data.length) (vd : VectorData) (j : Nat) :
    is.foldlM (packStep vs1 mask) (vd, (j : Int)) =
    (fun vd' => (vd', (j : Int) + ((is.filter mask.maskBit).length : Int))) <$>
      vd.setAll (packing vs1 j (is.filter mask.maskBit)) := by
  induction is generalizing vd j with
  | nil => simp [setAll, packing, Pure.pure, Except.pure, Functor.map, Except.map]
  | cons i is ih =>
    have ih := ih (fun i hi => hmask i (List.mem_cons_of_mem _ hi))
      (fun i hi => hread i (List.mem_cons_of_mem _ hi))
    have hbit := hmask i List.mem_cons_self
    rw [List.foldlM_cons]
    cases h : mask.maskBit i with
    | false =>
      rw [h] at hbit
      have hstep : packStep vs1 mask (vd, (j : Int)) i = .ok (vd, (j : Int)) := by
        simp only [packStep, hbit]
        rfl
      rw [hstep, List.filter_cons_of_neg (by simp [h])]
      exact ih vd j
    | true =>
      rw [h] at hbit
      rw [packStep_of_selected hbit (hread i List.mem_cons_self), List.filter_cons_of_pos h,
        packing, setAll, List.foldlM_cons]
      simp only [setData]
      cases vd.setInt (vs1.data[i]?.getD 0) j with
      | error f => rfl
      | ok vd₁ =>
        have hcount : ((j + 1 : Nat) : Int) + ((is.filter mask.maskBit).length : Int) =
            (j : Int) + ((i :: is.filter mask.maskBit).length : Int) := by
          rw [List.length_cons]
          omega
        have hnext := ih vd₁ (j + 1)
        rw [hcount] at hnext
        exact hnext

omit [FloatOps] in
theorem selected_eq {vs1 mask : VectorData} {s : Nat} (hle : s ≤ vs1.vlen) :
    selected s vs1 mask = (List.range' s (vs1.vlen - s)).filter mask.maskBit := by
  obtain ⟨d, hd⟩ := Nat.exists_eq_add_of_le hle
  rw [selected, hd, List.range_eq_range', ← List.range'_append_1, List.filter_append,
    Nat.add_sub_cancel_left, Nat.zero_add]
  have hbelow : (List.range' 0 s).filter
      (fun i : Nat => decide ((s : Int) ≤ (i : Int)) && mask.maskBit i) = [] := by
    refine List.filter_eq_nil_iff.mpr fun i hi => ?_
    rw [List.mem_range'_1] at hi
    have hlt : ¬ (s : Int) ≤ (i : Int) := by omega
    simp [hlt]
  rw [hbelow, List.nil_append]
  refine List.filter_congr fun i hi => ?_
  have hge : (s : Int) ≤ (i : Int) := by
    have := (List.mem_range'_1.mp hi).1
    omega
  simp [hge]

/-- Both loops in one. -/
theorem compressed_eq {c : CSR} {vs1 mask : VectorData} {s : Nat} (hs : c.vstart = (s : Int))
    (hvlen : vs1.vlen = (ofContext c).vlen) (hle : s ≤ vs1.vlen)
    (hmask : ∀ i < vs1.vlen, mask.getVmaskData i = .ok (mask.maskBit i))
    (hread : ∀ i < vs1.vlen, i < vs1.data.length) :
    compressed c vs1 mask = (ofContext c).setAll
      (packing vs1 s (selected s vs1 mask) ++
        clearing (s + (selected s vs1 mask).length)
          (vs1.vlen - (s + (selected s vs1 mask).length))) := by
  have hlanes : lanes c.vstart vs1.vlen = List.range' s (vs1.vlen - s) := by
    rw [lanes, if_neg (by omega), hs, Int.toNat_natCast]
  have hmem : ∀ i ∈ List.range' s (vs1.vlen - s), i < vs1.vlen := by
    intro i hi
    rw [List.mem_range'_1] at hi
    omega
  have hloop := packLoop_eq (fun i hi => hmask i (hmem i hi)) (fun i hi => hread i (hmem i hi))
    (ofContext c) s
  rw [← selected_eq hle] at hloop
  rw [setAll, List.foldlM_append]
  change (List.foldlM (packStep vs1 mask) (ofContext c, c.vstart) (lanes c.vstart vs1.vlen) >>=
    fun p => p.1.setLanes (lanes p.2 p.1.vlen) fun _ => .ok (some (.int 0))) =
      (ofContext c).setAll (packing vs1 s (selected s vs1 mask)) >>= _
  rw [hlanes, hs, hloop]
  cases hall : (ofContext c).setAll (packing vs1 s (selected s vs1 mask)) with
  | error f => rfl
  | ok vd =>
    have hlen : vd.vlen = vs1.vlen := (shape_of_setAll hall).vlen.trans hvlen.symm
    have hnext : (s : Int) + ((selected s vs1 mask).length : Int) =
        ((s + (selected s vs1 mask).length : Nat) : Int) := rfl
    change vd.setLanes (lanes ((s : Int) + ((selected s vs1 mask).length : Int)) vd.vlen)
      (fun _ => .ok (some (.int 0))) = vd.setAll (clearing _ _)
    rw [hnext, hlen, lanes, if_neg (by omega), Int.toNat_natCast]
    exact setLanes_eq_setAll fun _ _ => rfl

omit [FloatOps] in
/-- The writes go to the positions from `vstart` on, one each. -/
theorem map_fst_writes {vs1 mask : VectorData} {s : Nat} :
    ((packing vs1 s (selected s vs1 mask) ++
      clearing (s + (selected s vs1 mask).length)
        (vs1.vlen - (s + (selected s vs1 mask).length))).map Prod.fst) =
      List.range' s ((selected s vs1 mask).length +
        (vs1.vlen - (s + (selected s vs1 mask).length))) := by
  rw [List.map_append, map_fst_packing, clearing, List.map_map]
  have hid : (List.range' (s + (selected s vs1 mask).length)
      (vs1.vlen - (s + (selected s vs1 mask).length))).map
      (Prod.fst ∘ fun j => (j, Elem.int 0)) = List.range' (s + (selected s vs1 mask).length)
      (vs1.vlen - (s + (selected s vs1 mask).length)) := List.map_id _
  rw [hid, List.range'_append_1]

omit [FloatOps] in
theorem length_selected_le {vs1 mask : VectorData} {s : Nat} (hle : s ≤ vs1.vlen) :
    s + (selected s vs1 mask).length ≤ vs1.vlen := by
  rw [selected_eq hle]
  have hfilter := List.length_filter_le mask.maskBit (List.range' s (vs1.vlen - s))
  rw [List.length_range'] at hfilter
  omega

/-- The elements of a vector of words. -/
theorem get_word {v : VectorData} {i : Nat} (hi : i < v.data.length) :
    v.get .int32 i = .ok (.int (v.data[i]?.getD 0)) := by
  have hw := List.getElem?_eq_getElem hi
  simp only [get, getIntData, word, hw]
  rfl

theorem compressed_words {c : CSR} {vs1 mask : VectorData} (hv : BuiltFor c vs1)
    (ht : vs1.type = .int32) (hsew : c.vtypeVsew = .e32) (hm : BuiltFor c mask) {s : Nat}
    (hs : c.vstart = (s : Int)) (hlt : s < vs1.vlen) :
    ∃ vd, compressed c vs1 mask = .ok vd ∧ Compressed s vs1 mask vd := by
  have hbits := hv.bits_le
  rw [hsew] at hbits
  simp only [Vsew.bits] at hbits
  have hread : ∀ i < vs1.vlen, i < vs1.data.length := fun i hi => by omega
  have hmask : ∀ i < vs1.vlen, mask.getVmaskData i = .ok (mask.maskBit i) := by
    intro i hi
    rw [hv.vlen, ← hm.vlen] at hi
    exact hm.getVmaskData hi
  have hcount : s + (selected s vs1 mask).length ≤ vs1.vlen := length_selected_le hlt.le
  rw [compressed_eq hs hv.vlen hlt.le hmask hread]
  set ps := packing vs1 s (selected s vs1 mask) ++ clearing (s + (selected s vs1 mask).length)
    (vs1.vlen - (s + (selected s vs1 mask).length)) with hps
  have hfst : ps.map Prod.fst = List.range' s (vs1.vlen - s) := by
    rw [hps, map_fst_writes]
    congr 1
    omega
  have hmem : ∀ p ∈ ps, s ≤ p.1 ∧ p.1 < vs1.vlen := by
    intro p hp
    have h := List.mem_map_of_mem (f := Prod.fst) hp
    rw [hfst, List.mem_range'_1] at h
    omega
  have hroom' : ∀ j < vs1.vlen, (ofContext c).Room .int32 j := by
    intro j hj
    have hw := hread j hj
    rw [hv.vlen] at hj
    rw [hv.words] at hw
    exact (if_neg (by decide)).mpr ⟨by simpa [perWord] using hj, by simpa [perWord] using hw⟩
  have hroom : ∀ p ∈ ps, (ofContext c).Room .int32 p.1 := fun p hp => hroom' p.1 (hmem p hp).2
  have htype : ∀ p ∈ ps, p.2.type = .int32 := by
    intro p hp
    rcases List.mem_append.mp hp with hp | hp
    · exact type_of_mem_packing hp
    · obtain ⟨j, -, rfl⟩ := List.mem_map.mp hp
      rfl
  obtain ⟨vd, hvd, hall⟩ := setAll_spec hroom htype (by rw [hfst]; exact List.nodup_range')
  have hlen : vd.vlen = vs1.vlen := hall.shape.vlen.trans hv.vlen.symm
  refine ⟨vd, hvd, ?_, hlen, fun k i j hk hj => ?_, fun j hj hpos => ?_⟩
  · have hne : ps ≠ [] := by
      intro hnil
      rw [hnil] at hfst
      have := congrArg List.length hfst
      rw [List.length_range'] at this
      simp only [List.map_nil, List.length_nil] at this
      omega
    rw [hall.type, if_neg hne, ht]
  · obtain rfl : j = s + k := by omega
    have hi : i < vs1.vlen :=
      List.mem_range.mp (List.mem_filter.mp (List.mem_of_getElem? hk)).1
    rw [ht, get_word (hread i hi)]
    exact hall.inside _ (List.mem_append_left _ (mem_packing hk))
  · rw [ht]
    rcases hpos with hbelow | habove
    · have hout : j ∉ ps.map Prod.fst := by
        rw [hfst, List.mem_range'_1]
        omega
      rw [hall.outside j hout]
      exact get_ofContext (t := .int32) (by decide) (fun h => by cases h) (hroom' j (by omega))
    · have hin : (j, Elem.int 0) ∈ clearing (s + (selected s vs1 mask).length)
          (vs1.vlen - (s + (selected s vs1 mask).length)) :=
        List.mem_map.mpr ⟨j, List.mem_range'_1.mpr (by omega), rfl⟩
      exact hall.inside _ (List.mem_append_right _ hin)

theorem type_of_setInt {vd vd' : VectorData} {w : BitVec 32} {i : Nat}
    (h : vd.setInt w i = .ok vd') : vd'.type = .int32 :=
  (setAt_of_setData (e := .int w) h).2.type

/-- The result holds words or nothing. -/
theorem type_of_compressed {c : CSR} {vs1 mask vd : VectorData}
    (h : compressed c vs1 mask = .ok vd) : vd.type = .int32 ∨ vd.type = .maxDataType := by
  obtain ⟨⟨vd₁, j⟩, hpack, hclear⟩ := bind_eq_ok.mp h
  have hfirst : vd₁.type = .int32 ∨ vd₁.type = .maxDataType := by
    refine foldlM_invariant (P := fun p : VectorData × Int =>
      p.1.type = .int32 ∨ p.1.type = .maxDataType) (fun p i p' hp hinv => ?_) hpack (.inr rfl)
    obtain ⟨bit, -, hp⟩ := bind_eq_ok.mp hp
    split at hp
    · obtain ⟨w, -, hp⟩ := bind_eq_ok.mp hp
      obtain ⟨k, -, hp⟩ := bind_eq_ok.mp hp
      obtain ⟨v, hset, hp⟩ := bind_eq_ok.mp hp
      obtain rfl := Except.ok.inj hp
      exact .inl (type_of_setInt hset)
    · obtain rfl := Except.ok.inj hp
      exact hinv
  change (lanes j vd₁.vlen).foldlM (fun v i => v.setInt 0 i) vd₁ = .ok vd at hclear
  refine foldlM_invariant (P := fun v => v.type = .int32 ∨ v.type = .maxDataType)
    (fun v i v' hv _ => .inl (type_of_setInt hv)) hclear hfirst

/-- Without a lane to visit the result is an empty vector. -/
theorem compressed_of_outside {c : CSR} {vs1 mask : VectorData}
    (hvlen : vs1.vlen = (ofContext c).vlen) (h : ¬ (0 ≤ c.vstart ∧ c.vstart < vs1.vlen)) :
    compressed c vs1 mask = .ok (ofContext c) := by
  have hnil : lanes c.vstart vs1.vlen = [] := by
    rw [lanes]
    split
    · rfl
    · rw [List.range'_eq_nil_iff]
      omega
  have hnil' : lanes c.vstart (ofContext c).vlen = [] := hvlen ▸ hnil
  simp only [compressed, hnil, List.foldlM_nil]
  change (ofContext c).setLanes (lanes c.vstart (ofContext c).vlen) _ = _
  rw [hnil']
  rfl

end VectorData

namespace Operands

open VectorData Slot

variable [FloatOps]

theorem result_vcompress (o : Operands) :
    o.result .vcompress .vm = some <$> compressed o.csr (o.v (src 0)) (o.v (src 1)) := by
  refine result_of_run (k := executeVcompress .vm) rfl rfl nofun rfl ?_
  simp only [executeVcompress, run_csr_bind, run_readV_bind, run_liftM_bind]
  rfl

/-- `VCOMPRESS.vm` packs vectors of 32-bit integers, as long as there is a lane at `vstart`; other
elements are moved as if they were words, and labelled so. -/
theorem compress_iff (o : Operands) (hv : BuiltFor o.csr (o.v (src 0)))
    (ht : (o.v (src 0)).type ∈ elementTypes o.csr.vtypeVsew)
    (hm : BuiltFor o.csr (o.v (src 1))) :
    o.Yields .vcompress .vm (Compressed o.csr.vstart (o.v (src 0)) (o.v (src 1))) ↔
      (o.v (src 0)).type = .int32 ∧ 0 ≤ o.csr.vstart ∧ o.csr.vstart < (o.v (src 0)).vlen := by
  rw [yields_iff (result_vcompress o)]
  constructor
  · rintro ⟨vd, hvd, hspec⟩
    have hmax : vd.type ≠ .maxDataType := by
      rw [hspec.type]
      exact (elementTypes_ne ht).2
    refine ⟨?_, ?_⟩
    · rw [← hspec.type]
      exact (type_of_compressed hvd).resolve_right hmax
    · by_contra hout
      rw [compressed_of_outside hv.vlen hout] at hvd
      obtain rfl := Except.ok.inj hvd
      exact hmax rfl
  · rintro ⟨hint, hpos, hlt⟩
    obtain ⟨s, hs⟩ := Int.eq_ofNat_of_zero_le hpos
    have hsew : o.csr.vtypeVsew = .e32 := by
      rw [hint] at ht
      cases hsew : o.csr.vtypeVsew <;> rw [hsew] at ht <;> first | rfl | exact absurd ht (by decide)
    obtain ⟨vd, hvd, hspec⟩ := compressed_words hv hint hsew hm hs (by omega)
    rw [hs]
    exact ⟨vd, hvd, hspec⟩

/-- A vector of elements of type `t` and the mask that selects its even lanes. -/
def evenLanes (sew : Vsew) (t : DataType) : Operands where
  csr := { vtypeVsew := sew }
  v s :=
    if s = src 0 then (ofContext { vtypeVsew := sew }).setType t
    else { (ofContext { vtypeVsew := sew }).setType .vmask with
      data := (ofContext { vtypeVsew := sew }).data.set 0 0x55 }

omit [FloatOps] in
theorem compress_evenWords : letI := FloatOps.zero
    (evenLanes .e32 .int32).Yields .vcompress .vm (Compressed 0
      ((evenLanes .e32 .int32).v (src 0)) ((evenLanes .e32 .int32).v (src 1))) :=
  let _ := FloatOps.zero
  (compress_iff (evenLanes .e32 .int32) ⟨by decide, rfl, rfl, rfl⟩ (by decide)
    ⟨by decide, rfl, rfl, by decide⟩).mpr ⟨by decide, by decide, by decide⟩

omit [FloatOps] in
/-- Half words are labelled as words. -/
theorem not_compress_evenHalfWords : letI := FloatOps.zero
    BuiltFor (evenLanes .e16 .int16).csr ((evenLanes .e16 .int16).v (src 0)) ∧
    ¬ (evenLanes .e16 .int16).Yields .vcompress .vm (Compressed 0
      ((evenLanes .e16 .int16).v (src 0)) ((evenLanes .e16 .int16).v (src 1))) := by
  let _ := FloatOps.zero
  refine ⟨⟨by decide, rfl, rfl, rfl⟩, ?_⟩
  rw [yields_iff (result_vcompress _)]
  rintro ⟨vd, hvd, hspec⟩
  have htype : vd.type = .int16 := hspec.type
  rcases type_of_compressed hvd with h | h <;> rw [htype] at h <;> cases h

end Operands

end NdpSim
