import NdpSim.Functional.PointerMap

/-!
# Regions of a pointer map

Which accesses stay in the region of their address, what a store followed by a load returns, and
when the comparison of two maps with the same regions ends.
-/
namespace NdpSim

open Library VectorData

namespace PointerMemoryMap

open MemoryInfo

/-- The bytes of an element in memory. -/
def width : DataType → Nat
  | .float32 | .int32 => 4
  | .float16 | .int16 => 2
  | .int64 => 8
  | _ => 1

/-- The types whose elements are loaded and stored. -/
def Transferable (t : DataType) : Prop := t ≠ .bool ∧ t ≠ .maxDataType

instance (t : DataType) : Decidable (Transferable t) := inferInstanceAs (Decidable (_ ∧ _))

/-- How many elements `Load` reads; a mask is loaded a byte long. -/
def loaded (t : DataType) : Nat := if t = .vmask then byteBit else packetSize / width t

/-- How many elements `Store` writes. -/
def written (data : VectorData) : Nat := if data.type = .vmask then byteBit else data.vlen

/-- The elements from an offset on are elements of the region. -/
def Within (info : MemoryInfo) (offset : BitVec 64) (count : Nat) : Prop :=
  ∀ i < count, laneIndex (width info.type) offset i < info.size.toNat / width info.type

instance (info : MemoryInfo) (offset : BitVec 64) (count : Nat) :
    Decidable (Within info offset count) :=
  inferInstanceAs (Decidable (∀ i < count, _))

/-- An element of a region. -/
def elementOf (info : MemoryInfo) (idx : Nat) : Elem :=
  match info.type with
  | .float32 => .float (Bytes.word 4 info.ptr idx)
  | .float16 => .half (Bytes.word 2 info.ptr idx)
  | .int64 => .long (Bytes.word 8 info.ptr idx)
  | .int32 => .int (Bytes.word 4 info.ptr idx)
  | .int16 => .short (Bytes.word 2 info.ptr idx)
  | .char8 => .char (Bytes.word 1 info.ptr idx)
  | .uint8 => .u8 (Bytes.word 1 info.ptr idx)
  | _ => .bool (Bytes.word 1 info.ptr idx ≠ 0)

/-- An address of a region. -/
def Contains (e : BitVec 64 × MemoryInfo) (addr : BitVec 64) : Prop :=
  e.1.toNat ≤ addr.toNat ∧ addr.toNat < e.1.toNat + e.2.size.toNat

/-- The regions have no address in common. -/
structure Disjoint (m : PointerMemoryMap) : Prop where
  keys : m.ptrMap.Pairwise fun e e' => e.1 < e'.1
  regions : m.ptrMap.Pairwise fun e e' => ∀ a, ¬ (Contains e a ∧ Contains e' a)

/-- The same regions with the same types. -/
def SameRegions (m other : PointerMemoryMap) : Prop :=
  List.Forall₂ (fun e e' => e.1 = e'.1 ∧ e.2.size = e'.2.size ∧ e.2.type = e'.2.type)
    m.ptrMap other.ptrMap

section Words

variable {info : MemoryInfo} {n idx : Nat}

theorem read_eq (hn : 0 < n) : info.read n idx =
    if idx < info.size.toNat / n then .ok (Bytes.word n info.ptr idx) else .error .outside := by
  rw [MemoryInfo.read, info.length_ptr]
  exact if_congr (Nat.le_div_iff_mul_le hn).symm rfl rfl

/-- A write within the region. -/
theorem write_spec (hn : 0 < n) (h : idx < info.size.toNat / n) (x : BitVec (8 * n)) :
    ∃ info', info.write n idx x = .ok info' ∧ info'.size = info.size ∧ info'.type = info.type ∧
      Bytes.word n info'.ptr idx = x ∧
      ∀ j ≠ idx, Bytes.word n info'.ptr j = Bytes.word n info.ptr j := by
  have hroom : (idx + 1) * n ≤ info.ptr.length := by
    rw [info.length_ptr]
    exact (Nat.le_div_iff_mul_le hn).mp h
  exact ⟨_, if_pos hroom, rfl, rfl, Bytes.word_setWord_self x hroom,
    fun j hj => Bytes.word_setWord_ne x hj⟩

theorem write_outside (hn : 0 < n) (h : ¬ idx < info.size.toNat / n) (x : BitVec (8 * n)) :
    info.write n idx x = .error .outside := by
  refine if_neg fun hroom => h ?_
  rw [info.length_ptr] at hroom
  exact (Nat.le_div_iff_mul_le hn).mpr hroom

/-- Different lanes are different elements. -/
theorem laneIndex_inj {offset : BitVec 64} {i j : Nat} (hi : i < 2 ^ 32) (hj : j < 2 ^ 32)
    (h : laneIndex n offset i = laneIndex n offset j) : i = j := by
  rw [laneIndex, laneIndex] at h
  omega

end Words

section Transfer

variable [FloatOps] {info : MemoryInfo} {offset : BitVec 64}

/-! ## The loops -/

section Loops

variable (info offset) {n : Nat} {t : DataType}

/-- The loop of a load, up to a lane. -/
theorem foldlM_load (hn : 0 < n) {elem : BitVec (8 * n) → Elem} (helem : ∀ x, (elem x).type = t)
    {v₀ : VectorData} {k : Nat} (hroom : ∀ i < k, v₀.Room t i) :
    if ∀ i < k, laneIndex n offset i < info.size.toNat / n then
      ∃ v, (List.range k).foldlM (fun data i => do
          let x ← info.read n (laneIndex n offset i)
          (data.setData (elem x) i).mapError .vector) v₀ = .ok v ∧
        FilledWith t v₀
          ((List.range k).map fun i => elem (Bytes.word n info.ptr (laneIndex n offset i))) v
    else (List.range k).foldlM (fun data i => do
      let x ← info.read n (laneIndex n offset i)
      (data.setData (elem x) i).mapError .vector) v₀ = .error .outside := by
  induction k with
  | zero =>
    rw [if_pos nofun]
    exact ⟨v₀, rfl, .nil⟩
  | succ k ih =>
    have hih := ih fun i hi => hroom i (by omega)
    rw [List.range_succ, List.foldlM_append, List.map_append]
    by_cases hall : ∀ i < k, laneIndex n offset i < info.size.toNat / n
    · rw [if_pos hall] at hih
      obtain ⟨v, hv, hfilled⟩ := hih
      rw [hv, ok_bind, List.foldlM_cons, read_eq hn]
      by_cases hk : laneIndex n offset k < info.size.toNat / n
      · have hlen : ((List.range k).map fun i =>
            elem (Bytes.word n info.ptr (laneIndex n offset i))).length = k := by simp
        obtain ⟨v', hset, hfilled'⟩ := hfilled.setData
          (helem (Bytes.word n info.ptr (laneIndex n offset k)))
          (by rw [hlen]; exact hroom k (by omega))
        rw [hlen] at hset
        rw [if_pos (Nat.forall_lt_succ_right.mpr ⟨hall, hk⟩), if_pos hk, ok_bind, hset]
        exact ⟨v', rfl, hfilled'⟩
      · rw [if_neg fun h => hk (h k (by omega)), if_neg hk]
        rfl
    · rw [if_neg hall] at hih
      rw [if_neg fun h => hall fun i hi => h i (by omega), hih]
      rfl

omit [FloatOps] in
/-- The loop of a load into a mask, up to a lane. -/
theorem foldlM_loadMask {v₀ : VectorData} (hwords : 0 < v₀.data.length)
    (hclear : ∀ i, v₀.maskBit i = false) {k : Nat} (hk : k ≤ byteBit) :
    if ∀ i < k, laneIndex 1 offset i < info.size.toNat / 1 then
      ∃ v, (List.range k).foldlM (fun data i => do
          let x ← info.read 1 (laneIndex 1 offset i)
          (data.setVmask (x ≠ 0) i).mapError .vector) v₀ = .ok v ∧
        SameShape v₀ v ∧ ∀ i, v.maskBit i =
          (decide (i < k) && decide (Bytes.word 1 info.ptr (laneIndex 1 offset i) ≠ 0))
    else (List.range k).foldlM (fun data i => do
      let x ← info.read 1 (laneIndex 1 offset i)
      (data.setVmask (x ≠ 0) i).mapError .vector) v₀ = .error .outside := by
  induction k with
  | zero =>
    rw [if_pos nofun]
    refine ⟨v₀, rfl, .refl v₀, fun i => ?_⟩
    rw [hclear, decide_eq_false (Nat.not_lt_zero i), Bool.false_and]
  | succ k ih =>
    have hih := ih (by omega)
    have hbyte : byteBit = 8 := rfl
    rw [List.range_succ, List.foldlM_append]
    by_cases hall : ∀ i < k, laneIndex 1 offset i < info.size.toNat / 1
    · rw [if_pos hall] at hih
      obtain ⟨v, hv, hshape, hbits⟩ := hih
      rw [hv, ok_bind, List.foldlM_cons, read_eq Nat.one_pos]
      by_cases hlast : laneIndex 1 offset k < info.size.toNat / 1
      · have hroom : k / unionDataSize < v.data.length := by
          rw [hshape.words, unionDataSize]
          omega
        have hbit : v.maskBit k = false := by
          rw [hbits, decide_eq_false (lt_irrefl k), Bool.false_and]
        obtain ⟨v', hset, -, hshape', hbits'⟩ := setVmask_spec hroom hbit
          (decide (Bytes.word 1 info.ptr (laneIndex 1 offset k) ≠ 0))
        rw [if_pos (Nat.forall_lt_succ_right.mpr ⟨hall, hlast⟩), if_pos hlast, ok_bind, hset]
        refine ⟨v', rfl, hshape.trans hshape', fun i => ?_⟩
        rw [hbits', hbits]
        by_cases hi : i = k
        · subst hi
          simp
        · have hiff : i < k + 1 ↔ i < k := by omega
          rw [decide_eq_false hi, Bool.false_and, Bool.or_false, decide_eq_decide.mpr hiff]
      · rw [if_neg fun h => hlast (h k (by omega)), if_neg hlast]
        rfl
    · rw [if_neg hall] at hih
      rw [if_neg fun h => hall fun i hi => h i (by omega), hih]
      rfl

omit [FloatOps] in
/-- The loop of a store, up to a lane. -/
theorem storeLanes_spec (hn : 0 < n) {get : Nat → Except Fault (BitVec (8 * n))}
    {x : Nat → BitVec (8 * n)} {k : Nat} (hget : ∀ i < k, get i = .ok (x i)) (hk : k ≤ 2 ^ 32) :
    if ∀ i < k, laneIndex n offset i < info.size.toNat / n then
      ∃ info', storeLanes info n k get offset = .ok info' ∧ info'.size = info.size ∧
        info'.type = info.type ∧ (∀ i < k, Bytes.word n info'.ptr (laneIndex n offset i) = x i) ∧
        ∀ j, (∀ i < k, laneIndex n offset i ≠ j) →
          Bytes.word n info'.ptr j = Bytes.word n info.ptr j
    else storeLanes info n k get offset = .error .outside := by
  induction k with
  | zero =>
    rw [if_pos nofun]
    exact ⟨info, rfl, rfl, rfl, nofun, fun _ _ => rfl⟩
  | succ k ih =>
    have hih := ih (fun i hi => hget i (by omega)) (by omega)
    rw [storeLanes, List.range_succ, List.foldlM_append]
    rw [storeLanes] at hih
    by_cases hall : ∀ i < k, laneIndex n offset i < info.size.toNat / n
    · rw [if_pos hall] at hih
      obtain ⟨info₁, hinfo₁, hsize, htype, hwords, hothers⟩ := hih
      rw [hinfo₁, ok_bind, List.foldlM_cons, hget k (by omega)]
      by_cases hlast : laneIndex n offset k < info.size.toNat / n
      · obtain ⟨info₂, hwrite, hsize', htype', hword, hothers'⟩ :=
          write_spec hn (hsize ▸ hlast) (x k)
        rw [if_pos (Nat.forall_lt_succ_right.mpr ⟨hall, hlast⟩)]
        refine ⟨info₂, ?_, hsize'.trans hsize, htype'.trans htype, ?_, fun j hj => ?_⟩
        · exact bind_eq_ok.mpr ⟨info₂, hwrite, rfl⟩
        · refine Nat.forall_lt_succ_right.mpr ⟨fun i hlt => ?_, hword⟩
          rw [hothers' _ fun h => absurd (laneIndex_inj (by omega) (by omega) h) (by omega)]
          exact hwords i hlt
        · rw [hothers' j (hj k (by omega)).symm]
          exact hothers j fun i hi => hj i (by omega)
      · rw [if_neg fun h => hlast (h k (by omega))]
        have hwrite := write_outside hn (hsize ▸ hlast) (x k)
        simp only [Except.mapError, ok_bind, hwrite]
        rfl
    · rw [if_neg hall] at hih
      rw [if_neg fun h => hall fun i hi => h i (by omega), hih]
      rfl

end Loops

/-! ## Elements -/

/-- An element of a vector, also of a mask. -/
def element (v : VectorData) (t : DataType) (i : Nat) : Except Fault Elem :=
  if t = .vmask then .bool <$> v.getVmaskData i else v.get t i

omit [FloatOps] in
theorem mask_eq_ok {v : VectorData} {i : Nat} {e : Elem}
    (h : Elem.bool <$> v.getVmaskData i = .ok e) : ∃ b, v.getVmaskData i = .ok b ∧ e = .bool b := by
  rw [map_eq_pure_bind] at h
  obtain ⟨b, hb, h⟩ := bind_eq_ok.mp h
  cases h
  exact ⟨b, hb, rfl⟩

/-- How the elements of a type other than a mask are laid out, with what `Load` and `Store` do. -/
structure Layout (t : DataType) where
  elem : BitVec (8 * width t) → Elem
  get : VectorData → Nat → Except Fault (BitVec (8 * width t))
  type_elem : ∀ x, (elem x).type = t
  get_eq : ∀ v i, v.get t i = elem <$> get v i
  room : ∀ i < packetSize / width t, (VectorData.default.setType t).Room t i
  elementOf_eq : ∀ info idx, info.type = t →
    elementOf info idx = elem (Bytes.word (width t) info.ptr idx)
  load : ∀ info offset, info.type = t →
    loadSwitch info offset = loadLanes info (width t) elem offset (VectorData.default.setType t)
  store : ∀ info data offset, info.type = t →
    storeSwitch info data offset = storeLanes info (width t) data.vlen (get data) offset

theorem exists_layout {t : DataType} (ht : Transferable t) (hmask : t ≠ .vmask) :
    Nonempty (Layout t) := by
  cases t with
  | bool => exact absurd rfl ht.1
  | maxDataType => exact absurd rfl ht.2
  | vmask => exact absurd rfl hmask
  | float32 =>
    exact ⟨⟨.float, getFloatData, fun _ => rfl, fun _ _ => rfl, by decide,
      fun info idx h => by rw [elementOf, h]; rfl, fun info offset h => by rw [loadSwitch, h]; rfl,
      fun info data offset h => by rw [storeSwitch, h]; rfl⟩⟩
  | float16 =>
    exact ⟨⟨.half, getHalfData, fun _ => rfl, fun _ _ => rfl, by decide,
      fun info idx h => by rw [elementOf, h]; rfl, fun info offset h => by rw [loadSwitch, h]; rfl,
      fun info data offset h => by rw [storeSwitch, h]; rfl⟩⟩
  | int64 =>
    exact ⟨⟨.long, getLongData, fun _ => rfl, fun _ _ => rfl, by decide,
      fun info idx h => by rw [elementOf, h]; rfl, fun info offset h => by rw [loadSwitch, h]; rfl,
      fun info data offset h => by rw [storeSwitch, h]; rfl⟩⟩
  | int32 =>
    exact ⟨⟨.int, getIntData, fun _ => rfl, fun _ _ => rfl, by decide,
      fun info idx h => by rw [elementOf, h]; rfl, fun info offset h => by rw [loadSwitch, h]; rfl,
      fun info data offset h => by rw [storeSwitch, h]; rfl⟩⟩
  | int16 =>
    exact ⟨⟨.short, getShortData, fun _ => rfl, fun _ _ => rfl, by decide,
      fun info idx h => by rw [elementOf, h]; rfl, fun info offset h => by rw [loadSwitch, h]; rfl,
      fun info data offset h => by rw [storeSwitch, h]; rfl⟩⟩
  | char8 =>
    exact ⟨⟨.char, getCharData, fun _ => rfl, fun _ _ => rfl, by decide,
      fun info idx h => by rw [elementOf, h]; rfl, fun info offset h => by rw [loadSwitch, h]; rfl,
      fun info data offset h => by rw [storeSwitch, h]; rfl⟩⟩
  | uint8 =>
    exact ⟨⟨.u8, getU8Data, fun _ => rfl, fun _ _ => rfl, by decide,
      fun info idx h => by rw [elementOf, h]; rfl, fun info offset h => by rw [loadSwitch, h]; rfl,
      fun info data offset h => by rw [storeSwitch, h]; rfl⟩⟩

/-! ## Single accesses -/

theorem get_setVlen (v : VectorData) (t : DataType) (n i : Nat) :
    (v.setVlen n).get t i = v.get t i := by
  cases t <;> rfl

/-- What a load of a region returns. -/
theorem loadSwitch_spec (info : MemoryInfo) (offset : BitVec 64) (ht : Transferable info.type) :
    if Within info offset (loaded info.type) then
      ∃ v, loadSwitch info offset = .ok v ∧ (∀ i < loaded info.type, element v info.type i =
          .ok (elementOf info (laneIndex (width info.type) offset i)).stored) ∧
        (info.type = .vmask → ∀ i, byteBit ≤ i → i < packetSize → v.getVmaskData i = .ok false)
    else loadSwitch info offset = .error .outside := by
  by_cases hmask : info.type = .vmask
  · have hclear : ∀ i, (VectorData.default.setType info.type).maskBit i = false := fun i => by
      have hword : ∀ w : Nat, (VectorData.default.setType info.type).data[w]?.getD 0 = 0#32 := by
        intro w
        rw [VectorData.setType, VectorData.default]
        dsimp only
        rw [List.getElem?_replicate]
        split <;> rfl
      rw [maskBit, hword, BitVec.getLsbD_zero]
    have hwords : 0 < (VectorData.default.setType info.type).data.length :=
      (by decide : 0 < VectorData.default.data.length)
    have hloop := foldlM_loadMask info offset hwords hclear le_rfl
    have hswitch : loadSwitch info offset =
        loadMask info offset (VectorData.default.setType info.type) := by
      rw [loadSwitch, hmask]
    have hin : Within info offset (loaded info.type) ↔
        ∀ i < byteBit, laneIndex 1 offset i < info.size.toNat / 1 := by
      rw [Within, loaded, hmask]
      rfl
    rw [hswitch, loadMask]
    by_cases hall : ∀ i < byteBit, laneIndex 1 offset i < info.size.toNat / 1
    · rw [if_pos hall] at hloop
      obtain ⟨v, hv, hshape, hbits⟩ := hloop
      have hget : ∀ i < packetSize, (v.setVlen byteBit).getVmaskData i = .ok (v.maskBit i) := by
        intro i hi
        have hwords : i / unionDataSize < v.data.length := by
          have hlen : v.data.length = 8 := hshape.words
          rw [packetSize] at hi
          rw [hlen, unionDataSize]
          omega
        exact getVmaskData_eq hwords
      rw [if_pos (hin.mpr hall)]
      refine ⟨v.setVlen byteBit, ?_, fun i hi => ?_, fun _ i hle hlt => ?_⟩
      · rw [hv]
        rfl
      · have hi' : i < byteBit := by rwa [loaded, if_pos hmask] at hi
        rw [element, if_pos hmask, hget i (hi'.trans_le (by decide)), hbits, decide_eq_true hi',
          Bool.true_and, elementOf, hmask]
        rfl
      · rw [hget i hlt, hbits, decide_eq_false (not_lt.mpr hle), Bool.false_and]
    · rw [if_neg hall] at hloop
      rw [if_neg fun h => hall (hin.mp h), hloop]
      rfl
  · obtain ⟨layout⟩ := exists_layout ht hmask
    have hloaded : loaded info.type = packetSize / width info.type := if_neg hmask
    have hwidth : 0 < width info.type := by cases info.type <;> decide
    have hloop := foldlM_load info offset hwidth layout.type_elem layout.room
    rw [layout.load info offset rfl, loadLanes, hloaded]
    by_cases hin : Within info offset (packetSize / width info.type)
    · rw [if_pos hin]
      obtain ⟨v, hv, hfilled⟩ := (if_pos hin).mp hloop
      refine ⟨v.setVlen (packetSize / width info.type), ?_, fun i hi => ?_,
        fun h => absurd h hmask⟩
      · rw [hv]
        rfl
      · rw [element, if_neg hmask, get_setVlen, layout.elementOf_eq info _ rfl]
        refine hfilled.get i _ ?_
        rw [List.getElem?_map, List.getElem?_range hi]
        rfl
    · rw [if_neg hin]
      rw [Within] at hin
      rw [if_neg hin] at hloop
      rw [hloop]
      rfl

/-- A vector with the words of a packet, and with as many elements as its length says. -/
structure Complete (data : VectorData) : Prop where
  words : packetEntries ≤ data.data.length
  vlen : data.vlen < 2 ^ 32
  elements : Transferable data.type → ∀ i < data.vlen, ∃ e, element data data.type i = .ok e

/-- What a store leaves in a region. -/
theorem storeSwitch_spec (info : MemoryInfo) (offset : BitVec 64) (ht : Transferable info.type)
    {data : VectorData} (hdata : Complete data) (htype : info.type = data.type) :
    if Within info offset (written data) then
      ∃ info', storeSwitch info data offset = .ok info' ∧ info'.size = info.size ∧
        info'.type = info.type ∧ ∀ i < written data, element data data.type i =
          .ok (elementOf info' (laneIndex (width info.type) offset i))
    else storeSwitch info data offset = .error .outside := by
  by_cases hmask : info.type = .vmask
  · have hmask' : data.type = .vmask := htype.symm.trans hmask
    have hbit : ∀ i < byteBit, data.getVmaskData i = .ok (data.maskBit i) := by
      intro i hi
      have hlt : i / unionDataSize < data.data.length := by
        have hwords := hdata.words
        rw [packetEntries, packetSize] at hwords
        rw [byteBit] at hi
        rw [unionDataSize]
        omega
      exact getVmaskData_eq hlt
    have hget : ∀ i < byteBit,
        maskByte data i = .ok ((BitVec.ofBool (data.maskBit i)).setWidth 8) := by
      intro i hi
      rw [maskByte, hbit i hi]
      rfl
    have hloop := storeLanes_spec info offset Nat.one_pos hget (by decide)
    have hswitch : storeSwitch info data offset =
        storeLanes info 1 byteBit (maskByte data) offset := by
      rw [storeSwitch, hmask]
    have hwritten : written data = byteBit := if_pos hmask'
    have hin : Within info offset byteBit ↔
        ∀ i < byteBit, laneIndex 1 offset i < info.size.toNat / 1 := by
      rw [Within, hmask]
      rfl
    rw [hswitch, hwritten]
    by_cases hall : ∀ i < byteBit, laneIndex 1 offset i < info.size.toNat / 1
    · rw [if_pos hall] at hloop
      obtain ⟨info', hinfo', hsize, htype', hwords, -⟩ := hloop
      rw [if_pos (hin.mpr hall)]
      refine ⟨info', hinfo', hsize, htype', fun i hi => ?_⟩
      rw [element, if_pos hmask', hbit i hi, elementOf, htype'.trans hmask, hmask]
      dsimp only
      have hword : Bytes.word 1 info'.ptr (laneIndex 1 offset i) =
          (BitVec.ofBool (data.maskBit i)).setWidth 8 := hwords i hi
      have hwidth : width .vmask = 1 := rfl
      rw [hwidth, hword]
      cases data.maskBit i <;> rfl
    · rw [if_neg hall] at hloop
      rw [if_neg fun h => hall (hin.mp h), hloop]
  · have hmask' : data.type ≠ .vmask := htype ▸ hmask
    obtain ⟨layout⟩ := exists_layout ht hmask
    have hwidth : 0 < width info.type := by cases info.type <;> decide
    have hwritten : written data = data.vlen := if_neg hmask'
    have hget : ∀ i < data.vlen, ∃ x, layout.get data i = .ok x := by
      intro i hi
      obtain ⟨e, he⟩ := hdata.elements (htype ▸ ht) i hi
      rw [element, if_neg hmask', ← htype, layout.get_eq] at he
      cases hx : layout.get data i with
      | ok x => exact ⟨x, rfl⟩
      | error f =>
        rw [hx] at he
        cases he
    choose! x hx using hget
    have hloop := storeLanes_spec info offset hwidth hx hdata.vlen.le
    rw [layout.store info data offset rfl, hwritten]
    by_cases hin : Within info offset data.vlen
    · rw [if_pos hin]
      obtain ⟨info', hinfo', hsize, htype', hwords, -⟩ := (if_pos hin).mp hloop
      refine ⟨info', hinfo', hsize, htype', fun i hi => ?_⟩
      rw [element, if_neg hmask', ← htype, layout.get_eq, hx i hi,
        layout.elementOf_eq info' _ htype', hwords i hi]
      rfl
    · rw [if_neg hin]
      rw [Within] at hin
      rwa [if_neg hin] at hloop

/-! ## Finding a region -/

section Regions

variable {m : PointerMemoryMap} {base addr : BitVec 64}

omit [FloatOps] in
theorem contains_of_find {e : BitVec 64 × MemoryInfo} {a : BitVec 64}
    (h : (e.1 ≤ a && a < e.1 + e.2.size) = true) : Contains e a := by
  rw [Bool.and_eq_true, decide_eq_true_eq, decide_eq_true_eq, BitVec.le_def, BitVec.lt_def,
    BitVec.toNat_add] at h
  exact ⟨h.1, h.2.trans_le (Nat.mod_le _ _)⟩

omit [FloatOps] in
/-- The region of an address that is accepted. -/
theorem getBaseAddr_eq (hm : m.Disjoint) (hmem : (base, info) ∈ m.ptrMap)
    (hin : Contains (base, info) addr) (hacc : m.checkAddr addr = true) :
    m.getBaseAddr addr = base := by
  rw [checkAddr, bne_iff_ne] at hacc
  rw [getBaseAddr] at hacc ⊢
  split at hacc
  case h_2 => exact absurd rfl hacc
  case h_1 e he =>
    by_contra hne
    have _ : Std.Symm fun e e' : BitVec 64 × MemoryInfo =>
        ∀ a, ¬ (Contains e a ∧ Contains e' a) := ⟨fun e e' h a ha => h a ⟨ha.2, ha.1⟩⟩
    have hdisjoint := hm.regions.forall (List.mem_of_find?_eq_some he) hmem fun heq =>
      hne (congrArg Prod.fst heq)
    have hfound : (e.1 ≤ addr && addr < e.1 + e.2.size) = true := by
      simpa using List.find?_some he
    exact hdisjoint addr ⟨contains_of_find hfound, hin⟩

omit [FloatOps] in
theorem lookup_eq {l : List (BitVec 64 × MemoryInfo)} (hl : l.Pairwise fun e e' => e.1 < e'.1)
    (hmem : (base, info) ∈ l) : l.lookup base = some info := by
  induction l with
  | nil => cases hmem
  | cons e l ih =>
    obtain ⟨hfirst, hl⟩ := List.pairwise_cons.mp hl
    obtain rfl | hmem := List.mem_cons.mp hmem
    · exact List.lookup_cons_self
    · have hne : base ≠ e.1 := fun h => absurd (hfirst _ hmem) (h ▸ BitVec.lt_irrefl _)
      rw [List.lookup_cons, beq_eq_false_iff_ne.mpr hne]
      exact ih hl hmem

omit [FloatOps] in
theorem entry_eq (hm : m.Disjoint) (hmem : (base, info) ∈ m.ptrMap) :
    m.entry base = (info, m) := by
  rw [entry, lookup_eq hm.keys hmem]

omit [FloatOps] in
theorem entry_set (m : PointerMemoryMap) (base : BitVec 64) (info : MemoryInfo) :
    ((m.set base info).entry base).1 = info := by
  have hlookup (l : List (BitVec 64 × MemoryInfo)) :
      (insert base info l).lookup base = some info := by
    induction l with
    | nil => exact List.lookup_cons_self
    | cons e l ih =>
      rw [insert]
      split_ifs with hlt heq
      · exact List.lookup_cons_self
      · exact List.lookup_cons_self
      · rw [List.lookup_cons, beq_eq_false_iff_ne.mpr heq]
        exact ih
  rw [entry, set]
  dsimp only
  rw [hlookup]

omit [FloatOps] in
/-- A region with new contents is found at the same addresses. -/
theorem getBaseAddr_set (hm : m.Disjoint) (hmem : (base, info) ∈ m.ptrMap) {info' : MemoryInfo}
    (hsize : info'.size = info.size) (addr : BitVec 64) :
    (m.set base info').getBaseAddr addr = m.getBaseAddr addr := by
  have hfind {l : List (BitVec 64 × MemoryInfo)} (hl : l.Pairwise fun e e' => e.1 < e'.1)
      (hmem : (base, info) ∈ l) :
      ((insert base info' l).find? fun e => e.1 ≤ addr && addr < e.1 + e.2.size).map Prod.fst =
        (l.find? fun e => e.1 ≤ addr && addr < e.1 + e.2.size).map Prod.fst := by
    induction l with
    | nil => cases hmem
    | cons e l ih =>
      obtain ⟨hfirst, hl⟩ := List.pairwise_cons.mp hl
      obtain rfl | hmem := List.mem_cons.mp hmem
      · rw [insert, if_neg (BitVec.lt_irrefl _), if_pos rfl, List.find?_cons, List.find?_cons]
        dsimp only
        rw [hsize]
        cases decide (base ≤ addr) && decide (addr < base + info.size) <;> rfl
      · have hlt : e.1 < base := hfirst _ hmem
        rw [insert, if_neg (BitVec.lt_asymm hlt), if_neg (BitVec.ne_of_lt hlt).symm,
          List.find?_cons, List.find?_cons]
        split
        · rfl
        · exact ih hl hmem
  have hbase (m : PointerMemoryMap) : m.getBaseAddr addr =
      ((m.ptrMap.find? fun e => e.1 ≤ addr && addr < e.1 + e.2.size).map Prod.fst).getD (-1) := by
    rw [getBaseAddr]
    split
    · rw [‹List.find? _ _ = _›]
      rfl
    · rw [‹List.find? _ _ = _›]
      rfl
  rw [hbase, hbase, set, hfind hm.keys hmem]

omit [FloatOps] in
theorem mem_set {e : BitVec 64 × MemoryInfo} (he : e ∈ m.ptrMap) (hne : e.1 ≠ base) :
    e ∈ (m.set base info).ptrMap := by
  have hinsert {l : List (BitVec 64 × MemoryInfo)} (he : e ∈ l) : e ∈ insert base info l := by
    induction l with
    | nil => cases he
    | cons e' l ih =>
      rw [insert]
      split_ifs with hlt heq
      · exact List.mem_cons_of_mem _ he
      · obtain rfl | he := List.mem_cons.mp he
        · exact absurd heq.symm hne
        · exact List.mem_cons_of_mem _ he
      · obtain rfl | he := List.mem_cons.mp he
        · exact List.mem_cons_self
        · exact List.mem_cons_of_mem _ (ih he)
  exact hinsert he

/-! ## Accesses -/

/-- A load reads nothing outside of the region. -/
def LoadInside (m : PointerMemoryMap) (addr : BitVec 64) : Prop := m.load addr ≠ .error .outside

/-- A store writes nothing outside of the region, and leaves the other regions as they are. -/
def StoreInside (m : PointerMemoryMap) (base addr : BitVec 64) (data : VectorData) : Prop :=
  m.store addr data ≠ .error .outside ∧ ∀ m', m.store addr data = .ok m' →
    ∀ e ∈ m.ptrMap, e.1 ≠ base → e ∈ m'.ptrMap

/-- A store followed by a load returns the elements of the packet. -/
def Returns (m : PointerMemoryMap) (addr : BitVec 64) (data : VectorData) : Prop :=
  ∃ m' v, m.store addr data = .ok m' ∧ m'.load addr = .ok v ∧
    ∀ i < data.vlen, i < packetSize / width data.type →
      ∃ e, element data data.type i = .ok e ∧ element v data.type i = .ok e

/-- The maps are found to be the same. -/
def Matches (m other : PointerMemoryMap) : Prop := ∃ other', m.matchMap other = .ok (true, other')

/-- When a store of a vector and a load behind it return its elements: the region has the type of
the vector, both transfers stay inside, the format of the vector keeps the elements, and of a mask
nothing is lost. -/
structure Returnable (info : MemoryInfo) (offset : BitVec 64) (data : VectorData) : Prop where
  type : info.type = data.type
  transferable : Transferable info.type
  written : Within info offset (written data)
  loaded : Within info offset (loaded info.type)
  kept : ∀ i < data.vlen, i < packetSize / width data.type →
    ∀ e, element data data.type i = .ok e → e.stored = e
  mask : data.type = .vmask → ∀ i, byteBit ≤ i → i < data.vlen → i < packetSize →
    data.getVmaskData i = .ok false

/-- A region that the comparison gets past: it is of a type the comparison knows, and has no
elements, or so many that their number is not positive as an `int`. -/
def Skipped (other : PointerMemoryMap) (e : BitVec 64 × MemoryInfo) : Prop :=
  other.checkAddr e.1 = true ∧ e.2.type ∈ switchCases ∧
    toInt (e.2.size.toNat / width e.2.type : Nat) ≤ 0

variable {data : VectorData}

theorem load_eq (hm : m.Disjoint) (hmem : (base, info) ∈ m.ptrMap)
    (hin : Contains (base, info) addr) (hacc : m.checkAddr addr = true) :
    m.load addr = loadSwitch info (addr - base) := by
  rw [load, getBaseAddr_eq hm hmem hin hacc, entry_eq hm hmem]

theorem store_eq (hm : m.Disjoint) (hmem : (base, info) ∈ m.ptrMap)
    (hin : Contains (base, info) addr) (hacc : m.checkAddr addr = true) :
    m.store addr data = if info.type ≠ data.type then .error .assertion
      else storeSwitch info data (addr - base) >>= fun info' => .ok (m.set base info') := by
  rw [store, getBaseAddr_eq hm hmem hin hacc, if_neg (not_not_intro hacc)]
  dsimp only
  rw [entry_eq hm hmem]
  dsimp only
  split_ifs <;> rfl

theorem loadSwitch_exit (h : ¬ Transferable info.type) : loadSwitch info offset = .error .exit := by
  rw [Transferable, not_and_or, not_not, not_not] at h
  rw [loadSwitch]
  obtain h | h := h <;> rw [h]

theorem storeSwitch_exit (h : ¬ Transferable info.type) :
    storeSwitch info data offset = .error .exit := by
  rw [Transferable, not_and_or, not_not, not_not] at h
  rw [storeSwitch]
  obtain h | h := h <;> rw [h]

theorem loadInside_iff (hm : m.Disjoint) (hmem : (base, info) ∈ m.ptrMap)
    (hin : Contains (base, info) addr) (hacc : m.checkAddr addr = true) :
    LoadInside m addr ↔
      (Transferable info.type → Within info (addr - base) (loaded info.type)) := by
  rw [LoadInside, load_eq hm hmem hin hacc]
  by_cases ht : Transferable info.type
  · have hspec := loadSwitch_spec info (addr - base) ht
    by_cases hwithin : Within info (addr - base) (loaded info.type)
    · rw [if_pos hwithin] at hspec
      obtain ⟨v, hv, -⟩ := hspec
      exact iff_of_true (by rw [hv]; nofun) fun _ => hwithin
    · rw [if_neg hwithin] at hspec
      exact iff_of_false (fun h => h hspec) fun h => hwithin (h ht)
  · rw [loadSwitch_exit ht]
    exact iff_of_true (by nofun) fun h => absurd h ht

theorem storeInside_iff (hm : m.Disjoint) (hmem : (base, info) ∈ m.ptrMap)
    (hin : Contains (base, info) addr) (hacc : m.checkAddr addr = true) (hdata : Complete data) :
    StoreInside m base addr data ↔ (Transferable info.type → info.type = data.type →
      Within info (addr - base) (written data)) := by
  have hothers : ∀ m', m.store addr data = .ok m' → ∀ e ∈ m.ptrMap, e.1 ≠ base → e ∈ m'.ptrMap := by
    intro m' hm' e he hne
    rw [store_eq hm hmem hin hacc] at hm'
    split at hm'
    · cases hm'
    · obtain ⟨info', -, hm'⟩ := bind_eq_ok.mp hm'
      cases hm'
      exact mem_set he hne
  rw [StoreInside, and_iff_left hothers, store_eq hm hmem hin hacc]
  by_cases htype : info.type = data.type
  · rw [if_neg (not_not_intro htype)]
    by_cases ht : Transferable info.type
    · have hspec := storeSwitch_spec info (addr - base) ht hdata htype
      by_cases hwithin : Within info (addr - base) (written data)
      · rw [if_pos hwithin] at hspec
        obtain ⟨info', hinfo', -⟩ := hspec
        exact iff_of_true (by rw [hinfo']; nofun) fun _ _ => hwithin
      · rw [if_neg hwithin] at hspec
        rw [hspec]
        exact iff_of_false (fun h => h rfl) fun h => hwithin (h ht htype)
    · rw [storeSwitch_exit ht]
      exact iff_of_true (by nofun) fun h => absurd h ht
  · rw [if_pos htype]
    exact iff_of_true (by nofun) fun _ h => absurd h htype

theorem returns_iff (hm : m.Disjoint) (hmem : (base, info) ∈ m.ptrMap)
    (hin : Contains (base, info) addr) (hacc : m.checkAddr addr = true) (hdata : Complete data) :
    Returns m addr data ↔ Returnable info (addr - base) data := by
  have hload {info' : MemoryInfo} (hsize : info'.size = info.size) :
      (m.set base info').load addr = loadSwitch info' (addr - base) := by
    rw [load, getBaseAddr_set hm hmem hsize, getBaseAddr_eq hm hmem hin hacc, entry_set]
  rw [Returns, store_eq hm hmem hin hacc]
  by_cases htype : info.type = data.type
  swap
  · rw [if_pos htype]
    exact iff_of_false (by rintro ⟨_, _, h, _⟩; cases h) fun h => htype h.type
  rw [if_neg (not_not_intro htype)]
  by_cases ht : Transferable info.type
  swap
  · rw [storeSwitch_exit ht]
    exact iff_of_false (by rintro ⟨_, _, h, _⟩; cases h) fun h => ht h.transferable
  have hstore := storeSwitch_spec info (addr - base) ht hdata htype
  by_cases hwritten : Within info (addr - base) (written data)
  swap
  · rw [if_neg hwritten] at hstore
    rw [hstore]
    exact iff_of_false (by rintro ⟨_, _, h, _⟩; cases h) fun h => hwritten h.written
  rw [if_pos hwritten] at hstore
  obtain ⟨info', hinfo', hsize, htype', helements⟩ := hstore
  have hsame : Within info' (addr - base) (loaded info'.type) ↔
      Within info (addr - base) (loaded info.type) := by
    rw [Within, Within, htype', hsize]
  have hread := loadSwitch_spec info' (addr - base) (htype' ▸ ht)
  rw [hinfo', ok_bind]
  by_cases hloaded : Within info (addr - base) (loaded info.type)
  swap
  · rw [if_neg (hsame.not.mpr hloaded)] at hread
    refine iff_of_false ?_ fun h => hloaded h.loaded
    rintro ⟨_, v, h, hv, -⟩
    cases h
    rw [hload hsize, hread] at hv
    cases hv
  rw [if_pos (hsame.mpr hloaded)] at hread
  obtain ⟨v, hv, hlanes, hclear⟩ := hread
  have hlane : ∀ i < written data, i < loaded data.type → ∀ e, element data data.type i = .ok e →
      element v data.type i = .ok e.stored := by
    intro i hi hi' e he
    have hback := hlanes i (by rwa [htype', htype])
    rw [htype', htype] at hback
    have hstored := helements i hi
    rw [he, htype] at hstored
    cases hstored
    exact hback
  constructor
  · rintro ⟨_, v', h, hv', hall⟩
    cases h
    rw [hload hsize, hv] at hv'
    cases hv'
    refine ⟨htype, ht, hwritten, hloaded, fun i hi hi' e he => ?_, fun hmask i hle hi hi' => ?_⟩
    · obtain ⟨e', he', hback⟩ := hall i hi hi'
      cases he.symm.trans he'
      by_cases hmask : data.type = .vmask
      · rw [element, if_pos hmask] at he
        obtain ⟨b, -, rfl⟩ := mask_eq_ok he
        rfl
      · have hi'' : i < written data := by rwa [written, if_neg hmask]
        have hback' := hlane i hi'' (by rwa [loaded, if_neg hmask]) e he
        exact Except.ok.inj (hback'.symm.trans hback)
    · obtain ⟨e, he, hback⟩ := hall i hi (by rw [hmask]; exact hi')
      rw [element, if_pos hmask] at he hback
      rw [hclear (htype'.trans (htype.trans hmask)) i hle hi'] at hback
      obtain ⟨b, hb, rfl⟩ := mask_eq_ok he
      cases hback
      exact hb
  · intro h
    refine ⟨_, v, rfl, (hload hsize).trans hv, fun i hi hi' => ?_⟩
    obtain ⟨e, he⟩ := hdata.elements (htype ▸ ht) i hi
    refine ⟨e, he, ?_⟩
    have hkept := h.kept i hi hi' e he
    by_cases hmask : data.type = .vmask
    · by_cases hle : i < byteBit
      · rw [hlane i (by rwa [written, if_pos hmask]) (by rwa [loaded, if_pos hmask]) e he, hkept]
      · have hi'' : i < packetSize := by rwa [hmask] at hi'
        have hbit := h.mask hmask i (not_lt.mp hle) hi hi''
        rw [element, if_pos hmask] at he ⊢
        rw [hclear (htype'.trans (htype.trans hmask)) i (not_lt.mp hle) hi'', ← he, hbit]
    · rw [hlane i (by rwa [written, if_neg hmask]) (by rwa [loaded, if_neg hmask]) e he, hkept]

/-! ## Comparisons -/

/-- No step of the loop over a region ends with a result. -/
theorem compareStep_error (val val' : MemoryInfo) (i : Nat) :
    ∃ f, compareStep val val' i = .error f := by
  rw [compareStep]
  cases (switchCases.dropWhile (· ≠ val.type)).foldlM (fun result type =>
    if result then sameAt val val' i type else return false) true with
  | ok result => exact ⟨.exit, rfl⟩
  | error f => exact ⟨f, rfl⟩

omit [FloatOps] in
theorem loopCount_eq (val : MemoryInfo) : loopCount val =
    if val.type ∈ switchCases then .ok (toInt (val.size.toNat / width val.type : Nat))
    else .error .exit := by
  rw [loopCount]
  cases htype : val.type with
  | char8 =>
    have hwidth : val.size.toNat / width .char8 = val.size.toNat := Nat.div_one _
    rw [if_pos (by decide), hwidth]
  | _ => rfl

/-- The loop over a region ends with a result only if it does not run. -/
theorem foldlM_compareStep (val val' : MemoryInfo) (count : Nat) :
    (∃ result, (List.range count).foldlM (fun result i =>
      if result then compareStep val val' i else return false) true = .ok result) ↔ count = 0 := by
  cases count with
  | zero => exact iff_of_true ⟨true, rfl⟩ rfl
  | succ count =>
    obtain ⟨f, hf⟩ := compareStep_error val val' 0
    rw [List.range_succ_eq_map, List.foldlM_cons, if_pos rfl, hf]
    exact iff_of_false (fun ⟨_, h⟩ => by cases h) (Nat.succ_ne_zero count)

theorem matchLoop_iff {other : PointerMemoryMap}
    (hkeys : other.ptrMap.Pairwise fun e e' => e.1 < e'.1) {l : List (BitVec 64 × MemoryInfo)}
    (hl : ∀ e ∈ l, ∃ info', (e.1, info') ∈ other.ptrMap ∧ e.2.size = info'.size ∧
      e.2.type = info'.type) :
    (∃ other', matchLoop l other = .ok (true, other')) ↔ ∀ e ∈ l, Skipped other e := by
  induction l with
  | nil => exact iff_of_true ⟨other, rfl⟩ nofun
  | cons e l ih =>
    obtain ⟨key, val⟩ := e
    obtain ⟨info', hmem, hsize, htype⟩ := hl _ List.mem_cons_self
    have hih := ih fun e he => hl e (List.mem_cons_of_mem _ he)
    have hentry : other.entry key = (info', other) := by
      rw [entry, lookup_eq hkeys hmem]
    rw [matchLoop, hentry, List.forall_mem_cons, ← hih, Skipped]
    dsimp only
    by_cases hfound : other.checkAddr key = true
    swap
    · rw [if_pos fun h => hfound h.1]
      exact iff_of_false (fun ⟨_, h⟩ => by cases h) fun h => hfound h.1.1
    rw [if_neg (not_not_intro ⟨hfound, hsize, htype⟩), loopCount_eq]
    by_cases hknown : val.type ∈ switchCases
    swap
    · rw [if_neg hknown]
      exact iff_of_false (fun ⟨_, h⟩ => by cases h) fun h => hknown h.1.2.1
    rw [if_pos hknown, ok_bind]
    have hcount := foldlM_compareStep val info'
      (toInt (val.size.toNat / width val.type : Nat)).toNat
    by_cases hskip : toInt (val.size.toNat / width val.type : Nat) ≤ 0
    · rw [Int.toNat_of_nonpos hskip]
      exact ⟨fun h => ⟨⟨hfound, hknown, hskip⟩, h⟩, fun h => h.2⟩
    · refine iff_of_false ?_ fun h => hskip h.1.2.2
      rintro ⟨other', h⟩
      obtain ⟨result, hresult, -⟩ := bind_eq_ok.mp h
      have hzero := hcount.mp ⟨result, hresult⟩
      omega

theorem matches_iff (hm : m.Disjoint) {other : PointerMemoryMap} (hsame : SameRegions m other) :
    Matches m other ↔ ∀ e ∈ m.ptrMap, Skipped other e := by
  have hkeys : m.ptrMap.map Prod.fst = other.ptrMap.map Prod.fst := by
    rw [← List.forall₂_eq_eq_eq, List.forall₂_map_left_iff, List.forall₂_map_right_iff]
    exact hsame.imp fun e e' h => h.1
  have hsorted : other.ptrMap.Pairwise fun e e' => e.1 < e'.1 := by
    have hm' := List.pairwise_map.mpr hm.keys
    rw [hkeys] at hm'
    exact List.pairwise_map.mp hm'
  refine matchLoop_iff hsorted fun e he => ?_
  obtain ⟨e', he', hkey, hsize, htype⟩ := exists_of_forall₂_left hsame he
  exact ⟨e'.2, hkey ▸ he', hsize, htype⟩

end Regions

/-- Which accesses stay in their region, when a store is loaded back, and which maps are found to be
the same. -/
theorem pointer_map_iff {m other : PointerMemoryMap} {base addr : BitVec 64} {data : VectorData}
    (hm : m.Disjoint) (hmem : (base, info) ∈ m.ptrMap) (hin : Contains (base, info) addr)
    (hacc : m.checkAddr addr = true) (hdata : Complete data) (hsame : SameRegions m other) :
    (LoadInside m addr ↔
      (Transferable info.type → Within info (addr - base) (loaded info.type))) ∧
    (StoreInside m base addr data ↔ (Transferable info.type → info.type = data.type →
      Within info (addr - base) (written data))) ∧
    (Returns m addr data ↔ Returnable info (addr - base) data) ∧
    (Matches m other ↔ ∀ e ∈ m.ptrMap, Skipped other e) :=
  ⟨loadInside_iff hm hmem hin hacc, storeInside_iff hm hmem hin hacc hdata,
    returns_iff hm hmem hin hacc hdata, matches_iff hm hsame⟩

end Transfer

/-! ## An example -/

/-- A region of 32-bit integers, all of them zero. -/
def intRegion (size : BitVec 64) : MemoryInfo where
  size := size
  type := .int32
  ptr := List.replicate size.toNat 0
  length_ptr := List.length_replicate

/-- One region. -/
def intMap (size : BitVec 64) : PointerMemoryMap := ⟨[(0x1000, intRegion size)]⟩

/-- A packet of integers. -/
def intPacket : VectorData := (VectorData.default.setType .int32).setVlen 8

theorem disjoint_intMap (size : BitVec 64) : (intMap size).Disjoint :=
  ⟨List.pairwise_singleton _ _, List.pairwise_singleton _ _⟩

theorem sameRegions_intMap (size : BitVec 64) : SameRegions (intMap size) (intMap size) :=
  .cons ⟨rfl, rfl, rfl⟩ .nil

theorem element_intPacket [FloatOps] : ∀ i < 8, element intPacket .int32 i = .ok (.int 0) := by
  intro i hi
  rw [element, if_neg (by decide)]
  interval_cases i <;> rfl

theorem complete_intPacket [FloatOps] : Complete intPacket :=
  ⟨by decide, by decide, fun _ i hi => ⟨.int 0, element_intPacket i hi⟩⟩

/-- A region of two packets: its first packet is loaded and stored, but no comparison gets past. -/
theorem pointer_map_intRegion : letI := FloatOps.zero
    LoadInside (intMap 64) 0x1000 ∧ StoreInside (intMap 64) 0x1000 0x1000 intPacket ∧
      Returns (intMap 64) 0x1000 intPacket ∧ ¬ Matches (intMap 64) (intMap 64) := by
  let _ := FloatOps.zero
  have h := pointer_map_iff (disjoint_intMap 64) List.mem_cons_self
    ⟨le_rfl, by decide⟩ (by decide) complete_intPacket (sameRegions_intMap 64)
  have hkept : ∀ i < intPacket.vlen, i < packetSize / width intPacket.type →
      ∀ e, element intPacket intPacket.type i = .ok e → e.stored = e := by
    intro i hi _ e he
    cases (element_intPacket i hi).symm.trans he
    rfl
  refine ⟨h.1.mpr fun _ => by decide, h.2.1.mpr fun _ _ => by decide,
    h.2.2.1.mpr ⟨rfl, by decide, by decide, by decide, hkept, nofun⟩,
    h.2.2.2.not.mpr fun hall => ?_⟩
  have hskipped := hall _ List.mem_cons_self
  exact absurd hskipped.2.2 (by decide)

/-- A region of nine integers: the ninth one is accepted, and the packet there is not inside. -/
theorem not_pointer_map_ninthElement : letI := FloatOps.zero
    (intMap 36).Disjoint ∧ SameRegions (intMap 36) (intMap 36) ∧
      (intMap 36).checkAddr 0x1020 = true ∧ Contains (0x1000, intRegion 36) 0x1020 ∧
      Complete intPacket ∧ intPacket.type = (intRegion 36).type ∧
      ¬ LoadInside (intMap 36) 0x1020 ∧ ¬ StoreInside (intMap 36) 0x1000 0x1020 intPacket ∧
      ¬ Returns (intMap 36) 0x1020 intPacket ∧ ¬ Matches (intMap 36) (intMap 36) := by
  let _ := FloatOps.zero
  have hin : Contains (0x1000, intRegion 36) 0x1020 := ⟨by decide, by decide⟩
  have hacc : (intMap 36).checkAddr 0x1020 = true := by decide
  have hload := loadInside_iff (disjoint_intMap 36) List.mem_cons_self hin hacc
  have hstore := storeInside_iff (disjoint_intMap 36) List.mem_cons_self hin hacc complete_intPacket
  have hreturns := returns_iff (disjoint_intMap 36) List.mem_cons_self hin hacc complete_intPacket
  have hmatches := matches_iff (disjoint_intMap 36) (sameRegions_intMap 36)
  refine ⟨disjoint_intMap 36, sameRegions_intMap 36, hacc, hin, complete_intPacket, rfl, ?_, ?_,
    ?_, ?_⟩
  · exact hload.not.mpr fun h => absurd (h (by decide)) (by decide)
  · exact hstore.not.mpr fun h => absurd (h (by decide) rfl) (by decide)
  · exact hreturns.not.mpr fun h => absurd h.loaded (by decide)
  · exact hmatches.not.mpr fun h => absurd (h _ List.mem_cons_self).2.2 (by decide)

end PointerMemoryMap

end NdpSim
