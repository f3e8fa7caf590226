import NdpSim.Functional.ImageLoader
import NdpSim.Library.Loops

/-!
# Files of memory images

A file lists groups of packets: the declared type of a group, and a line for each packet with its
address and its numbers. Loading it inserts the packets one by one.
-/
namespace NdpSim

open Library Text

/-- A packet as it is listed: its address and its numbers. -/
abbrev ListedPacket := BitVec 64 × List Int

/-- The packets below one declaration. -/
structure ImageGroup where
  type : DeclaredType
  packets : List ListedPacket

namespace ImageGroup

/-- The line of a packet. -/
structure Line (d : DeclaredType) (p : ListedPacket) (line : Text) : Prop where
  spelled : ∃ addr toks, Spelled (addr :: toks) line ∧ Numeral 16 addr false p.1.toNat ∧
    List.Forall₂ Decimal toks p.2
  lanes : p.2.length = d.lanes

/-- The lines of a group: its type behind `_META_`, and its packets behind `_DATA_`. -/
def Written (g : ImageGroup) (lines : List Text) : Prop :=
  ∃ head name data rows, lines = head :: name :: data :: rows ∧
    "_META_".toList <:+: head ∧ Spelled [g.type.name] name ∧
    "_DATA_".toList <:+: data ∧ ¬ "_META_".toList <:+: data ∧
    List.Forall₂ (Line g.type) g.packets rows

end ImageGroup

/-- The packets of all groups with their types. -/
def listed (groups : List ImageGroup) : List (DeclaredType × ListedPacket) :=
  groups.flatMap fun g => g.packets.map fun p => (g.type, p)

/-- The listed addresses. -/
def addresses (groups : List ImageGroup) : List (BitVec 64) := (listed groups).map fun q => q.2.1

/-- A file that lists the groups, with empty lines anywhere. -/
structure ImageFile (groups : List ImageGroup) (file : Text) : Prop where
  written : ∃ chunks, (file.splitOn '\n').filter (· ≠ []) = chunks.flatten ∧
    List.Forall₂ ImageGroup.Written groups chunks
  aligned : ∀ a ∈ addresses groups, a.toNat % packetSize = 0
  distinct : (addresses groups).Nodup

/-- The map has the packets that are listed, and no others. -/
structure IsImage [FloatOps] (groups : List ImageGroup) (map : HashMemoryMap) : Prop where
  addresses : ∀ a, (map.data a).isSome ↔ a ∈ addresses groups
  packets : ∀ q ∈ listed groups, ∃ v, map.data q.2.1 = some v ∧ q.1.IsPacket q.2.2 v

namespace ImageLoader

variable [FloatOps] {reader : FloatReader} {s : ImageLoader} {d : DeclaredType} {ln : Text}

/-- The constructor with other packets. -/
def withData (s : ImageLoader) (data : BitVec 64 → Option VectorData) : ImageLoader :=
  { s with map := { s.map with data := data } }

/-! ## Single lines -/

theorem line_meta (h : "_META_".toList <:+: ln) :
    s.line reader ln = .ok { s with metaRead := true } := if_pos h

theorem line_data (h : ¬ "_META_".toList <:+: ln) (hdata : "_DATA_".toList <:+: ln) :
    s.line reader ln = .ok { s with metaRead := false } :=
  (if_neg h).trans (if_pos hdata)

theorem line_nil : s.line reader [] = .ok s := rfl

/-- Lines without the markers. -/
theorem line_of_notMem (h : '_' ∉ ln) (hne : ln ≠ []) : s.line reader ln =
    if s.metaRead then
      match metaTypeOf (Stream.ofText ln).word.1 with
      | some metaType => .ok { s with metaType := some metaType }
      | none => .ok s
    else s.dataLine reader ln := by
  have hmark : ∀ mark : Text, '_' ∈ mark → ¬ mark <:+: ln := fun mark hmem hin =>
    h (hin.subset hmem)
  have hlen : ¬ ln.length = 0 := fun hlen => hne (List.length_eq_zero_iff.mp hlen)
  exact (if_neg (hmark _ (by decide))).trans
    ((if_neg (hmark _ (by decide))).trans (if_neg hlen))

theorem line_name (hs : Spelled [d.name] ln) (hmeta : s.metaRead = true) :
    s.line reader ln = .ok { s with metaType := some d.type } := by
  have hmem : '_' ∉ ln := by
    intro h
    obtain hspace | ⟨t, ht, hc⟩ := hs.mem h
    · exact absurd hspace (by decide)
    · rw [List.mem_singleton.mp ht] at hc
      revert hc
      cases d <;> decide
  obtain ⟨rest, hword, -⟩ := word_spelled hs
  rw [line_of_notMem hmem hs.ne_nil, hmeta, if_pos rfl, Stream.ofText, hword, d.metaTypeOf_name]

/-- The entry that a line makes for its address. It is missing if the line stops the constructor. -/
structure Entry (q : DeclaredType × ListedPacket) (e : BitVec 64 × Except Fault VectorData) :
    Prop where
  addr : e.1 = q.2.1
  packet : (∃ v, e.2 = .ok v ∧ q.1.IsPacket q.2.2 v) ↔ q.2.1 ≠ 0 ∧ q.1.Readable q.2.2

theorem keys_of_entries {qs : List (DeclaredType × ListedPacket)}
    {entries : List (BitVec 64 × Except Fault VectorData)} (h : List.Forall₂ Entry qs entries) :
    entries.map Prod.fst = qs.map fun q => q.2.1 := by
  induction h with
  | nil => rfl
  | cons hentry _ ih => rw [List.map_cons, List.map_cons, hentry.addr, ih]

/-- The entry of a line does not depend on the state. -/
theorem exists_entry (reader : FloatReader) {p : ListedPacket} (h : ImageGroup.Line d p ln)
    (haligned : p.1.toNat % packetSize = 0) : ∃ x, Entry (d, p) (p.1, x) ∧
      ∀ s : ImageLoader, s.metaRead = false → s.metaType = some d.type → s.map.data p.1 = none →
        s.line reader ln = x >>= fun v =>
          .ok (s.withData (Function.update s.map.data p.1 (some v))) := by
  obtain ⟨addr, toks, hs, haddr, htoks⟩ := h.spelled
  have hmem : '_' ∉ ln := by
    intro h
    obtain hspace | ⟨t, ht, hc⟩ := hs.mem h
    · exact absurd hspace (by decide)
    · obtain rfl | ht := List.mem_cons.mp ht
      · exact haddr.notMem (by decide) (by decide) hc
      · obtain ⟨i, hi, rfl⟩ := List.getElem_of_mem ht
        obtain ⟨negative, n, hnum, -⟩ :=
          (List.forall₂_iff_get.mp htoks).2 i hi ((List.Forall₂.length_eq htoks) ▸ hi)
        exact hnum.notMem (by decide) (by decide) hc
  obtain ⟨rest, hunsigned, htail⟩ := unsigned_spelled 64 hs haddr p.1.isLt
  have hiff : (∃ v, InputData.readLine reader d.type ⟨rest, false⟩ = .ok v ∧ d.IsPacket p.2 v) ↔
      d.Readable p.2 := InputData.readLine_iff d htail htoks h.lanes
  refine ⟨if p.1 ≠ 0 then InputData.readLine reader d.type ⟨rest, false⟩ else .error .assertion,
    ⟨rfl, ?_⟩, ?_⟩
  · dsimp only
    by_cases hzero : p.1 ≠ 0
    · rw [if_pos hzero, hiff]
      exact (and_iff_right hzero).symm
    · rw [if_neg hzero]
      exact iff_of_false (fun ⟨v, hv, _⟩ => nomatch hv) fun h => hzero h.1
  · rintro ⟨metaRead, metaType, map⟩ hmeta htype hfresh
    obtain rfl : metaRead = false := hmeta
    obtain rfl : metaType = some d.type := htype
    have hnone : map.data p.1 = none := hfresh
    rw [line_of_notMem hmem hs.ne_nil, if_neg Bool.false_ne_true, dataLine, Stream.ofText,
      hunsigned, assignedValue, ok_bind]
    dsimp only
    rw [BitVec.ofNat_toNat, BitVec.setWidth_eq]
    by_cases hzero : p.1 ≠ 0
    · rw [if_neg (not_not_intro hzero), if_neg (not_not_intro haligned), if_pos hzero]
      cases InputData.readLine reader d.type ⟨rest, false⟩ with
      | error e => rfl
      | ok v =>
        rw [ok_bind, ok_bind, hnone]
        rfl
    · rw [if_pos hzero, if_neg hzero]
      rfl

/-! ## Groups -/

theorem exists_entries_rows (reader : FloatReader) {ps : List ListedPacket} {rows : List Text}
    (h : List.Forall₂ (ImageGroup.Line d) ps rows)
    (haligned : ∀ p ∈ ps, p.1.toNat % packetSize = 0) :
    ∃ entries, List.Forall₂ Entry (ps.map fun p => (d, p)) entries ∧
      ∀ s : ImageLoader, s.metaRead = false → s.metaType = some d.type →
        (∀ p ∈ ps, s.map.data p.1 = none) → (ps.map Prod.fst).Nodup →
        rows.foldlM (line reader) s = insertAll entries s.map.data >>= fun data =>
          .ok (s.withData data) := by
  induction h with
  | nil => exact ⟨[], .nil, fun s _ _ _ _ => rfl⟩
  | @cons p ln ps rows hline hrows ih =>
    obtain ⟨entries, hentries, hfold⟩ := ih fun q hq => haligned q (List.mem_cons_of_mem _ hq)
    obtain ⟨x, hentry, hstep⟩ := exists_entry reader hline (haligned p List.mem_cons_self)
    refine ⟨(p.1, x) :: entries, .cons hentry hentries, fun s hmeta htype hfresh hnodup => ?_⟩
    rw [List.map_cons, List.nodup_cons] at hnodup
    rw [List.foldlM_cons, hstep s hmeta htype (hfresh p List.mem_cons_self), insertAll_cons]
    cases x with
    | error e => rfl
    | ok v =>
      refine (hfold (s.withData (Function.update s.map.data p.1 (some v))) hmeta htype
        (fun q hq => ?_) hnodup.2).trans rfl
      have hne : q.1 ≠ p.1 := fun heq => hnodup.1 (heq ▸ List.mem_map_of_mem hq)
      exact (Function.update_of_ne hne ..).trans (hfresh q (List.mem_cons_of_mem _ hq))

theorem exists_entries (reader : FloatReader) {groups : List ImageGroup} {chunks : List (List Text)}
    (h : List.Forall₂ ImageGroup.Written groups chunks)
    (haligned : ∀ a ∈ addresses groups, a.toNat % packetSize = 0) :
    ∃ entries, List.Forall₂ Entry (listed groups) entries ∧
      ∀ s : ImageLoader, (∀ a ∈ addresses groups, s.map.data a = none) → (addresses groups).Nodup →
        (chunks.flatten.foldlM (line reader) s >>= fun s => .ok s.map) =
          insertAll entries s.map.data >>= fun data => .ok (s.withData data).map := by
  induction h with
  | nil => exact ⟨[], .nil, fun s _ _ => rfl⟩
  | @cons g chunk groups chunks hwritten hgroups ih =>
    obtain ⟨head, name, data, rows, rfl, hhead, hname, hdata, hmark, hrows⟩ := hwritten
    have hlisted : listed (g :: groups) =
        (g.packets.map fun p => (g.type, p)) ++ listed groups := List.flatMap_cons
    have haddresses : addresses (g :: groups) = g.packets.map Prod.fst ++ addresses groups := by
      rw [addresses, hlisted, List.map_append, List.map_map]
      rfl
    rw [haddresses] at haligned ⊢
    obtain ⟨entries₁, hentries₁, hfold₁⟩ := exists_entries_rows reader hrows fun p hp =>
      haligned _ (List.mem_append_left _ (List.mem_map_of_mem hp))
    obtain ⟨entries₂, hentries₂, hfold₂⟩ := ih fun a ha => haligned a (List.mem_append_right _ ha)
    refine ⟨entries₁ ++ entries₂, ?_, fun s hfresh hnodup => ?_⟩
    · rw [hlisted]
      exact List.rel_append hentries₁ hentries₂
    · obtain ⟨hnodup₁, hnodup₂, hdisjoint⟩ := List.nodup_append.mp hnodup
      have hgroup : (head :: name :: data :: rows).foldlM (line reader) s =
          insertAll entries₁ s.map.data >>= fun data =>
            .ok (withData ⟨false, some g.type.type, s.map⟩ data) := by
        rw [List.foldlM_cons, line_meta hhead, ok_bind, List.foldlM_cons, line_name hname rfl,
          ok_bind, List.foldlM_cons, line_data hmark hdata, ok_bind]
        exact hfold₁ ⟨false, some g.type.type, s.map⟩ rfl rfl (fun p hp =>
          hfresh _ (List.mem_append_left _ (List.mem_map_of_mem hp))) hnodup₁
      rw [List.flatten_cons, List.foldlM_append, hgroup, insertAll_append]
      cases hinsert : insertAll entries₁ s.map.data with
      | error e => rfl
      | ok m =>
        refine (hfold₂ (withData ⟨false, some g.type.type, s.map⟩ m) (fun a ha => ?_)
          hnodup₂).trans rfl
        have hkeys : entries₁.map Prod.fst = g.packets.map Prod.fst := by
          rw [keys_of_entries hentries₁, List.map_map]
          rfl
        have hothers := (insertAll_eq_ok (by rwa [hkeys]) hinsert).2 a fun hmem =>
          hdisjoint a (hkeys ▸ hmem) a ha rfl
        exact hothers.trans (hfresh a (List.mem_append_right _ ha))

/-- Empty lines are skipped. -/
theorem foldlM_filter (lines : List Text) (s : ImageLoader) :
    lines.foldlM (line reader) s = (lines.filter (· ≠ [])).foldlM (line reader) s := by
  induction lines generalizing s with
  | nil => rfl
  | cons ln lines ih =>
    by_cases hln : ln = []
    · rw [List.filter_cons_of_neg (by simpa using hln), List.foldlM_cons, hln, line_nil, ok_bind,
        ih]
    · rw [List.filter_cons_of_pos (by simpa using hln), List.foldlM_cons, List.foldlM_cons]
      exact congrArg _ (funext ih)

end ImageLoader

/-! ## Files -/

section Files

open ImageLoader

variable [FloatOps] {groups : List ImageGroup} {file : Text} {map : HashMemoryMap}

theorem ofFile_eq (reader : FloatReader) (h : ImageFile groups file) :
    ∃ entries, List.Forall₂ Entry (listed groups) entries ∧
      (entries.map Prod.fst = addresses groups) ∧ HashMemoryMap.ofFile reader file =
        insertAll entries (fun _ => none) >>= fun data => .ok ⟨0, 2 ^ 64 - 1, none, data⟩ := by
  obtain ⟨chunks, hlines, hwritten⟩ := h.written
  obtain ⟨entries, hentries, hfold⟩ := exists_entries reader hwritten h.aligned
  refine ⟨entries, hentries, keys_of_entries hentries, ?_⟩
  rw [HashMemoryMap.ofFile, foldlM_filter, hlines]
  exact hfold ⟨false, none, ⟨0, 2 ^ 64 - 1, none, fun _ => none⟩⟩ (fun _ _ => rfl) h.distinct

theorem exists_isImage (reader : FloatReader) (h : ImageFile groups file)
    (hread : ∀ q ∈ listed groups, q.2.1 ≠ 0 ∧ q.1.Readable q.2.2) :
    ∃ map, HashMemoryMap.ofFile reader file = .ok map ∧ IsImage groups map := by
  obtain ⟨entries, hentries, hkeys, heq⟩ := ofFile_eq reader h
  have hpacket : ∀ q e, q ∈ listed groups → Entry q e → ∃ v, e.2 = .ok v ∧ q.1.IsPacket q.2.2 v :=
    fun q e hq hentry => hentry.packet.mpr (hread q hq)
  obtain ⟨data, hdata⟩ := exists_insertAll (fun e he => by
    obtain ⟨q, hq, hentry⟩ := exists_of_forall₂_right hentries he
    obtain ⟨v, hv, -⟩ := hpacket q e hq hentry
    exact ⟨v, hv⟩) fun _ => none
  obtain ⟨hentry, hothers⟩ := insertAll_eq_ok (by rw [hkeys]; exact h.distinct) hdata
  refine ⟨⟨0, 2 ^ 64 - 1, none, data⟩, by rw [heq, hdata]; rfl, fun a => ?_, fun q hq => ?_⟩
  · rw [← hkeys]
    constructor
    · intro ha
      by_contra hmem
      have hnone : data a = none := hothers a hmem
      have hsome : (data a).isSome = true := ha
      rw [hnone] at hsome
      cases hsome
    · intro ha
      obtain ⟨e, he, rfl⟩ := List.mem_map.mp ha
      obtain ⟨v, -, hv⟩ := hentry e he
      exact Option.isSome_iff_exists.mpr ⟨v, hv⟩
  · obtain ⟨e, he, hqe⟩ := exists_of_forall₂_left hentries hq
    obtain ⟨v, hv, hdatav⟩ := hentry e he
    obtain ⟨v', hv', hq'⟩ := hpacket q e hq hqe
    obtain rfl := Except.ok.inj (hv.symm.trans hv')
    exact ⟨v, hqe.addr ▸ hdatav, hq'⟩

theorem readable_of_isImage {reader : FloatReader} (h : ImageFile groups file)
    (hmap : HashMemoryMap.ofFile reader file = .ok map) (himage : IsImage groups map) :
    ∀ q ∈ listed groups, q.2.1 ≠ 0 ∧ q.1.Readable q.2.2 := by
  obtain ⟨entries, hentries, hkeys, heq⟩ := ofFile_eq reader h
  intro q hq
  rw [heq] at hmap
  obtain ⟨data, hdata, hmap⟩ := bind_eq_ok.mp hmap
  cases hmap
  obtain ⟨e, he, hqe⟩ := exists_of_forall₂_left hentries hq
  obtain ⟨v, hv, hdatav⟩ :=
    (insertAll_eq_ok (by rw [hkeys]; exact h.distinct) hdata).1 e he
  obtain ⟨v', hdatav', hpacket⟩ := himage.packets q hq
  rw [← hqe.addr] at hdatav'
  obtain rfl := Option.some.inj (hdatav.symm.trans hdatav')
  exact hqe.packet.mp ⟨v, hv, hpacket⟩

/-- Which files are loaded as they should be. -/
theorem memory_image_iff (h : ImageFile groups file) (reader : FloatReader) :
    (∃ map, HashMemoryMap.ofFile reader file = .ok map ∧ IsImage groups map) ↔
      ∀ q ∈ listed groups, q.2.1 ≠ 0 ∧ q.1.Readable q.2.2 :=
  ⟨fun ⟨_, hmap, himage⟩ => readable_of_isImage h hmap himage, exists_isImage reader h⟩

end Files

/-- A line of numerals. -/
theorem line_lineOf {d : DeclaredType} {a : BitVec 64} {addr : Text} {toks : List Text}
    {xs : List Int} (haddr : Numeral 16 addr false a.toNat) (htoks : List.Forall₂ Decimal toks xs)
    (hlen : xs.length = d.lanes) : ImageGroup.Line d (a, xs) (lineOf (addr :: toks)) := by
  refine ⟨⟨addr, toks, spelled_lineOf fun t ht => ?_, haddr, htoks⟩, hlen⟩
  obtain rfl | ht := List.mem_cons.mp ht
  · exact haddr.isWord
  · obtain ⟨x, -, negative, n, hnum, -⟩ := exists_of_forall₂_left htoks ht
    exact hnum.isWord

theorem decimal_replicate {ds : Text} (hne : ds ≠ []) (h : ∀ d ∈ ds, isDigitOf 10 d = true)
    (n : Nat) : List.Forall₂ Decimal (List.replicate n ds) (List.replicate n (ofDigits 10 ds)) := by
  induction n with
  | zero => exact .nil
  | succ n ih => exact .cons ⟨false, _, numeral_digits hne h, rfl⟩ ih

/-- A file of lines that are not empty. -/
theorem imageFile_intercalate {groups : List ImageGroup} {chunks : List (List Text)}
    (hwritten : List.Forall₂ ImageGroup.Written groups chunks)
    (hlines : ∀ ln ∈ chunks.flatten, '\n' ∉ ln ∧ ln ≠ []) (hne : chunks.flatten ≠ [])
    (haligned : ∀ a ∈ addresses groups, a.toNat % packetSize = 0)
    (hdistinct : (addresses groups).Nodup) :
    ImageFile groups (['\n'].intercalate chunks.flatten) := by
  refine ⟨⟨chunks, ?_, hwritten⟩, haligned, hdistinct⟩
  rw [List.splitOn_intercalate '\n' (fun ln hln => (hlines ln hln).1) hne]
  exact List.filter_eq_self.mpr fun ln hln => decide_eq_true (hlines ln hln).2

/-- The lines of a group with one packet. -/
def linesOf (name addr : String) (n : Nat) (number : String) : List Text :=
  ["_META_".toList, name.toList, "_DATA_".toList,
    lineOf (addr.toList :: List.replicate n number.toList)]

theorem newline_notMem_linesOf {name addr number : String} (n : Nat) (hne : name.toList ≠ [])
    (h : ∀ t ∈ [name, addr, number], '\n' ∉ t.toList) :
    ∀ ln ∈ linesOf name addr n number, '\n' ∉ ln ∧ ln ≠ [] := by
  have hblank : '\n' ≠ ' ' := by decide
  have hrow : '\n' ∉ lineOf (addr.toList :: List.replicate n number.toList) := by
    intro hmem
    obtain ⟨t, ht, hc⟩ := List.mem_flatMap.mp hmem
    have hct := (List.mem_cons.mp hc).resolve_left hblank
    obtain rfl | ht := List.mem_cons.mp ht
    · exact h addr (by simp) hct
    · rw [List.eq_of_mem_replicate ht] at hct
      exact h number (by simp) hct
  intro ln hln
  simp only [linesOf, List.mem_cons, List.not_mem_nil, or_false] at hln
  obtain rfl | rfl | rfl | rfl := hln
  · exact ⟨by decide, by decide⟩
  · exact ⟨h name (by simp), hne⟩
  · exact ⟨by decide, by decide⟩
  · exact ⟨hrow, by simp [lineOf]⟩

/-- A packet of type `int64`, and one of type `uint8` with numbers that are reduced. -/
def twoGroups : List ImageGroup :=
  [⟨.int64, [(0x20, List.replicate 4 7)]⟩, ⟨.uint8, [(0x40, List.replicate 32 300)]⟩]

def twoGroupsFile : Text :=
  ['\n'].intercalate [linesOf "int64" "20" 4 "7", linesOf "uint8" "40" 32 "300"].flatten

/-- The reader is not used for integers. -/
def noReader : FloatReader := ⟨fun _ => .error .outOfRange, fun s => (none, s)⟩

theorem written_twoGroups : ImageFile twoGroups twoGroupsFile := by
  have hname (d : DeclaredType) : Spelled [d.name] d.name :=
    spelled_self ⟨by cases d <;> decide, by cases d <;> decide⟩
  refine imageFile_intercalate (.cons ⟨_, _, _, _, rfl, by decide, hname .int64, by decide,
    by decide, .cons ?_ .nil⟩ (.cons ⟨_, _, _, _, rfl, by decide, hname .uint8, by decide,
    by decide, .cons ?_ .nil⟩ .nil)) (fun ln hln => ?_) (List.cons_ne_nil _ _)
    (by simp [addresses, listed, twoGroups, packetSize]) (by decide)
  · exact line_lineOf (numeral_digits (by decide) (by decide))
      (decimal_replicate (by decide) (by decide) 4) rfl
  · exact line_lineOf (numeral_digits (by decide) (by decide))
      (decimal_replicate (by decide) (by decide) 32) rfl
  · rw [List.flatten_cons, List.flatten_cons, List.flatten_nil, List.append_nil] at hln
    obtain hln | hln := List.mem_append.mp hln
    · exact newline_notMem_linesOf 4 (by decide) (by decide) ln hln
    · exact newline_notMem_linesOf 32 (by decide) (by decide) ln hln

theorem memory_image_twoGroups : letI := FloatOps.zero
    ∃ map, HashMemoryMap.ofFile noReader twoGroupsFile = .ok map ∧ IsImage twoGroups map :=
  letI := FloatOps.zero
  (memory_image_iff written_twoGroups noReader).mpr (by
    intro q hq
    obtain rfl | hq := List.mem_cons.mp hq
    · exact ⟨by decide, by decide, by decide⟩
    · obtain rfl := List.mem_singleton.mp hq
      refine ⟨by decide, fun x hx => ?_⟩
      rw [List.eq_of_mem_replicate hx]
      decide)

/-- A packet of type `int16`. -/
def shortGroup : List ImageGroup := [⟨.int16, [(0x20, List.replicate 16 7)]⟩]

def shortGroupFile : Text := ['\n'].intercalate [linesOf "int16" "20" 16 "7"].flatten

theorem written_shortGroup : ImageFile shortGroup shortGroupFile := by
  have hname : Spelled ["int16".toList] "int16".toList := spelled_self ⟨by decide, by decide⟩
  refine imageFile_intercalate (.cons ⟨_, _, _, _, rfl, by decide, hname, by decide, by decide,
    .cons ?_ .nil⟩ .nil) (fun ln hln => ?_) (List.cons_ne_nil _ _)
    (by simp [addresses, listed, shortGroup, packetSize]) (by decide)
  · exact line_lineOf (numeral_digits (by decide) (by decide))
      (decimal_replicate (by decide) (by decide) 16) rfl
  · rw [List.flatten_cons, List.flatten_nil, List.append_nil] at hln
    exact newline_notMem_linesOf 16 (by decide) (by decide) ln hln

theorem not_memory_image_shortGroup : letI := FloatOps.zero
    ¬ ∀ (groups : List ImageGroup) (file : Text) (reader : FloatReader), ImageFile groups file →
      ∃ map, HashMemoryMap.ofFile reader file = .ok map ∧ IsImage groups map := by
  let _ : FloatOps := FloatOps.zero
  intro h
  obtain ⟨map, hmap, himage⟩ := h shortGroup shortGroupFile noReader written_shortGroup
  exact (readable_of_isImage written_shortGroup hmap himage _ List.mem_cons_self).2

end NdpSim
