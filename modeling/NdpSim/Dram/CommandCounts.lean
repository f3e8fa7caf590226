import NdpSim.Dram.OpenRowTable

/-!
# The statistics of the commands

What is reported as precharges accounts for all rows that were activated and are not open any more.
-/
namespace NdpSim

open Library

theorem RowTable.length_le_eraseAll (t : RowTable) (keys : List (List Int)) :
    t.keys.length ≤ (t.eraseAll keys).keys.length + keys.length := by
  induction keys generalizing t with
  | nil => exact le_rfl
  | cons key keys ih =>
    have htail := ih (t.erase key)
    have herase : t.keys.length - 1 ≤ (t.erase key).keys.length := by
      rw [AList.keys_erase]
      exact @List.le_length_erase _ instBEqOfDecidableEq _ _ _
    have heq : t.eraseAll (key :: keys) = eraseAll (t.erase key) keys := rfl
    rw [heq, List.length_cons]
    omega

namespace Lpddr5

variable {s : SpeedEntry} {channels ranks : Nat} {id : Int} {h : List (IssuedCmd Command)}
  {c c' : Issuer Command State 3} {cmd : Command} {addr : AddrVec} {clk : Int} {t : RowTable}

/-- The `PRE` commands that closed a row without an access since it was opened. -/
def closedUnused : List (IssuedCmd Command) → Nat
  | [] => 0
  | i :: h => closedUnused h +
      if i.cmd = .pre ∧ OpenRows.hits (rowOps h) (bankOf i.addr) = 0 then 1 else 0

/-- The entries that `PRE` removes. -/
theorem length_closed_bank (hm : Mirrors id h t) (hid : addr.idx 0 = id) :
    (t.keys.filter fun key => key.take 4 = addr.group 4).length ≤ 1 := by
  rw [← List.length_singleton (a := bankKey id (bankOf addr))]
  refine (List.subperm_of_subset (t.nodupKeys.filter _) fun key hkey => ?_).length_le
  obtain ⟨hin, heq⟩ := List.mem_filter.mp hkey
  obtain ⟨b, rfl⟩ := hm.keys key (AList.mem_keys.mpr hin)
  rw [decide_eq_true_eq, (group_eq hid).1] at heq
  exact List.mem_singleton.mpr heq

theorem lt_of_isSome_create_bank {i j k : Nat}
    (hsome : ((Dram.create (lpddr5 s channels ranks) 3 0 id).find? [i, j, k]).isSome) :
    j < 4 ∧ k < 4 := by
  obtain ⟨node, hnode⟩ := Option.isSome_iff_exists.mp hsome
  obtain ⟨rank, bg, bank, hrank, hbg, hbank, -⟩ := find?_path hnode
  rw [Dram.create, Dram.children_mk, List.getElem?_map] at hrank
  obtain ⟨i', -, rfl⟩ := Option.map_eq_some_iff.mp hrank
  rw [Dram.create, Dram.children_mk, List.getElem?_map] at hbg
  obtain ⟨j', hj, rfl⟩ := Option.map_eq_some_iff.mp hbg
  rw [Dram.create, Dram.children_mk, List.getElem?_map] at hbank
  obtain ⟨k', hk, -⟩ := Option.map_eq_some_iff.mp hbank
  obtain ⟨hj, -⟩ := List.getElem?_eq_some_iff.mp hj
  obtain ⟨hk, -⟩ := List.getElem?_eq_some_iff.mp hk
  rw [List.length_range] at hj hk
  exact ⟨hj, hk⟩

/-- The entries that `PREA` removes are those of the banks of a rank. -/
theorem length_closed_rank (hserves : Serves s channels ranks id h c.channel)
    (hm : Mirrors id h t) (hid : addr.idx 0 = id) :
    (t.keys.filter fun key => key.take 2 = addr.group 2).length ≤ 4 * 4 := by
  let all : List (List Int) := (List.range 4).flatMap fun j : Nat =>
    (List.range 4).map fun k : Nat => [id, addr.idx 1, (j : Int), (k : Int)]
  have hall : all.length = 4 * 4 := rfl
  rw [← hall]
  refine (List.subperm_of_subset (t.nodupKeys.filter _) fun key hkey => ?_).length_le
  obtain ⟨hin, heq⟩ := List.mem_filter.mp hkey
  obtain ⟨b, rfl⟩ := hm.keys key (AList.mem_keys.mpr hin)
  rw [decide_eq_true_eq, (group_eq hid).2] at heq
  have hopen : OpenRows.after (rowOps h) b ≠ none := by
    intro hnone
    have hlook := hm.lookup b
    rw [entryOf, hnone] at hlook
    exact AList.lookup_eq_none.mp hlook (AList.mem_keys.mpr hin)
  obtain ⟨i, j, k, rfl, hsome⟩ := hserves.follows.2.2.exist b hopen
  rw [hserves.find?_isSome] at hsome
  obtain ⟨hj, hk⟩ := lt_of_isSome_create_bank hsome
  have hi : (i : Int) = addr.idx 1 := by simpa [bankKey] using heq
  refine List.mem_flatMap.mpr ⟨j, List.mem_range.mpr hj,
    List.mem_map.mpr ⟨k, List.mem_range.mpr hk, ?_⟩⟩
  rw [bankKey, ← hi]

/-! ## Counting -/

structure Counts (h : List (IssuedCmd Command)) (c : Issuer Command State 3) : Prop where
  activations : c.activations = h.countP (·.cmd = .act1)
  precharges : c.precharges = h.countP (·.cmd = .pre)
  prechargeAlls : c.prechargeAlls = h.countP (·.cmd = .prea)
  refreshes : c.refreshes = h.countP (·.cmd = .refab)
  uselessActivates : c.uselessActivates = closedUnused h

theorem Controls.counts (hrun : Controls s channels ranks id h c) : Counts h c := by
  induction hrun with
  | start => exact ⟨rfl, rfl, rfl, rfl, rfl⟩
  | @issue h c c' cmd run type addr clk haddr hid hclk first hc ih =>
    obtain ⟨hserves, hm⟩ := run.follows
    obtain ⟨-, d, -, t, -, rfl⟩ := Issuer.issueCmd_eq_ok.mp hc
    obtain rfl := Except.ok.inj ((hserves.next haddr clk).1.symm.trans first)
    obtain ⟨o, ho, hlegal, -⟩ :=
      nextCommand_legal (OpenRows.after (rowOps h)) haddr clk
    obtain ⟨ha, hp, hpa, hr, hu⟩ := ih
    generalize nextCommand (OpenRows.after (rowOps h)) type addr = cmd at ho
    have huseless : cmd = .pre →
        c.rowtable.getHits (lpddr5 s channels ranks) addr true =
          OpenRows.hits (rowOps h) (bankOf addr) := by
      rintro rfl
      obtain rfl := Option.some.inj ho
      obtain ⟨b, hb, hopen⟩ := hlegal
      obtain rfl : b = bankOf addr := by simpa using hb
      obtain ⟨r, hrow⟩ := Option.ne_none_iff_exists'.mp hopen
      have hlook := hm.lookup (bankOf addr)
      rw [entryOf, hrow, ← (group_eq hid).1] at hlook
      change c.rowtable.lookup (addr.group (lpddr5 s channels ranks).rowLevel) = _ at hlook
      rw [RowTable.getHits, hlook]
      rfl
    have hu' : (c.uselessActivates + if cmd = .pre ∧
        c.rowtable.getHits (lpddr5 s channels ranks) addr true = 0 then 1 else 0) =
        closedUnused (⟨cmd, addr, clk⟩ :: h) := by
      rw [closedUnused, hu]
      congr 1
      exact if_congr (and_congr_right fun hpre => by rw [huseless hpre]) rfl rfl
    cases cmd <;> cases ho
    all_goals
      refine ⟨?_, ?_, ?_, ?_, hu'⟩ <;>
        simp [Issuer.count, lpddr5, commandName, ha, hp, hpa, hr]

theorem length_insert_of_notMem {key : List Int} (hkey : key ∉ t) (e : RowTable.Entry) :
    (AList.keys (t.insert key e)).length = t.keys.length + 1 := by
  rw [AList.keys, AList.entries_insert_of_notMem hkey]
  rfl

theorem length_le_insert (t : RowTable) (key : List Int) (e : RowTable.Entry) :
    t.keys.length ≤ (AList.keys (t.insert key e)).length := by
  rw [AList.keys_insert, List.length_cons]
  have hle := @List.le_length_erase _ instBEqOfDecidableEq _ key t.keys
  omega

/-- How many entries a command adds, and how many it removes at most. -/
theorem length_update {t' : RowTable} {o : RowOp Bank Int}
    (hserves : Serves s channels ranks id h c.channel) (hm : Mirrors id h t) (hid : addr.idx 0 = id)
    (ho : rowOp ⟨cmd, addr, clk⟩ = some o) (hlegal : o.Legal (OpenRows.after (rowOps h)))
    (ht : t.update (lpddr5 s channels ranks) cmd addr clk = .ok t') :
    t.keys.length + (if cmd = .act1 then 1 else 0) ≤ t'.keys.length +
      (if cmd = .pre then 1 else 0) + if cmd = .prea then 4 * 4 else 0 := by
  have hlook := hm.lookup (bankOf addr)
  rw [← (group_eq hid).1] at hlook
  cases cmd <;> cases ho
  case act1 =>
    have hnone : t.lookup (addr.group 4) = none := by
      rw [hlook, entryOf, hlegal]
      rfl
    obtain rfl := Except.ok.inj ((RowTable.update_opening rfl rfl rfl hnone).symm.trans ht)
    exact (length_insert_of_notMem (AList.lookup_eq_none.mp hnone) ⟨addr.idx 4, 0, clk⟩).ge
  case rd | wr =>
    have hentry : entryOf h (bankOf addr) = some ⟨addr.idx 4,
        OpenRows.hits (rowOps h) (bankOf addr), lastUse h (bankOf addr)⟩ := by
      rw [entryOf, hlegal]
      rfl
    obtain rfl := Except.ok.inj
      ((RowTable.update_accessing rfl rfl rfl (hlook.trans hentry) rfl).symm.trans ht)
    exact length_le_insert t (addr.group 4)
      ⟨addr.idx 4, OpenRows.hits (rowOps h) (bankOf addr) + 1, clk⟩
  case pre =>
    obtain rfl := RowTable.eq_of_update_closing rfl rfl rfl ht
    have hle := RowTable.length_le_eraseAll t (t.keys.filter fun key => key.take 4 = addr.group 4)
    exact hle.trans (Nat.add_le_add_left (length_closed_bank hm hid) _)
  case prea =>
    obtain rfl := RowTable.eq_of_update_closing rfl rfl rfl ht
    have hle := RowTable.length_le_eraseAll t (t.keys.filter fun key => key.take 2 = addr.group 2)
    exact hle.trans (Nat.add_le_add_left (length_closed_rank hserves hm hid) _)
  case refab =>
    obtain rfl := Except.ok.inj ((RowTable.update_other rfl rfl rfl).symm.trans ht)
    exact le_rfl

/-- The precharges that are reported, with each `PREA` for all banks of a rank, and the rows that
are still open are no fewer than the activations. -/
theorem activations_covered (hrun : Controls s channels ranks id h c) : Counts h c ∧
    c.activations ≤ c.getPrecharges (lpddr5 s channels ranks) + c.rowtable.keys.length := by
  induction hrun with
  | start => exact ⟨Controls.start.counts, le_rfl⟩
  | @issue h c c' cmd run type addr clk haddr hid hclk first hc ih =>
    have hrun' := run.issue type addr clk haddr hid hclk first hc
    obtain ⟨hold, hle⟩ := ih
    have hnew := hrun'.counts
    refine ⟨hnew, ?_⟩
    obtain ⟨hserves, hm⟩ := run.follows
    obtain ⟨-, d, -, t, ht, rfl⟩ := Issuer.issueCmd_eq_ok.mp hc
    obtain rfl := Except.ok.inj ((hserves.next haddr clk).1.symm.trans first)
    obtain ⟨o, ho, hlegal, -⟩ :=
      nextCommand_legal (OpenRows.after (rowOps h)) haddr clk
    have hlen := length_update hserves hm hid ho hlegal ht
    rw [Issuer.getPrecharges, hold.activations, hold.precharges, hold.prechargeAlls] at hle
    rw [Issuer.getPrecharges, hnew.activations, hnew.precharges, hnew.prechargeAlls,
      List.countP_cons, List.countP_cons, List.countP_cons]
    simp only [decide_eq_true_eq]
    change _ ≤ _ + _ * 4 * 4 + _ at hle
    change _ ≤ _ + _ * 4 * 4 + t.keys.length
    generalize nextCommand (OpenRows.after (rowOps h)) type addr = cmd at hlen
    split_ifs at hlen ⊢ <;> omega

theorem activations_covered_refresh : ∃ c, Controls lpddr5_6400 1 1 0
    [⟨.prea, [0, 0, -1, -1, -1, -1], 40⟩, ⟨.act1, [0, 0, 1, 2, 7, 3], 5⟩] c ∧
    c.activations ≤ c.getPrecharges (lpddr5 lpddr5_6400 1 1) + c.rowtable.keys.length := by
  have hstart : Controls lpddr5_6400 1 1 0 [] _ := .start
  have hact := hstart.issue .read [0, 0, 1, 2, 7, 3] 5 ⟨by decide, by decide, by decide⟩ rfl
    (by decide) rfl rfl
  have hprea := hact.issue .refresh [0, 0, -1, -1, -1, -1] 40 ⟨by decide, rfl⟩ rfl (by decide)
    rfl rfl
  exact ⟨_, hprea, (activations_covered hprea).2⟩

end Lpddr5

end NdpSim
