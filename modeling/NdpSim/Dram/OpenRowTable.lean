import NdpSim.Dram.BankProtocol
import NdpSim.Dram.RowTable

/-!
# The row table and the banks

In every run the row table has an entry for each bank with an open row, and none else.
-/
namespace NdpSim

open Library

namespace Lpddr5

def bankKey (id : Int) (b : Bank) : List Int := [id, b.1, b.2.1, b.2.2]

theorem bankKey_inj {id : Int} {b b' : Bank} : bankKey id b = bankKey id b' ↔ b = b' := by
  obtain ⟨i, j, k⟩ := b
  obtain ⟨i', j', k'⟩ := b'
  simp [bankKey]

theorem group_eq {id : Int} {addr : AddrVec} (hid : addr.idx 0 = id) :
    addr.group 4 = bankKey id (bankOf addr) ∧ addr.group 2 = [id, addr.idx 1] := by
  subst hid
  exact ⟨rfl, rfl⟩

/-! ## The entry of a bank -/

def uses (b : Bank) (i : IssuedCmd Command) : Bool :=
  (i.cmd = .act1 || i.cmd = .rd || i.cmd = .wr) && bankOf i.addr = b

def lastUse (h : List (IssuedCmd Command)) (b : Bank) : Int :=
  ((h.find? (uses b)).map IssuedCmd.clk).getD 0

/-- The row of the bank, its accesses since it was opened, and when it was used last. -/
def entryOf (h : List (IssuedCmd Command)) (b : Bank) : Option RowTable.Entry :=
  (OpenRows.after (rowOps h) b).map fun r => ⟨r, OpenRows.hits (rowOps h) b, lastUse h b⟩

variable {h : List (IssuedCmd Command)} {i : IssuedCmd Command} {o : RowOp Bank Int} {b : Bank}

theorem rowOps_cons (ho : rowOp i = some o) : rowOps (i :: h) = o :: rowOps h := by
  rw [rowOps, List.filterMap_cons, ho]
  rfl

theorem uses_iff (ho : rowOp i = some o) (b : Bank) :
    uses b i = true ↔ (∃ r, o = .activate b r) ∨ ∃ r, o = .access b r := by
  obtain ⟨cmd, addr, clk⟩ := i
  cases cmd <;> cases ho <;> simp [uses]

theorem lastUse_cons (h : List (IssuedCmd Command)) (b : Bank) :
    lastUse (i :: h) b = if uses b i then i.clk else lastUse h b := by
  by_cases hu : uses b i <;> simp [lastUse, hu]

/-- A command that does not concern the bank leaves its entry as it is. -/
theorem entryOf_cons_of_other (ho : rowOp i = some o) (hmoves : o.moves b = false)
    (haccesses : o.accesses b = false) : entryOf (i :: h) b = entryOf h b := by
  have huses : uses b i = false := by
    rw [← Bool.not_eq_true, uses_iff ho]
    rintro (⟨r, rfl⟩ | ⟨r, rfl⟩)
    · simp [RowOp.moves] at hmoves
    · simp [RowOp.accesses] at haccesses
  rw [entryOf, entryOf, rowOps_cons ho, OpenRows.after_cons, RowOp.apply_of_not_moves hmoves,
    OpenRows.hits_cons_of_not_moves hmoves, haccesses, lastUse_cons, huses]
  rfl

theorem entryOf_cons_activate {r : Int} (ho : rowOp i = some (.activate b r)) :
    entryOf (i :: h) b = some ⟨r, 0, i.clk⟩ := by
  have huses : uses b i = true := (uses_iff ho b).mpr (.inl ⟨r, rfl⟩)
  rw [entryOf, rowOps_cons ho, OpenRows.hits_cons_of_moves (by simp [RowOp.moves]), lastUse_cons,
    huses]
  simp [RowOp.apply]

theorem entryOf_cons_access {r : Int} (ho : rowOp i = some (.access b r)) :
    entryOf (i :: h) b =
      (entryOf h b).map fun e => { e with hits := e.hits + 1, timestamp := i.clk } := by
  have huses : uses b i = true := (uses_iff ho b).mpr (.inr ⟨r, rfl⟩)
  rw [entryOf, entryOf, rowOps_cons ho, OpenRows.hits_cons_of_not_moves rfl, lastUse_cons, huses,
    Option.map_map]
  simp [RowOp.apply, RowOp.accesses, Function.comp_def]

theorem entryOf_cons_precharge {p : Bank → Bool} (ho : rowOp i = some (.precharge p)) (hp : p b) :
    entryOf (i :: h) b = none := by
  rw [entryOf, rowOps_cons ho]
  simp [RowOp.apply, hp]

/-! ## The table -/

structure Mirrors (id : Int) (h : List (IssuedCmd Command)) (t : RowTable) : Prop where
  lookup : ∀ b, t.lookup (bankKey id b) = entryOf h b
  keys : ∀ key ∈ t, ∃ b, key = bankKey id b

variable {s : SpeedEntry} {channels ranks : Nat} {id : Int} {t : RowTable} {cmd : Command}
  {addr : AddrVec} {clk : Int}

theorem Mirrors.insert (hm : Mirrors id h t) {e : RowTable.Entry} (ho : rowOp i = some o)
    (hself : entryOf (i :: h) b = some e)
    (hother : ∀ b' ≠ b, o.moves b' = false ∧ o.accesses b' = false) :
    Mirrors id (i :: h) (t.insert (bankKey id b) e) where
  lookup b' := by
    by_cases hb : b' = b
    · subst hb
      rw [AList.lookup_insert, hself]
    · rw [AList.lookup_insert_ne fun heq => hb (bankKey_inj.mp heq), hm.lookup,
        entryOf_cons_of_other ho (hother b' hb).1 (hother b' hb).2]
  keys key hkey := by
    obtain rfl | hkey := (AList.mem_insert t).mp hkey
    · exact ⟨b, rfl⟩
    · exact hm.keys key hkey

theorem Mirrors.eraseAll (hm : Mirrors id h t) {p : Bank → Bool}
    (ho : rowOp i = some (.precharge p)) {keys : List (List Int)}
    (hkeys : ∀ b, bankKey id b ∈ t → (bankKey id b ∈ keys ↔ p b)) :
    Mirrors id (i :: h) (t.eraseAll keys) where
  lookup b := by
    rw [RowTable.lookup_eraseAll]
    by_cases hb : bankKey id b ∈ t
    · by_cases hp : p b
      · rw [if_pos ((hkeys b hb).mpr hp), entryOf_cons_precharge ho hp]
      · rw [if_neg fun hin => hp ((hkeys b hb).mp hin), hm.lookup,
          entryOf_cons_of_other ho (by simpa [RowOp.moves] using hp) rfl]
    · have hnone := AList.lookup_eq_none.mpr hb
      have hafter : entryOf (i :: h) b = none := by
        by_cases hp : p b
        · exact entryOf_cons_precharge ho hp
        · rw [entryOf_cons_of_other ho (by simpa [RowOp.moves] using hp) rfl, ← hm.lookup, hnone]
      rw [hafter, hnone, ite_self]
  keys key hkey := by
    refine hm.keys key ?_
    rw [← AList.lookup_isSome, RowTable.lookup_eraseAll] at hkey
    split at hkey
    · cases hkey
    · exact AList.lookup_isSome.mp hkey

theorem Mirrors.mem_of_open (hm : Mirrors id h t) (hopen : OpenRows.after (rowOps h) b ≠ none) :
    bankKey id b ∈ t := by
  obtain ⟨r, hr⟩ := Option.ne_none_iff_exists'.mp hopen
  rw [← AList.lookup_isSome, hm.lookup, entryOf, hr]
  rfl

/-- The assertions of the row table hold, and it follows the banks. -/
theorem Mirrors.update (s : SpeedEntry) (channels ranks : Nat) (hm : Mirrors id h t)
    (hid : addr.idx 0 = id)
    (ho : rowOp ⟨cmd, addr, clk⟩ = some o) (hlegal : o.Legal (OpenRows.after (rowOps h))) :
    ∃ t', t.update (lpddr5 s channels ranks) cmd addr clk = .ok t' ∧
      Mirrors id (⟨cmd, addr, clk⟩ :: h) t' := by
  obtain ⟨hgroup, hrank⟩ := group_eq hid
  have hlook := hm.lookup (bankOf addr)
  rw [← hgroup] at hlook
  cases cmd <;> cases ho
  case act1 =>
    refine ⟨_, RowTable.update_opening rfl rfl rfl ?_, ?_⟩
    · refine hlook.trans ?_
      rw [entryOf, hlegal]
      rfl
    · change Mirrors id _ (t.insert (addr.group 4) _)
      rw [hgroup]
      exact hm.insert rfl (entryOf_cons_activate rfl) fun b' hb' =>
        ⟨by simp [RowOp.moves, Ne.symm hb'], rfl⟩
  case rd | wr =>
    have hentry : entryOf h (bankOf addr) = some ⟨addr.idx 4,
        OpenRows.hits (rowOps h) (bankOf addr), lastUse h (bankOf addr)⟩ := by
      rw [entryOf, hlegal]
      rfl
    refine ⟨_, RowTable.update_accessing rfl rfl rfl (hlook.trans hentry) rfl, ?_⟩
    change Mirrors id _ (t.insert (addr.group 4) _)
    rw [hgroup]
    refine hm.insert rfl ?_ fun b' hb' => ⟨rfl, by simp [RowOp.accesses, Ne.symm hb']⟩
    rw [entryOf_cons_access rfl, hentry]
    rfl
  case pre =>
    obtain ⟨b, hb, hopen⟩ := hlegal
    have hmatch : ∀ b : Bank, (bankKey id b).take 4 = addr.group 4 ↔ b = bankOf addr := by
      intro b
      rw [hgroup]
      exact bankKey_inj
    refine ⟨_, RowTable.update_closing rfl rfl rfl ⟨_, hm.mem_of_open hopen, ?_⟩,
      hm.eraseAll rfl fun b hmem => ?_⟩
    · exact (hmatch b).mpr (by simpa using hb)
    · rw [List.mem_filter, decide_eq_true_eq, decide_eq_true_eq]
      exact (and_iff_right (AList.mem_keys.mp hmem)).trans (hmatch b)
  case prea =>
    obtain ⟨b, hb, hopen⟩ := hlegal
    have hmatch : ∀ b : Bank, (bankKey id b).take 2 = addr.group 2 ↔ b.1 = addr.idx 1 := by
      intro b
      rw [hrank]
      simp [bankKey]
    refine ⟨_, RowTable.update_closing rfl rfl rfl ⟨_, hm.mem_of_open hopen, ?_⟩,
      hm.eraseAll rfl fun b hmem => ?_⟩
    · exact (hmatch b).mpr (by simpa using hb)
    · rw [List.mem_filter, decide_eq_true_eq, decide_eq_true_eq]
      exact (and_iff_right (AList.mem_keys.mp hmem)).trans (hmatch b)
  case refab =>
    refine ⟨t, RowTable.update_other rfl rfl rfl, fun b => ?_, hm.keys⟩
    rw [hm.lookup, entryOf_cons_of_other rfl rfl rfl]

/-! ## Runs -/

/-- Commands are issued for one request after the other, each the first that its request needs. -/
inductive Controls (s : SpeedEntry) (channels ranks : Nat) (id : Int) :
    List (IssuedCmd Command) → Issuer Command State 3 → Prop
  | start : Controls s channels ranks id [] { channel := .create (lpddr5 s channels ranks) 3 0 id }
  | issue {h : List (IssuedCmd Command)} {c c' : Issuer Command State 3} {cmd : Command}
      (run : Controls s channels ranks id h c) (type : DramRequestType) (addr : AddrVec) (clk : Int)
      (addressed : Addressed ranks type addr) (channel : addr.idx 0 = id) (clk_nonneg : 0 ≤ clk)
      (first : c.channel.decode (lpddr5 s channels ranks) 0 [] (translate type) addr = .ok cmd)
      (hc : c.issueCmd (lpddr5 s channels ranks) cmd addr clk = .ok c') :
      Controls s channels ranks id (⟨cmd, addr, clk⟩ :: h) c'

variable {c c' : Issuer Command State 3}

theorem Controls.follows (hrun : Controls s channels ranks id h c) :
    Serves s channels ranks id h c.channel ∧ Mirrors id h c.rowtable := by
  induction hrun with
  | start => exact ⟨.start, fun b => rfl, fun key hkey => absurd hkey (AList.notMem_empty key)⟩
  | @issue h c c' cmd run type addr clk haddr hid hclk first hc ih =>
    obtain ⟨hserves, hm⟩ := ih
    obtain ⟨hready, d, hd, t, ht, rfl⟩ := Issuer.issueCmd_eq_ok.mp hc
    obtain rfl := Except.ok.inj ((hserves.next haddr clk).1.symm.trans first)
    obtain ⟨o, ho, hlegal, -⟩ :=
      nextCommand_legal (OpenRows.after (rowOps h)) haddr clk
    obtain ⟨t', ht', hm'⟩ := hm.update s channels ranks hid ho hlegal
    obtain rfl := Except.ok.inj (ht.symm.trans ht')
    exact ⟨hserves.issue type addr clk haddr hclk first hready hd, hm'⟩

/-- A command that is ready can be issued. -/
theorem Controls.issueCmd_isOk (hrun : Controls s channels ranks id h c) {type : DramRequestType}
    {addr : AddrVec} {clk : Int} {cmd : Command} (haddr : Addressed ranks type addr)
    (hid : addr.idx 0 = id)
    (first : c.channel.decode (lpddr5 s channels ranks) 0 [] (translate type) addr = .ok cmd)
    (hready : c.channel.check (lpddr5 s channels ranks).toTimingTable 0 cmd addr clk = .ok true) :
    ∃ c', c.issueCmd (lpddr5 s channels ranks) cmd addr clk = .ok c' := by
  obtain ⟨hserves, hm⟩ := hrun.follows
  obtain ⟨hdecode, -, d, hd⟩ := hserves.next haddr clk
  obtain rfl := Except.ok.inj (hdecode.symm.trans first)
  obtain ⟨o, ho, hlegal, -⟩ := nextCommand_legal (OpenRows.after (rowOps h)) haddr clk
  obtain ⟨t, ht, -⟩ := hm.update s channels ranks hid ho hlegal
  exact ⟨_, Issuer.issueCmd_eq_ok.mpr ⟨hready, d, hd, t, ht, rfl⟩⟩

/-- The row table tells the open row of each bank, how often it was accessed and when it was used
last, and its assertions never stop a command that is ready. -/
theorem rowtable_mirrors_banks (hrun : Controls s channels ranks id h c) :
    (∀ key e, c.rowtable.lookup key = some e ↔ ∃ b, key = bankKey id b ∧ entryOf h b = some e) ∧
    (∀ addr, addr.idx 0 = id → c.rowtable.getOpenRow (lpddr5 s channels ranks) addr =
      (OpenRows.after (rowOps h) (bankOf addr)).getD (-1)) ∧
    ∀ type addr clk cmd, Addressed ranks type addr → addr.idx 0 = id →
      c.channel.decode (lpddr5 s channels ranks) 0 [] (translate type) addr = .ok cmd →
      c.channel.check (lpddr5 s channels ranks).toTimingTable 0 cmd addr clk = .ok true →
      ∃ c', c.issueCmd (lpddr5 s channels ranks) cmd addr clk = .ok c' := by
  obtain ⟨-, hm⟩ := hrun.follows
  refine ⟨fun key e => ⟨fun hlook => ?_, ?_⟩, fun addr hid => ?_,
    fun type addr clk cmd haddr hid first hready => hrun.issueCmd_isOk haddr hid first hready⟩
  · obtain ⟨b, rfl⟩ := hm.keys key (AList.lookup_isSome.mp (by rw [hlook]; rfl))
    exact ⟨b, rfl, (hm.lookup b).symm.trans hlook⟩
  · rintro ⟨b, rfl, he⟩
    exact (hm.lookup b).trans he
  · have hlook := hm.lookup (bankOf addr)
    rw [← (group_eq hid).1] at hlook
    change c.rowtable.lookup (addr.group (lpddr5 s channels ranks).rowLevel) = _ at hlook
    rw [RowTable.getOpenRow, hlook, entryOf]
    cases OpenRows.after (rowOps h) (bankOf addr) <;> rfl

theorem rowtable_mirrors_banks_read : ∃ c, Controls lpddr5_6400 1 1 0
    [⟨.rd, [0, 0, 1, 2, 7, 3], 20⟩, ⟨.act1, [0, 0, 1, 2, 7, 3], 5⟩] c ∧
    c.rowtable.lookup [0, 0, 1, 2] = some ⟨7, 1, 20⟩ := by
  have haddr : Addressed 1 .read [0, 0, 1, 2, 7, 3] := ⟨by decide, by decide, by decide⟩
  have hstart : Controls lpddr5_6400 1 1 0 [] _ := .start
  have hact := hstart.issue .read [0, 0, 1, 2, 7, 3] 5 haddr rfl (by decide) rfl rfl
  have hread := hact.issue .read [0, 0, 1, 2, 7, 3] 20 haddr rfl (by decide) rfl rfl
  exact ⟨_, hread, ((rowtable_mirrors_banks hread).1 _ _).mpr ⟨(0, 1, 2), rfl, rfl⟩⟩

end Lpddr5

end NdpSim
