import NdpSim.Dram.BankStates

/-!
# The commands of a run

Whatever the requests and their order, commands that are issued on their behalf when `check` allows
it keep to the rules of the banks.
-/
namespace NdpSim

open Library

namespace Lpddr5

variable {s : SpeedEntry} {channels ranks : Nat} {id : Int} {h : List (IssuedCmd Command)}
  {d d' : Dram Command State 3} {addr : AddrVec} {type : DramRequestType}

/-- `issue_cmd` for one request after the other. -/
inductive Serves (s : SpeedEntry) (channels ranks : Nat) (id : Int) :
    List (IssuedCmd Command) → Dram Command State 3 → Prop
  | start : Serves s channels ranks id [] (.create (lpddr5 s channels ranks) 3 0 id)
  | issue {h : List (IssuedCmd Command)} {d d' : Dram Command State 3} {cmd : Command}
      (run : Serves s channels ranks id h d) (type : DramRequestType) (addr : AddrVec) (clk : Int)
      (addressed : Addressed ranks type addr) (clk_nonneg : 0 ≤ clk)
      (first : d.decode (lpddr5 s channels ranks) 0 [] (translate type) addr = .ok cmd)
      (ready : d.check (lpddr5 s channels ranks).toTimingTable 0 cmd addr clk = .ok true)
      (hd : d.update (lpddr5 s channels ranks) cmd addr clk = .ok d') :
      Serves s channels ranks id (⟨cmd, addr, clk⟩ :: h) d'

theorem Serves.issues (hrun : Serves s channels ranks id h d) :
    Issues (lpddr5 s channels ranks) 3 id h d := by
  induction hrun with
  | start => exact .start
  | issue _ type addr clk _ clk_nonneg _ ready hd ih =>
    exact ih.issue ⟨_, addr, clk⟩ clk_nonneg ready hd

/-! ## Where an address leads -/

theorem isSome_create_rank (s : SpeedEntry) (channels ranks : Nat) (id : Int) {i : Nat} :
    ((Dram.create (lpddr5 s channels ranks) 3 0 id).find? [i]).isSome ↔ i < ranks := by
  rw [Dram.create, Dram.find?_cons, Dram.children_mk, List.getElem?_map]
  by_cases hi : i < ranks
  · rw [List.getElem?_range (by exact hi)]
    simp [hi]
  · rw [List.getElem?_eq_none (by simpa [lpddr5, count] using hi)]
    simp [hi]

theorem isSome_create_bank {i j k : Nat} (hi : i < ranks) (hj : j < 4) (hk : k < 4) :
    ((Dram.create (lpddr5 s channels ranks) 3 0 id).find? [i, j, k]).isSome := by
  rw [Dram.create, Dram.find?_cons, Dram.children_mk, List.getElem?_map,
    List.getElem?_range (by exact hi), Option.map_some, Option.bind_some, Dram.create,
    Dram.find?_cons, Dram.children_mk, List.getElem?_map, List.getElem?_range (by exact hj),
    Option.map_some, Option.bind_some, Dram.create, Dram.find?_cons, Dram.children_mk,
    List.getElem?_map, List.getElem?_range (by exact hk)]
  rfl

theorem Serves.find?_isSome (hrun : Serves s channels ranks id h d) (path : List Nat) :
    (d.find? path).isSome =
      ((Dram.create (lpddr5 s channels ranks) 3 0 id).find? path).isSome := by
  rw [← hrun.issues.tells.2.1 path, Dram.skeleton, Option.isSome_map]

theorem Serves.rank (hrun : Serves s channels ranks id h d) (haddr : Addressed ranks type addr) :
    ∃ i : Nat, addr.idx 1 = i ∧ (d.find? [i]).isSome := by
  obtain ⟨⟨hlow, hhigh⟩, -⟩ := haddr
  refine ⟨(addr.idx 1).toNat, (Int.toNat_of_nonneg hlow).symm, ?_⟩
  rw [hrun.find?_isSome, isSome_create_rank]
  omega

theorem Serves.bank (hrun : Serves s channels ranks id h d) (haddr : Addressed ranks type addr)
    (htype : type = .read ∨ type = .write) : ∃ i j k : Nat,
      bankOf addr = ((i : Int), (j : Int), (k : Int)) ∧ (d.find? [i, j, k]).isSome := by
  have hfields : (0 ≤ addr.idx 2 ∧ addr.idx 2 < 4) ∧ 0 ≤ addr.idx 3 ∧ addr.idx 3 < 4 := by
    rcases htype with rfl | rfl <;> exact haddr.2
  obtain ⟨⟨hlow, hhigh⟩, -⟩ := haddr
  obtain ⟨⟨hlow2, hhigh2⟩, hlow3, hhigh3⟩ := hfields
  refine ⟨(addr.idx 1).toNat, (addr.idx 2).toNat, (addr.idx 3).toNat, ?_, ?_⟩
  · rw [Int.toNat_of_nonneg hlow, Int.toNat_of_nonneg hlow2, Int.toNat_of_nonneg hlow3]
    rfl
  · rw [hrun.find?_isSome]
    exact isSome_create_bank (by omega) (by omega) (by omega)

/-- A request is a read, a write or a refresh. -/
theorem Addressed.cases (haddr : Addressed ranks type addr) :
    (type = .read ∨ type = .write) ∨ type = .refresh := by
  cases type <;> simp_all [Addressed]

/-! ## The next command -/

variable {rows : OpenRows Bank Int}

/-- It is one that the banks are ready for. -/
theorem nextCommand_legal (rows : OpenRows Bank Int) (haddr : Addressed ranks type addr)
    (clk : Int) :
    ∃ o, rowOp ⟨nextCommand rows type addr, addr, clk⟩ = some o ∧ o.Legal rows ∧
      ∀ b r, o = .activate b r → (type = .read ∨ type = .write) ∧ b = bankOf addr := by
  obtain htype | rfl := haddr.cases
  · have hne : type ≠ .refresh := by rcases htype with rfl | rfl <;> decide
    rw [nextCommand, if_neg hne]
    cases hr : rows (bankOf addr) with
    | none =>
      refine ⟨_, rfl, hr, fun b r heq => ⟨htype, ?_⟩⟩
      exact (RowOp.activate.inj heq).1.symm
    | some r =>
      rw [accessCommand]
      by_cases heq : r = addr.idx 4
      · rw [if_pos heq]
        subst heq
        refine ⟨.access (bankOf addr) (addr.idx 4), ?_, hr, by simp⟩
        rcases htype with rfl | rfl <;> rfl
      · rw [if_neg heq]
        exact ⟨_, rfl, ⟨bankOf addr, by simp, by simp [hr]⟩, by simp⟩
  · rw [nextCommand, if_pos rfl]
    by_cases hex : ∃ b : Bank, b.1 = addr.idx 1 ∧ rows b ≠ none
    · rw [if_pos hex]
      obtain ⟨b, hb, hopen⟩ := hex
      exact ⟨_, rfl, ⟨b, by simpa using hb, hopen⟩, by simp⟩
    · rw [if_neg hex]
      refine ⟨_, rfl, fun b hb => ?_, by simp⟩
      by_contra hopen
      exact hex ⟨b, by simpa using hb, hopen⟩

theorem of_nextCommand_eq_pre (haddr : Addressed ranks type addr)
    (hpre : nextCommand rows type addr = .pre) : (type = .read ∨ type = .write) ∧
      ∃ r, rows (bankOf addr) = some r ∧ r ≠ addr.idx 4 := by
  obtain htype | rfl := haddr.cases
  · refine ⟨htype, ?_⟩
    rw [nextCommand, if_neg (by rcases htype with rfl | rfl <;> decide)] at hpre
    cases hr : rows (bankOf addr) with
    | none =>
      rw [hr] at hpre
      cases hpre
    | some r =>
      rw [hr, accessCommand] at hpre
      refine ⟨r, rfl, fun heq => ?_⟩
      rw [if_pos heq] at hpre
      rcases htype with rfl | rfl <;> cases hpre
  · rw [nextCommand, if_pos rfl] at hpre
    split at hpre <;> cases hpre

theorem Serves.decode_eq (hrun : Serves s channels ranks id h d) (hs : Shows rows d)
    (haddr : Addressed ranks type addr) :
    d.decode (lpddr5 s channels ranks) 0 [] (translate type) addr =
      .ok (nextCommand rows type addr) := by
  obtain htype | rfl := haddr.cases
  · obtain ⟨i, j, k, hbank, hsome⟩ := hrun.bank haddr htype
    exact decode_access hs htype hbank hsome
  · obtain ⟨i, hi, hsome⟩ := hrun.rank haddr
    exact decode_refresh hs hi hsome

/-- The tree and the rules of the banks, after every command. -/
theorem Serves.follows (hrun : Serves s channels ranks id h d) :
    (∀ i ∈ h, (rowOp i).isSome) ∧ OpenRows.LegalHistory (rowOps h) ∧
      Shows (OpenRows.after (rowOps h)) d := by
  induction hrun with
  | start => exact ⟨by simp, OpenRows.legalHistory_nil, shows_create s channels ranks id⟩
  | @issue h d d' cmd run type addr clk haddr hclk first ready hd ih =>
    obtain ⟨hsome, hlegal, hs⟩ := ih
    obtain rfl := Except.ok.inj ((run.decode_eq hs haddr).symm.trans first)
    obtain ⟨o, ho, hol, hact⟩ :=
      nextCommand_legal (OpenRows.after (rowOps h)) haddr clk
    have hops : rowOps (⟨nextCommand (OpenRows.after (rowOps h)) type addr, addr, clk⟩ :: h) =
        o :: rowOps h := by
      rw [rowOps, List.filterMap_cons, ho]
      rfl
    refine ⟨List.forall_mem_cons.mpr ⟨by rw [ho]; rfl, hsome⟩, ?_, ?_⟩
    · rw [hops]
      exact hlegal.cons hol
    · rw [hops]
      refine hs.update run.issues.tells.1 ho hol (fun b r heq => ?_) hd
      obtain ⟨htype, rfl⟩ := hact b r heq
      exact run.bank haddr htype

/-- Only the opening of rows counts more than the last command. -/
theorem dist_eq_one (s : SpeedEntry) (level : Nat) (cmd : Command) :
    ∀ t ∈ timing s level cmd, t.dist = 1 ∨ t.sibling = false ∧ cmd = .act1 := by
  unfold timing
  split <;> simp [wait, waitSibling]

theorem immediate (s : SpeedEntry) (channels ranks : Nat) :
    (lpddr5 s channels ranks).toTimingTable.Immediate := by
  constructor
  · intro level cmd t ht hs
    obtain hdist | ⟨hself, -⟩ := dist_eq_one s level cmd t ht
    · exact hdist
    · rw [hs] at hself
      cases hself
  · intro level cmd hrefresh t ht _
    obtain hdist | ⟨-, rfl⟩ := dist_eq_one s level cmd t ht
    · exact hdist
    · cases hrefresh

theorem Serves.runs_on (hrun : Serves s channels ranks id h d) (haddr : Addressed ranks type addr)
    (clk : Int) : let cmd := nextCommand (OpenRows.after (rowOps h)) type addr
    (∃ b, d.check (lpddr5 s channels ranks).toTimingTable 0 cmd addr clk = .ok b) ∧
      ∃ d', d.update (lpddr5 s channels ranks) cmd addr clk = .ok d' := by
  intro cmd
  obtain ⟨o, ho, -⟩ := nextCommand_legal (OpenRows.after (rowOps h)) haddr clk
  have hacts : (lpddr5 s channels ranks).Acts cmd (effect s cmd) := acts (by rw [ho]; rfl)
  obtain htype | rfl := haddr.cases
  · obtain ⟨i, j, k, hbank, hsome⟩ := hrun.bank haddr htype
    obtain ⟨h1, h2, h3⟩ : addr.idx 1 = i ∧ addr.idx 2 = j ∧ addr.idx 3 = k := by
      simpa [bankOf] using hbank
    have halong : addr.Along 0 [i, j, k] := ⟨h1, h2, h3, trivial⟩
    exact ⟨Dram.check_isOk halong hsome (.inl rfl),
      Dram.update_isOk (immediate s channels ranks) hacts halong hsome (.inl rfl)⟩
  · obtain ⟨i, hi, hsome⟩ := hrun.rank haddr
    have halong : addr.Along 0 [i] := ⟨hi, trivial⟩
    have hscope : (lpddr5 s channels ranks).scope cmd = 1 := by
      show scope (nextCommand _ .refresh addr) = 1
      rw [nextCommand, if_pos rfl]
      split <;> rfl
    exact ⟨Dram.check_isOk halong hsome (.inr (by rw [hscope]; rfl)),
      Dram.update_isOk (immediate s channels ranks) hacts halong hsome
        (.inr (by rw [hscope]; rfl))⟩

theorem Serves.next (hrun : Serves s channels ranks id h d) (haddr : Addressed ranks type addr)
    (clk : Int) : let cmd := nextCommand (OpenRows.after (rowOps h)) type addr
    d.decode (lpddr5 s channels ranks) 0 [] (translate type) addr = .ok cmd ∧
      (∃ b, d.check (lpddr5 s channels ranks).toTimingTable 0 cmd addr clk = .ok b) ∧
      ∃ d', d.update (lpddr5 s channels ranks) cmd addr clk = .ok d' :=
  ⟨hrun.decode_eq hrun.follows.2.2 haddr, hrun.runs_on haddr clk⟩

/-- A bank is opened when it is closed, a row is accessed while it is open, something is closed only
if it is open, and a rank is refreshed when all its banks are closed. No other commands are issued,
the next one is what these rules ask for, and no assertion of the tables fails. -/
theorem commands_legal (hrun : Serves s channels ranks id h d) :
    (∀ i ∈ h, (rowOp i).isSome) ∧ OpenRows.LegalHistory (rowOps h) ∧
      ∀ type addr, Addressed ranks type addr → ∀ clk,
        let cmd := nextCommand (OpenRows.after (rowOps h)) type addr
        d.decode (lpddr5 s channels ranks) 0 [] (translate type) addr = .ok cmd ∧
        (∃ b, d.check (lpddr5 s channels ranks).toTimingTable 0 cmd addr clk = .ok b) ∧
        ∃ d', d.update (lpddr5 s channels ranks) cmd addr clk = .ok d' := by
  obtain ⟨hsome, hlegal, -⟩ := hrun.follows
  exact ⟨hsome, hlegal, fun type addr haddr clk => hrun.next haddr clk⟩

theorem commands_legal_read : ∃ d, Serves lpddr5_6400 1 1 0
    [⟨.rd, [0, 0, 1, 2, 7, 3], 20⟩, ⟨.act1, [0, 0, 1, 2, 7, 3], 5⟩] d ∧
    OpenRows.LegalHistory (rowOps
      [⟨.rd, [0, 0, 1, 2, 7, 3], 20⟩, ⟨.act1, [0, 0, 1, 2, 7, 3], 5⟩]) := by
  have haddr : Addressed 1 .read [0, 0, 1, 2, 7, 3] := ⟨by decide, by decide, by decide⟩
  have hstart : Serves lpddr5_6400 1 1 0 [] _ := .start
  have hact := hstart.issue .read [0, 0, 1, 2, 7, 3] 5 haddr (by decide) rfl rfl rfl
  have hread := hact.issue .read [0, 0, 1, 2, 7, 3] 20 haddr (by decide) rfl rfl rfl
  exact ⟨_, hread, (commands_legal hread).2.1⟩

end Lpddr5

end NdpSim
