import NdpSim.Dram.Lpddr5
import NdpSim.Dram.Updates
import NdpSim.Library.OpenRows

/-!
# The banks of LPDDR5

A controller issues what the tables say has to come next for a request. The states of the banks are
then those of a machine that only knows which row of each bank is open.
-/
namespace NdpSim

open Library

namespace Lpddr5

/-- Rank, bank group and bank. -/
abbrev Bank := Int × Int × Int

def bankOf (addr : AddrVec) : Bank := (addr.idx 1, addr.idx 2, addr.idx 3)

/-- What the command does to the rows. -/
def rowOp (i : IssuedCmd Command) : Option (RowOp Bank Int) :=
  match i.cmd with
  | .act1 => some (.activate (bankOf i.addr) (i.addr.idx 4))
  | .rd | .wr => some (.access (bankOf i.addr) (i.addr.idx 4))
  | .pre => some (.precharge fun b => b = bankOf i.addr)
  | .prea => some (.precharge fun b => b.1 = i.addr.idx 1)
  | .refab => some (.refresh fun b => b.1 = i.addr.idx 1)
  | _ => none

def rowOps (h : List (IssuedCmd Command)) : List (RowOp Bank Int) := h.filterMap rowOp

/-! ## What the commands change -/

theorem find?_mapBanks (f : Node → Node) {n : Nat} (d : Dram Command State n) (path : List Nat) :
    (mapBanks f d).find? path =
      (d.find? path).map fun node => if path.length = 2 then f node else node :=
  match n, d, path with
  | 0, _, [] => rfl
  | 0, _, _ :: _ => rfl
  | 1, _, [] => rfl
  | 1, d, [_] => (Option.map_id' (x := Dram.find? d _)).symm
  | 1, d, i :: j :: path => by
    rw [Dram.find?_cons]
    show (d.children[i]?).bind _ = Option.map _ ((d.children[i]?).bind _)
    cases d.children[i]? <;> rfl
  | n + 2, d, [] => by rw [Dram.find?_nil, Dram.find?_nil]; rfl
  | n + 2, d, [i] => by
    rw [Dram.find?_cons, Dram.find?_cons, mapBanks, Dram.children_mk, List.getElem?_map]
    cases d.children[i]? with
    | none => rfl
    | some bg => rw [Option.map_some, Option.bind_some, Option.bind_some, Dram.find?_nil]; rfl
  | n + 2, d, i :: j :: path => by
    rw [Dram.find?_cons, Dram.find?_cons, mapBanks, Dram.children_mk, List.getElem?_map]
    cases d.children[i]? with
    | none => rfl
    | some bg =>
      rw [Option.map_some, Option.bind_some, Option.bind_some, Dram.find?_cons, Dram.find?_cons,
        Dram.children_mk, List.getElem?_map]
      cases bg.children[j]? with
      | none => rfl
      | some bank =>
        rw [Option.map_some, Option.bind_some, Option.bind_some, Dram.find?_mapSelf]
        congr 1
        funext node
        simp

/-- The change of a node at a path below the level of the entry. -/
def effect (s : SpeedEntry) (cmd : Command) (level : Nat) (id : Int) (path : List Nat)
    (node : Node) : Node :=
  match cmd, level with
  | .prea, 1 => if path.length = 2 then closeBank node else node
  | .rd, 1 | .wr, 1 => if path = [] then synced (s.nCL + s.nBL) node else node
  | .act1, 3 => if path = [] then openRow id node else node
  | .pre, 3 => if path = [] then closeBank node else node
  | _, _ => node

variable {s : SpeedEntry} {channels ranks : Nat} {d d' : Dram Command State 3} {addr : AddrVec}
  {clk : Int} {cmd : Command}

theorem acts (hcmd : (rowOp ⟨cmd, addr, clk⟩).isSome) :
    (lpddr5 s channels ranks).Acts cmd (effect s cmd) := by
  intro level n d id path
  have hid : (d.find? path) = (d.find? path).map fun node => node := (Option.map_id' ..).symm
  rcases level with _ | _ | _ | _ | level <;> cases cmd
  all_goals first
    | exact hid
    | exact Dram.find?_mapSelf _ d path
    | exact find?_mapBanks closeBank d path
    | cases hcmd

/-! ## Banks and their rows -/

def stateOf : Option Int → State
  | none => .closed
  | some _ => .opened

def rowStateOf : Option Int → Int → Option State
  | none => fun _ => none
  | some r => Function.update (fun _ => none) r (some .opened)

/-- The tree has these rows open, and the clocks below the root stand still. -/
structure Shows (rows : OpenRows Bank Int) (d : Dram Command State 3) : Prop where
  bank : ∀ (i j k : Nat) node, d.find? [i, j, k] = some node →
    node.state = stateOf (rows (i, j, k)) ∧ node.rowState = rowStateOf (rows (i, j, k)) ∧
      node.curClk = 0
  rank : ∀ (i : Nat) node, d.find? [i] = some node → node.curClk = 0 ∧ 0 ≤ node.mFinalSyncedCycle
  exist : ∀ b, rows b ≠ none →
    ∃ i j k : Nat, b = ((i : Int), (j : Int), (k : Int)) ∧ (d.find? [i, j, k]).isSome

theorem shows_create (s : SpeedEntry) (channels ranks : Nat) (id : Int) :
    Shows (fun _ => none) (.create (lpddr5 s channels ranks) 3 0 id) where
  bank i j k node hnode := by
    obtain ⟨id', rfl⟩ := Dram.find?_create hnode
    exact ⟨rfl, rfl, rfl⟩
  rank i node hnode := by
    obtain ⟨id', rfl⟩ := Dram.find?_create hnode
    exact ⟨rfl, le_rfl⟩
  exist b hb := absurd rfl hb

theorem through_bank {o : RowOp Bank Int} (hop : rowOp ⟨cmd, addr, clk⟩ = some o) (i j k : Nat)
    (node : Node) :
    (lpddr5 s channels ranks).through (effect s cmd) cmd addr 0 [i, j, k] node =
      match o with
      | .activate b r => if b = ((i : Int), (j : Int), (k : Int)) then openRow r node else node
      | .precharge p => if p (i, j, k) then closeBank node else node
      | _ => node := by
  cases cmd <;> cases hop
  case act1 => simp [Standard.through, effect, lpddr5, scope, bankOf, ite_and]
  case pre =>
    simp [Standard.through, effect, lpddr5, scope, bankOf, ite_and, eq_comm (b := addr.idx 1),
      eq_comm (b := addr.idx 2), eq_comm (b := addr.idx 3)]
  case prea => simp [Standard.through, effect, lpddr5, scope, eq_comm (b := addr.idx 1)]
  all_goals simp [Standard.through, effect, lpddr5, scope]

theorem through_rank {o : RowOp Bank Int} (hop : rowOp ⟨cmd, addr, clk⟩ = some o) (i : Nat)
    {node : Node} (hclk : node.curClk = 0) (hsync : 0 ≤ node.mFinalSyncedCycle) :
    let node := (lpddr5 s channels ranks).through (effect s cmd) cmd addr 0 [i] node
    node.curClk = 0 ∧ 0 ≤ node.mFinalSyncedCycle := by
  have hlat := s.latency_nonneg
  cases cmd <;> cases hop
  case rd | wr =>
    by_cases hi : addr.idx 1 = i
    · simp [Standard.through, effect, lpddr5, scope, hi, synced, hclk, hlat]
    · simp [Standard.through, effect, lpddr5, scope, hi, hclk, hsync]
  all_goals simp [Standard.through, effect, lpddr5, scope, hclk, hsync]

/-- What a legal command does to the tree is what it does to the rows. -/
theorem Shows.update {rows : OpenRows Bank Int} {o : RowOp Bank Int} (hs : Shows rows d)
    (hd : d.Numbered) (hop : rowOp ⟨cmd, addr, clk⟩ = some o) (hlegal : o.Legal rows)
    (hexist : ∀ b r, o = .activate b r →
      ∃ i j k : Nat, b = ((i : Int), (j : Int), (k : Int)) ∧ (d.find? [i, j, k]).isSome)
    (h : d.update (lpddr5 s channels ranks) cmd addr clk = .ok d') : Shows (o.apply rows) d' := by
  have hfind : ∀ path : List Nat, path ≠ [] → ∀ node', d'.find? path = some node' →
      ∃ node, d.find? path = some node ∧
        node'.state =
          ((lpddr5 s channels ranks).through (effect s cmd) cmd addr 0 path node).state ∧
        node'.rowState =
          ((lpddr5 s channels ranks).through (effect s cmd) cmd addr 0 path node).rowState ∧
        node'.curClk =
          ((lpddr5 s channels ranks).through (effect s cmd) cmd addr 0 path node).curClk ∧
        node'.mFinalSyncedCycle = ((lpddr5 s channels ranks).through (effect s cmd) cmd addr 0 path
          node).mFinalSyncedCycle := by
    intro path hpath node' hnode'
    rw [Dram.find?_update (acts (by rw [hop]; rfl)) hd h hpath] at hnode'
    obtain ⟨node, hnode, rfl⟩ := Option.map_eq_some_iff.mp hnode'
    exact ⟨node, hnode, rfl, rfl, rfl, rfl⟩
  constructor
  · intro i j k node' hnode'
    obtain ⟨node, hnode, hstate, hrow, hclk, -⟩ := hfind _ (List.cons_ne_nil _ _) _ hnode'
    obtain ⟨hst, hrs, hc⟩ := hs.bank i j k node hnode
    rw [hstate, hrow, hclk, through_bank hop]
    cases o with
    | activate b r =>
      by_cases hb : b = ((i : Int), (j : Int), (k : Int))
      · subst hb
        have hnone : rows (i, j, k) = none := hlegal
        rw [hnone] at hrs
        simp [RowOp.apply, openRow, stateOf, rowStateOf, hrs, hc]
      · simp [RowOp.apply, hb, Function.update_of_ne (Ne.symm hb), hst, hrs, hc]
    | precharge p =>
      by_cases hp : p (i, j, k)
      · simp [RowOp.apply, hp, closeBank, stateOf, rowStateOf, hc]
      · simp [RowOp.apply, hp, hst, hrs, hc]
    | access b r => exact ⟨hst, hrs, hc⟩
    | refresh p => exact ⟨hst, hrs, hc⟩
  · intro i node' hnode'
    obtain ⟨node, hnode, -, -, hclk, hsync⟩ := hfind _ (List.cons_ne_nil _ _) _ hnode'
    obtain ⟨hc, hm⟩ := hs.rank i node hnode
    rw [hclk, hsync]
    exact through_rank hop i hc hm
  · intro b hb
    have hkeep : ∀ path : List Nat, path ≠ [] → (d.find? path).isSome → (d'.find? path).isSome := by
      intro path hpath hsome
      rw [Dram.find?_update (acts (by rw [hop]; rfl)) hd h hpath, Option.isSome_map]
      exact hsome
    have hex : ∃ i j k : Nat, b = ((i : Int), (j : Int), (k : Int)) ∧
        (d.find? [i, j, k]).isSome := by
      by_cases hmoves : o.moves b = false
      · rw [RowOp.apply_of_not_moves hmoves] at hb
        exact hs.exist b hb
      · cases o with
        | activate b' r =>
          obtain rfl : b' = b := by simpa [RowOp.moves] using hmoves
          exact hexist b' r rfl
        | precharge p => exact absurd (if_pos (by simpa [RowOp.moves] using hmoves)) hb
        | access b' r => exact absurd rfl hmoves
        | refresh p => exact absurd rfl hmoves
    obtain ⟨i, j, k, heq, hsome⟩ := hex
    exact ⟨i, j, k, heq, hkeep _ (List.cons_ne_nil _ _) hsome⟩

/-! ## What has to come next -/

/-- A request is for a column of a row or, to refresh, for a rank. -/
def Addressed (ranks : Nat) (type : DramRequestType) (addr : AddrVec) : Prop :=
  (0 ≤ addr.idx 1 ∧ addr.idx 1 < ranks) ∧
    match type with
    | .read | .write => (0 ≤ addr.idx 2 ∧ addr.idx 2 < 4) ∧ 0 ≤ addr.idx 3 ∧ addr.idx 3 < 4
    | .refresh => addr.idx 2 = -1
    | _ => False

def accessCommand (cmd : Command) (row : Int) : Option Int → Command
  | none => .act1
  | some r => if r = row then cmd else .pre

open Classical in
/-- The command for a request, or one that has to precede it. -/
noncomputable def nextCommand (rows : OpenRows Bank Int) (type : DramRequestType) (addr : AddrVec) :
    Command :=
  if type = .refresh then
    if ∃ b : Bank, b.1 = addr.idx 1 ∧ rows b ≠ none then .prea else .refab
  else accessCommand (translate type) (addr.idx 4) (rows (bankOf addr))

theorem find?_path {d : Dram Command State 3} {i j k : Nat} {node : Node}
    (hnode : d.find? [i, j, k] = some node) : ∃ (rank : Dram Command State 2)
      (bg : Dram Command State 1) (bank : Dram Command State 0), d.children[i]? = some rank ∧
      rank.children[j]? = some bg ∧ bg.children[k]? = some bank ∧ bank.self = node := by
  rw [Dram.find?_cons] at hnode
  obtain ⟨rank, hrank, hnode⟩ := Option.bind_eq_some_iff.mp hnode
  rw [Dram.find?_cons] at hnode
  obtain ⟨bg, hbg, hnode⟩ := Option.bind_eq_some_iff.mp hnode
  rw [Dram.find?_cons] at hnode
  obtain ⟨bank, hbank, hnode⟩ := Option.bind_eq_some_iff.mp hnode
  exact ⟨rank, bg, bank, hrank, hbg, hbank,
    Option.some.inj ((Dram.find?_nil bank).symm.trans hnode)⟩

theorem descend {n : Nat} {d : Dram Command State (n + 1)} {c : Dram Command State n} {i : Nat}
    (hc : d.children[i]? = some c) : d.children ≠ [] ∧ d.child? i = some c := by
  refine ⟨fun hnil => ?_, Dram.child?_eq_some.mpr ⟨i, rfl, hc⟩⟩
  rw [hnil] at hc
  cases hc

variable {rows : OpenRows Bank Int} {type : DramRequestType}

theorem decode_access (hs : Shows rows d) (htype : type = .read ∨ type = .write) {i j k : Nat}
    (haddr : bankOf addr = ((i : Int), (j : Int), (k : Int))) (hsome : (d.find? [i, j, k]).isSome) :
    d.decode (lpddr5 s channels ranks) 0 [] (translate type) addr =
      .ok (nextCommand rows type addr) := by
  obtain ⟨node, hnode⟩ := Option.isSome_iff_exists.mp hsome
  obtain ⟨rank, bg, bank, hrank, hbg, hbank, rfl⟩ := find?_path hnode
  obtain ⟨hstate, hrow, hclk⟩ := hs.bank i j k _ hnode
  obtain ⟨-, hsync⟩ := hs.rank i rank.self
    (by rw [Dram.find?_cons, hrank]; exact Dram.find?_nil rank)
  obtain ⟨h1, h2, h3⟩ : addr.idx 1 = i ∧ addr.idx 2 = j ∧ addr.idx 3 = k := by
    simpa [bankOf] using haddr
  have hprereq : ∀ cmd cas,
      accessPrereq cmd cas [bg.self, rank.self, d.self] bank.self (addr.idx 4) =
      .ok (some (accessCommand cmd (addr.idx 4) (rows (i, j, k)))) := by
    intro cmd cas
    rw [accessPrereq, hstate]
    cases hr : rows ((i : Int), (j : Int), (k : Int)) with
    | none => rfl
    | some r =>
      rw [hr] at hrow
      by_cases heq : addr.idx 4 = r
      · subst heq
        simp [stateOf, hrow, rowStateOf, hclk, hsync, accessCommand]
      · simp [stateOf, hrow, rowStateOf, heq, Ne.symm heq, accessCommand]
  rw [nextCommand, if_neg (by rcases htype with rfl | rfl <;> decide), haddr]
  rcases htype with rfl | rfl
  all_goals
    simp only [Dram.decode, Dram.required, lpddr5, prereq, translate, ok_bind, h1, h2, h3,
      (descend hrank).1, (descend hrank).2, (descend hbg).1, (descend hbg).2, (descend hbank).1,
      (descend hbank).2,
      or_false, Nat.zero_add]
    rw [if_neg (by omega), if_neg (by omega), if_neg (by omega), hprereq]
    rfl

theorem mem_banks {d : Dram Command State 2} {node : Node} :
    node ∈ banks d ↔ ∃ j k : Nat, d.find? [j, k] = some node := by
  simp only [banks, List.mem_flatMap, List.mem_map, Dram.find?_cons, Dram.find?_nil]
  constructor
  · rintro ⟨bg, hbg, bank, hbank, rfl⟩
    obtain ⟨j, hj⟩ := List.mem_iff_getElem?.mp hbg
    obtain ⟨k, hk⟩ := List.mem_iff_getElem?.mp hbank
    exact ⟨j, k, by rw [hj, Option.bind_some, hk]; rfl⟩
  · rintro ⟨j, k, hnode⟩
    obtain ⟨bg, hbg, hnode⟩ := Option.bind_eq_some_iff.mp hnode
    obtain ⟨bank, hbank, hnode⟩ := Option.bind_eq_some_iff.mp hnode
    exact ⟨bg, List.mem_of_getElem? hbg, bank, List.mem_of_getElem? hbank, Option.some.inj hnode⟩

theorem decode_refresh (hs : Shows rows d) {i : Nat} (haddr : addr.idx 1 = i)
    (hsome : (d.find? [i]).isSome) :
    d.decode (lpddr5 s channels ranks) 0 [] (translate .refresh) addr =
      .ok (nextCommand rows .refresh addr) := by
  rw [Dram.find?_cons] at hsome
  obtain ⟨node, hnode⟩ := Option.isSome_iff_exists.mp hsome
  obtain ⟨rank, hrank, -⟩ := Option.bind_eq_some_iff.mp hnode
  have hany : ((banks rank).any fun bank => bank.state ≠ .closed) = true ↔
      ∃ b : Bank, b.1 = addr.idx 1 ∧ rows b ≠ none := by
    rw [List.any_eq_true, haddr]
    have hpath : ∀ j k : Nat, d.find? [i, j, k] = rank.find? [j, k] := by
      intro j k
      rw [Dram.find?_cons, hrank]
      rfl
    constructor
    · rintro ⟨bank, hbank, hopen⟩
      obtain ⟨j, k, hjk⟩ := mem_banks.mp hbank
      obtain ⟨hstate, -⟩ := hs.bank i j k bank ((hpath j k).trans hjk)
      refine ⟨(i, j, k), rfl, fun hnone => ?_⟩
      rw [hnone] at hstate
      simp [hstate, stateOf] at hopen
    · rintro ⟨b, hb, hopen⟩
      obtain ⟨i', j, k, rfl, hsome'⟩ := hs.exist b hopen
      obtain rfl : i' = i := by simpa using hb
      obtain ⟨bank, hbank⟩ := Option.isSome_iff_exists.mp hsome'
      obtain ⟨hstate, -⟩ := hs.bank i' j k bank hbank
      obtain ⟨r, hr⟩ := Option.ne_none_iff_exists'.mp hopen
      refine ⟨bank, mem_banks.mpr ⟨j, k, (hpath j k).symm.trans hbank⟩, ?_⟩
      simp [hstate, hr, stateOf]
  have hprereq : refabPrereq .refab rank = .ok (some (nextCommand rows .refresh addr)) := by
    rw [refabPrereq, nextCommand, if_pos rfl]
    by_cases hex : ∃ b : Bank, b.1 = addr.idx 1 ∧ rows b ≠ none
    · rw [if_pos (hany.mpr hex), if_pos hex]
    · rw [if_neg fun h => hex (hany.mp h), if_neg hex]
  simp only [Dram.decode, Dram.required, lpddr5, prereq, translate, ok_bind, haddr,
    (descend hrank).1, (descend hrank).2, or_false, Nat.zero_add]
  rw [if_neg (by omega), hprereq]
  rfl

theorem checkRow_bank {table : Nat → Command → Option (Node → Int → Except Fault Bool)}
    {f : Node → Int → Except Fault Bool} {i j k : Nat} {rank : Dram Command State 2}
    {bg : Dram Command State 1} {bank : Dram Command State 0}
    (haddr : bankOf addr = ((i : Int), (j : Int), (k : Int))) (hrank : d.children[i]? = some rank)
    (hbg : rank.children[j]? = some bg) (hbank : bg.children[k]? = some bank)
    (hnone : ∀ level < 3, table level cmd = none) (hf : table 3 cmd = some f) :
    d.checkRow table 0 cmd addr = f bank.self (addr.idx 4) := by
  obtain ⟨h1, h2, h3⟩ : addr.idx 1 = i ∧ addr.idx 2 = j ∧ addr.idx 3 = k := by
    simpa [bankOf] using haddr
  simp only [Dram.checkRow, hnone 0 (by decide), hnone 1 (by decide), hnone 2 (by decide), hf, h1,
    h2, h3, (descend hrank).1, (descend hrank).2, (descend hbg).1, (descend hbg).2,
    (descend hbank).1, (descend hbank).2, or_false, Nat.zero_add]
  rw [if_neg (by omega), if_neg (by omega), if_neg (by omega)]

theorem row_tables {level : Nat} (hlevel : level < 3) (cmd : Command) :
    rowhit level cmd = none ∧ rowopen level cmd = none := by
  obtain rfl | rfl | rfl : level = 0 ∨ level = 1 ∨ level = 2 := by omega
  all_goals cases cmd <;> exact ⟨rfl, rfl⟩

/-- `check_row_hit` and `check_row_open` read the rows. -/
theorem checkRow_access (hs : Shows rows d) (htype : type = .read ∨ type = .write) {i j k : Nat}
    (haddr : bankOf addr = ((i : Int), (j : Int), (k : Int))) (hsome : (d.find? [i, j, k]).isSome) :
    d.checkRowHit (lpddr5 s channels ranks) (translate type) addr =
        .ok (rows (bankOf addr) = some (addr.idx 4)) ∧
      d.checkRowOpen (lpddr5 s channels ranks) (translate type) addr =
        .ok (rows (bankOf addr)).isSome := by
  obtain ⟨node, hnode⟩ := Option.isSome_iff_exists.mp hsome
  obtain ⟨rank, bg, bank, hrank, hbg, hbank, rfl⟩ := find?_path hnode
  obtain ⟨hstate, hrow, -⟩ := hs.bank i j k _ hnode
  rw [haddr]
  change d.checkRow rowhit 0 (translate type) addr = _ ∧
    d.checkRow rowopen 0 (translate type) addr = _
  rcases htype with rfl | rfl
  all_goals
    rw [checkRow_bank haddr hrank hbg hbank (fun _ hl => (row_tables hl _).1) rfl,
      checkRow_bank haddr hrank hbg hbank (fun _ hl => (row_tables hl _).2) rfl]
    cases hr : rows ((i : Int), (j : Int), (k : Int)) with
    | none =>
      rw [hr] at hstate
      simp [hstate, stateOf]
    | some r =>
      rw [hr] at hstate hrow
      by_cases heq : addr.idx 4 = r
      · simp [hstate, hrow, stateOf, rowStateOf, heq]
      · simp [hstate, hrow, stateOf, rowStateOf, heq, Ne.symm heq]

end Lpddr5

end NdpSim
