import NdpSim.Dram.TimingRules

/-!
# What a command changes

An update walks down the tree and applies the entries of the tables on its way. Where these change
nodes one by one, so does the update.
-/
namespace NdpSim

open Library

variable {C S : Type} {S' : Standard C S} {f : Nat → Int → List Nat → DramNode C S → DramNode C S}

/-- The entry of each level changes the node at a path below it by `f`. -/
def Standard.Acts (S' : Standard C S) (cmd : C)
    (f : Nat → Int → List Nat → DramNode C S → DramNode C S) : Prop :=
  ∀ level n (d : Dram C S n) id path,
    (d.applyLambda S' level cmd id).find? path = (d.find? path).map (f level id path)

/-- All entries on the way down, from the level on, to the node at a path. -/
def Standard.through (S' : Standard C S) (f : Nat → Int → List Nat → DramNode C S → DramNode C S)
    (cmd : C) (addr : AddrVec) : Nat → List Nat → DramNode C S → DramNode C S
  | level, [], node => f level (addr.idx (level + 1)) [] node
  | level, i :: path, node =>
    let node := f level (addr.idx (level + 1)) (i :: path) node
    if level ≠ S'.scope cmd ∧ addr.idx (level + 1) = i then
      S'.through f cmd addr (level + 1) path node
    else node

namespace Dram

variable {n level : Nat} {d d' : Dram C S n} {cmd : C} {addr : AddrVec} {clk : Int}

theorem find?_updateState (hf : S'.Acts cmd f) (h : d.updateState S' level cmd addr = .ok d')
    (path : List Nat) : d'.find? path = (d.find? path).map (S'.through f cmd addr level path) := by
  induction n generalizing level path with
  | zero =>
    obtain rfl := Except.ok.inj h
    cases path with
    | nil => exact hf level 0 d _ []
    | cons i path => rfl
  | succ n ih =>
    rw [updateState] at h
    have hlambda := hf level (n + 1) d (addr.idx (level + 1))
    generalize d.applyLambda S' level cmd (addr.idx (level + 1)) = e at h hlambda
    split at h
    case isTrue hstop =>
      obtain rfl := Except.ok.inj h
      rw [hlambda]
      cases path with
      | nil => rfl
      | cons i path =>
        obtain hscope | hnil := hstop
        · simp [Standard.through, hscope]
        · have hnone : e.find? (i :: path) = none := by rw [find?_cons, hnil]; rfl
          rw [hlambda, Option.map_eq_none_iff] at hnone
          rw [hnone]
          rfl
    case isFalse hgo =>
      split at h
      · cases h
      case h_2 c hc =>
        obtain ⟨c', hc', heq⟩ := bind_eq_ok.mp h
        obtain rfl := Except.ok.inj heq
        obtain ⟨i, hi, hget⟩ := child?_eq_some.mp hc
        cases path with
        | nil =>
          rw [find?_nil, self_mk, ← find?_nil e, hlambda]
          rfl
        | cons j path =>
          rw [find?_cons, children_mk, hi, Int.toNat_natCast, List.getElem?_set]
          have hold := hlambda (j :: path)
          rw [find?_cons] at hold
          by_cases hij : i = j
          · subst hij
            have hlt : i < e.children.length := (List.getElem?_eq_some_iff.mp hget).1
            rw [hget, Option.bind_some] at hold
            rw [if_pos rfl, if_pos hlt, Option.bind_some, ih hc' path, hold, Option.map_map]
            congr 1
            funext node
            simp only [Function.comp_apply, Standard.through]
            rw [if_pos ⟨fun hs => hgo (.inl hs), hi⟩]
          · rw [if_neg hij, hold]
            congr 1
            funext node
            simp only [Standard.through]
            rw [if_neg fun hboth => hij (by have := hboth.2; omega)]

/-- The way down is long enough for the command. -/
theorem updateState_isOk (hf : S'.Acts cmd f) {path : List Nat} (halong : addr.Along level path)
    (hsome : (d.find? path).isSome) (hlen : path.length = n ∨ level + path.length = S'.scope cmd) :
    ∃ d', d.updateState S' level cmd addr = .ok d' := by
  induction path generalizing n level with
  | nil =>
    cases n with
    | zero => exact ⟨_, rfl⟩
    | succ n =>
      have hscope : level = S'.scope cmd := by simpa using hlen
      exact ⟨_, by rw [updateState]; exact if_pos (.inl hscope)⟩
  | cons i path ih =>
    cases n with
    | zero => cases hsome
    | succ n =>
      rw [updateState]
      have hlambda := hf level (n + 1) d (addr.idx (level + 1)) (i :: path)
      generalize d.applyLambda S' level cmd (addr.idx (level + 1)) = e at hlambda ⊢
      rw [← Option.isSome_map, ← hlambda, find?_cons] at hsome
      split
      · exact ⟨_, rfl⟩
      · cases hget : e.children[i]? with
        | none =>
          rw [hget] at hsome
          cases hsome
        | some c =>
          rw [hget] at hsome
          obtain ⟨c', hc'⟩ := ih (d := c) halong.2 hsome (by simp at hlen; omega)
          rw [child?_eq_some.mpr ⟨i, halong.1, hget⟩]
          exact ⟨_, by dsimp only; rw [hc']; rfl⟩

variable [DecidableEq C]

theorem check_isOk {T : TimingTable C} {path : List Nat} (halong : addr.Along level path)
    (hsome : (d.find? path).isSome) (hlen : path.length = n ∨ level + path.length = T.scope cmd) :
    ∃ b, d.check T level cmd addr clk = .ok b := by
  induction path generalizing n level with
  | nil =>
    cases n with
    | zero => exact ⟨_, rfl⟩
    | succ n =>
      have hscope : level = T.scope cmd := by simpa using hlen
      rw [check]
      split
      · exact ⟨_, if_pos (.inr (.inl hscope))⟩
      · exact ⟨_, rfl⟩
  | cons i path ih =>
    cases n with
    | zero => cases hsome
    | succ n =>
      rw [find?_cons] at hsome
      rw [check]
      dsimp only
      split
      · split
        · exact ⟨_, rfl⟩
        · cases hget : d.children[i]? with
          | none =>
            rw [hget] at hsome
            cases hsome
          | some c =>
            rw [hget] at hsome
            rw [child?_eq_some.mpr ⟨i, halong.1, hget⟩]
            exact ih (d := c) halong.2 hsome (by simp at hlen; omega)
      · exact ⟨_, rfl⟩

/-- The nodes after an update. -/
theorem find?_update (hf : S'.Acts cmd f) (hd : d.Numbered)
    (h : d.update S' cmd addr clk = .ok d') {path : List Nat} (hpath : path ≠ []) :
    d'.find? path = (d.find? path).map fun node => (S'.through f cmd addr 0 path node).seen
      S'.toTimingTable path.length (addr.reach 0 d.self.id path) cmd clk := by
  obtain ⟨e, he, htiming⟩ := bind_eq_ok.mp h
  have hskel : ∀ path, e.skeleton path = d.skeleton path := fun path =>
    (skeleton_updateState he path).trans
      (skeleton_mapSelf (f := fun node => { node with curClk := clk }) (fun _ => ⟨rfl, rfl⟩) d path)
  have hnum : e.Numbered := hd.of_skeleton fun path => by rw [hskel]
  have hself : e.self.id = d.self.id := by
    have hnil := hskel []
    rw [skeleton_nil, skeleton_nil] at hnil
    exact congrArg Prod.fst (Option.some.inj hnil)
  obtain ⟨i, path, rfl⟩ := List.exists_cons_of_ne_nil hpath
  have hroot : (d.mapSelf fun node => { node with curClk := clk }).find? (i :: path) =
      d.find? (i :: path) := by
    cases n <;> rfl
  rw [find?_updateTiming hnum htiming, find?_updateState hf he, hroot, Option.map_map, hself,
    Nat.zero_add]
  rfl

theorem update_isOk (hT : S'.toTimingTable.Immediate) (hf : S'.Acts cmd f) {path : List Nat}
    (halong : addr.Along 0 path) (hsome : (d.find? path).isSome)
    (hlen : path.length = n ∨ path.length = S'.scope cmd) :
    ∃ d', d.update S' cmd addr clk = .ok d' := by
  have hroot : ((d.mapSelf fun node => { node with curClk := clk }).find? path).isSome := by
    cases path with
    | nil => rw [find?_nil]; rfl
    | cons i path => cases n <;> exact hsome
  obtain ⟨e, he⟩ := updateState_isOk hf halong hroot (by simpa using hlen)
  obtain ⟨d', hd'⟩ := updateTiming_isOk hT _ e
  exact ⟨d', by rw [update, he]; exact hd'⟩

end Dram

end NdpSim
