import NdpSim.Dram.Tree

/-!
# What the nodes are serving

Every node of the tree counts the reads and writes for its part of the memory that were begun and
are not served yet.
-/
namespace NdpSim

open Library

/-- `cur_serving_requests` and `begin_of_serving` of a node. -/
structure Serving where
  cur : Int := 0
  begun : Int := -1

namespace Serving

/-- A request is begun with `1` and done with `-1`. -/
def update (s : Serving) (delta clk : Int) : Except Fault Serving :=
  if delta ≠ 1 ∧ delta ≠ -1 then .error .assertion
  else
    let cur := s.cur + delta
    if cur < 0 then .error .assertion
    else if delta = 1 ∧ cur = 1 then .ok { cur, begun := clk }
    else if cur = 0 ∧ (s.begun = -1 ∨ delta ≠ -1) then .error .assertion
    else .ok { s with cur }

/-- As long as a node serves something, it knows since when. -/
def Known (s : Serving) : Prop := 0 ≤ s.cur ∧ (0 < s.cur → s.begun ≠ -1)

theorem Known.begin {s : Serving} (hs : s.Known) {clk : Int} (hclk : 0 ≤ clk) :
    ∃ s', s.update 1 clk = .ok s' ∧ s'.cur = s.cur + 1 ∧ s'.Known := by
  obtain ⟨hcur, hbegun⟩ := hs
  unfold update
  rw [if_neg (by simp)]
  dsimp only
  rw [if_neg (by omega)]
  split
  · exact ⟨_, rfl, rfl, by dsimp only; omega, fun _ => by dsimp only; omega⟩
  · rw [if_neg (by omega)]
    exact ⟨_, rfl, rfl, by dsimp only; omega, fun _ => hbegun (by omega)⟩

theorem Known.done {s : Serving} (hs : s.Known) (hcur : 0 < s.cur) (clk : Int) :
    ∃ s', s.update (-1) clk = .ok s' ∧ s'.cur = s.cur - 1 ∧ s'.Known := by
  have hbegun := hs.2 hcur
  unfold update
  rw [if_neg (by simp)]
  dsimp only
  rw [if_neg (by omega), if_neg (by omega), if_neg (by omega)]
  exact ⟨_, rfl, by dsimp only; omega, by dsimp only; omega, fun _ => hbegun⟩

end Serving

namespace Dram

variable {C S : Type} {n : Nat}

/-- `update_serving_requests` of the node at the end of `path`, which tells its level, and of those
below it that the address is in. -/
def updateServing (delta clk : Int) (addr : AddrVec) : {n : Nat} → List Nat → Dram C S n →
    (List Nat → Serving) → Except Fault (List Nat → Serving)
  | 0, path, d, serving => do
    if d.self.id ≠ addr.idx path.length then .error .assertion
    else return Function.update serving path (← (serving path).update delta clk)
  | n + 1, path, d, serving => do
    if d.self.id ≠ addr.idx path.length then .error .assertion
    else
      let serving := Function.update serving path (← (serving path).update delta clk)
      let childId := addr.idx (path.length + 1)
      if childId < 0 ∨ d.children = [] then return serving
      else match d.child? childId with
        | none => .error .undefined
        | some c => updateServing delta clk addr (n := n) (path ++ [childId.toNat]) c serving

/-- The nodes on the way to an address, by `rest` from the one at the end of `path`. -/
def Leads (addr : AddrVec) : {n : Nat} → List Nat → List Nat → Dram C S n → Prop
  | 0, path, rest, d => d.self.id = addr.idx path.length ∧ rest = []
  | n + 1, path, rest, d => d.self.id = addr.idx path.length ∧ ∃ i rest' c, rest = i :: rest' ∧
      addr.idx (path.length + 1) = i ∧ d.children[i]? = some c ∧
      Leads addr (n := n) (path ++ [i]) rest' c

theorem prefix_below_iff {path rest p : List Nat} {i : Nat} :
    path <+: p ∧ p <+: path ++ i :: rest ↔
      p = path ∨ path ++ [i] <+: p ∧ p <+: path ++ [i] ++ rest := by
  rw [List.append_assoc, List.singleton_append]
  constructor
  · rintro ⟨⟨t, rfl⟩, hp⟩
    rw [List.prefix_append_right_inj] at hp
    cases t with
    | nil => exact .inl (List.append_nil path)
    | cons j t =>
      obtain ⟨rfl, -⟩ := List.cons_prefix_cons.mp hp
      exact .inr ⟨⟨t, by simp⟩, (List.prefix_append_right_inj path).mpr hp⟩
  · rintro (rfl | ⟨hpath, hp⟩)
    · exact ⟨List.prefix_refl _, List.prefix_append ..⟩
    · exact ⟨(List.prefix_append ..).trans hpath, hp⟩

/-- The nodes on the way, and no others, are updated. -/
theorem Leads.updateServing {addr : AddrVec} {path rest : List Nat} {d : Dram C S n}
    {serving : List Nat → Serving} {delta clk : Int} (hd : d.Leads addr path rest)
    (hup : ∀ p, path <+: p → p <+: path ++ rest →
      ∃ s, (serving p).update delta clk = .ok s) :
    ∃ serving', d.updateServing delta clk addr path serving = .ok serving' ∧
      (∀ p, path <+: p → p <+: path ++ rest →
        (serving p).update delta clk = .ok (serving' p)) ∧
      ∀ p, ¬ (path <+: p ∧ p <+: path ++ rest) → serving' p = serving p := by
  induction n generalizing path rest serving with
  | zero =>
    obtain ⟨s, hs⟩ := hup path (List.prefix_refl path) (List.prefix_append path rest)
    obtain ⟨hid, rfl⟩ := hd
    refine ⟨Function.update serving path s, ?_, fun p hpath hp => ?_, fun p hp => ?_⟩
    · rw [Dram.updateServing, if_neg (not_not.mpr hid), hs]
      rfl
    · rw [List.append_nil] at hp
      obtain rfl := hpath.eq_of_length_le hp.length_le
      rw [Function.update_self]
      exact hs
    · apply Function.update_of_ne
      rintro rfl
      exact hp ⟨List.prefix_refl p, List.prefix_append p []⟩
  | succ n ih =>
    obtain ⟨s, hs⟩ := hup path (List.prefix_refl path) (List.prefix_append path rest)
    obtain ⟨hid, i, rest, c, rfl, hidx, hc, hway⟩ := hd
    have hbelow : ∀ p, path ++ [i] <+: p → p ≠ path := by
      rintro p hp rfl
      have hlen := hp.length_le
      simp at hlen
    have hsame : ∀ p, path ++ [i] <+: p → Function.update serving path s p = serving p :=
      fun p hp => Function.update_of_ne (hbelow p hp) ..
    have hup' : ∀ p, path ++ [i] <+: p → p <+: path ++ [i] ++ rest →
        ∃ s', (Function.update serving path s p).update delta clk = .ok s' := by
      intro p hpath hp
      obtain ⟨hpath', hp'⟩ := prefix_below_iff.mpr (.inr ⟨hpath, hp⟩)
      rw [hsame p hpath]
      exact hup p hpath' hp'
    obtain ⟨serving', hserving', hon, hoff⟩ := ih hway hup'
    have hself : serving' path = s := by
      rw [hoff path fun h => hbelow path h.1 rfl, Function.update_self]
    have hchild : d.child? (i : Int) = some c := child?_eq_some.mpr ⟨i, rfl, hc⟩
    have hne : d.children ≠ [] := by
      intro hnil
      rw [hnil] at hc
      cases hc
    refine ⟨serving', ?_, fun p hpath hp => ?_, fun p hp => ?_⟩
    · rw [Dram.updateServing, if_neg (not_not.mpr hid), hs, ok_bind]
      dsimp only
      rw [hidx, if_neg (by simp [hne]), hchild]
      exact hserving'
    · obtain rfl | ⟨hpath', hp'⟩ := prefix_below_iff.mp ⟨hpath, hp⟩
      · rw [hself]
        exact hs
      · rw [← hsame p hpath']
        exact hon p hpath' hp'
    · rw [prefix_below_iff, not_or] at hp
      rw [hoff p hp.2, Function.update_of_ne hp.1]

/-- The nodes count as much as `w` says at least. -/
def Covers (w : List Nat → Nat) (serving : List Nat → Serving) : Prop :=
  ∀ p, (serving p).Known ∧ (w p : Int) ≤ (serving p).cur

theorem Covers.mono {w w' : List Nat → Nat} {serving : List Nat → Serving}
    (h : Covers w serving) (hle : ∀ p, w' p ≤ w p) : Covers w' serving := by
  intro p
  obtain ⟨hknown, hw⟩ := h p
  exact ⟨hknown, (Int.ofNat_le.mpr (hle p)).trans hw⟩

variable {addr : AddrVec} {rest : List Nat} {d : Dram C S n} {w : List Nat → Nat}
  {serving : List Nat → Serving}

/-- A request is begun. -/
theorem Leads.begin (hd : d.Leads addr [] rest) (h : Covers w serving) {clk : Int}
    (hclk : 0 ≤ clk) : ∃ serving', d.updateServing 1 clk addr [] serving = .ok serving' ∧
      Covers (fun p => w p + if p <+: rest then 1 else 0) serving' := by
  obtain ⟨serving', hserving', hon, hoff⟩ := hd.updateServing fun p _ _ => by
    obtain ⟨s, hs, -⟩ := (h p).1.begin hclk
    exact ⟨s, hs⟩
  refine ⟨serving', hserving', fun p => ?_⟩
  obtain ⟨hknown, hw⟩ := h p
  by_cases hp : p <+: rest
  · obtain ⟨s, hs, hcur, hs'⟩ := hknown.begin hclk
    obtain rfl := Except.ok.inj (hs.symm.trans (hon p (List.nil_prefix ..) hp))
    refine ⟨hs', ?_⟩
    dsimp only
    rw [if_pos hp, hcur]
    omega
  · rw [hoff p fun hin => hp hin.2]
    exact ⟨hknown, by simpa [hp] using hw⟩

/-- A request that was counted is done. -/
theorem Leads.done (hd : d.Leads addr [] rest) (h : Covers w serving)
    (hw : ∀ p, p <+: rest → 0 < w p) (clk : Int) :
    ∃ serving', d.updateServing (-1) clk addr [] serving = .ok serving' ∧
      Covers (fun p => w p - if p <+: rest then 1 else 0) serving' := by
  have hpos : ∀ p, p <+: rest → 0 < (serving p).cur := by
    intro p hp
    have hcount := hw p hp
    have hle := (h p).2
    omega
  obtain ⟨serving', hserving', hon, hoff⟩ := hd.updateServing fun p _ hp => by
    obtain ⟨s, hs, -⟩ := (h p).1.done (hpos p hp) clk
    exact ⟨s, hs⟩
  refine ⟨serving', hserving', fun p => ?_⟩
  obtain ⟨hknown, hle⟩ := h p
  by_cases hp : p <+: rest
  · obtain ⟨s, hs, hcur, hs'⟩ := hknown.done (hpos p hp) clk
    obtain rfl := Except.ok.inj (hs.symm.trans (hon p (List.nil_prefix ..) hp))
    have hcount := hw p hp
    refine ⟨hs', ?_⟩
    dsimp only
    rw [if_pos hp, hcur]
    omega
  · rw [hoff p fun hin => hp hin.2]
    exact ⟨hknown, by simpa [hp] using hle⟩

end Dram

end NdpSim
