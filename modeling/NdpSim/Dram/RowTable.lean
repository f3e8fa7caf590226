import Mathlib.Data.List.AList
import NdpSim.Dram.Tree

/-!
# The row table of a controller

The controller keeps a table of the rows it has opened, next to the tree.
-/
namespace NdpSim

open Library

variable {C S : Type}

structure RowTable.Entry where
  row : Int
  hits : Nat
  timestamp : Int

/-- The rows that are open, by the numbers of the levels above them. -/
abbrev RowTable := AList fun _ : List Int => RowTable.Entry

/-- The first numbers of the address. -/
def AddrVec.group (addr : AddrVec) (length : Nat) : List Int := (List.range length).map addr.idx

namespace RowTable

def opened (S' : Standard C S) (t : RowTable) (cmd : C) (addr : AddrVec) (clk : Int) : RowTable :=
  let rowgroup := addr.group S'.rowLevel
  if S'.isOpening cmd && (t.lookup rowgroup).isNone then
    t.insert rowgroup { row := addr.idx S'.rowLevel, hits := 0, timestamp := clk }
  else t

def accessed (S' : Standard C S) (t : RowTable) (cmd : C) (addr : AddrVec) (clk : Int) :
    Except Fault RowTable :=
  if S'.isAccessing cmd then
    let rowgroup := addr.group S'.rowLevel
    match t.lookup rowgroup with
    | none => .error .assertion
    | some entry =>
      if entry.row = addr.idx S'.rowLevel then
        .ok (t.insert rowgroup { entry with hits := entry.hits + 1, timestamp := clk })
      else .error .assertion
  else .ok t

def eraseAll (t : RowTable) (keys : List (List Int)) : RowTable :=
  keys.foldl (fun t key => t.erase key) t

/-- An access that closes its row has the scope of the bank. -/
def closed (S' : Standard C S) (t : RowTable) (cmd : C) (addr : AddrVec) : Except Fault RowTable :=
  if S'.isClosing cmd then
    let scope := if S'.isAccessing cmd then S'.rowLevel - 1 else S'.scope cmd
    let keys := t.keys.filter fun key => key.take (scope + 1) = addr.group (scope + 1)
    if keys.length > 0 then .ok (t.eraseAll keys) else .error .assertion
  else .ok t

/-- `update` -/
def update (S' : Standard C S) (t : RowTable) (cmd : C) (addr : AddrVec) (clk : Int) :
    Except Fault RowTable := do
  let t ← (t.opened S' cmd addr clk).accessed S' cmd addr clk
  t.closed S' cmd addr

/-- `get_hits` -/
def getHits (S' : Standard C S) (t : RowTable) (addr : AddrVec) (toOpenedRow : Bool) : Nat :=
  match t.lookup (addr.group S'.rowLevel) with
  | none => 0
  | some entry => if !toOpenedRow && entry.row ≠ addr.idx S'.rowLevel then 0 else entry.hits

/-- `get_open_row` -/
def getOpenRow (S' : Standard C S) (t : RowTable) (addr : AddrVec) : Int :=
  match t.lookup (addr.group S'.rowLevel) with
  | none => -1
  | some entry => entry.row

theorem lookup_eraseAll (t : RowTable) (keys : List (List Int)) (key : List Int) :
    (t.eraseAll keys).lookup key = if key ∈ keys then none else t.lookup key := by
  induction keys generalizing t with
  | nil => simp [eraseAll]
  | cons k keys ih =>
    refine (ih (t.erase k)).trans ?_
    by_cases hk : key = k
    · subst hk
      simp [AList.lookup_erase key t]
    · simp [hk, AList.lookup_erase_ne]

section Update

variable {S' : Standard C S} {t : RowTable} {cmd : C} {addr : AddrVec} {clk : Int}

theorem update_opening (hopen : S'.isOpening cmd = true) (haccess : S'.isAccessing cmd = false)
    (hclose : S'.isClosing cmd = false) (hnone : t.lookup (addr.group S'.rowLevel) = none) :
    t.update S' cmd addr clk =
      .ok (t.insert (addr.group S'.rowLevel) ⟨addr.idx S'.rowLevel, 0, clk⟩) := by
  have hopened : t.opened S' cmd addr clk =
      t.insert (addr.group S'.rowLevel) ⟨addr.idx S'.rowLevel, 0, clk⟩ := by
    rw [opened, hopen, hnone]
    rfl
  rw [update, hopened, accessed, haccess, if_neg Bool.false_ne_true, ok_bind, closed, hclose,
    if_neg Bool.false_ne_true]

theorem opened_of_not_opening (hopen : S'.isOpening cmd = false) :
    t.opened S' cmd addr clk = t := by
  rw [opened, hopen]
  rfl

theorem update_accessing {e : Entry} (hopen : S'.isOpening cmd = false)
    (haccess : S'.isAccessing cmd = true) (hclose : S'.isClosing cmd = false)
    (hlook : t.lookup (addr.group S'.rowLevel) = some e) (hrow : e.row = addr.idx S'.rowLevel) :
    t.update S' cmd addr clk = .ok (t.insert (addr.group S'.rowLevel)
      { e with hits := e.hits + 1, timestamp := clk }) := by
  rw [update, opened_of_not_opening hopen, accessed, if_pos haccess]
  simp only [hlook]
  rw [if_pos hrow, ok_bind, closed, hclose, if_neg Bool.false_ne_true]

theorem update_closing (hopen : S'.isOpening cmd = false) (haccess : S'.isAccessing cmd = false)
    (hclose : S'.isClosing cmd = true)
    (hkeys : ∃ key ∈ t, key.take (S'.scope cmd + 1) = addr.group (S'.scope cmd + 1)) :
    t.update S' cmd addr clk = .ok (t.eraseAll (t.keys.filter fun key =>
      key.take (S'.scope cmd + 1) = addr.group (S'.scope cmd + 1))) := by
  have hpos : (t.keys.filter fun key =>
      key.take (S'.scope cmd + 1) = addr.group (S'.scope cmd + 1)).length > 0 := by
    obtain ⟨key, hmem, heq⟩ := hkeys
    exact List.length_pos_of_mem (List.mem_filter.mpr ⟨AList.mem_keys.mp hmem, by simpa using heq⟩)
  rw [update, opened_of_not_opening hopen, accessed, haccess, if_neg Bool.false_ne_true, ok_bind,
    closed, if_pos hclose, haccess, if_neg Bool.false_ne_true, if_pos hpos]

theorem eq_of_update_closing {t' : RowTable} (hopen : S'.isOpening cmd = false)
    (haccess : S'.isAccessing cmd = false) (hclose : S'.isClosing cmd = true)
    (ht : t.update S' cmd addr clk = .ok t') : t' = t.eraseAll (t.keys.filter fun key =>
      key.take (S'.scope cmd + 1) = addr.group (S'.scope cmd + 1)) := by
  rw [update, opened_of_not_opening hopen, accessed, haccess, if_neg Bool.false_ne_true, ok_bind,
    closed, if_pos hclose, haccess, if_neg Bool.false_ne_true] at ht
  dsimp only at ht
  split at ht
  · exact (Except.ok.inj ht).symm
  · cases ht

theorem update_other (hopen : S'.isOpening cmd = false) (haccess : S'.isAccessing cmd = false)
    (hclose : S'.isClosing cmd = false) : t.update S' cmd addr clk = .ok t := by
  rw [update, opened_of_not_opening hopen, accessed, haccess, if_neg Bool.false_ne_true, ok_bind,
    closed, hclose, if_neg Bool.false_ne_true]

end Update

end RowTable

/-! ## Issuing commands -/

/-- What `issue_cmd` changes. -/
structure Issuer (C S : Type) (n : Nat) where
  channel : Dram C S n
  rowtable : RowTable := ∅
  activations : Nat := 0
  precharges : Nat := 0
  prechargeAlls : Nat := 0
  refreshes : Nat := 0
  uselessActivates : Nat := 0

namespace Issuer

variable {n : Nat} [DecidableEq C]

def count (S' : Standard C S) (c : Issuer C S n) (cmd : C) : Issuer C S n :=
  let name := S'.commandName cmd
  if name = "ACT" ∨ name = "ACT1" ∨ name = "ACT2" then { c with activations := c.activations + 1 }
  else if name = "PRE" then { c with precharges := c.precharges + 1 }
  else if name = "PREA" then { c with prechargeAlls := c.prechargeAlls + 1 }
  else if name = "REF" ∨ name = "REFab" ∨ name = "REFpb" then
    { c with refreshes := c.refreshes + 1 }
  else c

/-- `issue_cmd`, for a row policy that leaves rows open. -/
def issueCmd (S' : Standard C S) (c : Issuer C S n) (cmd : C) (addr : AddrVec) (clk : Int) :
    Except Fault (Issuer C S n) := do
  let counted := c.count S' cmd
  let ready ← c.channel.check S'.toTimingTable 0 cmd addr clk
  if ready then
    let channel ← c.channel.update S' cmd addr clk
    let useless := cmd = S'.pre ∧ c.rowtable.getHits S' addr true = 0
    let rowtable ← c.rowtable.update S' cmd addr clk
    return { counted with
      channel, rowtable
      uselessActivates := c.uselessActivates + if useless then 1 else 0 }
  else .error .assertion

theorem issueCmd_eq_ok {S' : Standard C S} {c c' : Issuer C S n} {cmd : C} {addr : AddrVec}
    {clk : Int} : c.issueCmd S' cmd addr clk = .ok c' ↔
      c.channel.check S'.toTimingTable 0 cmd addr clk = .ok true ∧
      ∃ channel, c.channel.update S' cmd addr clk = .ok channel ∧
      ∃ rowtable, c.rowtable.update S' cmd addr clk = .ok rowtable ∧
        c' = { c.count S' cmd with
          channel, rowtable
          uselessActivates := c.uselessActivates +
            if cmd = S'.pre ∧ c.rowtable.getHits S' addr true = 0 then 1 else 0 } := by
  rw [issueCmd]
  constructor
  · intro h
    obtain ⟨ready, hready, h⟩ := bind_eq_ok.mp h
    cases ready with
    | false => cases h
    | true =>
      obtain ⟨channel, hchannel, h⟩ := bind_eq_ok.mp h
      obtain ⟨rowtable, hrowtable, h⟩ := bind_eq_ok.mp h
      exact ⟨hready, channel, hchannel, rowtable, hrowtable, (Except.ok.inj h).symm⟩
  · rintro ⟨hready, channel, hchannel, rowtable, hrowtable, rfl⟩
    rw [hready, ok_bind, if_pos rfl, hchannel, ok_bind, hrowtable]
    rfl

/-- `get_precharges`, by the banks of a rank. -/
def getPrecharges (S' : Standard C S) (c : Issuer C S n) : Nat :=
  c.precharges + c.prechargeAlls * S'.count 2 * S'.count 3

end Issuer

end NdpSim
