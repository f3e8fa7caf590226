import Mathlib.Data.List.Basic
import Mathlib.Logic.Function.Basic

/-!
# Rows that are opened and closed

Of the rows `R` of each bank `B` at most one is open. A command opens one, uses the open one,
closes those of some banks or needs them closed. Histories have the last command first.
-/
namespace NdpSim.Library

inductive RowOp (B R : Type)
  | activate (b : B) (r : R)
  | access (b : B) (r : R)
  | precharge (s : B → Bool)
  | refresh (s : B → Bool)

abbrev OpenRows (B R : Type) := B → Option R

variable {B R : Type} [DecidableEq B] {rows : OpenRows B R} {b : B} {r : R}

namespace RowOp

def apply (rows : OpenRows B R) : RowOp B R → OpenRows B R
  | activate b r => Function.update rows b (some r)
  | precharge s => fun b => if s b then none else rows b
  | access _ _ | refresh _ => rows

/-- What the command needs. Closing is for a row that is open. -/
def Legal (rows : OpenRows B R) : RowOp B R → Prop
  | activate b _ => rows b = none
  | access b r => rows b = some r
  | precharge s => ∃ b, s b ∧ rows b ≠ none
  | refresh s => ∀ b, s b → rows b = none

/-- The command opens or closes a row of the bank. -/
def moves (b : B) : RowOp B R → Bool
  | activate b' _ => b' = b
  | precharge s => s b
  | access _ _ | refresh _ => false

def accesses (b : B) : RowOp B R → Bool
  | access b' _ => b' = b
  | _ => false

theorem apply_of_not_moves {o : RowOp B R} (h : o.moves b = false) : o.apply rows b = rows b := by
  cases o with
  | activate b' r => exact Function.update_of_ne (fun hb => by simp [moves, hb] at h) _ _
  | precharge s =>
    have hs : ¬ s b := by simpa [moves] using h
    exact if_neg hs
  | access _ _ => rfl
  | refresh _ => rfl

end RowOp

namespace OpenRows

/-- All rows are closed before the first command. -/
def after (h : List (RowOp B R)) : OpenRows B R :=
  h.foldr (fun o rows => o.apply rows) fun _ => none

@[simp] theorem after_nil : after ([] : List (RowOp B R)) b = none := rfl

@[simp] theorem after_cons (o : RowOp B R) (h : List (RowOp B R)) :
    after (o :: h) = o.apply (after h) := rfl

/-- Every command found what it needs. -/
def LegalHistory (h : List (RowOp B R)) : Prop :=
  ∀ later o earlier, h = later ++ o :: earlier → o.Legal (after earlier)

theorem legalHistory_nil : LegalHistory ([] : List (RowOp B R)) := by
  intro later o earlier heq
  simp at heq

theorem LegalHistory.cons {h : List (RowOp B R)} {o : RowOp B R} (hh : LegalHistory h)
    (ho : o.Legal (after h)) : LegalHistory (o :: h) := by
  intro later o' earlier heq
  cases later with
  | nil =>
    obtain ⟨rfl, rfl⟩ := List.cons.inj heq
    exact ho
  | cons _ later =>
    obtain ⟨-, rfl⟩ := List.cons.inj heq
    exact hh later o' earlier rfl

/-- The accesses to a bank since its row was opened. -/
def hits (h : List (RowOp B R)) (b : B) : Nat :=
  (h.takeWhile fun o => !o.moves b).countP (·.accesses b)

@[simp] theorem hits_cons_of_moves {o : RowOp B R} (ho : o.moves b) (h : List (RowOp B R)) :
    hits (o :: h) b = 0 := by
  simp [hits, ho]

theorem hits_cons_of_not_moves {o : RowOp B R} (ho : o.moves b = false) (h : List (RowOp B R)) :
    hits (o :: h) b = hits h b + if o.accesses b then 1 else 0 := by
  simp [hits, ho, List.countP_cons]

end OpenRows

end NdpSim.Library
