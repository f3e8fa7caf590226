import Mathlib.Logic.Basic

/-!
# Replaying a log

The events of a run are replayed on a state of their own. A piece of a program is described by the
events it gives: each is right in the replayed state before it, and the replayed state goes on
matching the program's.
-/
namespace NdpSim.Library

variable {σ ε β : Type} {next : σ → ε → σ} {P Q R : σ → ε → Prop} {view : σ → β}

/-- Every event meets `P` in the state before it. -/
def Always (next : σ → ε → σ) (P : σ → ε → Prop) : σ → List ε → Prop
  | _, [] => True
  | s, e :: log => P s e ∧ Always next P (next s e) log

theorem always_append {s : σ} {log log' : List ε} : Always next P s (log ++ log') ↔
    Always next P s log ∧ Always next P (log.foldl next s) log' := by
  induction log generalizing s with
  | nil => simp [Always]
  | cons e log ih => simp [Always, ih, and_assoc]

/-- Every event meets `P` after those before it. -/
def Each (P : List ε → ε → Prop) (log : List ε) : Prop :=
  Always (fun before e => before ++ [e]) P [] log

theorem each_concat {P : List ε → ε → Prop} {log : List ε} {e : ε} :
    Each P (log ++ [e]) ↔ Each P log ∧ P log e := by
  have hfold : ∀ before : List ε, log.foldl (fun before e => before ++ [e]) before =
      before ++ log := by
    induction log with
    | nil => simp
    | cons e log ih => simp [ih]
  simp [Each, always_append, Always, hfold]

/-- From `b` to `b'` with `events`, whatever the replayed state is that matches `b`. -/
def Traces (next : σ → ε → σ) (R : σ → ε → Prop) (view : σ → β) (b : β) (events : List ε)
    (b' : β) : Prop :=
  ∀ s, view s = b → Always next R s events ∧ view (events.foldl next s) = b'

theorem Traces.nil (b : β) : Traces next R view b [] b := fun _ hs => ⟨trivial, hs⟩

theorem Traces.append {b b' b'' : β} {events later : List ε} (h : Traces next R view b events b')
    (h' : Traces next R view b' later b'') : Traces next R view b (events ++ later) b'' := by
  intro s hs
  obtain ⟨hr, hv⟩ := h s hs
  obtain ⟨hr', hv'⟩ := h' _ hv
  exact ⟨always_append.mpr ⟨hr, hr'⟩, by rwa [List.foldl_append]⟩

end NdpSim.Library
