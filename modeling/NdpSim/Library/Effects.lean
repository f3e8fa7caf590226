import Mathlib.Tactic

/-!
# Fallible computations and effectful programs

Computations that return a value or stop with a fault, and programs that do so while asking
operations of their surroundings. A program is data: what it may ask is known before it runs,
and two handlers that answer alike give it like results.
-/
namespace NdpSim.Library

theorem bind_eq_ok {ε α β : Type} {x : Except ε α} {f : α → Except ε β} {b : β} :
    x >>= f = .ok b ↔ ∃ a, x = .ok a ∧ f a = .ok b := by
  cases x with
  | error e => simp [Bind.bind, Except.bind]
  | ok a => simp [Bind.bind, Except.bind]

theorem ok_bind {ε α β : Type} (a : α) (f : α → Except ε β) : Except.ok a >>= f = f a := rfl

/-- Operations, with the type of the answer to each. -/
structure Signature where
  Op : Type
  Ans : Op → Type

inductive Prog (S : Signature) (ε α : Type)
  | pure (a : α)
  | throw (e : ε)
  | ask (o : S.Op) (next : S.Ans o → Prog S ε α)

namespace Prog

variable {S : Signature} {ε α β : Type}

def bind : Prog S ε α → (α → Prog S ε β) → Prog S ε β
  | pure a, f => f a
  | throw e, _ => throw e
  | ask o next, f => ask o fun r => (next r).bind f

instance : Monad (Prog S ε) where
  pure := Prog.pure
  bind := Prog.bind

/-- A single operation. -/
def perform (o : S.Op) : Prog S ε (S.Ans o) := ask o pure

/-- A computation that asks nothing. -/
def ofExcept : Except ε α → Prog S ε α
  | .ok a => pure a
  | .error e => throw e

instance : MonadLift (Except ε) (Prog S ε) := ⟨ofExcept⟩

@[simp] theorem pure_bind (a : α) (f : α → Prog S ε β) : (Pure.pure a : Prog S ε α) >>= f = f a :=
  rfl

@[simp] theorem perform_bind (o : S.Op) (f : S.Ans o → Prog S ε β) :
    (perform o : Prog S ε _) >>= f = ask o f := rfl

/-! ## Running -/

/-- An answer to every operation, from a state. -/
abbrev Handler (S : Signature) (ε σ : Type) := (o : S.Op) → σ → Except ε (S.Ans o × σ)

variable {σ τ : Type}

def run (h : Handler S ε σ) : Prog S ε α → σ → Except ε (α × σ)
  | pure a, s => .ok (a, s)
  | throw e, _ => .error e
  | ask o next, s => do
    let (r, s) ← h o s
    (next r).run h s

/-- The operations a run performs, in order; a failing one is the last. -/
def trace (h : Handler S ε σ) : Prog S ε α → σ → List S.Op
  | pure _, _ => []
  | throw _, _ => []
  | ask o next, s => o ::
    match h o s with
    | .ok (r, s) => (next r).trace h s
    | .error _ => []

/-- The same operations, each with the state in which it is asked. -/
def visits (h : Handler S ε σ) : Prog S ε α → σ → List (S.Op × σ)
  | pure _, _ => []
  | throw _, _ => []
  | ask o next, s => (o, s) ::
    match h o s with
    | .ok (r, s) => (next r).visits h s
    | .error _ => []

theorem mem_trace_of_mem_visits {h : Handler S ε σ} {p : Prog S ε α} {s t : σ} {o : S.Op}
    (ho : (o, t) ∈ p.visits h s) : o ∈ p.trace h s := by
  induction p generalizing s with
  | pure a => cases ho
  | throw e => cases ho
  | ask o' next ih =>
    rw [visits] at ho
    rw [trace]
    obtain heq | ho := List.mem_cons.mp ho
    · obtain ⟨rfl, -⟩ := Prod.mk.inj heq
      exact List.mem_cons_self
    · split at ho
      case h_1 r s' hr => exact List.mem_cons_of_mem _ (ih r ho)
      case h_2 => cases ho

/-- What every operation preserves holds in every state on the way. -/
theorem visits_invariant {h : Handler S ε σ} {I : σ → Prop}
    (hI : ∀ o s r s', h o s = .ok (r, s') → I s → I s') {p : Prog S ε α} {s t : σ} {o : S.Op}
    (ho : (o, t) ∈ p.visits h s) (hs : I s) : I t := by
  induction p generalizing s with
  | pure a => cases ho
  | throw e => cases ho
  | ask o' next ih =>
    rw [visits] at ho
    obtain heq | ho := List.mem_cons.mp ho
    · obtain ⟨-, rfl⟩ := Prod.mk.inj heq
      exact hs
    · split at ho
      case h_1 r s' hr => exact ih r ho (hI o' s r s' hr hs)
      case h_2 => cases ho

@[simp] theorem run_pure (h : Handler S ε σ) (a : α) (s : σ) :
    (Pure.pure a : Prog S ε α).run h s = .ok (a, s) := rfl

theorem run_bind (h : Handler S ε σ) (p : Prog S ε α) (f : α → Prog S ε β) (s : σ) :
    (p >>= f).run h s = p.run h s >>= fun (a, s) => (f a).run h s := by
  induction p generalizing s with
  | pure a => rfl
  | throw e => rfl
  | ask o next ih =>
    change (do let (r, s) ← h o s; ((next r) >>= f).run h s) =
      (do let (r, s) ← h o s; (next r).run h s) >>= fun (a, s) => (f a).run h s
    cases h o s with
    | error e => rfl
    | ok rs => exact ih rs.1 rs.2

theorem trace_bind_pure (h : Handler S ε σ) (p : Prog S ε α) (f : α → β) (s : σ) :
    (p >>= fun a => (Pure.pure (f a) : Prog S ε β)).trace h s = p.trace h s := by
  induction p generalizing s with
  | pure a => rfl
  | throw e => rfl
  | ask o next ih =>
    change trace h (ask o fun r => next r >>= fun a => Pure.pure (f a)) s = _
    rw [trace, trace]
    cases h o s with
    | error e => rfl
    | ok rs => exact congrArg (o :: ·) (ih rs.1 rs.2)

/-! ## What a program may ask -/

/-- Every operation the program can reach satisfies `P` and every value it can return satisfies
`Q`, whatever the answers are. -/
def wp (P : S.Op → Prop) (Q : α → Prop) : Prog S ε α → Prop
  | pure a => Q a
  | throw _ => True
  | ask o next => P o ∧ ∀ r, (next r).wp P Q

section Wp

variable {P P' : S.Op → Prop} {Q Q' : α → Prop}

@[simp] theorem wp_pure (a : α) : (Pure.pure a : Prog S ε α).wp P Q ↔ Q a := Iff.rfl

@[simp] theorem wp_throw (e : ε) : (throw e : Prog S ε α).wp P Q := trivial

@[simp] theorem wp_liftM {x : Except ε α} :
    (liftM x : Prog S ε α).wp P Q ↔ ∀ a, x = .ok a → Q a := by
  cases x with
  | error e => simp [liftM, monadLift, MonadLift.monadLift, ofExcept]
  | ok a => simp [liftM, monadLift, MonadLift.monadLift, ofExcept, wp]

@[simp] theorem wp_bind {p : Prog S ε α} {f : α → Prog S ε β} {Q : β → Prop} :
    (p >>= f).wp P Q ↔ p.wp P fun a => (f a).wp P Q := by
  induction p with
  | pure a => rfl
  | throw e => rfl
  | ask o next ih => exact and_congr_right' (forall_congr' ih)

@[simp] theorem wp_ite {c : Prop} [Decidable c] {p q : Prog S ε α} :
    (if c then p else q).wp P Q ↔ (c → p.wp P Q) ∧ (¬ c → q.wp P Q) := by
  split <;> simp_all

theorem wp.mono {p : Prog S ε α} (hp : p.wp P Q) (h : ∀ o, P o → P' o) (hq : ∀ a, Q a → Q' a) :
    p.wp P' Q' := by
  induction p with
  | pure a => exact hq a hp
  | throw e => trivial
  | ask o next ih => exact ⟨h o hp.1, fun r => ih r (hp.2 r)⟩

theorem wp.foldlM_mem {γ : Type} {f : α → γ → Prog S ε α} {cs : List γ}
    (hf : ∀ a c, c ∈ cs → Q a → (f a c).wp P Q) {a : α} (ha : Q a) :
    (cs.foldlM f a).wp P Q := by
  induction cs generalizing a with
  | nil => exact ha
  | cons c cs ih =>
    refine wp_bind.mpr ((hf a c List.mem_cons_self ha).mono (fun _ h => h) fun a ha => ?_)
    exact ih (fun a d hd => hf a d (List.mem_cons_of_mem _ hd)) ha

theorem wp.foldlM {γ : Type} {f : α → γ → Prog S ε α} (hf : ∀ a c, Q a → (f a c).wp P Q) {a : α}
    (ha : Q a) (cs : List γ) : (cs.foldlM f a).wp P Q :=
  wp.foldlM_mem (fun a c _ => hf a c) ha

theorem wp.mem_trace {h : Handler S ε σ} {p : Prog S ε α} {s : σ} (hp : p.wp P Q) :
    ∀ o ∈ p.trace h s, P o := by
  induction p generalizing s with
  | pure a => simp [trace]
  | throw e => simp [trace]
  | ask o next ih =>
    intro o' ho'
    rw [trace] at ho'
    obtain rfl | ho' := List.mem_cons.mp ho'
    · exact hp.1
    · split at ho'
      · exact ih _ (hp.2 _) o' ho'
      · cases ho'

end Wp

section WpOf

variable {A : (o : S.Op) → S.Ans o → Prop} {P : S.Op → Prop} {Q : α → Prop}

/-- The same if every answer to an operation satisfies `A`. -/
def wpOf (A : (o : S.Op) → S.Ans o → Prop) (P : S.Op → Prop) (Q : α → Prop) : Prog S ε α → Prop
  | pure a => Q a
  | throw _ => True
  | ask o next => P o ∧ ∀ r, A o r → (next r).wpOf A P Q

theorem wp.wpOf {p : Prog S ε α} (hp : p.wp P Q) : p.wpOf A P Q := by
  induction p with
  | pure a => exact hp
  | throw e => trivial
  | ask o next ih => exact ⟨hp.1, fun r _ => ih r (hp.2 r)⟩

theorem wpOf.mono {Q' : α → Prop} {p : Prog S ε α} (hp : p.wpOf A P Q)
    (hQ : ∀ a, Q a → Q' a) : p.wpOf A P Q' := by
  induction p with
  | pure a => exact hQ a hp
  | throw e => trivial
  | ask o next ih => exact ⟨hp.1, fun r hr => ih r (hp.2 r hr)⟩

theorem wpOf_bind {p : Prog S ε α} {f : α → Prog S ε β} {Q : β → Prop} :
    (p >>= f).wpOf A P Q ↔ p.wpOf A P fun a => (f a).wpOf A P Q := by
  induction p with
  | pure a => rfl
  | throw e => rfl
  | ask o next ih => exact and_congr_right' (forall_congr' fun r => imp_congr_right fun _ => ih r)

variable {h : Handler S ε σ} (hA : ∀ o s r s', h o s = .ok (r, s') → A o r)

include hA

theorem wpOf.mem_trace {p : Prog S ε α} {s : σ} (hp : p.wpOf A P Q) : ∀ o ∈ p.trace h s, P o := by
  induction p generalizing s with
  | pure a => simp [trace]
  | throw e => simp [trace]
  | ask o next ih =>
    intro o' ho'
    rw [trace] at ho'
    obtain rfl | ho' := List.mem_cons.mp ho'
    · exact hp.1
    · split at ho'
      case h_1 r s' hr => exact ih r (hp.2 r (hA o s r s' hr)) o' ho'
      case h_2 => cases ho'

/-- What the operations a program may ask preserve, its runs preserve. -/
theorem wpOf.invariant {I : σ → Prop}
    (hI : ∀ o s r s', P o → h o s = .ok (r, s') → I s → I s') {p : Prog S ε α} {s s' : σ} {a : α}
    (hp : p.wpOf A P Q) (hrun : p.run h s = .ok (a, s')) (hs : I s) : I s' := by
  induction p generalizing s with
  | pure b =>
    obtain ⟨-, rfl⟩ := Prod.mk.inj (Except.ok.inj hrun)
    exact hs
  | throw e => cases hrun
  | ask o next ih =>
    obtain ⟨⟨r, t⟩, ho, hrun⟩ := bind_eq_ok.mp hrun
    exact ih r (hp.2 r (hA o s r t ho)) hrun (hI o s r t hp.1 ho hs)

end WpOf

/-- What every operation preserves, a run preserves; and every operation of a run that returns
was answered in a state with the invariant. -/
theorem run_invariant {h : Handler S ε σ} {I : σ → Prop}
    (hI : ∀ o s r s', h o s = .ok (r, s') → I s → I s') {p : Prog S ε α} {s s' : σ} {a : α}
    (hrun : p.run h s = .ok (a, s')) (hs : I s) :
    I s' ∧ ∀ o ∈ p.trace h s, ∃ t r t', I t ∧ h o t = .ok (r, t') := by
  induction p generalizing s with
  | pure b =>
    obtain ⟨-, rfl⟩ := Prod.mk.inj (Except.ok.inj hrun)
    exact ⟨hs, by simp [trace]⟩
  | throw e => cases hrun
  | ask o next ih =>
    obtain ⟨⟨r, t⟩, ho, hrun⟩ := bind_eq_ok.mp hrun
    obtain ⟨hs', hrest⟩ := ih r hrun (hI o s r t ho hs)
    refine ⟨hs', fun o' ho' => ?_⟩
    rw [trace, ho] at ho'
    obtain rfl | ho' := List.mem_cons.mp ho'
    · exact ⟨s, r, t, hs, ho⟩
    · exact hrest o' ho'

/-! ## Two runs -/

/-- Both stop with the same fault, or both return the same answer in related states. -/
def Related (R : σ → τ → Prop) : Except ε (α × σ) → Except ε (α × τ) → Prop
  | .ok (a, s), .ok (b, t) => a = b ∧ R s t
  | .error e, .error e' => e = e'
  | _, _ => False

theorem Related.bind {R R' : σ → τ → Prop} {x : Except ε (α × σ)} {y : Except ε (α × τ)}
    {f : α × σ → Except ε (β × σ)} {g : α × τ → Except ε (β × τ)} (h : Related R x y)
    (hfg : ∀ a s t, R s t → Related R' (f (a, s)) (g (a, t))) :
    Related R' (x >>= f) (y >>= g) := by
  match x, y, h with
  | .ok (a, s), .ok (_, t), ⟨rfl, hr⟩ => exact hfg a s t hr
  | .error e, .error _, rfl => rfl

/-- If the handlers answer every operation of the run alike, the runs end alike. -/
theorem run_related {h : Handler S ε σ} {h' : Handler S ε τ} {R : σ → τ → Prop}
    {P : S.Op → Prop} (hop : ∀ o s t, P o → R s t → Related R (h o s) (h' o t))
    {p : Prog S ε α} {s : σ} {t : τ} (hp : ∀ o ∈ p.trace h s, P o) (hr : R s t) :
    Related R (p.run h s) (p.run h' t) := by
  induction p generalizing s t with
  | pure a => exact ⟨rfl, hr⟩
  | throw e => rfl
  | ask o next ih =>
    rw [trace] at hp
    have ho := hop o s t (hp o List.mem_cons_self) hr
    cases hs : h o s with
    | error e =>
      rw [hs] at ho
      match ht : h' o t, ho with
      | .error _, rfl => simp only [run, hs, ht]; rfl
    | ok rs =>
      rw [hs] at ho
      match ht : h' o t, ho with
      | .ok (_, t'), ⟨rfl, hr'⟩ =>
        simp only [run, hs, ht]
        refine ih rs.1 (fun o' ho' => hp o' (List.mem_cons_of_mem _ ?_)) hr'
        simpa only [hs] using ho'

end Prog

end NdpSim.Library
