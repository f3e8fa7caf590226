import NdpSim.Library.Effects
import Mathlib.Data.List.Forall2
import Mathlib.Logic.Function.Basic

/-!
# Loops that may stop

Rules for folding or mapping a fallible step over a list, and for filling a table with entries that
may be missing.
-/
namespace NdpSim.Library

variable {ε α β : Type}

/-- What every iteration preserves holds after a loop that ends. -/
theorem foldlM_invariant {P : β → Prop} {f : β → α → Except ε β}
    (hf : ∀ b a b', f b a = .ok b' → P b → P b') {l : List α} {b b' : β}
    (h : l.foldlM f b = .ok b') (hb : P b) : P b' := by
  induction l generalizing b with
  | nil =>
    obtain rfl := Except.ok.inj h
    exact hb
  | cons a l ih =>
    rw [List.foldlM_cons] at h
    obtain ⟨b₁, h₁, h⟩ := bind_eq_ok.mp h
    exact ih h (hf b a b₁ h₁ hb)

/-- The same for what depends on the part that was read. -/
theorem foldlM_prefix {P : List α → β → Prop} {f : β → α → Except ε β}
    (hf : ∀ p b a b', f b a = .ok b' → P p b → P (p ++ [a]) b') {p l : List α} {b b' : β}
    (h : l.foldlM f b = .ok b') (hb : P p b) : P (p ++ l) b' := by
  induction l generalizing p b with
  | nil =>
    obtain rfl := Except.ok.inj h
    rwa [List.append_nil]
  | cons a l ih =>
    rw [List.foldlM_cons] at h
    obtain ⟨b₁, h₁, h⟩ := bind_eq_ok.mp h
    have hrest := ih h (hf p b a b₁ h₁ hb)
    rwa [List.append_assoc] at hrest

/-- A loop stops if one of its iterations does in any state. -/
theorem foldlM_error_of_mem {f : β → α → Except ε β} {l : List α} {a : α} (ha : a ∈ l)
    (hf : ∀ b, ∃ e, f b a = .error e) (b : β) : ∃ e, l.foldlM f b = .error e := by
  cases h : l.foldlM f b with
  | error e => exact ⟨e, rfl⟩
  | ok b' =>
    obtain ⟨l₁, l₂, rfl⟩ := List.append_of_mem ha
    rw [List.foldlM_append] at h
    obtain ⟨b₁, -, h⟩ := bind_eq_ok.mp h
    rw [List.foldlM_cons] at h
    obtain ⟨b₂, h₂, -⟩ := bind_eq_ok.mp h
    obtain ⟨e, he⟩ := hf b₁
    cases he.symm.trans h₂

/-! ## Lists element by element -/

theorem forall_getElem?_cons {P : Nat → α → Prop} {a : α} {l : List α} :
    (∀ i x, (a :: l)[i]? = some x → P i x) ↔ P 0 a ∧ ∀ i x, l[i]? = some x → P (i + 1) x := by
  constructor
  · intro h
    exact ⟨h 0 a rfl, fun i x hx => h (i + 1) x hx⟩
  · rintro ⟨hhead, htail⟩ i x hx
    cases i with
    | zero =>
      obtain rfl := Option.some.inj hx
      exact hhead
    | succ i => exact htail i x hx

theorem forall_getElem?_singleton {P : Nat → α → Prop} {a : α} :
    (∀ i x, [a][i]? = some x → P i x) ↔ P 0 a := by
  rw [forall_getElem?_cons, and_iff_left]
  intro i x hx
  cases hx

theorem forall_getElem?_pair {P : Nat → α → Prop} {a b : α} :
    (∀ i x, [a, b][i]? = some x → P i x) ↔ P 0 a ∧ P 1 b := by
  rw [forall_getElem?_cons, forall_getElem?_singleton]

theorem exists_of_forall₂_left {γ : Type} {R : α → γ → Prop} {l : List α} {l' : List γ}
    (h : List.Forall₂ R l l') {a : α} (ha : a ∈ l) : ∃ c ∈ l', R a c := by
  induction h with
  | nil => cases ha
  | cons hab _ ih =>
    obtain rfl | ha := List.mem_cons.mp ha
    · exact ⟨_, List.mem_cons_self, hab⟩
    · obtain ⟨c, hc, hac⟩ := ih ha
      exact ⟨c, List.mem_cons_of_mem _ hc, hac⟩

theorem exists_of_forall₂_right {γ : Type} {R : α → γ → Prop} {l : List α} {l' : List γ}
    (h : List.Forall₂ R l l') {c : γ} (hc : c ∈ l') : ∃ a ∈ l, R a c :=
  exists_of_forall₂_left h.flip hc

theorem forall₂_of_mapM {f : α → Except ε β} {xs : List α} {ys : List β}
    (h : xs.mapM f = .ok ys) : List.Forall₂ (fun x y => f x = .ok y) xs ys := by
  induction xs generalizing ys with
  | nil =>
    obtain rfl := Except.ok.inj h
    exact .nil
  | cons x xs ih =>
    rw [List.mapM_cons] at h
    obtain ⟨y, hy, h⟩ := bind_eq_ok.mp h
    obtain ⟨ys', hys, h⟩ := bind_eq_ok.mp h
    obtain rfl := Except.ok.inj h
    exact .cons hy (ih hys)

theorem exists_mapM_eq_ok {f : α → Except ε β} {l : List α} :
    (∃ ys, l.mapM f = .ok ys) ↔ ∀ x ∈ l, ∃ y, f x = .ok y := by
  induction l with
  | nil => simp [pure, Except.pure]
  | cons x l ih =>
    rw [List.mapM_cons, List.forall_mem_cons, ← ih]
    constructor
    · rintro ⟨ys, h⟩
      obtain ⟨y, hy, h⟩ := bind_eq_ok.mp h
      obtain ⟨zs, hzs, -⟩ := bind_eq_ok.mp h
      exact ⟨⟨y, hy⟩, ⟨zs, hzs⟩⟩
    · rintro ⟨⟨y, hy⟩, ⟨zs, hzs⟩⟩
      exact ⟨y :: zs, bind_eq_ok.mpr ⟨y, hy, bind_eq_ok.mpr ⟨zs, hzs, rfl⟩⟩⟩

/-- The first element that is found is the one that is erased. -/
theorem eraseP_of_find? {q : α → Bool} {xs : List α} {a : α} (h : xs.find? q = some a) :
    q a = true ∧ ∃ l r, xs = l ++ a :: r ∧ xs.eraseP q = l ++ r := by
  obtain ⟨ha, l, r, rfl, hl⟩ := List.find?_eq_some_iff_append.mp h
  refine ⟨ha, l, r, rfl, ?_⟩
  rw [List.eraseP_append_right _ (by simpa using hl), List.eraseP_cons_of_pos ha]

/-! ## Entries that may be missing -/

section InsertAll

variable {κ : Type} [DecidableEq κ] {rows : List (κ × Except ε α)} {m m' : κ → Option α}

/-- One entry after the other; an entry that is missing stops the loop. -/
def insertAll (rows : List (κ × Except ε α)) (m : κ → Option α) : Except ε (κ → Option α) :=
  rows.foldlM (fun m row => do
    let v ← row.2
    return Function.update m row.1 (some v)) m

theorem insertAll_append (rows' : List (κ × Except ε α)) :
    insertAll (rows ++ rows') m = insertAll rows m >>= insertAll rows' :=
  List.foldlM_append

theorem insertAll_cons {k : κ} {x : Except ε α} :
    insertAll ((k, x) :: rows) m =
      x >>= fun v => insertAll rows (Function.update m k (some v)) := by
  rw [insertAll, List.foldlM_cons]
  cases x <;> rfl

/-- Different entries are all found afterwards. -/
theorem insertAll_eq_ok (hnodup : (rows.map Prod.fst).Nodup) (h : insertAll rows m = .ok m') :
    (∀ row ∈ rows, ∃ v, row.2 = .ok v ∧ m' row.1 = some v) ∧
      ∀ k ∉ rows.map Prod.fst, m' k = m k := by
  induction rows generalizing m with
  | nil =>
    obtain rfl := Except.ok.inj h
    exact ⟨nofun, fun _ _ => rfl⟩
  | cons row rows ih =>
    obtain ⟨k, x⟩ := row
    rw [List.map_cons, List.nodup_cons] at hnodup
    rw [insertAll_cons] at h
    obtain ⟨v, hv, h⟩ := bind_eq_ok.mp h
    obtain ⟨hrows, hothers⟩ := ih hnodup.2 h
    refine ⟨fun row hrow => ?_, fun k' hk' => ?_⟩
    · obtain rfl | hrow := List.mem_cons.mp hrow
      · exact ⟨v, hv, (hothers _ hnodup.1).trans (Function.update_self ..)⟩
      · exact hrows row hrow
    · rw [List.map_cons, List.mem_cons, not_or] at hk'
      rw [hothers k' hk'.2, Function.update_of_ne hk'.1]

/-- The loop ends if no entry is missing. -/
theorem exists_insertAll (h : ∀ row ∈ rows, ∃ v, row.2 = .ok v) (m : κ → Option α) :
    ∃ m', insertAll rows m = .ok m' := by
  induction rows generalizing m with
  | nil => exact ⟨m, rfl⟩
  | cons row rows ih =>
    obtain ⟨k, x⟩ := row
    obtain ⟨v, rfl⟩ : ∃ v, x = .ok v := h _ List.mem_cons_self
    rw [insertAll_cons, ok_bind]
    exact ih (fun row hrow => h row (List.mem_cons_of_mem _ hrow)) _

end InsertAll

end NdpSim.Library
