import Mathlib.Data.List.AList
import Mathlib.Data.List.Nodup
import Mathlib.Tactic

/-!
# Pools of named resources

A pool hands resources out of a free list and remembers, for every owner, under
which name each resource is held. The accounting is by permutation: free and bound
resources together are a rearrangement of everything the pool ever had, so a
resource can be neither lost nor held twice.
-/
namespace NdpSim.Library

/-- The resources of one owner, by name. -/
abbrev Binding (ν ρ : Type) := AList fun _ : ν => ρ

def Binding.values {ν ρ : Type} (b : Binding ν ρ) : List ρ := b.entries.map Sigma.snd

structure Pool (κ ν ρ : Type) where
  free : List ρ
  bindings : AList fun _ : κ => Binding ν ρ

theorem Binding.values_empty {ν ρ : Type} : (∅ : Binding ν ρ).values = [] := rfl

variable {κ ν ρ : Type} [DecidableEq κ] [DecidableEq ν]

namespace Binding

theorem values_insert {b : Binding ν ρ} {n : ν} (r : ρ) (h : b.lookup n = none) :
    Binding.values (AList.insert n r b) = r :: b.values := by
  have hn : n ∉ b := AList.lookup_eq_none.mp h
  rw [values, AList.entries_insert_of_notMem hn]
  rfl

theorem mem_values {b : Binding ν ρ} {r : ρ} : r ∈ b.values ↔ ∃ n, b.lookup n = some r := by
  constructor
  · intro h
    obtain ⟨⟨n, r'⟩, hm, rfl⟩ := List.mem_map.mp h
    exact ⟨n, AList.mem_lookup_iff.mpr hm⟩
  · rintro ⟨n, h⟩
    exact List.mem_map.mpr ⟨⟨n, r⟩, AList.mem_lookup_iff.mp h, rfl⟩

theorem lookup_insert_eq_ite (b : Binding ν ρ) (m n : ν) (r : ρ) :
    AList.lookup m (AList.insert n r b) = if m = n then some r else b.lookup m := by
  split
  case isTrue h => rw [h, AList.lookup_insert]
  case isFalse h => exact AList.lookup_insert_ne h

theorem lookup_erase_eq_ite (b : Binding ν ρ) (m n : ν) :
    AList.lookup m (AList.erase n b) = if m = n then none else b.lookup m := by
  split
  case isTrue h => rw [h, AList.lookup_erase]
  case isFalse h => exact AList.lookup_erase_ne h

theorem lookup_insert_eq_some {b : Binding ν ρ} {m n : ν} {r r' : ρ} :
    AList.lookup m (AList.insert n r b) = some r' ↔
      (m = n ∧ r' = r) ∨ (m ≠ n ∧ b.lookup m = some r') := by
  rw [lookup_insert_eq_ite]
  split <;> grind

theorem lookup_erase_eq_some {b : Binding ν ρ} {m n : ν} {r : ρ} :
    AList.lookup m (AList.erase n b) = some r ↔ m ≠ n ∧ b.lookup m = some r := by
  rw [lookup_erase_eq_ite]
  split <;> grind

/-- A binding without repeated resources holds each of them under one name. -/
theorem name_unique {b : Binding ν ρ} (hb : b.values.Nodup) {m n : ν} {r : ρ}
    (hm : b.lookup m = some r) (hn : b.lookup n = some r) : m = n := by
  have h := List.inj_on_of_nodup_map hb (AList.mem_lookup_iff.mp hm) (AList.mem_lookup_iff.mp hn)
  simpa using congrArg Sigma.fst (h rfl)

theorem values_erase {b : Binding ν ρ} {n : ν} {r : ρ} (h : b.lookup n = some r) :
    b.values.Perm (r :: Binding.values (b.erase n)) := by
  obtain ⟨r', l₁, l₂, -, hl, he⟩ := List.exists_of_kerase
    (AList.mem_keys.mp (AList.lookup_isSome.mp (by rw [h]; rfl)))
  have hr : b.lookup n = some r' := AList.mem_lookup_iff.mpr (by rw [hl]; simp)
  have hd : (b.erase n).entries = l₁ ++ l₂ := he
  obtain rfl : r = r' := Option.some_inj.mp (h.symm.trans hr)
  rw [values, values, hd, hl]
  simp only [List.map_append, List.map_cons]
  exact List.perm_middle

/-- The resource under a name is exchanged. -/
theorem values_insert_of_lookup {b : Binding ν ρ} {n : ν} {r : ρ} (h : b.lookup n = some r)
    (r' : ρ) : (r :: Binding.values (AList.insert n r' b)).Perm (r' :: b.values) := by
  have hins : Binding.values (AList.insert n r' b) = r' :: Binding.values (b.erase n) := by
    rw [values, AList.entries_insert]
    rfl
  rw [hins]
  exact (List.Perm.swap _ _ _).trans ((values_erase h).symm.cons r')

theorem length_erase {b : Binding ν ρ} {n : ν} {r : ρ} (h : b.lookup n = some r) :
    b.entries.length = (b.erase n).entries.length + 1 := by
  simpa [values] using (values_erase h).length_eq

theorem length_insert_of_lookup {b : Binding ν ρ} {n : ν} {r : ρ} (h : b.lookup n = some r)
    (r' : ρ) : (AList.insert n r' b).entries.length = b.entries.length := by
  rw [length_erase h, AList.entries_insert]
  rfl

end Binding

namespace Pool

/-- What owner `k` holds; nothing if it is unknown. -/
def binding (p : Pool κ ν ρ) (k : κ) : Binding ν ρ := (p.bindings.lookup k).getD ∅

def find? (p : Pool κ ν ρ) (k : κ) (n : ν) : Option ρ := (p.binding k).lookup n

/-- Record that `k` holds `r` under the name `n`. -/
def bind (p : Pool κ ν ρ) (k : κ) (n : ν) (r : ρ) : Pool κ ν ρ :=
  { p with bindings := p.bindings.insert k ((p.binding k).insert n r) }

/-- Forget owner `k` and queue the resources `freed` behind the free ones. -/
def release (p : Pool κ ν ρ) (k : κ) (freed : List ρ) : Pool κ ν ρ :=
  { free := p.free ++ freed, bindings := p.bindings.erase k }

/-- Every bound resource, owner by owner. -/
def bound (p : Pool κ ν ρ) : List ρ := p.bindings.entries.flatMap fun e => Binding.values e.2

@[simp] theorem free_bind (p : Pool κ ν ρ) (k : κ) (n : ν) (r : ρ) :
    (p.bind k n r).free = p.free := rfl

@[simp] theorem binding_bind_self (p : Pool κ ν ρ) (k : κ) (n : ν) (r : ρ) :
    (p.bind k n r).binding k = (p.binding k).insert n r := by
  simp [binding, bind]

@[simp] theorem binding_bind_of_ne (p : Pool κ ν ρ) {k k' : κ} (n : ν) (r : ρ) (h : k' ≠ k) :
    (p.bind k n r).binding k' = p.binding k' := by
  simp [binding, bind, AList.lookup_insert_ne h]

theorem find?_bind (p : Pool κ ν ρ) (k k' : κ) (n n' : ν) (r : ρ) :
    (p.bind k n r).find? k' n' = if k' = k ∧ n' = n then some r else p.find? k' n' := by
  by_cases hk : k' = k
  · subst hk
    by_cases hn : n' = n
    · subst hn
      simp [find?]
    · simp [find?, hn, AList.lookup_insert_ne hn]
  · simp [find?, hk]

@[simp] theorem find?_bind_self (p : Pool κ ν ρ) (k : κ) (n : ν) (r : ρ) :
    (p.bind k n r).find? k n = some r := by
  simp [find?_bind]

omit [DecidableEq ν] in
/-- The resources of `k` can be split off the bound ones. -/
theorem bound_erase (p : Pool κ ν ρ) (k : κ) :
    p.bound.Perm ((p.binding k).values ++
      (p.bindings.erase k).entries.flatMap fun e => Binding.values e.2) := by
  by_cases hk : k ∈ p.bindings
  · obtain ⟨b, l₁, l₂, -, hl, he⟩ := List.exists_of_kerase (AList.mem_keys.mp hk)
    have hb : p.bindings.lookup k = some b :=
      AList.mem_lookup_iff.mpr (by rw [hl]; simp)
    have hk : p.binding k = b := by simp [binding, hb]
    have hd : (p.bindings.erase k).entries = l₁ ++ l₂ := he
    rw [hk, hd, bound, hl]
    simp only [List.flatMap_append, List.flatMap_cons]
    exact List.perm_append_comm_assoc _ _ _
  · have hb : p.binding k = ∅ := by simp [binding, AList.lookup_eq_none.mpr hk]
    have hd : (p.bindings.erase k).entries = p.bindings.entries :=
      List.kerase_of_notMem_keys fun h => hk (AList.mem_keys.mpr h)
    rw [hb, hd, Binding.values_empty, List.nil_append]
    exact List.Perm.refl _

theorem bound_bind (p : Pool κ ν ρ) {k : κ} {n : ν} (r : ρ) (h : p.find? k n = none) :
    (p.bind k n r).bound.Perm (r :: p.bound) := by
  have he : (p.bind k n r).bindings.entries =
      ⟨k, (p.binding k).insert n r⟩ :: (p.bindings.erase k).entries := AList.entries_insert
  rw [bound, he, List.flatMap_cons, Binding.values_insert r h, List.cons_append]
  exact ((p.bound_erase k).symm).cons r

/-- Binding the first free resource keeps the account. -/
theorem account_bind (p : Pool κ ν ρ) {k : κ} {n : ν} {r : ρ} {rest : List ρ}
    (hfree : p.free = r :: rest) (hn : p.find? k n = none) :
    (rest ++ (bind ⟨rest, p.bindings⟩ k n r).bound).Perm (p.free ++ p.bound) := by
  have hb : (bind ⟨rest, p.bindings⟩ k n r).bound.Perm (r :: p.bound) := bound_bind _ r hn
  rw [hfree]
  exact (hb.append_left rest).trans List.perm_middle

omit [DecidableEq ν] in
theorem bound_release (p : Pool κ ν ρ) (k : κ) (freed : List ρ) :
    p.bound.Perm ((p.binding k).values ++ (p.release k freed).bound) := p.bound_erase k

omit [DecidableEq ν] in
theorem binding_release_of_ne (p : Pool κ ν ρ) {k k' : κ} (freed : List ρ) (h : k' ≠ k) :
    (p.release k freed).binding k' = p.binding k' := by
  simp [binding, release, AList.lookup_erase_ne h]

theorem mem_bound {p : Pool κ ν ρ} {r : ρ} : r ∈ p.bound ↔ ∃ k n, p.find? k n = some r := by
  constructor
  · intro h
    obtain ⟨⟨k, b⟩, hm, hr⟩ := List.mem_flatMap.mp h
    obtain ⟨n, hn⟩ := Binding.mem_values.mp hr
    have hb : p.bindings.lookup k = some b := AList.mem_lookup_iff.mpr hm
    exact ⟨k, n, by simpa [find?, binding, hb] using hn⟩
  · rintro ⟨k, n, h⟩
    have hr : r ∈ (p.binding k).values := Binding.mem_values.mpr ⟨n, h⟩
    exact (p.bound_erase k).mem_iff.mpr (List.mem_append_left _ hr)

/-- Without repeated bound resources, a resource has one owner and one name. -/
theorem owner_unique {p : Pool κ ν ρ} (hp : p.bound.Nodup) {k k' : κ} {n n' : ν} {r : ρ}
    (h : p.find? k n = some r) (h' : p.find? k' n' = some r) : k = k' ∧ n = n' := by
  have hs := (p.bound_erase k).nodup_iff.mp hp
  have hk : k' = k := by
    by_contra hne
    have hr : r ∈ (p.binding k).values := Binding.mem_values.mpr ⟨n, h⟩
    have hr' : r ∈ (p.release k []).bound := by
      refine mem_bound.mpr ⟨k', n', ?_⟩
      rw [find?, p.binding_release_of_ne [] hne]
      exact h'
    exact List.disjoint_of_nodup_append hs hr hr'
  subst hk
  exact ⟨rfl, Binding.name_unique (List.Nodup.of_append_left hs) h h'⟩

end Pool

end NdpSim.Library
