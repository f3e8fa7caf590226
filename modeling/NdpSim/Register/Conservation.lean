import NdpSim.Register.Convert

/-!
# Register conservation

Free registers, bound registers and, for vectors, the partners of bound registers make up the
physical range of their class, each exactly once. Renaming a section, releasing a packet and
accessing registers all keep this.
-/
namespace NdpSim

open Library
open scoped List

namespace RegisterUnit

/-- The second registers of pairs; only vectors have them. -/
def partners (u : RegisterUnit) : RegClass → List Int
  | .v => u.doubleVreg.values
  | _ => []

/-- Every register of a class the unit accounts for. -/
def held (u : RegisterUnit) (c : RegClass) : List Int :=
  (u.pool c).free ++ (u.pool c).bound ++ u.partners c

/-- A packet has a live mapping if some class knows it. -/
def Live (u : RegisterUnit) (key : Int) : Prop := ∃ c, key ∈ (u.pool c).bindings

structure Conserved (u : RegisterUnit) : Prop where
  perm : ∀ c, (u.held c).Perm (c.physical (u.numRegs c))
  paired : ∀ r ∈ u.doubleVreg, r ∈ u.vregs.bound

namespace Conserved

variable {u : RegisterUnit}

theorem nodup_held (hu : u.Conserved) (c : RegClass) : (u.held c).Nodup :=
  (hu.perm c).nodup_iff.mpr (c.nodup_physical _)

theorem nodup_bound (hu : u.Conserved) (c : RegClass) : (u.pool c).bound.Nodup :=
  (hu.nodup_held c).of_append_left.of_append_right

/-- A free vector register is not the first of a pair. -/
theorem free_unpaired (hu : u.Conserved) {r : Int} (hr : r ∈ u.vregs.free) :
    u.doubleVreg.lookup r = none := by
  refine AList.lookup_eq_none.mpr fun hp => ?_
  have hd := List.disjoint_of_nodup_append (hu.nodup_held .v).of_append_left
  exact hd hr (hu.paired r hp)

theorem mem_physical_of_find? (hu : u.Conserved) {c : RegClass} {key n r : Int}
    (h : (u.pool c).find? key n = some r) : r ∈ c.physical (u.numRegs c) := by
  refine (hu.perm c).mem_iff.mp ?_
  have hb : r ∈ (u.pool c).bound := Pool.mem_bound.mpr ⟨key, n, h⟩
  simp [held, hb]

end Conserved

@[simp] theorem partners_setPool (u : RegisterUnit) (c : RegClass) (p : Pool Int Int Int) :
    (u.setPool c p).partners = u.partners := by
  funext c'
  cases c' <;> simp [partners]

theorem find?_setPool_bind (u : RegisterUnit) (c c' : RegClass) (key name r : Int)
    (rest : List Int) (m : Int) :
    ((u.setPool c (Pool.bind ⟨rest, (u.pool c).bindings⟩ key name r)).pool c').find? key m =
      if c' = c ∧ m = name then some r else (u.pool c').find? key m := by
  rw [pool_setPool]
  by_cases hc : c' = c
  · subst hc
    rw [if_pos rfl, Pool.find?_bind]
    simp [Pool.find?, Pool.binding]
  · simp [hc]

/-- Moving the first free register into the bindings rearranges what the classes hold. -/
theorem held_bind {u : RegisterUnit} {c : RegClass} {key n r : Int} {rest : List Int}
    (hfree : (u.pool c).free = r :: rest) (hn : (u.pool c).find? key n = none) (c' : RegClass) :
    ((u.setPool c (Pool.bind ⟨rest, (u.pool c).bindings⟩ key n r)).held c').Perm (u.held c') := by
  simp only [held, pool_setPool, partners_setPool]
  split
  case isTrue hc =>
    subst hc
    exact ((u.pool c').account_bind hfree hn).append_right _
  case isFalse => rfl

theorem Conserved.create (nx nf nv : Nat) : (create nx nf nv).Conserved := by
  refine ⟨fun c => ?_, ?_⟩
  · cases c <;> simp [held, RegisterUnit.create, pool, partners, Pool.bound, numRegs,
      Binding.values_empty]
  · simp [RegisterUnit.create]

theorem mem_bound_bind {p : Pool Int Int Int} {key n r q : Int} (hn : p.find? key n = none)
    (rest : List Int) :
    q ∈ (Pool.bind ⟨rest, p.bindings⟩ key n r).bound ↔ q = r ∨ q ∈ p.bound := by
  have hb : (Pool.bind ⟨rest, p.bindings⟩ key n r).bound.Perm (r :: p.bound) :=
    Pool.bound_bind _ r hn
  simp [hb.mem_iff]

theorem Conserved.bind {u : RegisterUnit} (hu : u.Conserved) {c : RegClass} {key n r : Int}
    {rest : List Int} (hfree : (u.pool c).free = r :: rest)
    (hn : (u.pool c).find? key n = none) :
    (u.setPool c (Pool.bind ⟨rest, (u.pool c).bindings⟩ key n r)).Conserved := by
  refine ⟨fun c' => ?_, fun q hq => ?_⟩
  · rw [numRegs_setPool]
    exact (held_bind hfree hn c').trans (hu.perm c')
  · rw [doubleVreg_setPool] at hq
    have hb : q ∈ (u.pool .v).bound := hu.paired q hq
    change q ∈ ((u.setPool c _).pool .v).bound
    rw [pool_setPool]
    split
    case isTrue hc =>
      subst hc
      exact (mem_bound_bind hn rest).mpr (.inr hb)
    case isFalse => exact hb

/-- Giving a freshly bound vector register a partner. -/
theorem Conserved.bind_pair {u : RegisterUnit} (hu : u.Conserved) {key n r partner : Int}
    {rest : List Int} (hfree : u.vregs.free = r :: partner :: rest)
    (hn : u.vregs.find? key n = none) :
    { u.setPool .v (Pool.bind ⟨rest, u.vregs.bindings⟩ key n r) with
      doubleVreg := u.doubleVreg.insert r partner }.Conserved := by
  have hr : u.doubleVreg.lookup r = none := hu.free_unpaired (by simp [hfree])
  have hb := Pool.bound_bind ⟨rest, u.vregs.bindings⟩ r hn
  refine ⟨fun c => ?_, fun q hq => ?_⟩
  · cases c with
    | x => exact hu.perm .x
    | f => exact hu.perm .f
    | v =>
      refine List.Perm.trans ?_ (hu.perm .v)
      have hv : Binding.values (u.doubleVreg.insert r partner) = partner :: u.doubleVreg.values :=
        Binding.values_insert partner hr
      change (rest ++ _ ++ Binding.values (u.doubleVreg.insert r partner)).Perm
        (u.vregs.free ++ u.vregs.bound ++ u.doubleVreg.values)
      rw [hv, hfree]
      have ha := (hb.append_left rest).trans List.perm_middle
      calc
        _ ~ partner :: (rest ++ _ ++ u.doubleVreg.values) := List.perm_middle
        _ ~ partner :: (r :: (rest ++ u.vregs.bound) ++ u.doubleVreg.values) :=
          (ha.append_right _).cons partner
        _ ~ _ := List.Perm.swap r partner _
  · have hq : q = r ∨ q ∈ u.doubleVreg := AList.mem_insert u.doubleVreg |>.mp hq
    refine (mem_bound_bind hn rest).mpr ?_
    exact hq.imp_right (hu.paired q)

theorem Conserved.destRename {u u' : RegisterUnit} {c : RegClass} {key name r : Int}
    {double : Bool} (hc : double = true → c = .v)
    (h : u.destRename c key name double = .ok (r, u')) (hu : u.Conserved) : u'.Conserved := by
  obtain ⟨-, rfl⟩ | ⟨hn, -, rest, hfree, rfl⟩ | ⟨hn, hd, partner, rest, hfree, rfl⟩ :=
    destRename_cases h
  · exact hu
  · exact hu.bind hfree hn
  · obtain rfl := hc hd
    exact hu.bind_pair hfree hn

theorem Conserved.initXreg {u u' : RegisterUnit} {key name : Int} {value : BitVec 64}
    (hn : u.xregs.find? key name = none) (h : u.initXreg key name value = .ok u')
    (hu : u.Conserved) : u'.Conserved := by
  obtain ⟨px, rest, hfree, rfl⟩ := initXreg_eq_ok.mp h
  have hb := hu.bind (c := .x) hfree hn
  exact ⟨hb.perm, hb.paired⟩

theorem find?_of_not_live {u : RegisterUnit} {key : Int} (hk : ¬ u.Live key) (c : RegClass)
    (n : Int) : (u.pool c).find? key n = none := by
  have hc : key ∉ (u.pool c).bindings := fun h => hk ⟨c, h⟩
  simp [Pool.find?, Pool.binding, AList.lookup_eq_none.mpr hc]

theorem Conserved.convert {u u' : RegisterUnit} {insts out : List NdpInstruction} {key : Int}
    {req : RequestInfo} (hk : ¬ u.Live key) (h : u.convert insts key req = .ok (out, u'))
    (hu : u.Conserved) : u'.Conserved := by
  obtain ⟨u₁, u₂, h₁, h₂, h⟩ := convert_eq_ok.mp h
  have hu₁ := hu.initXreg (find?_of_not_live hk .x _) h₁
  have hn : u₁.xregs.find? key (regXBase + 2) = none := by
    obtain ⟨px, rest, -, rfl⟩ := initXreg_eq_ok.mp h₁
    rw [Pool.find?_bind, if_neg (by simp [regXBase])]
    exact find?_of_not_live hk .x _
  have hu₂ := hu₁.initXreg hn h₂
  exact convertInsts_invariant (fun _ hu => ⟨hu.perm, hu.paired⟩) Conserved.destRename h
    ⟨hu₂.perm, hu₂.paired⟩

/-- Binding a name for `key` makes `key` live and no one else. -/
theorem live_bind {u : RegisterUnit} {c : RegClass} {key name r : Int} {rest : List Int}
    {k : Int} : (u.setPool c (Pool.bind ⟨rest, (u.pool c).bindings⟩ key name r)).Live k ↔
      k = key ∨ u.Live k := by
  have hm (c' : RegClass) :
      k ∈ ((u.setPool c (Pool.bind ⟨rest, (u.pool c).bindings⟩ key name r)).pool c').bindings ↔
        c' = c ∧ k = key ∨ k ∈ (u.pool c').bindings := by
    rw [pool_setPool]
    by_cases hc : c' = c
    · subst hc
      simp [Pool.bind, AList.mem_insert]
    · simp [hc]
  simp only [Live, hm, exists_or]
  simp

theorem live_destRename {u u' : RegisterUnit} {c : RegClass} {key name r : Int} {double : Bool}
    (hk : u.Live key) (h : u.destRename c key name double = .ok (r, u')) {k : Int} :
    u'.Live k ↔ u.Live k := by
  have hor : k = key ∨ u.Live k ↔ u.Live k := or_iff_right_of_imp fun he => he ▸ hk
  obtain ⟨-, rfl⟩ | ⟨-, -, rest, -, rfl⟩ | ⟨-, -, partner, rest, -, rfl⟩ := destRename_cases h
  · rfl
  · exact live_bind.trans hor
  · exact Iff.trans live_bind hor

theorem live_initXreg {u u' : RegisterUnit} {key name : Int} {value : BitVec 64}
    (h : u.initXreg key name value = .ok u') {k : Int} : u'.Live k ↔ k = key ∨ u.Live k := by
  obtain ⟨px, rest, -, rfl⟩ := initXreg_eq_ok.mp h
  exact live_bind (c := .x)

/-- Renaming a section makes its packet live. -/
theorem live_convert {u u' : RegisterUnit} {insts out : List NdpInstruction} {key : Int}
    {req : RequestInfo} (h : u.convert insts key req = .ok (out, u')) {k : Int} :
    u'.Live k ↔ k = key ∨ u.Live k := by
  obtain ⟨u₁, u₂, h₁, h₂, h⟩ := convert_eq_ok.mp h
  refine convertInsts_invariant (P := fun w => ∀ k, w.Live k ↔ k = key ∨ u.Live k)
    (fun _ hw => hw) (fun _ hd hw k => ?_) h (fun k => ?_) k
  · exact (live_destRename ((hw key).mpr (.inl rfl)) hd).trans (hw k)
  · refine (live_initXreg h₂).trans ?_
    rw [live_initXreg h₁, ← or_assoc, or_self]

/-! ## Release -/

theorem freeVregs_perm (rs : List Int) (d : Binding Int Int) :
    ((freeVregs rs d).1 ++ (freeVregs rs d).2.values).Perm (rs ++ d.values) := by
  induction rs generalizing d with
  | nil => rfl
  | cons r rs ih =>
    cases hd : d.lookup r with
    | none =>
      simp only [freeVregs, hd]
      exact (ih d).cons r
    | some partner =>
      simp only [freeVregs, hd]
      have hp := (Binding.values_erase hd).append_left rs
      exact (((ih (d.erase r)).cons partner).trans
        (List.perm_middle.symm.trans hp.symm)).cons r

theorem mem_freeVregs {rs : List Int} {d : Binding Int Int} {q : Int} :
    q ∈ (freeVregs rs d).2 ↔ q ∈ d ∧ q ∉ rs := by
  induction rs generalizing d with
  | nil => simp [freeVregs]
  | cons r rs ih =>
    cases hd : d.lookup r with
    | none =>
      have hr : r ∉ d := AList.lookup_eq_none.mp hd
      simp only [freeVregs, hd, ih, List.mem_cons]
      grind
    | some partner =>
      simp only [freeVregs, hd, ih, List.mem_cons, AList.mem_erase]
      grind

theorem Conserved.freeRegs {u : RegisterUnit} (hu : u.Conserved) (key : Int)
    (order : u.IterationOrder key) : (u.freeRegs key order).Conserved := by
  have hbound (c : RegClass) : (u.pool c).bound.Perm
      (order.regs c ++ ((u.pool c).release key []).bound) :=
    ((u.pool c).bound_release key []).trans ((order.perm c).symm.append_right _)
  refine ⟨fun c => ?_, fun q hq => ?_⟩
  · refine List.Perm.trans ?_ (hu.perm c)
    cases c with
    | x =>
      have hb := (hbound .x).append_left u.xregs.free
      rw [← List.append_assoc] at hb
      exact hb.symm.append_right _
    | f =>
      have hb := (hbound .f).append_left u.fregs.free
      rw [← List.append_assoc] at hb
      exact hb.symm.append_right _
    | v =>
      -- count each register: the released list and the remaining partners trade places
      refine List.perm_iff_count.mpr fun a => ?_
      have hf := (freeVregs_perm (order.regs .v) u.doubleVreg).count_eq a
      have hb := (hbound .v).count_eq a
      change List.count a ((u.vregs.free ++ (freeVregs (order.regs .v) u.doubleVreg).1) ++
        (u.vregs.release key []).bound ++ (freeVregs (order.regs .v) u.doubleVreg).2.values) =
        List.count a (u.vregs.free ++ u.vregs.bound ++ u.doubleVreg.values)
      simp only [List.count_append, pool] at hf hb ⊢
      omega
  · obtain ⟨hd, hr⟩ := mem_freeVregs.mp hq
    have hb := (hbound .v).mem_iff.mp (hu.paired q hd)
    exact (List.mem_append.mp hb).resolve_left hr

/-! ## Register accesses -/

/-- The account does not look at the register contents. -/
theorem Conserved.of_tables {u : RegisterUnit} (hu : u.Conserved) (xt : Int → BitVec 64)
    (ft : Int → F32) (vt : Int → VectorData) :
    { u with xregTable := xt, fregTable := ft, vregTable := vt }.Conserved :=
  ⟨hu.perm, hu.paired⟩

/-! ## Runs -/

/-- One operation on the register unit that returns normally. -/
inductive Op : RegisterUnit → RegisterUnit → Prop
  | convert {u u' insts out key req} (fresh : ¬ u.Live key)
      (h : u.convert insts key req = .ok (out, u')) : Op u u'
  | freeRegs {u} (key) (order : u.IterationOrder key) : Op u (u.freeRegs key order)
  | readXreg {u reg context value} (h : u.readXreg reg context = .ok value) : Op u u
  | readFreg {u reg value} (h : u.readFreg reg = .ok value) : Op u u
  | readVreg {u reg context value} (h : u.readVreg reg context = .ok value) : Op u u
  | writeXreg {u u' reg value} (h : u.writeXreg reg value = .ok u') : Op u u'
  | writeFreg {u u' reg value} (h : u.writeFreg reg value = .ok u') : Op u u'
  | writeVreg {u u' reg value context} (h : u.writeVreg reg value context = .ok u') : Op u u'

theorem Conserved.op {u u' : RegisterUnit} (h : Op u u') (hu : u.Conserved) : u'.Conserved := by
  cases h with
  | convert fresh h => exact hu.convert fresh h
  | freeRegs key order => exact hu.freeRegs key order
  | readXreg | readFreg | readVreg => exact hu
  | writeXreg h =>
    obtain ⟨-, rfl⟩ := writeXreg_eq_ok.mp h
    exact hu.of_tables _ _ _
  | writeFreg h =>
    obtain ⟨-, rfl⟩ := writeFreg_eq_ok.mp h
    exact hu.of_tables _ _ _
  | writeVreg h =>
    obtain ⟨table, rfl⟩ := writeVreg_frame h
    exact hu.of_tables _ _ _

/-- The states a unit with the given register counts can reach. -/
def Reachable (nx nf nv : Nat) : RegisterUnit → Prop :=
  Relation.ReflTransGen Op (create nx nf nv)

theorem Reachable.conserved {nx nf nv : Nat} {u : RegisterUnit} (h : Reachable nx nf nv u) :
    u.Conserved := by
  induction h with
  | refl => exact Conserved.create nx nf nv
  | tail _ hop ih => exact ih.op hop

/-- Without live packets nothing is bound. -/
theorem bound_eq_nil {u : RegisterUnit} (h : ∀ key, ¬ u.Live key) (c : RegClass) :
    (u.pool c).bound = [] := by
  refine List.eq_nil_iff_forall_not_mem.mpr fun r hr => ?_
  obtain ⟨key, n, hf⟩ := Pool.mem_bound.mp hr
  rw [find?_of_not_live (h key) c n] at hf
  cases hf

theorem Conserved.doubleVreg_eq_empty {u : RegisterUnit} (hu : u.Conserved)
    (h : ∀ key, ¬ u.Live key) : u.doubleVreg = ∅ := by
  refine AList.ext (List.eq_nil_iff_forall_not_mem.mpr fun e he => ?_)
  have hk : e.1 ∈ u.doubleVreg := AList.mem_keys.mpr (List.mem_keys_of_mem he)
  have hb := hu.paired e.1 hk
  rw [show u.vregs.bound = [] from bound_eq_nil h .v] at hb
  cases hb

theorem Conserved.free_perm {u : RegisterUnit} (hu : u.Conserved) (h : ∀ key, ¬ u.Live key)
    (c : RegClass) : (u.pool c).free.Perm (c.physical (u.numRegs c)) := by
  have hp : u.partners c = [] := by
    cases c with
    | x | f => rfl
    | v => rw [partners, hu.doubleVreg_eq_empty h, Binding.values_empty]
  have hh := hu.perm c
  rwa [held, bound_eq_nil h c, hp, List.append_nil, List.append_nil] at hh

/-- Release the packets of a list one after another, each in any order. -/
inductive FreeAll : RegisterUnit → List Int → RegisterUnit → Prop
  | nil {u} : FreeAll u [] u
  | cons {u u' key keys} (order : u.IterationOrder key)
      (h : FreeAll (u.freeRegs key order) keys u') : FreeAll u (key :: keys) u'

theorem live_freeRegs {u : RegisterUnit} {key : Int} (order : u.IterationOrder key) {k : Int} :
    (u.freeRegs key order).Live k ↔ k ≠ key ∧ u.Live k := by
  have hb (c : RegClass) : ((u.freeRegs key order).pool c).bindings =
      (u.pool c).bindings.erase key := by
    cases c <;> rfl
  simp only [Live, hb, AList.mem_erase]
  exact exists_and_left

/-- Releasing every live packet leaves none. -/
theorem FreeAll.not_live {u u' : RegisterUnit} {keys : List Int} (h : FreeAll u keys u')
    (hk : ∀ k, u.Live k → k ∈ keys) : ∀ k, ¬ u'.Live k := by
  induction h with
  | nil => exact fun k hl => by simpa using hk k hl
  | cons order _ ih =>
    refine ih fun k hl => ?_
    obtain ⟨hne, hl⟩ := (live_freeRegs order).mp hl
    exact (List.mem_cons.mp (hk k hl)).resolve_left hne

theorem FreeAll.conserved {u u' : RegisterUnit} {keys : List Int} (h : FreeAll u keys u')
    (hu : u.Conserved) : u'.Conserved := by
  induction h with
  | nil => exact hu
  | cons order _ ih => exact ih (hu.freeRegs _ order)

theorem numRegs_destRename {u u' : RegisterUnit} {c : RegClass} {key name r : Int}
    {double : Bool} (h : u.destRename c key name double = .ok (r, u')) :
    u'.numRegs = u.numRegs := by
  obtain ⟨-, rfl⟩ | ⟨-, -, rest, -, rfl⟩ | ⟨-, -, partner, rest, -, rfl⟩ := destRename_cases h
  · rfl
  · exact funext (numRegs_setPool u c _)
  · exact funext (numRegs_setPool u c _)

theorem numRegs_convert {u u' : RegisterUnit} {insts out : List NdpInstruction} {key : Int}
    {req : RequestInfo} (h : u.convert insts key req = .ok (out, u')) :
    u'.numRegs = u.numRegs := by
  obtain ⟨u₁, u₂, h₁, h₂, h⟩ := convert_eq_ok.mp h
  obtain ⟨px, rest, -, rfl⟩ := initXreg_eq_ok.mp h₁
  obtain ⟨px', rest', -, rfl⟩ := initXreg_eq_ok.mp h₂
  exact convertInsts_invariant (P := fun w => w.numRegs = u.numRegs) (fun _ hw => hw)
    (fun _ hd hw => (numRegs_destRename hd).trans hw) h rfl

theorem numRegs_op {u u' : RegisterUnit} (h : Op u u') : u'.numRegs = u.numRegs := by
  cases h with
  | convert fresh h => exact numRegs_convert h
  | freeRegs | readXreg | readFreg | readVreg => rfl
  | writeXreg h => rw [(writeXreg_eq_ok.mp h).2]; rfl
  | writeFreg h => rw [(writeFreg_eq_ok.mp h).2]; rfl
  | writeVreg h =>
    obtain ⟨table, rfl⟩ := writeVreg_frame h
    rfl

theorem Reachable.numRegs {nx nf nv : Nat} {u : RegisterUnit} (h : Reachable nx nf nv u) :
    u.numRegs = (RegisterUnit.create nx nf nv).numRegs := by
  induction h with
  | refl => rfl
  | tail _ hop ih => exact (numRegs_op hop).trans ih

theorem FreeAll.numRegs {u u' : RegisterUnit} {keys : List Int} (h : FreeAll u keys u') :
    u'.numRegs = u.numRegs := by
  induction h with
  | nil => rfl
  | cons order _ ih => exact ih

/-- A bound register is not free and has one owner and one name. -/
theorem Conserved.bound_once {u : RegisterUnit} (hu : u.Conserved) {c : RegClass}
    {key n r : Int} (h : (u.pool c).find? key n = some r) :
    r ∉ (u.pool c).free ∧
      ∀ key' n', (u.pool c).find? key' n' = some r → key' = key ∧ n' = n := by
  refine ⟨fun hr => ?_, fun key' n' h' => Pool.owner_unique (hu.nodup_bound c) h' h⟩
  have hd := List.disjoint_of_nodup_append (hu.nodup_held c).of_append_left
  exact hd hr (Pool.mem_bound.mpr ⟨key, n, h⟩)

/-- In every reachable state the registers of a class are its physical range, without loss or
repetition, and releasing all live packets frees everything again. -/
theorem registers_conserved {nx nf nv : Nat} {u : RegisterUnit} (h : Reachable nx nf nv u) :
    (∀ c, (u.held c).Perm (c.physical ((create nx nf nv).numRegs c)) ∧ (u.held c).Nodup) ∧
    (∀ c key n r, (u.pool c).find? key n = some r → r ∉ (u.pool c).free ∧
      ∀ key' n', (u.pool c).find? key' n' = some r → key' = key ∧ n' = n) ∧
    ∀ keys u', FreeAll u keys u' → (∀ k, u.Live k → k ∈ keys) →
      (∀ c, (u'.pool c).free.Perm (c.physical ((create nx nf nv).numRegs c))) ∧
        u'.doubleVreg = ∅ := by
  refine ⟨fun c => ⟨?_, h.conserved.nodup_held c⟩, fun c key n r hf => h.conserved.bound_once hf,
    fun keys u' hf hk => ⟨fun c => ?_, ?_⟩⟩
  · rw [← h.numRegs]
    exact h.conserved.perm c
  · rw [← h.numRegs, ← hf.numRegs]
    exact (hf.conserved h.conserved).free_perm (hf.not_live hk) c
  · exact (hf.conserved h.conserved).doubleVreg_eq_empty (hf.not_live hk)

/-- A request at address 64, offset 32. -/
def sampleRequest : RequestInfo :=
  { type := .kernelBody, id := 7, launchId := 0, kernelId := 0, kernelBodyId := 0,
    addr := 64, offset := 32 }

/-- `vle32.v v1, (x1)` -/
def sampleLoad : NdpInstruction :=
  { opcode := .vle32, operandType := .v, src := ![regXBase + 1, 0, 0, 0, 0], dest := regVBase + 1,
    segDest := 0, segCnt := 0, doBranch := false }

/-- One packet that loads a vector is renamed and released again. -/
theorem registers_conserved_load : ∃ u, Reachable 2 0 1 u ∧
    u.vregs.find? 7 (regVBase + 1) = some regPVBase ∧ u.vregs.free = [] ∧
    ∃ u', FreeAll u [7] u' ∧
      ∀ c, (u'.pool c).free.Perm (c.physical ((create 2 0 1).numRegs c)) := by
  have hl : ¬ (create 2 0 1).Live 7 := by
    rintro ⟨c, hc⟩
    cases c <;> exact AList.notMem_empty _ hc
  have hr : Reachable 2 0 1 _ :=
    .tail .refl (@Op.convert _ _ [sampleLoad] _ 7 sampleRequest hl rfl)
  refine ⟨_, hr, rfl, rfl, _, .cons ⟨fun c => _, fun c => .refl _⟩ .nil, ?_⟩
  refine ((registers_conserved hr).2.2 [7] _ (.cons _ .nil) ?_).1
  rintro k ⟨c, hc⟩
  cases c with
  | x | v => exact hc
  | f => exact absurd hc (AList.notMem_empty k)

end RegisterUnit

end NdpSim
