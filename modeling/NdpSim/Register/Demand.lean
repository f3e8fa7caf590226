import NdpSim.Register.Conservation

/-!
# The register demand of a section

Which names a section introduces, and which of its vector names become pairs, can be read off
its instructions without running the register unit. `Names` is that static account, `Tracks`
relates it to a unit in the middle of renaming, and `convert_agrees` says that renaming a
section runs out of registers only if the static demand exceeds what was free.
-/
namespace NdpSim

open Library

/-- The names a packet has introduced per class, those of them that may be pairs, and the
register multiplier in force. -/
structure Names where
  bound : RegClass → Finset Int
  wide : Finset Int
  vlmul : Int

/-- What is known of the first source of a partly renamed instruction. -/
inductive FirstSource
  /-- An operand that was not renamed. -/
  | raw (r : Int)
  /-- A renamed x or f register. -/
  | scalar
  /-- The renaming of a vector name. -/
  | vector (name : Int)

def FirstSource.renamed (c : RegClass) (name : Int) : FirstSource :=
  match c with
  | .x => .scalar
  | .f => .scalar
  | .v => .vector name

def RenameStep.renamesVector : RenameStep → Bool
  | .destRenameV _ => true
  | .destRenameSegV _ => true
  | _ => false

namespace Names

/-- The registers the account stands for. -/
def demand (n : Names) : RegClass → Nat
  | .v => (n.bound .v).card + n.wide.card
  | c => (n.bound c).card

/-- A first source that the pairing rule may take for a pair. -/
def mayPair (n : Names) : FirstSource → Bool
  | .raw r => regPVBase ≤ toInt r && toInt r < spcialRegStart
  | .scalar => false
  | .vector name => name ∈ n.wide

def doublesDest (n : Names) (op : Opcode) (first : FirstSource) : Bool :=
  op.checkWideningOp || !op.checkNarrowingOp && n.mayPair first

def introduce (n : Names) (c : RegClass) (name : Int) (double : Bool) : Names :=
  if name ∈ n.bound c then n
  else
    { n with
      bound := Function.update n.bound c (insert name (n.bound c))
      wide := if double then insert name n.wide else n.wide }

/-- A lookup succeeds for introduced names and for special registers. -/
def knows (n : Names) (c : RegClass) (r : Int) : Bool :=
  toInt r ∈ n.bound c || RegisterUnit.checkSpecialReg (toInt r)

/-- The first source after a lookup in slot `i`. -/
def firstAfter (n : Names) (c : RegClass) (inst : NdpInstruction) (i : Fin 5)
    (first : FirstSource) : FirstSource :=
  if i = 0 then
    if toInt (inst.src 0) ∈ n.bound c then .renamed c (toInt (inst.src 0))
    else .raw (toInt (inst.src 0))
  else first

/-- One renaming step on the static account; it stops where the renaming faults. -/
def step (n : Names) (inst : NdpInstruction) (first : FirstSource) :
    RenameStep → Except Names (Names × FirstSource)
  | .lookUp c i =>
    if n.knows c (inst.src i) then .ok (n, n.firstAfter c inst i first) else .error n
  | .lookUpIfExist i =>
    if toInt (inst.src i) ∈ n.bound .v then .ok (n, n.firstAfter .v inst i first)
    else .ok (n, first)
  | .lookUpDest c => if n.knows c inst.dest then .ok (n, first) else .error n
  | .noDest => .ok (n, first)
  | .destRenameX => .ok (n.introduce .x (toInt inst.dest) false, first)
  | .destRenameF => .ok (n.introduce .f (toInt inst.dest) false, first)
  | .destRenameV fromRenamed =>
    let source := if fromRenamed then first else .raw (inst.src 0)
    .ok (n.introduce .v (toInt inst.dest)
      (n.doublesDest inst.opcode source || n.vlmul == immM2), first)
  | .destRenameSegV index =>
    if h : index < 8 then
      .ok (n.introduce .v (toInt (inst.segDest ⟨index, h⟩)) (n.doublesDest inst.opcode first),
        first)
    else .error n

def steps (n : Names) (inst : NdpInstruction) (first : FirstSource) :
    List RenameStep → Except Names (Names × FirstSource)
  | [] => .ok (n, first)
  | s :: ss => do
    let (n, first) ← n.step inst first s
    n.steps inst first ss

def noteVlmul (n : Names) (inst : NdpInstruction) : Names :=
  if inst.opcode = .vsetvli then { n with vlmul := toInt (inst.src 2) } else n

def insts (n : Names) : List NdpInstruction → Except Names Names
  | [] => .ok n
  | inst :: rest => do
    let (n, _) ← (n.noteVlmul inst).steps inst (.raw (inst.src 0)) inst.renameSteps
    n.insts rest

/-- The account with which every section starts. -/
def start : Names where
  bound c := match c with
    | .x => {regXBase + 1, regXBase + 2}
    | _ => ∅
  wide := ∅
  vlmul := immM1

/-- The account where a scan ended, be it at the end or at a fault. -/
def final : Except Names Names → Names
  | .ok n => n
  | .error n => n

/-- The same for the steps of one instruction. -/
def ended : Except Names (Names × FirstSource) → Names
  | .ok (n, _) => n
  | .error n => n

/-- The names a section introduces before its end or its first faulting operand. -/
def ofSection (insts : List NdpInstruction) : Names := final (start.insts insts)

/-! ## The demand only grows -/

theorem demand_introduce (n : Names) (c : RegClass) (name : Int) (double : Bool) (c' : RegClass) :
    n.demand c' ≤ (n.introduce c name double).demand c' := by
  unfold introduce
  split
  · exact le_rfl
  have hb : (n.bound c').card ≤
      (Function.update n.bound c (insert name (n.bound c)) c').card := by
    by_cases hc : c' = c
    · subst hc
      rw [Function.update_self]
      exact Finset.card_le_card (Finset.subset_insert _ _)
    · rw [Function.update_of_ne hc]
  have hw : n.wide.card ≤ (if double then insert name n.wide else n.wide).card := by
    split
    · exact Finset.card_le_card (Finset.subset_insert _ _)
    · exact le_rfl
  cases c' with
  | x | f => exact hb
  | v => exact Nat.add_le_add hb hw

theorem demand_step (n : Names) (inst : NdpInstruction) (first : FirstSource) (s : RenameStep)
    (c : RegClass) : n.demand c ≤ (ended (n.step inst first s)).demand c := by
  cases s with
  | lookUp c' i | lookUpDest c' | lookUpIfExist i =>
    simp only [step]
    split <;> exact le_rfl
  | noDest => exact le_rfl
  | destRenameX | destRenameF | destRenameV fromRenamed => exact demand_introduce ..
  | destRenameSegV index =>
    simp only [step]
    split
    · exact demand_introduce ..
    · exact le_rfl

theorem demand_steps (n : Names) (inst : NdpInstruction) (first : FirstSource)
    (ss : List RenameStep) (c : RegClass) :
    n.demand c ≤ (ended (n.steps inst first ss)).demand c := by
  induction ss generalizing n first with
  | nil => exact le_rfl
  | cons s ss ih =>
    have hs := demand_step n inst first s c
    rw [steps]
    cases h : n.step inst first s with
    | error n' =>
      rw [h] at hs
      exact hs
    | ok r =>
      rw [h] at hs
      exact hs.trans (ih r.1 r.2)

theorem demand_noteVlmul (n : Names) (inst : NdpInstruction) :
    (n.noteVlmul inst).demand = n.demand := by
  unfold noteVlmul
  split
  · funext c
    cases c <;> rfl
  · rfl

theorem demand_insts (n : Names) (rest : List NdpInstruction) (c : RegClass) :
    n.demand c ≤ (final (n.insts rest)).demand c := by
  induction rest generalizing n with
  | nil => exact le_rfl
  | cons inst rest ih =>
    have hs := demand_steps (n.noteVlmul inst) inst (.raw (inst.src 0)) inst.renameSteps c
    rw [demand_noteVlmul] at hs
    rw [insts]
    cases h : (n.noteVlmul inst).steps inst (.raw (inst.src 0)) inst.renameSteps with
    | error n' =>
      rw [h] at hs
      exact hs
    | ok r =>
      rw [h] at hs
      exact hs.trans (ih r.1)

end Names

/-! ## Renaming follows the account -/

namespace RegisterUnit

/-- The register numbers of each class stay below the next range of the numbering. -/
structure Layout (u : RegisterUnit) : Prop where
  x : regPXBase + u.numXregs ≤ regPFBase
  f : regPFBase + u.numFregs ≤ regPVBase
  v : regPVBase + u.numVregs ≤ spcialRegStart

theorem Layout.setPool {u : RegisterUnit} (h : u.Layout) (c : RegClass)
    (p : Pool Int Int Int) : (u.setPool c p).Layout := by
  cases c <;> exact ⟨h.x, h.f, h.v⟩

theorem Layout.congr {u u' : RegisterUnit} (hl : u.Layout) (hn : u'.numRegs = u.numRegs) :
    u'.Layout := by
  have hx : u'.numXregs = u.numXregs := congrFun hn .x
  have hf : u'.numFregs = u.numFregs := congrFun hn .f
  have hv : u'.numVregs = u.numVregs := congrFun hn .v
  exact ⟨hx ▸ hl.x, hf ▸ hl.f, hv ▸ hl.v⟩

theorem Layout.convert {u u' : RegisterUnit} {insts out : List NdpInstruction} {key : Int}
    {req : RequestInfo} (hl : u.Layout) (h : u.convert insts key req = .ok (out, u')) :
    u'.Layout := hl.congr (numRegs_convert h)

/-- The unit `u`, renaming for `key` and started with `free c` free registers, has introduced
exactly the names of the account; `w` are the names it paired. -/
structure Tracks (free : RegClass → Nat) (key : Int) (u : RegisterUnit) (n : Names)
    (w : Finset Int) : Prop where
  conserved : u.Conserved
  layout : u.Layout
  vlmul : u.cvtVlmulStatus = n.vlmul
  bound : ∀ c name, ((u.pool c).find? key name).isSome ↔ name ∈ n.bound c
  wide : w ⊆ n.wide
  known : w ⊆ n.bound .v
  paired : ∀ name p, u.vregs.find? key name = some p → (p ∈ u.doubleVreg ↔ name ∈ w)
  count : ∀ c, free c = (u.pool c).free.length + (n.bound c).card + if c = .v then w.card else 0

/-- The first source operand `r` of the partly renamed `inst` is what the account knows. -/
def Describes (u : RegisterUnit) (key : Int) (inst : NdpInstruction) (r : Int) :
    FirstSource → Prop
  | .raw s => toInt s = toInt (inst.src 0) ∧ toInt r = toInt s
  | .scalar => toInt r < regPVBase
  | .vector name => u.vregs.find? key name = some r

/-- The pairing rule never mistakes the first source operand for a physical register. -/
def PlainSource (inst : NdpInstruction) : Prop :=
  ¬ (regPVBase ≤ toInt (inst.src 0) ∧ toInt (inst.src 0) < spcialRegStart)

namespace Tracks

variable {free : RegClass → Nat} {key : Int} {u : RegisterUnit} {n : Names} {w : Finset Int}

theorem lookUp (h : Tracks free key u n w) (c : RegClass) (r : Int) :
    (∃ p, u.lookUp c key r = .ok p ∧ n.knows c r = true ∧
      (toInt r ∈ n.bound c → (u.pool c).find? key (toInt r) = some p) ∧
      (toInt r ∉ n.bound c → p = toInt r)) ∨
    u.lookUp c key r = .error (.runtimeError c.notFound) ∧ n.knows c r = false := by
  have hb := h.bound c (toInt r)
  cases hf : (u.pool c).find? key (toInt r) with
  | some p =>
    have hm : toInt r ∈ n.bound c := hb.mp (by rw [hf]; rfl)
    exact .inl ⟨p, by simp [RegisterUnit.lookUp, hf], by simp [Names.knows, hm], fun _ => rfl,
      fun hn => absurd hm hn⟩
  | none =>
    have hm : toInt r ∉ n.bound c := fun hm => by simpa [hf] using hb.mpr hm
    by_cases hs : checkSpecialReg (toInt r) = true
    · exact .inl ⟨toInt r, by simp [RegisterUnit.lookUp, hf, hs], by simp [Names.knows, hs],
        fun hm' => absurd hm' hm, fun _ => rfl⟩
    · exact .inr ⟨by simp [RegisterUnit.lookUp, hf, hs], by simpa [Names.knows, hm] using hs⟩

theorem find?_eq_none (h : Tracks free key u n w) {c : RegClass} {name : Int}
    (hn : name ∉ n.bound c) : (u.pool c).find? key name = none := by
  have hb := h.bound c name
  cases hf : (u.pool c).find? key name with
  | none => rfl
  | some p => exact absurd (hb.mp (by rw [hf]; rfl)) hn

/-- Binding one more name to the first free register. -/
theorem bind (h : Tracks free key u n w) {c : RegClass} {name r : Int} {rest : List Int}
    {double : Bool} (hn : name ∉ n.bound c) (hfree : (u.pool c).free = r :: rest) :
    Tracks free key (u.setPool c (Pool.bind ⟨rest, (u.pool c).bindings⟩ key name r))
      (n.introduce c name double) w := by
  have hf := h.find?_eq_none hn
  have hi : n.introduce c name double =
      { n with
        bound := Function.update n.bound c (insert name (n.bound c))
        wide := if double then insert name n.wide else n.wide } := if_neg hn
  rw [hi]
  refine ⟨h.conserved.bind hfree hf, h.layout.setPool _ _, ?_, fun c' m => ?_, ?_, ?_,
    fun m p hp => ?_, fun c' => ?_⟩
  · rw [← h.vlmul]
    cases c <;> rfl
  · rw [find?_setPool_bind]
    by_cases hc : c' = c
    · subst hc
      by_cases hm : m = name
      · simp [hm]
      · simpa [hm] using h.bound c' m
    · simpa [hc] using h.bound c' m
  · split
    · exact h.wide.trans (Finset.subset_insert _ _)
    · exact h.wide
  · refine h.known.trans fun m hm => ?_
    by_cases hc : RegClass.v = c
    · subst hc
      simp [hm]
    · simpa [hc] using hm
  · replace hp : (if RegClass.v = c ∧ m = name then some r else u.vregs.find? key m) = some p :=
      (find?_setPool_bind u c .v key name r rest m).symm.trans hp
    rw [doubleVreg_setPool]
    split at hp
    case isTrue hm =>
      -- the new register was free, so it is no pair, and its name was not known
      obtain ⟨rfl, rfl⟩ := hm
      obtain rfl := Option.some_inj.mp hp
      have hr : r ∉ u.doubleVreg :=
        AList.lookup_eq_none.mp (h.conserved.free_unpaired (show r ∈ u.vregs.free by
          rw [show u.vregs.free = r :: rest from hfree]; simp))
      exact iff_of_false hr fun hw => hn (h.known hw)
    case isFalse => exact h.paired m p hp
  · have hcount := h.count c'
    rw [pool_setPool]
    by_cases hc : c' = c
    · subst hc
      rw [hfree] at hcount
      simp only [if_true, Pool.free_bind, Function.update_self, Finset.card_insert_of_notMem hn,
        List.length_cons] at hcount ⊢
      omega
    · simpa [hc] using hcount

/-- Binding one more vector name to a pair. -/
theorem bind_pair (h : Tracks free key u n w) {name r partner : Int} {rest : List Int}
    (hn : name ∉ n.bound .v) (hfree : u.vregs.free = r :: partner :: rest) :
    Tracks free key
      { u.setPool .v (Pool.bind ⟨rest, u.vregs.bindings⟩ key name r) with
        doubleVreg := u.doubleVreg.insert r partner }
      (n.introduce .v name true) (insert name w) := by
  have hf := h.find?_eq_none hn
  have hi : n.introduce .v name true =
      { n with
        bound := Function.update n.bound .v (insert name (n.bound .v))
        wide := insert name n.wide } := if_neg hn
  -- all but the pairing and the counts is as for a single register
  have hb : Tracks free key
      (u.setPool .v (Pool.bind ⟨partner :: rest, u.vregs.bindings⟩ key name r))
      (n.introduce .v name true) w := h.bind hn hfree
  rw [hi] at hb ⊢
  refine ⟨h.conserved.bind_pair hfree hf, ⟨h.layout.x, h.layout.f, h.layout.v⟩, h.vlmul,
    fun c' m => ?_,
    Finset.insert_subset_insert _ h.wide, ?_, fun m p hp => ?_, fun c' => ?_⟩
  · rw [← hb.bound c' m]
    cases c' <;> rfl
  · simpa using Finset.insert_subset_insert name h.known
  · replace hp : (if RegClass.v = .v ∧ m = name then some r else u.vregs.find? key m) = some p :=
      (find?_setPool_bind u .v .v key name r rest m).symm.trans hp
    change p ∈ u.doubleVreg.insert r partner ↔ _
    rw [AList.mem_insert, Finset.mem_insert]
    split at hp
    case isTrue hm =>
      obtain rfl := Option.some_inj.mp hp
      simp [hm.2]
    case isFalse hm =>
      -- an old register is bound, the new one was free
      have hpr : p ≠ r := by
        rintro rfl
        exact (h.conserved.bound_once (c := .v) hp).1 (by simp [pool, hfree])
      have hmn : m ≠ name := by simpa using hm
      simp [hpr, hmn, h.paired m p hp]
  · have hcount := h.count c'
    have hw : name ∉ w := fun hm => hn (h.known hm)
    cases c' with
    | x | f => simpa [pool, setPool] using hcount
    | v =>
      simp only [pool, hfree, if_true, List.length_cons] at hcount
      simp only [pool, setPool, if_true, Pool.free_bind, Function.update_self,
        Finset.card_insert_of_notMem hn, Finset.card_insert_of_notMem hw]
      omega

/-- Too short a free list means that the account with the new name asks for too much. -/
theorem lt_demand (h : Tracks free key u n w) {c : RegClass} {name : Int} {double double' : Bool}
    (hc : double = true → c = .v) (hd : double = true → double' = true)
    (hn : name ∉ n.bound c) (hlen : (u.pool c).free.length < if double then 2 else 1) :
    free c < (n.introduce c name double').demand c := by
  have hcount := h.count c
  rw [Names.introduce, if_neg hn]
  cases c with
  | x | f =>
    obtain rfl : double = false := by
      cases double with
      | false => rfl
      | true => cases hc rfl
    simp only [Names.demand, Function.update_self, Finset.card_insert_of_notMem hn]
    simp only [Bool.false_eq_true, if_false, reduceCtorEq] at hlen hcount
    omega
  | v =>
    have hw : name ∉ w := fun hm => hn (h.known hm)
    simp only [Names.demand, Function.update_self, Finset.card_insert_of_notMem hn]
    simp only [if_true] at hcount
    cases double with
    | false =>
      have hle : w.card ≤ (if double' then insert name n.wide else n.wide).card := by
        refine Finset.card_le_card (h.wide.trans ?_)
        split
        · exact Finset.subset_insert _ _
        · exact subset_rfl
      simp only [Bool.false_eq_true, if_false] at hlen
      omega
    | true =>
      obtain rfl := hd rfl
      have hle : w.card + 1 ≤ (insert name n.wide).card := by
        rw [← Finset.card_insert_of_notMem hw]
        exact Finset.card_le_card (Finset.insert_subset_insert _ h.wide)
      simp only [if_true] at hlen ⊢
      omega

/-- A renaming of a destination either follows the account or finds too few free registers. -/
theorem destRename (h : Tracks free key u n w) {c : RegClass} (name : Int) {double double' : Bool}
    (hc : double = true → c = .v) (hd : double = true → double' = true) :
    (∃ r u' w', u.destRename c key name double = .ok (r, u') ∧
      Tracks free key u' (n.introduce c (toInt name) double') w' ∧
      (double = double' → w = n.wide → w' = (n.introduce c (toInt name) double').wide) ∧
      ∀ m p, u.vregs.find? key m = some p → u'.vregs.find? key m = some p) ∨
    u.destRename c key name double = .error .emptyFreeList ∧
      free c < (n.introduce c (toInt name) double').demand c := by
  cases hr : u.destRename c key name double with
  | ok res =>
    obtain ⟨r, u'⟩ := res
    refine .inl ⟨r, u', ?_⟩
    obtain ⟨hf, rfl⟩ | ⟨hf, rfl, rest, hfree, rfl⟩ | ⟨hf, rfl, partner, rest, hfree, rfl⟩ :=
      destRename_cases hr
    · have hm : toInt name ∈ n.bound c := (h.bound c _).mp (by rw [hf]; rfl)
      have hi : n.introduce c (toInt name) double' = n := if_pos hm
      rw [hi]
      exact ⟨w, rfl, h, fun _ hw => hw, fun _ _ hp => hp⟩
    · have hn : toInt name ∉ n.bound c := fun hm => by
        simpa [hf] using (h.bound c _).mpr hm
      refine ⟨w, rfl, h.bind hn hfree, fun hdd hw => ?_, fun m p hp => ?_⟩
      · simp [Names.introduce, hn, ← hdd, hw]
      · refine (find?_setPool_bind u c .v key (toInt name) r rest m).trans ?_
        rw [if_neg, ← hp]
        · rfl
        · rintro ⟨rfl, rfl⟩
          exact absurd (hp.symm.trans hf) (by simp)
    · obtain rfl := hc rfl
      obtain rfl := hd rfl
      have hn : toInt name ∉ n.bound .v := fun hm => by
        simpa [hf] using (h.bound .v _).mpr hm
      refine ⟨insert (toInt name) w, rfl, h.bind_pair hn hfree, fun _ hw => ?_,
        fun m p hp => ?_⟩
      · simp [Names.introduce, hn, hw]
      · refine (find?_setPool_bind u .v .v key (toInt name) r rest m).trans ?_
        rw [if_neg, ← hp]
        · rfl
        · rintro ⟨-, rfl⟩
          exact absurd (hp.symm.trans hf) (by simp)
  | error e =>
    obtain ⟨rfl, hf, hlen⟩ := destRename_error hr
    refine .inr ⟨rfl, ?_⟩
    refine h.lt_demand hc hd (fun hm => ?_) hlen
    simpa [hf] using (h.bound c _).mpr hm

theorem toInt_physical (h : Tracks free key u n w) {c : RegClass} {m p : Int}
    (hp : (u.pool c).find? key m = some p) :
    toInt p = p ∧ c.base ≤ p ∧ (c ≠ .v → p < regPVBase) ∧ p < spcialRegStart := by
  obtain ⟨hl, hu⟩ := RegClass.mem_physical.mp (h.conserved.mem_physical_of_find? hp)
  have hlx := h.layout.x
  have hlf := h.layout.f
  have hlv := h.layout.v
  cases c <;> simp only [RegClass.base, numRegs, regPXBase, regPFBase, regPVBase,
    spcialRegStart] at * <;> refine ⟨toInt_of_range (by omega) (by omega), hl, ?_, by omega⟩
  · intro _
    omega
  · intro _
    omega
  · intro hv
    exact absurd rfl hv

theorem checkDoubleReg_iff (u : RegisterUnit) (r : Int) :
    u.checkDoubleReg r = true ↔ regPVBase ≤ toInt r ∧ toInt r ∈ u.doubleVreg := by
  simp [RegisterUnit.checkDoubleReg, AList.lookup_isSome]

/-- What the pairing rule sees of the first source agrees with the account. -/
theorem checkDoubleReg (h : Tracks free key u n w) {inst : NdpInstruction} {r : Int}
    {first : FirstSource} (hr : Describes u key inst r first) :
    (u.checkDoubleReg r = true → n.mayPair first = true) ∧
    (w = n.wide → PlainSource inst → n.mayPair first = true → u.checkDoubleReg r = true) := by
  rw [checkDoubleReg_iff]
  cases first with
  | raw s =>
    obtain ⟨hs, hrs⟩ := hr
    constructor
    · rintro ⟨hl, hd⟩
      obtain ⟨k, m, hp⟩ := Pool.mem_bound.mp (h.conserved.paired _ hd)
      have hu := RegClass.mem_physical.mp (h.conserved.mem_physical_of_find? (c := .v) hp)
      have hv := h.layout.v
      simp only [RegClass.base, numRegs, Names.mayPair] at hu ⊢
      rw [← hrs]
      simp
      omega
    · intro _ hplain hm
      rw [Names.mayPair, hs] at hm
      exact absurd (by simpa using hm) hplain
  | scalar =>
    refine ⟨fun hd => ?_, fun _ _ hm => by cases hm⟩
    have hlt : toInt r < regPVBase := hr
    omega
  | vector name =>
    obtain ⟨hi, hl, -, -⟩ := h.toInt_physical (c := .v) hr
    have hp := h.paired name r hr
    rw [hi]
    constructor
    · rintro ⟨-, hd⟩
      simpa [Names.mayPair] using h.wide (hp.mp hd)
    · intro hw _ hm
      refine ⟨hl, hp.mpr ?_⟩
      rw [hw]
      simpa [Names.mayPair] using hm

/-- The pairing rule follows the account. -/
theorem doublesDest (h : Tracks free key u n w) {inst : NdpInstruction} {src : Fin 5 → Int}
    {first : FirstSource} (hr : Describes u key inst (src 0) first) :
    (u.doublesDest (inst.withSrc src) = true → n.doublesDest inst.opcode first = true) ∧
    (w = n.wide → PlainSource inst →
      u.doublesDest (inst.withSrc src) = n.doublesDest inst.opcode first) := by
  have hnw : inst.opcode.checkWideningOp = true → inst.opcode.checkNarrowingOp = false := by
    cases inst.opcode <;> decide
  obtain ⟨h₁, h₂⟩ := h.checkDoubleReg hr
  have hd : u.doublesDest (inst.withSrc src) =
      (!inst.opcode.checkNarrowingOp && u.checkDoubleReg (src 0) ||
        inst.opcode.checkWideningOp && !u.checkDoubleReg (src 0)) := rfl
  rw [hd, Names.doublesDest]
  constructor
  · grind
  · grind

theorem demand_le (h : Tracks free key u n w) (hw : w = n.wide) (c : RegClass) :
    n.demand c ≤ free c := by
  have hcount := h.count c
  cases c <;> simp [Names.demand, hw] at hcount ⊢ <;> omega

/-- The first source after a lookup is described as the account says. -/
theorem describes_lookUp (h : Tracks free key u n w) {c : RegClass} {inst renamed : NdpInstruction}
    {i : Fin 5} {p : Int} {first : FirstSource}
    (hr : Describes u key inst (renamed.src 0) first)
    (hp : u.lookUp c key (inst.src i) = .ok p) :
    Describes u key inst ((renamed.setSrc i p).src 0) (n.firstAfter c inst i first) := by
  by_cases hi : i = 0
  · subst hi
    have hsrc : (renamed.setSrc 0 p).src 0 = p := by simp
    rw [hsrc, Names.firstAfter, if_pos rfl]
    obtain ⟨q, hq, -, hb, hn⟩ | ⟨hq, -⟩ := h.lookUp c (inst.src 0)
    · obtain rfl := Except.ok.inj (hp.symm.trans hq)
      split
      case isTrue hm =>
        have hf := hb hm
        cases c with
        | v => exact hf
        | x | f =>
          obtain ⟨ht, -, hlt, -⟩ := h.toInt_physical hf
          change toInt p < regPVBase
          rw [ht]
          exact hlt (by simp)
      case isFalse hm =>
        rw [hn hm]
        exact ⟨toInt_toInt _, rfl⟩
    · exact absurd (hp.symm.trans hq) (by simp)
  · have hsrc : (renamed.setSrc i p).src 0 = renamed.src 0 := by
      simp [Function.update_of_ne (Ne.symm hi)]
    rwa [hsrc, Names.firstAfter, if_neg hi]

end Tracks

/-- A computation on the unit and one on the account go the same way: both go on, both stop at
a fault with the demand so far covered, or the unit runs out and the demand was too high. -/
inductive Agrees (free : RegClass → Nat) (plain : Prop) {α β : Type} (after : α → β → Prop)
    (ended : Except Names β → Names) : Except Fault α → Except Names β → Prop
  | ok {a b} (h : after a b) : Agrees free plain after ended (.ok a) (.ok b)
  | stop {e n} (he : e ≠ .emptyFreeList) (hn : plain → ∀ c, n.demand c ≤ free c) :
    Agrees free plain after ended (.error e) (.error n)
  | empty {res} (c) (hc : free c < (ended res).demand c) :
    Agrees free plain after ended (.error .emptyFreeList) res

theorem Agrees.bind {free : RegClass → Nat} {plain : Prop} {α β γ δ : Type} {after : α → β → Prop}
    {ended : Except Names β → Names} {after' : γ → δ → Prop} {ended' : Except Names δ → Names}
    {x : Except Fault α} {y : Except Names β} {f : α → Except Fault γ} {g : β → Except Names δ}
    (h : Agrees free plain after ended x y)
    (hf : ∀ a b, after a b → Agrees free plain after' ended' (f a) (g b))
    (hmono : ∀ b c, (ended (.ok b)).demand c ≤ (ended' (g b)).demand c)
    (herr : ∀ n, ended' (.error n) = ended (.error n)) :
    Agrees free plain after' ended' (x >>= f) (y >>= g) := by
  cases h with
  | ok h => exact hf _ _ h
  | stop he hn => exact .stop he hn
  | empty c hc =>
    cases y with
    | error n => exact .empty c (by rw [← herr] at hc; exact hc)
    | ok b => exact .empty c (hc.trans_le (hmono b c))

theorem Agrees.map {free : RegClass → Nat} {plain : Prop} {α β γ : Type} {after : α → β → Prop}
    {ended : Except Names β → Names} {after' : γ → β → Prop} {x : Except Fault α}
    {y : Except Names β} {f : α → γ} (h : Agrees free plain after ended x y)
    (hf : ∀ a b, after a b → after' (f a) b) :
    Agrees free plain after' ended (x >>= fun a => .ok (f a)) y := by
  cases h with
  | ok h => exact .ok (hf _ _ h)
  | stop he hn => exact .stop he hn
  | empty c hc => exact .empty c hc

section Follow

variable {free : RegClass → Nat} {key : Int} {plain : Prop}

/-- The unit and the account after some steps on `inst`. -/
def StepAfter (free : RegClass → Nat) (key : Int) (plain : Prop) (inst : NdpInstruction)
    (a : NdpInstruction × RegisterUnit) (b : Names × FirstSource) : Prop :=
  ∃ w, Tracks free key a.2 b.1 w ∧ (plain → w = b.1.wide) ∧ Describes a.2 key inst (a.1.src 0) b.2

/-- A destination renaming of the unit against the introduction of a name. -/
theorem destRename_agrees {u : RegisterUnit} {n : Names} {inst renamed : NdpInstruction}
    {first : FirstSource} {w : Finset Int} (ht : Tracks free key u n w) (hw : plain → w = n.wide)
    (hr : Describes u key inst (renamed.src 0) first) {c : RegClass} {name : Int}
    {double double' : Bool} (hc : double = true → c = .v) (hd : double = true → double' = true)
    (he : plain → double = double') (set : Int → NdpInstruction)
    (hset : ∀ r, (set r).src = renamed.src) :
    Agrees free plain (StepAfter free key plain inst) Names.ended
      (do
        let (r, u) ← u.destRename c key name double
        return (set r, u))
      (.ok (n.introduce c (toInt name) double', first)) := by
  obtain ⟨r, u', w', hu', ht', hw', hkeep⟩ | ⟨hu', hlt⟩ := ht.destRename name hc hd
  · rw [hu']
    refine .ok ⟨w', ht', fun hpl => hw' (he hpl) (hw hpl), ?_⟩
    change Describes u' key inst ((set r).src 0) first
    rw [hset r]
    cases first with
    | raw s | scalar => exact hr
    | vector m => exact hkeep m _ hr
  · rw [hu']
    exact .empty c hlt

theorem runStep_agrees {u : RegisterUnit} {n : Names} {inst renamed : NdpInstruction}
    {first : FirstSource} {s : RenameStep}
    (hs : s.renamesVector = true → plain → PlainSource inst)
    (h : StepAfter free key plain inst (renamed, u) (n, first)) :
    Agrees free plain (StepAfter free key plain inst) Names.ended
      (u.runStep key inst renamed s) (n.step inst first s) := by
  obtain ⟨w, ht, hw, hr⟩ := h
  dsimp only at ht hw hr
  cases s with
  | lookUp c i =>
    simp only [runStep, Names.step]
    obtain ⟨p, hp, hk, -, -⟩ | ⟨hp, hk⟩ := ht.lookUp c (inst.src i)
    · rw [hp, if_pos hk]
      exact .ok ⟨w, ht, hw, ht.describes_lookUp hr hp⟩
    · rw [hp, hk]
      exact .stop (by simp) fun hpl => ht.demand_le (hw hpl)
  | lookUpIfExist i =>
    have hb : u.checkExistVreg key (inst.src i) = true ↔ toInt (inst.src i) ∈ n.bound .v :=
      ht.bound .v _
    simp only [runStep, Names.step, hb]
    split
    case isTrue hm =>
      obtain ⟨p, hp, -⟩ | ⟨-, hk⟩ := ht.lookUp .v (inst.src i)
      · rw [lookUpV, hp]
        exact .ok ⟨w, ht, hw, ht.describes_lookUp hr hp⟩
      · simp [Names.knows, hm] at hk
    case isFalse => exact .ok ⟨w, ht, hw, hr⟩
  | lookUpDest c =>
    simp only [runStep, Names.step]
    obtain ⟨p, hp, hk, -, -⟩ | ⟨hp, hk⟩ := ht.lookUp c inst.dest
    · rw [hp, if_pos hk]
      exact .ok ⟨w, ht, hw, hr⟩
    · rw [hp, hk]
      exact .stop (by simp) fun hpl => ht.demand_le (hw hpl)
  | noDest => exact .ok ⟨w, ht, hw, hr⟩
  | destRenameX | destRenameF =>
    exact destRename_agrees ht hw hr (by simp) (by simp) (fun _ => rfl) renamed.setDest
      fun _ => rfl
  | destRenameV fromRenamed =>
    -- the pairing rule looks at the renamed or at the original sources
    have hsrc : ∃ src, (if fromRenamed then inst.withSrc renamed.src else inst) = inst.withSrc src ∧
        Describes u key inst (src 0) (if fromRenamed then first else .raw (inst.src 0)) := by
      cases fromRenamed with
      | false => exact ⟨inst.src, rfl, rfl, rfl⟩
      | true => exact ⟨renamed.src, rfl, hr⟩
    obtain ⟨src, hsrc, hr'⟩ := hsrc
    obtain ⟨h₁, h₂⟩ := ht.doublesDest hr'
    simp only [runStep, Names.step, hsrc, destRenameV, ht.vlmul]
    refine destRename_agrees ht hw hr (fun _ => rfl) ?_ (fun hpl => ?_) renamed.setDest
      fun _ => rfl
    · simp only [Bool.or_eq_true]
      exact Or.imp_left h₁
    · rw [h₂ (hw hpl) (hs rfl hpl)]
  | destRenameSegV index =>
    obtain ⟨h₁, h₂⟩ := ht.doublesDest hr
    simp only [runStep, Names.step]
    split
    case isTrue hi =>
      exact destRename_agrees ht hw hr (fun _ => rfl) h₁ (fun hpl => h₂ (hw hpl) (hs rfl hpl))
        (renamed.setSegDest ⟨index, hi⟩) fun _ => rfl
    case isFalse => exact .stop (by simp) fun hpl => ht.demand_le (hw hpl)

theorem runSteps_agrees {inst : NdpInstruction} {ss : List RenameStep}
    (hs : ∀ s ∈ ss, s.renamesVector = true → plain → PlainSource inst)
    {u : RegisterUnit} {n : Names} {renamed : NdpInstruction} {first : FirstSource}
    (h : StepAfter free key plain inst (renamed, u) (n, first)) :
    Agrees free plain (StepAfter free key plain inst) Names.ended
      (u.runSteps key inst renamed ss) (n.steps inst first ss) := by
  induction ss generalizing u n renamed first with
  | nil => exact .ok h
  | cons s ss ih =>
    refine (runStep_agrees (hs s (by simp)) h).bind (fun a b hab => ?_) (fun b c => ?_) fun _ => rfl
    · exact ih (fun s' hs' => hs s' (by simp [hs'])) hab
    · exact Names.demand_steps b.1 inst b.2 ss c

/-- The unit and the account between two instructions. -/
def InstAfter (free : RegClass → Nat) (key : Int) (plain : Prop) {α : Type}
    (a : α × RegisterUnit) (n : Names) : Prop :=
  ∃ w, Tracks free key a.2 n w ∧ (plain → w = n.wide)

/-- No vector renaming of the section looks at a first source that is a number in the physical
vector range. -/
def Plain (insts : List NdpInstruction) : Prop :=
  ∀ inst ∈ insts, (∃ s ∈ inst.renameSteps, s.renamesVector = true) → PlainSource inst

theorem Tracks.noteVlmul {u : RegisterUnit} {n : Names} {w : Finset Int}
    (h : Tracks free key u n w) (inst : NdpInstruction) :
    Tracks free key (u.noteVlmul inst) (n.noteVlmul inst) w := by
  unfold RegisterUnit.noteVlmul Names.noteVlmul
  split
  · exact ⟨⟨h.conserved.perm, h.conserved.paired⟩, ⟨h.layout.x, h.layout.f, h.layout.v⟩, rfl,
      h.bound, h.wide, h.known, h.paired, h.count⟩
  · exact h

theorem convertInsts_agrees {insts : List NdpInstruction} (hp : plain → Plain insts)
    {α : Type} {a : α} {u : RegisterUnit} {n : Names} (h : InstAfter free key plain (a, u) n) :
    Agrees free plain (InstAfter free key plain) Names.final
      (u.convertInsts key insts) (n.insts insts) := by
  induction insts generalizing α u n with
  | nil => exact .ok h
  | cons inst rest ih =>
    obtain ⟨w, ht, hw⟩ := h
    have hn : (n.noteVlmul inst).wide = n.wide := by
      unfold Names.noteVlmul
      split <;> rfl
    have hinst : Agrees free plain (StepAfter free key plain inst) Names.ended
        (u.convertInst key inst)
        ((n.noteVlmul inst).steps inst (.raw (inst.src 0)) inst.renameSteps) :=
      runSteps_agrees (fun s hs hv hpl => hp hpl inst (by simp) ⟨s, hs, hv⟩)
        ⟨w, ht.noteVlmul inst, fun hpl => (hw hpl).trans hn.symm, rfl, rfl⟩
    refine hinst.bind (fun r b hrb => ?_) (fun b c => Names.demand_insts b.1 rest c) fun _ => rfl
    obtain ⟨w', ht', hw', -⟩ := hrb
    have hrest := ih (fun hpl i hi => hp hpl i (by simp [hi])) (a := r.1) ⟨w', ht', hw'⟩
    exact hrest.map fun _ _ h => h

end Follow

theorem Tracks.initXreg {free : RegClass → Nat} {key : Int} {u u' : RegisterUnit} {n : Names}
    {w : Finset Int} (h : Tracks free key u n w) {name : Int} {value : BitVec 64}
    (hn : name ∉ n.bound .x) (hi : u.initXreg key name value = .ok u') :
    Tracks free key u' (n.introduce .x name false) w := by
  obtain ⟨px, rest, hfree, rfl⟩ := initXreg_eq_ok.mp hi
  have hb : Tracks free key
      (u.setPool .x (Pool.bind ⟨rest, (u.pool .x).bindings⟩ key name px))
      (n.introduce .x name false) w := h.bind hn hfree
  exact ⟨⟨hb.conserved.perm, hb.conserved.paired⟩, ⟨hb.layout.x, hb.layout.f, hb.layout.v⟩,
    hb.vlmul, hb.bound, hb.wide, hb.known, hb.paired, hb.count⟩

theorem initXreg_error {u : RegisterUnit} {key name : Int} {value : BitVec 64} {e : Fault}
    (h : u.initXreg key name value = .error e) : e = .emptyFreeList ∧ u.xregs.free = [] := by
  unfold RegisterUnit.initXreg popFree at h
  cases hfree : (u.pool .x).free with
  | nil =>
    rw [hfree] at h
    exact ⟨(Except.error.inj h).symm, hfree⟩
  | cons r rest =>
    rw [hfree] at h
    cases h

/-- The account before the two preset registers of a packet are bound. -/
def noNames (u : RegisterUnit) : Names := ⟨fun _ => ∅, ∅, u.cvtVlmulStatus⟩

theorem tracks_noNames {u : RegisterUnit} {key : Int} (hu : u.Conserved) (hl : u.Layout)
    (hk : ¬ u.Live key) : Tracks (fun c => (u.pool c).free.length) key u u.noNames ∅ where
  conserved := hu
  layout := hl
  vlmul := rfl
  bound c name := by simp [find?_of_not_live hk c name, noNames]
  wide := subset_rfl
  known := subset_rfl
  paired name p hp := absurd (hp.symm.trans (find?_of_not_live hk .v name)) (by simp)
  count c := by simp [noNames]

theorem start_bound (u : RegisterUnit) : Names.start =
    { (u.noNames.introduce .x (regXBase + 1) false).introduce .x (regXBase + 2) false with
      vlmul := immM1 } := by
  have hne : (regXBase + 2) ∉ (u.noNames.introduce .x (regXBase + 1) false).bound .x := by
    simp [Names.introduce, noNames, regXBase]
  rw [Names.introduce, if_neg hne]
  have hb : Names.start.bound =
      Function.update (u.noNames.introduce .x (regXBase + 1) false).bound .x
        (insert (regXBase + 2) ((u.noNames.introduce .x (regXBase + 1) false).bound .x)) := by
    funext c
    cases c with
    | x => simp [Names.start, Names.introduce, noNames, Finset.pair_comm]
    | f | v => simp [Names.start, Names.introduce, noNames]
  exact congrArg₂ (fun b w => (⟨b, w, immM1⟩ : Names)) hb rfl

/-- Renaming a section for a fresh packet goes as its static account says. -/
theorem convert_agrees {u : RegisterUnit} {key : Int} (hu : u.Conserved) (hl : u.Layout)
    (hk : ¬ u.Live key) (insts : List NdpInstruction) (req : RequestInfo) :
    Agrees (fun c => (u.pool c).free.length) (Plain insts)
      (InstAfter (fun c => (u.pool c).free.length) key (Plain insts)) Names.final
      (u.convert insts key req) (Names.start.insts insts) := by
  have h₀ := tracks_noNames hu hl hk
  have hdemand : 2 ≤ (Names.final (Names.start.insts insts)).demand .x :=
    le_trans (by decide) (Names.demand_insts Names.start insts .x)
  cases h₁ : u.initXreg key (regXBase + 1) req.addr with
  | error e =>
    obtain ⟨rfl, hfree⟩ := initXreg_error h₁
    have hc : u.convert insts key req = .error .emptyFreeList := by
      simp [convert, h₁, Bind.bind, Except.bind]
    rw [hc]
    refine .empty .x (lt_of_lt_of_le ?_ hdemand)
    simp [pool, hfree]
  | ok u₁ =>
    have ht₁ := h₀.initXreg (by simp [noNames]) h₁
    have hne : (regXBase + 2) ∉ (u.noNames.introduce .x (regXBase + 1) false).bound .x := by
      simp [Names.introduce, noNames, regXBase]
    cases h₂ : u₁.initXreg key (regXBase + 2) req.offset with
    | error e =>
      obtain ⟨rfl, hfree⟩ := initXreg_error h₂
      have hc : u.convert insts key req = .error .emptyFreeList := by
        simp [convert, h₁, h₂, Bind.bind, Except.bind]
      have hcount : (u.pool .x).free.length = 1 := by
        simpa [pool, hfree, Names.introduce, noNames] using ht₁.count .x
      rw [hc]
      refine .empty .x (lt_of_lt_of_le ?_ hdemand)
      simp [hcount]
    | ok u₂ =>
      have ht₂ := ht₁.initXreg hne h₂
      have hc : u.convert insts key req =
          convertInsts { u₂ with cvtVlmulStatus := immM1 } key insts := by
        simp [convert, h₁, h₂, Bind.bind, Except.bind]
      rw [hc]
      refine convertInsts_agrees (n := Names.start) id (a := ()) ⟨∅, ?_, fun _ => rfl⟩
      rw [start_bound u]
      exact ⟨⟨ht₂.conserved.perm, ht₂.conserved.paired⟩,
        ⟨ht₂.layout.x, ht₂.layout.f, ht₂.layout.v⟩, rfl, ht₂.bound, ht₂.wide, ht₂.known,
        ht₂.paired, ht₂.count⟩

/-- Enough free registers for the demand: the section is renamed without running out. -/
theorem convert_ne_empty {u : RegisterUnit} {key : Int} (hu : u.Conserved) (hl : u.Layout)
    (hk : ¬ u.Live key) (insts : List NdpInstruction) (req : RequestInfo)
    (hd : ∀ c, (Names.ofSection insts).demand c ≤ (u.pool c).free.length) :
    u.convert insts key req ≠ .error .emptyFreeList := by
  intro h
  have ha := convert_agrees hu hl hk insts req
  rw [h] at ha
  unfold Names.ofSection at hd
  generalize Names.start.insts insts = acc at ha hd
  cases ha with
  | stop he => exact he rfl
  | empty c hc => exact absurd (hd c) (Nat.not_le.mpr hc)

/-- A plain section that is renamed without running out had enough free registers. -/
theorem demand_le_of_convert {u : RegisterUnit} {key : Int} (hu : u.Conserved) (hl : u.Layout)
    (hk : ¬ u.Live key) {insts : List NdpInstruction} (hp : Plain insts)
    (req : RequestInfo) (h : u.convert insts key req ≠ .error .emptyFreeList) (c : RegClass) :
    (Names.ofSection insts).demand c ≤ (u.pool c).free.length := by
  have ha := convert_agrees hu hl hk insts req
  unfold Names.ofSection
  generalize u.convert insts key req = res at h ha
  generalize Names.start.insts insts = acc at ha ⊢
  cases ha with
  | ok h' =>
    obtain ⟨w, ht, hw⟩ := h'
    exact ht.demand_le (hw hp) c
  | stop he hn => exact hn hp c
  | empty => exact absurd rfl h

end RegisterUnit

end NdpSim
