import NdpSim.Functional.Frame
import NdpSim.Register.Conservation
import NdpSim.Timing.ExecutionUnit

/-!
# One column in the pipeline

The timing model fetches a column at its program counter, issues what was fetched, and moves the
program counter on at issue or, for a branch, when the integer unit resolves it. The functional
model runs the same section in a loop over an index. The indices issued are those the loop
visits, as long as no `EXIT` stands before the last instruction and no taken branch carries a
label below `-1`.
-/
namespace NdpSim

open Library

/-- An instruction of the column in an execution unit or on its way through memory. -/
structure Flight where
  inst : NdpInstruction
  doBranch : Bool
  lastInst : Bool

/-- What is fixed for a column. `packet` is the packet size of the configuration. -/
structure ColumnInfo where
  insts : List NdpInstruction
  loopMap : LoopMap
  req : RequestInfo
  ndpId : Int
  packet : Nat

/-- A column in the instruction queue with the machine it runs on, and the indices issued so
far. `finished` counts the contexts pushed for it. -/
structure Pipeline where
  machine : Machine RegisterUnit
  pc : Int
  block : Bool
  currentInst : Option Nat
  pending : Bool
  inFlight : List Flight
  finished : Nat
  issued : List Int

/-- What happens next. -/
inductive ColumnEvent
  | request
  | fill
  | exit (k : Nat)
  | issue (k : Nat)
  | complete (f : Flight)
  | resolve (f : Flight)
  | others

namespace Pipeline

/-- A column that was just pushed. -/
def start (m : Machine RegisterUnit) : Pipeline :=
  { machine := m, pc := 0, block := false, currentInst := none, pending := false, inFlight := [],
    finished := 0, issued := [] }

/-- `can_fetch`: the column is not blocked and the instruction at index `k` has arrived. -/
def CanFetch (s : Pipeline) (k : Nat) : Prop :=
  s.block = false ∧ s.pending = false ∧ s.currentInst = some k

/-- `last_inst` of `fetch_context`. -/
def fetchesLast (col : ColumnInfo) (s : Pipeline) (inst : NdpInstruction) : Bool :=
  s.pc = (col.insts.length : Int) - 1 ∧ inst.opcode.checkBranchOp = false

/-- The program counter after a branch was resolved; a missing label is an exception. -/
def resolved (col : ColumnInfo) (s : Pipeline) (f : Flight) : Option Int :=
  if Machine.isBranch f.inst f.doBranch ≠ -1 then
    col.loopMap.lookup (Machine.isBranch f.inst f.doBranch)
  else some (s.pc + 1)

/-- The state after a branch was resolved to `target`. -/
def afterResolve (col : ColumnInfo) (s : Pipeline) (rest : List Flight) (target : Int) :
    Pipeline :=
  { s with
    pc := target
    block := false
    inFlight := rest
    finished := if (col.insts.length : Int) - 1 < target then s.finished + 1 else s.finished }

/-- The state after an instruction was issued. -/
def afterIssue (col : ColumnInfo) (s : Pipeline) (k : Nat) (inst : NdpInstruction)
    (doBranch : Bool) (m : Machine RegisterUnit) : Pipeline :=
  { s with
    machine := m
    pc := if inst.opcode.checkBranchOp then s.pc else s.pc + 1
    block := inst.opcode.checkBranchOp
    currentInst := none
    inFlight := ⟨inst, doBranch, s.fetchesLast col inst⟩ :: s.inFlight
    issued := s.issued ++ [(k : Int)] }

/-- One event of the column, or of everything around it: instructions finish in any order, and
other columns change the registers and the memories. -/
inductive Step [FloatOps] (col : ColumnInfo) : Pipeline → ColumnEvent → Pipeline → Prop
  | request {s : Pipeline} (hcur : s.currentInst = none) (hblock : s.block = false)
      (hpend : s.pending = false) (hpc : 0 ≤ s.pc) (hlt : s.pc < col.insts.length) :
      Step col s .request { s with pending := true }
  | fill {s : Pipeline} (hpend : s.pending = true) (hpc : 0 ≤ s.pc)
      (hlt : s.pc < col.insts.length) :
      Step col s .fill { s with pending := false, currentInst := some s.pc.toNat }
  | exit {s : Pipeline} {k inst} (hf : s.CanFetch k) (hi : col.insts[k]? = some inst)
      (he : inst.opcode = .exit) :
      Step col s (.exit k) { s with
        pc := s.pc + 1
        currentInst := none
        finished := s.finished + 1
        issued := s.issued ++ [(k : Int)] }
  | issue {s : Pipeline} {k inst addrs doBranch m} (hf : s.CanFetch k)
      (hi : col.insts[k]? = some inst) (he : inst.opcode ≠ .exit)
      (h : s.machine.issue col.packet col.ndpId col.req inst = .ok (some (addrs, doBranch, m))) :
      Step col s (.issue k) (s.afterIssue col k inst doBranch m)
  | complete {s : Pipeline} {pre f post} (hf : s.inFlight = pre ++ f :: post)
      (hb : f.inst.opcode.checkBranchOp = false) :
      Step col s (.complete f) { s with
        inFlight := pre ++ post
        finished := if f.lastInst then s.finished + 1 else s.finished }
  | resolve {s : Pipeline} {pre f post target} (hf : s.inFlight = pre ++ f :: post)
      (hb : f.inst.opcode.checkBranchOp = true) (ht : s.resolved col f = some target) :
      Step col s (.resolve f) (s.afterResolve col (pre ++ post) target)
  | others {s : Pipeline} (regs : RegisterUnit) (memories : Memories) :
      Step col s .others { s with machine := ⟨regs, memories, s.machine.csr⟩ }

/-- The event keeps to what both models agree on: an `EXIT` is the last instruction, a resolved
branch has no label below `-1`, the column accesses packets of `packets` only, and the others
leave those packets and the registers of the column alone. -/
def Meets [FloatOps] (col : ColumnInfo) (packets : Set (BitVec 64)) (s : Pipeline) :
    ColumnEvent → Pipeline → Prop
  | .exit k, _ => k + 1 = col.insts.length
  | .issue k, _ => ∀ inst, col.insts[k]? = some inst →
    ∀ o ∈ s.machine.trace (RegisterUnit.fileOps col.ndpId col.req) inst, ∀ addr,
      o.packet? = some addr → addr ∈ packets
  | .resolve f, _ => -1 ≤ Machine.isBranch f.inst f.doBranch
  | .others, s' => s.machine.Same (operands col.insts) packets s'.machine
  | _, _ => True

/-- A run all of whose events meet the condition. -/
def Run [FloatOps] (col : ColumnInfo) (packets : Set (BitVec 64)) :
    Pipeline → Pipeline → Prop :=
  Relation.ReflTransGen fun s s' => ∃ e, Step col s e s' ∧ s.Meets col packets e s'

/-- What was issued is what the functional loop executes first, and all of it once the context
of the column is finished. -/
def Follows [FloatOps] (col : ColumnInfo) (m : Machine RegisterUnit) (s : Pipeline) : Prop :=
  s.issued = Machine.indices (RegisterUnit.fileOps col.ndpId col.req) col.insts col.loopMap
    s.issued.length 0 m ∧
  (0 < s.finished → ∀ n, s.issued.length ≤ n →
    Machine.indices (RegisterUnit.fileOps col.ndpId col.req) col.insts col.loopMap n 0 m =
      s.issued)

/-- Every label a branch of the column carries is in the map. -/
def LabelsPresent (col : ColumnInfo) : Prop :=
  ∀ inst ∈ col.insts, inst.opcode.checkBranchOp = true →
    (col.loopMap.lookup (toInt (inst.src 2))).isSome = true

def branches (l : List Flight) : List Flight := l.filter fun f => f.inst.opcode.checkBranchOp

section Invariant

variable [FloatOps] {col : ColumnInfo} {packets : Set (BitVec 64)} {m₀ : Machine RegisterUnit}

/-- The pipeline has issued what the loop executed on its way to index `i` and machine `m`. A
branch in flight is the only one, and where it will lead is where the loop went. -/
structure Inv (col : ColumnInfo) (packets : Set (BitVec 64)) (m₀ : Machine RegisterUnit)
    (s : Pipeline) (i : Int) (m : Machine RegisterUnit) : Prop where
  loop : Machine.executeInstsArray (RegisterUnit.fileOps col.ndpId col.req) col.insts col.loopMap
    s.issued.length 0 m₀ = .ok (i, m)
  issued : s.issued = Machine.indices (RegisterUnit.fileOps col.ndpId col.req) col.insts
    col.loopMap s.issued.length 0 m₀
  same : s.machine.Same (operands col.insts) packets m
  unblocked : s.block = false → s.pc = i ∧ branches s.inFlight = []
  blocked : s.block = true → s.currentInst = none ∧ s.pending = false ∧
    ∃ f, branches s.inFlight = [f] ∧
      Machine.nextIndex col.loopMap s.pc (Machine.isBranch f.inst f.doBranch) = .ok i
  current : ∀ k, s.currentInst = some k → (k : Int) = s.pc
  last : ∀ f ∈ s.inFlight, f.lastInst = true → s.pc = col.insts.length ∧ s.block = false
  done : 0 < s.finished → s.block = false ∧ (s.pc < 0 ∨ (col.insts.length : Int) ≤ s.pc)

namespace Inv

variable {s : Pipeline} {i : Int} {m : Machine RegisterUnit}

theorem start : Inv col packets m₀ (Pipeline.start m₀) 0 m₀ := by
  refine ⟨rfl, rfl, Machine.Same.refl _, fun _ => ⟨rfl, rfl⟩, ?_, ?_, ?_, ?_⟩ <;>
    simp [Pipeline.start]

/-- What can be fetched is the next instruction of the loop. -/
theorem index_of_fetch (h : Inv col packets m₀ s i m) {k : Nat} (hf : s.CanFetch k) :
    (k : Int) = i := by
  rw [h.current k hf.2.2, (h.unblocked hf.1).1]

/-- The loop executes the instruction that was issued and goes on with the same machine. -/
theorem extend (h : Inv col packets m₀ s i m) {k : Nat} (hf : s.CanFetch k)
    {inst : NdpInstruction} (hi : col.insts[k]? = some inst) {j : Int}
    {m' : Machine RegisterUnit} (hit : Machine.iterate
      (RegisterUnit.fileOps col.ndpId col.req) col.loopMap inst k m = .ok (j, m')) :
    Machine.executeInstsArray (RegisterUnit.fileOps col.ndpId col.req) col.insts col.loopMap
        (s.issued ++ [(k : Int)]).length 0 m₀ = .ok (j, m') ∧
      s.issued ++ [(k : Int)] = Machine.indices (RegisterUnit.fileOps col.ndpId col.req) col.insts
        col.loopMap (s.issued ++ [(k : Int)]).length 0 m₀ := by
  have hk := h.index_of_fetch hf
  have hloop := h.loop
  rw [← hk] at hloop
  rw [List.length_append, List.length_singleton]
  constructor
  · rw [Machine.executeInstsArray_add hloop, Machine.executeInstsArray_one hi, hit]
  · rw [Machine.indices_add hloop, ← h.issued, Machine.indices_succ hi hit]
    rfl

/-- Nothing can be fetched once a context was pushed or the last instruction is in flight. -/
theorem inside (h : Inv col packets m₀ s i m) {k : Nat} (hf : s.CanFetch k)
    {inst : NdpInstruction} (hi : col.insts[k]? = some inst) :
    s.finished = 0 ∧ ∀ f ∈ s.inFlight, f.lastInst = false := by
  have hlt : k < col.insts.length := (List.getElem?_eq_some_iff.mp hi).1
  have hpc := h.current k hf.2.2
  constructor
  · by_contra hne
    have := (h.done (by omega)).2
    omega
  · intro f hmem
    by_contra hne
    have := (h.last f hmem (by simpa using hne)).1
    omega

theorem request (h : Inv col packets m₀ s i m) (hblock : s.block = false) :
    Inv col packets m₀ { s with pending := true } i m :=
  ⟨h.loop, h.issued, h.same, h.unblocked, fun hb => by simp [hblock] at hb, h.current, h.last,
    h.done⟩

theorem fill (h : Inv col packets m₀ s i m) (hpend : s.pending = true) (hpc : 0 ≤ s.pc) :
    Inv col packets m₀ { s with pending := false, currentInst := some s.pc.toNat } i m := by
  refine ⟨h.loop, h.issued, h.same, h.unblocked, fun hb => ?_, fun k hk => ?_, h.last, h.done⟩
  · have hp := (h.blocked hb).2.1
    rw [hpend] at hp
    cases hp
  · obtain rfl := Option.some_inj.mp hk
    exact Int.toNat_of_nonneg hpc

theorem exit (h : Inv col packets m₀ s i m) {k : Nat} {inst : NdpInstruction}
    (hf : s.CanFetch k) (hi : col.insts[k]? = some inst) (he : inst.opcode = .exit)
    (hlast : k + 1 = col.insts.length) :
    Inv col packets m₀ { s with
      pc := s.pc + 1
      currentInst := none
      finished := s.finished + 1
      issued := s.issued ++ [(k : Int)] } (k + 1) m := by
  have hit : Machine.iterate (RegisterUnit.fileOps col.ndpId col.req) col.loopMap inst k m =
      .ok ((k : Int) + 1, m) := by
    unfold Machine.iterate Machine.exec Machine.isBranch execute
    rw [he]
    rfl
  obtain ⟨hloop, hissued⟩ := h.extend hf hi hit
  have hpc : (k : Int) = s.pc := h.current k hf.2.2
  refine ⟨hloop, hissued, h.same, fun hb => ⟨?_, (h.unblocked hb).2⟩, fun hb => ?_,
    (fun _ hk => nomatch hk), fun f hmem hl => ?_, fun _ => ⟨hf.1, .inr ?_⟩⟩
  · change s.pc + 1 = k + 1
    omega
  · have hblock : s.block = true := hb
    rw [hf.1] at hblock
    cases hblock
  · have := (h.inside hf hi).2 f hmem
    rw [this] at hl
    cases hl
  · change (col.insts.length : Int) ≤ s.pc + 1
    omega

/-- The functional loop takes the step the pipeline issued. -/
theorem iterate_issue (h : Inv col packets m₀ s i m) (hlabels : LabelsPresent col) {k : Nat}
    {inst : NdpInstruction} {doBranch : Bool} {m₁ : Machine RegisterUnit}
    (hi : col.insts[k]? = some inst)
    (hexec : s.machine.exec (RegisterUnit.fileOps col.ndpId col.req) inst = .ok (doBranch, m₁))
    (hmeets : ∀ o ∈ s.machine.trace (RegisterUnit.fileOps col.ndpId col.req) inst, ∀ addr,
      o.packet? = some addr → addr ∈ packets) :
    ∃ j m₂, Machine.iterate (RegisterUnit.fileOps col.ndpId col.req) col.loopMap inst k m =
        .ok (j, m₂) ∧
      Machine.nextIndex col.loopMap k (Machine.isBranch inst doBranch) = .ok j ∧
      m₁.Same (operands col.insts) packets m₂ := by
  have hmem : inst ∈ col.insts := List.mem_of_getElem? hi
  have hregs (slot : Slot) : toInt (inst.operand slot) ∈ operands col.insts :=
    ⟨inst, hmem, slot, rfl⟩
  have hrel := h.same.exec hregs hmeets
  rw [hexec] at hrel
  obtain ⟨b, m₂, hexec', hb, hsame⟩ : ∃ b m₂,
      m.exec (RegisterUnit.fileOps col.ndpId col.req) inst = .ok (b, m₂) ∧ doBranch = b ∧
        m₁.Same (operands col.insts) packets m₂ := by
    match hm : m.exec (RegisterUnit.fileOps col.ndpId col.req) inst, hrel with
    | .ok (b, m₂), ⟨hb, hs⟩ => exact ⟨b, m₂, rfl, hb, hs⟩
  subst hb
  obtain ⟨j, hj⟩ : ∃ j, Machine.nextIndex col.loopMap k (Machine.isBranch inst doBranch) =
      .ok j := by
    unfold Machine.nextIndex
    split
    case isFalse => exact ⟨_, rfl⟩
    case isTrue hkey =>
      unfold Machine.isBranch at hkey ⊢
      by_cases hbr : inst.opcode.checkBranchOp && doBranch
      · obtain ⟨t, ht⟩ := Option.isSome_iff_exists.mp
          (hlabels inst hmem (Bool.and_eq_true_iff.mp hbr).1)
        exact ⟨t, by rw [if_pos hbr, ht]⟩
      · rw [if_neg hbr] at hkey
        omega
  refine ⟨j, m₂, ?_, hj, hsame⟩
  unfold Machine.iterate
  rw [hexec']
  change (Machine.nextIndex col.loopMap k (Machine.isBranch inst doBranch) >>=
    fun j => Except.ok (j, m₂)) = _
  rw [hj]
  rfl

theorem issue (h : Inv col packets m₀ s i m) (hlabels : LabelsPresent col) {k : Nat}
    {inst : NdpInstruction} {addrs : Finset (BitVec 64)} {doBranch : Bool}
    {m' : Machine RegisterUnit} (hf : s.CanFetch k) (hi : col.insts[k]? = some inst)
    (hissue : s.machine.issue col.packet col.ndpId col.req inst = .ok (some (addrs, doBranch, m')))
    (hmeets : ∀ o ∈ s.machine.trace (RegisterUnit.fileOps col.ndpId col.req) inst, ∀ addr,
      o.packet? = some addr → addr ∈ packets) :
    ∃ j m₂, Inv col packets m₀ (s.afterIssue col k inst doBranch m') j m₂ := by
  obtain ⟨-, m₁, hexec, hm'⟩ := Machine.issue_eq_some hissue
  obtain ⟨j, m₂, hit, hj, hsame⟩ := h.iterate_issue hlabels hi hexec hmeets
  obtain ⟨hloop, hissued⟩ := h.extend hf hi hit
  obtain ⟨hfin, hlast⟩ := h.inside hf hi
  have hpc : (k : Int) = s.pc := h.current k hf.2.2
  have hsame' : m'.Same (operands col.insts) packets m₂ := by
    rw [hm']
    split
    · exact ⟨(RegisterUnit.Same.setNotReady _ _).trans hsame.regs, hsame.memories, hsame.csr⟩
    · exact hsame
  have hnone := (h.unblocked hf.1).2
  refine ⟨j, m₂, hloop, hissued, hsame', fun hb => ?_, fun hb => ?_, (fun _ hk => nomatch hk),
    fun f hmem hl => ?_, fun hpos => ?_⟩
  · -- not a branch: the loop goes on with the next index
    have hbr : inst.opcode.checkBranchOp = false := hb
    have hkey : Machine.isBranch inst doBranch = -1 := by
      rw [Machine.isBranch, hbr, Bool.false_and]
      rfl
    rw [hkey] at hj
    obtain rfl := Except.ok.inj hj
    refine ⟨?_, ?_⟩
    · simp only [afterIssue, hbr]
      change s.pc + 1 = (k : Int) + 1
      omega
    · simp only [afterIssue, branches, List.filter_cons, hbr, Bool.false_eq_true, if_false]
      exact hnone
  · have hbr : inst.opcode.checkBranchOp = true := hb
    refine ⟨rfl, hf.2.1, ⟨inst, doBranch, s.fetchesLast col inst⟩, ?_, ?_⟩
    · simp only [afterIssue, branches, List.filter_cons, hbr, if_true]
      exact congrArg _ hnone
    · simp only [afterIssue, hbr, if_true]
      rwa [← hpc]
  · simp only [afterIssue, List.mem_cons] at hmem
    obtain rfl | hmem := hmem
    · simp only [fetchesLast, decide_eq_true_eq] at hl
      simp only [afterIssue, hl.2, Bool.false_eq_true, if_false, and_true]
      omega
    · rw [hlast f hmem] at hl
      cases hl
  · change 0 < s.finished at hpos
    omega

theorem complete (h : Inv col packets m₀ s i m) {pre post : List Flight} {f : Flight}
    (hf : s.inFlight = pre ++ f :: post) (hb : f.inst.opcode.checkBranchOp = false) :
    Inv col packets m₀ { s with
      inFlight := pre ++ post
      finished := if f.lastInst then s.finished + 1 else s.finished } i m := by
  have hbranches : branches (pre ++ post) = branches s.inFlight := by
    rw [hf]
    simp [branches, List.filter_append, hb]
  refine ⟨h.loop, h.issued, h.same, fun hbl => ?_, fun hbl => ?_, h.current, fun g hg => ?_,
    fun hpos => ?_⟩
  · exact ⟨(h.unblocked hbl).1, hbranches.trans (h.unblocked hbl).2⟩
  · obtain ⟨hcur, hpend, g, hg, hnext⟩ := h.blocked hbl
    exact ⟨hcur, hpend, g, hbranches.trans hg, hnext⟩
  · refine h.last g ?_
    rw [hf]
    simp only [List.mem_append, List.mem_cons] at hg ⊢
    tauto
  · dsimp only at hpos ⊢
    split at hpos
    · rename_i hl
      obtain ⟨hpc, hbl⟩ := h.last f (by simp [hf]) hl
      exact ⟨hbl, .inr hpc.ge⟩
    · exact h.done hpos

theorem resolve (h : Inv col packets m₀ s i m) {pre post : List Flight} {f : Flight}
    {target : Int} (hf : s.inFlight = pre ++ f :: post)
    (hb : f.inst.opcode.checkBranchOp = true) (ht : s.resolved col f = some target)
    (hlabel : -1 ≤ Machine.isBranch f.inst f.doBranch) :
    Inv col packets m₀ (s.afterResolve col (pre ++ post) target) i m := by
  have hsplit : branches s.inFlight = branches pre ++ f :: branches post := by
    rw [hf]
    simp [branches, List.filter_append, hb]
  have hblock : s.block = true := by
    by_contra hne
    have hnone := (h.unblocked (by simpa using hne)).2
    rw [hsplit] at hnone
    simp at hnone
  obtain ⟨hcur, hpend, g, hg, hnext⟩ := h.blocked hblock
  rw [hsplit] at hg
  obtain ⟨hpre, rfl, hpost⟩ : branches pre = [] ∧ f = g ∧ branches post = [] := by
    cases hp : branches pre with
    | nil => simpa [hp] using hg
    | cons a l => simp [hp] at hg
  -- both sides read the label alike
  have htarget : target = i := by
    unfold resolved at ht
    unfold Machine.nextIndex at hnext
    split at ht
    case isTrue hne =>
      rw [if_pos (by omega), ht] at hnext
      exact Except.ok.inj hnext
    case isFalse he =>
      rw [if_neg (by omega)] at hnext
      exact (Option.some_inj.mp ht).symm.trans (Except.ok.inj hnext)
  subst htarget
  refine ⟨h.loop, h.issued, h.same, fun _ => ⟨rfl, ?_⟩, (by simp [afterResolve]), fun k hk => ?_,
    fun e he hl => ?_, fun hpos => ⟨rfl, ?_⟩⟩
  · change branches (pre ++ post) = []
    simp only [branches, List.filter_append] at hpre hpost ⊢
    rw [hpre, hpost]
    rfl
  · rw [show s.currentInst = some k from hk] at hcur
    cases hcur
  · have hmem : e ∈ s.inFlight := by
      rw [hf]
      simp only [afterResolve, List.mem_append] at he
      simp only [List.mem_append, List.mem_cons]
      tauto
    have := (h.last e hmem hl).2
    rw [hblock] at this
    cases this
  · simp only [afterResolve] at hpos ⊢
    split at hpos
    · omega
    · have := (h.done hpos).1
      rw [hblock] at this
      cases this

theorem others (h : Inv col packets m₀ s i m) {m' : Machine RegisterUnit}
    (hsame : s.machine.Same (operands col.insts) packets m') :
    Inv col packets m₀ { s with machine := m' } i m :=
  ⟨h.loop, h.issued, hsame.symm.trans h.same, h.unblocked, h.blocked, h.current, h.last, h.done⟩

theorem step (h : Inv col packets m₀ s i m) (hlabels : LabelsPresent col) {e : ColumnEvent}
    {s' : Pipeline} (hs : Step col s e s') (hmeets : s.Meets col packets e s') :
    ∃ i' m', Inv col packets m₀ s' i' m' := by
  cases hs with
  | request _ hblock => exact ⟨_, _, h.request hblock⟩
  | fill hpend hpc => exact ⟨_, _, h.fill hpend hpc⟩
  | exit hf hi he => exact ⟨_, _, h.exit hf hi he hmeets⟩
  | issue hf hi _ hissue => exact h.issue hlabels hf hi hissue (hmeets _ hi)
  | complete hf hb => exact ⟨_, _, h.complete hf hb⟩
  | resolve hf hb ht => exact ⟨_, _, h.resolve hf hb ht hmeets⟩
  | others regs memories => exact ⟨_, _, h.others hmeets⟩

theorem follows (h : Inv col packets m₀ s i m) : s.Follows col m₀ := by
  refine ⟨h.issued, fun hpos n hn => ?_⟩
  obtain ⟨hblock, hout⟩ := h.done hpos
  rw [(h.unblocked hblock).1] at hout
  obtain ⟨k, rfl⟩ := Nat.exists_eq_add_of_le hn
  rw [Machine.indices_add h.loop, Machine.indices_outside hout, List.append_nil]
  exact h.issued.symm

end Inv

theorem Run.inv (hlabels : LabelsPresent col) {s : Pipeline}
    (h : Run col packets (start m₀) s) : ∃ i m, Inv col packets m₀ s i m := by
  induction h with
  | refl => exact ⟨_, _, Inv.start⟩
  | tail _ hstep ih =>
    obtain ⟨i, m, hinv⟩ := ih
    obtain ⟨e, hs, hmeets⟩ := hstep
    exact hinv.step hlabels hs hmeets

/-- In every run whose events meet the condition, the pipeline issues the indices the functional
loop executes, in the same order, and all of them before the context is finished. -/
theorem issued_follows (hlabels : LabelsPresent col) {s : Pipeline}
    (h : Run col packets (start m₀) s) : s.Follows col m₀ := by
  obtain ⟨i, m, hinv⟩ := h.inv hlabels
  exact hinv.follows

end Invariant

/-! ## Two columns -/

/-- Instructions without operands but a destination, on the first physical x register. -/
def samplePlain (op : Opcode) : NdpInstruction :=
  { opcode := op, operandType := .none, src := 0, dest := regPXBase, segDest := 0, segCnt := 0,
    doBranch := false }

def sampleColumn (ops : List Opcode) : ColumnInfo :=
  { insts := ops.map samplePlain, loopMap := ∅, req := RegisterUnit.sampleRequest, ndpId := 0,
    packet := 32 }

def sampleMachine : Machine RegisterUnit :=
  ⟨RegisterUnit.create 1 0 0, ⟨⟨0, 0, none, fun _ => none⟩, ⟨0, 0, none, fun _ => none⟩⟩, {}⟩

/-- A branch that is taken, for two equal registers, to the label 5. -/
def sampleBranch : NdpInstruction :=
  { samplePlain .beq with src := ![regPXBase, regPXBase, 5, -1, -1] }

/-- The label is at the last of three instructions. -/
def branchColumn : ColumnInfo :=
  { sampleColumn [] with
    insts := [sampleBranch, samplePlain .li, samplePlain .li], loopMap := AList.singleton 5 2 }

/-- A branch over an instruction: the pipeline waits until it is resolved. -/
theorem issued_follows_branch : letI := FloatOps.zero
    ∃ s, Run branchColumn Set.univ (start sampleMachine) s ∧ s.finished = 1 ∧
      s.issued = [0, 2] ∧ s.Follows branchColumn sampleMachine := by
  let _ := FloatOps.zero
  have hlabels : LabelsPresent branchColumn := by
    intro inst hmem hb
    obtain rfl | rfl : inst = sampleBranch ∨ inst = samplePlain .li := by
      simpa [branchColumn] using hmem
    · rfl
    · cases hb
  have hrequest : Run branchColumn Set.univ (start sampleMachine) _ :=
    .single ⟨.request, .request rfl rfl rfl (by decide) (by decide), trivial⟩
  have hfill := hrequest.tail ⟨.fill, .fill rfl (by decide) (by decide), trivial⟩
  have hbranch : branchColumn.insts[0]? = some sampleBranch := rfl
  have hissue := hfill.tail ⟨.issue 0, .issue ⟨rfl, rfl, rfl⟩ hbranch (by decide) rfl,
    fun _ _ _ _ _ _ => trivial⟩
  have hresolve := hissue.tail ⟨.resolve _, .resolve (List.nil_append _).symm rfl rfl,
    (by decide : (-1 : Int) ≤ 5)⟩
  have hrequest₂ := hresolve.tail
    ⟨.request, .request rfl rfl rfl (by decide) (by decide), trivial⟩
  have hfill₂ := hrequest₂.tail ⟨.fill, .fill rfl (by decide) (by decide), trivial⟩
  have hlast : branchColumn.insts[2]? = some (samplePlain .li) := rfl
  have hissue₂ := hfill₂.tail ⟨.issue 2, .issue ⟨rfl, rfl, rfl⟩ hlast (by decide) rfl,
    fun _ _ _ _ _ _ => trivial⟩
  have hcomplete := hissue₂.tail ⟨.complete _, .complete (List.nil_append _).symm rfl, trivial⟩
  exact ⟨_, hcomplete, rfl, rfl, issued_follows hlabels hcomplete⟩

/-- `exit` followed by `li`: the pipeline finishes the column, the functional loop goes on. -/
theorem exit_not_last : letI := FloatOps.zero
    LabelsPresent (sampleColumn [.exit, .li]) ∧
    ∃ s, Relation.ReflTransGen (fun s s' => ∃ e, Step (sampleColumn [.exit, .li]) s e s')
      (start sampleMachine) s ∧ s.finished = 1 ∧
      ¬ s.Follows (sampleColumn [.exit, .li]) sampleMachine := by
  let _ := FloatOps.zero
  constructor
  · intro inst hmem hb
    obtain rfl | rfl : inst = samplePlain .exit ∨ inst = samplePlain .li := by
      simpa [sampleColumn] using hmem
    all_goals cases hb
  have h₁ : Relation.ReflTransGen (fun s s' => ∃ e, Step (sampleColumn [.exit, .li]) s e s')
      (start sampleMachine) _ :=
    .single ⟨.request, .request rfl rfl rfl (by decide) (by decide)⟩
  have h₂ := h₁.tail ⟨.fill, .fill rfl (by decide) (by decide)⟩
  have hi : (sampleColumn [.exit, .li]).insts[0]? = some (samplePlain .exit) := rfl
  have h₃ := h₂.tail ⟨.exit 0, .exit ⟨rfl, rfl, rfl⟩ hi rfl⟩
  refine ⟨_, h₃, rfl, ?_⟩
  rintro ⟨-, hall⟩
  have h2 := hall Nat.one_pos 2 (by decide)
  cases h2

end Pipeline

end NdpSim
