import NdpSim.Cache.Waiters
import NdpSim.Functional.Machine
import NdpSim.Library.DelayQueue
import NdpSim.Timing.InstructionQueue

/-!
# Fetching instructions

A column asks for the instruction at its program counter, the request waits in a queue, then in
the L0 cache if it misses there, and at the end the instruction is delivered. Meanwhile other
columns are issued, their branches resolved, and columns come and go. For each column alone this
is a small state machine, and what happens in the unit is what happens in these machines.
-/
namespace NdpSim

open Library

namespace QueuedColumn

/-- The address of the instruction at the program counter; the product is a `uint32_t`. -/
def instAddr (c : QueuedColumn) : BitVec 64 :=
  c.baseAddr + (BitVec.ofInt 32 (c.fetch.pc * 4)).setWidth 64

/-- The program counter is at an instruction. -/
def Inside (c : QueuedColumn) : Prop := 0 ≤ c.fetch.pc ∧ c.fetch.pc < c.column.insts.length

instance (c : QueuedColumn) : Decidable c.Inside := inferInstanceAs (Decidable (_ ∧ _))

/-- Nothing keeps the column from asking for its next instruction. -/
def Idle (c : QueuedColumn) : Prop :=
  c.fetch.currentInst = none ∧ c.fetch.block = false ∧ c.fetch.pending = false ∧ c.Inside

instance (c : QueuedColumn) : Decidable c.Idle := inferInstanceAs (Decidable (_ ∧ _))

/-- `last_inst` of `fetch_context`. -/
def FetchesLast (c : QueuedColumn) : Prop :=
  c.fetch.pc = (c.column.insts.length : Int) - 1 ∧
    (c.column.insts.getLast?.all fun inst => !inst.opcode.checkBranchOp)

instance (c : QueuedColumn) : Decidable c.FetchesLast := inferInstanceAs (Decidable (_ ∧ _))

def setFetch (c : QueuedColumn) (f : FetchState → FetchState) : QueuedColumn :=
  { c with fetch := f c.fetch }

end QueuedColumn

namespace FetchState

def requested (f : FetchState) : FetchState := { f with pending := true }

def delivered (f : FetchState) : FetchState :=
  { f with currentInst := some f.pc.toNat, pending := false }

/-- What `issue` and `fetch_success` do to the column. -/
def issued (inst : NdpInstruction) (f : FetchState) : FetchState :=
  { f with
    pc := if inst.opcode.checkBranchOp then f.pc else f.pc + 1
    block := inst.opcode.checkBranchOp
    fetchedInst := f.currentInst
    currentInst := none }

def resolved (target : Int) (f : FetchState) : FetchState := { f with pc := target, block := false }

end FetchState

namespace FetchQueue

def column? (q : FetchQueue) (i : Nat) : Option QueuedColumn := q.columns.find? fun c => c.id = i

def update (q : FetchQueue) (i : Nat) (f : FetchState → FetchState) : FetchQueue :=
  { q with columns := q.columns.map fun c => if c.id = i then c.setFetch f else c }

end FetchQueue

structure FetchConfig where
  uthreadSlots : Nat
  instFetchPerCycle : Nat
  l0HitLatency : Nat
  idealIcache : Bool
  icache : CacheConfig

/-- A branch in an integer unit. -/
structure IssuedBranch where
  colId : Nat
  inst : NdpInstruction
  doBranch : Bool

/-- The instruction queue with the L0 cache and what is known of the columns elsewhere: their
branches in the integer units, and the columns whose last instruction is on its way to the finished
contexts. `instColumn` gives the column of a request, by the number of the request. -/
structure FetchUnit where
  queue : FetchQueue
  icacheQueue : DelayQueue MemFetch
  icache : Cache
  instColumn : Nat → Nat
  numFetches : Nat
  branches : List IssuedBranch
  ended : List Nat

namespace FetchUnit

def create (lines : Lines) : FetchUnit where
  queue := .create
  icacheQueue := .create 0
  icache := .initial lines
  instColumn _ := 0
  numFetches := 0
  branches := []
  ended := []

/-! ## One cycle -/

/-- At most `n` rounds; `none` leaves the loop. -/
def rounds {σ : Type} (f : σ → Except Fault (Option σ)) : Nat → σ → Except Fault σ
  | 0, s => .ok s
  | n + 1, s => do
    match ← f s with
    | none => return s
    | some s' => rounds f n s'

def deliver (u : FetchUnit) (mf : MemFetch) : Except Fault FetchUnit :=
  match u.queue.column? (u.instColumn mf.id) with
  | none => .error .undefined
  | some c =>
    if c.Inside then .ok { u with queue := u.queue.update c.id FetchState.delivered }
    else .error .outOfRange

/-- The request at the head of the queue goes to the cache. -/
def accessIcache (cfg : FetchConfig) (time : Nat) (u : FetchUnit) :
    Except Fault (Option FetchUnit) :=
  match u.icacheQueue.top? with
  | none => .ok none
  | some mf =>
    if cfg.idealIcache then do
      return some (← { u with icacheQueue := u.icacheQueue.pop }.deliver mf)
    else do
      let (status, _, icache) ← u.icache.access .readOnly cfg.icache mf time
      let u := { u with icache := icache }
      match status with
      | .hit => return some (← { u with icacheQueue := u.icacheQueue.pop }.deliver mf)
      | .reservationFail => return some u
      | _ => return some { u with icacheQueue := u.icacheQueue.pop }

/-- The next request whose block has arrived. -/
def takeReady (u : FetchUnit) : Except Fault (Option FetchUnit) :=
  if u.icache.accessReady then do
    let (mf, icache) ← u.icache.popNextAccess
    match u.queue.column? (u.instColumn mf.id) with
    | none => throw .undefined
    | some c =>
      if !c.fetch.pending then throw .assertion
      return some (← { u with icache := icache }.deliver mf)
  else .ok none

/-- A read of one word for the instruction cache. -/
def instRead (id : Nat) (addr : BitVec 64) : MemFetch :=
  { id := id, addr := addr, isWrite := false, isAtomic := false, fromNdp := true, byteCount := 4,
    dataSize := 4, dirtyMask := 0 }

def request (cfg : FetchConfig) (u : FetchUnit) (c : QueuedColumn) : FetchUnit :=
  { u with
    queue := u.queue.update c.id FetchState.requested
    icacheQueue := u.icacheQueue.push (instRead u.numFetches c.instAddr)
      (if cfg.idealIcache then 0 else cfg.l0HitLatency)
    instColumn := Function.update u.instColumn u.numFetches c.id
    numFetches := u.numFetches + 1 }

/-- The column at the position of the loop asks for its next instruction, if it can. -/
def requestNext (cfg : FetchConfig) : Nat × FetchUnit → Except Fault (Option (Nat × FetchUnit))
  | (iter, u) =>
    match u.queue.columns[iter]? with
    | none => .error .undefined
    | some c =>
      .ok (some (if iter + 1 = u.queue.columns.length then 0 else iter + 1,
        if c.Idle then u.request cfg c else u))

def cycle (cfg : FetchConfig) (time : Nat) (u : FetchUnit) : Except Fault FetchUnit := do
  let n := (min (cfg.instFetchPerCycle : Int) u.queue.numColumns).toNat
  let u ← rounds (accessIcache cfg time) n { u with icacheQueue := u.icacheQueue.cycle }
  let u ← rounds takeReady n u
  let (_, u) ← rounds (requestNext cfg) n (u.queue.iter, u)
  return u

/-! ## Issue and branches -/

/-- The column at the cursor is issued if its instruction has arrived and `issue` succeeds; then
the cursor moves on. -/
def issue (u : FetchUnit) (success doBranch : Bool) : Except Fault FetchUnit := do
  let c ← u.queue.current
  if !FetchQueue.canFetch c then return { u with queue := ← u.queue.next }
  match c.fetch.currentInst.bind fun k => c.column.insts[k]? with
  | none => throw .undefined
  | some inst =>
    let queue ← u.queue.fetchContext
    if !success then return { u with queue := ← queue.next }
    let c ← queue.current
    let queue := queue.setCurrent { c.fetch with
      pc := if inst.opcode.checkBranchOp then c.fetch.pc else c.fetch.pc + 1
      block := inst.opcode.checkBranchOp }
    let queue ← queue.fetchSuccess
    return { u with
      queue := ← queue.next
      branches := if inst.opcode.checkBranchOp then ⟨c.id, inst, doBranch⟩ :: u.branches
        else u.branches
      ended := if inst.opcode = .exit ∨ c.fetch.fetchedLast then c.id :: u.ended else u.ended }

/-- The program counter after a branch. -/
def branchTarget (c : QueuedColumn) (b : IssuedBranch) : Except Fault Int :=
  if Machine.isBranch b.inst b.doBranch = -1 then .ok (c.fetch.pc + 1)
  else
    match c.column.loopMap.lookup (Machine.isBranch b.inst b.doBranch) with
    | some target => .ok target
    | none => .error .outOfRange

/-- An integer unit is done with the branch at position `n`. -/
def resolve (u : FetchUnit) (n : Nat) : Except Fault FetchUnit :=
  match u.branches[n]? with
  | none => .error .undefined
  | some b =>
    match u.queue.column? b.colId with
    | none => .error .undefined
    | some c => do
      let target ← branchTarget c b
      return { u with
        queue := u.queue.update c.id (FetchState.resolved target)
        branches := u.branches.eraseIdx n
        ended := if (c.column.insts.length : Int) - 1 < target then c.id :: u.ended else u.ended }

/-! ## Runs -/

inductive Op
  | push (col : InstColumn) (baseAddr : BitVec 64)
  | cycle (time : Nat)
  | issue (success doBranch : Bool)
  | resolve (n : Nat)
  | fill (id time : Nat)
  | icacheCycle (full : Bool)
  | finish (colId : Nat)

def step (cfg : FetchConfig) (u : FetchUnit) : Op → Except Fault FetchUnit
  | .push col baseAddr => do
    return { u with queue := ← u.queue.push cfg.uthreadSlots col baseAddr }
  | .cycle time => u.cycle cfg time
  | .issue success doBranch => u.issue success doBranch
  | .resolve n => u.resolve n
  | .fill id time => do return { u with icache := ← u.icache.fill cfg.icache id time }
  | .icacheCycle full => .ok { u with icache := (u.icache.cycle full).2 }
  | .finish colId => do
    return { u with queue := ← u.queue.finishInstColumn colId, ended := u.ended.erase colId }

/-- `EXIT` stands only at the end. -/
def ExitLast (col : InstColumn) : Prop :=
  ∀ k inst, col.insts[k]? = some inst → inst.opcode = .exit → k + 1 = col.insts.length

/-- A branch is resolved after it was issued, and a column is finished after its last instruction
was. -/
def Offered (u : FetchUnit) : Op → Prop
  | .push col _ => ExitLast col
  | .resolve n => n < u.branches.length
  | .finish colId => colId ∈ u.ended
  | _ => True

inductive Run (cfg : FetchConfig) : FetchUnit → Prop
  | start (lines : Lines) : Run cfg (create lines)
  | step {u u' : FetchUnit} (run : Run cfg u) (op : Op) (offered : u.Offered op)
      (h : u.step cfg op = .ok u') : Run cfg u'

/-- The requests that were not delivered yet, in the queue or in the table of the cache. -/
def outstanding (u : FetchUnit) : Multiset MemFetch := u.icacheQueue.items + u.icache.waiters

/-- The requests for a column. -/
def fetchesOf (u : FetchUnit) (i : Nat) : Multiset MemFetch :=
  u.outstanding.filter fun mf => u.instColumn mf.id = i

end FetchUnit

/-! ## One column -/

/-- What belongs to one column: its entry in the queue, the addresses asked for and not delivered,
its branches in the integer units, and how often its end is on its way. -/
structure ColumnView where
  column : Option QueuedColumn
  fetches : Multiset (BitVec 64)
  branches : Nat
  ended : Nat

namespace ColumnView

/-- Fetching in one cycle. -/
inductive Fetches : ColumnView → ColumnView → Prop
  | request {c : QueuedColumn} {F : Multiset (BitVec 64)} {b e : Nat} (idle : c.Idle) :
      Fetches ⟨some c, F, b, e⟩ ⟨some (c.setFetch FetchState.requested), c.instAddr ::ₘ F, b, e⟩
  | deliver {c : QueuedColumn} {a : BitVec 64} {F : Multiset (BitVec 64)} {b e : Nat} :
      Fetches ⟨some c, a ::ₘ F, b, e⟩ ⟨some (c.setFetch FetchState.delivered), F, b, e⟩

/-- Whatever else happens to a column. -/
inductive Step : ColumnView → ColumnView → Prop
  | push {c : QueuedColumn} {F : Multiset (BitVec 64)} {b e : Nat} (fresh : c.fetch = {})
      (nonempty : c.column.insts ≠ []) (exit : FetchUnit.ExitLast c.column) :
      Step ⟨none, F, b, e⟩ ⟨some c, F, b, e⟩
  | refuse {c : QueuedColumn} {F : Multiset (BitVec 64)} {b e : Nat} (last : Bool)
      (ready : FetchQueue.canFetch c = true) :
      Step ⟨some c, F, b, e⟩ ⟨some (c.setFetch fun f => { f with fetchedLast := last }), F, b, e⟩
  | issue {c : QueuedColumn} {k : Nat} {inst : NdpInstruction} {F : Multiset (BitVec 64)}
      {b e : Nat} (last : Bool) (ready : FetchQueue.canFetch c = true)
      (current : c.fetch.currentInst = some k) (at_pc : c.column.insts[k]? = some inst)
      (last_iff : last = true ↔ c.FetchesLast) :
      Step ⟨some c, F, b, e⟩
        ⟨some (c.setFetch fun f => { f.issued inst with fetchedLast := last }), F,
          if inst.opcode.checkBranchOp then b + 1 else b,
          if inst.opcode = .exit ∨ last then e + 1 else e⟩
  | resolve {c : QueuedColumn} {F : Multiset (BitVec 64)} {b e : Nat} (target : Int) :
      Step ⟨some c, F, b + 1, e⟩ ⟨some (c.setFetch (FetchState.resolved target)), F, b,
        if (c.column.insts.length : Int) - 1 < target then e + 1 else e⟩
  | finish {c : QueuedColumn} {F : Multiset (BitVec 64)} {b e : Nat} :
      Step ⟨some c, F, b, e + 1⟩ ⟨none, F, b, e⟩

/-- A column waits for one instruction, or has it, or waits for one branch, or is done, or can ask
for its next instruction. -/
structure Sound (c : QueuedColumn) : Prop where
  exit : FetchUnit.ExitLast c.column
  pending : c.fetch.pending = true →
    c.fetch.currentInst = none ∧ c.fetch.block = false ∧ c.Inside
  current : ∀ k, c.fetch.currentInst = some k →
    (k : Int) = c.fetch.pc ∧ c.Inside ∧ c.fetch.block = false
  block : c.fetch.block = true → c.Inside

/-- What is under way for a column. -/
structure Held (c : QueuedColumn) (F : Multiset (BitVec 64)) (b e : Nat) : Prop where
  sound : Sound c
  fetches : F = if c.fetch.pending then {c.instAddr} else 0
  branches : b = if c.fetch.block then 1 else 0
  ended : e = if (c.column.insts.length : Int) ≤ c.fetch.pc then 1 else 0

def Inv (v : ColumnView) : Prop :=
  match v.column with
  | none => v.fetches = 0 ∧ v.branches = 0 ∧ v.ended = 0
  | some c => Held c v.fetches v.branches v.ended

variable {v v' : ColumnView} {c : QueuedColumn}

theorem Fetches.inv (h : Fetches v v') (hv : v.Inv) : v'.Inv := by
  cases h with
  | request idle =>
    rename_i c F b e
    obtain ⟨hcur, hblock, hpend, hin⟩ := idle
    have hheld : Held c F b e := hv
    refine ⟨⟨hheld.sound.exit, fun _ => ⟨hcur, hblock, hin⟩, fun k hk => ?_, fun _ => hin⟩, ?_,
      hheld.branches, hheld.ended⟩
    · exact absurd (hcur.symm.trans hk) (by simp)
    · have hF := hheld.fetches
      rw [hpend] at hF
      rw [hF]
      rfl
  | deliver =>
    rename_i c a F b e
    have hheld : Held c (a ::ₘ F) b e := hv
    have hF := hheld.fetches
    split at hF
    case isFalse => exact absurd hF (Multiset.cons_ne_zero)
    case isTrue hpend =>
      obtain ⟨-, hblock, hin⟩ := hheld.sound.pending hpend
      refine ⟨⟨hheld.sound.exit, fun h => absurd h (by simp [QueuedColumn.setFetch,
        FetchState.delivered]), fun k hk => ?_, hheld.sound.block⟩, ?_, hheld.branches,
        hheld.ended⟩
      · obtain rfl := Option.some.inj hk
        exact ⟨Int.toNat_of_nonneg hin.1, hin, hblock⟩
      · exact ((Multiset.cons_eq_cons.mp hF).resolve_right fun h => by simp at h).2

theorem fetchesLast_iff {k : Nat} {inst : NdpInstruction} (hpc : (k : Int) = c.fetch.pc)
    (at_pc : c.column.insts[k]? = some inst) : c.FetchesLast ↔
      c.fetch.pc + 1 = c.column.insts.length ∧ inst.opcode.checkBranchOp = false := by
  unfold QueuedColumn.FetchesLast
  constructor
  · rintro ⟨hlast, hall⟩
    have hk : k = c.column.insts.length - 1 := by omega
    rw [List.getLast?_eq_getElem?, ← hk, at_pc] at hall
    exact ⟨by omega, by simpa using hall⟩
  · rintro ⟨hlast, hbranch⟩
    have hk : k = c.column.insts.length - 1 := by omega
    rw [List.getLast?_eq_getElem?, ← hk, at_pc]
    exact ⟨by omega, by simpa using hbranch⟩

theorem Held.issue {F : Multiset (BitVec 64)} {b e k : Nat} {inst : NdpInstruction} {last : Bool}
    (h : Held c F b e) (ready : FetchQueue.canFetch c = true)
    (current : c.fetch.currentInst = some k) (at_pc : c.column.insts[k]? = some inst)
    (last_iff : last = true ↔ c.FetchesLast) :
    Held (c.setFetch fun f => { f.issued inst with fetchedLast := last }) F
      (if inst.opcode.checkBranchOp then b + 1 else b)
      (if inst.opcode = .exit ∨ last then e + 1 else e) := by
  obtain ⟨hpc, hin, hblock⟩ := h.sound.current k current
  rw [fetchesLast_iff hpc at_pc] at last_iff
  have hpend : c.fetch.pending = false := by
    cases hp : c.fetch.pending with
    | false => rfl
    | true => simp [FetchQueue.canFetch, hp] at ready
  have hb : b = 0 := by simpa [hblock] using h.branches
  have he : e = 0 := by simpa [Int.not_le.mpr hin.2] using h.ended
  have hF : F = 0 := by simpa [hpend] using h.fetches
  have hexit : inst.opcode = .exit → inst.opcode.checkBranchOp = false := by
    intro hop
    rw [hop]
    rfl
  have hlast : inst.opcode = .exit → c.fetch.pc + 1 = c.column.insts.length := by
    intro hop
    have := h.sound.exit k inst at_pc hop
    omega
  subst hb he hF
  -- a branch stays at its instruction, anything else goes on to the next
  cases hbranch : inst.opcode.checkBranchOp with
  | true =>
    have hne : ¬ (inst.opcode = .exit ∨ last = true) := by
      rintro (hop | hl)
      · simp [hexit hop] at hbranch
      · simp [(last_iff.mp hl).2] at hbranch
    rw [if_neg hne]
    refine ⟨⟨h.sound.exit, fun hp => ?_, fun k hk => ?_, fun _ => ?_⟩, ?_, ?_, ?_⟩
    · exact absurd (hpend.symm.trans hp) (by simp)
    · cases hk
    · simpa [QueuedColumn.Inside, QueuedColumn.setFetch, FetchState.issued, hbranch] using hin
    · simp [QueuedColumn.setFetch, FetchState.issued, hpend]
    · simp [QueuedColumn.setFetch, FetchState.issued, hbranch]
    · simpa [QueuedColumn.setFetch, FetchState.issued, hbranch] using hin.2
  | false =>
    have hiff : (inst.opcode = .exit ∨ last = true) ↔
        (c.column.insts.length : Int) ≤ c.fetch.pc + 1 := by
      constructor
      · rintro (hop | hl)
        · exact (hlast hop).ge
        · exact (last_iff.mp hl).1.ge
      · intro hle
        have hlt := hin.2
        exact .inr (last_iff.mpr ⟨by omega, hbranch⟩)
    refine ⟨⟨h.sound.exit, fun hp => ?_, fun k hk => ?_, fun hp => ?_⟩, ?_, ?_, ?_⟩
    · exact absurd (hpend.symm.trans hp) (by simp)
    · cases hk
    · simp [QueuedColumn.setFetch, FetchState.issued, hbranch] at hp
    · simp [QueuedColumn.setFetch, FetchState.issued, hpend]
    · simp [QueuedColumn.setFetch, FetchState.issued, hbranch]
    · simp only [QueuedColumn.setFetch, FetchState.issued, hbranch, Bool.false_eq_true, if_false,
        hiff]

theorem Held.resolve {F : Multiset (BitVec 64)} {b e : Nat} (h : Held c F (b + 1) e)
    (target : Int) : Held (c.setFetch (FetchState.resolved target)) F b
      (if (c.column.insts.length : Int) - 1 < target then e + 1 else e) := by
  have hb := h.branches
  split at hb
  case isFalse => cases hb
  case isTrue hblock =>
    have hin := h.sound.block hblock
    have hpend : c.fetch.pending = false := by
      cases hp : c.fetch.pending with
      | false => rfl
      | true => simp [(h.sound.pending hp).2.1] at hblock
    have he : e = 0 := by simpa [Int.not_le.mpr hin.2] using h.ended
    have hF : F = 0 := by simpa [hpend] using h.fetches
    obtain rfl : b = 0 := by omega
    subst he hF
    refine ⟨⟨h.sound.exit, fun hp => ?_, fun k hk => ?_, fun hp => ?_⟩, ?_, ?_, ?_⟩
    · exact absurd (hpend.symm.trans hp) (by simp)
    · exact absurd (h.sound.current k hk).2.2 (by simp [hblock])
    · cases hp
    · simp [QueuedColumn.setFetch, FetchState.resolved, hpend]
    · simp [QueuedColumn.setFetch, FetchState.resolved]
    · by_cases hpast : (c.column.insts.length : Int) ≤ target
      · rw [if_pos (by omega)]
        exact (if_pos hpast).symm
      · rw [if_neg (by omega)]
        exact (if_neg hpast).symm

theorem Step.inv (h : Step v v') (hv : v.Inv) : v'.Inv := by
  cases h with
  | push fresh nonempty exit =>
    rename_i c F b e
    obtain ⟨hF, hb, he⟩ := hv
    simp only at hF hb he
    have hpos := List.length_pos_iff.mpr nonempty
    refine ⟨⟨exit, ?_, ?_, ?_⟩, ?_, ?_, ?_⟩ <;> simp_all
  | refuse last ready =>
    have hheld := hv
    exact ⟨⟨hheld.sound.exit, hheld.sound.pending, hheld.sound.current, hheld.sound.block⟩,
      hheld.fetches, hheld.branches, hheld.ended⟩
  | issue last ready current at_pc last_iff => exact Held.issue hv ready current at_pc last_iff
  | resolve target => exact Held.resolve hv target
  | finish =>
    rename_i c F b e
    have hheld : Held c F b (e + 1) := hv
    have he := hheld.ended
    split at he
    case isFalse => cases he
    case isTrue hpast =>
      have hout : ¬ c.Inside := fun hin => absurd hin.2 (Int.not_lt.mpr hpast)
      refine ⟨?_, ?_, ?_⟩
      · rw [hheld.fetches, if_neg fun hp => hout (hheld.sound.pending hp).2.2]
      · rw [hheld.branches, if_neg fun hb => hout (hheld.sound.block hb)]
      · exact Nat.succ.inj he

/-- A column that waits for an instruction keeps its program counter until the instruction at it
is there. -/
structure Advances (c c' : QueuedColumn) : Prop where
  id : c'.id = c.id
  column : c'.column = c.column
  baseAddr : c'.baseAddr = c.baseAddr
  pc : c'.fetch.pc = c.fetch.pc
  progress : c'.fetch.pending = true ∨ c'.fetch.currentInst = some c.fetch.pc.toNat

theorem Fetches.advances (h : Relation.ReflTransGen Fetches v v') (hc : v.column = some c)
    (hpend : c.fetch.pending = true) : ∃ c', v'.column = some c' ∧ Advances c c' := by
  induction h with
  | refl => exact ⟨c, hc, rfl, rfl, rfl, rfl, .inl hpend⟩
  | tail _ hstep ih =>
    obtain ⟨c₁, hc₁, hadv⟩ := ih
    cases hstep with
    | request idle =>
      obtain rfl := Option.some.inj hc₁
      obtain hp | hp := hadv.progress
      · exact absurd (idle.2.2.1.symm.trans hp) (by simp)
      · exact absurd (idle.1.symm.trans hp) (by simp)
    | deliver =>
      obtain rfl := Option.some.inj hc₁
      exact ⟨_, rfl, hadv.id, hadv.column, hadv.baseAddr, hadv.pc,
        .inr (by simp [QueuedColumn.setFetch, FetchState.delivered, hadv.pc])⟩

/-- Nothing else happens to a column that waits for an instruction. -/
theorem Step.not_pending (h : Step v v') (hv : v.Inv) (hc : v.column = some c) :
    c.fetch.pending = false := by
  refine Bool.eq_false_iff.mpr fun hpend => ?_
  cases h with
  | push => cases hc
  | refuse last ready =>
    obtain rfl := Option.some.inj hc
    simp [FetchQueue.canFetch, hpend] at ready
  | issue last ready =>
    obtain rfl := Option.some.inj hc
    simp [FetchQueue.canFetch, hpend] at ready
  | resolve target =>
    obtain rfl := Option.some.inj hc
    have hheld : Held _ _ _ _ := hv
    have hb := hheld.branches
    simp [(hheld.sound.pending hpend).2.1] at hb
  | finish =>
    obtain rfl := Option.some.inj hc
    have hheld : Held _ _ _ _ := hv
    have he := hheld.ended
    simp [Int.not_le.mpr (hheld.sound.pending hpend).2.2.2] at he

theorem Step.advances (h : Relation.ReflTransGen Step v v') (hv : v.Inv)
    (hc : v.column = some c) (hpend : c.fetch.pending = true) :
    ∃ c', v'.column = some c' ∧ Advances c c' := by
  obtain rfl | ⟨v₁, hstep, -⟩ := h.cases_head
  · exact ⟨c, hc, rfl, rfl, rfl, rfl, .inl hpend⟩
  · simp [hstep.not_pending hv hc] at hpend

theorem Fetches.run_inv (h : Relation.ReflTransGen Fetches v v') (hv : v.Inv) : v'.Inv := by
  induction h with
  | refl => exact hv
  | tail _ hstep ih => exact hstep.inv ih

theorem Step.run_inv (h : Relation.ReflTransGen Step v v') (hv : v.Inv) : v'.Inv := by
  induction h with
  | refl => exact hv
  | tail _ hstep ih => exact hstep.inv ih

end ColumnView

/-! ## Columns in the queue -/

namespace FetchQueue

variable {slots : Nat} {q q' : FetchQueue} {c : QueuedColumn} {i j : Nat}

theorem column?_eq_some (hids : (q.columns.map QueuedColumn.id).Nodup) :
    q.column? i = some c ↔ c ∈ q.columns ∧ c.id = i := by
  constructor
  · intro h
    exact ⟨List.mem_of_find?_eq_some h, by simpa using List.find?_some h⟩
  · rintro ⟨hmem, rfl⟩
    cases hfind : q.column? c.id with
    | none => simpa using List.find?_eq_none.mp hfind c hmem
    | some d =>
      have hd : d.id = c.id := by simpa using List.find?_some hfind
      exact congrArg some (List.inj_on_of_nodup_map hids (List.mem_of_find?_eq_some hfind) hmem hd)

theorem column?_update (q : FetchQueue) (j : Nat) (f : FetchState → FetchState) (i : Nat) :
    (q.update j f).column? i =
      (q.column? i).map fun c => if i = j then c.setFetch f else c := by
  unfold column? update
  rw [List.find?_map]
  have hpred : (fun c : QueuedColumn => decide (c.id = i)) ∘
      (fun c => if c.id = j then c.setFetch f else c) = fun c => decide (c.id = i) := by
    funext c
    simp only [Function.comp_apply]
    split <;> rfl
  rw [hpred]
  cases hfind : q.columns.find? fun c => c.id = i with
  | none => rfl
  | some c =>
    have hid : c.id = i := by simpa using List.find?_some hfind
    simp [hid]

theorem mem_of_current (h : q.current = .ok c) : q.columns[q.iter]? = some c := by
  unfold current at h
  split at h
  case h_1 d heq => rw [heq, Except.ok.inj h]
  · cases h

/-- The cursor changes the column it points at. -/
theorem setCurrent_eq_update (hids : (q.columns.map QueuedColumn.id).Nodup)
    (hcur : q.current = .ok c) (f : FetchState → FetchState) :
    q.setCurrent (f c.fetch) = q.update c.id f := by
  have hget := mem_of_current hcur
  have hcols : (q.columns.modify q.iter fun d => { d with fetch := f c.fetch }) =
      q.columns.map fun d => if d.id = c.id then d.setFetch f else d := by
    refine List.ext_getElem? fun n => ?_
    rw [List.getElem?_modify, List.getElem?_map]
    cases hn : q.columns[n]? with
    | none => simp
    | some d =>
      by_cases heq : q.iter = n
      · subst heq
        obtain rfl : d = c := Option.some.inj (hn.symm.trans hget)
        simp [QueuedColumn.setFetch]
      · have hid : d.id ≠ c.id := by
          intro hid
          have hlt := (List.getElem?_eq_some_iff.mp hget).1
          have hsame : (q.columns.map QueuedColumn.id)[q.iter]? =
              (q.columns.map QueuedColumn.id)[n]? := by simp [hget, hn, hid]
          exact heq ((List.getElem?_inj (by simpa using hlt) hids).mp hsame)
        simp [heq, hid]
  simp only [setCurrent, update, hcols]

theorem current_setCurrent (hcur : q.current = .ok c) (f : FetchState) :
    (q.setCurrent f).current = .ok { c with fetch := f } := by
  have hget := mem_of_current hcur
  simp [current, setCurrent, hget]

theorem setCurrent_setCurrent (q : FetchQueue) (f g : FetchState) :
    (q.setCurrent f).setCurrent g = q.setCurrent g := by
  simp only [setCurrent, List.modify_modify_eq]
  rfl

theorem fetchContext_eq (hcur : q.current = .ok c) (h : q.fetchContext = .ok q') :
    ∃ last : Bool, (last = true ↔ c.FetchesLast) ∧
      q' = q.setCurrent { c.fetch with fetchedLast := last } := by
  obtain ⟨c', hcur', h⟩ := bind_eq_ok.mp h
  obtain rfl : c = c' := Except.ok.inj (hcur.symm.trans hcur')
  split at h
  · cases h
  · obtain rfl := Except.ok.inj h
    exact ⟨_, decide_eq_true_iff, rfl⟩

theorem fetchSuccess_eq (hcur : q.current = .ok c) (h : q.fetchSuccess = .ok q') :
    q' = q.setCurrent { c.fetch with fetchedInst := c.fetch.currentInst, currentInst := none } := by
  obtain ⟨c', hcur', h⟩ := bind_eq_ok.mp h
  obtain rfl : c = c' := Except.ok.inj (hcur.symm.trans hcur')
  exact (Except.ok.inj h).symm

theorem column?_push {col : InstColumn} {baseAddr : BitVec 64}
    (h : q.push slots col baseAddr = .ok q') : col.insts ≠ [] ∧
      ∀ i, q'.column? i = (q.column? i).or
        (if q.instColId = i then some ⟨q.instColId, col, baseAddr, {}⟩ else none) := by
  simp only [push] at h
  split at h
  · cases h
  split at h
  · cases h
  case isFalse hinsts =>
  split at h
  · cases h
  obtain rfl := Except.ok.inj h
  refine ⟨by simpa using hinsts, fun i => ?_⟩
  simp only [column?, List.find?_append, List.find?_singleton, decide_eq_true_eq]

theorem find?_eraseP_of_ne {cs : List QueuedColumn} (h : i ≠ j) :
    (cs.eraseP fun c => c.id = j).find? (fun c => c.id = i) = cs.find? fun c => c.id = i := by
  induction cs with
  | nil => rfl
  | cons c cs ih =>
    by_cases hj : c.id = j
    · rw [List.eraseP_cons_of_pos (by simpa using hj),
        List.find?_cons_of_neg (by simpa [hj] using Ne.symm h)]
    · rw [List.eraseP_cons_of_neg (by simpa using hj), List.find?_cons, List.find?_cons, ih]

theorem column?_finish {colId : Nat} (hids : (q.columns.map QueuedColumn.id).Nodup)
    (h : q.finishInstColumn colId = .ok q') : (∃ c, q.column? colId = some c) ∧
      ∀ i, q'.column? i = if i = colId then none else q.column? i := by
  simp only [finishInstColumn] at h
  split at h
  · cases h
  case h_2 c hfind =>
  split at h
  · cases h
  obtain rfl := Except.ok.inj h
  refine ⟨⟨c, hfind⟩, fun i => ?_⟩
  have hmap := map_eraseP_eq_filter colId hids
  by_cases hi : i = colId
  · rw [if_pos hi]
    refine List.find?_eq_none.mpr fun d hd hid => ?_
    have hmem := List.mem_map_of_mem (f := fun c : QueuedColumn => (c.id, c.column)) hd
    rw [hmap] at hmem
    have hne := (List.mem_filter.mp hmem).2
    simp_all
  · rw [if_neg hi]
    exact find?_eraseP_of_ne hi

theorem Inv.update (h : Inv slots q) (j : Nat) (f : FetchState → FetchState) :
    Inv slots (q.update j f) := by
  refine h.congr ?_ rfl rfl rfl id
  rw [FetchQueue.update, List.map_map]
  refine List.map_congr_left fun c _ => ?_
  simp only [Function.comp_apply]
  split <;> rfl

end FetchQueue

/-! ## The unit follows its columns -/

namespace FetchUnit

variable {cfg : FetchConfig} {u u' : FetchUnit} {mf : MemFetch} {iq : DelayQueue MemFetch}
  {ic : Cache}

def view (u : FetchUnit) (i : Nat) : ColumnView where
  column := u.queue.column? i
  fetches := (u.fetchesOf i).map MemFetch.addr
  branches := u.branches.countP fun b => b.colId = i
  ended := u.ended.count i

/-- The queue is in order, and the requests under way are reads with numbers of their own. -/
structure Formed (cfg : FetchConfig) (u : FetchUnit) : Prop where
  queue : FetchQueue.Inv cfg.uthreadSlots u.queue
  numbered : ∀ mf ∈ u.outstanding, mf.id < u.numFetches ∧ mf.isWrite = false

/-- Each column goes its own way by steps of `R`. -/
def Follows (cfg : FetchConfig) (R : ColumnView → ColumnView → Prop) (u u' : FetchUnit) : Prop :=
  Formed cfg u' ∧ ∀ i, Relation.ReflTransGen R (u.view i) (u'.view i)

theorem Follows.trans {R : ColumnView → ColumnView → Prop} {u₁ u₂ : FetchUnit}
    (h : Follows cfg R u u₁) (h' : Follows cfg R u₁ u₂) : Follows cfg R u u₂ :=
  ⟨h'.1, fun i => (h.2 i).trans (h'.2 i)⟩

/-- Only the column `j` takes a step. -/
theorem Formed.follows {R : ColumnView → ColumnView → Prop} (h : Formed cfg u') {j : Nat}
    (hother : ∀ i, i ≠ j → u'.view i = u.view i) (hstep : R (u.view j) (u'.view j)) :
    Follows cfg R u u' := by
  refine ⟨h, fun i => ?_⟩
  by_cases hi : i = j
  · subst hi
    exact .single hstep
  · rw [hother i hi]

/-- The unit with other requests in the queue and in the cache. -/
def holding (u : FetchUnit) (iq : DelayQueue MemFetch) (ic : Cache) : FetchUnit :=
  { u with icacheQueue := iq, icache := ic }

theorem fetchesOf_of_cons (u₁ : FetchUnit) (hout : u.outstanding = mf ::ₘ u₁.outstanding)
    (hcol : u₁.instColumn = u.instColumn) (i : Nat) : u.fetchesOf i =
      if u.instColumn mf.id = i then mf ::ₘ u₁.fetchesOf i else u₁.fetchesOf i := by
  rw [fetchesOf, hout, fetchesOf, hcol]
  split
  case isTrue h => exact Multiset.filter_cons_of_pos _ h
  case isFalse h => exact Multiset.filter_cons_of_neg _ h

/-- Requests move from the queue to the cache. -/
theorem Formed.moved {R : ColumnView → ColumnView → Prop} (h : Formed cfg u)
    (iq : DelayQueue MemFetch) (ic : Cache)
    (hout : (u.holding iq ic).outstanding = u.outstanding) :
    Follows cfg R u (u.holding iq ic) := by
  refine ⟨⟨h.queue, fun mf hmf => h.numbered mf (hout ▸ hmf)⟩, fun i => ?_⟩
  have hview : (u.holding iq ic).view i = u.view i := by
    simp only [view, fetchesOf, hout]
    rfl
  rw [hview]

theorem Formed.deliver (h : Formed cfg u) (iq : DelayQueue MemFetch) (ic : Cache)
    (hout : u.outstanding = mf ::ₘ (u.holding iq ic).outstanding)
    (hd : (u.holding iq ic).deliver mf = .ok u') : Follows cfg ColumnView.Fetches u u' := by
  unfold FetchUnit.deliver at hd
  split at hd
  · cases hd
  case h_2 c hc =>
  split at hd
  case isFalse => cases hd
  case isTrue hin =>
  have hc : u.queue.column? (u.instColumn mf.id) = some c := hc
  have hid : c.id = u.instColumn mf.id := by simpa using List.find?_some hc
  have hfetches := fetchesOf_of_cons _ hout rfl
  obtain rfl := Except.ok.inj hd
  have hformed : Formed cfg { u.holding iq ic with
      queue := u.queue.update c.id FetchState.delivered } := by
    refine ⟨h.queue.update _ _, fun m hm => h.numbered m ?_⟩
    rw [hout]
    exact Multiset.mem_cons_of_mem hm
  refine hformed.follows (j := u.instColumn mf.id) (fun i hi => ?_) ?_
  · simp only [view, FetchQueue.column?_update, hid, if_neg hi, hfetches i, if_neg (Ne.symm hi)]
    simp [holding, fetchesOf, outstanding]
  · have hnew := FetchQueue.column?_update u.queue c.id FetchState.delivered c.id
    rw [hid, hc] at hnew
    simp only [view, hfetches, hc, hnew, if_true, Multiset.map_cons, Option.map_some, hid]
    exact .deliver

theorem outstanding_pop (hmf : u.icacheQueue.top? = some mf) (ic : Cache) :
    u.icacheQueue.items + ic.waiters = mf ::ₘ (u.holding u.icacheQueue.pop ic).outstanding := by
  rw [DelayQueue.items_of_top? hmf, ← Multiset.cons_coe, Multiset.cons_add]
  rfl

theorem Formed.accessIcache {time : Nat} (h : Formed cfg u)
    (ha : u.accessIcache cfg time = .ok (some u')) : Follows cfg ColumnView.Fetches u u' := by
  unfold FetchUnit.accessIcache at ha
  split at ha
  · cases ha
  case h_2 mf hmf =>
  have hpop := outstanding_pop hmf
  split at ha
  case isTrue =>
    obtain ⟨u₁, hd, ha⟩ := bind_eq_ok.mp ha
    obtain rfl := Option.some.inj (Except.ok.inj ha)
    exact h.deliver _ _ (hpop u.icache) hd
  case isFalse =>
    have hread : mf.isWrite = false :=
      (h.numbered mf (by rw [outstanding, hpop]; exact Multiset.mem_cons_self _ _)).2
    obtain ⟨⟨status, events, ic⟩, haccess, ha⟩ := bind_eq_ok.mp ha
    have hwait := Cache.waiters_read hread haccess
    obtain rfl | rfl | rfl := Cache.status_of_access haccess
    · obtain ⟨u₁, hd, ha⟩ := bind_eq_ok.mp ha
      obtain rfl := Option.some.inj (Except.ok.inj ha)
      have hic : ic.waiters = u.icache.waiters := by simpa using hwait
      refine h.deliver _ _ ?_ hd
      rw [outstanding, ← hic]
      exact hpop ic
    · obtain rfl := Option.some.inj (Except.ok.inj ha)
      have hic : ic.waiters = mf ::ₘ u.icache.waiters := by simpa using hwait
      refine h.moved u.icacheQueue.pop ic ?_
      have hleft := hpop u.icache
      rw [outstanding, outstanding, hleft]
      simp only [holding, hic, outstanding, Multiset.add_cons]
    · obtain rfl := Option.some.inj (Except.ok.inj ha)
      have hic : ic.waiters = u.icache.waiters := by simpa using hwait
      refine h.moved u.icacheQueue ic ?_
      simp only [outstanding, holding, hic]

theorem Formed.takeReady (h : Formed cfg u) (ht : u.takeReady = .ok (some u')) :
    Follows cfg ColumnView.Fetches u u' := by
  unfold FetchUnit.takeReady at ht
  split at ht
  case isFalse => cases ht
  case isTrue =>
    obtain ⟨⟨mf, ic⟩, hpop, ht⟩ := bind_eq_ok.mp ht
    simp only at ht
    split at ht
    · cases ht
    case h_2 c hc =>
    split at ht
    · cases ht
    · obtain ⟨u₁, hd, ht⟩ := bind_eq_ok.mp ht
      obtain rfl := Option.some.inj (Except.ok.inj ht)
      refine h.deliver u.icacheQueue _ ?_ hd
      rw [outstanding, Cache.waiters_popNextAccess hpop, Multiset.add_cons]
      rfl

theorem Formed.request (h : Formed cfg u) {c : QueuedColumn} (hc : u.queue.column? c.id = some c)
    (hidle : c.Idle) : Follows cfg ColumnView.Fetches u (u.request cfg c) := by
  have hout : (u.request cfg c).outstanding =
      instRead u.numFetches c.instAddr ::ₘ u.outstanding := by
    simp only [outstanding, FetchUnit.request, DelayQueue.items_push]
    rw [← Multiset.coe_add, Multiset.coe_singleton, add_right_comm, add_comm,
      Multiset.singleton_add]
  -- the numbers of the requests under way are smaller, so their columns stay
  have hsame : ∀ i, ({ u with
      instColumn := Function.update u.instColumn u.numFetches c.id } : FetchUnit).fetchesOf i =
        u.fetchesOf i := by
    intro i
    refine Multiset.filter_congr fun mf hmf => ?_
    dsimp only
    rw [Function.update_of_ne (h.numbered mf hmf).1.ne]
  have hfetches : ∀ i, (u.request cfg c).fetchesOf i = if c.id = i then
      instRead u.numFetches c.instAddr ::ₘ u.fetchesOf i else u.fetchesOf i := by
    intro i
    have hcons := fetchesOf_of_cons { u with
      instColumn := Function.update u.instColumn u.numFetches c.id } hout rfl i
    rw [hsame i] at hcons
    simpa [FetchUnit.request, instRead] using hcons
  have hformed : Formed cfg (u.request cfg c) := by
    refine ⟨h.queue.update _ _, fun m hm => ?_⟩
    rw [hout] at hm
    obtain rfl | hm := Multiset.mem_cons.mp hm
    · exact ⟨Nat.lt_succ_self _, rfl⟩
    · exact ⟨(h.numbered m hm).1.trans (Nat.lt_succ_self _), (h.numbered m hm).2⟩
  have hcolumn : ∀ i, (u.request cfg c).queue.column? i = _ :=
    FetchQueue.column?_update u.queue c.id FetchState.requested
  refine hformed.follows (j := c.id) (fun i hi => ?_) ?_
  · have hi' : (u.request cfg c).queue.column? i = u.queue.column? i := by
      simp [hcolumn, hi]
    simp only [view, hfetches i, if_neg (Ne.symm hi), hi']
    rfl
  · have hnew : (u.request cfg c).queue.column? c.id =
        some (c.setFetch FetchState.requested) := by
      simp [hcolumn, hc]
    simp only [view, hfetches, hc, hnew, if_true, Multiset.map_cons]
    exact .request hidle

/-- What every round keeps, the loop keeps. -/
theorem rounds_induction {σ : Type} {f : σ → Except Fault (Option σ)} {P : σ → Prop}
    (hf : ∀ s s', P s → f s = .ok (some s') → P s') {n : Nat} {s s' : σ} (hs : P s)
    (h : rounds f n s = .ok s') : P s' := by
  induction n generalizing s with
  | zero => exact Except.ok.inj h ▸ hs
  | succ n ih =>
    obtain ⟨o, ho, h⟩ := bind_eq_ok.mp h
    cases o with
    | none => exact Except.ok.inj h ▸ hs
    | some s₁ => exact ih (hf s s₁ hs ho) h

theorem Formed.cycle {time : Nat} (h : Formed cfg u) (hc : u.cycle cfg time = .ok u') :
    Follows cfg ColumnView.Fetches u u' := by
  obtain ⟨u₁, h₁, hc⟩ := bind_eq_ok.mp hc
  obtain ⟨u₂, h₂, hc⟩ := bind_eq_ok.mp hc
  obtain ⟨⟨iter, u₃⟩, h₃, hc⟩ := bind_eq_ok.mp hc
  obtain rfl := Except.ok.inj hc
  have hround : ∀ {w w' : FetchUnit}, Follows cfg ColumnView.Fetches u w →
      (Formed cfg w → Follows cfg ColumnView.Fetches w w') →
      Follows cfg ColumnView.Fetches u w' := fun hw hstep => hw.trans (hstep hw.1)
  have hstart : Follows cfg ColumnView.Fetches u (u.holding u.icacheQueue.cycle u.icache) :=
    h.moved _ _ rfl
  have hfirst : Follows cfg ColumnView.Fetches u u₁ :=
    rounds_induction (fun w w' hw ha => hround hw fun hw => hw.accessIcache ha) hstart h₁
  have hsecond : Follows cfg ColumnView.Fetches u u₂ :=
    rounds_induction (fun w w' hw ht => hround hw fun hw => hw.takeReady ht) hfirst h₂
  refine rounds_induction (P := fun su : Nat × FetchUnit => Follows cfg ColumnView.Fetches u su.2)
    (fun su su' hw hr => ?_) hsecond h₃
  obtain ⟨n, w⟩ := su
  simp only [requestNext] at hr
  split at hr
  · cases hr
  case h_2 c hget =>
    obtain rfl := Option.some.inj (Except.ok.inj hr)
    dsimp only
    split
    case isTrue hidle =>
      refine hround hw fun hw => hw.request ?_ hidle
      exact (FetchQueue.column?_eq_some hw.queue.ids).mpr ⟨List.mem_of_getElem? hget, rfl⟩
    case isFalse => exact hw

/-! ## The other operations -/

section Columns

variable {q : FetchQueue} {bs : List IssuedBranch} {es : List Nat}

/-- The unit with other columns. -/
def reordered (u : FetchUnit) (q : FetchQueue) (bs : List IssuedBranch) (es : List Nat) :
    FetchUnit :=
  { u with queue := q, branches := bs, ended := es }

theorem view_reordered (u : FetchUnit) (q : FetchQueue) (bs : List IssuedBranch) (es : List Nat)
    (i : Nat) : (u.reordered q bs es).view i = ⟨q.column? i, (u.view i).fetches,
      bs.countP fun b => b.colId = i, es.count i⟩ := rfl

theorem Formed.reordered (h : Formed cfg u) (hq : FetchQueue.Inv cfg.uthreadSlots q)
    (bs : List IssuedBranch) (es : List Nat) : Formed cfg (u.reordered q bs es) :=
  ⟨hq, h.numbered⟩

/-- The cursor moves on. -/
theorem Formed.next {R : ColumnView → ColumnView → Prop} (h : Formed cfg u)
    (hn : u.queue.next = .ok q) : Follows cfg R u { u with queue := q } := by
  have hq : FetchQueue.Inv cfg.uthreadSlots q := h.queue.step .next hn
  have hcols : q.columns = u.queue.columns := by
    simp only [FetchQueue.next] at hn
    split at hn
    · cases hn
    · rw [← Except.ok.inj hn]
  refine ⟨h.reordered hq u.branches u.ended, fun i => ?_⟩
  have hview : ({ u with queue := q } : FetchUnit).view i = u.view i := by
    simp only [view, FetchQueue.column?, hcols]
    rfl
  rw [hview]

theorem Formed.push {col : InstColumn} {baseAddr : BitVec 64} (h : Formed cfg u)
    (hexit : ExitLast col) (hp : u.queue.push cfg.uthreadSlots col baseAddr = .ok q) :
    Follows cfg ColumnView.Step u { u with queue := q } := by
  have hq : FetchQueue.Inv cfg.uthreadSlots q := h.queue.step (.push col baseAddr) hp
  obtain ⟨hne, hcol⟩ := FetchQueue.column?_push hp
  have hfresh : u.queue.column? u.queue.instColId = none := by
    refine List.find?_eq_none.mpr fun c hc hid => ?_
    have hlt := h.queue.accounted.numbered (c.id, c.column) (List.mem_map.mpr ⟨c, hc, rfl⟩)
    simp only [decide_eq_true_eq] at hid
    simp [FetchQueue.toInstructionQueue, hid] at hlt
  refine (h.reordered hq u.branches u.ended).follows (j := u.queue.instColId) (fun i hi => ?_) ?_
  · simp only [view_reordered, hcol i, if_neg (Ne.symm hi), Option.or_none]
    rfl
  · rw [view_reordered, hcol, hfresh, if_pos rfl]
    simp only [view, hfresh]
    exact .push rfl hne hexit

theorem Formed.finish {colId : Nat} (h : Formed cfg u) (hmem : colId ∈ u.ended)
    (hf : u.queue.finishInstColumn colId = .ok q) :
    Follows cfg ColumnView.Step u { u with queue := q, ended := u.ended.erase colId } := by
  have hq : FetchQueue.Inv cfg.uthreadSlots q := h.queue.step (.finish colId) hf
  obtain ⟨⟨c, hc⟩, hcol⟩ := FetchQueue.column?_finish h.queue.ids hf
  have hcount : u.ended.count colId = (u.ended.erase colId).count colId + 1 := by
    rw [List.count_erase_self]
    have := List.count_pos_iff.mpr hmem
    omega
  refine (h.reordered hq u.branches (u.ended.erase colId)).follows (j := colId) (fun i hi => ?_) ?_
  · rw [view_reordered, hcol i, if_neg hi, List.count_erase_of_ne hi]
    rfl
  · rw [view_reordered, hcol, if_pos rfl]
    simp only [view, hc, hcount]
    exact .finish

theorem Formed.resolve {n : Nat} (h : Formed cfg u) (hr : u.resolve n = .ok u') :
    Follows cfg ColumnView.Step u u' := by
  unfold FetchUnit.resolve at hr
  split at hr
  · cases hr
  case h_2 b hb =>
  split at hr
  · cases hr
  case h_2 c hc =>
  obtain ⟨target, -, hr⟩ := bind_eq_ok.mp hr
  obtain rfl := Except.ok.inj hr
  have hid : c.id = b.colId := by simpa using List.find?_some hc
  have hcol := FetchQueue.column?_update u.queue c.id (FetchState.resolved target)
  obtain ⟨hlt, hget⟩ := List.getElem?_eq_some_iff.mp hb
  have hbranches : ∀ i, (u.branches.countP fun b => b.colId = i) =
      ((u.branches.eraseIdx n).countP fun b => b.colId = i) + if c.id = i then 1 else 0 := by
    intro i
    have hperm := List.getElem_cons_eraseIdx_perm hlt
    rw [← hperm.countP_eq, hget, List.countP_cons, hid]
    simp
  have hended : ∀ i, (if (c.column.insts.length : Int) - 1 < target then c.id :: u.ended
      else u.ended).count i = if (c.column.insts.length : Int) - 1 < target ∧ c.id = i then
        u.ended.count i + 1 else u.ended.count i := by
    intro i
    by_cases hi : c.id = i <;> split <;> simp_all
  refine (h.reordered (h.queue.update _ _) _ _).follows (j := c.id) (fun i hi => ?_) ?_
  · rw [view_reordered, hcol i, hended i]
    simp [view, hbranches i, hi, Ne.symm hi]
  · have hnew := hcol c.id
    rw [hid, hc] at hnew
    rw [view_reordered, hended, hid, hnew]
    simp only [view, hbranches, hc, hid, if_true, and_true]
    exact .resolve target

/-- The cursor's column takes a step. -/
theorem Formed.atCursor {R : ColumnView → ColumnView → Prop} (h : Formed cfg u) {c : QueuedColumn}
    (bs : List IssuedBranch) (es : List Nat)
    (hcur : u.queue.current = .ok c) (f : FetchState → FetchState)
    (hbs : ∀ i, i ≠ c.id → (bs.countP fun b => b.colId = i) =
      u.branches.countP fun b => b.colId = i)
    (hes : ∀ i, i ≠ c.id → es.count i = u.ended.count i)
    (hstep : R (u.view c.id) ⟨some (c.setFetch f), (u.view c.id).fetches,
      bs.countP fun b => b.colId = c.id, es.count c.id⟩) :
    Follows cfg R u (u.reordered (u.queue.setCurrent (f c.fetch)) bs es) := by
  have hget := FetchQueue.mem_of_current hcur
  have hc : u.queue.column? c.id = some c :=
    (FetchQueue.column?_eq_some h.queue.ids).mpr ⟨List.mem_of_getElem? hget, rfl⟩
  rw [FetchQueue.setCurrent_eq_update h.queue.ids hcur]
  have hcol := FetchQueue.column?_update u.queue c.id f
  refine (h.reordered (h.queue.update _ _) _ _).follows (j := c.id) (fun i hi => ?_) ?_
  · rw [view_reordered, hcol i, hbs i hi, hes i hi]
    simp [view, hi]
  · rw [view_reordered, hcol, hc]
    simpa using hstep

theorem Formed.issue {success doBranch : Bool} (h : Formed cfg u)
    (hi : u.issue success doBranch = .ok u') : Follows cfg ColumnView.Step u u' := by
  obtain ⟨c, hcur, hi⟩ := bind_eq_ok.mp hi
  have hview : u.view c.id =
      ⟨some c, (u.view c.id).fetches, (u.view c.id).branches, (u.view c.id).ended⟩ := by
    have hc : u.queue.column? c.id = some c := (FetchQueue.column?_eq_some h.queue.ids).mpr
      ⟨List.mem_of_getElem? (FetchQueue.mem_of_current hcur), rfl⟩
    simp only [view, hc]
  split at hi
  case isTrue =>
    obtain ⟨q, hn, hi⟩ := bind_eq_ok.mp hi
    obtain rfl := Except.ok.inj hi
    exact h.next hn
  case isFalse hready =>
  have hready : FetchQueue.canFetch c = true := by simpa using hready
  split at hi
  · cases hi
  case h_2 inst hinst =>
  obtain ⟨k, hk, hget⟩ := Option.bind_eq_some_iff.mp hinst
  obtain ⟨q₁, hctx, hi⟩ := bind_eq_ok.mp hi
  obtain ⟨last, hlast, rfl⟩ := FetchQueue.fetchContext_eq hcur hctx
  split at hi
  case isTrue =>
    obtain ⟨q, hn, hi⟩ := bind_eq_ok.mp hi
    obtain rfl := Except.ok.inj hi
    have hstep := h.atCursor (R := ColumnView.Step) u.branches u.ended hcur
      (fun f => { f with fetchedLast := last }) (fun _ _ => rfl) (fun _ _ => rfl) (by
        rw [hview]
        exact .refuse last hready)
    exact hstep.trans (hstep.1.next hn)
  case isFalse =>
    obtain ⟨c₁, hcur₁, hi⟩ := bind_eq_ok.mp hi
    rw [FetchQueue.current_setCurrent hcur] at hcur₁
    obtain rfl := Except.ok.inj hcur₁
    obtain ⟨q₃, hsucc, hi⟩ := bind_eq_ok.mp hi
    rw [FetchQueue.setCurrent_setCurrent] at hsucc
    have hq₃ := FetchQueue.fetchSuccess_eq (FetchQueue.current_setCurrent hcur _) hsucc
    rw [FetchQueue.setCurrent_setCurrent] at hq₃
    obtain ⟨q, hn, hi⟩ := bind_eq_ok.mp hi
    obtain rfl := Except.ok.inj hi
    subst hq₃
    have hstep := h.atCursor (R := ColumnView.Step)
      (if inst.opcode.checkBranchOp then ⟨c.id, inst, doBranch⟩ :: u.branches else u.branches)
      (if inst.opcode = .exit ∨ last then c.id :: u.ended else u.ended) hcur
      (fun f => { f.issued inst with fetchedLast := last })
      (fun i hne => ?_) (fun i hne => ?_) ?_
    · exact hstep.trans (hstep.1.next hn)
    · split
      · simp [Ne.symm hne]
      · rfl
    · split
      · simp [Ne.symm hne]
      · rfl
    · have hbs : ((if inst.opcode.checkBranchOp then ⟨c.id, inst, doBranch⟩ :: u.branches
          else u.branches).countP fun b => b.colId = c.id) = if inst.opcode.checkBranchOp then
            (u.view c.id).branches + 1 else (u.view c.id).branches := by
        split <;> simp [view]
      have hes : (if inst.opcode = .exit ∨ last then c.id :: u.ended else u.ended).count c.id =
          if inst.opcode = .exit ∨ last then (u.view c.id).ended + 1 else (u.view c.id).ended := by
        split <;> simp [view]
      rw [hview, hbs, hes]
      exact .issue last hready hk hget hlast

end Columns

/-- A cycle only fetches, and any other operation is at most one step of one column. -/
theorem Formed.step (h : Formed cfg u) {op : Op} (hoff : u.Offered op)
    (hs : u.step cfg op = .ok u') :
    Follows cfg ColumnView.Fetches u u' ∨ Follows cfg ColumnView.Step u u' := by
  cases op with
  | push col baseAddr =>
    obtain ⟨q, hp, hs⟩ := bind_eq_ok.mp hs
    obtain rfl := Except.ok.inj hs
    exact .inr (h.push hoff hp)
  | cycle time => exact .inl (h.cycle hs)
  | issue success doBranch => exact .inr (h.issue hs)
  | resolve n => exact .inr (h.resolve hs)
  | fill id time =>
    obtain ⟨ic, hf, hs⟩ := bind_eq_ok.mp hs
    obtain rfl := Except.ok.inj hs
    refine .inl (h.moved u.icacheQueue _ ?_)
    rw [outstanding, outstanding]
    exact congrArg _ (Cache.waiters_fill hf)
  | icacheCycle full =>
    obtain rfl := Except.ok.inj hs
    refine .inl (h.moved u.icacheQueue _ ?_)
    rw [outstanding, outstanding]
    exact congrArg _ (Cache.waiters_cycle u.icache full)
  | finish colId =>
    obtain ⟨q, hf, hs⟩ := bind_eq_ok.mp hs
    obtain rfl := Except.ok.inj hs
    exact .inr (h.finish hoff hf)

theorem Run.inv (h : Run cfg u) : Formed cfg u ∧ ∀ i, (u.view i).Inv := by
  induction h with
  | start lines => exact ⟨⟨FetchQueue.inv_create _, by simp [create, outstanding]⟩,
      fun i => ⟨rfl, rfl, rfl⟩⟩
  | step _ op hoff hs ih =>
    obtain ⟨hformed, hviews⟩ := ih
    obtain ⟨h, hfollow⟩ | ⟨h, hfollow⟩ := hformed.step hoff hs
    · exact ⟨h, fun i => ColumnView.Fetches.run_inv (hfollow i) (hviews i)⟩
    · exact ⟨h, fun i => ColumnView.Step.run_inv (hfollow i) (hviews i)⟩

/-- A column is pending while there is one request for it, and then it has no instruction and no
branch. The request is for the instruction at the program counter, and can be delivered. -/
structure Protocol (u : FetchUnit) : Prop where
  pending : ∀ c ∈ u.queue.columns,
    (u.fetchesOf c.id).card = if c.fetch.pending then 1 else 0
  quiet : ∀ c ∈ u.queue.columns, c.fetch.pending = true →
    c.fetch.currentInst = none ∧ c.fetch.block = false
  requested : ∀ mf ∈ u.outstanding, ∃ c ∈ u.queue.columns, u.instColumn mf.id = c.id ∧
    c.fetch.pending = true ∧ c.Inside ∧ mf.addr = c.instAddr
  served : ∀ mf ∈ u.outstanding, ∃ u', u.deliver mf = .ok u'
  delivered : ∀ c ∈ u.queue.columns, ∀ k, c.fetch.currentInst = some k →
    (k : Int) = c.fetch.pc ∧ k < c.column.insts.length

theorem Formed.held (h : Formed cfg u) (hviews : ∀ i, (u.view i).Inv) {c : QueuedColumn}
    (hc : c ∈ u.queue.columns) :
    ColumnView.Held c (u.view c.id).fetches (u.view c.id).branches (u.view c.id).ended := by
  have hv := hviews c.id
  have hcol : (u.view c.id).column = some c :=
    (FetchQueue.column?_eq_some h.queue.ids).mpr ⟨hc, rfl⟩
  unfold ColumnView.Inv at hv
  rwa [hcol] at hv

theorem requested_of_view (hviews : ∀ i, (u.view i).Inv)
    (hmf : mf ∈ u.outstanding) : ∃ c, u.queue.column? (u.instColumn mf.id) = some c ∧
      c.fetch.pending = true ∧ c.Inside ∧ mf.addr = c.instAddr := by
  have hmem : mf ∈ u.fetchesOf (u.instColumn mf.id) := Multiset.mem_filter.mpr ⟨hmf, rfl⟩
  have haddr : mf.addr ∈ (u.view (u.instColumn mf.id)).fetches :=
    Multiset.mem_map_of_mem MemFetch.addr hmem
  have hv := hviews (u.instColumn mf.id)
  unfold ColumnView.Inv at hv
  cases hc : (u.view (u.instColumn mf.id)).column with
  | none =>
    rw [hc] at hv
    simp [hv.1] at haddr
  | some c =>
    rw [hc] at hv
    rw [hv.fetches] at haddr
    split at haddr
    case isFalse => simp at haddr
    case isTrue hpend =>
      exact ⟨c, hc, hpend, (hv.sound.pending hpend).2.2, Multiset.mem_singleton.mp haddr⟩

theorem Formed.protocol (h : Formed cfg u) (hviews : ∀ i, (u.view i).Inv) : Protocol u := by
  refine ⟨fun c hc => ?_, fun c hc hpend => ?_, fun mf hmf => ?_, fun mf hmf => ?_,
    fun c hc k hk => ?_⟩
  · have hcard := congrArg Multiset.card (h.held hviews hc).fetches
    simp only [view, Multiset.card_map] at hcard
    rw [hcard]
    split <;> rfl
  · obtain ⟨hcur, hblock, -⟩ := (h.held hviews hc).sound.pending hpend
    exact ⟨hcur, hblock⟩
  · obtain ⟨c, hc, hrest⟩ := requested_of_view hviews hmf
    obtain ⟨hmem, hid⟩ := (FetchQueue.column?_eq_some h.queue.ids).mp hc
    exact ⟨c, hmem, hid.symm, hrest⟩
  · obtain ⟨c, hc, -, hin, -⟩ := requested_of_view hviews hmf
    simp only [FetchUnit.deliver, hc, if_pos hin]
    exact ⟨_, rfl⟩
  · obtain ⟨hpc, hin, -⟩ := (h.held hviews hc).sound.current k hk
    exact ⟨hpc, by have := hin.2; omega⟩

/-- Requests and deliveries keep to the protocol, and a pending column keeps its program counter
until the instruction at it is delivered. -/
theorem fetch_protocol (h : Run cfg u) : Protocol u ∧
    ∀ op u', u.Offered op → u.step cfg op = .ok u' →
      ∀ c ∈ u.queue.columns, c.fetch.pending = true →
        ∃ c' ∈ u'.queue.columns, ColumnView.Advances c c' := by
  obtain ⟨hformed, hviews⟩ := h.inv
  refine ⟨hformed.protocol hviews, fun op u' hoff hs c hc hpend => ?_⟩
  have hcol : (u.view c.id).column = some c :=
    (FetchQueue.column?_eq_some hformed.queue.ids).mpr ⟨hc, rfl⟩
  obtain ⟨-, hfollow⟩ | ⟨-, hfollow⟩ := hformed.step hoff hs
  · obtain ⟨c', hc', hadv⟩ := ColumnView.Fetches.advances (hfollow c.id) hcol hpend
    exact ⟨c', List.mem_of_find?_eq_some hc', hadv⟩
  · obtain ⟨c', hc', hadv⟩ := ColumnView.Step.advances (hfollow c.id) (hviews c.id) hcol hpend
    exact ⟨c', List.mem_of_find?_eq_some hc', hadv⟩

/-- An L0 cache of one line, with one column to fetch in a cycle. -/
def oneFetch : FetchConfig where
  uthreadSlots := 2
  instFetchPerCycle := 1
  l0HitLatency := 0
  idealIcache := false
  icache := { Cache.oneLine .noWriteAllocate with writePolicy := .readOnly }

theorem Run.steps (h : Run cfg u) {ops : List Op} (hoff : ∀ op ∈ ops, ∀ w, Offered w op)
    (hs : ops.foldlM (FetchUnit.step cfg) u = .ok u') : Run cfg u' := by
  induction ops generalizing u with
  | nil => exact Except.ok.inj hs ▸ h
  | cons op ops ih =>
    obtain ⟨u₁, hstep, hs⟩ := bind_eq_ok.mp hs
    exact ih (h.step op (hoff op List.mem_cons_self u) hstep)
      (fun o ho => hoff o (List.mem_cons_of_mem _ ho)) hs

/-- A column of one instruction that is fetched from memory. -/
def fetchOnce : List Op :=
  [.push (countedColumn [RegisterUnit.sampleLi] ∅ RegisterUnit.sampleRequest) 0, .cycle 0, .cycle 1,
    .icacheCycle false, .fill 0 2, .cycle 3]

theorem protocol_after_miss : ∃ u, Run oneFetch u ∧
    u.queue.columns.map (fun c => c.fetch.currentInst) = [some 0] ∧ Protocol u := by
  have hoff : ∀ op ∈ fetchOnce, ∀ w, Offered w op := by
    intro op hop w
    simp only [fetchOnce, List.mem_cons, List.not_mem_nil, or_false] at hop
    obtain rfl | rfl | rfl | rfl | rfl | rfl := hop
    · intro k inst hk hop
      match k with
      | 0 => rfl
      | k + 1 => cases hk
    all_goals trivial
  have hcur : (fetchOnce.foldlM (step oneFetch) (create fun _ => Cache.emptyLine)).toOption.map
      (fun u => u.queue.columns.map fun c => c.fetch.currentInst) = some [some 0] := by
    decide +kernel
  cases hu : fetchOnce.foldlM (step oneFetch) (create fun _ => Cache.emptyLine) with
  | error e => simp [hu, Except.toOption] at hcur
  | ok u =>
    rw [hu] at hcur
    have hrun : Run oneFetch u := (Run.start fun _ => Cache.emptyLine).steps hoff hu
    exact ⟨u, hrun, Option.some.inj hcur, (fetch_protocol hrun).1⟩

end FetchUnit

end NdpSim
