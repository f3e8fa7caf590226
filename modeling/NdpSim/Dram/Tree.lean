import NdpSim.Library.Effects
import NdpSim.Isa.VectorData

/-!
# The tree of a memory channel

A channel is a tree of ranks, bank groups and banks. Every node remembers from when on it takes
each command again. What a standard says about its commands is in tables with an entry for each
level: how long they wait for each other, what has to precede them and what they change.
-/
namespace NdpSim

/-- `cmd` waits `val` cycles: for the `dist`-th last command to the same node or, if `sibling` is
set, for the last one to another child of its parent. -/
structure TimingEntry (C : Type) where
  cmd : C
  dist : Nat
  val : Int
  sibling : Bool := false
  dist_pos : 0 < dist := by decide

/-- `addr_vec`: a number for each level, `-1` where a command is not for one node only. -/
abbrev AddrVec := List Int

def AddrVec.idx (addr : AddrVec) (level : Nat) : Int := addr.getD level (-1)

structure TimingTable (C : Type) where
  scope : C → Nat
  timing : Nat → C → List (TimingEntry C)
  isOpening : C → Bool
  isRefreshing : C → Bool

/-! ## The clocks of a node -/

/-- The earliest time for each command, and when the last ones of each were. -/
structure Clocks (C : Type) where
  next : C → Int
  prev : C → List Int

namespace Clocks

variable {C : Type} [DecidableEq C] (T : TimingTable C) (level : Nat)

def historyLength (cmd : C) : Nat := (T.timing level cmd).foldl (fun d t => max d t.dist) 0

def create : Clocks C where
  next _ := -1
  prev cmd := List.replicate (historyLength T level cmd) (-1)

def delay (k : Clocks C) (cmd : C) (future : Int) : Clocks C :=
  { k with next := Function.update k.next cmd (max (k.next cmd) future) }

/-- The node is only a sibling of one the command is for. -/
def sibling (k : Clocks C) (cmd : C) (clk : Int) : Except Fault (Clocks C) :=
  ((T.timing level cmd).filter (·.sibling)).foldlM (fun k t =>
    if t.dist = 1 then .ok (k.delay t.cmd (clk + t.val)) else .error .assertion) k

def remember (k : Clocks C) (cmd : C) (clk : Int) : Clocks C :=
  if (k.prev cmd).isEmpty then k
  else { k with prev := Function.update k.prev cmd (clk :: (k.prev cmd).dropLast) }

/-- The command is for the node. A `-1` in the history says that there were not enough. When a
refresh ends is worked out from the command itself. -/
def target (k : Clocks C) (cmd : C) (clk : Int) : Except Fault (Clocks C) :=
  ((T.timing level cmd).filter (!·.sibling)).foldlM (fun k t =>
    let past := (k.prev cmd).getD (t.dist - 1) (-1)
    if past < 0 then .ok k
    else if T.isRefreshing cmd ∧ T.isOpening t.cmd ∧ past ≠ clk then .error .assertion
    else .ok (k.delay t.cmd (past + t.val))) (k.remember cmd clk)

/-- The time for `cmd` has come. -/
def ready (k : Clocks C) (cmd : C) (clk : Int) : Bool := k.next cmd = -1 || k.next cmd ≤ clk

end Clocks

/-! ## Nodes and trees -/

/-- `rowState` are the rows of a bank that are open. -/
structure DramNode (C S : Type) where
  id : Int
  state : S
  rowState : Int → Option S
  clocks : Clocks C
  curClk : Int
  mFinalSyncedCycle : Int

/-- A tree with that many levels below its root. -/
def Dram (C S : Type) : Nat → Type
  | 0 => DramNode C S
  | n + 1 => DramNode C S × List (Dram C S n)

variable {C S : Type}

namespace Dram

variable {n : Nat}

def self : {n : Nat} → Dram C S n → DramNode C S
  | 0, node => node
  | _ + 1, (node, _) => node

def children : {n : Nat} → Dram C S n → List (Dram C S (n - 1))
  | 0, _ => []
  | _ + 1, (_, children) => children

def mk (node : DramNode C S) (children : List (Dram C S n)) : Dram C S (n + 1) := (node, children)

@[simp] theorem self_mk (node : DramNode C S) (children : List (Dram C S n)) :
    (mk node children).self = node := rfl

@[simp] theorem children_mk (node : DramNode C S) (children : List (Dram C S n)) :
    (mk node children).children = children := rfl

/-- `children[id]` -/
def child? (d : Dram C S n) (id : Int) : Option (Dram C S (n - 1)) :=
  if id < 0 then none else d.children[id.toNat]?

/-- The node at the end of a path of children. -/
def find? : {n : Nat} → Dram C S n → List Nat → Option (DramNode C S)
  | _, d, [] => some d.self
  | 0, _, _ :: _ => none
  | _ + 1, d, i :: path => d.children[i]?.bind fun c => c.find? path

/-- What the timing reads of the nodes. -/
def skeleton (d : Dram C S n) (path : List Nat) : Option (Int × Clocks C) :=
  (d.find? path).map fun node => (node.id, node.clocks)

@[simp] theorem find?_nil (d : Dram C S n) : d.find? [] = some d.self := by
  cases n <;> rfl

theorem find?_cons (d : Dram C S (n + 1)) (i : Nat) (path : List Nat) :
    d.find? (i :: path) = (d.children[i]?).bind fun c => c.find? path := rfl

theorem child?_eq_some {d : Dram C S n} {id : Int} {c : Dram C S (n - 1)} :
    d.child? id = some c ↔ ∃ i : Nat, id = i ∧ d.children[i]? = some c := by
  unfold child?
  constructor
  · intro h
    split at h
    · cases h
    case isFalse hneg => exact ⟨id.toNat, (Int.toNat_of_nonneg (not_lt.mp hneg)).symm, h⟩
  · rintro ⟨i, rfl, h⟩
    rw [if_neg (by omega)]
    exact h

theorem skeleton_nil (d : Dram C S n) : d.skeleton [] = some (d.self.id, d.self.clocks) := by
  rw [skeleton, find?_nil]
  rfl

theorem skeleton_cons (d : Dram C S (n + 1)) (i : Nat) (path : List Nat) :
    d.skeleton (i :: path) = (d.children[i]?).bind fun c => c.skeleton path := by
  rw [skeleton, find?_cons, Option.map_bind]
  rfl

end Dram

/-- The tables of a standard: `start`, `prereq`, `rowhit`, `rowopen` and `lambda`. A prerequisite
may depend on the nodes above, of which the nearest comes first. `lambda` is for the states of the
nodes only. -/
structure Standard (C S : Type) extends TimingTable C where
  pre : C
  commandName : C → String
  isAccessing : C → Bool
  isClosing : C → Bool
  rowLevel : Nat
  count : Nat → Nat
  start : Nat → S
  prereq : Nat → C → Option
    (List (DramNode C S) → (n : Nat) → Dram C S n → Int → Except Fault (Option C))
  rowhit : Nat → C → Option (DramNode C S → Int → Except Fault Bool)
  rowopen : Nat → C → Option (DramNode C S → Int → Except Fault Bool)
  lambda : Nat → C → Option ((n : Nat) → Dram C S n → Int → Dram C S n)
  lambda_skeleton : ∀ level cmd f, lambda level cmd = some f → ∀ n d id path,
    (f n d id).skeleton path = d.skeleton path

/-- `Request::Type` -/
inductive DramRequestType
  | read | write | refresh | powerdown | selfrefresh | extension
  deriving DecidableEq

/-- What the controller reads of a standard beside its tables. -/
structure DramSpec (C S : Type) extends Standard C S where
  levels : Nat
  translate : DramRequestType → C
  readLatency : Int
  nREFI : Int

def DramNode.create (S' : Standard C S) (level : Nat) (id : Int) : DramNode C S where
  id := id
  state := S'.start level
  rowState _ := none
  clocks := .create S'.toTimingTable level
  curClk := 0
  mFinalSyncedCycle := 0

/-- The command is for the node or for a sibling of it. -/
def DramNode.updateTiming [DecidableEq C] (T : TimingTable C) (level : Nat) (node : DramNode C S)
    (cmd : C) (addr : AddrVec) (clk : Int) : Except Fault (DramNode C S) := do
  if node.id ≠ addr.idx level then
    return { node with clocks := ← node.clocks.sibling T level cmd clk }
  else return { node with clocks := ← node.clocks.target T level cmd clk }

namespace Dram

variable {n : Nat}

def mapSelf (f : DramNode C S → DramNode C S) : {n : Nat} → Dram C S n → Dram C S n
  | 0, d => f d.self
  | _ + 1, d => mk (f d.self) d.children

@[simp] theorem self_mapSelf (f : DramNode C S → DramNode C S) (d : Dram C S n) :
    (d.mapSelf f).self = f d.self := by
  cases n <;> rfl

@[simp] theorem children_mapSelf (f : DramNode C S → DramNode C S) (d : Dram C S n) :
    (d.mapSelf f).children = d.children := by
  cases n <;> rfl

theorem find?_mapSelf (f : DramNode C S → DramNode C S) (d : Dram C S n) (path : List Nat) :
    (d.mapSelf f).find? path =
      (d.find? path).map fun node => if path = [] then f node else node := by
  cases path with
  | nil => rw [find?_nil, find?_nil, self_mapSelf]; rfl
  | cons i path =>
    cases n with
    | zero => rfl
    | succ n => exact (Option.map_id' (x := find? (n := n + 1) d (i :: path))).symm

theorem skeleton_mapSelf {f : DramNode C S → DramNode C S}
    (hf : ∀ node, (f node).id = node.id ∧ (f node).clocks = node.clocks) (d : Dram C S n)
    (path : List Nat) : (d.mapSelf f).skeleton path = d.skeleton path := by
  cases path with
  | nil => rw [skeleton_nil, skeleton_nil, self_mapSelf, (hf d.self).1, (hf d.self).2]
  | cons i path => cases n <;> rfl

/-- The constructor: the children are built with it. -/
def create (S' : Standard C S) : (n : Nat) → (level : Nat) → (id : Int) → Dram C S n
  | 0, level, id => DramNode.create S' level id
  | n + 1, level, id =>
    mk (DramNode.create S' level id)
      ((List.range (S'.count (level + 1))).map fun i : Nat => create S' n (level + 1) (i : Int))

/-! ## Reading -/

/-- What has to precede the command by the table of the level. -/
def required (S' : Standard C S) (level : Nat) (above : List (DramNode C S)) (d : Dram C S n)
    (cmd : C) (childId : Int) : Except Fault (Option C) :=
  match S'.prereq level cmd with
  | some f => f above n d childId
  | none => .ok none

/-- `decode`: the command itself, or one that has to precede it. -/
def decode (S' : Standard C S) : {n : Nat} → Nat → List (DramNode C S) → Dram C S n → C →
    AddrVec → Except Fault C
  | 0, level, above, d, cmd, addr => do
    return (← d.required S' level above cmd (addr.idx (level + 1))).getD cmd
  | n + 1, level, above, d, cmd, addr => do
    let childId := addr.idx (level + 1)
    match ← d.required S' level above cmd childId with
    | some cmd => return cmd
    | none =>
      if childId < 0 ∨ d.children = [] then return cmd
      else match d.child? childId with
        | none => .error .undefined
        | some c => decode S' (n := n) (level + 1) (d.self :: above) c cmd addr

/-- `check`: the time for the command has come at all levels down to its scope. -/
def check [DecidableEq C] (T : TimingTable C) : {n : Nat} → Nat → Dram C S n → C → AddrVec →
    Int → Except Fault Bool
  | 0, _, d, cmd, _, clk => .ok (d.self.clocks.ready cmd clk)
  | n + 1, level, d, cmd, addr, clk =>
    if d.self.clocks.ready cmd clk then
      let childId := addr.idx (level + 1)
      if childId < 0 ∨ level = T.scope cmd ∨ d.children = [] then .ok true
      else match d.child? childId with
        | none => .error .undefined
        | some c => check T (n := n) (level + 1) c cmd addr clk
    else .ok false

/-- `check_row_hit` and `check_row_open`: the first level with an entry decides. -/
def checkRow (table : Nat → C → Option (DramNode C S → Int → Except Fault Bool)) :
    {n : Nat} → Nat → Dram C S n → C → AddrVec → Except Fault Bool
  | 0, level, d, cmd, addr =>
    match table level cmd with
    | some f => f d.self (addr.idx (level + 1))
    | none => .ok false
  | n + 1, level, d, cmd, addr =>
    let childId := addr.idx (level + 1)
    match table level cmd with
    | some f => f d.self childId
    | none =>
      if childId < 0 ∨ d.children = [] then .ok false
      else match d.child? childId with
        | none => .error .undefined
        | some c => checkRow table (n := n) (level + 1) c cmd addr

def checkRowHit (S' : Standard C S) (d : Dram C S n) (cmd : C) (addr : AddrVec) :
    Except Fault Bool :=
  d.checkRow S'.rowhit 0 cmd addr

def checkRowOpen (S' : Standard C S) (d : Dram C S n) (cmd : C) (addr : AddrVec) :
    Except Fault Bool :=
  d.checkRow S'.rowopen 0 cmd addr

/-! ## Issuing a command -/

def applyLambda (S' : Standard C S) (level : Nat) (d : Dram C S n) (cmd : C) (childId : Int) :
    Dram C S n :=
  match S'.lambda level cmd with
  | some f => f n d childId
  | none => d

def updateState (S' : Standard C S) : {n : Nat} → Nat → Dram C S n → C → AddrVec →
    Except Fault (Dram C S n)
  | 0, level, d, cmd, addr => .ok (d.applyLambda S' level cmd (addr.idx (level + 1)))
  | n + 1, level, d, cmd, addr =>
    let childId := addr.idx (level + 1)
    let d := d.applyLambda S' level cmd childId
    if level = S'.scope cmd ∨ d.children = [] then .ok d
    else match d.child? childId with
      | none => .error .undefined
      | some c => do
        let c ← updateState S' (n := n) (level + 1) c cmd addr
        return mk d.self (d.children.set childId.toNat c)

/-- `update_timing` goes beyond the scope of the command, into all children of a node that the
command is for. -/
def updateTiming [DecidableEq C] (T : TimingTable C) : {n : Nat} → Nat → Dram C S n → C →
    AddrVec → Int → Except Fault (Dram C S n)
  | 0, level, d, cmd, addr, clk => d.self.updateTiming T level cmd addr clk
  | n + 1, level, d, cmd, addr, clk => do
    let node ← d.self.updateTiming T level cmd addr clk
    if d.self.id ≠ addr.idx level then return mk node d.children
    let children ← d.children.mapM fun c => updateTiming T (n := n) (level + 1) c cmd addr clk
    return mk node children

/-- Only the root learns the time. -/
def update [DecidableEq C] (S' : Standard C S) (d : Dram C S n) (cmd : C) (addr : AddrVec)
    (clk : Int) : Except Fault (Dram C S n) := do
  let d := d.mapSelf fun node => { node with curClk := clk }
  let d ← d.updateState S' 0 cmd addr
  d.updateTiming S'.toTimingTable 0 cmd addr clk

end Dram

end NdpSim
