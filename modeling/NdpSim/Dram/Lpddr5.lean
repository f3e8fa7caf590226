import NdpSim.Dram.Tree

/-!
# The tables of LPDDR5

Levels are numbered from the channel at 0 to the bank at 3, the row at 4 and the column at 5.
-/
namespace NdpSim

namespace Lpddr5

inductive Command
  | act1 | act2 | pre | prea | casrd | caswr | rd | wr | rda | wra
  | refab | refpb | rfmab | rfmpb | pde | pdx | sref | srefx
  deriving DecidableEq

inductive State
  | preOpened | opened | closed | powerUp | actPowerDown | prePowerDown | selfRefresh | max
  deriving DecidableEq

/-- The initialiser of `scope` ends before `SREF`: the last two are the channel. -/
def scope : Command → Nat
  | .act1 | .act2 => 4
  | .pre => 3
  | .prea | .casrd | .caswr => 1
  | .rd | .wr | .rda | .wra => 5
  | .refab | .refpb | .rfmab | .rfmpb | .pde | .pdx => 1
  | .sref | .srefx => 0

def commandName : Command → String
  | .act1 => "ACT1"
  | .act2 => "ACT2"
  | .pre => "PRE"
  | .prea => "PREA"
  | .casrd => "CASRD"
  | .caswr => "CASWR"
  | .rd => "RD"
  | .wr => "WR"
  | .rda => "RDA"
  | .wra => "WRA"
  | .refab => "REFab"
  | .refpb => "REFpb"
  | .rfmab => "RFMab"
  | .rfmpb => "RFMpb"
  | .pde => "PDE"
  | .pdx => "PDX"
  | .sref => "SREF"
  | .srefx => "SREFX"

def isOpening (cmd : Command) : Bool := cmd = .act1

def isRefreshing (cmd : Command) : Bool :=
  cmd = .refab || cmd = .refpb || cmd = .rfmab || cmd = .rfmpb

def isAccessing (cmd : Command) : Bool := cmd = .rd || cmd = .wr || cmd = .rda || cmd = .wra

def isClosing (cmd : Command) : Bool := cmd = .rda || cmd = .wra || cmd = .pre || cmd = .prea

def start (level : Nat) : State :=
  if level = 1 then .powerUp else if level = 3 ∨ level = 4 then .closed else .max

/-! ## Timing -/

/-- The entries of `speed_table` that the tables use. -/
structure SpeedEntry where
  nBL : Int
  nCCD : Int
  nCL : Int
  nRCD : Int
  nRPpb : Int
  nRPab : Int
  nCWL : Int
  nRAS : Int
  nRC : Int
  nRTP : Int
  nWTRS : Int
  nWTRL : Int
  nWR : Int
  nPPD : Int
  nRRD : Int
  nFAW : Int
  nRFCab : Int
  nREFI : Int
  nPBR2PBR : Int
  nPBR2ACT : Int
  nCS : Int
  nCKE : Int
  nXP : Int
  nSR : Int
  nXSR : Int
  latency_nonneg : 0 ≤ nCL + nBL := by decide

/-- `JEDEC_rounding`, of nanoseconds with a clock in picoseconds. -/
def jedecRounding (tNs tCkPs : Nat) : Int := ((tNs * 1000 * 1000 / tCkPs + 974) / 1000 : Nat)

/-- `LPDDR5_6400` with `LPDDR5_16Gb_x16`, as `init_speed` leaves it. -/
def lpddr5_6400 : SpeedEntry where
  nBL := 2
  nCCD := 2
  nCL := 20
  nRCD := 15
  nRPpb := 15
  nRPab := 17
  nCWL := 11
  nRAS := 34
  nRC := 48
  nRTP := 4
  nWTRS := 5
  nWTRL := 10
  nWR := 28
  nPPD := 2
  nRRD := 4
  nFAW := 16
  nRFCab := jedecRounding 280 1250
  nREFI := jedecRounding 3906 1250
  nPBR2PBR := jedecRounding 90 1250
  nPBR2ACT := jedecRounding 8 1250
  nCS := 2
  nCKE := 0
  nXP := 6
  nSR := 12
  nXSR := 150

def wait (val : Int) (cmd : Command) : TimingEntry Command := { cmd := cmd, dist := 1, val := val }

def waitSibling (val : Int) (cmd : Command) : TimingEntry Command :=
  { cmd := cmd, dist := 1, val := val, sibling := true }

/-- `init_timing` -/
def timing (s : SpeedEntry) (level : Nat) (cmd : Command) : List (TimingEntry Command) :=
  match level, cmd with
  | 0, .rd | 0, .rda => [.rd, .rda].map (wait s.nBL)
  | 0, .wr | 0, .wra => [.wr, .wra].map (wait s.nBL)
  | 1, .rd => [.rd, .rda].map (wait s.nCCD) ++
      [.wr, .wra].map (wait (s.nCL + s.nBL + 2 - s.nCWL)) ++
      [.rd, .rda, .wr, .wra].map (waitSibling (s.nBL + s.nCS)) ++
      [wait s.nRTP .prea, wait (s.nCL + s.nBL + 1) .pde]
  | 1, .rda => [.rd, .rda].map (wait s.nCCD) ++
      [.wr, .wra].map (wait (s.nCL + s.nBL + 2 - s.nCWL)) ++
      [.rd, .rda, .wr, .wra].map (waitSibling (s.nBL + s.nCS)) ++
      [wait (s.nCL + s.nBL + 1) .pde, wait (s.nRPab + s.nRTP) .refab]
  | 1, .wr => [.wr, .wra].map (wait s.nCCD) ++
      [.rd, .rda].map (wait (s.nCWL + s.nBL + s.nWTRS)) ++
      [.rd, .rda].map (waitSibling (s.nCL + s.nBL + s.nCS - s.nCWL)) ++
      [.prea, .pde].map (wait (s.nCWL + s.nBL + s.nWR))
  | 1, .wra => [.wr, .wra].map (wait s.nCCD) ++
      [.rd, .rda].map (wait (s.nCWL + s.nBL + s.nWTRS)) ++
      [.rd, .rda].map (waitSibling (s.nCL + s.nBL + s.nCS - s.nCWL)) ++
      [wait (s.nCWL + s.nBL + s.nWR + 1) .pde, wait (s.nCWL + s.nBL + s.nWR + s.nRPab) .refab]
  | 1, .act1 => [wait s.nRRD .act1, wait s.nRRD .refpb, { cmd := .act1, dist := 4, val := s.nFAW },
      wait s.nRAS .prea, wait s.nRC .refab, wait 1 .pde]
  | 1, .prea => [.act1, .refab, .sref].map (wait s.nRPab)
  | 1, .pre => wait s.nPPD .pre :: [.refab, .sref].map (wait s.nRPpb)
  | 1, .refab => wait 1 .pde :: [.act1, .refab, .refpb].map (wait s.nRFCab)
  | 1, .refpb => [wait s.nPBR2ACT .act1, wait s.nPBR2PBR .refpb, wait 1 .pde]
  | 1, .pde => [wait s.nCKE .pdx]
  | 1, .pdx => [.rd, .rda, .wr, .wra, .act1, .pre, .prea, .refab, .refpb, .pde, .sref].map
      (wait s.nXP)
  | 1, .sref => [wait s.nSR .srefx]
  | 1, .srefx => [.act1, .refab, .refpb, .pde, .sref].map (wait s.nXSR)
  | 2, .rd | 2, .rda => [.rd, .rda].map (wait (2 * s.nCCD))
  | 2, .wr | 2, .wra => [.wr, .wra].map (wait (2 * s.nCCD)) ++
      [.rd, .rda].map (wait (s.nCWL + s.nBL + s.nWTRL))
  | 2, .act1 => [wait s.nRRD .act1]
  | 3, .act1 => [.rd, .rda, .wr, .wra].map (wait s.nRCD) ++
      [wait s.nRC .act1, wait s.nRAS .pre]
  | 3, .rd => [wait s.nRTP .pre]
  | 3, .wr => [wait (s.nCWL + s.nBL + s.nWR) .pre]
  | 3, .rda => [wait (s.nRTP + s.nRPpb) .act1]
  | 3, .wra => [wait (s.nCWL + s.nBL + s.nWR + s.nRPpb) .act1]
  | 3, .pre => [wait s.nRPpb .act1]
  | _, _ => []

/-! ## States -/

abbrev Node := DramNode Command State

/-- All banks of a rank. -/
def banks : {n : Nat} → Dram Command State n → List Node
  | n + 2, d => d.children.flatMap fun (bg : Dram Command State (n + 1)) =>
      bg.children.map fun (bank : Dram Command State n) => bank.self
  | _, _ => []

def closeBank (node : Node) : Node := { node with state := .closed, rowState := fun _ => none }

def mapBanks (f : Node → Node) : {n : Nat} → Dram Command State n → Dram Command State n
  | n + 2, d => .mk d.self (d.children.map fun (bg : Dram Command State (n + 1)) =>
      Dram.mk bg.self (bg.children.map fun (bank : Dram Command State n) => bank.mapSelf f))
  | _, d => d

/-- The prerequisite of `RD` and `WR` at a bank, with the command that synchronises the clock. -/
def accessPrereq (cmd cas : Command) (above : List Node) (node : Node) (id : Int) :
    Except Fault (Option Command) :=
  match node.state with
  | .closed => .ok (some .act1)
  | .opened =>
    if (node.rowState id).isSome then
      match above with
      | _ :: rank :: _ =>
        if rank.mFinalSyncedCycle < node.curClk then .ok (some cas) else .ok (some cmd)
      | _ => .error .undefined
    else .ok (some .pre)
  | _ => .error .assertion

def refabPrereq (cmd : Command) {n : Nat} (d : Dram Command State n) :
    Except Fault (Option Command) :=
  if (banks d).any fun bank => bank.state ≠ .closed then .ok (some .prea) else .ok (some cmd)

/-- It looks at the state of the rank where it means that of the bank. -/
def refpbPrereq (cmd : Command) (banksPerGroup : Nat) {n : Nat} (d : Dram Command State n)
    (id : Int) : Except Fault (Option Command) :=
  let flat : List Int := match n, d with
    | n + 2, d => d.children.flatMap fun (bg : Dram Command State (n + 1)) =>
        bg.children.map fun (bank : Dram Command State n) =>
          bank.self.id + bg.self.id * banksPerGroup
    | _, _ => []
  if (flat.any fun i => i = id || i = id + 8) &&
      (d.self.state = .preOpened || d.self.state = .opened)
  then .ok (some .pre)
  else .ok (some cmd)

/-- `init_prereq` -/
def prereq (banksPerGroup level : Nat) (cmd : Command) :
    Option (List Node → (n : Nat) → Dram Command State n → Int → Except Fault (Option Command)) :=
  match level, cmd with
  | 3, .rd => some fun above _ d id => accessPrereq .rd .casrd above d.self id
  | 3, .wr => some fun above _ d id => accessPrereq .wr .caswr above d.self id
  | 1, .refab | 1, .rfmab => some fun _ _ d _ => refabPrereq cmd d
  | 1, .refpb | 1, .rfmpb => some fun _ _ d id => refpbPrereq cmd banksPerGroup d id
  | 1, .pde => some fun _ _ d _ =>
    match d.self.state with
    | .powerUp | .actPowerDown | .prePowerDown => .ok (some .pde)
    | .selfRefresh => .ok (some .srefx)
    | _ => .error .assertion
  | 1, .sref => some fun _ _ d _ =>
    match d.self.state with
    | .powerUp | .selfRefresh => .ok (some .sref)
    | .actPowerDown | .prePowerDown => .ok (some .pdx)
    | _ => .error .assertion
  | _, _ => none

/-- `init_rowhit` -/
def rowhit (level : Nat) (cmd : Command) : Option (Node → Int → Except Fault Bool) :=
  match level, cmd with
  | 3, .rd | 3, .wr => some fun node id =>
    match node.state with
    | .closed | .preOpened => .ok false
    | .opened => .ok (node.rowState id).isSome
    | _ => .error .assertion
  | _, _ => none

/-- `init_rowopen` -/
def rowopen (level : Nat) (cmd : Command) : Option (Node → Int → Except Fault Bool) :=
  match level, cmd with
  | 3, .rd | 3, .wr => some fun node _ =>
    match node.state with
    | .closed | .preOpened => .ok false
    | .opened => .ok true
    | _ => .error .assertion
  | _, _ => none

def synced (cycles : Int) (node : Node) : Node :=
  { node with mFinalSyncedCycle := node.curClk + cycles }

def openRow (id : Int) (node : Node) : Node :=
  { node with state := .opened, rowState := Function.update node.rowState id (some .opened) }

/-- The children of a rank are bank groups, whose state is never `Closed`. -/
def powerDown {n : Nat} (d : Dram Command State n) (node : Node) : Node :=
  if d.children.any fun bg => bg.self.state ≠ .closed then { node with state := .actPowerDown }
  else { node with state := .prePowerDown }

/-- `init_lambda` -/
def lambda (s : SpeedEntry) (level : Nat) (cmd : Command) :
    Option ((n : Nat) → Dram Command State n → Int → Dram Command State n) :=
  match level, cmd with
  | 1, .prea => some fun _ d _ => mapBanks closeBank d
  | 1, .refab => some fun _ d _ => d
  | 1, .casrd | 1, .caswr => some fun _ d _ => d.mapSelf (synced (s.nCL + s.nBL + 1))
  | 1, .rd | 1, .wr => some fun _ d _ => d.mapSelf (synced (s.nCL + s.nBL))
  | 1, .pde => some fun _ d _ => d.mapSelf (powerDown d)
  | 1, .pdx | 1, .srefx => some fun _ d _ => d.mapSelf fun node => { node with state := .powerUp }
  | 1, .sref => some fun _ d _ => d.mapSelf fun node => { node with state := .selfRefresh }
  | 3, .act1 => some fun _ d id => d.mapSelf (openRow id)
  | 3, .pre | 3, .rda | 3, .wra => some fun _ d _ => d.mapSelf closeBank
  | _, _ => none

theorem skeleton_mapBanks {f : Node → Node}
    (hf : ∀ node, (f node).id = node.id ∧ (f node).clocks = node.clocks) {n : Nat}
    (d : Dram Command State n) (path : List Nat) : (mapBanks f d).skeleton path = d.skeleton path :=
  match n, d with
  | 0, _ | 1, _ => rfl
  | n + 2, d => by
    match path with
    | [] => rw [Dram.skeleton_nil, Dram.skeleton_nil]; rfl
    | [i] =>
      rw [Dram.skeleton_cons, Dram.skeleton_cons, mapBanks, Dram.children_mk, List.getElem?_map]
      cases d.children[i]? <;> rfl
    | i :: j :: path =>
      rw [Dram.skeleton_cons, Dram.skeleton_cons, mapBanks, Dram.children_mk, List.getElem?_map]
      cases d.children[i]? with
      | none => rfl
      | some bg =>
        rw [Option.map_some, Option.bind_some, Option.bind_some, Dram.skeleton_cons,
          Dram.skeleton_cons, Dram.children_mk, List.getElem?_map]
        cases bg.children[j]? with
        | none => rfl
        | some bank => exact Dram.skeleton_mapSelf hf bank path

theorem lambda_skeleton {s : SpeedEntry} (level : Nat) (cmd : Command)
    (f : (n : Nat) → Dram Command State n → Int → Dram Command State n)
    (hf : lambda s level cmd = some f) (n : Nat) (d : Dram Command State n) (id : Int)
    (path : List Nat) : (f n d id).skeleton path = d.skeleton path := by
  unfold lambda at hf
  split at hf <;> cases hf
  case h_1 => refine skeleton_mapBanks (fun node => ?_) d path; exact ⟨rfl, rfl⟩
  case h_2 => rfl
  case h_7 =>
    refine Dram.skeleton_mapSelf (fun node => ?_) d path
    unfold powerDown
    split <;> exact ⟨rfl, rfl⟩
  all_goals refine Dram.skeleton_mapSelf (fun node => ?_) d path; exact ⟨rfl, rfl⟩

/-- The counts of `LPDDR5_16Gb_x16` for any number of channels, which `Memory` sets, and of ranks,
of which the table has one. -/
def count (channels ranks level : Nat) : Nat := [channels, ranks, 4, 4, 2 ^ 16, 2 ^ 10].getD level 0

/-- The initialiser of `translate` ends before `EXTENSION`. -/
def translate : DramRequestType → Command
  | .read => .rd
  | .write => .wr
  | .refresh => .refab
  | .powerdown => .pde
  | .selfrefresh => .sref
  | .extension => .act1

end Lpddr5

/-- The standard with its tables for that speed. -/
def lpddr5 (s : Lpddr5.SpeedEntry) (channels ranks : Nat) :
    Standard Lpddr5.Command Lpddr5.State where
  scope := Lpddr5.scope
  timing := Lpddr5.timing s
  pre := .pre
  commandName := Lpddr5.commandName
  isOpening := Lpddr5.isOpening
  isRefreshing := Lpddr5.isRefreshing
  isAccessing := Lpddr5.isAccessing
  isClosing := Lpddr5.isClosing
  rowLevel := 4
  count := Lpddr5.count channels ranks
  start := Lpddr5.start
  prereq := Lpddr5.prereq (Lpddr5.count channels ranks 3)
  rowhit := Lpddr5.rowhit
  rowopen := Lpddr5.rowopen
  lambda := Lpddr5.lambda s
  lambda_skeleton := Lpddr5.lambda_skeleton

def lpddr5Spec (s : Lpddr5.SpeedEntry) (channels ranks : Nat) :
    DramSpec Lpddr5.Command Lpddr5.State where
  toStandard := lpddr5 s channels ranks
  levels := 6
  translate := Lpddr5.translate
  readLatency := s.nCL + s.nBL
  nREFI := s.nREFI

end NdpSim
