import NdpSim.Register.Unit
import Mathlib.Data.Finset.Sort

/-!
# The micro-thread generator

A kernel launch becomes a list of requests: one initializer, the packets of each kernel body in
turn, one finalizer. Requests wait in the generator until the completions counted so far allow
them to be pushed into the request queue.
-/
namespace NdpSim

open Library

structure KernelLaunchInfo where
  launchId : Nat
  kernelId : Nat
  baseAddr : Nat
  size : Nat
  smemSize : Nat

/-- What the generator reads from the configuration and from the registered kernels. The body
counts do not change while launches are under way. -/
structure GeneratorConfig where
  ndpId : Nat
  /-- `check_addr_match` -/
  checkAddrMatch : Nat → Bool
  registeredFunctions : Finset Nat
  numKernelBodies : Nat → Nat
  spadSize : Int
  maxKernelLaunch : Nat
  isCoarseGrained : Bool
  isScWork : Bool
  requestQueueSize : Nat

/-- `sent` is everything pushed into the request queue so far, of which the NDP unit has taken
the first `taken`. -/
structure UThreadGenerator where
  globalReqId : Nat
  launched : Bool
  activeLaunchIds : Finset Nat
  launchInfos : Binding Nat KernelLaunchInfo
  launchQueue : List Nat
  generatedRequests : Binding Nat (List RequestInfo)
  totalRequests : Binding Nat Nat
  countRequests : Binding Nat Nat
  sent : List RequestInfo
  taken : Nat

namespace UThreadGenerator

def create : UThreadGenerator := ⟨0, false, ∅, ∅, [], ∅, ∅, ∅, [], 0⟩

/-! ## Launching -/

/-- The packet addresses of a launch. `base + size` is a 64-bit sum: when it wraps, the loop
condition fails at once. -/
def packets (base size : Nat) : List Nat :=
  if base + size < 2 ^ 64 then (List.range (size / packetSize)).map fun i => base + packetSize * i
  else []

def matched (cfg : GeneratorConfig) (kinfo : KernelLaunchInfo) : List Nat :=
  (packets kinfo.baseAddr kinfo.size).filter cfg.checkAddrMatch

def mkRequest (kinfo : KernelLaunchInfo) (id : Nat) (type : RequestType) (body addr offset : Nat) :
    RequestInfo where
  type := type
  id := id
  launchId := kinfo.launchId
  kernelId := kinfo.kernelId
  kernelBodyId := body
  addr := BitVec.ofNat 64 addr
  offset := BitVec.ofNat 64 offset

/-- The requests of one body, numbered from `id`. -/
def bodyRequests (kinfo : KernelLaunchInfo) (body : Nat) : Nat → List Nat → List RequestInfo
  | _, [] => []
  | id, addr :: addrs =>
    mkRequest kinfo id .kernelBody body addr (addr - kinfo.baseAddr) ::
      bodyRequests kinfo body (id + 1) addrs

/-- The loop over the bodies after the first. -/
def laterBodies (kinfo : KernelLaunchInfo) (addrs : List Nat) : Nat → List Nat → List RequestInfo
  | _, [] => []
  | id, body :: bodies =>
    bodyRequests kinfo body id addrs ++ laterBodies kinfo addrs (id + addrs.length) bodies

/-- The requests a launch generates, numbered from `id`: the initializer comes with the first
matching packet, the finalizer when there is any request. -/
def launchRequests (cfg : GeneratorConfig) (kinfo : KernelLaunchInfo) (id : Nat) :
    List RequestInfo :=
  match matched cfg kinfo with
  | [] => []
  | addrs =>
    let first := mkRequest kinfo id .initializer 0 kinfo.baseAddr cfg.ndpId ::
      bodyRequests kinfo 0 (id + 1) addrs
    let later := laterBodies kinfo addrs (id + first.length)
      (List.range' 1 (cfg.numKernelBodies kinfo.kernelId - 1))
    let all := first ++ later
    all ++ [mkRequest kinfo (id + all.length) .finalizer 0 kinfo.baseAddr cfg.ndpId]

def count (g : UThreadGenerator) (launchId : Nat) : Nat := (g.countRequests.lookup launchId).getD 0
def total (g : UThreadGenerator) (launchId : Nat) : Nat := (g.totalRequests.lookup launchId).getD 0

def generated (g : UThreadGenerator) (launchId : Nat) : List RequestInfo :=
  (g.generatedRequests.lookup launchId).getD []

def finishLaunch (g : UThreadGenerator) (launchId : Nat) : UThreadGenerator :=
  { g with
    activeLaunchIds := g.activeLaunchIds.erase launchId
    totalRequests := g.totalRequests.erase launchId
    countRequests := g.countRequests.erase launchId
    launchInfos := g.launchInfos.erase launchId }

def increaseCount (g : UThreadGenerator) (launchId : Nat) : UThreadGenerator :=
  { g with countRequests := g.countRequests.insert launchId (g.count launchId + 1) }

def isActive (g : UThreadGenerator) : Bool := !g.launchInfos.entries.isEmpty

def isLaunchActive (g : UThreadGenerator) (launchId : Nat) : Bool :=
  (g.launchInfos.lookup launchId).isSome

def smemSize (g : UThreadGenerator) (launchId : Nat) : Nat :=
  ((g.launchInfos.lookup launchId).map KernelLaunchInfo.smemSize).getD 0

def getAllocatedSpadSize (g : UThreadGenerator) : Nat :=
  (∑ id ∈ g.activeLaunchIds, g.smemSize id) % 2 ^ 32

/-- Activate the oldest waiting launch if scratchpad and launch slots allow; at most one
between two cycles. -/
def checkKernelLaunch (cfg : GeneratorConfig) (g : UThreadGenerator) : UThreadGenerator :=
  match g.launchQueue with
  | [] => g
  | launchId :: rest =>
    -- a negative limit becomes a huge one in the unsigned comparison
    if ¬ g.launched ∧
        (cfg.spadSize < 8192 ∨
          (g.smemSize launchId + g.getAllocatedSpadSize : Int) ≤ cfg.spadSize - 8192) ∧
        g.activeLaunchIds.card < cfg.maxKernelLaunch then
      { g with
        activeLaunchIds := insert launchId g.activeLaunchIds
        launchQueue := rest
        launched := true }
    else g

def launch (cfg : GeneratorConfig) (g : UThreadGenerator) (kinfo : KernelLaunchInfo) :
    Except Fault UThreadGenerator := do
  let g := { g with launchInfos := g.launchInfos.insert kinfo.launchId kinfo }
  if ¬ (kinfo.smemSize : Int) ≤ cfg.spadSize then throw .assertion
  if ¬ kinfo.size % packetSize = 0 then throw .assertion
  if kinfo.kernelId ∉ cfg.registeredFunctions then return g
  let requests := launchRequests cfg kinfo g.globalReqId
  let g := { g with
    globalReqId := g.globalReqId + requests.length
    totalRequests := g.totalRequests.insert kinfo.launchId requests.length
    countRequests := g.countRequests.insert kinfo.launchId 0 }
  let g :=
    if requests.isEmpty then g.finishLaunch kinfo.launchId
    else { g with
      launchQueue := g.launchQueue ++ [kinfo.launchId]
      generatedRequests := g.generatedRequests.insert kinfo.launchId requests }
  return checkKernelLaunch cfg g

/-! ## Pushing requests -/

/-- The front request of a launch may go: the initializer always, a body while the completions
after the initializer fall into it, the finalizer when everything else has completed. -/
def checkCanIssue (cfg : GeneratorConfig) (g : UThreadGenerator) (info : RequestInfo) :
    Except Fault Bool :=
  match info.type with
  | .initializer => .ok true
  | .kernelBody =>
    if g.count info.launchId = 0 then .ok false
    else
      let bodies := cfg.numKernelBodies info.kernelId
      let reqsPerBody := (g.total info.launchId - 2) / bodies
      let afterInitializer := g.count info.launchId - 1
      -- neither division may be by zero
      if bodies = 0 ∨ reqsPerBody = 0 then .error .undefined
      else .ok (info.kernelBodyId == afterInitializer / reqsPerBody)
  | .finalizer => .ok (g.count info.launchId == g.total info.launchId - 1)

/-- The first of the launches whose front request may go. -/
def nextOf (cfg : GeneratorConfig) (g : UThreadGenerator) : List Nat → Except Fault (Option Nat)
  | [] => .ok none
  | launchId :: rest =>
    match g.generated launchId with
    | [] => nextOf cfg g rest
    | info :: _ => do
      if ← checkCanIssue cfg g info then return some launchId
      else nextOf cfg g rest

def getNextLaunchId (cfg : GeneratorConfig) (g : UThreadGenerator) : Except Fault (Option Nat) :=
  nextOf cfg g g.activeLaunchIds.sort

/-- `push` of the front request into the bounded request queue, and `pop_front`. -/
def pushFront (cfg : GeneratorConfig) (g : UThreadGenerator) (launchId : Nat) (info : RequestInfo)
    (rest : List RequestInfo) : Except Fault UThreadGenerator :=
  if g.sent.length - g.taken < cfg.requestQueueSize then
    .ok { g with
      sent := g.sent ++ [info]
      generatedRequests := g.generatedRequests.insert launchId rest }
  else .error .assertion

/-- There is something active and something generated. -/
def hasWork (g : UThreadGenerator) : Bool :=
  !(g.activeLaunchIds == ∅) && !g.generatedRequests.entries.isEmpty

def dropGenerated (g : UThreadGenerator) (launchId : Nat) : UThreadGenerator :=
  { g with generatedRequests := g.generatedRequests.erase launchId }

/-- Push up to `threads` body requests. -/
def generateUthreads (cfg : GeneratorConfig) (g : UThreadGenerator) :
    Nat → Except Fault UThreadGenerator
  | 0 => .ok g
  | threads + 1 =>
    if g.hasWork then do
      match ← getNextLaunchId cfg g with
      | none => return g
      | some launchId =>
        match g.generated launchId with
        | [] => return g.dropGenerated launchId
        | info :: rest =>
          if info.type = .kernelBody ∧ 1 ≤ g.count launchId then
            let g ← g.pushFront cfg launchId info rest
            g.generateUthreads cfg threads
          else g.generateUthreads cfg threads
    else g.generateUthreads cfg threads

/-- The second half of a cycle: push an initializer or a finalizer. -/
def pushEnds (cfg : GeneratorConfig) (g : UThreadGenerator) : Except Fault UThreadGenerator :=
  if g.hasWork then do
    match ← getNextLaunchId cfg g with
    | none => return g
    | some launchId =>
      match g.generated launchId with
      | [] => return g.dropGenerated launchId
      | info :: rest =>
        match info.type with
        | .finalizer =>
          if g.count launchId = g.total launchId - 1 then
            let g ← g.pushFront cfg launchId info rest
            return { g with launched := false }
          else return { g with launched := false }
        | .initializer =>
          let g ← g.pushFront cfg launchId info rest
          return { g with launched := false }
        | .kernelBody => return { g with launched := false }
  else return { g with launched := false }

def cycle (cfg : GeneratorConfig) (g : UThreadGenerator) : Except Fault UThreadGenerator :=
  let g := checkKernelLaunch cfg g
  if ¬ cfg.isCoarseGrained ∧ ¬ cfg.isScWork then do
    let g ← g.generateUthreads cfg 1
    g.pushEnds cfg
  else g.pushEnds cfg

/-- What `handle_finished_context` tells the generator about a finished request. -/
def complete (g : UThreadGenerator) (info : RequestInfo) : UThreadGenerator :=
  let g := if info.type = .finalizer then g.finishLaunch info.launchId else g
  g.increaseCount info.launchId

end UThreadGenerator

end NdpSim
