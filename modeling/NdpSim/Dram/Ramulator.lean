import Mathlib.Data.List.AList
import NdpSim.Dram.AddressVectors
import NdpSim.Dram.Controller
import NdpSim.System.Message

/-!
# The wrapper around the memory

A memory fetch is split into requests of the size that a channel transfers at once. It is replied to
when the last of them was called back.
-/
namespace NdpSim

open Library

/-- What `Memory` and its wrapper know of the memory. -/
structure MemorySpec (C S : Type) extends DramSpec C S where
  org : OrgEntry
  name : MemoryName
  channels : Nat

/-- What they read of a `mem_fetch`. -/
structure Fetch where
  addr : Nat
  dataSize : Nat
  channel : Nat
  type : MfType

def MfType.setReply : MfType → Except Fault MfType
  | .readRequest => .ok .readReply
  | .writeRequest => .ok .writeAck
  | .readReply | .writeAck => .error .assertion

/-- `mfs` are the memory fetches, which the queues have pointers to. -/
structure Ramulator (C S : Type) (n : Nat) where
  mfs : Nat → Fetch
  ctrls : Nat → Controller C S n
  fromGpgpusim : Nat → List Nat := fun _ => []
  unaccepted : Nat → List Request := fun _ => []
  runningMfReqs : AList fun _ : Nat => Int := ∅
  rwq : Nat → List Nat := fun _ => []
  returnq : Nat → List Nat := fun _ => []

namespace Ramulator

variable {C S : Type} {n : Nat}

def rwqMaxLen : Nat := 2048

def returnqMaxLen : Nat := 1024

def fromGpgpusimMaxLen : Nat := 1024

def create (S' : MemorySpec C S) (n : Nat) (mfs : Nat → Fetch) : Ramulator C S n where
  mfs
  ctrls i := { issuer := { channel := .create S'.toStandard n 0 i } }

/-- `push` of a memory fetch that is `f`. -/
def push (r : Ramulator C S n) (mf : Nat) (f : Fetch) (ch : Nat) :
    Except Fault (Ramulator C S n) :=
  if (r.fromGpgpusim ch).length < fromGpgpusimMaxLen then
    .ok { r with
      mfs := Function.update r.mfs mf f
      fromGpgpusim := Function.update r.fromGpgpusim ch (r.fromGpgpusim ch ++ [mf]) }
  else .error .assertion

/-- `return_queue_pop` -/
def pop (r : Ramulator C S n) (ch : Nat) : Option Nat × Ramulator C S n :=
  ((r.returnq ch).head?, { r with returnq := Function.update r.returnq ch (r.returnq ch).tail })

/-! ## Callbacks -/

/-- `readComplete` and `writeComplete`: a fetch is done with the last of its requests. -/
def complete (S' : MemorySpec C S) (r : Ramulator C S n) (req : Request) :
    Except Fault (Ramulator C S n) :=
  match req.mf with
  | none => .error .assertion
  | some mf =>
    let ch := (req.addrVec.idx 0).toNat
    if S'.channels ≤ ch then .error .undefined
    else if rwqMaxLen ≤ (r.rwq ch).length then .error .assertion
    else
      let left := (r.runningMfReqs.lookup mf).getD 0 - 1
      if left = 0 then .ok { r with
        runningMfReqs := r.runningMfReqs.erase mf
        rwq := Function.update r.rwq ch (r.rwq ch ++ [mf]) }
      else .ok { r with runningMfReqs := r.runningMfReqs.insert mf left }

variable [DecidableEq C]

/-- `tick` of a channel, which sees whether the queue of what is done is full. -/
def tickChannel (S' : MemorySpec C S) (r : Ramulator C S n) (i : Nat) :
    Except Fault (Ramulator C S n) := do
  let (c, done) ← (r.ctrls i).tick S'.toDramSpec (rwqMaxLen ≤ (r.rwq i).length)
  done.foldlM (complete S') { r with ctrls := Function.update r.ctrls i c }

/-- `memory->tick` -/
def tickMemory (S' : MemorySpec C S) (r : Ramulator C S n) : Except Fault (Ramulator C S n) :=
  (List.range S'.channels).foldlM (tickChannel S') r

/-! ## Replies and new requests -/

/-- What is done becomes a reply, unless the return queue is full. -/
def reply (r : Ramulator C S n) (i : Nat) : Except Fault (Ramulator C S n) :=
  if returnqMaxLen ≤ (r.returnq i).length then .ok r
  else match r.rwq i with
    | [] => .ok r
    | mf :: rest => do
      let type ← (r.mfs mf).type.setReply
      return { r with
        mfs := Function.update r.mfs mf { r.mfs mf with type }
        rwq := Function.update r.rwq i rest
        returnq := Function.update r.returnq i (r.returnq i ++ [mf]) }

/-- `send`, which answers `none` for `false`. -/
def send (S' : MemorySpec C S) (i : Nat) (r : Ramulator C S n) (req : Request) :
    Except Fault (Option (Ramulator C S n)) :=
  if 10 * (r.rwq i).length < 8 * rwqMaxLen then
    match req.mf with
    | none => .error .undefined
    | some mf => do
      let addrVec ← addressVector S'.org S'.name req.addr (r.mfs mf).channel
      let ch := (addrVec.idx 0).toNat
      if S'.channels ≤ ch then .error .undefined
      else match (r.ctrls ch).enqueue { req with addrVec } with
        | some c => .ok (some { r with ctrls := Function.update r.ctrls ch c })
        | none => .ok none
  else .ok none

/-- Requests are sent until one is not accepted. -/
def sendAll (S' : MemorySpec C S) (i : Nat) :
    List Request → Ramulator C S n → Except Fault (List Request × Ramulator C S n)
  | [], r => .ok ([], r)
  | req :: rest, r => do
    match ← r.send S' i req with
    | some r => sendAll S' i rest r
    | none => .ok (req :: rest, r)

def sendUnaccepted (S' : MemorySpec C S) (i : Nat) (r : Ramulator C S n) :
    Except Fault (Ramulator C S n) := do
  let (left, r) ← sendAll S' i (r.unaccepted i) r
  return { r with unaccepted := Function.update r.unaccepted i left }

/-- The requests for the parts of a memory fetch. -/
def parts (S' : MemorySpec C S) (mf : Nat) (f : Fetch) : Except Fault (List Request) :=
  let count := f.dataSize / S'.org.channelUnit
  let requests (type : DramRequestType) := (List.range count).map fun part =>
    { addr := f.addr + part * S'.org.channelUnit, addrVec := [], type, mf := some mf : Request }
  match f.type with
  | .readRequest => .ok (requests .read)
  | .writeRequest => .ok (requests .write)
  | .readReply | .writeAck => .error .assertion

/-- The queue from outside is emptied as long as all requests are accepted. -/
def drain (S' : MemorySpec C S) (i : Nat) :
    List Nat → Ramulator C S n → Except Fault (Ramulator C S n)
  | [], r => r.sendUnaccepted S' i
  | mf :: rest, r => do
    let r ← r.sendUnaccepted S' i
    if r.unaccepted i ≠ [] then return r
    let reqs ← parts S' mf (r.mfs mf)
    drain S' i rest { r with
      runningMfReqs := r.runningMfReqs.insert mf reqs.length
      unaccepted := Function.update r.unaccepted i reqs
      fromGpgpusim := Function.update r.fromGpgpusim i rest }

def cycleChannel (S' : MemorySpec C S) (r : Ramulator C S n) (i : Nat) :
    Except Fault (Ramulator C S n) := do
  let r ← r.reply i
  r.drain S' i (r.fromGpgpusim i)

def cycle (S' : MemorySpec C S) (r : Ramulator C S n) : Except Fault (Ramulator C S n) := do
  let r ← r.tickMemory S'
  (List.range S'.channels).foldlM (cycleChannel S') r

end Ramulator

/-- The memory with `2 ^ c` channels and `2 ^ k` ranks. -/
def lpddr5Memory (s : Lpddr5.SpeedEntry) (c k : Nat) (name : MemoryName) :
    MemorySpec Lpddr5.Command Lpddr5.State where
  toDramSpec := lpddr5Spec s (2 ^ c) (2 ^ k)
  org := Lpddr5.orgEntry (2 ^ c) (2 ^ k)
  name
  channels := 2 ^ c

end NdpSim
