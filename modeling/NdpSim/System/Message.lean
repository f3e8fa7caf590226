import NdpSim.Isa.VectorData

/-!
# Messages between hosts, links and memory buffers

A `mem_fetch` is one object on its whole way: a reply is the request with another type, and the
host turns a request to invalidate into a write of the same object.
-/
namespace NdpSim

inductive MfType
  | readRequest | writeRequest | readReply | writeAck
  deriving DecidableEq

inductive MemAccessType
  | globalAccR | globalAccW | instAccR | tlbAccR | l1CacheWa | l2CacheWa | l1CacheWb | l2CacheWb
  | dmaAllocW | hostAccR | hostAccW
  deriving DecidableEq

def kernelLaunchAddr : BitVec 64 := 0x0010000000000000#64

/-- What the hosts and the memory buffers read of a `KernelLaunchInfo`. -/
structure LaunchCommand where
  sync : Bool
  kernelId : Int
  baseAddr : BitVec 64
  deriving DecidableEq

/-- `m_data`: nothing of interest, a `KernelLaunchInfo`, another `mem_fetch` that carries one, or
the mark `0x77` of an answer to an invalidation. -/
inductive MessageData
  | other
  | launch (info : LaunchCommand)
  | origin (id : Nat) (info : LaunchCommand)
  | invalidated
  deriving DecidableEq

structure Message where
  id : Nat
  addr : BitVec 64
  type : MfType
  accessType : MemAccessType
  fromNdp : Bool
  fromDma : Bool
  ndpId : Nat
  srcId : Nat
  bi : Bool
  biWriteback : Bool
  uthreadRequest : Bool
  data : MessageData
  deriving DecidableEq

namespace Message

def isWrite (mf : Message) : Bool := mf.type = .writeRequest || mf.type = .writeAck
def isRequest (mf : Message) : Bool := mf.type = .readRequest || mf.type = .writeRequest

def setReply (mf : Message) : Except Fault Message :=
  match mf.type with
  | .readRequest => .ok { mf with type := .readReply }
  | .writeRequest => .ok { mf with type := .writeAck }
  | .readReply | .writeAck => .error .assertion

def convertToWriteRequest (mf : Message) (addr : BitVec 64) : Except Fault Message :=
  if mf.type = .readReply then .ok { mf with type := .writeRequest, addr := addr }
  else .error .assertion

/-- `is_bi_writeback`, which changes the kind of the access as well. -/
def isBiWriteback (mf : Message) : Bool × Message :=
  (mf.biWriteback, { mf with accessType := .globalAccW })

/-- `mem_fetch` as the constructor leaves it. -/
def create (id : Nat) (addr : BitVec 64) (accessType : MemAccessType) (type : MfType) :
    Message where
  id := id
  addr := addr
  type := type
  accessType := accessType
  fromNdp := false
  fromDma := false
  ndpId := 0
  srcId := 0
  bi := false
  biWriteback := false
  uthreadRequest := false
  data := .other

/-- The write a host makes of a launch command. -/
def launchRequest (id : Nat) (info : LaunchCommand) : Message :=
  { create id kernelLaunchAddr .dmaAllocW .writeRequest with data := .launch info }

/-- What the host answers to a request to invalidate. -/
def answerInvalidation (mf : Message) : Except Fault Message := do
  let mf ← mf.setReply
  let mf := { mf with data := .invalidated }
  if mf.isWrite then return mf
  let mf ← mf.convertToWriteRequest mf.addr
  return { mf with bi := false, biWriteback := true }

/-- `!mf->is_bi() && !mf->is_bi_writeback()`, and the message afterwards. -/
def countsAsRequest (mf : Message) : Bool × Message :=
  if mf.bi then (false, mf) else (!mf.isBiWriteback.1, mf.isBiWriteback.2)

end Message

/-! ## The host's queue of answers -/

/-- What the hosts do in an iteration. A request to invalidate arrives and is answered with `mf`;
the loop looks at the first answer that waits and may put it into the request queue of a host; a
message is given to the link; a command is put into the request queue or has been answered. -/
inductive HostEvent
  | arrived (host : Nat) (mf : Message) (cycle : Nat)
  | looked (cycle : Nat) (released : Option (Nat × Message))
  | sent (host node : Nat) (mf : Message)
  | injected (id : Nat)
  | finished (id : Nat)
  deriving DecidableEq

/-- What the link says about a node of a host: whether a message can be pushed, and what has come
for the host. -/
structure NodeInput where
  hasBuffer : Bool
  top : Option Message

/-- `m_bi_reqs` is looked at: both runners compare in the same way. -/
def releaseBi (now : Nat) (biReqs : List (Message × Nat)) :
    Option Message × List (Message × Nat) :=
  match biReqs with
  | (mf, ready) :: rest => if ready ≥ now then (some mf, rest) else (none, biReqs)
  | [] => (none, [])

end NdpSim
