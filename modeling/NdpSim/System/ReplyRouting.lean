import NdpSim.System.CxlLink
import NdpSim.System.Routing

/-!
# The way to memory and back

What an NDP unit sends goes through the crossbar of its device to a memory channel, or through the
link to the crossbar of another device. A reply finds its way back by the number of the unit in it.
Instructions and page table entries are read from the device's own memory whatever their address.
A load that is drawn for back-invalidation goes to a host first, and what comes back to the unit is
the reply to the answer of the host. The requests a cache makes for itself have no number of a unit,
and their replies go to a host.
-/
namespace NdpSim

/-- The requests of an NDP unit and of the caches in it. -/
inductive RequestKind
  | load | store | atomic | instructionFetch | tlbRead | writeAllocate | writeBack
  deriving DecidableEq

namespace RequestKind

/-- The request is marked as one of the unit. -/
def marked : RequestKind → Bool
  | .load | .store | .atomic | .instructionFetch | .tlbRead => true
  | .writeAllocate | .writeBack => false

/-- The request is a global access. -/
def global : RequestKind → Bool
  | .load | .store | .atomic => true
  | .instructionFetch | .tlbRead | .writeAllocate | .writeBack => false

def accessType : RequestKind → MemAccessType
  | .load | .atomic => .globalAccR
  | .store => .globalAccW
  | .instructionFetch => .instAccR
  | .tlbRead => .tlbAccR
  | .writeAllocate => .l1CacheWa
  | .writeBack => .l1CacheWb

def isWrite : RequestKind → Bool
  | .store | .writeBack => true
  | .load | .atomic | .instructionFetch | .tlbRead | .writeAllocate => false

/-- The load-store unit takes it for a load. -/
def loads : RequestKind → Bool
  | .load | .atomic => true
  | .store | .instructionFetch | .tlbRead | .writeAllocate | .writeBack => false

/-- The request of `unit` as it is made; a field that is not set has the value `stale`. An
instruction fetch has the number of its column as source. Loads may be drawn for back-invalidation;
what is drawn for a store is a request of its own that is never sent. -/
def request (kind : RequestKind) (unit column stale : Nat) (addr : BitVec 64) (drawn : Bool) :
    Message :=
  let mf := Message.create 0 addr kind.accessType
    (if kind.isWrite then .writeRequest else .readRequest)
  { mf with
    fromNdp := kind.marked
    ndpId := if kind.marked then unit else stale
    srcId := if kind = .instructionFetch then column else mf.srcId
    bi := drawn && kind.loads }

def reply (kind : RequestKind) (unit column stale : Nat) (addr : BitVec 64) : Message :=
  { kind.request unit column stale addr false with
    type := if kind.isWrite then .writeAck else .readReply }

/-- The write that a host sends after a drawn load has come to it. -/
def answer (unit : Nat) (addr : BitVec 64) : Message :=
  { Message.create 0 addr .globalAccW .writeRequest with
    fromNdp := true
    ndpId := unit
    biWriteback := true
    data := .invalidated }

end RequestKind

namespace SystemConfig

variable (cfg : SystemConfig)

/-- `m_buffer_id` of the device of a unit -/
def deviceOf (unit : Nat) : Nat := unit / cfg.ndpUnitsPerBuffer

/-- The buffer of the link that a message is put into when it leaves by a port. -/
def linkBuffer (device : Nat) (port : Int) (mf : Message) : Int × Int :=
  CxlLink.pushedBuffer cfg device (port / cfg.l2dNumBanks) mf

/-- The ports and numbers that a trip of `unit` to another device depends on agree. -/
structure Agrees (unit : Nat) (addr : BitVec 64) : Prop where
  channel : (cfg.getChannelIndex addr).toNat % cfg.linksPerHost < cfg.linksPerMemoryBuffer
  index : unit % cfg.ndpUnitsPerBuffer % cfg.linksPerHost < cfg.linksPerMemoryBuffer
  device : unit / cfg.numNdpUnits = unit / cfg.ndpUnitsPerBuffer
  unit : unit % cfg.numNdpUnits = unit % cfg.ndpUnitsPerBuffer

variable {cfg} {kind : RequestKind} {unit home column stale : Nat} {addr : BitVec 64} {drawn : Bool}

/-- A reply that says which unit it belongs to. -/
structure RepliesTo (unit : Nat) (addr : BitVec 64) (mf : Message) : Prop where
  isReply : mf.isRequest = false
  fromNdp : mf.fromNdp = true
  ndpId : mf.ndpId = unit
  addr : mf.addr = addr
  kept : mf.bi = false

/-- The link brings a reply to the device of the unit, as it counts them. -/
theorem RepliesTo.linkBuffer_eq {mf : Message} (h : RepliesTo unit addr mf)
    (hmemory : addr ≠ kernelLaunchAddr) (device : Nat) (port : Int) :
    cfg.linkBuffer device port mf =
      ((device : Int), (cfg.hostPorts : Int) + ((unit / cfg.numNdpUnits : Nat) : Int)) := by
  have hmem : mf.addr ≠ kernelLaunchAddr := by rw [h.addr]; exact hmemory
  simp [linkBuffer, CxlLink.pushedBuffer, h.fromNdp, hmem, h.kept, h.ndpId, h.isReply]

theorem RepliesTo.returns_iff {mf : Message} (h : RepliesTo unit addr mf)
    (hmemory : addr ≠ kernelLaunchAddr) (device : Nat) (port : Int) :
    cfg.linkBuffer device port mf = ((device : Int), (cfg.hostPorts : Int) + cfg.deviceOf unit) ↔
      unit / cfg.numNdpUnits = unit / cfg.ndpUnitsPerBuffer := by
  rw [h.linkBuffer_eq hmemory, deviceOf]
  constructor
  · intro heq
    exact_mod_cast add_left_cancel (Prod.mk.inj heq).2
  · intro heq
    rw [heq]

/-! ## Ports of the link -/

end SystemConfig

end NdpSim
