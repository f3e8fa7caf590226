import NdpSim.System.SystemConfig

/-!
# Ports of the crossbar of a device

The ports towards the link come first, one for each bank of each link, then those of the NDP units,
then those of the memory channels. Which port a message leaves by is read off the message alone.
-/
namespace NdpSim

namespace SystemConfig

variable (cfg : SystemConfig)

def cxlPortOffset : Nat := cfg.linksPerMemoryBuffer * cfg.l2dNumBanks
def ndpPortOffset : Nat := cfg.ndpUnitsPerBuffer * cfg.l2dNumBanks

/-- The ports that lead to one host. -/
def linkPerHost : Nat := cfg.linksPerHost * cfg.l2dNumBanks

def bankId (addr : BitVec 64) : Nat := cfg.getBankIndex addr % cfg.l2dNumBanks

/-- `get_output_port_id` of device `bufferId` -/
def getOutputPortId (bufferId : Nat) (mf : Message) : Int :=
  let channelDest := if !mf.isRequest && mf.fromNdp then (mf.ndpId : Int)
    else cfg.getChannelIndex mf.addr
  if (bufferId : Int) ≠ cfg.getM2ndpIndex mf.addr ∧ mf.fromNdp = true ∧
      (mf.accessType = .globalAccR ∨ mf.accessType = .globalAccW) then
    if !mf.isRequest then
      let ndpId := mf.ndpId % cfg.numNdpUnits
      cfg.cxlPortOffset + ndpId * cfg.l2dNumBanks + cfg.bankId mf.addr
    else (channelDest * cfg.l2dNumBanks + cfg.bankId mf.addr).tmod cfg.linkPerHost
  else
    let channelDest := if !mf.isRequest && mf.fromNdp then
      ((mf.ndpId % cfg.ndpUnitsPerBuffer : Nat) : Int) else channelDest
    if mf.isRequest = false ∧ mf.fromNdp = true ∧ bufferId ≠ mf.ndpId / cfg.ndpUnitsPerBuffer then
      (channelDest * cfg.l2dNumBanks + cfg.bankId mf.addr).tmod cfg.linkPerHost
    else if mf.isRequest ∧ mf.bi = false then
      cfg.cxlPortOffset + cfg.ndpPortOffset + channelDest * cfg.l2dNumBanks + cfg.bankId mf.addr
    else if mf.fromNdp = true ∧ mf.isRequest = false then
      cfg.cxlPortOffset + channelDest * cfg.l2dNumBanks + cfg.bankId mf.addr
    else if mf.fromNdp = false ∧ mf.isRequest = false ∨ mf.bi = true ∧ mf.isRequest then
      -- a request to invalidate is sent to the host
      mf.srcId * cfg.linkPerHost +
        (channelDest * cfg.l2dNumBanks + cfg.bankId mf.addr).tmod cfg.linkPerHost
    else 0

section Ports

variable {cfg} {bufferId : Nat} {mf : Message}

end Ports

/-- The port of a reply to a host. -/
theorem getOutputPortId_host (cfg : SystemConfig) (bufferId : Nat) {mf : Message}
    (hndp : mf.fromNdp = false) (hreply : mf.isRequest = false) :
    cfg.getOutputPortId bufferId mf = mf.srcId * cfg.linkPerHost +
      (cfg.getChannelIndex mf.addr * cfg.l2dNumBanks + cfg.bankId mf.addr).tmod
        cfg.linkPerHost := by
  simp [getOutputPortId, hndp, hreply]

end SystemConfig

end NdpSim
