import NdpSim.Cache.Resize
import NdpSim.System.Message

/-!
# The configuration of the whole system

Which device, channel and bank an address belongs to is read off the bits that the masks of the
configuration select.
-/
namespace NdpSim

structure SystemConfig where
  numHosts : Nat
  numM2ndps : Nat
  linksPerHost : Nat
  linksPerMemoryBuffer : Nat
  cxlLinkBufferSize : Nat
  numNdpUnits : Nat
  ndpUnitsPerBuffer : Nat
  l2dNumBanks : Nat
  numChannels : Nat
  channelIndexingPolicy : Int
  deviceMask : BitVec 64
  channelMask : BitVec 64
  bankMask : BitVec 64

namespace SystemConfig

variable (cfg : SystemConfig)

/-- `get_partial_bits`: the selected bits of the address, put together. -/
def getPartialBits (mask addr : BitVec 64) : BitVec 32 :=
  BitVec.ofNat 32 (ofBits (((List.range 64).filter mask.getLsbD).map addr.getLsbD))

/-- `get_higher_bits`: the address from the highest selected bit on. -/
def getHigherBits (mask addr : BitVec 64) : BitVec 64 :=
  addr >>> (((List.range 64).filter mask.getLsbD).getLast?.getD 0)

/-- `get_channel_index` -/
def getChannelIndex (addr : BitVec 64) : Int :=
  let chBits := getPartialBits cfg.channelMask addr
  let higherBits := ((getHigherBits cfg.channelMask addr).setWidth 32).signExtend 64
  match cfg.channelIndexingPolicy with
  | 0 => chBits.toInt
  | 1 => ipolyHash higherBits.toNat chBits.toNat cfg.numChannels
  | 2 => (chBits ^^^ (higherBits.setWidth 32 &&& BitVec.ofNat 32 (cfg.numChannels - 1))).toNat
  | _ => 0

/-- `get_m2ndp_index` -/
def getM2ndpIndex (addr : BitVec 64) : Int := (getPartialBits cfg.deviceMask addr).toInt

/-- `get_bank_index` -/
def getBankIndex (addr : BitVec 64) : Nat := (getPartialBits cfg.bankMask addr).toNat

/-- The ports of the link: those of the hosts first, then those of the memory buffers. -/
def hostPorts : Nat := cfg.numHosts * cfg.linksPerHost
def m2ndpPorts : Nat := cfg.numM2ndps * cfg.linksPerMemoryBuffer

end SystemConfig

end NdpSim
