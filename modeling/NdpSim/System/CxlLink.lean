import NdpSim.Library.Effects
import NdpSim.System.SystemConfig

/-!
# The CXL link

Every port has a buffer for each port it can send to. Whether there is room is asked before a
message is pushed, and both work out the buffer for themselves.
-/
namespace NdpSim

open Library

structure CxlLink where
  fromHost : Int → Int → List Message
  fromM2ndp : Int → Int → List Message
  toM2ndpRr : Nat
  toHostRr : Nat

/-- A row of buffers, with one of them changed. -/
def setBuffer (buffers : Int → Int → List Message) (id out : Int) (queue : List Message) :
    Int → Int → List Message :=
  Function.update buffers id (Function.update (buffers id) out queue)

namespace CxlLink

variable (cfg : SystemConfig)

def create : CxlLink := ⟨fun _ _ => [], fun _ _ => [], 0, 0⟩

/-- `m_from_host_buffers[id][out]` exists. -/
def hostBuffer (id out : Int) : Bool :=
  0 ≤ id && id < cfg.hostPorts && 0 ≤ out && out < cfg.m2ndpPorts

/-- `m_from_m2ndp_buffers[id][out]` exists. -/
def m2ndpBuffer (id out : Int) : Bool :=
  0 ≤ id && id < cfg.m2ndpPorts && 0 ≤ out && out < cfg.hostPorts + cfg.m2ndpPorts

/-- `has_buffer_from_host` -/
def hasBufferFromHost (link : CxlLink) (hostId nodeNo : Int) (_mf : Message) : Except Fault Bool :=
  let id := hostId
  let outId := nodeNo
  if hostBuffer cfg id outId then .ok ((link.fromHost id outId).length < cfg.cxlLinkBufferSize)
  else .error .undefined

/-- `push_from_host` -/
def pushFromHost (link : CxlLink) (hostId nodeNo : Int) (mf : Message) : Except Fault CxlLink :=
  let id := hostId
  let outId := nodeNo
  if hostBuffer cfg id outId then
    .ok { link with fromHost := setBuffer link.fromHost id outId (link.fromHost id outId ++ [mf]) }
  else .error .undefined

/-- The buffer `has_buffer_from_memory_buffer` asks. -/
def checkedBuffer (bufferId nodeNo : Int) (mf : Message) : Int × Int :=
  let outId := nodeNo
  let outId := if mf.addr ≠ kernelLaunchAddr ∧ mf.fromNdp = true then
    cfg.hostPorts + cfg.getM2ndpIndex mf.addr else outId
  (bufferId, outId)

/-- `has_buffer_from_memory_buffer` -/
def hasBufferFromMemoryBuffer (link : CxlLink) (bufferId nodeNo : Int) (mf : Message) :
    Except Fault Bool :=
  let (id, outId) := checkedBuffer cfg bufferId nodeNo mf
  if m2ndpBuffer cfg id outId then .ok ((link.fromM2ndp id outId).length < cfg.cxlLinkBufferSize)
  else .error .undefined

/-- The buffer `push_from_memory_buffer` pushes to. -/
def pushedBuffer (bufferId nodeNo : Int) (mf : Message) : Int × Int :=
  let outId := nodeNo
  let outId := if mf.addr ≠ kernelLaunchAddr ∧ mf.fromNdp = true ∧ mf.bi = false then
    if !mf.isRequest then cfg.hostPorts + ((mf.ndpId / cfg.numNdpUnits : Nat) : Int)
    else cfg.hostPorts + cfg.getM2ndpIndex mf.addr
  else outId
  (bufferId, outId)

/-- `push_from_memory_buffer` -/
def pushFromMemoryBuffer (link : CxlLink) (bufferId nodeNo : Int) (mf : Message) :
    Except Fault CxlLink :=
  let (id, outId) := pushedBuffer cfg bufferId nodeNo mf
  if m2ndpBuffer cfg id outId then
    .ok { link with
      fromM2ndp := setBuffer link.fromM2ndp id outId (link.fromM2ndp id outId ++ [mf]) }
  else .error .undefined

/-- The buffer a port sends from: the first in turn that has a message the network takes. -/
def chosen (queues : Int → List Message) (ports rr : Nat) (hasBuffer : Message → Bool) :
    Option Int :=
  ((List.range ports).map fun j => (((rr + j) % ports : Nat) : Int)).find? fun n =>
    match queues n with
    | [] => false
    | mf :: _ => hasBuffer mf

/-- Every port gives the network at most one message. -/
def handleFrom (buffers : Int → Int → List Message) (ports outs rr : Nat)
    (hasBuffer : Int → Message → Bool) : Int → Int → List Message := fun i =>
  if 0 ≤ i ∧ i < ports then
    match chosen (buffers i) outs rr (hasBuffer i) with
    | none => buffers i
    | some n => Function.update (buffers i) n (buffers i n).tail
  else buffers i

/-- `handle_from_host` and `handle_from_m2ndp`; the network decides what it takes at which port. -/
def cycle (link : CxlLink) (hasBuffer : Int → Message → Bool) : CxlLink where
  fromHost := handleFrom link.fromHost cfg.hostPorts cfg.m2ndpPorts link.toM2ndpRr hasBuffer
  toM2ndpRr := (link.toM2ndpRr + 1) % cfg.m2ndpPorts
  fromM2ndp := handleFrom link.fromM2ndp cfg.m2ndpPorts (cfg.hostPorts + cfg.m2ndpPorts)
    link.toHostRr fun i mf => hasBuffer (cfg.hostPorts + i) mf
  toHostRr := (link.toHostRr + 1) % cfg.hostPorts

/-! ## Runs -/

/-- A host or a memory buffer wants to send a message, or the link has a cycle. -/
inductive Op
  | host (hostId nodeNo : Int) (mf : Message)
  | memoryBuffer (bufferId nodeNo : Int) (mf : Message)
  | cycle (hasBuffer : Int → Message → Bool)

/-- All callers ask for room first. -/
def step (link : CxlLink) : Op → Except Fault CxlLink
  | .host hostId nodeNo mf => do
    if ← link.hasBufferFromHost cfg hostId nodeNo mf then link.pushFromHost cfg hostId nodeNo mf
    else return link
  | .memoryBuffer bufferId nodeNo mf => do
    if ← link.hasBufferFromMemoryBuffer cfg bufferId nodeNo mf then
      link.pushFromMemoryBuffer cfg bufferId nodeNo mf
    else return link
  | .cycle hasBuffer => return link.cycle cfg hasBuffer

/-- The runs in which every step meets `P`. -/
inductive Run (cfg : SystemConfig) (P : Op → Prop) : CxlLink → Prop
  | start : Run cfg P create
  | step {link link' : CxlLink} (run : Run cfg P link) (op : Op) (meets : P op)
      (h : link.step cfg op = .ok link') : Run cfg P link'

/-- No buffer holds more than its size. -/
structure Within (link : CxlLink) : Prop where
  host : ∀ id out, (link.fromHost id out).length ≤ cfg.cxlLinkBufferSize
  m2ndp : ∀ id out, (link.fromM2ndp id out).length ≤ cfg.cxlLinkBufferSize

/-- For a message of an NDP unit: a back invalidation leaves by the node of the device of its
address, and a reply goes to the unit of the device that it comes from. -/
def SameBuffer (nodeNo : Int) (mf : Message) : Prop :=
  mf.addr ≠ kernelLaunchAddr → mf.fromNdp = true →
    (mf.bi = true → nodeNo = cfg.hostPorts + cfg.getM2ndpIndex mf.addr) ∧
    (mf.bi = false → mf.isRequest = false →
      ((mf.ndpId / cfg.numNdpUnits : Nat) : Int) = cfg.getM2ndpIndex mf.addr)

def Meets : Op → Prop
  | .memoryBuffer _ nodeNo mf => SameBuffer cfg nodeNo mf
  | .host .. | .cycle _ => True

variable {cfg} {link link' : CxlLink}

theorem pushed_eq_checked_iff (bufferId nodeNo : Int) (mf : Message) :
    pushedBuffer cfg bufferId nodeNo mf = checkedBuffer cfg bufferId nodeNo mf ↔
      SameBuffer cfg nodeNo mf := by
  simp only [pushedBuffer, checkedBuffer, SameBuffer, Prod.mk.injEq, true_and]
  by_cases hndp : mf.addr ≠ kernelLaunchAddr ∧ mf.fromNdp = true
  · obtain ⟨haddr, hfrom⟩ := hndp
    cases mf.bi <;> cases mf.isRequest <;> simp [haddr, hfrom]
  · have hall : ¬ (mf.addr ≠ kernelLaunchAddr ∧ mf.fromNdp = true ∧ mf.bi = false) :=
      fun h => hndp ⟨h.1, h.2.1⟩
    simp only [hndp, hall, if_false, true_iff]
    exact fun ha hf => absurd ⟨ha, hf⟩ hndp

theorem length_setBuffer {buffers : Int → Int → List Message} {n : Nat} {id out : Int}
    {queue : List Message} (h : ∀ i j, (buffers i j).length ≤ n) (hq : queue.length ≤ n) :
    ∀ i j, (setBuffer buffers id out queue i j).length ≤ n := by
  intro i j
  unfold setBuffer
  by_cases hi : i = id
  · subst hi
    rw [Function.update_self]
    by_cases hj : j = out
    · subst hj
      rwa [Function.update_self]
    · rw [Function.update_of_ne hj]
      exact h i j
  · rw [Function.update_of_ne hi]
    exact h i j

theorem length_handleFrom_le (buffers : Int → Int → List Message) (ports outs rr : Nat)
    (hasBuffer : Int → Message → Bool) (i j : Int) :
    (handleFrom buffers ports outs rr hasBuffer i j).length ≤ (buffers i j).length := by
  unfold handleFrom
  split
  · cases chosen (buffers i) outs rr (hasBuffer i) with
    | none => exact le_rfl
    | some n =>
      dsimp only
      by_cases hj : j = n
      · subst hj
        rw [Function.update_self, List.length_tail]
        omega
      · rw [Function.update_of_ne hj]
  · exact le_rfl

theorem Within.step (h : link.Within cfg) {op : Op} (hm : Meets cfg op)
    (hs : link.step cfg op = .ok link') : link'.Within cfg := by
  cases op with
  | host hostId nodeNo mf =>
    obtain ⟨has, hhas, hs⟩ := bind_eq_ok.mp hs
    cases has with
    | false =>
      cases hs
      exact h
    | true =>
      simp only [hasBufferFromHost] at hhas
      simp only [if_true, pushFromHost] at hs
      split at hhas
      case isTrue hin =>
        rw [if_pos hin] at hs
        cases hs
        have hroom := of_decide_eq_true (Except.ok.inj hhas)
        exact ⟨length_setBuffer h.host (by rw [List.length_append]; exact hroom), h.m2ndp⟩
      case isFalse => cases hhas
  | memoryBuffer bufferId nodeNo mf =>
    obtain ⟨has, hhas, hs⟩ := bind_eq_ok.mp hs
    cases has with
    | false =>
      cases hs
      exact h
    | true =>
      simp only [hasBufferFromMemoryBuffer] at hhas
      simp only [if_true, pushFromMemoryBuffer,
        (pushed_eq_checked_iff bufferId nodeNo mf).mpr hm] at hs
      split at hhas
      case isTrue hin =>
        rw [if_pos hin] at hs
        cases hs
        have hroom := of_decide_eq_true (Except.ok.inj hhas)
        exact ⟨h.host, length_setBuffer h.m2ndp (by rw [List.length_append]; exact hroom)⟩
      case isFalse => cases hhas
  | cycle hasBuffer =>
    cases hs
    refine ⟨fun id out => ?_, fun id out => ?_⟩
    · exact (length_handleFrom_le link.fromHost _ _ _ _ id out).trans (h.host id out)
    · exact (length_handleFrom_le link.fromM2ndp _ _ _ (fun i => hasBuffer (cfg.hostPorts + i))
        id out).trans (h.m2ndp id out)

/-- The buffer that was asked is the one that is pushed to exactly for these messages, and if the
memory buffers send no others, no buffer exceeds its size. -/
theorem pushes_to_checked_buffer (cfg : SystemConfig) :
    (∀ bufferId nodeNo mf, pushedBuffer cfg bufferId nodeNo mf =
      checkedBuffer cfg bufferId nodeNo mf ↔ SameBuffer cfg nodeNo mf) ∧
    ∀ link, Run cfg (Meets cfg) link → link.Within cfg := by
  refine ⟨pushed_eq_checked_iff, fun link h => ?_⟩
  induction h with
  | start => exact ⟨fun _ _ => Nat.zero_le _, fun _ _ => Nat.zero_le _⟩
  | step _ _ meets hs ih => exact ih.step meets hs

/-- Two memory buffers with one NDP unit each; the top byte of an address is its device. -/
def twoBuffers : SystemConfig where
  numHosts := 1
  numM2ndps := 2
  linksPerHost := 1
  linksPerMemoryBuffer := 1
  cxlLinkBufferSize := 1
  numNdpUnits := 1
  ndpUnitsPerBuffer := 1
  l2dNumBanks := 1
  numChannels := 1
  channelIndexingPolicy := 0
  deviceMask := 0xff00000000000000#64
  channelMask := 0
  bankMask := 0

/-- The reply to a load of unit 0 from the memory of buffer 1. -/
def remoteReply : Message :=
  { Message.create 0 0x0100000000000000#64 .globalAccR .readReply with fromNdp := true, ndpId := 0 }

/-- The buffer that is asked stays empty, and the other one grows. -/
theorem reply_overflows : ∃ link, Run twoBuffers (fun _ => True) link ∧
    ¬ link.Within twoBuffers := by
  obtain ⟨first, second, hfirst, hsecond, hlen⟩ : ∃ first second,
      create.step twoBuffers (.memoryBuffer 1 0 remoteReply) = .ok first ∧
      first.step twoBuffers (.memoryBuffer 1 0 remoteReply) = .ok second ∧
      (second.fromM2ndp 1 1).length = 2 := ⟨_, _, rfl, rfl, rfl⟩
  refine ⟨second, .step (.step .start _ trivial hfirst) _ trivial hsecond, fun h => ?_⟩
  have hle := h.m2ndp 1 1
  rw [hlen] at hle
  exact absurd hle (by decide)

end CxlLink

end NdpSim
