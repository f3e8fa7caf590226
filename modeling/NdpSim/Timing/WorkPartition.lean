import NdpSim.Timing.Barrier

/-!
# Who executes which packet

A launch covers the packets of an address range, and every packet belongs to one NDP unit. The
functional runner and the generator of the timing model enumerate the packets of a unit in loops
of their own: one counts packets in 32 bits, the other steps through 64-bit addresses.
-/
namespace NdpSim

/-- `get_matched_unit_id`, with the stride of 256 bytes. -/
def getMatchedUnitId (numNdpUnits addr : Nat) : Nat := addr / 256 % numNdpUnits

/-- What a request asks for: its type, body, address and offset. -/
abbrev Shape := RequestType × Nat × BitVec 64 × BitVec 64

/-- A launch of a kernel with `numKernelBodies` bodies on `numNdpUnits` units. -/
structure WorkLoad where
  numNdpUnits : Nat
  numKernelBodies : Nat
  baseAddr : BitVec 64
  size : BitVec 64

namespace WorkLoad

variable (w : WorkLoad)

/-! ## The functional runner -/

/-- The packet loop of `NdpUnit::Run` for body `k` on unit `id`, at most `fuel` iterations: the
32-bit `count`, whether the initializer is still to be executed, and what was executed. -/
def runPackets (id k : Nat) : Nat → BitVec 32 → Bool × List Shape → Option (Bool × List Shape)
  | 0, _, _ => none
  | fuel + 1, count, (first, out) =>
    if (count * 32#32).toNat < w.size.toNat then
      let targetAddr := w.baseAddr + (count * 32#32).setWidth 64
      if getMatchedUnitId w.numNdpUnits targetAddr.toNat ≠ id then
        runPackets id k fuel (count + 1) (first, out)
      else
        let out :=
          if first then out ++ [(.initializer, 0, w.baseAddr, BitVec.ofNat 64 id)] else out
        runPackets id k fuel (count + 1)
          (false, out ++ [(.kernelBody, k, targetAddr, targetAddr - w.baseAddr)])
    else some (first, out)

/-- `NdpUnit::Run` on unit `id`: what it executes, if no packet loop takes `fuel` iterations. -/
def run (id fuel : Nat) : Option (List Shape) := do
  let (first, out) ← (List.range w.numKernelBodies).foldlM
    (fun s k => w.runPackets id k fuel 0 s) (true, [])
  return if first then out else out ++ [(.finalizer, 0, w.baseAddr, BitVec.ofNat 64 id)]

/-! ## The generator -/

/-- The loop `for (addr = base; addr < base + size; addr += PACKET_SIZE)` of `launch`. -/
def launchPackets : Nat → BitVec 64 → Option (List (BitVec 64))
  | 0, _ => none
  | fuel + 1, addr =>
    if addr.toNat < (w.baseAddr + w.size).toNat then
      (launchPackets fuel (addr + 32#64)).map (addr :: ·)
    else some []

/-- The launch as the generator sees it. -/
def kinfo (launchId kernelId smemSize : Nat) : KernelLaunchInfo :=
  ⟨launchId, kernelId, w.baseAddr.toNat, w.size.toNat, smemSize⟩

/-- The configuration of the generator of unit `ndpId`. -/
def unitConfig (cfg : GeneratorConfig) (ndpId : Nat) : GeneratorConfig :=
  { cfg with
    ndpId := ndpId
    checkAddrMatch := fun addr =>
      getMatchedUnitId w.numNdpUnits addr == ndpId % w.numNdpUnits
    numKernelBodies := fun _ => w.numKernelBodies }

/-- What the generator of unit `ndpId` generates, numbered from `reqId`. -/
def requests (cfg : GeneratorConfig) (launchId kernelId smemSize reqId ndpId : Nat) :
    List Shape :=
  (UThreadGenerator.launchRequests (w.unitConfig cfg ndpId) (w.kinfo launchId kernelId smemSize)
    reqId).map History.shape

/-! ## The partition -/

/-- The packet addresses of the launch. -/
def packets : List Nat := UThreadGenerator.packets w.baseAddr.toNat w.size.toNat

/-- The packets of a unit. -/
def owned (id : Nat) : List Nat :=
  w.packets.filter fun addr => getMatchedUnitId w.numNdpUnits addr == id

/-- The request for one packet in one body. -/
def bodyShape (k addr : Nat) : Shape :=
  (.kernelBody, k, BitVec.ofNat 64 addr, BitVec.ofNat 64 (addr - w.baseAddr.toNat))

/-- Both loops end, a unit executes what its generator generates, and over the units of a device
(the unit numbers from `device * numNdpUnits` on) every packet comes up once in every body. A unit
has an initializer and a finalizer if it has a packet. -/
structure Partitioned : Prop where
  launchEnds : ∃ fuel, w.launchPackets fuel w.baseAddr = some (w.packets.map (BitVec.ofNat 64))
  runAgrees : ∃ fuel, ∀ id < w.numNdpUnits, ∀ cfg launchId kernelId smemSize reqId,
    w.run id fuel = some (w.requests cfg launchId kernelId smemSize reqId id)
  once : ∀ cfg launchId kernelId smemSize reqId device,
    ((Multiset.range w.numNdpUnits).bind fun id =>
      ((w.requests cfg launchId kernelId smemSize reqId (device * w.numNdpUnits + id)).filter
        fun r => r.1 = .kernelBody : Multiset Shape)) =
      (Multiset.range w.numKernelBodies).bind fun k => (w.packets.map (w.bodyShape k) : Multiset _)
  ends : ∀ cfg launchId kernelId smemSize reqId device, ∀ id < w.numNdpUnits,
    ∀ t ∈ [RequestType.initializer, .finalizer],
      (∃ r ∈ w.requests cfg launchId kernelId smemSize reqId (device * w.numNdpUnits + id),
        r.1 = t) ↔ ∃ addr ∈ w.packets, getMatchedUnitId w.numNdpUnits addr = id

/-- The effect of the packet loop of body `k` on unit `id` with the packets `addrs`. -/
def advance (id k : Nat) (addrs : List Nat) (s : Bool × List Shape) : Bool × List Shape :=
  if addrs = [] then s
  else (false, (if s.1 then s.2 ++ [(.initializer, 0, w.baseAddr, BitVec.ofNat 64 id)] else s.2) ++
    addrs.map (w.bodyShape k))

theorem advance_cons (id k addr : Nat) (addrs : List Nat) (s : Bool × List Shape) :
    w.advance id k (addr :: addrs) s = w.advance id k addrs (w.advance id k [addr] s) := by
  cases addrs with
  | nil => simp [advance]
  | cons a as => simp [advance]

section Loops

variable {w} {n : Nat} (hn : w.size.toNat = 32 * n) (hfit : w.baseAddr.toNat + 32 * n < 2 ^ 64)

include hn hfit

theorem packets_eq : w.packets = (List.range n).map fun i => w.baseAddr.toNat + 32 * i := by
  rw [packets, UThreadGenerator.packets, hn, if_pos hfit, packetSize, Nat.mul_div_cancel_left _
    (by decide)]

theorem launchPackets_from {i d fuel : Nat} (hd : i + d = n) (hfuel : d < fuel) :
    w.launchPackets fuel (BitVec.ofNat 64 (w.baseAddr.toNat + 32 * i)) =
      some ((List.range' i d).map fun i => BitVec.ofNat 64 (w.baseAddr.toNat + 32 * i)) := by
  have hend : (w.baseAddr + w.size).toNat = w.baseAddr.toNat + 32 * n := by
    rw [BitVec.toNat_add, hn, Nat.mod_eq_of_lt hfit]
  have haddr : (BitVec.ofNat 64 (w.baseAddr.toNat + 32 * i)).toNat = w.baseAddr.toNat + 32 * i := by
    rw [BitVec.toNat_ofNat, Nat.mod_eq_of_lt (by omega)]
  induction d generalizing i fuel with
  | zero =>
    obtain ⟨fuel, rfl⟩ := Nat.exists_eq_add_of_lt hfuel
    rw [Nat.zero_add, launchPackets, if_neg (by omega)]
    rfl
  | succ d ih =>
    obtain ⟨fuel, rfl⟩ := Nat.exists_eq_add_of_lt hfuel
    rw [launchPackets, if_pos (by omega), List.range'_succ, List.map_cons]
    have hnext : BitVec.ofNat 64 (w.baseAddr.toNat + 32 * i) + 32#64 =
        BitVec.ofNat 64 (w.baseAddr.toNat + 32 * (i + 1)) := by
      rw [← BitVec.ofNat_add]
      congr 1
    rw [hnext, ih (by omega) (by omega)]
    · rfl
    · rw [BitVec.toNat_ofNat, Nat.mod_eq_of_lt (by omega)]

/-- While the packet count fits into 32 bits, the loop visits the packets of the unit. -/
theorem runPackets_from (hsmall : n < 2 ^ 27) (id k : Nat) {i d fuel : Nat} (hd : i + d = n)
    (hfuel : d < fuel) (s : Bool × List Shape) :
    w.runPackets id k fuel (BitVec.ofNat 32 i) s =
      some (w.advance id k (((List.range' i d).map fun i => w.baseAddr.toNat + 32 * i).filter
        fun addr => getMatchedUnitId w.numNdpUnits addr == id) s) := by
  induction d generalizing i fuel s with
  | zero =>
    obtain ⟨fuel, rfl⟩ := Nat.exists_eq_add_of_lt hfuel
    have hcount : (BitVec.ofNat 32 i * 32#32).toNat = 32 * i := by
      simp only [BitVec.toNat_mul, BitVec.toNat_ofNat]
      omega
    rw [Nat.zero_add, runPackets, hcount, if_neg (by omega)]
    rfl
  | succ d ih =>
    obtain ⟨fuel, rfl⟩ := Nat.exists_eq_add_of_lt hfuel
    have hcount : (BitVec.ofNat 32 i * 32#32).toNat = 32 * i := by
      simp only [BitVec.toNat_mul, BitVec.toNat_ofNat]
      omega
    have htarget : w.baseAddr + (BitVec.ofNat 32 i * 32#32).setWidth 64 =
        BitVec.ofNat 64 (w.baseAddr.toNat + 32 * i) := by
      apply BitVec.eq_of_toNat_eq
      simp only [BitVec.toNat_add, BitVec.toNat_setWidth, hcount, BitVec.toNat_ofNat]
      omega
    have hoffset : BitVec.ofNat 64 (w.baseAddr.toNat + 32 * i) - w.baseAddr =
        BitVec.ofNat 64 (w.baseAddr.toNat + 32 * i - w.baseAddr.toNat) := by
      apply BitVec.eq_of_toNat_eq
      simp only [BitVec.toNat_sub, BitVec.toNat_ofNat]
      omega
    have haddr : (BitVec.ofNat 64 (w.baseAddr.toNat + 32 * i)).toNat =
        w.baseAddr.toNat + 32 * i := by
      rw [BitVec.toNat_ofNat, Nat.mod_eq_of_lt (by omega)]
    have hnext : BitVec.ofNat 32 i + 1 = BitVec.ofNat 32 (i + 1) := by
      rw [BitVec.ofNat_add]
      rfl
    rw [runPackets, hcount, if_pos (by omega), List.range'_succ, List.map_cons]
    dsimp only
    rw [htarget, haddr, hnext, hoffset]
    by_cases hm : getMatchedUnitId w.numNdpUnits (w.baseAddr.toNat + 32 * i) = id
    · rw [if_neg (not_not_intro hm), ih (by omega) (by omega),
        List.filter_cons_of_pos (by simpa using hm), advance_cons]
      simp [advance, bodyShape]
    · rw [if_pos hm, ih (by omega) (by omega), List.filter_cons_of_neg (by simpa using hm)]

theorem runPackets_owned (hsmall : n < 2 ^ 27) (id k : Nat) {fuel : Nat} (hfuel : n < fuel)
    (s : Bool × List Shape) :
    w.runPackets id k fuel 0 s = some (w.advance id k (w.owned id) s) := by
  have h := runPackets_from hn hfit hsmall id k (Nat.zero_add n) hfuel s
  rw [← List.range_eq_range', ← packets_eq hn hfit] at h
  exact h

/-- The bodies after the initializer was executed. -/
theorem foldlM_runPackets (hsmall : n < 2 ^ 27) (id : Nat) {fuel : Nat} (hfuel : n < fuel)
    (ks : List Nat) (out : List Shape) :
    ks.foldlM (fun s k => w.runPackets id k fuel 0 s) (false, out) =
      some (false, out ++ ks.flatMap fun k => (w.owned id).map (w.bodyShape k)) := by
  induction ks generalizing out with
  | nil => simp
  | cons k ks ih =>
    have hstep : w.advance id k (w.owned id) (false, out) =
        (false, out ++ (w.owned id).map (w.bodyShape k)) := by
      unfold advance
      split
      case isTrue hnil => simp [hnil]
      case isFalse => rfl
    rw [List.foldlM_cons, runPackets_owned hn hfit hsmall id k hfuel, hstep]
    change ks.foldlM _ _ = _
    rw [ih, List.flatMap_cons, List.append_assoc]

end Loops

/-! ## The generator's requests -/

section Requests

variable {w} (cfg : GeneratorConfig) (launchId kernelId smemSize reqId : Nat)

theorem matched_unitConfig (ndpId : Nat) :
    UThreadGenerator.matched (w.unitConfig cfg ndpId) (w.kinfo launchId kernelId smemSize) =
      w.owned (ndpId % w.numNdpUnits) := rfl

/-- A unit with packets has an initializer, all its packets in every body, and a finalizer. -/
theorem requests_eq (hB : 0 < w.numKernelBodies) (ndpId : Nat) :
    w.requests cfg launchId kernelId smemSize reqId ndpId =
      if w.owned (ndpId % w.numNdpUnits) = [] then []
      else (.initializer, 0, w.baseAddr, BitVec.ofNat 64 ndpId) ::
        ((List.range w.numKernelBodies).flatMap fun k =>
          (w.owned (ndpId % w.numNdpUnits)).map (w.bodyShape k)) ++
        [(.finalizer, 0, w.baseAddr, BitVec.ofNat 64 ndpId)] := by
  have hshape := History.shape_launchRequests (w.unitConfig cfg ndpId)
    (w.kinfo launchId kernelId smemSize) reqId hB
  have hbase : BitVec.ofNat 64 (w.kinfo launchId kernelId smemSize).baseAddr = w.baseAddr := by
    rw [kinfo, BitVec.ofNat_toNat, BitVec.setWidth_eq]
  rw [requests, hshape, History.expected, matched_unitConfig, hbase]
  rfl

theorem bodies_requests (hB : 0 < w.numKernelBodies) (ndpId : Nat) :
    (w.requests cfg launchId kernelId smemSize reqId ndpId).filter (fun r => r.1 = .kernelBody) =
      (List.range w.numKernelBodies).flatMap fun k =>
        (w.owned (ndpId % w.numNdpUnits)).map (w.bodyShape k) := by
  rw [requests_eq _ _ _ _ _ hB]
  split
  case isTrue hnil => simp [hnil]
  case isFalse =>
    have hbody : ∀ r ∈ (List.range w.numKernelBodies).flatMap fun k =>
        (w.owned (ndpId % w.numNdpUnits)).map (w.bodyShape k), r.1 = .kernelBody := by
      intro r hr
      obtain ⟨k, -, hr⟩ := List.mem_flatMap.mp hr
      obtain ⟨addr, -, rfl⟩ := List.mem_map.mp hr
      rfl
    simp only [List.cons_append, List.filter_cons, List.filter_append]
    rw [List.filter_eq_self.mpr (by simpa using hbody)]
    simp

end Requests

/-- Sorting packets by unit loses none and doubles none. -/
theorem bind_owned (hN : 0 < w.numNdpUnits) :
    ((Multiset.range w.numNdpUnits).bind fun id => (w.owned id : Multiset Nat)) = w.packets := by
  ext addr
  have hcount (id : Nat) : (w.owned id : Multiset Nat).count addr =
      if getMatchedUnitId w.numNdpUnits addr = id then (w.packets : Multiset Nat).count addr
      else 0 := by
    have hfilter : (w.owned id : Multiset Nat) = (w.packets : Multiset Nat).filter
        fun addr => getMatchedUnitId w.numNdpUnits addr = id := by
      rw [Multiset.filter_coe]
      congr 1
    rw [hfilter, Multiset.count_filter]
  rw [Multiset.count_bind, Multiset.map_congr rfl fun id _ => hcount id]
  have hmem : getMatchedUnitId w.numNdpUnits addr ∈ Finset.range w.numNdpUnits :=
    Finset.mem_range.mpr (Nat.mod_lt _ hN)
  exact (Finset.sum_ite_eq _ _ _).trans (if_pos hmem)

variable {w}

theorem device_mod (device : Nat) {id : Nat} (hid : id < w.numNdpUnits) :
    (device * w.numNdpUnits + id) % w.numNdpUnits = id := by
  rw [Nat.mul_add_mod_self_right, Nat.mod_eq_of_lt hid]

theorem bodies_once (cfg : GeneratorConfig) (launchId kernelId smemSize reqId : Nat)
    (hN : 0 < w.numNdpUnits) (hB : 0 < w.numKernelBodies) (device : Nat) :
    ((Multiset.range w.numNdpUnits).bind fun id =>
      ((w.requests cfg launchId kernelId smemSize reqId (device * w.numNdpUnits + id)).filter
        fun r => r.1 = .kernelBody : Multiset Shape)) =
      (Multiset.range w.numKernelBodies).bind
        fun k => (w.packets.map (w.bodyShape k) : Multiset _) := by
  have hunit : ∀ id ∈ Multiset.range w.numNdpUnits,
      ((w.requests cfg launchId kernelId smemSize reqId (device * w.numNdpUnits + id)).filter
        fun r => r.1 = .kernelBody : Multiset Shape) =
      (Multiset.range w.numKernelBodies).bind
        fun k => (w.owned id : Multiset Nat).map (w.bodyShape k) := by
    intro id hid
    rw [bodies_requests _ _ _ _ _ hB, device_mod device (Multiset.mem_range.mp hid)]
    exact (Multiset.coe_bind _ _).symm
  rw [Multiset.bind_congr hunit, Multiset.bind_bind]
  refine Multiset.bind_congr fun k _ => ?_
  rw [← Multiset.map_bind, bind_owned w hN]
  rfl

theorem run_agrees {n : Nat} (hn : w.size.toNat = 32 * n)
    (hfit : w.baseAddr.toNat + 32 * n < 2 ^ 64) (hsmall : n < 2 ^ 27)
    (hB : 0 < w.numKernelBodies) {id : Nat} (hid : id < w.numNdpUnits) (cfg : GeneratorConfig)
    (launchId kernelId smemSize reqId : Nat) :
    w.run id (n + 1) = some (w.requests cfg launchId kernelId smemSize reqId id) := by
  rw [requests_eq _ _ _ _ _ hB, Nat.mod_eq_of_lt hid, run]
  by_cases hnil : w.owned id = []
  · have hsame (ks : List Nat) : ks.foldlM (fun s k => w.runPackets id k (n + 1) 0 s) (true, []) =
        some (true, []) := by
      induction ks with
      | nil => rfl
      | cons k ks ih =>
        rw [List.foldlM_cons, runPackets_owned hn hfit hsmall id k (Nat.lt_succ_self n), hnil]
        exact ih
    rw [hsame, if_pos hnil]
    rfl
  · have hrange : List.range w.numKernelBodies = 0 :: List.range' 1 (w.numKernelBodies - 1) := by
      rw [List.range_eq_range', ← Nat.sub_add_cancel hB, List.range'_succ]
      simp
    rw [hrange, List.foldlM_cons,
      runPackets_owned hn hfit hsmall id 0 (Nat.lt_succ_self n), if_neg hnil]
    change (List.foldlM _ (w.advance id 0 (w.owned id) (true, [])) _ >>= _) = _
    rw [advance, if_neg hnil, foldlM_runPackets hn hfit hsmall id (Nat.lt_succ_self n)]
    simp

/-- A size of 2^32 or more is never reached by a packet count of 32 bits. -/
theorem runPackets_diverges (hbig : 2 ^ 32 ≤ w.size.toNat) (id k fuel : Nat) (count : BitVec 32)
    (s : Bool × List Shape) : w.runPackets id k fuel count s = none := by
  induction fuel generalizing count s with
  | zero => rfl
  | succ fuel ih =>
    have hlt : (count * 32#32).toNat < w.size.toNat := lt_of_lt_of_le (count * 32#32).isLt hbig
    rw [runPackets, if_pos hlt]
    dsimp only
    split
    · exact ih _ _
    · exact ih _ _

theorem run_diverges (hbig : 2 ^ 32 ≤ w.size.toNat) (hB : 0 < w.numKernelBodies) (id fuel : Nat) :
    w.run id fuel = none := by
  have hrange : List.range w.numKernelBodies = 0 :: List.range' 1 (w.numKernelBodies - 1) := by
    rw [List.range_eq_range', ← Nat.sub_add_cancel hB, List.range'_succ]
    simp
  rw [run, hrange, List.foldlM_cons, runPackets_diverges hbig]
  rfl

theorem not_partitioned (hbig : 2 ^ 32 ≤ w.size.toNat) (hN : 0 < w.numNdpUnits)
    (hB : 0 < w.numKernelBodies) (cfg : GeneratorConfig) : ¬ w.Partitioned := by
  intro h
  obtain ⟨fuel, hrun⟩ := h.runAgrees
  have hsome := hrun 0 hN cfg 0 0 0 0
  rw [run_diverges hbig hB] at hsome
  cases hsome

/-- The work is partitioned among the units, in both models alike, exactly if the size of the
launch is below 2^32: beyond that the functional loop does not end. -/
theorem partitioned_iff (cfg : GeneratorConfig) (hN : 0 < w.numNdpUnits)
    (hB : 0 < w.numKernelBodies) (hsize : w.size.toNat % packetSize = 0)
    (hfit : w.baseAddr.toNat + w.size.toNat < 2 ^ 64) :
    w.Partitioned ↔ w.size.toNat < 2 ^ 32 := by
  constructor
  · intro h
    by_contra hbig
    exact not_partitioned (by omega) hN hB cfg h
  intro hlt
  obtain ⟨n, hn⟩ : ∃ n, w.size.toNat = 32 * n := ⟨w.size.toNat / 32, by
    rw [packetSize] at hsize
    omega⟩
  rw [hn] at hfit hlt
  have hsmall : n < 2 ^ 27 := by omega
  refine ⟨⟨n + 1, ?_⟩, ⟨n + 1, ?_⟩, ?_, ?_⟩
  · have h := launchPackets_from hn hfit (Nat.zero_add n) (Nat.lt_succ_self n)
    rw [Nat.mul_zero, Nat.add_zero, BitVec.ofNat_toNat, BitVec.setWidth_eq] at h
    rw [h, packets_eq hn hfit, List.map_map, List.range_eq_range']
    rfl
  · intro id hid cfg launchId kernelId smemSize reqId
    exact run_agrees hn hfit hsmall hB hid cfg launchId kernelId smemSize reqId
  · intro cfg launchId kernelId smemSize reqId device
    exact bodies_once cfg launchId kernelId smemSize reqId hN hB device
  · intro cfg launchId kernelId smemSize reqId device id hid t ht
    have howned : (∃ addr ∈ w.packets, getMatchedUnitId w.numNdpUnits addr = id) ↔
        w.owned id ≠ [] := by
      simp [owned, List.filter_eq_nil_iff]
    rw [howned, requests_eq _ _ _ _ _ hB, device_mod device hid]
    by_cases hnil : w.owned id = []
    · simp [hnil]
    · refine iff_of_true ?_ hnil
      rw [if_neg hnil]
      rcases List.mem_pair.mp ht with rfl | rfl
      · exact ⟨_, List.mem_append_left _ List.mem_cons_self, rfl⟩
      · exact ⟨_, List.mem_append_right _ List.mem_cons_self, rfl⟩

/-- A launch of `size` bytes at address 0, with one body, on two units. -/
def sample (size : Nat) : WorkLoad := ⟨2, 1, 0, BitVec.ofNat 64 size⟩

def sampleConfig : GeneratorConfig := ⟨0, fun _ => true, ∅, fun _ => 1, 0, 0, false, false, 0⟩

theorem partitioned_iff_small : (sample 512).Partitioned :=
  (partitioned_iff sampleConfig (by decide) (by decide) (by decide) (by decide)).mpr (by decide)

/-- The functional runner never comes to the end of a launch of 2^32 bytes. -/
theorem not_partitioned_large : ¬ (sample (2 ^ 32)).Partitioned :=
  not_partitioned (by decide) (by decide) (by decide) sampleConfig

end WorkLoad

end NdpSim
