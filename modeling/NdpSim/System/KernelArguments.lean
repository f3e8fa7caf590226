import NdpSim.Functional.ScalarAccess
import NdpSim.Isa.LaneBits
import NdpSim.System.LaunchLine
import NdpSim.Timing.UThreadGenerator

/-!
# Kernel arguments

`NdpUnit::Run` and `UThreadGenerator::launch` put the arguments of a launch into a new scratchpad:
four integer arguments in a packet, and the floating-point arguments in the packet behind them.
-/
namespace NdpSim

open Library VectorData

/-- `HashMemoryMap(base, size)` -/
def HashMemoryMap.create (base : Nat) (size : BitVec 64) : HashMemoryMap :=
  ⟨base, size.toNat, none, fun _ => none⟩

namespace ParsedLaunch

/-- An element of the integer array. -/
def arg (info : ParsedLaunch) (i : Nat) : Except Fault (BitVec 64) :=
  if i < maxNrIntArg then .ok (info.args.getD i 0) else .error .undefined

def floatArg (info : ParsedLaunch) (i : Nat) : Except Fault F32 :=
  if i < maxNrFloatArg then .ok (info.floatArgs.getD i 0) else .error .undefined

def numArgs (info : ParsedLaunch) : Int :=
  toInt (doubles info.argSize - BitVec.ofInt 64 info.numFloatArgs).toNat

def numArgsPerPacket : Nat := packetSize / doubleSize

/-- How often the loop over the packets runs: once also if there are no arguments. -/
def argPackets (info : ParsedLaunch) : Nat :=
  ((info.numArgs - 1).tdiv numArgsPerPacket + 1).toNat

def spadAddr (outter : Nat) : BitVec 64 := BitVec.ofNat 64 (scratchpadBase + outter * packetSize)

section Packets

variable [FloatOps]

/-- A packet of integer arguments. The loop stops behind the last one. -/
def intPacket (info : ParsedLaunch) (outter : Nat) : Except Fault VectorData :=
  ((ofSewLmul 64 8).setType .int64).setLanes (List.range numArgsPerPacket) fun inner => do
    let offset := outter * numArgsPerPacket + inner
    if (offset : Int) ≥ info.numArgs then return none
    else return some (.long (← info.arg offset))

def floatPacket (info : ParsedLaunch) : Except Fault VectorData :=
  ((ofSewLmul 32 8).setType .float32).setLanes (List.range info.numFloatArgs.toNat) fun floatIdx =>
    do return some (.float (← info.floatArg floatIdx))

/-- The set-up that `Run` and `launch` share. -/
def storeArguments (info : ParsedLaunch) (scratchpadMap : HashMemoryMap) :
    Except Fault HashMemoryMap := do
  let scratchpadMap ← (List.range info.argPackets).foldlM
    (fun map outter => do map.store (spadAddr outter) (← info.intPacket outter)) scratchpadMap
  if info.numFloatArgs > 0 then
    if ¬ info.numFloatArgs ≤ maxNrFloatArg then throw .assertion
    scratchpadMap.store (spadAddr info.argPackets) (← info.floatPacket)
  else return scratchpadMap

end Packets

end ParsedLaunch

section SetUp

variable [FloatOps]

/-- The scratchpad in `NdpUnit::Run`; the size is a 32-bit product. -/
def NdpUnit.scratchpadMap (spadSize : Int) (info : ParsedLaunch) : Except Fault HashMemoryMap := do
  if ¬ info.smemSize ≤ BitVec.ofInt 64 (toInt (spadSize * 1024)) then throw .assertion
  info.storeArguments (.create scratchpadBase info.smemSize)

/-- The scratchpad in `UThreadGenerator::launch`, empty for a kernel that is not registered. -/
def UThreadGenerator.scratchpadMap (cfg : GeneratorConfig) (info : ParsedLaunch) :
    Except Fault HashMemoryMap := do
  if ¬ info.smemSize ≤ BitVec.ofInt 64 cfg.spadSize then throw .assertion
  let scratchpadMap := HashMemoryMap.create scratchpadBase info.smemSize
  if ¬ info.size.toNat % packetSize = 0 then throw .assertion
  if (BitVec.ofInt 64 info.kernelId).toNat ∉ cfg.registeredFunctions then return scratchpadMap
  info.storeArguments scratchpadMap

theorem NdpUnit.scratchpadMap_eq_ok_iff {spadSize : Int} {info : ParsedLaunch}
    {map : HashMemoryMap} : NdpUnit.scratchpadMap spadSize info = .ok map ↔
      info.smemSize ≤ BitVec.ofInt 64 (toInt (spadSize * 1024)) ∧
        info.storeArguments (.create scratchpadBase info.smemSize) = .ok map := by
  rw [NdpUnit.scratchpadMap]
  by_cases hle : info.smemSize ≤ BitVec.ofInt 64 (toInt (spadSize * 1024))
  · rw [if_neg (not_not_intro hle)]
    exact (and_iff_right hle).symm
  · rw [if_pos hle]
    exact ⟨nofun, fun h => absurd h.1 hle⟩

theorem UThreadGenerator.scratchpadMap_eq_ok_iff {cfg : GeneratorConfig} {info : ParsedLaunch}
    {map : HashMemoryMap} : UThreadGenerator.scratchpadMap cfg info = .ok map ↔
      info.smemSize ≤ BitVec.ofInt 64 cfg.spadSize ∧ info.size.toNat % packetSize = 0 ∧
        (if (BitVec.ofInt 64 info.kernelId).toNat ∈ cfg.registeredFunctions then
            info.storeArguments (.create scratchpadBase info.smemSize)
          else .ok (.create scratchpadBase info.smemSize)) = .ok map := by
  rw [UThreadGenerator.scratchpadMap]
  by_cases hle : info.smemSize ≤ BitVec.ofInt 64 cfg.spadSize
  · rw [if_neg (not_not_intro hle), and_iff_right hle]
    by_cases hsize : info.size.toNat % packetSize = 0
    · rw [and_iff_right hsize, if_neg (not_not_intro hsize), ite_not]
      rfl
    · rw [if_pos hsize]
      exact ⟨nofun, fun h => absurd h.1 hsize⟩
  · rw [if_pos hle]
    exact ⟨nofun, fun h => absurd h.1 hle⟩

end SetUp

/-! ## Packets of arguments -/

namespace ParsedLaunch

section Packets

variable [FloatOps] {info : ParsedLaunch} {n : Nat}

/-- A packet has its arguments in a row. -/
theorem intPacket_spec (hn : info.numArgs = n) (hle : n ≤ maxNrIntArg) (outter : Nat) :
    ∃ v, info.intPacket outter = .ok v ∧ v.type = .int64 ∧ v.doubleReg = false ∧
      ∀ j < numArgsPerPacket, outter * numArgsPerPacket + j < n →
        v.get .int64 j = .ok (.long (info.args.getD (outter * numArgsPerPacket + j) 0)) := by
  have hf : ∀ j ∈ List.range numArgsPerPacket, (do
      let offset := outter * numArgsPerPacket + j
      if (offset : Int) ≥ info.numArgs then return none
      else return some (.long (← info.arg offset))) =
      Except.ok (if outter * numArgsPerPacket + j < n then
        some (Elem.long (info.args.getD (outter * numArgsPerPacket + j) 0)) else none) := by
    intro j hj
    dsimp only
    rw [hn]
    by_cases hlt : outter * numArgsPerPacket + j < n
    · rw [if_neg (by omega), if_pos hlt, arg, if_pos (by omega)]
      rfl
    · rw [if_pos (by omega), if_neg hlt]
      rfl
  have hroom : ∀ j < numArgsPerPacket, ((ofSewLmul 64 8).setType .int64).Room .int64 j := by decide
  have hg : ∀ j ∈ List.range numArgsPerPacket, ∀ e, (if outter * numArgsPerPacket + j < n then
      some (Elem.long (info.args.getD (outter * numArgsPerPacket + j) 0)) else none) = some e →
      e.type = .int64 ∧ ((ofSewLmul 64 8).setType .int64).Room .int64 j := by
    intro j hj e he
    split at he
    · cases he
      exact ⟨rfl, hroom j (List.mem_range.mp hj)⟩
    · cases he
  have hlong : ((ofSewLmul 64 8).setType .int64).type = .int64 := rfl
  obtain ⟨v, hv, htype, hshape, hget⟩ := setLanes_get hlong hf hg
  refine ⟨v, hv, htype, hshape.doubleReg.trans (by decide), fun j hj hlt => ?_⟩
  rw [hget, if_pos (List.mem_range.mpr hj), if_pos hlt]
  rfl

theorem floatPacket_spec (hn : info.numFloatArgs = n) (hle : n ≤ maxNrFloatArg) :
    ∃ v, info.floatPacket = .ok v ∧ v.type = .float32 ∧ v.doubleReg = false ∧
      ∀ j < n, v.get .float32 j = .ok (.float (info.floatArgs.getD j 0)) := by
  have hf : ∀ j ∈ List.range n, (do return some (.float (← info.floatArg j))) =
      Except.ok (some (Elem.float (info.floatArgs.getD j 0))) := by
    intro j hj
    rw [floatArg, if_pos ((List.mem_range.mp hj).trans_le hle)]
    rfl
  have hroom : ∀ j < maxNrFloatArg, ((ofSewLmul 32 8).setType .float32).Room .float32 j := by decide
  have hg : ∀ j ∈ List.range n, ∀ e, some (Elem.float (info.floatArgs.getD j 0)) = some e →
      e.type = .float32 ∧ ((ofSewLmul 32 8).setType .float32).Room .float32 j := by
    intro j hj e he
    cases he
    exact ⟨rfl, hroom j ((List.mem_range.mp hj).trans_le hle)⟩
  have hfloat : ((ofSewLmul 32 8).setType .float32).type = .float32 := rfl
  obtain ⟨v, hv, htype, hshape, hget⟩ := setLanes_get hfloat hf hg
  refine ⟨v, ?_, htype, hshape.doubleReg.trans (by decide), fun j hj => ?_⟩
  · rw [floatPacket, hn, Int.toNat_natCast]
    exact hv
  · rw [hget, if_pos (List.mem_range.mpr hj)]
    rfl

end Packets

/-! ## The scratchpad -/

theorem toNat_spadAddr {i : Nat} (hi : i < 2 ^ 32) :
    (spadAddr i).toNat = scratchpadBase + i * packetSize := by
  rw [spadAddr, BitVec.toNat_ofNat, Nat.mod_eq_of_lt]
  rw [scratchpadBase, packetSize]
  omega

theorem spadAddr_ne {i j : Nat} (hi : i < 2 ^ 32) (hj : j < 2 ^ 32) (h : i ≠ j) :
    spadAddr i ≠ spadAddr j := by
  intro heq
  have hnat := congrArg BitVec.toNat heq
  rw [toNat_spadAddr hi, toNat_spadAddr hj, packetSize] at hnat
  omega

/-- The first packets of the scratchpad are those of `v`, and the other ones as before. -/
structure Filled (map : HashMemoryMap) (v : Nat → VectorData) (k : Nat) (map' : HashMemoryMap) :
    Prop where
  base : map'.base = map.base
  size : map'.size = map.size
  synthetic : map'.synthetic = map.synthetic
  data : ∀ i < k, map'.data (spadAddr i) = some (v i)
  others : ∀ a, (∀ i < k, spadAddr i ≠ a) → map'.data a = map.data a

theorem Filled.inRange {map map' : HashMemoryMap} {v : Nat → VectorData} {k : Nat}
    (h : Filled map v k map') (a : BitVec 64) : map'.inRange a ↔ map.inRange a := by
  rw [HashMemoryMap.inRange, HashMemoryMap.inRange, h.base, h.size]

/-- A packet behind the others. -/
theorem Filled.store {map map' : HashMemoryMap} {v : Nat → VectorData} {k : Nat}
    (h : Filled map v k map') (hempty : ∀ a, map.data a = none) (hrange : map.inRange (spadAddr k))
    (hk : k < 2 ^ 32) : ∃ map'', map'.store (spadAddr k) (v k) = .ok map'' ∧
      Filled map v (k + 1) map'' := by
  have hfresh : map'.data (spadAddr k) = none := by
    rw [h.others _ fun i hi => spadAddr_ne (by omega) hk (by omega), hempty]
  refine ⟨{ map' with data := Function.update map'.data (spadAddr k) (some (v k)) }, ?_,
    h.base, h.size, h.synthetic, fun i hi => ?_, fun a ha => ?_⟩
  · rw [HashMemoryMap.store_eq, if_pos ((h.inRange _).mpr hrange), hfresh]
    rfl
  · by_cases hik : i = k
    · rw [hik]
      exact Function.update_self ..
    · dsimp only
      rw [Function.update_of_ne (spadAddr_ne (by omega) hk hik)]
      exact h.data i (by omega)
  · dsimp only
    rw [Function.update_of_ne (ha k (by omega)).symm]
    exact h.others a fun i hi => ha i (by omega)

/-- Storing packets at the beginning of a new scratchpad. -/
theorem storePackets {map : HashMemoryMap} {packet : Nat → Except Fault VectorData}
    {v : Nat → VectorData} {k : Nat} (hpacket : ∀ i < k, packet i = .ok (v i))
    (hrange : ∀ i < k, map.inRange (spadAddr i)) (hempty : ∀ a, map.data a = none)
    (hk : k ≤ 2 ^ 32) : ∃ map',
      (List.range k).foldlM (fun map i => do map.store (spadAddr i) (← packet i)) map = .ok map' ∧
        Filled map v k map' := by
  induction k with
  | zero => exact ⟨map, rfl, rfl, rfl, rfl, nofun, fun a _ => rfl⟩
  | succ k ih =>
    obtain ⟨map₁, hmap₁, hfilled⟩ := ih (fun i hi => hpacket i (by omega))
      (fun i hi => hrange i (by omega)) (by omega)
    obtain ⟨map₂, hmap₂, hfilled'⟩ := hfilled.store hempty (hrange k (by omega)) (by omega)
    refine ⟨map₂, ?_, hfilled'⟩
    rw [List.range_succ, List.foldlM_append, hmap₁, ok_bind, List.foldlM_cons,
      hpacket k (by omega), ok_bind, hmap₂]
    rfl

/-- A load finds a packet of the scratchpad. -/
theorem Filled.load [FloatOps] {map map' : HashMemoryMap} {v : Nat → VectorData} {k i : Nat}
    (h : Filled map v k map') (hi : i < k) (hrange : map.inRange (spadAddr i))
    (hsynthetic : map.synthetic = none) (hdouble : (v i).doubleReg = false) (hk : i < 2 ^ 32)
    {mem : Memories} (hmem : mem.scratchpad = map') {addr : BitVec 64} {offset : Nat}
    (hoffset : offset < packetSize)
    (haddr : addr = BitVec.ofNat 64 (scratchpadBase + i * packetSize + offset)) :
    mem.load addr = .ok (v i) ∧ addr.toNat % packetSize = offset ∧ addr.toNat < 2 ^ 63 := by
  have hnat : addr.toNat = scratchpadBase + i * packetSize + offset := by
    rw [haddr, BitVec.toNat_ofNat, Nat.mod_eq_of_lt]
    rw [scratchpadBase]
    rw [packetSize] at hoffset ⊢
    omega
  have hformat : formatAddr addr = spadAddr i := by
    apply BitVec.eq_of_toNat_eq
    rw [toNat_formatAddr, toNat_spadAddr hk, hnat, scratchpadBase]
    rw [packetSize] at hoffset ⊢
    omega
  have hpad : checkScratchpad (spadAddr i) = true := by
    rw [checkScratchpad, toNat_spadAddr hk, Bool.and_eq_true, decide_eq_true_eq, decide_eq_true_eq,
      scratchpadMaxSize, packetSize]
    omega
  refine ⟨?_, ?_, ?_⟩
  · have hnone : map'.isSynthetic (spadAddr i) = false := by
      rw [HashMemoryMap.isSynthetic, h.synthetic, hsynthetic]
    rw [Memories.load, hformat, Memories.get, if_pos hpad, hmem, HashMemoryMap.load,
      if_neg (not_not_intro ((h.inRange _).mpr hrange)), hnone, h.data i hi]
    dsimp only
    rw [hdouble]
    rfl
  · rw [hnat, scratchpadBase, packetSize]
    rw [packetSize] at hoffset
    omega
  · rw [hnat, scratchpadBase, packetSize]
    rw [packetSize] at hoffset
    omega

end ParsedLaunch

namespace LaunchContent

open ParsedLaunch ScalarAccess Machine

variable (l : LaunchContent)

/-- The packets of integer arguments; there is always one. -/
def intPackets : Nat := max 1 ((l.ints.length + 3) / 4)

/-- The bytes the arguments take in the scratchpad. -/
def bytes : Nat :=
  if l.floats = [] then 8 * l.ints.length else packetSize * l.intPackets + 4 * l.floats.length

/-- Kernels that load from the scratchpad get the arguments, whatever their registers are like. -/
structure Delivers [FloatOps] (map : HashMemoryMap) : Prop where
  ints : ∀ {ρ : Type} (ops : FileOps ρ) (m : Machine ρ) (ld : NdpInstruction) (i : Nat)
    (x : BitVec 64), m.memories.scratchpad = map → ld.opcode = .ld → l.ints[i]? = some x →
    Addresses ops ld m (BitVec.ofNat 64 (scratchpadBase + 8 * i)) →
    Machine.registerWrites ops ld m = [.writeX .dest x]
  floats : ∀ {ρ : Type} (ops : FileOps ρ) (m : Machine ρ) (ld : NdpInstruction) (j : Nat)
    (x : F32), m.memories.scratchpad = map → ld.opcode = .flw → l.floats[j]? = some x →
    Addresses ops ld m
      (BitVec.ofNat 64 (scratchpadBase + packetSize * l.intPackets + 4 * j)) →
    Machine.registerWrites ops ld m = [.writeF .dest x]

variable {l}

theorem numArgs_parsed (hostId : Int) (htotal : l.total ≤ maxNrIntArg) :
    (l.parsed hostId).numArgs = l.ints.length := by
  have hle : l.total ≤ 61 := htotal
  have hsum : l.total = l.ints.length + l.floats.length := rfl
  have hdoubles : doubles (l.parsed hostId).argSize = BitVec.ofNat 64 l.total :=
    doubles_parsed (by rw [doubleSize]; omega)
  have hfloats : (l.parsed hostId).numFloatArgs = l.floats.length := rfl
  rw [numArgs, hdoubles, hfloats, BitVec.ofInt_natCast,
    BitVec.ofNat_sub_ofNat_of_le _ _ (by omega) (by omega), BitVec.toNat_ofNat, hsum,
    Nat.add_sub_cancel, Nat.mod_eq_of_lt (by omega)]
  exact toInt_of_range (by omega) (by omega)

theorem argPackets_parsed (hostId : Int) (htotal : l.total ≤ maxNrIntArg) :
    (l.parsed hostId).argPackets = l.intPackets := by
  rw [argPackets, numArgs_parsed hostId htotal, intPackets]
  cases l.ints.length with
  | zero => rfl
  | succ n =>
    have hdiv : ((n + 1 : Nat) - 1 : Int).tdiv numArgsPerPacket = (n / 4 : Nat) := by
      rw [Nat.cast_succ, Int.add_sub_cancel]
      rfl
    rw [hdiv]
    omega

/-- The packets the arguments are stored in are within a scratchpad that is large enough. -/
theorem inRange_packet (hl : l.WithinLimits) (hpos : 0 < l.smemSize.toNat)
    (hspace : scratchpadBase + l.smemSize.toNat < 2 ^ 64) (hle : l.bytes ≤ l.smemSize.toNat)
    {k : Nat} (hk : k < l.intPackets ∨ l.floats ≠ [] ∧ k = l.intPackets) :
    (HashMemoryMap.create scratchpadBase l.smemSize).inRange (spadAddr k) := by
  have hlimit : l.ints.length ≤ 61 := hl.1
  have hpackets : l.intPackets = max 1 ((l.ints.length + 3) / 4) := rfl
  have hroom : k * 32 < l.smemSize.toNat := by
    rw [bytes] at hle
    split at hle
    · have hlt := hk.resolve_right fun h => h.1 ‹_›
      omega
    · have hfloat := List.length_pos_of_ne_nil ‹_›
      rw [packetSize] at hle
      omega
  rw [HashMemoryMap.inRange, HashMemoryMap.create, toNat_spadAddr (by omega)]
  dsimp only
  rw [Nat.mod_eq_of_lt hspace, packetSize]
  omega

section SetUp

variable [FloatOps]

/-- The packets that are stored. -/
theorem exists_packets (hostId : Int) (hl : l.WithinLimits) (htotal : l.total ≤ maxNrIntArg) :
    ∃ v : Nat → VectorData, (∀ k, (v k).doubleReg = false) ∧
      (∀ k < l.intPackets, (l.parsed hostId).intPacket k = .ok (v k) ∧ (v k).type = .int64 ∧
        ∀ j < 4, ∀ x, l.ints[k * 4 + j]? = some x → (v k).get .int64 j = .ok (.long x)) ∧
      (l.parsed hostId).floatPacket = .ok (v l.intPackets) ∧
      (v l.intPackets).type = .float32 ∧
      ∀ j x, l.floats[j]? = some x → (v l.intPackets).get .float32 j = .ok (.float x) := by
  have hgetD {α : Type} {xs : List α} {i : Nat} {x : α} (d : α) (h : xs[i]? = some x) :
      i < xs.length ∧ xs.getD i d = x := by
    refine ⟨(List.getElem?_eq_some_iff.mp h).1, ?_⟩
    rw [List.getD_eq_getElem?_getD, h, Option.getD_some]
  choose w hw htype hdouble hget using fun k =>
    intPacket_spec (numArgs_parsed hostId htotal) hl.1 k
  obtain ⟨fw, hfw, hftype, hfdouble, hfget⟩ :=
    floatPacket_spec (rfl : (l.parsed hostId).numFloatArgs = l.floats.length) hl.2
  refine ⟨fun k => if k = l.intPackets then fw else w k, fun k => ?_, fun k hk => ?_, ?_, ?_, ?_⟩
  · dsimp only
    split
    · exact hfdouble
    · exact hdouble k
  · dsimp only
    rw [if_neg (by omega)]
    refine ⟨hw k, htype k, fun j hj x hx => ?_⟩
    obtain ⟨hlt, hx⟩ := hgetD 0 hx
    rw [hget k j hj hlt]
    exact congrArg (fun y => Except.ok (Elem.long y)) hx
  · dsimp only
    rw [if_pos rfl]
    exact hfw
  · dsimp only
    rw [if_pos rfl]
    exact hftype
  · intro j x hx
    obtain ⟨hlt, hx⟩ := hgetD 0 hx
    dsimp only
    rw [if_pos rfl, hfget j hlt]
    exact congrArg (fun y => Except.ok (Elem.float y)) hx

/-- A scratchpad with the packets of the arguments. -/
theorem delivers_of_filled {map : HashMemoryMap} {v : Nat → VectorData} {n : Nat}
    (hl : l.WithinLimits) (hdouble : ∀ k, (v k).doubleReg = false)
    (hints : ∀ k < l.intPackets, (v k).type = .int64 ∧
      ∀ j < 4, ∀ x, l.ints[k * 4 + j]? = some x → (v k).get .int64 j = .ok (.long x))
    (hftype : (v l.intPackets).type = .float32)
    (hfloats : ∀ j x, l.floats[j]? = some x →
      l.intPackets < n ∧ (v l.intPackets).get .float32 j = .ok (.float x))
    (hn : l.intPackets ≤ n)
    (hrange : ∀ k < n, (HashMemoryMap.create scratchpadBase l.smemSize).inRange (spadAddr k))
    (hfilled : Filled (.create scratchpadBase l.smemSize) v n map) : l.Delivers map := by
  have hlimit : l.ints.length ≤ 61 := hl.1
  have hpackets : l.intPackets = max 1 ((l.ints.length + 3) / 4) := rfl
  refine ⟨?_, ?_⟩
  · intro ρ ops m ld i x hmap hop hx haddr
    have hi := (List.getElem?_eq_some_iff.mp hx).1
    have hat : scratchpadBase + 8 * i = scratchpadBase + i / 4 * packetSize + 8 * (i % 4) := by
      rw [packetSize]
      omega
    have hsplit : i / 4 * 4 + i % 4 = i := by omega
    obtain ⟨hload, hoffset, hlow⟩ := hfilled.load (by omega) (hrange (i / 4) (by omega)) rfl
      (hdouble _) (by omega) hmap (by rw [packetSize]; omega) (congrArg (BitVec.ofNat 64) hat)
    obtain ⟨htype, hget⟩ := hints (i / 4) (by omega)
    have hindex : elementAt (BitVec.ofNat 64 (scratchpadBase + 8 * i)) 8 = i % 4 := by
      rw [elementAt, hoffset]
      omega
    rw [Machine.registerWrites_eq (s := .double x) hop haddr, once_eq_singleton_iff]
    refine (delivered_eq_ok_iff ?_).mpr ⟨v (i / 4), hload, htype, ?_, fun h => by cases h⟩
    · rw [ScalarAccess.size]
      rw [packetSize] at hoffset
      omega
    · rw [ScalarAccess.size, hindex]
      refine hget _ (by omega) x ?_
      rw [hsplit]
      exact hx
  · intro ρ ops m ld j x hmap hop hx haddr
    have hj := (List.getElem?_eq_some_iff.mp hx).1
    have hfew : l.floats.length ≤ 3 := hl.2
    have hat : scratchpadBase + packetSize * l.intPackets + 4 * j =
        scratchpadBase + l.intPackets * packetSize + 4 * j := by
      rw [Nat.mul_comm packetSize]
    obtain ⟨hlt, hget⟩ := hfloats j x hx
    obtain ⟨hload, hoffset, hlow⟩ := hfilled.load hlt (hrange _ hlt) rfl
      (hdouble _) (by omega) hmap (by rw [packetSize]; omega) (congrArg (BitVec.ofNat 64) hat)
    have hindex : elementAt (BitVec.ofNat 64
        (scratchpadBase + packetSize * l.intPackets + 4 * j)) 4 = j := by
      rw [elementAt, hoffset]
      omega
    rw [Machine.registerWrites_eq (s := .float x) hop haddr, once_eq_singleton_iff]
    refine (delivered_eq_ok_iff ?_).mpr ⟨v l.intPackets, hload, hftype, ?_, fun _ => .inl hlow⟩
    · have hlane : (BitVec.ofNat 64
          (scratchpadBase + packetSize * l.intPackets + 4 * j)).toNat % 32 = 4 * j := hoffset
      rw [ScalarAccess.size]
      omega
    · rw [ScalarAccess.size, hindex]
      exact hget

/-- The set-up delivers the arguments. -/
theorem storeArguments_delivers (hostId : Int) (hl : l.WithinLimits)
    (htotal : l.total ≤ maxNrIntArg) (hpos : 0 < l.smemSize.toNat)
    (hspace : scratchpadBase + l.smemSize.toNat < 2 ^ 64)
    (hle : l.bytes ≤ l.smemSize.toNat) : ∃ map,
      (l.parsed hostId).storeArguments (.create scratchpadBase l.smemSize) = .ok map ∧
        l.Delivers map := by
  obtain ⟨v, hdouble, hints, hfloat, hftype, hfget⟩ :=
    exists_packets hostId hl htotal
  have hlimit : l.ints.length ≤ 61 := hl.1
  have hcount : l.intPackets ≤ 16 := by
    rw [intPackets]
    omega
  have hrange := fun k => inRange_packet (k := k) hl hpos hspace hle
  obtain ⟨map₁, hmap₁, hfilled⟩ := storePackets (fun k hk => (hints k hk).1)
    (fun k hk => hrange k (.inl hk)) (fun _ => rfl) (by omega)
  have hpackets : (l.parsed hostId).argPackets = l.intPackets := argPackets_parsed hostId htotal
  have hnum : (l.parsed hostId).numFloatArgs = l.floats.length := rfl
  rw [storeArguments, hpackets, hmap₁, ok_bind, hnum]
  by_cases hempty : l.floats = []
  · refine ⟨map₁, ?_, delivers_of_filled hl hdouble (fun k hk => (hints k hk).2) hftype ?_ le_rfl
      (fun k hk => hrange k (.inl hk)) hfilled⟩
    · rw [hempty]
      rfl
    · intro j x hx
      rw [hempty] at hx
      cases hx
  · obtain ⟨map₂, hmap₂, hfilled'⟩ := hfilled.store (fun _ => rfl)
      (hrange _ (.inr ⟨hempty, rfl⟩)) (by omega)
    have hlen := List.length_pos_of_ne_nil hempty
    refine ⟨map₂, ?_, delivers_of_filled hl hdouble (fun k hk => (hints k hk).2) hftype
      (fun j x hx => ⟨Nat.lt_succ_self _, hfget j x hx⟩) (Nat.le_succ _) (fun k hk => hrange k ?_)
      hfilled'⟩
    · have hfew : ((l.floats.length : Nat) : Int) ≤ maxNrFloatArg := by exact_mod_cast hl.2
      rw [if_pos (by omega), if_neg (not_not_intro hfew), hfloat]
      exact hmap₂
    · rcases Nat.lt_succ_iff_lt_or_eq.mp hk with hlt | heq
      · exact .inl hlt
      · exact .inr ⟨hempty, heq⟩

omit [FloatOps] in
theorem inRange_create_iff {size : BitVec 64} :
    (HashMemoryMap.create scratchpadBase size).inRange (spadAddr 0) ↔
      0 < size.toNat ∧ scratchpadBase + size.toNat < 2 ^ 64 := by
  have hsize := size.isLt
  rw [HashMemoryMap.inRange, HashMemoryMap.create, toNat_spadAddr (by decide)]
  dsimp only
  rw [scratchpadBase]
  omega

/-- The first packet is stored whether there are arguments or not. -/
theorem inRange_of_storeArguments {map map' : HashMemoryMap} {hostId : Int}
    (htotal : l.total ≤ maxNrIntArg) (h : (l.parsed hostId).storeArguments map = .ok map') :
    map.inRange (spadAddr 0) := by
  have hpackets : (l.parsed hostId).argPackets = l.intPackets := argPackets_parsed hostId htotal
  obtain ⟨k, hk⟩ := Nat.exists_eq_add_of_le' (Nat.le_max_left 1 ((l.ints.length + 3) / 4))
  have hcount : l.intPackets = k + 1 := hk
  obtain ⟨map₁, hloop, -⟩ := bind_eq_ok.mp h
  rw [hpackets, hcount, List.range_succ_eq_map, List.foldlM_cons] at hloop
  obtain ⟨map₂, hstore, -⟩ := bind_eq_ok.mp hloop
  obtain ⟨v, -, hstore⟩ := bind_eq_ok.mp hstore
  rw [HashMemoryMap.store_eq] at hstore
  by_contra hout
  rw [if_neg hout] at hstore
  cases hstore

/-- An empty scratchpad delivers no argument. -/
theorem not_delivers_create (h : 0 < l.total) (size : BitVec 64) :
    ¬ l.Delivers (.create scratchpadBase size) := by
  intro hdelivers
  let mem : Memories := ⟨.create scratchpadBase size, .create scratchpadBase size⟩
  have hempty (a : BitVec 64) : mem.get a = .create scratchpadBase size := by
    rw [Memories.get]
    split <;> rfl
  have hload (a : BitVec 64) (v : VectorData) : mem.load a ≠ .ok v := by
    intro hv
    have hsynthetic : mem.isSynthetic a = false := by
      rw [Memories.isSynthetic, hempty]
      rfl
    have hpacket := (Memories.packet_of_load (Memories.inRange_of_load hv) hsynthetic hv).1
    rw [Memories.packet, hempty] at hpacket
    cases hpacket
  have hnone (s : ScalarAccess) (a : BitVec 64) (o : Access) :
      once (delivered s mem a) ≠ [o] := by
    intro ho
    obtain ⟨v, hv, -⟩ := bind_eq_ok.mp (once_eq_singleton_iff.mp ho)
    exact hload a v hv
  -- a register file in which the base register holds the address
  let file (a : BitVec 64) : FileOps Unit :=
    ⟨fun _ _ _ => .ok a, fun _ _ => .ok 0, fun _ _ _ => .ok .default, fun _ _ _ => .ok (),
      fun _ _ _ => .ok (), fun _ _ _ _ => .ok (), fun _ _ => false⟩
  let load (op : Opcode) : NdpInstruction := ⟨op, .none, fun _ => 0, 0, fun _ => 0, 0, false⟩
  have haddr (op : Opcode) (a : BitVec 64) : Addresses (file a) (load op) ⟨(), mem, {}⟩ a :=
    ⟨a, rfl, BitVec.add_zero a⟩
  cases hints : l.ints with
  | cons x xs =>
    have hwrites := hdelivers.ints _ _ _ 0 x rfl rfl (by rw [hints]; rfl) (haddr .ld _)
    rw [registerWrites_eq (s := .double x) rfl (haddr .ld _)] at hwrites
    exact hnone _ _ _ hwrites
  | nil =>
    cases hfloats : l.floats with
    | cons x xs =>
      have hwrites := hdelivers.floats _ _ _ 0 x rfl rfl (by rw [hfloats]; rfl) (haddr .flw _)
      rw [registerWrites_eq (s := .float x) rfl (haddr .flw _)] at hwrites
      exact hnone _ _ _ hwrites
    | nil =>
      rw [total, hints, hfloats] at h
      exact absurd h (by decide)

variable (l) in
/-- The arguments of a line within the limits reach the kernel in both set-ups. Other lines are
rejected before an argument is stored. -/
def Handled (read : Text → Option F32 × Text) (cfg : GeneratorConfig) (line : Text) (hostId : Int) :
    Prop :=
  if l.WithinLimits then
    ∃ info, parseKernelLaunch read line hostId = .ok info ∧
      (∃ map, NdpUnit.scratchpadMap cfg.spadSize info = .ok map ∧ l.Delivers map) ∧
      ∃ map, UThreadGenerator.scratchpadMap cfg info = .ok map ∧ l.Delivers map
  else parseKernelLaunch read line hostId = .error .rejected

end SetUp

variable (l) in
/-- All arguments together fit into the integer array, the scratchpad is not empty and within both
limits, and `launch` gets as far as storing the arguments. -/
structure Supported (cfg : GeneratorConfig) : Prop where
  within : l.WithinLimits
  total : l.total ≤ maxNrIntArg
  pos : 0 < l.smemSize.toNat
  space : scratchpadBase + l.smemSize.toNat < 2 ^ 64
  run : l.smemSize ≤ BitVec.ofInt 64 (toInt (cfg.spadSize * 1024))
  launch : l.smemSize ≤ BitVec.ofInt 64 cfg.spadSize
  size : l.size.toNat % packetSize = 0
  registered : l.kernelId ∈ cfg.registeredFunctions ∨ l.total = 0

variable [FloatOps] {read : Text → Option F32 × Text} {cfg : GeneratorConfig} {line : Text}

omit [FloatOps] in
theorem toNat_kernelId (hostId : Int) (h : l.Written read line) :
    (BitVec.ofInt 64 (l.parsed hostId).kernelId).toNat = l.kernelId := by
  have hlt := h.kernelId
  have hid : (l.parsed hostId).kernelId = l.kernelId := rfl
  rw [hid, BitVec.ofInt_natCast, BitVec.toNat_ofNat, Nat.mod_eq_of_lt (by omega)]

theorem handled_of_supported (hostId : Int) (h : l.Written read line)
    (hsmem : l.bytes ≤ l.smemSize.toNat) (hs : l.Supported cfg) :
    l.Handled read cfg line hostId := by
  obtain ⟨map, hmap, hdelivers⟩ := storeArguments_delivers hostId hs.within
    hs.total hs.pos hs.space hsmem
  rw [Handled, if_pos hs.within]
  refine ⟨l.parsed hostId, ?_, ⟨map, NdpUnit.scratchpadMap_eq_ok_iff.mpr ⟨hs.run, hmap⟩, hdelivers⟩,
    ?_⟩
  · rw [parse_within hostId h hs.within, if_pos hs.total]
  · have hid := toNat_kernelId hostId h
    by_cases hreg : l.kernelId ∈ cfg.registeredFunctions
    · refine ⟨map, UThreadGenerator.scratchpadMap_eq_ok_iff.mpr ⟨hs.launch, hs.size, ?_⟩, hdelivers⟩
      rw [hid, if_pos hreg]
      exact hmap
    · refine ⟨.create scratchpadBase l.smemSize,
        UThreadGenerator.scratchpadMap_eq_ok_iff.mpr ⟨hs.launch, hs.size, ?_⟩, ?_⟩
      · rw [hid, if_neg hreg]
        rfl
      · have hnone : l.ints.length + l.floats.length = 0 := hs.registered.resolve_left hreg
        refine ⟨fun ops m ld i x _ _ hx => ?_, fun ops m ld j x _ _ hx => ?_⟩
        · rw [List.length_eq_zero_iff.mp (by omega : l.ints.length = 0)] at hx
          cases hx
        · rw [List.length_eq_zero_iff.mp (by omega : l.floats.length = 0)] at hx
          cases hx

theorem supported_of_handled {hostId : Int} (h : l.Written read line)
    (hh : l.Handled read cfg line hostId) :
    l.Supported cfg := by
  rw [Handled] at hh
  split at hh
  case isFalse hout => exact absurd hh (parse_ne_rejected line hostId)
  case isTrue hl =>
    obtain ⟨info, hparse, ⟨map, hrun, -⟩, map', hlaunch, hdelivers⟩ := hh
    rw [parse_within hostId h hl] at hparse
    split at hparse
    case isFalse => cases hparse
    case isTrue htotal =>
      cases hparse
      obtain ⟨hrun, hstored⟩ := NdpUnit.scratchpadMap_eq_ok_iff.mp hrun
      obtain ⟨hlaunch, hsize, hmap⟩ := UThreadGenerator.scratchpadMap_eq_ok_iff.mp hlaunch
      obtain ⟨hpos, hspace⟩ := inRange_create_iff.mp (inRange_of_storeArguments htotal hstored)
      refine ⟨hl, htotal, hpos, hspace, hrun, hlaunch, hsize, ?_⟩
      rw [toNat_kernelId hostId h] at hmap
      by_contra hreg
      obtain ⟨hreg, hnone⟩ := not_or.mp hreg
      rw [if_neg hreg] at hmap
      cases hmap
      exact not_delivers_create (Nat.pos_of_ne_zero hnone) _ hdelivers

end LaunchContent

open LaunchContent

/-- Which lines are handled as they should be. -/
theorem arguments_reach_iff [FloatOps] {l : LaunchContent} {read : Text → Option F32 × Text}
    {line : Text} (h : l.Written read line)
    (hsmem : l.WithinLimits → l.bytes ≤ l.smemSize.toNat) (cfg : GeneratorConfig) (hostId : Int) :
    l.Handled read cfg line hostId ↔ l.Supported cfg :=
  ⟨supported_of_handled h, fun hs => handled_of_supported hostId h (hsmem hs.within) hs⟩

/-- One integer argument and the number 1, with a reader that knows this number. -/
def oneOfEach : LaunchContent := ⟨true, 3, 0x100, 64, 64, [0x2a], [0x3f800000]⟩

def readOne : Text → Option F32 × Text
  | '1' :: rest => (some 0x3f800000, rest)
  | s => (none, s)

theorem written_oneOfEach : oneOfEach.Written readOne
    (Text.lineOf (["1", "3", "100", "40", "40", "10", "2a", "FP32", "1"].map String.toList)) := by
  have hnumeral (s : String) (hne : s.toList ≠ [])
      (hdigits : ∀ d ∈ s.toList, Text.isDigitOf 16 d = true) :
      Text.Numeral 16 s.toList false (Text.ofDigits 16 s.toList) := Text.numeral_digits hne hdigits
  refine ⟨by decide, by decide, ["1", "3", "100", "40", "40", "10"].map String.toList,
    [String.toList "2a"], ["FP32", "1"].map String.toList, Text.spelled_lineOf ?_, ?_, ?_, ?_⟩
  · have hwords : ∀ t ∈ ["1", "3", "100", "40", "40", "10", "2a", "FP32", "1"].map String.toList,
        t ≠ [] ∧ ∀ c ∈ t, Text.isSpace c = false := by decide
    exact fun t ht => ⟨(hwords t ht).1, (hwords t ht).2⟩
  · exact .cons (hnumeral "1" (by decide) (by decide)) (.cons (hnumeral "3" (by decide) (by decide))
      (.cons (hnumeral "100" (by decide) (by decide)) (.cons (hnumeral "40" (by decide) (by decide))
      (.cons (hnumeral "40" (by decide) (by decide)) (.cons (hnumeral "10" (by decide) (by decide))
      .nil)))))
  · exact .cons (hnumeral "2a" (by decide) (by decide)) .nil
  · refine .inr ⟨["1".toList], rfl, .cons ⟨⟨by decide, by decide⟩, fun rest _ => rfl⟩ .nil⟩

/-- A generator that knows kernel 3. -/
def oneKernel : GeneratorConfig := ⟨0, fun _ => true, {3}, fun _ => 1, 128, 1, false, false, 8⟩

theorem arguments_reach_oneOfEach : letI := FloatOps.zero
    oneOfEach.Handled readOne oneKernel
      (Text.lineOf (["1", "3", "100", "40", "40", "10", "2a", "FP32", "1"].map String.toList)) 0 :=
  letI := FloatOps.zero
  (arguments_reach_iff written_oneOfEach (fun _ => by decide) oneKernel 0).mpr
    ⟨by decide, by decide, by decide, by decide, by decide, by decide, by decide, by decide⟩

/-- More integer arguments than the array has elements. -/
def tooMany : LaunchContent := ⟨true, 3, 0x100, 64, 512, List.replicate 62 0, []⟩

theorem written_tooMany : tooMany.Written readOne
    (Text.lineOf (["1", "3", "100", "40", "200", "1f0"].map String.toList ++
      (List.replicate 62 "0".toList ++ []))) := by
  have hnumeral (s : String) (hne : s.toList ≠ [])
      (hdigits : ∀ d ∈ s.toList, Text.isDigitOf 16 d = true) :
      Text.Numeral 16 s.toList false (Text.ofDigits 16 s.toList) := Text.numeral_digits hne hdigits
  refine ⟨by decide, by decide, _, List.replicate 62 "0".toList, [], Text.spelled_lineOf ?_,
    ?_, ?_, .inl ⟨rfl, rfl⟩⟩
  · have hhead : ∀ t ∈ ["1", "3", "100", "40", "200", "1f0"].map String.toList,
        t ≠ [] ∧ ∀ c ∈ t, Text.isSpace c = false := by decide
    have hzero : "0".toList ≠ [] ∧ ∀ c ∈ "0".toList, Text.isSpace c = false := by decide
    intro t ht
    rw [List.append_nil, List.mem_append] at ht
    obtain ht | ht := ht
    · exact ⟨(hhead t ht).1, (hhead t ht).2⟩
    · rw [List.eq_of_mem_replicate ht]
      exact ⟨hzero.1, hzero.2⟩
  · exact .cons (hnumeral "1" (by decide) (by decide)) (.cons (hnumeral "3" (by decide) (by decide))
      (.cons (hnumeral "100" (by decide) (by decide)) (.cons (hnumeral "40" (by decide) (by decide))
      (.cons (hnumeral "200" (by decide) (by decide))
      (.cons (hnumeral "1f0" (by decide) (by decide)) .nil)))))
  · rw [tooMany, List.forall₂_iff_get]
    refine ⟨by rw [List.length_replicate, List.length_replicate], fun i h₁ h₂ => ?_⟩
    rw [List.get_eq_getElem, List.get_eq_getElem, List.getElem_replicate, List.getElem_replicate]
    exact hnumeral "0" (by decide) (by decide)

theorem not_arguments_reach_tooMany : letI := FloatOps.zero
    ¬ ∀ (l : LaunchContent) (read : Text → Option F32 × Text) (line : Text) (cfg : GeneratorConfig)
      (hostId : Int), l.Written read line →
      (l.WithinLimits → l.bytes ≤ l.smemSize.toNat) → l.Handled read cfg line hostId := by
  let _ : FloatOps := FloatOps.zero
  intro h
  have hout : ¬ tooMany.WithinLimits := by decide
  have hhandled := h tooMany readOne _ oneKernel 0 written_tooMany fun hl => absurd hl hout
  exact hout (supported_of_handled written_tooMany hhandled).within

end NdpSim
