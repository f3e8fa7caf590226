import NdpSim.Isa.Masks
import NdpSim.Library.Bytes

/-!
# Memory behind pointers

`PointerMemoryMap`: regions of memory that the host has allocated, each with a type for all of its
elements. An access looks for the region of its first byte only, and transfers a packet, or as many
elements as the vector has.
-/
namespace NdpSim

open Library VectorData

inductive PointerFault
  | assertion
  | exit
  /-- An access to memory that does not belong to the region. -/
  | outside
  /-- An access to a vector. -/
  | vector (fault : Fault)
  deriving DecidableEq

/-- A region: as many bytes behind the pointer as the size says. -/
structure MemoryInfo where
  size : BitVec 64
  type : DataType
  ptr : List (BitVec 8)
  length_ptr : ptr.length = size.toNat

namespace MemoryInfo

/-- The entry that `operator[]` makes. -/
def zero : MemoryInfo := ⟨0, .float16, [], rfl⟩

/-- `ptr[index]`, for elements of `n` bytes. -/
def read (info : MemoryInfo) (n index : Nat) : Except PointerFault (BitVec (8 * n)) :=
  if (index + 1) * n ≤ info.ptr.length then .ok (Bytes.word n info.ptr index) else .error .outside

/-- `ptr[index] = x` -/
def write (info : MemoryInfo) (n index : Nat) (x : BitVec (8 * n)) :
    Except PointerFault MemoryInfo :=
  if (index + 1) * n ≤ info.ptr.length then
    .ok { info with
      ptr := Bytes.setWord n info.ptr index x
      length_ptr := (Bytes.length_setWord x).trans info.length_ptr }
  else .error .outside

/-- `ptr[offset + i]` with an offset in bytes; the sum is a 64-bit one. -/
def laneIndex (n : Nat) (offset : BitVec 64) (i : Nat) : Nat := (offset.toNat / n + i) % 2 ^ 64

end MemoryInfo

/-- The regions in the order of their addresses. -/
structure PointerMemoryMap where
  ptrMap : List (BitVec 64 × MemoryInfo)

namespace PointerMemoryMap

open MemoryInfo

/-- An entry of the map, put where its key belongs. -/
def insert (key : BitVec 64) (info : MemoryInfo) :
    List (BitVec 64 × MemoryInfo) → List (BitVec 64 × MemoryInfo)
  | [] => [(key, info)]
  | entry :: entries =>
    if key < entry.1 then (key, info) :: entry :: entries
    else if key = entry.1 then (key, info) :: entries
    else entry :: insert key info entries

/-- `AllocateMemory`, which writes the entry of a key. -/
def set (m : PointerMemoryMap) (key : BitVec 64) (info : MemoryInfo) : PointerMemoryMap :=
  ⟨insert key info m.ptrMap⟩

/-- `m_ptr_map[key]`, and the map with this entry. -/
def entry (m : PointerMemoryMap) (key : BitVec 64) : MemoryInfo × PointerMemoryMap :=
  match m.ptrMap.lookup key with
  | some info => (info, m)
  | none => (.zero, m.set key .zero)

def getBaseAddr (m : PointerMemoryMap) (addr : BitVec 64) : BitVec 64 :=
  match m.ptrMap.find? fun e => e.1 ≤ addr && addr < e.1 + e.2.size with
  | some e => e.1
  | none => -1

def checkAddr (m : PointerMemoryMap) (addr : BitVec 64) : Bool := m.getBaseAddr addr != -1

section Transfer

variable [FloatOps]

/-! ## Loads -/

/-- The loop of a type whose elements have `n` bytes. -/
def loadLanes (info : MemoryInfo) (n : Nat) (elem : BitVec (8 * n) → Elem) (offset : BitVec 64)
    (data : VectorData) : Except PointerFault VectorData := do
  let data ← (List.range (packetSize / n)).foldlM (fun data i => do
    let x ← info.read n (laneIndex n offset i)
    (data.setData (elem x) i).mapError .vector) data
  return data.setVlen (packetSize / n)

def loadMask (info : MemoryInfo) (offset : BitVec 64) (data : VectorData) :
    Except PointerFault VectorData := do
  let data ← (List.range byteBit).foldlM (fun data i => do
    let x ← info.read 1 (laneIndex 1 offset i)
    (data.setVmask (x ≠ 0) i).mapError .vector) data
  return data.setVlen byteBit

/-- The `switch` of `Load`. -/
def loadSwitch (info : MemoryInfo) (offset : BitVec 64) : Except PointerFault VectorData :=
  let data := VectorData.default.setType info.type
  match info.type with
  | .float32 => loadLanes info 4 .float offset data
  | .float16 => loadLanes info 2 .half offset data
  | .int64 => loadLanes info 8 .long offset data
  | .int32 => loadLanes info 4 .int offset data
  | .int16 => loadLanes info 2 .short offset data
  | .char8 => loadLanes info 1 .char offset data
  | .uint8 => loadLanes info 1 .u8 offset data
  | .vmask => loadMask info offset data
  | .bool | .maxDataType => .error .exit

/-- `Load` -/
def load (m : PointerMemoryMap) (addr : BitVec 64) : Except PointerFault VectorData :=
  let base := m.getBaseAddr addr
  loadSwitch (m.entry base).1 (addr - base)

/-! ## Stores -/

/-- The loop over `count` elements. -/
def storeLanes (info : MemoryInfo) (n count : Nat) (get : Nat → Except Fault (BitVec (8 * n)))
    (offset : BitVec 64) : Except PointerFault MemoryInfo :=
  (List.range count).foldlM (fun info i => do
    let x ← (get i).mapError .vector
    info.write n (laneIndex n offset i) x) info

/-- A bit of a mask as the byte of a `bool`. -/
def maskByte (data : VectorData) (i : Nat) : Except Fault (BitVec 8) := do
  return (BitVec.ofBool (← data.getVmaskData i)).setWidth 8

/-- The `switch` of `Store`. -/
def storeSwitch (info : MemoryInfo) (data : VectorData) (offset : BitVec 64) :
    Except PointerFault MemoryInfo :=
  match info.type with
  | .float32 => storeLanes info 4 data.vlen data.getFloatData offset
  | .float16 => storeLanes info 2 data.vlen data.getHalfData offset
  | .int64 => storeLanes info 8 data.vlen data.getLongData offset
  | .int32 => storeLanes info 4 data.vlen data.getIntData offset
  | .int16 => storeLanes info 2 data.vlen data.getShortData offset
  | .char8 => storeLanes info 1 data.vlen data.getCharData offset
  | .uint8 => storeLanes info 1 data.vlen data.getU8Data offset
  | .vmask => storeLanes info 1 byteBit (maskByte data) offset
  | .bool | .maxDataType => .error .exit

/-- `Store` -/
def store (m : PointerMemoryMap) (addr : BitVec 64) (data : VectorData) :
    Except PointerFault PointerMemoryMap := do
  if ¬ m.checkAddr addr then throw .exit
  let base := m.getBaseAddr addr
  let info := (m.entry base).1
  if info.type ≠ data.type then throw .assertion
  return m.set base (← storeSwitch info data (addr - base))

/-! ## Comparison -/

/-- The elements of the regions at one index, compared at a type. -/
def sameAt (val other : MemoryInfo) (i : Nat) (type : DataType) : Except PointerFault Bool :=
  match type with
  | .float32 => return FloatOps.eq (← val.read 4 i) (← other.read 4 i)
  | .float16 => return FloatOps.halfEq (← val.read 2 i) (← other.read 2 i)
  | .int64 => return (← val.read 8 i) == (← other.read 8 i)
  | .int32 => return (← val.read 4 i) == (← other.read 4 i)
  | .int16 => return (← val.read 2 i) == (← other.read 2 i)
  | _ => return (← val.read 1 i) == (← other.read 1 i)

/-- The cases of the `switch` in their order. -/
def switchCases : List DataType := [.float32, .float16, .int64, .int32, .int16, .char8]

/-- One step of the loop over a region. No case has a `break`: each runs into the next one, and all
of them into the default. -/
def compareStep (val other : MemoryInfo) (i : Nat) : Except PointerFault Bool := do
  let _ ← (switchCases.dropWhile (· ≠ val.type)).foldlM (fun result type =>
    if result then sameAt val other i type else return false) true
  throw .exit

/-- How often the loop over a region runs, converted to `int`. -/
def loopCount (val : MemoryInfo) : Except PointerFault Int :=
  match val.type with
  | .float32 | .int32 => .ok (toInt (val.size.toNat / 4))
  | .float16 | .int16 => .ok (toInt (val.size.toNat / 2))
  | .int64 => .ok (toInt (val.size.toNat / 8))
  | .char8 => .ok (toInt val.size.toNat)
  | _ => .error .exit

/-- The loop of `Match`; the other map may have got entries by `operator[]`. -/
def matchLoop : List (BitVec 64 × MemoryInfo) → PointerMemoryMap →
    Except PointerFault (Bool × PointerMemoryMap)
  | [], other => .ok (true, other)
  | (key, val) :: entries, other => do
    let found := other.checkAddr key
    let (info, other) := other.entry key
    if ¬ (found ∧ val.size = info.size ∧ val.type = info.type) then return (false, other)
    let count ← loopCount val
    let result ← (List.range count.toNat).foldlM (fun result i =>
      if result then compareStep val info i else return false) true
    if result then matchLoop entries other else return (false, other)

/-- `Match` -/
def matchMap (m other : PointerMemoryMap) : Except PointerFault (Bool × PointerMemoryMap) :=
  matchLoop m.ptrMap other

end Transfer

end PointerMemoryMap

end NdpSim
