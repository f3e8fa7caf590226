import Mathlib.Tactic.Ring
import NdpSim.Dram.BankStates
import NdpSim.Library.BitFields

/-!
# Where an address is in the memory

`send` takes the fields of the address vector off an address, the lowest first.
-/
namespace NdpSim

open Library

/-- What `Memory` knows about the sizes of a standard, by the levels of its tree. -/
structure OrgEntry where
  count : Nat → Nat
  prefetchSize : Nat
  channelWidth : Nat

namespace OrgEntry

variable (org : OrgEntry)

/-- `get_channel_unit` -/
def channelUnit : Nat := org.prefetchSize * org.channelWidth / 8

def txBits : Nat := Nat.log2 org.channelUnit

def addrBits (level : Nat) : Nat :=
  Nat.log2 (org.count level) - if level = 5 then Nat.log2 org.prefetchSize else 0

end OrgEntry

/-- By the first letter of the name, which is `M` for channels that are interleaved by 256 bytes. -/
inductive MemoryName
  | cxl | m2ndp
  deriving DecidableEq

def sliceLowerBits (addr bits : Nat) : Nat × Nat := (addr % 2 ^ bits, addr / 2 ^ bits)

/-- The address vector that `send` finds, for the order `RoBaRaBCoGCh`. The channel is that of the
memory fetch. -/
def addressVector (org : OrgEntry) (name : MemoryName) (addr channel : Nat) :
    Except Fault AddrVec :=
  let addr := addr / 2 ^ org.txBits
  match name with
  | .cxl =>
    let (channel, addr) := sliceLowerBits addr (org.addrBits 0)
    let (group, addr) := sliceLowerBits addr 1
    let (column, addr) := sliceLowerBits addr (org.addrBits 5)
    let (rank, addr) := sliceLowerBits addr (org.addrBits 1)
    let (groupHigh, addr) := sliceLowerBits addr (org.addrBits 2 - 1)
    let (bank, addr) := sliceLowerBits addr (org.addrBits 3)
    let (row, _) := sliceLowerBits addr (org.addrBits 4)
    .ok [channel, rank, (group + 2 * groupHigh : Nat), bank, row, column]
  | .m2ndp =>
    let lowColBits := 8 - org.txBits
    let (column, addr) := sliceLowerBits addr lowColBits
    let (_, addr) := sliceLowerBits addr (org.addrBits 0)
    let (group, addr) := sliceLowerBits addr 1
    let (columnHigh, addr) := sliceLowerBits addr (org.addrBits 5 - lowColBits)
    let (rank, addr) := sliceLowerBits addr (org.addrBits 1)
    let (groupHigh, addr) := sliceLowerBits addr (org.addrBits 2 - 1)
    let (bank, addr) := sliceLowerBits addr (org.addrBits 3)
    let (rowLow, addr) := sliceLowerBits addr (org.addrBits 4 - 8)
    let (_, addr) := sliceLowerBits addr 20
    let (rowHigh, _) := sliceLowerBits addr 8
    let row := rowLow + 2 ^ (org.addrBits 4 - 8) * rowHigh
    -- The row has to fit an `int`.
    if row < 2 ^ 31 then
      .ok [channel, rank, (group + 2 * groupHigh : Nat), bank, row,
        (column + 2 ^ lowColBits * columnHigh : Nat)]
    else .error .assertion

namespace Lpddr5

def orgEntry (channels ranks : Nat) : OrgEntry where
  count := count channels ranks
  prefetchSize := 16
  channelWidth := 16

variable {c r addr channel : Nat}

theorem addrBits_eq (c r : Nat) : let org := orgEntry (2 ^ c) (2 ^ r)
    org.txBits = 5 ∧ org.addrBits 0 = c ∧ org.addrBits 1 = r ∧ org.addrBits 2 = 2 ∧
      org.addrBits 3 = 2 ∧ org.addrBits 4 = 16 ∧ org.addrBits 5 = 6 := by
  have htx : Nat.log2 (16 * 16 / 8) = 5 := by decide
  have hbank : Nat.log2 4 - 0 = 2 := by decide
  have hrow : Nat.log2 (2 ^ 16) - 0 = 16 := by decide
  have hcolumn : Nat.log2 (2 ^ 10) - (if 5 = 5 then Nat.log2 16 else 0) = 6 := by decide
  exact ⟨htx, Nat.log2_two_pow, Nat.log2_two_pow, hbank, hbank, hrow, hcolumn⟩

theorem addressVector_cxl (c r addr channel : Nat) :
    addressVector (orgEntry (2 ^ c) (2 ^ r)) .cxl addr channel = .ok
      [(field addr 5 c : Nat), (field addr (12 + c) r : Nat),
        (field addr (5 + c) 1 + 2 * field addr (12 + c + r) 1 : Nat),
        (field addr (13 + c + r) 2 : Nat), (field addr (15 + c + r) 16 : Nat),
        (field addr (6 + c) 6 : Nat)] := by
  obtain ⟨htx, h0, h1, h2, h3, h4, h5⟩ := addrBits_eq c r
  simp only [addressVector, sliceLowerBits, htx, h0, h1, h2, h3, h4, h5, ← field_zero, field_div]
  ring_nf

theorem addressVector_m2ndp (c r addr channel : Nat) :
    addressVector (orgEntry (2 ^ c) (2 ^ r)) .m2ndp addr channel = .ok
      [(channel : Int), (field addr (12 + c) r : Nat),
        (field addr (8 + c) 1 + 2 * field addr (12 + c + r) 1 : Nat),
        (field addr (13 + c + r) 2 : Nat),
        (field addr (15 + c + r) 8 + 2 ^ 8 * field addr (43 + c + r) 8 : Nat),
        (field addr 5 3 + 2 ^ 3 * field addr (9 + c) 3 : Nat)] := by
  obtain ⟨htx, h0, h1, h2, h3, h4, h5⟩ := addrBits_eq c r
  simp only [addressVector, sliceLowerBits, htx, h0, h1, h2, h3, h4, h5, ← field_zero, field_div]
  rw [if_pos]
  · ring_nf
  · exact (field_add_lt addr _ _ 8 8).trans_le (by decide)

/-- The bits of an address that tell where it is in its channel. -/
def Kept (c r : Nat) : MemoryName → Nat → Prop
  | .cxl, i => 5 ≤ i ∧ i < 31 + c + r
  | .m2ndp, i => 5 ≤ i ∧ i < 8 ∨ 8 + c ≤ i ∧ i < 23 + c + r ∨ 43 + c + r ≤ i ∧ i < 51 + c + r

theorem addressVector_cxl_inj {a b : Nat} :
    addressVector (orgEntry (2 ^ c) (2 ^ r)) .cxl a channel =
        addressVector (orgEntry (2 ^ c) (2 ^ r)) .cxl b channel ↔
      ∀ i, Kept c r .cxl i → a.testBit i = b.testBit i := by
  rw [addressVector_cxl, addressVector_cxl]
  have hone : ∀ x lo, field x lo 1 < 2 := fun x lo => field_lt x lo 1
  simp only [Except.ok.injEq, List.cons.injEq, Nat.cast_inj, and_true,
    add_mul_eq_iff (hone _ _) (hone _ _), field_eq_iff, Kept]
  grind

theorem addressVector_m2ndp_inj {a b : Nat} :
    addressVector (orgEntry (2 ^ c) (2 ^ r)) .m2ndp a channel =
        addressVector (orgEntry (2 ^ c) (2 ^ r)) .m2ndp b channel ↔
      ∀ i, Kept c r .m2ndp i → a.testBit i = b.testBit i := by
  rw [addressVector_m2ndp, addressVector_m2ndp]
  have hone : ∀ x lo, field x lo 1 < 2 := fun x lo => field_lt x lo 1
  simp only [Except.ok.injEq, List.cons.injEq, Nat.cast_inj, and_true, true_and,
    add_mul_eq_iff (hone _ _) (hone _ _), add_mul_eq_iff (field_lt _ _ _) (field_lt _ _ _),
    field_eq_iff, Kept]
  grind

theorem addressed_fields {type : DramRequestType} (htype : type = .read ∨ type = .write)
    {ranks rank group bank : Nat} (hrank : rank < ranks) (hgroup : group < 4) (hbank : bank < 4)
    (channel row column : Int) :
    Addressed ranks type [channel, (rank : Int), (group : Int), (bank : Int), row, column] := by
  have hfields : (0 ≤ (rank : Int) ∧ (rank : Int) < ranks) ∧
      (0 ≤ (group : Int) ∧ (group : Int) < 4) ∧ 0 ≤ (bank : Int) ∧ (bank : Int) < 4 := by omega
  rcases htype with rfl | rfl <;> exact hfields

theorem exists_addressVector (c r : Nat) (name : MemoryName) (addr channel : Nat) :
    ∃ v : AddrVec, addressVector (orgEntry (2 ^ c) (2 ^ r)) name addr channel = .ok v ∧
      (∀ type, type = .read ∨ type = .write → Addressed (2 ^ r) type v) ∧
      v.idx 0 = (if name = .cxl then field addr 5 c else channel : Nat) := by
  cases name with
  | cxl =>
    have hlow := field_lt addr (5 + c) 1
    have hhigh := field_lt addr (12 + c + r) 1
    exact ⟨_, addressVector_cxl c r addr channel, fun type htype =>
      addressed_fields htype (field_lt _ _ _) (by omega) (field_lt _ _ _) _ _ _, rfl⟩
  | m2ndp =>
    have hlow := field_lt addr (8 + c) 1
    have hhigh := field_lt addr (12 + c + r) 1
    exact ⟨_, addressVector_m2ndp c r addr channel, fun type htype =>
      addressed_fields htype (field_lt _ _ _) (by omega) (field_lt _ _ _) _ _ _, rfl⟩

/-- The number for each level is one of those that its bits can be. -/
def InRange (org : OrgEntry) (v : AddrVec) : Prop :=
  v.length = 6 ∧ ∀ level < 6, 0 ≤ v.idx level ∧ v.idx level < 2 ^ org.addrBits level

theorem inRange_fields {x0 x1 x2 x3 x4 x5 : Nat} (h0 : x0 < 2 ^ c) (h1 : x1 < 2 ^ r)
    (h2 : x2 < 2 ^ 2) (h3 : x3 < 2 ^ 2) (h4 : x4 < 2 ^ 16) (h5 : x5 < 2 ^ 6) :
    InRange (orgEntry (2 ^ c) (2 ^ r))
      [(x0 : Int), (x1 : Int), (x2 : Int), (x3 : Int), (x4 : Int), (x5 : Int)] := by
  obtain ⟨-, b0, b1, b2, b3, b4, b5⟩ := addrBits_eq c r
  have hcast : ∀ {x k : Nat}, x < 2 ^ k → (0 : Int) ≤ x ∧ (x : Int) < 2 ^ k :=
    fun hx => ⟨Int.natCast_nonneg _, by exact_mod_cast hx⟩
  refine ⟨rfl, fun level hlevel => ?_⟩
  obtain rfl | rfl | rfl | rfl | rfl | rfl : level = 0 ∨ level = 1 ∨ level = 2 ∨ level = 3 ∨
    level = 4 ∨ level = 5 := by omega
  · rw [b0]; exact hcast h0
  · rw [b1]; exact hcast h1
  · rw [b2]; exact hcast h2
  · rw [b3]; exact hcast h3
  · rw [b4]; exact hcast h4
  · rw [b5]; exact hcast h5

theorem addressVector_inRange (c r : Nat) (name : MemoryName) (addr : Nat) {channel : Nat}
    (hchannel : name = .m2ndp → channel < 2 ^ c) {v : AddrVec}
    (hv : addressVector (orgEntry (2 ^ c) (2 ^ r)) name addr channel = .ok v) :
    InRange (orgEntry (2 ^ c) (2 ^ r)) v := by
  cases name with
  | cxl =>
    rw [addressVector_cxl] at hv
    obtain rfl := Except.ok.inj hv
    exact inRange_fields (field_lt _ _ _) (field_lt _ _ _) (field_add_lt addr _ _ 1 1)
      (field_lt _ _ _) (field_lt _ _ _) (field_lt _ _ _)
  | m2ndp =>
    rw [addressVector_m2ndp] at hv
    obtain rfl := Except.ok.inj hv
    exact inRange_fields (hchannel rfl) (field_lt _ _ _) (field_add_lt addr _ _ 1 1)
      (field_lt _ _ _) (field_add_lt addr _ _ 8 8) (field_add_lt addr _ _ 3 3)

/-- Every address has a place in its channel, which is in range if the channel of the memory fetch
is where that counts. Two addresses have the same one if they agree in the bits that are kept, and
nothing else tells them apart there. -/
theorem addressVector_places (c r : Nat) (name : MemoryName) (addr channel : Nat) :
    ∃ v : AddrVec, addressVector (orgEntry (2 ^ c) (2 ^ r)) name addr channel = .ok v ∧
      (∀ type, type = .read ∨ type = .write → Addressed (2 ^ r) type v) ∧
      ((name = .m2ndp → channel < 2 ^ c) → InRange (orgEntry (2 ^ c) (2 ^ r)) v) ∧
      v.idx 0 = (if name = .cxl then field addr 5 c else channel : Nat) ∧
      ∀ addr', addressVector (orgEntry (2 ^ c) (2 ^ r)) name addr' channel = .ok v ↔
        ∀ i, Kept c r name i → addr'.testBit i = addr.testBit i := by
  obtain ⟨v, hv, haddressed, hchannel⟩ := exists_addressVector c r name addr channel
  refine ⟨v, hv, haddressed, fun hlt => addressVector_inRange c r name addr hlt hv, hchannel,
    fun addr' => ?_⟩
  rw [← hv]
  cases name with
  | cxl => exact addressVector_cxl_inj
  | m2ndp => exact addressVector_m2ndp_inj

end Lpddr5

end NdpSim
