import NdpSim.Isa.VectorData
import NdpSim.Library.Streams
import NdpSim.Register.Unit

/-!
# A line of a launch file

`parse_kernel_launch`: six hexadecimal numbers, the integer arguments, and behind the marker `FP32`
the floating-point arguments. The arrays for the arguments are filled before the numbers of
arguments are checked.
-/
namespace NdpSim

open Library

def doubleSize : Nat := 8
def cxlCommandSize : Nat := 64
/-- The division comes before the subtraction. -/
def maxNrIntArg : Nat := cxlCommandSize - 24 / 8
def maxNrFloatArg : Nat := 3

/-- `KernelLaunchInfo` as it is parsed. The argument arrays are given by the elements that have been
stored, and are zero behind them. -/
structure ParsedLaunch where
  hostId : Int
  sync : Bool
  kernelId : Int
  baseAddr : BitVec 64
  size : BitVec 64
  smemSize : BitVec 64
  argSize : BitVec 64
  args : List (BitVec 64)
  numFloatArgs : Int
  floatArgs : List F32

/-- What has been stored into the arrays when the parser stops. -/
structure LaunchFault where
  fault : Fault
  args : List (BitVec 64)
  floatArgs : List F32

/-- The line is rejected before anything is stored. -/
def LaunchFault.rejected : LaunchFault := ⟨.assertion, [], []⟩

namespace ParsedLaunch

def doubles (argSize : BitVec 64) : BitVec 64 := argSize / BitVec.ofNat 64 doubleSize

def addr (ss : Stream) : BitVec 64 × Stream :=
  let (x, ss) := ss.unsigned 16 64
  (BitVec.ofNat 64 (x.getD 0), ss)

/-- The numbers in front of the arguments. -/
def header (line : Text) (hostId : Int) : ParsedLaunch × Stream :=
  let ss := Stream.ofText line
  let (sync, ss) := ss.flag 16 64
  let (kernelId, ss) := ss.signed 16 32
  let (baseAddr, ss) := addr ss
  let (size, ss) := addr ss
  let (smemSize, ss) := addr ss
  let (argSize, ss) := addr ss
  (⟨hostId, sync.getD false, kernelId.getD 0, baseAddr, size, smemSize, argSize, [], 0, []⟩, ss)

/-- The integer arguments, at most as many as given. The answer is where the marker has been. -/
def readArgs : Nat → List (BitVec 64) → Stream →
    Except LaunchFault (List (BitVec 64) × Option Nat × Stream)
  | 0, args, ss => .ok (args, none, ss)
  | left + 1, args, ss =>
    let (token, ss) := ss.word
    if token = "FP32".toList then .ok (args, some args.length, ss)
    else match ((Stream.ofText token).unsigned 16 64).1 with
      | some arg =>
        if args.length < maxNrIntArg then readArgs left (args ++ [BitVec.ofNat 64 arg]) ss
        else .error ⟨.undefined, args, []⟩
      -- what is stored has not been initialized
      | none => .error ⟨.undefined, args, []⟩

/-- How many of the arguments are left behind the marker. -/
def behind (arguments : BitVec 64) : Option Nat → Int
  | some i => toInt (arguments - BitVec.ofNat 64 i).toNat
  | none => 0

variable (read : Text → Option F32 × Text)

/-- The floating-point arguments, as many as given. -/
def readFloatArgs (args : List (BitVec 64)) : Nat → List F32 → Stream →
    Except LaunchFault (List F32)
  | 0, floatArgs, _ => .ok floatArgs
  | left + 1, floatArgs, ss =>
    match ss.real read 0 with
    | (some x, ss) =>
      if floatArgs.length < maxNrFloatArg then readFloatArgs args left (floatArgs ++ [x]) ss
      else .error ⟨.undefined, args, floatArgs⟩
    | (none, _) => .error ⟨.undefined, args, floatArgs⟩

/-- The checks behind the loops. The integer arguments are printed then. -/
def check (info : ParsedLaunch) (arguments : BitVec 64) : Except LaunchFault ParsedLaunch := do
  if ¬ toInt arguments.toNat ≤ maxNrIntArg then throw ⟨.assertion, info.args, info.floatArgs⟩
  if ¬ info.numFloatArgs ≤ maxNrFloatArg then throw ⟨.assertion, info.args, info.floatArgs⟩
  if ¬ (arguments - BitVec.ofInt 64 info.numFloatArgs).toNat ≤ maxNrIntArg then
    throw ⟨.undefined, info.args, info.floatArgs⟩
  return info

/-- `parse_kernel_launch` -/
def parseKernelLaunch (line : Text) (hostId : Int) : Except LaunchFault ParsedLaunch := do
  let (info, ss) := header line hostId
  let arguments := doubles info.argSize
  let numIntArgs := toInt arguments.toNat
  let (args, marker, ss) ← readArgs numIntArgs.toNat [] ss
  let numFp32Args := behind arguments marker
  let floatArgs ← readFloatArgs read args numFp32Args.toNat [] ss
  check { info with args := args, numFloatArgs := numFp32Args, floatArgs := floatArgs } arguments

/-! ## Lines -/

end ParsedLaunch

/-- What a line says. -/
structure LaunchContent where
  sync : Bool
  kernelId : Nat
  baseAddr : BitVec 64
  size : BitVec 64
  smemSize : BitVec 64
  ints : List (BitVec 64)
  floats : List F32

namespace LaunchContent

variable (l : LaunchContent)

/-- The number of arguments. -/
def total : Nat := l.ints.length + l.floats.length

/-- The numbers in front of the arguments; the size of the arguments is in bytes. -/
def header : List Nat :=
  [l.sync.toNat, l.kernelId, l.baseAddr.toNat, l.size.toNat, l.smemSize.toNat,
    doubleSize * l.total]

/-- The line is made of hexadecimal numerals for the header and the integer arguments, and of the
floating-point arguments behind the marker, if there are any. -/
structure Written (read : Text → Option F32 × Text) (line : Text) : Prop where
  kernelId : l.kernelId < 2 ^ 31
  total : doubleSize * l.total < 2 ^ 64
  spelled : ∃ head ints floats, Text.Spelled (head ++ (ints ++ floats)) line ∧
    List.Forall₂ (fun t n => Text.Numeral 16 t false n) head l.header ∧
    List.Forall₂ (fun t x => Text.Numeral 16 t false (BitVec.toNat x)) ints l.ints ∧
    (l.floats = [] ∧ floats = [] ∨
      ∃ ts, floats = "FP32".toList :: ts ∧ List.Forall₂ (Text.Reads read) ts l.floats)

/-- The arrays have room for the arguments. -/
def WithinLimits : Prop :=
  l.ints.length ≤ maxNrIntArg ∧ l.floats.length ≤ maxNrFloatArg

instance : Decidable l.WithinLimits := inferInstanceAs (Decidable (_ ∧ _))

/-- The launch as it is to be parsed. -/
def parsed (hostId : Int) : ParsedLaunch :=
  ⟨hostId, l.sync, l.kernelId, l.baseAddr, l.size, l.smemSize,
    BitVec.ofNat 64 (doubleSize * l.total), l.ints, l.floats.length, l.floats⟩

end LaunchContent

namespace ParsedLaunch

open Text

variable {read : Text → Option F32 × Text} {s : Text} {ts : List Text}

/-- The size of the arguments in doubles. -/
theorem doubles_parsed {l : LaunchContent} (h : doubleSize * l.total < 2 ^ 64) :
    doubles (BitVec.ofNat 64 (doubleSize * l.total)) = BitVec.ofNat 64 l.total := by
  have h8 : 8 % 2 ^ 64 = 8 := rfl
  rw [doubleSize] at h
  apply BitVec.eq_of_toNat_eq
  rw [doubles, BitVec.toNat_udiv, BitVec.toNat_ofNat, BitVec.toNat_ofNat,
    BitVec.toNat_ofNat, doubleSize, h8, Nat.mod_eq_of_lt h, Nat.mod_eq_of_lt (by omega),
    Nat.mul_div_cancel_left _ (by decide)]

theorem addr_spelled {t : Text} {n : Nat} (h : Spelled (t :: ts) s)
    (hn : Numeral 16 t false n) (hlt : n < 2 ^ 64) : ∃ rest,
      addr ⟨s, false⟩ = (BitVec.ofNat 64 n, ⟨rest, false⟩) ∧ Spelled ts rest := by
  obtain ⟨rest, hunsigned, htail⟩ := unsigned_spelled 64 h hn hlt
  exact ⟨rest, by rw [addr, hunsigned]; rfl, htail⟩

variable {l : LaunchContent}

theorem header_spelled {line : Text} {head : List Text} (hostId : Int)
    (hkernel : l.kernelId < 2 ^ 31) (htotal : doubleSize * l.total < 2 ^ 64)
    (h : Spelled (head ++ ts) line)
    (hhead : List.Forall₂ (fun t n => Numeral 16 t false n) head l.header) :
    ∃ rest, Spelled ts rest ∧ header line hostId =
      ({ l.parsed hostId with args := [], numFloatArgs := 0, floatArgs := [] }, ⟨rest, false⟩) := by
  rw [LaunchContent.header] at hhead
  cases hhead with | cons hsync hhead =>
  cases hhead with | cons hkernelId hhead =>
  cases hhead with | cons hbase hhead =>
  cases hhead with | cons hsize hhead =>
  cases hhead with | cons hsmem hhead =>
  cases hhead with | cons harg hhead =>
  cases hhead
  obtain ⟨s₁, h₁, ht₁⟩ := flag_spelled 64 h hsync (by decide)
  have hvalue : signedValue false l.kernelId = l.kernelId := rfl
  obtain ⟨s₂, h₂, ht₂⟩ := signed_spelled 32 ht₁ hkernelId ⟨by omega, by omega⟩
  obtain ⟨s₃, h₃, ht₃⟩ := addr_spelled ht₂ hbase l.baseAddr.isLt
  obtain ⟨s₄, h₄, ht₄⟩ := addr_spelled ht₃ hsize l.size.isLt
  obtain ⟨s₅, h₅, ht₅⟩ := addr_spelled ht₄ hsmem l.smemSize.isLt
  obtain ⟨s₆, h₆, ht₆⟩ := addr_spelled ht₅ harg htotal
  refine ⟨s₆, ht₆, ?_⟩
  rw [header, Stream.ofText, h₁]
  dsimp only
  rw [h₂]
  dsimp only
  rw [h₃]
  dsimp only
  rw [h₄]
  dsimp only
  rw [h₅]
  dsimp only
  rw [h₆]
  simp only [BitVec.ofNat_toNat, BitVec.setWidth_eq, hvalue]
  rfl

/-- Integer arguments that have room are stored one behind the other. -/
theorem readArgs_spelled {its : List Text} {xs : List (BitVec 64)}
    (hxs : List.Forall₂ (fun t x => Numeral 16 t false (BitVec.toNat x)) its xs) :
    ∀ {s : Text} (args : List (BitVec 64)), Spelled (its ++ ts) s →
      args.length + xs.length ≤ maxNrIntArg → ∀ left, ∃ rest, Spelled ts rest ∧
        readArgs (xs.length + left) args ⟨s, false⟩ = readArgs left (args ++ xs) ⟨rest, false⟩ := by
  induction hxs with
  | nil =>
    intro s args hs hroom left
    exact ⟨s, hs, by simp⟩
  | @cons t x its xs ht hxs ih =>
    intro s args hs hroom left
    obtain ⟨rest, hword, htail⟩ := word_spelled hs
    obtain ⟨rest', hrest', hloop⟩ := ih (args ++ [x]) htail
      (by simp only [List.length_append, List.length_cons, List.length_nil] at hroom ⊢; omega) left
    refine ⟨rest', hrest', ?_⟩
    obtain ⟨r, harg, -⟩ := unsigned_spelled 64 (spelled_self ht.isWord) ht x.isLt
    have hmarker : t ≠ "FP32".toList :=
      ht.ne_of_mem (c := 'P') (by decide) (by decide) (by decide)
    have hlength : (x :: xs).length + left = xs.length + left + 1 := by
      rw [List.length_cons]
      omega
    rw [hlength, readArgs, hword]
    dsimp only
    rw [if_neg hmarker, Stream.ofText, harg]
    dsimp only
    rw [if_pos (by rw [List.length_cons] at hroom; omega), BitVec.ofNat_toNat, BitVec.setWidth_eq,
      hloop, List.append_assoc]
    rfl

/-- The floating-point arguments are stored one behind the other. -/
theorem readFloatArgs_spelled {args : List (BitVec 64)} {fts : List Text} {fs : List F32}
    (hfs : List.Forall₂ (Text.Reads read) fts fs) :
    ∀ {s : Text} {floatArgs : List F32}, Spelled (fts ++ ts) s →
      floatArgs.length + fs.length ≤ maxNrFloatArg →
        readFloatArgs read args fs.length floatArgs ⟨s, false⟩ = .ok (floatArgs ++ fs) := by
  induction hfs with
  | nil =>
    intro s floatArgs hs hroom
    exact congrArg Except.ok (List.append_nil _).symm
  | @cons t x fts fs ht hfs ih =>
    intro s floatArgs hs hroom
    obtain ⟨rest, hreal, htail⟩ := real_spelled hs ht 0
    rw [List.length_cons, readFloatArgs, hreal]
    dsimp only
    rw [if_pos (by rw [List.length_cons] at hroom; omega), ih htail
      (by simp only [List.length_append, List.length_cons, List.length_nil] at hroom ⊢; omega),
      List.append_assoc]
    rfl

/-- The two loops store the arguments of a line within the limits. -/
theorem read_within {line : Text} (hostId : Int) (h : l.Written read line) (hl : l.WithinLimits) :
    ∃ ss marker rest,
      header line hostId =
        ({ l.parsed hostId with args := [], numFloatArgs := 0, floatArgs := [] }, ss) ∧
      readArgs l.total [] ss = .ok (l.ints, marker, rest) ∧
      behind (BitVec.ofNat 64 l.total) marker = l.floats.length ∧
      readFloatArgs read l.ints l.floats.length [] rest = .ok l.floats := by
  obtain ⟨head, ints, floats, hspelled, hhead, hints, hfloats⟩ := h.spelled
  obtain ⟨s₀, hs₀, hheader⟩ := header_spelled hostId h.kernelId h.total hspelled hhead
  obtain ⟨s₁, hs₁, hargs⟩ := readArgs_spelled hints [] hs₀
    (by simpa using hl.1) l.floats.length
  by_cases hnone : l.floats = []
  · rw [hnone] at hargs
    refine ⟨_, none, ⟨s₁, false⟩, hheader, ?_, ?_, ?_⟩
    · rw [LaunchContent.total, hnone, hargs]
      rfl
    · rw [hnone]
      rfl
    · rw [hnone]
      rfl
  · obtain ⟨h, -⟩ | ⟨ts, rfl, hts⟩ := hfloats
    · exact absurd h hnone
    obtain ⟨s₂, hword, hs₂⟩ := word_spelled hs₁
    refine ⟨_, some l.ints.length, ⟨s₂, false⟩, hheader, ?_, ?_, ?_⟩
    · obtain ⟨k, hk⟩ := Nat.exists_eq_succ_of_ne_zero fun h => hnone (List.length_eq_zero_iff.mp h)
      rw [LaunchContent.total, hargs, hk, readArgs, hword]
      dsimp only
      rw [if_pos rfl]
      rfl
    · have hle : l.floats.length ≤ 3 := hl.2
      have hsum : l.total = l.ints.length + l.floats.length := rfl
      have hrest : l.total - l.ints.length = l.floats.length := by omega
      have hlt : l.total < 2 ^ 64 := by
        have htotal := h.total
        rw [doubleSize] at htotal
        omega
      rw [behind, BitVec.ofNat_sub_ofNat_of_le _ _ (by omega) (by omega),
        hrest, BitVec.toNat_ofNat, Nat.mod_eq_of_lt (by omega)]
      exact toInt_of_range (by omega) (by omega)
    · rw [← List.append_nil ts] at hs₂
      exact readFloatArgs_spelled hts hs₂ (by simpa using hl.2)

/-- Lines within the limits are parsed if the arguments together fit into the integer array, and
rejected otherwise. -/
theorem parse_within {line : Text} (hostId : Int) (h : l.Written read line) (hl : l.WithinLimits) :
    parseKernelLaunch read line hostId =
      if l.total ≤ maxNrIntArg then .ok (l.parsed hostId)
      else .error ⟨.assertion, l.ints, l.floats⟩ := by
  obtain ⟨ss, marker, rest, hheader, hargs, hbehind, hfloats⟩ := read_within hostId h hl
  have hle : l.ints.length ≤ 61 ∧ l.floats.length ≤ 3 := hl
  have htotal : l.total = l.ints.length + l.floats.length := rfl
  have hcount : toInt (BitVec.ofNat 64 l.total).toNat = l.total := by
    rw [BitVec.toNat_ofNat, Nat.mod_eq_of_lt (by omega)]
    exact toInt_of_range (by omega) (by omega)
  have hprinted : (BitVec.ofNat 64 l.total - BitVec.ofInt 64 l.floats.length).toNat =
      l.ints.length := by
    rw [BitVec.ofInt_natCast, BitVec.ofNat_sub_ofNat_of_le _ _ (by omega) (by omega),
      BitVec.toNat_ofNat, htotal, Nat.add_sub_cancel, Nat.mod_eq_of_lt (by omega)]
  have hcheck : check (l.parsed hostId) (BitVec.ofNat 64 l.total) =
      if l.total ≤ maxNrIntArg then .ok (l.parsed hostId)
      else .error ⟨.assertion, l.ints, l.floats⟩ := by
    have hfloat : (l.parsed hostId).numFloatArgs ≤ maxNrFloatArg := Int.ofNat_le.mpr hl.2
    have hint : (BitVec.ofNat 64 l.total - BitVec.ofInt 64 (l.parsed hostId).numFloatArgs).toNat ≤
        maxNrIntArg := hprinted.le.trans hl.1
    rw [check, hcount]
    by_cases hroom : l.total ≤ maxNrIntArg
    · rw [if_pos hroom, if_neg (not_not_intro (Int.ofNat_le.mpr hroom)),
        if_neg (not_not_intro hfloat), if_neg (not_not_intro hint)]
      rfl
    · rw [if_neg hroom, if_pos fun h => hroom (Int.ofNat_le.mp h)]
      rfl
  have hdoubles : doubles (l.parsed hostId).argSize = BitVec.ofNat 64 l.total :=
    doubles_parsed h.total
  rw [← hcheck, parseKernelLaunch, hheader]
  dsimp only
  rw [hdoubles, hcount, Int.toNat_natCast, hargs, ok_bind]
  dsimp only
  rw [hbehind, Int.toNat_natCast, hfloats, ok_bind]
  congr

/-! ## Lines beyond the limits -/

/-- The loop over the integer arguments does not reject a line. -/
theorem fault_of_readArgs {left : Nat} {args : List (BitVec 64)} {ss : Stream} {e : LaunchFault}
    (h : readArgs left args ss = .error e) : e.fault = .undefined := by
  induction left generalizing args ss with
  | zero => cases h
  | succ left ih =>
    rw [readArgs] at h
    dsimp only at h
    split at h
    · cases h
    · split at h
      · split at h
        · exact ih h
        · cases h
          rfl
      · cases h
        rfl

/-- Arguments that are stored stay. -/
theorem args_of_readArgs {left : Nat} {args args' : List (BitVec 64)} {ss ss' : Stream}
    {marker : Option Nat} (h : readArgs left args ss = .ok (args', marker, ss')) :
    args.length ≤ args'.length := by
  induction left generalizing args ss with
  | zero =>
    cases h
    exact le_rfl
  | succ left ih =>
    rw [readArgs] at h
    dsimp only at h
    split at h
    · cases h
      exact le_rfl
    · split at h
      · split at h
        · have hle := ih h
          rw [List.length_append, List.length_singleton] at hle
          omega
        · cases h
      · cases h

/-- If there is to be an argument, an argument is stored or the marker comes first. -/
theorem stores_of_readArgs {left : Nat} {args' : List (BitVec 64)} {ss ss' : Stream}
    {marker : Option Nat} (hleft : 0 < left) (h : readArgs left [] ss = .ok (args', marker, ss')) :
    args' ≠ [] ∨ marker = some 0 := by
  obtain ⟨left, rfl⟩ := Nat.exists_eq_succ_of_ne_zero (by omega : left ≠ 0)
  rw [readArgs] at h
  dsimp only at h
  split at h
  · cases h
    exact .inr rfl
  · split at h
    · split at h
      · have hle := args_of_readArgs h
        refine .inl fun hnil => ?_
        rw [hnil] at hle
        simp at hle
      · cases h
    · cases h

theorem fault_of_readFloatArgs {args : List (BitVec 64)} {left : Nat} {floatArgs : List F32}
    {ss : Stream} {e : LaunchFault} (h : readFloatArgs read args left floatArgs ss = .error e) :
    e.fault = .undefined := by
  induction left generalizing floatArgs ss with
  | zero => cases h
  | succ left ih =>
    rw [readFloatArgs] at h
    split at h
    · split at h
      · exact ih h
      · cases h
        rfl
    · cases h
      rfl

theorem length_of_readFloatArgs {args : List (BitVec 64)} {left : Nat}
    {floatArgs floatArgs' : List F32} {ss : Stream}
    (h : readFloatArgs read args left floatArgs ss = .ok floatArgs') :
    floatArgs'.length = floatArgs.length + left := by
  induction left generalizing floatArgs ss with
  | zero =>
    cases h
    rfl
  | succ left ih =>
    rw [readFloatArgs] at h
    split at h
    · split at h
      · rw [ih h, List.length_append, List.length_singleton]
        omega
      · cases h
    · cases h

/-- A check that fails with a rejection is not the last one. -/
theorem check_eq_error {info : ParsedLaunch} {arguments : BitVec 64} {e : LaunchFault}
    (h : check info arguments = .error e) (hfault : e.fault = .assertion) :
    e = ⟨.assertion, info.args, info.floatArgs⟩ ∧
      ¬ (toInt arguments.toNat ≤ maxNrIntArg ∧ info.numFloatArgs ≤ maxNrFloatArg) := by
  rw [check] at h
  by_cases hint : toInt arguments.toNat ≤ maxNrIntArg
  · rw [if_neg (not_not_intro hint)] at h
    by_cases hfloat : info.numFloatArgs ≤ maxNrFloatArg
    · rw [if_neg (not_not_intro hfloat)] at h
      by_cases hprint : (arguments - BitVec.ofInt 64 info.numFloatArgs).toNat ≤ maxNrIntArg
      · rw [if_neg (not_not_intro hprint)] at h
        cases h
      · rw [if_pos hprint] at h
        cases h
        cases hfault
    · rw [if_pos hfloat] at h
      cases h
      exact ⟨rfl, fun h => hfloat h.2⟩
  · rw [if_pos hint] at h
    cases h
    exact ⟨rfl, fun h => hint h.1⟩

/-- No line is rejected before something is stored. -/
theorem parse_ne_rejected (line : Text) (hostId : Int) :
    parseKernelLaunch read line hostId ≠ .error .rejected := by
  intro h
  rw [parseKernelLaunch] at h
  generalize header line hostId = r at h
  obtain ⟨info, ss⟩ := r
  dsimp only at h
  generalize doubles info.argSize = n at h
  cases hargs : readArgs (toInt n.toNat).toNat [] ss with
  | error e =>
    rw [hargs] at h
    obtain rfl := Except.error.inj h
    exact absurd (fault_of_readArgs hargs) (by decide)
  | ok r =>
    obtain ⟨args, marker, ss'⟩ := r
    rw [hargs, ok_bind] at h
    dsimp only at h
    cases hfloats : readFloatArgs read args (behind n marker).toNat [] ss' with
    | error e =>
      rw [hfloats] at h
      obtain rfl := Except.error.inj h
      exact absurd (fault_of_readFloatArgs hfloats) (by decide)
    | ok floatArgs =>
      rw [hfloats, ok_bind] at h
      obtain ⟨heq, hfail⟩ := check_eq_error h rfl
      obtain ⟨-, hargs', hfloats'⟩ := LaunchFault.mk.inj heq
      -- with nothing stored there was nothing to be stored, so the checks pass
      obtain rfl : args = [] := hargs'.symm
      obtain rfl : floatArgs = [] := hfloats'.symm
      have hbehind : (behind n marker).toNat = 0 := by
        have hlength := length_of_readFloatArgs hfloats
        simpa using hlength.symm
      have hint : toInt n.toNat ≤ 0 := by
        by_contra hpos
        obtain hne | rfl := stores_of_readArgs (by omega) hargs
        · exact hne rfl
        · have hzero : behind n (some 0) = toInt n.toNat := by simp [behind]
          omega
      have hlimits : (maxNrIntArg : Int) = 61 ∧ (maxNrFloatArg : Int) = 3 := ⟨rfl, rfl⟩
      exact hfail ⟨by omega, by dsimp only; omega⟩

end ParsedLaunch

end NdpSim
