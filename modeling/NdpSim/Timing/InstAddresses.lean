import NdpSim.Timing.Fetch
import NdpSim.Timing.Registration

/-!
# Instruction addresses

Every kernel has `NDP_FUNCTION_OFFSET` bytes of instruction addresses. Its bodies all begin behind
the initializer, and its finalizer as many words later as it has bodies, whatever their lengths.
-/
namespace NdpSim

open Library

def ndpFunctionOffset : Nat := 0x10000

/-- `base_addr` of a column; the identifier of a kernel is a `uint32_t` in a request. -/
def NdpKernel.baseAddr (k : NdpKernel) (req : RequestInfo) : BitVec 64 :=
  let base := (BitVec.ofNat 32 req.kernelId).setWidth 64 * BitVec.ofNat 64 ndpFunctionOffset
  match req.type with
  | .initializer => base
  | .kernelBody => base + BitVec.ofNat 64 (k.initializerInsts.length * 4)
  | .finalizer =>
    base + BitVec.ofNat 64 (k.initializerInsts.length * 4 + k.kernelBodyInsts.length * 4)

namespace KernelTables

/-- A column made by the instruction buffer for a request, wherever its program counter is now. -/
structure Loads (t : KernelTables) (req : RequestInfo) (c : QueuedColumn) : Prop where
  column : t.column req = .ok c.column
  baseAddr : ∀ k, t.ndpKernels.lookup req.kernelId = some k → c.baseAddr = k.baseAddr req

/-- Two requests for the same section of the same kernel. -/
def SameSection (req req' : RequestInfo) : Prop :=
  req.kernelId = req'.kernelId ∧ req.type = req'.type ∧
    (req.type = .kernelBody → req.kernelBodyId = req'.kernelBodyId)

/-- Columns that fetch from one address are at one instruction of one section. -/
def Unambiguous (t : KernelTables) : Prop :=
  ∀ req req' c c', t.Loads req c → t.Loads req' c' → c.Inside → c'.Inside →
    c.instAddr = c'.instAddr → SameSection req req' ∧ c.fetch.pc = c'.fetch.pc

/-- The sections of a kernel, where they are laid out, end within the addresses of the kernel. -/
structure Fits (k : NdpKernel) : Prop where
  initializer : k.initializerInsts.length * 4 ≤ ndpFunctionOffset
  bodies : ∀ insts ∈ k.kernelBodyInsts,
    (k.initializerInsts.length + insts.length) * 4 ≤ ndpFunctionOffset
  finalizer : (k.initializerInsts.length + k.kernelBodyInsts.length +
    k.finalizerInsts.length) * 4 ≤ ndpFunctionOffset

/-- At most one body has instructions, and none reaches to the finalizer if there is one. -/
structure Separated (k : NdpKernel) : Prop where
  bodies : ∀ (i j : Nat) insts insts', k.kernelBodyInsts[i]? = some insts →
    k.kernelBodyInsts[j]? = some insts' → insts ≠ [] → insts' ≠ [] → i = j
  finalizer : k.finalizerInsts ≠ [] → ∀ insts ∈ k.kernelBodyInsts,
    insts.length ≤ k.kernelBodyInsts.length

/-! ## Words of a kernel -/

/-- The place of a section among the words of its kernel. -/
def sectionWord (k : NdpKernel) : RequestType → Nat
  | .initializer => 0
  | .kernelBody => k.initializerInsts.length
  | .finalizer => k.initializerInsts.length + k.kernelBodyInsts.length

/-- The section a request asks for. -/
def sectionInsts (k : NdpKernel) (req : RequestInfo) : Option (List NdpInstruction) :=
  match req.type with
  | .initializer => some k.initializerInsts
  | .finalizer => some k.finalizerInsts
  | .kernelBody => k.kernelBodyInsts[req.kernelBodyId]?

variable {t : KernelTables} {k : NdpKernel} {req req' : RequestInfo} {c c' : QueuedColumn}

theorem Loads.section_eq (h : t.Loads req c) : ∃ k, t.ndpKernels.lookup req.kernelId = some k ∧
    sectionInsts k req = some c.column.insts ∧ c.baseAddr = k.baseAddr req := by
  have hcol := h.column
  cases hk : t.ndpKernels.lookup req.kernelId with
  | none => simp [KernelTables.column, hk] at hcol
  | some k =>
    refine ⟨k, rfl, ?_, h.baseAddr k hk⟩
    simp only [KernelTables.column, hk] at hcol
    unfold sectionInsts
    cases ht : req.type with
    | initializer =>
      simp only [ht] at hcol
      rw [← Except.ok.inj hcol]
      rfl
    | finalizer =>
      simp only [ht] at hcol
      rw [← Except.ok.inj hcol]
      rfl
    | kernelBody =>
      simp only [ht] at hcol
      split at hcol
      case h_1 insts hinsts =>
        rw [hinsts, ← Except.ok.inj hcol]
        rfl
      case h_2 => cases hcol

/-- The section lies within the addresses of its kernel. -/
theorem Fits.section_le (h : Fits k) {insts : List NdpInstruction}
    (hs : sectionInsts k req = some insts) :
    (sectionWord k req.type + insts.length) * 4 ≤ ndpFunctionOffset := by
  unfold sectionInsts at hs
  cases ht : req.type with
  | initializer =>
    rw [ht] at hs
    obtain rfl := Option.some_inj.mp hs
    simpa [sectionWord] using h.initializer
  | kernelBody =>
    rw [ht] at hs
    exact h.bodies insts (List.mem_of_getElem? hs)
  | finalizer =>
    rw [ht] at hs
    obtain rfl := Option.some_inj.mp hs
    exact h.finalizer

/-- The address of an instruction, from its kernel and its word there. -/
theorem toNat_instAddr (hbase : c.baseAddr = k.baseAddr req)
    (hfit : (sectionWord k req.type + c.column.insts.length) * 4 ≤ ndpFunctionOffset)
    (hin : c.Inside) : c.instAddr.toNat =
      (((BitVec.ofNat 32 req.kernelId).setWidth 64).toNat * ndpFunctionOffset +
        (sectionWord k req.type + c.fetch.pc.toNat) * 4) % 2 ^ 64 := by
  obtain ⟨hlow, hhigh⟩ := hin
  have hpc : ((BitVec.ofInt 32 (c.fetch.pc * 4)).setWidth 64).toNat = c.fetch.pc.toNat * 4 := by
    simp only [ndpFunctionOffset] at hfit
    rw [BitVec.toNat_setWidth, BitVec.toNat_ofInt]
    omega
  rw [QueuedColumn.instAddr, BitVec.toNat_add, hpc, hbase, NdpKernel.baseAddr]
  unfold sectionWord at hfit ⊢
  cases ht : req.type <;>
    simp only [ht, ndpFunctionOffset, BitVec.toNat_add, BitVec.toNat_mul,
      BitVec.toNat_ofNat] at hfit ⊢ <;>
    omega

/-- Identifier and word can be read off the address. -/
theorem kernel_word_of_addr {id id' w w' : Nat} (hid : id < 2 ^ 32) (hid' : id' < 2 ^ 32)
    (hw : w * 4 < ndpFunctionOffset) (hw' : w' * 4 < ndpFunctionOffset)
    (h : (((BitVec.ofNat 32 id).setWidth 64).toNat * ndpFunctionOffset + w * 4) % 2 ^ 64 =
      (((BitVec.ofNat 32 id').setWidth 64).toNat * ndpFunctionOffset + w' * 4) % 2 ^ 64) :
    id = id' ∧ w = w' := by
  simp only [ndpFunctionOffset, BitVec.toNat_setWidth, BitVec.toNat_ofNat] at h hw hw'
  omega

/-! ## Ambiguity -/

theorem column_of_section (hk : t.ndpKernels.lookup req.kernelId = some k)
    {insts : List NdpInstruction} (hs : sectionInsts k req = some insts) :
    t.column req = .ok (countedColumn insts k.loopMap req) := by
  unfold sectionInsts at hs
  simp only [KernelTables.column, hk]
  cases ht : req.type with
  | initializer =>
    rw [ht] at hs
    obtain rfl := Option.some_inj.mp hs
    rfl
  | finalizer =>
    rw [ht] at hs
    obtain rfl := Option.some_inj.mp hs
    rfl
  | kernelBody =>
    rw [ht] at hs
    simp only [hs]

/-- A column can be at each instruction of each section. -/
theorem exists_loads (hk : t.ndpKernels.lookup req.kernelId = some k)
    {insts : List NdpInstruction} (hs : sectionInsts k req = some insts) {n : Nat}
    (hn : n < insts.length) : ∃ c : QueuedColumn, t.Loads req c ∧ c.Inside ∧
      c.column.insts = insts ∧ c.fetch.pc = n ∧ c.baseAddr = k.baseAddr req := by
  refine ⟨⟨0, countedColumn insts k.loopMap req, k.baseAddr req, { pc := n }⟩,
    ⟨column_of_section hk hs, fun k' hk' => ?_⟩, ⟨Int.natCast_nonneg n, ?_⟩, rfl, rfl, rfl⟩
  · rw [hk] at hk'
    rw [Option.some_inj.mp hk']
  · exact Int.ofNat_lt.mpr hn

/-- Instructions of one kernel at the same word are the same. -/
theorem Unambiguous.same (h : t.Unambiguous) (hfit : Fits k)
    (hk : t.ndpKernels.lookup req.kernelId = some k) (heq : req.kernelId = req'.kernelId)
    {insts insts' : List NdpInstruction} (hs : sectionInsts k req = some insts)
    (hs' : sectionInsts k req' = some insts') {n n' : Nat} (hn : n < insts.length)
    (hn' : n' < insts'.length)
    (hword : sectionWord k req.type + n = sectionWord k req'.type + n') :
    SameSection req req' ∧ n = n' := by
  obtain ⟨c, hc, hin, hinsts, hpc, hbase⟩ := exists_loads hk hs hn
  obtain ⟨c', hc', hin', hinsts', hpc', hbase'⟩ := exists_loads (heq ▸ hk) hs' hn'
  have hle := hfit.section_le hs
  have hle' := hfit.section_le hs'
  have haddr : c.instAddr = c'.instAddr := by
    apply BitVec.eq_of_toNat_eq
    rw [toNat_instAddr hbase (by rwa [hinsts]) hin, toNat_instAddr hbase' (by rwa [hinsts']) hin',
      hpc, hpc', heq]
    simp only [Int.toNat_natCast]
    rw [hword]
  obtain ⟨hsame, hpcs⟩ := h req req' c c' hc hc' hin hin' haddr
  rw [hpc, hpc'] at hpcs
  exact ⟨hsame, Int.ofNat_inj.mp hpcs⟩

/-- A request for a section. -/
def requestFor (kernelId : Nat) (type : RequestType) (body : Nat) : RequestInfo where
  type := type
  id := 0
  launchId := 0
  kernelId := kernelId
  kernelBodyId := body
  addr := 0
  offset := 0

theorem Unambiguous.separated (h : t.Unambiguous) {id : Nat}
    (hk : t.ndpKernels.lookup id = some k) (hfit : Fits k) : Separated k := by
  refine ⟨fun i j insts insts' hi hj hne hne' => ?_, fun hne insts hmem => ?_⟩
  · have heq : (requestFor id .kernelBody i).kernelId =
        (requestFor id .kernelBody j).kernelId := rfl
    have hsame := h.same hfit hk heq hi hj (List.length_pos_iff.mpr hne)
      (List.length_pos_iff.mpr hne') rfl
    exact hsame.1.2.2 rfl
  · -- the first instruction of the finalizer is at the place of a longer body
    by_contra hlt
    obtain ⟨i, hi⟩ := List.getElem?_of_mem hmem
    have heq : (requestFor id .kernelBody i).kernelId = (requestFor id .finalizer 0).kernelId := rfl
    have hsame := h.same hfit hk heq hi rfl (Nat.lt_of_not_le hlt)
      (List.length_pos_iff.mpr hne) rfl
    cases hsame.1.2.1

/-- Within a kernel whose sections are apart, the word tells section and instruction. -/
theorem Separated.same (h : Separated k) (heq : req.kernelId = req'.kernelId)
    {insts insts' : List NdpInstruction} (hs : sectionInsts k req = some insts)
    (hs' : sectionInsts k req' = some insts') {n n' : Nat} (hn : n < insts.length)
    (hn' : n' < insts'.length)
    (hword : sectionWord k req.type + n = sectionWord k req'.type + n') :
    SameSection req req' ∧ n = n' := by
  have hbody {insts insts' : List NdpInstruction} {i : Nat}
      (hi : k.kernelBodyInsts[i]? = some insts) (hf : k.finalizerInsts = insts')
      {n n' : Nat} (hn : n < insts.length) (hn' : n' < insts'.length)
      (hword : n = k.kernelBodyInsts.length + n') : False := by
    have hle := h.finalizer (by rintro hnil; rw [← hf, hnil] at hn'; cases hn') insts
      (List.mem_of_getElem? hi)
    omega
  unfold sectionInsts at hs hs'
  unfold sectionWord at hword
  unfold SameSection
  cases ht : req.type with
  | initializer =>
    simp only [ht, Option.some.injEq] at hs hword
    subst hs
    cases ht' : req'.type with
    | initializer =>
      simp only [ht'] at hword
      exact ⟨⟨heq, rfl, fun hb => by cases hb⟩, by omega⟩
    | kernelBody | finalizer =>
      simp only [ht'] at hword
      omega
  | kernelBody =>
    simp only [ht] at hs hword
    cases ht' : req'.type with
    | initializer =>
      simp only [ht', Option.some.injEq] at hs' hword
      subst hs'
      omega
    | kernelBody =>
      simp only [ht'] at hs' hword
      have hij := h.bodies _ _ insts insts' hs hs' (List.ne_nil_of_length_pos (by omega))
        (List.ne_nil_of_length_pos (by omega))
      exact ⟨⟨heq, rfl, fun _ => hij⟩, by omega⟩
    | finalizer =>
      simp only [ht', Option.some.injEq] at hs' hword
      exact (hbody hs hs' hn hn' (by omega)).elim
  | finalizer =>
    simp only [ht, Option.some.injEq] at hs hword
    cases ht' : req'.type with
    | initializer =>
      simp only [ht', Option.some.injEq] at hs' hword
      subst hs'
      omega
    | kernelBody =>
      simp only [ht'] at hs' hword
      exact (hbody hs' hs hn' hn (by omega)).elim
    | finalizer =>
      simp only [ht'] at hword
      exact ⟨⟨heq, rfl, fun hb => by cases hb⟩, by omega⟩

/-- Fetch addresses are unambiguous exactly if no registered kernel has two bodies with
instructions, nor a body that reaches to its finalizer. -/
theorem unambiguous_iff_separated (hid : ∀ id k, t.ndpKernels.lookup id = some k → id < 2 ^ 32)
    (hfit : ∀ id k, t.ndpKernels.lookup id = some k → Fits k) :
    t.Unambiguous ↔ ∀ id k, t.ndpKernels.lookup id = some k → Separated k := by
  refine ⟨fun h id k hk => h.separated hk (hfit id k hk), fun h => ?_⟩
  intro req req' c c' hc hc' hin hin' haddr
  obtain ⟨k, hk, hs, hbase⟩ := hc.section_eq
  obtain ⟨k', hk', hs', hbase'⟩ := hc'.section_eq
  have hle := (hfit _ k hk).section_le hs
  have hle' := (hfit _ k' hk').section_le hs'
  have hnat := congrArg BitVec.toNat haddr
  rw [toNat_instAddr hbase hle hin, toNat_instAddr hbase' hle' hin'] at hnat
  obtain ⟨hlow, hhigh⟩ := hin
  obtain ⟨hlow', hhigh'⟩ := hin'
  obtain ⟨heq, hword⟩ := kernel_word_of_addr (hid _ k hk) (hid _ k' hk') (by omega) (by omega) hnat
  rw [← heq, hk] at hk'
  obtain rfl := Option.some_inj.mp hk'
  obtain ⟨hsame, hpc⟩ := (h _ k hk).same heq hs hs' (by omega) (by omega) hword
  exact ⟨hsame, by omega⟩

/-- A kernel with bodies of the given lengths. -/
def bodiesOf (lengths : List Nat) : NdpKernel where
  kernelId := 0
  initializerInsts := []
  kernelBodyInsts := lengths.map fun n => List.replicate n RegisterUnit.sampleLi
  finalizerInsts := []
  loopMap := ∅
  numKernelBodies := lengths.length
  counted := by simp

theorem fits_bodiesOf {lengths : List Nat} (hlen : lengths.length * 4 ≤ ndpFunctionOffset)
    (h : ∀ n ∈ lengths, n * 4 ≤ ndpFunctionOffset) : Fits (bodiesOf lengths) := by
  refine ⟨Nat.zero_le _, fun insts hmem => ?_, by simpa [bodiesOf] using hlen⟩
  obtain ⟨n, hn, rfl⟩ := List.mem_map.mp hmem
  simpa [bodiesOf] using h n hn

theorem bodiesOf_registered (lengths : List Nat) :
    ∃ t, registerAll 1 [bodiesOf lengths] = .ok t ∧
      ∀ id k, t.ndpKernels.lookup id = some k ↔ id = 0 ∧ bodiesOf lengths = k := by
  refine ⟨_, rfl, fun id k => ?_⟩
  change (AList.lookup id ((∅ : Binding Nat NdpKernel).insert 0 (bodiesOf lengths))) = some k ↔ _
  rw [Binding.lookup_insert_eq_ite]
  split <;> simp_all

/-- One body of two instructions. -/
theorem unambiguous_one_body : ∃ t, registerAll 1 [bodiesOf [2]] = .ok t ∧ t.Unambiguous := by
  obtain ⟨t, ht, hlook⟩ := bodiesOf_registered [2]
  refine ⟨t, ht, (unambiguous_iff_separated ?_ ?_).mpr ?_⟩
  · intro id k hk
    rw [((hlook id k).mp hk).1]
    decide
  · intro id k hk
    rw [← ((hlook id k).mp hk).2]
    exact fits_bodiesOf (by decide) (by decide)
  · intro id k hk
    rw [← ((hlook id k).mp hk).2]
    refine ⟨fun i j insts insts' hi hj _ _ => ?_, fun hne => absurd rfl hne⟩
    have hi := (List.getElem?_eq_some_iff.mp hi).1
    have hj := (List.getElem?_eq_some_iff.mp hj).1
    simp only [bodiesOf, List.length_map, List.length_singleton] at hi hj
    omega

/-- Two bodies begin at the same address. -/
theorem ambiguous_two_bodies : ∃ t, registerAll 1 [bodiesOf [1, 1]] = .ok t ∧
    (∀ id k, t.ndpKernels.lookup id = some k → id < 2 ^ 32 ∧ Fits k) ∧ ¬ t.Unambiguous := by
  obtain ⟨t, ht, hlook⟩ := bodiesOf_registered [1, 1]
  refine ⟨t, ht, fun id k hk => ?_, fun h => ?_⟩
  · obtain ⟨rfl, rfl⟩ := (hlook id k).mp hk
    exact ⟨by decide, fits_bodiesOf (by decide) (by decide)⟩
  · have hsep := h.separated ((hlook 0 _).mpr ⟨rfl, rfl⟩) (fits_bodiesOf (by decide) (by decide))
    exact absurd (hsep.bodies 0 1 _ _ rfl rfl (by decide) (by decide)) (by decide)

end KernelTables

end NdpSim
