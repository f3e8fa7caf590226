import NdpSim.Library.DelayQueue
import NdpSim.Parser.Kernel
import NdpSim.Timing.InstAddresses
import NdpSim.Timing.Labels

/-!
# Register counts of the sections

The instruction buffer counts the registers of every section when a kernel is registered, and hands
the counts out with the columns. The counts of the bodies go to three lists besides the bodies,
which nobody gives a length.
-/
namespace NdpSim

open Library KernelTables

/-- The kernel a trace describes. -/
def NdpKernel.ofTrace (t : KernelTrace) : NdpKernel where
  kernelId := t.kernelId
  initializerInsts := t.initializerInsts
  kernelBodyInsts := t.kernelBodyInsts
  finalizerInsts := t.finalizerInsts
  loopMap := t.loopMap
  numKernelBodies := t.kernelBodyInsts.length
  counted := rfl

/-- A kernel with the register counts of its sections, per class. -/
structure CountedKernel where
  kernel : NdpKernel
  initializerRegs : RegClass → Nat
  kernelBodyRegs : RegClass → List Nat
  finalizerRegs : RegClass → Nat

namespace CountedKernel

/-- A parsed kernel; the parser does not touch the counts of a new kernel. -/
def parsed (t : KernelTrace) : CountedKernel := ⟨.ofTrace t, fun _ => 0, fun _ => [], fun _ => 0⟩

/-- `count_required_regs` of body `i`, into place `i` of the three lists. -/
def countBody (k : CountedKernel) (i : Nat) : Except Fault CountedKernel :=
  match k.kernel.kernelBodyInsts[i]? with
  | none => .error .undefined
  | some insts =>
    if i < (k.kernelBodyRegs .x).length ∧ i < (k.kernelBodyRegs .f).length ∧
        i < (k.kernelBodyRegs .v).length then
      .ok { k with
        kernelBodyRegs := fun c => (k.kernelBodyRegs c).set i (countRequiredRegs insts c) }
    else .error .undefined

/-- The counts of all sections. -/
def countSections (k : CountedKernel) : Except Fault CountedKernel := do
  let k := { k with initializerRegs := countRequiredRegs k.kernel.initializerInsts }
  let k ← (List.range k.kernel.numKernelBodies).foldlM countBody k
  return { k with finalizerRegs := countRequiredRegs k.kernel.finalizerInsts }

/-- The column for a request. -/
def column (k : CountedKernel) (req : RequestInfo) : Except Fault InstColumn :=
  match req.type with
  | .initializer =>
    .ok ⟨req, k.kernel.initializerInsts, k.kernel.loopMap, k.initializerRegs .x,
      k.initializerRegs .f, k.initializerRegs .v⟩
  | .finalizer =>
    .ok ⟨req, k.kernel.finalizerInsts, k.kernel.loopMap, k.finalizerRegs .x,
      k.finalizerRegs .f, k.finalizerRegs .v⟩
  | .kernelBody =>
    match k.kernel.kernelBodyInsts[req.kernelBodyId]?, (k.kernelBodyRegs .x)[req.kernelBodyId]?,
      (k.kernelBodyRegs .f)[req.kernelBodyId]?, (k.kernelBodyRegs .v)[req.kernelBodyId]? with
    | some insts, some xregs, some fregs, some vregs =>
      .ok ⟨req, insts, k.kernel.loopMap, xregs, fregs, vregs⟩
    | _, _, _, _ => .error .undefined

end CountedKernel

/-- The instruction buffer. One request enters at a time: `issued` is set until the access interval
is over. -/
structure InstructionBuffer where
  ndpKernels : Binding Nat CountedKernel
  delayQueue : DelayQueue RequestInfo
  issued : Bool
  interval : Nat
  instColumns : List InstColumn

def bufferAccessDelay : Nat := 1
def bufferAccessInterval : Nat := 1

namespace InstructionBuffer

def create : InstructionBuffer := ⟨∅, .create 1, false, 0, []⟩

def registerKernel (b : InstructionBuffer) (k : CountedKernel) :
    Except Fault InstructionBuffer :=
  if (b.ndpKernels.lookup k.kernel.kernelId).isSome then .ok b
  else do
    let k ← k.countSections
    return { b with ndpKernels := b.ndpKernels.insert k.kernel.kernelId k }

def push (b : InstructionBuffer) (req : RequestInfo) : Except Fault InstructionBuffer :=
  if b.issued then .error .assertion
  else .ok { b with
    delayQueue := b.delayQueue.push req bufferAccessDelay
    issued := true
    interval := bufferAccessInterval }

/-- A kernel that is not in the table is a null pointer. -/
def cycle (b : InstructionBuffer) : Except Fault InstructionBuffer :=
  let b := { b with
    interval := b.interval - 1
    issued := b.issued && b.interval - 1 ≠ 0
    delayQueue := b.delayQueue.cycle }
  match b.delayQueue.top? with
  | none => .ok b
  | some req =>
    match b.ndpKernels.lookup req.kernelId with
    | none => .error .undefined
    | some k => do
      let col ← k.column req
      return { b with instColumns := b.instColumns ++ [col], delayQueue := b.delayQueue.pop }

inductive Call
  | push (req : RequestInfo)
  | cycle

def call (b : InstructionBuffer) : Call → Except Fault InstructionBuffer
  | .push req => b.push req
  | .cycle => b.cycle

def run (b : InstructionBuffer) (calls : List Call) : Except Fault InstructionBuffer :=
  calls.foldlM call b

end InstructionBuffer

/-- The request is for a section of the kernel. -/
def NdpKernel.Has (k : NdpKernel) (req : RequestInfo) : Prop :=
  req.kernelId = k.kernelId ∧ (sectionInsts k req).isSome = true

/-- A column with the instructions of the section its request asks for, and their counts. -/
def NdpKernel.Makes (k : NdpKernel) (col : InstColumn) : Prop :=
  ∃ insts, sectionInsts k col.req = some insts ∧ col = countedColumn insts k.loopMap col.req

namespace InstructionBuffer

/-- The kernel can be registered, and then requests for its sections get columns with the
instructions and the counts of the section, without an access outside of a list. -/
def Serves (b : InstructionBuffer) (k : CountedKernel) : Prop :=
  ∃ b', b.registerKernel k = .ok b' ∧
    ∀ calls, (∀ req, Call.push req ∈ calls → k.kernel.Has req) →
      b'.run calls ≠ .error .undefined ∧
      ∀ b'', b'.run calls = .ok b'' → ∃ made, b''.instColumns = b.instColumns ++ made ∧
        ∀ col ∈ made, k.kernel.Makes col


end InstructionBuffer

/-! ## Counting -/

namespace CountedKernel

variable {k k' : CountedKernel} {n : Nat}

/-- Every section has its counts. -/
structure Counted (k : CountedKernel) : Prop where
  initializer : k.initializerRegs = countRequiredRegs k.kernel.initializerInsts
  bodies : ∀ (i : Nat) insts, k.kernel.kernelBodyInsts[i]? = some insts → ∀ c,
    (k.kernelBodyRegs c)[i]? = some (countRequiredRegs insts c)
  finalizer : k.finalizerRegs = countRequiredRegs k.kernel.finalizerInsts

theorem countBody_eq_ok {i : Nat} (h : k.countBody i = .ok k') :
    ∃ insts, k.kernel.kernelBodyInsts[i]? = some insts ∧
      (∀ c, i < (k.kernelBodyRegs c).length) ∧ k' = { k with
        kernelBodyRegs := fun c => (k.kernelBodyRegs c).set i (countRequiredRegs insts c) } := by
  simp only [countBody] at h
  split at h
  · cases h
  case h_2 insts hinsts =>
    split at h
    case isFalse => cases h
    case isTrue hlt =>
      refine ⟨insts, hinsts, fun c => ?_, (Except.ok.inj h).symm⟩
      cases c with
      | x => exact hlt.1
      | f => exact hlt.2.1
      | v => exact hlt.2.2

theorem countBody_of_lt {i : Nat} {insts : List NdpInstruction}
    (hinsts : k.kernel.kernelBodyInsts[i]? = some insts)
    (hlt : ∀ c, i < (k.kernelBodyRegs c).length) : k.countBody i = .ok { k with
      kernelBodyRegs := fun c => (k.kernelBodyRegs c).set i (countRequiredRegs insts c) } := by
  rw [countBody, hinsts]
  exact if_pos ⟨hlt .x, hlt .f, hlt .v⟩

/-- What the loop over the first `n` bodies leaves. -/
structure BodiesCounted (k : CountedKernel) (n : Nat) (k' : CountedKernel) : Prop where
  kernel : k'.kernel = k.kernel
  initializer : k'.initializerRegs = k.initializerRegs
  length : ∀ c, (k'.kernelBodyRegs c).length = (k.kernelBodyRegs c).length
  bodies : ∀ (i : Nat) insts, i < n → k.kernel.kernelBodyInsts[i]? = some insts → ∀ c,
    (k'.kernelBodyRegs c)[i]? = some (countRequiredRegs insts c)

theorem BodiesCounted.step {k₁ : CountedKernel} (h : BodiesCounted k n k₁)
    (hstep : k₁.countBody n = .ok k') : BodiesCounted k (n + 1) k' := by
  obtain ⟨insts, hinsts, hlt, rfl⟩ := countBody_eq_ok hstep
  refine ⟨h.kernel, h.initializer, fun c => ?_, fun i insts' hi hinsts' c => ?_⟩
  · rw [List.length_set]
    exact h.length c
  · rw [List.getElem?_set]
    split
    case isTrue heq =>
      subst heq
      rw [h.kernel] at hinsts
      rw [if_pos (hlt c), Option.some.inj (hinsts.symm.trans hinsts')]
    case isFalse hne => exact h.bodies i insts' (by omega) hinsts' c

/-- A loop that ends has counted, and there was a place for every count. -/
theorem bodiesCounted_of_foldlM (h : (List.range n).foldlM countBody k = .ok k') :
    BodiesCounted k n k' ∧ ∀ c, n ≤ (k.kernelBodyRegs c).length := by
  induction n generalizing k' with
  | zero =>
    obtain rfl := Except.ok.inj h
    exact ⟨⟨rfl, rfl, fun _ => rfl, fun i _ hi => absurd hi (Nat.not_lt_zero i)⟩,
      fun _ => Nat.zero_le _⟩
  | succ n ih =>
    rw [List.range_succ, List.foldlM_append] at h
    obtain ⟨k₁, h₁, h⟩ := bind_eq_ok.mp h
    obtain ⟨hcounted, hle⟩ := ih h₁
    rw [List.foldlM_cons] at h
    obtain ⟨k₂, h₂, h⟩ := bind_eq_ok.mp h
    obtain rfl := Except.ok.inj h
    refine ⟨hcounted.step h₂, fun c => ?_⟩
    obtain ⟨-, -, hlt, -⟩ := countBody_eq_ok h₂
    rw [← hcounted.length c]
    exact hlt c

/-- With a place for every count the loop ends. -/
theorem foldlM_countBody (hn : n ≤ k.kernel.kernelBodyInsts.length)
    (hle : ∀ c, n ≤ (k.kernelBodyRegs c).length) :
    ∃ k', (List.range n).foldlM countBody k = .ok k' := by
  induction n with
  | zero => exact ⟨k, rfl⟩
  | succ n ih =>
    obtain ⟨k₁, h₁⟩ := ih (Nat.le_of_succ_le hn) fun c => Nat.le_of_succ_le (hle c)
    obtain ⟨hcounted, -⟩ := bodiesCounted_of_foldlM h₁
    have hinsts : k₁.kernel.kernelBodyInsts[n]? = some k.kernel.kernelBodyInsts[n] := by
      rw [hcounted.kernel]
      exact List.getElem?_eq_getElem hn
    have hlast := countBody_of_lt hinsts fun c => by rw [hcounted.length]; exact hle c
    rw [List.range_succ, List.foldlM_append, h₁, ok_bind, List.foldlM_cons, hlast]
    exact ⟨_, rfl⟩

/-- The sections can be counted exactly if the lists have a place for every body. -/
theorem countSections_spec (k : CountedKernel) :
    (∃ k', k.countSections = .ok k' ∧ k'.kernel = k.kernel ∧ k'.Counted) ↔
      ∀ c, k.kernel.numKernelBodies ≤ (k.kernelBodyRegs c).length := by
  constructor
  · rintro ⟨k', h, -⟩
    obtain ⟨k₁, h₁, -⟩ := bind_eq_ok.mp h
    exact (bodiesCounted_of_foldlM h₁).2
  · intro hle
    obtain ⟨k₁, h₁⟩ := foldlM_countBody
      (k := { k with initializerRegs := countRequiredRegs k.kernel.initializerInsts })
      k.kernel.counted.le hle
    obtain ⟨hcounted, -⟩ := bodiesCounted_of_foldlM h₁
    refine ⟨{ k₁ with finalizerRegs := countRequiredRegs k₁.kernel.finalizerInsts }, ?_,
      hcounted.kernel, ?_, fun i insts hi c => ?_, rfl⟩
    · exact bind_eq_ok.mpr ⟨k₁, h₁, rfl⟩
    · rw [hcounted.initializer, hcounted.kernel]
    · have hinsts : k.kernel.kernelBodyInsts[i]? = some insts := by
        rw [← hi, hcounted.kernel]
      refine hcounted.bodies i insts ?_ hinsts c
      rw [k.kernel.counted]
      exact (List.getElem?_eq_some_iff.mp hinsts).1

theorem Counted.column_eq (h : k.Counted) {req : RequestInfo} {insts : List NdpInstruction}
    (hs : sectionInsts k.kernel req = some insts) :
    k.column req = .ok (countedColumn insts k.kernel.loopMap req) := by
  unfold sectionInsts at hs
  unfold column
  cases htype : req.type with
  | initializer =>
    rw [htype] at hs
    obtain rfl := Option.some.inj hs
    simp only [h.initializer]
    rfl
  | finalizer =>
    rw [htype] at hs
    obtain rfl := Option.some.inj hs
    simp only [h.finalizer]
    rfl
  | kernelBody =>
    rw [htype] at hs
    simp only [hs, h.bodies _ _ hs]
    rfl

end CountedKernel

namespace InstructionBuffer

variable {b b' : InstructionBuffer} {k k' : CountedKernel}

/-- The kernel is in the table with its counts, only requests for its sections wait, and the
columns made since there were `cols` are its columns. -/
structure Serving (k' : CountedKernel) (cols : List InstColumn) (b : InstructionBuffer) : Prop where
  lookup : b.ndpKernels.lookup k'.kernel.kernelId = some k'
  waiting : ∀ req ∈ b.delayQueue.items, k'.kernel.Has req
  made : ∃ made, b.instColumns = cols ++ made ∧ ∀ col ∈ made, k'.kernel.Makes col

/-- A call that does not fail an assertion goes on serving. -/
theorem Serving.call {cols : List InstColumn} (h : Serving k' cols b) (hk : k'.Counted)
    {c : Call} (hc : ∀ req, c = .push req → k'.kernel.Has req) :
    b.call c = .error .assertion ∨ ∃ b', b.call c = .ok b' ∧ Serving k' cols b' := by
  cases c with
  | push req =>
    rw [InstructionBuffer.call, push]
    split
    · exact .inl rfl
    · refine .inr ⟨_, rfl, h.lookup, fun r hr => ?_, h.made⟩
      rw [DelayQueue.items_push, List.mem_append, List.mem_singleton] at hr
      rcases hr with hr | rfl
      · exact h.waiting r hr
      · exact hc r rfl
  | cycle =>
    refine .inr ?_
    rw [InstructionBuffer.call, cycle]
    dsimp only
    cases htop : b.delayQueue.cycle.top? with
    | none => exact ⟨_, rfl, h.lookup, h.waiting, h.made⟩
    | some req =>
      have hitems := DelayQueue.items_of_top? htop
      rw [DelayQueue.items_cycle] at hitems
      have hreq : k'.kernel.Has req := h.waiting req (by rw [hitems]; exact List.mem_cons_self)
      obtain ⟨insts, hinsts⟩ := Option.isSome_iff_exists.mp hreq.2
      dsimp only
      rw [hreq.1, h.lookup]
      dsimp only
      rw [hk.column_eq hinsts]
      obtain ⟨made, hcols, hmade⟩ := h.made
      refine ⟨_, rfl, h.lookup, fun r hr => h.waiting r ?_,
        made ++ [countedColumn insts k'.kernel.loopMap req], ?_, fun col hcol => ?_⟩
      · rw [hitems]
        exact List.mem_cons_of_mem _ hr
      · rw [hcols, List.append_assoc]
      · rcases List.mem_append.mp hcol with hcol | hcol
        · exact hmade col hcol
        · obtain rfl := List.mem_singleton.mp hcol
          exact ⟨insts, hinsts, rfl⟩

theorem Serving.run {cols : List InstColumn} (h : Serving k' cols b) (hk : k'.Counted)
    {calls : List Call} (hcalls : ∀ req, Call.push req ∈ calls → k'.kernel.Has req) :
    b.run calls = .error .assertion ∨ ∃ b', b.run calls = .ok b' ∧ Serving k' cols b' := by
  induction calls generalizing b with
  | nil => exact .inr ⟨b, rfl, h⟩
  | cons c calls ih =>
    rw [InstructionBuffer.run, List.foldlM_cons]
    rcases h.call hk (c := c) (fun req hc => hcalls req (hc ▸ List.mem_cons_self)) with
      hfault | ⟨b₁, hb₁, h₁⟩
    · rw [hfault]
      exact .inl rfl
    · rw [hb₁]
      exact ih h₁ fun req hreq => hcalls req (List.mem_cons_of_mem _ hreq)

/-- A new kernel is served exactly if the lists of its counts have a place for every body. -/
theorem serves_iff_sized (hidle : b.delayQueue.items = [])
    (hnew : b.ndpKernels.lookup k.kernel.kernelId = none) :
    b.Serves k ↔ ∀ c, k.kernel.numKernelBodies ≤ (k.kernelBodyRegs c).length := by
  have hregister : b.registerKernel k = do
      let k' ← k.countSections
      return { b with ndpKernels := b.ndpKernels.insert k'.kernel.kernelId k' } := by
    rw [registerKernel, if_neg (by rw [hnew]; exact Bool.false_ne_true)]
  constructor
  · rintro ⟨b', hb', -⟩
    rw [hregister] at hb'
    obtain ⟨k', hk', -⟩ := bind_eq_ok.mp hb'
    obtain ⟨k₁, h₁, -⟩ := bind_eq_ok.mp hk'
    exact (CountedKernel.bodiesCounted_of_foldlM h₁).2
  · intro hsized
    obtain ⟨k', hk', hkernel, hcounted⟩ := k.countSections_spec.mpr hsized
    refine ⟨_, by rw [hregister, hk']; rfl, fun calls hcalls => ?_⟩
    have hserving : Serving k' b.instColumns
        { b with ndpKernels := b.ndpKernels.insert k'.kernel.kernelId k' } := by
      refine ⟨AList.lookup_insert _, fun req hreq => ?_, [], (List.append_nil _).symm, nofun⟩
      rw [hidle] at hreq
      cases hreq
    rw [← hkernel] at hcalls ⊢
    rcases hserving.run hcounted hcalls with hfault | ⟨b₁, hb₁, h₁⟩
    · refine ⟨by rw [hfault]; nofun, fun b'' hb'' => ?_⟩
      cases hfault.symm.trans hb''
    · refine ⟨by rw [hb₁]; nofun, fun b'' hb'' => ?_⟩
      obtain rfl := Except.ok.inj (hb₁.symm.trans hb'')
      exact h₁.made

/-- A parsed kernel is served if its trace opens no body, and only then. -/
theorem serves_parsed_iff {file : List Text} {t : KernelTrace} (ht : parseNdpKernel file = .ok t)
    (hidle : b.delayQueue.items = []) (hnew : b.ndpKernels.lookup t.kernelId = none) :
    b.Serves (.parsed t) ↔ bodyCount (kernelLines file) = 0 := by
  rw [serves_iff_sized hidle hnew, ← (tracks_of_parse ht).bodies]
  constructor
  · intro h
    exact Nat.le_zero.mp (h .x)
  · intro h c
    exact h.le

/-- A kernel with an initializer alone. -/
def initializerFile : List Text :=
  ["-kernel name = setup", "-kernel id = 1", "", "INITIALIZER:", "li x3, 2"].map String.toList

theorem serves_initializerFile :
    ∃ t, parseNdpKernel initializerFile = .ok t ∧ create.Serves (.parsed t) := by
  obtain ⟨t, ht⟩ : ∃ t, parseNdpKernel initializerFile = .ok t := ⟨_, rfl⟩
  refine ⟨t, ht, (serves_parsed_iff ht rfl ?_).mpr (by decide)⟩
  exact AList.lookup_empty _

/-- The loop of `loopFile` is the body of a kernel, and cannot be counted. -/
theorem not_serves_loopFile :
    ∃ t, parseNdpKernel loopFile = .ok t ∧ ¬ create.Serves (.parsed t) := by
  obtain ⟨t, ht, hfault⟩ : ∃ t, parseNdpKernel loopFile = .ok t ∧
      create.registerKernel (.parsed t) = .error .undefined := ⟨_, rfl, rfl⟩
  refine ⟨t, ht, ?_⟩
  rintro ⟨b', hb', -⟩
  cases hfault.symm.trans hb'

end InstructionBuffer

end NdpSim
