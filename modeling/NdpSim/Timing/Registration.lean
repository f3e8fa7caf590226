import NdpSim.Timing.InstructionBuffer
import NdpSim.Timing.Barrier

/-!
# Kernel registration

A kernel is registered with the instruction buffer, which keeps the first kernel of an id, and with
the micro-thread generator, which keeps the body count of the last one. The generator makes requests
for the bodies it counted, and the buffer looks them up in the kernel it kept.
-/
namespace NdpSim

open Library

/-- A parsed kernel; the parser counts the bodies as it opens them. -/
structure NdpKernel where
  kernelId : Nat
  initializerInsts : List NdpInstruction
  kernelBodyInsts : List (List NdpInstruction)
  finalizerInsts : List NdpInstruction
  loopMap : LoopMap
  numKernelBodies : Nat
  counted : numKernelBodies = kernelBodyInsts.length

/-- What the components of an NDP unit know of the kernels: `ndpKernels` is the table of the
instruction buffer, the others belong to the micro-thread generator. -/
structure KernelTables where
  ndpKernels : Binding Nat NdpKernel
  registeredFunctions : Finset Nat
  numKernelBodies : Binding Nat Nat

namespace KernelTables

def create : KernelTables := ⟨∅, ∅, ∅⟩

/-- `InstructionBuffer::register_kernel` -/
def bufferRegisterKernel (t : KernelTables) (k : NdpKernel) : KernelTables :=
  if (t.ndpKernels.lookup k.kernelId).isSome then t
  else { t with ndpKernels := t.ndpKernels.insert k.kernelId k }

/-- `UThreadGenerator::register_kernel` -/
def generatorRegisterKernel (t : KernelTables) (k : NdpKernel) : KernelTables :=
  { t with
    registeredFunctions := insert k.kernelId t.registeredFunctions
    numKernelBodies := t.numKernelBodies.insert k.kernelId k.numKernelBodies }

def canRegister (maxKernelRegister : Nat) (t : KernelTables) : Bool :=
  t.ndpKernels.entries.length < maxKernelRegister

/-- `NdpUnit::register_ndp_kernel` -/
def registerNdpKernel (maxKernelRegister : Nat) (t : KernelTables) (k : NdpKernel) :
    Except Fault KernelTables :=
  if t.canRegister maxKernelRegister then
    .ok ((t.bufferRegisterKernel k).generatorRegisterKernel k)
  else .error .assertion

def registerAll (maxKernelRegister : Nat) (ks : List NdpKernel) : Except Fault KernelTables :=
  ks.foldlM (registerNdpKernel maxKernelRegister) create

/-- The body count the generator reads, `0` for a kernel it does not know. -/
def bodies (t : KernelTables) (kernelId : Nat) : Nat := (t.numKernelBodies.lookup kernelId).getD 0

/-- The column `InstructionBuffer::cycle` builds for a request. A body that the kernel does not
have is read past the end of the list. -/
def column (t : KernelTables) (req : RequestInfo) : Except Fault InstColumn :=
  match t.ndpKernels.lookup req.kernelId with
  | none => .error .undefined
  | some k =>
    match req.type with
    | .initializer => .ok (countedColumn k.initializerInsts k.loopMap req)
    | .finalizer => .ok (countedColumn k.finalizerInsts k.loopMap req)
    | .kernelBody =>
      match k.kernelBodyInsts[req.kernelBodyId]? with
      | some insts => .ok (countedColumn insts k.loopMap req)
      | none => .error .undefined

/-- The two components agree on the kernels: they count the same bodies, and whatever a launch of a
registered kernel asks for is there, on every unit. -/
structure Consistent (t : KernelTables) : Prop where
  count : ∀ id ∈ t.registeredFunctions, ∃ k, t.ndpKernels.lookup id = some k ∧
    t.bodies id = k.kernelBodyInsts.length
  served : ∀ (cfg : GeneratorConfig) (kinfo : KernelLaunchInfo) (reqId : Nat),
    cfg.numKernelBodies = t.bodies → kinfo.kernelId ∈ t.registeredFunctions →
    ∀ req ∈ UThreadGenerator.launchRequests cfg kinfo reqId, ∃ col, t.column req = .ok col

end KernelTables

/-- The first kernel with an id. -/
def firstKernel (ks : List NdpKernel) (id : Nat) : Option NdpKernel :=
  ks.find? fun k => k.kernelId = id

/-- The last kernel with an id. -/
def lastKernel (ks : List NdpKernel) (id : Nat) : Option NdpKernel :=
  ks.reverse.find? fun k => k.kernelId = id

/-- For every id the first and the last kernel have equally many bodies, one at least. -/
def SameBodies (ks : List NdpKernel) : Prop :=
  ∀ id k k', firstKernel ks id = some k → lastKernel ks id = some k' →
    k'.numKernelBodies = k.numKernelBodies ∧ 0 < k.numKernelBodies

namespace KernelTables

variable {maxKernelRegister : Nat} {ks : List NdpKernel} {t : KernelTables}

/-- What the tables hold after a sequence of registrations. -/
structure Registered (ks : List NdpKernel) (t : KernelTables) : Prop where
  kernels : ∀ id, t.ndpKernels.lookup id = firstKernel ks id
  functions : ∀ id, id ∈ t.registeredFunctions ↔ ∃ k ∈ ks, k.kernelId = id
  bodies : ∀ id, t.numKernelBodies.lookup id = (lastKernel ks id).map NdpKernel.numKernelBodies

theorem firstKernel_snoc (ks : List NdpKernel) (k : NdpKernel) (id : Nat) :
    firstKernel (ks ++ [k]) id =
      (firstKernel ks id).or (if k.kernelId = id then some k else none) := by
  simp only [firstKernel, List.find?_append, List.find?_singleton, decide_eq_true_eq]

theorem lastKernel_snoc (ks : List NdpKernel) (k : NdpKernel) (id : Nat) :
    lastKernel (ks ++ [k]) id = if k.kernelId = id then some k else lastKernel ks id := by
  simp only [lastKernel, List.reverse_append, List.reverse_singleton, List.singleton_append,
    List.find?_cons]
  split <;> simp_all

theorem Registered.snoc (h : Registered ks t) (k : NdpKernel) :
    Registered (ks ++ [k]) ((t.bufferRegisterKernel k).generatorRegisterKernel k) := by
  have hkeep : (t.bufferRegisterKernel k).registeredFunctions = t.registeredFunctions ∧
      (t.bufferRegisterKernel k).numKernelBodies = t.numKernelBodies := by
    unfold bufferRegisterKernel
    split <;> exact ⟨rfl, rfl⟩
  refine ⟨fun id => ?_, fun id => ?_, fun id => ?_⟩
  · rw [firstKernel_snoc, ← h.kernels]
    simp only [generatorRegisterKernel, bufferRegisterKernel]
    split
    case isTrue hsome =>
      by_cases hid : k.kernelId = id
      · obtain ⟨k', hk'⟩ := Option.isSome_iff_exists.mp hsome
        rw [← hid, hk']
        rfl
      · simp [hid]
    case isFalse hnone =>
      rw [Binding.lookup_insert_eq_ite]
      by_cases hid : k.kernelId = id
      · have hlook : t.ndpKernels.lookup id = none := by
          rw [← hid]
          simpa using hnone
        simp [hid, hlook]
      · simp [hid, Ne.symm hid]
  · simp only [generatorRegisterKernel, hkeep.1, Finset.mem_insert, h.functions, List.mem_append,
      List.mem_singleton]
    constructor
    · rintro (rfl | ⟨k', hk', hid⟩)
      · exact ⟨k, .inr rfl, rfl⟩
      · exact ⟨k', .inl hk', hid⟩
    · rintro ⟨k', hk' | rfl, rfl⟩
      · exact .inr ⟨k', hk', rfl⟩
      · exact .inl rfl
  · simp only [generatorRegisterKernel, hkeep.2, Binding.lookup_insert_eq_ite, lastKernel_snoc]
    by_cases hid : k.kernelId = id
    · simp [hid]
    · simp [hid, Ne.symm hid, h.bodies]

theorem registered (h : registerAll maxKernelRegister ks = .ok t) : Registered ks t := by
  induction ks using List.reverseRecOn generalizing t with
  | nil =>
    obtain rfl := Except.ok.inj h
    refine ⟨fun id => ?_, fun id => ?_, fun id => ?_⟩ <;>
      simp [create, firstKernel, lastKernel]
  | append_singleton ks k ih =>
    simp only [registerAll, List.foldlM_append] at h
    obtain ⟨t₁, h₁, h⟩ := bind_eq_ok.mp h
    simp only [List.foldlM_cons, List.foldlM_nil, registerNdpKernel] at h
    obtain ⟨t₂, h₂, h⟩ := bind_eq_ok.mp h
    obtain rfl := Except.ok.inj h
    split at h₂
    case isFalse => cases h₂
    case isTrue =>
      obtain rfl := Except.ok.inj h₂
      exact (ih h₁).snoc k

/-! ## The requests of a launch -/

open UThreadGenerator

/-- The bodies a launch asks for: the first one in any case, and those the generator counts. -/
theorem body_of_mem_launchRequests {cfg : GeneratorConfig} {kinfo : KernelLaunchInfo} {id : Nat}
    {req : RequestInfo} (h : req ∈ launchRequests cfg kinfo id) :
    req.kernelId = kinfo.kernelId ∧
      (req.kernelBodyId = 0 ∨ req.kernelBodyId < cfg.numKernelBodies kinfo.kernelId) := by
  obtain ⟨_, _, body, _, _, rfl, hbody⟩ := History.mem_launchRequests h
  exact ⟨rfl, hbody⟩

/-- A request for a body the kernel has, or for one of its other sections, is served. -/
theorem column_eq_ok {k : NdpKernel} {req : RequestInfo}
    (hk : t.ndpKernels.lookup req.kernelId = some k)
    (hbody : req.kernelBodyId < k.kernelBodyInsts.length) : ∃ col, t.column req = .ok col := by
  simp only [column, hk]
  cases req.type with
  | initializer => exact ⟨_, rfl⟩
  | finalizer => exact ⟨_, rfl⟩
  | kernelBody => simp [List.getElem?_eq_getElem hbody]

/-- A unit that owns every packet. -/
def ownsAll (bodies : Nat → Nat) : GeneratorConfig :=
  ⟨0, fun _ => true, ∅, bodies, 0, 0, false, false, 0⟩

/-- A launch of a kernel asks for its first body as soon as one packet matches. -/
theorem exists_body_request (bodies : Nat → Nat) (kernelId : Nat) :
    ∃ kinfo reqId, kinfo.kernelId = kernelId ∧
      ∃ req ∈ launchRequests (ownsAll bodies) kinfo reqId,
        req.type = .kernelBody ∧ req.kernelId = kernelId ∧ req.kernelBodyId = 0 := by
  refine ⟨⟨0, kernelId, 0, packetSize, 0⟩, 0, rfl,
    mkRequest ⟨0, kernelId, 0, packetSize, 0⟩ 1 .kernelBody 0 0 0, ?_, rfl, rfl, rfl⟩
  simp [launchRequests, matched, packets, ownsAll, packetSize, bodyRequests]

/-! ## Agreement -/

theorem exists_firstKernel {id : Nat} (h : ∃ k ∈ ks, k.kernelId = id) :
    ∃ k, firstKernel ks id = some k := by
  obtain ⟨k, hk, hid⟩ := h
  exact Option.isSome_iff_exists.mp (List.find?_isSome.mpr ⟨k, hk, by simpa using hid⟩)

theorem exists_lastKernel {id : Nat} (h : ∃ k ∈ ks, k.kernelId = id) :
    ∃ k, lastKernel ks id = some k := by
  obtain ⟨k, hk, hid⟩ := h
  exact Option.isSome_iff_exists.mp
    (List.find?_isSome.mpr ⟨k, List.mem_reverse.mpr hk, by simpa using hid⟩)

theorem Registered.bodies_eq (h : Registered ks t) {id : Nat} {k : NdpKernel}
    (hk : lastKernel ks id = some k) : t.bodies id = k.numKernelBodies := by
  simp [KernelTables.bodies, h.bodies, hk]

theorem Registered.consistent (h : Registered ks t) (hs : SameBodies ks) : t.Consistent := by
  have hboth : ∀ id ∈ t.registeredFunctions, ∃ k, t.ndpKernels.lookup id = some k ∧
      t.bodies id = k.kernelBodyInsts.length ∧ 0 < k.kernelBodyInsts.length := by
    intro id hid
    obtain ⟨k, hk⟩ := exists_firstKernel ((h.functions id).mp hid)
    obtain ⟨k', hk'⟩ := exists_lastKernel ((h.functions id).mp hid)
    obtain ⟨heq, hpos⟩ := hs id k k' hk hk'
    refine ⟨k, (h.kernels id).trans hk, ?_, ?_⟩
    · rw [h.bodies_eq hk', heq, k.counted]
    · rw [← k.counted]
      exact hpos
  refine ⟨fun id hid => ?_, fun cfg kinfo reqId hcfg hreg req hreq => ?_⟩
  · obtain ⟨k, hk, hcount, -⟩ := hboth id hid
    exact ⟨k, hk, hcount⟩
  · obtain ⟨hid, hbody⟩ := body_of_mem_launchRequests hreq
    obtain ⟨k, hk, hcount, hpos⟩ := hboth _ hreg
    rw [hcfg, hcount] at hbody
    rw [← hid] at hk
    exact column_eq_ok hk (by omega)

/-- A kernel without bodies cannot be served: its launches ask for the first body. -/
theorem Consistent.bodies_pos (h : t.Consistent) {id : Nat} {k : NdpKernel}
    (hid : id ∈ t.registeredFunctions) (hk : t.ndpKernels.lookup id = some k) :
    0 < k.kernelBodyInsts.length := by
  by_contra hzero
  obtain ⟨kinfo, reqId, rfl, req, hreq, htype, hkid, hbody⟩ := exists_body_request t.bodies id
  obtain ⟨col, hcol⟩ := h.served (ownsAll t.bodies) kinfo reqId rfl hid req hreq
  have hnone : k.kernelBodyInsts[0]? = none := List.getElem?_eq_none (by omega)
  rw [← hkid] at hk
  simp [column, hk, htype, hbody, hnone] at hcol

/-- The components agree exactly if the kernels that were registered for one id agree on their
number of bodies, and have one. -/
theorem consistent_iff_sameBodies (h : registerAll maxKernelRegister ks = .ok t) :
    t.Consistent ↔ SameBodies ks := by
  have hreg := registered h
  refine ⟨fun hc id k k' hk hk' => ?_, hreg.consistent⟩
  have hid : id ∈ t.registeredFunctions := by
    rw [hreg.functions]
    exact ⟨k, List.mem_of_find?_eq_some hk, by simpa using List.find?_some hk⟩
  have hlook : t.ndpKernels.lookup id = some k := (hreg.kernels id).trans hk
  obtain ⟨k₀, hk₀, hcount⟩ := hc.count id hid
  obtain rfl : k = k₀ := Option.some_inj.mp (hlook.symm.trans hk₀)
  refine ⟨?_, ?_⟩
  · rw [← hreg.bodies_eq hk', hcount, k.counted]
  · rw [k.counted]
    exact hc.bodies_pos hid hlook

/-- A kernel with `n` empty bodies. -/
def bodiesOnly (n : Nat) : NdpKernel where
  kernelId := 0
  initializerInsts := []
  kernelBodyInsts := List.replicate n []
  finalizerInsts := []
  loopMap := ∅
  numKernelBodies := n
  counted := List.length_replicate.symm

theorem consistent_after_reload :
    ∃ t, registerAll 2 [bodiesOnly 2, bodiesOnly 2] = .ok t ∧ t.Consistent := by
  have h : registerAll 2 [bodiesOnly 2, bodiesOnly 2] = .ok _ := rfl
  refine ⟨_, h, (consistent_iff_sameBodies h).mpr fun id k k' hk hk' => ?_⟩
  have hmem := List.mem_of_find?_eq_some hk
  have hmem' := List.mem_reverse.mp (List.mem_of_find?_eq_some hk')
  simp only [List.mem_cons, List.not_mem_nil, or_false, or_self] at hmem hmem'
  subst hmem hmem'
  exact ⟨rfl, by decide⟩

/-- A kernel with two bodies comes in place of one with a single body. -/
theorem not_consistent_after_change :
    ∃ t, registerAll 2 [bodiesOnly 1, bodiesOnly 2] = .ok t ∧ ¬ t.Consistent := by
  refine ⟨_, rfl, fun h => ?_⟩
  obtain ⟨k, hk, hcount⟩ := h.count 0 (by decide)
  obtain rfl := Option.some.inj (show some _ = some k from hk)
  exact absurd hcount (by decide)

end KernelTables

end NdpSim
