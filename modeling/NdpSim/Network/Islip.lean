import Mathlib.Data.Finset.Card
import NdpSim.Isa.VectorData
import NdpSim.Library.RoundRobin

/-!
# The iSLIP allocator

Each output grants one of the inputs that request it and each input accepts one of its grants, both
in turn. This is repeated for those that are left.
-/
namespace NdpSim

open Library

structure Islip where
  inputs : Nat
  outputs : Nat
  iters : Nat
  /-- The label of a request from an input to an output. -/
  request : Nat → Nat → Option Nat := fun _ _ => none
  inmatch : Nat → Option Nat := fun _ => none
  outmatch : Nat → Option Nat := fun _ => none
  gptrs : Nat → Nat := fun _ => 0
  aptrs : Nat → Nat := fun _ => 0

namespace Islip

def clear (a : Islip) : Islip :=
  { a with request := fun _ _ => none, inmatch := fun _ => none, outmatch := fun _ => none }

def setRequest (a : Islip) (input output : Nat) (label : Option Nat) : Islip :=
  { a with
    request := Function.update a.request input (Function.update (a.request input) output label) }

theorem setRequest_request (a : Islip) (input output i o : Nat) (label : Option Nat) :
    (a.setRequest input output label).request i o =
      if i = input ∧ o = output then label else a.request i o := by
  simp only [setRequest, Function.update_apply]
  split_ifs <;> simp_all

def addRequest (a : Islip) (input output label : Nat) : Except Fault Islip :=
  if input < a.inputs ∧ output < a.outputs ∧ a.request input output = none then
    .ok (a.setRequest input output (some label))
  else .error .assertion

def removeRequest (a : Islip) (input output label : Nat) : Except Fault Islip :=
  if input < a.inputs ∧ output < a.outputs ∧ a.request input output = some label then
    .ok (a.setRequest input output none)
  else .error .assertion

/-! ## One iteration -/

/-- The grant of an output that is not matched yet. -/
def grant (a : Islip) (output : Nat) : Option Nat :=
  if a.outmatch output ≠ none then none
  else pick a.inputs (a.gptrs output) fun input =>
    (a.request input output).isSome && (a.inmatch input).isNone

def accept (a : Islip) (input : Nat) : Option Nat :=
  pick a.outputs (a.aptrs input) fun output =>
    (a.request input output).isSome && a.grant output == some input

/-- The input that accepts the grant of an output. -/
def accepted (a : Islip) (output : Nat) : Option Nat :=
  (a.grant output).filter fun input => a.accept input == some output

/-- The pointers only move in the first iteration. -/
def iteration (a : Islip) (first : Bool) : Islip := { a with
  inmatch := fun input => (a.accept input).or (a.inmatch input)
  outmatch := fun output => (a.accepted output).or (a.outmatch output)
  gptrs := fun output => match a.accepted output with
    | some input => if first then (input + 1) % a.inputs else a.gptrs output
    | none => a.gptrs output
  aptrs := fun input => match a.accept input with
    | some output => if first then (output + 1) % a.outputs else a.aptrs input
    | none => a.aptrs input }

def iterate (a : Islip) (iters : Nat) : Islip :=
  (List.range iters).foldl (fun a iter => a.iteration (iter == 0)) a

def allocate (a : Islip) : Islip := a.iterate a.iters

/-! ## What an iteration does -/

/-- There are ports and the pointers point to them. -/
structure Pointed (a : Islip) : Prop where
  gptr : ∀ output, a.gptrs output < a.inputs
  aptr : ∀ input, a.aptrs input < a.outputs

/-- The matches of the inputs and of the outputs are the same, and were requested. -/
structure Matched (a : Islip) : Prop where
  same : ∀ input output, a.inmatch input = some output ↔ a.outmatch output = some input
  requested : ∀ input output, a.inmatch input = some output →
    input < a.inputs ∧ output < a.outputs ∧ (a.request input output).isSome

/-- Nothing is requested that could still be matched. -/
def Maximal (a : Islip) : Prop :=
  ∀ input < a.inputs, ∀ output < a.outputs, (a.request input output).isSome →
    a.inmatch input = none → (a.outmatch output).isSome

variable {a : Islip} {input output : Nat} {first : Bool}

theorem grant_eq_some (ha : a.Pointed) (h : a.grant output = some input) :
    a.outmatch output = none ∧ input < a.inputs ∧ (a.request input output).isSome ∧
      a.inmatch input = none := by
  unfold grant at h
  split_ifs at h with hout
  obtain ⟨hlt, hreq, -⟩ := pick_eq_some (ha.gptr output) h
  grind [Option.isNone_iff_eq_none]

theorem accept_eq_some (ha : a.Pointed) (h : a.accept input = some output) :
    output < a.outputs ∧ a.grant output = some input := by
  obtain ⟨hlt, hgrant, -⟩ := pick_eq_some (ha.aptr input) h
  grind

theorem accepted_eq_some (ha : a.Pointed) :
    a.accepted output = some input ↔ a.accept input = some output := by
  constructor
  · intro h
    have hmem := Option.filter_eq_some_iff.mp h
    exact by simpa using hmem.2
  · intro h
    apply Option.filter_eq_some_iff.mpr
    exact ⟨(accept_eq_some ha h).2, by simp [h]⟩

theorem Pointed.iteration (ha : a.Pointed) : (a.iteration first).Pointed := by
  constructor
  · intro output
    have hlt := ha.gptr output
    dsimp only [Islip.iteration]
    split
    · split_ifs
      · exact Nat.mod_lt _ (by omega)
      · exact hlt
    · exact hlt
  · intro input
    have hlt := ha.aptr input
    dsimp only [Islip.iteration]
    split
    · split_ifs
      · exact Nat.mod_lt _ (by omega)
      · exact hlt
    · exact hlt

/-- What is matched is left alone. -/
theorem accept_eq_none (ha : a.Pointed) (h : a.inmatch input ≠ none) : a.accept input = none := by
  cases haccept : a.accept input with
  | none => rfl
  | some output =>
    have hgrant := (accept_eq_some ha haccept).2
    exact absurd (grant_eq_some ha hgrant).2.2.2 h

theorem accepted_eq_none (ha : a.Pointed) (h : a.outmatch output ≠ none) :
    a.accepted output = none := by
  cases haccepted : a.accepted output with
  | none => rfl
  | some input =>
    have haccept := (accepted_eq_some ha).mp haccepted
    exact absurd (grant_eq_some ha (accept_eq_some ha haccept).2).1 h

theorem Matched.iteration (ha : a.Pointed) (hm : a.Matched) : (a.iteration first).Matched := by
  constructor
  · intro input output
    have hsame := hm.same input output
    have hiff : a.accepted output = some input ↔ a.accept input = some output :=
      accepted_eq_some ha
    have hin : a.inmatch input ≠ none → a.accept input = none := accept_eq_none ha
    have hout : a.outmatch output ≠ none → a.accepted output = none := accepted_eq_none ha
    simp only [Islip.iteration, Option.or_eq_some_iff]
    grind
  · intro input output h
    simp only [Islip.iteration, Option.or_eq_some_iff] at h ⊢
    obtain h | ⟨-, h⟩ := h
    · obtain ⟨hlt, hgrant⟩ := accept_eq_some ha h
      obtain ⟨-, hin, hreq, -⟩ := grant_eq_some ha hgrant
      exact ⟨hin, hlt, hreq⟩
    · exact hm.requested input output h

/-- A request between two free ports leads to a new match. -/
theorem exists_accept (ha : a.Pointed) (h : ¬a.Maximal) : ∃ input < a.inputs, ∃ output < a.outputs,
    a.inmatch input = none ∧ a.outmatch output = none ∧ a.accept input = some output := by
  unfold Maximal at h
  push Not at h
  obtain ⟨input, hin, output, hout, hreq, hfree, hopen⟩ := h
  have hgrant : (a.grant output).isSome := by
    rw [grant, if_neg (by simpa using hopen)]
    apply (pick_isSome (ha.gptr output)).mpr
    exact ⟨input, hin, by simp [hreq, hfree]⟩
  obtain ⟨other, hgrant⟩ := Option.isSome_iff_exists.mp hgrant
  obtain ⟨-, hother, hreq, hfree⟩ := grant_eq_some ha hgrant
  have haccept : (a.accept other).isSome := by
    apply (pick_isSome (ha.aptr other)).mpr
    exact ⟨output, hout, by simp [hreq, hgrant]⟩
  obtain ⟨output', haccept⟩ := Option.isSome_iff_exists.mp haccept
  obtain ⟨hlt, hgrant'⟩ := accept_eq_some ha haccept
  exact ⟨other, hother, output', hlt, hfree, (grant_eq_some ha hgrant').1, haccept⟩

theorem Maximal.iteration (h : a.Maximal) : (a.iteration first).Maximal := by
  intro input hin output hout hreq hfree
  simp only [Islip.iteration, Option.or_eq_none_iff, Option.isSome_or] at hreq hfree ⊢
  simp [h input hin output hout hreq hfree.2]

/-! ## All iterations -/

/-- How many of `n` ports are matched. -/
def count (n : Nat) (m : Nat → Option Nat) : Nat :=
  ((Finset.range n).filter fun i => (m i).isSome).card

theorem count_lt {n i : Nat} {m m' : Nat → Option Nat} (hkept : ∀ i, (m i).isSome → (m' i).isSome)
    (hi : i < n) (hfree : m i = none) (hnew : (m' i).isSome) : count n m < count n m' := by
  apply Finset.card_lt_card
  refine Finset.ssubset_iff_of_subset (fun j hj => ?_) |>.mpr ⟨i, ?_, ?_⟩
  · grind
  · grind
  · grind

theorem isSome_of_count {n i : Nat} {m : Nat → Option Nat} (h : n ≤ count n m) (hi : i < n) :
    (m i).isSome := by
  have hall : (Finset.range n).filter (fun i => (m i).isSome = true) = Finset.range n := by
    apply Finset.eq_of_subset_of_card_le (Finset.filter_subset ..)
    rwa [Finset.card_range]
  have hmem := Finset.mem_range.mpr hi
  rw [← hall] at hmem
  exact (Finset.mem_filter.mp hmem).2

/-- An iteration adds a pair as long as a request between two free ports is left. -/
theorem count_iteration (ha : a.Pointed) (h : ¬a.Maximal) :
    count a.inputs a.inmatch < count a.inputs (a.iteration first).inmatch ∧
      count a.outputs a.outmatch < count a.outputs (a.iteration first).outmatch := by
  obtain ⟨input, hi, output, ho, hfree, hopen, haccept⟩ := exists_accept ha h
  have haccepted := (accepted_eq_some ha).mpr haccept
  constructor
  · apply count_lt _ hi hfree
    · simp [Islip.iteration, haccept]
    · intro i his
      simp [Islip.iteration, his]
  · apply count_lt _ ho hopen
    · simp [Islip.iteration, haccepted]
    · intro i his
      simp [Islip.iteration, his]

theorem iterate_succ (a : Islip) (k : Nat) :
    a.iterate (k + 1) = (a.iterate k).iteration (k == 0) := by
  rw [iterate, List.range_succ, List.foldl_append]
  rfl

theorem iterate_frame (a : Islip) (k : Nat) : (a.iterate k).inputs = a.inputs ∧
    (a.iterate k).outputs = a.outputs ∧ (a.iterate k).request = a.request := by
  induction k with
  | zero => exact ⟨rfl, rfl, rfl⟩
  | succ k ih =>
    rw [iterate_succ]
    exact ih

/-- Each iteration finds a match or none is left. -/
theorem iterate_matched (ha : a.Pointed) (hm : a.Matched) (k : Nat) :
    (a.iterate k).Pointed ∧ (a.iterate k).Matched ∧ ((a.iterate k).Maximal ∨
      k ≤ count a.inputs (a.iterate k).inmatch ∧ k ≤ count a.outputs (a.iterate k).outmatch) := by
  induction k with
  | zero => exact ⟨ha, hm, .inr ⟨Nat.zero_le _, Nat.zero_le _⟩⟩
  | succ k ih =>
    obtain ⟨hpointed, hmatched, hcount⟩ := ih
    obtain ⟨hinputs, houtputs, -⟩ := iterate_frame a k
    rw [iterate_succ]
    refine ⟨hpointed.iteration, hmatched.iteration hpointed, ?_⟩
    by_cases hmax : (a.iterate k).Maximal
    · exact .inl hmax.iteration
    · obtain ⟨hin, hout⟩ := hcount.resolve_left hmax
      obtain ⟨hmore, hmore'⟩ := count_iteration hpointed hmax
      rw [hinputs] at hmore
      rw [houtputs] at hmore'
      exact .inr ⟨hin.trans_lt hmore, hout.trans_lt hmore'⟩

/-! ## Runs -/

/-- The allocator is cleared, asked and then allocates. -/
inductive Runs (inputs outputs iters : Nat) : (allocated : Bool) → Islip → Prop
  | create (hin : 0 < inputs) (hout : 0 < outputs) :
      Runs inputs outputs iters false { inputs, outputs, iters }
  | clear {allocated : Bool} {a : Islip} (run : Runs inputs outputs iters allocated a) :
      Runs inputs outputs iters false a.clear
  | add {a a' : Islip} (run : Runs inputs outputs iters false a) (input output label : Nat)
      (h : a.addRequest input output label = .ok a') : Runs inputs outputs iters false a'
  | remove {a a' : Islip} (run : Runs inputs outputs iters false a) (input output label : Nat)
      (h : a.removeRequest input output label = .ok a') : Runs inputs outputs iters false a'
  | allocate {a : Islip} (run : Runs inputs outputs iters false a) :
      Runs inputs outputs iters true a.allocate

/-- What all states of a run have in common. -/
structure Sized (inputs outputs iters : Nat) (a : Islip) : Prop where
  inputs_eq : a.inputs = inputs
  outputs_eq : a.outputs = outputs
  iters_eq : a.iters = iters
  pointed : a.Pointed

def Unmatched (a : Islip) : Prop := (∀ input, a.inmatch input = none) ∧
  ∀ output, a.outmatch output = none

theorem Unmatched.matched (h : a.Unmatched) : a.Matched := by
  obtain ⟨hin, hout⟩ := h
  constructor
  · simp [hin, hout]
  · simp [hin]

theorem addRequest_eq_ok {a' : Islip} {label : Nat}
    (h : a.addRequest input output label = .ok a') :
    a' = a.setRequest input output (some label) := by
  unfold addRequest at h
  split_ifs at h
  exact (Except.ok.inj h).symm

theorem removeRequest_eq_ok {a' : Islip} {label : Nat}
    (h : a.removeRequest input output label = .ok a') : a' = a.setRequest input output none := by
  unfold removeRequest at h
  split_ifs at h
  exact (Except.ok.inj h).symm

theorem Sized.setRequest {inputs outputs iters : Nat} (h : a.Sized inputs outputs iters)
    (label : Option Nat) : (a.setRequest input output label).Sized inputs outputs iters :=
  ⟨h.inputs_eq, h.outputs_eq, h.iters_eq, ⟨h.pointed.gptr, h.pointed.aptr⟩⟩

theorem iterate_iters (a : Islip) (k : Nat) : (a.iterate k).iters = a.iters := by
  induction k with
  | zero => rfl
  | succ k ih =>
    rw [iterate_succ]
    exact ih

variable {inputs outputs iters : Nat} {allocated : Bool}

theorem Runs.sized (hrun : Runs inputs outputs iters allocated a) :
    a.Sized inputs outputs iters ∧ (allocated = false → a.Unmatched) := by
  induction hrun with
  | create hin hout =>
    exact ⟨⟨rfl, rfl, rfl, fun _ => hin, fun _ => hout⟩, fun _ => ⟨fun _ => rfl, fun _ => rfl⟩⟩
  | clear run ih =>
    obtain ⟨hsized, -⟩ := ih
    exact ⟨⟨hsized.inputs_eq, hsized.outputs_eq, hsized.iters_eq, hsized.pointed.gptr,
      hsized.pointed.aptr⟩, fun _ => ⟨fun _ => rfl, fun _ => rfl⟩⟩
  | add run input output label h ih =>
    obtain rfl := addRequest_eq_ok h
    exact ⟨ih.1.setRequest _, fun _ => ih.2 rfl⟩
  | remove run input output label h ih =>
    obtain rfl := removeRequest_eq_ok h
    exact ⟨ih.1.setRequest _, fun _ => ih.2 rfl⟩
  | @allocate a run ih =>
    obtain ⟨hsized, hfree⟩ := ih
    obtain ⟨hinputs, houtputs, -⟩ := iterate_frame a a.iters
    have hpointed := (iterate_matched hsized.pointed (hfree rfl).matched a.iters).1
    refine ⟨⟨?_, ?_, ?_, hpointed⟩, fun h => absurd h (by decide)⟩
    · exact hinputs.trans hsized.inputs_eq
    · exact houtputs.trans hsized.outputs_eq
    · exact (iterate_iters a a.iters).trans hsized.iters_eq

/-- The result is a matching of requests. Each iteration adds a pair unless no request is left
between ports that are free; with as many iterations as inputs or as outputs none is left. -/
theorem allocate_matching (hrun : Runs inputs outputs iters true a) :
    a.Matched ∧
      (∃ a₀, Runs inputs outputs iters false a₀ ∧ a = a₀.allocate ∧
        ∀ k < iters, (a₀.iterate k).Maximal ∨ count inputs (a₀.iterate k).inmatch <
          count inputs (a₀.iterate (k + 1)).inmatch) ∧
      (a.Maximal ∨ iters ≤ count inputs a.inmatch) ∧
      (inputs ≤ iters ∨ outputs ≤ iters → a.Maximal) := by
  cases hrun with
  | @allocate a run =>
    obtain ⟨⟨rfl, rfl, rfl, hpointed⟩, hfree⟩ := run.sized
    obtain ⟨hinputs, houtputs, -⟩ := iterate_frame a a.iters
    obtain ⟨-, hmatched, hcount⟩ := iterate_matched hpointed (hfree rfl).matched a.iters
    refine ⟨hmatched, ⟨a, run, rfl, fun k _ => ?_⟩, hcount.imp_right And.left, fun hiters => ?_⟩
    · obtain ⟨hpointed', -⟩ := iterate_matched hpointed (hfree rfl).matched k
      obtain ⟨hinputs', -⟩ := iterate_frame a k
      rw [or_iff_not_imp_left, iterate_succ]
      intro hmax
      rw [← hinputs']
      exact (count_iteration hpointed' hmax).1
    obtain hmax | ⟨hin, hout⟩ := hcount
    · exact hmax
    intro input hi output ho hreq hnone
    replace hi : input < a.inputs := hinputs ▸ hi
    replace ho : output < a.outputs := houtputs ▸ ho
    obtain hle | hle := hiters
    · have hsome : (a.allocate.inmatch input).isSome := isSome_of_count (hle.trans hin) hi
      rw [hnone] at hsome
      cases hsome
    · exact isSome_of_count (hle.trans hout) ho

/-- Both inputs ask for the first output. -/
theorem allocate_matching_conflict : ∃ a : Islip, Runs 2 2 1 true a ∧ a.Matched ∧
    a.outmatch 0 = some 0 := by
  have hcreate : Runs 2 2 1 false { inputs := 2, outputs := 2, iters := 1 } :=
    .create (by decide) (by decide)
  have hfirst := hcreate.add 0 0 5 rfl
  have hsecond := hfirst.add 1 0 3 rfl
  exact ⟨_, hsecond.allocate, (allocate_matching hsecond.allocate).1, by decide⟩

end Islip

end NdpSim
