import NdpSim.Timing.ControlFlow

/-!
# The end of a column

The context of a column is pushed when its last instruction leaves its unit, when a branch leads
past the end, or when an `EXIT` is issued. If no `EXIT` stands before the last instruction, that
happens once, and from then on nothing of the column is fetched or issued.
-/
namespace NdpSim

namespace Pipeline

/-- The instructions in flight that finish the column. -/
def lasts (l : List Flight) : List Flight := l.filter Flight.lastInst

/-- An `EXIT` that is issued is the last instruction of the column. -/
def ExitsLast (col : ColumnInfo) : ColumnEvent → Prop
  | .exit k => k + 1 = col.insts.length
  | _ => True

/-- A run in which no `EXIT` is issued before the end. -/
def FinishRun [FloatOps] (col : ColumnInfo) : Pipeline → Pipeline → Prop :=
  Relation.ReflTransGen fun s s' => ∃ e, Step col s e s' ∧ ExitsLast col e

/-- Nothing of the column is left to do: no instruction was fetched, is being fetched or is in
flight, and no fetch can start. -/
structure Idle (col : ColumnInfo) (s : Pipeline) : Prop where
  current : s.currentInst = none
  pending : s.pending = false
  inFlight : s.inFlight = []
  request : ¬ (s.block = false ∧ s.pc < col.insts.length)

/-- The column is past its end and waits for no branch. -/
def Past (col : ColumnInfo) (s : Pipeline) : Prop :=
  s.block = false ∧ (col.insts.length : Int) ≤ s.pc

/-- A blocked column has one branch in flight. A column past its end has its last instruction in
flight or its context pushed, and fetches nothing. -/
structure Once (col : ColumnInfo) (s : Pipeline) : Prop where
  pc : 0 ≤ s.pc
  blocked : s.block = true → (branches s.inFlight).length = 1 ∧ s.currentInst = none ∧
    s.pending = false
  unblocked : s.block = false → (branches s.inFlight).length = 0
  past : Past col s → (lasts s.inFlight).length + s.finished = 1 ∧ s.currentInst = none ∧
    s.pending = false
  inside : ¬ Past col s → (lasts s.inFlight).length + s.finished = 0
  current : ∀ k, s.currentInst = some k → (k : Int) = s.pc

namespace Once

variable {col : ColumnInfo} {s : Pipeline}

theorem start (hne : col.insts ≠ []) (m : Machine RegisterUnit) :
    Once col (Pipeline.start m) := by
  have hpos := List.length_pos_iff.mpr hne
  have hin : ¬ Past col (Pipeline.start m) := by
    rintro ⟨-, hle⟩
    simp only [Pipeline.start] at hle
    omega
  refine ⟨le_refl _, by simp [Pipeline.start], fun _ => rfl, fun h => absurd h hin, fun _ => rfl,
    by simp [Pipeline.start]⟩

/-- A column that can fetch is not past its end. -/
theorem not_past (h : Once col s) {k : Nat} (hf : s.CanFetch k) : ¬ Past col s := by
  intro hpast
  have hnone := (h.past hpast).2.1
  rw [hf.2.2] at hnone
  cases hnone

theorem request (h : Once col s) (hblock : s.block = false) (hlt : s.pc < col.insts.length) :
    Once col { s with pending := true } := by
  have hin : ¬ Past col s := by
    rintro ⟨-, hle⟩
    omega
  exact ⟨h.pc, fun hb => by simp [hblock] at hb, h.unblocked, fun hp => absurd hp hin,
    fun _ => h.inside hin, h.current⟩

theorem fill (h : Once col s) (hpend : s.pending = true) (hlt : s.pc < col.insts.length) :
    Once col { s with pending := false, currentInst := some s.pc.toNat } := by
  have hin : ¬ Past col s := by
    rintro ⟨-, hle⟩
    omega
  refine ⟨h.pc, fun hb => ?_, h.unblocked, fun hp => absurd hp hin, fun _ => h.inside hin,
    fun k hk => ?_⟩
  · have hp := (h.blocked hb).2.2
    rw [hpend] at hp
    cases hp
  · obtain rfl := Option.some_inj.mp hk
    exact Int.toNat_of_nonneg h.pc

theorem exit (h : Once col s) {k : Nat} (hf : s.CanFetch k) (hlast : k + 1 = col.insts.length) :
    Once col { s with
      pc := s.pc + 1
      currentInst := none
      finished := s.finished + 1
      issued := s.issued ++ [(k : Int)] } := by
  have hpc := h.current k hf.2.2
  have hnone := h.inside (h.not_past hf)
  refine ⟨?_, fun hb => ?_, h.unblocked, fun _ => ⟨?_, rfl, hf.2.1⟩, fun hin => ?_, by simp⟩
  · have := h.pc
    dsimp only
    omega
  · have hb' : s.block = true := hb
    rw [hf.1] at hb'
    cases hb'
  · dsimp only
    omega
  · refine absurd ⟨hf.1, ?_⟩ hin
    dsimp only
    omega

theorem issue (h : Once col s) {k : Nat} (hf : s.CanFetch k) {inst : NdpInstruction}
    (hi : col.insts[k]? = some inst) (doBranch : Bool) (m : Machine RegisterUnit) :
    Once col (s.afterIssue col k inst doBranch m) := by
  have hpc := h.current k hf.2.2
  have hlt : k < col.insts.length := (List.getElem?_eq_some_iff.mp hi).1
  have hnone := h.inside (h.not_past hf)
  have hbranches := h.unblocked hf.1
  cases hb : inst.opcode.checkBranchOp with
  | true =>
    have hin : ¬ Past col (s.afterIssue col k inst doBranch m) := by
      rintro ⟨hblock, -⟩
      simp [afterIssue, hb] at hblock
    refine ⟨?_, fun _ => ⟨?_, rfl, hf.2.1⟩, fun hblock => ?_, fun hp => absurd hp hin, fun _ => ?_,
      by simp [afterIssue]⟩
    · simp only [afterIssue, hb, if_true]
      exact h.pc
    · simp only [afterIssue, branches, List.filter_cons, hb, if_true, List.length_cons]
      simpa [branches] using hbranches
    · simp [afterIssue, hb] at hblock
    · simpa [afterIssue, lasts, List.filter_cons, fetchesLast, hb] using hnone
  | false =>
    have hpc' : (s.afterIssue col k inst doBranch m).pc = s.pc + 1 := by simp [afterIssue, hb]
    have hfirst : s.fetchesLast col inst = decide (s.pc = (col.insts.length : Int) - 1) := by
      simp [fetchesLast, hb]
    have hlasts : (lasts (s.afterIssue col k inst doBranch m).inFlight).length =
        (lasts s.inFlight).length + if s.pc = (col.insts.length : Int) - 1 then 1 else 0 := by
      simp only [afterIssue, lasts, List.filter_cons, hfirst, decide_eq_true_eq]
      split <;> simp
    refine ⟨?_, fun hblock => ?_, fun _ => ?_, fun hp => ⟨?_, rfl, hf.2.1⟩, fun hin => ?_,
      by simp [afterIssue]⟩
    · have := h.pc
      omega
    · simp [afterIssue, hb] at hblock
    · simpa [afterIssue, branches, List.filter_cons, hb] using hbranches
    · have hle := hp.2
      rw [hlasts, if_pos (by omega)]
      change (lasts s.inFlight).length + 1 + s.finished = 1
      omega
    · have hne : ¬ s.pc = (col.insts.length : Int) - 1 := by
        intro heq
        refine hin ⟨?_, by omega⟩
        simp [afterIssue, hb]
      rw [hlasts, if_neg hne]
      exact hnone

theorem complete (h : Once col s) {pre post : List Flight} {f : Flight}
    (hf : s.inFlight = pre ++ f :: post) (hb : f.inst.opcode.checkBranchOp = false) :
    Once col { s with
      inFlight := pre ++ post
      finished := if f.lastInst then s.finished + 1 else s.finished } := by
  have hbranches : branches (pre ++ post) = branches s.inFlight := by
    rw [hf]
    simp [branches, List.filter_append, hb]
  have hsum : (lasts (pre ++ post)).length + (if f.lastInst then s.finished + 1 else s.finished) =
      (lasts s.inFlight).length + s.finished := by
    rw [hf]
    simp only [lasts, List.filter_append, List.filter_cons, List.length_append]
    split
    · rw [List.length_cons]
      omega
    · rfl
  refine ⟨h.pc, fun hblock => ?_, fun hblock => ?_, fun hp => ?_, fun hin => ?_, h.current⟩
  · dsimp only
    rw [hbranches]
    exact h.blocked hblock
  · dsimp only
    rw [hbranches]
    exact h.unblocked hblock
  · dsimp only
    rw [hsum]
    exact h.past hp
  · dsimp only
    rw [hsum]
    exact h.inside hin

theorem resolve (h : Once col s) {pre post : List Flight} {f : Flight} {target : Int}
    (hf : s.inFlight = pre ++ f :: post) (hb : f.inst.opcode.checkBranchOp = true)
    (htarget : 0 ≤ target) : Once col (s.afterResolve col (pre ++ post) target) := by
  have hbranches : (branches s.inFlight).length = (branches (pre ++ post)).length + 1 := by
    rw [hf]
    simp [branches, List.filter_append, hb]
    omega
  have hblock : s.block = true := by
    by_contra hne
    have hnone := h.unblocked (by simpa using hne)
    omega
  obtain ⟨hone, hcur, hpend⟩ := h.blocked hblock
  have hin : ¬ Past col s := by
    rintro ⟨hb', -⟩
    rw [hblock] at hb'
    cases hb'
  have hnone := h.inside hin
  have hlasts : (lasts (pre ++ post)).length = 0 := by
    have hle : (lasts (pre ++ post)).length ≤ (lasts s.inFlight).length := by
      rw [hf]
      exact ((List.Sublist.refl pre).append (List.sublist_cons_self f post)).filter _ |>.length_le
    omega
  refine ⟨htarget, by simp [afterResolve], fun _ => ?_, fun hp => ?_, fun hout => ?_, ?_⟩
  · change (branches (pre ++ post)).length = 0
    omega
  · have hle : (col.insts.length : Int) ≤ target := hp.2
    refine ⟨?_, hcur, hpend⟩
    simp only [afterResolve, hlasts, if_pos (show (col.insts.length : Int) - 1 < target by omega)]
    omega
  · have hlt : ¬ (col.insts.length : Int) - 1 < target := fun hlt => hout ⟨rfl, by
      change (col.insts.length : Int) ≤ target
      omega⟩
    simp only [afterResolve, hlasts, if_neg hlt]
    omega
  · intro k hk
    rw [show s.currentInst = some k from hk] at hcur
    cases hcur

theorem step [FloatOps] (h : Once col s)
    (htargets : ∀ label target, col.loopMap.lookup label = some target → 0 ≤ target)
    {e : ColumnEvent} {s' : Pipeline} (hs : Step col s e s') (he : ExitsLast col e) :
    Once col s' := by
  cases hs with
  | request _ hblock _ _ hlt => exact h.request hblock hlt
  | fill hpend _ hlt => exact h.fill hpend hlt
  | exit hf hi _ => exact h.exit hf he
  | issue hf hi _ _ => exact h.issue hf hi _ _
  | complete hf hb => exact h.complete hf hb
  | @resolve pre f post target hf hb ht =>
    refine h.resolve hf hb ?_
    unfold resolved at ht
    split at ht
    · exact htargets _ _ ht
    · have := h.pc
      have heq := Option.some_inj.mp ht
      omega
  | others regs memories =>
    exact ⟨h.pc, h.blocked, h.unblocked, h.past, h.inside, h.current⟩

end Once

section Runs

variable [FloatOps] {col : ColumnInfo} {s : Pipeline} {m : Machine RegisterUnit}

theorem FinishRun.once (hne : col.insts ≠ [])
    (htargets : ∀ label target, col.loopMap.lookup label = some target → 0 ≤ target)
    (h : FinishRun col (start m) s) : Once col s := by
  induction h with
  | refl => exact Once.start hne m
  | tail _ hstep ih =>
    obtain ⟨e, hs, he⟩ := hstep
    exact ih.step htargets hs he

/-- In every run in which no `EXIT` is issued before the end, the context is pushed at most once,
and once if the column has nothing left to do; and after the push no fetch is under way, nothing
is fetched and nothing can be requested, fetched or issued any more. -/
theorem finishes_once (hne : col.insts ≠ [])
    (htargets : ∀ label target, col.loopMap.lookup label = some target → 0 ≤ target)
    (h : FinishRun col (start m) s) :
    s.finished ≤ 1 ∧ (Idle col s → s.finished = 1) ∧
    (0 < s.finished → s.pending = false ∧ s.currentInst = none ∧
      ∀ e s', Step col s e s' → ∀ k, e ≠ .request ∧ e ≠ .fill ∧ e ≠ .exit k ∧ e ≠ .issue k) := by
  have honce := h.once hne htargets
  refine ⟨?_, fun hidle => ?_, fun hpos => ?_⟩
  · by_cases hp : Past col s
    · have := (honce.past hp).1
      omega
    · have := honce.inside hp
      omega
  · have hblock : s.block = false := by
      by_contra hb
      have hone := (honce.blocked (by simpa using hb)).1
      rw [hidle.inFlight] at hone
      cases hone
    have hpast : Past col s := ⟨hblock, by
      by_contra hlt
      exact hidle.request ⟨hblock, by omega⟩⟩
    have hsum := (honce.past hpast).1
    rw [hidle.inFlight] at hsum
    simpa [lasts] using hsum
  · have hpast : Past col s := by
      by_contra hin
      have := honce.inside hin
      omega
    obtain ⟨-, hcur, hpend⟩ := honce.past hpast
    refine ⟨hpend, hcur, fun e s' hs k => ?_⟩
    cases hs with
    | request _ _ _ _ hlt =>
      have := hpast.2
      omega
    | fill hp =>
      rw [hpend] at hp
      cases hp
    | exit hf | issue hf =>
      have hsome := hf.2.2
      rw [hcur] at hsome
      cases hsome
    | complete | resolve | others => simp

end Runs

/-- A column with a single `li` is finished once. -/
theorem finishes_once_li : letI := FloatOps.zero
    ∃ s, FinishRun (sampleColumn [.li]) (start sampleMachine) s ∧ Idle (sampleColumn [.li]) s ∧
      s.finished = 1 := by
  let _ := FloatOps.zero
  have h₁ : FinishRun (sampleColumn [.li]) (start sampleMachine) _ :=
    .single ⟨.request, .request rfl rfl rfl (by decide) (by decide), trivial⟩
  have h₂ := h₁.tail ⟨.fill, .fill rfl (by decide) (by decide), trivial⟩
  have hi : (sampleColumn [.li]).insts[0]? = some (samplePlain .li) := rfl
  have h₃ := h₂.tail ⟨.issue 0, .issue ⟨rfl, rfl, rfl⟩ hi (by decide) rfl, trivial⟩
  have h₄ := h₃.tail ⟨.complete _, .complete (List.nil_append _).symm rfl, trivial⟩
  refine ⟨_, h₄, ⟨rfl, rfl, rfl, by decide⟩, ?_⟩
  exact (finishes_once (by decide) (by simp [sampleColumn]) h₄).2.1 ⟨rfl, rfl, rfl, by decide⟩

/-- `exit` followed by `li`: the context is pushed, the next instruction is fetched and issued all
the same, and the context is pushed again. -/
theorem exit_finishes_twice : letI := FloatOps.zero
    (∃ s, Relation.ReflTransGen (fun s s' => ∃ e, Step (sampleColumn [.exit, .li]) s e s')
      (start sampleMachine) s ∧ s.finished = 1 ∧ s.pending = true) ∧
    ∃ s, Relation.ReflTransGen (fun s s' => ∃ e, Step (sampleColumn [.exit, .li]) s e s')
      (start sampleMachine) s ∧ s.finished = 2 := by
  let _ := FloatOps.zero
  have h₁ : Relation.ReflTransGen (fun s s' => ∃ e, Step (sampleColumn [.exit, .li]) s e s')
      (start sampleMachine) _ :=
    .single ⟨.request, .request rfl rfl rfl (by decide) (by decide)⟩
  have h₂ := h₁.tail ⟨.fill, .fill rfl (by decide) (by decide)⟩
  have hi : (sampleColumn [.exit, .li]).insts[0]? = some (samplePlain .exit) := rfl
  have h₃ := h₂.tail ⟨.exit 0, .exit ⟨rfl, rfl, rfl⟩ hi rfl⟩
  have h₄ := h₃.tail ⟨.request, .request rfl rfl rfl (by decide) (by decide)⟩
  have h₅ := h₄.tail ⟨.fill, .fill rfl (by decide) (by decide)⟩
  have hi' : (sampleColumn [.exit, .li]).insts[1]? = some (samplePlain .li) := rfl
  have h₆ := h₅.tail ⟨.issue 1, .issue ⟨rfl, rfl, rfl⟩ hi' (by decide) rfl⟩
  have h₇ := h₆.tail ⟨.complete _, .complete (List.nil_append _).symm rfl⟩
  exact ⟨⟨_, h₄, rfl, rfl⟩, _, h₇, rfl⟩

end Pipeline

end NdpSim
