import NdpSim.Dram.InService

/-!
# Runs of a controller

Requests come in whenever they like, and cycles go by with or without room for answers.
-/
namespace NdpSim

open Library

namespace Lpddr5

variable {s : SpeedEntry} {channels ranks : Nat} {id : Int} {h : List (IssuedCmd Command)}
  {c c' : Controller Command State 3} {r : Request} {taken done : List Request} {full : Bool}
  {fwd : Request → Prop}

theorem Answered.mono {fwd' : Request → Prop} {h' : List (IssuedCmd Command)} {clk clk' : Int}
    (hr : Answered s fwd h clk r) (hfwd : ∀ r, fwd r → fwd' r) (hsub : h ⊆ h')
    (hclk : clk ≤ clk') : Answered s fwd' h' clk' r := by
  obtain ⟨hread, hdepart⟩ | ⟨htype, t, ht, hmem⟩ := hr
  · exact .inl ⟨hread.mono hfwd hsub, hdepart.trans hclk⟩
  · exact .inr ⟨htype, t, ht.trans hclk, hsub hmem⟩

theorem Sound.serveCompleted (hc : Sound s channels ranks id fwd h c)
    (hserve : c.serveCompleted full = .ok (c', done)) : Sound s channels ranks id fwd h c' ∧
      c'.clk = c.clk ∧ c'.queues = c.queues ∧ ∀ r ∈ done, Answered s fwd h c.clk r := by
  obtain ⟨rfl, rfl⟩ | ⟨req, rest, serving, hpending, hdepart, rfl, rfl⟩ :=
    Controller.serveCompleted_cases hserve
  · exact ⟨hc, rfl, rfl, fun r hr => absurd hr List.not_mem_nil⟩
  · have hall := hc.pending
    rw [hpending] at hall
    obtain ⟨⟨-, hserved⟩, hrest⟩ := List.forall_mem_cons.mp hall
    refine ⟨⟨hc.clk_nonneg, hc.queued, hc.controls, hrest⟩, rfl, rfl, fun r hr => ?_⟩
    obtain rfl := List.mem_singleton.mp hr
    exact .inl ⟨hserved, hdepart⟩

theorem Sound.switchMode (hc : Sound s channels ranks id fwd h c) :
    Sound s channels ranks id fwd h c.switchMode ∧ c.switchMode.clk = c.clk := by
  unfold Controller.switchMode
  dsimp only
  split_ifs <;> exact ⟨⟨hc.clk_nonneg, hc.queued, hc.controls, hc.pending⟩, rfl⟩

theorem Sound.tickClk (hc : Sound s channels ranks id fwd h c) :
    Sound s channels ranks id fwd h { c with clk := c.clk + 1 } := by
  have hclk : 0 ≤ c.clk + 1 := Int.le_add_one hc.clk_nonneg
  exact ⟨hclk, hc.queued, hc.controls, hc.pending⟩

theorem Sound.prepare (hc : Sound s channels ranks id fwd h c)
    (hprepare : c.prepare (lpddr5Spec s channels ranks) full = .ok (c', done)) :
    Sound s channels ranks id fwd h c' ∧ c'.clk = c.clk + 1 ∧
      ∀ r ∈ done, Answered s fwd h c'.clk r := by
  obtain ⟨c₁, c₂, hc₁, hc₂, rfl⟩ := (Controller.prepare_eq_ok _).mp hprepare
  obtain ⟨hserve, hclk₁, -, hreads⟩ := hc.tickClk.serveCompleted hc₁
  obtain ⟨hclk₂, -⟩ := Controller.frame_tickRef hc₂
  obtain ⟨hmode, hclk₃⟩ := (hserve.tickRef hc₂).switchMode
  have hclk : c₂.switchMode.clk = c.clk + 1 := by rw [hclk₃, hclk₂, hclk₁]
  refine ⟨hmode, hclk, fun r hr => ?_⟩
  rw [hclk]
  exact hreads r hr

theorem Sound.tick (hc : Sound s channels ranks id fwd h c)
    (ht : c.tick (lpddr5Spec s channels ranks) full = .ok (c', done)) :
    ∃ h', h ⊆ h' ∧ Sound s channels ranks id fwd h' c' ∧ c'.clk = c.clk + 1 ∧
      ∀ r ∈ done, Answered s fwd h' c'.clk r := by
  obtain ⟨c₁, reads, writes, hc₁, hc₂, rfl⟩ := (Controller.tick_eq_ok _).mp ht
  obtain ⟨hprepare, hclk₁, hreads⟩ := hc.prepare hc₁
  obtain ⟨h', hclk₂, hsub, hschedule, hwrites⟩ := hprepare.schedule hc₂
  refine ⟨h', hsub, hschedule, hclk₂.trans hclk₁, fun r hr => ?_⟩
  obtain hr | hr := List.mem_append.mp hr
  · exact (hreads r hr).mono (fun _ hfwd => hfwd) hsub hclk₂.ge
  · exact (hwrites r hr).mono (fun _ hfwd => hfwd) (List.Subset.refl _) hclk₂.ge

/-- The counts of the nodes suffice after a cycle. -/
theorem Sound.counted_prepare (hc : Sound s channels ranks id fwd h c) (hs : c.Counted)
    (hprepare : c.prepare (lpddr5Spec s channels ranks) full = .ok (c', done)) : c'.Counted := by
  obtain ⟨c₁, c₂, hc₁, hc₂, rfl⟩ := (Controller.prepare_eq_ok _).mp hprepare
  have hclk : Controller.Counted { c with clk := c.clk + 1 } := hs
  obtain ⟨c₁', done', hc₁', hserve⟩ := hc.tickClk.serveCompleted_isOk hclk full
  obtain ⟨rfl, -⟩ := Prod.mk.inj (Except.ok.inj (hc₁'.symm.trans hc₁))
  exact (hserve.tickRef hc₂).switchMode

theorem Sound.counted_tick (hc : Sound s channels ranks id fwd h c) (hs : c.Counted)
    (ht : c.tick (lpddr5Spec s channels ranks) full = .ok (c', done)) : c'.Counted := by
  obtain ⟨c₁, reads, writes, hc₁, hc₂, rfl⟩ := (Controller.tick_eq_ok _).mp ht
  obtain ⟨hprepare, -⟩ := hc.prepare hc₁
  obtain ⟨c₂, writes', hc₂', hschedule⟩ :=
    hprepare.schedule_isOk (hc.counted_prepare hs hc₁)
  obtain ⟨rfl, -⟩ := Prod.mk.inj (Except.ok.inj (hc₂'.symm.trans hc₂))
  exact hschedule

/-- Requests to the channel come in, and cycles go by, from a state with what was taken and called
back before. A request that comes in was not begun. -/
inductive RunsFrom (s : SpeedEntry) (channels ranks : Nat) (id : Int) (taken₀ done₀ : List Request)
    (c₀ : Controller Command State 3) :
    List Request → List Request → Controller Command State 3 → Prop
  | start : RunsFrom s channels ranks id taken₀ done₀ c₀ taken₀ done₀ c₀
  | enqueue {taken done : List Request} {c c' : Controller Command State 3}
      (run : RunsFrom s channels ranks id taken₀ done₀ c₀ taken done c) (req : Request)
      (access : req.isAccess = true) (fresh : req.isFirstCommand = true)
      (for_channel : For ranks id req) (hc : c.enqueue req = some c') :
      RunsFrom s channels ranks id taken₀ done₀ c₀ (taken ++ [req]) done c'
  | tick {taken done now : List Request} {c c' : Controller Command State 3}
      (run : RunsFrom s channels ranks id taken₀ done₀ c₀ taken done c) (full : Bool)
      (hc : c.tick (lpddr5Spec s channels ranks) full = .ok (c', now)) :
      RunsFrom s channels ranks id taken₀ done₀ c₀ taken (done ++ now) c'

/-- The runs from the start. Those that were taken and those that were called back are kept in
order. -/
abbrev Runs (s : SpeedEntry) (channels ranks : Nat) (id : Int) :
    List Request → List Request → Controller Command State 3 → Prop :=
  RunsFrom s channels ranks id [] []
    { issuer := { channel := .create (lpddr5 s channels ranks) 3 0 id } }

/-- Earlier in the run the read came in when a write to its address was in the write queue. -/
def Forwarded (s : SpeedEntry) (channels ranks : Nat) (id : Int) (taken done : List Request)
    (c : Controller Command State 3) (r : Request) : Prop :=
  ∃ taken₀ done₀ c₀ req c₁, Runs s channels ranks id taken₀ done₀ c₀ ∧
    (∃ w ∈ c₀.queues .writeq, w.addr = req.addr) ∧ c₀.enqueue req = some c₁ ∧
    RunsFrom s channels ranks id (taken₀ ++ [req]) done₀ c₁ taken done c ∧
    r = { req with arrive := c₀.clk, depart := c₀.clk + 1 }

theorem Forwarded.mono {taken' done' : List Request}
    (hr : Forwarded s channels ranks id taken done c r)
    (hrun : ∀ {taken₀ done₀ c₀}, RunsFrom s channels ranks id taken₀ done₀ c₀ taken done c →
      RunsFrom s channels ranks id taken₀ done₀ c₀ taken' done' c') :
    Forwarded s channels ranks id taken' done' c' r := by
  obtain ⟨taken₀, done₀, c₀, req, c₁, hstart, hwrite, henqueue, hlater, rfl⟩ := hr
  exact ⟨taken₀, done₀, c₀, req, c₁, hstart, hwrite, henqueue, hrun hlater, rfl⟩

theorem Runs.sound (hrun : Runs s channels ranks id taken done c) : ∃ h,
    Sound s channels ranks id (Forwarded s channels ranks id taken done c) h c ∧ c.Counted ∧
      ∀ r ∈ done, Answered s (Forwarded s channels ranks id taken done c) h c.clk r := by
  induction hrun with
  | start =>
    refine ⟨[], ⟨le_rfl, fun queue r hr => absurd hr List.not_mem_nil, .start,
      fun r hr => absurd hr List.not_mem_nil⟩, fun p => ?_, fun r hr => absurd hr List.not_mem_nil⟩
    exact ⟨⟨le_rfl, fun hcur => absurd hcur (lt_irrefl 0)⟩, le_rfl⟩
  | @enqueue taken done c c' run req access fresh for_channel hc ih =>
    obtain ⟨h, hsound, hcounted, hdone⟩ := ih
    have hfwd : ∀ r, Forwarded s channels ranks id taken done c r →
        Forwarded s channels ranks id (taken ++ [req]) done c' r :=
      fun r hr => hr.mono fun hlater => hlater.enqueue req access fresh for_channel hc
    refine ⟨h, (hsound.mono hfwd).enqueue for_channel (fun hforwards => ?_) hc,
      hcounted.enqueue fresh hc, fun r hr => ?_⟩
    · simp only [Controller.forwards, Bool.and_eq_true, List.any_eq_true, decide_eq_true_eq]
        at hforwards
      obtain ⟨-, w, hw, haddr⟩ := hforwards
      exact ⟨taken, done, c, req, c', run, ⟨w, hw, haddr.symm⟩, hc, .start, rfl⟩
    · rw [(Controller.frame_enqueue hc).1]
      exact (hdone r hr).mono hfwd (List.Subset.refl h) le_rfl
  | @tick taken done now c c' run full hc ih =>
    obtain ⟨h, hsound, hcounted, hdone⟩ := ih
    have hfwd : ∀ r, Forwarded s channels ranks id taken done c r →
        Forwarded s channels ranks id taken (done ++ now) c' r :=
      fun r hr => hr.mono fun hlater => hlater.tick full hc
    obtain ⟨h', hsub, hsound', hclk, hnow⟩ := (hsound.mono hfwd).tick hc
    refine ⟨h', hsound', hsound.counted_tick hcounted hc, fun r hr => ?_⟩
    obtain hr | hr := List.mem_append.mp hr
    · exact (hdone r hr).mono hfwd hsub (by omega)
    · exact hnow r hr

/-- In every state that a run reaches, a cycle ends without an assertion if the queue of the
refreshes has room for one of each rank. -/
theorem tick_isOk (hrun : Runs s channels ranks id taken done c)
    (hroom : (c.queues .otherq).length + ranks ≤ Controller.queueMax) (full : Bool) :
    ∃ c' now, c.tick (lpddr5Spec s channels ranks) full = .ok (c', now) := by
  obtain ⟨h, hsound, hcounted, -⟩ := hrun.sound
  have hclk : Controller.Counted { c with clk := c.clk + 1 } := hcounted
  obtain ⟨c₁, reads, hc₁, -⟩ := hsound.tickClk.serveCompleted_isOk hclk full
  obtain ⟨hserve, -, hqueues, -⟩ := hsound.tickClk.serveCompleted hc₁
  obtain ⟨c₂, hc₂⟩ := tickRef_isOk hserve (by rw [hqueues]; exact hroom)
  have hprepare := (Controller.prepare_eq_ok (lpddr5Spec s channels ranks)).mpr
    ⟨c₁, c₂, hc₁, hc₂, rfl⟩
  obtain ⟨hsound₁, -⟩ := hsound.prepare hprepare
  obtain ⟨c₃, writes, hc₃, -⟩ :=
    hsound₁.schedule_isOk (hsound.counted_prepare hcounted hprepare)
  exact ⟨c₃, _, (Controller.tick_eq_ok _).mpr ⟨_, reads, writes, hprepare, hc₃, rfl⟩⟩

/-- A part of a memory fetch, for the examples below. -/
def part (type : DramRequestType) (addrVec : AddrVec) : Request where
  addr := 0
  addrVec
  type
  mf := none

/-- Each read and write that was taken is in one of the queues or was called back, once. A read is
called back when it came in while the write queue had its address, or when a `RD` for its place was
issued as long ago as the memory takes, a write when a `WR` for its place was issued. -/
theorem conserved_and_served (hrun : Runs s channels ranks id taken done c) :
    idents taken = c.held + idents done ∧
      ∃ h, Controls s channels ranks id h c.issuer ∧
        ∀ r ∈ done, Answered s (Forwarded s channels ranks id taken done c) h c.clk r := by
  obtain ⟨h, hsound, -, hdone⟩ := hrun.sound
  refine ⟨?_, h, hsound.controls, hdone⟩
  clear hsound hdone
  induction hrun with
  | start => rfl
  | enqueue run req access fresh for_channel hc ih =>
    rw [idents_append, ih, Controller.held_enqueue hc]
    abel
  | tick run full hc ih =>
    rw [ih, ← Controller.held_tick hc, idents_append]
    abel

/-- A read that the write queue answers, and a write that the memory takes. -/
theorem conserved_and_served_forward : ∃ c done h, Runs lpddr5_6400 1 1 0
    [part .write [0, 0, 1, 2, 7, 3], part .read [0, 0, 1, 2, 7, 3]] done c ∧ done.length = 1 ∧
    (∀ r ∈ done, Answered lpddr5_6400 (Forwarded lpddr5_6400 1 1 0
      [part .write [0, 0, 1, 2, 7, 3], part .read [0, 0, 1, 2, 7, 3]] done c) h c.clk r) ∧
    idents [part .write [0, 0, 1, 2, 7, 3], part .read [0, 0, 1, 2, 7, 3]] =
      c.held + idents done := by
  have hstart : Runs lpddr5_6400 1 1 0 [] [] _ := .start
  have hwrite := hstart.enqueue (part .write [0, 0, 1, 2, 7, 3]) rfl rfl
    ⟨⟨by decide, by decide, by decide⟩, rfl⟩ rfl
  have hread := hwrite.enqueue (part .read [0, 0, 1, 2, 7, 3]) rfl rfl
    ⟨⟨by decide, by decide, by decide⟩, rfl⟩ rfl
  have htick := hread.tick false rfl
  obtain ⟨hconserved, h, -, hdone⟩ := conserved_and_served htick
  exact ⟨_, _, h, htick, rfl, hdone, hconserved⟩

/-- When the row of a bank is closed for a request, no read or write of the same queue hits it. -/
theorem row_hits_spared {c₁ : Controller Command State 3} {reads : List Request}
    {queue : QueueId} {i : Nat} {req : Request} (hrun : Runs s channels ranks id taken done c)
    (hprepare : c.prepare (lpddr5Spec s channels ranks) full = .ok (c₁, reads))
    (hnext : c₁.next (lpddr5Spec s channels ranks) = .ok (some (queue, i, req, .pre))) :
    ∀ r ∈ c₁.queues queue, r.isAccess = true → bankOf r.addrVec = bankOf req.addrVec →
      c₁.issuer.channel.checkRowHit (lpddr5 s channels ranks) (translate r.type) r.addrVec =
        .ok false := by
  intro r hr haccess hbank
  obtain ⟨h, hsound, -⟩ := hrun.sound
  obtain ⟨hsound₁, -⟩ := hsound.prepare hprepare
  have htype : r.type = .read ∨ r.type = .write := by
    simpa [Request.isAccess] using haccess
  have hspared := hsound₁.pick_pre (Controller.next_cases _ hnext) r hr htype hbank
  obtain ⟨hserves, -⟩ := hsound₁.controls.follows
  obtain ⟨i, j, k, hplace, hsome⟩ := hserves.bank (hsound₁.queued queue r hr).1 htype
  obtain ⟨hhit, -⟩ := checkRow_access (s := s) hserves.follows.2.2 htype hplace hsome
  rw [hhit]
  simp [hspared]

/-- A memory with shorter waits. -/
def lpddr5Short : SpeedEntry :=
  { lpddr5_6400 with nRCD := 1, nRAS := 2, nRTP := 1, nRRD := 1 }

/-- A row is closed after it was read, for a read of another row of its bank. -/
theorem row_hits_spared_read : ∃ c taken done c₁ reads i req, Runs lpddr5Short 1 1 0 taken done c ∧
    c.prepare (lpddr5Spec lpddr5Short 1 1) false = .ok (c₁, reads) ∧
    c₁.next (lpddr5Spec lpddr5Short 1 1) = .ok (some (.readq, i, req, .pre)) ∧
    ∀ r ∈ c₁.queues .readq, r.isAccess = true → bankOf r.addrVec = bankOf req.addrVec →
      c₁.issuer.channel.checkRowHit (lpddr5 lpddr5Short 1 1) (translate r.type) r.addrVec =
        .ok false := by
  suffices hclosed : ∃ c taken done c₁ reads i req, Runs lpddr5Short 1 1 0 taken done c ∧
      c.prepare (lpddr5Spec lpddr5Short 1 1) false = .ok (c₁, reads) ∧
      c₁.next (lpddr5Spec lpddr5Short 1 1) = .ok (some (.readq, i, req, .pre)) by
    obtain ⟨c, taken, done, c₁, reads, i, req, hrun, hprepare, hnext⟩ := hclosed
    exact ⟨c, taken, done, c₁, reads, i, req, hrun, hprepare, hnext,
      row_hits_spared hrun hprepare hnext⟩
  have hstart : Runs lpddr5Short 1 1 0 [] [] _ := .start
  have h1 := hstart.enqueue (part .read [0, 0, 1, 2, 7, 3]) rfl rfl
    ⟨⟨by decide, by decide, by decide⟩, rfl⟩ rfl
  have h2 := h1.enqueue (part .read [0, 0, 1, 2, 8, 3]) rfl rfl
    ⟨⟨by decide, by decide, by decide⟩, rfl⟩ rfl
  have hact := h2.tick false rfl
  have hread := hact.tick false rfl
  exact ⟨_, _, _, _, _, _, _, hread, rfl, rfl⟩

end Lpddr5

end NdpSim
