import NdpSim.Dram.RamulatorAccounts

/-!
# Where the replies come out

The requests of a memory fetch stay with it on their way through a controller, and what comes out of
a return queue is a reply. Where the channel of a memory fetch tells its place, it comes out there.
-/
namespace NdpSim

open Library

def MfType.isReply : MfType → Bool
  | .readReply | .writeAck => true
  | .readRequest | .writeRequest => false

theorem MfType.setReply_isOk {type : MfType} (h : type.isReply = false) :
    ∃ type', type.setReply = .ok type' := by
  cases type with
  | readRequest | writeRequest => exact ⟨_, rfl⟩
  | readReply | writeAck => cases h

theorem MfType.isReply_setReply {type type' : MfType} (h : type.setReply = .ok type') :
    type'.isReply = true := by
  cases type with
  | readRequest | writeRequest =>
    obtain rfl := Except.ok.inj h
    rfl
  | readReply | writeAck => cases h

/-- The address vector has the channel that was given, where the name says so. -/
theorem addressVector_channel {org : OrgEntry} {addr channel : Nat} {v : AddrVec}
    (h : addressVector org .m2ndp addr channel = .ok v) : v.idx 0 = channel := by
  simp only [addressVector] at h
  split at h
  · obtain rfl := Except.ok.inj h
    rfl
  · cases h

namespace Ramulator

variable {C S : Type} {n : Nat} {r r' : Ramulator C S n} {S' : MemorySpec C S}
  {all : Multiset Nat} {req : Request} {mf : Nat}

/-- The place of a memory fetch is right, where its channel tells it. -/
def Homed (S' : MemorySpec C S) (r : Ramulator C S n) (mf i : Nat) : Prop :=
  S'.name = .m2ndp → (r.mfs mf).channel = i

/-- What is known of the requests and of what is done. -/
structure Placed (S' : MemorySpec C S) (r : Ramulator C S n) : Prop where
  unaccepted : ∀ i < S'.channels, ∀ req ∈ r.unaccepted i,
    (req.isAccess = true ∧ req.isFirstCommand = true) ∧ ∃ mf, req.mf = some mf
  held : ∀ i < S'.channels, ∀ x ∈ (r.ctrls i).held,
    ∃ mf, x.2.1 = some mf ∧ (x.2.2.idx 0).toNat = i ∧ r.Homed S' mf i
  done : ∀ i < S'.channels, ∀ mf, mf ∈ r.rwq i ∨ mf ∈ r.returnq i → r.Homed S' mf i

/-! ## Callbacks -/

theorem mem_idents {l : List Request} (hreq : req ∈ l) (haccess : req.isAccess = true) :
    req.ident ∈ idents l :=
  Multiset.mem_coe.mpr (List.mem_map_of_mem (List.mem_filter.mpr ⟨hreq, haccess⟩))

/-- A fetch whose request was served in its channel is done there. -/
theorem Placed.complete (hr : Placed S' r) (h : r.complete S' req = .ok r')
    (hreq : ∀ mf, req.mf = some mf → r.Homed S' mf (req.addrVec.idx 0).toNat) :
    Placed S' r' ∧ r'.mfs = r.mfs ∧ r'.returnq = r.returnq := by
  unfold Ramulator.complete at h
  split at h
  · cases h
  case h_2 mf hmf =>
    dsimp only at h
    split_ifs at h with hch hfull hlast
    · obtain rfl := Except.ok.inj h
      refine ⟨⟨hr.unaccepted, hr.held, fun i hi m hm => ?_⟩, rfl, rfl⟩
      obtain hm | hm := hm
      · dsimp only at hm
        by_cases hi' : i = (req.addrVec.idx 0).toNat
        · subst hi'
          rw [Function.update_self] at hm
          obtain hm | hm := List.mem_append.mp hm
          · exact hr.done _ hi m (.inl hm)
          · obtain rfl := List.mem_singleton.mp hm
            exact hreq m hmf
        · rw [Function.update_of_ne hi'] at hm
          exact hr.done i hi m (.inl hm)
      · exact hr.done i hi m (.inr hm)
    · obtain rfl := Except.ok.inj h
      exact ⟨⟨hr.unaccepted, hr.held, hr.done⟩, rfl, rfl⟩

theorem Placed.completeAll {done : List Request} (hr : Placed S' r)
    (h : done.foldlM (Ramulator.complete S') r = .ok r')
    (hdone : ∀ req ∈ done, ∀ mf, req.mf = some mf →
      r.Homed S' mf (req.addrVec.idx 0).toNat) :
    Placed S' r' ∧ r'.mfs = r.mfs ∧ r'.returnq = r.returnq := by
  induction done generalizing r with
  | nil =>
    obtain rfl := Except.ok.inj h
    exact ⟨hr, rfl, rfl⟩
  | cons req done ih =>
    obtain ⟨hreq, hdone⟩ := List.forall_mem_cons.mp hdone
    rw [List.foldlM_cons] at h
    obtain ⟨r₁, h₁, h⟩ := bind_eq_ok.mp h
    obtain ⟨hr₁, hmfs, hret⟩ := hr.complete h₁ hreq
    obtain ⟨hr', hmfs', hret'⟩ := ih hr₁ h fun q hq mf hmf => by
      rw [Homed, hmfs]
      exact hdone q hq mf hmf
    exact ⟨hr', hmfs'.trans hmfs, hret'.trans hret⟩

/-! ## Replies and new requests -/

/-- A reply is the same fetch with another type. -/
theorem channel_setType (mfs : Nat → Fetch) (mf m : Nat) (type : MfType) :
    (Function.update mfs mf { mfs mf with type } m).channel = (mfs m).channel := by
  rw [Function.update_apply]
  split
  case isTrue heq => rw [heq]
  case isFalse => rfl

theorem Placed.reply (hr : Placed S' r) {i : Nat} (hi : i < S'.channels)
    (h : r.reply i = .ok r') : Placed S' r' := by
  unfold Ramulator.reply at h
  split_ifs at h with hfull
  · obtain rfl := Except.ok.inj h
    exact hr
  · split at h
    · obtain rfl := Except.ok.inj h
      exact hr
    case h_2 mf rest hrwq =>
      obtain ⟨type, -, h⟩ := bind_eq_ok.mp h
      obtain rfl := Except.ok.inj h
      have hhomed : ∀ {m j}, r.Homed S' m j → Homed S' { r with
          mfs := Function.update r.mfs mf { r.mfs mf with type }
          rwq := Function.update r.rwq i rest
          returnq := Function.update r.returnq i (r.returnq i ++ [mf]) } m j := by
        intro m j hm hname
        rw [channel_setType]
        exact hm hname
      refine ⟨hr.unaccepted, fun j hj x hx => ?_, fun j hj m hm => hhomed (hr.done j hj m ?_)⟩
      · obtain ⟨m, hm, hplace, hhome⟩ := hr.held j hj x hx
        exact ⟨m, hm, hplace, hhomed hhome⟩
      · dsimp only at hm
        by_cases hj' : j = i
        · subst hj'
          rw [Function.update_self, Function.update_self] at hm
          obtain hm | hm := hm
          · exact .inl (hrwq ▸ List.mem_cons_of_mem _ hm)
          · obtain hm | hm := List.mem_append.mp hm
            · exact .inr hm
            · obtain rfl := List.mem_singleton.mp hm
              exact .inl (hrwq ▸ List.mem_cons_self ..)
        · rwa [Function.update_of_ne hj', Function.update_of_ne hj'] at hm

/-- A request that is sent goes to the controller of its place. -/
theorem Placed.send {i : Nat} (hr : Placed S' r) (h : r.send S' i req = .ok (some r')) :
    Placed S' r' := by
  obtain ⟨ch, hch, mf, addrVec, c, hmf, hvec, hplace, hc, rfl⟩ := send_eq_ok h
  refine ⟨hr.unaccepted, fun j hj x hx => ?_, hr.done⟩
  dsimp only at hx
  by_cases hj' : j = ch
  · subst hj'
    rw [Function.update_self, Controller.held_enqueue hc] at hx
    obtain hx | hx := Multiset.mem_add.mp hx
    · exact hr.held j hj x hx
    · obtain ⟨q, hq, rfl⟩ := List.mem_map.mp (Multiset.mem_coe.mp hx)
      obtain rfl := List.mem_singleton.mp (List.mem_filter.mp hq).1
      refine ⟨mf, hmf, hplace, fun hname => ?_⟩
      rw [hname] at hvec
      rw [← hplace, addressVector_channel hvec]
      rfl
  · rw [Function.update_of_ne hj'] at hx
    exact hr.held j hj x hx

theorem Placed.sendAll {i : Nat} {l left : List Request} (hr : Placed S' r)
    (h : sendAll S' i l r = .ok (left, r')) : Placed S' r' := by
  induction l generalizing r with
  | nil =>
    obtain ⟨rfl, rfl⟩ := Prod.mk.inj (Except.ok.inj h)
    exact hr
  | cons req l ih =>
    obtain ⟨sent?, hsend, h⟩ := bind_eq_ok.mp h
    cases sent? with
    | none =>
      obtain ⟨rfl, rfl⟩ := Prod.mk.inj (Except.ok.inj h)
      exact hr
    | some r₁ => exact ih (hr.send hsend) h

theorem Placed.setUnaccepted (hr : Placed S' r) {i : Nat} {l : List Request}
    (hl : ∀ req ∈ l, (req.isAccess = true ∧ req.isFirstCommand = true) ∧
      ∃ mf, req.mf = some mf) :
    Placed S' { r with unaccepted := Function.update r.unaccepted i l } := by
  refine ⟨fun j hj req hreq => ?_, hr.held, hr.done⟩
  dsimp only at hreq
  by_cases hj' : j = i
  · subst hj'
    rw [Function.update_self] at hreq
    exact hl req hreq
  · rw [Function.update_of_ne hj'] at hreq
    exact hr.unaccepted j hj req hreq

theorem Placed.sendUnaccepted (hr : Placed S' r) {i : Nat} (hi : i < S'.channels)
    (h : r.sendUnaccepted S' i = .ok r') : Placed S' r' := by
  obtain ⟨⟨left, r₁⟩, hsend, h⟩ := bind_eq_ok.mp h
  obtain rfl := Except.ok.inj h
  obtain ⟨-, -, -, hsuffix⟩ := sendAll_spec hsend
  exact (hr.sendAll hsend).setUnaccepted fun req hreq =>
    hr.unaccepted i hi req (hsuffix.subset hreq)

theorem Placed.accept (hr : Placed S' r) {f : Fetch} {reqs : List Request} {rest : List Nat}
    {i : Nat} (hreqs : parts S' mf f = .ok reqs) : Placed S' { r with
      runningMfReqs := r.runningMfReqs.insert mf reqs.length
      unaccepted := Function.update r.unaccepted i reqs
      fromGpgpusim := Function.update r.fromGpgpusim i rest } := by
  have hset := hr.setUnaccepted (i := i) fun req hreq =>
    ((parts_eq_ok hreqs).2 req hreq).imp_right fun hmf => ⟨mf, hmf⟩
  exact ⟨hset.unaccepted, hset.held, hset.done⟩

theorem Placed.drain {l : List Nat} {i : Nat} (hr : Placed S' r) (hi : i < S'.channels)
    (h : drain S' i l r = .ok r') : Placed S' r' := by
  induction l generalizing r with
  | nil => exact hr.sendUnaccepted hi h
  | cons mf rest ih =>
    obtain ⟨r₁, h₁, h⟩ := bind_eq_ok.mp h
    have hr₁ := hr.sendUnaccepted hi h₁
    split at h
    case isTrue =>
      obtain rfl := Except.ok.inj h
      exact hr₁
    case isFalse =>
      obtain ⟨reqs, hreqs, h⟩ := bind_eq_ok.mp h
      exact ih (hr₁.accept hreqs) h

theorem drain_frame {l : List Nat} {i : Nat} (h : drain S' i l r = .ok r') :
    r'.mfs = r.mfs ∧ r'.returnq = r.returnq := by
  induction l generalizing r with
  | nil =>
    obtain ⟨ctrls, left, rfl⟩ := sendUnaccepted_eq h
    exact ⟨rfl, rfl⟩
  | cons mf rest ih =>
    obtain ⟨r₁, h₁, h⟩ := bind_eq_ok.mp h
    obtain ⟨ctrls, left, heq⟩ := sendUnaccepted_eq h₁
    have hsame : r₁.mfs = r.mfs ∧ r₁.returnq = r.returnq := by
      rw [heq]
      exact ⟨rfl, rfl⟩
    split at h
    case isTrue =>
      obtain rfl := Except.ok.inj h
      exact hsame
    case isFalse =>
      obtain ⟨reqs, -, h⟩ := bind_eq_ok.mp h
      exact (ih h).imp (fun hmfs => hmfs.trans hsame.1) fun hret => hret.trans hsame.2

/-! ## Requests and replies -/

/-- The memory fetches that are in the memory have a channel, and those in the return queues are the
replies. -/
def Described (S' : MemorySpec C S) (r : Ramulator C S n) : Prop :=
  ∀ mf ∈ r.inside S', (r.mfs mf).channel < S'.channels ∧
    ((r.mfs mf).type.isReply = true ↔ mf ∈ queued S'.channels r.returnq)

theorem Described.congr (hr : Described S' r) (hinside : r'.inside S' = r.inside S')
    (hmfs : r'.mfs = r.mfs) (hret : r'.returnq = r.returnq) : Described S' r' := by
  intro mf hmf
  rw [hmfs, hret]
  exact hr mf (hinside ▸ hmf)

/-- All that is kept in a run. -/
structure Regular (S' : MemorySpec C S) (all : Multiset Nat) (r : Ramulator C S n) : Prop where
  accounts : Accounts S' all [] r
  placed : Placed S' r
  described : Described S' r

/-- What is not in the return queues asks for something. -/
theorem Regular.isReply_eq_false (hr : Regular S' all r)
    (hmf : mf ∈ queued S'.channels r.fromGpgpusim + r.runningMfReqs.keys +
      queued S'.channels r.rwq) : (r.mfs mf).type.isReply = false := by
  refine Bool.eq_false_iff.mpr fun hreply => ?_
  have hnodup := hr.accounts.nodup
  rw [← hr.accounts.inside_eq, inside] at hnodup
  exact Multiset.disjoint_left.mp (Multiset.disjoint_of_nodup_add hnodup) hmf
    ((hr.described mf (Multiset.mem_add.mpr (.inl hmf))).2.mp hreply)

theorem Regular.reply (hr : Regular S' all r) {i : Nat} (hi : i < S'.channels)
    (h : r.reply i = .ok r') : Regular S' all r' := by
  refine ⟨hr.accounts.reply hi h, hr.placed.reply hi h, ?_⟩
  have hinside : r'.inside S' = r.inside S' :=
    (hr.accounts.reply hi h).inside_eq.trans hr.accounts.inside_eq.symm
  unfold Ramulator.reply at h
  split_ifs at h with hfull
  · obtain rfl := Except.ok.inj h
    exact hr.described
  · split at h
    · obtain rfl := Except.ok.inj h
      exact hr.described
    case h_2 mf rest hrwq =>
      obtain ⟨type, htype, h⟩ := bind_eq_ok.mp h
      obtain rfl := Except.ok.inj h
      intro m hm
      obtain ⟨hchannel, hreply⟩ := hr.described m (hinside ▸ hm)
      refine ⟨?_, ?_⟩
      · rw [channel_setType]
        exact hchannel
      · dsimp only
        rw [queued_push hi, Multiset.mem_add, Multiset.mem_singleton]
        by_cases heq : m = mf
        · subst heq
          rw [Function.update_self]
          simp [MfType.isReply_setReply htype]
        · rw [Function.update_of_ne heq, hreply]
          simp [heq]

theorem Regular.drain (hr : Regular S' all r) {i : Nat} (hi : i < S'.channels)
    (h : drain S' i (r.fromGpgpusim i) r = .ok r') : Regular S' all r' := by
  have hacc := hr.accounts.drain hi rfl h
  obtain ⟨hmfs, hret⟩ := drain_frame h
  exact ⟨hacc, hr.placed.drain hi h,
    hr.described.congr (hacc.inside_eq.trans hr.accounts.inside_eq.symm) hmfs hret⟩

theorem mem_inside {i : Nat} (hi : i < S'.channels) (hmf : mf ∈ r.rwq i ∨ mf ∈ r.returnq i) :
    mf ∈ r.inside S' := by
  rw [inside, Multiset.mem_add, Multiset.mem_add]
  obtain hmf | hmf := hmf
  · exact .inl (.inr (mem_queued.mpr ⟨i, hi, hmf⟩))
  · exact .inr (mem_queued.mpr ⟨i, hi, hmf⟩)

/-- A fetch is running while there are requests for it. -/
theorem Accounts.mem_inside_of_unserved (hr : Accounts S' all [] r) (hmf : mf ∈ r.unserved S') :
    mf ∈ r.inside S' := by
  have hkey : mf ∈ r.runningMfReqs :=
    hr.outstanding.mem_iff.mpr (Multiset.mem_add.mpr (.inl hmf))
  rw [inside, Multiset.mem_add, Multiset.mem_add, Multiset.mem_add]
  exact .inl (.inl (.inr (Multiset.mem_coe.mpr (AList.mem_keys.mp hkey))))

theorem mem_unserved_of_held {i : Nat} (hi : i < S'.channels)
    {x : DramRequestType × Option Nat × AddrVec} (hx : x ∈ (r.ctrls i).held)
    (hmf : x.2.1 = some mf) : mf ∈ r.unserved S' := by
  refine Multiset.mem_add.mpr (.inr ?_)
  rw [sent, total, Multiset.mem_sum]
  exact ⟨i, Finset.mem_range.mpr hi, (Multiset.mem_filterMap _ _).mpr ⟨x, hx, hmf⟩⟩

theorem mem_unserved_of_unaccepted {i : Nat} (hi : i < S'.channels) (hreq : req ∈ r.unaccepted i)
    (haccess : req.isAccess = true) (hmf : req.mf = some mf) : mf ∈ r.unserved S' := by
  refine Multiset.mem_add.mpr (.inl ?_)
  rw [waiting, total, Multiset.mem_sum]
  exact ⟨i, Finset.mem_range.mpr hi,
    (Multiset.mem_filterMap _ _).mpr ⟨req.ident, mem_idents hreq haccess, hmf⟩⟩

theorem Regular.push (hr : Regular S' all r) {f : Fetch} {ch : Nat} (hch : ch < S'.channels)
    (hfresh : mf ∉ all) (hrequest : f.type = .readRequest ∨ f.type = .writeRequest)
    (htarget : f.channel < S'.channels) (hsize : 0 < f.dataSize / S'.org.channelUnit)
    (h : r.push mf f ch = .ok r') : Regular S' (mf ::ₘ all) r' := by
  have hacc := hr.accounts.push hch hfresh hsize h
  unfold Ramulator.push at h
  split_ifs at h
  obtain rfl := Except.ok.inj h
  have hother : ∀ m ∈ r.inside S', Function.update r.mfs mf f m = r.mfs m := by
    intro m hm
    refine Function.update_of_ne (fun heq => ?_) ..
    exact hfresh (hr.accounts.inside_eq ▸ heq ▸ hm)
  refine ⟨hacc, ⟨hr.placed.unaccepted, fun j hj x hx => ?_, fun j hj m hm hname => ?_⟩,
    fun m hm => ?_⟩
  · obtain ⟨m, hm, hplace, hhome⟩ := hr.placed.held j hj x hx
    refine ⟨m, hm, hplace, fun hname => ?_⟩
    dsimp only
    rw [hother m (hr.accounts.mem_inside_of_unserved (mem_unserved_of_held hj hx hm))]
    exact hhome hname
  · dsimp only at hm ⊢
    rw [hother m (Ramulator.mem_inside hj hm)]
    exact hr.placed.done j hj m hm hname
  · rw [hacc.inside_eq, Multiset.mem_cons] at hm
    dsimp only
    obtain rfl | hm := hm
    · rw [Function.update_self]
      refine ⟨htarget, ?_⟩
      have hnot : m ∉ queued S'.channels r.returnq := fun hmem => by
        obtain ⟨i, hi, hmem⟩ := mem_queued.mp hmem
        exact hfresh (hr.accounts.inside_eq ▸ Ramulator.mem_inside hi (.inr hmem))
      obtain htype | htype := hrequest <;> simp [htype, MfType.isReply, hnot]
    · rw [← hr.accounts.inside_eq] at hm
      rw [hother m hm]
      exact hr.described m hm

theorem Regular.pop (hr : Regular S' all r) {ch : Nat} (hch : ch < S'.channels)
    (h : (r.pop ch).1 = some mf) : ∃ all', mf ::ₘ all' = all ∧ Regular S' all' (r.pop ch).2 := by
  obtain ⟨all', hall, hacc⟩ := hr.accounts.pop hch h
  obtain ⟨rest, hrest⟩ := List.head?_eq_some_iff.mp h
  have hret : ∀ j, (r.pop ch).2.returnq j = if j = ch then rest else r.returnq j := fun j => by
    show Function.update r.returnq ch (r.returnq ch).tail j = _
    rw [Function.update_apply, hrest, List.tail_cons]
  refine ⟨all', hall, hacc, ⟨hr.placed.unaccepted, hr.placed.held, fun j hj m hm => ?_⟩, ?_⟩
  · refine hr.placed.done j hj m (hm.imp_right fun hm => ?_)
    rw [hret j] at hm
    split at hm
    case isTrue heq =>
      rw [heq, hrest]
      exact List.mem_cons_of_mem _ hm
    case isFalse => exact hm
  · intro m hm
    rw [hacc.inside_eq] at hm
    have hmem : m ∈ r.inside S' := by
      rw [hr.accounts.inside_eq, ← hall]
      exact Multiset.mem_cons_of_mem hm
    have hne : m ≠ mf := by
      rintro rfl
      have hnodup := hr.accounts.nodup
      rw [← hall] at hnodup
      exact (Multiset.nodup_cons.mp hnodup).1 hm
    obtain ⟨hchannel, hreply⟩ := hr.described m hmem
    refine ⟨hchannel, hreply.trans ?_⟩
    rw [← queued_pop hch hrest, Multiset.mem_add, Multiset.mem_singleton, or_iff_left hne]
    show _ ↔ m ∈ queued S'.channels (Function.update r.returnq ch (r.returnq ch).tail)
    rw [hrest, List.tail_cons]

/-! ## A cycle -/

variable [DecidableEq C]

theorem Placed.tickChannel (hr : Placed S' r) {i : Nat} (hi : i < S'.channels)
    (hreads : (r.ctrls i).ReadsPending) (h : r.tickChannel S' i = .ok r') :
    Placed S' r' ∧ r'.mfs = r.mfs ∧ r'.returnq = r.returnq := by
  obtain ⟨⟨c, done⟩, hc, h⟩ := bind_eq_ok.mp h
  have hheld := Controller.held_tick hc
  have htick : Placed S' { r with ctrls := Function.update r.ctrls i c } := by
    refine ⟨hr.unaccepted, fun j hj x hx => ?_, hr.done⟩
    dsimp only at hx
    by_cases hj' : j = i
    · subst hj'
      rw [Function.update_self] at hx
      exact hr.held j hj x (hheld ▸ Multiset.mem_add.mpr (.inl hx))
    · rw [Function.update_of_ne hj'] at hx
      exact hr.held j hj x hx
  refine htick.completeAll h fun req hreq mf hmf => ?_
  have hmem := mem_idents hreq ((hreads.tick hc).2 req hreq)
  obtain ⟨m, hm, hplace, hhome⟩ :=
    hr.held i hi req.ident (hheld ▸ Multiset.mem_add.mpr (.inr hmem))
  obtain rfl := Option.some.inj (hm.symm.trans hmf)
  rw [show (req.addrVec.idx 0).toNat = i from hplace]
  exact hhome

theorem Regular.tickChannel (hr : Regular S' all r) {i : Nat} (hi : i < S'.channels)
    (h : r.tickChannel S' i = .ok r') : Regular S' all r' := by
  have hacc := hr.accounts.tickChannel hi h
  obtain ⟨hplaced, hmfs, hret⟩ := hr.placed.tickChannel hi (hr.accounts.reads i) h
  exact ⟨hacc, hplaced,
    hr.described.congr (hacc.inside_eq.trans hr.accounts.inside_eq.symm) hmfs hret⟩

theorem Regular.cycle (hr : Regular S' all r) (h : r.cycle S' = .ok r') : Regular S' all r' := by
  obtain ⟨r₁, h₁, h⟩ := bind_eq_ok.mp h
  have hr₁ : Regular S' all r₁ :=
    foldlM_range (fun _ hi _ _ hstep hreg => hreg.tickChannel hi hstep) h₁ hr
  refine foldlM_range (fun i hi r₂ r₃ hstep hr₂ => ?_) h hr₁
  obtain ⟨r₄, h₄, hstep⟩ := bind_eq_ok.mp hstep
  exact (hr₂.reply hi h₄).drain hi hstep

theorem Runs.regular {pushed popped : List Nat} (hrun : Runs S' n pushed popped r) :
    ∃ all, Regular S' all r := by
  induction hrun with
  | start mfs =>
    refine ⟨0, .create S' n mfs, ⟨fun i hi req hreq => absurd hreq List.not_mem_nil,
      fun i hi x hx => absurd hx (Multiset.notMem_zero x), fun i hi m hm => ?_⟩, fun m hm => ?_⟩
    · exact absurd hm (by simp [Ramulator.create])
    · rw [(Accounts.create S' n mfs).inside_eq] at hm
      exact absurd hm (Multiset.notMem_zero m)
  | @push pushed popped r r' run mf f ch hch hfresh hrequest htarget hsize hr ih =>
    obtain ⟨all, hreg⟩ := ih
    exact ⟨_, hreg.push hch (hreg.accounts.inside_eq ▸ hfresh) hrequest htarget hsize hr⟩
  | cycle run hr ih =>
    obtain ⟨all, hreg⟩ := ih
    exact ⟨all, hreg.cycle hr⟩
  | @pop pushed popped r mf run ch hch hr ih =>
    obtain ⟨all, hreg⟩ := ih
    obtain ⟨all', -, hreg'⟩ := hreg.pop hch hr
    exact ⟨all', hreg'⟩

/-- What waits in a return queue is a reply, and comes out where its channel is. -/
theorem replies_at_home {pushed popped : List Nat} (hrun : Runs S' n pushed popped r) {i : Nat}
    (hi : i < S'.channels) (hmf : mf ∈ r.returnq i) :
    (r.mfs mf).type.isReply = true ∧ (S'.name = .m2ndp → (r.mfs mf).channel = i) := by
  obtain ⟨all, hreg⟩ := hrun.regular
  exact ⟨(hreg.described mf (Ramulator.mem_inside hi (.inr hmf))).2.mpr
    (mem_queued.mpr ⟨i, hi, hmf⟩), hreg.placed.done i hi mf (.inr hmf)⟩

theorem replies_at_home_forward : ∃ r,
    Runs (lpddr5Memory Lpddr5.lpddr5_6400 0 0 .m2ndp) 3 [1, 2] [] r ∧
    (r.mfs 2).type.isReply = true := by
  have hstart : Runs (lpddr5Memory Lpddr5.lpddr5_6400 0 0 .m2ndp) 3 [] [] _ :=
    .start fun _ => unitFetch .writeRequest
  have hwrite := hstart.push 1 (unitFetch .writeRequest) 0 (by decide) (by decide) (.inr rfl)
    (by decide) (by decide) rfl
  have hread := hwrite.push 2 (unitFetch .readRequest) 0 (by decide) (by decide) (.inl rfl)
    (by decide) (by decide) rfl
  have haccepted := hread.cycle rfl
  have hserved := haccepted.cycle rfl
  exact ⟨_, hserved, (replies_at_home hserved (i := 0) (by decide) (List.mem_singleton.mpr rfl)).1⟩

end Ramulator

end NdpSim
