import NdpSim.Functional.VectorAccess
import NdpSim.Isa.Lanes
import NdpSim.Isa.Masks
import NdpSim.Library.Folds

/-!
# Vector atomics

`VAMO` combines each active lane of a vector with the element at its own address. The element is
looked up by the width of the offsets, and written in the width of the data.
-/
namespace NdpSim

open Library Exec Slot VectorData

namespace LaneType

theorem elementAt_lt (t : LaneType) (addr : BitVec 64) : elementAt addr t.size < t.count := by
  cases t <;> simp only [elementAt, count, size, packetSize] <;> omega

end LaneType

/-- The operations of the vector atomics. -/
inductive AmoOp
  | add | and | or | max | min
  deriving DecidableEq

namespace AmoOp

def arith : AmoOp → ArithOp
  | add => .add
  | and => .and
  | or => .or
  | max => .max
  | min => .min

/-- The operation on words that stand for numbers. -/
def combine {w : Nat} (a : AmoOp) (value : BitVec w → Int) (x y : BitVec w) : BitVec w :=
  match a with
  | add => x + y
  | and => x &&& y
  | or => x ||| y
  | max => if value y < value x then x else y
  | min => if value x < value y then x else y

/-- The operation on elements of one type. -/
def apply (a : AmoOp) (t : LaneType) (x y : BitVec t.bits) : BitVec t.bits :=
  a.combine t.value x y

/-- Numbers are combined as the integers they are promoted to. -/
theorem onInt_eq (a : AmoOp) {w n : Nat} (hw : w ≤ 64) {value : BitVec w → Int}
    (hvalue : ∀ x, BitVec.ofInt w (value x) = x) (x y : BitVec w) :
    ∃ k, a.arith.onInt n (value x) (value y) = .ok k ∧ BitVec.ofInt w k = a.combine value x y := by
  have hcut (z : BitVec 64) : BitVec.ofInt w z.toInt = z.setWidth w :=
    BitVec.signExtend_eq_setWidth_of_le z hw
  have hback (z : BitVec w) : (BitVec.ofInt 64 (value z)).setWidth w = z := by
    rw [← hcut, ofInt_toInt_ofInt hw, hvalue]
  cases a with
  | add =>
    refine ⟨_, rfl, ?_⟩
    rw [BitVec.ofInt_add, hvalue, hvalue]
    rfl
  | and =>
    refine ⟨_, rfl, (hcut _).trans ?_⟩
    rw [BitVec.setWidth_and, hback, hback]
    rfl
  | or =>
    refine ⟨_, rfl, (hcut _).trans ?_⟩
    rw [BitVec.setWidth_or, hback, hback]
    rfl
  | max =>
    refine ⟨_, rfl, ?_⟩
    rw [combine]
    split <;> exact hvalue _
  | min =>
    refine ⟨_, rfl, ?_⟩
    rw [combine]
    split <;> exact hvalue _

/-- `arith_op` computes the operation, but not on `char`. -/
theorem arithOp_elem [FloatOps] (a : AmoOp) {t : LaneType} (ht : t ≠ .char8)
    (x y : BitVec t.bits) :
    arithOp a.arith (t.elem x) (t.elem y) = .ok (t.elem (a.apply t x y)) := by
  have honInt (n : Nat) := a.onInt_eq (n := n) t.bits_le t.ofInt_value x y
  have hresult {n : Nat} (h : arithOp a.arith (t.elem x) (t.elem y) =
      (fun k => t.elem (BitVec.ofInt t.bits k)) <$> a.arith.onInt n (t.value x) (t.value y)) :
      arithOp a.arith (t.elem x) (t.elem y) = .ok (t.elem (a.apply t x y)) := by
    obtain ⟨k, hk, heq⟩ := honInt n
    rw [h, hk, apply, ← heq]
    rfl
  cases t with
  | char8 => exact absurd rfl ht
  | uint8 => exact hresult (n := 32) rfl
  | int16 => exact hresult (n := 32) rfl
  | int32 => exact hresult (n := 32) rfl
  | int64 => exact hresult (n := 64) rfl

end AmoOp

/-! ## Elements in memory -/

/-- The contents of memory in elements of one type, by packet and place in it. -/
abbrev Cells (t : LaneType) := BitVec 64 × Nat → BitVec t.bits

/-- The element of type `t` at an address. -/
def LaneType.cellAt (t : LaneType) (addr : BitVec 64) : BitVec 64 × Nat :=
  (formatAddr addr, elementAt addr t.size)

namespace VectorData

variable [FloatOps] {t : LaneType} {v v' : VectorData} {f g : Nat → BitVec t.bits}

/-- One register of elements, `f` in order. -/
structure Page (t : LaneType) (f : Nat → BitVec t.bits) (v : VectorData) : Prop where
  fills : Fills t.type t.sew v
  get : ∀ i < t.count, v.get t.type i = .ok (t.elem (f i))

omit [FloatOps] in
theorem Fills.room_iff (h : Fills t.type t.sew v) (i : Nat) : v.Room t.type i ↔ i < t.count := by
  have hvlen := h.vlen
  have hwords := h.words
  cases t <;>
    simp only [LaneType.sew, Vsew.bits, packetSize, byteBit, packetEntries] at hvlen hwords <;>
    simp [Room, LaneType.type, perWord, LaneType.count, LaneType.size, packetSize] <;> omega

/-- No element is read past the last one. -/
theorem Fills.lt_of_get (h : Fills t.type t.sew v) {i : Nat} {e : Elem}
    (hget : v.get t.type i = .ok e) : i < t.count := by
  by_contra hi
  have hwords := h.words
  have hno := mt (h.room_iff i).mp hi
  by_cases hlong : t = .int64
  · subst hlong
    have hvlen := h.vlen
    simp only [LaneType.sew, Vsew.bits, packetSize, byteBit, packetEntries] at hvlen hwords
    simp only [Room, LaneType.type, if_true, not_and] at hno
    have hnone : v.data[2 * i]? = none := by
      rw [List.getElem?_eq_none_iff]
      by_contra hlt
      exact hno (by omega) (by omega)
    simp only [LaneType.type, get, getLongData, word, hnone] at hget
    cases hget
  · have hshort : t.type ≠ .int64 := mt t.type_eq_int64.mp hlong
    have hvlen := h.vlen
    have hout : ¬ i / perWord t.type < v.data.length := by
      intro hlt
      simp only [Room, if_neg hshort, not_and] at hno
      refine hno ?_ hlt
      cases t <;> first
        | exact absurd rfl hlong
        | simp only [LaneType.sew, Vsew.bits, packetSize, byteBit, packetEntries] at hvlen hwords
          omega
    obtain ⟨f, hf⟩ := get_of_not_lt hshort hout
    cases hf.symm.trans hget

theorem Page.unique (h : Page t f v) (h' : Page t g v) {i : Nat} (hi : i < t.count) : f i = g i :=
  t.elem_injective (Except.ok.inj ((h.get i hi).symm.trans (h'.get i hi)))

/-- An element of the type is written in its place. -/
theorem Page.set (h : Page t f v) {i : Nat} (hi : i < t.count) (x : BitVec t.bits) :
    ∃ v', v.setData (t.elem x) i = .ok v' ∧ Page t (Function.update f i x) v' := by
  have hroom : v.Room (t.elem x).type i := by
    rw [t.type_elem]
    exact (h.fills.room_iff i).mpr hi
  obtain ⟨v', hv', hat⟩ := setData_spec hroom
  have hself := hat.self
  have hother := hat.other
  rw [t.type_elem, t.stored_elem] at hself
  rw [t.type_elem] at hother
  refine ⟨v', hv', ⟨t.type_mem, hat.type.trans (t.type_elem x), ?_, ?_, ?_⟩, fun j hj => ?_⟩
  · rw [hat.shape.vlen]
    exact h.fills.vlen
  · rw [hat.shape.doubleReg]
    exact h.fills.single
  · rw [hat.shape.words]
    exact h.fills.words
  · by_cases hij : j = i
    · subst hij
      rw [Function.update_self, hself]
    · rw [Function.update_of_ne hij, hother j hij, h.get j hj]

/-- The register that stands for an absent packet. -/
theorem page_fresh (hv : v.type = t.type) :
    Page t (fun _ => 0) ((ofSewLmul (v.getPrecision * 8) 8).setType t.type) := by
  have hprecision : v.getPrecision = t.size := by
    rw [getPrecision, hv]
    cases t <;> rfl
  rw [hprecision]
  refine ⟨⟨t.type_mem, rfl, by cases t <;> rfl, by cases t <;> rfl, by cases t <;> rfl⟩,
    fun i hi => ?_⟩
  have hword {j : Nat} (hj : j < 8) :
      ((ofSewLmul (t.size * 8) 8).setType t.type).data[j]? = some 0 := by
    have hdata : ((ofSewLmul (t.size * 8) 8).setType t.type).data = List.replicate 8 0 := by
      cases t <;> rfl
    rw [hdata, List.getElem?_replicate_of_lt hj]
  rw [← t.zeroElem_type]
  by_cases hlong : t = .int64
  · subst hlong
    simp only [LaneType.count, LaneType.size, packetSize] at hi
    have hget := getLongData_eq_ok (hword (by omega : 2 * i < 8)) (hword (by omega : 2 * i + 1 < 8))
    exact congrArg (Elem.long <$> ·) hget
  · refine get_of_zero (mt t.type_eq_int64.mp hlong) (elementTypes_ne t.type_mem)
      (fun h => absurd h t.type_ne_float16) (hword ?_)
    cases t <;> first
      | exact absurd rfl hlong
      | simp only [LaneType.count, LaneType.size, packetSize] at hi
        simp only [LaneType.type, perWord]
        omega

end VectorData

theorem checkScratchpad_formatAddr (addr : BitVec 64) :
    checkScratchpad (formatAddr addr) = checkScratchpad addr := by
  have hrange (a : BitVec 64) : checkScratchpad a = true ↔
      scratchpadBase ≤ a.toNat ∧ a.toNat < scratchpadBase + scratchpadMaxSize := by
    rw [checkScratchpad, Bool.and_eq_true, decide_eq_true_iff, decide_eq_true_iff]
  rw [Bool.eq_iff_iff, hrange, hrange, toNat_formatAddr, scratchpadBase, scratchpadMaxSize]
  omega

namespace Memories

variable [FloatOps] {t : LaneType} {mem mem' : Memories} {cells cells' : Cells t}
  {addr a : BitVec 64} {v vs : VectorData}

/-- The packet of `addr` can be loaded and stored, and what is loaded was stored. -/
structure Ready (mem : Memories) (addr : BitVec 64) : Prop where
  inRange : mem.inRange addr
  stored : mem.isSynthetic addr = false

/-- The packet of `addr` holds its elements, or it is absent and they are zero. -/
def Holds (mem : Memories) (cells : Cells t) (addr : BitVec 64) : Prop :=
  match mem.packet addr with
  | some v => Page t (fun i => cells (formatAddr addr, i)) v
  | none => ∀ i < t.count, cells (formatAddr addr, i) = 0

theorem Holds.single (h : mem.Holds cells addr) (hv : mem.packet addr = some v) :
    v.doubleReg = false := by
  rw [Holds, hv] at h
  exact h.fills.single

/-- A packet holds one list of elements. -/
theorem Holds.unique (h : mem.Holds cells addr) (h' : mem.Holds cells' addr) {i : Nat}
    (hi : i < t.count) : cells (formatAddr addr, i) = cells' (formatAddr addr, i) := by
  rw [Holds] at h h'
  cases hv : mem.packet addr with
  | none =>
    rw [hv] at h h'
    rw [h i hi, h' i hi]
  | some v =>
    rw [hv] at h h'
    exact h.unique h' hi

theorem Holds.of_packet (h : mem.Holds cells addr) (hp : mem'.packet addr = mem.packet addr)
    (hc : ∀ i, cells' (formatAddr addr, i) = cells (formatAddr addr, i)) :
    mem'.Holds cells' addr := by
  rw [Holds, hp, funext hc]
  rw [Holds] at h
  cases hv : mem.packet addr with
  | none =>
    rw [hv] at h
    exact fun i hi => (hc i).trans (h i hi)
  | some v =>
    rw [hv] at h
    exact h

theorem tryLoad_eq (hready : mem.Ready addr) (h : mem.Holds cells addr) :
    mem.tryLoad addr = .ok (mem.packet addr) := by
  have hload : (mem.get (formatAddr addr)).load (formatAddr addr) = _ := load_eq hready.inRange
  have hget : mem.get addr = mem.get (formatAddr addr) := by
    rw [get, get, checkScratchpad_formatAddr]
  rw [tryLoad, hget, hload, hready.stored]
  cases hv : mem.packet addr with
  | none => simp
  | some v => simp [h.single hv]

/-- What an atomic operation goes on with. -/
theorem Holds.page (h : mem.Holds cells addr) (hvs : vs.type = t.type) :
    Page t (fun i => cells (formatAddr addr, i))
      ((mem.packet addr).getD ((ofSewLmul (vs.getPrecision * 8) 8).setType vs.type)) := by
  rw [Holds] at h
  cases hv : mem.packet addr with
  | none =>
    rw [hv] at h
    have hfresh := page_fresh hvs
    rw [hvs]
    exact ⟨hfresh.fills, fun i hi => by rw [h i hi]; exact hfresh.get i hi⟩
  | some v =>
    rw [hv] at h
    exact h

/-- A packet is replaced by one with one element changed. -/
theorem Stored.holds (hst : Stored mem addr v mem') (h : mem.Holds cells a) {i : Nat}
    {x : BitVec t.bits}
    (hv : Page t (Function.update (fun i => cells (formatAddr addr, i)) i x) v) :
    mem'.Holds (Function.update cells (formatAddr addr, i) x) a := by
  by_cases ha : formatAddr a = formatAddr addr
  · rw [Holds, hst.packet, if_pos ha, ha]
    refine ⟨hv.fills, fun j hj => ?_⟩
    rw [hv.get j hj]
    by_cases hij : j = i
    · subst hij
      rw [Function.update_self, Function.update_self]
    · have hne : (formatAddr addr, j) ≠ (formatAddr addr, i) := fun h => hij (Prod.mk.inj h).2
      rw [Function.update_of_ne hij, Function.update_of_ne hne]
  · refine h.of_packet (hst.other ha) fun j => Function.update_of_ne ?_ ..
    exact fun heq => ha (Prod.mk.inj heq).1

end Memories

namespace Machine

variable [FloatOps] {ρ : Type} {ops : FileOps ρ} {inst : NdpInstruction} {m m' : Machine ρ}
  {t ot : LaneType} {a : AmoOp} {base : BitVec 64} {vm offsets vs : VectorData}
  {cells : Cells t} {i : Nat}

theorem run_tryLoad (addr : BitVec 64) : (tryLoad addr).run (handle ops inst) m =
    m.memories.tryLoad addr >>= fun v => .ok (v, m) := by
  change (do let (r, m) ← handle ops inst (.tryLoad addr) m; Except.ok (r, m)) = _
  rw [handle]
  cases m.memories.tryLoad addr <;> rfl

/-! ## One lane -/

theorem run_amoLane (arith : ArithOp) :
    (amoLane arith base vm offsets vs i).run (handle ops inst) m = do
    let active ← vm.getVmaskData i
    if active then do
      let off ← laneOffset offsets i
      let vd ← m.memories.tryLoad (base + off)
      let vd := vd.getD ((ofSewLmul (vs.getPrecision * 8) 8).setType vs.type)
      let t ← amoType vd vs
      let x ← vd.get t (amoIndex offsets.type (base + off))
      let y ← vs.get t i
      let r ← arithOp arith x y
      let vd ← vd.setData r (amoIndex offsets.type (base + off))
      let mem ← m.memories.store (base + off) vd
      return ((), { m with memories := mem })
    else return ((), m) := by
  simp only [amoLane, Prog.run_bind, run_liftM, bind_assoc, ok_bind]
  refine bind_congr fun active => ?_
  cases active with
  | false => rfl
  | true =>
    simp only [not_true_eq_false, if_false, Prog.run_bind, run_liftM, run_tryLoad, run_store,
      bind_assoc, ok_bind, if_true]
    rfl

omit [FloatOps] in
theorem amoIndex_eq (ot : LaneType) (addr : BitVec 64) :
    amoIndex ot.type addr = elementAt addr ot.size := by
  cases ot <;> first | rfl | exact (Nat.div_one _).symm

theorem laneOffset_eq (ho : ot ≠ .char8) (htype : offsets.type = ot.type) {x : BitVec ot.bits}
    (hget : offsets.get ot.type i = .ok (ot.elem x)) :
    laneOffset offsets i = .ok (BitVec.ofInt 64 (ot.value x)) := by
  have hread {w : Nat} {f : BitVec w → Elem} (hf : Function.Injective f)
      {y : Except Fault (BitVec w)} {x : BitVec w} (h : f <$> y = .ok (f x)) : y = .ok x := by
    cases y with
    | error e => cases h
    | ok y => exact congrArg Except.ok (hf (Except.ok.inj h))
  rw [laneOffset, htype]
  cases ot with
  | char8 => exact absurd rfl ho
  | uint8 =>
    have hlane : offsets.getU8Data i = .ok x := hread (LaneType.elem_injective .uint8) hget
    simp only [LaneType.type, hlane]
    exact congrArg Except.ok (BitVec.ofNat_toNat 64 x).symm
  | int16 =>
    have hlane : offsets.getShortData i = .ok x := hread (LaneType.elem_injective .int16) hget
    simp only [LaneType.type, hlane]
    rfl
  | int32 =>
    have hlane : offsets.getIntData i = .ok x := hread (LaneType.elem_injective .int32) hget
    simp only [LaneType.type, hlane]
    rfl
  | int64 =>
    have hlane : offsets.getLongData i = .ok x := hread (LaneType.elem_injective .int64) hget
    simp only [LaneType.type, hlane]
    exact congrArg Except.ok BitVec.ofInt_toInt.symm

omit [FloatOps] in
/-- The type is the one of the packet and of the operand, if it is not `char`. -/
theorem amoType_eq {vd : VectorData} (hvd : vd.type = t.type) (hvs : vs.type = t.type) :
    amoType vd vs =
      if t = .char8 then .error (.runtimeError "Unsupported Data Type") else .ok t.type := by
  rw [amoType, hvd, hvs]
  cases t <;> rfl

section Lane

variable {off : BitVec 64} {x : BitVec t.bits} (hmask : vm.getVmaskData i = .ok true)
  (hoff : laneOffset offsets i = .ok off) (hvs : vs.type = t.type)
  (hready : m.memories.Ready (base + off)) (hholds : m.memories.Holds cells (base + off))

include hmask hoff hvs hready hholds

variable (ops inst a) in
/-- An active lane changes the element that is looked up. -/
theorem amoLane_spec (ht : t ≠ .char8) (hlt : amoIndex offsets.type (base + off) < t.count)
    (hx : vs.get t.type i = .ok (t.elem x)) :
    ∃ mem v, (amoLane a.arith base vm offsets vs i).run (handle ops inst) m =
        .ok ((), { m with memories := mem }) ∧
      m.memories.Stored (base + off) v mem ∧
      ∀ b, m.memories.Holds cells b → mem.Holds
        (Function.update cells (formatAddr (base + off), amoIndex offsets.type (base + off))
          (a.apply t
            (cells (formatAddr (base + off), amoIndex offsets.type (base + off))) x)) b := by
  have hpage := hholds.page hvs
  obtain ⟨v, hv, hset⟩ := hpage.set hlt
    (a.apply t (cells (formatAddr (base + off), amoIndex offsets.type (base + off))) x)
  obtain ⟨mem, hstore, hstored⟩ := Memories.store_spec hready.inRange
    (fun w hw => hholds.single hw) v
  refine ⟨mem, v, ?_, hstored, fun b hb => hstored.holds hb hset⟩
  rw [run_amoLane, hmask, ok_bind, if_pos rfl, hoff, ok_bind, Memories.tryLoad_eq hready hholds,
    ok_bind]
  dsimp only
  rw [amoType_eq hpage.fills.type hvs, if_neg ht, ok_bind, hpage.get _ hlt, ok_bind, hx, ok_bind,
    a.arithOp_elem ht, ok_bind, hv, ok_bind, hstore]
  rfl

/-- No other lane returns. -/
theorem lt_of_amoLane {r : Unit × Machine ρ}
    (hrun : (amoLane a.arith base vm offsets vs i).run (handle ops inst) m = .ok r) :
    t ≠ .char8 ∧ amoIndex offsets.type (base + off) < t.count := by
  have hpage := hholds.page hvs
  rw [run_amoLane, hmask, ok_bind, if_pos rfl, hoff, ok_bind, Memories.tryLoad_eq hready hholds,
    ok_bind] at hrun
  dsimp only at hrun
  rw [amoType_eq hpage.fills.type hvs] at hrun
  by_cases ht : t = .char8
  · rw [if_pos ht] at hrun
    cases hrun
  · rw [if_neg ht, ok_bind] at hrun
    obtain ⟨e, he, -⟩ := bind_eq_ok.mp hrun
    exact ⟨ht, hpage.fills.lt_of_get he⟩

end Lane

/-! ## All lanes -/

omit [FloatOps] in
theorem maskBit_of_get {b : Bool} (h : vm.getVmaskData i = .ok b) :
    i / unionDataSize < vm.data.length ∧ vm.maskBit i = b := by
  obtain ⟨w, hw, hb⟩ := bind_eq_ok.mp h
  have hlt : i / unionDataSize < vm.data.length := by
    by_contra hge
    rw [word, List.getElem?_eq_none (Nat.le_of_not_lt hge)] at hw
    cases hw
  exact ⟨hlt, Except.ok.inj ((getVmaskData_eq hlt).symm.trans h)⟩

/-- The element that is looked up at an address. -/
def lookedUp (ot : LaneType) (addr : BitVec 64) : BitVec 64 × Nat :=
  (formatAddr addr, elementAt addr ot.size)

section Loop

variable {lanes : List Nat} {off : Nat → BitVec 64} {x : Nat → BitVec t.bits} {mem₀ : Memories}

/-- The lanes have offsets and operands. -/
structure Supplied (ot t : LaneType) (offsets vs : VectorData) (lanes : List Nat)
    (off : Nat → BitVec 64) (x : Nat → BitVec t.bits) : Prop where
  offsetType : offsets.type = ot.type
  type : vs.type = t.type
  offset : ∀ i ∈ lanes, laneOffset offsets i = .ok (off i)
  operand : ∀ i ∈ lanes, vs.get t.type i = .ok (t.elem (x i))

/-- The packets of the lanes hold the cells, and the other packets are those of `mem₀`. -/
structure Touches (base : BitVec 64) (lanes : List Nat) (off : Nat → BitVec 64) (mem₀ : Memories)
    (cells : Cells t) (mem : Memories) : Prop where
  ready : ∀ i ∈ lanes, mem.Ready (base + off i)
  holds : ∀ i ∈ lanes, mem.Holds cells (base + off i)
  others : ∀ b, (∀ i ∈ lanes, formatAddr b ≠ formatAddr (base + off i)) →
    mem.packet b = mem₀.packet b

omit [FloatOps] in
/-- The loop does not stop at the lane. -/
def Passes (ot t : LaneType) (base : BitVec 64) (vm : VectorData) (off : Nat → BitVec 64)
    (i : Nat) : Prop :=
  i / unionDataSize < vm.data.length ∧
    (vm.maskBit i = true → t ≠ .char8 ∧ (lookedUp ot (base + off i)).2 < t.count)

theorem lane_cases (hs : Supplied ot t offsets vs lanes off x)
    (h : Touches base lanes off mem₀ cells m.memories) (hi : vm.maskBit i = true → i ∈ lanes) :
    (∃ mem, (amoLane a.arith base vm offsets vs i).run (handle ops inst) m =
        .ok ((), { m with memories := mem }) ∧ Passes ot t base vm off i ∧
      Touches base lanes off mem₀
        (scatter (a.apply t) (fun j => lookedUp ot (base + off j)) x ([i].filter vm.maskBit) cells)
        mem) ∨
    (∃ f, (amoLane a.arith base vm offsets vs i).run (handle ops inst) m = .error f) ∧
      ¬ Passes ot t base vm off i := by
  cases hget : vm.getVmaskData i with
  | error f =>
    refine .inr ⟨⟨f, ?_⟩, fun hp => ?_⟩
    · rw [run_amoLane, hget]
      rfl
    · cases hget.symm.trans (getVmaskData_eq hp.1)
  | ok b =>
    obtain ⟨hread, hbit⟩ := maskBit_of_get hget
    cases b with
    | false =>
      refine .inl ⟨m.memories, ?_, ⟨hread, fun h => ?_⟩, ?_⟩
      · rw [run_amoLane, hget]
        rfl
      · cases hbit.symm.trans h
      · rw [List.filter_cons_of_neg (by rw [hbit]; exact Bool.false_ne_true)]
        exact h
    | true =>
      have hlane := hi hbit
      have hindex : amoIndex offsets.type (base + off i) = (lookedUp ot (base + off i)).2 := by
        rw [hs.offsetType, amoIndex_eq]
        rfl
      by_cases hgood : t ≠ .char8 ∧ (lookedUp ot (base + off i)).2 < t.count
      · obtain ⟨mem, v, hrun, hstored, hholds⟩ := amoLane_spec ops inst a
          hget (hs.offset i hlane) hs.type (h.ready i hlane) (h.holds i hlane) hgood.1
          (hindex ▸ hgood.2) (hs.operand i hlane)
        refine .inl ⟨mem, hrun, ⟨hread, fun _ => hgood⟩, fun j hj => ?_, fun j hj => ?_,
          fun b hb => ?_⟩
        · exact ⟨(hstored.inRange _).mpr (h.ready j hj).inRange,
            (hstored.isSynthetic _).trans (h.ready j hj).stored⟩
        · rw [List.filter_cons_of_pos hbit]
          have hat := hholds _ (h.holds j hj)
          rw [hindex] at hat
          exact hat
        · rw [hstored.other (hb i hlane), h.others b hb]
      · refine .inr ⟨?_, fun hp => hgood (hp.2 hbit)⟩
        cases hrun : (amoLane a.arith base vm offsets vs i).run (handle ops inst) m with
        | error f => exact ⟨f, rfl⟩
        | ok r =>
          have hlt := lt_of_amoLane hget (hs.offset i hlane) hs.type (h.ready i hlane)
            (h.holds i hlane) hrun
          rw [hindex] at hlt
          exact absurd hlt hgood

variable (ops inst a) in
/-- The loop of `amo_loop` stops, or the elements that are looked up are changed in turn. -/
theorem loop_cases (hs : Supplied ot t offsets vs lanes off x) {is : List Nat}
    (h : Touches base lanes off mem₀ cells m.memories)
    (hi : ∀ i ∈ is, vm.maskBit i = true → i ∈ lanes) :
    (∃ mem, (is.foldlM (fun (_ : Unit) i => amoLane a.arith base vm offsets vs i) ()).run
        (handle ops inst) m = .ok ((), { m with memories := mem }) ∧
      (∀ i ∈ is, Passes ot t base vm off i) ∧
      Touches base lanes off mem₀
        (scatter (a.apply t) (fun j => lookedUp ot (base + off j)) x (is.filter vm.maskBit) cells)
        mem) ∨
    (∃ f, (is.foldlM (fun (_ : Unit) i => amoLane a.arith base vm offsets vs i) ()).run
        (handle ops inst) m = .error f) ∧ ∃ i ∈ is, ¬ Passes ot t base vm off i := by
  induction is generalizing m cells with
  | nil => exact .inl ⟨m.memories, rfl, by simp, h⟩
  | cons i is ih =>
    rw [List.foldlM_cons, Prog.run_bind]
    rcases lane_cases hs h (hi i List.mem_cons_self) with
      ⟨mem, hrun, hpass, hmem⟩ | ⟨⟨f, hrun⟩, hstop⟩
    · rw [hrun, ok_bind]
      have hrest := ih (m := { m with memories := mem }) hmem
        fun j hj => hi j (List.mem_cons_of_mem _ hj)
      rcases hrest with ⟨mem', hrun', hpass', hmem'⟩ | ⟨hfault, j, hj, hstop⟩
      · refine .inl ⟨mem', hrun', ?_, ?_⟩
        · rintro j hj
          rcases List.mem_cons.mp hj with rfl | hj
          · exact hpass
          · exact hpass' j hj
        · have hcons : (i :: is).filter vm.maskBit =
              [i].filter vm.maskBit ++ is.filter vm.maskBit := List.filter_append [i] is
          rw [hcons, scatter_append]
          exact hmem'
      · exact .inr ⟨hfault, j, List.mem_cons_of_mem _ hj, hstop⟩
    · exact .inr ⟨⟨f, by rw [hrun]; rfl⟩, i, List.mem_cons_self, hstop⟩

end Loop

end Machine

/-! ## The instruction -/

/-- The mask of the instruction, or one for all lanes of the settings. -/
def amoMask (c : CSR) : Option VectorData → Except Fault VectorData
  | some v => .ok (v.setType .vmask)
  | none => (fun v => v.setType .vmask) <$>
      setMask (ofContext c) (List.range (ofContext c).vlen) fun _ => .ok true

/-- The lanes of the settings are set. -/
theorem setMask_ofContext (c : CSR) :
    ∃ v, setMask (ofContext c) (List.range (ofContext c).vlen) (fun _ => .ok true) = .ok v ∧
      v.data.length = (ofContext c).data.length ∧
      ∀ i, v.maskBit i = decide (i < (ofContext c).vlen) := by
  obtain ⟨v, hv, hmasked⟩ := setMask_spec List.nodup_range
    (fun i hi => words_of_vlen (List.mem_range.mp hi)) (fun i _ => maskBit_ofContext c i)
    (b := fun _ => true) fun _ _ => rfl
  refine ⟨v, hv, hmasked.shape.words, fun i => ?_⟩
  rw [hmasked.bits, maskBit_ofContext, Bool.false_or, Bool.and_true,
    decide_eq_decide.mpr List.mem_range]

namespace Machine

variable [FloatOps] {ρ : Type} {ops : FileOps ρ} {op : Opcode} {a : AmoOp} {c : CSR}
  {base : BitVec 64} {offsets vs : VectorData} {mask : Option VectorData} {inst : NdpInstruction}
  {m : Machine ρ} {t ot : LaneType}

omit [FloatOps] in
/-- The operand fields name registers with the given values. -/
structure Vamo (ops : FileOps ρ) (op : Opcode) (c : CSR) (base : BitVec 64) (offsets : VectorData)
    (mask : Option VectorData) (vs : VectorData) (inst : NdpInstruction) (m : Machine ρ) :
    Prop where
  opcode : inst.opcode = op
  csr : m.csr = c
  base : ops.readX m.regs m.csr (inst.operand (src 0)) = .ok base
  offsets : ops.readV m.regs m.csr (inst.operand (src 1)) = .ok offsets
  operand : ops.readV m.regs m.csr (inst.operand (src 2)) = .ok vs
  mask : match mask with
    | some v => inst.operand (src 3) ≠ -1 ∧ ops.readV m.regs m.csr (inst.operand (src 3)) = .ok v
    | none => inst.operand (src 3) = -1

theorem executeVectorOp_vamo {arith : ArithOp} (h : getArithOp op = some arith)
    (operandType : OperandType) (segCnt : Int) :
    executeVectorOp op operandType segCnt = executeVamo arith ∧ op ≠ .exit ∧
      op.checkBranchOp = false ∧ op.checkVectorOp = true := by
  simp only [getArithOp] at h
  split at h <;> first
    | cases h
      exact ⟨rfl, nofun, rfl, rfl⟩
    | cases h

theorem exec_vamo (h : Vamo ops op c base offsets mask vs inst m) {arith : ArithOp}
    (hop : getArithOp op = some arith) : exec ops inst m = do
      let vm ← amoMask c mask
      let r ← ((List.range offsets.vlen).foldlM
        (fun (_ : Unit) i => amoLane arith base vm offsets vs i) ()).run (handle ops inst) m
      return (false, { r.2 with csr := resume r.2.csr }) := by
  obtain ⟨hvamo, hexit, hbranch, hvector⟩ :=
    executeVectorOp_vamo hop inst.operandType inst.segCnt
  have hrun : (executeVamo arith).run (handle ops inst) m = (do
      let vm ← amoMask c mask
      ((List.range offsets.vlen).foldlM
        (fun (_ : Unit) i => amoLane arith base vm offsets vs i) ()).run (handle ops inst) m) := by
    rw [executeVamo, run_csr_bind, run_readX_bind _ h.base, run_readV_bind _ h.offsets,
      run_readV_bind _ h.operand, h.csr]
    obtain ⟨all, hall, -⟩ := setMask_ofContext c
    dsimp only
    rw [run_liftM_bind, hall, ok_bind]
    have hpresent (k : Bool → Exec VectorData) : (present (src 3) >>= k).run (handle ops inst) m =
        (k (inst.operand (src 3) != -1)).run (handle ops inst) m := rfl
    rw [Prog.run_bind, hpresent]
    have hmask := h.mask
    cases mask with
    | none =>
      simp only [hmask, amoMask, hall]
      rfl
    | some v =>
      obtain ⟨hpresent, hread⟩ := hmask
      simp only [bne_iff_ne.mpr hpresent, if_true, run_readV, hread]
      rfl
  rw [exec_vector (by rw [h.opcode]; exact hexit) (by rw [h.opcode]; exact hbranch)
    (by rw [h.opcode]; exact hvector), h.opcode, hvamo, hrun, bind_assoc]
  rfl

/-! ## The elements after the instruction -/

omit [FloatOps] in
/-- A lane is active unless the mask switches it off. -/
def active (mask : Option VectorData) (i : Nat) : Bool :=
  match mask with
  | some v => v.maskBit i
  | none => true

omit [FloatOps] in
def activeLanes (mask : Option VectorData) (offsets : VectorData) : List Nat :=
  (List.range offsets.vlen).filter (active mask)

/-- The offsets are integers, and a mask has a bit for each. -/
structure Indexed (ot : LaneType) (mask : Option VectorData) (offsets : VectorData)
    (idx : Nat → BitVec ot.bits) : Prop where
  type : offsets.type = ot.type
  supported : ot ≠ .char8
  get : ∀ i < offsets.vlen, offsets.get ot.type i = .ok (ot.elem (idx i))
  mask : ∀ v, mask = some v → ∀ i < offsets.vlen, i / unionDataSize < v.data.length

omit [FloatOps] in
/-- The address of a lane. -/
def laneAddr (ot : LaneType) (base : BitVec 64) (idx : Nat → BitVec ot.bits) (i : Nat) :
    BitVec 64 := base + BitVec.ofInt 64 (ot.value (idx i))

/-- On elements of type `t` the instruction changes the elements at the addresses of the active
lanes, one lane after the other, and nothing else. -/
def FoldsLanes (op : Opcode) (a : AmoOp) (t ot : LaneType) (c : CSR) (base : BitVec 64)
    (offsets : VectorData) (mask : Option VectorData) (idx : Nat → BitVec ot.bits) : Prop :=
  ∀ (ρ : Type) (ops : FileOps ρ) (inst : NdpInstruction) (m : Machine ρ) (vs : VectorData)
    (x : Nat → BitVec t.bits) (cells : Cells t),
    Vamo ops op c base offsets mask vs inst m → vs.type = t.type →
    (∀ i ∈ activeLanes mask offsets, vs.get t.type i = .ok (t.elem (x i))) →
    (∀ i ∈ activeLanes mask offsets, m.memories.Ready (laneAddr ot base idx i) ∧
      m.memories.Holds cells (laneAddr ot base idx i)) →
    ∃ mem, exec ops inst m = .ok (false, { m with memories := mem, csr := resume m.csr }) ∧
      (∀ i ∈ activeLanes mask offsets, mem.Holds
        (scatter (a.apply t) (fun i => t.cellAt (laneAddr ot base idx i)) x
          (activeLanes mask offsets) cells) (laneAddr ot base idx i)) ∧
      ∀ b, (∀ i ∈ activeLanes mask offsets, formatAddr b ≠ formatAddr (laneAddr ot base idx i)) →
        mem.packet b = m.memories.packet b

/-- The lane is one of the settings if there is no mask register, and the element at its address
is the same in both widths. -/
structure Served (t ot : LaneType) (c : CSR) (mask : Option VectorData) (addr : BitVec 64)
    (i : Nat) : Prop where
  type : t ≠ .char8
  lane : mask = none → i < (ofContext c).vlen
  element : elementAt addr ot.size = elementAt addr t.size

variable {idx : Nat → BitVec ot.bits}

omit [FloatOps] in
theorem mem_activeLanes {i : Nat} :
    i ∈ activeLanes mask offsets ↔ i < offsets.vlen ∧ active mask i = true := by
  rw [activeLanes, List.mem_filter, List.mem_range]

omit [FloatOps] in
/-- The lanes that are on, and how many have a bit. -/
theorem amoMask_spec (c : CSR) (mask : Option VectorData) : ∃ vm, amoMask c mask = .ok vm ∧
    (∀ i, vm.maskBit i = true ↔ active mask i = true ∧ (mask = none → i < (ofContext c).vlen)) ∧
    ∀ i, (∀ v, mask = some v → i / unionDataSize < v.data.length) →
      (mask = none → i < (ofContext c).vlen) → i / unionDataSize < vm.data.length := by
  cases mask with
  | some v => exact ⟨v.setType .vmask, rfl, fun i => by simp [active, maskBit, setType],
      fun i h _ => h v rfl⟩
  | none =>
    obtain ⟨v, hv, hlen, hbits⟩ := setMask_ofContext c
    refine ⟨v.setType .vmask, ?_, fun i => ?_, fun i _ h => ?_⟩
    · rw [amoMask, hv]
      rfl
    · refine (Bool.eq_iff_iff.mp (hbits i)).trans ?_
      simp [active]
    · rw [setType, hlen]
      exact words_of_vlen (h rfl)

/-- The instruction stops, or it changes the elements that are looked up. -/
theorem exec_cases (hop : getArithOp op = some a.arith) (hidx : Indexed ot mask offsets idx)
    (hvamo : Vamo ops op c base offsets mask vs inst m) (hvs : vs.type = t.type)
    {x : Nat → BitVec t.bits} {cells : Cells t}
    (hx : ∀ i ∈ activeLanes mask offsets, vs.get t.type i = .ok (t.elem (x i)))
    (hmem : ∀ i ∈ activeLanes mask offsets, m.memories.Ready (laneAddr ot base idx i) ∧
      m.memories.Holds cells (laneAddr ot base idx i))
    {vm : VectorData} (hvm : amoMask c mask = .ok vm)
    (hon : ∀ i, vm.maskBit i = true → active mask i = true) :
    (∃ mem, exec ops inst m = .ok (false, { m with memories := mem, csr := resume m.csr }) ∧
      (∀ i < offsets.vlen, Passes ot t base vm (fun i => BitVec.ofInt 64 (ot.value (idx i))) i) ∧
      Touches base (activeLanes mask offsets) (fun i => BitVec.ofInt 64 (ot.value (idx i)))
        m.memories (scatter (a.apply t) (fun i => lookedUp ot (laneAddr ot base idx i)) x
          ((List.range offsets.vlen).filter vm.maskBit) cells) mem) ∨
    (∃ f, exec ops inst m = .error f) ∧
      ∃ i < offsets.vlen,
        ¬ Passes ot t base vm (fun i => BitVec.ofInt 64 (ot.value (idx i))) i := by
  have hsupplied : Supplied ot t offsets vs (activeLanes mask offsets)
      (fun i => BitVec.ofInt 64 (ot.value (idx i))) x :=
    ⟨hidx.type, hvs, fun i hi => laneOffset_eq hidx.supported hidx.type
      (hidx.get i (mem_activeLanes.mp hi).1), hx⟩
  have htouches : Touches base (activeLanes mask offsets)
      (fun i => BitVec.ofInt 64 (ot.value (idx i))) m.memories cells m.memories :=
    ⟨fun i hi => (hmem i hi).1, fun i hi => (hmem i hi).2, fun _ _ => rfl⟩
  rw [exec_vamo hvamo hop, hvm, ok_bind]
  rcases loop_cases ops inst a hsupplied htouches fun i hi hb =>
    mem_activeLanes.mpr ⟨List.mem_range.mp hi, hon i hb⟩ with
    ⟨mem, hrun, hpass, hend⟩ | ⟨⟨f, hrun⟩, i, hi, hstop⟩
  · refine .inl ⟨mem, ?_, fun i hi => hpass i (List.mem_range.mpr hi), hend⟩
    rw [hrun]
    rfl
  · refine .inr ⟨⟨f, ?_⟩, i, List.mem_range.mp hi, hstop⟩
    rw [hrun]
    rfl

theorem foldsLanes_of_served (hop : getArithOp op = some a.arith)
    (hidx : Indexed ot mask offsets idx)
    (h : ∀ i ∈ activeLanes mask offsets, Served t ot c mask (laneAddr ot base idx i) i) :
    FoldsLanes op a t ot c base offsets mask idx := by
  intro ρ ops inst m vs x cells hvamo hvs hx hmem
  obtain ⟨vm, hvm, hbits, hread⟩ := amoMask_spec c mask
  have hfilter : (List.range offsets.vlen).filter vm.maskBit = activeLanes mask offsets := by
    refine List.filter_congr fun i hi => Bool.eq_iff_iff.mpr ((hbits i).trans ?_)
    refine and_iff_left_of_imp fun hactive => ?_
    exact (h i (mem_activeLanes.mpr ⟨List.mem_range.mp hi, hactive⟩)).lane
  rcases exec_cases hop hidx hvamo hvs hx hmem hvm fun i hi => ((hbits i).mp hi).1 with
    ⟨mem, hexec, -, hend⟩ | ⟨-, i, hi, hstop⟩
  · have hkeys : ∀ i ∈ activeLanes mask offsets,
        lookedUp ot (laneAddr ot base idx i) = t.cellAt (laneAddr ot base idx i) := by
      intro i hi
      rw [lookedUp, (h i hi).element]
      rfl
    rw [hfilter, scatter_congr hkeys] at hend
    exact ⟨mem, hexec, hend.holds, hend.others⟩
  · refine absurd ⟨hread i (fun v hv => hidx.mask v hv i hi) ?_, fun hb => ?_⟩ hstop
    · rintro rfl
      exact (h i (mem_activeLanes.mpr ⟨hi, rfl⟩)).lane rfl
    · have hserved := h i (mem_activeLanes.mpr ⟨hi, ((hbits i).mp hb).1⟩)
      refine ⟨hserved.type, ?_⟩
      change elementAt (laneAddr ot base idx i) ot.size < t.count
      rw [hserved.element]
      exact t.elementAt_lt _

/-! ## Probing the lanes -/

omit [FloatOps] in
/-- A value an operation keeps if it is combined with itself, and one it changes it to. -/
def probe (a : AmoOp) (t : LaneType) : BitVec t.bits × BitVec t.bits :=
  match a with
  | .add | .or | .max => (0, 1)
  | .and | .min => (-1, -2)

omit [FloatOps] in
theorem probe_spec (a : AmoOp) (t : LaneType) :
    a.apply t (probe a t).1 (probe a t).1 = (probe a t).1 ∧
      a.apply t (probe a t).1 (probe a t).2 = (probe a t).2 ∧
      a.apply t (probe a t).2 (probe a t).1 = (probe a t).2 ∧ (probe a t).2 ≠ (probe a t).1 := by
  cases a <;> cases t <;> decide

/-- A vector with given elements. -/
theorem exists_elements {v : VectorData} (hv : v.type = t.type) {n : Nat}
    (hroom : ∀ i < n, v.Room t.type i) (x : Nat → BitVec t.bits) :
    ∃ v', SameShape v v' ∧ v'.type = t.type ∧ ∀ i < n, v'.get t.type i = .ok (t.elem (x i)) := by
  obtain ⟨v', -, hall⟩ := setAll_spec (t := t.type) (v := v)
    (l := (List.range n).map fun i => (i, t.elem (x i))) (by simpa using hroom) (by simp)
    (by simp [Function.comp_def, List.nodup_range])
  refine ⟨v', hall.shape, ?_, fun i hi => ?_⟩
  · rw [hall.type, hv, ite_self]
  · have hin := hall.inside (i, t.elem (x i)) (List.mem_map.mpr ⟨i, List.mem_range.mpr hi, rfl⟩)
    rwa [t.stored_elem] at hin

omit [FloatOps] in
/-- A file that answers with the given values, by operand field. -/
def valuesFile (base : BitVec 64) (offsets vs : VectorData) (mask : Option VectorData) :
    FileOps Unit where
  readX _ _ _ := .ok base
  readF _ _ := .ok 0
  readV _ _ r := .ok (if r = 1 then offsets else if r = 2 then vs else mask.getD .default)
  writeX _ _ _ := .ok ()
  writeF _ _ _ := .ok ()
  writeV _ _ _ _ := .ok ()
  exist _ _ := false

omit [FloatOps] in
def vamo (op : Opcode) (mask : Option VectorData) : NdpInstruction :=
  ⟨op, .v, ![0, 1, 2, if mask.isSome then 3 else -1, -1], 0, fun _ => 0, 0, false⟩

omit [FloatOps] in
theorem vamo_valuesFile (op : Opcode) (c : CSR) (base : BitVec 64) (offsets vs : VectorData)
    (mask : Option VectorData) (mem : Memories) :
    Vamo (valuesFile base offsets vs mask) op c base offsets mask vs (vamo op mask)
      ⟨(), mem, c⟩ := by
  refine ⟨rfl, rfl, rfl, rfl, rfl, ?_⟩
  cases mask with
  | none => rfl
  | some v => exact ⟨(by decide : (3 : Int) ≠ -1), rfl⟩

omit [FloatOps] in
/-- Every packet of the memories. -/
def filled (v : VectorData) : Memories :=
  ⟨⟨0, 2 ^ 64 - 1, none, fun _ => some v⟩, ⟨0, 2 ^ 64 - 1, none, fun _ => some v⟩⟩

omit [FloatOps] in
theorem packet_filled (v : VectorData) (addr : BitVec 64) : (filled v).packet addr = some v := by
  rw [Memories.packet, Memories.get]
  split <;> rfl

omit [FloatOps] in
theorem ready_filled (v : VectorData) (addr : BitVec 64) : (filled v).Ready addr := by
  have hmod := toNat_formatAddr addr
  have hlt := addr.isLt
  refine ⟨?_, ?_⟩
  · rw [Memories.inRange, Memories.get]
    split <;> exact ⟨Nat.zero_le _, by simp only [filled]; omega⟩
  · rw [Memories.isSynthetic, Memories.get]
    split <;> rfl

omit [FloatOps] in
theorem room_of_le {n i k : Nat} (hi : i < n) (hk : 2 * n ≤ k) :
    (⟨t.type, n, false, List.replicate k 0⟩ : VectorData).Room t.type i := by
  have hdiv := Nat.div_le_self i (perWord t.type)
  rw [Room, List.length_replicate]
  dsimp only
  split
  · exact ⟨hi, by omega⟩
  · exact ⟨by omega, by omega⟩

theorem exists_page (x : BitVec t.bits) : ∃ v, Page t (fun _ => x) v := by
  have hfills : Fills t.type t.sew ⟨t.type, t.count, false, List.replicate 8 0⟩ :=
    ⟨t.type_mem, rfl, by cases t <;> rfl, rfl, rfl⟩
  obtain ⟨v, hshape, htype, hget⟩ := exists_elements (t := t) (n := t.count) hfills.type
    (fun i hi => (hfills.room_iff i).mpr hi) fun _ => x
  exact ⟨v, ⟨t.type_mem, htype, hshape.vlen ▸ hfills.vlen, hshape.doubleReg ▸ hfills.single,
    hshape.words ▸ hfills.words⟩, hget⟩

theorem served_of_foldsLanes (hop : getArithOp op = some a.arith)
    (hidx : Indexed ot mask offsets idx) (h : FoldsLanes op a t ot c base offsets mask idx)
    {i : Nat} (hi : i ∈ activeLanes mask offsets) :
    Served t ot c mask (laneAddr ot base idx i) i := by
  by_contra hserved
  obtain ⟨hself, hhit, hkept, hne⟩ := probe_spec a t
  generalize (probe a t).1 = u, (probe a t).2 = w at hself hhit hkept hne
  obtain ⟨vs, -, hvs, hx⟩ := exists_elements (t := t) rfl
    (fun j (hj : j < offsets.vlen) => room_of_le hj le_rfl) fun j => if j = i then w else u
  obtain ⟨page, hpage⟩ := exists_page (t := t) u
  have hvamo := vamo_valuesFile op c base offsets vs mask (filled page)
  have hoperand : ∀ j ∈ activeLanes mask offsets,
      vs.get t.type j = .ok (t.elem (if j = i then w else u)) := fun j hj =>
    hx j (mem_activeLanes.mp hj).1
  have hmem : ∀ j ∈ activeLanes mask offsets, (filled page).Ready (laneAddr ot base idx j) ∧
      (filled page).Holds (fun _ => u : Cells t) (laneAddr ot base idx j) := by
    refine fun j _ => ⟨ready_filled _ _, ?_⟩
    rw [Memories.Holds, packet_filled]
    exact hpage
  obtain ⟨mem, hexec, hholds, -⟩ := h _ _ _ _ _ _ _ hvamo hvs hoperand hmem
  obtain ⟨vm, hvm, hbits, -⟩ := amoMask_spec c mask
  rcases exec_cases hop hidx hvamo hvs hoperand hmem hvm fun j hj => ((hbits j).mp hj).1 with
    ⟨mem', hexec', hpass, hend⟩ | ⟨⟨f, hfault⟩, -⟩
  · obtain rfl : mem = mem' :=
      congrArg (fun r => r.2.memories) (Except.ok.inj (hexec.symm.trans hexec'))
    have heq := (hholds i hi).unique (hend.holds i hi) (t.elementAt_lt (laneAddr ot base idx i))
    rw [scatter_apply, scatter_apply] at heq
    have hmiss : ∀ j ∈ (((List.range offsets.vlen).filter vm.maskBit).filter fun j =>
        lookedUp ot (laneAddr ot base idx j) = t.cellAt (laneAddr ot base idx i)), j ≠ i := by
      rintro j hj rfl
      obtain ⟨hj, hkey⟩ := List.mem_filter.mp hj
      obtain ⟨hj, hb⟩ := List.mem_filter.mp hj
      exact hserved ⟨((hpass j (List.mem_range.mp hj)).2 hb).1, ((hbits j).mp hb).2,
        (Prod.mk.inj (of_decide_eq_true hkey)).2⟩
    refine hne (Eq.trans (Eq.symm (foldl_of_mem (i := i) ?_ ?_ ?_ ?_ ?_))
      (heq.trans (foldl_of_neutral ?_)))
    · exact (List.nodup_range.filter _).filter _
    · exact List.mem_filter.mpr ⟨hi, decide_eq_true rfl⟩
    · rw [if_pos rfl, hhit]
    · exact fun j hj => by rw [if_neg hj, hself]
    · exact fun j hj => by rw [if_neg hj, hkept]
    · exact fun j hj => by rw [if_neg (hmiss j hj), hself]
  · cases hexec.symm.trans hfault

/-- A vector atomic is a fold over the active lanes exactly if the data is not `char`, a missing
mask register stands for all lanes, and the elements at the addresses are the same in the widths
of the offsets and of the data. -/
theorem vamo_iff (hop : getArithOp op = some a.arith) (hidx : Indexed ot mask offsets idx) :
    FoldsLanes op a t ot c base offsets mask idx ↔
      ∀ i ∈ activeLanes mask offsets, Served t ot c mask (laneAddr ot base idx i) i :=
  ⟨fun h _ hi => served_of_foldsLanes hop hidx h hi, foldsLanes_of_served hop hidx⟩

/-- Eight offsets to one address. -/
def fours : VectorData := ⟨.int32, 8, false, List.replicate 8 4⟩

theorem indexed_fours : Indexed .int32 none fours fun _ => 4#32 := by
  refine ⟨rfl, nofun, fun i hi => ?_, nofun⟩
  have hword : fours.data[i]? = some 4#32 := List.getElem?_replicate_of_lt hi
  simp only [LaneType.type, VectorData.get, getIntData, word, hword]
  rfl

omit [FloatOps] in
theorem vamo_sampleWords : letI := FloatOps.zero
    FoldsLanes .vamoaddei32 .add .int32 .int32 {} 0 fours none fun _ => 4#32 := by
  let _ := FloatOps.zero
  have hop : getArithOp .vamoaddei32 = some AmoOp.add.arith := rfl
  exact (vamo_iff hop indexed_fours).mpr fun i hi =>
    ⟨nofun, fun _ => (mem_activeLanes.mp hi).1, rfl⟩

omit [FloatOps] in
/-- Half words are looked up as words: address 4 holds element 2, and element 1 is changed. -/
theorem not_vamo_sampleHalfWords : letI := FloatOps.zero
    ¬ FoldsLanes .vamoaddei32 .add .int16 .int32 { vtypeVsew := .e16 } 0 fours none
      fun _ => 4#32 := by
  let _ := FloatOps.zero
  intro h
  have hop : getArithOp .vamoaddei32 = some AmoOp.add.arith := rfl
  have hlane : 0 ∈ activeLanes none fours := mem_activeLanes.mpr ⟨by decide, rfl⟩
  exact absurd (served_of_foldsLanes hop indexed_fours h hlane).element (by decide)

end Machine

end NdpSim
