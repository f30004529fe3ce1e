import Resister.Garnet.NetworkBridge

/-!
# Serialising and deserialising packets

What `flitisizeAndSend` makes of the flits of a packet on one virtual channel.
-/

namespace Resister.Garnet

open Library List Nat Option

variable {a b : Nat}

theorem floatDivCeil_eq (divisor : 0 < b) (small : a + b ≤ 2 ^ 24) :
    floatDivCeil a b = (a + b - 1) / b := by
  unfold floatDivCeil NetworkInterface.numFlits
  rw [Binary32.round_natCast (by omega), Binary32.round_natCast (by omega),
    Binary32.toInt_divCeil divisor small]
  exact Int.toNat_natCast _

theorem floatFloor_eq (divisor : 0 < b) (dividend : a < 2 ^ 24) (small : b ≤ 2 ^ 24) :
    floatFloor a b = (a / b : Nat) := by
  unfold floatFloor
  rw [Int.cast_natCast, Binary32.round_natCast (by omega), Binary32.round_natCast small,
    Binary32.floor_div divisor dividend]

theorem floatCeil_eq (divisor : 0 < b) (dividend : a < 2 ^ 24) (small : b ≤ 2 ^ 24) :
    floatCeil a b = ((a + b - 1) / b : Nat) := by
  unfold floatCeil
  rw [Int.cast_natCast, Binary32.round_natCast (by omega), Binary32.round_natCast small,
    Binary32.ceil_div divisor dividend]

/-- The conversion between the widths computes with exact numbers. -/
structure ExactWidths (narrow wide msgSize : Nat) : Prop where
  positive : 0 < narrow
  less : narrow < wide
  size : 0 < msgSize
  message : msgSize + wide ≤ 2 ^ 24
  widths : narrow + wide ≤ 2 ^ 24

def flitCount (msgSize width : Nat) : Nat := (msgSize + width - 1) / width

namespace ExactWidths

variable {narrow wide msgSize : Nat}

theorem numFlits_narrow (fit : ExactWidths narrow wide msgSize) :
    floatDivCeil msgSize narrow = flitCount msgSize narrow := by
  have := fit.less
  have := fit.message
  exact floatDivCeil_eq fit.positive (by omega)

theorem numFlits_wide (fit : ExactWidths narrow wide msgSize) :
    floatDivCeil msgSize wide = flitCount msgSize wide := by
  have := fit.less
  exact floatDivCeil_eq (by omega) fit.message

end ExactWidths

/-- A flit of a message, in the packet it is cut into at a width. -/
structure BridgeFlit.IsPart (f : BridgeFlit) (msgSize width vc i : Nat) : Prop where
  id : f.id = i
  size : f.size = floatDivCeil msgSize width
  msgSize : f.msgSize = msgSize
  width : f.width = width
  vc : f.vc = vc

def Parts (msgSize width vc : Nat) : Nat → List BridgeFlit → Prop
  | start, [] => start = floatDivCeil msgSize width
  | start, f :: rest => f.IsPart msgSize width vc start ∧ Parts msgSize width vc (start + 1) rest

def IsPacket (msgSize width vc : Nat) (fs : List BridgeFlit) : Prop := Parts msgSize width vc 0 fs

theorem Parts.length {msgSize width vc start : Nat} {fs : List BridgeFlit}
    (parts : Parts msgSize width vc start fs) : start + fs.length = floatDivCeil msgSize width := by
  induction fs generalizing start with
  | nil => exact parts
  | cons f rest ih =>
    have := ih parts.2
    rw [length_cons]
    omega

theorem Parts.isTail {msgSize width vc start : Nat} {f : BridgeFlit} {rest : List BridgeFlit}
    (parts : Parts msgSize width vc start (f :: rest)) : f.isTail = true ↔ rest = [] := by
  have length := parts.length
  obtain ⟨part, others⟩ := parts
  have id := part.id
  have size := part.size
  rw [length_cons] at length
  rw [Flit.isTail_iff (by omega), id, size]
  constructor
  · intro last
    exact length_eq_zero_iff.mp (by omega)
  · rintro rfl
    simp only [length_nil] at length
    omega

theorem mapM_guard {ι ο : Type} (P : ι → Prop) [DecidablePred P] (g : ι → ο) (l : List ι) :
    (l.mapM fun i => if P i then some (g i) else none) = if ∀ i ∈ l, P i then some (l.map g) else none := by
  induction l with
  | nil => rfl
  | cons i rest ih =>
    rw [mapM_cons, ih]
    by_cases here : P i
    · by_cases others : ∀ j ∈ rest, P j
      · rw [if_pos others, if_pos (forall_mem_cons.mpr ⟨here, others⟩), if_pos here]
        rfl
      · rw [if_neg others, if_neg fun all => others (forall_mem_cons.mp all).2, if_pos here]
        rfl
    · rw [if_neg fun all => here (forall_mem_cons.mp all).1, if_neg here]
      rfl

variable {W w : Nat}

theorem emit_eq {v : BridgeVc} {f : BridgeFlit} {count : Nat} (nonempty : 0 < count)
    (width : f.width = W) (less : w < W) :
    BridgeVc.emit w v f count =
      if ∀ j < count, f.id * ((W + w - 1) / w) + j < floatDivCeil f.msgSize w then
        some (v, (List.range count).map fun j => Traffic.flit
          (f.rebuild (f.id * ((W + w - 1) / w) + j) (floatDivCeil f.msgSize w) w), some (count : Int))
      else none := by
  unfold BridgeVc.emit BridgeFlit.serialize
  rw [if_pos (by omega), Int.toNat_natCast]
  simp only [width, less, if_true]
  rw [mapM_guard]
  simp only [mem_range]
  by_cases all : ∀ j < count, f.id * ((W + w - 1) / w) + j < floatDivCeil f.msgSize w
  · rw [if_pos all, if_pos all]
    simp [Function.comp_def]
  · rw [if_neg all, if_neg all]
    rfl

section Serialize

variable {W w msgSize vc i : Nat} {f : BridgeFlit} {v : BridgeVc}

theorem serializeFlit_body (fit : ExactWidths w W msgSize) (part : f.IsPart msgSize W vc i)
    (more : i + 1 < floatDivCeil msgSize W) (sent : v.sizeSent = w * (i * W / w : Nat)) :
    BridgeVc.serializeFlit W w v f =
      BridgeVc.emit w { v with
          sizeSent := w * ((i + 1) * W / w : Nat)
          flitsSent := v.flitsSent + ((i + 1) * W / w - i * W / w : Nat) }
        f ((i + 1) * W / w - i * W / w : Nat) := by
  obtain ⟨positive, less, size, message, widths⟩ := fit
  have notTail : f.isTail = false := by
    rw [← Bool.not_eq_true, Flit.isTail_iff (by rw [part.id, part.size]; omega), part.id, part.size]
    omega
  have below : w * (i * W / w) ≤ i * W := mul_div_le _ _
  have next : (i + 1) * W = i * W + W := succ_mul i W
  have rest : i * W < w * (i * W / w) + w := by
    have := lt_mul_div_succ (i * W) positive
    rw [mul_succ] at this
    exact this
  have available : ((f.id + 1 : Int) * W - v.sizeSent) = ((i + 1) * W - w * (i * W / w) : Nat) := by
    rw [part.id, sent, cast_sub (by omega)]
    push_cast
    ring
  have count : ((i + 1) * W - w * (i * W / w)) / w = (i + 1) * W / w - i * W / w :=
    sub_mul_div _ _ _
  have grows : i * W / w < (i + 1) * W / w := by
    rw [next]
    calc i * W / w < i * W / w + 1 := lt_succ_self _
      _ = (i * W + w) / w := (Nat.add_div_right _ positive).symm
      _ ≤ (i * W + W) / w := Nat.div_le_div_right (by omega)
  unfold BridgeVc.serializeFlit
  rw [if_neg (by simp [notTail])]
  dsimp only
  rw [available, floatFloor_eq positive (by omega) (by omega), count, if_pos (by omega)]
  congr 2
  rw [sent]
  have := Nat.sub_add_cancel grows.le
  push_cast [grows.le]
  ring

theorem serializeFlit_tail (fit : ExactWidths w W msgSize) (part : f.IsPart msgSize W vc i)
    (last : i + 1 = floatDivCeil msgSize W) (sent : v.sizeSent = w * (i * W / w : Nat)) :
    BridgeVc.serializeFlit W w v f =
      BridgeVc.emit w { v with sizeSent := 0, flitsSent := 0 } f (flitCount msgSize w - i * W / w : Nat) := by
  have wide := fit.numFlits_wide
  obtain ⟨positive, less, size, message, widths⟩ := fit
  have tail : f.isTail = true := by
    rw [Flit.isTail_iff (by rw [part.id, part.size]; omega), part.id, part.size]
    omega
  have below : w * (i * W / w) ≤ i * W := mul_div_le _ _
  have before : i * W < msgSize := by
    have all : (i + 1) * W ≤ msgSize + W - 1 := by
      rw [last, wide, flitCount]
      exact div_mul_le_self _ _
    rw [succ_mul] at all
    omega
  have available : ((f.msgSize : Int) - v.sizeSent) = (msgSize - w * (i * W / w) : Nat) := by
    rw [part.msgSize, sent, cast_sub (by omega)]
    push_cast
    ring
  have count : (msgSize - w * (i * W / w) + w - 1) / w = flitCount msgSize w - i * W / w := by
    rw [flitCount, ← sub_mul_div]
    congr 1
    omega
  unfold BridgeVc.serializeFlit
  rw [if_pos tail]
  dsimp only
  rw [available, floatCeil_eq positive (by omega) (by omega), count]

end Serialize

section Deserialize

variable {W w msgSize vc i : Nat} {f : BridgeFlit} {v : BridgeVc}

theorem start_lt (fit : ExactWidths w W msgSize) (inside : i < floatDivCeil msgSize w) : i * w < msgSize := by
  rw [fit.numFlits_narrow, flitCount] at inside
  have positive := fit.positive
  have below : (i + 1) * w ≤ msgSize + w - 1 := (le_div_iff_mul_le positive).mp inside
  rw [succ_mul] at below
  omega

theorem deserialize_eq (fit : ExactWidths w W msgSize) (part : f.IsPart msgSize w vc i)
    (inside : i < floatDivCeil msgSize w) :
    f.deserialize W = some (f.rebuild (i / ((W + w - 1) / w)) (flitCount msgSize W) W) := by
  have starts := start_lt fit inside
  have wide := fit.numFlits_wide
  obtain ⟨positive, less, size, message, widths⟩ := fit
  have covers : W ≤ (W + w - 1) / w * w := by
    have parts := div_add_mod (W + w - 1) w
    have rest := mod_lt (W + w - 1) positive
    rw [mul_comm] at parts
    omega
  have ratio : 0 < (W + w - 1) / w := div_pos (by omega) positive
  have ratio_le : (W + w - 1) / w ≤ W := by
    calc (W + w - 1) / w ≤ (W * w) / w := by
          apply Nat.div_le_div_right
          have : (W - 1) * 1 ≤ (W - 1) * w := Nat.mul_le_mul_left _ positive
          have : W * w = (W - 1) * w + w := by
            rw [← succ_mul]
            congr 1
            omega
          omega
      _ = W := Nat.mul_div_left W positive
  have number : i ≤ i * w := Nat.le_mul_of_pos_right i positive
  have newId : floatDivCeil (i + 1) ((W + w - 1) / w) - 1 = i / ((W + w - 1) / w) := by
    rw [floatDivCeil_eq ratio (by omega)]
    have shifted : i + 1 + (W + w - 1) / w - 1 = i + (W + w - 1) / w := by omega
    rw [shifted, add_div_right _ ratio]
    exact succ_sub_one _
  have smaller : i / ((W + w - 1) / w) < flitCount msgSize W := by
    have bound : i / ((W + w - 1) / w) * W ≤ i * w := by
      calc i / ((W + w - 1) / w) * W ≤ i / ((W + w - 1) / w) * ((W + w - 1) / w * w) :=
            mul_le_mul_left _ covers
        _ = i / ((W + w - 1) / w) * ((W + w - 1) / w) * w := (mul_assoc ..).symm
        _ ≤ i * w := mul_le_mul_right w (div_mul_le_self _ _)
    rw [flitCount, lt_iff_add_one_le, le_div_iff_mul_le (by omega), succ_mul]
    omega
  unfold BridgeFlit.deserialize
  dsimp only
  rw [part.width, part.id, part.msgSize, wide, floatDivCeil_eq positive (by omega), newId, if_pos smaller]

theorem deserializeFlit_body (fit : ExactWidths w W msgSize) (part : f.IsPart msgSize w vc i)
    (more : i + 1 < floatDivCeil msgSize w) (sent : v.sizeSent = W * (i * w / W : Nat)) :
    BridgeVc.deserializeFlit w W v f =
      if i * w / W < (i + 1) * w / W then
        some ({ v with
            lenBuffer := 0
            sizeSent := W * ((i + 1) * w / W : Nat)
            flitsSent := i + 1 },
          [.flit (f.rebuild (i / ((W + w - 1) / w)) (flitCount msgSize W) W)], some (i + 1 - v.flitsSent))
      else some (v, [], none) := by
  have whole := deserialize_eq fit part (by omega)
  obtain ⟨positive, less, size, message, widths⟩ := fit
  have notTail : f.isTail = false := by
    rw [← Bool.not_eq_true, Flit.isTail_iff (by rw [part.id, part.size]; omega), part.id, part.size]
    omega
  have below : W * (i * w / W) ≤ i * w := mul_div_le _ _
  have next : (i + 1) * w = i * w + w := succ_mul i w
  have rest : i * w < W * (i * w / W) + W := by
    have := lt_mul_div_succ (i * w) (show 0 < W by omega)
    rw [mul_succ] at this
    exact this
  have available : ((f.id + 1 : Int) * w - v.sizeSent) = ((i + 1) * w - W * (i * w / W) : Nat) := by
    rw [part.id, sent, cast_sub (by omega)]
    push_cast
    ring
  have count : ((i + 1) * w - W * (i * w / W)) / W = (i + 1) * w / W - i * w / W := sub_mul_div _ _ _
  have few : (i + 1) * w / W ≤ i * w / W + 1 := by
    rw [next, ← Nat.add_div_right _ (show 0 < W by omega)]
    exact Nat.div_le_div_right (by omega)
  have monotone : i * w / W ≤ (i + 1) * w / W := Nat.div_le_div_right (by omega)
  unfold BridgeVc.deserializeFlit
  rw [if_neg (by simp [notTail])]
  dsimp only
  rw [available, floatFloor_eq (by omega) (by omega) (by omega), count, if_pos (by omega)]
  by_cases full : i * w / W < (i + 1) * w / W
  · have one : (i + 1) * w / W = i * w / W + 1 := by omega
    rw [if_pos full, if_pos (by omega)]
    unfold BridgeVc.assemble
    rw [if_pos (by omega), whole, sent, part.id, one]
    simp only [map_some, Option.some.injEq, Prod.mk.injEq, BridgeVc.mk.injEq, and_true, true_and]
    push_cast
    ring
  · rw [if_neg full, if_neg (by omega)]
    unfold BridgeVc.assemble
    rw [if_neg (by omega)]

theorem deserializeFlit_tail (fit : ExactWidths w W msgSize) (part : f.IsPart msgSize w vc i)
    (last : i + 1 = floatDivCeil msgSize w) (sent : v.sizeSent = W * (i * w / W : Nat)) :
    BridgeVc.deserializeFlit w W v f =
      if flitCount msgSize W ≤ i * w / W + 1 then
        some ({ v with lenBuffer := 0, sizeSent := 0, flitsSent := 0 },
          [.flit (f.rebuild (i / ((W + w - 1) / w)) (flitCount msgSize W) W)], some (i + 1 - v.flitsSent))
      else none := by
  have whole := deserialize_eq fit part (by omega)
  have starts := start_lt fit (show i < floatDivCeil msgSize w by omega)
  obtain ⟨positive, less, size, message, widths⟩ := fit
  have tail : f.isTail = true := by
    rw [Flit.isTail_iff (by rw [part.id, part.size]; omega), part.id, part.size]
    omega
  have below : W * (i * w / W) ≤ i * w := mul_div_le _ _
  have available : ((f.msgSize : Int) - v.sizeSent) = (msgSize - W * (i * w / W) : Nat) := by
    rw [part.msgSize, sent, cast_sub (by omega)]
    push_cast
    ring
  have count : (msgSize - W * (i * w / W) + W - 1) / W = flitCount msgSize W - i * w / W := by
    rw [flitCount, ← sub_mul_div]
    congr 1
    omega
  have left : i * w / W < flitCount msgSize W := by
    rw [flitCount, lt_iff_add_one_le, le_div_iff_mul_le (by omega), succ_mul, mul_comm]
    omega
  unfold BridgeVc.deserializeFlit
  rw [if_pos tail]
  dsimp only
  rw [available, floatCeil_eq (by omega) (by omega) (by omega), count]
  by_cases one : flitCount msgSize W ≤ i * w / W + 1
  · rw [if_pos one, if_pos (by omega)]
    unfold BridgeVc.assemble
    rw [if_pos (by omega), whole, part.id]
    rfl
  · rw [if_neg one, if_neg (by omega)]

end Deserialize

/-- The bridge as a machine on the flits of one virtual channel. It yields, for every flit, what is
scheduled and the number handed to the other bridge. -/
def BridgeVc.handleFlit (curWidth targetWidth : Nat) (v : BridgeVc) (f : BridgeFlit) :
    Option (BridgeVc × List (List Traffic × Option Int)) :=
  (v.convert curWidth targetWidth (.flit f)).map fun r => (r.1, [r.2])

theorem BridgeVc.handleFlit_serialize (less : w < W) (v : BridgeVc) (f : BridgeFlit) :
    v.handleFlit W w f = (BridgeVc.serializeFlit W w v f).map fun r => (r.1, [r.2]) := by
  unfold handleFlit convert
  rw [if_neg (by omega), if_neg (by omega)]

theorem BridgeVc.handleFlit_deserialize (less : w < W) (v : BridgeVc) (f : BridgeFlit) :
    v.handleFlit w W f = (BridgeVc.deserializeFlit w W v f).map fun r => (r.1, [r.2]) := by
  unfold handleFlit convert
  rw [if_neg (by omega), if_pos less]

section Run

variable {W w msgSize vc i : Nat} {f : BridgeFlit} {v : BridgeVc}

def serialized (W w msgSize i : Nat) : Nat :=
  if i + 1 = flitCount msgSize W then flitCount msgSize w - i * W / w else (i + 1) * W / w - i * W / w

def IdsFit (W w msgSize i : Nat) : Prop :=
  ∀ j < serialized W w msgSize i, i * ((W + w - 1) / w) + j < flitCount msgSize w

instance (W w msgSize i : Nat) : Decidable (IdsFit W w msgSize i) :=
  inferInstanceAs (Decidable (∀ j < serialized W w msgSize i, _))

/-- The state of a channel after the flits before number `i` of a serialised packet. -/
def Serialized (W w i : Nat) (v : BridgeVc) : Prop := v.sizeSent = w * (i * W / w : Nat)

theorem serialize_step (fit : ExactWidths w W msgSize) (part : f.IsPart msgSize W vc i)
    (inside : i < floatDivCeil msgSize W) (sent : Serialized W w i v) :
    ∃ v', v'.lenBuffer = v.lenBuffer ∧ v'.extraCredit = v.extraCredit ∧
      (i + 1 < floatDivCeil msgSize W → Serialized W w (i + 1) v') ∧
      (i + 1 = floatDivCeil msgSize W → v'.sizeSent = 0 ∧ v'.flitsSent = 0) ∧
      BridgeVc.serializeFlit W w v f =
        if IdsFit W w msgSize i then
          some (v', (List.range (serialized W w msgSize i)).map fun j => Traffic.flit
            (f.rebuild (i * ((W + w - 1) / w) + j) (flitCount msgSize w) w),
            some (serialized W w msgSize i : Int))
        else none := by
  have wide := fit.numFlits_wide
  have narrow := fit.numFlits_narrow
  have positive := fit.positive
  have less := fit.less
  by_cases last : i + 1 = floatDivCeil msgSize W
  · have count : serialized W w msgSize i = flitCount msgSize w - i * W / w := by
      rw [serialized, if_pos (by omega)]
    have some_left : 0 < flitCount msgSize w - i * W / w := by
      have before : i * W < msgSize := by
        have all : (i + 1) * W ≤ msgSize + W - 1 := by
          rw [last, wide, flitCount]
          exact div_mul_le_self _ _
        rw [succ_mul] at all
        omega
      have : i * W / w + 1 ≤ flitCount msgSize w := by
        rw [← Nat.add_div_right _ positive, flitCount]
        exact Nat.div_le_div_right (by omega)
      omega
    refine ⟨{ v with sizeSent := 0, flitsSent := 0 }, rfl, rfl, by omega, fun _ => ⟨rfl, rfl⟩, ?_⟩
    rw [serializeFlit_tail fit part last sent, emit_eq some_left part.width less, part.id, part.msgSize,
      narrow, ← count]
    rfl
  · have count : serialized W w msgSize i = (i + 1) * W / w - i * W / w := by
      rw [serialized, if_neg (by omega)]
    have some_full : 0 < (i + 1) * W / w - i * W / w := by
      have : i * W / w + 1 ≤ (i + 1) * W / w := by
        rw [← Nat.add_div_right _ positive, Nat.succ_mul]
        exact Nat.div_le_div_right (by omega)
      omega
    refine ⟨{ v with
      sizeSent := w * ((i + 1) * W / w : Nat)
      flitsSent := v.flitsSent + ((i + 1) * W / w - i * W / w : Nat) }, rfl, rfl, fun _ => rfl, by omega, ?_⟩
    rw [serializeFlit_body fit part (by omega) sent, emit_eq some_full part.width less, part.id,
      part.msgSize, narrow, ← count]
    rfl

def Completes (W w msgSize i : Nat) : Prop :=
  i + 1 = flitCount msgSize w ∨ i * w / W < (i + 1) * w / W

instance (W w msgSize i : Nat) : Decidable (Completes W w msgSize i) := inferInstanceAs (Decidable (_ ∨ _))

def OneLeft (W w msgSize i : Nat) : Prop :=
  i + 1 = flitCount msgSize w → flitCount msgSize W ≤ i * w / W + 1

instance (W w msgSize i : Nat) : Decidable (OneLeft W w msgSize i) := inferInstanceAs (Decidable (_ → _))

/-- The state of a channel after the flits before number `i` of a deserialised packet. -/
def Deserialized (W w i : Nat) (v : BridgeVc) : Prop := v.sizeSent = W * (i * w / W : Nat)

theorem deserialize_step (fit : ExactWidths w W msgSize) (part : f.IsPart msgSize w vc i)
    (inside : i < floatDivCeil msgSize w) (sent : Deserialized W w i v) :
    ∃ v', v'.extraCredit = v.extraCredit ∧
      (i + 1 < floatDivCeil msgSize w → Deserialized W w (i + 1) v' ∧
        v'.flitsSent = if Completes W w msgSize i then (i + 1 : Int) else v.flitsSent) ∧
      (i + 1 = floatDivCeil msgSize w → v'.sizeSent = 0 ∧ v'.flitsSent = 0) ∧
      BridgeVc.deserializeFlit w W v f =
        if OneLeft W w msgSize i then
          some (if Completes W w msgSize i then
            (v', [Traffic.flit (f.rebuild (i / ((W + w - 1) / w)) (flitCount msgSize W) W)],
              some (i + 1 - v.flitsSent : Int))
          else (v', [], none))
        else none := by
  have narrow := fit.numFlits_narrow
  by_cases last : i + 1 = floatDivCeil msgSize w
  · have completes : Completes W w msgSize i := Or.inl (by omega)
    refine ⟨{ v with lenBuffer := 0, sizeSent := 0, flitsSent := 0 }, rfl, by omega, fun _ => ⟨rfl, rfl⟩, ?_⟩
    rw [deserializeFlit_tail fit part last sent, if_pos completes]
    by_cases one : flitCount msgSize W ≤ i * w / W + 1
    · have fits : OneLeft W w msgSize i := fun _ => one
      rw [if_pos one, if_pos fits]
    · have stuck : ¬ OneLeft W w msgSize i := fun fits => one (fits (by omega))
      rw [if_neg one, if_neg stuck]
  · have fits : OneLeft W w msgSize i := fun is_last => absurd is_last (by omega)
    simp only [deserializeFlit_body fit part (show i + 1 < _ by omega) sent, if_pos fits]
    by_cases full : i * w / W < (i + 1) * w / W
    · have completes : Completes W w msgSize i := Or.inr full
      refine ⟨{ v with
        lenBuffer := 0
        sizeSent := W * ((i + 1) * w / W : Nat)
        flitsSent := i + 1 }, rfl, fun _ => ⟨rfl, ?_⟩, by omega, ?_⟩
      · rw [if_pos completes]
      · rw [if_pos full, if_pos completes]
    · have unfinished : ¬ Completes W w msgSize i := by
        unfold Completes
        omega
      refine ⟨v, rfl, fun _ => ⟨?_, ?_⟩, by omega, ?_⟩
      · have monotone : i * w / W ≤ (i + 1) * w / W :=
          Nat.div_le_div_right (Nat.mul_le_mul_right w (Nat.le_succ i))
        have same : (i + 1) * w / W = i * w / W := by omega
        rw [Deserialized, same]
        exact sent
      · rw [if_neg unfinished]
      · rw [if_neg full, if_neg unfinished]

variable {fs : List BridgeFlit}

theorem Parts.run_isSome {cur target : Nat} {At : Nat → BridgeVc → Prop} {Fits : Nat → Prop}
    (step : ∀ {i v f}, BridgeFlit.IsPart f msgSize cur vc i → i < floatDivCeil msgSize cur → At i v →
      (¬ Fits i ∧ v.handleFlit cur target f = none) ∨
      (Fits i ∧ ∃ v' out, v.handleFlit cur target f = some (v', out) ∧
        (i + 1 < floatDivCeil msgSize cur → At (i + 1) v'))) (parts : Parts msgSize cur vc i fs) (start : At i v) :
    (runMachine (BridgeVc.handleFlit cur target) v fs).isSome ↔
      ∀ k, i ≤ k → k < floatDivCeil msgSize cur → Fits k := by
  induction fs generalizing i v with
  | nil =>
    have done : i = floatDivCeil msgSize cur := parts
    simp only [runMachine, isSome_some, true_iff]
    intro k above below
    omega
  | cons f rest ih =>
    have length := parts.length
    rw [length_cons] at length
    obtain ⟨stuck, handled⟩ | ⟨fits, v', out, handled, next⟩ := step parts.1 (by omega) start
    · rw [runMachine_cons_none handled, isSome_none]
      simp only [Bool.false_eq_true, false_iff]
      intro all
      exact stuck (all i (le_refl i) (by omega))
    · have split : (∀ k, i ≤ k → k < floatDivCeil msgSize cur → Fits k) ↔
          ∀ k, i + 1 ≤ k → k < floatDivCeil msgSize cur → Fits k := by
        refine ⟨fun all k above => all k (by omega), fun all k above below => ?_⟩
        obtain rfl | later := eq_or_lt_of_le above
        · exact fits
        · exact all k later below
      rw [runMachine_cons_isSome handled, split]
      by_cases last : rest = []
      · subst last
        simp only [length_nil] at length
        simp only [runMachine, isSome_some, true_iff]
        intro k above below
        omega
      · have nonempty : 0 < rest.length := length_pos_iff.mpr last
        exact ih parts.2 (next (by omega))

theorem serialize_run_isSome (fit : ExactWidths w W msgSize)
    (parts : Parts msgSize W vc i fs) (sent : Serialized W w i v) :
    (runMachine (BridgeVc.handleFlit W w) v fs).isSome ↔
      ∀ k, i ≤ k → k < flitCount msgSize W → IdsFit W w msgSize k := by
  rw [← fit.numFlits_wide]
  refine parts.run_isSome (fun {i v f} part inside sent => ?_) sent
  obtain ⟨v', -, -, next, -, stepped⟩ := serialize_step fit part inside sent
  have handled := BridgeVc.handleFlit_serialize fit.less v f
  rw [stepped] at handled
  by_cases ids : IdsFit W w msgSize i
  · rw [if_pos ids] at handled
    exact Or.inr ⟨ids, v', _, handled, next⟩
  · rw [if_neg ids] at handled
    exact Or.inl ⟨ids, handled⟩

theorem deserialize_run_isSome (fit : ExactWidths w W msgSize)
    (parts : Parts msgSize w vc i fs) (sent : Deserialized W w i v) :
    (runMachine (BridgeVc.handleFlit w W) v fs).isSome ↔
      ∀ k, i ≤ k → k < flitCount msgSize w → OneLeft W w msgSize k := by
  rw [← fit.numFlits_narrow]
  refine parts.run_isSome (fun {i v f} part inside sent => ?_) sent
  obtain ⟨v', -, next, -, stepped⟩ := deserialize_step fit part inside sent
  have handled := BridgeVc.handleFlit_deserialize fit.less v f
  rw [stepped] at handled
  by_cases fits : OneLeft W w msgSize i
  · rw [if_pos fits] at handled
    refine Or.inr ⟨fits, v', ?_⟩
    by_cases completes : Completes W w msgSize i
    · rw [if_pos completes] at handled
      exact ⟨_, handled, fun more => (next more).1⟩
    · rw [if_neg completes] at handled
      exact ⟨_, handled, fun more => (next more).1⟩
  · rw [if_neg fits] at handled
    exact Or.inl ⟨fits, handled⟩

theorem idsFit_iff (fit : ExactWidths w W msgSize) :
    (∀ i < flitCount msgSize W, IdsFit W w msgSize i) ↔ w ∣ W ∨ msgSize ≤ W := by
  obtain ⟨positive, less, size, message, widths⟩ := fit
  have wide_pos : 0 < W := by omega
  have covers : W ≤ (W + w - 1) / w * w := by
    have parts := div_add_mod (W + w - 1) w
    have rest := mod_lt (W + w - 1) positive
    rw [mul_comm] at parts
    omega
  constructor
  · intro all
    refine Or.symm (or_iff_not_imp_left.mpr fun several => ?_)
    have two : 1 < flitCount msgSize W := by
      rw [flitCount, lt_iff_add_one_le, le_div_iff_mul_le wide_pos]
      omega
    obtain ⟨last, count⟩ : ∃ last, flitCount msgSize W = last + 1 := ⟨flitCount msgSize W - 1, by omega⟩
    have before : last * W < msgSize := by
      have all : (last + 1) * W ≤ msgSize + W - 1 := by
        rw [← count, flitCount]
        exact div_mul_le_self _ _
      rw [succ_mul] at all
      omega
    have left : last * W / w + 1 ≤ flitCount msgSize w := by
      rw [← Nat.add_div_right _ positive, flitCount]
      exact Nat.div_le_div_right (by omega)
    have number : serialized W w msgSize last = flitCount msgSize w - last * W / w := by
      rw [serialized, if_pos count.symm]
    have fits := all last (by omega) (serialized W w msgSize last - 1) (by omega)
    rw [number] at fits
    have ratio : last * ((W + w - 1) / w) ≤ last * W / w := by omega
    have bound : last * ((W + w - 1) / w * w) ≤ last * W := by
      rw [← mul_assoc]
      exact (le_div_iff_mul_le positive).mp ratio
    have exactly : (W + w - 1) / w * w ≤ W := le_of_mul_le_mul_left bound (by omega)
    exact Dvd.intro_left _ (le_antisymm exactly covers)
  · rintro (⟨r, rfl⟩ | single) i inside
    · have ratio : (w * r + w - 1) / w = r := by
        rw [Nat.add_sub_assoc positive, Nat.mul_add_div positive, Nat.div_eq_of_lt (by omega)]
        exact Nat.add_zero r
      have sent : ∀ k, k * (w * r) / w = k * r := by
        intro k
        rw [Nat.mul_left_comm, Nat.mul_div_cancel_left _ positive]
      intro j small
      rw [ratio]
      rw [serialized, sent, sent] at small
      split at small
      · omega
      · have more : i + 2 ≤ flitCount msgSize (w * r) := by omega
        rw [flitCount, le_div_iff_mul_le wide_pos] at more
        have filled : (i + 1) * (w * r) < msgSize := by
          rw [succ_mul (i + 1)] at more
          omega
        have narrow : (i + 1) * r < flitCount msgSize w := by
          rw [flitCount, lt_iff_add_one_le, le_div_iff_mul_le positive, succ_mul]
          have : (i + 1) * r * w = (i + 1) * (w * r) := by rw [mul_assoc, mul_comm r w]
          omega
        omega
    · have one : flitCount msgSize W = 1 := by
        rw [flitCount, show msgSize + W - 1 = (msgSize - 1) + W from by omega, add_div_right _ wide_pos,
          div_eq_of_lt (by omega)]
      have first : i = 0 := by omega
      subst first
      intro j small
      rw [serialized, if_pos (by omega), Nat.zero_mul, Nat.zero_div] at small
      omega

theorem flitCount_pred {width : Nat} (size : 0 < msgSize) (positive : 0 < width) :
    flitCount msgSize width = (msgSize - 1) / width + 1 := by
  rw [flitCount, ← add_div_right _ positive]
  congr 1
  omega

theorem flitCount_pos {width : Nat} (size : 0 < msgSize) (positive : 0 < width) : 0 < flitCount msgSize width := by
  rw [flitCount_pred size positive]
  exact succ_pos _

def Convertible (curWidth targetWidth msgSize : Nat) : Prop :=
  if targetWidth < curWidth then targetWidth ∣ curWidth ∨ msgSize ≤ curWidth
  else (msgSize - 1) / targetWidth = (msgSize - 1) / curWidth * curWidth / targetWidth

theorem oneLeft_iff (fit : ExactWidths w W msgSize) :
    (∀ i < flitCount msgSize w, OneLeft W w msgSize i) ↔
      (msgSize - 1) / W = (msgSize - 1) / w * w / W := by
  have narrow := flitCount_pred fit.size fit.positive
  have wide := flitCount_pred fit.size (zero_lt_of_lt fit.less)
  have below : (msgSize - 1) / w * w / W ≤ (msgSize - 1) / W :=
    Nat.div_le_div_right (Nat.div_mul_le_self _ _)
  constructor
  · intro all
    have last := all ((msgSize - 1) / w) (by omega) narrow.symm
    omega
  · intro same i inside is_last
    have index : i = (msgSize - 1) / w := by omega
    subst index
    omega

end Run

namespace BridgeVc

variable {cur target : Nat} {v v' : BridgeVc} {f : BridgeFlit} {out : List (List Traffic × Option Int)}

structure Clear (v : BridgeVc) : Prop where
  lenBuffer : v.lenBuffer = 0
  sizeSent : v.sizeSent = 0
  flitsSent : v.flitsSent = 0

variable {result : List Traffic × Option Int}

theorem assemble_some {state after : BridgeVc} {possible numFlits : Int}
    (done : assemble target state f possible numFlits = some (after, result)) :
    (after = state ∧ result = ([], none)) ∨
      ∃ fl : BridgeFlit, after = { state with lenBuffer := 0 } ∧
        result = ([Traffic.flit fl], some numFlits) ∧ fl.vc = f.vc := by
  unfold assemble BridgeFlit.deserialize at done
  split at done
  · obtain ⟨fl, made, same⟩ := map_eq_some_iff.mp done
    obtain ⟨rfl, rfl⟩ := Prod.mk.inj same
    obtain ⟨-, built⟩ := ite_none_right_eq_some.mp made
    obtain rfl := Option.some.inj built
    exact Or.inr ⟨_, rfl, rfl, rfl⟩
  · obtain ⟨rfl, rfl⟩ := Prod.mk.inj (Option.some.inj done)
    exact Or.inl ⟨rfl, rfl⟩

theorem emit_some {state after : BridgeVc} {possible : Int}
    (done : emit target state f possible = some (after, result)) :
    after = state ∧ 0 < possible ∧ ∃ fls : List BridgeFlit, result = (fls.map Traffic.flit, some possible) ∧
      fls.length = possible.toNat ∧ ∀ fl ∈ fls, fl.vc = f.vc := by
  unfold emit BridgeFlit.serialize at done
  split at done
  · rename_i positive
    obtain ⟨fls, made, same⟩ := map_eq_some_iff.mp done
    obtain ⟨rfl, rfl⟩ := Prod.mk.inj same
    refine ⟨rfl, positive, fls, rfl, ?_⟩
    by_cases less : target < f.width
    · simp only [if_pos less] at made
      rw [mapM_guard] at made
      obtain ⟨-, same⟩ := ite_none_right_eq_some.mp made
      obtain rfl := Option.some.inj same
      refine ⟨by simp, fun fl member => ?_⟩
      obtain ⟨j, -, rfl⟩ := mem_map.mp member
      rfl
    · have nonempty : List.range possible.toNat = 0 :: (List.range (possible.toNat - 1)).map Nat.succ := by
        rw [← range_succ_eq_map]
        congr 1
        omega
      simp [if_neg less, nonempty] at made
  · cases done

theorem deserializeFlit_some (done : deserializeFlit cur target v f = some (v', result)) :
    v'.extraCredit = v.extraCredit ∧ (v.lenBuffer = 0 → v'.lenBuffer = 0) ∧
    (f.isTail = true → v'.sizeSent = 0 ∧ v'.flitsSent = 0) ∧
    (result = ([], none) ∨
      ∃ fl : BridgeFlit, result = ([Traffic.flit fl], some (f.id + 1 - v.flitsSent : Int)) ∧ fl.vc = f.vc) := by
  unfold deserializeFlit at done
  dsimp only at done
  split at done
  · split at done
    · obtain ⟨rfl, rfl⟩ | ⟨fl, rfl, rfl, channel⟩ := assemble_some done
      · exact ⟨rfl, id, fun _ => ⟨rfl, rfl⟩, Or.inl rfl⟩
      · exact ⟨rfl, fun _ => rfl, fun _ => ⟨rfl, rfl⟩, Or.inr ⟨fl, rfl, channel⟩⟩
    · cases done
  · rename_i notTail
    split at done
    · split at done
      · obtain ⟨rfl, rfl⟩ | ⟨fl, rfl, rfl, channel⟩ := assemble_some done
        · exact ⟨rfl, id, fun tail => absurd tail notTail, Or.inl rfl⟩
        · exact ⟨rfl, fun _ => rfl, fun tail => absurd tail notTail, Or.inr ⟨fl, rfl, channel⟩⟩
      · obtain ⟨rfl, rfl⟩ | ⟨fl, rfl, rfl, channel⟩ := assemble_some done
        · exact ⟨rfl, id, fun tail => absurd tail notTail, Or.inl rfl⟩
        · exact ⟨rfl, fun _ => rfl, fun tail => absurd tail notTail, Or.inr ⟨fl, rfl, channel⟩⟩
    · cases done

theorem serializeFlit_some (done : serializeFlit cur target v f = some (v', result)) :
    v'.extraCredit = v.extraCredit ∧ (v.lenBuffer = 0 → v'.lenBuffer = 0) ∧
    (f.isTail = true → v'.sizeSent = 0 ∧ v'.flitsSent = 0) ∧
    ∃ fls : List BridgeFlit, result = (fls.map Traffic.flit, some (fls.length : Int)) ∧ 0 < fls.length ∧
      ∀ fl ∈ fls, fl.vc = f.vc := by
  have emitted : ∀ {state : BridgeVc} {possible : Int}, emit target state f possible = some (v', result) →
      v' = state ∧ ∃ fls : List BridgeFlit, result = (fls.map Traffic.flit, some (fls.length : Int)) ∧
        0 < fls.length ∧ ∀ fl ∈ fls, fl.vc = f.vc := by
    intro state possible done
    obtain ⟨same, positive, fls, rfl, length, channels⟩ := emit_some done
    have number : possible = (fls.length : Int) := by omega
    exact ⟨same, fls, by rw [number], by omega, channels⟩
  unfold serializeFlit at done
  dsimp only at done
  split at done
  · obtain ⟨rfl, fls⟩ := emitted done
    exact ⟨rfl, id, fun _ => ⟨rfl, rfl⟩, fls⟩
  · rename_i notTail
    split at done
    · obtain ⟨rfl, fls⟩ := emitted done
      exact ⟨rfl, id, fun tail => absurd tail notTail, fls⟩
    · obtain ⟨rfl, fls⟩ := emitted done
      exact ⟨rfl, id, fun tail => absurd tail notTail, fls⟩

end BridgeVc

end Resister.Garnet
