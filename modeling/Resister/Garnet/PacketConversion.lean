import Resister.Garnet.BridgePair

/-!
# Streams of packets over a bridge

The flits of each virtual channel come as whole packets, one after the other, and the channels take
turns in any order.
-/

namespace Resister.Garnet

open Library List Nat

structure BridgePacket (width vc : Nat) where
  msgSize : Nat
  flits : List BridgeFlit
  isPacket : IsPacket msgSize width vc flits

/-- The conversion of a message between two widths, either way, computes with exact numbers. -/
abbrev ExactBetween (cur target msgSize : Nat) : Prop := ExactWidths (min cur target) (max cur target) msgSize

section Channel

variable {cur target vc : Nat} {v v' : BridgeVc} {outs : List (List Traffic × Option Int)}

variable {msgSize : Nat}

theorem ExactBetween.serializes (fit : ExactBetween cur target msgSize) (less : target < cur) :
    ExactWidths target cur msgSize := by
  have same := fit
  rw [ExactBetween, min_eq_right less.le, max_eq_left less.le] at same
  exact same

theorem ExactBetween.deserializes (fit : ExactBetween cur target msgSize) (less : cur < target) :
    ExactWidths cur target msgSize := by
  have same := fit
  rw [ExactBetween, min_eq_left less.le, max_eq_right less.le] at same
  exact same

theorem ExactBetween.differ (fit : ExactBetween cur target msgSize) :
    cur < target ∨ target < cur := by
  have less := fit.less
  omega

theorem ExactBetween.dvd (fit : ExactBetween cur target msgSize)
    (divides : cur ∣ target ∨ target ∣ cur) : cur < target ∧ cur ∣ target ∨ target < cur ∧ target ∣ cur := by
  have positive := fit.positive
  obtain less | less := fit.differ
  · refine Or.inl ⟨less, divides.resolve_right fun wrong => ?_⟩
    have := le_of_dvd (by omega) wrong
    omega
  · refine Or.inr ⟨less, divides.resolve_left fun wrong => ?_⟩
    have := le_of_dvd (by omega) wrong
    omega

variable {a : BridgePacket cur vc}

theorem BridgePacket.length_pos (fit : ExactBetween cur target a.msgSize) :
    0 < a.flits.length := by
  have length := a.isPacket.length
  obtain less | less := fit.differ
  · have exact_fit := fit.deserializes less
    have some_flit := flitCount_pos exact_fit.size exact_fit.positive
    rw [exact_fit.numFlits_narrow] at length
    omega
  · have exact_fit := fit.serializes less
    have some_flit := flitCount_pos exact_fit.size (zero_lt_of_lt less)
    rw [exact_fit.numFlits_wide] at length
    omega

theorem packet_isSome (fit : ExactBetween cur target a.msgSize) (none_sent : v.sizeSent = 0) :
    (runMachine (BridgeVc.handleFlit cur target) v a.flits).isSome ↔ Convertible cur target a.msgSize := by
  obtain less | less := fit.differ
  · have start : Deserialized target cur 0 v := by simp [Deserialized, none_sent]
    rw [deserialize_run_isSome (fit.deserializes less) a.isPacket start, Convertible, if_neg (by omega),
      ← oneLeft_iff (fit.deserializes less)]
    exact ⟨fun all i inside => all i (zero_le i) inside, fun all i _ inside => all i inside⟩
  · have start : Serialized cur target 0 v := by simp [Serialized, none_sent]
    rw [serialize_run_isSome (fit.serializes less) a.isPacket start, Convertible, if_pos less,
      ← idsFit_iff (fit.serializes less)]
    exact ⟨fun all i inside => all i (zero_le i) inside, fun all i _ inside => all i inside⟩

theorem BridgeVc.convert_tail {f : BridgeFlit} {result : List Traffic × Option Int} (tail : f.isTail = true)
    (done : v.convert cur target (.flit f) = some (v', result)) : v'.sizeSent = 0 ∧ v'.flitsSent = 0 := by
  unfold convert at done
  split at done
  · cases done
  split at done
  · exact (deserializeFlit_some done).2.2.1 tail
  · exact (serializeFlit_some done).2.2.1 tail

theorem BridgeVc.convert_lenBuffer {f : BridgeFlit} {result : List Traffic × Option Int}
    (done : v.convert cur target (.flit f) = some (v', result)) (zero : v.lenBuffer = 0) : v'.lenBuffer = 0 := by
  unfold convert at done
  split at done
  · cases done
  split at done
  · exact (deserializeFlit_some done).2.1 zero
  · exact (serializeFlit_some done).2.1 zero

theorem parts_run_sent {start : Nat} {fs : List BridgeFlit} (parts : Parts msgSize cur vc start fs)
    (nonempty : fs ≠ []) (ran : runMachine (BridgeVc.handleFlit cur target) v fs = some (v', outs)) :
    v'.sizeSent = 0 ∧ v'.flitsSent = 0 := by
  induction fs generalizing v start outs with
  | nil => exact absurd rfl nonempty
  | cons f rest ih =>
    obtain ⟨mid, out, later, handled, others, -⟩ := runMachine_cons_some ran
    by_cases last : rest = []
    · obtain ⟨⟨v'', result⟩, converted, same⟩ := Option.map_eq_some_iff.mp handled
      obtain ⟨rfl, -⟩ := Prod.mk.inj same
      subst last
      obtain ⟨rfl, -⟩ := Prod.mk.inj (Option.some.inj others)
      exact BridgeVc.convert_tail (parts.isTail.mpr rfl) converted
    · exact ih parts.2 last others

theorem packets_isSome {packets : List (BridgePacket cur vc)}
    (fit : ∀ a ∈ packets, ExactBetween cur target a.msgSize) (none_sent : v.sizeSent = 0) :
    (runMachine (BridgeVc.handleFlit cur target) v (packets.flatMap BridgePacket.flits)).isSome ↔
      ∀ a ∈ packets, Convertible cur target a.msgSize := by
  induction packets generalizing v with
  | nil => simp [runMachine]
  | cons a rest ih =>
    obtain ⟨here, others⟩ := forall_mem_cons.mp fit
    have nonempty := length_pos_iff.mp (BridgePacket.length_pos here)
    rw [flatMap_cons, forall_mem_cons, ← packet_isSome here none_sent]
    constructor
    · intro whole
      obtain ⟨⟨final, out⟩, ran⟩ := Option.isSome_iff_exists.mp whole
      obtain ⟨mid, first, later, one, two, -⟩ := runMachine_append_some ran
      refine ⟨by rw [one]; rfl, (ih others (parts_run_sent a.isPacket nonempty one).1).mp ?_⟩
      rw [two]
      rfl
    · rintro ⟨first, later⟩
      obtain ⟨⟨mid, out⟩, one⟩ := Option.isSome_iff_exists.mp first
      have onward := (ih others (parts_run_sent a.isPacket nonempty one).1).mpr later
      obtain ⟨⟨final, outs⟩, two⟩ := Option.isSome_iff_exists.mp onward
      rw [runMachine_append one two]
      rfl

def headSource (cur target msgSize : Nat) : Nat :=
  if target < cur then 0 else min (target / cur) (flitCount msgSize cur) - 1

structure BridgePacket.Becomes (a : BridgePacket cur vc) (b : BridgePacket target vc) : Prop where
  msgSize : b.msgSize = a.msgSize
  head : b.flits.head?.map (·.route) = (a.flits[headSource cur target a.msgSize]?).map (·.route)

theorem packet_run (divides : cur ∣ target ∨ target ∣ cur)
    (fit : ExactBetween cur target a.msgSize) (none_sent : v.sizeSent = 0) (no_flit_sent : v.flitsSent = 0) :
    ∃ v' outs, ∃ b : BridgePacket target vc,
      runMachine (BridgeVc.handleFlit cur target) v a.flits = some (v', outs) ∧
      outs.flatMap (·.1) = b.flits.map Traffic.flit ∧ a.Becomes b ∧
      outs.filterMap (·.2) = (groups (max cur target) (min cur target) a.msgSize).map Int.ofNat := by
  have nonempty := length_pos_iff.mp (BridgePacket.length_pos fit)
  obtain ⟨less, r, rfl⟩ | ⟨less, r, rfl⟩ := fit.dvd divides
  · have exact_fit := fit.deserializes less
    have start : Grouped cur r 0 v := ⟨by simp [Deserialized, none_sent], by simp [no_flit_sent]⟩
    obtain ⟨v', outs, flits, ran, ⟨scheduled, parts, told⟩, head⟩ := deserialize_run exact_fit a.isPacket nonempty start
    rw [Nat.zero_div] at parts told
    refine ⟨v', outs, ⟨a.msgSize, flits, parts⟩, ran, scheduled, ⟨rfl, ?_⟩, ?_⟩
    · rw [headSource, if_neg (by omega), Nat.mul_div_cancel_left _ exact_fit.positive]
      simpa [untilComplete] using head
    · rw [max_eq_right less.le, min_eq_left less.le]
      exact told
  · have exact_fit := fit.serializes less
    have start : Serialized (target * r) target 0 v := by simp [Serialized, none_sent]
    obtain ⟨v', outs, flits, ran, ⟨scheduled, parts, told⟩, head⟩ := serialize_run exact_fit a.isPacket nonempty start
    rw [zero_mul] at parts
    refine ⟨v', outs, ⟨a.msgSize, flits, parts⟩, ran, scheduled, ⟨rfl, ?_⟩, ?_⟩
    · rw [headSource, if_pos less, ← List.head?_eq_getElem?]
      exact head
    · rw [max_eq_left less.le, min_eq_right less.le]
      exact told

theorem packets_run (divides : cur ∣ target ∨ target ∣ cur) {packets : List (BridgePacket cur vc)}
    (fit : ∀ a ∈ packets, ExactBetween cur target a.msgSize) (none_sent : v.sizeSent = 0)
    (no_flit_sent : v.flitsSent = 0) :
    ∃ v' outs, ∃ converted : List (BridgePacket target vc),
      runMachine (BridgeVc.handleFlit cur target) v (packets.flatMap BridgePacket.flits) = some (v', outs) ∧
      outs.flatMap (·.1) = (converted.flatMap BridgePacket.flits).map Traffic.flit ∧
      List.Forall₂ BridgePacket.Becomes packets converted ∧
      outs.filterMap (·.2) =
        (packets.flatMap fun a => groups (max cur target) (min cur target) a.msgSize).map Int.ofNat := by
  induction packets generalizing v with
  | nil => exact ⟨v, [], [], rfl, rfl, List.Forall₂.nil, rfl⟩
  | cons a rest ih =>
    obtain ⟨here, others⟩ := forall_mem_cons.mp fit
    have nonempty := length_pos_iff.mp (BridgePacket.length_pos here)
    obtain ⟨mid, first, b, one, scheduled, becomes, told⟩ := packet_run divides here none_sent no_flit_sent
    obtain ⟨size_zero, flits_zero⟩ := parts_run_sent a.isPacket nonempty one
    obtain ⟨v', later, converted, two, later_scheduled, all, later_told⟩ := ih others size_zero flits_zero
    refine ⟨v', first ++ later, b :: converted, runMachine_append one two, ?_, List.Forall₂.cons becomes all, ?_⟩
    · rw [flatMap_append, scheduled, later_scheduled, flatMap_cons, map_append]
    · rw [filterMap_append, told, later_told, flatMap_cons, map_append]

theorem VcPair.run_flits (s : VcPair) (fs : List BridgeFlit) :
    runMachine (VcPair.handle cur target) s (fs.map Traffic.flit) =
      (runMachine (BridgeVc.handleFlit cur target) s.data fs).map fun r =>
        ({ data := r.1, credit := { s.credit with
            extraCredit := s.credit.extraCredit ++ r.2.filterMap (·.2) } }, r.2.flatMap (·.1)) := by
  induction fs generalizing s with
  | nil => simp [runMachine]
  | cons f rest ih =>
    rw [map_cons]
    cases converted : s.data.convert cur target (.flit f) with
    | none =>
      have stuck : s.handle cur target (.flit f) = none := congrArg (Option.map _) converted
      have held : s.data.handleFlit cur target f = none := congrArg (Option.map _) converted
      rw [runMachine_cons_none stuck, runMachine_cons_none held]
      rfl
    | some r =>
      have passed : s.handle cur target (.flit f) = some ({ data := r.1, credit := { s.credit with
          extraCredit := s.credit.extraCredit ++ r.2.2.toList } }, r.2.1) := congrArg (Option.map _) converted
      have held : s.data.handleFlit cur target f = some (r.1, [r.2]) := congrArg (Option.map _) converted
      have onward := ih { data := r.1, credit := { s.credit with
        extraCredit := s.credit.extraCredit ++ r.2.2.toList } }
      cases others : runMachine (BridgeVc.handleFlit cur target) r.1 rest with
      | none =>
        rw [others] at onward
        simp [runMachine, passed, held, onward, others]
      | some final =>
        rw [others, Option.map_some] at onward
        rw [runMachine_cons passed onward, runMachine_cons held others]
        cases told : r.2.2 <;> simp [told]

end Channel

def BridgePair.sendAll (p : BridgePair) (calls : List (ConsumerClock × BridgeFlit)) : Option BridgePair :=
  p.handleAll (calls.map fun call => (call.1, Traffic.flit call.2))

theorem flits_on (calls : List (ConsumerClock × BridgeFlit)) (vc : Nat) :
    ((calls.map fun call => (call.1, Traffic.flit call.2)).map (·.2)).filter (fun t => t.vc = vc) =
      ((calls.map (·.2)).filter fun f => f.vc = vc).map Traffic.flit := by
  have same : (calls.map fun call => (call.1, Traffic.flit call.2)).map (·.2) =
      (calls.map (·.2)).map Traffic.flit := by simp
  rw [same, filter_map]
  rfl

def cutFlit (msgSize width vc : Nat) (route : RouteInfo) (i : Nat) : BridgeFlit :=
  { Flit.create 0 i vc 0 route (floatDivCeil msgSize width) 0 0 with
    width := width, msgSize := msgSize, enqueueTime := 0, srcDelay := 0 }

theorem cutFlit_parts (msgSize width vc : Nat) (route : RouteInfo) :
    IsPacket msgSize width vc ((List.range (floatDivCeil msgSize width)).map (cutFlit msgSize width vc route)) := by
  rw [← append_nil ((List.range _).map _)]
  apply Parts.append
  · intro j inside
    rw [getElem_map, getElem_range, zero_add]
    exact ⟨rfl, rfl, rfl, rfl, rfl⟩
  · rw [length_map, length_range, zero_add]
    rfl

def BridgePacket.cut (msgSize width vc : Nat) (route : RouteInfo) : BridgePacket width vc where
  msgSize := msgSize
  flits := (List.range (floatDivCeil msgSize width)).map (cutFlit msgSize width vc route)
  isPacket := cutFlit_parts msgSize width vc route

variable {width : Nat}

theorem Parts.vc {msgSize vc start : Nat} {fs : List BridgeFlit} (parts : Parts msgSize width vc start fs) :
    ∀ f ∈ fs, f.vc = vc := by
  induction fs generalizing start with
  | nil => simp
  | cons f rest ih =>
    intro g member
    obtain rfl | later := mem_cons.mp member
    · exact parts.1.vc
    · exact ih parts.2 g later

def onFirst {width : Nat} (a : BridgePacket width 0) : (vc : Nat) → List (BridgePacket width vc)
  | 0 => [a]
  | _ + 1 => []

theorem onFirst_stream (a : BridgePacket width 0) (clock : ConsumerClock) (vc : Nat) :
    ((a.flits.map fun f => (clock, f)).map (·.2)).filter (fun f => f.vc = vc) =
      (onFirst a vc).flatMap BridgePacket.flits := by
  have same : (a.flits.map fun f => (clock, f)).map (·.2) = a.flits := by simp
  rw [same]
  cases vc with
  | zero =>
    have all : a.flits.filter (fun f => f.vc = 0) = a.flits :=
      filter_eq_self.mpr fun f member => decide_eq_true (a.isPacket.vc f member)
    simp [all, onFirst]
  | succ vc =>
    refine filter_eq_nil_iff.mpr fun f member => ?_
    rw [a.isPacket.vc f member]
    simp

theorem onFirst_forall {a : BridgePacket width 0} {P : Nat → Prop} (first : P a.msgSize) :
    ∀ vc, ∀ b ∈ onFirst a vc, P b.msgSize := by
  intro vc b member
  cases vc with
  | zero =>
    obtain rfl := mem_singleton.mp member
    exact first
  | succ vc => cases member

def serializer (wide narrow : Nat) : BridgeParams :=
  { mType := .objectLink, bitWidth := wide, linkWidth := narrow, enCdc := false, cdcLatency := 0
    serDesLatency := 1 }

def deserializer (wide narrow : Nat) : BridgeParams :=
  { mType := .linkObject, bitWidth := wide, linkWidth := narrow, enCdc := false, cdcLatency := 0
    serDesLatency := 1 }

def everyTick : ConsumerClock := { clockEdge := id, period := 1 }

def sendPacket {width : Nat} (params : BridgeParams) (a : BridgePacket width 0) : Option BridgePair :=
  (BridgePair.init params).sendAll (a.flits.map fun f => (everyTick, f))

end Resister.Garnet
