import Resister.Garnet.WidthRatio

/-!
# A data bridge and its credit bridge

The two bridges at one end of a link, each the `coBridge` of the other, and the calls of
`flitisizeAndSend` on them in any order.
-/

namespace Resister.Garnet

open Library List Option

/-- The parameters of the bridges at one end of a link, with the type of the data bridge. -/
structure BridgeParams where
  mType : BridgeType
  bitWidth : Nat
  linkWidth : Nat
  enCdc : Bool
  cdcLatency : Nat
  serDesLatency : Nat

def BridgeType.opposite : BridgeType → BridgeType
  | linkObject => objectLink
  | objectLink => linkObject

structure BridgePair where
  data : NetworkBridge
  credit : NetworkBridge

namespace BridgePair

/-- The bridges after `initBridge`. Flits and credits cross the link in opposite directions. -/
def init (params : BridgeParams) : BridgePair :=
  let bridge (mType : BridgeType) : NetworkBridge :=
    { mType := mType, bitWidth := params.bitWidth, linkWidth := params.linkWidth, enCdc := params.enCdc
      enSerDes := true, cdcLatency := params.cdcLatency, serDesLatency := params.serDesLatency }
  { data := bridge params.mType, credit := bridge params.mType.opposite }

def handle (p : BridgePair) (call : ConsumerClock × Traffic) : Option BridgePair :=
  match call.2 with
  | .flit f => (p.data.flitisizeAndSend call.1 p.credit (.flit f)).map fun r => ⟨r.1, r.2⟩
  | .credit c => (p.credit.flitisizeAndSend call.1 p.data (.credit c)).map fun r => ⟨r.2, r.1⟩

/-- A sequence of calls. No flit is taken off the link buffers, which hold all that was scheduled. -/
def handleAll (p : BridgePair) (calls : List (ConsumerClock × Traffic)) : Option BridgePair :=
  calls.foldlM handle p

end BridgePair

def BridgeParams.curWidth (params : BridgeParams) : Nat := (BridgePair.init params).data.curWidth

def BridgeParams.targetWidth (params : BridgeParams) : Nat := (BridgePair.init params).data.targetWidth

structure VcPair where
  data : BridgeVc := {}
  credit : BridgeVc := {}

namespace VcPair

def handle (curWidth targetWidth : Nat) (s : VcPair) (t : Traffic) : Option (VcPair × List Traffic) :=
  match t with
  | .flit f => (s.data.convert curWidth targetWidth (.flit f)).map fun r =>
    ({ data := r.1, credit := { s.credit with extraCredit := s.credit.extraCredit ++ r.2.2.toList } }, r.2.1)
  | .credit c => (s.credit.convert targetWidth curWidth (.credit c)).map fun r =>
    ({ s with credit := r.1 }, r.2.1)

end VcPair

def Traffic.isFlit : Traffic → Bool
  | flit _ => true
  | credit _ => false

section Channel

variable {cur target : Nat}

theorem BridgeVc.convert_flit_some {v v' : BridgeVc} {f : BridgeFlit} {result : List Traffic × Option Int}
    (done : v.convert cur target (.flit f) = some (v', result)) :
    ∀ t ∈ result.1, t.isFlit = true ∧ t.vc = f.vc := by
  unfold convert at done
  split at done
  · cases done
  split at done
  · obtain ⟨-, -, -, rfl | ⟨fl, rfl, channel⟩⟩ := deserializeFlit_some done
    · simp
    · simpa [Traffic.isFlit, Traffic.vc] using channel
  · obtain ⟨-, -, -, fls, rfl, -, channels⟩ := serializeFlit_some done
    intro t member
    obtain ⟨fl, inside, rfl⟩ := mem_map.mp member
    exact ⟨rfl, channels fl inside⟩

theorem BridgeVc.convert_credit_some {v v' : BridgeVc} {c : Credit} {result : List Traffic × Option Int}
    (done : v.convert cur target (.credit c) = some (v', result)) :
    result.2 = none ∧ ∀ t ∈ result.1, t.isFlit = false ∧ t.vc = c.vc := by
  unfold convert deserializeCredit serializeCredit at done
  split at done
  · cases done
  split at done
  · dsimp only at done
    split at done
    · cases done
    split at done
    · cases done
    split at done
    · obtain ⟨rfl, rfl⟩ := Prod.mk.inj (Option.some.inj done)
      simp [Traffic.isFlit, Traffic.vc, Credit.deserialize]
    · obtain ⟨rfl, rfl⟩ := Prod.mk.inj (Option.some.inj done)
      simp
  · dsimp only at done
    split at done
    · cases done
    split at done
    · obtain ⟨rfl, rfl⟩ := Prod.mk.inj (Option.some.inj done)
      simp [Traffic.isFlit, Traffic.vc, Credit.serialize]
    · cases done

theorem VcPair.handle_flit_some {s s' : VcPair} {f : BridgeFlit} {out : List Traffic}
    (done : s.handle cur target (.flit f) = some (s', out)) :
    ∃ told, s.data.convert cur target (.flit f) = some (s'.data, out, told) ∧
      s'.credit = { s.credit with extraCredit := s.credit.extraCredit ++ told.toList } := by
  obtain ⟨⟨v', scheduled, told⟩, converted, same⟩ := map_eq_some_iff.mp done
  obtain ⟨rfl, rfl⟩ := Prod.mk.inj same
  exact ⟨told, converted, rfl⟩

theorem VcPair.handle_credit_some {s s' : VcPair} {c : Credit} {out : List Traffic}
    (done : s.handle cur target (.credit c) = some (s', out)) :
    s.credit.convert target cur (.credit c) = some (s'.credit, out, none) ∧ s'.data = s.data := by
  obtain ⟨⟨v', scheduled, told⟩, converted, same⟩ := map_eq_some_iff.mp done
  obtain ⟨rfl, rfl⟩ := Prod.mk.inj same
  obtain ⟨silent, -⟩ := BridgeVc.convert_credit_some converted
  obtain rfl : told = none := silent
  exact ⟨converted, rfl⟩

theorem VcPair.handle_keepsKey : KeepsKey Traffic.vc Traffic.vc (VcPair.handle cur target) := by
  intro s t s' out done o member
  cases t with
  | flit f =>
    obtain ⟨told, converted, -⟩ := VcPair.handle_flit_some done
    exact (BridgeVc.convert_flit_some converted o member).2
  | credit c =>
    obtain ⟨converted, -⟩ := VcPair.handle_credit_some done
    exact ((BridgeVc.convert_credit_some converted).2 o member).2

end Channel

namespace NetworkBridge

def scheduled (b : NetworkBridge) : List Traffic := b.linkBuffer.map (Traffic.setTime 0)

theorem scheduleAll (clock : ConsumerClock) (latency : Nat) (b : NetworkBridge) (ts : List Traffic) :
    ∃ last, ∃ buffer : List Traffic,
      ts.foldl (scheduleFlit clock latency) b = { b with lastScheduledAt := last, linkBuffer := buffer } ∧
      b.linkBuffer <+: buffer ∧
      buffer.map (Traffic.setTime 0) = b.scheduled ++ ts.map (Traffic.setTime 0) := by
  induction ts generalizing b with
  | nil => exact ⟨b.lastScheduledAt, b.linkBuffer, rfl, prefix_rfl, (append_nil _).symm⟩
  | cons t rest ih =>
    obtain ⟨last, buffer, same, longer, log⟩ := ih (b.scheduleFlit clock latency t)
    refine ⟨last, buffer, same, List.IsPrefix.trans (prefix_append _ _) longer, ?_⟩
    rw [log]
    cases t <;> simp [scheduled, scheduleFlit, Traffic.setTime]

theorem flitisizeAndSend_some {b : NetworkBridge} {t : Traffic} {v' : BridgeVc} {out : List Traffic}
    {told : Option Int} (clock : ConsumerClock) (co : NetworkBridge) (enabled : b.enSerDes = true)
    (converted : (b.vcs t.vc).convert b.curWidth b.targetWidth t = some (v', out, told)) :
    ∃ last, ∃ buffer : List Traffic,
      b.flitisizeAndSend clock co t =
        some ({ b with vcs := Function.update b.vcs t.vc v', lastScheduledAt := last, linkBuffer := buffer },
          co.neutralize t.vc told) ∧
      b.linkBuffer <+: buffer ∧
      buffer.map (Traffic.setTime 0) = b.scheduled ++ out.map (Traffic.setTime 0) := by
  obtain ⟨last, buffer, all, longer, log⟩ := scheduleAll clock b.serDesLatency
    { b with vcs := Function.update b.vcs t.vc v' } out
  refine ⟨last, buffer, ?_, longer, log⟩
  rw [flitisizeAndSend, if_pos enabled, converted, map_some]
  exact congrArg (fun sent => some (sent, co.neutralize t.vc told)) all

theorem flitisizeAndSend_none {b : NetworkBridge} {t : Traffic} (clock : ConsumerClock) (co : NetworkBridge)
    (enabled : b.enSerDes = true) (stuck : (b.vcs t.vc).convert b.curWidth b.targetWidth t = none) :
    b.flitisizeAndSend clock co t = none := by
  rw [flitisizeAndSend, if_pos enabled, stuck]
  rfl

end NetworkBridge

namespace BridgePair

variable {cur target : Nat} {p p' : BridgePair}

def channels (p : BridgePair) (vc : Nat) : VcPair := { data := p.data.vcs vc, credit := p.credit.vcs vc }

/-- The bridges convert between two widths, in opposite directions. -/
structure Converts (p : BridgePair) (cur target : Nat) : Prop where
  data_enSerDes : p.data.enSerDes = true
  credit_enSerDes : p.credit.enSerDes = true
  data_cur : p.data.curWidth = cur
  data_target : p.data.targetWidth = target
  credit_cur : p.credit.curWidth = target
  credit_target : p.credit.targetWidth = cur

theorem init_converts (params : BridgeParams) :
    (init params).Converts params.curWidth params.targetWidth := by
  refine ⟨rfl, rfl, rfl, rfl, ?_, ?_⟩ <;>
    cases h : params.mType <;>
    simp [init, BridgeParams.curWidth, BridgeParams.targetWidth, NetworkBridge.curWidth,
      NetworkBridge.targetWidth, BridgeType.opposite, h]

/-- What one call or many did to a pair: the new channels, and what was put out. -/
structure Outcome (cur target : Nat) (p : BridgePair) (channels : Nat → VcPair) (out : List Traffic)
    (p' : BridgePair) : Prop where
  converts : p'.Converts cur target
  channels : p'.channels = channels
  data : p'.data.scheduled = p.data.scheduled ++ (out.filter Traffic.isFlit).map (Traffic.setTime 0)
  credit : p'.credit.scheduled =
    p.credit.scheduled ++ (out.filter fun t => !t.isFlit).map (Traffic.setTime 0)
  data_longer : p.data.linkBuffer <+: p'.data.linkBuffer
  credit_longer : p.credit.linkBuffer <+: p'.credit.linkBuffer

theorem handle_none (converts : p.Converts cur target) {clock : ConsumerClock} {t : Traffic}
    (stuck : muxStep Traffic.vc (VcPair.handle cur target) p.channels t = none) : p.handle (clock, t) = none := by
  have failed := map_eq_none_iff.mp stuck
  obtain ⟨data_on, credit_on, rfl, rfl, credit_cur, credit_target⟩ := converts
  cases t with
  | flit f =>
    have blocked := map_eq_none_iff.mp failed
    have stopped := NetworkBridge.flitisizeAndSend_none clock p.credit data_on blocked
    exact congrArg (Option.map fun r => BridgePair.mk r.1 r.2) stopped
  | credit c =>
    have blocked := map_eq_none_iff.mp failed
    rw [← credit_cur, ← credit_target] at blocked
    have stopped := NetworkBridge.flitisizeAndSend_none clock p.data credit_on blocked
    exact congrArg (Option.map fun r => BridgePair.mk r.2 r.1) stopped

theorem handle_some (converts : p.Converts cur target) {clock : ConsumerClock} {t : Traffic}
    {channels : Nat → VcPair} {out : List Traffic}
    (stepped : muxStep Traffic.vc (VcPair.handle cur target) p.channels t = some (channels, out)) :
    ∃ p', p.handle (clock, t) = some p' ∧ Outcome cur target p channels out p' := by
  obtain ⟨⟨s', result⟩, own, same⟩ := map_eq_some_iff.mp stepped
  obtain ⟨rfl, rfl⟩ := Prod.mk.inj same
  obtain ⟨data_on, credit_on, rfl, rfl, credit_cur, credit_target⟩ := converts
  cases t with
  | flit f =>
    obtain ⟨⟨v', scheduled, told⟩, converted, shape⟩ := map_eq_some_iff.mp own
    obtain ⟨rfl, rfl⟩ := Prod.mk.inj shape
    have flits := BridgeVc.convert_flit_some converted
    have only : scheduled.filter Traffic.isFlit = scheduled :=
      filter_eq_self.mpr fun t member => (flits t member).1
    have no_credit : scheduled.filter (fun t => !t.isFlit) = [] :=
      filter_eq_nil_iff.mpr fun t member => by simp [(flits t member).1]
    obtain ⟨last, buffer, sent, longer, log⟩ :=
      NetworkBridge.flitisizeAndSend_some clock p.credit data_on converted
    have handled : p.handle (clock, .flit f) = some ⟨_, _⟩ :=
      congrArg (Option.map fun r : NetworkBridge × NetworkBridge => BridgePair.mk r.1 r.2) sent
    refine ⟨_, handled, ⟨data_on, credit_on, rfl, rfl, credit_cur, credit_target⟩, ?_, ?_, ?_, longer,
      prefix_rfl⟩
    · funext vc
      by_cases here : vc = f.vc
      · subst here
        simp [BridgePair.channels, NetworkBridge.neutralize, Traffic.vc]
      · simp [BridgePair.channels, NetworkBridge.neutralize, Traffic.vc, here]
    · rw [only]
      exact log
    · rw [no_credit, map_nil, append_nil]
      rfl
  | credit c =>
    obtain ⟨⟨v', scheduled, told⟩, converted, shape⟩ := map_eq_some_iff.mp own
    obtain ⟨rfl, rfl⟩ := Prod.mk.inj shape
    obtain ⟨silent, credits⟩ := BridgeVc.convert_credit_some converted
    obtain rfl : told = none := silent
    have only : scheduled.filter (fun t => !t.isFlit) = scheduled :=
      filter_eq_self.mpr fun t member => by simp [(credits t member).1]
    have no_flit : scheduled.filter Traffic.isFlit = [] :=
      filter_eq_nil_iff.mpr fun t member => by simp [(credits t member).1]
    rw [← credit_cur, ← credit_target] at converted
    obtain ⟨last, buffer, sent, longer, log⟩ :=
      NetworkBridge.flitisizeAndSend_some clock p.data credit_on converted
    have handled : p.handle (clock, .credit c) = some ⟨_, _⟩ :=
      congrArg (Option.map fun r : NetworkBridge × NetworkBridge => BridgePair.mk r.2 r.1) sent
    refine ⟨_, handled, ⟨data_on, credit_on, rfl, rfl, credit_cur, credit_target⟩, ?_, ?_, ?_, prefix_rfl,
      longer⟩
    · funext vc
      by_cases here : vc = c.vc
      · subst here
        simp [BridgePair.channels, NetworkBridge.neutralize, Traffic.vc]
      · simp [BridgePair.channels, NetworkBridge.neutralize, Traffic.vc, here]
    · rw [no_flit, map_nil, append_nil]
      rfl
    · rw [only]
      exact log

variable {calls : List (ConsumerClock × Traffic)}

theorem handleAll_some (converts : p.Converts cur target) {channels : Nat → VcPair} {out : List Traffic}
    (ran : runMachine (muxStep Traffic.vc (VcPair.handle cur target)) p.channels (calls.map (·.2)) =
      some (channels, out)) :
    ∃ p', p.handleAll calls = some p' ∧ Outcome cur target p channels out p' := by
  induction calls generalizing p out with
  | nil =>
    obtain ⟨rfl, rfl⟩ := Prod.mk.inj (Option.some.inj ran)
    exact ⟨p, rfl, converts, rfl, (append_nil _).symm, (append_nil _).symm, prefix_rfl,
      prefix_rfl⟩
  | cons call rest ih =>
    obtain ⟨s', head, tail, stepped, others, rfl⟩ := runMachine_cons_some ran
    obtain ⟨mid, handled, first⟩ := handle_some converts stepped
    rw [← first.channels] at others
    obtain ⟨p', done, later⟩ := ih first.converts others
    refine ⟨p', ?_, later.converts, later.channels, ?_, ?_, first.data_longer.trans later.data_longer,
      first.credit_longer.trans later.credit_longer⟩
    · rw [handleAll, foldlM_cons, handled]
      exact done
    · rw [later.data, first.data, filter_append, map_append, append_assoc]
    · rw [later.credit, first.credit, filter_append, map_append, append_assoc]

theorem handleAll_run_isSome (converts : p.Converts cur target) :
    (p.handleAll calls).isSome ↔
      (runMachine (muxStep Traffic.vc (VcPair.handle cur target)) p.channels (calls.map (·.2))).isSome := by
  induction calls generalizing p with
  | nil => exact Iff.rfl
  | cons call rest ih =>
    rw [handleAll, foldlM_cons, map_cons]
    cases stepped : muxStep Traffic.vc (VcPair.handle cur target) p.channels call.2 with
    | none =>
      rw [runMachine_cons_none stepped, handle_none converts stepped]
      exact Iff.rfl
    | some r =>
      obtain ⟨mid, handled, outcome⟩ := handle_some converts stepped
      rw [runMachine_cons_isSome stepped, handled, ← outcome.channels]
      exact ih outcome.converts

theorem handleAll_isSome (converts : p.Converts cur target) :
    (p.handleAll calls).isSome ↔
      ∀ vc, (runMachine (VcPair.handle cur target) (p.channels vc)
        ((calls.map (·.2)).filter fun t => t.vc = vc)).isSome := by
  rw [handleAll_run_isSome converts, runMachine_mux_isSome VcPair.handle_keepsKey]

theorem handleAll_channel (converts : p.Converts cur target) (done : p.handleAll calls = some p') :
    ∃ out, Outcome cur target p p'.channels out p' ∧ ∀ vc,
      runMachine (VcPair.handle cur target) (p.channels vc) ((calls.map (·.2)).filter fun t => t.vc = vc) =
        some (p'.channels vc, out.filter fun t => t.vc = vc) := by
  have finished := (handleAll_run_isSome converts).mp (by rw [done]; rfl)
  obtain ⟨⟨channels, out⟩, ran⟩ := isSome_iff_exists.mp finished
  obtain ⟨q, same, outcome⟩ := handleAll_some converts ran
  obtain rfl : p' = q := Option.some.inj (done.symm.trans same)
  have last := outcome.channels
  subst last
  exact ⟨out, outcome, fun vc => runMachine_project VcPair.handle_keepsKey ran vc⟩

end BridgePair

end Resister.Garnet
