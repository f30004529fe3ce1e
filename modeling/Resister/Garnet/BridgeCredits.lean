import Resister.Garnet.RoundTrip
import Resister.Library.GroupQueue

/-!
# Credits over a bridge

The data bridge announces in `extraCredit` how many narrow flits make up every wide flit, and the
credit bridge works through the announcements, in whatever order flits and credits come.
-/

namespace Resister.Garnet

open Library List Nat

def Traffic.free? : Traffic → Option Bool
  | flit _ => none
  | credit c => some c.isFreeSignal

def Traffic.tail? : Traffic → Option Bool
  | flit f => some f.isTail
  | credit _ => none

def groupSizes {cur vc : Nat} (target : Nat) (packets : List (BridgePacket cur vc)) : List Nat :=
  packets.flatMap fun a => groups (max cur target) (min cur target) a.msgSize

section Channel

variable {cur target vc : Nat} {packets : List (BridgePacket cur vc)} {s s' : VcPair} {fs : List BridgeFlit}
  {flags back : List Bool} {sizes : List Nat} {sent : List (Option Bool)}

theorem groupSizes_pos (divides : cur ∣ target ∨ target ∣ cur)
    (fit : ∀ a ∈ packets, ExactBetween cur target a.msgSize) : ∀ size ∈ groupSizes target packets, 0 < size := by
  intro size member
  obtain ⟨a, inside, own⟩ := mem_flatMap.mp member
  have exact_fit := fit a inside
  obtain ⟨less, r, rfl⟩ | ⟨less, r, rfl⟩ := exact_fit.dvd divides
  · rw [max_eq_right less.le, min_eq_left less.le] at own
    exact groups_pos (exact_fit.deserializes less) size own
  · rw [max_eq_left less.le, min_eq_right less.le] at own
    exact groups_pos (exact_fit.serializes less) size own

theorem run_early (divides : cur ∣ target ∨ target ∣ cur) (fit : ∀ a ∈ packets, ExactBetween cur target a.msgSize)
    (first : fs <+: packets.flatMap BridgePacket.flits) :
    ∃ v outs sizes, runMachine (BridgeVc.handleFlit cur target) {} fs = some (v, outs) ∧
      outs.filterMap (·.2) = sizes.map Int.ofNat ∧ sizes <+: groupSizes target packets := by
  obtain ⟨more, whole⟩ := first
  obtain ⟨v', outs, converted, ran, -, -, told⟩ := packets_run (v := {}) divides fit rfl rfl
  rw [← whole] at ran
  obtain ⟨v, early, late, one, -, rfl⟩ := runMachine_append_some ran
  rw [filterMap_append] at told
  obtain ⟨sizes, others, split, announced, -⟩ := append_eq_map_iff.mp told
  exact ⟨v, early, sizes, one, announced.symm, others, split.symm⟩

theorem run_sent {v v' : BridgeVc} {outs : List (List Traffic × Option Int)}
    (ran : runMachine (BridgeVc.handleFlit cur target) v fs = some (v', outs))
    (announced : outs.filterMap (·.2) = sizes.map Int.ofNat) :
    (outs.flatMap (·.1)).length = if cur < target then sizes.length else sizes.sum := by
  induction fs generalizing v outs sizes with
  | nil =>
    obtain ⟨-, rfl⟩ := Prod.mk.inj (Option.some.inj ran)
    obtain rfl := map_eq_nil_iff.mp announced.symm
    simp
  | cons f rest ih =>
    obtain ⟨mid, first, later, handled, others, rfl⟩ := runMachine_cons_some ran
    obtain ⟨⟨v'', out, told⟩, converted, same⟩ := Option.map_eq_some_iff.mp handled
    obtain ⟨rfl, rfl⟩ := Prod.mk.inj same
    rw [flatMap_append, length_append, flatMap_singleton]
    rw [filterMap_append] at announced
    obtain ⟨own, more, rfl, here, there⟩ := append_eq_map_iff.mp announced
    rw [ih others there.symm, length_append, List.sum_append]
    unfold BridgeVc.convert at converted
    split at converted
    · cases converted
    split at converted
    · rename_i less
      obtain ⟨-, -, -, same | ⟨fl, same, -⟩⟩ := BridgeVc.deserializeFlit_some converted
      · obtain ⟨rfl, rfl⟩ := Prod.mk.inj same
        obtain rfl : own = [] := map_eq_nil_iff.mp here
        simp
      · obtain ⟨rfl, rfl⟩ := Prod.mk.inj same
        obtain ⟨size, none_left, rfl, -, nothing⟩ := map_eq_cons_iff.mp here
        obtain rfl := map_eq_nil_iff.mp nothing
        simp [less]
    · rename_i less
      obtain ⟨-, -, -, fls, same, -, -⟩ := BridgeVc.serializeFlit_some converted
      obtain ⟨rfl, rfl⟩ := Prod.mk.inj same
      obtain ⟨size, none_left, rfl, number, nothing⟩ := map_eq_cons_iff.mp here
      obtain rfl := map_eq_nil_iff.mp nothing
      obtain rfl : size = fls.length := Int.ofNat.inj number
      simp [less]

theorem run_announced (less : target < cur) {v v' : BridgeVc} {outs : List (List Traffic × Option Int)}
    (ran : runMachine (BridgeVc.handleFlit cur target) v fs = some (v', outs)) :
    (outs.filterMap (·.2)).length = fs.length := by
  induction fs generalizing v outs with
  | nil =>
    obtain ⟨-, rfl⟩ := Prod.mk.inj (Option.some.inj ran)
    rfl
  | cons f rest ih =>
    obtain ⟨mid, first, later, handled, others, rfl⟩ := runMachine_cons_some ran
    rw [BridgeVc.handleFlit_serialize less] at handled
    obtain ⟨⟨v'', result⟩, converted, same⟩ := Option.map_eq_some_iff.mp handled
    obtain ⟨-, rfl⟩ := Prod.mk.inj same
    obtain ⟨-, -, -, fls, rfl, -⟩ := BridgeVc.serializeFlit_some converted
    rw [filterMap_append, length_append, ih others, length_cons]
    simp [add_comm]

theorem serialize_free (c : Credit) {size : Nat} (some_member : 0 < size) :
    ((List.range size).map fun i => Traffic.credit (c.serialize i size)).filterMap Traffic.free? =
      List.replicate (size - 1) false ++ [c.isFreeSignal] := by
  obtain ⟨n, rfl⟩ : ∃ n, size = n + 1 := ⟨size - 1, by omega⟩
  rw [filterMap_map, range_succ, filterMap_append, Nat.add_sub_cancel]
  congr 1
  · apply eq_replicate_iff.mpr
    constructor
    · rw [length_filterMap_eq_countP]
      simp [Traffic.free?]
    · intro b member
      obtain ⟨i, below, same⟩ := mem_filterMap.mp member
      rw [mem_range] at below
      have early : i ≠ n := by omega
      simpa [Traffic.free?, Credit.serialize, early] using same.symm
  · simp [Traffic.free?, Credit.serialize]

/-- A channel after the flits `fs` and the credits with the signals `flags`: the sizes announced, the
signals of the credits put out, and which of the flits put out are tails. -/
structure ChannelState (cur target : Nat) (sizes : List Nat) (fs : List BridgeFlit) (flags back : List Bool)
    (sent : List (Option Bool)) (s : VcPair) : Prop where
  data : ∃ outs, runMachine (BridgeVc.handleFlit cur target) {} fs = some (s.data, outs) ∧
    outs.filterMap (·.2) = sizes.map Int.ofNat ∧ (outs.flatMap (·.1)).map Traffic.tail? = sent
  positive : ∀ size ∈ sizes, 0 < size
  credit : ∃ waiting, s.credit.extraCredit = waiting.map Int.ofNat ∧
    if cur < target then Expanding false sizes flags waiting back
    else Collecting sizes flags waiting s.credit.lenBuffer back

namespace ChannelState

theorem start (cur target : Nat) : ChannelState cur target [] [] [] [] [] {} := by
  refine ⟨⟨[], rfl, rfl, rfl⟩, by simp, [], rfl, ?_⟩
  split
  · exact Expanding.start false
  · exact Collecting.start

theorem sent_eq (state : ChannelState cur target sizes fs flags back sent s) :
    sent.length = if cur < target then sizes.length else sizes.sum := by
  obtain ⟨outs, ran, announced, rfl⟩ := state.data
  rw [length_map]
  exact run_sent ran announced

theorem announced_eq (state : ChannelState cur target sizes fs flags back sent s) (less : target < cur) :
    sizes.length = fs.length := by
  obtain ⟨outs, ran, announced, -⟩ := state.data
  rw [← length_map (f := Int.ofNat), ← announced]
  exact run_announced less ran

theorem announce (state : ChannelState cur target sizes fs flags back sent s) {size : Nat} (some_member : 0 < size) :
    ∃ waiting, s.credit.extraCredit ++ [(size : Int)] = waiting.map Int.ofNat ∧
      if cur < target then Expanding false (sizes ++ [size]) flags waiting back
      else Collecting (sizes ++ [size]) flags waiting s.credit.lenBuffer back := by
  obtain ⟨waiting, queue, credit⟩ := state.credit
  refine ⟨waiting ++ [size], by simp [queue], ?_⟩
  split
  · rename_i less
    rw [if_pos less] at credit
    exact credit.announce size
  · rename_i less
    rw [if_neg less] at credit
    exact credit.announce some_member

theorem flit (state : ChannelState cur target sizes fs flags back sent s) {f : BridgeFlit}
    (divides : cur ∣ target ∨ target ∣ cur) (fit : ∀ a ∈ packets, ExactBetween cur target a.msgSize)
    (first : fs ++ [f] <+: packets.flatMap BridgePacket.flits) :
    ∃ s' out sizes', s.handle cur target (.flit f) = some (s', out) ∧
      ChannelState cur target sizes' (fs ++ [f]) flags back (sent ++ out.map Traffic.tail?) s' ∧
      sizes' <+: groupSizes target packets := by
  obtain ⟨v, outs', sizes', ran, announced, within⟩ := run_early divides fit first
  obtain ⟨mid, early, late, one, two, rfl⟩ := runMachine_append_some ran
  obtain ⟨outs, before, sizes_then, rfl⟩ := state.data
  obtain ⟨rfl, rfl⟩ := Prod.mk.inj (Option.some.inj (before.symm.trans one))
  obtain ⟨v', out, later, handled, finish, rfl⟩ := runMachine_cons_some two
  obtain ⟨rfl, rfl⟩ := Prod.mk.inj (Option.some.inj finish)
  obtain ⟨⟨v'', scheduled, told⟩, converted, same⟩ := Option.map_eq_some_iff.mp handled
  obtain ⟨rfl, rfl⟩ := Prod.mk.inj same
  have stepped : s.handle cur target (.flit f) = _ := congrArg (Option.map _) converted
  have positive : ∀ size ∈ sizes', 0 < size := fun size member =>
    groupSizes_pos divides fit size (within.subset member)
  have data : ∃ outs', runMachine (BridgeVc.handleFlit cur target) {} (fs ++ [f]) = some (v'', outs') ∧
      outs'.filterMap (·.2) = sizes'.map Int.ofNat ∧
      (outs'.flatMap (·.1)).map Traffic.tail? =
        (outs.flatMap (·.1)).map Traffic.tail? ++ scheduled.map Traffic.tail? := by
    refine ⟨_, ran, announced, ?_⟩
    simp
  refine ⟨_, scheduled, sizes', stepped, ⟨data, positive, ?_⟩, within⟩
  rw [filterMap_append, sizes_then] at announced
  obtain ⟨old, own, rfl, same_old, here⟩ := append_eq_map_iff.mp announced
  obtain rfl : old = sizes := map_injective_iff.mpr (fun _ _ => Int.ofNat.inj) same_old
  cases told with
  | none =>
    obtain rfl : own = [] := map_eq_nil_iff.mp here
    simpa using state.credit
  | some number =>
    obtain ⟨size, none_left, rfl, rfl, nothing⟩ := map_eq_cons_iff.mp here
    obtain rfl := map_eq_nil_iff.mp nothing
    exact state.announce (positive size (by simp))

theorem take (state : ChannelState cur target sizes fs flags back sent s) (differ : cur ≠ target)
    (owed : flags.length < sent.length) (c : Credit) :
    ∃ s' out, s.handle cur target (.credit c) = some (s', out) ∧
      ChannelState cur target sizes fs (flags ++ [c.isFreeSignal]) (back ++ out.filterMap Traffic.free?) sent s' := by
  obtain ⟨waiting, queue, credit⟩ := state.credit
  rw [state.sent_eq] at owed
  by_cases less : cur < target
  · rw [if_pos less] at credit owed
    cases waiting with
    | nil =>
      have ahead := credit.waiting.symm
      rw [drop_eq_nil_iff] at ahead
      omega
    | cons size rest =>
      have member : size ∈ sizes := mem_of_mem_drop (credit.waiting ▸ mem_cons_self)
      have some_member := state.positive size member
      have converted : s.credit.convert target cur (.credit c) =
          some ({ s.credit with extraCredit := rest.map Int.ofNat },
            (List.range size).map fun i => Traffic.credit (c.serialize i size), none) := by
        unfold BridgeVc.convert
        rw [if_neg differ, if_neg (by omega)]
        simp [BridgeVc.serializeCredit, queue, some_member]
      refine ⟨_, _, congrArg (Option.map _) converted, state.data, state.positive, rest, rfl, ?_⟩
      rw [if_pos less, serialize_free c some_member]
      exact credit.take c.isFreeSignal
  · rw [if_neg less] at credit owed
    cases waiting with
    | nil => exact absurd rfl (credit.waiting_ne_nil owed)
    | cons size rest =>
      have below := credit.below size rest rfl
      by_cases last : s.credit.lenBuffer + 1 = size
      · have converted : s.credit.convert target cur (.credit c) =
            some ({ s.credit with lenBuffer := 0, extraCredit := rest.map Int.ofNat },
              [Traffic.credit c.deserialize], none) := by
          unfold BridgeVc.convert
          rw [if_neg differ, if_pos (by omega)]
          simp [BridgeVc.deserializeCredit, queue, ← last]
          omega
        refine ⟨_, _, congrArg (Option.map _) converted, state.data, state.positive, rest, rfl, ?_⟩
        rw [if_neg less]
        exact credit.complete last c.isFreeSignal
      · have converted : s.credit.convert target cur (.credit c) =
            some ({ s.credit with lenBuffer := s.credit.lenBuffer + 1 }, [], none) := by
          unfold BridgeVc.convert
          rw [if_neg differ, if_pos (by omega)]
          simp [BridgeVc.deserializeCredit, queue]
          omega
        refine ⟨_, _, congrArg (Option.map _) converted, state.data, state.positive, size :: rest, queue, ?_⟩
        rw [if_neg less, filterMap_nil, append_nil]
        exact credit.collect last c.isFreeSignal

end ChannelState

end Channel

def flitsOn (vc : Nat) (ts : List Traffic) : List BridgeFlit := (ts.filter fun t => t.vc = vc).filterMap Traffic.flit?

def freesOn (vc : Nat) (ts : List Traffic) : List Bool := (ts.filter fun t => t.vc = vc).filterMap Traffic.free?

def tailsOn (vc : Nat) (ts : List Traffic) : List (Option Bool) := (ts.filter fun t => t.vc = vc).map Traffic.tail?

theorem tailsOn_append (vc : Nat) (first second : List Traffic) :
    tailsOn vc (first ++ second) = tailsOn vc first ++ tailsOn vc second := by
  simp [tailsOn]

theorem flitsOn_append (vc : Nat) (first second : List Traffic) :
    flitsOn vc (first ++ second) = flitsOn vc first ++ flitsOn vc second := by
  simp [flitsOn]

theorem freesOn_append (vc : Nat) (first second : List Traffic) :
    freesOn vc (first ++ second) = freesOn vc first ++ freesOn vc second := by
  simp [freesOn]

theorem freesOn_setTime (vc : Nat) (ts : List Traffic) : freesOn vc (ts.map (Traffic.setTime 0)) = freesOn vc ts := by
  rw [freesOn, filter_setTime, filterMap_map, freesOn]
  congr 1
  funext t
  cases t <;> rfl

theorem tailsOn_setTime (vc : Nat) (ts : List Traffic) : tailsOn vc (ts.map (Traffic.setTime 0)) = tailsOn vc ts := by
  rw [tailsOn, filter_setTime, map_map, tailsOn]
  congr 1
  funext t
  cases t <;> rfl

variable {ts : List Traffic} {own : Nat}

theorem filter_vc (keys : ∀ t ∈ ts, t.vc = own) (vc : Nat) :
    ts.filter (fun t => t.vc = vc) = if vc = own then ts else [] := by
  split
  · rename_i here
    exact filter_eq_self.mpr fun t member => decide_eq_true ((keys t member).trans here.symm)
  · rename_i other
    refine filter_eq_nil_iff.mpr fun t member => ?_
    rw [keys t member, decide_eq_true_eq]
    exact Ne.symm other

theorem filterMap_credits (ts : List Traffic) :
    (ts.filter fun t => !t.isFlit).filterMap Traffic.free? = ts.filterMap Traffic.free? := by
  induction ts with
  | nil => rfl
  | cons t rest ih =>
    cases t with
    | flit f => exact ih
    | credit c => exact congrArg (c.isFreeSignal :: ·) ih

theorem freesOn_own (keys : ∀ t ∈ ts, t.vc = own) (vc : Nat) :
    freesOn vc ts = if vc = own then ts.filterMap Traffic.free? else [] := by
  rw [freesOn, filter_vc keys]
  split <;> rfl

theorem tailsOn_own (keys : ∀ t ∈ ts, t.vc = own) (vc : Nat) :
    tailsOn vc ts = if vc = own then ts.map Traffic.tail? else [] := by
  rw [tailsOn, filter_vc keys]
  split <;> rfl

theorem flitsOn_own (keys : ∀ t ∈ ts, t.vc = own) (vc : Nat) :
    flitsOn vc ts = if vc = own then ts.filterMap Traffic.flit? else [] := by
  rw [flitsOn, filter_vc keys]
  split <;> rfl

theorem flitsOn_snoc (calls : List (ConsumerClock × Traffic)) (clock : ConsumerClock) (t : Traffic) (vc : Nat) :
    flitsOn vc ((calls ++ [(clock, t)]).map (·.2)) =
      flitsOn vc (calls.map (·.2)) ++ if vc = t.vc then t.flit?.toList else [] := by
  have single : ∀ o ∈ [t], o.vc = t.vc := fun o member => congrArg Traffic.vc (mem_singleton.mp member)
  rw [map_append, flitsOn_append, map_singleton, flitsOn_own single]
  cases t <;> rfl

theorem freesOn_snoc (calls : List (ConsumerClock × Traffic)) (clock : ConsumerClock) (t : Traffic) (vc : Nat) :
    freesOn vc ((calls ++ [(clock, t)]).map (·.2)) =
      freesOn vc (calls.map (·.2)) ++ if vc = t.vc then t.free?.toList else [] := by
  have single : ∀ o ∈ [t], o.vc = t.vc := fun o member => congrArg Traffic.vc (mem_singleton.mp member)
  rw [map_append, freesOn_append, map_singleton, freesOn_own single]
  cases t <;> rfl

namespace BridgePair

variable {cur target : Nat} {p p' : BridgePair}

theorem freesOn_scheduled (b : NetworkBridge) (vc : Nat) : freesOn vc b.scheduled = freesOn vc b.linkBuffer :=
  freesOn_setTime vc b.linkBuffer

theorem tailsOn_scheduled (b : NetworkBridge) (vc : Nat) : tailsOn vc b.scheduled = tailsOn vc b.linkBuffer :=
  tailsOn_setTime vc b.linkBuffer

def Owed (p : BridgePair) (calls : List (ConsumerClock × Traffic)) : Prop :=
  ∀ before clock c after, calls = before ++ (clock, Traffic.credit c) :: after →
    ∀ mid, p.handleAll before = some mid →
      (freesOn c.vc (before.map (·.2))).length < (mid.data.linkBuffer.filter fun t => t.vc = c.vc).length

structure Kept (cur target : Nat) (packets : (vc : Nat) → List (BridgePacket cur vc))
    (calls : List (ConsumerClock × Traffic)) (p : BridgePair) : Prop where
  converts : p.Converts cur target
  channel : ∀ vc, ∃ sizes, ChannelState cur target sizes (flitsOn vc (calls.map (·.2)))
    (freesOn vc (calls.map (·.2))) (freesOn vc p.credit.linkBuffer) (tailsOn vc p.data.linkBuffer) (p.channels vc) ∧
    sizes <+: groupSizes target (packets vc)

theorem handle_channel (converts : p.Converts cur target) (clock : ConsumerClock) {t : Traffic} {s' : VcPair}
    {out : List Traffic} (stepped : (p.channels t.vc).handle cur target t = some (s', out)) :
    ∃ p', p.handle (clock, t) = some p' ∧ p'.Converts cur target ∧ p'.channels t.vc = s' ∧
      p.data.linkBuffer <+: p'.data.linkBuffer ∧ p.credit.linkBuffer <+: p'.credit.linkBuffer ∧
      (∀ vc, vc ≠ t.vc → p'.channels vc = p.channels vc) ∧
      (∀ vc, freesOn vc p'.credit.linkBuffer = freesOn vc p.credit.linkBuffer ++
        if vc = t.vc then out.filterMap Traffic.free? else []) ∧
      ∀ vc, tailsOn vc p'.data.linkBuffer = tailsOn vc p.data.linkBuffer ++
        if vc = t.vc then (out.filter Traffic.isFlit).map Traffic.tail? else [] := by
  have family : muxStep Traffic.vc (VcPair.handle cur target) p.channels t =
      some (Function.update p.channels t.vc s', out) := by
    rw [muxStep, stepped]
    rfl
  obtain ⟨p', handled, outcome⟩ : ∃ p', p.handle (clock, t) = some p' ∧ _ := handle_some converts family
  have keys : ∀ o ∈ out, o.vc = t.vc := VcPair.handle_keepsKey _ _ _ _ stepped
  refine ⟨p', handled, outcome.converts, ?_, outcome.data_longer, outcome.credit_longer, ?_, ?_, ?_⟩
  · rw [outcome.channels, Function.update_self]
  · intro vc other
    rw [outcome.channels, Function.update_of_ne other]
  · intro vc
    have only : ∀ o ∈ out.filter (fun o => !o.isFlit), o.vc = t.vc := fun o member =>
      keys o (mem_filter.mp member).1
    rw [← freesOn_scheduled, outcome.credit, freesOn_append, freesOn_scheduled, freesOn_setTime,
      freesOn_own only, filterMap_credits]
  · intro vc
    have only : ∀ o ∈ out.filter Traffic.isFlit, o.vc = t.vc := fun o member =>
      keys o (mem_filter.mp member).1
    rw [← tailsOn_scheduled, outcome.data, tailsOn_append, tailsOn_scheduled, tailsOn_setTime, tailsOn_own only]

theorem Kept.step {packets : (vc : Nat) → List (BridgePacket cur vc)} {calls : List (ConsumerClock × Traffic)}
    {clock : ConsumerClock} {t : Traffic} (kept : Kept cur target packets calls p) (differ : cur ≠ target)
    (divides : cur ∣ target ∨ target ∣ cur) (fit : ∀ vc, ∀ a ∈ packets vc, ExactBetween cur target a.msgSize)
    (stream : ∀ vc, flitsOn vc ((calls ++ [(clock, t)]).map (·.2)) <+: (packets vc).flatMap BridgePacket.flits)
    (owed : t.isFlit = false → (freesOn t.vc (calls.map (·.2))).length < (tailsOn t.vc p.data.linkBuffer).length) :
    ∃ p', p.handle (clock, t) = some p' ∧ p.data.linkBuffer <+: p'.data.linkBuffer ∧
      p.credit.linkBuffer <+: p'.credit.linkBuffer ∧ Kept cur target packets (calls ++ [(clock, t)]) p' := by
  obtain ⟨sizes, state, within⟩ := kept.channel t.vc
  obtain ⟨s', out, sizes', stepped, state', within'⟩ : ∃ s' out sizes',
      (p.channels t.vc).handle cur target t = some (s', out) ∧
      ChannelState cur target sizes' (flitsOn t.vc (calls.map (·.2)) ++ t.flit?.toList)
        (freesOn t.vc (calls.map (·.2)) ++ t.free?.toList)
        (freesOn t.vc p.credit.linkBuffer ++ out.filterMap Traffic.free?)
        (tailsOn t.vc p.data.linkBuffer ++ (out.filter Traffic.isFlit).map Traffic.tail?) s' ∧
      sizes' <+: groupSizes target (packets t.vc) := by
    have next := stream t.vc
    rw [flitsOn_snoc, if_pos rfl] at next
    cases t with
    | flit f =>
      obtain ⟨s', out, sizes', stepped, state', within'⟩ := state.flit divides (fit _) next
      obtain ⟨told, converted, -⟩ := VcPair.handle_flit_some stepped
      have flits := BridgeVc.convert_flit_some converted
      have no_free : out.filterMap Traffic.free? = [] := by
        rw [← filterMap_credits, filter_eq_nil_iff.mpr fun o member => by simp [(flits o member).1]]
        rfl
      have all : out.filter Traffic.isFlit = out :=
        filter_eq_self.mpr fun o member => (flits o member).1
      refine ⟨s', out, sizes', stepped, ?_, within'⟩
      rw [no_free, all, append_nil]
      exact (append_nil (freesOn _ _)).symm ▸ state'
    | credit c =>
      obtain ⟨s', out, stepped, state'⟩ := state.take differ (owed rfl) c
      obtain ⟨converted, -⟩ := VcPair.handle_credit_some stepped
      have credits := (BridgeVc.convert_credit_some converted).2
      have no_flit : out.filter Traffic.isFlit = [] :=
        filter_eq_nil_iff.mpr fun o member => by simp [(credits o member).1]
      refine ⟨s', out, sizes, stepped, ?_, within⟩
      rw [no_flit, map_nil, append_nil]
      exact (append_nil (flitsOn _ _)).symm ▸ state'
  obtain ⟨p', handled, converts, own, data_longer, credit_longer, others, frees, sent⟩ :=
    handle_channel kept.converts clock stepped
  refine ⟨p', handled, data_longer, credit_longer, converts, fun vc => ?_⟩
  rw [flitsOn_snoc, freesOn_snoc, frees, sent]
  by_cases here : vc = t.vc
  · subst here
    simp only [if_true, own]
    exact ⟨sizes', state', within'⟩
  · simp only [if_neg here, append_nil, others vc here]
    exact kept.channel vc

theorem kept_of_owed {packets : (vc : Nat) → List (BridgePacket cur vc)}
    {calls : List (ConsumerClock × Traffic)} (converts : p.Converts cur target) (fresh : p.Fresh)
    (empty : p.credit.linkBuffer = []) (differ : cur ≠ target) (divides : cur ∣ target ∨ target ∣ cur)
    (fit : ∀ vc, ∀ a ∈ packets vc, ExactBetween cur target a.msgSize)
    (stream : ∀ vc, flitsOn vc (calls.map (·.2)) <+: (packets vc).flatMap BridgePacket.flits) (owed : p.Owed calls) :
    ∃ p', p.handleAll calls = some p' ∧ Kept cur target packets calls p' := by
  induction calls using List.reverseRecOn with
  | nil =>
    refine ⟨p, rfl, converts, fun vc => ⟨[], ?_, nil_prefix⟩⟩
    rw [fresh.buffer, empty, fresh.channels]
    exact ChannelState.start cur target
  | append_singleton calls call ih =>
    obtain ⟨clock, t⟩ := call
    have earlier : ∀ vc, flitsOn vc (calls.map (·.2)) <+: (packets vc).flatMap BridgePacket.flits := by
      intro vc
      refine List.IsPrefix.trans ?_ (stream vc)
      rw [map_append, flitsOn_append]
      exact prefix_append _ _
    have owed_before : p.Owed calls := by
      rintro before clock' c after rfl mid reached
      exact owed before clock' c (after ++ [(clock, t)]) (by simp) mid reached
    obtain ⟨mid, reached, kept⟩ := ih earlier owed_before
    have owed_now : t.isFlit = false →
        (freesOn t.vc (calls.map (·.2))).length < (tailsOn t.vc mid.data.linkBuffer).length := by
      intro is_credit
      cases t with
      | flit f => cases is_credit
      | credit c =>
        rw [tailsOn, length_map]
        exact owed calls clock c [] rfl mid reached
    obtain ⟨p', handled, -, -, kept'⟩ := kept.step differ divides fit stream owed_now
    refine ⟨p', ?_, kept'⟩
    rw [handleAll, foldlM_append]
    have onward := congrArg (· >>= fun q => [(clock, t)].foldlM handle q) reached
    refine onward.trans ?_
    show [(clock, t)].foldlM handle mid = some p'
    rw [foldlM_cons, handled]
    rfl

end BridgePair

theorem groupSizes_sum {cur target vc : Nat} {packets : List (BridgePacket cur vc)} (less : cur < target)
    (divides : cur ∣ target ∨ target ∣ cur) (fit : ∀ a ∈ packets, ExactBetween cur target a.msgSize) :
    (groupSizes target packets).sum = (packets.flatMap BridgePacket.flits).length := by
  induction packets with
  | nil => rfl
  | cons a rest ih =>
    obtain ⟨here, others⟩ := forall_mem_cons.mp fit
    have length := a.isPacket.length
    obtain ⟨-, r, rfl⟩ | ⟨wrong, -⟩ := here.dvd divides
    · have exact_fit := here.deserializes less
      rw [exact_fit.numFlits_narrow, zero_add] at length
      rw [flatMap_cons, length_append, ← ih others, length, groupSizes, flatMap_cons, List.sum_append,
        max_eq_right less.le, min_eq_left less.le, groups_sum exact_fit]
      simp only [groupSizes, max_eq_right less.le, min_eq_left less.le]
    · omega

/-- The credits of one channel: `frees` are the free signals of the credits that came, for the flits
`sent`, and `back` those of the credits put out, for the flits `handled`. -/
structure CreditsReturned {cur vc : Nat} (target : Nat) (packets : List (BridgePacket cur vc))
    (handled : List BridgeFlit) (sent : List Traffic) (frees back : List Bool) : Prop where
  deserializing : cur < target → back = expand false ((groupSizes target packets).take sent.length) frees
  serializing : target < cur →
    sent.length = ((groupSizes target packets).take handled.length).sum ∧
    back = lasts ((groupSizes target packets).take handled.length) frees
  settled : handled = packets.flatMap BridgePacket.flits → frees.length = sent.length →
    back.length = handled.length

theorem ChannelState.returned {cur target vc : Nat} {packets : List (BridgePacket cur vc)} {s : VcPair}
    {handled : List BridgeFlit} {sent : List Traffic} {frees back : List Bool} {sizes : List Nat}
    (state : ChannelState cur target sizes handled frees back (sent.map Traffic.tail?) s)
    (within : sizes <+: groupSizes target packets) (differ : cur ≠ target) (divides : cur ∣ target ∨ target ∣ cur)
    (fit : ∀ a ∈ packets, ExactBetween cur target a.msgSize) :
    CreditsReturned target packets handled sent frees back := by
  have sent_eq := state.sent_eq
  rw [length_map] at sent_eq
  obtain ⟨waiting, -, credit⟩ := state.credit
  have taken : sizes = (groupSizes target packets).take sizes.length := prefix_iff_eq_take.mp within
  refine ⟨fun less => ?_, fun less => ?_, fun whole all_back => ?_⟩
  · rw [if_pos less] at sent_eq credit
    rw [sent_eq, ← taken]
    exact credit.out
  · rw [if_neg (by omega)] at sent_eq credit
    rw [← state.announced_eq less, ← taken]
    exact ⟨sent_eq, credit.out_eq⟩
  · by_cases less : cur < target
    · rw [if_pos less] at sent_eq credit
      have all_sizes : sizes = groupSizes target packets := by
        obtain ⟨v', outs, converted, ran, -, -, told⟩ := packets_run (v := {}) divides fit rfl rfl
        obtain ⟨outs', ran', announced, -⟩ := state.data
        rw [whole, ran] at ran'
        obtain ⟨-, rfl⟩ := Prod.mk.inj (Option.some.inj ran')
        exact map_injective_iff.mpr (fun _ _ => Int.ofNat.inj) (announced.symm.trans told)
      rw [credit.out, expand_length state.positive credit.behind, all_back, sent_eq, take_length, all_sizes,
        groupSizes_sum less divides fit, whole]
    · rw [if_neg less] at sent_eq credit
      rw [credit.out_eq, lasts_length state.positive (all_back.trans sent_eq)]
      exact state.announced_eq (by omega)

/-- Flits and credits in any order, as long as every credit is owed. -/
theorem credits_returned (params : BridgeParams) (differ : params.curWidth ≠ params.targetWidth)
    (divides : params.curWidth ∣ params.targetWidth ∨ params.targetWidth ∣ params.curWidth)
    (packets : (vc : Nat) → List (BridgePacket params.curWidth vc))
    (fit : ∀ vc, ∀ a ∈ packets vc, ExactBetween params.curWidth params.targetWidth a.msgSize)
    (calls : List (ConsumerClock × Traffic))
    (stream : ∀ vc, flitsOn vc (calls.map (·.2)) <+: (packets vc).flatMap BridgePacket.flits)
    (owed : (BridgePair.init params).Owed calls) :
    ∃ p', (BridgePair.init params).handleAll calls = some p' ∧
      ∀ vc, CreditsReturned params.targetWidth (packets vc) (flitsOn vc (calls.map (·.2)))
        (p'.data.linkBuffer.filter fun t => t.vc = vc) (freesOn vc (calls.map (·.2)))
        (freesOn vc p'.credit.linkBuffer) := by
  obtain ⟨p', done, kept⟩ := BridgePair.kept_of_owed (BridgePair.init_converts params)
    (BridgePair.init_fresh params) rfl differ divides fit stream owed
  refine ⟨p', done, fun vc => ?_⟩
  obtain ⟨sizes, state, within⟩ := kept.channel vc
  exact state.returned within differ divides (fit vc)

def creditedCalls : List (ConsumerClock × Traffic) :=
  detouredFlits.map (fun f => (everyTick, Traffic.flit f)) ++
    [(everyTick, Traffic.credit { vc := 0, isFreeSignal := true, time := 0 })]

theorem creditedCalls_flits (vc : Nat) :
    flitsOn vc (creditedCalls.map (·.2)) <+: (onFirst detouredPacket vc).flatMap BridgePacket.flits := by
  have keys : ∀ t ∈ creditedCalls.map (·.2), t.vc = 0 := by decide
  rw [flitsOn_own keys]
  cases vc with
  | zero => exact prefix_rfl
  | succ vc => exact nil_prefix

theorem creditedCalls_owed : (BridgePair.init (deserializer 8 4)).Owed creditedCalls := by
  intro before clock c after same mid reached
  rcases before with _ | ⟨first, _ | ⟨second, _ | ⟨third, rest⟩⟩⟩
  · cases (List.cons.inj same).1
  · cases (List.cons.inj (List.cons.inj same).2).1
  · obtain ⟨flits, credit⟩ := append_inj same rfl
    obtain ⟨last, -⟩ := List.cons.inj credit
    obtain ⟨-, own⟩ := Prod.mk.inj last
    obtain rfl := Traffic.credit.inj own
    rw [← flits] at reached ⊢
    have one : ((BridgePair.init (deserializer 8 4)).handleAll
        (detouredFlits.map fun f => (everyTick, Traffic.flit f))).map
          (fun p => (p.data.linkBuffer.filter fun t => t.vc = 0).length) = some 1 := by
      decide +kernel
    rw [reached] at one
    have count : (mid.data.linkBuffer.filter fun t => t.vc = 0).length = 1 := Option.some.inj one
    have none_before : (freesOn 0 ((detouredFlits.map fun f => (everyTick, Traffic.flit f)).map (·.2))).length = 0 := rfl
    show _ < (mid.data.linkBuffer.filter fun t => t.vc = 0).length
    rw [count, none_before]
    exact zero_lt_one
  · have length := congrArg List.length same
    simp [creditedCalls, detouredFlits] at length

theorem credits_returned_pair :
    ∃ p', (BridgePair.init (deserializer 8 4)).handleAll creditedCalls = some p' ∧
      CreditsReturned 8 (onFirst detouredPacket 0) detouredFlits
        (p'.data.linkBuffer.filter fun t => t.vc = 0) [true] (freesOn 0 p'.credit.linkBuffer) := by
  obtain ⟨p', done, returned⟩ := credits_returned (deserializer 8 4) (by decide) (Or.inl (by decide))
    (onFirst detouredPacket)
    (onFirst_forall (P := ExactBetween 4 8) ⟨by decide, by decide, by decide, by decide, by decide⟩)
    creditedCalls creditedCalls_flits creditedCalls_owed
  exact ⟨p', done, returned 0⟩

/-- The sum in `divCeil` rounds up, so that a message of two narrow flits has three. The last one leads
to no flit, and no credit for it comes back. -/
theorem credit_lost :
    5592408 * 2 = 11184816 ∧ 11184816 < 2 ^ 24 ∧ (BridgePacket.cut 11184816 5592408 0 {}).flits.length = 3 ∧
      (((BridgePair.init (deserializer 11184816 5592408)).handleAll
        ((BridgePacket.cut 11184816 5592408 0 {}).flits.map (fun f => (everyTick, Traffic.flit f)) ++
          [(everyTick, Traffic.credit { vc := 0, isFreeSignal := true, time := 0 })])).map fun p =>
        (p.data.linkBuffer.length, freesOn 0 p.credit.linkBuffer)) = some (1, [false, true]) := by
  decide +kernel

end Resister.Garnet
