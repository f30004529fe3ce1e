import Resister.Garnet.InputState
import Resister.Garnet.Places
import Resister.Network.GarnetNetwork

/-!
# How many packets are detoured

The Resister unit counts the packets it judges risky and the packets it tags for a detour.
-/

namespace Resister.Garnet

open Function (update update_self update_of_ne)

namespace InputUnit

variable {cfg : Config} {r l t : Nat} {draws : Draws} {f : Flit} {s s' : Net} {route : RouteInfo}

/-- The verdict on a head flit at port 0: the packet is not at its destination, and `riskFind` finds
its flow risky for the predicted port. -/
def risky (cfg : Config) (r l t : Nat) (draws : Draws) (f : Flit) (s : Net) : Bool :=
  if f.route.destRouter = r then false
  else
    match routeCompute cfg r 0 t draws.preGet ((cfg.links[l]?.map Link.inportDirn).getD .Unknown) f.route
        (record r t f s) with
    | .error _ => false
    | .ok (predicted, route, port) =>
      riskFind (predicted.history r) (historyEntry t route) (predicted.outBuf r) route.srcRouter route.destRouter
        Variant.all port

theorem record_counts (q : Nat) :
    ((record r t f s).stats q).riskCounts = (s.stats q).riskCounts ∧
      ((record r t f s).stats q).detourCounts = (s.stats q).detourCounts := by
  unfold record
  split
  · by_cases own : q = r
    · subst own
      simp
    · simp [own]
  · exact ⟨rfl, rfl⟩

theorem inspectResister_counts (result : inspectResister cfg r l t draws f s = .ok (s', route)) (q : Nat) :
    (s'.stats q).riskCounts =
        (s.stats q).riskCounts + (if q = r ∧ risky cfg r l t draws f s = true then 1 else 0) ∧
      (s'.stats q).detourCounts = (s.stats q).detourCounts +
        (if q = r ∧ risky cfg r l t draws f s = true ∧ chosenForDetour cfg draws = true then 1 else 0) ∧
      route.sTag =
        if risky cfg r l t draws f s = true ∧ chosenForDetour cfg draws = true then 1 else f.route.sTag := by
  have recorded := record_counts (r := r) (t := t) (f := f) (s := s) q
  unfold inspectResister at result
  dsimp only at result
  split at result
  · rename_i arrived
    cases result
    simp [risky, arrived, recorded]
  · rename_i elsewhere
    split at result
    · cases result
    · rename_i predicted route' port computed
      have stats : predicted.stats = (record r t f s).stats := congrArg InputState.stats (routeCompute_inputs computed)
      obtain ⟨_, found⟩ := routeCompute_ok computed
      have tag := RouteInfo.sTag_of_settled (RoutingUnit.settled_outportCompute found)
      have verdict : risky cfg r l t draws f s = riskFind (predicted.history r) (historyEntry t route')
          (predicted.outBuf r) route'.srcRouter route'.destRouter Variant.all port := by
        simp only [risky, if_neg elsewhere, computed]
      rw [← verdict] at result
      split at result
      · rename_i isRisky
        split at result
        · cases result
        · split at result
          · rename_i chosen
            cases result
            by_cases own : q = r
            · subst own
              simp [isRisky, chosen, stats, recorded, RouteInfo.setTag]
            · simp [own, isRisky, chosen, stats, recorded, RouteInfo.setTag]
          · rename_i spared
            cases result
            by_cases own : q = r
            · subst own
              simp [isRisky, spared, stats, recorded, tag]
            · simp [own, isRisky, spared, stats, recorded, tag]
      · rename_i harmless
        cases result
        simp [harmless, stats, recorded, tag]

theorem resolve_counts (resister : cfg.inputStruct = .resister) {port : Nat}
    (result : resolve cfg r 0 l t draws f s = .ok (s', route, port)) (q : Nat) :
    (s'.stats q).riskCounts = (s.stats q).riskCounts +
        (if q = r ∧ f.isHead = true ∧ risky cfg r l t draws f s = true then 1 else 0) ∧
      (s'.stats q).detourCounts = (s.stats q).detourCounts +
        (if q = r ∧ f.isHead = true ∧ risky cfg r l t draws f s = true ∧ chosenForDetour cfg draws = true then 1
          else 0) ∧
      route.sTag = if f.isHead = true ∧ risky cfg r l t draws f s = true ∧ chosenForDetour cfg draws = true then 1
        else f.route.sTag := by
  unfold resolve inspect at result
  rw [if_neg (by simp), resister] at result
  dsimp only at result
  cases head : f.isHead with
  | false =>
    rw [head] at result
    simp only [Bool.false_eq_true, if_false] at result
    cases result
    simp [RouteInfo.incrementHops]
  | true =>
    simp only [head, if_true] at result
    split at result
    · cases result
    · rename_i inspected seen looked
      have counts := inspectResister_counts looked q
      split at result
      · cases result
      · rename_i computed routed port' found
        cases result
        have stats : computed.stats = inspected.stats := congrArg InputState.stats (routeCompute_inputs found)
        obtain ⟨_, decided⟩ := routeCompute_ok found
        have tag := RouteInfo.sTag_of_settled (RoutingUnit.settled_outportCompute decided)
        have recorded : (recordOutport cfg r 0 port route computed).stats = computed.stats := by
          unfold recordOutport
          split <;> rfl
        have hops : seen.incrementHops.sTag = seen.sTag := rfl
        simp only [recorded, stats, tag, hops, counts, true_and, and_self]

theorem resolve_sTag_other {inport port : Nat} (other : inport ≠ 0)
    (result : resolve cfg r inport l t draws f s = .ok (s', route, port)) : route.sTag = f.route.sTag := by
  unfold resolve inspect at result
  rw [if_pos other] at result
  dsimp only at result
  split at result
  · split at result
    · cases result
    · rename_i found
      cases result
      obtain ⟨_, decided⟩ := routeCompute_ok found
      have tag := RouteInfo.sTag_of_settled (RoutingUnit.settled_outportCompute decided)
      exact tag
  · cases result
    rfl

theorem wakeup_stats (resister : cfg.inputStruct = .resister) (draws : Nat → Draws) (s : Net) :
    (wakeup cfg r t draws s (l, 0)).stats = s.stats ∨
      ∃ f rest after route port, s.flow.linkBuffer l = f :: rest ∧ f.time ≤ t ∧
        resolve cfg r 0 l t (draws 0) f s = .ok (after, route, port) ∧
        (wakeup cfg r t draws s (l, 0)).stats = after.stats := by
  unfold wakeup
  rw [if_neg (by simp [resister])]
  unfold wakeupPlain
  split
  · exact Or.inl rfl
  · rename_i f rest top
    split
    · rename_i ready
      have scheduled : ∀ (s : Net) condition c time, (s.scheduleIf condition c time).stats = s.stats :=
        fun s condition c time => congrArg InputState.stats (scheduleIf_inputs s condition c time)
      rw [scheduled]
      unfold accept
      split
      · exact Or.inl rfl
      · rename_i after route port resolved
        rw [scheduled]
        exact Or.inr ⟨f, rest, after, route, port, top, ready, resolved, rfl⟩
    · exact Or.inl rfl

end InputUnit

namespace Net

/-- Where an event makes a local input unit judge a packet risky, the draw is below `injRange`. -/
def DrawsBelow (cfg : Config) (s : Net) : Event → Prop
  | .router r t draws =>
    ∀ l others f rest, cfg.inLinks (.router r) = l :: others → s.flow.linkBuffer l = f :: rest → f.time ≤ t →
      f.isHead = true → InputUnit.risky cfg r l t (draws 0) f (s.woken (.router r) t) = true →
      RoutingUnit.getMyRandom 0 10000 (draws 0).trySending < 10000
  | _ => True

variable {cfg : Config}

theorem step_counts (resister : cfg.inputStruct = .resister) (s : Net) (e : Event) (q : Nat) :
    ((step cfg s e).stats q).riskCounts = (s.stats q).riskCounts ∧
        ((step cfg s e).stats q).detourCounts = (s.stats q).detourCounts ∨
      ∃ r t draws l others f rest, e = .router r t draws ∧ cfg.inLinks (.router r) = l :: others ∧
        s.flow.linkBuffer l = f :: rest ∧ f.time ≤ t ∧ f.isHead = true ∧
        InputUnit.risky cfg r l t (draws 0) f (s.woken (.router r) t) = true ∧
        ((step cfg s e).stats q).riskCounts = (s.stats q).riskCounts + 1 ∧
        ((step cfg s e).stats q).detourCounts =
          (s.stats q).detourCounts + if InputUnit.chosenForDetour cfg (draws 0) = true then 1 else 0 := by
  rcases @step_inputs cfg s e with same | ⟨r, t, draws, l, others, rfl, ports, -, -, changed⟩
  · have stats : (step cfg s e).stats = s.stats := congrArg InputState.stats same
    rw [stats]
    exact Or.inl ⟨rfl, rfl⟩
  · have stats : (step cfg s (.router r t draws)).stats =
        (InputUnit.wakeup cfg r t draws (s.woken (.router r) t) (l, 0)).stats :=
      congrArg InputState.stats changed
    rw [stats]
    rcases InputUnit.wakeup_stats resister draws (s.woken (.router r) t) with
      same | ⟨f, rest, after, route, port, top, ready, resolved, same⟩
    · exact Or.inl ⟨congrArg InputUnitStats.riskCounts (congrFun same q),
        congrArg InputUnitStats.detourCounts (congrFun same q)⟩
    · obtain ⟨risks, detours, -⟩ := InputUnit.resolve_counts resister resolved q
      rw [same, risks, detours]
      by_cases counted : q = r ∧ f.isHead = true ∧
          InputUnit.risky cfg r l t (draws 0) f (s.woken (.router r) t) = true
      · refine Or.inr ⟨r, t, draws, l, others, f, rest, rfl, ports, top, ready, counted.2.1, counted.2.2, ?_, ?_⟩
        · rw [if_pos counted]
          rfl
        · simp only [counted.1, counted.2.1, counted.2.2, true_and]
          rfl
      · refine Or.inl ⟨?_, ?_⟩
        · rw [if_neg counted]
          rfl
        · rw [if_neg fun all => counted ⟨all.1, all.2.1, all.2.2.1⟩]
          rfl

/-- A packet that the local input unit judges risky leaves the unit with a tag, unless the simulation
stops there. -/
def TagsRisky (cfg : Config) (s : Net) : Event → Prop
  | .router r t draws =>
    ∀ l others f rest, cfg.inLinks (.router r) = l :: others → s.flow.linkBuffer l = f :: rest → f.time ≤ t →
      f.isHead = true → InputUnit.risky cfg r l t (draws 0) f (s.woken (.router r) t) = true →
      (InputUnit.wakeup cfg r t draws (s.woken (.router r) t) (l, 0)).flow.faults = [] →
      ∃ g ∈ ((InputUnit.wakeup cfg r t draws (s.woken (.router r) t) (l, 0)).flow.virtualChannels
        (l, f.vc)).inputBuffer, g.key = f.key ∧ g.route.sTag = 1
  | _ => True

theorem tagsRisky_of_chosen (resister : cfg.inputStruct = .resister) {s : Net} {r t : Nat} {draws : Nat → Draws}
    (chosen : InputUnit.chosenForDetour cfg (draws 0) = true) : TagsRisky cfg s (.router r t draws) := by
  intro l others f rest _ top ready head isRisky running
  have woken : (s.woken (.router r) t).flow.linkBuffer l = f :: rest := top
  have accepted : (InputUnit.wakeup cfg r t draws (s.woken (.router r) t) (l, 0)).flow =
      (InputUnit.accept cfg r 0 l t (draws 0) f rest (s.woken (.router r) t)).flow := by
    unfold InputUnit.wakeup
    rw [if_neg (by simp [resister])]
    unfold InputUnit.wakeupPlain
    simp only [woken, if_pos ready, scheduleIf_flow]
  rw [accepted] at running ⊢
  unfold InputUnit.accept at running ⊢
  split at running
  · cases running
  · rename_i after route port resolved
    rw [scheduleIf_flow]
    have tag := (InputUnit.resolve_counts resister resolved r).2.2
    rw [if_pos ⟨head, isRisky, chosen⟩] at tag
    refine ⟨{ f with route := route, stage := (.sa, t + cfg.pipeDelay r) }, ?_, ?_, tag⟩
    · simp [Flow.receive]
    · exact congrArg (·, f.id) (Flit.packet_eq_of_fixed (InputUnit.resolve_fixed resolved))

theorem chosenForDetour_iff (draws : Draws) :
    InputUnit.chosenForDetour cfg draws = true ↔
      RoutingUnit.getMyRandom 0 10000 draws.trySending < cfg.detourThreshold := decide_eq_true_iff

theorem run_counts_eq (resister : cfg.inputStruct = .resister) (full : cfg.detourThreshold = 10000)
    {events : List Event} (below : ∀ past e, past ++ [e] <+: events → DrawsBelow cfg (run cfg past) e) (r : Nat) :
    ((run cfg events).stats r).detourCounts = ((run cfg events).stats r).riskCounts := by
  induction events using List.reverseRecOn with
  | nil => rfl
  | append_singleton past e ih =>
    have equal := ih fun earlier e' before => below earlier e' (before.trans (List.prefix_append ..))
    rw [run_concat]
    rcases step_counts resister (run cfg past) e r with
      ⟨risks, detours⟩ | ⟨q, t, draws, l, others, f, rest, rfl, ports, top, ready, head, isRisky, risks, detours⟩
    · rw [risks, detours, equal]
    · have draw := below past _ List.prefix_rfl l others f rest ports top ready head isRisky
      rw [risks, detours, equal, if_pos ((chosenForDetour_iff _).mpr (full ▸ draw))]

theorem run_detourCounts_zero (resister : cfg.inputStruct = .resister) (none : cfg.detourThreshold = 0)
    (events : List Event) (r : Nat) : ((run cfg events).stats r).detourCounts = 0 := by
  induction events using List.reverseRecOn with
  | nil => rfl
  | append_singleton past e ih =>
    rw [run_concat]
    rcases step_counts resister (run cfg past) e r with
      ⟨-, detours⟩ | ⟨q, t, draws, l, others, f, rest, rfl, -, -, -, -, -, -, detours⟩
    · rw [detours, ih]
    · have spared : ¬ InputUnit.chosenForDetour cfg (draws 0) = true := by
        rw [chosenForDetour_iff, none]
        exact Nat.not_lt_zero _
      rw [detours, ih, if_neg spared]

theorem run_untagged (resister : cfg.inputStruct = .resister) (none : cfg.detourThreshold = 0)
    (events : List Event) : ∀ x, ∀ f ∈ (run cfg events).flow.flitsAt x, f.route.sTag = 0 := by
  have follows : Follows cfg (fun _ f route _ => f.route.sTag = 0 → route.sTag = 0) events := by
    refine follows_of_resolve (fun {r inport l t draws f s after route outport} _ _ resolved untagged => ?_) events
    by_cases local_ : inport = 0
    · subst local_
      have tag := (InputUnit.resolve_counts resister resolved r).2.2
      rw [tag, if_neg, untagged]
      rintro ⟨-, -, chosen⟩
      rw [chosenForDetour_iff, none] at chosen
      exact Nat.not_lt_zero _ chosen
    · rw [InputUnit.resolve_sTag_other local_ resolved, untagged]
  exact Reachable.routes (G := fun route => route.sTag = 0) (fun start => start.untagged) id
    (fun kept => kept) (run_reachable follows)

end Net

/-- Counters and tags in Resister mode. With `CALI = 1.0` the two counters agree and every risky packet is
tagged, as long as no draw for a risky packet is the upper end of the interval; with `CALI = 0` nothing is
tagged. -/
theorem detour_rate {cfg : Config} (resister : cfg.inputStruct = .resister) (events : List Event) :
    (cfg.detourThreshold = 10000 →
      (∀ past e, past ++ [e] <+: events → Net.DrawsBelow cfg (Net.run cfg past) e) →
        (∀ r, ((Net.run cfg events).stats r).detourCounts = ((Net.run cfg events).stats r).riskCounts) ∧
          ∀ past e, past ++ [e] <+: events → Net.TagsRisky cfg (Net.run cfg past) e) ∧
    (cfg.detourThreshold = 0 →
      (∀ r, ((Net.run cfg events).stats r).detourCounts = 0) ∧
        ∀ x, ∀ f ∈ (Net.run cfg events).flow.flitsAt x, f.route.sTag = 0) := by
  refine ⟨fun full below => ⟨Net.run_counts_eq resister full below, fun past e before => ?_⟩,
    fun none => ⟨Net.run_detourCounts_zero resister none events, Net.run_untagged resister none events⟩⟩
  cases e with
  | router r t draws =>
    intro l others f rest ports top ready head isRisky
    have draw := below past _ before l others f rest ports top ready head isRisky
    have chosen := (Net.chosenForDetour_iff (draws 0)).mpr (full ▸ draw)
    exact Net.tagsRisky_of_chosen resister chosen l others f rest ports top ready head isRisky
  | _ => trivial

/-- A packet of one flit from interface 0 to interface 1 passes the local input unit of router 0, which
draws `raw` for it. -/
def resisterPacket (raw k : Nat) : List Event :=
  let t := 1000 + 3000 * k
  [.protocol 0 0 [⟨64, NetDest.empty.add ⟨0, 1⟩, t⟩], .ni 0 t, .link 0 (t + 500),
    .router 0 (t + 1000) fun _ => { trySending := raw }]

def eightPackets (raw : Nat) : List Event := (List.range 8).flatMap (resisterPacket raw)

theorem eightPackets_drawsBelow (s : Net) : ∀ e ∈ eightPackets 0, s.DrawsBelow resisterPair e := by
  intro e listed
  obtain ⟨k, -, listed⟩ := List.mem_flatMap.mp listed
  simp only [resisterPacket, List.mem_cons, List.not_mem_nil, or_false] at listed
  rcases listed with rfl | rfl | rfl | rfl
  · trivial
  · trivial
  · trivial
  · intro l others f rest _ _ _ _ _
    show RoutingUnit.getMyRandom 0 10000 0 < 10000
    decide

theorem detour_rate_eightPackets :
    ((Net.run resisterPair (eightPackets 0)).stats 0).riskCounts = 1 ∧
      ((Net.run resisterPair (eightPackets 0)).stats 0).detourCounts =
        ((Net.run resisterPair (eightPackets 0)).stats 0).riskCounts :=
  ⟨by decide +kernel, (((detour_rate rfl (eightPackets 0)).1 rfl fun past e before =>
    eightPackets_drawsBelow _ e (before.subset (List.mem_append_right past List.mem_cons_self))).1 0)⟩

/-- The draw may be 10000, and then a risky packet is not tagged although `CALI = 1.0`. -/
theorem detour_rate_missed :
    resisterPair.inputStruct = .resister ∧ resisterPair.detourThreshold = 10000 ∧
      RoutingUnit.getMyRandom 0 10000 10000 = 10000 ∧
      ((Net.run resisterPair (eightPackets 10000)).stats 0).riskCounts = 1 ∧
      ((Net.run resisterPair (eightPackets 10000)).stats 0).detourCounts = 0 ∧
      (Net.run resisterPair (eightPackets 10000)).flow.faults = [] := by
  refine ⟨rfl, rfl, by decide, ?_, ?_, ?_⟩
  · decide +kernel
  · decide +kernel
  · decide +kernel

end Resister.Garnet
