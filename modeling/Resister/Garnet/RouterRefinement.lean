import Resister.Garnet.Steps

/-!
# Wakeups of links and routers as sequences of actions

A wakeup changes the state of flow control by a sequence of the actions of `Act`.
-/

namespace Resister.Garnet

open List Option

namespace RouteInfo

theorem fixed_incrementHops (route : RouteInfo) :
    route.incrementHops.fixed = route.fixed.incrementHops := rfl

@[simp] theorem fixed_setTag (route : RouteInfo) (tag : Nat) : (route.setTag tag).fixed = route.fixed := rfl

def settled (route : RouteInfo) : RouteInfo := { route with interRoute := none, passedMid := false }

@[simp] theorem settled_setInter (route : RouteInfo) (inter : Nat) :
    (route.setInter inter).settled = route.settled := rfl

@[simp] theorem settled_setPassed (route : RouteInfo) : route.setPassed.settled = route.settled := rfl

theorem fixed_of_settled {route routed : RouteInfo} (same : routed.settled = route.settled) :
    routed.fixed = route.fixed := by
  simp only [settled, RouteInfo.mk.injEq] at same
  simp [fixed, same]

theorem sTag_of_settled {route routed : RouteInfo} (same : routed.settled = route.settled) :
    routed.sTag = route.sTag := by
  have tags : routed.settled.sTag = route.settled.sTag := by rw [same]
  exact tags

end RouteInfo

namespace RoutingUnit

variable {u : RoutingUnit} {route routed : RouteInfo} {dirn : PortDirection}

@[simp] theorem settled_markPassed : (u.markPassed route).settled = route.settled := by
  unfold markPassed
  split <;> simp

theorem settled_valiantInter {raw : Nat} (result : u.valiantInter route raw = .ok routed) :
    routed.settled = route.settled := by
  unfold valiantInter at result
  dsimp only at result
  split at result
  · split at result <;> cases result
    simp
  · split at result
    · split at result <;> cases result
      simp
    · split at result
      · split at result <;> cases result
        simp
      · cases result
        rfl

theorem settled_oriValiantInter {raw : Nat} (result : u.oriValiantInter route raw = .ok routed) :
    routed.settled = route.settled := by
  unfold oriValiantInter at result
  dsimp only at result
  split at result <;> cases result
  simp

theorem settled_valiantWalk {inter : RouteInfo → Except Abort RouteInfo}
    (keeps : ∀ {a b}, inter a = .ok b → b.settled = a.settled)
    (result : u.valiantWalk inter route = .ok (routed, dirn)) : routed.settled = route.settled := by
  unfold valiantWalk at result
  split at result
  · obtain ⟨_, -, same⟩ := map_ok result
    cases same
    rfl
  · dsimp only at result
    split at result
    · split at result
      · split at result
        · rename_i chosen
          obtain ⟨_, -, same⟩ := map_ok result
          cases same
          rw [keeps chosen, settled_markPassed]
        · cases result
      · cases result
    · obtain ⟨_, -, same⟩ := map_ok result
      cases same
      exact settled_markPassed

theorem settled_computeDirn {call : RoutingCall} {inportDirn : PortDirection} {st : RoutingState}
    (result : u.computeDirn call route inportDirn = .ok (st, routed, dirn)) :
    routed.settled = route.settled := by
  unfold computeDirn at result
  split at result
  · obtain ⟨_, -, same⟩ := map_ok result
    cases same
    rfl
  · obtain ⟨_, -, same⟩ := map_ok result
    cases same
    rfl
  · obtain ⟨_, -, same⟩ := map_ok result
    cases same
    rfl
  · obtain ⟨_, -, same⟩ := map_ok result
    cases same
    rfl
  · obtain ⟨_, -, same⟩ := map_ok result
    cases same
    rfl
  · obtain ⟨⟨walked, towards⟩, walk, same⟩ := map_ok result
    cases same
    exact settled_valiantWalk settled_valiantInter walk
  · obtain ⟨⟨walked, towards⟩, walk, same⟩ := map_ok result
    cases same
    exact settled_valiantWalk settled_oriValiantInter walk
  · cases result
  · cases result

theorem settled_outportCompute {call : RoutingCall} {inportDirn : PortDirection} {st : RoutingState}
    {port : Nat} (result : u.outportCompute call route inportDirn = .ok (st, routed, port)) :
    routed.settled = route.settled := by
  unfold outportCompute at result
  split at result
  · obtain ⟨_, -, same⟩ := map_ok result
    cases same
    rfl
  · split at result
    · obtain ⟨_, -, same⟩ := map_ok result
      cases same
      rfl
    · obtain ⟨⟨after, walked, towards⟩, computed, same⟩ := map_ok result
      cases same
      exact settled_computeDirn computed

end RoutingUnit

namespace InputUnit

variable {cfg : Config} {r inport l t : Nat} {draws : Draws} {f : Flit} {s s' : Net}
  {route : RouteInfo} {port : Nat}

theorem routeCompute_ok {raw : Nat} {dirn : PortDirection} {routed : RouteInfo}
    (result : routeCompute cfg r inport t raw dirn route s = .ok (s', routed, port)) :
    ∃ after, (cfg.routingUnit r).outportCompute
      ⟨⟨s.routerr, s.counterr, s.patternTable r⟩, inport, t, raw⟩ route dirn = .ok (after, routed, port) := by
  unfold routeCompute at result
  dsimp only at result
  split at result
  · cases result
  · rename_i computed
    cases result
    exact ⟨_, computed⟩

theorem fixed_inspectResister (result : inspectResister cfg r l t draws f s = .ok (s', route)) :
    route.fixed = f.route.fixed := by
  unfold inspectResister at result
  dsimp only at result
  split at result
  · cases result
    rfl
  · split at result
    · cases result
    · rename_i predicted
      obtain ⟨_, computed⟩ := routeCompute_ok predicted
      have same := RouteInfo.fixed_of_settled (RoutingUnit.settled_outportCompute computed)
      split at result
      · split at result
        · cases result
        · split at result
          · cases result
            simpa using same
          · cases result
            exact same
      · cases result
        exact same

theorem inspect_route (result : inspect cfg r inport l t draws f s = .ok (s', route)) :
    route.fixed = f.route.fixed ∧ (f.isHead = false → route = f.route) := by
  unfold inspect at result
  split at result
  · cases result
    exact ⟨rfl, fun _ => rfl⟩
  · split at result
    · cases result
      exact ⟨rfl, fun _ => rfl⟩
    · split at result
      · rename_i head
        exact ⟨fixed_inspectResister result, fun body => by simp [head] at body⟩
      · cases result
        exact ⟨rfl, fun _ => rfl⟩
    · split at result
      · rename_i head
        exact ⟨fixed_inspectResister result, fun body => by simp [head] at body⟩
      · cases result
        exact ⟨rfl, fun _ => rfl⟩
    · split at result
      · rename_i head
        cases result
        exact ⟨rfl, fun body => by simp [body] at head⟩
      · cases result
        exact ⟨rfl, fun _ => rfl⟩
    · split at result <;> cases result <;> exact ⟨rfl, fun _ => rfl⟩

theorem resolve_head (head : f.isHead = true) (result : resolve cfg r inport l t draws f s = .ok (s', route, port)) :
    ∃ inspected seen call after, inspect cfg r inport l t draws f s = .ok (inspected, seen) ∧
      (cfg.routingUnit r).outportCompute call seen.incrementHops
        ((cfg.links[l]?.map Link.inportDirn).getD .Unknown) = .ok (after, route, port) := by
  unfold resolve at result
  split at result
  · cases result
  · rename_i inspected
    rw [if_pos head] at result
    dsimp only at result
    split at result
    · cases result
    · rename_i computed
      cases result
      obtain ⟨after, computed⟩ := routeCompute_ok computed
      exact ⟨_, _, _, after, inspected, computed⟩

theorem resolve_body (body : f.isHead = false) (result : resolve cfg r inport l t draws f s = .ok (s', route, port)) :
    route = f.route.incrementHops := by
  unfold resolve at result
  split at result
  · cases result
  · rename_i inspected
    rw [if_neg (by simp [body])] at result
    cases result
    rw [(inspect_route inspected).2 body]

theorem resolve_fixed (result : resolve cfg r inport l t draws f s = .ok (s', route, port)) :
    route.fixed = f.route.incrementHops.fixed := by
  cases head : f.isHead with
  | true =>
    obtain ⟨_, seen, _, _, inspected, computed⟩ := resolve_head head result
    rw [RouteInfo.fixed_of_settled (RoutingUnit.settled_outportCompute computed), RouteInfo.fixed_incrementHops,
      (inspect_route inspected).1, RouteInfo.fixed_incrementHops]
  | false => rw [resolve_body head result]

theorem routeCompute_error {raw : Nat} {dirn : PortDirection} {fault : Fault}
    (result : routeCompute cfg r inport t raw dirn route s = .error fault) : fault.isFlowControl = false := by
  unfold routeCompute at result
  dsimp only at result
  split at result <;> cases result
  rfl

theorem inspect_error {fault : Fault} (result : inspect cfg r inport l t draws f s = .error fault) :
    fault.isFlowControl = false := by
  have resister : inspectResister cfg r l t draws f s = .error fault → fault.isFlowControl = false := by
    intro result
    unfold inspectResister at result
    dsimp only at result
    split at result
    · cases result
    · split at result
      · rename_i failed
        cases result
        exact routeCompute_error failed
      · split at result
        · split at result
          · cases result
            rfl
          · split at result <;> cases result
        · cases result
  unfold inspect at result
  split at result
  · cases result
  · split at result
    · cases result
    · split at result
      · exact resister result
      · cases result
    · split at result
      · exact resister result
      · cases result
    · split at result <;> cases result
    · split at result <;> cases result

theorem resolve_error {fault : Fault} (result : resolve cfg r inport l t draws f s = .error fault) :
    fault.isFlowControl = false := by
  unfold resolve at result
  split at result
  · rename_i failed
    cases result
    exact inspect_error failed
  · split at result
    · dsimp only at result
      split at result
      · rename_i failed
        cases result
        exact routeCompute_error failed
      · cases result
    · cases result

end InputUnit

/-- Every decision that the input units make during a router's wakeup satisfies `R`. The token of
the TDMA unit has no influence on it. -/
def InputUnit.Decide (cfg : Config) (R : Nat → Flit → RouteInfo → Nat → Prop) (r t : Nat)
    (draws : Nat → Draws) : List (Nat × Nat) → Net → Prop
  | [], _ => True
  | port :: more, s =>
    (∀ tdma f rest after route outport, s.flow.linkBuffer port.1 = f :: rest → f.isHead = true →
      resolve cfg r port.2 port.1 t (draws port.2) f { s with tdma := tdma } = .ok (after, route, outport) →
      R port.1 f route outport) ∧
    Decide cfg R r t draws more (wakeup cfg r t draws s port)

section Wakeups

variable {cfg : Config} {R : Nat → Flit → RouteInfo → Nat → Prop}

theorem foldl_acts {α : Type} {body : Net → α → Net} (P : Net → Prop) (xs : List α)
    (step : ∀ x ∈ xs, ∀ s, P s → Acts cfg R s.flow (body s x).flow ∧ P (body s x)) {s : Net} (start : P s) :
    Acts cfg R s.flow (xs.foldl body s).flow ∧ P (xs.foldl body s) := by
  induction xs generalizing s with
  | nil => exact ⟨.refl, start⟩
  | cons x xs ih =>
    obtain ⟨first, next⟩ := step x mem_cons_self s start
    obtain ⟨rest, last⟩ := ih (fun y later => step y (mem_cons_of_mem _ later)) next
    exact ⟨first.trans rest, last⟩

theorem foldl_acts_plain {α : Type} {body : Net → α → Net} (xs : List α)
    (step : ∀ x ∈ xs, ∀ s, Acts cfg R s.flow (body s x).flow) {s : Net} :
    Acts cfg R s.flow (xs.foldl body s).flow :=
  (foldl_acts (fun _ => True) xs (fun x present s _ => ⟨step x present s, trivial⟩) trivial).1

theorem linkWakeup_acts (l t : Nat) (s : Net) : Acts cfg R s.flow (linkWakeup cfg l t s).flow := by
  unfold linkWakeup
  split
  · exact .refl
  · split
    · exact .refl
    · rename_i top
      split
      · dsimp only
        rw [Net.scheduleIf_flow, Net.schedule_flow]
        split
        · exact .single (.link top _)
        · exact (Acts.single (.link top _)).trans (.single (.fail rfl))
      · exact .refl

theorem creditLinkWakeup_acts (l t : Nat) (s : Net) :
    Acts cfg R s.flow (creditLinkWakeup cfg l t s).flow := by
  unfold creditLinkWakeup
  split
  · exact .refl
  · split
    · exact .refl
    · rename_i top
      split
      · dsimp only
        rw [Net.scheduleIf_flow, Net.schedule_flow]
        exact .single (.creditLink top _)
      · exact .refl

theorem outputUnitWakeup_acts (l t : Nat) (s : Net) : Acts cfg R s.flow (OutputUnit.wakeup cfg t s l).flow := by
  unfold OutputUnit.wakeup
  split
  · exact .refl
  · rename_i top
    split
    · dsimp only
      rw [Net.scheduleIf_flow]
      exact .single (.credit top t)
    · exact .refl

theorem checkCreditLink_acts (l t : Nat) (s : Net) :
    Acts cfg R s.flow (NetworkInterface.checkCreditLink t s l).flow := by
  unfold NetworkInterface.checkCreditLink
  split
  · exact .refl
  · rename_i top
    split
    · exact .single (.credit top t)
    · exact .refl

section Inputs

variable {r l t : Nat} {draws : Nat → Draws}

def ActsAt (cfg : Config) (R : Nat → Flit → RouteInfo → Nat → Prop) (l : Nat) (s s' : Flow) : Prop :=
  Acts cfg R s s' ∧ ∀ c : Nat × Nat, c.1 ≠ l → s'.virtualChannels c = s.virtualChannels c

theorem ActsAt.refl {s : Flow} : ActsAt cfg R l s s := ⟨.refl, fun _ _ => rfl⟩

theorem accept_acts (s : Net) {inport : Nat} {draw : Draws} {f : Flit} {rest : List Flit}
    (sink : cfg.sink l = some (.router r)) (now : s.flow.due (.router r) = t + 1)
    (once : ∀ w, ∀ g ∈ (s.flow.virtualChannels (l, w)).inputBuffer, g.stage.2 < t + cfg.pipeDelay r)
    (top : s.flow.linkBuffer l = f :: rest) (ready : f.time ≤ t) (decided : ∀ after route outport, f.isHead = true →
      InputUnit.resolve cfg r inport l t draw f s = .ok (after, route, outport) → R l f route outport) :
    ActsAt cfg R l s.flow (InputUnit.accept cfg r inport l t draw f rest s).flow := by
  unfold InputUnit.accept
  split
  · rename_i failed
    exact ⟨.single (.fail (InputUnit.resolve_error failed)), fun _ _ => rfl⟩
  · rename_i resolved
    dsimp only
    rw [Net.scheduleIf_flow]
    refine ⟨.single (.receive sink now top ready (InputUnit.resolve_fixed resolved)
      (fun body => InputUnit.resolve_body body resolved) (fun head => decided _ _ _ head resolved) once),
      fun c other => ?_⟩
    exact Function.update_of_ne (fun same => other (congrArg Prod.fst same)) _ _

theorem inputWakeup_acts {port : Nat × Nat} {s : Net} (sink : cfg.sink port.1 = some (.router r))
    (now : s.flow.due (.router r) = t + 1)
    (once : ∀ w, ∀ g ∈ (s.flow.virtualChannels (port.1, w)).inputBuffer, g.stage.2 < t + cfg.pipeDelay r)
    (decided : ∀ tdma f rest after route outport, s.flow.linkBuffer port.1 = f :: rest → f.isHead = true →
      InputUnit.resolve cfg r port.2 port.1 t (draws port.2) f { s with tdma := tdma } =
        .ok (after, route, outport) → R port.1 f route outport) :
    ActsAt cfg R port.1 s.flow (InputUnit.wakeup cfg r t draws s port).flow := by
  unfold InputUnit.wakeup
  split
  · rename_i local0
    unfold InputUnit.wakeupTdma
    split
    · exact ⟨.single (.fail rfl), fun _ _ => rfl⟩
    · -- The token changes neither the links nor the routes.
      have started : ∃ tdma, InputUnit.tdmaInit r s = { s with tdma := tdma } := by
        unfold InputUnit.tdmaInit
        split
        · exact ⟨s.tdma, rfl⟩
        · exact ⟨_, rfl⟩
      obtain ⟨tdma, same⟩ := started
      have served : ActsAt cfg R port.1 s.flow
          (InputUnit.tdmaConsume cfg r port.1 t (draws 0) (InputUnit.tdmaInit r s)).flow := by
        rw [same]
        unfold InputUnit.tdmaConsume
        split
        · exact .refl
        · rename_i f rest top
          split
          · rename_i holds
            have accepted : ActsAt cfg R port.1 s.flow (InputUnit.accept cfg r port.2 port.1 t (draws port.2) f rest
                { s with tdma := tdma }).flow :=
              accept_acts { s with tdma := tdma } sink now once top holds.1
                fun after route outport head => decided tdma _ _ after route outport top head
            rw [local0.2] at accepted
            exact accepted
          · exact .refl
      dsimp only
      split
      · split
        · exact served
        · exact served
      · rw [same]
        exact .refl
  · unfold InputUnit.wakeupPlain
    split
    · exact .refl
    · rename_i top
      split
      · rename_i ready
        rw [Net.scheduleIf_flow]
        exact accept_acts s sink now once top ready
          fun after route outport head => decided s.tdma _ _ after route outport top head
      · exact .refl

theorem inputUnits_acts {ports : List (Nat × Nat)} {s : Net} (distinct : (ports.map Prod.fst).Nodup)
    (sinks : ∀ port ∈ ports, cfg.sink port.1 = some (.router r)) (now : s.flow.due (.router r) = t + 1)
    (once : ∀ port ∈ ports, ∀ w, ∀ g ∈ (s.flow.virtualChannels (port.1, w)).inputBuffer,
      g.stage.2 < t + cfg.pipeDelay r)
    (decided : InputUnit.Decide cfg R r t draws ports s) :
    Acts cfg R s.flow (ports.foldl (InputUnit.wakeup cfg r t draws) s).flow := by
  induction ports generalizing s with
  | nil => exact .refl
  | cons port ports ih =>
    obtain ⟨first, others⟩ :=
      inputWakeup_acts (sinks port mem_cons_self) now (once port mem_cons_self) decided.1
    have distinct := nodup_cons.mp distinct
    refine first.trans (ih distinct.2 (fun other later => sinks other (mem_cons_of_mem _ later))
      (by rw [first.due_eq]; exact now) (fun other later w => ?_) decided.2)
    rw [others (other.1, w) fun same => distinct.1 (mem_map.mpr ⟨other, later, same⟩)]
    exact once other (mem_cons_of_mem _ later) w

end Inputs

section Allocation

open SwitchAllocator

variable {r t : Nat}

theorem request_cases {s : Flow} {l invc outport : Nat} (asked : request cfg s r t l invc = some outport) :
    (s.virtualChannels (l, invc)).needStage .sa t = true ∧
      (s.virtualChannels (l, invc)).outputPort = some outport ∧
      ∃ out, (cfg.outLinks (.router r))[outport]? = some out ∧
        sendAllowed cfg s t l invc outport out = true := by
  unfold request at asked
  dsimp only at asked
  split at asked
  · obtain ⟨port, allowed⟩ := filter_eq_some_iff.mp asked
    refine ⟨‹_›, port, ?_⟩
    simpa [Option.any_eq_true] using allowed
  · cases asked

theorem freeVc_cases {s : Flow} {l vnet w : Nat} (found : OutputUnit.freeVc cfg s l vnet t = some w) :
    cfg.vnetOf w = vnet ∧ (s.outVcState (l, w)).state = .idle := by
  refine ⟨Config.mem_vcsOf.mp (mem_of_find?_eq_some found), ?_⟩
  have idle := List.find?_some found
  simp only [OutVcState.isInState, Bool.and_eq_true, beq_iff_eq] at idle
  exact idle.1

theorem grant_acts {s : Net} {l invc outport out : Nat} (sink : cfg.sink l = some (.router r))
    (now : s.flow.due (.router r) = t + 1) (port : (cfg.outLinks (.router r))[outport]? = some out)
    (asked : request cfg s.flow r t l invc = some outport) :
    ∃ w f rest, Acts cfg R s.flow (grant cfg r t l invc outport out s).flow ∧
      (grant cfg r t l invc outport out s).flow = s.flow.grant t outport (l, invc) (out, w) f rest := by
  obtain ⟨stage, chosen, out', port', allowed⟩ := request_cases asked
  obtain rfl : out = out' := Option.some.inj (port.symm.trans port')
  obtain ⟨f, rest, top, ready, -, staged⟩ := VirtualChannel.needStage_iff.mp stage
  simp only [sendAllowed, Bool.and_eq_true, Bool.not_eq_true', Bool.and_eq_false_imp] at allowed
  have target : cfg.target l (some outport) = some out := by
    rw [Config.target_of_router sink]
    exact port
  have act : ∀ w, outputVcFor cfg s.flow t l invc out = some w →
      Grantable cfg s.flow t outport (l, invc) (out, w) := by
    intro w selected
    unfold outputVcFor at selected
    refine ⟨chosen, target, ?_, ?_, allowed.2⟩
    · intro own owned
      rw [owned] at selected allowed
      cases selected
      exact ⟨rfl, by simpa [OutVcState.hasCredit] using allowed.1⟩
    · intro unowned
      rw [unowned] at selected
      exact freeVc_cases selected
  have selected : ∃ w, outputVcFor cfg s.flow t l invc out = some w := by
    unfold outputVcFor
    split
    · exact ⟨_, rfl⟩
    · rename_i unowned
      rw [unowned] at allowed
      exact isSome_iff_exists.mp allowed.1
  obtain ⟨w, selected⟩ := selected
  have result : (grant cfg r t l invc outport out s).flow =
      s.flow.grant t outport (l, invc) (out, w) f rest := by
    simp [grant, selected, top]
  exact ⟨w, f, rest, by rw [result]; exact .single (.grant sink now top ready staged (act w selected)), result⟩

theorem request_congr {s s' : Flow} {l invc outport out : Nat}
    (port : (cfg.outLinks (.router r))[outport]? = some out)
    (inputs : ∀ v, s'.virtualChannels (l, v) = s.virtualChannels (l, v))
    (outputs : ∀ w, s'.outVcState (out, w) = s.outVcState (out, w))
    (asked : request cfg s r t l invc = some outport) : request cfg s' r t l invc = some outport := by
  have chosen := (request_cases asked).2.1
  rw [← asked]
  simp only [request, inputs, chosen, filter_some, port, any_some, sendAllowed, overtakes,
    OutputUnit.freeVc, outputs]

theorem arbitrateOutports_acts {ports : List (Nat × Nat)}
    (listed : ∀ q ∈ ports, (cfg.outLinks (.router r))[q.2]? = some q.1)
    (outs : (ports.map Prod.fst).Nodup) (acc : Net × (Nat → Option (Nat × Nat)))
    (now : acc.1.flow.due (.router r) = t + 1)
    (asking : ∀ l outport invc, acc.2 l = some (outport, invc) → cfg.sink l = some (.router r) ∧
      (outport ∈ ports.map Prod.snd → request cfg acc.1.flow r t l invc = some outport)) :
    Acts cfg R acc.1.flow (ports.foldl (arbitrateOutport cfg r t) acc).1.flow := by
  induction ports generalizing acc with
  | nil => exact .refl
  | cons port ports ih =>
    obtain ⟨s, requests⟩ := acc
    obtain ⟨out, outport⟩ := port
    have later : ∀ q ∈ ports, (cfg.outLinks (.router r))[q.2]? = some q.1 :=
      fun q present => listed q (mem_cons_of_mem _ present)
    rw [foldl_cons]
    cases found : (rotation (s.roundRobinInport out) (cfg.inLinks (.router r))).findSome? fun l =>
        (requests l).bind fun wish => if wish.1 = outport then some (l, wish.2) else none with
    | none =>
      have unchanged : arbitrateOutport cfg r t (s, requests) (out, outport) = (s, requests) := by
        simp only [arbitrateOutport, found]
      rw [unchanged]
      refine ih later (nodup_cons.mp outs).2 (s, requests) now fun l p invc asked => ?_
      exact ⟨(asking l p invc asked).1,
        fun present => (asking l p invc asked).2 (mem_cons_of_mem _ present)⟩
    | some winner =>
      obtain ⟨l, invc⟩ := winner
      obtain ⟨l', -, wish⟩ := exists_of_findSome?_eq_some found
      obtain ⟨⟨p, v⟩, asked, here⟩ := bind_eq_some_iff.mp wish
      split at here
      · rename_i same
        cases here
        obtain rfl : p = outport := same
        have step : arbitrateOutport cfg r t (s, requests) (out, p) =
            (grant cfg r t l v p out s, Function.update requests l none) := by
          simp only [arbitrateOutport, found]
        rw [step]
        obtain ⟨sink, request⟩ := asking l p v asked
        have port := listed (out, p) mem_cons_self
        obtain ⟨w, f, rest, act, result⟩ := grant_acts (R := R) (s := s) sink now port
          (request (mem_cons_self ..))
        refine act.trans (ih later (nodup_cons.mp outs).2
          (grant cfg r t l v p out s, Function.update requests l none)
          (by rw [act.due_eq]; exact now) fun l₂ p₂ v₂ asked₂ => ?_)
        have other : l₂ ≠ l := by
          rintro rfl
          simp at asked₂
        simp only [Function.update_of_ne other] at asked₂
        refine ⟨(asking l₂ p₂ v₂ asked₂).1, fun present => ?_⟩
        obtain ⟨⟨out₂, _⟩, there, rfl⟩ := mem_map.mp present
        have different : out₂ ≠ out := by
          rintro rfl
          exact (nodup_cons.mp outs).1 (mem_map.mpr ⟨_, there, rfl⟩)
        refine request_congr (later _ there) ?_ ?_
          ((asking l₂ _ v₂ asked₂).2 (mem_cons_of_mem _ present))
        · intro x
          rw [result]
          simp [Flow.grant, other]
        · intro x
          rw [result]
          simp [Flow.grant, different]
      · cases here

theorem allocator_acts (s : Net) (now : s.flow.due (.router r) = t + 1) :
    Acts cfg R s.flow (SwitchAllocator.wakeup cfg r t s).flow := by
  unfold SwitchAllocator.wakeup checkForWakeup
  dsimp only
  rw [Net.scheduleIf_flow]
  have asserted : Acts cfg R s.flow (s.flow.assertAllocation cfg r t) := .single (.assertAllocation now)
  refine asserted.trans (arbitrateOutports_acts ?_ ?_
    ({ s with flow := s.flow.assertAllocation cfg r t }, arbitrateInports cfg _ r t) now ?_)
  · intro q present
    exact mem_zipIdx_iff_getElem?.mp present
  · rw [zipIdx_map_fst]
    exact Config.nodup_outLinks _
  · intro l outport invc asked
    simp only [arbitrateInports] at asked
    split at asked
    · rename_i present
      refine ⟨Config.mem_inLinks.mp present, fun _ => ?_⟩
      obtain ⟨v, -, found⟩ := exists_of_findSome?_eq_some asked
      obtain ⟨p, asked, same⟩ := map_eq_some_iff.mp found
      cases same
      exact asked
    · cases asked

theorem crossbarWakeup_acts (l : Nat) (s : Net) : Acts cfg R s.flow (crossbarWakeup cfg r t s l).flow := by
  unfold crossbarWakeup
  split
  · exact .refl
  · rename_i top
    split
    · split
      · exact .refl
      · rename_i target
        exact .single (.cross top target _)
    · exact .refl

theorem routerWakeup_acts {draws : Nat → Draws} {s : Net} (now : s.flow.due (.router r) = t + 1)
    (once : ∀ c, cfg.sink c.1 = some (.router r) → ∀ g ∈ (s.flow.virtualChannels c).inputBuffer,
      g.stage.2 < t + cfg.pipeDelay r)
    (decided : InputUnit.Decide cfg R r t draws (cfg.inLinks (.router r)).zipIdx s) :
    Acts cfg R s.flow (routerWakeup cfg r t draws s).flow := by
  have sinks : ∀ port ∈ (cfg.inLinks (.router r)).zipIdx, cfg.sink port.1 = some (.router r) :=
    fun port present => Config.mem_inLinks.mp (mem_of_getElem? (mem_zipIdx_iff_getElem?.mp present))
  have received : Acts cfg R s.flow
      ((cfg.inLinks (.router r)).zipIdx.foldl (InputUnit.wakeup cfg r t draws) s).flow :=
    inputUnits_acts (by rw [zipIdx_map_fst]; exact Config.nodup_inLinks _) sinks now
      (fun port present w => once (port.1, w) (sinks port present)) decided
  have credited := received.trans (foldl_acts_plain (cfg.outLinks (.router r)) fun l _ s => outputUnitWakeup_acts l t s)
  have allocated := credited.trans (allocator_acts _ (by rw [credited.due_eq]; exact now))
  exact allocated.trans (foldl_acts_plain _ fun l _ s => crossbarWakeup_acts l s)

end Allocation

end Wakeups

end Resister.Garnet
