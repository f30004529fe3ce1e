import Resister.Garnet.TdmaToken

/-!
# The schedule of the TDMA units

What holds of the token along every run of a network with TDMA units, from the initialisation of the
first router on, and what the schedule depends on.
-/

namespace Resister.Garnet

open Function (update update_self update_of_ne)
open Library List

/-- A network of at most `CORE_NUM` routers, with TDMA units at their local ports. -/
structure Config.TdmaNetwork (cfg : Config) : Prop where
  unit : cfg.inputStruct = .tdma
  routers : ∀ l r, cfg.sink l = some (.router r) → r < coreNum
  clock : ∀ r, 0 < cfg.routerPeriod r

variable {cfg : Config}

theorem Config.TdmaNetwork.router_lt (network : cfg.TdmaNetwork) {r l : Nat} {rest : List Nat}
    (ports : cfg.inLinks (.router r) = l :: rest) : r < coreNum :=
  network.routers l r (mem_inLinks.mp (ports ▸ mem_cons_self))

theorem Config.TdmaNetwork.wakeup_eq (network : cfg.TdmaNetwork) (r l t : Nat) (draws : Nat → Draws) (s : Net) :
    InputUnit.wakeup cfg r t draws s (l, 0) = InputUnit.wakeupTdma cfg r l t (draws 0) s :=
  if_pos ⟨network.unit, rfl⟩

def Event.tick : Event → Option Nat
  | .link _ t | .creditLink _ t | .router _ t _ | .outputUnit _ t | .ni _ t | .drain _ _ t _ => some t
  | .protocol .. => none

open InputUnit

namespace Net

variable {s : Net} {r l : Nat} {rest : List Nat}

theorem step_wakeupTdma (network : cfg.TdmaNetwork) {t : Nat}
    (ports : cfg.inLinks (.router r) = l :: rest) (running : s.flow.faults = []) (later : s.flow.due (.router r) ≤ t)
    (draws : Nat → Draws) :
    (step cfg s (.router r t draws)).tdma = (wakeupTdma cfg r l t (draws 0) (s.woken (.router r) t)).tdma ∧
      (step cfg s (.router r t draws)).roundFlit =
        (wakeupTdma cfg r l t (draws 0) (s.woken (.router r) t)).roundFlit := by
  have inputs := @routerWakeup_inputs cfg r l rest ports t draws (s.woken (.router r) t)
  rw [network.wakeup_eq, ← step_router running later] at inputs
  exact ⟨congrArg InputState.tdma inputs, congrArg InputState.roundFlit inputs⟩

theorem step_unit (network : cfg.TdmaNetwork) (s : Net) (e : Event) :
    ((step cfg s e).tdma = s.tdma ∧ (step cfg s e).roundFlit = s.roundFlit) ∨
      ∃ r t draws l rest, e = .router r t draws ∧ cfg.inLinks (.router r) = l :: rest ∧ s.flow.faults = [] ∧
        s.flow.due (.router r) ≤ t ∧
        (step cfg s e).tdma = (wakeupTdma cfg r l t (draws 0) (s.woken (.router r) t)).tdma ∧
        (step cfg s e).roundFlit = (wakeupTdma cfg r l t (draws 0) (s.woken (.router r) t)).roundFlit := by
  rcases @step_inputs cfg s e with same | ⟨r, t, draws, l, rest, rfl, ports, running, later, -⟩
  · exact Or.inl ⟨congrArg InputState.tdma same, congrArg InputState.roundFlit same⟩
  · exact Or.inr ⟨r, t, draws, l, rest, rfl, ports, running, later, step_wakeupTdma network ports running later draws⟩

theorem step_router_cases (s : Net) (r : Nat) (e : Event) :
    (∃ t draws, e = .router r t draws ∧ s.flow.faults = [] ∧ s.flow.due (.router r) ≤ t) ∨
      step cfg s e = s ∨ ∀ t draws, e ≠ .router r t draws := by
  by_cases mine : ∃ t draws, e = .router r t draws
  · obtain ⟨t, draws, rfl⟩ := mine
    by_cases running : s.flow.faults = []
    · by_cases later : s.flow.due (.router r) ≤ t
      · exact Or.inl ⟨t, draws, rfl, running, later⟩
      · right; left
        rw [step, if_pos running]
        exact if_neg later
    · right; left
      rw [step, if_neg running]
  · exact Or.inr (Or.inr fun t draws same => mine ⟨t, draws, same⟩)

def handover (cfg : Config) (s : Net) (e : Event) : Option (Nat × Bool) := s.tdma.handover (step cfg s e).tdma

def handovers (cfg : Config) : Net → List Event → List (Nat × Bool)
  | _, [] => []
  | s, e :: events => (s.handover cfg e).toList ++ handovers cfg (step cfg s e) events

variable {e : Event}

theorem handover_of_eq (same : (step cfg s e).tdma = s.tdma) : s.handover cfg e = none := by
  simp [handover, Tdma.handover, same]

variable {ring : TokenRing coreNum}

theorem step_follows (network : cfg.TdmaNetwork) (follows : s.tdma.Follows ring)
    (e : Event) : ∃ ring', (step cfg s e).tdma.Follows ring' ∧ ring.Passes (s.handover cfg e).toList ring' := by
  rcases step_unit network s e with ⟨same, -⟩ | ⟨r, t, draws, l, rest, -, ports, -, -, token, -⟩
  · rw [handover_of_eq same, same]
    exact ⟨ring, follows, .nil ring⟩
  · have below := network.router_lt ports
    rw [wakeupTdma_tdma network.unit below] at token
    rw [handover, token]
    exact Tdma.advance_follows follows below _ (draws 0).order_perm

theorem runFrom_follows (network : cfg.TdmaNetwork) (follows : s.tdma.Follows ring) (events : List Event) :
    ∃ ring', (runFrom cfg s events).tdma.Follows ring' ∧ ring.Passes (handovers cfg s events) ring' := by
  induction events generalizing s ring with
  | nil => exact ⟨ring, follows, .nil ring⟩
  | cons e events ih =>
    obtain ⟨middle, follows', first⟩ := step_follows network follows e
    obtain ⟨last, follows'', second⟩ := ih follows'
    exact ⟨last, follows'', first.append second⟩

def consumed (cfg : Config) (l : Nat) (s : Net) (e : Event) : Nat :=
  (s.flow.linkBuffer l).length - ((step cfg s e).flow.linkBuffer l).length

def taken (cfg : Config) (l : Nat) : Net → List Event → Nat
  | _, [] => 0
  | s, e :: events => s.consumed cfg l e + taken cfg l (step cfg s e) events

theorem taken_concat (l : Nat) (s : Net) (events : List Event) (e : Event) :
    taken cfg l s (events ++ [e]) = taken cfg l s events + (runFrom cfg s events).consumed cfg l e := by
  induction events generalizing s with
  | nil => simp [taken, runFrom]
  | cons first events ih =>
    rw [cons_append, taken, taken, ih, Nat.add_assoc]
    rfl

theorem routerWakeup_localLink (ports : cfg.inLinks (.router r) = l :: rest) (t : Nat)
    (draws : Nat → Draws) (s : Net) :
    (InputUnit.wakeup cfg r t draws s (l, 0)).flow.linkBuffer l <+:
    (routerWakeup cfg r t draws s).flow.linkBuffer l := by
  have sink : cfg.sink l = some (.router r) := Config.mem_inLinks.mp (ports ▸ mem_cons_self)
  have distinct : l ∉ rest := by
    have nodup := cfg.nodup_inLinks (.router r)
    rw [ports] at nodup
    exact (nodup_cons.mp nodup).1
  refine (afterLocalUnit_updates ports t draws s).linkBuffer sink fun touched => ?_
  rcases touched with ⟨port, listed, (routing | ⟨-, unit⟩) | input⟩ | credits | switch
  · cases routing
  · cases unit
  · cases input
    exact distinct (fst_mem_of_mem_zipIdx listed)
  · cases credits
  · cases switch

theorem step_elsewhere (network : cfg.TdmaNetwork) (sink : cfg.sink l = some (.router r))
    (started : s.tdma.init = true) (asleep : ∀ t draws, e ≠ .router r t draws) :
    s.consumed cfg l e = 0 ∧ (step cfg s e).roundFlit r = s.roundFlit r := by
  constructor
  · have kept : s.flow.linkBuffer l <+: (step cfg s e).flow.linkBuffer l := by
      refine (step_updates s e).linkBuffer sink fun touched => ?_
      obtain ⟨q, t, draws, rfl, sink'⟩ := Event.router_of_touches_input touched
      rw [sink] at sink'
      cases sink'
      exact asleep t draws rfl
    exact Nat.sub_eq_zero_of_le kept.length_le
  · rcases step_unit network s e with ⟨-, same⟩ | ⟨q, t, draws, k, rest, rfl, ports, -, -, -, flits⟩
    · rw [same]
    · have other : r ≠ q := fun same => asleep t draws (same ▸ rfl)
      obtain ⟨_, -, -, ⟨-, counted⟩ | ⟨-, counted, -⟩⟩ :=
        @wakeupTdma_flits cfg q k t (draws 0) (s.woken (.router q) t) network.unit (network.router_lt ports) started
      · rw [flits, counted, update_of_ne other]
        rfl
      · rw [flits, counted, update_of_ne other]
        rfl

/-- A flit leaves the local link of a router only when the router is woken with the token, and it is counted. The
count of the router begins again when it gives the token away. -/
theorem step_consumed (network : cfg.TdmaNetwork)
    (ports : cfg.inLinks (.router r) = l :: rest) (started : s.tdma.init = true) (e : Event) :
    (0 < s.consumed cfg l e → (∃ t draws, e = .router r t draws) ∧ 0 ≤ s.tdma.counter r ∧
        s.roundFlit r + s.consumed cfg l e ≤ thresFlit) ∧
      (s.handover cfg e = none → s.roundFlit r + s.consumed cfg l e ≤ (step cfg s e).roundFlit r) := by
  rcases @step_router_cases cfg s r e with ⟨t, draws, rfl, running, later⟩ | same | asleep
  · have after := routerWakeup_localLink ports t draws (s.woken (.router r) t)
    rw [network.wakeup_eq, ← step_router running later] at after
    obtain ⟨token, flits⟩ := step_wakeupTdma network ports running later draws
    obtain ⟨taken, shorter, limit, outcome⟩ :=
      @wakeupTdma_flits cfg r l t (draws 0) (s.woken (.router r) t) network.unit (network.router_lt ports) started
    have few : s.consumed cfg l (.router r t draws) ≤ taken := by
      have longer := after.length_le
      have same : (s.woken (.router r) t).flow.linkBuffer l = s.flow.linkBuffer l := rfl
      rw [same] at shorter
      unfold consumed
      omega
    refine ⟨fun some => ?_, fun kept => ?_⟩
    · obtain ⟨here, bound⟩ := limit (Nat.lt_of_lt_of_le some few)
      exact ⟨⟨t, draws, rfl⟩, here, Nat.le_trans (Nat.add_le_add_left few _) bound⟩
    · rw [handover, token] at kept
      rw [flits]
      rcases outcome with ⟨-, counted⟩ | ⟨handed, -⟩
      · rw [counted, update_self]
        exact Nat.add_le_add_left few _
      · exact absurd kept handed
  · have none : s.consumed cfg l e = 0 := by rw [consumed, same, Nat.sub_self]
    rw [none, same]
    exact ⟨nofun, fun _ => Nat.le_refl _⟩
  · obtain ⟨none, same⟩ := step_elsewhere network (Config.mem_inLinks.mp (ports ▸ mem_cons_self)) started asleep
    rw [none, same]
    exact ⟨nofun, fun _ => Nat.le_refl _⟩

theorem step_roundFlit (network : cfg.TdmaNetwork) (few : ∀ q, s.roundFlit q ≤ thresFlit) (e : Event) (q : Nat) :
    (step cfg s e).roundFlit q ≤ thresFlit := by
  rcases step_unit network s e with ⟨-, same⟩ | ⟨r, t, draws, l, rest, -, ports, -, -, -, flits⟩
  · rw [same]
    exact few q
  · rw [flits]
    exact wakeupTdma_roundFlit (s := s.woken (.router r) t) network.unit (network.router_lt ports) few q

theorem taken_counted (network : cfg.TdmaNetwork)
    (ports : cfg.inLinks (.router r) = l :: rest) (follows : s.tdma.Follows ring)
    (events : List Event) (kept : handovers cfg s events = []) :
    s.roundFlit r + taken cfg l s events ≤ (runFrom cfg s events).roundFlit r := by
  induction events generalizing s ring with
  | nil => exact Nat.le_refl _
  | cons e events ih =>
    rw [handovers, append_eq_nil_iff, Option.toList_eq_nil_iff] at kept
    obtain ⟨ring', follows', -⟩ := step_follows network follows e
    have first := (step_consumed network ports follows.started e).2 kept.1
    have later := ih follows' kept.2
    rw [taken]
    show _ ≤ (runFrom cfg (step cfg s e) events).roundFlit r
    omega

theorem runFrom_roundFlit (network : cfg.TdmaNetwork) (few : ∀ q, s.roundFlit q ≤ thresFlit)
    (events : List Event) (q : Nat) : (runFrom cfg s events).roundFlit q ≤ thresFlit := by
  induction events generalizing s with
  | nil => exact few q
  | cons e events ih => exact ih (step_roundFlit network few e)

theorem taken_le (network : cfg.TdmaNetwork)
    (ports : cfg.inLinks (.router r) = l :: rest) (follows : s.tdma.Follows ring)
    (few : ∀ q, s.roundFlit q ≤ thresFlit) (events : List Event) (kept : handovers cfg s events = []) (e : Event) :
    taken cfg l s (events ++ [e]) ≤ thresFlit := by
  obtain ⟨ring', follows', -⟩ := runFrom_follows network follows events
  have counted := taken_counted network ports follows events kept
  have bound := runFrom_roundFlit network few events r
  have last := (step_consumed network ports follows'.started e).1
  rw [taken_concat]
  rcases Nat.eq_zero_or_pos ((runFrom cfg s events).consumed cfg l e) with none | some
  · omega
  · have limit := (last some).2.2
    omega

def Awake (s : Net) (r : Nat) : Prop := ∃ time ∈ s.pending (.router r), s.flow.due (.router r) ≤ time

theorem awake_of_pending {s' : Net} (requested : s.pending (.router r) ⊆ s'.pending (.router r))
    (due : s'.flow.due (.router r) = s.flow.due (.router r)) (awake : s.Awake r) : s'.Awake r := by
  obtain ⟨time, ahead, later⟩ := awake
  exact ⟨time, requested ahead, due ▸ later⟩

theorem step_awake (network : cfg.TdmaNetwork)
    (ports : cfg.inLinks (.router r) = l :: rest) (awake : s.Awake r) (e : Event) : (step cfg s e).Awake r := by
  rcases @step_router_cases cfg s r e with ⟨t, draws, rfl, running, later⟩ | same | asleep
  · have after := afterLocalUnit_updates ports t draws (s.woken (.router r) t)
    have asleep : ¬ ((∃ port ∈ rest.zipIdx 1, Receiving r port.2 port.1 (.wake (.router r))) ∨
        Routing r (.wake (.router r))) := by
      simp [Receiving, Deciding, Routing]
    rw [step_router running later]
    refine awake_of_pending (after.pending asleep) (after.due asleep) ?_
    rw [network.wakeup_eq]
    obtain ⟨time, requested, ahead⟩ :=
      @wakeupTdma_pending cfg r l t (draws 0) (s.woken (.router r) t) (network.router_lt ports) (network.clock r)
    have due := (@wakeupTdma_updates cfg r l t (draws 0) (s.woken (.router r) t)).due (c := .router r)
      (by simp [Receiving, Deciding])
    refine ⟨time, requested, ?_⟩
    rw [due]
    simpa [woken, Flow.wake] using ahead
  · rwa [same]
  · have untouched : ¬ e.Touches cfg (.wake (.router r)) := fun touched => by
      obtain ⟨t, draws, same⟩ := Event.touches_wake.mp touched
      exact asleep t draws same
    exact awake_of_pending ((step_updates s e).pending untouched) ((step_updates s e).due untouched) awake

theorem runFrom_awake (network : cfg.TdmaNetwork)
    (ports : cfg.inLinks (.router r) = l :: rest) (awake : s.Awake r) (events : List Event) :
    (runFrom cfg s events).Awake r := by
  induction events generalizing s with
  | nil => exact awake
  | cons e events ih => exact ih (step_awake network ports awake e)

structure Booted (cfg : Config) (order : List Nat) (s : Net) : Prop where
  token : (∀ r ∈ order, cfg.inLinks (.router r) = []) ∧ s.tdma.init = false ∨ ∃ ring, s.tdma.Follows ring
  few : ∀ q, s.roundFlit q ≤ thresFlit
  awake : ∀ r ∈ order, cfg.inLinks (.router r) ≠ [] → s.Awake r
  due : ∀ r, s.flow.due (.router r) = 0

theorem booted_init (cfg : Config) : Booted cfg [] (init cfg) :=
  ⟨Or.inl ⟨nofun, rfl⟩, fun _ => Nat.zero_le _, nofun, fun _ => rfl⟩

theorem initRouter_booted (network : cfg.TdmaNetwork) {order : List Nat} (booted : Booted cfg order s) (r : Nat) :
    Booted cfg (order ++ [r]) (initRouter cfg s r) := by
  cases ports : cfg.inLinks (.router r) with
  | nil =>
    have same : initRouter cfg s r = s := by
      unfold initRouter
      rw [ports]
      split
      · contradiction
      · rfl
    rw [same]
    refine ⟨booted.token.imp_left fun fresh => ⟨fun q listed => ?_, fresh.2⟩, booted.few, fun q listed some => ?_, booted.due⟩
    · rcases mem_append.mp listed with old | new
      · exact fresh.1 q old
      · rwa [mem_singleton.mp new]
    · rcases mem_append.mp listed with old | new
      · exact booted.awake q old some
      · rw [mem_singleton.mp new] at some
        exact absurd ports some
  | cons l rest =>
    have below := network.router_lt ports
    have result : initRouter cfg s r = wakeupTdma cfg r l 0 {} s := by
      rw [initRouter, ports, network.unit]
      exact network.wakeup_eq ..
    have updates := @wakeupTdma_updates cfg r l 0 {} s
    have asleep : ∀ q, ¬ Receiving r 0 l (.wake (.router q)) := by simp [Receiving, Deciding]
    have due : ∀ q, (wakeupTdma cfg r l 0 {} s).flow.due (.router q) = 0 :=
      fun q => (updates.due (asleep q)).trans (booted.due q)
    rw [result]
    refine ⟨Or.inr ?_, wakeupTdma_roundFlit network.unit below booted.few, fun q listed some => ?_, due⟩
    · rw [wakeupTdma_tdma network.unit below]
      rcases booted.token with ⟨-, fresh⟩ | ⟨ring, follows⟩
      · exact Tdma.advance_starts fresh below ..
      · obtain ⟨ring', follows', -⟩ := Tdma.advance_follows follows below _ (Draws.order_perm {})
        exact ⟨ring', follows'⟩
    · rcases mem_append.mp listed with old | new
      · exact awake_of_pending (updates.pending (asleep q)) (updates.due (asleep q)) (booted.awake q old some)
      · rw [mem_singleton.mp new]
        obtain ⟨time, requested, -⟩ := @wakeupTdma_pending cfg r l 0 {} s below (network.clock r)
        exact ⟨time, requested, (due r).trans_le (Nat.zero_le time)⟩

theorem boot_booted (network : cfg.TdmaNetwork) (order : List Nat) : Booted cfg order (boot cfg order) := by
  induction order using List.reverseRecOn with
  | nil => exact booted_init cfg
  | append_singleton order r ih =>
    rw [boot, foldl_concat]
    exact initRouter_booted network ih r

theorem boot_follows (network : cfg.TdmaNetwork) {order : List Nat}
    (initialised : ∃ r ∈ order, cfg.inLinks (.router r) ≠ []) : ∃ ring, (boot cfg order).tdma.Follows ring := by
  rcases (boot_booted network order).token with ⟨none, -⟩ | follows
  · obtain ⟨r, listed, some⟩ := initialised
    exact absurd (none r listed) some
  · exact follows

def inOrder : List Nat := List.range coreNum

def noTraffic : List Event := [.router 0 500 fun _ => {}, .router 0 1000 fun _ => {}, .router 0 1500 fun _ => {}]

def oneMessage : List Event :=
  [.protocol 0 0 [⟨64, controllers [1], 0⟩], .ni 0 0, .link 0 500, .router 0 500 fun _ => {},
    .router 0 1000 fun _ => {}, .router 0 1500 fun _ => {}]

theorem sixteen_network (stages : Nat) (pos : 0 < stages) : (sixteen stages pos).TdmaNetwork := by
  refine ⟨rfl, fun l r sink => ?_, fun _ => Nat.succ_pos 499⟩
  obtain ⟨link, present, same⟩ := Option.map_eq_some_iff.mp sink
  rcases mem_append.mp (mem_of_getElem? present) with external | internal
  · obtain ⟨k, below, rfl⟩ := mem_map.mp external
    cases same
    exact mem_range.mp below
  · obtain ⟨k, below, found⟩ := mem_flatMap.mp internal
    have inside : k < coreNum := mem_range.mp below
    simp only [mem_append, mem_singleton, mem_ite_nil_right] at found
    rcases found with (rfl | ⟨-, rfl⟩) | ⟨right, rfl⟩
    · cases same
    · cases same
      omega
    · cases same
      exact right

theorem tdma_token (network : cfg.TdmaNetwork) {order : List Nat}
    (initialised : ∃ r ∈ order, cfg.inLinks (.router r) ≠ []) (events : List Event) :
    let s := runFrom cfg (boot cfg order) events
    (s.tdma.roundCnt < coreNum ∧ s.tdma.roundList s.tdma.roundCnt < coreNum ∧
        ∀ r < coreNum, 0 ≤ s.tdma.counter r ↔ r = s.tdma.roundList s.tdma.roundCnt) ∧
      ((List.range coreNum).map s.tdma.roundList).Perm (List.range coreNum) ∧
      (∀ r l, (cfg.inLinks (.router r)).head? = some l →
        (∀ e, 0 < s.consumed cfg l e → (∃ t draws, e = .router r t draws) ∧ 0 ≤ s.tdma.counter r) ∧
        ∀ more e, handovers cfg s more = [] → taken cfg l s (more ++ [e]) ≤ thresFlit) ∧
      (∀ before trace after first second,
        handovers cfg (boot cfg order) events = before ++ (first, true) :: (trace ++ (second, true) :: after) →
        (∀ handover ∈ trace, handover.2 = false) → (first :: trace.map Prod.fst).Perm (List.range coreNum)) ∧
      ∀ r ∈ order, cfg.inLinks (.router r) ≠ [] → s.Awake r := by
  intro s
  have booted := boot_booted network order
  obtain ⟨start, follows⟩ := boot_follows network initialised
  obtain ⟨ring, now, passes⟩ := runFrom_follows network follows events
  have few := runFrom_roundFlit network booted.few events
  have holder : s.tdma.roundList s.tdma.roundCnt = ring.holder := now.holder_eq
  refine ⟨⟨?_, ?_, fun r below => ?_⟩, ?_, fun r l local' => ⟨fun e some => ?_, fun more e kept => ?_⟩,
    fun before trace after first second found same => ?_, fun r listed some => ?_⟩
  · rw [now.position]
    exact ring.inside
  · rw [holder]
    exact ring.holder_lt
  · rw [holder]
    exact now.enabled r below
  · rw [now.order]
    exact ring.perm
  · obtain ⟨rest, ports⟩ := List.head?_eq_some_iff.mp local'
    obtain ⟨woken, here, -⟩ := (step_consumed network ports now.started e).1 some
    exact ⟨woken, here⟩
  · obtain ⟨rest, ports⟩ := List.head?_eq_some_iff.mp local'
    exact taken_le network ports now few more kept e
  · rw [found] at passes
    exact passes.round same
  · obtain ⟨l, rest, ports⟩ := exists_cons_of_ne_nil some
    exact runFrom_awake network ports (booted.awake r listed some) events

/-- In this run router 0 gives the token to router 1. -/
theorem tdma_token_passed :
    (0 ≤ (runFrom (sixteen 101 (by decide)) (boot (sixteen 101 (by decide)) inOrder) oneMessage).tdma.counter 1 ∧
        ¬ 0 ≤ (runFrom (sixteen 101 (by decide)) (boot (sixteen 101 (by decide)) inOrder) oneMessage).tdma.counter 0) ∧
      (runFrom (sixteen 101 (by decide)) (boot (sixteen 101 (by decide)) inOrder) oneMessage).Awake 1 := by
  have facts : (∃ r ∈ inOrder, (sixteen 101 (by decide)).inLinks (.router r) ≠ []) ∧
      (sixteen 101 (by decide)).inLinks (.router 1) ≠ [] ∧
      (runFrom (sixteen 101 (by decide)) (boot (sixteen 101 (by decide)) inOrder) oneMessage).tdma.holder = 1 := by
    decide +kernel
  obtain ⟨⟨-, -, token⟩, -, -, -, awake⟩ := tdma_token (sixteen_network 101 (by decide)) facts.1 oneMessage
  refine ⟨⟨(token 1 (by decide)).mpr facts.2.2.symm, fun zero => ?_⟩, awake 1 (by decide) facts.2.1⟩
  have same := ((token 0 (by decide)).mp zero).trans facts.2.2
  cases same

/-- A wakeup of the router that has the token: the tick, the cycles that a flit adds, and the order of the next round
if a round ends. -/
structure Slot where
  tick : Nat
  wait : Nat
  shuffle : Option (List Nat)
  deriving DecidableEq

def Slot.advance (token : Tdma) (slot : Slot) : Tdma := token.advance token.holder slot.wait (slot.shuffle.getD [])

def slot (cfg : Config) (s : Net) : Event → Option Slot
  | .router r t draws =>
    if s.flow.faults = [] ∧ s.flow.due (.router r) ≤ t ∧ 0 ≤ s.tdma.counter r then
      (cfg.inLinks (.router r)).head?.map fun l => ⟨t, waitCycles cfg r l t s, s.tdma.shuffle r (draws 0)⟩
    else none
  | _ => none

def slots (cfg : Config) : Net → List Event → List Slot
  | _, [] => []
  | s, e :: events => (s.slot cfg e).toList ++ slots cfg (step cfg s e) events

theorem slot_some {slot : Slot} (found : s.slot cfg e = some slot) :
    ∃ r t draws l rest, e = .router r t draws ∧ s.flow.faults = [] ∧ s.flow.due (.router r) ≤ t ∧
      0 ≤ s.tdma.counter r ∧ cfg.inLinks (.router r) = l :: rest ∧
      slot = ⟨t, waitCycles cfg r l t s, s.tdma.shuffle r (draws 0)⟩ := by
  cases e with
  | router r t draws =>
    simp only [Net.slot] at found
    split at found
    · rename_i occurs
      obtain ⟨l, head, same⟩ := Option.map_eq_some_iff.mp found
      obtain ⟨rest, ports⟩ := List.head?_eq_some_iff.mp head
      exact ⟨r, t, draws, l, rest, rfl, occurs.1, occurs.2.1, occurs.2.2, ports, same.symm⟩
    · cases found
  | _ => cases found

theorem step_slot (network : cfg.TdmaNetwork) (follows : s.tdma.Follows ring)
    (e : Event) : (step cfg s e).tdma = (s.slot cfg e).toList.foldl Slot.advance s.tdma := by
  have woken : ∀ r l t, waitCycles cfg r l t (s.woken (.router r) t) = waitCycles cfg r l t s := by
    intro r l t
    have first : tdmaInit r (s.woken (.router r) t) = s.woken (.router r) t := if_pos follows.started
    have second : tdmaInit r s = s := if_pos follows.started
    rw [waitCycles, waitCycles, first, second]
    rfl
  cases found : s.slot cfg e with
  | some slot =>
    obtain ⟨r, t, draws, l, rest, rfl, running, later, here, ports, rfl⟩ := slot_some found
    have below := network.router_lt ports
    have holder : s.tdma.holder = r := follows.holder_eq.trans ((follows.enabled r below).mp here).symm
    rw [(step_wakeupTdma network ports running later draws).1, wakeupTdma_tdma network.unit below, woken]
    show s.tdma.advance r _ _ = Slot.advance s.tdma _
    rw [Slot.advance, holder]
    exact Tdma.advance_shuffle follows.started (draws 0)
  | none =>
    rcases step_unit network s e with ⟨same, -⟩ | ⟨r, t, draws, l, rest, rfl, ports, running, later, token, -⟩
    · exact same
    · have without : ¬ 0 ≤ s.tdma.counter r := fun here => by
        simp [Net.slot, running, later, here, ports] at found
      rw [token, wakeupTdma_tdma network.unit (network.router_lt ports)]
      exact Tdma.advance_of_neg follows.started without

theorem runFrom_slots (network : cfg.TdmaNetwork) (follows : s.tdma.Follows ring)
    (events : List Event) : (runFrom cfg s events).tdma = (slots cfg s events).foldl Slot.advance s.tdma := by
  induction events generalizing s ring with
  | nil => rfl
  | cons e events ih =>
    obtain ⟨ring', follows', -⟩ := step_follows network follows e
    rw [slots, foldl_append, ← step_slot network follows e]
    exact ih follows'

theorem slots_append (s : Net) (before after : List Event) :
    slots cfg s (before ++ after) = slots cfg s before ++ slots cfg (runFrom cfg s before) after := by
  induction before generalizing s with
  | nil => rfl
  | cons e before ih =>
    rw [cons_append, slots, ih, slots, append_assoc]
    rfl

/-- The events of `before` are those up to tick `now`, the events of `after` come later. -/
def EndsAt (now : Nat) (before after : List Event) : Prop :=
  (∀ e ∈ before, ∀ t ∈ e.tick, t ≤ now) ∧ ∀ e ∈ after, ∀ t ∈ e.tick, now < t

theorem tick_of_mem_slots {events : List Event} {slot : Slot} (listed : slot ∈ slots cfg s events) :
    ∃ e ∈ events, e.tick = some slot.tick := by
  induction events generalizing s with
  | nil => cases listed
  | cons e events ih =>
    rcases mem_append.mp listed with first | later
    · obtain ⟨r, t, draws, l, rest, rfl, -, -, -, -, rfl⟩ := slot_some (Option.mem_toList.mp first)
      exact ⟨_, mem_cons_self, rfl⟩
    · obtain ⟨other, found, tick⟩ := ih later
      exact ⟨other, mem_cons_of_mem _ found, tick⟩

theorem slots_until {now : Nat} {before after : List Event} (split : EndsAt now before after) :
    (slots cfg s (before ++ after)).filter (fun slot => decide (slot.tick ≤ now)) = slots cfg s before := by
  rw [slots_append, filter_append, filter_eq_self.mpr, filter_eq_nil_iff.mpr, append_nil]
  · intro slot listed
    obtain ⟨e, found, tick⟩ := tick_of_mem_slots listed
    have later := split.2 e found _ tick
    simpa using later
  · intro slot listed
    obtain ⟨e, found, tick⟩ := tick_of_mem_slots listed
    simpa using split.1 e found _ tick

theorem tdma_schedule (network : cfg.TdmaNetwork) {order : List Nat}
    (initialised : ∃ r ∈ order, cfg.inLinks (.router r) ≠ []) {before after before' after' : List Event} {now : Nat}
    (split : EndsAt now before after) (split' : EndsAt now before' after')
    (same : slots cfg (boot cfg order) (before ++ after) = slots cfg (boot cfg order) (before' ++ after')) :
    (runFrom cfg (boot cfg order) before).tdma.holder = (runFrom cfg (boot cfg order) before').tdma.holder ∧
      ∀ r, 0 ≤ (runFrom cfg (boot cfg order) before).tdma.counter r ↔
        0 ≤ (runFrom cfg (boot cfg order) before').tdma.counter r := by
  obtain ⟨ring, follows⟩ := boot_follows network initialised
  have equal : (runFrom cfg (boot cfg order) before).tdma = (runFrom cfg (boot cfg order) before').tdma := by
    rw [runFrom_slots network follows, runFrom_slots network follows, ← slots_until split, ← slots_until split', same]
  rw [equal]
  exact ⟨rfl, fun _ => Iff.rfl⟩

/-- With a latency of one cycle the message does not delay the token. -/
theorem tdma_schedule_unchanged :
    (runFrom (sixteen 1 (by decide)) (boot (sixteen 1 (by decide)) inOrder) noTraffic).tdma.holder =
      (runFrom (sixteen 1 (by decide)) (boot (sixteen 1 (by decide)) inOrder) oneMessage).tdma.holder := by
  have facts : (∃ r ∈ inOrder, (sixteen 1 (by decide)).inLinks (.router r) ≠ []) ∧
      slots (sixteen 1 (by decide)) (boot (sixteen 1 (by decide)) inOrder) (noTraffic ++ []) =
        slots (sixteen 1 (by decide)) (boot (sixteen 1 (by decide)) inOrder) (oneMessage ++ []) := by
    decide +kernel
  have first : EndsAt 1500 noTraffic [] := by simp [EndsAt, noTraffic, Event.tick]
  have second : EndsAt 1500 oneMessage [] := by simp [EndsAt, oneMessage, Event.tick]
  exact (tdma_schedule (sixteen_network 1 (by decide)) facts.1 first second facts.2).1

/-- With a latency of 101 cycles it does: router 1 has the token in the third cycle, which router 0 keeps without the
message. -/
theorem tdma_schedule_diverges :
    (runFrom (sixteen 101 (by decide)) (boot (sixteen 101 (by decide)) inOrder) noTraffic).flow.faults = [] ∧
      (runFrom (sixteen 101 (by decide)) (boot (sixteen 101 (by decide)) inOrder) oneMessage).flow.faults = [] ∧
      (runFrom (sixteen 101 (by decide)) (boot (sixteen 101 (by decide)) inOrder) noTraffic).tdma.holder = 0 ∧
      (runFrom (sixteen 101 (by decide)) (boot (sixteen 101 (by decide)) inOrder) oneMessage).tdma.holder = 1 ∧
      handovers (sixteen 101 (by decide)) (boot (sixteen 101 (by decide)) inOrder) noTraffic = [] ∧
      handovers (sixteen 101 (by decide)) (boot (sixteen 101 (by decide)) inOrder) oneMessage = [(1, false)] := by
  decide +kernel

end Net

end Resister.Garnet
