import Resister.Network.MeshXY

/-!
# Routes in the mesh

A packet carried from router to router by `outportCompute`, with the direction that every call looks
up.
-/

namespace Resister.Network

open Garnet

structure Packet where
  router : Nat
  inport : PortDirection
  route : RouteInfo
  deriving DecidableEq, Repr

/-- The router left, the direction taken and the packet on arrival. -/
structure Hop where
  router : Nat
  dirn : PortDirection
  next : Packet
  deriving DecidableEq, Repr

/-- Why a packet does not move on: the call does not return, or the router has no port in the
direction looked up. -/
inductive Stuck where
  | abort (reason : Abort)
  | missing (dirn : PortDirection)
  deriving DecidableEq, Repr

namespace MeshXY

variable (m : MeshXY) (algorithm : RoutingAlgorithm)

def hop (call : RoutingCall) (p : Packet) : Except Stuck Hop :=
  match (m.unit algorithm p.router).computeDirn call p.route p.inport with
  | .error reason => .error (.abort reason)
  | .ok (_, route, dirn) =>
    match ((m.unit algorithm p.router).dirn2idx dirn).bind fun i =>
        (m.topology.outPorts p.router)[i]? with
    | some port =>
      .ok ⟨p.router, dirn, ⟨port.target - 2 * m.topology.nodes, port.targetDirn, route⟩⟩
    | none => .error (.missing dirn)

/-- At most `fuel` hops, until the packet is at the router of its destination. The calls are
those of the successive routers. -/
def travel : Nat → (Nat → RoutingCall) → Packet → Except Stuck (List Hop × Packet)
  | 0, _, p => .ok ([], p)
  | fuel + 1, calls, p =>
    if p.route.destRouter = p.router then .ok ([], p)
    else
      match m.hop algorithm (calls 0) p with
      | .error stuck => .error stuck
      | .ok hop =>
        match travel fuel (fun k => calls (k + 1)) hop.next with
        | .error stuck => .error stuck
        | .ok (hops, q) => .ok (hop :: hops, q)

def Delivers (calls : Nat → RoutingCall) (p : Packet) (d : Nat) : Prop :=
  ∃ fuel hops q, m.travel algorithm fuel calls p = .ok (hops, q) ∧ q.router = d

variable {m algorithm}

theorem hop_eq {call : RoutingCall} {p : Packet} {st : RoutingState} {route : RouteInfo}
    {dirn : PortDirection} {next : Nat} (inside : p.router < m.numRouters)
    (computed : (m.unit algorithm p.router).computeDirn call p.route p.inport = .ok (st, route, dirn))
    (found : m.neighbour p.router dirn = some next) :
    m.hop algorithm call p = .ok ⟨p.router, dirn, ⟨next, opposite dirn, route⟩⟩ := by
  obtain ⟨i, port, index, listed, target, back⟩ :=
    @dirn2idx_neighbour m algorithm _ _ _ inside found
  simp [hop, computed, index, listed, target, back, Topology.routerSwitch]

theorem hop_missing {call : RoutingCall} {p : Packet} {st : RoutingState} {route : RouteInfo} {dirn : PortDirection}
    (computed : (m.unit algorithm p.router).computeDirn call p.route p.inport = .ok (st, route, dirn))
    (absent : m.neighbour p.router dirn = none) (remote : dirn ≠ .Local) :
    m.hop algorithm call p = .error (.missing dirn) := by
  simp [hop, computed, dirn2idx_missing absent remote]

theorem hop_computed {call : RoutingCall} {p : Packet} {h : Hop} (result : m.hop algorithm call p = .ok h) :
    h.router = p.router ∧ ∃ st, (m.unit algorithm p.router).computeDirn call p.route p.inport =
      .ok (st, h.next.route, h.dirn) := by
  unfold hop at result
  split at result
  · cases result
  · rename_i st route dirn computed
    split at result
    · cases result
      exact ⟨rfl, st, computed⟩
    · cases result

theorem hop_neighbour {call : RoutingCall} {p : Packet} {h : Hop}
    (result : m.hop algorithm call p = .ok h) : m.neighbour p.router h.dirn = some h.next.router := by
  obtain ⟨-, _, computed⟩ := hop_computed result
  have remote := RoutingUnit.computeDirn_remote computed
  unfold hop at result
  split at result
  · cases result
  · split at result
    · rename_i port selected
      cases result
      obtain ⟨i, index, listed⟩ := Option.bind_eq_some_iff.mp selected
      have dirn := RoutingUnit.dirn2idx_some index
      simp only [unit, Topology.routingUnit, List.getElem?_map, listed, Option.map_some,
        Option.some.injEq] at dirn
      rcases port_cases (List.mem_of_getElem? listed) with ⟨isLocal, -⟩ | ⟨next, found, target, -⟩
      · exact absurd (dirn.symm.trans isLocal) remote
      · simp only
        rw [← dirn, found, target]
        simp [Topology.routerSwitch]
    · cases result

theorem outportCompute_of_hop {call : RoutingCall} {p : Packet} {h : Hop} (inside : p.router < m.numRouters)
    (elsewhere : p.route.destRouter ≠ p.router) (direct : algorithm ≠ .table)
    (result : m.hop algorithm call p = .ok h) :
    h.next.inport = opposite h.dirn ∧
      ∃ st i port, (m.unit algorithm p.router).outportCompute call p.route p.inport = .ok (st, h.next.route, i) ∧
        (m.topology.outPorts p.router)[i]? = some port ∧
        port.target = m.topology.routerSwitch h.next.router := by
  obtain ⟨-, st, computed⟩ := hop_computed result
  have found := hop_neighbour result
  obtain ⟨i, port, index, listed, target, -⟩ := @dirn2idx_neighbour m algorithm _ _ _ inside found
  have arrival := result.symm.trans (hop_eq inside computed found)
  refine ⟨congrArg (fun h : Hop => h.next.inport) (Except.ok.inj arrival), (m.unit algorithm p.router).countRoute st, i, port,
    ?_, listed, target⟩
  have other : p.route.destRouter ≠ (m.unit algorithm p.router).id := elsewhere
  have table : (m.unit algorithm p.router).algorithm ≠ .table := direct
  simp [RoutingUnit.outportCompute, other, table, computed, Except.map, RoutingUnit.outportsDirn2idx, index]

theorem travel_arrived {fuel : Nat} {calls : Nat → RoutingCall} {p : Packet}
    (arrived : p.route.destRouter = p.router) : m.travel algorithm fuel calls p = .ok ([], p) := by
  cases fuel with
  | zero => rfl
  | succ fuel => simp [travel, arrived]

theorem travel_step {fuel : Nat} {calls : Nat → RoutingCall} {p q : Packet} {h : Hop}
    {hops : List Hop} (elsewhere : p.route.destRouter ≠ p.router) (taken : m.hop algorithm (calls 0) p = .ok h)
    (rest : m.travel algorithm fuel (fun k => calls (k + 1)) h.next = .ok (hops, q)) :
    m.travel algorithm (fuel + 1) calls p = .ok (h :: hops, q) := by
  simp [travel, elsewhere, taken, rest]

theorem travel_cases {fuel : Nat} {calls : Nat → RoutingCall} {p q : Packet} {hops : List Hop}
    (travelled : m.travel algorithm (fuel + 1) calls p = .ok (hops, q)) :
    (hops = [] ∧ q = p) ∨
      ∃ h rest, p.route.destRouter ≠ p.router ∧ m.hop algorithm (calls 0) p = .ok h ∧
        m.travel algorithm fuel (fun k => calls (k + 1)) h.next = .ok (rest, q) ∧ hops = h :: rest := by
  unfold travel at travelled
  split at travelled
  · cases travelled
    exact Or.inl ⟨rfl, rfl⟩
  · rename_i elsewhere
    split at travelled
    · cases travelled
    · rename_i h taken
      split at travelled
      · cases travelled
      · rename_i rest last remaining
        cases travelled
        exact Or.inr ⟨h, rest, elsewhere, taken, remaining, rfl⟩

theorem travel_hops {P : Packet → Prop} (step : ∀ {call p h}, P p → p.route.destRouter ≠ p.router →
      m.hop algorithm call p = .ok h → P h.next)
    {fuel : Nat} {calls : Nat → RoutingCall} {p q : Packet} {hops : List Hop} (start : P p)
    (travelled : m.travel algorithm fuel calls p = .ok (hops, q)) :
    ∀ h ∈ hops, ∃ call before, P before ∧ before.route.destRouter ≠ before.router ∧
      m.hop algorithm call before = .ok h := by
  induction fuel generalizing calls p hops with
  | zero =>
    cases travelled
    exact fun h present => nomatch present
  | succ fuel ih =>
    rcases travel_cases travelled with ⟨rfl, -⟩ | ⟨first, rest, elsewhere, taken, remaining, rfl⟩
    · exact fun h present => nomatch present
    · intro h present
      rcases List.mem_cons.mp present with rfl | later
      · exact ⟨calls 0, p, start, elsewhere, taken⟩
      · exact ih (step start elsewhere taken) remaining h later

theorem travel_neighbours {fuel : Nat} {calls : Nat → RoutingCall} {p q : Packet} {hops : List Hop}
    (travelled : m.travel algorithm fuel calls p = .ok (hops, q)) :
    ∀ h ∈ hops, m.neighbour h.router h.dirn = some h.next.router := by
  intro h present
  obtain ⟨call, before, -, -, taken⟩ :=
    travel_hops (P := fun _ => True) (fun _ _ _ => trivial) trivial travelled h present
  rw [(hop_computed taken).1]
  exact hop_neighbour taken

theorem travel_stuck {fuel : Nat} {calls : Nat → RoutingCall} {p q : Packet} {stuck : Stuck}
    {hops : List Hop} (blocked : m.hop algorithm (calls 0) p = .error stuck)
    (travelled : m.travel algorithm fuel calls p = .ok (hops, q)) : q = p := by
  cases fuel with
  | zero =>
    cases travelled
    rfl
  | succ fuel =>
    rcases travel_cases travelled with ⟨-, same⟩ | ⟨h, rest, -, taken, -⟩
    · exact same
    · rw [blocked] at taken
      cases taken

theorem travel_append {a b : Nat} {calls : Nat → RoutingCall} {p q r : Packet}
    {first second : List Hop} (before : m.travel algorithm a calls p = .ok (first, q)) (full : first.length = a)
    (after : m.travel algorithm b (fun k => calls (a + k)) q = .ok (second, r)) :
    m.travel algorithm (a + b) calls p = .ok (first ++ second, r) := by
  induction a generalizing calls p first with
  | zero =>
    cases before
    simpa using after
  | succ a ih =>
    rw [Nat.succ_add]
    rcases travel_cases before with ⟨rfl, -⟩ | ⟨h, rest, elsewhere, taken, remaining, rfl⟩
    · simp at full
    · have shifted : (fun k => calls (a + 1 + k)) = fun k => calls (a + k + 1) := by
        funext k
        rw [Nat.add_right_comm]
      rw [shifted] at after
      exact travel_step elsewhere taken (ih remaining (by simpa using full) after)

variable (m) in
def xyChoice (r t : Nat) : PortDirection :=
  if m.col r ≠ m.col t then if m.col r ≤ m.col t then .East else .West
  else if m.row r ≤ m.row t then .North else .South

variable (m) in
def manhattan (a b : Nat) : Nat :=
  ((m.col a : Int) - m.col b).natAbs + ((m.row a : Int) - m.row b).natAbs

theorem coords_ne {r t : Nat} (different : r ≠ t) : ¬ (m.col r = m.col t ∧ m.row r = m.row t) :=
  fun same => different (eq_of_coords same.1 same.2)

theorem xyDirn_eq {r t : Nat} (different : r ≠ t) :
    (m.unit algorithm r).xyDirn t = .ok (m.xyChoice r t) := by
  have apart := @coords_ne m r t different
  have unfolded : (m.unit algorithm r).xyDirn t =
      if 0 < m.numRows ∧ 0 < m.numColumns then
        if ((m.col t : Int) - m.col r).natAbs = 0 ∧ ((m.row t : Int) - m.row r).natAbs = 0 then
          .error .assertFail
        else if 0 < ((m.col t : Int) - m.col r).natAbs then
          .ok (if m.col r ≤ m.col t then .East else .West)
        else .ok (if m.row r ≤ m.row t then .North else .South)
      else .error .assertFail := rfl
  rw [unfolded, if_pos ⟨m.rows_pos, m.numColumns_pos⟩, if_neg (by omega), xyChoice]
  by_cases sameColumn : m.col r = m.col t
  · rw [if_neg (by omega)]
    simp [sameColumn]
  · rw [if_pos (by omega), if_pos sameColumn]

theorem xyChoice_cases (r t : Nat) :
    (m.xyChoice r t = .East ∧ m.col r < m.col t) ∨ (m.xyChoice r t = .West ∧ m.col t < m.col r) ∨
      (m.xyChoice r t = .North ∧ m.col r = m.col t ∧ m.row r ≤ m.row t) ∨
      (m.xyChoice r t = .South ∧ m.col r = m.col t ∧ m.row t < m.row r) := by
  unfold xyChoice
  by_cases column : m.col r = m.col t
  · by_cases row : m.row r ≤ m.row t
    · simp [column, row]
    · simp [column, row]
      omega
  · by_cases side : m.col r ≤ m.col t
    · simp [column, side]
      omega
    · simp [column, side]
      omega

theorem xyChoice_ne_local (r t : Nat) : m.xyChoice r t ≠ .Local := by
  rcases @xyChoice_cases m r t with ⟨east, -⟩ | ⟨west, -⟩ | ⟨north, -⟩ | ⟨south, -⟩ <;> simp [*]

theorem xyChoice_turn {r t next : Nat} (found : m.neighbour r (m.xyChoice r t) = some next) :
    if m.col r = m.col t then m.col next = m.col r else m.row next = m.row r := by
  have moves := neighbour_moves found
  rcases @xyChoice_cases m r t with ⟨dirn, side⟩ | ⟨dirn, side⟩ | ⟨dirn, same, -⟩ | ⟨dirn, same, -⟩ <;>
    rw [dirn] at moves
  · rw [if_neg (Nat.ne_of_lt side)]
    exact moves.2
  · rw [if_neg (Nat.ne_of_gt side)]
    exact moves.2
  · rw [if_pos same]
    exact moves.1
  · rw [if_pos same]
    exact moves.1

theorem xyChoice_neighbour {r t : Nat} (inside : r < m.numRouters) (row : m.row t < m.numRows) (different : r ≠ t) :
    ∃ next, m.neighbour r (m.xyChoice r t) = some next ∧ next < m.numRouters ∧
      m.manhattan next t + 1 = m.manhattan r t := by
  have apart := @coords_ne m r t different
  have column := @col_lt m t
  obtain ⟨next, found⟩ : ∃ next, m.neighbour r (m.xyChoice r t) = some next := by
    rcases @xyChoice_cases m r t with ⟨dirn, side⟩ | ⟨dirn, side⟩ | ⟨dirn, side⟩ | ⟨dirn, side⟩ <;>
      rw [dirn] <;> exact ⟨_, if_pos (by omega)⟩
  refine ⟨next, found, neighbour_lt inside found, ?_⟩
  have moves := neighbour_moves found
  unfold manhattan
  rcases @xyChoice_cases m r t with ⟨dirn, side⟩ | ⟨dirn, side⟩ | ⟨dirn, side⟩ | ⟨dirn, side⟩ <;>
    rw [dirn] at moves <;> simp only [Moves] at moves <;> omega

theorem manhattan_eq_zero {a b : Nat} (near : m.manhattan a b = 0) : a = b := by
  unfold manhattan at near
  exact @eq_of_coords m a b (by omega) (by omega)

theorem manhattan_self (a : Nat) : m.manhattan a a = 0 := by
  simp [manhattan]

def horizontal : PortDirection → Bool
  | .East | .West => true
  | _ => false

theorem horizontal_xyChoice (r t : Nat) :
    horizontal (m.xyChoice r t) = decide (m.col r ≠ m.col t) := by
  rcases @xyChoice_cases m r t with ⟨dirn, side⟩ | ⟨dirn, side⟩ | ⟨dirn, side⟩ | ⟨dirn, side⟩ <;>
    rw [dirn] <;> simp only [horizontal] <;> symm
  · simpa using Nat.ne_of_lt side
  · simpa using Nat.ne_of_gt side
  · simpa using side.1
  · simpa using side.1

section Phase

variable {route : RouteInfo} {t : Nat} {Safe : Nat → PortDirection → Prop}

/-- A packet that is steered towards `t` from every router on its way reaches `t` after as many
hops as the distance says. Its last hop is along the row exactly when it started in the row. -/
theorem travel_towards (target : t < m.numRouters)
    (steers : ∀ call r inport, r < m.numRouters → Safe r inport → r ≠ t →
      route.destRouter ≠ r ∧
        ∃ st, (m.unit algorithm r).computeDirn call route inport = .ok (st, route, m.xyChoice r t))
    (closed : ∀ r inport next, Safe r inport → r ≠ t →
      m.neighbour r (m.xyChoice r t) = some next → Safe next (opposite (m.xyChoice r t)))
    (n : Nat) (calls : Nat → RoutingCall) {r : Nat} {inport : PortDirection}
    (inside : r < m.numRouters) (safe : Safe r inport) (distance : m.manhattan r t = n) :
    ∃ hops last, m.travel algorithm n calls ⟨r, inport, route⟩ = .ok (hops, ⟨t, last, route⟩) ∧
      hops.length = n ∧ Safe t last ∧
      ∀ h, hops.getLast? = some h →
        h.next.router = t ∧ horizontal h.dirn = decide (m.row r = m.row t) := by
  induction n generalizing calls r inport with
  | zero =>
    obtain rfl := manhattan_eq_zero distance
    exact ⟨[], inport, rfl, rfl, safe, by simp⟩
  | succ n ih =>
    have different : r ≠ t := by
      rintro rfl
      simp [manhattan_self] at distance
    obtain ⟨elsewhere, st, computed⟩ := steers (calls 0) r inport inside safe different
    obtain ⟨next, found, nextInside, nearer⟩ := xyChoice_neighbour inside (row_lt target) different
    have turn := xyChoice_turn found
    have taken := @hop_eq m algorithm (calls 0) ⟨r, inport, route⟩ _ _ _ _ inside computed found
    obtain ⟨hops, last, travelled, length, safeLast, ending⟩ :=
      ih (fun k => calls (k + 1)) nextInside (closed r inport next safe different found) (by omega)
    refine ⟨_, last, travel_step elsewhere taken travelled, by simp [length], safeLast, ?_⟩
    intro h final
    have apart := @coords_ne m r t different
    cases hops with
    | nil =>
      obtain rfl : next = t := @manhattan_eq_zero m next t (by simp at length; omega)
      obtain rfl : _ = h := by simpa using final
      refine ⟨rfl, ?_⟩
      simp only [horizontal_xyChoice]
      by_cases same : m.col r = m.col next
      · simp [same] at apart ⊢
        exact apart
      · rw [if_neg same] at turn
        simp [same, turn]
    | cons second rest =>
      rw [List.getLast?_cons_cons] at final
      obtain ⟨arrives, along⟩ := ending h final
      refine ⟨arrives, along.trans ?_⟩
      by_cases same : m.col r = m.col t
      · rw [if_pos same] at turn
        have nextApart : next ≠ t := by
          rintro rfl
          simp [manhattan_self] at nearer
          simp [← length] at distance
          omega
        have := @coords_ne m next t nextApart
        simp only [decide_eq_decide]
        omega
      · rw [if_neg same] at turn
        rw [turn]

end Phase

/-- The input directions for which the assertions of `outportComputeXY` hold on the way to `t`. -/
def XYSafe (m : MeshXY) (t r : Nat) (inport : PortDirection) : Prop :=
  r ≠ t → RoutingUnit.xyInportAllowed inport (m.xyChoice r t) = true

theorem xySafe_local (r t : Nat) : m.XYSafe t r .Local := by
  intro _
  rcases @xyChoice_cases m r t with ⟨dirn, -⟩ | ⟨dirn, -⟩ | ⟨dirn, -⟩ | ⟨dirn, -⟩ <;> rw [dirn] <;> rfl

theorem xySafe_next {r t next : Nat} (different : r ≠ t) (found : m.neighbour r (m.xyChoice r t) = some next) :
    m.XYSafe t next (opposite (m.xyChoice r t)) := by
  intro nextDifferent
  have apart := @coords_ne m r t different
  have nextApart := @coords_ne m next t nextDifferent
  have moves := neighbour_moves found
  rcases @xyChoice_cases m r t with ⟨dirn, side⟩ | ⟨dirn, side⟩ | ⟨dirn, side⟩ | ⟨dirn, side⟩ <;>
    rw [dirn] at moves ⊢ <;> simp only [Moves] at moves <;>
    rcases @xyChoice_cases m next t with ⟨turn, goal⟩ | ⟨turn, goal⟩ | ⟨turn, goal⟩ | ⟨turn, goal⟩ <;>
    rw [turn] <;> first | rfl | omega

theorem computeDirn_xy (call : RoutingCall) {r : Nat} {route : RouteInfo} {inport : PortDirection}
    (elsewhere : r ≠ route.destRouter) (safe : m.XYSafe route.destRouter r inport) :
    (m.unit .xy r).computeDirn call route inport = .ok (call.state, route, m.xyChoice r route.destRouter) := by
  have checked : (m.unit .xy r).computeDirn call route inport =
      ((m.unit .xy r).xyCheckedDirn route inport).map fun dirn => (call.state, route, dirn) := rfl
  rw [checked, RoutingUnit.xyCheckedDirn, xyDirn_eq elsewhere]
  simp only [safe elsewhere, if_true]
  rfl

theorem hop_xy {call : RoutingCall} {p : Packet} {h : Hop}
    (elsewhere : p.route.destRouter ≠ p.router) (result : m.hop .xy call p = .ok h) :
    h.next.route = p.route ∧ h.router = p.router ∧
      h.dirn = m.xyChoice p.router p.route.destRouter ∧
      m.neighbour p.router (m.xyChoice p.router p.route.destRouter) = some h.next.router := by
  obtain ⟨same, st, computed⟩ := hop_computed result
  have checked : (m.unit .xy p.router).computeDirn call p.route p.inport =
      ((m.unit .xy p.router).xyCheckedDirn p.route p.inport).map fun dirn =>
        (call.state, p.route, dirn) := rfl
  rw [checked, RoutingUnit.xyCheckedDirn, xyDirn_eq elsewhere.symm] at computed
  dsimp only at computed
  split at computed
  · simp only [Except.map, Except.ok.injEq, Prod.mk.injEq] at computed
    obtain ⟨-, route, dirn⟩ := computed
    have found := hop_neighbour result
    exact ⟨route.symm, same, dirn.symm, dirn ▸ found⟩
  · cases computed

/-- XY routing delivers over neighbours, in as many hops as the routers are apart. In every hop `outportCompute`
returns the port of the neighbour. -/
theorem xy_delivers {s d : Nat} {route : RouteInfo} (inside : s < m.numRouters) (target : d < m.numRouters)
    (different : s ≠ d) (dest : route.destRouter = d) (calls : Nat → RoutingCall) :
    ∃ hops last, m.travel .xy (m.manhattan s d) calls ⟨s, .Local, route⟩ = .ok (hops, ⟨d, last, route⟩) ∧
      hops.length = m.manhattan s d ∧
      ∀ h ∈ hops, m.neighbour h.router h.dirn = some h.next.router ∧ h.next.inport = opposite h.dirn ∧
        ∃ call inport st i port, (m.unit .xy h.router).outportCompute call route inport = .ok (st, route, i) ∧
          (m.topology.outPorts h.router)[i]? = some port ∧
          port.target = m.topology.routerSwitch h.next.router := by
  subst dest
  obtain ⟨hops, last, travelled, length, -⟩ := @travel_towards m .xy route route.destRouter
    (m.XYSafe route.destRouter) target
    (fun call r inport _ safe elsewhere => ⟨elsewhere.symm, call.state, computeDirn_xy call elsewhere safe⟩)
    (fun r inport next _ elsewhere found => xySafe_next elsewhere found)
    (m.manhattan s route.destRouter) calls s .Local inside (xySafe_local _ _) rfl
  refine ⟨hops, last, travelled, length, fun h present => ?_⟩
  obtain ⟨call, before, ⟨sameRoute, beforeInside⟩, elsewhere, taken⟩ :=
    travel_hops (P := fun p => p.route = route ∧ p.router < m.numRouters)
      (fun kept elsewhere taken => by
        obtain ⟨same, -, -, found⟩ := hop_xy elsewhere taken
        exact ⟨same.trans kept.1, neighbour_lt kept.2 found⟩) ⟨rfl, inside⟩ travelled h present
  obtain ⟨same, router, dirn, found⟩ := hop_xy elsewhere taken
  obtain ⟨side, st, i, port, computed, listed, reaches⟩ :=
    outportCompute_of_hop beforeInside elsewhere (by decide) taken
  rw [same, sameRoute] at computed
  rw [router, dirn]
  exact ⟨found, dirn ▸ side, call, before.inport, st, i, port, computed, listed, reaches⟩

theorem xy_delivers_grid : (grid 2 3 (by decide) (by decide) (by decide)).manhattan 0 5 = 3 ∧ ∃ hops last,
    (grid 2 3 (by decide) (by decide) (by decide)).travel .xy
      ((grid 2 3 (by decide) (by decide) (by decide)).manhattan 0 5) (fun _ => {})
      ⟨0, .Local, { destRouter := 5 }⟩ = .ok (hops, ⟨5, last, { destRouter := 5 }⟩) := by
  obtain ⟨hops, last, travelled, -⟩ := @xy_delivers (grid 2 3 (by decide) (by decide) (by decide)) 0 5
    { destRouter := 5 } (by decide) (by decide) (by decide) rfl fun _ => {}
  exact ⟨by decide, hops, last, travelled⟩

end MeshXY

end Resister.Network
