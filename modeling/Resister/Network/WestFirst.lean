import Resister.Network.ChannelDependency

/-!
# West-first routing

Packets routed by `outportRanWestFirst`.
-/

namespace Resister.Network

open Garnet

namespace MeshXY

variable {m : MeshXY} {call : RoutingCall} {route : RouteInfo} {inport : PortDirection} {r t next : Nat}

def WestFirst (m : MeshXY) (r t : Nat) : PortDirection → Prop
  | .West => m.col t < m.col r
  | .East => m.col r < m.col t
  | .North => m.col r ≤ m.col t ∧ m.row r < m.row t
  | .South => m.col r ≤ m.col t ∧ m.row t < m.row r
  | _ => False

theorem mem_westFirstOptions {ex ey : Int} {dirn : PortDirection} :
    dirn ∈ RoutingUnit.westFirstOptions ex ey ↔
      dirn = .West ∧ ex < 0 ∨
        0 ≤ ex ∧ (dirn = .North ∧ 0 < ey ∨ dirn = .East ∧ 0 < ex ∨ dirn = .South ∧ ey < 0) := by
  unfold RoutingUnit.westFirstOptions
  by_cases west : ex < 0
  · simp [west]
  · have east : 0 ≤ ex := by omega
    simp [west, east, and_comm]

theorem ranWestFirstDirn_mem (different : r ≠ route.destRouter) (raw : Nat) :
    ∃ dirn ∈ RoutingUnit.westFirstOptions ((m.col route.destRouter : Int) - m.col r)
        ((m.row route.destRouter : Int) - m.row r),
      (m.unit .ranWestFirst r).ranWestFirstDirn route raw = .ok dirn := by
  have apart := @coords_ne m r route.destRouter different
  refine RoutingUnit.ranWestFirstDirn_option m.rows_pos m.numColumns_pos rfl rfl fun options => ?_
  have none : ∀ dirn, ¬ dirn ∈ RoutingUnit.westFirstOptions ((m.col route.destRouter : Int) - m.col r)
      ((m.row route.destRouter : Int) - m.row r) := by simp [options]
  have west := none .West
  have east := none .East
  have north := none .North
  have south := none .South
  simp only [mem_westFirstOptions, reduceCtorEq, true_and, false_and, false_or, or_false] at west east north south
  omega

theorem westFirst_of_mem {dirn : PortDirection}
    (listed : dirn ∈ RoutingUnit.westFirstOptions ((m.col t : Int) - m.col r) ((m.row t : Int) - m.row r)) :
    m.WestFirst r t dirn := by
  rcases mem_westFirstOptions.mp listed with ⟨rfl, west⟩ | ⟨east, ⟨rfl, north⟩ | ⟨rfl, along⟩ | ⟨rfl, south⟩⟩ <;>
    simp only [WestFirst] <;> omega

theorem westFirst_neighbour {dirn : PortDirection} (target : t < m.numRouters) (taken : m.WestFirst r t dirn) :
    ∃ next, m.neighbour r dirn = some next ∧ m.manhattan next t + 1 = m.manhattan r t := by
  have column := @col_lt m t
  have row := row_lt target
  obtain ⟨next, found⟩ : ∃ next, m.neighbour r dirn = some next := by
    cases dirn <;> simp only [WestFirst] at taken <;> exact ⟨_, if_pos (by omega)⟩
  refine ⟨next, found, ?_⟩
  have moves := neighbour_moves found
  unfold manhattan
  cases dirn <;> simp only [WestFirst] at taken <;> simp only [Moves] at moves <;> omega

theorem computeDirn_westFirst (elsewhere : r ≠ route.destRouter) :
    ∃ dirn, (m.unit .ranWestFirst r).computeDirn call route inport = .ok (call.state, route, dirn) ∧
      m.WestFirst r route.destRouter dirn := by
  obtain ⟨dirn, listed, chosen⟩ := ranWestFirstDirn_mem elsewhere call.raw
  have computed : (m.unit .ranWestFirst r).computeDirn call route inport =
      ((m.unit .ranWestFirst r).ranWestFirstDirn route call.raw).map fun dirn => (call.state, route, dirn) := rfl
  rw [computed, chosen]
  exact ⟨dirn, rfl, westFirst_of_mem listed⟩

theorem hop_westFirst {p : Packet} {h : Hop} (elsewhere : p.route.destRouter ≠ p.router)
    (result : m.hop .ranWestFirst call p = .ok h) :
    h.next.route = p.route ∧ h.router = p.router ∧ m.WestFirst p.router p.route.destRouter h.dirn ∧
      m.neighbour p.router h.dirn = some h.next.router := by
  obtain ⟨same, st, computed⟩ := hop_computed result
  obtain ⟨dirn, chosen, taken⟩ := @computeDirn_westFirst m call p.route p.inport p.router elsewhere.symm
  obtain ⟨-, route, rfl⟩ := Prod.mk.inj (Except.ok.inj (chosen.symm.trans computed)) |>.imp id Prod.mk.inj
  exact ⟨route.symm, same, taken, hop_neighbour result⟩

theorem westFirst_turn {dirn turn : PortDirection} (taken : m.WestFirst r t dirn)
    (found : m.neighbour r dirn = some next) (after : m.WestFirst next t turn) (west : turn = .West) :
    dirn = .West := by
  subst west
  have moves := neighbour_moves found
  cases dirn <;> simp only [WestFirst] at taken after <;> simp only [Moves] at moves <;> first | rfl | omega

def NoTurnWest (hops : List Hop) : Prop :=
  hops.IsChain fun first second => second.dirn = .West → first.dirn = .West

theorem travel_westFirst (n : Nat) (calls : Nat → RoutingCall) (inside : r < m.numRouters)
    (target : route.destRouter < m.numRouters) (distance : m.manhattan r route.destRouter = n) :
    ∃ hops last, m.travel .ranWestFirst n calls ⟨r, inport, route⟩ = .ok (hops, ⟨route.destRouter, last, route⟩) ∧
      hops.length = n ∧ NoTurnWest hops ∧
      ∀ h, hops.head? = some h → h.router = r ∧ m.WestFirst r route.destRouter h.dirn := by
  induction n generalizing calls r inport with
  | zero =>
    obtain rfl := manhattan_eq_zero distance
    exact ⟨[], inport, rfl, rfl, List.isChain_nil, by simp⟩
  | succ n ih =>
    have different : r ≠ route.destRouter := by
      rintro same
      rw [← same, manhattan_self] at distance
      omega
    obtain ⟨dirn, computed, taken⟩ := @computeDirn_westFirst m (calls 0) route inport r different
    obtain ⟨next, found, nearer⟩ := westFirst_neighbour target taken
    obtain ⟨hops, last, travelled, length, chain, start⟩ :=
      @ih (opposite dirn) next (fun k => calls (k + 1)) (neighbour_lt inside found) (by omega)
    refine ⟨_, last, travel_step different.symm (hop_eq inside computed found) travelled, by simp [length], ?_, ?_⟩
    · refine List.isChain_cons.mpr ⟨fun h first => ?_, chain⟩
      obtain ⟨-, after⟩ := start h first
      exact westFirst_turn taken found after
    · rintro h ⟨⟩
      exact ⟨rfl, taken⟩

def westFirstRank (m : MeshXY) : Channel → Nat
  | (r, .West) => m.numColumns - m.col r
  | (r, .North) => m.numColumns + m.col r * (m.numRows + 1) + m.row r
  | (r, .South) => m.numColumns + m.col r * (m.numRows + 1) + (m.numRows - 1 - m.row r)
  | (r, .East) => m.numColumns + m.col r * (m.numRows + 1) + m.numRows
  | _ => 0

theorem westFirstRank_increases {dirn turn : PortDirection} (inside : r < m.numRouters)
    (taken : m.WestFirst r t dirn) (found : m.neighbour r dirn = some next) (after : m.WestFirst next t turn) :
    m.westFirstRank (r, dirn) < m.westFirstRank (next, turn) := by
  have moves := neighbour_moves found
  have rows := row_lt inside
  have nextRows := row_lt (neighbour_lt inside found)
  have column := @col_lt m r
  have nextColumn := @col_lt m next
  have wider : (m.col r + 1) * (m.numRows + 1) = m.col r * (m.numRows + 1) + m.numRows + 1 := by
    rw [Nat.succ_mul, Nat.add_assoc]
  cases dirn <;> simp only [WestFirst] at taken <;> simp only [Moves] at moves <;>
    cases turn <;> simp only [WestFirst] at after <;> simp only [westFirstRank, moves] <;> omega

theorem underWay_westFirst {p : Packet} (way : m.UnderWay .ranWestFirst m.Injected p) : p.router < m.numRouters := by
  induction way with
  | source injected => exact injected.inside
  | @hop p call h _ elsewhere taken ih => exact neighbour_lt ih (hop_westFirst elsewhere taken).2.2.2

theorem westFirst_acyclic (m : MeshXY) : Acyclic (m.Depends .ranWestFirst m.Injected) := by
  apply acyclic_of_rank m.westFirstRank
  rintro a b ⟨p, call, nextCall, h, k, way, elsewhere, taken, nextElsewhere, nextTaken, rfl, rfl⟩
  obtain ⟨route, router, dirn, found⟩ := hop_westFirst elsewhere taken
  obtain ⟨-, nextRouter, nextDirn, -⟩ := hop_westFirst nextElsewhere nextTaken
  rw [route] at nextDirn
  rw [router, nextRouter]
  exact westFirstRank_increases (underWay_westFirst way) dirn found nextDirn

/-- West-first routing delivers over neighbours in as many hops as the routers are apart, without a turn into
west, and its channel dependencies are acyclic. -/
theorem west_first_routing (m : MeshXY) :
    (∀ s d route calls, s < m.numRouters → d < m.numRouters → s ≠ d → route.destRouter = d →
      ∃ hops last,
        m.travel .ranWestFirst (m.manhattan s d) calls ⟨s, .Local, route⟩ = .ok (hops, ⟨d, last, route⟩) ∧
        hops.length = m.manhattan s d ∧
        (∀ h ∈ hops, m.neighbour h.router h.dirn = some h.next.router) ∧ NoTurnWest hops) ∧
      Acyclic (m.Depends .ranWestFirst m.Injected) := by
  refine ⟨?_, westFirst_acyclic m⟩
  rintro s d route calls inside target different rfl
  obtain ⟨hops, last, travelled, length, chain, -⟩ := travel_westFirst _ calls inside target rfl
  exact ⟨hops, last, travelled, length, travel_neighbours travelled, chain⟩

theorem west_first_routing_grid : ∃ hops last, (grid 2 3 (by decide) (by decide) (by decide)).travel .ranWestFirst
      ((grid 2 3 (by decide) (by decide) (by decide)).manhattan 2 3) (fun k => { raw := k })
      ⟨2, .Local, { destRouter := 3 }⟩ = .ok (hops, ⟨3, last, { destRouter := 3 }⟩) ∧ NoTurnWest hops := by
  obtain ⟨hops, last, travelled, -, -, chain⟩ :=
    (west_first_routing (grid 2 3 (by decide) (by decide) (by decide))).1 2 3 { destRouter := 3 }
      (fun k => { raw := k }) (by decide) (by decide) (by decide) rfl
  exact ⟨hops, last, travelled, chain⟩

end MeshXY

end Resister.Network
