import Resister.Network.GarnetNetwork
import Resister.Network.MeshRoute

/-!
# The pattern defence

`outportPattern` (`DEFENSE0_`) redirects the packets of a flow that it has found in its pattern
table.
-/

namespace Resister.Network

open Garnet

namespace MeshXY

variable {m : MeshXY} {call : RoutingCall} {route : RouteInfo} {inport : PortDirection} {r : Nat}

def flowRisk (table : List PatternEntry) (route : RouteInfo) : Option PatternEntry :=
  (RoutingUnit.riskFind table).filter fun entry => entry.dst == route.destRouter && entry.src == route.srcRouter

/-- The router is an end of the top row, the destination lies in this row, and the former output of the risky
flow is the only direction along the row. -/
def Cornered (m : MeshXY) (table : List PatternEntry) (r : Nat) (route : RouteInfo) : Prop :=
  m.row r + 1 = m.numRows ∧ m.row route.destRouter = m.row r ∧
    ∃ entry, flowRisk table route = some entry ∧
      (entry.output = .East ∧ m.col r = 0 ∨ entry.output = .West ∧ m.col r + 1 = m.numColumns)

def patternChoice (m : MeshXY) (call : RoutingCall) (r : Nat) (route : RouteInfo) : PortDirection :=
  match flowRisk call.state.patternTable route with
  | none => RoutingUnit.dimensionDirn (RoutingUnit.getMyRandom 0 100 call.raw < 50)
      ((m.col route.destRouter : Int) - m.col r) ((m.row route.destRouter : Int) - m.row r)
  | some entry => (m.unit .defense0 r).redirect entry.output ((m.row route.destRouter : Int) - m.row r) call.raw

theorem patternDirn_eq (elsewhere : r ≠ route.destRouter) :
    ∃ st, (m.unit .defense0 r).patternDirn call route = .ok (st, m.patternChoice call r route) := by
  have apart := @coords_ne m r route.destRouter elsewhere
  refine ⟨_, (if_pos ⟨m.rows_pos, m.numColumns_pos⟩).trans (if_neg ?_)⟩
  show ¬ ((m.col route.destRouter : Int) - m.col r = 0 ∧ (m.row route.destRouter : Int) - m.row r = 0)
  omega

theorem dimensionDirn_neighbour (target : route.destRouter < m.numRouters) (elsewhere : r ≠ route.destRouter)
    (xFirst : Bool) :
    ∃ next, m.neighbour r (RoutingUnit.dimensionDirn xFirst ((m.col route.destRouter : Int) - m.col r)
      ((m.row route.destRouter : Int) - m.row r)) = some next := by
  have apart := @coords_ne m r route.destRouter elsewhere
  have column := @col_lt m route.destRouter
  have row := row_lt target
  have along : m.col r ≠ m.col route.destRouter →
      ∃ next, m.neighbour r (if 0 ≤ (m.col route.destRouter : Int) - m.col r then .East else .West) = some next := by
    intro different
    split
    · exact ⟨_, if_pos (by omega)⟩
    · exact ⟨_, if_pos (by omega)⟩
  have across : m.row r ≠ m.row route.destRouter →
      ∃ next, m.neighbour r (if 0 ≤ (m.row route.destRouter : Int) - m.row r then .North else .South) = some next := by
    intro different
    split
    · exact ⟨_, if_pos (by omega)⟩
    · exact ⟨_, if_pos (by omega)⟩
  unfold RoutingUnit.dimensionDirn
  dsimp only
  split
  · split
    · exact along (by omega)
    · exact across (by omega)
  · split
    · exact across (by omega)
    · exact along (by omega)

def redirectOptions (former : PortDirection) (ey : Int) : PortDirection × PortDirection :=
  let row : PortDirection := if 0 ≤ ey then .North else .South
  match former with
  | .East => (.West, row)
  | .West => (.East, row)
  | _ => (.East, .West)

theorem redirectOptions_eq (former : PortDirection) (ey : Int) :
    let allList := [PortDirection.East, .West, .South, .North].filter fun dirn =>
      dirn != former && dirn != if 0 ≤ ey then .South else .North
    allList.getD 0 .Unknown = (redirectOptions former ey).1 ∧
      allList.getD 1 .Unknown = (redirectOptions former ey).2 := by
  by_cases up : 0 ≤ ey
  · cases former <;> simp [redirectOptions, up]
  · cases former <;> simp [redirectOptions, up]

theorem missing_iff {dirn : PortDirection} (inside : r < m.numRouters)
    (listed : dirn ∈ [PortDirection.East, .West, .South, .North]) :
    (dirn = .South ∧ m.row r = 0 ∨ dirn = .North ∧ m.row r + 1 = m.numRows ∨
      dirn = .West ∧ m.col r = 0 ∨ dirn = .East ∧ m.col r + 1 = m.numColumns) ↔ m.neighbour r dirn = none := by
  have column := @col_lt m r
  have row := row_lt inside
  simp only [List.mem_cons, List.not_mem_nil, or_false] at listed
  rcases listed with rfl | rfl | rfl | rfl <;> simp [neighbour] <;> omega

theorem redirectOptions_listed (former : PortDirection) (ey : Int) :
    (redirectOptions former ey).1 ∈ [PortDirection.East, .West, .South, .North] ∧
      (redirectOptions former ey).2 ∈ [PortDirection.East, .West, .South, .North] := by
  unfold redirectOptions
  by_cases up : 0 ≤ ey
  · cases former <;> simp [up]
  · cases former <;> simp [up]

def fallback (m : MeshXY) (r : Nat) (chosen other : PortDirection) : PortDirection :=
  if m.neighbour r chosen = none then other else chosen

theorem fallback_neighbour (chosen other : PortDirection) :
    (∃ next, m.neighbour r (m.fallback r chosen other) = some next) ↔
      (∃ next, m.neighbour r chosen = some next) ∨ ∃ next, m.neighbour r other = some next := by
  unfold fallback
  cases found : m.neighbour r chosen with
  | none => simp
  | some next => simp [found]

theorem redirect_eq (former : PortDirection) (ey : Int) (raw : Nat) (inside : r < m.numRouters) :
    (m.unit .defense0 r).redirect former ey raw =
      if RoutingUnit.getMyRandom 0 100 raw < 50 then
        m.fallback r (redirectOptions former ey).1 (redirectOptions former ey).2
      else m.fallback r (redirectOptions former ey).2 (redirectOptions former ey).1 := by
  obtain ⟨first, second⟩ := redirectOptions_eq former ey
  obtain ⟨firstListed, secondListed⟩ := redirectOptions_listed former ey
  unfold RoutingUnit.redirect
  dsimp only
  by_cases low : RoutingUnit.getMyRandom 0 100 raw < 50
  · simp only [low, if_true, Nat.sub_zero, first, second]
    exact if_congr (missing_iff inside firstListed) rfl rfl
  · simp only [low, if_false, Nat.sub_self, first, second]
    exact if_congr (missing_iff inside secondListed) rfl rfl

theorem redirect_neighbour (former : PortDirection) (ey : Int) (raw : Nat) (inside : r < m.numRouters) :
    (∃ next, m.neighbour r ((m.unit .defense0 r).redirect former ey raw) = some next) ↔
      (∃ next, m.neighbour r (redirectOptions former ey).1 = some next) ∨
        ∃ next, m.neighbour r (redirectOptions former ey).2 = some next := by
  rw [redirect_eq former ey raw inside]
  split
  · exact fallback_neighbour _ _
  · exact (fallback_neighbour _ _).trans Or.comm

theorem redirectOptions_neighbour (columns : 2 ≤ m.numColumns) (inside : r < m.numRouters)
    {d : Nat} (target : d < m.numRouters) (former : PortDirection) :
    ((∃ next, m.neighbour r (redirectOptions former ((m.row d : Int) - m.row r)).1 = some next) ∨
        ∃ next, m.neighbour r (redirectOptions former ((m.row d : Int) - m.row r)).2 = some next) ↔
      ¬ (m.row r + 1 = m.numRows ∧ m.row d = m.row r ∧
        (former = .East ∧ m.col r = 0 ∨ former = .West ∧ m.col r + 1 = m.numColumns)) := by
  have row := row_lt inside
  have destRow := row_lt target
  have column := @col_lt m r
  have east : (∃ next, m.neighbour r .East = some next) ↔ m.col r + 1 < m.numColumns := by simp [neighbour]
  have west : (∃ next, m.neighbour r .West = some next) ↔ 0 < m.col r := by simp [neighbour]
  have north : (∃ next, m.neighbour r .North = some next) ↔ m.row r + 1 < m.numRows := by simp [neighbour]
  have south : (∃ next, m.neighbour r .South = some next) ↔ 0 < m.row r := by simp [neighbour]
  unfold redirectOptions
  by_cases up : 0 ≤ (m.row d : Int) - m.row r
  · cases former <;> simp only [up, if_true, east, west, north, reduceCtorEq, false_and, true_and, or_false, false_or,
      and_false, not_false_eq_true, iff_true] <;> omega
  · cases former <;> simp only [up, if_false, east, west, south, reduceCtorEq, false_and, true_and, or_false, false_or,
      and_false, not_false_eq_true, iff_true] <;> omega

/-- The direction that the pattern defence chooses has a neighbour, with or without a risk, except for the
redirected packets within the top row at its two ends. -/
theorem pattern_stays_iff (columns : 2 ≤ m.numColumns) (inside : r < m.numRouters)
    (target : route.destRouter < m.numRouters) (elsewhere : r ≠ route.destRouter) (call : RoutingCall) :
    (∃ st dirn next, (m.unit .defense0 r).patternDirn call route = .ok (st, dirn) ∧
        m.neighbour r dirn = some next) ↔ ¬ m.Cornered call.state.patternTable r route := by
  obtain ⟨st, chosen⟩ := @patternDirn_eq m call route r elsewhere
  have unique : (∃ st dirn next, (m.unit .defense0 r).patternDirn call route = .ok (st, dirn) ∧
      m.neighbour r dirn = some next) ↔ ∃ next, m.neighbour r (m.patternChoice call r route) = some next := by
    rw [chosen]
    constructor
    · rintro ⟨_, _, next, ⟨⟩, found⟩
      exact ⟨next, found⟩
    · rintro ⟨next, found⟩
      exact ⟨st, _, next, rfl, found⟩
  rw [unique, patternChoice]
  unfold Cornered
  cases risk : flowRisk call.state.patternTable route with
  | none =>
    simp only [reduceCtorEq, false_and, exists_false, and_false, not_false_eq_true, iff_true]
    exact dimensionDirn_neighbour target elsewhere _
  | some entry =>
    refine ((redirect_neighbour _ _ _ inside).trans
      (redirectOptions_neighbour columns inside target entry.output)).trans ?_
    simp

theorem pattern_stays_first : ∃ st dirn next,
    ((grid 2 2 (by decide) (by decide) (by decide)).unit .defense0 2).patternDirn {}
    { srcRouter := 2, destRouter := 3 } =
      .ok (st, dirn) ∧ (grid 2 2 (by decide) (by decide) (by decide)).neighbour 2 dirn = some next := by
  refine (pattern_stays_iff (by decide) (by decide) (by decide) (by decide) {}).mpr ?_
  rintro ⟨-, -, entry, risk, -⟩
  have none : flowRisk (RoutingCall.state {}).patternTable { srcRouter := 2, destRouter := 3 } = none := by decide
  rw [none] at risk
  cases risk

/-- Every second cycle a packet of one flit enters router 2, the left end of the top row, for router 3. -/
def patternPackets (n : Nat) : List Event :=
  (List.range n).flatMap fun k =>
    let t := 1000 + 1000 * k
    [.protocol 2 0 [⟨64, NetDest.empty.add ⟨0, 3⟩, t⟩], .ni 2 t, .link 2 (t + 500), .router 2 (t + 1000) fun _ => {}]

/-- Eight packets leave a table for which the ninth one is sent to a missing neighbour, and so over port 0 to the
network interface of its source. -/
theorem pattern_leaves_square :
    (Net.run patternSquare (patternPackets 8)).flow.faults = [] ∧
    (¬ ∃ st dirn next, ((grid 2 2 (by decide) (by decide) (by decide)).unit .defense0 2).patternDirn
        ⟨{ patternTable := (Net.run patternSquare (patternPackets 8)).patternTable 2 }, 0, 10000, 0⟩
        { srcRouter := 2, destRouter := 3 } = .ok (st, dirn) ∧
      (grid 2 2 (by decide) (by decide) (by decide)).neighbour 2 dirn = some next) ∧
    patternSquare.sink 10 = some (.ni 2) ∧
    ((Net.run patternSquare (patternPackets 9)).flow.outQueue 10).map (fun f => f.route.destRouter) = [3] := by
  refine ⟨by decide +kernel, ?_, by decide +kernel, by decide +kernel⟩
  rintro ⟨st, dirn, next, chosen, found⟩
  have north : (((grid 2 2 (by decide) (by decide) (by decide)).unit .defense0 2).patternDirn
      ⟨{ patternTable := (Net.run patternSquare (patternPackets 8)).patternTable 2 }, 0, 10000, 0⟩
      { srcRouter := 2, destRouter := 3 }).map Prod.snd = .ok .North := by decide +kernel
  rw [chosen] at north
  cases north
  have missing : (grid 2 2 (by decide) (by decide) (by decide)).neighbour 2 .North = none := by decide
  rw [missing] at found
  cases found

end MeshXY

end Resister.Network
