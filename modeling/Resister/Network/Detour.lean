import Resister.Network.Valiant

/-!
# Detours

Packets routed by `outportValiant` (`DEFENSE1_`). A tagged packet walks to its intermediate router
and from there to its destination.
-/

namespace Resister.Network

open Garnet

namespace MeshXY

variable {m : MeshXY} {call : RoutingCall} {route : RouteInfo} {inport : PortDirection} {r i : Nat}

theorem valiantInter_row {d : Nat} (dest : route.destRouter = d) (sameRow : m.row r = m.row d)
    (columns : m.col r ≠ m.col d) (raw : Nat) :
    (m.unit .defense1 r).valiantInter route raw =
      match (RoutingUnit.optionsExcept m.numColumns (m.row r))[
          RoutingUnit.getMyRandom 0 ((m.numColumns : Int) - 2) raw]? with
      | some newY => .ok (route.setInter (newY * m.numColumns + m.col r))
      | none => .error .outOfBounds := by
  subst dest
  have along : 0 < ((m.col route.destRouter : Int) - m.col r).natAbs ∧
      ((m.row route.destRouter : Int) - m.row r).natAbs = 0 := by omega
  exact if_pos along

theorem valiantInter_column {d : Nat} (dest : route.destRouter = d) (rows : m.row r ≠ m.row d) (raw : Nat) :
    (m.unit .defense1 r).valiantInter route raw =
      match (RoutingUnit.optionsExcept m.numColumns (m.col d))[
          RoutingUnit.getMyRandom 0 ((m.numColumns : Int) - 2) raw]? with
      | some newX => .ok (route.setInter (newX + m.row d * m.numColumns))
      | none => .error .outOfBounds := by
  subst dest
  have across : ¬ (0 < ((m.col route.destRouter : Int) - m.col r).natAbs ∧
      ((m.row route.destRouter : Int) - m.row r).natAbs = 0) := by omega
  refine (if_neg across).trans ?_
  by_cases sameColumn : m.col r = m.col route.destRouter
  · have straight : 0 < ((m.row route.destRouter : Int) - m.row r).natAbs ∧
        ((m.col route.destRouter : Int) - m.col r).natAbs = 0 := by omega
    refine (if_pos straight).trans ?_
    simp only [Nat.add_comm]
    rfl
  · have notStraight : ¬ (0 < ((m.row route.destRouter : Int) - m.row r).natAbs ∧
        ((m.col route.destRouter : Int) - m.col r).natAbs = 0) := by omega
    have both : 0 < ((m.row route.destRouter : Int) - m.row r).natAbs ∧
        0 < ((m.col route.destRouter : Int) - m.col r).natAbs := by omega
    exact (if_neg notStraight).trans (if_pos both)

theorem exists_draw {d y : Nat} (dest : route.destRouter = d) (sameRow : m.row r = m.row d)
    (columns : m.col r ≠ m.col d) (left : m.row r < m.numColumns) (below : y < m.numColumns) (other : y ≠ m.row r) :
    ∃ raw, (m.unit .defense1 r).valiantInter route raw =
      .ok (route.setInter (m.col r + y * m.numColumns)) := by
  have bound : (m.numColumns : Int) - 2 = ((m.numColumns - 2 : Nat) : Int) := by omega
  have few : (RoutingUnit.optionsExcept m.numColumns (m.row r)).length ≤ m.numColumns - 2 + 1 := by
    rw [RoutingUnit.length_optionsExcept, if_pos left]
    omega
  obtain ⟨raw, picked⟩ := RoutingUnit.pick_surjective (by have := m.numColumns_int; omega) few
    (RoutingUnit.mem_optionsExcept.mpr ⟨below, other⟩)
  refine ⟨raw, ?_⟩
  rw [valiantInter_row dest sameRow columns, bound, picked, Nat.add_comm]

section Routes

variable {s d : Nat} (inside : s < m.numRouters) (target : d < m.numRouters) (different : s ≠ d)

/-- A router where a detour from `s` to `d` may turn: it is in the mesh and off the column of
`d`, and the walk to it does not meet `d`. -/
structure Turning (m : MeshXY) (s d i : Nat) : Prop where
  inside : i < m.numRouters
  source : i ≠ s
  column : m.col i ≠ m.col d
  clear : m.col s = m.col i ∨ m.row s ≠ m.row d
  row : m.row i = m.row d ↔ m.row s ≠ m.row d

include target different

theorem exists_turning (tagged : Tagged route d) (columns : m.col s = m.col d → 2 ≤ m.numColumns)
    (rows : m.row s = m.row d → m.numColumns ≤ m.numRows) (raw : Nat) :
    ∃ i, (m.unit .defense1 s).valiantInter route raw = .ok (route.setInter i) ∧ Turning m s d i := by
  have apart := @coords_ne m s d different
  have sCol := @col_lt m s
  have dCol := @col_lt m d
  have wide : 2 ≤ m.numColumns := by
    by_cases same : m.col s = m.col d
    · exact columns same
    · omega
  by_cases sameRow : m.row s = m.row d
  · have otherColumn : m.col s ≠ m.col d := fun same => apart ⟨same, sameRow⟩
    obtain ⟨newY, picked, below, other⟩ :=
      RoutingUnit.pick_optionsExcept wide m.numColumns_int (m.row s) raw
    refine ⟨newY * m.numColumns + m.col s, ?_, ?_⟩
    · rw [valiantInter_row tagged.dest sameRow otherColumn, picked]
    · rw [Nat.add_comm]
      have iCol : m.col (m.col s + newY * m.numColumns) = m.col s := cell_mod sCol
      have iRow : m.row (m.col s + newY * m.numColumns) = newY := cell_div sCol
      refine ⟨cell_lt (Nat.lt_of_lt_of_le below (rows sameRow)) sCol, ?_, ?_, Or.inl iCol.symm, ?_⟩
      · intro same
        rw [same] at iRow
        exact other iRow.symm
      · rw [iCol]
        exact otherColumn
      · rw [iRow]
        constructor
        · intro same
          exact absurd (same.trans sameRow.symm) other
        · intro apart
          exact absurd sameRow apart
  · obtain ⟨newX, picked, below, other⟩ :=
      RoutingUnit.pick_optionsExcept wide m.numColumns_int (m.col d) raw
    refine ⟨newX + m.row d * m.numColumns, ?_, ?_⟩
    · rw [valiantInter_column tagged.dest sameRow, picked]
    · have iCol : m.col (newX + m.row d * m.numColumns) = newX := cell_mod below
      have iRow : m.row (newX + m.row d * m.numColumns) = m.row d := cell_div below
      refine ⟨cell_lt (row_lt target) below, ?_, ?_, Or.inr sameRow, ?_⟩
      · intro same
        rw [same] at iRow
        exact sameRow iRow
      · rw [iCol]
        exact other
      · simp [iRow, sameRow]

include inside

theorem detour_travels (tagged : Tagged route d) (calls : Nat → RoutingCall)
    (chosen : (m.unit .defense1 s).valiantInter route (calls 0).raw = .ok (route.setInter i))
    (turning : Turning m s d i) :
    ∃ before after q,
      m.travel .defense1 (m.manhattan s i + m.manhattan i d) calls ⟨s, inport, route⟩ =
        .ok (before ++ after, q) ∧
      q.router = d ∧ q.route.interRoute = some i ∧
      before.length = m.manhattan s i ∧ after.length = m.manhattan i d ∧
      (∀ h, before.getLast? = some h → h.next.router = i) ∧
      ∀ h, after.getLast? = some h →
        h.next.router = d ∧ horizontal h.dirn = decide (m.row s ≠ m.row d) := by
  have iNotD : i ≠ d := fun same => turning.column (by rw [same])
  have clear : ¬ m.Meets s i d := by
    have column := turning.column
    have clear := turning.clear
    unfold Meets
    omega
  obtain ⟨before, after, last, travelled, beforeLength, afterLength, beforeEnd, afterEnd⟩ :=
    travel_over walks_valiant inside target different tagged calls turning.source chosen turning.inside iNotD clear
  refine ⟨before, after, _, travelled, rfl, rfl, beforeLength, afterLength, beforeEnd, fun h final => ?_⟩
  obtain ⟨arrives, along⟩ := afterEnd h final
  exact ⟨arrives, along.trans (decide_eq_decide.mpr turning.row)⟩

omit inside target in
theorem not_delivers_column (tagged : Tagged route d) (sameColumn : m.col s = m.col d)
    (narrow : m.numColumns < 2) (calls : Nat → RoutingCall) :
    ¬ m.Delivers .defense1 calls ⟨s, inport, route⟩ d := by
  rintro ⟨fuel, hops, q, travelled, arrived⟩
  have otherRow : m.row s ≠ m.row d := fun same => different (eq_of_coords sameColumn same)
  have empty : RoutingUnit.optionsExcept m.numColumns (m.col d) = [] := by
    apply List.eq_nil_of_length_eq_zero
    have := @col_lt m d
    rw [RoutingUnit.length_optionsExcept, if_pos this]
    omega
  have failed : (m.unit .defense1 s).valiantInter route (calls 0).raw = .error .outOfBounds := by
    rw [valiantInter_column tagged.dest otherRow, empty]
    rfl
  have blocked : m.hop .defense1 (calls 0) ⟨s, inport, route⟩ = .error (.abort .outOfBounds) := by
    have unmarked : (m.unit .defense1 s).markPassed route = route := by
      simp [RoutingUnit.markPassed, tagged.inter]
    have columns : 0 < (m.unit .defense1 s).numRows ∧ 0 < (m.unit .defense1 s).numCols :=
      ⟨m.rows_pos, m.numColumns_pos⟩
    simp [hop, walks_valiant s, RoutingUnit.valiantWalk, tagged.tag,
      unmarked, tagged.inter, columns, failed, Except.map]
  rw [travel_stuck blocked travelled] at arrived
  exact different arrived

omit inside target different in
theorem lost_northwards (tag : route.sTag = 1) (inter : route.interRoute = some i)
    (passed : route.passedMid = false) (outside : m.numRows ≤ m.row i) (fuel : Nat)
    (calls : Nat → RoutingCall) {q : Packet} {hops : List Hop} (start : r < m.numRouters) (column : m.col r = m.col i)
    (travelled : m.travel .defense1 fuel calls ⟨r, inport, route⟩ = .ok (hops, q)) :
    m.col q.router = m.col i := by
  induction fuel generalizing calls r inport hops with
  | zero =>
    cases travelled
    exact column
  | succ fuel ih =>
    have below := row_lt start
    have elsewhere : r ≠ i := by
      rintro rfl
      omega
    have north : m.xyChoice r i = .North := by
      rw [xyChoice, if_neg (by simpa using column), if_pos (by omega)]
    have computed : (m.unit .defense1 r).computeDirn (calls 0) route inport =
        .ok ((calls 0).state, route, m.xyChoice r i) :=
      computeDirn_heading walks_valiant tag inter passed elsewhere
    rw [north] at computed
    cases found : m.neighbour r .North with
    | none =>
      rw [travel_stuck (hop_missing computed found (by decide)) travelled]
      exact column
    | some next =>
      have taken := @hop_eq m .defense1 (calls 0) ⟨r, inport, route⟩ _ _ _ _ start computed found
      rcases travel_cases travelled with ⟨-, rfl⟩ | ⟨h, rest, -, hopped, remaining, -⟩
      · exact column
      · obtain rfl := Except.ok.inj (taken.symm.trans hopped)
        exact ih _ (neighbour_lt start found) ((neighbour_moves found).1.trans column) remaining

omit target in
theorem not_delivers_row (tagged : Tagged route d) (sameRow : m.row s = m.row d) (wide : m.numRows < m.numColumns) :
    ∃ calls, ¬ m.Delivers .defense1 calls ⟨s, inport, route⟩ d := by
  have otherColumn : m.col s ≠ m.col d := fun same => different (eq_of_coords same sameRow)
  have sRow := row_lt inside
  have sCol := @col_lt m s
  let i := m.col s + (m.numColumns - 1) * m.numColumns
  obtain ⟨raw, chosen⟩ : ∃ raw, (m.unit .defense1 s).valiantInter route raw = .ok (route.setInter i) :=
    exists_draw tagged.dest sameRow otherColumn (by omega) (by omega) (by omega)
  have iCol : m.col i = m.col s := cell_mod sCol
  have iRow : m.row i = m.numColumns - 1 := cell_div sCol
  refine ⟨fun _ => { raw := raw }, ?_⟩
  rintro ⟨fuel, hops, q, travelled, arrived⟩
  have elsewhere : s ≠ i := by
    intro same
    rw [← same] at iRow
    omega
  rcases Nat.eq_zero_or_pos fuel with rfl | positive
  · cases travelled
    exact different arrived
  · have start : m.travel .defense1 fuel (fun _ => { raw := raw }) ⟨s, inport, route⟩ =
        m.travel .defense1 fuel (fun _ => { raw := raw }) ⟨s, inport, route.setInter i⟩ :=
      travel_congr rfl (computeDirn_fresh walks_valiant tagged elsewhere chosen) positive (tagged.dest ▸ different.symm)
    rw [start] at travelled
    have column := @lost_northwards m (route.setInter i) inport s i tagged.tag rfl tagged.passed (by omega)
      fuel _ q hops inside iCol.symm travelled
    rw [arrived, iCol] at column
    exact otherColumn column.symm

end Routes

/-- A tagged packet is delivered for every draw exactly when its row leaves enough rows, and its
column enough columns, to choose from. -/
theorem detour_delivers_iff {s d : Nat} (inside : s < m.numRouters) (target : d < m.numRouters)
    (different : s ≠ d) (tagged : Tagged route d) :
    (∀ calls, m.Delivers .defense1 calls ⟨s, .Local, route⟩ d) ↔
      (m.col s = m.col d → 2 ≤ m.numColumns) ∧ (m.row s = m.row d → m.numColumns ≤ m.numRows) := by
  constructor
  · intro delivers
    constructor
    · intro sameColumn
      by_contra narrow
      exact not_delivers_column different tagged sameColumn (by omega) (fun _ => {})
        (delivers _)
    · intro sameRow
      by_contra wide
      obtain ⟨calls, lost⟩ := not_delivers_row inside different tagged sameRow (by omega)
      exact lost (delivers calls)
  · rintro ⟨columns, rows⟩ calls
    obtain ⟨i, chosen, turning⟩ := exists_turning target different tagged columns rows (calls 0).raw
    obtain ⟨before, after, q, travelled, arrived, -⟩ :=
      detour_travels inside target different tagged calls chosen turning
    exact ⟨_, _, q, travelled, arrived⟩

theorem detour_delivers_grid : (grid 2 2 (by decide) (by decide) (by decide)).numColumns = 2 ∧
    ∀ calls, (grid 2 2 (by decide) (by decide) (by decide)).Delivers .defense1 calls
      ⟨0, .Local, { sTag := 1, destRouter := 1 }⟩ 1 :=
  ⟨by decide, (detour_delivers_iff (by decide) (by decide) (by decide) ⟨rfl, rfl, rfl, rfl⟩).mpr
    ⟨fun _ => by decide, fun _ => by decide⟩⟩

/-- In a single row of two routers the only intermediate row is the missing one. -/
theorem detour_misses_row : ¬ (grid 1 2 (by decide) (by decide) (by decide)).Delivers .defense1
    (fun _ => {}) ⟨0, .Local, { sTag := 1, destRouter := 1 }⟩ 1 := by
  rintro ⟨fuel, hops, q, travelled, arrived⟩
  have blocked : (grid 1 2 (by decide) (by decide) (by decide)).hop .defense1 {}
      ⟨0, .Local, { sTag := 1, destRouter := 1 }⟩ = .error (.missing .North) := by decide
  have stays := @travel_stuck _ _ fuel (fun _ => {}) _ q _ hops blocked travelled
  rw [stays] at arrived
  exact absurd arrived (by decide)

/-- On a square mesh a detour passes its intermediate router before the destination, takes as
many hops as the two distances add up to, and comes in along the other dimension than the
packet that is not tagged. -/
theorem detour_is_real {s d : Nat} {plain : RouteInfo} (square : m.numRows = m.numColumns)
    (size : 2 ≤ m.numColumns) (inside : s < m.numRouters) (target : d < m.numRouters)
    (different : s ≠ d) (tagged : Tagged route d) (untagged : Untagged plain d)
    (calls directCalls : Nat → RoutingCall) :
    ∃ inter before after direct q r,
      m.travel .defense1 (m.manhattan s inter + m.manhattan inter d) calls ⟨s, .Local, route⟩ =
        .ok (before ++ after, q) ∧
      q.router = d ∧ q.route.interRoute = some inter ∧
      before.length = m.manhattan s inter ∧ after.length = m.manhattan inter d ∧
      (∃ turn, before.getLast? = some turn ∧ turn.next.router = inter) ∧ after ≠ [] ∧
      m.travel .defense1 (m.manhattan s d) directCalls ⟨s, .Local, plain⟩ = .ok (direct, r) ∧
      r.router = d ∧
      (∃ last directLast, (before ++ after).getLast? = some last ∧
        direct.getLast? = some directLast ∧ last.next.router = d ∧ directLast.next.router = d ∧
        horizontal last.dirn = !horizontal directLast.dirn ∧
        (last.router, last.dirn) ≠ (directLast.router, directLast.dirn)) ∧
      (before ++ after).map (fun h => (h.router, h.dirn)) ≠
        direct.map fun h => (h.router, h.dirn) := by
  obtain ⟨i, chosen, turning⟩ := exists_turning target different tagged (fun _ => size)
    (fun _ => Nat.le_of_eq square.symm) (calls 0).raw
  obtain ⟨before, after, q, travelled, arrived, inter, beforeLength, afterLength, beforeEnd, afterEnd⟩ :=
    detour_travels inside target different tagged calls chosen turning
  obtain ⟨direct, last, plainTravelled, directLength, -, directEnd⟩ :=
    @travel_towards m .defense1 plain d (fun _ _ => True) target
      (by
        intro call r inport _ _ notThere
        have dest := untagged.dest
        refine ⟨dest ▸ notThere.symm, call.state, ?_⟩
        have computed : (m.unit .defense1 r).computeDirn call plain inport =
            .ok (call.state, plain, m.xyChoice r plain.destRouter) :=
          computeDirn_untagged walks_valiant untagged.tag (dest ▸ notThere)
        rwa [dest] at computed)
      (fun _ _ _ _ _ _ => trivial) (m.manhattan s d) directCalls s .Local inside trivial rfl
  -- None of the three walks is empty, since their ends differ.
  have nonempty : ∀ {hops : List Hop} {a b : Nat}, hops.length = m.manhattan a b → a ≠ b →
      ∃ h, hops.getLast? = some h := by
    intro hops a b length apart
    cases hops with
    | nil => exact absurd (manhattan_eq_zero length.symm) apart
    | cons h rest => exact ⟨_, List.getLast?_cons⟩
  obtain ⟨turn, turnLast⟩ := nonempty beforeLength turning.source.symm
  obtain ⟨final, finalLast⟩ := nonempty afterLength fun same => turning.column (by rw [same])
  obtain ⟨plainFinal, plainLast⟩ := nonempty directLength different
  obtain ⟨finalArrives, finalAlong⟩ := afterEnd final finalLast
  obtain ⟨plainArrives, plainAlong⟩ := directEnd plainFinal plainLast
  have orthogonal : horizontal final.dirn = !horizontal plainFinal.dirn := by
    rw [finalAlong, plainAlong]
    simp
  have links : (final.router, final.dirn) ≠ (plainFinal.router, plainFinal.dirn) := by
    intro same
    rw [(Prod.mk.inj same).2] at orthogonal
    simp at orthogonal
  have appended : (before ++ after).getLast? = some final := by
    rw [List.getLast?_append, finalLast]
    rfl
  refine ⟨i, before, after, direct, q, _, travelled, arrived, inter, beforeLength, afterLength,
    ⟨turn, turnLast, beforeEnd turn turnLast⟩, ?_, plainTravelled, rfl,
    ⟨final, plainFinal, appended, plainLast, finalArrives, plainArrives, orthogonal, links⟩, ?_⟩
  · rintro rfl
    simp at finalLast
  · intro same
    have lasts := congrArg List.getLast? same
    rw [List.getLast?_map, List.getLast?_map, appended, plainLast] at lasts
    exact links (Option.some.inj lasts)

theorem detour_is_real_grid : ∃ inter before after q, (grid 2 2 (by decide) (by decide) (by decide)).travel .defense1
        ((grid 2 2 (by decide) (by decide) (by decide)).manhattan 0 inter +
          (grid 2 2 (by decide) (by decide) (by decide)).manhattan inter 3) (fun _ => {})
        ⟨0, .Local, { sTag := 1, destRouter := 3 }⟩ = .ok (before ++ after, q) ∧ q.router = 3 ∧
      after ≠ [] := by
  obtain ⟨inter, before, after, direct, q, r, travelled, arrived, -, -, -, -, onward, -⟩ :=
    @detour_is_real (grid 2 2 (by decide) (by decide) (by decide)) { sTag := 1, destRouter := 3 } 0 3
      { destRouter := 3 } (by decide) (by decide) (by decide) (by decide) (by decide)
      ⟨rfl, rfl, rfl, rfl⟩ ⟨rfl, rfl⟩ (fun _ => {}) (fun _ => {})
  exact ⟨inter, before, after, q, travelled, arrived, onward⟩

end MeshXY

end Resister.Network
