import Resister.Network.MeshXY

/-!
# Routing by traffic counters

`outportTest` and `outportSecTest` look at the counters of the routers next to the current one.
-/

namespace Resister.Garnet.RoutingUnit

/-- The cells of `routerr_` that `outportSecTest` reads. Every router passes the test on its coordinates. -/
def secTestReads (u : RoutingUnit) (route : RouteInfo) : Except Abort (List Int) :=
  if 0 < u.numRows ∧ 0 < u.numCols then
    let cx := u.id % u.numCols
    let cy := u.id / u.numCols
    let ex : Int := (route.destRouter % u.numCols : Nat) - cx
    let ey : Int := (route.destRouter / u.numCols : Nat) - cy
    if ex = 0 ∧ ey = 0 then .error .assertFail
    else if (westFirstOptions ex ey).length = 2 ∧
        (cy ≠ 0 ∨ cy ≠ u.numCols ∨ cx ≠ 0 ∨ cx ≠ u.numCols) then
      .ok ([.North, .East, .West, .South].map (computeNeighborId u.id u.numCols))
    else .ok []
  else .error .assertFail

end Resister.Garnet.RoutingUnit

namespace Resister.Network

open Garnet

namespace MeshXY

variable {m : MeshXY} {r : Nat} {route : RouteInfo}

theorem length_westFirstOptions {ex ey : Int} :
    (RoutingUnit.westFirstOptions ex ey).length = 2 ↔ 0 < ex ∧ ey ≠ 0 := by
  unfold RoutingUnit.westFirstOptions
  split
  · simp
    omega
  · simp only [List.length_append]
    split <;> split <;> split <;> simp <;> omega

theorem coords_int_ne {a b : Nat} (different : a ≠ b) :
    ¬((m.col b : Int) - m.col a = 0 ∧ (m.row b : Int) - m.row a = 0) := by
  rintro ⟨col, row⟩
  exact different (@eq_of_coords m a b (by omega) (by omega))

theorem secTestReads_eq (elsewhere : r ≠ route.destRouter) :
    (m.unit .secTest r).secTestReads route =
      .ok (if m.col r < m.col route.destRouter ∧ m.row r ≠ m.row route.destRouter then
        [(r : Int) + m.numColumns, r + 1, r - 1, r - m.numColumns] else []) := by
  have columns : 0 < (m.unit .secTest r).numCols := m.numColumns_pos
  have rows : 0 < (m.unit .secTest r).numRows := m.rows_pos
  have apart := @coords_int_ne m _ _ elsewhere
  -- A coordinate cannot be both zero and the number of columns.
  have guard : m.row r ≠ 0 ∨ m.row r ≠ m.numColumns ∨ m.col r ≠ 0 ∨ m.col r ≠ m.numColumns := by
    have := m.numColumns_pos
    omega
  have two := @length_westFirstOptions ((m.col route.destRouter : Int) - m.col r)
    ((m.row route.destRouter : Int) - m.row r)
  unfold RoutingUnit.secTestReads
  rw [if_pos ⟨rows, columns⟩]
  refine (if_neg apart).trans ?_
  by_cases further : m.col r < m.col route.destRouter ∧ m.row r ≠ m.row route.destRouter
  · rw [if_pos further]
    refine (if_pos ⟨two.mpr (by omega), guard⟩).trans ?_
    rfl
  · rw [if_neg further]
    refine if_neg fun passed => further ?_
    have := two.mp passed.1
    omega

theorem neighbour_cases {dirn : PortDirection} {next : Nat} (found : m.neighbour r dirn = some next) :
    next = r + 1 ∧ m.col r + 1 < m.numColumns ∨ next + 1 = r ∧ 0 < m.col r ∨
      next = r + m.numColumns ∧ m.row r + 1 < m.numRows ∨ next + m.numColumns = r ∧ 0 < m.row r := by
  have position := @cell_eq m r
  cases dirn <;> simp only [neighbour, Option.ite_none_right_eq_some, Option.some.injEq, reduceCtorEq] at found
  case East => omega
  case West =>
    have : 0 < r := Nat.pos_of_ne_zero fun zero => by simp [zero, col] at found
    omega
  case North => omega
  case South =>
    have : m.numColumns ≤ r := by
      by_contra below
      simp [row, Nat.div_eq_of_lt (Nat.lt_of_not_le below)] at found
    omega

def Adjacent (m : MeshXY) (r : Nat) (cell : Int) : Prop :=
  ∃ dirn next, m.neighbour r dirn = some next ∧ next < m.numRouters ∧ cell = next

def Interior (m : MeshXY) (r : Nat) : Prop :=
  0 < m.col r ∧ m.col r + 1 < m.numColumns ∧ 0 < m.row r ∧ m.row r + 1 < m.numRows

instance (m : MeshXY) (r : Nat) : Decidable (m.Interior r) :=
  inferInstanceAs (Decidable (_ ∧ _))

theorem Interior.adjacent (inside : r < m.numRouters) (interior : m.Interior r) :
    ∀ cell ∈ [(r : Int) + m.numColumns, r + 1, r - 1, r - m.numColumns], m.Adjacent r cell := by
  obtain ⟨west, east, south, north⟩ := interior
  have positive : 0 < r := Nat.pos_of_ne_zero fun zero => by simp [zero, col] at west
  have above : m.numColumns ≤ r := by
    by_contra below
    simp [row, Nat.div_eq_of_lt (Nat.lt_of_not_le below)] at south
  simp only [List.mem_cons, List.not_mem_nil, or_false]
  rintro cell (rfl | rfl | rfl | rfl)
  · exact ⟨.North, r + m.numColumns, if_pos north, @neighbour_lt m r _ .North inside (if_pos north), by omega⟩
  · exact ⟨.East, r + 1, if_pos east, @neighbour_lt m r _ .East inside (if_pos east), by omega⟩
  · exact ⟨.West, r - 1, if_pos west, @neighbour_lt m r _ .West inside (if_pos west), by omega⟩
  · exact ⟨.South, r - m.numColumns, if_pos south, @neighbour_lt m r _ .South inside (if_pos south), by omega⟩

theorem interior_of_adjacent (further : m.col r + 1 < m.numColumns) (north : m.Adjacent r (r + m.numColumns))
    (west : m.Adjacent r (r - 1)) (south : m.Adjacent r (r - m.numColumns)) : m.Interior r := by
  have wide : 1 < m.numColumns := by omega
  obtain ⟨_, above, foundNorth, -, atNorth⟩ := north
  obtain ⟨_, left, foundWest, -, atWest⟩ := west
  obtain ⟨_, below, foundSouth, -, atSouth⟩ := south
  have northCases := neighbour_cases foundNorth
  have westCases := neighbour_cases foundWest
  have southCases := neighbour_cases foundSouth
  refine ⟨?_, further, ?_, ?_⟩ <;> omega

theorem secTestReads_here (arrived : route.destRouter = r) :
    (m.unit .secTest r).secTestReads route = .error .assertFail := by
  refine (if_pos ⟨m.rows_pos, m.numColumns_pos⟩).trans (if_pos ?_)
  rw [arrived]
  exact ⟨Int.sub_self _, Int.sub_self _⟩

/-- The counters that `outportSecTest` reads are those of neighbours in the mesh exactly if the destination does
not leave two directions open, or the router is not on the border. Only at the destination it does not return. -/
theorem sec_test_reads_neighbours (m : MeshXY) {r : Nat} {route : RouteInfo} (inside : r < m.numRouters) :
    (r ≠ route.destRouter → ∃ reads, (m.unit .secTest r).secTestReads route = .ok reads) ∧
    ((∀ reads, (m.unit .secTest r).secTestReads route = .ok reads → ∀ cell ∈ reads, m.Adjacent r cell) ↔
      ¬(m.col r < m.col route.destRouter ∧ m.row r ≠ m.row route.destRouter) ∨ m.Interior r) := by
  have column := @col_lt m route.destRouter
  refine ⟨fun elsewhere => ⟨_, secTestReads_eq elsewhere⟩, ?_⟩
  by_cases arrived : route.destRouter = r
  · rw [secTestReads_here arrived, arrived]
    refine ⟨fun _ => Or.inl fun further => Nat.lt_irrefl _ further.1, fun _ reads returned => ?_⟩
    cases returned
  rw [secTestReads_eq (Ne.symm arrived)]
  by_cases further : m.col r < m.col route.destRouter ∧ m.row r ≠ m.row route.destRouter
  · rw [if_pos further]
    constructor
    · intro adjacent
      have neighbours := adjacent _ rfl
      exact Or.inr (interior_of_adjacent (by omega) (neighbours _ (by simp)) (neighbours _ (by simp))
        (neighbours _ (by simp)))
    · rintro (excluded | interior) reads same
      · exact absurd further excluded
      · cases same
        exact interior.adjacent inside
  · rw [if_neg further]
    refine ⟨fun _ => Or.inl further, fun _ reads same => ?_⟩
    cases same
    simp

theorem sec_test_reads_neighbours_centre :
    ∃ reads, ((grid 3 3 (by decide) (by decide) (by decide)).unit .secTest 4).secTestReads { destRouter := 8 } =
        .ok reads ∧ ∀ cell ∈ reads, (grid 3 3 (by decide) (by decide) (by decide)).Adjacent 4 cell := by
  have reads := (@sec_test_reads_neighbours (grid 3 3 (by decide) (by decide) (by decide)) 4 { destRouter := 8 }
    (by decide)).2.mpr (Or.inr (by decide))
  exact ⟨[7, 5, 3, 1], by decide, reads _ (by decide)⟩

/-- At the corner of a mesh of two by two routers a cell before the array is read. -/
theorem sec_test_reads_outside :
    ∃ reads, ((grid 2 2 (by decide) (by decide) (by decide)).unit .secTest 0).secTestReads { destRouter := 3 } =
        .ok reads ∧ -1 ∈ reads ∧ ¬(grid 2 2 (by decide) (by decide) (by decide)).Adjacent 0 (-1) := by
  refine ⟨[2, 1, -1, -2], by decide, by decide, ?_⟩
  rintro ⟨dirn, next, -, -, same⟩
  omega

/-! ## The least used neighbour -/

structure RouteComputation where
  router : Nat
  route : RouteInfo
  inport : Nat
  dirn : PortDirection
  tick : Nat
  raw : Nat

def computeRoute (m : MeshXY) (st : RoutingState) (c : RouteComputation) : Except Abort RoutingState :=
  ((m.unit .test c.router).outportCompute ⟨st, c.inport, c.tick, c.raw⟩ c.route c.dirn).map Prod.fst

def afterHistory (m : MeshXY) (history : List RouteComputation) : Except Abort RoutingState :=
  history.foldlM m.computeRoute {}

/-- What `outportTest` takes for a neighbour: the one in the mesh, or the cell set aside for a missing one. -/
def testCell (m : MeshXY) (r : Nat) (dirn : PortDirection) (blocked : Int) : RoutingUnit.TestNeighbour :=
  match m.neighbour r dirn with
  | some next => ⟨dirn, next, false⟩
  | none => ⟨dirn, blocked, true⟩

theorem testCell_eq {dirn : PortDirection} {cell blocked : Int} {missing : Bool} {exist : Prop} [Decidable exist]
    {next : Nat} (found : m.neighbour r dirn = if exist then some next else none) (same : exist → cell = next)
    (iff : missing = true ↔ ¬exist) :
    (if missing then ⟨dirn, blocked, true⟩ else ⟨dirn, cell, false⟩ : RoutingUnit.TestNeighbour) =
      m.testCell r dirn blocked := by
  unfold testCell
  rw [found]
  by_cases present : exist
  · have existing : ¬missing = true := fun absent => iff.mp absent present
    rw [if_neg existing, if_pos present, same present]
  · rw [if_pos (iff.mpr present), if_neg present]

theorem north_missing_iff : (m.numColumns * m.numRows : Int) ≤ r + m.numColumns ↔ ¬m.row r + 1 < m.numRows := by
  have wide := m.numColumns_pos
  rw [row, ← Nat.add_div_right _ wide, Nat.div_lt_iff_lt_mul wide, Nat.mul_comm m.numRows]
  norm_cast
  omega

theorem row_succ (m : MeshXY) (r : Nat) :
    m.row (r + 1) = if m.col r + 1 < m.numColumns then m.row r else m.row r + 1 := by
  have position := @cell_eq m r
  have column := @col_lt m r
  split
  next further =>
    have next : r + 1 = (m.col r + 1) + m.row r * m.numColumns := by omega
    rw [row, next]
    exact cell_div further
  next last =>
    have next : r + 1 = 0 + (m.row r + 1) * m.numColumns := by
      rw [Nat.succ_mul]
      omega
    rw [row, next]
    exact cell_div m.numColumns_pos

theorem row_int (m : MeshXY) (r : Nat) : (r : Int) / m.numColumns = m.row r := by
  unfold row
  norm_cast

theorem east_missing_iff (inside : r < m.numRouters) :
    ((m.numColumns : Int) * m.numRows ≤ r + 1 ∨ ((r : Int) + 1) / m.numColumns ≠ (r : Int) / m.numColumns) ↔
      ¬m.col r + 1 < m.numColumns := by
  have size : (m.numColumns : Int) * m.numRows = m.numRouters := by
    rw [m.numRouters_eq]
    push_cast
    ring
  have moved : ((r : Int) + 1) / m.numColumns = m.row (r + 1) := by
    rw [← row_int]
    push_cast
    rfl
  rw [moved, row_int, size, row_succ]
  split
  next further =>
    have present : r + 1 < m.numRouters := @neighbour_lt m r _ .East inside (if_pos further)
    omega
  next last => simp [last]

theorem west_missing_iff :
    ((r : Int) - 1 < 0 ∨ ((r : Int) - 1) / m.numColumns ≠ (r : Int) / m.numColumns) ↔ ¬0 < m.col r := by
  cases r with
  | zero => simp [col]
  | succ r =>
    have moved : (((r + 1 : Nat) : Int) - 1) / m.numColumns = m.row r := by
      rw [← row_int]
      push_cast
      congr 1
      omega
    have position := @cell_eq m r
    have next := @cell_eq m (r + 1)
    have column := @col_lt m r
    rw [moved, row_int]
    rw [row_succ] at next ⊢
    split at next
    next further =>
      simp only [if_pos further]
      omega
    next last =>
      rw [Nat.succ_mul] at next
      simp only [if_neg last]
      omega

theorem south_missing_iff : (r : Int) - m.numColumns < 0 ↔ ¬0 < m.row r := by
  have wide := m.numColumns_pos
  rw [row, Nat.div_pos_iff]
  omega

theorem testNeighbours_eq (inside : r < m.numRouters) :
    (m.unit .test r).testNeighbours =
      [m.testCell r .North 900, m.testCell r .East 901, m.testCell r .West 902, m.testCell r .South 903] := by
  have south : ∀ row : 0 < m.row r, m.numColumns ≤ r := fun row => by
    have := (@south_missing_iff m r).not
    omega
  have west : ∀ column : 0 < m.col r, 1 ≤ r := fun column => by
    have := (@west_missing_iff m r).not
    omega
  have north := @testCell_eq m r .North (r + m.numColumns) 900 _ _ _ _ rfl (fun _ => by push_cast; rfl)
    (decide_eq_true_iff.trans north_missing_iff)
  have east := @testCell_eq m r .East (r + 1) 901 _ _ _ _ rfl (fun _ => by push_cast; rfl)
    (decide_eq_true_iff.trans (east_missing_iff inside))
  have west := @testCell_eq m r .West (r - 1) 902 _ _ _ _ rfl (fun column => by have := west column; omega)
    (decide_eq_true_iff.trans west_missing_iff)
  have south := @testCell_eq m r .South (r - m.numColumns) 903 _ _ _ _ rfl (fun row => by have := south row; omega)
    (decide_eq_true_iff.trans south_missing_iff)
  rw [← north, ← east, ← west, ← south]
  rfl

theorem testCell_cases {dirn : PortDirection} {blocked : Int} (above : 900 ≤ blocked) :
    (∃ next : Nat, m.neighbour r (m.testCell r dirn blocked).dirn = some next ∧
        (m.testCell r dirn blocked).counter = next ∧ (m.testCell r dirn blocked).missing = false) ∨
      900 ≤ (m.testCell r dirn blocked).counter ∧ (m.testCell r dirn blocked).missing = true := by
  unfold testCell
  cases found : m.neighbour r dirn with
  | some next => exact Or.inl ⟨next, found, rfl, rfl⟩
  | none => exact Or.inr ⟨above, rfl⟩

theorem testNeighbours_cases (inside : r < m.numRouters) {n : RoutingUnit.TestNeighbour}
    (listed : n ∈ (m.unit .test r).testNeighbours) :
    (∃ next : Nat, m.neighbour r n.dirn = some next ∧ n.counter = next ∧ n.missing = false) ∨
      900 ≤ n.counter ∧ n.missing = true := by
  rw [testNeighbours_eq inside] at listed
  simp only [List.mem_cons, List.not_mem_nil, or_false] at listed
  rcases listed with rfl | rfl | rfl | rfl <;> exact testCell_cases (by omega)

theorem neighbour_listed (inside : r < m.numRouters) {dirn : PortDirection} {next : Nat}
    (found : m.neighbour r dirn = some next) : ⟨dirn, next, false⟩ ∈ (m.unit .test r).testNeighbours := by
  rw [testNeighbours_eq inside]
  have here : ∀ blocked, m.testCell r dirn blocked = ⟨dirn, next, false⟩ := by
    intro blocked
    rw [testCell, found]
  cases dirn with
  | North | East | West | South => simp [here]
  | _ => simp [neighbour] at found

theorem blockMissing_of_lt (inside : r < m.numRouters) (small : m.numRouters ≤ 900) {k : Nat}
    (router : k < m.numRouters) (routerr : Int → Nat) : (m.unit .test r).blockMissing routerr k = routerr k := by
  refine if_neg fun written => ?_
  obtain ⟨n, listed, blocked⟩ := List.any_eq_true.mp written
  simp only [Bool.and_eq_true, beq_iff_eq] at blocked
  rcases testNeighbours_cases inside listed with ⟨_, -, -, present⟩ | ⟨above, -⟩
  · rw [present] at blocked
    exact absurd blocked.1 Bool.false_ne_true
  · omega

theorem blockMissing_missing {n : RoutingUnit.TestNeighbour} (listed : n ∈ (m.unit .test r).testNeighbours)
    (missing : n.missing = true) (routerr : Int → Nat) :
    (m.unit .test r).blockMissing routerr n.counter = 0x7fffffff :=
  if_pos (List.any_eq_true.mpr ⟨n, listed, by simp [missing]⟩)

theorem testDirn_eq (m : MeshXY) (r : Nat) (st : RoutingState) :
    ∃ dirn, (m.unit .test r).testDirn st =
      .ok ({ st with routerr := (m.unit .test r).blockMissing st.routerr }, dirn) :=
  ⟨_, if_pos ⟨m.rows_pos, m.numColumns_pos⟩⟩

theorem computeRoute_routerr (small : m.numRouters ≤ 900) {c : RouteComputation} (inside : c.router < m.numRouters)
    {st after : RoutingState} (computed : m.computeRoute st c = .ok after) {k : Nat} (router : k < m.numRouters) :
    after.routerr k ≤ st.routerr k + 1 := by
  obtain ⟨⟨state, route, port⟩, called, same⟩ := RoutingUnit.map_ok computed
  cases same
  unfold RoutingUnit.outportCompute at called
  split at called
  · obtain ⟨_, -, same⟩ := RoutingUnit.map_ok called
    cases same
    exact Nat.le_succ _
  · obtain ⟨dirn, chosen⟩ := m.testDirn_eq c.router st
    have moved : (m.unit .test c.router).computeDirn ⟨st, c.inport, c.tick, c.raw⟩ c.route c.dirn =
        ((m.unit .test c.router).testDirn st).map fun result => (result.1, c.route, result.2) := rfl
    obtain ⟨_, counted, same⟩ := RoutingUnit.map_ok (show Except.map _ _ = _ from called)
    rw [moved, chosen] at counted
    cases counted
    cases same
    have kept := blockMissing_of_lt inside small router st.routerr
    simp only [RoutingUnit.countRoute]
    split <;> omega

theorem afterHistory_routerr (small : m.numRouters ≤ 900) {history : List RouteComputation}
    (calls : ∀ c ∈ history, c.router < m.numRouters) {start st : RoutingState}
    (reached : history.foldlM m.computeRoute start = .ok st) {k : Nat} (router : k < m.numRouters) :
    st.routerr k ≤ start.routerr k + history.length := by
  induction history generalizing start with
  | nil =>
    cases reached
    simp
  | cons c rest ih =>
    rw [List.foldlM_cons] at reached
    cases first : m.computeRoute start c with
    | error cause =>
      rw [first] at reached
      cases reached
    | ok middle =>
      rw [first] at reached
      have step := computeRoute_routerr small (calls c List.mem_cons_self) first router
      have later := ih (fun d listed => calls d (List.mem_cons_of_mem _ listed)) reached
      rw [List.length_cons]
      omega

theorem exists_neighbour (several : 2 ≤ m.numRouters) (inside : r < m.numRouters) :
    ∃ dirn next, m.neighbour r dirn = some next := by
  have column := @col_lt m r
  have row := row_lt inside
  have wide := m.numColumns_pos
  have size := m.numRouters_eq
  by_cases west : 0 < m.col r
  · exact ⟨.West, _, if_pos west⟩
  by_cases south : 0 < m.row r
  · exact ⟨.South, _, if_pos south⟩
  by_cases east : m.col r + 1 < m.numColumns
  · exact ⟨.East, _, if_pos east⟩
  by_cases north : m.row r + 1 < m.numRows
  · exact ⟨.North, _, if_pos north⟩
  -- No side is open, so the mesh has one row and one column.
  have oneColumn : m.numColumns = 1 := by omega
  have oneRow : m.numRows = 1 := by omega
  rw [oneColumn, oneRow] at size
  omega

theorem testDirn_least (inside : r < m.numRouters) (small : m.numRouters ≤ 900) {st : RoutingState}
    (used : ∃ dirn next, m.neighbour r dirn = some next ∧ st.routerr next < 0x7fffffff) :
    ∃ after dirn next, (m.unit .test r).testDirn st = .ok (after, dirn) ∧ m.neighbour r dirn = some next ∧
      ∀ other k, m.neighbour r other = some k → st.routerr next ≤ st.routerr k := by
  have counter : ∀ {dirn next}, m.neighbour r dirn = some next →
      (m.unit .test r).blockMissing st.routerr next = st.routerr next := fun found =>
    blockMissing_of_lt inside small (neighbour_lt inside found) st.routerr
  obtain ⟨dirn, next, found, few⟩ := used
  have listed := neighbour_listed inside found
  obtain ⟨least, minimum⟩ : ∃ least, ((m.unit .test r).testNeighbours.map fun n =>
      (m.unit .test r).blockMissing st.routerr n.counter).min? = some least := by
    rw [← Option.isSome_iff_exists, List.isSome_min?_iff]
    exact fun empty => List.ne_nil_of_mem listed (List.map_eq_nil_iff.mp empty)
  obtain ⟨attained, below⟩ := List.min?_eq_some_iff.mp minimum
  have least_le : ∀ {other k}, m.neighbour r other = some k → least ≤ st.routerr k := fun open_ => by
    rw [← counter open_]
    exact below _ (List.mem_map.mpr ⟨_, neighbour_listed inside open_, rfl⟩)
  obtain ⟨first, member, value⟩ := List.mem_map.mp attained
  obtain ⟨chosen, select⟩ : ∃ chosen, ((m.unit .test r).testNeighbours.find? fun n =>
      (m.unit .test r).blockMissing st.routerr n.counter == least) = some chosen := by
    rw [← Option.isSome_iff_exists, List.find?_isSome]
    exact ⟨first, member, beq_iff_eq.mpr value⟩
  have reached : (m.unit .test r).blockMissing st.routerr chosen.counter = least := by
    simpa using List.find?_some select
  -- A missing neighbour has the greatest count, and a neighbour with a smaller one is listed.
  rcases testNeighbours_cases inside (List.mem_of_find?_eq_some select) with ⟨k, adjacent, cell, -⟩ | ⟨-, missing⟩
  · refine ⟨{ st with routerr := (m.unit .test r).blockMissing st.routerr }, chosen.dirn, k, ?_, adjacent, ?_⟩
    · refine (if_pos ⟨m.rows_pos, m.numColumns_pos⟩).trans ?_
      simp only [minimum, Option.getD_some, select, Option.elim_some]
    · intro other j open_
      rw [← counter adjacent, ← cell, reached]
      exact least_le open_
  · have blocked := blockMissing_missing (List.mem_of_find?_eq_some select) missing st.routerr
    have := least_le found
    omega

end MeshXY

end Resister.Network
