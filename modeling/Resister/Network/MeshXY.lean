import Resister.Network.TableRouting
import Resister.Garnet.Outport

/-!
# Mesh_XY

`Mesh_XY.makeTopology`: the routers of a `num_rows` by `num_columns` mesh, the controllers spread
over them and the four loops that add the mesh links.
-/

namespace Resister.Network

open Garnet List Nat

/-- The options that `makeTopology` reads, with the assertions it makes on them. The number of
routers is an `int` of the network. The controllers are given by their global numbers, each
once, in the order of `nodes`. -/
structure MeshXY where
  machineCounts : List Nat
  numVnets : Nat
  isVNetOrdered : Nat → Bool
  numRouters : Nat
  numRows : Nat
  linkLatency : Nat
  nodes : List Nat
  vnets_pos : 0 < numVnets
  routers_int : numRouters < 2 ^ 31
  rows_pos : 0 < numRows
  rows_le : numRows ≤ numRouters
  cols_mul : numRouters / numRows * numRows = numRouters
  nodes_perm : nodes.Perm (List.range machineCounts.sum)

def opposite : PortDirection → PortDirection
  | .North => .South
  | .South => .North
  | .East => .West
  | .West => .East
  | dirn => dirn

namespace MeshXY

variable (m : MeshXY)

def numColumns : Nat := m.numRouters / m.numRows

def col (router : Nat) : Nat := router % m.numColumns

def row (router : Nat) : Nat := router / m.numColumns

/-- The router of each controller: all but the remainder are distributed over the routers, the
remaining ones go to router `0`. -/
def attachments : List (Nat × Nat) :=
  let remainder := m.nodes.length % m.numRouters
  let shared := m.nodes.length - remainder
  (m.nodes.take shared).zipIdx.map (fun node => (node.1, node.2 % m.numRouters)) ++
    (m.nodes.drop shared).map fun node => (node, 0)

def extLinks : List ExtLink :=
  m.attachments.map fun node => ⟨⟨m.linkLatency, 1, []⟩, node.1, node.2⟩

def linkCells (outer inner : Nat) : List (Nat × Nat) :=
  ((List.range outer).product (List.range inner)).filter fun cell => cell.2 + 1 < inner

def intLinks : List IntLink :=
  let cols := m.numColumns
  ((linkCells m.numRows cols).map fun (row, col) =>
      ⟨⟨m.linkLatency, 1, []⟩, col + row * cols, (col + 1) + row * cols, .East, .West⟩) ++
  ((linkCells m.numRows cols).map fun (row, col) =>
      ⟨⟨m.linkLatency, 1, []⟩, (col + 1) + row * cols, col + row * cols, .West, .East⟩) ++
  ((linkCells cols m.numRows).map fun (col, row) =>
      ⟨⟨m.linkLatency, 2, []⟩, col + row * cols, col + (row + 1) * cols, .North, .South⟩) ++
  ((linkCells cols m.numRows).map fun (col, row) =>
      ⟨⟨m.linkLatency, 2, []⟩, col + (row + 1) * cols, col + row * cols, .South, .North⟩)

def neighbour (router : Nat) : PortDirection → Option Nat
  | .East => if m.col router + 1 < m.numColumns then some (router + 1) else none
  | .West => if 0 < m.col router then some (router - 1) else none
  | .North => if m.row router + 1 < m.numRows then some (router + m.numColumns) else none
  | .South => if 0 < m.row router then some (router - m.numColumns) else none
  | _ => none

def dirnWeight : PortDirection → Nat
  | .North | .South => 2
  | _ => 1

theorem numColumns_pos : 0 < m.numColumns := div_pos m.rows_le m.rows_pos

theorem numRouters_eq : m.numRouters = m.numRows * m.numColumns := by
  rw [mul_comm]
  exact m.cols_mul.symm

theorem numColumns_int : m.numColumns < 2 ^ 31 :=
  lt_of_le_of_lt (div_le_self _ _) m.routers_int

theorem attachments_fst : m.attachments.map Prod.fst = m.nodes := by
  simp [attachments, Function.comp_def, take_append_drop]

theorem node_lt {node : Nat} (present : node ∈ m.nodes) : node < m.machineCounts.sum :=
  mem_range.mp (m.nodes_perm.mem_iff.mp present)

def topology : Topology where
  machineCounts := m.machineCounts
  numVnets := m.numVnets
  extLinks := m.extLinks
  intLinks := m.intLinks
  extNode_lt := by
    intro l present
    obtain ⟨node, attached, rfl⟩ := List.mem_map.mp present
    apply m.node_lt
    rw [← m.attachments_fst]
    exact List.mem_map_of_mem attached

theorem attached_lt {node router : Nat} (attached : (node, router) ∈ m.attachments) :
    node < m.topology.nodes := by
  apply m.node_lt
  rw [← m.attachments_fst]
  exact mem_map_of_mem attached

def unit (algorithm : RoutingAlgorithm) (router : Nat) : RoutingUnit :=
  m.topology.routingUnit algorithm m.numRows m.numColumns m.isVNetOrdered router

/-- A mesh with one controller at each router and one virtual network, which is ordered. -/
def grid (rows cols : Nat) (rowsPos : 0 < rows) (colsPos : 0 < cols) (fits : rows * cols < 2 ^ 31) :
    MeshXY where
  machineCounts := [rows * cols]
  numVnets := 1
  isVNetOrdered := fun _ => true
  numRouters := rows * cols
  numRows := rows
  linkLatency := 1
  nodes := List.range (rows * cols)
  vnets_pos := Nat.one_pos
  routers_int := fits
  rows_pos := rowsPos
  rows_le := Nat.le_mul_of_pos_right rows colsPos
  cols_mul := by rw [Nat.mul_div_cancel_left _ rowsPos, Nat.mul_comm]
  nodes_perm := by simp

section Coordinates

variable {m}

theorem col_lt (router : Nat) : m.col router < m.numColumns :=
  mod_lt _ m.numColumns_pos

theorem row_lt {router : Nat} (inside : router < m.numRouters) :
    m.row router < m.numRows := by
  rw [m.numRouters_eq] at inside
  exact (div_lt_iff_lt_mul m.numColumns_pos).mpr inside

theorem cell_mod {row col : Nat} (inside : col < m.numColumns) :
    m.col (col + row * m.numColumns) = col := by
  rw [MeshXY.col, add_mul_mod_self_right, mod_eq_of_lt inside]

theorem cell_div {row col : Nat} (inside : col < m.numColumns) :
    m.row (col + row * m.numColumns) = row := by
  rw [MeshXY.row, add_mul_div_right _ _ m.numColumns_pos, div_eq_of_lt inside, zero_add]

theorem cell_lt {row col : Nat} (rowInside : row < m.numRows) (colInside : col < m.numColumns) :
    col + row * m.numColumns < m.numRouters := by
  calc col + row * m.numColumns < m.numColumns + row * m.numColumns := by omega
    _ = (row + 1) * m.numColumns := by rw [succ_mul, add_comm]
    _ ≤ m.numRows * m.numColumns := mul_le_mul_right _ rowInside
    _ = m.numRouters := m.numRouters_eq.symm

theorem cell_eq (router : Nat) :
    m.col router + m.row router * m.numColumns = router :=
  mod_add_div' router m.numColumns

theorem eq_of_coords {a b : Nat} (col : m.col a = m.col b) (row : m.row a = m.row b) : a = b := by
  rw [← @cell_eq m a, ← @cell_eq m b, col, row]

end Coordinates

section Neighbours

variable {m}

theorem mem_linkCells {outer inner a b : Nat} :
    (a, b) ∈ linkCells outer inner ↔ a < outer ∧ b + 1 < inner := by
  simp only [linkCells, mem_filter, pair_mem_product, mem_range, decide_eq_true_eq]
  omega

def Moves (m : MeshXY) (router next : Nat) : PortDirection → Prop
  | .East => m.col next = m.col router + 1 ∧ m.row next = m.row router
  | .West => m.col next + 1 = m.col router ∧ m.row next = m.row router
  | .North => m.col next = m.col router ∧ m.row next = m.row router + 1
  | .South => m.col next = m.col router ∧ m.row next + 1 = m.row router
  | _ => False

theorem neighbour_moves {router next : Nat} {dirn : PortDirection}
    (found : m.neighbour router dirn = some next) : m.Moves router next dirn := by
  have position := @cell_eq m router
  have columns := @col_lt m router
  -- In every direction the neighbour is written as a cell of its own.
  have cell : ∀ {row col : Nat}, next = col + row * m.numColumns → col < m.numColumns →
      m.col next = col ∧ m.row next = row := by
    rintro row col rfl inside
    exact ⟨cell_mod inside, cell_div inside⟩
  cases dirn <;> simp only [neighbour, Option.ite_none_right_eq_some, Option.some.injEq,
    reduceCtorEq] at found
  case East => exact cell (by omega) found.1
  case West =>
    obtain ⟨left, right⟩ := @cell (m.row router) (m.col router - 1) (by omega)
      (by omega)
    exact ⟨by omega, right⟩
  case North => exact cell (by rw [succ_mul]; omega) columns
  case South =>
    obtain ⟨row, eq⟩ : ∃ row, m.row router = row + 1 := ⟨_, (succ_pred_eq_of_pos found.1).symm⟩
    rw [eq, succ_mul] at position
    obtain ⟨left, right⟩ := @cell row (m.col router) (by omega) columns
    exact ⟨left, by omega⟩

theorem neighbour_lt {router next : Nat} {dirn : PortDirection} (inside : router < m.numRouters)
    (found : m.neighbour router dirn = some next) : next < m.numRouters := by
  have moves := neighbour_moves found
  have row := row_lt inside
  rw [← @cell_eq m next]
  refine cell_lt ?_ (col_lt next)
  cases dirn <;> simp only [Moves, neighbour, Option.ite_none_right_eq_some] at moves found <;> omega

theorem neighbour_of_moves {router next : Nat} {dirn : PortDirection}
    (moves : m.Moves router next dirn) (inside : next < m.numRouters) :
    m.neighbour router dirn = some next := by
  have columns := @col_lt m next
  have rows := row_lt inside
  have exists_neighbour : ∃ other, m.neighbour router dirn = some other := by
    cases dirn <;> simp only [Moves] at moves <;>
      simp only [neighbour, Option.ite_none_right_eq_some, exists_and_left]
    case South => exact ⟨moves.2 ▸ succ_pos _, _, rfl⟩
    case West => exact ⟨moves.1 ▸ succ_pos _, _, rfl⟩
    all_goals exact ⟨by omega, _, rfl⟩
  obtain ⟨other, found⟩ := exists_neighbour
  have otherMoves := neighbour_moves found
  rw [found]
  congr 1
  apply @eq_of_coords m <;> cases dirn <;> simp only [Moves] at moves otherMoves <;> omega

theorem mem_intLinks {l : IntLink} :
    l ∈ m.intLinks ↔ l.srcNode < m.numRouters ∧
      m.neighbour l.srcNode l.srcOutport = some l.dstNode ∧
      l.toBasicLink = ⟨m.linkLatency, dirnWeight l.srcOutport, []⟩ ∧
      l.dstInport = opposite l.srcOutport := by
  constructor
  · simp only [intLinks, mem_append, mem_map, mem_linkCells, Prod.exists, or_assoc]
    rintro (⟨row, col, ⟨rowInside, colInside⟩, rfl⟩ | ⟨row, col, ⟨rowInside, colInside⟩, rfl⟩ |
      ⟨col, row, ⟨colInside, rowInside⟩, rfl⟩ | ⟨col, row, ⟨colInside, rowInside⟩, rfl⟩)
    · have here : col < m.numColumns := by omega
      refine ⟨cell_lt rowInside here, neighbour_of_moves ?_ (cell_lt rowInside colInside), rfl, rfl⟩
      simp only [Moves, cell_mod here, cell_mod colInside, cell_div here, cell_div colInside, and_self]
    · have here : col < m.numColumns := by omega
      refine ⟨cell_lt rowInside colInside, neighbour_of_moves ?_ (cell_lt rowInside here), rfl, rfl⟩
      simp only [Moves, cell_mod here, cell_mod colInside, cell_div here, cell_div colInside, and_self]
    · have here : row < m.numRows := by omega
      refine ⟨cell_lt here colInside, neighbour_of_moves ?_ (cell_lt rowInside colInside), rfl, rfl⟩
      simp only [Moves, cell_mod colInside, cell_div colInside, and_self]
    · have here : row < m.numRows := by omega
      refine ⟨cell_lt rowInside colInside, neighbour_of_moves ?_ (cell_lt here colInside), rfl, rfl⟩
      simp only [Moves, cell_mod colInside, cell_div colInside, and_self]
  · obtain ⟨⟨latency, weight, vnets⟩, src, dst, out, inp⟩ := l
    rintro ⟨inside, found, link, back⟩
    simp only at inside found link back
    subst back
    cases link
    have moves := neighbour_moves found
    have nextInside := neighbour_lt inside found
    have srcCol := @col_lt m src
    have dstCol := @col_lt m dst
    have srcRow := row_lt inside
    have dstRow := row_lt nextInside
    have srcCell := @cell_eq m src
    have dstCell := @cell_eq m dst
    simp only [intLinks, mem_append, mem_map, mem_linkCells, Prod.exists, or_assoc]
    cases out <;> simp only [Moves] at moves
    case East =>
      refine Or.inl ⟨m.row src, m.col src, ⟨srcRow, by omega⟩, ?_⟩
      rw [← moves.1, ← moves.2, dstCell, moves.2, srcCell]
      rfl
    case West =>
      refine Or.inr (Or.inl ⟨m.row dst, m.col dst, ⟨dstRow, by omega⟩, ?_⟩)
      rw [moves.1, dstCell, moves.2, srcCell]
      rfl
    case North =>
      refine Or.inr (Or.inr (Or.inl ⟨m.col src, m.row src, ⟨srcCol, by omega⟩, ?_⟩))
      rw [← moves.2, srcCell, ← moves.1, dstCell]
      rfl
    case South =>
      refine Or.inr (Or.inr (Or.inr ⟨m.col dst, m.row dst, ⟨dstCol, by omega⟩, ?_⟩))
      rw [moves.2, dstCell, moves.1, srcCell]
      rfl

end Neighbours

section Ports

variable {m}

theorem dirnWeight_range (dirn : PortDirection) : 0 < dirnWeight dirn ∧ dirnWeight dirn < 3 := by
  cases dirn <;> simp [dirnWeight]

theorem addedLinks_plain {ends : Nat × Nat} {entry : LinkEntry} (added : (ends, entry) ∈ m.topology.addedLinks) :
    entry.link.vnets = [] ∧ 0 < entry.link.weight ∧ entry.link.weight < 3 := by
  simp only [Topology.addedLinks, topology, extLinks, flatMap_map, mem_append,
    mem_flatMap, mem_cons, Prod.mk.injEq, not_mem_nil, or_false, mem_map] at added
  rcases added with ⟨node, -, ⟨-, rfl⟩ | ⟨-, rfl⟩⟩ | ⟨l, listed, -, rfl⟩
  · exact ⟨rfl, one_pos, lt_succ_of_lt one_lt_two⟩
  · exact ⟨rfl, one_pos, lt_succ_of_lt one_lt_two⟩
  · obtain ⟨-, -, link, -⟩ := mem_intLinks.mp listed
    rw [link]
    exact ⟨rfl, dirnWeight_range _⟩

theorem exists_entryFor {src dst vnet : Nat} {entry : LinkEntry} (valid : vnet < m.numVnets)
    (added : ((src, dst), entry) ∈ m.topology.addedLinks) :
    ∃ other, m.topology.entryFor vnet src dst = some other := by
  cases found : m.topology.entryFor vnet src dst with
  | some other => exact ⟨other, rfl⟩
  | none =>
    have absent := List.find?_eq_none.mp found entry ((m.topology.mem_linkMap).mpr added)
    have plain := (addedLinks_plain added).1
    simp only [Topology.carried, if_pos plain] at absent
    exact absurd (decide_eq_true (mem_range.mpr valid)) absent

theorem realWeight_of_added {src dst vnet : Nat} {entry : LinkEntry} (valid : vnet < m.numVnets)
    (added : ((src, dst), entry) ∈ m.topology.addedLinks) :
    m.topology.realWeight vnet src dst = true := by
  obtain ⟨other, found⟩ := exists_entryFor valid added
  obtain ⟨-, positive, small⟩ := addedLinks_plain (Topology.entryFor_mem found).1
  simp only [Topology.realWeight, Topology.weights_of_entryFor found, infiniteLatency,
    Bool.and_eq_true, decide_eq_true_eq, bne_iff_ne]
  omega

theorem realLink_of_added {src dst : Nat} {entry : LinkEntry}
    (added : ((src, dst), entry) ∈ m.topology.addedLinks) : m.topology.realLink src dst = true :=
  any_eq_true.mpr
    ⟨0, mem_range.mpr m.vnets_pos, realWeight_of_added m.vnets_pos added⟩

theorem mem_addedLinks_router {router dst : Nat} {entry : LinkEntry} :
    ((m.topology.routerSwitch router, dst), entry) ∈ m.topology.addedLinks ↔
      (∃ node, (node, router) ∈ m.attachments ∧ dst = node + m.topology.nodes ∧
        entry = ⟨⟨m.linkLatency, 1, []⟩, .named "", .named ""⟩) ∨
      ∃ dirn next, router < m.numRouters ∧ m.neighbour router dirn = some next ∧
        dst = m.topology.routerSwitch next ∧
        entry = ⟨⟨m.linkLatency, dirnWeight dirn, []⟩, dirn, opposite dirn⟩ := by
  simp only [Topology.addedLinks, mem_append, mem_flatMap, mem_cons, Prod.mk.injEq,
    not_mem_nil, or_false, mem_map]
  constructor
  · rintro (⟨l, listed, ⟨⟨low, rfl⟩, rfl⟩ | ⟨⟨same, rfl⟩, rfl⟩⟩ | ⟨l, listed, ⟨same, rfl⟩, rfl⟩)
    · obtain ⟨⟨node, other⟩, attached, rfl⟩ := mem_map.mp listed
      have := m.attached_lt attached
      simp only [Topology.routerSwitch] at low
      omega
    · obtain ⟨⟨node, other⟩, attached, rfl⟩ := mem_map.mp listed
      have : other = router := by simpa [Topology.routerSwitch] using same.symm
      subst this
      exact Or.inl ⟨node, attached, rfl, rfl⟩
    · obtain ⟨inside, found, link, back⟩ := mem_intLinks.mp listed
      have : l.srcNode = router := by simpa [Topology.routerSwitch] using same
      subst this
      exact Or.inr ⟨_, _, inside, found, rfl, by rw [link, back]⟩
  · rintro (⟨node, attached, rfl, rfl⟩ | ⟨dirn, next, inside, found, rfl, rfl⟩)
    · exact Or.inl ⟨_, mem_map_of_mem attached, Or.inr ⟨⟨rfl, rfl⟩, rfl⟩⟩
    · exact Or.inr ⟨⟨_, router, next, dirn, opposite dirn⟩,
        mem_intLinks.mpr ⟨inside, found, rfl, rfl⟩, ⟨rfl, rfl⟩, rfl⟩

theorem port_cases {router : Nat} {port : Topology.OutPort} (present : port ∈ m.topology.outPorts router) :
    (port.dirn = .Local ∧ port.link.weight = 1 ∧
        ∃ node, (node, router) ∈ m.attachments ∧ port.target = node + m.topology.nodes) ∨
      ∃ next, m.neighbour router port.dirn = some next ∧
        port.target = m.topology.routerSwitch next ∧ port.targetDirn = opposite port.dirn ∧
        port.link.weight = dirnWeight port.dirn := by
  obtain ⟨dst, entry, added, -, rfl⟩ := Topology.mem_outPorts.mp present
  have ranges := m.topology.addedLinks_cases added
  rcases mem_addedLinks_router.mp added with
    ⟨node, attached, rfl, rfl⟩ | ⟨dirn, next, inside, found, rfl, rfl⟩
  · refine Or.inl ⟨if_pos ?_, rfl, node, attached, rfl⟩
    have := m.attached_lt attached
    omega
  · have remote : ¬ m.topology.routerSwitch next < 2 * m.topology.nodes := by
      simp only [Topology.routerSwitch]
      omega
    exact Or.inr ⟨next, by simp [Topology.outPort, remote, found]⟩

theorem exists_neighbour_port {router next : Nat} {dirn : PortDirection}
    (inside : router < m.numRouters) (found : m.neighbour router dirn = some next) :
    ∃ port ∈ m.topology.outPorts router, port.dirn = dirn := by
  have added := mem_addedLinks_router.mpr (Or.inr ⟨dirn, next, inside, found, rfl, rfl⟩)
  refine ⟨_, Topology.mem_outPorts.mpr ⟨_, _, added, realLink_of_added added, rfl⟩, if_neg ?_⟩
  simp only [Topology.routerSwitch]
  omega

theorem dirn2idx_neighbour {algorithm : RoutingAlgorithm} {router next : Nat}
    {dirn : PortDirection} (inside : router < m.numRouters) (found : m.neighbour router dirn = some next) :
    ∃ i port, (m.unit algorithm router).dirn2idx dirn = some i ∧
      (m.topology.outPorts router)[i]? = some port ∧
      port.target = m.topology.routerSwitch next ∧ port.targetDirn = opposite dirn := by
  obtain ⟨some_port, present, rfl⟩ := exists_neighbour_port inside found
  obtain ⟨i, index⟩ := RoutingUnit.dirn2idx_isSome (u := m.unit algorithm router)
    (mem_map_of_mem present)
  have at_i := RoutingUnit.dirn2idx_some index
  simp only [unit, Topology.routingUnit, List.getElem?_map, Option.map_eq_some_iff] at at_i
  obtain ⟨port, listed, dirn⟩ := at_i
  refine ⟨i, port, index, listed, ?_⟩
  rcases port_cases (mem_of_getElem? listed) with ⟨isLocal, -⟩ | ⟨other, same, target, back, -⟩
  · rw [← dirn, isLocal] at found
    simp [neighbour] at found
  · rw [dirn, found, Option.some.injEq] at same
    exact ⟨same ▸ target, dirn ▸ back⟩

theorem dirn2idx_missing {algorithm : RoutingAlgorithm} {router : Nat} {dirn : PortDirection}
    (absent : m.neighbour router dirn = none) (remote : dirn ≠ .Local) :
    (m.unit algorithm router).dirn2idx dirn = none := by
  cases index : (m.unit algorithm router).dirn2idx dirn with
  | none => rfl
  | some i =>
    have at_i := RoutingUnit.dirn2idx_some index
    simp only [unit, Topology.routingUnit, List.getElem?_map, Option.map_eq_some_iff] at at_i
    obtain ⟨port, listed, rfl⟩ := at_i
    rcases port_cases (mem_of_getElem? listed) with ⟨isLocal, -⟩ | ⟨next, found, -⟩
    · exact absurd isLocal remote
    · simp [absent] at found

end Ports

end MeshXY

end Resister.Network
