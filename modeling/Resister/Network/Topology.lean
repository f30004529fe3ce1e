import Resister.Garnet.RoutingUnit

/-!
# Topology

`Topology::Topology` and `Topology::createLinks`: the link map built from the external and the
internal links, the all-pairs shortest paths of every virtual network, and the ports that `makeLink`
gives to the routers, with their routing table entries.
-/

namespace Resister.Network

open Garnet

def infiniteLatency : Nat := 10000

/-- A `BasicLink`. An empty list of virtual networks means all of them. -/
structure BasicLink where
  latency : Nat
  weight : Nat
  vnets : List Nat
  deriving DecidableEq, Repr

structure ExtLink extends BasicLink where
  extNode : Nat
  intNode : Nat
  deriving DecidableEq, Repr

structure IntLink extends BasicLink where
  srcNode : Nat
  dstNode : Nat
  srcOutport : PortDirection
  dstInport : PortDirection
  deriving DecidableEq, Repr

structure LinkEntry where
  link : BasicLink
  srcOutportDirn : PortDirection
  dstInportDirn : PortDirection
  deriving DecidableEq, Repr

/-- The constructor's arguments: the controllers counted by type, the virtual networks and the
links. An external link belongs to an existing controller. -/
structure Topology where
  machineCounts : List Nat
  numVnets : Nat
  extLinks : List ExtLink
  intLinks : List IntLink
  extNode_lt : ∀ l ∈ extLinks, l.extNode < machineCounts.sum

/-- The matrices of one virtual network that `extend_shortest_path` updates in place. -/
structure PathState where
  dist : Nat → Nat → Nat
  latencies : Nat → Nat → Int
  interSwitches : Nat → Nat → Nat

/-- `matrix[i][j] = value`. -/
def setCell {α : Type} (matrix : Nat → Nat → α) (i j : Nat) (value : α) :
    Nat → Nat → α :=
  Function.update matrix i (Function.update (matrix i) j value)

structure Scan where
  minimum : Nat
  intermediate : Option Nat
  interSwitches : Nat → Nat → Nat

def scanStep (st : PathState) (i j : Nat) (scan : Scan) (k : Nat) : Scan :=
  let minimum := min scan.minimum (st.dist i k + st.dist k j)
  if scan.minimum = minimum then scan
  else
    { minimum := minimum
      intermediate := some k
      interSwitches := setCell scan.interSwitches i j
        (scan.interSwitches i k + scan.interSwitches k j + 1) }

def scanAll (n : Nat) (st : PathState) (i j : Nat) : Scan :=
  (List.range n).foldl (scanStep st i j) ⟨st.dist i j, none, st.interSwitches⟩

def relax (n : Nat) (acc : PathState × Bool) (cell : Nat × Nat) : PathState × Bool :=
  let st := acc.1
  let scan := scanAll n st cell.1 cell.2
  if st.dist cell.1 cell.2 = scan.minimum then
    ({ st with interSwitches := scan.interSwitches }, acc.2)
  else
    let k := scan.intermediate.getD 0
    ({ dist := setCell st.dist cell.1 cell.2 scan.minimum
       latencies := setCell st.latencies cell.1 cell.2
        (st.latencies cell.1 k + st.latencies k cell.2)
       interSwitches := scan.interSwitches }, true)

def cells (n : Nat) : List (Nat × Nat) :=
  (List.range n).flatMap fun i => (List.range n).map fun j => (i, j)

def sweep (n : Nat) (st : PathState) : PathState × Bool := (cells n).foldl (relax n) (st, false)

def extendShortestPath (n : Nat) : Nat → PathState → PathState
  | 0, st => st
  | fuel + 1, st =>
    let next := sweep n st
    if next.2 then extendShortestPath n fuel next.1 else next.1

def totalDist (n : Nat) (st : PathState) : Nat :=
  ((cells n).map fun cell => st.dist cell.1 cell.2).sum

def shortestPath (n : Nat) (st : PathState) : PathState :=
  extendShortestPath n (totalDist n st + 1) st

namespace Topology

def nodes (t : Topology) : Nat := t.machineCounts.sum

def routerSwitch (t : Topology) (router : Nat) : Nat := router + 2 * t.nodes

def outputSwitch (t : Topology) (m : MachineID) : Nat := m.nodeID t.machineCounts + t.nodes

def addedLinks (t : Topology) : List ((Nat × Nat) × LinkEntry) :=
  (t.extLinks.flatMap fun l =>
    [((l.extNode, t.routerSwitch l.intNode), ⟨l.toBasicLink, .named "", .named ""⟩),
     ((t.routerSwitch l.intNode, l.extNode + t.nodes), ⟨l.toBasicLink, .named "", .named ""⟩)]) ++
  t.intLinks.map fun l =>
    ((t.routerSwitch l.srcNode, t.routerSwitch l.dstNode), ⟨l.toBasicLink, l.srcOutport, l.dstInport⟩)

/-- `m_link_map[(src, dst)]`. -/
def linkMap (t : Topology) (src dst : Nat) : List LinkEntry :=
  (t.addedLinks.filter fun added => added.1 == (src, dst)).map Prod.snd

def carried (t : Topology) (link : BasicLink) : List Nat :=
  if link.vnets = [] then List.range t.numVnets else link.vnets

/-- The `fatal_if` checks of `createLinks`: links between the same two switches carry
different virtual networks, and only existing ones. -/
def accepted (t : Topology) : Bool :=
  t.addedLinks.all fun added =>
    let done := (t.linkMap added.1.1 added.1.2).flatMap fun entry => t.carried entry.link
    decide done.Nodup && done.all fun v => v < t.numVnets

def numSwitches (t : Topology) : Nat :=
  t.addedLinks.foldl (fun largest added => max (max largest added.1.1) added.1.2) 0 + 1

def entryFor (t : Topology) (vnet : Nat) (src dst : Nat) : Option LinkEntry :=
  (t.linkMap src dst).find? fun entry => decide (vnet ∈ t.carried entry.link)

/-- `topology_weights[vnet][src][dst]`. -/
def weights (t : Topology) (vnet : Nat) (src dst : Nat) : Nat :=
  match t.entryFor vnet src dst with
  | some entry => entry.link.weight
  | none => if src = dst then 0 else infiniteLatency

/-- `component_latencies[src][dst][vnet]`. -/
def latencies (t : Topology) (vnet : Nat) (src dst : Nat) : Int :=
  match t.entryFor vnet src dst with
  | some entry => entry.link.latency
  | none => -1

def paths (t : Topology) (vnet : Nat) : PathState :=
  shortestPath t.numSwitches ⟨t.weights vnet, t.latencies vnet, fun _ _ => 0⟩

def dist (t : Topology) (vnet : Nat) : Nat → Nat → Nat := (t.paths vnet).dist

def linkIsShortestPathToNode (t : Topology) (src next final vnet : Nat) : Bool :=
  t.weights vnet src next + t.dist vnet next final == t.dist vnet src final

def shortestPathToNode (t : Topology) (src next vnet : Nat) : NetDest :=
  (allMachines t.machineCounts).zipIdx.foldl
    (fun result machine =>
      if t.linkIsShortestPathToNode src next (machine.2 + t.nodes) vnet then result.add machine.1
      else result) .empty

def realWeight (t : Topology) (vnet src dst : Nat) : Bool :=
  decide (0 < t.weights vnet src dst) && t.weights vnet src dst != infiniteLatency

/-- `routingMap[vnet]`. -/
def routingMap (t : Topology) (src dst vnet : Nat) : NetDest :=
  if t.realWeight vnet src dst then t.shortestPathToNode src dst vnet else .empty

def realLink (t : Topology) (src dst : Nat) : Bool :=
  (List.range t.numVnets).any fun vnet => t.realWeight vnet src dst

/-- An output port of a router: what `makeLink` hands to `addOutPort`, and the other end of its
link. -/
structure OutPort where
  dirn : PortDirection
  link : BasicLink
  table : Nat → NetDest
  target : Nat
  targetDirn : PortDirection

def outPort (t : Topology) (src dst : Nat) (entry : LinkEntry) : OutPort :=
  { dirn := if dst < 2 * t.nodes then .Local else entry.srcOutportDirn
    link := entry.link
    table := fun vnet =>
      if entry.link.vnets = [] ∨ vnet ∈ entry.link.vnets then t.routingMap src dst vnet else .empty
    target := dst
    targetDirn := entry.dstInportDirn }

def outPorts (t : Topology) (router : Nat) : List OutPort :=
  let src := t.routerSwitch router
  (List.range t.numSwitches).flatMap fun dst =>
    if t.realLink src dst then (t.linkMap src dst).map (t.outPort src dst) else []

def routingUnit (t : Topology) (algorithm : RoutingAlgorithm) (numRows numCols : Nat)
    (isVNetOrdered : Nat → Bool) (router : Nat) : RoutingUnit :=
  { id := router
    numRows := numRows
    numCols := numCols
    algorithm := algorithm
    outportDirns := (t.outPorts router).map OutPort.dirn
    routingTable := fun vnet => (t.outPorts router).map fun port => port.table vnet
    weightTable := (t.outPorts router).map fun port => port.link.weight
    isVNetOrdered := isVNetOrdered }

end Topology

end Resister.Network
