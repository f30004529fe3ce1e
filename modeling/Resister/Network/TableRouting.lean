import Resister.Network.Paths

/-!
# Table routing

The routing tables that `createLinks` hands to the routers, followed hop by hop.
-/

namespace Resister.Network

open Garnet Library List

namespace Topology

variable (t : Topology)

variable {src dst : Nat} {entry : LinkEntry}

theorem addedLinks_cases (added : ((src, dst), entry) ∈ t.addedLinks) :
    (src < t.nodes ∧ 2 * t.nodes ≤ dst) ∨
      (2 * t.nodes ≤ src ∧ t.nodes ≤ dst ∧ dst < 2 * t.nodes) ∨
      (2 * t.nodes ≤ src ∧ 2 * t.nodes ≤ dst) := by
  simp only [addedLinks, mem_append, mem_flatMap, mem_cons, not_mem_nil,
    or_false, mem_map, Prod.mk.injEq] at added
  rcases added with ⟨l, present, ⟨⟨rfl, rfl⟩, -⟩ | ⟨⟨rfl, rfl⟩, -⟩⟩ | ⟨l, -, ⟨rfl, rfl⟩, -⟩
  · have := t.extNode_lt l present
    simp only [routerSwitch, nodes]
    omega
  · have := t.extNode_lt l present
    simp only [routerSwitch, nodes]
    omega
  · simp only [routerSwitch]
    omega

@[simp] theorem mem_linkMap :
    entry ∈ t.linkMap src dst ↔ ((src, dst), entry) ∈ t.addedLinks := by
  simp [linkMap]

theorem lt_numSwitches (added : ((src, dst), entry) ∈ t.addedLinks) : src < t.numSwitches ∧ dst < t.numSwitches := by
  suffices bound : ∀ (links : List ((Nat × Nat) × LinkEntry)) (start : Nat),
      let largest := links.foldl (fun largest added => max (max largest added.1.1) added.1.2) start
      start ≤ largest ∧ ∀ added ∈ links, added.1.1 ≤ largest ∧ added.1.2 ≤ largest by
    obtain ⟨srcBound, dstBound⟩ := (bound t.addedLinks 0).2 _ added
    exact ⟨Nat.lt_succ_of_le srcBound, Nat.lt_succ_of_le dstBound⟩
  intro links
  induction links with
  | nil => simp
  | cons first rest ih =>
    intro start
    obtain ⟨above, all⟩ := ih (max (max start first.1.1) first.1.2)
    simp only [foldl_cons, mem_cons, forall_eq_or_imp]
    exact ⟨by omega, ⟨by omega, by omega⟩, all⟩

variable {t}

variable {vnet : Nat}

theorem entryFor_mem (found : t.entryFor vnet src dst = some entry) :
    ((src, dst), entry) ∈ t.addedLinks ∧ vnet ∈ t.carried entry.link := by
  have present := mem_of_find?_eq_some found
  have carries := List.find?_some found
  exact ⟨(t.mem_linkMap).mp present, by simpa using carries⟩

theorem entryFor_eq (accepted : t.accepted = true) (added : ((src, dst), entry) ∈ t.addedLinks)
    (carries : vnet ∈ t.carried entry.link) : t.entryFor vnet src dst = some entry := by
  have checks := all_eq_true.mp accepted _ added
  simp only [Bool.and_eq_true, decide_eq_true_eq] at checks
  have disjoint := (nodup_flatMap.mp checks.1).2
  cases found : t.entryFor vnet src dst with
  | none =>
    have absent := List.find?_eq_none.mp found entry ((t.mem_linkMap).mpr added)
    simp [carries] at absent
  | some other =>
    obtain ⟨otherAdded, otherCarries⟩ := entryFor_mem found
    have symmetric : Std.Symm (Function.onFun List.Disjoint fun e : LinkEntry => t.carried e.link) :=
      ⟨fun _ _ apart _ right left => apart left right⟩
    by_contra different
    exact disjoint.forall ((t.mem_linkMap).mpr otherAdded) ((t.mem_linkMap).mpr added)
      (fun same => different (same ▸ rfl)) otherCarries carries

theorem vnet_lt (accepted : t.accepted = true)
    (added : ((src, dst), entry) ∈ t.addedLinks) (carries : vnet ∈ t.carried entry.link) :
    vnet < t.numVnets := by
  have checks := all_eq_true.mp accepted _ added
  simp only [Bool.and_eq_true, all_eq_true, decide_eq_true_eq] at checks
  exact checks.2 vnet (mem_flatMap.mpr ⟨entry, (t.mem_linkMap).mpr added, carries⟩)

theorem weights_of_entryFor
    (found : t.entryFor vnet src dst = some entry) : t.weights vnet src dst = entry.link.weight := by
  simp [weights, found]

theorem weights_of_none (absent : t.entryFor vnet src dst = none) :
    t.weights vnet src dst = if src = dst then 0 else infiniteLatency := by
  simp [weights, absent]

theorem exists_entry (different : src ≠ dst) (finite : t.weights vnet src dst < infiniteLatency) :
    ∃ entry, t.entryFor vnet src dst = some entry := by
  cases found : t.entryFor vnet src dst with
  | none => simp [weights_of_none found, different] at finite
  | some entry => exact ⟨entry, rfl⟩

/-! ### External ends of the network -/

variable {node : Nat}

theorem entryFor_output (low : t.nodes ≤ node) (high : node < 2 * t.nodes) :
    t.entryFor vnet node dst = none := by
  cases found : t.entryFor vnet node dst with
  | none => rfl
  | some entry =>
    have ranges := t.addedLinks_cases (entryFor_mem found).1
    omega

theorem dist_output_self (low : t.nodes ≤ node) (high : node < 2 * t.nodes)
    (inside : node < t.numSwitches) : t.dist vnet node node = 0 := by
  have direct := (t.dist_isDistance vnet).least (Walk.edge (y := node) inside inside)
  rw [weights_of_none (entryFor_output low high), if_pos rfl] at direct
  omega

theorem dist_output_other {final : Nat} (low : t.nodes ≤ node) (high : node < 2 * t.nodes)
    (inside : node < t.numSwitches) (finalInside : final < t.numSwitches) (different : node ≠ final) :
    infiniteLatency ≤ t.dist vnet node final := by
  have bound := ((t.dist_isDistance vnet).attained node final inside finalInside).potential_le
    (φ := fun x => if x = node then infiniteLatency else 0) (fun x y _ _ => by
      by_cases source : x = node
      · subst source
        rw [weights_of_none (entryFor_output low high)]
        by_cases self : x = y
        · simp [self]
        · simp [self]
      · simp [source])
  simpa [different.symm] using bound

variable {m : MachineID}

theorem outputSwitch_range (listed : m ∈ allMachines t.machineCounts) :
    t.nodes ≤ t.outputSwitch m ∧ t.outputSwitch m < 2 * t.nodes := by
  have number := nodeID_lt listed
  simp only [outputSwitch, nodes]
  omega

theorem mem_shortestPathToNode {next : Nat} :
    m ∈ (t.shortestPathToNode src next vnet).elems ↔
      m ∈ allMachines t.machineCounts ∧
        t.linkIsShortestPathToNode src next (t.outputSwitch m) vnet = true := by
  rw [shortestPathToNode, NetDest.mem_foldl_add
    (fun machine => t.linkIsShortestPathToNode src next (machine.2 + t.nodes) vnet) Prod.fst]
  simp only [NetDest.empty, not_mem_nil, false_or]
  constructor
  · rintro ⟨⟨other, k⟩, present, shortest, rfl⟩
    obtain ⟨listed, rfl⟩ := mem_zipIdx_allMachines.mp present
    exact ⟨listed, shortest⟩
  · rintro ⟨listed, shortest⟩
    exact ⟨(m, _), mem_zipIdx_allMachines.mpr ⟨listed, rfl⟩, shortest, rfl⟩

variable {router : Nat}

theorem mem_outPorts {port : OutPort} :
    port ∈ t.outPorts router ↔
      ∃ dst entry, ((t.routerSwitch router, dst), entry) ∈ t.addedLinks ∧
        t.realLink (t.routerSwitch router) dst = true ∧
        port = t.outPort (t.routerSwitch router) dst entry := by
  simp only [outPorts, mem_flatMap, mem_range]
  constructor
  · rintro ⟨dst, -, present⟩
    split at present
    · rename_i real
      obtain ⟨entry, added, rfl⟩ := mem_map.mp present
      exact ⟨dst, entry, (t.mem_linkMap).mp added, real, rfl⟩
    · simp at present
  · rintro ⟨dst, entry, added, real, rfl⟩
    refine ⟨dst, (t.lt_numSwitches added).2, ?_⟩
    rw [if_pos real]
    exact mem_map_of_mem ((t.mem_linkMap).mpr added)

theorem mem_tableLinks {algorithm : RoutingAlgorithm} {numRows numCols : Nat}
    {ordered : Nat → Bool} {i w : Nat} {dest : NetDest} :
    (i, w) ∈ (t.routingUnit algorithm numRows numCols ordered router).tableLinks vnet dest ↔
      ∃ port, (t.outPorts router)[i]? = some port ∧
        dest.intersectionIsNotEmpty (port.table vnet) = true ∧ port.link.weight = w := by
  simp only [RoutingUnit.tableLinks, routingUnit, mem_filterMap, Prod.exists,
    mem_zipIdx_iff_getElem?, List.getElem?_map, Option.map_eq_some_iff]
  constructor
  · rintro ⟨table, k, ⟨port, found, rfl⟩, chosen⟩
    split at chosen
    · rename_i meets
      simp only [Option.some.injEq, Prod.mk.injEq] at chosen
      obtain ⟨rfl, rfl⟩ := chosen
      exact ⟨port, found, meets, by simp [found]⟩
    · cases chosen
  · rintro ⟨port, found, meets, rfl⟩
    exact ⟨_, i, ⟨port, found, rfl⟩, by simp [meets, found]⟩

theorem exists_port (accepted : t.accepted = true) (found : t.entryFor vnet (t.routerSwitch router) dst = some entry)
    (positive : 0 < entry.link.weight) (finite : entry.link.weight < infiniteLatency)
    (listed : m ∈ allMachines t.machineCounts) (shortest : t.linkIsShortestPathToNode (t.routerSwitch router) dst
      (t.outputSwitch m) vnet = true) :
    ∃ port ∈ t.outPorts router, port.target = dst ∧ port.link.weight = entry.link.weight ∧
      m ∈ (port.table vnet).elems := by
  obtain ⟨added, carries⟩ := entryFor_mem found
  have real : t.realWeight vnet (t.routerSwitch router) dst = true := by
    simp only [realWeight, weights_of_entryFor found, Bool.and_eq_true, decide_eq_true_eq, bne_iff_ne]
    omega
  have realLink : t.realLink (t.routerSwitch router) dst = true :=
    any_eq_true.mpr ⟨vnet, mem_range.mpr (vnet_lt accepted added carries), real⟩
  refine ⟨_, mem_outPorts.mpr ⟨dst, entry, added, realLink, rfl⟩, rfl, rfl, ?_⟩
  have selected : entry.link.vnets = [] ∨ vnet ∈ entry.link.vnets := by
    unfold carried at carries
    split at carries
    · exact Or.inl ‹_›
    · exact Or.inr carries
  simp only [outPort, if_pos selected, routingMap, if_pos real]
  exact mem_shortestPathToNode.mpr ⟨listed, shortest⟩

theorem table_shortest {port : OutPort} (present : port ∈ t.outPorts router) (named : m ∈ (port.table vnet).elems) :
    0 < t.weights vnet (t.routerSwitch router) port.target ∧
      t.weights vnet (t.routerSwitch router) port.target +
          t.dist vnet port.target (t.outputSwitch m) =
        t.dist vnet (t.routerSwitch router) (t.outputSwitch m) ∧
      ∃ entry, ((t.routerSwitch router, port.target), entry) ∈ t.addedLinks := by
  obtain ⟨dst, entry, added, -, rfl⟩ := mem_outPorts.mp present
  simp only [outPort] at named ⊢
  split at named
  · unfold routingMap at named
    split at named
    · rename_i real
      simp only [realWeight, Bool.and_eq_true, decide_eq_true_eq] at real
      have shortest := (mem_shortestPathToNode.mp named).2
      simp only [linkIsShortestPathToNode, beq_iff_eq] at shortest
      exact ⟨real.1, shortest, entry, added⟩
    · simp [NetDest.empty] at named
  · simp [NetDest.empty] at named

def tableHop (t : Topology) (unit : Nat → RoutingUnit) (vnet : Nat) (dest : NetDest)
    (raw router : Nat) : Except Abort OutPort :=
  match (unit router).lookupRoutingTable vnet dest raw with
  | .ok link =>
    match (t.outPorts router)[link]? with
    | some port => .ok port
    | none => .error .outOfBounds
  | .error e => .error e

/-- The ports taken from a router, for at most `fuel` hops and until an external link. The
draws are those of the successive lookups. -/
def tableRoute (t : Topology) (unit : Nat → RoutingUnit) (vnet : Nat) (dest : NetDest) :
    Nat → (Nat → Nat) → Nat → List (Except Abort OutPort)
  | 0, _, _ => []
  | fuel + 1, draws, router =>
    match t.tableHop unit vnet dest (draws 0) router with
    | .error e => [.error e]
    | .ok port =>
      .ok port ::
        if port.target < 2 * t.nodes then []
        else t.tableRoute unit vnet dest fuel (fun k => draws (k + 1)) (port.target - 2 * t.nodes)

inductive LinkPath (t : Topology) (vnet : Nat) : Nat → Nat → Nat → Prop where
  | link {src dst : Nat} {entry : LinkEntry} : ((src, dst), entry) ∈ t.addedLinks →
      vnet ∈ t.carried entry.link → LinkPath t vnet src dst entry.link.weight
  | cons {src mid dst n : Nat} {entry : LinkEntry} : ((src, mid), entry) ∈ t.addedLinks →
      vnet ∈ t.carried entry.link → LinkPath t vnet mid dst n →
      LinkPath t vnet src dst (entry.link.weight + n)

theorem LinkPath.walk (accepted : t.accepted = true) {n : Nat} (path : LinkPath t vnet src dst n) :
    Walk (t.weights vnet) (· < t.numSwitches) src dst n := by
  induction path with
  | link added carries =>
    rw [← weights_of_entryFor (entryFor_eq accepted added carries)]
    exact .edge (t.lt_numSwitches added).1 (t.lt_numSwitches added).2
  | cons added carries _ ih =>
    rw [← weights_of_entryFor (entryFor_eq accepted added carries)]
    exact .cons (t.lt_numSwitches added).1 ih

section Delivery

variable (accepted : t.accepted = true)
  (positive : ∀ added ∈ t.addedLinks, 0 < added.2.link.weight)
  (algorithm : RoutingAlgorithm) (numRows numCols : Nat) (ordered : Nat → Bool)
  {vnet : Nat} {m : MachineID} (listed : m ∈ allMachines t.machineCounts)
  (outside : t.outputSwitch m < t.numSwitches)

include accepted positive listed outside

theorem tableHop_ok {router : Nat} (inside : t.routerSwitch router < t.numSwitches)
    (finite : t.dist vnet (t.routerSwitch router) (t.outputSwitch m) <
      infiniteLatency) (raw : Nat) :
    ∃ port, t.tableHop (t.routingUnit algorithm numRows numCols ordered) vnet ⟨[m]⟩ raw router =
      .ok port := by
  obtain ⟨low, high⟩ := outputSwitch_range listed
  have different : t.routerSwitch router ≠ t.outputSwitch m := by
    simp only [routerSwitch]
    omega
  obtain ⟨next, nextInside, other, split⟩ := (t.dist_isDistance vnet).first_edge inside outside
    different (dist_output_self low high outside)
  obtain ⟨entry, found⟩ : ∃ entry, t.entryFor vnet (t.routerSwitch router) next = some entry :=
    exists_entry (Ne.symm other) (by omega)
  have weight := weights_of_entryFor found
  obtain ⟨port, present, -, portWeight, named⟩ := exists_port accepted found
    (positive _ (entryFor_mem found).1) (by omega) listed
    (by simp only [linkIsShortestPathToNode, beq_iff_eq]; omega)
  obtain ⟨i, at_i⟩ := List.getElem?_of_mem present
  have candidate : (i, port.link.weight) ∈
      (t.routingUnit algorithm numRows numCols ordered router).tableLinks vnet ⟨[m]⟩ :=
    mem_tableLinks.mpr ⟨port, at_i,
      NetDest.intersectionIsNotEmpty_iff.mpr ⟨m, mem_singleton_self m, named⟩, rfl⟩
  obtain ⟨link, result⟩ := RoutingUnit.lookupRoutingTable_ok candidate
    (by simp only [infinite, infiniteLatency] at *; omega) raw
  obtain ⟨chosen, found, -⟩ := mem_tableLinks.mp (RoutingUnit.lookupRoutingTable_mem result)
  exact ⟨chosen, by simp [tableHop, result, found]⟩

omit accepted positive listed in
theorem tableHop_lowers {router raw : Nat} {port : OutPort}
    (finite : t.dist vnet (t.routerSwitch router) (t.outputSwitch m) < infiniteLatency)
    (result : t.tableHop (t.routingUnit algorithm numRows numCols ordered) vnet ⟨[m]⟩ raw router =
      .ok port) :
    t.dist vnet port.target (t.outputSwitch m) < t.dist vnet (t.routerSwitch router) (t.outputSwitch m) ∧
      port.target < t.numSwitches ∧ (port.target = t.outputSwitch m ∨ 2 * t.nodes ≤ port.target) := by
  obtain ⟨link, lookup, at_link⟩ : ∃ link, (t.routingUnit algorithm numRows numCols ordered
      router).lookupRoutingTable vnet ⟨[m]⟩ raw = .ok link ∧ (t.outPorts router)[link]? = some port := by
    unfold tableHop at result
    split at result
    · split at result
      · cases result
        exact ⟨_, ‹_›, ‹_›⟩
      · cases result
    · cases result
  obtain ⟨same, at_same, meets, -⟩ := mem_tableLinks.mp (RoutingUnit.lookupRoutingTable_mem lookup)
  obtain rfl : port = same := Option.some.inj (at_link.symm.trans at_same)
  obtain ⟨_, only, named⟩ := NetDest.intersectionIsNotEmpty_iff.mp meets
  rw [mem_singleton.mp only] at named
  obtain ⟨weight, shortest, entry, added⟩ := table_shortest (mem_of_getElem? at_link) named
  have bounds := t.lt_numSwitches added
  refine ⟨by omega, bounds.2, ?_⟩
  -- A link into another external output would leave an infinite distance.
  rcases t.addedLinks_cases added with ranges | ranges | ranges
  · simp only [routerSwitch] at ranges
    omega
  · by_contra other
    have far : infiniteLatency ≤ t.dist vnet port.target (t.outputSwitch m) :=
      dist_output_other ranges.2.1 ranges.2.2 bounds.2 outside
        fun same => other (Or.inl same)
    omega
  · exact Or.inr ranges.2

theorem tableRoute_ends (fuel : Nat) (draws : Nat → Nat) {router : Nat}
    (inside : t.routerSwitch router < t.numSwitches)
    (finite : t.dist vnet (t.routerSwitch router) (t.outputSwitch m) < infiniteLatency)
    (enough : t.dist vnet (t.routerSwitch router) (t.outputSwitch m) ≤ fuel) :
    ∃ ports : List OutPort,
      t.tableRoute (t.routingUnit algorithm numRows numCols ordered) vnet ⟨[m]⟩ fuel draws router =
        ports.map .ok ∧
      (t.routerSwitch router :: ports.map OutPort.target).IsChain
        (fun x y => t.dist vnet y (t.outputSwitch m) < t.dist vnet x (t.outputSwitch m)) ∧
      ∃ port, ports.getLast? = some port ∧ port.target = t.outputSwitch m := by
  induction fuel generalizing router draws with
  | zero =>
    obtain ⟨port, result⟩ :=
      tableHop_ok accepted positive algorithm numRows numCols ordered listed outside inside finite 0
    have := tableHop_lowers algorithm numRows numCols ordered outside finite result
    omega
  | succ fuel ih =>
    obtain ⟨port, result⟩ := tableHop_ok accepted positive algorithm numRows numCols ordered listed
      outside inside finite (draws 0)
    obtain ⟨lower, bound, reached⟩ :=
      tableHop_lowers algorithm numRows numCols ordered outside finite result
    obtain ⟨low, high⟩ := outputSwitch_range listed
    rcases reached with arrived | router
    · refine ⟨[port], ?_, ?_, port, rfl, arrived⟩
      · rw [tableRoute, result]
        simp [arrived, high]
      · simpa using lower
    · have back : t.routerSwitch (port.target - 2 * t.nodes) = port.target := by
        simp only [routerSwitch]
        omega
      obtain ⟨ports, route, chain, last, found, final⟩ :=
        @ih (fun k => draws (k + 1)) (port.target - 2 * t.nodes) (by rw [back]; exact bound)
          (by rw [back]; omega) (by rw [back]; omega)
      refine ⟨port :: ports, ?_, ?_, last, ?_, final⟩
      · rw [tableRoute, result]
        simp [route, show ¬ port.target < 2 * t.nodes by omega]
      · rw [back] at chain
        exact isChain_cons_cons.mpr ⟨lower, chain⟩
      · rw [List.getLast?_cons, found]
        rfl

end Delivery

def routerPair : Topology where
  machineCounts := [2]
  numVnets := 1
  extLinks := [⟨⟨1, 1, []⟩, 0, 0⟩, ⟨⟨1, 1, []⟩, 1, 1⟩]
  intLinks := [⟨⟨1, 1, []⟩, 0, 1, .East, .West⟩, ⟨⟨1, 1, []⟩, 1, 0, .West, .East⟩]
  extNode_lt := by decide

end Topology

end Resister.Network
