import Resister.Network.MeshRoute

/-!
# Table routing in the mesh

With weight `1` along the rows and `2` along the columns, the distances of `createLinks` are
weighted Manhattan distances.
-/

namespace Resister.Network

open Garnet Library List Nat

namespace MeshXY

variable {m : MeshXY}

theorem linkCells_nodup (outer inner : Nat) : (linkCells outer inner).Nodup :=
  (nodup_range.product nodup_range).filter _

theorem cell_inj {a b c d : Nat} (first : b < m.numColumns) (second : d < m.numColumns)
    (same : b + a * m.numColumns = d + c * m.numColumns) : (a, b) = (c, d) := by
  have col := congrArg m.col same
  have row := congrArg m.row same
  rw [cell_mod first, cell_mod second] at col
  rw [cell_div first, cell_div second] at row
  rw [col, row]

theorem intLinks_nodup : m.intLinks.Nodup := by
  have loop : ∀ {outer inner : Nat} {f : Nat × Nat → IntLink},
      (∀ a b c d, b + 1 < inner → d + 1 < inner → a < outer → c < outer →
        f (a, b) = f (c, d) → (a, b) = (c, d)) →
      ((linkCells outer inner).map f).Nodup := by
    intro outer inner f injective
    refine (linkCells_nodup outer inner).map_on ?_
    rintro ⟨a, b⟩ first ⟨c, d⟩ second same
    obtain ⟨aInside, bInside⟩ := mem_linkCells.mp first
    obtain ⟨cInside, dInside⟩ := mem_linkCells.mp second
    exact injective a b c d bInside dInside aInside cInside same
  have swapped : ∀ {a b c d : Nat}, (a, b) = (c, d) → (b, a) = (d, c) := by
    rintro a b c d same
    cases same
    rfl
  -- The four loops differ in the direction of their links.
  have dirn : ∀ {cells : List (Nat × Nat)} {f : Nat × Nat → IntLink} {l : IntLink},
      l ∈ cells.map f → ∀ out, (∀ cell, (f cell).srcOutport = out) → l.srcOutport = out := by
    intro cells f l listed out same
    obtain ⟨cell, -, rfl⟩ := mem_map.mp listed
    exact same cell
  unfold intLinks
  refine nodup_append'.mpr ⟨nodup_append'.mpr ⟨nodup_append'.mpr ⟨?_, ?_, ?_⟩, ?_, ?_⟩,
    ?_, ?_⟩
  · exact loop fun a b c d _ _ _ _ same =>
      cell_inj (by omega) (by omega) (congrArg IntLink.srcNode same)
  · exact loop fun a b c d _ _ _ _ same =>
      cell_inj (by omega) (by omega) (congrArg IntLink.dstNode same)
  · intro l east west
    cases (dirn east .East fun _ => rfl).symm.trans (dirn west .West fun _ => rfl)
  · exact loop fun a b c d _ _ _ _ same =>
      swapped (cell_inj (by omega) (by omega) (congrArg IntLink.srcNode same))
  · intro l earlier north
    have out := dirn north .North fun _ => rfl
    rcases mem_append.mp earlier with east | west
    · cases (dirn east .East fun _ => rfl).symm.trans out
    · cases (dirn west .West fun _ => rfl).symm.trans out
  · exact loop fun a b c d _ _ _ _ same =>
      swapped (cell_inj (by omega) (by omega) (congrArg IntLink.dstNode same))
  · intro l earlier south
    have out := dirn south .South fun _ => rfl
    rcases mem_append.mp earlier with rows | north
    · rcases mem_append.mp rows with east | west
      · cases (dirn east .East fun _ => rfl).symm.trans out
      · cases (dirn west .West fun _ => rfl).symm.trans out
    · cases (dirn north .North fun _ => rfl).symm.trans out

theorem neighbour_unique {router next : Nat} {a b : PortDirection}
    (first : m.neighbour router a = some next) (second : m.neighbour router b = some next) : a = b := by
  have left := neighbour_moves first
  have right := neighbour_moves second
  cases a <;> cases b <;> simp only [Moves] at left right <;> first | rfl | omega

theorem linkMap_length_le (src dst : Nat) :
    (m.topology.linkMap (m.topology.routerSwitch src) (m.topology.routerSwitch dst)).length ≤ 1 := by
  have external : (m.topology.extLinks.flatMap fun l =>
      [((l.extNode, m.topology.routerSwitch l.intNode),
          (⟨l.toBasicLink, .named "", .named ""⟩ : LinkEntry)),
        ((m.topology.routerSwitch l.intNode, l.extNode + m.topology.nodes),
          ⟨l.toBasicLink, .named "", .named ""⟩)]).filter
      (fun added => added.1 == (m.topology.routerSwitch src, m.topology.routerSwitch dst)) = [] := by
    rw [filter_eq_nil_iff]
    intro added listed
    obtain ⟨l, present, inPair⟩ := mem_flatMap.mp listed
    have bound := m.topology.extNode_lt l present
    have nodes : m.topology.nodes = m.topology.machineCounts.sum := rfl
    simp only [mem_cons, not_mem_nil, or_false] at inPair
    rcases inPair with rfl | rfl <;>
      simp only [Topology.routerSwitch, beq_iff_eq, Prod.mk.injEq] <;> omega
  simp only [Topology.linkMap, Topology.addedLinks, filter_append, external, nil_append,
    length_map, filter_map]
  -- Two links that remain have the same ends, hence the same direction, and are the same link.
  have unique : ∀ a ∈ m.intLinks, ∀ b ∈ m.intLinks, a.srcNode = src → a.dstNode = dst →
      b.srcNode = src → b.dstNode = dst → a = b := by
    rintro ⟨⟨_, _, _⟩, _, _, _, _⟩ first ⟨⟨_, _, _⟩, _, _, _, _⟩ second rfl rfl aSrc bDst
    obtain ⟨-, aFound, aLink, aBack⟩ := mem_intLinks.mp first
    obtain ⟨-, bFound, bLink, bBack⟩ := mem_intLinks.mp second
    simp only at aSrc bDst aFound bFound aLink bLink aBack bBack
    subst aSrc bDst
    obtain rfl := neighbour_unique aFound bFound
    rw [aBack, bBack, aLink, bLink]
  generalize remaining : m.topology.intLinks.filter _ = links
  rcases links with _ | ⟨a, _ | ⟨b, rest⟩⟩
  · exact zero_le 1
  · exact le_refl 1
  · have nodup : (a :: b :: rest).Nodup := remaining ▸ intLinks_nodup.filter _
    have ends : ∀ l ∈ a :: b :: rest, l ∈ m.intLinks ∧ l.srcNode = src ∧ l.dstNode = dst := by
      intro l listed
      rw [← remaining] at listed
      obtain ⟨present, key⟩ := mem_filter.mp listed
      simp only [Function.comp_apply, Topology.routerSwitch, beq_iff_eq, Prod.mk.injEq,
        add_right_cancel_iff] at key
      exact ⟨present, key⟩
    obtain ⟨aPresent, aSrc, aDst⟩ := ends a (by simp)
    obtain ⟨bPresent, bSrc, bDst⟩ := ends b (by simp)
    have same := unique a aPresent b bPresent aSrc aDst bSrc bDst
    exact absurd nodup (by simp [same])

theorem port_unique {router i j : Nat} {a b : Topology.OutPort} (first : (m.topology.outPorts router)[i]? = some a)
    (second : (m.topology.outPorts router)[j]? = some b) (same : a.dirn = b.dirn)
    (remote : a.dirn ≠ .Local) : i = j := by
  -- Ports further along have other targets, except for links between the same two switches.
  have apart : (m.topology.outPorts router).Pairwise fun p q =>
      p.target = q.target → p.target < 2 * m.topology.nodes := by
    unfold Topology.outPorts
    refine pairwise_flatMap.mpr ⟨?_, ?_⟩
    · intro dst _
      split
      · by_cases low : dst < 2 * m.topology.nodes
        · exact pairwise_map.mpr (pairwise_of_forall fun _ _ _ => low)
        · obtain ⟨next, rfl⟩ : ∃ next, dst = m.topology.routerSwitch next :=
            ⟨dst - 2 * m.topology.nodes, by simp only [Topology.routerSwitch]; omega⟩
          have short := @linkMap_length_le m router next
          generalize m.topology.linkMap (m.topology.routerSwitch router)
            (m.topology.routerSwitch next) = links at short ⊢
          rcases links with _ | ⟨_, _ | _⟩
          · simp
          · simp
          · simp at short
      · exact List.Pairwise.nil
    · refine pairwise_lt_range.imp ?_
      intro x y less p inX q inY equal
      have target : ∀ {dst : Nat} {port : Topology.OutPort},
          port ∈ (if m.topology.realLink (m.topology.routerSwitch router) dst then
            (m.topology.linkMap (m.topology.routerSwitch router) dst).map
              (m.topology.outPort (m.topology.routerSwitch router) dst) else []) →
          port.target = dst := by
        intro dst port listed
        split at listed
        · obtain ⟨entry, -, rfl⟩ := mem_map.mp listed
          rfl
        · simp at listed
      rw [target inX, target inY] at equal
      omega
  have targets : a.target = b.target ∧ ¬ a.target < 2 * m.topology.nodes := by
    rcases port_cases (mem_of_getElem? first) with ⟨isLocal, -⟩ | ⟨next, found, aTarget, -⟩
    · exact absurd isLocal remote
    · rcases port_cases (mem_of_getElem? second) with ⟨isLocal, -⟩ | ⟨other, otherFound, bTarget, -⟩
      · exact absurd (same.trans isLocal) remote
      · rw [← same, found, Option.some.injEq] at otherFound
        rw [aTarget, bTarget, otherFound]
        refine ⟨rfl, ?_⟩
        simp only [Topology.routerSwitch]
        omega
  obtain ⟨iBound, rfl⟩ := List.getElem?_eq_some_iff.mp first
  obtain ⟨jBound, rfl⟩ := List.getElem?_eq_some_iff.mp second
  rw [pairwise_iff_getElem] at apart
  by_contra different
  rcases lt_or_gt_of_ne different with less | greater
  · exact targets.2 (apart i j iBound jBound less targets.1)
  · have := apart j i jBound iBound greater targets.1.symm
    omega

section Distance

variable {vnet : Nat} (valid : vnet < m.numVnets)

theorem attachments_unique {node a b : Nat} (first : (node, a) ∈ m.attachments)
    (second : (node, b) ∈ m.attachments) : a = b := by
  have nodup : (m.attachments.map Prod.fst).Nodup := by
    rw [m.attachments_fst]
    exact m.nodes_perm.nodup_iff.mpr nodup_range
  have same := inj_on_of_nodup_map nodup first second rfl
  exact (Prod.mk.inj same).2

theorem attachments_lt {node router : Nat} (attached : (node, router) ∈ m.attachments) :
    router < m.numRouters := by
  have positive : 0 < m.numRouters := lt_of_lt_of_le m.rows_pos m.rows_le
  simp only [attachments, mem_append, mem_map, Prod.mk.injEq] at attached
  rcases attached with ⟨pair, -, -, rfl⟩ | ⟨other, -, -, rfl⟩
  · exact mod_lt _ positive
  · exact positive

include valid in
theorem weights_neighbour {r next : Nat} {dirn : PortDirection} (inside : r < m.numRouters)
    (found : m.neighbour r dirn = some next) :
    m.topology.weights vnet (m.topology.routerSwitch r) (m.topology.routerSwitch next) =
      dirnWeight dirn := by
  have added := mem_addedLinks_router.mpr (Or.inr ⟨dirn, next, inside, found, rfl, rfl⟩)
  obtain ⟨entry, chosen⟩ := exists_entryFor valid added
  rw [Topology.weights_of_entryFor chosen]
  have ranges := m.topology.addedLinks_cases (Topology.entryFor_mem chosen).1
  rcases mem_addedLinks_router.mp (Topology.entryFor_mem chosen).1 with
    ⟨node, attached, target, rfl⟩ | ⟨other, last, -, otherFound, target, rfl⟩
  · have bound := m.attached_lt attached
    simp only [Topology.routerSwitch] at target
    omega
  · have same : next = last := by simpa [Topology.routerSwitch] using target
    rw [neighbour_unique found (same ▸ otherFound)]

include valid in
theorem weights_output {r node : Nat} (attached : (node, r) ∈ m.attachments) :
    m.topology.weights vnet (m.topology.routerSwitch r) (node + m.topology.nodes) = 1 := by
  have added := mem_addedLinks_router.mpr (Or.inl ⟨node, attached, rfl, rfl⟩)
  obtain ⟨entry, chosen⟩ := exists_entryFor valid added
  rw [Topology.weights_of_entryFor chosen]
  have bound := m.attached_lt attached
  rcases mem_addedLinks_router.mp (Topology.entryFor_mem chosen).1 with
    ⟨other, -, -, rfl⟩ | ⟨dirn, last, -, -, target, -⟩
  · rfl
  · simp only [Topology.routerSwitch] at target
    omega

variable (m) in
def weightedDist (a b : Nat) : Nat :=
  ((m.col a : Int) - m.col b).natAbs + 2 * ((m.row a : Int) - m.row b).natAbs

theorem weightedDist_lt (small : m.numColumns - 1 + 2 * (m.numRows - 1) + 2 < infiniteLatency)
    {r t : Nat} (inside : r < m.numRouters) (target : t < m.numRouters) :
    m.weightedDist r t + 1 < infiniteLatency := by
  have rows := row_lt inside
  have targetRows := row_lt target
  have columns := @col_lt m r
  have targetColumns := @col_lt m t
  unfold weightedDist
  omega

theorem weightedDist_le {r next t : Nat} {dirn : PortDirection} (found : m.neighbour r dirn = some next) :
    m.weightedDist r t ≤ dirnWeight dirn + m.weightedDist next t := by
  have moves := neighbour_moves found
  unfold weightedDist
  cases dirn <;> simp only [Moves, dirnWeight] at moves ⊢ <;> omega

theorem weightedDist_xy {r next t : Nat} (different : r ≠ t) (found : m.neighbour r (m.xyChoice r t) = some next) :
    m.weightedDist r t = dirnWeight (m.xyChoice r t) + m.weightedDist next t := by
  have apart := @coords_ne m r t different
  have moves := neighbour_moves found
  unfold weightedDist
  rcases @xyChoice_cases m r t with ⟨dirn, side⟩ | ⟨dirn, side⟩ | ⟨dirn, side⟩ | ⟨dirn, side⟩ <;>
    rw [dirn] at moves ⊢ <;> simp only [Moves, dirnWeight] at moves ⊢ <;> omega

theorem dirn_eq_xyChoice {r next t : Nat} {dirn : PortDirection} (different : r ≠ t)
    (found : m.neighbour r dirn = some next) (lowers : dirnWeight dirn + m.weightedDist next t = m.weightedDist r t)
    (light : dirnWeight dirn ≤ dirnWeight (m.xyChoice r t)) : dirn = m.xyChoice r t := by
  have apart := @coords_ne m r t different
  have moves := neighbour_moves found
  unfold weightedDist at lowers
  rcases @xyChoice_cases m r t with ⟨choice, side⟩ | ⟨choice, side⟩ | ⟨choice, side⟩ | ⟨choice, side⟩ <;>
    rw [choice] at light ⊢ <;> cases dirn <;> simp only [Moves, dirnWeight] at moves light lowers <;>
    first | rfl | omega

variable {machine : MachineID} {home : Nat}
  (attached : (machine.nodeID m.machineCounts, home) ∈ m.attachments)

variable (m) in
/-- The distance of every switch to a controller at `home`, cut off at `INFINITE_LATENCY`. The
external inputs have no incoming links, so that any value will do for them. -/
def potential (machine : MachineID) (home x : Nat) : Nat :=
  if x = m.topology.outputSwitch machine then 0
  else if x < m.topology.nodes then 0
  else if x < 2 * m.topology.nodes then infiniteLatency
  else min infiniteLatency (m.weightedDist (x - 2 * m.topology.nodes) home + 1)

theorem potential_le (x : Nat) : m.potential machine home x ≤ infiniteLatency := by
  unfold potential
  split
  · exact zero_le _
  · split
    · exact zero_le _
    · split
      · exact le_refl _
      · exact min_le_left _ _

theorem outputSwitch_eq : m.topology.outputSwitch machine = machine.nodeID m.machineCounts + m.topology.nodes := rfl

include attached in
theorem potential_router (r : Nat) : m.potential machine home (m.topology.routerSwitch r) =
    min infiniteLatency (m.weightedDist r home + 1) := by
  have bound := m.attached_lt attached
  unfold potential
  rw [if_neg, if_neg, if_neg]
  · simp [Topology.routerSwitch]
  · simp only [Topology.routerSwitch]
    omega
  · simp only [Topology.routerSwitch]
    omega
  · rw [outputSwitch_eq]
    simp only [Topology.routerSwitch]
    omega

include attached in
theorem potential_lipschitz (x y : Nat) :
    m.potential machine home x ≤ m.topology.weights vnet x y + m.potential machine home y := by
  have top := @potential_le m machine home x
  have bound := m.attached_lt attached
  cases found : m.topology.entryFor vnet x y with
  | none =>
    rw [Topology.weights_of_none found]
    split
    · rename_i same
      rw [same]
      omega
    · omega
  | some entry =>
    obtain ⟨added, -⟩ := Topology.entryFor_mem found
    rw [Topology.weights_of_entryFor found]
    by_cases low : x < m.topology.nodes
    · have zero : m.potential machine home x = 0 := by simp [potential, low]
      omega
    · obtain ⟨r, rfl⟩ : ∃ r, x = m.topology.routerSwitch r := by
        refine ⟨x - 2 * m.topology.nodes, ?_⟩
        have ranges := m.topology.addedLinks_cases added
        simp only [Topology.routerSwitch]
        omega
      rcases mem_addedLinks_router.mp added with
        ⟨node, here, rfl, rfl⟩ | ⟨dirn, next, inside, neighbour, rfl, rfl⟩
      · -- The link to the controller leaves its own router; other controllers are far away.
        by_cases same : node = machine.nodeID m.machineCounts
        · rw [same] at here
          rw [potential_router attached, attachments_unique here attached]
          simp [weightedDist]
        · have nodeBound := m.attached_lt here
          have far : m.potential machine home (node + m.topology.nodes) = infiniteLatency := by
            unfold potential
            rw [if_neg, if_neg (by omega), if_pos (by omega)]
            rw [outputSwitch_eq]
            omega
          omega
      · have nearer := @weightedDist_le m r next home dirn neighbour
        rw [potential_router attached, potential_router attached]
        simp only
        omega

include attached valid in
theorem dist_router (small : m.numColumns - 1 + 2 * (m.numRows - 1) + 2 < infiniteLatency) {r : Nat}
    (inside : r < m.numRouters) :
    m.topology.dist vnet (m.topology.routerSwitch r) (m.topology.outputSwitch machine) =
      m.weightedDist r home + 1 := by
  have homeInside := attachments_lt attached
  have output := mem_addedLinks_router.mpr (Or.inl ⟨_, attached, rfl, rfl⟩)
  have outputBounds := m.topology.lt_numSwitches output
  -- The XY route is a walk of that weight.
  have walk : ∀ n r, r < m.numRouters → m.manhattan r home = n →
      Walk (m.topology.weights vnet) (· < m.topology.numSwitches) (m.topology.routerSwitch r)
        (m.topology.outputSwitch machine) (m.weightedDist r home + 1) := by
    intro n
    induction n with
    | zero =>
      intro r _ near
      obtain rfl := manhattan_eq_zero near
      have direct := @Walk.edge _ (m.topology.weights vnet) (· < m.topology.numSwitches)
        (m.topology.routerSwitch r) (m.topology.outputSwitch machine) outputBounds.1 outputBounds.2
      rw [outputSwitch_eq, weights_output valid attached] at direct
      simpa [weightedDist, outputSwitch_eq] using direct
    | succ n ih =>
      intro r inside far
      have different : r ≠ home := by
        rintro rfl
        simp [manhattan_self] at far
      obtain ⟨next, found, nextInside, nearer⟩ :=
        xyChoice_neighbour inside (row_lt homeInside) different
      have added := mem_addedLinks_router.mpr (Or.inr ⟨_, next, inside, found, rfl, rfl⟩)
      have step := Walk.cons (W := m.topology.weights vnet) (P := (· < m.topology.numSwitches))
        (m.topology.lt_numSwitches added).1 (ih next nextInside (by omega))
      rw [weights_neighbour valid inside found] at step
      rw [weightedDist_xy different found, add_assoc]
      exact step
  have value := potential_router attached r
  rw [min_eq_right (le_of_lt (weightedDist_lt small inside homeInside))] at value
  rw [← value]
  apply (m.topology.dist_isDistance vnet).eq_potential (fun x y _ _ => potential_lipschitz attached x y)
  · simp [potential]
  · rw [value]
    exact walk _ r inside rfl

include valid in
theorem mem_table {router : Nat} {port : Topology.OutPort}
    (present : port ∈ m.topology.outPorts router) (listed : machine ∈ allMachines m.machineCounts) :
    machine ∈ (port.table vnet).elems ↔
      m.topology.weights vnet (m.topology.routerSwitch router) port.target +
          m.topology.dist vnet port.target (m.topology.outputSwitch machine) =
        m.topology.dist vnet (m.topology.routerSwitch router) (m.topology.outputSwitch machine) := by
  obtain ⟨dst, entry, added, -, rfl⟩ := Topology.mem_outPorts.mp present
  have plain := (addedLinks_plain added).1
  simp only [Topology.outPort, plain, true_or, if_true, Topology.routingMap,
    realWeight_of_added valid added, Topology.mem_shortestPathToNode,
    Topology.linkIsShortestPathToNode, beq_iff_eq, and_iff_right_iff_imp]
  exact fun _ => listed

include valid attached in
theorem tableLinks_neighbour (small : m.numColumns - 1 + 2 * (m.numRows - 1) + 2 < infiniteLatency)
    {router : Nat} (inside : router < m.numRouters) (other : home ≠ router)
    (listed : machine ∈ allMachines m.machineCounts) {port : Topology.OutPort}
    (present : port ∈ m.topology.outPorts router) (named : machine ∈ (port.table vnet).elems) :
    ∃ next, m.neighbour router port.dirn = some next ∧
      port.link.weight = dirnWeight port.dirn ∧
      dirnWeight port.dirn + m.weightedDist next home = m.weightedDist router home := by
  have shortest := (mem_table valid present listed).mp named
  rw [dist_router valid attached small inside] at shortest
  rcases port_cases present with ⟨-, -, node, here, target⟩ | ⟨next, found, target, -, weight⟩
  · -- A controller of this router is another one, and leads nowhere.
    exfalso
    have nodeBound := m.attached_lt here
    have bounds := m.topology.lt_numSwitches (mem_addedLinks_router.mpr (Or.inl ⟨_, here, rfl, rfl⟩))
    have homeBounds := m.topology.lt_numSwitches (mem_addedLinks_router.mpr (Or.inl ⟨_, attached, rfl, rfl⟩))
    have far : infiniteLatency ≤ m.topology.dist vnet (node + m.topology.nodes)
        (m.topology.outputSwitch machine) := by
      refine Topology.dist_output_other (by omega) (by omega) bounds.2 homeBounds.2 ?_
      rw [outputSwitch_eq]
      intro same
      rw [add_right_cancel same] at here
      exact other (attachments_unique attached here)
    have near := dist_router valid attached small inside
    have finite := weightedDist_lt small inside (attachments_lt attached)
    rw [target] at shortest
    omega
  · rw [target, weights_neighbour valid inside found,
      dist_router valid attached small (neighbour_lt inside found)] at shortest
    exact ⟨next, found, weight, by omega⟩

end Distance

/-- Whatever the draw, the routing table selects the port of `outportComputeXY`. -/
theorem table_eq_xy {algorithm : RoutingAlgorithm} {vnet router home : Nat} {machine : MachineID}
    {route : RouteInfo} (small : m.numColumns - 1 + 2 * (m.numRows - 1) + 2 < infiniteLatency)
    (valid : vnet < m.numVnets) (inside : router < m.numRouters) (listed : machine ∈ allMachines m.machineCounts)
    (attached : (machine.nodeID m.machineCounts, home) ∈ m.attachments) (other : home ≠ router)
    (dest : route.destRouter = home) (raw : Nat) :
    ∃ port, (m.unit algorithm router).lookupRoutingTable vnet ⟨[machine]⟩ raw = .ok port ∧
      (m.unit algorithm router).outportComputeXY route .Local = .ok port ∧
      ∀ inport, (m.unit algorithm router).outportComputeXY route inport = .ok port ∨
        (m.unit algorithm router).outportComputeXY route inport = .error .assertFail := by
  subst dest
  have computed : ∀ inport, (m.unit algorithm router).outportComputeXY route inport =
      (if RoutingUnit.xyInportAllowed inport (m.xyChoice router route.destRouter) then
        .ok (m.xyChoice router route.destRouter) else .error .assertFail : Except Abort _).map
          (m.unit algorithm router).outportsDirn2idx := by
    intro inport
    rw [RoutingUnit.outportComputeXY, RoutingUnit.xyCheckedDirn, xyDirn_eq other.symm]
  obtain ⟨next, found, -⟩ := xyChoice_neighbour inside (row_lt (attachments_lt attached)) other.symm
  obtain ⟨i, port, index, at_i, target, -⟩ := @dirn2idx_neighbour m algorithm _ _ _ inside found
  have dirn : port.dirn = m.xyChoice router route.destRouter := by
    have := RoutingUnit.dirn2idx_some index
    simpa [unit, Topology.routingUnit, at_i] using this
  have present := mem_of_getElem? at_i
  -- The XY port is one of those that the table offers.
  have named : machine ∈ (port.table vnet).elems := by
    rw [mem_table valid present listed, target, weights_neighbour valid inside found,
      dist_router valid attached small inside,
      dist_router valid attached small (neighbour_lt inside found), weightedDist_xy other.symm found]
    omega
  obtain ⟨_, _, weight, -⟩ := tableLinks_neighbour valid attached small inside other listed present named
  have meets : ∀ {p : Topology.OutPort}, machine ∈ (p.table vnet).elems ↔
      NetDest.intersectionIsNotEmpty ⟨[machine]⟩ (p.table vnet) = true := by
    intro p
    simp [NetDest.intersectionIsNotEmpty_iff]
  have offered : (i, port.link.weight) ∈ (m.unit algorithm router).tableLinks vnet ⟨[machine]⟩ :=
    Topology.mem_tableLinks.mpr ⟨port, at_i, meets.mp named, rfl⟩
  have light : port.link.weight ≤ infinite := by
    have := dirnWeight_range port.dirn
    simp only [infinite]
    omega
  obtain ⟨j, selected⟩ := RoutingUnit.lookupRoutingTable_ok offered light raw
  have least := RoutingUnit.lookupRoutingTable_mem selected
  obtain ⟨chosen, at_j, chosenMeets, chosenWeight⟩ := Topology.mem_tableLinks.mp least
  obtain ⟨nearer, chosenFound, chosenLight, lowers⟩ := tableLinks_neighbour valid attached small inside
    other listed (mem_of_getElem? at_j) (meets.mpr chosenMeets)
  have same : chosen.dirn = m.xyChoice router route.destRouter := by
    refine dirn_eq_xyChoice other.symm chosenFound lowers ?_
    rw [← chosenLight, chosenWeight, ← dirn, ← weight]
    exact RoutingUnit.minWeight_le offered
  obtain rfl := port_unique at_j at_i (same.trans dirn.symm) (same ▸ xyChoice_ne_local _ _)
  have port_eq : (m.unit algorithm router).outportsDirn2idx (m.xyChoice router route.destRouter) = j := by
    rw [RoutingUnit.outportsDirn2idx, index]
    rfl
  refine ⟨j, selected, ?_, ?_⟩
  · rw [computed, if_pos]
    · exact congrArg Except.ok port_eq
    · rcases @xyChoice_cases m router route.destRouter with
        ⟨choice, -⟩ | ⟨choice, -⟩ | ⟨choice, -⟩ | ⟨choice, -⟩ <;> rw [choice] <;> rfl
  · intro inport
    rw [computed]
    split
    · exact Or.inl (congrArg Except.ok port_eq)
    · exact Or.inr rfl

theorem table_eq_xy_grid : ∃ port,
    ((grid 2 2 (by decide) (by decide) (by decide)).unit .table 0).lookupRoutingTable 0 ⟨[⟨0, 3⟩]⟩ 7 =
      .ok port ∧
    ((grid 2 2 (by decide) (by decide) (by decide)).unit .table 0).outportComputeXY
      { destRouter := 3 } .Local = .ok port := by
  obtain ⟨port, table, xy, -⟩ := @table_eq_xy (grid 2 2 (by decide) (by decide) (by decide)) .table 0 0 3
    ⟨0, 3⟩ { destRouter := 3 } (by decide) (by decide) (by decide) (by decide) (by decide) (by decide)
    rfl 7
  exact ⟨port, table, xy⟩

end MeshXY

end Resister.Network
