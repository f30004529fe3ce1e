import Resister.Garnet.CommonTypes

/-!
# Route computation

`RoutingUnit` as far as the table, XY and Valiant algorithms go: the routing table lookup, the two
overloads of `outportComputeXY`, `outportValiant` (`DEFENSE1_`) and `outportOriValiant` (`ORIVA`).
-/

namespace Resister.Garnet

open List

/-- What `RoutingUnit` reads: the router's number and mesh, its ports in the order
`addOutPort` added them, and the tables of `addRoute` and `addWeight`. -/
structure RoutingUnit where
  id : Nat
  numRows : Nat
  numCols : Nat
  algorithm : RoutingAlgorithm
  outportDirns : List PortDirection
  routingTable : Nat → List NetDest
  weightTable : List Nat
  isVNetOrdered : Nat → Bool

namespace RoutingUnit

/-- `m_outports_dirn2idx` after every `addOutDirection`: the last port of a direction. -/
def dirn2idx (u : RoutingUnit) (dirn : PortDirection) : Option Nat :=
  (u.outportDirns.zipIdx.reverse.find? fun port => port.1 == dirn).map Prod.snd

variable {u : RoutingUnit} {dirn : PortDirection}

theorem dirn2idx_some {port : Nat} (found : u.dirn2idx dirn = some port) : u.outportDirns[port]? = some dirn := by
  obtain ⟨⟨other, index⟩, present, rfl⟩ := Option.map_eq_some_iff.mp found
  have same : other = dirn := by simpa using List.find?_some present
  have listed := mem_reverse.mp (mem_of_find?_eq_some present)
  rw [mem_zipIdx_iff_getElem?] at listed
  exact same ▸ listed

theorem dirn2idx_isSome (present : dirn ∈ u.outportDirns) :
    ∃ port, u.dirn2idx dirn = some port := by
  cases found : u.dirn2idx dirn with
  | some port => exact ⟨port, rfl⟩
  | none =>
    obtain ⟨index, listed⟩ := List.getElem?_of_mem present
    have absent := List.find?_eq_none.mp (Option.map_eq_none_iff.mp found) (dirn, index)
      (mem_reverse.mpr (mem_zipIdx_iff_getElem?.mpr listed))
    simp at absent

def outportsDirn2idx (u : RoutingUnit) (dirn : PortDirection) : Nat := (u.dirn2idx dirn).getD 0

theorem map_ok {ε α β : Type} {f : α → β} {x : Except ε α} {b : β} (result : x.map f = .ok b) :
    ∃ a, x = .ok a ∧ f a = b := by
  cases x with
  | error e => cases result
  | ok a => exact ⟨a, rfl, Except.ok.inj result⟩

/-- The links of `vnet` whose table entry meets the destination, with their weights. -/
def tableLinks (u : RoutingUnit) (vnet : Nat) (dest : NetDest) : List (Nat × Nat) :=
  (u.routingTable vnet).zipIdx.filterMap fun entry =>
    if dest.intersectionIsNotEmpty entry.1 then some (entry.2, u.weightTable.getD entry.2 0)
    else none

def minWeight (links : List (Nat × Nat)) : Nat :=
  links.foldl (fun least link => if link.2 ≤ least then link.2 else least) infinite

/-- `output_link_candidates`. -/
def candidates (u : RoutingUnit) (vnet : Nat) (dest : NetDest) : List Nat :=
  let links := u.tableLinks vnet dest
  (links.filter fun link => link.2 == minWeight links).map Prod.fst

def lookupRoutingTable (u : RoutingUnit) (vnet : Nat) (dest : NetDest) (raw : Nat) :
    Except Abort Nat :=
  let links := u.candidates vnet dest
  let candidate := if u.isVNetOrdered vnet then 0 else raw % links.length
  match links[candidate]? with
  | some link => .ok link
  | none => .error .noRoute

theorem minWeight_le {links : List (Nat × Nat)} {link : Nat × Nat} (present : link ∈ links) :
    minWeight links ≤ link.2 := by
  suffices below : ∀ (links : List (Nat × Nat)) (start : Nat),
      links.foldl (fun least link => if link.2 ≤ least then link.2 else least) start ≤ start ∧
        ∀ link ∈ links,
          links.foldl (fun least link => if link.2 ≤ least then link.2 else least) start ≤ link.2
    from (below links infinite).2 link present
  intro links
  induction links with
  | nil => simp
  | cons first rest ih =>
    intro start
    simp only [foldl_cons, mem_cons, forall_eq_or_imp]
    obtain ⟨bound, all⟩ := ih (if first.2 ≤ start then first.2 else start)
    have smaller : (if first.2 ≤ start then first.2 else start) ≤ start ∧
        (if first.2 ≤ start then first.2 else start) ≤ first.2 := by split <;> omega
    exact ⟨bound.trans smaller.1, bound.trans smaller.2, all⟩

theorem minWeight_attained (links : List (Nat × Nat)) :
    minWeight links = infinite ∨ ∃ link ∈ links, link.2 = minWeight links := by
  suffices attained : ∀ (links : List (Nat × Nat)) (start : Nat),
      let least := links.foldl (fun least link => if link.2 ≤ least then link.2 else least) start
      least = start ∨ ∃ link ∈ links, link.2 = least from attained links infinite
  intro links
  induction links with
  | nil => exact fun start => Or.inl rfl
  | cons first rest ih =>
    intro start
    simp only [foldl_cons, mem_cons]
    rcases ih (if first.2 ≤ start then first.2 else start) with same | ⟨link, later, weight⟩
    · rw [same]
      split
      · exact Or.inr ⟨first, Or.inl rfl, rfl⟩
      · exact Or.inl rfl
    · exact Or.inr ⟨link, Or.inr later, weight⟩

theorem lookupRoutingTable_mem {vnet raw link : Nat} {dest : NetDest}
    (result : u.lookupRoutingTable vnet dest raw = .ok link) :
    (link, minWeight (u.tableLinks vnet dest)) ∈ u.tableLinks vnet dest := by
  unfold lookupRoutingTable at result
  dsimp only at result
  split at result
  · rename_i found
    cases result
    have chosen := mem_of_getElem? found
    simp only [candidates, mem_map, mem_filter, beq_iff_eq] at chosen
    obtain ⟨⟨link, weight⟩, ⟨present, least⟩, rfl⟩ := chosen
    exact least ▸ present
  · cases result

theorem lookupRoutingTable_ok {vnet : Nat} {dest : NetDest} {link : Nat × Nat}
    (present : link ∈ u.tableLinks vnet dest) (finite : link.2 ≤ infinite) (raw : Nat) :
    ∃ i, u.lookupRoutingTable vnet dest raw = .ok i := by
  have least : ∃ link ∈ u.tableLinks vnet dest, link.2 = minWeight (u.tableLinks vnet dest) := by
    rcases minWeight_attained (u.tableLinks vnet dest) with top | least
    · exact ⟨link, present, Nat.le_antisymm (top ▸ finite) (minWeight_le present)⟩
    · exact least
  obtain ⟨chosen, chosenPresent, weight⟩ := least
  have candidate : chosen.1 ∈ u.candidates vnet dest :=
    mem_map_of_mem (mem_filter.mpr ⟨chosenPresent, beq_iff_eq.mpr weight⟩)
  have nonempty : 0 < (u.candidates vnet dest).length := length_pos_of_mem candidate
  have inBounds : (if u.isVNetOrdered vnet then 0 else raw % (u.candidates vnet dest).length) <
      (u.candidates vnet dest).length := by
    split
    · exact nonempty
    · exact Nat.mod_lt _ nonempty
  refine ⟨(u.candidates vnet dest).get ⟨_, inBounds⟩, ?_⟩
  simp [lookupRoutingTable, List.getElem?_eq_getElem inBounds]

def xyDirn (u : RoutingUnit) (destId : Nat) : Except Abort PortDirection :=
  if 0 < u.numRows ∧ 0 < u.numCols then
    let myX := u.id % u.numCols
    let myY := u.id / u.numCols
    let destX := destId % u.numCols
    let destY := destId / u.numCols
    let xHops := ((destX : Int) - myX).natAbs
    let yHops := ((destY : Int) - myY).natAbs
    if xHops = 0 ∧ yHops = 0 then .error .assertFail
    else if 0 < xHops then .ok (if myX ≤ destX then .East else .West)
    else .ok (if myY ≤ destY then .North else .South)
  else .error .assertFail

def xyInportAllowed (inportDirn : PortDirection) : PortDirection → Bool
  | .East => inportDirn == .Local || inportDirn == .West
  | .West => inportDirn == .Local || inportDirn == .East
  | .North => inportDirn != .North
  | .South => inportDirn != .South
  | _ => true

def xyCheckedDirn (u : RoutingUnit) (route : RouteInfo) (inportDirn : PortDirection) :
    Except Abort PortDirection :=
  match u.xyDirn route.destRouter with
  | .ok dirn => if xyInportAllowed inportDirn dirn then .ok dirn else .error .assertFail
  | .error e => .error e

def outportComputeXY (u : RoutingUnit) (route : RouteInfo) (inportDirn : PortDirection) :
    Except Abort Nat :=
  (u.xyCheckedDirn route inportDirn).map u.outportsDirn2idx

/-- The direction of the second overload, which has no assertion on the input port. It is
called with `mid` only once the intermediate router has been set. -/
def xyMidDirn (u : RoutingUnit) (route : RouteInfo) (mid : Bool) : Except Abort PortDirection :=
  if mid then
    match route.interRoute with
    | some inter => u.xyDirn inter
    | none => .error .panic
  else u.xyDirn route.destRouter

theorem xyDirn_remote {destId : Nat} (result : u.xyDirn destId = .ok dirn) : dirn ≠ .Local := by
  unfold xyDirn at result
  dsimp only at result
  split at result
  · split at result
    · cases result
    · split at result <;> cases result <;> split <;> simp
  · cases result

theorem xyMidDirn_remote {route : RouteInfo} {mid : Bool}
    (result : u.xyMidDirn route mid = .ok dirn) : dirn ≠ .Local := by
  unfold xyMidDirn at result
  split at result
  · split at result
    · exact xyDirn_remote result
    · cases result
  · exact xyDirn_remote result

/-- `myRandom::getMyRandom`: a draw from `[lo, hi]`, the bounds converted to `uint64_t`. -/
def getMyRandom (lo hi : Int) (raw : Nat) : Nat :=
  let low := (lo % 2 ^ 64).toNat
  let high := (hi % 2 ^ 64).toNat
  low + raw % (high - low + 1)

def optionsExcept (n skip : Nat) : List Nat := (List.range n).filter fun i => i != skip

variable {n : Nat}

theorem mem_optionsExcept {skip v : Nat} : v ∈ optionsExcept n skip ↔ v < n ∧ v ≠ skip := by
  simp [optionsExcept]

theorem length_optionsExcept (n skip : Nat) :
    (optionsExcept n skip).length = if skip < n then n - 1 else n := by
  have erased : optionsExcept n skip = (List.range n).erase skip :=
    (nodup_range.erase_eq_filter skip).symm
  split
  · rw [erased, length_erase_of_mem (mem_range.mpr ‹_›), length_range]
  · rw [erased, erase_of_not_mem (by simpa using Nat.le_of_not_lt ‹_›), length_range]

variable {hi : Nat}

theorem getMyRandom_zero (fits : hi < 2 ^ 64) (raw : Nat) :
    getMyRandom 0 hi raw = raw % (hi + 1) := by
  have low : ((0 : Int) % 2 ^ 64).toNat = 0 := rfl
  have high : ((hi : Int) % 2 ^ 64).toNat = hi := by omega
  simp only [getMyRandom, low, high, Nat.zero_add, Nat.sub_zero]

theorem pick_mem {options : List Nat} (fits : hi < 2 ^ 64) (enough : hi < options.length)
    (raw : Nat) : ∃ v ∈ options, options[getMyRandom 0 hi raw]? = some v := by
  have inBounds : raw % (hi + 1) < options.length :=
    Nat.lt_of_lt_of_le (Nat.mod_lt raw (Nat.succ_pos hi)) enough
  rw [getMyRandom_zero fits, List.getElem?_eq_getElem inBounds]
  exact ⟨_, getElem_mem inBounds, rfl⟩

theorem pick_surjective {options : List Nat} {v : Nat} (fits : hi < 2 ^ 64)
    (few : options.length ≤ hi + 1) (present : v ∈ options) :
    ∃ raw, options[getMyRandom 0 hi raw]? = some v := by
  obtain ⟨raw, listed⟩ := List.getElem?_of_mem present
  have inBounds : raw < options.length := (List.getElem?_eq_some_iff.mp listed).1
  refine ⟨raw, ?_⟩
  rw [getMyRandom_zero fits, Nat.mod_eq_of_lt (by omega)]
  exact listed

theorem pick_optionsExcept (size : 2 ≤ n) (fits : n < 2 ^ 31) (skip raw : Nat) :
    ∃ v, (optionsExcept n skip)[getMyRandom 0 ((n : Int) - 2) raw]? = some v ∧ v < n ∧ v ≠ skip := by
  have bound : (n : Int) - 2 = ((n - 2 : Nat) : Int) := by omega
  have enough : n - 2 < (optionsExcept n skip).length := by
    rw [length_optionsExcept]
    split <;> omega
  obtain ⟨v, present, picked⟩ := pick_mem (by omega) enough raw
  exact ⟨v, bound ▸ picked, mem_optionsExcept.mp present⟩

theorem length_optionsExcept_two {a b : Nat} (aBelow : a < n) (bBelow : b < n) (different : a ≠ b) :
    ((List.range n).filter fun i => i != a && i != b).length = n - 2 := by
  have erased : ((List.range n).filter fun i => i != a && i != b) = ((List.range n).erase b).erase a := by
    rw [nodup_range.erase_eq_filter, (nodup_range.filter _).erase_eq_filter, filter_filter]
  rw [erased, length_erase_of_mem, length_erase_of_mem (mem_range.mpr bBelow),
    length_range]
  · omega
  · exact (mem_erase_of_ne different).mpr (mem_range.mpr aBelow)

/-- The intermediate router of `outportValiant`. Both the rows and the columns to choose from
are counted by `num_cols`. -/
def valiantInter (u : RoutingUnit) (route : RouteInfo) (raw : Nat) : Except Abort RouteInfo :=
  let myX := u.id % u.numCols
  let myY := u.id / u.numCols
  let destX := route.destRouter % u.numCols
  let destY := route.destRouter / u.numCols
  let xHops := ((destX : Int) - myX).natAbs
  let yHops := ((destY : Int) - myY).natAbs
  let rNum := getMyRandom 0 ((u.numCols : Int) - 2) raw
  if 0 < xHops ∧ yHops = 0 then
    match (optionsExcept u.numCols myY)[rNum]? with
    | some newY => .ok (route.setInter (newY * u.numCols + myX))
    | none => .error .outOfBounds
  else if 0 < yHops ∧ xHops = 0 then
    match (optionsExcept u.numCols destX)[rNum]? with
    | some newX => .ok (route.setInter (destY * u.numCols + newX))
    | none => .error .outOfBounds
  else if 0 < yHops ∧ 0 < xHops then
    match (optionsExcept u.numCols destX)[rNum]? with
    | some newX => .ok (route.setInter (newX + destY * u.numCols))
    | none => .error .outOfBounds
  else .ok route

def oriValiantInter (u : RoutingUnit) (route : RouteInfo) (raw : Nat) : Except Abort RouteInfo :=
  let options := (List.range (u.numCols * u.numRows)).filter fun i =>
    i != u.id && i != route.destRouter
  match options[getMyRandom 0 ((u.numCols * u.numRows : Nat) - 3) raw]? with
  | some newNode => .ok (route.setInter newNode)
  | none => .error .outOfBounds

def markPassed (u : RoutingUnit) (route : RouteInfo) : RouteInfo :=
  if route.sTag = 1 ∧ ¬ route.passedMid ∧ route.interRoute = some u.id then route.setPassed
  else route

/-- The walk shared by the two Valiant algorithms, which differ only in how the intermediate
router is chosen: the updated route and the direction. -/
def valiantWalk (u : RoutingUnit) (inter : RouteInfo → Except Abort RouteInfo)
    (route : RouteInfo) : Except Abort (RouteInfo × PortDirection) :=
  if route.sTag = 0 then (u.xyMidDirn route false).map (route, ·)
  else
    let route := u.markPassed route
    match route.interRoute with
    | none =>
      if 0 < u.numRows ∧ 0 < u.numCols then
        match inter route with
        | .ok chosen => (u.xyMidDirn chosen true).map (chosen, ·)
        | .error e => .error e
      else .error .assertFail
    | some _ => (u.xyMidDirn route (!route.passedMid)).map (route, ·)

def valiantDirn (u : RoutingUnit) (route : RouteInfo) (raw : Nat) :
    Except Abort (RouteInfo × PortDirection) :=
  u.valiantWalk (u.valiantInter · raw) route

def oriValiantDirn (u : RoutingUnit) (route : RouteInfo) (raw : Nat) :
    Except Abort (RouteInfo × PortDirection) :=
  u.valiantWalk (u.oriValiantInter · raw) route

def outportValiant (u : RoutingUnit) (route : RouteInfo) (raw : Nat) :
    Except Abort (RouteInfo × Nat) :=
  (u.valiantDirn route raw).map fun res => (res.1, u.outportsDirn2idx res.2)

def outportOriValiant (u : RoutingUnit) (route : RouteInfo) (raw : Nat) :
    Except Abort (RouteInfo × Nat) :=
  (u.oriValiantDirn route raw).map fun res => (res.1, u.outportsDirn2idx res.2)

end RoutingUnit

end Resister.Garnet
