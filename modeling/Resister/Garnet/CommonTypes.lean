import Mathlib

/-!
# Common types of the garnet network

The enumerations and records shared by the network's units: port directions, routing algorithms,
destination sets and the `RouteInfo` that a packet carries.
-/

namespace Resister.Garnet

open List

/-- `PortDirection` is a string in the source. The mesh uses the first six names; other
topologies may use any name. -/
inductive PortDirection where
  | Local | North | East | South | West | Unknown
  | named (name : String)
  deriving DecidableEq, Repr

inductive RoutingAlgorithm where
  | table | xy | ranWestFirst | secTest | test | defense0 | defense1 | oriVa | custom
  deriving DecidableEq, Repr

inductive VcState where
  | idle | vcAb | active
  deriving DecidableEq, Repr

inductive FlitType where
  | head | body | tail | headTail | credit
  deriving DecidableEq, Repr

inductive FlitStage where
  | i | va | sa | st | lt
  deriving DecidableEq, Repr

/-- How a call ends the simulation instead of returning. `outOfBounds` is an index past the
end of a vector, which the source does not check. -/
inductive Abort where
  | assertFail | panic | noRoute | outOfBounds
  deriving DecidableEq, Repr

def infinite : Nat := 10000

/-- A controller: its machine type and its number within the type. -/
structure MachineID where
  type : Nat
  num : Nat
  deriving DecidableEq, Repr

structure NetDest where
  elems : List MachineID
  deriving DecidableEq, Repr

namespace NetDest

def empty : NetDest := ⟨[]⟩

def add (d : NetDest) (m : MachineID) : NetDest :=
  if m ∈ d.elems then d else ⟨d.elems ++ [m]⟩

def isElement (d : NetDest) (m : MachineID) : Bool := decide (m ∈ d.elems)

def removeNetDest (d other : NetDest) : NetDest :=
  ⟨d.elems.filter fun m => !other.isElement m⟩

def intersectionIsNotEmpty (d other : NetDest) : Bool :=
  d.elems.any fun m => other.isElement m

theorem mem_add {d : NetDest} {m x : MachineID} : x ∈ (d.add m).elems ↔ x ∈ d.elems ∨ x = m := by
  unfold add
  split
  · constructor
    · exact Or.inl
    · rintro (present | rfl)
      · exact present
      · assumption
  · simp

theorem mem_foldl_add {α : Type} (chosen : α → Bool) (machine : α → MachineID) (l : List α)
    (start : NetDest) {m : MachineID} :
    m ∈ (l.foldl (fun d x => if chosen x then d.add (machine x) else d) start).elems ↔
      m ∈ start.elems ∨ ∃ x ∈ l, chosen x = true ∧ machine x = m := by
  induction l generalizing start with
  | nil => simp
  | cons x rest ih =>
    rw [foldl_cons, ih]
    by_cases here : chosen x = true
    · have same : m = machine x ↔ machine x = m := eq_comm
      simp [here, mem_add, or_assoc, same]
    · simp [here]

theorem intersectionIsNotEmpty_iff {d other : NetDest} :
    d.intersectionIsNotEmpty other = true ↔ ∃ m ∈ d.elems, m ∈ other.elems := by
  simp [intersectionIsNotEmpty, isElement]

end NetDest

def machineTypeBaseNumber (counts : List Nat) (type : Nat) : Nat := (counts.take type).sum

def MachineID.nodeID (counts : List Nat) (m : MachineID) : Nat :=
  machineTypeBaseNumber counts m.type + m.num

/-- Every controller, by type and then by number, as `shortest_path_to_node` and `getAllDest`
enumerate them. -/
def allMachines (counts : List Nat) : List MachineID :=
  (List.range counts.length).flatMap fun type =>
    (List.range (counts.getD type 0)).map fun num => ⟨type, num⟩

theorem map_nodeID_allMachines (counts : List Nat) :
    (allMachines counts).map (MachineID.nodeID counts) = List.range counts.sum := by
  -- The induction is on the number of types enumerated so far.
  suffices upTo : ∀ n ≤ counts.length,
      ((List.range n).flatMap fun type =>
        (List.range (counts.getD type 0)).map fun num => (⟨type, num⟩ : MachineID)).map
          (MachineID.nodeID counts) = List.range (counts.take n).sum by
    simpa [allMachines] using upTo counts.length (Nat.le_refl _)
  intro n bound
  induction n with
  | zero => simp
  | succ n ih =>
    have present : n < counts.length := bound
    rw [range_succ, flatMap_append, map_append, ih (by omega),
      take_succ_eq_append_getElem present, sum_append, range_add]
    simp [MachineID.nodeID, machineTypeBaseNumber, present, Function.comp_def]

variable {counts : List Nat} {m : MachineID}

theorem mem_zipIdx_allMachines {k : Nat} :
    (m, k) ∈ (allMachines counts).zipIdx ↔ m ∈ allMachines counts ∧ k = m.nodeID counts := by
  have number : ∀ {k : Nat} {m : MachineID},
      (allMachines counts)[k]? = some m → m.nodeID counts = k := by
    intro k m found
    have image := congrArg (fun l => l[k]?) (map_nodeID_allMachines counts)
    simp only [List.getElem?_map, found, Option.map_some] at image
    have := (List.getElem?_eq_some_iff.mp image.symm).2
    simpa using this.symm
  rw [mem_zipIdx_iff_getElem?]
  constructor
  · intro found
    exact ⟨mem_of_getElem? found, (number found).symm⟩
  · rintro ⟨present, rfl⟩
    obtain ⟨k, found⟩ := List.getElem?_of_mem present
    rw [number found]
    exact found

theorem nodeID_lt (present : m ∈ allMachines counts) :
    m.nodeID counts < counts.sum := by
  have image := mem_map_of_mem (f := MachineID.nodeID counts) present
  rwa [map_nodeID_allMachines, mem_range] at image

def NetDest.getAllDest (counts : List Nat) (d : NetDest) : List Nat :=
  ((allMachines counts).filter d.isElement).map (MachineID.nodeID counts)

theorem nodeID_inj {a b : MachineID} (first : a ∈ allMachines counts)
    (second : b ∈ allMachines counts) (same : a.nodeID counts = b.nodeID counts) : a = b :=
  inj_on_of_nodup_map (map_nodeID_allMachines counts ▸ nodup_range) first second same

theorem NetDest.mem_getAllDest {d : NetDest} {node : Nat} :
    node ∈ d.getAllDest counts ↔ ∃ m ∈ allMachines counts, m ∈ d.elems ∧ m.nodeID counts = node := by
  simp [getAllDest, isElement, and_assoc]

theorem NetDest.nodup_getAllDest (counts : List Nat) (d : NetDest) : (d.getAllDest counts).Nodup := by
  have whole : ((allMachines counts).map (MachineID.nodeID counts)).Nodup :=
    map_nodeID_allMachines counts ▸ nodup_range
  exact whole.sublist (filter_sublist.map _)

theorem machineTypeBaseNumber_succ {type : Nat} (present : type < counts.length) :
    machineTypeBaseNumber counts (type + 1) = machineTypeBaseNumber counts type + counts.getD type 0 := by
  rw [machineTypeBaseNumber, take_succ_eq_append_getElem present, sum_append]
  simp [machineTypeBaseNumber, present]

theorem machineTypeBaseNumber_mono {a b : Nat} (below : a ≤ b) :
    machineTypeBaseNumber counts a ≤ machineTypeBaseNumber counts b := by
  obtain ⟨rest, split⟩ := take_prefix_take_left below (l := counts)
  rw [machineTypeBaseNumber, machineTypeBaseNumber, ← split, sum_append]
  omega

theorem mem_allMachines :
    m ∈ allMachines counts ↔ m.type < counts.length ∧ m.num < counts.getD m.type 0 := by
  obtain ⟨type, num⟩ := m
  simp [allMachines]

/-- `RouteInfo`. The fields `sTag`, `interRoute` and `passedMid` are the detour state. -/
structure RouteInfo where
  vnet : Nat := 0
  netDest : NetDest := .empty
  srcNi : Nat := 0
  srcRouter : Nat := 0
  destNi : Nat := 0
  destRouter : Nat := 0
  hopsTraversed : Int := 0
  sTag : Nat := 0
  interRoute : Option Nat := none
  passedMid : Bool := false
  deriving DecidableEq, Repr

namespace RouteInfo

def setTag (route : RouteInfo) (tag : Nat) : RouteInfo := { route with sTag := tag }

def setInter (route : RouteInfo) (inter : Nat) : RouteInfo := { route with interRoute := some inter }

def setPassed (route : RouteInfo) : RouteInfo := { route with passedMid := true }

end RouteInfo

end Resister.Garnet
