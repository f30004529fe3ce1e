import Resister.Garnet.RoutingUnit

/-!
# Output port selection

The remaining direction-based algorithms of `RoutingUnit` and `outportCompute`, which every input
unit calls for a head flit.
-/

namespace Resister.Garnet

open List

structure PatternEntry where
  src : Nat := 0
  dst : Nat := 0
  inport : Nat := 0
  output : PortDirection := .Unknown
  cycleRecieve : Nat := 0
  deriving DecidableEq, Repr

/-- What route computation reads and writes besides the packet. The counters are a map; the
source has an array that it indexes by router numbers. -/
structure RoutingState where
  routerr : Int → Nat := fun _ => 0
  counterr : Nat := 0
  patternTable : List PatternEntry := List.replicate 8 {}

/-- The state at a call, the input port's number, the current tick and the draw. -/
structure RoutingCall where
  state : RoutingState := {}
  inport : Nat := 0
  tick : Nat := 0
  raw : Nat := 0

namespace RoutingUnit

/-- The directions that `avail_dimension_set` marks, in the order of `compute_dirn`. -/
def westFirstOptions (ex ey : Int) : List PortDirection :=
  if ex < 0 then [.West]
  else
    (if 0 < ey then [.North] else []) ++ (if 0 < ex then [.East] else []) ++
      (if ey < 0 then [.South] else [])

/-- `outportRanWestFirst`. -/
def ranWestFirstDirn (u : RoutingUnit) (route : RouteInfo) (raw : Nat) :
    Except Abort PortDirection :=
  if 0 < u.numRows ∧ 0 < u.numCols then
    let ex : Int := (route.destRouter % u.numCols : Nat) - (u.id % u.numCols : Nat)
    let ey : Int := (route.destRouter / u.numCols : Nat) - (u.id / u.numCols : Nat)
    if ex = 0 ∧ ey = 0 then .error .assertFail
    else
      match westFirstOptions ex ey with
      | [first, second] => .ok (if raw % 2 = 0 then first else second)
      | first :: _ => .ok first
      | [] => .ok .Unknown
  else .error .assertFail

/-- `outportSecTest`. The direction of the least used neighbour is overwritten by the draw
between the two west-first directions. -/
def secTestDirn (u : RoutingUnit) (route : RouteInfo) (raw : Nat) : Except Abort PortDirection :=
  u.ranWestFirstDirn route raw

def computeNeighborId (myId numCols : Int) : PortDirection → Int
  | .North => myId + numCols
  | .East => myId + 1
  | .West => myId - 1
  | .South => myId - numCols
  | _ => myId

/-- One of the four counters that `outportTest` compares. A missing neighbour has a counter
above 900 of its own. -/
structure TestNeighbour where
  dirn : PortDirection
  counter : Int
  missing : Bool
  deriving DecidableEq, Repr

def testNeighbours (u : RoutingUnit) : List TestNeighbour :=
  let cols : Int := u.numCols
  let size : Int := u.numCols * u.numRows
  let neighbour (dirn : PortDirection) (missing : Int → Bool) (blocked : Int) : TestNeighbour :=
    let id := computeNeighborId u.id cols dirn
    if missing id then ⟨dirn, blocked, true⟩ else ⟨dirn, id, false⟩
  [neighbour .North (fun id => size ≤ id) 900,
   neighbour .East (fun id => size ≤ id ∨ id / cols ≠ u.id / cols) 901,
   neighbour .West (fun id => id < 0 ∨ id / cols ≠ u.id / cols) 902,
   neighbour .South (fun id => id < 0) 903]

def blockMissing (u : RoutingUnit) (routerr : Int → Nat) : Int → Nat := fun k =>
  if u.testNeighbours.any fun neighbour => neighbour.missing && neighbour.counter == k then 0x7fffffff
  else routerr k

def testDirn (u : RoutingUnit) (st : RoutingState) :
    Except Abort (RoutingState × PortDirection) :=
  if 0 < u.numRows ∧ 0 < u.numCols then
    let routerr := u.blockMissing st.routerr
    let least := ((u.testNeighbours.map fun neighbour => routerr neighbour.counter).min?).getD 0
    let chosen := u.testNeighbours.find? fun neighbour => routerr neighbour.counter == least
    .ok ({ st with routerr := routerr }, chosen.elim .Unknown TestNeighbour.dirn)
  else .error .assertFail

def entryCmp (a b : PatternEntry) : Bool := a.src == b.src && a.dst == b.dst && a.output == b.output

def timePatternDiff (times : List Nat) : List Nat :=
  (times.zip times.tail).map fun pair => (pair.2 + 2 ^ 64 - pair.1) % 2 ^ 64

/-- `variance <= 3 && abs(avg) < 6`. The source computes with `double`s; a variance of exactly
`3` forces an average without rounding error, and any other is off by at least `1 / 49`. -/
def regularTimes (times : List Nat) : Bool :=
  let diffs := timePatternDiff times
  let n := diffs.length
  decide (n * (diffs.map fun d => d * d).sum ≤ 3 * n * n + diffs.sum * diffs.sum) &&
    decide (diffs.sum < 6 * n)

/-- `RoutingUnit::riskFind`: the last entry that fills more than half of the table, if its
packets came at regular times. -/
def riskFind (table : List PatternEntry) : Option PatternEntry :=
  if table.any fun entry => entry.cycleRecieve == 0 then none
  else
    match table.reverse.find? fun entry => table.length < 2 * table.countP (entryCmp entry) with
    | none => none
    | some risk =>
      if regularTimes ((table.filter fun entry => entryCmp entry risk).map PatternEntry.cycleRecieve)
      then some risk else none

def dimensionDirn (xFirst : Bool) (ex ey : Int) : PortDirection :=
  let xDirn : PortDirection := if 0 ≤ ex then .East else .West
  let yDirn : PortDirection := if 0 ≤ ey then .North else .South
  if xFirst then if ex ≠ 0 then xDirn else yDirn
  else if ey ≠ 0 then yDirn else xDirn

/-- The direction of a packet found risky: one of the two that are neither the former output
nor the opposite row direction, the other one at the edge of the mesh. -/
def redirect (u : RoutingUnit) (former : PortDirection) (ey : Int) (raw : Nat) : PortDirection :=
  let opposite : PortDirection := if 0 ≤ ey then .South else .North
  let allList := [PortDirection.East, .West, .South, .North].filter fun dirn =>
    dirn != former && dirn != opposite
  let choice (i : Nat) := allList.getD i .Unknown
  let chooseId := if getMyRandom 0 100 raw < 50 then 0 else 1
  let chosen := choice chooseId
  let myX := u.id % u.numCols
  let myY := u.id / u.numCols
  if chosen = .South ∧ myY = 0 ∨ chosen = .North ∧ myY + 1 = u.numRows ∨
      chosen = .West ∧ myX = 0 ∨ chosen = .East ∧ myX + 1 = u.numCols then choice (1 - chooseId)
  else chosen

/-- `outportPattern`. -/
def patternDirn (u : RoutingUnit) (call : RoutingCall) (route : RouteInfo) :
    Except Abort (RoutingState × PortDirection) :=
  if 0 < u.numRows ∧ 0 < u.numCols then
    let ex : Int := (route.destRouter % u.numCols : Nat) - (u.id % u.numCols : Nat)
    let ey : Int := (route.destRouter / u.numCols : Nat) - (u.id / u.numCols : Nat)
    if ex = 0 ∧ ey = 0 then .error .assertFail
    else
      let risk := (riskFind call.state.patternTable).filter fun entry =>
        entry.dst == route.destRouter && entry.src == route.srcRouter
      let dirn := match risk with
        | none => dimensionDirn (getMyRandom 0 100 call.raw < 50) ex ey
        | some entry => u.redirect entry.output ey call.raw
      let entry : PatternEntry :=
        ⟨route.srcRouter, route.destRouter, call.inport, dirn, call.tick / 500⟩
      .ok ({ call.state with patternTable := call.state.patternTable.tail ++ [entry] }, dirn)
  else .error .assertFail

/-- The direction that an algorithm looks up in `m_outports_dirn2idx`, with the route and the
state it leaves. The table algorithm chooses no direction. -/
def computeDirn (u : RoutingUnit) (call : RoutingCall) (route : RouteInfo)
    (inportDirn : PortDirection) : Except Abort (RoutingState × RouteInfo × PortDirection) :=
  match u.algorithm with
  | .xy => (u.xyCheckedDirn route inportDirn).map fun dirn => (call.state, route, dirn)
  | .ranWestFirst => (u.ranWestFirstDirn route call.raw).map fun dirn => (call.state, route, dirn)
  | .secTest => (u.secTestDirn route call.raw).map fun dirn => (call.state, route, dirn)
  | .test => (u.testDirn call.state).map fun result => (result.1, route, result.2)
  | .defense0 => (u.patternDirn call route).map fun result => (result.1, route, result.2)
  | .defense1 => (u.valiantDirn route call.raw).map fun result => (call.state, result.1, result.2)
  | .oriVa => (u.oriValiantDirn route call.raw).map fun result => (call.state, result.1, result.2)
  | .table | .custom => .error .panic

section Remote

variable {u : RoutingUnit} {route routed : RouteInfo} {dirn : PortDirection}

theorem valiantWalk_remote {inter : RouteInfo → Except Abort RouteInfo}
    (result : u.valiantWalk inter route = .ok (routed, dirn)) : dirn ≠ .Local := by
  unfold valiantWalk at result
  split at result
  · obtain ⟨_, walked, same⟩ := map_ok result
    cases same
    exact xyMidDirn_remote walked
  · dsimp only at result
    split at result
    · split at result
      · split at result
        · obtain ⟨_, walked, same⟩ := map_ok result
          cases same
          exact xyMidDirn_remote walked
        · cases result
      · cases result
    · obtain ⟨_, walked, same⟩ := map_ok result
      cases same
      exact xyMidDirn_remote walked

theorem westFirstOptions_remote {ex ey : Int} : ∀ dirn ∈ westFirstOptions ex ey, dirn ≠ .Local := by
  intro dirn listed
  unfold westFirstOptions at listed
  split at listed
  · simp_all
  · rintro rfl
    simp at listed

theorem ranWestFirstDirn_option {raw : Nat} {ex ey : Int} (rows : 0 < u.numRows) (cols : 0 < u.numCols)
    (column : ex = (route.destRouter % u.numCols : Nat) - (u.id % u.numCols : Nat))
    (row : ey = (route.destRouter / u.numCols : Nat) - (u.id / u.numCols : Nat))
    (some : westFirstOptions ex ey ≠ []) :
    ∃ dirn ∈ westFirstOptions ex ey, u.ranWestFirstDirn route raw = .ok dirn := by
  have apart : ¬ (ex = 0 ∧ ey = 0) := by
    rintro ⟨rfl, rfl⟩
    exact some rfl
  unfold ranWestFirstDirn
  rw [if_pos ⟨rows, cols⟩]
  dsimp only
  rw [← column, ← row, if_neg apart]
  split
  · rename_i first second options
    refine ⟨if raw % 2 = 0 then first else second, ?_, rfl⟩
    rw [options]
    split
    · exact mem_cons_self
    · exact mem_cons_of_mem _ mem_cons_self
  · rename_i first rest _ options
    exact ⟨first, options ▸ mem_cons_self, rfl⟩
  · rename_i options
    exact absurd options some

theorem ranWestFirstDirn_remote {raw : Nat} (result : u.ranWestFirstDirn route raw = .ok dirn) :
    dirn ≠ .Local := by
  unfold ranWestFirstDirn at result
  dsimp only at result
  split at result
  · split at result
    · cases result
    · split at result
      · rename_i first second options
        have remote : ∀ dirn ∈ [first, second], dirn ≠ .Local := options ▸ westFirstOptions_remote
        cases result
        split
        · exact remote first (by simp)
        · exact remote second (by simp)
      · rename_i first rest _ options
        have remote : ∀ dirn ∈ first :: rest, dirn ≠ .Local := options ▸ westFirstOptions_remote
        cases result
        exact remote dirn (by simp)
      · cases result
        simp
  · cases result

theorem testDirn_remote {st st' : RoutingState} (result : u.testDirn st = .ok (st', dirn)) : dirn ≠ .Local := by
  unfold testDirn at result
  dsimp only at result
  split at result
  · cases result
    cases found : u.testNeighbours.find? _ with
    | none => simp
    | some neighbour =>
      have listed := mem_of_find?_eq_some found
      simp only [testNeighbours, mem_cons, not_mem_nil, or_false] at listed
      rcases listed with rfl | rfl | rfl | rfl <;> simp only [Option.elim_some] <;> split <;> simp
  · cases result

theorem redirect_remote (former : PortDirection) (ey : Int) (raw : Nat) : u.redirect former ey raw ≠ .Local := by
  have choice : ∀ (list : List PortDirection), (∀ dirn ∈ list, dirn ≠ .Local) → ∀ i,
      list.getD i .Unknown ≠ .Local := by
    intro list remote i
    rw [getD_eq_getElem?_getD]
    cases found : list[i]? with
    | none => simp
    | some dirn => exact remote dirn (mem_of_getElem? found)
  unfold redirect
  dsimp only
  generalize (if 0 ≤ ey then PortDirection.South else .North) = opposite
  generalize (if getMyRandom 0 100 raw < 50 then 0 else 1) = chooseId
  have remote : ∀ dirn ∈ [PortDirection.East, .West, .South, .North].filter fun dirn =>
      dirn != former && dirn != opposite, dirn ≠ .Local := by
    rintro dirn listed rfl
    simp at listed
  split
  · exact choice _ remote _
  · exact choice _ remote _

theorem patternDirn_remote {call : RoutingCall} {st : RoutingState}
    (result : u.patternDirn call route = .ok (st, dirn)) : dirn ≠ .Local := by
  unfold patternDirn at result
  dsimp only at result
  split at result
  · split at result
    · cases result
    · cases result
      split
      · unfold dimensionDirn
        dsimp only
        split <;> split <;> split <;> simp
      · exact redirect_remote _ _ _
  · cases result

theorem computeDirn_remote {call : RoutingCall} {inportDirn : PortDirection} {st : RoutingState}
    (result : u.computeDirn call route inportDirn = .ok (st, routed, dirn)) : dirn ≠ .Local := by
  unfold computeDirn at result
  split at result
  · obtain ⟨_, chosen, same⟩ := map_ok result
    cases same
    unfold xyCheckedDirn at chosen
    split at chosen
    · rename_i found
      split at chosen <;> cases chosen
      exact xyDirn_remote found
    · cases chosen
  · obtain ⟨_, chosen, same⟩ := map_ok result
    cases same
    exact ranWestFirstDirn_remote chosen
  · obtain ⟨_, chosen, same⟩ := map_ok result
    cases same
    exact ranWestFirstDirn_remote chosen
  · obtain ⟨⟨_, _⟩, chosen, same⟩ := map_ok result
    cases same
    exact testDirn_remote chosen
  · obtain ⟨⟨_, _⟩, chosen, same⟩ := map_ok result
    cases same
    exact patternDirn_remote chosen
  · obtain ⟨⟨_, _⟩, chosen, same⟩ := map_ok result
    cases same
    exact valiantWalk_remote chosen
  · obtain ⟨⟨_, _⟩, chosen, same⟩ := map_ok result
    cases same
    exact valiantWalk_remote chosen
  · cases result
  · cases result

end Remote

def countRoute (u : RoutingUnit) (st : RoutingState) : RoutingState :=
  { st with
    counterr := st.counterr + 1
    routerr := fun k => if k = u.id then st.routerr k + 1 else st.routerr k }

def outportCompute (u : RoutingUnit) (call : RoutingCall) (route : RouteInfo)
    (inportDirn : PortDirection) : Except Abort (RoutingState × RouteInfo × Nat) :=
  if route.destRouter = u.id then
    (u.lookupRoutingTable route.vnet route.netDest call.raw).map fun port => (call.state, route, port)
  else if u.algorithm = .table then
    (u.lookupRoutingTable route.vnet route.netDest call.raw).map fun port =>
      (u.countRoute call.state, route, port)
  else
    (u.computeDirn call route inportDirn).map fun result =>
      (u.countRoute result.1, result.2.1, u.outportsDirn2idx result.2.2)

end RoutingUnit

end Resister.Garnet
