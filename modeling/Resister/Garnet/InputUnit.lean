import Resister.Garnet.Net

/-!
# Input units

`InputUnit::wakeup` in the versions that the switch `InputStruct` selects. They differ in what they
do with a packet that enters at port 0, before it is routed.
-/

namespace Resister.Garnet

open Function (update)

/-- What the random generators return during one call of `wakeup`. -/
structure Draws where
  preGet : Nat := 0
  trySending : Nat := 0
  compute : Nat := 0
  shuffle : List Nat := []
  deriving DecidableEq, Repr

namespace InputUnit

def routeCompute (cfg : Config) (r inport t raw : Nat) (dirn : PortDirection) (route : RouteInfo)
    (s : Net) : Except Fault (Net × RouteInfo × Nat) :=
  let state : RoutingState := ⟨s.routerr, s.counterr, s.patternTable r⟩
  match (cfg.routingUnit r).outportCompute ⟨state, inport, t, raw⟩ route dirn with
  | .error cause => .error (.routing cause)
  | .ok (after, routed, port) =>
    .ok ({ s with routerr := after.routerr, counterr := after.counterr
                  patternTable := update s.patternTable r after.patternTable }, routed, port)

def historyEntry (t : Nat) (route : RouteInfo) : HistoryEntry :=
  ⟨route.srcRouter, route.destRouter, 0, route.destRouter, getCycle t⟩

def record (r t : Nat) (f : Flit) (s : Net) : Net :=
  if f.route.sTag = 0 then
    { s with
      history := update s.history r (updateHistory (s.history r) (historyEntry t f.route))
      stats := update s.stats r { s.stats r with allCounts := (s.stats r).allCounts + 1 } }
  else s

def chosenForDetour (cfg : Config) (draws : Draws) : Bool :=
  decide (RoutingUnit.getMyRandom 0 10000 draws.trySending < cfg.detourThreshold)

/-- The Resister unit's inspection of a head flit at port 0: the predicted output port, the
verdict, and the tag. -/
def inspectResister (cfg : Config) (r l t : Nat) (draws : Draws) (f : Flit) (s : Net) :
    Except Fault (Net × RouteInfo) :=
  let recorded := record r t f s
  if f.route.destRouter = r then .ok (recorded, f.route)
  else
    let dirn := (cfg.links[l]?.map Link.inportDirn).getD .Unknown
    match routeCompute cfg r 0 t draws.preGet dirn f.route recorded with
    | .error fault => .error fault
    | .ok (predicted, route, port) =>
      if riskFind (predicted.history r) (historyEntry t route) (predicted.outBuf r) route.srcRouter route.destRouter
          Variant.all port then
        if cfg.inputStruct = .latency then .error .detected
        else
          let stats := predicted.stats r
          let counted := { stats with riskCounts := stats.riskCounts + 1 }
          if chosenForDetour cfg draws then
            .ok ({ predicted with
                    stats := update predicted.stats r
                      { counted with detourCounts := counted.detourCounts + 1 } }, route.setTag 1)
          else .ok ({ predicted with stats := update predicted.stats r counted }, route)
      else .ok (predicted, route)

def countDetour (r : Nat) (s : Net) : Net :=
  { s with stats := update s.stats r { s.stats r with detourCounts := (s.stats r).detourCounts + 1 } }

def inspect (cfg : Config) (r inport l t : Nat) (draws : Draws) (f : Flit) (s : Net) :
    Except Fault (Net × RouteInfo) :=
  if inport ≠ 0 then .ok (s, f.route)
  else
    match cfg.inputStruct with
    | .ori => .ok (s, f.route)
    | .resister | .latency =>
      if f.isHead then inspectResister cfg r l t draws f s else .ok (s, f.route)
    | .valiant =>
      if f.isHead && f.route.destRouter != r then .ok (countDetour r s, f.route.setTag 1)
      else .ok (s, f.route)
    | .tdma =>
      if f.isTail && f.route.destRouter != r then .ok (countDetour r s, f.route)
      else .ok (s, f.route)

def recordOutport (cfg : Config) (r inport port : Nat) (route : RouteInfo) (s : Net) : Net :=
  if inport = 0 ∧ (cfg.inputStruct = .resister ∨ cfg.inputStruct = .latency) then
    let updated := updateOutportRecord (s.outBuf r) port route.srcRouter route.destRouter
    { s with outBuf := update s.outBuf r updated }
  else s

/-- Route computation for a head flit: the route and the port, or the route of a body flit. -/
def resolve (cfg : Config) (r inport l t : Nat) (draws : Draws) (f : Flit) (s : Net) :
    Except Fault (Net × RouteInfo × Nat) :=
  match inspect cfg r inport l t draws f s with
  | .error fault => .error fault
  | .ok (inspected, route) =>
    if f.isHead then
      let dirn := (cfg.links[l]?.map Link.inportDirn).getD .Unknown
      match routeCompute cfg r inport t draws.compute dirn route.incrementHops inspected with
      | .error fault => .error fault
      | .ok (computed, routed, port) =>
        .ok (recordOutport cfg r inport port routed computed, routed, port)
    else .ok (inspected, route.incrementHops, 0)

def accept (cfg : Config) (r inport l t : Nat) (draws : Draws) (f : Flit) (rest : List Flit) (s : Net) : Net :=
  match resolve cfg r inport l t draws f s with
  | .error fault => s.fail fault
  | .ok (decided, route, port) =>
    let ready := t + cfg.pipeDelay r
    ({ decided with flow := s.flow.receive l t ready f rest route port } : Net).scheduleIf
      (cfg.pipeStages r != 1) (.router r) ready

def wakeupPlain (cfg : Config) (r inport l t : Nat) (draws : Draws) (s : Net) : Net :=
  match s.flow.linkBuffer l with
  | [] => s
  | f :: rest =>
    if f.time ≤ t then
      (accept cfg r inport l t draws f rest s).scheduleIf (isReady rest t) (.router r)
        (t + cfg.routerPeriod r)
    else s

def tdmaInit (r : Nat) (s : Net) : Net :=
  if s.tdma.init then s
  else
    { s with tdma :=
        { init := true, counter := fun i => if i = r then 0 else -1, roundCnt := r, roundList := id } }

def tdmaNext (r : Nat) (draws : Draws) (s : Net) : Net :=
  let token := s.tdma
  let newRound := !(token.roundCnt < coreNum - 1)
  let order := if draws.shuffle.isPerm (List.range coreNum) then draws.shuffle else List.range coreNum
  let roundList := if newRound then fun i => order.getD i 0 else token.roundList
  let roundCnt := if newRound then 0 else token.roundCnt + 1
  { s with
    tdma := { token with
      counter := update (update token.counter r (-1)) (roundList roundCnt) 0
      roundCnt := roundCnt
      roundList := roundList }
    roundFlit := update s.roundFlit r 0 }

/-- `counter[routerID] += cycles`. -/
def tdmaCount (r cycles : Nat) (s : Net) : Net :=
  { s with tdma := { s.tdma with counter := update s.tdma.counter r (s.tdma.counter r + cycles) } }

/-- A flit that arrives while the router holds the token, up to `THRES_FLIT` of them. -/
def tdmaConsume (cfg : Config) (r l t : Nat) (draws : Draws) (s : Net) : Net :=
  match s.flow.linkBuffer l with
  | [] => s
  | f :: rest =>
    if f.time ≤ t ∧ s.tdma.counter r < thresSlot ∧ s.roundFlit r < thresFlit then
      let accepted := accept cfg r 0 l t draws f rest s
      tdmaCount r (cfg.pipeStages r - 1)
        { accepted with roundFlit := update accepted.roundFlit r (accepted.roundFlit r + 1) }
    else s

def wakeupTdma (cfg : Config) (r l t : Nat) (draws : Draws) (s : Net) : Net :=
  if coreNum ≤ r then s.fail .outOfBounds
  else
    let started := tdmaInit r s
    if 0 ≤ started.tdma.counter r then
      let served := tdmaConsume cfg r l t draws started
      if thresSlot ≤ started.tdma.counter r then
        (tdmaNext r draws served).schedule (.router r) (t + thresSlot * cfg.routerPeriod r)
      else (tdmaCount r 1 served).schedule (.router r) (t + cfg.routerPeriod r)
    else started.schedule (.router r) (t + thresSlot * cfg.routerPeriod r)

def wakeup (cfg : Config) (r t : Nat) (draws : Nat → Draws) (s : Net) (port : Nat × Nat) : Net :=
  if cfg.inputStruct = .tdma ∧ port.2 = 0 then wakeupTdma cfg r port.1 t (draws 0) s
  else wakeupPlain cfg r port.2 port.1 t (draws port.2) s

end InputUnit

end Resister.Garnet
