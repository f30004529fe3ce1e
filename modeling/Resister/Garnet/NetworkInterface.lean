import Resister.Garnet.Router
import Resister.Library.Binary32

/-!
# Network interfaces

`NetworkInterface::wakeup`: protocol messages become packets, the output virtual channels share the
output links, and flits that arrive are exchanged for credits or, with the tail, for an enqueued
message.
-/

namespace Resister.Garnet

open Function (update)

namespace NetworkInterface

/-- `(int)divCeil((float)size, (float)bitWidth)`. -/
def numFlits (msgSize bitWidth : Nat) : Nat :=
  (Library.Binary32.toInt
    (Library.Binary32.divCeil (Library.Binary32.round msgSize) (Library.Binary32.round bitWidth))).toNat

/-- The search of `calculateVC`, for the remaining attempts. `l` is the link of the output port. -/
def calculateVC (cfg : Config) (n vnet l t : Nat) : Nat → Net → Net × Option Nat
  | 0, s =>
    let busy := s.vcBusyCounter (n, vnet) + 1
    let counted := { s with vcBusyCounter := update s.vcBusyCounter (n, vnet) busy }
    (if cfg.deadlockThreshold < busy then counted.fail .deadlock else counted, none)
  | attempts + 1, s =>
    let delta := s.flow.vcAllocator (n, vnet)
    let next := if delta + 1 = cfg.vcsPerVnet then 0 else delta + 1
    let moved := { s with flow := s.flow.setAllocator (n, vnet) next }
    let vc := vnet * cfg.vcsPerVnet + delta
    if (s.flow.outVcState (l, vc)).isInState .idle t then
      ({ moved with vcBusyCounter := update moved.vcBusyCounter (n, vnet) 0 }, some vc)
    else calculateVC cfg n vnet l t attempts moved

def personalDest (counts : List Nat) (dest : Nat) : NetDest :=
  match (List.range counts.length).find? fun m =>
      decide (machineTypeBaseNumber counts m ≤ dest) && decide (dest < machineTypeBaseNumber counts (m + 1)) with
  | some m => NetDest.empty.add ⟨m, dest - machineTypeBaseNumber counts m⟩
  | none => .empty

def routerID (cfg : Config) (l : Nat) : Nat :=
  match cfg.sink l with
  | some (.router r) => r
  | _ => 0

def routeTo (cfg : Config) (n vnet l : Nat) (netDest : NetDest) (dest destLink : Nat) : RouteInfo :=
  { vnet := vnet, netDest := netDest, srcNi := n, srcRouter := routerID cfg l
    destNi := dest, destRouter := routerID cfg destLink, hopsTraversed := -1 }

def packetFlits (route : RouteInfo) (vc size msgPtr t : Nat) : List Flit :=
  (List.range size).map fun i => Flit.create msgPtr i vc route.vnet route size msgPtr t

def packetOf (route : RouteInfo) (size msgPtr : Nat) : Packet :=
  { msgPtr := msgPtr, size := size, vnet := route.vnet, netDest := route.netDest
    srcNi := route.srcNi, srcRouter := route.srcRouter, destNi := route.destNi
    destRouter := route.destRouter }

/-- The loop of `flitisizeMessage` over the destinations, with what is left of the message's
destination set and whether every destination got a packet. -/
def flitisizeLoop (cfg : Config) (n vnet l t size : Nat) (multicast : Bool) :
    List Nat → NetDest → Net → Net × NetDest × Bool
  | [], remaining, s => (s, remaining, true)
  | dest :: more, remaining, s =>
    match calculateVC cfg n vnet l t cfg.vcsPerVnet s, cfg.getOutportForVnet dest vnet with
    | (searched, none), _ => (searched, remaining, false)
    | (searched, some _), none => (searched.fail .noOutport, remaining, false)
    | (searched, some vc), some destLink =>
      let personal := personalDest cfg.machineCounts dest
      let netDest := if multicast then personal else remaining
      let route := routeTo cfg n vnet l netDest dest destLink
      let msgPtr := searched.flow.clones
      let injected := { searched with
        flow := searched.flow.inject n t (l, vc) (packetOf route size msgPtr)
          (packetFlits route vc size msgPtr t) }
      flitisizeLoop cfg n vnet l t size multicast more
        (if multicast then remaining.removeNetDest personal else remaining) injected

def flitisizeMessage (cfg : Config) (n t : Nat) (s : Net) (vnet : Nat) : Net :=
  match s.flow.inNode (n, vnet) with
  | [] => s
  | msg :: rest =>
    if msg.arrival ≤ t then
      match cfg.getOutportForVnet n vnet with
      | none => s.fail .noOutport
      | some l =>
        let size := numFlits msg.msgSize ((cfg.links[l]?.map Link.bitWidth).getD 0)
        let dests := msg.destination.getAllDest cfg.machineCounts
        let (sent, remaining, complete) :=
          flitisizeLoop cfg n vnet l t size (decide (1 < dests.length)) dests msg.destination s
        let queue := if complete then rest else { msg with destination := remaining } :: rest
        { sent with flow := sent.flow.setMessages (n, vnet) queue }
    else s

def overtakes (cfg : Config) (s : Flow) (t l vc : Nat) : Bool :=
  (cfg.vcsOf (cfg.vnetOf vc)).any fun other =>
    isReady (s.niOutVcs (l, other)) t &&
      decide (s.niEnqueueTime (l, other) < s.niEnqueueTime (l, vc))

/-- Whether the output port of link `l` may send from `vc`; if so, the link of its virtual
network's output port, which `scheduleFlit` uses. -/
def candidate (cfg : Config) (s : Flow) (n t l vc : Nat) : Option Nat :=
  if cfg.isVnetSupported l (cfg.vnetOf vc) then
    (cfg.getOutportForVnet n (cfg.vnetOf vc)).filter fun out =>
      isReady (s.niOutVcs (out, vc)) t && (s.outVcState (out, vc)).hasCredit &&
        !(cfg.isVNetOrdered (cfg.vnetOf vc) && overtakes cfg s t out vc)
  else none

def scheduleOutputPort (cfg : Config) (n t : Nat) (s : Net) (l : Nat) : Net :=
  let found := (rotation (s.vcRoundRobin l + 1) (List.range cfg.numVcs)).findSome? fun vc =>
    (candidate cfg s.flow n t l vc).map fun out => (out, vc)
  match found with
  | none => s
  | some (out, vc) =>
    match s.flow.niOutVcs (out, vc) with
    | [] => s
    | f :: rest =>
      let time := t + cfg.niPeriod n
      ({ s with
          flow := s.flow.send (out, vc) f rest time
          vcRoundRobin := update s.vcRoundRobin l vc } : Net).schedule (.link out) time

/-- `areNSlotsAvailable(1, curTime)`. -/
def slotAvailable (s : Net) (n vnet t : Nat) : Bool := (s.outNode (n, vnet)).areNSlotsAvailable 1 t

def enqueue (n vnet t : Nat) (s : Net) : Net :=
  { s with outNode := update s.outNode (n, vnet) ((s.outNode (n, vnet)).enqueue t) }

def checkStallQueue (n t : Nat) (s : Net) (l : Nat) : Net :=
  let cleared := { s with messageEnqueuedThisCycle := update s.messageEnqueuedThisCycle l false }
  let stalled := s.flow.stallQueue l
  let blocked := stalled.takeWhile fun f => !slotAvailable s n f.vnet t
  match stalled.dropWhile fun f => !slotAvailable s n f.vnet t with
  | [] => cleared
  | f :: rest =>
    let count := s.stallCount (n, f.vnet) - 1
    { enqueue n f.vnet t cleared with
      flow := (s.flow.unstall l (blocked ++ rest)).eject n l t f
      stallCount := update s.stallCount (n, f.vnet) count
      dequeueCallback :=
        if count = 0 then update s.dequeueCallback (n, f.vnet) false else s.dequeueCallback
      messageEnqueuedThisCycle := update s.messageEnqueuedThisCycle l true }

def checkInLink (n t : Nat) (s : Net) (l : Nat) : Net :=
  match s.flow.linkBuffer l with
  | [] => s
  | f :: rest =>
    if f.time ≤ t then
      if f.isTail then
        if !s.messageEnqueuedThisCycle l && slotAvailable s n f.vnet t then
          { enqueue n f.vnet t s with flow := (s.flow.consume l rest).eject n l t f }
        else
          { s with
            flow := s.flow.stall l f rest
            stallCount := update s.stallCount (n, f.vnet) (s.stallCount (n, f.vnet) + 1)
            dequeueCallback := update s.dequeueCallback (n, f.vnet) true }
      else { s with flow := (s.flow.consume l rest).eject n l t f }
    else s

def checkCreditLink (t : Nat) (s : Net) (l : Nat) : Net :=
  match s.flow.creditLinkBuffer l with
  | [] => s
  | c :: rest => if c.time ≤ t then { s with flow := s.flow.creditArrives l t c rest } else s

def scheduleCredits (cfg : Config) (n t : Nat) (s : Net) (l : Nat) : Net :=
  s.scheduleIf (!(s.flow.creditQueue l).isEmpty) (.creditLink l) (t + cfg.niPeriod n)

def checkReschedule (cfg : Config) (n t : Nat) (s : Net) : Net :=
  let next := t + cfg.niPeriod n
  let messages := (List.range cfg.numVnets).any fun vnet =>
    (s.flow.inNode (n, vnet)).head?.any fun msg => decide (msg.arrival ≤ t)
  let flits := (List.range cfg.numVcs).any fun vc =>
    (cfg.getOutportForVnet n (cfg.vnetOf vc)).any fun l => isReady (s.flow.niOutVcs (l, vc)) next
  let arrivals := (cfg.inLinks (.ni n)).any fun l => isReady (s.flow.linkBuffer l) t
  let credits := (cfg.outLinks (.ni n)).any fun l =>
    (s.flow.creditLinkBuffer l).head?.any fun c => decide (c.time ≤ t)
  s.scheduleIf (messages || flits || arrivals || credits) (.ni n) next

def wakeup (cfg : Config) (n t : Nat) (s : Net) : Net :=
  let flitisized := (List.range cfg.numVnets).foldl (flitisizeMessage cfg n t) s
  let scheduled := (cfg.outLinks (.ni n)).foldl (scheduleOutputPort cfg n t) flitisized
  let unstalled := (cfg.inLinks (.ni n)).foldl (checkStallQueue n t) scheduled
  let ejected := (cfg.inLinks (.ni n)).foldl (checkInLink n t) unstalled
  let credited := (cfg.outLinks (.ni n)).foldl (checkCreditLink t) ejected
  checkReschedule cfg n t ((cfg.inLinks (.ni n)).foldl (scheduleCredits cfg n t) credited)

end NetworkInterface

end Resister.Garnet
