import Resister.Garnet.Outport

/-!
# Flits, credits and virtual channels

`flit`, `Credit`, `flitBuffer`, `VirtualChannel` and `OutVcState`. A `flitBuffer` is a list, its top
flit first.
-/

namespace Resister.Garnet

/-- A `flit` without the fields that only statistics and width conversion read. `msgPtr` is the
identity of the message object, which `flitisizeMessage` clones for every packet. -/
structure Flit where
  packetId : Nat
  id : Nat
  vnet : Nat
  vc : Nat
  route : RouteInfo
  size : Nat
  msgPtr : Nat
  time : Nat
  outport : Option Nat
  stage : FlitStage × Nat
  deriving DecidableEq, Repr

structure Credit where
  vc : Nat
  isFreeSignal : Bool
  time : Nat
  deriving DecidableEq, Repr

/-- What the flits of a packet have in common: all but the detour state of their `RouteInfo`. -/
structure Packet where
  msgPtr : Nat
  size : Nat
  vnet : Nat
  netDest : NetDest
  srcNi : Nat
  srcRouter : Nat
  destNi : Nat
  destRouter : Nat
  deriving DecidableEq, Repr

def RouteInfo.fixed (route : RouteInfo) : RouteInfo :=
  { route with sTag := 0, interRoute := none, passedMid := false }

def RouteInfo.incrementHops (route : RouteInfo) : RouteInfo :=
  { route with hopsTraversed := route.hopsTraversed + 1 }

namespace Flit

def create (_packetId id vc vnet : Nat) (route : RouteInfo) (size msgPtr curTime : Nat) : Flit :=
  { packetId := id, id := id, vnet := vnet, vc := vc, route := route, size := size
    msgPtr := msgPtr, time := curTime, outport := none, stage := (.i, curTime) }

def type (f : Flit) : FlitType :=
  if f.size = 1 then .headTail
  else if f.id = 0 then .head
  else if f.id + 1 = f.size then .tail
  else .body

def isHead (f : Flit) : Bool := f.type == .head || f.type == .headTail

def isTail (f : Flit) : Bool := f.type == .tail || f.type == .headTail

def isStage (f : Flit) (stage : FlitStage) (time : Nat) : Bool :=
  f.stage.1 == stage && decide (f.stage.2 ≤ time)

def packet (f : Flit) : Packet :=
  { msgPtr := f.msgPtr, size := f.size, vnet := f.vnet, netDest := f.route.netDest
    srcNi := f.route.srcNi, srcRouter := f.route.srcRouter, destNi := f.route.destNi
    destRouter := f.route.destRouter }

def key (f : Flit) : Packet × Nat := (f.packet, f.id)

theorem isHead_iff {f : Flit} (valid : f.id < f.size) : f.isHead = true ↔ f.id = 0 := by
  unfold isHead type
  split
  · simp only [beq_self_eq_true, Bool.or_true, true_iff]
    omega
  · split
    · simpa
    · split <;> simpa

theorem isTail_iff {f : Flit} (valid : f.id < f.size) : f.isTail = true ↔ f.id + 1 = f.size := by
  unfold isTail type
  split
  · simp only [beq_self_eq_true, Bool.or_true, true_iff]
    omega
  · split
    · simp only [reduceCtorEq, beq_iff_eq, false_iff, Bool.or_eq_true, or_self]
      omega
    · split <;> simpa

theorem packet_eq_of_fixed {f : Flit} {route : RouteInfo} (same : route.fixed = f.route.incrementHops.fixed) :
    ({ f with route := route } : Flit).packet = f.packet := by
  simp only [RouteInfo.fixed, RouteInfo.incrementHops, RouteInfo.mk.injEq] at same
  simp [packet, same]

end Flit

def isReady (buffer : List Flit) (curTime : Nat) : Bool :=
  match buffer with
  | [] => false
  | f :: _ => decide (f.time ≤ curTime)

theorem isReady_iff {buffer : List Flit} {curTime : Nat} :
    isReady buffer curTime = true ↔ ∃ f rest, buffer = f :: rest ∧ f.time ≤ curTime := by
  cases buffer with
  | nil => simp [isReady]
  | cons f rest => simp [isReady]

structure VirtualChannel where
  inputBuffer : List Flit := []
  state : VcState := .idle
  stateTime : Nat := 0
  outputPort : Option Nat := none
  enqueueTime : Nat := infinite
  outputVc : Option Nat := none
  deriving DecidableEq, Repr

namespace VirtualChannel

def setIdle (vc : VirtualChannel) (curTime : Nat) : VirtualChannel :=
  { vc with state := .idle, stateTime := curTime, enqueueTime := infinite, outputPort := none
            outputVc := none }

def setActive (vc : VirtualChannel) (curTime : Nat) : VirtualChannel :=
  { vc with state := .active, stateTime := curTime, enqueueTime := curTime }

def needStage (vc : VirtualChannel) (stage : FlitStage) (time : Nat) : Bool :=
  match vc.inputBuffer with
  | [] => false
  | f :: _ => decide (f.time ≤ time) && f.isStage stage time

def stageAssertion (vc : VirtualChannel) (time : Nat) : Bool :=
  !isReady vc.inputBuffer time || (vc.state == .active && decide (vc.stateTime ≤ time))

theorem needStage_iff {vc : VirtualChannel} {stage : FlitStage} {time : Nat} :
    vc.needStage stage time = true ↔
      ∃ f rest, vc.inputBuffer = f :: rest ∧ f.time ≤ time ∧ f.stage.1 = stage ∧ f.stage.2 ≤ time := by
  unfold needStage
  cases vc.inputBuffer with
  | nil => simp
  | cons f rest => simp [Flit.isStage]

end VirtualChannel

structure OutVcState where
  time : Nat := 0
  state : VcState := .idle
  creditCount : Nat
  maxCreditCount : Nat
  deriving DecidableEq, Repr

namespace OutVcState

def isInState (out : OutVcState) (state : VcState) (requestTime : Nat) : Bool :=
  out.state == state && decide (out.time ≤ requestTime)

def hasCredit (out : OutVcState) : Bool := decide (0 < out.creditCount)

def setState (out : OutVcState) (state : VcState) (time : Nat) : OutVcState :=
  { out with state := state, time := time }

def incrementCredit (out : OutVcState) : OutVcState := { out with creditCount := out.creditCount + 1 }

def incrementAssertion (out : OutVcState) : Bool := decide (out.creditCount + 1 ≤ out.maxCreditCount)

def decrementCredit (out : OutVcState) : OutVcState := { out with creditCount := out.creditCount - 1 }

def decrementAssertion (out : OutVcState) : Bool := decide (1 ≤ out.creditCount)

end OutVcState

end Resister.Garnet
