import Resister.Garnet.NetworkInterface
import Resister.Library.Multiplex

/-!
# Network bridges

`NetworkBridge::flitisizeAndSend` with `serialize` and `deserialize` of flits and credits: the
conversion between the width of a link and the width of the router or interface at its end.
-/

namespace Resister.Garnet

open Library

/-- A `flit` with the fields that width conversion reads and passes on. -/
structure BridgeFlit extends Flit where
  width : Nat
  msgSize : Nat
  enqueueTime : Nat
  srcDelay : Nat
  deriving DecidableEq, Repr

inductive Traffic where
  | flit (f : BridgeFlit)
  | credit (c : Credit)
  deriving DecidableEq, Repr

namespace Traffic

def vc : Traffic → Nat
  | flit f => f.vc
  | credit c => c.vc

def flit? : Traffic → Option BridgeFlit
  | flit f => some f
  | credit _ => none

def setTime (time : Nat) : Traffic → Traffic
  | flit f => flit { f with time := time }
  | credit c => credit { c with time := time }

def time : Traffic → Nat
  | flit f => f.time
  | credit c => c.time

end Traffic

/-- `(int)divCeil((float)a, (float)b)`. -/
def floatDivCeil (a b : Nat) : Nat := NetworkInterface.numFlits a b

/-- `floor((float)a / (float)b)`. -/
def floatFloor (a : Int) (b : Nat) : Int := ⌊Binary32.div (Binary32.round a) (Binary32.round b)⌋

/-- `ceil((float)a / (float)b)`. -/
def floatCeil (a : Int) (b : Nat) : Int := ⌈Binary32.div (Binary32.round a) (Binary32.round b)⌉

namespace BridgeFlit

def rebuild (f : BridgeFlit) (newId newSize bWidth : Nat) : BridgeFlit :=
  { Flit.create f.packetId newId f.vc f.vnet f.route newSize f.msgPtr f.time with
    width := bWidth, msgSize := f.msgSize, enqueueTime := f.enqueueTime, srcDelay := f.srcDelay }

def serialize (f : BridgeFlit) (serId bWidth : Nat) : Option BridgeFlit :=
  if bWidth < f.width then
    let ratio := (f.width + bWidth - 1) / bWidth
    let newId := f.id * ratio + serId
    let newSize := floatDivCeil f.msgSize bWidth
    if newId < newSize then some (f.rebuild newId newSize bWidth) else none
  else none

def deserialize (f : BridgeFlit) (bWidth : Nat) : Option BridgeFlit :=
  let ratio := floatDivCeil bWidth f.width
  let newId := floatDivCeil (f.id + 1) ratio - 1
  let newSize := floatDivCeil f.msgSize bWidth
  if newId < newSize then some (f.rebuild newId newSize bWidth) else none

end BridgeFlit

def Credit.serialize (c : Credit) (serId parts : Nat) : Credit :=
  { c with isFreeSignal := decide (serId + 1 = parts) && c.isFreeSignal }

def Credit.deserialize (c : Credit) : Credit := { c with isFreeSignal := c.isFreeSignal }

/-- The elements of `lenBuffer`, `sizeSent`, `flitsSent` and `extraCredit` at one virtual channel. -/
structure BridgeVc where
  lenBuffer : Nat := 0
  sizeSent : Int := 0
  flitsSent : Int := 0
  extraCredit : List Int := []
  deriving DecidableEq, Repr

namespace BridgeVc

variable (curWidth targetWidth : Nat) (v : BridgeVc)

/-- What the conversion of a flit or credit yields: the new state, what is scheduled and the number
handed to the other bridge. -/
abbrev Converted := Option (BridgeVc × List Traffic × Option Int)

def assemble (f : BridgeFlit) (flitPossible numFlits : Int) : Converted :=
  if flitPossible ≠ 0 then
    (f.deserialize targetWidth).map fun fl => ({ v with lenBuffer := 0 }, [.flit fl], some numFlits)
  else some (v, [], none)

def deserializeFlit (f : BridgeFlit) : Converted :=
  let numFlits : Int := (f.id + 1) - v.flitsSent
  if f.isTail then
    let flitPossible := floatCeil (f.msgSize - v.sizeSent) targetWidth
    if flitPossible < 2 then
      assemble targetWidth { v with flitsSent := 0, sizeSent := 0 } f flitPossible numFlits
    else none
  else
    let flitPossible := floatFloor ((f.id + 1) * curWidth - v.sizeSent) targetWidth
    if flitPossible < 2 then
      if flitPossible ≠ 0 then
        assemble targetWidth { v with sizeSent := v.sizeSent + targetWidth, flitsSent := f.id + 1 } f
          flitPossible numFlits
      else assemble targetWidth v f flitPossible numFlits
    else none

def deserializeCredit (c : Credit) : Converted :=
  match v.extraCredit with
  | [] => none
  | front :: rest =>
    if front = 0 then none
    else if (v.lenBuffer + 1 : Int) = front then
      some ({ v with lenBuffer := 0, extraCredit := rest }, [.credit c.deserialize], none)
    else some ({ v with lenBuffer := v.lenBuffer + 1 }, [], none)

def emit (f : BridgeFlit) (flitPossible : Int) : Converted :=
  if 0 < flitPossible then
    ((List.range flitPossible.toNat).mapM fun i => f.serialize i targetWidth).map fun fls =>
      (v, fls.map .flit, some flitPossible)
  else none

def serializeFlit (f : BridgeFlit) : Converted :=
  if f.isTail then
    let flitPossible := floatCeil (f.msgSize - v.sizeSent) targetWidth
    emit targetWidth { v with sizeSent := 0, flitsSent := 0 } f flitPossible
  else
    let flitPossible := floatFloor ((f.id + 1) * curWidth - v.sizeSent) targetWidth
    if flitPossible ≠ 0 then
      emit targetWidth
        { v with sizeSent := v.sizeSent + flitPossible * targetWidth, flitsSent := v.flitsSent + flitPossible }
        f flitPossible
    else emit targetWidth v f flitPossible

def serializeCredit (c : Credit) : Converted :=
  match v.extraCredit with
  | [] => none
  | front :: rest =>
    if 0 < front then
      some ({ v with extraCredit := rest },
        (List.range front.toNat).map fun i => .credit (c.serialize i front.toNat), none)
    else none

/-- The body of `flitisizeAndSend` between the choice of the widths and `scheduleFlit`. -/
def convert (t : Traffic) : Converted :=
  if targetWidth = curWidth then none
  else if curWidth < targetWidth then
    match t with
    | .flit f => deserializeFlit curWidth targetWidth v f
    | .credit c => deserializeCredit v c
  else
    match t with
    | .flit f => serializeFlit curWidth targetWidth v f
    | .credit c => serializeCredit v c

end BridgeVc

inductive BridgeType where
  | linkObject
  | objectLink
  deriving DecidableEq, Repr

structure NetworkBridge where
  mType : BridgeType
  bitWidth : Nat
  linkWidth : Nat
  enCdc : Bool
  enSerDes : Bool
  cdcLatency : Nat
  serDesLatency : Nat
  vcs : Nat → BridgeVc := fun _ => {}
  lastScheduledAt : Nat := 0
  linkBuffer : List Traffic := []

/-- The clock of the consumer of a link: the tick of the edge some cycles ahead, and the cycle. -/
structure ConsumerClock where
  clockEdge : Nat → Nat
  period : Nat

namespace NetworkBridge

def targetWidth (b : NetworkBridge) : Nat :=
  match b.mType with
  | .linkObject => b.bitWidth
  | .objectLink => b.linkWidth

def curWidth (b : NetworkBridge) : Nat :=
  match b.mType with
  | .linkObject => b.linkWidth
  | .objectLink => b.bitWidth

/-- `scheduleFlit`. Every call has a later time than the one before, so the buffer stays in the order
of the calls. -/
def scheduleFlit (clock : ConsumerClock) (latency : Nat) (b : NetworkBridge) (t : Traffic) : NetworkBridge :=
  let totLatency := if b.enCdc then latency + b.cdcLatency else latency
  let sendTime := max (b.lastScheduledAt + clock.period) (clock.clockEdge totLatency)
  { b with lastScheduledAt := sendTime, linkBuffer := b.linkBuffer ++ [t.setTime sendTime] }

def neutralize (b : NetworkBridge) (vc : Nat) (eCredit : Option Int) : NetworkBridge :=
  let told : BridgeVc := { b.vcs vc with extraCredit := (b.vcs vc).extraCredit ++ eCredit.toList }
  { b with vcs := Function.update b.vcs vc told }

def flitisizeAndSend (clock : ConsumerClock) (b co : NetworkBridge) (t : Traffic) :
    Option (NetworkBridge × NetworkBridge) :=
  if b.enSerDes then
    ((b.vcs t.vc).convert b.curWidth b.targetWidth t).map fun r =>
      let counted := { b with vcs := Function.update b.vcs t.vc r.1 }
      (r.2.1.foldl (scheduleFlit clock b.serDesLatency) counted, co.neutralize t.vc r.2.2)
  else some (b.scheduleFlit clock 0 t, co)

end NetworkBridge

end Resister.Garnet
