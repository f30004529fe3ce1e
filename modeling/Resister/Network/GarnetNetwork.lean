import Resister.Garnet.Simulation
import Resister.Network.MeshXY

/-!
# Building a network

`GarnetNetwork::init` with the links that `createLinks` makes for a topology: external links in both
directions between a network interface and its router, and the links between routers.
-/

namespace Resister.Network

open Garnet

structure Params where
  algorithm : RoutingAlgorithm
  inputStruct : InputStruct
  detourThreshold : Nat := 10000
  vcsPerVnet : Nat := 4
  buffersPerVc : Nat → Nat := fun _ => 4
  isVNetOrdered : Nat → Bool
  pipeStages : Nat → Nat := fun _ => 1
  period : Nat := 500
  bitWidth : Nat := 128
  bufferSize : Nat × Nat → Nat := fun _ => 0
  deadlockThreshold : Nat := 50000
  vcsPerVnet_pos : 0 < vcsPerVnet := by decide
  buffersPerVc_pos : ∀ vnet, 0 < buffersPerVc vnet := by decide
  pipeStages_pos : ∀ r, 0 < pipeStages r := by decide

namespace Topology

variable (t : Topology)

def makeLink (p : Params) (src dst : Nat) (entry : LinkEntry) : Link :=
  { source := if src < t.nodes then .ni src else .router (src - 2 * t.nodes)
    sink := if dst < 2 * t.nodes then .ni (dst - t.nodes) else .router (dst - 2 * t.nodes)
    vnets := entry.link.vnets
    bitWidth := p.bitWidth
    inportDirn := if src < t.nodes then .Local else entry.dstInportDirn
    period := p.period
    latency := entry.link.latency
    creditPeriod := p.period
    creditLatency := entry.link.latency }

def madeLinks (p : Params) : List Link :=
  (List.range t.numSwitches).flatMap fun src =>
    (List.range t.numSwitches).flatMap fun dst =>
      if t.realLink src dst then (t.linkMap src dst).map (t.makeLink p src dst) else []

def network (p : Params) (numRows numCols : Nat) : Config :=
  { links := t.madeLinks p
    numVnets := t.numVnets
    vcsPerVnet := p.vcsPerVnet
    buffersPerVc := p.buffersPerVc
    isVNetOrdered := p.isVNetOrdered
    inputStruct := p.inputStruct
    detourThreshold := p.detourThreshold
    machineCounts := t.machineCounts
    routingUnit := t.routingUnit p.algorithm numRows numCols p.isVNetOrdered
    pipeStages := p.pipeStages
    routerPeriod := fun _ => p.period
    niPeriod := fun _ => p.period
    bufferSize := p.bufferSize
    deadlockThreshold := p.deadlockThreshold
    vcsPerVnet_pos := p.vcsPerVnet_pos
    buffersPerVc_pos := p.buffersPerVc_pos
    pipeStages_pos := p.pipeStages_pos }

end Topology

end Resister.Network

namespace Resister.Garnet

def resisterPair : Config :=
  (Network.MeshXY.grid 1 2 (by decide) (by decide) (by decide)).topology.network
    { algorithm := .defense1, inputStruct := .resister, vcsPerVnet := 10, isVNetOrdered := fun _ => false
      buffersPerVc_pos := fun _ => by decide, pipeStages_pos := fun _ => by decide } 1 2

def narrowPair : Config :=
  (Network.MeshXY.grid 1 2 (by decide) (by decide) (by decide)).topology.network
    { algorithm := .xy, inputStruct := .ori, vcsPerVnet := 1, isVNetOrdered := fun _ => false
      buffersPerVc_pos := fun _ => by decide, pipeStages_pos := fun _ => by decide } 1 2

/-- Two routers in a row and two virtual networks. The buffers for virtual network 0 hold one message. -/
def twoVnets : Config :=
  ({ Network.MeshXY.grid 1 2 (by decide) (by decide) (by decide) with
      numVnets := 2, vnets_pos := by decide } : Network.MeshXY).topology.network
    { algorithm := .xy, inputStruct := .ori, isVNetOrdered := fun _ => false
      bufferSize := fun p => if p.2 = 0 then 1 else 0
      buffersPerVc_pos := fun _ => by decide, pipeStages_pos := fun _ => by decide } 1 2

def patternSquare : Config :=
  (Network.MeshXY.grid 2 2 (by decide) (by decide) (by decide)).topology.network
    { algorithm := .defense0, inputStruct := .ori, vcsPerVnet := 10, isVNetOrdered := fun _ => false
      buffersPerVc_pos := fun _ => by decide, pipeStages_pos := fun _ => by decide } 2 2

def controllers (interfaces : List Nat) : NetDest := interfaces.foldl (fun dests k => dests.add ⟨0, k⟩) .empty

def sixteen (stages : Nat) (pos : 0 < stages) : Config :=
  let cores := List.range coreNum
  { links :=
      (cores.map fun k => { source := .ni k, sink := .router k }) ++
        cores.flatMap fun k =>
          [{ source := .router k, sink := .ni k }] ++
            (if 0 < k then [{ source := .router k, sink := .router (k - 1), inportDirn := .East }] else []) ++
            (if k + 1 < coreNum then [{ source := .router k, sink := .router (k + 1), inportDirn := .West }] else [])
    numVnets := 1
    vcsPerVnet := 1
    buffersPerVc := fun _ => 4
    isVNetOrdered := fun _ => false
    inputStruct := .tdma
    detourThreshold := 0
    machineCounts := [coreNum]
    routingUnit := fun k =>
      { id := k, numRows := 1, numCols := coreNum, algorithm := .xy
        outportDirns := [.Local] ++ (if 0 < k then [.West] else []) ++ (if k + 1 < coreNum then [.East] else [])
        routingTable := fun _ =>
          [controllers [k]] ++ (if 0 < k then [controllers (cores.take k)] else []) ++
            (if k + 1 < coreNum then [controllers (cores.drop (k + 1))] else [])
        weightTable := [1, 1, 1]
        isVNetOrdered := fun _ => false }
    pipeStages := fun _ => stages
    routerPeriod := fun _ => 500
    niPeriod := fun _ => 500
    bufferSize := fun _ => 0
    deadlockThreshold := 50000
    vcsPerVnet_pos := by decide
    buffersPerVc_pos := fun _ => by decide
    pipeStages_pos := fun _ => pos }

end Resister.Garnet
