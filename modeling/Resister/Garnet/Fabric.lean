import Resister.Garnet.HistoryRecord

/-!
# Links, ports and flow-control state

How a network is wired, and the state that flits and credits pass through.
Assertions are recorded as faults, and a run continues as without assertions.
-/

namespace Resister.Garnet

open List

inductive LinkEnd where
  | router (r : Nat)
  | ni (n : Nat)
  deriving DecidableEq, Repr

/-- A `NetworkLink` and the `CreditLink` back. `vnets` is `mVnets`, empty for all of them;
`inportDirn` is the direction of the input port at a router. -/
structure Link where
  source : LinkEnd
  sink : LinkEnd
  vnets : List Nat := []
  bitWidth : Nat := 128
  inportDirn : PortDirection := .Local
  period : Nat := 500
  latency : Nat := 1
  creditPeriod : Nat := 500
  creditLatency : Nat := 1
  deriving DecidableEq, Repr

/-- The compile-time switch `InputStruct`: the original input unit, the Resister input unit and its
version that stops at the first detection, the Valiant and the TDMA input unit. -/
inductive InputStruct where
  | ori | resister | latency | valiant | tdma
  deriving DecidableEq, Repr

/-- A network. Ports are numbered in the order in which the links are made, so the links are a
list. `detourThreshold` is `injRange * CALI`, which the draw for a risky packet is compared with;
`bufferSize` the size of the buffer into which an interface enqueues the messages of a virtual
network, `0` for an unbounded one. -/
structure Config where
  links : List Link
  numVnets : Nat
  vcsPerVnet : Nat
  buffersPerVc : Nat → Nat
  isVNetOrdered : Nat → Bool
  inputStruct : InputStruct
  detourThreshold : Nat
  machineCounts : List Nat
  routingUnit : Nat → RoutingUnit
  pipeStages : Nat → Nat
  routerPeriod : Nat → Nat
  niPeriod : Nat → Nat
  bufferSize : Nat × Nat → Nat
  deadlockThreshold : Nat
  vcsPerVnet_pos : 0 < vcsPerVnet
  buffersPerVc_pos : ∀ vnet, 0 < buffersPerVc vnet
  pipeStages_pos : ∀ r, 0 < pipeStages r

namespace Config

variable (cfg : Config)

def numVcs : Nat := cfg.numVnets * cfg.vcsPerVnet

def source (l : Nat) : Option LinkEnd := cfg.links[l]?.map Link.source

def sink (l : Nat) : Option LinkEnd := cfg.links[l]?.map Link.sink

def inLinks (e : LinkEnd) : List Nat :=
  (List.range cfg.links.length).filter fun l => cfg.sink l == some e

def outLinks (e : LinkEnd) : List Nat :=
  (List.range cfg.links.length).filter fun l => cfg.source l == some e

def isVnetSupported (l vnet : Nat) : Bool :=
  cfg.links[l]?.any fun link => link.vnets.isEmpty || link.vnets.contains vnet

def getOutportForVnet (n vnet : Nat) : Option Nat :=
  (cfg.outLinks (.ni n)).find? fun l => cfg.isVnetSupported l vnet

def target (l : Nat) (outport : Option Nat) : Option Nat :=
  match cfg.sink l with
  | some (.router r) => outport.bind fun p => (cfg.outLinks (.router r))[p]?
  | _ => none

def intoRouter (l : Nat) : Bool :=
  match cfg.sink l with
  | some (.router _) => true
  | _ => false

/-- `get_vnet`. -/
def vnetOf (vc : Nat) : Nat := vc / cfg.vcsPerVnet

def vcsOf (vnet : Nat) : List Nat :=
  (List.range cfg.vcsPerVnet).map fun offset => vnet * cfg.vcsPerVnet + offset

def pipeDelay (r : Nat) : Nat := (cfg.pipeStages r - 1) * cfg.routerPeriod r

variable {cfg}

theorem mem_inLinks {e : LinkEnd} {l : Nat} : l ∈ cfg.inLinks e ↔ cfg.sink l = some e := by
  simp only [inLinks, mem_filter, mem_range, beq_iff_eq, and_iff_right_iff_imp]
  intro found
  obtain ⟨link, present, -⟩ := Option.map_eq_some_iff.mp found
  exact (List.getElem?_eq_some_iff.mp present).1

theorem mem_outLinks {e : LinkEnd} {l : Nat} : l ∈ cfg.outLinks e ↔ cfg.source l = some e := by
  simp only [outLinks, mem_filter, mem_range, beq_iff_eq, and_iff_right_iff_imp]
  intro found
  obtain ⟨link, present, -⟩ := Option.map_eq_some_iff.mp found
  exact (List.getElem?_eq_some_iff.mp present).1

theorem nodup_inLinks (e : LinkEnd) : (cfg.inLinks e).Nodup := nodup_range.filter _

theorem nodup_outLinks (e : LinkEnd) : (cfg.outLinks e).Nodup := nodup_range.filter _

theorem getOutportForVnet_source {n vnet l : Nat} (found : cfg.getOutportForVnet n vnet = some l) :
    cfg.source l = some (.ni n) :=
  mem_outLinks.mp (mem_of_find?_eq_some found)

theorem intoRouter_iff {l : Nat} : cfg.intoRouter l = true ↔ ∃ r, cfg.sink l = some (.router r) := by
  unfold intoRouter
  split <;> simp_all

theorem target_of_router {l r : Nat} (sink : cfg.sink l = some (.router r)) (outport : Option Nat) :
    cfg.target l outport = outport.bind fun p => (cfg.outLinks (.router r))[p]? := by
  simp [target, sink]

theorem mem_vcsOf {vnet vc : Nat} : vc ∈ cfg.vcsOf vnet ↔ cfg.vnetOf vc = vnet := by
  have pos := cfg.vcsPerVnet_pos
  simp only [vcsOf, mem_map, mem_range, vnetOf]
  constructor
  · rintro ⟨offset, below, rfl⟩
    rw [Nat.mul_comm, Nat.mul_add_div pos, Nat.div_eq_of_lt below, Nat.add_zero]
  · rintro rfl
    exact ⟨vc % cfg.vcsPerVnet, Nat.mod_lt _ pos, Nat.div_add_mod' ..⟩

end Config

/-- A protocol message: the size that `MessageSizeType_to_int` gives for it, its destinations, and
the tick from which `isReady` holds for it. -/
structure Message where
  msgSize : Nat
  destination : NetDest
  arrival : Nat
  deriving DecidableEq, Repr

def Message.valid (cfg : Config) (msg : Message) : Bool :=
  msg.destination.elems.all fun m => decide (m ∈ allMachines cfg.machineCounts)

/-- The objects that the event queue wakes. An output unit is woken by its router and, when more
than one credit is waiting, by itself. -/
inductive Component where
  | router (r : Nat)
  | outputUnit (l : Nat)
  | link (l : Nat)
  | creditLink (l : Nat)
  | ni (n : Nat)
  deriving DecidableEq, Repr

/-- Why the simulation stops: a failed assertion of the flow control, or anything else. -/
inductive Fault where
  | creditOverflow | creditUnderflow | headNotIdle | bodyNotActive | vcNotActive | outVcNotActive
  | noFreeVc | vcNotEmpty
  | routing (cause : Abort)
  | deadlock | noOutport | vnetNotCarried | detected | outOfBounds
  deriving DecidableEq, Repr

def Fault.isFlowControl : Fault → Bool
  | creditOverflow | creditUnderflow | headNotIdle | bodyNotActive | vcNotActive | outVcNotActive
  | noFreeVc | vcNotEmpty => true
  | _ => false

/-- What happened in a run, as far as the properties of whole runs are concerned: a packet made by
`flitisizeMessage`, a switch grant from an input to an output virtual channel, a flit taken out
of the network, and a message enqueued into a protocol buffer. -/
inductive Entry where
  | sent (n : Nat) (packet : Packet)
  | granted (input output : Nat × Nat) (key : Packet × Nat)
  | ejected (n : Nat) (f : Flit)
  | enqueued (n : Nat) (packet : Packet)
  deriving DecidableEq, Repr

/-- The state of flow control. Pairs are a link and a virtual channel, for `inNode` and
`vcAllocator` a network interface and a virtual network. `due` is the first tick at which an object may be woken again,
`clones` the number of message objects made so far, and `log` has the latest entry first. -/
structure Flow where
  virtualChannels : Nat × Nat → VirtualChannel := fun _ => {}
  creditQueue : Nat → List Credit := fun _ => []
  outQueue : Nat → List Flit := fun _ => []
  outVcState : Nat × Nat → OutVcState
  linkBuffer : Nat → List Flit := fun _ => []
  creditLinkBuffer : Nat → List Credit := fun _ => []
  switchBuffer : Nat → List Flit := fun _ => []
  niOutVcs : Nat × Nat → List Flit := fun _ => []
  niEnqueueTime : Nat × Nat → Nat := fun _ => infinite
  stallQueue : Nat → List Flit := fun _ => []
  inNode : Nat × Nat → List Message := fun _ => []
  vcAllocator : Nat × Nat → Nat := fun _ => 0
  due : Component → Nat := fun _ => 0
  clones : Nat := 0
  log : List Entry := []
  faults : List Fault := []

namespace Flow

open Function (update)

def init (cfg : Config) : Flow :=
  { outVcState := fun c =>
      let buffers := cfg.buffersPerVc (cfg.vnetOf c.2)
      { creditCount := buffers, maxCreditCount := buffers } }

variable (s : Flow)

def check (ok : Bool) (fault : Fault) : List Fault := if ok then s.faults else fault :: s.faults

def fail (fault : Fault) : Flow := { s with faults := fault :: s.faults }

def wake (c : Component) (t : Nat) : Flow := { s with due := update s.due c (t + 1) }

def traverse (l : Nat) (f : Flit) (rest : List Flit) (time : Nat) : Flow :=
  { s with
    outQueue := update s.outQueue l rest
    linkBuffer := update s.linkBuffer l (s.linkBuffer l ++ [{ f with time := time }]) }

def traverseCredit (l : Nat) (c : Credit) (rest : List Credit) (time : Nat) : Flow :=
  { s with
    creditQueue := update s.creditQueue l rest
    creditLinkBuffer := update s.creditLinkBuffer l (s.creditLinkBuffer l ++ [{ c with time := time }]) }

/-- `InputUnit::wakeup` buffers a flit that came over link `l`. For a head flit `route` and `port`
are what route computation returned. -/
def receive (l t ready : Nat) (f : Flit) (rest : List Flit) (route : RouteInfo) (port : Nat) : Flow :=
  let vc := s.virtualChannels (l, f.vc)
  let opened := if f.isHead then { vc.setActive t with outputPort := some port } else vc
  let buffered : Flit := { f with route := route, stage := (.sa, ready) }
  { s with
    linkBuffer := update s.linkBuffer l rest
    virtualChannels := update s.virtualChannels (l, f.vc)
      { opened with inputBuffer := vc.inputBuffer ++ [buffered] }
    faults :=
      if f.isHead then s.check (vc.state == .idle) .headNotIdle
      else s.check (vc.state == .active) .bodyNotActive }

def creditArrives (l t : Nat) (c : Credit) (rest : List Credit) : Flow :=
  let out := s.outVcState (l, c.vc)
  let incremented := out.incrementCredit
  { s with
    creditLinkBuffer := update s.creditLinkBuffer l rest
    outVcState := update s.outVcState (l, c.vc)
      (if c.isFreeSignal then incremented.setState .idle t else incremented)
    faults := s.check out.incrementAssertion .creditOverflow }

/-- The assertions of `need_stage` and `has_credit`, for every input virtual channel of the router:
`check_for_wakeup` asks about all of them. -/
def stageAssertions (cfg : Config) (r t : Nat) : Bool :=
  (cfg.inLinks (.router r)).all fun l => (List.range cfg.numVcs).all fun invc =>
    (s.virtualChannels (l, invc)).stageAssertion t

def creditAssertions (cfg : Config) (r t : Nat) : Bool :=
  (cfg.inLinks (.router r)).all fun l => (List.range cfg.numVcs).all fun invc =>
    let vc := s.virtualChannels (l, invc)
    !vc.needStage .sa t || vc.outputVc.all fun outvc =>
      (cfg.target l vc.outputPort).all fun out => (s.outVcState (out, outvc)).isInState .active t

def assertAllocation (cfg : Config) (r t : Nat) : Flow :=
  { s with
    faults :=
      (if s.stageAssertions cfg r t then [] else [.vcNotActive]) ++
        (if s.creditAssertions cfg r t then [] else [.outVcNotActive]) ++ s.faults }

/-- `arbitrate_outports` grants output `out`, port `port`, to the top flit of input `input`. -/
def grant (t port : Nat) (input out : Nat × Nat) (f : Flit) (rest : List Flit) : Flow :=
  let vc := { s.virtualChannels input with inputBuffer := rest, outputVc := some out.2 }
  let outVc := s.outVcState out
  -- `select_free_vc` when the packet has no output virtual channel yet
  let selected :=
    if (s.virtualChannels input).outputVc = none then outVc.setState .active t else outVc
  let switched : Flit := { f with outport := some port, vc := out.2, stage := (.st, t) }
  { s with
    virtualChannels := update s.virtualChannels input (if f.isTail then vc.setIdle t else vc)
    outVcState := update s.outVcState out selected.decrementCredit
    switchBuffer := update s.switchBuffer input.1 (s.switchBuffer input.1 ++ [switched])
    creditQueue := update s.creditQueue input.1 (s.creditQueue input.1 ++ [⟨input.2, f.isTail, t⟩])
    log := .granted input out f.key :: s.log
    faults :=
      (if f.isTail && isReady rest t then [.vcNotEmpty] else []) ++
        s.check outVc.decrementAssertion .creditUnderflow }

/-- `CrossbarSwitch::wakeup` sends the top flit of a switch buffer to an output unit. -/
def cross (input out : Nat) (f : Flit) (rest : List Flit) (time : Nat) : Flow :=
  { s with
    switchBuffer := update s.switchBuffer input rest
    outQueue := update s.outQueue out (s.outQueue out ++ [{ f with stage := (.lt, time), time := time }]) }

def setMessages (p : Nat × Nat) (queue : List Message) : Flow :=
  { s with inNode := update s.inNode p queue }

def setAllocator (p : Nat × Nat) (delta : Nat) : Flow :=
  { s with vcAllocator := update s.vcAllocator p delta }

/-- `flitisizeMessage` puts the flits of a new packet into an output virtual channel. -/
def inject (n t : Nat) (c : Nat × Nat) (packet : Packet) (flits : List Flit) : Flow :=
  { s with
    niOutVcs := update s.niOutVcs c (s.niOutVcs c ++ flits)
    niEnqueueTime := update s.niEnqueueTime c t
    outVcState := update s.outVcState c ((s.outVcState c).setState .active t)
    clones := s.clones + 1
    log := .sent n packet :: s.log }

def send (c : Nat × Nat) (f : Flit) (rest : List Flit) (time : Nat) : Flow :=
  let out := s.outVcState c
  { s with
    niOutVcs := update s.niOutVcs c rest
    niEnqueueTime := if f.isTail then update s.niEnqueueTime c infinite else s.niEnqueueTime
    outVcState := update s.outVcState c out.decrementCredit
    outQueue := update s.outQueue c.1 (s.outQueue c.1 ++ [{ f with time := time }])
    faults := s.check out.decrementAssertion .creditUnderflow }

/-- A flit leaves the network at an interface: the credit goes back, and with a tail flit the
message is enqueued. -/
def eject (n l t : Nat) (f : Flit) : Flow :=
  { s with
    creditQueue := update s.creditQueue l (s.creditQueue l ++ [⟨f.vc, f.isTail, t⟩])
    log := (if f.isTail then [.enqueued n f.packet] else []) ++ .ejected n f :: s.log }

def consume (l : Nat) (rest : List Flit) : Flow := { s with linkBuffer := update s.linkBuffer l rest }

def stall (l : Nat) (f : Flit) (rest : List Flit) : Flow :=
  { s with
    linkBuffer := update s.linkBuffer l rest
    stallQueue := update s.stallQueue l (s.stallQueue l ++ [f]) }

def unstall (l : Nat) (rest : List Flit) : Flow := { s with stallQueue := update s.stallQueue l rest }

end Flow

end Resister.Garnet
