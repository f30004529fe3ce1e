import Resister.Garnet.Fabric

/-!
# The state of a network

Flow control together with what the units keep for themselves: arbiter pointers, protocol buffers as
the network interfaces see them, the state of route computation, the risk detector, the token of the
TDMA input unit, and the wakeups that have been requested.
-/

namespace Resister.Garnet

open Function (update)

structure InputUnitStats where
  detourCounts : Nat := 0
  riskCounts : Nat := 0
  allCounts : Nat := 0
  deriving DecidableEq, Repr

def coreNum : Nat := 16
def thresSlot : Nat := 100
def thresFlit : Nat := 80

/-- The globals of the TDMA input unit. `= {-1}` initialises the first element only. -/
structure Tdma where
  init : Bool := false
  counter : Nat → Int := fun i => if i = 0 then -1 else 0
  roundCnt : Nat := 0
  roundList : Nat → Nat := fun _ => 0

/-- The sizes and times of a `MessageBuffer` into which an interface enqueues. A pop makes room for the
interface only after the cycle in which it happens, an enqueue takes room at once. -/
structure MessageBuffer where
  maxSize : Nat
  heapSize : Nat := 0
  stallMapSize : Nat := 0
  timeLastTimeEnqueue : Nat := 0
  timeLastTimePop : Nat := 0
  sizeAtCycleStart : Nat := 0
  stalledAtCycleStart : Nat := 0
  msgsThisCycle : Nat := 0
  deriving DecidableEq, Repr

namespace MessageBuffer

def currentSize (b : MessageBuffer) (time : Nat) : Nat :=
  if b.timeLastTimePop < time then b.heapSize + b.stallMapSize
  else
    (if b.timeLastTimeEnqueue < time then b.sizeAtCycleStart else b.sizeAtCycleStart + b.msgsThisCycle) +
      b.stalledAtCycleStart

def areNSlotsAvailable (b : MessageBuffer) (n time : Nat) : Bool :=
  b.maxSize == 0 || decide (b.currentSize time + n ≤ b.maxSize)

def enqueue (b : MessageBuffer) (time : Nat) : MessageBuffer :=
  { b with
    msgsThisCycle := if b.timeLastTimeEnqueue < time then 1 else b.msgsThisCycle + 1
    timeLastTimeEnqueue := if b.timeLastTimeEnqueue < time then time else b.timeLastTimeEnqueue
    heapSize := b.heapSize + 1 }

def dequeue (b : MessageBuffer) (time : Nat) : MessageBuffer :=
  { b with
    sizeAtCycleStart := if b.timeLastTimePop < time then b.heapSize else b.sizeAtCycleStart
    stalledAtCycleStart := if b.timeLastTimePop < time then b.stallMapSize else b.stalledAtCycleStart
    timeLastTimePop := if b.timeLastTimePop < time then time else b.timeLastTimePop
    heapSize := b.heapSize - 1 }

def stallMessage (b : MessageBuffer) (time : Nat) : MessageBuffer :=
  { b.dequeue time with stallMapSize := b.stallMapSize + 1 }

def reanalyze (b : MessageBuffer) (count : Nat) : MessageBuffer :=
  { b with stallMapSize := b.stallMapSize - count, heapSize := b.heapSize + count }

def messages (b : MessageBuffer) : Nat := b.heapSize + b.stallMapSize

theorem currentSize_enqueue (b : MessageBuffer) (time : Nat) :
    b.currentSize time ≤ (b.enqueue time).currentSize time := by
  unfold currentSize enqueue
  by_cases popped : b.timeLastTimePop < time
  · simp only [popped, if_true]
    omega
  · by_cases first : b.timeLastTimeEnqueue < time
    · simp only [popped, first, if_true, if_false, Nat.lt_irrefl]
      omega
    · simp only [popped, first, if_false]
      omega

theorem areNSlotsAvailable_of_enqueue {b : MessageBuffer} {n time : Nat}
    (available : (b.enqueue time).areNSlotsAvailable n time = true) : b.areNSlotsAvailable n time = true := by
  have larger := b.currentSize_enqueue time
  have same : (b.enqueue time).maxSize = b.maxSize := rfl
  simp only [areNSlotsAvailable, same, Bool.or_eq_true, beq_iff_eq, decide_eq_true_eq] at available ⊢
  omega

end MessageBuffer

/-- `m_round_robin_inport` and `vcRoundRobin` are indexed by the link of the output port,
`m_round_robin_invc`, `messageEnqueuedThisCycle` by the link of the input port. `pending` has the
ticks for which a wakeup is requested. -/
structure Net where
  flow : Flow
  roundRobinInport : Nat → Nat := fun _ => 0
  roundRobinInvc : Nat → Nat := fun _ => 0
  vcBusyCounter : Nat × Nat → Nat := fun _ => 0
  vcRoundRobin : Nat → Nat := fun _ => 0
  outNode : Nat × Nat → MessageBuffer
  messageEnqueuedThisCycle : Nat → Bool := fun _ => false
  stallCount : Nat × Nat → Nat := fun _ => 0
  dequeueCallback : Nat × Nat → Bool := fun _ => false
  routerr : Int → Nat := fun _ => 0
  counterr : Nat := 0
  patternTable : Nat → List PatternEntry := fun _ => List.replicate 8 {}
  history : Nat → List HistoryEntry := fun _ => emptyHistory
  outBuf : Nat → List (List (Option (Nat × Nat)))
  stats : Nat → InputUnitStats := fun _ => {}
  tdma : Tdma := {}
  roundFlit : Nat → Nat := fun _ => 0
  pending : Component → List Nat := fun _ => []

namespace Net

def init (cfg : Config) : Net :=
  { flow := .init cfg
    outNode := fun p => { maxSize := cfg.bufferSize p }
    outBuf := fun r => emptyOutportRecord (cfg.outLinks (.router r)).length }

def fail (s : Net) (fault : Fault) : Net := { s with flow := s.flow.fail fault }

/-- `scheduleEventAbsolute`. -/
def schedule (s : Net) (c : Component) (time : Nat) : Net :=
  { s with pending := update s.pending c (time :: s.pending c) }

def scheduleIf (s : Net) (condition : Bool) (c : Component) (time : Nat) : Net :=
  if condition then s.schedule c time else s

@[simp] theorem schedule_flow (s : Net) (c : Component) (time : Nat) :
    (s.schedule c time).flow = s.flow := rfl

@[simp] theorem scheduleIf_flow (s : Net) (condition : Bool) (c : Component) (time : Nat) :
    (s.scheduleIf condition c time).flow = s.flow := by
  unfold scheduleIf
  split <;> rfl

end Net

/-- `NetworkLink::wakeup`. -/
def linkWakeup (cfg : Config) (l t : Nat) (s : Net) : Net :=
  match cfg.links[l]? with
  | none => s
  | some link =>
    match s.flow.outQueue l with
    | [] => s
    | f :: rest =>
      if f.time ≤ t then
        let time := t + link.latency * link.period
        let consumer : Component := match link.sink with
          | .router r => .router r
          | .ni n => .ni n
        let moved := { s with flow := s.flow.traverse l f rest time }
        let checked := if cfg.isVnetSupported l f.vnet then moved else moved.fail .vnetNotCarried
        (checked.schedule consumer time).scheduleIf (!rest.isEmpty) (.link l) (t + link.period)
      else s.schedule (.link l) (t + link.period)

def creditLinkWakeup (cfg : Config) (l t : Nat) (s : Net) : Net :=
  match cfg.links[l]? with
  | none => s
  | some link =>
    match s.flow.creditQueue l with
    | [] => s
    | c :: rest =>
      if c.time ≤ t then
        let time := t + link.creditLatency * link.creditPeriod
        let consumer : Component := match link.source with
          | .router r => .router r
          | .ni n => .ni n
        (({ s with flow := s.flow.traverseCredit l c rest time } : Net).schedule consumer time).scheduleIf
          (!rest.isEmpty) (.creditLink l) (t + link.creditPeriod)
      else s.schedule (.creditLink l) (t + link.creditPeriod)

end Resister.Garnet
