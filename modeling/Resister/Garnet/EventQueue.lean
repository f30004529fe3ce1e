import Resister.Network.GarnetNetwork
import Resister.Library.Wakeups

/-!
# The event queue

`Consumer` and the order in which the event queue wakes objects: always at the earliest tick for
which anything has been requested, and in any order within a tick.
-/

namespace Resister.Garnet

open Function (update)
open Library

def LinkEnd.component : LinkEnd → Component
  | router r => .router r
  | ni n => .ni n

namespace Config

variable (cfg : Config)

def period : Component → Nat
  | .router r => cfg.routerPeriod r
  | .outputUnit l => match cfg.source l with
    | some (.router r) => cfg.routerPeriod r
    | _ => 1
  | .link l => (cfg.links[l]?.map Link.period).getD 1
  | .creditLink l => (cfg.links[l]?.map Link.creditPeriod).getD 1
  | .ni n => cfg.niPeriod n

def components : List Component :=
  cfg.links.zipIdx.flatMap fun p =>
    [.link p.2, .creditLink p.2, .outputUnit p.2, p.1.source.component, p.1.sink.component]

variable {cfg}

theorem mem_components {l : Nat} {link : Link} (found : cfg.links[l]? = some link) {c : Component}
    (listed : c ∈ [.link l, .creditLink l, .outputUnit l, link.source.component, link.sink.component]) :
    c ∈ cfg.components :=
  List.mem_flatMap.mpr ⟨(link, l), List.mem_zipIdx_iff_getElem?.mpr found, listed⟩

theorem sink_component {l r : Nat} (sink : cfg.sink l = some (.router r)) : .router r ∈ cfg.components := by
  obtain ⟨link, found, same⟩ := Option.map_eq_some_iff.mp sink
  exact mem_components found (by simp [same, LinkEnd.component])

theorem source_component {l r : Nat} (source : cfg.source l = some (.router r)) :
    .router r ∈ cfg.components ∧ .outputUnit l ∈ cfg.components := by
  obtain ⟨link, found, same⟩ := Option.map_eq_some_iff.mp source
  exact ⟨mem_components found (by simp [same, LinkEnd.component]), mem_components found (by simp)⟩

theorem period_outputUnit {l r : Nat} (source : cfg.source l = some (.router r)) :
    cfg.period (.outputUnit l) = cfg.routerPeriod r := by
  simp [period, source]

theorem period_pos (routers : ∀ r, 0 < cfg.routerPeriod r) (interfaces : ∀ n, 0 < cfg.niPeriod n)
    (links : ∀ link ∈ cfg.links, 0 < link.period ∧ 0 < link.creditPeriod) (c : Component) : 0 < cfg.period c := by
  have found : ∀ (l : Nat) (clock : Link → Nat), (∀ link ∈ cfg.links, 0 < clock link) →
      0 < (cfg.links[l]?.map clock).getD 1 := by
    intro l clock positive
    cases same : cfg.links[l]? with
    | none => exact Nat.one_pos
    | some link => exact positive link (List.mem_of_getElem? same)
  cases c with
  | router r => exact routers r
  | outputUnit l =>
    dsimp only [period]
    split
    · exact routers _
    · exact Nat.one_pos
  | link l => exact found l Link.period fun link listed => (links link listed).1
  | creditLink l => exact found l Link.creditPeriod fun link listed => (links link listed).2
  | ni n => exact interfaces n

end Config

namespace Net

variable (cfg : Config) (s : Net)

def wakeupTicks (c : Component) : List Nat := (s.pending c).map (clockEdge (cfg.period c))

def earliest (t : Nat) : Bool := cfg.components.all fun c => (s.wakeupTicks cfg c).all fun tick => decide (t ≤ tick)

def process (c : Component) (t : Nat) : Net :=
  { s with pending := update s.pending c ((s.pending c).filter fun time => clockEdge (cfg.period c) time != t) }

end Net

def Component.wakeup (cfg : Config) (t : Nat) (draws : Nat → Draws) (s : Net) : Component → Net
  | router r => routerWakeup cfg r t draws s
  | outputUnit l => OutputUnit.wakeup cfg t s l
  | link l => linkWakeup cfg l t s
  | creditLink l => creditLinkWakeup cfg l t s
  | ni n => NetworkInterface.wakeup cfg n t s

/-- What happens at a tick. With new messages, the controllers request wakeups of the interface. -/
inductive QueueEvent where
  | wakeup (c : Component) (draws : Nat → Draws)
  | protocol (n vnet : Nat) (queue : List Message) (requests : List Nat)
  | drain (n vnet : Nat) (op : BufferOp)

structure Simulation where
  net : Net
  now : Nat

namespace QueueEvent

def enabled (cfg : Config) (s : Net) (t : Nat) : QueueEvent → Bool
  | wakeup c _ => (s.wakeupTicks cfg c).contains t
  | protocol _ _ queue requests => queue.all (Message.valid cfg) && requests.all fun time => decide (t ≤ time)
  | drain n vnet op => op.enabled (s.outNode (n, vnet))

def apply (cfg : Config) (s : Net) (t : Nat) : QueueEvent → Net
  | wakeup c draws => c.wakeup cfg t draws (s.process cfg c t)
  | protocol n vnet queue requests =>
    requests.foldl (fun s time => s.schedule (.ni n) time) { s with flow := s.flow.setMessages (n, vnet) queue }
  | drain n vnet op =>
    ({ s with outNode := update s.outNode (n, vnet) (op.apply (s.outNode (n, vnet)) t) } : Net).scheduleIf
      (op.pops && s.dequeueCallback (n, vnet)) (.ni n) (t + cfg.niPeriod n)

end QueueEvent

namespace Simulation

variable (cfg : Config)

/-- The next event at tick `t`, unless the simulation has stopped or something else comes first. -/
def step (sim : Simulation) (event : Nat × QueueEvent) : Option Simulation :=
  if sim.net.flow.faults = [] ∧ sim.now ≤ event.1 ∧ sim.net.earliest cfg event.1 = true ∧
      event.2.enabled cfg sim.net event.1 = true then
    some ⟨event.2.apply cfg sim.net event.1, event.1⟩
  else none

def run (events : List (Nat × QueueEvent)) : Option Simulation := events.foldlM (step cfg) ⟨Net.init cfg, 0⟩

end Simulation

end Resister.Garnet
