import Resister.Garnet.NetworkInterface

/-!
# Runs

A run is a sequence of wakeups in any order, mixed with what the protocol does to the message
buffers. An object is woken at increasing ticks, at most once in each.
-/

namespace Resister.Garnet

open Function (update)

/-- What a controller does to a buffer into which messages are delivered. -/
inductive BufferOp where
  | dequeue
  | stallMessage
  | reanalyze (count : Nat)
  deriving DecidableEq, Repr

namespace BufferOp

def enabled (b : MessageBuffer) : BufferOp → Bool
  | dequeue | stallMessage => decide (0 < b.heapSize)
  | reanalyze count => decide (count ≤ b.stallMapSize)

def apply (b : MessageBuffer) (t : Nat) : BufferOp → MessageBuffer
  | dequeue => b.dequeue t
  | stallMessage => b.stallMessage t
  | reanalyze count => b.reanalyze count

def pops : BufferOp → Bool
  | dequeue | stallMessage => true
  | reanalyze _ => false

end BufferOp

/-- `protocol` changes the messages waiting to be sent, `drain` a buffer into which messages are
delivered. -/
inductive Event where
  | link (l t : Nat)
  | creditLink (l t : Nat)
  | router (r t : Nat) (draws : Nat → Draws)
  | outputUnit (l t : Nat)
  | ni (n t : Nat)
  | protocol (n vnet : Nat) (queue : List Message)
  | drain (n vnet t : Nat) (op : BufferOp)

namespace Net

def woken (s : Net) (c : Component) (t : Nat) : Net :=
  { s with
    flow := s.flow.wake c t
    pending := update s.pending c ((s.pending c).filter fun time => time != t) }

def wakeAt (s : Net) (c : Component) (t : Nat) (body : Net → Net) : Net :=
  if s.flow.due c ≤ t then body (s.woken c t) else s

def step (cfg : Config) (s : Net) (e : Event) : Net :=
  if s.flow.faults = [] then
    match e with
    | .link l t => s.wakeAt (.link l) t (linkWakeup cfg l t)
    | .creditLink l t => s.wakeAt (.creditLink l) t (creditLinkWakeup cfg l t)
    | .router r t draws => s.wakeAt (.router r) t (routerWakeup cfg r t draws)
    | .outputUnit l t => s.wakeAt (.outputUnit l) t fun s => OutputUnit.wakeup cfg t s l
    | .ni n t => s.wakeAt (.ni n) t (NetworkInterface.wakeup cfg n t)
    | .protocol n vnet queue =>
      if queue.all (Message.valid cfg) then { s with flow := s.flow.setMessages (n, vnet) queue } else s
    | .drain n vnet t op =>
      let buffer := s.outNode (n, vnet)
      if op.enabled buffer then
        ({ s with outNode := update s.outNode (n, vnet) (op.apply buffer t) } : Net).scheduleIf
          (op.pops && s.dequeueCallback (n, vnet)) (.ni n) (t + cfg.niPeriod n)
      else s
  else s

def initRouter (cfg : Config) (s : Net) (r : Nat) : Net :=
  match cfg.inputStruct, cfg.inLinks (.router r) with
  | .tdma, l :: _ => InputUnit.wakeup cfg r 0 (fun _ => {}) s (l, 0)
  | _, _ => s

/-- The state in which the simulation starts, when the routers are initialised in this order. -/
def boot (cfg : Config) (order : List Nat) : Net := order.foldl (initRouter cfg) (init cfg)

def runFrom (cfg : Config) (s : Net) (events : List Event) : Net := events.foldl (step cfg) s

def run (cfg : Config) (events : List Event) : Net := events.foldl (step cfg) (init cfg)

@[simp] theorem run_nil (cfg : Config) : run cfg [] = init cfg := rfl

theorem run_concat (cfg : Config) (events : List Event) (e : Event) :
    run cfg (events ++ [e]) = step cfg (run cfg events) e := by
  simp [run]

theorem forall_prefix {P : List Event → Event → Prop} {events : List Event}
    (each : ∀ k, ∀ below : k < events.length, P (events.take k) (events.get ⟨k, below⟩)) (before : List Event)
    (e : Event) (within : before ++ [e] <+: events) : P before e := by
  obtain ⟨after, rfl⟩ := within
  have here := each before.length (by simp)
  simpa using here

end Net

end Resister.Garnet
