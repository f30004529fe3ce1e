import Resister.Garnet.InputUnit

/-!
# Routers

`OutputUnit`, `SwitchAllocator`, `CrossbarSwitch` and `Router::wakeup`.
-/

namespace Resister.Garnet

open Function (update)

/-- The order in which a round robin arbiter asks: from a pointer to the end, then from the start. -/
def rotation {α : Type} (start : Nat) (l : List α) : List α := l.drop start ++ l.take start

def wrap (i n : Nat) : Nat := if n ≤ i then 0 else i

theorem mem_rotation {α : Type} {start : Nat} {l : List α} {x : α} : x ∈ rotation start l ↔ x ∈ l := by
  rw [rotation, List.mem_append, Or.comm, ← List.mem_append, List.take_append_drop]

namespace OutputUnit

def wakeup (cfg : Config) (t : Nat) (s : Net) (l : Nat) : Net :=
  match s.flow.creditLinkBuffer l with
  | [] => s
  | c :: rest =>
    if c.time ≤ t then
      let next := match cfg.source l with
        | some (.router r) => t + cfg.routerPeriod r
        | _ => t
      ({ s with flow := s.flow.creditArrives l t c rest } : Net).scheduleIf
        (rest.head?.any fun c => decide (c.time ≤ t)) (.outputUnit l) next
    else s

def freeVc (cfg : Config) (s : Flow) (l vnet t : Nat) : Option Nat :=
  (cfg.vcsOf vnet).find? fun vc => (s.outVcState (l, vc)).isInState .idle t

end OutputUnit

namespace SwitchAllocator

/-- The ordering check of `send_allowed`: another virtual channel of the virtual network is ready,
wants the same output port and was opened earlier. -/
def overtakes (cfg : Config) (s : Flow) (t l invc outport : Nat) : Bool :=
  (cfg.vcsOf (cfg.vnetOf invc)).any fun other =>
    let vc := s.virtualChannels (l, other)
    vc.needStage .sa t && vc.outputPort == some outport &&
      decide (vc.enqueueTime < (s.virtualChannels (l, invc)).enqueueTime)

def sendAllowed (cfg : Config) (s : Flow) (t l invc outport out : Nat) : Bool :=
  let hasOutvcAndCredit := match (s.virtualChannels (l, invc)).outputVc with
    | none => (OutputUnit.freeVc cfg s out (cfg.vnetOf invc) t).isSome
    | some outvc => (s.outVcState (out, outvc)).hasCredit
  hasOutvcAndCredit && !(cfg.isVNetOrdered (cfg.vnetOf invc) && overtakes cfg s t l invc outport)

def request (cfg : Config) (s : Flow) (r t l invc : Nat) : Option Nat :=
  let vc := s.virtualChannels (l, invc)
  if vc.needStage .sa t then
    vc.outputPort.filter fun outport =>
      (cfg.outLinks (.router r))[outport]?.any fun out => sendAllowed cfg s t l invc outport out
  else none

def arbitrateInport (cfg : Config) (s : Net) (r t l : Nat) : Option (Nat × Nat) :=
  (rotation (s.roundRobinInvc l) (List.range cfg.numVcs)).findSome? fun invc =>
    (request cfg s.flow r t l invc).map fun outport => (outport, invc)

def arbitrateInports (cfg : Config) (s : Net) (r t : Nat) : Nat → Option (Nat × Nat) := fun l =>
  if l ∈ cfg.inLinks (.router r) then arbitrateInport cfg s r t l else none

def outputVcFor (cfg : Config) (s : Flow) (t l invc out : Nat) : Option Nat :=
  match (s.virtualChannels (l, invc)).outputVc with
  | some outvc => some outvc
  | none => OutputUnit.freeVc cfg s out (cfg.vnetOf invc) t

def grant (cfg : Config) (r t l invc outport out : Nat) (s : Net) : Net :=
  match outputVcFor cfg s.flow t l invc out, (s.flow.virtualChannels (l, invc)).inputBuffer with
  | some outvc, f :: rest =>
    let inport := (cfg.inLinks (.router r)).idxOf l
    ({ s with
        flow := s.flow.grant t outport (l, invc) (out, outvc) f rest
        roundRobinInport := update s.roundRobinInport out
          (wrap (inport + 1) (cfg.inLinks (.router r)).length)
        roundRobinInvc := update s.roundRobinInvc l (wrap (invc + 1) cfg.numVcs) } : Net).schedule
      (.creditLink l) (t + cfg.routerPeriod r)
  | _, _ => s.fail .noFreeVc

/-- `arbitrate_outports` at one output port. The second component has the requests still open, by
input link. -/
def arbitrateOutport (cfg : Config) (r t : Nat) (acc : Net × (Nat → Option (Nat × Nat)))
    (port : Nat × Nat) : Net × (Nat → Option (Nat × Nat)) :=
  let (s, requests) := acc
  let (out, outport) := port
  let asking := (rotation (s.roundRobinInport out) (cfg.inLinks (.router r))).findSome? fun l =>
    (requests l).bind fun wish => if wish.1 = outport then some (l, wish.2) else none
  match asking with
  | none => acc
  | some (l, invc) => (grant cfg r t l invc outport out s, update requests l none)

def checkForWakeup (cfg : Config) (r t : Nat) (s : Net) : Net :=
  let nextCycle := t + cfg.routerPeriod r
  s.scheduleIf
    (!(s.pending (.router r)).contains nextCycle &&
      (cfg.inLinks (.router r)).any fun l => (List.range cfg.numVcs).any fun invc =>
        (s.flow.virtualChannels (l, invc)).needStage .sa nextCycle)
    (.router r) nextCycle

def wakeup (cfg : Config) (r t : Nat) (s : Net) : Net :=
  let asserted : Net := { s with flow := s.flow.assertAllocation cfg r t }
  let granted := (cfg.outLinks (.router r)).zipIdx.foldl (arbitrateOutport cfg r t)
    (asserted, arbitrateInports cfg asserted r t)
  checkForWakeup cfg r t granted.1

end SwitchAllocator

def crossbarWakeup (cfg : Config) (r t : Nat) (s : Net) (l : Nat) : Net :=
  match s.flow.switchBuffer l with
  | [] => s
  | f :: rest =>
    if f.time ≤ t ∧ f.isStage .st t = true then
      match cfg.target l f.outport with
      | none => s
      | some out =>
        let time := t + cfg.routerPeriod r
        ({ s with flow := s.flow.cross l out f rest time } : Net).schedule (.link out) time
    else s

/-- `Router::wakeup`. -/
def routerWakeup (cfg : Config) (r t : Nat) (draws : Nat → Draws) (s : Net) : Net :=
  let received := (cfg.inLinks (.router r)).zipIdx.foldl (InputUnit.wakeup cfg r t draws) s
  let credited := (cfg.outLinks (.router r)).foldl (OutputUnit.wakeup cfg t) received
  let allocated := SwitchAllocator.wakeup cfg r t credited
  (cfg.inLinks (.router r)).foldl (crossbarWakeup cfg r t) allocated

end Resister.Garnet
