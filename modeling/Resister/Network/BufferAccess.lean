import Mathlib
import Resister.Network.MessageBuffer

/-!
# Functional accesses to message buffers

`MessageBuffer` with the messages whose enqueueing is deferred, and `functionalAccess` on it.
-/

namespace Resister

open List

variable {α π μ : Type}

structure DeferringBuffer (α : Type) extends MessageBuffer α where
  deferredMsgMap : List (Nat × List (Message α)) := []
  deriving DecidableEq, Repr

inductive DeferFailure where
  | notDeferred
  | buffer (failure : BufferFailure)
  deriving DecidableEq, Repr

namespace DeferringBuffer

variable (ruby : RubySystem) (b : DeferringBuffer α)

def deferred : List (Message α) := b.deferredMsgMap.flatMap Prod.snd

def deferEnqueueingMessage (addr : Nat) (m : Message α) : DeferringBuffer α :=
  { b with deferredMsgMap := stallAt addr m b.deferredMsgMap }

def enqueueAll (time delay : Nat) (draws : Nat → Draws) : List (Message α) → MessageBuffer α →
    Except BufferFailure (MessageBuffer α)
  | [], buffer => .ok buffer
  | m :: rest, buffer => do
    let next ← buffer.enqueue ruby m time delay (draws rest.length)
    enqueueAll time delay draws rest next

def enqueueDeferredMessages (addr time delay : Nat) (draws : Nat → Draws) :
    Except DeferFailure (DeferringBuffer α) :=
  match b.deferredMsgMap.lookup addr with
  | none => .error .notDeferred
  | some messages =>
    if messages = [] then .error .notDeferred
    else
      match enqueueAll ruby time delay draws messages b.toMessageBuffer with
      | .error failure => .error (.buffer failure)
      | .ok buffer =>
        .ok { buffer with deferredMsgMap := b.deferredMsgMap.eraseP fun entry => addr == entry.1 }

def held : List (Message α) := b.prioHeap ++ b.stalled ++ b.deferred

end DeferringBuffer

inductive DeferringCall (α : Type) where
  | buffer (call : BufferCall α)
  | deferEnqueueingMessage (addr : Nat) (message : Message α)
  | enqueueDeferredMessages (addr delay : Nat) (draws : Nat → Draws)

namespace DeferringBuffer

def call (ruby : RubySystem) (b : DeferringBuffer α) (time : Nat) :
    DeferringCall α → Except DeferFailure (DeferringBuffer α)
  | .buffer call =>
    match b.toMessageBuffer.call ruby time call with
    | .error failure => .error (.buffer failure)
    | .ok buffer => .ok { b with toMessageBuffer := buffer }
  | .deferEnqueueingMessage addr m => .ok (b.deferEnqueueingMessage addr m)
  | .enqueueDeferredMessages addr delay draws =>
    b.enqueueDeferredMessages ruby addr time delay draws

def run (ruby : RubySystem) (b : DeferringBuffer α) (calls : List (Nat × DeferringCall α)) :
    Except DeferFailure (DeferringBuffer α) :=
  calls.foldlM (fun b c => b.call ruby c.1 c.2) b

end DeferringBuffer

/-- The functions of a class of messages, on a packet and a write mask. -/
structure MessageMethods (α π μ : Type) where
  functionalRead : α → π → Bool × π
  functionalReadMasked : α → π → μ → Bool × π × μ
  functionalWrite : α → π → Bool × α

/-- What `functionalAccess` works on. `offered` is for the proofs: the messages that it has called
so far. -/
structure AccessState (α π μ : Type) where
  pkt : π
  mask : Option μ
  numFunctionalAccesses : UInt32 := 0
  offered : List (Message α) := []
  returned : Bool := false

namespace MessageMethods

variable (methods : MessageMethods α π μ)

def visit (isRead : Bool) (m : Message α) (s : AccessState α π μ) : Message α × AccessState α π μ :=
  if s.returned then (m, s)
  else
    let s' := { s with offered := s.offered ++ [m] }
    match isRead, s.mask with
    | true, none =>
      let (found, pkt) := methods.functionalRead m.body s.pkt
      (m, if found then { s' with pkt, numFunctionalAccesses := 1, returned := true }
        else { s' with pkt })
    | true, some mask =>
      let (found, pkt, mask') := methods.functionalReadMasked m.body s.pkt mask
      let count := if found then s.numFunctionalAccesses + 1 else s.numFunctionalAccesses
      (m, { s' with pkt, mask := some mask', numFunctionalAccesses := count })
    | false, _ =>
      let (found, body) := methods.functionalWrite m.body s.pkt
      let count := if found then s.numFunctionalAccesses + 1 else s.numFunctionalAccesses
      ({ m with body }, { s' with numFunctionalAccesses := count })

def visitAll (isRead : Bool) : List (Message α) → AccessState α π μ → List (Message α) × AccessState α π μ
  | [], s => ([], s)
  | m :: rest, s =>
    let (m', s') := methods.visit isRead m s
    let (rest', s'') := visitAll isRead rest s'
    (m' :: rest', s'')

def visitMap (isRead : Bool) : List (Nat × List (Message α)) → AccessState α π μ →
    List (Nat × List (Message α)) × AccessState α π μ
  | [], s => ([], s)
  | (addr, messages) :: rest, s =>
    let (messages', s') := methods.visitAll isRead messages s
    let (rest', s'') := visitMap isRead rest s'
    ((addr, messages') :: rest', s'')

end MessageMethods

namespace DeferringBuffer

variable (methods : MessageMethods α π μ) (b : DeferringBuffer α) (pkt : π)

def functionalAccess (isRead : Bool) (mask : Option μ) : DeferringBuffer α × AccessState α π μ :=
  let (prioHeap, s) := methods.visitAll isRead b.prioHeap { pkt, mask }
  let (stallMsgMap, s') := methods.visitMap isRead b.stallMsgMap s
  ({ b with prioHeap, stallMsgMap }, s')

def functionalWrite : UInt32 × DeferringBuffer α × List (Message α) :=
  let (b', s) := b.functionalAccess methods pkt false none
  (s.numFunctionalAccesses, b', s.offered)

/-- `functionalRead(Packet *, WriteMask &)`, with the packet and the mask after it and what was
called. -/
def functionalRead (mask : μ) : Bool × (π × Option μ) × List (Message α) :=
  let (_, s) := b.functionalAccess methods pkt true (some mask)
  (s.numFunctionalAccesses == 1, (s.pkt, s.mask), s.offered)

end DeferringBuffer

namespace MessageMethods

variable (methods : MessageMethods α π μ)

def accepts (pkt : π) (m : Message α) : Bool := (methods.functionalWrite m.body pkt).1

def written (pkt : π) (m : Message α) : Message α :=
  { m with body := (methods.functionalWrite m.body pkt).2 }

/-- How many of the messages supply data when the packet is offered to one after the other, and the
packet and the mask after that. -/
def offer : List (Message α) → π → μ → Nat × π × μ
  | [], pkt, mask => (0, pkt, mask)
  | m :: rest, pkt, mask =>
    let (found, pkt', mask') := methods.functionalReadMasked m.body pkt mask
    let (count, last) := offer rest pkt' mask'
    (found.toNat + count, last)

def suppliers (messages : List (Message α)) (pkt : π) (mask : μ) : Nat :=
  (methods.offer messages pkt mask).1

variable {methods}

theorem offer_append (first second : List (Message α)) (pkt : π) (mask : μ) :
    methods.offer (first ++ second) pkt mask =
      ((methods.offer first pkt mask).1 +
          (methods.offer second (methods.offer first pkt mask).2.1
            (methods.offer first pkt mask).2.2).1,
        (methods.offer second (methods.offer first pkt mask).2.1
          (methods.offer first pkt mask).2.2).2) := by
  induction first generalizing pkt mask with
  | nil => simp [offer]
  | cons m rest ih => simp [offer, ih, Nat.add_assoc]

def wrote (methods : MessageMethods α π μ) (s : AccessState α π μ) (messages : List (Message α)) :
    AccessState α π μ :=
  { s with
    numFunctionalAccesses :=
      s.numFunctionalAccesses + UInt32.ofNat (messages.countP (methods.accepts s.pkt))
    offered := s.offered ++ messages }

def read (methods : MessageMethods α π μ) (s : AccessState α π μ) (mask : μ)
    (messages : List (Message α)) : AccessState α π μ :=
  { s with
    pkt := (methods.offer messages s.pkt mask).2.1
    mask := some (methods.offer messages s.pkt mask).2.2
    numFunctionalAccesses :=
      s.numFunctionalAccesses + UInt32.ofNat (methods.offer messages s.pkt mask).1
    offered := s.offered ++ messages }

theorem wrote_append (s : AccessState α π μ) (first second : List (Message α)) :
    methods.wrote (methods.wrote s first) second = methods.wrote s (first ++ second) := by
  simp [wrote, countP_append, UInt32.add_assoc]

theorem read_append (s : AccessState α π μ) (mask : μ) (first second : List (Message α)) :
    methods.read (methods.read s mask first) (methods.offer first s.pkt mask).2.2 second =
      methods.read s mask (first ++ second) := by
  simp [read, offer_append, UInt32.add_assoc]

theorem visitAll_write (messages : List (Message α)) (s : AccessState α π μ) (going : s.returned = false) :
    methods.visitAll false messages s =
      (messages.map (methods.written s.pkt), methods.wrote s messages) := by
  induction messages generalizing s with
  | nil => simp [visitAll, wrote]
  | cons m rest ih =>
    have one : methods.visit false m s = (methods.written s.pkt m, methods.wrote s [m]) := by
      cases found : (methods.functionalWrite m.body s.pkt).1 <;>
        simp [visit, going, written, wrote, accepts, found]
    rw [visitAll, one]
    simp only [ih (methods.wrote s [m]) going, wrote_append]
    rfl

theorem visitAll_read (messages : List (Message α)) (s : AccessState α π μ) (mask : μ)
    (going : s.returned = false) (masked : s.mask = some mask) :
    methods.visitAll true messages s = (messages, methods.read s mask messages) := by
  induction messages generalizing s mask with
  | nil => simp [visitAll, read, offer, ← masked]
  | cons m rest ih =>
    have one : methods.visit true m s = (m, methods.read s mask [m]) := by
      cases found : (methods.functionalReadMasked m.body s.pkt mask).1 <;>
        simp [visit, going, masked, read, offer, found]
    rw [visitAll, one]
    simp only [ih (methods.read s mask [m]) _ going rfl, read_append]
    rfl

theorem visitMap_write (groups : List (Nat × List (Message α))) (s : AccessState α π μ) (going : s.returned = false) :
    (methods.visitMap false groups s).2 = methods.wrote s (groups.flatMap Prod.snd) ∧
      (methods.visitMap false groups s).1.flatMap Prod.snd =
        (groups.flatMap Prod.snd).map (methods.written s.pkt) := by
  induction groups generalizing s with
  | nil => simp [visitMap, wrote]
  | cons group rest ih =>
    obtain ⟨state, messages⟩ := ih (methods.wrote s group.2) going
    rw [visitMap, visitAll_write group.2 s going]
    simp only [flatMap_cons, map_append]
    exact ⟨by rw [state, wrote_append], by rw [messages]; rfl⟩

theorem visitMap_read (groups : List (Nat × List (Message α))) (s : AccessState α π μ) (mask : μ)
    (going : s.returned = false) (masked : s.mask = some mask) :
    (methods.visitMap true groups s).2 = methods.read s mask (groups.flatMap Prod.snd) := by
  induction groups generalizing s mask with
  | nil => simp [visitMap, read, offer, ← masked]
  | cons group rest ih =>
    rw [visitMap, visitAll_read group.2 s mask going masked]
    simp only [flatMap_cons]
    rw [ih (methods.read s mask group.2) _ going rfl, read_append]

end MessageMethods

namespace DeferringBuffer

variable (methods : MessageMethods α π μ) (b : DeferringBuffer α) (pkt : π) (mask : μ)

theorem functionalWrite_eq :
    (b.functionalWrite methods pkt).1 =
        UInt32.ofNat ((b.prioHeap ++ b.stalled).countP (methods.accepts pkt)) ∧
      (b.functionalWrite methods pkt).2.2 = b.prioHeap ++ b.stalled ∧
      (b.functionalWrite methods pkt).2.1.held =
        (b.prioHeap ++ b.stalled).map (methods.written pkt) ++ b.deferred := by
  let start : AccessState α π μ := { pkt, mask := none }
  have heap : methods.visitAll false b.prioHeap start = _ :=
    MessageMethods.visitAll_write b.prioHeap start rfl
  obtain ⟨state, messages⟩ := MessageMethods.visitMap_write b.stallMsgMap
    (methods.wrote start b.prioHeap) rfl
  rw [MessageMethods.wrote_append] at state
  unfold functionalWrite functionalAccess
  simp only [start] at heap state messages
  simp only [heap, state]
  refine ⟨by simp [MessageMethods.wrote, MessageBuffer.stalled], by
    simp [MessageMethods.wrote, MessageBuffer.stalled], ?_⟩
  simp only [held, deferred, MessageBuffer.stalled, map_append]
  rw [messages]
  rfl

theorem functionalRead_eq :
    (b.functionalRead methods pkt mask).1 =
        (UInt32.ofNat (methods.suppliers (b.prioHeap ++ b.stalled) pkt mask) == 1) ∧
      (b.functionalRead methods pkt mask).2.2 = b.prioHeap ++ b.stalled := by
  let start : AccessState α π μ := { pkt, mask := some mask }
  have heap : methods.visitAll true b.prioHeap start = _ :=
    MessageMethods.visitAll_read b.prioHeap start mask rfl rfl
  have state : (methods.visitMap true b.stallMsgMap (methods.read start mask b.prioHeap)).2 = _ :=
    MessageMethods.visitMap_read b.stallMsgMap (methods.read start mask b.prioHeap) _ rfl rfl
  rw [MessageMethods.read_append] at state
  unfold functionalRead functionalAccess
  simp only [start] at heap state
  simp only [heap, state]
  simp [MessageMethods.read, MessageMethods.suppliers, MessageBuffer.stalled]

/-- What both accesses are for: all messages are called, a write reports how many accepted it and a
read whether one of them supplied data. -/
structure AccessesAll (methods : MessageMethods α π μ) (b : DeferringBuffer α) (pkt : π) (mask : μ) :
    Prop where
  writes : (b.functionalWrite methods pkt).2.2.Perm b.held
  written : (b.functionalWrite methods pkt).2.1.held = b.held.map (methods.written pkt)
  accepted : (b.functionalWrite methods pkt).1.toNat = b.held.countP (methods.accepts pkt)
  reads : (b.functionalRead methods pkt mask).2.2.Perm b.held
  supplied : (b.functionalRead methods pkt mask).1 = true ↔ 1 ≤ methods.suppliers b.held pkt mask

variable {b} in
theorem held_of_none (none : b.deferred = []) : b.held = b.prioHeap ++ b.stalled := by
  rw [held, none, append_nil]

theorem ofNat_eq_one_iff (n : Nat) : (UInt32.ofNat n == 1) = true ↔ n % 2 ^ 32 = 1 := by
  rw [beq_iff_eq, ← UInt32.toNat_inj]
  simp

theorem functionalAccess_exact_iff (methods : MessageMethods α π μ) (b : DeferringBuffer α) (pkt : π) (mask : μ) :
    b.AccessesAll methods pkt mask ↔
      b.deferred = [] ∧ b.held.countP (methods.accepts pkt) < 2 ^ 32 ∧
        (methods.suppliers b.held pkt mask = 0 ∨ methods.suppliers b.held pkt mask % 2 ^ 32 = 1) := by
  obtain ⟨count, called, after⟩ := functionalWrite_eq methods b pkt
  obtain ⟨answer, called'⟩ := functionalRead_eq methods b pkt mask
  constructor
  · intro all
    have none : b.deferred = [] := by
      have lengths := all.writes.length_eq
      rw [called, held] at lengths
      simp only [length_append] at lengths
      exact eq_nil_of_length_eq_zero (by omega)
    refine ⟨none, ?_, ?_⟩
    · have accepted := all.accepted
      rw [count, ← held_of_none none, UInt32.toNat_ofNat'] at accepted
      rw [← accepted]
      exact Nat.mod_lt _ (by decide)
    · have supplied := all.supplied
      rw [answer, ← held_of_none none, ofNat_eq_one_iff] at supplied
      omega
  · rintro ⟨none, few, single⟩
    have held := held_of_none none
    refine ⟨?_, ?_, ?_, ?_, ?_⟩
    · rw [called, held]
    · rw [after, none, append_nil, held]
    · rw [count, ← held, UInt32.toNat_ofNat', Nat.mod_eq_of_lt few]
    · rw [called', held]
    · rw [answer, ← held, ofNat_eq_one_iff]
      omega

/-- Messages that are all for the line of the packet: each has its data and takes new data. -/
def sameLine : MessageMethods Nat Nat Unit where
  functionalRead body _ := (true, body)
  functionalReadMasked body _ mask := (true, body, mask)
  functionalWrite _ pkt := (true, pkt)

/-- Two messages that both supply data make a masked read fail. A message that is deferred does not
take the data of a write. -/
theorem functionalAccess_misses :
    (run {} {} [(1, .buffer (.enqueue { body := 3, lastEnqueueTime := 1 } 1 .least)),
        (1, .buffer (.enqueue { body := 4, lastEnqueueTime := 1 } 1 .least))]).toOption.map
        (fun b => ((b.functionalRead sameLine 0 ()).1, sameLine.suppliers b.held 0 ())) =
      some (false, 2) ∧
    (run {} {} [(1, .deferEnqueueingMessage 0 { body := 5, lastEnqueueTime := 1 })]).toOption.map
        (fun b => ((b.functionalWrite sameLine 9).1, b.held.countP (sameLine.accepts 9),
          (b.functionalWrite sameLine 9).2.1.held.map Message.body)) =
      some (0, 1, [5]) := by
  decide +kernel

end DeferringBuffer

end Resister
