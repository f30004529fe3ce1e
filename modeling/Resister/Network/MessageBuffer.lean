import Mathlib
import Resister.Garnet.Net

/-!
# Message buffers

`MessageBuffer` with the messages it holds: the priority heap, the stall map and the counters from
which `areNSlotsAvailable` answers.
-/

namespace Resister

open List

variable {α : Type*}

/-- The part of a `Message` that buffers read and write, and the rest of it as `body`. -/
structure Message (α : Type*) where
  body : α
  lastEnqueueTime : Nat
  delayedTicks : Nat := 0
  msgCounter : Nat := 0
  deriving DecidableEq, Repr

namespace Message

def updateDelayedTicks (m : Message α) (time : Nat) : Message α :=
  { m with delayedTicks := m.delayedTicks + (time - m.lastEnqueueTime) }

/-- `operator>`. -/
def gt (l r : Message α) : Bool :=
  if l.lastEnqueueTime = r.lastEnqueueTime then decide (r.msgCounter < l.msgCounter)
  else decide (r.lastEnqueueTime < l.lastEnqueueTime)

def NotAfter (l r : Message α) : Prop := l.gt r = false

instance : DecidableRel (NotAfter (α := α)) := fun l r => inferInstanceAs (Decidable (l.gt r = false))

theorem notAfter_iff {l r : Message α} :
    l.NotAfter r ↔ l.lastEnqueueTime < r.lastEnqueueTime ∨
      (l.lastEnqueueTime = r.lastEnqueueTime ∧ l.msgCounter ≤ r.msgCounter) := by
  unfold NotAfter gt
  split
  · simp only [decide_eq_false_iff_not]
    omega
  · simp only [decide_eq_false_iff_not]
    omega

instance : Std.Total (NotAfter (α := α)) where
  total l r := by
    rw [notAfter_iff, notAfter_iff]
    omega

instance : IsTrans (Message α) NotAfter where
  trans l m r first second := by
    rw [notAfter_iff] at first second ⊢
    omega

end Message

inductive MessageRandomization where
  | disabled
  | enabled
  | rubySystem
  deriving DecidableEq, Repr

structure RubySystem where
  randomization : Bool := false
  warmupEnabled : Bool := false
  blockSizeBits : Nat := 6
  deriving DecidableEq, Repr

/-- The numbers `random_time` draws: from 0 to 3, from 0 to 7 and from 1 to 15. -/
structure Draws where
  short : Fin 4
  chance : Fin 8
  long : Fin 15
  deriving DecidableEq, Repr

def Draws.least : Draws := ⟨0, 1, 0⟩

def randomTime (d : Draws) : Nat :=
  1 + d.short.val + if d.chance.val = 0 then 100 + (d.long.val + 1) else 0

inductive BufferFailure where
  | zeroLatency
  | fifoOrder
  | dequeuedEarly
  | full
  | notReady
  | unaligned
  | notStalled
  | stalledInFuture
  deriving DecidableEq, Repr

structure MessageBuffer (α : Type*) where
  maxSize : Nat := 0
  maxDequeueRate : Nat := 0
  strictFifo : Bool := false
  randomization : MessageRandomization := .rubySystem
  allowZeroLatency : Bool := false
  prioHeap : List (Message α) := []
  stallMsgMap : List (Nat × List (Message α)) := []
  stallMapSize : Nat := 0
  dequeuesThisCy : Nat := 0
  timeLastTimeEnqueue : Nat := 0
  timeLastTimePop : Nat := 0
  lastArrivalTime : Nat := 0
  sizeAtCycleStart : Nat := 0
  stalledAtCycleStart : Nat := 0
  msgsThisCycle : Nat := 0
  msgCounter : Nat := 0
  deriving DecidableEq, Repr

/-- `push_back` and `push_heap`: of the arrangements a heap may have, the ordered one. -/
def pushHeap (heap : List (Message α)) (m : Message α) : List (Message α) :=
  heap.orderedInsert Message.NotAfter m

/-- `m_stall_msg_map[addr].push_back(message)` on a map in the order of its addresses. -/
def stallAt (addr : Nat) (m : Message α) : List (Nat × List (Message α)) → List (Nat × List (Message α))
  | [] => [(addr, [m])]
  | (a, stalled) :: rest =>
    if addr < a then (addr, [m]) :: (a, stalled) :: rest
    else if addr = a then (a, stalled ++ [m]) :: rest
    else (a, stalled) :: stallAt addr m rest

namespace MessageBuffer

variable (ruby : RubySystem) (b : MessageBuffer α)

def stalled : List (Message α) := b.stallMsgMap.flatMap Prod.snd

def areNSlotsAvailable (n time : Nat) : Bool :=
  if b.maxSize = 0 then true
  else
    let currentSize :=
      if b.timeLastTimePop < time then b.prioHeap.length
      else if b.timeLastTimeEnqueue < time then b.sizeAtCycleStart
      else b.sizeAtCycleStart + b.msgsThisCycle
    let currentStallSize :=
      if b.timeLastTimePop < time then b.stallMapSize else b.stalledAtCycleStart
    decide (currentSize + currentStallSize + n ≤ b.maxSize)

def peek : Option (Message α) := b.prioHeap.head?

def randomized : Bool :=
  match b.randomization with
  | .disabled => false
  | .enabled => true
  | .rubySystem => ruby.randomization

def lastArrival (time : Nat) : Nat :=
  if b.randomized ruby && b.strictFifo then max b.lastArrivalTime time else b.lastArrivalTime

def arrivalTime (time delta : Nat) (d : Draws) : Nat :=
  if b.randomized ruby then
    if b.strictFifo then b.lastArrival ruby time + randomTime d else time + randomTime d
  else time + delta

def stamp (m : Message α) (time arrival : Nat) : Message α :=
  { m.updateDelayedTicks time with lastEnqueueTime := arrival, msgCounter := b.msgCounter + 1 }

def inserted (m : Message α) (time delta : Nat) (d : Draws) : MessageBuffer α :=
  { b with
    msgsThisCycle := if b.timeLastTimeEnqueue < time then 1 else b.msgsThisCycle + 1
    timeLastTimeEnqueue := if b.timeLastTimeEnqueue < time then time else b.timeLastTimeEnqueue
    msgCounter := b.msgCounter + 1
    lastArrivalTime :=
      if ruby.warmupEnabled then b.lastArrival ruby time else b.arrivalTime ruby time delta d
    prioHeap := pushHeap b.prioHeap (b.stamp m time (b.arrivalTime ruby time delta d)) }

def enqueue (m : Message α) (time delta : Nat) (d : Draws) : Except BufferFailure (MessageBuffer α) :=
  if delta = 0 ∧ b.allowZeroLatency = false then .error .zeroLatency
  else if b.strictFifo = true ∧ b.arrivalTime ruby time delta d < b.lastArrival ruby time then
    .error .fifoOrder
  else if time < m.lastEnqueueTime then .error .dequeuedEarly
  else
    let b' := b.inserted ruby m time delta d
    if b.maxSize = 0 ∨ b'.prioHeap.length + b'.stallMapSize ≤ b.maxSize then .ok b' else .error .full

def isReady (time : Nat) : Bool :=
  let canDequeue := b.maxDequeueRate == 0 || decide (b.timeLastTimePop < time) ||
    decide (b.dequeuesThisCy < b.maxDequeueRate)
  canDequeue && b.prioHeap.head?.any fun m => decide (m.lastEnqueueTime ≤ time)

/-- The buffer as `dequeue` leaves it when `rest` is the heap without its first message. -/
def popped (time : Nat) (rest : List (Message α)) : MessageBuffer α :=
  { b with
    sizeAtCycleStart := if b.timeLastTimePop < time then b.prioHeap.length else b.sizeAtCycleStart
    stalledAtCycleStart := if b.timeLastTimePop < time then b.stallMapSize else b.stalledAtCycleStart
    dequeuesThisCy := if b.timeLastTimePop < time then 1 else b.dequeuesThisCy + 1
    timeLastTimePop := if b.timeLastTimePop < time then time else b.timeLastTimePop
    prioHeap := rest }

def dequeue (time : Nat) : Except BufferFailure (MessageBuffer α × Nat) :=
  match b.prioHeap with
  | [] => .error .notReady
  | m :: rest =>
    if b.timeLastTimePop ≤ time ∧ b.isReady time = true then
      .ok (b.popped time rest, (m.updateDelayedTicks time).delayedTicks)
    else .error .notReady

def recycle (time latency : Nat) : Except BufferFailure (MessageBuffer α) :=
  match b.prioHeap with
  | [] => .error .notReady
  | m :: rest =>
    if b.timeLastTimePop ≤ time ∧ b.isReady time = true then
      .ok { b with prioHeap := pushHeap rest { m with lastEnqueueTime := time + latency } }
    else .error .notReady

def delayHead (time delta : Nat) (d : Draws) : Except BufferFailure (MessageBuffer α) :=
  match b.prioHeap with
  | [] => .error .notReady
  | m :: rest => ({ b with prioHeap := rest } : MessageBuffer α).enqueue ruby m time delta d

def stallMessage (addr time : Nat) : Except BufferFailure (MessageBuffer α) :=
  match b.prioHeap with
  | [] => .error .notReady
  | m :: rest =>
    if b.timeLastTimePop ≤ time ∧ b.isReady time = true then
      if addr % 2 ^ ruby.blockSizeBits = 0 then
        .ok { b.popped time rest with
          stallMsgMap := stallAt addr (m.updateDelayedTicks time) b.stallMsgMap
          stallMapSize := b.stallMapSize + 1 }
      else .error .unaligned
    else .error .notReady

def reanalyzeList (tick : Nat) : List (Message α) → List (Message α) → Except BufferFailure (List (Message α))
  | [], heap => .ok heap
  | m :: rest, heap =>
    if m.lastEnqueueTime ≤ tick then reanalyzeList tick rest (pushHeap heap m) else .error .stalledInFuture

def reanalyzeMessages (addr time : Nat) : Except BufferFailure (MessageBuffer α) :=
  match b.stallMsgMap.lookup addr with
  | none => .error .notStalled
  | some waiting =>
    if waiting.length ≤ b.stallMapSize then do
      let heap ← reanalyzeList time waiting b.prioHeap
      .ok { b with
        prioHeap := heap
        stallMapSize := b.stallMapSize - waiting.length
        stallMsgMap := b.stallMsgMap.eraseP fun entry => addr == entry.1 }
    else .error .notStalled

/-- The loop of `reanalyzeAllMessages` over the stall map, on the heap and `m_stall_map_size`. -/
def reanalyzeMap (tick : Nat) : List (Nat × List (Message α)) → List (Message α) × Nat →
    Except BufferFailure (List (Message α) × Nat)
  | [], reached => .ok reached
  | (_, waiting) :: rest, (heap, size) =>
    if waiting.length ≤ size then do
      let heap ← reanalyzeList tick waiting heap
      reanalyzeMap tick rest (heap, size - waiting.length)
    else .error .notStalled

def reanalyzeAllMessages (time : Nat) : Except BufferFailure (MessageBuffer α) := do
  let (heap, size) ← reanalyzeMap time b.stallMsgMap (b.prioHeap, b.stallMapSize)
  .ok { b with prioHeap := heap, stallMapSize := size, stallMsgMap := [] }

end MessageBuffer

inductive BufferCall (α : Type*) where
  | enqueue (message : Message α) (delta : Nat) (draws : Draws)
  | dequeue
  | recycle (latency : Nat)
  | delayHead (delta : Nat) (draws : Draws)
  | stallMessage (addr : Nat)
  | reanalyzeMessages (addr : Nat)
  | reanalyzeAllMessages
  deriving DecidableEq, Repr

namespace MessageBuffer

def call (ruby : RubySystem) (b : MessageBuffer α) (time : Nat) :
    BufferCall α → Except BufferFailure (MessageBuffer α)
  | .enqueue m delta d => b.enqueue ruby m time delta d
  | .dequeue => (b.dequeue time).map Prod.fst
  | .recycle latency => b.recycle time latency
  | .delayHead delta d => b.delayHead ruby time delta d
  | .stallMessage addr => b.stallMessage ruby addr time
  | .reanalyzeMessages addr => b.reanalyzeMessages addr time
  | .reanalyzeAllMessages => b.reanalyzeAllMessages time

def run (ruby : RubySystem) (b : MessageBuffer α) (calls : List (Nat × BufferCall α)) :
    Except BufferFailure (MessageBuffer α) :=
  calls.foldlM (fun b c => b.call ruby c.1 c.2) b

def IsNew (b : MessageBuffer α) : Prop :=
  b.prioHeap = [] ∧ b.stallMsgMap = [] ∧ b.stallMapSize = 0 ∧ b.dequeuesThisCy = 0 ∧
    b.timeLastTimeEnqueue = 0 ∧ b.timeLastTimePop = 0 ∧ b.lastArrivalTime = 0 ∧
    b.sizeAtCycleStart = 0 ∧ b.stalledAtCycleStart = 0 ∧ b.msgsThisCycle = 0 ∧ b.msgCounter = 0

theorem enqueue_ok {ruby : RubySystem} {b b' : MessageBuffer α} {m : Message α} {time delta : Nat} {d : Draws}
    (done : b.enqueue ruby m time delta d = .ok b') :
    (b.strictFifo = true → b.lastArrival ruby time ≤ b.arrivalTime ruby time delta d) ∧
      (b.maxSize = 0 ∨ b'.prioHeap.length + b'.stallMapSize ≤ b.maxSize) ∧
      b' = b.inserted ruby m time delta d := by
  unfold enqueue at done
  split at done
  · simp at done
  split at done
  · simp at done
  rename_i ordered
  split at done
  · simp at done
  simp only at done
  split at done
  · rename_i room
    obtain rfl := Except.ok.inj done
    exact ⟨fun strict => Nat.le_of_not_lt fun early => ordered ⟨strict, early⟩, room, rfl⟩
  · simp at done

theorem reanalyzeList_ok {tick : Nat} {waiting heap heap' : List (Message α)}
    (done : reanalyzeList tick waiting heap = .ok heap') : heap' = waiting.foldl pushHeap heap := by
  induction waiting generalizing heap with
  | nil => exact (Except.ok.inj done).symm
  | cons m rest ih =>
    unfold reanalyzeList at done
    split at done
    · exact ih done
    · simp at done

theorem reanalyzeMap_ok {tick size : Nat} {map : List (Nat × List (Message α))} {heap : List (Message α)}
    {reached : List (Message α) × Nat} (done : reanalyzeMap tick map (heap, size) = .ok reached) :
    reached.1 = (map.flatMap Prod.snd).foldl pushHeap heap ∧
      reached.2 + (map.flatMap Prod.snd).length = size := by
  induction map generalizing heap size with
  | nil =>
    obtain rfl := Except.ok.inj done
    simp
  | cons entry rest ih =>
    unfold reanalyzeMap at done
    split at done
    · rename_i enough
      cases listed : reanalyzeList tick entry.2 heap with
      | error failure =>
        rw [listed] at done
        simp [bind, Except.bind] at done
      | ok heap' =>
        rw [listed] at done
        obtain ⟨heaped, counted⟩ := ih done
        rw [heaped, reanalyzeList_ok listed]
        simp only [flatMap_cons, foldl_append, length_append]
        exact ⟨trivial, by omega⟩
    · simp at done

inductive Effect (ruby : RubySystem) (b : MessageBuffer α) (time : Nat) :
    BufferCall α → MessageBuffer α → Prop
  | enqueue {m : Message α} {delta : Nat} {d : Draws}
      (fifo : b.strictFifo = true → b.lastArrival ruby time ≤ b.arrivalTime ruby time delta d) :
      Effect ruby b time (.enqueue m delta d) (b.inserted ruby m time delta d)
  | dequeue {m : Message α} {rest : List (Message α)} (front : b.prioHeap = m :: rest)
      (recent : b.timeLastTimePop ≤ time) : Effect ruby b time .dequeue (b.popped time rest)
  | recycle {m : Message α} {rest : List (Message α)} {latency : Nat} (front : b.prioHeap = m :: rest) :
      Effect ruby b time (.recycle latency)
        { b with prioHeap := pushHeap rest { m with lastEnqueueTime := time + latency } }
  | delayHead {m : Message α} {rest : List (Message α)} {delta : Nat} {d : Draws}
      (front : b.prioHeap = m :: rest) :
      Effect ruby b time (.delayHead delta d)
        (({ b with prioHeap := rest } : MessageBuffer α).inserted ruby m time delta d)
  | stallMessage {m : Message α} {rest : List (Message α)} {addr : Nat} (front : b.prioHeap = m :: rest)
      (recent : b.timeLastTimePop ≤ time) :
      Effect ruby b time (.stallMessage addr)
        { b.popped time rest with
          stallMsgMap := stallAt addr (m.updateDelayedTicks time) b.stallMsgMap
          stallMapSize := b.stallMapSize + 1 }
  | reanalyze {c : BufferCall α} {waiting : List (Message α)} {map : List (Nat × List (Message α))}
      (taken : b.stalled.Perm (waiting ++ map.flatMap Prod.snd)) (counted : waiting.length ≤ b.stallMapSize)
      (reanalyzes : c = .reanalyzeAllMessages ∨ ∃ addr, c = .reanalyzeMessages addr) :
      Effect ruby b time c
        { b with
          prioHeap := waiting.foldl pushHeap b.prioHeap
          stallMapSize := b.stallMapSize - waiting.length
          stallMsgMap := map }

theorem lookup_flatMap_perm {map : List (Nat × List (Message α))} {addr : Nat} {waiting : List (Message α)}
    (found : map.lookup addr = some waiting) :
    (map.flatMap Prod.snd).Perm (waiting ++ (map.eraseP fun entry => addr == entry.1).flatMap Prod.snd) := by
  induction map with
  | nil => simp at found
  | cons entry rest ih =>
    obtain ⟨a, stalled⟩ := entry
    rw [lookup_cons] at found
    by_cases here : addr = a
    · subst here
      simp only [beq_self_eq_true] at found
      obtain rfl := Option.some.inj found
      simp
    · have other : (addr == a) = false := by simpa using here
      rw [other] at found
      simp only [flatMap_cons, eraseP_cons, other, cond_false]
      refine ((ih found).append_left stalled).trans ?_
      rw [← append_assoc, ← append_assoc]
      exact perm_append_comm.append_right _

theorem call_effect {ruby : RubySystem} {b b' : MessageBuffer α} {time : Nat} {c : BufferCall α}
    (done : b.call ruby time c = .ok b') : Effect ruby b time c b' := by
  cases c with
  | enqueue m delta d =>
    obtain ⟨fifo, -, rfl⟩ := enqueue_ok done
    exact .enqueue fifo
  | dequeue =>
    simp only [call, MessageBuffer.dequeue] at done
    split at done
    · simp [Except.map] at done
    · rename_i m rest front
      split at done
      · rename_i ready
        obtain rfl := Except.ok.inj done
        exact .dequeue front ready.1
      · simp [Except.map] at done
  | recycle latency =>
    simp only [call, MessageBuffer.recycle] at done
    split at done
    · simp at done
    · rename_i m rest front
      split at done
      · obtain rfl := Except.ok.inj done
        exact .recycle front
      · simp at done
  | delayHead delta d =>
    simp only [call, MessageBuffer.delayHead] at done
    split at done
    · simp at done
    · rename_i m rest front
      obtain ⟨-, -, rfl⟩ := enqueue_ok done
      exact .delayHead front
  | stallMessage addr =>
    simp only [call, MessageBuffer.stallMessage] at done
    split at done
    · simp at done
    · rename_i m rest front
      split at done
      · rename_i ready
        split at done
        · obtain rfl := Except.ok.inj done
          exact .stallMessage front ready.1
        · simp at done
      · simp at done
  | reanalyzeMessages addr =>
    simp only [call, MessageBuffer.reanalyzeMessages] at done
    split at done
    · simp at done
    · rename_i waiting found
      split at done
      · rename_i counted
        cases listed : reanalyzeList time waiting b.prioHeap with
        | error failure =>
          rw [listed] at done
          simp [bind, Except.bind] at done
        | ok heap =>
          rw [listed] at done
          obtain rfl := Except.ok.inj done
          rw [reanalyzeList_ok listed]
          exact .reanalyze (lookup_flatMap_perm found) counted (Or.inr ⟨addr, rfl⟩)
      · simp at done
  | reanalyzeAllMessages =>
    simp only [call, MessageBuffer.reanalyzeAllMessages] at done
    cases looped : reanalyzeMap time b.stallMsgMap (b.prioHeap, b.stallMapSize) with
    | error failure =>
      rw [looped] at done
      simp [bind, Except.bind] at done
    | ok reached =>
      rw [looped] at done
      obtain rfl := Except.ok.inj done
      obtain ⟨heaped, counted⟩ := reanalyzeMap_ok looped
      have size : reached.2 = b.stallMapSize - b.stalled.length := by
        unfold stalled
        omega
      simp only [heaped, size]
      exact .reanalyze (by simp [stalled]) (by omega) (Or.inl rfl)

end MessageBuffer

end Resister
