import Mathlib
import Resister.Library.BinQueue

/-!
# The event queue

`EventQueue` keeps the scheduled events in a linked list of bins: the events of one time and one
priority form a stack, linked by `nextInBin`, and the top of each stack is linked to the top of the
next one by `nextBin`.
-/

namespace Resister.Sim

open Library Library.BinQueue

variable {ι : Type}

structure Event (ι : Type) where
  nextBin : Option ι := none
  nextInBin : Option ι := none
  when_ : Nat := 0
  priority : Int := 0
  scheduled : Bool := false
  squashed : Bool := false
  /-- `queue` is this queue. -/
  queued : Bool := false
  deriving DecidableEq, Repr

namespace Event

/-- `operator<`. -/
def lt (l r : Event ι) : Bool :=
  decide (l.when_ < r.when_) || (decide (l.when_ = r.when_) && decide (l.priority < r.priority))

/-- `operator<=`. -/
def le (l r : Event ι) : Bool :=
  decide (l.when_ < r.when_) || (decide (l.when_ = r.when_) && decide (l.priority ≤ r.priority))

/-- `operator==`. -/
def eq (l r : Event ι) : Bool := decide (l.when_ = r.when_) && decide (l.priority = r.priority)

/-- `operator!=`. -/
def ne (l r : Event ι) : Bool := decide (l.when_ ≠ r.when_) || decide (l.priority ≠ r.priority)

def key (e : Event ι) : Nat ×ₗ Int := toLex (e.when_, e.priority)

theorem lt_iff {l r : Event ι} : l.lt r = true ↔ l.key < r.key := by
  simp [lt, key, Prod.Lex.toLex_lt_toLex]

theorem le_iff {l r : Event ι} : l.le r = true ↔ l.key ≤ r.key := by
  simp [le, key, Prod.Lex.toLex_le_toLex]

theorem eq_iff {l r : Event ι} : l.eq r = true ↔ l.key = r.key := by
  simp [eq, key]

theorem ne_iff {l r : Event ι} : l.ne r = true ↔ l.key ≠ r.key := by
  simp [ne, key, imp_iff_not_or]

end Event

structure EventQueue (ι : Type) where
  events : ι → Event ι
  head : Option ι := none
  curTick : Nat := 0

inductive Fault where
  /-- `panic("event not found!")` -/
  | eventNotFound
  /-- An assertion of `schedule`, `deschedule`, `reschedule` or `remove`. -/
  | assertion
  | nullPointer
  | endlessLoop
  deriving DecidableEq, Repr

namespace EventQueue

variable [DecidableEq ι]

def modify (q : EventQueue ι) (x : ι) (f : Event ι → Event ι) : EventQueue ι :=
  { q with events := Function.update q.events x (f (q.events x)) }

def setNextBin (q : EventQueue ι) (x : ι) (p : Option ι) : EventQueue ι :=
  q.modify x fun event => { event with nextBin := p }

def setNextInBin (q : EventQueue ι) (x : ι) (p : Option ι) : EventQueue ι :=
  q.modify x fun event => { event with nextInBin := p }

/-! Beside its result, an operation gives the events whose `nextBin` pointer it follows. -/

def insertBefore (q : EventQueue ι) (event : ι) (curr : Option ι) : EventQueue ι × List ι :=
  match curr with
  | none => ((q.setNextBin event none).setNextInBin event none, [])
  | some c =>
    if (q.events event).lt (q.events c) then
      ((q.setNextBin event (some c)).setNextInBin event none, [])
    else ((q.setNextBin event (q.events c).nextBin).setNextInBin event (some c), [c])

/-- The loop `while (curr && *curr < *event)` of `insert` and `remove`, which gives `prev` and
`curr`. A loop that goes on for longer than there are events does not end. -/
def findBin (q : EventQueue ι) (event : ι) : Nat → ι → Option ι → Except Fault (ι × Option ι × List ι)
  | _, prev, none => .ok (prev, none, [])
  | fuel, prev, some c =>
    if (q.events c).lt (q.events event) then
      match fuel with
      | 0 => .error .endlessLoop
      | fuel + 1 => do
        let (last, curr, followed) ← q.findBin event fuel c (q.events c).nextBin
        .ok (last, curr, c :: followed)
    else .ok (prev, some c, [])

def findItem (q : EventQueue ι) (event : ι) : Nat → ι → Option ι → Except Fault ι
  | _, _, none => .error .eventNotFound
  | fuel, curr, some next =>
    if event = next then .ok curr
    else
      match fuel with
      | 0 => .error .endlessLoop
      | fuel + 1 => q.findItem event fuel next (q.events next).nextInBin

variable [Fintype ι]

def insert (q : EventQueue ι) (event : ι) : Except Fault (EventQueue ι × List ι) :=
  match q.head with
  | none =>
    let (q, followed) := q.insertBefore event none
    .ok ({ q with head := some event }, followed)
  | some head =>
    if (q.events event).le (q.events head) then
      let (q, followed) := q.insertBefore event (some head)
      .ok ({ q with head := some event }, followed)
    else do
      let (prev, curr, passed) ← q.findBin event (Fintype.card ι) head (q.events head).nextBin
      let (q, followed) := q.insertBefore event curr
      .ok (q.setNextBin prev (some event), head :: passed ++ followed)

def removeItem (q : EventQueue ι) (event top : ι) :
    Except Fault (Option ι × EventQueue ι × List ι) :=
  if event = top then
    match (q.events top).nextInBin with
    | none => .ok ((q.events top).nextBin, q, [top])
    | some next => .ok (some next, q.setNextBin next (q.events top).nextBin, [top])
  else do
    let curr ← q.findItem event (Fintype.card ι) top (q.events top).nextInBin
    .ok (some top, q.setNextInBin curr (q.events event).nextInBin, [])

def remove (q : EventQueue ι) (event : ι) : Except Fault (EventQueue ι × List ι) :=
  match q.head with
  | none => .error .eventNotFound
  | some head =>
    if !(q.events event).queued then .error .assertion
    else if (q.events head).eq (q.events event) then do
      let (top, q, followed) ← q.removeItem event head
      .ok ({ q with head := top }, followed)
    else do
      let (prev, curr, passed) ← q.findBin event (Fintype.card ι) head (q.events head).nextBin
      match curr with
      | none => .error .eventNotFound
      | some c =>
        if (q.events c).ne (q.events event) then .error .eventNotFound
        else do
          let (top, q, followed) ← q.removeItem event c
          .ok (q.setNextBin prev top, head :: passed ++ followed)

def setWhen (q : EventQueue ι) (event : ι) (when_ : Nat) : EventQueue ι :=
  q.modify event fun event => { event with when_, queued := true }

def setScheduled (q : EventQueue ι) (event : ι) (scheduled : Bool) : EventQueue ι :=
  q.modify event fun event => { event with scheduled }

def clearSquashed (q : EventQueue ι) (event : ι) : EventQueue ι :=
  q.modify event fun event => { event with squashed := false }

/-- A walk through the queue: the queue before it and the events whose `nextBin` it follows. -/
structure Walk (ι : Type) where
  queue : EventQueue ι
  followed : List ι

def schedule (q : EventQueue ι) (event : ι) (when_ : Nat) :
    Except Fault (EventQueue ι × List (Walk ι)) :=
  if when_ < q.curTick then .error .assertion
  else if (q.events event).scheduled then .error .assertion
  else do
    let q := q.setWhen event when_
    let (q', followed) ← q.insert event
    .ok (q'.setScheduled event true, [⟨q, followed⟩])

def deschedule (q : EventQueue ι) (event : ι) : Except Fault (EventQueue ι × List (Walk ι)) :=
  if !(q.events event).scheduled then .error .assertion
  else do
    let (q', followed) ← q.remove event
    .ok ((q'.clearSquashed event).setScheduled event false, [⟨q, followed⟩])

def unlink (q : EventQueue ι) (event : ι) : Except Fault (EventQueue ι × List ι) :=
  if (q.events event).scheduled then q.remove event else .ok (q, [])

def reschedule (q : EventQueue ι) (event : ι) (when_ : Nat) (always : Bool) :
    Except Fault (EventQueue ι × List (Walk ι)) :=
  if when_ < q.curTick then .error .assertion
  else if !(always || (q.events event).scheduled) then .error .assertion
  else do
    let (removed, followed) ← q.unlink event
    let unlinked := removed.setWhen event when_
    let (q', followed') ← unlinked.insert event
    .ok ((q'.clearSquashed event).setScheduled event true, [⟨q, followed⟩, ⟨unlinked, followed'⟩])

/-- The part of `serviceOne` before the event is handled: the event leaves the queue. -/
def takeHead (q : EventQueue ι) : Except Fault (ι × EventQueue ι × Walk ι) :=
  match q.head with
  | none => .error .nullPointer
  | some event =>
    let walk := ⟨q, [event]⟩
    let q := q.setScheduled event false
    match (q.events event).nextInBin with
    | some next =>
      .ok (event, { q.setNextBin next (q.events event).nextBin with head := some next }, walk)
    | none => .ok (event, { q with head := (q.events event).nextBin }, walk)

end EventQueue

end Resister.Sim
