import Mathlib
import Resister.Library.Wakeups

/-!
# Consumers

A `Consumer` keeps the set of clock edges for which a wakeup has been requested and one event of the
event queue, which it moves to the earliest of them.
-/

namespace Resister.Sim

open Library List Nat

def divCeil (a b : Nat) : Nat := (a + b - 1) / b

structure Clocked where
  tick : Nat := 0
  deriving DecidableEq, Repr

namespace Clocked

variable {period curTick : Nat} {c : Clocked}

def update (c : Clocked) (period curTick : Nat) : Clocked :=
  if curTick ≤ c.tick then c
  else if curTick ≤ c.tick + period then { tick := c.tick + period }
  else { tick := c.tick + period + divCeil (curTick - (c.tick + period)) period * period }

def Aligned (c : Clocked) (period curTick : Nat) : Prop :=
  period ∣ c.tick ∧ c.tick < curTick + period

theorem Aligned.later (aligned : c.Aligned period curTick) {t : Nat} (le : curTick ≤ t) :
    c.Aligned period t :=
  ⟨aligned.1, Nat.lt_of_lt_of_le aligned.2 (Nat.add_le_add_right le period)⟩

theorem eq_clockEdge {tick : Nat} (edge : period ∣ tick) (ahead : curTick ≤ tick)
    (close : tick < curTick + period) : tick = clockEdge period curTick := by
  obtain ⟨cycles, rfl⟩ := edge
  have pos : 0 < period := by omega
  have rounded : (curTick + period - 1) / period = cycles := by
    rw [Nat.div_eq_iff pos, Nat.mul_comm cycles]
    omega
  rw [clockEdge, rounded, mul_comm]

theorem update_tick (pos : 0 < period) (aligned : c.Aligned period curTick) :
    (c.update period curTick).tick = clockEdge period curTick := by
  obtain ⟨edge, close⟩ := aligned
  rw [update]
  split
  · exact eq_clockEdge edge ‹_› close
  split
  · exact eq_clockEdge (dvd_add edge (dvd_refl _)) ‹_› (by simp only; omega)
  · rename_i far
    -- What is missing is a whole number of cycles.
    set rest := curTick - (c.tick + period) with rest_def
    have enough : rest ≤ divCeil rest period * period := le_clockEdge pos
    have bound : divCeil rest period * period ≤ rest + period - 1 := div_mul_le_self _ _
    exact eq_clockEdge
      (dvd_add (dvd_add edge (dvd_refl _)) (dvd_mul_left period _))
      (by simp only; omega) (by simp only; omega)

theorem clockEdge_lt (pos : 0 < period) : clockEdge period curTick < curTick + period := by
  have bound : clockEdge period curTick ≤ curTick + period - 1 := div_mul_le_self _ _
  omega

theorem update_aligned (pos : 0 < period) (aligned : c.Aligned period curTick) :
    (c.update period curTick).Aligned period curTick := by
  rw [Aligned, update_tick pos aligned]
  exact ⟨dvd_clockEdge, clockEdge_lt pos⟩

end Clocked

/-! ## The consumer -/

def first (s : Finset Nat) : Option Nat := if h : s.Nonempty then some (s.min' h) else none

theorem first_eq_some_iff {s : Finset Nat} {a : Nat} :
    first s = some a ↔ a ∈ s ∧ ∀ b ∈ s, a ≤ b := by
  rw [first]
  split
  · rename_i nonempty
    rw [Option.some_inj, Finset.min'_eq_iff]
  · rename_i empty
    rw [Finset.not_nonempty_iff_eq_empty] at empty
    simp [empty]

theorem first_eq_none_iff {s : Finset Nat} : first s = none ↔ s = ∅ := by
  rw [first]
  split
  · rename_i nonempty
    simp [nonempty.ne_empty]
  · rename_i empty
    simpa using empty

def lowerBound (s : Finset Nat) (edge : Nat) : Option Nat := first (s.filter (edge ≤ ·))

theorem lowerBound_eq_first {s : Finset Nat} {edge : Nat} (ahead : ∀ e ∈ s, edge ≤ e) :
    lowerBound s edge = first s := by
  rw [lowerBound, Finset.filter_true_of_mem ahead]

inductive Violation where
  /-- In `EventQueue::schedule` and `reschedule`: `when >= getCurTick()`. -/
  | inThePast
  /-- In `EventQueue::schedule`: `!event->scheduled()`. -/
  | alreadyScheduled
  /-- In `scheduleNextWakeup`: `when >= em->clockEdge()`. -/
  | beforeEdge
  /-- In `processCurrentEvent`: `em->clockEdge() == *curr`. -/
  | notCurrent
  deriving DecidableEq, Repr

inductive Request where
  | scheduleEvent (timeDelta : Nat)
  | scheduleEventAbsolute (evtTime : Nat)
  deriving DecidableEq, Repr

/-- The consumer with the clock of its object `em`. The event is given by its time, if it is
scheduled. -/
structure Consumer where
  em : Clocked := {}
  wakeupTicks : Finset Nat := ∅
  wakeupEvent : Option Nat := none
  deriving DecidableEq

namespace Consumer

/-- `em->schedule`. -/
def schedule (c : Consumer) (curTick when_ : Nat) : Except Violation Consumer :=
  if when_ < curTick then .error .inThePast
  else if c.wakeupEvent.isSome then .error .alreadyScheduled
  else .ok { c with wakeupEvent := some when_ }

def reschedule (c : Consumer) (curTick when_ : Nat) : Except Violation Consumer :=
  if when_ < curTick then .error .inThePast
  else .ok { c with wakeupEvent := some when_ }

def clockEdge (c : Consumer) (period curTick cycles : Nat) : Nat × Consumer :=
  let em := c.em.update period curTick
  (em.tick + period * cycles, { c with em := em })

def scheduleNextWakeup (period curTick : Nat) (c : Consumer) : Except Violation Consumer :=
  let (edge, c) := c.clockEdge period curTick 0
  match lowerBound c.wakeupTicks edge with
  | none => .ok c
  | some when_ =>
    if when_ < edge then .error .beforeEdge
    else
      match c.wakeupEvent with
      | some scheduled => if when_ < scheduled then c.reschedule curTick when_ else .ok c
      | none => c.schedule curTick when_

def scheduleEvent (period curTick timeDelta : Nat) (c : Consumer) : Except Violation Consumer :=
  let (edge, c) := c.clockEdge period curTick timeDelta
  scheduleNextWakeup period curTick { c with wakeupTicks := insert edge c.wakeupTicks }

def scheduleEventAbsolute (period curTick evtTime : Nat) (c : Consumer) :
    Except Violation Consumer :=
  scheduleNextWakeup period curTick
    { c with wakeupTicks := insert (divCeil evtTime period * period) c.wakeupTicks }

def request (period curTick : Nat) (c : Consumer) : Request → Except Violation Consumer
  | .scheduleEvent timeDelta => c.scheduleEvent period curTick timeDelta
  | .scheduleEventAbsolute evtTime => c.scheduleEventAbsolute period curTick evtTime

end Consumer

/-! ## Runs

A run is recorded as the requests and the calls of `wakeup` in their order, a request by the edge it
asks for and a call by the tick at which it is made. -/

def Request.edge (period curTick : Nat) : Request → Nat
  | .scheduleEvent timeDelta => Library.clockEdge period curTick + period * timeDelta
  | .scheduleEventAbsolute evtTime => Library.clockEdge period evtTime

def Request.Allowed (period curTick : Nat) : Request → Prop
  | .scheduleEvent _ => True
  | .scheduleEventAbsolute evtTime => Library.clockEdge period curTick ≤ evtTime

inductive Entry where
  | requested (edge : Nat)
  | wakeup (edge : Nat)
  deriving DecidableEq, Repr

structure World where
  curTick : Nat := 0
  consumer : Consumer := {}
  history : List Entry := []
  deriving DecidableEq

namespace World

def request (period : Nat) (w : World) (q : Request) : Except Violation World := do
  let consumer ← w.consumer.request period w.curTick q
  .ok { w with consumer, history := w.history ++ [.requested (q.edge period w.curTick)] }

def processCurrentEvent (period : Nat) (inside : List Request) (w : World) :
    Except Violation World :=
  let curr := first w.consumer.wakeupTicks
  let (edge, consumer) := w.consumer.clockEdge period w.curTick 0
  if curr = some edge then do
    let called :=
      { w with
        consumer := { consumer with wakeupTicks := consumer.wakeupTicks.erase edge }
        history := w.history ++ [.wakeup w.curTick] }
    let w ← inside.foldlM (request period) called
    let consumer ← w.consumer.scheduleNextWakeup period w.curTick
    .ok { w with consumer }
  else .error .notCurrent

end World

/-- What can happen to the consumer: other events bring the simulation to a tick, they request a
wakeup, or the queue services the consumer's own event. -/
inductive Step where
  | advance (tick : Nat)
  | request (q : Request)
  | service (inside : List Request)

namespace World

/-- The queue takes the event off and sets the current tick before it calls `process`. -/
def step (period : Nat) (w : World) : Step → Except Violation World
  | .advance tick => .ok { w with curTick := tick }
  | .request q => w.request period q
  | .service inside =>
    match w.consumer.wakeupEvent with
    | none => .ok w
    | some when_ =>
      processCurrentEvent period inside
        { w with curTick := when_, consumer := { w.consumer with wakeupEvent := none } }

/-- Time does not run back nor past a scheduled event, and no request is for an earlier edge. -/
def Allows (period : Nat) (w : World) : Step → Prop
  | .advance tick => w.curTick ≤ tick ∧ ∀ when_, w.consumer.wakeupEvent = some when_ → tick ≤ when_
  | .request q => q.Allowed period w.curTick
  | .service inside =>
    ∃ when_, w.consumer.wakeupEvent = some when_ ∧ ∀ q ∈ inside, q.Allowed period when_

inductive Reached (period : Nat) : World → Prop
  | start : Reached period {}
  | step {w next : World} (s : Step) :
      Reached period w → w.Allows period s → w.step period s = .ok next → Reached period next

end World

/-! ## The set and the event stay in step -/

namespace Consumer

variable {period curTick : Nat} {c : Consumer}

/-- What holds at every moment, also inside of `wakeup`: the event, if there is one, is for one of
the pending edges. -/
structure Sound (period curTick : Nat) (c : Consumer) : Prop where
  aligned : c.em.Aligned period curTick
  edges : ∀ e ∈ c.wakeupTicks, period ∣ e
  ahead : ∀ e ∈ c.wakeupTicks, curTick ≤ e
  scheduled : ∀ when_, c.wakeupEvent = some when_ → when_ ∈ c.wakeupTicks

theorem clockEdge_fst (pos : 0 < period) (sound : c.Sound period curTick) (cycles : Nat) :
    (c.clockEdge period curTick cycles).1 = Library.clockEdge period curTick + period * cycles := by
  rw [clockEdge, Clocked.update_tick pos sound.aligned]

theorem Sound.updated (pos : 0 < period) (sound : c.Sound period curTick) (cycles : Nat) :
    (c.clockEdge period curTick cycles).2.Sound period curTick :=
  { sound with aligned := Clocked.update_aligned pos sound.aligned }

theorem Sound.insert (sound : c.Sound period curTick) {edge : Nat} (isEdge : period ∣ edge) (le : curTick ≤ edge) :
    Sound period curTick { c with wakeupTicks := insert edge c.wakeupTicks } where
  aligned := sound.aligned
  edges := by
    intro e member
    rcases Finset.mem_insert.mp member with rfl | old
    · exact isEdge
    · exact sound.edges e old
  ahead := by
    intro e member
    rcases Finset.mem_insert.mp member with rfl | old
    · exact le
    · exact sound.ahead e old
  scheduled := by
    intro when_ event
    exact Finset.mem_insert_of_mem (sound.scheduled when_ event)

theorem scheduleNextWakeup_eq (pos : 0 < period) (sound : c.Sound period curTick) :
    scheduleNextWakeup period curTick c =
      .ok { (c.clockEdge period curTick 0).2 with wakeupEvent := first c.wakeupTicks } := by
  have edge : (c.clockEdge period curTick 0).1 = Library.clockEdge period curTick := by
    rw [clockEdge_fst pos sound, mul_zero, add_zero]
  have ahead : ∀ e ∈ c.wakeupTicks, Library.clockEdge period curTick ≤ e := by
    intro e member
    exact clockEdge_le (sound.edges e member) (sound.ahead e member)
  have found : lowerBound (c.clockEdge period curTick 0).2.wakeupTicks
      (Library.clockEdge period curTick) = first c.wakeupTicks := lowerBound_eq_first ahead
  rw [scheduleNextWakeup]
  simp only [edge, found]
  cases next : first c.wakeupTicks with
  | none =>
    -- Nothing is pending, so nothing is scheduled.
    have idle : c.wakeupEvent = none := by
      rw [Option.eq_none_iff_forall_ne_some]
      intro when_ event
      have pending := sound.scheduled when_ event
      rw [first_eq_none_iff.mp next] at pending
      exact absurd pending (Finset.notMem_empty _)
    simp [clockEdge, ← idle]
  | some when_ =>
    obtain ⟨pending, least⟩ := first_eq_some_iff.mp next
    have notPast : ¬ when_ < curTick := by
      have le := sound.ahead when_ pending
      omega
    have notBefore : ¬ when_ < Library.clockEdge period curTick := by
      have le := ahead when_ pending
      omega
    simp only [notBefore, if_false]
    cases event : c.wakeupEvent with
    | none => simp [clockEdge, event, schedule, notPast]
    | some old =>
      have le : when_ ≤ old := least old (sound.scheduled old event)
      by_cases earlier : when_ < old
      · simp [clockEdge, event, reschedule, earlier, notPast]
      · have same : old = when_ := by omega
        simp [clockEdge, event, same]

theorem Sound.settle (pos : 0 < period) (sound : c.Sound period curTick) :
    Sound period curTick
      { (c.clockEdge period curTick 0).2 with wakeupEvent := first c.wakeupTicks } :=
  { sound.updated pos 0 with
    scheduled := fun _ event => (first_eq_some_iff.mp event).1 }

theorem request_spec (pos : 0 < period) (sound : c.Sound period curTick) {q : Request}
    (allowed : q.Allowed period curTick) :
    ∃ next, c.request period curTick q = .ok next ∧ next.Sound period curTick ∧
      next.wakeupTicks = insert (q.edge period curTick) c.wakeupTicks ∧
      next.wakeupEvent = first next.wakeupTicks := by
  cases q with
  | scheduleEvent timeDelta =>
    have isEdge : period ∣ Library.clockEdge period curTick + period * timeDelta :=
      dvd_add dvd_clockEdge (dvd_mul_right ..)
    have later : curTick ≤ Library.clockEdge period curTick + period * timeDelta :=
      (le_clockEdge pos).trans (Nat.le_add_right ..)
    have inserted := (sound.updated pos timeDelta).insert isEdge later
    refine ⟨_, ?_, inserted.settle pos, rfl, rfl⟩
    rw [request, scheduleEvent]
    simp only [clockEdge_fst pos sound]
    exact scheduleNextWakeup_eq pos inserted
  | scheduleEventAbsolute evtTime =>
    have isEdge : period ∣ Library.clockEdge period evtTime := dvd_clockEdge
    have later : curTick ≤ Library.clockEdge period evtTime :=
      (le_clockEdge pos).trans (allowed.trans (le_clockEdge pos))
    have inserted := sound.insert isEdge later
    exact ⟨_, scheduleNextWakeup_eq pos inserted, inserted.settle pos, rfl, rfl⟩

end Consumer

def outstanding (history : List Entry) : Finset Nat :=
  history.foldl (fun pending entry =>
    match entry with
    | .requested e => insert e pending
    | .wakeup e => pending.erase e) ∅

def wakeups (history : List Entry) : List Nat :=
  history.filterMap fun entry =>
    match entry with
    | .requested _ => none
    | .wakeup e => some e

section Histories

variable {history before after : List Entry} {e edge : Nat}

@[simp] theorem outstanding_requested :
    outstanding (history ++ [.requested e]) = insert e (outstanding history) := by
  simp [outstanding]

@[simp] theorem outstanding_wakeup :
    outstanding (history ++ [.wakeup e]) = (outstanding history).erase e := by
  simp [outstanding]

@[simp] theorem wakeups_requested : wakeups (history ++ [.requested e]) = wakeups history := by
  simp [wakeups]

@[simp] theorem wakeups_wakeup : wakeups (history ++ [.wakeup e]) = wakeups history ++ [e] := by
  simp [wakeups]

theorem snoc_split {x y : Entry} (split : history ++ [x] = before ++ y :: after) :
    (after = [] ∧ before = history ∧ y = x) ∨
      ∃ rest, after = rest ++ [x] ∧ history = before ++ y :: rest := by
  rcases eq_nil_or_concat after with rfl | ⟨rest, last, rfl⟩
  · obtain ⟨same, entry⟩ := append_inj' split rfl
    exact .inl ⟨rfl, same.symm, by simpa using entry.symm⟩
  · have regrouped : history ++ [x] = (before ++ y :: rest) ++ [last] := by
      rw [split]
      simp
    obtain ⟨same, entry⟩ := append_inj' regrouped rfl
    obtain rfl : x = last := by simpa using entry
    exact .inr ⟨rest, by simp, same⟩

theorem mem_outstanding_iff : e ∈ outstanding history ↔
    ∃ before after, history = before ++ .requested e :: after ∧ .wakeup e ∉ after := by
  induction history using List.reverseRecOn with
  | nil => simp [outstanding]
  | append_singleton history x ih =>
    cases x with
    | requested edge =>
      rw [outstanding_requested, Finset.mem_insert, ih]
      constructor
      · rintro (rfl | ⟨before, after, rfl, unserved⟩)
        · exact ⟨history, [], rfl, by simp⟩
        · exact ⟨before, after ++ [.requested edge], by simp, by simp [unserved]⟩
      · rintro ⟨before, after, split, unserved⟩
        rcases snoc_split split with ⟨-, -, same⟩ | ⟨rest, rfl, earlier⟩
        · cases same
          exact .inl rfl
        · exact .inr ⟨before, rest, earlier, fun served => unserved (by simp [served])⟩
    | wakeup edge =>
      rw [outstanding_wakeup, Finset.mem_erase, ih]
      constructor
      · rintro ⟨other, before, after, rfl, unserved⟩
        exact ⟨before, after ++ [.wakeup edge], by simp, by simp [unserved, other]⟩
      · rintro ⟨before, after, split, unserved⟩
        rcases snoc_split split with ⟨-, -, same⟩ | ⟨rest, rfl, earlier⟩
        · cases same
        · refine ⟨?_, before, rest, earlier, fun served => unserved (by simp [served])⟩
          rintro rfl
          exact unserved (by simp)

def Served (history : List Entry) : Prop :=
  ∀ before after e, history = before ++ .wakeup e :: after → e ∈ outstanding before

theorem Served.requested (served : Served history) : Served (history ++ [.requested edge]) := by
  intro before after e split
  rcases snoc_split split with ⟨-, -, same⟩ | ⟨rest, -, earlier⟩
  · cases same
  · exact served before rest e earlier

theorem Served.wakeup (served : Served history) (pending : edge ∈ outstanding history) :
    Served (history ++ [.wakeup edge]) := by
  intro before after e split
  rcases snoc_split split with ⟨-, rfl, same⟩ | ⟨rest, -, earlier⟩
  · cases same
    exact pending
  · exact served before rest e earlier

theorem Served.requested_between (served : Served history)
    (split : history = before ++ .wakeup e :: after) (again : .wakeup e ∈ after) :
    .requested e ∈ after := by
  obtain ⟨between, rest, rfl⟩ := append_of_mem again
  have pending := served (before ++ .wakeup e :: between) rest e (by rw [split]; simp)
  obtain ⟨earlier, later, position, unserved⟩ := mem_outstanding_iff.mp pending
  -- The request cannot stand before the first wakeup, which would then come after it.
  by_contra absent
  have inBetween : Entry.requested e ∉ between := fun member => absent (by simp [member])
  rcases append_eq_append_iff.mp position with ⟨gap, rfl, tail⟩ | ⟨gap, rfl, tail⟩
  · cases gap with
    | nil => simp at tail
    | cons head gap =>
      obtain ⟨rfl, rfl⟩ := List.cons.inj tail
      exact inBetween (by simp)
  · cases gap with
    | nil => simp at tail
    | cons head gap =>
      obtain ⟨rfl, rfl⟩ := List.cons.inj tail
      exact unserved (by simp)

end Histories

namespace World

variable {period : Nat} {w : World}

structure Sound (period : Nat) (w : World) : Prop where
  consumer : w.consumer.Sound period w.curTick
  pending : w.consumer.wakeupTicks = outstanding w.history
  served : Served w.history
  ordered : (wakeups w.history).Pairwise (· ≤ ·)
  past : ∀ e ∈ wakeups w.history, e ≤ w.curTick

theorem Sound.request (pos : 0 < period) (sound : w.Sound period) {q : Request}
    (allowed : q.Allowed period w.curTick) :
    ∃ next, w.request period q = .ok next ∧ next.Sound period ∧ next.curTick = w.curTick ∧
      next.consumer.wakeupEvent = first next.consumer.wakeupTicks := by
  obtain ⟨consumer, called, kept, ticks, event⟩ :=
    Consumer.request_spec pos sound.consumer allowed
  refine ⟨{ w with consumer, history := w.history ++ [.requested (q.edge period w.curTick)] },
    ?_, ?_, rfl, event⟩
  · rw [World.request, called]
    rfl
  · exact
      { consumer := kept
        pending := by rw [ticks, sound.pending, outstanding_requested]
        served := sound.served.requested
        ordered := by rw [wakeups_requested]; exact sound.ordered
        past := by rw [wakeups_requested]; exact sound.past }

theorem Sound.requests (pos : 0 < period) (sound : w.Sound period) {inside : List Request}
    (allowed : ∀ q ∈ inside, q.Allowed period w.curTick) :
    ∃ next, inside.foldlM (World.request period) w = .ok next ∧ next.Sound period ∧
      next.curTick = w.curTick := by
  induction inside generalizing w with
  | nil => exact ⟨w, rfl, sound, rfl⟩
  | cons q inside ih =>
    obtain ⟨next, called, kept, time, -⟩ := sound.request pos (allowed q mem_cons_self)
    obtain ⟨last, rest, kept', time'⟩ := ih kept
      (fun q' member => time ▸ allowed q' (mem_cons_of_mem _ member))
    refine ⟨last, ?_, kept', time'.trans time⟩
    rw [foldlM_cons, called]
    exact rest

theorem Sound.later (sound : w.Sound period) {tick : Nat} (le : w.curTick ≤ tick)
    (early : ∀ e ∈ w.consumer.wakeupTicks, tick ≤ e) : Sound period { w with curTick := tick } where
  consumer := { sound.consumer with
    aligned := sound.consumer.aligned.later le
    ahead := early }
  pending := sound.pending
  served := sound.served
  ordered := sound.ordered
  past := fun e woken => (sound.past e woken).trans le

theorem Sound.call (sound : w.Sound period) (pending : w.curTick ∈ w.consumer.wakeupTicks)
    {em : Clocked} (aligned : em.Aligned period w.curTick) :
    Sound period
      { w with
        consumer := { em, wakeupTicks := w.consumer.wakeupTicks.erase w.curTick, wakeupEvent := none }
        history := w.history ++ [.wakeup w.curTick] } where
  consumer :=
    { aligned := aligned
      edges := fun e member => sound.consumer.edges e (Finset.mem_of_mem_erase member)
      ahead := fun e member => sound.consumer.ahead e (Finset.mem_of_mem_erase member)
      scheduled := by simp }
  pending := by simp only [sound.pending, outstanding_wakeup]
  served := sound.served.wakeup (sound.pending ▸ pending)
  ordered := by
    rw [wakeups_wakeup, pairwise_append]
    exact ⟨sound.ordered, pairwise_singleton .., by simpa using sound.past⟩
  past := by
    intro e woken
    rw [wakeups_wakeup, mem_append, mem_singleton] at woken
    rcases woken with earlier | rfl
    · exact sound.past e earlier
    · exact le_refl _

theorem Sound.processCurrentEvent (pos : 0 < period) (sound : w.Sound period)
    (current : first w.consumer.wakeupTicks = some w.curTick)
    (idle : w.consumer.wakeupEvent = none) {inside : List Request}
    (allowed : ∀ q ∈ inside, q.Allowed period w.curTick) :
    ∃ next, w.processCurrentEvent period inside = .ok next ∧ next.Sound period ∧
      next.consumer.wakeupEvent = first next.consumer.wakeupTicks := by
  have pending := (first_eq_some_iff.mp current).1
  have edge : (w.consumer.clockEdge period w.curTick 0).1 = w.curTick := by
    rw [Consumer.clockEdge_fst pos sound.consumer, mul_zero, add_zero,
      clockEdge_of_dvd (sound.consumer.edges _ pending)]
  have called := sound.call pending (Clocked.update_aligned pos sound.consumer.aligned)
  obtain ⟨woken, requests, kept, -⟩ := called.requests pos allowed
  refine ⟨{ woken with
    consumer := { (woken.consumer.clockEdge period woken.curTick 0).2 with
      wakeupEvent := first woken.consumer.wakeupTicks } }, ?_, ?_, rfl⟩
  · rw [World.processCurrentEvent]
    simp only [edge, current, if_true]
    rw [Consumer.clockEdge, idle, requests]
    simp only [bind, Except.bind, Consumer.scheduleNextWakeup_eq pos kept.consumer]
  · exact { kept with consumer := kept.consumer.settle pos }

/-- Between the events of the queue the consumer's event is at the earliest pending edge. -/
structure Settled (period : Nat) (w : World) : Prop where
  sound : w.Sound period
  earliest : w.consumer.wakeupEvent = first w.consumer.wakeupTicks

theorem Settled.step (pos : 0 < period) (settled : w.Settled period) {s : Step}
    (allowed : w.Allows period s) : ∃ next, w.step period s = .ok next ∧ next.Settled period := by
  obtain ⟨sound, earliest⟩ := settled
  cases s with
  | advance tick =>
    obtain ⟨le, early⟩ := allowed
    refine ⟨_, rfl, sound.later le ?_, earliest⟩
    intro e member
    cases event : first w.consumer.wakeupTicks with
    | none => simp [first_eq_none_iff.mp event] at member
    | some when_ =>
      exact (early when_ (earliest.trans event)).trans ((first_eq_some_iff.mp event).2 e member)
  | request q =>
    obtain ⟨next, called, kept, -, event⟩ := sound.request pos allowed
    exact ⟨next, called, kept, event⟩
  | service inside =>
    obtain ⟨when_, event, inner⟩ := allowed
    have current : first w.consumer.wakeupTicks = some when_ := earliest ▸ event
    obtain ⟨pending, least⟩ := first_eq_some_iff.mp current
    have reached := sound.later (sound.consumer.ahead when_ pending) least
    have taken : Sound period
        { w with curTick := when_, consumer := { w.consumer with wakeupEvent := none } } :=
      { reached with consumer := { reached.consumer with scheduled := by simp } }
    obtain ⟨next, called, kept, event'⟩ := taken.processCurrentEvent pos current rfl inner
    refine ⟨next, ?_, kept, event'⟩
    rw [World.step, event]
    exact called

theorem Reached.settled (pos : 0 < period) (reached : w.Reached period) : w.Settled period := by
  induction reached with
  | start =>
    refine ⟨⟨⟨⟨dvd_zero _, by simpa using pos⟩, by simp, by simp, by simp⟩, rfl, ?_, ?_, ?_⟩, ?_⟩
    · intro before after e split
      simp at split
    · exact List.Pairwise.nil
    · simp [wakeups]
    · exact (first_eq_none_iff.mpr rfl).symm
  | step s _ allowed called ih =>
    obtain ⟨next, called', settled⟩ := ih.step pos allowed
    rw [called] at called'
    cases called'
    exact settled

/-- No assertion fails, a request is answered by a wakeup at its edge or is still pending, every
wakeup answers a request, an edge is woken again only if it is requested during or after its wakeup,
and the event is at the earliest pending edge. -/
theorem reached_wakeups (period : Nat) (pos : 0 < period) (w : World) (reached : w.Reached period) :
    (∀ s, w.Allows period s → ∃ next, w.step period s = .ok next) ∧
      (∀ e before after, w.history = before ++ .requested e :: after →
        .wakeup e ∈ after ∨ (e ∈ w.consumer.wakeupTicks ∧ w.curTick ≤ e)) ∧
      (∀ e before after, w.history = before ++ .wakeup e :: after →
        .requested e ∈ before ∧ (.requested e ∉ after → .wakeup e ∉ after)) ∧
      (wakeups w.history).Pairwise (· ≤ ·) ∧
      w.consumer.wakeupEvent = first w.consumer.wakeupTicks ∧
      ∀ e, e ∈ w.consumer.wakeupTicks ↔
        ∃ before after, w.history = before ++ .requested e :: after ∧ .wakeup e ∉ after := by
  have settled := reached.settled pos
  have sound := settled.sound
  refine ⟨?_, ?_, ?_, sound.ordered, settled.earliest, ?_⟩
  · intro s allowed
    obtain ⟨next, called, -⟩ := settled.step pos allowed
    exact ⟨next, called⟩
  · intro e before after split
    by_cases woken : .wakeup e ∈ after
    · exact .inl woken
    · have pending : e ∈ w.consumer.wakeupTicks := by
        rw [sound.pending]
        exact mem_outstanding_iff.mpr ⟨before, after, split, woken⟩
      exact .inr ⟨pending, sound.consumer.ahead e pending⟩
  · intro e before after split
    have pending := sound.served before after e split
    obtain ⟨earlier, between, rfl, -⟩ := mem_outstanding_iff.mp pending
    refine ⟨by simp, ?_⟩
    intro once again
    exact once (sound.served.requested_between split again)
  · intro e
    rw [sound.pending]
    exact mem_outstanding_iff

def waiting : World where
  consumer := { wakeupTicks := {1000}, wakeupEvent := some 1000 }
  history := [.requested 1000]

theorem waiting_reached : waiting.Reached 1000 :=
  .step (.request (.scheduleEvent 1)) .start trivial (by decide +kernel)

def requestedInside : World where
  curTick := 1000
  consumer := { em := { tick := 1000 }, wakeupTicks := {1000}, wakeupEvent := some 1000 }
  history := [.requested 1000, .wakeup 1000, .requested 1000]

theorem requestedInside_reached : requestedInside.Reached 1000 :=
  .step (.service [.scheduleEvent 0]) waiting_reached ⟨1000, rfl, by simp [Request.Allowed]⟩
    (by decide +kernel)

theorem reached_wakeups_inside :
    requestedInside.Reached 1000 ∧
      (∀ s, requestedInside.Allows 1000 s → ∃ next, requestedInside.step 1000 s = .ok next) ∧
      requestedInside.consumer.wakeupEvent = first requestedInside.consumer.wakeupTicks := by
  have run := reached_wakeups 1000 (by decide) requestedInside requestedInside_reached
  exact ⟨requestedInside_reached, run.1, run.2.2.2.2.1⟩

/-- An edge that is not requested during its wakeup but after it, in the same tick, is woken a second
time. -/
theorem woken_twice :
    ∃ w : World, w.Reached 1000 ∧
      [Step.request (.scheduleEvent 1), .service [], .request (.scheduleEvent 0),
        .service []].foldlM (step 1000) {} = .ok w ∧
      w.history = [.requested 1000, .wakeup 1000, .requested 1000, .wakeup 1000] := by
  have woken : Reached 1000
      { curTick := 1000, consumer := { em := { tick := 1000 } },
        history := [.requested 1000, .wakeup 1000] } :=
    .step (.service []) waiting_reached ⟨1000, rfl, by simp⟩ (by decide +kernel)
  have again : requestedInside.Reached 1000 :=
    .step (.request (.scheduleEvent 0)) woken trivial (by decide +kernel)
  refine ⟨{ requestedInside with
    consumer := { em := { tick := 1000 } }
    history := [.requested 1000, .wakeup 1000, .requested 1000, .wakeup 1000] }, ?_, ?_, rfl⟩
  · exact .step (.service []) again ⟨1000, rfl, by simp⟩ (by decide +kernel)
  · decide +kernel

end World

end Resister.Sim
