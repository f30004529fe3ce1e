import Mathlib
import Resister.Base.Bitfield
import Resister.Base.Logging

namespace Resister.Mem

open Resister.Base List

def maxTick : Nat :=
  0xffffffffffffffff

structure Packet where
  addr : Addr
  isSecure : Bool
  isExpressSnoop : Bool
  deriving DecidableEq, Repr

def Packet.matchAddr (p q : Packet) : Bool :=
  p.addr == q.addr && p.isSecure == q.isSecure

/-- A packet and its tick. The serial number of the call that queued it is not in the source; it
tells apart two calls for the same packet. -/
structure DeferredPacket where
  tick : Nat
  pkt : Packet
  serial : Nat
  deriving DecidableEq, Repr

structure PacketQueue where
  transmitList : List DeferredPacket
  sendEvent : Option Nat
  waitingOnRetry : Bool
  forceOrder : Bool
  disableSanityCheck : Bool
  deriving DecidableEq, Repr

namespace PacketQueue

def make (forceOrder disableSanityCheck : Bool) : PacketQueue :=
  ⟨[], none, false, forceOrder, disableSanityCheck⟩

def deferredPacketReady (q : PacketQueue) (now : Nat) : Bool :=
  match q.transmitList with
  | [] => false
  | front :: _ => decide (front.tick ≤ now)

def deferredPacketReadyTime (q : PacketQueue) : Nat :=
  match q.transmitList with
  | [] => maxTick
  | front :: _ => front.tick

def schedule (q : PacketQueue) (now when : Nat) : Except Fault PacketQueue := do
  check (decide (now ≤ when))
  check q.sendEvent.isNone
  return { q with sendEvent := some when }

def reschedule (q : PacketQueue) (now when : Nat) : Except Fault PacketQueue := do
  check (decide (now ≤ when))
  check q.sendEvent.isSome
  return { q with sendEvent := some when }

/-- At the last tick nothing is scheduled; the source only looks whether it is done draining. -/
def schedSendEvent (q : PacketQueue) (now when : Nat) : Except Fault PacketQueue :=
  if q.waitingOnRetry then do
    check q.sendEvent.isNone
    return q
  else if when ≠ maxTick then
    let time := max when ((now + 1) % 2 ^ 64)
    match q.sendEvent with
    | none => q.schedule now time
    | some planned => if time < planned then q.reschedule now time else .ok q
  else .ok q

/-- The search from the end, over the list in reverse: the packet goes right behind the first one
met that stays in front of it. -/
def emplaceBehind (stays : DeferredPacket → Bool) (dp : DeferredPacket) :
    List DeferredPacket → Option (List DeferredPacket)
  | [] => none
  | e :: rest => if stays e then some (dp :: e :: rest) else (emplaceBehind stays dp rest).map (e :: ·)

def staysInFront (q : PacketQueue) (dp e : DeferredPacket) : Bool :=
  (q.forceOrder && e.pkt.matchAddr dp.pkt) || decide (e.tick ≤ dp.tick)

def schedSendTiming (q : PacketQueue) (now : Nat) (dp : DeferredPacket) : Except Fault PacketQueue := do
  check (decide (now ≤ dp.tick))
  check !dp.pkt.isExpressSnoop
  panicIf (!q.disableSanityCheck && decide (128 < q.transmitList.length))
    "Packet queue %s has grown beyond 128 packets\n"
  match emplaceBehind (q.staysInFront dp) dp q.transmitList.reverse with
  | some list => return { q with transmitList := list.reverse }
  | none => schedSendEvent { q with transmitList := dp :: q.transmitList } now dp.tick

end PacketQueue

/-- What the peer does with a packet: it refuses it, or accepts it, and accepting may make the owner
of the queue schedule further packets. -/
inductive Answer where
  | refuse
  | accept (calls : List (Packet × Nat))

/-- A queue and its peer. `retryOwed` says that the peer has refused a packet and not yet asked for
a retry. The lists record the packets scheduled, those accepted, and every attempt with its tick. -/
structure World where
  queue : PacketQueue
  curTick : Nat
  retryOwed : Bool
  scheduled : List DeferredPacket
  accepted : List DeferredPacket
  attempts : List (DeferredPacket × Nat)

namespace World

def schedSendTiming (w : World) (call : Packet × Nat) : Except Fault World := do
  let dp : DeferredPacket := ⟨call.2, call.1, w.scheduled.length⟩
  let queue ← w.queue.schedSendTiming w.curTick dp
  return { w with queue := queue, scheduled := w.scheduled ++ [dp] }

def takeOff (w : World) (dp : DeferredPacket) (rest : List DeferredPacket) : World :=
  { w with queue := { w.queue with transmitList := rest }, attempts := w.attempts ++ [(dp, w.curTick)] }

def putBack (w : World) (dp : DeferredPacket) : World :=
  { w with
    queue := { w.queue with waitingOnRetry := true, transmitList := dp :: w.queue.transmitList }
    retryOwed := true }

def afterSend (w : World) : Except Fault World := do
  let queue ←
    PacketQueue.schedSendEvent { w.queue with waitingOnRetry := false } w.curTick w.queue.deferredPacketReadyTime
  return { w with queue := queue }

def sendDeferredPacket (w : World) (answer : Answer) : Except Fault World := do
  check !w.queue.waitingOnRetry
  check (w.queue.deferredPacketReady w.curTick)
  match w.queue.transmitList with
  | [] => throw .undefined
  | dp :: rest =>
    match answer with
    | .refuse => return (w.takeOff dp rest).putBack dp
    | .accept calls =>
      let after ← calls.foldlM schedSendTiming { w.takeOff dp rest with accepted := w.accepted ++ [dp] }
      after.afterSend

def processSendEvent (w : World) (answer : Answer) : Except Fault World := do
  check !w.queue.waitingOnRetry
  w.sendDeferredPacket answer

def retry (w : World) (answer : Answer) : Except Fault World := do
  check w.queue.waitingOnRetry
  sendDeferredPacket { w with queue := { w.queue with waitingOnRetry := false }, retryOwed := false } answer

inductive Action where
  | schedSendTiming (call : Packet × Nat)
  | sendEvent (answer : Answer)
  | retry (answer : Answer)
  | advance (time : Nat)

def perform (w : World) : Action → Except Fault World
  | .schedSendTiming call => w.schedSendTiming call
  | .sendEvent answer => processSendEvent { w with queue := { w.queue with sendEvent := none } } answer
  | .retry answer => w.retry answer
  | .advance time => .ok { w with curTick := time }

/-- Calls, with `queued` packets in the list, none of them early and none with more than 128 packets
in the list. -/
def Timely (w : World) (queued : Nat) (calls : List (Packet × Nat)) : Prop :=
  (∀ call ∈ calls, w.curTick ≤ call.2) ∧
    (w.queue.disableSanityCheck = true ∨ ∀ i < calls.length, queued + i ≤ 128)

def Answer.calls : Answer → List (Packet × Nat)
  | .refuse => []
  | .accept calls => calls

/-- What the rest of the system may do: events happen at their tick and no time passes them by, and
only a peer that has refused a packet asks for a retry. -/
def Possible (w : World) : Action → Prop
  | .schedSendTiming call => w.Timely w.queue.transmitList.length [call]
  | .sendEvent answer =>
    w.queue.sendEvent = some w.curTick ∧ w.Timely (w.queue.transmitList.length - 1) (Answer.calls answer)
  | .retry answer => w.retryOwed = true ∧ w.Timely (w.queue.transmitList.length - 1) (Answer.calls answer)
  | .advance time => w.curTick ≤ time ∧ ∀ planned ∈ w.queue.sendEvent, time ≤ planned

def start (forceOrder disableSanityCheck : Bool) (time : Nat) : World :=
  ⟨PacketQueue.make forceOrder disableSanityCheck, time, false, [], [], []⟩

/-- The states between the operations, when each action is one `allowed` picks out. -/
inductive Reached (allowed : World → Action → Prop) : World → Prop where
  | start (forceOrder disableSanityCheck : Bool) (time : Nat) (before : time < maxTick) :
      Reached allowed (start forceOrder disableSanityCheck time)
  | step {w next : World} {action : Action} (reached : Reached allowed w) (possible : w.Possible action)
      (meets : allowed w action) (run : w.perform action = .ok next) : Reached allowed next

def ordinary (call : Packet × Nat) : Prop :=
  call.1.isExpressSnoop = false ∧ call.2 < maxTick

def Ordinary : Action → Prop
  | .schedSendTiming call => ordinary call
  | .sendEvent answer => ∀ call ∈ Answer.calls answer, ordinary call
  | .retry answer => ∀ call ∈ Answer.calls answer, ordinary call
  | .advance time => time < maxTick

instance (w : World) (queued : Nat) (calls : List (Packet × Nat)) : Decidable (w.Timely queued calls) :=
  inferInstanceAs (Decidable (_ ∧ _))

instance (call : Packet × Nat) : Decidable (ordinary call) :=
  inferInstanceAs (Decidable (_ ∧ _))

instance (w : World) (action : Action) : Decidable (w.Possible action) :=
  match action with
  | .schedSendTiming call => inferInstanceAs (Decidable (w.Timely w.queue.transmitList.length [call]))
  | .sendEvent _ => inferInstanceAs (Decidable (_ ∧ _))
  | .retry _ => inferInstanceAs (Decidable (_ ∧ _))
  | .advance _ => inferInstanceAs (Decidable (_ ∧ _))

instance (action : Action) : Decidable (Ordinary action) :=
  match action with
  | .schedSendTiming call => inferInstanceAs (Decidable (ordinary call))
  | .sendEvent answer => inferInstanceAs (Decidable (∀ call ∈ Answer.calls answer, ordinary call))
  | .retry answer => inferInstanceAs (Decidable (∀ call ∈ Answer.calls answer, ordinary call))
  | .advance time => inferInstanceAs (Decidable (time < maxTick))

def follow (w : World) : List Action → Option World
  | [] => some w
  | action :: rest =>
    if w.Possible action ∧ Ordinary action then
      match w.perform action with
      | .ok next => next.follow rest
      | .error _ => none
    else none

theorem Reached.follow {w last : World} (reached : Reached (fun _ action => Ordinary action) w)
    (actions : List Action) (run : w.follow actions = some last) :
    Reached (fun _ action => Ordinary action) last := by
  induction actions generalizing w with
  | nil =>
    cases run
    exact reached
  | cons action rest ih =>
    rw [World.follow] at run
    split at run
    · rename_i both
      split at run
      · rename_i next performed
        exact ih (reached.step both.1 both.2 performed) run
      · cases run
    · cases run

end World

namespace PacketQueue

theorem emplaceBehind_none {stays : DeferredPacket → Bool} {dp : DeferredPacket} {list : List DeferredPacket}
    (missed : emplaceBehind stays dp list = none) : ∀ e ∈ list, stays e = false := by
  induction list with
  | nil =>
    intro e member
    cases member
  | cons e rest ih =>
    rw [emplaceBehind] at missed
    split at missed
    · cases missed
    · rename_i passes
      intro x member
      rcases mem_cons.mp member with rfl | later
      · exact Bool.eq_false_iff.mpr passes
      · exact ih (Option.map_eq_none_iff.mp missed) x later

theorem emplaceBehind_some {stays : DeferredPacket → Bool} {dp : DeferredPacket}
    {list result : List DeferredPacket} (found : emplaceBehind stays dp list = some result) :
    ∃ passed e rest, list = passed ++ e :: rest ∧ result = passed ++ dp :: e :: rest ∧ stays e = true ∧
      ∀ x ∈ passed, stays x = false := by
  induction list generalizing result with
  | nil => cases found
  | cons e rest ih =>
    rw [emplaceBehind] at found
    split at found
    · rename_i stop
      cases found
      refine ⟨[], e, rest, rfl, rfl, stop, ?_⟩
      intro x member
      cases member
    · rename_i passes
      obtain ⟨inner, below, rfl⟩ := Option.map_eq_some_iff.mp found
      obtain ⟨passed, stop, tail, rfl, rfl, stops, passing⟩ := ih below
      refine ⟨e :: passed, stop, tail, rfl, rfl, stops, ?_⟩
      intro x member
      rcases mem_cons.mp member with rfl | later
      · exact Bool.eq_false_iff.mpr passes
      · exact passing x later

def Planned (q : PacketQueue) (now : Nat) : Prop :=
  ∀ planned, q.sendEvent = some planned →
    now ≤ planned ∧ ∃ front rest, q.transmitList = front :: rest ∧ front.tick ≤ planned

def Waiting (q : PacketQueue) (now : Nat) : Prop :=
  q.waitingOnRetry = true →
    q.sendEvent = none ∧ ∃ front rest, q.transmitList = front :: rest ∧ front.tick ≤ now

theorem schedSendEvent_plans {q : PacketQueue} {now when : Nat} (free : q.waitingOnRetry = false)
    (early : when < maxTick) (present : now < maxTick)
    (planned : ∀ time, q.sendEvent = some time → now ≤ time ∧ when ≤ time) :
    ∃ time, q.schedSendEvent now when = .ok { q with sendEvent := some time } ∧ now ≤ time ∧ when ≤ time := by
  have unwrapped : (now + 1) % 2 ^ 64 = now + 1 := by
    apply Nat.mod_eq_of_lt
    exact Nat.succ_lt_succ present
  have later : now ≤ max when (now + 1) := le_trans (Nat.le_succ now) (le_max_right _ _)
  unfold schedSendEvent
  rw [if_neg (by simp [free]), if_pos early.ne, unwrapped]
  cases event : q.sendEvent with
  | none =>
    refine ⟨max when (now + 1), ?_, later, le_max_left _ _⟩
    simp only [schedule, event, later, decide_true, Option.isNone_none]
    rfl
  | some time =>
    obtain ⟨present, behind⟩ := planned time event
    dsimp only
    split
    · refine ⟨max when (now + 1), ?_, later, le_max_left _ _⟩
      simp only [reschedule, event, later, decide_true, Option.isSome_some]
      rfl
    · refine ⟨time, ?_, present, behind⟩
      rw [← event]

/-- A queue after a packet has gone in between `front` and `back`. -/
structure Inserted (q r : PacketQueue) (now : Nat) (dp : DeferredPacket) (front back : List DeferredPacket) :
    Prop where
  split : q.transmitList = front ++ back
  list : r.transmitList = front ++ dp :: back
  waiting : r.waitingOnRetry = q.waitingOnRetry
  order : r.forceOrder = q.forceOrder
  sanity : r.disableSanityCheck = q.disableSanityCheck
  passed : ∀ e ∈ back, q.staysInFront dp e = false
  behind : ∀ init e, front = init ++ [e] → q.staysInFront dp e = true ∧ r.sendEvent = q.sendEvent
  first : front = [] → q.waitingOnRetry = false ∧ ∃ time, r.sendEvent = some time ∧ now ≤ time ∧ dp.tick ≤ time

theorem staysInFront_of_tick {q : PacketQueue} {dp e : DeferredPacket} (before : e.tick ≤ dp.tick) :
    q.staysInFront dp e = true := by
  simp [staysInFront, before]

theorem tick_lt_of_passed {q : PacketQueue} {dp e : DeferredPacket} (passed : q.staysInFront dp e = false) :
    dp.tick < e.tick := by
  simp only [staysInFront, Bool.or_eq_false_iff, decide_eq_false_iff_not, not_le] at passed
  exact passed.2

theorem schedSendTiming_inserts {q : PacketQueue} {now : Nat} {dp : DeferredPacket} (present : now < maxTick)
    (planned : q.Planned now) (waiting : q.Waiting now) (due : now ≤ dp.tick) (early : dp.tick < maxTick)
    (queueable : dp.pkt.isExpressSnoop = false) (room : q.disableSanityCheck = true ∨ q.transmitList.length ≤ 128) :
    ∃ r front back, q.schedSendTiming now dp = .ok r ∧ q.Inserted r now dp front back := by
  have sane : (!q.disableSanityCheck && decide (128 < q.transmitList.length)) = false := by
    rcases room with off | small
    · simp [off]
    · simp [Nat.not_lt.mpr small]
  unfold schedSendTiming
  simp only [check, due, queueable, panicIf, sane, decide_true, Bool.not_false, if_true, Bool.false_eq_true, if_false,
    ok_andThen]
  cases search : emplaceBehind (q.staysInFront dp) dp q.transmitList.reverse with
  | some result =>
    obtain ⟨passed, e, rest, before, after, stays, passing⟩ := emplaceBehind_some search
    have split : q.transmitList = (rest.reverse ++ [e]) ++ passed.reverse := by
      rw [← reverse_reverse q.transmitList, before]
      simp
    refine ⟨_, rest.reverse ++ [e], passed.reverse, rfl, ⟨split, ?_, rfl, rfl, rfl, ?_, ?_, ?_⟩⟩
    · rw [after]
      simp
    · intro x member
      exact passing x (mem_reverse.mp member)
    · intro init last same
      have last_eq : e = last := (append_inj' same rfl).2 |> singleton_injective
      rw [← last_eq]
      exact ⟨stays, rfl⟩
    · intro empty
      simp at empty
  | none =>
    have passing : ∀ e ∈ q.transmitList, q.staysInFront dp e = false := by
      intro e member
      exact emplaceBehind_none search e (mem_reverse.mpr member)
    have free : q.waitingOnRetry = false := by
      apply Bool.eq_false_iff.mpr
      intro held
      obtain ⟨_, front, rest, list, past⟩ := waiting held
      have stays : q.staysInFront dp front = true := staysInFront_of_tick (le_trans past due)
      rw [passing front (by rw [list]; exact mem_cons_self)] at stays
      cases stays
    have behind : ∀ time, q.sendEvent = some time → now ≤ time ∧ dp.tick ≤ time := by
      intro time event
      obtain ⟨later, front, rest, list, ready⟩ := planned time event
      have less := tick_lt_of_passed (passing front (by rw [list]; exact mem_cons_self))
      exact ⟨later, le_trans less.le ready⟩
    obtain ⟨time, run, later, ready⟩ :=
      schedSendEvent_plans (q := { q with transmitList := dp :: q.transmitList }) free early present behind
    refine ⟨_, [], q.transmitList, run, ⟨rfl, rfl, rfl, rfl, rfl, passing, ?_, ?_⟩⟩
    · intro init last same
      simp at same
    · intro _
      exact ⟨free, time, rfl, later, ready⟩

theorem Inserted.planned {q r : PacketQueue} {now : Nat} {dp : DeferredPacket} {front back : List DeferredPacket}
    (inserted : q.Inserted r now dp front back) (planned : q.Planned now) : r.Planned now := by
  rcases eq_nil_or_concat' front with rfl | ⟨init, e, rfl⟩
  · obtain ⟨_, time, event, later, ready⟩ := inserted.first rfl
    intro other same
    rw [event] at same
    cases same
    exact ⟨later, dp, back, inserted.list, ready⟩
  · obtain ⟨_, event⟩ := inserted.behind init e rfl
    intro time same
    rw [event] at same
    obtain ⟨later, first, rest, list, ready⟩ := planned time same
    refine ⟨later, first, ?_⟩
    rw [inserted.split] at list
    rw [inserted.list]
    -- the first packet is still the first, whether or not it is the only one in front
    cases init with
    | nil =>
      cases list
      exact ⟨_, rfl, ready⟩
    | cons head tail =>
      cases list
      exact ⟨_, rfl, ready⟩

theorem Inserted.stillWaiting {q r : PacketQueue} {now : Nat} {dp : DeferredPacket}
    {front back : List DeferredPacket} (inserted : q.Inserted r now dp front back) (waiting : q.Waiting now) :
    r.Waiting now := by
  intro held
  rw [inserted.waiting] at held
  obtain ⟨idle, first, rest, list, past⟩ := waiting held
  rcases eq_nil_or_concat' front with rfl | ⟨init, e, rfl⟩
  · obtain ⟨free, _⟩ := inserted.first rfl
    rw [free] at held
    cases held
  · obtain ⟨_, event⟩ := inserted.behind init e rfl
    refine ⟨event.trans idle, first, ?_⟩
    rw [inserted.split] at list
    rw [inserted.list]
    cases init with
    | nil =>
      cases list
      exact ⟨_, rfl, past⟩
    | cons head tail =>
      cases list
      exact ⟨_, rfl, past⟩

end PacketQueue

namespace World

/-! ## What a run keeps -/

/-- `a` has to leave before `b`: with forced order if they match and `a` was scheduled first, without
it by tick and then by the order of the calls. -/
def Precedes (forceOrder : Bool) (a b : DeferredPacket) : Prop :=
  if forceOrder then a.pkt.matchAddr b.pkt = true → a.serial < b.serial
  else a.tick < b.tick ∨ a.tick = b.tick ∧ a.serial < b.serial

theorem matchAddr_comm (p q : Packet) : p.matchAddr q = q.matchAddr p := by
  unfold Packet.matchAddr
  rw [BEq.comm, BEq.comm (a := p.isSecure)]

theorem pairwise_insert {α : Type} {R : α → α → Prop} {before after : List α} {x : α}
    (pairs : (before ++ after).Pairwise R) (left : ∀ a ∈ before, R a x) (right : ∀ b ∈ after, R x b) :
    (before ++ x :: after).Pairwise R := by
  obtain ⟨first, second, across⟩ := pairwise_append.mp pairs
  refine pairwise_append.mpr ⟨first, pairwise_cons.mpr ⟨right, second⟩, ?_⟩
  intro a member b later
  rcases mem_cons.mp later with rfl | later
  · exact left a member
  · exact across a member b later

/-- The order the packets leave in, with the books: what was scheduled has been accepted or is in the
list, once. -/
structure Recorded (w : World) : Prop where
  pairs : (w.accepted ++ w.queue.transmitList).Pairwise (Precedes w.queue.forceOrder)
  past : ∀ dp ∈ w.accepted, dp.tick ≤ w.curTick
  ledger : (w.accepted ++ w.queue.transmitList).Perm w.scheduled
  serials : w.scheduled.map DeferredPacket.serial = List.range w.scheduled.length
  punctual : ∀ attempt ∈ w.attempts, attempt.1.tick ≤ attempt.2
  early : ∀ dp ∈ w.queue.transmitList, dp.tick < maxTick
  present : w.curTick < maxTick

theorem Recorded.serial_lt {w : World} (recorded : w.Recorded) {dp : DeferredPacket}
    (member : dp ∈ w.accepted ++ w.queue.transmitList) : dp.serial < w.scheduled.length := by
  have listed : dp.serial ∈ w.scheduled.map DeferredPacket.serial :=
    mem_map_of_mem (recorded.ledger.mem_iff.mp member)
  rw [recorded.serials] at listed
  exact mem_range.mp listed

theorem Recorded.before_inserted {w : World} {r : PacketQueue} {dp : DeferredPacket}
    {front back : List DeferredPacket} (recorded : w.Recorded) (due : w.curTick ≤ dp.tick)
    (latest : dp.serial = w.scheduled.length) (inserted : w.queue.Inserted r w.curTick dp front back) :
    ∀ e ∈ w.accepted ++ front, Precedes w.queue.forceOrder e dp := by
  intro e member
  have listed : e ∈ w.accepted ++ w.queue.transmitList := by
    rw [inserted.split, ← append_assoc]
    exact mem_append_left _ member
  have earlier : e.serial < dp.serial := by
    rw [latest]
    exact recorded.serial_lt listed
  cases forced : w.queue.forceOrder with
  | true => exact fun _ => earlier
  | false =>
    have ticks : e.tick ≤ dp.tick := by
      rcases mem_append.mp member with left | queued
      · exact le_trans (recorded.past e left) due
      · obtain rfl | ⟨init, last, rfl⟩ := eq_nil_or_concat' front
        · cases queued
        · have stop : last.tick ≤ dp.tick := by
            have stays := (inserted.behind init last rfl).1
            simpa [PacketQueue.staysInFront, forced] using stays
          rcases mem_append.mp queued with inner | final
          · have sorted := recorded.pairs
            rw [inserted.split, forced] at sorted
            obtain ⟨_, sorted, _⟩ := pairwise_append.mp sorted
            obtain ⟨sorted, _, _⟩ := pairwise_append.mp sorted
            obtain ⟨_, _, across⟩ := pairwise_append.mp sorted
            have pair : e.tick < last.tick ∨ e.tick = last.tick ∧ e.serial < last.serial :=
              across e inner last (mem_singleton.mpr rfl)
            omega
          · rw [mem_singleton.mp final]
            exact stop
    show e.tick < dp.tick ∨ e.tick = dp.tick ∧ e.serial < dp.serial
    omega

theorem after_inserted {q r : PacketQueue} {now : Nat} {dp : DeferredPacket} {front back : List DeferredPacket}
    (inserted : q.Inserted r now dp front back) : ∀ e ∈ back, Precedes q.forceOrder dp e := by
  intro e member
  have passed := inserted.passed e member
  have later := PacketQueue.tick_lt_of_passed passed
  cases forced : q.forceOrder with
  | true =>
    intro same
    rw [matchAddr_comm] at same
    simp [PacketQueue.staysInFront, forced, same] at passed
  | false => exact Or.inl later

theorem Recorded.schedule {w : World} {r : PacketQueue} {dp : DeferredPacket} {front back : List DeferredPacket}
    (recorded : w.Recorded) (due : w.curTick ≤ dp.tick) (early : dp.tick < maxTick)
    (latest : dp.serial = w.scheduled.length) (inserted : w.queue.Inserted r w.curTick dp front back) :
    Recorded { w with queue := r, scheduled := w.scheduled ++ [dp] } where
  pairs := by
    have pairs := recorded.pairs
    rw [inserted.split, ← append_assoc] at pairs
    show (w.accepted ++ r.transmitList).Pairwise (Precedes r.forceOrder)
    rw [inserted.list, inserted.order, ← append_assoc]
    exact pairwise_insert pairs (recorded.before_inserted due latest inserted) (after_inserted inserted)
  past := recorded.past
  ledger := by
    have ledger := recorded.ledger
    rw [inserted.split, ← append_assoc] at ledger
    show (w.accepted ++ r.transmitList).Perm (w.scheduled ++ [dp])
    rw [inserted.list, ← append_assoc]
    apply perm_middle.trans
    exact ((ledger.cons dp).trans (perm_append_singleton dp w.scheduled).symm)
  serials := by
    show (w.scheduled ++ [dp]).map DeferredPacket.serial = List.range (w.scheduled ++ [dp]).length
    rw [map_append, recorded.serials, length_append, length_singleton, range_succ,
      map_singleton, latest]
  punctual := recorded.punctual
  early := by
    intro e member
    change e ∈ r.transmitList at member
    rw [inserted.list] at member
    have known := recorded.early e
    rw [inserted.split] at known
    rcases mem_append.mp member with left | right
    · exact known (mem_append_left _ left)
    · rcases mem_cons.mp right with rfl | right
      · exact early
      · exact known (mem_append_right _ right)
  present := recorded.present

/-- What holds between any two calls, also while the peer is accepting a packet. -/
structure Kept (w : World) : Prop where
  recorded : w.Recorded
  planned : w.queue.Planned w.curTick
  waiting : w.queue.Waiting w.curTick
  owed : w.queue.waitingOnRetry = w.retryOwed

def Armed (w : World) : Prop :=
  w.queue.transmitList ≠ [] → w.queue.waitingOnRetry = true ∨ w.queue.sendEvent.isSome = true

theorem schedSendTiming_kept {w : World} {call : Packet × Nat} (kept : w.Kept) (due : w.curTick ≤ call.2)
    (fit : ordinary call) (room : w.queue.disableSanityCheck = true ∨ w.queue.transmitList.length ≤ 128) :
    ∃ next, w.schedSendTiming call = .ok next ∧ next.Kept ∧ (w.Armed → next.Armed) ∧
      next.curTick = w.curTick ∧ next.queue.waitingOnRetry = w.queue.waitingOnRetry ∧
      next.queue.disableSanityCheck = w.queue.disableSanityCheck ∧
      next.queue.transmitList.length = w.queue.transmitList.length + 1 := by
  obtain ⟨queueable, early⟩ := fit
  obtain ⟨r, front, back, run, inserted⟩ :=
    @PacketQueue.schedSendTiming_inserts w.queue w.curTick ⟨call.2, call.1, w.scheduled.length⟩
      kept.recorded.present kept.planned kept.waiting due early queueable room
  refine ⟨{ w with queue := r, scheduled := w.scheduled ++ [⟨call.2, call.1, w.scheduled.length⟩] }, ?_, ?_, ?_, rfl,
    inserted.waiting, inserted.sanity, ?_⟩
  · unfold schedSendTiming
    dsimp only
    rw [run]
    rfl
  · exact ⟨kept.recorded.schedule due early rfl inserted, inserted.planned kept.planned,
      inserted.stillWaiting kept.waiting, inserted.waiting.trans kept.owed⟩
  · intro armed _
    obtain rfl | ⟨init, last, rfl⟩ := eq_nil_or_concat' front
    · obtain ⟨_, time, event, _⟩ := inserted.first rfl
      right
      show r.sendEvent.isSome = true
      rw [event]
      rfl
    · show r.waitingOnRetry = true ∨ r.sendEvent.isSome = true
      rw [inserted.waiting, (inserted.behind init last rfl).2]
      apply armed
      rw [inserted.split]
      simp
  · show r.transmitList.length = _
    rw [inserted.list, inserted.split]
    simp only [length_append, length_cons]
    omega

theorem foldlM_kept {calls : List (Packet × Nat)} {w : World} (kept : w.Kept)
    (timely : w.Timely w.queue.transmitList.length calls) (fit : ∀ call ∈ calls, ordinary call) :
    ∃ next, calls.foldlM schedSendTiming w = .ok next ∧ next.Kept ∧
      next.queue.waitingOnRetry = w.queue.waitingOnRetry := by
  induction calls generalizing w with
  | nil => exact ⟨w, rfl, kept, rfl⟩
  | cons call calls ih =>
    obtain ⟨due, room⟩ := timely
    have now : w.queue.disableSanityCheck = true ∨ w.queue.transmitList.length ≤ 128 :=
      room.imp_right fun small => small 0 (Nat.succ_pos _)
    obtain ⟨middle, run, kept, _, time, waiting, sanity, length⟩ :=
      schedSendTiming_kept kept (due call mem_cons_self) (fit call mem_cons_self) now
    have timely : middle.Timely middle.queue.transmitList.length calls := by
      refine ⟨?_, ?_⟩
      · intro later member
        rw [time]
        exact due later (mem_cons_of_mem _ member)
      · rw [sanity, length]
        apply room.imp_right
        intro small i bound
        have := small (i + 1) (Nat.succ_lt_succ bound)
        omega
    obtain ⟨next, rest, kept, same⟩ := ih kept timely fun later member => fit later (mem_cons_of_mem _ member)
    refine ⟨next, ?_, kept, same.trans waiting⟩
    rw [foldlM_cons, run]
    exact rest

theorem afterSend_armed {w : World} (kept : w.Kept) (free : w.queue.waitingOnRetry = false) :
    ∃ next, w.afterSend = .ok next ∧ next.Kept ∧ next.Armed := by
  have same : ({ w.queue with waitingOnRetry := false } : PacketQueue) = w.queue := by
    rw [← free]
  unfold afterSend
  rw [same]
  cases list : w.queue.transmitList with
  | nil =>
    refine ⟨w, ?_, kept, fun some => absurd list some⟩
    simp only [PacketQueue.schedSendEvent, PacketQueue.deferredPacketReadyTime, free, list, ne_eq,
      not_true_eq_false, if_false, Bool.false_eq_true]
    rfl
  | cons front rest =>
    have early := kept.recorded.early front (by rw [list]; exact mem_cons_self)
    have behind : ∀ time, w.queue.sendEvent = some time → w.curTick ≤ time ∧ front.tick ≤ time := by
      intro time event
      obtain ⟨later, first, others, split, ready⟩ := kept.planned time event
      rw [list] at split
      cases split
      exact ⟨later, ready⟩
    obtain ⟨time, run, later, ready⟩ :=
      PacketQueue.schedSendEvent_plans free early kept.recorded.present behind
    have when : w.queue.deferredPacketReadyTime = front.tick := by
      unfold PacketQueue.deferredPacketReadyTime
      rw [list]
    rw [when, run]
    refine ⟨{ w with queue := { w.queue with sendEvent := some time } }, rfl, ?_, fun _ => Or.inr rfl⟩
    refine ⟨⟨kept.recorded.pairs, kept.recorded.past, kept.recorded.ledger, kept.recorded.serials,
      kept.recorded.punctual, kept.recorded.early, kept.recorded.present⟩, ?_, ?_, kept.owed⟩
    · intro other event
      cases event
      exact ⟨later, front, rest, list, ready⟩
    · intro held
      change w.queue.waitingOnRetry = true at held
      rw [free] at held
      cases held

theorem sendDeferredPacket_kept {w : World} {answer : Answer} {dp : DeferredPacket} {rest : List DeferredPacket}
    (recorded : w.Recorded) (idle : w.queue.sendEvent = none) (free : w.queue.waitingOnRetry = false)
    (settled : w.retryOwed = false) (list : w.queue.transmitList = dp :: rest) (ready : dp.tick ≤ w.curTick)
    (timely : w.Timely rest.length (Answer.calls answer)) (fit : ∀ call ∈ Answer.calls answer, ordinary call) :
    ∃ next, w.sendDeferredPacket answer = .ok next ∧ next.Kept ∧ next.Armed := by
  have punctual : ∀ attempt ∈ w.attempts ++ [(dp, w.curTick)], attempt.1.tick ≤ attempt.2 := by
    intro attempt member
    rcases mem_append.mp member with before | now
    · exact recorded.punctual attempt before
    · rw [mem_singleton.mp now]
      exact ready
  have due : w.queue.deferredPacketReady w.curTick = true := by
    simp [PacketQueue.deferredPacketReady, list, ready]
  unfold sendDeferredPacket
  simp only [check, free, due, Bool.not_false, if_true, ok_andThen, list]
  cases answer with
  | refuse =>
    refine ⟨(w.takeOff dp rest).putBack dp, rfl, ?_, fun _ => Or.inl rfl⟩
    have same : ((w.takeOff dp rest).putBack dp).queue.transmitList = w.queue.transmitList := list.symm
    refine ⟨⟨?_, recorded.past, ?_, recorded.serials, punctual, ?_, recorded.present⟩, ?_, ?_, rfl⟩
    · rw [same]
      exact recorded.pairs
    · rw [same]
      exact recorded.ledger
    · rw [same]
      exact recorded.early
    · intro time event
      change w.queue.sendEvent = some time at event
      rw [idle] at event
      cases event
    · intro _
      exact ⟨idle, dp, rest, rfl, ready⟩
  | accept calls =>
    have kept : Kept { w.takeOff dp rest with accepted := w.accepted ++ [dp] } := by
      have pairs := recorded.pairs
      have ledger := recorded.ledger
      rw [list, append_cons] at pairs ledger
      refine ⟨⟨pairs, ?_, ledger, recorded.serials, punctual, ?_, recorded.present⟩, ?_, ?_, ?_⟩
      · intro e member
        rcases mem_append.mp member with before | now
        · exact recorded.past e before
        · rw [mem_singleton.mp now]
          exact ready
      · intro e member
        apply recorded.early e
        rw [list]
        exact mem_cons_of_mem _ member
      · intro time event
        change w.queue.sendEvent = some time at event
        rw [idle] at event
        cases event
      · intro held
        change w.queue.waitingOnRetry = true at held
        rw [free] at held
        cases held
      · exact free.trans settled.symm
    obtain ⟨after, run, kept, same⟩ := foldlM_kept kept timely fit
    obtain ⟨next, rest, kept, armed⟩ := afterSend_armed kept (same.trans free)
    refine ⟨next, ?_, kept, armed⟩
    exact andThen_ok.mpr ⟨after, run, rest⟩

theorem perform_kept {w : World} {action : Action} (kept : w.Kept) (armed : w.Armed) (possible : w.Possible action)
    (fit : Ordinary action) : ∃ next, w.perform action = .ok next ∧ next.Kept ∧ next.Armed := by
  cases action with
  | schedSendTiming call =>
    obtain ⟨due, room⟩ := possible
    obtain ⟨next, run, kept, still, _⟩ := schedSendTiming_kept kept (due call (mem_singleton.mpr rfl)) fit
      (room.imp_right fun small => small 0 (Nat.succ_pos _))
    exact ⟨next, run, kept, still armed⟩
  | sendEvent answer =>
    obtain ⟨event, timely⟩ := possible
    obtain ⟨_, dp, rest, list, ready⟩ := kept.planned _ event
    have free : w.queue.waitingOnRetry = false := by
      apply Bool.eq_false_iff.mpr
      intro held
      rw [(kept.waiting held).1] at event
      cases event
    have recorded : Recorded { w with queue := { w.queue with sendEvent := none } } :=
      ⟨kept.recorded.pairs, kept.recorded.past, kept.recorded.ledger, kept.recorded.serials,
        kept.recorded.punctual, kept.recorded.early, kept.recorded.present⟩
    rw [list] at timely
    obtain ⟨next, run, kept, armed⟩ := sendDeferredPacket_kept recorded rfl free (kept.owed.symm.trans free) list ready
      timely fit
    refine ⟨next, ?_, kept, armed⟩
    refine andThen_ok.mpr ⟨(), ?_, run⟩
    simp [free]
  | retry answer =>
    obtain ⟨owed, timely⟩ := possible
    have held : w.queue.waitingOnRetry = true := kept.owed.trans owed
    obtain ⟨idle, dp, rest, list, ready⟩ := kept.waiting held
    have recorded :
        Recorded { w with queue := { w.queue with waitingOnRetry := false }, retryOwed := false } :=
      ⟨kept.recorded.pairs, kept.recorded.past, kept.recorded.ledger, kept.recorded.serials,
        kept.recorded.punctual, kept.recorded.early, kept.recorded.present⟩
    rw [list] at timely
    obtain ⟨next, run, kept, armed⟩ := sendDeferredPacket_kept recorded idle rfl rfl list ready timely fit
    refine ⟨next, ?_, kept, armed⟩
    refine andThen_ok.mpr ⟨(), ?_, run⟩
    simp [held]
  | advance time =>
    obtain ⟨later, bound⟩ := possible
    refine ⟨_, rfl, ⟨⟨kept.recorded.pairs, ?_, kept.recorded.ledger, kept.recorded.serials,
      kept.recorded.punctual, kept.recorded.early, fit⟩, ?_, ?_, kept.owed⟩, armed⟩
    · intro dp member
      exact le_trans (kept.recorded.past dp member) later
    · intro planned event
      exact ⟨bound planned event, (kept.planned planned event).2⟩
    · intro held
      obtain ⟨idle, front, rest, list, past⟩ := kept.waiting held
      exact ⟨idle, front, rest, list, le_trans past later⟩

theorem Reached.kept {w : World} (reached : Reached (fun _ action => Ordinary action) w) : w.Kept ∧ w.Armed := by
  induction reached with
  | start forceOrder disableSanityCheck time before =>
    refine ⟨⟨⟨List.Pairwise.nil, ?_, List.Perm.refl _, rfl, ?_, ?_, before⟩, ?_, ?_, rfl⟩, ?_⟩
    · intro dp member
      cases member
    · intro attempt member
      cases member
    · intro dp member
      cases member
    · intro planned event
      cases event
    · intro held
      cases held
    · intro some
      exact absurd rfl some
  | step _ possible meets run ih =>
    obtain ⟨next, performed, kept, armed⟩ := perform_kept ih.1 ih.2 possible meets
    rw [run] at performed
    cases performed
    exact ⟨kept, armed⟩

theorem packets_sent_in_order {w : World} (reached : Reached (fun _ action => Ordinary action) w) :
    (∀ attempt ∈ w.attempts, attempt.1.tick ≤ attempt.2) ∧
      ((w.accepted ++ w.queue.transmitList).Perm w.scheduled ∧
        w.scheduled.map DeferredPacket.serial = List.range w.scheduled.length) ∧
      (w.queue.transmitList ≠ [] → w.queue.waitingOnRetry = true ∨ w.queue.sendEvent.isSome = true) ∧
      (∀ action, w.Possible action → Ordinary action → ∃ next, w.perform action = .ok next) ∧
      (w.queue.forceOrder = false →
        w.accepted.Pairwise fun a b => a.tick < b.tick ∨ a.tick = b.tick ∧ a.serial < b.serial) ∧
      (w.queue.forceOrder = true →
        w.accepted.Pairwise fun a b => a.pkt.matchAddr b.pkt = true → a.serial < b.serial) := by
  obtain ⟨kept, armed⟩ := reached.kept
  have leave : w.accepted.Pairwise (Precedes w.queue.forceOrder) :=
    (pairwise_append.mp kept.recorded.pairs).1
  refine ⟨kept.recorded.punctual, ⟨kept.recorded.ledger, kept.recorded.serials⟩, armed, ?_, ?_, ?_⟩
  · intro action possible fit
    obtain ⟨next, run, _⟩ := perform_kept kept armed possible fit
    exact ⟨next, run⟩
  · intro free
    rw [free] at leave
    exact leave
  · intro forced
    rw [forced] at leave
    exact leave

/-- The packet of the later tick is scheduled first, leaves last, and is refused once. -/
theorem packets_sent_in_order_refused :
    ∃ w, Reached (fun _ action => Ordinary action) w ∧ w.accepted.map DeferredPacket.tick = [3, 5] ∧
      w.attempts.map Prod.snd = [3, 5, 6] ∧ (∀ attempt ∈ w.attempts, attempt.1.tick ≤ attempt.2) ∧
      w.accepted.Pairwise fun a b => a.tick < b.tick ∨ a.tick = b.tick ∧ a.serial < b.serial := by
  have done := (Reached.start false false 0 (by decide)).follow
    [.schedSendTiming (⟨0x40, false, false⟩, 5), .schedSendTiming (⟨0x80, false, false⟩, 3), .advance 3,
      .sendEvent (.accept []), .advance 5, .sendEvent .refuse, .advance 6, .retry (.accept [])] rfl
  obtain ⟨punctual, _, _, _, sorted, _⟩ := packets_sent_in_order done
  exact ⟨_, done, rfl, rfl, punctual, sorted rfl⟩

/-- A packet for the last tick stays in the list with no event to send it, and the call for an
express snoop fails an assertion. -/
theorem last_tick_never_sent :
    (∃ w, Reached (fun _ _ => True) w ∧ w.queue.transmitList ≠ [] ∧ w.queue.waitingOnRetry = false ∧
      w.queue.sendEvent = none) ∧
    ∃ w action, Reached (fun _ _ => True) w ∧ w.Possible action ∧ w.perform action = .error .assertion := by
  have start : Reached (fun _ _ => True) (start false false 0) := Reached.start false false 0 (by decide)
  refine ⟨⟨_, @Reached.step _ _ _ (.schedSendTiming (⟨0x40, false, false⟩, maxTick)) start (by decide) trivial rfl, ?_,
    rfl, rfl⟩, _, .schedSendTiming (⟨0x40, false, true⟩, 5), start, by decide, rfl⟩
  exact cons_ne_nil _ _

end World

end Resister.Mem
