import Mathlib
import Resister.Sim.EventBins

/-!
# Runs of the event queue

Events are scheduled, descheduled and rescheduled from outside and from inside of `process`, and the
queue services one event after the other.
-/

namespace Resister.Sim

open Library Library.BinQueue List

variable {ι : Type}

section Runs

variable [DecidableEq ι] [Fintype ι]

inductive Call (ι : Type) where
  | schedule (event : ι) (when_ : Nat)
  | deschedule (event : ι)
  | reschedule (event : ι) (when_ : Nat) (always : Bool)

/-- A queue with the record of its run: when each event was inserted last, counted in insertions, and
at which tick which event was executed. -/
structure Recorded (ι : Type) where
  queue : EventQueue ι
  inserted : ι → Nat := fun _ => 0
  insertions : Nat := 0
  executed : List (ι × Nat) := []
  walks : List (EventQueue.Walk ι) := []

namespace Recorded

def insertion (r : Recorded ι) (event : ι) (queue : EventQueue ι) (walks : List (EventQueue.Walk ι)) : Recorded ι :=
  { r with
    queue
    inserted := Function.update r.inserted event r.insertions
    insertions := r.insertions + 1
    walks := r.walks ++ walks }

def call (r : Recorded ι) : Call ι → Except Fault (Recorded ι)
  | .schedule event when_ => do
    let (queue, walks) ← r.queue.schedule event when_
    .ok (r.insertion event queue walks)
  | .deschedule event => do
    let (queue, walks) ← r.queue.deschedule event
    .ok { r with queue, walks := r.walks ++ walks }
  | .reschedule event when_ always => do
    let (queue, walks) ← r.queue.reschedule event when_ always
    .ok (r.insertion event queue walks)

def executing (r : Recorded ι) (event : ι) : Recorded ι :=
  let when_ := (r.queue.events event).when_
  { r with
    queue := { r.queue with curTick := when_ }
    executed := r.executed ++ [(event, when_)] }

def serviceOne (r : Recorded ι) (inside : List (Call ι)) : Except Fault (Recorded ι) := do
  let (event, queue, walk) ← r.queue.takeHead
  let taken := { r with queue, walks := r.walks ++ [walk] }
  if (queue.events event).squashed then .ok { taken with queue := queue.clearSquashed event }
  else inside.foldlM call (taken.executing event)

end Recorded

inductive QueueStep (ι : Type) where
  | call (c : Call ι)
  | serviceOne (inside : List (Call ι))

namespace Recorded

def step (r : Recorded ι) : QueueStep ι → Except Fault (Recorded ι)
  | .call c => r.call c
  | .serviceOne inside => r.serviceOne inside

/-- Events are scheduled at or after the current tick, an event that is scheduled is not scheduled
once more, and only a scheduled event is descheduled. -/
def AllowsCall (r : Recorded ι) : Call ι → Prop
  | .schedule event when_ => r.queue.curTick ≤ when_ ∧ (r.queue.events event).scheduled = false
  | .deschedule event => (r.queue.events event).scheduled = true
  | .reschedule event when_ always =>
    r.queue.curTick ≤ when_ ∧ (always = true ∨ (r.queue.events event).scheduled = true)

def AllowsCalls (r : Recorded ι) : List (Call ι) → Prop
  | [] => True
  | c :: calls => r.AllowsCall c ∧ ∀ next, r.call c = .ok next → next.AllowsCalls calls

def Allows (r : Recorded ι) : QueueStep ι → Prop
  | .call c => r.AllowsCall c
  | .serviceOne inside =>
    r.queue.head ≠ none ∧ ∀ event queue walk, r.queue.takeHead = .ok (event, queue, walk) →
      AllowsCalls (executing { r with queue, walks := r.walks ++ [walk] } event) inside

def start (priority : ι → Int) (curTick : Nat) : Recorded ι where
  queue := { events := fun x => { priority := priority x }, curTick }

inductive Reached : Recorded ι → Prop
  | start (priority : ι → Int) (curTick : Nat) : Reached (start priority curTick)
  | step {r next : Recorded ι} (s : QueueStep ι) :
      Reached r → r.Allows s → r.step s = .ok next → Reached next

end Recorded

end Runs

/-! ## The operations keep the queue -/

namespace EventQueue

variable {q q' q'' : EventQueue ι} {bins bins' : List (Bin ι)} {b : Bin ι} {e x : ι} {t : Nat}

structure Holds (q : EventQueue ι) (bins : List (Bin ι)) : Prop where
  represents : q.Represents bins
  exactly : ∀ x, x ∈ members bins ↔ (q.events x).scheduled = true
  queued : ∀ x, (q.events x).scheduled = true → (q.events x).queued = true
  ahead : ∀ x, (q.events x).scheduled = true → q.curTick ≤ (q.events x).when_
  unsquashed : ∀ x, (q.events x).squashed = false

structure Touched (q q' : EventQueue ι) (e : ι) : Prop where
  curTick : q'.curTick = q.curTick
  others : ∀ x ≠ e, (q'.events x).unlinked = (q.events x).unlinked

theorem Touched.trans (first : q.Touched q' e) (second : q'.Touched q'' e) : q.Touched q'' e :=
  ⟨second.curTick.trans first.curTick, fun x other =>
    (second.others x other).trans (first.others x other)⟩

theorem Relinked.touched (relinked : q.Relinked q') : q.Touched q' e :=
  ⟨relinked.1, fun x _ => relinked.2 x⟩

theorem Holds.touch (holds : q.Holds bins) (touched : q.Touched q' e)
    (represents : q'.Represents bins') (same : ∀ x ≠ e, x ∈ members bins' ↔ x ∈ members bins)
    (own : e ∈ members bins' ↔ (q'.events e).scheduled = true) (valid : (q'.events e).scheduled = true →
      (q'.events e).queued = true ∧ q'.curTick ≤ (q'.events e).when_)
    (squashed : (q'.events e).squashed = false) : q'.Holds bins' := by
  have scheduled : ∀ x ≠ e, (q'.events x).scheduled = (q.events x).scheduled := by
    intro x other
    have kept := congrArg Event.scheduled (touched.others x other)
    exact kept
  refine ⟨represents, ?_, ?_, ?_, ?_⟩
  · intro x
    by_cases own' : x = e
    · subst own'
      exact own
    · rw [same x own', holds.exactly, scheduled x own']
  · intro x pending
    by_cases own' : x = e
    · subst own'
      exact (valid pending).1
    · have kept := congrArg Event.queued (touched.others x own')
      rw [scheduled x own'] at pending
      exact kept.trans (holds.queued x pending)
  · intro x pending
    by_cases own' : x = e
    · subst own'
      exact (valid pending).2
    · have kept := congrArg Event.when_ (touched.others x own')
      rw [scheduled x own'] at pending
      rw [touched.curTick]
      exact (holds.ahead x pending).trans_eq kept.symm
  · intro x
    by_cases own' : x = e
    · subst own'
      exact squashed
    · have kept := congrArg Event.squashed (touched.others x own')
      exact kept.trans (holds.unsquashed x)

theorem Holds.advance (holds : q.Holds bins) (early : ∀ x, (q.events x).scheduled = true → t ≤ (q.events x).when_) :
    Holds { q with curTick := t } bins :=
  ⟨⟨holds.represents.tops, holds.represents.links, holds.represents.wellFormed⟩, holds.exactly,
    holds.queued, early, holds.unsquashed⟩

theorem Holds.least (holds : q.Holds (b :: bins)) (pending : (q.events x).scheduled = true) :
    q.key b.top ≤ q.key x ∧ (q.key x = q.key b.top → x ∈ b.members) := by
  obtain ⟨alike, increasing, -⟩ := holds.represents.wellFormed
  obtain ⟨c, listed, inside⟩ := mem_members.mp ((holds.exactly x).mpr pending)
  have same := alike c listed x inside
  rcases mem_cons.mp listed with rfl | later
  · exact ⟨same.ge, fun _ => inside⟩
  · have less := (pairwise_cons.mp increasing).1 c later
    rw [same]
    exact ⟨less.le, fun equal => absurd equal less.ne'⟩

theorem when_le_of_key_le (le : q.key e ≤ q.key x) : (q.events e).when_ ≤ (q.events x).when_ := by
  rw [key, key, Event.key, Event.key, Prod.Lex.toLex_le_toLex] at le
  rcases le with less | ⟨same, -⟩
  · exact Nat.le_of_lt less
  · exact Nat.le_of_eq same

def Walk.Fresh (walk : Walk ι) : Prop :=
  ∃ bins, walk.queue.Represents bins ∧ ∀ x ∈ walk.followed, x ∈ bins.map Bin.top

variable [DecidableEq ι]

theorem modify_touched (q : EventQueue ι) (e : ι) (f : Event ι → Event ι) :
    q.Touched (q.modify e f) e :=
  ⟨rfl, fun _ other => by rw [modify_of_ne q f other]⟩

theorem Represents.modify (represents : q.Represents bins) {f : Event ι → Event ι}
    (nextBin : (f (q.events e)).nextBin = (q.events e).nextBin)
    (nextInBin : (f (q.events e)).nextInBin = (q.events e).nextInBin)
    (key : e ∈ members bins → (f (q.events e)).key = (q.events e).key) :
    (q.modify e f).Represents bins := by
  have bin : (q.modify e f).nextBin = q.nextBin := q.member_modify_eq e f Event.nextBin nextBin
  have inBin : (q.modify e f).nextInBin = q.nextInBin :=
    q.member_modify_eq e f Event.nextInBin nextInBin
  refine ⟨?_, ?_, ?_⟩
  · rw [bin]
    exact represents.tops
  · intro b member
    exact (represents.links b member).congr fun y _ => by rw [inBin]
  · refine represents.wellFormed.congr ?_
    intro y member
    by_cases same : y = e
    · subst same
      rw [EventQueue.key, modify_self, key member]
      rfl
    · rw [EventQueue.key, modify_of_ne q f same]
      rfl

theorem key_modify (q : EventQueue ι) (e : ι) {f : Event ι → Event ι}
    (kept : (f (q.events e)).key = (q.events e).key) : (q.modify e f).key = q.key :=
  q.member_modify_eq e f Event.key kept

theorem setWhen_self (q : EventQueue ι) (e : ι) (t : Nat) :
    (q.setWhen e t).events e = { q.events e with when_ := t, queued := true } := modify_self ..

variable [Fintype ι]

theorem insertion_spec (represents : q.Represents bins) (new : e ∉ members bins) (t : Nat) :
    ∃ q' followed, (q.setWhen e t).insert e = .ok (q', followed) ∧
      Walk.Fresh ⟨q.setWhen e t, followed⟩ ∧ q'.Represents (push q'.key e bins) ∧
      (q.setWhen e t).Relinked q' := by
  have timed : (q.setWhen e t).Represents bins :=
    represents.modify rfl rfl fun member => absurd member new
  obtain ⟨q', followed, inserted, pushed, relinked, fresh⟩ := insert_spec timed new
  refine ⟨q', followed, inserted, ⟨bins, timed, fresh⟩, ?_, relinked⟩
  rw [relinked.key_eq]
  exact pushed

theorem schedule_spec (holds : q.Holds bins) (later : q.curTick ≤ t) (idle : (q.events e).scheduled = false) :
    ∃ q' walks, q.schedule e t = .ok (q', walks) ∧ q'.Holds (push q'.key e bins) ∧
      q'.curTick = q.curTick ∧ ∀ walk ∈ walks, walk.Fresh := by
  have new : e ∉ members bins := by
    rw [holds.exactly, idle]
    decide
  obtain ⟨q', followed, inserted, fresh, pushed, relinked⟩ := insertion_spec holds.represents new t
  have touched : q.Touched (q'.setScheduled e true) e :=
    ((q.modify_touched e _).trans relinked.touched).trans (modify_touched ..)
  have own : (q'.setScheduled e true).events e = { q'.events e with scheduled := true } :=
    modify_self ..
  refine ⟨q'.setScheduled e true, [⟨q.setWhen e t, followed⟩], ?_, ?_, touched.curTick, by simpa⟩
  · rw [schedule, if_neg (by omega), if_neg (by simp [idle])]
    simp only [inserted, bind, Except.bind]
  · have sameKey : (q'.setScheduled e true).key = q'.key := q'.key_modify e rfl
    rw [sameKey]
    refine holds.touch touched (pushed.modify rfl rfl fun _ => rfl) ?_ ?_ ?_ ?_
    · intro x other
      rw [(members_push ..).mem_iff, mem_cons, or_iff_right other]
    · rw [(members_push ..).mem_iff, own]
      simp
    · intro _
      rw [own, touched.curTick]
      refine ⟨?_, ?_⟩
      · rw [relinked.queued_eq, setWhen_self]
      · rw [relinked.when_eq, setWhen_self]
        exact later
    · rw [own]
      rw [relinked.squashed_eq, setWhen_self]
      exact holds.unsquashed e

theorem deschedule_spec (holds : q.Holds bins) (pending : (q.events e).scheduled = true) :
    ∃ q' walks, q.deschedule e = .ok (q', walks) ∧ q'.Holds (BinQueue.remove q.key e bins) ∧
      q'.curTick = q.curTick ∧ ∀ walk ∈ walks, walk.Fresh := by
  have member : e ∈ members bins := (holds.exactly e).mpr pending
  obtain ⟨q', followed, removed, represents, relinked, fresh⟩ :=
    remove_spec holds.represents member (holds.queued e pending)
  have touched : q.Touched ((q'.clearSquashed e).setScheduled e false) e :=
    (relinked.touched.trans (modify_touched ..)).trans (modify_touched ..)
  have own : ((q'.clearSquashed e).setScheduled e false).events e =
      { q'.events e with squashed := false, scheduled := false } := by
    rw [setScheduled, modify_self, clearSquashed, modify_self]
  have gone := holds.represents.wellFormed.members_remove member
  have nodup := holds.represents.wellFormed.nodup
  refine ⟨_, [⟨q, followed⟩], ?_, ?_, touched.curTick, ?_⟩
  · rw [deschedule, if_neg (by simp [pending]), removed]
    rfl
  · refine holds.touch touched
      ((represents.modify rfl rfl fun _ => rfl).modify rfl rfl fun _ => rfl) ?_ ?_ ?_ ?_
    · intro x other
      rw [gone, nodup.mem_erase_iff, and_iff_right other]
    · rw [gone, nodup.mem_erase_iff, own]
      simp
    · rw [own]
      simp
    · rw [own]
  · rintro walk single
    obtain rfl := mem_singleton.mp single
    exact ⟨bins, holds.represents, fresh⟩

theorem unlink_spec (holds : q.Holds bins) (e : ι) :
    ∃ q' followed rest, q.unlink e = .ok (q', followed) ∧ Walk.Fresh ⟨q, followed⟩ ∧
      q'.Represents rest ∧ q.Relinked q' ∧ (rest = bins ∨ rest = BinQueue.remove q.key e bins) ∧
      ∀ x, x ∈ members rest ↔ x ≠ e ∧ x ∈ members bins := by
  cases pending : (q.events e).scheduled with
  | false =>
    have absent : e ∉ members bins := by
      rw [holds.exactly, pending]
      decide
    refine ⟨q, [], bins, ?_, ⟨bins, holds.represents, by simp⟩, holds.represents, .refl q,
      .inl rfl, ?_⟩
    · rw [unlink, pending]
      rfl
    · intro x
      refine ⟨fun member => ⟨?_, member⟩, And.right⟩
      rintro rfl
      exact absent member
  | true =>
    have member : e ∈ members bins := (holds.exactly e).mpr pending
    obtain ⟨q', followed, removed, represents, relinked, fresh⟩ :=
      remove_spec holds.represents member (holds.queued e pending)
    refine ⟨q', followed, _, ?_, ⟨bins, holds.represents, fresh⟩, represents, relinked, .inr rfl, ?_⟩
    · rw [unlink, pending, if_pos rfl, removed]
    · intro x
      rw [holds.represents.wellFormed.members_remove member,
        holds.represents.wellFormed.nodup.mem_erase_iff]

theorem reschedule_spec (holds : q.Holds bins) (later : q.curTick ≤ t) {always : Bool}
    (allowed : always = true ∨ (q.events e).scheduled = true) :
    ∃ q' walks rest, q.reschedule e t always = .ok (q', walks) ∧
      (rest = bins ∨ rest = BinQueue.remove q.key e bins) ∧
      (∀ x, x ∈ members rest ↔ x ≠ e ∧ x ∈ members bins) ∧ q'.Holds (push q'.key e rest) ∧
      q'.curTick = q.curTick ∧ ∀ walk ∈ walks, walk.Fresh := by
  obtain ⟨removed, followed, rest, unlinked, fresh, represents, relinked, remains, kept⟩ :=
    unlink_spec holds e
  have new : e ∉ members rest := fun member => ((kept e).mp member).1 rfl
  obtain ⟨q', followed', inserted, fresh', pushed, relinked'⟩ := insertion_spec represents new t
  have touched : q.Touched ((q'.clearSquashed e).setScheduled e true) e :=
    (((relinked.touched.trans (modify_touched ..)).trans relinked'.touched).trans
      (modify_touched ..)).trans (modify_touched ..)
  have own : ((q'.clearSquashed e).setScheduled e true).events e =
      { q'.events e with squashed := false, scheduled := true } := by
    rw [setScheduled, modify_self, clearSquashed, modify_self]
  refine ⟨_, [⟨q, followed⟩, ⟨removed.setWhen e t, followed'⟩], rest, ?_, remains, kept,
    ?_, touched.curTick, by simp [fresh, fresh']⟩
  · rw [reschedule, if_neg (by omega), if_neg (by rcases allowed with h | h <;> simp [h])]
    simp only [unlinked, inserted, bind, Except.bind]
  · have sameKey : ((q'.clearSquashed e).setScheduled e true).key = q'.key :=
      ((q'.clearSquashed e).key_modify e rfl).trans (q'.key_modify e rfl)
    rw [sameKey]
    refine holds.touch touched
      ((pushed.modify rfl rfl fun _ => rfl).modify rfl rfl fun _ => rfl) ?_ ?_ ?_ ?_
    · intro x other
      rw [(members_push ..).mem_iff, mem_cons, or_iff_right other, kept x, and_iff_right other]
    · rw [(members_push ..).mem_iff, own]
      simp
    · intro _
      rw [own, touched.curTick]
      refine ⟨?_, ?_⟩
      · rw [relinked'.queued_eq, setWhen_self]
      · rw [relinked'.when_eq, setWhen_self]
        exact later
    · rw [own]

theorem takeHead_eq {p : Option ι} {followed : List ι} (head : q.head = some e)
    (removed : (q.setScheduled e false).removeItem e e = .ok (p, q', followed)) :
    q.takeHead = .ok (e, { q' with head := p }, ⟨q, [e]⟩) := by
  rw [removeItem, if_pos rfl] at removed
  rw [takeHead, head]
  cases next : ((q.setScheduled e false).events e).nextInBin with
  | none =>
    rw [next] at removed
    cases removed
    simp only [next]
  | some n =>
    rw [next] at removed
    cases removed
    simp only [next]

theorem takeHead_spec (holds : q.Holds (b :: bins)) :
    ∃ q', q.takeHead = .ok (b.top, q', ⟨q, [b.top]⟩) ∧
      q'.Holds (BinQueue.remove q.key b.top (b :: bins)) ∧ q.Touched q' b.top ∧
      (q'.events b.top).when_ = (q.events b.top).when_ := by
  have represents : (q.setScheduled b.top false).Represents ([] ++ b :: bins) :=
    holds.represents.modify rfl rfl fun _ => rfl
  have own : (q.setScheduled b.top false).events b.top = { q.events b.top with scheduled := false } :=
    modify_self ..
  have first : b.top ∈ members (b :: bins) := by simp [Bin.members]
  have wellFormed := holds.represents.wellFormed.remove first
  have gone := holds.represents.wellFormed.members_remove first
  have nodup := holds.represents.wellFormed.nodup
  obtain ⟨p, q', followed, taken, removed, -⟩ := removeItem_spec represents b.top_mem
  have moved : (q.setScheduled b.top false).Touched { q' with head := p } b.top :=
    ⟨removed.relinked.1, fun x _ => removed.relinked.2 x⟩
  have touched : q.Touched { q' with head := p } b.top := (q.modify_touched b.top _).trans moved
  refine ⟨{ q' with head := p }, takeHead_eq represents.tops.1 taken, ?_, touched, ?_⟩
  · refine holds.touch touched ⟨?_, ?_, ?_⟩ ?_ ?_ ?_ ?_
    · rw [BinQueue.remove, if_pos rfl]
      exact removed.tops
    · rw [BinQueue.remove, if_pos rfl]
      exact removed.links
    · have sameKey : key { q' with head := p } = q.key :=
        removed.relinked.key_eq.trans (q.key_modify b.top rfl)
      rw [sameKey]
      exact wellFormed
    · intro x other
      rw [gone, nodup.mem_erase_iff, and_iff_right other]
    · rw [gone, nodup.mem_erase_iff, removed.relinked.scheduled_eq, own]
      simp
    · rw [removed.relinked.scheduled_eq, own]
      simp
    · rw [removed.relinked.squashed_eq, own]
      exact holds.unsquashed b.top
  · rw [removed.relinked.when_eq, own]

end EventQueue

namespace Recorded

open EventQueue

variable {r : Recorded ι} {bins : List (Bin ι)}

structure Sound (r : Recorded ι) (bins : List (Bin ι)) : Prop where
  holds : r.queue.Holds bins
  stacked : Stacked r.inserted bins
  counted : ∀ x ∈ members bins, r.inserted x < r.insertions
  walks : ∀ walk ∈ r.walks, walk.Fresh

theorem start_sound (priority : ι → Int) (curTick : Nat) : (start priority curTick).Sound [] := by
  refine ⟨⟨⟨rfl, by simp, ⟨by simp, .nil, .nil⟩⟩, ?_, ?_, ?_, fun _ => rfl⟩, ?_, by simp, ?_⟩
  · simp [start]
  · simp [start]
  · simp [start]
  · intro b member
    cases member
  · simp [start]

variable [DecidableEq ι]

theorem Sound.insertion (sound : r.Sound bins) {queue : EventQueue ι} {rest : List (Bin ι)}
    {walks : List (Walk ι)} {e : ι} (stacked : Stacked r.inserted rest)
    (new : e ∉ members rest) (part : ∀ x ∈ members rest, x ∈ members bins)
    (holds : queue.Holds (push queue.key e rest)) (fresh : ∀ walk ∈ walks, walk.Fresh) :
    (r.insertion e queue walks).Sound (push queue.key e rest) := by
  have others : ∀ x ∈ members rest, Function.update r.inserted e r.insertions x = r.inserted x := by
    intro x member
    exact Function.update_of_ne (fun same : x = e => new (same ▸ member)) ..
  refine ⟨holds, stacked.push others ?_, ?_, ?_⟩
  · intro x member
    show r.inserted x < Function.update r.inserted e r.insertions e
    rw [Function.update_self]
    exact sound.counted x (part x member)
  · intro x member
    rcases mem_cons.mp ((members_push ..).mem_iff.mp member) with rfl | old
    · simp [Recorded.insertion]
    · have earlier := sound.counted x (part x old)
      simp only [Recorded.insertion, others x old]
      omega
  · intro walk member
    rcases mem_append.mp member with old | now
    · exact sound.walks walk old
    · exact fresh walk now

variable [Fintype ι]

theorem Sound.call (sound : r.Sound bins) {c : Call ι} (allowed : r.AllowsCall c) :
    ∃ next bins', r.call c = .ok next ∧ next.Sound bins' ∧
      next.queue.curTick = r.queue.curTick ∧ next.executed = r.executed := by
  cases c with
  | schedule e t =>
    obtain ⟨later, idle⟩ := allowed
    obtain ⟨queue, walks, called, holds, time, fresh⟩ := schedule_spec sound.holds later idle
    have new : e ∉ members bins := by
      rw [sound.holds.exactly, idle]
      decide
    refine ⟨_, _, ?_, sound.insertion sound.stacked new (fun _ member => member) holds fresh,
      time, rfl⟩
    simp only [Recorded.call, called, bind, Except.bind]
  | deschedule e =>
    obtain ⟨queue, walks, called, holds, time, fresh⟩ := deschedule_spec sound.holds allowed
    have member : e ∈ members bins := (sound.holds.exactly e).mpr allowed
    refine ⟨{ r with queue, walks := r.walks ++ walks }, _, ?_,
      ⟨holds, sound.stacked.remove, ?_, ?_⟩, time, rfl⟩
    · simp only [Recorded.call, called, bind, Except.bind]
    · intro x rest
      rw [sound.holds.represents.wellFormed.members_remove member] at rest
      exact sound.counted x (mem_of_mem_erase rest)
    · intro walk walked
      rcases mem_append.mp walked with old | now
      · exact sound.walks walk old
      · exact fresh walk now
  | reschedule e t always =>
    obtain ⟨later, possible⟩ := allowed
    obtain ⟨queue, walks, rest, called, remains, kept, holds, time, fresh⟩ :=
      reschedule_spec sound.holds later possible
    have stacked : Stacked r.inserted rest := by
      rcases remains with rfl | rfl
      · exact sound.stacked
      · exact sound.stacked.remove
    have new : e ∉ members rest := fun member => ((kept e).mp member).1 rfl
    refine ⟨_, _, ?_, sound.insertion stacked new (fun x member => ((kept x).mp member).2) holds fresh,
      time, rfl⟩
    simp only [Recorded.call, called, bind, Except.bind]

theorem Sound.calls (sound : r.Sound bins) {calls : List (Call ι)} (allowed : r.AllowsCalls calls) :
    ∃ next bins', calls.foldlM Recorded.call r = .ok next ∧ next.Sound bins' ∧
      next.queue.curTick = r.queue.curTick ∧ next.executed = r.executed := by
  induction calls generalizing r bins with
  | nil => exact ⟨r, bins, rfl, sound, rfl, rfl⟩
  | cons c calls ih =>
    obtain ⟨first, rest⟩ := allowed
    obtain ⟨next, bins', called, kept, time, executed⟩ := sound.call first
    obtain ⟨last, bins'', run, kept', time', executed'⟩ := ih kept (rest next called)
    refine ⟨last, bins'', ?_, kept', time'.trans time, executed'.trans executed⟩
    rw [foldlM_cons, called]
    exact run

theorem Sound.serviceOne (sound : r.Sound bins) {inside : List (Call ι)} (allowed : r.Allows (.serviceOne inside)) :
    ∃ next bins' e, r.serviceOne inside = .ok next ∧ next.Sound bins' ∧
      (r.queue.events e).scheduled = true ∧
      (∀ x, (r.queue.events x).scheduled = true → r.queue.key e ≤ r.queue.key x ∧
        (r.queue.key x = r.queue.key e → x ≠ e → r.inserted x < r.inserted e)) ∧
      next.queue.curTick = (r.queue.events e).when_ ∧
      next.executed = r.executed ++ [(e, (r.queue.events e).when_)] := by
  obtain ⟨nonempty, process⟩ := allowed
  cases bins with
  | nil => exact absurd sound.holds.represents.tops nonempty
  | cons b bins =>
    obtain ⟨queue, taken, holds, touched, time⟩ := takeHead_spec sound.holds
    have scheduled : (r.queue.events b.top).scheduled = true :=
      (sound.holds.exactly b.top).mp (by simp [Bin.members])
    have first : b.top ∈ members (b :: bins) := by simp [Bin.members]
    have gone := sound.holds.represents.wellFormed.members_remove first
    -- Every event that remains was scheduled before.
    have early : ∀ x, (queue.events x).scheduled = true →
        (queue.events b.top).when_ ≤ (queue.events x).when_ := by
      intro x pending
      have member := (holds.exactly x).mpr pending
      rw [gone, sound.holds.represents.wellFormed.nodup.mem_erase_iff] at member
      have same := congrArg Event.when_ (touched.others x member.1)
      have le := when_le_of_key_le (sound.holds.least ((sound.holds.exactly x).mp member.2)).1
      rw [time]
      exact le.trans_eq same.symm
    have executing : (Recorded.executing
        { r with queue, walks := r.walks ++ [⟨r.queue, [b.top]⟩] } b.top).Sound
          (BinQueue.remove r.queue.key b.top (b :: bins)) := by
      refine ⟨holds.advance early, sound.stacked.remove, ?_, ?_⟩
      · intro x member
        rw [gone] at member
        exact sound.counted x (mem_of_mem_erase member)
      · intro walk walked
        rcases mem_append.mp walked with old | now
        · exact sound.walks walk old
        · obtain rfl := mem_singleton.mp now
          exact ⟨b :: bins, sound.holds.represents, by simp⟩
    obtain ⟨next, bins', run, kept, after, executed⟩ :=
      executing.calls (process b.top queue _ taken)
    refine ⟨next, bins', b.top, ?_, kept, scheduled, ?_, after.trans time, ?_⟩
    · rw [Recorded.serviceOne, taken]
      simp only [bind, Except.bind, holds.unsquashed b.top]
      exact run
    · intro x pending
      obtain ⟨le, inBin⟩ := sound.holds.least pending
      refine ⟨le, fun same other => ?_⟩
      have below : x ∈ b.below := (mem_cons.mp (inBin same)).resolve_left other
      exact (pairwise_cons.mp (sound.stacked b mem_cons_self)).1 x below
    · rw [executed]
      simp only [Recorded.executing, time]

theorem Sound.step (sound : r.Sound bins) {s : QueueStep ι} (allowed : r.Allows s) :
    ∃ next bins', r.step s = .ok next ∧ next.Sound bins' ∧
      r.queue.curTick ≤ next.queue.curTick := by
  cases s with
  | call c =>
    obtain ⟨next, bins', called, kept, time, -⟩ := sound.call allowed
    exact ⟨next, bins', called, kept, time.ge⟩
  | serviceOne inside =>
    obtain ⟨next, bins', e, serviced, kept, pending, -, time, -⟩ := sound.serviceOne allowed
    refine ⟨next, bins', serviced, kept, ?_⟩
    rw [time]
    exact sound.holds.ahead e pending

theorem Reached.sound (reached : r.Reached) : ∃ bins, r.Sound bins := by
  induction reached with
  | start priority curTick => exact ⟨[], start_sound priority curTick⟩
  | step s _ allowed called ih =>
    obtain ⟨bins, sound⟩ := ih
    obtain ⟨next, bins', called', kept, -⟩ := sound.step allowed
    rw [called] at called'
    cases called'
    exact ⟨bins', kept⟩

end Recorded

end Resister.Sim
