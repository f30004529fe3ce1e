import Resister.Network.MessageBuffer

/-!
# Order and conservation in a message buffer

No call loses or doubles a message, the heap gives the smallest key first, and in a strict FIFO
buffer without recycling the keys are in the order of the enqueues, so that a message coming back
from the stall map overtakes the younger ones.
-/

namespace Resister

open List

variable {α : Type*}

namespace MessageBuffer

/-! ### What a sequence of calls enqueues and dequeues -/

def enqueuedBy : BufferCall α → List α
  | .enqueue m _ _ => [m.body]
  | _ => []

def enqueued (calls : List (Nat × BufferCall α)) : List α := calls.flatMap fun c => enqueuedBy c.2

def dequeuedBy (b : MessageBuffer α) : BufferCall α → List α
  | .dequeue => (b.peek.map Message.body).toList
  | _ => []

def dequeued (ruby : RubySystem) : MessageBuffer α → List (Nat × BufferCall α) → List α
  | _, [] => []
  | b, c :: rest =>
    b.dequeuedBy c.2 ++
      match b.call ruby c.1 c.2 with
      | .ok b' => b'.dequeued ruby rest
      | .error _ => []

def contents (b : MessageBuffer α) : List (Message α) := b.prioHeap ++ b.stalled

variable {ruby : RubySystem} {b b' : MessageBuffer α}

theorem run_cons {c : Nat × BufferCall α}
    {rest : List (Nat × BufferCall α)} (reached : b.run ruby (c :: rest) = .ok b') :
    ∃ next, b.call ruby c.1 c.2 = .ok next ∧ next.run ruby rest = .ok b' := by
  unfold run at reached
  rw [foldlM_cons] at reached
  cases called : b.call ruby c.1 c.2 with
  | error failure =>
    rw [called] at reached
    simp [bind, Except.bind] at reached
  | ok next =>
    rw [called] at reached
    exact ⟨next, rfl, reached⟩

variable {calls : List (Nat × BufferCall α)}

theorem run_preserves {P : MessageBuffer α → Prop}
    (step : ∀ b time c b', Effect ruby b time c b' → P b → P b') (start : P b) (reached : b.run ruby calls = .ok b') :
    P b' := by
  induction calls generalizing b with
  | nil =>
    obtain rfl := Except.ok.inj reached
    exact start
  | cons c rest ih =>
    obtain ⟨next, called, onward⟩ := run_cons reached
    exact ih (step b c.1 c.2 next (call_effect called) start) onward

theorem pushHeap_perm (heap : List (Message α)) (m : Message α) : (pushHeap heap m).Perm (m :: heap) :=
  perm_orderedInsert _ m heap

theorem foldl_pushHeap_perm (waiting heap : List (Message α)) :
    (waiting.foldl pushHeap heap).Perm (waiting ++ heap) := by
  induction waiting generalizing heap with
  | nil => exact .refl _
  | cons m rest ih =>
    refine (ih (pushHeap heap m)).trans ?_
    exact ((pushHeap_perm heap m).append_left rest).trans perm_middle

theorem stallAt_perm (addr : Nat) (m : Message α) (map : List (Nat × List (Message α))) :
    ((stallAt addr m map).flatMap Prod.snd).Perm (m :: map.flatMap Prod.snd) := by
  induction map with
  | nil => simp [stallAt]
  | cons entry rest ih =>
    obtain ⟨a, stalled⟩ := entry
    unfold stallAt
    split
    · simp
    split
    · simp only [flatMap_cons, append_assoc, singleton_append]
      exact perm_middle
    · simp only [flatMap_cons]
      exact (ih.append_left stalled).trans perm_middle

theorem contents_inserted (ruby : RubySystem) (b : MessageBuffer α) (m : Message α) (time delta : Nat) (d : Draws) :
    (b.inserted ruby m time delta d).contents.Perm
      (b.stamp m time (b.arrivalTime ruby time delta d) :: b.contents) :=
  (pushHeap_perm _ _).append_right _

theorem contents_reanalyzed {waiting : List (Message α)} {size : Nat}
    {map : List (Nat × List (Message α))} (taken : b.stalled.Perm (waiting ++ map.flatMap Prod.snd)) :
    ({ b with
      prioHeap := waiting.foldl pushHeap b.prioHeap
      stallMapSize := size
      stallMsgMap := map } : MessageBuffer α).contents.Perm b.contents := by
  show (waiting.foldl pushHeap b.prioHeap ++ map.flatMap Prod.snd).Perm (b.prioHeap ++ b.stalled)
  refine ((foldl_pushHeap_perm waiting b.prioHeap).append_right _).trans ?_
  refine (perm_append_comm.append_right _).trans ?_
  rw [append_assoc]
  exact taken.symm.append_left _

def Requeues : BufferCall α → Prop
  | .recycle _ | .delayHead _ _ => True
  | _ => False

/-- How a call changes the contents and the counters that the keys of messages come from. -/
inductive Change (ruby : RubySystem) (b : MessageBuffer α) (c : BufferCall α) (b' : MessageBuffer α) : Prop
  | added (m : Message α) (sent : enqueuedBy c = [m.body]) (still : b.dequeuedBy c = [])
      (number : m.msgCounter = b.msgCounter + 1) (counter : b'.msgCounter = b.msgCounter + 1)
      (arrival : b.strictFifo = true → ruby.warmupEnabled = false →
        b.lastArrivalTime ≤ m.lastEnqueueTime ∧ b'.lastArrivalTime = m.lastEnqueueTime)
      (now : b'.contents.Perm (m :: b.contents))
  | removed (m : Message α) (quiet : enqueuedBy c = []) (gone : b.dequeuedBy c = [m.body])
      (counter : b'.msgCounter = b.msgCounter) (arrival : b'.lastArrivalTime = b.lastArrivalTime)
      (before : b.contents.Perm (m :: b'.contents))
  | replaced (m m' : Message α) (kept : List (Message α)) (quiet : enqueuedBy c = [])
      (still : b.dequeuedBy c = []) (body : m'.body = m.body)
      (number : m'.msgCounter = m.msgCounter ∧ b'.msgCounter = b.msgCounter ∨
        m'.msgCounter = b.msgCounter + 1 ∧ b'.msgCounter = b.msgCounter + 1)
      (arrival : ¬ Requeues c → b'.lastArrivalTime = b.lastArrivalTime ∧ b'.msgCounter = b.msgCounter ∧
        m'.lastEnqueueTime = m.lastEnqueueTime ∧ m'.msgCounter = m.msgCounter)
      (before : b.contents.Perm (m :: kept)) (now : b'.contents.Perm (m' :: kept))
  | rearranged (quiet : enqueuedBy c = []) (still : b.dequeuedBy c = [])
      (counter : b'.msgCounter = b.msgCounter) (arrival : b'.lastArrivalTime = b.lastArrivalTime)
      (now : b'.contents.Perm b.contents)

theorem contents_of_front {m : Message α} {rest : List (Message α)}
    (front : b.prioHeap = m :: rest) : b.contents = m :: (rest ++ b.stalled) := by
  rw [contents, front]
  rfl

theorem lastArrivalTime_le (ruby : RubySystem) (b : MessageBuffer α) (time : Nat) :
    b.lastArrivalTime ≤ b.lastArrival ruby time := by
  unfold lastArrival
  split <;> omega

variable {time : Nat} {c : BufferCall α}

theorem Effect.change (effect : Effect ruby b time c b') : Change ruby b c b' := by
  cases effect with
  | @enqueue m delta d fifo =>
    refine .added (b.stamp m time (b.arrivalTime ruby time delta d)) rfl rfl rfl rfl ?_
      (contents_inserted ..)
    intro strict cold
    refine ⟨Nat.le_trans (lastArrivalTime_le ruby b time) (fifo strict), ?_⟩
    simp [inserted, stamp, cold]
  | @dequeue m rest front recent =>
    refine .removed m rfl ?_ rfl rfl (.of_eq (contents_of_front front))
    simp [dequeuedBy, peek, front]
  | @recycle m rest latency front =>
    exact .replaced m { m with lastEnqueueTime := time + latency } _ rfl rfl rfl (Or.inl ⟨rfl, rfl⟩)
      (fun kept => absurd trivial kept) (.of_eq (contents_of_front front))
      ((pushHeap_perm _ _).append_right _)
  | @delayHead m rest delta d front =>
    refine .replaced m _ _ rfl rfl ?_ (Or.inr ⟨?_, rfl⟩) (fun kept => absurd trivial kept)
      (.of_eq (contents_of_front front))
      (contents_inserted ruby { b with prioHeap := rest } m time delta d)
    · rfl
    · rfl
  | @stallMessage m rest addr front recent =>
    exact .replaced m (m.updateDelayedTicks time) _ rfl rfl rfl (Or.inl ⟨rfl, rfl⟩)
      (fun _ => ⟨rfl, rfl, rfl, rfl⟩) (.of_eq (contents_of_front front))
      (((stallAt_perm ..).append_left rest).trans perm_middle)
  | reanalyze taken counted reanalyzes =>
    obtain rfl | ⟨addr, rfl⟩ := reanalyzes
    · exact .rearranged rfl rfl rfl rfl (contents_reanalyzed taken)
    · exact .rearranged rfl rfl rfl rfl (contents_reanalyzed taken)

theorem Change.conserves (change : Change ruby b c b') :
    (enqueuedBy c ++ b.contents.map Message.body).Perm
      (b.dequeuedBy c ++ b'.contents.map Message.body) := by
  cases change with
  | added m sent still _ _ _ now =>
    rw [sent, still]
    exact (now.map Message.body).symm
  | removed m quiet gone _ _ before =>
    rw [quiet, gone]
    exact before.map Message.body
  | replaced m m' kept quiet still body _ _ before now =>
    rw [quiet, still]
    refine (before.map Message.body).trans ?_
    have renamed := (now.map Message.body).symm
    rw [map_cons, body] at renamed
    exact renamed
  | rearranged quiet still _ _ now =>
    rw [quiet, still]
    exact (now.map Message.body).symm

theorem run_conserves (reached : b.run ruby calls = .ok b') :
    (enqueued calls ++ b.contents.map Message.body).Perm
      (b.dequeued ruby calls ++ b'.contents.map Message.body) := by
  induction calls generalizing b with
  | nil =>
    obtain rfl := Except.ok.inj reached
    exact .refl _
  | cons c rest ih =>
    obtain ⟨next, called, onward⟩ := run_cons reached
    have first := (call_effect called).change.conserves
    simp only [enqueued, flatMap_cons, dequeued, called, append_assoc]
    calc List.Perm (enqueuedBy c.2 ++ (enqueued rest ++ b.contents.map Message.body))
          (enqueued rest ++ (enqueuedBy c.2 ++ b.contents.map Message.body)) :=
          perm_append_comm_assoc _ _ _
      List.Perm _ (enqueued rest ++ (b.dequeuedBy c.2 ++ next.contents.map Message.body)) :=
          first.append_left _
      List.Perm _ (b.dequeuedBy c.2 ++ (enqueued rest ++ next.contents.map Message.body)) :=
          perm_append_comm_assoc _ _ _
      List.Perm _ (b.dequeuedBy c.2 ++ (next.dequeued ruby rest ++ b'.contents.map Message.body)) :=
          (ih onward).append_left _

structure Numbered (b : MessageBuffer α) : Prop where
  distinct : (b.contents.map Message.msgCounter).Nodup
  below : ∀ m ∈ b.contents, m.msgCounter ≤ b.msgCounter

theorem Change.numbered (change : Change ruby b c b') (numbered : Numbered b) : Numbered b' := by
  have new : b.msgCounter + 1 ∉ b.contents.map Message.msgCounter := by
    intro taken
    obtain ⟨m, inside, number⟩ := mem_map.mp taken
    have := numbered.below m inside
    omega
  cases change with
  | added m sent still number counter arrival now =>
    constructor
    · rw [(now.map Message.msgCounter).nodup_iff, map_cons, number]
      exact nodup_cons.mpr ⟨new, numbered.distinct⟩
    · intro m' inside
      obtain rfl | old := mem_cons.mp (now.mem_iff.mp inside)
      · omega
      · have := numbered.below m' old
        omega
  | removed m quiet gone counter arrival before =>
    constructor
    · have distinct := (before.map Message.msgCounter).nodup_iff.mp numbered.distinct
      exact (nodup_cons.mp distinct).2
    · intro m' inside
      rw [counter]
      exact numbered.below m' (before.mem_iff.mpr (mem_cons_of_mem m inside))
  | replaced m m' kept quiet still body number arrival before now =>
    have distinct := (before.map Message.msgCounter).nodup_iff.mp numbered.distinct
    have among : ∀ other ∈ m :: kept, other.msgCounter ≤ b.msgCounter := fun other inside =>
      numbered.below other (before.mem_iff.mpr inside)
    constructor
    · rw [(now.map Message.msgCounter).nodup_iff, map_cons]
      obtain ⟨same, -⟩ | ⟨fresh, -⟩ := number
      · rw [same]
        exact distinct
      · rw [fresh]
        refine nodup_cons.mpr ⟨fun taken => new ?_, (nodup_cons.mp distinct).2⟩
        exact (before.map Message.msgCounter).mem_iff.mpr (mem_cons_of_mem _ taken)
    · intro other inside
      obtain rfl | old := mem_cons.mp (now.mem_iff.mp inside)
      · have := among m mem_cons_self
        omega
      · have := among other (mem_cons_of_mem m old)
        omega
  | rearranged quiet still counter arrival now =>
    constructor
    · rw [(now.map Message.msgCounter).nodup_iff]
      exact numbered.distinct
    · intro m inside
      rw [counter]
      exact numbered.below m (now.mem_iff.mp inside)

/-- The heap is in the order of its keys and `m_stall_map_size` counts the stalled messages. -/
structure Kept (b : MessageBuffer α) : Prop where
  sorted : b.prioHeap.Pairwise Message.NotAfter
  counted : b.stallMapSize = b.stalled.length

theorem pushHeap_sorted {heap : List (Message α)} (sorted : heap.Pairwise Message.NotAfter) (m : Message α) :
    (pushHeap heap m).Pairwise Message.NotAfter :=
  sorted.orderedInsert m heap

theorem foldl_pushHeap_sorted {waiting heap : List (Message α)} (sorted : heap.Pairwise Message.NotAfter) :
    (waiting.foldl pushHeap heap).Pairwise Message.NotAfter := by
  induction waiting generalizing heap with
  | nil => exact sorted
  | cons m rest ih => exact ih (pushHeap_sorted sorted m)

theorem Effect.kept (effect : Effect ruby b time c b') (kept : Kept b) : Kept b' := by
  have tail : ∀ {m : Message α} {rest}, b.prioHeap = m :: rest → rest.Pairwise Message.NotAfter := by
    intro m rest front
    have sorted := kept.sorted
    rw [front] at sorted
    exact (pairwise_cons.mp sorted).2
  cases effect with
  | enqueue fifo => exact ⟨pushHeap_sorted kept.sorted _, kept.counted⟩
  | dequeue front recent => exact ⟨tail front, kept.counted⟩
  | recycle front => exact ⟨pushHeap_sorted (tail front) _, kept.counted⟩
  | delayHead front => exact ⟨pushHeap_sorted (tail front) _, kept.counted⟩
  | @stallMessage m rest addr front recent =>
    refine ⟨tail front, ?_⟩
    have grown := (stallAt_perm addr (m.updateDelayedTicks time) b.stallMsgMap).length_eq
    have before := kept.counted
    simp only [stalled, length_cons] at grown before ⊢
    omega
  | reanalyze taken counted reanalyzes =>
    refine ⟨foldl_pushHeap_sorted kept.sorted, ?_⟩
    have parts := taken.length_eq
    have before := kept.counted
    simp only [stalled, length_append] at parts before ⊢
    omega

theorem Effect.strictFifo_eq (effect : Effect ruby b time c b') : b'.strictFifo = b.strictFifo := by
  cases effect <;> rfl

/-- The messages `sent` so far have their places in it as numbers, and of two messages inside the one
sent first has the smaller key. -/
structure Fifo (sent : List α) (b : MessageBuffer α) : Prop where
  total : b.msgCounter = sent.length
  place : ∀ m ∈ b.contents, 0 < m.msgCounter ∧ sent[m.msgCounter - 1]? = some m.body
  last : ∀ m ∈ b.contents, m.lastEnqueueTime ≤ b.lastArrivalTime
  ordered : ∀ m ∈ b.contents, ∀ m' ∈ b.contents, m.msgCounter < m'.msgCounter →
    m.lastEnqueueTime ≤ m'.lastEnqueueTime

variable {sent : List α}

theorem Fifo.transfer (fifo : Fifo sent b)
    (counter : b'.msgCounter = b.msgCounter) (arrival : b'.lastArrivalTime = b.lastArrivalTime)
    (from_old : ∀ m' ∈ b'.contents, ∃ m ∈ b.contents, m'.body = m.body ∧
      m'.lastEnqueueTime = m.lastEnqueueTime ∧ m'.msgCounter = m.msgCounter) : Fifo sent b' := by
  constructor
  · rw [counter, fifo.total]
  · intro m' inside
    obtain ⟨m, old, body, -, number⟩ := from_old m' inside
    rw [body, number]
    exact fifo.place m old
  · intro m' inside
    obtain ⟨m, old, -, time, -⟩ := from_old m' inside
    rw [time, arrival]
    exact fifo.last m old
  · intro m₁ inside₁ m₂ inside₂ earlier
    obtain ⟨n₁, old₁, -, time₁, number₁⟩ := from_old m₁ inside₁
    obtain ⟨n₂, old₂, -, time₂, number₂⟩ := from_old m₂ inside₂
    rw [time₁, time₂]
    exact fifo.ordered n₁ old₁ n₂ old₂ (by omega)

theorem Change.fifo (change : Change ruby b c b') (strict : b.strictFifo = true) (cold : ruby.warmupEnabled = false)
    (once : ¬ Requeues c) (fifo : Fifo sent b) : Fifo (sent ++ enqueuedBy c) b' := by
  cases change with
  | added m new still number counter arrival now =>
    obtain ⟨later, latest⟩ := arrival strict cold
    rw [new]
    have earlier : ∀ old ∈ b.contents, old.msgCounter ≤ sent.length := by
      intro old inside
      obtain ⟨positive, place⟩ := fifo.place old inside
      obtain ⟨inside, -⟩ := List.getElem?_eq_some_iff.mp place
      omega
    have last : ∀ old ∈ b.contents, old.lastEnqueueTime ≤ m.lastEnqueueTime := fun old inside =>
      Nat.le_trans (fifo.last old inside) later
    constructor
    · rw [counter, fifo.total, length_append, length_singleton]
    · intro m' inside
      obtain rfl | old := mem_cons.mp (now.mem_iff.mp inside)
      · rw [number, fifo.total]
        simp
      · obtain ⟨positive, place⟩ := fifo.place m' old
        have inside_sent : m'.msgCounter - 1 < sent.length := by
          have := earlier m' old
          omega
        rw [List.getElem?_append_left inside_sent]
        exact ⟨positive, place⟩
    · intro m' inside
      rw [latest]
      obtain rfl | old := mem_cons.mp (now.mem_iff.mp inside)
      · exact Nat.le_refl _
      · exact last m' old
    · intro m₁ inside₁ m₂ inside₂ before
      obtain rfl | old₂ := mem_cons.mp (now.mem_iff.mp inside₂)
      · obtain rfl | old₁ := mem_cons.mp (now.mem_iff.mp inside₁)
        · exact Nat.le_refl _
        · exact last m₁ old₁
      · obtain rfl | old₁ := mem_cons.mp (now.mem_iff.mp inside₁)
        · have := earlier m₂ old₂
          have := fifo.total
          omega
        · exact fifo.ordered m₁ old₁ m₂ old₂ before
  | removed m quiet gone counter arrival before =>
    rw [quiet, append_nil]
    exact fifo.transfer counter arrival fun m' inside =>
      ⟨m', before.mem_iff.mpr (mem_cons_of_mem m inside), rfl, rfl, rfl⟩
  | replaced m m' kept quiet still body number arrival before now =>
    rw [quiet, append_nil]
    obtain ⟨latest, counter, time, same⟩ := arrival once
    refine fifo.transfer counter latest fun other inside => ?_
    obtain rfl | old := mem_cons.mp (now.mem_iff.mp inside)
    · exact ⟨m, before.mem_iff.mpr mem_cons_self, body, time, same⟩
    · exact ⟨other, before.mem_iff.mpr (mem_cons_of_mem m old), rfl, rfl, rfl⟩
  | rearranged quiet still counter arrival now =>
    rw [quiet, append_nil]
    exact fifo.transfer counter arrival fun m' inside => ⟨m', now.mem_iff.mp inside, rfl, rfl, rfl⟩

theorem run_fifo (strict : b.strictFifo = true) (cold : ruby.warmupEnabled = false)
    (once : ∀ c ∈ calls, ¬ Requeues c.2) (fifo : Fifo sent b) (reached : b.run ruby calls = .ok b') :
    Fifo (sent ++ enqueued calls) b' := by
  induction calls generalizing b sent with
  | nil =>
    obtain rfl := Except.ok.inj reached
    simpa [enqueued] using fifo
  | cons c rest ih =>
    obtain ⟨next, called, onward⟩ := run_cons reached
    have effect := call_effect called
    have first := effect.change.fifo strict cold (once c mem_cons_self) fifo
    have whole := ih (effect.strictFifo_eq ▸ strict) (fun c' later => once c' (mem_cons_of_mem c later))
      first onward
    simpa [enqueued, append_assoc] using whole

theorem Kept.peek_smallest (kept : Kept b) {m : Message α} (front : b.peek = some m) :
    ∀ m' ∈ b.prioHeap, m.NotAfter m' := by
  obtain ⟨rest, whole⟩ := List.head?_eq_some_iff.mp front
  have sorted := kept.sorted
  rw [whole] at sorted ⊢
  intro m' inside
  obtain rfl | later := mem_cons.mp inside
  · exact Message.notAfter_iff.mpr (by omega)
  · exact (pairwise_cons.mp sorted).1 m' later

theorem IsNew.contents (new : b.IsNew) : b.contents = [] := by
  obtain ⟨heap, map, -⟩ := new
  simp [MessageBuffer.contents, stalled, heap, map]

/-- Three messages, of which the first is stalled, lets the second pass and leaves before the third. -/
def stalledAndReanalyzed : List (Nat × BufferCall Nat) :=
  [(1, .enqueue ⟨10, 0, 0, 0⟩ 1 .least), (1, .enqueue ⟨20, 0, 0, 0⟩ 1 .least),
    (2, .stallMessage 64), (2, .dequeue), (2, .enqueue ⟨30, 1, 0, 0⟩ 1 .least),
    (3, .reanalyzeMessages 64), (4, .dequeue)]

end MessageBuffer

end Resister
