import Resister.Network.MessageOrder

/-!
# The capacity of a message buffer

`areNSlotsAvailable` answers from sizes kept since the first pop of the cycle.
-/

namespace Resister

open List Nat

variable {α : Type*}

namespace Garnet.MessageBuffer

variable {b : MessageBuffer} {now time : Nat}

/-- What the sizes kept at the first pop of a cycle say of the messages inside. -/
structure Visible (b : MessageBuffer) (now : Nat) : Prop where
  popped : b.timeLastTimePop ≤ now
  enqueued : b.timeLastTimeEnqueue ≤ now
  quiet : b.timeLastTimeEnqueue < b.timeLastTimePop →
    b.messages ≤ b.sizeAtCycleStart + b.stalledAtCycleStart
  busy : b.timeLastTimeEnqueue = b.timeLastTimePop →
    b.messages ≤ b.sizeAtCycleStart + b.stalledAtCycleStart + b.msgsThisCycle

theorem Visible.messages_le (visible : Visible b now) (later : now ≤ time) :
    b.messages ≤ b.currentSize time := by
  obtain ⟨popped, enqueued, quiet, busy⟩ := visible
  unfold currentSize
  split
  · exact le_refl _
  split
  · have := quiet (by omega)
    omega
  · have := busy (by omega)
    omega

theorem Visible.enqueue (visible : Visible b now) (later : now ≤ time) : Visible (b.enqueue time) time := by
  obtain ⟨popped, enqueued, quiet, busy⟩ := visible
  unfold messages at quiet busy
  unfold MessageBuffer.enqueue
  constructor
  · show b.timeLastTimePop ≤ time
    omega
  · show (if b.timeLastTimeEnqueue < time then time else b.timeLastTimeEnqueue) ≤ time
    split <;> omega
  · simp only [messages]
    split <;> omega
  · simp only [messages]
    split <;> omega

theorem Visible.dequeue (visible : Visible b now) (later : now ≤ time) : Visible (b.dequeue time) time := by
  obtain ⟨popped, enqueued, quiet, busy⟩ := visible
  unfold messages at quiet busy
  unfold MessageBuffer.dequeue
  constructor
  · show (if b.timeLastTimePop < time then time else b.timeLastTimePop) ≤ time
    split <;> omega
  · show b.timeLastTimeEnqueue ≤ time
    omega
  · simp only [messages]
    split <;> omega
  · simp only [messages]
    split <;> omega

theorem Visible.stallMessage (visible : Visible b now) (later : now ≤ time) (nonempty : 0 < b.heapSize) :
    Visible (b.stallMessage time) time := by
  obtain ⟨popped, enqueued, quiet, busy⟩ := visible
  unfold messages at quiet busy
  unfold MessageBuffer.stallMessage MessageBuffer.dequeue
  constructor
  · show (if b.timeLastTimePop < time then time else b.timeLastTimePop) ≤ time
    split <;> omega
  · show b.timeLastTimeEnqueue ≤ time
    omega
  · simp only [messages]
    split <;> omega
  · simp only [messages]
    split <;> omega

theorem Visible.transfer {heapSize stallMapSize : Nat} (visible : Visible b now) (later : now ≤ time)
    (same : heapSize + stallMapSize ≤ b.messages) :
    Visible { b with heapSize := heapSize, stallMapSize := stallMapSize } time :=
  ⟨le_trans visible.popped later, le_trans visible.enqueued later,
    fun quiet => le_trans same (visible.quiet quiet), fun busy => le_trans same (visible.busy busy)⟩

end Garnet.MessageBuffer

namespace MessageBuffer

def sizes (b : MessageBuffer α) : Garnet.MessageBuffer where
  maxSize := b.maxSize
  heapSize := b.prioHeap.length
  stallMapSize := b.stallMapSize
  timeLastTimeEnqueue := b.timeLastTimeEnqueue
  timeLastTimePop := b.timeLastTimePop
  sizeAtCycleStart := b.sizeAtCycleStart
  stalledAtCycleStart := b.stalledAtCycleStart
  msgsThisCycle := b.msgsThisCycle

theorem sizes_areNSlotsAvailable (b : MessageBuffer α) (n time : Nat) :
    b.sizes.areNSlotsAvailable n time = b.areNSlotsAvailable n time := by
  unfold areNSlotsAvailable Garnet.MessageBuffer.areNSlotsAvailable Garnet.MessageBuffer.currentSize
  by_cases unbounded : b.maxSize = 0
  · simp [sizes, unbounded]
  · have bounded : (b.maxSize == 0) = false := by simpa using unbounded
    by_cases popped : b.timeLastTimePop < time
    · simp only [sizes, unbounded, bounded, popped, if_true, if_false, Bool.false_or]
    · simp only [sizes, unbounded, bounded, popped, if_false, Bool.false_or]
      rfl

@[simp] theorem pushHeap_length (heap : List (Message α)) (m : Message α) :
    (pushHeap heap m).length = heap.length + 1 :=
  (pushHeap_perm heap m).length_eq

@[simp] theorem foldl_pushHeap_length (waiting heap : List (Message α)) :
    (waiting.foldl pushHeap heap).length = waiting.length + heap.length := by
  rw [(foldl_pushHeap_perm waiting heap).length_eq, length_append]

theorem sizes_inserted (ruby : RubySystem) (b : MessageBuffer α) (m : Message α) (time delta : Nat) (d : Draws) :
    (b.inserted ruby m time delta d).sizes = b.sizes.enqueue time := by
  unfold sizes inserted Garnet.MessageBuffer.enqueue
  simp only [pushHeap_length]

variable {ruby : RubySystem} {b b' : MessageBuffer α} {time : Nat} {c : BufferCall α}

theorem Effect.sizes_visible {now : Nat}
    (effect : Effect ruby b time c b') (later : now ≤ time) (visible : b.sizes.Visible now) :
    b'.sizes.Visible time := by
  cases effect with
  | @enqueue m delta d fifo =>
    rw [sizes_inserted]
    exact visible.enqueue later
  | @dequeue m rest front recent =>
    have same : (b.popped time rest).sizes = b.sizes.dequeue time := by
      simp [sizes, popped, Garnet.MessageBuffer.dequeue, front]
    rw [same]
    exact visible.dequeue later
  | @recycle m rest latency front =>
    refine visible.transfer later (le_of_eq ?_)
    simp [sizes, Garnet.MessageBuffer.messages, front]
  | @delayHead m rest delta d front =>
    have smaller : ({ b with prioHeap := rest } : MessageBuffer α).sizes.Visible now := by
      refine visible.transfer (le_refl _) ?_
      simp only [sizes, Garnet.MessageBuffer.messages, front, length_cons]
      omega
    rw [sizes_inserted]
    exact smaller.enqueue later
  | @stallMessage m rest addr front recent =>
    have same : ({ b.popped time rest with
        stallMsgMap := stallAt addr (m.updateDelayedTicks time) b.stallMsgMap
        stallMapSize := b.stallMapSize + 1 } : MessageBuffer α).sizes = b.sizes.stallMessage time := by
      simp [sizes, popped, Garnet.MessageBuffer.stallMessage, Garnet.MessageBuffer.dequeue, front]
    rw [same]
    exact visible.stallMessage later (by simp [sizes, front])
  | @reanalyze c waiting map taken counted reanalyzes =>
    refine visible.transfer later (le_of_eq ?_)
    simp only [sizes, Garnet.MessageBuffer.messages, foldl_pushHeap_length]
    omega

theorem run_visible {calls : List (Nat × BufferCall α)}
    {now : Nat} (ordered : calls.Pairwise fun c c' => c.1 ≤ c'.1) (from_now : ∀ c ∈ calls, now ≤ c.1)
    (until_time : ∀ c ∈ calls, c.1 ≤ time) (later : now ≤ time) (visible : b.sizes.Visible now)
    (reached : b.run ruby calls = .ok b') : ∃ last ≤ time, b'.sizes.Visible last := by
  induction calls generalizing b now with
  | nil =>
    obtain rfl := Except.ok.inj reached
    exact ⟨now, later, visible⟩
  | cons c rest ih =>
    obtain ⟨next, called, onward⟩ := run_cons reached
    obtain ⟨first, ordered⟩ := pairwise_cons.mp ordered
    have step := (call_effect called).sizes_visible (from_now c mem_cons_self) visible
    exact ih ordered first (fun c' inside => until_time c' (mem_cons_of_mem c inside))
      (until_time c mem_cons_self) step onward

theorem Effect.messages_le (effect : Effect ruby b time c b') :
    b'.maxSize = b.maxSize ∧ b'.sizes.messages ≤ b.sizes.messages + (enqueuedBy c).length := by
  cases effect with
  | enqueue fifo =>
    refine ⟨rfl, ?_⟩
    simp only [sizes, inserted, Garnet.MessageBuffer.messages, pushHeap_length, enqueuedBy, length_singleton]
    omega
  | dequeue front recent =>
    refine ⟨rfl, ?_⟩
    simp only [sizes, popped, Garnet.MessageBuffer.messages, front, length_cons]
    omega
  | recycle front =>
    refine ⟨rfl, ?_⟩
    simp only [sizes, Garnet.MessageBuffer.messages, pushHeap_length, front, length_cons]
    omega
  | delayHead front =>
    refine ⟨rfl, ?_⟩
    simp only [sizes, inserted, Garnet.MessageBuffer.messages, pushHeap_length, front, length_cons]
    omega
  | stallMessage front recent =>
    refine ⟨rfl, ?_⟩
    simp only [sizes, popped, Garnet.MessageBuffer.messages, front, length_cons]
    omega
  | reanalyze taken counted reanalyzes =>
    refine ⟨rfl, ?_⟩
    simp only [sizes, Garnet.MessageBuffer.messages, foldl_pushHeap_length]
    omega

theorem enqueue_full {m : Message α} {delta : Nat} {d : Draws}
    (failed : b.enqueue ruby m time delta d = .error .full) : b.maxSize < b.sizes.messages + 1 := by
  unfold enqueue at failed
  split at failed
  · simp at failed
  split at failed
  · simp at failed
  split at failed
  · simp at failed
  simp only at failed
  split at failed
  · simp at failed
  · rename_i full
    simp only [inserted, pushHeap_length] at full
    simp only [sizes, Garnet.MessageBuffer.messages]
    omega

theorem reanalyzeList_ne_full {tick : Nat} {waiting heap : List (Message α)} :
    reanalyzeList tick waiting heap ≠ .error .full := by
  intro failed
  induction waiting generalizing heap with
  | nil => simp [reanalyzeList] at failed
  | cons m rest ih =>
    unfold reanalyzeList at failed
    split at failed
    · exact ih failed
    · simp at failed

theorem reanalyzeMap_ne_full {tick size : Nat} {map : List (Nat × List (Message α))} {heap : List (Message α)} :
    reanalyzeMap tick map (heap, size) ≠ .error .full := by
  intro failed
  induction map generalizing heap size with
  | nil => simp [reanalyzeMap] at failed
  | cons entry rest ih =>
    unfold reanalyzeMap at failed
    split at failed
    · cases listed : reanalyzeList tick entry.2 heap with
      | error failure =>
        rw [listed] at failed
        obtain rfl := Except.error.inj failed
        exact reanalyzeList_ne_full listed
      | ok heap' =>
        rw [listed] at failed
        exact ih failed
    · simp at failed

theorem call_full
    (failed : b.call ruby time c = .error .full) : b.maxSize < b.sizes.messages + (enqueuedBy c).length := by
  cases c with
  | enqueue m delta d => exact enqueue_full failed
  | dequeue =>
    simp only [call, dequeue] at failed
    split at failed
    · simp [Except.map] at failed
    · split at failed <;> simp [Except.map] at failed
  | recycle latency =>
    simp only [call, recycle] at failed
    split at failed
    · simp at failed
    · split at failed <;> simp at failed
  | delayHead delta d =>
    simp only [call, delayHead] at failed
    split at failed
    · simp at failed
    · rename_i m rest front
      have small := enqueue_full failed
      simp only [sizes, Garnet.MessageBuffer.messages, front, length_cons, enqueuedBy] at small ⊢
      omega
  | stallMessage addr =>
    simp only [call, stallMessage] at failed
    split at failed
    · simp at failed
    · split at failed
      · split at failed <;> simp at failed
      · simp at failed
  | reanalyzeMessages addr =>
    simp only [call, reanalyzeMessages] at failed
    split at failed
    · simp at failed
    · split at failed
      · rename_i waiting found counted
        cases listed : reanalyzeList time waiting b.prioHeap with
        | error failure =>
          rw [listed] at failed
          obtain rfl := Except.error.inj failed
          exact absurd listed reanalyzeList_ne_full
        | ok heap =>
          rw [listed] at failed
          simp [bind, Except.bind] at failed
      · simp at failed
  | reanalyzeAllMessages =>
    simp only [call, reanalyzeAllMessages] at failed
    cases looped : reanalyzeMap time b.stallMsgMap (b.prioHeap, b.stallMapSize) with
    | error failure =>
      rw [looped] at failed
      obtain rfl := Except.error.inj failed
      exact absurd looped reanalyzeMap_ne_full
    | ok reached =>
      rw [looped] at failed
      simp [bind, Except.bind] at failed

theorem run_ne_full {calls : List (Nat × BufferCall α)}
    (room : b.sizes.messages + (enqueued calls).length ≤ b.maxSize) : b.run ruby calls ≠ .error .full := by
  intro failed
  induction calls generalizing b with
  | nil => simp [run, pure, Except.pure] at failed
  | cons c rest ih =>
    have parts : (enqueued (c :: rest)).length = (enqueuedBy c.2).length + (enqueued rest).length := by
      simp [enqueued]
    unfold run at failed
    rw [foldlM_cons] at failed
    cases called : b.call ruby c.1 c.2 with
    | error failure =>
      rw [called] at failed
      obtain rfl := Except.error.inj failed
      have := call_full called
      omega
    | ok next =>
      rw [called] at failed
      obtain ⟨bound, grown⟩ := (call_effect called).messages_le
      exact ih (by omega) failed

def takenAndStalled : List (Nat × BufferCall Nat) :=
  [(1, .enqueue ⟨10, 0, 0, 0⟩ 1 .least), (1, .enqueue ⟨20, 0, 0, 0⟩ 1 .least),
    (1, .enqueue ⟨30, 0, 0, 0⟩ 1 .least), (2, .dequeue), (2, .stallMessage 64)]

end MessageBuffer

end Resister
