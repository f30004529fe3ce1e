import Mathlib

/-!
# Wakeups

A consumer is woken at edges of its clock, for which wakeups have been requested, and then takes at
most one item from each of its queues.
-/

namespace Resister.Library

def clockEdge (period tick : Nat) : Nat := (tick + period - 1) / period * period

def nextEdge (period tick : Nat) : Nat := (tick / period + 1) * period

section Edges

variable {period tick : Nat}

theorem le_clockEdge (pos : 0 < period) : tick ≤ clockEdge period tick := by
  have bound := Nat.lt_div_mul_add pos (a := tick + period - 1)
  rw [clockEdge]
  omega

theorem dvd_clockEdge : period ∣ clockEdge period tick := Nat.dvd_mul_left ..

theorem clockEdge_of_dvd (edge : period ∣ tick) : clockEdge period tick = tick := by
  obtain ⟨cycles, rfl⟩ := edge
  rcases Nat.eq_zero_or_pos period with rfl | pos
  · simp [clockEdge]
  · have rounded : (period * cycles + period - 1) / period = cycles := by
      rw [Nat.add_sub_assoc pos, Nat.mul_add_div pos, Nat.div_eq_of_lt (by omega), Nat.add_zero]
    rw [clockEdge, rounded, Nat.mul_comm]

theorem clockEdge_le {edge : Nat} (isEdge : period ∣ edge) (le : tick ≤ edge) :
    clockEdge period tick ≤ edge :=
  calc clockEdge period tick
    _ ≤ clockEdge period edge := Nat.mul_le_mul_right _ (Nat.div_le_div_right (by omega))
    _ = edge := clockEdge_of_dvd isEdge

theorem nextEdge_of_dvd (edge : period ∣ tick) : nextEdge period tick = tick + period := by
  rw [nextEdge, Nat.add_mul, Nat.div_mul_cancel edge, Nat.one_mul]

theorem nextEdge_mono {later : Nat} (le : tick ≤ later) : nextEdge period tick ≤ nextEdge period later :=
  Nat.mul_le_mul_right _ (Nat.add_le_add_right (Nat.div_le_div_right le) 1)

end Edges

/-- An item that is ready at `ready`, with the pending wakeups of its consumer. While the consumer is
awake, nothing is asked for an item that is ready. -/
def Expected (awake : Prop) (period : Nat) (ticks : List Nat) (now ready : Nat) : Prop :=
  clockEdge period ready ∈ ticks ∨ ready ≤ now ∧ (awake ∨ ∃ tick ∈ ticks, tick ≤ nextEdge period now)

namespace Expected

variable {awake : Prop} {period : Nat} {ticks ticks' : List Nat} {now t ready : Nat}

theorem mono (expected : Expected awake period ticks now ready) (kept : ticks ⊆ ticks') (later : now ≤ t) :
    Expected awake period ticks' t ready := by
  rcases expected with own | ⟨isReady, busy | ⟨tick, pending, soon⟩⟩
  · exact Or.inl (kept own)
  · exact Or.inr ⟨isReady.trans later, Or.inl busy⟩
  · exact Or.inr ⟨isReady.trans later, Or.inr ⟨tick, kept pending, soon.trans (nextEdge_mono later)⟩⟩

theorem wake (expected : Expected False period ticks now ready) (pos : 0 < period) (later : now ≤ t)
    (kept : ∀ tick ∈ ticks, ¬ awake ∨ tick ≠ t → tick ∈ ticks') : Expected awake period ticks' t ready := by
  by_cases busy : awake
  · by_cases isReady : ready ≤ t
    · exact Or.inr ⟨isReady, Or.inl busy⟩
    · rcases expected with own | ⟨early, -⟩
      · have future : ready ≤ clockEdge period ready := le_clockEdge pos
        exact Or.inl (kept _ own (Or.inr (by omega)))
      · omega
  · have all : ticks ⊆ ticks' := fun tick member => kept tick member (Or.inl busy)
    rcases expected.mono all later with own | ⟨isReady, never | soon⟩
    · exact Or.inl own
    · exact never.elim
    · exact Or.inr ⟨isReady, Or.inr soon⟩

theorem settle (expected : Expected awake period ticks now ready)
    (again : awake → ready ≤ now → ∃ tick ∈ ticks, tick ≤ nextEdge period now) :
    Expected False period ticks now ready := by
  rcases expected with own | ⟨isReady, busy | soon⟩
  · exact Or.inl own
  · exact Or.inr ⟨isReady, Or.inr (again busy isReady)⟩
  · exact Or.inr ⟨isReady, Or.inr soon⟩

theorem deadline (expected : Expected False period ticks now ready) :
    ∃ tick ∈ ticks, tick ≤ max (nextEdge period now) (clockEdge period ready) := by
  rcases expected with own | ⟨-, busy | ⟨tick, pending, soon⟩⟩
  · exact ⟨_, own, le_max_right _ _⟩
  · exact busy.elim
  · exact ⟨tick, pending, soon.trans (le_max_left _ _)⟩

end Expected

/-- A queue whose items become ready in order, the last one no later than `bound`. -/
structure InTime {α : Type*} (time : α → Nat) (bound : Nat) (queue : List α) : Prop where
  ordered : queue.Pairwise fun a b => time a ≤ time b
  le : ∀ x ∈ queue, time x ≤ bound

namespace InTime

variable {α : Type*} {time : α → Nat} {bound later t : Nat} {queue rest : List α} {x : α}

theorem nil : InTime time bound [] := ⟨List.Pairwise.nil, nofun⟩

theorem mono (inTime : InTime time bound queue) (le : bound ≤ later) : InTime time later queue :=
  ⟨inTime.ordered, fun x member => (inTime.le x member).trans le⟩

theorem sublist (inTime : InTime time bound queue) (part : rest.Sublist queue) : InTime time bound rest :=
  ⟨inTime.ordered.sublist part, fun y member => inTime.le y (part.subset member)⟩

theorem push (inTime : InTime time bound queue) (last : time x = bound) : InTime time bound (queue ++ [x]) := by
  constructor
  · refine List.pairwise_append.mpr ⟨inTime.ordered, List.pairwise_singleton .., fun y member z single => ?_⟩
    obtain rfl := List.mem_singleton.mp single
    rw [last]
    exact inTime.le y member
  · intro y member
    rcases List.mem_append.mp member with old | single
    · exact inTime.le y old
    · obtain rfl := List.mem_singleton.mp single
      exact last.le

theorem head_ready (inTime : InTime time bound queue) (member : x ∈ queue) (ready : time x ≤ t) :
    ∃ first rest, queue = first :: rest ∧ time first ≤ t := by
  cases queue with
  | nil => cases member
  | cons first rest =>
    refine ⟨first, rest, rfl, ?_⟩
    rcases List.mem_cons.mp member with rfl | later
    · exact ready
    · exact (List.rel_of_pairwise_cons inTime.ordered later).trans ready

end InTime

end Resister.Library
