import Mathlib.Data.List.Range
import Mathlib.Data.List.Perm.Basic

/-!
# Token rings

A token goes round the stations `0, …, n - 1`. In each round it visits them in an order of that
round.
-/

namespace Resister.Library

open List

structure TokenRing (n : Nat) where
  order : List Nat
  position : Nat
  perm : order.Perm (List.range n)
  inside : position < n

namespace TokenRing

variable {n : Nat}

theorem length_order (ring : TokenRing n) : ring.order.length = n := by
  simpa using ring.perm.length_eq

def holder (ring : TokenRing n) : Nat := ring.order.get ⟨ring.position, by rw [ring.length_order]; exact ring.inside⟩

theorem getElem?_position (ring : TokenRing n) : ring.order[ring.position]? = some ring.holder :=
  List.getElem?_eq_getElem _

theorem holder_lt (ring : TokenRing n) : ring.holder < n :=
  mem_range.mp (ring.perm.mem_iff.mp (get_mem ..))

def next (ring : TokenRing n) (more : ring.position + 1 < n) : TokenRing n :=
  { ring with position := ring.position + 1, inside := more }

def fresh (order : List Nat) (perm : order.Perm (List.range n)) (some : 0 < n) : TokenRing n := ⟨order, 0, perm, some⟩

inductive Passes : TokenRing n → List (Nat × Bool) → TokenRing n → Prop where
  | nil (ring : TokenRing n) : Passes ring [] ring
  | next {ring last : TokenRing n} {trace : List (Nat × Bool)} (more : ring.position + 1 < n)
      (rest : Passes (ring.next more) trace last) : Passes ring (((ring.next more).holder, false) :: trace) last
  | newRound {ring last : TokenRing n} {trace : List (Nat × Bool)} (complete : ring.position + 1 = n)
      {order : List Nat} (perm : order.Perm (List.range n)) (some : 0 < n)
      (rest : Passes (fresh order perm some) trace last) :
      Passes ring (((fresh order perm some).holder, true) :: trace) last

namespace Passes

variable {ring middle last : TokenRing n} {first second : List (Nat × Bool)}

theorem append (before : Passes ring first middle) (after : Passes middle second last) :
    Passes ring (first ++ second) last := by
  induction before with
  | nil => exact after
  | next more _ ih => exact .next more (ih after)
  | newRound complete perm some _ ih => exact .newRound complete perm some (ih after)

theorem split (passes : Passes ring (first ++ second) last) : ∃ middle, Passes ring first middle ∧
    Passes middle second last := by
  induction first generalizing ring with
  | nil => exact ⟨ring, .nil ring, passes⟩
  | cons handover first ih =>
    cases passes with
    | next more rest =>
      obtain ⟨middle, before, after⟩ := ih rest
      exact ⟨middle, .next more before, after⟩
    | newRound complete perm some rest =>
      obtain ⟨middle, before, after⟩ := ih rest
      exact ⟨middle, .newRound complete perm some before, after⟩

theorem steady (passes : Passes ring first last) (same : ∀ handover ∈ first, handover.2 = false) :
    last.order = ring.order ∧ last.position = ring.position + first.length ∧
      first.map Prod.fst = (ring.order.drop (ring.position + 1)).take first.length := by
  induction passes with
  | nil => exact ⟨rfl, rfl, rfl⟩
  | @next ring last trace more _ ih =>
    obtain ⟨order, position, visited⟩ := ih fun handover later => same handover (mem_cons_of_mem _ later)
    refine ⟨order, ?_, ?_⟩
    · rw [position, length_cons]
      show ring.position + 1 + trace.length = ring.position + (trace.length + 1)
      omega
    · have below : ring.position + 1 < ring.order.length := by rw [ring.length_order]; exact more
      rw [map_cons, visited, length_cons, drop_eq_getElem_cons below, take_succ_cons]
      rfl
  | newRound => exact absurd (same _ mem_cons_self) (by simp)

theorem round {before trace after : List (Nat × Bool)} {station other : Nat}
    (passes : Passes ring (before ++ (station, true) :: (trace ++ (other, true) :: after)) last)
    (same : ∀ handover ∈ trace, handover.2 = false) : (station :: trace.map Prod.fst).Perm (List.range n) := by
  obtain ⟨start, -, passes⟩ := passes.split
  cases passes with
  | @newRound _ _ _ _ order perm some rest =>
    obtain ⟨full, during, next⟩ := rest.split
    obtain ⟨-, position, visited⟩ := during.steady same
    have length : order.length = n := by simpa using perm.length_eq
    have count : trace.length + 1 = n := by
      cases next with
      | newRound complete =>
        rw [position] at complete
        have start : (fresh order perm some).position = 0 := rfl
        omega
    have all : (fresh order perm some).holder :: trace.map Prod.fst = order := by
      rw [visited]
      show order.get _ :: (order.drop 1).take trace.length = order
      have whole : (order.drop 1).take trace.length = order.drop 1 := by
        rw [take_of_length_le]
        rw [length_drop]
        omega
      rw [whole]
      have head := drop_eq_getElem_cons (l := order) (i := 0) (by omega)
      rw [drop_zero] at head
      exact head.symm
    rw [all]
    exact perm

end Passes

end TokenRing

end Resister.Library
