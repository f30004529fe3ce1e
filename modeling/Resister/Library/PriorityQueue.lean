import Mathlib.Data.Multiset.AddSub

/-!
# Priority queues

What a priority queue promises, whatever it is made of: `pop` gives an element of least rank. Which
one of several it gives is left open.
-/

namespace Resister

structure PriorityQueue (α : Type) (rank : α → Nat) where
  Queue : Type
  empty : Queue
  push : Queue → α → Queue
  pop : Queue → Option (α × Queue)
  size : Queue → Nat
  contents : Queue → Multiset α
  contents_empty : contents empty = 0
  contents_push : ∀ q x, contents (push q x) = x ::ₘ contents q
  pop_none : ∀ q, pop q = none → contents q = 0
  pop_some : ∀ q x rest, pop q = some (x, rest) →
    contents q = x ::ₘ contents rest ∧ ∀ y ∈ contents rest, rank x ≤ rank y
  size_eq : ∀ q, size q = (contents q).card

namespace PriorityQueue

variable {α : Type} {rank : α → Nat}

theorem pop_of_pos (P : PriorityQueue α rank) {q : P.Queue} (some_left : 0 < P.size q) :
    ∃ x rest, P.pop q = some (x, rest) ∧ P.size q = P.size rest + 1 := by
  cases popped : P.pop q with
  | none =>
    rw [P.size_eq, P.pop_none q popped] at some_left
    exact absurd some_left (Nat.lt_irrefl 0)
  | some pair =>
    refine ⟨pair.1, pair.2, rfl, ?_⟩
    rw [P.size_eq, P.size_eq, (P.pop_some q pair.1 pair.2 popped).1, Multiset.card_cons]

theorem size_push (P : PriorityQueue α rank) (q : P.Queue) (x : α) : P.size (P.push q x) = P.size q + 1 := by
  rw [P.size_eq, P.contents_push, Multiset.card_cons, P.size_eq]

theorem size_empty (P : PriorityQueue α rank) : P.size P.empty = 0 := by
  rw [P.size_eq, P.contents_empty]
  rfl

def insert (rank : α → Nat) (x : α) : List α → List α
  | [] => [x]
  | y :: rest => if rank y < rank x then y :: insert rank x rest else x :: y :: rest

theorem insert_perm (x : α) (list : List α) : (insert rank x list).Perm (x :: list) := by
  induction list with
  | nil => exact List.Perm.refl _
  | cons y rest ih =>
    unfold insert
    split
    · exact (ih.cons y).trans (List.Perm.swap x y rest)
    · exact List.Perm.refl _

theorem insert_sorted {list : List α} (x : α) (sorted : list.Pairwise fun a b => rank a ≤ rank b) :
    (insert rank x list).Pairwise fun a b => rank a ≤ rank b := by
  induction list with
  | nil => exact List.pairwise_singleton _ _
  | cons y rest ih =>
    obtain ⟨first, sorted⟩ := List.pairwise_cons.mp sorted
    unfold insert
    split
    · rename_i less
      refine List.pairwise_cons.mpr ⟨?_, ih sorted⟩
      intro z member
      rcases List.mem_cons.mp ((insert_perm x rest).mem_iff.mp member) with rfl | later
      · exact less.le
      · exact first z later
    · rename_i least
      have le := Nat.not_lt.mp least
      refine List.pairwise_cons.mpr ⟨?_, List.pairwise_cons.mpr ⟨first, sorted⟩⟩
      intro z member
      rcases List.mem_cons.mp member with rfl | later
      · exact le
      · exact le_trans le (first z later)

def sortedList (rank : α → Nat) : PriorityQueue α rank where
  Queue := { list : List α // list.Pairwise fun a b => rank a ≤ rank b }
  empty := ⟨[], List.Pairwise.nil⟩
  push q x := ⟨insert rank x q.1, insert_sorted x q.2⟩
  pop q :=
    match q with
    | ⟨[], _⟩ => none
    | ⟨x :: rest, sorted⟩ => some (x, ⟨rest, (List.pairwise_cons.mp sorted).2⟩)
  size q := q.1.length
  contents q := q.1
  contents_empty := rfl
  contents_push q x := Multiset.coe_eq_coe.mpr (insert_perm x q.1)
  pop_none q popped := by
    obtain ⟨list, sorted⟩ := q
    cases list with
    | nil => rfl
    | cons x rest => cases popped
  pop_some q x rest popped := by
    obtain ⟨list, sorted⟩ := q
    cases list with
    | nil => cases popped
    | cons y others =>
      cases popped
      refine ⟨rfl, ?_⟩
      intro z member
      exact (List.pairwise_cons.mp sorted).1 z (Multiset.mem_coe.mp member)
  size_eq _ := rfl

end PriorityQueue

end Resister
