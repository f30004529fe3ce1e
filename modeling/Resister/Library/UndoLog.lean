import Mathlib.Data.List.TakeWhile

/-!
# Undo logs

A state `M` with a log of numbered entries, newest first, each of which can be undone.
-/

namespace Resister.UndoLog

open List Nat

variable {M E : Type} (undo : M → E → M) (number : E → Nat)

def newer (n : Nat) (history : List E) : List E :=
  history.takeWhile fun e => decide (n < number e)

def older (n : Nat) (history : List E) : List E :=
  history.dropWhile fun e => decide (n < number e)

def rollback (n : Nat) (m : M) (history : List E) : M :=
  (newer number n history).foldl undo m

def lastState (n : Nat) (record : List (Nat × M)) (base : M) : M :=
  match record.find? fun entry => decide (entry.1 ≤ n) with
  | some entry => entry.2
  | none => base

variable {undo number}

theorem newer_append_older (n : Nat) (history : List E) : newer number n history ++ older number n history = history :=
  takeWhile_append_dropWhile

theorem rollback_nil (n : Nat) (m : M) : rollback undo number n m [] = m :=
  rfl

variable {n : Nat} {e : E}

theorem rollback_of_le {m : M} {history : List E} (old : number e ≤ n) :
    rollback undo number n m (e :: history) = m := by
  simp [rollback, newer, not_lt.mpr old]

theorem rollback_of_lt {m : M} {history : List E} (new : n < number e) :
    rollback undo number n m (e :: history) = rollback undo number n (undo m e) history := by
  simp [rollback, newer, new]

theorem rollback_append_newer {m : M} {new history : List E} (above : ∀ e ∈ new, n < number e) :
    rollback undo number n m (new ++ history) = rollback undo number n (new.foldl undo m) history := by
  induction new generalizing m with
  | nil => rfl
  | cons e new ih =>
    rw [cons_append, rollback_of_lt (above e mem_cons_self), foldl_cons]
    exact ih fun later member => above later (mem_cons_of_mem _ member)

theorem rollback_append_older {m : M} {history old : List E} (below : ∀ e ∈ old, number e ≤ n) :
    rollback undo number n m (history ++ old) = rollback undo number n m history := by
  induction history generalizing m with
  | nil =>
    cases old with
    | nil => rfl
    | cons e old => exact rollback_of_le (below e mem_cons_self)
  | cons e history ih =>
    rw [cons_append]
    by_cases new : n < number e
    · rw [rollback_of_lt new, rollback_of_lt new, ih]
    · rw [rollback_of_le (not_lt.mp new), rollback_of_le (not_lt.mp new)]

theorem lt_of_mem_newer {history : List E} (member : e ∈ newer number n history) :
    n < number e := by
  have taken := mem_takeWhile_imp (p := fun e => decide (n < number e)) member
  exact of_decide_eq_true taken

theorem older_of_lt {history : List E} (new : n < number e) :
    older number n (e :: history) = older number n history := by
  simp [older, new]

theorem older_of_le {history : List E} (old : number e ≤ n) :
    older number n (e :: history) = e :: history := by
  simp [older, not_lt.mpr old]

theorem rollback_older {k : Nat} (le : k ≤ n) (m : M) (history : List E) :
    rollback undo number k (rollback undo number n m history) (older number n history) =
      rollback undo number k m history := by
  have above : ∀ e ∈ newer number n history, k < number e := fun e member =>
    lt_of_le_of_lt le (lt_of_mem_newer member)
  calc
    rollback undo number k (rollback undo number n m history) (older number n history) =
        rollback undo number k m (newer number n history ++ older number n history) :=
      (rollback_append_newer above).symm
    _ = rollback undo number k m history := by rw [newer_append_older]

theorem rollback_older_of_le {k : Nat} (le : n ≤ k) (m : M) (history : List E) :
    rollback undo number k m (older number n history) = m := by
  induction history with
  | nil => rfl
  | cons e history ih =>
    by_cases new : n < number e
    · rw [older_of_lt new, ih]
    · have old := not_lt.mp new
      rw [older_of_le old]
      exact rollback_of_le (le_trans old le)

theorem lastState_of_le {entry : Nat × M} {record : List (Nat × M)} {base : M} (old : entry.1 ≤ n) :
    lastState n (entry :: record) base = entry.2 := by
  simp [lastState, old]

theorem lastState_of_lt {entry : Nat × M} {record : List (Nat × M)} {base : M} (new : n < entry.1) :
    lastState n (entry :: record) base = lastState n record base := by
  simp [lastState, not_le.mpr new]

theorem lastState_filter (k n : Nat) (record : List (Nat × M)) (base : M) :
    lastState k (record.filter fun entry => decide (entry.1 ≤ n)) base = lastState (min k n) record base := by
  unfold lastState
  rw [List.find?_filter]
  have both : (fun entry : Nat × M => decide (decide (entry.1 ≤ n) = true ∧ decide (entry.1 ≤ k) = true)) =
      fun entry => decide (entry.1 ≤ min k n) := by
    funext entry
    apply decide_eq_decide.mpr
    simp only [decide_eq_true_eq]
    omega
  rw [both]

theorem le_of_mem_older {history : List E} (sorted : history.Pairwise fun a b => number b ≤ number a)
    (member : e ∈ older number n history) : number e ≤ n := by
  induction history with
  | nil => cases member
  | cons first history ih =>
    obtain ⟨above, sorted⟩ := pairwise_cons.mp sorted
    by_cases new : n < number first
    · rw [older_of_lt new] at member
      exact ih sorted member
    · rw [older_of_le (not_lt.mp new)] at member
      rcases mem_cons.mp member with rfl | later
      · exact not_lt.mp new
      · exact le_trans (above e later) (not_lt.mp new)

def Tracks (undo : M → E → M) (number : E → Nat) (settled : Nat) (m : M) (history : List E)
    (record : List (Nat × M)) (base : M) : Prop :=
  ∀ n, settled ≤ n → rollback undo number n m history = lastState n record base

variable {settled : Nat} {m : M} {history : List E} {record : List (Nat × M)} {base : M}

theorem Tracks.push {number' : Nat} {next : M} {new : List E}
    (tracks : Tracks undo number settled m history record base) (numbered : ∀ e ∈ new, number e = number')
    (last : ∀ e ∈ history, number e < number') (undone : new.foldl undo next = m) :
    Tracks undo number settled next (new ++ history) ((number', next) :: record) base := by
  intro n above
  by_cases reached : number' ≤ n
  · have below : ∀ e ∈ new ++ history, number e ≤ n := by
      intro e member
      rcases mem_append.mp member with own | before
      · rw [numbered e own]
        exact reached
      · exact le_trans (last e before).le reached
    rw [lastState_of_le reached]
    cases all : new ++ history with
    | nil => rfl
    | cons e others =>
      rw [all] at below
      exact rollback_of_le (below e mem_cons_self)
  · have before := not_le.mp reached
    rw [lastState_of_lt before, rollback_append_newer fun e member => (numbered e member).symm ▸ before, undone]
    exact tracks n above

theorem Tracks.squash (tracks : Tracks undo number settled m history record base) (above : settled ≤ n) :
    Tracks undo number settled (rollback undo number n m history) (older number n history)
      (record.filter fun entry => decide (entry.1 ≤ n)) base := by
  intro k from_settled
  rw [lastState_filter]
  by_cases le : k ≤ n
  · rw [rollback_older le, min_eq_left le]
    exact tracks k from_settled
  · have ge : n ≤ k := (not_le.mp le).le
    rw [rollback_older_of_le ge, min_eq_right ge]
    exact tracks n above

theorem Tracks.settle {old : List E} (tracks : Tracks undo number settled m (history ++ old) record base)
    (above : settled ≤ n) (below : ∀ e ∈ old, number e ≤ n) : Tracks undo number n m history record base := by
  intro k le
  rw [← tracks k (le_trans above le)]
  exact (rollback_append_older fun e member => le_trans (below e member) le).symm

end Resister.UndoLog
