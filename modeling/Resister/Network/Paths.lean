import Resister.Network.Topology
import Resister.Library.ShortestPath

/-!
# The distances of `createLinks`

`extend_shortest_path` stops after a round without change, and the distances it leaves are the least
walk weights.
-/

namespace Resister.Network

open Garnet Library List Nat

@[simp] theorem setCell_apply {α : Type} (matrix : Nat → Nat → α) (i j : Nat) (value : α) (x y : Nat) :
    setCell matrix i j value x y = if x = i ∧ y = j then value else matrix x y := by
  by_cases row : x = i
  · subst row
    by_cases col : y = j
    · subst col; simp [setCell]
    · simp [setCell, col]
  · simp [setCell, row]

theorem mem_cells {n : Nat} {cell : Nat × Nat} :
    cell ∈ cells n ↔ cell.1 < n ∧ cell.2 < n := by
  obtain ⟨i, j⟩ := cell
  simp [cells]

theorem scanStep_minimum (st : PathState) (i j k : Nat) (scan : Scan) :
    (scanStep st i j scan k).minimum = min scan.minimum (st.dist i k + st.dist k j) := by
  unfold scanStep
  dsimp only
  split
  · assumption
  · rfl

theorem scan_minimum_le (st : PathState) (i j : Nat) (ks : List Nat) (scan : Scan) :
    (ks.foldl (scanStep st i j) scan).minimum ≤ scan.minimum ∧
      ∀ k ∈ ks, (ks.foldl (scanStep st i j) scan).minimum ≤ st.dist i k + st.dist k j := by
  induction ks generalizing scan with
  | nil => simp
  | cons k rest ih =>
    obtain ⟨below, all⟩ := ih (scanStep st i j scan k)
    rw [scanStep_minimum] at below
    simp only [foldl_cons, mem_cons, forall_eq_or_imp]
    refine ⟨by omega, by omega, all⟩

theorem scan_minimum_cases (st : PathState) (i j : Nat) (ks : List Nat) (scan : Scan) :
    (ks.foldl (scanStep st i j) scan).minimum = scan.minimum ∨
      ∃ k ∈ ks, (ks.foldl (scanStep st i j) scan).minimum = st.dist i k + st.dist k j := by
  induction ks generalizing scan with
  | nil => exact Or.inl rfl
  | cons k rest ih =>
    rw [foldl_cons]
    rcases ih (scanStep st i j scan k) with same | ⟨k', present, through⟩
    · rw [scanStep_minimum] at same
      rcases le_total scan.minimum (st.dist i k + st.dist k j) with le | le
      · exact Or.inl (same.trans (min_eq_left le))
      · exact Or.inr ⟨k, mem_cons_self, same.trans (min_eq_right le)⟩
    · exact Or.inr ⟨k', mem_cons_of_mem _ present, through⟩

theorem relax_dist (n : Nat) (acc : PathState × Bool) (cell : Nat × Nat) :
    (relax n acc cell).1.dist =
      setCell acc.1.dist cell.1 cell.2 (scanAll n acc.1 cell.1 cell.2).minimum := by
  unfold relax
  dsimp only
  split
  · rename_i same
    funext x y
    rw [setCell_apply]
    split
    · rename_i at_cell
      rw [at_cell.1, at_cell.2, same]
    · rfl
  · rfl

theorem relax_change (n : Nat) (acc : PathState × Bool) (cell : Nat × Nat) :
    (relax n acc cell).2 =
      (acc.2 || acc.1.dist cell.1 cell.2 != (scanAll n acc.1 cell.1 cell.2).minimum) := by
  unfold relax
  dsimp only
  split <;> simp_all

theorem scanAll_le (n : Nat) (st : PathState) (i j : Nat) :
    (scanAll n st i j).minimum ≤ st.dist i j := (scan_minimum_le st i j _ _).1

theorem relax_dist_le (n : Nat) (acc : PathState × Bool) (cell : Nat × Nat)
    (x y : Nat) : (relax n acc cell).1.dist x y ≤ acc.1.dist x y := by
  rw [relax_dist, setCell_apply]
  split
  · rename_i at_cell
    rw [at_cell.1, at_cell.2]
    exact scanAll_le _ _ _ _
  · exact le_refl _

theorem relax_all {W : Nat → Nat → Nat} {n : Nat} (todo : List (Nat × Nat))
    (inside : ∀ cell ∈ todo, cell.1 < n ∧ cell.2 < n) (acc : PathState × Bool)
    (attained : ∀ x y, x < n → y < n → Walk W (· < n) x y (acc.1.dist x y)) :
    ∀ x y, x < n → y < n → Walk W (· < n) x y ((todo.foldl (relax n) acc).1.dist x y) := by
  induction todo generalizing acc with
  | nil => exact attained
  | cons cell rest ih =>
    refine ih (fun c member => inside c (mem_cons_of_mem _ member)) _ ?_
    intro x y hx hy
    rw [relax_dist, setCell_apply]
    split
    · rename_i at_cell
      rcases scan_minimum_cases acc.1 cell.1 cell.2 (List.range n)
          ⟨acc.1.dist cell.1 cell.2, none, acc.1.interSwitches⟩ with same | ⟨k, present, through⟩
      · rw [show (scanAll n acc.1 cell.1 cell.2).minimum = _ from same, ← at_cell.1, ← at_cell.2]
        exact attained x y hx hy
      · rw [show (scanAll n acc.1 cell.1 cell.2).minimum = _ from through, ← at_cell.1, ← at_cell.2]
        have inner := mem_range.mp present
        exact (attained x k hx inner).append (attained k y inner hy)
    · exact attained x y hx hy

theorem foldl_relax_le (n : Nat) (todo : List (Nat × Nat)) (acc : PathState × Bool)
    (x y : Nat) : (todo.foldl (relax n) acc).1.dist x y ≤ acc.1.dist x y := by
  induction todo generalizing acc with
  | nil => exact le_refl _
  | cons cell rest ih => exact (ih _).trans (relax_dist_le n acc cell x y)

theorem relax_unchanged {n : Nat} (todo : List (Nat × Nat)) (acc : PathState × Bool)
    (quiet : (todo.foldl (relax n) acc).2 = false) :
    (todo.foldl (relax n) acc).1.dist = acc.1.dist ∧ acc.2 = false ∧
      ∀ cell ∈ todo, ∀ k < n,
        acc.1.dist cell.1 cell.2 ≤ acc.1.dist cell.1 k + acc.1.dist k cell.2 := by
  induction todo generalizing acc with
  | nil => exact ⟨rfl, quiet, by simp⟩
  | cons cell rest ih =>
    rw [foldl_cons] at quiet ⊢
    obtain ⟨same, flag, closed⟩ := ih _ quiet
    rw [relax_change, Bool.or_eq_false_iff, bne_eq_false_iff_eq] at flag
    have kept : (relax n acc cell).1.dist = acc.1.dist := by
      rw [relax_dist, ← flag.2]
      funext x y
      rw [setCell_apply]
      split
      · rename_i at_cell
        rw [at_cell.1, at_cell.2]
      · rfl
    rw [kept] at same closed
    refine ⟨same, flag.1, ?_⟩
    intro c member k inner
    rcases mem_cons.mp member with rfl | member
    · rw [flag.2]
      exact (scan_minimum_le acc.1 c.1 c.2 (List.range n) _).2 k (mem_range.mpr inner)
    · exact closed c member k inner

theorem relax_changed {n : Nat} (todo : List (Nat × Nat))
    (inside : ∀ cell ∈ todo, cell ∈ cells n) (acc : PathState × Bool) (flag : (todo.foldl (relax n) acc).2 = true) :
    acc.2 = true ∨ totalDist n (todo.foldl (relax n) acc).1 < totalDist n acc.1 := by
  induction todo generalizing acc with
  | nil => exact Or.inl flag
  | cons cell rest ih =>
    rw [foldl_cons] at flag ⊢
    have le : ∀ c ∈ cells n, (relax n acc cell).1.dist c.1 c.2 ≤ acc.1.dist c.1 c.2 :=
      fun c _ => relax_dist_le n acc cell c.1 c.2
    rcases ih (fun c member => inside c (mem_cons_of_mem _ member)) _ flag with raised | lower
    · rw [relax_change, Bool.or_eq_true, bne_iff_ne] at raised
      rcases raised with before | fell
      · exact Or.inl before
      · have strict : (relax n acc cell).1.dist cell.1 cell.2 < acc.1.dist cell.1 cell.2 := by
          rw [relax_dist, setCell_apply, if_pos ⟨rfl, rfl⟩]
          exact lt_of_le_of_ne (scanAll_le _ _ _ _) (Ne.symm fell)
        have first : totalDist n (relax n acc cell).1 < totalDist n acc.1 :=
          sum_lt_sum _ _ le ⟨cell, inside cell mem_cons_self, strict⟩
        have others : totalDist n (rest.foldl (relax n) (relax n acc cell)).1 ≤
            totalDist n (relax n acc cell).1 :=
          sum_le_sum fun c _ => foldl_relax_le n rest _ c.1 c.2
        exact Or.inr (lt_of_le_of_lt others first)
    · exact Or.inr (lt_of_lt_of_le lower (sum_le_sum le))

theorem extendShortestPath_isDistance {W : Nat → Nat → Nat} {n fuel : Nat}
    {st : PathState} (enough : totalDist n st < fuel)
    (attained : ∀ x y, x < n → y < n → Walk W (· < n) x y (st.dist x y)) (below : ∀ x y, st.dist x y ≤ W x y) :
    IsDistance W (· < n) (extendShortestPath n fuel st).dist := by
  induction fuel generalizing st with
  | zero => omega
  | succ fuel ih =>
    have cellsInside : ∀ cell ∈ cells n, cell.1 < n ∧ cell.2 < n := fun cell => mem_cells.mp
    have walks : ∀ x y, x < n → y < n → Walk W (· < n) x y ((sweep n st).1.dist x y) :=
      relax_all (cells n) cellsInside (st, false) attained
    have lower : ∀ x y, (sweep n st).1.dist x y ≤ W x y := fun x y =>
      (foldl_relax_le n (cells n) (st, false) x y).trans (below x y)
    unfold extendShortestPath
    dsimp only
    split
    · rename_i change
      rcases relax_changed (cells n) (fun _ member => member) (st, false) change with flag | fell
      · cases flag
      · have smaller : totalDist n (sweep n st).1 < totalDist n st := fell
        exact ih (by omega) walks lower
    · rename_i quiet
      rw [Bool.not_eq_true] at quiet
      obtain ⟨same, _, closed⟩ := relax_unchanged (cells n) (st, false) quiet
      refine .of_closed walks (fun x y _ _ => lower x y) ?_
      intro x y z hx hy hz
      rw [show (sweep n st).1.dist = st.dist from same]
      exact closed (x, z) (mem_cells.mpr ⟨hx, hz⟩) y hy

theorem Topology.dist_isDistance (t : Topology) (vnet : Nat) :
    IsDistance (t.weights vnet) (· < t.numSwitches) (t.dist vnet) :=
  extendShortestPath_isDistance (lt_succ_self _)
    (fun _ _ hx hy => .edge hx hy) (fun _ _ => le_refl _)

end Resister.Network
