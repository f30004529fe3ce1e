import Resister.Network.Paths

/-!
# The paths behind the distances

`extend_shortest_path` keeps a latency and a count of intermediate switches beside every distance.
-/

namespace Resister.Network

open Library List

def shortestPaths (vnets n : Nat) (st : Nat → PathState) : Nat → PathState :=
  (List.range vnets).foldl (fun st v => Function.update st v (shortestPath n (st v))) st

variable {n : Nat}

theorem shortestPaths_apply {vnets v : Nat} (st : Nat → PathState) (inside : v < vnets) :
    shortestPaths vnets n st v = shortestPath n (st v) := by
  have after : ∀ done ≤ vnets, ∀ u, (List.range done).foldl
      (fun st v => Function.update st v (shortestPath n (st v))) st u =
      if u < done then shortestPath n (st u) else st u := by
    intro done
    induction done with
    | zero => simp
    | succ done ih =>
      intro bound u
      have before := ih (by omega)
      rw [range_succ, foldl_append, foldl_cons, foldl_nil, before done,
        if_neg (Nat.lt_irrefl done)]
      by_cases here : u = done
      · subst here
        simp
      · rw [Function.update_of_ne here, before u]
        have same : u < done + 1 ↔ u < done := by omega
        simp only [same]
  unfold shortestPaths
  rw [after vnets (Nat.le_refl _) v, if_pos inside]

/-- The `while (change)` loop runs from the first state to its end in the second. -/
inductive Loop (n : Nat) : PathState → PathState → Prop
  | quiet {st : PathState} (stopped : (sweep n st).2 = false) : Loop n st (sweep n st).1
  | again {st final : PathState} (changed : (sweep n st).2 = true) (rest : Loop n (sweep n st).1 final) :
      Loop n st final

variable {st : PathState}

theorem extendShortestPath_loop {fuel : Nat} (enough : totalDist n st < fuel) :
    Loop n st (extendShortestPath n fuel st) := by
  induction fuel generalizing st with
  | zero => omega
  | succ fuel ih =>
    unfold extendShortestPath
    dsimp only
    split
    · rename_i changed
      obtain flag | fell := relax_changed (cells n) (fun _ member => member) (st, false) changed
      · cases flag
      · have smaller : totalDist n (sweep n st).1 < totalDist n st := fell
        exact .again changed (ih (by omega))
    · rename_i stopped
      exact .quiet (by simpa using stopped)

/-- What a scan has found so far: nothing, or its best switch, from which all it keeps is taken. -/
def Scanned (st : PathState) (i j : Nat) (ks : List Nat) (scan : Scan) : Prop :=
  (scan.minimum = st.dist i j ∧ scan.interSwitches = st.interSwitches) ∨
    ∃ k ∈ ks, scan.minimum = st.dist i k + st.dist k j ∧ scan.minimum < st.dist i j ∧
      scan.intermediate = some k ∧
      scan.interSwitches = setCell st.interSwitches i j (st.interSwitches i k + st.interSwitches k j + 1)

theorem Scanned.minimum_le {i j : Nat} {ks : List Nat} {scan : Scan}
    (scanned : Scanned st i j ks scan) : scan.minimum ≤ st.dist i j := by
  obtain ⟨same, -⟩ | ⟨k, -, -, less, -⟩ := scanned
  · omega
  · omega

theorem Scanned.step {i j k : Nat} {ks : List Nat} {scan : Scan}
    (scanned : Scanned st i j ks scan) : Scanned st i j (k :: ks) (scanStep st i j scan k) := by
  have bound := scanned.minimum_le
  unfold scanStep
  dsimp only
  split
  · obtain same | ⟨k', present, found⟩ := scanned
    · exact Or.inl same
    · exact Or.inr ⟨k', mem_cons_of_mem k present, found⟩
  · rename_i improves
    -- The ends of the path are no improvement, so the cells read are not the one being written.
    have through : st.dist i k + st.dist k j < scan.minimum := by omega
    have first : k ≠ j := by
      rintro rfl
      omega
    have last : k ≠ i := by
      rintro rfl
      omega
    have kept : ∀ x y, ¬ (x = i ∧ y = j) → scan.interSwitches x y = st.interSwitches x y := by
      intro x y other
      obtain ⟨-, same⟩ | ⟨k', -, -, -, -, same⟩ := scanned
      · rw [same]
      · rw [same, setCell_apply, if_neg other]
    refine Or.inr ⟨k, mem_cons_self, by dsimp only; omega, by dsimp only; omega, rfl, ?_⟩
    funext x y
    dsimp only
    rw [kept i k (fun cell => first cell.2), kept k j (fun cell => last cell.1), setCell_apply, setCell_apply]
    split
    · rfl
    · rename_i other
      exact kept x y other

theorem scanAll_scanned (n : Nat) (st : PathState) (i j : Nat) :
    ∃ ks, (∀ k ∈ ks, k < n) ∧ Scanned st i j ks (scanAll n st i j) := by
  have after : ∀ todo done : List Nat, ∀ scan, Scanned st i j done scan →
      Scanned st i j (todo.reverse ++ done) (todo.foldl (scanStep st i j) scan) := by
    intro todo
    induction todo with
    | nil => exact fun done scan scanned => scanned
    | cons k rest ih =>
      intro done scan scanned
      have next := ih (k :: done) _ scanned.step
      simpa using next
  refine ⟨(List.range n).reverse ++ [], ?_, after (List.range n) [] _ (Or.inl ⟨rfl, rfl⟩)⟩
  intro k present
  simpa using present

def Traced (W : Nat → Nat → Nat) (L : Nat → Nat → Int) (n : Nat) (st : PathState) : Prop :=
  ∀ x y, x < n → y < n → st.dist x y < infiniteLatency →
    ∃ between : List Nat, (∀ k ∈ between, k < n) ∧ along W x between y = st.dist x y ∧
      along L x between y = st.latencies x y ∧ between.length = st.interSwitches x y

variable {W : Nat → Nat → Nat} {L : Nat → Nat → Int}

theorem Traced.relax {acc : PathState × Bool}
    (traced : Traced W L n acc.1) {cell : Nat × Nat} (inside : cell.1 < n ∧ cell.2 < n) :
    Traced W L n (relax n acc cell).1 := by
  obtain ⟨i, j⟩ := cell
  obtain ⟨ks, bounded, scanned⟩ := scanAll_scanned n acc.1 i j
  unfold Network.relax
  dsimp only at inside ⊢
  obtain ⟨same, kept⟩ | ⟨k, present, through, less, chosen, counted⟩ := scanned
  · rw [if_pos same.symm, kept]
    exact traced
  · rw [if_neg (by omega), chosen, through, counted]
    intro x y hx hy short
    simp only [setCell_apply, Option.getD_some] at short ⊢
    by_cases here : x = i ∧ y = j
    · simp only [here, and_self, if_true] at short ⊢
      have middle := bounded k present
      obtain ⟨first, firstIn, firstW, firstL, firstCount⟩ := traced i k inside.1 middle (by omega)
      obtain ⟨second, secondIn, secondW, secondL, secondCount⟩ := traced k j middle inside.2 (by omega)
      refine ⟨first ++ k :: second, ?_, ?_, ?_, ?_⟩
      · intro u member
        obtain old | rest := mem_append.mp member
        · exact firstIn u old
        · obtain rfl | old := mem_cons.mp rest
          · exact middle
          · exact secondIn u old
      · rw [along_append, firstW, secondW]
      · rw [along_append, firstL, secondL]
      · rw [length_append, length_cons, firstCount, secondCount]
        omega
    · simp only [here, if_false] at short ⊢
      exact traced x y hx hy short

theorem Traced.sweep (traced : Traced W L n st) : Traced W L n (sweep n st).1 := by
  have after : ∀ todo : List (Nat × Nat), (∀ cell ∈ todo, cell.1 < n ∧ cell.2 < n) →
      ∀ acc : PathState × Bool, Traced W L n acc.1 → Traced W L n (todo.foldl (Network.relax n) acc).1 := by
    intro todo
    induction todo with
    | nil => exact fun _ acc traced => traced
    | cons cell rest ih =>
      intro inside acc traced
      exact ih (fun c member => inside c (mem_cons_of_mem cell member)) _
        (traced.relax (inside cell mem_cons_self))
  exact after (cells n) (fun cell => mem_cells.mp) (st, false) traced

theorem Loop.traced {final : PathState} (loop : Loop n st final) (traced : Traced W L n st) : Traced W L n final := by
  induction loop with
  | quiet => exact traced.sweep
  | again _ _ ih => exact ih traced.sweep

/-- The matrices of `createLinks` before `shortest_path`: no switch is between the ends of a link. -/
def linkState (W : Nat → Nat → Nat → Nat) (L : Nat → Nat → Nat → Int) (v : Nat) : PathState :=
  ⟨W v, L v, fun _ _ => 0⟩

def heavyLink (_ src dst : Nat) : Nat := if src = dst then 0 else 20000

def chainLink (_ src dst : Nat) : Nat :=
  if src = dst then 0 else if dst = src + 1 then 1 else infiniteLatency

end Resister.Network
