import Mathlib

/-!
# Leading bits

Words compared by their leading bits, and the masks that select them. Bits are counted from the most
significant one.
-/

namespace Resister.BitPrefix

open BitVec

variable {w : Nat}

def Agree (n : Nat) (x y : BitVec w) : Prop := ∀ j < n, x.getMsbD j = y.getMsbD j

namespace Agree

variable {m n : Nat} {x y z : BitVec w}

theorem refl (n : Nat) (x : BitVec w) : Agree n x x := fun _ _ => rfl

theorem symm (agree : Agree n x y) : Agree n y x := fun j small => (agree j small).symm

theorem trans (left : Agree n x y) (right : Agree n y z) : Agree n x z :=
  fun j small => (left j small).trans (right j small)

theorem mono (agree : Agree n x y) (le : m ≤ n) : Agree m x y :=
  fun j small => agree j (Nat.lt_of_lt_of_le small le)

theorem succ_iff : Agree (n + 1) x y ↔ Agree n x y ∧ x.getMsbD n = y.getMsbD n := by
  constructor
  · intro agree
    exact ⟨agree.mono (Nat.le_succ n), agree n (Nat.lt_succ_self n)⟩
  · rintro ⟨agree, last⟩ j small
    rcases Nat.lt_succ_iff_lt_or_eq.mp small with below | rfl
    · exact agree j below
    · exact last

end Agree

def leading (n : Nat) : BitVec w := BitVec.allOnes w <<< (w - n)

theorem getMsbD_leading (n j : Nat) :
    (leading n : BitVec w).getMsbD j = decide (j < n ∧ j < w) := by
  unfold leading
  rw [getMsbD_shiftLeft, getMsbD_eq_getLsbD, getLsbD_allOnes]
  rw [Bool.eq_iff_iff]
  simp only [Bool.and_eq_true, decide_eq_true_eq]
  omega

theorem eq_of_getMsbD {x y : BitVec w} (same : ∀ j < w, x.getMsbD j = y.getMsbD j) : x = y := by
  apply eq_of_getMsbD_eq
  intro j small
  exact same j small

theorem and_leading_eq {n : Nat} {x y : BitVec w} :
    x &&& leading n = y &&& leading n ↔ Agree n x y := by
  constructor
  · intro same j small
    by_cases inside : j < w
    · have bit := congrArg (fun z : BitVec w => z.getMsbD j) same
      simpa [getMsbD_leading, small, inside] using bit
    · rw [getMsbD_of_ge _ _ (by omega), getMsbD_of_ge _ _ (by omega)]
  · intro agree
    apply eq_of_getMsbD
    intro j inside
    by_cases small : j < n
    · simp [getMsbD_leading, small, inside, agree j small]
    · simp [getMsbD_leading, small]

theorem leading_inj {m n : Nat} (left : m ≤ w) (right : n ≤ w)
    (same : (leading m : BitVec w) = leading n) : m = n := by
  have bits := fun j => congrArg (fun z : BitVec w => z.getMsbD j) same
  simp only [getMsbD_leading, decide_eq_decide] at bits
  have := bits m
  have := bits n
  omega

theorem leading_and_eq {m n : Nat} (left : m ≤ w) :
    ((leading m : BitVec w) &&& leading n = leading m) ↔ m ≤ n := by
  constructor
  · intro same
    have bits := fun j => congrArg (fun z : BitVec w => z.getMsbD j) same
    simp only [getMsbD_and, getMsbD_leading] at bits
    by_contra more
    have bit := bits n
    simp [show n < m by omega, show n < w by omega] at bit
  · intro le
    apply eq_of_getMsbD
    intro j inside
    rw [getMsbD_and, getMsbD_leading, getMsbD_leading]
    by_cases small : j < m
    · simp [small, inside, show j < n by omega]
    · simp [small]

@[simp] theorem leading_zero : (leading 0 : BitVec w) = 0 := by
  apply eq_of_getMsbD
  intro j inside
  simp [getMsbD_leading]

theorem leading_succ (n : Nat) :
    (leading n : BitVec w) ||| (leading n >>> 1) ||| (1#w <<< (w - 1)) = leading (n + 1) := by
  apply eq_of_getMsbD
  intro j inside
  have top : (1#w <<< (w - 1)).getMsbD j = decide (j = 0) := by
    rw [getMsbD_eq_getLsbD]
    simp only [getLsbD_shiftLeft]
    rcases Nat.eq_zero_or_pos j with rfl | positive
    · simp [inside]
    · simp [inside, Nat.ne_of_gt positive]
      omega
  rw [getMsbD_or, getMsbD_or, getMsbD_ushiftRight, top]
  simp only [getMsbD_leading]
  rw [Bool.eq_iff_iff]
  simp only [Bool.or_eq_true, Bool.and_eq_true, decide_eq_true_eq, Bool.not_eq_true',
    decide_eq_false_iff_not]
  omega

def width (mask : BitVec w) : Nat := (List.range w).countP mask.getMsbD

theorem width_leading {n : Nat} (small : n ≤ w) : width (leading n : BitVec w) = n := by
  have counted : ∀ k, (List.range k).countP (leading n : BitVec w).getMsbD = min k (min n w) := by
    intro k
    induction k with
    | zero => simp
    | succ k ih =>
      rw [List.range_succ, List.countP_append, ih, List.countP_singleton, getMsbD_leading]
      split
      next inside =>
        have := of_decide_eq_true inside
        omega
      next outside =>
        have beyond : ¬ (k < n ∧ k < w) := fun both => outside (decide_eq_true both)
        omega
  rw [width, counted]
  omega

end Resister.BitPrefix
