import Mathlib.Data.List.Basic
import Mathlib.Data.List.Induction
import Mathlib.Data.Bool.Basic
import Mathlib.Tactic.Ring

/-!
# Bit strings

Paths in binary trees read as binary numbers, the first bit the most significant one. The number
forgets the leading zeros and nothing else.
-/

namespace Resister.BitString

open List

def value (p : List Bool) : Nat :=
  p.foldl (fun n b => 2 * n + b.toNat) 0

theorem value_concat (p : List Bool) (b : Bool) : value (p ++ [b]) = 2 * value p + b.toNat := by
  unfold value
  rw [foldl_append]
  rfl

theorem value_lt (p : List Bool) : value p < 2 ^ p.length := by
  induction p using List.reverseRecOn with
  | nil => decide
  | append_singleton p b ih =>
    rw [value_concat, length_append, length_singleton, Nat.pow_succ]
    have bit := Bool.toNat_le b
    omega

theorem value_append (p q : List Bool) : value (p ++ q) = value p * 2 ^ q.length + value q := by
  induction q using List.reverseRecOn with
  | nil => simp [value]
  | append_singleton q b ih =>
    rw [← append_assoc, value_concat, value_concat, ih, length_append, length_singleton,
      Nat.pow_succ]
    ring

theorem value_zeros (k : Nat) (p : List Bool) : value (List.replicate k false ++ p) = value p := by
  induction k with
  | zero => rfl
  | succ k ih => exact ih

variable {p q : List Bool}

theorem eq_of_value (lengths : p.length = q.length) (same : value p = value q) : p = q := by
  induction p using List.reverseRecOn generalizing q with
  | nil => exact (length_eq_zero_iff.mp lengths.symm).symm
  | append_singleton p b ih =>
    obtain rfl | ⟨q, c, rfl⟩ := eq_nil_or_concat' q
    · simp at lengths
    · rw [value_concat, value_concat] at same
      rw [length_append, length_append, length_singleton, length_singleton] at lengths
      have low := Bool.toNat_le b
      have high := Bool.toNat_le c
      have injective : ∀ b c : Bool, b.toNat = c.toNat → b = c := by decide
      rw [ih (Nat.succ_injective lengths) (by omega), injective b c (by omega)]

theorem eq_zeros_append (shorter : p.length ≤ q.length) (same : value p = value q) :
    q = List.replicate (q.length - p.length) false ++ p := by
  apply eq_of_value
  · rw [length_append, length_replicate]
    omega
  · rw [value_zeros, same]

def LeftOf : List Bool → List Bool → Prop
  | false :: _, true :: _ => True
  | false :: p, false :: q => LeftOf p q
  | true :: p, true :: q => LeftOf p q
  | _, _ => False

theorem LeftOf.asymm (left : LeftOf p q) : ¬ LeftOf q p := by
  induction p generalizing q with
  | nil => exact left.elim
  | cons a p ih =>
    cases q with
    | nil => cases a <;> exact left.elim
    | cons b q =>
      cases a with
      | false =>
        cases b with
        | false => exact ih left
        | true => exact id
      | true =>
        cases b with
        | false => exact left.elim
        | true => exact ih left

theorem LeftOf.append (c : List Bool) (left : LeftOf p q) : LeftOf (c ++ p) (c ++ q) := by
  induction c with
  | nil => exact left
  | cons b c ih =>
    cases b with
    | false => exact ih
    | true => exact ih

theorem leftOf_zeros {k : Nat} (parts : ¬ p <+: List.replicate k false ++ p) :
    LeftOf (List.replicate k false ++ p) p := by
  induction p generalizing k with
  | nil => exact absurd nil_prefix parts
  | cons b p ih =>
    cases k with
    | zero => exact absurd (prefix_refl _) parts
    | succ k =>
      cases b with
      | true => trivial
      | false =>
        show LeftOf (List.replicate k false ++ false :: p) p
        have shifted : List.replicate k false ++ false :: p = List.replicate (k + 1) false ++ p := by
          rw [replicate_succ', append_assoc]
          rfl
        rw [shifted]
        apply ih
        intro before
        apply parts
        have longer : List.replicate (k + 1) false ++ false :: p = false :: (List.replicate (k + 1) false ++ p) := by
          rw [← shifted]
          rfl
        rw [longer]
        exact prefix_cons_inj false |>.mpr before

end Resister.BitString
