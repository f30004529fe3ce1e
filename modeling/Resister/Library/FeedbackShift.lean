import Mathlib.Data.Bool.Basic
import Mathlib.Logic.Function.Iterate
import Mathlib.Tactic

/-!
# Feedback shift registers

A register of `n` bits that shifts by one place and takes in the exclusive or of its first and its
last bit.
-/

namespace Resister.Library.FeedbackShift

def shift (n : Nat) (x : Nat → Bool) : Nat → Bool := fun i => if i + 1 = n then x 0 ^^ x i else x (i + 1)

def stream (n : Nat) (x : Nat → Bool) (i : Nat) : Bool :=
  if i ≤ n then x i else stream n x (i - (n + 1)) ^^ stream n x (i - 1)

variable {n : Nat} {x : Nat → Bool}

theorem stream_of_le {i : Nat} (inside : i ≤ n) : stream n x i = x i := by
  rw [stream, if_pos inside]

theorem stream_add (n : Nat) (x : Nat → Bool) (i : Nat) :
    stream n x (i + (n + 1)) = (stream n x i ^^ stream n x (i + n)) := by
  rw [stream, if_neg (by omega), Nat.add_sub_cancel]
  rfl

theorem iterate_shift {i k : Nat} (inside : i ≤ n) : (shift (n + 1))^[k] x i = stream n x (i + k) := by
  induction k generalizing i with
  | zero => exact (stream_of_le inside).symm
  | succ k ih =>
    rw [Function.iterate_succ_apply']
    by_cases top : i = n
    · subst top
      rw [shift, if_pos rfl, ih (Nat.zero_le i), ih (Nat.le_refl i), Nat.zero_add, Nat.add_comm i k,
        show i + (k + 1) = k + (i + 1) by omega, stream_add]
    · rw [shift, if_neg (by omega), ih (by omega)]
      congr 1
      omega

theorem iterate_shift_xor {i : Nat} (inside : i ≤ n) :
    ((shift (n + 1))^[n + 1] x i ^^ (shift (n + 1))^[n] x i) = x i := by
  rw [iterate_shift inside, iterate_shift inside, stream_add, stream_of_le inside, Bool.xor_assoc, Bool.xor_self,
    Bool.xor_false]

end Resister.Library.FeedbackShift
