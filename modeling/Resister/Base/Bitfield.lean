import Mathlib

/-!
# Bit fields

The functions of `base/bitfield.hh` that address ranges call, on words of the widths the source
declares.
-/

namespace Resister.Base

open BitVec

abbrev Addr := BitVec 64

inductive Stop where
  | fatal (message : String)
  | panic (message : String)
  | assertion
  | undefinedShift
  deriving DecidableEq, Repr

theorem bind_eq_ok {α β : Type} {x : Except Stop α} {f : α → Except Stop β} {b : β} :
    (x >>= f) = .ok b ↔ ∃ a, x = .ok a ∧ f a = .ok b := by
  cases x with
  | error stop => simp [bind, Except.bind]
  | ok a => simp [bind, Except.bind]

section Shifts

variable {w : Nat}

def shl (x : BitVec w) (n : Nat) : Except Stop (BitVec w) :=
  if n < w then .ok (x <<< n) else .error .undefinedShift

def shr (x : BitVec w) (n : Nat) : Except Stop (BitVec w) :=
  if n < w then .ok (x >>> n) else .error .undefinedShift

variable {x : BitVec w} {n : Nat}

theorem shl_of_lt (small : n < w) : shl x n = .ok (x <<< n) :=
  if_pos small

theorem shl_of_le (large : w ≤ n) : shl x n = .error .undefinedShift :=
  if_neg (by omega)

theorem shl_eq_ok {y : BitVec w} : shl x n = .ok y ↔ n < w ∧ x <<< n = y := by
  by_cases small : n < w
  · simp [shl_of_lt, small]
  · simp [shl_of_le (Nat.le_of_not_lt small), small]

theorem shr_of_lt (small : n < w) : shr x n = .ok (x >>> n) :=
  if_pos small

end Shifts

def mask (nbits : BitVec 32) : Addr :=
  if 64 ≤ nbits.toNat then BitVec.allOnes 64 else (1#64 <<< nbits.toNat) - 1

@[simp] theorem getLsbD_mask (nbits : BitVec 32) (k : Nat) :
    (mask nbits).getLsbD k = decide (k < 64 ∧ k < nbits.toNat) := by
  unfold mask
  split
  next wide =>
    rw [getLsbD_allOnes]
    congr 1
    apply propext
    omega
  next narrow =>
    have value : ((1#64 <<< nbits.toNat) - 1).toNat = 2 ^ nbits.toNat - 1 := by
      have bound : 2 ^ nbits.toNat < 2 ^ 64 := Nat.pow_lt_pow_right (by decide) (by omega)
      have positive : 0 < 2 ^ nbits.toNat := Nat.two_pow_pos _
      rw [toNat_sub, toNat_shiftLeft, toNat_ofNat, Nat.shiftLeft_eq]
      simp only [Nat.one_mod, Nat.one_mul, Nat.mod_eq_of_lt bound]
      rw [show (1 : BitVec 64).toNat = 1 from rfl]
      omega
    rw [BitVec.getLsbD, value, Nat.testBit_two_pow_sub_one]
    congr 1
    apply propext
    omega

@[simp] theorem getElem_mask (nbits : BitVec 32) (k : Nat) (small : k < 64) :
    (mask nbits)[k] = decide (k < nbits.toNat) := by
  rw [← getLsbD_eq_getElem, getLsbD_mask]
  simp [small]

def maskRange (first last : BitVec 32) : Addr := mask (first + 1) &&& ~~~mask last

def insertBits (val : Addr) (first last : BitVec 32) (bitVal : Addr) : Except Stop Addr :=
  if first < last then .error .assertion
  else do
    let shifted ← shl bitVal last.toNat
    .ok ((val &&& ~~~maskRange first last) ||| (shifted &&& maskRange first last))

def insertBit (val : Addr) (bit : BitVec 32) (bitVal : Addr) : Except Stop Addr :=
  insertBits val bit bit bitVal

def bitOfByte (val : BitVec 8) (bit : Nat) : Except Stop (BitVec 8) := do
  let shifted ← shr (val.setWidth 32) bit
  .ok ((shifted.setWidth 64 &&& mask 1).setWidth 8)

def sext (nbits : BitVec 32) (val : Addr) : Addr :=
  if val.getLsbD (nbits.toNat - 1) then val ||| ~~~mask nbits else val

def szext (nbits : BitVec 32) (val : Addr) : Addr :=
  if val.getLsbD (nbits.toNat - 1) then val ||| ~~~mask nbits else val &&& mask nbits

variable {nbits : BitVec 32}

theorem getLsbD_szext (positive : 0 < nbits.toNat) (val : Addr) (k : Nat) :
    (szext nbits val).getLsbD k = (decide (k < 64) && val.getLsbD (min k (nbits.toNat - 1))) := by
  by_cases inside : k < 64
  · unfold szext
    by_cases low : k < nbits.toNat
    · rw [min_eq_left (by omega)]
      split
      all_goals simp [low, inside]
    · rw [min_eq_right (by omega)]
      split
      next sign => simp [low, inside, sign]
      next sign => simp [low, sign]
  · rw [getLsbD_of_ge _ k (by omega)]
    simp [inside]

theorem szext_congr (positive : 0 < nbits.toNat) {x y : Addr}
    (same : ∀ k < nbits.toNat, x.getLsbD k = y.getLsbD k) : szext nbits x = szext nbits y := by
  apply eq_of_getLsbD_eq
  intro k inside
  rw [getLsbD_szext positive, getLsbD_szext positive, same _ (by omega)]

theorem sext_eq_szext {val : Addr} (clear : val &&& mask nbits = val) :
    sext nbits val = szext nbits val := by
  unfold sext szext
  rw [clear]

def popCount (val : Addr) : Nat := (List.range 64).countP val.getLsbD

def ctz64 (value : Addr) : Nat := ((List.range 64).find? value.getLsbD).getD 64

section Insertion

variable {val bitVal : Addr}

theorem insertBits_low (first : BitVec 32) :
    insertBits val first 0 bitVal =
      .ok ((val &&& ~~~mask (first + 1)) ||| (bitVal &&& mask (first + 1))) := by
  have range : maskRange first 0 = mask (first + 1) := by
    apply eq_of_getLsbD_eq
    intro k small
    simp [maskRange, small]
  have ordered : ¬ first < 0 := not_lt_zero
  unfold insertBits
  rw [if_neg ordered, range, shl_of_lt (by decide)]
  show Except.ok _ = _
  simp

/-- Inserting below position `p` puts the low bits of the second word under the first. The position
before the first bit is the largest `unsigned`, and nothing is inserted then. -/
theorem insertBits_below {p : Nat} (small : p < 2 ^ 32) :
    ∃ word, insertBits val (BitVec.ofNat 32 p - 1) 0 bitVal = .ok word ∧
      ∀ k < 64, word.getLsbD k = if k < p then bitVal.getLsbD k else val.getLsbD k := by
  refine ⟨_, insertBits_low _, ?_⟩
  intro k inside
  have position : (BitVec.ofNat 32 p - 1 + 1).toNat = p := by
    rw [sub_add_cancel, toNat_ofNat, Nat.mod_eq_of_lt small]
  simp only [getLsbD_or, getLsbD_and, getLsbD_not, getLsbD_mask, position]
  by_cases below : k < p <;> simp [below, inside]

theorem insertBit_at {p : Nat} (small : p < 64) :
    ∃ word, insertBit val (BitVec.ofNat 32 p) bitVal = .ok word ∧
      ∀ k < 64, word.getLsbD k = if k = p then bitVal.getLsbD 0 else val.getLsbD k := by
  have position : (BitVec.ofNat 32 p).toNat = p := by
    rw [toNat_ofNat, Nat.mod_eq_of_lt (by omega)]
  have next : (BitVec.ofNat 32 p + 1).toNat = p + 1 := by
    rw [toNat_add, position]
    exact Nat.mod_eq_of_lt (by simp; omega)
  unfold insertBit insertBits
  rw [if_neg (BitVec.lt_irrefl _), position, shl_of_lt small]
  refine ⟨_, rfl, ?_⟩
  intro k inside
  simp only [maskRange, getLsbD_or, getLsbD_and, getLsbD_not, getLsbD_mask,
    position, next, getLsbD_shiftLeft]
  rcases Nat.lt_trichotomy k p with below | same | above
  · have other : k ≠ p := by omega
    simp [below, other, inside]
  · subst same
    simp [inside]
  · have other : k ≠ p := by omega
    have outside : ¬ k < p + 1 := by omega
    simp [other, outside, inside]

end Insertion

theorem bitOfByte_of_lt (val : BitVec 8) {i : Nat} (small : i < 32) :
    ∃ bit, bitOfByte val i = .ok bit ∧ bit.getLsbD 0 = val.getLsbD i := by
  unfold bitOfByte
  rw [shr_of_lt small]
  refine ⟨_, rfl, ?_⟩
  have inside : i < 64 := by omega
  simp [inside]

theorem ctz64_eq {value : Addr} {k : Nat} (set : value.getLsbD k = true)
    (lower : ∀ j < k, value.getLsbD j = false) : ctz64 value = k := by
  have small : k < 64 := lt_of_getLsbD set
  have found : (List.range 64).find? value.getLsbD = some k := by
    rw [List.find?_range_eq_some]
    refine ⟨set, by simpa using small, ?_⟩
    intro j below
    simp [lower j below]
  rw [ctz64, found, Option.getD_some]

end Resister.Base
