import Mathlib

/-!
# Single precision arithmetic on small numbers

The values of `float` are rationals with 24 significant bits, and every operation rounds its exact
result to the nearest of them, ties to the even significand.
-/

namespace Resister.Library.Binary32

def nearest (x : ℚ) : ℤ :=
  if Int.fract x < 1 / 2 ∨ (Int.fract x = 1 / 2 ∧ ⌊x⌋ % 2 = 0) then ⌊x⌋ else ⌊x⌋ + 1

def ulp (x : ℚ) : ℚ := 2 ^ (Int.log 2 |x| - 23)

def round (x : ℚ) : ℚ := nearest (x / ulp x) * ulp x

def toInt (x : ℚ) : ℤ := if 0 ≤ x then ⌊x⌋ else ⌈x⌉

/-- `a + b`. -/
def add (a b : ℚ) : ℚ := round (a + b)

/-- `a - b`. -/
def sub (a b : ℚ) : ℚ := round (a - b)

/-- `a / b`. -/
def div (a b : ℚ) : ℚ := round (a / b)

def divCeil (a b : ℚ) : ℚ := div (sub (add a b) 1) b

theorem nearest_cases (x : ℚ) : nearest x = ⌊x⌋ ∨ nearest x = ⌊x⌋ + 1 := by
  unfold nearest
  split
  · exact Or.inl rfl
  · exact Or.inr rfl

theorem nearest_intCast (k : ℤ) : nearest k = k := by
  simp [nearest]

variable {k : ℤ} {x : ℚ}

theorem le_nearest (below : (k : ℚ) ≤ x) : k ≤ nearest x := by
  have floor : k ≤ ⌊x⌋ := Int.le_floor.mpr below
  obtain same | next := nearest_cases x
  · omega
  · omega

theorem nearest_le (above : x ≤ k) : nearest x ≤ k := by
  by_cases whole : x = k
  · rw [whole, nearest_intCast]
  · have floor : ⌊x⌋ < k := Int.floor_lt.mpr (lt_of_le_of_ne above whole)
    obtain same | next := nearest_cases x
    · omega
    · omega

theorem nearest_error (x : ℚ) : |(nearest x : ℚ) - x| ≤ 1 / 2 := by
  have parts := Int.floor_add_fract x
  have low := Int.fract_nonneg x
  have high := Int.fract_lt_one x
  unfold nearest
  split
  · rename_i down
    have small : Int.fract x ≤ 1 / 2 := by
      obtain less | ⟨half, -⟩ := down
      · exact less.le
      · exact half.le
    rw [abs_le]
    constructor <;> linarith
  · rename_i up
    have large : 1 / 2 ≤ Int.fract x := le_of_not_gt fun less => up (Or.inl less)
    push_cast
    rw [abs_le]
    constructor <;> linarith

theorem ulp_pos (x : ℚ) : 0 < ulp x := by
  unfold ulp
  positivity

@[simp] theorem round_zero : round 0 = 0 := by
  have zero := nearest_intCast 0
  simp only [Int.cast_zero] at zero
  simp [round, zero]

theorem round_error (x : ℚ) : |round x - x| ≤ ulp x / 2 := by
  have positive := ulp_pos x
  have scaled : round x - x = ((nearest (x / ulp x) : ℚ) - x / ulp x) * ulp x := by
    unfold round
    field_simp
  rw [scaled, abs_mul, abs_of_pos positive]
  have := nearest_error (x / ulp x)
  nlinarith

theorem intCast_eq_mul_ulp (positive : 0 < x) (small : x < 2 ^ 24) (k : ℤ) :
    ∃ n : ℤ, (k : ℚ) = n * ulp x := by
  have exponent : Int.log 2 |x| ≤ 23 := by
    rw [abs_of_pos positive]
    have upper : Int.log 2 x < 24 := by
      rw [← Int.lt_zpow_iff_log_lt (by norm_num) positive]
      exact_mod_cast small
    omega
  obtain ⟨j, shift⟩ : ∃ j : ℕ, (j : ℤ) = 23 - Int.log 2 |x| := ⟨(23 - Int.log 2 |x|).toNat, by omega⟩
  have inverse : ulp x * 2 ^ j = 1 := by
    unfold ulp
    rw [← zpow_natCast, ← zpow_add₀ (by norm_num), shift]
    norm_num
  refine ⟨k * 2 ^ j, ?_⟩
  push_cast
  rw [mul_assoc, mul_comm (2 ^ j : ℚ), inverse, mul_one]

theorem le_round (positive : 0 < x) (small : x < 2 ^ 24) (below : (k : ℚ) ≤ x) :
    (k : ℚ) ≤ round x := by
  obtain ⟨n, multiple⟩ := intCast_eq_mul_ulp positive small k
  have unit := ulp_pos x
  rw [multiple] at below ⊢
  unfold round
  have scaled : (n : ℚ) ≤ x / ulp x := (le_div_iff₀ unit).mpr below
  exact mul_le_mul_of_nonneg_right (by exact_mod_cast le_nearest scaled) unit.le

theorem round_le (positive : 0 < x) (small : x < 2 ^ 24) (above : x ≤ k) :
    round x ≤ (k : ℚ) := by
  obtain ⟨n, multiple⟩ := intCast_eq_mul_ulp positive small k
  have unit := ulp_pos x
  rw [multiple] at above ⊢
  unfold round
  have scaled : x / ulp x ≤ (n : ℚ) := (div_le_iff₀ unit).mpr above
  exact mul_le_mul_of_nonneg_right (by exact_mod_cast nearest_le scaled) unit.le

theorem round_natCast {n : ℕ} (small : n ≤ 2 ^ 24) : round n = n := by
  obtain rfl | positive := Nat.eq_zero_or_pos n
  · simp
  obtain less | rfl := Nat.lt_or_eq_of_le small
  · have inside : (0 : ℚ) < n := by exact_mod_cast positive
    have bounded : (n : ℚ) < 2 ^ 24 := by exact_mod_cast less
    refine le_antisymm (round_le inside bounded (k := n) ?_) (le_round inside bounded (k := n) ?_)
    · exact_mod_cast le_refl (n : ℚ)
    · exact_mod_cast le_refl (n : ℚ)
  · have exponent : Int.log 2 |((2 ^ 24 : ℕ) : ℚ)| = 24 := by
      rw [Nat.abs_cast, Int.log_natCast, Nat.log_pow (by norm_num)]
      rfl
    have unit : ulp ((2 ^ 24 : ℕ) : ℚ) = 2 := by
      rw [ulp, exponent]
      norm_num
    have whole : ((2 ^ 24 : ℕ) : ℚ) / 2 = ((2 ^ 23 : ℤ) : ℚ) := by norm_num
    rw [round, unit, whole, nearest_intCast]
    norm_num

section Quotient

variable {a b : ℕ}

theorem half_ulp_lt (dividend : 0 < a) (divisor : 0 < b) (small : a < 2 ^ 24) :
    ulp ((a : ℚ) / b) / 2 < 1 / b := by
  have top : (0 : ℚ) < a := by exact_mod_cast dividend
  have bottom : (0 : ℚ) < b := by exact_mod_cast divisor
  have bounded : (a : ℚ) < 2 ^ 24 := by exact_mod_cast small
  have quotient : (0 : ℚ) < a / b := by positivity
  have power : (2 : ℚ) ^ Int.log 2 |(a : ℚ) / b| ≤ a / b := by
    rw [abs_of_pos quotient]
    exact_mod_cast Int.zpow_log_le_self (b := 2) (by norm_num) quotient
  have parts : ulp ((a : ℚ) / b) = 2 ^ Int.log 2 |(a : ℚ) / b| / 2 ^ 23 := by
    rw [ulp, zpow_sub₀ (by norm_num)]
    norm_num
  calc ulp ((a : ℚ) / b) / 2 ≤ a / b / 2 ^ 23 / 2 := by rw [parts]; gcongr
    _ = a / 2 ^ 24 * (1 / b) := by ring
    _ < 1 * (1 / b) := by
        have : (a : ℚ) / 2 ^ 24 < 1 := (div_lt_one (by norm_num)).mpr bounded
        gcongr
    _ = 1 / b := one_mul _

theorem le_div_iff (divisor : 0 < b) (small : a < 2 ^ 24) (k : ℤ) : (k : ℚ) ≤ div a b ↔ (k : ℚ) ≤ a / b := by
  obtain rfl | dividend := Nat.eq_zero_or_pos a
  · simp [div]
  have top : (0 : ℚ) < a := by exact_mod_cast dividend
  have bottom : (1 : ℚ) ≤ b := by exact_mod_cast divisor
  have inside : (0 : ℚ) < a / b := by positivity
  have bounded : (a : ℚ) / b < 2 ^ 24 := by
    have : (a : ℚ) < 2 ^ 24 := by exact_mod_cast small
    exact lt_of_le_of_lt (div_le_self top.le bottom) this
  refine ⟨fun rounded => ?_, le_round inside bounded⟩
  by_contra above
  have gap : (1 : ℚ) / b ≤ k - a / b := by
    have apart : (a : ℤ) + 1 ≤ k * b := by
      have less : (a : ℚ) < k * b := (div_lt_iff₀ (by linarith)).mp (not_le.mp above)
      exact_mod_cast less
    have apart' : (a : ℚ) + 1 ≤ k * b := by exact_mod_cast apart
    rw [le_sub_iff_add_le, ← add_div, div_le_iff₀ (by linarith)]
    linarith
  have error := (abs_le.mp (round_error ((a : ℚ) / b))).2
  have half := half_ulp_lt dividend divisor small
  unfold div at rounded
  linarith

theorem div_le_iff (divisor : 0 < b) (small : a < 2 ^ 24) (k : ℤ) : div a b ≤ (k : ℚ) ↔ (a : ℚ) / b ≤ k := by
  obtain rfl | dividend := Nat.eq_zero_or_pos a
  · simp [div]
  have top : (0 : ℚ) < a := by exact_mod_cast dividend
  have bottom : (1 : ℚ) ≤ b := by exact_mod_cast divisor
  have inside : (0 : ℚ) < a / b := by positivity
  have bounded : (a : ℚ) / b < 2 ^ 24 := by
    have : (a : ℚ) < 2 ^ 24 := by exact_mod_cast small
    exact lt_of_le_of_lt (div_le_self top.le bottom) this
  refine ⟨fun rounded => ?_, round_le inside bounded⟩
  by_contra below
  have gap : (1 : ℚ) / b ≤ a / b - k := by
    have apart : k * b + 1 ≤ (a : ℤ) := by
      have less : k * b < (a : ℚ) := (lt_div_iff₀ (by linarith)).mp (not_le.mp below)
      exact_mod_cast less
    have apart' : (k : ℚ) * b + 1 ≤ a := by exact_mod_cast apart
    rw [le_sub_iff_add_le, ← sub_nonneg]
    have whole : (a : ℚ) / b - (1 / b + k) = (a - (k * b + 1)) / b := by
      field_simp
      ring
    rw [whole]
    exact div_nonneg (by linarith) (by linarith)
  have error := (abs_le.mp (round_error ((a : ℚ) / b))).1
  have half := half_ulp_lt dividend divisor small
  unfold div at rounded
  linarith

theorem floor_div (divisor : 0 < b) (small : a < 2 ^ 24) : ⌊div a b⌋ = (a / b : ℕ) := by
  have same : ⌊div a b⌋ = ⌊(a : ℚ) / b⌋ := by
    refine le_antisymm ?_ ?_
    · exact Int.le_floor.mpr ((le_div_iff divisor small _).mp (Int.floor_le _))
    · exact Int.le_floor.mpr ((le_div_iff divisor small _).mpr (Int.floor_le _))
  rw [same]
  exact Rat.floor_natCast_div_natCast a b

theorem ceil_div (divisor : 0 < b) (small : a < 2 ^ 24) : ⌈div a b⌉ = ((a + b - 1) / b : ℕ) := by
  have same : ⌈div a b⌉ = ⌈(a : ℚ) / b⌉ := by
    refine le_antisymm ?_ ?_
    · exact Int.ceil_le.mpr ((div_le_iff divisor small _).mpr (Int.le_ceil _))
    · exact Int.ceil_le.mpr ((div_le_iff divisor small _).mp (Int.le_ceil _))
  rw [same, Int.ceil_eq_iff]
  have bottom : (0 : ℚ) < b := by exact_mod_cast divisor
  have parts := Nat.div_add_mod (a + b - 1) b
  have rest := Nat.mod_lt (a + b - 1) divisor
  constructor
  · rw [lt_div_iff₀ bottom, Int.cast_natCast, sub_mul, one_mul, sub_lt_iff_lt_add, mul_comm]
    have : b * ((a + b - 1) / b) < a + b := by omega
    exact_mod_cast this
  · rw [div_le_iff₀ bottom, Int.cast_natCast, mul_comm]
    have : a ≤ b * ((a + b - 1) / b) := by omega
    exact_mod_cast this

theorem toInt_div (divisor : 0 < b) (small : a < 2 ^ 24) : toInt (div a b) = (a / b : ℕ) := by
  have nonnegative : 0 ≤ div a b := by
    have := (le_div_iff divisor small 0).mpr (by positivity)
    exact_mod_cast this
  rw [toInt, if_pos nonnegative, floor_div divisor small]

theorem toInt_divCeil (divisor : 0 < b) (small : a + b ≤ 2 ^ 24) :
    toInt (divCeil a b) = ((a + b - 1) / b : ℕ) := by
  have sum : add a b = (a + b : ℕ) := by
    rw [add, ← Nat.cast_add, round_natCast small]
  have less : sub (add a b) 1 = (a + b - 1 : ℕ) := by
    rw [sum, sub, ← Nat.cast_one, ← Nat.cast_sub (by omega), round_natCast (by omega)]
  rw [divCeil, less]
  exact toInt_div divisor (by omega)

end Quotient

end Resister.Library.Binary32
