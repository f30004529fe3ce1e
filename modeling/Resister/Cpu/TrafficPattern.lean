import Mathlib

/-!
# The destinations of the synthetic traffic

Each pattern computes the destination from the number of the tester, seen as a position in a square
of nodes whose side is the integer square root of the number of destinations.
-/

namespace Resister.Cpu

open Nat

inductive TrafficType where
  | bitComplement
  | bitReverse
  | bitRotation
  | neighbor
  | shuffle
  | tornado
  | transpose
  | uniformRandom
  deriving DecidableEq, Repr

inductive RequestType where
  | readReq
  | instFetch
  | writeReq
  deriving DecidableEq, Repr

structure Traffic where
  numDestinations : Nat
  id : Nat
  traffic : TrafficType
  singleDest : Int := -1
  blockSizeBits : Nat := 6
  injVnet : Int := -1

structure GeneratedPkt where
  destination : Nat
  paddr : Nat
  requestType : RequestType
  deriving DecidableEq, Repr

/-- The conversion of an `int` to `unsigned`. -/
def toUnsigned (x : Int) : Nat := (x % 2 ^ 32).toNat

/-- The loop of the pattern `BIT_REVERSE_`, with the rounds that are left. -/
def reverseBits : Nat → Nat → Nat → Nat
  | 0, _, reverse => reverse
  | rounds + 1, straight, reverse =>
    reverseBits rounds (straight >>> 1) (reverse <<< 1 ||| (straight >>> 1) &&& 1)

namespace Traffic

def radix (t : Traffic) : Nat := t.numDestinations.sqrt

/-- The first part of both `generatePkt` functions, where `draw` is the number that `random_mt` gives. -/
def destination (t : Traffic) (draw : Nat) : Nat :=
  let radix : Int := t.radix
  let source : Int := t.id
  let srcX := source % radix
  let srcY := source / radix
  if 0 ≤ t.singleDest then toUnsigned t.singleDest
  else
    match t.traffic with
    | .uniformRandom => draw
    | .bitComplement => toUnsigned ((radix - srcY - 1) * radix + (radix - srcX - 1))
    | .bitReverse => reverseBits (Nat.log 2 t.numDestinations - 1) t.id (t.id &&& 1)
    | .bitRotation =>
      toUnsigned (if source % 2 = 0 then source / 2 else source / 2 + t.numDestinations / 2)
    | .neighbor => toUnsigned (srcY * radix + (srcX + 1) % radix)
    | .shuffle =>
      toUnsigned (if source < t.numDestinations / 2 then source * 2 else source * 2 - t.numDestinations + 1)
    | .transpose => toUnsigned (srcX * radix + srcY)
    | .tornado => toUnsigned (srcY * radix + (srcX + radix / 2 - 1).tmod radix)

def paddr (t : Traffic) (destination : Nat) : Nat := (destination <<< t.blockSizeBits) % 2 ^ 64

def requestOf : Nat → RequestType
  | 0 => .readReq
  | 1 => .instFetch
  | _ => .writeReq

/-- `generatePkt(PType, chooseDst, choose_dest)`. -/
def generatePktOf (t : Traffic) (draw : Nat) (pType : Fin 3) (chooseDst : Bool) (chooseDest : Nat) : GeneratedPkt :=
  let destination := t.destination draw
  { destination
    paddr := t.paddr (if chooseDst then chooseDest else destination)
    requestType := requestOf pType }

def generatePkt (t : Traffic) (draw : Nat) (vnetDraw : Fin 3) : GeneratedPkt :=
  let destination := t.destination draw
  let injReqType := if t.injVnet < 0 ∨ 2 < t.injVnet then vnetDraw.val else t.injVnet.toNat
  { destination, paddr := t.paddr destination, requestType := requestOf injReqType }

/-- Where the pattern stays among the destinations: below the square, and in a row that the last
destination cuts short not between that destination and the end of the row. -/
def Fits (t : Traffic) : Prop :=
  match t.traffic with
  | .bitComplement => t.id < t.radix * t.radix
  | .neighbor => t.radix ≤ t.id % t.radix + 1 ∨ t.id + 1 < t.numDestinations
  | .tornado => t.radix ≤ t.id % t.radix + (t.radix / 2 - 1) ∨ t.id + (t.radix / 2 - 1) < t.numDestinations
  | _ => True

theorem toUnsigned_natCast {x : Nat} (small : x < 2 ^ 32) : toUnsigned x = x := by
  simp only [toUnsigned]
  omega

theorem reverseBits_lt (rounds straight : Nat) {reverse bits : Nat} (small : reverse < 2 ^ bits) :
    reverseBits rounds straight reverse < 2 ^ (bits + rounds) := by
  induction rounds generalizing straight reverse bits with
  | zero => exact small
  | succ rounds ih =>
    have shifted : reverse <<< 1 < 2 ^ (bits + 1) := by
      rw [shiftLeft_eq, pow_one, pow_succ]
      omega
    have last : (straight >>> 1) &&& 1 < 2 ^ (bits + 1) :=
      (Nat.and_lt_two_pow _ (by decide : 1 < 2 ^ 1)).trans_le (Nat.pow_le_pow_right two_pos (by omega))
    have grown := ih (straight >>> 1) (Nat.or_lt_two_pow shifted last)
    rwa [add_right_comm] at grown

variable {t : Traffic} {r d draw : Nat}

/-- A move by `d` along the row leaves the destinations only in a row that is cut short. -/
theorem shifted_lt_iff {n id : Nat} (inside : id < n) (positive : 0 < r) (small : d ≤ r) :
    id / r * r + (id % r + d) % r < n ↔ r ≤ id % r + d ∨ id + d < n := by
  have split := div_add_mod' id r
  have column := mod_lt id positive
  by_cases wraps : r ≤ id % r + d
  · rw [mod_eq_sub_mod wraps, mod_eq_of_lt (by omega)]
    omega
  · rw [mod_eq_of_lt (by omega)]
    omega

theorem transposed_lt {n id : Nat} (inside : id < n) (square : r * r ≤ n) (positive : 0 < r) :
    id % r * r + id / r < n := by
  have split := div_add_mod' id r
  have column := mod_lt id positive
  by_cases below : id / r < r
  · have row : (id % r + 1) * r ≤ r * r := mul_le_mul_right r column
    rw [succ_mul] at row
    omega
  · obtain ⟨k, hk⟩ := Nat.exists_eq_add_of_lt (column.trans_le (not_lt.mp below))
    nlinarith

theorem complement_eq (t : Traffic) :
    ((t.radix : Int) - t.id / t.radix - 1) * t.radix + (t.radix - t.id % t.radix - 1) =
      t.radix * t.radix - 1 - t.id := by
  have split := Int.ediv_mul_add_emod (t.id : Int) t.radix
  linear_combination -split

theorem destination_lt_iff (inside : t.id < t.numDestinations) (int : t.numDestinations < 2 ^ 31)
    (drawn : draw < t.numDestinations) (free : t.singleDest < 0) :
    t.destination draw < t.numDestinations ↔ t.Fits := by
  have square : t.radix * t.radix ≤ t.numDestinations := sqrt_le _
  have positive : 0 < t.radix := sqrt_pos.mpr (by omega)
  have shift (d : Nat) (small : d ≤ t.radix) :
      toUnsigned ((t.id / t.radix * t.radix + (t.id % t.radix + d) % t.radix : Nat) : Int) < t.numDestinations ↔
        t.radix ≤ t.id % t.radix + d ∨ t.id + d < t.numDestinations := by
    rw [toUnsigned_natCast, shifted_lt_iff inside positive small]
    have := mod_lt (t.id % t.radix + d) positive
    have := div_mul_le_self t.id t.radix
    have := sqrt_le_self t.numDestinations
    simp only [radix] at *
    omega
  rw [destination, if_neg (by omega), Fits]
  cases t.traffic with
  | uniformRandom => simpa using drawn
  | bitComplement =>
    simp only [complement_eq, toUnsigned]
    zify
    omega
  | bitReverse =>
    simp only [iff_true]
    have first : t.id &&& 1 < 2 ^ 1 := and_lt_two_pow _ (by decide)
    have bits := reverseBits_lt (Nat.log 2 t.numDestinations - 1) t.id first
    by_cases one : t.numDestinations = 1
    · have zero : t.id = 0 := by omega
      simp [one, zero, reverseBits]
    · rw [Nat.add_sub_cancel' (Nat.log_pos one_lt_two (by omega))] at bits
      exact bits.trans_le (Nat.pow_log_le_self 2 (by omega))
  | bitRotation =>
    simp only [toUnsigned, iff_true]
    split <;> omega
  | neighbor => simpa using shift 1 positive
  | shuffle =>
    simp only [toUnsigned, iff_true]
    split <;> omega
  | tornado =>
    have turned : ((t.id % t.radix : Int) + t.radix / 2 - 1).tmod t.radix =
        ((t.id % t.radix + (t.radix / 2 - 1)) % t.radix : Nat) := by
      by_cases one : t.radix = 1
      · simp [one]
      · have half : ((t.id % t.radix + (t.radix / 2 - 1) : Nat) : Int) = t.id % t.radix + t.radix / 2 - 1 := by omega
        rw [← half]
        rfl
    simpa [turned] using shift (t.radix / 2 - 1) (by omega)
  | transpose =>
    have below := transposed_lt inside square positive
    have same := toUnsigned_natCast (below.trans (by omega))
    push_cast at same
    simpa [same] using below

/-- Both functions give the same destination, which is one of the nodes exactly where the pattern fits. -/
theorem generated_in_range (t : Traffic) (draw chooseDest : Nat) (pType vnetDraw : Fin 3) (chooseDst : Bool)
    (inside : t.id < t.numDestinations) (int : t.numDestinations < 2 ^ 31) (drawn : draw < t.numDestinations)
    (free : t.singleDest < 0) :
    (t.generatePktOf draw pType chooseDst chooseDest).destination = (t.generatePkt draw vnetDraw).destination ∧
      ((t.generatePkt draw vnetDraw).destination < t.numDestinations ↔ t.Fits) :=
  ⟨rfl, destination_lt_iff inside int drawn free⟩

theorem generated_in_range_sixteen :
    (generatePkt { numDestinations := 16, id := 5, traffic := .bitComplement } 0 0).destination < 16 :=
  (generated_in_range { numDestinations := 16, id := 5, traffic := .bitComplement } 0 0 0 0 false
    (by decide) (by decide) (by decide) (by decide)).2.mpr (by decide +kernel : 5 < Nat.sqrt 16 * Nat.sqrt 16)

/-- With eight nodes the square has four, and the complement of node 4 is -1. -/
theorem complement_of_four_out_of_range :
    (generatePkt { numDestinations := 8, id := 4, traffic := .bitComplement } 0 0).destination = 2 ^ 32 - 1 := by
  decide +kernel

end Traffic

end Resister.Cpu
