import Mathlib
import Resister.Base.Bitfield
import Resister.Library.FeedbackShift

/-!
# Skewed associative indexing

`SkewedAssociative`: which set an address belongs to in each way, and the address of an entry from
its tag, set and way.
-/

namespace Resister.Cache

open Resister.Base Function BitVec Nat
open Resister.Library

def bits (val : Addr) (first last : Nat) : Addr := (val >>> last) &&& mask (BitVec.ofNat 32 (first - last + 1))

def mbits (val : Addr) (first last : Nat) : Addr :=
  val &&& (mask (BitVec.ofNat 32 (first + 1)) &&& ~~~mask (BitVec.ofNat 32 last))

def bitAt (val : Addr) (bit : Nat) : BitVec 8 := (bits val bit bit).setWidth 8

def setBit (val : Addr) (bit : Nat) (bitVal : BitVec 8) : Addr :=
  let bmask := maskRange (BitVec.ofNat 32 bit) (BitVec.ofNat 32 bit)
  (val &&& ~~~bmask) ||| ((bitVal.setWidth 64 <<< bit) &&& bmask)

/-- A policy that the constructors accept: more than two sets, a power of two of them, as a 32-bit number, and room for
the bits that are skewed. -/
structure SkewedAssociative where
  setShift : Nat
  msbShift : Nat
  assoc : Nat
  assoc_pos : 0 < assoc
  many : 1 ≤ msbShift
  counted : msbShift + 1 < 32
  room : setShift + 2 * (msbShift + 1) ≤ 64

namespace SkewedAssociative

variable (p : SkewedAssociative)

def numSets : Nat := 2 ^ (p.msbShift + 1)

def setMask : Addr := BitVec.ofNat 64 (p.numSets - 1)

def tagShift : Nat := p.setShift + (p.msbShift + 1)

def hash (addr : Addr) : Addr :=
  let lsb := bitAt addr 0
  let msb := bitAt addr p.msbShift
  setBit (addr >>> 1) p.msbShift (msb ^^^ lsb)

def dehash (addr : Addr) : Addr :=
  let msb := bitAt addr (p.msbShift - 1)
  let xorBit := bitAt addr p.msbShift
  let lsb := msb ^^^ xorBit
  setBit (mbits addr (p.msbShift - 1) 0 <<< 1) 0 lsb

def addr1 (addr : Addr) : Addr := bits addr p.msbShift 0

def addr2 (addr : Addr) : Addr := bits addr (2 * (p.msbShift + 1) - 1) (p.msbShift + 1)

def skewing (way : Nat) (addr1 addr2 : Addr) : Addr :=
  match way % 8 with
  | 0 => p.hash addr1 ^^^ p.hash addr2 ^^^ addr2
  | 1 => p.hash addr1 ^^^ p.hash addr2 ^^^ addr1
  | 2 => p.hash addr1 ^^^ p.dehash addr2 ^^^ addr2
  | 3 => p.hash addr1 ^^^ p.dehash addr2 ^^^ addr1
  | 4 => p.dehash addr1 ^^^ p.hash addr2 ^^^ addr2
  | 5 => p.dehash addr1 ^^^ p.hash addr2 ^^^ addr1
  | 6 => p.dehash addr1 ^^^ p.dehash addr2 ^^^ addr2
  | _ => p.dehash addr1 ^^^ p.dehash addr2 ^^^ addr1

def skew (addr : Addr) (way : BitVec 32) : Addr :=
  p.hash^[way.toNat / 8] (p.skewing way.toNat (p.addr1 addr) (p.addr2 addr))

def deskewing (way : Nat) (addr1 addr2 : Addr) : Addr :=
  match way % 8 with
  | 0 => p.dehash (addr1 ^^^ p.hash addr2 ^^^ addr2)
  | 1 => p.hash^[p.msbShift] (addr1 ^^^ p.hash addr2)
  | 2 => p.dehash (addr1 ^^^ p.dehash addr2 ^^^ addr2)
  | 3 => p.hash^[p.msbShift] (addr1 ^^^ p.dehash addr2)
  | 4 => p.hash (addr1 ^^^ p.hash addr2 ^^^ addr2)
  | 5 => p.hash^[p.msbShift + 1] (addr1 ^^^ p.hash addr2)
  | 6 => p.hash (addr1 ^^^ p.dehash addr2 ^^^ addr2)
  | _ => p.hash^[p.msbShift + 1] (addr1 ^^^ p.dehash addr2)

def deskew (addr : Addr) (way : BitVec 32) : Addr :=
  let unpiled := if 8 ≤ way.toNat then p.dehash^[way.toNat / 8] (p.addr1 addr) else p.addr1 addr
  p.deskewing way.toNat unpiled (p.addr2 addr)

def extractSet (addr : Addr) (way : BitVec 32) : BitVec 32 :=
  (p.skew (addr >>> p.setShift) way &&& p.setMask).setWidth 32

def extractTag (addr : Addr) : Addr := addr >>> p.tagShift

def regenerateAddr (tag : Addr) (set way : BitVec 32) : Addr :=
  let addrSet := (tag <<< (p.msbShift + 1)) ||| set.setWidth 64
  (tag <<< p.tagShift) ||| ((p.deskew addrSet way &&& p.setMask) <<< p.setShift)

def Narrow (x : Addr) : Prop := ∀ i, p.msbShift < i → x.getLsbD i = false

end SkewedAssociative

section Bits

variable {val : Addr} {b : BitVec 8}

theorem toNat_ofNat_of_le {k : Nat} (small : k ≤ 64) : (BitVec.ofNat 32 k).toNat = k := by
  rw [toNat_ofNat]
  omega

theorem getLsbD_bits {first last i : Nat} (order : last ≤ first) (small : first < 64) :
    (bits val first last).getLsbD i = (decide (i + last ≤ first) && val.getLsbD (last + i)) := by
  rw [bits, getLsbD_and, getLsbD_ushiftRight, getLsbD_mask, toNat_ofNat_of_le (by omega), Bool.and_comm]
  congr 1
  apply decide_eq_decide.mpr
  omega

theorem getLsbD_bitAt {bit : Nat} (small : bit < 64) {i : Nat} :
    (bitAt val bit).getLsbD i = (decide (i = 0) && val.getLsbD bit) := by
  rw [bitAt, getLsbD_setWidth, getLsbD_bits (le_refl _) small]
  by_cases zero : i = 0
  · simp [zero]
  · have beyond : ¬ i + bit ≤ bit := by omega
    simp [zero, beyond]

theorem getLsbD_setBit {bit : Nat} (small : bit < 64) {i : Nat} :
    (setBit val bit b).getLsbD i = if i = bit then b.getLsbD 0 else val.getLsbD i := by
  have up : (BitVec.ofNat 32 bit + 1).toNat = bit + 1 := by
    rw [toNat_add, toNat_ofNat_of_le small.le]
    show (bit + 1) % 2 ^ 32 = bit + 1
    omega
  simp only [setBit, maskRange, getLsbD_or, getLsbD_and, getLsbD_not, getLsbD_mask, up,
    toNat_ofNat_of_le small.le, getLsbD_shiftLeft, getLsbD_setWidth]
  by_cases same : i = bit
  · subst same
    simp [small]
  · rw [if_neg same]
    by_cases low : i < bit
    · have inside : i < 64 := by omega
      simp [low, inside]
    · have high : ¬ i < bit + 1 := by omega
      by_cases inside : i < 64
      · simp [high, inside]
      · simp [high, inside, getLsbD_of_ge val i (by omega)]

theorem getLsbD_mbits_low {first i : Nat} (small : first < 64) :
    (mbits val first 0).getLsbD i = (decide (i ≤ first) && val.getLsbD i) := by
  rw [mbits, getLsbD_and, getLsbD_and, getLsbD_not, getLsbD_mask, getLsbD_mask,
    toNat_ofNat_of_le (by omega), toNat_ofNat_of_le (by omega)]
  by_cases inside : i ≤ first
  · have below : i < 64 := by omega
    have below' : i < first + 1 := by omega
    simp [inside, below, below']
  · have above : ¬ i < first + 1 := by omega
    simp [inside, above]

end Bits

namespace SkewedAssociative

variable {p : SkewedAssociative} {x y : Addr}

theorem msbShift_lt (p : SkewedAssociative) : p.msbShift < 64 := by
  have counted := p.counted
  omega

theorem getLsbD_hash (i : Nat) :
    (p.hash x).getLsbD i = if i = p.msbShift then x.getLsbD p.msbShift ^^ x.getLsbD 0 else x.getLsbD (i + 1) := by
  rw [hash, getLsbD_setBit p.msbShift_lt, getLsbD_xor, getLsbD_bitAt p.msbShift_lt, getLsbD_bitAt (by decide),
    getLsbD_ushiftRight, add_comm 1 i]
  rfl

theorem getLsbD_dehash (i : Nat) :
    (p.dehash x).getLsbD i =
      if i = 0 then x.getLsbD (p.msbShift - 1) ^^ x.getLsbD p.msbShift
      else decide (i ≤ p.msbShift) && x.getLsbD (i - 1) := by
  have many := p.many
  have small := p.msbShift_lt
  rw [dehash, getLsbD_setBit (by decide), getLsbD_xor, getLsbD_bitAt (by omega), getLsbD_bitAt small,
    getLsbD_shiftLeft, getLsbD_mbits_low (by omega)]
  by_cases zero : i = 0
  · simp [zero]
  · rw [if_neg zero, if_neg zero]
    by_cases inside : i ≤ p.msbShift
    · have below : i < 64 := by omega
      have positive : ¬ i < 1 := by omega
      have last : i - 1 ≤ p.msbShift - 1 := by omega
      simp [inside, below, positive, last]
    · have beyond : ¬ i - 1 ≤ p.msbShift - 1 := by omega
      simp [inside, beyond]

theorem hash_xor : p.hash (x ^^^ y) = p.hash x ^^^ p.hash y := by
  apply eq_of_getLsbD_eq
  intro i _
  simp only [getLsbD_hash, getLsbD_xor]
  split
  · rw [Bool.xor_assoc, Bool.xor_assoc]
    congr 1
    rw [Bool.xor_left_comm]
  · rfl

theorem Narrow.hash (narrow : p.Narrow x) : p.Narrow (p.hash x) := by
  intro i beyond
  rw [getLsbD_hash, if_neg (by omega)]
  exact narrow (i + 1) (by omega)

theorem narrow_dehash : p.Narrow (p.dehash x) := by
  intro i beyond
  rw [getLsbD_dehash, if_neg (by omega), decide_eq_false (by omega), Bool.false_and]

theorem Narrow.xor (left : p.Narrow x) (right : p.Narrow y) : p.Narrow (x ^^^ y) := by
  intro i beyond
  rw [getLsbD_xor, left i beyond, right i beyond]
  rfl

theorem Narrow.iterate {f : Addr → Addr} (keeps : ∀ z, p.Narrow z → p.Narrow (f z)) (k : Nat) (narrow : p.Narrow x) :
    p.Narrow (f^[k] x) := by
  induction k with
  | zero => exact narrow
  | succ k ih =>
    rw [iterate_succ_apply']
    exact keeps _ ih

theorem Narrow.ext (left : p.Narrow x) (right : p.Narrow y) (same : ∀ i ≤ p.msbShift, x.getLsbD i = y.getLsbD i) :
    x = y := by
  apply eq_of_getLsbD_eq
  intro i _
  by_cases inside : i ≤ p.msbShift
  · exact same i inside
  · rw [left i (by omega), right i (by omega)]

theorem dehash_hash (narrow : p.Narrow x) : p.dehash (p.hash x) = x := by
  have many := p.many
  apply narrow_dehash.ext narrow
  intro i inside
  rw [getLsbD_dehash]
  by_cases zero : i = 0
  · rw [if_pos zero, getLsbD_hash, getLsbD_hash, if_neg (by omega), if_pos rfl, Nat.sub_add_cancel many,
      ← Bool.xor_assoc, Bool.xor_self, Bool.false_xor, zero]
  · rw [if_neg zero, getLsbD_hash, if_neg (by omega), Nat.sub_add_cancel (by omega), decide_eq_true inside, Bool.true_and]

theorem hash_dehash (narrow : p.Narrow x) : p.hash (p.dehash x) = x := by
  have many := p.many
  apply narrow_dehash.hash.ext narrow
  intro i inside
  rw [getLsbD_hash]
  by_cases top : i = p.msbShift
  · rw [if_pos top, getLsbD_dehash, getLsbD_dehash, if_neg (by omega), if_pos rfl, decide_eq_true (le_refl _),
      Bool.true_and, ← Bool.xor_assoc, Bool.xor_self, Bool.false_xor, top]
  · rw [if_neg top, getLsbD_dehash, if_neg (by omega), decide_eq_true (by omega), Bool.true_and, Nat.add_sub_cancel]

theorem dehash_hash_iterate (narrow : p.Narrow x) (k : Nat) : p.dehash^[k] (p.hash^[k] x) = x := by
  induction k with
  | zero => rfl
  | succ k ih =>
    rw [iterate_succ_apply, iterate_succ_apply',
      dehash_hash (narrow.iterate (fun _ => Narrow.hash) k)]
    exact ih

theorem hash_dehash_iterate (narrow : p.Narrow x) (k : Nat) : p.hash^[k] (p.dehash^[k] x) = x := by
  induction k with
  | zero => rfl
  | succ k ih =>
    rw [iterate_succ_apply, iterate_succ_apply',
      hash_dehash (narrow.iterate (fun _ _ => narrow_dehash) k)]
    exact ih

theorem getLsbD_iterate_hash {i : Nat} (inside : i ≤ p.msbShift) (k : Nat) :
    (p.hash^[k] x).getLsbD i = (FeedbackShift.shift (p.msbShift + 1))^[k] x.getLsbD i := by
  induction k generalizing i with
  | zero => rfl
  | succ k ih =>
    rw [iterate_succ_apply', iterate_succ_apply', getLsbD_hash, FeedbackShift.shift]
    by_cases top : i = p.msbShift
    · rw [if_pos top, if_pos (by omega), ih (le_refl _), ih (zero_le _), top, Bool.xor_comm]
    · rw [if_neg top, if_neg (by omega), ih (by omega)]

theorem iterate_hash_xor_iterate (narrow : p.Narrow x) :
    p.hash^[p.msbShift + 1] x ^^^ p.hash^[p.msbShift] x = x := by
  have kept := fun k => narrow.iterate (fun _ => Narrow.hash) k
  apply ((kept _).xor (kept _)).ext narrow
  intro i inside
  rw [getLsbD_xor, getLsbD_iterate_hash inside, getLsbD_iterate_hash inside]
  exact FeedbackShift.iterate_shift_xor inside

theorem iterate_hash_xor (k : Nat) : p.hash^[k] (x ^^^ y) = p.hash^[k] x ^^^ p.hash^[k] y := by
  induction k with
  | zero => rfl
  | succ k ih => rw [iterate_succ_apply', iterate_succ_apply', iterate_succ_apply', ih, hash_xor]

theorem undo_hash_xor (narrow : p.Narrow x) : p.hash^[p.msbShift] (p.hash x ^^^ x) = x := by
  rw [iterate_hash_xor, ← iterate_succ_apply]
  exact iterate_hash_xor_iterate narrow

theorem undo_dehash_xor (narrow : p.Narrow x) : p.hash^[p.msbShift + 1] (p.dehash x ^^^ x) = x := by
  rw [iterate_succ_apply, hash_xor, hash_dehash narrow, BitVec.xor_comm]
  exact undo_hash_xor narrow

theorem xor_cancel (a b : Addr) : a ^^^ b ^^^ b = a := by
  rw [BitVec.xor_assoc, BitVec.xor_self, BitVec.xor_zero]

theorem xor_swap (a b c : Addr) : a ^^^ b ^^^ c = a ^^^ c ^^^ b := by ac_rfl

theorem xor_cancel_two (a b c : Addr) : a ^^^ b ^^^ c ^^^ b ^^^ c = a := by
  rw [xor_swap (a ^^^ b) c b, xor_cancel, xor_cancel]

theorem xor_cancel_middle (a b c : Addr) : a ^^^ b ^^^ c ^^^ b = a ^^^ c := by
  rw [xor_swap (a ^^^ b) c b, xor_cancel]

section Skewing

variable {a1 a2 : Addr}

theorem deskewing_skewing (way : Nat) (narrow : p.Narrow a1) :
    p.deskewing way (p.skewing way a1 a2) a2 = a1 := by
  have range : way % 8 < 8 := mod_lt _ (by decide)
  unfold deskewing skewing
  interval_cases way % 8
  all_goals simp only
  · rw [xor_cancel_two, dehash_hash narrow]
  · rw [xor_cancel_middle, undo_hash_xor narrow]
  · rw [xor_cancel_two, dehash_hash narrow]
  · rw [xor_cancel_middle, undo_hash_xor narrow]
  · rw [xor_cancel_two, hash_dehash narrow]
  · rw [xor_cancel_middle, undo_dehash_xor narrow]
  · rw [xor_cancel_two, hash_dehash narrow]
  · rw [xor_cancel_middle, undo_dehash_xor narrow]

theorem hash_undo_xor (narrow : p.Narrow x) (b : Addr) :
    p.hash (p.hash^[p.msbShift] x) ^^^ b ^^^ p.hash^[p.msbShift] x = x ^^^ b := by
  have again : p.hash (p.hash^[p.msbShift] x) = p.hash^[p.msbShift + 1] x := (iterate_succ_apply' ..).symm
  rw [again, xor_swap, iterate_hash_xor_iterate narrow]

theorem dehash_undo_xor (narrow : p.Narrow x) (b : Addr) :
    p.dehash (p.hash^[p.msbShift + 1] x) ^^^ b ^^^ p.hash^[p.msbShift + 1] x = x ^^^ b := by
  have kept : p.Narrow (p.hash^[p.msbShift] x) := narrow.iterate (fun _ => Narrow.hash) _
  have back : p.dehash (p.hash^[p.msbShift + 1] x) = p.hash^[p.msbShift] x := by
    rw [iterate_succ_apply', dehash_hash kept]
  rw [back, xor_swap, BitVec.xor_comm (p.hash^[p.msbShift] x), iterate_hash_xor_iterate narrow]

theorem skewing_deskewing (way : Nat) (first : p.Narrow a1) (second : p.Narrow a2) :
    p.skewing way (p.deskewing way a1 a2) a2 = a1 := by
  have range : way % 8 < 8 := mod_lt _ (by decide)
  have hashed : p.Narrow (a1 ^^^ p.hash a2) := first.xor second.hash
  have dehashed : p.Narrow (a1 ^^^ p.dehash a2) := first.xor narrow_dehash
  unfold deskewing skewing
  interval_cases way % 8
  all_goals simp only
  · rw [hash_dehash (hashed.xor second), xor_cancel_two]
  · rw [hash_undo_xor hashed, xor_cancel]
  · rw [hash_dehash (dehashed.xor second), xor_cancel_two]
  · rw [hash_undo_xor dehashed, xor_cancel]
  · rw [dehash_hash (hashed.xor second), xor_cancel_two]
  · rw [dehash_undo_xor hashed, xor_cancel]
  · rw [dehash_hash (dehashed.xor second), xor_cancel_two]
  · rw [dehash_undo_xor dehashed, xor_cancel]

theorem narrow_skewing (way : Nat) (first : p.Narrow a1) (second : p.Narrow a2) : p.Narrow (p.skewing way a1 a2) := by
  unfold skewing
  split
  · exact (first.hash.xor second.hash).xor second
  · exact (first.hash.xor second.hash).xor first
  · exact (first.hash.xor narrow_dehash).xor second
  · exact (first.hash.xor narrow_dehash).xor first
  · exact (narrow_dehash.xor second.hash).xor second
  · exact (narrow_dehash.xor second.hash).xor first
  · exact (narrow_dehash.xor narrow_dehash).xor second
  · exact (narrow_dehash.xor narrow_dehash).xor first

theorem narrow_deskewing (way : Nat) (first : p.Narrow a1) (second : p.Narrow a2) :
    p.Narrow (p.deskewing way a1 a2) := by
  have hashed : p.Narrow (a1 ^^^ p.hash a2) := first.xor second.hash
  have dehashed : p.Narrow (a1 ^^^ p.dehash a2) := first.xor narrow_dehash
  unfold deskewing
  split
  · exact narrow_dehash
  · exact hashed.iterate (fun _ => Narrow.hash) _
  · exact narrow_dehash
  · exact dehashed.iterate (fun _ => Narrow.hash) _
  · exact (hashed.xor second).hash
  · exact hashed.iterate (fun _ => Narrow.hash) _
  · exact (dehashed.xor second).hash
  · exact dehashed.iterate (fun _ => Narrow.hash) _

end Skewing

def join (a1 a2 : Addr) : Addr := (a2 <<< (p.msbShift + 1)) ||| a1

theorem narrow_addr1 : p.Narrow (p.addr1 x) := by
  intro i beyond
  rw [addr1, getLsbD_bits (zero_le _) p.msbShift_lt, decide_eq_false (by omega), Bool.false_and]

theorem getLsbD_addr1 {i : Nat} (inside : i ≤ p.msbShift) : (p.addr1 x).getLsbD i = x.getLsbD i := by
  rw [addr1, getLsbD_bits (zero_le _) p.msbShift_lt, decide_eq_true (by omega), Bool.true_and, zero_add]

theorem getLsbD_addr2 (i : Nat) :
    (p.addr2 x).getLsbD i = (decide (i ≤ p.msbShift) && x.getLsbD (p.msbShift + 1 + i)) := by
  have room := p.room
  rw [addr2, getLsbD_bits (by omega) (by omega)]
  congr 1
  apply decide_eq_decide.mpr
  omega

theorem narrow_addr2 : p.Narrow (p.addr2 x) := by
  intro i beyond
  rw [getLsbD_addr2, decide_eq_false (by omega), Bool.false_and]

theorem addr1_join {a1 a2 : Addr} (narrow : p.Narrow a1) : p.addr1 (p.join a1 a2) = a1 := by
  apply narrow_addr1.ext narrow
  intro i inside
  have low : i < p.msbShift + 1 := by omega
  rw [getLsbD_addr1 inside, join, getLsbD_or, getLsbD_shiftLeft]
  simp [low]

theorem addr2_join {a1 a2 : Addr} (narrow : p.Narrow a1) : p.addr2 (p.join a1 a2) = p.addr1 a2 := by
  have room := p.room
  apply narrow_addr2.ext narrow_addr1
  intro i inside
  have high : p.msbShift + 1 + i < 64 := by omega
  have above : ¬ p.msbShift + 1 + i < p.msbShift + 1 := by omega
  rw [getLsbD_addr2, getLsbD_addr1 inside, join, getLsbD_or, getLsbD_shiftLeft,
    narrow (p.msbShift + 1 + i) (by omega), Nat.add_sub_cancel_left, decide_eq_true inside, decide_eq_true high,
    decide_eq_false above]
  simp

theorem addr1_of_narrow (narrow : p.Narrow x) : p.addr1 x = x := by
  apply narrow_addr1.ext narrow
  intro i inside
  exact getLsbD_addr1 inside

theorem narrow_skew (addr : Addr) (way : BitVec 32) : p.Narrow (p.skew addr way) :=
  (narrow_skewing _ narrow_addr1 narrow_addr2).iterate (fun _ => Narrow.hash) _

theorem deskew_eq (addr : Addr) (way : BitVec 32) :
    p.deskew addr way = p.deskewing way.toNat (p.dehash^[way.toNat / 8] (p.addr1 addr)) (p.addr2 addr) := by
  unfold deskew
  split
  · rfl
  next few =>
    rw [div_eq_of_lt (by omega)]
    rfl

theorem narrow_deskew (addr : Addr) (way : BitVec 32) : p.Narrow (p.deskew addr way) := by
  rw [deskew_eq]
  exact narrow_deskewing _ (narrow_addr1.iterate (fun _ _ => narrow_dehash) _) narrow_addr2

theorem deskew_join_skew (addr : Addr) (way : BitVec 32) {a2 : Addr} (tag : p.addr1 a2 = p.addr2 addr) :
    p.deskew (p.join (p.skew addr way) a2) way = p.addr1 addr := by
  have skewed := narrow_skew (p := p) addr way
  rw [deskew_eq, addr1_join skewed, addr2_join skewed, tag]
  unfold skew
  rw [dehash_hash_iterate (narrow_skewing _ narrow_addr1 narrow_addr2), deskewing_skewing _ narrow_addr1]

theorem skew_join_deskew (addr : Addr) (way : BitVec 32) {a2 : Addr} (tag : p.addr1 a2 = p.addr2 addr) :
    p.skew (p.join (p.deskew addr way) a2) way = p.addr1 addr := by
  have deskewed := narrow_deskew (p := p) addr way
  have unpiled : p.Narrow (p.dehash^[way.toNat / 8] (p.addr1 addr)) :=
    narrow_addr1.iterate (fun _ _ => narrow_dehash) _
  rw [skew, addr1_join deskewed, addr2_join deskewed, tag, deskew_eq, skewing_deskewing _ unpiled narrow_addr2,
    hash_dehash_iterate narrow_addr1]

theorem getLsbD_setMask (i : Nat) : p.setMask.getLsbD i = decide (i ≤ p.msbShift) := by
  have small := p.msbShift_lt
  rw [setMask, numSets, getLsbD_ofNat, testBit_two_pow_sub_one]
  by_cases inside : i ≤ p.msbShift
  · have below : i < 64 := by omega
    have below' : i < p.msbShift + 1 := by omega
    simp [inside, below, below']
  · have beyond : ¬ i < p.msbShift + 1 := by omega
    simp [inside, beyond]

theorem and_setMask (narrow : p.Narrow x) : x &&& p.setMask = x := by
  apply eq_of_getLsbD_eq
  intro i _
  rw [getLsbD_and, getLsbD_setMask]
  by_cases inside : i ≤ p.msbShift
  · simp [inside]
  · rw [narrow i (by omega), Bool.false_and]

theorem extractSet_word (addr : Addr) (way : BitVec 32) :
    (p.extractSet addr way).setWidth 64 = p.skew (addr >>> p.setShift) way := by
  have counted := p.counted
  have narrow := narrow_skew (p := p) (addr >>> p.setShift) way
  apply eq_of_getLsbD_eq
  intro i bound
  rw [extractSet, and_setMask narrow, getLsbD_setWidth, getLsbD_setWidth]
  by_cases inside : i ≤ p.msbShift
  · have below : i < 32 := by omega
    simp [bound, below]
  · rw [narrow i (by omega), Bool.and_false, Bool.and_false]

theorem tag_addr2 (addr : Addr) : p.addr1 (p.extractTag addr) = p.addr2 (addr >>> p.setShift) := by
  apply narrow_addr1.ext narrow_addr2
  intro i inside
  rw [getLsbD_addr1 inside, getLsbD_addr2, decide_eq_true inside, Bool.true_and, extractTag, getLsbD_ushiftRight,
    getLsbD_ushiftRight, tagShift, add_assoc]

theorem tag_or_addr1 (addr : Addr) :
    (p.extractTag addr <<< p.tagShift) ||| (p.addr1 (addr >>> p.setShift) <<< p.setShift) =
      (addr >>> p.setShift) <<< p.setShift := by
  apply eq_of_getLsbD_eq
  intro i bound
  rw [getLsbD_or, getLsbD_shiftLeft, getLsbD_shiftLeft, getLsbD_shiftLeft, extractTag,
    getLsbD_ushiftRight, getLsbD_ushiftRight, tagShift]
  by_cases offset : i < p.setShift
  · have below : i < p.setShift + (p.msbShift + 1) := by omega
    simp [offset, below]
  · by_cases index : i - p.setShift ≤ p.msbShift
    · have below : i < p.setShift + (p.msbShift + 1) := by omega
      rw [getLsbD_addr1 index, getLsbD_ushiftRight]
      simp [offset, below, bound]
    · have above : ¬ i < p.setShift + (p.msbShift + 1) := by omega
      have same : p.setShift + (p.msbShift + 1) + (i - (p.setShift + (p.msbShift + 1))) = i := by omega
      have same' : p.setShift + (i - p.setShift) = i := by omega
      rw [narrow_addr1 (i - p.setShift) (by omega), same, same']
      simp [offset, above, bound]

theorem regenerateAddr_eq (addr : Addr) (way : BitVec 32) :
    p.regenerateAddr (p.extractTag addr) (p.extractSet addr way) way = (addr >>> p.setShift) <<< p.setShift := by
  have found : p.deskew (p.join (p.skew (addr >>> p.setShift) way) (p.extractTag addr)) way =
      p.addr1 (addr >>> p.setShift) := deskew_join_skew _ way (tag_addr2 addr)
  unfold regenerateAddr
  rw [extractSet_word]
  change (p.extractTag addr <<< p.tagShift) |||
    ((p.deskew (p.join (p.skew (addr >>> p.setShift) way) (p.extractTag addr)) way &&& p.setMask) <<< p.setShift) = _
  rw [found, and_setMask narrow_addr1, tag_or_addr1]

theorem shift_back (a : Addr) : ((a >>> p.setShift) <<< p.setShift) >>> p.setShift = a >>> p.setShift := by
  apply eq_of_getLsbD_eq
  intro i _
  rw [getLsbD_ushiftRight, getLsbD_shiftLeft, getLsbD_ushiftRight, getLsbD_ushiftRight,
    Nat.add_sub_cancel_left]
  by_cases inside : p.setShift + i < 64
  · simp [inside]
  · rw [getLsbD_of_ge a _ (by omega), Bool.and_false]

/-- Indexing can be undone in every way: hashing and skewing have inverses on set indices, and the tag and the set of an
address determine its block. -/
theorem skewed_indexing_invertible (p : SkewedAssociative) :
    (∀ x, p.Narrow x → p.dehash (p.hash x) = x ∧ p.hash (p.dehash x) = x) ∧
      (∀ addr way, p.deskew (p.join (p.skew addr way) (p.addr2 addr)) way = p.addr1 addr ∧
        p.skew (p.join (p.deskew addr way) (p.addr2 addr)) way = p.addr1 addr) ∧
      (∀ addr way,
        p.regenerateAddr (p.extractTag addr) (p.extractSet addr way) way = (addr >>> p.setShift) <<< p.setShift) ∧
      ∀ a b way, p.extractTag a = p.extractTag b → p.extractSet a way = p.extractSet b way →
        a >>> p.setShift = b >>> p.setShift := by
  refine ⟨?_, ?_, regenerateAddr_eq, ?_⟩
  · intro x narrow
    exact ⟨dehash_hash narrow, hash_dehash narrow⟩
  · intro addr way
    have tag : p.addr1 (p.addr2 addr) = p.addr2 addr := addr1_of_narrow narrow_addr2
    exact ⟨deskew_join_skew addr way tag, skew_join_deskew addr way tag⟩
  · intro a b way tags sets
    have blocks : (a >>> p.setShift) <<< p.setShift = (b >>> p.setShift) <<< p.setShift := by
      rw [← regenerateAddr_eq a way, ← regenerateAddr_eq b way, tags, sets]
    rw [← shift_back a, ← shift_back b, blocks]

end SkewedAssociative

end Resister.Cache
