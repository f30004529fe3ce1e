import Mathlib
import Resister.Base.Bitfield

/-!
# Address ranges

`AddrRange` of `base/addr_range.hh`: the constructors, membership by parity of masked bits, and the
tests that decide without looking at single addresses whether two ranges meet and whether one lies
in the other.
-/

namespace Resister.Base

open List BitVec

structure AddrRange where
  start : Addr
  end_ : Addr
  masks : List Addr
  intlvMatch : BitVec 8
  deriving DecidableEq, Repr

/-- `first && second`, where the second operand is evaluated only if the first one is true. -/
def andThen (first second : Except Stop Bool) : Except Stop Bool := do
  if ← first then second else .ok false

@[simp] theorem andThen_true (second : Except Stop Bool) : andThen (.ok true) second = second := rfl

@[simp] theorem andThen_false (second : Except Stop Bool) :
    andThen (.ok false) second = .ok false := rfl

@[simp] theorem andThen_error (stop : Stop) (second : Except Stop Bool) :
    andThen (.error stop) second = .error stop := rfl

namespace AddrRange

def empty : AddrRange := { start := 1, end_ := 0, masks := [], intlvMatch := 0 }

/-- `AddrRange(Addr, Addr)`. -/
def plain (start end_ : Addr) : AddrRange := { start, end_, masks := [], intlvMatch := 0 }

def checkMatch (bits : Nat) (intlvMatch : BitVec 8) : Except Stop Unit :=
  if bits = 0 then .ok ()
  else do
    let limit ← shl 1#64 bits
    if limit ≤ intlvMatch.setWidth 64 then
      .error (.fatal "Match value %d does not fit in %d interleaving bits")
    else .ok ()

def ofMasks (start end_ : Addr) (masks : List Addr) (intlvMatch : BitVec 8) :
    Except Stop AddrRange := do
  checkMatch masks.length intlvMatch
  .ok { start, end_, masks, intlvMatch }

def checkHighBits (intlvHighBit xorHighBit intlvBits : BitVec 8) : Except Stop Unit :=
  if intlvBits = 0 ∨ xorHighBit = 0 then .ok ()
  else if xorHighBit = intlvHighBit then
    .error (.fatal "XOR and interleave high bit must be different")
  else if intlvHighBit < xorHighBit then
    if xorHighBit.toNat - intlvHighBit.toNat < intlvBits.toNat then
      .error (.fatal "XOR and interleave high bit must be at least %d bits apart")
    else .ok ()
  else if intlvHighBit.toNat - xorHighBit.toNat < intlvBits.toNat then
    .error (.fatal "Interleave and XOR high bit must be at least %d bits apart")
  else .ok ()

/-- The mask that is computed in the `i`-th round of the legacy constructor. The positions are
bytes, so one below zero is large. -/
def legacyMask (intlvHighBit xorHighBit : BitVec 8) (i : Nat) : Except Stop Addr := do
  let mask ← shl 1#64 (intlvHighBit - BitVec.ofNat 8 i).toNat
  if xorHighBit = 0 then .ok mask
  else
    let other ← shl 1#64 (xorHighBit - BitVec.ofNat 8 i).toNat
    .ok (mask ||| other)

/-- The masks of the first `n` rounds; each is stored before the ones computed so far. -/
def legacyMasks (intlvHighBit xorHighBit : BitVec 8) : Nat → Except Stop (List Addr)
  | 0 => .ok []
  | n + 1 => do
    let later ← legacyMasks intlvHighBit xorHighBit n
    let mask ← legacyMask intlvHighBit xorHighBit n
    .ok (mask :: later)

def legacy (start end_ : Addr) (intlvHighBit xorHighBit intlvBits intlvMatch : BitVec 8) :
    Except Stop AddrRange := do
  checkMatch intlvBits.toNat intlvMatch
  checkHighBits intlvHighBit xorHighBit intlvBits
  let masks ← legacyMasks intlvHighBit xorHighBit intlvBits.toNat
  .ok { start, end_, masks, intlvMatch }

variable (r : AddrRange) (a : Addr)

def interleaved : Bool := !r.masks.isEmpty

def size : Except Stop Addr := shr (r.end_ - r.start) r.masks.length

def valid : Bool := decide (r.start ≤ r.end_)

/-- The masks of a range in one word. The source declares it `auto combined_mask = 0`, which makes
it an `int`. -/
def combinedMask (masks : List Addr) : BitVec 32 :=
  masks.foldl (fun combined mask => (combined.signExtend 64 ||| mask).setWidth 32) 0

def granularity : Except Stop Addr :=
  if r.interleaved then shl 1#64 (ctz64 ((combinedMask r.masks).signExtend 64)) else r.size

def mergesWith (x r : AddrRange) : Bool :=
  r.start == x.start && r.end_ == x.end_ && r.masks == x.masks

def select (a : Addr) : Nat → BitVec 32 → List Addr → Except Stop (BitVec 32)
  | _, sel, [] => .ok sel
  | i, sel, mask :: rest => do
    let bit ← shl (BitVec.ofNat 32 (popCount (a &&& mask) % 2)) i
    select a (i + 1) (sel ||| bit) rest

def InRange : Prop := r.start ≤ a ∧ a < r.end_

instance : Decidable (r.InRange a) := inferInstanceAs (Decidable (_ ∧ _))

def contains : Except Stop Bool :=
  if r.InRange a then do
    let sel ← select a 0 0 r.masks
    .ok (sel == r.intlvMatch.setWidth 32)
  else .ok false

def intersects (x r : AddrRange) : Except Stop Bool :=
  if r.end_ ≤ x.start ∨ x.end_ ≤ r.start then .ok false
  else if !x.interleaved && !r.interleaved then .ok true
  else do
    let size ← r.size
    if size = 1 then x.contains r.start
    else if x.mergesWith r then .ok (x.intlvMatch == r.intlvMatch)
    else .error (.panic "Cannot test intersection of %s and %s")

def isSubset (s r : AddrRange) : Except Stop Bool :=
  if s.interleaved then .error (.panic "Cannot test subset of interleaved range %s")
  else if r.interleaved then
    andThen (r.contains s.start) <| andThen (r.contains (s.end_ - 1)) do
      let size ← s.size
      let granularity ← r.granularity
      .ok (decide (size ≤ granularity))
  else .ok (decide (r.start ≤ s.start ∧ s.end_ ≤ r.end_))

/-- `operator<`. -/
def lt (x r : AddrRange) : Bool :=
  if x.start ≠ r.start then decide (x.start < r.start)
  else if x.interleaved && r.interleaved then decide (x.intlvMatch < r.intlvMatch)
  else x.interleaved

/-- The rest of the loop of the merging constructor, which expects the match values in order. -/
def checkMerge (first : AddrRange) : BitVec 8 → List AddrRange → Except Stop Unit
  | _, [] => .ok ()
  | expected, r :: rest =>
    if !first.mergesWith r then
      .error (.fatal "Can only merge ranges with the same start, end and interleaving bits, %s %s.")
    else if r.intlvMatch ≠ expected then
      .error (.fatal "Expected interleave match %d but got %d when merging.")
    else checkMerge first (expected + 1) rest

/-- `AddrRange(std::vector<AddrRange>)`. -/
def merge : List AddrRange → Except Stop AddrRange
  | [] => .ok empty
  | [r] => .ok r
  | first :: second :: rest => do
    let all ← shl 1#64 first.masks.length
    if BitVec.ofNat 64 (first :: second :: rest).length = all then do
      checkMerge first 0 (first :: second :: rest)
      .ok { first with masks := [], intlvMatch := 0 }
    else .error (.fatal "Got %d ranges spanning %d interleaving bits.")

instance : Membership Addr AddrRange where
  mem r a := r.contains a = .ok true

def odd (a mask : Addr) : Bool := popCount (a &&& mask) % 2 == 1

def selector (masks : List Addr) (a : Addr) (i : Nat) : Bool := (masks[i]?).elim false (odd a)

def Matches : Prop := ∀ i < 32, selector r.masks a i = r.intlvMatch.getLsbD i

instance : Decidable (r.Matches a) := inferInstanceAs (Decidable (∀ i < 32, _))

variable {r} {a}

theorem mem_def : a ∈ r ↔ r.contains a = .ok true := Iff.rfl

instance (r : AddrRange) (a : Addr) : Decidable (a ∈ r) :=
  inferInstanceAs (Decidable (r.contains a = .ok true))

theorem checkMatch_eq_ok_iff {bits : Nat} {intlvMatch : BitVec 8} :
    checkMatch bits intlvMatch = .ok () ↔
      bits = 0 ∨ (bits < 64 ∧ intlvMatch.toNat < 2 ^ bits) := by
  unfold checkMatch
  by_cases none : bits = 0
  · simp [none]
  · by_cases small : bits < 64
    · have bound : 2 ^ bits < 2 ^ 64 := Nat.pow_lt_pow_right (by decide) small
      have limit : (1#64 <<< bits).toNat = 2 ^ bits := by
        rw [toNat_shiftLeft, Nat.shiftLeft_eq, toNat_ofNat]
        omega
      have byte : (intlvMatch.setWidth 64).toNat = intlvMatch.toNat :=
        toNat_setWidth_of_le (by decide)
      rw [if_neg none, shl_of_lt small]
      show ite _ _ _ = _ ↔ _
      simp only [le_def, limit, byte]
      by_cases fits : 2 ^ bits ≤ intlvMatch.toNat
      · simp [fits, none]
      · simp [fits, small, Nat.lt_of_not_le fits]
    · rw [if_neg none, shl_of_le (by omega)]
      simp [none, small, bind, Except.bind]

theorem getLsbD_select_bit (mask : Addr) {i k : Nat} (small : k < 32) :
    (BitVec.ofNat 32 (popCount (a &&& mask) % 2) <<< i).getLsbD k =
      (decide (k = i) && odd a mask) := by
  rw [getLsbD_shiftLeft]
  unfold odd
  rcases Nat.mod_two_eq_zero_or_one (popCount (a &&& mask)) with even | odd
  · simp [even]
  · rw [odd]
    rcases Nat.lt_trichotomy k i with below | same | above
    · have other : k ≠ i := by omega
      simp [below, other]
    · simp [same, show i < 32 by omega]
    · have other : k ≠ i := by omega
      have apart : k - i ≠ 0 := by omega
      simp [other, apart, getLsbD_one]

theorem select_eq (masks : List Addr) (i : Nat) (sel : BitVec 32) (few : i + masks.length ≤ 32) :
    ∃ word, select a i sel masks = .ok word ∧ ∀ k < 32, word.getLsbD k =
      (sel.getLsbD k || (decide (i ≤ k) && selector masks a (k - i))) := by
  induction masks generalizing i sel with
  | nil => exact ⟨sel, rfl, by simp [selector]⟩
  | cons mask rest ih =>
    rw [length_cons] at few
    obtain ⟨word, computed, bits⟩ :=
      ih (i + 1) (sel ||| BitVec.ofNat 32 (popCount (a &&& mask) % 2) <<< i) (by omega)
    refine ⟨word, ?_, ?_⟩
    · rw [select, shl_of_lt (by omega)]
      exact computed
    · intro k small
      rw [bits k small, getLsbD_or, getLsbD_select_bit mask small, Bool.or_assoc]
      congr 1
      rcases Nat.lt_trichotomy k i with below | same | above
      · have other : k ≠ i := by omega
        simp [other, show ¬ i + 1 ≤ k by omega, show ¬ i ≤ k by omega]
      · simp [same, selector]
      · have other : k ≠ i := by omega
        obtain ⟨d, rfl⟩ : ∃ d, k = i + 1 + d := ⟨k - (i + 1), by omega⟩
        have offset : i + 1 + d - i = d + 1 := by omega
        have before : i ≤ i + 1 + d := by omega
        simp [selector, offset, before, other]

theorem select_undefined (masks : List Addr) (i : Nat) (sel : BitVec 32) (start : i ≤ 32)
    (many : 32 < i + masks.length) : select a i sel masks = .error .undefinedShift := by
  induction masks generalizing i sel with
  | nil => simp at many; omega
  | cons mask rest ih =>
    rw [length_cons] at many
    rw [select]
    by_cases last : i = 32
    · rw [shl_of_le (by omega)]
      rfl
    · rw [shl_of_lt (by omega)]
      exact ih _ _ (by omega) (by omega)

theorem contains_of_not_inRange (outside : ¬ r.InRange a) : r.contains a = .ok false := if_neg outside

theorem contains_of_inRange (inside : r.InRange a) (few : r.masks.length ≤ 32) :
    r.contains a = .ok (decide (r.Matches a)) := by
  obtain ⟨word, computed, bits⟩ := select_eq (a := a) r.masks 0 0 (by omega)
  rw [contains, if_pos inside, computed]
  show Except.ok _ = _
  congr 1
  rw [Bool.eq_iff_iff, beq_iff_eq, decide_eq_true_iff]
  constructor
  · intro same i small
    have bit := bits i small
    rw [same, getLsbD_setWidth] at bit
    simpa [small] using bit.symm
  · intro matching
    apply eq_of_getLsbD_eq
    intro i small
    rw [bits i small, getLsbD_setWidth]
    simpa [small] using matching i small

theorem contains_undefined (inside : r.InRange a) (many : 32 < r.masks.length) :
    r.contains a = .error .undefinedShift := by
  rw [contains, if_pos inside, select_undefined _ _ _ (by omega) (by omega)]
  rfl

theorem mem_iff : a ∈ r ↔ r.InRange a ∧ r.masks.length ≤ 32 ∧ r.Matches a := by
  rw [mem_def]
  by_cases inside : r.InRange a
  · by_cases few : r.masks.length ≤ 32
    · simp [contains_of_inRange inside few, inside, few]
    · simp [contains_undefined inside (by omega), few]
  · simp [contains_of_not_inRange inside, inside]

theorem mem_plain {start end_ : Addr} : a ∈ plain start end_ ↔ start ≤ a ∧ a < end_ := by
  simp [mem_iff, plain, InRange, Matches, selector]

/-! ## Stripes

The ranges that share their interval and their masks and differ in the match value. -/

section Stripes

variable (start end_ : Addr) (masks : List Addr)

def stripe (i : Nat) : AddrRange := { start, end_, masks, intlvMatch := BitVec.ofNat 8 i }

variable {start end_ masks}

theorem ofMasks_stripe {i : Nat} (few : masks.length ≤ 8) (fits : i < 2 ^ masks.length) :
    ofMasks start end_ masks (BitVec.ofNat 8 i) = .ok (stripe start end_ masks i) := by
  have bytes : 2 ^ masks.length ≤ 2 ^ 8 := Nat.pow_le_pow_right (by decide) few
  have accepted : checkMatch masks.length (BitVec.ofNat 8 i) = .ok () := by
    apply checkMatch_eq_ok_iff.mpr
    rw [toNat_ofNat]
    omega
  rw [ofMasks, accepted]
  rfl

theorem exists_stripe (few : masks.length ≤ 8) (inside : start ≤ a ∧ a < end_) :
    ∃ i < 2 ^ masks.length, a ∈ stripe start end_ masks i := by
  obtain ⟨word, -, bits⟩ := select_eq (a := a) masks 0 0 (by omega)
  have selected : ∀ k < 32, word.getLsbD k = selector masks a k := by
    intro k small
    simpa using bits k small
  have fits : word.toNat < 2 ^ masks.length := by
    apply Nat.lt_pow_two_of_testBit
    intro k high
    by_cases small : k < 32
    · have bit := selected k small
      rw [selector, List.getElem?_eq_none high] at bit
      exact bit
    · exact getLsbD_of_ge word k (by omega)
  refine ⟨word.toNat, fits, ?_⟩
  rw [mem_iff]
  refine ⟨inside, by simp only [stripe]; omega, ?_⟩
  intro k small
  rw [stripe, getLsbD_ofNat, ← selected k small]
  by_cases low : k < 8
  · simp [low, BitVec.getLsbD]
  · simp only [low, decide_false, Bool.false_and]
    rw [selected k small, selector, List.getElem?_eq_none (by omega)]
    rfl

theorem stripe_unique {i j : Nat} (few : masks.length ≤ 8) (left : i < 2 ^ masks.length)
    (right : j < 2 ^ masks.length) (first : a ∈ stripe start end_ masks i)
    (second : a ∈ stripe start end_ masks j) : i = j := by
  have bytes : 2 ^ masks.length ≤ 2 ^ 8 := Nat.pow_le_pow_right (by decide) few
  have same : BitVec.ofNat 8 i = BitVec.ofNat 8 j := by
    apply eq_of_getLsbD_eq
    intro k small
    have bit := (mem_iff.mp first).2.2 k (by omega)
    exact bit.symm.trans ((mem_iff.mp second).2.2 k (by omega))
  have numbers := congrArg BitVec.toNat same
  simp only [toNat_ofNat] at numbers
  omega

theorem checkMerge_stripes (first i count : Nat) :
    checkMerge (stripe start end_ masks first) (BitVec.ofNat 8 i)
      ((List.range' i count).map (stripe start end_ masks)) = .ok () := by
  induction count generalizing i with
  | zero => rfl
  | succ count ih =>
    have next : BitVec.ofNat 8 i + 1 = BitVec.ofNat 8 (i + 1) := by
      rw [ofNat_add]
      rfl
    simp only [range'_succ, map_cons, checkMerge, mergesWith, stripe, beq_self_eq_true,
      Bool.and_self, Bool.not_true, Bool.false_eq_true, ↓reduceIte, ne_eq, not_true_eq_false, next]
    exact ih (i + 1)

theorem merge_stripes (interleaved : masks ≠ []) (few : masks.length ≤ 8) :
    merge ((List.range (2 ^ masks.length)).map (stripe start end_ masks)) =
      .ok (plain start end_) := by
  have two : 2 ≤ 2 ^ masks.length :=
    Nat.le_self_pow (length_pos_iff.mpr interleaved).ne' 2
  have bytes : 2 ^ masks.length ≤ 2 ^ 8 := Nat.pow_le_pow_right (by decide) few
  obtain ⟨rest, count⟩ : ∃ rest, 2 ^ masks.length = rest + 2 := ⟨2 ^ masks.length - 2, by omega⟩
  have checked : checkMerge (stripe start end_ masks 0) (BitVec.ofNat 8 0)
      ((List.range' 0 (rest + 2)).map (stripe start end_ masks)) = .ok () :=
    checkMerge_stripes 0 0 (rest + 2)
  have all : BitVec.ofNat 64 (rest + 2) = 1#64 <<< masks.length := by
    apply eq_of_toNat_eq
    rw [toNat_shiftLeft, Nat.shiftLeft_eq, toNat_ofNat, ← count]
    simp
  rw [range_eq_range', count]
  simp only [range'_succ, map_cons] at checked ⊢
  rw [merge, show (stripe start end_ masks 0).masks.length = masks.length from rfl,
    shl_of_lt (by omega)]
  show ite _ _ _ = _
  rw [if_pos (by simpa using all), show (0 : BitVec 8) = BitVec.ofNat 8 0 from rfl, checked]
  rfl

theorem stripes_partition (start end_ : Addr) (masks : List Addr) (interleaved : masks ≠ [])
    (few : masks.length ≤ 8) :
    ∃ stripes : List AddrRange,
      (List.range (2 ^ masks.length)).map
          (fun i => ofMasks start end_ masks (BitVec.ofNat 8 i)) = stripes.map .ok ∧
        stripes.Pairwise (fun x y => ∀ a, a ∈ x → a ∉ y) ∧
        (∀ a, (∃ x ∈ stripes, a ∈ x) ↔ start ≤ a ∧ a < end_) ∧
        ∃ merged, merge stripes = .ok merged ∧ ∀ a, a ∈ merged ↔ ∃ x ∈ stripes, a ∈ x := by
  have covered : ∀ a, (∃ x ∈ (List.range (2 ^ masks.length)).map (stripe start end_ masks), a ∈ x) ↔
      start ≤ a ∧ a < end_ := by
    intro a
    constructor
    · rintro ⟨x, listed, member⟩
      obtain ⟨i, -, rfl⟩ := mem_map.mp listed
      exact (mem_iff.mp member).1
    · intro inside
      obtain ⟨i, fits, member⟩ := exists_stripe few inside
      exact ⟨_, mem_map.mpr ⟨i, mem_range.mpr fits, rfl⟩, member⟩
  refine ⟨(List.range (2 ^ masks.length)).map (stripe start end_ masks), ?_, ?_, covered,
    plain start end_, merge_stripes interleaved few, ?_⟩
  · rw [map_map]
    apply map_congr_left
    intro i listed
    exact ofMasks_stripe few (mem_range.mp listed)
  · rw [pairwise_map]
    apply List.Pairwise.imp_of_mem _ pairwise_lt_range
    intro i j left right lt a first second
    have same := stripe_unique few (mem_range.mp left) (mem_range.mp right) first second
    omega
  · intro a
    rw [mem_plain, covered]

/-- The four stripes of two masks of which the second repeats the first; two of them are empty. -/
theorem stripes_partition_dependent :
    ∃ stripes : List AddrRange,
      (List.range 4).map (fun i => ofMasks 16 32 [4, 4] (BitVec.ofNat 8 i)) = stripes.map .ok ∧
        stripes.Pairwise (fun x y => ∀ a, a ∈ x → a ∉ y) ∧
        (∀ a, (∃ x ∈ stripes, a ∈ x) ↔ 16 ≤ a ∧ a < 32) ∧
        ∃ merged, merge stripes = .ok merged ∧ ∀ a, a ∈ merged ↔ ∃ x ∈ stripes, a ∈ x :=
  stripes_partition 16 32 [4, 4] (by decide) (by decide)

end Stripes

end AddrRange

end Resister.Base
