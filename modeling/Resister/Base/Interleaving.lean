import Mathlib
import Resister.Base.RangeTests

/-!
# Removing and adding interleaving bits

`removeIntlvBits`, `addIntlvBits` and `getOffset`, and the bit layouts that the legacy constructor
builds: one group of neighbouring bits that is removed and, with XOR bits, a second group above it
that stays.
-/

namespace Resister.Base

open List BitVec

namespace AddrRange

def masksLsb (masks : List Addr) : List Nat := (masks.map ctz64).mergeSort

/-- The `i`-th round of `removeIntlvBits`. The subtraction is one of `unsigned` numbers. -/
def removeBit (i : Nat) (a : Addr) (intlvBit : Nat) : Except Stop Addr :=
  if 0 < intlvBit then
    insertBits (a >>> 1) (BitVec.ofNat 32 intlvBit - BitVec.ofNat 32 i - 1) 0 a
  else .ok (a >>> 1)

def removeLoop : Nat → Addr → List Nat → Except Stop Addr
  | _, a, [] => .ok a
  | i, a, intlvBit :: rest => do
    let next ← removeBit i a intlvBit
    removeLoop (i + 1) next rest

def removeIntlvBits (r : AddrRange) (a : Addr) : Except Stop Addr :=
  if r.interleaved then removeLoop 0 a (masksLsb r.masks) else .ok a

def addBit (a : Addr) (intlvBit : Nat) : Except Stop Addr :=
  if 0 < intlvBit then insertBits (a <<< 1) (BitVec.ofNat 32 intlvBit - 1) 0 a
  else .ok (a <<< 1)

def addLoop : Addr → List Nat → Except Stop Addr
  | a, [] => .ok a
  | a, intlvBit :: rest => do
    let next ← addBit a intlvBit
    addLoop next rest

/-- The second loop of `addIntlvBits`, which sets the lowest bit of each mask. In `~(1 << lsb)` the
shifted number is an `int`, and the complement is widened with its sign. -/
def selectorLoop (intlvMatch : BitVec 8) : Nat → Addr → List Addr → Except Stop Addr
  | _, a, [] => .ok a
  | i, a, mask :: rest => do
    let lsb := ctz64 mask
    let intlvBit ← bitOfByte intlvMatch i
    let bit ← shl 1#32 lsb
    let masked := a &&& mask &&& (~~~bit).signExtend 64
    let next ← insertBit a (BitVec.ofNat 32 lsb)
      (intlvBit.setWidth 64 ^^^ BitVec.ofNat 64 (popCount masked))
    selectorLoop intlvMatch (i + 1) next rest

def addIntlvBits (r : AddrRange) (a : Addr) : Except Stop Addr :=
  if r.interleaved then do
    let spread ← addLoop a (masksLsb r.masks)
    selectorLoop r.intlvMatch 0 spread r.masks
  else .ok a

def getOffset (r : AddrRange) (a : Addr) : Except Stop Addr :=
  if ¬ r.InRange a then .ok (BitVec.allOnes 64)
  else if r.interleaved then do
    let here ← r.removeIntlvBits a
    let first ← r.removeIntlvBits r.start
    .ok (here - first)
  else .ok (a - r.start)

/-- The bits of the masks: the `j`-th mask has bit `base + j`, which is its lowest, and, with an
upper group, the bit at the same place of that group. -/
structure Layout (masks : List Addr) (base : Nat) (upper : Option Nat) : Prop where
  bits : ∀ j mask, masks[j]? = some mask → ∀ k, mask.getLsbD k =
    (decide (k = base + j) || upper.any fun u => decide (k = u + j))
  room : base + masks.length ≤ 64
  apart : ∀ u, upper = some u → base + masks.length ≤ u ∧ u + masks.length ≤ 64

def upperBit (upper : Option Nat) (a : Addr) (j : Nat) : Bool := upper.any fun u => a.getLsbD (u + j)

section Layouts

variable {masks : List Addr} {base : Nat} {upper : Option Nat} {a b : Addr}

variable {j : Nat} {mask : Addr}

theorem Layout.ctz64_eq (layout : Layout masks base upper)
    (found : masks[j]? = some mask) : ctz64 mask = base + j := by
  have small : j < masks.length := (List.getElem?_eq_some_iff.mp found).1
  apply Resister.Base.ctz64_eq
  · rw [layout.bits j mask found]
    simp
  · intro k below
    rw [layout.bits j mask found]
    have other : k ≠ base + j := by omega
    cases upper with
    | none => simp [other]
    | some u =>
      have above := (layout.apart u rfl).1
      have differ : k ≠ u + j := by omega
      simp [other, differ]

theorem Layout.map_ctz64 (layout : Layout masks base upper) :
    masks.map ctz64 = List.range' base masks.length := by
  apply ext_getElem?
  intro j
  rw [List.getElem?_map]
  cases found : masks[j]? with
  | none =>
    have long : masks.length ≤ j := List.getElem?_eq_none_iff.mp found
    rw [List.getElem?_eq_none (by simpa using long)]
    rfl
  | some mask =>
    have small : j < masks.length := (List.getElem?_eq_some_iff.mp found).1
    rw [Option.map_some, layout.ctz64_eq found, List.getElem?_range' small, Nat.one_mul]

theorem Layout.masksLsb_eq (layout : Layout masks base upper) :
    masksLsb masks = List.range' base masks.length := by
  rw [masksLsb, layout.map_ctz64]
  apply mergeSort_of_pairwise
  apply List.Pairwise.imp _ pairwise_lt_range'
  intro x y lt
  simpa using Nat.le_of_lt lt

variable {val : Addr} {bit : Nat → Bool}

theorem popCount_eq_card {positions : Finset Nat} (small : ∀ k ∈ positions, k < 64)
    (bits : ∀ k, val.getLsbD k = (decide (k ∈ positions) && bit k)) :
    popCount val = (positions.filter fun k => bit k = true).card := by
  have counted : popCount val = ((Finset.range 64).filter fun k => val.getLsbD k = true).card := by
    rw [← Nat.count_eq_card_filter_range]
    simp only [popCount, Nat.count, Bool.decide_eq_true]
  rw [counted]
  congr 1
  ext k
  simp only [Finset.mem_filter, Finset.mem_range, bits, Bool.and_eq_true, decide_eq_true_eq]
  exact ⟨And.right, fun picked => ⟨small k picked.1, picked⟩⟩

theorem popCount_single {p : Nat} (small : p < 64)
    (bits : ∀ k, val.getLsbD k = (decide (k = p) && bit k)) : popCount val = (bit p).toNat := by
  have singleton : ∀ k, val.getLsbD k = (decide (k ∈ ({p} : Finset Nat)) && bit k) := by
    simpa using bits
  rw [popCount_eq_card (by simpa using small) singleton, Finset.filter_singleton]
  cases bit p <;> simp

theorem popCount_pair {p q : Nat} (apart : p < q) (small : q < 64)
    (bits : ∀ k, val.getLsbD k = ((decide (k = p) || decide (k = q)) && bit k)) :
    popCount val = (bit p).toNat + (bit q).toNat := by
  have pair : ∀ k, val.getLsbD k = (decide (k ∈ ({p, q} : Finset Nat)) && bit k) := by
    simpa using bits
  have inside : ∀ k ∈ ({p, q} : Finset Nat), k < 64 := by
    intro k listed
    simp only [Finset.mem_insert, Finset.mem_singleton] at listed
    omega
  have differ : p ≠ q := by omega
  rw [popCount_eq_card inside pair, Finset.filter_insert, Finset.filter_singleton]
  cases bit p <;> cases bit q <;> simp [differ]

theorem Layout.odd_eq (layout : Layout masks base upper)
    (found : masks[j]? = some mask) : odd a mask = (a.getLsbD (base + j) ^^ upperBit upper a j) := by
  have small : j < masks.length := (List.getElem?_eq_some_iff.mp found).1
  have room := layout.room
  unfold odd upperBit
  cases upper with
  | none =>
    have count : popCount (a &&& mask) = (a.getLsbD (base + j)).toNat := by
      apply popCount_single (by omega)
      intro k
      rw [getLsbD_and, layout.bits j mask found, Bool.and_comm]
      simp
    rw [count]
    cases a.getLsbD (base + j) <;> rfl
  | some u =>
    obtain ⟨apart, top⟩ := layout.apart u rfl
    have count : popCount (a &&& mask) =
        (a.getLsbD (base + j)).toNat + (a.getLsbD (u + j)).toNat := by
      apply popCount_pair (by omega) (by omega)
      intro k
      rw [getLsbD_and, layout.bits j mask found, Bool.and_comm]
      simp
    rw [count, Option.any_some]
    cases a.getLsbD (base + j) <;> cases a.getLsbD (u + j) <;> rfl

theorem Layout.mem_iff {r : AddrRange} (layout : Layout r.masks base upper)
    (fits : r.intlvMatch.toNat < 2 ^ r.masks.length) :
    a ∈ r ↔ r.InRange a ∧ r.masks.length ≤ 32 ∧ ∀ j < r.masks.length,
      a.getLsbD (base + j) = (r.intlvMatch.getLsbD j ^^ upperBit upper a j) := by
  rw [AddrRange.mem_iff]
  refine and_congr_right fun _ => and_congr_right fun few => ?_
  have selected : ∀ j < r.masks.length,
      selector r.masks a j = (a.getLsbD (base + j) ^^ upperBit upper a j) := by
    intro j small
    have found : r.masks[j]? = some r.masks[j] := List.getElem?_eq_getElem small
    rw [selector, found, Option.elim_some, layout.odd_eq found]
  constructor
  · intro matching j small
    rw [← matching j (by omega), selected j small]
    cases a.getLsbD (base + j) <;> cases upperBit upper a j <;> rfl
  · intro bits i small
    by_cases inside : i < r.masks.length
    · rw [selected i inside, bits i inside]
      cases r.intlvMatch.getLsbD i <;> cases upperBit upper a i <;> rfl
    · have beyond : r.intlvMatch.getLsbD i = false := by
        apply Nat.testBit_lt_two_pow
        exact Nat.lt_of_lt_of_le fits (Nat.pow_le_pow_right (by decide) (by omega))
      rw [selector, List.getElem?_eq_none (by omega), beyond]
      rfl

theorem removeBit_eq (base i : Nat) (a : Addr) (room : base + i ≤ 64) :
    ∃ next, removeBit i a (base + i) = .ok next ∧ ∀ k,
      next.getLsbD k = if k < base then a.getLsbD k else a.getLsbD (k + 1) := by
  unfold removeBit
  by_cases positive : 0 < base + i
  · have position : BitVec.ofNat 32 (base + i) - BitVec.ofNat 32 i = BitVec.ofNat 32 base := by
      rw [ofNat_add]
      exact add_sub_cancel _ _
    rw [if_pos positive, position]
    obtain ⟨word, inserted, low⟩ : ∃ word,
        insertBits (a >>> 1) (BitVec.ofNat 32 base - 1) 0 a = .ok word ∧
          ∀ k < 64, word.getLsbD k = if k < base then a.getLsbD k else (a >>> 1).getLsbD k :=
      insertBits_below (by omega)
    refine ⟨word, inserted, ?_⟩
    intro k
    by_cases inside : k < 64
    · rw [low k inside, getLsbD_ushiftRight, Nat.add_comm 1 k]
    · rw [getLsbD_of_ge _ _ (by omega), if_neg (by omega),
        getLsbD_of_ge _ _ (by omega)]
  · rw [if_neg positive]
    refine ⟨a >>> 1, rfl, ?_⟩
    intro k
    rw [getLsbD_ushiftRight, if_neg (by omega), Nat.add_comm 1 k]

theorem removeLoop_eq (base i n : Nat) (a : Addr) (room : base + i + n ≤ 64) :
    ∃ word, removeLoop i a (List.range' (base + i) n) = .ok word ∧ ∀ k,
      word.getLsbD k = if k < base then a.getLsbD k else a.getLsbD (k + n) := by
  induction n generalizing i a with
  | zero => exact ⟨a, rfl, by simp⟩
  | succ n ih =>
    obtain ⟨next, dropped, bits⟩ := removeBit_eq base i a (by omega)
    obtain ⟨word, removed, final⟩ := ih (i + 1) next (by omega)
    refine ⟨word, ?_, ?_⟩
    · rw [range'_succ, removeLoop, dropped]
      exact removed
    · intro k
      rw [final k, bits, bits]
      by_cases low : k < base
      · simp [low]
      · have high : ¬ k + n < base := by omega
        simp only [low, high, if_false]
        rfl

theorem addBit_eq (base : Nat) (a : Addr) (room : base ≤ 64) :
    ∃ next, addBit a base = .ok next ∧
      ∀ k < 64, next.getLsbD k = if k < base then a.getLsbD k else (a <<< 1).getLsbD k := by
  unfold addBit
  by_cases positive : 0 < base
  · rw [if_pos positive]
    exact insertBits_below (by omega)
  · rw [if_neg positive]
    refine ⟨a <<< 1, rfl, ?_⟩
    intro k _
    rw [if_neg (by omega)]

theorem addLoop_eq (base n : Nat) (a : Addr) (room : base + n ≤ 64) :
    ∃ word, addLoop a (List.range' base n) = .ok word ∧
      (∀ k < base, word.getLsbD k = a.getLsbD k) ∧
      ∀ k < 64, base + n ≤ k → word.getLsbD k = a.getLsbD (k - n) := by
  induction n generalizing base a with
  | zero => exact ⟨a, rfl, by simp, by simp⟩
  | succ n ih =>
    obtain ⟨next, spread, bits⟩ := addBit_eq base a (by omega)
    obtain ⟨word, added, low, high⟩ := ih (base + 1) next (by omega)
    refine ⟨word, ?_, ?_, ?_⟩
    · rw [range'_succ, addLoop, spread]
      exact added
    · intro k below
      rw [low k (by omega), bits k (by omega), if_pos below]
    · intro k inside above
      rw [high k inside (by omega), bits _ (by omega), if_neg (by omega),
        getLsbD_shiftLeft]
      have shifted : k - n < 64 := by omega
      have moved : ¬ k - n < 1 := by omega
      rw [show k - (n + 1) = k - n - 1 by omega]
      simp [shifted, moved]

theorem getLsbD_complement {lsb k : Nat} (small : lsb < 32) :
    ((~~~(1#32 <<< lsb)).signExtend 64).getLsbD k =
      (decide (k < 64) && decide (k ≠ lsb) && decide (k < 32 ∨ lsb ≠ 31)) := by
  rw [getLsbD_signExtend]
  by_cases low : k < 32
  · rw [if_pos low, getLsbD_not, getLsbD_shiftLeft]
    rcases Nat.lt_trichotomy k lsb with below | same | above
    · have other : k ≠ lsb := by omega
      simp [low, below, other]
    · simp [same, small]
    · have other : k ≠ lsb := by omega
      have apart : k - lsb ≠ 0 := by omega
      simp [low, other, apart, getLsbD_one]
  · rw [if_neg low, msb_eq_getLsbD_last, getLsbD_not, getLsbD_shiftLeft]
    have other : k ≠ lsb := by omega
    by_cases last : lsb = 31
    · simp [last, low]
    · have apart : 31 - lsb ≠ 0 := by omega
      have before : lsb < 31 := by omega
      simp [other, last, apart, getLsbD_one]

theorem Layout.popCount_masked (layout : Layout masks base upper)
    (found : masks[j]? = some mask) (small : base + j < 32) :
    popCount (a &&& mask &&& (~~~(1#32 <<< (base + j))).signExtend 64) =
      (upperBit upper a j && decide (base + j ≠ 31)).toNat := by
  have inside : j < masks.length := (List.getElem?_eq_some_iff.mp found).1
  cases upper with
  | none =>
    have empty : ∀ k, (a &&& mask &&& (~~~(1#32 <<< (base + j))).signExtend 64).getLsbD k =
        (decide (k = 0) && false) := by
      intro k
      rw [getLsbD_and, getLsbD_and, layout.bits j mask found,
        getLsbD_complement small]
      by_cases lowest : k = base + j <;> simp [lowest]
    rw [popCount_single (by decide) empty]
    rfl
  | some u =>
    obtain ⟨apart, top⟩ := layout.apart u rfl
    have differ : u ≠ base := by omega
    have single : ∀ k, (a &&& mask &&& (~~~(1#32 <<< (base + j))).signExtend 64).getLsbD k =
        (decide (k = u + j) && (a.getLsbD k && decide (base + j ≠ 31))) := by
      intro k
      rw [getLsbD_and, getLsbD_and, layout.bits j mask found,
        getLsbD_complement small]
      by_cases upper : k = u + j
      · have word : u + j < 64 := by omega
        by_cases last : base + j = 31
        · have beyond : ¬ u + j < 32 := by omega
          simp [upper, last, beyond]
        · simp [upper, word, last, differ]
      · by_cases lowest : k = base + j <;> simp [upper, lowest, differ.symm]
    rw [popCount_single (by omega) single]
    rfl

theorem upperBit_congr (layout : Layout masks base upper) (small : j < masks.length)
    (same : ∀ k < 64, base + masks.length ≤ k → a.getLsbD k = b.getLsbD k) :
    upperBit upper a j = upperBit upper b j := by
  cases upper with
  | none => rfl
  | some u =>
    obtain ⟨apart, top⟩ := layout.apart u rfl
    exact same (u + j) (by omega) (by omega)

theorem selectorLoop_cons {intlvMatch : BitVec 8} {i : Nat} {rest : List Addr}
    (layout : Layout masks base upper) (found : masks[i]? = some mask) (few : i < 32) (small : base + i < 32) :
    ∃ next, selectorLoop intlvMatch i a (mask :: rest) = selectorLoop intlvMatch (i + 1) next rest ∧
      ∀ k < 64, next.getLsbD k =
        if k = base + i then
          (intlvMatch.getLsbD i ^^ (upperBit upper a i && decide (base + i ≠ 31)))
        else a.getLsbD k := by
  obtain ⟨bit, read, value⟩ := bitOfByte_of_lt intlvMatch few
  obtain ⟨next, inserted, bits⟩ : ∃ next,
      insertBit a (BitVec.ofNat 32 (base + i)) (bit.setWidth 64 ^^^ BitVec.ofNat 64
        (popCount (a &&& mask &&& (~~~(1#32 <<< (base + i))).signExtend 64))) = .ok next ∧
        ∀ k < 64, next.getLsbD k = if k = base + i then
          (bit.setWidth 64 ^^^ BitVec.ofNat 64
            (popCount (a &&& mask &&& (~~~(1#32 <<< (base + i))).signExtend 64))).getLsbD 0
          else a.getLsbD k :=
    insertBit_at (by omega)
  refine ⟨next, ?_, ?_⟩
  · rw [selectorLoop, layout.ctz64_eq found, read, shl_of_lt small]
    show insertBit _ _ _ >>= _ = _
    rw [inserted]
    rfl
  · intro k inside
    rw [bits k inside, layout.popCount_masked found small, getLsbD_xor,
      getLsbD_setWidth, value]
    cases upperBit upper a i && decide (base + i ≠ 31) <;> simp

theorem selectorLoop_eq (intlvMatch : BitVec 8) (layout : Layout masks base upper)
    (low : base + masks.length ≤ 32) (i : Nat) (a : Addr) (rest : List Addr) (left : masks.drop i = rest) :
    ∃ word, selectorLoop intlvMatch i a rest = .ok word ∧ ∀ k < 64, word.getLsbD k =
      if base + i ≤ k ∧ k < base + masks.length then
        (intlvMatch.getLsbD (k - base) ^^ (upperBit upper a (k - base) && decide (k ≠ 31)))
      else a.getLsbD k := by
  induction rest generalizing i a with
  | nil =>
    have done : masks.length ≤ i := drop_eq_nil_iff.mp left
    refine ⟨a, rfl, ?_⟩
    intro k _
    rw [if_neg (by omega)]
  | cons mask rest ih =>
    have found : masks[i]? = some mask := by
      rw [← List.head?_drop, left]
      rfl
    have small : i < masks.length := (List.getElem?_eq_some_iff.mp found).1
    have left' : masks.drop (i + 1) = rest := by
      rw [← tail_drop, left]
      rfl
    obtain ⟨next, round, bits⟩ := selectorLoop_cons (a := a) layout found (by omega) (by omega)
    obtain ⟨word, finished, final⟩ := ih (i + 1) next left'
    refine ⟨word, by rw [round, finished], ?_⟩
    intro k inside
    have unchanged : ∀ k < 64, base + masks.length ≤ k → next.getLsbD k = a.getLsbD k := by
      intro k inside above
      rw [bits k inside, if_neg (by omega)]
    rw [final k inside]
    by_cases here : k = base + i
    · subst here
      rw [if_neg (by omega), bits _ inside, if_pos rfl, if_pos (by omega),
        Nat.add_sub_cancel_left]
    · by_cases later : base + (i + 1) ≤ k ∧ k < base + masks.length
      · rw [if_pos later, if_pos (by omega), upperBit_congr layout (by omega) unchanged]
      · rw [if_neg later, if_neg (by omega), bits k inside, if_neg here]

theorem selectorLoop_undefined {intlvMatch : BitVec 8} (layout : Layout masks base upper)
    (few : masks.length ≤ 32) (high : 32 < base + masks.length) (i : Nat) (a : Addr)
    (rest : List Addr) (left : masks.drop i = rest) (more : i < masks.length) :
    selectorLoop intlvMatch i a rest = .error .undefinedShift := by
  induction rest generalizing i a with
  | nil =>
    have done : masks.length ≤ i := drop_eq_nil_iff.mp left
    omega
  | cons mask rest ih =>
    have found : masks[i]? = some mask := by
      rw [← List.head?_drop, left]
      rfl
    have left' : masks.drop (i + 1) = rest := by
      rw [← tail_drop, left]
      rfl
    by_cases small : base + i < 32
    · obtain ⟨next, round, -⟩ := selectorLoop_cons (a := a) layout found (by omega) small
      rw [round]
      exact ih (i + 1) next left' (by omega)
    · obtain ⟨bit, read, -⟩ := bitOfByte_of_lt intlvMatch (show i < 32 by omega)
      rw [selectorLoop, layout.ctz64_eq found, read, shl_of_le (by omega)]
      rfl

end Layouts

section Ranges

variable {r : AddrRange} {base : Nat} {upper : Option Nat} {a b : Addr}

theorem Layout.removeIntlvBits_eq (layout : Layout r.masks base upper) (some : r.masks ≠ []) (a : Addr) :
    ∃ word, r.removeIntlvBits a = .ok word ∧ ∀ k,
      word.getLsbD k = if k < base then a.getLsbD k else a.getLsbD (k + r.masks.length) := by
  rw [removeIntlvBits, if_pos (interleaved_iff.mpr some), layout.masksLsb_eq]
  exact removeLoop_eq base 0 r.masks.length a layout.room

theorem Layout.roundTrip_eq (layout : Layout r.masks base upper) (some : r.masks ≠ [])
    (low : base + r.masks.length ≤ 32) (a : Addr) :
    ∃ word, (r.removeIntlvBits a >>= r.addIntlvBits) = .ok word ∧ ∀ k < 64, word.getLsbD k =
      if base ≤ k ∧ k < base + r.masks.length then
        (r.intlvMatch.getLsbD (k - base) ^^ (upperBit upper a (k - base) && decide (k ≠ 31)))
      else a.getLsbD k := by
  obtain ⟨removed, remove, short⟩ := layout.removeIntlvBits_eq some a
  obtain ⟨spread, add, below, above⟩ := addLoop_eq base r.masks.length removed layout.room
  obtain ⟨word, select, bits⟩ :=
    selectorLoop_eq r.intlvMatch layout low 0 spread r.masks rfl
  have outside : ∀ k < 64, base + r.masks.length ≤ k → spread.getLsbD k = a.getLsbD k := by
    intro k inside high
    rw [above k inside high, short, if_neg (by omega), Nat.sub_add_cancel (by omega)]
  refine ⟨word, ?_, ?_⟩
  · rw [remove]
    show r.addIntlvBits removed = _
    rw [addIntlvBits, if_pos (interleaved_iff.mpr some), layout.masksLsb_eq, add]
    exact select
  · intro k inside
    rw [bits k inside, Nat.add_zero]
    by_cases group : base ≤ k ∧ k < base + r.masks.length
    · rw [if_pos group, if_pos group, upperBit_congr layout (by omega) outside]
    · rw [if_neg group, if_neg group]
      by_cases lower : k < base
      · rw [below k lower, short, if_pos lower]
      · exact outside k inside (by omega)

theorem Layout.roundTrip_undefined (layout : Layout r.masks base upper) (some : r.masks ≠ [])
    (few : r.masks.length ≤ 32) (high : 32 < base + r.masks.length) (a : Addr) :
    (r.removeIntlvBits a >>= r.addIntlvBits) = .error .undefinedShift := by
  obtain ⟨removed, remove, -⟩ := layout.removeIntlvBits_eq some a
  obtain ⟨spread, add, -⟩ := addLoop_eq base r.masks.length removed layout.room
  rw [remove]
  show r.addIntlvBits removed = _
  rw [addIntlvBits, if_pos (interleaved_iff.mpr some), layout.masksLsb_eq, add]
  exact selectorLoop_undefined layout few high 0 spread r.masks rfl
    (length_pos_iff.mpr some)

/-- What the `int` in `addIntlvBits` allows: the lowest bit of every mask is below 32, and where it
is bit 31, the address has none of the higher bits of that mask. -/
def FitsInt (r : AddrRange) (a : Addr) : Prop :=
  ∀ mask ∈ r.masks, ctz64 mask < 32 ∧ (ctz64 mask = 31 → (a &&& mask) >>> 32 = 0)

instance (r : AddrRange) (a : Addr) : Decidable (r.FitsInt a) := List.decidableBAll _ _

theorem Layout.fitsInt_iff (layout : Layout r.masks base upper) (some : r.masks ≠ []) :
    r.FitsInt a ↔ base + r.masks.length ≤ 32 ∧
      ∀ j < r.masks.length, base + j = 31 → upperBit upper a j = false := by
  have positive : 0 < r.masks.length := length_pos_iff.mpr some
  have higher : ∀ j mask, r.masks[j]? = .some mask → base + j = 31 →
      ((a &&& mask) >>> 32 = 0 ↔ upperBit upper a j = false) := by
    intro j mask found last
    have inside : j < r.masks.length := (List.getElem?_eq_some_iff.mp found).1
    constructor
    · intro clear
      cases upper with
      | none => rfl
      | some u =>
        obtain ⟨apart, top⟩ := layout.apart u rfl
        have bit := congrArg (·.getLsbD (u + j - 32)) clear
        simp only [getLsbD_ushiftRight, getLsbD_and, layout.bits j mask found] at bit
        rw [show 32 + (u + j - 32) = u + j by omega] at bit
        simpa [upperBit] using bit
    · intro clear
      apply eq_of_getLsbD_eq
      intro k _
      rw [getLsbD_ushiftRight, getLsbD_and, layout.bits j mask found]
      have other : 32 + k ≠ base + j := by omega
      cases upper with
      | none => simp [other]
      | some u =>
        by_cases here : 32 + k = u + j
        · have zero : a.getLsbD (u + j) = false := clear
          simp [here, zero]
        · simp [other, here]
  constructor
  · intro fits
    have last : r.masks[r.masks.length - 1]? = .some r.masks[r.masks.length - 1] :=
      List.getElem?_eq_getElem (by omega)
    refine ⟨?_, ?_⟩
    · have bound := (fits _ (mem_of_getElem? last)).1
      rw [layout.ctz64_eq last] at bound
      omega
    · intro j inside top
      have found : r.masks[j]? = .some r.masks[j] := List.getElem?_eq_getElem inside
      have clear := (fits _ (mem_of_getElem? found)).2
      rw [layout.ctz64_eq found] at clear
      exact (higher j _ found top).mp (clear top)
  · rintro ⟨low, clear⟩ mask member
    obtain ⟨j, inside, rfl⟩ := getElem_of_mem member
    have found : r.masks[j]? = .some r.masks[j] := List.getElem?_eq_getElem inside
    rw [layout.ctz64_eq found]
    exact ⟨by omega, fun top => (higher j _ found top).mpr (clear j inside top)⟩

theorem Layout.roundTrip_iff (layout : Layout r.masks base upper) (some : r.masks ≠ [])
    (fits : r.intlvMatch.toNat < 2 ^ r.masks.length) (member : a ∈ r) :
    (r.removeIntlvBits a >>= r.addIntlvBits) = .ok a ↔ r.FitsInt a := by
  obtain ⟨-, few, chosen⟩ := (layout.mem_iff fits).mp member
  have room := layout.room
  rw [layout.fitsInt_iff some]
  by_cases low : base + r.masks.length ≤ 32
  swap
  · rw [layout.roundTrip_undefined some few (by omega)]
    simp [low]
  obtain ⟨word, result, bits⟩ := layout.roundTrip_eq some low a
  rw [result]
  simp only [Except.ok.injEq, low, true_and]
  constructor
  · rintro rfl j inside top
    have bit := bits (base + j) (by omega)
    rw [if_pos (by omega), Nat.add_sub_cancel_left, chosen j inside] at bit
    revert bit
    cases r.intlvMatch.getLsbD j <;> simp [top]
  · intro clear
    apply eq_of_getLsbD_eq
    intro k inside
    rw [bits k inside]
    by_cases group : base ≤ k ∧ k < base + r.masks.length
    · obtain ⟨j, rfl⟩ : ∃ j, k = base + j := ⟨k - base, by omega⟩
      rw [if_pos group, Nat.add_sub_cancel_left, chosen j (by omega)]
      by_cases top : base + j = 31
      · simp [clear j (by omega) top]
      · simp [top]
    · rw [if_neg group]

end Ranges

/-! ## The legacy constructor -/

section Legacy

variable {start end_ : Addr} {intlvHighBit xorHighBit intlvBits intlvMatch : BitVec 8}
  {r : AddrRange} {a : Addr}

theorem getLsbD_one_shl {p k : Nat} (small : p < 64) :
    (1#64 <<< p).getLsbD k = decide (k = p) := by
  rw [← twoPow_eq, getLsbD_twoPow]
  simp [small, eq_comm]

theorem legacyMask_eq {i : Nat} {mask : Addr} (computed : legacyMask intlvHighBit xorHighBit i = .ok mask) :
    (intlvHighBit - BitVec.ofNat 8 i).toNat < 64 ∧
      (xorHighBit ≠ 0 → (xorHighBit - BitVec.ofNat 8 i).toNat < 64) ∧
      ∀ k, mask.getLsbD k = (decide (k = (intlvHighBit - BitVec.ofNat 8 i).toNat) ||
        decide (xorHighBit ≠ 0 ∧ k = (xorHighBit - BitVec.ofNat 8 i).toNat)) := by
  obtain ⟨first, shifted, rest⟩ := bind_eq_ok.mp computed
  obtain ⟨small, rfl⟩ := shl_eq_ok.mp shifted
  by_cases none : xorHighBit = 0
  · rw [if_pos none] at rest
    cases rest
    refine ⟨small, fun some => absurd none some, ?_⟩
    intro k
    rw [getLsbD_one_shl small]
    simp [none]
  · rw [if_neg none] at rest
    obtain ⟨second, other, both⟩ := bind_eq_ok.mp rest
    obtain ⟨small', rfl⟩ := shl_eq_ok.mp other
    cases both
    refine ⟨small, fun _ => small', ?_⟩
    intro k
    rw [getLsbD_or, getLsbD_one_shl small, getLsbD_one_shl small']
    simp only [ne_eq, none, not_false_eq_true, true_and]

variable {n : Nat}

theorem legacyMasks_getElem {masks : List Addr} (computed : legacyMasks intlvHighBit xorHighBit n = .ok masks) :
    masks.length = n ∧ ∀ i < n, ∃ mask, legacyMask intlvHighBit xorHighBit i = .ok mask ∧
      masks[n - 1 - i]? = some mask := by
  induction n generalizing masks with
  | zero =>
    cases computed
    simp
  | succ n ih =>
    obtain ⟨later, earlier, rest⟩ := bind_eq_ok.mp computed
    obtain ⟨mask, first, final⟩ := bind_eq_ok.mp rest
    cases final
    obtain ⟨length, entries⟩ := ih earlier
    refine ⟨by simp [length], ?_⟩
    intro i small
    by_cases last : i = n
    · exact ⟨mask, last ▸ first, by simp [last]⟩
    · obtain ⟨other, given, found⟩ := entries i (by omega)
      refine ⟨other, given, ?_⟩
      rw [show n + 1 - 1 - i = n - 1 - i + 1 by omega, List.getElem?_cons_succ]
      exact found

theorem position_eq {high : BitVec 8} (few : n < 256) (positions : ∀ i < n, (high - BitVec.ofNat 8 i).toNat < 64) :
    n ≤ high.toNat + 1 ∧ ∀ i < n, (high - BitVec.ofNat 8 i).toNat = high.toNat - i := by
  have bound : n ≤ high.toNat + 1 := by
    by_contra long
    have wrapped := positions (high.toNat + 1) (by omega)
    have limit := high.isLt
    rw [toNat_sub, toNat_ofNat] at wrapped
    omega
  refine ⟨bound, ?_⟩
  intro i small
  have limit := high.isLt
  rw [toNat_sub, toNat_ofNat]
  omega

theorem checkHighBits_eq_ok (checked : checkHighBits intlvHighBit xorHighBit intlvBits = .ok ())
    (some : intlvBits ≠ 0) (xor : xorHighBit ≠ 0) :
    intlvHighBit.toNat + intlvBits.toNat ≤ xorHighBit.toNat ∨
      xorHighBit.toNat + intlvBits.toNat ≤ intlvHighBit.toNat := by
  unfold checkHighBits at checked
  rw [if_neg (by tauto)] at checked
  split at checked
  · cases checked
  · split at checked
    next above =>
      split at checked
      · cases checked
      · rw [lt_def] at above
        omega
    next below =>
      split at checked
      · cases checked
      · rw [lt_def] at below
        omega

theorem legacy_eq_ok (built : legacy start end_ intlvHighBit xorHighBit intlvBits intlvMatch = .ok r) :
    ∃ masks, r = { start, end_, masks, intlvMatch } ∧
      checkMatch intlvBits.toNat intlvMatch = .ok () ∧
      checkHighBits intlvHighBit xorHighBit intlvBits = .ok () ∧
      legacyMasks intlvHighBit xorHighBit intlvBits.toNat = .ok masks := by
  obtain ⟨⟨⟩, fits, built⟩ := bind_eq_ok.mp built
  obtain ⟨⟨⟩, high, built⟩ := bind_eq_ok.mp built
  obtain ⟨masks, computed, built⟩ := bind_eq_ok.mp built
  cases built
  exact ⟨masks, rfl, fits, high, computed⟩

theorem legacyMasks_bits {masks : List Addr} (few : n < 256)
    (computed : legacyMasks intlvHighBit xorHighBit n = .ok masks) (positive : 0 < n) :
    n ≤ intlvHighBit.toNat + 1 ∧ intlvHighBit.toNat < 64 ∧
      (xorHighBit ≠ 0 → n ≤ xorHighBit.toNat + 1 ∧ xorHighBit.toNat < 64) ∧
      ∀ j mask, masks[j]? = some mask → ∀ k, mask.getLsbD k =
        (decide (k = intlvHighBit.toNat + 1 - n + j) ||
          decide (xorHighBit ≠ 0 ∧ k = xorHighBit.toNat + 1 - n + j)) := by
  obtain ⟨length, entries⟩ := legacyMasks_getElem computed
  have lower : ∀ i < n, (intlvHighBit - BitVec.ofNat 8 i).toNat < 64 := by
    intro i small
    obtain ⟨mask, given, -⟩ := entries i small
    exact (legacyMask_eq given).1
  have upper : xorHighBit ≠ 0 → ∀ i < n, (xorHighBit - BitVec.ofNat 8 i).toNat < 64 := by
    intro some i small
    obtain ⟨mask, given, -⟩ := entries i small
    exact (legacyMask_eq given).2.1 some
  obtain ⟨bound, positions⟩ := position_eq few lower
  refine ⟨bound, by simpa using lower 0 positive, ?_, ?_⟩
  · intro some
    exact ⟨(position_eq few (upper some)).1, by simpa using upper some 0 positive⟩
  · intro j mask found k
    have small : j < masks.length := (List.getElem?_eq_some_iff.mp found).1
    obtain ⟨other, given, stored⟩ := entries (n - 1 - j) (by omega)
    rw [show n - 1 - (n - 1 - j) = j by omega, found] at stored
    cases stored
    rw [(legacyMask_eq given).2.2 k, positions _ (by omega),
      show intlvHighBit.toNat - (n - 1 - j) = intlvHighBit.toNat + 1 - n + j by omega]
    congr 1
    apply decide_eq_decide.mpr
    apply and_congr_right
    intro some
    obtain ⟨bound', positions'⟩ := position_eq few (upper some)
    rw [positions' _ (by omega),
      show xorHighBit.toNat - (n - 1 - j) = xorHighBit.toNat + 1 - n + j by omega]

theorem legacy_layout (built : legacy start end_ intlvHighBit xorHighBit intlvBits intlvMatch = .ok r)
    (some : intlvBits ≠ 0) : ∃ base upper, Layout r.masks base upper := by
  obtain ⟨masks, rfl, -, high, computed⟩ := legacy_eq_ok built
  have length := (legacyMasks_getElem computed).1
  have positive : 0 < intlvBits.toNat := by
    have differ : intlvBits.toNat ≠ 0 :=
      fun zero => some (eq_of_toNat_eq (by simpa using zero))
    omega
  obtain ⟨bound, top, xor, bits⟩ := legacyMasks_bits intlvBits.isLt computed positive
  by_cases none : xorHighBit = 0
  · refine ⟨intlvHighBit.toNat + 1 - intlvBits.toNat, .none, ?_, by simp only; omega, by simp⟩
    intro j mask found k
    rw [bits j mask found k]
    simp [none]
  · obtain ⟨bound', top'⟩ := xor none
    rcases checkHighBits_eq_ok high some none with above | below
    · refine ⟨intlvHighBit.toNat + 1 - intlvBits.toNat,
        .some (xorHighBit.toNat + 1 - intlvBits.toNat), ?_, by simp only; omega, ?_⟩
      · intro j mask found k
        rw [bits j mask found k]
        simp only [ne_eq, none, not_false_eq_true, true_and, Option.any_some]
      · rintro u ⟨⟩
        simp only
        omega
    · refine ⟨xorHighBit.toNat + 1 - intlvBits.toNat,
        .some (intlvHighBit.toNat + 1 - intlvBits.toNat), ?_, by simp only; omega, ?_⟩
      · intro j mask found k
        rw [bits j mask found k, Bool.or_comm]
        simp only [ne_eq, none, not_false_eq_true, true_and, Option.any_some]
      · rintro u ⟨⟩
        simp only
        omega

theorem legacy_fits (built : legacy start end_ intlvHighBit xorHighBit intlvBits intlvMatch = .ok r) :
    r.masks.length = intlvBits.toNat ∧ r.masks.length < 64 ∧
      (intlvBits ≠ 0 → r.intlvMatch.toNat < 2 ^ r.masks.length) := by
  obtain ⟨masks, rfl, fits, -, computed⟩ := legacy_eq_ok built
  have length := (legacyMasks_getElem computed).1
  simp only [length]
  rcases checkMatch_eq_ok_iff.mp fits with zero | ⟨small, bound⟩
  · exact ⟨trivial, by omega, fun some =>
      absurd (eq_of_toNat_eq (by simpa using zero)) some⟩
  · exact ⟨trivial, small, fun _ => bound⟩

theorem roundTrip_exact_iff (start end_ : Addr)
    (intlvHighBit xorHighBit intlvBits intlvMatch : BitVec 8) (r : AddrRange) (a : Addr)
    (built : legacy start end_ intlvHighBit xorHighBit intlvBits intlvMatch = .ok r)
    (interleaved : r.interleaved = true) (member : a ∈ r) :
    (r.removeIntlvBits a >>= r.addIntlvBits) = .ok a ↔ r.FitsInt a := by
  have masks := interleaved_iff.mp interleaved
  obtain ⟨length, -, fits⟩ := legacy_fits built
  have some : intlvBits ≠ 0 := by
    rintro rfl
    exact masks (eq_nil_of_length_eq_zero (by simpa using length))
  obtain ⟨base, upper, layout⟩ := legacy_layout built some
  exact layout.roundTrip_iff masks (fits some) member

def bit31 : AddrRange :=
  { start := 0, end_ := 0x1000000000, masks := [0x880000000], intlvMatch := 0 }

/-- The address with both bits set is in the range and comes back without bit 31. -/
theorem roundTrip_bit31 :
    legacy 0 0x1000000000 31 35 1 0 = .ok bit31 ∧ bit31.interleaved = true ∧
      0x880000000 ∈ bit31 ∧
      (bit31.removeIntlvBits 0x880000000 >>= bit31.addIntlvBits) = .ok 0x800000000 := by
  decide +kernel

def lowBits : AddrRange :=
  { start := 0, end_ := 0x10000, masks := [0x880, 0x1100], intlvMatch := 1 }

theorem roundTrip_exact_low :
    lowBits.FitsInt 0x1180 ∧
      ((lowBits.removeIntlvBits 0x1180 >>= lowBits.addIntlvBits) = .ok 0x1180 ↔
        lowBits.FitsInt 0x1180) :=
  ⟨by decide +kernel, roundTrip_exact_iff 0 0x10000 8 12 2 1 lowBits 0x1180 (by decide +kernel)
    (by decide +kernel) (by decide +kernel)⟩

end Legacy

end AddrRange

end Resister.Base
