import Mathlib
import Resister.Base.Interleaving

/-!
# Numbering the addresses of a range

`getOffset` counts the addresses of an interleaved range. It does so without gaps where the range is
aligned to its removed bits.
-/

namespace Resister.Base

open BitVec Nat

namespace AddrRange

variable {r : AddrRange} {a : Addr}

def Offsets (r : AddrRange) : Set (Except Stop Addr) :=
  {answer | ∃ size offset, r.size = .ok size ∧ offset < size ∧ answer = .ok offset}

theorem not_bijOn_of_vacant {size : Addr} (vacant : ∀ a, a ∉ r) (sized : r.size = .ok size)
    (nonzero : size ≠ 0) : ¬ Set.BijOn r.getOffset {a | a ∈ r} r.Offsets := by
  intro numbered
  have positive : (0 : Addr) < size := by
    have differ : size.toNat ≠ 0 := fun zero => nonzero (eq_of_toNat_eq (by simpa using zero))
    rw [lt_def]
    simp only [ofNat_eq_ofNat, toNat_ofNat, zero_mod]
    omega
  obtain ⟨a, member, -⟩ := numbered.surjOn ⟨size, 0, sized, positive, rfl⟩
  exact vacant a member

theorem bijOn_of_empty (empty : r.start = r.end_) (few : r.masks.length < 64) :
    Set.BijOn r.getOffset {a | a ∈ r} r.Offsets := by
  have vacant : {a | a ∈ r} = (∅ : Set Addr) := by
    apply Set.eq_empty_iff_forall_notMem.mpr
    intro a member
    have inside := toNat_start_le (inRange_of_mem member)
    rw [empty] at inside
    omega
  have none : r.Offsets = ∅ := by
    apply Set.eq_empty_iff_forall_notMem.mpr
    rintro answer ⟨size, offset, sized, below, -⟩
    rw [AddrRange.size, shr_of_lt few, empty, sub_self] at sized
    cases sized
    simp at below
  rw [vacant, none]
  exact Set.bijOn_empty _

theorem bijOn_of_plain (plain : r.masks = []) (zero : r.intlvMatch = 0) (valid : r.start ≤ r.end_) :
    Set.BijOn r.getOffset {a | a ∈ r} r.Offsets := by
  have members : ∀ a, a ∈ r ↔ r.InRange a := by
    intro a
    rw [AddrRange.mem_iff, matches_plain_iff plain, plain]
    simp [zero]
  have offset : ∀ a, r.InRange a → r.getOffset a = .ok (a - r.start) := by
    intro a inside
    rw [getOffset, if_neg (not_not_intro inside), if_neg (by simp [interleaved, plain])]
  have sized : r.size = .ok (r.end_ - r.start) := by
    rw [size_eq (by simp [plain]), plain]
    simp
  refine ⟨?_, ?_, ?_⟩
  · intro a member
    have inside := (members a).mp member
    refine ⟨_, a - r.start, sized, ?_, offset a inside⟩
    have bounds := toNat_start_le inside
    bv_omega
  · intro a left b right same
    rw [offset a ((members a).mp left), offset b ((members b).mp right)] at same
    have equal := Except.ok.inj same
    have bounds := toNat_start_le ((members a).mp left)
    have bounds' := toNat_start_le ((members b).mp right)
    bv_omega
  · rintro answer ⟨size, o, given, below, rfl⟩
    rw [sized] at given
    cases given
    have inside : r.InRange (r.start + o) := by
      refine ⟨?_, ?_⟩ <;> bv_omega
    refine ⟨r.start + o, (members _).mpr inside, ?_⟩
    rw [offset _ inside]
    congr 1
    bv_omega

theorem toNat_of_dropped {word : Addr} {base n : Nat}
    (bits : ∀ k, word.getLsbD k = if k < base then a.getLsbD k else a.getLsbD (k + n)) :
    word.toNat = 2 ^ base * (a.toNat / 2 ^ (base + n)) + a.toNat % 2 ^ base := by
  apply Nat.eq_of_testBit_eq
  intro k
  rw [Nat.testBit_two_pow_mul_add _ (Nat.mod_lt _ (Nat.two_pow_pos base))]
  have bit := bits k
  by_cases low : k < base
  · rw [if_pos low] at bit ⊢
    rw [testBit_mod_two_pow, decide_eq_true low, Bool.true_and]
    exact bit
  · rw [if_neg low] at bit ⊢
    rw [testBit_div_two_pow, show k - base + (base + n) = k + n by omega]
    exact bit

section Numbering

variable {base : Nat} {upper : Option Nat}

theorem Layout.getOffset_eq (layout : Layout r.masks base upper) (some : r.masks ≠ []) (inside : r.InRange a) :
    ∃ here first, r.getOffset a = .ok (here - first) ∧
      (∀ k, here.getLsbD k = if k < base then a.getLsbD k else a.getLsbD (k + r.masks.length)) ∧
      ∀ k, first.getLsbD k =
        if k < base then r.start.getLsbD k else r.start.getLsbD (k + r.masks.length) := by
  obtain ⟨here, removed, bits⟩ := layout.removeIntlvBits_eq some a
  obtain ⟨first, removed', bits'⟩ := layout.removeIntlvBits_eq some r.start
  refine ⟨here, first, ?_, bits, bits'⟩
  rw [getOffset, if_neg (not_not_intro inside), if_pos (interleaved_iff.mpr some), removed, removed']
  rfl

theorem Layout.injOn (layout : Layout r.masks base upper) (some : r.masks ≠ [])
    (fits : r.intlvMatch.toNat < 2 ^ r.masks.length) :
    Set.InjOn r.getOffset {a | a ∈ r} := by
  intro a left b right same
  obtain ⟨-, -, chosen⟩ := (layout.mem_iff fits).mp left
  obtain ⟨-, -, chosen'⟩ := (layout.mem_iff fits).mp right
  obtain ⟨here, first, offset, bits, firstBits⟩ := layout.getOffset_eq some (inRange_of_mem left)
  obtain ⟨here', first', offset', bits', firstBits'⟩ :=
    layout.getOffset_eq some (inRange_of_mem right)
  have start : first = first' := by
    apply eq_of_getLsbD_eq
    intro k _
    rw [firstBits, firstBits']
  have equal : here = here' := by
    rw [offset, offset', start] at same
    exact sub_left_inj.mp (Except.ok.inj same)
  have kept : ∀ k, (if k < base then a.getLsbD k else a.getLsbD (k + r.masks.length)) =
      if k < base then b.getLsbD k else b.getLsbD (k + r.masks.length) := by
    intro k
    rw [← bits, ← bits', equal]
  have high : ∀ k < 64, base + r.masks.length ≤ k → a.getLsbD k = b.getLsbD k := by
    intro k _ above
    have bit := kept (k - r.masks.length)
    rw [if_neg (by omega), if_neg (by omega), Nat.sub_add_cancel (by omega)] at bit
    exact bit
  apply eq_of_getLsbD_eq
  intro k inside
  by_cases low : k < base
  · simpa [low] using kept k
  · by_cases group : k < base + r.masks.length
    · obtain ⟨j, rfl⟩ : ∃ j, k = base + j := ⟨k - base, by omega⟩
      rw [chosen j (by omega), chosen' j (by omega), upperBit_congr layout (by omega) high]
    · exact high k inside (by omega)

theorem Layout.exists_spread (layout : Layout r.masks base upper) (q : Addr)
    (fits : q.toNat < 2 ^ (64 - r.masks.length)) :
    ∃ a : Addr, (∀ j < r.masks.length,
        a.getLsbD (base + j) = (r.intlvMatch.getLsbD j ^^ upperBit upper a j)) ∧
      ∀ k, q.getLsbD k = if k < base then a.getLsbD k else a.getLsbD (k + r.masks.length) := by
  have room := layout.room
  let spread (k : Nat) : Bool := if k < base then q.getLsbD k else q.getLsbD (k - r.masks.length)
  let word : Addr := BitVec.ofFnLE fun k : Fin 64 =>
    if base ≤ k.val ∧ k.val < base + r.masks.length then
      (r.intlvMatch.getLsbD (k - base) ^^ upper.any fun u => spread (u + (k - base)))
    else spread k
  have bits : ∀ k < 64, word.getLsbD k =
      if base ≤ k ∧ k < base + r.masks.length then
        (r.intlvMatch.getLsbD (k - base) ^^ upper.any fun u => spread (u + (k - base)))
      else spread k := by
    intro k inside
    rw [getLsbD_eq_getElem inside, getElem_ofFnLE]
  have group : ∀ j < r.masks.length,
      (upper.any fun u => spread (u + j)) = upperBit upper word j := by
    intro j small
    cases upper with
    | none => rfl
    | some u =>
      obtain ⟨apart, top⟩ := layout.apart u rfl
      simp only [Option.any_some, upperBit]
      rw [bits (u + j) (by omega), if_neg (by omega)]
  refine ⟨word, ?_, ?_⟩
  · intro j small
    rw [bits (base + j) (by omega), if_pos (by omega), Nat.add_sub_cancel_left, group j small]
  · intro k
    by_cases low : k < base
    · rw [if_pos low, bits k (by omega), if_neg (by omega)]
      simp only [spread, low, if_true]
    · rw [if_neg low]
      by_cases inside : k + r.masks.length < 64
      · rw [bits _ inside, if_neg (by omega)]
        simp only [spread, show ¬ k + r.masks.length < base by omega, if_false,
          Nat.add_sub_cancel_right]
      · rw [getLsbD_of_ge word _ (by omega)]
        apply Nat.testBit_lt_two_pow
        exact Nat.lt_of_lt_of_le fits (Nat.pow_le_pow_right (by decide) (by omega))

/-- A range whose ends are multiples of the block that the lower group spans: the numbers of its
first block and of the block after its last one. -/
structure Blocks (r : AddrRange) (base low high : Nat) : Prop where
  first : r.start.toNat = 2 ^ (base + r.masks.length) * low
  last : r.end_.toNat = 2 ^ (base + r.masks.length) * high
  le : low ≤ high
  few : r.masks.length ≤ 32

namespace Blocks

variable {low high : Nat} (blocks : Blocks r base low high)
include blocks

theorem size_eq : ∃ size, r.size = .ok size ∧ size.toNat = 2 ^ base * (high - low) := by
  have few := blocks.few
  refine ⟨_, AddrRange.size_eq few, ?_⟩
  have length : (r.end_ - r.start).toNat = 2 ^ (base + r.masks.length) * (high - low) := by
    have valid : r.start.toNat ≤ r.end_.toNat := by
      rw [blocks.first, blocks.last]
      exact Nat.mul_le_mul_left _ blocks.le
    rw [Nat.mul_sub, ← blocks.first, ← blocks.last]
    bv_omega
  rw [toNat_ushiftRight, Nat.shiftRight_eq_div_pow, length, Nat.pow_add,
    Nat.mul_right_comm, Nat.mul_div_cancel _ (Nat.two_pow_pos _)]

theorem inRange_iff : r.InRange a ↔
    low ≤ a.toNat / 2 ^ (base + r.masks.length) ∧ a.toNat / 2 ^ (base + r.masks.length) < high := by
  have positive : 0 < 2 ^ (base + r.masks.length) := Nat.two_pow_pos _
  rw [InRange, le_def, lt_def, blocks.first, blocks.last,
    le_div_iff_mul_le positive, div_lt_iff_lt_mul positive, mul_comm low,
    mul_comm high]

theorem toNat_first {word : Addr} (bits : ∀ k, word.getLsbD k =
    if k < base then r.start.getLsbD k else r.start.getLsbD (k + r.masks.length)) :
    word.toNat = 2 ^ base * low := by
  have aligned : r.start.toNat % 2 ^ base = 0 := by
    rw [blocks.first, Nat.pow_add, Nat.mul_assoc]
    exact Nat.mul_mod_right _ _
  rw [toNat_of_dropped bits, aligned, blocks.first, Nat.mul_div_cancel_left _ (Nat.two_pow_pos _),
    Nat.add_zero]

end Blocks

theorem Layout.mapsTo (layout : Layout r.masks base upper) (some : r.masks ≠ []) {low high : Nat}
    (blocks : Blocks r base low high) : Set.MapsTo r.getOffset {a | a ∈ r} r.Offsets := by
  intro a member
  have inside := inRange_of_mem member
  obtain ⟨here, first, offset, bits, firstBits⟩ := layout.getOffset_eq some inside
  obtain ⟨size, sized, length⟩ := blocks.size_eq
  refine ⟨size, here - first, sized, ?_, offset⟩
  obtain ⟨lower, upper⟩ := blocks.inRange_iff.mp inside
  have start := blocks.toNat_first firstBits
  have value := toNat_of_dropped bits
  have rest : a.toNat % 2 ^ base < 2 ^ base := Nat.mod_lt _ (Nat.two_pow_pos _)
  have fromLow : 2 ^ base * low ≤ 2 ^ base * (a.toNat / 2 ^ (base + r.masks.length)) :=
    Nat.mul_le_mul_left _ lower
  have toHigh : 2 ^ base * (a.toNat / 2 ^ (base + r.masks.length)) + 2 ^ base ≤ 2 ^ base * high := by
    rw [← Nat.mul_succ]
    exact Nat.mul_le_mul_left _ upper
  rw [Nat.mul_sub] at length
  bv_omega

theorem Layout.surjOn (layout : Layout r.masks base upper) (some : r.masks ≠ [])
    (fits : r.intlvMatch.toNat < 2 ^ r.masks.length) {low high : Nat}
    (blocks : Blocks r base low high) : Set.SurjOn r.getOffset {a | a ∈ r} r.Offsets := by
  rintro answer ⟨size, o, sized, below, rfl⟩
  have few := blocks.few
  obtain ⟨size', sized', length⟩ := blocks.size_eq
  rw [sized] at sized'
  cases sized'
  obtain ⟨first, removed, firstBits⟩ := layout.removeIntlvBits_eq some r.start
  have start := blocks.toNat_first firstBits
  -- The word that is to be left after the removal, and that it loses no bit when spread.
  have room : 2 ^ base * high * 2 ^ r.masks.length < 2 ^ 64 := by
    have bound := r.end_.isLt
    rw [blocks.last, Nat.pow_add] at bound
    rwa [Nat.mul_right_comm]
  have short : 2 ^ base * high < 2 ^ (64 - r.masks.length) := by
    apply Nat.lt_of_mul_lt_mul_right (a := 2 ^ r.masks.length)
    rw [← Nat.pow_add, Nat.sub_add_cancel (by omega)]
    exact room
  have small : 2 ^ (64 - r.masks.length) ≤ 2 ^ 64 := Nat.pow_le_pow_right (by decide) (by omega)
  have order : 2 ^ base * low ≤ 2 ^ base * high := Nat.mul_le_mul_left _ blocks.le
  rw [Nat.mul_sub] at length
  rw [lt_def, length] at below
  have value : (first + o).toNat = 2 ^ base * low + o.toNat := by
    rw [toNat_add, start]
    omega
  obtain ⟨a, chosen, bits⟩ := layout.exists_spread (first + o) (by omega)
  have block : a.toNat / 2 ^ (base + r.masks.length) = (first + o).toNat / 2 ^ base := by
    have rest : a.toNat % 2 ^ base < 2 ^ base := Nat.mod_lt _ (Nat.two_pow_pos _)
    rw [toNat_of_dropped bits, Nat.mul_add_div (Nat.two_pow_pos _), Nat.div_eq_of_lt rest,
      Nat.add_zero]
  have inside : r.InRange a := by
    rw [blocks.inRange_iff, block, value, Nat.mul_add_div (Nat.two_pow_pos _)]
    refine ⟨Nat.le_add_right _ _, ?_⟩
    have within : o.toNat / 2 ^ base < high - low := by
      rw [Nat.div_lt_iff_lt_mul (Nat.two_pow_pos _), Nat.mul_comm, Nat.mul_sub]
      exact below
    exact Nat.add_lt_of_lt_sub' within
  refine ⟨a, (layout.mem_iff fits).mpr ⟨inside, few, chosen⟩, ?_⟩
  obtain ⟨here, first', offset, hereBits, firstBits'⟩ := layout.getOffset_eq some inside
  have same : first' = first := by
    apply eq_of_getLsbD_eq
    intro k _
    rw [firstBits, firstBits']
  have kept : here = first + o := by
    apply eq_of_getLsbD_eq
    intro k _
    rw [hereBits, bits]
  rw [offset, same, kept, add_sub_cancel_left]

theorem size_ne_zero (step : Nat) {n : Nat} (length : r.masks.length = n) (few : n < 64)
    (fits : n ≤ step) (small : step ≤ 64) (first : 2 ^ step ∣ r.start.toNat)
    (last : 2 ^ step ∣ r.end_.toNat) (differ : r.start ≠ r.end_) :
    ∃ size, r.size = .ok size ∧ size ≠ 0 := by
  refine ⟨_, by rw [AddrRange.size, shr_of_lt (by omega)], ?_⟩
  have multiple : 2 ^ step ∣ (r.end_ - r.start).toNat := by
    have whole : 2 ^ step ∣ 2 ^ 64 := pow_dvd_pow 2 small
    have bound := r.start.isLt
    rw [toNat_sub]
    apply (dvd_mod_iff whole).mpr
    exact dvd_add (dvd_sub whole first) last
  have apart : (r.end_ - r.start).toNat ≠ 0 := by
    intro zero
    apply differ
    bv_omega
  have large : 2 ^ step ≤ (r.end_ - r.start).toNat :=
    le_of_dvd (pos_of_ne_zero apart) multiple
  intro zero
  have value := congrArg BitVec.toNat zero
  rw [toNat_ushiftRight, shiftRight_eq_div_pow, length] at value
  have shifted : 1 ≤ (r.end_ - r.start).toNat / 2 ^ n := by
    rw [Nat.le_div_iff_mul_le (Nat.two_pow_pos _), Nat.one_mul]
    exact Nat.le_trans (Nat.pow_le_pow_right (by decide) fits) large
  simp only [ofNat_eq_ofNat, toNat_ofNat, zero_mod] at value
  omega

end Numbering

/-- A range that was built so that its offsets are what they should be: the ends are in order and
there are no more selector bits than an `int` has. -/
def Numbered (r : AddrRange) : Prop :=
  r.start ≤ r.end_ ∧
    (r.start = r.end_ ∨ (r.masks.length ≤ 32 ∧ (r.masks = [] → r.intlvMatch = 0)))

theorem vacant_of_not_numbered (unnumbered : ¬ r.Numbered) (a : Addr) : a ∉ r := by
  intro member
  obtain ⟨inside, few, matching⟩ := AddrRange.mem_iff.mp member
  apply unnumbered
  refine ⟨?_, .inr ⟨few, ?_⟩⟩
  · have bounds := toNat_start_le inside
    rw [le_def]
    omega
  · intro plain
    exact (matches_plain_iff plain).mp matching

theorem Layout.dvd_of_masks {base : Nat} {upper : Option Nat} (layout : Layout r.masks base upper)
    (some : r.masks ≠ []) {n : Nat} (aligned : ∀ mask ∈ r.masks, 2 ^ (1 + ctz64 mask) ∣ n) :
    2 ^ (base + r.masks.length) ∣ n := by
  have positive : 0 < r.masks.length := List.length_pos_iff.mpr some
  have final : r.masks[r.masks.length - 1]? = .some r.masks[r.masks.length - 1] :=
    List.getElem?_eq_getElem (by omega)
  have divides := aligned _ (List.mem_of_getElem? final)
  rwa [layout.ctz64_eq final,
    show 1 + (base + (r.masks.length - 1)) = base + r.masks.length by omega] at divides

theorem getOffset_bijective_iff (start end_ : Addr)
    (intlvHighBit xorHighBit intlvBits intlvMatch : BitVec 8) (r : AddrRange)
    (built : legacy start end_ intlvHighBit xorHighBit intlvBits intlvMatch = .ok r)
    (first : ∀ mask ∈ r.masks, 2 ^ (1 + ctz64 mask) ∣ r.start.toNat)
    (last : ∀ mask ∈ r.masks, 2 ^ (1 + ctz64 mask) ∣ r.end_.toNat) :
    Set.BijOn r.getOffset {a | a ∈ r} r.Offsets ↔ r.Numbered := by
  obtain ⟨length, small, fits⟩ := legacy_fits built
  have plain : intlvBits = 0 → r.masks = [] := by
    rintro rfl
    exact List.eq_nil_of_length_eq_zero (by simpa using length)
  have sized : r.start ≠ r.end_ → ∃ size, r.size = .ok size ∧ size ≠ 0 := by
    by_cases none : intlvBits = 0
    · have zero : r.masks.length = 0 := by simp [plain none]
      exact size_ne_zero 0 zero (by decide) (by decide) (by decide) (by simp) (by simp)
    · obtain ⟨base, upper, layout⟩ := legacy_layout built none
      have some : r.masks ≠ [] := by
        intro empty
        rw [empty, List.length_nil] at length
        exact none (eq_of_toNat_eq (by simpa using length.symm))
      exact size_ne_zero _ rfl small (le_add_left _ _) layout.room
        (layout.dvd_of_masks some first) (layout.dvd_of_masks some last)
  constructor
  · intro numbered
    by_contra unnumbered
    by_cases empty : r.start = r.end_
    · exact unnumbered ⟨by rw [empty]; exact BitVec.le_refl _, .inl empty⟩
    · obtain ⟨size, given, nonzero⟩ := sized empty
      exact not_bijOn_of_vacant (vacant_of_not_numbered unnumbered) given nonzero numbered
  · rintro ⟨valid, empty | ⟨few, zero⟩⟩
    · exact bijOn_of_empty empty small
    · by_cases masks : r.masks = []
      · exact bijOn_of_plain masks (zero masks) valid
      · have some : intlvBits ≠ 0 := fun none => masks (plain none)
        obtain ⟨base, upper, layout⟩ := legacy_layout built some
        obtain ⟨low, startsAt⟩ := layout.dvd_of_masks masks first
        obtain ⟨high, endsAt⟩ := layout.dvd_of_masks masks last
        have order : low ≤ high := by
          rw [le_def, startsAt, endsAt] at valid
          exact Nat.le_of_mul_le_mul_left valid (Nat.two_pow_pos _)
        have blocks : Blocks r base low high := ⟨startsAt, endsAt, order, few⟩
        exact ⟨layout.mapsTo masks blocks, layout.injOn masks (fits some),
          layout.surjOn masks (fits some) blocks⟩

def wide : AddrRange :=
  { start := 0, end_ := 0x200000000, masks := (List.range 33).map fun j => 1#64 <<< j,
    intlvMatch := 1 }

theorem aligned_of_all {masks : List Addr} {n : Nat}
    (tested : masks.all (fun mask => n % 2 ^ (1 + ctz64 mask) == 0) = true) :
    ∀ mask ∈ masks, 2 ^ (1 + ctz64 mask) ∣ n := by
  intro mask member
  exact dvd_of_mod_eq_zero (by simpa using List.all_eq_true.mp tested mask member)

/-- The range has size 1 and holds no address: asked for one, `contains` shifts an `int` by 32. -/
theorem getOffset_wide :
    legacy 0 0x200000000 32 0 33 1 = .ok wide ∧
      (∀ mask ∈ wide.masks, 2 ^ (1 + ctz64 mask) ∣ wide.start.toNat) ∧
      (∀ mask ∈ wide.masks, 2 ^ (1 + ctz64 mask) ∣ wide.end_.toNat) ∧
      wide.size = .ok 1 ∧ wide.contains 1 = .error .undefinedShift ∧
      ¬ Set.BijOn wide.getOffset {a | a ∈ wide} wide.Offsets := by
  have sized : wide.size = .ok 1 := by decide +kernel
  refine ⟨by decide +kernel, aligned_of_all (by decide +kernel), aligned_of_all (by decide +kernel),
    sized, by decide +kernel, ?_⟩
  apply not_bijOn_of_vacant _ sized (by decide)
  intro a member
  exact absurd (few_of_mem member) (by decide)

/-- Two interleaving bits with two XOR bits over several blocks. -/
theorem getOffset_bijective_low :
    lowBits.Numbered ∧
      (Set.BijOn lowBits.getOffset {a | a ∈ lowBits} lowBits.Offsets ↔ lowBits.Numbered) :=
  ⟨by unfold Numbered; decide, getOffset_bijective_iff 0 0x10000 8 12 2 1 lowBits (by decide +kernel)
    (aligned_of_all (by decide +kernel)) (aligned_of_all (by decide +kernel))⟩

end AddrRange

end Resister.Base
