import Mathlib
import Resister.Base.RangeTests

/-!
# Subtracting ranges from a range

`AddrRange::exclude`: one sweep over the excluded ranges in the order of their starts, which keeps
in `next_start` the end of what is covered so far.
-/

namespace Resister.Base

open List

namespace AddrRange

variable {x r e range : AddrRange} {a nextStart : Addr} {excluded ranges : List AddrRange}

def sweep (range : AddrRange) (nextStart : Addr) (ranges : List AddrRange) :
    List AddrRange → Except Stop (List AddrRange)
  | [] =>
    .ok (if nextStart < range.end_ then ranges ++ [plain nextStart range.end_] else ranges)
  | e :: rest =>
    if e.interleaved then .error .assertion
    else do
      if ← range.intersects e then
        if e.start ≤ nextStart then
          if e.end_ < range.end_ then
            sweep range (if nextStart < e.end_ then e.end_ else nextStart) ranges rest
          else .ok ranges
        else if e.end_ < range.end_ then
          sweep range e.end_ (ranges ++ [plain nextStart e.start]) rest
        else .ok (ranges ++ [plain nextStart e.start])
      else sweep range nextStart ranges rest

def sort (ranges : List AddrRange) : List AddrRange := ranges.mergeSort fun x y => !y.lt x

def exclude (range : AddrRange) (excludeRanges : List AddrRange) : Except Stop (List AddrRange) :=
  if range.interleaved then .error .assertion else sweep range range.start [] (sort excludeRanges)

/-- Ranges without masks, one after the other from `nextStart` on. -/
structure Parts (nextStart : Addr) (parts : List AddrRange) : Prop where
  shape : ∀ p ∈ parts, p = plain p.start p.end_ ∧ p.start < p.end_
  ordered : parts.Pairwise fun p q => p.end_ ≤ q.start
  after : ∀ p ∈ parts, nextStart ≤ p.start

theorem Parts.nil : Parts nextStart [] := ⟨by simp, .nil, by simp⟩

theorem Parts.mono {parts : List AddrRange} {earlier : Addr} (h : Parts nextStart parts)
    (le : earlier ≤ nextStart) : Parts earlier parts :=
  ⟨h.shape, h.ordered, fun p member => BitVec.le_trans le (h.after p member)⟩

theorem Parts.cons {parts : List AddrRange} {stop : Addr} (h : Parts stop parts)
    (lt : nextStart < stop) : Parts nextStart (plain nextStart stop :: parts) := by
  refine ⟨?_, ?_, ?_⟩
  · intro p member
    rcases mem_cons.mp member with rfl | later
    · exact ⟨rfl, lt⟩
    · exact h.shape p later
  · exact pairwise_cons.mpr ⟨h.after, h.ordered⟩
  · intro p member
    rcases mem_cons.mp member with rfl | later
    · exact BitVec.le_refl _
    · exact BitVec.le_trans (BitVec.le_of_lt lt) (h.after p later)

/-- What the sweep still has to find: the addresses from `nextStart` on in none of the ranges that
are left. -/
def Uncovered (range : AddrRange) (nextStart : Addr) (excluded : List AddrRange) (a : Addr) : Prop :=
  nextStart ≤ a ∧ a < range.end_ ∧ ∀ e ∈ excluded, ¬ e.InRange a

theorem uncovered_cons : Uncovered range nextStart (e :: excluded) a ↔
    Uncovered range nextStart excluded a ∧ ¬ e.InRange a := by
  simp only [Uncovered, mem_cons, forall_eq_or_imp]
  tauto

theorem uncovered_apart (started : range.start ≤ nextStart) (apart : e.end_ ≤ range.start ∨ range.end_ ≤ e.start) :
    Uncovered range nextStart (e :: excluded) a ↔ Uncovered range nextStart excluded a := by
  rw [uncovered_cons]
  refine ⟨And.left, fun uncovered => ⟨uncovered, ?_⟩⟩
  rintro ⟨lower, upper⟩
  obtain ⟨from_, below, -⟩ := uncovered
  bv_omega

theorem uncovered_extend (covered : e.start ≤ nextStart) :
    Uncovered range nextStart (e :: excluded) a ↔
      Uncovered range (if nextStart < e.end_ then e.end_ else nextStart) excluded a := by
  rw [uncovered_cons]
  unfold Uncovered InRange
  split
  next longer =>
    constructor
    · rintro ⟨⟨from_, below, rest⟩, outside⟩
      exact ⟨by bv_omega, below, rest⟩
    · rintro ⟨from_, below, rest⟩
      exact ⟨⟨by bv_omega, below, rest⟩, by bv_omega⟩
  next shorter =>
    refine ⟨And.left, fun uncovered => ⟨uncovered, ?_⟩⟩
    obtain ⟨from_, -, -⟩ := uncovered
    bv_omega

theorem uncovered_final (reaches : range.end_ ≤ e.end_) :
    Uncovered range nextStart (e :: excluded) a → a < e.start := by
  rw [uncovered_cons]
  rintro ⟨⟨-, below, -⟩, outside⟩
  unfold InRange at outside
  bv_omega

theorem uncovered_gap (ahead : nextStart < e.start) (valid : e.start ≤ e.end_)
    (inside : e.start < range.end_) (sorted : ∀ later ∈ excluded, e.start ≤ later.start) :
    Uncovered range nextStart (e :: excluded) a ↔
      (nextStart ≤ a ∧ a < e.start) ∨ Uncovered range e.end_ excluded a := by
  rw [uncovered_cons]
  constructor
  · rintro ⟨⟨from_, below, rest⟩, outside⟩
    by_cases gap : a < e.start
    · exact .inl ⟨from_, gap⟩
    · unfold InRange at outside
      exact .inr ⟨by bv_omega, below, rest⟩
  · rintro (⟨from_, gap⟩ | ⟨from_, below, rest⟩)
    · refine ⟨⟨from_, by bv_omega, ?_⟩, ?_⟩
      · rintro later member ⟨lower, -⟩
        have order := sorted later member
        bv_omega
      · rintro ⟨lower, -⟩
        bv_omega
    · refine ⟨⟨by bv_omega, below, rest⟩, ?_⟩
      rintro ⟨-, upper⟩
      bv_omega

theorem exists_mem_plain_cons {parts : List AddrRange} {stop : Addr} :
    (∃ p ∈ plain nextStart stop :: parts, a ∈ p) ↔
      (nextStart ≤ a ∧ a < stop) ∨ ∃ p ∈ parts, a ∈ p := by
  simp only [mem_cons, exists_eq_or_imp, mem_plain]

theorem sweep_spec (range : AddrRange) (plain : range.masks = []) (nextStart : Addr)
    (ranges excluded : List AddrRange) (started : range.start ≤ nextStart)
    (shape : ∀ e ∈ excluded, e.masks = [] ∧ e.start ≤ e.end_)
    (sorted : excluded.Pairwise fun x y => x.start ≤ y.start) :
    ∃ parts, sweep range nextStart ranges excluded = .ok (ranges ++ parts) ∧
      Parts nextStart parts ∧ ∀ a, (∃ p ∈ parts, a ∈ p) ↔ Uncovered range nextStart excluded a := by
  induction excluded generalizing nextStart ranges with
  | nil =>
    by_cases room : nextStart < range.end_
    · refine ⟨[AddrRange.plain nextStart range.end_], by rw [sweep, if_pos room],
        Parts.nil.cons room, ?_⟩
      intro a
      rw [exists_mem_plain_cons]
      simp [Uncovered]
    · refine ⟨[], by rw [sweep, if_neg room, append_nil], .nil, ?_⟩
      intro a
      simp only [not_mem_nil, false_and, exists_false, Uncovered, false_iff]
      rintro ⟨lower, upper, -⟩
      bv_omega
  | cons e rest ih =>
    obtain ⟨masks, valid⟩ := shape e mem_cons_self
    have shape' : ∀ e ∈ rest, e.masks = [] ∧ e.start ≤ e.end_ :=
      fun e member => shape e (mem_cons_of_mem _ member)
    obtain ⟨first, sorted'⟩ := pairwise_cons.mp sorted
    have tested : sweep range nextStart ranges (e :: rest) =
        if ¬(e.end_ ≤ range.start ∨ range.end_ ≤ e.start) then
          if e.start ≤ nextStart then
            if e.end_ < range.end_ then
              sweep range (if nextStart < e.end_ then e.end_ else nextStart) ranges rest
            else .ok ranges
          else if e.end_ < range.end_ then
            sweep range e.end_ (ranges ++ [AddrRange.plain nextStart e.start]) rest
          else .ok (ranges ++ [AddrRange.plain nextStart e.start])
        else sweep range nextStart ranges rest := by
      rw [sweep, if_neg (by simp [interleaved, masks]), intersects_plain plain masks]
      show ite _ _ _ = _
      simp only [decide_eq_true_iff]
    rw [tested]
    by_cases apart : e.end_ ≤ range.start ∨ range.end_ ≤ e.start
    · obtain ⟨parts, swept, shaped, covers⟩ := ih nextStart ranges started shape' sorted'
      refine ⟨parts, by rw [if_neg (not_not_intro apart), swept], shaped, ?_⟩
      intro a
      rw [covers, uncovered_apart started apart]
    rw [if_pos apart]
    rw [not_or] at apart
    by_cases covered : e.start ≤ nextStart
    · rw [if_pos covered]
      by_cases reaches : e.end_ < range.end_
      · have later : nextStart ≤ if nextStart < e.end_ then e.end_ else nextStart := by
          split
          next longer => exact BitVec.le_of_lt longer
          next => exact BitVec.le_refl _
        obtain ⟨parts, swept, shaped, covers⟩ :=
          ih _ ranges (BitVec.le_trans started later) shape' sorted'
        refine ⟨parts, by rw [if_pos reaches, swept], shaped.mono later, ?_⟩
        intro a
        rw [covers, uncovered_extend covered]
      · refine ⟨[], by rw [if_neg reaches, append_nil], .nil, ?_⟩
        intro a
        simp only [not_mem_nil, false_and, exists_false, false_iff]
        intro uncovered
        have before := uncovered_final (by bv_omega) uncovered
        have from_ := uncovered.1
        bv_omega
    · rw [if_neg covered]
      have ahead : nextStart < e.start := by bv_omega
      by_cases reaches : e.end_ < range.end_
      · obtain ⟨parts, swept, shaped, covers⟩ :=
          ih e.end_ (ranges ++ [AddrRange.plain nextStart e.start]) (by bv_omega) shape' sorted'
        refine ⟨AddrRange.plain nextStart e.start :: parts, ?_, (shaped.mono valid).cons ahead, ?_⟩
        · rw [if_pos reaches, swept, append_assoc]
          rfl
        · intro a
          rw [exists_mem_plain_cons, covers,
            uncovered_gap ahead valid (by bv_omega) first]
      · refine ⟨[AddrRange.plain nextStart e.start], by rw [if_neg reaches],
          Parts.nil.cons ahead, ?_⟩
        intro a
        rw [exists_mem_plain_cons, uncovered_gap ahead valid (by bv_omega) first]
        constructor
        · rintro (gap | ⟨p, absent, -⟩)
          · exact .inl gap
          · cases absent
        · rintro (gap | ⟨from_, below, -⟩)
          · exact .inl gap
          · bv_omega

theorem sort_sorted (ranges : List AddrRange) :
    (sort ranges).Pairwise fun x y => x.start ≤ y.start := by
  have sorted : (sort ranges).Pairwise fun x y => (!y.lt x) = true := by
    apply pairwise_mergeSort
    · intro x y z first second
      rw [Bool.not_eq_true', Bool.eq_false_iff, Ne, lt_iff] at first second ⊢
      omega
    · intro x y
      rw [Bool.or_eq_true, Bool.not_eq_true', Bool.not_eq_true', Bool.eq_false_iff,
        Bool.eq_false_iff, Ne, Ne, lt_iff, lt_iff]
      omega
  apply sorted.imp
  intro x y ordered
  rw [Bool.not_eq_true', Bool.eq_false_iff, Ne, lt_iff] at ordered
  rw [BitVec.le_def]
  omega

theorem exclude_spec (plain : range.masks = []) (shape : ∀ e ∈ excluded, e.masks = [] ∧ e.start ≤ e.end_) :
    ∃ parts, range.exclude excluded = .ok parts ∧ Parts range.start parts ∧
      ∀ a, (∃ p ∈ parts, a ∈ p) ↔ range.InRange a ∧ ∀ e ∈ excluded, ¬ e.InRange a := by
  have listed : ∀ e, e ∈ sort excluded ↔ e ∈ excluded := fun e => mem_mergeSort
  obtain ⟨parts, swept, shaped, covers⟩ := sweep_spec range plain range.start [] (sort excluded)
    (BitVec.le_refl _) (fun e member => shape e ((listed e).mp member)) (sort_sorted excluded)
  refine ⟨parts, ?_, shaped, ?_⟩
  · rw [exclude, if_neg (by simp [interleaved, plain]), swept]
    rfl
  · intro a
    rw [covers]
    simp only [Uncovered, InRange, listed, and_assoc]

/-- Where a range without masks has a match value other than 0, `contains` denies its addresses
and `exclude` goes by its interval. The addresses of the interval that this concerns lie in an
excluded range anyway. -/
def StrayCovered (range : AddrRange) (excluded : List AddrRange) : Prop :=
  ∀ a, range.InRange a →
    (range.intlvMatch ≠ 0 ∨ ∃ e ∈ excluded, e.intlvMatch ≠ 0 ∧ e.InRange a) →
    ∃ e ∈ excluded, e.InRange a ∧ (range.intlvMatch = 0 → e.intlvMatch = 0)

theorem mem_of_no_masks (masks : r.masks = []) : a ∈ r ↔ r.InRange a ∧ r.intlvMatch = 0 := by
  rw [mem_iff, matches_plain_iff masks, masks]
  simp

theorem strayCovered_iff (plain : range.masks = []) (shape : ∀ e ∈ excluded, e.masks = []) :
    StrayCovered range excluded ↔
      ∀ a, (range.InRange a ∧ ∀ e ∈ excluded, ¬ e.InRange a) ↔
        (a ∈ range ∧ ∀ e ∈ excluded, a ∉ e) := by
  have members : ∀ e ∈ excluded, ∀ a, a ∈ e ↔ e.InRange a ∧ e.intlvMatch = 0 :=
    fun e listed a => mem_of_no_masks (shape e listed)
  constructor
  · intro covered a
    rw [mem_of_no_masks plain]
    constructor
    · rintro ⟨inside, free⟩
      refine ⟨⟨inside, ?_⟩, fun e listed member => free e listed (inRange_of_mem member)⟩
      by_contra stray
      obtain ⟨e, listed, within, -⟩ := covered a inside (.inl stray)
      exact free e listed within
    · rintro ⟨⟨inside, zero⟩, free⟩
      refine ⟨inside, ?_⟩
      intro e listed within
      by_cases stray : e.intlvMatch = 0
      · exact free e listed ((members e listed a).mpr ⟨within, stray⟩)
      · obtain ⟨other, found, spans, match_⟩ := covered a inside (.inr ⟨e, listed, stray, within⟩)
        exact free other found ((members other found a).mpr ⟨spans, match_ zero⟩)
  · intro same a inside affected
    by_contra none
    push Not at none
    by_cases zero : range.intlvMatch = 0
    · rcases affected with stray | ⟨e, listed, -, within⟩
      · exact stray zero
      · refine ((same a).mpr ⟨(mem_of_no_masks plain).mpr ⟨inside, zero⟩, ?_⟩).2 e listed within
        intro other found member
        obtain ⟨spans, match_⟩ := (members other found a).mp member
        exact (none other found spans).2 match_
    · have free : ∀ e ∈ excluded, ¬ e.InRange a := by
        intro e listed within
        exact zero (none e listed within).1
      exact zero ((mem_of_no_masks plain).mp ((same a).mp ⟨inside, free⟩).1).2

theorem exclude_exact_iff (range : AddrRange) (excluded : List AddrRange) (plain : range.masks = [])
    (shape : ∀ e ∈ excluded, e.masks = [] ∧ e.valid = true) :
    (∃ parts, range.exclude excluded = .ok parts ∧ (∀ p ∈ parts, ∃ a, a ∈ p) ∧
      parts.Pairwise (fun p q => ∀ a ∈ p, ∀ b ∈ q, a < b) ∧
      ∀ a, (∃ p ∈ parts, a ∈ p) ↔ a ∈ range ∧ ∀ e ∈ excluded, a ∉ e) ↔
      StrayCovered range excluded := by
  have shape' : ∀ e ∈ excluded, e.masks = [] ∧ e.start ≤ e.end_ := by
    intro e listed
    exact ⟨(shape e listed).1, by simpa [AddrRange.valid] using (shape e listed).2⟩
  obtain ⟨parts, result, shaped, covers⟩ := exclude_spec plain shape'
  rw [strayCovered_iff plain fun e listed => (shape e listed).1]
  constructor
  · rintro ⟨other, same, -, -, exact⟩ a
    rw [result] at same
    cases same
    rw [← covers, exact]
  · intro same
    refine ⟨parts, result, ?_, ?_, fun a => (covers a).trans (same a)⟩
    · intro p listed
      obtain ⟨form, nonempty⟩ := shaped.shape p listed
      exact ⟨p.start, by rw [form, mem_plain]; exact ⟨BitVec.le_refl _, nonempty⟩⟩
    · apply shaped.ordered.imp
      intro p q ordered a left b right
      have upper := (inRange_of_mem left).2
      have lower := (inRange_of_mem right).1
      bv_omega

def strayMatch : AddrRange := { start := 0, end_ := 16, masks := [], intlvMatch := 5 }

/-- `contains` denies all addresses of `strayMatch`, and `exclude` returns its whole interval. -/
theorem exclude_stray_match :
    ofMasks 0 16 [] 5 = .ok strayMatch ∧ strayMatch.valid = true ∧
      strayMatch.exclude [] = .ok [AddrRange.plain 0 16] ∧ 0 ∈ AddrRange.plain 0 16 ∧
      0 ∉ strayMatch := by
  decide +kernel

/-- An overlapping, an empty and a repeated range, out of order. -/
theorem exclude_exact_overlapping :
    (∃ parts, (AddrRange.plain 0 32).exclude
        [.plain 20 24, .plain 4 4, .plain 8 22, .plain 20 24] = .ok parts ∧
      (∀ p ∈ parts, ∃ a, a ∈ p) ∧
      parts.Pairwise (fun p q => ∀ a ∈ p, ∀ b ∈ q, a < b) ∧
      ∀ a, (∃ p ∈ parts, a ∈ p) ↔ a ∈ AddrRange.plain 0 32 ∧
        ∀ e ∈ [AddrRange.plain 20 24, .plain 4 4, .plain 8 22, .plain 20 24], a ∉ e) ↔
      StrayCovered (AddrRange.plain 0 32)
        [.plain 20 24, .plain 4 4, .plain 8 22, .plain 20 24] :=
  exclude_exact_iff (AddrRange.plain 0 32) [.plain 20 24, .plain 4 4, .plain 8 22, .plain 20 24]
    (by decide) (by decide)

end AddrRange

end Resister.Base
