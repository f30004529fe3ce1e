import Mathlib
import Resister.Base.AddrRange

/-!
# How exact the tests between ranges are

`intersects` answers for ranges of one byte by looking at their start, and `isSubset` compares end
points and a granularity.
-/

namespace Resister.Base

namespace AddrRange

variable {x r s : AddrRange} {a b : Addr}

theorem few_of_mem (member : a ∈ r) : r.masks.length ≤ 32 := (mem_iff.mp member).2.1

theorem inRange_of_mem (member : a ∈ r) : r.InRange a := (mem_iff.mp member).1

theorem contains_eq (few : r.masks.length ≤ 32) (a : Addr) :
    r.contains a = .ok (decide (a ∈ r)) := by
  by_cases inside : r.InRange a
  · rw [contains_of_inRange inside few]
    congr 1
    apply decide_eq_decide.mpr
    rw [mem_iff]
    tauto
  · rw [contains_of_not_inRange inside]
    have outside : a ∉ r := fun member => inside (inRange_of_mem member)
    simp [outside]

theorem interleaved_iff : r.interleaved = true ↔ r.masks ≠ [] := by
  simp [interleaved]

theorem matches_plain_iff (plain : r.masks = []) : r.Matches a ↔ r.intlvMatch = 0 := by
  constructor
  · intro matching
    apply BitVec.eq_of_getLsbD_eq
    intro i small
    have bit := matching i (by omega)
    rw [selector, plain] at bit
    simpa using bit.symm
  · intro zero i _
    rw [selector, plain, zero]
    simp

theorem mem_of_plain (plain : r.masks = []) (member : a ∈ r) : b ∈ r ↔ r.InRange b := by
  have zero := (matches_plain_iff plain).mp (mem_iff.mp member).2.2
  rw [mem_iff, matches_plain_iff plain, plain]
  simp [zero]

def place (r : AddrRange) : Nat := if r.interleaved then r.intlvMatch.toNat else 256

theorem lt_iff : x.lt r = true ↔ x.start.toNat < r.start.toNat ∨
    (x.start.toNat = r.start.toNat ∧ x.place < r.place) := by
  have left := x.intlvMatch.isLt
  have right := r.intlvMatch.isLt
  have starts : x.start = r.start ↔ x.start.toNat = r.start.toNat := BitVec.toNat_eq
  unfold lt place
  by_cases same : x.start = r.start
  · rw [if_neg (not_not_intro same)]
    have equal := starts.mp same
    cases first : x.interleaved <;> cases second : r.interleaved <;>
      simp [BitVec.lt_def] <;> omega
  · rw [if_pos same, decide_eq_true_iff, BitVec.lt_def]
    have differ : x.start.toNat ≠ r.start.toNat := fun equal => same (starts.mpr equal)
    omega

section Intersection

theorem toNat_start_le (inside : r.InRange a) : r.start.toNat ≤ a.toNat ∧ a.toNat < r.end_.toNat :=
  inside

theorem size_eq (few : r.masks.length ≤ 32) :
    r.size = .ok ((r.end_ - r.start) >>> r.masks.length) :=
  shr_of_lt (by omega)

theorem eq_start_of_plain (plain : r.masks = []) (single : r.size = .ok 1) (member : a ∈ r) :
    a = r.start := by
  have inside := toNat_start_le (inRange_of_mem member)
  rw [size_eq (few_of_mem member), plain] at single
  have length : r.end_ - r.start = 1 := by simpa using single
  have distance := congrArg BitVec.toNat length
  apply BitVec.eq_of_toNat_eq
  bv_omega

theorem eq_of_mergesWith (merges : x.mergesWith r = true) (left : a ∈ x) (right : a ∈ r) :
    x.intlvMatch = r.intlvMatch := by
  have masks : r.masks = x.masks := by
    simp only [mergesWith, Bool.and_eq_true, beq_iff_eq] at merges
    exact merges.2
  apply BitVec.eq_of_getLsbD_eq
  intro i small
  have first := (mem_iff.mp left).2.2 i (by omega)
  have second := (mem_iff.mp right).2.2 i (by omega)
  rw [← first, ← second, masks]

theorem eq_of_same_group (merges : x.mergesWith r = true) (same : x.intlvMatch = r.intlvMatch) :
    x = r := by
  simp only [mergesWith, Bool.and_eq_true, beq_iff_eq] at merges
  cases x
  cases r
  simp_all

theorem intersects_of_apart (apart : r.end_ ≤ x.start ∨ x.end_ ≤ r.start) :
    x.intersects r = .ok false := if_pos apart

theorem intersects_plain (left : x.masks = []) (right : r.masks = []) :
    x.intersects r = .ok (decide (¬(r.end_ ≤ x.start ∨ x.end_ ≤ r.start))) := by
  by_cases apart : r.end_ ≤ x.start ∨ x.end_ ≤ r.start
  · rw [intersects_of_apart apart, decide_eq_false (not_not_intro apart)]
  · rw [intersects, if_neg apart, if_pos (by simp [interleaved, left, right]), decide_eq_true apart]

theorem not_plain (interleaved : x.interleaved = true ∨ r.interleaved = true) :
    ¬((!x.interleaved && !r.interleaved) = true) := by
  rcases interleaved with left | right
  · simp [left]
  · simp [right]

theorem intersects_of_single (close : ¬(r.end_ ≤ x.start ∨ x.end_ ≤ r.start))
    (interleaved : x.interleaved = true ∨ r.interleaved = true) (single : r.size = .ok 1) :
    x.intersects r = x.contains r.start := by
  rw [intersects, if_neg close, if_neg (not_plain interleaved), single]
  rfl

theorem intersects_of_group (close : ¬(r.end_ ≤ x.start ∨ x.end_ ≤ r.start))
    (interleaved : x.interleaved = true ∨ r.interleaved = true) (few : r.masks.length ≤ 32)
    (several : r.size ≠ .ok 1) :
    x.intersects r = if x.mergesWith r then .ok (x.intlvMatch == r.intlvMatch)
      else .error (.panic "Cannot test intersection of %s and %s") := by
  rw [size_eq few] at several
  rw [intersects, if_neg close, if_neg (not_plain interleaved), size_eq few]
  show ite _ _ _ = _
  rw [if_neg (fun one => several (by rw [one]))]

theorem common_of_plain (left : x.masks = []) (right : r.masks = []) (first : a ∈ x) (second : b ∈ r)
    (close : ¬(r.end_ ≤ x.start ∨ x.end_ ≤ r.start)) : ∃ c, c ∈ x ∧ c ∈ r := by
  have inside := toNat_start_le (inRange_of_mem first)
  have inside' := toNat_start_le (inRange_of_mem second)
  rw [not_or] at close
  simp only [BitVec.le_def] at close
  rcases Nat.le_total x.start.toNat r.start.toNat with le | le
  · refine ⟨r.start, (mem_of_plain left first).mpr ?_, (mem_of_plain right second).mpr ?_⟩
    · exact ⟨le, by rw [BitVec.lt_def]; omega⟩
    · exact ⟨BitVec.le_refl _, by rw [BitVec.lt_def]; omega⟩
  · refine ⟨x.start, (mem_of_plain left first).mpr ?_, (mem_of_plain right second).mpr ?_⟩
    · exact ⟨BitVec.le_refl _, by rw [BitVec.lt_def]; omega⟩
    · exact ⟨le, by rw [BitVec.lt_def]; omega⟩

theorem intersects_exact (start : r.size = .ok 1 → ∀ a ∈ r, a = r.start) (first : a ∈ x) (second : b ∈ r) :
    (∃ message, x.intersects r = .error (.panic message)) ∨
      ∃ answer, x.intersects r = .ok answer ∧ (answer = true ↔ ∃ c, c ∈ x ∧ c ∈ r) := by
  by_cases close : r.end_ ≤ x.start ∨ x.end_ ≤ r.start
  · refine .inr ⟨false, intersects_of_apart close, ?_⟩
    simp only [Bool.false_eq_true, false_iff]
    rintro ⟨c, left, right⟩
    have inside := toNat_start_le (inRange_of_mem left)
    have inside' := toNat_start_le (inRange_of_mem right)
    simp only [BitVec.le_def] at close
    omega
  by_cases plain : x.masks = [] ∧ r.masks = []
  · refine .inr ⟨true, ?_, ?_⟩
    · rw [intersects_plain plain.1 plain.2, decide_eq_true close]
    · simp only [true_iff]
      exact common_of_plain plain.1 plain.2 first second close
  have interleaved : x.interleaved = true ∨ r.interleaved = true := by
    rw [interleaved_iff, interleaved_iff]
    tauto
  by_cases single : r.size = .ok 1
  · refine .inr ⟨decide (r.start ∈ x), ?_, ?_⟩
    · rw [intersects_of_single close interleaved single, contains_eq (few_of_mem first)]
    · have only := start single b second
      rw [decide_eq_true_iff]
      constructor
      · intro member
        exact ⟨r.start, member, only ▸ second⟩
      · rintro ⟨c, left, right⟩
        exact start single c right ▸ left
  have unfolded := intersects_of_group close interleaved (few_of_mem second) single
  by_cases merges : x.mergesWith r = true
  · refine .inr ⟨x.intlvMatch == r.intlvMatch, by rw [unfolded, if_pos merges], ?_⟩
    rw [beq_iff_eq]
    constructor
    · intro same
      exact ⟨a, first, eq_of_same_group merges same ▸ first⟩
    · rintro ⟨c, left, right⟩
      exact eq_of_mergesWith merges left right
  · exact .inl ⟨_, by rw [unfolded, if_neg merges]⟩

theorem mem_single (below : a.toNat + 1 < 2 ^ 64) : b ∈ plain a (a + 1) ↔ b = a := by
  rw [mem_plain]
  constructor
  · rintro ⟨lower, upper⟩
    apply BitVec.eq_of_toNat_eq
    bv_omega
  · rintro rfl
    exact ⟨BitVec.le_refl _, by bv_omega⟩

theorem succ_lt_of_mem (member : a ∈ r) : a.toNat + 1 < 2 ^ 64 := by
  have inside := toNat_start_le (inRange_of_mem member)
  have bound := r.end_.isLt
  omega

theorem intersects_single_misses (interleaved : r.masks ≠ []) (single : r.size = .ok 1)
    (member : a ∈ r) (other : a ≠ r.start) : (plain a (a + 1)).intersects r = .ok false := by
  have below := succ_lt_of_mem member
  have inside := toNat_start_le (inRange_of_mem member)
  have close : ¬(r.end_ ≤ (plain a (a + 1)).start ∨ (plain a (a + 1)).end_ ≤ r.start) := by
    simp only [plain]
    bv_omega
  rw [intersects_of_single close (.inr (interleaved_iff.mpr interleaved)) single,
    contains_eq (by simp [plain])]
  congr 1
  apply decide_eq_false
  intro hit
  exact other ((mem_single below).mp hit).symm

theorem intersects_exact_iff (r : AddrRange) (occupied : ∃ b, b ∈ r) :
    (∀ x : AddrRange, (∃ a, a ∈ x) →
      (∃ message, x.intersects r = .error (.panic message)) ∨
        ∃ answer, x.intersects r = .ok answer ∧ (answer = true ↔ ∃ c, c ∈ x ∧ c ∈ r)) ↔
      (r.masks ≠ [] → r.size = .ok 1 → ∀ b ∈ r, b = r.start) := by
  constructor
  · intro exact interleaved single b member
    by_contra other
    have missed := intersects_single_misses interleaved single member other
    have alone : b ∈ plain b (b + 1) := (mem_single (succ_lt_of_mem member)).mpr rfl
    rcases exact (plain b (b + 1)) ⟨b, alone⟩ with ⟨message, panics⟩ | ⟨answer, answered, right⟩
    · rw [missed] at panics
      cases panics
    · rw [missed] at answered
      cases answered
      exact Bool.false_ne_true (right.mpr ⟨b, alone, member⟩)
  · rintro start x ⟨a, first⟩
    obtain ⟨b, second⟩ := occupied
    refine intersects_exact ?_ first second
    intro single c member
    by_cases plain : r.masks = []
    · exact eq_start_of_plain plain single member
    · exact start plain single c member

def oddByte : AddrRange := { start := 0, end_ := 2, masks := [1], intlvMatch := 1 }

/-- `oddByte` holds address 1 only, and the test finds it to meet the range of address 0. -/
theorem intersects_odd_byte :
    ofMasks 0 2 [1] 1 = .ok oddByte ∧ 1 ∈ oddByte ∧ 0 ∈ plain 0 1 ∧
      (plain 0 1).intersects oddByte = .ok true ∧ ¬ ∃ c, c ∈ plain 0 1 ∧ c ∈ oddByte := by
  refine ⟨by decide +kernel, by decide +kernel, by decide +kernel, by decide +kernel, ?_⟩
  rintro ⟨c, left, right⟩
  have zero : c = 0 := (mem_single (a := 0) (by decide)).mp left
  subst zero
  exact absurd right (by decide +kernel)

theorem intersects_exact_two_bytes :
    (∀ x : AddrRange, (∃ a, a ∈ x) →
      (∃ message, x.intersects (plain 4 6) = .error (.panic message)) ∨
        ∃ answer, x.intersects (plain 4 6) = .ok answer ∧
          (answer = true ↔ ∃ c, c ∈ x ∧ c ∈ plain 4 6)) ↔
      ((plain 4 6).masks ≠ [] → (plain 4 6).size = .ok 1 → ∀ b ∈ plain 4 6, b = (plain 4 6).start) :=
  intersects_exact_iff (plain 4 6) ⟨4, by decide +kernel⟩

end Intersection

section Subset

def LowestBit (masks : List Addr) (g : Nat) : Prop :=
  (∃ mask ∈ masks, mask.getLsbD g = true) ∧ ∀ mask ∈ masks, ∀ j < g, mask.getLsbD j = false

theorem getLsbD_combinedMask (masks : List Addr) {k : Nat} (small : k < 32) :
    (combinedMask masks).getLsbD k = masks.any (·.getLsbD k) := by
  suffices general : ∀ combined : BitVec 32,
      (masks.foldl (fun combined mask => (combined.signExtend 64 ||| mask).setWidth 32)
        combined).getLsbD k = (combined.getLsbD k || masks.any (·.getLsbD k)) by
    simpa [combinedMask] using general 0
  induction masks with
  | nil => simp
  | cons mask rest ih =>
    intro combined
    have inside : k < 64 := by omega
    rw [List.foldl_cons, ih, BitVec.getLsbD_setWidth, BitVec.getLsbD_or, BitVec.getLsbD_signExtend]
    simp [small, inside, Bool.or_assoc]

theorem getLsbD_wide (masks : List Addr) {k : Nat} (small : k < 32) :
    ((combinedMask masks).signExtend 64).getLsbD k = masks.any (·.getLsbD k) := by
  have inside : k < 64 := by omega
  rw [BitVec.getLsbD_signExtend, ← getLsbD_combinedMask masks small]
  simp [small, inside]

theorem granularity_eq {g : Nat} (lowest : LowestBit r.masks g) (small : g < 32) :
    r.granularity = .ok (1#64 <<< g) := by
  obtain ⟨⟨mask, listed, set⟩, lower⟩ := lowest
  have trailing : ctz64 ((combinedMask r.masks).signExtend 64) = g := by
    apply ctz64_eq
    · rw [getLsbD_wide _ small, List.any_eq_true]
      exact ⟨mask, listed, set⟩
    · intro j below
      rw [getLsbD_wide _ (by omega), List.any_eq_false]
      intro other member
      simp [lower other member j below]
  have interleaved : r.interleaved = true := by
    rw [interleaved_iff]
    exact List.ne_nil_of_mem listed
  rw [granularity, if_pos interleaved, trailing, shl_of_lt (by omega)]

theorem granularity_undefined (interleaved : r.masks ≠ [])
    (high : ∀ mask ∈ r.masks, ∀ k < 32, mask.getLsbD k = false) :
    r.granularity = .error .undefinedShift := by
  have zero : combinedMask r.masks = 0 := by
    apply BitVec.eq_of_getLsbD_eq
    intro k small
    rw [getLsbD_combinedMask _ small, show (0 : BitVec 32).getLsbD k = false by simp,
      List.any_eq_false]
    intro mask member
    simp [high mask member k small]
  have trailing : ctz64 ((0 : BitVec 32).signExtend 64) = 64 := by decide
  rw [granularity, if_pos (interleaved_iff.mpr interleaved), zero, trailing, shl_of_le (by omega)]

theorem lowestBit_or_high (masks : List Addr) :
    (∃ g < 32, LowestBit masks g) ∨ ∀ mask ∈ masks, ∀ k < 32, mask.getLsbD k = false := by
  by_cases low : ∃ k, k < 32 ∧ ∃ mask ∈ masks, mask.getLsbD k = true
  · refine .inl ⟨Nat.find low, (Nat.find_spec low).1, (Nat.find_spec low).2, ?_⟩
    intro mask member j below
    have smaller := Nat.find_min low below
    have bound := (Nat.find_spec low).1
    by_contra set
    exact smaller ⟨by omega, mask, member, by simpa using set⟩
  · refine .inr ?_
    intro mask member k small
    by_contra set
    exact low ⟨k, small, mask, member, by simpa using set⟩

theorem matches_of_same_granule {g : Nat} (lower : ∀ mask ∈ r.masks, ∀ j < g, mask.getLsbD j = false)
    (same : a.toNat / 2 ^ g = b.toNat / 2 ^ g) : r.Matches a ↔ r.Matches b := by
  have bits : ∀ k, g ≤ k → a.getLsbD k = b.getLsbD k := by
    intro k high
    obtain ⟨d, rfl⟩ : ∃ d, k = d + g := ⟨k - g, by omega⟩
    have shifted := congrArg (·.testBit d) same
    simpa [Nat.testBit_div_two_pow, BitVec.getLsbD] using shifted
  have selected : ∀ i, selector r.masks a i = selector r.masks b i := by
    intro i
    unfold selector
    cases found : r.masks[i]? with
    | none => rfl
    | some mask =>
      have picked : a &&& mask = b &&& mask := by
        apply BitVec.eq_of_getLsbD_eq
        intro k _
        rw [BitVec.getLsbD_and, BitVec.getLsbD_and]
        by_cases low : k < g
        · simp [lower mask (List.mem_of_getElem? found) k low]
        · rw [bits k (by omega)]
      simp [odd, picked]
  simp [Matches, selected]

/-- What a range has to be like for `isSubset` to decide every range without masks. One with masks
has a mask bit among the lowest 32 and no run of addresses that is longer than a granule. -/
def DecidesSubsets (r : AddrRange) : Prop :=
  r.start < r.end_ →
    (r.masks = [] → r.intlvMatch = 0) ∧ r.masks.length ≤ 32 ∧
      (r.masks ≠ [] → (∃ a, a ∈ r) →
        ∃ g < 32, LowestBit r.masks g ∧ ∀ a : Addr, ∃ k ≤ 2 ^ g, a + BitVec.ofNat 64 k ∉ r)

theorem isSubset_plain (left : s.masks = []) (right : r.masks = []) :
    s.isSubset r = .ok (decide (r.start ≤ s.start ∧ s.end_ ≤ r.end_)) := by
  simp [isSubset, interleaved, left, right]

theorem isSubset_interleaved (left : s.masks = []) (right : r.masks ≠ []) :
    s.isSubset r = andThen (r.contains s.start) (andThen (r.contains (s.end_ - 1)) do
      let granularity ← r.granularity
      .ok (decide (s.end_ - s.start ≤ granularity))) := by
  have size : s.size = .ok (s.end_ - s.start) := by
    rw [size_eq (by simp [left]), left]
    simp
  rw [isSubset, size, if_neg (by simp [interleaved, left]), if_pos (interleaved_iff.mpr right)]
  rfl

theorem ends_mem (plain : s.masks = []) (member : a ∈ s) :
    s.start ∈ s ∧ s.end_ - 1 ∈ s ∧ (s.end_ - 1).toNat = s.end_.toNat - 1 := by
  have inside := toNat_start_le (inRange_of_mem member)
  have last : (s.end_ - 1).toNat = s.end_.toNat - 1 := by bv_omega
  refine ⟨(mem_of_plain plain member).mpr ?_, (mem_of_plain plain member).mpr ?_, last⟩
  · exact ⟨BitVec.le_refl _, by rw [BitVec.lt_def]; omega⟩
  · refine ⟨?_, ?_⟩
    · rw [BitVec.le_def, last]
      omega
    · rw [BitVec.lt_def, last]
      omega

theorem mem_between {g : Nat} {c : Addr} (lower : ∀ mask ∈ r.masks, ∀ j < g, mask.getLsbD j = false)
    (first : a ∈ r) (last : b ∈ r) (close : b.toNat < a.toNat + 2 ^ g)
    (after : a.toNat ≤ c.toNat) (before : c.toNat ≤ b.toNat) : c ∈ r := by
  have left := toNat_start_le (inRange_of_mem first)
  have right := toNat_start_le (inRange_of_mem last)
  have positive : 0 < 2 ^ g := Nat.two_pow_pos g
  have granules : c.toNat / 2 ^ g = a.toNat / 2 ^ g ∨ c.toNat / 2 ^ g = b.toNat / 2 ^ g := by
    have fromFirst : a.toNat / 2 ^ g ≤ c.toNat / 2 ^ g := Nat.div_le_div_right after
    have toLast : c.toNat / 2 ^ g ≤ b.toNat / 2 ^ g := Nat.div_le_div_right before
    have next : b.toNat / 2 ^ g ≤ a.toNat / 2 ^ g + 1 := by
      rw [← Nat.add_div_right _ positive]
      exact Nat.div_le_div_right close.le
    omega
  rw [mem_iff]
  refine ⟨⟨by rw [BitVec.le_def]; omega, by rw [BitVec.lt_def]; omega⟩, few_of_mem first, ?_⟩
  rcases granules with same | same
  · exact (matches_of_same_granule lower same).mpr (mem_iff.mp first).2.2
  · exact (matches_of_same_granule lower same).mpr (mem_iff.mp last).2.2

theorem isSubset_exact_plain (left : s.masks = []) (right : r.masks = []) (member : a ∈ s)
    (zero : r.start < r.end_ → r.intlvMatch = 0) :
    ∃ answer, s.isSubset r = .ok answer ∧ (answer = true ↔ ∀ c ∈ s, c ∈ r) := by
  refine ⟨_, isSubset_plain left right, ?_⟩
  obtain ⟨start, last, value⟩ := ends_mem left member
  have inside := toNat_start_le (inRange_of_mem start)
  rw [decide_eq_true_iff]
  constructor
  · rintro ⟨lower, upper⟩ c within
    have spans := toNat_start_le (inRange_of_mem within)
    rw [BitVec.le_def] at lower upper
    have nonempty : r.start < r.end_ := by rw [BitVec.lt_def]; omega
    rw [mem_iff, matches_plain_iff right, right]
    refine ⟨⟨?_, ?_⟩, by simp, zero nonempty⟩
    · rw [BitVec.le_def]
      omega
    · rw [BitVec.lt_def]
      omega
  · intro all
    have lower := toNat_start_le (inRange_of_mem (all _ start))
    have upper := toNat_start_le (inRange_of_mem (all _ last))
    rw [BitVec.le_def, BitVec.le_def]
    omega

theorem isSubset_exact_interleaved (left : s.masks = []) (right : r.masks ≠ []) (member : a ∈ s)
    (few : r.masks.length ≤ 32) (granules : (∃ a, a ∈ r) →
      ∃ g < 32, LowestBit r.masks g ∧ ∀ a : Addr, ∃ k ≤ 2 ^ g, a + BitVec.ofNat 64 k ∉ r) :
    ∃ answer, s.isSubset r = .ok answer ∧ (answer = true ↔ ∀ c ∈ s, c ∈ r) := by
  obtain ⟨start, last, value⟩ := ends_mem left member
  rw [isSubset_interleaved left right, contains_eq few, contains_eq few]
  by_cases first : s.start ∈ r
  swap
  · refine ⟨false, by rw [decide_eq_false first, andThen_false], ?_⟩
    simp only [Bool.false_eq_true, false_iff]
    exact fun all => first (all _ start)
  by_cases final : s.end_ - 1 ∈ r
  swap
  · refine ⟨false, ?_, ?_⟩
    · rw [decide_eq_true first, andThen_true, decide_eq_false final, andThen_false]
    · simp only [Bool.false_eq_true, false_iff]
      exact fun all => final (all _ last)
  obtain ⟨g, small, lowest, runs⟩ := granules ⟨_, first⟩
  refine ⟨decide (s.end_ - s.start ≤ 1#64 <<< g), ?_, ?_⟩
  · rw [decide_eq_true first, andThen_true, decide_eq_true final, andThen_true,
      granularity_eq lowest small]
    rfl
  have inside := toNat_start_le (inRange_of_mem start)
  have power : (1#64 <<< g).toNat = 2 ^ g := by
    have bound : 2 ^ g < 2 ^ 64 := Nat.pow_lt_pow_right (by decide) (by omega)
    rw [BitVec.toNat_shiftLeft, Nat.shiftLeft_eq, BitVec.toNat_ofNat]
    omega
  have length : (s.end_ - s.start).toNat = s.end_.toNat - s.start.toNat := by bv_omega
  rw [decide_eq_true_iff, BitVec.le_def, power, length]
  constructor
  · intro fits c within
    have spans := toNat_start_le (inRange_of_mem within)
    exact mem_between lowest.2 first final (by omega) spans.1 (by omega)
  · intro all
    by_contra long
    obtain ⟨k, bound, outside⟩ := runs s.start
    have position : (s.start + BitVec.ofNat 64 k).toNat = s.start.toNat + k := by
      have limit := s.end_.isLt
      rw [BitVec.toNat_add, BitVec.toNat_ofNat]
      omega
    apply outside
    apply all
    rw [mem_of_plain left start]
    refine ⟨?_, ?_⟩
    · rw [BitVec.le_def, position]
      omega
    · rw [BitVec.lt_def, position]
      omega

theorem isSubset_single (interleaved : r.masks ≠ []) (member : a ∈ r) :
    (plain a (a + 1)).isSubset r =
      r.granularity >>= fun granularity => .ok (decide (1 ≤ granularity)) := by
  have last : (plain a (a + 1)).end_ - 1 = a := by simp [plain]
  have length : (plain a (a + 1)).end_ - (plain a (a + 1)).start = 1 := by simp [plain]
  rw [isSubset_interleaved rfl interleaved, last, length, show (plain a (a + 1)).start = a from rfl,
    mem_def.mp member, andThen_true, andThen_true]

theorem isSubset_run {g : Nat} (lowest : LowestBit r.masks g) (small : g < 32)
    (run : ∀ k ≤ 2 ^ g, a + BitVec.ofNat 64 k ∈ r) :
    ∃ s : AddrRange, s.masks = [] ∧ a ∈ s ∧ s.isSubset r = .ok false ∧ ∀ c ∈ s, c ∈ r := by
  have power : 2 ^ g < 2 ^ 32 := Nat.pow_lt_pow_right (by decide) small
  have positive : 0 < 2 ^ g := Nat.two_pow_pos g
  -- The range never holds the largest address, so the run does not wrap around.
  have fits : a.toNat + 2 ^ g + 1 < 2 ^ 64 := by
    by_contra wraps
    have bound := a.isLt
    have edge := succ_lt_of_mem (run (2 ^ 64 - 1 - a.toNat) (by omega))
    rw [BitVec.toNat_add, BitVec.toNat_ofNat] at edge
    omega
  have positions : ∀ k ≤ 2 ^ g + 1, (a + BitVec.ofNat 64 k).toNat = a.toNat + k := by
    intro k bound
    rw [BitVec.toNat_add, BitVec.toNat_ofNat]
    omega
  have interleaved : r.masks ≠ [] := List.ne_nil_of_mem lowest.1.choose_spec.1
  have first : a ∈ r := by simpa using run 0 (by omega)
  have top := positions (2 ^ g + 1) le_rfl
  have members : ∀ c, c ∈ plain a (a + BitVec.ofNat 64 (2 ^ g + 1)) ↔
      a.toNat ≤ c.toNat ∧ c.toNat < a.toNat + (2 ^ g + 1) := by
    intro c
    rw [mem_plain, BitVec.le_def, BitVec.lt_def, top]
  refine ⟨plain a (a + BitVec.ofNat 64 (2 ^ g + 1)), rfl, (members a).mpr (by omega), ?_, ?_⟩
  · have last : (plain a (a + BitVec.ofNat 64 (2 ^ g + 1))).end_ - 1 ∈ r := by
      have same : (plain a (a + BitVec.ofNat 64 (2 ^ g + 1))).end_ - 1 =
          a + BitVec.ofNat 64 (2 ^ g) := by
        have final := positions (2 ^ g) (by omega)
        apply BitVec.eq_of_toNat_eq
        simp only [plain]
        bv_omega
      rw [same]
      exact run _ le_rfl
    rw [isSubset_interleaved rfl interleaved, show (plain a _).start = a from rfl,
      mem_def.mp first, andThen_true, mem_def.mp last, andThen_true, granularity_eq lowest small]
    show Except.ok _ = _
    congr 1
    apply decide_eq_false
    have shifted : (1#64 <<< g).toNat = 2 ^ g := by
      rw [BitVec.toNat_shiftLeft, Nat.shiftLeft_eq, BitVec.toNat_ofNat]
      omega
    have length : ((plain a (a + BitVec.ofNat 64 (2 ^ g + 1))).end_ - a).toNat = 2 ^ g + 1 := by
      simp only [plain]
      bv_omega
    rw [BitVec.le_def, shifted, length]
    omega
  · intro c within
    have bounds := (members c).mp within
    have step : a + BitVec.ofNat 64 (c.toNat - a.toNat) = c := by
      apply BitVec.eq_of_toNat_eq
      rw [positions _ (by omega)]
      omega
    rw [← step]
    exact run _ (by omega)

theorem isSubset_exact_iff (r : AddrRange) :
    (∀ s : AddrRange, s.masks = [] → (∃ a, a ∈ s) →
      ∃ answer, s.isSubset r = .ok answer ∧ (answer = true ↔ ∀ c ∈ s, c ∈ r)) ↔
      r.DecidesSubsets := by
  constructor
  · intro exact nonempty
    have inside : r.InRange r.start := ⟨BitVec.le_refl _, nonempty⟩
    have below : r.start.toNat + 1 < 2 ^ 64 := by
      have bound := r.end_.isLt
      rw [BitVec.lt_def] at nonempty
      omega
    have alone : r.start ∈ plain r.start (r.start + 1) := (mem_single below).mpr rfl
    obtain ⟨answer, answered, right⟩ := exact (plain r.start (r.start + 1)) rfl ⟨_, alone⟩
    refine ⟨?_, ?_, ?_⟩
    · intro masks
      have within : r.start ≤ r.start ∧ r.start + 1 ≤ r.end_ := by
        rw [BitVec.lt_def] at nonempty
        exact ⟨BitVec.le_refl _, by bv_omega⟩
      rw [isSubset_plain rfl masks] at answered
      have accepted : answer = true := by
        rw [← Except.ok.inj answered]
        exact decide_eq_true within
      exact (matches_plain_iff masks).mp (mem_iff.mp (right.mp accepted _ alone)).2.2
    · by_contra many
      have masks : r.masks ≠ [] := by
        intro empty
        simp [empty] at many
      rw [isSubset_interleaved rfl masks, show (plain r.start _).start = r.start from rfl,
        contains_undefined inside (by omega), andThen_error] at answered
      cases answered
    · rintro masks ⟨a, member⟩
      have single : a ∈ plain a (a + 1) := (mem_single (succ_lt_of_mem member)).mpr rfl
      rcases lowestBit_or_high r.masks with ⟨g, small, lowest⟩ | high
      · refine ⟨g, small, lowest, ?_⟩
        intro first
        by_contra run
        push Not at run
        obtain ⟨s, empty, listed, refused, all⟩ := isSubset_run lowest small run
        obtain ⟨verdict, given, correct⟩ := exact s empty ⟨first, listed⟩
        rw [refused] at given
        cases given
        exact Bool.false_ne_true (correct.mpr all)
      · obtain ⟨verdict, given, -⟩ := exact (plain a (a + 1)) rfl ⟨a, single⟩
        rw [isSubset_single masks member, granularity_undefined masks high] at given
        cases given
  · rintro decides s plain ⟨a, member⟩
    by_cases masks : r.masks = []
    · exact isSubset_exact_plain plain masks member fun nonempty => (decides nonempty).1 masks
    by_cases nonempty : r.start < r.end_
    · obtain ⟨-, few, granules⟩ := decides nonempty
      exact isSubset_exact_interleaved plain masks member few (granules masks)
    · have vacant : ∀ c, ¬ r.InRange c := by
        intro c inside
        have spans := toNat_start_le inside
        rw [BitVec.lt_def] at nonempty
        omega
      refine ⟨false, ?_, ?_⟩
      · rw [isSubset_interleaved plain masks, contains_of_not_inRange (vacant _), andThen_false]
      · simp only [Bool.false_eq_true, false_iff]
        exact fun all => vacant a (inRange_of_mem (all a member))

/-- Eight bytes of which one mask bit above the lowest 32 selects those below four gigabytes. -/
def highMask : AddrRange :=
  { start := 0, end_ := 8, masks := [0x100000000], intlvMatch := 0 }

/-- Neighbouring granules agree under this mask: the addresses 1 and 2 both have selector bit 1. -/
def agreeing : AddrRange := { start := 0, end_ := 4, masks := [3], intlvMatch := 1 }

/-- The range of the addresses 1 and 2 lies in `agreeing` and does not pass the test; that of
address 0 lies in `highMask`, for which the test has no value. -/
theorem isSubset_inexact :
    ofMasks 0 4 [3] 1 = .ok agreeing ∧ (plain 1 3).isSubset agreeing = .ok false ∧
      1 ∈ plain 1 3 ∧ (∀ c ∈ plain 1 3, c ∈ agreeing) ∧
      ofMasks 0 8 [0x100000000] 0 = .ok highMask ∧
      (plain 0 1).isSubset highMask = .error .undefinedShift ∧
      0 ∈ plain 0 1 ∧ ∀ c ∈ plain 0 1, c ∈ highMask := by
  refine ⟨by decide +kernel, by decide +kernel, by decide +kernel, ?_, by decide +kernel,
    by decide +kernel, by decide +kernel, ?_⟩
  · intro c within
    rw [mem_plain] at within
    have cases : c = 1 ∨ c = 2 := by bv_omega
    rcases cases with rfl | rfl
    · decide +kernel
    · decide +kernel
  · intro c within
    have zero : c = 0 := (mem_single (a := 0) (by decide)).mp within
    subst zero
    decide +kernel

end Subset

end AddrRange

end Resister.Base
