import Mathlib
import Resister.Base.RangeTests
import Resister.Library.OrderedMap

/-!
# Address range maps

`AddrRangeMap` of `base/addr_range_map.hh` without a cache (`max_cache_size` is 0, so the list of
cached iterators is always empty).
-/

namespace Resister.Base

open Resister.Library List

structure AddrRangeMap (V : Type) where
  tree : List (AddrRange × V) := []
  deriving DecidableEq, Repr

namespace AddrRangeMap

variable {V : Type} (m : AddrRangeMap V)

def backward (cond : AddrRange → Except Stop Bool) :
    List (AddrRange × V) → Except Stop (Option (AddrRange × V))
  | [] => .ok none
  | [i] => do
    if ← cond i.1 then .ok (some i) else .ok none
  | i :: next :: rest => do
    if ← cond i.1 then .ok (some i)
    else if next.1.mergesWith i.1 then backward cond (next :: rest)
    else .ok none

def find (r : AddrRange) (cond : AddrRange → Except Stop Bool) :
    Except Stop (Option (AddrRange × V)) :=
  let previous := (OrderedMap.upTo AddrRange.lt r m.tree).reverse
  match OrderedMap.above AddrRange.lt r m.tree with
  | [] => backward cond previous
  | next :: _ => do
    if ← cond next.1 then .ok (some next) else backward cond previous

/-- `contains(const AddrRange &)`. -/
def containsRange (r : AddrRange) : Except Stop (Option (AddrRange × V)) :=
  m.find r fun r1 => r.isSubset r1

def contains (a : Addr) : Except Stop (Option (AddrRange × V)) :=
  m.containsRange (AddrRange.plain a (a + 1))

def intersects (r : AddrRange) : Except Stop (Option (AddrRange × V)) :=
  m.find r fun r1 => r.intersects r1

/-- The map after the call and the iterator that is returned. The insertion into the tree points to
the entry that has the key, be it the new one or one that was there. -/
def insert (r : AddrRange) (d : V) : Except Stop (AddrRangeMap V × Option (AddrRange × V)) := do
  match ← m.intersects r with
  | some _ => .ok (m, none)
  | none =>
    let tree := OrderedMap.insert AddrRange.lt (r, d) m.tree
    .ok ({ tree }, tree.find? fun e => !e.1.lt r && !r.lt e.1)

/-- `erase(p, q)` for iterators at these positions; `erase(p)` is that of one position. -/
def erase (p q : Nat) : AddrRangeMap V := { tree := m.tree.take p ++ m.tree.drop q }

def clear (_m : AddrRangeMap V) : AddrRangeMap V := { tree := [] }

end AddrRangeMap

namespace AddrRange

variable {x y r : AddrRange} {a : Addr}

theorem lt_order : OrderedMap.StrictOrder AddrRange.lt where
  irrefl x := by
    rw [Bool.eq_false_iff, Ne, lt_iff]
    omega
  trans := by
    intro x y z first second
    rw [lt_iff] at first second ⊢
    omega

def Apart (x r : AddrRange) : Prop := r.end_ ≤ x.start ∨ x.end_ ≤ r.start

theorem not_apart_iff : ¬ x.Apart r ↔ x.start.toNat < r.end_.toNat ∧ r.start.toNat < x.end_.toNat := by
  rw [Apart, not_or, BitVec.le_def, BitVec.le_def]
  omega

theorem not_apart_of_mem (left : a ∈ x) (right : a ∈ r) : ¬ x.Apart r := by
  have inside := toNat_start_le (inRange_of_mem left)
  have inside' := toNat_start_le (inRange_of_mem right)
  rw [not_apart_iff]
  omega

theorem mergesWith_iff : x.mergesWith r = true ↔ r.start = x.start ∧ r.end_ = x.end_ ∧ r.masks = x.masks := by
  simp only [mergesWith, Bool.and_eq_true, beq_iff_eq, and_assoc]

theorem mergesWith_symm (merges : x.mergesWith r = true) : r.mergesWith x = true := by
  rw [mergesWith_iff] at merges ⊢
  exact ⟨merges.1.symm, merges.2.1.symm, merges.2.2.symm⟩

theorem mergesWith_trans (first : x.mergesWith y = true) (second : y.mergesWith r = true) :
    x.mergesWith r = true := by
  rw [mergesWith_iff] at first second ⊢
  exact ⟨second.1.trans first.1, second.2.1.trans first.2.1, second.2.2.trans first.2.2⟩

/-- A range that is not empty and, if it is a stripe, has more than one byte. -/
structure Storable (r : AddrRange) : Prop where
  occupied : ∃ a, a ∈ r
  wide : r.masks ≠ [] → ∃ size, r.size = .ok size ∧ 1 < size

def HasGranularity (r : AddrRange) : Prop := r.masks ≠ [] → ∃ g < 32, LowestBit r.masks g

namespace Storable

theorem few (storable : r.Storable) : r.masks.length ≤ 32 :=
  few_of_mem storable.occupied.choose_spec

theorem start_lt (storable : r.Storable) : r.start.toNat < r.end_.toNat := by
  obtain ⟨a, member⟩ := storable.occupied
  have inside := toNat_start_le (inRange_of_mem member)
  omega

theorem plain_of_single (storable : r.Storable) (single : r.size = .ok 1) : r.masks = [] := by
  by_contra masks
  obtain ⟨size, sized, wide⟩ := storable.wide masks
  rw [single] at sized
  cases sized
  exact absurd wide (by decide)

theorem end_of_single (storable : r.Storable) (single : r.size = .ok 1) :
    r.end_.toNat = r.start.toNat + 1 := by
  have start := storable.start_lt
  have masks := storable.plain_of_single single
  rw [size_eq storable.few, masks] at single
  have length : r.end_ - r.start = 1 := by simpa using single
  have distance := congrArg BitVec.toNat length
  bv_omega

theorem intersects_exact (left : x.Storable) (right : r.Storable) {answer : Bool}
    (answered : x.intersects r = .ok answer) : answer = true ↔ ∃ c, c ∈ x ∧ c ∈ r := by
  obtain ⟨a, first⟩ := left.occupied
  obtain ⟨b, second⟩ := right.occupied
  have only : r.size = .ok 1 → ∀ c ∈ r, c = r.start := fun single c member =>
    eq_start_of_plain (right.plain_of_single single) single member
  rcases AddrRange.intersects_exact only first second with ⟨message, panics⟩ | ⟨exact, given, same⟩
  · rw [answered] at panics
    cases panics
  · rw [answered] at given
    cases given
    exact same

theorem mergesWith_of_intersects (right : r.Storable) (close : ¬ x.Apart r)
    (clear : x.masks ≠ [] → r.size = .ok 1 → ¬ x.InRange r.start)
    (answered : x.intersects r = .ok false) : x.mergesWith r = true := by
  by_cases plain : x.masks = [] ∧ r.masks = []
  · have meets : ¬(r.end_ ≤ x.start ∨ x.end_ ≤ r.start) := close
    rw [intersects_plain plain.1 plain.2, decide_eq_true meets] at answered
    cases answered
  have interleaved : x.interleaved = true ∨ r.interleaved = true := by
    rw [interleaved_iff, interleaved_iff]
    tauto
  by_cases single : r.size = .ok 1
  · have masks : x.masks ≠ [] := fun none => plain ⟨none, right.plain_of_single single⟩
    refine absurd ?_ (clear masks single)
    have bounds := not_apart_iff.mp close
    have length := right.end_of_single single
    rw [InRange, BitVec.le_def, BitVec.lt_def]
    omega
  · by_contra differ
    rw [intersects_of_group close interleaved right.few single, if_neg differ] at answered
    cases answered

theorem intersects_self (storable : r.Storable) {answer : Bool}
    (answered : r.intersects r = .ok answer) : answer = true := by
  obtain ⟨a, member⟩ := storable.occupied
  exact (storable.intersects_exact storable answered).mpr ⟨a, member, member⟩

theorem isSubset_single (storable : r.Storable) (granularity : r.HasGranularity)
    (below : a.toNat + 1 < 2 ^ 64) : (plain a (a + 1)).isSubset r = .ok (decide (a ∈ r)) := by
  obtain ⟨b, occupied⟩ := storable.occupied
  by_cases masks : r.masks = []
  · rw [isSubset_plain rfl masks]
    congr 1
    apply decide_eq_decide.mpr
    rw [mem_of_plain masks occupied, InRange]
    simp only [plain]
    bv_omega
  · by_cases member : a ∈ r
    · obtain ⟨g, small, lowest⟩ := granularity masks
      rw [AddrRange.isSubset_single masks member, granularity_eq lowest small, decide_eq_true member]
      show Except.ok _ = _
      congr 1
      apply decide_eq_true
      have bound : 2 ^ g < 2 ^ 64 := Nat.pow_lt_pow_right (by decide) (by omega)
      have positive : 0 < 2 ^ g := Nat.two_pow_pos g
      rw [BitVec.le_def, BitVec.toNat_shiftLeft, Nat.shiftLeft_eq]
      simp only [BitVec.ofNat_eq_ofNat, BitVec.toNat_ofNat]
      omega
    · rw [isSubset_interleaved rfl masks, show (plain a (a + 1)).start = a from rfl,
        contains_eq storable.few, decide_eq_false member, andThen_false]

end Storable

end AddrRange

namespace AddrRangeMap

variable {V : Type} {m : AddrRangeMap V} {r : AddrRange} {cond : AddrRange → Except Stop Bool}
  {a : Addr} {e x y : AddrRange × V}

section Searches

variable {entries : List (AddrRange × V)}

theorem backward_some (found : backward cond entries = .ok (some e)) : e ∈ entries ∧ cond e.1 = .ok true := by
  induction entries using backward.induct with
  | case1 => cases found
  | case2 i =>
    obtain ⟨answer, asked, rest⟩ := bind_eq_ok.mp found
    cases answer with
    | false => cases rest
    | true =>
      cases rest
      exact ⟨mem_singleton_self _, asked⟩
  | case3 i next rest ih =>
    obtain ⟨answer, asked, more⟩ := bind_eq_ok.mp found
    cases answer with
    | true =>
      cases more
      exact ⟨mem_cons_self, asked⟩
    | false =>
      rw [if_neg Bool.false_ne_true] at more
      split at more
      · obtain ⟨member, holds⟩ := ih more
        exact ⟨mem_cons_of_mem _ member, holds⟩
      · cases more

theorem backward_none_head (nothing : backward cond (e :: entries) = .ok none) : cond e.1 = .ok false := by
  cases entries with
  | nil =>
    obtain ⟨answer, asked, rest⟩ := bind_eq_ok.mp nothing
    cases answer with
    | false => exact asked
    | true => cases rest
  | cons next rest =>
    obtain ⟨answer, asked, more⟩ := bind_eq_ok.mp nothing
    cases answer with
    | false => exact asked
    | true => cases more

theorem backward_none_of_group {before after : List (AddrRange × V)}
    (nothing : backward cond (before ++ e :: after) = .ok none)
    (group : ∀ x ∈ before, x.1.mergesWith e.1 = true) : cond e.1 = .ok false := by
  induction before with
  | nil => exact backward_none_head nothing
  | cons x before ih =>
    have group' : ∀ y ∈ before, y.1.mergesWith e.1 = true :=
      fun y member => group y (mem_cons_of_mem _ member)
    obtain ⟨next, rest, shape, merges⟩ : ∃ next rest, before ++ e :: after = next :: rest ∧
        next.1.mergesWith x.1 = true := by
      cases before with
      | nil => exact ⟨e, after, rfl, AddrRange.mergesWith_symm (group x mem_cons_self)⟩
      | cons y before =>
        exact ⟨y, before ++ e :: after, rfl, AddrRange.mergesWith_trans (group' y mem_cons_self)
          (AddrRange.mergesWith_symm (group x mem_cons_self))⟩
    rw [cons_append, shape] at nothing
    have refused := backward_none_head nothing
    rw [backward, refused] at nothing
    rw [shape] at ih
    apply ih _ group'
    simpa [bind, Except.bind, merges] using nothing

theorem backward_total (total : ∀ e ∈ entries, ∃ answer, cond e.1 = .ok answer) :
    ∃ result, backward cond entries = .ok result := by
  induction entries using backward.induct with
  | case1 => exact ⟨none, rfl⟩
  | case2 i =>
    obtain ⟨answer, asked⟩ := total i (mem_singleton_self _)
    rw [backward, asked]
    cases answer <;> exact ⟨_, rfl⟩
  | case3 i next rest ih =>
    obtain ⟨answer, asked⟩ := total i mem_cons_self
    rw [backward, asked]
    cases answer with
    | true => exact ⟨_, rfl⟩
    | false =>
      show ∃ result, ite _ _ _ = _
      split
      · exact ih fun e member => total e (mem_cons_of_mem _ member)
      · exact ⟨_, rfl⟩

theorem find_some (found : m.find r cond = .ok (some e)) : e ∈ m.tree ∧ cond e.1 = .ok true := by
  have previous : ∀ {e}, backward cond (OrderedMap.upTo AddrRange.lt r m.tree).reverse = .ok (some e) →
      e ∈ m.tree ∧ cond e.1 = .ok true := by
    intro e reached
    obtain ⟨member, holds⟩ := backward_some reached
    exact ⟨(takeWhile_sublist _).subset (mem_reverse.mp member), holds⟩
  unfold find at found
  dsimp only at found
  split at found
  · exact previous found
  next next rest above =>
    obtain ⟨answer, asked, more⟩ := bind_eq_ok.mp found
    cases answer with
    | false => exact previous more
    | true =>
      cases more
      have listed : e ∈ OrderedMap.above AddrRange.lt r m.tree := by simp [above]
      exact ⟨(dropWhile_sublist _).subset listed, asked⟩

theorem find_none (nothing : m.find r cond = .ok none) :
    (∀ next rest, OrderedMap.above AddrRange.lt r m.tree = next :: rest → cond next.1 = .ok false) ∧
      backward cond (OrderedMap.upTo AddrRange.lt r m.tree).reverse = .ok none := by
  unfold find at nothing
  dsimp only at nothing
  split at nothing
  next above =>
    refine ⟨?_, nothing⟩
    intro next rest shape
    rw [above] at shape
    cases shape
  next next rest above =>
    obtain ⟨answer, asked, more⟩ := bind_eq_ok.mp nothing
    cases answer with
    | true => cases more
    | false =>
      refine ⟨?_, more⟩
      intro other others shape
      rw [above] at shape
      cases shape
      exact asked

theorem find_total (total : ∀ e ∈ m.tree, ∃ answer, cond e.1 = .ok answer) :
    ∃ result, m.find r cond = .ok result := by
  have previous : ∃ result,
      backward cond (OrderedMap.upTo AddrRange.lt r m.tree).reverse = .ok result := by
    apply backward_total
    intro e member
    exact total e ((takeWhile_sublist _).subset (mem_reverse.mp member))
  unfold find
  dsimp only
  split
  · exact previous
  next next rest above =>
    have listed : next ∈ OrderedMap.above AddrRange.lt r m.tree := by simp [above]
    obtain ⟨answer, asked⟩ := total next ((dropWhile_sublist _).subset listed)
    rw [asked]
    cases answer with
    | true => exact ⟨_, rfl⟩
    | false => exact previous

end Searches

/-- The entries are in order, and those whose intervals meet form groups. -/
structure Sound (m : AddrRangeMap V) : Prop where
  sorted : OrderedMap.Sorted AddrRange.lt m.tree
  storable : ∀ e ∈ m.tree, e.1.Storable
  granularity : ∀ e ∈ m.tree, e.1.HasGranularity
  groups : ∀ x ∈ m.tree, ∀ y ∈ m.tree, ¬ x.1.Apart y.1 → x.1.mergesWith y.1 = true

def ClearOf (m : AddrRangeMap V) (r : AddrRange) : Prop :=
  r.masks ≠ [] → ∀ e ∈ m.tree, e.1.size = .ok 1 → ¬ r.InRange e.1.start

namespace Sound

variable (sound : Sound m)
include sound

theorem eq_of_mem (left : x ∈ m.tree) (right : y ∈ m.tree) (first : a ∈ x.1) (second : a ∈ y.1) :
    x = y := by
  have merges := sound.groups x left y right (AddrRange.not_apart_of_mem first second)
  have same := AddrRange.eq_of_same_group merges (AddrRange.eq_of_mergesWith merges first second)
  apply sound.sorted.eq_of_not_lt left right
  · rw [same]
    exact AddrRange.lt_order.irrefl _
  · rw [same]
    exact AddrRange.lt_order.irrefl _

theorem disjoint : m.tree.Pairwise fun x y => ∀ a, a ∈ x.1 → a ∉ y.1 := by
  apply sound.sorted.imp_of_mem
  intro x y left right lt a first second
  have same := sound.eq_of_mem left right first second
  rw [same, AddrRange.lt_order.irrefl] at lt
  cases lt

theorem asked_above (nothing : m.find r cond = .ok none) (member : e ∈ m.tree)
    (after : r.lt e.1 = true) (close : ¬ r.Apart e.1) :
    ∃ next ∈ m.tree, cond next.1 = .ok false ∧ ¬ r.Apart next.1 := by
  have listed := (OrderedMap.mem_above_iff AddrRange.lt_order sound.sorted).mpr ⟨member, after⟩
  obtain ⟨next, rest, shape⟩ := exists_cons_of_ne_nil (ne_nil_of_mem listed)
  have first : next ∈ OrderedMap.above AddrRange.lt r m.tree := by simp [shape]
  obtain ⟨stored, later⟩ := (OrderedMap.mem_above_iff AddrRange.lt_order sound.sorted).mp first
  refine ⟨next, stored, (find_none nothing).1 next rest shape, ?_⟩
  have order : next.1.start.toNat ≤ e.1.start.toNat := by
    rw [shape] at listed
    rcases mem_cons.mp listed with rfl | tail
    · exact le_rfl
    · have sorted : OrderedMap.Sorted AddrRange.lt (next :: rest) :=
        shape ▸ sound.sorted.sublist (dropWhile_sublist _)
      have lt := AddrRange.lt_iff.mp ((pairwise_cons.mp sorted).1 e tail)
      omega
  have nonempty := (sound.storable next stored).start_lt
  have key := AddrRange.lt_iff.mp later
  rw [AddrRange.not_apart_iff] at close ⊢
  omega

theorem asked_below (nothing : m.find r cond = .ok none)
    (occupied : r.start.toNat < r.end_.toNat) (member : e ∈ m.tree)
    (before : r.lt e.1 = false) (close : ¬ r.Apart e.1) :
    ∃ last ∈ m.tree, cond last.1 = .ok false ∧ ¬ r.Apart last.1 ∧ r.lt last.1 = false ∧
      (last = e ∨ e.1.lt last.1 = true) ∧ last.1.mergesWith e.1 = true := by
  have listed := (OrderedMap.mem_upTo_iff AddrRange.lt_order sound.sorted).mpr ⟨member, before⟩
  obtain ⟨last, rest, shape⟩ := exists_cons_of_ne_nil
    (ne_nil_of_mem (mem_reverse.mpr listed))
  have first : last ∈ OrderedMap.upTo AddrRange.lt r m.tree := by
    rw [← mem_reverse, shape]
    exact mem_cons_self
  obtain ⟨stored, later⟩ := (OrderedMap.mem_upTo_iff AddrRange.lt_order sound.sorted).mp first
  have asked : cond last.1 = .ok false := by
    have tried := (find_none nothing).2
    rw [shape] at tried
    exact backward_none_head tried
  have order : last = e ∨ e.1.lt last.1 = true := by
    have reversed := mem_reverse.mpr listed
    rw [shape] at reversed
    rcases mem_cons.mp reversed with same | tail
    · exact .inl same.symm
    · have sorted : (last :: rest).Pairwise fun x y => y.1.lt x.1 = true :=
        shape ▸ pairwise_reverse.mpr sound.sorted.upTo
      exact .inr ((pairwise_cons.mp sorted).1 e tail)
  have nonempty := (sound.storable last stored).start_lt
  have lower : e.1.start.toNat ≤ last.1.start.toNat := by
    rcases order with rfl | lt
    · exact le_rfl
    · have bound := AddrRange.lt_iff.mp lt
      omega
  have upper : last.1.start.toNat ≤ r.start.toNat := by
    rw [Bool.eq_false_iff, Ne, AddrRange.lt_iff] at later
    omega
  rw [AddrRange.not_apart_iff] at close
  have merges : last.1.mergesWith e.1 = true := by
    apply sound.groups last stored e member
    rw [AddrRange.not_apart_iff]
    omega
  refine ⟨last, stored, asked, ?_, later, order, merges⟩
  have ends := congrArg BitVec.toNat (AddrRange.mergesWith_iff.mp merges).2.1
  rw [AddrRange.not_apart_iff]
  omega

section Intersecting

variable (storable : r.Storable) (clear : m.ClearOf r) (nothing : m.intersects r = .ok none)
include storable clear nothing

theorem group_of_none (member : e ∈ m.tree) (close : ¬ r.Apart e.1) :
    r.mergesWith e.1 = true := by
  have joined : ∀ x ∈ m.tree, r.intersects x.1 = .ok false → ¬ r.Apart x.1 →
      r.mergesWith x.1 = true := by
    intro x stored answered meets
    exact (sound.storable x stored).mergesWith_of_intersects meets
      (fun masks single => clear masks x stored single) answered
  cases before : r.lt e.1 with
  | true =>
    obtain ⟨next, stored, answered, meets⟩ := sound.asked_above nothing member before close
    have merges := joined next stored answered meets
    obtain ⟨start, stop, -⟩ := AddrRange.mergesWith_iff.mp merges
    refine AddrRange.mergesWith_trans merges (sound.groups next stored e member ?_)
    rw [AddrRange.not_apart_iff] at close ⊢
    rw [start, stop]
    exact close
  | false =>
    obtain ⟨last, stored, answered, meets, -, -, merges⟩ :=
      sound.asked_below nothing storable.start_lt member before close
    exact AddrRange.mergesWith_trans (joined last stored answered meets) merges

theorem vacant_of_none (member : e ∈ m.tree) : ¬ ∃ c, c ∈ r ∧ c ∈ e.1 := by
  rintro ⟨c, left, right⟩
  have close := AddrRange.not_apart_of_mem left right
  have merges := sound.group_of_none storable clear nothing member close
  have same := AddrRange.eq_of_same_group merges (AddrRange.eq_of_mergesWith merges left right)
  have before : r.lt e.1 = false := by
    rw [← same]
    exact AddrRange.lt_order.irrefl _
  obtain ⟨last, stored, answered, -, later, order, -⟩ :=
    sound.asked_below nothing storable.start_lt member before close
  rcases order with rfl | lt
  · rw [← same] at answered
    exact absurd (storable.intersects_self answered) (by decide)
  · rw [← same, later] at lt
    cases lt

theorem fresh_of_none (member : e ∈ m.tree) : e.1.lt r = true ∨ r.lt e.1 = true := by
  by_contra equivalent
  rw [not_or, AddrRange.lt_iff, AddrRange.lt_iff] at equivalent
  have nonempty := storable.start_lt
  have nonempty' := (sound.storable e member).start_lt
  have close : ¬ r.Apart e.1 := by
    rw [AddrRange.not_apart_iff]
    omega
  have merges := sound.group_of_none storable clear nothing member close
  have masks := (AddrRange.mergesWith_iff.mp merges).2.2
  obtain ⟨a, left⟩ := storable.occupied
  obtain ⟨b, right⟩ := (sound.storable e member).occupied
  have same : r.intlvMatch = e.1.intlvMatch := by
    by_cases plain : r.masks = []
    · have zero := (AddrRange.matches_plain_iff plain).mp (AddrRange.mem_iff.mp left).2.2
      have zero' := (AddrRange.matches_plain_iff (masks.trans plain)).mp
        (AddrRange.mem_iff.mp right).2.2
      rw [zero, zero']
    · have places : r.place = e.1.place := by omega
      have left' : r.interleaved = true := AddrRange.interleaved_iff.mpr plain
      have right' : e.1.interleaved = true := by
        rw [AddrRange.interleaved_iff, masks]
        exact plain
      rw [AddrRange.place, AddrRange.place, if_pos left', if_pos right'] at places
      exact BitVec.eq_of_toNat_eq places
  have equal := AddrRange.eq_of_same_group merges same
  exact sound.vacant_of_none storable clear nothing member ⟨a, left, equal ▸ left⟩

theorem insert_of_none (d : V) (granularity : r.HasGranularity) :
    Sound { tree := OrderedMap.insert AddrRange.lt (r, d) m.tree : AddrRangeMap V } := by
  have members : ∀ e, e ∈ OrderedMap.insert AddrRange.lt (r, d) m.tree ↔ e = (r, d) ∨ e ∈ m.tree :=
    fun e => OrderedMap.mem_insert_iff fun x stored =>
      sound.fresh_of_none storable clear nothing stored
  refine ⟨sound.sorted.insert AddrRange.lt_order, ?_, ?_, ?_⟩
  · intro e member
    rcases (members e).mp member with rfl | stored
    · exact storable
    · exact sound.storable e stored
  · intro e member
    rcases (members e).mp member with rfl | stored
    · exact granularity
    · exact sound.granularity e stored
  · intro x left y right close
    rcases (members x).mp left with rfl | left'
    · rcases (members y).mp right with rfl | right'
      · exact AddrRange.mergesWith_iff.mpr ⟨rfl, rfl, rfl⟩
      · exact sound.group_of_none storable clear nothing right' close
    · rcases (members y).mp right with rfl | right'
      · apply AddrRange.mergesWith_symm
        apply sound.group_of_none storable clear nothing left'
        rw [AddrRange.not_apart_iff] at close ⊢
        exact ⟨close.2, close.1⟩
      · exact sound.groups x left' y right' close

end Intersecting

theorem reached_of_mem (member : e ∈ m.tree) (holds : a ∈ e.1)
    (nothing : m.find (AddrRange.plain a (a + 1)) cond = .ok none) : cond e.1 = .ok false := by
  have inside := AddrRange.toNat_start_le (AddrRange.inRange_of_mem holds)
  have before : (AddrRange.plain a (a + 1)).lt e.1 = false := by
    have place : e.1.place ≤ (AddrRange.plain a (a + 1)).place := by
      have byte := e.1.intlvMatch.isLt
      show e.1.place ≤ 256
      unfold AddrRange.place
      split <;> omega
    rw [Bool.eq_false_iff, Ne, AddrRange.lt_iff, show (AddrRange.plain a (a + 1)).start = a from rfl]
    omega
  have listed := (OrderedMap.mem_upTo_iff AddrRange.lt_order sound.sorted).mpr ⟨member, before⟩
  obtain ⟨later, earlier, shape⟩ := append_of_mem (mem_reverse.mpr listed)
  have tried := (find_none nothing).2
  rw [shape] at tried
  apply backward_none_of_group tried
  intro x between
  have ordered : (later ++ e :: earlier).Pairwise fun x y => y.1.lt x.1 = true :=
    shape ▸ pairwise_reverse.mpr sound.sorted.upTo
  have lt := AddrRange.lt_iff.mp
    ((pairwise_append.mp ordered).2.2 x between e mem_cons_self)
  have reversed : x ∈ (OrderedMap.upTo AddrRange.lt (AddrRange.plain a (a + 1)) m.tree).reverse := by
    rw [shape]
    exact mem_append_left _ between
  obtain ⟨stored, upTo⟩ := (OrderedMap.mem_upTo_iff AddrRange.lt_order sound.sorted).mp
    (mem_reverse.mp reversed)
  rw [Bool.eq_false_iff, Ne, AddrRange.lt_iff,
    show (AddrRange.plain a (a + 1)).start = a from rfl] at upTo
  have nonempty := (sound.storable x stored).start_lt
  apply sound.groups x stored e member
  rw [AddrRange.not_apart_iff]
  omega

theorem contains_eq (below : a.toNat + 1 < 2 ^ 64) :
    ∃ result, m.contains a = .ok result ∧ ∀ e, result = some e ↔ e ∈ m.tree ∧ a ∈ e.1 := by
  have exact : ∀ e ∈ m.tree,
      (AddrRange.plain a (a + 1)).isSubset e.1 = .ok (decide (a ∈ e.1)) := fun e member =>
    (sound.storable e member).isSubset_single (sound.granularity e member) below
  obtain ⟨result, found⟩ : ∃ result, m.contains a = .ok result :=
    find_total fun e member => ⟨_, exact e member⟩
  refine ⟨result, found, ?_⟩
  intro e
  constructor
  · rintro rfl
    obtain ⟨member, holds⟩ := find_some found
    rw [exact e member] at holds
    exact ⟨member, by simpa using holds⟩
  · rintro ⟨member, holds⟩
    cases result with
    | none =>
      have refused := sound.reached_of_mem member holds found
      rw [exact e member, decide_eq_true holds] at refused
      cases refused
    | some other =>
      obtain ⟨member', holds'⟩ := find_some found
      rw [exact other member'] at holds'
      rw [sound.eq_of_mem member member' holds (by simpa using holds')]

theorem erase (p q : Nat) (le : p ≤ q) : Sound (m.erase p q) := by
  have kept : (m.erase p q).tree.Sublist m.tree := by
    have rest : (m.tree.drop q).Sublist (m.tree.drop p) := drop_sublist_drop_left _ le
    have whole := (List.Sublist.refl (m.tree.take p)).append rest
    rwa [take_append_drop] at whole
  exact ⟨sound.sorted.sublist kept, fun e member => sound.storable e (kept.subset member),
    fun e member => sound.granularity e (kept.subset member),
    fun x left y right => sound.groups x (kept.subset left) y (kept.subset right)⟩

end Sound

theorem sound_clear (m : AddrRangeMap V) : Sound m.clear :=
  ⟨.nil, by simp [clear], by simp [clear], by simp [clear]⟩

inductive Op (V : Type) where
  | insert (r : AddrRange) (d : V)
  | erase (p q : Nat)
  | clear

def Op.apply (m : AddrRangeMap V) : Op V → Except Stop (AddrRangeMap V)
  | .insert r d => do
    let (next, _) ← m.insert r d
    .ok next
  | .erase p q => .ok (m.erase p q)
  | .clear => .ok m.clear

/-- What is inserted is in the domain of the map, and it avoids what the source does not handle: a
stripe around a byte range, and a stripe without a granularity. -/
def Op.Meets (m : AddrRangeMap V) : Op V → Prop
  | .insert r _ => r.Storable ∧ r.HasGranularity ∧ m.ClearOf r
  | .erase p q => p ≤ q ∧ q ≤ m.tree.length
  | .clear => True

/-- The maps that runs reach whose steps all meet the condition. -/
inductive Reached : AddrRangeMap V → Prop
  | start : Reached {}
  | step {m next : AddrRangeMap V} (op : Op V) :
      Reached m → op.Meets m → op.apply m = .ok next → Reached next

theorem insert_eq_ok {d : V} {result : AddrRangeMap V × Option (AddrRange × V)}
    (inserted : m.insert r d = .ok result) :
    (∃ e, m.intersects r = .ok (some e) ∧ result = (m, none)) ∨
      (m.intersects r = .ok none ∧
        result.1 = { tree := OrderedMap.insert AddrRange.lt (r, d) m.tree } ∧
        result.2 = (OrderedMap.insert AddrRange.lt (r, d) m.tree).find?
          fun e => !e.1.lt r && !r.lt e.1) := by
  obtain ⟨answer, asked, rest⟩ := bind_eq_ok.mp inserted
  cases answer with
  | some e =>
    cases rest
    exact .inl ⟨e, asked, rfl⟩
  | none =>
    cases rest
    exact .inr ⟨asked, rfl, rfl⟩

theorem Reached.sound (reached : Reached m) : Sound m := by
  induction reached with
  | start => exact ⟨.nil, by simp, by simp, by simp⟩
  | @step m _ op _ meets applied ih =>
    cases op with
    | insert r d =>
      obtain ⟨result, inserted, done⟩ := bind_eq_ok.mp applied
      obtain ⟨storable, granularity, clear⟩ := meets
      cases done
      rcases insert_eq_ok inserted with ⟨e, -, same⟩ | ⟨nothing, grown, -⟩
      · rw [same]
        exact ih
      · rw [grown]
        exact ih.insert_of_none storable clear nothing d granularity
    | erase p q =>
      cases applied
      exact ih.erase p q meets.1
    | clear =>
      cases applied
      exact sound_clear m

theorem Sound.insert_spec (sound : Sound m) (storable : r.Storable) (clear : m.ClearOf r) {d : V}
    {next : AddrRangeMap V} {position : Option (AddrRange × V)} (inserted : m.insert r d = .ok (next, position)) :
    (position = none ↔ ∃ e ∈ m.tree, ∃ a, a ∈ r ∧ a ∈ e.1) ∧ (position = none → next = m) ∧
      (position ≠ none → position = some (r, d) ∧
        ∀ e, e ∈ next.tree ↔ e = (r, d) ∨ e ∈ m.tree) := by
  rcases insert_eq_ok inserted with ⟨e, found, same⟩ | ⟨nothing, grown, pointed⟩
  · cases same
    obtain ⟨member, holds⟩ := find_some found
    have shared := (storable.intersects_exact (sound.storable e member) holds).mp rfl
    exact ⟨⟨fun _ => ⟨e, member, shared⟩, fun _ => rfl⟩, fun _ => rfl, fun some => absurd rfl some⟩
  · have fresh : ∀ e ∈ m.tree, e.1.lt r = true ∨ r.lt e.1 = true :=
      fun e member => sound.fresh_of_none storable clear nothing member
    have members : ∀ e, e ∈ OrderedMap.insert AddrRange.lt (r, d) m.tree ↔
        e = (r, d) ∨ e ∈ m.tree := fun e => OrderedMap.mem_insert_iff fresh
    have own : (r, d) ∈ OrderedMap.insert AddrRange.lt (r, d) m.tree := (members _).mpr (.inl rfl)
    have here : position = some (r, d) := by
      simp only at pointed
      cases position with
      | none =>
        have missing := List.find?_eq_none.mp pointed.symm (r, d) own
        simp [AddrRange.lt_order.irrefl] at missing
      | some e =>
        have equivalent := List.find?_some pointed.symm
        rcases (members e).mp (mem_of_find?_eq_some pointed.symm) with rfl | stored
        · rfl
        · rcases fresh e stored with before | after
          · simp [before] at equivalent
          · simp [after] at equivalent
    refine ⟨?_, ?_, ?_⟩
    · rw [here]
      simp only [reduceCtorEq, false_iff]
      rintro ⟨e, member, shared⟩
      exact sound.vacant_of_none storable clear nothing member shared
    · intro none
      rw [here] at none
      cases none
    · intro _
      simp only at grown
      rw [grown]
      exact ⟨here, members⟩

theorem Sound.intersects_spec (sound : Sound m) (storable : r.Storable) (clear : m.ClearOf r)
    {position : Option (AddrRange × V)} (answered : m.intersects r = .ok position) :
    position = none ↔ ¬ ∃ e ∈ m.tree, ∃ a, a ∈ r ∧ a ∈ e.1 := by
  cases position with
  | none =>
    simp only [true_iff]
    rintro ⟨e, member, shared⟩
    exact sound.vacant_of_none storable clear answered member shared
  | some e =>
    obtain ⟨member, holds⟩ := find_some answered
    have shared := (storable.intersects_exact (sound.storable e member) holds).mp rfl
    simp only [reduceCtorEq, false_iff, not_not]
    exact ⟨e, member, shared⟩

theorem reached_lookups (m : AddrRangeMap V) (reached : Reached m) :
    (m.tree.Pairwise fun x y => ∀ a, a ∈ x.1 → a ∉ y.1) ∧
      (∀ r d next position, r.Storable → m.ClearOf r → m.insert r d = .ok (next, position) →
        (position = none ↔ ∃ e ∈ m.tree, ∃ a, a ∈ r ∧ a ∈ e.1) ∧ (position = none → next = m) ∧
          (position ≠ none → position = some (r, d) ∧
            ∀ e, e ∈ next.tree ↔ e = (r, d) ∨ e ∈ m.tree)) ∧
      (∀ a, a < BitVec.allOnes 64 →
        ∃ position, m.contains a = .ok position ∧
          ∀ e, position = some e ↔ e ∈ m.tree ∧ a ∈ e.1) ∧
      ∀ r position, r.Storable → m.ClearOf r → m.intersects r = .ok position →
        (position = none ↔ ¬ ∃ e ∈ m.tree, ∃ a, a ∈ r ∧ a ∈ e.1) := by
  have sound := reached.sound
  refine ⟨sound.disjoint, ?_, ?_, ?_⟩
  · intro r d next position storable clear inserted
    exact sound.insert_spec storable clear inserted
  · intro a below
    apply sound.contains_eq
    have limit : (BitVec.allOnes 64).toNat = 2 ^ 64 - 1 := by decide
    rw [BitVec.lt_def, limit] at below
    omega
  · intro r position storable clear answered
    exact sound.intersects_spec storable clear answered

def bank (i : BitVec 8) : AddrRange := { start := 0, end_ := 16, masks := [4], intlvMatch := i }

theorem bank_granularity (i : BitVec 8) : (bank i).HasGranularity := by
  intro _
  refine ⟨2, by decide, ⟨4, by simp [bank], by decide⟩, ?_⟩
  intro mask member j small
  have four : mask = 4 := by simpa [bank] using member
  subst four
  have cases : j = 0 ∨ j = 1 := by omega
  rcases cases with rfl | rfl <;> decide

theorem bank_storable {i : BitVec 8} (member : a ∈ bank i) : (bank i).Storable := by
  have size : (bank i).size = .ok 8 := by
    rw [AddrRange.size_eq (by simp [bank])]
    simp [bank]
  exact ⟨⟨a, member⟩, fun _ => ⟨8, size, by decide⟩⟩

def banks : AddrRangeMap Nat :=
  { tree := [(bank 0, 0), (bank 1, 1), (AddrRange.plain 16 32, 2)] }

theorem banks_reached : Reached banks := by
  have first : Reached { tree := [(bank 1, 1)] } := by
    refine .step (.insert (bank 1) 1) .start ⟨?_, bank_granularity 1, ?_⟩ (by decide +kernel)
    · exact bank_storable (a := 4) (by decide +kernel)
    · intro _ e member
      cases member
  have second : Reached { tree := [(bank 0, 0), (bank 1, 1)] } := by
    refine .step (.insert (bank 0) 0) first ⟨?_, bank_granularity 0, ?_⟩ (by decide +kernel)
    · exact bank_storable (a := 0) (by decide +kernel)
    · intro _ e member single
      have same : e = (bank 1, 1) := by simpa using member
      subst same
      exact absurd single (by decide +kernel)
  refine .step (.insert (AddrRange.plain 16 32) 2) second ⟨?_, ?_, ?_⟩ (by decide +kernel)
  · exact ⟨⟨16, by decide +kernel⟩, fun masks => absurd rfl masks⟩
  · exact fun masks => absurd rfl masks
  · exact fun masks => absurd rfl masks

theorem reached_lookups_banks :
    Reached banks ∧ banks.tree.Pairwise fun x y => ∀ a, a ∈ x.1 → a ∉ y.1 :=
  ⟨banks_reached, (reached_lookups banks banks_reached).1⟩

def oddStripe : AddrRange := { start := 0, end_ := 8, masks := [1], intlvMatch := 1 }

def lowerHalf : AddrRange :=
  { start := 0, end_ := 0x200000000, masks := [0x100000000], intlvMatch := 0 }

/-- Behind the byte range of address 2 that of address 5 is not looked at, and a stripe that holds
address 5 is inserted beside it. In the map of a stripe whose mask has no low bit, the look-up of
an address that is there has no value. -/
theorem lookups_around_bytes :
    [Op.insert (AddrRange.plain 2 3) (), .insert (AddrRange.plain 5 6) (),
        .insert oddStripe ()].foldlM Op.apply {} =
      .ok { tree := [(oddStripe, ()), (AddrRange.plain 2 3, ()), (AddrRange.plain 5 6, ())] } ∧
      oddStripe.size = .ok 4 ∧ 5 ∈ oddStripe ∧ 5 ∈ AddrRange.plain 5 6 ∧
      2 ∈ AddrRange.plain 2 3 ∧
      [Op.insert lowerHalf ()].foldlM Op.apply {} = .ok { tree := [(lowerHalf, ())] } ∧
      lowerHalf.size = .ok 0x100000000 ∧ 0 ∈ lowerHalf ∧
      AddrRangeMap.contains { tree := [(lowerHalf, ())] } 0 = .error .undefinedShift := by
  decide +kernel

end AddrRangeMap

end Resister.Base
