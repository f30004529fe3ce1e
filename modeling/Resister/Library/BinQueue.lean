import Mathlib

/-!
# Queues of bins

A queue whose elements have keys: elements of one key form a bin, which is a stack, and the bins are
ordered by their keys.
-/

namespace Resister.Library

open List

variable {ι κ : Type*}

def Chain (next : ι → Option ι) : Option ι → List ι → Prop
  | p, [] => p = none
  | p, x :: xs => p = some x ∧ Chain next (next x) xs

namespace Chain

variable {next next' : ι → Option ι} {p r : Option ι} {x : ι} {xs ys zs : List ι}

theorem eq_head? (chain : Chain next p xs) : p = xs.head? := by
  cases xs with
  | nil => exact chain
  | cons x xs => exact chain.1

theorem congr (chain : Chain next p xs) (same : ∀ x ∈ xs, next' x = next x) : Chain next' p xs := by
  induction xs generalizing p with
  | nil => exact chain
  | cons x xs ih =>
    obtain ⟨found, rest⟩ := chain
    refine ⟨found, ih ?_ fun y member => same y (mem_cons_of_mem _ member)⟩
    rw [same x mem_cons_self]
    exact rest

theorem suffix (chain : Chain next p (xs ++ ys)) : Chain next ys.head? ys := by
  induction xs generalizing p with
  | nil =>
    obtain rfl : p = ys.head? := chain.eq_head?
    exact chain
  | cons x xs ih => exact ih chain.2

theorem relink (chain : Chain next p (xs ++ x :: ys)) (rest : Chain next' r zs)
    (same : ∀ y ∈ xs, next' y = next y) (link : next' x = r) : Chain next' p (xs ++ x :: zs) := by
  induction xs generalizing p with
  | nil =>
    refine ⟨chain.1, ?_⟩
    rw [link]
    exact rest
  | cons y xs ih =>
    refine ⟨chain.1, ?_⟩
    rw [same y mem_cons_self]
    exact ih chain.2 fun z member => same z (mem_cons_of_mem _ member)

theorem update [DecidableEq ι] (chain : Chain next p xs) (apart : x ∉ xs) :
    Chain (Function.update next x r) p xs := by
  apply chain.congr
  intro y member
  exact Function.update_of_ne (fun same : y = x => apart (same ▸ member)) ..

end Chain

namespace BinQueue

structure Bin (ι : Type*) where
  top : ι
  below : List ι
  deriving DecidableEq, Repr

namespace Bin

def members (b : Bin ι) : List ι := b.top :: b.below

@[simp] theorem members_mk (x : ι) (xs : List ι) : (Bin.mk x xs).members = x :: xs := rfl

theorem top_mem (b : Bin ι) : b.top ∈ b.members := mem_cons_self

variable [DecidableEq ι]

def without (b : Bin ι) (e : ι) : List (Bin ι) :=
  if e = b.top then
    match b.below with
    | [] => []
    | x :: xs => [⟨x, xs⟩]
  else [⟨b.top, b.below.erase e⟩]

theorem members_of_mem_without {b c : Bin ι} {e : ι} (member : c ∈ b.without e) :
    c.members = b.members.erase e := by
  rw [without] at member
  split at member
  · rename_i same
    subst same
    cases rest : b.below with
    | nil => simp [rest] at member
    | cons x xs =>
      obtain rfl : c = ⟨x, xs⟩ := by simpa [rest] using member
      simp [members, rest]
  · rename_i other
    obtain rfl := mem_singleton.mp member
    rw [members, members, erase_cons_tail (by simpa using Ne.symm other)]

theorem top_mem_of_mem_without {b c : Bin ι} {e : ι} (member : c ∈ b.without e) :
    c.top ∈ b.members := by
  have top := c.top_mem
  rw [members_of_mem_without member] at top
  exact mem_of_mem_erase top

theorem pairwise_without (b : Bin ι) (e : ι) {r : Bin ι → Bin ι → Prop} :
    (b.without e).Pairwise r := by
  rw [without]
  split
  · cases b.below with
    | nil => exact .nil
    | cons x xs => exact pairwise_singleton ..
  · exact pairwise_singleton ..

end Bin

def members (bins : List (Bin ι)) : List ι := bins.flatMap Bin.members

section Members

variable {b : Bin ι} {bins before after : List (Bin ι)} {x : ι}

@[simp] theorem members_nil : members ([] : List (Bin ι)) = [] := rfl

@[simp] theorem members_cons : members (b :: bins) = b.members ++ members bins := rfl

@[simp] theorem members_append : members (before ++ after) = members before ++ members after :=
  flatMap_append

theorem mem_members : x ∈ members bins ↔ ∃ b ∈ bins, x ∈ b.members := mem_flatMap

theorem mem_members_of_top (top : x ∈ bins.map Bin.top) : x ∈ members bins := by
  obtain ⟨b, member, rfl⟩ := mem_map.mp top
  exact mem_members.mpr ⟨b, member, b.top_mem⟩

theorem length_le_members (bins : List (Bin ι)) : bins.length ≤ (members bins).length := by
  induction bins with
  | nil => simp
  | cons b bins ih =>
    simp only [length_cons, members_cons, length_append, Bin.members]
    omega

theorem members_without [DecidableEq ι] (b : Bin ι) (e : ι) :
    members (b.without e) = b.members.erase e := by
  rw [Bin.without]
  split
  · rename_i same
    subst same
    cases rest : b.below with
    | nil => simp [Bin.members, rest]
    | cons x xs => simp [Bin.members, rest]
  · rename_i other
    rw [Bin.members, erase_cons_tail (by simpa using Ne.symm other)]
    simp

end Members

section Ordered

variable [LinearOrder κ]

/-- The elements of a bin have one key, the keys increase from bin to bin, and no element occurs
twice. -/
structure WellFormed (key : ι → κ) (bins : List (Bin ι)) : Prop where
  alike : ∀ b ∈ bins, ∀ x ∈ b.members, key x = key b.top
  increasing : bins.Pairwise fun b c => key b.top < key c.top
  nodup : (members bins).Nodup

def Stacked (stamp : ι → Nat) (bins : List (Bin ι)) : Prop :=
  ∀ b ∈ bins, b.members.Pairwise fun x y => stamp y < stamp x

def push (key : ι → κ) (e : ι) : List (Bin ι) → List (Bin ι)
  | [] => [⟨e, []⟩]
  | b :: bins =>
    if key e < key b.top then ⟨e, []⟩ :: b :: bins
    else if key e = key b.top then ⟨e, b.members⟩ :: bins
    else b :: push key e bins

def remove [DecidableEq ι] (key : ι → κ) (e : ι) : List (Bin ι) → List (Bin ι)
  | [] => []
  | b :: bins => if key b.top = key e then b.without e ++ bins else b :: remove key e bins

variable {key key' : ι → κ} {e x : ι} {b : Bin ι} {bins before after : List (Bin ι)}
  {stamp stamp' : ι → Nat}

theorem push_append (smaller : ∀ b ∈ before, key b.top < key e) :
    push key e (before ++ after) = before ++ push key e after := by
  induction before with
  | nil => rfl
  | cons b before ih =>
    have less := smaller b mem_cons_self
    rw [cons_append, push, if_neg less.asymm, if_neg less.ne', cons_append,
      ih fun c member => smaller c (mem_cons_of_mem _ member)]

theorem members_push (key : ι → κ) (e : ι) (bins : List (Bin ι)) :
    (members (push key e bins)).Perm (e :: members bins) := by
  induction bins with
  | nil => exact List.Perm.refl _
  | cons b bins ih =>
    rw [push]
    split
    · exact List.Perm.refl _
    split
    · exact List.Perm.refl _
    · rw [members_cons, members_cons]
      exact (ih.append_left b.members).trans perm_middle

theorem mem_push (member : b ∈ push key e bins) :
    b ∈ bins ∨ b = ⟨e, []⟩ ∨ ∃ c ∈ bins, key e = key c.top ∧ b = ⟨e, c.members⟩ := by
  induction bins with
  | nil => exact .inr (.inl (by simpa [push] using member))
  | cons c bins ih =>
    rw [push] at member
    split at member
    · rcases mem_cons.mp member with new | old
      · exact .inr (.inl new)
      · exact .inl old
    split at member
    · rename_i same
      rcases mem_cons.mp member with new | old
      · exact .inr (.inr ⟨c, mem_cons_self, same, new⟩)
      · exact .inl (mem_cons_of_mem _ old)
    · rcases mem_cons.mp member with rfl | later
      · exact .inl mem_cons_self
      · rcases ih later with old | new | ⟨d, listed, same, grown⟩
        · exact .inl (mem_cons_of_mem _ old)
        · exact .inr (.inl new)
        · exact .inr (.inr ⟨d, mem_cons_of_mem _ listed, same, grown⟩)

theorem increasing_push (increasing : bins.Pairwise fun b c => key b.top < key c.top) :
    (push key e bins).Pairwise fun b c => key b.top < key c.top := by
  induction bins with
  | nil => simp [push]
  | cons b bins ih =>
    obtain ⟨first, rest⟩ := pairwise_cons.mp increasing
    rw [push]
    split
    · rename_i less
      refine pairwise_cons.mpr ⟨?_, increasing⟩
      intro c member
      rcases mem_cons.mp member with rfl | later
      · exact less
      · exact less.trans (first c later)
    split
    · rename_i same
      refine pairwise_cons.mpr ⟨?_, rest⟩
      intro c member
      exact same ▸ first c member
    · rename_i notLess other
      have greater : key b.top < key e := lt_of_le_of_ne (not_lt.mp notLess) (Ne.symm other)
      refine pairwise_cons.mpr ⟨?_, ih rest⟩
      intro c member
      rcases mem_push member with old | rfl | ⟨d, -, -, rfl⟩
      · exact first c old
      · exact greater
      · exact greater

theorem WellFormed.push (wf : WellFormed key bins) (new : e ∉ members bins) :
    WellFormed key (push key e bins) where
  alike := by
    intro b member x inside
    rcases mem_push member with old | rfl | ⟨c, listed, same, rfl⟩
    · exact wf.alike b old x inside
    · rw [mem_singleton.mp inside]
    · rcases mem_cons.mp inside with rfl | below
      · rfl
      · exact (wf.alike c listed x below).trans same.symm
  increasing := increasing_push wf.increasing
  nodup := (members_push key e bins).nodup_iff.mpr (nodup_cons.mpr ⟨new, wf.nodup⟩)

theorem WellFormed.congr (wf : WellFormed key bins) (same : ∀ x ∈ members bins, key' x = key x) :
    WellFormed key' bins where
  alike := by
    intro b member x inside
    rw [same x (mem_members.mpr ⟨b, member, inside⟩), same b.top (mem_members.mpr ⟨b, member, b.top_mem⟩)]
    exact wf.alike b member x inside
  increasing := by
    refine wf.increasing.imp_of_mem ?_
    intro b c left right less
    rw [same b.top (mem_members.mpr ⟨b, left, b.top_mem⟩), same c.top (mem_members.mpr ⟨c, right, c.top_mem⟩)]
    exact less
  nodup := wf.nodup

theorem WellFormed.nodup_tops (wf : WellFormed key bins) : (bins.map Bin.top).Nodup := by
  rw [List.Nodup, pairwise_map]
  refine wf.increasing.imp ?_
  intro b c less same
  rw [same] at less
  exact less.false

theorem WellFormed.split (wf : WellFormed key bins) (e : ι) :
    ∃ before after, bins = before ++ after ∧ (∀ b ∈ before, key b.top < key e) ∧
      ∀ b ∈ after, key e ≤ key b.top := by
  have increasing := wf.increasing
  clear wf
  induction bins with
  | nil => exact ⟨[], [], rfl, by simp, by simp⟩
  | cons b bins ih =>
    obtain ⟨first, rest⟩ := pairwise_cons.mp increasing
    by_cases less : key b.top < key e
    · obtain ⟨before, after, rfl, small, large⟩ := ih rest
      refine ⟨b :: before, after, rfl, ?_, large⟩
      intro c member
      rcases mem_cons.mp member with rfl | later
      · exact less
      · exact small c later
    · refine ⟨[], b :: bins, rfl, by simp, ?_⟩
      intro c member
      rcases mem_cons.mp member with rfl | later
      · exact not_lt.mp less
      · exact (not_lt.mp less).trans (first c later).le

theorem WellFormed.locate (wf : WellFormed key bins) (member : e ∈ members bins) :
    ∃ before b after, bins = before ++ b :: after ∧ e ∈ b.members ∧ key b.top = key e ∧
      ∀ c ∈ before, key c.top < key e := by
  obtain ⟨b, listed, inside⟩ := mem_members.mp member
  obtain ⟨before, after, rfl⟩ := append_of_mem listed
  have same : key b.top = key e := (wf.alike b listed e inside).symm
  refine ⟨before, b, after, rfl, inside, same, ?_⟩
  intro c earlier
  rw [← same]
  exact (pairwise_append.mp wf.increasing).2.2 c earlier b mem_cons_self

theorem Stacked.push (stacked : Stacked stamp bins) (same : ∀ x ∈ members bins, stamp' x = stamp x)
    (latest : ∀ x ∈ members bins, stamp x < stamp' e) : Stacked stamp' (push key e bins) := by
  have kept : ∀ c ∈ bins, c.members.Pairwise fun x y => stamp' y < stamp' x := by
    intro c listed
    refine (stacked c listed).imp_of_mem ?_
    intro x y left right less
    rw [same x (mem_members.mpr ⟨c, listed, left⟩), same y (mem_members.mpr ⟨c, listed, right⟩)]
    exact less
  intro b member
  rcases mem_push member with old | rfl | ⟨c, listed, -, rfl⟩
  · exact kept b old
  · exact pairwise_singleton ..
  · refine pairwise_cons.mpr ⟨?_, kept c listed⟩
    intro x inside
    have present := mem_members.mpr ⟨c, listed, inside⟩
    rw [same x present]
    exact latest x present

variable [DecidableEq ι]

theorem remove_append (other : ∀ b ∈ before, key b.top ≠ key e) :
    remove key e (before ++ after) = before ++ remove key e after := by
  induction before with
  | nil => rfl
  | cons b before ih =>
    rw [cons_append, remove, if_neg (other b mem_cons_self), cons_append,
      ih fun c member => other c (mem_cons_of_mem _ member)]

theorem remove_located (same : key b.top = key e) (smaller : ∀ c ∈ before, key c.top < key e) :
    remove key e (before ++ b :: after) = before ++ (b.without e ++ after) := by
  rw [remove_append fun c member => (smaller c member).ne, remove, if_pos same]

theorem WellFormed.members_remove (wf : WellFormed key bins) (member : e ∈ members bins) :
    members (remove key e bins) = (members bins).erase e := by
  obtain ⟨before, b, after, rfl, inside, same, smaller⟩ := wf.locate member
  have apart : e ∉ members before := by
    intro early
    obtain ⟨c, listed, held⟩ := mem_members.mp early
    have equal := wf.alike c (mem_append_left _ listed) e held
    exact (smaller c listed).ne equal.symm
  rw [remove_located same smaller, members_append, members_append, members_append, members_cons,
    members_without, erase_append_right _ apart, erase_append_left _ inside]

theorem mem_remove (member : b ∈ remove key e bins) :
    ∃ c ∈ bins, b.members.Sublist c.members := by
  induction bins with
  | nil => simp [remove] at member
  | cons c bins ih =>
    rw [remove] at member
    split at member
    · rcases mem_append.mp member with inside | later
      · refine ⟨c, mem_cons_self, ?_⟩
        rw [Bin.members_of_mem_without inside]
        exact erase_sublist
      · exact ⟨b, mem_cons_of_mem _ later, List.Sublist.refl _⟩
    · rcases mem_cons.mp member with rfl | later
      · exact ⟨b, mem_cons_self, List.Sublist.refl _⟩
      · obtain ⟨d, listed, part⟩ := ih later
        exact ⟨d, mem_cons_of_mem _ listed, part⟩

theorem increasing_remove (alike : ∀ b ∈ bins, ∀ x ∈ b.members, key x = key b.top)
    (increasing : bins.Pairwise fun b c => key b.top < key c.top) :
    (remove key e bins).Pairwise fun b c => key b.top < key c.top := by
  induction bins with
  | nil => simp [remove]
  | cons b bins ih =>
    obtain ⟨first, rest⟩ := pairwise_cons.mp increasing
    rw [remove]
    split
    · refine pairwise_append.mpr ⟨b.pairwise_without e, rest, ?_⟩
      intro c inside d later
      rw [alike b mem_cons_self c.top (Bin.top_mem_of_mem_without inside)]
      exact first d later
    · refine pairwise_cons.mpr
        ⟨?_, ih (fun c member => alike c (mem_cons_of_mem _ member)) rest⟩
      intro c member
      obtain ⟨d, listed, part⟩ := mem_remove member
      rw [alike d (mem_cons_of_mem _ listed) c.top (part.subset c.top_mem)]
      exact first d listed

theorem WellFormed.remove (wf : WellFormed key bins) (member : e ∈ members bins) :
    WellFormed key (remove key e bins) where
  alike := by
    intro b listed x inside
    obtain ⟨c, old, part⟩ := mem_remove listed
    exact (wf.alike c old x (part.subset inside)).trans
      (wf.alike c old b.top (part.subset b.top_mem)).symm
  increasing := increasing_remove wf.alike wf.increasing
  nodup := by
    rw [wf.members_remove member]
    exact wf.nodup.erase e

theorem Stacked.remove (stacked : Stacked stamp bins) : Stacked stamp (remove key e bins) := by
  intro b listed
  obtain ⟨c, old, part⟩ := mem_remove listed
  exact (stacked c old).sublist part

end Ordered

end BinQueue

end Resister.Library
