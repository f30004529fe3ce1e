import Mathlib
import Resister.Sim.EventQueue

/-!
# The bins of the event queue

The linked structure represents a queue of bins, and the surgery of `insert`, `remove` and
`serviceOne` on the pointers carries out the operations on bins.
-/

namespace Resister.Sim

open Library Library.BinQueue Function

variable {ι : Type}

def Event.unlinked (e : Event ι) : Event ι := { e with nextBin := none, nextInBin := none }

namespace EventQueue

/-! ## The bins that a queue represents -/

section Pointers

def nextBin (q : EventQueue ι) (x : ι) : Option ι := (q.events x).nextBin

def nextInBin (q : EventQueue ι) (x : ι) : Option ι := (q.events x).nextInBin

def key (q : EventQueue ι) (x : ι) : Nat ×ₗ Int := (q.events x).key

def Stack (q : EventQueue ι) (b : Bin ι) : Prop := Chain q.nextInBin (q.nextInBin b.top) b.below

/-- The tops of the bins are linked from the head on. Of the `nextBin` pointers only those of the tops
matter. -/
structure Represents (q : EventQueue ι) (bins : List (Bin ι)) : Prop where
  tops : Chain q.nextBin q.head (bins.map Bin.top)
  links : ∀ b ∈ bins, q.Stack b
  wellFormed : WellFormed q.key bins

def Relinked (q q' : EventQueue ι) : Prop :=
  q'.curTick = q.curTick ∧ ∀ x, (q'.events x).unlinked = (q.events x).unlinked

end Pointers

variable {q q' q'' : EventQueue ι} {bins before after : List (Bin ι)} {b : Bin ι} {e x : ι}
  {curr p r : Option ι}

namespace Relinked

theorem refl (q : EventQueue ι) : q.Relinked q := ⟨rfl, fun _ => rfl⟩

theorem trans (first : q.Relinked q') (second : q'.Relinked q'') : q.Relinked q'' :=
  ⟨second.1.trans first.1, fun x => (second.2 x).trans (first.2 x)⟩

variable (relinked : q.Relinked q')
include relinked

theorem when_eq (x : ι) : (q'.events x).when_ = (q.events x).when_ := by
  have same := congrArg Event.when_ (relinked.2 x)
  exact same

theorem priority_eq (x : ι) : (q'.events x).priority = (q.events x).priority := by
  have same := congrArg Event.priority (relinked.2 x)
  exact same

theorem scheduled_eq (x : ι) : (q'.events x).scheduled = (q.events x).scheduled := by
  have same := congrArg Event.scheduled (relinked.2 x)
  exact same

theorem squashed_eq (x : ι) : (q'.events x).squashed = (q.events x).squashed := by
  have same := congrArg Event.squashed (relinked.2 x)
  exact same

theorem queued_eq (x : ι) : (q'.events x).queued = (q.events x).queued := by
  have same := congrArg Event.queued (relinked.2 x)
  exact same

theorem key_eq : q'.key = q.key := by
  funext x
  rw [key, key, Event.key, Event.key, relinked.when_eq, relinked.priority_eq]

end Relinked

theorem Stack.congr (stack : q.Stack b) (same : ∀ x ∈ b.members, q'.nextInBin x = q.nextInBin x) :
    q'.Stack b := by
  rw [Stack, same b.top b.top_mem]
  exact Chain.congr stack fun x member => same x (List.mem_cons_of_mem _ member)

theorem findBin_spec (chain : Chain q.nextBin curr (before.map Bin.top ++ after.map Bin.top))
    (smaller : ∀ b ∈ before, q.key b.top < q.key e)
    (order : ∀ b ∈ after, q.key e ≤ q.key b.top) {fuel : Nat} (enough : before.length ≤ fuel) (prev : ι) :
    q.findBin e fuel prev curr =
      .ok ((before.map Bin.top).getLastD prev, (after.map Bin.top).head?, before.map Bin.top) := by
  induction before generalizing curr fuel prev with
  | nil =>
    cases after with
    | nil =>
      obtain rfl : curr = none := chain
      rw [findBin]
      rfl
    | cons b after =>
      obtain rfl : curr = some b.top := chain.1
      have notLess : ¬ (q.events b.top).lt (q.events e) = true := fun lt =>
        (order b List.mem_cons_self).not_gt (Event.lt_iff.mp lt)
      rw [findBin.eq_def]
      simp [notLess]
  | cons b before ih =>
    obtain ⟨rfl, rest⟩ := chain
    have less := Event.lt_iff.mpr (smaller b List.mem_cons_self)
    cases fuel with
    | zero => simp at enough
    | succ fuel =>
      have later := ih rest (fun c member => smaller c (List.mem_cons_of_mem _ member))
        (by simpa using enough) b.top
      rw [findBin.eq_def]
      simp only [less, if_true]
      rw [show (q.events b.top).nextBin = q.nextBin b.top from rfl, later]
      simp only [bind, Except.bind, List.map_cons, List.getLastD_cons]

theorem length_le_card [Fintype ι] (wellFormed : WellFormed q.key bins) : bins.length ≤ Fintype.card ι :=
  (length_le_members bins).trans wellFormed.nodup.length_le_card

theorem Represents.chain_after (represents : q.Represents (before ++ after)) :
    Chain q.nextBin (after.map Bin.top).head? (after.map Bin.top) := by
  have chain := represents.tops
  rw [List.map_append] at chain
  exact chain.suffix

theorem Represents.findBin_last [Fintype ι] (represents : q.Represents (before ++ after)) {xs : List ι}
    (last : before.map Bin.top = xs ++ [x]) (smaller : ∀ b ∈ before, q.key b.top < q.key e)
    (order : ∀ b ∈ after, q.key e ≤ q.key b.top) :
    ∃ first passed, q.head = some first ∧ q.key first < q.key e ∧
      q.findBin e (Fintype.card ι) first (q.nextBin first) =
        .ok (x, (after.map Bin.top).head?, passed) ∧ first :: passed = before.map Bin.top := by
  cases before with
  | nil => simp at last
  | cons b before =>
    have enough : before.length ≤ Fintype.card ι := by
      have bound := length_le_card represents.wellFormed
      simp only [List.length_append, List.length_cons] at bound
      omega
    have chain := represents.tops
    rw [List.cons_append, List.map_cons, List.map_append] at chain
    refine ⟨b.top, before.map Bin.top, chain.1, smaller b List.mem_cons_self, ?_, rfl⟩
    rw [findBin_spec chain.2 (fun c member => smaller c (List.mem_cons_of_mem _ member)) order enough,
      ← List.getLastD_cons (a := x), ← List.map_cons, last, List.getLastD_concat]

variable [DecidableEq ι]

theorem modify_self (q : EventQueue ι) (x : ι) (f : Event ι → Event ι) :
    (q.modify x f).events x = f (q.events x) := update_self ..

theorem modify_of_ne {y : ι} (q : EventQueue ι) (f : Event ι → Event ι) (other : y ≠ x) :
    (q.modify x f).events y = q.events y := update_of_ne other ..

theorem member_modify {β : Type} (q : EventQueue ι) (x : ι) (f : Event ι → Event ι) (get : Event ι → β) :
    (fun y => get ((q.modify x f).events y)) =
      update (fun y => get (q.events y)) x (get (f (q.events x))) := by
  funext y
  by_cases same : y = x
  · subst same
    rw [modify_self, update_self]
  · rw [modify_of_ne q f same, update_of_ne same]

theorem member_modify_eq {β : Type} (q : EventQueue ι) (x : ι) (f : Event ι → Event ι)
    (get : Event ι → β) (kept : get (f (q.events x)) = get (q.events x)) :
    (fun y => get ((q.modify x f).events y)) = fun y => get (q.events y) := by
  rw [member_modify, kept, update_eq_self]

@[simp] theorem nextBin_setNextBin (q : EventQueue ι) (x : ι) (p : Option ι) :
    (q.setNextBin x p).nextBin = update q.nextBin x p :=
  q.member_modify x _ Event.nextBin

@[simp] theorem nextInBin_setNextBin (q : EventQueue ι) (x : ι) (p : Option ι) :
    (q.setNextBin x p).nextInBin = q.nextInBin :=
  q.member_modify_eq x _ Event.nextInBin rfl

@[simp] theorem nextInBin_setNextInBin (q : EventQueue ι) (x : ι) (p : Option ι) :
    (q.setNextInBin x p).nextInBin = update q.nextInBin x p :=
  q.member_modify x _ Event.nextInBin

@[simp] theorem nextBin_setNextInBin (q : EventQueue ι) (x : ι) (p : Option ι) :
    (q.setNextInBin x p).nextBin = q.nextBin :=
  q.member_modify_eq x _ Event.nextBin rfl

theorem setNextBin_relinked (q : EventQueue ι) (x : ι) (p : Option ι) :
    q.Relinked (q.setNextBin x p) :=
  ⟨rfl, congrFun (q.member_modify_eq x _ Event.unlinked rfl)⟩

theorem setNextInBin_relinked (q : EventQueue ι) (x : ι) (p : Option ι) :
    q.Relinked (q.setNextInBin x p) :=
  ⟨rfl, congrFun (q.member_modify_eq x _ Event.unlinked rfl)⟩

def link (q : EventQueue ι) (event : ι) (p r : Option ι) : EventQueue ι :=
  (q.setNextBin event p).setNextInBin event r

theorem link_relinked (q : EventQueue ι) (e : ι) (p r : Option ι) : q.Relinked (q.link e p r) :=
  (q.setNextBin_relinked e p).trans (setNextInBin_relinked _ e r)

@[simp] theorem nextBin_link (q : EventQueue ι) (e : ι) (p r : Option ι) :
    (q.link e p r).nextBin = update q.nextBin e p := by
  simp [link]

@[simp] theorem nextInBin_link (q : EventQueue ι) (e : ι) (p r : Option ι) :
    (q.link e p r).nextInBin = update q.nextInBin e r := by
  simp [link]

theorem Stack.link (stack : q.Stack b) (apart : e ∉ b.members) : (q.link e p r).Stack b := by
  apply stack.congr
  intro x member
  rw [nextInBin_link, update_of_ne fun same : x = e => apart (same ▸ member)]

theorem insertBefore_spec (tops : Chain q.nextBin curr (after.map Bin.top))
    (links : ∀ b ∈ after, q.Stack b) (apart : e ∉ members after) (order : ∀ b ∈ after, q.key e ≤ q.key b.top) :
    ∃ p r followed, q.insertBefore e curr = (q.link e p r, followed) ∧
      Chain (q.link e p r).nextBin (some e) ((push q.key e after).map Bin.top) ∧
      (∀ b ∈ push q.key e after, (q.link e p r).Stack b) ∧
      ∀ x ∈ followed, x ∈ after.map Bin.top := by
  have topsApart : e ∉ after.map Bin.top := fun top => apart (mem_members_of_top top)
  have kept : ∀ p r, ∀ b ∈ after, (q.link e p r).Stack b := by
    intro p r b member
    exact (links b member).link fun inside => apart (mem_members.mpr ⟨b, member, inside⟩)
  cases after with
  | nil =>
    obtain rfl : curr = none := tops
    refine ⟨none, none, [], rfl, ?_, ?_, by simp⟩
    · simp [push, Chain]
    · intro b member
      obtain rfl := List.mem_singleton.mp member
      simp [Stack, Chain]
  | cons b rest =>
    obtain rfl : curr = some b.top := tops.1
    by_cases less : q.key e < q.key b.top
    · -- A bin of its own.
      refine ⟨some b.top, none, [], ?_, ?_, ?_, by simp⟩
      · rw [insertBefore]
        simp only [Event.lt_iff.mpr less, if_true]
        rfl
      · rw [push, if_pos less]
        refine ⟨rfl, ?_⟩
        rw [nextBin_link, update_self]
        exact tops.update topsApart
      · intro c member
        rw [push, if_pos less] at member
        rcases List.mem_cons.mp member with rfl | old
        · simp [Stack, Chain]
        · exact kept _ _ c old
    · -- The bin of its key, whose old top keeps a pointer that is not followed any more.
      have same : q.key e = q.key b.top := le_antisymm (order b List.mem_cons_self) (not_lt.mp less)
      refine ⟨q.nextBin b.top, some b.top, [b.top], ?_, ?_, ?_, by simp⟩
      · rw [insertBefore]
        have notLess : ¬ (q.events e).lt (q.events b.top) = true := fun lt => less (Event.lt_iff.mp lt)
        simp only [notLess]
        rfl
      · rw [push, if_neg less, if_pos same]
        refine ⟨rfl, ?_⟩
        rw [nextBin_link, update_self]
        exact tops.2.update fun later => topsApart (List.mem_cons_of_mem _ later)
      · intro c member
        rw [push, if_neg less, if_pos same] at member
        rcases List.mem_cons.mp member with rfl | old
        · have stack := kept (q.nextBin b.top) (some b.top) b List.mem_cons_self
          rw [Stack, nextInBin_link, update_self]
          refine ⟨rfl, ?_⟩
          rw [Stack, nextInBin_link] at stack
          exact stack
        · exact kept _ _ c (List.mem_cons_of_mem _ old)

theorem Represents.attach (represents : q.Represents (before ++ after)) {xs : List ι}
    (last : before.map Bin.top = xs ++ [x]) (head : q'.head = q.head)
    (same : ∀ y ∈ members before, q'.events y = q.events y)
    (tops : Chain q'.nextBin p (bins.map Bin.top)) (links : ∀ b ∈ bins, q'.Stack b)
    (wellFormed : WellFormed q'.key (before ++ bins)) :
    (q'.setNextBin x p).Represents (before ++ bins) := by
  have unique := wellFormed.nodup_tops
  rw [List.map_append, last, List.append_assoc, List.singleton_append, List.nodup_middle,
    List.nodup_cons, List.mem_append, not_or] at unique
  obtain ⟨⟨notBefore, notAfter⟩, -⟩ := unique
  refine ⟨?_, ?_, ?_⟩
  · have chain := represents.tops
    rw [List.map_append, last, List.append_assoc, List.singleton_append] at chain
    rw [List.map_append, last, List.append_assoc, List.singleton_append, nextBin_setNextBin]
    rw [← head] at chain
    refine chain.relink (tops.update notAfter) ?_ (update_self ..)
    intro y member
    have early : y ∈ before.map Bin.top := by
      rw [last]
      exact List.mem_append_left _ member
    rw [update_of_ne fun equal : y = x => notBefore (equal ▸ member), nextBin, nextBin,
      same y (mem_members_of_top early)]
  · intro b member
    have kept : q'.Stack b := by
      rcases List.mem_append.mp member with early | late
      · refine (represents.links b (List.mem_append_left _ early)).congr ?_
        intro y inside
        rw [nextInBin, nextInBin, same y (mem_members.mpr ⟨b, early, inside⟩)]
      · exact links b late
    refine kept.congr ?_
    intro y _
    rw [nextInBin_setNextBin]
  · rw [(q'.setNextBin_relinked x p).key_eq]
    exact wellFormed

theorem link_events (q : EventQueue ι) (apart : x ≠ e) : (q.link e p r).events x = q.events x := by
  rw [link, setNextInBin, modify_of_ne _ _ apart, setNextBin, modify_of_ne _ _ apart]

theorem findItem_spec {us ys : List ι} (chain : Chain q.nextInBin curr (us ++ e :: ys))
    (apart : e ∉ us) {fuel : Nat} (enough : us.length ≤ fuel) (prev : ι) :
    q.findItem e fuel prev curr = .ok (us.getLastD prev) := by
  induction us generalizing curr fuel prev with
  | nil =>
    obtain rfl : curr = some e := chain.1
    rw [findItem.eq_def]
    simp
  | cons u us ih =>
    obtain ⟨rfl, rest⟩ := chain
    obtain ⟨other, later⟩ : e ≠ u ∧ e ∉ us := by simpa using apart
    cases fuel with
    | zero => simp at enough
    | succ fuel =>
      rw [findItem.eq_def]
      simp only [other, if_false, List.getLastD_cons]
      exact ih rest later (by simpa using enough) u

/-- An event has left its bin, and the bins from there on are linked. -/
structure Removed (q q' : EventQueue ι) (b : Bin ι) (e : ι) (after : List (Bin ι))
    (p : Option ι) : Prop where
  tops : Chain q'.nextBin p ((b.without e ++ after).map Bin.top)
  links : ∀ c ∈ b.without e ++ after, q'.Stack c
  others : ∀ y ∉ b.members, q'.events y = q.events y
  head : q'.head = q.head
  relinked : q.Relinked q'

section Bin

variable (tops : Chain q.nextBin (some b.top) (b.top :: after.map Bin.top)) (stack : q.Stack b)
  (links : ∀ c ∈ after, q.Stack c) (apart : ∀ y ∈ b.members, y ∉ members after)
include tops links

theorem removed_alone (below : b.below = []) : q.Removed q b b.top after (q.nextBin b.top) where
  tops := by simpa [Bin.without, below] using tops.2
  links := by simpa [Bin.without, below] using links
  others := fun _ _ => rfl
  head := rfl
  relinked := .refl q

include stack apart

theorem removed_top {n : ι} {ns : List ι} (below : b.below = n :: ns) :
    q.Removed (q.setNextBin n (q.nextBin b.top)) b b.top after (some n) := by
  have inBin : n ∈ b.members := by simp [Bin.members, below]
  have notTop : n ∉ after.map Bin.top := fun late => apart n inBin (mem_members_of_top late)
  have rest : b.without b.top = [⟨n, ns⟩] := by simp [Bin.without, below]
  refine ⟨?_, ?_, ?_, rfl, setNextBin_relinked ..⟩
  · rw [rest]
    refine ⟨rfl, ?_⟩
    rw [nextBin_setNextBin, update_self]
    exact tops.2.update notTop
  · intro c member
    rw [rest, List.singleton_append, List.mem_cons] at member
    rcases member with rfl | late
    · rw [Stack, below] at stack
      rw [Stack, nextInBin_setNextBin]
      exact stack.2
    · refine (links c late).congr fun y _ => ?_
      rw [nextInBin_setNextBin]
  · intro y outside
    exact q.modify_of_ne _ fun same : y = n => outside (same ▸ inBin)

theorem removed_below {us ys : List ι} (below : b.below = us ++ e :: ys) (other : e ≠ b.top)
    (rest : b.below.erase e = us ++ ys) (nodup : b.members.Nodup) :
    q.Removed (q.setNextInBin (us.getLastD b.top) (q.nextInBin e)) b e after (some b.top) := by
  have without : b.without e = [⟨b.top, us ++ ys⟩] := by simp [Bin.without, other, rest]
  obtain ⟨xs, above, split⟩ : ∃ xs above, b.top :: us = xs ++ [above] := by
    rcases List.eq_nil_or_concat (b.top :: us) with none | ⟨xs, above, split⟩
    · cases none
    · exact ⟨xs, above, by rw [split, List.concat_eq_append]⟩
  obtain rfl : us.getLastD b.top = above := by
    rw [← List.getLastD_cons (a := b.top), split, List.getLastD_concat]
  set above := us.getLastD b.top with above_def
  have whole : b.members = xs ++ above :: e :: ys := by
    rw [Bin.members, below, ← List.cons_append, split, List.append_assoc, List.singleton_append]
  have inBin : above ∈ b.members := by simp [whole]
  have chain : Chain q.nextInBin (some b.top) (xs ++ above :: e :: ys) := by
    rw [← whole]
    exact ⟨rfl, stack⟩
  rw [whole, List.nodup_middle, List.nodup_cons, List.mem_append, not_or] at nodup
  obtain ⟨⟨notAbove, notBelow⟩, -⟩ := nodup
  have lower : Chain q.nextInBin (q.nextInBin e) ys := by
    rw [← List.singleton_append, ← List.append_assoc] at chain
    exact chain.suffix.2
  refine ⟨?_, ?_, ?_, rfl, setNextInBin_relinked ..⟩
  · rw [without, nextBin_setNextInBin]
    exact tops
  · intro c member
    rw [without, List.singleton_append, List.mem_cons] at member
    rcases member with rfl | late
    · have relinked := chain.relink (lower.update (r := q.nextInBin e)
        fun deep => notBelow (List.mem_cons_of_mem _ deep))
        (fun y member => update_of_ne (fun same : y = above => notAbove (same ▸ member)) ..)
        (update_self ..)
      rw [← List.singleton_append, ← List.append_assoc, ← split, List.cons_append] at relinked
      rw [Stack, nextInBin_setNextInBin]
      exact relinked.2
    · refine (links c late).congr fun y within => ?_
      have different : y ≠ above := fun same =>
        apart above inBin (mem_members.mpr ⟨c, late, same ▸ within⟩)
      rw [nextInBin_setNextInBin, update_of_ne different]
  · intro y outside
    exact q.modify_of_ne _ fun same : y = above => outside (same ▸ inBin)

end Bin

variable [Fintype ι]

theorem insert_front (order : ∀ b ∈ bins, q.key e ≤ q.key b.top) (tops : Chain q.nextBin q.head (bins.map Bin.top)) :
    q.insert e = .ok ({ (q.insertBefore e q.head).1 with head := some e },
      (q.insertBefore e q.head).2) := by
  cases bins with
  | nil =>
    have none : q.head = none := tops
    rw [insert, none]
  | cons b bins =>
    have head : q.head = some b.top := tops.1
    have le := Event.le_iff.mpr (order b List.mem_cons_self)
    rw [insert, head]
    simp only [le, if_true]

theorem insert_behind (head : q.head = some x) (greater : q.key x < q.key e) {prev : ι} {passed : List ι}
    (found : q.findBin e (Fintype.card ι) x (q.nextBin x) = .ok (prev, curr, passed)) :
    q.insert e = .ok ((q.insertBefore e curr).1.setNextBin prev (some e),
      x :: passed ++ (q.insertBefore e curr).2) := by
  have notLe : ¬ (q.events e).le (q.events x) = true := fun le =>
    greater.not_ge (Event.le_iff.mp le)
  rw [insert, head]
  simp only [notLe]
  rw [show (q.events x).nextBin = q.nextBin x from rfl, found]
  rfl

theorem insert_spec (represents : q.Represents bins) (new : e ∉ members bins) :
    ∃ q' followed, q.insert e = .ok (q', followed) ∧ q'.Represents (push q.key e bins) ∧
      q.Relinked q' ∧ ∀ x ∈ followed, x ∈ bins.map Bin.top := by
  obtain ⟨before, after, rfl, smaller, order⟩ := represents.wellFormed.split e
  rw [members_append, List.mem_append, not_or] at new
  obtain ⟨apartBefore, apartAfter⟩ := new
  have wellFormed := represents.wellFormed.push (e := e) (by simp [apartBefore, apartAfter])
  rw [push_append smaller] at wellFormed ⊢
  have linksAfter : ∀ b ∈ after, q.Stack b := fun b member =>
    represents.links b (List.mem_append_right _ member)
  rcases List.eq_nil_or_concat (before.map Bin.top) with none | ⟨xs, prev, last⟩
  · obtain rfl : before = [] := List.map_eq_nil_iff.mp none
    obtain ⟨p, r, followed, linked, tops, links, seen⟩ :=
      insertBefore_spec represents.tops linksAfter apartAfter order
    refine ⟨{ q.link e p r with head := some e }, followed, ?_, ⟨tops, links, ?_⟩, ?_, seen⟩
    · rw [insert_front order represents.tops, linked]
    · rw [show key { q.link e p r with head := some e } = q.key from
        (q.link_relinked e p r).key_eq]
      exact wellFormed
    · exact q.link_relinked e p r
  · rw [List.concat_eq_append] at last
    obtain ⟨p, r, followed, linked, tops, links, seen⟩ :=
      insertBefore_spec represents.chain_after linksAfter apartAfter order
    obtain ⟨first, passed, head, less, found, firsts⟩ :=
      represents.findBin_last last smaller order
    have relinked := q.link_relinked e p r
    refine ⟨(q.link e p r).setNextBin prev (some e), first :: passed ++ followed, ?_, ?_, ?_, ?_⟩
    · rw [insert_behind head less found, linked]
    · have sameHead : (q.link e p r).head = q.head := rfl
      refine represents.attach last sameHead ?_ tops links ?_
      · intro y member
        exact q.link_events fun same : y = e => apartBefore (same ▸ member)
      · rw [relinked.key_eq]
        exact wellFormed
    · exact relinked.trans (setNextBin_relinked ..)
    · intro y member
      rw [firsts] at member
      rw [List.map_append, List.mem_append]
      rcases List.mem_append.mp member with early | late
      · exact .inl early
      · exact .inr (seen y late)

theorem removeItem_spec (represents : q.Represents (before ++ b :: after)) (inside : e ∈ b.members) :
    ∃ p q' followed, q.removeItem e b.top = .ok (p, q', followed) ∧ q.Removed q' b e after p ∧
      ∀ x ∈ followed, x = b.top := by
  have tops := represents.chain_after
  have stack : q.Stack b := represents.links b (by simp)
  have links : ∀ c ∈ after, q.Stack c := fun c member => represents.links c (by simp [member])
  have unique := represents.wellFormed.nodup
  rw [members_append, members_cons, List.nodup_append, List.nodup_append] at unique
  obtain ⟨-, ⟨nodup, -, disjoint⟩, -⟩ := unique
  have apart : ∀ y ∈ b.members, y ∉ members after := fun y left right => disjoint y left y right rfl
  by_cases top : e = b.top
  · subst top
    cases below : b.below with
    | nil =>
      have alone : (q.events b.top).nextInBin = none := by
        rw [Stack, below] at stack
        exact stack
      refine ⟨q.nextBin b.top, q, [b.top], ?_, removed_alone tops links below, by simp⟩
      rw [removeItem, if_pos rfl, alone]
      rfl
    | cons n ns =>
      have next : (q.events b.top).nextInBin = some n := by
        rw [Stack, below] at stack
        exact stack.1
      refine ⟨some n, _, [b.top], ?_, removed_top tops stack links apart below, by simp⟩
      rw [removeItem, if_pos rfl, next]
      rfl
  · have deeper : e ∈ b.below := (List.mem_cons.mp inside).resolve_left top
    obtain ⟨us, ys, notAbove, below, rest⟩ := List.exists_erase_eq deeper
    have enough : us.length ≤ Fintype.card ι := by
      have bound := nodup.length_le_card
      rw [Bin.members, below, List.length_cons, List.length_append] at bound
      omega
    have found : q.findItem e (Fintype.card ι) b.top (q.events b.top).nextInBin =
        .ok (us.getLastD b.top) := by
      rw [Stack, below] at stack
      exact findItem_spec stack notAbove enough b.top
    refine ⟨some b.top, _, [], ?_, removed_below tops stack links apart below top rest nodup, by simp⟩
    rw [removeItem, if_neg top, found]
    rfl

theorem remove_spec (represents : q.Represents bins) (member : e ∈ members bins)
    (queued : (q.events e).queued = true) :
    ∃ q' followed, q.remove e = .ok (q', followed) ∧
      q'.Represents (BinQueue.remove q.key e bins) ∧ q.Relinked q' ∧
      ∀ x ∈ followed, x ∈ bins.map Bin.top := by
  have wellFormed := represents.wellFormed.remove member
  obtain ⟨before, b, after, rfl, inside, same, smaller⟩ := represents.wellFormed.locate member
  rw [remove_located same smaller] at wellFormed ⊢
  obtain ⟨p, q', followed, taken, removed, seen⟩ := removeItem_spec represents inside
  rcases List.eq_nil_or_concat (before.map Bin.top) with none | ⟨xs, prev, last⟩
  · obtain rfl : before = [] := List.map_eq_nil_iff.mp none
    have head : q.head = some b.top := represents.tops.1
    refine ⟨{ q' with head := p }, followed, ?_, ⟨removed.tops, removed.links, ?_⟩,
      removed.relinked, ?_⟩
    · have equal := Event.eq_iff.mpr same
      rw [remove, head]
      simp only [queued, equal, Bool.not_true, if_true]
      rw [taken]
      rfl
    · rw [show key { q' with head := p } = q.key from removed.relinked.key_eq]
      exact wellFormed
    · intro x member
      simp [seen x member]
  · rw [List.concat_eq_append] at last
    have order : ∀ c ∈ b :: after, q.key e ≤ q.key c.top := by
      intro c member
      have increasing := (List.pairwise_append.mp represents.wellFormed.increasing).2.1
      rcases List.mem_cons.mp member with rfl | late
      · exact same.ge
      · exact same.ge.trans ((List.pairwise_cons.mp increasing).1 c late).le
    obtain ⟨first, passed, head, less, found, firsts⟩ :=
      represents.findBin_last last smaller order
    refine ⟨q'.setNextBin prev p, first :: passed ++ followed, ?_, ?_, ?_, ?_⟩
    · have differs : ¬ (q.events first).eq (q.events e) = true := fun equal =>
        less.ne (Event.eq_iff.mp equal)
      have equal : ¬ (q.events b.top).ne (q.events e) = true := fun ne =>
        Event.ne_iff.mp ne same
      rw [remove, head]
      simp only [queued, differs, Bool.not_true]
      rw [show (q.events first).nextBin = q.nextBin first from rfl, found]
      simp only [bind, Except.bind, List.map_cons, List.head?_cons, equal, taken]
      rfl
    · refine represents.attach last removed.head ?_ removed.tops removed.links ?_
      · intro y early
        have unique := represents.wellFormed.nodup
        rw [members_append, members_cons, List.nodup_append] at unique
        exact removed.others y fun late =>
          unique.2.2 y early y (List.mem_append_left _ late) rfl
      · rw [removed.relinked.key_eq]
        exact wellFormed
    · exact removed.relinked.trans (setNextBin_relinked ..)
    · intro y member
      rw [firsts] at member
      rw [List.map_append, List.mem_append]
      rcases List.mem_append.mp member with early | late
      · exact .inl early
      · exact .inr (by simp [seen y late])

end EventQueue

end Resister.Sim
