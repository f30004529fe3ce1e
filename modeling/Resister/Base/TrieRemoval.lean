import Mathlib
import Resister.Base.TrieInsertion

/-!
# Removal from the trie, and whole runs

Removal keeps the invariant and takes one handle from what is stored.
-/

namespace Resister.Base

open Resister.BitPrefix Function Option

variable {w : Nat} {V : Type}

namespace Trie

variable {t t' : Trie w V} {x p b : Nat} {i : Bool}

/-! ## A node is taken out -/

/-- The kids of `p` once its `i`-th kid `b` is gone: the kid of `b` in its place if there is one, and
otherwise what remains, as the first kid. -/
def Heir (t : Trie w V) (p b : Nat) (i j : Bool) (a : Nat) : Prop :=
  ((∃ k, t.Kid b false k) ∧ ((j = i ∧ t.Kid b false a) ∨ (j ≠ i ∧ t.Kid p j a))) ∨
    ((∀ k, ¬ t.Kid b false k) ∧ j = false ∧ t.Kid p (!i) a)

structure Spliced (t t' : Trie w V) (p b : Nat) (i : Bool) : Prop where
  next : t'.next = t.next
  gone : t'.nodes b = none
  back : ∀ {a node}, t'.nodes a = some node → ∃ old, t.nodes a = some old
  forth : ∀ {a old}, t.nodes a = some old → a ≠ b → ∃ node, t'.nodes a = some node ∧ old.Kept node ∧
    (t.Kid b false a → node.parent = some p) ∧ (¬ t.Kid b false a → node.parent = old.parent)
  kid : ∀ {q j a}, t'.Kid q j a ↔ (q ≠ p ∧ q ≠ b ∧ t.Kid q j a) ∨ (q = p ∧ Heir t p b i j a)

variable {a : Nat}

theorem Spliced.old {node : TrieNode w V} (spliced : Spliced t t' p b i) (there : t'.nodes a = some node) :
    a ≠ b ∧ ∃ old, t.nodes a = some old ∧ old.Kept node ∧
      (t.Kid b false a → node.parent = some p) ∧ (¬ t.Kid b false a → node.parent = old.parent) := by
  have other : a ≠ b := by
    rintro rfl
    rw [spliced.gone] at there
    cases there
  obtain ⟨old, found⟩ := spliced.back there
  obtain ⟨node', there', rest⟩ := spliced.forth found other
  rw [there] at there'
  cases there'
  exact ⟨other, old, found, rest⟩

theorem Spliced.contents (spliced : Spliced t t' p b i) :
    t'.contents = update t.contents b none := by
  funext a
  by_cases here : a = b
  · rw [here, update_self, Trie.contents, spliced.gone]
    rfl
  · rw [update_of_ne here, Trie.contents, Trie.contents]
    cases found : t.nodes a with
    | some old =>
      obtain ⟨node, there, kept, -⟩ := spliced.forth found here
      rw [there, bind_some, bind_some, kept.key, kept.width, kept.value]
    | none =>
      cases there : t'.nodes a with
      | some node =>
        obtain ⟨-, old, found', -⟩ := spliced.old there
        rw [found] at found'
        cases found'
      | none => rfl

/-- The node at `b` can be taken out: it is the `i`-th kid of `p` and has one kid at most. -/
structure Removable (t : Trie w V) (p b : Nat) (i : Bool) : Prop where
  kid : t.Kid p i b
  single : ∀ a, ¬ t.Kid b true a

section Splicing

variable (inv : t.Inv x) (out : Removable t p b i) (spliced : Spliced t t' p b i)

include inv spliced in
theorem spliced_head (notRoot : b ≠ 0) :
    ∃ node, t'.nodes 0 = some node ∧ node.mask = 0 ∧ node.value = none ∧ node.parent = none := by
  obtain ⟨head, there, mask, empty, orphan⟩ := inv.head
  obtain ⟨node, there', kept, -, same⟩ := spliced.forth there notRoot.symm
  refine ⟨node, there', kept.mask.trans mask, kept.value.trans empty, ?_⟩
  rw [same ?_, orphan]
  intro isKid
  obtain ⟨above, found, -⟩ := id isKid
  have parent := (inv.linked isKid found there).parent
  rw [orphan] at parent
  cases parent

include inv out

variable {a : Nat}

theorem heir_origin {j : Bool} (heir : Heir t p b i j a) :
    a ≠ b ∧ ((∃ j, t.Kid p j a) ∨ t.Kid b false a) := by
  rcases heir with ⟨-, ⟨-, below⟩ | ⟨other, beside⟩⟩ | ⟨-, -, beside⟩
  · exact ⟨inv.kid_ne below, .inr below⟩
  · refine ⟨?_, .inl ⟨j, beside⟩⟩
    rintro rfl
    exact other (inv.kid_inj beside out.kid).2
  · refine ⟨?_, .inl ⟨!i, beside⟩⟩
    rintro rfl
    have same := (inv.kid_inj beside out.kid).2
    cases i <;> cases same

variable {above : TrieNode w V}

theorem linked_through {node below : TrieNode w V} (found : t.nodes p = some above)
    (middle : t.nodes b = some node) (bottom : t.nodes a = some below) (kid : t.Kid b false a) :
    above.width < below.width ∧ Agree above.width below.key above.key := by
  have upper := inv.linked out.kid found middle
  have lower := inv.linked kid middle bottom
  refine ⟨Nat.lt_trans upper.longer lower.longer, ?_⟩
  exact (lower.agree.mono (Nat.le_of_lt upper.longer)).trans upper.agree

include spliced

theorem spliced_up {node : TrieNode w V} (there : t'.nodes a = some node) (notRoot : a ≠ 0) :
    ∃ q j, node.parent = some q ∧ t'.Kid q j a := by
  obtain ⟨other, old, found, kept, moved, stays⟩ := spliced.old there
  by_cases below : t.Kid b false a
  · exact ⟨p, i, moved below, spliced.kid.mpr (.inr ⟨rfl, .inl ⟨⟨a, below⟩, .inl ⟨rfl, below⟩⟩⟩)⟩
  · obtain ⟨q, j, above, isKid⟩ := inv.up found notRoot
    have parent : node.parent = some q := (stays below).trans above
    have notB : q ≠ b := by
      rintro rfl
      cases j with
      | false => exact below isKid
      | true => exact out.single a isKid
    by_cases atP : q = p
    · subst atP
      have slot : j ≠ i := by
        rintro rfl
        exact other (isKid.functional out.kid)
      by_cases some_ : ∃ k, t.Kid b false k
      · exact ⟨q, j, parent, spliced.kid.mpr (.inr ⟨rfl, .inl ⟨some_, .inr ⟨slot, isKid⟩⟩⟩)⟩
      · have remaining : t.Kid q (!i) a := by
          rw [← Bool.eq_not.mpr slot]
          exact isKid
        have vacant : ∀ k, ¬ t.Kid b false k := fun k below => some_ ⟨k, below⟩
        exact ⟨q, false, parent, spliced.kid.mpr (.inr ⟨rfl, .inr ⟨vacant, rfl, remaining⟩⟩)⟩
    · exact ⟨q, j, parent, spliced.kid.mpr (.inl ⟨atP, notB, isKid⟩)⟩

variable {q : Nat}

theorem spliced_down {j : Bool} (isKid : t'.Kid q j a)
    (there : t'.nodes q = some above) : ∃ node, t'.nodes a = some node ∧ Linked q above node := by
  obtain ⟨-, oldAbove, found, keptAbove, -⟩ := spliced.old there
  rcases spliced.kid.mp isKid with ⟨notP, notB, oldKid⟩ | ⟨rfl, heir⟩
  · obtain ⟨oldBelow, found', linked⟩ := inv.down oldKid found
    have other : a ≠ b := by
      rintro rfl
      exact notP (inv.kid_inj oldKid out.kid).1
    obtain ⟨below, there', kept, -, stays⟩ := spliced.forth found' other
    have free : ¬ t.Kid b false a := fun slot => notB (inv.kid_inj oldKid slot).1
    exact ⟨below, there', keptAbove.linked kept linked.longer linked.agree
      ((stays free).trans linked.parent)⟩
  · obtain ⟨other, origin⟩ := heir_origin inv out heir
    rcases origin with ⟨j', oldKid⟩ | lower
    · obtain ⟨oldBelow, found', linked⟩ := inv.down oldKid found
      obtain ⟨below, there', kept, -, stays⟩ := spliced.forth found' other
      have free : ¬ t.Kid b false a := by
        intro slot
        have same := (inv.kid_inj oldKid slot).1
        exact inv.kid_ne out.kid same.symm
      exact ⟨below, there', keptAbove.linked kept linked.longer linked.agree
        ((stays free).trans linked.parent)⟩
    · obtain ⟨middle, foundMiddle, -⟩ := inv.down out.kid found
      obtain ⟨bottom, foundBottom, -⟩ := inv.down lower foundMiddle
      obtain ⟨below, there', kept, moved, -⟩ := spliced.forth foundBottom other
      obtain ⟨longer, agree⟩ := linked_through inv out found foundMiddle foundBottom lower
      exact ⟨below, there', keptAbove.linked kept longer agree (moved lower)⟩

theorem spliced_sibling {c : Nat} {left right : TrieNode w V} (found : t.nodes p = some above)
    (lower : t.Kid b false a) (foundLeft : t.nodes a = some left) (beside : t.Kid p (!i) c)
    (foundRight : t.nodes c = some right) :
    left.key.getMsbD above.width ≠ right.key.getMsbD above.width := by
  obtain ⟨middle, foundMiddle, upper⟩ := inv.down out.kid found
  have same := (inv.linked lower foundMiddle foundLeft).agree _ upper.longer
  rw [same]
  cases i with
  | false => exact inv.apart out.kid beside found foundMiddle foundRight
  | true => exact (inv.apart beside out.kid found foundRight foundMiddle).symm

theorem spliced_apart {c : Nat} {left right : TrieNode w V} (leftKid : t'.Kid q false a)
    (rightKid : t'.Kid q true c) (there : t'.nodes q = some above) (thereLeft : t'.nodes a = some left)
    (thereRight : t'.nodes c = some right) :
    left.key.getMsbD above.width ≠ right.key.getMsbD above.width := by
  obtain ⟨-, o, found, kept, -⟩ := spliced.old there
  obtain ⟨-, l, foundLeft, keptLeft, -⟩ := spliced.old thereLeft
  obtain ⟨-, r, foundRight, keptRight, -⟩ := spliced.old thereRight
  rw [kept.width, keptLeft.key, keptRight.key]
  rcases spliced.kid.mp rightKid with ⟨notP, -, oldRight⟩ | ⟨rfl, heirRight⟩
  · rcases spliced.kid.mp leftKid with ⟨-, -, oldLeft⟩ | ⟨wrong, -⟩
    · exact inv.apart oldLeft oldRight found foundLeft foundRight
    · exact (notP wrong).elim
  · have heirLeft : Heir t q b i false a := by
      rcases spliced.kid.mp leftKid with ⟨wrong, -⟩ | ⟨-, heir⟩
      · exact (wrong rfl).elim
      · exact heir
    -- a second kid remains only if `b` has a kid that takes its place
    rcases heirRight with ⟨⟨k, heir⟩, choice⟩ | ⟨-, wrong, -⟩
    · rcases heirLeft with ⟨-, choice'⟩ | ⟨vacant, -⟩
      · cases i with
        | false =>
          have lower := (choice'.resolve_right fun wrong => wrong.1 rfl).2
          have beside := (choice.resolve_left nofun).2
          exact spliced_sibling inv out spliced found lower foundLeft beside foundRight
        | true =>
          have lower := (choice.resolve_right fun wrong => wrong.1 rfl).2
          have beside := (choice'.resolve_left nofun).2
          exact (spliced_sibling inv out spliced found lower foundRight beside foundLeft).symm
      · exact (vacant k heir).elim
    · cases wrong

theorem spliced_first (isKid : t'.Kid q true a) : ∃ c, t'.Kid q false c := by
  rcases spliced.kid.mp isKid with ⟨notP, notB, oldKid⟩ | ⟨rfl, heir⟩
  · obtain ⟨c, first⟩ := inv.first oldKid
    exact ⟨c, spliced.kid.mpr (.inl ⟨notP, notB, first⟩)⟩
  · rcases heir with ⟨⟨k, lower⟩, -⟩ | ⟨-, wrong, -⟩
    · cases i with
      | false => exact ⟨k, spliced.kid.mpr (.inr ⟨rfl, .inl ⟨⟨k, lower⟩, .inl ⟨rfl, lower⟩⟩⟩)⟩
      | true =>
        obtain ⟨c, first⟩ := inv.first out.kid
        exact ⟨c, spliced.kid.mpr (.inr ⟨rfl, .inl ⟨⟨k, lower⟩, .inr ⟨nofun, first⟩⟩⟩)⟩
    · cases wrong

theorem Inv.of_spliced (notRoot : b ≠ 0) (pending : x = 0 ∨ x = b) : t'.Inv p where
  head := spliced_head inv spliced notRoot
  fresh there := by
    obtain ⟨-, old, found, -⟩ := spliced.old there
    rw [spliced.next]
    exact inv.fresh found
  formed there := by
    obtain ⟨-, old, found, kept, -⟩ := spliced.old there
    exact kept.formed (inv.formed found)
  up := spliced_up inv out spliced
  down := spliced_down inv out spliced
  apart := spliced_apart inv out spliced
  first := spliced_first inv out spliced
  full := by
    intro a node there root notP empty
    obtain ⟨other, old, found, kept, -⟩ := spliced.old there
    have settled : a ≠ x := by
      rcases pending with rfl | rfl
      · exact root
      · exact other
    obtain ⟨c, second⟩ := inv.full found root settled (kept.value.symm.trans empty)
    exact ⟨c, spliced.kid.mpr (.inl ⟨notP, other, second⟩)⟩

end Splicing

section Unlinking

variable {parent node : TrieNode w V}

theorem tidy_kept (node : TrieNode w V) : node.Kept (tidy node) ∧ (tidy node).parent = node.parent := by
  unfold tidy
  split
  · exact ⟨⟨rfl, rfl, rfl⟩, rfl⟩
  · exact ⟨⟨rfl, rfl, rfl⟩, rfl⟩

theorem replaceKid_ok (inv : t.Inv x) (kid : t.Kid p i b) (found : t.nodes p = some parent)
    (heir : Option Nat) : replaceKid parent b heir = .ok (parent.setKid i heir) := by
  have slot := (kid_iff found).mp kid
  unfold replaceKid
  cases i with
  | false => rw [if_pos slot]
  | true =>
    have other : parent.kids false ≠ some b := by
      intro first
      have same := (inv.kid_inj ((kid_iff found).mpr first) kid).2
      cases same
    rw [if_neg other, if_pos slot]

theorem tidy_heir (inv : t.Inv x) (out : Removable t p b i) (found : t.nodes p = some parent)
    (middle : t.nodes b = some node) {j : Bool} {a : Nat} :
    (tidy (parent.setKid i (node.kids false))).kids j = some a ↔ Heir t p b i j a := by
  have first : (parent.kids true).isSome → (parent.kids false).isSome := by
    intro second
    obtain ⟨c, second⟩ := isSome_iff_exists.mp second
    obtain ⟨d, first⟩ := inv.first ((kid_iff found).mpr second)
    rw [(kid_iff found).mp first]
    rfl
  have slot := (kid_iff found).mp out.kid
  unfold Heir
  simp only [kid_iff found, kid_iff middle]
  cases lower : node.kids false with
  | none =>
    cases i with
    | false =>
      cases beside : parent.kids true with
      | none => cases j <;> simp [tidy, kids_setKid, beside]
      | some s => cases j <;> simp [tidy, kids_setKid, beside]
    | true =>
      obtain ⟨f, beside⟩ := isSome_iff_exists.mp (first (by rw [slot]; rfl))
      cases j <;> simp [tidy, kids_setKid, beside]
  | some k =>
    cases i with
    | false => cases j <;> simp [tidy, kids_setKid]
    | true =>
      obtain ⟨f, beside⟩ := isSome_iff_exists.mp (first (by rw [slot]; rfl))
      cases j <;> simp [tidy, kids_setKid, beside]

theorem adopt_ok (p : Nat) (inv : t.Inv x) (middle : t.nodes b = some node) :
    ∃ t', t.adopt (node.kids false) p = .ok t' ∧ t'.next = t.next ∧
      (∀ a, t.nodes a = none → t'.nodes a = none) ∧
      (∀ a old, t.nodes a = some old → ∃ new, t'.nodes a = some new ∧ old.Kept new ∧ new.kids = old.kids ∧
        (t.Kid b false a → new.parent = some p) ∧ (¬ t.Kid b false a → new.parent = old.parent)) := by
  cases lower : node.kids false with
  | none =>
    refine ⟨t, rfl, rfl, fun a absent => absent, ?_⟩
    intro a old there
    refine ⟨old, there, TrieNode.Kept.refl old, rfl, ?_, fun _ => rfl⟩
    rw [kid_iff middle, lower]
    intro wrong
    cases wrong
  | some k =>
    have isKid : t.Kid b false k := (kid_iff middle).mpr lower
    obtain ⟨kid, found, -⟩ := inv.down isKid middle
    refine ⟨t.write k { kid with parent := some p }, ?_, rfl, ?_, ?_⟩
    · rw [adopt, read_some found, ok_andThen]
    · intro a absent
      rw [nodes_write, if_neg, absent]
      rintro rfl
      rw [absent] at found
      cases found
    · intro a old there
      rw [nodes_write]
      split
      next same =>
        subst same
        rw [found] at there
        cases there
        exact ⟨_, rfl, ⟨rfl, rfl, rfl⟩, rfl, fun _ => rfl, fun wrong => (wrong isKid).elim⟩
      next other =>
        refine ⟨old, there, TrieNode.Kept.refl old, rfl, ?_, fun _ => rfl⟩
        intro wrong
        exact (other (wrong.functional isKid)).elim

theorem unlink_spliced (inv : t.Inv x) (out : Removable t p b i) (found : t.nodes p = some parent)
    (middle : t.nodes b = some node) :
    ∃ t' parent', t.unlink b node p = .ok (t', parent') ∧ t'.nodes p = some parent' ∧
      Spliced t (t'.free b) p b i := by
  have notP : b ≠ p := inv.kid_ne out.kid
  have above : ¬ t.Kid b false p := by
    intro wrong
    have upper := (inv.linked out.kid found middle).longer
    have lower := (inv.linked wrong middle found).longer
    omega
  obtain ⟨t₀, adopted, next, absent, present⟩ := adopt_ok p inv middle
  obtain ⟨parent₀, there, kept, kids, -, stays⟩ := present p parent found
  have same : parent₀ = parent := by
    cases parent₀
    cases parent
    obtain ⟨key, mask, value⟩ := kept
    simp_all
  subst same
  refine ⟨t₀.write p (tidy (parent₀.setKid i (node.kids false))),
    tidy (parent₀.setKid i (node.kids false)), ?_, ?_, ?_⟩
  · rw [unlink, adopted, ok_andThen, read_some there, ok_andThen, replaceKid_ok inv out.kid found,
      ok_andThen]
  · rw [nodes_write, if_pos rfl]
  · have nodes : ∀ a, ((t₀.write p (tidy (parent₀.setKid i (node.kids false)))).free b).nodes a =
        if a = b then none else if a = p then some (tidy (parent₀.setKid i (node.kids false)))
        else t₀.nodes a := by
      intro a
      rw [nodes_free, nodes_write]
    refine ⟨next, by rw [nodes, if_pos rfl], ?_, ?_, ?_⟩
    · intro a new there'
      rw [nodes] at there'
      cases before : t.nodes a with
      | some old => exact ⟨old, rfl⟩
      | none =>
        have elsewhere : a ≠ p := by
          rintro rfl
          rw [found] at before
          cases before
        rw [if_neg elsewhere, absent a before, ite_self] at there'
        cases there'
    · intro a old there' other
      rw [nodes, if_neg other]
      split
      next atP =>
        subst atP
        rw [found] at there'
        cases there'
        obtain ⟨kept', parent'⟩ := tidy_kept (parent₀.setKid i (node.kids false))
        exact ⟨_, rfl, ⟨kept'.key, kept'.mask, kept'.value⟩, fun wrong => (above wrong).elim,
          fun _ => parent'⟩
      next =>
        obtain ⟨new, there'', kept', -, moved, stays'⟩ := present a old there'
        exact ⟨new, there'', kept', moved, stays'⟩
    · intro q j a
      by_cases atB : q = b
      · subst atB
        simp [not_kid ((nodes q).trans (if_pos rfl)), notP]
      · by_cases atP : q = p
        · subst atP
          rw [kid_iff ((nodes q).trans (by rw [if_neg atB, if_pos rfl])), tidy_heir inv out found middle]
          simp
        · have unchanged : ((t₀.write p (tidy (parent₀.setKid i (node.kids false)))).free b).Kid q j a ↔
              t.Kid q j a := by
            rw [Kid, nodes, if_neg atB, if_neg atP]
            cases before : t.nodes q with
            | none => simp [absent q before, not_kid before]
            | some old =>
              obtain ⟨new, there', -, kids', -⟩ := present q old before
              rw [kid_iff before]
              simp [there', kids']
          rw [unchanged]
          simp [atB, atP]

end Unlinking

/-! ## Deleting late

A node is deleted only after its parent has been removed in turn; nothing in between reads it. -/

section Deletion

variable {g : Nat} {node : TrieNode w V}

variable {a : Nat}

theorem read_free (other : a ≠ g) : (t.free g).read a = t.read a := by
  rw [read, nodes_free, if_neg other, read]

theorem write_free (other : a ≠ g) : (t.free g).write a node = (t.write a node).free g := by
  unfold write free
  rw [update_comm other.symm]

theorem free_comm (t : Trie w V) (other : a ≠ g) : (t.free g).free a = (t.free a).free g := by
  unfold free
  rw [update_comm other.symm]

theorem unlink_free (notParent : p ≠ g) (notKid : node.kids false ≠ some g) :
    (t.free g).unlink b node p = (t.unlink b node p).map fun result => (result.1.free g, result.2) := by
  have adopted : (t.free g).adopt (node.kids false) p =
      (t.adopt (node.kids false) p).map fun t => t.free g := by
    cases lower : node.kids false with
    | none => rfl
    | some k =>
      have other : k ≠ g := fun same => notKid (lower.trans (congrArg some same))
      rw [adopt, adopt, read_free other]
      cases t.read k with
      | error fault => rfl
      | ok kid =>
        rw [ok_andThen, ok_andThen, write_free other]
        rfl
  rw [unlink, unlink, adopted]
  cases t.adopt (node.kids false) p with
  | error fault => rfl
  | ok t₀ =>
    show ((t₀.free g).read p >>= _) = Except.map _ (t₀.read p >>= _)
    rw [read_free notParent]
    cases t₀.read p with
    | error fault => rfl
    | ok parent =>
      rw [ok_andThen, ok_andThen]
      cases replaceKid parent b (node.kids false) with
      | error fault => rfl
      | ok parent' =>
        rw [ok_andThen, ok_andThen, write_free notParent]
        rfl

end Deletion

structure Removed (t t' : Trie w V) (handle : Nat) : Prop where
  inv : t'.Inv 0
  contents : t'.contents = Function.update t.contents handle none

variable {e : Stored w V}

theorem contents_eq : t.contents a = some e ↔
    ∃ node, t.nodes a = some node ∧ node.value = some e.value ∧ node.key = e.key ∧ node.width = e.width := by
  rw [contents]
  cases t.nodes a with
  | none => simp
  | some node =>
    rw [bind_some]
    constructor
    · intro stored
      cases valued : node.value with
      | none =>
        rw [valued] at stored
        cases stored
      | some v =>
        rw [valued] at stored
        cases stored
        exact ⟨node, rfl, valued, rfl, rfl⟩
    · rintro ⟨other, same, valued, key, wide⟩
      cases same
      rw [valued, map_some, key, wide]

variable {parent : TrieNode w V}

theorem spliced_single (inv : t.Inv 0) (out : Removable t p b i) (spliced : Spliced t t' p b i)
    (found : t.nodes p = some parent) (notRoot : p ≠ 0)
    (empty : parent.value = none) (single : ∀ a, ¬ t'.Kid p true a) : ∃ a, t'.Kid p false a := by
  obtain ⟨s, second⟩ := inv.full found notRoot notRoot empty
  by_cases some_ : ∃ k, t.Kid b false k
  · -- then the parent keeps both kids
    obtain ⟨k, lower⟩ := some_
    exfalso
    cases i with
    | false => exact single s (spliced.kid.mpr (.inr ⟨rfl, .inl ⟨⟨k, lower⟩, .inr ⟨nofun, second⟩⟩⟩))
    | true => exact single k (spliced.kid.mpr (.inr ⟨rfl, .inl ⟨⟨k, lower⟩, .inl ⟨rfl, lower⟩⟩⟩))
  · have vacant : ∀ k, ¬ t.Kid b false k := fun k lower => some_ ⟨k, lower⟩
    cases i with
    | false => exact ⟨s, spliced.kid.mpr (.inr ⟨rfl, .inr ⟨vacant, rfl, second⟩⟩)⟩
    | true =>
      obtain ⟨f, first⟩ := inv.first second
      exact ⟨f, spliced.kid.mpr (.inr ⟨rfl, .inr ⟨vacant, rfl, first⟩⟩)⟩

theorem spliced_second (spliced : Spliced t t' p b i) {k : Nat}
    (lower : t.Kid b false k) (second : t.Kid p true a) : ∃ c, t'.Kid p true c := by
  cases i with
  | false => exact ⟨a, spliced.kid.mpr (.inr ⟨rfl, .inl ⟨⟨k, lower⟩, .inr ⟨nofun, second⟩⟩⟩)⟩
  | true => exact ⟨k, spliced.kid.mpr (.inr ⟨rfl, .inl ⟨⟨k, lower⟩, .inl ⟨rfl, lower⟩⟩⟩)⟩

theorem Inv.again (inv : t.Inv p) (found : t.nodes p = some parent)
    (again : ((parent.kids true).isNone && parent.value.isNone && parent.parent.isSome) = false) :
    t.Inv 0 := by
  apply inv.settle
  intro node there notRoot empty
  rw [found] at there
  cases there
  obtain ⟨q, j, above, -⟩ := inv.up found notRoot
  rw [empty, above] at again
  cases second : parent.kids true with
  | none =>
    rw [second] at again
    cases again
  | some c => exact ⟨c, (kid_iff found).mpr second⟩

theorem removeFrom_parent (fuel : Nat) {t₁ : Trie w V} (inv : (t₁.free b).Inv p)
    (found : (t₁.free b).nodes p = some parent) (notRoot : p ≠ 0) (empty : parent.value = none)
    (single : parent.kids true = none) (first : ∃ k, (t₁.free b).Kid p false k) :
    ∃ t₂, removeFrom (fuel + 1) t₁ p = .ok (t₂, none) ∧ Removed (t₁.free b) (t₂.free b) p := by
  obtain ⟨k, lower⟩ := first
  obtain ⟨g, j, above, kid⟩ := inv.up found notRoot
  obtain ⟨grand, grandFound, -⟩ := id kid
  have alive : ∀ {a node}, (t₁.free b).nodes a = some node → a ≠ b := by
    rintro a node there rfl
    rw [nodes_free, if_pos rfl] at there
    cases there
  have notB : p ≠ b := alive found
  have out : Removable (t₁.free b) g p j := by
    refine ⟨kid, ?_⟩
    intro a
    rw [kid_iff found, single]
    intro wrong
    cases wrong
  obtain ⟨s, grand', run, there, spliced⟩ := unlink_spliced inv out grandFound found
  have notKid : parent.kids false ≠ some b := by
    intro wrong
    obtain ⟨node, there', -⟩ := inv.down ((kid_iff found).mpr wrong) found
    exact alive there' rfl
  rw [unlink_free (alive grandFound) notKid] at run
  cases result : t₁.unlink p parent g with
  | error fault =>
    rw [result] at run
    cases run
  | ok pair =>
    obtain ⟨t₂, grand''⟩ := pair
    rw [result] at run
    cases run
    have notP : p ≠ g := inv.kid_ne kid
    have grandThere : ((t₂.free b).free p).nodes g = some grand'' := by
      rw [nodes_free, if_neg notP.symm]
      exact there
    have inv' : ((t₂.free b).free p).Inv g := inv.of_spliced out spliced notRoot (.inr rfl)
    have settled : ((t₂.free b).free p).Inv 0 := by
      apply inv'.settle
      intro node found' grandNotRoot grandEmpty
      obtain ⟨-, old, oldFound, kept, -⟩ := spliced.old found'
      obtain ⟨c, second⟩ := inv.full oldFound grandNotRoot notP.symm (kept.value.symm.trans grandEmpty)
      exact spliced_second spliced lower second
    have stop : ((grand''.kids true).isNone && grand''.value.isNone && grand''.parent.isSome) = false := by
      by_contra more
      simp only [Bool.not_eq_false, Bool.and_eq_true, isNone_iff_eq_none] at more
      obtain ⟨⟨noSecond, grandEmpty⟩, hasParent⟩ := more
      have grandNotRoot : g ≠ 0 := by
        rintro rfl
        obtain ⟨head, headThere, -, -, orphan⟩ := inv'.head
        rw [grandThere] at headThere
        cases headThere
        rw [orphan] at hasParent
        cases hasParent
      obtain ⟨c, second⟩ := settled.full grandThere grandNotRoot grandNotRoot grandEmpty
      rw [kid_iff grandThere, noSecond] at second
      cases second
    refine ⟨t₂.free p, ?_, ?_⟩
    · rw [removeFrom, read_some, ok_andThen, if_neg, above]
      · dsimp only
        rw [result, ok_andThen]
        dsimp only
        rw [stop, if_neg Bool.false_ne_true, empty]
      · rw [single]
        exact Bool.false_ne_true
      · rw [nodes_free, if_neg notB] at found
        exact found
    · rw [← free_comm t₂ notB]
      exact ⟨settled, spliced.contents⟩

theorem remove_ok (inv : t.Inv 0) (stored : t.contents b = some e) :
    ∃ t', t.remove b = .ok (t', some e.value) ∧ Removed t t' b := by
  obtain ⟨node, middle, valued, -⟩ := contents_eq.mp stored
  have notRoot : b ≠ 0 := by
    rintro rfl
    obtain ⟨head, found, -, empty, -⟩ := inv.head
    rw [middle] at found
    cases found
    rw [valued] at empty
    cases empty
  unfold remove
  rw [removeFrom, read_some middle, ok_andThen]
  split
  next second =>
    obtain ⟨c, second⟩ := isSome_iff_exists.mp second
    rw [show check node.value.isSome = .ok () from by rw [valued]; rfl, ok_andThen, valued]
    refine ⟨_, rfl, inv.setValue middle (fun _ => rfl) (fun _ _ => ⟨c, (kid_iff middle).mpr second⟩), ?_⟩
    funext a
    rw [contents, nodes_write]
    by_cases same : a = b
    · rw [if_pos same, same, update_self]
      rfl
    · rw [if_neg same, update_of_ne same]
      rfl
  next noSecond =>
    obtain ⟨p, i, above, kid⟩ := inv.up middle notRoot
    obtain ⟨parent, found, -⟩ := id kid
    have out : Removable t p b i := by
      refine ⟨kid, ?_⟩
      intro a
      rw [kid_iff middle]
      intro second
      rw [second] at noSecond
      exact noSecond rfl
    obtain ⟨t₁, parent', run, there, spliced⟩ := unlink_spliced inv out found middle
    have inv₁ : (t₁.free b).Inv p := inv.of_spliced out spliced notRoot (.inl rfl)
    have notB : p ≠ b := (inv.kid_ne kid).symm
    have there₁ : (t₁.free b).nodes p = some parent' := by
      rw [nodes_free, if_neg notB]
      exact there
    rw [above]
    dsimp only
    rw [run, ok_andThen, valued]
    dsimp only
    cases again : (parent'.kids true).isNone && parent'.value.isNone && parent'.parent.isSome with
    | false =>
      rw [if_neg Bool.false_ne_true]
      exact ⟨_, rfl, inv₁.again there₁ again, spliced.contents⟩
    | true =>
      simp only [Bool.and_eq_true, isNone_iff_eq_none] at again
      obtain ⟨⟨single, empty⟩, hasParent⟩ := again
      have parentNotRoot : p ≠ 0 := by
        rintro rfl
        obtain ⟨head, headThere, -, -, orphan⟩ := inv₁.head
        rw [there₁] at headThere
        cases headThere
        rw [orphan] at hasParent
        cases hasParent
      obtain ⟨-, old, oldFound, kept, -⟩ := spliced.old there₁
      have first := spliced_single inv out spliced oldFound parentNotRoot (kept.value.symm.trans empty) (by
        intro a
        rw [kid_iff there₁, single]
        intro wrong
        cases wrong)
      obtain ⟨t₂, run₂, removed⟩ := removeFrom_parent w inv₁ there₁ parentNotRoot empty single first
      rw [if_pos rfl, run₂, ok_andThen]
      refine ⟨_, rfl, removed.inv, ?_⟩
      rw [removed.contents, spliced.contents]
      apply update_eq_self_iff.mpr
      rw [← spliced.contents, contents, there₁, bind_some, empty]
      rfl

/-- The tries that insertions and removals lead to, each with the prefixes stored in it by their
handles. A prefix is inserted only while it is not stored, and a handle is removed once. -/
inductive Reached : Trie w V → (Nat → Option (Stored w V)) → Prop where
  | empty : Reached Trie.empty fun _ => none
  | insert {t t' : Trie w V} {stored : Nat → Option (Stored w V)} {handle : Nat} (key : BitVec w)
      (n : Nat) (v : V) : Reached t stored → 1 ≤ n → n ≤ w →
      (∀ a e, stored a = some e → e.width = n → ¬ Agree n e.key key) →
      t.insert key n (some v) = .ok (t', handle) →
      Reached t' (Function.update stored handle (some ⟨key &&& leading n, n, v⟩))
  | remove {t t' : Trie w V} {stored : Nat → Option (Stored w V)} {handle : Nat} {e : Stored w V}
      {result : Option V} : Reached t stored → stored handle = some e →
      t.remove handle = .ok (t', result) → Reached t' (Function.update stored handle none)

structure Faithful (t : Trie w V) (stored : Nat → Option (Stored w V)) : Prop where
  inv : t.Inv 0
  contents : t.contents = stored
  distinct : ∀ a b e f, stored a = some e → stored b = some f → e.width = f.width →
    Agree e.width e.key f.key → a = b

theorem nodes_empty (a : Nat) : (Trie.empty : Trie w V).nodes a =
    if a = 0 then some (TrieNode.make 0 0 none none) else none := by
  simp only [Trie.empty, update_apply]

theorem empty_inv : (Trie.empty : Trie w V).Inv 0 := by
  have only : ∀ {a node}, (Trie.empty : Trie w V).nodes a = some node →
      a = 0 ∧ node = TrieNode.make 0 0 none none := by
    intro a node there
    rw [nodes_empty] at there
    split at there
    next same => exact ⟨same, (Option.some.inj there).symm⟩
    next => cases there
  have childless : ∀ {p i a}, ¬ (Trie.empty : Trie w V).Kid p i a := by
    rintro p i a ⟨node, there, kid⟩
    obtain ⟨-, rfl⟩ := only there
    cases kid
  refine ⟨⟨_, (nodes_empty 0).trans (if_pos rfl), rfl, rfl, rfl⟩, ?_, ?_, ?_, fun kid => (childless kid).elim,
    fun kid => (childless kid).elim, fun kid => (childless kid).elim, ?_⟩
  · intro a node there
    rw [(only there).1]
    exact Nat.one_pos
  · intro a node there
    have formed := (TrieNode.Formed.make (0 : BitVec w) (Nat.zero_le w) (none : Option V) none).2
    rw [leading_zero] at formed
    rw [(only there).2]
    exact formed
  · intro a node there notRoot
    exact (notRoot (only there).1).elim
  · intro a node there notRoot
    exact (notRoot (only there).1).elim

variable {stored : Nat → Option (Stored w V)}

theorem Reached.faithful (reached : Reached t stored) :
    Faithful t stored := by
  induction reached with
  | empty =>
    refine ⟨empty_inv, ?_, nofun⟩
    funext a
    rw [contents, nodes_empty]
    split
    · rfl
    · rfl
  | @insert t t' stored handle key n v _ positive bound fresh run ih =>
    obtain ⟨after, handle', run', inserted⟩ := insert_ok ih.inv positive bound key v
      (fun a e there => fresh a e (ih.contents ▸ there))
    rw [run] at run'
    cases run'
    refine ⟨inserted.inv, by rw [inserted.contents, ih.contents], ?_⟩
    -- the new prefix differs from every one that was there
    have apart : ∀ a e, stored a = some e → e.width = n → ¬ Agree n e.key (key &&& leading n) :=
      fun a e there same agree => fresh a e there same (agree.trans (agree_and_leading n key))
    intro a b e f left right wide agree
    by_cases atA : a = handle
    · by_cases atB : b = handle
      · rw [atA, atB]
      · rw [atA, update_self] at left
        rw [update_of_ne atB] at right
        cases left
        exact (apart b f right wide.symm agree.symm).elim
    · rw [update_of_ne atA] at left
      by_cases atB : b = handle
      · rw [atB, update_self] at right
        cases right
        exact (apart a e left wide (agree.mono (Nat.le_of_eq wide.symm))).elim
      · rw [update_of_ne atB] at right
        exact ih.distinct a b e f left right wide agree
  | @remove t t' stored handle e result _ there run ih =>
    obtain ⟨after, run', removed⟩ := remove_ok ih.inv (ih.contents ▸ there)
    rw [run] at run'
    cases run'
    refine ⟨removed.inv, by rw [removed.contents, ih.contents], ?_⟩
    have kept : ∀ {a f}, update stored handle none a = some f → stored a = some f := by
      intro a f still
      by_cases here : a = handle
      · rw [here, update_self] at still
        cases still
      · rwa [update_of_ne here] at still
    intro a b f g left right
    exact ih.distinct a b f g (kept left) (kept right)

/-- What a lookup should return: the value of the stored prefix of the fewest bits that matches. -/
def Answer (stored : Nat → Option (Stored w V)) (key : BitVec w) (v : V) : Prop :=
  ∃ a e, stored a = some e ∧ e.Matches key ∧ e.value = v ∧
    ∀ b f, stored b = some f → f.Matches key → e.width ≤ f.width

theorem Faithful.lookup (faithful : Faithful t stored) (key : BitVec w) : ∃ result, t.lookup key = .ok result ∧
      (∀ v, result = some v ↔ Answer stored key v) ∧
      (result = none ↔ ∀ a e, stored a = some e → ¬ e.Matches key) := by
  have carried : ∀ {a e}, stored a = some e → e.Matches key →
      ∃ node, t.Carries key a node ∧ node.width = e.width := by
    intro a e there matched
    obtain ⟨node, found, valued, key_, wide⟩ := contents_eq.mp (faithful.contents ▸ there)
    refine ⟨node, ⟨found, by rw [valued]; rfl, ?_⟩, wide⟩
    rw [wide, key_]
    exact matched
  have entry : ∀ {a node}, t.Carries key a node → ∃ v, node.value = some v ∧
      stored a = some ⟨node.key, node.width, v⟩ := by
    intro a node carries
    obtain ⟨v, valued⟩ := isSome_iff_exists.mp carries.2.1
    refine ⟨v, valued, ?_⟩
    rw [← faithful.contents]
    exact contents_eq.mpr ⟨node, carries.1, valued, rfl, rfl⟩
  obtain ⟨result, run, found, missing⟩ := lookup_ok faithful.inv key
  have answer : ∀ v, result = some v → Answer stored key v := by
    intro v same
    obtain ⟨a, node, carries, valued, shortest⟩ := found v same
    obtain ⟨v', valued', there⟩ := entry carries
    rw [valued] at valued'
    cases valued'
    refine ⟨a, _, there, carries.2.2, rfl, ?_⟩
    intro b f there' matched
    obtain ⟨other, carries', wide⟩ := carried there' matched
    exact wide ▸ shortest b other carries'
  refine ⟨result, run, ?_, ?_⟩
  · intro v
    refine ⟨answer v, ?_⟩
    rintro ⟨a, e, there, matched, rfl, shortest⟩
    cases same : result with
    | none =>
      obtain ⟨node, carries, -⟩ := carried there matched
      exact (missing same a node carries).elim
    | some u =>
      obtain ⟨b, f, there', matched', rfl, shortest'⟩ := answer u same
      -- two shortest prefixes of one key are one prefix
      have wide : e.width = f.width :=
        Nat.le_antisymm (shortest b f there' matched') (shortest' a e there matched)
      have same := faithful.distinct a b e f there there' wide
        (matched.symm.trans (matched'.mono (Nat.le_of_eq wide)))
      subst same
      rw [there] at there'
      cases there'
      rfl
  · constructor
    · intro same a e there matched
      obtain ⟨node, carries, -⟩ := carried there matched
      exact missing same a node carries
    · intro none_
      cases same : result with
      | none => rfl
      | some v =>
        obtain ⟨a, e, there, matched, -⟩ := answer v same
        exact (none_ a e there matched).elim

theorem answer_update {handle : Nat}
    (there : stored handle = some e) {key : BitVec w} (other : ¬ e.Matches key) (v : V) :
    Answer (update stored handle none) key v ↔ Answer stored key v := by
  have same : ∀ {a f}, f.Matches key → (update stored handle none a = some f ↔ stored a = some f) := by
    intro a f matched
    by_cases here : a = handle
    · rw [here, update_self, there]
      constructor
      · intro wrong
        cases wrong
      · intro wrong
        cases wrong
        exact (other matched).elim
    · rw [update_of_ne here]
  constructor
  · rintro ⟨a, f, found, matched, value, shortest⟩
    exact ⟨a, f, (same matched).mp found, matched, value,
      fun b g found' matched' => shortest b g ((same matched').mpr found') matched'⟩
  · rintro ⟨a, f, found, matched, value, shortest⟩
    exact ⟨a, f, (same matched).mpr found, matched, value,
      fun b g found' matched' => shortest b g ((same matched').mp found') matched'⟩

/-- After any insertions and removals: a lookup returns the value of the shortest stored prefix of the
key, a removal returns the value and changes the answer for keys with that prefix only, and neither
it nor an insertion of a prefix that is not stored fails. -/
theorem lookup_returns_shortest {stored : Nat → Option (Stored w V)} (reached : Reached t stored) :
    (∀ key, ∃ result, t.lookup key = .ok result ∧ (∀ v, result = some v ↔ Answer stored key v) ∧
      (result = none ↔ ∀ a e, stored a = some e → ¬ e.Matches key)) ∧
    (∀ handle e, stored handle = some e → ∃ t', t.remove handle = .ok (t', some e.value) ∧
      ∀ key, ¬ e.Matches key → t'.lookup key = t.lookup key) ∧
    (∀ key n v, 1 ≤ n → n ≤ w → (∀ a e, stored a = some e → e.width = n → ¬ Agree n e.key key) →
      ∃ t' handle, t.insert key n (some v) = .ok (t', handle) ∧ stored handle = none) := by
  have faithful := reached.faithful
  refine ⟨faithful.lookup, ?_, ?_⟩
  · intro handle e there
    obtain ⟨t', run, -⟩ := remove_ok faithful.inv (faithful.contents ▸ there)
    refine ⟨t', run, ?_⟩
    intro key other
    have faithful' := (reached.remove there run).faithful
    obtain ⟨before, lookup, found, -⟩ := faithful.lookup key
    obtain ⟨after, lookup', found', -⟩ := faithful'.lookup key
    rw [lookup, lookup']
    congr 1
    apply Option.ext
    intro v
    rw [found', found, answer_update there other]
  · intro key n v positive bound fresh
    obtain ⟨t', handle, run, inserted⟩ := insert_ok faithful.inv positive bound key v
      (fun a e there => fresh a e (faithful.contents ▸ there))
    exact ⟨t', handle, run, faithful.contents ▸ inserted.unused⟩

/-- The prefix 10, and a key that starts with it. -/
theorem lookup_returns_shortest_one : ∃ (t : Trie 4 Nat) (handle : Nat),
    Trie.empty.insert 0b1010#4 2 (some 7) = .ok (t, handle) ∧ t.lookup 0b1011#4 = .ok (some 7) := by
  obtain ⟨t, handle, run, -⟩ := (lookup_returns_shortest (Reached.empty (w := 4) (V := Nat))).2.2
    0b1010#4 2 7 (by decide) (by decide) nofun
  have reached := Reached.empty.insert 0b1010#4 2 7 (by decide) (by decide) nofun run
  obtain ⟨result, lookup, answers, -⟩ := (lookup_returns_shortest reached).1 0b1011#4
  refine ⟨t, handle, run, ?_⟩
  rw [lookup]
  congr 1
  rw [answers]
  refine ⟨handle, _, update_self _ _ _, and_leading_eq.mp (by decide), rfl, ?_⟩
  intro b f there matched
  by_cases here : b = handle
  · rw [here, update_self] at there
    cases there
    exact Nat.le_refl _
  · rw [update_of_ne here] at there
    cases there

example : (do
    let (t, _) ← (Trie.empty : Trie 4 Nat).insert 0b1010#4 2 (some 7)
    let (t, handle) ← t.insert 0b1100#4 1 (some 9)
    let before ← t.lookup 0b1011#4
    let (t, _) ← t.remove handle
    let after ← t.lookup 0b1011#4
    .ok (before, after)) = (.ok (some 9, some 7) : Except Fault (Option Nat × Option Nat)) := by
  decide +kernel

end Trie

end Resister.Base
