import Mathlib
import Resister.Base.Trie

/-!
# Insertion in the trie

Insertion keeps the invariant and adds the new prefix to what is stored.
-/

namespace Resister.Base

open Resister.BitPrefix Function Option

variable {w : Nat} {V : Type}

structure Stored (w : Nat) (V : Type) where
  key : BitVec w
  width : Nat
  value : V

def Stored.Matches (e : Stored w V) (key : BitVec w) : Prop := Agree e.width key e.key

/-- The part of a node that the pointers around it do not change. -/
structure TrieNode.Kept (old new : TrieNode w V) : Prop where
  key : new.key = old.key
  mask : new.mask = old.mask
  value : new.value = old.value

theorem TrieNode.Kept.width {old new : TrieNode w V} (kept : Kept old new) : new.width = old.width := by
  rw [TrieNode.width, kept.mask, TrieNode.width]

theorem TrieNode.Kept.formed {old new : TrieNode w V} (kept : Kept old new) (formed : old.Formed) :
    new.Formed where
  bound := kept.width ▸ formed.bound
  mask := by rw [kept.mask, kept.width, formed.mask]
  key := by rw [kept.key, kept.mask, formed.key]

theorem TrieNode.Kept.linked {old new old' new' : TrieNode w V} {p : Nat} (kept : Kept old new)
    (kept' : Kept old' new') (longer : old.width < old'.width) (agree : Agree old.width old'.key old.key)
    (parent : new'.parent = some p) : Trie.Linked p new new' where
  parent := parent
  longer := by rwa [kept.width, kept'.width]
  agree := by rwa [kept.width, kept.key, kept'.key]

namespace Trie

variable {t t' : Trie w V} {x : Nat}

def contents (t : Trie w V) (a : Nat) : Option (Stored w V) :=
  (t.nodes a).bind fun node => node.value.map fun value => ⟨node.key, node.width, value⟩

theorem nodes_write (t : Trie w V) (a b : Nat) (node : TrieNode w V) :
    (t.write a node).nodes b = if b = a then some node else t.nodes b :=
  update_apply _ _ _ _

theorem nodes_alloc (t : Trie w V) (b : Nat) (node : TrieNode w V) :
    (t.alloc node).nodes b = if b = t.next then some node else t.nodes b :=
  update_apply _ _ _ _

theorem nodes_free (t : Trie w V) (a b : Nat) :
    (t.free a).nodes b = if b = a then none else t.nodes b :=
  update_apply _ _ _ _

theorem Kid.functional {p a b : Nat} {i : Bool} (left : t.Kid p i a) (right : t.Kid p i b) : a = b := by
  obtain ⟨node, found, kid⟩ := left
  obtain ⟨node', found', kid'⟩ := right
  rw [found] at found'
  cases found'
  rw [kid] at kid'
  exact Option.some.inj kid'

theorem kid_iff {p b : Nat} {i : Bool} {node : TrieNode w V} (found : t.nodes p = some node) :
    t.Kid p i b ↔ node.kids i = some b := by
  constructor
  · rintro ⟨node', found', kid⟩
    rw [found] at found'
    cases found'
    exact kid
  · exact fun kid => ⟨node, found, kid⟩

theorem not_kid {p b : Nat} {i : Bool} (absent : t.nodes p = none) : ¬ t.Kid p i b := by
  rintro ⟨node, found, -⟩
  rw [absent] at found
  cases found

namespace Inv

theorem kid_inj (inv : t.Inv x) {p q a : Nat} {i j : Bool} (left : t.Kid p i a) (right : t.Kid q j a) :
    p = q ∧ i = j := by
  obtain ⟨above, found, -⟩ := id left
  obtain ⟨above', found', -⟩ := id right
  obtain ⟨node, there, linked⟩ := inv.down left found
  obtain ⟨node', there', linked'⟩ := inv.down right found'
  rw [there] at there'
  cases there'
  have same : p = q := Option.some.inj (linked.parent.symm.trans linked'.parent)
  subst same
  refine ⟨rfl, ?_⟩
  cases i <;> cases j
  · rfl
  · exact (inv.apart left right found there there rfl).elim
  · exact (inv.apart right left found there there rfl).elim
  · rfl

theorem not_fresh (inv : t.Inv x) {node : TrieNode w V} : t.nodes t.next ≠ some node :=
  fun found => Nat.lt_irrefl _ (inv.fresh found)

theorem settle (inv : t.Inv x)
    (settled : ∀ node, t.nodes x = some node → x ≠ 0 → node.value = none → ∃ b, t.Kid x true b) :
    t.Inv 0 :=
  { inv with
    full := by
      intro a node found root _ empty
      by_cases pending : a = x
      · subst pending
        exact settled node found root empty
      · exact inv.full found root pending empty }

end Inv

theorem Inv.setValue (inv : t.Inv x) {a : Nat} {node : TrieNode w V} (found : t.nodes a = some node)
    {value : Option V} (root : a = 0 → value = none) (full : value = none → a ≠ 0 → ∃ b, t.Kid a true b) :
    (t.write a { node with value }).Inv x := by
  have back : ∀ {b new}, (t.write a { node with value }).nodes b = some new → ∃ old,
      t.nodes b = some old ∧ new.Formed ∧ new.parent = old.parent ∧ new.kids = old.kids ∧
      new.key = old.key ∧ new.width = old.width ∧ new.value = if b = a then value else old.value := by
    intro b new there
    rw [nodes_write] at there
    split at there
    next same =>
      cases there
      subst same
      have formed := inv.formed found
      exact ⟨node, found, ⟨formed.bound, formed.mask, formed.key⟩, rfl, rfl, rfl, rfl, (if_pos rfl).symm⟩
    next other => exact ⟨new, there, inv.formed there, rfl, rfl, rfl, rfl, (if_neg other).symm⟩
  have forth : ∀ {b old}, t.nodes b = some old → ∃ new,
      (t.write a { node with value }).nodes b = some new := by
    intro b old there
    rw [nodes_write]
    split
    · exact ⟨_, rfl⟩
    · exact ⟨old, there⟩
  have kid : ∀ {p i b}, (t.write a { node with value }).Kid p i b ↔ t.Kid p i b := by
    intro p i b
    constructor
    · rintro ⟨new, there, isKid⟩
      obtain ⟨old, there', -, -, kids, -⟩ := back there
      exact ⟨old, there', kids ▸ isKid⟩
    · rintro ⟨old, there, isKid⟩
      obtain ⟨new, there'⟩ := forth there
      obtain ⟨old', there'', -, -, kids, -⟩ := back there'
      rw [there] at there''
      cases there''
      exact ⟨new, there', kids ▸ isKid⟩
  refine ⟨?_, ?_, ?_, ?_, ?_, ?_, ?_, ?_⟩
  · obtain ⟨head, there, mask, empty, orphan⟩ := inv.head
    rw [nodes_write]
    split
    next same =>
      subst same
      rw [found] at there
      cases there
      exact ⟨_, rfl, mask, root rfl, orphan⟩
    next => exact ⟨head, there, mask, empty, orphan⟩
  · intro b new there
    obtain ⟨old, there', -⟩ := back there
    exact inv.fresh there'
  · intro b new there
    obtain ⟨old, -, formed, -⟩ := back there
    exact formed
  · intro b new there notRoot
    obtain ⟨old, there', -, parent, -⟩ := back there
    obtain ⟨p, i, above, isKid⟩ := inv.up there' notRoot
    exact ⟨p, i, parent.trans above, kid.mpr isKid⟩
  · intro p i b above isKid there
    obtain ⟨old, there', -, -, -, key, wide, -⟩ := back there
    obtain ⟨below, found', linked⟩ := inv.down (kid.mp isKid) there'
    obtain ⟨new, there''⟩ := forth found'
    obtain ⟨below', found'', -, parent, -, key', wide', -⟩ := back there''
    rw [found'] at found''
    cases found''
    refine ⟨new, there'', parent.trans linked.parent, ?_, ?_⟩
    · rw [wide, wide']
      exact linked.longer
    · rw [wide, key, key']
      exact linked.agree
  · intro p a' b above left right leftKid rightKid there thereLeft thereRight
    obtain ⟨_, there', -, -, -, -, wide, -⟩ := back there
    obtain ⟨_, thereLeft', -, -, -, keyLeft, -⟩ := back thereLeft
    obtain ⟨_, thereRight', -, -, -, keyRight, -⟩ := back thereRight
    rw [wide, keyLeft, keyRight]
    exact inv.apart (kid.mp leftKid) (kid.mp rightKid) there' thereLeft' thereRight'
  · intro p b isKid
    obtain ⟨c, first⟩ := inv.first (kid.mp isKid)
    exact ⟨c, kid.mpr first⟩
  · intro b new there notRoot settled empty
    obtain ⟨old, there', -, -, -, -, -, same⟩ := back there
    rw [empty] at same
    split at same
    next here =>
      subst here
      obtain ⟨c, second⟩ := full same.symm notRoot
      exact ⟨c, kid.mpr second⟩
    next =>
      obtain ⟨c, second⟩ := inv.full there' notRoot settled same.symm
      exact ⟨c, kid.mpr second⟩

/-- `t'` is `t` with a new node as the `i`-th kid of `p`; the kid that was there, if any, is now the
kid of the new node. -/
structure Placed (t t' : Trie w V) (p : Nat) (i : Bool) (made : TrieNode w V) : Prop where
  next : t'.next = t.next + 1
  new : ∃ node, t'.nodes t.next = some node ∧ made.Kept node ∧ node.parent = some p
  back : ∀ {b node}, t'.nodes b = some node → b ≠ t.next → ∃ old, t.nodes b = some old
  forth : ∀ {b old}, t.nodes b = some old → ∃ node, t'.nodes b = some node ∧ old.Kept node ∧
    (t.Kid p i b → node.parent = some t.next) ∧ (¬ t.Kid p i b → node.parent = old.parent)
  kid : ∀ {q j b}, t'.Kid q j b ↔ (t.Kid q j b ∧ ¬ (q = p ∧ j = i)) ∨ (q = p ∧ j = i ∧ b = t.next) ∨
    (q = t.next ∧ j = false ∧ t.Kid p i b)

theorem Placed.old {p b : Nat} {i : Bool} {made node : TrieNode w V} (placed : Placed t t' p i made)
    (there : t'.nodes b = some node) (other : b ≠ t.next) :
    ∃ old, t.nodes b = some old ∧ old.Kept node ∧
      (t.Kid p i b → node.parent = some t.next) ∧ (¬ t.Kid p i b → node.parent = old.parent) := by
  obtain ⟨old, found⟩ := placed.back there other
  obtain ⟨node', there', rest⟩ := placed.forth found
  rw [there] at there'
  cases there'
  exact ⟨old, found, rest⟩

section Placement

variable {p n : Nat} {i : Bool} {parent : TrieNode w V} {key : BitVec w} {value : Option V}

/-- Where a node for `n` bits of the key may come: below `p`, above its `i`-th kid, and on the other
side of the first kid if it is to be the second one. -/
structure Place (t : Trie w V) (p : Nat) (parent : TrieNode w V) (i : Bool) (key : BitVec w) (n : Nat) :
    Prop where
  present : t.nodes p = some parent
  bound : n ≤ w
  longer : parent.width < n
  agree : Agree parent.width key parent.key
  below : ∀ {b kid}, t.Kid p i b → t.nodes b = some kid → n < kid.width ∧ Agree n key kid.key
  vacant : (∀ b, ¬ t.Kid p i b) → i = true → ∃ b sibling, t.Kid p false b ∧ t.nodes b = some sibling ∧
    key.getMsbD parent.width ≠ sibling.key.getMsbD parent.width

theorem agree_and_leading (n : Nat) (key : BitVec w) : Agree n (key &&& leading n) key := by
  rw [← and_leading_eq, BitVec.and_assoc, BitVec.and_self]

theorem Placed.made {p : Nat} (placed : Placed t t' p i (TrieNode.make key (leading n) value (some p)))
    (bound : n ≤ w) : ∃ new, t'.nodes t.next = some new ∧ new.Formed ∧ new.parent = some p ∧
      new.width = n ∧ Agree n new.key key ∧ new.value = value := by
  obtain ⟨wide, formed⟩ := TrieNode.Formed.make key bound value (some p)
  obtain ⟨new, there, kept, parent⟩ := placed.new
  refine ⟨new, there, kept.formed formed, parent, kept.width.trans wide, ?_, kept.value⟩
  rw [kept.key]
  exact agree_and_leading n key

variable (inv : t.Inv x) (place : Place t p parent i key n)
  (placed : Placed t t' p i (TrieNode.make key (leading n) value (some p)))

include inv in
theorem Inv.dead_kid {j : Bool} {b : Nat} : ¬ t.Kid t.next j b :=
  fun ⟨_, there, _⟩ => inv.not_fresh there

include inv place placed in
theorem placed_head :
    ∃ node, t'.nodes 0 = some node ∧ node.mask = 0 ∧ node.value = none ∧ node.parent = none := by
  obtain ⟨head, there, mask, empty, orphan⟩ := inv.head
  obtain ⟨node, there', kept, -, same⟩ := placed.forth there
  refine ⟨node, there', kept.mask.trans mask, kept.value.trans empty, ?_⟩
  rw [same ?_, orphan]
  intro isKid
  have above := (inv.linked isKid place.present there).parent
  rw [orphan] at above
  cases above

include inv placed in
theorem placed_fresh {b : Nat} {node : TrieNode w V} (there : t'.nodes b = some node) : b < t'.next := by
  rw [placed.next]
  by_cases here : b = t.next
  · omega
  · obtain ⟨old, found, -⟩ := placed.old there here
    have := inv.fresh found
    omega

include inv place placed in
theorem placed_formed {b : Nat} {node : TrieNode w V} (there : t'.nodes b = some node) :
    node.Formed := by
  by_cases here : b = t.next
  · obtain ⟨new, newThere, formed, -⟩ := placed.made place.bound
    rw [here, newThere] at there
    cases there
    exact formed
  · obtain ⟨old, found, kept, -⟩ := placed.old there here
    exact kept.formed (inv.formed found)

include inv place placed in
theorem placed_up {b : Nat} {node : TrieNode w V} (there : t'.nodes b = some node) (notRoot : b ≠ 0) :
    ∃ q j, node.parent = some q ∧ t'.Kid q j b := by
  by_cases here : b = t.next
  · obtain ⟨new, newThere, -, above, -⟩ := placed.made place.bound
    rw [here, newThere] at there
    cases there
    exact ⟨p, i, above, placed.kid.mpr (.inr (.inl ⟨rfl, rfl, here⟩))⟩
  · obtain ⟨old, found, kept, moved, stays⟩ := placed.old there here
    obtain ⟨q, j, above, isKid⟩ := inv.up found notRoot
    by_cases slot : t.Kid p i b
    · exact ⟨t.next, false, moved slot, placed.kid.mpr (.inr (.inr ⟨rfl, rfl, slot⟩))⟩
    · refine ⟨q, j, (stays slot).trans above, placed.kid.mpr (.inl ⟨isKid, ?_⟩)⟩
      rintro ⟨rfl, rfl⟩
      exact slot isKid

include inv place placed in
theorem placed_down {q b : Nat} {j : Bool} {above : TrieNode w V} (isKid : t'.Kid q j b)
    (there : t'.nodes q = some above) : ∃ node, t'.nodes b = some node ∧ Linked q above node := by
  obtain ⟨new, newThere, -, newParent, newWidth, newAgree, -⟩ := placed.made place.bound
  rcases placed.kid.mp isKid with ⟨oldKid, elsewhere⟩ | ⟨rfl, rfl, rfl⟩ | ⟨rfl, rfl, slot⟩
  · have live : q ≠ t.next := fun same => inv.dead_kid (same ▸ oldKid)
    obtain ⟨oldAbove, found, keptAbove, -⟩ := placed.old there live
    obtain ⟨oldBelow, found', linked⟩ := inv.down oldKid found
    obtain ⟨below, there', kept, -, stays⟩ := placed.forth found'
    have free : ¬ t.Kid p i b := fun slot => elsewhere (inv.kid_inj oldKid slot)
    exact ⟨below, there', keptAbove.linked kept linked.longer linked.agree
      ((stays free).trans linked.parent)⟩
  · obtain ⟨parent', parentThere, parentKept, -⟩ := placed.forth place.present
    rw [parentThere] at there
    cases there
    refine ⟨new, newThere, newParent, ?_, ?_⟩
    · rw [parentKept.width, newWidth]
      exact place.longer
    · rw [parentKept.width, parentKept.key]
      exact (newAgree.mono (Nat.le_of_lt place.longer)).trans place.agree
  · rw [newThere] at there
    cases there
    obtain ⟨oldBelow, found, -⟩ := inv.down slot place.present
    obtain ⟨below, there', kept, moved, -⟩ := placed.forth found
    obtain ⟨shorter, agree⟩ := place.below slot found
    refine ⟨below, there', moved slot, ?_, ?_⟩
    · rw [newWidth, kept.width]
      exact shorter
    · rw [newWidth, kept.key]
      exact (newAgree.trans agree).symm

include inv place placed in
theorem placed_sibling {b : Nat} {new node : TrieNode w V} (there : t'.nodes t.next = some new)
    (sibling : t.Kid p (!i) b) (found : t.nodes b = some node) :
    new.key.getMsbD parent.width ≠ node.key.getMsbD parent.width := by
  obtain ⟨new', there', -, -, -, newAgree, -⟩ := placed.made place.bound
  rw [there] at there'
  cases there'
  by_cases some_ : ∃ k, t.Kid p i k
  · -- the kid that was there shares the bit with the new node
    obtain ⟨k, slot⟩ := some_
    obtain ⟨kid, found', -⟩ := inv.down slot place.present
    have shared := (newAgree.trans (place.below slot found').2) _ place.longer
    rw [shared]
    cases i with
    | false => exact inv.apart slot sibling place.present found' found
    | true => exact (inv.apart sibling slot place.present found found').symm
  · have vacant : ∀ k, ¬ t.Kid p i k := fun k slot => some_ ⟨k, slot⟩
    cases i with
    | false =>
      obtain ⟨a, first⟩ := inv.first sibling
      exact (vacant a first).elim
    | true =>
      obtain ⟨a, node', first, found', differ⟩ := place.vacant vacant rfl
      rw [newAgree _ place.longer]
      rw [sibling.functional first, found'] at found
      cases found
      exact differ

include inv place placed in
theorem placed_apart {q a b : Nat} {above left right : TrieNode w V} (leftKid : t'.Kid q false a)
    (rightKid : t'.Kid q true b) (there : t'.nodes q = some above) (thereLeft : t'.nodes a = some left)
    (thereRight : t'.nodes b = some right) :
    left.key.getMsbD above.width ≠ right.key.getMsbD above.width := by
  have live : ∀ {c j k}, t.Kid c j k → k ≠ t.next := by
    intro c j k isKid same
    obtain ⟨node, found, -⟩ := id isKid
    obtain ⟨below, found', -⟩ := inv.down isKid found
    exact inv.not_fresh (same ▸ found')
  obtain ⟨parent', parentThere, parentKept, -⟩ := placed.forth place.present
  rcases placed.kid.mp leftKid with ⟨oldLeft, leftElse⟩ | ⟨rfl, rfl, rfl⟩ | ⟨rfl, -, -⟩
  · obtain ⟨l, foundLeft, keptLeft, -⟩ := placed.old thereLeft (live oldLeft)
    rcases placed.kid.mp rightKid with ⟨oldRight, -⟩ | ⟨rfl, rfl, rfl⟩ | ⟨-, wrong, -⟩
    · obtain ⟨r, foundRight, keptRight, -⟩ := placed.old thereRight (live oldRight)
      have other : q ≠ t.next := fun same => inv.dead_kid (same ▸ oldLeft)
      obtain ⟨o, found, kept, -⟩ := placed.old there other
      rw [kept.width, keptLeft.key, keptRight.key]
      exact inv.apart oldLeft oldRight found foundLeft foundRight
    · rw [parentThere] at there
      cases there
      rw [parentKept.width, keptLeft.key]
      exact (placed_sibling inv place placed thereRight oldLeft foundLeft).symm
    · cases wrong
  · rcases placed.kid.mp rightKid with ⟨oldRight, -⟩ | ⟨-, wrong, -⟩ | ⟨-, wrong, -⟩
    · obtain ⟨r, foundRight, keptRight, -⟩ := placed.old thereRight (live oldRight)
      rw [parentThere] at there
      cases there
      rw [parentKept.width, keptRight.key]
      exact placed_sibling inv place placed thereLeft oldRight foundRight
    · cases wrong
    · cases wrong
  · rcases placed.kid.mp rightKid with ⟨oldRight, -⟩ | ⟨same, -, -⟩ | ⟨-, wrong, -⟩
    · exact (inv.dead_kid oldRight).elim
    · exact (inv.not_fresh (same ▸ place.present)).elim
    · cases wrong

include inv place placed in
theorem placed_first {q b : Nat} (isKid : t'.Kid q true b) : ∃ a, t'.Kid q false a := by
  rcases placed.kid.mp isKid with ⟨oldKid, elsewhere⟩ | ⟨rfl, rfl, rfl⟩ | ⟨-, wrong, -⟩
  · obtain ⟨a, first⟩ := inv.first oldKid
    by_cases slot : q = p ∧ false = i
    · exact ⟨t.next, placed.kid.mpr (.inr (.inl ⟨slot.1, slot.2, rfl⟩))⟩
    · exact ⟨a, placed.kid.mpr (.inl ⟨first, slot⟩)⟩
  · by_cases some_ : ∃ b, t.Kid q true b
    · obtain ⟨b, second⟩ := some_
      obtain ⟨a, first⟩ := inv.first second
      exact ⟨a, placed.kid.mpr (.inl ⟨first, by simp⟩)⟩
    · obtain ⟨a, -, first, -⟩ := place.vacant (fun b second => some_ ⟨b, second⟩) rfl
      exact ⟨a, placed.kid.mpr (.inl ⟨first, by simp⟩)⟩
  · cases wrong

include inv place placed in
theorem placed_full {x' b : Nat} {node : TrieNode w V}
    (settled : ∀ b, b ≠ x' → (b ≠ 0 → b ≠ x) ∧ (b = t.next → value.isSome))
    (there : t'.nodes b = some node) (notRoot : b ≠ 0) (notPending : b ≠ x') (empty : node.value = none) :
    ∃ c, t'.Kid b true c := by
  obtain ⟨old, valued⟩ := settled b notPending
  by_cases here : b = t.next
  · have given := valued here
    obtain ⟨new, newThere, -, -, -, -, same⟩ := placed.made place.bound
    rw [here, newThere] at there
    cases there
    rw [← same, empty] at given
    cases given
  · obtain ⟨oldNode, found, kept, -⟩ := placed.old there here
    obtain ⟨c, second⟩ := inv.full found notRoot (old notRoot) (kept.value.symm.trans empty)
    by_cases slot : b = p ∧ true = i
    · exact ⟨t.next, placed.kid.mpr (.inr (.inl ⟨slot.1, slot.2, rfl⟩))⟩
    · exact ⟨c, placed.kid.mpr (.inl ⟨second, slot⟩)⟩

theorem Inv.of_placed {x' : Nat} (inv : t.Inv x) (place : Place t p parent i key n)
    (placed : Placed t t' p i (TrieNode.make key (leading n) value (some p)))
    (settled : ∀ b, b ≠ x' → (b ≠ 0 → b ≠ x) ∧ (b = t.next → value.isSome)) : t'.Inv x' where
  head := placed_head inv place placed
  fresh := placed_fresh inv placed
  formed := placed_formed inv place placed
  up := placed_up inv place placed
  down := placed_down inv place placed
  apart := placed_apart inv place placed
  first := placed_first inv place placed
  full := placed_full inv place placed settled

theorem Placed.contents (place : Place t p parent i key n)
    (placed : Placed t t' p i (TrieNode.make key (leading n) value (some p))) :
    t'.contents = update t.contents t.next
      (value.map fun v => ⟨key &&& leading n, n, v⟩) := by
  obtain ⟨wide, -⟩ := TrieNode.Formed.make key place.bound value (some p)
  funext b
  by_cases here : b = t.next
  · subst here
    obtain ⟨new, there, kept, -⟩ := placed.new
    rw [update_self, Trie.contents, there, bind_some, kept.key, kept.width, kept.value,
      wide]
    rfl
  · rw [update_of_ne here, Trie.contents, Trie.contents]
    cases found : t.nodes b with
    | some old =>
      obtain ⟨node, there, kept, -⟩ := placed.forth found
      rw [there, bind_some, bind_some, kept.key, kept.width, kept.value]
    | none =>
      cases there : t'.nodes b with
      | some node =>
        obtain ⟨old, found', -⟩ := placed.old there here
        rw [found] at found'
        cases found'
      | none => rfl

end Placement

theorem kids_setKid (node : TrieNode w V) (i j : Bool) (kid : Option Nat) :
    (node.setKid i kid).kids j = if j = i then kid else node.kids j :=
  update_apply _ _ _ _

theorem TrieNode.Kept.refl (node : TrieNode w V) : node.Kept node := ⟨rfl, rfl, rfl⟩

section Edges

variable {p : Nat} {i : Bool} {parent : TrieNode w V}

theorem Inv.kid_ne (inv : t.Inv x) {kid : Nat} (isKid : t.Kid p i kid) : kid ≠ p := by
  rintro rfl
  obtain ⟨node, found, -⟩ := id isKid
  exact Nat.lt_irrefl _ (inv.linked isKid found found).longer

theorem addKid_placed (key mask : BitVec w) (value : Option V) (inv : t.Inv x) (found : t.nodes p = some parent)
    (vacant : parent.kids i = none) :
    Placed t (t.addKid p parent i key mask value).1 p i (TrieNode.make key mask value (some p)) := by
  have live : p ≠ t.next := fun same => inv.not_fresh (same ▸ found)
  have nodes : ∀ b, (t.addKid p parent i key mask value).1.nodes b =
      if b = p then some (parent.setKid i (some t.next))
      else if b = t.next then some (TrieNode.make key mask value (some p)) else t.nodes b := by
    intro b
    rw [addKid, nodes_write, nodes_alloc]
  have none_ : ∀ b, ¬ t.Kid p i b := by
    intro b
    rw [kid_iff found, vacant]
    intro wrong
    cases wrong
  refine ⟨rfl, ?_, ?_, ?_, ?_⟩
  · rw [nodes, if_neg live.symm, if_pos rfl]
    exact ⟨_, rfl, TrieNode.Kept.refl _, rfl⟩
  · intro b node there other
    rw [nodes] at there
    split at there
    next same => exact ⟨parent, same ▸ found⟩
    next => exact ⟨node, by simpa [other] using there⟩
  · intro b old there
    rw [nodes]
    split
    next same =>
      rw [same, found] at there
      cases there
      exact ⟨_, rfl, ⟨rfl, rfl, rfl⟩, fun slot => (none_ b slot).elim, fun _ => rfl⟩
    next =>
      have other : b ≠ t.next := fun same => inv.not_fresh (same ▸ there)
      rw [if_neg other]
      exact ⟨old, there, TrieNode.Kept.refl _, fun slot => (none_ b slot).elim, fun _ => rfl⟩
  · intro q j b
    have old : ∀ {c}, c ≠ p → c ≠ t.next → ((t.addKid p parent i key mask value).1.Kid c j b ↔
        t.Kid c j b) := by
      intro c notParent notNew
      rw [Kid, Kid, nodes, if_neg notParent, if_neg notNew]
    by_cases atParent : q = p
    · subst atParent
      rw [kid_iff ((nodes q).trans (if_pos rfl)), kids_setKid, kid_iff found]
      by_cases slot : j = i
      · simp [slot, live, eq_comm]
      · simp [slot, live]
    · by_cases atNew : q = t.next
      · subst atNew
        rw [kid_iff ((nodes t.next).trans (by rw [if_neg live.symm, if_pos rfl]))]
        simp [TrieNode.make, inv.dead_kid, live.symm, none_]
      · rw [old atParent atNew]
        simp [atParent, atNew]

theorem splitEdge_placed (key mask : BitVec w) (value : Option V) (inv : t.Inv x) (found : t.nodes p = some parent)
    {kid : Nat} {kidNode : TrieNode w V} (occupied : parent.kids i = some kid) (below : t.nodes kid = some kidNode) :
    Placed t (t.splitEdge p parent i kid kidNode key mask value) p i
      (TrieNode.make key mask value (some p)) := by
  have slot : t.Kid p i kid := (kid_iff found).mpr occupied
  have live : p ≠ t.next := fun same => inv.not_fresh (same ▸ found)
  have kidLive : kid ≠ t.next := fun same => inv.not_fresh (same ▸ below)
  have apart : kid ≠ p := inv.kid_ne slot
  have only : ∀ {b}, t.Kid p i b ↔ b = kid := by
    intro b
    rw [kid_iff found, occupied, Option.some.injEq, eq_comm]
  have nodes : ∀ b, (t.splitEdge p parent i kid kidNode key mask value).nodes b =
      if b = p then some (parent.setKid i (some t.next))
      else if b = kid then some { kidNode with parent := some t.next }
      else if b = t.next then
        some ((TrieNode.make key mask value (some p)).setKid false (some kid))
      else t.nodes b := by
    intro b
    rw [splitEdge, nodes_write, nodes_write, nodes_alloc]
  refine ⟨rfl, ?_, ?_, ?_, ?_⟩
  · rw [nodes, if_neg live.symm, if_neg kidLive.symm, if_pos rfl]
    exact ⟨_, rfl, ⟨rfl, rfl, rfl⟩, rfl⟩
  · intro b node there other
    rw [nodes] at there
    split at there
    next same => exact ⟨parent, same ▸ found⟩
    next =>
      split at there
      next same => exact ⟨kidNode, same ▸ below⟩
      next => exact ⟨node, by simpa [other] using there⟩
  · intro b old there
    have other : b ≠ t.next := fun same => inv.not_fresh (same ▸ there)
    rw [nodes, only, if_neg other]
    split
    next same =>
      rw [same, found] at there
      cases there
      exact ⟨_, rfl, ⟨rfl, rfl, rfl⟩, fun wrong => (apart (wrong.symm.trans same)).elim, fun _ => rfl⟩
    next =>
      split
      next same =>
        rw [same, below] at there
        cases there
        exact ⟨_, rfl, ⟨rfl, rfl, rfl⟩, fun _ => rfl, fun wrong => (wrong same).elim⟩
      next different =>
        exact ⟨old, there, TrieNode.Kept.refl _, fun wrong => (different wrong).elim, fun _ => rfl⟩
  · intro q j b
    rw [only]
    by_cases atParent : q = p
    · subst atParent
      rw [kid_iff ((nodes q).trans (if_pos rfl)), kids_setKid, kid_iff found]
      by_cases here : j = i
      · simp [here, live, eq_comm]
      · simp [here, live]
    · by_cases atKid : q = kid
      · subst atKid
        rw [kid_iff ((nodes q).trans (by rw [if_neg atParent, if_pos rfl])), kid_iff below]
        simp [atParent, kidLive]
      · by_cases atNew : q = t.next
        · subst atNew
          rw [kid_iff ((nodes t.next).trans (by rw [if_neg live.symm, if_neg atKid, if_pos rfl])),
            kids_setKid]
          cases j with
          | false => simp [inv.dead_kid, live.symm, eq_comm]
          | true => simp [TrieNode.make, inv.dead_kid, live.symm]
        · rw [Kid, Kid, nodes, if_neg atParent, if_neg atKid, if_neg atNew]
          simp [atParent, atNew]

end Edges

section Insertion

variable {key : BitVec w} {n : Nat}

theorem newMask_eq (n : Nat) : newMask w n = leading n := by
  unfold newMask leading
  split
  · rfl
  · rw [Nat.sub_eq_zero_of_le (by omega), BitVec.shiftLeft_zero]

theorem extendMask_leading (m : Nat) : extendMask (leading m : BitVec w) = leading (m + 1) :=
  leading_succ m

theorem goesAfter_ok (key : BitVec w) (n : Nat) (inv : t.Inv x) {p : Nat} {parent : TrieNode w V}
    (present : t.nodes p = some parent) (i : Bool) :
    ∃ answer, t.goesAfter key (leading n) (parent.kids i) = .ok answer ∧
      (answer = true ↔ ∃ kid node, parent.kids i = some kid ∧ t.nodes kid = some node ∧
        Agree node.width key node.key ∧ node.width ≤ n) := by
  cases kid : parent.kids i with
  | none => exact ⟨false, rfl, by simp⟩
  | some a =>
    obtain ⟨node, found, -⟩ := inv.down ⟨parent, present, kid⟩ present
    have formed := inv.formed found
    refine ⟨_, by rw [goesAfter, read_some found, ok_andThen], ?_⟩
    rw [Bool.and_eq_true, formed.matchesKey_iff, beq_iff_eq, formed.mask, leading_and_eq formed.bound]
    constructor
    · rintro ⟨agree, short⟩
      exact ⟨a, node, rfl, found, agree, short⟩
    · rintro ⟨b, other, same, found', agree, short⟩
      cases same
      rw [found] at found'
      cases found'
      exact ⟨agree, short⟩

structure Last (t : Trie w V) (key : BitVec w) (n a : Nat) (node : TrieNode w V) : Prop where
  found : t.nodes a = some node
  agree : Agree node.width key node.key
  short : node.width ≤ n
  last : ∀ {i b kid}, t.Kid a i b → t.nodes b = some kid → ¬ (Agree kid.width key kid.key ∧ kid.width ≤ n)

theorem walk_ok (key : BitVec w) (n : Nat) (inv : t.Inv x) : ∀ fuel a (node : TrieNode w V), t.nodes a = some node →
    Agree node.width key node.key → node.width ≤ n → w - node.width < fuel →
    ∃ a' node', t.walk key (leading n) fuel a = .ok a' ∧ Last t key n a' node' := by
  intro fuel
  induction fuel with
  | zero =>
    intro a node _ _ _ enough
    omega
  | succ fuel ih =>
    intro a node found agree short enough
    have onward : ∀ {i kid below}, node.kids i = some kid → t.nodes kid = some below →
        Agree below.width key below.key → below.width ≤ n →
        ∃ a' node', t.walk key (leading n) fuel kid = .ok a' ∧ Last t key n a' node' := by
      intro i kid below isKid there agree' short'
      have longer := (inv.linked ((kid_iff found).mpr isKid) found there).longer
      have bound := (inv.formed there).bound
      have nearer : w - below.width < fuel := by omega
      exact ih kid below there agree' short' nearer
    obtain ⟨first, run, firstIff⟩ := goesAfter_ok key n inv found false
    obtain ⟨second, run', secondIff⟩ := goesAfter_ok key n inv found true
    rw [walk, read_some found, ok_andThen, run, ok_andThen]
    cases first with
    | true =>
      obtain ⟨kid, below, isKid, there, agree', short'⟩ := firstIff.mp rfl
      rw [if_pos rfl, isKid]
      exact onward isKid there agree' short'
    | false =>
      rw [if_neg Bool.false_ne_true, run', ok_andThen]
      cases second with
      | true =>
        obtain ⟨kid, below, isKid, there, agree', short'⟩ := secondIff.mp rfl
        rw [if_pos rfl, isKid]
        exact onward isKid there agree' short'
      | false =>
        refine ⟨a, node, rfl, found, agree, short, ?_⟩
        intro i b kid isKid there after
        rw [kid_iff found] at isKid
        cases i with
        | false => exact Bool.false_ne_true (firstIff.mpr ⟨b, kid, isKid, there, after⟩)
        | true => exact Bool.false_ne_true (secondIff.mpr ⟨b, kid, isKid, there, after⟩)

theorem commonMask_ok (key kidKey : BitVec w) (bound : n ≤ w) : ∀ fuel m, m ≤ n → Agree m key kidKey →
    n - m < fuel → ∃ r, commonMask key kidKey (leading n) fuel (leading m) = .ok (leading r) ∧ m ≤ r ∧
      r ≤ n ∧ Agree r key kidKey ∧ (r = n ∨ key.getMsbD r ≠ kidKey.getMsbD r) := by
  intro fuel
  induction fuel with
  | zero =>
    intro m _ _ enough
    omega
  | succ fuel ih =>
    intro m short agree enough
    rw [commonMask, extendMask_leading]
    split
    next stop =>
      refine ⟨m, rfl, Nat.le_refl m, short, agree, ?_⟩
      rcases stop with differ | reached
      · right
        intro bit
        exact differ (and_leading_eq.mpr (Agree.succ_iff.mpr ⟨agree, bit⟩))
      · exact .inl (leading_inj (by omega) bound reached)
    next go =>
      obtain ⟨same, more⟩ := not_or.mp go
      have longer : m ≠ n := fun equal => more (equal ▸ rfl)
      obtain ⟨r, run, le, rest⟩ := ih (m + 1) (by omega) (and_leading_eq.mp (not_not.mp same)) (by omega)
      exact ⟨r, run, by omega, rest⟩

structure Inserted (t t' : Trie w V) (handle : Nat) (key : BitVec w) (n : Nat) (v : V) : Prop where
  inv : t'.Inv 0
  unused : t.contents handle = none
  contents : t'.contents = Function.update t.contents handle (some ⟨key &&& leading n, n, v⟩)

theorem Inv.unused (inv : t.Inv x) : t.contents t.next = none := by
  rw [contents]
  cases found : t.nodes t.next with
  | none => rfl
  | some node => exact (inv.not_fresh found).elim

variable {p : Nat} {parent : TrieNode w V} {i : Bool} {v : V}

theorem addKid_inserted (inv : t.Inv 0) (place : Place t p parent i key n) (vacant : parent.kids i = none) :
    Inserted t (t.addKid p parent i key (leading n) (some v)).1 t.next key n v := by
  have placed := addKid_placed key (leading n) (some v) inv place.present vacant
  exact ⟨inv.of_placed place placed (fun b notRoot => ⟨fun _ => notRoot, fun _ => rfl⟩), inv.unused,
    placed.contents place⟩

theorem splitEdge_inserted (inv : t.Inv 0) (place : Place t p parent i key n) {kid : Nat}
    {kidNode : TrieNode w V} (occupied : parent.kids i = some kid) (below : t.nodes kid = some kidNode) :
    Inserted t (t.splitEdge p parent i kid kidNode key (leading n) (some v)) t.next key n v := by
  have placed := splitEdge_placed key (leading n) (some v) inv place.present
    occupied below
  exact ⟨inv.of_placed place placed (fun b notRoot => ⟨fun _ => notRoot, fun _ => rfl⟩), inv.unused,
    placed.contents place⟩

theorem fork_inserted (inv : t.Inv 0) {r : Nat} (place : Place t p parent i key r) {kid : Nat}
    {kidNode : TrieNode w V} (occupied : parent.kids i = some kid) (below : t.nodes kid = some kidNode)
    (more : r < n) (bound : n ≤ w) (differ : key.getMsbD r ≠ kidNode.key.getMsbD r) :
    ∃ middle, (t.splitEdge p parent i kid kidNode key (leading r) none).nodes t.next = some middle ∧
      Inserted t ((t.splitEdge p parent i kid kidNode key (leading r) none).addKid t.next middle true
        key (leading n) (some v)).1 (t.next + 1) key n v := by
  have placed := splitEdge_placed key (leading r) none inv place.present
    occupied below
  have slot : t.Kid p i kid := (kid_iff place.present).mpr occupied
  obtain ⟨middle, there, -, -, wide, agree, -⟩ := placed.made place.bound
  refine ⟨middle, there, ?_⟩
  have inv' : (t.splitEdge p parent i kid kidNode key (leading r) none).Inv t.next :=
    inv.of_placed place placed (fun b other => ⟨id, fun same => (other same).elim⟩)
  have noSecond : ∀ b, ¬ (t.splitEdge p parent i kid kidNode key (leading r) none).Kid t.next true b := by
    intro b second
    rcases placed.kid.mp second with ⟨wrong, -⟩ | ⟨same, -⟩ | ⟨-, wrong, -⟩
    · exact inv.dead_kid wrong
    · exact inv.not_fresh (same ▸ place.present)
    · cases wrong
  have vacant : middle.kids true = none := by
    cases second : middle.kids true with
    | none => rfl
    | some b => exact (noSecond b ((kid_iff there).mpr second)).elim
  obtain ⟨kid', kidThere, kept, -⟩ := placed.forth below
  have place' : Place (t.splitEdge p parent i kid kidNode key (leading r) none) t.next middle true key n := by
    refine ⟨there, bound, wide ▸ more, wide ▸ agree.symm, fun second => (noSecond _ second).elim, ?_⟩
    intro _ _
    refine ⟨kid, kid', placed.kid.mpr (.inr (.inr ⟨rfl, rfl, slot⟩)), kidThere, ?_⟩
    rw [wide, kept.key]
    exact differ
  have placed' := addKid_placed key (leading n) (some v) inv' there vacant
  have inv'' : Inv _ t.next := inv'.of_placed place' placed' (fun b other => ⟨fun _ => other, fun _ => rfl⟩)
  refine ⟨inv''.settle ?_, ?_, ?_⟩
  · intro node found notRoot empty
    exact ⟨_, placed'.kid.mpr (.inr (.inl ⟨rfl, rfl, rfl⟩))⟩
  · rw [contents]
    cases found : t.nodes (t.next + 1) with
    | none => rfl
    | some node =>
      have := inv.fresh found
      omega
  · have same : (t.splitEdge p parent i kid kidNode key (leading r) none).contents = t.contents := by
      rw [placed.contents place]
      exact update_eq_self_iff.mpr inv.unused.symm
    rw [placed'.contents place', same]
    rfl

theorem insertLegs_ok (inv : t.Inv 0) (last : Last t key n p parent) (longer : parent.width < n)
    (bound : n ≤ w) (rest : List Bool) (beside : i = true → ∃ b sibling, t.Kid p false b ∧ t.nodes b = some sibling ∧
      key.getMsbD parent.width ≠ sibling.key.getMsbD parent.width) :
    (∃ t' handle, t.insertLegs p parent key (leading n) (some v) (i :: rest) = .ok (t', handle) ∧
      Inserted t t' handle key n v) ∨
    (∃ b kid, t.Kid p i b ∧ t.nodes b = some kid ∧
      key.getMsbD parent.width ≠ kid.key.getMsbD parent.width ∧
      t.insertLegs p parent key (leading n) (some v) (i :: rest) =
        t.insertLegs p parent key (leading n) (some v) rest) := by
  have formed := inv.formed last.found
  cases occupied : parent.kids i with
  | none =>
    left
    have none_ : ∀ b, ¬ t.Kid p i b := by
      intro b
      rw [kid_iff last.found, occupied]
      intro wrong
      cases wrong
    have place : Place t p parent i key n :=
      ⟨last.found, bound, longer, last.agree, fun slot => (none_ _ slot).elim, fun _ => beside⟩
    refine ⟨_, _, ?_, addKid_inserted inv place occupied⟩
    rw [insertLegs, occupied]
    rfl
  | some b =>
    have slot : t.Kid p i b := (kid_iff last.found).mpr occupied
    obtain ⟨kid, below, linked⟩ := inv.down slot last.found
    obtain ⟨r, run, le, short, agree, stop⟩ := commonMask_ok key kid.key bound (w + 1)
      parent.width last.short (last.agree.trans linked.agree.symm) (by omega)
    rw [← formed.mask] at run
    have unfold_ : t.insertLegs p parent key (leading n) (some v) (i :: rest) =
        if leading r = parent.mask then t.insertLegs p parent key (leading n) (some v) rest
        else if leading r = (leading n : BitVec w) then
          .ok (t.splitEdge p parent i b kid key (leading r) (some v), t.next)
        else (t.splitEdge p parent i b kid key (leading r) none).read t.next >>= fun middle =>
          .ok ((t.splitEdge p parent i b kid key (leading r) none).addKid t.next middle true key
            (leading n) (some v)) := by
      rw [insertLegs, occupied]
      dsimp only
      rw [read_some below, ok_andThen, run, ok_andThen]
    rw [unfold_]
    by_cases immediately : r = parent.width
    · right
      refine ⟨b, kid, slot, below, ?_, ?_⟩
      · rcases stop with wrong | differ
        · omega
        · exact immediately ▸ differ
      · rw [if_pos (by rw [immediately, formed.mask])]
    · left
      have later : leading r ≠ parent.mask := by
        intro same
        rw [formed.mask] at same
        exact immediately (leading_inj (by omega) formed.bound same)
      have inside : r < kid.width := by
        by_contra beyond
        exact last.last slot below ⟨agree.mono (by omega), by omega⟩
      have place : Place t p parent i key r := by
        refine ⟨last.found, by omega, by omega, last.agree, ?_, fun vacant => (vacant b slot).elim⟩
        intro c node slot' there
        rw [slot'.functional slot, below] at there
        cases there
        exact ⟨inside, agree⟩
      rw [if_neg later]
      by_cases whole : r = n
      · subst whole
        rw [if_pos rfl]
        exact ⟨_, _, rfl, splitEdge_inserted inv place occupied below⟩
      · have proper : (leading r : BitVec w) ≠ leading n :=
          fun same => whole (leading_inj (by omega) bound same)
        obtain ⟨middle, there, inserted⟩ := fork_inserted (n := n) (v := v) inv place occupied below
          (by omega) bound (stop.resolve_left whole)
        rw [if_neg proper, read_some there, ok_andThen]
        exact ⟨_, _, rfl, inserted⟩

theorem insert_ok (inv : t.Inv 0) (positive : 1 ≤ n) (bound : n ≤ w) (k : BitVec w) (v : V)
    (distinct : ∀ a e, t.contents a = some e → e.width = n → ¬ Agree n e.key k) :
    ∃ t' handle, t.insert k n (some v) = .ok (t', handle) ∧ Inserted t t' handle k n v := by
  have agrees : Agree n (k &&& leading n) k := agree_and_leading n k
  have twice : (k &&& leading n) &&& leading n = k &&& leading n := by
    rw [BitVec.and_assoc, BitVec.and_self]
  obtain ⟨head, headFound, -⟩ := inv.head
  have headWidth := inv.head_width headFound
  obtain ⟨p, parent, walked, last⟩ := walk_ok (k &&& leading n) n inv (w + 1) 0 head headFound
    (by
      rw [headWidth]
      intro j small
      omega) (by omega) (by omega)
  have formed := inv.formed last.found
  have inserted : ∀ {t' handle}, Inserted t t' handle (k &&& leading n) n v → Inserted t t' handle k n v :=
    fun h => ⟨h.inv, h.unused, twice ▸ h.contents⟩
  unfold Trie.insert
  rw [show check (some v).isSome = .ok () from rfl, ok_andThen]
  dsimp only
  rw [newMask_eq, walked, ok_andThen, read_some last.found, ok_andThen]
  split
  next here =>
    have wide : parent.width = n := by
      rw [formed.mask] at here
      exact leading_inj formed.bound bound here
    have empty : parent.value = none := by
      cases stored : parent.value with
      | none => rfl
      | some other =>
        have found : t.contents p = some ⟨parent.key, parent.width, other⟩ := by
          rw [contents, last.found, bind_some, stored]
          rfl
        apply (distinct p _ found wide).elim
        show Agree n parent.key k
        rw [← wide]
        exact last.agree.symm.trans (agrees.mono last.short)
    have notRoot : p ≠ 0 := by
      rintro rfl
      have := inv.head_width last.found
      omega
    rw [show check parent.value.isNone = .ok () from by rw [empty]; rfl, ok_andThen]
    refine ⟨_, _, rfl, inv.setValue last.found (fun root => (notRoot root).elim) nofun, ?_, ?_⟩
    · rw [contents, last.found, bind_some, empty]
      rfl
    · funext b
      rw [contents, nodes_write]
      by_cases same : b = p
      · rw [if_pos same, same, update_self, bind_some]
        have key_ : parent.key = k &&& leading n := by
          rw [← formed.key, here, and_leading_eq, ← wide]
          exact last.agree.symm.trans (agrees.mono last.short)
        show some (Stored.mk parent.key parent.width v) = _
        rw [key_, wide]
      · rw [if_neg same, update_of_ne same]
        rfl
  next other =>
    have longer : parent.width < n := by
      have differ : parent.width ≠ n := fun same => other (same ▸ formed.mask)
      have := last.short
      omega
    rcases insertLegs_ok (v := v) inv last longer bound [true] (i := false) nofun with
      ⟨t', handle, run, done⟩ | ⟨b, left, first, found, differ, skip⟩
    · exact ⟨t', handle, run, inserted done⟩
    · rw [skip]
      rcases insertLegs_ok (v := v) inv last longer bound [] (i := true)
          (fun _ => ⟨b, left, first, found, differ⟩) with
        ⟨t', handle, run, done⟩ | ⟨c, right, second, found', differ', -⟩
      · exact ⟨t', handle, run, inserted done⟩
      · -- the key differs from both kids in a bit in which they differ from each other
        have apart := inv.apart first second last.found found found'
        have one : left.key.getMsbD parent.width = !(k &&& leading n).getMsbD parent.width :=
          Bool.eq_not.mpr differ.symm
        have two : right.key.getMsbD parent.width = !(k &&& leading n).getMsbD parent.width :=
          Bool.eq_not.mpr differ'.symm
        exact (apart (one.trans two.symm)).elim

end Insertion

end Trie

end Resister.Base
