import Mathlib
import Resister.Base.Logging
import Resister.Library.BitPrefix

/-!
# The trie

`Trie<Key, Value>` on keys of `w` bits: a tree of nodes linked by pointers, each for a number of
leading bits of the key.
-/

namespace Resister.Base

open Resister.BitPrefix

structure TrieNode (w : Nat) (V : Type) where
  key : BitVec w
  mask : BitVec w
  value : Option V
  parent : Option Nat
  kids : Bool → Option Nat

structure Trie (w : Nat) (V : Type) where
  nodes : Nat → Option (TrieNode w V)
  next : Nat

variable {w : Nat} {V : Type}

namespace TrieNode

/-- `Node(key, mask, val)` -/
def make (key mask : BitVec w) (value : Option V) (parent : Option Nat) : TrieNode w V where
  key := key &&& mask
  mask
  value
  parent
  kids _ := none

def matchesKey (node : TrieNode w V) (test : BitVec w) : Bool := test &&& node.mask == node.key

def setKid (node : TrieNode w V) (i : Bool) (kid : Option Nat) : TrieNode w V :=
  { node with kids := Function.update node.kids i kid }

end TrieNode

namespace Trie

def empty : Trie w V where
  nodes := Function.update (fun _ => none) 0 (some (TrieNode.make 0 0 none none))
  next := 1

def read (t : Trie w V) (address : Nat) : Except Fault (TrieNode w V) :=
  match t.nodes address with
  | some node => .ok node
  | none => .error .undefined

def write (t : Trie w V) (address : Nat) (node : TrieNode w V) : Trie w V :=
  { t with nodes := Function.update t.nodes address (some node) }

def alloc (t : Trie w V) (node : TrieNode w V) : Trie w V where
  nodes := Function.update t.nodes t.next (some node)
  next := t.next + 1

def free (t : Trie w V) (address : Nat) : Trie w V :=
  { t with nodes := Function.update t.nodes address none }

/-! ## Lookup -/

def kidMatches (t : Trie w V) (key : BitVec w) : Option Nat → Except Fault Bool
  | none => .ok false
  | some kid => do
    let node ← t.read kid
    .ok (node.matchesKey key)

def nextNode (t : Trie w V) (key : BitVec w) (node : TrieNode w V) : Except Fault (Option Nat) := do
  let first ← t.kidMatches key (node.kids false)
  if first then .ok (node.kids false)
  else do
    let second ← t.kidMatches key (node.kids true)
    if second then .ok (node.kids true) else .ok none

def lookupFrom (t : Trie w V) (key : BitVec w) : Nat → Option Nat → Except Fault (Option Nat)
  | _, none => .ok none
  | 0, some _ => .error .undefined
  | fuel + 1, some address => do
    let node ← t.read address
    if node.value.isSome then .ok (some address)
    else do
      let next ← t.nextNode key node
      lookupFrom t key fuel next

def lookupHandle (t : Trie w V) (key : BitVec w) : Except Fault (Option Nat) :=
  t.lookupFrom key (w + 1) (some 0)

def lookup (t : Trie w V) (key : BitVec w) : Except Fault (Option V) := do
  let handle ← t.lookupHandle key
  match handle with
  | none => .ok none
  | some address => do
    let node ← t.read address
    .ok node.value

/-! ## Insertion -/

def extendMask (orig : BitVec w) : BitVec w := orig ||| (orig >>> 1) ||| (1#w <<< (w - 1))

/-- The mask of the first `width` bits. For a width of zero the source shifts by all the bits of the
key. -/
def newMask (w width : Nat) : BitVec w :=
  if width < w then BitVec.allOnes w <<< (w - width) else BitVec.allOnes w

def goesAfter (t : Trie w V) (key mask : BitVec w) : Option Nat → Except Fault Bool
  | none => .ok false
  | some kid => do
    let node ← t.read kid
    .ok (node.matchesKey key && (node.mask &&& mask == node.mask))

def walk (t : Trie w V) (key mask : BitVec w) : Nat → Nat → Except Fault Nat
  | 0, _ => .error .undefined
  | fuel + 1, address => do
    let node ← t.read address
    let first ← t.goesAfter key mask (node.kids false)
    if first then walk t key mask fuel ((node.kids false).getD 0)
    else do
      let second ← t.goesAfter key mask (node.kids true)
      if second then walk t key mask fuel ((node.kids true).getD 0) else .ok address

def commonMask (key kidKey mask : BitVec w) : Nat → BitVec w → Except Fault (BitVec w)
  | 0, _ => .error .undefined
  | fuel + 1, last =>
    let current := extendMask last
    if key &&& current ≠ kidKey &&& current ∨ last = mask then .ok last
    else commonMask key kidKey mask fuel current

def addKid (t : Trie w V) (address : Nat) (node : TrieNode w V) (i : Bool) (key mask : BitVec w)
    (value : Option V) : Trie w V × Nat :=
  let t' := t.alloc (TrieNode.make key mask value (some address))
  (t'.write address (node.setKid i (some t.next)), t.next)

def splitEdge (t : Trie w V) (address : Nat) (node : TrieNode w V) (i : Bool) (kid : Nat)
    (kidNode : TrieNode w V) (key mask : BitVec w) (value : Option V) : Trie w V :=
  let t' := t.alloc ((TrieNode.make key mask value (some address)).setKid false (some kid))
  (t'.write kid { kidNode with parent := some t.next }).write address (node.setKid i (some t.next))

def insertLegs (t : Trie w V) (address : Nat) (node : TrieNode w V) (key mask : BitVec w)
    (value : Option V) : List Bool → Except Fault (Trie w V × Nat)
  | [] => .error (.panic "Reached the end of the Trie insert function!\n")
  | i :: rest =>
    match node.kids i with
    | none => .ok (t.addKid address node i key mask value)
    | some kid => do
      let kidNode ← t.read kid
      let current ← commonMask key kidNode.key mask (w + 1) node.mask
      if current = node.mask then insertLegs t address node key mask value rest
      else if current = mask then
        .ok (t.splitEdge address node i kid kidNode key current value, t.next)
      else do
        let split := t.splitEdge address node i kid kidNode key current none
        let middle ← split.read t.next
        .ok (split.addKid t.next middle true key mask value)

def insert (t : Trie w V) (key : BitVec w) (width : Nat) (value : Option V) :
    Except Fault (Trie w V × Nat) := do
  check value.isSome
  let mask := newMask w width
  let key := key &&& mask
  let address ← t.walk key mask (w + 1) 0
  let node ← t.read address
  if node.mask = mask then do
    check node.value.isNone
    .ok (t.write address { node with value }, address)
  else t.insertLegs address node key mask value [false, true]

/-! ## Removal -/

def adopt (t : Trie w V) (kid : Option Nat) (parent : Nat) : Except Fault (Trie w V) :=
  match kid with
  | none => .ok t
  | some address => do
    let node ← t.read address
    .ok (t.write address { node with parent := some parent })

def replaceKid (parent : TrieNode w V) (address : Nat) (kid : Option Nat) :
    Except Fault (TrieNode w V) :=
  if parent.kids false = some address then .ok (parent.setKid false kid)
  else if parent.kids true = some address then .ok (parent.setKid true kid)
  else .error (.panic "Trie: Inconsistent parent/kid relationship.\n")

def tidy (node : TrieNode w V) : TrieNode w V :=
  if (node.kids true).isSome && (node.kids false).isNone then
    (node.setKid false (node.kids true)).setKid true none
  else node

/-- The node at `address` is taken out between its parent and its kid. The parent is returned as it
then is. -/
def unlink (t : Trie w V) (address : Nat) (node : TrieNode w V) (parent : Nat) :
    Except Fault (Trie w V × TrieNode w V) := do
  let t ← t.adopt (node.kids false) parent
  let parentNode ← t.read parent
  let parentNode ← replaceKid parentNode address (node.kids false)
  .ok (t.write parent (tidy parentNode), tidy parentNode)

def removeFrom : Nat → Trie w V → Nat → Except Fault (Trie w V × Option V)
  | 0, _, _ => .error .undefined
  | fuel + 1, t, address => do
    let node ← t.read address
    if (node.kids true).isSome then do
      check node.value.isSome
      .ok (t.write address { node with value := none }, node.value)
    else
      match node.parent with
      | none => .error (.panic "Trie: Can't remove root node.\n")
      | some parent => do
        let (t, parentNode) ← t.unlink address node parent
        if (parentNode.kids true).isNone && parentNode.value.isNone && parentNode.parent.isSome then do
          let (t, _) ← removeFrom fuel t parent
          .ok (t.free address, node.value)
        else .ok (t.free address, node.value)

def remove (t : Trie w V) (handle : Nat) : Except Fault (Trie w V × Option V) :=
  removeFrom (w + 2) t handle

end Trie

/-! ## The invariant -/

namespace TrieNode

def width (node : TrieNode w V) : Nat := BitPrefix.width node.mask

structure Formed (node : TrieNode w V) : Prop where
  bound : node.width ≤ w
  mask : node.mask = leading node.width
  key : node.key &&& node.mask = node.key

namespace Formed

variable {node : TrieNode w V} {test : BitVec w}

theorem matchesKey_iff (formed : node.Formed) : node.matchesKey test = true ↔ Agree node.width test node.key := by
  rw [matchesKey, beq_iff_eq, ← and_leading_eq, ← formed.mask, formed.key]

theorem make (key : BitVec w) {n : Nat} (bound : n ≤ w) (value : Option V) (parent : Option Nat) :
    (TrieNode.make key (leading n) value parent).width = n ∧
      (TrieNode.make key (leading n) value parent).Formed := by
  have wide : (TrieNode.make key (leading n) value parent).width = n := width_leading bound
  refine ⟨wide, ?_, ?_, ?_⟩
  · rw [wide]
    exact bound
  · rw [wide]
    rfl
  · show (key &&& leading n) &&& leading n = key &&& leading n
    rw [BitVec.and_assoc, BitVec.and_self]

end Formed

end TrieNode

namespace Trie

def Kid (t : Trie w V) (parent : Nat) (i : Bool) (child : Nat) : Prop :=
  ∃ node, t.nodes parent = some node ∧ node.kids i = some child

def Edge (t : Trie w V) (parent child : Nat) : Prop := ∃ i, t.Kid parent i child

structure Linked (address : Nat) (node kid : TrieNode w V) : Prop where
  parent : kid.parent = some address
  longer : node.width < kid.width
  agree : Agree node.width kid.key node.key

/-- The node at `pending` may be without a value and a second kid. -/
structure Inv (t : Trie w V) (pending : Nat) : Prop where
  head : ∃ node, t.nodes 0 = some node ∧ node.mask = 0 ∧ node.value = none ∧ node.parent = none
  fresh : ∀ {a node}, t.nodes a = some node → a < t.next
  formed : ∀ {a node}, t.nodes a = some node → node.Formed
  up : ∀ {a node}, t.nodes a = some node → a ≠ 0 → ∃ p i, node.parent = some p ∧ t.Kid p i a
  down : ∀ {p i a parent}, t.Kid p i a → t.nodes p = some parent →
    ∃ node, t.nodes a = some node ∧ Linked p parent node
  apart : ∀ {p a b parent left right}, t.Kid p false a → t.Kid p true b → t.nodes p = some parent →
    t.nodes a = some left → t.nodes b = some right →
    left.key.getMsbD parent.width ≠ right.key.getMsbD parent.width
  first : ∀ {p b}, t.Kid p true b → ∃ a, t.Kid p false a
  full : ∀ {a node}, t.nodes a = some node → a ≠ 0 → a ≠ pending → node.value = none →
    ∃ b, t.Kid a true b

variable {t : Trie w V}

theorem read_some {a : Nat} {node : TrieNode w V} (found : t.nodes a = some node) :
    t.read a = .ok node := by
  rw [read, found]

namespace Inv

variable {t : Trie w V} {x : Nat}

theorem head_width (inv : t.Inv x) {node : TrieNode w V} (found : t.nodes 0 = some node) :
    node.width = 0 := by
  obtain ⟨head, found', mask, -⟩ := inv.head
  rw [found] at found'
  cases found'
  rw [TrieNode.width, mask, ← leading_zero, width_leading (Nat.zero_le w)]

theorem linked (inv : t.Inv x) {p a : Nat} {i : Bool} {parent node : TrieNode w V}
    (kid : t.Kid p i a) (above : t.nodes p = some parent) (found : t.nodes a = some node) :
    Linked p parent node := by
  obtain ⟨other, found', linked⟩ := inv.down kid above
  rw [found] at found'
  cases found'
  exact linked

theorem rooted (inv : t.Inv x) : ∀ n a (node : TrieNode w V), t.nodes a = some node → node.width = n →
    Relation.ReflTransGen t.Edge 0 a := by
  intro n
  induction n using Nat.strongRecOn with
  | ind n ih =>
    intro a node found wide
    by_cases root : a = 0
    · rw [root]
    · obtain ⟨p, i, above, kid⟩ := inv.up found root
      obtain ⟨parent, present, -⟩ := id kid
      have linked := inv.linked kid present found
      exact (ih parent.width (wide ▸ linked.longer) p parent present rfl).tail ⟨i, kid⟩

theorem above_agree (inv : t.Inv x) {a b : Nat} (path : Relation.ReflTransGen t.Edge a b) :
    ∀ {above node : TrieNode w V}, t.nodes a = some above → t.nodes b = some node →
      above.width ≤ node.width ∧ Agree above.width node.key above.key := by
  induction path with
  | refl =>
    intro above node found found'
    rw [found] at found'
    cases found'
    exact ⟨Nat.le_refl _, Agree.refl _ _⟩
  | tail path edge ih =>
    intro above node found found'
    obtain ⟨i, kid⟩ := edge
    obtain ⟨parent, present, -⟩ := id kid
    obtain ⟨shorter, agree⟩ := ih found present
    have linked := inv.linked kid present found'
    refine ⟨by have := linked.longer; omega, ?_⟩
    exact (linked.agree.mono shorter).trans agree

end Inv

/-! ## What lookup finds -/

variable {x p : Nat}

theorem kidMatches_ok (inv : t.Inv x) {parent : TrieNode w V}
    (present : t.nodes p = some parent) (key : BitVec w) (i : Bool) :
    ∃ answer, t.kidMatches key (parent.kids i) = .ok answer ∧
      (answer = true ↔ ∃ kid node, parent.kids i = some kid ∧ t.nodes kid = some node ∧
        Agree node.width key node.key) := by
  cases kid : parent.kids i with
  | none => exact ⟨false, rfl, by simp⟩
  | some a =>
    obtain ⟨node, found, -⟩ := inv.down ⟨parent, present, kid⟩ present
    refine ⟨node.matchesKey key, ?_, ?_⟩
    · rw [kidMatches, read_some found]
      rfl
    · rw [(inv.formed found).matchesKey_iff]
      constructor
      · intro agree
        exact ⟨a, node, rfl, found, agree⟩
      · rintro ⟨b, other, same, found', agree⟩
        cases same
        rw [found] at found'
        cases found'
        exact agree

theorem Inv.kid_unique (inv : t.Inv x) {a b : Nat}
    {left right : TrieNode w V} {key : BitVec w} (first : t.Kid p false a) (second : t.Kid p true b)
    (found : t.nodes a = some left) (found' : t.nodes b = some right)
    (agree : Agree left.width key left.key) (agree' : Agree right.width key right.key) : False := by
  obtain ⟨parent, present, -⟩ := id first
  have longer := (inv.linked first present found).longer
  have longer' := (inv.linked second present found').longer
  apply inv.apart first second present found found'
  rw [← agree _ longer, ← agree' _ longer']

theorem nextNode_ok (inv : t.Inv x) {parent : TrieNode w V} (present : t.nodes p = some parent) (key : BitVec w) :
    ∃ next, t.nextNode key parent = .ok next ∧
      ∀ a, next = some a ↔ ∃ node, t.nodes a = some node ∧ t.Edge p a ∧ Agree node.width key node.key := by
  obtain ⟨first, run, firstIff⟩ := kidMatches_ok inv present key false
  obtain ⟨second, run', secondIff⟩ := kidMatches_ok inv present key true
  rw [nextNode, run, ok_andThen]
  -- an edge to a node that agrees with the key leaves through one of the kids that were tried
  have edges : ∀ a node, t.nodes a = some node → t.Edge p a → Agree node.width key node.key →
      (first = true ∧ parent.kids false = some a) ∨ (second = true ∧ parent.kids true = some a) := by
    rintro a node found ⟨i, other, present', kid⟩ agree
    rw [present] at present'
    cases present'
    cases i with
    | false => exact .inl ⟨firstIff.mpr ⟨a, node, kid, found, agree⟩, kid⟩
    | true => exact .inr ⟨secondIff.mpr ⟨a, node, kid, found, agree⟩, kid⟩
  cases first with
  | true =>
    obtain ⟨kid, left, isKid, found, agree⟩ := firstIff.mp rfl
    refine ⟨some kid, by rw [if_pos rfl, isKid], ?_⟩
    intro a
    constructor
    · intro same
      cases same
      exact ⟨left, found, ⟨false, parent, present, isKid⟩, agree⟩
    · rintro ⟨node, found', edge, agree'⟩
      obtain ⟨-, kid'⟩ | ⟨-, kid'⟩ := edges a node found' edge agree'
      · exact isKid.symm.trans kid'
      · exact (inv.kid_unique ⟨parent, present, isKid⟩ ⟨parent, present, kid'⟩ found found' agree
          agree').elim
  | false =>
    rw [if_neg Bool.false_ne_true, run', ok_andThen]
    cases second with
    | true =>
      obtain ⟨kid, right, isKid, found, agree⟩ := secondIff.mp rfl
      refine ⟨some kid, by rw [if_pos rfl, isKid], ?_⟩
      intro a
      constructor
      · intro same
        cases same
        exact ⟨right, found, ⟨true, parent, present, isKid⟩, agree⟩
      · rintro ⟨node, found', edge, agree'⟩
        obtain ⟨wrong, -⟩ | ⟨-, kid'⟩ := edges a node found' edge agree'
        · cases wrong
        · exact isKid.symm.trans kid'
    | false =>
      refine ⟨none, rfl, ?_⟩
      intro a
      constructor
      · intro same
        cases same
      · rintro ⟨node, found, edge, agree⟩
        obtain ⟨wrong, -⟩ | ⟨wrong, -⟩ := edges a node found edge agree
        all_goals cases wrong

def Carries (t : Trie w V) (key : BitVec w) (a : Nat) (node : TrieNode w V) : Prop :=
  t.nodes a = some node ∧ node.value.isSome ∧ Agree node.width key node.key

theorem lookupFrom_ok (inv : t.Inv x) (key : BitVec w) :
    ∀ fuel next, (∀ a, next = some a → ∃ node, t.nodes a = some node ∧ Agree node.width key node.key ∧
        w - node.width < fuel) →
      (∀ b node, t.Carries key b node → ∃ a, next = some a ∧ Relation.ReflTransGen t.Edge a b) →
      ∃ handle, t.lookupFrom key fuel next = .ok handle ∧
        (∀ a, handle = some a → ∃ node, t.Carries key a node ∧
          ∀ b other, t.Carries key b other → node.width ≤ other.width) ∧
        (handle = none → ∀ b node, ¬ t.Carries key b node) := by
  intro fuel
  induction fuel with
  | zero =>
    intro next here below
    cases next with
    | none => exact ⟨none, rfl, nofun, fun _ b node carries => nomatch below b node carries⟩
    | some a =>
      obtain ⟨node, -, -, wrong⟩ := here a rfl
      omega
  | succ fuel ih =>
    intro next here below
    cases next with
    | none => exact ⟨none, rfl, nofun, fun _ b node carries => nomatch below b node carries⟩
    | some a =>
      obtain ⟨node, found, agree, enough⟩ := here a rfl
      rw [lookupFrom, read_some found, ok_andThen]
      split
      next valued =>
        refine ⟨some a, rfl, ?_, nofun⟩
        intro b same
        cases same
        refine ⟨node, ⟨found, valued, agree⟩, ?_⟩
        intro b other carries
        obtain ⟨a', same, path⟩ := below b other carries
        cases same
        exact (inv.above_agree path found carries.1).1
      next empty =>
        obtain ⟨onward, run, chosen⟩ := nextNode_ok inv found key
        rw [run, ok_andThen]
        apply ih onward
        · intro b same
          obtain ⟨kid, found', ⟨i, edge⟩, agree'⟩ := (chosen b).mp same
          have longer := (inv.linked edge found found').longer
          have bound := (inv.formed found').bound
          exact ⟨kid, found', agree', by omega⟩
        · intro b other carries
          obtain ⟨a', same, path⟩ := below b other carries
          cases same
          rcases path.cases_head with rfl | ⟨c, edge, rest⟩
          · -- the node itself has no value
            have same := found.symm.trans carries.1
            cases same
            exact absurd carries.2.1 empty
          · obtain ⟨i, kid⟩ := edge
            obtain ⟨middle, there, -⟩ := inv.down kid found
            obtain ⟨shorter, agree'⟩ := inv.above_agree rest there carries.1
            exact ⟨c, (chosen c).mpr ⟨middle, there, ⟨i, kid⟩,
              (carries.2.2.mono shorter).trans agree'⟩, rest⟩

theorem lookup_ok (inv : t.Inv x) (key : BitVec w) :
    ∃ result, t.lookup key = .ok result ∧
      (∀ v, result = some v → ∃ a node, t.Carries key a node ∧ node.value = some v ∧
        ∀ b other, t.Carries key b other → node.width ≤ other.width) ∧
      (result = none → ∀ b node, ¬ t.Carries key b node) := by
  obtain ⟨head, found, -⟩ := inv.head
  have wide := inv.head_width found
  obtain ⟨handle, run, some_, none_⟩ := lookupFrom_ok inv key (w + 1) (some 0)
    (by
      intro a same
      cases same
      refine ⟨head, found, ?_, by omega⟩
      rw [wide]
      intro j small
      omega)
    (fun b node carries => ⟨0, rfl, inv.rooted _ b node carries.1 rfl⟩)
  rw [lookup, lookupHandle, run, ok_andThen]
  cases handle with
  | none => exact ⟨none, rfl, nofun, fun _ => none_ rfl⟩
  | some a =>
    obtain ⟨node, carries, shortest⟩ := some_ a rfl
    dsimp only
    rw [read_some carries.1, ok_andThen]
    refine ⟨node.value, rfl, ?_, ?_⟩
    · intro v same
      exact ⟨a, node, carries, same, shortest⟩
    · intro wrong
      have := carries.2.1
      simp [wrong] at this

end Trie

end Resister.Base
