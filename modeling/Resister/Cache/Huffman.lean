import Mathlib
import Resister.Base.Logging
import Resister.Library.BitString
import Resister.Library.PriorityQueue

namespace Resister.Cache.Huffman

open Resister.Base Resister.BitString Nat

abbrev Word := BitVec 64

structure Code where
  code : Word
  length : Nat
  deriving DecidableEq, Repr

/-- A node of the tree. An inner node has both subtrees: the constructor takes two nodes. -/
inductive Node where
  | leaf (value frequency : Word)
  | inner (left right : Node)
  deriving DecidableEq, Repr

namespace Node

def frequency : Node → Word
  | leaf _ frequency => frequency
  | inner left right => left.frequency + right.frequency

def rank (node : Node) : Nat :=
  node.frequency.toNat

end Node

structure CodeMaps where
  valueToCode : Word → Option Code
  codeToValue : Word → Option Word

def CodeMaps.clear : CodeMaps :=
  ⟨fun _ => none, fun _ => none⟩

/-- `generateCodes` with the code so far: the right subtree comes first, and a code longer than the
maximum is dropped with everything below it. -/
def generateCodes (maxCodeLength : Nat) : Node → Code → CodeMaps → CodeMaps
  | .leaf value _, current, maps =>
    if maxCodeLength < current.length then maps
    else
      ⟨Function.update maps.valueToCode value (some current),
        Function.update maps.codeToValue current.code (some value)⟩
  | .inner left right, current, maps =>
    if maxCodeLength < current.length then maps
    else
      generateCodes maxCodeLength left ⟨current.code <<< 1, current.length + 1⟩
        (generateCodes maxCodeLength right ⟨(current.code <<< 1) + 1, current.length + 1⟩ maps)

end Resister.Cache.Huffman

namespace Resister.Cache

open Resister.Base Resister.BitString Huffman

/-- The encoder, over any priority queue. The constructor lets no maximum above 64 through. -/
structure Huffman (P : PriorityQueue Node Node.rank) where
  maxCodeLength : Nat
  bounded : maxCodeLength ≤ 64
  trees : P.Queue
  maps : CodeMaps

namespace Huffman

variable {P : PriorityQueue Node Node.rank}

def make (P : PriorityQueue Node Node.rank) (maxCodeLength : Word) : Except Fault (Huffman P) :=
  if fits : (maxCodeLength.setWidth 32).toNat ≤ 64 then
    .ok ⟨(maxCodeLength.setWidth 32).toNat, fits, P.empty, CodeMaps.clear⟩
  else .error (.fatal "Code length cannot surpass its underlying container")

def sample (h : Huffman P) (value frequency : Word) : Huffman P :=
  if frequency ≠ 0 then { h with trees := P.push h.trees (.leaf value frequency) } else h

def samples (h : Huffman P) (pairs : List (Word × Word)) : Huffman P :=
  pairs.foldl (fun h pair => h.sample pair.1 pair.2) h

/-- The loop that merges the two smallest trees, with as many turns as there are trees. -/
def merge (P : PriorityQueue Node Node.rank) : Nat → P.Queue → P.Queue
  | 0, trees => trees
  | turns + 1, trees =>
    if 1 < P.size trees then
      match P.pop trees with
      | none => trees
      | some (left, others) =>
        match P.pop others with
        | none => others
        | some (right, others) => merge P turns (P.push others (.inner left right))
    else trees

def buildTree (h : Huffman P) : Except Fault (Node × P.Queue) :=
  match P.pop (merge P (P.size h.trees) h.trees) with
  | none => .error .undefined
  | some (root, others) => .ok (root, others)

def generateCodeMaps (h : Huffman P) : Except Fault (Huffman P) := do
  let (root, others) ← h.buildTree
  return { h with trees := others, maps := generateCodes h.maxCodeLength root ⟨0, 0⟩ CodeMaps.clear }

def encode (h : Huffman P) (value : Word) : Code :=
  match h.maps.valueToCode value with
  | none => ⟨0, 65⟩
  | some code => code

def decode (h : Huffman P) (code : Word) : Except Fault Word :=
  match h.maps.codeToValue code with
  | none => .error .assertion
  | some value => .ok value

def Leaf : Node → List Bool → Word → Prop
  | .leaf value _, [], x => x = value
  | .inner left _, false :: path, x => Leaf left path x
  | .inner _ right, true :: path, x => Leaf right path x
  | _, _, _ => False

theorem Leaf.prefix_free {node : Node} {p q : List Bool} {x y : Word} (first : Leaf node p x)
    (second : Leaf node (p ++ q) y) : q = [] ∧ x = y := by
  induction node generalizing p with
  | leaf value frequency =>
    cases p with
    | nil =>
      cases q with
      | nil => exact ⟨rfl, first.trans second.symm⟩
      | cons b q => exact second.elim
    | cons b p => exact first.elim
  | inner left right ihl ihr =>
    cases p with
    | nil => exact first.elim
    | cons b p =>
      cases b with
      | false => exact ihl first second
      | true => exact ihr first second

def codeOf (path : List Bool) : Code :=
  ⟨BitVec.ofNat 64 (value path), path.length⟩

theorem codeOf_left (path : List Bool) :
    codeOf (path ++ [false]) = ⟨(codeOf path).code <<< 1, (codeOf path).length + 1⟩ := by
  unfold codeOf
  rw [value_concat, List.length_append, List.length_singleton]
  congr 1
  apply BitVec.eq_of_toNat_eq
  rw [BitVec.toNat_shiftLeft, BitVec.toNat_ofNat, BitVec.toNat_ofNat, Nat.shiftLeft_eq]
  show (2 * value path + 0) % 2 ^ 64 = _
  omega

theorem codeOf_right (path : List Bool) :
    codeOf (path ++ [true]) = ⟨((codeOf path).code <<< 1) + 1, (codeOf path).length + 1⟩ := by
  unfold codeOf
  rw [value_concat, List.length_append, List.length_singleton]
  congr 1
  apply BitVec.eq_of_toNat_eq
  rw [BitVec.toNat_add, BitVec.toNat_shiftLeft, BitVec.toNat_ofNat, BitVec.toNat_ofNat, Nat.shiftLeft_eq]
  show (2 * value path + 1) % 2 ^ 64 = (value path % 2 ^ 64 * 2 ^ 1 % 2 ^ 64 + 1) % 2 ^ 64
  omega

theorem toNat_codeOf {path : List Bool} (short : path.length ≤ 64) : (codeOf path).code.toNat = value path := by
  apply Nat.mod_eq_of_lt
  exact lt_of_lt_of_le (value_lt path) (Nat.pow_le_pow_right (by decide) short)

def visits (maxCodeLength : Nat) : Node → List Bool → List (List Bool × Word)
  | .leaf value _, path => if maxCodeLength < path.length then [] else [(path, value)]
  | .inner left right, path =>
    if maxCodeLength < path.length then []
    else visits maxCodeLength right (path ++ [true]) ++ visits maxCodeLength left (path ++ [false])

def write (maps : CodeMaps) (visit : List Bool × Word) : CodeMaps :=
  ⟨Function.update maps.valueToCode visit.2 (some (codeOf visit.1)),
    Function.update maps.codeToValue (codeOf visit.1).code (some visit.2)⟩

theorem generateCodes_eq (maxCodeLength : Nat) (node : Node) (path : List Bool) (maps : CodeMaps) :
    generateCodes maxCodeLength node (codeOf path) maps = (visits maxCodeLength node path).foldl write maps := by
  have length : (codeOf path).length = path.length := rfl
  induction node generalizing path maps with
  | leaf value frequency =>
    unfold generateCodes visits
    rw [length]
    split
    · rfl
    · rfl
  | inner left right ihl ihr =>
    unfold generateCodes visits
    rw [length]
    split
    · rfl
    · rw [List.foldl_append, ← ihr _ _ rfl, ← ihl _ _ rfl, codeOf_left, codeOf_right]
      rfl

theorem mem_visits {maxCodeLength : Nat} {node : Node} {path : List Bool} {visit : List Bool × Word} :
    visit ∈ visits maxCodeLength node path ↔
      ∃ p, visit.1 = path ++ p ∧ Leaf node p visit.2 ∧ visit.1.length ≤ maxCodeLength := by
  induction node generalizing path with
  | leaf value frequency =>
    unfold visits
    constructor
    · intro member
      split at member
      · cases member
      · rename_i short
        rw [List.mem_singleton.mp member]
        exact ⟨[], (List.append_nil path).symm, rfl, not_lt.mp short⟩
    · rintro ⟨p, same, leaf, short⟩
      cases p with
      | nil =>
        rw [List.append_nil] at same
        rw [same] at short
        rw [if_neg (not_lt.mpr short), List.mem_singleton, ← same]
        exact Prod.ext rfl leaf
      | cons b p => exact leaf.elim
  | inner left right ihl ihr =>
    unfold visits
    constructor
    · intro member
      split at member
      · cases member
      · rcases List.mem_append.mp member with above | below
        · obtain ⟨p, same, leaf, short⟩ := ihr.mp above
          exact ⟨true :: p, by rw [same, List.append_assoc]; rfl, leaf, short⟩
        · obtain ⟨p, same, leaf, short⟩ := ihl.mp below
          exact ⟨false :: p, by rw [same, List.append_assoc]; rfl, leaf, short⟩
    · rintro ⟨p, same, leaf, short⟩
      cases p with
      | nil => exact leaf.elim
      | cons b p =>
        have inside : ¬ maxCodeLength < path.length := by
          rw [same, List.length_append, List.length_cons] at short
          omega
        rw [if_neg inside]
        apply List.mem_append.mpr
        cases b with
        | false =>
          refine Or.inr (ihl.mpr ⟨p, ?_, leaf, short⟩)
          rw [same, List.append_assoc]
          rfl
        | true =>
          refine Or.inl (ihr.mpr ⟨p, ?_, leaf, short⟩)
          rw [same, List.append_assoc]
          rfl

theorem visits_ordered (maxCodeLength : Nat) (node : Node) (path : List Bool) :
    (visits maxCodeLength node path).Pairwise fun a b => LeftOf b.1 a.1 := by
  induction node generalizing path with
  | leaf value frequency =>
    unfold visits
    split
    · exact List.Pairwise.nil
    · exact List.pairwise_singleton _ _
  | inner left right ihl ihr =>
    unfold visits
    split
    · exact List.Pairwise.nil
    · refine List.pairwise_append.mpr ⟨ihr _, ihl _, ?_⟩
      intro a above b below
      obtain ⟨p, first, _⟩ := mem_visits.mp above
      obtain ⟨q, second, _⟩ := mem_visits.mp below
      rw [first, second, List.append_assoc, List.append_assoc]
      apply LeftOf.append
      trivial

def lastVisit (maxCodeLength : Nat) (root : Node) (matching : List Bool × Word → Bool) : Option (List Bool × Word) :=
  (visits maxCodeLength root []).reverse.find? matching

theorem foldl_write (list : List (List Bool × Word)) (maps : CodeMaps) (key : Word) :
    (list.foldl write maps).valueToCode key =
        ((list.reverse.find? fun visit => visit.2 == key).map fun visit => codeOf visit.1).or (maps.valueToCode key) ∧
      (list.foldl write maps).codeToValue key =
        ((list.reverse.find? fun visit => (codeOf visit.1).code == key).map Prod.snd).or (maps.codeToValue key) := by
  induction list using List.reverseRecOn with
  | nil => exact ⟨rfl, rfl⟩
  | append_singleton list visit ih =>
    rw [List.foldl_append, List.reverse_append, List.reverse_singleton, List.singleton_append, List.find?_cons,
      List.find?_cons]
    constructor
    · show Function.update _ visit.2 _ key = _
      by_cases same : key = visit.2
      · subst same
        simp
      · rw [Function.update_of_ne same, ih.1, beq_false_of_ne (Ne.symm same)]
    · show Function.update _ (codeOf visit.1).code _ key = _
      by_cases same : key = (codeOf visit.1).code
      · subst same
        simp
      · rw [Function.update_of_ne same, ih.2, beq_false_of_ne (Ne.symm same)]

theorem lastVisit_some {maxCodeLength : Nat} {root : Node} {matching : List Bool × Word → Bool}
    {visit : List Bool × Word} (found : lastVisit maxCodeLength root matching = some visit) :
    (Leaf root visit.1 visit.2 ∧ visit.1.length ≤ maxCodeLength ∧ matching visit = true) ∧
      ∀ other, Leaf root other.1 other.2 → other.1.length ≤ maxCodeLength → matching other = true →
        other = visit ∨ LeftOf visit.1 other.1 := by
  obtain ⟨fits, before, after, split, passed⟩ := List.find?_eq_some_iff_append.mp found
  have ordered : (before ++ visit :: after).Pairwise fun a b => LeftOf a.1 b.1 := by
    rw [← split]
    exact List.pairwise_reverse.mpr (visits_ordered maxCodeLength root [])
  have member : visit ∈ visits maxCodeLength root [] := by
    rw [← List.mem_reverse, split]
    simp
  obtain ⟨p, same, leaf, short⟩ := mem_visits.mp member
  rw [List.nil_append] at same
  rw [← same] at leaf
  refine ⟨⟨leaf, short, fits⟩, ?_⟩
  intro other leaf short matches_other
  have listed : other ∈ before ++ visit :: after := by
    rw [← split, List.mem_reverse]
    exact mem_visits.mpr ⟨other.1, rfl, leaf, short⟩
  rcases List.mem_append.mp listed with earlier | rest
  · have missed := passed other earlier
    rw [matches_other] at missed
    cases missed
  · rcases List.mem_cons.mp rest with rfl | later
    · exact Or.inl rfl
    · obtain ⟨_, ordered, _⟩ := List.pairwise_append.mp ordered
      exact Or.inr ((List.pairwise_cons.mp ordered).1 other later)

theorem lastVisit_isSome {maxCodeLength : Nat} {root : Node} {matching : List Bool × Word → Bool}
    {visit : List Bool × Word} (leaf : Leaf root visit.1 visit.2) (short : visit.1.length ≤ maxCodeLength)
    (fits : matching visit = true) : ∃ last, lastVisit maxCodeLength root matching = some last := by
  apply Option.isSome_iff_exists.mp
  apply List.find?_isSome.mpr
  refine ⟨visit, ?_, fits⟩
  rw [List.mem_reverse]
  exact mem_visits.mpr ⟨visit.1, rfl, leaf, short⟩

/-- No leaf within the maximum is reached from the leaf of a value's code by putting left turns in
front of its path. A value that was sampled more than once has the code of its leftmost leaf. -/
def Unshadowed (maxCodeLength : Nat) (root : Node) : Prop :=
  ∀ path value, Leaf root path value → path.length ≤ maxCodeLength →
    (∀ other, Leaf root other value → other.length ≤ maxCodeLength → ¬ LeftOf other path) →
    ∀ k, 0 < k → ∀ x, Leaf root (List.replicate k false ++ path) x → maxCodeLength < k + path.length

variable {maxCodeLength : Nat} {root : Node}

theorem eq_or_zeros {p q : List Bool} (first : p.length ≤ 64) (second : q.length ≤ 64)
    (same : (codeOf p).code = (codeOf q).code) :
    (∃ k, q = List.replicate k false ++ p) ∨ ∃ k, p = List.replicate k false ++ q := by
  have values : value p = value q := by
    rw [← toNat_codeOf first, ← toNat_codeOf second, same]
  rcases le_total p.length q.length with shorter | longer
  · exact Or.inl ⟨_, eq_zeros_append shorter values⟩
  · exact Or.inr ⟨_, eq_zeros_append longer values.symm⟩

theorem Leaf.zeros_left {k : Nat} {p : List Bool} {x y : Word} (first : Leaf root p x) (pos : 0 < k)
    (second : Leaf root (List.replicate k false ++ p) y) : LeftOf (List.replicate k false ++ p) p := by
  apply leftOf_zeros
  rintro ⟨q, longer⟩
  rw [← longer] at second
  obtain ⟨rfl, _⟩ := first.prefix_free second
  have lengths := congrArg List.length longer
  rw [List.append_nil, List.length_append, List.length_replicate] at lengths
  omega

theorem last_code_eq {path : List Bool} {v : Word} {last : List Bool × Word} (bounded : maxCodeLength ≤ 64)
    (leaf : Leaf root path v) (short : path.length ≤ maxCodeLength)
    (clear : ∀ k, 0 < k → ∀ x, Leaf root (List.replicate k false ++ path) x → maxCodeLength < k + path.length)
    (found : lastVisit maxCodeLength root (fun visit => (codeOf visit.1).code == (codeOf path).code) = some last) :
    last = (path, v) := by
  obtain ⟨⟨other, within, code⟩, first⟩ := lastVisit_some found
  have same : (codeOf path).code = (codeOf last.1).code := (eq_of_beq code).symm
  rcases first (path, v) leaf short (beq_self_eq_true _) with equal | left
  · exact equal.symm
  · rcases eq_or_zeros (le_trans short bounded) (le_trans within bounded) same with ⟨k, zeros⟩ | ⟨k, zeros⟩
    · rcases eq_zero_or_pos k with rfl | pos
      · change last.1 = path at zeros
        rw [zeros] at left
        exact absurd left left.asymm
      · rw [zeros] at other within
        have long := clear k pos _ other
        rw [List.length_append, List.length_replicate] at within
        omega
    · rcases eq_zero_or_pos k with rfl | pos
      · change path = last.1 at zeros
        change LeftOf last.1 path at left
        rw [← zeros] at left
        exact absurd left left.asymm
      · rw [zeros] at leaf
        have right := other.zeros_left pos leaf
        rw [← zeros] at right
        exact absurd right left.asymm

theorem decodes_iff {path : List Bool} {v : Word} (bounded : maxCodeLength ≤ 64)
    (assigned : lastVisit maxCodeLength root (fun visit => visit.2 == v) = some (path, v)) :
    (lastVisit maxCodeLength root fun visit => (codeOf visit.1).code == (codeOf path).code).map Prod.snd = some v ↔
      ∀ k, 0 < k → ∀ x, Leaf root (List.replicate k false ++ path) x → maxCodeLength < k + path.length := by
  obtain ⟨⟨leaf, short, _⟩, leftmost⟩ := lastVisit_some assigned
  obtain ⟨last, found⟩ : ∃ last,
      lastVisit maxCodeLength root (fun visit => (codeOf visit.1).code == (codeOf path).code) = some last :=
    @lastVisit_isSome _ _ _ (path, v) leaf short (beq_self_eq_true _)
  constructor
  · intro decoded k pos x shadow
    by_contra long
    have within : (List.replicate k false ++ path).length ≤ maxCodeLength := by
      rw [List.length_append, List.length_replicate]
      omega
    have left : LeftOf (List.replicate k false ++ path) path := leaf.zeros_left pos shadow
    obtain ⟨⟨other, fits, _⟩, first⟩ := lastVisit_some found
    have code : (codeOf (List.replicate k false ++ path)).code = (codeOf path).code := by
      unfold codeOf
      rw [value_zeros]
    -- the leaf found is not the leaf of `v`, so it is to the left of it
    have before : LeftOf last.1 path := by
      rcases first (path, v) leaf short (beq_self_eq_true _) with equal | before
      · rcases first (_, x) shadow within (beq_of_eq code) with again | before
        · rw [← equal] at again
          have paths : List.replicate k false ++ path = path := congrArg Prod.fst again
          rw [paths] at left
          exact absurd left left.asymm
        · rw [← equal] at before
          exact absurd before left.asymm
      · exact before
    rw [found, Option.map_some] at decoded
    have value : last.2 = v := Option.some.inj decoded
    rcases leftmost last other fits (beq_of_eq value) with equal | after
    · rw [equal] at before
      exact absurd before before.asymm
    · exact absurd after before.asymm
  · intro clear
    rw [found, last_code_eq bounded leaf short clear found]
    rfl

theorem maps_eq (maxCodeLength : Nat) (root : Node) (key : Word) :
    (generateCodes maxCodeLength root ⟨0, 0⟩ CodeMaps.clear).valueToCode key =
        (lastVisit maxCodeLength root fun visit => visit.2 == key).map (fun visit => codeOf visit.1) ∧
      (generateCodes maxCodeLength root ⟨0, 0⟩ CodeMaps.clear).codeToValue key =
        (lastVisit maxCodeLength root fun visit => (codeOf visit.1).code == key).map Prod.snd := by
  have eq := generateCodes_eq maxCodeLength root [] CodeMaps.clear
  change generateCodes maxCodeLength root ⟨0, 0⟩ CodeMaps.clear = _ at eq
  obtain ⟨first, second⟩ := foldl_write (visits maxCodeLength root []) CodeMaps.clear key
  rw [eq, first, second]
  exact ⟨Option.or_none, Option.or_none⟩

def Code.IsPrefix (c d : Code) : Prop :=
  c.length ≤ d.length ∧ d.code >>> (d.length - c.length) = c.code

def Assigned (h : Huffman P) (value : Word) : Prop :=
  (h.encode value).length ≤ 64

theorem isPrefix_codeOf {p q : List Bool} (short : q.length ≤ 64) (before : Code.IsPrefix (codeOf p) (codeOf q)) :
    ∃ r, q = p ++ r := by
  obtain ⟨shorter, same⟩ := before
  change p.length ≤ q.length at shorter
  change (codeOf q).code >>> (q.length - p.length) = (codeOf p).code at same
  have split : q = q.take p.length ++ q.drop p.length := (List.take_append_drop _ _).symm
  have length : (q.take p.length).length = p.length := by
    rw [List.length_take, min_eq_left shorter]
  have rest : (q.drop p.length).length = q.length - p.length := List.length_drop
  have values : value (q.take p.length) = value p := by
    have shifted := congrArg BitVec.toNat same
    have below := value_lt (q.drop p.length)
    rw [rest] at below
    rw [BitVec.toNat_ushiftRight, toNat_codeOf short, toNat_codeOf (le_trans shorter short), Nat.shiftRight_eq_div_pow,
      split, value_append, ← split, rest, Nat.mul_comm, Nat.mul_add_div (Nat.two_pow_pos _),
      Nat.div_eq_of_lt below, Nat.add_zero] at shifted
    exact shifted
  refine ⟨q.drop p.length, split.trans ?_⟩
  rw [eq_of_value length values]

/-- What the codes are for: none is the beginning of another, none is too long, and each one leads
back to its value. -/
structure Lossless (h : Huffman P) : Prop where
  prefixFree : ∀ v w, v ≠ w → h.Assigned v → h.Assigned w → ¬ Code.IsPrefix (h.encode v) (h.encode w)
  bounded : ∀ v, h.Assigned v → (h.encode v).length ≤ h.maxCodeLength
  decodes : ∀ v, h.Assigned v → h.decode (h.encode v).code = .ok v

theorem encode_generated {h : Huffman P} (maps : h.maps = generateCodes h.maxCodeLength root ⟨0, 0⟩ CodeMaps.clear)
    {v : Word} (assigned : h.Assigned v) :
    ∃ path, lastVisit h.maxCodeLength root (fun visit => visit.2 == v) = some (path, v) ∧
      h.encode v = codeOf path := by
  have value := (maps_eq h.maxCodeLength root v).1
  rw [← maps] at value
  unfold Assigned encode at assigned
  unfold encode
  cases found : lastVisit h.maxCodeLength root (fun visit => visit.2 == v) with
  | none =>
    rw [found, Option.map_none] at value
    rw [value] at assigned
    exact absurd assigned (by decide)
  | some visit =>
    rw [found, Option.map_some] at value
    obtain ⟨⟨_, _, same⟩, _⟩ := lastVisit_some found
    refine ⟨visit.1, ?_, ?_⟩
    · rw [← eq_of_beq same]
    · rw [value]

theorem assigned_of_last {h : Huffman P} (maps : h.maps = generateCodes h.maxCodeLength root ⟨0, 0⟩ CodeMaps.clear)
    {v : Word} {path : List Bool} (found : lastVisit h.maxCodeLength root (fun visit => visit.2 == v) = some (path, v)) :
    h.Assigned v := by
  have value := (maps_eq h.maxCodeLength root v).1
  rw [← maps, found, Option.map_some] at value
  obtain ⟨⟨_, short, _⟩, _⟩ := lastVisit_some found
  unfold Assigned encode
  rw [value]
  exact le_trans short h.bounded

theorem decode_eq_ok {h : Huffman P} (maps : h.maps = generateCodes h.maxCodeLength root ⟨0, 0⟩ CodeMaps.clear)
    (code v : Word) : h.decode code = .ok v ↔
      (lastVisit h.maxCodeLength root fun visit => (codeOf visit.1).code == code).map Prod.snd = some v := by
  have value := (maps_eq h.maxCodeLength root code).2
  rw [← maps] at value
  unfold decode
  rw [value]
  cases (lastVisit h.maxCodeLength root fun visit => (codeOf visit.1).code == code).map Prod.snd with
  | none => simp
  | some x => simp

theorem lossless_iff {h : Huffman P} (maps : h.maps = generateCodes h.maxCodeLength root ⟨0, 0⟩ CodeMaps.clear) :
    h.Lossless ↔ Unshadowed h.maxCodeLength root := by
  constructor
  · intro lossless path v leaf short leftmost
    have found : lastVisit h.maxCodeLength root (fun visit => visit.2 == v) = some (path, v) := by
      obtain ⟨last, found⟩ : ∃ last, lastVisit h.maxCodeLength root (fun visit => visit.2 == v) = some last :=
        @lastVisit_isSome _ _ _ (path, v) leaf short (beq_self_eq_true _)
      obtain ⟨⟨other, within, same⟩, first⟩ := lastVisit_some found
      have value : last.2 = v := eq_of_beq same
      rcases first (path, v) leaf short (beq_self_eq_true _) with equal | before
      · rw [found, equal]
      · rw [value] at other
        exact absurd before (leftmost last.1 other within)
    have assigned := assigned_of_last maps found
    obtain ⟨again, same, code⟩ := encode_generated maps assigned
    rw [found] at same
    cases same
    have decoded := lossless.decodes v assigned
    rw [code, decode_eq_ok maps] at decoded
    exact (decodes_iff h.bounded found).mp decoded
  · intro clear
    refine ⟨?_, ?_, ?_⟩
    · intro v w different first second before
      obtain ⟨p, foundFirst, codeFirst⟩ := encode_generated maps first
      obtain ⟨q, foundSecond, codeSecond⟩ := encode_generated maps second
      obtain ⟨⟨leafFirst, _, _⟩, _⟩ := lastVisit_some foundFirst
      obtain ⟨⟨leafSecond, short, _⟩, _⟩ := lastVisit_some foundSecond
      rw [codeFirst, codeSecond] at before
      obtain ⟨r, longer⟩ : ∃ r, q = p ++ r := isPrefix_codeOf (le_trans short h.bounded) before
      change Leaf root q w at leafSecond
      rw [longer] at leafSecond
      exact different (leafFirst.prefix_free leafSecond).2
    · intro v assigned
      obtain ⟨path, found, code⟩ := encode_generated maps assigned
      obtain ⟨⟨_, short, _⟩, _⟩ := lastVisit_some found
      rw [code]
      exact short
    · intro v assigned
      obtain ⟨path, found, code⟩ := encode_generated maps assigned
      obtain ⟨⟨leaf, short, _⟩, leftmost⟩ := lastVisit_some found
      rw [code, decode_eq_ok maps]
      apply (decodes_iff h.bounded found).mpr
      apply clear path v leaf short
      intro other again within left
      rcases leftmost (other, v) again within (beq_self_eq_true _) with equal | before
      · have paths : other = path := congrArg Prod.fst equal
        rw [paths] at left
        exact left.asymm left
      · exact left.asymm before

theorem generated_lossless_iff {h : Huffman P} {others : P.Queue} :
    Lossless { h with trees := others, maps := generateCodes h.maxCodeLength root ⟨0, 0⟩ CodeMaps.clear } ↔
      Unshadowed h.maxCodeLength root :=
  lossless_iff rfl

theorem size_merge (P : PriorityQueue Node Node.rank) (turns : Nat) (trees : P.Queue) (some_left : 0 < P.size trees) :
    0 < P.size (merge P turns trees) := by
  induction turns generalizing trees with
  | zero => exact some_left
  | succ turns ih =>
    unfold merge
    split
    · rename_i several
      obtain ⟨left, others, first, size⟩ := P.pop_of_pos some_left
      obtain ⟨right, rest, second, _⟩ := P.pop_of_pos (q := others) (by omega)
      simp only [first, second]
      apply ih
      rw [P.size_push]
      exact Nat.succ_pos _
    · exact some_left

theorem merge_of_empty (P : PriorityQueue Node Node.rank) (trees : P.Queue) (none_left : P.size trees = 0) :
    P.pop (merge P (P.size trees) trees) = none := by
  rw [none_left]
  show P.pop trees = none
  cases popped : P.pop trees with
  | none => rfl
  | some pair =>
    have contents := (P.pop_some trees pair.1 pair.2 popped).1
    rw [P.size_eq, contents, Multiset.card_cons] at none_left
    cases none_left

theorem samples_size (pairs : List (Word × Word)) (h : Huffman P) :
    0 < P.size (h.samples pairs).trees ↔ 0 < P.size h.trees ∨ ∃ pair ∈ pairs, pair.2 ≠ 0 := by
  induction pairs generalizing h with
  | nil => simp [samples]
  | cons pair pairs ih =>
    have step : 0 < P.size (h.sample pair.1 pair.2).trees ↔ 0 < P.size h.trees ∨ pair.2 ≠ 0 := by
      unfold sample
      split
      · rename_i nonzero
        refine ⟨fun _ => Or.inr nonzero, fun _ => ?_⟩
        show 0 < P.size (P.push h.trees (.leaf pair.1 pair.2))
        rw [P.size_push]
        exact Nat.succ_pos _
      · rename_i zero
        exact ⟨Or.inl, fun either => either.resolve_right zero⟩
    show 0 < P.size ((h.sample pair.1 pair.2).samples pairs).trees ↔ _
    rw [ih, step]
    simp [or_assoc]

theorem samples_maxCodeLength (pairs : List (Word × Word)) (h : Huffman P) :
    (h.samples pairs).maxCodeLength = h.maxCodeLength := by
  induction pairs generalizing h with
  | nil => rfl
  | cons pair pairs ih =>
    show ((h.sample pair.1 pair.2).samples pairs).maxCodeLength = _
    rw [ih]
    unfold sample
    split
    · rfl
    · rfl

/-- The codes are what they are for exactly when something was sampled and no leaf within the maximum
shadows another. -/
theorem codes_decode_iff {maxLength : Word} {h : Huffman P} (built : make P maxLength = .ok h)
    (pairs : List (Word × Word)) :
    (∃ g, (h.samples pairs).generateCodeMaps = .ok g ∧ g.Lossless) ↔
      (∃ pair ∈ pairs, pair.2 ≠ 0) ∧
        ∀ root others, (h.samples pairs).buildTree = .ok (root, others) → Unshadowed h.maxCodeLength root := by
  have start : P.size h.trees = 0 := by
    unfold make at built
    split at built
    · cases built
      exact P.size_empty
    · cases built
  have sampled := samples_size pairs h
  rw [start] at sampled
  simp only [lt_irrefl, false_or] at sampled
  constructor
  · rintro ⟨g, run, lossless⟩
    unfold generateCodeMaps at run
    obtain ⟨⟨root, others⟩, tree, run⟩ := andThen_ok.mp run
    cases run
    refine ⟨?_, ?_⟩
    · apply sampled.mp
      apply pos_of_ne_zero
      intro empty
      unfold buildTree at tree
      rw [merge_of_empty P _ empty] at tree
      cases tree
    · intro root' others' tree'
      rw [tree] at tree'
      cases tree'
      rw [← samples_maxCodeLength pairs h]
      exact generated_lossless_iff.mp lossless
  · rintro ⟨some_sampled, clear⟩
    obtain ⟨root, others, popped, _⟩ := P.pop_of_pos (size_merge P _ _ (sampled.mpr some_sampled))
    have tree : (h.samples pairs).buildTree = .ok (root, others) := by
      unfold buildTree
      rw [popped]
    refine ⟨_, andThen_ok.mpr ⟨(root, others), tree, rfl⟩, ?_⟩
    apply generated_lossless_iff.mpr
    have shape := clear root others tree
    rw [← samples_maxCodeLength pairs h] at shape
    exact shape

theorem unshadowed_pair (maxCodeLength : Nat) (v w f g : Word) :
    Unshadowed maxCodeLength (.inner (.leaf v f) (.leaf w g)) := by
  intro path x leaf _ _ k pos y shadow
  obtain ⟨k, rfl⟩ := Nat.exists_eq_succ_of_ne_zero pos.ne'
  rw [List.replicate_succ, List.cons_append] at shadow
  -- behind the first left turn there is a leaf, so the path would have to be empty
  cases path with
  | nil => exact leaf.elim
  | cons b path =>
    cases k with
    | zero => exact shadow.elim
    | succ k => exact shadow.elim

theorem codes_decode_iff_pair :
    ∃ h, make (PriorityQueue.sortedList Node.rank) 64 = .ok h ∧
      ∃ g, (h.samples [(10, 1), (20, 2), (30, 0)]).generateCodeMaps = .ok g ∧ g.Lossless ∧
        g.encode 10 = ⟨0, 1⟩ ∧ g.encode 20 = ⟨1, 1⟩ ∧ g.encode 30 = ⟨0, 65⟩ := by
  refine ⟨_, rfl, ?_⟩
  obtain ⟨g, run, lossless⟩ := (@codes_decode_iff (PriorityQueue.sortedList Node.rank) 64 _ rfl
    [(10, 1), (20, 2), (30, 0)]).mpr ⟨⟨(10, 1), by decide, by decide⟩, by
      intro root others tree
      cases tree
      exact unshadowed_pair _ _ _ _ _⟩
  refine ⟨g, run, lossless, ?_⟩
  cases run
  exact ⟨rfl, rfl, rfl⟩

/-- Frequencies 1, 2 and 5: the codes are `00`, `01` and `1`, and the number of the last two is one. -/
theorem decode_confuses :
    ∃ h g, make (PriorityQueue.sortedList Node.rank) 64 = .ok h ∧
      (h.samples [(10, 1), (20, 2), (30, 5)]).generateCodeMaps = .ok g ∧
      g.encode 30 = ⟨1, 1⟩ ∧ g.encode 20 = ⟨1, 2⟩ ∧ g.decode 1 = .ok 20 :=
  ⟨_, _, rfl, rfl, rfl, rfl, rfl⟩

end Huffman

end Resister.Cache
