import Mathlib
import Resister.Base.AddrRangeMap
import Resister.Base.Logging

/-!
# Address range maps with a cache

`AddrRangeMap<V, max_cache_size>`: the map of `AddrRangeMap.lean` with the list of the iterators
that were used last.
-/

namespace Resister.Base

open Resister.Library List Nat

inductive CacheStop where
  | test (stop : Stop)
  | dangling
  deriving DecidableEq, Repr

abbrev CachedEntry (V : Type) := AddrRange × Nat × V

structure CachedMap (V : Type) where
  maxCacheSize : Nat
  map : AddrRangeMap (Nat × V) := {}
  cache : List Nat := []
  /-- The address of the next node. -/
  next : Nat := 0
  deriving DecidableEq, Repr

namespace CachedMap

variable {V : Type} (c : CachedMap V)

def deref (iterator : Nat) : Except CacheStop (CachedEntry V) :=
  match c.map.tree.find? fun e => e.2.1 == iterator with
  | some e => .ok e
  | none => .error .dangling

def addNewEntryToCache (iterator : Nat) : CachedMap V :=
  if c.maxCacheSize ≠ 0 then
    if c.maxCacheSize ≤ c.cache.length then
      -- the last element is overwritten and moved to the front
      { c with cache := iterator :: c.cache.dropLast }
    else { c with cache := iterator :: c.cache }
  else c

def searchCache (cond : AddrRange → Except Stop Bool) :
    List Nat → Except CacheStop (Option (CachedEntry V))
  | [] => .ok none
  | iterator :: rest => do
    let e ← c.deref iterator
    let answer ← (cond e.1).mapError .test
    if answer then .ok (some e) else searchCache cond rest

def find (r : AddrRange) (cond : AddrRange → Except Stop Bool) :
    Except CacheStop (Option (CachedEntry V) × CachedMap V) := do
  let hit ← c.searchCache cond c.cache
  match hit with
  | some e => .ok (some e, { c with cache := e.2.1 :: c.cache.erase e.2.1 })
  | none => do
    let found ← (c.map.find r cond).mapError .test
    match found with
    | some e => .ok (some e, c.addNewEntryToCache e.2.1)
    | none => .ok (none, c)

def containsRange (r : AddrRange) : Except CacheStop (Option (CachedEntry V) × CachedMap V) :=
  c.find r fun r1 => r.isSubset r1

def contains (a : Addr) : Except CacheStop (Option (CachedEntry V) × CachedMap V) :=
  c.containsRange (AddrRange.plain a (a + 1))

def intersects (r : AddrRange) : Except CacheStop (Option (CachedEntry V) × CachedMap V) :=
  c.find r fun r1 => r.intersects r1

def insert (r : AddrRange) (d : V) :
    Except CacheStop (CachedMap V × Option (CachedEntry V)) := do
  let (found, c) ← c.intersects r
  match found with
  | some _ => .ok (c, none)
  | none =>
    let tree := OrderedMap.insert AddrRange.lt (r, c.next, d) c.map.tree
    .ok ({ c with map := { tree }, next := c.next + 1 }, tree.find? fun e => !e.1.lt r && !r.lt e.1)

def cacheRemove (p : Nat) (cache : List Nat) : List Nat :=
  match c.map.tree[p]? with
  | some e => cache.filter fun iterator => iterator != e.2.1
  | none => cache

/-- `erase(p)` -/
def eraseOne (p : Nat) : CachedMap V :=
  { c with cache := c.cacheRemove p c.cache, map := c.map.erase p (p + 1) }

def erase (p q : Nat) : CachedMap V :=
  { c with
    cache := (List.range' p (q - p)).foldl (fun cache _ => c.cacheRemove p cache) c.cache
    map := c.map.erase p q }

def clear : CachedMap V := { c with cache := [], map := c.map.clear }

end CachedMap

/-! ## Entries without the address of their node -/

namespace AddrRangeMap

variable {V W : Type}

def mapValues (f : V → W) (m : AddrRangeMap V) : AddrRangeMap W where
  tree := m.tree.map fun e => (e.1, f e.2)

theorem backward_map (f : V → W) (cond : AddrRange → Except Stop Bool) (entries : List (AddrRange × V)) :
    backward cond (entries.map fun e => (e.1, f e.2)) =
      (backward cond entries).map (Option.map fun e => (e.1, f e.2)) := by
  induction entries using backward.induct with
  | case1 => rfl
  | case2 i =>
    simp only [map_cons, map_nil, backward]
    cases cond i.1 with
    | error stop => rfl
    | ok answer => cases answer <;> rfl
  | case3 i next rest ih =>
    simp only [map_cons, backward] at ih ⊢
    cases cond i.1 with
    | error stop => rfl
    | ok answer =>
      cases answer with
      | true => rfl
      | false =>
        simp only [ok_andThen, Bool.false_eq_true, if_false]
        split
        · exact ih
        · rfl

theorem find_mapValues (f : V → W) (m : AddrRangeMap V) (r : AddrRange) (cond : AddrRange → Except Stop Bool) :
    (m.mapValues f).find r cond = (m.find r cond).map (Option.map fun e => (e.1, f e.2)) := by
  have below : OrderedMap.upTo AddrRange.lt r (m.mapValues f).tree =
      (OrderedMap.upTo AddrRange.lt r m.tree).map fun e => (e.1, f e.2) := by
    simp only [mapValues, OrderedMap.upTo, takeWhile_map]
    rfl
  have above : OrderedMap.above AddrRange.lt r (m.mapValues f).tree =
      (OrderedMap.above AddrRange.lt r m.tree).map fun e => (e.1, f e.2) := by
    simp only [mapValues, OrderedMap.above, dropWhile_map]
    rfl
  unfold find
  dsimp only
  rw [below, above, ← map_reverse, backward_map]
  cases OrderedMap.above AddrRange.lt r m.tree with
  | nil => rfl
  | cons next rest =>
    simp only [map_cons]
    cases cond next.1 with
    | error stop => rfl
    | ok answer => cases answer <;> rfl

theorem insert_mapValues (f : V → W) (new : AddrRange × V) (entries : List (AddrRange × V)) :
    OrderedMap.insert AddrRange.lt (new.1, f new.2) (entries.map fun e => (e.1, f e.2)) =
      (OrderedMap.insert AddrRange.lt new entries).map fun e => (e.1, f e.2) := by
  induction entries with
  | nil => rfl
  | cons e rest ih =>
    simp only [map_cons, OrderedMap.insert]
    split
    · rw [ih, map_cons]
    · split
      · rfl
      · rfl

theorem erase_mapValues (f : V → W) (m : AddrRangeMap V) (p q : Nat) :
    (m.erase p q).mapValues f = (m.mapValues f).erase p q := by
  simp [mapValues, erase, map_take, map_drop]

end AddrRangeMap

namespace CachedMap

variable {V : Type} {c next : CachedMap V} {m : AddrRangeMap V} {r : AddrRange}
  {cond : AddrRange → Except Stop Bool}

def plain (c : CachedMap V) : AddrRangeMap V := c.map.mapValues Prod.snd

def untag (e : CachedEntry V) : AddrRange × V := (e.1, e.2.2)

variable {e : CachedEntry V}

theorem mem_plain (member : e ∈ c.map.tree) : untag e ∈ c.plain.tree :=
  mem_map_of_mem member

/-- The iterators in the cache are those of entries of the map, and they are not too many. -/
structure Valid (c : CachedMap V) : Prop where
  live : ∀ iterator ∈ c.cache, ∃ e ∈ c.map.tree, e.2.1 = iterator
  bounded : c.cache.length ≤ c.maxCacheSize

variable {iterator : Nat}

theorem deref_some (found : c.deref iterator = .ok e) :
    e ∈ c.map.tree ∧ e.2.1 = iterator := by
  unfold deref at found
  split at found
  next e' here =>
    cases found
    exact ⟨mem_of_find?_eq_some here, by simpa using List.find?_some here⟩
  next => cases found

theorem Valid.deref (valid : c.Valid) (member : iterator ∈ c.cache) :
    ∃ e, c.deref iterator = .ok e := by
  obtain ⟨e, stored, same⟩ := valid.live iterator member
  unfold CachedMap.deref
  cases here : c.map.tree.find? fun e => e.2.1 == iterator with
  | some e' => exact ⟨e', rfl⟩
  | none =>
    have absent := List.find?_eq_none.mp here e stored
    exact (absent (by simp [same])).elim

theorem searchCache_some {iterators : List Nat} (hit : c.searchCache cond iterators = .ok (some e)) :
    e ∈ c.map.tree ∧ e.2.1 ∈ iterators ∧ cond e.1 = .ok true := by
  induction iterators with
  | nil => cases hit
  | cons iterator rest ih =>
    obtain ⟨e', found, more⟩ := andThen_ok.mp hit
    obtain ⟨stored, same⟩ := deref_some found
    cases tested : cond e'.1 with
    | error stop =>
      rw [tested] at more
      cases more
    | ok answer =>
      rw [tested] at more
      cases answer with
      | true =>
        cases more
        exact ⟨stored, mem_cons.mpr (.inl same), tested⟩
      | false =>
        obtain ⟨stored', listed, holds⟩ := ih more
        exact ⟨stored', mem_cons_of_mem _ listed, holds⟩

theorem searchCache_total (cond : AddrRange → Except Stop Bool) {iterators : List Nat}
    (live : ∀ iterator ∈ iterators, ∃ e, c.deref iterator = .ok e)
    (total : ∀ e ∈ c.map.tree, ∃ answer, cond e.1 = .ok answer) :
    ∃ hit, c.searchCache cond iterators = .ok hit := by
  induction iterators with
  | nil => exact ⟨none, rfl⟩
  | cons iterator rest ih =>
    obtain ⟨e, found⟩ := live iterator mem_cons_self
    obtain ⟨answer, tested⟩ := total e (deref_some found).1
    obtain ⟨hit, more⟩ := ih fun iterator member => live iterator (mem_cons_of_mem _ member)
    rw [searchCache, found, ok_andThen, tested]
    cases answer with
    | true => exact ⟨some e, rfl⟩
    | false => exact ⟨hit, more⟩

theorem addNewEntryToCache_map (c : CachedMap V) (iterator : Nat) :
    (c.addNewEntryToCache iterator).map = c.map ∧
      (c.addNewEntryToCache iterator).maxCacheSize = c.maxCacheSize := by
  unfold addNewEntryToCache
  split
  · split
    · exact ⟨rfl, rfl⟩
    · exact ⟨rfl, rfl⟩
  · exact ⟨rfl, rfl⟩

theorem Valid.addNewEntryToCache (valid : c.Valid) (stored : e ∈ c.map.tree) :
    (c.addNewEntryToCache e.2.1).Valid := by
  unfold CachedMap.addNewEntryToCache
  split
  next positive =>
    split
    next filled =>
      refine ⟨?_, ?_⟩
      · intro iterator member
        rcases mem_cons.mp member with rfl | older
        · exact ⟨e, stored, rfl⟩
        · exact valid.live iterator (dropLast_subset _ older)
      · have bounded := valid.bounded
        simp only [length_cons, length_dropLast]
        omega
    next room =>
      refine ⟨?_, ?_⟩
      · intro iterator member
        rcases mem_cons.mp member with rfl | older
        · exact ⟨e, stored, rfl⟩
        · exact valid.live iterator older
      · simp only [length_cons]
        omega
  next => exact valid

theorem Valid.promote (valid : c.Valid) (member : iterator ∈ c.cache) :
    Valid { c with cache := iterator :: c.cache.erase iterator } := by
  have moved : (iterator :: c.cache.erase iterator).Perm c.cache := (perm_cons_erase member).symm
  refine ⟨?_, ?_⟩
  · intro other listed
    exact valid.live other (moved.mem_iff.mp listed)
  · show (iterator :: c.cache.erase iterator).length ≤ _
    rw [moved.length_eq]
    exact valid.bounded

/-- What a search does, if it goes through: it leaves the entries as they are and the cache valid,
and it finds an entry that passes the test, or nothing where the map finds nothing. -/
theorem Valid.find (valid : c.Valid) {found : Option (CachedEntry V)} (run : c.find r cond = .ok (found, next)) :
    next.Valid ∧ next.map = c.map ∧ next.maxCacheSize = c.maxCacheSize ∧
      (∀ e, found = some e → e ∈ c.map.tree ∧ cond e.1 = .ok true) ∧
      (found = none → c.map.find r cond = .ok none) := by
  obtain ⟨hit, searched, more⟩ := andThen_ok.mp run
  cases hit with
  | some e =>
    cases more
    obtain ⟨stored, listed, holds⟩ := searchCache_some searched
    refine ⟨valid.promote listed, rfl, rfl, ?_, nofun⟩
    intro e' same
    cases same
    exact ⟨stored, holds⟩
  | none =>
    obtain ⟨result, looked, done⟩ := andThen_ok.mp more
    cases tested : c.map.find r cond with
    | error stop =>
      rw [tested] at looked
      cases looked
    | ok answer =>
      rw [tested] at looked
      cases looked
      cases result with
      | none =>
        cases done
        exact ⟨valid, rfl, rfl, nofun, fun _ => rfl⟩
      | some e =>
        cases done
        obtain ⟨stored, holds⟩ := AddrRangeMap.find_some tested
        obtain ⟨same, size⟩ := addNewEntryToCache_map c e.2.1
        refine ⟨valid.addNewEntryToCache stored, same, size, ?_, nofun⟩
        intro e' here
        cases here
        exact ⟨stored, holds⟩

theorem cacheRemove_sublist (c : CachedMap V) (p : Nat) (cache : List Nat) :
    (c.cacheRemove p cache).Sublist cache := by
  unfold cacheRemove
  split
  · exact filter_sublist
  · exact List.Sublist.refl _

theorem foldl_cacheRemove_sublist (c : CachedMap V) (p : Nat) (turns : List Nat) (cache : List Nat) :
    (turns.foldl (fun cache _ => c.cacheRemove p cache) cache).Sublist cache := by
  induction turns generalizing cache with
  | nil => exact List.Sublist.refl _
  | cons turn turns ih => exact (ih _).trans (c.cacheRemove_sublist p cache)

variable {p : Nat}

theorem not_mem_cacheRemove (here : c.map.tree[p]? = some e) (cache : List Nat) : e.2.1 ∉ c.cacheRemove p cache := by
  unfold cacheRemove
  rw [here]
  simp

variable {q : Nat}

theorem mem_erase {i : Nat} (here : c.map.tree[i]? = some e)
    (outside : i < p ∨ q ≤ i) : e ∈ (c.map.erase p q).tree := by
  show e ∈ c.map.tree.take p ++ c.map.tree.drop q
  rw [mem_append]
  rcases outside with before | after
  · exact .inl (mem_of_getElem? ((List.getElem?_take_of_lt before).trans here))
  · right
    apply mem_of_getElem?
    rw [List.getElem?_drop, Nat.add_sub_cancel' after]
    exact here

def EraseClear (c : CachedMap V) (p q : Nat) : Prop :=
  ∀ i e, p < i → i < q → c.map.tree[i]? = some e → e.2.1 ∉ c.cache

theorem Valid.erase (valid : c.Valid) (clear : c.EraseClear p q) : (c.erase p q).Valid := by
  have kept : (c.erase p q).cache.Sublist c.cache := c.foldl_cacheRemove_sublist p _ _
  refine ⟨?_, le_trans kept.length_le valid.bounded⟩
  intro iterator member
  have listed := kept.subset member
  obtain ⟨e, stored, same⟩ := valid.live iterator listed
  obtain ⟨i, here⟩ := List.getElem?_of_mem stored
  refine ⟨e, mem_erase here ?_, same⟩
  by_contra inside
  rw [not_or, not_lt, not_le] at inside
  rcases eq_or_lt_of_le inside.1 with rfl | later
  · -- the first turn of the loop has removed this one
    obtain ⟨turns, shape⟩ : ∃ turns, List.range' p (q - p) = p :: turns := by
      refine ⟨List.range' (p + 1) (q - p - 1), ?_⟩
      rw [← range'_succ]
      congr 1
      omega
    have removed : iterator ∈ c.cacheRemove p c.cache := by
      have member' : iterator ∈ (List.range' p (q - p)).foldl (fun cache _ => c.cacheRemove p cache)
          c.cache := member
      rw [shape, foldl_cons] at member'
      exact (c.foldl_cacheRemove_sublist p turns _).subset member'
    exact not_mem_cacheRemove here c.cache (same ▸ removed)
  · exact clear i e later inside.2 here (same ▸ listed)

theorem eraseOne_eq (c : CachedMap V) (p : Nat) : c.eraseOne p = c.erase p (p + 1) := by
  have turn : List.range' p (p + 1 - p) = [p] := by
    rw [Nat.add_sub_cancel_left]
    rfl
  rw [eraseOne, CachedMap.erase, turn]
  rfl

/-! ## Runs of a map with a cache beside one without -/

inductive Op (V : Type) where
  | insert (r : AddrRange) (d : V)
  | eraseOne (p : Nat)
  | erase (p q : Nat)
  | clear
  | contains (r : AddrRange)
  | intersects (r : AddrRange)

def Op.cached (c : CachedMap V) : Op V → Except CacheStop (CachedMap V)
  | .insert r d => do
    let (next, _) ← c.insert r d
    .ok next
  | .eraseOne p => .ok (c.eraseOne p)
  | .erase p q => .ok (c.erase p q)
  | .clear => .ok c.clear
  | .contains r => do
    let (_, next) ← c.containsRange r
    .ok next
  | .intersects r => do
    let (_, next) ← c.intersects r
    .ok next

def Op.uncached (m : AddrRangeMap V) : Op V → Except Stop (AddrRangeMap V)
  | .insert r d => do
    let (next, _) ← m.insert r d
    .ok next
  | .eraseOne p => .ok (m.erase p (p + 1))
  | .erase p q => .ok (m.erase p q)
  | .clear => .ok m.clear
  | .contains _ => .ok m
  | .intersects _ => .ok m

/-- What is inserted meets the condition of the map without a cache, iterators are valid, and no
entry is erased behind the back of the cache. -/
def Op.Meets (c : CachedMap V) : Op V → Prop
  | .insert r _ => r.Storable ∧ r.HasGranularity ∧ c.plain.ClearOf r
  | .eraseOne p => p < c.map.tree.length
  | .erase p q => p ≤ q ∧ q ≤ c.map.tree.length ∧ c.EraseClear p q
  | .clear => True
  | .contains _ => True
  | .intersects _ => True

/-- A map with a cache of up to `n` iterators and a map without one, after the same operations. The
steps satisfy `Allowed`. -/
inductive Reached (n : Nat) (Allowed : CachedMap V → Op V → Prop) : CachedMap V → AddrRangeMap V → Prop
  | start : Reached n Allowed { maxCacheSize := n } {}
  | step {c c' : CachedMap V} {m m' : AddrRangeMap V} (op : Op V) : Reached n Allowed c m → Allowed c op →
      op.cached c = .ok c' → op.uncached m = .ok m' → Reached n Allowed c' m'

structure Mirrors (n : Nat) (c : CachedMap V) (m : AddrRangeMap V) : Prop where
  valid : c.Valid
  size : c.maxCacheSize = n
  same : c.plain = m
  sound : m.Sound

variable {n : Nat}

theorem Mirrors.find (mirrors : Mirrors n c m) {found : Option (CachedEntry V)}
    (run : c.find r cond = .ok (found, next)) : Mirrors n next m := by
  obtain ⟨valid, map, size, -⟩ := mirrors.valid.find run
  refine ⟨valid, size.trans mirrors.size, ?_, mirrors.sound⟩
  rw [plain, map]
  exact mirrors.same

theorem Mirrors.insert {d : V} (mirrors : Mirrors n c m) (storable : r.Storable)
    (granularity : r.HasGranularity) (clear : m.ClearOf r) {position : Option (CachedEntry V)}
    {m' : AddrRangeMap V} {position' : Option (AddrRange × V)} (run : c.insert r d = .ok (next, position))
    (run' : m.insert r d = .ok (m', position')) : Mirrors n next m' := by
  obtain ⟨⟨found, c₁⟩, looked, rest⟩ := andThen_ok.mp run
  have mirrors₁ := mirrors.find looked
  obtain ⟨-, -, -, hit, miss⟩ := mirrors.valid.find looked
  have spec := mirrors.sound.insert_spec storable clear run'
  cases found with
  | some e =>
    cases rest
    obtain ⟨stored, holds⟩ := hit e rfl
    have member : untag e ∈ m.tree := mirrors.same ▸ mem_plain stored
    have shared := (storable.intersects_exact (mirrors.sound.storable _ member) holds).mp rfl
    rw [spec.2.1 (spec.1.mpr ⟨untag e, member, shared⟩)]
    exact mirrors₁
  | none =>
    cases rest
    have nothing : m.intersects r = .ok none := by
      rw [← mirrors.same]
      show (c.map.mapValues Prod.snd).find r _ = _
      rw [AddrRangeMap.find_mapValues, miss rfl]
      rfl
    have grown : m' = { tree := OrderedMap.insert AddrRange.lt (r, d) m.tree } := by
      rcases AddrRangeMap.insert_eq_ok run' with ⟨e, found, -⟩ | ⟨-, same, -⟩
      · rw [nothing] at found
        cases found
      · exact same
    subst grown
    refine ⟨⟨?_, mirrors₁.valid.bounded⟩, mirrors₁.size, ?_, ?_⟩
    · intro iterator listed
      obtain ⟨e, stored, same⟩ := mirrors₁.valid.live iterator listed
      exact ⟨e, OrderedMap.mem_insert_of_mem stored, same⟩
    · show AddrRangeMap.mk _ = AddrRangeMap.mk _
      rw [← AddrRangeMap.insert_mapValues Prod.snd (r, c₁.next, d) c₁.map.tree, ← mirrors₁.same]
      rfl
    · exact mirrors.sound.insert_of_none storable clear nothing d granularity

theorem Mirrors.erase (mirrors : Mirrors n c m) (le : p ≤ q) (clear : c.EraseClear p q) :
    Mirrors n (c.erase p q) (m.erase p q) := by
  refine ⟨mirrors.valid.erase clear, mirrors.size, ?_, mirrors.sound.erase p q le⟩
  rw [← mirrors.same]
  exact AddrRangeMap.erase_mapValues Prod.snd c.map p q

theorem Reached.mirrors (reached : Reached n (fun c op => op.Meets c) c m) : Mirrors n c m := by
  induction reached with
  | start =>
    refine ⟨⟨?_, zero_le n⟩, rfl, rfl, .nil, ?_, ?_, ?_⟩
    all_goals
      intro _ member
      cases member
  | @step c c' m m' op _ meets run run' ih =>
    cases op with
    | insert r d =>
      obtain ⟨⟨_, position⟩, inserted, done⟩ := andThen_ok.mp run
      cases done
      obtain ⟨⟨_, position'⟩, inserted', done'⟩ := andThen_ok.mp run'
      cases done'
      obtain ⟨storable, granularity, clear⟩ := meets
      exact ih.insert storable granularity (ih.same ▸ clear) inserted inserted'
    | eraseOne p =>
      cases run
      cases run'
      rw [eraseOne_eq]
      apply ih.erase (le_succ p)
      intro i e after before
      omega
    | erase p q =>
      cases run
      cases run'
      exact ih.erase meets.1 meets.2.2
    | clear =>
      cases run
      cases run'
      refine ⟨⟨?_, zero_le _⟩, ih.size, rfl, AddrRangeMap.sound_clear m⟩
      intro _ member
      cases member
    | contains r =>
      obtain ⟨⟨found, _⟩, looked, done⟩ := andThen_ok.mp run
      cases done
      cases run'
      exact ih.find looked
    | intersects r =>
      obtain ⟨⟨found, _⟩, looked, done⟩ := andThen_ok.mp run
      cases done
      cases run'
      exact ih.find looked

theorem Mirrors.contains {a : Addr} (mirrors : Mirrors n c m) (below : a.toNat + 1 < 2 ^ 64) :
    ∃ found c', c.contains a = .ok (found, c') ∧ m.contains a = .ok (found.map untag) := by
  have exact : ∀ e ∈ c.map.tree,
      (AddrRange.plain a (a + 1)).isSubset e.1 = .ok (decide (a ∈ e.1)) := by
    intro e stored
    have member : untag e ∈ m.tree := mirrors.same ▸ mem_plain stored
    exact (mirrors.sound.storable _ member).isSubset_single (mirrors.sound.granularity _ member) below
  obtain ⟨hit, searched⟩ := searchCache_total (fun r1 => (AddrRange.plain a (a + 1)).isSubset r1)
    (fun iterator listed => mirrors.valid.deref listed) (fun e stored => ⟨_, exact e stored⟩)
  obtain ⟨result, looked, only⟩ := mirrors.sound.contains_eq below
  cases hit with
  | some e =>
    obtain ⟨stored, -, holds⟩ := searchCache_some searched
    rw [exact e stored] at holds
    have inside : a ∈ e.1 := by simpa using holds
    refine ⟨some e, { c with cache := e.2.1 :: c.cache.erase e.2.1 }, ?_, ?_⟩
    · rw [CachedMap.contains, containsRange, CachedMap.find, searched, ok_andThen]
    · rw [looked, (only (untag e)).mpr ⟨mirrors.same ▸ mem_plain stored, inside⟩]
      rfl
  | none =>
    have mapped : m.contains a = (c.map.contains a).map (Option.map untag) := by
      rw [← mirrors.same]
      exact AddrRangeMap.find_mapValues Prod.snd c.map _ _
    cases missed : c.map.contains a with
    | error stop =>
      rw [looked, missed] at mapped
      cases mapped
    | ok found =>
      have missed' : c.map.find (AddrRange.plain a (a + 1)) _ = .ok found := missed
      rw [mapped, missed, CachedMap.contains, containsRange, CachedMap.find, searched, ok_andThen]
      dsimp only
      rw [missed']
      cases found with
      | some e => exact ⟨some e, c.addNewEntryToCache e.2.1, rfl, rfl⟩
      | none => exact ⟨none, c, rfl, rfl⟩

/-- Along every run that meets the condition the cache is transparent: it holds iterators of entries
of the map, no more than it may, and the look-up of an address finds the entry that is found without
a cache. -/
theorem cache_transparent {n : Nat} (reached : Reached n (fun c op => op.Meets c) c m) :
    (∀ iterator ∈ c.cache, ∃ e ∈ c.map.tree, e.2.1 = iterator) ∧ c.cache.length ≤ n ∧
      ∀ a < BitVec.allOnes 64,
        ∃ found c', c.contains a = .ok (found, c') ∧ m.contains a = .ok (found.map untag) := by
  have mirrors := reached.mirrors
  refine ⟨mirrors.valid.live, mirrors.size ▸ mirrors.valid.bounded, ?_⟩
  intro a below
  apply mirrors.contains
  have limit : (BitVec.allOnes 64).toNat = 2 ^ 64 - 1 := by decide
  rw [BitVec.lt_def, limit] at below
  omega

/-- Two ranges, of which the second is looked up and the first erased. -/
theorem cache_transparent_two :
    Reached 2 (fun c op => op.Meets c)
      { maxCacheSize := 2, map := { tree := [(AddrRange.plain 16 32, 1, 8)] }, cache := [1], next := 2 }
      { tree := [(AddrRange.plain 16 32, 8)] } ∧ [1].length ≤ 2 := by
  have storable : ∀ {a b : Addr}, a ∈ AddrRange.plain a b → (AddrRange.plain a b).Storable :=
    fun inside => ⟨⟨_, inside⟩, fun masks => absurd rfl masks⟩
  have meets : ∀ (c : CachedMap Nat) {a b : Addr} (d : Nat), a ∈ AddrRange.plain a b →
      (Op.insert (AddrRange.plain a b) d).Meets c :=
    fun _ _ _ _ inside => ⟨storable inside, fun masks => absurd rfl masks, fun masks => absurd rfl masks⟩
  have first : Reached 2 (fun c op => op.Meets c)
      { maxCacheSize := 2, map := { tree := [(AddrRange.plain 0 16, 0, 7)] }, next := 1 }
      { tree := [(AddrRange.plain 0 16, 7)] } :=
    .step (.insert (AddrRange.plain 0 16) 7) .start (meets _ 7 (by decide +kernel)) (by decide +kernel)
      (by decide +kernel)
  have second : Reached 2 (fun c op => op.Meets c)
      { maxCacheSize := 2
        map := { tree := [(AddrRange.plain 0 16, 0, 7), (AddrRange.plain 16 32, 1, 8)] }, next := 2 }
      { tree := [(AddrRange.plain 0 16, 7), (AddrRange.plain 16 32, 8)] } :=
    .step (.insert (AddrRange.plain 16 32) 8) first (meets _ 8 (by decide +kernel)) (by decide +kernel)
      (by decide +kernel)
  have third := second.step (.contains (AddrRange.plain 20 21)) trivial rfl rfl
  have fourth := third.step (.eraseOne 0) two_pos rfl rfl
  exact ⟨fourth, (cache_transparent fourth).2.1⟩

/-- Two ranges, a look-up in the second, and both are erased: its iterator stays in the cache, and the
next look-up follows it. -/
theorem erased_range_stays_cached :
    ∃ c : CachedMap Nat, [Op.insert (AddrRange.plain 0 16) 7, .insert (AddrRange.plain 16 32) 8,
        .contains (AddrRange.plain 20 21), .erase 0 2].foldlM Op.cached { maxCacheSize := 2 } = .ok c ∧
      c.map.tree = [] ∧ c.cache = [1] ∧ c.contains 20 = .error .dangling ∧
      ∃ m : AddrRangeMap Nat, [Op.insert (AddrRange.plain 0 16) 7, .insert (AddrRange.plain 16 32) 8,
          .contains (AddrRange.plain 20 21), .erase 0 2].foldlM Op.uncached {} = .ok m ∧
        m.contains 20 = .ok none :=
  ⟨{ maxCacheSize := 2, cache := [1], next := 2 }, by decide +kernel, rfl, rfl, by decide +kernel, {},
    by decide +kernel, by decide +kernel⟩

end CachedMap

end Resister.Base
