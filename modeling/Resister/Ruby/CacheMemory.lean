import Mathlib

/-!
# The tag index of a cache

`CacheMemory` records twice where a line is: in the ways of its set, and in `m_tag_index`, which
gives the way of an address. `deallocate` removes both records.
-/

namespace Resister.Ruby

open Function

inductive AccessPermission where
  | Read_Only | Read_Write | Maybe_Stale | Backing_Store | Backing_Store_Busy | Invalid | NotPresent | Busy
  deriving DecidableEq, Repr

/-- An address that `makeLineAddress` leaves as it is, as every function asserts of its argument. -/
structure LineAddress (blockSizeBits : Nat) where
  addr : Nat
  aligned : addr % 2 ^ blockSizeBits = 0
  deriving DecidableEq

structure CacheGeometry where
  blockSizeBits : Nat
  startIndexBit : Nat
  numSets : Nat
  assoc : Nat
  several : 1 < numSets
  positive : 0 < assoc

namespace CacheGeometry

variable (g : CacheGeometry)

abbrev Line : Type := LineAddress g.blockSizeBits

/-- `m_cache_num_set_bits`. -/
def numSetBits : Nat := Nat.log2 g.numSets

theorem two_pow_numSetBits_le : 2 ^ g.numSetBits ≤ g.numSets :=
  Nat.log2_self_le (Nat.ne_zero_of_lt g.several)

def addressToCacheSet (address : g.Line) : Fin g.numSets :=
  ⟨address.addr / 2 ^ g.startIndexBit % 2 ^ g.numSetBits,
    (Nat.mod_lt _ (Nat.two_pow_pos _)).trans_le g.two_pow_numSetBits_le⟩

end CacheGeometry

structure AbstractCacheEntry (g : CacheGeometry) where
  address : g.Line
  permission : AccessPermission
  set : Fin g.numSets
  way : Fin g.assoc
  deriving DecidableEq

/-- `nullEntry`: the index gives a way that holds no entry. The others are the assertions and the panic. -/
inductive CacheFailure where
  | nullEntry | tagPresent | notAvail | noOpenSlot | notFound | avail
  deriving DecidableEq, Repr

structure CacheMemory (g : CacheGeometry) where
  cache : Fin g.numSets → Fin g.assoc → Option (AbstractCacheEntry g) := fun _ _ => none
  tagIndex : g.Line → Option (Fin g.assoc) := fun _ => none

structure ReplacementPolicy (g : CacheGeometry) where
  getVictim : List (AbstractCacheEntry g) → AbstractCacheEntry g
  chosen : ∀ candidates, candidates ≠ [] → getVictim candidates ∈ candidates

namespace CacheMemory

variable {g : CacheGeometry} (c : CacheMemory g)

def findTagInSet (cacheSet : Fin g.numSets) (tag : g.Line) : Except CacheFailure (Option (Fin g.assoc)) :=
  match c.tagIndex tag with
  | none => .ok none
  | some way =>
    match c.cache cacheSet way with
    | none => .error .nullEntry
    | some entry => .ok (if entry.permission ≠ .NotPresent then some way else none)

def lookup (address : g.Line) : Except CacheFailure (Option (AbstractCacheEntry g)) :=
  (c.findTagInSet (g.addressToCacheSet address) address).map fun loc =>
    loc.bind fun way => c.cache (g.addressToCacheSet address) way

def cacheAvail (address : g.Line) : Bool :=
  (List.finRange g.assoc).any fun way =>
    match c.cache (g.addressToCacheSet address) way with
    | none => true
    | some entry => decide (entry.address = address ∨ entry.permission = .NotPresent)

def isOpen (cacheSet : Fin g.numSets) (way : Fin g.assoc) : Bool :=
  match c.cache cacheSet way with
  | none => true
  | some entry => decide (entry.permission = .NotPresent)

/-- `m_cache[set][way] = entry`. -/
def put (set : Fin g.numSets) (way : Fin g.assoc) (entry : Option (AbstractCacheEntry g)) : CacheMemory g :=
  { c with cache := fun s w => if s = set ∧ w = way then entry else c.cache s w }

def allocate (address : g.Line) : Except CacheFailure (CacheMemory g) :=
  match c.lookup address with
  | .error failure => .error failure
  | .ok (some _) => .error .tagPresent
  | .ok none =>
    if c.cacheAvail address then
      let cacheSet := g.addressToCacheSet address
      match (List.finRange g.assoc).find? fun way => c.isOpen cacheSet way with
      | none => .error .noOpenSlot
      | some way =>
        .ok { c.put cacheSet way (some ⟨address, .Invalid, cacheSet, way⟩) with
          tagIndex := Function.update c.tagIndex address (some way) }
    else .error .notAvail

def deallocate (address : g.Line) : Except CacheFailure (CacheMemory g) :=
  match c.lookup address with
  | .error failure => .error failure
  | .ok none => .error .notFound
  | .ok (some entry) =>
    .ok { c.put entry.set entry.way none with tagIndex := Function.update c.tagIndex address none }

def changePermission (set : Fin g.numSets) (way : Fin g.assoc) (permission : AccessPermission) : CacheMemory g :=
  c.put set way ((c.cache set way).map fun entry => { entry with permission := permission })

def cacheProbe (policy : ReplacementPolicy g) (address : g.Line) : Except CacheFailure g.Line :=
  if c.cacheAvail address then .error .avail
  else
    let cacheSet := g.addressToCacheSet address
    let candidates := (List.finRange g.assoc).filterMap fun way => c.cache cacheSet way
    match c.cache cacheSet (policy.getVictim candidates).way with
    | none => .error .nullEntry
    | some entry => .ok entry.address

inductive Op (g : CacheGeometry) where
  | allocate (address : g.Line)
  | deallocate (address : g.Line)
  | changePermission (set : Fin g.numSets) (way : Fin g.assoc) (permission : AccessPermission)

def step : Op g → Except CacheFailure (CacheMemory g)
  | .allocate address => c.allocate address
  | .deallocate address => c.deallocate address
  | .changePermission set way permission => .ok (c.changePermission set way permission)

def run (g : CacheGeometry) (ops : List (Op g)) : Except CacheFailure (CacheMemory g) := ops.foldlM step {}

structure Indexed : Prop where
  index : ∀ address way, c.tagIndex address = some way ↔
    ∃ entry, c.cache (g.addressToCacheSet address) way = some entry ∧ entry.address = address
  placed : ∀ {set way entry}, c.cache set way = some entry →
    g.addressToCacheSet entry.address = set ∧ entry.set = set ∧ entry.way = way
  present : ∀ {set way entry}, c.cache set way = some entry → entry.permission ≠ .NotPresent

variable {c} {c' : CacheMemory g} {address : g.Line}

theorem put_cache {set s : Fin g.numSets} {way w : Fin g.assoc} {entry : Option (AbstractCacheEntry g)} :
    (c.put set way entry).cache s w = if s = set ∧ w = way then entry else c.cache s w := rfl

theorem empty_indexed : ({} : CacheMemory g).Indexed where
  index _ _ := by simp
  placed found := by cases found
  present found := by cases found

theorem Indexed.lookup_eq (indexed : c.Indexed) (address : g.Line) :
    c.lookup address = .ok ((c.tagIndex address).bind fun way => c.cache (g.addressToCacheSet address) way) := by
  unfold lookup findTagInSet
  cases found : c.tagIndex address with
  | none => rfl
  | some way =>
    obtain ⟨entry, stored, -⟩ := (indexed.index address way).mp found
    simp only [stored, if_pos (indexed.present stored)]
    rfl

theorem Indexed.lookup_address (indexed : c.Indexed) {entry : AbstractCacheEntry g}
    (found : c.lookup address = .ok (some entry)) : ∃ way,
      c.tagIndex address = some way ∧ c.cache (g.addressToCacheSet address) way = some entry ∧
        entry.address = address := by
  rw [indexed.lookup_eq] at found
  obtain ⟨way, listed, stored⟩ := Option.bind_eq_some_iff.mp (Except.ok.inj found)
  obtain ⟨entry', stored', same⟩ := (indexed.index address way).mp listed
  cases stored.symm.trans stored'
  exact ⟨way, listed, stored, same⟩

theorem Indexed.absent (indexed : c.Indexed) (missing : c.lookup address = .ok none) : c.tagIndex address = none := by
  cases found : c.tagIndex address with
  | none => rfl
  | some way =>
    obtain ⟨entry, stored, -⟩ := (indexed.index address way).mp found
    rw [indexed.lookup_eq, found, Option.bind_some, stored] at missing
    cases missing

theorem Indexed.cache_of_isOpen (indexed : c.Indexed) {set : Fin g.numSets} {way : Fin g.assoc}
    (isOpen : c.isOpen set way = true) : c.cache set way = none := by
  cases stored : c.cache set way with
  | none => rfl
  | some entry =>
    rw [CacheMemory.isOpen, stored] at isOpen
    exact absurd (of_decide_eq_true isOpen) (indexed.present stored)

theorem Indexed.allocate (indexed : c.Indexed) (done : c.allocate address = .ok c') : c'.Indexed := by
  unfold CacheMemory.allocate at done
  split at done
  · cases done
  · cases done
  rename_i missing
  split at done
  swap
  · cases done
  dsimp only at done
  split at done
  · cases done
  rename_i way selected
  cases done
  have absent := indexed.absent missing
  have free := indexed.cache_of_isOpen (List.find?_some selected)
  refine ⟨fun a w => ?_, fun {set w entry} stored => ?_, fun {set w entry} stored => ?_⟩
  · dsimp only
    rw [put_cache]
    split
    · rename_i here
      obtain ⟨sameSet, rfl⟩ := here
      by_cases same : a = address
      · simp [same]
      · -- the way was free, so the index had it for no other address of the set
        have unlisted : c.tagIndex a ≠ some w := by
          rw [Ne, indexed.index, sameSet, free]
          rintro ⟨entry, stored, -⟩
          cases stored
        simp [update_of_ne same, unlisted, Ne.symm same]
    · rename_i elsewhere
      by_cases same : a = address
      · subst same
        have other : way ≠ w := fun same => elsewhere ⟨rfl, same.symm⟩
        rw [update_self, ← indexed.index, absent]
        simp [other]
      · rw [update_of_ne same, indexed.index]
  · rw [put_cache] at stored
    split at stored
    · rename_i here
      obtain ⟨rfl, rfl⟩ := here
      cases stored
      exact ⟨rfl, rfl, rfl⟩
    · exact indexed.placed stored
  · rw [put_cache] at stored
    split at stored
    · cases stored
      exact nofun
    · exact indexed.present stored

theorem Indexed.deallocate (indexed : c.Indexed) (done : c.deallocate address = .ok c') : c'.Indexed := by
  unfold CacheMemory.deallocate at done
  split at done
  · cases done
  · cases done
  rename_i entry found
  cases done
  obtain ⟨way, listed, stored, rfl⟩ := indexed.lookup_address found
  obtain ⟨-, set', way'⟩ := indexed.placed stored
  rw [set', way']
  have kept : ∀ {set w entry'}, (c.put (g.addressToCacheSet entry.address) way none).cache set w = some entry' →
      c.cache set w = some entry' := by
    intro set w entry' stored'
    rw [put_cache] at stored'
    split at stored'
    · cases stored'
    · exact stored'
  refine ⟨fun a w => ?_, fun stored' => indexed.placed (kept stored'), fun stored' => indexed.present (kept stored')⟩
  dsimp only
  by_cases same : a = entry.address
  · subst same
    rw [update_self]
    refine iff_of_false nofun ?_
    rintro ⟨entry', stored', same⟩
    have listed' := (indexed.index _ w).mpr ⟨entry', kept stored', same⟩
    cases listed.symm.trans listed'
    simp [put_cache] at stored'
  · rw [update_of_ne same, indexed.index, put_cache]
    split
    · rename_i here
      rw [here.1, here.2, stored]
      simp [Ne.symm same]
    · rfl

theorem Indexed.changePermission (indexed : c.Indexed) {permission : AccessPermission}
    (present : permission ≠ .NotPresent) (set : Fin g.numSets) (way : Fin g.assoc) :
    (c.changePermission set way permission).Indexed := by
  have changed : ∀ {s w entry}, (c.changePermission set way permission).cache s w = some entry →
      ∃ old, c.cache s w = some old ∧ entry.address = old.address ∧ entry.set = old.set ∧ entry.way = old.way ∧
        entry.permission ≠ .NotPresent := by
    intro s w entry stored
    rw [CacheMemory.changePermission, put_cache] at stored
    split at stored
    · rename_i here
      obtain ⟨rfl, rfl⟩ := here
      obtain ⟨old, stored', rfl⟩ := Option.map_eq_some_iff.mp stored
      exact ⟨old, stored', rfl, rfl, rfl, present⟩
    · exact ⟨entry, stored, rfl, rfl, rfl, indexed.present stored⟩
  refine ⟨fun a w => ?_, fun stored => ?_, fun stored => ?_⟩
  · refine (indexed.index a w).trans ?_
    rw [CacheMemory.changePermission, put_cache]
    split
    · rename_i here
      rw [here.1, here.2]
      simp
    · rfl
  · obtain ⟨old, stored', same, set', way', -⟩ := changed stored
    rw [same, set', way']
    exact indexed.placed stored'
  · obtain ⟨-, -, -, -, -, present'⟩ := changed stored
    exact present'

theorem run_indexed {ops : List (Op g)} (present : ∀ set way, .changePermission set way .NotPresent ∉ ops)
    (reached : run g ops = .ok c) : c.Indexed := by
  suffices steps : ∀ start : CacheMemory g, start.Indexed → ops.foldlM step start = .ok c → c.Indexed from
    steps {} empty_indexed reached
  clear reached
  induction ops with
  | nil =>
    intro start indexed reached
    cases reached
    exact indexed
  | cons op rest ih =>
    intro start indexed reached
    rw [List.foldlM_cons] at reached
    cases stepped : start.step op with
    | error failure =>
      rw [stepped] at reached
      cases reached
    | ok next =>
      rw [stepped] at reached
      refine ih (fun set way later => present set way (List.mem_cons_of_mem _ later)) next ?_ reached
      cases op with
      | allocate address => exact indexed.allocate stepped
      | deallocate address => exact indexed.deallocate stepped
      | changePermission set way permission =>
        cases stepped
        exact indexed.changePermission (by rintro rfl; exact present set way List.mem_cons_self) set way

theorem stored_of_not_avail (full : c.cacheAvail address = false) (way : Fin g.assoc) :
    ∃ entry, c.cache (g.addressToCacheSet address) way = some entry := by
  cases stored : c.cache (g.addressToCacheSet address) way with
  | some entry => exact ⟨entry, rfl⟩
  | none =>
    have avail := List.any_eq_false.mp full way (List.mem_finRange way)
    rw [stored] at avail
    cases avail rfl

theorem Indexed.cacheProbe (indexed : c.Indexed) (policy : ReplacementPolicy g) (full : c.cacheAvail address = false) :
    ∃ way entry, c.cache (g.addressToCacheSet address) way = some entry ∧
      c.cacheProbe policy address = .ok entry.address := by
  have candidates : (List.finRange g.assoc).filterMap (fun way => c.cache (g.addressToCacheSet address) way) ≠ [] := by
    obtain ⟨entry, stored⟩ := stored_of_not_avail full ⟨0, g.positive⟩
    exact List.ne_nil_of_mem (List.mem_filterMap.mpr ⟨_, List.mem_finRange _, stored⟩)
  obtain ⟨way, -, stored⟩ := List.mem_filterMap.mp (policy.chosen _ candidates)
  refine ⟨way, _, stored, ?_⟩
  unfold CacheMemory.cacheProbe
  simp only [full, Bool.false_eq_true, if_false, (indexed.placed stored).2.2, stored]

/-- Without a change to `NotPresent` the index gives the entry of an address, the only one in its set, and the probe gives
the address of an entry in the set. -/
theorem tag_index_exact {g : CacheGeometry} {ops : List (Op g)} {c : CacheMemory g}
    (present : ∀ set way, .changePermission set way .NotPresent ∉ ops) (reached : run g ops = .ok c)
    (address : g.Line) :
    (∃ found, c.lookup address = .ok found ∧ ∀ entry ∈ found, entry.address = address) ∧
    (∀ way way' entry entry', c.cache (g.addressToCacheSet address) way = some entry → entry.address = address →
      c.cache (g.addressToCacheSet address) way' = some entry' → entry'.address = address → way = way') ∧
    (∀ way entry, c.cache (g.addressToCacheSet address) way = some entry → entry.address = address →
      entry.permission ≠ .NotPresent → c.lookup address = .ok (some entry)) ∧
    (∀ policy, c.cacheAvail address = false → ∃ way entry, c.cache (g.addressToCacheSet address) way = some entry ∧
      c.cacheProbe policy address = .ok entry.address) := by
  have indexed := run_indexed present reached
  refine ⟨⟨_, indexed.lookup_eq address, fun entry found => ?_⟩, ?_, ?_, fun policy full => indexed.cacheProbe policy full⟩
  · obtain ⟨_, -, -, same⟩ := indexed.lookup_address ((indexed.lookup_eq address).trans (congrArg Except.ok found))
    exact same
  · intro way way' entry entry' stored same stored' same'
    have first := (indexed.index address way).mpr ⟨entry, stored, same⟩
    have second := (indexed.index address way').mpr ⟨entry', stored', same'⟩
    exact Option.some.inj (first.symm.trans second)
  · intro way entry stored same _
    rw [indexed.lookup_eq, (indexed.index address way).mpr ⟨entry, stored, same⟩, Option.bind_some, stored]

def twoSets : CacheGeometry := ⟨6, 6, 2, 1, Nat.one_lt_two, Nat.one_pos⟩

def lineAt (n : Nat) : twoSets.Line := ⟨n * 2 ^ 6, Nat.mul_mod_left n (2 ^ 6)⟩

def changeFirst (permission : AccessPermission) : Op twoSets :=
  .changePermission ⟨0, by decide⟩ ⟨0, by decide⟩ permission

theorem tag_index_exact_allocated :
    ∃ c, run twoSets [.allocate (lineAt 0), changeFirst .Read_Write, .allocate (lineAt 1)] = .ok c ∧
      ∃ found, c.lookup (lineAt 0) = .ok found ∧ ∀ entry ∈ found, entry.address = lineAt 0 := by
  have present : ∀ set way, .changePermission set way .NotPresent ∉
      [.allocate (lineAt 0), changeFirst .Read_Write, .allocate (lineAt 1)] := by simp [changeFirst]
  exact ⟨_, rfl, (tag_index_exact present rfl (lineAt 0)).1⟩

/-- Line 0 is set to `NotPresent` and its way taken by line 2: the lookup of line 0 gives the entry of line 2. -/
theorem tag_index_stale :
    ∃ c, run twoSets [.allocate (lineAt 0), changeFirst .NotPresent, .allocate (lineAt 2)] = .ok c ∧
      (c.lookup (lineAt 0)).map (fun found => found.map AbstractCacheEntry.address) = .ok (some (lineAt 2)) ∧
      lineAt 2 ≠ lineAt 0 :=
  ⟨_, rfl, rfl, by decide⟩

end CacheMemory

end Resister.Ruby
