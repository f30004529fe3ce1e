import Mathlib
import Resister.Base.Logging
import Resister.Library.UndoLog

namespace Resister.Cpu

open Resister.Base List Function

inductive RegClassType where
  | intRegClass
  | floatRegClass
  | vecRegClass
  | vecElemClass
  | vecPredRegClass
  | ccRegClass
  | miscRegClass
  | invalidRegClass
  deriving DecidableEq, Repr

instance : Fintype RegClassType where
  elems := {.intRegClass, .floatRegClass, .vecRegClass, .vecElemClass, .vecPredRegClass, .ccRegClass,
    .miscRegClass, .invalidRegClass}
  complete c := by cases c <;> decide

def RegClassType.isRenameable (c : RegClassType) : Bool :=
  c != .miscRegClass && c != .invalidRegClass

structure RegId where
  regClass : RegClassType
  index : Nat
  numPinnedWrites : Int
  deriving DecidableEq, Repr

def RegId.isRenameable (reg : RegId) : Bool :=
  reg.regClass.isRenameable

/-- A physical register stands for the pointer to it: a register file has one of each. -/
structure PhysRegId where
  regClass : RegClassType
  index : Nat
  deriving DecidableEq, Repr

def invalidPhysRegId : PhysRegId :=
  ⟨.invalidRegClass, 0⟩

structure RenameHistory where
  instSeqNum : Nat
  archReg : RegId
  newPhysReg : PhysRegId
  prevPhysReg : PhysRegId
  deriving DecidableEq, Repr

def RenameHistory.changed (h : RenameHistory) : Bool :=
  h.newPhysReg != h.prevPhysReg

abbrev UnifiedRenameMap := RegClassType → List PhysRegId

def UnifiedRenameMap.set (map : UnifiedRenameMap) (arch : RegId) (phys : PhysRegId) : UnifiedRenameMap :=
  Function.update map arch.regClass ((map arch.regClass).set arch.index phys)

/-- The free list that the threads share, with the rename map and the history of each of them. The
counts of pinned writes belong to the registers, and the later stages change them too. -/
structure Rename (threads : Nat) where
  freeList : RegClassType → List PhysRegId
  renameMap : Fin threads → UnifiedRenameMap
  historyBuffer : Fin threads → List RenameHistory
  numPinnedWrites : PhysRegId → Int

namespace Rename

variable {threads : Nat}

def getReg (s : Rename threads) (c : RegClassType) : Except Fault (PhysRegId × Rename threads) :=
  match s.freeList c with
  | [] => .error .assertion
  | reg :: rest => .ok (reg, { s with freeList := Function.update s.freeList c rest })

def addReg (s : Rename threads) (freed : PhysRegId) : Rename threads :=
  { s with freeList := Function.update s.freeList freed.regClass (s.freeList freed.regClass ++ [freed]) }

def lookup (s : Rename threads) (tid : Fin threads) (arch : RegId) : Except Fault PhysRegId :=
  match arch.regClass with
  | .invalidRegClass => .ok invalidPhysRegId
  | .miscRegClass => .ok ⟨.miscRegClass, arch.index⟩
  | c =>
    match (s.renameMap tid c)[arch.index]? with
    | none => .error .undefined
    | some phys => .ok phys

def setEntry (s : Rename threads) (tid : Fin threads) (arch : RegId) (phys : PhysRegId) :
    Except Fault (Rename threads) := do
  check (phys.regClass == arch.regClass)
  if !arch.isRenameable then
    let mapped ← s.lookup tid arch
    check (phys == mapped)
    return s
  check (decide (arch.index ≤ (s.renameMap tid arch.regClass).length))
  if arch.index = (s.renameMap tid arch.regClass).length then throw .undefined
  return { s with renameMap := Function.update s.renameMap tid ((s.renameMap tid).set arch phys) }

/-- The pair of the new and the previous register. A register with pinned writes keeps its mapping. -/
def rename (s : Rename threads) (tid : Fin threads) (arch : RegId) :
    Except Fault ((PhysRegId × PhysRegId) × Rename threads) :=
  if !arch.isRenameable then do
    let phys ← s.lookup tid arch
    return ((phys, phys), s)
  else
    match (s.renameMap tid arch.regClass)[arch.index]? with
    | none => .error .undefined
    | some prev =>
      if 0 < s.numPinnedWrites prev then do
        check (arch.numPinnedWrites == 0)
        return ((prev, prev),
          { s with numPinnedWrites := Function.update s.numPinnedWrites prev (s.numPinnedWrites prev - 1) })
      else do
        let (renamed, taken) ← s.getReg arch.regClass
        return ((renamed, prev),
          { taken with
            renameMap := Function.update s.renameMap tid ((s.renameMap tid).set arch renamed)
            numPinnedWrites := Function.update s.numPinnedWrites renamed arch.numPinnedWrites })

def renameDest (tid : Fin threads) (seqNum : Nat) (s : Rename threads) (arch : RegId) :
    Except Fault (Rename threads) := do
  let (info, renamed) ← s.rename tid arch
  let entry : RenameHistory := ⟨seqNum, arch, info.1, info.2⟩
  return { renamed with
    historyBuffer := Function.update s.historyBuffer tid (entry :: s.historyBuffer tid) }

def renameDestRegs (s : Rename threads) (tid : Fin threads) (seqNum : Nat) (dests : List RegId) :
    Except Fault (Rename threads) :=
  dests.foldlM (renameDest tid seqNum) s

def undo (s : Rename threads) (tid : Fin threads) (h : RenameHistory) (rest : List RenameHistory) :
    Except Fault (Rename threads) := do
  let undone ← if h.changed then
      let mapped ← s.setEntry tid h.archReg h.prevPhysReg
      pure (mapped.addReg h.newPhysReg)
    else pure s
  return { undone with historyBuffer := Function.update s.historyBuffer tid rest }

def squashLoop (seqNum : Nat) (tid : Fin threads) : Nat → Rename threads → Except Fault (Rename threads)
  | 0, s => .ok s
  | turns + 1, s =>
    match s.historyBuffer tid with
    | [] => .ok s
    | h :: rest =>
      if seqNum < h.instSeqNum then do
        let undone ← s.undo tid h rest
        squashLoop seqNum tid turns undone
      else .ok s

def doSquash (s : Rename threads) (seqNum : Nat) (tid : Fin threads) : Except Fault (Rename threads) :=
  squashLoop seqNum tid (s.historyBuffer tid).length s

def free (s : Rename threads) (tid : Fin threads) (h : RenameHistory) : Rename threads :=
  { (if h.changed then s.addReg h.prevPhysReg else s) with
    historyBuffer := Function.update s.historyBuffer tid (s.historyBuffer tid).dropLast }

def commitLoop (seqNum : Nat) (tid : Fin threads) : Nat → Rename threads → Rename threads
  | 0, s => s
  | turns + 1, s =>
    match (s.historyBuffer tid).getLast? with
    | none => s
    | some h => if h.instSeqNum ≤ seqNum then commitLoop seqNum tid turns (s.free tid h) else s

def removeTurns (seqNum : Nat) (tid : Fin threads) (turns : Nat) (s : Rename threads) : Rename threads :=
  match (s.historyBuffer tid).getLast? with
  | none => s
  | some h => if seqNum < h.instSeqNum then s else commitLoop seqNum tid turns s

def removeFromHistory (s : Rename threads) (seqNum : Nat) (tid : Fin threads) : Rename threads :=
  removeTurns seqNum tid (s.historyBuffer tid).length s

def make (physRegs : RegClassType → Nat) : Rename threads where
  freeList c := if c.isRenameable then (List.range (physRegs c)).map fun i => ⟨c, i⟩ else []
  renameMap _ _ := []
  historyBuffer _ := []
  numPinnedWrites _ := 0

/-- The next architectural register of a thread gets a register; the indices come in order. -/
def bindReg (s : Rename threads) (place : Fin threads × RegClassType) : Except Fault (Rename threads) := do
  let (phys, taken) ← s.getReg place.2
  return { taken with
    renameMap := Function.update s.renameMap place.1
      (Function.update (s.renameMap place.1) place.2 (s.renameMap place.1 place.2 ++ [phys])) }

def renameableClasses : List RegClassType :=
  [.intRegClass, .floatRegClass, .vecRegClass, .vecElemClass, .vecPredRegClass, .ccRegClass]

def bindings (threads : Nat) (numRegs : RegClassType → Nat) : List (Fin threads × RegClassType) :=
  (List.finRange threads).flatMap fun tid =>
    renameableClasses.flatMap fun c => List.replicate (numRegs c) (tid, c)

def init (physRegs numRegs : RegClassType → Nat) : Except Fault (Rename threads) :=
  (bindings threads numRegs).foldlM bindReg (make physRegs)

/-! ## Where a register is -/

def heldBack (history : List RenameHistory) : List PhysRegId :=
  (history.filter RenameHistory.changed).map RenameHistory.prevPhysReg

def places (s : Rename threads) (r : PhysRegId) : Nat :=
  (∑ c, (s.freeList c).count r) + (∑ tid, ∑ c, (s.renameMap tid c).count r) +
    ∑ tid, (heldBack (s.historyBuffer tid)).count r

theorem sum_update {ι β : Type} [Fintype ι] [DecidableEq ι] (g : β → Nat) (f : ι → β) (i : ι) (v : β) :
    (∑ j, g (update f i v j)) + g (f i) = (∑ j, g (f j)) + g v := by
  have others : ∑ j ∈ Finset.univ.erase i, g (update f i v j) = ∑ j ∈ Finset.univ.erase i, g (f j) := by
    apply Finset.sum_congr rfl
    intro j member
    rw [update_of_ne (Finset.ne_of_mem_erase member)]
  rw [← Finset.add_sum_erase Finset.univ _ (Finset.mem_univ i), others, update_self,
    ← Finset.add_sum_erase Finset.univ (fun j => g (f j)) (Finset.mem_univ i)]
  omega

variable {x v : PhysRegId}

theorem count_set {l : List PhysRegId} {i : Nat} (at_i : l[i]? = some x) (r : PhysRegId) :
    (l.set i v).count r + [x].count r = l.count r + [v].count r := by
  induction l generalizing i with
  | nil => cases at_i
  | cons y l ih =>
    cases i with
    | zero =>
      cases at_i
      simp only [set_cons_zero, count_cons, count_nil]
      omega
    | succ i =>
      have tail := ih at_i
      simp only [set_cons_succ, count_cons] at tail ⊢
      omega

variable {map : UnifiedRenameMap} {arch : RegId}

theorem sum_count_set (at_arch : (map arch.regClass)[arch.index]? = some x) (r : PhysRegId) :
    (∑ c, (map.set arch v c).count r) + [x].count r = (∑ c, (map c).count r) + [v].count r := by
  have outer := sum_update (List.count r) map arch.regClass ((map arch.regClass).set arch.index v)
  have inner := count_set (v := v) at_arch r
  unfold UnifiedRenameMap.set
  omega

theorem sum_count_addReg (s : Rename threads) (freed r : PhysRegId) :
    ∑ c, ((s.addReg freed).freeList c).count r = (∑ c, (s.freeList c).count r) + [freed].count r := by
  have outer := sum_update (List.count r) s.freeList freed.regClass (s.freeList freed.regClass ++ [freed])
  rw [count_append] at outer
  show ∑ c, (update s.freeList freed.regClass (s.freeList freed.regClass ++ [freed]) c).count r = _
  omega

variable {s : Rename threads} {c : RegClassType} {reg : PhysRegId}

theorem sum_count_getReg {taken : Rename threads} (run : s.getReg c = .ok (reg, taken)) (r : PhysRegId) :
    (∑ c, (taken.freeList c).count r) + [reg].count r = ∑ c, (s.freeList c).count r := by
  unfold getReg at run
  split at run
  · cases run
  · rename_i first rest list
    cases run
    have outer := sum_update (List.count r) s.freeList c rest
    rw [list, count_cons] at outer
    simp only [count_cons, count_nil]
    omega

/-! ## What every turn keeps -/

def undoMap (map : UnifiedRenameMap) (h : RenameHistory) : UnifiedRenameMap :=
  if h.changed then map.set h.archReg h.prevPhysReg else map

structure Latest (map : UnifiedRenameMap) (h : RenameHistory) : Prop where
  renameable : h.archReg.isRenameable = true
  mapped : (map h.archReg.regClass)[h.archReg.index]? = some h.newPhysReg
  previous : h.prevPhysReg.regClass = h.archReg.regClass
  renamed : h.newPhysReg.regClass = h.archReg.regClass

/-- Each entry that changed the map is the latest change once the newer ones are undone. -/
def Chain : UnifiedRenameMap → List RenameHistory → Prop
  | _, [] => True
  | map, h :: rest => (h.changed = true → Latest map h) ∧ Chain (undoMap map h) rest

variable {h : RenameHistory}

theorem Chain.init {history : List RenameHistory} (chain : Chain map (history ++ [h])) : Chain map history := by
  induction history generalizing map with
  | nil => trivial
  | cons first history ih => exact ⟨chain.1, ih chain.2⟩

def InFile (physRegs : RegClassType → Nat) (r : PhysRegId) : Prop :=
  r.regClass.isRenameable = true ∧ r.index < physRegs r.regClass

instance (physRegs : RegClassType → Nat) (r : PhysRegId) : Decidable (InFile physRegs r) :=
  inferInstanceAs (Decidable (_ ∧ _))

structure Sound (physRegs : RegClassType → Nat) (s : Rename threads) : Prop where
  once : ∀ r, s.places r = if InFile physRegs r then 1 else 0
  free : ∀ c, ∀ r ∈ s.freeList c, r.regClass = c
  maps : ∀ tid c, ∀ r ∈ s.renameMap tid c, r.regClass = c
  chain : ∀ tid, Chain (s.renameMap tid) (s.historyBuffer tid)

variable {physRegs : RegClassType → Nat}

theorem set_set_self (at_arch : (map arch.regClass)[arch.index]? = some x) : (map.set arch v).set arch x = map := by
  obtain ⟨bound, at_i⟩ := List.getElem?_eq_some_iff.mp at_arch
  unfold UnifiedRenameMap.set
  rw [update_self, update_idem, set_set, ← at_i, set_getElem_self]
  exact update_eq_self _ _

theorem mem_map_set (same : v.regClass = arch.regClass)
    (typed : ∀ c, ∀ r ∈ map c, r.regClass = c) : ∀ c, ∀ r ∈ map.set arch v c, r.regClass = c := by
  intro c r member
  unfold UnifiedRenameMap.set at member
  by_cases at_class : c = arch.regClass
  · subst at_class
    rw [update_self] at member
    rcases mem_or_eq_of_mem_set member with before | rfl
    · exact typed _ r before
    · exact same
  · rw [update_of_ne at_class] at member
    exact typed c r member

theorem heldBack_cons (h : RenameHistory) (history : List RenameHistory) :
    heldBack (h :: history) = (if h.changed then [h.prevPhysReg] else []) ++ heldBack history := by
  unfold heldBack
  by_cases changed : h.changed = true
  · simp [changed]
  · simp [changed]

theorem heldBack_append (history later : List RenameHistory) :
    heldBack (history ++ later) = heldBack history ++ heldBack later := by
  simp [heldBack]

theorem sum_map_update (s : Rename threads) (tid : Fin threads) (map : UnifiedRenameMap) (r : PhysRegId) :
    (∑ t, ∑ c, (update s.renameMap tid map t c).count r) + ∑ c, (s.renameMap tid c).count r =
      (∑ t, ∑ c, (s.renameMap t c).count r) + ∑ c, (map c).count r :=
  sum_update (fun map : UnifiedRenameMap => ∑ c, (map c).count r) s.renameMap tid map

theorem sum_history_update (s : Rename threads) (tid : Fin threads) (history : List RenameHistory) (r : PhysRegId) :
    (∑ t, (heldBack (update s.historyBuffer tid history t)).count r) +
        (heldBack (s.historyBuffer tid)).count r =
      (∑ t, (heldBack (s.historyBuffer t)).count r) + (heldBack history).count r :=
  sum_update (fun history => (heldBack history).count r) s.historyBuffer tid history

theorem getReg_mem {taken : Rename threads} (run : s.getReg c = .ok (reg, taken)) :
    reg ∈ s.freeList c ∧ (∀ k, ∀ r ∈ taken.freeList k, r ∈ s.freeList k) ∧ taken.renameMap = s.renameMap ∧
      taken.historyBuffer = s.historyBuffer := by
  unfold getReg at run
  split at run
  · cases run
  · rename_i first rest list
    cases run
    refine ⟨by rw [list]; exact mem_cons_self, ?_, rfl, rfl⟩
    intro k r member
    by_cases same : k = c
    · subst same
      change r ∈ update s.freeList k rest k at member
      rw [update_self] at member
      rw [list]
      exact mem_cons_of_mem _ member
    · change r ∈ update s.freeList c rest k at member
      rwa [update_of_ne same] at member

theorem addReg_typed {freed : PhysRegId} (typed : ∀ c, ∀ r ∈ s.freeList c, r.regClass = c) :
    ∀ c, ∀ r ∈ (s.addReg freed).freeList c, r.regClass = c := by
  intro c r member
  change r ∈ update s.freeList freed.regClass (s.freeList freed.regClass ++ [freed]) c at member
  by_cases same : c = freed.regClass
  · subst same
    rw [update_self] at member
    rcases mem_append.mp member with before | added
    · exact typed _ r before
    · rw [mem_singleton.mp added]
  · rw [update_of_ne same] at member
    exact typed c r member

theorem le_sum {ι : Type} [Fintype ι] (f : ι → Nat) (i : ι) : f i ≤ ∑ j, f j :=
  Finset.single_le_sum (fun _ _ => Nat.zero_le _) (Finset.mem_univ i)

variable {tid : Fin threads}

theorem Sound.free_ne_mapped (sound : s.Sound physRegs) {k : RegClassType} {prev : PhysRegId}
    (free : reg ∈ s.freeList c) (mapped : prev ∈ s.renameMap tid k) :
    reg ≠ prev := by
  rintro rfl
  have one := sound.once reg
  have first := le_sum (fun c => (s.freeList c).count reg) c
  have second := le_sum (fun t => ∑ c, (s.renameMap t c).count reg) tid
  have inner := le_sum (fun c => (s.renameMap tid c).count reg) k
  have here := count_pos_iff.mpr free
  have there := count_pos_iff.mpr mapped
  unfold places at one
  split at one
  · omega
  · omega

/-- What renaming one destination does: it puts an entry in front, and undoing the entry gives the
old map back. -/
structure Renamed (s next : Rename threads) (tid : Fin threads) (seqNum : Nat) (h : RenameHistory) : Prop where
  number : h.instSeqNum = seqNum
  history : next.historyBuffer = Function.update s.historyBuffer tid (h :: s.historyBuffer tid)
  undone : undoMap (next.renameMap tid) h = s.renameMap tid
  others : ∀ t, t ≠ tid → next.renameMap t = s.renameMap t

variable {next : Rename threads}

theorem chain_update {history : List RenameHistory} (chain : ∀ t, Chain (s.renameMap t) (s.historyBuffer t))
    (histories : next.historyBuffer = update s.historyBuffer tid history)
    (others : ∀ t, t ≠ tid → next.renameMap t = s.renameMap t) (own : Chain (next.renameMap tid) history) :
    ∀ t, Chain (next.renameMap t) (next.historyBuffer t) := by
  intro t
  rw [histories]
  by_cases same : t = tid
  · subst same
    rw [update_self]
    exact own
  · rw [update_of_ne same, others t same]
    exact chain t

variable {seqNum : Nat}

theorem Sound.unchanged (sound : s.Sound physRegs) {phys : PhysRegId} (pinned : PhysRegId → Int) :
    Sound physRegs { s with
        numPinnedWrites := pinned
        historyBuffer := update s.historyBuffer tid (⟨seqNum, arch, phys, phys⟩ :: s.historyBuffer tid) } ∧
      Renamed s { s with
        numPinnedWrites := pinned
        historyBuffer := update s.historyBuffer tid (⟨seqNum, arch, phys, phys⟩ :: s.historyBuffer tid) }
        tid seqNum ⟨seqNum, arch, phys, phys⟩ := by
  have same : RenameHistory.changed ⟨seqNum, arch, phys, phys⟩ = false := by simp [RenameHistory.changed]
  have undone : ∀ map : UnifiedRenameMap, undoMap map ⟨seqNum, arch, phys, phys⟩ = map := by
    intro map
    unfold undoMap
    rw [same]
    rfl
  refine ⟨⟨?_, sound.free, sound.maps, ?_⟩, rfl, rfl, undone _, fun _ _ => rfl⟩
  · intro r
    have histories := sum_history_update s tid (⟨seqNum, arch, phys, phys⟩ :: s.historyBuffer tid) r
    rw [heldBack_cons, same] at histories
    rw [← sound.once r]
    unfold places
    simp only [Bool.false_eq_true, if_false, nil_append] at histories
    dsimp only
    omega
  · refine chain_update sound.chain rfl (fun _ _ => rfl) ⟨?_, ?_⟩
    · intro changed
      rw [same] at changed
      cases changed
    · rw [undone]
      exact sound.chain tid

theorem renameDest_sound (sound : s.Sound physRegs) (run : renameDest tid seqNum s arch = .ok next) :
    next.Sound physRegs ∧ ∃ h, Renamed s next tid seqNum h := by
  unfold renameDest at run
  obtain ⟨⟨info, renamed⟩, ran, run⟩ := andThen_ok.mp run
  cases run
  unfold rename at ran
  split at ran
  · obtain ⟨phys, _, ran⟩ := andThen_ok.mp ran
    cases ran
    obtain ⟨kept, step⟩ := sound.unchanged s.numPinnedWrites
    exact ⟨kept, _, step⟩
  · rename_i renameable
    split at ran
    · cases ran
    · rename_i prev mapped
      split at ran
      · obtain ⟨_, _, ran⟩ := andThen_ok.mp ran
        cases ran
        obtain ⟨kept, step⟩ := sound.unchanged (update s.numPinnedWrites prev (s.numPinnedWrites prev - 1))
        exact ⟨kept, _, step⟩
      · obtain ⟨⟨reg, taken⟩, got, ran⟩ := andThen_ok.mp ran
        cases ran
        obtain ⟨free, sub, maps, histories⟩ := getReg_mem got
        have member : prev ∈ s.renameMap tid arch.regClass := mem_of_getElem? mapped
        have different : reg ≠ prev := sound.free_ne_mapped free member
        have changed : RenameHistory.changed ⟨seqNum, arch, reg, prev⟩ = true := by
          simpa [RenameHistory.changed] using different
        have typed : reg.regClass = arch.regClass := sound.free _ reg free
        have undone : undoMap ((s.renameMap tid).set arch reg) ⟨seqNum, arch, reg, prev⟩ = s.renameMap tid := by
          unfold undoMap
          rw [if_pos changed]
          exact set_set_self mapped
        have own : update s.renameMap tid ((s.renameMap tid).set arch reg) tid =
            (s.renameMap tid).set arch reg := update_self _ _ _
        refine ⟨⟨?_, ?_, ?_, ?_⟩, _, rfl, rfl, ?_, ?_⟩
        · intro r
          have frees := sum_count_getReg got r
          have places := sum_map_update s tid ((s.renameMap tid).set arch reg) r
          have inner := sum_count_set (v := reg) mapped r
          have held := sum_history_update s tid (⟨seqNum, arch, reg, prev⟩ :: s.historyBuffer tid) r
          rw [heldBack_cons, if_pos changed, count_append] at held
          rw [← sound.once r]
          unfold Rename.places
          dsimp only at held ⊢
          omega
        · intro c r listed
          exact sound.free c r (sub c r listed)
        · intro t c r listed
          change r ∈ update s.renameMap tid ((s.renameMap tid).set arch reg) t c at listed
          by_cases same : t = tid
          · subst same
            rw [update_self] at listed
            exact mem_map_set typed (sound.maps t) c r listed
          · rw [update_of_ne same] at listed
            exact sound.maps t c r listed
        · refine chain_update sound.chain rfl (fun t same => update_of_ne same _ _) ⟨?_, ?_⟩
          · intro _
            have bound := (List.getElem?_eq_some_iff.mp mapped).1
            refine ⟨by simpa using renameable, ?_, sound.maps _ _ prev member, typed⟩
            dsimp only
            rw [own]
            unfold UnifiedRenameMap.set
            rw [update_self, List.getElem?_set_self bound]
          · dsimp only
            rw [own, undone]
            exact sound.chain tid
        · dsimp only
          rw [own]
          exact undone
        · intro t same
          exact update_of_ne same _ _

theorem setEntry_latest (latest : Latest (s.renameMap tid) h) :
    s.setEntry tid h.archReg h.prevPhysReg =
      .ok { s with
        renameMap := update s.renameMap tid ((s.renameMap tid).set h.archReg h.prevPhysReg) } := by
  have bound := (List.getElem?_eq_some_iff.mp latest.mapped).1
  unfold setEntry
  simp only [check, latest.previous, latest.renameable, bound.le, bound.ne, BEq.rfl, decide_true, Bool.not_true,
    Bool.false_eq_true, if_true, if_false, ok_andThen]
  rfl

def undone (s : Rename threads) (tid : Fin threads) (h : RenameHistory) (rest : List RenameHistory) :
    Rename threads where
  freeList := if h.changed then (s.addReg h.newPhysReg).freeList else s.freeList
  renameMap := Function.update s.renameMap tid (undoMap (s.renameMap tid) h)
  historyBuffer := Function.update s.historyBuffer tid rest
  numPinnedWrites := s.numPinnedWrites

variable {rest : List RenameHistory}

theorem undo_run
    (latest : h.changed = true → Latest (s.renameMap tid) h) : s.undo tid h rest = .ok (s.undone tid h rest) := by
  unfold undo undone undoMap
  by_cases changed : h.changed = true
  · rw [if_pos changed, if_pos changed, if_pos changed, setEntry_latest (latest changed)]
    rfl
  · rw [if_neg changed, if_neg changed, if_neg changed, update_eq_self]
    rfl

theorem places_undone
    (front : s.historyBuffer tid = h :: rest) (latest : h.changed = true → Latest (s.renameMap tid) h)
    (r : PhysRegId) : (s.undone tid h rest).places r = s.places r := by
  have maps := sum_map_update s tid (undoMap (s.renameMap tid) h) r
  have held := sum_history_update s tid rest r
  rw [front, heldBack_cons, count_append] at held
  unfold places undone
  dsimp only
  by_cases changed : h.changed = true
  · have frees := sum_count_addReg s h.newPhysReg r
    have inner := sum_count_set (v := h.prevPhysReg) (latest changed).mapped r
    have same : undoMap (s.renameMap tid) h = (s.renameMap tid).set h.archReg h.prevPhysReg := if_pos changed
    rw [same] at maps ⊢
    rw [if_pos changed] at held ⊢
    omega
  · have same : undoMap (s.renameMap tid) h = s.renameMap tid := if_neg changed
    rw [same] at maps ⊢
    rw [if_neg changed, count_nil] at held
    rw [if_neg changed]
    omega

theorem undone_sound (sound : s.Sound physRegs) (front : s.historyBuffer tid = h :: rest)
    (latest : h.changed = true → Latest (s.renameMap tid) h)
    (older : Chain (undoMap (s.renameMap tid) h) rest) : (s.undone tid h rest).Sound physRegs where
  once r := (places_undone front latest r).trans (sound.once r)
  free := by
    unfold undone
    dsimp only
    split
    · exact addReg_typed sound.free
    · exact sound.free
  maps := by
    intro t c r listed
    change r ∈ update s.renameMap tid (undoMap (s.renameMap tid) h) t c at listed
    by_cases same : t = tid
    · subst same
      rw [update_self] at listed
      unfold undoMap at listed
      split at listed
      · rename_i changed
        exact mem_map_set (latest changed).previous (sound.maps t) c r listed
      · exact sound.maps t c r listed
    · rw [update_of_ne same] at listed
      exact sound.maps t c r listed
  chain := by
    refine chain_update sound.chain rfl (fun t same => update_of_ne same _ _) ?_
    show Chain (update s.renameMap tid (undoMap (s.renameMap tid) h) tid) rest
    rw [update_self]
    exact older

theorem squashLoop_sound (tid : Fin threads) (seqNum turns : Nat)
    (sound : s.Sound physRegs) : ∃ next, squashLoop seqNum tid turns s = .ok next ∧ next.Sound physRegs := by
  induction turns generalizing s with
  | zero => exact ⟨s, rfl, sound⟩
  | succ turns ih =>
    unfold squashLoop
    cases front : s.historyBuffer tid with
    | nil => exact ⟨s, rfl, sound⟩
    | cons h rest =>
      have chain := sound.chain tid
      rw [front] at chain
      dsimp only
      split
      · rw [undo_run chain.1]
        exact ih (undone_sound sound front chain.1 chain.2)
      · exact ⟨s, rfl, sound⟩

theorem doSquash_undoes (tid : Fin threads) (seqNum : Nat) (sound : s.Sound physRegs) :
    ∃ next, s.doSquash seqNum tid = .ok next ∧ next.Sound physRegs ∧
      next.renameMap = update s.renameMap tid
        (UndoLog.rollback undoMap RenameHistory.instSeqNum seqNum (s.renameMap tid) (s.historyBuffer tid)) ∧
      next.historyBuffer = update s.historyBuffer tid
        (UndoLog.older RenameHistory.instSeqNum seqNum (s.historyBuffer tid)) := by
  unfold doSquash
  generalize size : s.historyBuffer tid = history
  induction history generalizing s with
  | nil =>
    refine ⟨s, rfl, sound, ?_, ?_⟩
    · rw [UndoLog.rollback_nil, update_eq_self]
    · show s.historyBuffer = update s.historyBuffer tid []
      rw [← size, update_eq_self]
  | cons h rest ih =>
    have chain := sound.chain tid
    rw [size] at chain
    rw [length_cons, squashLoop, size]
    dsimp only
    by_cases above : seqNum < h.instSeqNum
    · have own : (s.undone tid h rest).historyBuffer tid = rest := update_self _ _ _
      have map : (s.undone tid h rest).renameMap tid = undoMap (s.renameMap tid) h := update_self _ _ _
      obtain ⟨next, run, kept, maps, histories⟩ := ih (undone_sound sound size chain.1 chain.2) own
      refine ⟨next, ?_, kept, ?_, ?_⟩
      · rw [if_pos above, undo_run chain.1]
        exact run
      · rw [maps, map, UndoLog.rollback_of_lt above]
        exact update_idem _ _ _
      · rw [histories, UndoLog.older_of_lt above]
        exact update_idem _ _ _
    · have below := Nat.not_lt.mp above
      refine ⟨s, if_neg above, sound, ?_, ?_⟩
      · rw [UndoLog.rollback_of_le below, update_eq_self]
      · rw [UndoLog.older_of_le below, ← size, update_eq_self]

theorem free_maps (s : Rename threads) (tid : Fin threads) (h : RenameHistory) :
    (s.free tid h).renameMap = s.renameMap := by
  unfold Rename.free
  split
  · rfl
  · rfl

theorem free_history {kept : List RenameHistory} (back : s.historyBuffer tid = kept ++ [h]) :
    (s.free tid h).historyBuffer = update s.historyBuffer tid kept := by
  unfold Rename.free
  rw [back, dropLast_concat]

theorem free_sound {kept : List RenameHistory}
    (sound : s.Sound physRegs) (back : s.historyBuffer tid = kept ++ [h]) : (s.free tid h).Sound physRegs := by
  have maps := free_maps s tid h
  have history := free_history back
  refine ⟨?_, ?_, ?_, ?_⟩
  · intro r
    have held := sum_history_update s tid kept r
    rw [back, heldBack_append, heldBack_cons, count_append, count_append] at held
    rw [← sound.once r]
    unfold places
    rw [maps, history]
    unfold Rename.free
    dsimp only
    by_cases changed : h.changed = true
    · have frees := sum_count_addReg s h.prevPhysReg r
      rw [if_pos changed] at held ⊢
      simp only [heldBack, filter_nil, map_nil, count_nil] at held ⊢
      omega
    · rw [if_neg changed] at held ⊢
      simp only [heldBack, filter_nil, map_nil, count_nil] at held ⊢
      omega
  · unfold Rename.free
    dsimp only
    split
    · exact addReg_typed sound.free
    · exact sound.free
  · rw [maps]
    exact sound.maps
  · refine chain_update sound.chain history (fun t _ => congrFun maps t) ?_
    rw [maps]
    have chain := sound.chain tid
    rw [back] at chain
    exact chain.init

/-- What a commit does: it takes entries off the back, none of them above its number, and touches no
map. -/
structure Committed (s next : Rename threads) (tid : Fin threads) (seqNum : Nat) : Prop where
  maps : next.renameMap = s.renameMap
  history : ∃ kept old, s.historyBuffer tid = kept ++ old ∧ (∀ h ∈ old, h.instSeqNum ≤ seqNum) ∧
    next.historyBuffer = Function.update s.historyBuffer tid kept

theorem Committed.refl (s : Rename threads) (tid : Fin threads) (seqNum : Nat) : Committed s s tid seqNum := by
  refine ⟨rfl, s.historyBuffer tid, [], (append_nil _).symm, ?_, (update_eq_self _ _).symm⟩
  intro h member
  cases member

theorem commitLoop_sound (turns : Nat) (sound : s.Sound physRegs) :
    (commitLoop seqNum tid turns s).Sound physRegs ∧ Committed s (commitLoop seqNum tid turns s) tid seqNum := by
  induction turns generalizing s with
  | zero => exact ⟨sound, Committed.refl s tid seqNum⟩
  | succ turns ih =>
    unfold commitLoop
    split
    · exact ⟨sound, Committed.refl s tid seqNum⟩
    · rename_i h last
      obtain ⟨kept, back⟩ := List.getLast?_eq_some_iff.mp last
      split
      · rename_i old
        have own := free_history back
        obtain ⟨sound, maps, still, gone, split, below, history⟩ := ih (free_sound sound back)
        rw [own, update_self] at split
        refine ⟨sound, maps.trans (free_maps s tid h), still, gone ++ [h], ?_, ?_, ?_⟩
        · rw [back, split, append_assoc]
        · intro e member
          rcases mem_append.mp member with inner | final
          · exact below e inner
          · rw [mem_singleton.mp final]
            exact old
        · rw [history, own, update_idem]
      · exact ⟨sound, Committed.refl s tid seqNum⟩

theorem removeTurns_sound (tid : Fin threads) (seqNum turns : Nat) (sound : s.Sound physRegs) :
    (removeTurns seqNum tid turns s).Sound physRegs ∧ Committed s (removeTurns seqNum tid turns s) tid seqNum := by
  unfold removeTurns
  split
  · exact ⟨sound, Committed.refl s tid seqNum⟩
  · split
    · exact ⟨sound, Committed.refl s tid seqNum⟩
    · exact commitLoop_sound turns sound

theorem renameDestRegs_sound {dests : List RegId}
    (sound : s.Sound physRegs) (run : s.renameDestRegs tid seqNum dests = .ok next) :
    next.Sound physRegs ∧ ∃ new, next.historyBuffer = update s.historyBuffer tid (new ++ s.historyBuffer tid) ∧
      (∀ h ∈ new, h.instSeqNum = seqNum) ∧ new.foldl undoMap (next.renameMap tid) = s.renameMap tid ∧
      ∀ t, t ≠ tid → next.renameMap t = s.renameMap t := by
  unfold renameDestRegs at run
  induction dests generalizing s with
  | nil =>
    cases run
    refine ⟨sound, [], (update_eq_self _ _).symm, ?_, rfl, fun _ _ => rfl⟩
    intro h member
    cases member
  | cons arch dests ih =>
    rw [foldlM_cons] at run
    obtain ⟨middle, first, run⟩ := andThen_ok.mp run
    obtain ⟨sound, h, renamed⟩ := renameDest_sound sound first
    obtain ⟨sound, new, history, numbered, undone, others⟩ := ih sound run
    refine ⟨sound, new ++ [h], ?_, ?_, ?_, ?_⟩
    · rw [history, renamed.history, update_self, update_idem, append_assoc]
      rfl
    · intro e member
      rcases mem_append.mp member with inner | final
      · exact numbered e inner
      · rw [mem_singleton.mp final]
        exact renamed.number
    · rw [foldl_append, undone]
      exact renamed.undone
    · intro t same
      rw [others t same, renamed.others t same]

theorem bindReg_sound {place : Fin threads × RegClassType} (sound : s.Sound physRegs)
    (empty : ∀ tid, s.historyBuffer tid = []) (run : s.bindReg place = .ok next) :
    next.Sound physRegs ∧ ∀ tid, next.historyBuffer tid = [] := by
  unfold bindReg at run
  obtain ⟨⟨phys, taken⟩, got, run⟩ := andThen_ok.mp run
  cases run
  obtain ⟨free, sub, maps, histories⟩ := getReg_mem got
  have still : ∀ tid, taken.historyBuffer tid = [] := by
    intro tid
    rw [histories]
    exact empty tid
  refine ⟨⟨?_, ?_, ?_, ?_⟩, still⟩
  · intro r
    have frees := sum_count_getReg got r
    have outer := sum_map_update s place.1
      (update (s.renameMap place.1) place.2 (s.renameMap place.1 place.2 ++ [phys])) r
    have inner := sum_update (List.count r) (s.renameMap place.1) place.2 (s.renameMap place.1 place.2 ++ [phys])
    rw [count_append] at inner
    rw [← sound.once r]
    unfold places
    dsimp only
    rw [histories]
    omega
  · intro c r listed
    exact sound.free c r (sub c r listed)
  · intro t c r listed
    change r ∈ update s.renameMap place.1 _ t c at listed
    by_cases own : t = place.1
    · subst own
      rw [update_self] at listed
      by_cases same : c = place.2
      · subst same
        rw [update_self] at listed
        rcases mem_append.mp listed with before | added
        · exact sound.maps _ _ r before
        · rw [mem_singleton.mp added]
          exact sound.free _ phys free
      · rw [update_of_ne same] at listed
        exact sound.maps _ c r listed
    · rw [update_of_ne own] at listed
      exact sound.maps t c r listed
  · intro t
    show Chain _ (taken.historyBuffer t)
    rw [still t]
    trivial

theorem count_registers (c : RegClassType) (n : Nat) (r : PhysRegId) :
    ((List.range n).map fun i => (⟨c, i⟩ : PhysRegId)).count r = if r.regClass = c ∧ r.index < n then 1 else 0 := by
  have distinct : ((List.range n).map fun i => (⟨c, i⟩ : PhysRegId)).Nodup := by
    apply List.Nodup.map _ nodup_range
    intro i j same
    cases same
    rfl
  by_cases listed : r.regClass = c ∧ r.index < n
  · rw [if_pos listed]
    apply count_eq_one_of_mem distinct
    obtain ⟨rfl, bound⟩ := listed
    exact mem_map.mpr ⟨r.index, mem_range.mpr bound, rfl⟩
  · rw [if_neg listed, count_eq_zero]
    intro member
    obtain ⟨i, bound, rfl⟩ := mem_map.mp member
    exact listed ⟨rfl, mem_range.mp bound⟩

theorem make_sound (physRegs : RegClassType → Nat) : (make physRegs : Rename threads).Sound physRegs where
  once r := by
    have free : ∀ c, ((make physRegs : Rename threads).freeList c).count r =
        if c = r.regClass then if InFile physRegs r then 1 else 0 else 0 := by
      intro c
      unfold make
      dsimp only
      by_cases renameable : c.isRenameable = true
      · rw [if_pos renameable, count_registers]
        by_cases same : c = r.regClass
        · subst same
          simp [InFile, renameable]
        · rw [if_neg same, if_neg fun both => same both.1.symm]
      · rw [if_neg renameable, count_nil]
        split
        · rename_i same
          have absent : ¬ InFile physRegs r := fun both => renameable (same ▸ both.1)
          rw [if_neg absent]
        · rfl
    unfold places
    simp only [free, Finset.sum_ite_eq', Finset.mem_univ, if_true]
    simp [make, heldBack]
  free := by
    intro c r listed
    unfold make at listed
    dsimp only at listed
    split at listed
    · obtain ⟨i, _, rfl⟩ := mem_map.mp listed
      rfl
    · cases listed
  maps := by
    intro tid c r listed
    cases listed
  chain _ := trivial

theorem init_sound {numRegs : RegClassType → Nat} (run : init physRegs numRegs = .ok s) :
    s.Sound physRegs ∧ ∀ tid, s.historyBuffer tid = [] := by
  have fold : ∀ (places : List (Fin threads × RegClassType)) (start : Rename threads), start.Sound physRegs →
      (∀ tid, start.historyBuffer tid = []) → places.foldlM bindReg start = .ok s →
      s.Sound physRegs ∧ ∀ tid, s.historyBuffer tid = [] := by
    intro places
    induction places with
    | nil =>
      intro start sound empty run
      cases run
      exact ⟨sound, empty⟩
    | cons place places ih =>
      intro start sound empty run
      rw [foldlM_cons] at run
      obtain ⟨middle, first, run⟩ := andThen_ok.mp run
      obtain ⟨sound, empty⟩ := bindReg_sound sound empty first
      exact ih middle sound empty run
  exact fold _ _ (make_sound physRegs) (fun _ => rfl) run

end Rename

/-- The calls of the rename stage. `setPinned` stands for the later stages, which change the counts
of pinned writes in ways of their own. -/
inductive Call (threads : Nat) where
  | renameDestRegs (tid : Fin threads) (seqNum : Nat) (dests : List RegId)
  | removeFromHistory (seqNum : Nat) (tid : Fin threads)
  | doSquash (seqNum : Nat) (tid : Fin threads)
  | setPinned (counts : PhysRegId → Int)

def Call.turns {threads : Nat} (s : Rename threads) (k : Nat) : Call threads → Except Fault (Rename threads)
  | .renameDestRegs tid seqNum dests => s.renameDestRegs tid seqNum (dests.take k)
  | .removeFromHistory seqNum tid => .ok (Rename.removeTurns seqNum tid k s)
  | .doSquash seqNum tid => Rename.squashLoop seqNum tid k s
  | .setPinned counts => .ok { s with numPinnedWrites := counts }

/-- The rename stage with a record of what it did: for each thread the map it started with, the
instructions renamed and not squashed since, newest first, each with the map right after it, and the
last number committed. -/
structure Run (threads : Nat) where
  rename : Rename threads
  record : Fin threads → List (Nat × UnifiedRenameMap)
  base : Fin threads → UnifiedRenameMap
  committed : Fin threads → Nat

namespace Run

variable {threads : Nat} {physRegs numRegs : RegClassType → Nat}

def Allowed (w : Run threads) : Call threads → Prop
  | .renameDestRegs tid seqNum _ => ∀ entry ∈ w.record tid, entry.1 < seqNum
  | .removeFromHistory seqNum tid => w.committed tid ≤ seqNum
  | .doSquash seqNum tid => w.committed tid ≤ seqNum
  | .setPinned _ => True

def perform (w : Run threads) : Call threads → Except Fault (Run threads)
  | .renameDestRegs tid seqNum dests => do
    let rename ← w.rename.renameDestRegs tid seqNum dests
    return { w with
      rename := rename
      record := Function.update w.record tid ((seqNum, rename.renameMap tid) :: w.record tid) }
  | .removeFromHistory seqNum tid =>
    return { w with
      rename := w.rename.removeFromHistory seqNum tid
      committed := Function.update w.committed tid seqNum }
  | .doSquash seqNum tid => do
    let rename ← w.rename.doSquash seqNum tid
    return { w with
      rename := rename
      record := Function.update w.record tid ((w.record tid).filter fun entry => decide (entry.1 ≤ seqNum)) }
  | .setPinned counts => return { w with rename := { w.rename with numPinnedWrites := counts } }

inductive Reached (physRegs numRegs : RegClassType → Nat) : Run threads → Prop where
  | start {s : Rename threads} (run : Rename.init physRegs numRegs = .ok s) :
      Reached physRegs numRegs ⟨s, fun _ => [], s.renameMap, fun _ => 0⟩
  | step {w next : Run threads} {call : Call threads} (reached : Reached physRegs numRegs w)
      (allowed : w.Allowed call) (run : w.perform call = .ok next) : Reached physRegs numRegs next

/-- The history of a thread fits its record: its numbers are those of instructions that survive, and
undoing it gives the recorded maps. -/
structure Fits (map : UnifiedRenameMap) (history : List RenameHistory) (record : List (Nat × UnifiedRenameMap))
    (base : UnifiedRenameMap) (committed : Nat) : Prop where
  tracks : UndoLog.Tracks Rename.undoMap RenameHistory.instSeqNum committed map history record base
  sorted : history.Pairwise fun a b => b.instSeqNum ≤ a.instSeqNum
  numbered : ∀ h ∈ history, ∃ entry ∈ record, entry.1 = h.instSeqNum

variable {map next : UnifiedRenameMap} {history new old : List RenameHistory}
  {record : List (Nat × UnifiedRenameMap)} {base : UnifiedRenameMap} {committed seqNum : Nat}

theorem Fits.push (fits : Fits map history record base committed) (last : ∀ entry ∈ record, entry.1 < seqNum)
    (same : ∀ h ∈ new, h.instSeqNum = seqNum) (undone : new.foldl Rename.undoMap next = map) :
    Fits next (new ++ history) ((seqNum, next) :: record) base committed := by
  have below : ∀ h ∈ history, h.instSeqNum < seqNum := by
    intro h member
    obtain ⟨entry, recorded, number⟩ := fits.numbered h member
    rw [← number]
    exact last entry recorded
  refine ⟨fits.tracks.push same below undone, ?_, ?_⟩
  · refine pairwise_append.mpr ⟨?_, fits.sorted, ?_⟩
    · apply pairwise_iff_forall_sublist.mpr
      intro a b pair
      rw [same a (pair.subset (by simp)), same b (pair.subset (by simp))]
    · intro a first b second
      rw [same a first]
      exact (below b second).le
  · intro h member
    rcases mem_append.mp member with own | before
    · exact ⟨(seqNum, next), mem_cons_self, (same h own).symm⟩
    · obtain ⟨entry, recorded, number⟩ := fits.numbered h before
      exact ⟨entry, mem_cons_of_mem _ recorded, number⟩

theorem Fits.squash (fits : Fits map history record base committed) (above : committed ≤ seqNum) :
    Fits (UndoLog.rollback Rename.undoMap RenameHistory.instSeqNum seqNum map history)
      (UndoLog.older RenameHistory.instSeqNum seqNum history)
      (record.filter fun entry => decide (entry.1 ≤ seqNum)) base committed := by
  have sublist : (UndoLog.older RenameHistory.instSeqNum seqNum history).Sublist history :=
    dropWhile_sublist _
  refine ⟨fits.tracks.squash above, fits.sorted.sublist sublist, ?_⟩
  intro h member
  obtain ⟨entry, recorded, number⟩ := fits.numbered h (sublist.subset member)
  have below := UndoLog.le_of_mem_older fits.sorted member
  refine ⟨entry, mem_filter.mpr ⟨recorded, ?_⟩, number⟩
  apply decide_eq_true
  rw [number]
  exact below

theorem Fits.settle (fits : Fits map (history ++ old) record base committed) (above : committed ≤ seqNum)
    (below : ∀ h ∈ old, h.instSeqNum ≤ seqNum) : Fits map history record base seqNum := by
  refine ⟨fits.tracks.settle above below, (pairwise_append.mp fits.sorted).1, ?_⟩
  intro h member
  exact fits.numbered h (mem_append_left _ member)

structure Kept (physRegs : RegClassType → Nat) (w : Run threads) : Prop where
  sound : w.rename.Sound physRegs
  fits : ∀ tid,
    Fits (w.rename.renameMap tid) (w.rename.historyBuffer tid) (w.record tid) (w.base tid) (w.committed tid)

theorem Kept.step {w after : Run threads} {call : Call threads} (kept : w.Kept physRegs) (allowed : w.Allowed call)
    (run : w.perform call = .ok after) : after.Kept physRegs := by
  cases call with
  | renameDestRegs tid seqNum dests =>
    obtain ⟨s, renamed, run⟩ := andThen_ok.mp run
    cases run
    obtain ⟨sound, new, history, numbered, undone, others⟩ := Rename.renameDestRegs_sound kept.sound renamed
    refine ⟨sound, ?_⟩
    intro t
    dsimp only
    rw [history]
    by_cases same : t = tid
    · subst same
      rw [update_self, update_self]
      exact (kept.fits t).push allowed numbered undone
    · rw [update_of_ne same, update_of_ne same, others t same]
      exact kept.fits t
  | removeFromHistory seqNum tid =>
    cases run
    obtain ⟨sound, maps, history, old, split, below, update⟩ :=
      Rename.removeTurns_sound tid seqNum (w.rename.historyBuffer tid).length kept.sound
    refine ⟨sound, ?_⟩
    intro t
    dsimp only
    unfold Rename.removeFromHistory
    rw [maps, update]
    by_cases same : t = tid
    · subst same
      rw [update_self, update_self]
      have fits := kept.fits t
      rw [split] at fits
      exact fits.settle allowed below
    · rw [update_of_ne same, update_of_ne same]
      exact kept.fits t
  | doSquash seqNum tid =>
    obtain ⟨s, squashed, run⟩ := andThen_ok.mp run
    cases run
    obtain ⟨s', again, sound, maps, histories⟩ := Rename.doSquash_undoes tid seqNum kept.sound
    rw [squashed] at again
    cases again
    refine ⟨sound, ?_⟩
    intro t
    dsimp only
    rw [maps, histories]
    by_cases same : t = tid
    · subst same
      rw [update_self, update_self, update_self]
      exact (kept.fits t).squash allowed
    · rw [update_of_ne same, update_of_ne same, update_of_ne same]
      exact kept.fits t
  | setPinned counts =>
    cases run
    exact ⟨⟨kept.sound.once, kept.sound.free, kept.sound.maps, kept.sound.chain⟩, kept.fits⟩

theorem Reached.kept {w : Run threads} (reached : Reached physRegs numRegs w) : w.Kept physRegs := by
  induction reached with
  | start run =>
    obtain ⟨sound, empty⟩ := Rename.init_sound run
    refine ⟨sound, ?_⟩
    intro tid
    dsimp only
    rw [empty tid]
    refine ⟨fun _ _ => rfl, List.Pairwise.nil, ?_⟩
    intro h member
    cases member
  | step _ allowed run ih => exact ih.step allowed run

theorem turns_sound {s next : Rename threads} {call : Call threads} {k : Nat} (sound : s.Sound physRegs)
    (run : call.turns s k = .ok next) : next.Sound physRegs := by
  cases call with
  | renameDestRegs tid seqNum dests => exact (Rename.renameDestRegs_sound sound run).1
  | removeFromHistory seqNum tid =>
    cases run
    exact (Rename.removeTurns_sound tid seqNum k sound).1
  | doSquash seqNum tid =>
    obtain ⟨s', again, sound⟩ := Rename.squashLoop_sound tid seqNum k sound
    rw [show Rename.squashLoop seqNum tid k s = .ok next from run] at again
    cases again
    exact sound
  | setPinned counts =>
    cases run
    exact ⟨sound.once, sound.free, sound.maps, sound.chain⟩

/-- At every turn of every call each renameable register has one place, and a squash gives back the
map recorded for the last instruction that survives it. -/
theorem registers_conserved {w : Run threads} (reached : Reached physRegs numRegs w) :
    (∀ call k s, Call.turns w.rename k call = .ok s → ∀ r, Rename.InFile physRegs r → s.places r = 1) ∧
      ∀ tid seqNum, w.committed tid ≤ seqNum → ∃ s, w.rename.doSquash seqNum tid = .ok s ∧
        s.renameMap tid = UndoLog.lastState seqNum (w.record tid) (w.base tid) := by
  have kept := reached.kept
  constructor
  · intro call k s run r exist
    have sound := turns_sound kept.sound run
    rw [sound.once r, if_pos exist]
  · intro tid seqNum above
    obtain ⟨s, run, _, maps, _⟩ := Rename.doSquash_undoes tid seqNum kept.sound
    refine ⟨s, run, ?_⟩
    rw [maps, update_self]
    exact (kept.fits tid).tracks seqNum above

/-- Two threads with one integer register each, and four physical ones: both threads rename. -/
theorem registers_conserved_two_threads :
    ∃ w : Run 2, Reached (fun c => if c = .intRegClass then 4 else 0) (fun c => if c = .intRegClass then 1 else 0) w ∧
      w.rename.freeList .intRegClass = [] ∧ w.rename.renameMap 0 .intRegClass = [⟨.intRegClass, 2⟩] ∧
      w.rename.places ⟨.intRegClass, 0⟩ = 1 ∧
      ∃ s, w.rename.doSquash 0 0 = .ok s ∧ s.renameMap 0 .intRegClass = [⟨.intRegClass, 0⟩] := by
  have start := @Reached.start 2 (fun c => if c = .intRegClass then 4 else 0)
    (fun c => if c = .intRegClass then 1 else 0) _ rfl
  have first := @Reached.step 2 _ _ _ _ (.renameDestRegs 0 1 [⟨.intRegClass, 0, 0⟩]) start (by simp [Allowed]) rfl
  have second := @Reached.step 2 _ _ _ _ (.renameDestRegs 1 2 [⟨.intRegClass, 0, 0⟩]) first
    (by simp [Allowed, update]) rfl
  obtain ⟨conserved, restored⟩ := registers_conserved second
  obtain ⟨s, run, same⟩ := restored 0 0 (Nat.le_refl 0)
  refine ⟨_, second, by decide, by decide, ?_, s, run, ?_⟩
  · exact conserved (.setPinned fun _ => 0) 0 _ rfl ⟨.intRegClass, 0⟩ (by decide)
  · rw [same]
    decide

end Run

end Resister.Cpu
