import Mathlib
import Resister.Network.MessageOrder

/-!
# Stalled buffers

A message that cannot be handled yet is set aside in its buffer, under an address, and the
controller notes in `m_waiting_buffers` which buffer waits for that address at the rank of the
current in-port.
-/

namespace Resister

open List Function

open Function (update update_self update_of_ne)

universe u

variable {α : Type u}

namespace MessageBuffer

def hasStalledMsg (b : MessageBuffer α) (addr : Nat) : Bool := (b.stallMsgMap.lookup addr).isSome

def stalledAt (b : MessageBuffer α) (addr : Nat) : List (Message α) := (b.stallMsgMap.lookup addr).getD []

def reanalyzed (b : MessageBuffer α) (addr : Nat) : MessageBuffer α :=
  { b with
    prioHeap := (b.stalledAt addr).foldl pushHeap b.prioHeap
    stallMapSize := b.stallMapSize - (b.stalledAt addr).length
    stallMsgMap := b.stallMsgMap.eraseP fun entry => addr == entry.1 }

def allReanalyzed (b : MessageBuffer α) : MessageBuffer α :=
  { b with prioHeap := b.stalled.foldl pushHeap b.prioHeap, stallMapSize := 0, stallMsgMap := [] }

/-- The stall map is in the order of its addresses, it is counted, and its messages were ready when they stalled. -/
structure Stalls (now : Nat) (b : MessageBuffer α) : Prop where
  ordered : (b.stallMsgMap.map Prod.fst).Pairwise (· < ·)
  counted : b.stallMapSize = b.stalled.length
  past : ∀ m ∈ b.stalled, m.lastEnqueueTime ≤ now

variable {b b' : MessageBuffer α} {now time addr : Nat}

theorem hasStalledMsg_iff : b.hasStalledMsg addr = true ↔ addr ∈ b.stallMsgMap.map Prod.fst := by
  rw [hasStalledMsg, lookup_isSome_iff, mem_map]
  refine exists_congr fun entry => and_congr_right fun _ => ?_
  rw [beq_iff_eq, eq_comm]

theorem IsNew.stalls (new : b.IsNew) : b.Stalls now := by
  obtain ⟨-, map, size, -⟩ := new
  exact
    { ordered := by simp [map]
      counted := by simp [stalled, map, size]
      past := by simp [stalled, map] }

theorem Stalls.mono (stalls : b.Stalls now) (later : now ≤ time) : b.Stalls time :=
  ⟨stalls.ordered, stalls.counted, fun m kept => (stalls.past m kept).trans later⟩

theorem Stalls.congr (stalls : b.Stalls now) (map : b'.stallMsgMap = b.stallMsgMap)
    (size : b'.stallMapSize = b.stallMapSize) : b'.Stalls now := by
  refine ⟨?_, ?_, ?_⟩
  · rw [map]
    exact stalls.ordered
  · rw [size, stalled, map]
    exact stalls.counted
  · rw [stalled, map]
    exact stalls.past

variable {map : List (Nat × List (Message α))}

theorem mem_stallAt_keys {m : Message α} {a : Nat} :
    a ∈ (stallAt addr m map).map Prod.fst ↔ a = addr ∨ a ∈ map.map Prod.fst := by
  induction map with
  | nil => simp [stallAt]
  | cons entry rest ih =>
    obtain ⟨k, waiting⟩ := entry
    unfold stallAt
    split
    · simp
    split
    · rename_i here
      subst here
      simp
    · rw [map_cons, map_cons, mem_cons, mem_cons, ih]
      tauto

theorem stallAt_ordered {m : Message α}
    (ordered : (map.map Prod.fst).Pairwise (· < ·)) : ((stallAt addr m map).map Prod.fst).Pairwise (· < ·) := by
  induction map with
  | nil => simp [stallAt]
  | cons entry rest ih =>
    obtain ⟨k, waiting⟩ := entry
    rw [map_cons, pairwise_cons] at ordered
    obtain ⟨first, ordered'⟩ := ordered
    unfold stallAt
    split
    · rename_i before
      refine pairwise_cons.mpr ⟨fun a after => ?_, pairwise_cons.mpr ⟨first, ordered'⟩⟩
      rcases mem_cons.mp after with rfl | after
      · exact before
      · exact before.trans (first a after)
    split
    · exact pairwise_cons.mpr ⟨first, ordered'⟩
    · refine pairwise_cons.mpr ⟨fun a after => ?_, ih ordered'⟩
      rcases mem_stallAt_keys.mp after with rfl | after
      · show k < a
        omega
      · exact first a after

theorem stallMessage_ok {ruby : RubySystem} (done : b.stallMessage ruby addr time = .ok b') :
    ∃ m, m.lastEnqueueTime ≤ time ∧ b'.stallMsgMap = stallAt addr m b.stallMsgMap ∧
      b'.stallMapSize = b.stallMapSize + 1 := by
  unfold stallMessage at done
  split at done
  · cases done
  rename_i m rest front
  split at done
  swap
  · cases done
  rename_i ready
  split at done
  swap
  · cases done
  cases done
  have due := ready.2
  rw [isReady, front] at due
  simp only [List.head?_cons, Option.any_some, Bool.and_eq_true, decide_eq_true_eq] at due
  exact ⟨m.updateDelayedTicks time, due.2, rfl, rfl⟩

theorem Stalls.stallMessage {ruby : RubySystem} (stalls : b.Stalls now) (later : now ≤ time)
    (done : b.stallMessage ruby addr time = .ok b') :
    b'.Stalls time ∧ ∀ a, b'.hasStalledMsg a = true ↔ a = addr ∨ b.hasStalledMsg a = true := by
  obtain ⟨m, due, map, size⟩ := stallMessage_ok done
  have grown := stallAt_perm addr m b.stallMsgMap
  refine ⟨⟨?_, ?_, ?_⟩, fun a => ?_⟩
  · rw [map]
    exact stallAt_ordered stalls.ordered
  · rw [size, stalls.counted, stalled, stalled, map, grown.length_eq, length_cons]
  · rw [stalled, map]
    intro other kept
    rcases mem_cons.mp (grown.mem_iff.mp kept) with rfl | kept
    · exact due
    · exact (stalls.past other kept).trans later
  · rw [hasStalledMsg_iff, hasStalledMsg_iff, map]
    exact mem_stallAt_keys

theorem reanalyzeList_eq {tick : Nat} {waiting heap : List (Message α)}
    (past : ∀ m ∈ waiting, m.lastEnqueueTime ≤ tick) :
    reanalyzeList tick waiting heap = .ok (waiting.foldl pushHeap heap) := by
  induction waiting generalizing heap with
  | nil => rfl
  | cons m rest ih =>
    rw [reanalyzeList, if_pos (past m mem_cons_self)]
    exact ih fun m' later => past m' (mem_cons_of_mem _ later)

theorem reanalyzeMap_eq {tick size : Nat} {heap : List (Message α)}
    (past : ∀ m ∈ map.flatMap Prod.snd, m.lastEnqueueTime ≤ tick) (counted : size = (map.flatMap Prod.snd).length) :
    reanalyzeMap tick map (heap, size) = .ok ((map.flatMap Prod.snd).foldl pushHeap heap, 0) := by
  induction map generalizing heap size with
  | nil =>
    subst counted
    rfl
  | cons entry rest ih =>
    obtain ⟨k, waiting⟩ := entry
    have total : size = waiting.length + (rest.flatMap Prod.snd).length := by
      rw [counted, flatMap_cons, length_append]
    rw [flatMap_cons] at past
    rw [reanalyzeMap, if_pos (by omega), reanalyzeList_eq fun m kept => past m (mem_append_left _ kept),
      flatMap_cons, foldl_append]
    refine ih (fun m kept => past m (mem_append_right _ kept)) ?_
    omega

theorem stalled_perm (waits : b.hasStalledMsg addr = true) :
    b.stalled.Perm (b.stalledAt addr ++ (b.reanalyzed addr).stalled) := by
  obtain ⟨waiting, found⟩ := Option.isSome_iff_exists.mp waits
  rw [stalledAt, found]
  exact lookup_flatMap_perm found

theorem reanalyzeMessages_eq (stalls : b.Stalls now) (later : now ≤ time) (waits : b.hasStalledMsg addr = true) :
    b.reanalyzeMessages addr time = .ok (b.reanalyzed addr) := by
  obtain ⟨waiting, found⟩ := Option.isSome_iff_exists.mp waits
  have parts := stalled_perm waits
  have same : b.stalledAt addr = waiting := by rw [stalledAt, found, Option.getD_some]
  have enough : waiting.length ≤ b.stallMapSize := by
    rw [stalls.counted, parts.length_eq, length_append, same]
    exact Nat.le_add_right _ _
  have past : ∀ m ∈ waiting, m.lastEnqueueTime ≤ time := by
    intro m kept
    refine (stalls.past m (parts.mem_iff.mpr (mem_append_left _ ?_))).trans later
    rw [same]
    exact kept
  unfold reanalyzeMessages
  simp only [found, if_pos enough, reanalyzeList_eq past, reanalyzed, same]
  rfl

theorem Stalls.reanalyzed (stalls : b.Stalls now) (waits : b.hasStalledMsg addr = true) :
    (b.reanalyzed addr).Stalls now where
  ordered := stalls.ordered.sublist (eraseP_sublist.map _)
  counted := by
    have parts := (stalled_perm waits).length_eq
    rw [← stalls.counted, length_append] at parts
    show b.stallMapSize - (b.stalledAt addr).length = _
    omega
  past m kept := stalls.past m ((stalled_perm waits).mem_iff.mpr (mem_append_right _ kept))

theorem Stalls.hasStalledMsg_reanalyzed (stalls : b.Stalls now) {a : Nat} :
    (b.reanalyzed addr).hasStalledMsg a = true ↔ a ≠ addr ∧ b.hasStalledMsg a = true := by
  rw [hasStalledMsg_iff, hasStalledMsg_iff]
  have distinct : (b.stallMsgMap.map Prod.fst).Nodup := stalls.ordered.imp fun before => Nat.ne_of_lt before
  have erased : (b.reanalyzed addr).stallMsgMap.map Prod.fst = (b.stallMsgMap.map Prod.fst).erase addr := by
    rw [MessageBuffer.reanalyzed, erase_eq_eraseP, eraseP_map]
    rfl
  rw [erased, distinct.mem_erase_iff]

theorem reanalyzeAllMessages_eq (stalls : b.Stalls now) (later : now ≤ time) :
    b.reanalyzeAllMessages time = .ok b.allReanalyzed := by
  unfold reanalyzeAllMessages
  rw [reanalyzeMap_eq (fun m kept => (stalls.past m kept).trans later) stalls.counted]
  rfl

theorem allReanalyzed_stalls : b.allReanalyzed.Stalls now := ⟨List.Pairwise.nil, rfl, nofun⟩

theorem Stalls.allReanalyzed_eq (stalls : b.Stalls now) (none : ∀ a, b.hasStalledMsg a = false) :
    b.allReanalyzed = b := by
  have keys : b.stallMsgMap.map Prod.fst = [] := by
    refine eq_nil_iff_forall_not_mem.mpr fun a listed => ?_
    rw [← hasStalledMsg_iff, none a] at listed
    cases listed
  have map : b.stallMsgMap = [] := map_eq_nil_iff.mp keys
  have size : b.stallMapSize = 0 := by rw [stalls.counted, stalled, map]; rfl
  simp only [allReanalyzed, stalled, map, flatMap_nil, foldl_nil, ← size]
  rw [← map]

end MessageBuffer

/-- The buffers of a controller and `m_waiting_buffers`, in the order of the addresses. The rank of an in-port is below
the number of in-ports, as `stallBuffer` asserts. -/
structure AbstractController (B : Type u) (ports : Nat) (α : Type u) where
  buffers : B → MessageBuffer α
  waitingBuffers : List (Nat × (Fin ports → Option B)) := []

namespace AbstractController

variable {B : Type u} [DecidableEq B] {ports : Nat}

/-- `m_waiting_buffers[addr] = msgVec`. -/
def putVec (addr : Nat) (vec : Fin ports → Option B) :
    List (Nat × (Fin ports → Option B)) → List (Nat × (Fin ports → Option B))
  | [] => [(addr, vec)]
  | (a, old) :: rest =>
    if addr < a then (addr, vec) :: (a, old) :: rest
    else if addr = a then (a, vec) :: rest
    else (a, old) :: putVec addr vec rest

/-- `m_waiting_buffers.erase(addr)`. -/
def eraseVec (addr : Nat) (map : List (Nat × (Fin ports → Option B))) : List (Nat × (Fin ports → Option B)) :=
  map.filter fun entry => entry.1 != addr

def reanalyzeRanks (addr time : Nat) (vec : Fin ports → Option B) :
    List (Fin ports) → (B → MessageBuffer α) → Except BufferFailure (B → MessageBuffer α)
  | [], buffers => .ok buffers
  | rank :: rest, buffers =>
    match vec rank with
    | none => reanalyzeRanks addr time vec rest buffers
    | some buf => do
      let b ← (buffers buf).reanalyzeMessages addr time
      reanalyzeRanks addr time vec rest (update buffers buf b)

def reanalyzeOnce (time : Nat) :
    List (Option B) → (B → MessageBuffer α) → List B → Except BufferFailure (B → MessageBuffer α)
  | [], buffers, _ => .ok buffers
  | none :: rest, buffers, woken => reanalyzeOnce time rest buffers woken
  | some buf :: rest, buffers, woken =>
    if buf ∈ woken then reanalyzeOnce time rest buffers woken
    else do
      let b ← (buffers buf).reanalyzeAllMessages time
      reanalyzeOnce time rest (update buffers buf b) (buf :: woken)

variable (ruby : RubySystem) (c : AbstractController B ports α)

def slot (addr : Nat) (rank : Fin ports) : Option B := (c.waitingBuffers.lookup addr).bind fun vec => vec rank

def stallBuffer (curInPort : Fin ports) (buf : B) (addr : Nat) : AbstractController B ports α :=
  let vec := (c.waitingBuffers.lookup addr).getD fun _ => none
  { c with waitingBuffers := putVec addr (update vec curInPort (some buf)) c.waitingBuffers }

def stallAndWait (curInPort : Fin ports) (buf : B) (addr time : Nat) :
    Except BufferFailure (AbstractController B ports α) := do
  let b ← (c.buffers buf).stallMessage ruby addr time
  .ok { c.stallBuffer curInPort buf addr with buffers := update c.buffers buf b }

def wakeUpBuffer (buf : B) (addr time : Nat) : Except BufferFailure (AbstractController B ports α) :=
  match c.waitingBuffers.lookup addr with
  | none => .ok c
  | some vec => do
    let own : Fin ports → Option B := fun rank => if vec rank = some buf then some buf else none
    let others : Fin ports → Option B := fun rank => if vec rank = some buf then none else vec rank
    let buffers ← reanalyzeRanks addr time own (List.finRange ports) c.buffers
    .ok
      { buffers := buffers
        waitingBuffers :=
          if (List.finRange ports).any fun rank => (others rank).isSome then putVec addr others c.waitingBuffers
          else eraseVec addr c.waitingBuffers }

def wakeUpRanks (ranks : List (Fin ports)) (addr time : Nat) : Except BufferFailure (AbstractController B ports α) :=
  match c.waitingBuffers.lookup addr with
  | none => .ok c
  | some vec => do
    let buffers ← reanalyzeRanks addr time vec ranks c.buffers
    .ok { buffers := buffers, waitingBuffers := eraseVec addr c.waitingBuffers }

def wakeUpBuffers (curInPort : Fin ports) (addr time : Nat) : Except BufferFailure (AbstractController B ports α) :=
  c.wakeUpRanks ((List.finRange ports).reverse.filter (· < curInPort)) addr time

/-- `wakeUpAllBuffers(addr)`. -/
def wakeUpAllBuffersFor (addr time : Nat) : Except BufferFailure (AbstractController B ports α) :=
  c.wakeUpRanks (List.finRange ports).reverse addr time

def wakeUpAllBuffers (time : Nat) : Except BufferFailure (AbstractController B ports α) := do
  let slots := c.waitingBuffers.flatMap fun entry => (List.finRange ports).map entry.2
  let buffers ← reanalyzeOnce time slots c.buffers []
  .ok { buffers := buffers }

end AbstractController

def BufferCall.isPlain : BufferCall α → Bool
  | .stallMessage _ | .reanalyzeMessages _ | .reanalyzeAllMessages => false
  | _ => true

inductive ControllerCall (B : Type u) (ports : Nat) (α : Type u) where
  | buffer (buf : B) (call : BufferCall α) (plain : call.isPlain = true)
  | stallAndWait (curInPort : Fin ports) (buf : B) (addr : Nat)
  | wakeUpBuffer (buf : B) (addr : Nat)
  | wakeUpBuffers (curInPort : Fin ports) (addr : Nat)
  | wakeUpAllBuffersFor (addr : Nat)
  | wakeUpAllBuffers

theorem MessageBuffer.call_plain {ruby : RubySystem} {b b' : MessageBuffer α} {time : Nat} {call : BufferCall α}
    (plain : call.isPlain = true) (done : b.call ruby time call = .ok b') :
    b'.stallMsgMap = b.stallMsgMap ∧ b'.stallMapSize = b.stallMapSize := by
  cases call_effect done with
  | stallMessage => cases plain
  | reanalyze _ _ reanalyzes => rcases reanalyzes with rfl | ⟨_, rfl⟩ <;> cases plain
  | _ => exact ⟨rfl, rfl⟩

def ControllerCall.isWakeUp {B : Type u} {ports : Nat} : ControllerCall B ports α → Bool
  | .buffer .. | .stallAndWait .. => false
  | _ => true

namespace AbstractController

variable {B : Type u} {ports : Nat}

def call [DecidableEq B] (ruby : RubySystem) (c : AbstractController B ports α) (time : Nat) :
    ControllerCall B ports α → Except BufferFailure (AbstractController B ports α)
  | .buffer buf call _ => do
    let b ← (c.buffers buf).call ruby time call
    .ok { c with buffers := update c.buffers buf b }
  | .stallAndWait curInPort buf addr => c.stallAndWait ruby curInPort buf addr time
  | .wakeUpBuffer buf addr => c.wakeUpBuffer buf addr time
  | .wakeUpBuffers curInPort addr => c.wakeUpBuffers curInPort addr time
  | .wakeUpAllBuffersFor addr => c.wakeUpAllBuffersFor addr time
  | .wakeUpAllBuffers => c.wakeUpAllBuffers time

def run [DecidableEq B] (ruby : RubySystem) (c : AbstractController B ports α) (calls : List (Nat × ControllerCall B ports α)) :
    Except BufferFailure (AbstractController B ports α) :=
  calls.foldlM (fun c call => c.call ruby call.1 call.2) c

def IsNew (c : AbstractController B ports α) : Prop := (∀ buf, (c.buffers buf).IsNew) ∧ c.waitingBuffers = []

/-- No note is overwritten, no buffer is noted twice for an address, and `wakeUpBuffers` is not called while a buffer
waits for the address at the current rank or above. -/
def Allowed (c : AbstractController B ports α) : ControllerCall B ports α → Prop
  | .stallAndWait curInPort buf addr =>
    (c.slot addr curInPort = none ∨ c.slot addr curInPort = some buf) ∧
      ∀ rank, rank ≠ curInPort → c.slot addr rank ≠ some buf
  | .wakeUpBuffers curInPort addr => ∀ rank, curInPort ≤ rank → c.slot addr rank = none
  | _ => True

structure Agrees (c : AbstractController B ports α) (now : Nat) : Prop where
  stalls : ∀ buf, (c.buffers buf).Stalls now
  noted : ∀ buf addr, (c.buffers buf).hasStalledMsg addr = true ↔ ∃ rank, c.slot addr rank = some buf
  distinct : ∀ {addr buf r r'}, c.slot addr r = some buf → c.slot addr r' = some buf → r = r'

section Slots

variable {addr a : Nat} {vec : Fin ports → Option B} {map : List (Nat × (Fin ports → Option B))}

theorem lookup_putVec : (putVec addr vec map).lookup a = if a = addr then some vec else map.lookup a := by
  induction map with
  | nil =>
    rw [putVec, lookup_cons]
    split <;> simp_all
  | cons entry rest ih =>
    obtain ⟨k, old⟩ := entry
    unfold putVec
    split
    · rw [lookup_cons]
      split <;> simp_all
    split
    · rename_i here
      subst here
      rw [lookup_cons, lookup_cons]
      split <;> simp_all
    · rw [lookup_cons, lookup_cons, ih]
      split <;> simp_all
      omega

theorem lookup_eraseVec : (eraseVec addr map).lookup a = if a = addr then none else map.lookup a := by
  induction map with
  | nil => simp [eraseVec]
  | cons entry rest ih =>
    obtain ⟨k, old⟩ := entry
    unfold eraseVec at ih ⊢
    by_cases here : k = addr
    · rw [filter_cons_of_neg (by simpa using here), ih, lookup_cons]
      split
      · rfl
      · rename_i other
        have : (a == k) = false := by simpa [here] using other
        rw [this]
    · rw [filter_cons_of_pos (by simpa using here), lookup_cons, lookup_cons, ih]
      split <;> simp_all

end Slots

variable {ruby : RubySystem} {c c' : AbstractController B ports α} {now time addr : Nat}

variable {vec : Fin ports → Option B}

theorem slot_of_lookup (found : c.waitingBuffers.lookup addr = some vec)
    (rank : Fin ports) : c.slot addr rank = vec rank := by
  rw [slot, found, Option.bind_some]

theorem Agrees.mono (agrees : c.Agrees now) (later : now ≤ time) : c.Agrees time :=
  ⟨fun buf => (agrees.stalls buf).mono later, agrees.noted, agrees.distinct⟩

variable {buffers : B → MessageBuffer α} {a : Nat} {rank : Fin ports}

theorem slot_putVec :
    ({ buffers := buffers, waitingBuffers := putVec addr vec c.waitingBuffers } :
      AbstractController B ports α).slot a rank = if a = addr then vec rank else c.slot a rank := by
  unfold slot
  rw [lookup_putVec]
  split <;> rfl

theorem slot_eraseVec :
    ({ buffers := buffers, waitingBuffers := eraseVec addr c.waitingBuffers } :
      AbstractController B ports α).slot a rank = if a = addr then none else c.slot a rank := by
  unfold slot
  rw [lookup_eraseVec]
  split <;> rfl

variable {curInPort : Fin ports} {buf : B}

theorem slot_stallBuffer :
    (c.stallBuffer curInPort buf addr).slot a rank =
      if a = addr ∧ rank = curInPort then some buf else c.slot a rank := by
  unfold stallBuffer
  rw [slot_putVec]
  by_cases here : a = addr
  · subst here
    by_cases same : rank = curInPort
    · simp [same]
    · cases found : c.waitingBuffers.lookup a <;> simp [slot, found, same]
  · simp [here]

theorem IsNew.agrees (new : c.IsNew) : c.Agrees now := by
  have empty : ∀ a rank, c.slot a rank = none := fun a rank => by rw [slot, new.2]; rfl
  refine ⟨fun buf => (new.1 buf).stalls, fun buf a => ?_, fun {a _ r _} noted _ => ?_⟩
  · have map : (c.buffers buf).stallMsgMap = [] := (new.1 buf).2.1
    simp [MessageBuffer.hasStalledMsg, map, empty]
  · rw [empty a r] at noted
    cases noted

theorem Agrees.woken (agrees : c.Agrees now) {P : B → Prop} [DecidablePred P]
    (met : ∀ buf, P buf → (c.buffers buf).hasStalledMsg addr = true)
    (buffers : ∀ buf, c'.buffers buf = if P buf then (c.buffers buf).reanalyzed addr else c.buffers buf)
    (slots : ∀ a rank buf, c'.slot a rank = some buf ↔ c.slot a rank = some buf ∧ ¬(a = addr ∧ P buf)) :
    c'.Agrees now := by
  refine ⟨fun buf => ?_, fun buf a => ?_, fun {a buf r r'} first second => ?_⟩
  · rw [buffers]
    split
    · rename_i here
      exact (agrees.stalls buf).reanalyzed (met buf here)
    · exact agrees.stalls buf
  · simp only [slots, exists_and_right, ← agrees.noted, buffers]
    split
    · rename_i here
      rw [(agrees.stalls buf).hasStalledMsg_reanalyzed]
      simp [here, and_comm]
    · rename_i elsewhere
      simp [elsewhere]
  · exact agrees.distinct ((slots a r buf).mp first).1 ((slots a r' buf).mp second).1

variable [DecidableEq B]

theorem Agrees.update (agrees : c.Agrees now) (later : now ≤ time) {b : MessageBuffer α}
    (map : b.stallMsgMap = (c.buffers buf).stallMsgMap) (size : b.stallMapSize = (c.buffers buf).stallMapSize) :
    ({ c with buffers := update c.buffers buf b } : AbstractController B ports α).Agrees time := by
  have stallMaps : ∀ other, (Function.update c.buffers buf b other).stallMsgMap = (c.buffers other).stallMsgMap := by
    intro other
    by_cases same : other = buf
    · rw [same, update_self, map]
    · rw [update_of_ne same]
  refine ⟨?_, fun other a => ?_, agrees.distinct⟩
  · exact (forall_update_iff c.buffers fun _ b => b.Stalls time).mpr
      ⟨((agrees.stalls buf).congr map size).mono later, fun other _ => (agrees.stalls other).mono later⟩
  · show (Function.update c.buffers buf b other).hasStalledMsg a = true ↔ _
    rw [MessageBuffer.hasStalledMsg, stallMaps]
    exact agrees.noted other a

theorem Agrees.stallAndWait (agrees : c.Agrees now) (later : now ≤ time)
    (allowed : c.Allowed (.stallAndWait curInPort buf addr))
    (done : c.stallAndWait ruby curInPort buf addr time = .ok c') : c'.Agrees time := by
  unfold AbstractController.stallAndWait at done
  obtain ⟨b, stalled, rfl⟩ : ∃ b, (c.buffers buf).stallMessage ruby addr time = .ok b ∧
      { c.stallBuffer curInPort buf addr with buffers := Function.update c.buffers buf b } = c' := by
    cases stalled : (c.buffers buf).stallMessage ruby addr time with
    | error failure =>
      rw [stalled] at done
      cases done
    | ok b =>
      rw [stalled] at done
      exact ⟨b, rfl, Except.ok.inj done⟩
  obtain ⟨stalls, waits⟩ := (agrees.stalls buf).stallMessage later stalled
  have slots : ∀ a rank other,
      ({ c.stallBuffer curInPort buf addr with buffers := Function.update c.buffers buf b } :
        AbstractController B ports α).slot a rank = some other ↔
        c.slot a rank = some other ∨ (a = addr ∧ rank = curInPort ∧ other = buf) := by
    intro a rank other
    show (c.stallBuffer curInPort buf addr).slot a rank = some other ↔ _
    rw [slot_stallBuffer]
    split
    · rename_i here
      obtain ⟨rfl, rfl⟩ := here
      rcases allowed.1 with free | same
      · simp [free, eq_comm]
      · simp [same, eq_comm]
    · rename_i elsewhere
      constructor
      · exact Or.inl
      · rintro (noted | ⟨here, rank', -⟩)
        · exact noted
        · exact absurd ⟨here, rank'⟩ elsewhere
  refine ⟨?_, fun other a => ?_, fun {a other r r'} first second => ?_⟩
  · exact (forall_update_iff c.buffers fun _ b => b.Stalls time).mpr
      ⟨stalls, fun other _ => (agrees.stalls other).mono later⟩
  · simp only [slots]
    by_cases same : other = buf
    · subst same
      rw [update_self, waits, agrees.noted]
      constructor
      · rintro (rfl | ⟨rank, noted⟩)
        · exact ⟨curInPort, .inr ⟨rfl, rfl, rfl⟩⟩
        · exact ⟨rank, .inl noted⟩
      · rintro ⟨rank, noted | ⟨rfl, -, -⟩⟩
        · exact .inr ⟨rank, noted⟩
        · exact .inl rfl
    · rw [update_of_ne same, agrees.noted]
      simp [same]
  · rw [slots] at first second
    rcases first with first | ⟨rfl, rfl, rfl⟩
    · rcases second with second | ⟨rfl, rfl, rfl⟩
      · exact agrees.distinct first second
      · exact by_contra fun different => allowed.2 r different first
    · rcases second with second | ⟨-, rfl, -⟩
      · exact by_contra fun different => allowed.2 r' (fun same => different same.symm) second
      · rfl

theorem reanalyzeRanks_eq {ranks : List (Fin ports)}
    (stalls : ∀ buf, (buffers buf).Stalls now) (later : now ≤ time) (nodup : ranks.Nodup)
    (waits : ∀ rank ∈ ranks, ∀ buf, vec rank = some buf → (buffers buf).hasStalledMsg addr = true)
    (distinct : ∀ {buf r r'}, vec r = some buf → vec r' = some buf → r = r') :
    reanalyzeRanks addr time vec ranks buffers = .ok fun buf =>
      if ranks.any fun rank => vec rank == some buf then (buffers buf).reanalyzed addr else buffers buf := by
  induction ranks generalizing buffers with
  | nil => rfl
  | cons rank rest ih =>
    obtain ⟨fresh, nodup'⟩ := nodup_cons.mp nodup
    unfold reanalyzeRanks
    split
    · rename_i empty
      rw [ih stalls nodup' fun r later' => waits r (mem_cons_of_mem _ later')]
      simp [empty]
    · rename_i buf noted
      have waiting := waits rank mem_cons_self buf noted
      have others : ∀ r ∈ rest, vec r ≠ some buf := fun r later' same => fresh (distinct noted same ▸ later')
      rw [MessageBuffer.reanalyzeMessages_eq (stalls buf) later waiting]
      refine (ih ?_ nodup' ?_).trans (congrArg Except.ok (funext fun other => ?_))
      · exact (forall_update_iff buffers fun _ b => b.Stalls now).mpr
          ⟨(stalls buf).reanalyzed waiting, fun other _ => stalls other⟩
      · intro r later' other noted'
        have different : other ≠ buf := by
          rintro rfl
          exact others r later' noted'
        rw [update_of_ne different]
        exact waits r (mem_cons_of_mem _ later') other noted'
      · by_cases same : other = buf
        · subst same
          have unmet : (rest.any fun r => vec r == some other) = false := by
            simpa using others
          simp [unmet, noted]
        · have : (vec rank == some other) = false := by simp [noted, Ne.symm same]
          simp only [update_of_ne same, any_cons, this, Bool.false_or]

theorem Agrees.wakeUpBuffer (agrees : c.Agrees now) (later : now ≤ time) (buf : B) (addr : Nat) :
    ∃ c', c.wakeUpBuffer buf addr time = .ok c' ∧ c'.Agrees time := by
  unfold AbstractController.wakeUpBuffer
  split
  · exact ⟨c, rfl, agrees.mono later⟩
  rename_i vec found
  have noted := slot_of_lookup found
  have own : ∀ {rank other}, (if vec rank = some buf then some buf else none) = some other ↔
      vec rank = some buf ∧ other = buf := by
    intro rank other
    split
    · rename_i here
      simp [here, eq_comm]
    · rename_i elsewhere
      simp [elsewhere]
  dsimp only
  rw [reanalyzeRanks_eq agrees.stalls later (nodup_finRange ports)]
  · have kept : ∀ (buffers : B → MessageBuffer α) (a : Nat) (rank : Fin ports),
        ({ buffers := buffers
           waitingBuffers :=
            if (List.finRange ports).any fun rank => (if vec rank = some buf then none else vec rank).isSome then
              putVec addr (fun rank => if vec rank = some buf then none else vec rank) c.waitingBuffers
            else eraseVec addr c.waitingBuffers } : AbstractController B ports α).slot a rank =
          if a = addr then (if vec rank = some buf then none else vec rank) else c.slot a rank := by
      intro buffers a rank
      split
      · exact slot_putVec
      · rename_i empty
        rw [slot_eraseVec]
        refine if_congr Iff.rfl (Eq.symm ?_) rfl
        simpa using fun here => empty (any_eq_true.mpr ⟨rank, mem_finRange rank, here⟩)
    refine ⟨_, rfl, ?_⟩
    refine (agrees.mono later).woken (P := fun other => other = buf ∧ (c.buffers other).hasStalledMsg addr = true)
      (fun other met => met.2) (fun other => if_congr ?_ rfl rfl) fun a rank other => ?_
    · rw [agrees.noted, any_eq_true]
      simp only [mem_finRange, beq_iff_eq, own, noted, true_and]
      constructor
      · rintro ⟨rank, here, rfl⟩
        exact ⟨rfl, rank, here⟩
      · rintro ⟨rfl, rank, here⟩
        exact ⟨rank, here, rfl⟩
    · rw [kept]
      by_cases here : a = addr
      · subst here
        rw [if_pos rfl, noted]
        split
        · rename_i same
          have waits := (agrees.noted buf a).mpr ⟨rank, (noted rank).trans same⟩
          simp only [same, Option.some.injEq, reduceCtorEq, false_iff]
          rintro ⟨rfl, unmet⟩
          exact unmet ⟨trivial, rfl, waits⟩
        · rename_i different
          refine (and_iff_left_of_imp fun here => ?_).symm
          rintro ⟨-, rfl, -⟩
          exact different here
      · simp [here]
  · intro rank _ other here
    obtain ⟨here, rfl⟩ := own.mp here
    exact (agrees.noted _ addr).mpr ⟨rank, (noted rank).trans here⟩
  · intro other r r' first second
    exact agrees.distinct ((noted r).trans (own.mp first).1) ((noted r').trans (own.mp second).1)

theorem Agrees.wakeUpRanks (agrees : c.Agrees now) (later : now ≤ time) {ranks : List (Fin ports)}
    (nodup : ranks.Nodup) (all : ∀ rank, c.slot addr rank ≠ none → rank ∈ ranks) :
    ∃ c', c.wakeUpRanks ranks addr time = .ok c' ∧ c'.Agrees time ∧
      ∀ buf, c'.buffers buf =
        if (c.buffers buf).hasStalledMsg addr then (c.buffers buf).reanalyzed addr else c.buffers buf := by
  unfold AbstractController.wakeUpRanks
  split
  · rename_i none
    refine ⟨c, rfl, agrees.mono later, fun buf => (if_neg ?_).symm⟩
    rw [agrees.noted]
    rintro ⟨rank, here⟩
    rw [slot, none] at here
    cases here
  rename_i vec found
  have noted := slot_of_lookup found
  rw [reanalyzeRanks_eq agrees.stalls later nodup]
  · have buffers : ∀ buf, (if ranks.any fun rank => vec rank == some buf then (c.buffers buf).reanalyzed addr
        else c.buffers buf) =
        if (c.buffers buf).hasStalledMsg addr then (c.buffers buf).reanalyzed addr else c.buffers buf := by
      refine fun buf => if_congr ?_ rfl rfl
      rw [agrees.noted, any_eq_true]
      simp only [beq_iff_eq, noted]
      exact ⟨fun ⟨rank, _, here⟩ => ⟨rank, here⟩,
        fun ⟨rank, here⟩ => ⟨rank, all rank (by simp [noted, here]), here⟩⟩
    refine ⟨_, rfl, (agrees.mono later).woken (fun _ met => met) buffers fun a rank buf => ?_, buffers⟩
    rw [slot_eraseVec, agrees.noted]
    split
    · rename_i here
      subst here
      simp only [reduceCtorEq, true_and, false_iff, not_and, not_not]
      exact fun noted' => ⟨rank, noted'⟩
    · rename_i elsewhere
      simp [elsewhere]
  · exact fun rank _ buf here => (agrees.noted buf addr).mpr ⟨rank, (noted rank).trans here⟩
  · exact fun first second => agrees.distinct ((noted _).trans first) ((noted _).trans second)

theorem Agrees.wakeUpBuffers (agrees : c.Agrees now) (later : now ≤ time)
    (allowed : c.Allowed (.wakeUpBuffers curInPort addr)) :
    ∃ c', c.wakeUpBuffers curInPort addr time = .ok c' ∧ c'.Agrees time := by
  have all : ∀ rank, c.slot addr rank ≠ none → rank ∈ (List.finRange ports).reverse.filter (· < curInPort) := by
    intro rank noted
    refine mem_filter.mpr ⟨mem_reverse.mpr (mem_finRange rank), decide_eq_true ?_⟩
    exact not_le.mp fun above => noted (allowed rank above)
  obtain ⟨c', done, agrees', -⟩ :=
    agrees.wakeUpRanks later ((nodup_reverse.mpr (nodup_finRange ports)).filter _) all
  exact ⟨c', done, agrees'⟩

theorem Agrees.wakeUpAllBuffersFor (agrees : c.Agrees now) (later : now ≤ time) (addr : Nat) :
    ∃ c', c.wakeUpAllBuffersFor addr time = .ok c' ∧ c'.Agrees time ∧
      ∀ buf, c'.buffers buf =
        if (c.buffers buf).hasStalledMsg addr then (c.buffers buf).reanalyzed addr else c.buffers buf :=
  agrees.wakeUpRanks later (nodup_reverse.mpr (nodup_finRange ports)) fun rank _ =>
    mem_reverse.mpr (mem_finRange rank)

theorem reanalyzeOnce_eq {slots : List (Option B)} {woken : List B}
    (stalls : ∀ buf, (buffers buf).Stalls now) (later : now ≤ time) :
    reanalyzeOnce time slots buffers woken = .ok fun buf =>
      if some buf ∈ slots ∧ buf ∉ woken then (buffers buf).allReanalyzed else buffers buf := by
  induction slots generalizing buffers woken with
  | nil => simp [reanalyzeOnce]
  | cons slot rest ih =>
    cases slot with
    | none =>
      rw [reanalyzeOnce, ih stalls]
      simp
    | some buf =>
      rw [reanalyzeOnce]
      split
      · rename_i known
        rw [ih stalls]
        refine congrArg Except.ok (funext fun other => if_congr ?_ rfl rfl)
        rw [mem_cons, Option.some.injEq]
        constructor
        · rintro ⟨listed, fresh⟩
          exact ⟨.inr listed, fresh⟩
        · rintro ⟨rfl | listed, fresh⟩
          · exact absurd known fresh
          · exact ⟨listed, fresh⟩
      · rename_i fresh
        rw [MessageBuffer.reanalyzeAllMessages_eq (stalls buf) later]
        refine (ih ((forall_update_iff buffers fun _ b => b.Stalls now).mpr
          ⟨MessageBuffer.allReanalyzed_stalls, fun other _ => stalls other⟩)).trans
          (congrArg Except.ok (funext fun other => ?_))
        by_cases same : other = buf
        · subst same
          simp [fresh]
        · simp [same]

theorem Agrees.wakeUpAllBuffers (agrees : c.Agrees now) (later : now ≤ time) :
    ∃ c', c.wakeUpAllBuffers time = .ok c' ∧ c'.Agrees time ∧
      ∀ buf, c'.buffers buf = (c.buffers buf).allReanalyzed := by
  unfold AbstractController.wakeUpAllBuffers
  dsimp only
  rw [reanalyzeOnce_eq agrees.stalls later]
  have buffers : (fun buf =>
      if some buf ∈ c.waitingBuffers.flatMap (fun entry => (List.finRange ports).map entry.2) ∧ buf ∉ ([] : List B) then
        (c.buffers buf).allReanalyzed
      else c.buffers buf) = fun buf => (c.buffers buf).allReanalyzed := by
    funext buf
    split
    · rfl
    · rename_i unlisted
      refine ((agrees.stalls buf).allReanalyzed_eq fun addr => Bool.eq_false_iff.mpr fun waits => unlisted ?_).symm
      obtain ⟨rank, noted⟩ := (agrees.noted buf addr).mp waits
      obtain ⟨vec, found, here⟩ := Option.bind_eq_some_iff.mp noted
      obtain ⟨before, after, split, -⟩ := lookup_eq_some_iff.mp found
      refine ⟨mem_flatMap.mpr ⟨(addr, vec), ?_, mem_map.mpr ⟨rank, mem_finRange rank, here⟩⟩, by simp⟩
      rw [split]
      exact mem_append_right _ mem_cons_self
  rw [buffers]
  refine ⟨_, rfl, ⟨fun buf => MessageBuffer.allReanalyzed_stalls, fun buf addr => ?_, ?_⟩, fun buf => rfl⟩
  · simp [MessageBuffer.hasStalledMsg, MessageBuffer.allReanalyzed, slot]
  · intro addr buf r r' first _
    cases first

theorem Agrees.wakeUp (agrees : c.Agrees now) (later : now ≤ time) {call : ControllerCall B ports α}
    (allowed : c.Allowed call) (wakeUp : call.isWakeUp = true) :
    ∃ c', c.call ruby time call = .ok c' ∧ c'.Agrees time := by
  cases call with
  | buffer buf call plain => cases wakeUp
  | stallAndWait curInPort buf addr => cases wakeUp
  | wakeUpBuffer buf addr => exact agrees.wakeUpBuffer later buf addr
  | wakeUpBuffers curInPort addr => exact agrees.wakeUpBuffers later allowed
  | wakeUpAllBuffersFor addr =>
    obtain ⟨c', done, agrees', -⟩ := agrees.wakeUpAllBuffersFor later addr
    exact ⟨c', done, agrees'⟩
  | wakeUpAllBuffers =>
    obtain ⟨c', done, agrees', -⟩ := agrees.wakeUpAllBuffers later
    exact ⟨c', done, agrees'⟩

theorem Agrees.call (agrees : c.Agrees now) (later : now ≤ time) {call : ControllerCall B ports α}
    (allowed : c.Allowed call) (done : c.call ruby time call = .ok c') : c'.Agrees time := by
  by_cases wakeUp : call.isWakeUp = true
  · obtain ⟨_, done', agrees'⟩ := agrees.wakeUp later allowed wakeUp
    cases done.symm.trans done'
    exact agrees'
  cases call with
  | buffer buf call plain =>
    cases called : (c.buffers buf).call ruby time call with
    | error failure =>
      rw [AbstractController.call, called] at done
      cases done
    | ok b =>
      rw [AbstractController.call, called] at done
      obtain rfl := Except.ok.inj done
      obtain ⟨map, size⟩ := MessageBuffer.call_plain plain called
      exact agrees.update later map size
  | stallAndWait curInPort buf addr => exact agrees.stallAndWait later allowed done
  | _ => exact absurd rfl wakeUp

def Obeys (ruby : RubySystem) (c : AbstractController B ports α) (calls : List (Nat × ControllerCall B ports α)) :
    Prop :=
  ∀ before call after, calls = before ++ call :: after → ∀ s, c.run ruby before = .ok s → s.Allowed call.2

theorem run_agrees {calls : List (Nat × ControllerCall B ports α)} (agrees : c.Agrees now)
    (times : ((now :: calls.map Prod.fst) ++ [time]).Pairwise (· ≤ ·)) (obeys : c.Obeys ruby calls)
    (reached : c.run ruby calls = .ok c') : c'.Agrees time := by
  induction calls generalizing c now with
  | nil =>
    cases reached
    refine agrees.mono ?_
    simpa using times
  | cons call rest ih =>
    unfold run at reached
    rw [foldlM_cons] at reached
    cases called : c.call ruby call.1 call.2 with
    | error failure =>
      rw [called] at reached
      cases reached
    | ok next =>
      rw [called] at reached
      have allowed : c.Allowed call.2 := obeys [] call rest rfl c rfl
      have sorted := pairwise_cons.mp times
      refine ih (agrees.call (sorted.1 call.1 (by simp)) allowed called) sorted.2 ?_ reached
      intro before call' after split s reached'
      refine obeys (call :: before) call' after (by rw [split]; rfl) s ?_
      unfold run
      rw [foldlM_cons, called]
      exact reached'

/-- In a run whose calls are allowed every buffer with stalled messages is noted, no wake-up fails an assertion, and
`wakeUpAllBuffers` puts all stalled messages back, or those for its address. -/
theorem stalled_buffers_noted (ruby : RubySystem) (time : Nat) {c₀ c : AbstractController B ports α}
    {calls : List (Nat × ControllerCall B ports α)} (new : c₀.IsNew)
    (times : (calls.map Prod.fst ++ [time]).Pairwise (· ≤ ·)) (obeys : c₀.Obeys ruby calls)
    (reached : c₀.run ruby calls = .ok c) :
    (∀ buf addr, (c.buffers buf).hasStalledMsg addr = true →
      ∃ vec rank, c.waitingBuffers.lookup addr = some vec ∧ vec rank = some buf) ∧
    (∀ call : ControllerCall B ports α, call.isWakeUp = true → c.Allowed call →
      ∃ c', c.call ruby time call = .ok c') ∧
    (∃ c', c.wakeUpAllBuffers time = .ok c' ∧ ∀ buf, (c'.buffers buf).stallMsgMap = [] ∧
      (c'.buffers buf).prioHeap.Perm ((c.buffers buf).stalled ++ (c.buffers buf).prioHeap)) ∧
    ∀ addr, ∃ c', c.wakeUpAllBuffersFor addr time = .ok c' ∧ ∀ buf, (c'.buffers buf).hasStalledMsg addr = false ∧
      (c'.buffers buf).prioHeap.Perm ((c.buffers buf).stalledAt addr ++ (c.buffers buf).prioHeap) := by
  have agrees : c.Agrees time :=
    run_agrees new.agrees (pairwise_cons.mpr ⟨fun _ _ => Nat.zero_le _, times⟩) obeys reached
  refine ⟨fun buf addr waits => ?_, fun call wakeUp allowed => ?_, ?_, fun addr => ?_⟩
  · obtain ⟨rank, noted⟩ := (agrees.noted buf addr).mp waits
    obtain ⟨vec, found, here⟩ := Option.bind_eq_some_iff.mp noted
    exact ⟨vec, rank, found, here⟩
  · obtain ⟨c', done, -⟩ := agrees.wakeUp le_rfl allowed wakeUp
    exact ⟨c', done⟩
  · obtain ⟨c', done, -, buffers⟩ := agrees.wakeUpAllBuffers le_rfl
    refine ⟨c', done, fun buf => ?_⟩
    rw [buffers]
    exact ⟨rfl, MessageBuffer.foldl_pushHeap_perm _ _⟩
  · obtain ⟨c', done, -, buffers⟩ := agrees.wakeUpAllBuffersFor le_rfl addr
    refine ⟨c', done, fun buf => ?_⟩
    rw [buffers]
    split
    · refine ⟨Bool.eq_false_iff.mpr fun waits => ?_, MessageBuffer.foldl_pushHeap_perm _ _⟩
      exact ((agrees.stalls buf).hasStalledMsg_reanalyzed.mp waits).1 rfl
    · rename_i none
      have empty : (c.buffers buf).stallMsgMap.lookup addr = Option.none := Option.not_isSome_iff_eq_none.mp none
      refine ⟨Bool.eq_false_iff.mpr none, ?_⟩
      rw [MessageBuffer.stalledAt, empty]
      exact .refl _

end AbstractController

def twoPorts : AbstractController (Fin 2) 2 Nat := { buffers := fun _ => {} }

def stallAtPortOne : List (Nat × ControllerCall (Fin 2) 2 Nat) :=
  [(1, .buffer 1 (.enqueue ⟨0, 0, 0, 0⟩ 1 .least) rfl), (2, .stallAndWait 1 1 0)]

theorem stalled_buffers_noted_stall : ∃ c, twoPorts.run {} stallAtPortOne = .ok c ∧
    ∃ c', c.wakeUpAllBuffers 3 = .ok c' ∧ ∀ buf, (c'.buffers buf).stallMsgMap = [] ∧
      (c'.buffers buf).prioHeap.Perm ((c.buffers buf).stalled ++ (c.buffers buf).prioHeap) := by
  have obeys : twoPorts.Obeys {} stallAtPortOne := by
    intro before call after split s reached
    rcases before with _ | ⟨first, _ | ⟨second, _ | ⟨third, rest⟩⟩⟩
    · cases split
      trivial
    · cases split
      cases reached
      exact ⟨.inl rfl, fun rank _ noted => by cases noted⟩
    · cases split
    · cases split
  obtain ⟨-, -, woken, -⟩ := AbstractController.stalled_buffers_noted {} 3
    ⟨fun _ => ⟨rfl, rfl, rfl, rfl, rfl, rfl, rfl, rfl, rfl, rfl, rfl⟩, rfl⟩ (by decide) obeys rfl
  exact ⟨_, rfl, woken⟩

/-- `wakeUpBuffers` at port 1 drops the note of port 1 and leaves the message where it is. -/
theorem stalled_buffer_forgotten : ∃ c, twoPorts.run {} (stallAtPortOne ++ [(3, .wakeUpBuffers 1 0)]) = .ok c ∧
    (c.buffers 1).hasStalledMsg 0 = true ∧ c.waitingBuffers.lookup 0 = none := by
  refine ⟨_, rfl, ?_, ?_⟩
  · decide +kernel
  · decide +kernel

end Resister
