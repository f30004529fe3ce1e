import Resister.Garnet.Updates
import Resister.Garnet.InterfaceRefinement
import Resister.Network.GarnetNetwork

/-!
# Stalled messages

A tail flit for which its protocol buffer has no room, or that comes second in a cycle, waits in the
stall queue of its port.
-/

namespace Resister.Garnet

open Function (update update_self update_of_ne)
open Library List

section Frames

variable {cfg : Config} {n : Nat}

structure EjectionState where
  linkBuffer : Nat → List Flit
  stallQueue : Nat → List Flit
  outNode : Nat × Nat → MessageBuffer
  stallCount : Nat × Nat → Nat
  dequeueCallback : Nat × Nat → Bool

def Net.ejection (s : Net) : EjectionState :=
  ⟨s.flow.linkBuffer, s.flow.stallQueue, s.outNode, s.stallCount, s.dequeueCallback⟩

theorem Updates.ejection {parts : Part → Prop} {s s' : Net} (updates : Updates cfg parts s s')
    (only : ∀ part, parts part → part = .output ∨ part = .credits ∨ ∃ n vnet, part = .injection n vnet) :
    s'.ejection = s.ejection := by
  refine updates.frame fun permitted step => ?_
  rcases permitted.imp_right (only _) with rfl | rfl | rfl | ⟨n, vnet, rfl⟩
  · cases step <;> rfl
  · cases step
    rfl
  · cases step
    rfl
  · cases step <;> rfl

/-- The stalled flits of an interface, and its counters and callbacks. -/
structure SameStalls (cfg : Config) (n : Nat) (s s' : Net) : Prop where
  queues : ∀ l, cfg.sink l = some (.ni n) → s'.flow.stallQueue l = s.flow.stallQueue l
  counts : ∀ vnet, s'.stallCount (n, vnet) = s.stallCount (n, vnet)
  callbacks : ∀ vnet, s'.dequeueCallback (n, vnet) = s.dequeueCallback (n, vnet)

theorem Updates.stalls {parts : Part → Prop} {s s' : Net} (updates : Updates cfg parts s s')
    (other : ¬ parts (.ejection n)) : SameStalls cfg n s s' := by
  refine updates.relates (P := SameStalls cfg n) (fun _ => ⟨fun _ _ => rfl, fun _ => rfl, fun _ => rfl⟩)
    (fun first second => ⟨fun l sink => (second.queues l sink).trans (first.queues l sink),
      fun v => (second.counts v).trans (first.counts v),
      fun v => (second.callbacks v).trans (first.callbacks v)⟩) fun permitted step => ?_
  cases step with
  | @eject s m l t flow outNode stallCount dequeueCallback sink ejected others =>
    have different : n ≠ m := by
      rintro rfl
      exact permitted.elim nofun other
    refine ⟨fun k sink' => ?_, fun v => others.stallCount _ different, fun v => others.dequeueCallback _ different⟩
    have elsewhere : k ≠ l := by
      rintro rfl
      exact different (by simpa using sink'.symm.trans sink)
    cases ejected with
    | nothing | eject => rfl
    | stall | unstall => exact update_of_ne elsewhere ..
  | _ => exact ⟨fun _ _ => rfl, fun _ => rfl, fun _ => rfl⟩

end Frames

def Net.stalledFlits (cfg : Config) (s : Net) (n vnet : Nat) : Nat :=
  ((cfg.inLinks (.ni n)).map fun l => (s.flow.stallQueue l).countP fun f => f.vnet == vnet).sum

/-- `m_stall_count` counts them, and the callback is registered while there are any. -/
structure Net.Counted (cfg : Config) (n : Nat) (s : Net) : Prop where
  count : ∀ vnet, s.stallCount (n, vnet) = s.stalledFlits cfg n vnet
  callback : ∀ vnet, 0 < s.stallCount (n, vnet) → s.dequeueCallback (n, vnet) = true

section Counted

variable {cfg : Config} {n l : Nat} {s s' : Net}

theorem Net.Counted.congr (counted : s.Counted cfg n) (same : SameStalls cfg n s s') : s'.Counted cfg n where
  count := fun vnet => by
    rw [same.counts, counted.count, Net.stalledFlits, Net.stalledFlits]
    congr 1
    exact map_congr_left fun l listed => by rw [same.queues l (Config.mem_inLinks.mp listed)]
  callback := fun vnet waiting => by
    rw [same.counts] at waiting
    rw [same.callbacks]
    exact counted.callback vnet waiting

theorem Net.countP_le_stalledFlits (sink : cfg.sink l = some (.ni n)) (vnet : Nat) :
    (s.flow.stallQueue l).countP (fun f => f.vnet == vnet) ≤ s.stalledFlits cfg n vnet :=
  le_sum_of_mem (mem_map_of_mem (Config.mem_inLinks.mpr sink))

theorem Net.Counted.at_port (counted : s.Counted cfg n) (sink : cfg.sink l = some (.ni n))
    (others : ∀ k, k ≠ l → s'.flow.stallQueue k = s.flow.stallQueue k)
    (balance : ∀ vnet, s'.stallCount (n, vnet) + (s.flow.stallQueue l).countP (fun f => f.vnet == vnet) =
      s.stallCount (n, vnet) + (s'.flow.stallQueue l).countP fun f => f.vnet == vnet)
    (callback : ∀ vnet, 0 < s'.stallCount (n, vnet) → s'.dequeueCallback (n, vnet) = true) : s'.Counted cfg n := by
  refine ⟨fun vnet => ?_, callback⟩
  have listed : l ∈ cfg.inLinks (.ni n) := Config.mem_inLinks.mpr sink
  have rest : ((cfg.inLinks (.ni n)).erase l).map (fun k => (s'.flow.stallQueue k).countP fun f => f.vnet == vnet) =
      ((cfg.inLinks (.ni n)).erase l).map fun k => (s.flow.stallQueue k).countP fun f => f.vnet == vnet :=
    map_congr_left fun k present => by
      rw [others k ((Config.nodup_inLinks _).mem_erase_iff.mp present).1]
  have before := sum_map_erase (fun k => (s.flow.stallQueue k).countP fun f => f.vnet == vnet) listed
  have after := sum_map_erase (fun k => (s'.flow.stallQueue k).countP fun f => f.vnet == vnet) listed
  have old := counted.count vnet
  have change := balance vnet
  rw [rest] at after
  unfold stalledFlits at old ⊢
  omega

theorem Net.Counted.registered (counted : s.Counted cfg n) (sink : cfg.sink l = some (.ni n)) {f : Flit}
    (stalled : f ∈ s.flow.stallQueue l) : s.dequeueCallback (n, f.vnet) = true := by
  refine counted.callback f.vnet ?_
  rw [counted.count]
  have here : 0 < (s.flow.stallQueue l).countP fun g => g.vnet == f.vnet :=
    countP_pos_iff.mpr ⟨f, stalled, beq_self_eq_true _⟩
  exact Nat.lt_of_lt_of_le here (Net.countP_le_stalledFlits sink f.vnet)

end Counted

namespace NetworkInterface

variable {cfg : Config} {n t l : Nat} {s s' : Net}

def unstalled (n t l : Nat) (s : Net) (before after : List Flit) (f : Flit) : Net :=
  let count := s.stallCount (n, f.vnet) - 1
  { enqueue n f.vnet t s with
    flow := (s.flow.unstall l (before ++ after)).eject n l t f
    stallCount := update s.stallCount (n, f.vnet) count
    dequeueCallback :=
      if count = 0 then update s.dequeueCallback (n, f.vnet) false else s.dequeueCallback
    messageEnqueuedThisCycle := update s.messageEnqueuedThisCycle l true }

theorem checkStallQueue_cases (n t : Nat) (s : Net) (l : Nat) :
    (∀ g ∈ s.flow.stallQueue l, slotAvailable s n g.vnet t = false) ∧
        checkStallQueue n t s l =
          { s with messageEnqueuedThisCycle := update s.messageEnqueuedThisCycle l false } ∨
      ∃ before f after, s.flow.stallQueue l = before ++ f :: after ∧
        (∀ g ∈ before, slotAvailable s n g.vnet t = false) ∧ slotAvailable s n f.vnet t = true ∧
        checkStallQueue n t s l = unstalled n t l s before after f := by
  have whole := (s.flow.stallQueue l).takeWhile_append_dropWhile (p := fun f => !slotAvailable s n f.vnet t)
  have waits : ∀ g ∈ (s.flow.stallQueue l).takeWhile (fun f => !slotAvailable s n f.vnet t),
      slotAvailable s n g.vnet t = false := fun g earlier => by simpa using mem_takeWhile_imp earlier
  unfold checkStallQueue
  dsimp only
  split
  · rename_i none
    rw [none, append_nil] at whole
    exact Or.inl ⟨fun g stalled => waits g (whole.symm ▸ stalled), rfl⟩
  · rename_i f rest found
    have head := List.head?_dropWhile_not (fun f => !slotAvailable s n f.vnet t) (s.flow.stallQueue l)
    rw [found] at head whole
    exact Or.inr ⟨_, f, rest, whole.symm, waits, by simpa using head, rfl⟩

theorem unstalled_counted {before after : List Flit} {f : Flit} (sink : cfg.sink l = some (.ni n))
    (counted : s.Counted cfg n) (queue : s.flow.stallQueue l = before ++ f :: after) :
    (unstalled n t l s before after f).Counted cfg n := by
  have atPort : (unstalled n t l s before after f).flow.stallQueue l = before ++ after := update_self ..
  have same : (unstalled n t l s before after f).stallCount (n, f.vnet) = s.stallCount (n, f.vnet) - 1 := update_self ..
  have other : ∀ vnet, vnet ≠ f.vnet → (unstalled n t l s before after f).stallCount (n, vnet) = s.stallCount (n, vnet) :=
    fun vnet different => update_of_ne (fun eq => different (congrArg Prod.snd eq)) ..
  refine counted.at_port sink (fun k elsewhere => update_of_ne elsewhere ..) (fun vnet => ?_) fun vnet waiting => ?_
  · have enough := @Net.countP_le_stalledFlits cfg n l s sink vnet
    rw [← counted.count] at enough
    rw [queue, countP_append, countP_cons] at enough ⊢
    rw [atPort, countP_append]
    by_cases here : vnet = f.vnet
    · subst here
      simp only [beq_self_eq_true, if_true] at enough ⊢
      rw [same]
      omega
    · have differs : (f.vnet == vnet) = false := beq_false_of_ne (Ne.symm here)
      simp only [differs, Bool.false_eq_true, if_false]
      rw [other vnet here]
      omega
  · by_cases here : vnet = f.vnet
    · subst here
      rw [same] at waiting
      simp only [unstalled, if_neg (Nat.pos_iff_ne_zero.mp waiting)]
      exact counted.callback f.vnet (by omega)
    · rw [other vnet here] at waiting
      have old := counted.callback vnet waiting
      simp only [unstalled]
      split
      · rw [update_of_ne fun eq => here (congrArg Prod.snd eq)]
        exact old
      · exact old

theorem checkStallQueue_counted (sink : cfg.sink l = some (.ni n)) (counted : s.Counted cfg n) :
    (checkStallQueue n t s l).Counted cfg n := by
  rcases checkStallQueue_cases n t s l with ⟨-, result⟩ | ⟨before, f, after, queue, -, -, result⟩
  · rw [result]
    exact counted.congr ⟨fun _ _ => rfl, fun _ => rfl, fun _ => rfl⟩
  · rw [result]
    exact unstalled_counted sink counted queue

def stalled (n l : Nat) (s : Net) (f : Flit) (rest : List Flit) : Net :=
  { s with
    flow := s.flow.stall l f rest
    stallCount := update s.stallCount (n, f.vnet) (s.stallCount (n, f.vnet) + 1)
    dequeueCallback := update s.dequeueCallback (n, f.vnet) true }

theorem stalled_counted (f : Flit) (rest : List Flit) (sink : cfg.sink l = some (.ni n)) (counted : s.Counted cfg n) :
    (stalled n l s f rest).Counted cfg n := by
  have atPort : (stalled n l s f rest).flow.stallQueue l = s.flow.stallQueue l ++ [f] := update_self ..
  refine counted.at_port sink (fun k elsewhere => update_of_ne elsewhere ..) (fun vnet => ?_) fun vnet waiting => ?_
  · rw [atPort, countP_append, countP_singleton]
    by_cases here : vnet = f.vnet
    · subst here
      simp only [stalled, update_self, beq_self_eq_true, if_true]
      omega
    · have differs : (f.vnet == vnet) = false := beq_false_of_ne (Ne.symm here)
      have other : (n, vnet) ≠ (n, f.vnet) := fun eq => here (congrArg Prod.snd eq)
      simp only [stalled, update_of_ne other, differs, Bool.false_eq_true, if_false]
      omega
  · by_cases here : vnet = f.vnet
    · subst here
      exact update_self ..
    · have other : (n, vnet) ≠ (n, f.vnet) := fun eq => here (congrArg Prod.snd eq)
      simp only [stalled, update_of_ne other] at waiting ⊢
      exact counted.callback vnet waiting

theorem checkInLink_counted (sink : cfg.sink l = some (.ni n)) (counted : s.Counted cfg n) :
    (checkInLink n t s l).Counted cfg n := by
  unfold checkInLink
  split
  · exact counted
  · rename_i f rest top
    split
    · split
      · split
        · exact counted.congr ⟨fun _ _ => rfl, fun _ => rfl, fun _ => rfl⟩
        · exact stalled_counted f rest sink counted
      · exact counted.congr ⟨fun _ _ => rfl, fun _ => rfl, fun _ => rfl⟩
    · exact counted

theorem foldl_counted {body : Net → Nat → Net} {ports : List Nat}
    (step : ∀ l ∈ ports, ∀ s : Net, s.Counted cfg n → (body s l).Counted cfg n) {s : Net} (counted : s.Counted cfg n) :
    (ports.foldl body s).Counted cfg n := by
  induction ports generalizing s with
  | nil => exact counted
  | cons l ports ih =>
    exact ih (fun k later => step k (mem_cons_of_mem _ later)) (step l mem_cons_self s counted)

theorem wakeup_counted (counted : s.Counted cfg n) : (wakeup cfg n t s).Counted cfg n := by
  have flitisized : ((List.range cfg.numVnets).foldl (flitisizeMessage cfg n t) s).Counted cfg n :=
    counted.congr ((flitisizeMessages_updates n t _ s).stalls fun ⟨_, _, same⟩ => nomatch same)
  have scheduled := flitisized.congr
    ((scheduleOutputPorts_updates n t (cfg.outLinks (.ni n)) _).stalls fun same => nomatch same)
  have unstalled : ((cfg.inLinks (.ni n)).foldl (checkStallQueue n t) _).Counted cfg n :=
    foldl_counted (fun l listed s => checkStallQueue_counted (Config.mem_inLinks.mp listed)) scheduled
  have ejected : ((cfg.inLinks (.ni n)).foldl (checkInLink n t) _).Counted cfg n :=
    foldl_counted (fun l listed s => checkInLink_counted (Config.mem_inLinks.mp listed)) unstalled
  exact ejected.congr ((credits_updates n t _).stalls fun same => nomatch same)

end NetworkInterface

theorem Net.step_counted {cfg : Config} {n : Nat} {s : Net} (counted : s.Counted cfg n) (e : Event) :
    (step cfg s e).Counted cfg n := by
  by_cases touched : e.Touches cfg (.ejection n)
  · obtain ⟨t, rfl⟩ := Event.touches_ejection.mp touched
    unfold step
    split
    · dsimp only [wakeAt]
      split
      · have woken : (s.woken (.ni n) t).Counted cfg n := counted.congr ⟨fun _ _ => rfl, fun _ => rfl, fun _ => rfl⟩
        exact NetworkInterface.wakeup_counted woken
      · exact counted
    · exact counted
  · exact counted.congr ((step_updates s e).stalls touched)

theorem Net.run_counted (cfg : Config) (n : Nat) (events : List Event) : (run cfg events).Counted cfg n := by
  induction events using List.reverseRecOn with
  | nil =>
    refine ⟨fun vnet => ?_, fun vnet waiting => absurd waiting (Nat.lt_irrefl 0)⟩
    have none : ∀ l, (init cfg).flow.stallQueue l = [] := fun _ => rfl
    simp only [run_nil, stalledFlits, none, countP_nil, map_const', sum_replicate, smul_zero]
    rfl
  | append_singleton past e ih =>
    rw [run_concat]
    exact step_counted ih e

namespace NetworkInterface

variable {n t l : Nat} {s s' s'' : Net}

/-- Buffers fill up: where anything changes there is a message afterwards, and no more room than before. -/
def Fills (n t : Nat) (s s' : Net) : Prop :=
  ∀ vnet, s'.outNode (n, vnet) = s.outNode (n, vnet) ∨
    0 < (s'.outNode (n, vnet)).messages ∧ (slotAvailable s' n vnet t = true → slotAvailable s n vnet t = true)

theorem Fills.of_outNode (same : s'.outNode = s.outNode) : Fills n t s s' := fun _ => Or.inl (by rw [same])

theorem Fills.available (fills : Fills n t s s') {vnet : Nat} (room : slotAvailable s' n vnet t = true) :
    slotAvailable s n vnet t = true := by
  rcases fills vnet with same | ⟨-, keeps⟩
  · rwa [slotAvailable, same] at room
  · exact keeps room

theorem Fills.messages (fills : Fills n t s s') {vnet : Nat} (filled : 0 < (s.outNode (n, vnet)).messages) :
    0 < (s'.outNode (n, vnet)).messages := by
  rcases fills vnet with same | ⟨now, -⟩
  · rwa [same]
  · exact now

theorem Fills.filled (fills : Fills n t s s') {vnet : Nat} (room : slotAvailable s n vnet t = true)
    (full : slotAvailable s' n vnet t = false) : 0 < (s'.outNode (n, vnet)).messages := by
  rcases fills vnet with same | ⟨now, -⟩
  · rw [slotAvailable, same] at full
    rw [slotAvailable, full] at room
    cases room
  · exact now

theorem Fills.trans (first : Fills n t s s') (second : Fills n t s' s'') : Fills n t s s'' := by
  intro vnet
  rcases second vnet with same | ⟨now, keeps⟩
  · rcases first vnet with before | ⟨now, keeps⟩
    · exact Or.inl (same.trans before)
    · right
      rw [slotAvailable, same]
      exact ⟨now, keeps⟩
  · exact Or.inr ⟨now, fun room => first.available (keeps room)⟩

theorem enqueue_messages (vnet : Nat) (s : Net) : 0 < ((enqueue n vnet t s).outNode (n, vnet)).messages := by
  simp only [enqueue, update_self, MessageBuffer.messages, MessageBuffer.enqueue]
  omega

theorem enqueue_fills (vnet : Nat) (s : Net) : Fills n t s (enqueue n vnet t s) := by
  intro other
  by_cases same : other = vnet
  · subst same
    exact Or.inr ⟨enqueue_messages other s, slotAvailable_enqueue other⟩
  · exact Or.inl (update_of_ne (fun eq => same (congrArg Prod.snd eq)) ..)

theorem Fills.first (fills : Fills n t s s') {flits : List Flit} {f : Flit}
    (found : flits.find? (fun g => slotAvailable s n g.vnet t) = some f) :
    flits.find? (fun g => slotAvailable s' n g.vnet t) = some f ∨ 0 < (s'.outNode (n, f.vnet)).messages := by
  obtain ⟨room, before, after, rfl, earlier⟩ := List.find?_eq_some_iff_append.mp found
  cases still : slotAvailable s' n f.vnet t with
  | false => exact Or.inr (fills.filled room still)
  | true =>
    refine Or.inl (List.find?_eq_some_iff_append.mpr ⟨still, before, after, rfl, fun g present => ?_⟩)
    have full := earlier g present
    cases free : slotAvailable s' n g.vnet t with
    | false => rfl
    | true => rw [fills.available free] at full; cases full

theorem Fills.none (fills : Fills n t s s') {flits : List Flit}
    (found : flits.find? (fun g => slotAvailable s n g.vnet t) = none) :
    flits.find? (fun g => slotAvailable s' n g.vnet t) = none := by
  rw [List.find?_eq_none] at found ⊢
  exact fun g present room => found g present (fills.available room)

structure Elsewhere (n t l : Nat) (s s' : Net) : Prop where
  fills : Fills n t s s'
  stallQueue : s'.flow.stallQueue l = s.flow.stallQueue l
  linkBuffer : s'.flow.linkBuffer l = s.flow.linkBuffer l
  enqueued : s'.messageEnqueuedThisCycle l = s.messageEnqueuedThisCycle l

theorem Elsewhere.refl : Elsewhere n t l s s := ⟨.of_outNode rfl, rfl, rfl, rfl⟩

theorem Elsewhere.trans (first : Elsewhere n t l s s') (second : Elsewhere n t l s' s'') : Elsewhere n t l s s'' :=
  ⟨first.fills.trans second.fills, second.stallQueue.trans first.stallQueue, second.linkBuffer.trans first.linkBuffer,
    second.enqueued.trans first.enqueued⟩

theorem foldl_turn {body : Net → Nat → Net} {ports : List Nat} (distinct : ports.Nodup)
    (other : ∀ k, k ≠ l → ∀ s, Elsewhere n t l s (body s k)) (listed : l ∈ ports) (s : Net) :
    ∃ a, Elsewhere n t l s a ∧ Elsewhere n t l (body a l) (ports.foldl body s) := by
  have rest : ∀ (ks : List Nat) (s : Net), l ∉ ks → Elsewhere n t l s (ks.foldl body s) := by
    intro ks
    induction ks with
    | nil => exact fun _ _ => .refl
    | cons k ks ih =>
      intro s absent
      have head : k ≠ l := fun same => absent (same ▸ mem_cons_self)
      exact (other k head s).trans (ih _ fun later => absent (mem_cons_of_mem _ later))
  obtain ⟨before, after, rfl⟩ := append_of_mem listed
  rw [nodup_middle, nodup_cons, mem_append, not_or] at distinct
  refine ⟨before.foldl body s, rest before s distinct.1.1, ?_⟩
  rw [foldl_append, foldl_cons]
  exact rest after _ distinct.1.2

theorem checkStallQueue_elsewhere (k : Nat) (other : k ≠ l) (s : Net) :
    Elsewhere n t l s (checkStallQueue n t s k) := by
  rcases checkStallQueue_cases n t s k with ⟨-, result⟩ | ⟨before, f, after, -, -, -, result⟩
  · rw [result]
    exact ⟨.of_outNode rfl, rfl, rfl, update_of_ne other.symm ..⟩
  · rw [result]
    exact ⟨enqueue_fills f.vnet s, update_of_ne other.symm .., rfl, update_of_ne other.symm ..⟩

theorem checkInLink_elsewhere (k : Nat) (other : k ≠ l) (s : Net) : Elsewhere n t l s (checkInLink n t s k) := by
  unfold checkInLink
  split
  · exact .refl
  · split
    · split
      · split
        · exact ⟨enqueue_fills _ s, rfl, update_of_ne other.symm .., rfl⟩
        · exact ⟨.of_outNode rfl, update_of_ne other.symm .., update_of_ne other.symm .., rfl⟩
      · exact ⟨.of_outNode rfl, rfl, update_of_ne other.symm .., rfl⟩
    · exact .refl

theorem checkStallQueue_port (n t : Nat) (s : Net) (l : Nat) :
    Fills n t s (checkStallQueue n t s l) ∧ (checkStallQueue n t s l).flow.linkBuffer = s.flow.linkBuffer ∧
      (checkStallQueue n t s l).flow.stallQueue l ⊆ s.flow.stallQueue l ∧
      (∀ f, (s.flow.stallQueue l).find? (fun g => slotAvailable s n g.vnet t) = some f →
        0 < ((checkStallQueue n t s l).outNode (n, f.vnet)).messages) ∧
      ((s.flow.stallQueue l).find? (fun g => slotAvailable s n g.vnet t) = none →
        (checkStallQueue n t s l).messageEnqueuedThisCycle l = false) := by
  rcases checkStallQueue_cases n t s l with ⟨blocked, result⟩ | ⟨before, f, after, queue, blocked, room, result⟩
  · rw [result]
    refine ⟨.of_outNode rfl, rfl, List.Subset.refl _, fun f found => ?_, fun _ => update_self ..⟩
    have full := blocked f (mem_of_find?_eq_some found)
    have free := List.find?_some found
    rw [full] at free
    cases free
  · have found : (s.flow.stallQueue l).find? (fun g => slotAvailable s n g.vnet t) = some f := by
      rw [queue]
      exact List.find?_eq_some_iff_append.mpr ⟨room, before, after, rfl, fun g earlier => by rw [blocked g earlier]; rfl⟩
    rw [result, found]
    refine ⟨enqueue_fills f.vnet s, rfl, ?_, ?_, nofun⟩
    · have left : (unstalled n t l s before after f).flow.stallQueue l = before ++ after := update_self ..
      rw [left, queue]
      exact append_subset.mpr ⟨subset_append_left .., fun g later =>
        mem_append_right _ (mem_cons_of_mem _ later)⟩
    · rintro g same
      cases same
      exact enqueue_messages f.vnet s

def arriving (s : Net) (t l : Nat) : List Flit :=
  (s.flow.linkBuffer l).head?.toList.filter fun f => decide (f.time ≤ t) && f.isTail

theorem checkInLink_port (n t : Nat) (s : Net) (l : Nat) :
    Fills n t s (checkInLink n t s l) ∧
      (checkInLink n t s l).flow.stallQueue l ⊆ s.flow.stallQueue l ++ arriving s t l ∧
      ∀ f, s.messageEnqueuedThisCycle l = false →
        (arriving s t l).find? (fun g => slotAvailable s n g.vnet t) = some f →
          0 < ((checkInLink n t s l).outNode (n, f.vnet)).messages := by
  unfold checkInLink arriving
  split
  · rename_i empty
    simp only [empty]
    exact ⟨.of_outNode rfl, subset_append_left .., nofun⟩
  · rename_i f rest top
    simp only [top, List.head?_cons, Option.toList_some]
    split
    · rename_i ready
      split
      · rename_i tail
        have taken : [f].filter (fun f => decide (f.time ≤ t) && f.isTail) = [f] := by simp [ready, tail]
        rw [taken]
        split
        · refine ⟨enqueue_fills f.vnet s, subset_append_left .., fun g _ found => ?_⟩
          obtain rfl : g = f := by simpa using mem_of_find?_eq_some found
          exact enqueue_messages g.vnet s
        · rename_i refused
          refine ⟨.of_outNode rfl, ?_, fun g fresh found => ?_⟩
          · have queue : (s.flow.stall l f rest).stallQueue l = s.flow.stallQueue l ++ [f] := update_self ..
            rw [queue]
            exact List.Subset.refl _
          · obtain rfl : g = f := by simpa using mem_of_find?_eq_some found
            have room := List.find?_some found
            simp [fresh, room] at refused
      · rename_i body
        have skipped : [f].filter (fun f => decide (f.time ≤ t) && f.isTail) = [] := by simp [body]
        rw [skipped]
        exact ⟨.of_outNode rfl, subset_append_left .., nofun⟩
    · rename_i early
      have skipped : [f].filter (fun f => decide (f.time ≤ t) && f.isTail) = [] := by simp [early]
      rw [skipped]
      exact ⟨.of_outNode rfl, subset_append_left .., nofun⟩

/-- The tail flits that wait at a port, in the order in which the port asks for room. -/
def candidates (s : Net) (t l : Nat) : List Flit := s.flow.stallQueue l ++ arriving s t l

/-- For every tail flit that waits at the port, its buffer holds a message or is the one into which the port's first
flit with room goes. -/
def Relieved (n t : Nat) (s : Net) (l : Nat) : Prop :=
  ∀ g ∈ candidates s t l, 0 < (s.outNode (n, g.vnet)).messages ∨
    ((candidates s t l).find? fun f => slotAvailable s n f.vnet t).map Flit.vnet = some g.vnet

theorem eject_port {cfg : Config} (listed : l ∈ cfg.inLinks (.ni n)) (s : Net) {ejected : Net}
    (result : ejected = (cfg.inLinks (.ni n)).foldl (checkInLink n t)
      ((cfg.inLinks (.ni n)).foldl (checkStallQueue n t) s)) :
    Fills n t s ejected ∧ ejected.flow.stallQueue l ⊆ candidates s t l ∧
      ∀ f, (candidates s t l).find? (fun f => slotAvailable s n f.vnet t) = some f →
        0 < (ejected.outNode (n, f.vnet)).messages := by
  obtain ⟨a, before, after⟩ :=
    foldl_turn (t := t) (Config.nodup_inLinks (.ni n)) checkStallQueue_elsewhere listed s
  obtain ⟨b, between, last⟩ := foldl_turn (t := t) (Config.nodup_inLinks (.ni n)) checkInLink_elsewhere listed
    ((cfg.inLinks (.ni n)).foldl (checkStallQueue n t) s)
  rw [← result] at last
  obtain ⟨unstalls, links, fewer, firstStalled, noneStalled⟩ := checkStallQueue_port n t a l
  obtain ⟨takes, added, firstArriving⟩ := checkInLink_port n t b l
  have unstalled := after.trans between
  have toB : Fills n t s b := (before.fills.trans unstalls).trans unstalled.fills
  have toEnd := takes.trans last.fills
  have sameArriving : arriving b t l = arriving s t l := by
    unfold arriving
    rw [unstalled.linkBuffer, links, before.linkBuffer]
  rw [sameArriving] at added firstArriving
  refine ⟨toB.trans toEnd, ?_, fun f found => ?_⟩
  · rw [last.stallQueue]
    refine List.Subset.trans added (append_subset.mpr ⟨?_, subset_append_right ..⟩)
    rw [unstalled.stallQueue]
    rw [before.stallQueue] at fewer
    exact List.Subset.trans fewer (subset_append_left ..)
  · rw [before.stallQueue] at firstStalled noneStalled
    rw [candidates, List.find?_append] at found
    cases inQueue : (s.flow.stallQueue l).find? fun f => slotAvailable s n f.vnet t with
    | some g =>
      rw [inQueue, Option.some_or] at found
      cases found
      have toEndA := (unstalls.trans unstalled.fills).trans toEnd
      rcases before.fills.first inQueue with still | filled
      · exact (unstalled.fills.trans toEnd).messages (firstStalled f still)
      · exact toEndA.messages filled
    | none =>
      rw [inQueue, Option.none_or] at found
      have fresh := noneStalled (before.fills.none inQueue)
      rw [← unstalled.enqueued] at fresh
      rcases toB.first found with still | filled
      · exact last.fills.messages (firstArriving f fresh still)
      · exact toEnd.messages filled

theorem wakeup_relieved {cfg : Config} {s : Net} (relieved : ∀ l ∈ cfg.inLinks (.ni n), Relieved n t s l) :
    ∀ l ∈ cfg.inLinks (.ni n), ∀ g ∈ (wakeup cfg n t s).flow.stallQueue l,
      0 < ((wakeup cfg n t s).outNode (n, g.vnet)).messages := by
  let sent := (cfg.outLinks (.ni n)).foldl (scheduleOutputPort cfg n t)
    ((List.range cfg.numVnets).foldl (flitisizeMessage cfg n t) s)
  have flitisized : ((List.range cfg.numVnets).foldl (flitisizeMessage cfg n t) s).ejection = s.ejection :=
    (flitisizeMessages_updates n t _ s).ejection fun _ ⟨vnet, _, same⟩ => Or.inr (Or.inr ⟨n, vnet, same⟩)
  have scheduled : sent.ejection = _ := (scheduleOutputPorts_updates n t _ _).ejection fun _ same => Or.inl same
  rw [flitisized] at scheduled
  let ejected := (cfg.inLinks (.ni n)).foldl (checkInLink n t) ((cfg.inLinks (.ni n)).foldl (checkStallQueue n t) sent)
  have credited : (wakeup cfg n t s).ejection = ejected.ejection :=
    (credits_updates n t _).ejection fun _ same => Or.inr (Or.inl same)
  intro l listed g stalled
  have outNode : sent.outNode = s.outNode := congrArg EjectionState.outNode scheduled
  have queue : sent.flow.stallQueue = s.flow.stallQueue := congrArg EjectionState.stallQueue scheduled
  have link : sent.flow.linkBuffer = s.flow.linkBuffer := congrArg EjectionState.linkBuffer scheduled
  have waiting : candidates sent t l = candidates s t l := by
    unfold candidates arriving
    rw [queue, link]
  have finalQueue : (wakeup cfg n t s).flow.stallQueue = ejected.flow.stallQueue :=
    congrArg EjectionState.stallQueue credited
  have finalNode : (wakeup cfg n t s).outNode = ejected.outNode := congrArg EjectionState.outNode credited
  obtain ⟨fills, among, first⟩ : Fills n t sent ejected ∧ _ ∧ _ := eject_port listed sent rfl
  rw [finalQueue] at stalled
  rw [finalNode]
  rw [waiting] at among first
  rcases relieved l listed g (among stalled) with filled | same
  · exact fills.messages (by rwa [outNode])
  · obtain ⟨f, found, sameVnet⟩ := Option.map_eq_some_iff.mp same
    rw [← sameVnet]
    refine first f ?_
    unfold slotAvailable at found ⊢
    rw [outNode]
    exact found

end NetworkInterface

open NetworkInterface in
theorem stalled_not_stranded {cfg : Config} {events : List Event} {n t : Nat}
    (running : (Net.run cfg events).flow.faults = []) (later : (Net.run cfg events).flow.due (.ni n) ≤ t)
    (relieved : (∃ time ∈ (Net.run cfg events).pending (.ni n), t < time) ∨
      ∀ l ∈ cfg.inLinks (.ni n), Relieved n t (Net.run cfg events) l) :
    ∀ l ∈ cfg.inLinks (.ni n), ∀ g ∈ (Net.run cfg (events ++ [.ni n t])).flow.stallQueue l,
      (∃ time ∈ (Net.run cfg (events ++ [.ni n t])).pending (.ni n), t < time) ∨
        0 < ((Net.run cfg (events ++ [.ni n t])).outNode (n, g.vnet)).messages ∧
          (Net.run cfg (events ++ [.ni n t])).dequeueCallback (n, g.vnet) = true := by
  intro l listed g stalled
  have counted := Net.run_counted cfg n (events ++ [.ni n t])
  have result : Net.run cfg (events ++ [.ni n t]) = wakeup cfg n t ((Net.run cfg events).woken (.ni n) t) := by
    rw [Net.run_concat, Net.step, if_pos running]
    dsimp only [Net.wakeAt]
    rw [if_pos later]
  rcases relieved with ⟨time, requested, future⟩ | relieved
  · left
    refine ⟨time, ?_, future⟩
    rw [result]
    refine (wakeup_updates n t _).pending (fun touched => ?_) ?_
    · simp [Serving, Delivering] at touched
    · simp only [Net.woken, update_self, mem_filter, bne_iff_ne]
      exact ⟨requested, by omega⟩
  · right
    refine ⟨?_, counted.registered (Config.mem_inLinks.mp listed) stalled⟩
    rw [result] at stalled ⊢
    exact wakeup_relieved (s := (Net.run cfg events).woken (.ni n) t) relieved l listed g stalled

def noDraws : Nat → Draws := fun _ => {}

def toSecond (arrival : Nat) : Message := ⟨64, NetDest.empty.add ⟨0, 1⟩, arrival⟩

/-- Interface 0 sends two messages to interface 1 on virtual network 0. The first one is enqueued. -/
def twoMessages : List Event :=
  [.protocol 0 0 [toSecond 0, toSecond 0], .ni 0 0, .link 0 500, .ni 0 500, .router 0 1000 noDraws, .link 0 1000,
    .router 0 1500 noDraws, .link 3 1500, .creditLink 0 1500, .router 1 2000 noDraws, .link 3 2000,
    .creditLink 0 2000, .ni 0 2000, .router 1 2500 noDraws, .link 4 2500, .creditLink 3 2500,
    .router 0 3000 noDraws, .link 4 3000, .creditLink 3 3000, .ni 1 3000, .router 0 3500 noDraws,
    .creditLink 4 3500]

theorem stalled_not_stranded_full :
    (Net.run twoVnets (twoMessages ++ [.ni 1 3500])).flow.stallQueue 4 ≠ [] ∧
      ∀ l ∈ twoVnets.inLinks (.ni 1), ∀ g ∈ (Net.run twoVnets (twoMessages ++ [.ni 1 3500])).flow.stallQueue l,
        (∃ time ∈ (Net.run twoVnets (twoMessages ++ [.ni 1 3500])).pending (.ni 1), 3500 < time) ∨
          0 < ((Net.run twoVnets (twoMessages ++ [.ni 1 3500])).outNode (1, g.vnet)).messages ∧
            (Net.run twoVnets (twoMessages ++ [.ni 1 3500])).dequeueCallback (1, g.vnet) = true := by
  have facts : (Net.run twoVnets (twoMessages ++ [.ni 1 3500])).flow.stallQueue 4 ≠ [] ∧
      (Net.run twoVnets twoMessages).flow.faults = [] ∧ (Net.run twoVnets twoMessages).flow.due (.ni 1) ≤ 3500 ∧
      ∀ l ∈ twoVnets.inLinks (.ni 1), NetworkInterface.Relieved 1 3500 (Net.run twoVnets twoMessages) l := by
    unfold NetworkInterface.Relieved
    decide +kernel
  exact ⟨facts.1, stalled_not_stranded facts.2.1 facts.2.2.1 (Or.inr facts.2.2.2)⟩

/-- Then a message for virtual network 1 arrives in the cycle in which the interface is called back. -/
def strandingRun : List Event :=
  [.protocol 0 0 [toSecond 0, toSecond 0], .ni 0 0, .link 0 500, .ni 0 500, .router 0 1000 noDraws, .link 0 1000,
    .router 0 1500 noDraws, .link 3 1500, .creditLink 0 1500, .router 1 2000 noDraws, .link 3 2000,
    .creditLink 0 2000, .ni 0 2000, .protocol 0 1 [toSecond 2500], .ni 0 2500, .router 1 2500 noDraws,
    .link 4 2500, .creditLink 3 2500, .router 0 3000 noDraws, .link 0 3000, .link 4 3000, .creditLink 3 3000,
    .ni 1 3000, .router 0 3500 noDraws, .creditLink 4 3500, .ni 1 3500, .router 1 4000 noDraws, .link 3 4000,
    .creditLink 0 4000, .router 1 4500 noDraws, .ni 0 4500, .drain 1 0 5000 .dequeue, .link 4 5000,
    .creditLink 3 5000, .router 0 5500 noDraws]

/-- The port enqueues the flit of virtual network 0 first. The other one is stalled although its buffer is empty, and
nothing wakes the interface for it. -/
theorem stalled_stranded :
    (Net.run twoVnets strandingRun).flow.due (.ni 1) ≤ 5500 ∧
      (Net.run twoVnets strandingRun).pending (.ni 1) = [5500, 5500] ∧
      (Net.run twoVnets (strandingRun ++ [.ni 1 5500])).flow.faults = [] ∧
      ((Net.run twoVnets (strandingRun ++ [.ni 1 5500])).flow.stallQueue 4).map Flit.vnet = [1] ∧
      (Net.run twoVnets (strandingRun ++ [.ni 1 5500])).pending (.ni 1) = [] ∧
      ((Net.run twoVnets (strandingRun ++ [.ni 1 5500])).outNode (1, 1)).messages = 0 := by
  decide +kernel

end Resister.Garnet
