import Resister.Garnet.RouterRefinement

/-!
# Wakeups of network interfaces as sequences of actions

The loops of `NetworkInterface::wakeup`, and with them the refinement of whole events: whatever
happens in a run, the state of flow control changes by a wakeup and a sequence of actions.
-/

namespace Resister.Garnet

open List

namespace NetworkInterface

variable {cfg : Config} {R : Nat → Flit → RouteInfo → Nat → Prop} {n t : Nat}

theorem mem_personalDest {counts : List Nat} {m x : MachineID} (listed : m ∈ allMachines counts) :
    x ∈ (personalDest counts (m.nodeID counts)).elems ↔ x = m := by
  obtain ⟨type, num⟩ := mem_allMachines.mp listed
  have next := machineTypeBaseNumber_succ type
  have number : m.nodeID counts = machineTypeBaseNumber counts m.type + m.num := rfl
  have found : (List.range counts.length).find? (fun k =>
      decide (machineTypeBaseNumber counts k ≤ m.nodeID counts) &&
        decide (m.nodeID counts < machineTypeBaseNumber counts (k + 1))) = some m.type := by
    rw [List.find?_range_eq_some]
    refine ⟨?_, mem_range.mpr type, fun k earlier => ?_⟩
    · rw [Bool.and_eq_true, decide_eq_true_eq, decide_eq_true_eq, number]
      omega
    · have mono : machineTypeBaseNumber counts (k + 1) ≤ machineTypeBaseNumber counts m.type :=
        machineTypeBaseNumber_mono earlier
      simp only [Bool.not_eq_true', Bool.and_eq_false_imp, decide_eq_true_eq, decide_eq_false_iff_not]
      omega
  unfold personalDest
  rw [found]
  simp [NetDest.add, NetDest.empty, number]

theorem mem_netDest {destination : NetDest} {dest : Nat} {x : MachineID}
    (valid : ∀ m ∈ destination.elems, m ∈ allMachines cfg.machineCounts) {multicast : Bool}
    (single : multicast = false → destination.getAllDest cfg.machineCounts = [dest])
    (present : ∃ m ∈ allMachines cfg.machineCounts, m.nodeID cfg.machineCounts = dest) :
    x ∈ (if multicast then personalDest cfg.machineCounts dest else destination).elems ↔
      x ∈ allMachines cfg.machineCounts ∧ x.nodeID cfg.machineCounts = dest := by
  obtain ⟨m, listed, rfl⟩ := present
  cases multicast with
  | true =>
    simp only [if_true, mem_personalDest listed]
    exact ⟨by rintro rfl; exact ⟨listed, rfl⟩, fun ⟨other, same⟩ => nodeID_inj other listed same⟩
  | false =>
    have only := single rfl
    have inside : m ∈ destination.elems := by
      have found : m.nodeID cfg.machineCounts ∈ destination.getAllDest cfg.machineCounts := by simp [only]
      obtain ⟨other, otherListed, member, same⟩ := NetDest.mem_getAllDest.mp found
      exact nodeID_inj otherListed listed same ▸ member
    simp only [Bool.false_eq_true, if_false]
    constructor
    · intro member
      have found := NetDest.mem_getAllDest.mpr ⟨x, valid x member, member, rfl⟩
      rw [only, mem_singleton] at found
      exact ⟨valid x member, found⟩
    · rintro ⟨other, same⟩
      exact nodeID_inj other listed same ▸ inside

theorem calculateVC_acts (n t vnet l attempts : Nat) (s : Net)
    (pointer : ∀ p, s.flow.vcAllocator p < cfg.vcsPerVnet) :
    Acts cfg R s.flow (calculateVC cfg n vnet l t attempts s).1.flow ∧
      (calculateVC cfg n vnet l t attempts s).1.flow.niOutVcs = s.flow.niOutVcs ∧
      ∀ vc, (calculateVC cfg n vnet l t attempts s).2 = some vc → cfg.vnetOf vc = vnet ∧
        ((calculateVC cfg n vnet l t attempts s).1.flow.outVcState (l, vc)).state = .idle := by
  induction attempts generalizing s with
  | zero =>
    unfold calculateVC
    dsimp only
    split
    · exact ⟨.single (.fail rfl), rfl, by simp⟩
    · exact ⟨.refl, rfl, by simp⟩
  | succ attempts ih =>
    have below := pointer (n, vnet)
    have next : (if s.flow.vcAllocator (n, vnet) + 1 = cfg.vcsPerVnet then 0
        else s.flow.vcAllocator (n, vnet) + 1) < cfg.vcsPerVnet := by
      split <;> omega
    have moved : Acts cfg R s.flow (s.flow.setAllocator (n, vnet) _) := .single (.allocator next)
    unfold calculateVC
    dsimp only
    split
    · rename_i idle
      refine ⟨moved, rfl, fun vc found => ?_⟩
      cases found
      refine ⟨Config.mem_vcsOf.mp ?_, ?_⟩
      · exact mem_map_of_mem (mem_range.mpr below)
      · simp only [OutVcState.isInState, Bool.and_eq_true, beq_iff_eq] at idle
        exact idle.1
    · obtain ⟨acts, queues, found⟩ := ih { s with flow := s.flow.setAllocator (n, vnet) _ } (fun p => by
        by_cases same : p = (n, vnet)
        · simpa [Flow.setAllocator, same] using next
        · simpa [Flow.setAllocator, same] using pointer p)
      exact ⟨moved.trans acts, queues, found⟩

/-- What waits in the network interface is older than this wakeup, except where `Done` holds of its
virtual network and destination. -/
def Early (cfg : Config) (n t : Nat) (s : Flow) (done : Nat → Nat → Prop) : Prop :=
  ∀ c, cfg.source c.1 = some (.ni n) → ∀ f ∈ s.niOutVcs c, done f.vnet f.route.destNi ∨ f.time < t

theorem flitisizeLoop_acts {vnet l : Nat} (size : Nat) (multicast : Bool) (port : cfg.getOutportForVnet n vnet = some l)
    {done : Nat → Nat → Prop} {dests : List Nat} {remaining : NetDest} {s : Net}
    (now : s.flow.due (.ni n) = t + 1) (prepared : s.flow.Prepared cfg) (early : Early cfg n t s.flow done)
    (new : ∀ d ∈ dests, ¬ done vnet d) (distinct : dests.Nodup)
    (existing : ∀ d ∈ dests, ∃ m ∈ allMachines cfg.machineCounts, m.nodeID cfg.machineCounts = d)
    (valid : ∀ m ∈ remaining.elems, m ∈ allMachines cfg.machineCounts) (single : multicast = false → ∀ d ∈ dests,
      dests = [d] ∧ remaining.getAllDest cfg.machineCounts = [d]) :
    Acts cfg R s.flow (flitisizeLoop cfg n vnet l t size multicast dests remaining s).1.flow ∧
      Early cfg n t (flitisizeLoop cfg n vnet l t size multicast dests remaining s).1.flow
        (fun v d => done v d ∨ v = vnet) ∧
      ∀ m ∈ (flitisizeLoop cfg n vnet l t size multicast dests remaining s).2.1.elems,
        m ∈ allMachines cfg.machineCounts := by
  have weaken : ∀ {s : Flow} {p q : Nat → Nat → Prop}, Early cfg n t s p → (∀ v d, p v d → q v d) →
      Early cfg n t s q := fun early weaker c source f waiting =>
    (early c source f waiting).imp_left (weaker _ _)
  induction dests generalizing done remaining s with
  | nil => exact ⟨.refl, weaken early fun v d => Or.inl, valid⟩
  | cons dest dests ih =>
    obtain ⟨searched, queues, found⟩ :=
      calculateVC_acts (R := R) n t vnet l cfg.vcsPerVnet s prepared.pointer
    have stillEarly : Early cfg n t (calculateVC cfg n vnet l t cfg.vcsPerVnet s).1.flow done := by
      unfold Early
      rw [queues]
      exact early
    unfold flitisizeLoop
    split
    · rename_i result
      rw [result] at searched stillEarly
      exact ⟨searched, weaken stillEarly fun v d => Or.inl, valid⟩
    · rename_i result _
      rw [result] at searched stillEarly
      exact ⟨searched.trans (.single (.fail rfl)), weaken stillEarly fun v d => Or.inl, valid⟩
    · rename_i after vc destLink result destPort
      rw [result] at searched stillEarly found
      obtain ⟨vnetOf, idle⟩ := found vc rfl
      have source := Config.getOutportForVnet_source port
      have searchedNow : after.flow.due (.ni n) = t + 1 := by
        rw [searched.due_eq]
        exact now
      let route := routeTo cfg n vnet l
        (if multicast then personalDest cfg.machineCounts dest else remaining) dest destLink
      have start : StartsAt cfg n l vc route :=
        { port := by rw [vnetOf]; exact port
          vnet := vnetOf.symm
          srcNi := rfl
          hops := rfl
          untagged := rfl
          netDest := fun m => mem_netDest valid (fun unicast => (single unicast dest mem_cons_self).2)
            (existing dest mem_cons_self)
          destRouter := ⟨destLink, destPort, rfl⟩ }
      let sent := after.flow.inject n t (l, vc) (packetOf route size after.flow.clones)
        (packetFlits route vc size after.flow.clones t)
      have injected : Act cfg R after.flow sent :=
        .inject searchedNow start idle fun other f waiting sameVnet sameDest => by
          rcases stillEarly (l, other) source f waiting with old | older
          · rw [sameVnet, sameDest] at old
            exact (new dest mem_cons_self old).elim
          · exact older
      have afterPrepared := injected.prepared (searched.induct prepared fun act => act.prepared)
      have distinctTail := nodup_cons.mp distinct
      have sentEarly : Early cfg n t sent (fun v d => done v d ∨ v = vnet ∧ d = dest) := by
        intro c fromNi f waiting
        by_cases same : c = (l, vc)
        · subst same
          simp only [sent, Flow.inject, Function.update_self, mem_append] at waiting
          rcases waiting with waiting | created
          · exact (stillEarly _ fromNi f waiting).imp_left Or.inl
          · obtain ⟨i, -, rfl⟩ := mem_map.mp created
            exact Or.inl (Or.inr ⟨rfl, rfl⟩)
        · exact (stillEarly c fromNi f (by simpa [sent, Flow.inject, same] using waiting)).imp_left Or.inl
      obtain ⟨acts, late, kept⟩ := @ih (fun v d => done v d ∨ v = vnet ∧ d = dest)
        (if multicast then remaining.removeNetDest (personalDest cfg.machineCounts dest) else remaining)
        { after with flow := sent } searchedNow afterPrepared sentEarly
        (fun d later old => old.elim (new d (mem_cons_of_mem _ later))
          fun same => distinctTail.1 (same.2 ▸ later))
        distinctTail.2 (fun d later => existing d (mem_cons_of_mem _ later))
        (fun m member => by
          split at member
          · exact valid m (mem_of_mem_filter member)
          · exact valid m member)
        (fun unicast d later => by
          have only := (single unicast dest mem_cons_self).1
          simp only [List.cons.injEq, true_and] at only
          simp [only] at later)
      exact ⟨(searched.trans (.single injected)).trans acts,
        weaken late fun v d old => old.elim (fun old => old.imp_right And.left) Or.inr, kept⟩

theorem valid_iff {msg : Message} :
    msg.valid cfg = true ↔ ∀ m ∈ msg.destination.elems, m ∈ allMachines cfg.machineCounts := by
  simp [Message.valid]

theorem flitisizeMessage_acts {vnet : Nat} {done : Nat → Prop} {s : Net} (now : s.flow.due (.ni n) = t + 1)
    (prepared : s.flow.Prepared cfg) (early : Early cfg n t s.flow fun v _ => done v) (new : ¬ done vnet) :
    Acts cfg R s.flow (flitisizeMessage cfg n t s vnet).flow ∧
      Early cfg n t (flitisizeMessage cfg n t s vnet).flow fun v _ => done v ∨ v = vnet := by
  have unchanged : Early cfg n t s.flow fun v _ => done v ∨ v = vnet :=
    fun c source f waiting => (early c source f waiting).imp_left Or.inl
  unfold flitisizeMessage
  split
  · exact ⟨.refl, unchanged⟩
  · rename_i msg rest queue
    have validQueue : ∀ other ∈ msg :: rest, other.valid cfg = true :=
      fun other present => prepared.valid (n, vnet) other (queue ▸ present)
    have valid := valid_iff.mp (validQueue msg mem_cons_self)
    split
    · split
      · exact ⟨.single (.fail rfl), unchanged⟩
      · rename_i l port
        dsimp only
        generalize numFlits msg.msgSize ((cfg.links[l]?.map Link.bitWidth).getD 0) = size
        obtain ⟨acts, late, kept⟩ := flitisizeLoop_acts (R := R) (t := t) (s := s) size
          (decide (1 < (msg.destination.getAllDest cfg.machineCounts).length)) port now prepared early
          (fun _ _ => new) (msg.destination.nodup_getAllDest cfg.machineCounts)
          (fun d present => by
            obtain ⟨m, listed, -, same⟩ := NetDest.mem_getAllDest.mp present
            exact ⟨m, listed, same⟩) valid
          (fun unicast d present => by
            have short : (msg.destination.getAllDest cfg.machineCounts).length ≤ 1 := by
              simpa using unicast
            obtain ⟨x, only⟩ := length_eq_one_iff.mp
              (Nat.le_antisymm short (length_pos_of_mem present))
            have same : x = d := by simpa [only, eq_comm] using present
            subst same
            exact ⟨only, only⟩)
        refine ⟨acts.trans (.single (.messages ?_)), late⟩
        split
        · exact fun other present => validQueue other (mem_cons_of_mem _ present)
        · intro other present
          rcases mem_cons.mp present with rfl | later
          · exact valid_iff.mpr kept
          · exact validQueue other (mem_cons_of_mem _ later)
    · exact ⟨.refl, unchanged⟩

theorem flitisizeMessages_acts {vnets : List Nat} (distinct : vnets.Nodup) {done : Nat → Prop} {s : Net}
    (now : s.flow.due (.ni n) = t + 1) (prepared : s.flow.Prepared cfg)
    (early : Early cfg n t s.flow fun v _ => done v) (new : ∀ v ∈ vnets, ¬ done v) :
    Acts cfg R s.flow (vnets.foldl (flitisizeMessage cfg n t) s).flow := by
  induction vnets generalizing done s with
  | nil => exact .refl
  | cons vnet vnets ih =>
    obtain ⟨acts, late⟩ := flitisizeMessage_acts (R := R) now prepared early (new vnet mem_cons_self)
    have distinctTail := nodup_cons.mp distinct
    refine acts.trans (ih distinctTail.2 (by rw [acts.due_eq]; exact now)
      (acts.induct prepared fun act => act.prepared) late fun v later old => ?_)
    rcases old with old | rfl
    · exact new v (mem_cons_of_mem _ later) old
    · exact distinctTail.1 later

theorem scheduleOutputPort_acts (l : Nat) (s : Net) (now : s.flow.due (.ni n) = t + 1) :
    Acts cfg R s.flow (scheduleOutputPort cfg n t s l).flow := by
  unfold scheduleOutputPort
  dsimp only
  split
  · exact .refl
  · rename_i out vc found
    split
    · exact .refl
    · rename_i f rest top
      obtain ⟨v, -, chosen⟩ := exists_of_findSome?_eq_some found
      obtain ⟨o, chosen, same⟩ := Option.map_eq_some_iff.mp chosen
      cases same
      unfold candidate at chosen
      split at chosen
      · obtain ⟨port, allowed⟩ := Option.filter_eq_some_iff.mp chosen
        simp only [Bool.and_eq_true, OutVcState.hasCredit, decide_eq_true_eq, Bool.not_eq_true',
          Bool.and_eq_false_imp] at allowed
        exact .single (.send port now top allowed.1.2 allowed.2 _)
      · cases chosen

/-- Nothing that is stalled at a port can be enqueued in this wakeup, unless the port has already
enqueued a message. -/
def Blocked (n t : Nat) (s : Net) (l : Nat) : Prop :=
  s.messageEnqueuedThisCycle l = true ∨ ∀ g ∈ s.flow.stallQueue l, slotAvailable s n g.vnet t = false

theorem slotAvailable_enqueue {s : Net} (vnet : Nat) {other : Nat}
    (available : slotAvailable (enqueue n vnet t s) n other t = true) : slotAvailable s n other t = true := by
  unfold slotAvailable enqueue at available
  by_cases same : other = vnet
  · subst same
    simp only [Function.update_self] at available
    exact MessageBuffer.areNSlotsAvailable_of_enqueue available
  · simpa [slotAvailable, same] using available

theorem checkStallQueue_acts {l : Nat} (sink : cfg.sink l = some (.ni n)) (s : Net) :
    Acts cfg R s.flow (checkStallQueue n t s l).flow ∧ Blocked n t (checkStallQueue n t s l) l ∧
      ∀ other, other ≠ l → Blocked n t s other → Blocked n t (checkStallQueue n t s l) other := by
  unfold checkStallQueue
  dsimp only
  have split := (s.flow.stallQueue l).takeWhile_append_dropWhile
    (p := fun f => !slotAvailable s n f.vnet t)
  split
  · rename_i none
    rw [none, append_nil] at split
    refine ⟨.refl, Or.inr fun g stalled => ?_, fun other different blocked => ?_⟩
    · have waits := mem_takeWhile_imp (split.symm ▸ stalled)
      simpa [slotAvailable] using waits
    · rcases blocked with enqueued | blocked
      · exact Or.inl (by simpa [different] using enqueued)
      · exact Or.inr blocked
  · rename_i f rest found
    have available : slotAvailable s n f.vnet t = true := by
      have head := List.head?_dropWhile_not (fun f => !slotAvailable s n f.vnet t) (s.flow.stallQueue l)
      rw [found] at head
      simpa using head
    rw [found] at split
    refine ⟨.single (.unstall sink split.symm (fun g earlier same => ?_) t), Or.inl ?_,
      fun other different blocked => ?_⟩
    · have waits := mem_takeWhile_imp earlier
      rw [same, available] at waits
      cases waits
    · simp
    · rcases blocked with enqueued | blocked
      · exact Or.inl (by simpa [different] using enqueued)
      · refine Or.inr fun g stalled => ?_
        have waits := blocked g (by simpa [Flow.eject, Flow.unstall, different] using stalled)
        by_contra free
        have before : slotAvailable s n g.vnet t = true :=
          slotAvailable_enqueue f.vnet (by simpa [slotAvailable, enqueue] using free)
        rw [waits] at before
        cases before

theorem checkInLink_acts {l : Nat} (sink : cfg.sink l = some (.ni n)) (s : Net) (blocked : Blocked n t s l) :
    Acts cfg R s.flow (checkInLink n t s l).flow ∧
      ∀ other, Blocked n t s other → Blocked n t (checkInLink n t s l) other := by
  have keep : ∀ {s : Net} {other vnet : Nat} (flow : Flow), flow.stallQueue = s.flow.stallQueue →
      Blocked n t s other → Blocked n t { enqueue n vnet t s with flow := flow } other := by
    intro s other vnet flow same blocked
    rcases blocked with enqueued | blocked
    · exact Or.inl enqueued
    · refine Or.inr fun g stalled => ?_
      have waits := blocked g (same ▸ stalled)
      by_contra free
      have before : slotAvailable s n g.vnet t = true :=
        slotAvailable_enqueue vnet (by simpa [slotAvailable, enqueue] using free)
      rw [waits] at before
      cases before
  unfold checkInLink
  split
  · exact ⟨.refl, fun _ => id⟩
  · rename_i f rest top
    split
    · split
      · rename_i tail
        split
        · rename_i accepted
          simp only [Bool.and_eq_true, Bool.not_eq_true'] at accepted
          refine ⟨.single (.eject sink top (fun _ g stalled same => ?_) t), fun other => keep _ rfl⟩
          rcases blocked with enqueued | blocked
          · rw [enqueued] at accepted
            exact absurd accepted.1 (by simp)
          · have waits := blocked g stalled
            rw [same, accepted.2] at waits
            cases waits
        · rename_i refused
          refine ⟨.single (.stall sink top tail), fun other before => ?_⟩
          rcases before with enqueued | before
          · exact Or.inl enqueued
          · by_cases same : other = l
            · subst same
              simp only [Bool.and_eq_true, Bool.not_eq_true', not_and, Bool.not_eq_true] at refused
              cases enqueued : s.messageEnqueuedThisCycle other with
              | true => exact Or.inl enqueued
              | false =>
                refine Or.inr fun g stalled => ?_
                simp only [Flow.stall, Function.update_self, mem_append, mem_singleton] at stalled
                rcases stalled with stalled | rfl
                · exact before g stalled
                · exact refused enqueued
            · refine Or.inr fun g stalled => before g ?_
              simpa [Flow.stall, same] using stalled
      · rename_i body
        refine ⟨.single (.eject sink top (fun tail => (body tail).elim) t), fun other before => ?_⟩
        exact before
    · exact ⟨.refl, fun _ => id⟩

theorem checkStallQueues_acts {ports : List Nat} (distinct : ports.Nodup)
    (sinks : ∀ l ∈ ports, cfg.sink l = some (.ni n)) (s : Net) :
    Acts cfg R s.flow (ports.foldl (checkStallQueue n t) s).flow ∧
      ∀ l, l ∈ ports ∨ Blocked n t s l → Blocked n t (ports.foldl (checkStallQueue n t) s) l := by
  induction ports generalizing s with
  | nil => exact ⟨.refl, fun l blocked => blocked.resolve_left (by simp)⟩
  | cons port ports ih =>
    obtain ⟨first, blocked, others⟩ :=
      checkStallQueue_acts (R := R) (t := t) (sinks port mem_cons_self) s
    obtain ⟨rest, last⟩ := ih (nodup_cons.mp distinct).2
      (fun l later => sinks l (mem_cons_of_mem _ later)) (checkStallQueue n t s port)
    refine ⟨first.trans rest, fun l before => last l ?_⟩
    by_cases same : l = port
    · exact Or.inr (same ▸ blocked)
    · rcases before with listed | before
      · exact Or.inl ((mem_cons.mp listed).resolve_left same)
      · exact Or.inr (others l same before)

theorem wakeup_acts {s : Net} (now : s.flow.due (.ni n) = t + 1) (prepared : s.flow.Prepared cfg)
    (early : ∀ c, cfg.source c.1 = some (.ni n) → ∀ f ∈ s.flow.niOutVcs c, f.time < t) :
    Acts cfg R s.flow (wakeup cfg n t s).flow := by
  have nothingDone : Early cfg n t s.flow fun _ _ => False :=
    fun c source f waiting => Or.inr (early c source f waiting)
  have flitisized : Acts cfg R s.flow ((List.range cfg.numVnets).foldl (flitisizeMessage cfg n t) s).flow :=
    flitisizeMessages_acts nodup_range now prepared nothingDone (by simp)
  have scheduled := flitisized.trans (foldl_acts (fun s => s.flow.due (.ni n) = t + 1) (cfg.outLinks (.ni n))
    (fun l _ s now => ⟨scheduleOutputPort_acts l s now, by
      rw [(scheduleOutputPort_acts (R := R) l s now).due_eq]
      exact now⟩) (by rw [flitisized.due_eq]; exact now)).1
  have sinks : ∀ l ∈ cfg.inLinks (.ni n), cfg.sink l = some (.ni n) := fun l => Config.mem_inLinks.mp
  obtain ⟨unstalled, blocked⟩ := checkStallQueues_acts (R := R) (t := t) (Config.nodup_inLinks _) sinks
    ((cfg.outLinks (.ni n)).foldl (scheduleOutputPort cfg n t)
      ((List.range cfg.numVnets).foldl (flitisizeMessage cfg n t) s))
  have ejected := (foldl_acts (R := R) (fun s => ∀ l ∈ cfg.inLinks (.ni n), Blocked n t s l)
    (cfg.inLinks (.ni n)) (fun l listed s blocked => by
      obtain ⟨acts, keep⟩ := checkInLink_acts (R := R) (t := t) (sinks l listed) s (blocked l listed)
      exact ⟨acts, fun other present => keep other (blocked other present)⟩)
    (fun l listed => blocked l (Or.inl listed))).1
  have credited : ∀ s : Net, Acts cfg R s.flow ((cfg.outLinks (.ni n)).foldl (checkCreditLink t) s).flow :=
    fun s => foldl_acts_plain _ fun l _ s => checkCreditLink_acts l t s
  have rescheduled : ∀ s : Net, Acts cfg R s.flow ((cfg.inLinks (.ni n)).foldl (scheduleCredits cfg n t) s).flow :=
    fun s => foldl_acts_plain _ fun l _ s => by
      unfold scheduleCredits
      rw [Net.scheduleIf_flow]
      exact .refl
  unfold wakeup checkReschedule
  rw [Net.scheduleIf_flow]
  exact scheduled.trans (unstalled.trans (ejected.trans ((credited _).trans (rescheduled _))))

end NetworkInterface

/-- The states of flow control that wakeups and actions lead to. -/
inductive Reachable (cfg : Config) (R : Nat → Flit → RouteInfo → Nat → Prop) : Flow → Prop where
  | init : Reachable cfg R (.init cfg)
  | wake {s : Flow} {c : Component} {t : Nat} (before : Reachable cfg R s) (later : s.due c ≤ t) :
      Reachable cfg R (s.wake c t)
  | act {s s' : Flow} (before : Reachable cfg R s) (act : Act cfg R s s') : Reachable cfg R s'

section Runs

variable {cfg : Config} {R R' : Nat → Flit → RouteInfo → Nat → Prop}

theorem Reachable.acts {s s' : Flow} (before : Reachable cfg R s) (acts : Acts cfg R s s') :
    Reachable cfg R s' :=
  acts.induct before fun act reached => reached.act act

theorem Reachable.prepared {s : Flow} (reached : Reachable cfg R s) : s.Prepared cfg := by
  induction reached with
  | init => exact .init
  | wake _ later ih => exact ih.wake later
  | act _ act ih => exact act.prepared ih

namespace Net

def Decides (cfg : Config) (R : Nat → Flit → RouteInfo → Nat → Prop) (s : Net) : Event → Prop
  | .router r t draws =>
    s.flow.due (.router r) ≤ t →
      InputUnit.Decide cfg R r t draws (cfg.inLinks (.router r)).zipIdx (s.woken (.router r) t)
  | _ => True

theorem wakeAt_reachable {s : Net} {c : Component} {t : Nat} {body : Net → Net} (before : Reachable cfg R s.flow)
    (acts : s.flow.due c ≤ t → Acts cfg R (s.woken c t).flow (body (s.woken c t)).flow) :
    Reachable cfg R (s.wakeAt c t body).flow := by
  unfold wakeAt
  split
  · rename_i later
    exact (before.wake later).acts (acts later)
  · exact before

theorem step_reachable {s : Net} {e : Event} (before : Reachable cfg R s.flow) (decided : Decides cfg R s e) :
    Reachable cfg R (step cfg s e).flow := by
  have now : ∀ c t, (s.woken c t).flow.due c = t + 1 := fun c t => Function.update_self ..
  unfold step
  split
  · cases e with
    | link l t => exact wakeAt_reachable before fun _ => linkWakeup_acts l t _
    | creditLink l t => exact wakeAt_reachable before fun _ => creditLinkWakeup_acts l t _
    | router r t draws =>
      refine wakeAt_reachable before fun later =>
        routerWakeup_acts (now _ t) (fun c sink f buffered => ?_) (decided later)
      exact Nat.lt_of_lt_of_le (before.prepared.received r c sink f buffered)
        (Nat.add_le_add_right later _)
    | outputUnit l t => exact wakeAt_reachable before fun _ => outputUnitWakeup_acts l t _
    | ni n t =>
      refine wakeAt_reachable before fun later =>
        NetworkInterface.wakeup_acts (now _ t) (before.wake later).prepared fun c source f waiting => ?_
      exact Nat.lt_of_lt_of_le (before.prepared.early n c source f waiting) later
    | protocol n vnet queue =>
      dsimp only
      split
      · rename_i valid
        exact before.act (.messages (all_eq_true.mp valid))
      · exact before
    | drain n vnet t op =>
      dsimp only
      split
      · rw [scheduleIf_flow]
        exact before
      · exact before
  · exact before

def Follows (cfg : Config) (R : Nat → Flit → RouteInfo → Nat → Prop) (events : List Event) : Prop :=
  ∀ past e, past ++ [e] <+: events → Decides cfg R (run cfg past) e

theorem run_reachable {events : List Event} (follows : Follows cfg R events) :
    Reachable cfg R (run cfg events).flow := by
  induction events using List.reverseRecOn with
  | nil => exact .init
  | append_singleton past e ih =>
    rw [run_concat]
    exact step_reachable
      (ih fun earlier e' before => follows earlier e' (before.trans (prefix_append ..)))
      (follows past e prefix_rfl)

theorem decide_of_resolve {r t : Nat} {draws : Nat → Draws} {ports : List (Nat × Nat)}
    (decided : ∀ port ∈ ports, ∀ f s after route outport, f.isHead = true →
      InputUnit.resolve cfg r port.2 port.1 t (draws port.2) f s = .ok (after, route, outport) →
        R port.1 f route outport) (s : Net) : InputUnit.Decide cfg R r t draws ports s := by
  induction ports generalizing s with
  | nil => trivial
  | cons port ports ih =>
    refine ⟨fun tdma f rest after route outport _ head resolved => ?_,
      ih (fun later present => decided later (mem_cons_of_mem _ present)) _⟩
    exact decided port mem_cons_self f _ after route outport head resolved

theorem follows_of_resolve (decided : ∀ {r inport l t draws f s after route outport},
    (cfg.inLinks (.router r))[inport]? = some l → f.isHead = true →
      InputUnit.resolve cfg r inport l t draws f s = .ok (after, route, outport) → R l f route outport)
    (events : List Event) : Follows cfg R events := by
  intro past e _
  cases e with
  | router r t draws =>
    refine fun _ => decide_of_resolve (fun port listed f s after route outport head resolved => ?_) _
    exact decided (mem_zipIdx_iff_getElem?.mp listed) head resolved
  | _ => trivial

theorem follows_true (events : List Event) : Follows cfg (fun _ _ _ _ => True) events :=
  follows_of_resolve (fun _ _ _ => trivial) events

end Net

end Runs

end Resister.Garnet
