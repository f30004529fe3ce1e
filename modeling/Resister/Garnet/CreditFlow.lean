import Resister.Garnet.Hops

/-!
# Credit conservation

The invariant of flow control: which packet is on each virtual channel of each link and how far it
has come, and how the two channels that a packet occupies at a router fit together.
-/

namespace Resister.Garnet

open Function (update update_self update_of_ne)
open Library List

abbrev Occupied := Nat × Nat → Option (Occupancy Packet Nat Nat)

namespace Occupied

variable (occ : Occupied) (c : Nat × Nat)

def crossing : Occupied := update occ c ((occ c).map fun o => { o with crossed := o.crossed + 1 })

def emitting : Occupied :=
  update occ c ((occ c).map fun o => { o with crossed := o.crossed + 1, sent := o.sent + 1 })

def departing : Occupied := update occ c ((occ c).map fun o => { o with departed := o.departed + 1 })

def acknowledging (free : Bool) : Occupied :=
  update occ c (if free then none else (occ c).map fun o => { o with returned := o.returned + 1 })

def starting (packet : Packet) (owner : Option (Nat × Nat)) : Occupied :=
  update occ c (some { packet := packet, owner := owner })

def sending : Occupied := update occ c ((occ c).map fun o => { o with sent := o.sent + 1 })

end Occupied

variable {cfg : Config} {R : Nat → Flit → RouteInfo → Nat → Prop}

def Act.track {s s' : Flow} (act : Act cfg R s s') (occ : Occupied) : Occupied :=
  match act with
  | @Act.credit _ _ _ l c _ _ _ => occ.acknowledging (l, c.vc) c.isFreeSignal
  | @Act.grant _ _ _ _ _ _ input out f _ _ _ _ _ _ _ =>
    let departed := occ.departing input
    if (s.virtualChannels input).outputVc = none then (departed.starting out f.packet (some input)).sending out
    else departed.sending out
  | @Act.cross _ _ _ _ out f _ _ _ _ => occ.crossing (out, f.vc)
  | @Act.inject _ _ _ _ _ l vc size route _ _ _ _ =>
    occ.starting (l, vc) (NetworkInterface.packetOf route size s.clones) none
  | @Act.send _ _ _ _ _ c _ _ _ _ _ _ _ _ => occ.emitting c
  | @Act.eject _ _ _ _ l f _ _ _ _ _ => occ.departing (l, f.vc)
  | @Act.unstall _ _ _ _ l _ _ f _ _ _ _ => occ.departing (l, f.vc)
  | _ => occ

inductive Tracked (cfg : Config) (R : Nat → Flit → RouteInfo → Nat → Prop) : Flow → Occupied → Prop where
  | init : Tracked cfg R (.init cfg) fun _ => none
  | wake {s : Flow} {occ : Occupied} {c : Component} {t : Nat} (before : Tracked cfg R s occ)
      (later : s.due c ≤ t) : Tracked cfg R (s.wake c t) occ
  | act {s s' : Flow} {occ : Occupied} (before : Tracked cfg R s occ) (act : Act cfg R s s') :
      Tracked cfg R s' (act.track occ)

variable {s : Flow}

theorem Reachable.tracked (reached : Reachable cfg R s) : ∃ occ, Tracked cfg R s occ := by
  induction reached with
  | init => exact ⟨_, .init⟩
  | wake _ later ih =>
    obtain ⟨occ, before⟩ := ih
    exact ⟨occ, before.wake later⟩
  | act _ act ih =>
    obtain ⟨occ, before⟩ := ih
    exact ⟨act.track occ, before.act act⟩

def Linked (occ : Occupied) (c d : Nat × Nat) : Prop :=
  ∃ o o', occ c = some o ∧ occ d = some o' ∧ o'.owner = some c ∧ o'.packet = o.packet ∧
    o'.sent = o.departed ∧ 0 < o.departed ∧ o.departed < o.packet.size

/-- Some flit of the packet on `c` has reached the input unit, and its tail has not left it. -/
def Opened (cfg : Config) (s : Flow) (occ : Occupied) (c : Nat × Nat) : Prop :=
  cfg.intoRouter c.1 = true ∧ ∃ o, occ c = some o ∧
    0 < o.departed + (s.virtualChannels c).inputBuffer.length ∧ o.departed < o.packet.size

variable {occ : Occupied}

theorem Linked.update {c d x : Nat × Nat} {o₁ o₂ : Occupancy Packet Nat Nat}
    (present : occ x = some o₁) (packet : o₂.packet = o₁.packet) (owner : o₂.owner = o₁.owner)
    (departed : c = x → o₂.departed = o₁.departed) (sent : d = x → o₂.sent = o₁.sent)
    (linked : Linked occ c d) : Linked (update occ x (some o₂)) c d := by
  obtain ⟨o, o', atC, atD, own, same, level, started, unfinished⟩ := linked
  by_cases here : c = x
  · have first := departed here
    subst here
    cases present.symm.trans atC
    by_cases there : d = c
    · subst there
      cases present.symm.trans atD
      exact ⟨o₂, o₂, update_self .., update_self .., owner.trans own, rfl, by rw [sent rfl, level, first],
        by omega, by rw [packet]; omega⟩
    · exact ⟨o₂, o', update_self .., by rw [update_of_ne there, atD], own, same.trans packet.symm,
        level.trans first.symm, by omega, by rw [packet]; omega⟩
  · by_cases there : d = x
    · have second := sent there
      subst there
      cases present.symm.trans atD
      exact ⟨o, o₂, by rw [update_of_ne here, atC], update_self .., owner.trans own, packet.trans same,
        second.trans level, started, unfinished⟩
    · exact ⟨o, o', by rw [update_of_ne here, atC], by rw [update_of_ne there, atD], own, same, level, started,
        unfinished⟩

structure Conserved (cfg : Config) (s : Flow) (occ : Occupied) : Prop where
  carries : ∀ c, Carries Packet.size (cfg.buffersPerVc (cfg.vnetOf c.2)) (s.hop cfg c) (occ c)
  capacity : ∀ c, (s.outVcState c).maxCreditCount = cfg.buffersPerVc (cfg.vnetOf c.2)
  idle : ∀ c, occ c = none → (s.outVcState c).state = .idle
  active : ∀ c o, occ c = some o → (s.outVcState c).state = .active
  vnet : ∀ c o, occ c = some o → o.packet.vnet = cfg.vnetOf c.2
  opened : ∀ c, Opened cfg s occ c → (s.virtualChannels c).state = .active
  closed : ∀ c, ¬ Opened cfg s occ c → (s.virtualChannels c).state = .idle
  -- a packet whose head has gone on has an output virtual channel, until its tail has gone on
  linked : ∀ c w, (s.virtualChannels c).outputVc = some w →
    ∃ l, cfg.target c.1 (s.virtualChannels c).outputPort = some l ∧ Linked occ c (l, w)
  unlinked : ∀ c o, cfg.intoRouter c.1 = true → occ c = some o → (s.virtualChannels c).outputVc = none →
    o.departed = 0 ∨ o.departed = o.packet.size
  stalled : ∀ l, ∀ f ∈ s.stallQueue l, f.isTail = true ∧ cfg.intoRouter l = false
  interface : ∀ c : Nat × Nat, cfg.intoRouter c.1 = false → (s.virtualChannels c).inputBuffer = []
  injected : ∀ c, ∀ f ∈ s.niOutVcs c, f.vc = c.2
  opened_before : ∀ c r, cfg.sink c.1 = some (.router r) → (s.virtualChannels c).state = .active →
    (s.virtualChannels c).stateTime < s.due (.router r)
  active_before : ∀ c o input r, occ c = some o → o.owner = some input →
    cfg.sink input.1 = some (.router r) → (s.outVcState c).time < s.due (.router r)
  safe : ∀ fault ∈ s.faults, fault.isFlowControl = false

namespace Conserved

variable {s : Flow} {occ : Occupied} {c : Nat × Nat}

theorem busy (inv : Conserved cfg s occ) {o : Occupancy Packet Nat Nat} (present : occ c = some o) :
    Busy Packet.size (cfg.buffersPerVc (cfg.vnetOf c.2)) (s.hop cfg c) o := by
  have carries := inv.carries c
  rw [present] at carries
  exact carries

theorem quiet (inv : Conserved cfg s occ) (absent : occ c = none) :
    Quiet (cfg.buffersPerVc (cfg.vnetOf c.2)) (s.hop cfg c) := by
  have carries := inv.carries c
  rw [absent] at carries
  exact carries

variable {f : Flit}

theorem occupied_of_flying (inv : Conserved cfg s occ) (present : f ∈ s.flying c) :
    ∃ o, occ c = some o := by
  cases found : occ c with
  | none =>
    have empty : (s.flying c).map Flit.key = [] := (inv.quiet found).flying
    rw [map_eq_nil_iff.mp empty] at present
    cases present
  | some o => exact ⟨o, rfl⟩

theorem init : Conserved cfg (.init cfg) fun _ => none := by
  have notOpened : ∀ c, ¬ Opened cfg (.init cfg) (fun _ => none) c := by simp [Opened]
  exact
    { carries := fun c => by
        constructor <;> simp [Flow.hop, Flow.init, Flow.switching, Flow.flying, Flow.returning, inChannel]
      capacity := fun _ => rfl
      idle := fun _ _ => rfl
      active := by simp
      vnet := by simp
      opened := fun c isOpen => (notOpened c isOpen).elim
      closed := fun _ _ => rfl
      linked := by simp [Flow.init]
      unlinked := by simp
      stalled := by simp [Flow.init]
      interface := fun _ _ => rfl
      injected := by simp [Flow.init]
      opened_before := by simp [Flow.init]
      active_before := by simp
      safe := by simp [Flow.init] }

variable {t : Nat}

theorem wake (inv : Conserved cfg s occ) {component : Component} (later : s.due component ≤ t) :
    Conserved cfg (s.wake component t) occ := by
  have mono : ∀ other, s.due other ≤ (s.wake component t).due other := by
    intro other
    by_cases same : other = component
    · subst same
      simp only [Flow.wake, update_self]
      omega
    · simp [Flow.wake, same]
  exact
    { inv with
      opened_before := fun c r sink active => Nat.lt_of_lt_of_le (inv.opened_before c r sink active) (mono _)
      active_before := fun c o input r present owner sink =>
        Nat.lt_of_lt_of_le (inv.active_before c o input r present owner sink) (mono _) }

variable {l : Nat} {rest : List Flit}

theorem link (inv : Conserved cfg s occ) (top : s.outQueue l = f :: rest)
    (time : Nat) : Conserved cfg (s.traverse l f rest time) occ :=
  { inv with carries := fun c => by rw [traverse_hop top]; exact inv.carries c }

theorem creditLink (inv : Conserved cfg s occ) {credit : Credit} {rest : List Credit}
    (top : s.creditQueue l = credit :: rest) (time : Nat) :
    Conserved cfg (s.traverseCredit l credit rest time) occ :=
  { inv with carries := fun c => by rw [traverseCredit_hop top]; exact inv.carries c }

theorem fail (inv : Conserved cfg s occ) {fault : Fault} (other : fault.isFlowControl = false) :
    Conserved cfg (s.fail fault) occ :=
  { inv with safe := forall_mem_cons.mpr ⟨other, inv.safe⟩ }

theorem stallQueue_router (inv : Conserved cfg s occ) (router : cfg.intoRouter l = true) :
    s.stallQueue l = [] := by
  refine eq_nil_iff_forall_not_mem.mpr fun g queued => ?_
  have outside := (inv.stalled l g queued).2
  rw [router] at outside
  cases outside

theorem arriving (inv : Conserved cfg s occ) (router : cfg.intoRouter l = true) (top : s.linkBuffer l = f :: rest) :
    ∃ o, occ (l, f.vc) = some o ∧ f.packet = o.packet ∧
      f.id = o.departed + (s.virtualChannels (l, f.vc)).inputBuffer.length ∧ f.id < o.crossed := by
  have unstalled := inv.stallQueue_router router
  have flying : s.flying (l, f.vc) =
      (s.virtualChannels (l, f.vc)).inputBuffer ++ f :: (inChannel f.vc rest ++ inChannel f.vc (s.outQueue l)) := by
    simp [Flow.flying, unstalled, top, inChannel]
  obtain ⟨o, present⟩ := inv.occupied_of_flying (c := (l, f.vc)) (f := f) (by simp [flying])
  have window : (s.flying (l, f.vc)).map Flit.key = window o.packet o.departed o.crossed := (inv.busy present).flying
  rw [flying, map_append, map_cons] at window
  obtain ⟨below, first, -⟩ := map_Ico_eq_cons (map_Ico_eq_append window.symm).2.symm
  rw [length_map] at below first
  have id : f.id = _ := congrArg Prod.snd first
  exact ⟨o, present, congrArg Prod.fst first, id, id ▸ below⟩

variable {r : Nat}

theorem receive (inv : Conserved cfg s occ) {ready port : Nat}
    {route : RouteInfo} (sink : cfg.sink l = some (.router r)) (now : s.due (.router r) = t + 1)
    (top : s.linkBuffer l = f :: rest) (same : route.fixed = f.route.incrementHops.fixed) :
    Conserved cfg (s.receive l t ready f rest route port) occ := by
  have router := Config.intoRouter_iff.mpr ⟨r, sink⟩
  obtain ⟨o, present, packet, id, below⟩ := inv.arriving router top
  have busy := inv.busy present
  have bound : f.id < f.size := by
    have size : f.size = o.packet.size := congrArg Packet.size packet
    have crossed := busy.crossed_le
    have sent := busy.sent_le
    omega
  have unfinished : o.departed < o.packet.size := by
    have size : f.size = o.packet.size := congrArg Packet.size packet
    omega
  have head := Flit.isHead_iff bound
  have wasClosed : f.isHead = true → (s.virtualChannels (l, f.vc)).state = .idle := by
    intro isHead
    refine inv.closed _ fun ⟨_, o', present', started, _⟩ => ?_
    cases present.symm.trans present'
    rw [head.mp isHead] at id
    omega
  have wasOpened : f.isHead = false → (s.virtualChannels (l, f.vc)).state = .active := by
    intro body
    refine inv.opened _ ⟨router, o, present, ?_, unfinished⟩
    have notFirst : f.id ≠ 0 := fun first => by
      rw [head.mpr first] at body
      cases body
    show 0 < o.departed + (s.virtualChannels (l, f.vc)).inputBuffer.length
    omega
  have elsewhere : ∀ c, c ≠ (l, f.vc) →
      (s.receive l t ready f rest route port).virtualChannels c = s.virtualChannels c :=
    fun c other => update_of_ne other _ _
  have isActive : ((s.receive l t ready f rest route port).virtualChannels (l, f.vc)).state = .active := by
    simp only [Flow.receive, update_self]
    split
    · rfl
    · rename_i body
      exact wasOpened (by simpa using body)
  have isOpened : Opened cfg (s.receive l t ready f rest route port) occ (l, f.vc) := by
    refine ⟨router, o, present, ?_, unfinished⟩
    simp [Flow.receive]
  refine
    { inv with
      carries := fun c => ?_
      opened := fun c isOpen => ?_
      closed := fun c notOpen => ?_
      linked := fun c w granted => ?_
      unlinked := fun c o' into present' none => ?_
      interface := fun c outside => ?_
      opened_before := fun c r' sink' active => ?_
      safe := ?_ }
  · rw [receive_hop top same]
    exact inv.carries c
  · by_cases here : c = (l, f.vc)
    · rw [here]
      exact isActive
    · rw [elsewhere c here]
      refine inv.opened c ?_
      unfold Opened at isOpen
      rwa [elsewhere c here] at isOpen
  · by_cases here : c = (l, f.vc)
    · exact (notOpen (here ▸ isOpened)).elim
    · rw [elsewhere c here]
      refine inv.closed c fun isOpen => notOpen ?_
      unfold Opened
      rwa [elsewhere c here]
  · by_cases here : c = (l, f.vc)
    · subst here
      have before : (s.virtualChannels (l, f.vc)).outputVc = some w := by
        simp only [Flow.receive, update_self] at granted
        split at granted
        · exact granted
        · exact granted
      obtain ⟨out, target, linked⟩ := inv.linked _ w before
      have passage := linked
      obtain ⟨o₁, o₂, present₁, -, -, -, -, started, -⟩ := passage
      -- the head of the packet has left, so this is not the head
      have body : ¬ f.isHead = true := fun isHead => by
        cases present.symm.trans present₁
        rw [head.mp isHead] at id
        omega
      refine ⟨out, ?_, linked⟩
      simpa [Flow.receive, body] using target
    · rw [elsewhere c here] at granted ⊢
      exact inv.linked c w granted
  · by_cases here : c = (l, f.vc)
    · subst here
      refine inv.unlinked _ o' into present' ?_
      simp only [Flow.receive, update_self] at none
      split at none
      · exact none
      · exact none
    · rw [elsewhere c here] at none
      exact inv.unlinked c o' into present' none
  · have here : c ≠ (l, f.vc) := by
      rintro rfl
      rw [router] at outside
      cases outside
    rw [elsewhere c here]
    exact inv.interface c outside
  · by_cases here : c = (l, f.vc)
    · subst here
      obtain rfl : r = r' := by simpa using sink.symm.trans sink'
      simp only [Flow.receive, update_self]
      split
      · show t < s.due (.router r)
        omega
      · rename_i body
        exact inv.opened_before _ r sink' (wasOpened (by simpa using body))
    · rw [elsewhere c here] at active ⊢
      exact inv.opened_before c r' sink' active
  · have passed : (s.receive l t ready f rest route port).faults = s.faults := by
      simp only [Flow.receive, Flow.check]
      split
      · rename_i isHead
        simp [wasClosed isHead]
      · rename_i body
        simp [wasOpened (by simpa using body)]
    rw [passed]
    exact inv.safe

variable {n : Nat}

theorem stall (inv : Conserved cfg s occ)
    (sink : cfg.sink l = some (.ni n)) (top : s.linkBuffer l = f :: rest) (tail : f.isTail = true) :
    Conserved cfg (s.stall l f rest) occ := by
  have outside : cfg.intoRouter l = false := by simp [Config.intoRouter, sink]
  refine { inv with carries := fun c => ?_, stalled := fun l' g queued => ?_ }
  · rw [stall_hop top (inv.interface (l, f.vc) outside)]
    exact inv.carries c
  · by_cases same : l' = l
    · subst same
      simp only [Flow.stall, update_self, mem_append, mem_singleton] at queued
      rcases queued with queued | rfl
      · exact inv.stalled l' g queued
      · exact ⟨tail, outside⟩
    · exact inv.stalled l' g (by simpa [Flow.stall, same] using queued)

theorem assertAllocation (inv : Conserved cfg s occ) (now : s.due (.router r) = t + 1) :
    Conserved cfg (s.assertAllocation cfg r t) occ := by
  have staged : s.stageAssertions cfg r t = true := by
    simp only [Flow.stageAssertions, all_eq_true]
    intro l listed w _
    have sink := Config.mem_inLinks.mp listed
    unfold VirtualChannel.stageAssertion
    cases ready : isReady (s.virtualChannels (l, w)).inputBuffer t with
    | false => rfl
    | true =>
      obtain ⟨f, rest, top, -⟩ := isReady_iff.mp ready
      obtain ⟨o, present⟩ := inv.occupied_of_flying (c := (l, w)) (f := f) (by simp [Flow.flying, top])
      have inside := (inv.busy present).mem_flying (x := f.key)
        (mem_map_of_mem (by simp [Flow.flying, top]))
      have crossed := (inv.busy present).crossed_le
      have sent := (inv.busy present).sent_le
      have active := inv.opened (l, w) ⟨Config.intoRouter_iff.mpr ⟨r, sink⟩, o, present, by simp [top], by omega⟩
      have before := inv.opened_before (l, w) r sink active
      simp only [active, Bool.not_true, Bool.false_or, beq_self_eq_true, Bool.true_and, decide_eq_true_eq]
      omega
  have credited : s.creditAssertions cfg r t = true := by
    simp only [Flow.creditAssertions, all_eq_true]
    intro l listed w _
    have sink := Config.mem_inLinks.mp listed
    rw [Bool.or_eq_true]
    refine Or.inr ((Option.all_eq_true _ _).mpr fun out owned => (Option.all_eq_true _ _).mpr fun l' target => ?_)
    obtain ⟨l'', target', o, o', -, present, owner, -⟩ := inv.linked (l, w) out owned
    obtain rfl : l' = l'' := Option.some.inj (target.symm.trans target')
    have before := inv.active_before _ o' _ r present owner sink
    simp only [OutVcState.isInState, inv.active _ o' present, beq_self_eq_true, Bool.true_and, decide_eq_true_eq]
    omega
  refine { inv with safe := ?_ }
  simp only [Flow.assertAllocation, staged, credited, if_true, nil_append]
  exact inv.safe

/-- A packet advances on channel `x`. Either the flits that the input unit has passed on stay the
same, or `x` leads to a network interface; either those that were sent, or `x` comes from one. -/
theorem advance (inv : Conserved cfg s occ) {s' : Flow} {x : Nat × Nat} {o₁ o₂ : Occupancy Packet Nat Nat}
    (present : occ x = some o₁) (packet : o₂.packet = o₁.packet) (owner : o₂.owner = o₁.owner)
    (departed : o₂.departed = o₁.departed ∨ cfg.intoRouter x.1 = false) (sent : o₂.sent = o₁.sent ∨ o₁.owner = none)
    (busy : Busy Packet.size (cfg.buffersPerVc (cfg.vnetOf x.2)) (s'.hop cfg x) o₂)
    (hops : ∀ c, c ≠ x → s'.hop cfg c = s.hop cfg c)
    (channels : s'.virtualChannels = s.virtualChannels) (due : s'.due = s.due) (faults : s'.faults = s.faults)
    (states : ∀ c, (s'.outVcState c).maxCreditCount = (s.outVcState c).maxCreditCount ∧
      (s'.outVcState c).state = (s.outVcState c).state ∧ (s'.outVcState c).time = (s.outVcState c).time)
    (stalls : ∀ l, s'.stallQueue l ⊆ s.stallQueue l) (waiting : ∀ c, s'.niOutVcs c ⊆ s.niOutVcs c) :
    Conserved cfg s' (update occ x (some o₂)) := by
  have opened_iff : ∀ c, Opened cfg s' (update occ x (some o₂)) c ↔ Opened cfg s occ c := by
    intro c
    unfold Opened
    rw [channels]
    by_cases here : c = x
    · subst here
      rw [update_self, present]
      rcases departed with same | outside
      · simp [same, packet]
      · simp [outside]
    · rw [update_of_ne here]
  refine
    { carries := fun c => ?_
      capacity := fun c => (states c).1.trans (inv.capacity c)
      idle := fun c absent => (states c).2.1.trans (inv.idle c ?_)
      active := fun c o occupied => ?_
      vnet := fun c o occupied => ?_
      opened := fun c isOpen => ?_
      closed := fun c notOpen => ?_
      linked := fun c w granted => ?_
      unlinked := fun c o into occupied none => ?_
      stalled := fun l f queued => inv.stalled l f (stalls l queued)
      interface := fun c outside => ?_
      injected := fun c f queued => inv.injected c f (waiting c queued)
      opened_before := fun c r sink active => ?_
      active_before := fun c o input r occupied owned sink => ?_
      safe := by rw [faults]; exact inv.safe }
  · by_cases here : c = x
    · subst here
      rw [update_self]
      exact busy
    · rw [update_of_ne here, hops c here]
      exact inv.carries c
  · by_cases here : c = x
    · subst here
      rw [update_self] at absent
      cases absent
    · rwa [update_of_ne here] at absent
  · rw [(states c).2.1]
    by_cases here : c = x
    · subst here
      exact inv.active c o₁ present
    · rw [update_of_ne here] at occupied
      exact inv.active c o occupied
  · by_cases here : c = x
    · subst here
      rw [update_self] at occupied
      cases occupied
      rw [packet]
      exact inv.vnet c o₁ present
    · rw [update_of_ne here] at occupied
      exact inv.vnet c o occupied
  · rw [channels]
    exact inv.opened c ((opened_iff c).mp isOpen)
  · rw [channels]
    exact inv.closed c fun isOpen => notOpen ((opened_iff c).mpr isOpen)
  · rw [channels] at granted ⊢
    obtain ⟨l, target, linked⟩ := inv.linked c w granted
    refine ⟨l, target, linked.update present packet owner (fun here => ?_) fun there => ?_⟩
    · refine departed.resolve_right fun outside => ?_
      rw [← here] at outside
      unfold Config.target at target
      unfold Config.intoRouter at outside
      split at target
      · rename_i sink
        rw [sink] at outside
        cases outside
      · cases target
    · refine sent.resolve_right fun unowned => ?_
      obtain ⟨-, o', -, occupied, own, -⟩ := linked
      rw [there, present] at occupied
      cases occupied
      rw [unowned] at own
      cases own
  · rw [channels] at none
    by_cases here : c = x
    · subst here
      rw [update_self] at occupied
      cases occupied
      rcases departed with same | outside
      · rw [same, packet]
        exact inv.unlinked c o₁ into present none
      · rw [into] at outside
        cases outside
    · rw [update_of_ne here] at occupied
      exact inv.unlinked c o into occupied none
  · rw [channels]
    exact inv.interface c outside
  · rw [channels] at active ⊢
    rw [due]
    exact inv.opened_before c r sink active
  · rw [(states c).2.2, due]
    by_cases here : c = x
    · subst here
      rw [update_self] at occupied
      cases occupied
      exact inv.active_before c o₁ input r present (owner.symm.trans owned) sink
    · rw [update_of_ne here] at occupied
      exact inv.active_before c o input r occupied owned sink

theorem cross (inv : Conserved cfg s occ) {out : Nat}
    (top : s.switchBuffer l = f :: rest) (target : cfg.target l f.outport = some out) (time : Nat) :
    Conserved cfg (s.cross l out f rest time) (occ.crossing (out, f.vc)) := by
  have first : (s.hop cfg (out, f.vc)).switching l =
      f.key :: ((s.cross l out f rest time).switching cfg (out, f.vc) l).map Flit.key := by
    simp [Flow.hop, Flow.switching, Flow.cross, top, target]
  cases present : occ (out, f.vc) with
  | none =>
    rw [(inv.quiet present).switching] at first
    cases first
  | some o =>
    unfold Occupied.crossing
    rw [present]
    refine inv.advance present rfl rfl (Or.inl rfl) (Or.inl rfl) ?_ (fun c other => ?_) rfl rfl rfl
      (fun _ => ⟨rfl, rfl, rfl⟩) (fun _ => List.Subset.refl _) fun _ => List.Subset.refl _
    · rw [cross_hop top target, if_pos rfl]
      exact (inv.busy present).cross first
    · rw [cross_hop top target, if_neg other]

theorem send (inv : Conserved cfg s occ)
    (top : s.niOutVcs c = f :: rest) (credit : 0 < (s.outVcState c).creditCount) (time : Nat) :
    Conserved cfg (s.send c f rest time) (occ.emitting c) := by
  have first : (s.hop cfg c).waiting = f.key :: rest.map Flit.key := by simp [Flow.hop, top]
  have channel : f.vc = c.2 := inv.injected c f (by rw [top]; exact mem_cons_self)
  cases present : occ c with
  | none =>
    rw [(inv.quiet present).waiting] at first
    cases first
  | some o =>
    have source := ((inv.busy present).waiting_first first).1
    unfold Occupied.emitting
    rw [present]
    refine inv.advance present rfl rfl (Or.inl rfl) (Or.inr source) ?_ (fun d other => ?_) rfl rfl ?_
      (fun d => ?_) (fun _ => List.Subset.refl _) fun d => ?_
    · rw [send_hop channel, if_pos rfl]
      exact (inv.busy present).emit first credit
    · rw [send_hop channel, if_neg other]
    · simp [Flow.send, Flow.check, OutVcState.decrementAssertion, Nat.succ_le_iff.mpr credit]
    · by_cases here : d = c
      · subst here
        simp [Flow.send, OutVcState.decrementCredit]
      · simp [Flow.send, here]
    · by_cases here : d = c
      · subst here
        simp [Flow.send, top]
      · simp [Flow.send, here]

theorem depart (inv : Conserved cfg s occ) {s₁ : Flow} (sink : cfg.sink l = some (.ni n))
    (first : s.flying (l, f.vc) = f :: s₁.flying (l, f.vc)) (others : ∀ c, c ≠ (l, f.vc) → s₁.flying c = s.flying c)
    (rest : s₁ = { s with linkBuffer := s₁.linkBuffer, stallQueue := s₁.stallQueue })
    (stalls : ∀ l, s₁.stallQueue l ⊆ s.stallQueue l) (t : Nat) :
    Conserved cfg (s₁.eject n l t f) (occ.departing (l, f.vc)) := by
  obtain ⟨o, present⟩ := inv.occupied_of_flying (c := (l, f.vc)) (f := f) (by rw [first]; exact mem_cons_self)
  have busy := inv.busy present
  have flying : (s.hop cfg (l, f.vc)).flying = f.key :: (s₁.flying (l, f.vc)).map Flit.key := by
    simp [Flow.hop, first]
  have inside := busy.mem_flying (x := f.key) (by rw [flying]; exact mem_cons_self)
  have bound : f.id < f.size := by
    have size : f.size = o.packet.size := congrArg Packet.size inside.1
    have crossed := busy.crossed_le
    have sent := busy.sent_le
    have id : f.id < o.crossed := inside.2.2
    omega
  have tail : f.isTail = decide (f.id + 1 = f.size) := by
    rw [Bool.eq_iff_iff, Flit.isTail_iff bound, decide_eq_true_iff]
  have hops : ∀ c, s₁.hop cfg c = { s.hop cfg c with flying := (s₁.flying c).map Flit.key } := by
    intro c
    rw [rest]
    exact hop_with_flying rfl rfl rfl rfl rfl
  unfold Occupied.departing
  rw [present]
  refine inv.advance present rfl rfl (Or.inr (by simp [Config.intoRouter, sink])) (Or.inl rfl) ?_
    (fun c other => ?_) ?_ ?_ ?_ (fun c => ?_) stalls fun c => ?_
  · rw [eject_hop, if_pos rfl, hops, tail]
    exact busy.depart flying
  · rw [eject_hop, if_neg other, hops, others c other]
    rfl
  · rw [rest]
    rfl
  · rw [rest]
    rfl
  · rw [rest]
    rfl
  · rw [rest]
    exact ⟨rfl, rfl, rfl⟩
  · rw [rest]
    exact List.Subset.refl _

theorem stalled_alone (inv : Conserved cfg s occ) (stalled : f ∈ s.stallQueue l) :
    s.flying (l, f.vc) = [f] := by
  obtain ⟨g, more, queue⟩ : ∃ g more, inChannel f.vc (s.stallQueue l) = g :: more :=
    exists_cons_of_ne_nil (ne_nil_of_mem (mem_inChannel.mpr ⟨stalled, rfl⟩))
  have first : s.flying (l, f.vc) = g :: (more ++ (s.virtualChannels (l, f.vc)).inputBuffer ++
      inChannel f.vc (s.linkBuffer l) ++ inChannel f.vc (s.outQueue l)) := by
    simp [Flow.flying, queue]
  have queued : g ∈ s.stallQueue l :=
    (mem_inChannel.mp (by rw [queue]; exact mem_cons_self : g ∈ inChannel f.vc (s.stallQueue l))).1
  obtain ⟨o, present⟩ := inv.occupied_of_flying (c := (l, f.vc)) (f := g) (by rw [first]; exact mem_cons_self)
  have busy := inv.busy present
  have flying : (s.hop cfg (l, f.vc)).flying = g.key :: _ := congrArg (List.map Flit.key) first
  obtain ⟨key, -, below⟩ := busy.flying_first flying
  have crossed := busy.crossed_le
  have sent := busy.sent_le
  have id : g.id = o.departed := congrArg Prod.snd key
  have size : g.size = o.packet.size := congrArg (fun x => x.1.size) key
  have last := (Flit.isTail_iff (by omega)).mp (inv.stalled l g queued).1
  have short : (s.flying (l, f.vc)).length ≤ 1 := by
    have length := congrArg List.length busy.flying
    rw [length_window] at length
    have same : (s.hop cfg (l, f.vc)).flying.length = (s.flying (l, f.vc)).length := length_map ..
    omega
  have member : f ∈ s.flying (l, f.vc) := by
    have : f ∈ inChannel f.vc (s.stallQueue l) := mem_inChannel.mpr ⟨stalled, rfl⟩
    simp [Flow.flying, this]
  obtain ⟨x, only⟩ := length_eq_one_iff.mp (Nat.le_antisymm short (length_pos_of_mem member))
  rw [only, mem_singleton] at member
  rw [only, member]

theorem eject (inv : Conserved cfg s occ)
    (sink : cfg.sink l = some (.ni n)) (top : s.linkBuffer l = f :: rest) (t : Nat) :
    Conserved cfg ((s.consume l rest).eject n l t f) (occ.departing (l, f.vc)) := by
  have empty := inv.interface (l, f.vc) (by simp [Config.intoRouter, sink])
  have unstalled : inChannel f.vc (s.stallQueue l) = [] := by
    refine eq_nil_iff_forall_not_mem.mpr fun g stalled => ?_
    obtain ⟨queued, channel⟩ := mem_inChannel.mp stalled
    have alone := congrArg List.length (inv.stalled_alone queued)
    rw [channel] at alone
    simp only [Flow.flying, top, inChannel_cons_self, length_append, length_cons, length_nil] at alone
    have := length_pos_of_mem stalled
    omega
  exact inv.depart sink (consume_flying_self top unstalled empty)
    (fun c other => consume_flying_other top other) rfl (fun _ => List.Subset.refl _) t

theorem unstall (inv : Conserved cfg s occ) {before after : List Flit}
    (sink : cfg.sink l = some (.ni n)) (queue : s.stallQueue l = before ++ f :: after) (t : Nat) :
    Conserved cfg ((s.unstall l (before ++ after)).eject n l t f) (occ.departing (l, f.vc)) := by
  have first : inChannel f.vc before = [] := by
    have alone := congrArg List.length (inv.stalled_alone (by rw [queue]; simp : f ∈ s.stallQueue l))
    simp only [Flow.flying, queue, inChannel_append, inChannel_cons_self, length_append, length_cons,
      length_nil] at alone
    exact eq_nil_of_length_eq_zero (by omega)
  refine inv.depart sink (unstall_flying_self queue first) (fun c other => unstall_flying_other queue other) rfl
    (fun l' g queued => ?_) t
  by_cases same : l' = l
  · subst same
    rw [queue]
    simp only [Flow.unstall, update_self, mem_append] at queued
    rcases queued with queued | queued
    · exact mem_append_left _ queued
    · exact mem_append_right _ (mem_cons_of_mem _ queued)
  · simpa [Flow.unstall, same] using queued

theorem release (inv : Conserved cfg s occ) {credit : Credit} {rest : List Credit}
    (top : s.creditLinkBuffer l = credit :: rest) (free : credit.isFreeSignal = true)
    {o : Occupancy Packet Nat Nat} (present : occ (l, credit.vc) = some o) :
    Conserved cfg (s.creditArrives l t credit rest) (update occ (l, credit.vc) none) := by
  have busy := inv.busy present
  have first : (s.hop cfg (l, credit.vc)).returning =
      true :: ((s.creditArrives l t credit rest).returning (l, credit.vc)).map Credit.isFreeSignal := by
    simp [Flow.hop, creditArrives_returning top (t := t), free]
  have quiet := busy.release first
  obtain ⟨last, -, below⟩ := busy.returning_first first
  have last := of_decide_eq_true last.symm
  have order := busy.departed_le
  have order' := busy.crossed_le
  have room := busy.room first
  have notOpened : ¬ Opened cfg s occ (l, credit.vc) := by
    rintro ⟨-, o', present', -, unfinished⟩
    cases present.symm.trans present'
    omega
  have opened_iff : ∀ c, Opened cfg (s.creditArrives l t credit rest) (update occ (l, credit.vc) none) c ↔
      Opened cfg s occ c := by
    intro c
    by_cases here : c = (l, credit.vc)
    · subst here
      refine ⟨fun ⟨_, o', absent, _⟩ => ?_, fun isOpen => (notOpened isOpen).elim⟩
      rw [update_self] at absent
      cases absent
    · unfold Opened
      rw [update_of_ne here]
      exact Iff.rfl
  refine
    { inv with
      carries := fun c => ?_
      capacity := fun c => ?_
      idle := fun c absent => ?_
      active := fun c o' occupied => ?_
      vnet := fun c o' occupied => ?_
      opened := fun c isOpen => inv.opened c ((opened_iff c).mp isOpen)
      closed := fun c notOpen => inv.closed c fun isOpen => notOpen ((opened_iff c).mpr isOpen)
      linked := fun c w granted => ?_
      unlinked := fun c o' into occupied none => ?_
      active_before := fun c o' input r occupied owned sink => ?_
      safe := ?_ }
  · rw [creditArrives_hop top]
    by_cases here : c = (l, credit.vc)
    · subst here
      rw [if_pos rfl, update_self]
      exact quiet
    · rw [if_neg here, update_of_ne here]
      exact inv.carries c
  · by_cases here : c = (l, credit.vc)
    · subst here
      simpa [Flow.creditArrives, free, OutVcState.setState, OutVcState.incrementCredit] using inv.capacity _
    · simpa [Flow.creditArrives, here] using inv.capacity c
  · by_cases here : c = (l, credit.vc)
    · subst here
      simp [Flow.creditArrives, free, OutVcState.setState]
    · rw [update_of_ne here] at absent
      simpa [Flow.creditArrives, here] using inv.idle c absent
  · by_cases here : c = (l, credit.vc)
    · simp [here] at occupied
    · rw [update_of_ne here] at occupied
      simpa [Flow.creditArrives, here] using inv.active c o' occupied
  · by_cases here : c = (l, credit.vc)
    · simp [here] at occupied
    · rw [update_of_ne here] at occupied
      exact inv.vnet c o' occupied
  · obtain ⟨out, target, o₁, o₂, atC, atD, own, same, level, started, unfinished⟩ := inv.linked c w granted
    -- both passages of a packet that is going on still have credits to come
    have here : c ≠ (l, credit.vc) := by
      rintro rfl
      cases present.symm.trans atC
      omega
    have there : (out, w) ≠ (l, credit.vc) := by
      intro there
      rw [there] at atD
      cases present.symm.trans atD
      rw [same] at last
      omega
    exact ⟨out, target, o₁, o₂, by rw [update_of_ne here, atC], by rw [update_of_ne there, atD], own, same, level,
      started, unfinished⟩
  · by_cases here : c = (l, credit.vc)
    · simp [here] at occupied
    · rw [update_of_ne here] at occupied
      exact inv.unlinked c o' into occupied none
  · by_cases here : c = (l, credit.vc)
    · simp [here] at occupied
    · rw [update_of_ne here] at occupied
      have before := inv.active_before c o' input r occupied owned sink
      simpa [Flow.creditArrives, here] using before
  · have fits : (s.outVcState (l, credit.vc)).incrementAssertion = true := by
      rw [OutVcState.incrementAssertion, inv.capacity, decide_eq_true_eq]
      exact room
    simpa [Flow.creditArrives, Flow.check, fits] using inv.safe

theorem credit (inv : Conserved cfg s occ) {l t : Nat} {credit : Credit} {rest : List Credit}
    (top : s.creditLinkBuffer l = credit :: rest) :
    Conserved cfg (s.creditArrives l t credit rest) (occ.acknowledging (l, credit.vc) credit.isFreeSignal) := by
  have first : (s.hop cfg (l, credit.vc)).returning = credit.isFreeSignal ::
      ((s.creditArrives l t credit rest).returning (l, credit.vc)).map Credit.isFreeSignal := by
    simp [Flow.hop, creditArrives_returning top (t := t)]
  unfold Occupied.acknowledging
  cases present : occ (l, credit.vc) with
  | none =>
    rw [(inv.quiet present).returning] at first
    cases first
  | some o =>
    cases free : credit.isFreeSignal with
    | true => exact inv.release top free present
    | false =>
      rw [free] at first
      have room := (inv.busy present).room first
      have fits : (s.outVcState (l, credit.vc)).incrementAssertion = true := by
        rw [OutVcState.incrementAssertion, inv.capacity, decide_eq_true_eq]
        exact room
      refine inv.advance present rfl rfl (Or.inl rfl) (Or.inl rfl) ?_ (fun c other => ?_) rfl rfl ?_ (fun c => ?_)
        (fun _ => List.Subset.refl _) fun _ => List.Subset.refl _
      · rw [creditArrives_hop top, if_pos rfl]
        exact (inv.busy present).acknowledge first
      · rw [creditArrives_hop top, if_neg other]
      · simp [Flow.creditArrives, Flow.check, fits]
      · by_cases here : c = (l, credit.vc)
        · subst here
          simp [Flow.creditArrives, free, OutVcState.incrementCredit]
        · simp [Flow.creditArrives, here]

theorem absent_of_idle (inv : Conserved cfg s occ) (idle : (s.outVcState c).state = .idle) : occ c = none := by
  cases present : occ c with
  | none => rfl
  | some o =>
    have active := inv.active c o present
    rw [idle] at active
    cases active

theorem buffer_of_absent (inv : Conserved cfg s occ) (absent : occ c = none) :
    (s.virtualChannels c).inputBuffer = [] := by
  have flying : s.flying c = [] := map_eq_nil_iff.mp (inv.quiet absent).flying
  unfold Flow.flying at flying
  simp only [append_eq_nil_iff] at flying
  exact flying.1.1.2

theorem packetFlits_keys (route : RouteInfo) (vc size msgPtr t : Nat) :
    (NetworkInterface.packetFlits route vc size msgPtr t).map Flit.key =
      window (NetworkInterface.packetOf route size msgPtr) 0 size := by
  rw [NetworkInterface.packetFlits, window, List.Ico.zero_bot, map_map]
  rfl

theorem inject (inv : Conserved cfg s occ) {vc size : Nat} {route : RouteInfo}
    (vnet : route.vnet = cfg.vnetOf vc) (isIdle : (s.outVcState (l, vc)).state = .idle) :
    Conserved cfg (s.inject n t (l, vc) (NetworkInterface.packetOf route size s.clones)
        (NetworkInterface.packetFlits route vc size s.clones t))
      (occ.starting (l, vc) (NetworkInterface.packetOf route size s.clones) none) := by
  have absent := inv.absent_of_idle isIdle
  have quiet := inv.quiet absent
  have empty := inv.buffer_of_absent absent
  unfold Occupied.starting
  have notOpened : ∀ c, Opened cfg (s.inject n t (l, vc) (NetworkInterface.packetOf route size s.clones)
      (NetworkInterface.packetFlits route vc size s.clones t))
      (update occ (l, vc) (some { packet := NetworkInterface.packetOf route size s.clones, owner := none })) c ↔
      Opened cfg s occ c := by
    intro c
    by_cases here : c = (l, vc)
    · subst here
      refine ⟨fun ⟨_, o, present, started, _⟩ => ?_, fun ⟨_, o, present, _⟩ => ?_⟩
      · rw [update_self] at present
        cases present
        simp [Flow.inject, empty] at started
      · rw [absent] at present
        cases present
    · unfold Opened
      rw [update_of_ne here]
      exact Iff.rfl
  refine
    { inv with
      carries := fun c => ?_
      capacity := fun c => ?_
      idle := fun c free => ?_
      active := fun c o occupied => ?_
      vnet := fun c o occupied => ?_
      opened := fun c isOpen => inv.opened c ((notOpened c).mp isOpen)
      closed := fun c notOpen => inv.closed c fun isOpen => notOpen ((notOpened c).mpr isOpen)
      linked := fun c w granted => ?_
      unlinked := fun c o into occupied none => ?_
      injected := fun c f waiting => ?_
      active_before := fun c o input r occupied owned sink => ?_ }
  · rw [inject_hop]
    by_cases here : c = (l, vc)
    · subst here
      rw [if_pos rfl, update_self, quiet.waiting, nil_append, packetFlits_keys]
      show Busy Packet.size _ _ _
      exact quiet.start _
    · rw [if_neg here, update_of_ne here]
      exact inv.carries c
  · by_cases here : c = (l, vc)
    · subst here
      simpa [Flow.inject, OutVcState.setState] using inv.capacity (l, vc)
    · simpa [Flow.inject, here] using inv.capacity c
  · by_cases here : c = (l, vc)
    · simp [here] at free
    · rw [update_of_ne here] at free
      simpa [Flow.inject, here] using inv.idle c free
  · by_cases here : c = (l, vc)
    · subst here
      simp [Flow.inject, OutVcState.setState]
    · rw [update_of_ne here] at occupied
      simpa [Flow.inject, here] using inv.active c o occupied
  · by_cases here : c = (l, vc)
    · subst here
      rw [update_self] at occupied
      cases occupied
      exact vnet
    · rw [update_of_ne here] at occupied
      exact inv.vnet c o occupied
  · obtain ⟨out, target, o₁, o₂, atC, atD, facts⟩ := inv.linked c w granted
    have here : c ≠ (l, vc) := by
      rintro rfl
      rw [absent] at atC
      cases atC
    have there : (out, w) ≠ (l, vc) := by
      intro there
      rw [there, absent] at atD
      cases atD
    exact ⟨out, target, o₁, o₂, by rw [update_of_ne here, atC], by rw [update_of_ne there, atD], facts⟩
  · by_cases here : c = (l, vc)
    · subst here
      rw [update_self] at occupied
      cases occupied
      exact Or.inl rfl
    · rw [update_of_ne here] at occupied
      exact inv.unlinked c o into occupied none
  · by_cases here : c = (l, vc)
    · subst here
      simp only [Flow.inject, update_self, mem_append] at waiting
      rcases waiting with waiting | created
      · exact inv.injected _ f waiting
      · obtain ⟨i, -, rfl⟩ := mem_map.mp created
        rfl
    · exact inv.injected c f (by simpa [Flow.inject, here] using waiting)
  · by_cases here : c = (l, vc)
    · subst here
      rw [update_self] at occupied
      cases occupied
      cases owned
    · rw [update_of_ne here] at occupied
      have before := inv.active_before c o input r occupied owned sink
      simpa [Flow.inject, here] using before

/-- What a switch grant finds: the flit is the next of its packet, and the output channel has a
passage `o'` of the packet that is level with it, or none and then `o'` is a new one. -/
structure Granting (cfg : Config) (s : Flow) (occ : Occupied) (input out : Nat × Nat) (f : Flit)
    (o o' : Occupancy Packet Nat Nat) : Prop where
  present : occ input = some o
  packet : f.packet = o.packet
  id : f.id = o.departed
  bound : f.id < f.size
  next : ∀ g ∈ (s.virtualChannels input).inputBuffer.tail, f.id + 1 < f.size
  different : input ≠ out
  busy : Busy Packet.size (cfg.buffersPerVc (cfg.vnetOf out.2)) (s.hop cfg out) o'
  owner : o'.owner = some input
  same : o'.packet = o.packet
  level : o'.sent = o.departed
  credit : 0 < (s.outVcState out).creditCount
  known : (s.virtualChannels input).outputVc = some out.2 ∧ occ out = some o' ∨
    (s.virtualChannels input).outputVc = none ∧ occ out = none ∧ cfg.vnetOf out.2 = cfg.vnetOf input.2 ∧
      o' = { packet := f.packet, owner := some input }

theorem granting (inv : Conserved cfg s occ) {outport : Nat} {input out : Nat × Nat}
    (sink : cfg.sink input.1 = some (.router r))
    (top : (s.virtualChannels input).inputBuffer = f :: rest) (grantable : Grantable cfg s t outport input out) :
    ∃ o o', Granting cfg s occ input out f o o' := by
  have router := Config.intoRouter_iff.mpr ⟨r, sink⟩
  have flying : s.flying input = f :: (rest ++ inChannel input.2 (s.linkBuffer input.1) ++
      inChannel input.2 (s.outQueue input.1)) := by
    simp [Flow.flying, inv.stallQueue_router router, top, inChannel]
  obtain ⟨o, present⟩ := inv.occupied_of_flying (c := input) (f := f) (by rw [flying]; exact mem_cons_self)
  have busy := inv.busy present
  have keys : (s.hop cfg input).flying = f.key :: _ := congrArg (List.map Flit.key) flying
  obtain ⟨key, following, below⟩ := busy.flying_first keys
  have packet : f.packet = o.packet := congrArg Prod.fst key
  have id : f.id = o.departed := congrArg Prod.snd key
  have size : f.size = o.packet.size := congrArg Packet.size packet
  have crossed := busy.crossed_le
  have sent := busy.sent_le
  have next : ∀ g ∈ (s.virtualChannels input).inputBuffer.tail, f.id + 1 < f.size := by
    intro g buffered
    rw [top, tail_cons] at buffered
    have member : g.key ∈ window o.packet (o.departed + 1) o.crossed := by
      rw [← following]
      exact mem_map_of_mem (by simp [buffered])
    have inside := mem_window.mp member
    omega
  cases own : (s.virtualChannels input).outputVc with
  | some w =>
    obtain ⟨l, target, o₁, o', atC, atD, owner, same, level, -⟩ := inv.linked input w own
    cases present.symm.trans atC
    obtain ⟨rfl, credit⟩ := grantable.credit w own
    obtain rfl : out.1 = l := by
      rw [grantable.port, grantable.target] at target
      exact Option.some.inj target
    have different : input ≠ out := by
      intro same
      cases present.symm.trans (same ▸ atD)
      omega
    exact ⟨o, o', { present, packet, id, bound := by omega, next, different, busy := inv.busy atD, owner, same,
                    level, credit, known := Or.inl ⟨own, atD⟩ }⟩
  | none =>
    obtain ⟨vnet, isIdle⟩ := grantable.free own
    have absent := inv.absent_of_idle isIdle
    have quiet := inv.quiet absent
    have different : input ≠ out := by
      intro same
      rw [same, absent] at present
      cases present
    have started : o.departed = 0 := by
      rcases inv.unlinked input o router present own with zero | all
      · exact zero
      · omega
    have credit : 0 < (s.outVcState out).creditCount := by
      have full : (s.outVcState out).creditCount = cfg.buffersPerVc (cfg.vnetOf out.2) := quiet.credits
      rw [full]
      exact cfg.buffersPerVc_pos _
    exact ⟨o, { packet := f.packet, owner := some input },
      { present, packet, id, bound := by omega, next, different, busy := quiet.accept _ _, owner := rfl
        same := packet, level := started.symm, credit, known := Or.inr ⟨own, absent, vnet, rfl⟩ }⟩

end Conserved

def Occupied.granted (occ : Occupied) (input out : Nat × Nat) (o o' : Occupancy Packet Nat Nat) : Occupied :=
  update (update occ input (some { o with departed := o.departed + 1 })) out (some { o' with sent := o'.sent + 1 })

theorem Conserved.Granting.track {input out : Nat × Nat} {f : Flit}
    {o o' : Occupancy Packet Nat Nat} (granting : Conserved.Granting cfg s occ input out f o o') :
    (if (s.virtualChannels input).outputVc = none then
        ((occ.departing input).starting out f.packet (some input)).sending out
      else (occ.departing input).sending out) = occ.granted input out o o' := by
  have present := granting.present
  have different := granting.different.symm
  unfold Occupied.granted
  rcases granting.known with ⟨own, occupied⟩ | ⟨own, absent, -, rfl⟩
  · simp [own, Occupied.sending, Occupied.departing, present, different, occupied]
  · simp [own, Occupied.sending, Occupied.departing, Occupied.starting, present]

namespace Conserved

variable {s : Flow} {occ : Occupied} {c : Nat × Nat}

section Grant

variable {r t outport : Nat} {input out : Nat × Nat} {f : Flit} {rest : List Flit} {o o' : Occupancy Packet Nat Nat}

theorem grant_opened (inv : Conserved cfg s occ) (sink : cfg.sink input.1 = some (.router r))
    (top : (s.virtualChannels input).inputBuffer = f :: rest) (granting : Granting cfg s occ input out f o o') (c) :
    Opened cfg (s.grant t outport input out f rest) (occ.granted input out o o') c ↔
      if c = input then f.isTail = false else Opened cfg s occ c := by
  have router := Config.intoRouter_iff.mpr ⟨r, sink⟩
  have tail := Flit.isTail_iff granting.bound
  have size : f.size = o.packet.size := congrArg Packet.size granting.packet
  have id := granting.id
  have bound := granting.bound
  unfold Opened
  split
  · rename_i here
    subst here
    have notLast : f.isTail = false ↔ f.id + 1 ≠ f.size := by
      rw [← Bool.not_eq_true, not_congr tail]
    rw [notLast, Occupied.granted, update_of_ne granting.different, update_self]
    simp only [router, true_and, Option.some.injEq, exists_eq_left', ne_eq]
    omega
  · rename_i other
    have channel : (s.grant t outport input out f rest).virtualChannels c = s.virtualChannels c :=
      update_of_ne other _ _
    rw [channel]
    unfold Occupied.granted
    by_cases there : c = out
    · subst there
      rw [update_self]
      rcases granting.known with ⟨-, occupied⟩ | ⟨-, absent, -, fresh⟩
      · simp [occupied]
      · simp [absent, fresh, inv.buffer_of_absent absent]
    · rw [update_of_ne there, update_of_ne other]

theorem grant_linked (inv : Conserved cfg s occ) (grantable : Grantable cfg s t outport input out)
    (granting : Granting cfg s occ input out f o o') {w : Nat}
    (owned : ((s.grant t outport input out f rest).virtualChannels c).outputVc = some w) :
    ∃ l, cfg.target c.1 ((s.grant t outport input out f rest).virtualChannels c).outputPort = some l ∧
      Linked (occ.granted input out o o') c (l, w) := by
  have size : f.size = o.packet.size := congrArg Packet.size granting.packet
  have id := granting.id
  by_cases here : c = input
  · subst here
    have last := not_congr (Flit.isTail_iff granting.bound)
    have bound := granting.bound
    simp only [Flow.grant, update_self] at owned ⊢
    split at owned
    · cases owned
    · rename_i body
      cases owned
      simp only [body]
      have unfinished := last.mp body
      refine ⟨out.1, by rw [grantable.port]; exact grantable.target, { o with departed := o.departed + 1 },
        { o' with sent := o'.sent + 1 }, ?_, ?_, granting.owner, granting.same, ?_, ?_, ?_⟩
      · rw [Occupied.granted, update_of_ne granting.different, update_self]
      · exact update_self ..
      · show o'.sent + 1 = o.departed + 1
        rw [granting.level]
      · show 0 < o.departed + 1
        omega
      · show o.departed + 1 < o.packet.size
        omega
  · have channel : (s.grant t outport input out f rest).virtualChannels c = s.virtualChannels c :=
      update_of_ne here _ _
    rw [channel] at owned ⊢
    obtain ⟨l, target, linked⟩ := inv.linked c w owned
    refine ⟨l, target, ?_⟩
    unfold Occupied.granted
    have departed : Linked (update occ input (some { o with departed := o.departed + 1 })) c (l, w) :=
      linked.update granting.present rfl rfl (fun same => (here same).elim) fun _ => rfl
    have elsewhere : (l, w) ≠ out := by
      rintro rfl
      obtain ⟨-, o₂, -, occupied, own, -⟩ := linked
      rcases granting.known with ⟨-, known⟩ | ⟨-, absent, -⟩
      · cases known.symm.trans occupied
        exact here (Option.some.inj (own.symm.trans granting.owner))
      · rw [absent] at occupied
        cases occupied
    rcases granting.known with ⟨-, occupied⟩ | ⟨-, absent, -, -⟩
    · have still := occupied
      rw [← update_of_ne granting.different.symm (some { o with departed := o.departed + 1 }) occ] at still
      exact departed.update still rfl rfl (fun _ => rfl) fun same => (elsewhere same).elim
    · obtain ⟨o₁, o₂, atC, atD, facts⟩ := departed
      have there : c ≠ out := by
        rintro rfl
        rw [update_of_ne granting.different.symm, absent] at atC
        cases atC
      exact ⟨o₁, o₂, by rw [update_of_ne there, atC], by rw [update_of_ne elsewhere, atD], facts⟩

theorem grant_carries (inv : Conserved cfg s occ) (sink : cfg.sink input.1 = some (.router r))
    (top : (s.virtualChannels input).inputBuffer = f :: rest) (grantable : Grantable cfg s t outport input out)
    (granting : Granting cfg s occ input out f o o') (c) :
    Carries Packet.size (cfg.buffersPerVc (cfg.vnetOf c.2)) ((s.grant t outport input out f rest).hop cfg c)
      (occ.granted input out o o' c) := by
  have router := Config.intoRouter_iff.mpr ⟨r, sink⟩
  have target := grantable.target
  have different := granting.different
  unfold Occupied.granted
  by_cases there : c = out
  · subst there
    rw [grant_hop_out target different, update_self]
    have key : f.key = (o'.packet, o'.sent) :=
      Prod.ext (granting.packet.trans granting.same.symm) (granting.id.trans granting.level.symm)
    have below : o'.sent < o'.packet.size := by
      have size : f.size = o'.packet.size := congrArg (fun x => x.1.size) key
      have id : f.id = o'.sent := congrArg Prod.snd key
      have bound := granting.bound
      omega
    rw [key]
    exact granting.busy.switch granting.owner granting.credit below
  · rw [update_of_ne there]
    by_cases here : c = input
    · subst here
      rw [grant_hop_input target different, update_self]
      have unstalled : inChannel c.2 (s.stallQueue c.1) = [] := by
        rw [inv.stallQueue_router router]
        rfl
      have first : (s.hop cfg c).flying =
          f.key :: ((s.grant t outport c out f rest).flying c).map Flit.key :=
        congrArg (List.map Flit.key) (grant_flying_self top unstalled)
      have tail : f.isTail = decide (f.id + 1 = f.size) := by
        rw [Bool.eq_iff_iff, Flit.isTail_iff granting.bound, decide_eq_true_iff]
      rw [tail]
      exact (inv.busy granting.present).depart first
    · rw [update_of_ne here, grant_hop_other target here there]
      exact inv.carries c

theorem grant (inv : Conserved cfg s occ) (sink : cfg.sink input.1 = some (.router r))
    (now : s.due (.router r) = t + 1) (top : (s.virtualChannels input).inputBuffer = f :: rest)
    (grantable : Grantable cfg s t outport input out) (granting : Granting cfg s occ input out f o o') :
    Conserved cfg (s.grant t outport input out f rest) (occ.granted input out o o') := by
  have router := Config.intoRouter_iff.mpr ⟨r, sink⟩
  have different := granting.different
  have tail := Flit.isTail_iff granting.bound
  have size : f.size = o.packet.size := congrArg Packet.size granting.packet
  have id := granting.id
  have channel : ∀ c, c ≠ input → (s.grant t outport input out f rest).virtualChannels c = s.virtualChannels c :=
    fun c other => update_of_ne other _ _
  have outState : ∀ c, c ≠ out → (s.grant t outport input out f rest).outVcState c = s.outVcState c :=
    fun c other => update_of_ne other _ _
  have wasOpened : (s.virtualChannels input).state = .active := by
    refine inv.opened input ⟨router, o, granting.present, by simp [top], ?_⟩
    have bound := granting.bound
    omega
  refine
    { carries := inv.grant_carries sink top grantable granting
      capacity := fun c => ?_
      idle := fun c absent => ?_
      active := fun c x occupied => ?_
      vnet := fun c x occupied => ?_
      opened := fun c isOpen => ?_
      closed := fun c notOpen => ?_
      linked := fun c w owned => inv.grant_linked grantable granting owned
      unlinked := fun c x into occupied none => ?_
      stalled := inv.stalled
      interface := fun c outside => ?_
      injected := inv.injected
      opened_before := fun c r' sink' active => ?_
      active_before := fun c x input' r' occupied owned sink' => ?_
      safe := ?_ }
  · by_cases there : c = out
    · subst there
      simp only [Flow.grant, update_self]
      split
      · exact inv.capacity c
      · exact inv.capacity c
    · rw [outState c there]
      exact inv.capacity c
  · have there : c ≠ out := by
      rintro rfl
      simp [Occupied.granted] at absent
    rw [outState c there]
    refine inv.idle c ?_
    rw [Occupied.granted, update_of_ne there] at absent
    by_cases here : c = input
    · simp [here] at absent
    · rwa [update_of_ne here] at absent
  · by_cases there : c = out
    · subst there
      simp only [Flow.grant, update_self]
      split
      · rfl
      · rename_i owned
        rcases granting.known with ⟨-, known⟩ | ⟨free, -⟩
        · exact inv.active c o' known
        · exact (owned free).elim
    · rw [outState c there]
      rw [Occupied.granted, update_of_ne there] at occupied
      by_cases here : c = input
      · subst here
        exact inv.active c o granting.present
      · rw [update_of_ne here] at occupied
        exact inv.active c x occupied
  · have sameVnet := inv.vnet input o granting.present
    rw [Occupied.granted] at occupied
    by_cases there : c = out
    · subst there
      rw [update_self] at occupied
      cases occupied
      show o'.packet.vnet = cfg.vnetOf c.2
      rcases granting.known with ⟨-, known⟩ | ⟨-, -, vnets, -⟩
      · exact inv.vnet c o' known
      · rw [granting.same, sameVnet, vnets]
    · rw [update_of_ne there] at occupied
      by_cases here : c = input
      · subst here
        rw [update_self] at occupied
        cases occupied
        exact sameVnet
      · rw [update_of_ne here] at occupied
        exact inv.vnet c x occupied
  · rw [inv.grant_opened sink top granting c] at isOpen
    by_cases here : c = input
    · rw [if_pos here] at isOpen
      subst here
      simpa [Flow.grant, isOpen] using wasOpened
    · rw [if_neg here] at isOpen
      rw [channel c here]
      exact inv.opened c isOpen
  · rw [inv.grant_opened sink top granting c] at notOpen
    by_cases here : c = input
    · rw [if_pos here, Bool.not_eq_false] at notOpen
      subst here
      simp [Flow.grant, notOpen, VirtualChannel.setIdle]
    · rw [if_neg here] at notOpen
      rw [channel c here]
      exact inv.closed c notOpen
  · rw [Occupied.granted] at occupied
    by_cases here : c = input
    · subst here
      rw [update_of_ne different, update_self] at occupied
      cases occupied
      simp only [Flow.grant, update_self] at none
      split at none
      · rename_i last
        refine Or.inr ?_
        show o.departed + 1 = o.packet.size
        have := tail.mp last
        omega
      · cases none
    · rw [channel c here] at none
      by_cases there : c = out
      · subst there
        rw [update_self] at occupied
        cases occupied
        rcases granting.known with ⟨-, known⟩ | ⟨-, -, -, fresh⟩
        · exact inv.unlinked c o' into known none
        · rw [fresh]
          exact Or.inl rfl
      · rw [update_of_ne there, update_of_ne here] at occupied
        exact inv.unlinked c x into occupied none
  · have here : c ≠ input := by
      rintro rfl
      rw [router] at outside
      cases outside
    rw [channel c here]
    exact inv.interface c outside
  · by_cases here : c = input
    · subst here
      have before := inv.opened_before c r' sink' wasOpened
      simp only [Flow.grant, update_self] at active ⊢
      split at active
      · cases active
      · rename_i body
        simpa [body] using before
    · rw [channel c here] at active ⊢
      exact inv.opened_before c r' sink' active
  · rw [Occupied.granted] at occupied
    by_cases there : c = out
    · subst there
      rw [update_self] at occupied
      cases occupied
      obtain rfl : input = input' := Option.some.inj (granting.owner.symm.trans owned)
      obtain rfl : r = r' := by simpa using sink.symm.trans sink'
      simp only [Flow.grant, update_self]
      split
      · show t < s.due (.router r)
        omega
      · rename_i held
        rcases granting.known with ⟨-, known⟩ | ⟨free, -⟩
        · exact inv.active_before c o' input r known owned sink
        · exact (held free).elim
    · rw [outState c there]
      rw [update_of_ne there] at occupied
      by_cases here : c = input
      · subst here
        rw [update_self] at occupied
        cases occupied
        exact inv.active_before c o input' r' granting.present owned sink'
      · rw [update_of_ne here] at occupied
        exact inv.active_before c x input' r' occupied owned sink'
  · have fits : (s.outVcState out).decrementAssertion = true := by
      rw [OutVcState.decrementAssertion, decide_eq_true_eq]
      exact granting.credit
    have empty : (f.isTail && isReady rest t) = false := by
      rw [Bool.and_eq_false_imp]
      intro last
      rw [← Bool.not_eq_true]
      intro ready
      obtain ⟨g, more, queue, -⟩ := isReady_iff.mp ready
      have following := granting.next g (by rw [top, queue]; exact mem_cons_self)
      have := tail.mp last
      omega
    simpa [Flow.grant, Flow.check, fits, empty] using inv.safe

end Grant

end Conserved

theorem Tracked.conserved {s : Flow} {occ : Occupied} (tracked : Tracked cfg R s occ) : Conserved cfg s occ := by
  induction tracked with
  | init => exact .init
  | wake _ later ih => exact ih.wake later
  | act _ act ih =>
    cases act with
    | fail other => exact ih.fail other
    | link top time => exact ih.link top time
    | creditLink top time => exact ih.creditLink top time
    | receive sink now top _ same => exact ih.receive sink now top same
    | credit top => exact ih.credit top
    | assertAllocation now => exact ih.assertAllocation now
    | grant sink now top _ _ grantable =>
      obtain ⟨o, o', granting⟩ := ih.granting sink top grantable
      show Conserved cfg _ (if _ then _ else _)
      rw [granting.track]
      exact ih.grant sink now top grantable granting
    | cross top target time => exact ih.cross top target time
    | inject _ start idle => exact ih.inject start.vnet idle
    | messages => exact { ih with }
    | allocator => exact { ih with }
    | send _ _ top credit _ time => exact ih.send top credit time
    | eject sink top _ t => exact ih.eject sink top t
    | stall sink top tail => exact ih.stall sink top tail
    | unstall sink queue _ t => exact ih.unstall sink queue t

def Flow.crossbarFlits (cfg : Config) (s : Flow) (c : Nat × Nat) : List Flit :=
  (List.range cfg.links.length).flatMap (s.switching cfg c)

theorem Conserved.conservation (inv : Conserved cfg s occ) (c : Nat × Nat) :
    (s.outVcState c).creditCount + (s.crossbarFlits cfg c).length + (s.flying c).length + (s.returning c).length =
      cfg.buffersPerVc (cfg.vnetOf c.2) := by
  have complete : ∀ i, (s.hop cfg c).switching i ≠ [] → i ∈ List.range cfg.links.length := by
    intro i someFlit
    obtain ⟨x, present⟩ := exists_mem_of_ne_nil _ someFlit
    obtain ⟨f, switching, -⟩ := mem_map.mp present
    have target := (mem_filter.mp switching).2
    simp only [Bool.and_eq_true, beq_iff_eq] at target
    cases link : cfg.links[i]? with
    | none =>
      have nowhere : cfg.sink i = none := by simp [Config.sink, link]
      simp [Config.target, nowhere] at target
    | some _ => exact mem_range.mpr (List.getElem?_eq_some_iff.mp link).1
  have total := (inv.carries c).conservation nodup_range complete
  simpa [Flow.hop, Flow.crossbarFlits, length_flatMap] using total

/-- Credits are conserved on every hop: what an output virtual channel may still send, what it has
sent and the receiver still holds, and the credits on their way back add up to the size of the
receiver's buffer. An idle output virtual channel has all its credits. No assertion about credits
or virtual channel states ever fails. -/
theorem credit_conservation (cfg : Config) (events : List Event) (l vc : Nat) :
    let s := (Net.run cfg events).flow
    let out := s.outVcState (l, vc)
    out.creditCount + (s.crossbarFlits cfg (l, vc)).length + (inChannel vc (s.outQueue l)).length +
        (inChannel vc (s.linkBuffer l)).length + (s.virtualChannels (l, vc)).inputBuffer.length +
        (inChannel vc (s.stallQueue l)).length + (s.returning (l, vc)).length = out.maxCreditCount ∧
      out.maxCreditCount = cfg.buffersPerVc (cfg.vnetOf vc) ∧
      (out.state = .idle → out.creditCount = out.maxCreditCount) ∧
      ∀ fault ∈ s.faults, fault.isFlowControl = false := by
  intro s out
  have follows : Net.Follows cfg (fun _ _ _ _ => True) events := Net.follows_true events
  obtain ⟨occ, tracked⟩ := (Net.run_reachable follows).tracked
  have inv : Conserved cfg s occ := tracked.conserved
  have capacity : out.maxCreditCount = cfg.buffersPerVc (cfg.vnetOf vc) := inv.capacity (l, vc)
  refine ⟨?_, capacity, fun idle => ?_, inv.safe⟩
  · have total : out.creditCount + (s.crossbarFlits cfg (l, vc)).length + (s.flying (l, vc)).length +
        (s.returning (l, vc)).length = out.maxCreditCount :=
      (inv.conservation (l, vc)).trans capacity.symm
    simp only [Flow.flying, length_append] at total
    omega
  · rw [capacity]
    exact (inv.quiet (inv.absent_of_idle idle)).credits

end Resister.Garnet
