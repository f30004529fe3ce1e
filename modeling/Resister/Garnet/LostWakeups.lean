import Resister.Garnet.RouterWakeups

/-!
# After a wakeup of a router

What is ready and left over when a router goes back to sleep has made it, or the output unit,
request a wakeup in the next cycle.
-/

namespace Resister.Garnet

open Function (update update_self update_of_ne)
open Library List

variable {cfg : Config} {r t : Nat}

/-- If anything that is left is ready, a wakeup comes in the next cycle. -/
structure Rested (cfg : Config) (r t : Nat) (s : Net) : Prop where
  flits : ∀ l, cfg.sink l = some (.router r) → ∀ f ∈ s.flow.linkBuffer l, f.time ≤ t →
    t + cfg.routerPeriod r ∈ s.pending (.router r)
  credits : ∀ l, cfg.source l = some (.router r) → ∀ c ∈ s.flow.creditLinkBuffer l, c.time ≤ t →
    t + cfg.routerPeriod r ∈ s.pending (.outputUnit l)
  channels : ∀ l, cfg.sink l = some (.router r) → ∀ vc < cfg.numVcs,
    ∀ f ∈ (s.flow.virtualChannels (l, vc)).inputBuffer, f.stage.2 ≤ t →
      t + cfg.routerPeriod r ∈ s.pending (.router r)

variable {s : Net}

theorem Answers.foldl_each {α : Type} {who : Component} {body : Net → α → Net} {xs : List α} {P : α → Net → Prop}
    (answers : ∀ s, ∀ x ∈ xs, Answers cfg who t s (body s x))
    (made : ∀ s, ∀ x ∈ xs, Ordered cfg t s.flow → (body s x).flow.faults = [] → P x (body s x))
    (kept : ∀ x s s', Answers cfg who t s s' → P x s → P x s') (ordered : Ordered cfg t s.flow)
    (none : (xs.foldl body s).flow.faults = []) : ∀ x ∈ xs, P x (xs.foldl body s) := by
  induction xs generalizing s with
  | nil =>
    intro x member
    cases member
  | cons y xs ih =>
    have later : ∀ s, ∀ x ∈ xs, Answers cfg who t s (body s x) := fun s x member =>
      answers s x (mem_cons_of_mem _ member)
    have rest := Answers.foldl later (body s y)
    have first := answers s y mem_cons_self
    intro x member
    rcases mem_cons.mp member with rfl | behind
    · exact kept x _ _ rest (made s x mem_cons_self ordered (rest.faults none))
    · exact ih later (fun s z inside => made s z (mem_cons_of_mem _ inside)) (first.ordered ordered) none x
        behind

namespace InputUnit

variable {inport l : Nat} {draws : Draws}

theorem accept_leaves {f : Flit} {rest : List Flit} {s : Net}
    (none : (accept cfg r inport l t draws f rest s).flow.faults = []) :
    (accept cfg r inport l t draws f rest s).flow.linkBuffer l = rest := by
  unfold accept at none ⊢
  split at none
  · cases none
  · rw [Net.scheduleIf_flow]
    exact update_self ..

theorem wakeupPlain_leaves {s : Net} (ordered : Ordered cfg t s.flow)
    (none : (wakeupPlain cfg r inport l t draws s).flow.faults = []) :
    ∀ f ∈ (wakeupPlain cfg r inport l t draws s).flow.linkBuffer l, f.time ≤ t →
      t + cfg.routerPeriod r ∈ (wakeupPlain cfg r inport l t draws s).pending (.router r) := by
  have inTime := ordered.flits l
  unfold wakeupPlain at none ⊢
  cases top : s.flow.linkBuffer l with
  | nil =>
    intro f member
    simp [top] at member
  | cons first rest =>
    rw [top] at inTime none
    dsimp only at none ⊢
    intro f member due
    by_cases ready : first.time ≤ t
    · simp only [ready, if_true, Net.scheduleIf_flow] at none member ⊢
      rw [accept_leaves none] at member
      obtain ⟨next, behind, split, early⟩ := (inTime.sublist (sublist_cons_self ..)).head_ready member due
      have another : isReady rest t = true := isReady_iff.mpr ⟨next, behind, split, early⟩
      simp [Net.scheduleIf, another, Net.schedule]
    · -- Nothing behind a flit that is not ready is ready.
      simp only [ready, if_false, top] at member
      obtain ⟨head, behind, split, early⟩ := inTime.head_ready member due
      cases split
      exact absurd early ready

end InputUnit

theorem outputUnitWakeup_leaves {l : Nat} (source : cfg.source l = some (.router r))
    (ordered : Ordered cfg t s.flow) :
    ∀ c ∈ (OutputUnit.wakeup cfg t s l).flow.creditLinkBuffer l, c.time ≤ t →
      t + cfg.routerPeriod r ∈ (OutputUnit.wakeup cfg t s l).pending (.outputUnit l) := by
  have inTime := ordered.credits l
  unfold OutputUnit.wakeup
  cases top : s.flow.creditLinkBuffer l with
  | nil =>
    intro c member
    simp [top] at member
  | cons first rest =>
    rw [top] at inTime
    dsimp only
    intro c member due
    by_cases ready : first.time ≤ t
    · simp only [ready, if_true, Net.scheduleIf_flow, Flow.creditArrives, update_self] at member ⊢
      obtain ⟨next, behind, split, early⟩ := (inTime.sublist (sublist_cons_self ..)).head_ready member due
      simp [Net.scheduleIf, split, early, Net.schedule, source]
    · simp only [ready, if_false, top] at member
      obtain ⟨head, behind, split, early⟩ := inTime.head_ready member due
      cases split
      exact absurd early ready

theorem SwitchAllocator.checkForWakeup_leaves (ordered : Ordered cfg t s.flow) {l vc : Nat}
    (sink : cfg.sink l = some (.router r)) (exists_ : vc < cfg.numVcs) {f : Flit}
    (member : f ∈ (s.flow.virtualChannels (l, vc)).inputBuffer) (due : f.stage.2 ≤ t) :
    t + cfg.routerPeriod r ∈ (checkForWakeup cfg r t s).pending (.router r) := by
  obtain ⟨first, rest, split, early⟩ := (ordered.channels r (l, vc) sink).head_ready member due
  obtain ⟨stage, arrived⟩ := ordered.staged r (l, vc) sink first (by simp [split])
  have needed : (s.flow.virtualChannels (l, vc)).needStage .sa (t + cfg.routerPeriod r) = true :=
    VirtualChannel.needStage_iff.mpr ⟨first, rest, split, by omega, stage, by omega⟩
  have found : ((cfg.inLinks (.router r)).any fun l => (List.range cfg.numVcs).any fun invc =>
      (s.flow.virtualChannels (l, invc)).needStage .sa (t + cfg.routerPeriod r)) = true := by
    refine any_eq_true.mpr ⟨l, Config.mem_inLinks.mpr sink, any_eq_true.mpr ⟨vc, ?_, needed⟩⟩
    exact mem_range.mpr exists_
  unfold checkForWakeup
  dsimp only
  by_cases already : (s.pending (.router r)).contains (t + cfg.routerPeriod r) = true
  · simp only [already, Bool.not_true, Bool.false_and, Net.scheduleIf]
    simpa using already
  · simp only [found, already, Bool.not_false, Bool.and_self, Net.scheduleIf, if_true, Net.schedule, update_self]
    exact mem_cons_self

theorem crossbarWakeup_channels (l : Nat) (s : Net) :
    (crossbarWakeup cfg r t s l).flow.virtualChannels = s.flow.virtualChannels := by
  unfold crossbarWakeup
  split
  · rfl
  · split
    · split
      · rfl
      · rfl
    · rfl

section Router

variable (plain : cfg.inputStruct ≠ .tdma) {draws : Nat → Draws}
include plain

theorem inputUnitWakeup_eq (s : Net) (port : Nat × Nat) :
    InputUnit.wakeup cfg r t draws s port = InputUnit.wakeupPlain cfg r port.2 port.1 t (draws port.2) s := by
  rw [InputUnit.wakeup, if_neg fun token => plain token.1]

theorem inputUnitWakeup_answers (s : Net) {port : Nat × Nat} (member : port ∈ (cfg.inLinks (.router r)).zipIdx) :
    Answers cfg (.router r) t s (InputUnit.wakeup cfg r t draws s port) := by
  rw [inputUnitWakeup_eq plain]
  exact InputUnit.wakeupPlain_answers (Config.mem_inLinks.mp (fst_mem_of_mem_zipIdx member)) s

theorem routerWakeup_answers (s : Net) : Answers cfg (.router r) t s (routerWakeup cfg r t draws s) := by
  unfold routerWakeup
  dsimp only
  refine .trans ?_ (.foldl (fun s l _ => crossbarWakeup_answers r l s) _)
  refine .trans ?_ (SwitchAllocator.wakeup_answers _)
  refine .trans ?_ (.foldl (fun s l _ => outputUnitWakeup_answers l s) _)
  exact .foldl (fun s port member => inputUnitWakeup_answers plain s member) s

theorem received_leaves {s : Net} (ordered : Ordered cfg t s.flow)
    (none : ((cfg.inLinks (.router r)).zipIdx.foldl (InputUnit.wakeup cfg r t draws) s).flow.faults = []) (l : Nat)
    (sink : cfg.sink l = some (.router r)) :
    ∀ f ∈ ((cfg.inLinks (.router r)).zipIdx.foldl (InputUnit.wakeup cfg r t draws) s).flow.linkBuffer l, f.time ≤ t →
      t + cfg.routerPeriod r ∈
        ((cfg.inLinks (.router r)).zipIdx.foldl (InputUnit.wakeup cfg r t draws) s).pending (.router r) := by
  obtain ⟨i, found⟩ := mem_iff_getElem?.mp (Config.mem_inLinks.mpr sink)
  have listed : (l, i) ∈ (cfg.inLinks (.router r)).zipIdx := mem_zipIdx_iff_getElem?.mpr found
  refine Answers.foldl_each
    (P := fun port s => ∀ f ∈ s.flow.linkBuffer port.1, f.time ≤ t → t + cfg.routerPeriod r ∈ s.pending (.router r))
    (fun s port member => inputUnitWakeup_answers plain s member) ?_ ?_ ordered none (l, i) listed
  · intro s port _ ordered none
    rw [inputUnitWakeup_eq plain] at none ⊢
    exact InputUnit.wakeupPlain_leaves ordered none
  · intro port s s' answers before f member due
    rcases answers.flits port.1 f member with old | ⟨elsewhere, -⟩
    · exact answers.kept _ (before f old due)
    · cases elsewhere

end Router

theorem credited_leaves (ordered : Ordered cfg t s.flow)
    (none : ((cfg.outLinks (.router r)).foldl (OutputUnit.wakeup cfg t) s).flow.faults = []) (l : Nat)
    (source : cfg.source l = some (.router r)) :
    ∀ c ∈ ((cfg.outLinks (.router r)).foldl (OutputUnit.wakeup cfg t) s).flow.creditLinkBuffer l, c.time ≤ t →
      t + cfg.routerPeriod r ∈
        ((cfg.outLinks (.router r)).foldl (OutputUnit.wakeup cfg t) s).pending (.outputUnit l) := by
  have answers : ∀ s, ∀ l ∈ cfg.outLinks (.router r), Answers cfg (.router r) t s (OutputUnit.wakeup cfg t s l) :=
    fun s l _ => outputUnitWakeup_answers l s
  refine Answers.foldl_each
    (P := fun l s => ∀ c ∈ s.flow.creditLinkBuffer l, c.time ≤ t → t + cfg.routerPeriod r ∈ s.pending (.outputUnit l))
    answers ?_ ?_ ordered none l (Config.mem_outLinks.mpr source)
  · intro s l member ordered _
    exact outputUnitWakeup_leaves (Config.mem_outLinks.mp member) ordered
  · intro l s s' answers before c member due
    rcases answers.credits l c member with old | ⟨elsewhere, -⟩
    · exact answers.kept _ (before c old due)
    · cases elsewhere

theorem crossbars_channels (links : List Nat) (s : Net) :
    (links.foldl (crossbarWakeup cfg r t) s).flow.virtualChannels = s.flow.virtualChannels := by
  induction links generalizing s with
  | nil => rfl
  | cons l links ih => exact (ih _).trans (crossbarWakeup_channels l s)

theorem allocated_leaves (ordered : Ordered cfg t s.flow) (l : Nat) (sink : cfg.sink l = some (.router r))
    (vc : Nat) (exists_ : vc < cfg.numVcs) :
    ∀ f ∈ ((SwitchAllocator.wakeup cfg r t s).flow.virtualChannels (l, vc)).inputBuffer, f.stage.2 ≤ t →
      t + cfg.routerPeriod r ∈ (SwitchAllocator.wakeup cfg r t s).pending (.router r) := by
  unfold SwitchAllocator.wakeup
  dsimp only
  intro f member due
  set asserted : Net := { s with flow := s.flow.assertAllocation cfg r t } with asserted_def
  set granted := (cfg.outLinks (.router r)).zipIdx.foldl (SwitchAllocator.arbitrateOutport cfg r t)
    (asserted, SwitchAllocator.arbitrateInports cfg asserted r t) with granted_def
  have arbitrated : Answers cfg (.router r) t asserted granted.1 :=
    SwitchAllocator.arbitrateOutports_answers _ (asserted, SwitchAllocator.arbitrateInports cfg asserted r t)
  have orderedAsserted : Ordered cfg t asserted.flow :=
    ⟨ordered.flits, ordered.credits, ordered.channels, ordered.staged⟩
  have same : (SwitchAllocator.checkForWakeup cfg r t granted.1).flow = granted.1.flow := Net.scheduleIf_flow ..
  rw [same] at member
  exact SwitchAllocator.checkForWakeup_leaves (arbitrated.ordered orderedAsserted) sink exists_ member due

theorem routerWakeup_rested (plain : cfg.inputStruct ≠ .tdma) {draws : Nat → Draws}
    (ordered : Ordered cfg t s.flow) (none : (routerWakeup cfg r t draws s).flow.faults = []) :
    Rested cfg r t (routerWakeup cfg r t draws s) := by
  unfold routerWakeup at none ⊢
  dsimp only at none ⊢
  set received := (cfg.inLinks (.router r)).zipIdx.foldl (InputUnit.wakeup cfg r t draws) s with received_def
  set credited := (cfg.outLinks (.router r)).foldl (OutputUnit.wakeup cfg t) received with credited_def
  set allocated := SwitchAllocator.wakeup cfg r t credited with allocated_def
  have receiving : Answers cfg (.router r) t s received :=
    .foldl (fun s port member => inputUnitWakeup_answers plain s member) s
  have crediting : Answers cfg (.router r) t received credited :=
    .foldl (fun s l _ => outputUnitWakeup_answers l s) received
  have allocating : Answers cfg (.router r) t credited allocated := SwitchAllocator.wakeup_answers credited
  have crossing : Answers cfg (.router r) t allocated
      ((cfg.inLinks (.router r)).foldl (crossbarWakeup cfg r t) allocated) :=
    .foldl (fun s l _ => crossbarWakeup_answers r l s) allocated
  have later := allocating.trans crossing
  have rest := crediting.trans later
  have orderedReceived := receiving.ordered ordered
  refine ⟨?_, ?_, ?_⟩
  · intro l sink f member due
    rcases rest.flits l f member with old | ⟨elsewhere, -⟩
    · exact rest.kept _ (received_leaves plain ordered (rest.faults none) l sink f old due)
    · cases elsewhere
  · intro l source c member due
    rcases later.credits l c member with old | ⟨elsewhere, -⟩
    · exact later.kept _ (credited_leaves orderedReceived (later.faults none) l source c old due)
    · cases elsewhere
  · intro l sink vc exists_ f member due
    rw [crossbars_channels] at member
    exact crossing.kept _ (allocated_leaves (crediting.ordered orderedReceived) l sink vc exists_ f member due)

/-- The objects for which `awake` holds are in the middle of a wakeup at tick `t`. Everything in the queues of a router is
expected by it, or by the output unit if it is a credit. -/
structure Attends (cfg : Config) (awake : Component → Prop) (t : Nat) (s : Net) : Prop where
  flits : ∀ l r, cfg.sink l = some (.router r) → ∀ f ∈ s.flow.linkBuffer l,
    Expected (awake (.router r)) (cfg.routerPeriod r) (s.wakeupTicks cfg (.router r)) t f.time
  credits : ∀ l r, cfg.source l = some (.router r) → ∀ c ∈ s.flow.creditLinkBuffer l,
    Expected (awake (.router r) ∨ awake (.outputUnit l)) (cfg.routerPeriod r)
      (s.wakeupTicks cfg (.router r) ++ s.wakeupTicks cfg (.outputUnit l)) t c.time
  channels : ∀ l r, cfg.sink l = some (.router r) → ∀ vc < cfg.numVcs,
    ∀ f ∈ (s.flow.virtualChannels (l, vc)).inputBuffer,
      Expected (awake (.router r)) (cfg.routerPeriod r) (s.wakeupTicks cfg (.router r)) t f.stage.2

namespace Attends

variable {c : Component} {now : Nat} {s s' : Net}

variable {d : Component}

theorem mem_process {tick : Nat} (member : tick ∈ s.wakeupTicks cfg d) (kept : ¬ d = c ∨ tick ≠ t) :
    tick ∈ (s.process cfg c t).wakeupTicks cfg d := by
  obtain ⟨time, pending, rfl⟩ := mem_map.mp member
  refine mem_map.mpr ⟨time, ?_, rfl⟩
  by_cases same : d = c
  · subst same
    have other := kept.resolve_left fun different => different rfl
    simpa [Net.process, pending] using other
  · simpa [Net.process, same] using pending

theorem process (attends : Attends cfg (fun _ => False) now s) (pos : ∀ r, 0 < cfg.routerPeriod r) (later : now ≤ t) :
    Attends cfg (· = c) t (s.process cfg c t) where
  flits := fun l r sink f member =>
    (attends.flits l r sink f member).wake (pos r) later fun _ pending kept => mem_process pending kept
  credits := by
    intro l r source d member
    have before := attends.credits l r source d member
    rw [or_self] at before
    refine before.wake (pos r) later fun tick pending kept => ?_
    rcases mem_append.mp pending with router | unit
    · exact mem_append_left _ (mem_process router (kept.imp_left fun quiet same => quiet (Or.inl same)))
    · exact mem_append_right _ (mem_process unit (kept.imp_left fun quiet same => quiet (Or.inr same)))
  channels := fun l r sink vc exists_ f member =>
    (attends.channels l r sink vc exists_ f member).wake (pos r) later fun _ pending kept => mem_process pending kept

theorem wakeupTicks_mono (kept : s.pending d ⊆ s'.pending d) :
    s.wakeupTicks cfg d ⊆ s'.wakeupTicks cfg d := map_subset _ kept

theorem mem_wakeupTicks {time : Nat} (pending : time ∈ s.pending (.router r)) :
    clockEdge (cfg.routerPeriod r) time ∈ s.wakeupTicks cfg (.router r) := mem_map_of_mem pending

theorem answers (attends : Attends cfg (· = c) t s) (answers : Answers cfg c t s s') : Attends cfg (· = c) t s' where
  flits := by
    intro l r sink f member
    rcases answers.flits l f member with old | ⟨-, requested⟩
    · exact (attends.flits l r sink f old).mono (wakeupTicks_mono (answers.kept _)) (Nat.le_refl t)
    · exact Or.inl (mem_wakeupTicks (requested r sink))
  credits := by
    intro l r source d member
    rcases answers.credits l d member with old | ⟨-, requested⟩
    · refine (attends.credits l r source d old).mono ?_ (Nat.le_refl t)
      intro tick pending
      rcases mem_append.mp pending with router | unit
      · exact mem_append_left _ (wakeupTicks_mono (answers.kept _) router)
      · exact mem_append_right _ (wakeupTicks_mono (answers.kept _) unit)
    · exact Or.inl (mem_append_left _ (mem_wakeupTicks (requested r source)))
  channels := by
    intro l r sink vc exists_ f member
    rcases answers.channels (l, vc) f member with old | ⟨q, here, sink', requested⟩
    · exact (attends.channels l r sink vc exists_ f old).mono (wakeupTicks_mono (answers.kept _)) (Nat.le_refl t)
    · obtain rfl : q = r := by
        rw [sink] at sink'
        cases sink'
        rfl
      by_cases future : t < f.stage.2
      · exact Or.inl (mem_wakeupTicks (requested future))
      · exact Or.inr ⟨by omega, Or.inl here.symm⟩

theorem settle_other (attends : Attends cfg (· = c) t s) (notRouter : ∀ r, c ≠ .router r)
    (notUnit : ∀ l, c ≠ .outputUnit l) : Attends cfg (fun _ => False) t s where
  flits := fun l r sink f member =>
    (attends.flits l r sink f member).settle fun same => absurd same.symm (notRouter r)
  credits := by
    intro l r source d member
    rw [or_self]
    refine (attends.credits l r source d member).settle ?_
    rintro (same | same)
    · exact absurd same.symm (notRouter r)
    · exact absurd same.symm (notUnit l)
  channels := fun l r sink vc exists_ f member =>
    (attends.channels l r sink vc exists_ f member).settle fun same => absurd same.symm (notRouter r)

theorem next_cycle (edge : cfg.routerPeriod r ∣ t) (period : cfg.period d = cfg.routerPeriod r)
    (pending : t + cfg.routerPeriod r ∈ s.pending d) :
    ∃ tick ∈ s.wakeupTicks cfg d, tick ≤ nextEdge (cfg.routerPeriod r) t := by
  refine ⟨_, mem_map_of_mem pending, ?_⟩
  rw [period, clockEdge_of_dvd (Nat.dvd_add edge (Nat.dvd_refl _)), nextEdge_of_dvd edge]

theorem settle_router (attends : Attends cfg (· = .router r) t s) (rested : Rested cfg r t s)
    (edge : cfg.routerPeriod r ∣ t) : Attends cfg (fun _ => False) t s where
  flits := by
    intro l q sink f member
    refine (attends.flits l q sink f member).settle fun same due => ?_
    cases same
    exact next_cycle edge rfl (rested.flits l sink f member due)
  credits := by
    intro l q source d member
    rw [or_self]
    refine (attends.credits l q source d member).settle fun same due => ?_
    rcases same with same | same
    · cases same
      obtain ⟨tick, pending, soon⟩ :=
        next_cycle edge (Config.period_outputUnit source) (rested.credits l source d member due)
      exact ⟨tick, mem_append_right _ pending, soon⟩
    · cases same
  channels := by
    intro l q sink vc exists_ f member
    refine (attends.channels l q sink vc exists_ f member).settle fun same due => ?_
    cases same
    exact next_cycle edge rfl (rested.channels l sink vc exists_ f member due)

theorem settle_outputUnit {k : Nat} (attends : Attends cfg (· = .outputUnit k) t s)
    (rested : ∀ r, cfg.source k = some (.router r) → ∀ d ∈ s.flow.creditLinkBuffer k, d.time ≤ t →
      cfg.routerPeriod r ∣ t ∧ t + cfg.routerPeriod r ∈ s.pending (.outputUnit k)) :
    Attends cfg (fun _ => False) t s where
  flits := fun l r sink f member => (attends.flits l r sink f member).settle nofun
  credits := by
    intro l r source d member
    rw [or_self]
    refine (attends.credits l r source d member).settle fun same due => ?_
    rcases same with same | same
    · cases same
    · cases same
      obtain ⟨edge, again⟩ := rested r source d member due
      obtain ⟨tick, pending, soon⟩ := next_cycle edge (Config.period_outputUnit source) again
      exact ⟨tick, mem_append_right _ pending, soon⟩
  channels := fun l r sink vc exists_ f member => (attends.channels l r sink vc exists_ f member).settle nofun

end Attends

namespace Simulation

variable {sim next : Simulation} {event : Nat × QueueEvent}

structure Sound (cfg : Config) (sim : Simulation) : Prop where
  ordered : Ordered cfg sim.now sim.net.flow
  attends : Attends cfg (fun _ => False) sim.now sim.net
  future : ∀ c ∈ cfg.components, ∀ tick ∈ sim.net.wakeupTicks cfg c, sim.now ≤ tick

theorem step_eq_some (stepped : step cfg sim event = some next) :
    sim.net.flow.faults = [] ∧ sim.now ≤ event.1 ∧ sim.net.earliest cfg event.1 = true ∧
      event.2.enabled cfg sim.net event.1 = true ∧ next = ⟨event.2.apply cfg sim.net event.1, event.1⟩ := by
  unfold step at stepped
  split at stepped
  · rename_i possible
    obtain ⟨none, later, earliest, enabled⟩ := possible
    exact ⟨none, later, earliest, enabled, by simpa using stepped.symm⟩
  · cases stepped

theorem earliest_le (earliest : sim.net.earliest cfg t = true) :
    ∀ c ∈ cfg.components, ∀ tick ∈ sim.net.wakeupTicks cfg c, t ≤ tick := by
  intro c listed tick pending
  have all := all_eq_true.mp (all_eq_true.mp earliest c listed) tick pending
  exact of_decide_eq_true all

variable {s : Net} {c : Component}

theorem future_of_answers {who : Component} {s' : Net} (pos : ∀ c, 0 < cfg.period c)
    (answers : Answers cfg who t s s') (before : ∀ tick ∈ s.wakeupTicks cfg c, t ≤ tick) :
    ∀ tick ∈ s'.wakeupTicks cfg c, t ≤ tick := by
  intro tick pending
  obtain ⟨time, requested, rfl⟩ := mem_map.mp pending
  rcases answers.added c time requested with old | new
  · exact before _ (mem_map_of_mem old)
  · exact new.trans (le_clockEdge (pos c))

theorem process_pending (s : Net) (c d : Component) : (s.process cfg c t).pending d ⊆ s.pending d := by
  by_cases same : d = c
  · subst same
    simp only [Net.process, update_self]
    exact filter_sublist.subset
  · simp [Net.process, same]

theorem component_answers (plain : cfg.inputStruct ≠ .tdma) (c : Component) (draws : Nat → Draws) (s : Net) :
    Answers cfg c t s (c.wakeup cfg t draws s) := by
  cases c with
  | router r => exact routerWakeup_answers plain s
  | outputUnit l => exact outputUnitWakeup_answers l s
  | link l => exact linkWakeup_answers l s
  | creditLink l => exact creditLinkWakeup_answers l s
  | ni n => exact NetworkInterface.wakeup_answers s

theorem dvd_of_pending (due : (s.wakeupTicks cfg c).contains t = true) : cfg.period c ∣ t := by
  have member : t ∈ s.wakeupTicks cfg c := by simpa using due
  obtain ⟨time, -, rfl⟩ := mem_map.mp member
  exact dvd_clockEdge

theorem settled (plain : cfg.inputStruct ≠ .tdma) {draws : Nat → Draws}
    (ordered : Ordered cfg t s.flow) (attends : Attends cfg (· = c) t (c.wakeup cfg t draws s))
    (edge : cfg.period c ∣ t) (none : (c.wakeup cfg t draws s).flow.faults = []) :
    Attends cfg (fun _ => False) t (c.wakeup cfg t draws s) := by
  cases c with
  | router r => exact attends.settle_router (routerWakeup_rested plain ordered none) edge
  | outputUnit l =>
    refine attends.settle_outputUnit fun r source d member due => ?_
    rw [Config.period_outputUnit source] at edge
    exact ⟨edge, outputUnitWakeup_leaves source ordered d member due⟩
  | link l => exact attends.settle_other nofun nofun
  | creditLink l => exact attends.settle_other nofun nofun
  | ni n => exact attends.settle_other nofun nofun

theorem Sound.wakeup (sound : sim.Sound cfg) (plain : cfg.inputStruct ≠ .tdma) (pos : ∀ c, 0 < cfg.period c)
    (later : sim.now ≤ t) (earliest : sim.net.earliest cfg t = true) {draws : Nat → Draws}
    (due : (sim.net.wakeupTicks cfg c).contains t = true)
    (none : (c.wakeup cfg t draws (sim.net.process cfg c t)).flow.faults = []) :
    Sound cfg ⟨c.wakeup cfg t draws (sim.net.process cfg c t), t⟩ := by
  have answers := component_answers plain c draws (sim.net.process cfg c t) (t := t)
  have ordered : Ordered cfg t (sim.net.process cfg c t).flow := sound.ordered.mono later
  refine ⟨answers.ordered ordered, ?_, ?_⟩
  · have woken := (sound.attends.process (c := c) (fun r => pos (.router r)) later).answers answers
    exact settled plain ordered woken (dvd_of_pending due) none
  · intro d listed
    refine future_of_answers pos answers fun tick pending => ?_
    exact earliest_le earliest d listed tick (map_subset _ (process_pending sim.net c d) pending)

theorem Sound.outside (sound : sim.Sound cfg) (pos : ∀ c, 0 < cfg.period c) (later : sim.now ≤ t)
    (earliest : sim.net.earliest cfg t = true) {n : Nat} {s' : Net} (answers : Answers cfg (.ni n) t sim.net s') :
    Sound cfg ⟨s', t⟩ := by
  refine ⟨answers.ordered (sound.ordered.mono later), ?_, ?_⟩
  · have awake : Attends cfg (· = .ni n) t sim.net :=
      { flits := fun l r sink f member =>
          (sound.attends.flits l r sink f member).wake (pos (.router r)) later fun _ pending _ => pending
        credits := by
          intro l r source d member
          have before := sound.attends.credits l r source d member
          rw [or_self] at before
          exact before.wake (pos (.router r)) later fun _ pending _ => pending
        channels := fun l r sink vc exists_ f member =>
          (sound.attends.channels l r sink vc exists_ f member).wake
          (pos (.router r)) later fun _ pending _ => pending }
    exact (awake.answers answers).settle_other nofun nofun
  · intro d listed
    exact future_of_answers pos answers (earliest_le earliest d listed)

theorem Sound.step (sound : sim.Sound cfg) (plain : cfg.inputStruct ≠ .tdma) (pos : ∀ c, 0 < cfg.period c)
    (stepped : Simulation.step cfg sim event = some next) (none : next.net.flow.faults = []) : next.Sound cfg := by
  obtain ⟨-, later, earliest, enabled, rfl⟩ := step_eq_some stepped
  obtain ⟨t, what⟩ := event
  cases what with
  | wakeup c draws => exact sound.wakeup plain pos later earliest enabled none
  | protocol n vnet queue requests =>
    have timely : ∀ time ∈ requests, t ≤ time := by
      simp only [QueueEvent.enabled, Bool.and_eq_true, all_eq_true, decide_eq_true_eq] at enabled
      exact enabled.2
    refine sound.outside (n := n) pos later earliest ?_
    refine .trans ?_ (.foldl (fun s time member => .schedule s _ (timely time member)) _)
    exact .same rfl rfl rfl rfl id
  | drain n vnet op =>
    refine sound.outside (n := n) pos later earliest ?_
    refine .trans ?_ (.scheduleIf _ _ _ (Nat.le_add_right ..))
    exact .same rfl rfl rfl rfl id

theorem start_sound : Sound cfg ⟨Net.init cfg, 0⟩ where
  ordered := ⟨fun _ => .nil, fun _ => .nil, fun _ _ _ => .nil, nofun⟩
  attends := ⟨nofun, nofun, nofun⟩
  future := nofun

theorem run_sound (plain : cfg.inputStruct ≠ .tdma) (pos : ∀ c, 0 < cfg.period c)
    {events : List (Nat × QueueEvent)} (ran : run cfg events = some sim) (none : sim.net.flow.faults = []) :
    sim.Sound cfg := by
  induction events using List.reverseRecOn generalizing sim with
  | nil =>
    obtain rfl : ⟨Net.init cfg, 0⟩ = sim := by simpa [run] using ran
    exact start_sound
  | append_singleton events event ih =>
    rw [run, foldlM_append] at ran
    obtain ⟨before, ranBefore, last⟩ := Option.bind_eq_some_iff.mp ran
    have stepped : Simulation.step cfg before event = some sim := by simpa using last
    exact (ih ranBefore (step_eq_some stepped).1).step plain pos stepped none

/-- Between the wakeups of any run, a router has a wakeup pending for every flit on a link that leads to it and in its
virtual channels, and it or the output unit has one for every credit: at the latest in the first cycle after the current
one in which the flit or credit is ready. -/
theorem no_lost_wakeup (cfg : Config) (plain : cfg.inputStruct ≠ .tdma) (pos : ∀ c, 0 < cfg.period c)
    (events : List (Nat × QueueEvent)) (sim : Simulation) (ran : run cfg events = some sim)
    (none : sim.net.flow.faults = []) :
    (∀ l r, cfg.sink l = some (.router r) → ∀ f ∈ sim.net.flow.linkBuffer l,
      ∃ tick ∈ sim.net.wakeupTicks cfg (.router r), sim.now ≤ tick ∧
        tick ≤ max (nextEdge (cfg.routerPeriod r) sim.now) (clockEdge (cfg.routerPeriod r) f.time)) ∧
    (∀ l r, cfg.source l = some (.router r) → ∀ c ∈ sim.net.flow.creditLinkBuffer l,
      ∃ tick ∈ sim.net.wakeupTicks cfg (.router r) ++ sim.net.wakeupTicks cfg (.outputUnit l), sim.now ≤ tick ∧
        tick ≤ max (nextEdge (cfg.routerPeriod r) sim.now) (clockEdge (cfg.routerPeriod r) c.time)) ∧
    ∀ l r, cfg.sink l = some (.router r) → ∀ vc < cfg.numVcs,
      ∀ f ∈ (sim.net.flow.virtualChannels (l, vc)).inputBuffer,
        ∃ tick ∈ sim.net.wakeupTicks cfg (.router r), sim.now ≤ tick ∧
          tick ≤ max (nextEdge (cfg.routerPeriod r) sim.now) (clockEdge (cfg.routerPeriod r) f.stage.2) := by
  obtain ⟨-, attends, future⟩ := run_sound plain pos ran none
  refine ⟨?_, ?_, ?_⟩
  · intro l r sink f member
    obtain ⟨tick, pending, soon⟩ := (attends.flits l r sink f member).deadline
    exact ⟨tick, pending, future _ (Config.sink_component sink) tick pending, soon⟩
  · intro l r source c member
    have expected := attends.credits l r source c member
    rw [or_self] at expected
    obtain ⟨tick, pending, soon⟩ := expected.deadline
    obtain ⟨router, unit⟩ := Config.source_component source
    refine ⟨tick, pending, ?_, soon⟩
    rcases mem_append.mp pending with asked | asked
    · exact future _ router tick asked
    · exact future _ unit tick asked
  · intro l r sink vc exists_ f member
    obtain ⟨tick, pending, soon⟩ := (attends.channels l r sink vc exists_ f member).deadline
    exact ⟨tick, pending, future _ (Config.sink_component sink) tick pending, soon⟩

/-- Interface 0 sends two messages to interface 1. Router 0 has taken the first one when the second one arrives. -/
def twoInARow : List (Nat × QueueEvent) :=
  let message : Message := ⟨64, controllers [1], 0⟩
  [(0, .protocol 0 0 [message, message] [0]), (0, .wakeup (.ni 0) fun _ => {}), (500, .wakeup (.link 0) fun _ => {}),
    (500, .wakeup (.ni 0) fun _ => {}), (1000, .wakeup (.router 0) fun _ => {}), (1000, .wakeup (.link 0) fun _ => {})]

theorem no_lost_wakeup_second :
    ∃ sim, run twoVnets twoInARow = some sim ∧ sim.net.flow.linkBuffer 0 ≠ [] ∧
      ∀ f ∈ sim.net.flow.linkBuffer 0, ∃ tick ∈ sim.net.wakeupTicks twoVnets (.router 0),
        sim.now ≤ tick ∧ tick ≤ max (nextEdge 500 sim.now) (clockEdge 500 f.time) := by
  have pos : ∀ c, 0 < twoVnets.period c := by
    refine Config.period_pos (fun _ => ?_) (fun _ => ?_) (by decide +kernel)
    · exact (by decide : 0 < 500)
    · exact (by decide : 0 < 500)
  have stopped : ((run twoVnets twoInARow).map fun sim =>
      (sim.net.flow.faults, (sim.net.flow.linkBuffer 0).length)) = some ([], 1) := by decide +kernel
  obtain ⟨sim, ran, same⟩ := Option.map_eq_some_iff.mp stopped
  obtain ⟨none, one⟩ := Prod.mk.inj same
  refine ⟨sim, ran, ?_, ?_⟩
  · intro empty
    rw [empty] at one
    cases one
  · exact (no_lost_wakeup twoVnets (by decide) pos twoInARow sim ran none).1 0 0 (by decide +kernel)

end Simulation

end Resister.Garnet
