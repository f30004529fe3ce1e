import Resister.Garnet.EventQueue
import Resister.Garnet.Updates

/-!
# No lost wakeups in a router

Links, input units, output units and the switch allocator ask for the wakeups of a router one by
one, and a wakeup takes at most one flit or credit from each link.
-/

namespace Resister.Garnet

open Function (update update_self update_of_ne)
open Library List

def Config.linkDelay (cfg : Config) (l : Nat) : Nat := (cfg.links[l]?.map fun link => link.latency * link.period).getD 0

def Config.creditDelay (cfg : Config) (l : Nat) : Nat :=
  (cfg.links[l]?.map fun link => link.creditLatency * link.creditPeriod).getD 0

/-- The queues of a router are in the order in which their elements become ready. -/
structure Ordered (cfg : Config) (t : Nat) (s : Flow) : Prop where
  flits : ∀ l, InTime Flit.time (t + cfg.linkDelay l) (s.linkBuffer l)
  credits : ∀ l, InTime Credit.time (t + cfg.creditDelay l) (s.creditLinkBuffer l)
  channels : ∀ r c, cfg.sink c.1 = some (.router r) →
    InTime (fun f : Flit => f.stage.2) (t + cfg.pipeDelay r) (s.virtualChannels c).inputBuffer
  staged : ∀ r c, cfg.sink c.1 = some (.router r) → ∀ f ∈ (s.virtualChannels c).inputBuffer,
    f.stage.1 = .sa ∧ f.time ≤ f.stage.2

theorem Ordered.mono {cfg : Config} {now t : Nat} {s : Flow} (ordered : Ordered cfg now s) (later : now ≤ t) :
    Ordered cfg t s where
  flits := fun l => (ordered.flits l).mono (Nat.add_le_add_right later _)
  credits := fun l => (ordered.credits l).mono (Nat.add_le_add_right later _)
  channels := fun r c sink => (ordered.channels r c sink).mono (Nat.add_le_add_right later _)
  staged := ordered.staged

/-- What code that runs at tick `t` in a wakeup of `who` can do. Flits and credits leave the queues of routers; new ones
come from a link or into a router that is awake, and a wakeup is requested for when they are ready. -/
structure Answers (cfg : Config) (who : Component) (t : Nat) (s s' : Net) : Prop where
  flits : ∀ l, ∀ f ∈ s'.flow.linkBuffer l, f ∈ s.flow.linkBuffer l ∨
    who = .link l ∧ ∀ r, cfg.sink l = some (.router r) → f.time ∈ s'.pending (.router r)
  credits : ∀ l, ∀ c ∈ s'.flow.creditLinkBuffer l, c ∈ s.flow.creditLinkBuffer l ∨
    who = .creditLink l ∧ ∀ r, cfg.source l = some (.router r) → c.time ∈ s'.pending (.router r)
  channels : ∀ c, ∀ f ∈ (s'.flow.virtualChannels c).inputBuffer, f ∈ (s.flow.virtualChannels c).inputBuffer ∨
    ∃ r, who = .router r ∧ cfg.sink c.1 = some (.router r) ∧ (t < f.stage.2 → f.stage.2 ∈ s'.pending (.router r))
  kept : ∀ c, s.pending c ⊆ s'.pending c
  added : ∀ c, ∀ time ∈ s'.pending c, time ∈ s.pending c ∨ t ≤ time
  faults : s'.flow.faults = [] → s.flow.faults = []
  ordered : Ordered cfg t s.flow → Ordered cfg t s'.flow

variable {cfg : Config} {who : Component} {t : Nat}

theorem update_sublist {ι α : Type} [DecidableEq ι] {queues : ι → List α} {i : ι} {x : α} {rest : List α}
    (top : queues i = x :: rest) (k : ι) : (update queues i rest k).Sublist (queues k) := by
  by_cases same : k = i
  · subst same
    rw [update_self, top]
    exact sublist_cons_self x rest
  · rw [update_of_ne same]

namespace Answers

variable {s s' s'' : Net}

theorem takes (flits : ∀ l, (s'.flow.linkBuffer l).Sublist (s.flow.linkBuffer l))
    (credits : ∀ l, (s'.flow.creditLinkBuffer l).Sublist (s.flow.creditLinkBuffer l))
    (channels : ∀ c, (s'.flow.virtualChannels c).inputBuffer.Sublist (s.flow.virtualChannels c).inputBuffer)
    (pending : s'.pending = s.pending) (faults : s'.flow.faults = [] → s.flow.faults = []) :
    Answers cfg who t s s' where
  flits := fun l f member => Or.inl ((flits l).subset member)
  credits := fun l c member => Or.inl ((credits l).subset member)
  channels := fun c f member => Or.inl ((channels c).subset member)
  kept := fun c => by rw [pending]; exact List.Subset.refl _
  added := fun c time member => Or.inl (by rwa [pending] at member)
  faults := faults
  ordered := fun ordered =>
    { flits := fun l => (ordered.flits l).sublist (flits l)
      credits := fun l => (ordered.credits l).sublist (credits l)
      channels := fun r c sink => (ordered.channels r c sink).sublist (channels c)
      staged := fun r c sink f member => ordered.staged r c sink f ((channels c).subset member) }

theorem same (flits : s'.flow.linkBuffer = s.flow.linkBuffer)
    (credits : s'.flow.creditLinkBuffer = s.flow.creditLinkBuffer)
    (channels : s'.flow.virtualChannels = s.flow.virtualChannels) (pending : s'.pending = s.pending)
    (faults : s'.flow.faults = [] → s.flow.faults = []) : Answers cfg who t s s' := by
  refine takes (fun l => ?_) (fun l => ?_) (fun c => ?_) pending faults
  · rw [flits]
  · rw [credits]
  · rw [channels]

theorem refl (s : Net) : Answers cfg who t s s := same rfl rfl rfl rfl id

theorem trans (first : Answers cfg who t s s') (second : Answers cfg who t s' s'') : Answers cfg who t s s'' where
  flits := fun l f member => by
    rcases second.flits l f member with old | new
    · rcases first.flits l f old with old | ⟨here, requested⟩
      · exact Or.inl old
      · exact Or.inr ⟨here, fun r sink => second.kept _ (requested r sink)⟩
    · exact Or.inr new
  credits := fun l c member => by
    rcases second.credits l c member with old | new
    · rcases first.credits l c old with old | ⟨here, requested⟩
      · exact Or.inl old
      · exact Or.inr ⟨here, fun r source => second.kept _ (requested r source)⟩
    · exact Or.inr new
  channels := fun c f member => by
    rcases second.channels c f member with old | new
    · rcases first.channels c f old with old | ⟨r, here, sink, requested⟩
      · exact Or.inl old
      · exact Or.inr ⟨r, here, sink, fun future => second.kept _ (requested future)⟩
    · exact Or.inr new
  kept := fun c => List.Subset.trans (first.kept c) (second.kept c)
  added := fun c time member => by
    rcases second.added c time member with old | new
    · exact first.added c time old
    · exact Or.inr new
  faults := fun none => first.faults (second.faults none)
  ordered := fun ordered => second.ordered (first.ordered ordered)

theorem fail (s : Net) (fault : Fault) : Answers cfg who t s (s.fail fault) :=
  same rfl rfl rfl rfl fun none => by cases none

theorem schedule (s : Net) (c : Component) {time : Nat} (future : t ≤ time) :
    Answers cfg who t s (s.schedule c time) where
  flits := fun l f member => Or.inl member
  credits := fun l c member => Or.inl member
  channels := fun c f member => Or.inl member
  kept := fun d => by
    by_cases same : d = c
    · subst same
      simp [Net.schedule]
    · simp [Net.schedule, same]
  added := fun d other member => by
    by_cases same : d = c
    · subst same
      simp only [Net.schedule, update_self, mem_cons] at member
      rcases member with rfl | old
      · exact Or.inr future
      · exact Or.inl old
    · left
      simpa [Net.schedule, same] using member
  faults := id
  ordered := id

theorem scheduleIf (s : Net) (condition : Bool) (c : Component) {time : Nat} (future : t ≤ time) :
    Answers cfg who t s (s.scheduleIf condition c time) := by
  unfold Net.scheduleIf
  split
  · exact schedule s c future
  · exact refl s

theorem foldl {α : Type} {f : Net → α → Net} {xs : List α} (each : ∀ s, ∀ x ∈ xs, Answers cfg who t s (f s x))
    (s : Net) : Answers cfg who t s (xs.foldl f s) := by
  induction xs generalizing s with
  | nil => exact refl s
  | cons x xs ih =>
    have first := each s x mem_cons_self
    exact first.trans (ih (fun s y member => each s y (mem_cons_of_mem _ member)) _)

end Answers

theorem deliver_answers {l : Nat} {link : Link} (found : cfg.links[l]? = some link) (s : Net) (f : Flit)
    (rest : List Flit) :
    Answers cfg (.link l) t s
      (({ s with flow := s.flow.traverse l f rest (t + link.latency * link.period) } : Net).schedule
        link.sink.component (t + link.latency * link.period)) := by
  have delay : cfg.linkDelay l = link.latency * link.period := by simp [Config.linkDelay, found]
  have requests : Answers cfg (.link l) t s (s.schedule link.sink.component (t + link.latency * link.period)) :=
    .schedule s _ (Nat.le_add_right ..)
  refine ⟨fun k g member => ?_, requests.credits, requests.channels, requests.kept, requests.added, id, fun ordered => ?_⟩
  · by_cases here : k = l
    · subst here
      simp only [Net.schedule, Flow.traverse, update_self, mem_append, mem_singleton] at member
      rcases member with old | rfl
      · exact Or.inl old
      · refine Or.inr ⟨rfl, fun r sink => ?_⟩
        have end_eq : link.sink = .router r := by simpa [Config.sink, found] using sink
        simp [end_eq, LinkEnd.component, Net.schedule]
    · left
      simpa [Net.schedule, Flow.traverse, here] using member
  · refine ⟨fun k => ?_, ordered.credits, ordered.channels, ordered.staged⟩
    by_cases here : k = l
    · subst here
      simp only [Net.schedule, Flow.traverse, update_self]
      exact (ordered.flits k).push (by rw [delay])
    · simpa [Net.schedule, Flow.traverse, here] using ordered.flits k

theorem linkWakeup_answers (l : Nat) (s : Net) : Answers cfg (.link l) t s (linkWakeup cfg l t s) := by
  unfold linkWakeup
  cases found : cfg.links[l]? with
  | none => exact .refl s
  | some link =>
    cases top : s.flow.outQueue l with
    | nil => exact .refl s
    | cons f rest =>
      dsimp only
      split
      · refine .trans ?_ (.scheduleIf _ _ _ (Nat.le_add_right ..))
        have delivered := deliver_answers (t := t) found s f rest
        cases kind : link.sink with
        | router r =>
          rw [kind] at delivered
          split
          · exact delivered
          · exact delivered.trans (.fail _ _)
        | ni n =>
          rw [kind] at delivered
          split
          · exact delivered
          · exact delivered.trans (.fail _ _)
      · exact .schedule s _ (Nat.le_add_right ..)

theorem deliverCredit_answers {l : Nat} {link : Link} (found : cfg.links[l]? = some link) (s : Net) (c : Credit)
    (rest : List Credit) :
    Answers cfg (.creditLink l) t s
      (({ s with flow := s.flow.traverseCredit l c rest (t + link.creditLatency * link.creditPeriod) } : Net).schedule
        link.source.component (t + link.creditLatency * link.creditPeriod)) := by
  have delay : cfg.creditDelay l = link.creditLatency * link.creditPeriod := by simp [Config.creditDelay, found]
  have requests : Answers cfg (.creditLink l) t s
      (s.schedule link.source.component (t + link.creditLatency * link.creditPeriod)) :=
    .schedule s _ (Nat.le_add_right ..)
  refine ⟨requests.flits, fun k d member => ?_, requests.channels, requests.kept, requests.added, id, fun ordered => ?_⟩
  · by_cases here : k = l
    · subst here
      simp only [Net.schedule, Flow.traverseCredit, update_self, mem_append, mem_singleton] at member
      rcases member with old | rfl
      · exact Or.inl old
      · refine Or.inr ⟨rfl, fun r source => ?_⟩
        have end_eq : link.source = .router r := by simpa [Config.source, found] using source
        simp [end_eq, LinkEnd.component, Net.schedule]
    · left
      simpa [Net.schedule, Flow.traverseCredit, here] using member
  · refine ⟨ordered.flits, fun k => ?_, ordered.channels, ordered.staged⟩
    by_cases here : k = l
    · subst here
      simp only [Net.schedule, Flow.traverseCredit, update_self]
      exact (ordered.credits k).push (by rw [delay])
    · simpa [Net.schedule, Flow.traverseCredit, here] using ordered.credits k

theorem creditLinkWakeup_answers (l : Nat) (s : Net) : Answers cfg (.creditLink l) t s
    (creditLinkWakeup cfg l t s) := by
  unfold creditLinkWakeup
  cases found : cfg.links[l]? with
  | none => exact .refl s
  | some link =>
    cases top : s.flow.creditQueue l with
    | nil => exact .refl s
    | cons c rest =>
      dsimp only
      split
      · refine .trans ?_ (.scheduleIf _ _ _ (Nat.le_add_right ..))
        have delivered := deliverCredit_answers (t := t) found s c rest
        cases kind : link.source with
        | router r => rwa [kind] at delivered
        | ni n => rwa [kind] at delivered
      · exact .schedule s _ (Nat.le_add_right ..)

namespace NetworkInterface

variable {n : Nat}

theorem calculateVC_answers (vnet l : Nat) (attempts : Nat) (s : Net) :
    Answers cfg who t s (calculateVC cfg n vnet l t attempts s).1 := by
  induction attempts generalizing s with
  | zero =>
    unfold calculateVC
    dsimp only
    split
    · refine .trans ?_ (.fail _ _)
      exact .same rfl rfl rfl rfl id
    · exact .same rfl rfl rfl rfl id
  | succ attempts ih =>
    unfold calculateVC
    dsimp only
    split
    · exact .same rfl rfl rfl rfl id
    · refine .trans ?_ (ih _)
      exact .same rfl rfl rfl rfl id

theorem flitisizeLoop_answers (vnet l size : Nat) (multicast : Bool) (dests : List Nat) (remaining : NetDest)
    (s : Net) :
    Answers cfg who t s (flitisizeLoop cfg n vnet l t size multicast dests remaining s).1 := by
  induction dests generalizing remaining s with
  | nil => exact .refl s
  | cons dest more ih =>
    have searched : Answers cfg who t s (calculateVC cfg n vnet l t cfg.vcsPerVnet s).1 :=
      calculateVC_answers vnet l cfg.vcsPerVnet s
    unfold flitisizeLoop
    split
    · rename_i found
      rwa [found] at searched
    · rename_i found _
      rw [found] at searched
      exact searched.trans (.fail _ _)
    · rename_i found _
      rw [found] at searched
      refine searched.trans (.trans ?_ (ih _ _))
      exact .same rfl rfl rfl rfl id

theorem flitisizeMessage_answers (vnet : Nat) (s : Net) : Answers cfg who t s (flitisizeMessage cfg n t s vnet) := by
  unfold flitisizeMessage
  split
  · exact .refl s
  · split
    · split
      · exact .fail s _
      · rename_i msg rest _ _ _ l _
        dsimp only
        let size := numFlits msg.msgSize ((cfg.links[l]?.map Link.bitWidth).getD 0)
        let dests := msg.destination.getAllDest cfg.machineCounts
        have sent : Answers cfg who t s
            (flitisizeLoop cfg n vnet l t size (decide (1 < dests.length)) dests msg.destination s).1 :=
          flitisizeLoop_answers vnet l size _ dests msg.destination s
        exact sent.trans (.same rfl rfl rfl rfl id)
    · exact .refl s

theorem scheduleOutputPort_answers (l : Nat) (s : Net) : Answers cfg who t s (scheduleOutputPort cfg n t s l) := by
  unfold scheduleOutputPort
  dsimp only
  split
  · exact .refl s
  · split
    · exact .refl s
    · refine .trans ?_ (.schedule _ _ (Nat.le_add_right ..))
      refine .same rfl rfl rfl rfl fun none => ?_
      simp only [Flow.send, Flow.check] at none
      split at none
      · exact none
      · cases none

theorem checkStallQueue_answers (l : Nat) (s : Net) : Answers cfg who t s (checkStallQueue n t s l) := by
  unfold checkStallQueue
  dsimp only
  split
  · exact .same rfl rfl rfl rfl id
  · exact .same rfl rfl rfl rfl id

theorem checkInLink_answers (l : Nat) (s : Net) : Answers cfg who t s (checkInLink n t s l) := by
  unfold checkInLink
  cases top : s.flow.linkBuffer l with
  | nil => exact .refl s
  | cons f rest =>
    have taken := update_sublist top
    dsimp only
    split
    · split
      · split
        · exact .takes taken (fun _ => List.Sublist.refl _) (fun _ => List.Sublist.refl _) rfl id
        · exact .takes taken (fun _ => List.Sublist.refl _) (fun _ => List.Sublist.refl _) rfl id
      · exact .takes taken (fun _ => List.Sublist.refl _) (fun _ => List.Sublist.refl _) rfl id
    · exact .refl s

theorem creditArrives_answers {l : Nat} {c : Credit} {rest : List Credit} {s : Net}
    (top : s.flow.creditLinkBuffer l = c :: rest) :
    Answers cfg who t s { s with flow := s.flow.creditArrives l t c rest } := by
  refine .takes (fun _ => List.Sublist.refl _) (update_sublist top) (fun _ => List.Sublist.refl _) rfl fun none => ?_
  simp only [Flow.creditArrives, Flow.check] at none
  split at none
  · exact none
  · cases none

theorem checkCreditLink_answers (l : Nat) (s : Net) : Answers cfg who t s (checkCreditLink t s l) := by
  unfold checkCreditLink
  cases top : s.flow.creditLinkBuffer l with
  | nil => exact .refl s
  | cons c rest =>
    dsimp only
    split
    · exact creditArrives_answers top
    · exact .refl s

theorem wakeup_answers (s : Net) : Answers cfg who t s (wakeup cfg n t s) := by
  unfold wakeup
  dsimp only
  refine .trans ?_ (.scheduleIf _ _ _ (Nat.le_add_right ..))
  refine .trans ?_ (.foldl (fun s l _ => .scheduleIf s _ _ (Nat.le_add_right ..)) _)
  refine .trans ?_ (.foldl (fun s l _ => checkCreditLink_answers l s) _)
  refine .trans ?_ (.foldl (fun s l _ => checkInLink_answers l s) _)
  refine .trans ?_ (.foldl (fun s l _ => checkStallQueue_answers l s) _)
  refine .trans ?_ (.foldl (fun s l _ => scheduleOutputPort_answers l s) _)
  exact .foldl (fun s vnet _ => flitisizeMessage_answers vnet s) s

end NetworkInterface

namespace InputUnit

variable {r inport l : Nat} {draws : Draws} {f : Flit} {rest : List Flit} {s s' : Net} {route : RouteInfo} {port : Nat}

theorem pending_of_deciding (within : Within (Update cfg) (Deciding r inport) s s') : s'.pending = s.pending := by
  refine within.frame fun permitted step => ?_
  rcases permitted with rfl | ⟨-, rfl⟩
  · cases step
    rfl
  · cases step
    rfl

theorem receive_ordered (top : s.flow.linkBuffer l = f :: rest) (ready : f.time ≤ t)
    (sink : cfg.sink l = some (.router r)) (ordered : Ordered cfg t s.flow) :
    Ordered cfg t (s.flow.receive l t (t + cfg.pipeDelay r) f rest route port) where
  flits := fun k => (ordered.flits k).sublist (update_sublist top k)
  credits := ordered.credits
  channels := by
    intro q c into
    by_cases here : c = (l, f.vc)
    · subst here
      obtain rfl : q = r := by
        rw [into] at sink
        cases sink
        rfl
      simp only [Flow.receive, update_self]
      exact (ordered.channels q _ into).push rfl
    · simpa [Flow.receive, here] using ordered.channels q c into
  staged := by
    intro q c into g member
    by_cases here : c = (l, f.vc)
    · subst here
      simp only [Flow.receive, update_self, mem_append, mem_singleton] at member
      rcases member with old | rfl
      · exact ordered.staged q _ into g old
      · exact ⟨rfl, ready.trans (Nat.le_add_right ..)⟩
    · exact ordered.staged q c into g (by simpa [Flow.receive, here] using member)

theorem receive_answers {decided : Net} (same : decided.pending = s.pending) (top : s.flow.linkBuffer l = f :: rest)
    (ready : f.time ≤ t) (sink : cfg.sink l = some (.router r)) :
    Answers cfg (.router r) t s
      (({ decided with flow := s.flow.receive l t (t + cfg.pipeDelay r) f rest route port } : Net).scheduleIf
        (cfg.pipeStages r != 1) (.router r) (t + cfg.pipeDelay r)) := by
  have requests : Answers cfg (.router r) t s
      (s.scheduleIf (cfg.pipeStages r != 1) (.router r) (t + cfg.pipeDelay r)) := .scheduleIf s _ _
      (Nat.le_add_right ..)
  have pending : (({ decided with flow := s.flow.receive l t (t + cfg.pipeDelay r) f rest route port } : Net).scheduleIf
      (cfg.pipeStages r != 1) (.router r) (t + cfg.pipeDelay r)).pending =
      (s.scheduleIf (cfg.pipeStages r != 1) (.router r) (t + cfg.pipeDelay r)).pending := by
    unfold Net.scheduleIf
    split
    · simp only [Net.schedule, same]
    · exact same
  refine ⟨?_, ?_, ?_, ?_, ?_, ?_, ?_⟩
  · intro k g member
    rw [Net.scheduleIf_flow] at member
    exact Or.inl ((update_sublist top k).subset member)
  · intro k c member
    rw [Net.scheduleIf_flow] at member
    exact Or.inl member
  · intro c g member
    rw [Net.scheduleIf_flow] at member
    by_cases here : c = (l, f.vc)
    · subst here
      simp only [Flow.receive, update_self, mem_append, mem_singleton] at member
      rcases member with old | rfl
      · exact Or.inl old
      · refine Or.inr ⟨r, rfl, sink, fun future => ?_⟩
        -- With one stage only, the flit is ready at once.
        have deep : (cfg.pipeStages r != 1) = true := by
          by_contra one
          have single : cfg.pipeStages r = 1 := by simpa using one
          simp [Config.pipeDelay, single] at future
        simp [Net.scheduleIf, deep, Net.schedule]
    · left
      simpa [Flow.receive, here] using member
  · intro c
    rw [pending]
    exact requests.kept c
  · intro c time member
    rw [pending] at member
    exact requests.added c time member
  · intro none
    rw [Net.scheduleIf_flow] at none
    simp only [Flow.receive, Flow.check] at none
    split at none
    · split at none
      · exact none
      · cases none
    · split at none
      · exact none
      · cases none
  · intro ordered
    rw [Net.scheduleIf_flow]
    exact receive_ordered top ready sink ordered

theorem accept_answers (top : s.flow.linkBuffer l = f :: rest) (ready : f.time ≤ t)
    (sink : cfg.sink l = some (.router r)) :
    Answers cfg (.router r) t s (accept cfg r inport l t draws f rest s) := by
  unfold accept
  split
  · exact .fail s _
  · rename_i decided route port resolved
    exact receive_answers (pending_of_deciding (resolve_within resolved)) top ready sink

theorem wakeupPlain_answers (sink : cfg.sink l = some (.router r)) (s : Net) :
    Answers cfg (.router r) t s (wakeupPlain cfg r inport l t draws s) := by
  unfold wakeupPlain
  cases top : s.flow.linkBuffer l with
  | nil => exact .refl s
  | cons f rest =>
    dsimp only
    split
    · rename_i ready
      exact (accept_answers top ready sink).trans (.scheduleIf _ _ _ (Nat.le_add_right ..))
    · exact .refl s

end InputUnit

theorem outputUnitWakeup_answers (l : Nat) (s : Net) : Answers cfg who t s (OutputUnit.wakeup cfg t s l) := by
  unfold OutputUnit.wakeup
  cases top : s.flow.creditLinkBuffer l with
  | nil => exact .refl s
  | cons c rest =>
    dsimp only
    split
    · refine (NetworkInterface.creditArrives_answers top).trans (.scheduleIf _ _ _ ?_)
      split
      · exact Nat.le_add_right ..
      · exact Nat.le_refl t
    · exact .refl s

namespace SwitchAllocator

variable {r : Nat}

theorem grant_answers (l invc outport out : Nat) (s : Net) :
    Answers cfg who t s (grant cfg r t l invc outport out s) := by
  unfold grant
  split
  · rename_i outvc f rest _ top
    refine .trans ?_ (.schedule _ _ (Nat.le_add_right ..))
    refine .takes (fun _ => List.Sublist.refl _) (fun _ => List.Sublist.refl _) (fun c => ?_) rfl fun none => ?_
    · by_cases here : c = (l, invc)
      · subst here
        rw [top]
        simp only [Flow.grant, update_self]
        split
        · exact sublist_cons_self ..
        · exact sublist_cons_self ..
      · simp [Flow.grant, here]
    · simp only [Flow.grant, Flow.check, append_eq_nil_iff] at none
      have checked := none.2
      split at checked
      · exact checked
      · cases checked
  · exact .fail s _

theorem arbitrateOutports_answers (ports : List (Nat × Nat)) (acc : Net × (Nat → Option (Nat × Nat))) :
    Answers cfg who t acc.1 (ports.foldl (arbitrateOutport cfg r t) acc).1 := by
  induction ports generalizing acc with
  | nil => exact .refl _
  | cons port ports ih =>
    refine .trans ?_ (ih _)
    unfold arbitrateOutport
    dsimp only
    split
    · exact .refl _
    · exact grant_answers ..

theorem wakeup_answers (s : Net) : Answers cfg who t s (wakeup cfg r t s) := by
  have asserted : Answers cfg who t s { s with flow := s.flow.assertAllocation cfg r t } := by
    refine .same rfl rfl rfl rfl fun none => ?_
    simp only [Flow.assertAllocation, append_eq_nil_iff] at none
    exact none.2
  unfold wakeup checkForWakeup
  dsimp only
  exact (asserted.trans (arbitrateOutports_answers _ (_, _))).trans (.scheduleIf _ _ _ (Nat.le_add_right ..))

end SwitchAllocator

theorem crossbarWakeup_answers (r l : Nat) (s : Net) : Answers cfg who t s (crossbarWakeup cfg r t s l) := by
  unfold crossbarWakeup
  split
  · exact .refl s
  · split
    · split
      · exact .refl s
      · refine .trans ?_ (.schedule _ _ (Nat.le_add_right ..))
        exact .same rfl rfl rfl rfl id
    · exact .refl s

end Resister.Garnet
