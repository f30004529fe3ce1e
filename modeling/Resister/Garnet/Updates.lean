import Resister.Garnet.Simulation
import Resister.Library.Footprint

/-!
# What a wakeup can touch

The code changes the state of a network in small updates. Each belongs to a part: a unit of a
router, one of the tasks of a network interface, a link.
-/

namespace Resister.Garnet

open Function (update)
open Library Function

inductive Part where
  | bookkeeping
  | wake (c : Component)
  | link (l : Nat)
  | routing
  | localUnit (r : Nat)
  | input (l : Nat)
  | credits
  | switch (r : Nat)
  | injection (n vnet : Nat)
  | output
  | ejection (n : Nat)
  | protocol (n vnet : Nat)

/-- The protocol buffers, stall counters and callbacks of other interfaces are as before. -/
structure EjectsAt (n : Nat) (s : Net) (outNode : Nat × Nat → MessageBuffer) (stallCount : Nat × Nat → Nat)
    (dequeueCallback : Nat × Nat → Bool) : Prop where
  outNode : ∀ p, p.1 ≠ n → outNode p = s.outNode p
  stallCount : ∀ p, p.1 ≠ n → stallCount p = s.stallCount p
  dequeueCallback : ∀ p, p.1 ≠ n → dequeueCallback p = s.dequeueCallback p

/-- What ejection does to the flits at input port `l` of an interface. -/
inductive Ejected (n l t : Nat) (s : Flow) : Flow → Prop where
  | nothing : Ejected n l t s s
  | eject {f : Flit} {rest : List Flit} (top : s.linkBuffer l = f :: rest) :
      Ejected n l t s ((s.consume l rest).eject n l t f)
  | stall {f : Flit} {rest : List Flit} (top : s.linkBuffer l = f :: rest) : Ejected n l t s (s.stall l f rest)
  | unstall {f : Flit} (queue : List Flit) : Ejected n l t s ((s.unstall l queue).eject n l t f)

inductive Update (cfg : Config) : Part → Net → Net → Prop where
  | fail {s : Net} (fault : Fault) : Update cfg .bookkeeping s (s.fail fault)
  | schedule {s : Net} (c : Component) (time : Nat) : Update cfg .bookkeeping s (s.schedule c time)
  | wake {s : Net} {c : Component} (t : Nat) : Update cfg (.wake c) s (s.woken c t)
  | traverse {s : Net} {l : Nat} (f : Flit) (rest : List Flit) (time : Nat) :
      Update cfg (.link l) s { s with flow := s.flow.traverse l f rest time }
  | traverseCredit {s : Net} {l : Nat} (c : Credit) (rest : List Credit) (time : Nat) :
      Update cfg (.link l) s { s with flow := s.flow.traverseCredit l c rest time }
  | route {s : Net} (routerr : Int → Nat) (counterr : Nat) (patternTable : Nat → List PatternEntry) :
      Update cfg .routing s { s with routerr := routerr, counterr := counterr, patternTable := patternTable }
  | inspect {s : Net} {r : Nat} (history : Nat → List HistoryEntry) (outBuf : Nat → List (List (Option (Nat × Nat))))
      (stats : Nat → InputUnitStats) (tdma : Tdma) (roundFlit : Nat → Nat) :
      Update cfg (.localUnit r) s
        { s with history := history, outBuf := outBuf, stats := stats, tdma := tdma, roundFlit := roundFlit }
  | receive {s : Net} {l : Nat} {f : Flit} {rest : List Flit} (top : s.flow.linkBuffer l = f :: rest)
      (t ready : Nat) (route : RouteInfo) (port : Nat) :
      Update cfg (.input l) s { s with flow := s.flow.receive l t ready f rest route port }
  | creditArrives {s : Net} (l t : Nat) (c : Credit) (rest : List Credit) :
      Update cfg .credits s { s with flow := s.flow.creditArrives l t c rest }
  | assertAllocation {s : Net} {r : Nat} (t : Nat) :
      Update cfg (.switch r) s { s with flow := s.flow.assertAllocation cfg r t }
  | grant {s : Net} {r : Nat} (t port : Nat) (input out : Nat × Nat) (f : Flit) (rest : List Flit)
      (roundRobinInport roundRobinInvc : Nat → Nat) :
      Update cfg (.switch r) s
        { s with flow := s.flow.grant t port input out f rest
                 roundRobinInport := roundRobinInport, roundRobinInvc := roundRobinInvc }
  | cross {s : Net} {r : Nat} (l out : Nat) (f : Flit) (rest : List Flit) (time : Nat) :
      Update cfg (.switch r) s { s with flow := s.flow.cross l out f rest time }
  | search {s : Net} {n vnet : Nat} (delta : Nat) (vcBusyCounter : Nat × Nat → Nat) :
      Update cfg (.injection n vnet) s
        { s with flow := s.flow.setAllocator (n, vnet) delta, vcBusyCounter := vcBusyCounter }
  | inject {s : Net} {n vnet : Nat} (t : Nat) (c : Nat × Nat) {packet : Packet} (flits : List Flit)
      (same : packet.vnet = vnet) :
      Update cfg (.injection n vnet) s { s with flow := s.flow.inject n t c packet flits }
  | setMessages {s : Net} {n vnet : Nat} (queue : List Message) :
      Update cfg (.injection n vnet) s { s with flow := s.flow.setMessages (n, vnet) queue }
  | send {s : Net} (c : Nat × Nat) (f : Flit) (rest : List Flit) (time : Nat) (vcRoundRobin : Nat → Nat) :
      Update cfg .output s { s with flow := s.flow.send c f rest time, vcRoundRobin := vcRoundRobin }
  | eject {s : Net} {n l t : Nat} {flow : Flow} {outNode : Nat × Nat → MessageBuffer} {stallCount : Nat × Nat → Nat}
      {dequeueCallback : Nat × Nat → Bool} (sink : cfg.sink l = some (.ni n)) (ejected : Ejected n l t s.flow flow)
      (others : EjectsAt n s outNode stallCount dequeueCallback) (messageEnqueuedThisCycle : Nat → Bool) :
      Update cfg (.ejection n) s
        { s with flow := flow, outNode := outNode, stallCount := stallCount, dequeueCallback := dequeueCallback
                 messageEnqueuedThisCycle := messageEnqueuedThisCycle }
  | drain {s : Net} {n vnet : Nat} (buffer : MessageBuffer) :
      Update cfg (.protocol n vnet) s { s with outNode := update s.outNode (n, vnet) buffer }

def Updates (cfg : Config) (parts : Part → Prop) : Net → Net → Prop :=
  Within (Update cfg) fun part => part = .bookkeeping ∨ parts part

variable {cfg : Config} {parts : Part → Prop}

namespace Updates

variable {s : Net}

theorem refl : Updates cfg parts s s := Within.refl

theorem single {part : Part} {s' : Net} (permitted : parts part) (step : Update cfg part s s') :
    Updates cfg parts s s' :=
  Within.single (Or.inr permitted) step

theorem fail (fault : Fault) : Updates cfg parts s (s.fail fault) :=
  Within.single (Or.inl rfl) (.fail fault)

theorem schedule (c : Component) (time : Nat) : Updates cfg parts s (s.schedule c time) :=
  Within.single (Or.inl rfl) (.schedule c time)

theorem scheduleIf (condition : Bool) (c : Component) (time : Nat) :
    Updates cfg parts s (s.scheduleIf condition c time) := by
  unfold Net.scheduleIf
  split
  · exact schedule c time
  · exact refl

theorem mono {wider : Part → Prop} {s' : Net} (weaker : ∀ part, parts part → wider part)
    (updates : Updates cfg parts s s') : Updates cfg wider s s' :=
  Within.mono (fun part => Or.imp_right (weaker part)) updates

end Updates

variable {s s' : Net} {c : Component}

theorem Updates.pending (updates : Updates cfg parts s s')
    (asleep : ¬ parts (.wake c)) : s.pending c ⊆ s'.pending c := by
  refine updates.relates (P := fun a b => a.pending c ⊆ b.pending c) (fun _ => List.Subset.refl _)
    List.Subset.trans fun permitted step => ?_
  cases step with
  | schedule d time =>
    by_cases same : c = d
    · subst same
      simp [Net.schedule]
    · simp [Net.schedule, same]
  | @wake _ d t =>
    have other : c ≠ d := by
      rintro rfl
      exact permitted.elim nofun asleep
    simp [Net.woken, other]
  | _ => exact List.Subset.refl _

theorem Updates.due (updates : Updates cfg parts s s')
    (asleep : ¬ parts (.wake c)) : s'.flow.due c = s.flow.due c := by
  refine updates.frame (v := fun s => s.flow.due c) fun permitted step => ?_
  cases step with
  | @wake _ d t =>
    have other : c ≠ d := by
      rintro rfl
      exact permitted.elim nofun asleep
    exact update_of_ne other ..
  | eject _ ejected => cases ejected <;> rfl
  | _ => rfl

theorem Updates.linkBuffer (updates : Updates cfg parts s s') {l r : Nat}
    (sink : cfg.sink l = some (.router r)) (other : ¬ parts (.input l)) :
    s.flow.linkBuffer l <+: s'.flow.linkBuffer l := by
  refine updates.relates (P := fun a b => a.flow.linkBuffer l <+: b.flow.linkBuffer l) (fun _ => List.prefix_rfl)
    List.IsPrefix.trans fun permitted step => ?_
  cases step with
  | @traverse _ k f rest time =>
    by_cases same : l = k
    · subst same
      simp [Flow.traverse]
    · simp [Flow.traverse, same]
  | @receive _ k f rest top =>
    have elsewhere : l ≠ k := by
      rintro rfl
      exact permitted.elim nofun other
    simp [Flow.receive, elsewhere]
  | @eject _ n k t flow outNode stallCount dequeueCallback sink' ejected =>
    have elsewhere : l ≠ k := by
      rintro rfl
      rw [sink] at sink'
      cases sink'
    cases ejected with
    | nothing | unstall => exact List.prefix_rfl
    | eject | stall => simp [Flow.eject, Flow.consume, Flow.stall, elsewhere]
  | _ => exact List.prefix_rfl

theorem linkWakeup_updates (l t : Nat) (s : Net) : Updates cfg (· = .link l) s (linkWakeup cfg l t s) := by
  unfold linkWakeup
  split
  · exact .refl
  · split
    · exact .refl
    · rename_i f rest _
      split
      · dsimp only
        refine Within.trans (Within.trans ?_ (Updates.schedule _ _)) (Updates.scheduleIf _ _ _)
        have moved : ∀ time, Updates cfg (· = .link l) s { s with flow := s.flow.traverse l f rest time } :=
          fun time => .single rfl (.traverse f rest time)
        split
        · exact moved _
        · exact (moved _).trans (Updates.fail _)
      · exact Updates.schedule _ _

theorem creditLinkWakeup_updates (l t : Nat) (s : Net) : Updates cfg (· = .link l) s (creditLinkWakeup cfg l t s) := by
  unfold creditLinkWakeup
  split
  · exact .refl
  · split
    · exact .refl
    · rename_i c rest _
      split
      · dsimp only
        refine Within.trans (Within.trans ?_ (Updates.schedule _ _)) (Updates.scheduleIf _ _ _)
        exact Updates.single rfl (.traverseCredit c rest _)
      · exact Updates.schedule _ _

theorem outputUnitWakeup_updates (l t : Nat) (s : Net) : Updates cfg (· = .credits) s
    (OutputUnit.wakeup cfg t s l) := by
  unfold OutputUnit.wakeup
  split
  · exact .refl
  · rename_i c rest _
    split
    · have taken : Updates cfg (· = .credits) s { s with flow := s.flow.creditArrives l t c rest } :=
        .single rfl (.creditArrives l t c rest)
      exact taken.trans (Updates.scheduleIf _ _ _)
    · exact .refl

theorem grant_updates (r t l invc outport out : Nat) (s : Net) :
    Updates cfg (· = .switch r) s (SwitchAllocator.grant cfg r t l invc outport out s) := by
  unfold SwitchAllocator.grant
  split
  · exact Within.trans (Updates.single rfl (.grant ..)) (Updates.schedule _ _)
  · exact Updates.fail _

theorem arbitrateOutports_updates (r t : Nat) (ports : List (Nat × Nat)) (acc : Net × (Nat → Option (Nat × Nat))) :
    Updates cfg (· = .switch r) acc.1 (ports.foldl (SwitchAllocator.arbitrateOutport cfg r t) acc).1 := by
  induction ports generalizing acc with
  | nil => exact .refl
  | cons port ports ih =>
    refine Within.trans ?_ (ih _)
    unfold SwitchAllocator.arbitrateOutport
    dsimp only
    split
    · exact .refl
    · exact grant_updates ..

theorem allocator_updates (r t : Nat) (s : Net) : Updates cfg (· = .switch r) s (SwitchAllocator.wakeup cfg r t s) := by
  have asserted : Updates cfg (· = .switch r) s { s with flow := s.flow.assertAllocation cfg r t } :=
    .single rfl (.assertAllocation t)
  unfold SwitchAllocator.wakeup SwitchAllocator.checkForWakeup
  dsimp only
  exact (asserted.trans (arbitrateOutports_updates r t _ (_, _))).trans (Updates.scheduleIf _ _ _)

theorem crossbarWakeup_updates (r t l : Nat) (s : Net) : Updates cfg (· = .switch r) s
    (crossbarWakeup cfg r t s l) := by
  unfold crossbarWakeup
  split
  · exact .refl
  · split
    · split
      · exact .refl
      · exact Within.trans (Updates.single rfl (.cross ..)) (Updates.schedule _ _)
    · exact .refl

namespace InputUnit

variable {r inport l t : Nat} {draws : Draws} {f : Flit} {s s' : Net} {route : RouteInfo}

def Deciding (r inport : Nat) (part : Part) : Prop := part = .routing ∨ inport = 0 ∧ part = .localUnit r

theorem routeCompute_within {raw : Nat} {dirn : PortDirection} {routed : RouteInfo} {port : Nat}
    (result : routeCompute cfg r inport t raw dirn route s = .ok (s', routed, port)) :
    Within (Update cfg) (· = .routing) s s' := by
  unfold routeCompute at result
  dsimp only at result
  split at result
  · cases result
  · cases result
    exact .single rfl (.route ..)

theorem inspectResister_within (result : inspectResister cfg r l t draws f s = .ok (s', route)) :
    Within (Update cfg) (Deciding r 0) s s' := by
  have recorded : Within (Update cfg) (Deciding r 0) s (record r t f s) := by
    unfold record
    split
    · exact .single (Or.inr ⟨rfl, rfl⟩) (.inspect ..)
    · exact .refl
  unfold inspectResister at result
  dsimp only at result
  split at result
  · cases result
    exact recorded
  · split at result
    · cases result
    · rename_i predicted _ _ computed
      have routed := recorded.trans ((routeCompute_within computed).mono fun _ => Or.inl)
      split at result
      · split at result
        · cases result
        · split at result
          · cases result
            exact routed.trans (.single (Or.inr ⟨rfl, rfl⟩) (.inspect ..))
          · cases result
            exact routed.trans (.single (Or.inr ⟨rfl, rfl⟩) (.inspect ..))
      · cases result
        exact routed

theorem inspect_within (result : inspect cfg r inport l t draws f s = .ok (s', route)) :
    Within (Update cfg) (Deciding r inport) s s' := by
  have counted : Within (Update cfg) (Deciding r 0) s (countDetour r s) :=
    .single (Or.inr ⟨rfl, rfl⟩) (.inspect ..)
  unfold inspect at result
  split at result
  · cases result
    exact .refl
  · rename_i port
    obtain rfl : inport = 0 := by simpa using port
    split at result
    · cases result
      exact .refl
    · split at result
      · exact inspectResister_within result
      · cases result
        exact .refl
    · split at result
      · exact inspectResister_within result
      · cases result
        exact .refl
    · split at result
      · cases result
        exact counted
      · cases result
        exact .refl
    · split at result
      · cases result
        exact counted
      · cases result
        exact .refl

theorem resolve_within {port : Nat} (result : resolve cfg r inport l t draws f s = .ok (s', route, port)) :
    Within (Update cfg) (Deciding r inport) s s' := by
  unfold resolve at result
  split at result
  · cases result
  · rename_i inspected
    have before := inspect_within inspected
    dsimp only at result
    split at result
    · split at result
      · cases result
      · rename_i computed
        cases result
        refine (before.trans ((routeCompute_within computed).mono fun _ => Or.inl)).trans ?_
        unfold recordOutport
        split
        · rename_i first
          exact .single (Or.inr ⟨first.1, rfl⟩) (.inspect ..)
        · exact .refl
    · cases result
      exact before

theorem flow_of_deciding (within : Within (Update cfg) (Deciding r inport) s s') : s'.flow = s.flow := by
  refine within.frame fun permitted step => ?_
  rcases permitted with rfl | ⟨-, rfl⟩
  · cases step
    rfl
  · cases step
    rfl

def Receiving (r inport l : Nat) (part : Part) : Prop := Deciding r inport part ∨ part = .input l

theorem accept_updates {rest : List Flit} (top : s.flow.linkBuffer l = f :: rest) :
    Updates cfg (Receiving r inport l) s (accept cfg r inport l t draws f rest s) := by
  unfold accept
  split
  · exact .fail _
  · rename_i decided route port resolved
    have within := resolve_within resolved
    have same := flow_of_deciding within
    dsimp only
    rw [← same] at top ⊢
    have before : Updates cfg (Receiving r inport l) s decided := within.mono fun _ => Or.inr ∘ Or.inl
    exact (before.trans (Updates.single (Or.inr rfl) (.receive top ..))).trans (Updates.scheduleIf _ _ _)

theorem wakeupPlain_updates (s : Net) :
    Updates cfg (Receiving r inport l) s (wakeupPlain cfg r inport l t draws s) := by
  unfold wakeupPlain
  split
  · exact .refl
  · rename_i f rest top
    split
    · exact (accept_updates top).trans (Updates.scheduleIf _ _ _)
    · exact .refl

theorem inspect_updates (history : Nat → List HistoryEntry) (outBuf : Nat → List (List (Option (Nat × Nat))))
    (stats : Nat → InputUnitStats) (tdma : Tdma) (roundFlit : Nat → Nat) :
    Updates cfg (Receiving r 0 l) s
      { s with history := history, outBuf := outBuf, stats := stats, tdma := tdma, roundFlit := roundFlit } :=
  .single (Or.inl (Or.inr ⟨rfl, rfl⟩)) (.inspect ..)

theorem tdmaConsume_updates (draws : Draws) (s : Net) :
    Updates cfg (Receiving r 0 l) s (tdmaConsume cfg r l t draws s) := by
  unfold tdmaConsume
  split
  · exact .refl
  · rename_i f rest top
    split
    · exact (accept_updates top).trans (inspect_updates ..)
    · exact .refl

theorem wakeupTdma_updates (s : Net) : Updates cfg (Receiving r 0 l) s (wakeupTdma cfg r l t draws s) := by
  have started : Updates cfg (Receiving r 0 l) s (tdmaInit r s) := by
    unfold tdmaInit
    split
    · exact .refl
    · exact inspect_updates ..
  unfold wakeupTdma
  split
  · exact .fail _
  · dsimp only
    split
    · have served := started.trans (tdmaConsume_updates (t := t) draws (tdmaInit r s))
      split
      · exact (served.trans (inspect_updates ..)).trans (Updates.schedule _ _)
      · exact (served.trans (inspect_updates ..)).trans (Updates.schedule _ _)
    · exact started.trans (Updates.schedule _ _)

theorem wakeup_updates (draws : Nat → Draws) (s : Net) (port : Nat × Nat) :
    Updates cfg (Receiving r port.2 port.1) s (wakeup cfg r t draws s port) := by
  unfold wakeup
  split
  · rename_i token
    rw [token.2]
    exact wakeupTdma_updates s
  · exact wakeupPlain_updates s

end InputUnit

def Routing (r : Nat) (part : Part) : Prop := part = .credits ∨ part = .switch r

theorem routerWakeup_updates (r t : Nat) (draws : Nat → Draws) (s : Net) :
    Updates cfg (Routing r) ((cfg.inLinks (.router r)).zipIdx.foldl (InputUnit.wakeup cfg r t draws) s)
      (routerWakeup cfg r t draws s) := by
  have credited : ∀ s, Updates cfg (Routing r) s ((cfg.outLinks (.router r)).foldl (OutputUnit.wakeup cfg t) s) :=
    Within.foldl _ fun l _ s => (outputUnitWakeup_updates l t s).mono fun _ => Or.inl
  have allocated : ∀ s, Updates cfg (Routing r) s (SwitchAllocator.wakeup cfg r t s) :=
    fun s => (allocator_updates r t s).mono fun _ => Or.inr
  have crossed : ∀ s, Updates cfg (Routing r) s ((cfg.inLinks (.router r)).foldl (crossbarWakeup cfg r t) s) :=
    Within.foldl _ fun l _ s => (crossbarWakeup_updates r t l s).mono fun _ => Or.inr
  exact ((credited _).trans (allocated _)).trans (crossed _)

theorem afterLocalUnit_updates {r l : Nat} {rest : List Nat} (ports : cfg.inLinks (.router r) = l :: rest) (t : Nat)
    (draws : Nat → Draws) (s : Net) :
    Updates cfg (fun part => (∃ port ∈ rest.zipIdx 1, InputUnit.Receiving r port.2 port.1 part) ∨ Routing r part)
      (InputUnit.wakeup cfg r t draws s (l, 0)) (routerWakeup cfg r t draws s) := by
  have later : Updates cfg (Routing r) _ (routerWakeup cfg r t draws s) := routerWakeup_updates r t draws s
  rw [ports, List.zipIdx_cons, List.foldl_cons] at later
  refine Within.trans ?_ (later.mono fun _ => Or.inr)
  exact Within.foldl _ (fun port listed s => (InputUnit.wakeup_updates draws s port).mono
    fun _ touched => Or.inl ⟨port, listed, touched⟩) _

namespace NetworkInterface

variable {n t : Nat}

theorem calculateVC_updates (vnet l attempts : Nat) (s : Net) :
    Updates cfg (· = .injection n vnet) s (calculateVC cfg n vnet l t attempts s).1 := by
  induction attempts generalizing s with
  | zero =>
    have counted : Updates cfg (· = .injection n vnet) s
        { s with vcBusyCounter := update s.vcBusyCounter (n, vnet) (s.vcBusyCounter (n, vnet) + 1) } := by
      have step : Update cfg (.injection n vnet) s _ := .search (s.flow.vcAllocator (n, vnet))
        (update s.vcBusyCounter (n, vnet) (s.vcBusyCounter (n, vnet) + 1))
      rw [Flow.setAllocator, update_eq_self] at step
      exact .single rfl step
    unfold calculateVC
    dsimp only
    split
    · exact counted.trans (Updates.fail _)
    · exact counted
  | succ attempts ih =>
    unfold calculateVC
    dsimp only
    split
    · exact .single rfl (.search ..)
    · exact Within.trans (Updates.single rfl (.search ..)) (ih _)

theorem flitisizeLoop_updates (vnet l size : Nat) (multicast : Bool) (dests : List Nat) (remaining : NetDest)
    (s : Net) :
    Updates cfg (· = .injection n vnet) s (flitisizeLoop cfg n vnet l t size multicast dests remaining s).1 := by
  induction dests generalizing remaining s with
  | nil => exact .refl
  | cons dest more ih =>
    have searched : Updates cfg (· = .injection n vnet) s (calculateVC cfg n vnet l t cfg.vcsPerVnet s).1 :=
      calculateVC_updates ..
    unfold flitisizeLoop
    split
    · rename_i found
      rw [found] at searched
      exact searched
    · rename_i found _
      rw [found] at searched
      exact searched.trans (Updates.fail _)
    · rename_i found _
      rw [found] at searched
      exact (searched.trans (Updates.single rfl (.inject t _ _ rfl))).trans (ih _ _)

theorem flitisizeMessage_updates (vnet : Nat) (s : Net) :
    Updates cfg (· = .injection n vnet) s (flitisizeMessage cfg n t s vnet) := by
  unfold flitisizeMessage
  split
  · exact .refl
  · split
    · split
      · exact .fail _
      · exact (flitisizeLoop_updates ..).trans (Updates.single rfl (.setMessages _))
    · exact .refl

theorem scheduleOutputPort_updates (l : Nat) (s : Net) : Updates cfg (· = .output) s
    (scheduleOutputPort cfg n t s l) := by
  unfold scheduleOutputPort
  dsimp only
  split
  · exact .refl
  · split
    · exact .refl
    · exact Within.trans (Updates.single rfl (.send ..)) (Updates.schedule _ _)

theorem checkStallQueue_updates {l : Nat} (sink : cfg.sink l = some (.ni n)) (s : Net) :
    Updates cfg (· = .ejection n) s (checkStallQueue n t s l) := by
  have same : EjectsAt n s s.outNode s.stallCount s.dequeueCallback := ⟨fun _ _ => rfl, fun _ _ => rfl, fun _ _ => rfl⟩
  unfold checkStallQueue
  dsimp only
  split
  · exact .single rfl (.eject sink (.nothing (t := t)) same _)
  · rename_i f rest _
    refine .single rfl (.eject sink (.unstall _) ⟨fun p other => ?_, fun p other => ?_, fun p other => ?_⟩ _)
    · exact update_of_ne (fun at_n => other (by rw [at_n])) ..
    · exact update_of_ne (fun at_n => other (by rw [at_n])) ..
    · split
      · exact update_of_ne (fun at_n => other (by rw [at_n])) ..
      · rfl

theorem checkInLink_updates {l : Nat} (sink : cfg.sink l = some (.ni n)) (s : Net) :
    Updates cfg (· = .ejection n) s (checkInLink n t s l) := by
  have same : EjectsAt n s s.outNode s.stallCount s.dequeueCallback := ⟨fun _ _ => rfl, fun _ _ => rfl, fun _ _ => rfl⟩
  unfold checkInLink
  split
  · exact .refl
  · rename_i f rest top
    split
    · split
      · split
        · refine .single rfl (.eject sink (.eject top) ⟨fun p other => ?_, same.stallCount, same.dequeueCallback⟩ _)
          exact update_of_ne (fun at_n => other (by rw [at_n])) ..
        · refine .single rfl (.eject sink (.stall (t := t) top) ⟨same.outNode, fun p other => ?_, fun p other => ?_⟩ _)
          · exact update_of_ne (fun at_n => other (by rw [at_n])) ..
          · exact update_of_ne (fun at_n => other (by rw [at_n])) ..
      · exact .single rfl (.eject sink (.eject top) same _)
    · exact .refl

theorem checkCreditLink_updates (l : Nat) (s : Net) : Updates cfg (· = .credits) s (checkCreditLink t s l) := by
  unfold checkCreditLink
  split
  · exact .refl
  · split
    · exact .single rfl (.creditArrives ..)
    · exact .refl

section Stages

variable (n t : Nat)

theorem flitisizeMessages_updates (vnets : List Nat) (s : Net) :
    Updates cfg (fun part => ∃ vnet ∈ vnets, part = .injection n vnet) s (vnets.foldl (flitisizeMessage cfg n t) s) :=
  Within.foldl _ (fun vnet listed s => (flitisizeMessage_updates vnet s).mono fun _ same => ⟨vnet, listed, same⟩) s

theorem scheduleOutputPorts_updates (ports : List Nat) (s : Net) :
    Updates cfg (· = .output) s (ports.foldl (scheduleOutputPort cfg n t) s) :=
  Within.foldl _ (fun l _ s => scheduleOutputPort_updates l s) s

theorem checkStallQueues_updates (s : Net) :
    Updates cfg (· = .ejection n) s ((cfg.inLinks (.ni n)).foldl (checkStallQueue n t) s) :=
  Within.foldl _ (fun _ listed s => checkStallQueue_updates (Config.mem_inLinks.mp listed) s) s

theorem checkInLinks_updates (s : Net) :
    Updates cfg (· = .ejection n) s ((cfg.inLinks (.ni n)).foldl (checkInLink n t) s) :=
  Within.foldl _ (fun _ listed s => checkInLink_updates (Config.mem_inLinks.mp listed) s) s

theorem credits_updates (s : Net) :
    Updates cfg (· = .credits) s
      (checkReschedule cfg n t ((cfg.inLinks (.ni n)).foldl (scheduleCredits cfg n t)
        ((cfg.outLinks (.ni n)).foldl (checkCreditLink t) s))) := by
  have credited : ∀ s, Updates cfg (· = .credits) s ((cfg.outLinks (.ni n)).foldl (checkCreditLink t) s) :=
    Within.foldl _ fun l _ s => checkCreditLink_updates l s
  have scheduled : ∀ s, Updates cfg (· = .credits) s ((cfg.inLinks (.ni n)).foldl (scheduleCredits cfg n t) s) :=
    Within.foldl _ fun _ _ _ => Updates.scheduleIf _ _ _
  exact ((credited _).trans (scheduled _)).trans (Updates.scheduleIf _ _ _)

def Delivering (part : Part) : Prop := part = .output ∨ part = .ejection n ∨ part = .credits

theorem delivering_updates (s : Net) :
    Updates cfg (Delivering n) ((List.range cfg.numVnets).foldl (flitisizeMessage cfg n t) s) (wakeup cfg n t s) := by
  have ejection : ∀ part, part = .ejection n → Delivering n part := fun _ same => Or.inr (Or.inl same)
  have credits : ∀ part, part = .credits → Delivering n part := fun _ same => Or.inr (Or.inr same)
  unfold wakeup
  generalize (List.range cfg.numVnets).foldl (flitisizeMessage cfg n t) s = flitisized
  have scheduled : Updates cfg (Delivering n) flitisized
      ((cfg.outLinks (.ni n)).foldl (scheduleOutputPort cfg n t) flitisized) :=
    (scheduleOutputPorts_updates n t _ flitisized).mono fun _ => Or.inl
  have unstalled := scheduled.trans ((checkStallQueues_updates n t _).mono ejection)
  have ejected := unstalled.trans ((checkInLinks_updates n t _).mono ejection)
  exact ejected.trans ((credits_updates n t _).mono credits)

def Serving (part : Part) : Prop := (∃ vnet, part = .injection n vnet) ∨ Delivering n part

theorem wakeup_updates (s : Net) : Updates cfg (Serving n) s (wakeup cfg n t s) := by
  have flitisized : Updates cfg (Serving n) s ((List.range cfg.numVnets).foldl (flitisizeMessage cfg n t) s) :=
    (flitisizeMessages_updates n t _ s).mono fun _ ⟨vnet, _, same⟩ => Or.inl ⟨vnet, same⟩
  exact flitisized.trans ((delivering_updates n t s).mono fun _ => Or.inr)

end Stages

end NetworkInterface

def Event.Touches (cfg : Config) : Event → Part → Prop
  | .link l _, part => part = .wake (.link l) ∨ part = .link l
  | .creditLink l _, part => part = .wake (.creditLink l) ∨ part = .link l
  | .router r _ _, part =>
    part = .wake (.router r) ∨ (∃ port ∈ (cfg.inLinks (.router r)).zipIdx, InputUnit.Receiving r port.2 port.1 part) ∨
      Routing r part
  | .outputUnit l _, part => part = .wake (.outputUnit l) ∨ part = .credits
  | .ni n _, part => part = .wake (.ni n) ∨ NetworkInterface.Serving n part
  | .protocol n vnet _, part => part = .injection n vnet
  | .drain n vnet _ _, part => part = .protocol n vnet

section Touches

open InputUnit NetworkInterface

variable {e : Event}

theorem Event.touches_injection {n vnet : Nat} :
    e.Touches cfg (.injection n vnet) ↔ (∃ t, e = .ni n t) ∨ ∃ queue, e = .protocol n vnet queue := by
  cases e <;> simp [Touches, Receiving, Deciding, Routing, Serving, Delivering, eq_comm]

theorem Event.touches_ejection {n : Nat} : e.Touches cfg (.ejection n) ↔ ∃ t, e = .ni n t := by
  cases e <;> simp [Touches, Receiving, Deciding, Routing, Serving, Delivering, eq_comm]

theorem Event.router_of_touches_input {l : Nat} (touched : e.Touches cfg (.input l)) :
    ∃ r t draws, e = .router r t draws ∧ cfg.sink l = some (.router r) := by
  cases e with
  | router r t draws =>
    simp only [Touches, Receiving, Deciding, Routing, reduceCtorEq, false_or, and_false, or_false, Part.input.injEq] at touched
    obtain ⟨port, listed, rfl⟩ := touched
    exact ⟨r, t, draws, rfl, Config.mem_inLinks.mp (List.fst_mem_of_mem_zipIdx listed)⟩
  | _ => simp [Touches, Serving, Delivering] at touched

theorem Event.touches_wake {r : Nat} : e.Touches cfg (.wake (.router r)) ↔ ∃ t draws, e = .router r t draws := by
  cases e <;> simp [Touches, Receiving, Deciding, Routing, Serving, Delivering, eq_comm]

theorem Event.touches_localUnit {r : Nat} :
    e.Touches cfg (.localUnit r) ↔ (∃ t draws, e = .router r t draws) ∧ ∃ l rest, cfg.inLinks
    (.router r) = l :: rest := by
  have first : (∃ l, (l, 0) ∈ (cfg.inLinks (.router r)).zipIdx) ↔ ∃ l rest, cfg.inLinks (.router r) = l :: rest := by
    cases cfg.inLinks (.router r) <;> simp
  cases e with
  | router q t draws =>
    by_cases same : q = r
    · subst same
      simp [Touches, Receiving, Deciding, Routing, first]
    · simp [Touches, Receiving, Deciding, Routing, same, Ne.symm same]
  | _ => simp [Touches, Serving, Delivering]

end Touches

theorem Net.wakeAt_updates {t : Nat} {body : Net → Net}
    (updates : Updates cfg parts (s.woken c t) (body (s.woken c t))) :
    Updates cfg (fun part => part = .wake c ∨ parts part) s (s.wakeAt c t body) := by
  unfold wakeAt
  split
  · exact Within.trans (Updates.single (Or.inl rfl) (.wake t)) (updates.mono fun _ => Or.inr)
  · exact .refl

theorem Net.step_updates (s : Net) (e : Event) : Updates cfg (e.Touches cfg) s (step cfg s e) := by
  unfold step
  split
  · cases e with
    | link l t => exact wakeAt_updates (linkWakeup_updates ..)
    | creditLink l t => exact wakeAt_updates (creditLinkWakeup_updates ..)
    | router r t draws =>
      refine wakeAt_updates (Within.trans ?_ ((routerWakeup_updates r t draws _).mono fun _ => Or.inr))
      exact Within.foldl _ (fun port listed s => (InputUnit.wakeup_updates draws s port).mono
        fun _ touched => Or.inl ⟨port, listed, touched⟩) _
    | outputUnit l t => exact wakeAt_updates (outputUnitWakeup_updates ..)
    | ni n t => exact wakeAt_updates (NetworkInterface.wakeup_updates n t _)
    | protocol n vnet queue =>
      dsimp only
      split
      · exact .single rfl (.setMessages queue)
      · exact .refl
    | drain n vnet t op =>
      dsimp only
      split
      · exact Within.trans (Updates.single rfl (.drain _)) (Updates.scheduleIf _ _ _)
      · exact .refl
  · exact .refl

end Resister.Garnet
