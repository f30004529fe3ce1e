import Resister.Garnet.Simulation

/-!
# Actions of the flow control

What a wakeup can do to the state of flow control, one flit or credit at a time, with the conditions
under which the code does it.
-/

namespace Resister.Garnet

/-- The first virtual channel of the network interface's packets, and the routes they start with. -/
structure StartsAt (cfg : Config) (n l vc : Nat) (route : RouteInfo) : Prop where
  port : cfg.getOutportForVnet n (cfg.vnetOf vc) = some l
  vnet : route.vnet = cfg.vnetOf vc
  srcNi : route.srcNi = n
  hops : route.hopsTraversed = -1
  untagged : route.sTag = 0
  netDest : ∀ m, m ∈ route.netDest.elems ↔
    m ∈ allMachines cfg.machineCounts ∧ m.nodeID cfg.machineCounts = route.destNi
  destRouter : ∃ destLink, cfg.getOutportForVnet route.destNi route.vnet = some destLink ∧
    route.destRouter = NetworkInterface.routerID cfg destLink

/-- An input virtual channel may send to an output virtual channel. -/
structure Grantable (cfg : Config) (s : Flow) (t outport : Nat) (input out : Nat × Nat) : Prop where
  port : (s.virtualChannels input).outputPort = some outport
  target : cfg.target input.1 (some outport) = some out.1
  credit : ∀ w, (s.virtualChannels input).outputVc = some w →
    w = out.2 ∧ 0 < (s.outVcState out).creditCount
  free : (s.virtualChannels input).outputVc = none →
    cfg.vnetOf out.2 = cfg.vnetOf input.2 ∧ (s.outVcState out).state = .idle
  ordered : cfg.isVNetOrdered (cfg.vnetOf input.2) = true →
    SwitchAllocator.overtakes cfg s t input.1 input.2 outport = false

inductive Act (cfg : Config) (R : Nat → Flit → RouteInfo → Nat → Prop) : Flow → Flow → Type where
  | fail {s : Flow} {fault : Fault} (other : fault.isFlowControl = false) : Act cfg R s (s.fail fault)
  | link {s : Flow} {l : Nat} {f : Flit} {rest : List Flit} (top : s.outQueue l = f :: rest)
      (time : Nat) : Act cfg R s (s.traverse l f rest time)
  | creditLink {s : Flow} {l : Nat} {c : Credit} {rest : List Credit} (top : s.creditQueue l = c :: rest)
      (time : Nat) : Act cfg R s (s.traverseCredit l c rest time)
  | receive {s : Flow} {r l t : Nat} {f : Flit} {rest : List Flit} {route : RouteInfo} {port : Nat}
      (sink : cfg.sink l = some (.router r)) (now : s.due (.router r) = t + 1)
      (top : s.linkBuffer l = f :: rest) (ready : f.time ≤ t)
      (same : route.fixed = f.route.incrementHops.fixed)
      (body : f.isHead = false → route = f.route.incrementHops)
      (decided : f.isHead = true → R l f route port)
      -- one flit from each link in a wakeup
      (once : ∀ w, ∀ g ∈ (s.virtualChannels (l, w)).inputBuffer, g.stage.2 < t + cfg.pipeDelay r) :
      Act cfg R s (s.receive l t (t + cfg.pipeDelay r) f rest route port)
  | credit {s : Flow} {l : Nat} {c : Credit} {rest : List Credit} (top : s.creditLinkBuffer l = c :: rest)
      (t : Nat) : Act cfg R s (s.creditArrives l t c rest)
  | assertAllocation {s : Flow} {r t : Nat} (now : s.due (.router r) = t + 1) :
      Act cfg R s (s.assertAllocation cfg r t)
  | grant {s : Flow} {r t outport : Nat} {input out : Nat × Nat} {f : Flit} {rest : List Flit}
      (sink : cfg.sink input.1 = some (.router r)) (now : s.due (.router r) = t + 1)
      (top : (s.virtualChannels input).inputBuffer = f :: rest) (ready : f.time ≤ t)
      (stage : f.stage.2 ≤ t) (grantable : Grantable cfg s t outport input out) :
      Act cfg R s (s.grant t outport input out f rest)
  | cross {s : Flow} {l out : Nat} {f : Flit} {rest : List Flit} (top : s.switchBuffer l = f :: rest)
      (target : cfg.target l f.outport = some out) (time : Nat) : Act cfg R s (s.cross l out f rest time)
  | inject {s : Flow} {n t l vc size : Nat} {route : RouteInfo} (now : s.due (.ni n) = t + 1)
      (start : StartsAt cfg n l vc route) (idle : (s.outVcState (l, vc)).state = .idle)
      -- within one wakeup no two packets of a virtual network go to the same destination
      (fresh : ∀ other, ∀ f ∈ s.niOutVcs (l, other), f.vnet = route.vnet → f.route.destNi = route.destNi →
        f.time < t) :
      Act cfg R s (s.inject n t (l, vc) (NetworkInterface.packetOf route size s.clones)
        (NetworkInterface.packetFlits route vc size s.clones t))
  | messages {s : Flow} {p : Nat × Nat} {queue : List Message}
      (valid : ∀ msg ∈ queue, msg.valid cfg = true) : Act cfg R s (s.setMessages p queue)
  | allocator {s : Flow} {p : Nat × Nat} {delta : Nat} (below : delta < cfg.vcsPerVnet) :
      Act cfg R s (s.setAllocator p delta)
  | send {s : Flow} {n t : Nat} {c : Nat × Nat} {f : Flit} {rest : List Flit}
      (port : cfg.getOutportForVnet n (cfg.vnetOf c.2) = some c.1) (now : s.due (.ni n) = t + 1)
      (top : s.niOutVcs c = f :: rest) (credit : 0 < (s.outVcState c).creditCount)
      (ordered : cfg.isVNetOrdered (cfg.vnetOf c.2) = true →
        NetworkInterface.overtakes cfg s t c.1 c.2 = false) (time : Nat) :
      Act cfg R s (s.send c f rest time)
  | eject {s : Flow} {n l : Nat} {f : Flit} {rest : List Flit} (sink : cfg.sink l = some (.ni n))
      (top : s.linkBuffer l = f :: rest)
      (unblocked : f.isTail = true → ∀ g ∈ s.stallQueue l, g.vnet ≠ f.vnet) (t : Nat) :
      Act cfg R s ((s.consume l rest).eject n l t f)
  | stall {s : Flow} {n l : Nat} {f : Flit} {rest : List Flit} (sink : cfg.sink l = some (.ni n))
      (top : s.linkBuffer l = f :: rest) (tail : f.isTail = true) : Act cfg R s (s.stall l f rest)
  | unstall {s : Flow} {n l : Nat} {before after : List Flit} {f : Flit}
      (sink : cfg.sink l = some (.ni n)) (queue : s.stallQueue l = before ++ f :: after)
      (first : ∀ g ∈ before, g.vnet ≠ f.vnet) (t : Nat) :
      Act cfg R s ((s.unstall l (before ++ after)).eject n l t f)

def Acts (cfg : Config) (R : Nat → Flit → RouteInfo → Nat → Prop) : Flow → Flow → Prop :=
  Relation.ReflTransGen fun a b => Nonempty (Act cfg R a b)

variable {cfg : Config} {R R' : Nat → Flit → RouteInfo → Nat → Prop} {s s' : Flow}

theorem Act.due_eq (act : Act cfg R s s') : s'.due = s.due := by
  cases act <;> rfl

theorem Acts.refl : Acts cfg R s s := Relation.ReflTransGen.refl

theorem Acts.single (act : Act cfg R s s') : Acts cfg R s s' := Relation.ReflTransGen.single ⟨act⟩

theorem Acts.trans {a b c : Flow} (first : Acts cfg R a b) (second : Acts cfg R b c) : Acts cfg R a c :=
  Relation.ReflTransGen.trans first second

theorem Acts.due_eq (acts : Acts cfg R s s') : s'.due = s.due := by
  induction acts with
  | refl => rfl
  | tail _ last ih =>
    obtain ⟨act⟩ := last
    exact act.due_eq.trans ih

theorem Acts.induct {P : Flow → Prop} (acts : Acts cfg R s s') (start : P s)
    (step : ∀ {a b}, Act cfg R a b → P a → P b) : P s' := by
  induction acts with
  | refl => exact start
  | tail _ last ih =>
    obtain ⟨act⟩ := last
    exact step act ih

structure Flow.Prepared (cfg : Config) (s : Flow) : Prop where
  valid : ∀ p, ∀ msg ∈ s.inNode p, msg.valid cfg = true
  pointer : ∀ p, s.vcAllocator p < cfg.vcsPerVnet
  early : ∀ n c, cfg.source c.1 = some (.ni n) → ∀ f ∈ s.niOutVcs c, f.time < s.due (.ni n)
  received : ∀ r c, cfg.sink c.1 = some (.router r) → ∀ f ∈ (s.virtualChannels c).inputBuffer,
    f.stage.2 < s.due (.router r) + cfg.pipeDelay r

theorem Flow.Prepared.init : (Flow.init cfg).Prepared cfg :=
  ⟨by simp [Flow.init], fun _ => cfg.vcsPerVnet_pos, by simp [Flow.init], by simp [Flow.init]⟩

theorem Flow.Prepared.wake (prepared : s.Prepared cfg) {c : Component} {t : Nat} (later : s.due c ≤ t) :
    (s.wake c t).Prepared cfg := by
  have mono : ∀ other, s.due other ≤ (s.wake c t).due other := by
    intro other
    by_cases same : other = c
    · subst same
      simp only [Flow.wake, Function.update_self]
      omega
    · simp [Flow.wake, same]
  exact
    { valid := prepared.valid
      pointer := prepared.pointer
      early := fun n d source f waiting =>
        Nat.lt_of_lt_of_le (prepared.early n d source f waiting) (mono _)
      received := fun r d sink f buffered =>
        Nat.lt_of_lt_of_le (prepared.received r d sink f buffered) (Nat.add_le_add_right (mono _) _) }

theorem Act.prepared (act : Act cfg R s s') (prepared : s.Prepared cfg) : s'.Prepared cfg := by
  obtain ⟨valid, pointer, early, received⟩ := prepared
  cases act with
  | messages valid' =>
    rename_i p queue
    refine ⟨fun q msg present => ?_, pointer, early, received⟩
    by_cases same : q = p
    · subst same
      exact valid' msg (by simpa [Flow.setMessages] using present)
    · exact valid q msg (by simpa [Flow.setMessages, same] using present)
  | inject now start =>
    rename_i n t l vc size route fresh idle
    refine ⟨valid, pointer, fun m c source f waiting => ?_, received⟩
    by_cases same : c = (l, vc)
    · subst same
      obtain rfl : n = m := by
        have := (Config.getOutportForVnet_source start.port).symm.trans source
        simpa using this
      simp only [Flow.inject, Function.update_self, List.mem_append] at waiting
      rcases waiting with waiting | created
      · exact early n _ source f waiting
      · obtain ⟨i, -, rfl⟩ := List.mem_map.mp created
        show t < s.due (.ni n)
        omega
    · exact early m c source f (by simpa [Flow.inject, same] using waiting)
  | send port now top =>
    rename_i n t c g rest _ _ _
    refine ⟨valid, pointer, fun m d source f waiting => ?_, received⟩
    by_cases same : d = c
    · subst same
      refine early m d source f ?_
      rw [top]
      exact List.mem_cons_of_mem _ (by simpa [Flow.send] using waiting)
    · exact early m d source f (by simpa [Flow.send, same] using waiting)
  | allocator below =>
    rename_i p delta
    refine ⟨valid, fun q => ?_, early, received⟩
    by_cases same : q = p
    · simpa [Flow.setAllocator, same] using below
    · simpa [Flow.setAllocator, same] using pointer q
  | receive sink now =>
    rename_i r l t f rest route port _ _ _ _ _ _
    refine ⟨valid, pointer, early, fun r' c sink' g buffered => ?_⟩
    by_cases same : c = (l, f.vc)
    · subst same
      obtain rfl : r = r' := by simpa using sink.symm.trans sink'
      simp only [Flow.receive, Function.update_self, List.mem_append, List.mem_singleton] at buffered
      rcases buffered with buffered | rfl
      · exact received r (l, f.vc) sink' g buffered
      · show t + cfg.pipeDelay r < s.due (.router r) + cfg.pipeDelay r
        omega
    · exact received r' c sink' g (by simpa [Flow.receive, same] using buffered)
  | grant sink now top =>
    rename_i r t outport input out f rest _ _ _
    refine ⟨valid, pointer, early, fun r' c sink' g buffered => received r' c sink' g ?_⟩
    by_cases same : c = input
    · subst same
      have smaller : ((s.grant t outport c out f rest).virtualChannels c).inputBuffer = rest := by
        simp only [Flow.grant, Function.update_self]
        split <;> rfl
      rw [smaller] at buffered
      rw [top]
      exact List.mem_cons_of_mem _ buffered
    · simpa [Flow.grant, same] using buffered
  | _ => exact ⟨valid, pointer, early, received⟩

end Resister.Garnet
