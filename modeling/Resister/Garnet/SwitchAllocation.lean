import Resister.Garnet.CreditFlow
import Resister.Network.GarnetNetwork

/-!
# Switch allocation

What one `SwitchAllocator::wakeup` grants. The input ports choose one request each, the output ports
serve one request each.
-/

namespace Resister.Garnet

open List

open Function (update update_self update_of_ne)

def allocatorState (cfg : Config) (r t : Nat) (draws : Nat → Draws) (s : Net) : Net :=
  (cfg.outLinks (.router r)).foldl (OutputUnit.wakeup cfg t)
    ((cfg.inLinks (.router r)).zipIdx.foldl (InputUnit.wakeup cfg r t draws) s)

/-- A switch grant: the input and the output virtual channel with their links, and the flit. -/
structure Grant where
  input : Nat × Nat
  out : Nat × Nat
  flit : Flit

def Grant.entry (g : Grant) : Entry := .granted g.input g.out g.flit.key

namespace SwitchAllocator

variable {cfg : Config} {r t : Nat}

/-- What a grant answers: a request of an input virtual channel for its top flit. -/
structure Answers (cfg : Config) (r t : Nat) (s : Flow) (g : Grant) : Prop where
  asked : ∃ outport, request cfg s r t g.input.1 g.input.2 = some outport ∧
    (cfg.outLinks (.router r))[outport]? = some g.out.1
  top : ∃ rest, (s.virtualChannels g.input).inputBuffer = g.flit :: rest
  selected : outputVcFor cfg s t g.input.1 g.input.2 g.out.1 = some g.out.2

theorem Answers.congr {s s' : Flow} {g : Grant} (answers : Answers cfg r t s g)
    (inputs : ∀ v, s'.virtualChannels (g.input.1, v) = s.virtualChannels (g.input.1, v))
    (outputs : ∀ w, s'.outVcState (g.out.1, w) = s.outVcState (g.out.1, w)) : Answers cfg r t s' g := by
  obtain ⟨⟨outport, asked, port⟩, ⟨rest, top⟩, selected⟩ := answers
  refine ⟨⟨outport, request_congr port inputs outputs asked, port⟩, ⟨rest, ?_⟩, ?_⟩
  · rw [← top]
    exact congrArg _ (inputs g.input.2)
  · rw [← selected]
    simp only [outputVcFor, inputs, OutputUnit.freeVc, outputs]

def winner (cfg : Config) (r : Nat) (acc : Net × (Nat → Option (Nat × Nat))) (port : Nat × Nat) : Option (Nat × Nat) :=
  (rotation (acc.1.roundRobinInport port.1) (cfg.inLinks (.router r))).findSome? fun l =>
    (acc.2 l).bind fun wish => if wish.1 = port.2 then some (l, wish.2) else none

theorem arbitrateOutport_none {acc : Net × (Nat → Option (Nat × Nat))} {port : Nat × Nat}
    (nobody : winner cfg r acc port = none) : arbitrateOutport cfg r t acc port = acc := by
  unfold winner at nobody
  simp only [arbitrateOutport, nobody]

theorem arbitrateOutport_some {acc : Net × (Nat → Option (Nat × Nat))} {port : Nat × Nat} {l invc : Nat}
    (won : winner cfg r acc port = some (l, invc)) :
    arbitrateOutport cfg r t acc port = (grant cfg r t l invc port.2 port.1 acc.1, update acc.2 l none) := by
  unfold winner at won
  simp only [arbitrateOutport, won]

theorem winner_some {acc : Net × (Nat → Option (Nat × Nat))} {port : Nat × Nat} {l invc : Nat}
    (won : winner cfg r acc port = some (l, invc)) : acc.2 l = some (port.2, invc) := by
  obtain ⟨l', -, wish⟩ := exists_of_findSome?_eq_some won
  obtain ⟨⟨p, v⟩, asked, here⟩ := Option.bind_eq_some_iff.mp wish
  split at here
  · rename_i same
    cases here
    rw [asked, show p = port.2 from same]
  · cases here

theorem winner_isSome {acc : Net × (Nat → Option (Nat × Nat))} {port : Nat × Nat} {l invc : Nat}
    (listed : l ∈ cfg.inLinks (.router r)) (asked : acc.2 l = some (port.2, invc)) :
    winner cfg r acc port ≠ none := by
  intro nobody
  have refused := List.findSome?_eq_none_iff.mp nobody l (mem_rotation.mpr listed)
  simp [asked] at refused

def grantCount (cfg : Config) (r t : Nat) : List (Nat × Nat) → Net × (Nat → Option (Nat × Nat)) → Nat
  | [], _ => 0
  | port :: ports, acc =>
    (if (winner cfg r acc port).isSome then 1 else 0) + grantCount cfg r t ports (arbitrateOutport cfg r t acc port)

/-- The requests that are open when the output ports still to be served are `ports`. -/
def Open (cfg : Config) (r t : Nat) (acc : Net × (Nat → Option (Nat × Nat))) (ports : List (Nat × Nat)) : Prop :=
  ∀ l outport invc, acc.2 l = some (outport, invc) → l ∈ cfg.inLinks (.router r) ∧
    (outport ∈ ports.map Prod.snd → request cfg acc.1.flow r t l invc = some outport)

structure Serves (cfg : Config) (r t : Nat) (acc : Net × (Nat → Option (Nat × Nat))) (ports : List (Nat × Nat))
    (grants : List Grant) (s : Net) : Prop where
  count : grants.length = grantCount cfg r t ports acc
  log : s.flow.log = (grants.map Grant.entry).reverse ++ acc.1.flow.log
  answers : ∀ g ∈ grants, Answers cfg r t acc.1.flow g
  asked : ∀ g ∈ grants, acc.2 g.input.1 ≠ none
  served : ∀ g ∈ grants, g.out.1 ∈ ports.map Prod.fst
  inputs : (grants.map fun g => g.input.1).Nodup
  outputs : (grants.map fun g => g.out.1).Nodup
  others : ∀ k, (∀ g ∈ grants, g.out.1 ≠ k) → ∀ w, s.flow.outVcState (k, w) = acc.1.flow.outVcState (k, w)
  taken : ∀ g ∈ grants, (acc.1.flow.virtualChannels g.input).outputVc = none →
    (s.flow.outVcState g.out).state = .active
  progress : (∃ l outport invc, acc.2 l = some (outport, invc) ∧ outport ∈ ports.map Prod.snd) → grants ≠ []

theorem grant_flow {s : Net} {l invc outport out : Nat} (port : (cfg.outLinks (.router r))[outport]? = some out)
    (asked : request cfg s.flow r t l invc = some outport) :
    ∃ g : Grant, g.input = (l, invc) ∧ g.out.1 = out ∧ Answers cfg r t s.flow g ∧
      ∃ rest, (grant cfg r t l invc outport out s).flow = s.flow.grant t outport g.input g.out g.flit rest := by
  obtain ⟨stage, -, out', port', allowed⟩ := request_cases asked
  obtain rfl : out = out' := Option.some.inj (port.symm.trans port')
  obtain ⟨f, rest, top, -⟩ := VirtualChannel.needStage_iff.mp stage
  simp only [sendAllowed, Bool.and_eq_true] at allowed
  obtain ⟨w, selected⟩ : ∃ w, outputVcFor cfg s.flow t l invc out = some w := by
    unfold outputVcFor
    split
    · exact ⟨_, rfl⟩
    · rename_i unowned
      rw [unowned] at allowed
      exact Option.isSome_iff_exists.mp allowed.1
  refine ⟨⟨(l, invc), (out, w), f⟩, rfl, rfl, ⟨⟨outport, asked, port⟩, ⟨rest, top⟩, selected⟩, rest, ?_⟩
  simp [grant, selected, top]

theorem arbitrateOutports_serves {ports : List (Nat × Nat)}
    (listed : ∀ q ∈ ports, (cfg.outLinks (.router r))[q.2]? = some q.1) (outs : (ports.map Prod.fst).Nodup)
    (acc : Net × (Nat → Option (Nat × Nat))) (asking : Open cfg r t acc ports) :
    ∃ grants, Serves cfg r t acc ports grants (ports.foldl (arbitrateOutport cfg r t) acc).1 := by
  induction ports generalizing acc with
  | nil =>
    refine ⟨[], rfl, rfl, by simp, by simp, by simp, nodup_nil, nodup_nil, fun _ _ _ => rfl, by simp, ?_⟩
    rintro ⟨_, _, _, _, nowhere⟩
    cases nowhere
  | cons port ports ih =>
    have later : ∀ q ∈ ports, (cfg.outLinks (.router r))[q.2]? = some q.1 :=
      fun q present => listed q (mem_cons_of_mem _ present)
    obtain ⟨first, outs⟩ := nodup_cons.mp outs
    rw [foldl_cons]
    cases won : winner cfg r acc port with
    | none =>
      have skipped := @arbitrateOutport_none cfg r t acc port won
      rw [skipped]
      obtain ⟨grants, serves⟩ := ih later outs acc fun l p invc asked =>
        ⟨(asking l p invc asked).1, fun present => (asking l p invc asked).2 (mem_cons_of_mem _ present)⟩
      refine ⟨grants, { serves with count := ?_, served := fun g made => ?_, progress := ?_ }⟩
      · rw [grantCount, won, skipped, serves.count]
        exact (Nat.zero_add _).symm
      · exact mem_cons_of_mem _ (serves.served g made)
      rintro ⟨l, p, invc, asked, present⟩
      rcases mem_cons.mp present with rfl | present
      · exact absurd won (winner_isSome (asking l _ invc asked).1 asked)
      · exact serves.progress ⟨l, p, invc, asked, present⟩
    | some chosen =>
      obtain ⟨l, invc⟩ := chosen
      have wish := winner_some won
      have step := @arbitrateOutport_some cfg r t acc port l invc won
      rw [step]
      obtain ⟨g, input, out, answers, rest, result⟩ := grant_flow (listed port mem_cons_self)
        ((asking l port.2 invc wish).2 mem_cons_self)
      -- The grant leaves the other input and output ports as they are.
      have inputs : ∀ k, k ≠ l → ∀ v, (grant cfg r t l invc port.2 port.1 acc.1).flow.virtualChannels (k, v) =
          acc.1.flow.virtualChannels (k, v) := by
        intro k other v
        rw [result, input]
        simp [Flow.grant, other]
      have outputs : ∀ k, k ≠ port.1 → ∀ w, (grant cfg r t l invc port.2 port.1 acc.1).flow.outVcState (k, w) =
          acc.1.flow.outVcState (k, w) := by
        intro k other w
        rw [← out] at other
        rw [result]
        simp [Flow.grant, Prod.ext_iff, other]
      have elsewhere : ∀ q ∈ ports, q.1 ≠ port.1 := fun q present same =>
        first (mem_map.mpr ⟨q, present, same⟩)
      obtain ⟨grants, serves⟩ := ih later outs (grant cfg r t l invc port.2 port.1 acc.1, update acc.2 l none)
        fun k p v asked => by
          have other : k ≠ l := by
            rintro rfl
            simp at asked
          simp only [update_of_ne other] at asked
          refine ⟨(asking k p v asked).1, fun present => ?_⟩
          obtain ⟨q, there, rfl⟩ := mem_map.mp present
          exact request_congr (later q there) (inputs k other) (outputs q.1 (elsewhere q there))
            ((asking k _ v asked).2 (mem_cons_of_mem _ present))
      have others : ∀ g' ∈ grants, g'.input.1 ≠ l ∧ g'.out.1 ≠ port.1 := by
        intro g' made
        obtain ⟨q, present, same⟩ := mem_map.mp (serves.served g' made)
        refine ⟨fun same => serves.asked g' made ?_, same ▸ elsewhere q present⟩
        rw [same]
        exact update_self ..
      refine ⟨g :: grants, ?_, ?_, ?_, ?_, ?_, ?_, ?_, ?_, ?_, fun _ => cons_ne_nil _ _⟩
      · rw [grantCount, won, step, length_cons, serves.count]
        exact Nat.add_comm _ _
      · rw [serves.log, result]
        simp [Flow.grant, Grant.entry]
      · refine forall_mem_cons.mpr ⟨answers, fun g' made => ?_⟩
        obtain ⟨otherInput, otherOut⟩ := others g' made
        exact (serves.answers g' made).congr (fun v => (inputs _ otherInput v).symm)
          (fun w => (outputs _ otherOut w).symm)
      · refine forall_mem_cons.mpr ⟨?_, fun g' made => ?_⟩
        · rw [input, wish]
          simp
        · have asked : update acc.2 l none g'.input.1 ≠ none := serves.asked g' made
          rwa [update_of_ne (others g' made).1] at asked
      · refine forall_mem_cons.mpr ⟨?_, fun g' made => mem_cons_of_mem _ (serves.served g' made)⟩
        rw [out]
        exact mem_cons_self
      · refine nodup_cons.mpr ⟨fun again => ?_, serves.inputs⟩
        obtain ⟨g', made, same⟩ := mem_map.mp again
        exact (others g' made).1 (same.trans (congrArg Prod.fst input))
      · refine nodup_cons.mpr ⟨fun again => ?_, serves.outputs⟩
        obtain ⟨g', made, same⟩ := mem_map.mp again
        exact (others g' made).2 (same.trans out)
      · intro k notServed w
        obtain ⟨here, later⟩ := forall_mem_cons.mp notServed
        exact (serves.others k later w).trans (outputs k (fun same => here (out.trans same.symm)) w)
      · refine forall_mem_cons.mpr ⟨fun unowned => ?_, fun g' made unowned => ?_⟩
        · have kept := serves.others g.out.1 (fun g' made => out ▸ (others g' made).2) g.out.2
          rw [show (g.out.1, g.out.2) = g.out from rfl] at kept
          rw [kept, result]
          simp [Flow.grant, unowned, OutVcState.decrementCredit, OutVcState.setState]
        · refine serves.taken g' made ?_
          rw [← unowned]
          exact congrArg _ (inputs _ (others g' made).1 g'.input.2)

theorem wakeup_serves (s : Net) :
    ∃ grants, Serves cfg r t
      ({ s with flow := s.flow.assertAllocation cfg r t },
        arbitrateInports cfg { s with flow := s.flow.assertAllocation cfg r t } r t)
      (cfg.outLinks (.router r)).zipIdx grants (wakeup cfg r t s) := by
  have asking : Open cfg r t
      ({ s with flow := s.flow.assertAllocation cfg r t },
        arbitrateInports cfg { s with flow := s.flow.assertAllocation cfg r t } r t)
      (cfg.outLinks (.router r)).zipIdx := by
    intro l outport invc asked
    simp only [arbitrateInports] at asked
    split at asked
    · rename_i present
      refine ⟨present, fun _ => ?_⟩
      obtain ⟨v, -, found⟩ := exists_of_findSome?_eq_some asked
      obtain ⟨p, asked, same⟩ := Option.map_eq_some_iff.mp found
      cases same
      exact asked
    · cases asked
  have distinct : ((cfg.outLinks (.router r)).zipIdx.map Prod.fst).Nodup := by
    rw [zipIdx_map_fst]
    exact Config.nodup_outLinks _
  obtain ⟨grants, serves⟩ := arbitrateOutports_serves
    (fun q present => mem_zipIdx_iff_getElem?.mp present) distinct _ asking
  have same : (wakeup cfg r t s).flow = _ := Net.scheduleIf_flow ..
  exact ⟨grants, { serves with
    log := same ▸ serves.log, others := same ▸ serves.others, taken := same ▸ serves.taken }⟩

theorem arbitrateInports_asks {s : Net} {l invc : Nat} (listed : l ∈ cfg.inLinks (.router r))
    (channel : invc < cfg.numVcs) (wants : (request cfg s.flow r t l invc).isSome) :
    ∃ outport v, arbitrateInports cfg s r t l = some (outport, v) ∧
      outport ∈ (cfg.outLinks (.router r)).zipIdx.map Prod.snd := by
  have found : (arbitrateInport cfg s r t l).isSome := by
    rw [arbitrateInport, List.findSome?_isSome_iff]
    exact ⟨invc, mem_rotation.mpr (mem_range.mpr channel), by simpa using wants⟩
  obtain ⟨⟨outport, v⟩, asks⟩ := Option.isSome_iff_exists.mp found
  refine ⟨outport, v, (if_pos listed).trans asks, ?_⟩
  obtain ⟨v', -, found⟩ := exists_of_findSome?_eq_some asks
  obtain ⟨p, asked, same⟩ := Option.map_eq_some_iff.mp found
  cases same
  obtain ⟨-, -, out, port, -⟩ := request_cases asked
  exact mem_map.mpr ⟨(out, outport), mem_zipIdx_iff_getElem?.mpr port, rfl⟩

theorem Answers.grantable {s : Flow} {g : Grant} (answers : Answers cfg r t s g)
    (sink : cfg.sink g.input.1 = some (.router r)) : ∃ outport, Grantable cfg s t outport g.input g.out := by
  obtain ⟨⟨outport, asked, port⟩, -, selected⟩ := answers
  obtain ⟨-, chosen, out, port', allowed⟩ := request_cases asked
  obtain rfl : g.out.1 = out := Option.some.inj (port.symm.trans port')
  simp only [sendAllowed, Bool.and_eq_true, Bool.not_eq_true', Bool.and_eq_false_imp] at allowed
  unfold outputVcFor at selected
  refine ⟨outport, chosen, ?_, fun own owned => ?_, fun unowned => ?_, allowed.2⟩
  · rw [Config.target_of_router sink]
    exact port
  · rw [owned] at selected allowed
    cases selected
    exact ⟨rfl, by simpa [OutVcState.hasCredit] using allowed.1⟩
  · rw [unowned] at selected
    exact freeVc_cases selected

theorem Answers.flit {s : Flow} {occ : Occupied} (inv : Conserved cfg s occ) {g : Grant} (answers : Answers cfg r t s g)
    (sink : cfg.sink g.input.1 = some (.router r)) :
    (g.flit.isHead = false → (s.virtualChannels g.input).outputVc = some g.out.2 ∧
      0 < (s.outVcState g.out).creditCount) ∧
    (g.flit.isHead = true → (s.virtualChannels g.input).outputVc = none ∧ cfg.vnetOf g.out.2 = g.flit.vnet ∧
      (s.outVcState g.out).state = .idle) := by
  obtain ⟨rest, top⟩ := answers.top
  obtain ⟨outport, grantable⟩ := answers.grantable sink
  obtain ⟨o, o', granting⟩ := inv.granting sink top grantable
  have head := Flit.isHead_iff granting.bound
  have vnet : g.flit.vnet = cfg.vnetOf g.input.2 := by
    rw [← inv.vnet g.input o granting.present, ← granting.packet]
    rfl
  cases own : (s.virtualChannels g.input).outputVc with
  | some w =>
    obtain ⟨rfl, credit⟩ := grantable.credit w own
    obtain ⟨_, -, o₁, -, atInput, -, -, -, -, started, -⟩ := inv.linked g.input _ own
    cases granting.present.symm.trans atInput
    have id := granting.id
    refine ⟨fun _ => ⟨rfl, credit⟩, fun isHead => ?_⟩
    have := head.mp isHead
    omega
  | none =>
    obtain ⟨sameVnet, idle⟩ := grantable.free own
    have whole : g.flit.size = o.packet.size := congrArg Packet.size granting.packet
    have bound := granting.bound
    have id := granting.id
    have first : g.flit.id = 0 := by
      rcases inv.unlinked g.input o (Config.intoRouter_iff.mpr ⟨r, sink⟩) granting.present own with zero | all
      · omega
      · omega
    refine ⟨fun body => ?_, fun _ => ⟨rfl, sameVnet.trans vnet.symm, idle⟩⟩
    rw [head.mpr first] at body
    cases body

end SwitchAllocator

theorem Conserved.outputVc_unique {cfg : Config} {s : Flow} {occ : Occupied} (inv : Conserved cfg s occ)
    {c d : Nat × Nat} {r w : Nat} (atC : cfg.sink c.1 = some (.router r)) (atD : cfg.sink d.1 = some (.router r))
    (port : (s.virtualChannels c).outputPort = (s.virtualChannels d).outputPort)
    (first : (s.virtualChannels c).outputVc = some w) (second : (s.virtualChannels d).outputVc = some w) : c = d := by
  obtain ⟨l, target, o₁, o₂, -, occupied, owner, -⟩ := inv.linked c w first
  obtain ⟨k, target', o₃, o₄, -, occupied', owner', -⟩ := inv.linked d w second
  rw [Config.target_of_router atC, port, ← Config.target_of_router atD, target'] at target
  cases target
  cases occupied.symm.trans occupied'
  exact Option.some.inj (owner.symm.trans owner')

theorem allocatorState_reachable {cfg : Config} {R : Nat → Flit → RouteInfo → Nat → Prop} {s : Net} {r t : Nat}
    {draws : Nat → Draws} (before : Reachable cfg R s.flow) (later : s.flow.due (.router r) ≤ t)
    (decided : Net.Decides cfg R s (.router r t draws)) :
    Reachable cfg R (allocatorState cfg r t draws (s.woken (.router r) t)).flow ∧
      (allocatorState cfg r t draws (s.woken (.router r) t)).flow.due (.router r) = t + 1 := by
  have now : (s.woken (.router r) t).flow.due (.router r) = t + 1 := update_self ..
  have sinks : ∀ port ∈ (cfg.inLinks (.router r)).zipIdx, cfg.sink port.1 = some (.router r) :=
    fun port present => Config.mem_inLinks.mp (mem_of_getElem? (mem_zipIdx_iff_getElem?.mp present))
  have received : Acts cfg R (s.woken (.router r) t).flow
      ((cfg.inLinks (.router r)).zipIdx.foldl (InputUnit.wakeup cfg r t draws) (s.woken (.router r) t)).flow := by
    refine inputUnits_acts (by rw [zipIdx_map_fst]; exact Config.nodup_inLinks _) sinks now
      (fun port present w f buffered => ?_) (decided later)
    exact Nat.lt_of_lt_of_le (before.prepared.received r (port.1, w) (sinks port present) f buffered)
      (Nat.add_le_add_right later _)
  have credited := received.trans
    (foldl_acts_plain (cfg.outLinks (.router r)) fun l _ s => outputUnitWakeup_acts l t s)
  exact ⟨(before.wake later).acts credited, (congrFun credited.due_eq _).trans now⟩

/-- One wakeup of the allocator in a router of a running network. -/
theorem switch_allocation (cfg : Config) (events : List Event) {r t : Nat} (draws : Nat → Draws)
    (later : (Net.run cfg events).flow.due (.router r) ≤ t) :
    let called := allocatorState cfg r t draws ((Net.run cfg events).woken (.router r) t)
    let s := called.flow
    let s' := (SwitchAllocator.wakeup cfg r t called).flow
    ∃ grants : List Grant,
      s'.log = (grants.map Grant.entry).reverse ++ s.log ∧
      (grants.map fun g => g.input.1).Nodup ∧ (grants.map fun g => g.out.1).Nodup ∧
      (∀ g ∈ grants, g.input.1 ∈ cfg.inLinks (.router r) ∧ g.out.1 ∈ cfg.outLinks (.router r) ∧
        (∃ rest, (s.virtualChannels g.input).inputBuffer = g.flit :: rest) ∧
        (g.flit.isHead = false → (s.virtualChannels g.input).outputVc = some g.out.2 ∧
          0 < (s.outVcState g.out).creditCount) ∧
        (g.flit.isHead = true → (s.virtualChannels g.input).outputVc = none ∧ cfg.vnetOf g.out.2 = g.flit.vnet ∧
          (s.outVcState g.out).state = .idle ∧ (s'.outVcState g.out).state = .active)) ∧
      (∀ fault ∈ s'.faults, fault.isFlowControl = false) ∧
      (∀ c d w, c.1 ∈ cfg.inLinks (.router r) → d.1 ∈ cfg.inLinks (.router r) →
        (s'.virtualChannels c).outputPort = (s'.virtualChannels d).outputPort →
        (s'.virtualChannels c).outputVc = some w → (s'.virtualChannels d).outputVc = some w → c = d) ∧
      ((∃ l ∈ cfg.inLinks (.router r), ∃ invc < cfg.numVcs,
          (SwitchAllocator.request cfg s r t l invc).isSome) → grants ≠ []) := by
  intro called s s'
  have follows : Net.Follows cfg (fun _ _ _ _ => True) (events ++ [.router r t draws]) := Net.follows_true _
  obtain ⟨reached, now⟩ := allocatorState_reachable
    (Net.run_reachable (Net.follows_true events)) later (follows events _ prefix_rfl)
  obtain ⟨occ, tracked⟩ := reached.tracked
  obtain ⟨occ', tracked'⟩ := (reached.acts (allocator_acts called now)).tracked
  have inv : Conserved cfg s occ := tracked.conserved
  have inv' : Conserved cfg s' occ' := tracked'.conserved
  obtain ⟨grants, serves⟩ := @SwitchAllocator.wakeup_serves cfg r t called
  have from_port : ∀ g ∈ grants, g.input.1 ∈ cfg.inLinks (.router r) := by
    intro g made
    by_contra unlisted
    exact serves.asked g made (if_neg unlisted)
  refine ⟨grants, serves.log, serves.inputs, serves.outputs, fun g made => ?_, inv'.safe, ?_, ?_⟩
  · have answers : SwitchAllocator.Answers cfg r t s g :=
      (serves.answers g made).congr (fun _ => rfl) fun _ => rfl
    obtain ⟨body, head⟩ := answers.flit inv (Config.mem_inLinks.mp (from_port g made))
    have served := serves.served g made
    rw [zipIdx_map_fst] at served
    refine ⟨from_port g made, served, answers.top, body, fun isHead => ?_⟩
    obtain ⟨unowned, vnet, idle⟩ := head isHead
    exact ⟨unowned, vnet, idle, serves.taken g made unowned⟩
  · intro c d w atC atD port first second
    exact inv'.outputVc_unique (Config.mem_inLinks.mp atC) (Config.mem_inLinks.mp atD) port first second
  · rintro ⟨l, listed, invc, channel, wants⟩
    obtain ⟨outport, v, asks, present⟩ := @SwitchAllocator.arbitrateInports_asks cfg r t
      { called with flow := s.assertAllocation cfg r t } l invc listed channel wants
    exact serves.progress ⟨l, outport, v, asks, present⟩

def packetUnderWay : List Event :=
  [.protocol 0 0 [⟨64, NetDest.empty.add ⟨0, 1⟩, 0⟩], .ni 0 0, .link 0 500]

theorem switch_allocation_packet :
    let called := allocatorState narrowPair 0 1000 (fun _ => {})
      ((Net.run narrowPair packetUnderWay).woken (.router 0) 1000)
    ∃ grants : List Grant,
      (SwitchAllocator.wakeup narrowPair 0 1000 called).flow.log = (grants.map Grant.entry).reverse ++ called.flow.log ∧
        grants ≠ [] ∧ (grants.map fun g => g.input.1).Nodup := by
  obtain ⟨grants, log, inputs, -, -, -, -, progress⟩ :=
    @switch_allocation narrowPair packetUnderWay 0 1000 (fun _ => {}) (by decide +kernel)
  exact ⟨grants, log, progress ⟨0, by decide +kernel, 0, by decide +kernel, by decide +kernel⟩, inputs⟩

end Resister.Garnet
