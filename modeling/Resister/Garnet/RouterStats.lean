import Resister.Garnet.SwitchAllocation
import Resister.Garnet.DetourRate

/-!
# Statistics of a router

What the units of a router count, what `resetStats` sets to zero, and what `collateStats` publishes.
-/

namespace Resister.Garnet

structure VariantCounts where
  regularVar : Nat := 0
  var1 : Nat := 0
  var2 : Nat := 0
  var3 : Nat := 0
  deriving DecidableEq, Repr

def riskFindCounts (table : List HistoryEntry) (now : HistoryEntry) (record : List (List (Option (Nat × Nat))))
    (nowRoute destRoute variant outport : Nat) : VariantCounts :=
  if table.any fun entry => entry.cycleRecieve == 0 then {}
  else
    let find := (majorityEntry table).isSome
    let risk := (majorityEntry table).getD {}
    if !find && !isVariant variant .variant3 then {}
    else if !historyEntryCmp now risk && !isVariant variant .variant3 then {}
    else
      let timed : VariantCounts :=
        if find && historyEntryCmp now risk then
          let times := (table.filter fun entry => historyEntryCmp entry risk).map HistoryEntry.cycleRecieve
          { regularVar := if isVariant variant .regular && regularTest times then 1 else 0
            var1 := if isVariant variant .variant1 && fluctuationTest times then 1 else 0
            var2 := if isVariant variant .variant2 && (historyEntryCmp now risk && find) then 1 else 0 }
        else {}
      if isVariant variant .variant3 && decide (8 ≤ 2 * findMutual record nowRoute destRoute outport) then
        { timed with var3 := 1 }
      else timed

/-- What the units of a router count. The buffer counters are indexed by the input port and the virtual network. -/
structure RouterCounters where
  bufferReads : Nat → Nat → Nat := fun _ _ => 0
  bufferWrites : Nat → Nat → Nat := fun _ _ => 0
  inputArbiterActivity : Nat := 0
  outputArbiterActivity : Nat := 0
  crossbarActivity : Nat := 0
  inS : InputUnitStats := {}
  variants : VariantCounts := {}

instance : Add InputUnitStats where
  add a b := ⟨a.detourCounts + b.detourCounts, a.riskCounts + b.riskCounts, a.allCounts + b.allCounts⟩

instance : Add VariantCounts where
  add a b := ⟨a.regularVar + b.regularVar, a.var1 + b.var1, a.var2 + b.var2, a.var3 + b.var3⟩

instance : Add RouterCounters where
  add a b :=
    { bufferReads := fun i vnet => a.bufferReads i vnet + b.bufferReads i vnet
      bufferWrites := fun i vnet => a.bufferWrites i vnet + b.bufferWrites i vnet
      inputArbiterActivity := a.inputArbiterActivity + b.inputArbiterActivity
      outputArbiterActivity := a.outputArbiterActivity + b.outputArbiterActivity
      crossbarActivity := a.crossbarActivity + b.crossbarActivity
      inS := a.inS + b.inS
      variants := a.variants + b.variants }

namespace InputUnit

def consumed (cfg : Config) (r t : Nat) (s : Net) (port : Nat × Nat) : Option (Flit × Net) :=
  if cfg.inputStruct = .tdma ∧ port.2 = 0 then
    let started := tdmaInit r s
    if coreNum ≤ r ∨ started.tdma.counter r < 0 then none
    else
      (started.flow.linkBuffer port.1).head?.bind fun f =>
        if f.time ≤ t ∧ started.tdma.counter r < thresSlot ∧ started.roundFlit r < thresFlit then some (f, started)
        else none
  else (s.flow.linkBuffer port.1).head?.bind fun f => if f.time ≤ t then some (f, s) else none

def variantActivity (cfg : Config) (r l t : Nat) (draws : Draws) (f : Flit) (s : Net) : VariantCounts :=
  if (cfg.inputStruct = .resister ∨ cfg.inputStruct = .latency) ∧ f.isHead ∧ f.route.destRouter ≠ r then
    let dirn := (cfg.links[l]?.map Link.inportDirn).getD .Unknown
    match routeCompute cfg r 0 t draws.preGet dirn f.route (record r t f s) with
    | .error _ => {}
    | .ok (predicted, route, port) =>
      riskFindCounts (predicted.history r) (historyEntry t route) (predicted.outBuf r) route.srcRouter route.destRouter
        Variant.all port
  else {}

def activity (cfg : Config) (r t : Nat) (draws : Nat → Draws) (s : Net) (port : Nat × Nat) : RouterCounters :=
  match consumed cfg r t s port with
  | none => {}
  | some (f, started) =>
    match resolve cfg r port.2 port.1 t (draws port.2) f started with
    | .error _ => {}
    | .ok (after, _, _) =>
      let buffered := fun i vnet => if i = port.2 ∧ vnet = cfg.vnetOf f.vc then 1 else 0
      { bufferReads := buffered
        bufferWrites := buffered
        inS :=
          { detourCounts := (after.stats r).detourCounts - (s.stats r).detourCounts
            riskCounts := (after.stats r).riskCounts - (s.stats r).riskCounts
            allCounts := (after.stats r).allCounts - (s.stats r).allCounts }
        variants := if port.2 = 0 then variantActivity cfg r port.1 t (draws 0) f started else {} }

def activities (cfg : Config) (r t : Nat) (draws : Nat → Draws) : List (Nat × Nat) → Net → RouterCounters
  | [], _ => {}
  | port :: ports, s => activity cfg r t draws s port + activities cfg r t draws ports (wakeup cfg r t draws s port)

end InputUnit

def SwitchAllocator.activity (cfg : Config) (r t : Nat) (s : Net) : RouterCounters :=
  let asserted : Net := { s with flow := s.flow.assertAllocation cfg r t }
  let requests := arbitrateInports cfg asserted r t
  { inputArbiterActivity := (cfg.inLinks (.router r)).countP fun l => (requests l).isSome
    outputArbiterActivity := grantCount cfg r t (cfg.outLinks (.router r)).zipIdx (asserted, requests) }

def crosses (cfg : Config) (t : Nat) (s : Net) (l : Nat) : Bool :=
  (s.flow.switchBuffer l).head?.any fun f =>
    decide (f.time ≤ t) && f.isStage .st t && (cfg.target l f.outport).isSome

def crossbarActivity (cfg : Config) (r t : Nat) : List Nat → Net → RouterCounters
  | [], _ => {}
  | l :: ls, s =>
    { crossbarActivity := if crosses cfg t s l then 1 else 0 : RouterCounters } +
      crossbarActivity cfg r t ls (crossbarWakeup cfg r t s l)

def routerActivity (cfg : Config) (r t : Nat) (draws : Nat → Draws) (s : Net) : RouterCounters :=
  let called := allocatorState cfg r t draws s
  InputUnit.activities cfg r t draws (cfg.inLinks (.router r)).zipIdx s + SwitchAllocator.activity cfg r t called +
    crossbarActivity cfg r t (cfg.inLinks (.router r)) (SwitchAllocator.wakeup cfg r t called)

def Net.activity (cfg : Config) (r : Nat) (s : Net) : Event → RouterCounters
  | .router q t draws =>
    if s.flow.faults = [] ∧ q = r ∧ s.flow.due (.router r) ≤ t then
      routerActivity cfg r t draws (s.woken (.router r) t)
    else {}
  | _ => {}

namespace InputUnit

variable {cfg : Config} {r l t inport : Nat} {f : Flit} {s s' : Net} {route : RouteInfo}

end InputUnit

/-- The counters, and the statistics to which `collateStats` adds. -/
structure RouterStats where
  counters : RouterCounters := {}
  mBufferReads : Nat := 0
  mBufferWrites : Nat := 0

structure Published where
  bufferReads : Nat
  bufferWrites : Nat
  swInputArbiterActivity : Nat
  swOutputArbiterActivity : Nat
  crossbarActivity : Nat
  inS : InputUnitStats
  variants : VariantCounts
  deriving DecidableEq, Repr

namespace RouterStats

def total (cfg : Config) (r : Nat) (count : Nat → Nat → Nat) : Nat :=
  ((List.range cfg.numVnets).map fun vnet =>
    ((List.range (cfg.inLinks (.router r)).length).map fun i => count i vnet).sum).sum

def collateStats (cfg : Config) (r : Nat) (st : RouterStats) : RouterStats :=
  { st with
    mBufferReads := st.mBufferReads + total cfg r st.counters.bufferReads
    mBufferWrites := st.mBufferWrites + total cfg r st.counters.bufferWrites }

def published (cfg : Config) (r : Nat) (st : RouterStats) : Published :=
  { bufferReads := (st.collateStats cfg r).mBufferReads
    bufferWrites := (st.collateStats cfg r).mBufferWrites
    swInputArbiterActivity := st.counters.inputArbiterActivity
    swOutputArbiterActivity := st.counters.outputArbiterActivity
    crossbarActivity := st.counters.crossbarActivity
    inS := st.counters.inS
    variants := st.counters.variants }

/-- `Router::resetStats`, with those of the input units, the crossbar and the allocator. -/
def resetStats (st : RouterStats) : RouterStats :=
  { st with
    counters :=
      { st.counters with
        bufferReads := fun _ _ => 0
        bufferWrites := fun _ _ => 0
        inputArbiterActivity := 0
        outputArbiterActivity := 0
        crossbarActivity := 0
        inS := { st.counters.inS with detourCounts := 0, riskCounts := 0 } } }

/-- What happens in a run, as far as the statistics of a router are concerned. -/
inductive Op where
  | event (e : Event)
  | collateStats

def step (cfg : Config) (r : Nat) (state : Net × RouterStats) : Op → Net × RouterStats
  | .event e =>
    (state.1.step cfg e, { state.2 with counters := state.2.counters + state.1.activity cfg r e })
  | .collateStats => (state.1, state.2.collateStats cfg r)

def run (cfg : Config) (r : Nat) (state : Net × RouterStats) (ops : List Op) : Net × RouterStats :=
  ops.foldl (step cfg r) state

structure Kept where
  allCounts : Nat
  variants : VariantCounts
  mBufferReads : Nat
  mBufferWrites : Nat
  deriving DecidableEq

def kept (st : RouterStats) : Kept :=
  ⟨st.counters.inS.allCounts, st.counters.variants, st.mBufferReads, st.mBufferWrites⟩

def addKept (st : RouterStats) (k : Kept) : RouterStats :=
  { counters :=
      { st.counters with
        inS := { st.counters.inS with allCounts := k.allCounts + st.counters.inS.allCounts }
        variants := k.variants + st.counters.variants }
    mBufferReads := k.mBufferReads + st.mBufferReads
    mBufferWrites := k.mBufferWrites + st.mBufferWrites }

theorem variants_add_assoc (a b c : VariantCounts) : a + b + c = a + (b + c) := by
  show VariantCounts.mk _ _ _ _ = VariantCounts.mk _ _ _ _
  congr 1 <;> exact Nat.add_assoc _ _ _

theorem step_addKept (cfg : Config) (r : Nat) (s : Net) (st : RouterStats) (k : Kept) (op : Op) :
    step cfg r (s, st.addKept k) op = ((step cfg r (s, st) op).1, (step cfg r (s, st) op).2.addKept k) := by
  cases op with
  | event e =>
    refine Prod.ext rfl ?_
    show RouterStats.mk _ _ _ = RouterStats.mk _ _ _
    congr 1
    show RouterCounters.mk _ _ _ _ _ _ _ = RouterCounters.mk _ _ _ _ _ _ _
    congr 1
    · show InputUnitStats.mk _ _ _ = InputUnitStats.mk _ _ _
      congr 1
      exact Nat.add_assoc _ _ _
    · exact variants_add_assoc _ _ _
  | collateStats =>
    refine Prod.ext rfl ?_
    show RouterStats.mk _ _ _ = RouterStats.mk _ _ _
    congr 1 <;> exact Nat.add_assoc _ _ _

theorem run_addKept (cfg : Config) (r : Nat) (s : Net) (st : RouterStats) (k : Kept) (ops : List Op) :
    (run cfg r (s, st.addKept k) ops).2 = (run cfg r (s, st) ops).2.addKept k := by
  induction ops generalizing s st with
  | nil => rfl
  | cons op ops ih =>
    unfold run at ih ⊢
    rw [List.foldl_cons, List.foldl_cons, step_addKept]
    exact ih _ _

theorem resetStats_eq (st : RouterStats) : st.resetStats = ({} : RouterStats).addKept st.kept := rfl

theorem published_addKept_iff (cfg : Config) (r : Nat) (st : RouterStats) (k : Kept) :
    published cfg r (st.addKept k) = published cfg r st ↔ k = ⟨0, {}, 0, 0⟩ := by
  obtain ⟨all, ⟨regular, v1, v2, v3⟩, reads, writes⟩ := k
  obtain ⟨⟨_, _, _, _, _, ⟨_, _, allOwn⟩, ⟨regularOwn, w1, w2, w3⟩⟩, _, _⟩ := st
  have added : (⟨regular, v1, v2, v3⟩ + ⟨regularOwn, w1, w2, w3⟩ : VariantCounts) =
      ⟨regular + regularOwn, v1 + w1, v2 + w2, v3 + w3⟩ := rfl
  simp only [published, collateStats, addKept, added, Published.mk.injEq, InputUnitStats.mk.injEq,
    VariantCounts.mk.injEq, Kept.mk.injEq, true_and]
  omega

end RouterStats

/-- The statistics after a reset are those of the counters started at zero exactly if the counters that a reset leaves
are zero. -/
theorem reset_statistics (cfg : Config) (r : Nat) (before after : List RouterStats.Op) :
    let start := RouterStats.run cfg r (Net.init cfg, {}) before
    RouterStats.published cfg r (RouterStats.run cfg r (start.1, start.2.resetStats) after).2 =
        RouterStats.published cfg r (RouterStats.run cfg r (start.1, {}) after).2 ↔
      start.2.counters.inS.allCounts = 0 ∧ start.2.counters.variants = {} ∧ start.2.mBufferReads = 0 ∧
        start.2.mBufferWrites = 0 := by
  intro start
  rw [RouterStats.resetStats_eq, RouterStats.run_addKept, RouterStats.published_addKept_iff, RouterStats.kept,
    RouterStats.Kept.mk.injEq]

/-- One packet enters at the local port of router 0. It is still counted after a reset. -/
theorem reset_leaves_all_counts :
    let start := RouterStats.run resisterPair 0 (Net.init resisterPair, {}) ((resisterPacket 0 0).map .event)
    (RouterStats.published resisterPair 0 (RouterStats.run resisterPair 0 (start.1, start.2.resetStats) []).2).inS.allCounts = 1 ∧
      (RouterStats.published resisterPair 0 (RouterStats.run resisterPair 0 (start.1, {}) []).2).inS.allCounts = 0 := by
  decide +kernel

end Resister.Garnet
