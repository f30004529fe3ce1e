import Resister.Garnet.BridgeCredits

/-!
# Credits at a deserialiser

A sender with credits for a narrow link, the deserialiser at the end of the link and the receiver
behind it.
-/

namespace Resister.Garnet

open Library List Function Nat

section Channel

variable {cur target vc : Nat} {packets : List (BridgePacket cur vc)} {fs : List BridgeFlit} {sizes : List Nat}
  {v v' : BridgeVc} {outs : List (List Traffic × Option Int)}

theorem run_untold (less : cur < target) (divides : cur ∣ target ∨ target ∣ cur)
    (fit : ∀ a ∈ packets, ExactBetween cur target a.msgSize) (first : fs <+: packets.flatMap BridgePacket.flits)
    (none_sent : v.sizeSent = 0) (no_flit_sent : v.flitsSent = 0)
    (ran : runMachine (BridgeVc.handleFlit cur target) v fs = some (v', outs))
    (announced : outs.filterMap (·.2) = sizes.map Int.ofNat) :
    sizes.sum = fs.length ∨ ∃ a ∈ packets, sizes.sum ≤ fs.length ∧
      fs.length - sizes.sum < target / cur ∧ fs.length - sizes.sum < a.flits.length := by
  induction packets generalizing fs v outs sizes with
  | nil =>
    obtain rfl := prefix_nil.mp first
    obtain ⟨-, rfl⟩ := Prod.mk.inj (Option.some.inj ran)
    obtain rfl := map_eq_nil_iff.mp announced.symm
    exact Or.inl rfl
  | cons a rest ih =>
    obtain ⟨here, others⟩ := forall_mem_cons.mp fit
    have nonempty := length_pos_iff.mp (BridgePacket.length_pos here)
    obtain ⟨-, r, rfl⟩ | ⟨wrong, -⟩ := here.dvd divides
    · have exact_fit := here.deserializes less
      have length := a.isPacket.length
      rw [exact_fit.numFlits_narrow, zero_add] at length
      rw [flatMap_cons] at first
      by_cases early : fs.length < a.flits.length
      · -- the first packet is not through
        have inside : fs <+: a.flits :=
          prefix_of_prefix_length_le first (prefix_append _ _) early.le
        obtain ⟨more, split⟩ := inside
        have unfinished : more ≠ [] := by
          rintro rfl
          rw [← split, append_nil] at early
          exact lt_irrefl _ early
        have start : Grouped cur r 0 v := ⟨by simp [Deserialized, none_sent], by simp [no_flit_sent]⟩
        have parts := a.isPacket
        rw [IsPacket, ← split] at parts
        obtain ⟨-, total⟩ := deserialize_run_early exact_fit parts unfinished start ran
        have told : sizes.sum = fs.length / r * r := by
          rw [announced] at total
          have cast : (sizes.map Int.ofNat).sum = (sizes.sum : Int) := (Nat.cast_list_sum sizes).symm
          rw [cast, Nat.zero_add, Nat.zero_div, Nat.zero_mul] at total
          omega
        have two := exact_fit.two_le
        have rest_small := mod_lt fs.length (show 0 < r by omega)
        have whole := div_add_mod fs.length r
        rw [Nat.mul_comm] at whole
        rw [Nat.mul_div_cancel_left _ exact_fit.positive]
        refine Or.inr ⟨a, mem_cons_self, ?_, ?_, ?_⟩ <;> omega
      · obtain ⟨later, rfl⟩ : a.flits <+: fs :=
          prefix_of_prefix_length_le (prefix_append _ _) first (by omega)
        obtain ⟨mid, out, out', one, two, rfl⟩ := runMachine_append_some ran
        obtain ⟨final, outs', b, again, -, -, told⟩ := packet_run divides here none_sent no_flit_sent
        obtain ⟨rfl, rfl⟩ := Prod.mk.inj (Option.some.inj (one.symm.trans again))
        obtain ⟨size_zero, flits_zero⟩ := parts_run_sent a.isPacket nonempty one
        rw [filterMap_append, told] at announced
        obtain ⟨own, sizes', rfl, same, announced'⟩ := append_eq_map_iff.mp announced
        obtain rfl := map_injective_iff.mpr (fun _ _ => Int.ofNat.inj) same
        rw [Nat.max_eq_right less.le, Nat.min_eq_left less.le, List.sum_append, groups_sum exact_fit, ← length,
          length_append]
        obtain all | ⟨c, member, below, few, short⟩ := ih others
          ((prefix_append_right_inj _).mp first) size_zero flits_zero two announced'.symm
        · exact Or.inl (by omega)
        · exact Or.inr ⟨c, mem_cons_of_mem _ member, by omega, by omega, by omega⟩
    · omega

theorem Parts.tails_eq {msgSize width start : Nat} (parts : Parts msgSize width vc start fs) (nonempty : fs ≠ []) :
    fs.map (·.isTail) = endsWith false true fs.length := by
  induction fs generalizing start with
  | nil => exact absurd rfl nonempty
  | cons f rest ih =>
    by_cases last : rest = []
    · have tail := parts.isTail.mpr last
      subst last
      simp [endsWith, tail]
    · have early : f.isTail = false := by
        rw [← Bool.not_eq_true, parts.isTail]
        exact last
      obtain ⟨n, length⟩ := exists_eq_succ_of_ne_zero (length_pos_iff.mpr last).ne'
      rw [map_cons, ih parts.2 last, early, length_cons, length]
      rfl

def wideTails (target : Nat) (packets : List (BridgePacket cur vc)) : List Bool :=
  packets.flatMap fun a => endsWith false true (flitCount a.msgSize target)

theorem Becomes.tails (less : cur < target) {converted : List (BridgePacket target vc)}
    (all : List.Forall₂ BridgePacket.Becomes packets converted)
    (fit : ∀ a ∈ packets, ExactBetween cur target a.msgSize) :
    (converted.flatMap BridgePacket.flits).map (·.isTail) = wideTails target packets := by
  induction all with
  | nil => rfl
  | @cons a b packets converted becomes _ ih =>
    obtain ⟨here, others⟩ := forall_mem_cons.mp fit
    have exact_fit := here.deserializes less
    have length := b.isPacket.length
    have some_flit := flitCount_pos exact_fit.size (zero_lt_of_lt less)
    rw [becomes.msgSize, exact_fit.numFlits_wide, zero_add] at length
    have nonempty : b.flits ≠ [] := length_pos_iff.mp (by omega)
    rw [flatMap_cons, map_append, b.isPacket.tails_eq nonempty, ih others, length, wideTails, wideTails,
      flatMap_cons]

theorem run_tails (less : cur < target) (divides : cur ∣ target ∨ target ∣ cur)
    (fit : ∀ a ∈ packets, ExactBetween cur target a.msgSize) (first : fs <+: packets.flatMap BridgePacket.flits)
    (ran : runMachine (BridgeVc.handleFlit cur target) {} fs = some (v', outs)) :
    (outs.flatMap (·.1)).map Traffic.tail? <+: (wideTails target packets).map some := by
  obtain ⟨more, whole⟩ := first
  obtain ⟨final, all_outs, converted, all, scheduled, becomes, -⟩ := packets_run (v := {}) divides fit rfl rfl
  rw [← whole] at all
  obtain ⟨mid, early, late, one, -, rfl⟩ := runMachine_append_some all
  obtain ⟨-, rfl⟩ := Prod.mk.inj (Option.some.inj (ran.symm.trans one))
  have marks : ((converted.flatMap BridgePacket.flits).map Traffic.flit).map Traffic.tail? =
      (wideTails target packets).map some := by
    rw [← Becomes.tails less becomes fit, map_map, map_map]
    rfl
  rw [← marks, ← scheduled, flatMap_append, map_append]
  exact prefix_append _ _

theorem expand_wideTails (less : cur < target) (divides : cur ∣ target ∨ target ∣ cur)
    (fit : ∀ a ∈ packets, ExactBetween cur target a.msgSize) :
    expand false (groupSizes target packets) (wideTails target packets) =
      (packets.flatMap BridgePacket.flits).map (·.isTail) := by
  induction packets with
  | nil => rfl
  | cons a rest ih =>
    obtain ⟨here, others⟩ := forall_mem_cons.mp fit
    have nonempty := length_pos_iff.mp (BridgePacket.length_pos here)
    obtain ⟨-, r, rfl⟩ | ⟨wrong, -⟩ := here.dvd divides
    · have exact_fit := here.deserializes less
      have length := a.isPacket.length
      rw [exact_fit.numFlits_narrow, zero_add] at length
      have count := length_groups (cur * r) cur a.msgSize
      have some_flit := flitCount_pos exact_fit.size (zero_lt_of_lt less)
      have some_group : groups (cur * r) cur a.msgSize ≠ [] := by
        rw [← length_pos_iff, count]
        exact some_flit
      have own : expand false (groups (cur * r) cur a.msgSize) (endsWith false true _) = endsWith false true _ :=
        expand_endsWith some_group (groups_pos exact_fit)
      have same : (endsWith false true (flitCount a.msgSize (cur * r))).length =
          (groups (cur * r) cur a.msgSize).length := by
        rw [length_endsWith some_flit, count]
      rw [count, groups_sum exact_fit, ← length] at own
      rw [flatMap_cons, map_append, ← ih others, a.isPacket.tails_eq nonempty, ← own, groupSizes, wideTails,
        flatMap_cons, flatMap_cons, max_eq_right less.le, min_eq_left less.le,
        expand_concat same]
      simp only [groupSizes, wideTails, max_eq_right less.le, min_eq_left less.le]
    · omega

end Channel

theorem ChannelState.back_ordered {frees back : List Bool} {sent : List (Option Bool)} {cur target vc : Nat}
    {packets : List (BridgePacket cur vc)} {fs : List BridgeFlit} {sizes : List Nat} {s : VcPair}
    (state : ChannelState cur target sizes fs frees back sent s) (less : cur < target)
    (divides : cur ∣ target ∨ target ∣ cur) (fit : ∀ a ∈ packets, ExactBetween cur target a.msgSize)
    (first : fs <+: packets.flatMap BridgePacket.flits) (within : sizes <+: groupSizes target packets)
    (marks : frees.map some <+: sent) : back <+: fs.map (·.isTail) := by
  obtain ⟨outs, ran, announced, rfl⟩ := state.data
  obtain ⟨waiting, -, credit⟩ := state.credit
  rw [if_pos less] at credit
  have ordered : frees <+: wideTails target packets := by
    have both := marks.trans (run_tails less divides fit first ran)
    exact (prefix_map_iff_of_injective (Option.some_injective Bool)).mp both
  have told : sizes.sum ≤ fs.length := by
    obtain all | ⟨-, -, below, -⟩ := run_untold less divides fit first rfl rfl ran announced
    · exact all.le
    · exact below
  have count : back.length ≤ fs.length := by
    have split := congrArg List.sum (take_append_drop frees.length sizes)
    rw [List.sum_append] at split
    rw [credit.out, expand_length state.positive credit.behind]
    omega
  have whole : back <+: (packets.flatMap BridgePacket.flits).map (·.isTail) := by
    rw [credit.out, ← expand_wideTails less divides fit]
    exact expand_mono false within ordered
  exact prefix_of_prefix_length_le whole (first.map _) (by rw [length_map]; exact count)

/-! ### The sender, the bridges and the receiver -/

/-- A narrow link with its sender, the bridges at its end and the receiver. `packets` and `calls` record
the packets begun and the calls of the bridges. The link buffers of the bridges keep what was scheduled:
`arrived` flits have gone on to the receiver, and `returned` credits to the sender. -/
structure Segment (cur : Nat) where
  outVcState : Nat → OutVcState
  packets : (vc : Nat) → List (BridgePacket cur vc)
  toSend : Nat → List BridgeFlit
  link : List BridgeFlit
  calls : List (ConsumerClock × Traffic)
  bridges : BridgePair
  arrived : Nat
  inputBuffer : Nat → List BridgeFlit
  creditLink : List Credit
  returned : Nat

namespace Segment

def init (params : BridgeParams) (depth : Nat → Nat) : Segment params.curWidth where
  outVcState vc := { creditCount := depth vc, maxCreditCount := depth vc }
  packets _ := []
  toSend _ := []
  link := []
  calls := []
  bridges := BridgePair.init params
  arrived := 0
  inputBuffer _ := []
  creditLink := []
  returned := 0

variable {cur target : Nat}

/-- What can happen next. A packet begins on an idle channel, and takes a credit for every flit. A credit
with the free signal follows the tail flit, and makes the channel idle again. -/
inductive Step (Allowed : (vc : Nat) → BridgePacket cur vc → Prop) : Segment cur → Segment cur → Prop where
  | start {s : Segment cur} {vc : Nat} (a : BridgePacket cur vc) (time : Nat) (allowed : Allowed vc a)
      (idle : (s.outVcState vc).state = .idle) :
      Step Allowed s { s with
        outVcState := Function.update s.outVcState vc ((s.outVcState vc).setState .active time)
        packets := Function.update s.packets vc (s.packets vc ++ [a])
        toSend := Function.update s.toSend vc (s.toSend vc ++ a.flits) }
  | send {s : Segment cur} {vc : Nat} {f : BridgeFlit} {rest : List BridgeFlit}
      (next : s.toSend vc = f :: rest) (credit : (s.outVcState vc).hasCredit = true) :
      Step Allowed s { s with
        outVcState := Function.update s.outVcState vc (s.outVcState vc).decrementCredit
        toSend := Function.update s.toSend vc rest
        link := s.link ++ [f] }
  | convert {s : Segment cur} {clock : ConsumerClock} {f : BridgeFlit} {rest : List BridgeFlit}
      {bridges : BridgePair} (next : s.link = f :: rest)
      (handled : s.bridges.handle (clock, .flit f) = some bridges) :
      Step Allowed s { s with
        link := rest, calls := s.calls ++ [(clock, .flit f)], bridges := bridges }
  | arrive {s : Segment cur} {f : BridgeFlit} (next : s.bridges.data.linkBuffer[s.arrived]? = some (.flit f)) :
      Step Allowed s { s with
        arrived := s.arrived + 1
        inputBuffer := Function.update s.inputBuffer f.vc (s.inputBuffer f.vc ++ [f]) }
  | leave {s : Segment cur} {vc : Nat} {f : BridgeFlit} {rest : List BridgeFlit} (time : Nat)
      (next : s.inputBuffer vc = f :: rest) :
      Step Allowed s { s with
        inputBuffer := Function.update s.inputBuffer vc rest
        creditLink := s.creditLink ++ [{ vc := vc, isFreeSignal := f.isTail, time := time }] }
  | convertCredit {s : Segment cur} {clock : ConsumerClock} {c : Credit} {rest : List Credit}
      {bridges : BridgePair} (next : s.creditLink = c :: rest)
      (handled : s.bridges.handle (clock, .credit c) = some bridges) :
      Step Allowed s { s with
        creditLink := rest, calls := s.calls ++ [(clock, .credit c)], bridges := bridges }
  | receive {s : Segment cur} {c : Credit} (time : Nat)
      (next : s.bridges.credit.linkBuffer[s.returned]? = some (.credit c)) :
      Step Allowed s { s with
        returned := s.returned + 1
        outVcState := Function.update s.outVcState c.vc
          (if c.isFreeSignal then ((s.outVcState c.vc).incrementCredit).setState .idle time
          else (s.outVcState c.vc).incrementCredit) }

def Reachable (params : BridgeParams) (depth : Nat → Nat)
    (Allowed : (vc : Nat) → BridgePacket params.curWidth vc → Prop) : Segment params.curWidth → Prop :=
  Relation.ReflTransGen (Step Allowed) (init params depth)

def Absorbed (s : Segment cur) (vc : Nat) : Prop :=
  ∃ f, (flitsOn vc (s.calls.map (·.2))).getLast? = some f ∧ f.isTail = false ∧
    (s.bridges.data.vcs vc).flitsSent < (f.id + 1 : Int)

def CreditOnItsWay (s : Segment cur) (vc : Nat) : Prop :=
  (∃ c ∈ s.creditLink, c.vc = vc) ∨ ∃ t ∈ s.bridges.credit.linkBuffer.drop s.returned, t.vc = vc

/-- A flit is between the sender and the place from where the receiver returns a credit. -/
def FlitOnItsWay (s : Segment cur) (vc : Nat) : Prop :=
  (∃ f ∈ s.link, f.vc = vc) ∨ (∃ t ∈ s.bridges.data.linkBuffer.drop s.arrived, t.vc = vc) ∨
    s.inputBuffer vc ≠ []

end Segment

/-- What belongs to one channel: the state of the sender's side, the flits of its packets on their way,
the free signals of the credits on their way, and which of the wide flits are tails. -/
structure ChannelView (cur vc : Nat) where
  out : OutVcState
  packets : List (BridgePacket cur vc)
  toSend : List BridgeFlit
  onLink : List BridgeFlit
  handled : List BridgeFlit
  arrived : List (Option Bool)
  buffered : List Bool
  signals : List Bool
  frees : List Bool
  cameBack : List Bool

namespace ChannelView

variable {cur vc depth : Nat} {x : ChannelView cur vc}

structure Consistent (depth : Nat) (x : ChannelView cur vc) : Prop where
  flow : x.handled ++ (x.onLink ++ x.toSend) = x.packets.flatMap BridgePacket.flits
  tails : x.arrived = (x.frees ++ (x.signals ++ x.buffered)).map some
  credits : x.out.creditCount + (x.handled.length + x.onLink.length) = depth + x.cameBack.length
  idle : x.out.state = .idle →
    x.toSend = [] ∧ x.cameBack.length = (x.packets.flatMap BridgePacket.flits).length
  active : x.out.state ≠ .idle → ∃ earlier a, x.packets = earlier ++ [a] ∧
    (earlier.flatMap BridgePacket.flits).length ≤ x.cameBack.length

namespace Consistent

theorem start (ok : x.Consistent depth) (a : BridgePacket cur vc) (time : Nat) (idle : x.out.state = .idle) :
    Consistent depth { x with
      out := x.out.setState .active time, packets := x.packets ++ [a], toSend := x.toSend ++ a.flits } := by
  obtain ⟨-, all_back⟩ := ok.idle idle
  refine ⟨?_, ok.tails, ok.credits, ?_, fun _ => ⟨x.packets, a, rfl, all_back.ge⟩⟩
  · rw [flatMap_append, ← ok.flow, flatMap_singleton]
    simp only [append_assoc]
  · intro wrong
    cases wrong

theorem send (ok : x.Consistent depth) {f : BridgeFlit} {rest : List BridgeFlit} (next : x.toSend = f :: rest)
    (credit : x.out.hasCredit = true) :
    Consistent depth { x with out := x.out.decrementCredit, toSend := rest, onLink := x.onLink ++ [f] } := by
  have some_credit : 0 < x.out.creditCount := of_decide_eq_true credit
  have credits := ok.credits
  refine ⟨?_, ok.tails, ?_, fun idle => ?_, ok.active⟩
  · rw [← ok.flow, next]
    simp only [append_assoc, singleton_append]
  · simp only [OutVcState.decrementCredit, length_append, length_singleton]
    omega
  · have none_left := (ok.idle idle).1
    rw [next] at none_left
    cases none_left

theorem convert (ok : x.Consistent depth) {f : BridgeFlit} {rest : List BridgeFlit} (next : x.onLink = f :: rest) :
    Consistent depth { x with onLink := rest, handled := x.handled ++ [f] } := by
  have credits := ok.credits
  refine ⟨?_, ok.tails, ?_, ok.idle, ok.active⟩
  · rw [← ok.flow, next]
    simp only [append_assoc, cons_append, nil_append]
  · rw [next, length_cons] at credits
    simp only [length_append, length_singleton]
    omega

theorem arrive (ok : x.Consistent depth) (tail : Bool) :
    Consistent depth { x with arrived := x.arrived ++ [some tail], buffered := x.buffered ++ [tail] } := by
  refine ⟨ok.flow, ?_, ok.credits, ok.idle, ok.active⟩
  rw [ok.tails, ← append_assoc, ← append_assoc, ← append_assoc]
  simp only [map_append, map_cons, map_nil]

theorem leave (ok : x.Consistent depth) {tail : Bool} {rest : List Bool} (next : x.buffered = tail :: rest) :
    Consistent depth { x with buffered := rest, signals := x.signals ++ [tail] } := by
  refine ⟨ok.flow, ?_, ok.credits, ok.idle, ok.active⟩
  rw [ok.tails, next, append_assoc x.signals]
  rfl

theorem convertCredit (ok : x.Consistent depth) {free : Bool} {rest : List Bool} (next : x.signals = free :: rest) :
    Consistent depth { x with signals := rest, frees := x.frees ++ [free] } := by
  refine ⟨ok.flow, ?_, ok.credits, ok.idle, ok.active⟩
  rw [ok.tails, next, append_assoc x.frees]
  rfl

theorem receive (ok : x.Consistent depth) {free : Bool} (time : Nat) (nonempty : ∀ a ∈ x.packets, a.flits ≠ [])
    (order : x.cameBack ++ [free] <+: x.handled.map (·.isTail)) :
    Consistent depth { x with
      cameBack := x.cameBack ++ [free]
      out := if free then x.out.incrementCredit.setState .idle time else x.out.incrementCredit } := by
  have credits := ok.credits
  have flow := ok.flow
  have shorter := order.length_le
  rw [length_append, length_singleton, length_map] at shorter
  have total := congrArg List.length flow
  rw [length_append, length_append] at total
  have busy : x.out.state ≠ .idle := by
    intro idle
    have all_back := (ok.idle idle).2
    omega
  obtain ⟨earlier, a, split, through⟩ := ok.active busy
  have back_count : depth + (x.cameBack ++ [free]).length = depth + x.cameBack.length + 1 := by
    rw [length_append, length_singleton]
    omega
  cases free with
  | false =>
    refine ⟨flow, ok.tails, ?_, fun idle => absurd idle busy, fun _ => ⟨earlier, a, split, ?_⟩⟩
    · simp only [Bool.false_eq_true, if_false, OutVcState.incrementCredit, back_count]
      omega
    · rw [length_append]
      omega
  | true =>
    have last : x.cameBack.length + 1 = (x.packets.flatMap BridgePacket.flits).length := by
      have some_flit : a.flits ≠ [] := nonempty a (by rw [split]; simp)
      have marks : (x.packets.flatMap BridgePacket.flits).map (·.isTail) =
          (earlier.flatMap BridgePacket.flits).map (·.isTail) ++ endsWith false true a.flits.length := by
        rw [split, flatMap_append, flatMap_singleton, map_append, a.isPacket.tails_eq some_flit]
      have whole : x.cameBack ++ [true] <+: (x.packets.flatMap BridgePacket.flits).map (·.isTail) := by
        rw [← flow, map_append]
        exact order.trans (prefix_append _ _)
      obtain ⟨more, same⟩ := whole
      have found : ((x.packets.flatMap BridgePacket.flits).map (·.isTail))[x.cameBack.length]? = some true := by
        rw [← same, append_assoc]
        simp
      rw [marks, List.getElem?_append_right (by rw [length_map]; exact through), length_map] at found
      have positive := length_pos_iff.mpr some_flit
      obtain position | empty := endsWith_eq_last (by decide) found
      · rw [split, flatMap_append, flatMap_singleton, length_append]
        omega
      · omega
    have nothing : x.toSend.length = 0 := by omega
    refine ⟨flow, ok.tails, ?_, fun _ => ⟨length_eq_zero_iff.mp nothing, ?_⟩, fun wrong => absurd rfl wrong⟩
    · simp only [if_true, OutVcState.incrementCredit, OutVcState.setState, back_count]
      omega
    · rw [length_append]
      exact last

end Consistent

end ChannelView

namespace Segment

variable {cur target : Nat}

/-! ### What every reachable state keeps -/

def view (s : Segment cur) (vc : Nat) : ChannelView cur vc where
  out := s.outVcState vc
  packets := s.packets vc
  toSend := s.toSend vc
  onLink := s.link.filter fun f => f.vc = vc
  handled := flitsOn vc (s.calls.map (·.2))
  arrived := tailsOn vc (s.bridges.data.linkBuffer.take s.arrived)
  buffered := (s.inputBuffer vc).map (·.isTail)
  signals := (s.creditLink.filter fun c => c.vc = vc).map (·.isFreeSignal)
  frees := freesOn vc (s.calls.map (·.2))
  cameBack := freesOn vc (s.bridges.credit.linkBuffer.take s.returned)

structure Invariant (target : Nat) (depth : Nat → Nat) (Allowed : (vc : Nat) → BridgePacket cur vc → Prop)
    (s : Segment cur) : Prop where
  allowed : ∀ vc, ∀ a ∈ s.packets vc, Allowed vc a
  kept : BridgePair.Kept cur target s.packets s.calls s.bridges
  arrived_le : s.arrived ≤ s.bridges.data.linkBuffer.length
  returned_le : s.returned ≤ s.bridges.credit.linkBuffer.length
  channel : ∀ vc, (s.view vc).Consistent (depth vc)

theorem take_of_longer {α : Type*} {first whole : List α} {n : Nat} (longer : first <+: whole)
    (inside : n ≤ first.length) : whole.take n = first.take n := by
  obtain ⟨more, rfl⟩ := longer
  exact take_append_of_le_length inside

section Steps

variable {depth : Nat → Nat} {Allowed : (vc : Nat) → BridgePacket cur vc → Prop} {s s' : Segment cur}

theorem Invariant.back_ordered (inv : Invariant target depth Allowed s) (less : cur < target)
    (divides : cur ∣ target ∨ target ∣ cur)
    (fit : ∀ vc a, Allowed vc a → ExactBetween cur target a.msgSize) (vc : Nat) :
    freesOn vc s.bridges.credit.linkBuffer <+: (s.view vc).handled.map (·.isTail) := by
  obtain ⟨sizes, state, within⟩ := inv.kept.channel vc
  have ok := inv.channel vc
  have first : (s.view vc).handled <+: (s.packets vc).flatMap BridgePacket.flits := by
    rw [show s.packets vc = (s.view vc).packets from rfl, ← ok.flow]
    exact prefix_append _ _
  refine state.back_ordered less divides (fun a member => fit vc a (inv.allowed vc a member)) first within ?_
  have arrived : (s.view vc).arrived <+: tailsOn vc s.bridges.data.linkBuffer :=
    (( take_prefix _ _).filter _).map _
  refine List.IsPrefix.trans ?_ arrived
  rw [ok.tails, map_append]
  exact prefix_append _ _

variable {bridges : BridgePair} {clock : ConsumerClock}

theorem Invariant.handle (inv : Invariant target depth Allowed s)
    {t : Traffic} {link : List BridgeFlit} {creditLink : List Credit} (differ : cur ≠ target)
    (divides : cur ∣ target ∨ target ∣ cur) (fit : ∀ vc a, Allowed vc a → ExactBetween cur target a.msgSize)
    (handled : s.bridges.handle (clock, t) = some bridges) (owed : t.isFlit = false →
      (freesOn t.vc (s.calls.map (·.2))).length < (tailsOn t.vc s.bridges.data.linkBuffer).length)
    (channel : ∀ vc, ChannelView.Consistent (depth vc) { s.view vc with
      onLink := link.filter fun f => f.vc = vc
      signals := (creditLink.filter fun c => c.vc = vc).map (·.isFreeSignal)
      handled := flitsOn vc ((s.calls ++ [(clock, t)]).map (·.2))
      frees := freesOn vc ((s.calls ++ [(clock, t)]).map (·.2)) }) :
    Invariant target depth Allowed { s with
      link := link, creditLink := creditLink, calls := s.calls ++ [(clock, t)], bridges := bridges } := by
  have stream : ∀ vc, flitsOn vc ((s.calls ++ [(clock, t)]).map (·.2)) <+:
      (s.packets vc).flatMap BridgePacket.flits := by
    intro vc
    have flow := (channel vc).flow
    exact ⟨_, flow⟩
  obtain ⟨p', again, data_longer, credit_longer, kept⟩ := inv.kept.step differ divides
    (fun vc a member => fit vc a (inv.allowed vc a member)) stream owed
  obtain rfl : p' = bridges := Option.some.inj (again.symm.trans handled)
  refine ⟨inv.allowed, kept, inv.arrived_le.trans data_longer.length_le,
    inv.returned_le.trans credit_longer.length_le, fun vc => ?_⟩
  have same_arrived := take_of_longer data_longer inv.arrived_le
  have same_back := take_of_longer credit_longer inv.returned_le
  have ok := channel vc
  rw [view] at ok ⊢
  rw [same_arrived, same_back]
  exact ok

variable {vc : Nat}

theorem Invariant.start (inv : Invariant target depth Allowed s) (a : BridgePacket cur vc) (time : Nat)
    (allowed : Allowed vc a) (idle : (s.outVcState vc).state = .idle) :
    Invariant target depth Allowed { s with
      outVcState := update s.outVcState vc ((s.outVcState vc).setState .active time)
      packets := update s.packets vc (s.packets vc ++ [a])
      toSend := update s.toSend vc (s.toSend vc ++ a.flits) } := by
  refine ⟨fun k => ?_, ⟨inv.kept.converts, fun k => ?_⟩, inv.arrived_le, inv.returned_le, fun k => ?_⟩
  · by_cases here : k = vc
    · subst here
      simp only [update_self, forall_mem_append, forall_mem_singleton]
      exact ⟨inv.allowed k, allowed⟩
    · simp only [update_of_ne here]
      exact inv.allowed k
  · obtain ⟨sizes, state, within⟩ := inv.kept.channel k
    refine ⟨sizes, state, ?_⟩
    by_cases here : k = vc
    · subst here
      simp only [update_self, groupSizes, flatMap_append]
      exact within.trans (prefix_append _ _)
    · simp only [update_of_ne here]
      exact within
  · by_cases here : k = vc
    · subst here
      have next := (inv.channel k).start a time idle
      simp only [view, update_self] at next ⊢
      exact next
    · have same := inv.channel k
      simp only [view, update_of_ne here] at same ⊢
      exact same

variable {f : BridgeFlit} {rest : List BridgeFlit}

theorem Invariant.send (inv : Invariant target depth Allowed s) (next : s.toSend vc = f :: rest)
    (credit : (s.outVcState vc).hasCredit = true) :
    Invariant target depth Allowed { s with
      outVcState := update s.outVcState vc (s.outVcState vc).decrementCredit
      toSend := update s.toSend vc rest
      link := s.link ++ [f] } := by
  have own : f.vc = vc := by
    have flow := (inv.channel vc).flow
    have member : f ∈ (s.packets vc).flatMap BridgePacket.flits := by
      rw [show s.packets vc = (s.view vc).packets from rfl, ← flow]
      simp [view, next]
    obtain ⟨a, -, inside⟩ := mem_flatMap.mp member
    exact a.isPacket.vc f inside
  refine ⟨inv.allowed, inv.kept, inv.arrived_le, inv.returned_le, fun k => ?_⟩
  by_cases here : k = vc
  · subst here
    have after := (inv.channel k).send next credit
    simp only [view, update_self, filter_append, filter_cons, own, decide_true, if_true,
      filter_nil] at after ⊢
    exact after
  · have same := inv.channel k
    have other : ¬ f.vc = k := fun equal => here (equal.symm.trans own)
    simp only [view, update_of_ne here, filter_append, filter_cons, other, decide_false,
      Bool.false_eq_true, if_false, filter_nil, append_nil] at same ⊢
    exact same

theorem Invariant.convert (inv : Invariant target depth Allowed s) (differ : cur ≠ target)
    (divides : cur ∣ target ∨ target ∣ cur)
    (fit : ∀ vc a, Allowed vc a → ExactBetween cur target a.msgSize) (next : s.link = f :: rest)
    (handled : s.bridges.handle (clock, .flit f) = some bridges) :
    Invariant target depth Allowed { s with
      link := rest, calls := s.calls ++ [(clock, .flit f)], bridges := bridges } := by
  refine inv.handle differ divides fit handled (fun is_credit => by cases is_credit) fun k => ?_
  have ok := inv.channel k
  have handled_eq := flitsOn_snoc s.calls clock (.flit f) k
  have frees_eq := freesOn_snoc s.calls clock (.flit f) k
  by_cases here : k = (Traffic.flit f).vc
  · subst here
    have front : (s.view f.vc).onLink = f :: rest.filter fun g => g.vc = f.vc := by
      simp only [view, next, filter_cons, decide_true, if_true]
    rw [if_pos rfl] at handled_eq frees_eq
    rw [handled_eq, frees_eq]
    simp only [Traffic.free?, Option.toList, append_nil]
    exact ok.convert front
  · have other : ¬ f.vc = k := fun equal => here equal.symm
    have front : (s.view k).onLink = rest.filter fun g => g.vc = k := by
      simp only [view, next, filter_cons, other, decide_false, Bool.false_eq_true, if_false]
    rw [if_neg here, append_nil] at handled_eq frees_eq
    rw [handled_eq, frees_eq, ← front]
    exact ok

theorem Invariant.arrive (inv : Invariant target depth Allowed s)
    (next : s.bridges.data.linkBuffer[s.arrived]? = some (.flit f)) :
    Invariant target depth Allowed { s with
      arrived := s.arrived + 1
      inputBuffer := update s.inputBuffer f.vc (s.inputBuffer f.vc ++ [f]) } := by
  obtain ⟨inside, found⟩ := List.getElem?_eq_some_iff.mp next
  have longer : s.bridges.data.linkBuffer.take (s.arrived + 1) =
      s.bridges.data.linkBuffer.take s.arrived ++ [.flit f] := by
    rw [take_add_one, next]
    rfl
  refine ⟨inv.allowed, inv.kept, inside, inv.returned_le, fun k => ?_⟩
  have ok := inv.channel k
  by_cases here : k = f.vc
  · subst here
    have after := ok.arrive f.isTail
    have own : tailsOn f.vc [Traffic.flit f] = [some f.isTail] := by
      simp [tailsOn, Traffic.vc, Traffic.tail?]
    simp only [view, longer, tailsOn_append, own, update_self, map_append, map_cons,
      map_nil] at after ⊢
    exact after
  · have none_here : tailsOn k [Traffic.flit f] = [] := by
      have other : ¬ f.vc = k := fun equal => here equal.symm
      simp [tailsOn, Traffic.vc, other]
    simp only [view, longer, tailsOn_append, none_here, append_nil, update_of_ne here] at ok ⊢
    exact ok

theorem Invariant.leave (inv : Invariant target depth Allowed s) (time : Nat) (next : s.inputBuffer vc = f :: rest) :
    Invariant target depth Allowed { s with
      inputBuffer := update s.inputBuffer vc rest
      creditLink := s.creditLink ++ [{ vc := vc, isFreeSignal := f.isTail, time := time }] } := by
  refine ⟨inv.allowed, inv.kept, inv.arrived_le, inv.returned_le, fun k => ?_⟩
  have ok := inv.channel k
  by_cases here : k = vc
  · subst here
    have front : (s.view k).buffered = f.isTail :: rest.map (·.isTail) := by
      simp only [view, next, map_cons]
    have after := ok.leave front
    simp only [view, update_self, filter_append, filter_cons, decide_true, if_true, filter_nil,
      map_append, map_cons, map_nil] at after ⊢
    exact after
  · have other : ¬ vc = k := fun equal => here equal.symm
    simp only [view, update_of_ne here, filter_append, filter_cons, other, decide_false,
      Bool.false_eq_true, if_false, filter_nil, append_nil] at ok ⊢
    exact ok

theorem Invariant.convertCredit (inv : Invariant target depth Allowed s) {c : Credit}
    {rest : List Credit} (differ : cur ≠ target) (divides : cur ∣ target ∨ target ∣ cur)
    (fit : ∀ vc a, Allowed vc a → ExactBetween cur target a.msgSize) (next : s.creditLink = c :: rest)
    (handled : s.bridges.handle (clock, .credit c) = some bridges) :
    Invariant target depth Allowed { s with
      creditLink := rest, calls := s.calls ++ [(clock, .credit c)], bridges := bridges } := by
  have front : (s.view c.vc).signals =
      c.isFreeSignal :: (rest.filter fun d => d.vc = c.vc).map (·.isFreeSignal) := by
    simp only [view, next, filter_cons, decide_true, if_true, map_cons]
  have owed : (freesOn c.vc (s.calls.map (·.2))).length < (tailsOn c.vc s.bridges.data.linkBuffer).length := by
    have arrived : (s.view c.vc).arrived <+: tailsOn c.vc s.bridges.data.linkBuffer :=
      (( take_prefix _ _).filter _).map _
    have count := arrived.length_le
    rw [(inv.channel c.vc).tails, length_map, length_append, length_append, front,
      length_cons] at count
    have same : (s.view c.vc).frees = freesOn c.vc (s.calls.map (·.2)) := rfl
    rw [same] at count
    omega
  refine inv.handle differ divides fit handled (fun _ => owed) fun k => ?_
  have ok := inv.channel k
  have handled_eq := flitsOn_snoc s.calls clock (.credit c) k
  have frees_eq := freesOn_snoc s.calls clock (.credit c) k
  by_cases here : k = (Traffic.credit c).vc
  · subst here
    rw [if_pos rfl] at handled_eq frees_eq
    rw [handled_eq, frees_eq]
    simp only [Traffic.flit?, Option.toList, append_nil]
    exact ok.convertCredit front
  · have other : ¬ c.vc = k := fun equal => here equal.symm
    have same : (s.view k).signals = (rest.filter fun d => d.vc = k).map (·.isFreeSignal) := by
      simp only [view, next, filter_cons, other, decide_false, Bool.false_eq_true, if_false]
    rw [if_neg here, append_nil] at handled_eq frees_eq
    rw [handled_eq, frees_eq, ← same]
    exact ok

theorem Invariant.receive (inv : Invariant target depth Allowed s) {c : Credit} (time : Nat) (less : cur < target)
    (divides : cur ∣ target ∨ target ∣ cur) (fit : ∀ vc a, Allowed vc a → ExactBetween cur target a.msgSize)
    (next : s.bridges.credit.linkBuffer[s.returned]? = some (.credit c)) :
    Invariant target depth Allowed { s with
      returned := s.returned + 1
      outVcState := update s.outVcState c.vc
        (if c.isFreeSignal then ((s.outVcState c.vc).incrementCredit).setState .idle time
        else (s.outVcState c.vc).incrementCredit) } := by
  obtain ⟨inside, found⟩ := List.getElem?_eq_some_iff.mp next
  have longer : s.bridges.credit.linkBuffer.take (s.returned + 1) =
      s.bridges.credit.linkBuffer.take s.returned ++ [.credit c] := by
    rw [take_add_one, next]
    rfl
  refine ⟨inv.allowed, inv.kept, inv.arrived_le, inside, fun k => ?_⟩
  have ok := inv.channel k
  by_cases here : k = c.vc
  · subst here
    have own : freesOn c.vc [Traffic.credit c] = [c.isFreeSignal] := by
      simp [freesOn, Traffic.vc, Traffic.free?]
    have order : (s.view c.vc).cameBack ++ [c.isFreeSignal] <+: (s.view c.vc).handled.map (·.isTail) := by
      refine List.IsPrefix.trans ?_ (inv.back_ordered less divides fit c.vc)
      have part : freesOn c.vc (s.bridges.credit.linkBuffer.take (s.returned + 1)) <+:
          freesOn c.vc s.bridges.credit.linkBuffer := (( take_prefix _ _).filter _).filterMap _
      rw [longer, freesOn_append, own] at part
      exact part
    have nonempty : ∀ a ∈ (s.view c.vc).packets, a.flits ≠ [] := fun a member =>
      length_pos_iff.mp (BridgePacket.length_pos (fit c.vc a (inv.allowed c.vc a member)))
    have after := ok.receive time nonempty order
    simp only [view, longer, freesOn_append, own, update_self] at after ⊢
    exact after
  · have none_here : freesOn k [Traffic.credit c] = [] := by
      have other : ¬ c.vc = k := fun equal => here equal.symm
      simp [freesOn, Traffic.vc, other]
    simp only [view, longer, freesOn_append, none_here, append_nil, update_of_ne here] at ok ⊢
    exact ok

theorem Invariant.step (inv : Invariant target depth Allowed s) (less : cur < target)
    (divides : cur ∣ target ∨ target ∣ cur) (fit : ∀ vc a, Allowed vc a → ExactBetween cur target a.msgSize)
    (stepped : Step Allowed s s') : Invariant target depth Allowed s' := by
  cases stepped with
  | start a time allowed idle => exact inv.start a time allowed idle
  | send next credit => exact inv.send next credit
  | convert next handled => exact inv.convert less.ne divides fit next handled
  | arrive next => exact inv.arrive next
  | leave time next => exact inv.leave time next
  | convertCredit next handled => exact inv.convertCredit less.ne divides fit next handled
  | receive time next => exact inv.receive time less divides fit next

end Steps

theorem Reachable.invariant {params : BridgeParams} {depth : Nat → Nat}
    {Allowed : (vc : Nat) → BridgePacket params.curWidth vc → Prop} {s : Segment params.curWidth}
    (reached : Reachable params depth Allowed s) (less : params.curWidth < params.targetWidth)
    (divides : params.curWidth ∣ params.targetWidth)
    (fit : ∀ vc a, Allowed vc a → ExactBetween params.curWidth params.targetWidth a.msgSize) :
    Invariant params.targetWidth depth Allowed s := by
  induction reached with
  | refl =>
    refine ⟨by simp [init], ⟨BridgePair.init_converts params, fun vc => ⟨[], ?_, nil_prefix⟩⟩, le_refl 0,
      le_refl 0, fun vc => ⟨rfl, rfl, rfl, fun _ => ⟨rfl, rfl⟩, fun busy => absurd rfl busy⟩⟩
    exact ChannelState.start _ _
  | tail _ stepped inv => exact inv.step less (Or.inl divides) fit stepped

end Segment

section Starvation

variable {cur vc depth : Nat} {x : ChannelView cur vc}

theorem last_isTail {packets : List (BridgePacket cur vc)} (nonempty : ∀ a ∈ packets, a.flits ≠ []) {f : BridgeFlit}
    (last : (packets.flatMap BridgePacket.flits).getLast? = some f) : f.isTail = true := by
  induction packets using List.reverseRecOn with
  | nil => cases last
  | append_singleton earlier a _ =>
    have some_flit := nonempty a (by simp)
    rw [flatMap_append, flatMap_singleton, List.getLast?_append_of_ne_nil _ some_flit] at last
    have marks := congrArg List.getLast? (a.isPacket.tails_eq some_flit)
    rw [List.getLast?_map, last, endsWith, List.getLast?_concat] at marks
    exact Option.some.inj marks

theorem ChannelView.Consistent.hasCredit (ok : x.Consistent depth) (nonempty : ∀ a ∈ x.packets, a.flits ≠ [])
    (short : ∀ a ∈ x.packets, a.flits.length = 1 ∨ a.flits.length < depth)
    (back : x.cameBack.length ≤ x.handled.length) {f : BridgeFlit} (last : x.handled.getLast? = some f)
    (incomplete : f.isTail = false) : x.out.hasCredit = true := by
  have credits := ok.credits
  have first : x.handled <+: x.packets.flatMap BridgePacket.flits := ⟨_, ok.flow⟩
  have total := congrArg List.length ok.flow
  rw [length_append, length_append] at total
  -- the flits handled are not those of whole packets
  have cut : ∀ done : List (BridgePacket cur vc), (∀ a ∈ done, a ∈ x.packets) →
      x.handled ≠ done.flatMap BridgePacket.flits := by
    intro done among same
    rw [same] at last
    have tail := last_isTail (fun a member => nonempty a (among a member)) last
    rw [incomplete] at tail
    cases tail
  have not_all : x.handled.length < (x.packets.flatMap BridgePacket.flits).length := by
    refine lt_of_le_of_ne first.length_le fun equal => ?_
    exact cut x.packets (fun _ member => member) (first.eq_of_length equal)
  by_cases idle : x.out.state = .idle
  · have all_back := (ok.idle idle).2
    omega
  · obtain ⟨earlier, a, split, through⟩ := ok.active idle
    have length : (x.packets.flatMap BridgePacket.flits).length =
        (earlier.flatMap BridgePacket.flits).length + a.flits.length := by
      rw [split, flatMap_append, flatMap_singleton, length_append]
    obtain single | room := short a (by rw [split]; simp)
    · have whole : x.handled = earlier.flatMap BridgePacket.flits := by
        have part : earlier.flatMap BridgePacket.flits <+: x.packets.flatMap BridgePacket.flits := by
          rw [split, flatMap_append]
          exact prefix_append _ _
        refine (prefix_of_prefix_length_le first part ?_).eq_of_length ?_ <;> omega
      exact absurd whole (cut earlier fun b member => by rw [split]; exact mem_append_left _ member)
    · apply decide_eq_true
      omega

end Starvation

namespace Segment

variable {cur target : Nat} {depth : Nat → Nat} {Allowed : (vc : Nat) → BridgePacket cur vc → Prop}
  {s : Segment cur}

theorem Invariant.back_le (inv : Invariant target depth Allowed s) (less : cur < target)
    (divides : cur ∣ target ∨ target ∣ cur) (fit : ∀ vc a, Allowed vc a → ExactBetween cur target a.msgSize)
    (vc : Nat) : (s.view vc).cameBack.length ≤ (s.view vc).handled.length := by
  have part : (s.view vc).cameBack <+: freesOn vc s.bridges.credit.linkBuffer :=
    (( take_prefix _ _).filter _).filterMap _
  have bound := (part.trans (inv.back_ordered less divides fit vc)).length_le
  rwa [length_map] at bound

theorem Invariant.all_absorbed (inv : Invariant target depth Allowed s) (less : cur < target) {vc : Nat}
    (no_credit : (s.outVcState vc).hasCredit = false) (no_way : ¬ s.CreditOnItsWay vc)
    (no_flit : ¬ s.FlitOnItsWay vc) :
    ∃ (sizes : List Nat) (outs : List (List Traffic × Option Int)),
      runMachine (BridgeVc.handleFlit cur target) {} (s.view vc).handled =
        some (s.bridges.data.vcs vc, outs) ∧
      outs.filterMap (·.2) = sizes.map Int.ofNat ∧ (s.view vc).handled.length = depth vc + sizes.sum := by
  obtain ⟨sizes, state, -⟩ := inv.kept.channel vc
  have ok := inv.channel vc
  obtain ⟨outs, ran, announced, -⟩ := state.data
  refine ⟨sizes, outs, ran, announced, ?_⟩
  have sent_eq := state.sent_eq
  obtain ⟨waiting, -, credit⟩ := state.credit
  rw [if_pos less] at sent_eq credit
  have zero : (s.view vc).out.creditCount = 0 := Nat.eq_zero_of_not_pos (of_decide_eq_false no_credit)
  have link : (s.view vc).onLink = [] :=
    filter_eq_nil_iff.mpr fun f member => by simpa using fun own => no_flit (Or.inl ⟨f, member, own⟩)
  have signals : (s.view vc).signals = [] := by
    refine map_eq_nil_iff.mpr (filter_eq_nil_iff.mpr fun c member => ?_)
    simpa using fun own => no_way (Or.inl ⟨c, member, own⟩)
  have buffered : (s.view vc).buffered = [] := by
    refine map_eq_nil_iff.mpr ?_
    by_contra full
    exact no_flit (Or.inr (Or.inr full))
  have all_arrived : (s.view vc).arrived = tailsOn vc s.bridges.data.linkBuffer := by
    have rest : tailsOn vc (s.bridges.data.linkBuffer.drop s.arrived) = [] := by
      refine map_eq_nil_iff.mpr (filter_eq_nil_iff.mpr fun t member => ?_)
      simpa using fun own => no_flit (Or.inr (Or.inl ⟨t, member, own⟩))
    have whole := tailsOn_append vc (s.bridges.data.linkBuffer.take s.arrived)
      (s.bridges.data.linkBuffer.drop s.arrived)
    rw [take_append_drop, rest, append_nil] at whole
    exact whole.symm
  have all_back : (s.view vc).cameBack = freesOn vc s.bridges.credit.linkBuffer := by
    have rest : freesOn vc (s.bridges.credit.linkBuffer.drop s.returned) = [] := by
      rw [freesOn, filter_eq_nil_iff.mpr fun t member => by
        simpa using fun own => no_way (Or.inr ⟨t, member, own⟩)]
      rfl
    have whole := freesOn_append vc (s.bridges.credit.linkBuffer.take s.returned)
      (s.bridges.credit.linkBuffer.drop s.returned)
    rw [take_append_drop, rest, append_nil] at whole
    exact whole.symm
  have credits := ok.credits
  have tails := congrArg List.length ok.tails
  rw [all_arrived, signals, buffered, length_map, append_nil, append_nil, sent_eq] at tails
  have taken : sizes.take (freesOn vc (s.calls.map (·.2))).length = sizes :=
    take_of_length_le tails.le
  rw [zero, link, all_back, credit.out, expand_length state.positive credit.behind, taken] at credits
  simpa using credits

/-- A deserialiser holds flits back and the sender still has a credit or gets one, if packets are shorter
than the buffers or have one flit. If the buffers reach for a wide flit or for the packet, then at least
something is on its way that leads to a credit. -/
theorem absorbed_has_credit (params : BridgeParams) (less : params.curWidth < params.targetWidth)
    (divides : params.curWidth ∣ params.targetWidth) (depth : Nat → Nat) (accepted : ∀ vc, 1 ≤ depth vc) :
    (∀ s, Reachable params depth (fun vc a => ExactWidths params.curWidth params.targetWidth a.msgSize ∧
        (a.flits.length = 1 ∨ a.flits.length < depth vc)) s →
      ∀ vc, s.Absorbed vc → (s.outVcState vc).hasCredit = true ∨ s.CreditOnItsWay vc) ∧
    ∀ s, Reachable params depth (fun vc a => ExactWidths params.curWidth params.targetWidth a.msgSize ∧
        (params.targetWidth / params.curWidth ≤ depth vc ∨ a.flits.length ≤ depth vc)) s →
      ∀ vc, s.Absorbed vc →
        (s.outVcState vc).hasCredit = true ∨ s.CreditOnItsWay vc ∨ s.FlitOnItsWay vc := by
  have between : ∀ m, ExactWidths params.curWidth params.targetWidth m →
      ExactBetween params.curWidth params.targetWidth m := by
    intro m fit
    rw [ExactBetween, min_eq_left less.le, max_eq_right less.le]
    exact fit
  constructor
  · rintro s reached vc ⟨f, last, incomplete, -⟩
    have inv := reached.invariant less divides fun vc a allowed => between _ allowed.1
    have nonempty : ∀ a ∈ (s.view vc).packets, a.flits ≠ [] := fun a member =>
      length_pos_iff.mp (BridgePacket.length_pos (between _ (inv.allowed vc a member).1))
    have back := inv.back_le less (Or.inl divides) (fun vc a allowed => between _ allowed.1) vc
    exact Or.inl ((inv.channel vc).hasCredit nonempty (fun a member => (inv.allowed vc a member).2) back last incomplete)
  · intro s reached vc _
    have inv := reached.invariant less divides fun vc a allowed => between _ allowed.1
    by_contra starved
    rw [not_or, not_or, Bool.not_eq_true] at starved
    obtain ⟨no_credit, no_way, no_flit⟩ := starved
    obtain ⟨sizes, outs, ran, announced, count⟩ := inv.all_absorbed less no_credit no_way no_flit
    have first : (s.view vc).handled <+: (s.packets vc).flatMap BridgePacket.flits := ⟨_, (inv.channel vc).flow⟩
    have some_credit := accepted vc
    obtain all | ⟨a, member, below, few, short⟩ := run_untold less (Or.inl divides)
      (fun a member => between _ (inv.allowed vc a member).1) first rfl rfl ran announced
    · omega
    · obtain wide | whole := (inv.allowed vc a member).2 <;> omega

theorem first_flit_absorbed (depth : Nat → Nat) (some_credit : 0 < depth 0)
    (Allowed : (vc : Nat) → BridgePacket 4 vc → Prop) (allowed : Allowed 0 detouredPacket) :
    ∃ s, Reachable (deserializer 8 4) depth Allowed s ∧ s.Absorbed 0 ∧
      (s.outVcState 0).creditCount = depth 0 - 1 ∧ ¬ s.CreditOnItsWay 0 ∧ ¬ s.FlitOnItsWay 0 := by
  have call : ((BridgePair.init (deserializer 8 4)).handle
      (everyTick, .flit (cutFlit 8 4 0 { sTag := 1, interRoute := some 5 } 0))).map
        (fun p => ((p.data.vcs 0).flitsSent, p.data.linkBuffer, p.credit.linkBuffer)) = some (0, [], []) := by
    decide +kernel
  obtain ⟨bridges, handled, seen⟩ := Option.map_eq_some_iff.mp call
  obtain ⟨none_sent, rest⟩ := Prod.mk.inj seen
  obtain ⟨no_flit, no_credit⟩ := Prod.mk.inj rest
  have start : Reachable (deserializer 8 4) depth Allowed (init (deserializer 8 4) depth) :=
    Relation.ReflTransGen.refl
  have begun := start.tail (Step.start detouredPacket 0 allowed rfl)
  have sent := begun.tail (@Step.send _ _ _ 0 (cutFlit 8 4 0 { sTag := 1, interRoute := some 5 } 0) _ rfl
    (decide_eq_true some_credit))
  have converted := sent.tail (Step.convert rfl handled)
  refine ⟨_, converted, ⟨_, rfl, by decide +kernel, ?_⟩, rfl, ?_, ?_⟩
  · show (bridges.data.vcs 0).flitsSent < _
    rw [none_sent]
    decide
  · rintro (⟨c, member, -⟩ | ⟨t, member, -⟩)
    · cases member
    · rw [no_credit] at member
      cases member
  · rintro (⟨f, member, -⟩ | ⟨t, member, -⟩ | full)
    · cases member
    · rw [no_flit] at member
      cases member
    · exact full rfl

theorem absorbed_has_credit_three :
    ∃ s : Segment 4, s.Absorbed 0 ∧ ((s.outVcState 0).hasCredit = true ∨ s.CreditOnItsWay 0) := by
  have fit : ExactWidths 4 8 detouredPacket.msgSize := ⟨by decide, by decide, by decide, by decide, by decide⟩
  obtain ⟨s, reached, absorbed, -⟩ := first_flit_absorbed (fun _ => 3) (by decide)
    (fun _ a => ExactWidths 4 8 a.msgSize ∧ (a.flits.length = 1 ∨ a.flits.length < 3)) ⟨fit, Or.inr (by decide)⟩
  exact ⟨s, absorbed,
    (absorbed_has_credit (deserializer 8 4) (by decide) (by decide) (fun _ => 3) fun _ => by decide).1 s reached 0 absorbed⟩

/-- A sender with one credit for flits of half the width is without credit after the first flit, and
nothing is on its way. -/
theorem starved_after_first_flit :
    ∃ s : Segment 4, Reachable (deserializer 8 4) (fun _ => 1) (fun _ a => ExactWidths 4 8 a.msgSize) s ∧
      s.Absorbed 0 ∧ (s.outVcState 0).hasCredit = false ∧ ¬ s.CreditOnItsWay 0 ∧ ¬ s.FlitOnItsWay 0 := by
  have fit : ExactWidths 4 8 detouredPacket.msgSize := ⟨by decide, by decide, by decide, by decide, by decide⟩
  obtain ⟨s, reached, absorbed, count, no_credit, no_flit⟩ := first_flit_absorbed (fun _ => 1) (by decide)
    (fun _ a => ExactWidths 4 8 a.msgSize) fit
  refine ⟨s, reached, absorbed, ?_, no_credit, no_flit⟩
  rw [OutVcState.hasCredit, count]
  rfl

end Segment

end Resister.Garnet
