import Resister.Garnet.PacketConversion

/-!
# The round trip over two bridges

Packets that a serialiser cuts up leave a deserialiser as they came, on every virtual channel, in
whatever order the channels take turns.
-/

namespace Resister.Garnet

open Library List Nat

def BridgeFlit.untimed (f : BridgeFlit) : BridgeFlit := { f with time := 0 }

theorem Traffic.setTime_vc (t : Traffic) (time : Nat) : (t.setTime time).vc = t.vc := by
  cases t <;> rfl

variable {ts : List Traffic} {fs : List BridgeFlit}

theorem flits_of_untimed (same : ts.map (Traffic.setTime 0) = (fs.map Traffic.flit).map (Traffic.setTime 0)) :
    ∃ gs : List BridgeFlit, ts = gs.map Traffic.flit ∧
      gs.map BridgeFlit.untimed = fs.map BridgeFlit.untimed := by
  induction fs generalizing ts with
  | nil =>
    refine ⟨[], ?_, rfl⟩
    exact map_eq_nil_iff.mp same
  | cons f rest ih =>
    obtain ⟨t, others, rfl, first, later⟩ := map_eq_cons_iff.mp same
    obtain ⟨gs, rfl, untimed⟩ := ih later
    cases t with
    | flit g =>
      refine ⟨g :: gs, rfl, ?_⟩
      rw [map_cons, map_cons, untimed]
      exact congrArg (· :: rest.map BridgeFlit.untimed) (Traffic.flit.inj first)
    | credit c => cases first

variable {width vc : Nat} {gs : List BridgeFlit}

theorem Parts.of_untimed {msgSize start : Nat}
    (parts : Parts msgSize width vc start fs) (same : gs.map BridgeFlit.untimed = fs.map BridgeFlit.untimed) :
    Parts msgSize width vc start gs := by
  induction fs generalizing gs start with
  | nil =>
    obtain rfl := map_eq_nil_iff.mp same
    exact parts
  | cons f rest ih =>
    obtain ⟨g, others, rfl, first, later⟩ := map_eq_cons_iff.mp same
    refine ⟨?_, ih parts.2 later⟩
    obtain ⟨id, size, msgSize, width, vc⟩ := parts.1
    simp only [BridgeFlit.untimed, BridgeFlit.mk.injEq, Flit.mk.injEq] at first
    exact ⟨first.1.2.1.trans id, first.1.2.2.2.2.2.1.trans size, first.2.2.1.trans msgSize,
      first.2.1.trans width, first.1.2.2.2.1.trans vc⟩

theorem head_of_untimed (same : gs.map BridgeFlit.untimed = fs.map BridgeFlit.untimed) :
    gs.head?.map (·.route) = fs.head?.map (·.route) := by
  have heads := congrArg (fun l => l.head?.map (·.route)) same
  simpa [List.head?_map, Option.map_map, Function.comp_def, BridgeFlit.untimed] using heads

variable {cur target : Nat} {packets : List (BridgePacket cur vc)} {converted : List (BridgePacket target vc)}

theorem becomes_of_untimed (all : List.Forall₂ BridgePacket.Becomes packets converted)
    (same : gs.map BridgeFlit.untimed = (converted.flatMap BridgePacket.flits).map BridgeFlit.untimed) :
    ∃ timed : List (BridgePacket target vc), gs = timed.flatMap BridgePacket.flits ∧
      List.Forall₂ BridgePacket.Becomes packets timed := by
  induction all generalizing gs with
  | nil => exact ⟨[], map_eq_nil_iff.mp same, List.Forall₂.nil⟩
  | @cons a b packets converted becomes _ ih =>
    rw [flatMap_cons, map_append] at same
    obtain ⟨first, later, rfl, one, two⟩ := map_eq_append_iff.mp same
    obtain ⟨timed, rfl, rest⟩ := ih two
    refine ⟨⟨b.msgSize, first, Parts.of_untimed b.isPacket one⟩ :: timed, rfl, List.Forall₂.cons ?_ rest⟩
    exact ⟨becomes.msgSize, (head_of_untimed one).trans becomes.head⟩

theorem filter_setTime (ts : List Traffic) (vc : Nat) :
    (ts.map (Traffic.setTime 0)).filter (fun t => t.vc = vc) =
      (ts.filter fun t => t.vc = vc).map (Traffic.setTime 0) := by
  rw [filter_map]
  congr 1
  apply filter_congr
  intro t _
  simp only [Function.comp_apply, Traffic.setTime_vc]

structure BridgePair.Fresh (p : BridgePair) : Prop where
  channels : ∀ vc, p.channels vc = {}
  buffer : p.data.linkBuffer = []

theorem BridgePair.init_fresh (params : BridgeParams) : (init params).Fresh := ⟨fun _ => rfl, rfl⟩

theorem handleAll_packets {p : BridgePair} (converts : p.Converts cur target)
    (fresh : p.Fresh) (divides : cur ∣ target ∨ target ∣ cur) {calls : List (ConsumerClock × Traffic)}
    {packets : (vc : Nat) → List (BridgePacket cur vc)}
    (stream : ∀ vc, (calls.map (·.2)).filter (fun t => t.vc = vc) =
      ((packets vc).flatMap BridgePacket.flits).map Traffic.flit)
    (fit : ∀ vc, ∀ a ∈ packets vc, ExactBetween cur target a.msgSize) :
    ∃ p', p.handleAll calls = some p' ∧
      ∀ vc, ∃ converted : List (BridgePacket target vc),
        p'.data.linkBuffer.filter (fun t => t.vc = vc) =
          (converted.flatMap BridgePacket.flits).map Traffic.flit ∧
        List.Forall₂ BridgePacket.Becomes (packets vc) converted := by
  have run : ∀ vc, ∃ v' outs, ∃ converted : List (BridgePacket target vc), _ :=
    fun vc => packets_run (v := {}) divides (fit vc) rfl rfl
  have finished : (p.handleAll calls).isSome := by
    rw [BridgePair.handleAll_isSome converts]
    intro vc
    obtain ⟨v', outs, converted, ran, -⟩ := run vc
    rw [stream, VcPair.run_flits, Option.isSome_map, fresh.channels, ran]
    rfl
  obtain ⟨p', done⟩ := Option.isSome_iff_exists.mp finished
  obtain ⟨out, outcome, each⟩ := BridgePair.handleAll_channel converts done
  refine ⟨p', done, fun vc => ?_⟩
  obtain ⟨v', outs, converted, ran, scheduled, becomes, -⟩ := run vc
  have here := each vc
  rw [stream, VcPair.run_flits, fresh.channels, ran, Option.map_some] at here
  obtain ⟨-, own⟩ := Prod.mk.inj (Option.some.inj here)
  have only_flits : (out.filter Traffic.isFlit).filter (fun t => decide (t.vc = vc)) =
      (converted.flatMap BridgePacket.flits).map Traffic.flit := by
    rw [filter_comm, ← own, scheduled]
    exact filter_eq_self.mpr fun t member => by
      obtain ⟨f, -, rfl⟩ := mem_map.mp member
      rfl
  have log : (p'.data.linkBuffer.filter fun t => t.vc = vc).map (Traffic.setTime 0) =
      ((converted.flatMap BridgePacket.flits).map Traffic.flit).map (Traffic.setTime 0) := by
    rw [← filter_setTime, ← only_flits, ← filter_setTime]
    have empty : p.data.scheduled = [] := congrArg (List.map (Traffic.setTime 0)) fresh.buffer
    have whole := outcome.data
    rw [empty, nil_append] at whole
    exact congrArg (List.filter fun t => decide (t.vc = vc)) whole
  obtain ⟨gs, buffer, same⟩ := flits_of_untimed log
  obtain ⟨timed, rfl, all⟩ := becomes_of_untimed becomes same
  exact ⟨timed, buffer, all⟩

def BridgeFlit.shape (f : BridgeFlit) : Nat × FlitType × Nat := (f.id, f.type, f.size)

def packetShape (size : Nat) : List (Nat × FlitType × Nat) :=
  (List.range size).map fun i =>
    (i, if size = 1 then .headTail else if i = 0 then .head else if i + 1 = size then .tail else .body, size)

theorem Parts.getElem {msgSize start j : Nat} (parts : Parts msgSize width vc start fs) (inside : j < fs.length) :
    fs[j].IsPart msgSize width vc (start + j) := by
  induction fs generalizing start j with
  | nil => exact absurd inside (not_lt_zero j)
  | cons f rest ih =>
    cases j with
    | zero => exact parts.1
    | succ j =>
      have later := ih parts.2 (lt_of_succ_lt_succ inside)
      rw [add_assoc, add_comm 1 j] at later
      exact later

theorem BridgePacket.shape_eq (a : BridgePacket width vc) :
    a.flits.map BridgeFlit.shape = packetShape (floatDivCeil a.msgSize width) := by
  have length := a.isPacket.length
  rw [zero_add] at length
  apply ext_getElem
  · simp [packetShape, length]
  · intro j inside _
    rw [length_map] at inside
    obtain ⟨id, size, -⟩ := a.isPacket.getElem inside
    rw [zero_add] at id
    simp [packetShape, BridgeFlit.shape, Flit.type, id, size]

theorem packets_shape (packets : List (BridgePacket width vc)) :
    (packets.flatMap BridgePacket.flits).map BridgeFlit.shape =
      packets.flatMap fun a => packetShape (floatDivCeil a.msgSize width) := by
  rw [map_flatMap]
  congr 1
  funext a
  exact a.shape_eq

theorem VcPair.run_lenBuffer {s s' : VcPair} {out : List Traffic}
    (ran : runMachine (VcPair.handle cur target) s ts = some (s', out)) (zero : s.data.lenBuffer = 0) :
    s'.data.lenBuffer = 0 := by
  induction ts generalizing s out with
  | nil =>
    obtain ⟨rfl, -⟩ := Prod.mk.inj (Option.some.inj ran)
    exact zero
  | cons t rest ih =>
    obtain ⟨mid, first, later, handled, others, -⟩ := runMachine_cons_some ran
    apply ih others
    cases t with
    | flit f =>
      obtain ⟨told, converted, -⟩ := VcPair.handle_flit_some handled
      exact BridgeVc.convert_lenBuffer converted zero
    | credit c =>
      obtain ⟨-, same⟩ := VcPair.handle_credit_some handled
      rw [same]
      exact zero

def BridgePair.ClearsAfterTails (p : BridgePair) (calls : List (ConsumerClock × Traffic)) : Prop :=
  ∀ before clock f after, calls = before ++ (clock, Traffic.flit f) :: after → f.isTail = true →
    ∃ mid, p.handleAll (before ++ [(clock, Traffic.flit f)]) = some mid ∧ (mid.data.vcs f.vc).Clear

theorem BridgePair.handleAll_split {p p' : BridgePair} {first second : List (ConsumerClock × Traffic)}
    (done : p.handleAll (first ++ second) = some p') : ∃ mid, p.handleAll first = some mid := by
  rw [handleAll, foldlM_append] at done
  obtain ⟨mid, one, -⟩ := Option.bind_eq_some_iff.mp done
  exact ⟨mid, one⟩

theorem BridgePair.clearsAfterTails {params : BridgeParams} {p' : BridgePair}
    {calls : List (ConsumerClock × Traffic)} (done : (init params).handleAll calls = some p') :
    (init params).ClearsAfterTails calls := by
  rintro before clock f after rfl tail
  have whole : (init params).handleAll ((before ++ [(clock, Traffic.flit f)]) ++ after) = some p' := by
    rw [append_assoc]
    exact done
  obtain ⟨mid, reached⟩ := handleAll_split whole
  refine ⟨mid, reached, ?_⟩
  obtain ⟨out, -, each⟩ := handleAll_channel (init_converts params) reached
  have here := each f.vc
  have zero := VcPair.run_lenBuffer here rfl
  rw [map_append, filter_append] at here
  obtain ⟨s, first, last, -, stepped, -⟩ := runMachine_append_some here
  rw [map_singleton, filter_cons_of_pos (by simp [Traffic.vc])] at stepped
  obtain ⟨s', out', later, handled, finish, -⟩ := runMachine_cons_some stepped
  obtain ⟨same, -⟩ := Prod.mk.inj (Option.some.inj finish)
  subst same
  obtain ⟨told, converted, -⟩ := VcPair.handle_flit_some handled
  obtain ⟨size_zero, flits_zero⟩ := BridgeVc.convert_tail tail converted
  exact ⟨zero, size_zero, flits_zero⟩

def Traffic.shape : Traffic → Option (Nat × FlitType × Nat)
  | flit f => some f.shape
  | credit _ => none

theorem shapes_of_flits (same : ts = fs.map Traffic.flit) :
    ts.map Traffic.shape = (fs.map BridgeFlit.shape).map some := by
  subst same
  simp [Function.comp_def, Traffic.shape]

theorem Becomes.msgSizes (all : List.Forall₂ BridgePacket.Becomes packets converted) :
    converted.map (·.msgSize) = packets.map (·.msgSize) := by
  induction all with
  | nil => rfl
  | cons becomes _ ih => rw [map_cons, map_cons, becomes.msgSize, ih]

theorem Becomes.shape (all : List.Forall₂ BridgePacket.Becomes packets converted) :
    (converted.flatMap BridgePacket.flits).map BridgeFlit.shape =
      packets.flatMap fun a => packetShape (floatDivCeil a.msgSize target) := by
  rw [packets_shape]
  have sizes := congrArg (List.flatMap fun m => packetShape (floatDivCeil m target)) (Becomes.msgSizes all)
  rwa [flatMap_map, flatMap_map] at sizes

theorem Becomes.forall_msgSize {P : Nat → Prop} (all : List.Forall₂ BridgePacket.Becomes packets converted)
    (each : ∀ a ∈ packets, P a.msgSize) : ∀ b ∈ converted, P b.msgSize := by
  have sizes := Becomes.msgSizes all
  intro b member
  have same : b.msgSize ∈ packets.map (·.msgSize) := by
    rw [← sizes]
    exact mem_map_of_mem member
  obtain ⟨a, inside, equal⟩ := mem_map.mp same
  rw [← equal]
  exact each a inside

/-- Serialising the packets of all channels and deserialising what comes out. -/
theorem serialize_deserialize (cutter joiner : BridgeParams)
    (divides : cutter.targetWidth ∣ cutter.curWidth) (same_narrow : joiner.curWidth = cutter.targetWidth)
    (same_wide : joiner.targetWidth = cutter.curWidth) (calls : List (ConsumerClock × BridgeFlit))
    (packets : (vc : Nat) → List (BridgePacket cutter.curWidth vc))
    (stream : ∀ vc, (calls.map (·.2)).filter (fun f => f.vc = vc) = (packets vc).flatMap BridgePacket.flits)
    (fit : ∀ vc, ∀ a ∈ packets vc, ExactWidths cutter.targetWidth cutter.curWidth a.msgSize) :
    ∃ cut, (BridgePair.init cutter).sendAll calls = some cut ∧
      (∀ vc, (cut.data.linkBuffer.filter fun t => t.vc = vc).map Traffic.shape =
        ((packets vc).flatMap fun a =>
          packetShape ((a.msgSize + cutter.targetWidth - 1) / cutter.targetWidth)).map some) ∧
      (BridgePair.init cutter).ClearsAfterTails (calls.map fun call => (call.1, Traffic.flit call.2)) ∧
      ∀ onward : List (ConsumerClock × Traffic), onward.map (·.2) = cut.data.linkBuffer →
        ∃ joined, (BridgePair.init joiner).handleAll onward = some joined ∧
          (∀ vc, (joined.data.linkBuffer.filter fun t => t.vc = vc).map Traffic.shape =
            (((calls.map (·.2)).filter fun f => f.vc = vc).map BridgeFlit.shape).map some) ∧
          (BridgePair.init joiner).ClearsAfterTails onward := by
  have between : ∀ vc, ∀ a ∈ packets vc, ExactBetween cutter.curWidth cutter.targetWidth a.msgSize := by
    intro vc a member
    have exact_fit := fit vc a member
    have less := exact_fit.less
    rw [ExactBetween, min_eq_right less.le, max_eq_left less.le]
    exact exact_fit
  have traffic : ∀ vc, ((calls.map fun call => (call.1, Traffic.flit call.2)).map (·.2)).filter
      (fun t => t.vc = vc) = ((packets vc).flatMap BridgePacket.flits).map Traffic.flit := by
    intro vc
    rw [flits_on, stream]
  obtain ⟨cut, sent, pieces⟩ := handleAll_packets (BridgePair.init_converts cutter)
    (BridgePair.init_fresh cutter) (Or.inr divides) traffic between
  refine ⟨cut, sent, fun vc => ?_, BridgePair.clearsAfterTails sent, fun onward order => ?_⟩
  · obtain ⟨converted, buffer, becomes⟩ := pieces vc
    rw [shapes_of_flits buffer, Becomes.shape becomes]
    congr 1
    apply flatMap_congr
    intro a member
    rw [(fit vc a member).numFlits_narrow]
    rfl
  · choose narrow buffer becomes using pieces
    have converts := BridgePair.init_converts joiner
    rw [same_narrow, same_wide] at converts
    have back : ∀ vc, ∀ a ∈ narrow vc, ExactBetween cutter.targetWidth cutter.curWidth a.msgSize := by
      intro vc
      apply Becomes.forall_msgSize (becomes vc) (P := ExactBetween cutter.targetWidth cutter.curWidth)
      intro a member
      rw [ExactBetween, min_comm, max_comm]
      exact between vc a member
    have returned : ∀ vc, (onward.map (·.2)).filter (fun t => t.vc = vc) =
        ((narrow vc).flatMap BridgePacket.flits).map Traffic.flit := by
      intro vc
      rw [order, buffer]
    obtain ⟨joined, done, whole⟩ := handleAll_packets converts (BridgePair.init_fresh joiner) (Or.inl divides)
      returned back
    refine ⟨joined, done, fun vc => ?_, BridgePair.clearsAfterTails done⟩
    obtain ⟨wide, last, again⟩ := whole vc
    rw [shapes_of_flits last, Becomes.shape again, stream, packets_shape]
    have sizes := congrArg (List.flatMap fun m => packetShape (floatDivCeil m cutter.curWidth))
      (Becomes.msgSizes (becomes vc))
    rw [flatMap_map, flatMap_map] at sizes
    exact congrArg (List.map some) sizes

theorem serialize_deserialize_twentyBits :
    ∃ cut, sendPacket (serializer 8 4) (BridgePacket.cut 20 8 0 {}) = some cut ∧
      (cut.data.linkBuffer.filter fun t => t.vc = 0).map Traffic.shape = (packetShape 5).map some ∧
      ∃ joined, (BridgePair.init (deserializer 8 4)).handleAll
          (cut.data.linkBuffer.map fun t => (everyTick, t)) = some joined ∧
        (joined.data.linkBuffer.filter fun t => t.vc = 0).map Traffic.shape = (packetShape 3).map some := by
  obtain ⟨cut, sent, narrow, -, back⟩ := serialize_deserialize (serializer 8 4) (deserializer 8 4)
    (by decide) rfl rfl ((BridgePacket.cut 20 8 0 {}).flits.map fun f => (everyTick, f))
    (onFirst (BridgePacket.cut 20 8 0 {})) (onFirst_stream _ _)
    (onFirst_forall (P := ExactWidths 4 8) ⟨by decide, by decide, by decide, by decide, by decide⟩)
  obtain ⟨joined, done, wide, -⟩ := back (cut.data.linkBuffer.map fun t => (everyTick, t)) (by simp)
  refine ⟨cut, sent, (narrow 0).trans (by decide +kernel), joined, done, (wide 0).trans (by decide +kernel)⟩

/-- The sum in `divCeil` rounds up, so that the packet has two wide flits for a message that fills one,
and nothing is left to send for the second. -/
theorem serialize_roundedSum_fails :
    4194305 * 2 = 8388610 ∧ 8388610 < 2 ^ 24 ∧ (BridgePacket.cut 8388610 8388610 0 {}).flits.length = 2 ∧
      (sendPacket (serializer 8388610 4194305) (BridgePacket.cut 8388610 8388610 0 {})).isSome = false := by
  decide +kernel

def RouteInfo.detour (route : RouteInfo) : Nat × Option Nat × Bool :=
  (route.sTag, route.interRoute, route.passedMid)

def Traffic.detour? : Traffic → Option (Nat × Option Nat × Bool)
  | flit f => some f.route.detour
  | credit _ => none

def BridgePacket.headDetour {width vc : Nat} (a : BridgePacket width vc) : Option (Nat × Option Nat × Bool) :=
  a.flits.head?.map fun f => f.route.detour

def BridgePacket.HeadWritten {width vc : Nat} (a : BridgePacket width vc) : Prop :=
  ∀ f ∈ a.flits.tail, some f.route.detour ≠ a.headDetour

theorem BridgePacket.Becomes.headDetour_eq_iff {a : BridgePacket cur vc}
    {b : BridgePacket target vc} (becomes : a.Becomes b) (divides : cur ∣ target ∨ target ∣ cur)
    (fit : ExactBetween cur target a.msgSize) (written : a.HeadWritten) :
    b.headDetour = a.headDetour ↔ target < cur ∨ a.flits.length = 1 := by
  have head := congrArg (Option.map RouteInfo.detour) becomes.head
  rw [Option.map_map, Option.map_map] at head
  have source : b.headDetour =
      (a.flits[headSource cur target a.msgSize]?).map fun f => f.route.detour := head
  rw [source]
  obtain ⟨less, r, rfl⟩ | ⟨less, -⟩ := fit.dvd divides
  · have exact_fit := fit.deserializes less
    have two := exact_fit.two_le
    have length := a.isPacket.length
    have some_flit := flitCount_pos exact_fit.size exact_fit.positive
    rw [exact_fit.numFlits_narrow, Nat.zero_add] at length
    rw [headSource, if_neg (by omega), Nat.mul_div_cancel_left _ exact_fit.positive, ← length]
    by_cases single : a.flits.length = 1
    · have first : min r a.flits.length - 1 = 0 := by omega
      rw [first, ← List.head?_eq_getElem?]
      exact ⟨fun _ => Or.inr single, fun _ => rfl⟩
    · -- the head is built from a later flit, which no router wrote to
      obtain ⟨k, later⟩ : ∃ k, min r a.flits.length - 1 = k + 1 := ⟨min r a.flits.length - 2, by omega⟩
      have inside : k < a.flits.tail.length := by
        rw [length_tail]
        omega
      rw [later, ← List.getElem?_tail, List.getElem?_eq_getElem inside]
      refine ⟨fun same => absurd same (written _ (getElem_mem inside)), ?_⟩
      rintro (wrong | wrong)
      · omega
      · exact absurd wrong single
  · rw [headSource, if_pos less, ← List.head?_eq_getElem?]
    exact ⟨fun _ => Or.inl less, fun _ => rfl⟩

theorem Becomes.of_mem (all : List.Forall₂ BridgePacket.Becomes packets converted)
    {R : BridgePacket cur vc → BridgePacket target vc → Prop}
    (each : ∀ a ∈ packets, ∀ b, a.Becomes b → R a b) : List.Forall₂ R packets converted := by
  induction all with
  | nil => exact List.Forall₂.nil
  | cons becomes _ ih =>
    obtain ⟨here, others⟩ := forall_mem_cons.mp each
    exact List.Forall₂.cons (here _ becomes) (ih others)

def detouredFlits : List BridgeFlit :=
  [cutFlit 8 4 0 { sTag := 1, interRoute := some 5 } 0, cutFlit 8 4 0 {} 1]

theorem detouredFlits_isPacket : IsPacket 8 4 0 detouredFlits := by
  refine ⟨⟨rfl, rfl, rfl, rfl, rfl⟩, ⟨rfl, rfl, rfl, rfl, rfl⟩, ?_⟩
  show 2 = floatDivCeil 8 4
  decide +kernel

def detouredPacket : BridgePacket 4 0 :=
  { msgSize := 8, flits := detouredFlits, isPacket := detouredFlits_isPacket }

theorem detouredPacket_headWritten : detouredPacket.HeadWritten := by
  intro f member
  obtain rfl := mem_singleton.mp member
  decide

end Resister.Garnet
