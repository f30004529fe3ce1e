import Resister.Garnet.CreditFlow
import Resister.Library.Placement

/-!
# Where flits are

The queues that hold flits, and the flits that have left the network.
-/

namespace Resister.Garnet

open Function (update update_self update_of_ne)
open Library List

inductive Place where
  | source (c : Nat × Nat)
  | switch (l : Nat)
  | output (l : Nat)
  | link (l : Nat)
  | channel (c : Nat × Nat)
  | stalled (l : Nat)
  | ejected
  deriving DecidableEq

def Entry.ejectedFlit : Entry → Option Flit
  | .ejected _ f => some f
  | _ => none

def Flow.flitsAt (s : Flow) : Place → List Flit
  | .source c => s.niOutVcs c
  | .switch l => s.switchBuffer l
  | .output l => s.outQueue l
  | .link l => s.linkBuffer l
  | .channel c => (s.virtualChannels c).inputBuffer
  | .stalled l => s.stallQueue l
  | .ejected => s.log.reverse.filterMap Entry.ejectedFlit

def Flow.keysAt (s : Flow) (x : Place) : List (Packet × Nat) := (s.flitsAt x).map Flit.key

structure Moves (s s' : Flow) (x y : Place) (f g : Flit) : Prop where
  different : x ≠ y
  same : g.key = f.key
  taken : ∃ before after, s.flitsAt x = before ++ f :: after ∧ s'.flitsAt x = before ++ after
  added : s'.flitsAt y = s.flitsAt y ++ [g]
  others : ∀ z, z ≠ x → z ≠ y → s'.flitsAt z = s.flitsAt z

section Moves

variable {cfg : Config} {s : Flow} {l t : Nat} {f : Flit} {rest : List Flit}

theorem traverse_moves (top : s.outQueue l = f :: rest) (time : Nat) :
    Moves s (s.traverse l f rest time) (.output l) (.link l) f { f with time := time } where
  different := nofun
  same := rfl
  taken := ⟨[], rest, top, update_self ..⟩
  added := update_self ..
  others := fun z notX notY => by
    cases z with
    | output i => exact update_of_ne (fun same => notX (congrArg _ same)) _ _
    | link i => exact update_of_ne (fun same => notY (congrArg _ same)) _ _
    | _ => rfl

theorem receive_moves {ready port : Nat} {route : RouteInfo} (top : s.linkBuffer l = f :: rest)
    (same : route.fixed = f.route.incrementHops.fixed) :
    Moves s (s.receive l t ready f rest route port) (.link l) (.channel (l, f.vc)) f
      { f with route := route, stage := (.sa, ready) } where
  different := nofun
  same := Prod.ext (Flit.packet_eq_of_fixed same) rfl
  taken := ⟨[], rest, top, update_self ..⟩
  added := by simp [Flow.flitsAt, Flow.receive]
  others := fun z notX notY => by
    cases z with
    | link i => exact update_of_ne (fun same => notX (congrArg _ same)) _ _
    | channel c =>
      have other : c ≠ (l, f.vc) := fun same => notY (congrArg _ same)
      simp [Flow.flitsAt, Flow.receive, other]
    | _ => rfl

theorem grant_moves {outport : Nat} {input out : Nat × Nat} (top : (s.virtualChannels input).inputBuffer = f :: rest) :
    Moves s (s.grant t outport input out f rest) (.channel input) (.switch input.1) f
      { f with outport := some outport, vc := out.2, stage := (.st, t) } where
  different := nofun
  same := rfl
  taken := by
    refine ⟨[], rest, top, ?_⟩
    simp only [Flow.flitsAt, Flow.grant, update_self]
    split <;> rfl
  added := update_self ..
  others := fun z notX notY => by
    cases z with
    | channel c =>
      have other : c ≠ input := fun same => notX (congrArg _ same)
      simp [Flow.flitsAt, Flow.grant, other]
    | switch i => exact update_of_ne (fun same => notY (congrArg _ same)) _ _
    | ejected => simp [Flow.flitsAt, Flow.grant, Entry.ejectedFlit]
    | _ => rfl

theorem cross_moves {out : Nat} (top : s.switchBuffer l = f :: rest) (time : Nat) :
    Moves s (s.cross l out f rest time) (.switch l) (.output out) f { f with stage := (.lt, time), time := time } where
  different := nofun
  same := rfl
  taken := ⟨[], rest, top, update_self ..⟩
  added := update_self ..
  others := fun z notX notY => by
    cases z with
    | switch i => exact update_of_ne (fun same => notX (congrArg _ same)) _ _
    | output i => exact update_of_ne (fun same => notY (congrArg _ same)) _ _
    | _ => rfl

theorem send_moves {c : Nat × Nat} (top : s.niOutVcs c = f :: rest) (time : Nat) :
    Moves s (s.send c f rest time) (.source c) (.output c.1) f { f with time := time } where
  different := nofun
  same := rfl
  taken := ⟨[], rest, top, update_self ..⟩
  added := update_self ..
  others := fun z notX notY => by
    cases z with
    | source d => exact update_of_ne (fun same => notX (congrArg _ same)) _ _
    | output i => exact update_of_ne (fun same => notY (congrArg _ same)) _ _
    | _ => rfl

theorem stall_moves (top : s.linkBuffer l = f :: rest) : Moves s (s.stall l f rest) (.link l) (.stalled l) f f where
  different := nofun
  same := rfl
  taken := ⟨[], rest, top, update_self ..⟩
  added := update_self ..
  others := fun z notX notY => by
    cases z with
    | link i => exact update_of_ne (fun same => notX (congrArg _ same)) _ _
    | stalled i => exact update_of_ne (fun same => notY (congrArg _ same)) _ _
    | _ => rfl

theorem eject_ejected (s : Flow) (n l t : Nat) (f : Flit) :
    (s.eject n l t f).flitsAt .ejected = s.flitsAt .ejected ++ [f] := by
  simp only [Flow.flitsAt, Flow.eject]
  split <;> simp [Entry.ejectedFlit]

theorem eject_moves {n : Nat} (top : s.linkBuffer l = f :: rest) :
    Moves s ((s.consume l rest).eject n l t f) (.link l) .ejected f f where
  different := nofun
  same := rfl
  taken := ⟨[], rest, top, update_self ..⟩
  added := eject_ejected (s.consume l rest) n l t f
  others := fun z notX notY => by
    cases z with
    | link i => exact update_of_ne (fun same => notX (congrArg _ same)) _ _
    | ejected => exact (notY rfl).elim
    | _ => rfl

theorem unstall_moves {n : Nat} {before after : List Flit} (queue : s.stallQueue l = before ++ f :: after) :
    Moves s ((s.unstall l (before ++ after)).eject n l t f) (.stalled l) .ejected f f where
  different := nofun
  same := rfl
  taken := ⟨before, after, queue, update_self ..⟩
  added := eject_ejected (s.unstall l (before ++ after)) n l t f
  others := fun z notX notY => by
    cases z with
    | stalled i => exact update_of_ne (fun same => notX (congrArg _ same)) _ _
    | ejected => exact (notY rfl).elim
    | _ => rfl

theorem inject_source {n : Nat} {c : Nat × Nat} {packet : Packet} {flits : List Flit} :
    (s.inject n t c packet flits).flitsAt (.source c) = s.flitsAt (.source c) ++ flits :=
  update_self ..

theorem inject_others {n : Nat} {c : Nat × Nat} {packet : Packet} {flits : List Flit} {z : Place}
    (other : z ≠ .source c) : (s.inject n t c packet flits).flitsAt z = s.flitsAt z := by
  cases z with
  | source d => exact update_of_ne (fun same => other (congrArg _ same)) _ _
  | ejected => simp [Flow.flitsAt, Flow.inject, Entry.ejectedFlit]
  | _ => rfl

end Moves

theorem Moves.mem {s s' : Flow} {x y : Place} {f g : Flit} (moves : Moves s s' x y f g) {z : Place} {h : Flit}
    (present : h ∈ s'.flitsAt z) : h ∈ s.flitsAt z ∨ z = y ∧ h = g := by
  by_cases atX : z = x
  · subst atX
    obtain ⟨before, after, old, new⟩ := moves.taken
    rw [new] at present
    rw [old]
    rcases mem_append.mp present with early | late
    · exact Or.inl (mem_append_left _ early)
    · exact Or.inl (mem_append_right _ (mem_cons_of_mem _ late))
  · by_cases atY : z = y
    · subst atY
      rw [moves.added] at present
      rcases mem_append.mp present with old | new
      · exact Or.inl old
      · exact Or.inr ⟨rfl, mem_singleton.mp new⟩
    · rw [moves.others z atX atY] at present
      exact Or.inl present

theorem Moves.mem_source {s s' : Flow} {x y : Place} {f g : Flit} (moves : Moves s s' x y f g) :
    f ∈ s.flitsAt x := by
  obtain ⟨before, after, old, -⟩ := moves.taken
  rw [old]
  exact mem_append_right _ mem_cons_self

def Entry.sentPacket : Entry → Option (Nat × Packet)
  | .sent n p => some (n, p)
  | _ => none

/-- The packets made so far with the interface that made them, the latest one first. -/
def Flow.sentPackets (s : Flow) : List (Nat × Packet) := s.log.filterMap Entry.sentPacket

/-- An action leaves the flits where they are, moves one of them, or makes a packet. A flit that moves keeps its
route, or is routed on its way into a virtual channel. -/
inductive Placed (cfg : Config) (R : Nat → Flit → RouteInfo → Nat → Prop) (s s' : Flow) : Prop where
  | still (same : ∀ z, s'.flitsAt z = s.flitsAt z) (packets : s'.sentPackets = s.sentPackets)
      (clones : s'.clones = s.clones)
  | moved {x y : Place} {f g : Flit} (moves : Moves s s' x y f g)
      (route : g.route = f.route ∨ f.isHead = false ∧ g.route = f.route.incrementHops ∨
        f.isHead = true ∧ ∃ l port, R l f g.route port)
      (packets : s'.sentPackets = s.sentPackets) (clones : s'.clones = s.clones)
  | injected {n t l vc size : Nat} {route : RouteInfo} (start : StartsAt cfg n l vc route)
      (result : s' = s.inject n t (l, vc) (NetworkInterface.packetOf route size s.clones)
        (NetworkInterface.packetFlits route vc size s.clones t))

section Placed

variable {cfg : Config} {R : Nat → Flit → RouteInfo → Nat → Prop} {s s' : Flow}

theorem eject_sentPackets (s : Flow) (n l t : Nat) (f : Flit) : (s.eject n l t f).sentPackets = s.sentPackets := by
  unfold Flow.sentPackets Flow.eject
  dsimp only
  split <;> rfl

theorem Act.placed (act : Act cfg R s s') : Placed cfg R s s' := by
  cases act with
  | link top time => exact .moved (traverse_moves top time) (Or.inl rfl) rfl rfl
  | receive _ _ top _ same body decided =>
    rename_i f rest route port _ _ _ _
    refine .moved (receive_moves top same) (Or.inr ?_) rfl rfl
    cases head : f.isHead with
    | true => exact Or.inr ⟨rfl, _, port, decided head⟩
    | false => exact Or.inl ⟨rfl, body head⟩
  | grant _ _ top => exact .moved (grant_moves top) (Or.inl rfl) rfl rfl
  | cross top _ time => exact .moved (cross_moves top time) (Or.inl rfl) rfl rfl
  | send _ _ top _ _ time => exact .moved (send_moves top time) (Or.inl rfl) rfl rfl
  | eject _ top => exact .moved (eject_moves top) (Or.inl rfl) (eject_sentPackets _ _ _ _ _) rfl
  | stall _ top => exact .moved (stall_moves top) (Or.inl rfl) rfl rfl
  | unstall _ queue => exact .moved (unstall_moves queue) (Or.inl rfl) (eject_sentPackets _ _ _ _ _) rfl
  | inject _ start => exact .injected start rfl
  | _ => exact .still (fun z => by cases z <;> rfl) rfl rfl

theorem Reachable.routes {G : RouteInfo → Prop} (start : ∀ {n l vc route}, StartsAt cfg n l vc route → G route)
    (hops : ∀ {route}, G route → G route.incrementHops)
    (keep : ∀ {l f route port}, R l f route port → G f.route → G route) (reached : Reachable cfg R s) :
    ∀ x, ∀ f ∈ s.flitsAt x, G f.route := by
  induction reached with
  | init => exact fun x f present => by cases x <;> cases present
  | wake _ _ ih => exact ih
  | act before act ih =>
    intro z h present
    cases act.placed with
    | still same =>
      rw [same z] at present
      exact ih z h present
    | @moved x y f g moves route =>
      rcases moves.mem present with stayed | ⟨-, rfl⟩
      · exact ih z h stayed
      · have good := ih x f moves.mem_source
        rcases route with same | ⟨-, same⟩ | ⟨-, l, port, decided⟩
        · rwa [same]
        · rw [same]
          exact hops good
        · exact keep decided good
    | @injected n t l vc size route starts result =>
      subst result
      by_cases here : z = .source (l, vc)
      · subst here
        rw [inject_source] at present
        rcases mem_append.mp present with old | new
        · exact ih _ h old
        · obtain ⟨i, -, rfl⟩ := mem_map.mp new
          exact start starts
      · rw [inject_others here] at present
        exact ih z h present

def Flow.Created (s : Flow) (k : Packet × Nat) : Prop := k.1 ∈ s.sentPackets.map Prod.snd ∧ k.2 < k.1.size

structure Flow.Numbered (s : Flow) : Prop where
  below : ∀ sent ∈ s.sentPackets, sent.2.msgPtr < s.clones
  distinct : (s.sentPackets.map fun sent => sent.2.msgPtr).Nodup

theorem Moves.exclusive {x y : Place} {f g : Flit} {created : Packet × Nat → Prop}
    (moves : Moves s s' x y f g) (exclusive : Exclusive s.keysAt created) : Exclusive s'.keysAt created := by
  obtain ⟨before, after, old, new⟩ := moves.taken
  refine exclusive.move (k := f.key) moves.different ?_ ?_ fun z notX notY => ?_
  · simp only [Flow.keysAt, old, new, map_append, map_cons]
    exact perm_middle
  · simp only [Flow.keysAt, moves.added, map_append, map_cons, map_nil, moves.same]
    exact perm_append_singleton _ _
  · simp only [Flow.keysAt, moves.others z notX notY]

theorem Flow.created_congr (packets : s'.sentPackets = s.sentPackets) (k : Packet × Nat) :
    s'.Created k ↔ s.Created k := by
  rw [Created, Created, packets]

theorem Flow.Numbered.congr (numbered : s.Numbered) (packets : s'.sentPackets = s.sentPackets)
    (clones : s'.clones = s.clones) : s'.Numbered :=
  ⟨by rw [packets, clones]; exact numbered.below, by rw [packets]; exact numbered.distinct⟩

theorem inject_exclusive {n t vc size : Nat} {c : Nat × Nat} {route : RouteInfo}
    (exclusive : Exclusive s.keysAt s.Created) (numbered : s.Numbered) :
    Exclusive (s.inject n t c (NetworkInterface.packetOf route size s.clones)
        (NetworkInterface.packetFlits route vc size s.clones t)).keysAt
      (s.inject n t c (NetworkInterface.packetOf route size s.clones)
        (NetworkInterface.packetFlits route vc size s.clones t)).Created := by
  let packet := NetworkInterface.packetOf route size s.clones
  have keys : (NetworkInterface.packetFlits route vc size s.clones t).map Flit.key =
      (List.range size).map fun i => (packet, i) := by
    simp [NetworkInterface.packetFlits, Function.comp_def]
    intro i _
    rfl
  have fresh : ∀ k ∈ (List.range size).map fun i => (packet, i), ¬ s.Created k := by
    rintro k new ⟨old, -⟩
    obtain ⟨i, -, rfl⟩ := mem_map.mp new
    obtain ⟨sent, listed, same⟩ := mem_map.mp old
    have below := numbered.below sent listed
    rw [same] at below
    exact Nat.lt_irrefl _ below
  have created_iff : ∀ k, (s.inject n t c packet (NetworkInterface.packetFlits route vc size s.clones t)).Created k ↔
      s.Created k ∨ k ∈ (List.range size).map fun i => (packet, i) := by
    rintro ⟨p, i⟩
    have sent : (s.inject n t c packet (NetworkInterface.packetFlits route vc size s.clones t)).sentPackets =
        (n, packet) :: s.sentPackets := rfl
    have length : packet.size = size := rfl
    simp only [Flow.Created, sent, map_cons, mem_cons, mem_map, mem_range, Prod.mk.injEq]
    constructor
    · rintro ⟨rfl | old, below⟩
      · exact Or.inr ⟨i, below, rfl, rfl⟩
      · exact Or.inl ⟨old, below⟩
    · rintro (⟨old, below⟩ | ⟨j, below, rfl, rfl⟩)
      · exact ⟨Or.inr old, below⟩
      · exact ⟨Or.inl rfl, below⟩
  refine exclusive.create (nodup_range.map fun i j same => (Prod.mk.inj same).2) fresh created_iff
    (y := .source c) ?_ fun z other => ?_
  · rw [Flow.keysAt, inject_source, map_append, keys]
    rfl
  · rw [Flow.keysAt, inject_others other]
    rfl

theorem Reachable.exclusive (reached : Reachable cfg R s) : Exclusive s.keysAt s.Created ∧ s.Numbered := by
  induction reached with
  | init =>
    refine ⟨.empty (fun x => by cases x <;> rfl) fun k made => ?_, ⟨?_, nodup_nil⟩⟩
    · cases made.1
    · exact fun sent present => nomatch present
  | wake _ _ ih => exact ⟨ih.1.congr (fun z => by cases z <;> rfl) fun _ => Iff.rfl, ih.2.congr rfl rfl⟩
  | act before act ih =>
    obtain ⟨exclusive, numbered⟩ := ih
    cases act.placed with
    | still same packets clones =>
      exact ⟨exclusive.congr (fun z => congrArg (List.map Flit.key) (same z)) (Flow.created_congr packets),
        numbered.congr packets clones⟩
    | moved moves route packets clones =>
      exact ⟨(moves.exclusive exclusive).congr (fun _ => rfl) (Flow.created_congr packets),
        numbered.congr packets clones⟩
    | injected start result =>
      subst result
      refine ⟨inject_exclusive exclusive numbered, ?_, ?_⟩
      · intro sent listed
        rcases mem_cons.mp listed with rfl | old
        · exact Nat.lt_succ_self _
        · exact Nat.lt_succ_of_lt (numbered.below sent old)
      · refine nodup_cons.mpr ⟨fun old => ?_, numbered.distinct⟩
        obtain ⟨sent, listed, same⟩ := mem_map.mp old
        have below := numbered.below sent listed
        rw [same] at below
        exact Nat.lt_irrefl _ below

theorem Reachable.packet_eq (reached : Reachable cfg R s) {x : Place} {f : Flit} (present : f ∈ s.flitsAt x)
    {packet : Packet} (made : packet ∈ s.sentPackets.map Prod.snd) (same : f.msgPtr = packet.msgPtr) :
    f.packet = packet := by
  obtain ⟨exclusive, numbered⟩ := reached.exclusive
  have created : f.packet ∈ s.sentPackets.map Prod.snd := (exclusive.sound x f.key (mem_map_of_mem present)).1
  refine inj_on_of_nodup_map (f := Packet.msgPtr) ?_ created made same
  rw [map_map]
  exact numbered.distinct

end Placed

/-- Wormhole switching. The flits on one virtual channel of a link belong to one packet and are its
next ones in order, with the credits behind them and the free signal in the tail's. An input virtual
channel that owns an output virtual channel feeds it with the packet that is already there. -/
theorem wormhole_integrity (cfg : Config) (events : List Event) (c : Nat × Nat) :
    let s := (Net.run cfg events).flow
    ((s.flying c = [] ∧ s.returning c = [] ∧ ∀ i, s.switching cfg c i = []) ∨
      ∃ p returned departed crossed sent, returned ≤ departed ∧ departed ≤ crossed ∧ crossed ≤ sent ∧
        sent ≤ p.size ∧ p.vnet = cfg.vnetOf c.2 ∧
        (s.flying c).map Flit.key = window p departed crossed ∧
        (s.returning c).map Credit.isFreeSignal = freeSignals p.size returned departed ∧
        ∀ i, s.switching cfg c i = [] ∨ (s.switching cfg c i).map Flit.key = window p crossed sent) ∧
    ∀ w, (s.virtualChannels c).outputVc = some w →
      ∃ l, cfg.target c.1 (s.virtualChannels c).outputPort = some l ∧ (s.outVcState (l, w)).state = .active ∧
        ∀ f ∈ s.flying c, ∀ g ∈ s.flying (l, w), g.packet = f.packet ∧ g.id < f.id := by
  intro s
  obtain ⟨occ, tracked⟩ := (Net.run_reachable (Net.follows_true events)).tracked
  have inv : Conserved cfg s occ := tracked.conserved
  constructor
  · cases present : occ c with
    | none =>
      have quiet := inv.quiet present
      exact .inl ⟨map_eq_nil_iff.mp quiet.flying, map_eq_nil_iff.mp quiet.returning,
        fun i => map_eq_nil_iff.mp (quiet.switching i)⟩
    | some o =>
      have busy := inv.busy present
      refine .inr ⟨o.packet, o.returned, o.departed, o.crossed, o.sent, busy.returned_le, busy.departed_le,
        busy.crossed_le, busy.sent_le, inv.vnet c o present, busy.flying, busy.returning, ?_⟩
      intro i
      have inside := busy.switching i
      split at inside
      · exact .inr inside
      · exact .inl (map_eq_nil_iff.mp inside)
  · intro w allocated
    obtain ⟨l, target, o, o', here, there, -, same, level, -⟩ := inv.linked c w allocated
    refine ⟨l, target, inv.active _ _ there, ?_⟩
    have inWindow : ∀ {d q f}, occ d = some q → f ∈ s.flying d → f.key ∈ window q.packet q.departed q.crossed := by
      intro d q f present flies
      have keys : (s.flying d).map Flit.key = _ := (inv.busy present).flying
      rw [← keys]
      exact mem_map_of_mem flies
    intro f behind g ahead
    obtain ⟨packet, late, -⟩ := mem_window.mp (inWindow here behind)
    obtain ⟨packet', -, early⟩ := mem_window.mp (inWindow there ahead)
    have crossed := (inv.busy there).crossed_le
    exact ⟨packet'.trans (same.trans packet.symm), by change g.key.2 < f.key.2; omega⟩

/-- No flit is lost or duplicated: every flit of every packet sent is in one place, once, and there
are no others. -/
theorem flits_conserved (cfg : Config) (events : List Event) :
    let s := (Net.run cfg events).flow
    (s.sentPackets.map fun sent => sent.2.msgPtr).Nodup ∧
      (∀ p ∈ s.sentPackets.map Prod.snd, ∀ i < p.size, ∃! x, (p, i) ∈ s.keysAt x) ∧
      ∀ x, (s.keysAt x).Nodup ∧ ∀ k ∈ s.keysAt x, k.1 ∈ s.sentPackets.map Prod.snd ∧ k.2 < k.1.size := by
  intro s
  have follows : Net.Follows cfg (fun _ _ _ _ => True) events := Net.follows_true events
  obtain ⟨exclusive, numbered⟩ := (Net.run_reachable follows).exclusive
  refine ⟨numbered.distinct, ?_, fun x => ⟨exclusive.distinct x, exclusive.sound x⟩⟩
  intro p made i inside
  obtain ⟨x, present⟩ := exclusive.complete (p, i) ⟨made, inside⟩
  exact ⟨x, present, fun y there => exclusive.unique y x _ there present⟩

end Resister.Garnet
