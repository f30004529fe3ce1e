import Resister.Garnet.Updates
import Resister.Garnet.Places
import Resister.Network.GarnetNetwork

/-!
# Multicast messages

`flitisizeMessage` makes one packet for each destination of a message.
-/

namespace Resister.Garnet

open Function (update update_self update_of_ne)
open Library List

theorem getAllDest_remove {counts : List Nat} {m : MachineID} (listed : m ∈ allMachines counts) (d : NetDest) :
    (d.removeNetDest (NetworkInterface.personalDest counts (m.nodeID counts))).getAllDest counts =
      (d.getAllDest counts).filter fun node => node ≠ m.nodeID counts := by
  unfold NetDest.getAllDest
  rw [filter_map, filter_filter]
  congr 1
  refine filter_congr fun x present => ?_
  have same : x = m ↔ x.nodeID counts = m.nodeID counts := ⟨fun eq => eq ▸ rfl, nodeID_inj present listed⟩
  rw [Bool.eq_iff_iff]
  simp [NetDest.isElement, NetDest.removeNetDest, NetworkInterface.mem_personalDest listed, same, and_comm]

def Message.dests (cfg : Config) (msg : Message) : List Nat := msg.destination.getAllDest cfg.machineCounts

/-- The packets that an interface has made on a virtual network, the latest one first. -/
def Flow.packetsFrom (s : Flow) (n vnet : Nat) : List Packet :=
  (s.sentPackets.filter fun sent => sent.1 == n && sent.2.vnet == vnet).map Prod.snd

def Net.outbox (s : Net) (n vnet : Nat) : List Message × List Packet :=
  (s.flow.inNode (n, vnet), s.flow.packetsFrom n vnet)

section Frame

variable {cfg : Config} {n vnet : Nat}

theorem Ejected.outbox {m l t : Nat} {s s' : Flow} (ejected : Ejected m l t s s') :
    s'.inNode = s.inNode ∧ s'.packetsFrom n vnet = s.packetsFrom n vnet := by
  cases ejected with
  | nothing | stall => exact ⟨rfl, rfl⟩
  | eject | unstall =>
    refine ⟨rfl, ?_⟩
    rw [Flow.packetsFrom, eject_sentPackets]
    rfl

theorem Update.outbox {part : Part} {s s' : Net} (step : Update cfg part s s') (other : part ≠ .injection n vnet) :
    s'.outbox n vnet = s.outbox n vnet := by
  cases step with
  | @inject _ m v t c packet flits same =>
    refine Prod.ext rfl ?_
    have elsewhere : (m == n && packet.vnet == vnet) = false := by
      rw [Bool.and_eq_false_imp, beq_iff_eq, same]
      rintro rfl
      exact beq_false_of_ne fun at_vnet => other (at_vnet ▸ rfl)
    show ((((m, packet) :: s.flow.sentPackets).filter _).map _) = _
    rw [filter_cons_of_neg (by simpa using elsewhere)]
    rfl
  | @setMessages _ m v queue =>
    refine Prod.ext (update_of_ne (fun same => other ?_) ..) rfl
    cases same
    rfl
  | eject _ ejected =>
    obtain ⟨queues, packets⟩ := @Ejected.outbox n vnet _ _ _ _ _ ejected
    exact Prod.ext (congrFun queues _) packets
  | _ => rfl

theorem Updates.outbox {parts : Part → Prop} {s s' : Net} (updates : Updates cfg parts s s')
    (other : ¬ parts (.injection n vnet)) : s'.outbox n vnet = s.outbox n vnet := by
  refine updates.frame fun permitted step => step.outbox fun same => ?_
  subst same
  exact permitted.elim nofun other

end Frame

/-- The packet goes to one controller, at the router of its interface. -/
structure Addressed (cfg : Config) (vnet : Nat) (packet : Packet) : Prop where
  netDest : ∀ m, m ∈ packet.netDest.elems ↔
    m ∈ allMachines cfg.machineCounts ∧ m.nodeID cfg.machineCounts = packet.destNi
  destRouter : ∃ destLink, cfg.getOutportForVnet packet.destNi vnet = some destLink ∧
    packet.destRouter = NetworkInterface.routerID cfg destLink

/-- An interface has made these packets on a virtual network, in this order. -/
structure Serves (cfg : Config) (n vnet : Nat) (s s' : Net) (packets : List Packet) : Prop where
  sent : s'.flow.packetsFrom n vnet = packets.reverse ++ s.flow.packetsFrom n vnet
  addressed : ∀ p ∈ packets, Addressed cfg vnet p

section Serves

variable {cfg : Config} {n vnet : Nat} {s s' s'' : Net}

theorem Serves.nothing (same : s'.flow.packetsFrom n vnet = s.flow.packetsFrom n vnet) : Serves cfg n vnet s s' [] :=
  ⟨same, fun _ none => nomatch none⟩

theorem Serves.trans {first second : List Packet} (before : Serves cfg n vnet s s' first)
    (after : Serves cfg n vnet s' s'' second) : Serves cfg n vnet s s'' (first ++ second) where
  sent := by rw [after.sent, before.sent, reverse_append, append_assoc]
  addressed := fun p made => (mem_append.mp made).elim (before.addressed p) (after.addressed p)

/-- What a step does for the first message of a protocol buffer: it makes packets for the first of its destinations,
for all of them when the message leaves the buffer. -/
def Progress (cfg : Config) (n vnet : Nat) (msg : Message) (rest : List Message) (s s' : Net) : Prop :=
  ∃ packets, Serves cfg n vnet s s' packets ∧
    (s'.flow.inNode (n, vnet) = rest ∧ packets.map Packet.destNi = msg.dests cfg ∨
      ∃ msg', s'.flow.inNode (n, vnet) = msg' :: rest ∧ packets.map Packet.destNi ++ msg'.dests cfg = msg.dests cfg)

variable {msg : Message} {rest : List Message}

theorem Progress.none (queue : s.flow.inNode (n, vnet) = msg :: rest) (same : s'.outbox n vnet = s.outbox n vnet) :
    Progress cfg n vnet msg rest s s' :=
  ⟨[], .nothing (congrArg Prod.snd same), Or.inr ⟨msg, (congrArg Prod.fst same).trans queue, rfl⟩⟩

theorem Progress.congr {u u' : Net} (progress : Progress cfg n vnet msg rest s s')
    (before : s.outbox n vnet = u.outbox n vnet) (after : u'.outbox n vnet = s'.outbox n vnet) :
    Progress cfg n vnet msg rest u u' := by
  obtain ⟨packets, ⟨sent, addressed⟩, left⟩ := progress
  have queue : u'.flow.inNode (n, vnet) = s'.flow.inNode (n, vnet) := congrArg Prod.fst after
  have packetsBefore : s.flow.packetsFrom n vnet = u.flow.packetsFrom n vnet := congrArg Prod.snd before
  have packetsAfter : u'.flow.packetsFrom n vnet = s'.flow.packetsFrom n vnet := congrArg Prod.snd after
  refine ⟨packets, ⟨?_, addressed⟩, ?_⟩
  · rw [packetsAfter, sent, packetsBefore]
  · rw [queue]
    exact left

end Serves

namespace NetworkInterface

variable {cfg : Config} {n vnet t : Nat}

theorem calculateVC_log (l attempts : Nat) (s : Net) :
    (calculateVC cfg n vnet l t attempts s).1.flow.log = s.flow.log := by
  induction attempts generalizing s with
  | zero =>
    unfold calculateVC
    dsimp only
    split <;> rfl
  | succ attempts ih =>
    unfold calculateVC
    dsimp only
    split
    · rfl
    · rw [ih]
      rfl

theorem packetsFrom_congr {s s' : Flow} (same : s'.log = s.log) : s'.packetsFrom n vnet = s.packetsFrom n vnet := by
  rw [Flow.packetsFrom, Flow.sentPackets, same]
  rfl

theorem flitisizeLoop_serves (l size : Nat) (multicast : Bool) {dests : List Nat} {remaining : NetDest} (s : Net)
    (valid : ∀ m ∈ remaining.elems, m ∈ allMachines cfg.machineCounts)
    (several : multicast = true → remaining.getAllDest cfg.machineCounts = dests)
    (single : multicast = false → dests = [] ∨ ∃ d, dests = [d] ∧ remaining.getAllDest cfg.machineCounts = [d]) :
    ∃ packets left, Serves cfg n vnet s (flitisizeLoop cfg n vnet l t size multicast dests remaining s).1 packets ∧
      packets.map Packet.destNi ++ left = dests ∧
      if (flitisizeLoop cfg n vnet l t size multicast dests remaining s).2.2 then left = []
      else (flitisizeLoop cfg n vnet l t size multicast dests remaining s).2.1.getAllDest cfg.machineCounts = left := by
  induction dests generalizing remaining s with
  | nil => exact ⟨[], [], .nothing rfl, rfl, rfl⟩
  | cons dest dests ih =>
    have all : remaining.getAllDest cfg.machineCounts = dest :: dests := by
      cases multicast with
      | true => exact several rfl
      | false =>
        rcases single rfl with none | ⟨d, only, same⟩
        · cases none
        · rw [same, only]
    obtain ⟨m, listed, member, number⟩ : ∃ m ∈ allMachines cfg.machineCounts, m ∈ remaining.elems ∧
        m.nodeID cfg.machineCounts = dest := NetDest.mem_getAllDest.mp (all ▸ mem_cons_self)
    have searched : (calculateVC cfg n vnet l t cfg.vcsPerVnet s).1.flow.packetsFrom n vnet =
        s.flow.packetsFrom n vnet := packetsFrom_congr (calculateVC_log ..)
    unfold flitisizeLoop
    split
    · rename_i found
      rw [found] at searched
      exact ⟨[], dest :: dests, .nothing searched, rfl, all⟩
    · rename_i found _
      rw [found] at searched
      exact ⟨[], dest :: dests, .nothing searched, rfl, all⟩
    · rename_i after vc destLink found destPort
      rw [found] at searched
      have unicast : multicast = false → dests = [] := fun unicast => by
        rcases single unicast with none | ⟨d, only, -⟩
        · cases none
        · exact (List.cons.inj only).2
      have removed : (remaining.removeNetDest (personalDest cfg.machineCounts dest)).getAllDest cfg.machineCounts =
          dests := by
        have distinct := all ▸ remaining.nodup_getAllDest cfg.machineCounts
        rw [← number, getAllDest_remove listed, all, number, filter_cons_of_neg (by simp), filter_eq_self]
        intro d later
        simpa using fun same : d = dest => (nodup_cons.mp distinct).1 (same ▸ later)
      let route := routeTo cfg n vnet l (if multicast then personalDest cfg.machineCounts dest else remaining) dest
        destLink
      let packet := packetOf route size after.flow.clones
      obtain ⟨packets, left, served, split, finished⟩ := @ih
        (if multicast then remaining.removeNetDest (personalDest cfg.machineCounts dest) else remaining)
        { after with
          flow := after.flow.inject n t (l, vc) packet (packetFlits route vc size after.flow.clones t) }
        (fun x present => by
          split at present
          · exact valid x (mem_of_mem_filter present)
          · exact valid x present)
        (fun several => by rw [if_pos several, removed]) (fun single => Or.inl (unicast single))
      have addressed : Addressed cfg vnet packet :=
        ⟨fun x => mem_netDest valid (fun single => by rw [all, unicast single]) ⟨m, listed, number⟩,
          destLink, destPort, rfl⟩
      have made : Serves cfg n vnet s { after with
          flow := after.flow.inject n t (l, vc) packet (packetFlits route vc size after.flow.clones t) } [packet] := by
        refine ⟨?_, fun p only => mem_singleton.mp only ▸ addressed⟩
        rw [← searched]
        show ((((n, packet) :: after.flow.sentPackets).filter _).map _) = _
        rw [filter_cons_of_pos (by simp [packet, packetOf, route, routeTo])]
        rfl
      exact ⟨packet :: packets, left, made.trans served, congrArg (dest :: ·) split, finished⟩

variable {s : Net} {msg : Message} {rest : List Message}

theorem flitisizeMessage_progress (valid : msg.valid cfg = true) (queue : s.flow.inNode (n, vnet) = msg :: rest) :
    Progress cfg n vnet msg rest s (flitisizeMessage cfg n t s vnet) := by
  unfold flitisizeMessage
  rw [queue]
  dsimp only
  split
  · split
    · exact .none queue rfl
    · rename_i l port
      generalize numFlits msg.msgSize ((cfg.links[l]?.map Link.bitWidth).getD 0) = size
      obtain ⟨packets, left, served, split, finished⟩ := @flitisizeLoop_serves cfg n vnet t l size
        (decide (1 < (msg.destination.getAllDest cfg.machineCounts).length)) _ _ s (valid_iff.mp valid) (fun _ => rfl)
        (fun unicast => by
          have short : (msg.destination.getAllDest cfg.machineCounts).length ≤ 1 := by simpa using unicast
          rcases Nat.le_one_iff_eq_zero_or_eq_one.mp short with none | one
          · exact Or.inl (length_eq_zero_iff.mp none)
          · obtain ⟨d, only⟩ := length_eq_one_iff.mp one
            exact Or.inr ⟨d, only, only⟩)
      refine ⟨packets, ⟨served.sent, served.addressed⟩, ?_⟩
      simp only [Flow.setMessages, update_self]
      split at finished
      · rename_i complete
        rw [if_pos complete]
        rw [finished, append_nil] at split
        exact Or.inl ⟨rfl, split⟩
      · rename_i incomplete
        rw [if_neg incomplete]
        refine Or.inr ⟨_, rfl, ?_⟩
        rw [Message.dests, finished]
        exact split
  · exact .none queue rfl

theorem flitisizeMessages_progress {vnets : List Nat} (distinct : vnets.Nodup) (valid : msg.valid cfg = true)
    (queue : s.flow.inNode (n, vnet) = msg :: rest) :
    Progress cfg n vnet msg rest s (vnets.foldl (flitisizeMessage cfg n t) s) := by
  induction vnets generalizing s with
  | nil => exact .none queue rfl
  | cons v vnets ih =>
    obtain ⟨notLater, distinct⟩ := nodup_cons.mp distinct
    rw [foldl_cons]
    by_cases here : v = vnet
    · subst here
      have later : (vnets.foldl (flitisizeMessage cfg n t) (flitisizeMessage cfg n t s v)).outbox n v =
          (flitisizeMessage cfg n t s v).outbox n v := by
        refine (flitisizeMessages_updates n t vnets _).outbox ?_
        rintro ⟨w, later, same⟩
        cases same
        exact notLater later
      exact (flitisizeMessage_progress valid queue).congr rfl later
    · have same : (flitisizeMessage cfg n t s v).outbox n vnet = s.outbox n vnet :=
        (flitisizeMessage_updates v s).outbox fun at_v => here (by cases at_v; rfl)
      exact (ih distinct ((congrArg Prod.fst same).trans queue)).congr same rfl

theorem wakeup_progress (valid : msg.valid cfg = true)
    (queue : s.flow.inNode (n, vnet) = msg :: rest) : Progress cfg n vnet msg rest s (wakeup cfg n t s) := by
  have flitisized : Progress cfg n vnet msg rest s ((List.range cfg.numVnets).foldl (flitisizeMessage cfg n t) s) :=
    flitisizeMessages_progress nodup_range valid queue
  have delivered : (wakeup cfg n t s).outbox n vnet = _ := (delivering_updates n t s).outbox (by
    rintro (output | ejection | credits)
    · cases output
    · cases ejection
    · cases credits)
  exact flitisized.congr rfl delivered

end NetworkInterface

namespace Net

variable {cfg : Config} {n vnet : Nat}

def Waits (cfg : Config) (n vnet : Nat) (s : Net) : Event → Prop
  | .ni m t => m = n → (s.flow.inNode (n, vnet)).length ≤ ((step cfg s (.ni m t)).flow.inNode (n, vnet)).length
  | .protocol m v queue => (m, v) = (n, vnet) → queue.head? = (s.flow.inNode (n, vnet)).head?
  | _ => True

theorem step_ni_progress {s : Net} {msg : Message} {rest : List Message} (valid : msg.valid cfg = true)
    (queue : s.flow.inNode (n, vnet) = msg :: rest) (t : Nat) :
    Progress cfg n vnet msg rest s (step cfg s (.ni n t)) := by
  unfold step
  split
  · dsimp only [wakeAt]
    split
    · have woken : (s.woken (.ni n) t).flow.inNode (n, vnet) = msg :: rest := queue
      exact (NetworkInterface.wakeup_progress valid woken).congr rfl rfl
    · exact .none queue rfl
  · exact .none queue rfl

theorem step_progress {s : Net} {e : Event} {msg : Message} {rest : List Message} (valid : msg.valid cfg = true)
    (queue : s.flow.inNode (n, vnet) = msg :: rest) (waits : Waits cfg n vnet s e) :
    ∃ packets msg' rest', Serves cfg n vnet s (step cfg s e) packets ∧
      (step cfg s e).flow.inNode (n, vnet) = msg' :: rest' ∧
      packets.map Packet.destNi ++ msg'.dests cfg = msg.dests cfg := by
  by_cases touched : e.Touches cfg (.injection n vnet)
  · rcases Event.touches_injection.mp touched with ⟨t, rfl⟩ | ⟨messages, rfl⟩
    · obtain ⟨packets, served, ⟨gone, -⟩ | ⟨msg', still, left⟩⟩ := @step_ni_progress cfg n vnet s msg rest valid queue t
      · have shorter := waits rfl
        rw [gone, queue] at shorter
        exact absurd shorter (by simp)
      · exact ⟨packets, msg', rest, served, still, left⟩
    · have same := waits rfl
      rw [queue, List.head?_cons] at same
      obtain ⟨more, rfl⟩ := List.head?_eq_some_iff.mp same
      unfold step
      split
      · dsimp only
        split
        · exact ⟨[], msg, more, .nothing rfl, update_self .., rfl⟩
        · exact ⟨[], msg, rest, .nothing rfl, queue, rfl⟩
      · exact ⟨[], msg, rest, .nothing rfl, queue, rfl⟩
  · have same : (step cfg s e).outbox n vnet = s.outbox n vnet := (step_updates s e).outbox touched
    exact ⟨[], msg, rest, .nothing (congrArg Prod.snd same), (congrArg Prod.fst same).trans queue, rfl⟩

theorem run_valid (cfg : Config) (events : List Event) (p : Nat × Nat) :
    ∀ msg ∈ (run cfg events).flow.inNode p, msg.valid cfg = true :=
  (run_reachable (follows_true events)).prepared.valid p

theorem run_progress {past events : List Event} {msg : Message} {rest : List Message}
    (first : (run cfg past).flow.inNode (n, vnet) = msg :: rest)
    (waits : ∀ before e, before ++ [e] <+: events → Waits cfg n vnet (run cfg (past ++ before)) e) :
    ∃ packets msg' rest', Serves cfg n vnet (run cfg past) (run cfg (past ++ events)) packets ∧
      (run cfg (past ++ events)).flow.inNode (n, vnet) = msg' :: rest' ∧
      packets.map Packet.destNi ++ msg'.dests cfg = msg.dests cfg := by
  induction events using List.reverseRecOn with
  | nil =>
    rw [append_nil]
    exact ⟨[], msg, rest, .nothing rfl, first, rfl⟩
  | append_singleton events e ih =>
    obtain ⟨packets, msg', rest', served, queue, left⟩ := ih fun before e' within =>
      waits before e' (within.trans (prefix_append ..))
    have valid := run_valid cfg (past ++ events) (n, vnet) msg' (queue ▸ mem_cons_self)
    obtain ⟨more, msg'', rest'', servedMore, queueMore, leftMore⟩ :=
      step_progress valid queue (waits events e prefix_rfl)
    rw [← append_assoc, run_concat]
    refine ⟨packets ++ more, msg'', rest'', served.trans servedMore, queueMore, ?_⟩
    rw [map_append, append_assoc, leftMore, left]

theorem step_sentPackets (s : Net) (e : Event) : s.flow.sentPackets ⊆ (step cfg s e).flow.sentPackets := by
  refine (step_updates s e).relates (P := fun a b => a.flow.sentPackets ⊆ b.flow.sentPackets)
    (fun _ => List.Subset.refl _) List.Subset.trans fun _ step => ?_
  cases step with
  | inject => exact subset_cons_self ..
  | eject _ ejected =>
    cases ejected with
    | nothing | stall => exact List.Subset.refl _
    | eject | unstall =>
      rw [eject_sentPackets]
      exact List.Subset.refl _
  | _ => exact List.Subset.refl _

theorem run_sentPackets (past later : List Event) :
    (run cfg past).flow.sentPackets ⊆ (run cfg (past ++ later)).flow.sentPackets := by
  induction later using List.reverseRecOn with
  | nil =>
    rw [append_nil]
    exact List.Subset.refl _
  | append_singleton later e ih =>
    rw [← append_assoc, run_concat]
    exact List.Subset.trans ih (step_sentPackets _ e)

end Net

theorem multicast_split {cfg : Config} {n vnet t : Nat} {past events : List Event} {msg : Message} {rest : List Message}
    (first : (Net.run cfg past).flow.inNode (n, vnet) = msg :: rest)
    (waits : ∀ before e, before ++ [e] <+: events → Net.Waits cfg n vnet (Net.run cfg (past ++ before)) e)
    (dequeued : ((Net.run cfg (past ++ events ++ [.ni n t])).flow.inNode (n, vnet)).length <
      ((Net.run cfg (past ++ events)).flow.inNode (n, vnet)).length) :
    ∃ packets : List Packet,
      (Net.run cfg (past ++ events ++ [.ni n t])).flow.packetsFrom n vnet =
        packets.reverse ++ (Net.run cfg past).flow.packetsFrom n vnet ∧
      (packets.map Packet.destNi).Nodup ∧
      (∀ d, d ∈ packets.map Packet.destNi ↔ ∃ m ∈ msg.destination.elems, m.nodeID cfg.machineCounts = d) ∧
      ∀ p ∈ packets,
        (∃ m ∈ msg.destination.elems, m.nodeID cfg.machineCounts = p.destNi ∧ ∀ x, x ∈ p.netDest.elems ↔ x = m) ∧
        (∃ destLink, cfg.getOutportForVnet p.destNi vnet = some destLink ∧
          p.destRouter = NetworkInterface.routerID cfg destLink) ∧
        ∀ later x, ∀ f ∈ (Net.run cfg (past ++ events ++ [.ni n t] ++ later)).flow.flitsAt x, f.msgPtr = p.msgPtr →
          f.route.netDest = p.netDest ∧ f.route.destNi = p.destNi ∧ f.route.destRouter = p.destRouter := by
  have validFirst := NetworkInterface.valid_iff.mp (Net.run_valid cfg past (n, vnet) msg (first ▸ mem_cons_self))
  obtain ⟨early, msg', rest', served, queue, left⟩ := Net.run_progress first waits
  have valid := Net.run_valid cfg (past ++ events) (n, vnet) msg' (queue ▸ mem_cons_self)
  obtain ⟨late, servedLast, finished⟩ := @Net.step_ni_progress cfg n vnet _ msg' rest' valid queue t
  rw [← Net.run_concat] at servedLast finished
  have all : (early ++ late).map Packet.destNi = msg.dests cfg := by
    rcases finished with ⟨-, gone⟩ | ⟨msg'', still, -⟩
    · rw [map_append, gone, left]
    · rw [still, queue] at dequeued
      exact absurd dequeued (by simp)
  have together := served.trans servedLast
  have destination : ∀ d, d ∈ msg.dests cfg ↔ ∃ m ∈ msg.destination.elems, m.nodeID cfg.machineCounts = d := by
    intro d
    rw [Message.dests, NetDest.mem_getAllDest]
    exact ⟨fun ⟨m, _, member, number⟩ => ⟨m, member, number⟩,
      fun ⟨m, member, number⟩ => ⟨m, validFirst m member, member, number⟩⟩
  refine ⟨early ++ late, together.sent, ?_, ?_, fun p made => ⟨?_, (together.addressed p made).destRouter, ?_⟩⟩
  · rw [all]
    exact msg.destination.nodup_getAllDest cfg.machineCounts
  · rw [all]
    exact destination
  · obtain ⟨m, member, number⟩ := (destination p.destNi).mp (all ▸ mem_map_of_mem made)
    refine ⟨m, member, number, fun x => ?_⟩
    rw [(together.addressed p made).netDest]
    constructor
    · rintro ⟨listed, same⟩
      exact nodeID_inj listed (validFirst m member) (same.trans number.symm)
    · rintro rfl
      exact ⟨validFirst x member, number⟩
  · intro later x f present same
    have sent : p ∈ (Net.run cfg (past ++ events ++ [.ni n t])).flow.packetsFrom n vnet := by
      rw [together.sent]
      exact mem_append_left _ (mem_reverse.mpr made)
    obtain ⟨entry, listed, rfl⟩ := mem_map.mp sent
    have kept := Net.run_sentPackets _ later (mem_of_mem_filter listed)
    have packet := (Net.run_reachable (Net.follows_true _)).packet_eq present (mem_map_of_mem kept) same
    rw [← packet]
    exact ⟨rfl, rfl, rfl⟩

def toBoth : Message := ⟨64, (NetDest.empty.add ⟨0, 0⟩).add ⟨0, 1⟩, 0⟩

/-- The first attempt finds a virtual channel for interface 0 only, the second one none. -/
def twoAttempts : List Event :=
  [.ni 0 0, .link 0 500, .router 0 1000 fun _ => {}, .creditLink 0 1500, .ni 0 2000]

theorem multicast_split_retried :
    ∃ packets : List Packet,
      (Net.run narrowPair ([.protocol 0 0 [toBoth]] ++ twoAttempts ++ [.ni 0 2500])).flow.packetsFrom 0 0 =
        packets.reverse ∧
      (packets.map Packet.destNi).Nodup ∧
      ∀ d, d ∈ packets.map Packet.destNi ↔ ∃ m ∈ toBoth.destination.elems, m.nodeID narrowPair.machineCounts = d := by
  have waits : ∀ before e, before ++ [e] <+: twoAttempts →
      Net.Waits narrowPair 0 0 (Net.run narrowPair ([.protocol 0 0 [toBoth]] ++ before)) e := by
    refine Net.forall_prefix fun k below => ?_
    have short : k < 5 := below
    interval_cases k
    · exact fun _ => by decide +kernel
    · trivial
    · trivial
    · trivial
    · exact fun _ => by decide +kernel
  obtain ⟨packets, made, distinct, destination, -⟩ := @multicast_split narrowPair 0 0 2500 [.protocol 0 0 [toBoth]]
    twoAttempts toBoth [] (by decide +kernel) waits (by decide +kernel)
  exact ⟨packets, made.trans (append_nil _), distinct, destination⟩

end Resister.Garnet
