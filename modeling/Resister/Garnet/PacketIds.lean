import Resister.Garnet.Places
import Resister.Garnet.Multicast
import Resister.Garnet.NetworkBridge

/-!
# Packet identification

`flitisizeMessage` asks for a new packet id and hands it to the constructor of every flit of the
packet.
-/

namespace Resister.Garnet

open Library List Function

/-- The flits in flight tell the packets apart by the ids that `getNextPacketID` gave to them. -/
structure Flow.Identified (s : Flow) : Prop where
  same : ∀ x y, x ≠ .ejected → y ≠ .ejected → ∀ f ∈ s.flitsAt x, ∀ g ∈ s.flitsAt y,
    f.packetId = g.packetId → f.packet = g.packet
  given : ∀ x, x ≠ .ejected → ∀ f ∈ s.flitsAt x, f.packetId = f.msgPtr

variable {cfg : Config} {R : Nat → Flit → RouteInfo → Nat → Prop} {s s' : Flow}

theorem Act.packetId_eq_id (act : Act cfg R s s') (before : ∀ x, ∀ f ∈ s.flitsAt x, f.packetId = f.id) :
    ∀ x, ∀ f ∈ s'.flitsAt x, f.packetId = f.id := by
  have moved : ∀ {x y f g}, Moves s s' x y f g → g.packetId = f.packetId → g.id = f.id →
      ∀ z, ∀ h ∈ s'.flitsAt z, h.packetId = h.id := by
    intro x y f g moves packetId id z h present
    rcases moves.mem present with stayed | ⟨-, rfl⟩
    · exact before z h stayed
    · rw [packetId, id]
      exact before x f moves.mem_source
  cases act with
  | link top time => exact moved (traverse_moves top time) rfl rfl
  | receive _ _ top _ same => exact moved (receive_moves top same) rfl rfl
  | grant _ _ top => exact moved (grant_moves top) rfl rfl
  | cross top _ time => exact moved (cross_moves top time) rfl rfl
  | send _ _ top _ _ time => exact moved (send_moves top time) rfl rfl
  | eject _ top => exact moved (eject_moves top) rfl rfl
  | stall _ top => exact moved (stall_moves top) rfl rfl
  | unstall _ queue => exact moved (unstall_moves queue) rfl rfl
  | @inject n t l vc size route =>
    intro z h present
    by_cases here : z = .source (l, vc)
    · subst here
      rw [inject_source] at present
      rcases mem_append.mp present with old | new
      · exact before _ h old
      · obtain ⟨i, -, rfl⟩ := mem_map.mp new
        rfl
    · rw [inject_others here] at present
      exact before z h present
  | _ => exact fun z h present => before z h (by cases z <;> exact present)

theorem Reachable.packetId_eq_id (reached : Reachable cfg R s) : ∀ x, ∀ f ∈ s.flitsAt x, f.packetId = f.id := by
  induction reached with
  | init => exact fun x f present => by cases x <;> cases present
  | wake _ _ ih => exact ih
  | act _ act ih => exact act.packetId_eq_id ih

theorem Reachable.identified (reached : Reachable cfg R s)
    (single : ∀ sent ∈ s.sentPackets, sent.2.size ≠ 0 → sent.2.msgPtr = 0 ∧ sent.2.size = 1) : s.Identified := by
  have made := reached.exclusive.1.sound
  have first : ∀ x, ∀ f ∈ s.flitsAt x, f.packetId = f.msgPtr ∧ f.msgPtr = 0 := by
    intro x f present
    obtain ⟨listed, below⟩ := made x f.key (mem_map_of_mem present)
    obtain ⟨sent, member, same⟩ := mem_map.mp listed
    have length : f.id < f.size := below
    have whole : sent.2.size = f.size ∧ sent.2.msgPtr = f.msgPtr := by
      rw [same]
      exact ⟨rfl, rfl⟩
    have := single sent member (by omega)
    have number := reached.packetId_eq_id x f present
    omega
  refine ⟨fun x y _ _ f atX g atY _ => ?_, fun x _ f present => (first x f present).1⟩
  have packet := (made y g.key (mem_map_of_mem atY)).1
  exact reached.packet_eq atX packet ((first x f atX).2.trans (first y g atY).2.symm)

/-- The flits that an interface can take out of the network in a wakeup, and those that were taken out. -/
def Flow.Arrived (s : Flow) (f : Flit) : Prop :=
  (∃ l, f ∈ s.linkBuffer l) ∨ (∃ l, f ∈ s.stallQueue l) ∨ f ∈ s.flitsAt .ejected

theorem Flow.Arrived.present {f : Flit} (arrived : s.Arrived f) : ∃ x, f ∈ s.flitsAt x := by
  rcases arrived with ⟨l, present⟩ | ⟨l, present⟩ | present
  · exact ⟨.link l, present⟩
  · exact ⟨.stalled l, present⟩
  · exact ⟨.ejected, present⟩

theorem Updates.arrived {parts : Part → Prop} {s s' : Net} (updates : Updates cfg parts s s')
    (elsewhere : ∀ l, ¬parts (.link l) ∧ ¬parts (.input l) ∧ ¬parts (.switch l) ∧ ¬parts (.ejection l)) (f : Flit) :
    s'.flow.Arrived f ↔ s.flow.Arrived f := by
  have same : s'.flow.Arrived f = s.flow.Arrived f := by
    refine updates.frame (v := fun s => s.flow.Arrived f) fun permitted step => ?_
    cases step with
    | @traverse _ l => exact (permitted.elim nofun (elsewhere l).1).elim
    | @traverseCredit _ l => exact (permitted.elim nofun (elsewhere l).1).elim
    | @receive _ l => exact (permitted.elim nofun (elsewhere l).2.1).elim
    | @assertAllocation _ r => exact (permitted.elim nofun (elsewhere r).2.2.1).elim
    | @grant _ r => exact (permitted.elim nofun (elsewhere r).2.2.1).elim
    | @cross _ r => exact (permitted.elim nofun (elsewhere r).2.2.1).elim
    | @eject _ n => exact (permitted.elim nofun (elsewhere n).2.2.2).elim
    | inject t c flits =>
      unfold Flow.Arrived
      rw [inject_others (z := .ejected) nofun]
      rfl
    | _ => rfl
  rw [same]

namespace NetworkInterface

variable {n t : Nat} {f : Flit}

theorem checkStallQueue_arrived {s : Net} {l : Nat} (arrived : (checkStallQueue n t s l).flow.Arrived f) :
    s.flow.Arrived f := by
  unfold checkStallQueue at arrived
  dsimp only at arrived
  split at arrived
  · exact arrived
  · rename_i g rest left
    have whole := takeWhile_append_dropWhile (p := fun f => !slotAvailable s n f.vnet t) (l := s.flow.stallQueue l)
    rw [left] at whole
    rcases arrived with ⟨k, present⟩ | ⟨k, present⟩ | present
    · exact Or.inl ⟨k, present⟩
    · refine Or.inr (Or.inl ⟨k, ?_⟩)
      by_cases here : k = l
      · subst here
        simp only [Flow.eject, Flow.unstall, update_self] at present
        rw [← whole]
        rcases mem_append.mp present with blocked | later
        · exact mem_append_left _ blocked
        · exact mem_append_right _ (mem_cons_of_mem _ later)
      · simpa [Flow.eject, Flow.unstall, here] using present
    · rw [eject_ejected] at present
      rcases mem_append.mp present with old | taken
      · exact Or.inr (Or.inr old)
      · rw [mem_singleton.mp taken]
        refine Or.inr (Or.inl ⟨l, ?_⟩)
        rw [← whole]
        exact mem_append_right _ mem_cons_self

theorem checkInLink_arrived {s : Net} {l : Nat} (arrived : (checkInLink n t s l).flow.Arrived f) :
    s.flow.Arrived f := by
  unfold checkInLink at arrived
  split at arrived
  · exact arrived
  rename_i g rest top
  have rest_mem : ∀ {k}, f ∈ update s.flow.linkBuffer l rest k → f ∈ s.flow.linkBuffer k := by
    intro k present
    by_cases here : k = l
    · subst here
      rw [update_self] at present
      rw [top]
      exact mem_cons_of_mem _ present
    · rwa [update_of_ne here] at present
  have taken : ((s.flow.consume l rest).eject n l t g).Arrived f → s.flow.Arrived f := by
    rintro (⟨k, present⟩ | ⟨k, present⟩ | present)
    · exact Or.inl ⟨k, rest_mem present⟩
    · exact Or.inr (Or.inl ⟨k, present⟩)
    · rw [eject_ejected] at present
      rcases mem_append.mp present with old | here
      · exact Or.inr (Or.inr old)
      · rw [mem_singleton.mp here]
        exact Or.inl ⟨l, by rw [top]; exact mem_cons_self⟩
  split at arrived
  · split at arrived
    · split at arrived
      · exact taken arrived
      · rcases arrived with ⟨k, present⟩ | ⟨k, present⟩ | present
        · exact Or.inl ⟨k, rest_mem present⟩
        · by_cases here : k = l
          · subst here
            simp only [Flow.stall, update_self] at present
            rcases mem_append.mp present with old | moved
            · exact Or.inr (Or.inl ⟨k, old⟩)
            · rw [mem_singleton.mp moved]
              exact Or.inl ⟨k, by rw [top]; exact mem_cons_self⟩
          · refine Or.inr (Or.inl ⟨k, ?_⟩)
            simpa [Flow.stall, here] using present
        · exact Or.inr (Or.inr present)
    · exact taken arrived
  · exact arrived

theorem foldl_arrived {body : Net → Nat → Net} (each : ∀ s l, (body s l).flow.Arrived f → s.flow.Arrived f)
    (ports : List Nat) {s : Net} (arrived : (ports.foldl body s).flow.Arrived f) : s.flow.Arrived f := by
  induction ports generalizing s with
  | nil => exact arrived
  | cons l ports ih => exact each s l (ih arrived)

theorem wakeup_arrived {s : Net} (arrived : (wakeup cfg n t s).flow.Arrived f) : s.flow.Arrived f := by
  unfold wakeup at arrived
  dsimp only at arrived
  rw [(credits_updates n t _).arrived (by simp)] at arrived
  have ejected := foldl_arrived (fun s l => checkInLink_arrived) _ arrived
  have unstalled := foldl_arrived (fun s l => checkStallQueue_arrived) _ ejected
  rw [(scheduleOutputPorts_updates n t _ _).arrived (by simp),
    (flitisizeMessages_updates n t _ _).arrived (by simp)] at unstalled
  exact unstalled

end NetworkInterface

namespace Net

theorem step_sentPackets_eq {s : Net} {e : Event} (other : ∀ n t, e ≠ .ni n t) :
    (step cfg s e).flow.sentPackets = s.flow.sentPackets := by
  cases e with
  | protocol n vnet queue =>
    unfold step
    dsimp only
    split
    · split <;> rfl
    · rfl
  | _ =>
    refine (step_updates s _).frame (v := fun s => s.flow.sentPackets) fun permitted step => ?_
    cases step with
    | inject =>
      have touched := Event.touches_injection.mp (permitted.resolve_left nofun)
      simp [other] at touched
    | eject _ ejected =>
      cases ejected with
      | nothing | stall => rfl
      | eject | unstall =>
        rw [eject_sentPackets]
        rfl
    | _ => rfl

theorem step_in_flight {s : Net} {e : Event} (before : Reachable cfg R s.flow)
    (after : Reachable cfg R (step cfg s e).flow) {k : Packet × Nat} (new : (step cfg s e).flow.Created k)
    (fresh : ¬s.flow.Created k) : ∃ x, x ≠ .ejected ∧ k ∈ (step cfg s e).flow.keysAt x := by
  obtain ⟨x, present⟩ := after.exclusive.1.complete k new
  refine ⟨x, ?_, present⟩
  rintro rfl
  obtain ⟨f, taken, same⟩ := mem_map.mp present
  have arrived : s.flow.Arrived f := by
    by_cases interface : ∃ n t, e = .ni n t
    · obtain ⟨n, t, rfl⟩ := interface
      have left : (step cfg s (.ni n t)).flow.Arrived f := Or.inr (Or.inr taken)
      unfold step wakeAt at left
      dsimp only at left
      split at left
      · split at left
        · exact NetworkInterface.wakeup_arrived (s := s.woken (.ni n) t) left
        · exact left
      · exact left
    · have packets : (step cfg s e).flow.sentPackets = s.flow.sentPackets :=
        step_sentPackets_eq fun n t same => interface ⟨n, t, same⟩
      exact absurd ((Flow.created_congr packets k).mp new) fresh
  obtain ⟨z, there⟩ := arrived.present
  exact fresh (same ▸ before.exclusive.1.sound z f.key (mem_map_of_mem there))

theorem single_of_identified {events : List Event}
    (identified : ∀ before, before <+: events → (run cfg before).flow.Identified) :
    ∀ packet ∈ (run cfg events).flow.sentPackets.map Prod.snd, packet.size ≠ 0 →
      packet.msgPtr = 0 ∧ packet.size = 1 := by
  induction events using List.reverseRecOn with
  | nil => exact fun packet made => nomatch made
  | append_singleton events e ih =>
    have earlier := ih fun before within => identified before (within.trans (prefix_append ..))
    intro packet made nonempty
    by_cases old : packet ∈ (run cfg events).flow.sentPackets.map Prod.snd
    · exact earlier packet old nonempty
    have reached : Reachable cfg (fun _ _ _ _ => True) (run cfg (events ++ [e])).flow := run_reachable (follows_true _)
    have here := identified _ prefix_rfl
    -- The flits are in flight, each with its own number as the packet's id.
    have number : ∀ i, i < packet.size → packet.msgPtr = i := by
      intro i below
      have found := step_in_flight (run_reachable (follows_true events)) (run_concat cfg events e ▸ reached)
        (k := (packet, i)) (run_concat cfg events e ▸ ⟨made, below⟩) fun created => old created.1
      rw [← run_concat] at found
      obtain ⟨x, inFlight, present⟩ := found
      obtain ⟨f, listed, same⟩ := mem_map.mp present
      have id : f.id = i := congrArg Prod.snd same
      have pointer : f.msgPtr = packet.msgPtr := congrArg (fun k => k.1.msgPtr) same
      rw [← pointer, ← here.given x inFlight f listed, reached.packetId_eq_id x f listed, id]
    have first := number 0 (by omega)
    refine ⟨first, ?_⟩
    by_contra several
    have second := number 1 (by omega)
    omega

end Net

namespace BridgeFlit

variable {f g : BridgeFlit} {i w : Nat}

theorem serialize_some (done : f.serialize i w = some g) :
    w < f.width ∧ f.id * ((f.width + w - 1) / w) + i < floatDivCeil f.msgSize w ∧
      g.packetId = f.id * ((f.width + w - 1) / w) + i := by
  unfold serialize at done
  split at done
  · rename_i narrower
    dsimp only at done
    split at done
    · rename_i below
      cases done
      exact ⟨narrower, below, rfl⟩
    · cases done
  · cases done

theorem deserialize_some (done : f.deserialize w = some g) : g.packetId < floatDivCeil f.msgSize w := by
  unfold deserialize at done
  dsimp only at done
  split at done
  · rename_i below
    cases done
    exact below
  · cases done

theorem serialize_identified_iff (first : f.id = 0) (zero : f.msgPtr = 0) (narrower : w < f.width) :
    (∀ i g, f.serialize i w = some g → g.packetId = f.msgPtr) ↔ floatDivCeil f.msgSize w ≤ 1 := by
  constructor
  · intro identified
    by_contra several
    have made : f.serialize 1 w = some (f.rebuild 1 (floatDivCeil f.msgSize w) w) := by
      unfold serialize
      rw [if_pos narrower]
      dsimp only
      rw [first, Nat.zero_mul, Nat.zero_add, if_pos (by omega)]
    have wrong : 1 = f.msgPtr := identified 1 _ made
    omega
  · intro whole i g done
    obtain ⟨-, below, id⟩ := serialize_some done
    omega

end BridgeFlit

/-- In a run the packet ids identify the packets of the flits in flight exactly if the only packet is the one with
id zero and has one flit. A bridge that serialises it keeps the id exactly if it makes one part of it. -/
theorem packet_ids_identify (cfg : Config) (events : List Event) :
    ((∀ before, before <+: events → (Net.run cfg before).flow.Identified) ↔
      ∀ sent ∈ (Net.run cfg events).flow.sentPackets, sent.2.size ≠ 0 → sent.2.msgPtr = 0 ∧ sent.2.size = 1) ∧
    ∀ (f : BridgeFlit) (w : Nat), f.id = 0 → f.msgPtr = 0 →
      (w < f.width → ((∀ i g, f.serialize i w = some g → g.packetId = f.msgPtr) ↔ floatDivCeil f.msgSize w ≤ 1)) ∧
      (floatDivCeil f.msgSize w ≤ 1 → ∀ g, f.deserialize w = some g → g.packetId = f.msgPtr) := by
  refine ⟨⟨fun identified sent listed => ?_, fun single before within => ?_⟩, fun f w first zero => ⟨?_, ?_⟩⟩
  · exact Net.single_of_identified identified sent.2 (mem_map_of_mem listed)
  · obtain ⟨later, rfl⟩ := within
    exact (Net.run_reachable (Net.follows_true before)).identified fun sent listed =>
      single sent (Net.run_sentPackets before later listed)
  · exact BridgeFlit.serialize_identified_iff first zero
  · intro whole g done
    have below := BridgeFlit.deserialize_some done
    omega

/-- A message for both interfaces becomes two packets of one flit, and both flits carry the id zero. -/
theorem packet_ids_shared :
    (Net.run twoVnets [.protocol 0 0 [toBoth], .ni 0 0]).flow.faults = [] ∧
      ((Net.run twoVnets [.protocol 0 0 [toBoth], .ni 0 0]).flow.flitsAt (.output 0)).map
        (fun f => (f.packetId, f.msgPtr)) = [(0, 1)] ∧
      ((Net.run twoVnets [.protocol 0 0 [toBoth], .ni 0 0]).flow.flitsAt (.source (0, 0))).map
        (fun f => (f.packetId, f.msgPtr)) = [(0, 0)] := by
  decide +kernel

end Resister.Garnet
