import Resister.Garnet.Ejection
import Resister.Garnet.Places
import Resister.Garnet.NetworkBridge

/-!
# Functional accesses

`functionalRead` and `functionalWrite` of a network, of its routers, interfaces, links and bridges,
and of the buffers in them.
-/

namespace Resister.Garnet

open List

open Function (update)

/-- An access to the message objects. `message` is what `Message::functionalRead` or `functionalWrite` does, `zero`
and `plus` make up the result of a loop. -/
structure Access (σ ρ : Type) where
  message : Nat → σ → ρ × σ
  zero : ρ
  plus : ρ → ρ → ρ

namespace Access

variable {σ ρ : Type}

def reading (read : Nat → σ → Bool × σ) : Access σ Bool := ⟨read, false, or⟩

def writing (write : Nat → σ → Bool × σ) : Access σ UInt32 :=
  ⟨fun m s => let r := write m s; (if r.1 then 1 else 0, r.2), 0, (· + ·)⟩

variable (a : Access σ ρ)

def all (parts : List (σ → ρ × σ)) (s : σ) : ρ × σ :=
  parts.foldl (fun acc part => let r := part acc.2; (a.plus acc.1 r.1, r.2)) (a.zero, s)

def flitBuffer (buffer : List Flit) : σ → ρ × σ := a.all (buffer.map fun f => a.message f.msgPtr)

variable (cfg : Config) (s : Flow)

def crossbarSwitch (r : Nat) : σ → ρ × σ :=
  a.all ((cfg.inLinks (.router r)).map fun l => a.flitBuffer (s.switchBuffer l))

def inputUnit (l : Nat) : σ → ρ × σ :=
  a.all ((List.range cfg.numVcs).map fun vc => a.flitBuffer (s.virtualChannels (l, vc)).inputBuffer)

def outputUnit (l : Nat) : σ → ρ × σ := a.flitBuffer (s.outQueue l)

def router (r : Nat) : σ → ρ × σ :=
  a.all ([a.crossbarSwitch cfg s r] ++ (cfg.inLinks (.router r)).map (a.inputUnit cfg s) ++
    (cfg.outLinks (.router r)).map (a.outputUnit s))

/-- The output virtual channels of an interface, as pairs with the link of their port. -/
def niOutVcs (n : Nat) : List (Nat × Nat) :=
  (List.range cfg.numVcs).filterMap fun vc => (cfg.getOutportForVnet n (cfg.vnetOf vc)).map fun l => (l, vc)

def networkInterface (n : Nat) : σ → ρ × σ :=
  a.all ((niOutVcs cfg n).map (fun c => a.flitBuffer (s.niOutVcs c)) ++
    (cfg.outLinks (.ni n)).map fun l => a.flitBuffer (s.outQueue l))

def networkLink (l : Nat) : σ → ρ × σ := a.flitBuffer (s.linkBuffer l)

def networkBridge (b : NetworkBridge) : σ → ρ × σ :=
  a.flitBuffer ((b.linkBuffer.filterMap Traffic.flit?).map BridgeFlit.toFlit)

end Access

/-- The elements of `m_routers`, `m_nis`, `m_networklinks` and `m_networkbridges`. -/
inductive NetworkPart where
  | router (r : Nat)
  | ni (n : Nat)
  | link (l : Nat)
  | bridge (b : Nat)
  deriving DecidableEq, Repr

def LinkEnd.Listed (routers nis : List Nat) : LinkEnd → Prop
  | router r => r ∈ routers
  | ni n => n ∈ nis

instance (routers nis : List Nat) (e : LinkEnd) : Decidable (e.Listed routers nis) := by
  cases e <;> exact inferInstanceAs (Decidable (_ ∈ _))

structure GarnetNetwork where
  cfg : Config
  flow : Flow
  bridges : List NetworkBridge
  routers : List Nat
  nis : List Nat
  ends_listed : ∀ link ∈ cfg.links, link.source.Listed routers nis ∧ link.sink.Listed routers nis

namespace GarnetNetwork

variable {σ ρ : Type} (g : GarnetNetwork)

def access (a : Access σ ρ) : NetworkPart → σ → ρ × σ
  | .router r => a.router g.cfg g.flow r
  | .ni n => a.networkInterface g.cfg g.flow n
  | .link l => a.networkLink g.flow l
  | .bridge b => a.all (g.bridges[b]?.toList.map a.networkBridge)

def writeParts : List NetworkPart :=
  g.routers.map .router ++ g.nis.map .ni ++ (List.range g.cfg.links.length).map .link

def readParts : List NetworkPart :=
  g.routers.map .router ++ g.nis.map .ni ++ (List.range g.cfg.links.length).map .link ++
    (List.range g.bridges.length).map .bridge

/-- `functionalRead`, when `read` is what it is for a message object; `σ` has the packet and the mask. -/
def functionalRead (read : Nat → σ → Bool × σ) : σ → Bool × σ :=
  let a := Access.reading read
  a.all (g.readParts.map (g.access a))

/-- `functionalWrite`, when `write` is what it is for a message object; `σ` has the message objects. -/
def functionalWrite (write : Nat → σ → Bool × σ) : σ → UInt32 × σ :=
  let a := Access.writing write
  a.all (g.writeParts.map (g.access a))

def noted (m : Nat) (seen : List Nat) : Bool × List Nat := (true, seen ++ [m])

def readMessages : List Nat := (g.functionalRead noted []).2

def writtenMessages : List Nat := (g.functionalWrite noted []).2

end GarnetNetwork

def Place.Exists (cfg : Config) : Place → Prop
  | .source c => c.2 < cfg.numVcs ∧ ∃ n, cfg.getOutportForVnet n (cfg.vnetOf c.2) = some c.1
  | .switch l => cfg.intoRouter l = true
  | .output l => l < cfg.links.length
  | .link l => l < cfg.links.length
  | .channel c => cfg.intoRouter c.1 = true ∧ c.2 < cfg.numVcs
  | .stalled l => ∃ n, cfg.sink l = some (.ni n)
  | .ejected => False

theorem Config.source_lt {cfg : Config} {l : Nat} {e : LinkEnd} (source : cfg.source l = some e) :
    l < cfg.links.length := by
  obtain ⟨link, found, -⟩ := Option.map_eq_some_iff.mp source
  exact (List.getElem?_eq_some_iff.mp found).1

def Flow.messagesAt (s : Flow) (x : Place) : List Nat := (s.flitsAt x).map Flit.msgPtr

namespace GarnetNetwork

variable (g : GarnetNetwork)

def RestsIn (m : Nat) (x : Place) : Prop := x.Exists g.cfg ∧ m ∈ g.flow.messagesAt x

def InBridge (m : Nat) : Prop :=
  ∃ b ∈ g.bridges, ∃ f : BridgeFlit, Traffic.flit f ∈ b.linkBuffer ∧ f.msgPtr = m

def Holds (m : Nat) : Prop := (∃ x, g.RestsIn m x) ∨ g.InBridge m

end GarnetNetwork

def Notes {ρ : Type} (part : List Nat → ρ × List Nat) (messages : List Nat) : Prop :=
  ∀ seen, (part seen).2 = seen ++ messages

namespace Access

variable {ρ : Type} {a : Access (List Nat) ρ} {α : Type}

theorem notes_all {parts : List (List Nat → ρ × List Nat)} {noted : List (List Nat)}
    (each : List.Forall₂ Notes parts noted) : Notes (a.all parts) noted.flatten := by
  intro seen
  suffices general : ∀ start : ρ × List Nat,
      (parts.foldl (fun acc part => let r := part acc.2; (a.plus acc.1 r.1, r.2)) start).2 = start.2 ++ noted.flatten
    from general (a.zero, seen)
  induction each with
  | nil => simp
  | cons first _ ih =>
    intro start
    rw [foldl_cons, ih, first, flatten_cons, append_assoc]

theorem notes_map {part : α → List Nat → ρ × List Nat} {noted : α → List Nat} (each : ∀ x, Notes (part x) (noted x))
    (xs : List α) : List.Forall₂ Notes (xs.map part) (xs.map noted) := by
  rw [List.forall₂_map_left_iff, List.forall₂_map_right_iff]
  exact List.forall₂_same.mpr fun x _ => each x

theorem notes_all_map {part : α → List Nat → ρ × List Nat} {noted : α → List Nat}
    (each : ∀ x, Notes (part x) (noted x)) (xs : List α) : Notes (a.all (xs.map part)) (xs.flatMap noted) :=
  notes_all (notes_map each xs)

section Parts

variable (notes : ∀ m, Notes (a.message m) [m]) (cfg : Config) (s : Flow)

include notes

theorem notes_flitBuffer (buffer : List Flit) : Notes (a.flitBuffer buffer) (buffer.map Flit.msgPtr) := by
  have each := notes_all_map (a := a) (fun f : Flit => notes f.msgPtr) buffer
  rwa [← map_eq_flatMap] at each

theorem notes_router (r : Nat) :
    Notes (a.router cfg s r)
      ((cfg.inLinks (.router r)).flatMap (fun l => s.messagesAt (.switch l)) ++
        (cfg.inLinks (.router r)).flatMap (fun l =>
          (List.range cfg.numVcs).flatMap fun vc => s.messagesAt (.channel (l, vc))) ++
        (cfg.outLinks (.router r)).flatMap fun l => s.messagesAt (.output l)) := by
  have crossbar : Notes (a.crossbarSwitch cfg s r) ((cfg.inLinks (.router r)).flatMap fun l => s.messagesAt (.switch l)) :=
    notes_all_map (fun l => notes_flitBuffer notes (s.switchBuffer l)) _
  have input : ∀ l, Notes (a.inputUnit cfg s l)
      ((List.range cfg.numVcs).flatMap fun vc => s.messagesAt (.channel (l, vc))) :=
    fun l => notes_all_map (fun vc => notes_flitBuffer notes (s.virtualChannels (l, vc)).inputBuffer) _
  have output : ∀ l, Notes (a.outputUnit s l) (s.messagesAt (.output l)) :=
    fun l => notes_flitBuffer notes (s.outQueue l)
  have inputs := notes_map input (cfg.inLinks (.router r))
  have outputs := notes_map output (cfg.outLinks (.router r))
  have whole := notes_all (a := a) (rel_append (rel_append (.cons crossbar .nil) inputs) outputs)
  simp only [flatten_append, flatten_cons, flatten_nil, append_nil, ← flatMap_def] at whole
  exact whole

theorem notes_networkInterface (n : Nat) :
    Notes (a.networkInterface cfg s n)
      ((niOutVcs cfg n).flatMap (fun c => s.messagesAt (.source c)) ++
        (cfg.outLinks (.ni n)).flatMap fun l => s.messagesAt (.output l)) := by
  have channels := notes_map (fun c => notes_flitBuffer notes (s.niOutVcs c)) (niOutVcs cfg n)
  have queues := notes_map (fun l => notes_flitBuffer notes (s.outQueue l)) (cfg.outLinks (.ni n))
  have whole := notes_all (a := a) (rel_append channels queues)
  simp only [flatten_append, ← flatMap_def] at whole
  exact whole

end Parts

end Access

namespace GarnetNetwork

variable (g : GarnetNetwork)

def bridgeMessages (b : NetworkBridge) : List Nat :=
  ((b.linkBuffer.filterMap Traffic.flit?).map BridgeFlit.toFlit).map Flit.msgPtr

def messagesOf : NetworkPart → List Nat
  | .router r =>
    (g.cfg.inLinks (.router r)).flatMap (fun l => g.flow.messagesAt (.switch l)) ++
      (g.cfg.inLinks (.router r)).flatMap (fun l =>
        (List.range g.cfg.numVcs).flatMap fun vc => g.flow.messagesAt (.channel (l, vc))) ++
      (g.cfg.outLinks (.router r)).flatMap fun l => g.flow.messagesAt (.output l)
  | .ni n =>
    (Access.niOutVcs g.cfg n).flatMap (fun c => g.flow.messagesAt (.source c)) ++
      (g.cfg.outLinks (.ni n)).flatMap fun l => g.flow.messagesAt (.output l)
  | .link l => g.flow.messagesAt (.link l)
  | .bridge b => g.bridges[b]?.toList.flatMap bridgeMessages

theorem notes_access {ρ : Type} {a : Access (List Nat) ρ} (notes : ∀ m, Notes (a.message m) [m]) (part : NetworkPart) :
    Notes (g.access a part) (g.messagesOf part) := by
  cases part with
  | router r => exact Access.notes_router notes g.cfg g.flow r
  | ni n => exact Access.notes_networkInterface notes g.cfg g.flow n
  | link l => exact Access.notes_flitBuffer notes (g.flow.linkBuffer l)
  | bridge b => exact Access.notes_all_map (fun b => Access.notes_flitBuffer notes _) _

theorem readMessages_eq : g.readMessages = g.readParts.flatMap g.messagesOf := by
  have notes : ∀ m, Notes ((Access.reading noted).message m) [m] := fun m seen => rfl
  exact Access.notes_all_map (g.notes_access notes) g.readParts []

theorem writtenMessages_eq : g.writtenMessages = g.writeParts.flatMap g.messagesOf := by
  have notes : ∀ m, Notes ((Access.writing noted).message m) [m] := fun m seen => rfl
  exact Access.notes_all_map (g.notes_access notes) g.writeParts []

variable {g} {m : Nat}

theorem router_listed {l r : Nat} (at_end : g.cfg.source l = some (.router r) ∨ g.cfg.sink l = some (.router r)) :
    r ∈ g.routers := by
  rcases at_end with source | sink
  · obtain ⟨link, found, same⟩ := Option.map_eq_some_iff.mp source
    have listed := (g.ends_listed link (mem_of_getElem? found)).1
    rwa [same] at listed
  · obtain ⟨link, found, same⟩ := Option.map_eq_some_iff.mp sink
    have listed := (g.ends_listed link (mem_of_getElem? found)).2
    rwa [same] at listed

theorem ni_listed {l n : Nat} (source : g.cfg.source l = some (.ni n)) : n ∈ g.nis := by
  obtain ⟨link, found, same⟩ := Option.map_eq_some_iff.mp source
  have listed := (g.ends_listed link (mem_of_getElem? found)).1
  rwa [same] at listed

theorem visited_of_restsIn {x : Place} (rests : g.RestsIn m x) (moving : ∀ l, x ≠ .stalled l) :
    ∃ part ∈ g.writeParts, m ∈ g.messagesOf part := by
  obtain ⟨present, here⟩ := rests
  simp only [writeParts, mem_append, mem_map, mem_range]
  cases x with
  | source c =>
    obtain ⟨below, n, port⟩ := present
    refine ⟨.ni n, Or.inl (Or.inr ⟨n, ni_listed (Config.getOutportForVnet_source port), rfl⟩), ?_⟩
    refine mem_append_left _ (mem_flatMap.mpr ⟨c, ?_, here⟩)
    exact mem_filterMap.mpr ⟨c.2, mem_range.mpr below, by rw [port]; rfl⟩
  | switch l =>
    obtain ⟨r, sink⟩ := Config.intoRouter_iff.mp present
    refine ⟨.router r, Or.inl (Or.inl ⟨r, router_listed (Or.inr sink), rfl⟩), ?_⟩
    exact mem_append_left _ (mem_append_left _ (mem_flatMap.mpr ⟨l, Config.mem_inLinks.mpr sink, here⟩))
  | channel c =>
    obtain ⟨into, below⟩ := present
    obtain ⟨r, sink⟩ := Config.intoRouter_iff.mp into
    refine ⟨.router r, Or.inl (Or.inl ⟨r, router_listed (Or.inr sink), rfl⟩), ?_⟩
    refine mem_append_left _ (mem_append_right _ (mem_flatMap.mpr ⟨c.1, Config.mem_inLinks.mpr sink, ?_⟩))
    exact mem_flatMap.mpr ⟨c.2, mem_range.mpr below, here⟩
  | output l =>
    have below : l < g.cfg.links.length := present
    have source : g.cfg.source l = some g.cfg.links[l].source := by simp [Config.source, below]
    cases kind : g.cfg.links[l].source with
    | router r =>
      rw [kind] at source
      refine ⟨.router r, Or.inl (Or.inl ⟨r, router_listed (Or.inl source), rfl⟩), ?_⟩
      exact mem_append_right _ (mem_flatMap.mpr ⟨l, Config.mem_outLinks.mpr source, here⟩)
    | ni n =>
      rw [kind] at source
      refine ⟨.ni n, Or.inl (Or.inr ⟨n, ni_listed source, rfl⟩), ?_⟩
      exact mem_append_right _ (mem_flatMap.mpr ⟨l, Config.mem_outLinks.mpr source, here⟩)
  | link l => exact ⟨.link l, Or.inr ⟨l, present, rfl⟩, here⟩
  | stalled l => exact (moving l rfl).elim
  | ejected => exact present.elim

theorem mem_writtenMessages :
    m ∈ g.writtenMessages ↔ ∃ x, g.RestsIn m x ∧ ∀ l, x ≠ .stalled l := by
  rw [writtenMessages_eq, mem_flatMap]
  constructor
  · rintro ⟨part, listed, here⟩
    simp only [writeParts, mem_append, mem_map, mem_range] at listed
    rcases listed with (⟨r, -, rfl⟩ | ⟨n, -, rfl⟩) | ⟨l, below, rfl⟩
    · simp only [messagesOf, mem_append, mem_flatMap, mem_range, Config.mem_inLinks,
        Config.mem_outLinks] at here
      rcases here with (⟨l, sink, here⟩ | ⟨l, sink, vc, below, here⟩) | ⟨l, source, here⟩
      · exact ⟨.switch l, ⟨Config.intoRouter_iff.mpr ⟨r, sink⟩, here⟩, nofun⟩
      · exact ⟨.channel (l, vc), ⟨⟨Config.intoRouter_iff.mpr ⟨r, sink⟩, below⟩, here⟩, nofun⟩
      · exact ⟨.output l, ⟨Config.source_lt source, here⟩, nofun⟩
    · simp only [messagesOf, mem_append, mem_flatMap, Config.mem_outLinks] at here
      rcases here with ⟨c, listed, here⟩ | ⟨l, source, here⟩
      · obtain ⟨vc, below, found⟩ := mem_filterMap.mp listed
        obtain ⟨l, port, rfl⟩ := Option.map_eq_some_iff.mp found
        exact ⟨.source (l, vc), ⟨⟨mem_range.mp below, n, port⟩, here⟩, nofun⟩
      · exact ⟨.output l, ⟨Config.source_lt source, here⟩, nofun⟩
    · exact ⟨.link l, ⟨below, here⟩, nofun⟩
  · rintro ⟨x, rests, moving⟩
    exact visited_of_restsIn rests moving

theorem mem_bridgeMessages {b : NetworkBridge} :
    m ∈ bridgeMessages b ↔ ∃ f : BridgeFlit, Traffic.flit f ∈ b.linkBuffer ∧ f.msgPtr = m := by
  simp only [bridgeMessages, map_map, mem_map, mem_filterMap]
  constructor
  · rintro ⟨f, ⟨t, waiting, same⟩, rfl⟩
    cases t with
    | flit h =>
      obtain rfl := Option.some.inj same
      exact ⟨h, waiting, rfl⟩
    | credit c => cases same
  · rintro ⟨f, waiting, rfl⟩
    exact ⟨f, ⟨_, waiting, rfl⟩, rfl⟩

theorem mem_readMessages : m ∈ g.readMessages ↔ m ∈ g.writtenMessages ∨ g.InBridge m := by
  have split : g.readParts = g.writeParts ++ (List.range g.bridges.length).map .bridge := rfl
  rw [readMessages_eq, writtenMessages_eq, split, flatMap_append, mem_append]
  refine or_congr_right ?_
  rw [flatMap_map, mem_flatMap]
  constructor
  · rintro ⟨i, -, here⟩
    obtain ⟨b, found, here⟩ := mem_flatMap.mp here
    exact ⟨b, mem_of_getElem? (Option.mem_toList.mp found), mem_bridgeMessages.mp here⟩
  · rintro ⟨b, listed, held⟩
    obtain ⟨i, below, rfl⟩ := getElem_of_mem listed
    refine ⟨i, mem_range.mpr below, mem_flatMap.mpr ⟨g.bridges[i], ?_, mem_bridgeMessages.mpr held⟩⟩
    simp [below]

/-- Nothing is skipped exactly when the network has no bridges and every stalled flit has its message in common with a
flit that is not stalled. -/
theorem functionalAccess_complete_iff (g : GarnetNetwork) :
    ((∀ m, g.Holds m → m ∈ g.writtenMessages ∧ m ∈ g.readMessages) ∧ ∀ part ∈ g.readParts, part ∈ g.writeParts) ↔
      g.bridges = [] ∧ ∀ m l, g.RestsIn m (.stalled l) → ∃ x, g.RestsIn m x ∧ ∀ k, x ≠ .stalled k := by
  constructor
  · rintro ⟨complete, parts⟩
    refine ⟨?_, fun m l stalled => mem_writtenMessages.mp (complete m (Or.inl ⟨_, stalled⟩)).1⟩
    by_contra some_bridge
    have skipped := parts (.bridge 0) (by simp [readParts, length_pos_iff.mpr some_bridge])
    simp [writeParts] at skipped
  · rintro ⟨none, shared⟩
    have written : ∀ m, g.Holds m → m ∈ g.writtenMessages := by
      rintro m (⟨x, rests⟩ | ⟨b, listed, -⟩)
      · rw [mem_writtenMessages]
        by_cases moving : ∀ l, x ≠ .stalled l
        · exact ⟨x, rests, moving⟩
        · obtain ⟨l, same⟩ := not_forall_not.mp moving
          subst same
          exact shared m l rests
      · rw [none] at listed
        cases listed
    refine ⟨fun m held => ⟨written m held, mem_readMessages.mpr (Or.inl (written m held))⟩, ?_⟩
    simp [readParts, writeParts, none]

theorem twoVnets_ends : ∀ link ∈ twoVnets.links, link.source.Listed [0, 1] [0, 1] ∧ link.sink.Listed [0, 1] [0, 1] := by
  decide +kernel

def pair (flow : Flow) (bridges : List NetworkBridge) : GarnetNetwork :=
  { cfg := twoVnets, flow := flow, bridges := bridges, routers := [0, 1], nis := [0, 1], ends_listed := twoVnets_ends }

/-- `NetworkBridge::wakeup` of the bridge between an interface or router and link `l`, with the size of the message as
its flits have it. -/
def bridgeWakeup (clock : ConsumerClock) (l t msgSize : Nat) (s : Flow) (b co : NetworkBridge) :
    Option (Flow × NetworkBridge × NetworkBridge) :=
  match s.outQueue l with
  | [] => some (s, b, co)
  | f :: rest =>
    if f.time ≤ t then
      let arrived : BridgeFlit :=
        { toFlit := f, width := b.curWidth, msgSize := msgSize, enqueueTime := f.time, srcDelay := 0 }
      (b.flitisizeAndSend clock co (.flit arrived)).map fun r =>
        ({ s with outQueue := update s.outQueue l rest }, r.1, r.2)
    else some (s, b, co)

def crossingBridge : NetworkBridge :=
  { mType := .objectLink, bitWidth := 128, linkWidth := 128, enCdc := true, enSerDes := false
    cdcLatency := 1, serDesLatency := 0 }

def crossing : Option GarnetNetwork :=
  let sent := (Net.run twoVnets [.protocol 0 0 [toSecond 0], .ni 0 0]).flow
  (bridgeWakeup ⟨fun cycles => 500 + 500 * cycles, 500⟩ 0 500 64 sent crossingBridge crossingBridge).map fun r =>
    pair r.1 [r.2.1]

def stalling : GarnetNetwork := pair (Net.run twoVnets (twoMessages ++ [.ni 1 3500])).flow []

/-- A stalled message is skipped by both accesses, a message in a bridge by the write. -/
theorem functionalAccess_skips :
    (stalling.flow.faults = [] ∧ twoVnets.sink 4 = some (.ni 1) ∧ stalling.flow.messagesAt (.stalled 4) = [1] ∧
      stalling.readMessages = [] ∧ stalling.writtenMessages = []) ∧
      crossing.map (fun g => (g.bridges.map bridgeMessages, g.readMessages, g.writtenMessages)) =
        some ([[0]], [0], []) := by
  decide +kernel

end GarnetNetwork

end Resister.Garnet
