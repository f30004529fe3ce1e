import Mathlib
import Resister.Base.Bitfield
import Resister.Base.Logging

namespace Resister.Cache

open Resister.Base

abbrev SnoopMask := BitVec 256

structure SnoopItem where
  requested : SnoopMask
  holder : SnoopMask
  deriving DecidableEq, Repr

namespace SnoopItem

def empty : SnoopItem :=
  ⟨0, 0⟩

def isNull (item : SnoopItem) : Bool :=
  (item.requested ||| item.holder) == 0

end SnoopItem

structure ResponsePort where
  id : Int
  isSnooping : Bool
  deriving DecidableEq, Repr

structure Packet where
  addr : Addr
  isSecure : Bool
  isUncacheable : Bool
  isCacheMaintenance : Bool
  isRequest : Bool
  isResponse : Bool
  fromCache : Bool
  needsResponse : Bool
  cacheResponding : Bool
  isEviction : Bool
  isWriteback : Bool
  isBlockCached : Bool
  isInvalidate : Bool
  needsWritable : Bool
  hasSharers : Bool
  deriving DecidableEq, Repr

abbrev SnoopList := List ResponsePort

abbrev SnoopFilterCache := Finmap fun _ : Addr => SnoopItem

/-- The iterator is the key it points at, `none` for the end of the map. -/
structure ReqLookupResult where
  it : Option Addr
  retryItem : SnoopItem

structure SnoopFilter where
  cachedLocations : SnoopFilterCache
  reqLookupResult : ReqLookupResult
  cpuSidePorts : SnoopList
  localResponsePortIds : List Int
  linesize : BitVec 32
  lookupLatency : Nat
  maxEntryCount : Nat

namespace SnoopFilter

def make (linesize : BitVec 32) (lookupLatency maxCapacity : Nat) : SnoopFilter where
  cachedLocations := ∅
  reqLookupResult := ⟨none, SnoopItem.empty⟩
  cpuSidePorts := []
  localResponsePortIds := []
  linesize := linesize
  lookupLatency := lookupLatency
  maxEntryCount := maxCapacity / linesize.toNat % 2 ^ 32

def invalidPortId : Int :=
  -1

/-- One turn of the loop over the ports: a snooping port gets the next local number. -/
def addPort (state : SnoopFilter × Int) (p : ResponsePort) : Except Fault (SnoopFilter × Int) :=
  if p.isSnooping then
    if 0 ≤ p.id ∧ p.id < state.1.localResponsePortIds.length then
      .ok ({ state.1 with
        cpuSidePorts := state.1.cpuSidePorts ++ [p]
        localResponsePortIds := state.1.localResponsePortIds.set p.id.toNat state.2 }, state.2 + 1)
    else .error .undefined
  else .ok state

def setCPUSidePorts (f : SnoopFilter) (ports : SnoopList) : Except Fault SnoopFilter := do
  let resized := { f with
    localResponsePortIds := f.localResponsePortIds.take ports.length ++
      List.replicate (ports.length - f.localResponsePortIds.length) invalidPortId }
  let (tracked, id) ← ports.foldlM addPort (resized, 0)
  fatalIf (decide (256 < id)) "Snoop filter only supports %d snooping ports, got %d\n"
  return tracked

/-- A shift past the width of the mask, that by the invalid port's number among them, leaves it empty. -/
def portToMask (f : SnoopFilter) (port : ResponsePort) : Except Fault SnoopMask := do
  check (port.id != invalidPortId)
  if !port.isSnooping then return 0
  if port.id < 0 then throw .undefined
  match f.localResponsePortIds[port.id.toNat]? with
  | none => throw .undefined
  | some localId => return if localId < 0 then 0 else (1 : SnoopMask) <<< localId.toNat

def maskToPortList (f : SnoopFilter) (mask : SnoopMask) : Except Fault SnoopList :=
  f.cpuSidePorts.filterM fun p => do
    let port ← f.portToMask p
    return mask &&& port != 0

def snoopSelected (ports : SnoopList) (latency : Nat) : SnoopList × Nat :=
  (ports, latency)

def snoopDown (latency : Nat) : SnoopList × Nat :=
  ([], latency)

def lineSecure : Addr :=
  0x01

/-- The key of a packet's line: its address without the offset in the line, and the secure bit. -/
def lineAddr (f : SnoopFilter) (addr : Addr) (isSecure : Bool) : Addr :=
  let line := addr &&& ~~~((f.linesize - 1).setWidth 64)
  if isSecure then line ||| lineSecure else line

def store (f : SnoopFilter) (line : Addr) (item : SnoopItem) : SnoopFilter :=
  { f with cachedLocations := f.cachedLocations.insert line item }

/-- Erases the entry at `line`, whose item is `item`, when nobody holds or requests the line. -/
def eraseIfNullEntry (f : SnoopFilter) (line : Addr) (item : SnoopItem) : SnoopFilter :=
  if item.isNull then { f with cachedLocations := f.cachedLocations.erase line } else f

def markRequest (cpkt : Packet) (reqPort : SnoopMask) (item : SnoopItem) : Except Fault SnoopItem :=
  if cpkt.needsResponse then
    if !cpkt.cacheResponding then do
      panicIf (item.requested &&& reqPort != 0) "double request :( SF value %x.%x\n"
      return { item with requested := item.requested ||| reqPort }
    else do
      panicIf (item.holder &&& reqPort == 0) "Need to hold the value!"
      return item
  else do
    check cpkt.isEviction
    panicIf (item.holder &&& reqPort == 0) "requestor %x is not a holder :( SF value %x.%x\n"
    return if !cpkt.isBlockCached then { item with holder := item.holder &&& ~~~reqPort } else item

/-- The entry of the line, emplaced if there is none, with a copy of it kept for a retry. -/
def remember (f : SnoopFilter) (line : Addr) (item : SnoopItem) : SnoopFilter :=
  { f.store line item with reqLookupResult := ⟨some line, item⟩ }

def lookupRequest (f : SnoopFilter) (cpkt : Packet) (port : ResponsePort) :
    Except Fault ((SnoopList × Nat) × SnoopFilter) := do
  let allocate := !cpkt.isUncacheable && port.isSnooping && cpkt.fromCache
  let line := f.lineAddr cpkt.addr cpkt.isSecure
  let reqPort ← f.portToMask port
  let hit := f.cachedLocations.lookup line
  if hit.isNone && !allocate then
    return (snoopDown f.lookupLatency, { f with reqLookupResult := { f.reqLookupResult with it := none } })
  let item := hit.getD SnoopItem.empty
  let interested := item.holder ||| item.requested
  let remembered := f.remember line item
  if !allocate then
    let ports ← f.maskToPortList (interested &&& ~~~reqPort)
    return (snoopSelected ports f.lookupLatency, remembered)
  let marked ← markRequest cpkt reqPort item
  let ports ← f.maskToPortList (interested &&& ~~~reqPort)
  return (snoopSelected ports f.lookupLatency, remembered.store line marked)

def finishRequest (f : SnoopFilter) (willRetry : Bool) (addr : Addr) (isSecure : Bool) :
    Except Fault SnoopFilter :=
  match f.reqLookupResult.it with
  | none => return f
  | some line =>
    match f.cachedLocations.lookup line with
    -- another operation has erased the entry: the iterator is stale
    | none => throw .undefined
    | some item => do
      check (line == f.lineAddr addr isSecure)
      if willRetry then
        return (f.store line f.reqLookupResult.retryItem).eraseIfNullEntry line f.reqLookupResult.retryItem
      return f.eraseIfNullEntry line item

def lookupSnoop (f : SnoopFilter) (cpkt : Packet) : Except Fault ((SnoopList × Nat) × SnoopFilter) := do
  check cpkt.isRequest
  let line := f.lineAddr cpkt.addr cpkt.isSecure
  match f.cachedLocations.lookup line with
  | none =>
    panicIf (decide (f.maxEntryCount ≤ f.cachedLocations.keys.card))
      "snoop filter exceeded capacity of %d cache blocks\n"
    return (snoopDown f.lookupLatency, f)
  | some item =>
    let interested := item.holder ||| item.requested
    check (cpkt.isWriteback || cpkt.isUncacheable || cpkt.isInvalidate == cpkt.needsWritable ||
      cpkt.isCacheMaintenance)
    let ports ← f.maskToPortList interested
    if cpkt.isInvalidate && item.requested == 0 then
      let cleared := { item with holder := 0 }
      return (snoopSelected ports f.lookupLatency, (f.store line cleared).eraseIfNullEntry line cleared)
    return (snoopSelected ports f.lookupLatency, f)

def updateSnoopResponse (f : SnoopFilter) (cpkt : Packet) (rspPort reqPort : ResponsePort) :
    Except Fault SnoopFilter := do
  check cpkt.isResponse
  check cpkt.cacheResponding
  if cpkt.isUncacheable || !reqPort.isSnooping then return f
  let line := f.lineAddr cpkt.addr cpkt.isSecure
  let rspMask ← f.portToMask rspPort
  let reqMask ← f.portToMask reqPort
  let item := (f.cachedLocations.lookup line).getD SnoopItem.empty
  panicIf (item.holder &&& rspMask == 0) "SF value %x.%x does not have the line\n"
  panicIf (item.requested &&& reqMask == 0) "SF value %x.%x missing the original request\n"
  let holder := if !cpkt.hasSharers then 0 else item.holder
  check !cpkt.isWriteback
  let updated : SnoopItem := ⟨item.requested &&& ~~~reqMask, holder ||| reqMask⟩
  check (updated.requested ||| updated.holder != 0)
  return f.store line updated

def updateSnoopForward (f : SnoopFilter) (cpkt : Packet) : Except Fault SnoopFilter := do
  check cpkt.isResponse
  check cpkt.cacheResponding
  let line := f.lineAddr cpkt.addr cpkt.isSecure
  match f.cachedLocations.lookup line with
  | none => return f
  | some item =>
    if !cpkt.hasSharers then
      let cleared := { item with holder := 0 }
      return (f.store line cleared).eraseIfNullEntry line cleared
    return f

def updateResponse (f : SnoopFilter) (cpkt : Packet) (port : ResponsePort) : Except Fault SnoopFilter := do
  check cpkt.isResponse
  if cpkt.isUncacheable || !port.isSnooping then return f
  let line := f.lineAddr cpkt.addr cpkt.isSecure
  match f.cachedLocations.lookup line with
  | none => return f
  | some item =>
    let responseMask ← f.portToMask port
    panicIf (item.requested &&& responseMask == 0) "SF value %x.%x missing request bit\n"
    let requested := item.requested &&& ~~~responseMask
    if cpkt.isCacheMaintenance then
      let holder := if cpkt.isInvalidate then item.holder &&& ~~~responseMask else item.holder
      let updated : SnoopItem := ⟨requested, holder⟩
      return (f.store line updated).eraseIfNullEntry line updated
    let updated : SnoopItem := ⟨requested, item.holder ||| responseMask⟩
    check (updated.holder ||| updated.requested != 0)
    return f.store line updated

/-! ## What an operation does to the entries -/

/-- The entry at `line` becomes `item`, or goes when `item` is null; every other entry stays. -/
def Updated (f g : SnoopFilter) (line : Addr) (item : SnoopItem) : Prop :=
  ∀ a, g.cachedLocations.lookup a =
    if a = line then if item.isNull then none else some item else f.cachedLocations.lookup a

theorem lookup_store (f : SnoopFilter) (line : Addr) (item : SnoopItem) (a : Addr) :
    (f.store line item).cachedLocations.lookup a = if a = line then some item else f.cachedLocations.lookup a := by
  show (f.cachedLocations.insert line item).lookup a = _
  by_cases same : a = line
  · subst same
    rw [Finmap.lookup_insert, if_pos rfl]
  · rw [Finmap.lookup_insert_of_ne _ same, if_neg same]

theorem lookup_eraseIfNullEntry (f : SnoopFilter) (line : Addr) (item : SnoopItem) (a : Addr) :
    (f.eraseIfNullEntry line item).cachedLocations.lookup a =
      if item.isNull = true ∧ a = line then none else f.cachedLocations.lookup a := by
  unfold eraseIfNullEntry
  by_cases null : item.isNull = true
  · rw [if_pos null]
    show (f.cachedLocations.erase line).lookup a = _
    by_cases same : a = line
    · subst same
      rw [Finmap.lookup_erase, if_pos ⟨null, rfl⟩]
    · rw [Finmap.lookup_erase_ne same, if_neg (fun both => same both.2)]
  · rw [if_neg null, if_neg (fun both => null both.1)]

theorem reqLookupResult_eraseIfNullEntry (f : SnoopFilter) (line : Addr) (item : SnoopItem) :
    (f.eraseIfNullEntry line item).reqLookupResult = f.reqLookupResult := by
  unfold eraseIfNullEntry
  split
  · rfl
  · rfl

variable {f : SnoopFilter} {line : Addr} {item : SnoopItem}

theorem updated_of_lookup
    (found : f.cachedLocations.lookup line = some item) : f.Updated (f.eraseIfNullEntry line item) line item := by
  intro a
  rw [lookup_eraseIfNullEntry]
  by_cases same : a = line
  · subst same
    simp [found]
  · simp [same]

theorem updated_store_erase (f : SnoopFilter) (line : Addr) (item : SnoopItem) :
    f.Updated ((f.store line item).eraseIfNullEntry line item) line item := by
  have written : (f.store line item).cachedLocations.lookup line = some item := by
    rw [lookup_store, if_pos rfl]
  intro a
  rw [updated_of_lookup written a, lookup_store]
  by_cases same : a = line
  · rw [if_pos same, if_pos same]
  · rw [if_neg same, if_neg same, if_neg same]

theorem updated_store (used : item.isNull = false) :
    f.Updated (f.store line item) line item := by
  intro a
  rw [lookup_store, used]
  rfl

def Tidy (f : SnoopFilter) (spared : Option Addr) : Prop :=
  ∀ line item, f.cachedLocations.lookup line = some item → item.isNull = true → spared = some line

variable {g : SnoopFilter}

theorem Tidy.updated {spared : Option Addr}
    (tidy : f.Tidy spared) (updated : f.Updated g line item) : g.Tidy spared := by
  intro a kept found null
  rw [updated a] at found
  split at found
  · split at found
    · cases found
    · rename_i used
      cases found
      exact absurd null used
  · exact tidy a kept found null

theorem Tidy.finished (tidy : f.Tidy (some line)) (updated : f.Updated g line item) : g.Tidy none := by
  intro a kept found null
  rw [updated a] at found
  split at found
  · split at found
    · cases found
    · rename_i used
      cases found
      exact absurd null used
  · rename_i other
    have spared := tidy a kept found null
    cases spared
    exact absurd rfl other

theorem Tidy.ofNone (tidy : f.Tidy none) (spared : Option Addr) : f.Tidy spared := by
  intro line item found null
  cases tidy line item found null

/-! ## The operations one by one -/

/-- What the operations other than a request's own leave: the same filter, or one entry updated. -/
def Follows (f g : SnoopFilter) : Prop :=
  g.reqLookupResult = f.reqLookupResult ∧
    (g.cachedLocations = f.cachedLocations ∨ ∃ line item, f.Updated g line item)

theorem Follows.same (f : SnoopFilter) : f.Follows f :=
  ⟨rfl, Or.inl rfl⟩

theorem Follows.erased (f : SnoopFilter) (line : Addr) (item : SnoopItem) :
    f.Follows ((f.store line item).eraseIfNullEntry line item) :=
  ⟨reqLookupResult_eraseIfNullEntry _ _ _, Or.inr ⟨line, item, updated_store_erase f line item⟩⟩

theorem Follows.stored (used : item.isNull = false) :
    f.Follows (f.store line item) :=
  ⟨rfl, Or.inr ⟨line, item, updated_store used⟩⟩

theorem Tidy.follows {spared : Option Addr} (tidy : f.Tidy spared) (step : f.Follows g) :
    g.Tidy spared := by
  obtain ⟨_, same | ⟨line, item, updated⟩⟩ := step
  · unfold Tidy
    rw [same]
    exact tidy
  · exact tidy.updated updated

theorem isNull_of_check (checked : (item.requested ||| item.holder != 0) = true) :
    item.isNull = false := by
  simpa [SnoopItem.isNull] using checked

variable {cpkt : Packet}

theorem lookupSnoop_follows {out : SnoopList × Nat} (run : f.lookupSnoop cpkt = .ok (out, g)) : f.Follows g := by
  unfold lookupSnoop at run
  obtain ⟨_, _, run⟩ := andThen_ok.mp run
  dsimp only at run
  split at run
  · obtain ⟨_, _, run⟩ := andThen_ok.mp run
    cases run
    exact Follows.same f
  · obtain ⟨_, _, run⟩ := andThen_ok.mp run
    obtain ⟨ports, _, run⟩ := andThen_ok.mp run
    split at run
    · cases run
      apply Follows.erased
    · cases run
      exact Follows.same f

theorem updateSnoopResponse_follows {rspPort reqPort : ResponsePort}
    (run : f.updateSnoopResponse cpkt rspPort reqPort = .ok g) : f.Follows g := by
  unfold updateSnoopResponse at run
  obtain ⟨_, _, run⟩ := andThen_ok.mp run
  obtain ⟨_, _, run⟩ := andThen_ok.mp run
  split at run
  · cases run
    exact Follows.same f
  · obtain ⟨rspMask, _, run⟩ := andThen_ok.mp run
    obtain ⟨reqMask, _, run⟩ := andThen_ok.mp run
    obtain ⟨_, _, run⟩ := andThen_ok.mp run
    obtain ⟨_, _, run⟩ := andThen_ok.mp run
    obtain ⟨_, _, run⟩ := andThen_ok.mp run
    obtain ⟨_, used, run⟩ := andThen_ok.mp run
    cases run
    exact Follows.stored (isNull_of_check (check_ok.mp used))

theorem updateSnoopForward_follows (run : f.updateSnoopForward cpkt = .ok g) : f.Follows g := by
  unfold updateSnoopForward at run
  obtain ⟨_, _, run⟩ := andThen_ok.mp run
  obtain ⟨_, _, run⟩ := andThen_ok.mp run
  cases hit : f.cachedLocations.lookup (f.lineAddr cpkt.addr cpkt.isSecure) with
  | none =>
    simp only [hit] at run
    cases run
    exact Follows.same f
  | some item =>
    simp only [hit] at run
    split at run
    · cases run
      apply Follows.erased
    · cases run
      exact Follows.same f

theorem updateResponse_follows {port : ResponsePort} (run : f.updateResponse cpkt port = .ok g) : f.Follows g := by
  unfold updateResponse at run
  obtain ⟨_, _, run⟩ := andThen_ok.mp run
  split at run
  · cases run
    exact Follows.same f
  · cases hit : f.cachedLocations.lookup (f.lineAddr cpkt.addr cpkt.isSecure) with
    | none =>
      simp only [hit] at run
      cases run
      exact Follows.same f
    | some item =>
      simp only [hit] at run
      obtain ⟨responseMask, _, run⟩ := andThen_ok.mp run
      obtain ⟨_, _, run⟩ := andThen_ok.mp run
      split at run
      · cases run
        apply Follows.erased
      · obtain ⟨_, used, run⟩ := andThen_ok.mp run
        cases run
        apply Follows.stored
        apply isNull_of_check
        rw [BitVec.or_comm]
        exact check_ok.mp used

theorem lookupRequest_cases {port : ResponsePort} {out : SnoopList × Nat}
    (run : f.lookupRequest cpkt port = .ok (out, g)) :
    g.linesize = f.linesize ∧
      (g.reqLookupResult.it = none ∧ g.cachedLocations = f.cachedLocations ∨
        g.reqLookupResult =
          ⟨some (f.lineAddr cpkt.addr cpkt.isSecure),
            (f.cachedLocations.lookup (f.lineAddr cpkt.addr cpkt.isSecure)).getD SnoopItem.empty⟩ ∧
        ∃ item, ∀ a, g.cachedLocations.lookup a =
          if a = f.lineAddr cpkt.addr cpkt.isSecure then some item else f.cachedLocations.lookup a) := by
  unfold lookupRequest at run
  obtain ⟨reqPort, _, run⟩ := andThen_ok.mp run
  dsimp only at run
  split at run
  · cases run
    exact ⟨rfl, Or.inl ⟨rfl, rfl⟩⟩
  · split at run
    · obtain ⟨ports, _, run⟩ := andThen_ok.mp run
      cases run
      exact ⟨rfl, Or.inr ⟨rfl, _, lookup_store f _ _⟩⟩
    · obtain ⟨marked, _, run⟩ := andThen_ok.mp run
      obtain ⟨ports, _, run⟩ := andThen_ok.mp run
      cases run
      refine ⟨rfl, Or.inr ⟨rfl, marked, ?_⟩⟩
      intro a
      rw [lookup_store]
      split
      · rfl
      · rename_i other
        show (f.store _ _).cachedLocations.lookup a = _
        rw [lookup_store, if_neg other]

theorem finishRequest_cases {willRetry isSecure : Bool} {addr : Addr}
    (run : f.finishRequest willRetry addr isSecure = .ok g) :
    f.reqLookupResult.it = none ∧ g = f ∨
      ∃ line item, f.reqLookupResult.it = some line ∧ f.Updated g line item := by
  unfold finishRequest at run
  cases pointed : f.reqLookupResult.it with
  | none =>
    simp only [pointed] at run
    cases run
    exact Or.inl ⟨rfl, rfl⟩
  | some line =>
    cases found : f.cachedLocations.lookup line with
    | none =>
      simp only [pointed, found] at run
      cases run
    | some item =>
      simp only [pointed, found] at run
      obtain ⟨_, _, run⟩ := andThen_ok.mp run
      split at run
      · cases run
        exact Or.inr ⟨line, _, rfl, updated_store_erase f line _⟩
      · cases run
        exact Or.inr ⟨line, item, rfl, updated_of_lookup found⟩

/-! ## Runs of a crossbar -/

inductive Operation where
  | lookupSnoop (cpkt : Packet)
  | updateSnoopResponse (cpkt : Packet) (rspPort reqPort : ResponsePort)
  | updateSnoopForward (cpkt : Packet)
  | updateResponse (cpkt : Packet) (port : ResponsePort)

def Operation.run (f : SnoopFilter) : Operation → Except Fault SnoopFilter
  | .lookupSnoop cpkt => return (← f.lookupSnoop cpkt).2
  | .updateSnoopResponse cpkt rspPort reqPort => f.updateSnoopResponse cpkt rspPort reqPort
  | .updateSnoopForward cpkt => f.updateSnoopForward cpkt
  | .updateResponse cpkt port => f.updateResponse cpkt port

theorem Operation.run_follows {operation : Operation} (run : operation.run f = .ok g) :
    f.Follows g := by
  cases operation with
  | lookupSnoop cpkt =>
    obtain ⟨⟨out, _⟩, looked, run⟩ := andThen_ok.mp run
    cases run
    exact lookupSnoop_follows looked
  | updateSnoopResponse cpkt rspPort reqPort => exact updateSnoopResponse_follows run
  | updateSnoopForward cpkt => exact updateSnoopForward_follows run
  | updateResponse cpkt port => exact updateResponse_follows run

end SnoopFilter

/-- The filter of a crossbar, and whether a request has been looked up and not yet finished. While
one is, the crossbar forwards it, and snoops and responses may come in. -/
structure Crossbar where
  filter : SnoopFilter
  pending : Bool

namespace Crossbar

inductive Step : Crossbar → Crossbar → Prop where
  | lookupRequest {c : Crossbar} {cpkt : Packet} {port : ResponsePort} {out : SnoopList × Nat} {f : SnoopFilter}
      (idle : c.pending = false) (run : c.filter.lookupRequest cpkt port = .ok (out, f)) : Step c ⟨f, true⟩
  | finishRequest {c : Crossbar} {willRetry isSecure : Bool} {addr : Addr} {f : SnoopFilter}
      (pending : c.pending = true) (run : c.filter.finishRequest willRetry addr isSecure = .ok f) :
      Step c ⟨f, false⟩
  | operation {c : Crossbar} (operation : SnoopFilter.Operation) {f : SnoopFilter}
      (run : operation.run c.filter = .ok f) : Step c ⟨f, c.pending⟩

inductive Reached : Crossbar → Prop where
  | start (linesize : BitVec 32) (lookupLatency maxCapacity : Nat) (ports : SnoopList) {f : SnoopFilter}
      (run : (SnoopFilter.make linesize lookupLatency maxCapacity).setCPUSidePorts ports = .ok f) :
      Reached ⟨f, false⟩
  | step {c d : Crossbar} (reached : Reached c) (step : Step c d) : Reached d

def Tracks (c : Crossbar) : Prop :=
  c.filter.Tidy (if c.pending then c.filter.reqLookupResult.it else none)

theorem addPort_entries {state next : SnoopFilter × Int} {p : ResponsePort}
    (run : SnoopFilter.addPort state p = .ok next) : next.1.cachedLocations = state.1.cachedLocations := by
  unfold SnoopFilter.addPort at run
  split at run
  · split at run
    · cases run
      rfl
    · cases run
  · cases run
    rfl

theorem foldlM_addPort_entries {ports : SnoopList} {state next : SnoopFilter × Int}
    (run : ports.foldlM SnoopFilter.addPort state = .ok next) :
    next.1.cachedLocations = state.1.cachedLocations := by
  induction ports generalizing state with
  | nil =>
    cases run
    rfl
  | cons p ports ih =>
    rw [List.foldlM_cons] at run
    obtain ⟨middle, added, run⟩ := andThen_ok.mp run
    rw [ih run, addPort_entries added]

theorem setCPUSidePorts_entries {f g : SnoopFilter} {ports : SnoopList}
    (run : f.setCPUSidePorts ports = .ok g) : g.cachedLocations = f.cachedLocations := by
  unfold SnoopFilter.setCPUSidePorts at run
  obtain ⟨⟨tracked, id⟩, added, run⟩ := andThen_ok.mp run
  obtain ⟨_, _, run⟩ := andThen_ok.mp run
  cases run
  exact foldlM_addPort_entries added

theorem Tracks.step {c d : Crossbar} (tracks : c.Tracks) (step : Step c d) : d.Tracks := by
  cases step with
  | @lookupRequest cpkt port out f idle run =>
    have tidy : c.filter.Tidy none := by simpa [Tracks, idle] using tracks
    obtain ⟨_, ⟨missed, same⟩ | ⟨kept, item, entries⟩⟩ := SnoopFilter.lookupRequest_cases run
    · show f.Tidy f.reqLookupResult.it
      unfold SnoopFilter.Tidy
      rw [same]
      exact tidy.ofNone _
    · show f.Tidy f.reqLookupResult.it
      rw [kept]
      intro a other found null
      rw [entries a] at found
      split at found
      · rename_i same
        rw [same]
      · cases tidy a other found null
  | @finishRequest willRetry isSecure addr f pending run =>
    have tidy : c.filter.Tidy c.filter.reqLookupResult.it := by simpa [Tracks, pending] using tracks
    obtain ⟨missed, same⟩ | ⟨line, item, pointed, updated⟩ := SnoopFilter.finishRequest_cases run
    · rw [missed] at tidy
      rw [same]
      exact tidy
    · rw [pointed] at tidy
      exact tidy.finished updated
  | operation operation run =>
    have follows := SnoopFilter.Operation.run_follows run
    unfold Tracks
    rw [follows.1]
    exact SnoopFilter.Tidy.follows tracks follows

theorem Reached.tracks {c : Crossbar} (reached : Reached c) : c.Tracks := by
  induction reached with
  | start linesize lookupLatency maxCapacity ports run =>
    intro line item found
    have none := setCPUSidePorts_entries run
    rw [none] at found
    exact absurd found (by simp [SnoopFilter.make])
  | step _ step ih => exact ih.step step

theorem finishRequest_undoes {f g : SnoopFilter} {cpkt : Packet} {port : ResponsePort} {out : SnoopList × Nat}
    (tidy : f.Tidy none) (run : f.lookupRequest cpkt port = .ok (out, g)) :
    ∃ h, g.finishRequest true cpkt.addr cpkt.isSecure = .ok h ∧ h.cachedLocations = f.cachedLocations := by
  obtain ⟨size, ⟨missed, same⟩ | ⟨kept, item, entries⟩⟩ := SnoopFilter.lookupRequest_cases run
  · refine ⟨g, ?_, same⟩
    simp only [SnoopFilter.finishRequest, missed]
    rfl
  · have line : g.lineAddr cpkt.addr cpkt.isSecure = f.lineAddr cpkt.addr cpkt.isSecure := by
      unfold SnoopFilter.lineAddr
      rw [size]
    generalize f.lineAddr cpkt.addr cpkt.isSecure = key at *
    have found := entries key
    rw [if_pos rfl] at found
    generalize kept_item : (f.cachedLocations.lookup key).getD SnoopItem.empty = old at *
    refine ⟨(g.store key old).eraseIfNullEntry key old, ?_, ?_⟩
    · simp only [SnoopFilter.finishRequest, kept, found, line]
      simp only [check, BEq.rfl, if_true]
      rfl
    · apply Finmap.ext_lookup
      intro a
      rw [SnoopFilter.updated_store_erase g key old a, entries a]
      by_cases same : a = key
      · rw [if_pos same, same, ← kept_item]
        cases before : f.cachedLocations.lookup key with
        | none => rfl
        | some stored =>
          -- an entry that was there is not null, so the retry does not erase it
          have used : ¬ stored.isNull = true := fun null => by cases tidy _ _ before null
          rw [Option.getD_some, if_neg used]
      · rw [if_neg same, if_neg same]

theorem retry_atomic {c : Crossbar} (reached : Reached c) (idle : c.pending = false) :
    (∀ line item, c.filter.cachedLocations.lookup line = some item → item.requested ||| item.holder ≠ 0) ∧
      ∀ cpkt port out f, c.filter.lookupRequest cpkt port = .ok (out, f) →
        ∃ g, f.finishRequest true cpkt.addr cpkt.isSecure = .ok g ∧
          g.cachedLocations = c.filter.cachedLocations := by
  have tidy : c.filter.Tidy none := by simpa [Tracks, idle] using reached.tracks
  refine ⟨?_, fun cpkt port out f run => finishRequest_undoes tidy run⟩
  intro line item found none
  have null : item.isNull = true := by simp [SnoopItem.isNull, none]
  cases tidy line item found null

def readRequest : Packet where
  addr := 0x48
  isSecure := false
  isUncacheable := false
  isCacheMaintenance := false
  isRequest := true
  isResponse := false
  fromCache := true
  needsResponse := true
  cacheResponding := false
  isEviction := false
  isWriteback := false
  isBlockCached := false
  isInvalidate := false
  needsWritable := false
  hasSharers := false

/-- Two snooping ports, each with a request in flight for one line, the second one sent again. -/
theorem retry_atomic_second :
    ∃ c, Reached c ∧ c.pending = false ∧ c.filter.cachedLocations.lookup 0x40 = some ⟨1, 0⟩ ∧
      (∀ line item, c.filter.cachedLocations.lookup line = some item → item.requested ||| item.holder ≠ 0) ∧
      ∃ f g, c.filter.lookupRequest readRequest ⟨1, true⟩ = .ok (([⟨0, true⟩], 1), f) ∧
        f.cachedLocations.lookup 0x40 = some ⟨3, 0⟩ ∧
        f.finishRequest true readRequest.addr readRequest.isSecure = .ok g ∧
        g.cachedLocations = c.filter.cachedLocations := by
  have start := Reached.start 64 1 1024 [⟨0, true⟩, ⟨1, true⟩] rfl
  have looked := start.step (@Step.lookupRequest _ readRequest ⟨0, true⟩ _ _ rfl rfl)
  have sent := looked.step (@Step.finishRequest _ false false 0x48 _ rfl rfl)
  obtain ⟨used, undone⟩ := retry_atomic sent rfl
  obtain ⟨g, finished, same⟩ := undone readRequest ⟨1, true⟩ _ _ rfl
  exact ⟨_, sent, rfl, by decide +kernel, used, _, g, rfl, by decide +kernel, finished, same⟩

end Crossbar

end Resister.Cache
