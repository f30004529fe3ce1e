import Mathlib

/-!
# The DMA sequencer

A packet is split into messages for single cache lines, and a message is issued when the one before
it was answered.
-/

namespace Resister.Ruby.DmaSequencer

open List

open Function (update update_self update_of_ne)

inductive SequencerRequestType where
  | LD | ST
  deriving DecidableEq, Repr

structure SequencerMsg where
  physicalAddress : Nat
  lineAddress : Nat
  type : SequencerRequestType
  len : Nat
  dataBlk : Nat → UInt8

structure Packet where
  addr : Nat
  size : Nat
  isWrite : Bool
  data : Option (Nat → UInt8)

/-- `pkt` is the number of the packet, `data` the contents of its buffer. -/
structure DMARequest where
  startPaddr : Nat
  len : Nat
  write : Bool
  bytesCompleted : Nat
  bytesIssued : Nat
  data : Option (Nat → UInt8)
  pkt : Nat

inductive RequestStatus where
  | Issued | Aliased | BufferFull
  deriving DecidableEq, Repr

/-- The messages in `mandatoryQueue` have not been answered. `packets`, `issued`, `answers` and `hits` record what
happened: the packets taken, the messages with their packets, the answers with their data, and the hit callbacks with
the packet's buffer. -/
structure Sequencer where
  maxOutstandingRequests : Nat
  requestTable : Nat → Option DMARequest := fun _ => none
  outstandingCount : Nat := 0
  mandatoryQueue : List (Nat × SequencerMsg) := []
  packets : List Packet := []
  issued : List (Nat × SequencerMsg) := []
  answers : List ((Nat × SequencerMsg) × (Nat → UInt8)) := []
  hits : List (Nat × Option (Nat → UInt8)) := []

/-- `makeLineAddress`. -/
def lineAddress (bits addr : Nat) : Nat := addr / 2 ^ bits * 2 ^ bits

/-- `memcpy(&dst[offset], src, len)`. -/
def copyBytes (dst src : Nat → UInt8) (offset len : Nat) : Nat → UInt8 := fun i =>
  if offset ≤ i ∧ i < offset + len then src (i - offset) else dst i

def clearBlock : Nat → UInt8 := fun _ => 0

def firstMessage (bits : Nat) (pkt : Packet) : SequencerMsg :=
  let offset := pkt.addr % 2 ^ bits
  let len := if offset + pkt.size ≤ 2 ^ bits then pkt.size else 2 ^ bits - offset
  { physicalAddress := pkt.addr
    lineAddress := lineAddress bits pkt.addr
    type := if pkt.isWrite then .ST else .LD
    len := len
    dataBlk :=
      match pkt.isWrite, pkt.data with
      | true, some data => copyBytes clearBlock data offset len
      | _, _ => clearBlock }

def newRequest (bits number : Nat) (pkt : Packet) : DMARequest :=
  { startPaddr := pkt.addr
    len := pkt.size
    write := pkt.isWrite
    bytesCompleted := 0
    bytesIssued := (firstMessage bits pkt).len
    data := pkt.data
    pkt := number }

namespace Sequencer

variable (bits : Nat) (s : Sequencer)

def enqueue (number : Nat) (msg : SequencerMsg) : Sequencer :=
  { s with mandatoryQueue := s.mandatoryQueue ++ [(number, msg)], issued := s.issued ++ [(number, msg)] }

def makeRequest (pkt : Packet) : Option (Sequencer × RequestStatus) :=
  if s.outstandingCount = s.maxOutstandingRequests then some (s, .BufferFull)
  else if s.outstandingCount < s.maxOutstandingRequests then
    let line := lineAddress bits pkt.addr
    match s.requestTable line with
    | some _ => some (s, .Aliased)
    | none =>
      let number := s.packets.length
      some ({ s with
          requestTable := update s.requestTable line (some (newRequest bits number pkt))
          outstandingCount := s.outstandingCount + 1
          packets := s.packets ++ [pkt] : Sequencer }.enqueue number (firstMessage bits pkt), .Issued)
  else none

/-- The data of a message that `issueNext` issues. A null buffer is read for a write. -/
def nextData (request : DMARequest) (completed len : Nat) : Option (Nat → UInt8) :=
  if request.write then
    request.data.map fun data => copyBytes clearBlock (fun i => data (completed + i)) 0 len
  else some clearBlock

def issueNext (address : Nat) : Option Sequencer :=
  match s.requestTable address with
  | none => none
  | some request =>
    if s.outstandingCount ≤ s.maxOutstandingRequests then
      let completed := request.bytesIssued
      if request.len = completed then
        some { s with
          requestTable := update s.requestTable address none
          outstandingCount := s.outstandingCount - 1
          hits := s.hits ++ [(request.pkt, request.data)] }
      else
        let physicalAddress := (request.startPaddr + completed) % 2 ^ 64
        if physicalAddress % 2 ^ bits = 0 then
          let len := if request.len - completed < 2 ^ bits then request.len - completed else 2 ^ bits
          (nextData request completed len).map fun dataBlk =>
            { s with
              requestTable := update s.requestTable address
                (some { request with bytesCompleted := completed, bytesIssued := completed + len }) :
                Sequencer }.enqueue
              request.pkt
              { physicalAddress := physicalAddress
                lineAddress := lineAddress bits physicalAddress
                type := if request.write then .ST else .LD
                len := len
                dataBlk := dataBlk }
        else none
    else none

def dataCallback (dblk : Nat → UInt8) (address : Nat) : Option Sequencer :=
  match s.requestTable address with
  | none => none
  | some request =>
    let len := request.bytesIssued - request.bytesCompleted
    let offset := if request.bytesCompleted = 0 then request.startPaddr % 2 ^ bits else 0
    if request.write then none
    else
      match request.data with
      | none => s.issueNext bits address
      | some data =>
        -- the assertion of `getData`
        if offset + len ≤ 2 ^ bits then
          let copied := copyBytes data (fun i => dblk (offset + i)) request.bytesCompleted len
          { s with
            requestTable :=
              update s.requestTable address (some { request with data := some copied }) :
              Sequencer }.issueNext bits address
        else none

def ackCallback (address : Nat) : Option Sequencer :=
  match s.requestTable address with
  | none => none
  | some _ => s.issueNext bits address

/-- The controller answers a message that waits, with the address of the message's line. -/
def answer (i : Nat) (dblk : Nat → UInt8) : Option Sequencer :=
  match s.mandatoryQueue[i]? with
  | none => some s
  | some entry =>
    let taken : Sequencer :=
      { s with mandatoryQueue := s.mandatoryQueue.eraseIdx i, answers := s.answers ++ [(entry, dblk)] }
    match entry.2.type with
    | .LD => taken.dataCallback bits dblk entry.2.lineAddress
    | .ST => taken.ackCallback bits entry.2.lineAddress

end Sequencer

inductive Op where
  | request (pkt : Packet)
  | answer (i : Nat) (dblk : Nat → UInt8)

def Sequencer.step (bits : Nat) (s : Sequencer) : Op → Option Sequencer
  | .request pkt => (s.makeRequest bits pkt).map Prod.fst
  | .answer i dblk => s.answer bits i dblk

def run (bits maxOutstandingRequests : Nat) (ops : List Op) : Option Sequencer :=
  ops.foldlM (Sequencer.step bits) { maxOutstandingRequests := maxOutstandingRequests }

/-- The messages cover `len` bytes from `start` on once and in order, each within one line. -/
def Tiles (bits : Nat) : Nat → Nat → List SequencerMsg → Prop
  | _, len, [] => len = 0
  | start, len, msg :: rest =>
    msg.physicalAddress = start ∧ msg.lineAddress = lineAddress bits start ∧ 0 < msg.len ∧ msg.len ≤ len ∧
      start % 2 ^ bits + msg.len ≤ 2 ^ bits ∧ Tiles bits (start + msg.len) (len - msg.len) rest

def messagesOf (s : Sequencer) (number : Nat) : List SequencerMsg :=
  (s.issued.filter fun entry => entry.1 == number).map Prod.snd

structure Served (bits : Nat) (s : Sequencer) (number : Nat) (pkt : Packet) : Prop where
  tiles : Tiles bits pkt.addr pkt.size (messagesOf s number)
  written : ∀ data, pkt.isWrite = true → pkt.data = some data → ∀ msg ∈ messagesOf s number, msg.type = .ST ∧
    ∀ i < msg.len, msg.dataBlk (msg.physicalAddress % 2 ^ bits + i) = data (msg.physicalAddress - pkt.addr + i)
  loads : pkt.isWrite = false → ∀ msg ∈ messagesOf s number, msg.type = .LD
  -- one hit callback, and not before the last message is answered
  hit : (s.hits.filter fun entry => entry.1 == number).length =
    if s.mandatoryQueue.any fun entry => entry.1 == number then 0 else 1
  read : ∀ buffer, pkt.isWrite = false → (number, some buffer) ∈ s.hits → ∀ given ∈ s.answers, given.1.1 = number →
    ∀ i < given.1.2.len, buffer (given.1.2.physicalAddress - pkt.addr + i) =
      given.2 (given.1.2.physicalAddress % 2 ^ bits + i)

def Packet.Fits (bits : Nat) (pkt : Packet) : Prop := 0 < pkt.size ∧ pkt.addr % 2 ^ bits + pkt.size ≤ 2 ^ bits

instance (bits : Nat) (pkt : Packet) : Decidable (pkt.Fits bits) := inferInstanceAs (Decidable (_ ∧ _))

def Packet.result (bits : Nat) (pkt : Packet) (dblk : Nat → UInt8) : Option (Nat → UInt8) :=
  if pkt.isWrite then pkt.data
  else pkt.data.map fun data => copyBytes data (fun i => dblk (pkt.addr % 2 ^ bits + i)) 0 pkt.size

/-- Every packet lies within one line. It has issued one message, which waits or was answered. -/
structure Inv (bits : Nat) (s : Sequencer) : Prop where
  fits : ∀ pkt ∈ s.packets, pkt.Fits bits
  count : s.outstandingCount = s.mandatoryQueue.length
  room : s.outstandingCount ≤ s.maxOutstandingRequests
  waiting : ∀ entry ∈ s.mandatoryQueue, ∃ pkt, s.packets[entry.1]? = some pkt ∧ entry.2 = firstMessage bits pkt ∧
    s.requestTable entry.2.lineAddress = some (newRequest bits entry.1 pkt)
  lines : (s.mandatoryQueue.map fun entry => entry.2.lineAddress).Nodup
  issued : s.issued = s.packets.zipIdx.map fun entry => (entry.2, firstMessage bits entry.1)
  accounted : (s.hits.map Prod.fst ++ s.mandatoryQueue.map Prod.fst).Perm (List.range s.packets.length)
  answered : ∀ given ∈ s.answers, ∃ pkt, s.packets[given.1.1]? = some pkt ∧ given.1.2 = firstMessage bits pkt
  results : s.hits = s.answers.map fun given =>
    (given.1.1, (s.packets[given.1.1]?).bind fun pkt => pkt.result bits given.2)

section Steps

variable {bits : Nat} {s s' : Sequencer} {pkt : Packet}

theorem init_inv (maxOutstandingRequests : Nat) : Inv bits { maxOutstandingRequests := maxOutstandingRequests } where
  fits := by simp
  count := rfl
  room := Nat.zero_le _
  waiting := by simp
  lines := nodup_nil
  issued := rfl
  accounted := .nil
  answered := by simp
  results := rfl

theorem Packet.Fits.len (fits : pkt.Fits bits) : (firstMessage bits pkt).len = pkt.size := if_pos fits.2

theorem getElem?_of_append {packets : List Packet} {number : Nat} (found : packets[number]? = some pkt)
    (more : Packet) :
    (packets ++ [more])[number]? = some pkt := by
  rw [List.getElem?_append_left (List.getElem?_eq_some_iff.mp found).1]
  exact found

theorem makeRequest_inv (inv : Inv bits s) (fits : pkt.Fits bits) :
    ∃ s' status, s.makeRequest bits pkt = some (s', status) ∧ Inv bits s' := by
  unfold Sequencer.makeRequest
  split
  · exact ⟨s, _, rfl, inv⟩
  rename_i notFull
  have room : s.outstandingCount < s.maxOutstandingRequests := by
    have := inv.room
    omega
  rw [if_pos room]
  dsimp only
  split
  · exact ⟨s, _, rfl, inv⟩
  rename_i free
  refine ⟨_, _, rfl, ?_⟩
  have elsewhere : ∀ entry ∈ s.mandatoryQueue, entry.2.lineAddress ≠ lineAddress bits pkt.addr := by
    intro entry queued same
    obtain ⟨_, -, -, found⟩ := inv.waiting entry queued
    rw [same, free] at found
    cases found
  exact
    { fits := by
        intro other listed
        rcases mem_append.mp listed with old | new
        · exact inv.fits other old
        · rw [mem_singleton.mp new]
          exact fits
      count := by simp [Sequencer.enqueue, inv.count]
      room := room
      waiting := by
        intro entry queued
        rcases mem_append.mp queued with old | new
        · obtain ⟨other, found, message, request⟩ := inv.waiting entry old
          refine ⟨other, getElem?_of_append found pkt, message, ?_⟩
          rw [← request]
          exact update_of_ne (elsewhere entry old) _ _
        · rw [mem_singleton.mp new]
          exact ⟨pkt, List.getElem?_concat_length, rfl, update_self ..⟩
      lines := by
        simp only [Sequencer.enqueue, map_append, map_cons, map_nil]
        rw [nodup_append]
        refine ⟨inv.lines, nodup_singleton _, fun a old b new => ?_⟩
        obtain ⟨entry, queued, rfl⟩ := mem_map.mp old
        rw [mem_singleton.mp new]
        exact elsewhere entry queued
      issued := by simp [Sequencer.enqueue, inv.issued, zipIdx_append]
      accounted := by
        simp only [Sequencer.enqueue, map_append, map_cons, map_nil, length_append,
          length_singleton, range_succ, ← append_assoc]
        exact inv.accounted.append_right _
      answered := by
        intro given listed
        obtain ⟨other, found, message⟩ := inv.answered given listed
        exact ⟨other, getElem?_of_append found pkt, message⟩
      results := by
        refine inv.results.trans (map_congr_left fun given listed => ?_)
        obtain ⟨other, found, -⟩ := inv.answered given listed
        have still : (s.packets ++ [pkt])[given.1.1]? = some other := getElem?_of_append found pkt
        simp only [Sequencer.enqueue, found, still] }

theorem issueNext_done {address : Nat} (request : DMARequest) (found : s.requestTable address = some request)
    (room : s.outstandingCount ≤ s.maxOutstandingRequests) (all : request.len = request.bytesIssued) :
    s.issueNext bits address = some
      { s with
        requestTable := update s.requestTable address none
        outstandingCount := s.outstandingCount - 1
        hits := s.hits ++ [(request.pkt, request.data)] } := by
  unfold Sequencer.issueNext
  simp only [found, if_pos room, if_pos all]

theorem answer_eq (inv : Inv bits s) {i number : Nat} {msg : SequencerMsg} (dblk : Nat → UInt8)
    (queued : s.mandatoryQueue[i]? = some (number, msg)) :
    ∃ pkt, s.packets[number]? = some pkt ∧ msg = firstMessage bits pkt ∧
      s.answer bits i dblk = some
        { s with
          mandatoryQueue := s.mandatoryQueue.eraseIdx i
          answers := s.answers ++ [((number, msg), dblk)]
          requestTable := update s.requestTable msg.lineAddress none
          outstandingCount := s.outstandingCount - 1
          hits := s.hits ++ [(number, pkt.result bits dblk)] } := by
  obtain ⟨pkt, found, message, entry⟩ := inv.waiting _ (mem_of_getElem? queued)
  have fits := inv.fits pkt (mem_of_getElem? found)
  have len := fits.len
  refine ⟨pkt, found, message, ?_⟩
  dsimp only at message entry
  unfold Sequencer.answer
  rw [queued]
  dsimp only
  cases kind : pkt.isWrite with
  | true =>
    have type : msg.type = .ST := by simp [message, firstMessage, kind]
    rw [type]
    dsimp only
    unfold Sequencer.ackCallback
    dsimp only
    rw [entry]
    dsimp only
    refine (issueNext_done (newRequest bits number pkt) ?_ ?_ ?_).trans ?_
    · exact entry
    · exact inv.room
    · exact len.symm
    · simp [Packet.result, kind, newRequest]
  | false =>
    have type : msg.type = .LD := by simp [message, firstMessage, kind]
    rw [type]
    dsimp only
    unfold Sequencer.dataCallback
    dsimp only
    rw [entry]
    simp only [newRequest, kind, if_true, Nat.sub_zero, len, Bool.false_eq_true, if_false]
    cases buffer : pkt.data with
    | none =>
      dsimp only
      refine (issueNext_done (newRequest bits number pkt) ?_ ?_ ?_).trans ?_
      · exact entry
      · exact inv.room
      · exact len.symm
      · simp [Packet.result, kind, newRequest, buffer]
    | some data =>
      simp only [if_pos fits.2]
      refine (issueNext_done _ (update_self ..) ?_ ?_).trans ?_
      · exact inv.room
      · rfl
      · simp [Packet.result, kind, buffer]

theorem answer_inv (inv : Inv bits s) (i : Nat) (dblk : Nat → UInt8) :
    ∃ s', s.answer bits i dblk = some s' ∧ Inv bits s' := by
  cases queued : s.mandatoryQueue[i]? with
  | none =>
    refine ⟨s, ?_, inv⟩
    unfold Sequencer.answer
    rw [queued]
  | some entry =>
    obtain ⟨number, msg⟩ := entry
    obtain ⟨pkt, found, message, result⟩ := answer_eq inv dblk queued
    refine ⟨_, result, ?_⟩
    obtain ⟨below, here⟩ := List.getElem?_eq_some_iff.mp queued
    have split : ((number, msg) :: s.mandatoryQueue.eraseIdx i).Perm s.mandatoryQueue := by
      rw [← here]
      exact getElem_cons_eraseIdx_perm below
    have lines := (nodup_cons.mp ((split.map fun entry => entry.2.lineAddress).nodup_iff.mpr inv.lines))
    exact
      { fits := inv.fits
        count := by
          have length := split.length_eq
          have count := inv.count
          simp only [length_cons] at length
          dsimp only
          omega
        room := Nat.le_trans (Nat.sub_le _ _) inv.room
        waiting := by
          intro entry kept
          obtain ⟨other, listed, same, request⟩ := inv.waiting entry (mem_of_mem_eraseIdx kept)
          refine ⟨other, listed, same, ?_⟩
          rw [← request]
          exact update_of_ne (fun same => lines.1 (mem_map.mpr ⟨entry, kept, same⟩)) _ _
        lines := lines.2
        issued := inv.issued
        accounted := by
          refine List.Perm.trans ?_ inv.accounted
          simp only [map_append, map_cons, map_nil, append_assoc, singleton_append]
          exact (split.map Prod.fst).append_left _
        answered := by
          intro given listed
          rcases mem_append.mp listed with old | new
          · exact inv.answered given old
          · rw [mem_singleton.mp new]
            exact ⟨pkt, found, message⟩
        results := by
          simp only [map_append, map_cons, map_nil, found, Option.bind_some]
          rw [inv.results] }

theorem filter_zipIdx {α : Type} {l : List α} {x : α} {i : Nat} (found : l[i]? = some x) (start : Nat) :
    (l.zipIdx start).filter (fun entry => entry.2 == start + i) = [(x, start + i)] := by
  induction l generalizing start i with
  | nil => cases found
  | cons y ys ih =>
    rw [zipIdx_cons]
    cases i with
    | zero =>
      cases found
      rw [filter_cons_of_pos (by simp), filter_eq_nil_iff.mpr]
      · rfl
      · intro entry later
        have above := le_snd_of_mem_zipIdx later
        simp only [beq_iff_eq]
        omega
    | succ i =>
      have next : start + (i + 1) = start + 1 + i := by omega
      rw [filter_cons_of_neg (by simp), next]
      exact ih found (start + 1)

theorem messagesOf_eq (inv : Inv bits s) {number : Nat} (listed : s.packets[number]? = some pkt) :
    messagesOf s number = [firstMessage bits pkt] := by
  have once := filter_zipIdx listed 0
  rw [Nat.zero_add] at once
  unfold messagesOf
  rw [inv.issued, filter_map]
  simp only [Function.comp_def, once, map_cons, map_nil]

theorem Inv.count_eq (inv : Inv bits s) {number : Nat} (listed : s.packets[number]? = some pkt) :
    (s.hits.filter fun entry => entry.1 == number).length + (s.mandatoryQueue.map Prod.fst).count number = 1 := by
  have below := (List.getElem?_eq_some_iff.mp listed).1
  have total := inv.accounted.count_eq number
  rw [count_append, count_eq_one_of_mem nodup_range (mem_range.mpr below)] at total
  have counted : (s.hits.map Prod.fst).count number = (s.hits.filter fun entry => entry.1 == number).length := by
    rw [List.count, countP_map, countP_eq_length_filter]
    rfl
  rw [← counted]
  exact total

theorem Inv.nodup_answers (inv : Inv bits s) : (s.answers.map fun given => given.1.1).Nodup := by
  have distinct := inv.accounted.nodup_iff.mpr nodup_range
  have same : s.hits.map Prod.fst = s.answers.map fun given => given.1.1 := by
    rw [inv.results, map_map]
    rfl
  rw [← same]
  exact (nodup_append.mp distinct).1

theorem Inv.served (inv : Inv bits s) {number : Nat} (listed : s.packets[number]? = some pkt) :
    Served bits s number pkt := by
  have messages := messagesOf_eq inv listed
  have fits := inv.fits pkt (mem_of_getElem? listed)
  have len := fits.len
  exact
    { tiles := by
        rw [messages]
        refine ⟨rfl, rfl, ?_, ?_, ?_, ?_⟩
        · rw [len]
          exact fits.1
        · exact Nat.le_of_eq len
        · rw [len]
          exact fits.2
        · rw [len]
          exact Nat.sub_self _
      written := by
        intro data write buffer msg issued
        rw [messages, mem_singleton] at issued
        subst issued
        refine ⟨by simp [firstMessage, write], fun i below => ?_⟩
        simp only [firstMessage, write, buffer] at below ⊢
        simp [copyBytes, below]
      loads := by
        intro read msg issued
        rw [messages, mem_singleton] at issued
        simp [issued, firstMessage, read]
      hit := by
        have total := inv.count_eq listed
        split
        · rename_i waits
          obtain ⟨entry, queued, same⟩ := any_eq_true.mp waits
          have positive : 0 < (s.mandatoryQueue.map Prod.fst).count number :=
            count_pos_iff.mpr (mem_map.mpr ⟨entry, queued, beq_iff_eq.mp same⟩)
          omega
        · rename_i none
          have absent : (s.mandatoryQueue.map Prod.fst).count number = 0 := by
            refine count_eq_zero.mpr fun queued => none ?_
            obtain ⟨entry, present, same⟩ := mem_map.mp queued
            exact any_eq_true.mpr ⟨entry, present, beq_iff_eq.mpr same⟩
          omega
      read := by
        intro buffer read done given listed' same
        rw [inv.results] at done
        obtain ⟨given', answered, result⟩ := mem_map.mp done
        have unique : given' = given := inj_on_of_nodup_map inv.nodup_answers answered listed'
          ((congrArg Prod.fst result).trans same.symm)
        subst unique
        obtain ⟨other, found, message⟩ := inv.answered given' answered
        rw [same, listed] at found
        cases found
        have copied := congrArg Prod.snd result
        simp only [same, listed, Option.bind_some, Packet.result, read, Bool.false_eq_true, if_false] at copied
        obtain ⟨data, -, rfl⟩ := Option.map_eq_some_iff.mp copied
        intro i below
        rw [message] at below ⊢
        rw [len] at below
        simp [firstMessage, copyBytes, below] }

theorem run_inv {maxOutstandingRequests : Nat} {ops : List Op} (fits : ∀ pkt, .request pkt ∈ ops → pkt.Fits bits) :
    ∃ s, run bits maxOutstandingRequests ops = some s ∧ Inv bits s := by
  suffices steps : ∀ start, Inv bits start → ∃ s, ops.foldlM (Sequencer.step bits) start = some s ∧ Inv bits s from
    steps _ (init_inv maxOutstandingRequests)
  induction ops with
  | nil => exact fun start inv => ⟨start, rfl, inv⟩
  | cons op ops ih =>
    intro start inv
    obtain ⟨next, stepped, inv'⟩ : ∃ next, start.step bits op = some next ∧ Inv bits next := by
      cases op with
      | request pkt =>
        obtain ⟨next, status, made, inv'⟩ := makeRequest_inv inv (fits pkt mem_cons_self)
        exact ⟨next, by rw [Sequencer.step, made]; rfl, inv'⟩
      | answer i dblk => exact answer_inv inv i dblk
    obtain ⟨s, reached, inv''⟩ := ih (fun pkt later => fits pkt (mem_cons_of_mem _ later)) next inv'
    refine ⟨s, ?_, inv''⟩
    rw [foldlM_cons, stepped]
    exact reached

end Steps

/-- If every packet lies within a line, no assertion fails and every packet is served, whatever the order of the requests
and the answers. -/
theorem dma_requests_complete (bits maxOutstandingRequests : Nat) {ops : List Op}
    (fits : ∀ pkt, .request pkt ∈ ops → pkt.Fits bits) :
    ∃ s, run bits maxOutstandingRequests ops = some s ∧
      ∀ number pkt, s.packets[number]? = some pkt → Served bits s number pkt := by
  obtain ⟨s, reached, inv⟩ := run_inv fits
  exact ⟨s, reached, fun _ _ listed => inv.served listed⟩

theorem dma_requests_complete_read :
    ∃ s, run 6 1 [.request ⟨10, 4, false, some clearBlock⟩, .answer 0 fun _ => 7] = some s ∧
      ∀ number pkt, s.packets[number]? = some pkt → Served 6 s number pkt := by
  refine dma_requests_complete 6 1 fun pkt made => ?_
  simp only [mem_cons, Op.request.injEq, reduceCtorEq, not_mem_nil, or_false] at made
  subst made
  decide

/-- The answer to the second message of a read that spans two lines finds no request. -/
theorem dma_request_lost :
    (run 6 1 [.request ⟨60, 8, false, some clearBlock⟩, .answer 0 fun _ => 7]).isSome = true ∧
      (run 6 1 [.request ⟨60, 8, false, some clearBlock⟩, .answer 0 fun _ => 7, .answer 0 fun _ => 7]).isSome =
        false := by
  decide +kernel

end Resister.Ruby.DmaSequencer
