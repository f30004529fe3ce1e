import Resister.Garnet.Flit

/-!
# The risk detector

`HistoryRecord` of the input units and `outportRecord` of the router: the short-term history of the
packets that entered at the local port, the last packets sent through each output port, and
`riskFind`.
-/

namespace Resister.Garnet

open List

structure HistoryEntry where
  src : Nat := 0
  dst : Nat := 0
  inport : Nat := 0
  output : Nat := 0
  cycleRecieve : Nat := 0
  deriving DecidableEq, Repr

def getCycle (curTick : Nat) : Nat := curTick / 500

def emptyHistory : List HistoryEntry := List.replicate 8 {}

def updateHistory (table : List HistoryEntry) (entry : HistoryEntry) : List HistoryEntry :=
  table.tail ++ [entry]

/-- `HistoryRecord::entryCmp`. -/
def historyEntryCmp (a b : HistoryEntry) : Bool :=
  a.src == b.src && a.dst == b.dst && a.output == b.output

/-- `outportRecord`: for every output port the last eight pairs of source and destination, `none`
for `(-1, -1)`. -/
def emptyOutportRecord (ports : Nat) : List (List (Option (Nat × Nat))) :=
  List.replicate ports (List.replicate 8 none)

/-- `outportRecord::update`. -/
def updateOutportRecord (record : List (List (Option (Nat × Nat)))) (outport src dst : Nat) :
    List (List (Option (Nat × Nat))) :=
  record.modify outport fun entries => entries.tail ++ [some (src, dst)]

def findMutual (record : List (List (Option (Nat × Nat)))) (src dst outport : Nat) : Nat :=
  (record.getD outport []).count (some (src, dst))

def computeVariance (times : List Nat) : Float :=
  if times.length ≤ 1 then 0
  else
    let size := Float.ofNat times.length
    let avg := times.foldl (fun sum num => sum + Float.ofNat num) 0 / size
    let variance := times.foldl (fun sum num => sum + (Float.ofNat num - avg) * (Float.ofNat num - avg)) 0
    Float.sqrt (variance / size)

def computeFluctuation (times : List Nat) : Int :=
  let avg := times.foldl (fun sum num => sum + Float.ofNat num) 0 / Float.ofNat times.length
  ((times.map fun num => (Float.ofNat num - avg).abs.toInt32.toInt).max?).getD 0

def computeAvg (times : List Nat) : Float :=
  (RoutingUnit.timePatternDiff times).foldl (fun sum num => sum + Float.ofNat num) 0 /
    Float.ofNat (times.length - 1)

def regularTest (times : List Nat) : Bool :=
  decide (computeVariance (RoutingUnit.timePatternDiff times) ≤ 10) && decide ((computeAvg times).abs < 120)

def fluctuationTest (times : List Nat) : Bool :=
  decide (Float.ofInt (computeFluctuation (RoutingUnit.timePatternDiff times)) < computeAvg times) &&
    decide ((computeAvg times).abs < 120)

inductive Variant where
  | regular | variant1 | variant2 | variant3
  deriving DecidableEq, Repr

def Variant.all : Nat := 1 + (1 <<< 1) + (1 <<< 2)

def isVariant (a : Nat) (vNow : Variant) : Bool :=
  if a = 0 then vNow == .regular
  else if a = Variant.all then true
  else if a &&& 1 = 1 then vNow == .variant1
  else if a &&& 2 = 2 then vNow == .variant2
  else if a &&& 4 = 4 then vNow == .variant3
  else false

def majorityEntry (table : List HistoryEntry) : Option HistoryEntry :=
  table.foldl
    (fun risk entry => if table.length < 2 * table.countP (historyEntryCmp entry) then some entry else risk) none

/-- `HistoryRecord::riskFind`. Each of the first three tests overwrites the verdict of the one
before, the last one only adds to it. -/
def riskFind (table : List HistoryEntry) (now : HistoryEntry) (record : List (List (Option (Nat × Nat))))
    (nowRoute destRoute variant outport : Nat) : Bool :=
  if table.any fun entry => entry.cycleRecieve == 0 then false
  else
    let find := (majorityEntry table).isSome
    let risk := (majorityEntry table).getD {}
    if !find && !isVariant variant .variant3 then false
    else if !historyEntryCmp now risk && !isVariant variant .variant3 then false
    else
      let timed :=
        if find && historyEntryCmp now risk then
          let times := (table.filter fun entry => historyEntryCmp entry risk).map HistoryEntry.cycleRecieve
          let hasRisk := if isVariant variant .regular then regularTest times else false
          let hasRisk := if isVariant variant .variant1 then fluctuationTest times else hasRisk
          if isVariant variant .variant2 then historyEntryCmp now risk && find else hasRisk
        else false
      if isVariant variant .variant3 && decide (8 ≤ 2 * findMutual record nowRoute destRoute outport) then true
      else timed

/-- A packet header as the local input unit sees it: the flow and the cycle of arrival. -/
structure Header where
  src : Nat
  dst : Nat
  cycle : Nat
  deriving DecidableEq, Repr

def Header.flow (header : Header) : Nat × Nat := (header.src, header.dst)

/-- The entry that `wakeup` makes of a header: the output is the destination router. -/
def Header.entry (header : Header) : HistoryEntry := ⟨header.src, header.dst, 0, header.dst, header.cycle⟩

def historyOf (headers : List Header) : List HistoryEntry :=
  headers.foldl (fun table header => updateHistory table header.entry) emptyHistory

def HistoryEntry.flow (entry : HistoryEntry) : Nat × Nat := (entry.src, entry.dst)

theorem foldl_updateHistory (table : List HistoryEntry) (nonempty : table ≠ []) (headers : List Header) :
    headers.foldl (fun table header => updateHistory table header.entry) table =
      (table ++ headers.map Header.entry).drop headers.length := by
  induction headers generalizing table with
  | nil => simp
  | cons header rest ih =>
    rw [foldl_cons, ih (updateHistory table header.entry) (by simp [updateHistory])]
    obtain ⟨first, later, rfl⟩ := exists_cons_of_ne_nil nonempty
    simp [updateHistory]

theorem historyOf_eq (headers : List Header) :
    historyOf headers = (emptyHistory ++ headers.map Header.entry).drop headers.length :=
  foldl_updateHistory emptyHistory (by simp [emptyHistory]) headers

theorem length_historyOf (headers : List Header) : (historyOf headers).length = 8 := by
  simp only [historyOf_eq, emptyHistory, length_drop, length_append, length_replicate,
    length_map]
  omega

theorem output_of_mem {headers : List Header} {entry : HistoryEntry} (present : entry ∈ historyOf headers) :
    entry.output = entry.dst := by
  rw [historyOf_eq] at present
  rcases mem_append.mp (mem_of_mem_drop present) with old | new
  · rw [(mem_replicate.mp old).2]
  · obtain ⟨header, -, rfl⟩ := mem_map.mp new
    rfl

theorem historyEntryCmp_iff {a b : HistoryEntry} (first : a.output = a.dst) (second : b.output = b.dst) :
    historyEntryCmp a b = true ↔ a.flow = b.flow := by
  simp only [historyEntryCmp, HistoryEntry.flow, first, second, Bool.and_eq_true, beq_iff_eq, Prod.mk.injEq]
  exact and_assoc.trans (and_congr_right fun _ => and_self_iff)

theorem countP_cmp {table : List HistoryEntry} (outputs : ∀ e ∈ table, e.output = e.dst) {entry : HistoryEntry}
    (own : entry.output = entry.dst) :
    table.countP (historyEntryCmp entry) = (table.map HistoryEntry.flow).count entry.flow := by
  rw [List.count, countP_map]
  refine countP_congr fun e present => ?_
  rw [historyEntryCmp_iff own (outputs e present), Function.comp_apply, beq_iff_eq]
  exact eq_comm

theorem majorityEntry_eq (table : List HistoryEntry) :
    majorityEntry table =
      table.reverse.find? fun entry => table.length < 2 * table.countP (historyEntryCmp entry) := by
  suffices last : ∀ (p : HistoryEntry → Bool) (xs : List HistoryEntry) (start : Option HistoryEntry),
      xs.foldl (fun risk entry => if p entry then some entry else risk) start =
        (xs.reverse.find? p).or start by
    have loop := last (fun entry => table.length < 2 * table.countP (historyEntryCmp entry)) table none
    simpa [majorityEntry] using loop
  intro p xs
  induction xs with
  | nil => exact fun _ => rfl
  | cons x xs ih =>
    intro start
    rw [foldl_cons, ih, reverse_cons, List.find?_append, Option.or_assoc]
    cases matched : p x <;> simp [matched]

theorem count_add_count_le {α : Type} [BEq α] [LawfulBEq α] {a b : α} (different : a ≠ b) (xs : List α) :
    xs.count a + xs.count b ≤ xs.length := by
  induction xs with
  | nil => simp
  | cons x xs ih =>
    by_cases first : x = a
    · have second : x ≠ b := fun same => different (first.symm.trans same)
      simp only [first, count_cons_self, count_cons_of_ne (first ▸ second), length_cons]
      omega
    · rw [count_cons_of_ne first, length_cons]
      have := count_cons (a := b) (b := x) (l := xs)
      split at this <;> omega

theorem majorityEntry_any {table : List HistoryEntry} (outputs : ∀ e ∈ table, e.output = e.dst)
    {now : HistoryEntry} (own : now.output = now.dst) :
    (majorityEntry table).any (historyEntryCmp now) = true ↔
      table.length < 2 * (table.map HistoryEntry.flow).count now.flow := by
  rw [majorityEntry_eq, Option.any_eq_true]
  constructor
  · rintro ⟨entry, found, same⟩
    have output := outputs entry (mem_reverse.mp (mem_of_find?_eq_some found))
    have most := List.find?_some found
    rw [decide_eq_true_eq, countP_cmp outputs output] at most
    rwa [(historyEntryCmp_iff own output).mp same]
  · intro most
    obtain ⟨entry, present, flow⟩ : ∃ entry ∈ table, entry.flow = now.flow := by
      refine mem_map.mp (count_pos_iff.mp ?_)
      omega
    have candidate : (table.reverse.find? fun e => table.length < 2 * table.countP (historyEntryCmp e)).isSome := by
      rw [List.find?_isSome]
      refine ⟨entry, mem_reverse.mpr present, ?_⟩
      rw [decide_eq_true_eq, countP_cmp outputs (outputs entry present), flow]
      exact most
    obtain ⟨last, found⟩ := Option.isSome_iff_exists.mp candidate
    have output := outputs last (mem_reverse.mp (mem_of_find?_eq_some found))
    have also := List.find?_some found
    rw [decide_eq_true_eq, countP_cmp outputs output] at also
    refine ⟨last, found, (historyEntryCmp_iff own output).mpr ?_⟩
    by_contra different
    have both := count_add_count_le different (table.map HistoryEntry.flow)
    rw [length_map] at both
    omega

theorem riskFind_all (table : List HistoryEntry) (now : HistoryEntry)
    (record : List (List (Option (Nat × Nat)))) (src dst outport : Nat) :
    riskFind table now record src dst Variant.all outport = true ↔
      (∀ e ∈ table, e.cycleRecieve ≠ 0) ∧
        ((majorityEntry table).any (historyEntryCmp now) = true ∨ 8 ≤ 2 * findMutual record src dst outport) := by
  have enabled : ∀ v, isVariant Variant.all v = true := fun v => by cases v <;> rfl
  unfold riskFind
  simp only [enabled, if_true]
  by_cases zero : table.any (fun entry => entry.cycleRecieve == 0) = true
  · obtain ⟨entry, present, unset⟩ := any_eq_true.mp zero
    simp only [zero, if_true, Bool.false_eq_true, false_iff, not_and]
    exact fun all => (all entry present (beq_iff_eq.mp unset)).elim
  · have all : ∀ e ∈ table, e.cycleRecieve ≠ 0 := fun e present unset =>
      zero (any_eq_true.mpr ⟨e, present, beq_iff_eq.mpr unset⟩)
    rw [if_neg zero, and_iff_right all]
    cases majorityEntry table with
    | none => simp
    | some risk => cases cmp : historyEntryCmp now risk <;> simp [cmp]

theorem riskFind_historyOf (headers : List Header) (record : List (List (Option (Nat × Nat))))
    (src dst cycle outport : Nat) :
    riskFind (historyOf headers) (Header.entry ⟨src, dst, cycle⟩) record src dst Variant.all outport = true ↔
      (∀ e ∈ historyOf headers, e.cycleRecieve ≠ 0) ∧
        (5 ≤ ((historyOf headers).map HistoryEntry.flow).count (src, dst) ∨
          4 ≤ (record.getD outport []).count (some (src, dst))) := by
  rw [riskFind_all, majorityEntry_any (fun e => output_of_mem) rfl, length_historyOf]
  have flow : (Header.entry ⟨src, dst, cycle⟩).flow = (src, dst) := rfl
  rw [flow]
  unfold findMutual
  refine and_congr_right fun _ => or_congr ?_ ?_
  · omega
  · omega

theorem historyOf_times {headers : List Header} (stamped : ∀ h ∈ headers, h.cycle ≠ 0) :
    (∀ e ∈ historyOf headers, e.cycleRecieve ≠ 0) ↔ 8 ≤ headers.length := by
  rw [historyOf_eq]
  constructor
  · intro all
    by_contra few
    refine all {} ?_ rfl
    rw [drop_append_of_le_length (by simp [emptyHistory]; omega), emptyHistory, drop_replicate]
    refine mem_append_left _ (mem_replicate.mpr ⟨by omega, rfl⟩)
  · intro many e present
    rw [drop_append, drop_eq_nil_of_le (by simpa [emptyHistory] using many), nil_append] at present
    obtain ⟨header, seen, rfl⟩ := mem_map.mp (mem_of_mem_drop present)
    exact stamped header seen

theorem historyOf_flows (headers : List Header) :
    (historyOf headers).map HistoryEntry.flow =
      (emptyHistory.map HistoryEntry.flow ++ headers.map Header.flow).drop (headers.map Header.flow).length := by
  rw [historyOf_eq, map_drop, map_append, map_map, length_map]
  rfl

/-- The detector's verdict on a flow is that of two counts: five of the eight entries of the table,
or four of the eight latest records of the predicted port, once every entry of the table has a
time. It does not depend on the times between the packets. -/
theorem detector_verdict :
    (∀ (headers : List Header) (record : List (List (Option (Nat × Nat)))) (src dst cycle port : Nat),
      riskFind (historyOf headers) (Header.entry ⟨src, dst, cycle⟩) record src dst Variant.all port = true ↔
        (∀ e ∈ historyOf headers, e.cycleRecieve ≠ 0) ∧
          (5 ≤ ((historyOf headers).map HistoryEntry.flow).count (src, dst) ∨
            4 ≤ (record.getD port []).count (some (src, dst)))) ∧
    ∀ (headers headers' : List Header) (record : List (List (Option (Nat × Nat)))) (src dst cycle cycle' port : Nat),
      headers.map Header.flow = headers'.map Header.flow →
      (∀ h ∈ headers, h.cycle ≠ 0) → (∀ h ∈ headers', h.cycle ≠ 0) →
      riskFind (historyOf headers) (Header.entry ⟨src, dst, cycle⟩) record src dst Variant.all port =
        riskFind (historyOf headers') (Header.entry ⟨src, dst, cycle'⟩) record src dst Variant.all port := by
  refine ⟨riskFind_historyOf, fun headers headers' record src dst cycle cycle' port flows stamped stamped' => ?_⟩
  have lengths : headers.length = headers'.length := by simpa using congrArg List.length flows
  rw [Bool.eq_iff_iff, riskFind_historyOf, riskFind_historyOf, historyOf_times stamped, historyOf_times stamped',
    historyOf_flows, historyOf_flows, flows, lengths]

theorem detector_verdict_spaced :
    riskFind (historyOf ((List.range 8).map fun k => ⟨0, 1, k + 1⟩)) (Header.entry ⟨0, 1, 8⟩)
    [] 0 1 Variant.all 0 = true ∧
      riskFind (historyOf ((List.range 8).map fun k => ⟨0, 1, k + 1⟩)) (Header.entry ⟨0, 1, 8⟩) [] 0 1 Variant.all 0 =
        riskFind (historyOf ((List.range 8).map fun k => ⟨0, 1, 100 * k * k + 7⟩)) (Header.entry ⟨0, 1, 5000⟩) [] 0 1
          Variant.all 0 :=
  ⟨(detector_verdict.1 _ _ _ _ _ _).mpr (by decide),
    detector_verdict.2 _ _ _ _ _ _ _ _ (by decide) (by decide) (by decide)⟩

end Resister.Garnet
