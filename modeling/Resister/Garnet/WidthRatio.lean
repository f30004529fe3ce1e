import Resister.Garnet.SerDes

/-!
# Packets between widths that divide

When the narrow width divides the wide one, a bridge turns the packet of a message at one width into
its packet at the other.
-/

namespace Resister.Garnet

open Library List

def groups (W w msgSize : Nat) : List Nat := (List.range (flitCount msgSize W)).map (serialized W w msgSize)

section Groups

variable {w r msgSize i : Nat}

theorem ExactWidths.two_le (fit : ExactWidths w (w * r) msgSize) : 2 ≤ r := by
  have less := fit.less
  by_contra small
  have one : r ≤ 1 := by omega
  have := Nat.mul_le_mul_left w one
  omega

theorem ratio_eq (positive : 0 < w) : (w * r + w - 1) / w = r := by
  rw [Nat.add_sub_assoc positive, Nat.mul_add_div positive, Nat.div_eq_of_lt (by omega)]
  exact Nat.add_zero r

theorem mul_ratio_div (positive : 0 < w) : i * (w * r) / w = i * r := by
  rw [Nat.mul_left_comm, Nat.mul_div_cancel_left _ positive]

theorem mul_div_ratio (positive : 0 < w) : i * w / (w * r) = i / r := by
  rw [Nat.mul_comm i w, Nat.mul_div_mul_left _ _ positive]

theorem flitCount_ratio (fit : ExactWidths w (w * r) msgSize) :
    flitCount msgSize (w * r) = (flitCount msgSize w - 1) / r + 1 := by
  rw [flitCount_pred fit.size (Nat.zero_lt_of_lt fit.less), flitCount_pred fit.size fit.positive,
    Nat.add_sub_cancel, Nat.div_div_eq_div_mul]

theorem serialized_ratio (positive : 0 < w) :
    serialized (w * r) w msgSize i =
      if i + 1 = flitCount msgSize (w * r) then flitCount msgSize w - i * r else r := by
  rw [serialized, mul_ratio_div positive, mul_ratio_div positive, Nat.succ_mul, Nat.add_sub_cancel_left]

theorem group_start_le (fit : ExactWidths w (w * r) msgSize) (inside : i < flitCount msgSize (w * r)) :
    i * r + 1 ≤ flitCount msgSize w := by
  have some_flit := flitCount_pos fit.size fit.positive
  have two := fit.two_le
  rw [flitCount_ratio fit] at inside
  have below : i * r ≤ flitCount msgSize w - 1 := (Nat.le_div_iff_mul_le (by omega)).mp (by omega)
  omega

theorem serialized_pos (fit : ExactWidths w (w * r) msgSize) (inside : i < flitCount msgSize (w * r)) :
    0 < serialized (w * r) w msgSize i := by
  have two := fit.two_le
  have start := group_start_le fit inside
  rw [serialized_ratio fit.positive]
  split <;> omega

theorem groups_pos (fit : ExactWidths w (w * r) msgSize) : ∀ size ∈ groups (w * r) w msgSize, 0 < size := by
  intro size member
  obtain ⟨k, below, rfl⟩ := mem_map.mp member
  exact serialized_pos fit (mem_range.mp below)

theorem length_groups (W w msgSize : Nat) : (groups W w msgSize).length = flitCount msgSize W := by
  rw [groups, length_map, length_range]

theorem groups_drop (inside : i < flitCount msgSize (w * r)) :
    (groups (w * r) w msgSize).drop i =
      serialized (w * r) w msgSize i :: (groups (w * r) w msgSize).drop (i + 1) := by
  have length := length_groups (w * r) w msgSize
  rw [drop_eq_getElem_cons (by omega)]
  congr 1
  simp [groups]

theorem groups_drop_all : (groups (w * r) w msgSize).drop (flitCount msgSize (w * r)) = [] := by
  apply drop_eq_nil_of_le
  rw [length_groups]

theorem groups_sum (fit : ExactWidths w (w * r) msgSize) :
    (groups (w * r) w msgSize).sum = flitCount msgSize w := by
  obtain ⟨k, count⟩ : ∃ k, flitCount msgSize (w * r) = k + 1 :=
    ⟨(flitCount msgSize w - 1) / r, flitCount_ratio fit⟩
  have start := group_start_le fit (show k < flitCount msgSize (w * r) by omega)
  have full : (List.range k).map (serialized (w * r) w msgSize) = (List.range k).map fun _ => r := by
    refine map_congr_left fun i below => ?_
    rw [mem_range] at below
    rw [serialized_ratio fit.positive, if_neg (by omega)]
  rw [groups, count, range_succ, map_append, sum_append, full, map_singleton, sum_singleton,
    serialized_ratio fit.positive, if_pos count.symm]
  simp only [map_const', length_range, sum_replicate, smul_eq_mul]
  omega

end Groups

theorem Parts.append {msgSize width vc start : Nat} {fs rest : List BridgeFlit}
    (each : ∀ j (inside : j < fs.length), fs[j].IsPart msgSize width vc (start + j))
    (others : Parts msgSize width vc (start + fs.length) rest) : Parts msgSize width vc start (fs ++ rest) := by
  induction fs generalizing start with
  | nil => exact others
  | cons f more ih =>
    refine ⟨each 0 (Nat.zero_lt_succ _), ih (fun j inside => ?_) ?_⟩
    · have next := each (j + 1) (Nat.succ_lt_succ inside)
      rw [Nat.add_assoc, Nat.add_comm 1 j]
      exact next
    · rw [Nat.add_assoc, Nat.add_comm 1]
      exact others

theorem BridgeFlit.rebuild_isPart {f : BridgeFlit} {msgSize cur target vc i k : Nat}
    (part : f.IsPart msgSize cur vc i) :
    (f.rebuild k (floatDivCeil msgSize target) target).IsPart msgSize target vc k :=
  ⟨rfl, rfl, part.msgSize, rfl, part.vc⟩

section Run

variable {w r msgSize vc i : Nat} {f : BridgeFlit} {v : BridgeVc} {fs : List BridgeFlit}

/-- What a run over the rest of a packet put out: the rest of the converted packet, and the sizes of
the groups. -/
structure ConvertedTo (msgSize target vc start : Nat) (sizes : List Nat)
    (outs : List (List Traffic × Option Int)) (flits : List BridgeFlit) : Prop where
  scheduled : outs.flatMap (·.1) = flits.map Traffic.flit
  parts : Parts msgSize target vc start flits
  told : outs.filterMap (·.2) = sizes.map Int.ofNat

theorem serialize_run (fit : ExactWidths w (w * r) msgSize) (parts : Parts msgSize (w * r) vc i fs)
    (nonempty : fs ≠ []) (sent : Serialized (w * r) w i v) :
    ∃ v' outs flits, runMachine (BridgeVc.handleFlit (w * r) w) v fs = some (v', outs) ∧
      ConvertedTo msgSize w vc (i * r) ((groups (w * r) w msgSize).drop i) outs flits ∧
      flits.head?.map (·.route) = fs.head?.map (·.route) := by
  have wide := fit.numFlits_wide
  have narrow := fit.numFlits_narrow
  have positive := fit.positive
  induction fs generalizing i v with
  | nil => exact absurd rfl nonempty
  | cons f rest ih =>
    have length := parts.length
    rw [length_cons] at length
    obtain ⟨v', -, -, next, -, stepped⟩ := serialize_step fit parts.1 (by omega) sent
    have ids : IdsFit (w * r) w msgSize i := (idsFit_iff fit).mpr (Or.inl (Nat.dvd_mul_right w r)) i (by omega)
    have handled := BridgeVc.handleFlit_serialize fit.less v f
    rw [stepped, if_pos ids, Option.map_some, ratio_eq positive] at handled
    have group : ∀ j (inside : j < ((List.range (serialized (w * r) w msgSize i)).map fun j =>
        f.rebuild (i * r + j) (flitCount msgSize w) w).length),
        (((List.range (serialized (w * r) w msgSize i)).map fun j =>
          f.rebuild (i * r + j) (flitCount msgSize w) w)[j]).IsPart msgSize w vc (i * r + j) := by
      intro j inside
      rw [getElem_map, getElem_range, ← narrow]
      exact BridgeFlit.rebuild_isPart parts.1
    have head : ∀ more : List BridgeFlit, (((List.range (serialized (w * r) w msgSize i)).map fun j =>
        f.rebuild (i * r + j) (flitCount msgSize w) w) ++ more).head?.map (·.route) = some f.route := by
      intro more
      obtain ⟨n, count⟩ := Nat.exists_eq_succ_of_ne_zero (serialized_pos fit (show i < _ by omega)).ne'
      rw [count, range_succ_eq_map]
      rfl
    by_cases last : rest = []
    · subst last
      simp only [length_nil] at length
      refine ⟨v', _, _, runMachine_cons handled rfl, ⟨?_, ?_, ?_⟩, head []⟩
      · simp
      · apply Parts.append group
        show i * r + _ = _
        rw [length_map, length_range, serialized_ratio positive, if_pos (by omega)]
        have below := group_start_le fit (show i < _ by omega)
        omega
      · rw [groups_drop (by omega), show i + 1 = flitCount msgSize (w * r) from by omega, groups_drop_all]
        rfl
    · have more : 0 < rest.length := length_pos_iff.mpr last
      obtain ⟨final, outs, flits, ran, ⟨scheduled, others, told⟩, -⟩ :=
        ih parts.2 last (next (by omega))
      refine ⟨final, _, _, runMachine_cons handled ran, ⟨?_, ?_, ?_⟩, head flits⟩
      · simp [scheduled]
      · apply Parts.append group
        rw [length_map, length_range, serialized_ratio positive, if_neg (by omega), ← Nat.succ_mul]
        exact others
      · rw [groups_drop (by omega)]
        simp [told]

/-- The state of a channel after the flits before number `i` of a deserialised packet, with the
number of flits in the wide flits sent. -/
structure Grouped (w r i : Nat) (v : BridgeVc) : Prop where
  deserialized : Deserialized (w * r) w i v
  flitsSent : v.flitsSent = (i / r * r : Nat)

def untilComplete (r count i : Nat) : Nat := min ((i / r + 1) * r) count - (i + 1)

theorem completes_iff (positive : 0 < w) (some_ratio : 0 < r) :
    Completes (w * r) w msgSize i ↔ i + 1 = flitCount msgSize w ∨ (i + 1) / r = i / r + 1 := by
  unfold Completes
  rw [mul_div_ratio positive, mul_div_ratio positive]
  have few : (i + 1) / r ≤ i / r + 1 := by
    rw [← Nat.add_div_right _ some_ratio]
    exact Nat.div_le_div_right (by omega)
  have grows : i / r ≤ (i + 1) / r := Nat.div_le_div_right (Nat.le_succ i)
  omega

theorem untilComplete_zero (positive : 0 < w) (some_ratio : 0 < r)
    (completes : Completes (w * r) w msgSize i) : untilComplete r (flitCount msgSize w) i = 0 := by
  unfold untilComplete
  obtain is_last | full := (completes_iff positive some_ratio).mp completes
  · omega
  · have reached : (i / r + 1) * r ≤ i + 1 := by
      rw [← full]
      exact Nat.div_mul_le_self (i + 1) r
    omega

theorem next_of_not_completes (positive : 0 < w) (some_ratio : 0 < r) (inside : i < flitCount msgSize w)
    (waits : ¬ Completes (w * r) w msgSize i) :
    i + 1 < flitCount msgSize w ∧ (i + 1) / r = i / r ∧
      untilComplete r (flitCount msgSize w) i = untilComplete r (flitCount msgSize w) (i + 1) + 1 := by
  rw [completes_iff positive some_ratio] at waits
  have few : (i + 1) / r ≤ i / r + 1 := by
    rw [← Nat.add_div_right _ some_ratio]
    exact Nat.div_le_div_right (by omega)
  have grows : i / r ≤ (i + 1) / r := Nat.div_le_div_right (Nat.le_succ i)
  have same : (i + 1) / r = i / r := by omega
  have later : i + 1 < (i / r + 1) * r := by
    rw [← same, Nat.mul_comm]
    exact Nat.lt_mul_div_succ (i + 1) some_ratio
  unfold untilComplete
  rw [same]
  omega

theorem oneLeft (fit : ExactWidths w (w * r) msgSize) : OneLeft (w * r) w msgSize i := by
  intro is_last
  rw [mul_div_ratio fit.positive, flitCount_ratio fit, ← is_last]
  exact Nat.le_refl _

theorem start_of_full (some_ratio : 0 < r) (full : (i + 1) / r = i / r + 1) : i + 1 = (i + 1) / r * r := by
  have up := Nat.div_mul_le_self (i + 1) r
  have down := Nat.lt_mul_div_succ i some_ratio
  rw [Nat.mul_comm, ← full] at down
  omega

theorem group_size (fit : ExactWidths w (w * r) msgSize) (inside : i < flitCount msgSize w)
    (completes : Completes (w * r) w msgSize i) :
    i + 1 = i / r * r + serialized (w * r) w msgSize (i / r) := by
  have two := fit.two_le
  have start : i / r * r ≤ i := Nat.div_mul_le_self i r
  rw [serialized_ratio fit.positive, flitCount_ratio fit]
  obtain is_last | full := (completes_iff fit.positive (by omega)).mp completes
  · rw [if_pos (by rw [← is_last]; rfl)]
    omega
  · have exactly : i + 1 = i / r * r + r := by
      rw [← Nat.succ_mul, Nat.succ_eq_add_one, ← full]
      exact start_of_full (by omega) full
    split
    · rename_i last_group
      have below : i / r ≤ (flitCount msgSize w - 1) / r := Nat.div_le_div_right (by omega)
      by_cases more : i + 1 < flitCount msgSize w
      · have next : (i + 1) / r ≤ (flitCount msgSize w - 1) / r := Nat.div_le_div_right (by omega)
        omega
      · omega
    · exact exactly

theorem deserialize_run (fit : ExactWidths w (w * r) msgSize) (parts : Parts msgSize w vc i fs)
    (nonempty : fs ≠ []) (sent : Grouped w r i v) :
    ∃ v' outs flits, runMachine (BridgeVc.handleFlit w (w * r)) v fs = some (v', outs) ∧
      ConvertedTo msgSize (w * r) vc (i / r) ((groups (w * r) w msgSize).drop (i / r)) outs flits ∧
      flits.head?.map (·.route) = (fs[untilComplete r (flitCount msgSize w) i]?).map (·.route) := by
  have wide := fit.numFlits_wide
  have narrow := fit.numFlits_narrow
  have positive := fit.positive
  have two := fit.two_le
  induction fs generalizing i v with
  | nil => exact absurd rfl nonempty
  | cons f rest ih =>
    have length := parts.length
    rw [length_cons] at length
    obtain ⟨v', -, next, -, stepped⟩ := deserialize_step fit parts.1 (by omega) sent.deserialized
    have handled := BridgeVc.handleFlit_deserialize fit.less v f
    rw [stepped, if_pos (oneLeft fit), Option.map_some, ratio_eq positive] at handled
    have last_group : i / r ≤ (flitCount msgSize w - 1) / r := Nat.div_le_div_right (by omega)
    have inside : i / r < flitCount msgSize (w * r) := by
      rw [flitCount_ratio fit]
      omega
    by_cases completes : Completes (w * r) w msgSize i
    · have size := group_size fit (by omega) completes
      have told : (i + 1 - v.flitsSent : Int) = (serialized (w * r) w msgSize (i / r) : Nat) := by
        rw [sent.flitsSent]
        omega
      have made : (f.rebuild (i / r) (flitCount msgSize (w * r)) (w * r)).IsPart msgSize (w * r) vc (i / r) := by
        rw [← wide]
        exact BridgeFlit.rebuild_isPart parts.1
      rw [if_pos completes, told] at handled
      rw [untilComplete_zero positive (by omega) completes]
      by_cases last : rest = []
      · subst last
        simp only [length_nil] at length
        have final_group : i / r + 1 = flitCount msgSize (w * r) := by
          rw [flitCount_ratio fit, show i = flitCount msgSize w - 1 from by omega]
        refine ⟨v', _, [_], runMachine_cons handled rfl, ⟨rfl, ⟨made, ?_⟩, ?_⟩, rfl⟩
        · show i / r + 1 = _
          omega
        · rw [groups_drop inside, final_group, groups_drop_all]
          rfl
      · have more : 0 < rest.length := length_pos_iff.mpr last
        obtain is_last | full := (completes_iff positive (show 0 < r by omega)).mp completes
        · omega
        obtain ⟨onward, sent_now⟩ := next (by omega)
        rw [if_pos completes] at sent_now
        have grouped : Grouped w r (i + 1) v' := by
          refine ⟨onward, ?_⟩
          rw [sent_now, ← start_of_full (by omega) full]
          rfl
        obtain ⟨final, outs, flits, ran, ⟨scheduled, others, told_later⟩, -⟩ := ih parts.2 last grouped
        rw [full] at others told_later
        refine ⟨final, _, _ :: flits, runMachine_cons handled ran, ⟨?_, ⟨made, others⟩, ?_⟩, rfl⟩
        · simp [scheduled]
        · rw [groups_drop inside]
          simp [told_later]
    · rw [if_neg completes] at handled
      obtain ⟨more, same, until_next⟩ := next_of_not_completes positive (by omega) (by omega) completes
      obtain ⟨onward, sent_now⟩ := next (by omega)
      rw [if_neg completes] at sent_now
      have grouped : Grouped w r (i + 1) v' := by
        refine ⟨onward, ?_⟩
        rw [sent_now, same]
        exact sent.flitsSent
      have rest_left : rest ≠ [] := by
        rintro rfl
        simp only [length_nil] at length
        omega
      obtain ⟨final, outs, flits, ran, ⟨scheduled, others, told_later⟩, head⟩ := ih parts.2 rest_left grouped
      rw [same] at others told_later
      refine ⟨final, _, flits, runMachine_cons handled ran, ⟨?_, others, ?_⟩, ?_⟩
      · simp [scheduled]
      · simp [told_later]
      · rw [until_next, List.getElem?_cons_succ]
        exact head

theorem deserialize_run_early {more : List BridgeFlit} {v' : BridgeVc} {outs : List (List Traffic × Option Int)}
    (fit : ExactWidths w (w * r) msgSize) (parts : Parts msgSize w vc i (fs ++ more)) (unfinished : more ≠ [])
    (sent : Grouped w r i v) (ran : runMachine (BridgeVc.handleFlit w (w * r)) v fs = some (v', outs)) :
    Grouped w r (i + fs.length) v' ∧
      (outs.filterMap (·.2)).sum = ((i + fs.length) / r * r : Nat) - (i / r * r : Nat) := by
  have narrow := fit.numFlits_narrow
  have positive := fit.positive
  have two := fit.two_le
  induction fs generalizing i v outs with
  | nil =>
    obtain ⟨rfl, rfl⟩ := Prod.mk.inj (Option.some.inj ran)
    refine ⟨sent, ?_⟩
    simp
  | cons f rest ih =>
    have length := parts.length
    have left : 0 < more.length := length_pos_iff.mpr unfinished
    rw [cons_append, length_cons, length_append] at length
    obtain ⟨mid, -, next, -, stepped⟩ := deserialize_step fit parts.1 (by omega) sent.deserialized
    obtain ⟨onward, sent_now⟩ := next (by omega)
    have handled := BridgeVc.handleFlit_deserialize fit.less v f
    rw [stepped, if_pos (oneLeft fit), Option.map_some] at handled
    obtain ⟨first, out, later, taken, others, rfl⟩ := runMachine_cons_some ran
    obtain ⟨rfl, rfl⟩ := Prod.mk.inj (Option.some.inj (taken.symm.trans handled))
    rw [filterMap_append, sum_append, length_cons, Nat.add_comm rest.length, ← Nat.add_assoc]
    by_cases completes : Completes (w * r) w msgSize i
    · simp only [if_pos completes] at others ⊢
      rw [if_pos completes] at sent_now
      obtain is_last | full := (completes_iff positive (show 0 < r by omega)).mp completes
      · omega
      have start := start_of_full (show 0 < r by omega) full
      have grouped : Grouped w r (i + 1) mid := by
        refine ⟨onward, ?_⟩
        rw [sent_now, ← start]
        rfl
      obtain ⟨final, total⟩ := ih parts.2 grouped others
      refine ⟨final, ?_⟩
      rw [total, ← start, sent.flitsSent]
      simp
    · simp only [if_neg completes] at others ⊢
      rw [if_neg completes] at sent_now
      obtain ⟨-, same, -⟩ := next_of_not_completes positive (show 0 < r by omega) (show i < _ by omega) completes
      have grouped : Grouped w r (i + 1) mid := by
        refine ⟨onward, ?_⟩
        rw [sent_now, same]
        exact sent.flitsSent
      obtain ⟨final, total⟩ := ih parts.2 grouped others
      refine ⟨final, ?_⟩
      rw [total, same]
      simp

end Run

end Resister.Garnet
