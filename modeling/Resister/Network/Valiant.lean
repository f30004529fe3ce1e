import Resister.Network.MeshRoute

/-!
# Walks over an intermediate router

`outportValiant` and `outportOriValiant` carry a tagged packet to an intermediate router and from
there to its destination.
-/

namespace Resister.Network

open Garnet

/-- A packet that has been tagged at its source and not been routed yet. -/
structure Tagged (route : RouteInfo) (d : Nat) : Prop where
  tag : route.sTag = 1
  inter : route.interRoute = none
  passed : route.passedMid = false
  dest : route.destRouter = d

structure Untagged (route : RouteInfo) (d : Nat) : Prop where
  tag : route.sTag = 0
  dest : route.destRouter = d

namespace MeshXY

variable {m : MeshXY} {algorithm : RoutingAlgorithm}
  {choose : RoutingUnit → RouteInfo → Nat → Except Abort RouteInfo}
  {call : RoutingCall} {route : RouteInfo} {inport : PortDirection} {r i : Nat}

def Walks (m : MeshXY) (algorithm : RoutingAlgorithm)
    (choose : RoutingUnit → RouteInfo → Nat → Except Abort RouteInfo) : Prop :=
  ∀ r call route inport, (m.unit algorithm r).computeDirn call route inport =
    ((m.unit algorithm r).valiantWalk (choose (m.unit algorithm r) · call.raw) route).map fun result =>
      (call.state, result.1, result.2)

theorem walks_valiant : m.Walks .defense1 RoutingUnit.valiantInter := fun _ _ _ _ => rfl

theorem walks_oriValiant : m.Walks .oriVa RoutingUnit.oriValiantInter := fun _ _ _ _ => rfl

section Calls

variable (walks : m.Walks algorithm choose)

include walks

theorem computeDirn_untagged (tag : route.sTag = 0) (elsewhere : r ≠ route.destRouter) :
    (m.unit algorithm r).computeDirn call route inport =
      .ok (call.state, route, m.xyChoice r route.destRouter) := by
  simp [walks r, RoutingUnit.valiantWalk, tag, RoutingUnit.xyMidDirn, xyDirn_eq elsewhere, Except.map]

theorem computeDirn_heading (tag : route.sTag = 1) (inter : route.interRoute = some i)
    (passed : route.passedMid = false) (elsewhere : r ≠ i) :
    (m.unit algorithm r).computeDirn call route inport = .ok (call.state, route, m.xyChoice r i) := by
  have unmarked : (m.unit algorithm r).markPassed route = route := by
    have other : ¬ i = (m.unit algorithm r).id := fun same => elsewhere same.symm
    simp [RoutingUnit.markPassed, inter, other]
  simp [walks r, RoutingUnit.valiantWalk, tag, unmarked, inter, RoutingUnit.xyMidDirn, passed,
    xyDirn_eq elsewhere, Except.map]

theorem computeDirn_passed (tag : route.sTag = 1) (inter : route.interRoute = some i)
    (passed : route.passedMid = true) (elsewhere : r ≠ route.destRouter) :
    (m.unit algorithm r).computeDirn call route inport =
      .ok (call.state, route, m.xyChoice r route.destRouter) := by
  have unmarked : (m.unit algorithm r).markPassed route = route := by
    simp [RoutingUnit.markPassed, passed]
  simp [walks r, RoutingUnit.valiantWalk, tag, unmarked, inter, RoutingUnit.xyMidDirn, passed,
    xyDirn_eq elsewhere, Except.map]

theorem computeDirn_inter (tag : route.sTag = 1) (inter : route.interRoute = some r)
    (passed : route.passedMid = false) :
    (m.unit algorithm r).computeDirn call route inport =
      (m.unit algorithm r).computeDirn call route.setPassed inport := by
  have marked : (m.unit algorithm r).markPassed route = route.setPassed := by
    have here : r = (m.unit algorithm r).id := rfl
    simp [RoutingUnit.markPassed, tag, inter, passed, ← here]
  have unmarked : (m.unit algorithm r).markPassed route.setPassed = route.setPassed := by
    simp [RoutingUnit.markPassed, RouteInfo.setPassed]
  simp only [walks r, RoutingUnit.valiantWalk, marked, unmarked]
  simp [RouteInfo.setPassed, tag]

theorem computeDirn_fresh {d : Nat} (tagged : Tagged route d) (elsewhere : r ≠ i)
    (chosen : choose (m.unit algorithm r) route call.raw = .ok (route.setInter i)) :
    (m.unit algorithm r).computeDirn call route inport =
      (m.unit algorithm r).computeDirn call (route.setInter i) inport := by
  have unmarked : (m.unit algorithm r).markPassed route = route := by
    simp [RoutingUnit.markPassed, tagged.inter]
  have columns : 0 < (m.unit algorithm r).numRows ∧ 0 < (m.unit algorithm r).numCols :=
    ⟨m.rows_pos, m.numColumns_pos⟩
  have heading : (m.unit algorithm r).computeDirn call (route.setInter i) inport =
      .ok (call.state, route.setInter i, m.xyChoice r i) :=
    computeDirn_heading walks tagged.tag rfl tagged.passed elsewhere
  rw [heading]
  simp [walks r, RoutingUnit.valiantWalk, tagged.tag, unmarked, tagged.inter, columns, chosen,
    RoutingUnit.xyMidDirn, RouteInfo.setInter, xyDirn_eq elsewhere, Except.map]

end Calls

theorem travel_congr {fuel : Nat} {calls : Nat → RoutingCall} {other : RouteInfo}
    (dest : other.destRouter = route.destRouter) (alike : (m.unit algorithm r).computeDirn (calls 0) route inport =
      (m.unit algorithm r).computeDirn (calls 0) other inport) (positive : 0 < fuel)
    (elsewhere : route.destRouter ≠ r) :
    m.travel algorithm fuel calls ⟨r, inport, route⟩ = m.travel algorithm fuel calls ⟨r, inport, other⟩ := by
  obtain ⟨fuel, rfl⟩ := Nat.exists_eq_succ_of_ne_zero (Nat.pos_iff_ne_zero.mp positive)
  have otherwise : other.destRouter ≠ r := dest ▸ elsewhere
  simp only [travel, elsewhere, otherwise, if_false, hop, alike]

/-- The router `d` lies on the XY route from `r` to `t`: in the row of `r` or in the column of `t`. -/
def Meets (m : MeshXY) (r t d : Nat) : Prop :=
  m.row d = m.row r ∧
      (m.col r ≤ m.col d ∧ m.col d ≤ m.col t ∨ m.col t ≤ m.col d ∧ m.col d ≤ m.col r) ∨
    m.col d = m.col t ∧
      (m.row r ≤ m.row d ∧ m.row d ≤ m.row t ∨ m.row t ≤ m.row d ∧ m.row d ≤ m.row r)

instance (r t d : Nat) : Decidable (m.Meets r t d) := inferInstanceAs (Decidable (_ ∨ _))

section Meets

variable {t d next : Nat}

theorem meets_start (r t : Nat) : m.Meets r t r := by
  unfold Meets
  omega

theorem meets_self (meets : m.Meets r r d) : d = r := by
  unfold Meets at meets
  exact @eq_of_coords m d r (by omega) (by omega)

theorem meets_next (different : r ≠ t) (found : m.neighbour r (m.xyChoice r t) = some next) :
    m.Meets r t d ↔ d = r ∨ m.Meets next t d := by
  have apart := @coords_ne m r t different
  have moves := neighbour_moves found
  have same : d = r ↔ m.col d = m.col r ∧ m.row d = m.row r :=
    ⟨fun same => same ▸ ⟨rfl, rfl⟩, fun both => eq_of_coords both.1 both.2⟩
  rw [same]
  unfold Meets
  rcases @xyChoice_cases m r t with ⟨dirn, side⟩ | ⟨dirn, side⟩ | ⟨dirn, side⟩ | ⟨dirn, side⟩ <;>
    rw [dirn] at moves <;> simp only [Moves] at moves <;> omega

theorem xyChoice_of_meets (meets : m.Meets r t d) (different : r ≠ d) :
    m.xyChoice r t = m.xyChoice r d := by
  have apart := @coords_ne m r d different
  unfold Meets at meets
  unfold xyChoice
  by_cases column : m.col r = m.col d
  · have same : m.col r = m.col t := by omega
    have rows : m.row r ≤ m.row t ↔ m.row r ≤ m.row d := by omega
    rw [if_neg (not_not.mpr same), if_neg (not_not.mpr column)]
    simp only [rows]
  · have other : m.col r ≠ m.col t := by omega
    have columns : m.col r ≤ m.col t ↔ m.col r ≤ m.col d := by omega
    simp [column, other, columns]

theorem manhattan_of_meets (meets : m.Meets r t d) : m.manhattan r t = m.manhattan r d + m.manhattan d t := by
  unfold Meets at meets
  unfold manhattan
  omega

end Meets

section Phases

variable {s d : Nat} (walks : m.Walks algorithm choose) (inside : s < m.numRouters) (target : d < m.numRouters)
  (different : s ≠ d) (tagged : Tagged route d) (calls : Nat → RoutingCall) (source : i ≠ s)
  (chosen : choose (m.unit algorithm s) route (calls 0).raw = .ok (route.setInter i))

include walks inside target different tagged source chosen

theorem travel_over (interInside : i < m.numRouters) (iNotD : i ≠ d) (clear : ¬ m.Meets s i d) :
    ∃ before after last,
      m.travel algorithm (m.manhattan s i + m.manhattan i d) calls ⟨s, inport, route⟩ =
        .ok (before ++ after, ⟨d, last, (route.setInter i).setPassed⟩) ∧
      before.length = m.manhattan s i ∧ after.length = m.manhattan i d ∧
      (∀ h, before.getLast? = some h → h.next.router = i) ∧
      ∀ h, after.getLast? = some h →
        h.next.router = d ∧ horizontal h.dirn = decide (m.row i = m.row d) := by
  have toInter : 0 < m.manhattan s i := Nat.pos_of_ne_zero fun near => source (manhattan_eq_zero near).symm
  have fromInter : 0 < m.manhattan i d := Nat.pos_of_ne_zero fun near => iNotD (manhattan_eq_zero near)
  have heading : (route.setInter i).destRouter = d := tagged.dest
  obtain ⟨before, last, first, beforeLength, -, beforeEnd⟩ :=
    @travel_towards m algorithm (route.setInter i) i (fun r _ => ¬ m.Meets r i d) interInside
      (by
        intro call r inport _ clear notThere
        refine ⟨?_, call.state, computeDirn_heading walks tagged.tag rfl tagged.passed notThere⟩
        rw [heading]
        rintro rfl
        exact clear (meets_start d i))
      (fun r inport next clear notThere found meets => clear ((meets_next notThere found).mpr (Or.inr meets)))
      (m.manhattan s i) calls s inport inside clear rfl
  obtain ⟨after, final, second, afterLength, -, afterEnd⟩ :=
    @travel_towards m algorithm (route.setInter i).setPassed d (fun _ _ => True) target
      (by
        intro call r inport _ _ notThere
        have dest : (route.setInter i).setPassed.destRouter = d := tagged.dest
        have computed : (m.unit algorithm r).computeDirn call (route.setInter i).setPassed inport =
            .ok (call.state, (route.setInter i).setPassed, m.xyChoice r (route.setInter i).setPassed.destRouter) :=
          computeDirn_passed walks tagged.tag rfl rfl (dest ▸ notThere)
        rw [dest] at computed
        exact ⟨dest ▸ notThere.symm, call.state, computed⟩)
      (fun _ _ _ _ _ _ => trivial)
      (m.manhattan i d) (fun k => calls (m.manhattan s i + k)) i last interInside trivial rfl
  have onward : m.travel algorithm (m.manhattan i d) (fun k => calls (m.manhattan s i + k))
      ⟨i, last, route.setInter i⟩ = .ok (after, ⟨d, final, (route.setInter i).setPassed⟩) := by
    rw [← second]
    exact travel_congr rfl (computeDirn_inter walks tagged.tag rfl tagged.passed) fromInter
      (heading ▸ iNotD.symm)
  have start : m.travel algorithm (m.manhattan s i + m.manhattan i d) calls ⟨s, inport, route⟩ =
      m.travel algorithm (m.manhattan s i + m.manhattan i d) calls ⟨s, inport, route.setInter i⟩ :=
    travel_congr rfl (computeDirn_fresh walks tagged source.symm chosen) (by omega)
      (tagged.dest ▸ different.symm)
  refine ⟨before, after, final, ?_, beforeLength, afterLength, fun h last => (beforeEnd h last).1, afterEnd⟩
  rw [start]
  exact travel_append first beforeLength onward

theorem travel_into (meets : m.Meets s i d) :
    ∃ hops last, m.travel algorithm (m.manhattan s d) calls ⟨s, inport, route⟩ =
        .ok (hops, ⟨d, last, route.setInter i⟩) ∧ hops.length = m.manhattan s d := by
  have apart : 0 < m.manhattan s d := Nat.pos_of_ne_zero fun near => different (manhattan_eq_zero near)
  have heading : (route.setInter i).destRouter = d := tagged.dest
  have notInter : ∀ {r}, m.Meets r i d → r ≠ d → r ≠ i := by
    rintro r meets notThere rfl
    exact notThere (meets_self meets).symm
  obtain ⟨hops, last, travelled, length, -⟩ :=
    @travel_towards m algorithm (route.setInter i) d (fun r _ => m.Meets r i d) target
      (by
        intro call r inport _ meets notThere
        refine ⟨heading ▸ notThere.symm, call.state, ?_⟩
        rw [← xyChoice_of_meets meets notThere]
        exact computeDirn_heading walks tagged.tag rfl tagged.passed (notInter meets notThere))
      (by
        intro r inport next meets notThere found
        rw [← xyChoice_of_meets meets notThere] at found
        exact ((meets_next (notInter meets notThere) found).mp meets).resolve_left notThere.symm)
      (m.manhattan s d) calls s inport inside meets rfl
  refine ⟨hops, last, ?_, length⟩
  rw [← travelled]
  exact travel_congr rfl (computeDirn_fresh walks tagged source.symm chosen) apart (tagged.dest ▸ different.symm)

end Phases

theorem xy_passes {s d : Nat} (inside : s < m.numRouters) (target : d < m.numRouters)
    (interInside : i < m.numRouters) (different : s ≠ d) (dest : route.destRouter = i) (meets : m.Meets s i d)
    (calls : Nat → RoutingCall) :
    ∃ hops last, m.travel .xy (m.manhattan s i) calls ⟨s, .Local, route⟩ = .ok (hops, ⟨i, last, route⟩) ∧
      ∃ h ∈ hops, h.next.router = d := by
  subst dest
  have notInter : ∀ {r}, m.Meets r route.destRouter d → r ≠ d → r ≠ route.destRouter := by
    rintro r meets notThere rfl
    exact notThere (meets_self meets).symm
  obtain ⟨before, last, first, beforeLength, ⟨-, safe⟩, beforeEnd⟩ :=
    @travel_towards m .xy route d (fun r inport => m.Meets r route.destRouter d ∧ m.XYSafe route.destRouter r inport)
      target
      (by
        intro call r inport _ safe notThere
        have elsewhere := notInter safe.1 notThere
        refine ⟨elsewhere.symm, call.state, ?_⟩
        rw [← xyChoice_of_meets safe.1 notThere]
        exact computeDirn_xy call elsewhere safe.2)
      (by
        intro r inport next safe notThere found
        have elsewhere := notInter safe.1 notThere
        rw [← xyChoice_of_meets safe.1 notThere] at found ⊢
        exact ⟨((meets_next elsewhere found).mp safe.1).resolve_left notThere.symm, xySafe_next elsewhere found⟩)
      (m.manhattan s d) calls s .Local inside ⟨meets, xySafe_local _ _⟩ rfl
  obtain ⟨after, final, second, afterLength, -⟩ := @travel_towards m .xy route route.destRouter
    (m.XYSafe route.destRouter) interInside
    (fun call r inport _ safe elsewhere => ⟨elsewhere.symm, call.state, computeDirn_xy call elsewhere safe⟩)
    (fun r inport next _ elsewhere found => xySafe_next elsewhere found)
    (m.manhattan d route.destRouter) (fun k => calls (m.manhattan s d + k)) d last target safe rfl
  refine ⟨before ++ after, final, ?_, ?_⟩
  · rw [manhattan_of_meets meets]
    exact travel_append first beforeLength second
  · have positive : before ≠ [] := by
      rintro rfl
      exact different (manhattan_eq_zero beforeLength.symm)
    refine ⟨before.getLast positive, List.mem_append_left _ (List.getLast_mem positive), ?_⟩
    exact (beforeEnd _ (List.getLast?_eq_some_getLast positive)).1

section OriValiant

variable {s d : Nat}

def oriValiantOptions (m : MeshXY) (s d : Nat) : List Nat :=
  (List.range m.numRouters).filter fun i => i != s && i != d

theorem mem_oriValiantOptions {v : Nat} : v ∈ m.oriValiantOptions s d ↔ v < m.numRouters ∧ v ≠ s ∧ v ≠ d := by
  simp [oriValiantOptions]

theorem oriValiantInter_eq (size : 3 ≤ m.numRouters) (dest : route.destRouter = d) (raw : Nat) :
    (m.unit .oriVa s).oriValiantInter route raw =
      match (m.oriValiantOptions s d)[RoutingUnit.getMyRandom 0 ((m.numRouters - 3 : Nat) : Int) raw]? with
      | some newNode => .ok (route.setInter newNode)
      | none => .error .outOfBounds := by
  subst dest
  have count : m.numRouters = m.numColumns * m.numRows := by rw [m.numRouters_eq, Nat.mul_comm]
  have bound : ((m.numRouters - 3 : Nat) : Int) = ((m.numColumns * m.numRows : Nat) : Int) - 3 := by omega
  rw [bound, oriValiantOptions, count]
  rfl

variable (inside : s < m.numRouters) (target : d < m.numRouters) (different : s ≠ d) (size : 3 ≤ m.numRouters)

include inside target different size

theorem exists_oriValiantInter (dest : route.destRouter = d) (raw : Nat) :
    ∃ v, (m.unit .oriVa s).oriValiantInter route raw = .ok (route.setInter v) ∧
      v < m.numRouters ∧ v ≠ s ∧ v ≠ d := by
  have fits := m.routers_int
  have length : (m.oriValiantOptions s d).length = m.numRouters - 2 :=
    RoutingUnit.length_optionsExcept_two inside target different
  have enough : m.numRouters - 3 < (m.oriValiantOptions s d).length := by omega
  obtain ⟨v, present, picked⟩ := RoutingUnit.pick_mem (by omega) enough raw
  refine ⟨v, ?_, mem_oriValiantOptions.mp present⟩
  rw [oriValiantInter_eq size dest, picked]

theorem oriValiantInter_surjective (dest : route.destRouter = d) {v : Nat} (below : v < m.numRouters)
    (notSource : v ≠ s) (notDest : v ≠ d) :
    ∃ raw, (m.unit .oriVa s).oriValiantInter route raw = .ok (route.setInter v) := by
  have fits := m.routers_int
  have length : (m.oriValiantOptions s d).length = m.numRouters - 2 :=
    RoutingUnit.length_optionsExcept_two inside target different
  have few : (m.oriValiantOptions s d).length ≤ m.numRouters - 3 + 1 := by omega
  obtain ⟨raw, picked⟩ := RoutingUnit.pick_surjective (by omega) few
    (mem_oriValiantOptions.mpr ⟨below, notSource, notDest⟩)
  refine ⟨raw, ?_⟩
  rw [oriValiantInter_eq size dest, picked]

end OriValiant

theorem travel_oriValiant {s d : Nat} (inside : s < m.numRouters) (target : d < m.numRouters) (different : s ≠ d)
    (tagged : Tagged route d) (calls : Nat → RoutingCall) (interInside : i < m.numRouters) (source : i ≠ s)
    (iNotD : i ≠ d) (chosen : (m.unit .oriVa s).oriValiantInter route (calls 0).raw = .ok (route.setInter i)) :
    ∃ hops q, m.travel .oriVa (m.manhattan s i + m.manhattan i d) calls ⟨s, .Local, route⟩ = .ok (hops, q) ∧
      q.router = d ∧
      hops.length = if m.Meets s i d then m.manhattan s d else m.manhattan s i + m.manhattan i d := by
  by_cases meets : m.Meets s i d
  · obtain ⟨hops, last, travelled, length⟩ :=
      travel_into walks_oriValiant inside target different tagged calls source chosen meets
    have arrived : (route.setInter i).destRouter = d := tagged.dest
    refine ⟨hops, ⟨d, last, route.setInter i⟩, ?_, rfl, by rw [if_pos meets, length]⟩
    rw [manhattan_of_meets meets, Nat.add_assoc, ← List.append_nil hops]
    exact travel_append travelled length (travel_arrived arrived)
  · obtain ⟨before, after, last, travelled, beforeLength, afterLength, -⟩ :=
      travel_over walks_oriValiant inside target different tagged calls source chosen interInside iNotD meets
    refine ⟨before ++ after, _, travelled, rfl, ?_⟩
    rw [if_neg meets, List.length_append, beforeLength, afterLength]

/-- Valiant routing delivers every tagged packet. It takes fewer hops than the two phases have only where the
XY route to the intermediate router passes through the destination. -/
theorem valiant_delivers {s d : Nat} (size : 3 ≤ m.numRows * m.numColumns) (inside : s < m.numRouters)
    (target : d < m.numRouters) (different : s ≠ d) (tagged : Tagged route d) :
    (∀ calls : Nat → RoutingCall, ∃ inter hops q,
      (m.unit .oriVa s).oriValiantInter route (calls 0).raw = .ok (route.setInter inter) ∧
      inter < m.numRouters ∧ inter ≠ s ∧ inter ≠ d ∧
      m.travel .oriVa (m.manhattan s inter + m.manhattan inter d) calls ⟨s, .Local, route⟩ = .ok (hops, q) ∧
      q.router = d ∧
      (∀ h ∈ hops, m.neighbour h.router h.dirn = some h.next.router) ∧
      hops.length ≤ m.manhattan s inter + m.manhattan inter d ∧
      (hops.length < m.manhattan s inter + m.manhattan inter d →
        ∃ direct last, m.travel .xy (m.manhattan s inter) calls ⟨s, .Local, { route with destRouter := inter }⟩ =
            .ok (direct, ⟨inter, last, { route with destRouter := inter }⟩) ∧
          ∃ h ∈ direct, h.next.router = d)) ∧
    ∀ v < m.numRouters, v ≠ s → v ≠ d →
      ∃ raw, (m.unit .oriVa s).oriValiantInter route raw = .ok (route.setInter v) := by
  rw [← m.numRouters_eq] at size
  refine ⟨fun calls => ?_, fun v below notSource notDest =>
    oriValiantInter_surjective inside target different size tagged.dest below notSource notDest⟩
  obtain ⟨i, chosen, interInside, source, iNotD⟩ :=
    exists_oriValiantInter inside target different size tagged.dest (calls 0).raw
  obtain ⟨hops, q, travelled, arrived, length⟩ :=
    travel_oriValiant inside target different tagged calls interInside source iNotD chosen
  refine ⟨i, hops, q, chosen, interInside, source, iNotD, travelled, arrived, travel_neighbours travelled, ?_, fun fewer => ?_⟩
  · rw [length]
    split
    · rename_i meets
      rw [manhattan_of_meets meets]
      omega
    · exact Nat.le_refl _
  · have meets : m.Meets s i d := by
      by_contra clear
      rw [if_neg clear] at length
      omega
    exact xy_passes inside target interInside different rfl meets calls

theorem valiant_delivers_grid : 3 ≤ 2 * 2 ∧ ∃ inter hops q,
    (grid 2 2 (by decide) (by decide) (by decide)).travel .oriVa
        ((grid 2 2 (by decide) (by decide) (by decide)).manhattan 0 inter +
          (grid 2 2 (by decide) (by decide) (by decide)).manhattan inter 3) (fun _ => {})
        ⟨0, .Local, { sTag := 1, destRouter := 3 }⟩ = .ok (hops, q) ∧ q.router = 3 := by
  obtain ⟨inter, hops, q, -, -, -, -, travelled, arrived, -⟩ :=
    (@valiant_delivers (grid 2 2 (by decide) (by decide) (by decide)) { sTag := 1, destRouter := 3 } 0 3
      (by decide) (by decide) (by decide) (by decide) ⟨rfl, rfl, rfl, rfl⟩).1 fun _ => {}
  exact ⟨by decide, inter, hops, q, travelled, arrived⟩

end MeshXY

end Resister.Network
