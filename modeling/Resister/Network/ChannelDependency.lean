import Resister.Network.Detour

/-!
# Channel dependencies

A channel is a link of the mesh, named by its source router and direction.
-/

namespace Resister.Network

open Garnet Relation

abbrev Channel := Nat × PortDirection

namespace MeshXY

variable (m : MeshXY) (algorithm : RoutingAlgorithm)

/-- The packets that may be under way when sources inject those of `Source`. -/
inductive UnderWay (Source : Packet → Prop) : Packet → Prop where
  | source {p : Packet} : Source p → UnderWay Source p
  | hop {p : Packet} {call : RoutingCall} {h : Hop} : UnderWay Source p →
      p.route.destRouter ≠ p.router → m.hop algorithm call p = .ok h → UnderWay Source h.next

def Depends (Source : Packet → Prop) (first second : Channel) : Prop :=
  ∃ p call nextCall h k, m.UnderWay algorithm Source p ∧
    p.route.destRouter ≠ p.router ∧ m.hop algorithm call p = .ok h ∧
    h.next.route.destRouter ≠ h.next.router ∧ m.hop algorithm nextCall h.next = .ok k ∧
    first = (h.router, h.dirn) ∧ second = (k.router, k.dirn)

def Acyclic (dependency : Channel → Channel → Prop) : Prop := ∀ c, ¬ TransGen dependency c c

structure Injected (p : Packet) : Prop where
  inside : p.router < m.numRouters
  inport : p.inport = .Local
  target : p.route.destRouter < m.numRouters
  different : p.router ≠ p.route.destRouter

def DetourSource (p : Packet) : Prop :=
  m.Injected p ∧ (Tagged p.route p.route.destRouter ∨ Untagged p.route p.route.destRouter)

variable {m algorithm}

theorem acyclic_of_rank {dependency : Channel → Channel → Prop} (rank : Channel → Nat)
    (increases : ∀ {a b}, dependency a b → rank a < rank b) : Acyclic dependency := by
  intro c cycle
  have larger : TransGen (· < ·) (rank c) (rank c) :=
    TransGen.lift rank (fun _ _ depends => increases depends) _ _ cycle
  rw [transGen_eq_self] at larger
  exact Nat.lt_irrefl _ larger

def xyRank (m : MeshXY) : Channel → Nat
  | (r, .East) => m.col r
  | (r, .West) => m.numColumns - m.col r
  | (r, .North) => m.numColumns + m.row r
  | (r, .South) => m.numColumns + (m.numRows - m.row r)
  | _ => 0

theorem xyRank_increases {r next d : Nat} (inside : r < m.numRouters) (different : r ≠ d)
    (found : m.neighbour r (m.xyChoice r d) = some next) (elsewhere : next ≠ d) :
    m.xyRank (r, m.xyChoice r d) < m.xyRank (next, m.xyChoice next d) := by
  have apart := @coords_ne m r d different
  have nextApart := @coords_ne m next d elsewhere
  have moves := neighbour_moves found
  have row := row_lt inside
  have column := @col_lt m r
  rcases @xyChoice_cases m r d with ⟨dirn, side⟩ | ⟨dirn, side⟩ | ⟨dirn, side⟩ | ⟨dirn, side⟩ <;>
    rw [dirn] at moves ⊢ <;> simp only [Moves] at moves <;>
    rcases @xyChoice_cases m next d with ⟨turn, goal⟩ | ⟨turn, goal⟩ | ⟨turn, goal⟩ | ⟨turn, goal⟩ <;>
    rw [turn] <;> simp only [xyRank] <;> omega

theorem underWay_xy {p : Packet} (way : m.UnderWay .xy m.Injected p) : p.router < m.numRouters := by
  induction way with
  | source injected => exact injected.inside
  | @hop p call h _ elsewhere taken ih =>
    exact neighbour_lt ih (hop_xy elsewhere taken).2.2.2

/-- XY routing orders the channels. -/
theorem xy_acyclic (m : MeshXY) : Acyclic (m.Depends .xy m.Injected) := by
  apply acyclic_of_rank m.xyRank
  rintro a b ⟨p, call, nextCall, h, k, way, elsewhere, taken, nextElsewhere, nextTaken, rfl, rfl⟩
  obtain ⟨route, router, dirn, found⟩ := hop_xy elsewhere taken
  obtain ⟨-, nextRouter, nextDirn, -⟩ := hop_xy nextElsewhere nextTaken
  rw [router, dirn, nextRouter, nextDirn, route]
  rw [route] at nextElsewhere
  exact xyRank_increases (underWay_xy way) elsewhere.symm found nextElsewhere.symm

section Cycle

variable {s d i next : Nat}

theorem depends_untagged (inside : s < m.numRouters) (target : d < m.numRouters) (different : s ≠ d)
    (found : m.neighbour s (m.xyChoice s d) = some next) (elsewhere : next ≠ d) :
    m.Depends .defense1 m.DetourSource (s, m.xyChoice s d) (next, m.xyChoice next d) := by
  let route : RouteInfo := { destRouter := d }
  have source : m.DetourSource ⟨s, .Local, route⟩ :=
    ⟨⟨inside, rfl, target, different⟩, Or.inr ⟨rfl, rfl⟩⟩
  have taken := @hop_eq m .defense1 {} ⟨s, .Local, route⟩ _ _ _ _ inside
    (computeDirn_untagged walks_valiant rfl different) found
  have nextInside := neighbour_lt inside found
  obtain ⟨third, nextFound, -⟩ := xyChoice_neighbour nextInside (row_lt target) elsewhere
  have nextTaken := @hop_eq m .defense1 {} ⟨next, opposite (m.xyChoice s d), route⟩ _ _ _ _ nextInside
    (computeDirn_untagged walks_valiant rfl elsewhere) nextFound
  exact ⟨_, {}, {}, _, _, .source source, different.symm, taken, elsewhere.symm, nextTaken, rfl, rfl⟩

theorem depends_tagged (inside : s < m.numRouters) (target : d < m.numRouters) (different : s ≠ d)
    {raw : Nat} (chosen : (m.unit .defense1 s).valiantInter { destRouter := d, sTag := 1 } raw =
      .ok (RouteInfo.setInter { destRouter := d, sTag := 1 } i))
    (found : m.neighbour s (m.xyChoice s i) = some i) (notSource : s ≠ i) (elsewhere : i ≠ d) :
    m.Depends .defense1 m.DetourSource (s, m.xyChoice s i) (i, m.xyChoice i d) := by
  let route : RouteInfo := { destRouter := d, sTag := 1 }
  have tagged : Tagged route d := ⟨rfl, rfl, rfl, rfl⟩
  have source : m.DetourSource ⟨s, .Local, route⟩ :=
    ⟨⟨inside, rfl, target, different⟩, Or.inl tagged⟩
  have computed : (m.unit .defense1 s).computeDirn { raw := raw } route .Local =
      .ok ({}, route.setInter i, m.xyChoice s i) :=
    (computeDirn_fresh walks_valiant tagged notSource chosen).trans
    (computeDirn_heading walks_valiant rfl rfl rfl notSource)
  have taken := @hop_eq m .defense1 { raw := raw } ⟨s, .Local, route⟩ _ _ _ _ inside computed found
  have nextInside := neighbour_lt inside found
  obtain ⟨third, nextFound, -⟩ := xyChoice_neighbour nextInside (row_lt target) elsewhere
  have nextComputed : (m.unit .defense1 i).computeDirn {} (route.setInter i)
      (opposite (m.xyChoice s i)) = .ok ({}, (route.setInter i).setPassed, m.xyChoice i d) :=
    (computeDirn_inter walks_valiant rfl rfl rfl).trans (computeDirn_passed walks_valiant rfl rfl rfl elsewhere)
  have nextTaken := @hop_eq m .defense1 {} ⟨i, opposite (m.xyChoice s i), route.setInter i⟩ _ _ _ _
    nextInside nextComputed nextFound
  exact ⟨_, { raw := raw }, {}, _, _, .source source, different.symm, taken, elsewhere.symm, nextTaken,
    rfl, rfl⟩

theorem detour_cycle (square : m.numRows = m.numColumns) (size : 2 ≤ m.numColumns) :
    ¬ Acyclic (m.Depends .defense1 m.DetourSource) := by
  -- The corners, by column and row.
  have corner : ∀ x y : Nat, x < 2 → y < 2 → ∃ r, r < m.numRouters ∧ m.col r = x ∧ m.row r = y := by
    intro x y xSmall ySmall
    exact ⟨x + y * m.numColumns, cell_lt (by omega) (by omega), cell_mod (by omega), cell_div (by omega)⟩
  obtain ⟨a, aInside, aCol, aRow⟩ := corner 0 0 (by decide) (by decide)
  obtain ⟨b, bInside, bCol, bRow⟩ := corner 1 0 (by decide) (by decide)
  obtain ⟨c, cInside, cCol, cRow⟩ := corner 1 1 (by decide) (by decide)
  obtain ⟨e, eInside, eCol, eRow⟩ := corner 0 1 (by decide) (by decide)
  have apart : ∀ {r t : Nat}, m.col r ≠ m.col t ∨ m.row r ≠ m.row t → r ≠ t := by
    rintro r _ (column | row) rfl
    · exact column rfl
    · exact row rfl
  have east : m.xyChoice a c = .East := by simp [xyChoice, *]
  have north : m.xyChoice b c = .North := by simp [xyChoice, *]
  have west : m.xyChoice c a = .West := by simp [xyChoice, *]
  have south : m.xyChoice e a = .South := by simp [xyChoice, *]
  have drawn : ∀ {s d i : Nat}, m.row s = m.row d → m.col s ≠ m.col d → m.row s < m.numColumns →
      m.row i < m.numColumns → m.row i ≠ m.row s → m.col i = m.col s →
      ∃ raw, (m.unit .defense1 s).valiantInter { destRouter := d, sTag := 1 } raw =
        .ok (RouteInfo.setInter { destRouter := d, sTag := 1 } i) := by
    intro s d i sameRow columns left below other column
    obtain ⟨raw, chosen⟩ := @exists_draw m { destRouter := d, sTag := 1 } s d (m.row i) rfl sameRow
      columns left below other
    rw [← column, cell_eq] at chosen
    exact ⟨raw, chosen⟩
  obtain ⟨up, upChosen⟩ : ∃ raw, (m.unit .defense1 b).valiantInter { destRouter := a, sTag := 1 } raw =
      .ok (RouteInfo.setInter { destRouter := a, sTag := 1 } c) :=
    drawn (by omega) (by omega) (by omega) (by omega) (by omega) (by omega)
  obtain ⟨down, downChosen⟩ : ∃ raw,
      (m.unit .defense1 e).valiantInter { destRouter := c, sTag := 1 } raw =
        .ok (RouteInfo.setInter { destRouter := c, sTag := 1 } a) :=
    drawn (by omega) (by omega) (by omega) (by omega) (by omega) (by omega)
  have eastNorth : m.Depends .defense1 m.DetourSource (a, m.xyChoice a c) (b, m.xyChoice b c) :=
    depends_untagged aInside cInside (apart (by omega))
      (neighbour_of_moves (by rw [east]; exact ⟨by omega, by omega⟩) bInside) (apart (by omega))
  have northWest : m.Depends .defense1 m.DetourSource (b, m.xyChoice b c) (c, m.xyChoice c a) :=
    depends_tagged bInside aInside (apart (by omega)) upChosen
      (neighbour_of_moves (by rw [north]; exact ⟨by omega, by omega⟩) cInside) (apart (by omega))
      (apart (by omega))
  have westSouth : m.Depends .defense1 m.DetourSource (c, m.xyChoice c a) (e, m.xyChoice e a) :=
    depends_untagged cInside aInside (apart (by omega))
      (neighbour_of_moves (by rw [west]; exact ⟨by omega, by omega⟩) eInside) (apart (by omega))
  have southEast : m.Depends .defense1 m.DetourSource (e, m.xyChoice e a) (a, m.xyChoice a c) :=
    depends_tagged eInside cInside (apart (by omega)) downChosen
      (neighbour_of_moves (by rw [south]; exact ⟨by omega, by omega⟩) aInside) (apart (by omega))
      (apart (by omega))
  intro acyclic
  exact acyclic (a, m.xyChoice a c)
    (((TransGen.single eastNorth).tail northWest).tail westSouth |>.tail southEast)

/-- On a square mesh the channel dependencies of the detours are acyclic only without links. -/
theorem detour_acyclic_iff (square : m.numRows = m.numColumns) :
    Acyclic (m.Depends .defense1 m.DetourSource) ↔ m.numColumns < 2 := by
  constructor
  · intro acyclic
    by_contra size
    exact detour_cycle square (by omega) acyclic
  · intro small c cycle
    have single : m.numRouters = 1 := by
      have positive := m.numColumns_pos
      rw [m.numRouters_eq, square, show m.numColumns = 1 by omega]
    have nothing : ∀ {p : Packet}, ¬ m.UnderWay .defense1 m.DetourSource p := by
      intro p way
      induction way with
      | source source =>
        obtain ⟨⟨inside, -, target, different⟩, -⟩ := source
        omega
      | hop _ _ _ ih => exact ih
    cases cycle with
    | single depends =>
      obtain ⟨p, call, nextCall, h, k, way, -⟩ := depends
      exact nothing way
    | tail _ depends =>
      obtain ⟨p, call, nextCall, h, k, way, -⟩ := depends
      exact nothing way

theorem detour_acyclic_single : Acyclic ((grid 1 1 (by decide) (by decide) (by decide)).Depends .defense1
      (grid 1 1 (by decide) (by decide) (by decide)).DetourSource) :=
  (detour_acyclic_iff (by decide)).mpr (by decide)

theorem detour_cyclic_grid : ¬ Acyclic ((grid 2 2 (by decide) (by decide) (by decide)).Depends .defense1
      (grid 2 2 (by decide) (by decide) (by decide)).DetourSource) :=
  detour_cycle (by decide) (by decide)

end Cycle

end MeshXY

end Resister.Network
