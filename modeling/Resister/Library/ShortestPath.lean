import Mathlib

/-!
# Shortest walks of a weighted digraph

Walks over the vertices satisfying `P`, with natural edge weights.
-/

namespace Resister.Library

variable {V : Type*} {W : V → V → Nat} {P : V → Prop}

/-- `Walk W P x z n`: a walk with at least one edge, of total weight `n`. -/
inductive Walk (W : V → V → Nat) (P : V → Prop) : V → V → Nat → Prop where
  | edge {x y : V} : P x → P y → Walk W P x y (W x y)
  | cons {x y z : V} {n : Nat} : P x → Walk W P y z n → Walk W P x z (W x y + n)

namespace Walk

theorem source {x z : V} {n : Nat} (walk : Walk W P x z n) : P x := by
  cases walk <;> assumption

theorem target {x z : V} {n : Nat} (walk : Walk W P x z n) : P z := by
  induction walk with
  | edge _ inside => exact inside
  | cons _ _ ih => exact ih

theorem append {x y z : V} {n m : Nat} (first : Walk W P x y n) (second : Walk W P y z m) :
    Walk W P x z (n + m) := by
  induction first with
  | edge inside _ => exact .cons inside second
  | cons inside _ ih =>
    rw [Nat.add_assoc]
    exact .cons inside (ih second)

theorem potential_le {φ : V → Nat} (lipschitz : ∀ x y, P x → P y → φ x ≤ W x y + φ y)
    {x z : V} {n : Nat} (walk : Walk W P x z n) : φ x ≤ n + φ z := by
  induction walk with
  | edge inside outside => exact lipschitz _ _ inside outside
  | @cons x y z n inside rest ih =>
    have step := lipschitz x y inside rest.source
    omega

end Walk

def along {M : Type*} [Add M] (f : V → V → M) : V → List V → V → M
  | x, [], z => f x z
  | x, y :: rest, z => f x y + along f y rest z

theorem along_append {M : Type*} [AddSemigroup M] (f : V → V → M) (x y z : V) (first second : List V) :
    along f x (first ++ y :: second) z = along f x first y + along f y second z := by
  induction first generalizing x with
  | nil => rfl
  | cons v rest ih =>
    show f x v + along f v (rest ++ y :: second) z = f x v + along f v rest y + along f y second z
    rw [ih, add_assoc]

theorem Walk.of_along {x z : V} {between : List V} (inside : P x) (outside : P z)
    (all : ∀ y ∈ between, P y) : Walk W P x z (along W x between z) := by
  induction between generalizing x with
  | nil => exact .edge inside outside
  | cons y rest ih =>
    refine .cons inside (ih (all y List.mem_cons_self) ?_)
    intro v member
    exact all v (List.mem_cons_of_mem y member)

/-- `dist` holds the least weight of a walk between any two vertices. -/
structure IsDistance (W : V → V → Nat) (P : V → Prop) (dist : V → V → Nat) : Prop where
  attained : ∀ x y, P x → P y → Walk W P x y (dist x y)
  least : ∀ {x y n}, Walk W P x y n → dist x y ≤ n

namespace IsDistance

variable {dist : V → V → Nat}

theorem of_closed (attained : ∀ x y, P x → P y → Walk W P x y (dist x y))
    (below : ∀ x y, P x → P y → dist x y ≤ W x y)
    (triangle : ∀ x y z, P x → P y → P z → dist x z ≤ dist x y + dist y z) :
    IsDistance W P dist := by
  refine ⟨attained, ?_⟩
  intro x z n walk
  induction walk with
  | edge inside outside => exact below _ _ inside outside
  | @cons x y z n inside rest ih =>
    have split := triangle x y z inside rest.source rest.target
    have direct := below x y inside rest.source
    omega

theorem first_edge (table : IsDistance W P dist) {x z : V} (inside : P x) (outside : P z)
    (different : x ≠ z) (zero : dist z z = 0) :
    ∃ y, P y ∧ y ≠ x ∧ dist x z = W x y + dist y z := by
  have walk := table.attained x z inside outside
  have bound : dist x z ≤ dist x z := Nat.le_refl _
  generalize weight : dist x z = n at walk
  rw [weight] at bound
  -- A first edge from `x` to itself leaves a walk from `x` that is no heavier.
  suffices leaves : ∀ {a b : V} {k : Nat}, Walk W P a b k → a = x → b = z → k ≤ n →
      ∃ y, P y ∧ y ≠ x ∧ W x y + dist y z ≤ n by
    obtain ⟨y, py, other, le⟩ := leaves walk rfl rfl (Nat.le_refl _)
    exact ⟨y, py, other, Nat.le_antisymm (weight ▸ table.least
      (Walk.cons inside (table.attained y z py outside))) le⟩
  intro a b k walk
  induction walk with
  | edge _ last =>
    rintro rfl rfl le
    exact ⟨_, last, different.symm, by rw [zero]; exact le⟩
  | @cons a y b k _ rest ih =>
    rintro rfl rfl le
    by_cases other : y = a
    · exact ih other rfl (by omega)
    · have shorter := table.least rest
      exact ⟨y, rest.source, other, by omega⟩

theorem eq_potential (table : IsDistance W P dist) {φ : V → Nat} {x z : V}
    (lipschitz : ∀ x y, P x → P y → φ x ≤ W x y + φ y) (zero : φ z = 0)
    (walk : Walk W P x z (φ x)) : dist x z = φ x := by
  have upper := table.least walk
  have lower := (table.attained x z walk.source walk.target).potential_le lipschitz
  omega

end IsDistance

end Resister.Library
