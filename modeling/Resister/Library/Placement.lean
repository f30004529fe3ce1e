import Mathlib

/-!
# Things in places

Things are created, put into places and moved between them.
-/

namespace Resister.Library

open List

variable {κ π : Type} {contents contents' : π → List κ} {created created' : κ → Prop}

structure Exclusive (contents : π → List κ) (created : κ → Prop) : Prop where
  sound : ∀ x, ∀ k ∈ contents x, created k
  complete : ∀ k, created k → ∃ x, k ∈ contents x
  distinct : ∀ x, (contents x).Nodup
  unique : ∀ x y k, k ∈ contents x → k ∈ contents y → x = y

namespace Exclusive

theorem empty (nothing : ∀ x, contents x = []) (none : ∀ k, ¬ created k) : Exclusive contents created :=
  { sound := fun x k present => by simp [nothing x] at present
    complete := fun k made => (none k made).elim
    distinct := fun x => by simp [nothing x]
    unique := fun x y k present => by simp [nothing x] at present }

theorem congr (exclusive : Exclusive contents created) (same : ∀ x, contents' x = contents x)
    (made : ∀ k, created' k ↔ created k) : Exclusive contents' created' := by
  obtain rfl : contents' = contents := funext same
  obtain rfl : created' = created := funext fun k => propext (made k)
  exact exclusive

theorem move (exclusive : Exclusive contents created) {x y : π} (different : x ≠ y) {k : κ}
    (taken : (contents x).Perm (k :: contents' x)) (added : (contents' y).Perm (k :: contents y))
    (others : ∀ z, z ≠ x → z ≠ y → contents' z = contents z) : Exclusive contents' created := by
  have taken_iff : ∀ j, j ∈ contents x ↔ j = k ∨ j ∈ contents' x := fun j => by
    rw [taken.mem_iff, mem_cons]
  have added_iff : ∀ j, j ∈ contents' y ↔ j = k ∨ j ∈ contents y := fun j => by
    rw [added.mem_iff, mem_cons]
  have here : k ∈ contents x := (taken_iff k).mpr (Or.inl rfl)
  have gone : k ∉ contents' x := (nodup_cons.mp (taken.nodup_iff.mp (exclusive.distinct x))).1
  have notThere : k ∉ contents y := fun there => different (exclusive.unique x y k here there)
  -- where a thing was before the move
  have source : ∀ z j, j ∈ contents' z → (j = k ∧ z = y) ∨ (j ≠ k ∧ j ∈ contents z) := by
    intro z j present
    by_cases atX : z = x
    · subst atX
      exact Or.inr ⟨fun same => gone (same ▸ present), (taken_iff j).mpr (Or.inr present)⟩
    · by_cases atY : z = y
      · subst atY
        rcases (added_iff j).mp present with same | old
        · exact Or.inl ⟨same, rfl⟩
        · exact Or.inr ⟨fun same => notThere (same ▸ old), old⟩
      · rw [others z atX atY] at present
        exact Or.inr ⟨fun same => atX (exclusive.unique z x k (same ▸ present) here), present⟩
  refine ⟨fun z j present => ?_, fun j made => ?_, fun z => ?_, fun z w j first second => ?_⟩
  · rcases source z j present with ⟨rfl, -⟩ | ⟨-, old⟩
    · exact exclusive.sound x j here
    · exact exclusive.sound z j old
  · obtain ⟨z, old⟩ := exclusive.complete j made
    by_cases moved : j = k
    · exact ⟨y, (added_iff j).mpr (Or.inl moved)⟩
    · by_cases atX : z = x
      · subst atX
        exact ⟨z, ((taken_iff j).mp old).resolve_left moved⟩
      · by_cases atY : z = y
        · subst atY
          exact ⟨z, (added_iff j).mpr (Or.inr old)⟩
        · exact ⟨z, by rwa [others z atX atY]⟩
  · by_cases atX : z = x
    · subst atX
      exact (nodup_cons.mp (taken.nodup_iff.mp (exclusive.distinct z))).2
    · by_cases atY : z = y
      · subst atY
        exact added.nodup_iff.mpr (nodup_cons.mpr ⟨notThere, exclusive.distinct z⟩)
      · rw [others z atX atY]
        exact exclusive.distinct z
  · rcases source z j first with ⟨rfl, rfl⟩ | ⟨old, first⟩
    · rcases source w j second with ⟨-, rfl⟩ | ⟨new, -⟩
      · rfl
      · exact (new rfl).elim
    · rcases source w j second with ⟨new, -⟩ | ⟨-, second⟩
      · exact (old new).elim
      · exact exclusive.unique z w j first second

theorem create (exclusive : Exclusive contents created) {y : π} {made : List κ} (distinct : made.Nodup)
    (fresh : ∀ k ∈ made, ¬ created k) (created_iff : ∀ k, created' k ↔ created k ∨ k ∈ made)
    (added : contents' y = contents y ++ made) (others : ∀ z, z ≠ y → contents' z = contents z) :
    Exclusive contents' created' := by
  have source : ∀ z j, j ∈ contents' z → (j ∈ made ∧ z = y) ∨ (j ∉ made ∧ j ∈ contents z) := by
    intro z j present
    by_cases atY : z = y
    · subst atY
      rw [added, mem_append] at present
      rcases present with old | new
      · exact Or.inr ⟨fun new => fresh j new (exclusive.sound z j old), old⟩
      · exact Or.inl ⟨new, rfl⟩
    · rw [others z atY] at present
      exact Or.inr ⟨fun new => fresh j new (exclusive.sound z j present), present⟩
  refine ⟨fun z j present => ?_, fun j made' => ?_, fun z => ?_, fun z w j first second => ?_⟩
  · rcases source z j present with ⟨new, -⟩ | ⟨-, old⟩
    · exact (created_iff j).mpr (Or.inr new)
    · exact (created_iff j).mpr (Or.inl (exclusive.sound z j old))
  · rcases (created_iff j).mp made' with old | new
    · obtain ⟨z, present⟩ := exclusive.complete j old
      by_cases atY : z = y
      · subst atY
        exact ⟨z, by rw [added]; exact mem_append_left _ present⟩
      · exact ⟨z, by rwa [others z atY]⟩
    · exact ⟨y, by rw [added]; exact mem_append_right _ new⟩
  · by_cases atY : z = y
    · subst atY
      rw [added]
      exact (exclusive.distinct z).append distinct fun j old new => fresh j new (exclusive.sound z j old)
    · rw [others z atY]
      exact exclusive.distinct z
  · rcases source z j first with ⟨new, rfl⟩ | ⟨old, first⟩
    · rcases source w j second with ⟨-, rfl⟩ | ⟨old, -⟩
      · rfl
      · exact (old new).elim
    · rcases source w j second with ⟨new, -⟩ | ⟨-, second⟩
      · exact (old new).elim
      · exact exclusive.unique z w j first second

end Exclusive

end Resister.Library
