import Mathlib.Logic.Relation

/-!
# Footprints

Updates of a state that carry a label, which says what they may touch, and sequences of updates
whose labels are restricted.
-/

namespace Resister.Library

variable {label state : Type}

def Within (update : label → state → state → Prop) (allowed : label → Prop) : state → state → Prop :=
  Relation.ReflTransGen fun s s' => ∃ part, allowed part ∧ update part s s'

namespace Within

variable {update : label → state → state → Prop} {allowed wider : label → Prop} {s s' s'' : state}

theorem refl : Within update allowed s s := Relation.ReflTransGen.refl

theorem single {part : label} (permitted : allowed part) (step : update part s s') : Within update allowed s s' :=
  Relation.ReflTransGen.single ⟨part, permitted, step⟩

theorem trans (first : Within update allowed s s') (second : Within update allowed s' s'') :
    Within update allowed s s'' :=
  Relation.ReflTransGen.trans first second

theorem mono (weaker : ∀ part, allowed part → wider part) (within : Within update allowed s s') :
    Within update wider s s' :=
  Relation.ReflTransGen.mono (fun _ _ ⟨part, permitted, step⟩ => ⟨part, weaker part permitted, step⟩) _ _ within

theorem foldl {α : Type} {body : state → α → state} (xs : List α)
    (step : ∀ x ∈ xs, ∀ s, Within update allowed s (body s x)) (s : state) :
    Within update allowed s (xs.foldl body s) := by
  induction xs generalizing s with
  | nil => exact refl
  | cons x xs ih =>
    exact (step x List.mem_cons_self s).trans (ih (fun y later => step y (List.mem_cons_of_mem _ later)) _)

theorem relates {P : state → state → Prop} (within : Within update allowed s s') (same : ∀ a, P a a)
    (compose : ∀ {a b c}, P a b → P b c → P a c)
    (step : ∀ {part a b}, allowed part → update part a b → P a b) : P s s' := by
  induction within with
  | refl => exact same s
  | tail _ last ih =>
    obtain ⟨part, permitted, changed⟩ := last
    exact compose ih (step permitted changed)

theorem frame {β : Type} {v : state → β} (within : Within update allowed s s')
    (step : ∀ {part a b}, allowed part → update part a b → v b = v a) : v s' = v s :=
  within.relates (P := fun a b => v b = v a) (fun _ => rfl) (fun first second => second.trans first) step

end Within

end Resister.Library
