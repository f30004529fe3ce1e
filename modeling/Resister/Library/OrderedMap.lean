import Mathlib.Data.List.TakeWhile
import Mathlib.Tactic

/-!
# Ordered maps

A map that keeps its entries in the order of a comparison of keys, as a list of entries. Keys that
the comparison does not tell apart count as one key.
-/

namespace Resister.Library.OrderedMap

open List

variable {κ V : Type*} (lt : κ → κ → Bool)

structure StrictOrder : Prop where
  irrefl : ∀ k, lt k k = false
  trans : ∀ {k l m}, lt k l = true → lt l m = true → lt k m = true

def Sorted (entries : List (κ × V)) : Prop := entries.Pairwise fun x y => lt x.1 y.1 = true

def upTo (k : κ) (entries : List (κ × V)) : List (κ × V) := entries.takeWhile fun e => !lt k e.1

def above (k : κ) (entries : List (κ × V)) : List (κ × V) := entries.dropWhile fun e => !lt k e.1

def insert (new : κ × V) : List (κ × V) → List (κ × V)
  | [] => [new]
  | e :: rest =>
    if lt e.1 new.1 then e :: insert new rest
    else if lt new.1 e.1 then new :: e :: rest
    else e :: rest

variable {lt} {k : κ} {entries : List (κ × V)} {e new : κ × V}

theorem mem_upTo_or_above (lt : κ → κ → Bool) (k : κ) (member : e ∈ entries) :
    e ∈ upTo lt k entries ∨ e ∈ above lt k entries := by
  rw [← mem_append, upTo, above, takeWhile_append_dropWhile]
  exact member

theorem Sorted.upTo (sorted : Sorted lt entries) : Sorted lt (upTo lt k entries) :=
  sorted.sublist (takeWhile_sublist _)

theorem lt_of_mem_above (order : StrictOrder lt) (sorted : Sorted lt entries)
    (member : e ∈ above lt k entries) : lt k e.1 = true := by
  induction entries with
  | nil => cases member
  | cons x rest ih =>
    obtain ⟨first, sorted'⟩ := pairwise_cons.mp sorted
    unfold above at member
    rw [dropWhile_cons] at member
    split at member
    · exact ih sorted' member
    next here =>
      have head : lt k x.1 = true := by simpa using here
      rcases mem_cons.mp member with rfl | later
      · exact head
      · exact order.trans head (first e later)

theorem not_lt_of_mem_upTo (member : e ∈ upTo lt k entries) : lt k e.1 = false := by
  simpa using mem_takeWhile_imp member

theorem mem_upTo_iff (order : StrictOrder lt) (sorted : Sorted lt entries) :
    e ∈ upTo lt k entries ↔ e ∈ entries ∧ lt k e.1 = false := by
  constructor
  · intro member
    exact ⟨(takeWhile_sublist _).subset member, not_lt_of_mem_upTo member⟩
  · rintro ⟨member, before⟩
    rcases mem_upTo_or_above lt k member with early | late
    · exact early
    · have after := lt_of_mem_above order sorted late
      rw [before] at after
      cases after

theorem mem_above_iff (order : StrictOrder lt) (sorted : Sorted lt entries) :
    e ∈ above lt k entries ↔ e ∈ entries ∧ lt k e.1 = true := by
  constructor
  · intro member
    exact ⟨(dropWhile_sublist _).subset member, lt_of_mem_above order sorted member⟩
  · rintro ⟨member, after⟩
    rcases mem_upTo_or_above lt k member with early | late
    · have before := not_lt_of_mem_upTo early
      rw [after] at before
      cases before
    · exact late

theorem Sorted.eq_of_not_lt {x y : κ × V} (sorted : Sorted lt entries) (left : x ∈ entries)
    (right : y ∈ entries) (before : lt x.1 y.1 = false) (after : lt y.1 x.1 = false) : x = y := by
  induction entries with
  | nil => cases left
  | cons head rest ih =>
    obtain ⟨first, sorted'⟩ := pairwise_cons.mp sorted
    rcases mem_cons.mp left with rfl | left'
    · rcases mem_cons.mp right with rfl | right'
      · rfl
      · rw [first y right'] at before
        cases before
    · rcases mem_cons.mp right with rfl | right'
      · rw [first x left'] at after
        cases after
      · exact ih sorted' left' right'

theorem mem_insert_iff (fresh : ∀ x ∈ entries, lt x.1 new.1 = true ∨ lt new.1 x.1 = true) :
    e ∈ insert lt new entries ↔ e = new ∨ e ∈ entries := by
  induction entries with
  | nil => simp [insert]
  | cons x rest ih =>
    have fresh' : ∀ y ∈ rest, lt y.1 new.1 = true ∨ lt new.1 y.1 = true :=
      fun y member => fresh y (mem_cons_of_mem _ member)
    unfold insert
    split
    · rw [mem_cons, ih fresh', mem_cons]
      tauto
    next later =>
      rw [if_pos ((fresh x mem_cons_self).resolve_left later), mem_cons]

theorem mem_insert_of_mem (member : e ∈ entries) : e ∈ insert lt new entries := by
  induction entries with
  | nil => cases member
  | cons x rest ih =>
    unfold insert
    split
    · rcases mem_cons.mp member with rfl | later
      · exact mem_cons_self
      · exact mem_cons_of_mem _ (ih later)
    · split
      · exact mem_cons_of_mem _ member
      · exact member

theorem mem_of_mem_insert (member : e ∈ insert lt new entries) : e = new ∨ e ∈ entries := by
  induction entries with
  | nil => simpa [insert] using member
  | cons x rest ih =>
    unfold insert at member
    split at member
    · rcases mem_cons.mp member with same | later
      · exact .inr (mem_cons.mpr (.inl same))
      · exact (ih later).imp_right (mem_cons_of_mem _)
    · split at member
      · exact mem_cons.mp member
      · exact .inr member

theorem Sorted.insert (order : StrictOrder lt) (sorted : Sorted lt entries) :
    Sorted lt (OrderedMap.insert lt new entries) := by
  induction entries with
  | nil => exact pairwise_singleton _ _
  | cons x rest ih =>
    obtain ⟨first, sorted'⟩ := pairwise_cons.mp sorted
    unfold OrderedMap.insert
    split
    next before =>
      refine pairwise_cons.mpr ⟨?_, ih sorted'⟩
      intro y member
      rcases mem_of_mem_insert member with rfl | later
      · exact before
      · exact first y later
    · split
      next after =>
        refine pairwise_cons.mpr ⟨?_, sorted⟩
        intro y member
        rcases mem_cons.mp member with rfl | later
        · exact after
        · exact order.trans after (first y later)
      · exact sorted

end Resister.Library.OrderedMap
