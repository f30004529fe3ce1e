import Mathlib

/-!
# Groups announced through a queue

One party announces the sizes of groups in a queue, and another works through them.
-/

namespace Resister.Library

open List

variable {α : Type*}

def expand (filler : α) : List Nat → List α → List α
  | size :: sizes, a :: rest => List.replicate (size - 1) filler ++ a :: expand filler sizes rest
  | _, _ => []

theorem expand_nil (filler : α) (sizes : List Nat) : expand filler sizes [] = [] := by
  cases sizes <;> rfl

variable {filler : α} {sizes : List Nat} {as : List α}

theorem expand_announce (behind : as.length ≤ sizes.length)
    (size : Nat) : expand filler (sizes ++ [size]) as = expand filler sizes as := by
  induction sizes generalizing as with
  | nil =>
    obtain rfl := length_eq_zero_iff.mp (Nat.le_zero.mp behind)
    rfl
  | cons first rest ih =>
    cases as with
    | nil => rfl
    | cons a others => simp only [cons_append, expand, ih (Nat.le_of_succ_le_succ behind)]

variable {size : Nat}

theorem expand_append {rest : List Nat} (next : sizes.drop as.length = size :: rest) (a : α) :
    expand filler sizes (as ++ [a]) = expand filler sizes as ++ (List.replicate (size - 1) filler ++ [a]) := by
  induction sizes generalizing as with
  | nil => simp at next
  | cons first others ih =>
    cases as with
    | nil =>
      obtain ⟨rfl, rfl⟩ := List.cons.inj next
      simp [expand, expand_nil]
    | cons b more =>
      simp only [cons_append, expand, ih next, append_assoc]

theorem expand_length (positive : ∀ size ∈ sizes, 0 < size)
    (behind : as.length ≤ sizes.length) : (expand filler sizes as).length = (sizes.take as.length).sum := by
  induction sizes generalizing as with
  | nil => simp [expand]
  | cons first rest ih =>
    obtain ⟨here, others⟩ := forall_mem_cons.mp positive
    cases as with
    | nil => rfl
    | cons a more =>
      have later := ih others (Nat.le_of_succ_le_succ behind)
      simp only [expand, length_append, length_replicate, length_cons, later, take_succ_cons,
        sum_cons]
      omega

theorem expand_mono (filler : α) {sizes' : List Nat} {as' : List α} (shorter : sizes <+: sizes')
    (fewer : as <+: as') : expand filler sizes as <+: expand filler sizes' as' := by
  induction sizes generalizing sizes' as as' with
  | nil => exact nil_prefix
  | cons size rest ih =>
    cases as with
    | nil => exact nil_prefix
    | cons a others =>
      obtain ⟨more, rfl⟩ := shorter
      obtain ⟨later, rfl⟩ := fewer
      simp only [cons_append, expand]
      apply (prefix_append_right_inj _).mpr
      exact cons_prefix_cons.mpr ⟨rfl, ih (prefix_append _ _) (prefix_append _ _)⟩

theorem expand_concat {sizes' : List Nat} {as' : List α} (same : as.length = sizes.length) :
    expand filler (sizes ++ sizes') (as ++ as') = expand filler sizes as ++ expand filler sizes' as' := by
  induction sizes generalizing as with
  | nil =>
    obtain rfl := length_eq_zero_iff.mp same
    rfl
  | cons size rest ih =>
    cases as with
    | nil => cases same
    | cons a others =>
      have later : others.length = rest.length := Nat.succ.inj same
      simp only [cons_append, expand, ih later, append_assoc]

def endsWith (filler last : α) (n : Nat) : List α := List.replicate (n - 1) filler ++ [last]

variable {last : α}

theorem length_endsWith {n : Nat} (positive : 0 < n) : (endsWith filler last n).length = n := by
  rw [endsWith, length_append, length_replicate, length_singleton]
  omega

theorem endsWith_eq_last (differ : filler ≠ last) {n k : Nat}
    (found : (endsWith filler last n)[k]? = some last) : k + 1 = n ∨ n = 0 := by
  rw [endsWith] at found
  by_cases early : k < n - 1
  · rw [List.getElem?_append_left (by rw [length_replicate]; exact early), List.getElem?_replicate,
      if_pos early] at found
    exact absurd (Option.some.inj found) differ
  · have inside := (List.getElem?_eq_some_iff.mp found).1
    rw [length_append, length_replicate, length_singleton] at inside
    omega

theorem expand_endsWith (nonempty : sizes ≠ []) (positive : ∀ size ∈ sizes, 0 < size) :
    expand filler sizes (endsWith filler last sizes.length) = endsWith filler last sizes.sum := by
  induction sizes with
  | nil => exact absurd rfl nonempty
  | cons size rest ih =>
    obtain ⟨here, others⟩ := forall_mem_cons.mp positive
    cases rest with
    | nil => simp [endsWith, expand]
    | cons next more =>
      have later := ih (cons_ne_nil _ _) others
      have some_more : 0 < (next :: more).sum := by
        have := others next mem_cons_self
        rw [sum_cons]
        omega
      have front : endsWith filler last (size :: next :: more).length =
          filler :: endsWith filler last (next :: more).length := rfl
      have whole : (size :: next :: more).sum = size + (next :: more).sum := sum_cons
      rw [front, expand, later, whole]
      generalize (next :: more).sum = total at some_more
      rw [endsWith, endsWith, ← cons_append, ← replicate_succ, ← append_assoc,
        replicate_append_replicate]
      congr 2
      omega

structure Expanding (filler : α) (sizes : List Nat) (as : List α) (waiting : List Nat) (out : List α) :
    Prop where
  behind : as.length ≤ sizes.length
  waiting : waiting = sizes.drop as.length
  out : out = expand filler sizes as

namespace Expanding

variable {filler : α} {sizes waiting rest : List Nat} {as out : List α} {size : Nat}

theorem start (filler : α) : Expanding filler [] [] [] [] := ⟨Nat.le_refl 0, rfl, rfl⟩

theorem announce (state : Expanding filler sizes as waiting out) (size : Nat) :
    Expanding filler (sizes ++ [size]) as (waiting ++ [size]) out := by
  have behind := state.behind
  refine ⟨?_, ?_, ?_⟩
  · rw [length_append]
    omega
  · rw [state.waiting, drop_append_of_le_length behind]
  · rw [state.out, expand_announce behind]

theorem take (state : Expanding filler sizes as (size :: rest) out) (a : α) :
    Expanding filler sizes (as ++ [a]) rest (out ++ (List.replicate (size - 1) filler ++ [a])) := by
  have next := state.waiting.symm
  have more : as.length < sizes.length := by
    by_contra beyond
    rw [drop_eq_nil_of_le (by omega)] at next
    cases next
  refine ⟨?_, ?_, ?_⟩
  · rw [length_append]
    exact more
  · rw [length_append, ← drop_drop, next]
    rfl
  · rw [state.out, expand_append next]

end Expanding

def lasts : List Nat → List α → List α
  | [], _ => []
  | size :: sizes, as =>
    match as.drop (size - 1) with
    | [] => []
    | a :: rest => a :: lasts sizes rest

theorem lasts_complete {members rest : List α} {a : α} (complete : members.length + 1 = size) :
    lasts (size :: sizes) (members ++ a :: rest) = a :: lasts sizes rest := by
  have found : (members ++ a :: rest).drop (size - 1) = a :: rest := drop_left' (by omega)
  rw [lasts, found]

theorem lasts_short {members : List α} (short : members.length < size) :
    lasts (size :: sizes) members = [] := by
  have nothing : members.drop (size - 1) = [] := drop_eq_nil_of_le (by omega)
  rw [lasts, nothing]

theorem lasts_append {done more : List Nat} {used rest : List α} (positive : ∀ size ∈ done, 0 < size)
    (exactly : used.length = done.sum) : lasts (done ++ more) (used ++ rest) = lasts done used ++ lasts more rest := by
  induction done generalizing used with
  | nil =>
    obtain rfl := length_eq_zero_iff.mp exactly
    rfl
  | cons size others ih =>
    obtain ⟨here, later⟩ := forall_mem_cons.mp positive
    rw [sum_cons] at exactly
    obtain ⟨members, a, tail, rfl, complete⟩ :
        ∃ members a tail, used = members ++ a :: tail ∧ members.length + 1 = size := by
      have inside : size - 1 < used.length := by omega
      refine ⟨used.take (size - 1), used[size - 1], used.drop (size - 1 + 1), ?_, ?_⟩
      · rw [← drop_eq_getElem_cons inside, take_append_drop]
      · rw [length_take]
        omega
    rw [length_append, length_cons] at exactly
    rw [cons_append, append_assoc, cons_append, lasts_complete complete, lasts_complete complete,
      ih later (by omega), cons_append]

theorem lasts_length (positive : ∀ size ∈ sizes, 0 < size)
    (exactly : as.length = sizes.sum) : (lasts sizes as).length = sizes.length := by
  induction sizes generalizing as with
  | nil => rfl
  | cons size others ih =>
    obtain ⟨here, later⟩ := forall_mem_cons.mp positive
    rw [sum_cons] at exactly
    have inside : size - 1 < as.length := by omega
    have found := drop_eq_getElem_cons inside
    have rest : (as.drop (size - 1 + 1)).length = others.sum := by
      rw [length_drop]
      omega
    rw [lasts, found, length_cons, ih later rest, length_cons]

/-- The state of a party that turns groups into elements, with the number of members it has of the
next group. -/
structure Collecting (sizes : List Nat) (as : List α) (waiting : List Nat) (count : Nat) (out : List α) :
    Prop where
  parts : ∃ done used pending, sizes = done ++ waiting ∧ as = used ++ pending ∧ used.length = done.sum ∧
    pending.length = count ∧ out = lasts done used
  below : ∀ size rest, waiting = size :: rest → count < size
  idle : waiting = [] → count = 0
  positive : ∀ size ∈ sizes, 0 < size

namespace Collecting

variable {sizes waiting rest : List Nat} {as out : List α} {count size : Nat}

theorem start : Collecting (α := α) [] [] [] 0 [] :=
  ⟨⟨[], [], [], rfl, rfl, rfl, rfl, rfl⟩, by simp, fun _ => rfl, by simp⟩

theorem out_eq (state : Collecting sizes as waiting count out) : out = lasts sizes as := by
  obtain ⟨done, used, pending, rfl, rfl, exactly, rfl, rfl⟩ := state.parts
  have positive : ∀ size ∈ done, 0 < size := fun size member =>
    state.positive size (mem_append_left _ member)
  have nothing : lasts waiting pending = [] := by
    cases waiting with
    | nil => rfl
    | cons size rest => exact lasts_short (state.below size rest rfl)
  rw [lasts_append positive exactly, nothing, append_nil]

theorem waiting_ne_nil (state : Collecting sizes as waiting count out) (owed : as.length < sizes.sum) :
    waiting ≠ [] := by
  rintro rfl
  obtain ⟨done, used, pending, rfl, rfl, exactly, rfl, rfl⟩ := state.parts
  have none_pending := state.idle rfl
  rw [append_nil, length_append] at owed
  omega

theorem announce (state : Collecting sizes as waiting count out) (some_member : 0 < size) :
    Collecting (sizes ++ [size]) as (waiting ++ [size]) count out := by
  obtain ⟨done, used, pending, rfl, rfl, exactly, rfl, rfl⟩ := state.parts
  refine ⟨⟨done, used, pending, append_assoc .., rfl, exactly, rfl, rfl⟩, ?_, by simp, ?_⟩
  · intro first others same
    cases waiting with
    | nil =>
      obtain ⟨rfl, rfl⟩ := List.cons.inj same
      rw [state.idle rfl]
      exact some_member
    | cons next later =>
      obtain ⟨rfl, -⟩ := List.cons.inj same
      exact state.below next later rfl
  · intro n member
    obtain inside | last := mem_append.mp member
    · exact state.positive n inside
    · rw [mem_singleton.mp last]
      exact some_member

theorem complete (state : Collecting sizes as (size :: rest) count out) (last : count + 1 = size) (a : α) :
    Collecting sizes (as ++ [a]) rest 0 (out ++ [a]) := by
  obtain ⟨done, used, pending, rfl, rfl, exactly, rfl, rfl⟩ := state.parts
  have positive : ∀ n ∈ done, 0 < n := fun n member => state.positive n (mem_append_left _ member)
  refine ⟨⟨done ++ [size], used ++ (pending ++ [a]), [], by simp, by simp, ?_, rfl, ?_⟩, ?_, fun _ => rfl,
    state.positive⟩
  · rw [length_append, length_append, sum_append, length_singleton, sum_singleton]
    omega
  · rw [lasts_append positive exactly, lasts_complete last]
    rfl
  · intro first others same
    apply state.positive
    rw [same]
    simp

theorem collect (state : Collecting sizes as (size :: rest) count out) (more : count + 1 ≠ size) (a : α) :
    Collecting sizes (as ++ [a]) (size :: rest) (count + 1) out := by
  have below := state.below size rest rfl
  obtain ⟨done, used, pending, rfl, rfl, exactly, rfl, rfl⟩ := state.parts
  refine ⟨⟨done, used, pending ++ [a], rfl, append_assoc .., exactly, by simp, rfl⟩, ?_, by simp,
    state.positive⟩
  intro first others same
  obtain ⟨rfl, -⟩ := List.cons.inj same
  omega

end Collecting

end Resister.Library
