import Mathlib

/-!
# Credit based channels

One hop of a wormhole network as an observer sees it. A packet occupies the hop from its first unit
until its last credit is back.
-/

namespace Resister.Library

open List Nat

variable {κ ι υ : Type}

def window (p : κ) (a b : Nat) : List (κ × Nat) := (List.Ico a b).map (Prod.mk p)

def freeSignals (size a b : Nat) : List Bool := (List.Ico a b).map fun i => decide (i + 1 = size)

section Ico

variable {α : Type} {f : Nat → α} {a b : Nat}

theorem map_Ico_eq_cons {x : α} {rest : List α} (same : (List.Ico a b).map f = x :: rest) :
    a < b ∧ x = f a ∧ rest = (List.Ico (a + 1) b).map f := by
  have below : a < b := by
    by_contra above
    rw [List.Ico.eq_nil_of_le (Nat.le_of_not_lt above)] at same
    cases same
  rw [List.Ico.eq_cons below] at same
  cases same
  exact ⟨below, rfl, rfl⟩

theorem map_Ico_concat (below : a ≤ b) : (List.Ico a b).map f ++ [f b] = (List.Ico a (b + 1)).map f := by
  rw [List.Ico.succ_top below, map_append, map_singleton]

theorem map_Ico_eq_nil (above : b ≤ a) : (List.Ico a b).map f = [] := by
  rw [List.Ico.eq_nil_of_le above, map_nil]

theorem map_Ico_eq_append {xs ys : List α} (same : (List.Ico a b).map f = xs ++ ys) :
    xs = (List.Ico a (a + xs.length)).map f ∧ ys = (List.Ico (a + xs.length) b).map f := by
  induction xs generalizing a with
  | nil => exact ⟨by simp, by simpa using same.symm⟩
  | cons x xs ih =>
    obtain ⟨below, first, rest⟩ := map_Ico_eq_cons same
    obtain ⟨left, right⟩ := ih rest.symm
    have shift : a + 1 + xs.length = a + (x :: xs).length := by
      rw [length_cons]
      omega
    rw [shift] at left right
    refine ⟨?_, right⟩
    rw [List.Ico.eq_cons (by simp), map_cons, ← first, ← left]

end Ico

@[simp] theorem length_window (p : κ) (a b : Nat) : (window p a b).length = b - a := by
  simp [window]

@[simp] theorem length_freeSignals (size a b : Nat) : (freeSignals size a b).length = b - a := by
  simp [freeSignals]

theorem mem_window {p : κ} {a b : Nat} {x : κ × Nat} : x ∈ window p a b ↔ x.1 = p ∧ a ≤ x.2 ∧ x.2 < b := by
  obtain ⟨q, i⟩ := x
  simp only [window, mem_map, List.Ico.mem, Prod.mk.injEq]
  exact ⟨fun ⟨j, inside, same⟩ => ⟨same.1.symm, same.2 ▸ inside⟩, fun ⟨same, inside⟩ => ⟨i, inside, same.symm, rfl⟩⟩

/-- What is on a hop. `switching i` holds the units that came into the sender's switch at input
`i`, `flying` what is past the switch and has not left the receiver, oldest first. -/
structure Hop (κ ι : Type) where
  waiting : List (κ × Nat)
  switching : ι → List (κ × Nat)
  flying : List (κ × Nat)
  returning : List Bool
  credits : Nat

/-- A packet's passage over a hop: how many units were sent, are past the switch, have left the
receiver, and how many credits are back. The owner is the switch input and the channel there from
which the packet comes; a packet that starts here has none. -/
structure Occupancy (κ ι υ : Type) where
  packet : κ
  owner : Option (ι × υ)
  returned : Nat := 0
  departed : Nat := 0
  crossed : Nat := 0
  sent : Nat := 0

variable [DecidableEq ι] {size : κ → Nat} {capacity : Nat} {h : Hop κ ι} {o : Occupancy κ ι υ}

structure Quiet (capacity : Nat) (h : Hop κ ι) : Prop where
  waiting : h.waiting = []
  switching : ∀ i, h.switching i = []
  flying : h.flying = []
  returning : h.returning = []
  credits : h.credits = capacity

structure Busy (size : κ → Nat) (capacity : Nat) (h : Hop κ ι) (o : Occupancy κ ι υ) : Prop where
  waiting : h.waiting = if o.owner = none then window o.packet o.sent (size o.packet) else []
  switching : ∀ i, h.switching i =
    if o.owner.map Prod.fst = some i then window o.packet o.crossed o.sent else []
  flying : h.flying = window o.packet o.departed o.crossed
  returning : h.returning = freeSignals (size o.packet) o.returned o.departed
  credits : h.credits + (o.sent - o.returned) = capacity
  returned_le : o.returned ≤ o.departed
  departed_le : o.departed ≤ o.crossed
  crossed_le : o.crossed ≤ o.sent
  sent_le : o.sent ≤ size o.packet
  direct : o.owner = none → o.crossed = o.sent

def Carries (size : κ → Nat) (capacity : Nat) (h : Hop κ ι) : Option (Occupancy κ ι υ) → Prop
  | none => Quiet capacity h
  | some o => Busy size capacity h o

theorem Carries.conservation {o : Option (Occupancy κ ι υ)} (carries : Carries size capacity h o)
    {inputs : List ι} (distinct : inputs.Nodup) (complete : ∀ i, h.switching i ≠ [] → i ∈ inputs) :
    h.credits + (inputs.map fun i => (h.switching i).length).sum + h.flying.length +
      h.returning.length = capacity := by
  cases o with
  | none =>
    have quiet : Quiet capacity h := carries
    simp [quiet.switching, quiet.flying, quiet.returning, quiet.credits]
  | some o =>
    have busy : Busy size capacity h o := carries
    have switching : (inputs.map fun i => (h.switching i).length).sum = o.sent - o.crossed := by
      cases owner : o.owner with
      | none =>
        have none : ∀ i, h.switching i = [] := fun i => by simp [busy.switching, owner]
        have direct := busy.direct owner
        simp only [none, length_nil, map_const', sum_replicate, smul_eq_mul, mul_zero]
        omega
      | some input =>
        have lengths : ∀ i, (h.switching i).length = if i = input.1 then o.sent - o.crossed else 0 := by
          intro i
          rw [busy.switching, owner]
          by_cases same : i = input.1
          · simp [same]
          · simp [same, Ne.symm same]
        by_cases empty : o.sent - o.crossed = 0
        · simp [lengths, empty]
        · have listed : input.1 ∈ inputs := by
            refine complete _ fun none => empty ?_
            simpa [none] using (lengths input.1).symm
          rw [sum_map_eq_nsmul_single input.1 _ fun i other _ => by rw [lengths, if_neg other],
            count_eq_one_of_mem distinct listed, one_smul, lengths, if_pos rfl]
    have credits := busy.credits
    have order := busy.returned_le
    have order' := busy.departed_le
    have order'' := busy.crossed_le
    rw [switching, busy.flying, busy.returning, length_window, length_freeSignals]
    omega

theorem Quiet.start (quiet : Quiet capacity h) (p : κ) :
    Busy size capacity { h with waiting := window p 0 (size p) } ({ packet := p, owner := none } : Occupancy κ ι υ) :=
  { waiting := by simp
    switching := fun i => by simp [quiet.switching]
    flying := by simp [quiet.flying, window]
    returning := by simp [quiet.returning, freeSignals]
    credits := by simpa using quiet.credits
    returned_le := le_refl _
    departed_le := le_refl _
    crossed_le := le_refl _
    sent_le := zero_le _
    direct := fun _ => rfl }

theorem Quiet.accept (quiet : Quiet capacity h) (p : κ) (owner : ι × υ) :
    Busy size capacity h ({ packet := p, owner := some owner } : Occupancy κ ι υ) :=
  { waiting := by simp [quiet.waiting]
    switching := fun i => by simp [quiet.switching, window]
    flying := by simp [quiet.flying, window]
    returning := by simp [quiet.returning, freeSignals]
    credits := by simpa using quiet.credits
    returned_le := le_refl _
    departed_le := le_refl _
    crossed_le := le_refl _
    sent_le := zero_le _
    direct := by simp }

namespace Busy

variable {x : κ × Nat} {rest : List (κ × Nat)} (busy : Busy size capacity h o)

include busy

theorem waiting_first (first : h.waiting = x :: rest) :
    o.owner = none ∧ x = (o.packet, o.sent) ∧ rest = window o.packet (o.sent + 1) (size o.packet) ∧
      o.sent < size o.packet := by
  have waiting := busy.waiting
  rw [first] at waiting
  split at waiting
  · rename_i source
    obtain ⟨below, head, tail⟩ := map_Ico_eq_cons waiting.symm
    exact ⟨source, head, tail, below⟩
  · cases waiting

theorem flying_first (first : h.flying = x :: rest) :
    x = (o.packet, o.departed) ∧ rest = window o.packet (o.departed + 1) o.crossed ∧
      o.departed < o.crossed := by
  obtain ⟨below, head, tail⟩ := map_Ico_eq_cons (busy.flying.symm.trans first)
  exact ⟨head, tail, below⟩

theorem switching_first {i : ι} (first : h.switching i = x :: rest) :
    o.owner.map Prod.fst = some i ∧ x = (o.packet, o.crossed) ∧
      rest = window o.packet (o.crossed + 1) o.sent ∧ o.crossed < o.sent := by
  have switching := busy.switching i
  rw [first] at switching
  split at switching
  · rename_i owner
    obtain ⟨below, head, tail⟩ := map_Ico_eq_cons switching.symm
    exact ⟨owner, head, tail, below⟩
  · cases switching

theorem returning_first {free : Bool} {rest : List Bool} (first : h.returning = free :: rest) :
    free = decide (o.returned + 1 = size o.packet) ∧
      rest = freeSignals (size o.packet) (o.returned + 1) o.departed ∧ o.returned < o.departed := by
  obtain ⟨below, head, tail⟩ := map_Ico_eq_cons (busy.returning.symm.trans first)
  exact ⟨head, tail, below⟩

theorem mem_flying {x : κ × Nat} (present : x ∈ h.flying) :
    x.1 = o.packet ∧ o.departed ≤ x.2 ∧ x.2 < o.crossed := by
  rw [busy.flying] at present
  exact mem_window.mp present

theorem emit (first : h.waiting = x :: rest) (credit : 0 < h.credits) :
    Busy size capacity { h with waiting := rest, flying := h.flying ++ [x], credits := h.credits - 1 }
      { o with crossed := o.crossed + 1, sent := o.sent + 1 } := by
  obtain ⟨source, rfl, rfl, below⟩ := busy.waiting_first first
  have direct := busy.direct source
  have order := busy.departed_le
  have order' := busy.returned_le
  have credits := busy.credits
  exact
    { waiting := by simp [source]
      switching := fun i => by simpa [source] using busy.switching i
      flying := by
        rw [busy.flying, ← direct]
        exact map_Ico_concat order
      returning := busy.returning
      credits := by
        show h.credits - 1 + (o.sent + 1 - o.returned) = capacity
        omega
      returned_le := busy.returned_le
      departed_le := le_succ_of_le order
      crossed_le := succ_le_succ busy.crossed_le
      sent_le := below
      direct := fun _ => congrArg (· + 1) direct }

theorem switch {owner : ι × υ} (owned : o.owner = some owner) (credit : 0 < h.credits)
    (below : o.sent < size o.packet) :
    Busy size capacity
      { h with
        switching := Function.update h.switching owner.1 (h.switching owner.1 ++ [(o.packet, o.sent)])
        credits := h.credits - 1 }
      { o with sent := o.sent + 1 } := by
  have order := busy.crossed_le
  have order' := busy.departed_le
  have order'' := busy.returned_le
  have credits := busy.credits
  exact
    { waiting := by simpa [owned] using busy.waiting
      switching := fun i => by
        by_cases same : i = owner.1
        · subst same
          simp only [Function.update_self, busy.switching, owned, Option.map_some, if_true]
          exact map_Ico_concat order
        · simpa [owned, same, Ne.symm same] using busy.switching i
      flying := busy.flying
      returning := busy.returning
      credits := by
        show h.credits - 1 + (o.sent + 1 - o.returned) = capacity
        omega
      returned_le := busy.returned_le
      departed_le := busy.departed_le
      crossed_le := le_succ_of_le order
      sent_le := below
      direct := by simp [owned] }

theorem cross {i : ι} (first : h.switching i = x :: rest) :
    Busy size capacity
      { h with switching := Function.update h.switching i rest, flying := h.flying ++ [x] }
      { o with crossed := o.crossed + 1 } := by
  obtain ⟨owned, rfl, rfl, below⟩ := busy.switching_first first
  exact
    { waiting := busy.waiting
      switching := fun j => by
        by_cases same : j = i
        · subst same
          simp [owned]
        · simpa [owned, same, Ne.symm same] using busy.switching j
      flying := by
        rw [busy.flying]
        exact map_Ico_concat busy.departed_le
      returning := busy.returning
      credits := busy.credits
      returned_le := busy.returned_le
      departed_le := le_succ_of_le busy.departed_le
      crossed_le := below
      sent_le := busy.sent_le
      direct := fun source => by
        have unowned : o.owner = none := source
        rw [unowned] at owned
        cases owned }

theorem depart (first : h.flying = x :: rest) :
    Busy size capacity
      { h with flying := rest, returning := h.returning ++ [decide (x.2 + 1 = size x.1)] }
      { o with departed := o.departed + 1 } := by
  obtain ⟨rfl, rfl, below⟩ := busy.flying_first first
  exact
    { waiting := busy.waiting
      switching := busy.switching
      flying := rfl
      returning := by
        rw [busy.returning]
        exact map_Ico_concat busy.returned_le
      credits := busy.credits
      returned_le := le_succ_of_le busy.returned_le
      departed_le := below
      crossed_le := busy.crossed_le
      sent_le := busy.sent_le
      direct := busy.direct }

theorem room {free : Bool} {rest : List Bool} (first : h.returning = free :: rest) :
    h.credits + 1 ≤ capacity := by
  obtain ⟨-, -, below⟩ := busy.returning_first first
  have credits := busy.credits
  have order := busy.departed_le
  have order' := busy.crossed_le
  omega

theorem acknowledge {rest : List Bool} (first : h.returning = false :: rest) :
    Busy size capacity { h with returning := rest, credits := h.credits + 1 }
      { o with returned := o.returned + 1 } := by
  obtain ⟨-, rfl, below⟩ := busy.returning_first first
  have credits := busy.credits
  have order := busy.departed_le
  have order' := busy.crossed_le
  exact
    { waiting := busy.waiting
      switching := busy.switching
      flying := busy.flying
      returning := rfl
      credits := by
        show h.credits + 1 + (o.sent - (o.returned + 1)) = capacity
        omega
      returned_le := below
      departed_le := busy.departed_le
      crossed_le := busy.crossed_le
      sent_le := busy.sent_le
      direct := busy.direct }

theorem release {rest : List Bool} (first : h.returning = true :: rest) :
    Quiet capacity { h with returning := rest, credits := h.credits + 1 } := by
  obtain ⟨last, rfl, below⟩ := busy.returning_first first
  have last := of_decide_eq_true last.symm
  have credits := busy.credits
  have departed := busy.departed_le
  have crossed := busy.crossed_le
  have sent := busy.sent_le
  exact
    { waiting := by
        show h.waiting = []
        rw [busy.waiting]
        split
        · exact map_Ico_eq_nil (by omega)
        · rfl
      switching := fun i => by
        show h.switching i = []
        rw [busy.switching]
        split
        · exact map_Ico_eq_nil (by omega)
        · rfl
      flying := busy.flying.trans (map_Ico_eq_nil (by omega))
      returning := map_Ico_eq_nil (by omega)
      credits := by
        show h.credits + 1 = capacity
        omega }

end Busy

end Resister.Library
