import Mathlib
import Resister.Sim.EventOrder

/-!
# The self-check of the event queue

`debugVerify` walks through the bins and compares each event with the one before it, and the first
one with tick 0 and priority 0.
-/

namespace Resister.Sim

open Library Library.BinQueue List

variable {ι : Type} [DecidableEq ι]

/-- The local variables of `debugVerify`. -/
structure Verified (ι : Type) where
  time : Nat := 0
  priority : Int := 0
  map : List ι := []

def Verified.key (v : Verified ι) : Nat ×ₗ Int := toLex (v.time, v.priority)

namespace EventQueue

def verifyEvent (q : EventQueue ι) (v : Verified ι) (x : ι) : Option (Verified ι) :=
  if (q.events x).when_ < v.time then none
  else if (q.events x).when_ = v.time ∧ (q.events x).priority < v.priority then none
  else if x ∈ v.map then none
  else some { time := (q.events x).when_, priority := (q.events x).priority, map := x :: v.map }

def verifyBin (q : EventQueue ι) : Nat → Option ι → Verified ι → Except Fault (Option (Verified ι))
  | _, none, v => .ok (some v)
  | 0, some _, _ => .error .endlessLoop
  | fuel + 1, some x, v =>
    match q.verifyEvent v x with
    | none => .ok none
    | some v => q.verifyBin fuel (q.events x).nextInBin v

def verifyBins [Fintype ι] (q : EventQueue ι) : Nat → Option ι → Verified ι → Except Fault Bool
  | _, none, _ => .ok true
  | 0, some _, _ => .error .endlessLoop
  | fuel + 1, some x, v => do
    match ← q.verifyBin (Fintype.card ι) (some x) v with
    | none => .ok false
    | some v => q.verifyBins fuel (q.events x).nextBin v

def debugVerify [Fintype ι] (q : EventQueue ι) : Except Fault Bool :=
  q.verifyBins (Fintype.card ι) q.head {}

variable {q : EventQueue ι} {v : Verified ι} {p : Option ι} {x : ι} {xs : List ι} {bins : List (Bin ι)}
  {fuel : Nat}

theorem verifyBin_eq (chain : Chain q.nextInBin p xs) (enough : xs.length ≤ fuel) :
    q.verifyBin fuel p v = .ok (xs.foldlM q.verifyEvent v) := by
  induction xs generalizing p fuel v with
  | nil =>
    obtain rfl : p = none := chain
    rw [verifyBin.eq_def]
    rfl
  | cons x xs ih =>
    obtain ⟨rfl, rest⟩ := chain
    obtain ⟨fuel, rfl⟩ := Nat.exists_eq_add_of_lt (Nat.lt_of_lt_of_le xs.length.zero_lt_succ enough)
    rw [Nat.zero_add, verifyBin, foldlM_cons]
    cases q.verifyEvent v x with
    | none => rfl
    | some v => exact ih rest (by simpa using enough)

theorem verifyBins_eq [Fintype ι] (tops : Chain q.nextBin p (bins.map Bin.top)) (links : ∀ b ∈ bins, q.Stack b)
    (small : ∀ b ∈ bins, b.members.length ≤ Fintype.card ι) (enough : bins.length ≤ fuel) :
    q.verifyBins fuel p v = .ok ((members bins).foldlM q.verifyEvent v).isSome := by
  induction bins generalizing p fuel v with
  | nil =>
    obtain rfl : p = none := tops
    rw [verifyBins.eq_def]
    rfl
  | cons b bins ih =>
    obtain ⟨rfl, rest⟩ := tops
    obtain ⟨fuel, rfl⟩ := Nat.exists_eq_add_of_lt (Nat.lt_of_lt_of_le bins.length.zero_lt_succ enough)
    have bin : Chain q.nextInBin (some b.top) b.members := ⟨rfl, links b mem_cons_self⟩
    rw [Nat.zero_add, verifyBins, verifyBin_eq bin (small b mem_cons_self), members, flatMap_cons,
      foldlM_append]
    cases b.members.foldlM q.verifyEvent v with
    | none => rfl
    | some v =>
      exact ih rest (fun c later => links c (mem_cons_of_mem _ later))
        (fun c later => small c (mem_cons_of_mem _ later)) (by simpa using enough)

theorem verifyEvent_eq (fresh : x ∉ v.map) :
    q.verifyEvent v x = if v.key ≤ q.key x then
      some { time := (q.events x).when_, priority := (q.events x).priority, map := x :: v.map } else none := by
  have order : v.key ≤ q.key x ↔ ¬ (q.events x).when_ < v.time ∧
      ¬ ((q.events x).when_ = v.time ∧ (q.events x).priority < v.priority) := by
    rw [Verified.key, key, Event.key, Prod.Lex.toLex_le_toLex]
    omega
  grind [verifyEvent]

theorem verify_iff (sorted : xs.Pairwise fun x y => q.key x ≤ q.key y) (nodup : xs.Nodup)
    (fresh : ∀ x ∈ xs, x ∉ v.map) :
    (xs.foldlM q.verifyEvent v).isSome = true ↔ ∀ x ∈ xs, v.key ≤ q.key x := by
  induction xs generalizing v with
  | nil => simp
  | cons x xs ih =>
    rw [foldlM_cons, verifyEvent_eq (fresh x mem_cons_self)]
    obtain ⟨first, sorted'⟩ := pairwise_cons.mp sorted
    obtain ⟨new, nodup'⟩ := nodup_cons.mp nodup
    by_cases order : v.key ≤ q.key x
    · rw [if_pos order]
      refine (ih sorted' nodup' ?_).trans ?_
      · grind
      · exact ⟨fun _ => forall_mem_cons.mpr ⟨order, fun y later => order.trans (first y later)⟩, fun _ => first⟩
    · simp [order]

omit [DecidableEq ι] in
theorem members_sorted (wf : WellFormed q.key bins) :
    (members bins).Pairwise fun x y => q.key x ≤ q.key y := by
  refine pairwise_flatMap.mpr ⟨fun b mem => pairwise_of_forall_mem_list ?_, ?_⟩
  · intro x hx y hy
    rw [wf.alike b mem x hx, wf.alike b mem y hy]
  · refine wf.increasing.imp_of_mem ?_
    intro b c hb hc less x hx y hy
    rw [wf.alike b hb x hx, wf.alike c hc y hy]
    exact less.le

end EventQueue

namespace Recorded

open EventQueue

variable [Fintype ι]

/-- The self-check fails when an event of negative priority is scheduled for tick 0, and only then. -/
theorem debugVerify_iff (r : Recorded ι) (reached : r.Reached) :
    ∃ verified, r.queue.debugVerify = .ok verified ∧ (verified = true ↔
      ∀ e, (r.queue.events e).scheduled = true → (r.queue.events e).when_ = 0 → 0 ≤ (r.queue.events e).priority) := by
  obtain ⟨bins, sound⟩ := reached.sound
  obtain ⟨tops, links, wf⟩ := sound.holds.represents
  have small : ∀ b ∈ bins, b.members.length ≤ Fintype.card ι := by
    intro b mem
    exact ((nodup_flatMap.mp wf.nodup).1 b mem).length_le_card
  refine ⟨_, verifyBins_eq tops links small (length_le_card wf), ?_⟩
  rw [verify_iff (members_sorted wf) wf.nodup (by simp)]
  refine forall_congr' fun e => imp_congr (sound.holds.exactly e) ?_
  rw [Verified.key, EventQueue.key, Event.key, Prod.Lex.toLex_le_toLex]
  grind

theorem debugVerify_iff_one :
    ∃ r : Recorded (Fin 1), r.Reached ∧ r.queue.debugVerify = .ok true := by
  have scheduled : Reached _ := .step (.call (.schedule 0 5)) (.start (fun _ : Fin 1 => -1) 0) ⟨by decide, rfl⟩ rfl
  obtain ⟨verified, called, answer⟩ := debugVerify_iff _ scheduled
  exact ⟨_, scheduled, called.trans (congrArg _ (answer.mpr (by decide)))⟩

theorem debugVerify_rejects_urgent :
    ∃ r : Recorded (Fin 1), r.Reached ∧ r.queue.debugVerify = .ok false :=
  ⟨_, .step (.call (.schedule 0 0)) (.start (fun _ : Fin 1 => -1) 0) ⟨by decide, rfl⟩ rfl, by decide⟩

end Recorded

end Resister.Sim
