import Mathlib

/-!
# Machines that share a stream

A machine reads inputs one by one and may stop with a failure.
-/

namespace Resister.Library

open List Option

variable {σ ι ο κ : Type*}

def runMachine (step : σ → ι → Option (σ × List ο)) : σ → List ι → Option (σ × List ο)
  | s, [] => some (s, [])
  | s, i :: rest => do
    let (s', out) ← step s i
    let (final, outs) ← runMachine step s' rest
    some (final, out ++ outs)

variable {step : σ → ι → Option (σ × List ο)}

variable {s s' final : σ} {i : ι} {out : List ο}

theorem runMachine_cons {rest : List ι} {outs : List ο}
    (first : step s i = some (s', out)) (others : runMachine step s' rest = some (final, outs)) :
    runMachine step s (i :: rest) = some (final, out ++ outs) := by
  simp [runMachine, first, others]

theorem runMachine_cons_some {rest : List ι} {whole : List ο}
    (done : runMachine step s (i :: rest) = some (final, whole)) :
    ∃ s' out outs, step s i = some (s', out) ∧ runMachine step s' rest = some (final, outs) ∧
      whole = out ++ outs := by
  simp only [runMachine, bind_eq_bind, bind_eq_some_iff, Option.some.injEq,
    Prod.mk.injEq, Prod.exists] at done
  obtain ⟨s', out, first, last, outs, others, rfl, rfl⟩ := done
  exact ⟨s', out, outs, first, others, rfl⟩

theorem runMachine_cons_isSome (first : step s i = some (s', out))
    (rest : List ι) : (runMachine step s (i :: rest)).isSome = (runMachine step s' rest).isSome := by
  cases others : runMachine step s' rest with
  | none => simp [runMachine, first, others]
  | some r => simp [runMachine, first, others]

theorem runMachine_cons_none (stuck : step s i = none) (rest : List ι) :
    runMachine step s (i :: rest) = none := by
  simp [runMachine, stuck]

theorem runMachine_append {mid : σ} {first second : List ι} {outs : List ο}
    (one : runMachine step s first = some (mid, out)) (two : runMachine step mid second = some (final, outs)) :
    runMachine step s (first ++ second) = some (final, out ++ outs) := by
  induction first generalizing s out with
  | nil =>
    obtain ⟨rfl, rfl⟩ := Prod.mk.inj (Option.some.inj one)
    exact two
  | cons i rest ih =>
    obtain ⟨s', head, tail, stepped, others, rfl⟩ := runMachine_cons_some one
    rw [append_assoc]
    exact runMachine_cons stepped (ih others)

theorem runMachine_append_some {first second : List ι} {whole : List ο}
    (done : runMachine step s (first ++ second) = some (final, whole)) :
    ∃ mid out outs, runMachine step s first = some (mid, out) ∧
      runMachine step mid second = some (final, outs) ∧ whole = out ++ outs := by
  induction first generalizing s whole with
  | nil => exact ⟨s, [], whole, rfl, done, rfl⟩
  | cons i rest ih =>
    obtain ⟨s', head, tail, stepped, others, rfl⟩ := runMachine_cons_some done
    obtain ⟨mid, out, outs, one, two, rfl⟩ := ih others
    exact ⟨mid, head ++ out, outs, runMachine_cons stepped one, two, (append_assoc ..).symm⟩

variable [DecidableEq κ]

def muxStep (key : ι → κ) (step : σ → ι → Option (σ × List ο)) (s : κ → σ) (i : ι) :
    Option ((κ → σ) × List ο) :=
  (step (s (key i)) i).map fun r => (Function.update s (key i) r.1, r.2)

variable {key : ι → κ} {outKey : ο → κ}

def KeepsKey (key : ι → κ) (outKey : ο → κ) (step : σ → ι → Option (σ × List ο)) : Prop :=
  ∀ s i s' out, step s i = some (s', out) → ∀ o ∈ out, outKey o = key i

theorem muxStep_some {s s' : κ → σ} (stepped : muxStep key step s i = some (s', out)) :
    step (s (key i)) i = some (s' (key i), out) ∧ ∀ k, k ≠ key i → s' k = s k := by
  unfold muxStep at stepped
  obtain ⟨⟨t, o⟩, first, same⟩ := map_eq_some_iff.mp stepped
  obtain ⟨rfl, rfl⟩ := Prod.mk.inj same
  refine ⟨by simpa using first, fun k other => ?_⟩
  exact Function.update_of_ne other _ _

theorem filter_outKey (keeps : KeepsKey key outKey step) (stepped : step s i = some (s', out)) (k : κ) :
    out.filter (fun o => outKey o = k) = if key i = k then out else [] := by
  split
  · rename_i here
    exact filter_eq_self.mpr fun o member => by simpa [keeps s i s' out stepped o member] using here
  · rename_i other
    exact filter_eq_nil_iff.mpr fun o member => by simpa [keeps s i s' out stepped o member] using other

variable {stream : List ι}

theorem runMachine_project (keeps : KeepsKey key outKey step) {s final : κ → σ}
    (done : runMachine (muxStep key step) s stream = some (final, out)) (k : κ) :
    runMachine step (s k) (stream.filter fun i => key i = k) =
      some (final k, out.filter fun o => outKey o = k) := by
  induction stream generalizing s out with
  | nil =>
    obtain ⟨rfl, rfl⟩ := Prod.mk.inj (Option.some.inj done)
    rfl
  | cons i rest ih =>
    obtain ⟨s', head, tail, stepped, others, rfl⟩ := runMachine_cons_some done
    obtain ⟨first, kept⟩ := muxStep_some stepped
    rw [filter_append, filter_outKey keeps first]
    by_cases here : key i = k
    · subst here
      simp only [decide_true, filter_cons_of_pos, if_true]
      exact runMachine_cons first (ih others)
    · rw [filter_cons_of_neg (by simpa using here), if_neg here, nil_append]
      have same := ih others
      rw [kept k (Ne.symm here)] at same
      exact same

theorem runMachine_mux_of_each {s : κ → σ}
    (each : ∀ k, (runMachine step (s k) (stream.filter fun i => key i = k)).isSome) :
    (runMachine (muxStep key step) s stream).isSome := by
  induction stream generalizing s with
  | nil => rfl
  | cons i rest ih =>
    have own := each (key i)
    rw [filter_cons_of_pos (by simp)] at own
    obtain ⟨⟨final, out⟩, whole⟩ := isSome_iff_exists.mp own
    obtain ⟨s', head, tail, stepped, others, rfl⟩ := runMachine_cons_some whole
    have next : muxStep key step s i = some (Function.update s (key i) s', head) := by
      simp [muxStep, stepped]
    have rest_done : (runMachine (muxStep key step) (Function.update s (key i) s') rest).isSome := by
      apply ih
      intro k
      by_cases here : k = key i
      · subst here
        simp [others]
      · rw [Function.update_of_ne here]
        have alone := each k
        rwa [filter_cons_of_neg (by simpa using Ne.symm here)] at alone
    obtain ⟨⟨last, outs⟩, done⟩ := isSome_iff_exists.mp rest_done
    rw [runMachine_cons next done]
    rfl

theorem runMachine_mux_isSome (keeps : KeepsKey key outKey step) {s : κ → σ} :
    (runMachine (muxStep key step) s stream).isSome ↔
      ∀ k, (runMachine step (s k) (stream.filter fun i => key i = k)).isSome := by
  refine ⟨fun whole k => ?_, runMachine_mux_of_each⟩
  obtain ⟨⟨final, out⟩, done⟩ := isSome_iff_exists.mp whole
  rw [runMachine_project keeps done k]
  rfl

end Resister.Library
