import Resister.Garnet.Updates

/-!
# What the local input units keep

The history of the risk detector, the records of the output ports, the counters, and the token of
the TDMA unit.
-/

namespace Resister.Garnet

open Library

structure InputState where
  history : Nat → List HistoryEntry
  outBuf : Nat → List (List (Option (Nat × Nat)))
  stats : Nat → InputUnitStats
  tdma : Tdma
  roundFlit : Nat → Nat

def Net.inputs (s : Net) : InputState := ⟨s.history, s.outBuf, s.stats, s.tdma, s.roundFlit⟩

@[simp] theorem scheduleIf_inputs (s : Net) (condition : Bool) (c : Component) (time : Nat) :
    (s.scheduleIf condition c time).inputs = s.inputs := by
  unfold Net.scheduleIf
  split <;> rfl

variable {cfg : Config}

theorem Update.inputs {part : Part} {s s' : Net} (step : Update cfg part s s') (other : ∀ r, part ≠ .localUnit r) :
    s'.inputs = s.inputs := by
  cases step with
  | inspect => exact (other _ rfl).elim
  | _ => rfl

theorem Updates.inputs {parts : Part → Prop} {s s' : Net} (updates : Updates cfg parts s s')
    (other : ∀ r, ¬ parts (.localUnit r)) : s'.inputs = s.inputs := by
  refine updates.frame fun permitted step => step.inputs fun r same => ?_
  subst same
  exact permitted.elim nofun (other r)

theorem InputUnit.routeCompute_inputs {r inport t raw : Nat} {dirn : PortDirection} {route routed : RouteInfo}
    {port : Nat} {s s' : Net} (result : routeCompute cfg r inport t raw dirn route s = .ok (s', routed, port)) :
    s'.inputs = s.inputs :=
  (routeCompute_within result).frame fun permitted step => step.inputs fun _ same => nomatch same ▸ permitted

theorem routerWakeup_inputs {r l : Nat} {rest : List Nat} (ports : cfg.inLinks (.router r) = l :: rest) (t : Nat)
    (draws : Nat → Draws) (s : Net) :
    (routerWakeup cfg r t draws s).inputs = (InputUnit.wakeup cfg r t draws s (l, 0)).inputs := by
  refine (afterLocalUnit_updates ports t draws s).inputs fun q touched => ?_
  rcases touched with ⟨port, listed, (routing | ⟨first, -⟩) | input⟩ | credits | switch
  · cases routing
  · have later := List.le_snd_of_mem_zipIdx listed
    omega
  · cases input
  · cases credits
  · cases switch

theorem Net.step_router {s : Net} {r t : Nat} (running : s.flow.faults = []) (later : s.flow.due (.router r) ≤ t)
    (draws : Nat → Draws) : step cfg s (.router r t draws) = routerWakeup cfg r t draws (s.woken (.router r) t) := by
  rw [step, if_pos running]
  exact if_pos later

theorem Net.step_inputs (s : Net) (e : Event) :
    (Net.step cfg s e).inputs = s.inputs ∨
      ∃ r t draws l rest, e = .router r t draws ∧ cfg.inLinks (.router r) = l :: rest ∧
        s.flow.faults = [] ∧ s.flow.due (.router r) ≤ t ∧
        (Net.step cfg s e).inputs = (InputUnit.wakeup cfg r t draws (s.woken (.router r) t) (l, 0)).inputs := by
  by_cases touched : ∃ q, e.Touches cfg (.localUnit q)
  · obtain ⟨r, touched⟩ := touched
    obtain ⟨⟨t, draws, rfl⟩, l, rest, ports⟩ := Event.touches_localUnit.mp touched
    by_cases running : s.flow.faults = []
    · by_cases later : s.flow.due (.router r) ≤ t
      · refine Or.inr ⟨r, t, draws, l, rest, rfl, ports, running, later, ?_⟩
        rw [step_router running later]
        exact routerWakeup_inputs ports ..
      · left
        rw [step, if_pos running]
        dsimp only [wakeAt]
        rw [if_neg later]
    · left
      rw [step, if_neg running]
  · exact Or.inl ((step_updates s e).inputs fun q touches => touched ⟨q, touches⟩)

end Resister.Garnet
