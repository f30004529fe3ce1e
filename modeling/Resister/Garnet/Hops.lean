import Resister.Garnet.InterfaceRefinement
import Resister.Library.CreditChannel

/-!
# Credit conservation

Every virtual channel of a link, with the switch in front of it and the credits behind, is a credit
based channel.
-/

namespace Resister.Garnet

open Function (update update_self update_of_ne)
open Library

def inChannel (vc : Nat) (flits : List Flit) : List Flit := flits.filter fun f => f.vc == vc

namespace Flow

variable (cfg : Config) (s : Flow) (c : Nat × Nat)

/-- The flits in the switch buffer of input `i` that were granted output virtual channel `c`. -/
def switching (i : Nat) : List Flit :=
  (s.switchBuffer i).filter fun f => f.vc == c.2 && cfg.target i f.outport == some c.1

def flying : List Flit :=
  inChannel c.2 (s.stallQueue c.1) ++ (s.virtualChannels c).inputBuffer ++ inChannel c.2 (s.linkBuffer c.1) ++
    inChannel c.2 (s.outQueue c.1)

def returning : List Credit := (s.creditLinkBuffer c.1 ++ s.creditQueue c.1).filter fun credit => credit.vc == c.2

def hop : Hop Packet Nat :=
  { waiting := (s.niOutVcs c).map Flit.key
    switching := fun i => (s.switching cfg c i).map Flit.key
    flying := (s.flying c).map Flit.key
    returning := (s.returning c).map Credit.isFreeSignal
    credits := (s.outVcState c).creditCount }

end Flow

theorem inChannel_append (vc : Nat) (xs ys : List Flit) :
    inChannel vc (xs ++ ys) = inChannel vc xs ++ inChannel vc ys :=
  List.filter_append ..

theorem inChannel_cons_self (f : Flit) (rest : List Flit) : inChannel f.vc (f :: rest) = f :: inChannel f.vc rest := by
  simp [inChannel]

theorem inChannel_cons_other {vc : Nat} {f : Flit} (other : f.vc ≠ vc) (rest : List Flit) :
    inChannel vc (f :: rest) = inChannel vc rest := by
  simp [inChannel, other]

theorem mem_inChannel {vc : Nat} {f : Flit} {flits : List Flit} :
    f ∈ inChannel vc flits ↔ f ∈ flits ∧ f.vc = vc := by
  simp [inChannel]

section Hops

variable {cfg : Config} {s : Flow} {l : Nat} {f : Flit} {rest : List Flit}

theorem traverse_hop (top : s.outQueue l = f :: rest) (time : Nat) (c : Nat × Nat) :
    (s.traverse l f rest time).hop cfg c = s.hop cfg c := by
  have flying : ((s.traverse l f rest time).flying c).map Flit.key = (s.flying c).map Flit.key := by
    by_cases same : c.1 = l
    · by_cases channel : f.vc = c.2
      · simp [Flow.flying, Flow.traverse, same, top, inChannel, channel, Flit.key, Flit.packet]
      · simp [Flow.flying, Flow.traverse, same, top, inChannel, channel]
    · simp [Flow.flying, Flow.traverse, same]
  unfold Flow.hop
  rw [flying]
  rfl

variable {credit : Credit}

theorem traverseCredit_hop {rest : List Credit} (top : s.creditQueue l = credit :: rest)
    (time : Nat) (c : Nat × Nat) : (s.traverseCredit l credit rest time).hop cfg c = s.hop cfg c := by
  have returning : ((s.traverseCredit l credit rest time).returning c).map Credit.isFreeSignal =
      (s.returning c).map Credit.isFreeSignal := by
    by_cases same : c.1 = l
    · by_cases channel : credit.vc = c.2
      · simp [Flow.returning, Flow.traverseCredit, same, top, channel]
      · simp [Flow.returning, Flow.traverseCredit, same, top, channel]
    · simp [Flow.returning, Flow.traverseCredit, same]
  unfold Flow.hop
  rw [returning]
  rfl

variable {t : Nat}

theorem receive_hop {ready port : Nat} {route : RouteInfo} (top : s.linkBuffer l = f :: rest)
    (same : route.fixed = f.route.incrementHops.fixed) (c : Nat × Nat) :
    (s.receive l t ready f rest route port).hop cfg c = s.hop cfg c := by
  have key : ({ f with route := route, stage := (.sa, ready) } : Flit).key = f.key :=
    Prod.ext (Flit.packet_eq_of_fixed same) rfl
  have flying : ((s.receive l t ready f rest route port).flying c).map Flit.key = (s.flying c).map Flit.key := by
    by_cases here : c = (l, f.vc)
    · subst here
      simp [Flow.flying, Flow.receive, top, inChannel_cons_self, key]
    · by_cases link : c.1 = l
      · have channel : f.vc ≠ c.2 := fun channel => here (Prod.ext link channel.symm)
        simp [Flow.flying, Flow.receive, here, link, top, inChannel_cons_other channel]
      · simp [Flow.flying, Flow.receive, here, link]
  unfold Flow.hop
  rw [flying]
  rfl

theorem stall_hop (top : s.linkBuffer l = f :: rest) (empty : (s.virtualChannels (l, f.vc)).inputBuffer = [])
    (c : Nat × Nat) : (s.stall l f rest).hop cfg c = s.hop cfg c := by
  have flying : (s.stall l f rest).flying c = s.flying c := by
    by_cases here : c = (l, f.vc)
    · subst here
      simp [Flow.flying, Flow.stall, top, empty, inChannel]
    · by_cases link : c.1 = l
      · have channel : f.vc ≠ c.2 := fun channel => here (Prod.ext link channel.symm)
        simp [Flow.flying, Flow.stall, link, top, inChannel, channel]
      · simp [Flow.flying, Flow.stall, link]
  unfold Flow.hop
  rw [flying]
  rfl

theorem cross_hop {out : Nat} (top : s.switchBuffer l = f :: rest) (target : cfg.target l f.outport = some out)
    (time : Nat) (c : Nat × Nat) :
    (s.cross l out f rest time).hop cfg c =
      if c = (out, f.vc) then
        { s.hop cfg c with
          switching := update (s.hop cfg c).switching l (((s.cross l out f rest time).switching cfg c l).map Flit.key)
          flying := (s.hop cfg c).flying ++ [f.key] }
      else s.hop cfg c := by
  have elsewhere : ∀ i, i ≠ l → (s.cross l out f rest time).switching cfg c i = s.switching cfg c i := by
    intro i other
    simp [Flow.switching, Flow.cross, other]
  split
  · rename_i here
    subst here
    unfold Flow.hop
    congr 1
    · funext i
      by_cases same : i = l
      · subst same
        simp
      · simp [same, elsewhere i same]
    · simp [Flow.flying, Flow.cross, inChannel, Flit.key, Flit.packet]
  · rename_i other
    unfold Flow.hop
    congr 1
    · funext i
      by_cases same : i = l
      · subst same
        have skipped : ¬ (f.vc = c.2 ∧ out = c.1) := fun same => other (Prod.ext same.2.symm same.1.symm)
        simp only [Flow.switching, Flow.cross, update_self, top, List.filter_cons, target]
        simp [skipped]
      · rw [elsewhere i same]
    · by_cases link : c.1 = out
      · have channel : f.vc ≠ c.2 := fun channel => other (Prod.ext link channel.symm)
        simp [Flow.flying, Flow.cross, link, inChannel, channel]
      · simp [Flow.flying, Flow.cross, link]

theorem eject_hop (n t : Nat) (c : Nat × Nat) :
    (s.eject n l t f).hop cfg c =
      if c = (l, f.vc) then { s.hop cfg c with returning := (s.hop cfg c).returning ++ [f.isTail] }
      else s.hop cfg c := by
  split
  · rename_i here
    subst here
    unfold Flow.hop
    congr 1
    simp [Flow.returning, Flow.eject]
  · rename_i other
    unfold Flow.hop
    congr 1
    by_cases link : c.1 = l
    · have channel : f.vc ≠ c.2 := fun channel => other (Prod.ext link channel.symm)
      simp [Flow.returning, Flow.eject, link, channel]
    · simp [Flow.returning, Flow.eject, link]

variable {c : Nat × Nat}

theorem hop_with_flying {s' : Flow} (waiting : s'.niOutVcs = s.niOutVcs)
    (switching : s'.switchBuffer = s.switchBuffer) (credits : s'.outVcState = s.outVcState)
    (back : s'.creditLinkBuffer = s.creditLinkBuffer) (queued : s'.creditQueue = s.creditQueue) :
    s'.hop cfg c = { s.hop cfg c with flying := (s'.flying c).map Flit.key } := by
  unfold Flow.hop Flow.switching Flow.returning
  rw [waiting, switching, credits, back, queued]

theorem consume_flying_self (top : s.linkBuffer l = f :: rest) (unstalled : inChannel f.vc (s.stallQueue l) = [])
    (empty : (s.virtualChannels (l, f.vc)).inputBuffer = []) :
    s.flying (l, f.vc) = f :: (s.consume l rest).flying (l, f.vc) := by
  simp [Flow.flying, Flow.consume, top, unstalled, empty, inChannel_cons_self]

theorem consume_flying_other (top : s.linkBuffer l = f :: rest) (other : c ≠ (l, f.vc)) :
    (s.consume l rest).flying c = s.flying c := by
  by_cases link : c.1 = l
  · have channel : f.vc ≠ c.2 := fun channel => other (Prod.ext link channel.symm)
    simp [Flow.flying, Flow.consume, link, top, inChannel, channel]
  · simp [Flow.flying, Flow.consume, link]

theorem unstall_flying_self {before after : List Flit} (queue : s.stallQueue l = before ++ f :: after)
    (first : inChannel f.vc before = []) : s.flying (l, f.vc) = f :: (s.unstall l (before ++ after)).flying
    (l, f.vc) := by
  simp [Flow.flying, Flow.unstall, queue, inChannel_append, first, inChannel_cons_self]

theorem unstall_flying_other {before after : List Flit} (queue : s.stallQueue l = before ++ f :: after)
    (other : c ≠ (l, f.vc)) : (s.unstall l (before ++ after)).flying c = s.flying c := by
  by_cases link : c.1 = l
  · have channel : f.vc ≠ c.2 := fun channel => other (Prod.ext link channel.symm)
    simp [Flow.flying, Flow.unstall, link, queue, inChannel_append, inChannel_cons_other channel]
  · simp [Flow.flying, Flow.unstall, link]

theorem send_hop (channel : f.vc = c.2) (time : Nat) (d : Nat × Nat) :
    (s.send c f rest time).hop cfg d =
      if d = c then
        { s.hop cfg d with
          waiting := rest.map Flit.key
          flying := (s.hop cfg d).flying ++ [f.key]
          credits := (s.hop cfg d).credits - 1 }
      else s.hop cfg d := by
  split
  · rename_i here
    subst here
    unfold Flow.hop
    congr 1
    · simp [Flow.send]
    · simp [Flow.flying, Flow.send, inChannel, channel, Flit.key, Flit.packet]
    · simp [Flow.send, OutVcState.decrementCredit]
  · rename_i other
    unfold Flow.hop
    congr 1
    · simp [Flow.send, other]
    · by_cases link : d.1 = c.1
      · have different : f.vc ≠ d.2 := fun same => other (Prod.ext link (same.symm.trans channel))
        simp [Flow.flying, Flow.send, link, inChannel, different]
      · simp [Flow.flying, Flow.send, link]
    · simp [Flow.send, other]

theorem inject_hop {n : Nat} {packet : Packet} {flits : List Flit} (d : Nat × Nat) :
    (s.inject n t c packet flits).hop cfg d =
      if d = c then { s.hop cfg d with waiting := (s.hop cfg d).waiting ++ flits.map Flit.key }
      else s.hop cfg d := by
  split
  · rename_i here
    subst here
    unfold Flow.hop
    congr 1
    · simp [Flow.inject]
    · simp [Flow.inject, OutVcState.setState]
  · rename_i other
    unfold Flow.hop
    congr 1
    · simp [Flow.inject, other]
    · simp [Flow.inject, other]

theorem creditArrives_hop {rest : List Credit} (top : s.creditLinkBuffer l = credit :: rest) (c : Nat × Nat) :
    (s.creditArrives l t credit rest).hop cfg c =
      if c = (l, credit.vc) then
        { s.hop cfg c with
          returning := ((s.creditArrives l t credit rest).returning c).map Credit.isFreeSignal
          credits := (s.hop cfg c).credits + 1 }
      else s.hop cfg c := by
  split
  · rename_i here
    subst here
    unfold Flow.hop
    congr 1
    simp only [Flow.creditArrives, update_self]
    split <;> rfl
  · rename_i other
    unfold Flow.hop
    congr 1
    · by_cases link : c.1 = l
      · have channel : credit.vc ≠ c.2 := fun channel => other (Prod.ext link channel.symm)
        simp [Flow.returning, Flow.creditArrives, link, top, channel]
      · simp [Flow.returning, Flow.creditArrives, link]
    · simp [Flow.creditArrives, other]

theorem creditArrives_returning {rest : List Credit} (top : s.creditLinkBuffer l = credit :: rest) :
    s.returning (l, credit.vc) = credit :: (s.creditArrives l t credit rest).returning (l, credit.vc) := by
  simp [Flow.returning, Flow.creditArrives, top]

section Grant

variable {t port : Nat} {input out : Nat × Nat}

theorem grant_flying_self (top : (s.virtualChannels input).inputBuffer = f :: rest)
    (unstalled : inChannel input.2 (s.stallQueue input.1) = []) :
    s.flying input = f :: (s.grant t port input out f rest).flying input := by
  have buffer : ((s.grant t port input out f rest).virtualChannels input).inputBuffer = rest := by
    simp only [Flow.grant, update_self]
    split <;> rfl
  unfold Flow.flying
  rw [buffer, top]
  simp [Flow.grant, unstalled]

theorem grant_flying_other {c : Nat × Nat} (other : c ≠ input) :
    (s.grant t port input out f rest).flying c = s.flying c := by
  simp [Flow.flying, Flow.grant, other]

theorem grant_returning (c : Nat × Nat) :
    ((s.grant t port input out f rest).returning c).map Credit.isFreeSignal =
      (s.returning c).map Credit.isFreeSignal ++ if c = input then [f.isTail] else [] := by
  by_cases here : c = input
  · subst here
    simp [Flow.returning, Flow.grant]
  · by_cases link : c.1 = input.1
    · have channel : input.2 ≠ c.2 := fun channel => here (Prod.ext link channel.symm)
      simp [Flow.returning, Flow.grant, link, channel, here]
    · simp [Flow.returning, Flow.grant, link, here]

theorem grant_switching (target : cfg.target input.1 (some port) = some out.1) (c : Nat × Nat) (i : Nat) :
    ((s.grant t port input out f rest).switching cfg c i).map Flit.key =
      (s.switching cfg c i).map Flit.key ++ if i = input.1 ∧ c = out then [f.key] else [] := by
  by_cases switch : i = input.1
  · subst switch
    by_cases here : c = out
    · subst here
      simp [Flow.switching, Flow.grant, target, Flit.key, Flit.packet]
    · have different : ¬ (out.2 = c.2 ∧ out.1 = c.1) := fun same => here (Prod.ext same.2.symm same.1.symm)
      simp [Flow.switching, Flow.grant, target, here, different]
  · simp [Flow.switching, Flow.grant, switch]

theorem grant_credits (c : Nat × Nat) :
    ((s.grant t port input out f rest).outVcState c).creditCount =
      (s.outVcState c).creditCount - if c = out then 1 else 0 := by
  by_cases here : c = out
  · subst here
    simp only [Flow.grant, update_self, if_true]
    split <;> rfl
  · simp [Flow.grant, here]

theorem grant_hop_input (target : cfg.target input.1 (some port) = some out.1) (different : input ≠ out) :
    (s.grant t port input out f rest).hop cfg input =
      { s.hop cfg input with
        flying := ((s.grant t port input out f rest).flying input).map Flit.key
        returning := (s.hop cfg input).returning ++ [f.isTail] } := by
  unfold Flow.hop
  simp only [grant_switching target, grant_returning, grant_credits, different, and_false, if_false, if_true,
    List.append_nil, Nat.sub_zero]
  rfl

theorem grant_hop_out (target : cfg.target input.1 (some port) = some out.1) (different : input ≠ out) :
    (s.grant t port input out f rest).hop cfg out =
      { s.hop cfg out with
        switching := update (s.hop cfg out).switching input.1 ((s.hop cfg out).switching input.1 ++ [f.key])
        credits := (s.hop cfg out).credits - 1 } := by
  unfold Flow.hop
  simp only [grant_switching target, grant_returning, grant_credits, different.symm, grant_flying_other,
    and_true, if_false, if_true, List.append_nil, ne_eq, not_false_eq_true]
  congr 1
  funext i
  by_cases same : i = input.1
  · subst same
    simp
  · simp [same]

theorem grant_hop_other (target : cfg.target input.1 (some port) = some out.1) {c : Nat × Nat} (before : c ≠ input)
    (after : c ≠ out) : (s.grant t port input out f rest).hop cfg c = s.hop cfg c := by
  unfold Flow.hop
  simp only [grant_switching target, grant_returning, grant_credits, before, after, grant_flying_other,
    and_false, if_false, List.append_nil, Nat.sub_zero, ne_eq, not_false_eq_true]
  rfl

end Grant

end Hops

end Resister.Garnet
