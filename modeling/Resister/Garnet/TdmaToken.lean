import Resister.Garnet.InputState
import Resister.Library.TokenRing
import Resister.Network.GarnetNetwork

/-!
# The token of the TDMA unit

The TDMA units share one token.
-/

namespace Resister.Garnet

open Function (update update_self update_of_ne update_idem)
open Library Nat

def Draws.order (draws : Draws) : List Nat :=
  if draws.shuffle.isPerm (List.range coreNum) then draws.shuffle else List.range coreNum

theorem Draws.order_perm (draws : Draws) : draws.order.Perm (List.range coreNum) := by
  unfold order
  split
  · rename_i perm
    exact List.isPerm_iff.mp perm
  · exact .refl _

namespace Tdma

def start (r : Nat) (token : Tdma) : Tdma :=
  if token.init then token
  else { init := true, counter := fun i => if i = r then 0 else -1, roundCnt := r, roundList := id }

/-- The token goes to the next router of the round, or begins a round in the given order. -/
def next (r : Nat) (order : List Nat) (token : Tdma) : Tdma :=
  let newRound := !(token.roundCnt < coreNum - 1)
  let roundList := if newRound then fun i => order.getD i 0 else token.roundList
  let roundCnt := if newRound then 0 else token.roundCnt + 1
  { token with
    counter := update (update token.counter r (-1)) (roundList roundCnt) 0
    roundCnt := roundCnt
    roundList := roundList }

def count (r cycles : Nat) (token : Tdma) : Tdma :=
  { token with counter := update token.counter r (token.counter r + cycles) }

def advance (r wait : Nat) (order : List Nat) (token : Tdma) : Tdma :=
  let token := token.start r
  if 0 ≤ token.counter r then
    if thresSlot ≤ token.counter r then token.next r order else token.count r (wait + 1)
  else token

def holder (token : Tdma) : Nat := token.roundList token.roundCnt

/-- The order that is drawn when router `r` is woken with the token, if a round ends. -/
def shuffle (r : Nat) (draws : Draws) (token : Tdma) : Option (List Nat) :=
  if thresSlot ≤ token.counter r ∧ coreNum - 1 ≤ token.roundCnt then some draws.order else none

/-- The handover between two states of the token: the router that receives it, and whether a round begins. -/
def handover (token token' : Tdma) : Option (Nat × Bool) :=
  if token.init ∧ token'.roundCnt ≠ token.roundCnt then some (token'.holder, token'.roundCnt == 0) else none

/-- The token is where a token ring has it, and the counters say so. -/
structure Follows (token : Tdma) (ring : TokenRing coreNum) : Prop where
  started : token.init = true
  position : token.roundCnt = ring.position
  order : (List.range coreNum).map token.roundList = ring.order
  enabled : ∀ r, r < coreNum → (0 ≤ token.counter r ↔ r = ring.holder)

variable {token : Tdma} {ring : TokenRing coreNum} {r wait : Nat} {order : List Nat}

theorem holder_of_order {roundList : Nat → Nat} (order : (List.range coreNum).map roundList = ring.order) :
    roundList ring.position = ring.holder := by
  have found := ring.getElem?_position
  rw [← order, List.getElem?_map, List.getElem?_range ring.inside] at found
  exact Option.some.inj found

theorem Follows.holder_eq (follows : token.Follows ring) : token.holder = ring.holder := by
  rw [holder, follows.position]
  exact holder_of_order follows.order

theorem start_follows (below : r < coreNum) (fresh : token.init = false) : ∃ ring, (token.start r).Follows ring ∧
    (token.start r).counter r = 0 := by
  let ring : TokenRing coreNum := ⟨List.range coreNum, r, .refl _, below⟩
  have holder : ring.holder = r := by simp [TokenRing.holder, ring]
  refine ⟨ring, ?_, ?_⟩
  · simp only [start, fresh, Bool.false_eq_true, if_false]
    refine ⟨rfl, rfl, List.map_id _, fun q _ => ?_⟩
    rw [holder]
    dsimp only
    split <;> simp_all
  · simp [start, fresh]

theorem start_of_init (started : token.init = true) : token.start r = token := by
  simp [start, started]

theorem count_follows (follows : token.Follows ring) (cycles : Nat) (here : 0 ≤ token.counter r) :
    (token.count r cycles).Follows ring := by
  refine ⟨follows.started, follows.position, follows.order, fun q below => ?_⟩
  rw [← follows.enabled q below]
  by_cases same : q = r
  · subst same
    simp only [count, update_self]
    omega
  · simp [count, same]

theorem Follows.handed_over (follows : token.Follows ring) (here : r = ring.holder) (h : Nat) {q : Nat}
    (below : q < coreNum) :
    0 ≤ update (update token.counter r (-1)) h 0 q ↔ q = h := by
  by_cases receives : q = h
  · simp [receives]
  · rw [update_of_ne receives]
    by_cases gives : q = r
    · simp only [gives, update_self, Int.reduceNeg, Int.neg_nonneg, Int.reduceLE, false_iff]
      exact fun same => receives (gives.trans same)
    · rw [update_of_ne gives, follows.enabled q below, ← here]
      exact ⟨fun same => absurd same gives, fun same => absurd same receives⟩

theorem map_getD_range (perm : order.Perm (List.range coreNum)) :
    (List.range coreNum).map (fun i => order.getD i 0) = order := by
  have length : order.length = coreNum := by simpa using perm.length_eq
  refine List.ext_getElem (by simp [length]) fun i first second => ?_
  simp [List.getD_eq_getElem?_getD, second]

theorem handover_next (started : token.init = true) : token.handover (token.next r order) ≠ none := by
  have moved : (token.next r order).roundCnt ≠ token.roundCnt := by
    have cores : coreNum = 16 := rfl
    simp only [next, Bool.not_eq_true', decide_eq_false_iff_not]
    split <;> omega
  rw [handover, if_pos ⟨started, moved⟩]
  exact Option.some_ne_none _

theorem next_follows (follows : token.Follows ring) (here : r = ring.holder) (perm : order.Perm (List.range coreNum)) :
    ∃ ring', (token.next r order).Follows ring' ∧
      ring.Passes (handover token (token.next r order)).toList ring' := by
  by_cases more : ring.position + 1 < coreNum
  · have next : token.next r order = { token with
        counter := update (update token.counter r (-1)) (token.roundList (token.roundCnt + 1)) 0
        roundCnt := token.roundCnt + 1 } := by
      have early : token.roundCnt < coreNum - 1 := by rw [follows.position]; omega
      simp [Tdma.next, early]
    have receiver : token.roundList (token.roundCnt + 1) = (ring.next more).holder := by
      rw [follows.position]
      exact @holder_of_order (ring.next more) _ follows.order
    refine ⟨ring.next more, ?_, ?_⟩
    · rw [next]
      refine ⟨follows.started, congrArg (· + 1) follows.position, follows.order, fun q below => ?_⟩
      rw [← receiver]
      exact follows.handed_over here _ below
    · have handed : handover token (token.next r order) = some ((ring.next more).holder, false) := by
        rw [next, handover, if_pos ⟨follows.started, succ_ne_self _⟩, ← receiver]
        rfl
      rw [handed]
      exact .next more (.nil _)
  · have complete : ring.position + 1 = coreNum := by
      have inside := ring.inside
      omega
    have pos : 0 < coreNum := by decide
    have late : ¬ token.roundCnt < coreNum - 1 := by rw [follows.position]; omega
    have next : token.next r order = { token with
        counter := update (update token.counter r (-1)) (order.getD 0 0) 0
        roundCnt := 0
        roundList := fun i => order.getD i 0 } := by
      simp [Tdma.next, late]
    have receiver : order.getD 0 0 = (TokenRing.fresh order perm pos).holder :=
      @holder_of_order (TokenRing.fresh order perm pos) (fun i => order.getD i 0) (map_getD_range perm)
    refine ⟨.fresh order perm pos, ?_, ?_⟩
    · rw [next]
      refine ⟨follows.started, rfl, map_getD_range perm, fun q below => ?_⟩
      rw [← receiver]
      exact follows.handed_over here _ below
    · have handed : handover token (token.next r order) = some ((TokenRing.fresh order perm pos).holder, true) := by
        have moved : (0 : Nat) ≠ token.roundCnt := by
          have last : coreNum = 16 := rfl
          rw [follows.position]
          omega
        rw [next, handover, if_pos ⟨follows.started, moved⟩, ← receiver]
        rfl
      rw [handed]
      exact .newRound complete perm pos (.nil _)

theorem advance_follows (follows : token.Follows ring) (below : r < coreNum) (wait : Nat)
    (perm : order.Perm (List.range coreNum)) :
    ∃ ring', (token.advance r wait order).Follows ring' ∧
      ring.Passes (handover token (token.advance r wait order)).toList ring' := by
  have stays : ∀ token' : Tdma, token'.roundCnt = token.roundCnt → (handover token token').toList = [] :=
    fun _ same => by simp [handover, same]
  unfold advance
  rw [start_of_init follows.started]
  dsimp only
  split
  · rename_i here
    split
    · exact next_follows follows ((follows.enabled r below).mp here) perm
    · refine ⟨ring, count_follows follows _ here, ?_⟩
      rw [stays (token.count r (wait + 1)) rfl]
      exact .nil ring
  · refine ⟨ring, follows, ?_⟩
    rw [stays token rfl]
    exact .nil ring

theorem advance_shuffle (started : token.init = true) (draws : Draws) :
    token.advance r wait draws.order = token.advance r wait ((token.shuffle r draws).getD []) := by
  unfold advance
  rw [start_of_init started]
  dsimp only
  split
  · split
    · rename_i late
      by_cases ends : coreNum - 1 ≤ token.roundCnt
      · rw [shuffle, if_pos ⟨late, ends⟩, Option.getD_some]
      · simp [next, not_le.mp ends]
    · rfl
  · rfl

theorem advance_of_neg (started : token.init = true) (without : ¬ 0 ≤ token.counter r) :
    token.advance r wait order = token := by
  unfold advance
  rw [start_of_init started]
  exact if_neg without

theorem advance_starts (fresh : token.init = false) (below : r < coreNum) (wait : Nat) (order : List Nat) :
    ∃ ring, (token.advance r wait order).Follows ring := by
  obtain ⟨ring, follows, zero⟩ := start_follows below fresh
  refine ⟨ring, ?_⟩
  have early : ¬ (thresSlot : Int) ≤ (token.start r).counter r := by rw [zero]; decide
  have here : 0 ≤ (token.start r).counter r := by rw [zero]
  unfold advance
  dsimp only
  rw [if_pos here, if_neg early]
  exact count_follows follows _ here

end Tdma

namespace InputUnit

variable {cfg : Config} {r l t : Nat} {draws : Draws} {s : Net}

theorem resolve_token (tdma : cfg.inputStruct = .tdma) {f : Flit} {s' : Net} {route : RouteInfo} {port : Nat}
    (result : resolve cfg r 0 l t draws f s = .ok (s', route, port)) :
    s'.tdma = s.tdma ∧ s'.roundFlit = s.roundFlit := by
  have inspected : ∀ {s' : Net} {route : RouteInfo}, inspect cfg r 0 l t draws f s = .ok (s', route) →
      s'.tdma = s.tdma ∧ s'.roundFlit = s.roundFlit := by
    intro s' route result
    simp only [inspect, ne_eq, not_true_eq_false, if_false, tdma] at result
    split at result
    · cases result
      exact ⟨rfl, rfl⟩
    · cases result
      exact ⟨rfl, rfl⟩
  unfold resolve at result
  split at result
  · cases result
  · rename_i found
    obtain ⟨token, flits⟩ := inspected found
    dsimp only at result
    split at result
    · split at result
      · cases result
      · rename_i computed
        cases result
        have same := routeCompute_inputs computed
        rw [recordOutport, if_neg (by simp [tdma])]
        exact ⟨(congrArg InputState.tdma same).trans token, (congrArg InputState.roundFlit same).trans flits⟩
    · cases result
      exact ⟨token, flits⟩

theorem accept_token (tdma : cfg.inputStruct = .tdma) (f : Flit) (rest : List Flit) :
    (accept cfg r 0 l t draws f rest s).tdma = s.tdma ∧
    (accept cfg r 0 l t draws f rest s).roundFlit = s.roundFlit := by
  unfold accept
  split
  · exact ⟨rfl, rfl⟩
  · rename_i decided route port resolved
    have same := scheduleIf_inputs { decided with flow := s.flow.receive l t (t + cfg.pipeDelay r) f rest route port }
      (cfg.pipeStages r != 1) (.router r) (t + cfg.pipeDelay r)
    obtain ⟨token, flits⟩ := resolve_token tdma resolved
    exact ⟨(congrArg InputState.tdma same).trans token, (congrArg InputState.roundFlit same).trans flits⟩

theorem accept_linkBuffer {f : Flit} {rest : List Flit} (top : s.flow.linkBuffer l = f :: rest) :
    (s.flow.linkBuffer l).length ≤ ((accept cfg r 0 l t draws f rest s).flow.linkBuffer l).length + 1 := by
  unfold accept
  split
  · exact le_succ _
  · dsimp only
    rw [Net.scheduleIf_flow, top]
    simp [Flow.receive]

def takes (r l t : Nat) (s : Net) : Bool :=
  isReady (s.flow.linkBuffer l) t && decide (0 ≤ s.tdma.counter r ∧ s.tdma.counter r < thresSlot) &&
    decide (s.roundFlit r < thresFlit)

theorem tdmaConsume_takes (tdma : cfg.inputStruct = .tdma) (taken : takes r l t s = true) :
    (tdmaConsume cfg r l t draws s).tdma = s.tdma.count r (cfg.pipeStages r - 1) ∧
      (tdmaConsume cfg r l t draws s).roundFlit = update s.roundFlit r (s.roundFlit r + 1) ∧
      (s.flow.linkBuffer l).length ≤ ((tdmaConsume cfg r l t draws s).flow.linkBuffer l).length + 1 := by
  simp only [takes, Bool.and_eq_true, decide_eq_true_eq, isReady_iff] at taken
  obtain ⟨⟨⟨f, rest, top, ready⟩, -, early⟩, few⟩ := taken
  obtain ⟨token, flits⟩ := @accept_token cfg r l t draws s tdma f rest
  have shorter := @accept_linkBuffer cfg r l t draws s f rest top
  unfold tdmaConsume
  rw [top]
  dsimp only
  rw [if_pos ⟨ready, early, few⟩]
  refine ⟨?_, ?_, ?_⟩
  · simp only [tdmaCount, Tdma.count, token]
  · simp only [tdmaCount, flits]
  · rw [top] at shorter
    exact shorter

theorem tdmaConsume_waits (here : 0 ≤ s.tdma.counter r) (kept : takes r l t s = false) :
    tdmaConsume cfg r l t draws s = s := by
  unfold tdmaConsume
  split
  · rfl
  · rename_i f rest top
    refine if_neg fun ⟨ready, early, few⟩ => ?_
    simp [takes, top, isReady, ready, here, early, few] at kept

theorem tdmaInit_eq (r : Nat) (s : Net) : tdmaInit r s = { s with tdma := s.tdma.start r } := by
  unfold tdmaInit Tdma.start
  split <;> rfl

def waitCycles (cfg : Config) (r l t : Nat) (s : Net) : Nat :=
  if takes r l t (tdmaInit r s) then cfg.pipeStages r - 1 else 0

theorem wakeupTdma_cases (below : r < coreNum) :
    (s.tdma.start r).counter r < 0 ∧ wakeupTdma cfg r l t draws s =
        (tdmaInit r s).schedule (.router r) (t + thresSlot * cfg.routerPeriod r) ∨
      (0 ≤ (s.tdma.start r).counter r ∧ thresSlot ≤ (s.tdma.start r).counter r) ∧ wakeupTdma cfg r l t draws s =
        (tdmaNext r draws (tdmaInit r s)).schedule (.router r) (t + thresSlot * cfg.routerPeriod r) ∨
      (0 ≤ (s.tdma.start r).counter r ∧ (s.tdma.start r).counter r < thresSlot) ∧ wakeupTdma cfg r l t draws s =
        (tdmaCount r 1 (tdmaConsume cfg r l t draws (tdmaInit r s))).schedule (.router r) (t + cfg.routerPeriod r) := by
  have started : (tdmaInit r s).tdma = s.tdma.start r := by rw [tdmaInit_eq]
  unfold wakeupTdma
  rw [if_neg (not_le.mpr below)]
  dsimp only
  rw [started]
  split
  · rename_i here
    split
    · rename_i late
      have kept : takes r l t (tdmaInit r s) = false := by
        simp only [takes, started, Bool.and_eq_false_imp, Bool.and_eq_true, decide_eq_true_eq]
        intro ⟨_, _, early⟩
        omega
      rw [tdmaConsume_waits (by rwa [started]) kept]
      exact Or.inr (Or.inl ⟨⟨here, late⟩, rfl⟩)
    · rename_i early
      exact Or.inr (Or.inr ⟨⟨here, Int.not_le.mp early⟩, rfl⟩)
  · rename_i without
    exact Or.inl ⟨Int.not_le.mp without, rfl⟩

theorem wakeupTdma_tdma (tdma : cfg.inputStruct = .tdma) (below : r < coreNum) :
    (wakeupTdma cfg r l t draws s).tdma = s.tdma.advance r (waitCycles cfg r l t s) draws.order := by
  have started : (tdmaInit r s).tdma = s.tdma.start r := by rw [tdmaInit_eq]
  have counted : ∀ (wait : Nat) (token : Tdma), (token.count r wait).count r 1 = token.count r (wait + 1) := by
    intro wait token
    simp only [Tdma.count, update_self, update_idem]
    congr 2
    push_cast
    omega
  unfold Tdma.advance waitCycles
  dsimp only
  rcases @wakeupTdma_cases cfg r l t draws s below with
    ⟨without, result⟩ | ⟨⟨here, late⟩, result⟩ | ⟨⟨here, early⟩, result⟩
  · rw [result, if_neg (Int.not_le.mpr without)]
    exact started
  · rw [result, if_pos here, if_pos late, ← started]
    rfl
  · rw [result, if_pos here, if_neg (Int.not_le.mpr early)]
    show (tdmaCount r 1 (tdmaConsume cfg r l t draws (tdmaInit r s))).tdma = _
    cases taken : takes r l t (tdmaInit r s) with
    | true =>
      obtain ⟨token, -⟩ := @tdmaConsume_takes cfg r l t draws _ tdma taken
      rw [if_pos rfl, ← counted, ← started, ← token]
      rfl
    | false =>
      rw [tdmaConsume_waits (by rwa [started]) taken, if_neg Bool.false_ne_true, ← started]
      rfl

theorem wakeupTdma_flits (tdma : cfg.inputStruct = .tdma) (below : r < coreNum) (started : s.tdma.init = true) :
    ∃ taken, (s.flow.linkBuffer l).length ≤ ((wakeupTdma cfg r l t draws s).flow.linkBuffer l).length + taken ∧
      (0 < taken → 0 ≤ s.tdma.counter r ∧ s.roundFlit r + taken ≤ thresFlit) ∧
      (s.tdma.handover (wakeupTdma cfg r l t draws s).tdma = none ∧
          (wakeupTdma cfg r l t draws s).roundFlit = update s.roundFlit r (s.roundFlit r + taken) ∨
        s.tdma.handover (wakeupTdma cfg r l t draws s).tdma ≠ none ∧
          (wakeupTdma cfg r l t draws s).roundFlit = update s.roundFlit r 0 ∧ taken = 0) := by
  have same : tdmaInit r s = s := by rw [tdmaInit, if_pos started]
  have nothing : s.roundFlit = update s.roundFlit r (s.roundFlit r + 0) := by simp
  have kept : ∀ token : Tdma, token.roundCnt = s.tdma.roundCnt → s.tdma.handover token = none :=
    fun _ same => by simp [Tdma.handover, same]
  rcases @wakeupTdma_cases cfg r l t draws s below with ⟨-, result⟩ | ⟨-, result⟩ | ⟨⟨here, -⟩, result⟩
  · rw [result, same]
    exact ⟨0, le_refl _, nofun, Or.inl ⟨kept _ rfl, nothing⟩⟩
  · rw [result, same]
    exact ⟨0, le_refl _, nofun, Or.inr ⟨Tdma.handover_next started, rfl, rfl⟩⟩
  · rw [Tdma.start_of_init started] at here
    cases taken : takes r l t s with
    | false =>
      rw [result, same, tdmaConsume_waits here taken]
      exact ⟨0, le_refl _, nofun, Or.inl ⟨kept _ rfl, nothing⟩⟩
    | true =>
      obtain ⟨token, flits, shorter⟩ := @tdmaConsume_takes cfg r l t draws s tdma taken
      rw [result, same]
      refine ⟨1, shorter, fun _ => ⟨here, ?_⟩, Or.inl ⟨kept _ ?_, flits⟩⟩
      · simp only [takes, Bool.and_eq_true, decide_eq_true_eq] at taken
        exact taken.2
      · show (tdmaConsume cfg r l t draws s).tdma.roundCnt = s.tdma.roundCnt
        rw [token]
        rfl

theorem wakeupTdma_roundFlit (tdma : cfg.inputStruct = .tdma) (below : r < coreNum)
    (few : ∀ q, s.roundFlit q ≤ thresFlit) (q : Nat) : (wakeupTdma cfg r l t draws s).roundFlit q ≤ thresFlit := by
  have started : (tdmaInit r s).tdma.init = true := by
    unfold tdmaInit
    split
    · assumption
    · rfl
  have again : wakeupTdma cfg r l t draws (tdmaInit r s) = wakeupTdma cfg r l t draws s := by
    have same : tdmaInit r (tdmaInit r s) = tdmaInit r s := by
      rw [tdmaInit.eq_def r (tdmaInit r s), if_pos started]
    unfold wakeupTdma
    rw [same, if_neg (not_le.mpr below), if_neg (not_le.mpr below)]
  have flits : (tdmaInit r s).roundFlit = s.roundFlit := by rw [tdmaInit_eq]
  obtain ⟨taken, -, limit, outcome⟩ := @wakeupTdma_flits cfg r l t draws _ tdma below started
  rw [again, flits] at outcome
  rw [flits] at limit
  by_cases here : q = r
  · subst here
    rcases outcome with ⟨-, counted⟩ | ⟨-, counted, -⟩
    · rw [counted, update_self]
      rcases Nat.eq_zero_or_pos taken with rfl | some
      · exact few q
      · exact (limit some).2
    · rw [counted, update_self]
      exact zero_le _
  · rcases outcome with ⟨-, counted⟩ | ⟨-, counted, -⟩
    · rw [counted, update_of_ne here]
      exact few q
    · rw [counted, update_of_ne here]
      exact few q

theorem wakeupTdma_pending (below : r < coreNum) (clock : 0 < cfg.routerPeriod r) :
    ∃ time ∈ (wakeupTdma cfg r l t draws s).pending (.router r), t < time := by
  have slot : 0 < thresSlot * cfg.routerPeriod r := mul_pos (by decide) clock
  have added : ∀ (s : Net) (time : Nat), time ∈ (s.schedule (.router r) time).pending (.router r) :=
    fun s time => by simp [Net.schedule]
  rcases @wakeupTdma_cases cfg r l t draws s below with ⟨-, result⟩ | ⟨-, result⟩ | ⟨-, result⟩
  · rw [result]
    exact ⟨_, added .., by omega⟩
  · rw [result]
    exact ⟨_, added .., by omega⟩
  · rw [result]
    exact ⟨_, added .., by omega⟩

end InputUnit

end Resister.Garnet
