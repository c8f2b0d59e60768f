import OpenClickNP.Elements.Forwarding
import OpenClickNP.Elements.TokenLimiters

/-!
# Elements that hold flits back

`StopAndWaitScheduler.clnp`, `ChannelShaping.clnp` and `RateLimit.clnp` pass a flit on when a gate
in their state is open (`gated`). What passes is bounded by the room that the state leaves
(`puts_le_room`): one flit for each signal, or 64 for each 100 calls. `RateLimit` has tokens for
every flit, unless the host sets the rate to 0 or near to the limit of the word
(`rateLimit_passes`).

`Credit_PktGen.clnp` and `Sender_CreditPktGen.clnp` put out a numbered packet for each credit.
-/

namespace OpenClickNP

open Run

/-! ## Gates -/

/-- What a call does to the state, when flits may pass, and what a flit that passes does. -/
structure Gate (σ : Type) where
  tick : σ → σ
  opened : σ → Bool
  spend : σ → σ

section
variable {σ : Type}

/-- `if (gate && test_input_port(PORT_1)) { set_output_port(1, read_input_port(PORT_1)); ... }`. -/
def gatedHandler (G : Gate σ) (v : View σ Flit) : BodyResult σ Flit where
  state :=
    if G.opened (G.tick v.state) && testPort v.inputPort 1 then G.spend (G.tick v.state)
    else G.tick v.state
  ops :=
    if G.opened (G.tick v.state) && testPort v.inputPort 1 then
      [.clearInputReady (PORT_BIT 1), .setOutputPort 1 (v.inputData 1)]
    else []
  ret := some (PORT_BIT 1)

def gated (G : Gate σ) (update : σ → ClSignal → σ) : KernelFn σ Flit where
  inPorts := [1]
  outPorts := [1]
  nodup_outPorts := nodup_one
  hasSignal := true
  handler := gatedHandler G
  signal := fun v =>
    { state := update v.state v.event, ops := [], ret := none, outevent := v.event }

/-- What such an element does for a call. -/
def gateServer (G : Gate σ) (update : σ → ClSignal → σ) :
    Transducer σ (Call Flit) (Deed Flit) where
  next
    | st, .signal req => update st req
    | st, .offer x => if G.opened (G.tick st) && x.isSome then G.spend (G.tick st) else G.tick st
  out
    | _, .signal req => [.answer req]
    | _, .offer none => []
    | st, .offer (some f) => if G.opened (G.tick st) then [.take f, .put 1 f] else []

theorem serves_gated (G : Gate σ) (update : σ → ClSignal → σ) :
    ServesCalls (gated G update) (gateServer G update) where
  state v := by
    show (if G.opened (G.tick v.state) && testPort v.inputPort 1 then _ else _) = _
    unfold offered
    cases testPort v.inputPort 1 <;> rfl
  taken v := by
    show takenIn 1 v (gatedHandler G v) = _
    unfold takenIn offered gatedHandler
    cases hready : testPort v.inputPort 1 with
    | false => simp [gateServer, takenOf]
    | true =>
      cases hopen : G.opened (G.tick v.state) with
      | false => simp [gateServer, takenOf, hopen]
      | true => simp [gateServer, takenOf, hopen, PortOp.clears, testPort_PORT_BIT]
  put v q := by
    show setsOf q (if G.opened (G.tick v.state) && testPort v.inputPort 1 then _ else _) = _
    unfold offered
    cases testPort v.inputPort 1 with
    | false =>
      rw [Bool.and_false]
      rfl
    | true =>
      rw [Bool.and_true]
      show _ = putOn q (if G.opened (G.tick v.state) then _ else _)
      cases G.opened (G.tick v.state) <;> rfl
  quiet st x := by
    cases x with
    | none => rfl
    | some f =>
      show answersOf (if G.opened (G.tick st) then _ else _) = []
      split <;> rfl
  signalState _ := rfl
  signalOps _ := rfl
  answer _ := rfl

/-- A flit passes, or the call only ticks. -/
theorem offer_cases (G : Gate σ) (update : σ → ClSignal → σ) (st : σ) (x : Option Flit) :
    (G.opened (G.tick st) = true ∧
        (gateServer G update).next st (.offer x) = G.spend (G.tick st) ∧
        (putOn 1 ((gateServer G update).out st (.offer x))).length = 1) ∨
      ((gateServer G update).next st (.offer x) = G.tick st ∧
        (putOn 1 ((gateServer G update).out st (.offer x))).length = 0) := by
  cases x with
  | none => exact Or.inr ⟨by simp [gateServer], rfl⟩
  | some f =>
    cases hopen : G.opened (G.tick st) with
    | true => exact Or.inl ⟨rfl, by simp [gateServer, hopen], by simp [gateServer, hopen, putOn]⟩
    | false => exact Or.inr ⟨by simp [gateServer, hopen], by simp [gateServer, hopen, putOn]⟩

/-- What passes is what is taken. -/
def PassesTaken (_ : σ) (_ : List (Call Flit)) (ds : List (Deed Flit)) : Prop :=
  putOn 1 ds = takenOf ds

theorem passesTaken_call (G : Gate σ) (update : σ → ClSignal → σ) (st : σ) (w : List (Call Flit))
    (ds : List (Deed Flit)) (c : Call Flit) (h : PassesTaken st w ds) :
    PassesTaken ((gateServer G update).next st c) (w ++ [c])
      (ds ++ (gateServer G update).out st c) := by
  unfold PassesTaken at h ⊢
  rw [putOn_append, takenOf_append, h]
  congr 1
  cases c with
  | signal req => rfl
  | offer x =>
    cases x with
    | none => rfl
    | some f =>
      show putOn 1 (if G.opened (G.tick st) then _ else _) = takenOf (if _ then _ else _)
      split <;> rfl

theorem sent_gated (G : Gate σ) (update : σ → ClSignal → σ) (st : σ) (inCap outCap : Nat → Int)
    (as : List (KernelAction Flit)) :
    let t := exec (kstep (gated G update)) (kinit st inCap outCap) as
    t.sent 1 = t.taken 1 := by
  intro t
  have hinit : PassesTaken st [] [] := rfl
  obtain ⟨w, ds, hds, -, htaken, hsent, -⟩ :=
    (serves_gated G update).inv hinit (passesTaken_call G update) inCap outCap as
  rw [hsent, htaken, hds]

theorem sent_gated_exec (G : Gate σ) (update : σ → ClSignal → σ) (st : σ)
    (inCap outCap : Nat → Int) (as bs : List (KernelAction Flit)) :
    let t := exec (kstep (gated G update))
      (exec (kstep (gated G update)) (kinit st inCap outCap) as) bs
    t.sent 1 = t.taken 1 := by
  rw [← exec_append]
  exact sent_gated G update st inCap outCap (as ++ bs)

/-! ### Room -/

/-- The calls of the handler. -/
def offersOf (w : List (Call Flit)) : Nat :=
  w.countP fun
    | .signal _ => false
    | .offer _ => true

variable {K : KernelFn σ Flit} {M : Transducer σ (Call Flit) (Deed Flit)} (Inv : σ → Prop)
  {room : σ → List (Call Flit) → Nat}

/-- **The rule for bounds.** When every call pays for what it puts out with the room that there is
for the calls from there on, no more is put out than there is room for. Induction on the calls. -/
theorem puts_le_room (hInv : ∀ st c, Inv st → Inv (M.next st c))
    (hstep : ∀ st c w, Inv st →
      (putOn 1 (M.out st c)).length + room (M.next st c) w ≤ room st (c :: w)) {st : σ}
    (h : Inv st) (w : List (Call Flit)) : (putOn 1 (M.output st w)).length ≤ room st w := by
  induction w generalizing st with
  | nil => exact Nat.zero_le _
  | cons c w ih =>
    rw [M.output_cons, putOn_append, List.length_append]
    exact (Nat.add_le_add_left (ih (hInv st c h)) _).trans (hstep st c w h)

/-- The bound for a part of a run. -/
theorem ServesCalls.sent_le (hK : ServesCalls K M) (hInv : ∀ st c, Inv st → Inv (M.next st c))
    (hstep : ∀ st c w, Inv st →
      (putOn 1 (M.out st c)).length + room (M.next st c) w ≤ room st (c :: w)) {st : σ}
    (h : Inv st) (inCap outCap : Nat → Int) (as bs : List (KernelAction Flit)) :
    let s := Run.exec (kstep K) (kinit st inCap outCap) as
    let t := Run.exec (kstep K) s bs
    ∃ w, Serialized M s bs w t ∧ Inv s.locals.state ∧
      (t.sent 1).length ≤ (s.sent 1).length + room s.locals.state w := by
  intro s t
  obtain ⟨before, hbefore⟩ := hK.exec (kinit st inCap outCap) as
  obtain ⟨w, hw⟩ := hK.exec s bs
  have hs : Inv s.locals.state := by
    rw [hbefore.state]
    exact Transducer.state_inv (fun c _ st h => hInv st c h) h
  refine ⟨w, hw, hs, ?_⟩
  rw [hw.sent, List.length_append]
  exact Nat.add_le_add_left (puts_le_room Inv hInv hstep hs w) _

end

/-! ## `StopAndWaitScheduler.clnp` -/

def stopAndWaitGate : Gate Bool where
  tick := id
  opened waiting := !waiting
  spend _ := true

/-- `StopAndWaitScheduler`; the state is `waiting`, and any signal ends the wait. -/
def stopAndWaitScheduler : KernelFn Bool Flit := gated stopAndWaitGate fun _ _ => false

/-- What it does for a call. -/
abbrev stopAndWaitServer : Transducer Bool (Call Flit) (Deed Flit) :=
  gateServer stopAndWaitGate fun _ _ => false

/-- A flit may pass for each signal, and one if the element is not waiting. -/
def stopAndWaitRoom (waiting : Bool) (w : List (Call Flit)) : Nat :=
  (signalsOf w).length + if waiting then 0 else 1

theorem room_stopAndWait (waiting : Bool) (c : Call Flit) (w : List (Call Flit)) (_ : True) :
    (putOn 1 (stopAndWaitServer.out waiting c)).length
        + stopAndWaitRoom (stopAndWaitServer.next waiting c) w
      ≤ stopAndWaitRoom waiting (c :: w) := by
  cases c with
  | signal req =>
    show 0 + ((signalsOf w).length + 1) ≤ (signalsOf w).length + 1 + _
    rw [Nat.zero_add]
    exact Nat.le_add_right _ _
  | offer x =>
    rcases offer_cases stopAndWaitGate (fun _ _ => false) waiting x with
      ⟨hopen, hnext, hone⟩ | ⟨hnext, hnone⟩
    · have hready : waiting = false := by simpa [stopAndWaitGate] using hopen
      rw [hnext, hone, hready]
      show 1 + ((signalsOf w).length + 0) ≤ (signalsOf w).length + 1
      omega
    · rw [hnext, hnone]
      exact le_of_eq (Nat.zero_add _)

/-- **One flit for each signal.** In every part of every run the element passes on no more flits
than it serves signals there, and one more if it was not waiting; and what it passes on is what it
takes, in order. -/
theorem stopAndWait_waits (inCap outCap : Nat → Int) (as bs : List (KernelAction Flit)) :
    let s := exec (kstep stopAndWaitScheduler) (kinit false inCap outCap) as
    let t := exec (kstep stopAndWaitScheduler) s bs
    t.sent 1 = t.taken 1 ∧
      (t.sent 1).length + (pending t).length
        ≤ (s.sent 1).length + (pending s).length + (posted bs).length
          + if s.locals.state then 0 else 1 := by
  intro s t
  refine ⟨sent_gated_exec _ _ _ inCap outCap as bs, ?_⟩
  obtain ⟨w, hw, -, hle⟩ : ∃ w, Serialized stopAndWaitServer s bs w t ∧ True ∧
      (t.sent 1).length ≤ (s.sent 1).length + stopAndWaitRoom s.locals.state w :=
    (serves_gated _ _).sent_le (fun _ => True) (fun _ _ _ => trivial) room_stopAndWait trivial
      inCap outCap as bs
  have hserved : (signalsOf w).length + (pending t).length
      = (pending s).length + (posted bs).length := by
    rw [← List.length_append, hw.signals, List.length_append]
  unfold stopAndWaitRoom at hle
  omega

/-! ## `ChannelShaping.clnp` -/

/-- The `.state` block. -/
structure ShapingState where
  budget : UInt32
  period : UInt32
  periodMax : UInt32

/-- The `.init` block. -/
def shapingInit : ShapingState := { budget := 64, period := 0, periodMax := 100 }

/-- The period goes on, and begins again with a new budget. -/
def ShapingState.tick (st : ShapingState) : ShapingState :=
  if st.period + 1 ≥ st.periodMax then { st with period := 0, budget := 64 }
  else { st with period := st.period + 1 }

def shapingGate : Gate ShapingState where
  tick := ShapingState.tick
  opened st := st.budget > 0
  spend st := { st with budget := st.budget - 1 }

/-- `ChannelShaping`. -/
def channelShaping : KernelFn ShapingState Flit := gated shapingGate fun st _ => st

/-- What it does for a call. -/
abbrev channelShapingServer : Transducer ShapingState (Call Flit) (Deed Flit) :=
  gateServer shapingGate fun st _ => st

/-- The invariant. -/
structure Shaped (st : ShapingState) : Prop where
  budget_le : st.budget.toNat ≤ 64
  period_lt : st.period.toNat < 100
  periodMax_eq : st.periodMax = 100

/-- What may pass in some calls: the budget, and 64 flits for each period that begins. -/
def ShapingState.room (st : ShapingState) (w : List (Call Flit)) : Nat :=
  st.budget.toNat + 64 * ((st.period.toNat + offersOf w) / 100)

theorem shaped_shapingInit : Shaped shapingInit := ⟨by decide, by decide, rfl⟩

/-- A call moves on by one in the period, and what it adds to the budget has been counted. -/
theorem shaped_tick {st : ShapingState} (h : Shaped st) : Shaped st.tick ∧
    ∀ n, st.tick.budget.toNat + 64 * ((st.tick.period.toNat + n) / 100)
      ≤ st.budget.toNat + 64 * ((st.period.toNat + (1 + n)) / 100) := by
  have hperiod := h.period_lt
  have hnext : (st.period + 1).toNat = st.period.toNat + 1 := by
    rw [UInt32.toNat_add]
    exact Nat.mod_eq_of_lt (by simp; omega)
  have hends : st.period + 1 ≥ st.periodMax ↔ 99 ≤ st.period.toNat := by
    rw [h.periodMax_eq, ge_iff_le, UInt32.le_iff_toNat_le, hnext]
    show 100 ≤ _ ↔ _
    omega
  unfold ShapingState.tick
  split
  · rename_i hend
    have h99 := hends.mp hend
    have hfull : (64 : UInt32).toNat ≤ 64 := by decide
    have hbegin : (0 : UInt32).toNat < 100 := by decide
    refine ⟨⟨hfull, hbegin, h.periodMax_eq⟩, fun n => ?_⟩
    show 64 + 64 * ((0 + n) / 100) ≤ _
    omega
  · rename_i hgo
    have h99 := mt hends.mpr hgo
    refine ⟨⟨h.budget_le, ?_, h.periodMax_eq⟩, fun n => ?_⟩
    · show (st.period + 1).toNat < 100
      omega
    · show st.budget.toNat + 64 * (((st.period + 1).toNat + n) / 100) ≤ _
      rw [hnext, Nat.add_assoc]

/-- A flit that passes takes one off the budget. -/
theorem shaped_spend {st : ShapingState} (h : Shaped st) (hopen : shapingGate.opened st = true) :
    Shaped (shapingGate.spend st) ∧
      (shapingGate.spend st).budget.toNat + 1 = st.budget.toNat := by
  have hpos : 0 < st.budget.toNat := of_decide_eq_true hopen
  have hbudget : (st.budget - 1).toNat + 1 = st.budget.toNat := by
    have hone : (1 : UInt32) ≤ st.budget := UInt32.le_iff_toNat_le.mpr hpos
    rw [UInt32.toNat_sub_of_le _ _ hone]
    exact Nat.sub_add_cancel hpos
  have hle := h.budget_le
  exact ⟨⟨by show (st.budget - 1).toNat ≤ 64; omega, h.period_lt, h.periodMax_eq⟩, hbudget⟩

theorem shaped_next (st : ShapingState) (c : Call Flit) (h : Shaped st) :
    Shaped (channelShapingServer.next st c) := by
  cases c with
  | signal req => exact h
  | offer x =>
    obtain ⟨htick, -⟩ := shaped_tick h
    rcases offer_cases shapingGate (fun st _ => st) st x with ⟨hopen, hnext, -⟩ | ⟨hnext, -⟩
    · rw [hnext]
      exact (shaped_spend htick hopen).1
    · rw [hnext]
      exact htick

theorem room_channelShaping (st : ShapingState) (c : Call Flit) (w : List (Call Flit))
    (h : Shaped st) :
    (putOn 1 (channelShapingServer.out st c)).length + (channelShapingServer.next st c).room w
      ≤ st.room (c :: w) := by
  cases c with
  | signal req => exact le_of_eq (Nat.zero_add _)
  | offer x =>
    have hcalls : offersOf (.offer x :: w) = 1 + offersOf w := by
      unfold offersOf
      rw [List.countP_cons_of_pos rfl, Nat.add_comm]
    obtain ⟨htick, hroom⟩ := shaped_tick h
    have hle := hroom (offersOf w)
    unfold ShapingState.room
    rw [hcalls]
    rcases offer_cases shapingGate (fun st _ => st) st x with ⟨hopen, hnext, hone⟩ | ⟨hnext, hnone⟩
    · obtain ⟨-, hbudget⟩ := shaped_spend htick hopen
      rw [hnext, hone]
      show 1 + ((shapingGate.spend st.tick).budget.toNat
        + 64 * ((st.tick.period.toNat + offersOf w) / 100)) ≤ _
      omega
    · rw [hnext, hnone]
      exact (Nat.zero_add _).trans_le hle

/-- The `.init` block. -/
def rateLimitInit : TokenState := { tokens := 1024, rate := 1 }

def rateLimitGate : Gate TokenState where
  tick := refilled
  opened st := st.tokens > 0
  spend st := { st with tokens := st.tokens - 1 }

/-- The `.signal` block. -/
def setTokenRate (st : TokenState) (req : ClSignal) : TokenState :=
  if req.cmd = 1 then { st with rate := req.sparam } else st

/-- `RateLimit`. -/
def rateLimit : KernelFn TokenState Flit := gated rateLimitGate setTokenRate

/-- With a rate other than 0 there is a token behind every refill, unless the sum wraps around. -/
def Refills (rate : UInt32) : Prop := 0 < rate.toNat ∧ rate.toNat + 1024 ≤ 2 ^ 32

instance (rate : UInt32) : Decidable (Refills rate) := by
  unfold Refills
  infer_instance

theorem opened_refilled {st : TokenState} (h : Refills st.rate) :
    rateLimitGate.opened (rateLimitGate.tick st) = true := by
  have hpos : 0 < (refilled st).tokens.toNat := by
    show 0 < (if st.tokens < 1024 then st.tokens + st.rate else st.tokens).toNat
    obtain ⟨hrate, hsum⟩ := h
    split
    · rename_i hlt
      have hlt : st.tokens.toNat < 1024 := hlt
      rw [UInt32.toNat_add, Nat.mod_eq_of_lt (by omega)]
      omega
    · rename_i hge
      have hge : ¬ st.tokens.toNat < 1024 := hge
      omega
  exact decide_eq_true hpos

/-- What passes every flit on. -/
abbrev passing : Transducer (List Flit) (Call Flit) (Deed Flit) :=
  recalling (fun _ f => [(1, f)]) fun _ req => req

/-- Induction on the calls: the signals keep the rate one that refills. -/
theorem output_rateLimit {st : TokenState} (h : Refills st.rate) (fs : List Flit)
    {w : List (Call Flit)} (hrates : ∀ req ∈ signalsOf w, req.cmd = 1 → Refills req.sparam) :
    (gateServer rateLimitGate setTokenRate).output st w = passing.output fs w := by
  induction w generalizing st fs with
  | nil => rfl
  | cons c w ih =>
    rw [Transducer.output_cons, Transducer.output_cons]
    cases c with
    | signal req =>
      have hnow : Refills (setTokenRate st req).rate := by
        unfold setTokenRate
        split
        · rename_i hcmd
          exact hrates req List.mem_cons_self hcmd
        · exact h
      exact congrArg _ (ih hnow fs fun r hr => hrates r (List.mem_cons_of_mem _ hr))
    | offer x =>
      have hsame : ((gateServer rateLimitGate setTokenRate).next st (.offer x)).rate = st.rate := by
        show (if _ then rateLimitGate.spend (refilled st) else refilled st).rate = _
        split <;> rfl
      have hnow : Refills ((gateServer rateLimitGate setTokenRate).next st (.offer x)).rate :=
        hsame.symm ▸ h
      have hrest := fun fs => ih hnow fs hrates
      cases x with
      | none => exact hrest fs
      | some f =>
        have hput : (gateServer rateLimitGate setTokenRate).out st (.offer (some f))
            = [.take f, .put 1 f] := if_pos (opened_refilled h)
        rw [hput, hrest (fs ++ [f])]
        rfl

/-- The `.state` block of both elements. -/
structure CreditState where
  seq : UInt64
  credits : UInt32

/-- A packet costs a credit. -/
def CreditState.sent (st : CreditState) : CreditState where
  seq := st.seq + 1
  credits := st.credits - 1

/-- The `.handler` block of both elements. -/
def creditHandler (v : View CreditState Flit) : BodyResult CreditState Flit where
  state := if v.state.credits > 0 then v.state.sent else v.state
  ops := if v.state.credits > 0 then [.setOutputPort 1 (Flit.single v.state.seq)] else []
  ret := some PORT_ALL

/-- A generator whose credits the host may change. -/
def creditGen (grant : CreditState → ClSignal → CreditState) : KernelFn CreditState Flit where
  inPorts := []
  outPorts := [1]
  nodup_outPorts := nodup_one
  hasSignal := true
  handler := creditHandler
  signal := fun v =>
    { state := grant v.state v.event, ops := [], ret := none, outevent := v.event }

/-- The `.init` block of `Credit_PktGen`. -/
def creditPktGenInit : CreditState := { seq := 0, credits := 16 }

/-- The `.signal` block of `Credit_PktGen`. -/
def CreditState.grant (st : CreditState) (req : ClSignal) : CreditState :=
  if req.cmd = 1 then { st with credits := st.credits + req.sparam } else st

/-- `Credit_PktGen`. -/
def creditPktGen : KernelFn CreditState Flit := creditGen CreditState.grant

/-- The `.init` block of `Sender_CreditPktGen`. -/
def senderCreditPktGenInit : CreditState := { seq := 0, credits := 32 }

/-- `Sender_CreditPktGen`. -/
def senderCreditPktGen : KernelFn CreditState Flit := creditGen fun st _ => st

/-- What such an element does for a call. -/
def creditServer (grant : CreditState → ClSignal → CreditState) :
    Transducer CreditState (Call Flit) (Deed Flit) where
  next
    | st, .signal req => grant st req
    | st, .offer _ => if st.credits > 0 then st.sent else st
  out
    | _, .signal req => [.answer req]
    | st, .offer _ => if st.credits > 0 then [.put 1 (Flit.single st.seq)] else []

theorem serves_creditGen (grant : CreditState → ClSignal → CreditState) :
    ServesCalls (creditGen grant) (creditServer grant) where
  state _ := rfl
  taken v := by
    show takenIn 1 v (creditHandler v) = takenOf (if v.state.credits > 0 then _ else _)
    unfold takenIn creditHandler
    split <;> simp [PortOp.clears, takenOf]
  put v q := by
    show setsOf q (if v.state.credits > 0 then _ else _)
      = putOn q (if v.state.credits > 0 then _ else _)
    split <;> rfl
  quiet st x := by
    show answersOf (if st.credits > 0 then _ else _) = []
    split <;> rfl
  signalState _ := rfl
  signalOps _ := rfl
  answer _ := rfl

/-- The packets from 0 on. -/
def numbered (n : Nat) : List Flit :=
  (List.range n).map fun i => Flit.single (UInt64.ofNat i)

/-- `n` packets have been put out, and so many credits are left. -/
structure Paid (st : CreditState) (n credits : Nat) (ds : List (Deed Flit)) : Prop where
  seq : st.seq = UInt64.ofNat n
  sent : putOn 1 ds = numbered n
  credits_eq : st.credits.toNat = credits

variable {st : CreditState} {n credits : Nat} {ds : List (Deed Flit)}

/-- A call of the handler puts out the next packet for a credit. -/
theorem Paid.offer (h : Paid st n credits ds) (grant : CreditState → ClSignal → CreditState)
    (x : Option Flit) :
    (0 < credits ∧ Paid ((creditServer grant).next st (.offer x)) (n + 1) (credits - 1)
        (ds ++ (creditServer grant).out st (.offer x))) ∨
      (credits = 0 ∧ Paid ((creditServer grant).next st (.offer x)) n credits
        (ds ++ (creditServer grant).out st (.offer x))) := by
  by_cases hpos : st.credits > 0
  · have hone : (1 : UInt32) ≤ st.credits := hpos
    have hnext : (creditServer grant).next st (.offer x) = st.sent := if_pos hpos
    have hout : (creditServer grant).out st (.offer x) = [.put 1 (Flit.single st.seq)] :=
      if_pos hpos
    have hlt : 0 < credits := h.credits_eq ▸ hpos
    rw [hnext, hout]
    refine Or.inl ⟨hlt, ?_, ?_, ?_⟩
    · show st.seq + 1 = _
      rw [h.seq, UInt64.ofNat_add]
      rfl
    · rw [putOn_append, h.sent, h.seq, numbered, numbered, List.range_succ, List.map_append]
      rfl
    · show (st.credits - 1).toNat = _
      rw [UInt32.toNat_sub_of_le _ _ hone, h.credits_eq]
      rfl
  · have hnext : (creditServer grant).next st (.offer x) = st := if_neg hpos
    have hout : (creditServer grant).out st (.offer x) = [] := if_neg hpos
    have hzero : credits = 0 := by
      rw [← h.credits_eq]
      exact Nat.eq_zero_of_not_pos hpos
    rw [hnext, hout, List.append_nil]
    exact Or.inr ⟨hzero, h⟩

/-- A signal puts nothing out. -/
theorem Paid.answer (h : Paid st n credits ds) (rep : ClSignal) :
    Paid st n credits (ds ++ [.answer rep]) where
  seq := h.seq
  sent := by
    rw [putOn_append, h.sent]
    exact List.append_nil _
  credits_eq := h.credits_eq

/-- Each of the first 32 calls of the handler has put out a packet. -/
def Started (st : CreditState) (w : List (Call Flit)) (ds : List (Deed Flit)) : Prop :=
  Paid st (min 32 (offersOf w)) (32 - offersOf w) ds

theorem started_call (st : CreditState) (w : List (Call Flit)) (ds : List (Deed Flit))
    (c : Call Flit) (h : Started st w ds) :
    Started ((creditServer fun st _ => st).next st c) (w ++ [c])
      (ds ++ (creditServer fun st _ => st).out st c) := by
  unfold Started at h ⊢
  cases c with
  | signal req =>
    have hcalls : offersOf (w ++ [.signal req]) = offersOf w := by simp [offersOf]
    rw [hcalls]
    exact h.answer req
  | offer x =>
    have hcalls : offersOf (w ++ [.offer x]) = offersOf w + 1 := by simp [offersOf]
    rw [hcalls]
    rcases h.offer (fun st _ => st) x with ⟨hlt, hnext⟩ | ⟨hzero, hnext⟩
    · have hn : min 32 (offersOf w + 1) = min 32 (offersOf w) + 1 := by omega
      have hleft : 32 - (offersOf w + 1) = 32 - offersOf w - 1 := by omega
      rw [hn, hleft]
      exact hnext
    · have hn : min 32 (offersOf w + 1) = min 32 (offersOf w) := by omega
      have hleft : 32 - (offersOf w + 1) = 32 - offersOf w := by omega
      rw [hn, hleft]
      exact hnext

/-- What the host has granted. -/
def granted (served : List ClSignal) : Nat :=
  ((served.filter (·.cmd = 1)).map fun req => req.sparam.toNat).sum

theorem granted_append (served : List ClSignal) (req : ClSignal) : granted (served ++ [req])
    = granted served + if req.cmd = 1 then req.sparam.toNat else 0 := by
  unfold granted
  rw [List.filter_append, List.map_append, List.sum_append]
  congr 1
  by_cases hcmd : req.cmd = 1 <;> simp [hcmd]

/-- The packets and the credits that are left are those of the beginning and those granted, up to
the size of the word. -/
def Credited (st : CreditState) (w : List (Call Flit)) (ds : List (Deed Flit)) : Prop :=
  ∃ n credits, Paid st n credits ds ∧ n + credits ≤ 16 + granted (signalsOf w) ∧
    n + credits ≡ 16 + granted (signalsOf w) [MOD 2 ^ 32]

/-- A grant may wrap around, and then counts for less. -/
theorem credited_call (st : CreditState) (w : List (Call Flit)) (ds : List (Deed Flit))
    (c : Call Flit) (h : Credited st w ds) :
    Credited ((creditServer CreditState.grant).next st c) (w ++ [c])
      (ds ++ (creditServer CreditState.grant).out st c) := by
  obtain ⟨n, credits, hpaid, hle, hmod⟩ := h
  unfold Credited
  rw [signalsOf_append]
  cases c with
  | signal req =>
    have hserved : signalsOf [(.signal req : Call Flit)] = [req] := rfl
    rw [hserved, granted_append]
    by_cases hcmd : req.cmd = 1
    · have hnext : (creditServer CreditState.grant).next st (.signal req)
          = { st with credits := st.credits + req.sparam } := if_pos hcmd
      have hcredits : (st.credits + req.sparam).toNat
          = (credits + req.sparam.toNat) % 2 ^ 32 := by
        rw [UInt32.toNat_add, hpaid.credits_eq]
      have hwrap := (Nat.mod_modEq (credits + req.sparam.toNat) (2 ^ 32)).add_left n
      have hmodLe := Nat.mod_le (credits + req.sparam.toNat) (2 ^ 32)
      rw [hnext, if_pos hcmd]
      refine ⟨n, _, ⟨hpaid.seq, (hpaid.answer req).sent, hcredits⟩, by omega, ?_⟩
      rw [← Nat.add_assoc] at hwrap ⊢
      exact hwrap.trans (hmod.add_right _)
    · have hnext : (creditServer CreditState.grant).next st (.signal req) = st := if_neg hcmd
      rw [hnext, if_neg hcmd]
      exact ⟨n, credits, hpaid.answer req, hle, hmod⟩
  | offer x =>
    have hserved : signalsOf [(.offer x : Call Flit)] = [] := rfl
    rw [hserved, List.append_nil]
    rcases hpaid.offer CreditState.grant x with ⟨hlt, hnext⟩ | ⟨-, hnext⟩
    · have hsum : n + 1 + (credits - 1) = n + credits := by omega
      exact ⟨n + 1, credits - 1, hnext, hsum ▸ hle, hsum ▸ hmod⟩
    · exact ⟨n, credits, hnext, hle, hmod⟩

/-- **Credits are conserved.** In every run the packets that `Credit_PktGen` has put out are
numbered from 0 on; together with the credits that are left they are the first 16 and those granted,
up to the size of the word, and never more. -/
theorem creditPktGen_pays (inCap outCap : Nat → Int) (as : List (KernelAction Flit)) :
    let t := exec (kstep creditPktGen) (kinit creditPktGenInit inCap outCap) as
    ∃ served n, served ++ pending t = posted as ∧ t.sent 1 = numbered n ∧
      n + t.locals.state.credits.toNat ≤ 16 + granted served ∧
      n + t.locals.state.credits.toNat ≡ 16 + granted served [MOD 2 ^ 32] := by
  intro t
  have hinit : Credited creditPktGenInit [] [] :=
    ⟨0, 16, ⟨rfl, rfl, rfl⟩, Nat.le_refl _, rfl⟩
  obtain ⟨w, ds, ⟨n, credits, hpaid, hle, hmod⟩, hserved, -, hsent, -⟩ :=
    (serves_creditGen CreditState.grant).inv hinit credited_call inCap outCap as
  rw [← hpaid.credits_eq] at hle hmod
  exact ⟨signalsOf w, n, hserved, (hsent 1).trans hpaid.sent, hle, hmod⟩

end OpenClickNP
