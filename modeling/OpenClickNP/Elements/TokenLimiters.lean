import OpenClickNP.Backend.CallChain

/-!
# `RateLimitBlocking.clnp`, `RateLimitOneRate.clnp`

Two elements with the same `.state` block: each call adds the rate to the tokens, unless there are
1024 of them, and a flit that costs 64 tokens waits on its port until there are so many. The
handlers are written with the tests in another order; they are the same function
(`rateLimitBlockingHandler_eq`), so that the elements run in lockstep.
-/

namespace OpenClickNP

open Run

/-! ## The elements -/

/-- The `.state` block of both elements. -/
structure TokenState where
  tokens : UInt32
  rate : UInt32
deriving DecidableEq

/-- The `.init` block of both elements. -/
def tokenInit : TokenState := { tokens := 0, rate := 1 }

/-- `set_output_port(1, read_input_port(PORT_1)); _state.tokens -= 64;` -/
def forward (v : View TokenState Flit) (st : TokenState) : BodyResult TokenState Flit where
  state := { st with tokens := st.tokens - 64 }
  ops := [.clearInputReady (PORT_BIT 1), .setOutputPort 1 (v.inputData 1)]
  ret := some (PORT_BIT 1)

/-- The `.handler` block of `RateLimitBlocking`. -/
def rateLimitBlockingHandler (v : View TokenState Flit) : BodyResult TokenState Flit :=
  let st :=
    if v.state.tokens < 1024 then { v.state with tokens := v.state.tokens + v.state.rate }
    else v.state
  if st.tokens ≥ 64 then
    if testPort v.inputPort 1 then forward v st
    else { state := st, ops := [], ret := some (PORT_BIT 1) }
  else { state := st, ops := [], ret := some (PORT_BIT 1) }

/-- The `.handler` block of `RateLimitOneRate`. -/
def rateLimitOneRateHandler (v : View TokenState Flit) : BodyResult TokenState Flit :=
  let st :=
    { v.state with
      tokens :=
        if v.state.tokens < 1024 then v.state.tokens + v.state.rate else v.state.tokens }
  if st.tokens ≥ 64 ∧ testPort v.inputPort 1 = true then forward v st
  else { state := st, ops := [], ret := some (PORT_BIT 1) }

/-- `RateLimitBlocking`. -/
def rateLimitBlocking : KernelFn TokenState Flit where
  inPorts := [1]
  outPorts := [1]
  nodup_outPorts := nodup_one
  handler := rateLimitBlockingHandler

/-- `RateLimitOneRate`. -/
def rateLimitOneRate : KernelFn TokenState Flit where
  inPorts := [1]
  outPorts := [1]
  nodup_outPorts := nodup_one
  handler := rateLimitOneRateHandler

/-- **The handlers do the same**, in every state and for whatever is on the port. -/
theorem rateLimitBlockingHandler_eq : rateLimitBlockingHandler = rateLimitOneRateHandler := by
  funext v
  have hrefill : (if v.state.tokens < 1024 then
        { v.state with tokens := v.state.tokens + v.state.rate } else v.state)
      = { v.state with tokens :=
          if v.state.tokens < 1024 then v.state.tokens + v.state.rate else v.state.tokens } := by
    split <;> rfl
  -- behind the refill the two conditions are nested in the one and joined in the other
  unfold rateLimitBlockingHandler rateLimitOneRateHandler
  simp only [hrefill]
  generalize (if v.state.tokens < 1024 then v.state.tokens + v.state.rate
    else v.state.tokens) = tokens
  by_cases hpaid : tokens ≥ 64
  · rw [if_pos hpaid]
    by_cases hready : testPort v.inputPort 1 = true
    · rw [if_pos hready, if_pos ⟨hpaid, hready⟩]
    · rw [if_neg hready, if_neg fun h => hready h.2]
  · rw [if_neg hpaid, if_neg fun h => hpaid h.1]

theorem rateLimitBlocking_eq : rateLimitBlocking = rateLimitOneRate := by
  unfold rateLimitBlocking rateLimitOneRate
  rw [rateLimitBlockingHandler_eq]

/-! ## A call -/

/-- The invariant. -/
structure Metered (st : TokenState) : Prop where
  rate : st.rate = 1
  tokens_le : st.tokens.toNat ≤ 1024

theorem metered_tokenInit : Metered tokenInit := ⟨rfl, Nat.zero_le _⟩

/-- The tokens behind the refill. -/
def refilled (st : TokenState) : TokenState :=
  { st with tokens := if st.tokens < 1024 then st.tokens + st.rate else st.tokens }

variable {st : TokenState} {v : View TokenState Flit}

theorem metered_refilled (h : Metered st) :
    Metered (refilled st) ∧ (refilled st).tokens.toNat ≤ st.tokens.toNat + 1 := by
  have htokens : (refilled st).tokens.toNat ≤ min 1024 (st.tokens.toNat + 1) := by
    show (if st.tokens < 1024 then st.tokens + st.rate else st.tokens).toNat ≤ _
    have hle := h.tokens_le
    split
    · rename_i hlt
      have hlt : st.tokens.toNat < 1024 := hlt
      rw [h.rate, UInt32.toNat_add]
      show (st.tokens.toNat + 1) % 4294967296 ≤ _
      omega
    · omega
  exact ⟨⟨h.rate, htokens.trans (Nat.min_le_left _ _)⟩, htokens.trans (Nat.min_le_right _ _)⟩

theorem rateLimitOneRate_call (v : View TokenState Flit) : rateLimitOneRate.handler v
    = if (refilled v.state).tokens ≥ 64 ∧ testPort v.inputPort 1 = true then
        forward v (refilled v.state)
      else { state := refilled v.state, ops := [], ret := some (PORT_BIT 1) } := rfl

/-- **One call**: it forwards the flit that it reads, and pays for it with the tokens there are and
with the one that comes in. -/
theorem metered_call (h : Metered v.state) :
    Metered (rateLimitOneRate.handler v).state ∧
      setsOf 1 (rateLimitOneRate.handler v).ops = takenIn 1 v (rateLimitOneRate.handler v) ∧
      (rateLimitOneRate.handler v).state.tokens.toNat
          + 64 * (setsOf 1 (rateLimitOneRate.handler v).ops).length
        ≤ v.state.tokens.toNat + 1 := by
  obtain ⟨hmetered, hone⟩ := metered_refilled h
  rw [rateLimitOneRate_call]
  split
  · rename_i hcond
    have hpaid : 64 ≤ (refilled v.state).tokens.toNat := hcond.1
    -- 64 tokens are there, so the subtraction does not wrap around
    have htokens : (forward v (refilled v.state)).state.tokens.toNat
        = (refilled v.state).tokens.toNat - 64 := UInt32.toNat_sub_of_le _ _ hcond.1
    refine ⟨⟨hmetered.rate, ?_⟩, ?_, ?_⟩
    · rw [htokens]
      exact (Nat.sub_le _ _).trans hmetered.tokens_le
    · have hset : setsOf 1 (forward v (refilled v.state)).ops = [v.inputData 1] := rfl
      rw [hset, takenIn, hcond.2]
      rfl
    · rw [htokens]
      show _ + 64 * 1 ≤ _
      omega
  · refine ⟨hmetered, ?_, hone⟩
    simp [setsOf, takenIn]

/-! ## Runs -/

/-- After the run `as`: there are 1024 tokens at most; what has come in has been forwarded in order,
is latched, or waits in the stream, and what has been forwarded is written if there is room; and the
iterations of a further run `bs` forward no more flits than so many may. -/
structure Limited (K : KernelFn TokenState Flit) (s : KernelState TokenState Flit)
    (as bs : List (KernelAction Flit)) : Prop where
  tokens_le : (exec (kstep K) s as).locals.state.tokens.toNat ≤ 1024
  sent : (exec (kstep K) s as).sent 1 = (sentByCall K 1 s as).flatten
  arrived : (exec (kstep K) s as).arrived 1 = (exec (kstep K) s as).sent 1
    ++ latched (exec (kstep K) s as).locals 1 ++ ((exec (kstep K) s as).ins 1).q
  written : Meets (kstep K) (FindsRoom 1) s as → Lossless 1 (exec (kstep K) s as)
  window : (sentByCall K 1 (exec (kstep K) s as) bs).flatten.length
    ≤ (1024 + (sentByCall K 1 (exec (kstep K) s as) bs).length) / 64

theorem plain_rateLimitOneRate : Plain rateLimitOneRate 1 := by
  have hcall : ∀ v, (∀ op ∈ (rateLimitOneRate.handler v).ops, op.isPlain = true) ∧
      (setsOf 1 (rateLimitOneRate.handler v).ops).length ≤ 1 := by
    intro v
    rw [rateLimitOneRate_call]
    split
    · exact ⟨by simp [forward, PortOp.isPlain], Nat.le_refl 1⟩
    · exact ⟨fun op hop => absurd hop List.not_mem_nil, Nat.zero_le 1⟩
  exact
    { mem := List.mem_singleton_self 1
      lt := by decide
      plain := fun v => (hcall v).1
      length_le := fun v => (hcall v).2
      signal := fun _ => rfl }

/-- Every call keeps the invariant and forwards what it reads. -/
theorem metered_exec (inCap outCap : Nat → Int) (as : List (KernelAction Flit)) :
    let s := exec (kstep rateLimitOneRate) (kinit tokenInit inCap outCap) as
    s.locals.hasSignal = false ∧ Metered s.locals.state ∧ s.sent 1 = s.taken 1 := by
  have hinv := inv_calls (K := rateLimitOneRate) (p := 1) (q := 1)
    (P := fun st taken sent => Metered st ∧ sent = taken) rfl
    (fun v taken sent h => by
      obtain ⟨hmetered, hsame⟩ := h
      obtain ⟨hkeep, hsets, -⟩ := metered_call hmetered
      exact ⟨hkeep, by rw [hsets, hsame]⟩)
    as (s := kinit tokenInit inCap outCap) rfl ⟨metered_tokenInit, rfl⟩
  have hstart : (kinit tokenInit inCap outCap : KernelState TokenState Flit).locals.hasSignal
      = false := rfl
  exact ⟨inv_exec (fun _ _ _ hsig hstep => hasSignal_step rfl hsig hstep) as hstart, hinv⟩

theorem limited_rateLimitOneRate (inCap outCap : Nat → Int) (as bs : List (KernelAction Flit)) :
    Limited rateLimitOneRate (kinit tokenInit inCap outCap) as bs := by
  obtain ⟨hsig, hmetered, hsame⟩ := metered_exec inCap outCap as
  have hinputs : Inputs (exec (kstep rateLimitOneRate) (kinit tokenInit inCap outCap) as) :=
    inv_exec (fun _ _ _ hs hstep => inputs_step hs hstep) as (inputs_kinit tokenInit inCap outCap)
  refine ⟨hmetered.tokens_le, ?_, ?_,
    lossless_of_findsRoom plain_rateLimitOneRate tokenInit inCap outCap as, ?_⟩
  · rw [sent_exec rfl rfl, flatten_sentByCall]
    rfl
  · rw [hsame]
    exact hinputs 1
  · have hpaid := (chained_handlerViews rfl hsig bs).potential (p := 1)
      (fun st : TokenState => st.tokens.toNat) 1 64 (fun _ h => (metered_call h).1)
      (fun _ h => (metered_call h).2.2) hmetered
    rw [flatten_sentByCall, sentByCall, List.length_map, Nat.le_div_iff_mul_le (by decide)]
    have hle := hmetered.tokens_le
    omega

/-- **The two rate limiters agree and limit.** For all stream capacities and every run, whatever
comes in at what time: both are always in the same state and forward the same flits in the same
iterations; the flits go on in the order they came in and none is lost; there are never more than
1024 tokens, and `n` iterations in a row forward at most `(1024 + n) / 64` flits. -/
theorem rateLimits_agree (inCap outCap : Nat → Int) (as bs : List (KernelAction Flit)) :
    let s := (kinit tokenInit inCap outCap : KernelState TokenState Flit)
    exec (kstep rateLimitBlocking) s as = exec (kstep rateLimitOneRate) s as ∧
      sentByCall rateLimitBlocking 1 s as = sentByCall rateLimitOneRate 1 s as ∧
      Limited rateLimitBlocking s as bs ∧ Limited rateLimitOneRate s as bs := by
  intro s
  rw [rateLimitBlocking_eq]
  have hlimited := limited_rateLimitOneRate inCap outCap as bs
  exact ⟨rfl, rfl, hlimited, hlimited⟩

end OpenClickNP
