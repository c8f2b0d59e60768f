import OpenClickNP.Backend.Transduction

/-!
# `RateLimiter.clnp`

The element is meant as a token bucket: a flit costs 64 tokens, each call brings the rate, and the
bucket holds the burst at most. But the sum for the next call is made before the flit is paid for,
and the next call overwrites the level with it; so nothing is ever paid. The level only rises to
the burst, or runs over 16 bits on its way (`level_call`), and the element limits nothing unless
the rate or the burst do not let it (`rateLimiter_conforms_iff`).
-/

namespace OpenClickNP

open Run

/-- The `.state` block. -/
structure RateLimiterState where
  rate : UInt16
  rateFrac : UInt8
  burst : UInt16
  tokens : UInt16
  frac : UInt8
  nextTokens : UInt16
  refillValid : Bool
  passed : UInt64
  dropped : UInt64
deriving DecidableEq

/-- The `.init` block. -/
def rateLimiterInit : RateLimiterState where
  rate := 1
  rateFrac := 0
  burst := 1024
  tokens := 1024
  frac := 0
  nextTokens := 1024
  refillValid := true
  passed := 0
  dropped := 0

/-- Stage 2: the level is the sum that the call before has registered, or the burst. -/
def RateLimiterState.saturate (st : RateLimiterState) : RateLimiterState :=
  if st.refillValid then
    { st with tokens := if st.nextTokens > st.burst then st.burst else st.nextTokens }
  else st

/-- Stage 1: the sum for the next call. -/
def RateLimiterState.refill (st : RateLimiterState) : RateLimiterState :=
  let carry := ((st.frac.toUInt16 + st.rateFrac.toUInt16) >>> 8) &&& 0x1
  { st with
    frac := st.frac + st.rateFrac
    nextTokens := st.tokens + st.rate + carry
    refillValid := true }

/-- Stage 3: a flit passes if the level is 64. -/
def RateLimiterState.drain (st : RateLimiterState) : RateLimiterState :=
  if st.tokens ≥ 64 then { st with tokens := st.tokens - 64, passed := st.passed + 1 }
  else { st with dropped := st.dropped + 1 }

/-- The `.handler` block. -/
def rateLimiterHandler (v : View RateLimiterState Flit) : BodyResult RateLimiterState Flit :=
  let st := v.state.saturate.refill
  { state := if testPort v.inputPort 1 then st.drain else st
    ops :=
      if testPort v.inputPort 1 then
        .clearInputReady (PORT_BIT 1) ::
          if st.tokens ≥ 64 then [.setOutputPort 1 (v.inputData 1)] else []
      else []
    ret := some (PORT_BIT 1) }

/-- The `.signal` block: command 1 sets the rate and the burst, command 2 the statistics. -/
def rateLimiterSignal (v : View RateLimiterState Flit) : BodyResult RateLimiterState Flit :=
  let st :=
    if v.event.cmd = 1 then
      { v.state with
        rate := (v.event.sparam >>> 8).toUInt16
        rateFrac := (v.event.sparam &&& 0xFF).toUInt8
        burst := (v.event.lparam 0).toUInt16 }
    else if v.event.cmd = 2 then { v.state with passed := 0, dropped := 0 }
    else v.state
  { state := st
    ops := []
    ret := none
    outevent := { v.event with
      lparam := Function.update (Function.update (Function.update v.event.lparam 0 st.passed) 1
        st.dropped) 2 st.tokens.toUInt64 } }

def rateLimiter : KernelFn RateLimiterState Flit where
  inPorts := [1]
  outPorts := [1]
  nodup_outPorts := nodup_one
  hasSignal := true
  handler := rateLimiterHandler
  signal := rateLimiterSignal

/-! ## The element as a machine -/

/-- The state without the statistics. -/
def RateLimiterState.bucket (st : RateLimiterState) : RateLimiterState :=
  { st with passed := 0, dropped := 0 }

/-- The state after a call that finds a flit or none. -/
def RateLimiterState.call (st : RateLimiterState) (x : Option Flit) : RateLimiterState :=
  if x.isSome then st.saturate.refill.drain else st.saturate.refill

def rateLimiterMachine : Transducer RateLimiterState (Option Flit) Flit where
  next st x := (st.call x).bucket
  out st x := if st.saturate.tokens ≥ 64 then x.toList else []

/-- A signal that does not set the rate. -/
def KeepsRate (event : ClSignal) : Prop := event.cmd ≠ 1

instance : DecidablePred KeepsRate := fun _ => inferInstanceAs (Decidable (_ ≠ _))

theorem saturate_bucket (st : RateLimiterState) : st.bucket.saturate = st.saturate.bucket := by
  unfold RateLimiterState.saturate
  cases h : st.refillValid <;> simp [RateLimiterState.bucket, h]

theorem bucket_drain_bucket (st : RateLimiterState) :
    st.bucket.drain.bucket = st.drain.bucket := by
  have htokens : st.bucket.tokens = st.tokens := rfl
  unfold RateLimiterState.drain
  rw [htokens]
  split <;> rfl

theorem bucket_call_bucket (st : RateLimiterState) (x : Option Flit) :
    (st.bucket.call x).bucket = (st.call x).bucket := by
  have hrefill : st.bucket.saturate.refill = st.saturate.refill.bucket := by
    rw [saturate_bucket]
    rfl
  unfold RateLimiterState.call
  rw [hrefill]
  split
  · exact bucket_drain_bucket _
  · rfl

theorem transduces_rateLimiter :
    Transduces rateLimiter RateLimiterState.bucket KeepsRate rateLimiterMachine where
  inPorts := rfl
  outPorts := rfl
  returns _ := rfl
  state v := by
    show (rateLimiterHandler v).state.bucket = (v.state.bucket.call (offered v)).bucket
    rw [bucket_call_bucket]
    unfold offered rateLimiterHandler RateLimiterState.call
    cases testPort v.inputPort 1 <;> rfl
  taken _ := takenIn_offered rfl
  sets v := by
    have htokens : v.state.bucket.saturate.tokens = v.state.saturate.refill.tokens := by
      rw [saturate_bucket]
      rfl
    rw [setsOf_of_ready 1 (v := v) (r := rateLimiter.handler v) rfl, offered]
    show _ = if v.state.bucket.saturate.tokens ≥ 64 then _ else _
    rw [htokens]
    split
    · split <;> rfl
    · split <;> rfl
  signalState v h := by
    have hcmd : ¬ v.event.cmd = 1 := h
    show (rateLimiterSignal v).state.bucket = v.state.bucket
    simp only [rateLimiterSignal, if_neg hcmd]
    split <;> rfl
  signalOps _ := rfl
  signalRet _ := rfl

/-! ## The level -/

/-- The rate and the burst, and a sum has been registered. -/
structure Rated (r q B : Nat) (st : RateLimiterState) : Prop where
  rate : st.rate.toNat = r
  rateFrac : st.rateFrac.toNat = q
  burst : st.burst.toNat = B
  valid : st.refillValid = true

/-- The level that a call finds. -/
def RateLimiterState.level (st : RateLimiterState) : Nat := min st.nextTokens.toNat st.burst.toNat

variable {r q B : Nat} {st : RateLimiterState} {x : Option Flit}

theorem toNat_tokens_saturate (h : Rated r q B st) : st.saturate.tokens.toNat = st.level := by
  unfold RateLimiterState.saturate RateLimiterState.level
  rw [if_pos h.valid]
  simp only [gt_iff_lt, UInt16.lt_iff_toNat_lt]
  split <;> omega

theorem toNat_carry (f g : UInt8) :
    (((f.toUInt16 + g.toUInt16) >>> 8) &&& 0x1).toNat = (f.toNat + g.toNat) / 256 := by
  have hf := f.toNat_lt
  have hg := g.toNat_lt
  rw [UInt16.toNat_and, UInt16.toNat_shiftRight, UInt16.toNat_add, UInt8.toNat_toUInt16,
    UInt8.toNat_toUInt16]
  show ((f.toNat + g.toNat) % 65536) >>> 8 &&& 1 = _
  rw [Nat.and_one_is_mod, Nat.shiftRight_eq_div_pow]
  omega

/-- A flit does not change the sum that has been registered. -/
theorem nextTokens_call (st : RateLimiterState) (x : Option Flit) :
    (st.call x).nextTokens = st.saturate.refill.nextTokens ∧
      (st.call x).frac = st.saturate.refill.frac ∧ (st.call x).rate = st.saturate.refill.rate ∧
      (st.call x).rateFrac = st.saturate.refill.rateFrac ∧
      (st.call x).burst = st.saturate.refill.burst ∧ (st.call x).refillValid = true ∧
      (st.call x).tokens.toNat ≤ st.saturate.refill.tokens.toNat := by
  unfold RateLimiterState.call RateLimiterState.drain
  split
  · split
    · rename_i hge
      refine ⟨rfl, rfl, rfl, rfl, rfl, rfl, ?_⟩
      rw [UInt16.toNat_sub_of_le _ _ hge]
      exact Nat.sub_le _ _
    · exact ⟨rfl, rfl, rfl, rfl, rfl, rfl, Nat.le_refl _⟩
  · exact ⟨rfl, rfl, rfl, rfl, rfl, rfl, Nat.le_refl _⟩

/-- **One call**, whether it finds a flit or not. -/
theorem level_call (h : Rated r q B st) (x : Option Flit) :
    Rated r q B (st.call x).bucket ∧
      (st.call x).bucket.frac.toNat = (st.frac.toNat + q) % 256 ∧
      (st.call x).bucket.nextTokens.toNat
        = (st.level + r + (st.frac.toNat + q) / 256) % 65536 ∧
      (st.call x).bucket.tokens.toNat ≤ B := by
  obtain ⟨hnext, hfrac, hrate, hrateFrac, hburst, hvalid, htokens⟩ := nextTokens_call st x
  have hsat : st.saturate.frac = st.frac ∧ st.saturate.rate = st.rate ∧
      st.saturate.rateFrac = st.rateFrac ∧ st.saturate.burst = st.burst := by
    unfold RateLimiterState.saturate
    split <;> exact ⟨rfl, rfl, rfl, rfl⟩
  obtain ⟨hf, hr, hq, hB⟩ := hsat
  refine ⟨⟨?_, ?_, ?_, hvalid⟩, ?_, ?_, ?_⟩
  · show (st.call x).rate.toNat = r
    rw [hrate]
    exact (congrArg UInt16.toNat hr).trans h.rate
  · show (st.call x).rateFrac.toNat = q
    rw [hrateFrac]
    exact (congrArg UInt8.toNat hq).trans h.rateFrac
  · show (st.call x).burst.toNat = B
    rw [hburst]
    exact (congrArg UInt16.toNat hB).trans h.burst
  · show (st.call x).frac.toNat = _
    rw [hfrac]
    show (st.saturate.frac + st.saturate.rateFrac).toNat = _
    rw [hf, hq, UInt8.toNat_add, h.rateFrac]
  · show (st.call x).nextTokens.toNat = _
    rw [hnext]
    show (st.saturate.tokens + st.saturate.rate + _).toNat = _
    rw [hf, hr, hq, UInt16.toNat_add, UInt16.toNat_add, toNat_tokens_saturate h, h.rate,
      toNat_carry, h.rateFrac]
    exact Nat.mod_add_mod _ _ _
  · refine htokens.trans ?_
    show st.saturate.tokens.toNat ≤ B
    rw [toNat_tokens_saturate h, ← h.burst]
    exact Nat.min_le_right _ _

theorem length_out (h : Rated r q B st) (x : Option Flit) :
    rateLimiterMachine.out st x = if 64 ≤ st.level then x.toList else [] := by
  have hlevel : st.saturate.tokens ≥ 64 ↔ 64 ≤ st.level := by
    rw [← toNat_tokens_saturate h]
    exact UInt16.le_iff_toNat_le
  exact if_congr hlevel rfl rfl

/-! ## What a window lets through -/

/-- The condition: the rate is a flit for each call, or the burst is less than a flit, or nothing
comes in and there is less than a flit. -/
def Limits (r q B next : Nat) : Prop := 63 ≤ r ∨ B < 64 ∨ (r = 0 ∧ q = 0 ∧ next < 64)

instance (r q B next : Nat) : Decidable (Limits r q B next) :=
  inferInstanceAs (Decidable (_ ∨ _))

theorem out_le_one (st : RateLimiterState) (x : Option Flit) :
    (rateLimiterMachine.out st x).length ≤ 1 := by
  show (if _ then x.toList else []).length ≤ 1
  split <;> cases x <;> simp

/-- Without a rate the level stays what it is. -/
theorem nextTokens_of_no_rate (h : Rated 0 0 B st) (x : Option Flit) :
    (st.call x).bucket.nextTokens.toNat = st.level := by
  obtain ⟨-, -, hnext, -⟩ := level_call h x
  have hfrac := st.frac.toNat_lt
  have hlevel : st.level ≤ st.burst.toNat := Nat.min_le_right _ _
  have hburst := st.burst.toNat_lt
  rw [hnext]
  omega

/-- **Where the element limits.** -/
theorem output_le_of_limits (h : Rated r q B st) (hlim : Limits r q B st.nextTokens.toNat)
    (pre win : List (Option Flit)) :
    64 * (rateLimiterMachine.output (rateLimiterMachine.state st pre) win).length
      ≤ B + win.length * (r + 1) := by
  rcases hlim with hr | hB | ⟨rfl, rfl, hnext⟩
  · have hle : (rateLimiterMachine.output (rateLimiterMachine.state st pre) win).length
        ≤ win.length := Transducer.length_output_le out_le_one
    calc 64 * (rateLimiterMachine.output (rateLimiterMachine.state st pre) win).length
        ≤ 64 * win.length := Nat.mul_le_mul_left 64 hle
      _ ≤ win.length * (r + 1) := by rw [Nat.mul_comm]; exact Nat.mul_le_mul_left _ (by omega)
      _ ≤ B + win.length * (r + 1) := Nat.le_add_left _ _
  · have hstate : Rated r q B (rateLimiterMachine.state st pre) :=
      Transducer.state_inv (fun x _ _ hs => (level_call hs x).1) h
    rw [Transducer.output_eq_nil (P := Rated r q B) (fun s x hs => (level_call hs x).1) ?_ hstate]
    · exact Nat.zero_le _
    · intro s x hs
      rw [length_out hs, if_neg]
      have hlevel : s.level ≤ s.burst.toNat := Nat.min_le_right _ _
      rw [hs.burst] at hlevel
      omega
  · have hkeep : ∀ s x, (Rated 0 0 B s ∧ s.nextTokens.toNat < 64) →
        Rated 0 0 B (rateLimiterMachine.next s x) ∧
          (rateLimiterMachine.next s x).nextTokens.toNat < 64 := by
      rintro s x ⟨hs, hlow⟩
      refine ⟨(level_call hs x).1, ?_⟩
      rw [show rateLimiterMachine.next s x = (s.call x).bucket from rfl, nextTokens_of_no_rate hs]
      exact Nat.lt_of_le_of_lt (Nat.min_le_left _ _) hlow
    have hstate : Rated 0 0 B (rateLimiterMachine.state st pre) ∧
        (rateLimiterMachine.state st pre).nextTokens.toNat < 64 :=
      Transducer.state_inv (P := fun s => Rated 0 0 B s ∧ s.nextTokens.toNat < 64)
        (fun x _ s => hkeep s x) ⟨h, hnext⟩
    rw [Transducer.output_eq_nil hkeep ?_ hstate]
    · exact Nat.zero_le _
    · rintro s x ⟨hs, hlow⟩
      rw [length_out hs, if_neg]
      have hlevel : s.level ≤ s.nextTokens.toNat := Nat.min_le_left _ _
      omega

/-! ## Where it does not -/

/-- Where the level stands, in 256th parts of a token. A call moves it on by `256 * r + q`, until
the burst or the width of the sum stops it. -/
def RateLimiterState.position (st : RateLimiterState) : Nat := 256 * st.level + st.frac.toNat

/-- What a position is worth. Below a flit's price it is worth what the climb to there will cost;
`d` is what a call adds. A level that has run over 16 bits costs far less than the long climb to
there has brought. -/
def worth (d x : Nat) : Nat := x + if x < 16384 then 129 * (16384 - x) + 130 * d else 0

theorem worth_of_lt {d x : Nat} (h : x < 16384) :
    worth d x = x + (129 * (16384 - x) + 130 * d) := by rw [worth, if_pos h]

theorem worth_of_le {d x : Nat} (h : 16384 ≤ x) : worth d x = x := by
  rw [worth, if_neg (by omega), Nat.add_zero]

/-- **One call pays for itself.** Its cost is `d`, and `2 * d` for each of the `r + 1` tokens that
a conforming bucket may spend; a flit brings `2 * d` for each of its 64 tokens. -/
theorem worth_call (h : Rated r q B st) (hr : r ≤ 62) (hB : 64 ≤ B) (hd : 0 < 256 * r + q)
    (x : Option Flit) (hx : x.isSome) :
    worth (256 * r + q) (st.call x).bucket.position
        + ((256 * r + q) + 2 * (256 * r + q) * (r + 1))
      ≤ worth (256 * r + q) st.position
        + 128 * (256 * r + q) * (rateLimiterMachine.out st x).length := by
  obtain ⟨hrated, hfrac, hnext, -⟩ := level_call h x
  have hf := st.frac.toNat_lt
  have hq := st.rateFrac.toNat_lt
  rw [h.rateFrac] at hq
  have hburst := st.burst.toNat_lt
  rw [h.burst] at hburst
  have hlevel : st.level ≤ B := h.burst ▸ Nat.min_le_right _ _
  have hlevel' : (st.call x).bucket.level
      = min ((st.level + r + (st.frac.toNat + q) / 256) % 65536) B := by
    rw [RateLimiterState.level, hnext, hrated.burst]
  have hcost : 2 * (256 * r + q) * (r + 1) ≤ 126 * (256 * r + q) := by
    calc 2 * (256 * r + q) * (r + 1) ≤ 2 * (256 * r + q) * 63 := Nat.mul_le_mul_left _ (by omega)
      _ = 126 * (256 * r + q) := by ring
  have hposition : st.position = 256 * st.level + st.frac.toNat := rfl
  have hposition' : (st.call x).bucket.position
      = 256 * (st.call x).bucket.level + (st.frac.toNat + q) % 256 := by
    rw [RateLimiterState.position, hfrac]
  rw [length_out h]
  by_cases hhigh : 64 ≤ st.level
  · rw [if_pos hhigh, Option.length_toList, if_pos hx, Nat.mul_one,
      worth_of_le (show 16384 ≤ st.position by omega)]
    -- the sum runs over, or the level stays above the price
    by_cases hlow : (st.call x).bucket.position < 16384
    · rw [worth_of_lt hlow]
      omega
    · rw [worth_of_le (by omega)]
      omega
  · rw [if_neg hhigh, List.length_nil, Nat.mul_zero,
      worth_of_lt (show st.position < 16384 by omega)]
    by_cases hlow : (st.call x).bucket.position < 16384
    · rw [worth_of_lt hlow]
      omega
    · rw [worth_of_le (by omega)]
      omega

/-- The condition fails for good. -/
theorem not_limits_call (h : Rated r q B st) (hlim : ¬ Limits r q B st.nextTokens.toNat)
    (x : Option Flit) : ¬ Limits r q B (st.call x).bucket.nextTokens.toNat := by
  rintro (hr | hB | ⟨rfl, rfl, hnext⟩)
  · exact hlim (Or.inl hr)
  · exact hlim (Or.inr (Or.inl hB))
  · rw [nextTokens_of_no_rate h, RateLimiterState.level, h.burst] at hnext
    rcases Nat.lt_or_ge B 64 with hB | hB
    · exact hlim (Or.inr (Or.inl hB))
    · exact hlim (Or.inr (Or.inr ⟨rfl, rfl, by omega⟩))

/-- What holds as long as the condition fails. -/
theorem unlimited_state (h : Rated r q B st) (hlim : ¬ Limits r q B st.nextTokens.toNat)
    (xs : List (Option Flit)) : Rated r q B (rateLimiterMachine.state st xs) ∧
      ¬ Limits r q B (rateLimiterMachine.state st xs).nextTokens.toNat :=
  Transducer.state_inv (P := fun s => Rated r q B s ∧ ¬ Limits r q B s.nextTokens.toNat)
    (fun x _ _ hs => ⟨(level_call hs.1 x).1, not_limits_call hs.1 hs.2 x⟩) ⟨h, hlim⟩

/-- Without a rate, but with a flit's price in the bucket, every flit passes. -/
theorem all_pass (h : Rated 0 0 B st) (hlim : ¬ Limits 0 0 B st.nextTokens.toNat)
    {xs : List (Option Flit)} (hxs : ∀ x ∈ xs, x.isSome) :
    xs.length ≤ (rateLimiterMachine.output st xs).length := by
  have hone : ∀ x ∈ xs, ∀ s, (Rated 0 0 B s ∧ ¬ Limits 0 0 B s.nextTokens.toNat) →
      0 + 1 ≤ 0 + 1 * (rateLimiterMachine.out s x).length := by
    rintro x hx s ⟨hs, hno⟩
    have hlevel : 64 ≤ s.level := by
      unfold Limits at hno
      rw [RateLimiterState.level, hs.burst]
      omega
    rw [length_out hs, if_pos hlevel, Option.length_toList, if_pos (hxs x hx)]
  have hsum := Transducer.potential 1 1 (fun _ => 0)
    (fun x _ _ hs => ⟨(level_call hs.1 x).1, not_limits_call hs.1 hs.2 x⟩) hone ⟨h, hlim⟩
  simpa using hsum

/-- So many calls pay back what the start was worth, and the burst. -/
theorem exceeds_of_paid {w d p : Nat} (hd : 0 < d)
    (h : (d + 2 * d * (r + 1)) * (2 * B + w + 1) ≤ w + 128 * d * p) :
    B + (2 * B + w + 1) * (r + 1) < 64 * p := by
  by_contra hle
  have hle := Nat.mul_le_mul_left (2 * d) (Nat.le_of_not_lt hle)
  have hw : w ≤ w * d := Nat.le_mul_of_pos_right w hd
  have hcost : (d + 2 * d * (r + 1)) * (2 * B + w + 1)
      = 2 * d * B + w * d + d + 2 * d * ((2 * B + w + 1) * (r + 1)) := by ring
  have hgain : 2 * d * (64 * p) = 128 * d * p := by ring
  rw [Nat.mul_add] at hle
  omega

/-- **Where the element does not limit.** A window that is long enough, with a flit in each call,
lets too much through. -/
theorem output_exceeds (h : Rated r q B st) (hlim : ¬ Limits r q B st.nextTokens.toNat) :
    ∃ n, ∀ xs : List (Option Flit), xs.length = n → (∀ x ∈ xs, x.isSome) →
      B + n * (r + 1) < 64 * (rateLimiterMachine.output st xs).length := by
  by_cases hd : 0 < 256 * r + q
  · have hr : r ≤ 62 := Nat.le_of_not_lt fun hge => hlim (Or.inl hge)
    have hB : 64 ≤ B := Nat.le_of_not_lt fun hlt => hlim (Or.inr (Or.inl hlt))
    refine ⟨2 * B + worth (256 * r + q) st.position + 1, fun xs hlen hxs => ?_⟩
    have hsum := Transducer.potential (M := rateLimiterMachine) (P := Rated r q B)
      ((256 * r + q) + 2 * (256 * r + q) * (r + 1)) (128 * (256 * r + q))
      (fun s => worth (256 * r + q) s.position) (fun x _ _ hs => (level_call hs x).1)
      (fun x hx _ hs => worth_call hs hr hB hd x (hxs x hx)) h
    rw [hlen] at hsum
    exact exceeds_of_paid hd ((Nat.le_add_left _ _).trans hsum)
  · obtain rfl : r = 0 := by omega
    obtain rfl : q = 0 := by omega
    refine ⟨B + 1, fun xs hlen hxs => ?_⟩
    have hpass := all_pass h hlim hxs
    omega

/-! ## Runs -/

/-- What holds in every state that a run leads to. -/
structure Metering (s : KernelState RateLimiterState Flit) : Prop where
  valid : s.locals.state.refillValid = true
  asked : testPort s.locals.ret 1 = true

theorem metering_step {s t : KernelState RateLimiterState Flit} {a : KernelAction Flit}
    (h : Metering s) (hs : kstep rateLimiter s a = some t) : Metering t := by
  refine ⟨?_, transduces_rateLimiter.asked_step h.asked hs⟩
  rcases records_step hs with ⟨-, -, rfl⟩ | ⟨-, hrec⟩
  · rw [state_bodyStep]
    unfold bodyResult
    split
    · show (rateLimiterSignal (viewOf s.locals)).state.refillValid = true
      simp only [rateLimiterSignal]
      split
      · exact h.valid
      · split <;> exact h.valid
    · have hcall := congrArg RateLimiterState.refillValid
        (transduces_rateLimiter.state (viewOf s.locals))
      exact hcall.trans (nextTokens_call _ _).2.2.2.2.2.1
  · rw [hrec.state]
    exact h.valid

/-- The kernel is about to serve a signal that sets the rate, and no other such signal waits. -/
structure ServesRate (s : KernelState RateLimiterState Flit) : Prop where
  reached : ∃ inCap outCap, Reaches (kstep rateLimiter) (fun _ _ => True)
    (kinit rateLimiterInit inCap outCap) s
  body : s.pc = .body
  latched : s.locals.hasSignal = true
  rate : s.locals.event.cmd = 1
  last : ∀ req ∈ s.requests, KeepsRate req

/-- The rate of the signal, its fraction, and the burst. -/
def setRate (event : ClSignal) : Nat := (event.sparam >>> 8).toUInt16.toNat
def setFrac (event : ClSignal) : Nat := (event.sparam &&& 0xFF).toUInt8.toNat
def setBurst (event : ClSignal) : Nat := (event.lparam 0).toUInt16.toNat

/-- From `s` on, when there has been a call, every window of calls lets at most the burst and its
refill through, and the level is at most the burst. -/
def Conforms (r B : Nat) (s : KernelState RateLimiterState Flit) : Prop :=
  ∀ as bs, Meets (kstep rateLimiter) (Posts KeepsRate) s (as ++ bs) → calls rateLimiter s as ≠ [] →
    let t := exec (kstep rateLimiter) s as
    let u := exec (kstep rateLimiter) s (as ++ bs)
    64 * (u.sent 1).length
        ≤ 64 * (t.sent 1).length + (B + (calls rateLimiter t bs).length * (r + 1)) ∧
      u.locals.state.tokens.toNat ≤ B

section
variable {s : KernelState RateLimiterState Flit}

theorem ServesRate.metering (h : ServesRate s) : Metering s := by
  obtain ⟨inCap, outCap, hrun⟩ := h.reached
  exact hrun.inv (P := Metering) ⟨rfl, (by decide : testPort PORT_ALL 1 = true)⟩
    fun _ _ _ hs _ hstep => metering_step hs hstep

/-- The state that the signal leaves. -/
theorem ServesRate.rated (h : ServesRate s) :
    Rated (setRate s.locals.event) (setFrac s.locals.event) (setBurst s.locals.event)
        (bodyStep rateLimiter s).locals.state.bucket ∧
      (bodyStep rateLimiter s).locals.state.bucket.nextTokens = s.locals.state.nextTokens := by
  have hbody : bodyResult rateLimiter s.locals = rateLimiterSignal (viewOf s.locals) := by
    simp [bodyResult, h.latched, rateLimiter]
  have hcmd : (viewOf s.locals).event.cmd = 1 := h.rate
  rw [state_bodyStep, hbody]
  simp only [rateLimiterSignal, if_pos hcmd]
  exact ⟨⟨rfl, rfl, rfl, h.metering.valid⟩, rfl⟩

/-- It is at the head of its loop, and every signal that waits leaves the rate alone. -/
theorem ServesRate.served (h : ServesRate s) :
    (bodyStep rateLimiter s).pc = .head ∧
      (bodyStep rateLimiter s).locals.hasSignal = false ∧
      testPort (bodyStep rateLimiter s).locals.ret 1 = true ∧
      Quiet KeepsRate (bodyStep rateLimiter s) := by
  have hasked : testPort (bodyStep rateLimiter s).locals.ret 1 = true :=
    (metering_step (a := .kernel) h.metering (by
      show some (kernelStep rateLimiter s) = _
      unfold kernelStep
      rw [h.body])).asked
  refine ⟨?_, ?_, hasked, ?_, ?_⟩
  · unfold bodyStep
    simp only [h.latched, if_true]
  · unfold bodyStep
    simp only [h.latched, if_true]
  · unfold bodyStep
    simp only [h.latched, if_true]
    exact nofun
  · unfold bodyStep
    simp only [h.latched, if_true]
    exact h.last

/-- What a window lets through is what the machine puts out. -/
theorem window {as bs : List (KernelAction Flit)} (hquiet : Quiet KeepsRate s)
    (hmeets : Meets (kstep rateLimiter) (Posts KeepsRate) s (as ++ bs)) :
    ((exec (kstep rateLimiter) s (as ++ bs)).sent 1).length
      = ((exec (kstep rateLimiter) s as).sent 1).length
        + (rateLimiterMachine.output
            (rateLimiterMachine.state s.locals.state.bucket (calls rateLimiter s as))
            (calls rateLimiter (exec (kstep rateLimiter) s as) bs)).length := by
  have hall := (transduces_rateLimiter.run hquiet hmeets).sent
  have hpre := (transduces_rateLimiter.run hquiet (meets_of_append hmeets)).sent
  rw [hall, hpre, calls_append, Transducer.output_append]
  simp only [List.length_append]
  omega

/-- The level in a state behind a call. -/
theorem tokens_le (h : ServesRate s) {as bs : List (KernelAction Flit)}
    (hmeets : Meets (kstep rateLimiter) (Posts KeepsRate) (bodyStep rateLimiter s) (as ++ bs))
    (hcalls : calls rateLimiter (bodyStep rateLimiter s) as ≠ []) :
    (exec (kstep rateLimiter) (bodyStep rateLimiter s) (as ++ bs)).locals.state.tokens.toNat
      ≤ setBurst s.locals.event := by
  obtain ⟨hrated, -⟩ := h.rated
  obtain ⟨-, -, -, hquiet⟩ := h.served
  have hstate := (transduces_rateLimiter.run hquiet hmeets).state
  have hne : calls rateLimiter (bodyStep rateLimiter s) (as ++ bs) ≠ [] := by
    rw [calls_append]
    exact fun hnil => hcalls (List.append_eq_nil_iff.mp hnil).1
  obtain ⟨xs, x, hxs⟩ : ∃ xs x, calls rateLimiter (bodyStep rateLimiter s) (as ++ bs) = xs ++ [x] :=
    ⟨_, _, (List.dropLast_append_getLast hne).symm⟩
  rw [hxs, Transducer.state_append] at hstate
  have hlast : Rated _ _ _ (rateLimiterMachine.state _ xs) :=
    Transducer.state_inv (fun x _ _ hs => (level_call hs x).1) hrated
  have htokens := congrArg (fun st : RateLimiterState => st.tokens.toNat) hstate
  exact (Nat.le_of_eq htokens).trans (level_call hlast x).2.2.2

/-- The limits hold in every run. -/
theorem conforms_of_limits (h : ServesRate s) (hlim : Limits (setRate s.locals.event)
      (setFrac s.locals.event) (setBurst s.locals.event) s.locals.state.nextTokens.toNat) :
    Conforms (setRate s.locals.event) (setBurst s.locals.event) (bodyStep rateLimiter s) := by
  obtain ⟨hrated, hnext⟩ := h.rated
  obtain ⟨-, -, -, hquiet⟩ := h.served
  intro as bs hmeets hcalls
  refine ⟨?_, ?_⟩
  · have hle := output_le_of_limits hrated (by rwa [hnext])
      (calls rateLimiter (bodyStep rateLimiter s) as)
      (calls rateLimiter (exec (kstep rateLimiter) (bodyStep rateLimiter s) as) bs)
    rw [window hquiet hmeets]
    omega
  · exact tokens_le h hmeets hcalls

/-- A run that breaks them: the signals that wait are served, then every call finds a flit. -/
theorem not_conforms_of_not_limits (h : ServesRate s) (hlim : ¬ Limits (setRate s.locals.event)
      (setFrac s.locals.event) (setBurst s.locals.event) s.locals.state.nextTokens.toNat) :
    ¬ Conforms (setRate s.locals.event) (setBurst s.locals.event) (bodyStep rateLimiter s) := by
  obtain ⟨hrated, hnext⟩ := h.rated
  obtain ⟨hpc, hsig, hask, hquiet⟩ := h.served
  intro hconforms
  obtain ⟨served, hnone, hidle⟩ := transduces_rateLimiter.flush rfl hpc hsig hask
  have hserve : Meets (kstep rateLimiter) (Posts KeepsRate) (bodyStep rateLimiter s)
      (List.replicate served .kernel) := meets_kernels KeepsRate _ served
  generalize List.replicate served (.kernel : KernelAction Flit) = as at hnone hidle hserve
  obtain ⟨first, hfirst, hone, -, hidle'⟩ := transduces_rateLimiter.keepBusy hidle {} 1
  have hpre : Meets (kstep rateLimiter) (Posts KeepsRate) (bodyStep rateLimiter s) (as ++ first) :=
    meets_append hserve hfirst
  obtain ⟨hrated', hlim'⟩ := unlimited_state hrated (by rwa [hnext])
    (calls rateLimiter (bodyStep rateLimiter s) (as ++ first))
  obtain ⟨n, hexceeds⟩ := output_exceeds hrated' hlim'
  rw [← exec_append] at hidle'
  obtain ⟨bs, hbs, hlen, hsome, -⟩ := transduces_rateLimiter.keepBusy hidle' {} n
  have hmeets := meets_append hpre hbs
  have hcalls : calls rateLimiter (bodyStep rateLimiter s) (as ++ first) ≠ [] := by
    rw [calls_append, hnone, List.nil_append]
    exact List.ne_nil_of_length_pos (by rw [hone]; exact Nat.one_pos)
  obtain ⟨hwindow, -⟩ := hconforms (as ++ first) bs hmeets hcalls
  have hmore := hexceeds _ hlen hsome
  simp only [window hquiet hmeets, hlen] at hwindow
  omega

end

/-- **When the rate limiter is a token bucket.** After every signal that sets a rate `r`, a
fraction `q` and a burst `B`, in every run without another one: all windows conform, and the level
is at most the burst, if and only if `r` is 63 or more, or `B` is less than 64, or `r` and `q` are
zero and the sum registered before the signal is less than 64. -/
theorem rateLimiter_conforms_iff {s : KernelState RateLimiterState Flit} (h : ServesRate s) :
    Conforms (setRate s.locals.event) (setBurst s.locals.event) (bodyStep rateLimiter s) ↔
      Limits (setRate s.locals.event) (setFrac s.locals.event) (setBurst s.locals.event)
        s.locals.state.nextTokens.toNat := by
  constructor
  · intro hconforms
    by_contra hlim
    exact not_conforms_of_not_limits h hlim hconforms
  · exact conforms_of_limits h

/-- One token for each call, and a burst of one flit. -/
def rateOne : ClSignal := { cmd := 1, sparam := 0x100, lparam := fun i => if i = 0 then 64 else 0 }

/-- The kernel has started, and found the signal. -/
def rateOneServed : KernelState RateLimiterState Flit :=
  exec (kstep rateLimiter) (kinit rateLimiterInit (fun _ => 64) fun _ => 64)
    [.post rateOne, .kernel, .kernel, .kernel]

theorem servesRate_rateOne : ServesRate rateOneServed where
  reached := ⟨fun _ => 64, fun _ => 64, Meets.reaches (meets_true _)⟩
  body := rfl
  latched := rfl
  rate := rfl
  last := nofun

theorem rateLimiter_conforms_rateOne :
    Conforms 1 64 (bodyStep rateLimiter rateOneServed) ↔ Limits 1 0 64 1024 :=
  rateLimiter_conforms_iff servesRate_rateOne

/-- Behind the first call two calls in a row find a flit, and let both through. -/
theorem rateLimiter_exceeds :
    ¬ ∀ s : KernelState RateLimiterState Flit, ServesRate s →
      Conforms (setRate s.locals.event) (setBurst s.locals.event) (bodyStep rateLimiter s) := by
  intro h
  obtain ⟨hwindow, -⟩ := h rateOneServed servesRate_rateOne (turn default)
    (turn default ++ turn default)
    (by decide) (by decide)
  exact absurd hwindow (by decide)

end OpenClickNP
