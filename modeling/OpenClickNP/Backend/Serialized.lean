import OpenClickNP.Backend.Transduction

/-!
# Runs one call after the other

The loop calls the bodies of an element one at a time: the handler for what port 1 offers, the
`.signal` block for a signal. An element whose bodies go by these alone (`ServesCalls`) is a machine
on calls; whatever the order in which flits and signals come in, a run is one of the machine on some
list of calls, in which the signals stand in the order in which they have been posted
(`ServesCalls.exec`).
-/

namespace OpenClickNP

open Run

/-- What the bodies are called for. -/
inductive Call (α : Type) where
  | signal (req : ClSignal)
  | offer (x : Option α)

/-- What a call does: it takes the flit of port 1, passes one to `set_output_port(q, .)`, answers a
signal. -/
inductive Deed (α : Type) where
  | take (f : α)
  | put (q : Nat) (f : α)
  | answer (rep : ClSignal)

section
variable {σ α : Type}

/-- The signals that are served. -/
def signalsOf (w : List (Call α)) : List ClSignal :=
  w.filterMap fun
    | .signal req => some req
    | .offer _ => none

/-- The flits that are taken. -/
def takenOf (ds : List (Deed α)) : List α :=
  ds.filterMap fun
    | .take f => some f
    | _ => none

/-- The flits passed to `set_output_port(q, .)`. -/
def putOn (q : Nat) (ds : List (Deed α)) : List α :=
  ds.filterMap fun
    | .put p f => if p = q then some f else none
    | _ => none

/-- The answers to signals. -/
def answersOf (ds : List (Deed α)) : List ClSignal :=
  ds.filterMap fun
    | .answer rep => some rep
    | _ => none

theorem signalsOf_append (w w' : List (Call α)) :
    signalsOf (w ++ w') = signalsOf w ++ signalsOf w' := List.filterMap_append

theorem takenOf_append (ds ds' : List (Deed α)) :
    takenOf (ds ++ ds') = takenOf ds ++ takenOf ds' := List.filterMap_append

theorem putOn_append (q : Nat) (ds ds' : List (Deed α)) :
    putOn q (ds ++ ds') = putOn q ds ++ putOn q ds' := List.filterMap_append

theorem answersOf_append (ds ds' : List (Deed α)) :
    answersOf (ds ++ ds') = answersOf ds ++ answersOf ds' := List.filterMap_append

/-- The bodies act as `M` on what they are called for. -/
structure ServesCalls (K : KernelFn σ α) (M : Transducer σ (Call α) (Deed α)) : Prop where
  state : ∀ v, (K.handler v).state = M.next v.state (.offer (offered v))
  taken : ∀ v, takenIn 1 v (K.handler v) = takenOf (M.out v.state (.offer (offered v)))
  put : ∀ v q, setsOf q (K.handler v).ops = putOn q (M.out v.state (.offer (offered v)))
  quiet : ∀ st x, answersOf (M.out st (.offer x)) = []
  signalState : ∀ v, (K.signal v).state = M.next v.state (.signal v.event)
  signalOps : ∀ v, (K.signal v).ops = []
  answer : ∀ v, M.out v.state (.signal v.event) = [.answer (K.signal v).outevent]

/-- What the calls `w` of the machine say of a run from `s` to `t`. -/
structure Serialized (M : Transducer σ (Call α) (Deed α)) (s : KernelState σ α)
    (as : List (KernelAction α)) (w : List (Call α)) (t : KernelState σ α) : Prop where
  signals : signalsOf w ++ pending t = pending s ++ posted as
  state : t.locals.state = M.state s.locals.state w
  taken : t.taken 1 = s.taken 1 ++ takenOf (M.output s.locals.state w)
  sent : ∀ q, t.sent q = s.sent q ++ putOn q (M.output s.locals.state w)
  responses : t.responses = s.responses ++ answersOf (M.output s.locals.state w)

variable {K : KernelFn σ α} {M : Transducer σ (Call α) (Deed α)} {s t u : KernelState σ α}

theorem Serialized.trans {as bs : List (KernelAction α)} {w w' : List (Call α)}
    (h : Serialized M s as w t) (h' : Serialized M t bs w' u) :
    Serialized M s (as ++ bs) (w ++ w') u := by
  constructor
  · have hposted : posted (as ++ bs) = posted as ++ posted bs := List.filterMap_append
    rw [signalsOf_append, List.append_assoc, h'.signals, ← List.append_assoc, h.signals, hposted,
      List.append_assoc]
  · rw [h'.state, h.state, M.state_append]
  · rw [h'.taken, h.taken, h.state, M.output_append, takenOf_append, List.append_assoc]
  · intro q
    rw [h'.sent, h.sent, h.state, M.output_append, putOn_append, List.append_assoc]
  · rw [h'.responses, h.responses, h.state, M.output_append, answersOf_append, List.append_assoc]

/-- What a step that calls no body leaves alone. -/
theorem serialized_of_frame {as : List (KernelAction α)}
    (hpending : pending t = pending s ++ posted as) (hrec : SameRecords s t)
    (hresponses : t.responses = s.responses) : Serialized M s as [] t where
  signals := hpending
  state := hrec.state
  taken := by
    rw [hrec.taken]
    exact (List.append_nil _).symm
  sent q := by
    rw [hrec.sent]
    exact (List.append_nil _).symm
  responses := hresponses.trans (List.append_nil _).symm

/-- Away from the bodies the loop moves signals, and answers none. -/
theorem pending_kernelStep (hpc : s.pc ≠ .body) :
    pending (kernelStep K s) = pending s ∧ (kernelStep K s).responses = s.responses := by
  unfold kernelStep
  split
  · unfold recvStep
    split
    · rename_i hcond
      have hsig : s.locals.hasSignal = false := by
        simpa using (Bool.and_eq_true_iff.mp hcond).2
      split
      · exact ⟨rfl, rfl⟩
      · rename_i req rest hreq
        exact ⟨by simp [pending, hsig, hreq], rfl⟩
    · exact ⟨rfl, rfl⟩
  · exact ⟨rfl, rfl⟩
  · unfold readPort
    split
    · split <;> exact ⟨rfl, rfl⟩
    · exact ⟨rfl, rfl⟩
  · rename_i hbody
    exact absurd hbody hpc
  · exact ⟨rfl, rfl⟩
  · unfold writePort
    split
    · split <;> exact ⟨rfl, rfl⟩
    · exact ⟨rfl, rfl⟩

/-- A body is one call. -/
theorem ServesCalls.bodyStep (hK : ServesCalls K M) (s : KernelState σ α) :
    ∃ c, Serialized M s [.kernel] [c] (bodyStep K s) := by
  cases hsig : s.locals.hasSignal with
  | true =>
    -- the `.signal` block: the call serves the request that is pending
    have hserve : bodyResult K s.locals = K.signal (viewOf s.locals) := if_pos hsig
    have hout : M.output s.locals.state [.signal s.locals.event]
        = [.answer (K.signal (viewOf s.locals)).outevent] :=
      (List.append_nil _).trans (hK.answer (viewOf s.locals))
    refine ⟨.signal s.locals.event, ?_, ?_, ?_, fun q => ?_, ?_⟩
    · unfold OpenClickNP.bodyStep
      simp [pending, hsig, runRecorded, signalsOf, posted]
    · rw [state_bodyStep, hserve, hK.signalState]
      rfl
    · rw [taken_bodyStep, hserve, hout, takenIn, hK.signalOps]
      simp [takenOf]
    · rw [sent_bodyStep, hserve, hout, hK.signalOps]
      rfl
    · unfold OpenClickNP.bodyStep
      simp only [hsig, if_true]
      rw [hout, hserve]
      rfl
  | false =>
    -- the `.handler` block: the call is offered what is latched, and answers nothing
    have hserve : bodyResult K s.locals = K.handler (viewOf s.locals) :=
      bodyResult_of_noSignal hsig
    have hout : M.output s.locals.state [.offer (offered (viewOf s.locals))]
        = M.out s.locals.state (.offer (offered (viewOf s.locals))) := List.append_nil _
    refine ⟨.offer (offered (viewOf s.locals)), ?_, ?_, ?_, fun q => ?_, ?_⟩
    · have hsame : pending (OpenClickNP.bodyStep K s) = pending s := by
        unfold OpenClickNP.bodyStep
        simp only [hsig, Bool.false_eq_true, if_false]
        exact pending_of_same (hasSignal_applyOps _ _) (event_applyOps _ _) rfl
      rw [hsame]
      exact (List.append_nil _).symm
    · rw [state_bodyStep, hserve, hK.state]
      rfl
    · rw [taken_bodyStep, hserve, hK.taken, hout]
      rfl
    · rw [sent_bodyStep, hserve, hK.put, hout]
      rfl
    · have hsame : (OpenClickNP.bodyStep K s).responses = s.responses := by
        unfold OpenClickNP.bodyStep
        simp only [hsig, Bool.false_eq_true, if_false]
        rfl
      rw [hsame, hout, hK.quiet]
      exact (List.append_nil _).symm

theorem frame_step {a : KernelAction α} (hs : kstep K s a = some t)
    (hpc : a = .kernel → s.pc ≠ .body) :
    pending t = pending s ++ posted [a] ∧ t.responses = s.responses := by
  cases a with
  | kernel =>
    cases hs
    obtain ⟨hpending, hresponses⟩ := pending_kernelStep (K := K) (hpc rfl)
    exact ⟨hpending.trans (List.append_nil _).symm, hresponses⟩
  | produce p f =>
    cases hs
    unfold produceStep
    split <;> exact ⟨(List.append_nil _).symm, rfl⟩
  | consume p =>
    cases hs
    unfold consumeStep
    split <;> exact ⟨(List.append_nil _).symm, rfl⟩
  | post req =>
    cases hs
    exact ⟨(List.append_assoc _ _ _).symm, rfl⟩

/-- A step is one call, or none. -/
theorem ServesCalls.step (hK : ServesCalls K M) {a : KernelAction α} (hs : kstep K s a = some t) :
    ∃ w, Serialized M s [a] w t := by
  rcases records_step hs with ⟨rfl, -, rfl⟩ | ⟨hpc, hrec⟩
  · obtain ⟨c, hc⟩ := hK.bodyStep s
    exact ⟨[c], hc⟩
  · obtain ⟨hpending, hresponses⟩ := frame_step hs hpc
    exact ⟨[], serialized_of_frame hpending hrec hresponses⟩

/-- **A run is one of the machine on calls**, in whatever order flits and signals have come in.
Induction on the actions. -/
theorem ServesCalls.exec (hK : ServesCalls K M) (s : KernelState σ α) (as : List (KernelAction α)) :
    ∃ w, Serialized M s as w (exec (kstep K) s as) := by
  induction as generalizing s with
  | nil => exact ⟨[], serialized_of_frame (List.append_nil _).symm ⟨rfl, rfl, rfl⟩ rfl⟩
  | cons a as ih =>
    obtain ⟨t, hs⟩ : ∃ t, kstep K s a = some t := by cases a <;> exact ⟨_, rfl⟩
    obtain ⟨first, hfirst⟩ := hK.step hs
    obtain ⟨rest, hrest⟩ := ih t
    have hexec : Run.exec (kstep K) s (a :: as) = Run.exec (kstep K) t as := by
      rw [Run.exec, hs]
    exact ⟨first ++ rest, hexec ▸ hfirst.trans hrest⟩

/-- A run from the start is one of the machine `N`, on the calls `w`. -/
structure RunsAs [Inhabited α] {τ : Type} (K : KernelFn σ α) (st : σ)
    (N : Transducer τ (Call α) (Deed α)) (init : τ) (inCap outCap : Nat → Int)
    (as : List (KernelAction α)) (w : List (Call α)) : Prop where
  signals : signalsOf w ++ pending (Run.exec (kstep K) (kinit st inCap outCap) as) = posted as
  taken : (Run.exec (kstep K) (kinit st inCap outCap) as).taken 1 = takenOf (N.output init w)
  sent : ∀ q, (Run.exec (kstep K) (kinit st inCap outCap) as).sent q = putOn q (N.output init w)
  responses : (Run.exec (kstep K) (kinit st inCap outCap) as).responses
    = answersOf (N.output init w)

/-- **The rule for specifications.** A machine that does the same for every call, in states that
stay related, runs as the element. -/
theorem ServesCalls.runsAs [Inhabited α] {τ : Type} {N : Transducer τ (Call α) (Deed α)} {init : τ}
    (hK : ServesCalls K M) (Sim : σ → τ → Prop)
    (hstep : ∀ st ab c, Sim st ab → M.out st c = N.out ab c ∧ Sim (M.next st c) (N.next ab c))
    {st : σ} (h : Sim st init) (inCap outCap : Nat → Int) (as : List (KernelAction α)) :
    ∃ w, RunsAs K st N init inCap outCap as w := by
  obtain ⟨w, hw⟩ := hK.exec (kinit st inCap outCap) as
  have hsame : M.output st w = N.output init w := by
    rw [← Transducer.flatten_outs, ← Transducer.flatten_outs,
      (Transducer.outs_eq_of_simulates Sim hstep h w).1]
  exact ⟨w, hw.signals, hsame ▸ hw.taken, fun q => hsame ▸ hw.sent q, hsame ▸ hw.responses⟩

/-- **The rule for runs.** What every call keeps of the state block, of the calls and of what they
do holds of the state block behind a run, of the signals served and of the records. -/
theorem ServesCalls.inv [Inhabited α] (hK : ServesCalls K M) {st : σ}
    {Q : σ → List (Call α) → List (Deed α) → Prop} (hinit : Q st [] [])
    (hcall : ∀ st w ds c, Q st w ds → Q (M.next st c) (w ++ [c]) (ds ++ M.out st c))
    (inCap outCap : Nat → Int) (as : List (KernelAction α)) :
    ∃ w ds, let t := Run.exec (kstep K) (kinit st inCap outCap) as
      Q t.locals.state w ds ∧ signalsOf w ++ pending t = posted as ∧ t.taken 1 = takenOf ds ∧
        (∀ q, t.sent q = putOn q ds) ∧ t.responses = answersOf ds := by
  obtain ⟨w, hw⟩ := hK.exec (kinit st inCap outCap) as
  refine ⟨w, M.output st w, ?_, hw.signals, hw.taken, hw.sent, hw.responses⟩
  show Q _ w (M.output st w)
  rw [hw.state]
  exact M.word_inv hcall hinit

end

end OpenClickNP
