import OpenClickNP.Backend.Network
import OpenClickNP.Compiler.SwEmuWiring

/-!
# `SwStream::null()` in an emulator

Every unconnected port of every kernel is passed the one stream `SwStream::null()`, which is
documented as a stream whose reads always fail and whose writes always succeed silently. It is
in fact an ordinary stream with room for one flit.

A run of the emulator is compared with the run in which the stream is as documented: one that
is empty again after every operation. The two agree exactly in the runs on which every
operation on an unconnected port finds the stream empty (`nullContract_iff`).
-/

namespace OpenClickNP

open Run Be

/-! ## The documented stream -/

section
variable {ι ν γ α : Type} {σ : ι → Type} [DecidableEq ι] [DecidableEq ν] [DecidableEq γ]

/-- `SwStream s(1)`, with nothing in it. -/
def emptyNull : SwStream α := SwStream.ofCapacity 1

/-- The null stream forgets what has been written to it. -/
def forgetNull (s : NetState ι (Option ν) γ σ α) : NetState ι (Option ν) γ σ α :=
  { s with streams := Function.update s.streams none emptyNull }

variable (W : Wiring ι (Option ν) γ) (K : ∀ i, KernelFn (σ i) α)

/-- A step of the network with the null stream of the documentation. -/
def documentedStep (s : NetState ι (Option ν) γ σ α) (a : NetAction ι (Option ν) γ α) :
    Option (NetState ι (Option ν) γ σ α) :=
  (nstep W K s a).map forgetNull

/-- The network as it is and the network as documented take the same actions. -/
def bothStep (x : NetState ι (Option ν) γ σ α × NetState ι (Option ν) γ σ α)
    (a : NetAction ι (Option ν) γ α) :
    Option (NetState ι (Option ν) γ σ α × NetState ι (Option ν) γ σ α) :=
  match nstep W K x.1 a, documentedStep W K x.2 a with
  | some s, some t => some (s, t)
  | _, _ => none

/-- The contract of the null stream, in one state of the network: no input port wired to it has
received a flit, no write to an output port wired to it has failed, and all kernels and all
other streams are as with the documented stream. -/
structure NullContract (x : NetState ι (Option ν) γ σ α × NetState ι (Option ν) γ σ α) : Prop where
  no_flit : ∀ i p, W.inOf i p = none →
    testPort (x.1.threads i).locals.inputPort p = false ∧ (x.1.threads i).taken p = []
  accepted : ∀ i p, W.outOf i p = none → testPort (x.1.threads i).locals.outputFailed p = false
  threads : x.1.threads = x.2.threads
  streams : ∀ v, x.1.streams (some v) = x.2.streams (some v)
  requests : x.1.requests = x.2.requests
  responses : x.1.responses = x.2.responses

/-- An operation of thread `i` on a port wired to the null stream finds the stream empty. -/
def FindsNullEmpty (s : NetState ι (Option ν) γ σ α) (i : ι) : Option (StreamOp α) → Prop
  | some (.read p) => W.inOf i p = none → (s.streams none).q = []
  | some (.write p _) => W.outOf i p = none → (s.streams none).q = []
  | none => True

/-- The condition on a step: a read or write of an unconnected port finds the null stream
empty. -/
def NullEmpty (s : NetState ι (Option ν) γ σ α) : NetAction ι (Option ν) γ α → Prop
  | .thread i => FindsNullEmpty W s i (streamOp (s.threads i).locals (s.threads i).pc)
  | _ => True

end

/-! ## Steps on equal streams -/

section
variable {σ α : Type} {K : KernelFn σ α} {s t : KernelState σ α}

/-- The two functions have made the same steps. -/
structure SameSoFar (s t : KernelState σ α) : Prop where
  locals : s.locals = t.locals
  pc : s.pc = t.pc
  requests : s.requests = t.requests
  responses : s.responses = t.responses
  taken : s.taken = t.taken
  sent : s.sent = t.sent

/-- The operation of the next step, if it makes one, has the same outcome. -/
def SameOutcome (s t : KernelState σ α) : Option (StreamOp α) → Prop
  | some (.read p) => (s.ins p).readNb.1 = (t.ins p).readNb.1
  | some (.write p f) => ((s.outs p).writeNb f).1 = ((t.outs p).writeNb f).1
  | none => True

/-- What a step does to the function depends on the outcome of its stream operation only. -/
theorem sameSoFar_kernelStep (h : SameSoFar s t)
    (hop : SameOutcome s t (streamOp s.locals s.pc)) :
    SameSoFar (kernelStep K s) (kernelStep K t) := by
  obtain ⟨locals, pc, ins, outs, requests, responses, arrived, taken, sent, consumed⟩ := s
  obtain ⟨locals', pc', ins', outs', requests', responses', arrived', taken', sent', consumed'⟩ := t
  obtain ⟨rfl, rfl, rfl, rfl, rfl, rfl⟩ := h
  cases pc with
  | head =>
    simp only [kernelStep, recvStep]
    split
    · split <;> exact ⟨rfl, rfl, rfl, rfl, rfl, rfl⟩
    · exact ⟨rfl, rfl, rfl, rfl, rfl, rfl⟩
  | readIn rest =>
    cases rest with
    | nil => exact ⟨rfl, rfl, rfl, rfl, rfl, rfl⟩
    | cons q rest =>
      simp only [kernelStep, readPort, streamOp] at hop ⊢
      split
      · rename_i hcond
        rw [if_pos hcond] at hop
        -- the two streams are read with the same outcome
        have hsame : (ins q).readNb.1 = (ins' q).readNb.1 := hop
        cases hs : (ins q).readNb with
        | mk out stream =>
          cases ht : (ins' q).readNb with
          | mk out' stream' =>
            rw [hs, ht] at hsame
            simp only at hsame
            subst hsame
            cases out <;> exact ⟨rfl, rfl, rfl, rfl, rfl, rfl⟩
      · exact ⟨rfl, rfl, rfl, rfl, rfl, rfl⟩
  | body =>
    simp only [kernelStep, bodyStep]
    split <;> exact ⟨rfl, rfl, rfl, rfl, rfl, rfl⟩
  | writeOut rest =>
    cases rest with
    | nil => exact ⟨rfl, rfl, rfl, rfl, rfl, rfl⟩
    | cons q rest =>
      simp only [kernelStep, writePort, streamOp] at hop ⊢
      split
      · rename_i hcond
        rw [if_pos hcond] at hop
        have hsame : ((outs q).writeNb (locals.outputData q)).1
            = ((outs' q).writeNb (locals.outputData q)).1 := hop
        cases hs : (outs q).writeNb (locals.outputData q) with
        | mk ok stream =>
          cases ht : (outs' q).writeNb (locals.outputData q) with
          | mk ok' stream' =>
            rw [hs, ht] at hsame
            simp only at hsame
            subst hsame
            cases ok <;> exact ⟨rfl, rfl, rfl, rfl, rfl, rfl⟩
      · exact ⟨rfl, rfl, rfl, rfl, rfl, rfl⟩

theorem streamOp_eq_read {l : Locals σ α} {pc : LoopPc} {p : Nat}
    (h : streamOp l pc = some (.read p)) :
    ∃ rest, pc = .readIn (p :: rest) ∧ testPort l.ret p = true ∧
      testPort l.inputPort p = false := by
  unfold streamOp at h
  split at h
  · split at h
    · rename_i rest hcond
      cases h
      exact ⟨rest, rfl, by simpa using hcond⟩
    · cases h
  · split at h <;> cases h
  · cases h

theorem streamOp_eq_write {l : Locals σ α} {pc : LoopPc} {p : Nat} {f : α}
    (h : streamOp l pc = some (.write p f)) :
    ∃ rest, pc = .writeOut (p :: rest) ∧ testPort l.outputPort p = true ∧ f = l.outputData p := by
  unfold streamOp at h
  split at h
  · split at h <;> cases h
  · split at h
    · rename_i rest hcond
      cases h
      exact ⟨rest, rfl, hcond, rfl⟩
    · cases h
  · cases h

theorem outputFailed_applyOps (ops : List (PortOp α)) (l : Locals σ α) :
    (ops.foldl applyOp l).outputFailed = l.outputFailed := by
  induction ops generalizing l with
  | nil => rfl
  | cons op ops ih =>
    rw [List.foldl_cons, ih]
    cases op <;> rfl

/-! ## A port that is wired to a stream with nothing in it -/

/-- A port that has no flit gets none from a stream with nothing in it. -/
theorem no_flit_kernelStep {p : Nat} (h : testPort s.locals.inputPort p = false)
    (hop : streamOp s.locals s.pc = some (.read p) → (s.ins p).q = []) :
    testPort (kernelStep K s).locals.inputPort p = false ∧
      (kernelStep K s).taken p = s.taken p := by
  unfold kernelStep
  split
  · unfold recvStep
    split
    · split <;> exact ⟨h, rfl⟩
    · exact ⟨h, rfl⟩
  · exact ⟨h, rfl⟩
  · rename_i q rest hpc
    unfold readPort
    split
    · rename_i hcond
      split
      · rename_i f stream hread
        have hne : p ≠ q := by
          rintro rfl
          have hq := hop (by rw [hpc, streamOp, if_pos hcond])
          rw [SwStream.readNb_of_nil hq] at hread
          cases hread
        refine ⟨?_, rfl⟩
        simp [testPort_or, testPort_PORT_BIT, h, hne]
      · exact ⟨h, rfl⟩
    · exact ⟨h, rfl⟩
  · have htaken : takenIn p (viewOf s.locals) (bodyResult K s.locals) = [] := by
      unfold takenIn
      rw [show testPort (viewOf s.locals).inputPort p = false from h]
      rfl
    rw [taken_bodyStep, htaken, List.append_nil]
    refine ⟨?_, rfl⟩
    have hbit : testPort (runBody s.locals (bodyResult K s.locals)).inputPort p = false := by
      unfold runBody
      rw [testPort_applyOps, h, Bool.false_and]
    unfold bodyStep
    simp only []
    split <;> exact hbit
  · exact ⟨h, rfl⟩
  · unfold writePort
    split
    · split <;> exact ⟨h, rfl⟩
    · exact ⟨h, rfl⟩

/-- A port whose writes have not failed does not fail on a stream that takes the flit. -/
theorem accepted_kernelStep {p : Nat} (h : testPort s.locals.outputFailed p = false)
    (hop : ∀ f, streamOp s.locals s.pc = some (.write p f) → ((s.outs p).writeNb f).1 = true) :
    testPort (kernelStep K s).locals.outputFailed p = false := by
  unfold kernelStep
  split
  · unfold recvStep
    split
    · split <;> exact h
    · exact h
  · exact h
  · unfold readPort
    split
    · split <;> exact h
    · exact h
  · unfold bodyStep runRecorded runBody
    simp only []
    split
    · simpa [outputFailed_applyOps] using h
    · exact testPort_zero p
  · exact h
  · rename_i q rest hpc
    unfold writePort
    split
    · rename_i hcond
      split
      · exact h
      · rename_i stream hwrite
        have hne : p ≠ q := by
          rintro rfl
          have hok := hop _ (by rw [hpc, streamOp, if_pos hcond])
          rw [hwrite] at hok
          cases hok
        simp [testPort_or, testPort_PORT_BIT, h, hne]
    · exact h

/-- A read of a stream with a flit in it latches the flit. -/
theorem latched_of_read {p : Nat} (hop : streamOp s.locals s.pc = some (.read p))
    (hne : (s.ins p).q ≠ []) : testPort (kernelStep K s).locals.inputPort p = true := by
  obtain ⟨rest, hpc, hret, hfree⟩ := streamOp_eq_read hop
  unfold kernelStep readPort
  rw [hpc]
  simp only [hret, hfree, Bool.not_false, Bool.and_self, if_true]
  split
  · simp [testPort_or, testPort_PORT_BIT, lt_of_testPort hret]
  · rename_i stream hread
    exact absurd (SwStream.readNb_eq_none hread) hne

/-- A write to a stream that does not take the flit is marked as failed. -/
theorem failed_of_write {p : Nat} {f : α} (hop : streamOp s.locals s.pc = some (.write p f))
    (hfull : ((s.outs p).writeNb f).1 = false) :
    testPort (kernelStep K s).locals.outputFailed p = true := by
  obtain ⟨rest, hpc, hbit, rfl⟩ := streamOp_eq_write hop
  unfold kernelStep writePort
  rw [hpc]
  simp only [hbit, if_true]
  split
  · rename_i stream hwrite
    rw [hwrite] at hfull
    cases hfull
  · simp [testPort_or, testPort_PORT_BIT, lt_of_testPort hbit]

end

/-! ## Steps of the two networks -/

section
variable {ι ν γ α : Type} {σ : ι → Type}
variable {W : Wiring ι (Option ν) γ} {K : ∀ i, KernelFn (σ i) α}
variable {x y : NetState ι (Option ν) γ σ α × NetState ι (Option ν) γ σ α}

/-- What holds of the null streams of the two networks in every run. -/
structure NullStanding (W : Wiring ι (Option ν) γ)
    (x : NetState ι (Option ν) γ σ α × NetState ι (Option ν) γ σ α) : Prop where
  capacity : (x.1.streams none).capacity = 1
  empty : x.2.streams none = emptyNull
  no_flit : ∀ i p, W.inOf i p = none →
    testPort (x.2.threads i).locals.inputPort p = false ∧ (x.2.threads i).taken p = []
  accepted : ∀ i p, W.outOf i p = none → testPort (x.2.threads i).locals.outputFailed p = false

/-- What the two networks have of thread `i`. -/
theorem sameSoFar_kernelOf (h : NullContract W x) (i : ι) :
    SameSoFar (kernelOf W x.1 i) (kernelOf W x.2 i) where
  locals := congrArg (fun f => (f i).locals) h.threads
  pc := congrArg (fun f => (f i).pc) h.threads
  requests := congrFun h.requests _
  responses := congrFun h.responses _
  taken := congrArg (fun f => (f i).taken) h.threads
  sent := congrArg (fun f => (f i).sent) h.threads

theorem writeNb_emptyNull (f : α) : ((emptyNull : SwStream α).writeNb f).1 = true := rfl

/-- An operation that finds the null stream empty has the documented outcome. -/
theorem sameOutcome_of_nullEmpty (hw : NullStanding W x) (h : NullContract W x) {i : ι}
    {op : Option (StreamOp α)} (hok : FindsNullEmpty W x.1 i op) :
    SameOutcome (kernelOf W x.1 i) (kernelOf W x.2 i) op := by
  cases op with
  | none => trivial
  | some op =>
    cases op with
    | read p =>
      show (x.1.streams (W.inOf i p)).readNb.1 = (x.2.streams (W.inOf i p)).readNb.1
      cases hk : W.inOf i p with
      | some v => rw [h.streams v]
      | none =>
        rw [SwStream.readNb_of_nil (hok hk), hw.empty]
        rfl
    | write p f =>
      show ((x.1.streams (W.outOf i p)).writeNb f).1 = ((x.2.streams (W.outOf i p)).writeNb f).1
      cases hk : W.outOf i p with
      | some v => rw [h.streams v]
      | none =>
        have hroom : (x.1.streams none).q.length < (x.1.streams none).capacity := by
          rw [hok hk, hw.capacity]
          exact Nat.one_pos
        rw [(SwStream.writeNb_of_room hroom f).1, hw.empty, writeNb_emptyNull]

variable [DecidableEq ν]

/-- Two networks that agree up to the null stream, after the same operation. -/
theorem streams_applyStreamOp {s t : NetState ι (Option ν) γ σ α} (i : ι)
    (h : ∀ v, s.streams (some v) = t.streams (some v)) (op : Option (StreamOp α)) (v : ν) :
    (applyStreamOp W i s op).streams (some v) = (applyStreamOp W i t op).streams (some v) := by
  have hread : ∀ k : Option ν, (readStream s k).streams (some v)
      = (readStream t k).streams (some v) := by
    intro k
    unfold readStream
    by_cases hk : some v = k
    · subst hk
      simp [h]
    · simp [Function.update_of_ne hk, h]
  have hwrite : ∀ (k : Option ν) f, (writeStream s k f).streams (some v)
      = (writeStream t k f).streams (some v) := by
    intro k f
    unfold writeStream
    by_cases hk : some v = k
    · subst hk
      simp [h]
    · simp [Function.update_of_ne hk, h]
  cases op with
  | none => exact h v
  | some op =>
    cases op with
    | read p => exact hread _
    | write p f => exact hwrite _ _

variable [DecidableEq ι] [DecidableEq γ]

theorem bothStep_eq_some {a : NetAction ι (Option ν) γ α} (hs : bothStep W K x a = some y) :
    nstep W K x.1 a = some y.1 ∧ ∃ t, nstep W K x.2 a = some t ∧ y.2 = forgetNull t := by
  unfold bothStep documentedStep at hs
  cases h1 : nstep W K x.1 a with
  | none => simp [h1] at hs
  | some s =>
    cases h2 : nstep W K x.2 a with
    | none => simp [h1, h2] at hs
    | some t =>
      rw [h1, h2] at hs
      cases hs
      exact ⟨rfl, t, rfl, rfl⟩

theorem capacity_nstep {s t : NetState ι (Option ν) γ σ α} {a : NetAction ι (Option ν) γ α}
    (hs : nstep W K s a = some t) (k : Option ν) :
    (t.streams k).capacity = (s.streams k).capacity := by
  have hread : ∀ k', ((readStream s k').streams k).capacity = (s.streams k).capacity := by
    intro k'
    unfold readStream
    by_cases hk : k = k'
    · subst hk
      simp [SwStream.capacity_readNb]
    · simp [Function.update_of_ne hk]
  have hwrite : ∀ k' f, ((writeStream s k' f).streams k).capacity = (s.streams k).capacity := by
    intro k' f
    unfold writeStream
    by_cases hk : k = k'
    · subst hk
      simp [SwStream.capacity_writeNb]
    · simp [Function.update_of_ne hk]
  cases a with
  | thread i =>
    cases hs
    unfold threadStep
    cases streamOp (s.threads i).locals (s.threads i).pc with
    | none => rfl
    | some op =>
      cases op with
      | read p => exact hread _
      | write p f => exact hwrite _ _
  | inject k' f => cases hs; exact hwrite _ _
  | observe k' => cases hs; exact hread _
  | post c req => cases hs; rfl

/-- A step of a thread leaves the other threads alone. -/
theorem threads_threadStep (s : NetState ι (Option ν) γ σ α) (i j : ι) :
    (threadStep W K s i).threads j
      = Function.update s.threads i
        { locals := (kernelStep (K i) (kernelOf W s i)).locals
          pc := (kernelStep (K i) (kernelOf W s i)).pc
          taken := (kernelStep (K i) (kernelOf W s i)).taken
          sent := (kernelStep (K i) (kernelOf W s i)).sent } j := rfl

theorem nullStanding_step {a : NetAction ι (Option ν) γ α} (h : NullStanding W x)
    (hs : bothStep W K x a = some y) : NullStanding W y := by
  obtain ⟨h1, t, h2, hy⟩ := bothStep_eq_some hs
  rw [← Prod.eta y, hy]
  have hthreads : (∀ i p, W.inOf i p = none →
        testPort (t.threads i).locals.inputPort p = false ∧ (t.threads i).taken p = []) ∧
      ∀ i p, W.outOf i p = none → testPort (t.threads i).locals.outputFailed p = false := by
    cases a with
    | thread i =>
      cases h2
      -- a port wired to the null stream of the documentation finds it empty
      have hnull : (x.2.streams none).q = [] := by
        rw [h.empty]
        rfl
      refine ⟨fun j p hp => ?_, fun j p hp => ?_⟩
      · rw [threads_threadStep]
        by_cases hj : j = i
        · subst hj
          obtain ⟨hbit, htaken⟩ := h.no_flit j p hp
          have hkeep := no_flit_kernelStep (K := K j) (s := kernelOf W x.2 j) hbit
            (fun _ => by
              show (x.2.streams (W.inOf j p)).q = []
              rw [hp, hnull])
          rw [Function.update_self]
          exact ⟨hkeep.1, hkeep.2.trans htaken⟩
        · rw [Function.update_of_ne hj]
          exact h.no_flit j p hp
      · rw [threads_threadStep]
        by_cases hj : j = i
        · subst hj
          rw [Function.update_self]
          refine accepted_kernelStep (K := K j) (s := kernelOf W x.2 j) (h.accepted j p hp)
            (fun f _ => ?_)
          show ((x.2.streams (W.outOf j p)).writeNb f).1 = true
          rw [hp, h.empty]
          rfl
        · rw [Function.update_of_ne hj]
          exact h.accepted j p hp
    | inject k f => cases h2; exact ⟨h.no_flit, h.accepted⟩
    | observe k => cases h2; exact ⟨h.no_flit, h.accepted⟩
    | post c req => cases h2; exact ⟨h.no_flit, h.accepted⟩
  refine ⟨?_, ?_, hthreads.1, hthreads.2⟩
  · rw [capacity_nstep h1, h.capacity]
  · simp [forgetNull]

/-- An operation that finds a flit in the null stream breaks the contract: a read receives it, a
write fails. -/
theorem nullEmpty_of_contract (hw : NullStanding W x) {i : ι}
    (hfree : ∀ p, W.inOf i p = none →
      testPort (threadStep W K x.1 i |>.threads i).locals.inputPort p = false)
    (haccepted : ∀ p, W.outOf i p = none →
      testPort (threadStep W K x.1 i |>.threads i).locals.outputFailed p = false) :
    NullEmpty W x.1 (.thread i) := by
  show FindsNullEmpty W x.1 i _
  simp only [threads_threadStep, Function.update_self] at hfree haccepted
  cases hop : streamOp (x.1.threads i).locals (x.1.threads i).pc with
  | none => trivial
  | some op =>
    cases op with
    | read p =>
      intro hk
      by_contra hne
      have hlatched := latched_of_read (K := K i) (s := kernelOf W x.1 i) hop (by
        show (x.1.streams (W.inOf i p)).q ≠ []
        rw [hk]
        exact hne)
      rw [hfree p hk] at hlatched
      cases hlatched
    | write p f =>
      intro hk
      by_contra hne
      have hfull : (x.1.streams none).capacity ≤ (x.1.streams none).q.length := by
        rw [hw.capacity]
        exact List.length_pos_iff.mpr hne
      have hfailed := failed_of_write (K := K i) (s := kernelOf W x.1 i) hop (by
        show ((x.1.streams (W.outOf i p)).writeNb f).1 = false
        rw [hk, SwStream.writeNb_of_full hfull])
      rw [haccepted p hk] at hfailed
      cases hfailed

/-- The step of a thread keeps the contract when it finds the null stream empty. -/
theorem nullContract_thread (hw : NullStanding W x) (h : NullContract W x) {i : ι}
    (hs : bothStep W K x (.thread i) = some y) (hok : NullEmpty W x.1 (.thread i)) :
    NullContract W y := by
  have hwy := nullStanding_step hw hs
  obtain ⟨y₁, y₂⟩ := y
  obtain ⟨h1, t, h2, hy⟩ := bothStep_eq_some hs
  cases h1
  cases h2
  simp only at hy
  subst hy
  have hstep := sameSoFar_kernelStep (K := K i) (sameSoFar_kernelOf h i)
    (sameOutcome_of_nullEmpty hw h hok)
  have hthreads : (threadStep W K x.1 i).threads = (threadStep W K x.2 i).threads := by
    funext j
    rw [threads_threadStep, threads_threadStep, h.threads, hstep.locals, hstep.pc, hstep.taken,
      hstep.sent]
  refine ⟨fun j p hp => ?_, fun j p hp => ?_, hthreads, fun v => ?_, ?_, ?_⟩
  · have hfree := hwy.no_flit j p hp
    rw [← show (threadStep W K x.1 i).threads j = (forgetNull (threadStep W K x.2 i)).threads j
      from congrFun hthreads j] at hfree
    exact hfree
  · have haccepted := hwy.accepted j p hp
    rw [← show (threadStep W K x.1 i).threads j = (forgetNull (threadStep W K x.2 i)).threads j
      from congrFun hthreads j] at haccepted
    exact haccepted
  · have hop := streams_applyStreamOp (W := W) i h.streams
      (streamOp (x.1.threads i).locals (x.1.threads i).pc) v
    show (applyStreamOp W i x.1 _).streams (some v)
      = Function.update (applyStreamOp W i x.2 _).streams none emptyNull (some v)
    rw [Function.update_of_ne (by simp), hop, h.threads]
  · show Function.update x.1.requests _ _ = Function.update x.2.requests _ _
    rw [h.requests, hstep.requests]
  · show Function.update x.1.responses _ _ = Function.update x.2.responses _ _
    rw [h.responses, hstep.responses]

/-- **One step keeps the contract exactly when it meets the condition.** -/
theorem nullContract_step {a : NetAction ι (Option ν) γ α} (hw : NullStanding W x)
    (h : NullContract W x) (hs : bothStep W K x a = some y) :
    NullContract W y ↔ NullEmpty W x.1 a := by
  cases a with
  | thread i =>
    refine ⟨fun hy => ?_, nullContract_thread hw h hs⟩
    obtain ⟨h1, -⟩ := bothStep_eq_some hs
    have hfirst : threadStep W K x.1 i = y.1 := Option.some.inj h1
    refine nullEmpty_of_contract (K := K) hw (fun p hp => ?_) (fun p hp => ?_)
    · rw [hfirst]
      exact (hy.no_flit i p hp).1
    · rw [hfirst]
      exact hy.accepted i p hp
  | inject k f =>
    cases hs
    refine iff_of_true ⟨h.no_flit, h.accepted, h.threads, fun v => ?_, h.requests, h.responses⟩
      trivial
    show (writeStream x.1 k f).streams (some v)
      = Function.update (writeStream x.2 k f).streams none emptyNull (some v)
    rw [Function.update_of_ne (by simp)]
    unfold writeStream
    by_cases hk : some v = k
    · subst hk
      simp [h.streams]
    · simp [Function.update_of_ne hk, h.streams]
  | observe k =>
    cases hs
    refine iff_of_true ⟨h.no_flit, h.accepted, h.threads, fun v => ?_, h.requests, h.responses⟩
      trivial
    show (readStream x.1 k).streams (some v)
      = Function.update (readStream x.2 k).streams none emptyNull (some v)
    rw [Function.update_of_ne (by simp)]
    unfold readStream
    by_cases hk : some v = k
    · subst hk
      simp [h.streams]
    · simp [Function.update_of_ne hk, h.streams]
  | post c req =>
    cases hs
    refine iff_of_true ⟨h.no_flit, h.accepted, h.threads, fun v => ?_, ?_, h.responses⟩ trivial
    · show x.1.streams (some v) = Function.update x.2.streams none emptyNull (some v)
      rw [Function.update_of_ne (by simp), h.streams]
    · show Function.update x.1.requests c _ = Function.update x.2.requests c _
      rw [h.requests]

/-- The contract of the null stream along a run, for every network. -/
theorem nullContract_iff (hw : NullStanding W x) (h : NullContract W x)
    (as : List (NetAction ι (Option ν) γ α)) :
    Along (bothStep W K) (NullContract W) x as ↔
      Meets (bothStep W K) (fun x a => NullEmpty W x.1 a) x as :=
  along_iff_meets (fun _ _ _ hw hs => nullStanding_step hw hs)
    (fun _ _ _ hw h hs => nullContract_step hw h hs) as hw h

end

/-! ## The emulator of a plan -/

/-- The functions that the kernels of a plan are emitted as: any bodies, on the plan's ports. -/
structure Bodies (b : Build) where
  State : Fin b.kernels.length → Type
  fn : ∀ i, KernelFn (State i) Flit
  inPorts_eq : ∀ i, (fn i).inPorts.map Int.ofNat = b.kernels[i].inPorts.map (·.index)
  outPorts_eq : ∀ i, (fn i).outPorts.map Int.ofNat = b.kernels[i].outPorts.map (·.index)
  hasSignal_eq : ∀ i, (fn i).hasSignal = b.kernels[i].hasSignal
  init : ∀ i, State i

/-- The streams that `emitMain` passes to the kernels; `none` is `SwStream::null()`, and every
kernel is passed `SignalChannel::dummy()`. -/
def emuWiring (b : Build) : Wiring (Fin b.kernels.length) (Option StreamVar) Unit where
  inOf := fun i p => streamFor b b.kernels[i].name .input p
  outOf := fun i p => streamFor b b.kernels[i].name .output p
  chanOf := fun _ => ()

/-- The capacities that the streams are declared with. -/
def emuCap (b : Build) : Option StreamVar → Int
  | none => 1
  | some v => ((streamDecls b).lookup v).getD 1

def emuStart (b : Build) (B : Bodies b) :
    NetState (Fin b.kernels.length) (Option StreamVar) Unit B.State Flit :=
  ninit B.init (emuCap b)

/-- The ports of a thread are wired as in its launch. -/
theorem launchOf_emuWiring (b : Build) (B : Bodies b) (i : Fin b.kernels.length) :
    (launchOf b b.kernels[i]).ins
        = (B.fn i).inPorts.map (fun p => (Int.ofNat p, (emuWiring b).inOf i p)) ∧
      (launchOf b b.kernels[i]).outs
        = (B.fn i).outPorts.map (fun p => (Int.ofNat p, (emuWiring b).outOf i p)) := by
  have hports : ∀ (ps : List Nat) (f : Int → Int × Option StreamVar),
      (ps.map Int.ofNat).map f = ps.map fun p => f (Int.ofNat p) := fun ps f => List.map_map
  have hindex : ∀ (ps : List Port) (f : Int → Int × Option StreamVar),
      (ps.map (·.index)).map f = ps.map fun p => f p.index := fun ps f => List.map_map
  unfold launchOf
  refine ⟨?_, ?_⟩
  · rw [← hindex _ fun p => (p, streamFor b b.kernels[i].name .input p), ← B.inPorts_eq i, hports]
    rfl
  · rw [← hindex _ fun p => (p, streamFor b b.kernels[i].name .output p), ← B.outPorts_eq i,
      hports]
    rfl

theorem nullStanding_emuStart (b : Build) (B : Bodies b) :
    NullStanding (emuWiring b) (emuStart b B, emuStart b B) where
  capacity := rfl
  empty := rfl
  no_flit := fun _ p _ => ⟨testPort_zero p, rfl⟩
  accepted := fun _ p _ => testPort_zero p

theorem nullContract_emuStart (b : Build) (B : Bodies b) :
    NullContract (emuWiring b) (emuStart b B, emuStart b B) where
  no_flit := fun _ p _ => ⟨testPort_zero p, rfl⟩
  accepted := fun _ p _ => testPort_zero p
  threads := rfl
  streams := fun _ => rfl
  requests := rfl
  responses := rfl

/-- **When the null stream keeps its contract.** For every plan, all handler bodies and every
interleaving of the kernel threads with the world outside: in every state of the run no
unconnected input port has received a flit, no write to an unconnected output port has failed,
and every kernel and every declared stream is as with the documented null stream, if and only
if every read or write of an unconnected port finds the null stream empty. -/
theorem emulator_nullContract_iff (b : Build) (B : Bodies b)
    (as : List (NetAction (Fin b.kernels.length) (Option StreamVar) Unit Flit)) :
    Along (bothStep (emuWiring b) B.fn) (NullContract (emuWiring b))
        (emuStart b B, emuStart b B) as ↔
      Meets (bothStep (emuWiring b) B.fn) (fun x a => NullEmpty (emuWiring b) x.1 a)
        (emuStart b B, emuStart b B) as :=
  nullContract_iff (nullStanding_emuStart b B) (nullContract_emuStart b B) as

/-- `A -> Drop` and `Idle -> B`, as lowered: neither edge is in the plan. -/
def dropAndIdle : Build where
  kernels :=
    [{ name := "a", elementType := "A", outPorts := [{ index := 1 }] },
      { name := "b", elementType := "B", inPorts := [{ index := 1 }] }]

/-- `a` writes a flit in every turn, `b` takes what it is given. -/
def dropAndIdleBodies : Bodies dropAndIdle where
  State := fun _ => Unit
  fn := fun i =>
    match i with
    | ⟨0, _⟩ =>
      { inPorts := []
        outPorts := [1]
        nodup_outPorts := by decide
        handler := fun v => { state := v.state, ops := [.setOutputPort 1 {}], ret := none } }
    | ⟨_ + 1, _⟩ =>
      { inPorts := [1]
        outPorts := []
        nodup_outPorts := by decide
        handler := fun v =>
          { state := v.state, ops := [.clearInputReady (PORT_BIT 1)], ret := none } }
  inPorts_eq := by decide
  outPorts_eq := by decide
  hasSignal_eq := by decide
  init := fun _ => ()

/-- What `a` sends to `Drop`, `b` receives from `Idle`. -/
theorem dropped_flit_received :
    ¬ ∀ (b : Build) (B : Bodies b)
      (as : List (NetAction (Fin b.kernels.length) (Option StreamVar) Unit Flit)),
      Along (bothStep (emuWiring b) B.fn) (NullContract (emuWiring b))
        (emuStart b B, emuStart b B) as := by
  intro h
  -- `a` comes to its write in four operations, `b` to its read in two
  have hlast := (h dropAndIdle dropAndIdleBodies
    (List.replicate 4 (.thread ⟨0, by decide⟩) ++ List.replicate 2 (.thread ⟨1, by decide⟩))).exec
  have hfree := (hlast.no_flit ⟨1, by decide⟩ 1 (by decide)).1
  exact absurd hfree (by decide)

end OpenClickNP
