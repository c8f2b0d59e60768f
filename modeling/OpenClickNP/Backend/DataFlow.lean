import OpenClickNP.Backend.Network
import OpenClickNP.Backend.Transduction
import OpenClickNP.Lib.Histories

/-!
# Emulated networks as data flow

A kernel whose bodies pass on what a function makes of what they have taken (`Computes`) does not
look at the time at which its flits come in. A network of such kernels is a data-flow network: in
every interleaving of its threads with the world outside, in which the writes find room, what has
been written to the streams is a history of the network of their functions (`reached_histories`),
and once the streams are empty and no flit is under way in a kernel, the histories solve its
equations (`solves_of_drained`).

Some streams need not be watched (`live` is false): what is written to them is lost.
-/

namespace OpenClickNP

open Run Histories

/-! ## Kernels that compute a function -/

/-- What the bodies keep: `P` relates the state block to what has been taken and sent, and says of
the ports in use that what has been sent is what `F` makes of what has been taken. -/
structure SaysSent {σ α : Type} (K : KernelFn σ α) (F : StreamFn α) (used : Nat → Prop)
    (P : σ → (Nat → List α) → (Nat → List α) → Prop) : Prop where
  plain : ∀ q ∈ K.outPorts, used q → Plain K q
  reads : ∀ {h g : Nat → List α}, (∀ p ∈ K.inPorts, h p = g p) → ∀ q ∈ K.outPorts, used q →
    F.apply h q = F.apply g q
  call : ∀ (v : View σ α) (taken sent : Nat → List α), P v.state taken sent →
    P (K.handler v).state (fun p => taken p ++ takenIn p v (K.handler v))
      fun p => sent p ++ setsOf p (K.handler v).ops
  sent : ∀ (st : σ) (taken sent : Nat → List α), P st taken sent → ∀ q ∈ K.outPorts, used q →
    sent q = F.apply taken q

/-- From the state block `st` the bodies pass on, on the ports in use, what `F` makes of what they
take, whatever else they see. -/
def Computes {σ α : Type} (K : KernelFn σ α) (st : σ) (F : StreamFn α) (used : Nat → Prop) : Prop :=
  ∃ P, P st (fun _ => []) (fun _ => []) ∧ SaysSent K F used P

section
variable {σ τ α : Type} {K : KernelFn σ α} {s : KernelState σ α}

/-- A machine that is only given flits. -/
theorem output_flits (M : Transducer τ (Option α) α) (t : τ) (xs : List α) :
    Transducer.output
      { next := fun t f => M.next t (some f), out := fun t f => M.out t (some f) } t xs
        = M.output t (xs.map some) := by
  induction xs generalizing t with
  | nil => rfl
  | cons x xs ih => exact congrArg (M.out t (some x) ++ ·) (ih _)

/-- An element that transduces port 1, when only the flits count. -/
theorem Transduces.computes {proj : σ → τ} {harmless : ClSignal → Prop}
    {M : Transducer τ (Option α) α} (hK : Transduces K proj harmless M) (hM : Lazy M)
    (hplain : Plain K 1) (st : σ) (used : Nat → Prop) :
    Computes K st (StreamFn.ofMachine
      { next := fun t f => M.next t (some f), out := fun t f => M.out t (some f) } (proj st))
      used := by
  let N : Transducer τ α α :=
    { next := fun t f => M.next t (some f), out := fun t f => M.out t (some f) }
  have hstep : ∀ (t : τ) (x : Option α), M.next t x = N.state t x.toList ∧
      M.out t x = N.output t x.toList := by
    intro t x
    cases x with
    | none => exact hM t
    | some f => exact ⟨rfl, (List.append_nil _).symm⟩
  refine ⟨fun now taken sent =>
    proj now = N.state (proj st) (taken 1) ∧ sent 1 = N.output (proj st) (taken 1), ⟨rfl, rfl⟩,
    ?_, ?_, ?_, ?_⟩
  · intro q hq _
    rw [hK.outPorts, List.mem_singleton] at hq
    exact hq ▸ hplain
  · intro h g hports q _ _
    show (if q = 1 then _ else _) = if q = 1 then _ else _
    rw [hports 1 (by rw [hK.inPorts]; exact List.mem_singleton_self 1)]
  · intro v taken sent hv
    obtain ⟨hstate, hsent⟩ := hv
    obtain ⟨hnext, hout⟩ := hstep (proj v.state) (offered v)
    constructor
    · show _ = N.state (proj st) (taken 1 ++ takenIn 1 v (K.handler v))
      rw [hK.state, hK.taken, N.state_append, ← hstate, hnext]
    · show sent 1 ++ setsOf 1 (K.handler v).ops
        = N.output (proj st) (taken 1 ++ takenIn 1 v (K.handler v))
      rw [hK.sets, hK.taken, N.output_append, ← hstate, ← hsent, hout]
  · intro now taken sent h q hq _
    rw [hK.outPorts, List.mem_singleton] at hq
    subst hq
    show sent 1 = if 1 = 1 then N.output (proj st) (taken 1) else []
    rw [if_pos rfl]
    exact h.2

/-! ## What a step of the loop keeps -/

/-- The flits of an input port that the bodies have cleared, the one latched, and those in the
stream. -/
def held (s : KernelState σ α) (p : Nat) : List α :=
  s.taken p ++ latched s.locals p ++ (s.ins p).q

/-- What has come in is recorded, and never looked at. -/
theorem kernelStep_setArrived (s : KernelState σ α) (arrived : Nat → List α) :
    kernelStep K { s with arrived := arrived } = { kernelStep K s with arrived := arrived } := by
  unfold kernelStep
  simp only []
  split
  · unfold recvStep
    simp only []
    split
    · split <;> rfl
    · rfl
  · rfl
  · unfold readPort
    simp only []
    split
    · split <;> rfl
    · rfl
  · unfold bodyStep
    simp only []
    split <;> rfl
  · rfl
  · unfold writePort
    simp only []
    split
    · split <;> rfl
    · rfl

/-- **A step moves the flits of an input port, and keeps them.** -/
theorem held_kernelStep (s : KernelState σ α) (p : Nat) :
    held (kernelStep K s) p = held s p := by
  have hinputs : Inputs { s with arrived := held s } := fun _ => rfl
  have hstep := inputs_step (K := K) hinputs (a := .kernel) rfl
  rw [kernelStep_setArrived] at hstep
  exact (hstep p).symm

/-- The ports that are left to visit are ports of the function. -/
def VisitsPorts (K : KernelFn σ α) : LoopPc → Prop
  | .readIn rest => ∀ p ∈ rest, p ∈ K.inPorts
  | .writeOut rest => ∀ p ∈ rest, p ∈ K.outPorts
  | _ => True

theorem visitsPorts_kernelStep (h : VisitsPorts K s.pc) : VisitsPorts K (kernelStep K s).pc := by
  unfold kernelStep
  split
  · unfold recvStep
    split
    · split <;> exact fun _ hp => hp
    · exact fun _ hp => hp
  · trivial
  · rename_i q rest hpc
    rw [hpc] at h
    exact fun p hp => h p (List.mem_cons_of_mem _ hp)
  · unfold bodyStep
    simp only []
    split
    · trivial
    · exact fun _ hp => hp
  · trivial
  · rename_i q rest hpc
    rw [hpc] at h
    exact fun p hp => h p (List.mem_cons_of_mem _ hp)

/-- The port that a step reads or writes is one of them. -/
theorem streamOp_port {l : Locals σ α} {pc : LoopPc} (h : VisitsPorts K pc) :
    (∀ p, streamOp l pc = some (.read p) → p ∈ K.inPorts) ∧
      ∀ q f, streamOp l pc = some (.write q f) → q ∈ K.outPorts := by
  constructor
  · intro p hop
    unfold streamOp at hop
    split at hop
    · rename_i q rest
      split at hop
      · cases hop
        exact h p List.mem_cons_self
      · cases hop
    · split at hop <;> cases hop
    · cases hop
  · intro q f hop
    unfold streamOp at hop
    split at hop
    · split at hop <;> cases hop
    · rename_i p rest
      split at hop
      · cases hop
        exact h _ List.mem_cons_self
      · cases hop
    · cases hop

end

/-! ## Networks whose streams are shared by two ends -/

section
variable {ι κ γ α : Type} {σ : ι → Type}

/-- The input ports have streams that are watched, each its own; and so have those output ports
whose streams are watched. -/
structure Joins (W : Wiring ι κ γ) (K : ∀ i, KernelFn (σ i) α) (live : κ → Bool) : Prop where
  inputs : ∀ {i p}, p ∈ (K i).inPorts → live (W.inOf i p) = true
  reader : ∀ {i j p q}, p ∈ (K i).inPorts → q ∈ (K j).inPorts → W.inOf i p = W.inOf j q →
    i = j ∧ p = q
  writer : ∀ {i j p q}, p ∈ (K i).outPorts → q ∈ (K j).outPorts → live (W.outOf i p) = true →
    W.outOf i p = W.outOf j q → i = j ∧ p = q

/-- The output port has a stream that is watched. -/
abbrev OutLive (W : Wiring ι κ γ) (live : κ → Bool) (i : ι) (q : Nat) : Prop :=
  live (W.outOf i q) = true

/-- The data-flow network of the kernels' functions. -/
def flowNet {W : Wiring ι κ γ} {K : ∀ i, KernelFn (σ i) α} {live : κ → Bool}
    (hW : Joins W K live) (F : ι → StreamFn α) : Net ι κ α where
  inOf i p := if p ∈ (K i).inPorts then some (W.inOf i p) else none
  outOf i q :=
    if q ∈ (K i).outPorts ∧ live (W.outOf i q) = true then some (W.outOf i q) else none
  fn := F
  writer {i j q r k} hq hr := by
    simp only [Option.ite_none_right_eq_some, Option.some.injEq] at hq hr
    exact hW.writer hq.1.1 hr.1.1 hq.1.2 (hq.2.trans hr.2.symm)

/-- What has been written to the streams that are watched. -/
def histories (live : κ → Bool) (s : NetState ι κ γ σ α) : κ → List α :=
  fun k => if live k then s.written k else []

/-- A write of thread `i` to a stream that is watched finds room. -/
def HasRoom (W : Wiring ι κ γ) (live : κ → Bool) (s : NetState ι κ γ σ α) (i : ι) : Prop :=
  match streamOp (s.threads i).locals (s.threads i).pc with
  | some (.write q _) => live (W.outOf i q) = true →
      (s.streams (W.outOf i q)).q.length < (s.streams (W.outOf i q)).capacity
  | _ => True

/-- The writes of the threads find room, and the world outside keeps to its own ends of the
streams. -/
def WithinRoom (W : Wiring ι κ γ) (K : ∀ i, KernelFn (σ i) α) (live : κ → Bool)
    (s : NetState ι κ γ σ α) : NetAction ι κ γ α → Prop
  | .thread i => HasRoom W live s i
  | .inject k _ => live k = true → ∀ i, ∀ q ∈ (K i).outPorts, W.outOf i q ≠ k
  | .observe k => ∀ i, ∀ p ∈ (K i).inPorts, W.inOf i p ≠ k
  | .post _ _ => False

instance decidableHasRoom (W : Wiring ι κ γ) (live : κ → Bool) (s : NetState ι κ γ σ α) (i : ι) :
    Decidable (HasRoom W live s i) := by
  unfold HasRoom
  split <;> infer_instance

instance decidableWithinRoom {n : Nat} [DecidableEq κ] {σ : Fin n → Type} (W : Wiring (Fin n) κ γ)
    (K : ∀ i, KernelFn (σ i) α) (live : κ → Bool) (s : NetState (Fin n) κ γ σ α)
    (a : NetAction (Fin n) κ γ α) : Decidable (WithinRoom W K live s a) := by
  cases a <;> unfold WithinRoom <;> infer_instance

/-- What is known of thread `i` in every run. -/
structure ThreadSound (W : Wiring ι κ γ) (K : ∀ i, KernelFn (σ i) α) (live : κ → Bool)
    (P : ∀ i, σ i → (Nat → List α) → (Nat → List α) → Prop) (s : NetState ι κ γ σ α) (i : ι) :
    Prop where
  noSignal : (s.threads i).locals.hasSignal = false
  noRequest : s.requests (W.chanOf i) = []
  inv : P i (s.threads i).locals.state (s.threads i).taken (s.threads i).sent
  visits : VisitsPorts (K i) (s.threads i).pc
  once : WritesOnce (kernelOf W s i)
  inputs : ∀ p ∈ (K i).inPorts, s.written (W.inOf i p) = held (kernelOf W s i) p
  outputs : ∀ q ∈ (K i).outPorts, live (W.outOf i q) = true →
    (s.threads i).sent q = s.written (W.outOf i q) ++ pendingOut q (kernelOf W s i)

section
variable {W : Wiring ι κ γ} {K : ∀ i, KernelFn (σ i) α} {live : κ → Bool}
  {s t : NetState ι κ γ σ α} {i : ι}
  {P : ∀ i, σ i → (Nat → List α) → (Nat → List α) → Prop}

/-- What the other threads and the world outside may do to a thread. -/
theorem ThreadSound.frame (h : ThreadSound W K live P s i) (hthread : t.threads i = s.threads i)
    (hrequests : t.requests (W.chanOf i) = [])
    (hins : ∀ p ∈ (K i).inPorts, ∃ more, t.written (W.inOf i p) = s.written (W.inOf i p) ++ more ∧
      (t.streams (W.inOf i p)).q = (s.streams (W.inOf i p)).q ++ more)
    (houts : ∀ q ∈ (K i).outPorts, live (W.outOf i q) = true →
      t.written (W.outOf i q) = s.written (W.outOf i q)) : ThreadSound W K live P t i := by
  have hlocals : (kernelOf W t i).locals = (kernelOf W s i).locals :=
    congrArg Thread.locals hthread
  have hpc : (kernelOf W t i).pc = (kernelOf W s i).pc := congrArg Thread.pc hthread
  refine ⟨?_, hrequests, ?_, ?_, ?_, fun p hp => ?_, fun q hq hlive => ?_⟩
  · rw [hthread]
    exact h.noSignal
  · rw [hthread]
    exact h.inv
  · rw [hthread]
    exact h.visits
  · unfold WritesOnce
    rw [hpc]
    exact h.once
  · obtain ⟨more, hwritten, hq⟩ := hins p hp
    have hheld : held (kernelOf W t i) p = held (kernelOf W s i) p ++ more := by
      show (t.threads i).taken p ++ latched (t.threads i).locals p ++ (t.streams _).q = _
      rw [hthread, hq, ← List.append_assoc]
      rfl
    rw [hwritten, h.inputs p hp, hheld]
  · rw [hthread, houts q hq hlive, h.outputs q hq hlive]
    unfold pendingOut
    rw [hpc, hlocals]

/-- What is watched of the streams that a node can have read. -/
theorem seen_histories {F : ι → StreamFn α} (hW : Joins W K live) {p : Nat}
    (hp : p ∈ (K i).inPorts) :
    (flowNet hW F).seen (histories live s) i p = s.written (W.inOf i p) := by
  unfold Net.seen flowNet
  simp only [hp, if_true, Option.elim_some]
  exact if_pos (hW.inputs hp)

theorem histories_of_live (hlive : live k = true) : histories live s k = s.written k :=
  if_pos hlive

theorem histories_of_unwatched (hsame : ∀ k', live k' = true → t.written k' = s.written k') :
    histories live t = histories live s := by
  funext k'
  unfold histories
  split
  · rename_i hlive
    exact hsame k' hlive
  · rfl

/-- What a thread writes, its function makes of what the thread can have read. -/
theorem written_prefix_apply {F : ι → StreamFn α} (hW : Joins W K live)
    (hP : SaysSent (K i) (F i) (OutLive W live i) (P i)) (h : ThreadSound W K live P s i) {q : Nat}
    (hq : q ∈ (K i).outPorts) (hlive : live (W.outOf i q) = true) :
    (s.threads i).sent q <+: (F i).apply ((flowNet hW F).seen (histories live s) i) q := by
  -- what has been taken from the ports of the function, and nothing from others
  let taken : Nat → List α := fun p => if p ∈ (K i).inPorts then (s.threads i).taken p else []
  have htaken : Below taken ((flowNet hW F).seen (histories live s) i) := by
    intro p
    show (if p ∈ (K i).inPorts then (s.threads i).taken p else []) <+: _
    split
    · rename_i hp
      rw [seen_histories hW hp, h.inputs p hp]
      unfold held
      rw [List.append_assoc]
      exact List.prefix_append _ _
    · exact List.nil_prefix
  have hsame : (F i).apply (s.threads i).taken q = (F i).apply taken q :=
    hP.reads (fun p hp => (if_pos hp).symm) q hq hlive
  rw [hP.sent _ _ _ h.inv q hq hlive, hsame]
  exact (F i).mono htaken q

/-- What the bodies of every kernel keep, from one kernel to all. -/
theorem Computes.all {F : ι → StreamFn α} {st : ∀ i, σ i}
    (hK : ∀ i, Computes (K i) (st i) (F i) (OutLive W live i)) :
    ∃ P : ∀ i, σ i → (Nat → List α) → (Nat → List α) → Prop,
      (∀ i, P i (st i) (fun _ => []) fun _ => []) ∧
      ∀ i, SaysSent (K i) (F i) (OutLive W live i) (P i) :=
  ⟨fun i => (hK i).choose, fun i => (hK i).choose_spec.1, fun i => (hK i).choose_spec.2⟩

/-- What is known of the threads at their start. -/
theorem sound_ninit [Inhabited α] (st : ∀ i, σ i) (cap : κ → Int)
    (hinit : ∀ i, P i (st i) (fun _ => []) fun _ => []) (i : ι) :
    ThreadSound W K live P (ninit st cap) i where
  noSignal := rfl
  noRequest := rfl
  inv := hinit i
  visits := trivial
  once := trivial
  inputs p _ := by
    show ([] : List α) = [] ++ (if testPort 0 p then [default] else []) ++ []
    have hclear : testPort 0 p = false := by simp [testPort]
    rw [hclear]
    rfl
  outputs _ _ _ := rfl

/-- A write that finds room is kept. -/
theorem portKept_of_hasRoom {q : Nat} (hplain : Plain (K i) q)
    (hlive : live (W.outOf i q) = true) (hroom : HasRoom W live s i) :
    PortKept (K i) q (kernelOf W s i) .kernel := by
  apply (portKept_iff_findsRoom hplain .kernel).mpr
  unfold HasRoom streamOp at hroom
  unfold FindsRoom
  have hkernel : (kernelOf W s i).pc = (s.threads i).pc := rfl
  rw [hkernel]
  cases hpc : (s.threads i).pc with
  | writeOut rest =>
    cases rest with
    | nil => trivial
    | cons r rest =>
      rintro rfl hbit
      replace hbit : testPort (s.threads i).locals.outputPort r = true := hbit
      rw [hpc] at hroom
      simp only [hbit, if_true] at hroom
      exact hroom hlive
  | _ => trivial

end

/-! ## The streams after an operation -/

variable [DecidableEq κ]

/-- What an operation of a thread adds to a stream. -/
def growth (W : Wiring ι κ γ) (i : ι) (s : NetState ι κ γ σ α) (k : κ) :
    Option (StreamOp α) → List α
  | some (.write q f) =>
    if W.outOf i q = k ∧ (s.streams k).q.length < (s.streams k).capacity then [f] else []
  | _ => []

variable {W : Wiring ι κ γ} {K : ∀ i, KernelFn (σ i) α} {live : κ → Bool}
  {s t : NetState ι κ γ σ α} {i j : ι} {k : κ}

/-- What is added to a stream that is not watched. -/
theorem histories_of_unseen {more : List α} (hk : live k = false)
    (hgrow : ∀ k', t.written k' = s.written k' ++ if k' = k then more else []) :
    histories live t = histories live s := by
  apply histories_of_unwatched
  intro k' hk'
  have hne : k' ≠ k := fun heq => by
    rw [heq, hk] at hk'
    cases hk'
  rw [hgrow, if_neg hne, List.append_nil]

/-- A step that adds to one stream at most. -/
theorem histories_of_growth {more : List α} (hk : live k = true)
    (hgrow : ∀ k', t.written k' = s.written k' ++ if k' = k then more else []) :
    histories live t = Function.update (histories live s) k (histories live s k ++ more) := by
  funext k'
  unfold histories
  by_cases heq : k' = k
  · subst heq
    rw [Function.update_self, if_pos hk, if_pos hk, hgrow, if_pos rfl]
  · rw [Function.update_of_ne heq, hgrow, if_neg heq, List.append_nil]

/-- A write to a stream, seen from any stream. -/
theorem streams_writeStream (k' : κ) (f : α) :
    ((writeStream s k' f).streams k).q = (s.streams k).q
      ++ if k' = k ∧ (s.streams k).q.length < (s.streams k).capacity then [f] else [] := by
  unfold writeStream
  by_cases hk : k' = k
  · subst hk
    simp only [Function.update_self, true_and]
    split
    · rename_i hroom
      exact (SwStream.writeNb_of_room hroom f).2
    · rename_i hfull
      rw [SwStream.writeNb_of_full (Nat.not_lt.mp hfull), List.append_nil]
  · simp only [Function.update_of_ne (Ne.symm hk), hk, false_and, if_false, List.append_nil]

theorem streams_applyOp_of_noRead {op : Option (StreamOp α)}
    (hop : ∀ p, op = some (.read p) → W.inOf i p ≠ k) :
    ((applyStreamOp W i s op).streams k).q = (s.streams k).q ++ growth W i s k op := by
  cases op with
  | none => exact (List.append_nil _).symm
  | some op =>
    cases op with
    | read p =>
      show (Function.update s.streams _ _ k).q = _ ++ []
      rw [Function.update_of_ne (Ne.symm (hop p rfl)), List.append_nil]
    | write q f => exact streams_writeStream _ f

theorem written_applyStreamOp (op : Option (StreamOp α)) :
    (applyStreamOp W i s op).written k = s.written k ++ growth W i s k op := by
  cases op with
  | none => exact (List.append_nil _).symm
  | some op =>
    cases op with
    | read p => exact (written_readStream _ _).trans (List.append_nil _).symm
    | write q f =>
      show s.readOut k ++ ((writeStream s (W.outOf i q) f).streams k).q = _
      rw [streams_writeStream, ← List.append_assoc]
      rfl

/-- No other thread adds to a stream that thread `i` writes. -/
theorem growth_of_ne (hW : Joins W K live) {q : Nat} (hq : q ∈ (K i).outPorts)
    (hlive : live (W.outOf i q) = true) (hj : j ≠ i) {l : Locals (σ j) α} {pc : LoopPc}
    (hvisits : VisitsPorts (K j) pc) : growth W j s (W.outOf i q) (streamOp l pc) = [] := by
  cases hop : streamOp l pc with
  | none => rfl
  | some op =>
    cases op with
    | read p => rfl
    | write r f =>
      have hr := (streamOp_port hvisits).2 r f hop
      have hne : W.outOf j r ≠ W.outOf i q := fun heq =>
        hj (hW.writer hq hr hlive heq.symm).1.symm
      simp [growth, hne]

variable [DecidableEq ι] [DecidableEq γ]

theorem written_threadStep (k : κ) : (threadStep W K s i).written k
    = s.written k ++ growth W i s k (streamOp (s.threads i).locals (s.threads i).pc) :=
  written_applyStreamOp _

theorem queue_threadStep (hread : ∀ p,
      streamOp (s.threads i).locals (s.threads i).pc = some (.read p) → W.inOf i p ≠ k) :
    ((threadStep W K s i).streams k).q = (s.streams k).q
      ++ growth W i s k (streamOp (s.threads i).locals (s.threads i).pc) :=
  streams_applyOp_of_noRead hread

/-! ## One step of the network -/

section
variable {P : ∀ i, σ i → (Nat → List α) → (Nat → List α) → Prop}

/-- The input streams of a thread after its own step. -/
theorem queue_ownStep (hW : Joins W K live) (hvisits : VisitsPorts (K i) (s.threads i).pc) {p : Nat}
    (hp : p ∈ (K i).inPorts) : ((threadStep W K s i).streams (W.inOf i p)).q
      = ((kernelStep (K i) (kernelOf W s i)).ins p).q
        ++ growth W i s (W.inOf i p) (streamOp (s.threads i).locals (s.threads i).pc) := by
  have hins := (streams_kernelStep (K i) (kernelOf W s i)).1
  have hview : streamOp (kernelOf W s i).locals (kernelOf W s i).pc
      = streamOp (s.threads i).locals (s.threads i).pc := rfl
  rw [hins, hview]
  cases hop : streamOp (s.threads i).locals (s.threads i).pc with
  | none =>
    exact (queue_threadStep fun r hr => by rw [hop] at hr; cases hr).trans (by rw [hop]; rfl)
  | some op =>
    cases op with
    | read r =>
      show ((applyStreamOp W i s _).streams (W.inOf i p)).q = _
      rw [hop]
      show (Function.update s.streams (W.inOf i r) _ (W.inOf i p)).q
        = (Function.update (fun p => s.streams (W.inOf i p)) r _ p).q ++ []
      rw [List.append_nil]
      by_cases hpr : p = r
      · subst hpr
        rw [Function.update_self, Function.update_self]
        rfl
      · have hr := (streamOp_port hvisits).1 r hop
        rw [Function.update_of_ne hpr,
          Function.update_of_ne fun heq => hpr (hW.reader hp hr heq).2]
    | write r f =>
      exact (queue_threadStep fun r' hr => by rw [hop] at hr; cases hr).trans (by rw [hop]; rfl)

/-- The output streams of a thread after its own step. -/
theorem written_ownStep (hW : Joins W K live) (hvisits : VisitsPorts (K i) (s.threads i).pc)
    {q : Nat} (hq : q ∈ (K i).outPorts) (hlive : live (W.outOf i q) = true) :
    (threadStep W K s i).written (W.outOf i q)
      = (kernelStep (K i) (kernelOf W s i)).consumed q
        ++ ((kernelStep (K i) (kernelOf W s i)).outs q).q := by
  obtain ⟨-, houts, -, hconsumed⟩ := streams_kernelStep (K i) (kernelOf W s i)
  have hview : streamOp (kernelOf W s i).locals (kernelOf W s i).pc
      = streamOp (s.threads i).locals (s.threads i).pc := rfl
  rw [written_threadStep, hconsumed, houts, hview]
  cases hop : streamOp (s.threads i).locals (s.threads i).pc with
  | none => exact List.append_nil _
  | some op =>
    cases op with
    | read r => exact List.append_nil _
    | write r f =>
      have hr := (streamOp_port hvisits).2 r f hop
      show s.readOut (W.outOf i q) ++ (s.streams (W.outOf i q)).q ++ growth W i s _ _
        = s.readOut (W.outOf i q)
          ++ (Function.update (fun q => s.streams (W.outOf i q)) r _ q).q
      rw [List.append_assoc]
      refine congrArg (s.readOut (W.outOf i q) ++ ·) ?_
      by_cases hqr : q = r
      · subst hqr
        have hsame : (Function.update s.streams (W.outOf i q) _ (W.outOf i q)).q = _ :=
          streams_writeStream (s := s) (k := W.outOf i q) (W.outOf i q) f
        rw [Function.update_self] at hsame ⊢
        exact hsame.symm
      · have hne : W.outOf i r ≠ W.outOf i q := fun heq =>
          hqr (hW.writer hq hr hlive heq.symm).2
        rw [Function.update_of_ne hqr]
        simp [growth, hne]

/-- What a thread has of its own after its step. -/
theorem kernelOf_ownStep (s : NetState ι κ γ σ α) (i : ι) :
    (kernelOf W (threadStep W K s i) i).locals = (kernelStep (K i) (kernelOf W s i)).locals ∧
      (kernelOf W (threadStep W K s i) i).pc = (kernelStep (K i) (kernelOf W s i)).pc ∧
      (kernelOf W (threadStep W K s i) i).taken = (kernelStep (K i) (kernelOf W s i)).taken ∧
      (kernelOf W (threadStep W K s i) i).sent = (kernelStep (K i) (kernelOf W s i)).sent := by
  simp [kernelOf, threadStep]

/-- **A thread's own step.** -/
theorem ThreadSound.own {F : ι → StreamFn α} (hW : Joins W K live)
    (hP : SaysSent (K i) (F i) (OutLive W live i) (P i)) (h : ThreadSound W K live P s i)
    (hroom : HasRoom W live s i) :
    ThreadSound W K live P (threadStep W K s i) i := by
  have hs : kstep (K i) (kernelOf W s i) .kernel = some (kernelStep (K i) (kernelOf W s i)) := rfl
  obtain ⟨hlocals, hpc, htaken, hsent⟩ := kernelOf_ownStep (W := W) (K := K) s i
  obtain ⟨hsig, hreq⟩ := noSignal_step (a := .kernel) h.noSignal h.noRequest nofun hs
  refine ⟨?_, ?_, ?_, ?_, ?_, fun p hp => ?_, fun q hq hlive => ?_⟩
  · exact (congrArg Locals.hasSignal hlocals).trans hsig
  · show Function.update s.requests (W.chanOf i) _ (W.chanOf i) = []
    rw [Function.update_self]
    exact hreq
  · have hinv := inv_call_step (P := P i) hP.call h.noSignal hs h.inv
    rw [← hlocals, ← htaken, ← hsent] at hinv
    exact hinv
  · have hvisits := visitsPorts_kernelStep (K := K i) (s := kernelOf W s i) h.visits
    rw [← hpc] at hvisits
    exact hvisits
  · have honce := writesOnce_step h.once hs
    unfold WritesOnce at honce ⊢
    rw [hpc]
    exact honce
  · have hheld : s.written (W.inOf i p) = held (kernelStep (K i) (kernelOf W s i)) p :=
      (h.inputs p hp).trans (held_kernelStep _ p).symm
    rw [written_threadStep, hheld]
    unfold held
    rw [htaken, hlocals, List.append_assoc, List.append_assoc, List.append_assoc]
    exact congrArg _ (congrArg _ (queue_ownStep hW h.visits hp).symm)
  · have hlossless : Lossless q (kernelOf W s i) := h.outputs q hq hlive
    have hafter := (lossless_step h.once hlossless hs).mpr
      (portKept_of_hasRoom (hP.plain q hq hlive) hlive hroom)
    rw [written_ownStep hW h.visits hq hlive]
    show (kernelOf W (threadStep W K s i) i).sent q = _
    rw [hsent]
    unfold pendingOut
    rw [hpc, hlocals]
    exact hafter

/-- **The step of another thread.** -/
theorem ThreadSound.other (hW : Joins W K live) (h : ThreadSound W K live P s i)
    (hj : ThreadSound W K live P s j) (hji : j ≠ i) :
    ThreadSound W K live P (threadStep W K s j) i := by
  have hreq := (noSignal_step (s := kernelOf W s j) (K := K j) (a := .kernel) hj.noSignal
    hj.noRequest nofun rfl).2
  apply h.frame
  · exact Function.update_of_ne (Ne.symm hji) _ _
  · show Function.update s.requests (W.chanOf j) _ (W.chanOf i) = []
    by_cases hc : W.chanOf i = W.chanOf j
    · rw [hc, Function.update_self]
      exact hreq
    · rw [Function.update_of_ne hc]
      exact h.noRequest
  · intro p hp
    refine ⟨_, written_threadStep _, queue_threadStep fun r hop heq => ?_⟩
    -- the stream has one reader
    exact hji (hW.reader hp ((streamOp_port hj.visits).1 r hop) heq.symm).1.symm
  · intro q hq hlive
    rw [written_threadStep, growth_of_ne hW hq hlive hji hj.visits, List.append_nil]

/-- **A step keeps what is known of every thread.** -/
theorem sound_step {F : ι → StreamFn α} (hW : Joins W K live)
    (hP : ∀ i, SaysSent (K i) (F i) (OutLive W live i) (P i))
    {a : NetAction ι κ γ α} (h : ∀ i, ThreadSound W K live P s i) (ha : WithinRoom W K live s a)
    (hs : nstep W K s a = some t) (i : ι) : ThreadSound W K live P t i := by
  cases a with
  | thread j =>
    cases hs
    by_cases hji : j = i
    · subst hji
      exact (h j).own hW (hP j) ha
    · exact (h i).other hW (h j) hji
  | inject k f =>
    cases hs
    apply (h i).frame (t := writeStream s k f) rfl (h i).noRequest
    · intro p hp
      refine ⟨_, ?_, streams_writeStream k f⟩
      show s.readOut _ ++ ((writeStream s k f).streams _).q = _
      rw [streams_writeStream, ← List.append_assoc]
      rfl
    · intro q hq hlive
      show s.readOut _ ++ ((writeStream s k f).streams _).q = _
      have hne : k ≠ W.outOf i q := fun heq => ha (heq ▸ hlive) i q hq heq.symm
      rw [streams_writeStream]
      simp [hne, NetState.written]
  | observe k =>
    cases hs
    apply (h i).frame (t := readStream s k) rfl (h i).noRequest
    · intro p hp
      refine ⟨[], by rw [written_readStream, List.append_nil], ?_⟩
      show (Function.update s.streams k _ _).q = _
      rw [Function.update_of_ne (ha i p hp), List.append_nil]
    · exact fun q _ _ => written_readStream _ _
  | post c req => exact ha.elim

end

/-! ## The histories of a run -/

section
variable {F : ι → StreamFn α} {P : ∀ i, σ i → (Nat → List α) → (Nat → List α) → Prop}

/-- A step that writes nothing. -/
theorem histories_of_noWrite
    (hno : ∀ k, growth W i s k (streamOp (s.threads i).locals (s.threads i).pc) = []) :
    histories live (threadStep W K s i) = histories live s :=
  histories_of_unwatched fun k _ => by rw [written_threadStep, hno, List.append_nil]

theorem written_of_write {q : Nat} {f : α}
    (hop : streamOp (s.threads i).locals (s.threads i).pc = some (.write q f)) (k : κ) :
    (threadStep W K s i).written k = s.written k
      ++ if k = W.outOf i q then growth W i s (W.outOf i q) (some (.write q f)) else [] := by
  rw [written_threadStep, hop]
  by_cases hk : k = W.outOf i q
  · rw [hk, if_pos rfl]
  · rw [if_neg hk]
    simp [growth, Ne.symm hk]

/-- A write passes on what the body has sent before. -/
theorem sent_of_write {q : Nat} {f : α}
    (hop : streamOp (s.threads i).locals (s.threads i).pc = some (.write q f)) :
    ((threadStep W K s i).threads i).sent = (s.threads i).sent := by
  have hbody : (s.threads i).pc ≠ .body := by
    intro hpc
    rw [hpc] at hop
    cases hop
  show (kernelOf W (threadStep W K s i) i).sent = _
  rw [(kernelOf_ownStep s i).2.2.2]
  exact (sameRecords_kernelStep (K := K i) (s := kernelOf W s i) hbody).sent

/-- What the step of a thread adds to a stream that is watched. -/
theorem step_histories (hW : Joins W K live)
    (hP : SaysSent (K i) (F i) (OutLive W live i) (P i)) (h : ThreadSound W K live P s i)
    (hafter : ThreadSound W K live P (threadStep W K s i) i)
    (hr : (flowNet hW F).Reached (histories live s)) :
    (flowNet hW F).Reached (histories live (threadStep W K s i)) := by
  cases hop : streamOp (s.threads i).locals (s.threads i).pc with
  | none =>
    have hno : ∀ k, growth W i s k (streamOp (s.threads i).locals (s.threads i).pc) = [] := by
      intro k
      rw [hop]
      rfl
    have hsame : histories live (threadStep W K s i) = histories live s := histories_of_noWrite hno
    exact hsame ▸ hr
  | some op =>
    cases op with
    | read p =>
      have hno : ∀ k, growth W i s k (streamOp (s.threads i).locals (s.threads i).pc) = [] := by
        intro k
        rw [hop]
        rfl
      have hsame : histories live (threadStep W K s i) = histories live s :=
        histories_of_noWrite hno
      exact hsame ▸ hr
    | write q f =>
      have hq := (streamOp_port h.visits).2 q f hop
      have hgrow := written_of_write (W := W) (K := K) hop
      cases hlive : live (W.outOf i q) with
      | false =>
        have hsame : histories live (threadStep W K s i) = histories live s :=
          histories_of_unseen hlive hgrow
        exact hsame ▸ hr
      | true =>
        rw [histories_of_growth hlive hgrow]
        have hk : (flowNet hW F).outOf i q = some (W.outOf i q) := if_pos ⟨hq, hlive⟩
        refine hr.next (.fire hk (List.prefix_append _ _) ?_)
        -- the flit is one that the body has sent, so the equation of the port covers it
        have hwritten : histories live s (W.outOf i q)
            ++ growth W i s (W.outOf i q) (some (.write q f))
              = (threadStep W K s i).written (W.outOf i q) := by
          rw [hgrow, if_pos rfl, histories_of_live hlive]
        rw [hwritten]
        have hfirst : (threadStep W K s i).written (W.outOf i q) <+: (s.threads i).sent q := by
          rw [← sent_of_write hop, hafter.outputs q hq hlive]
          exact List.prefix_append _ _
        exact hfirst.trans (written_prefix_apply hW hP h hq hlive)

/-- What is known of a run: of every thread, and of all that has been written. -/
theorem reached_step (hW : Joins W K live)
    (hP : ∀ i, SaysSent (K i) (F i) (OutLive W live i) (P i))
    {a : NetAction ι κ γ α} (h : ∀ i, ThreadSound W K live P s i)
    (hr : (flowNet hW F).Reached (histories live s)) (ha : WithinRoom W K live s a)
    (hs : nstep W K s a = some t) : (flowNet hW F).Reached (histories live t) := by
  have hafter := sound_step hW hP h ha hs
  cases a with
  | thread j =>
    cases hs
    exact step_histories hW (hP j) (h j) (hafter j) hr
  | inject k f =>
    cases hs
    have hgrow : ∀ k', (writeStream s k f).written k' = s.written k' ++ if k' = k then
        (if (s.streams k).q.length < (s.streams k).capacity then [f] else []) else [] := by
      intro k'
      show s.readOut k' ++ ((writeStream s k f).streams k').q = _
      rw [streams_writeStream, ← List.append_assoc]
      by_cases hk : k' = k
      · subst hk
        simp [NetState.written]
      · simp [Ne.symm hk, hk, NetState.written]
    cases hlive : live k with
    | false =>
      have hsame : histories live (writeStream s k f) = histories live s :=
        histories_of_unseen hlive hgrow
      exact hsame ▸ hr
    | true =>
      rw [histories_of_growth hlive hgrow]
      -- the world outside only writes to streams that no thread writes to
      refine hr.next (.feed ?_ _)
      intro i q hk
      obtain ⟨⟨hq, -⟩, heq⟩ := Option.ite_none_right_eq_some.mp hk
      exact ha hlive i q hq (Option.some.inj heq)
  | observe k =>
    cases hs
    have hsame : histories live (readStream s k) = histories live s :=
      histories_of_unwatched fun k' _ => written_readStream k k'
    exact hsame ▸ hr
  | post c req => exact ha.elim

end

/-- **What has been written to the streams is a history of the data-flow network**, in every run in
which the writes find room. Induction on the run. -/
theorem reached_histories [Inhabited α] (hW : Joins W K live) {F : ι → StreamFn α} {st : ∀ i, σ i}
    (hK : ∀ i, Computes (K i) (st i) (F i) (OutLive W live i)) (cap : κ → Int)
    (hr : Reaches (nstep W K) (WithinRoom W K live) (ninit st cap) t) :
    (flowNet hW F).Reached (histories live t) := by
  obtain ⟨P, hinit, hP⟩ := Computes.all hK
  have hinv : (∀ i, ThreadSound W K live P t i) ∧ (flowNet hW F).Reached (histories live t) := by
    apply hr.inv
    · refine ⟨sound_ninit st cap hinit, ?_⟩
      have hempty : histories live (ninit st cap : NetState ι κ γ σ α) = fun _ => [] := by
        funext k
        unfold histories
        split <;> rfl
      rw [hempty]
      exact .start
    · intro s a u hs ha hstep
      exact ⟨sound_step hW hP hs.1 ha hstep, reached_step hW hP hs.1 hs.2 ha hstep⟩
  exact hinv.2

/-- Nothing is under way: every kernel has cleared what it read and passed on what it made, and the
streams that kernels read are empty. -/
structure Drained (W : Wiring ι κ γ) (K : ∀ i, KernelFn (σ i) α) (live : κ → Bool)
    (s : NetState ι κ γ σ α) : Prop where
  inputs : ∀ i, ∀ p ∈ (K i).inPorts,
    latched (s.threads i).locals p = [] ∧ (s.streams (W.inOf i p)).q = []
  outputs : ∀ i, ∀ q ∈ (K i).outPorts, live (W.outOf i q) = true →
    pendingOut q (kernelOf W s i) = []

/-- **Where nothing is under way, the histories solve the equations of the network.** -/
theorem solves_of_drained [Inhabited α] (hW : Joins W K live) {F : ι → StreamFn α} {st : ∀ i, σ i}
    (hK : ∀ i, Computes (K i) (st i) (F i) (OutLive W live i)) (cap : κ → Int)
    (hr : Reaches (nstep W K) (WithinRoom W K live) (ninit st cap) t) (ht : Drained W K live t) :
    (flowNet hW F).Solves (histories live t) := by
  obtain ⟨P, hinit, hP⟩ := Computes.all hK
  have hsound : ∀ i, ThreadSound W K live P t i := by
    apply hr.inv
    · exact sound_ninit st cap hinit
    · exact fun s a u hs ha hstep => sound_step hW hP hs ha hstep
  intro i q k hk
  obtain ⟨⟨hq, hlive⟩, heq⟩ := Option.ite_none_right_eq_some.mp hk
  obtain rfl := Option.some.inj heq
  -- what the kernel has sent is all in the stream, and what it has taken all that was there
  have hsent := (hsound i).outputs q hq hlive
  rw [ht.outputs i q hq hlive, List.append_nil] at hsent
  rw [histories_of_live hlive, ← hsent, (hP i).sent _ _ _ (hsound i).inv q hq hlive]
  refine (hP i).reads (fun p hp => ?_) q hq hlive
  obtain ⟨hlatched, hempty⟩ := ht.inputs i p hp
  rw [seen_histories hW hp, (hsound i).inputs p hp]
  show _ = (t.threads i).taken p ++ latched (t.threads i).locals p ++ (t.streams (W.inOf i p)).q
  rw [hlatched, hempty, List.append_nil, List.append_nil]

end

end OpenClickNP
