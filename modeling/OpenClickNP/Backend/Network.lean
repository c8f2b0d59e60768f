import OpenClickNP.Backend.HandlerCalls

/-!
# Kernels that share streams

The threads of an emulator: each runs a kernel function on streams that other threads, or the
world outside, read and write. A step of a thread is a step of its function on the streams it
is wired to.

Where a thread has its streams to itself on its own side, what it sees of a run of the network
is a run of its function alone (`reaches_kernelOf`): the other threads are the producers and
the consumers of that run.
-/

namespace OpenClickNP

open Run

/-- The streams passed to each thread as `in_<p>` and `out_<p>`, and its signal channel. -/
structure Wiring (ι κ γ : Type) where
  inOf : ι → Nat → κ
  outOf : ι → Nat → κ
  chanOf : ι → γ

/-- What a thread has of its own. The last two fields are the records of its bodies. -/
structure Thread (σ α : Type) where
  locals : Locals σ α
  pc : LoopPc := .head
  taken : Nat → List α := fun _ => []
  sent : Nat → List α := fun _ => []

/-- The threads, the streams and the signal channels; `readOut` records what has been read from
each stream. -/
structure NetState (ι κ γ : Type) (σ : ι → Type) (α : Type) where
  threads : ∀ i, Thread (σ i) α
  streams : κ → SwStream α
  requests : γ → List ClSignal := fun _ => []
  responses : γ → List ClSignal := fun _ => []
  readOut : κ → List α := fun _ => []

inductive NetAction (ι κ γ α : Type) where
  /-- A thread goes on by one operation. -/
  | thread (i : ι)
  /-- The world outside writes a flit to a stream. -/
  | inject (k : κ) (f : α)
  /-- The world outside reads from a stream. -/
  | observe (k : κ)
  /-- The host posts a signal. -/
  | post (c : γ) (req : ClSignal)

/-- The operation on a stream that a step of the loop makes. -/
inductive StreamOp (α : Type) where
  | read (p : Nat)
  | write (p : Nat) (f : α)
deriving DecidableEq

section
variable {ι κ γ α : Type} {σ : ι → Type}

def streamOp {σ : Type} (l : Locals σ α) : LoopPc → Option (StreamOp α)
  | .readIn (q :: _) =>
    if testPort l.ret q && !testPort l.inputPort q then some (.read q) else none
  | .writeOut (q :: _) =>
    if testPort l.outputPort q then some (.write q (l.outputData q)) else none
  | _ => none

/-- All that has been written to a stream. -/
def NetState.written (s : NetState ι κ γ σ α) (k : κ) : List α := s.readOut k ++ (s.streams k).q

/-- The kernel function of a thread with the streams it is wired to. -/
def kernelOf (W : Wiring ι κ γ) (s : NetState ι κ γ σ α) (i : ι) : KernelState (σ i) α where
  locals := (s.threads i).locals
  pc := (s.threads i).pc
  ins := fun p => s.streams (W.inOf i p)
  outs := fun p => s.streams (W.outOf i p)
  requests := s.requests (W.chanOf i)
  responses := s.responses (W.chanOf i)
  arrived := fun p => s.written (W.inOf i p)
  taken := (s.threads i).taken
  sent := (s.threads i).sent
  consumed := fun p => s.readOut (W.outOf i p)

/-- The threads at the start of their functions, with streams of the given capacities. -/
def ninit [Inhabited α] (state : ∀ i, σ i) (cap : κ → Int) : NetState ι κ γ σ α where
  threads := fun i => { locals :=
    { state := state i, inputData := fun _ => default, outputData := fun _ => default } }
  streams := fun k => SwStream.ofCapacity (cap k)

variable [DecidableEq ι] [DecidableEq κ] [DecidableEq γ]

/-- A read from a stream. -/
def readStream (s : NetState ι κ γ σ α) (k : κ) : NetState ι κ γ σ α :=
  { s with
    streams := Function.update s.streams k (s.streams k).readNb.2
    readOut := Function.update s.readOut k (s.readOut k ++ (s.streams k).readNb.1.toList) }

/-- A write to a stream. -/
def writeStream (s : NetState ι κ γ σ α) (k : κ) (f : α) : NetState ι κ γ σ α :=
  { s with streams := Function.update s.streams k ((s.streams k).writeNb f).2 }

/-- What the operation of thread `i` does to the streams. -/
def applyStreamOp (W : Wiring ι κ γ) (i : ι) (s : NetState ι κ γ σ α) :
    Option (StreamOp α) → NetState ι κ γ σ α
  | some (.read p) => readStream s (W.inOf i p)
  | some (.write p f) => writeStream s (W.outOf i p) f
  | none => s

variable (W : Wiring ι κ γ) (K : ∀ i, KernelFn (σ i) α)

/-- Thread `i` goes on by one operation. -/
def threadStep (s : NetState ι κ γ σ α) (i : ι) : NetState ι κ γ σ α :=
  -- the kernel step is taken on the view of the thread; the streams change in place
  let ks := kernelStep (K i) (kernelOf W s i)
  { applyStreamOp W i s (streamOp (s.threads i).locals (s.threads i).pc) with
    threads := Function.update s.threads i
      { locals := ks.locals, pc := ks.pc, taken := ks.taken, sent := ks.sent }
    requests := Function.update s.requests (W.chanOf i) ks.requests
    responses := Function.update s.responses (W.chanOf i) ks.responses }

def nstep (s : NetState ι κ γ σ α) : NetAction ι κ γ α → Option (NetState ι κ γ σ α)
  | .thread i => some (threadStep W K s i)
  | .inject k f => some (writeStream s k f)
  | .observe k => some (readStream s k)
  | .post c req => some { s with requests := Function.update s.requests c (s.requests c ++ [req]) }

end

/-! ## What a thread sees -/

/-- Thread `i` has its streams to itself: it alone reads its inputs, writes its outputs and has
its signal channel, and no stream of its own leads back to it. -/
structure OwnStreams {ι κ γ : Type} (W : Wiring ι κ γ) (i : ι) : Prop where
  inOf_inj : ∀ p q, W.inOf i p = W.inOf i q → p = q
  outOf_inj : ∀ p q, W.outOf i p = W.outOf i q → p = q
  no_loop : ∀ p q, W.inOf i p ≠ W.outOf i q
  reader : ∀ j p q, W.inOf j p = W.inOf i q → j = i
  writer : ∀ j p q, W.outOf j p = W.outOf i q → j = i
  chan : ∀ j, W.chanOf j = W.chanOf i → j = i

/-- The world outside keeps to the other ends of the streams of thread `i`. -/
def OtherEnds {ι κ γ α : Type} (W : Wiring ι κ γ) (i : ι) : NetAction ι κ γ α → Prop
  | .thread _ => True
  | .inject k _ => ∀ p, k ≠ W.outOf i p
  | .observe k => ∀ p, k ≠ W.inOf i p
  | .post _ _ => True

section
variable {ι κ γ α : Type} {σ : ι → Type} [DecidableEq κ]
variable {W : Wiring ι κ γ} {s : NetState ι κ γ σ α} {i : ι}

/-- An update of the stream of a port, seen by port. -/
theorem update_port {β : Type} {g : Nat → κ} {p : Nat} (hinj : ∀ q, g q = g p → q = p)
    (f : κ → β) (x : β) :
    (fun q => Function.update f (g p) x (g q))
      = Function.update (fun q => f (g q)) p x := by
  funext q
  by_cases hq : q = p
  · subst hq
    simp
  · rw [Function.update_of_ne hq, Function.update_of_ne fun h => hq (hinj q h)]

/-- An update of a stream of no port. -/
theorem update_elsewhere {β : Type} {g : Nat → κ} {k : κ} (hne : ∀ q, g q ≠ k)
    (f : κ → β) (x : β) : (fun q => Function.update f k x (g q)) = fun q => f (g q) :=
  funext fun q => Function.update_of_ne (hne q) _ _

theorem written_readStream (k k' : κ) : (readStream s k).written k' = s.written k' := by
  unfold NetState.written readStream
  by_cases hk : k' = k
  · subst hk
    simp only [Function.update_self, List.append_assoc]
    rw [← SwStream.q_eq_readNb]
  · simp only [Function.update_of_ne hk]

/-- Somebody reads an output stream of the thread. -/
theorem kernelOf_readStream_out (h : OwnStreams W i) (p : Nat) :
    kernelOf W (readStream s (W.outOf i p)) i = consumeStep (kernelOf W s i) p := by
  have hins := update_elsewhere (g := W.inOf i) (k := W.outOf i p) (fun q => h.no_loop q p)
    s.streams (s.streams (W.outOf i p)).readNb.2
  have houts := update_port (g := W.outOf i) (p := p) (fun q => h.outOf_inj q p)
    s.streams (s.streams (W.outOf i p)).readNb.2
  have hread := update_port (g := W.outOf i) (p := p) (fun q => h.outOf_inj q p)
    s.readOut (s.readOut (W.outOf i p) ++ (s.streams (W.outOf i p)).readNb.1.toList)
  have hwritten : ∀ q, (readStream s (W.outOf i p)).written (W.inOf i q)
      = s.written (W.inOf i q) := fun q => written_readStream _ _
  -- what is written to the inputs does not change, nor do the input streams
  unfold consumeStep kernelOf
  simp only [hwritten]
  simp only [readStream, hins, houts, hread]
  split
  · rename_i f stream hnb
    simp [hnb]
  · rename_i stream hnb
    have hq := SwStream.readNb_eq_none hnb
    rw [SwStream.readNb_of_nil hq]
    simp

/-- Somebody writes to an input stream of the thread. -/
theorem kernelOf_writeStream_in (h : OwnStreams W i) (p : Nat) (f : α) :
    kernelOf W (writeStream s (W.inOf i p) f) i = produceStep (kernelOf W s i) p f := by
  have hins := update_port (g := W.inOf i) (p := p) (fun q => h.inOf_inj q p)
    s.streams ((s.streams (W.inOf i p)).writeNb f).2
  have houts := update_elsewhere (g := W.outOf i) (k := W.inOf i p)
    (fun q => (h.no_loop p q).symm) s.streams ((s.streams (W.inOf i p)).writeNb f).2
  have hq := update_port (g := W.inOf i) (p := p) (fun q => h.inOf_inj q p)
    (fun k => s.readOut k ++ (s.streams k).q)
    (s.readOut (W.inOf i p) ++ ((s.streams (W.inOf i p)).writeNb f).2.q)
  have hwritten : (fun q => (writeStream s (W.inOf i p) f).written (W.inOf i q))
      = Function.update (fun q => s.written (W.inOf i q)) p
        (s.readOut (W.inOf i p) ++ ((s.streams (W.inOf i p)).writeNb f).2.q) := by
    rw [show (fun q => s.written (W.inOf i q))
      = fun q => s.readOut (W.inOf i q) ++ (s.streams (W.inOf i q)).q from rfl, ← hq]
    funext q
    unfold NetState.written writeStream
    by_cases hk : W.inOf i q = W.inOf i p
    · rw [hk]
      simp
    · simp [Function.update_of_ne hk]
  unfold produceStep
  split
  · rename_i stream hnb
    have hstream : (s.streams (W.inOf i p)).writeNb f = (true, stream) := hnb
    rw [hstream] at hins houts hwritten
    -- there was room: the flit has arrived
    rw [SwStream.writeNb_eq_true hstream, ← List.append_assoc] at hwritten
    unfold kernelOf
    rw [hwritten]
    simp only [writeStream, hstream, hins, houts]
    rfl
  · rename_i stream hnb
    have hstream : (s.streams (W.inOf i p)).writeNb f = (false, stream) := hnb
    -- no room: nothing changes
    rw [hstream, SwStream.writeNb_eq_false hstream] at hins houts hwritten
    unfold kernelOf
    rw [hwritten]
    simp only [writeStream, hstream, SwStream.writeNb_eq_false hstream, hins, houts]
    simp [NetState.written]

/-- A read from a stream that is none of the thread's. -/
theorem kernelOf_readStream_other {k : κ} (hin : ∀ p, W.inOf i p ≠ k)
    (hout : ∀ p, W.outOf i p ≠ k) : kernelOf W (readStream s k) i = kernelOf W s i := by
  unfold kernelOf
  simp only [written_readStream]
  simp only [readStream, update_elsewhere hin, update_elsewhere hout]

/-- A write to a stream that is none of the thread's. -/
theorem kernelOf_writeStream_other {k : κ} (hin : ∀ p, W.inOf i p ≠ k)
    (hout : ∀ p, W.outOf i p ≠ k) (f : α) :
    kernelOf W (writeStream s k f) i = kernelOf W s i := by
  have hwritten : ∀ p, (writeStream s k f).written (W.inOf i p) = s.written (W.inOf i p) := by
    intro p
    unfold NetState.written writeStream
    simp only [Function.update_of_ne (hin p)]
  unfold kernelOf
  simp only [hwritten]
  simp only [writeStream, update_elsewhere hin, update_elsewhere hout]

/-- A read by somebody else is a read of an output stream or none of the thread's business. -/
theorem kernelOf_readStream (h : OwnStreams W i) {k : κ} (hk : ∀ p, W.inOf i p ≠ k) :
    kernelOf W (readStream s k) i = kernelOf W s i ∨
      ∃ p, kernelOf W (readStream s k) i = consumeStep (kernelOf W s i) p := by
  by_cases hout : ∃ p, W.outOf i p = k
  · obtain ⟨p, rfl⟩ := hout
    exact Or.inr ⟨p, kernelOf_readStream_out h p⟩
  · exact Or.inl (kernelOf_readStream_other hk (not_exists.mp hout))

/-- A write by somebody else is a write to an input stream or none of the thread's business. -/
theorem kernelOf_writeStream (h : OwnStreams W i) {k : κ} (hk : ∀ p, W.outOf i p ≠ k) (f : α) :
    kernelOf W (writeStream s k f) i = kernelOf W s i ∨
      ∃ p, W.inOf i p = k ∧
        kernelOf W (writeStream s k f) i = produceStep (kernelOf W s i) p f := by
  by_cases hin : ∃ p, W.inOf i p = k
  · obtain ⟨p, rfl⟩ := hin
    exact Or.inr ⟨p, rfl, kernelOf_writeStream_in h p f⟩
  · exact Or.inl (kernelOf_writeStream_other (not_exists.mp hin) hk f)

end

section
variable {ι κ γ α : Type} {σ : ι → Type} [DecidableEq ι] [DecidableEq κ] [DecidableEq γ]
variable {W : Wiring ι κ γ} {K : ∀ i, KernelFn (σ i) α} {s t : NetState ι κ γ σ α} {i : ι}

/-! ## One step of a thread -/

/-- The streams after a step of the loop. -/
theorem streams_kernelStep {σ : Type} (K : KernelFn σ α) (s : KernelState σ α) :
    (kernelStep K s).ins
        = (match streamOp s.locals s.pc with
          | some (.read p) => Function.update s.ins p (s.ins p).readNb.2
          | _ => s.ins) ∧
      (kernelStep K s).outs
        = (match streamOp s.locals s.pc with
          | some (.write p f) => Function.update s.outs p ((s.outs p).writeNb f).2
          | _ => s.outs) ∧
      (kernelStep K s).arrived = s.arrived ∧ (kernelStep K s).consumed = s.consumed := by
  unfold kernelStep streamOp
  split
  · unfold recvStep
    simp only [*]
    split
    · split <;> simp
    · simp
  · simp [*]
  · rename_i q rest hpc
    simp only [hpc]
    unfold readPort
    split
    · split
      · rename_i f stream hnb
        simp [hnb]
      · rename_i stream hnb
        simp [SwStream.readNb_of_nil (SwStream.readNb_eq_none hnb)]
    · simp
  · unfold bodyStep
    simp only [*]
    split <;> simp [runRecorded]
  · simp [*]
  · rename_i q rest hpc
    simp only [hpc]
    unfold writePort
    split
    · split
      · rename_i stream hnb
        simp [hnb]
      · rename_i stream hnb
        have hsame := SwStream.writeNb_eq_false hnb
        subst hsame
        simp [hnb]
    · simp

attribute [ext] KernelState

/-- **A thread sees its own step as a step of its function.** -/
theorem kernelOf_threadStep_self (h : OwnStreams W i) :
    kernelOf W (threadStep W K s i) i = kernelStep (K i) (kernelOf W s i) := by
  obtain ⟨hins, houts, harrived, hconsumed⟩ := streams_kernelStep (K i) (kernelOf W s i)
  have hop : streamOp (kernelOf W s i).locals (kernelOf W s i).pc
      = streamOp (s.threads i).locals (s.threads i).pc := rfl
  rw [hop] at hins houts
  -- the streams of the thread after the operation, by port
  have hstreams : (kernelOf W (applyStreamOp W i s
        (streamOp (s.threads i).locals (s.threads i).pc)) i).ins
        = (kernelStep (K i) (kernelOf W s i)).ins ∧
      (kernelOf W (applyStreamOp W i s
        (streamOp (s.threads i).locals (s.threads i).pc)) i).outs
        = (kernelStep (K i) (kernelOf W s i)).outs ∧
      (kernelOf W (applyStreamOp W i s
        (streamOp (s.threads i).locals (s.threads i).pc)) i).arrived = (kernelOf W s i).arrived ∧
      (kernelOf W (applyStreamOp W i s
        (streamOp (s.threads i).locals (s.threads i).pc)) i).consumed
        = (kernelOf W s i).consumed := by
    rw [hins, houts]
    cases streamOp (s.threads i).locals (s.threads i).pc with
    | none => exact ⟨rfl, rfl, rfl, rfl⟩
    | some op =>
      cases op with
      | read p =>
        refine ⟨?_, ?_, ?_, ?_⟩
        · exact update_port (fun q => h.inOf_inj q p) s.streams _
        · exact update_elsewhere (fun q => (h.no_loop p q).symm) s.streams _
        · exact funext fun q => written_readStream _ _
        · exact update_elsewhere (fun q => (h.no_loop p q).symm) s.readOut _
      | write p f =>
        refine ⟨?_, ?_, ?_, rfl⟩
        · exact update_elsewhere (fun q => h.no_loop q p) s.streams _
        · exact update_port (fun q => h.outOf_inj q p) s.streams _
        · funext q
          show s.readOut _ ++ (Function.update s.streams _ _ (W.inOf i q)).q = _
          rw [Function.update_of_ne (h.no_loop q p)]
          rfl
  obtain ⟨hins', houts', harrived', hconsumed'⟩ := hstreams
  refine KernelState.ext ?_ ?_ hins' houts' ?_ ?_ ?_ ?_ ?_ ?_
  · simp [kernelOf, threadStep]
  · simp [kernelOf, threadStep]
  · simp [kernelOf, threadStep]
  · simp [kernelOf, threadStep]
  · rw [harrived, ← harrived']
    rfl
  · simp [kernelOf, threadStep]
  · simp [kernelOf, threadStep]
  · rw [hconsumed, ← hconsumed']
    rfl

/-- An act of a producer or a consumer. -/
def IsOutside : KernelAction α → Prop
  | .produce _ _ => True
  | .consume _ => True
  | _ => False

/-- **A thread sees a step of another as an act of a producer or a consumer, or not at all.** -/
theorem kernelOf_threadStep_other (h : OwnStreams W i) {j : ι} (hj : j ≠ i) :
    kernelOf W (threadStep W K s j) i = kernelOf W s i ∨
      ∃ b, IsOutside b ∧
        kstep (K i) (kernelOf W s i) b = some (kernelOf W (threadStep W K s j) i) := by
  -- only the stream operation of the other thread can be seen
  have hsame : kernelOf W (threadStep W K s j) i
      = kernelOf W (applyStreamOp W j s (streamOp (s.threads j).locals (s.threads j).pc)) i := by
    have hthread : (applyStreamOp W j s (streamOp (s.threads j).locals (s.threads j).pc)).threads i
        = s.threads i ∧
      (applyStreamOp W j s (streamOp (s.threads j).locals (s.threads j).pc)).requests
        = s.requests ∧
      (applyStreamOp W j s (streamOp (s.threads j).locals (s.threads j).pc)).responses
        = s.responses := by
      cases streamOp (s.threads j).locals (s.threads j).pc with
      | none => exact ⟨rfl, rfl, rfl⟩
      | some op => cases op <;> exact ⟨rfl, rfl, rfl⟩
    obtain ⟨hi, hreq, hresp⟩ := hthread
    have hchan : W.chanOf i ≠ W.chanOf j := fun hc => hj (h.chan j hc.symm)
    refine KernelState.ext ?_ ?_ rfl rfl ?_ ?_ rfl ?_ ?_ rfl
    all_goals simp [kernelOf, threadStep, Function.update_of_ne (Ne.symm hj),
      Function.update_of_ne hchan, hi, hreq, hresp]
  rw [hsame]
  cases streamOp (s.threads j).locals (s.threads j).pc with
  | none => exact Or.inl rfl
  | some op =>
    cases op with
    | read p =>
      rcases kernelOf_readStream (s := s) h (k := W.inOf j p)
        (fun q hq => hj (h.reader j p q hq.symm)) with heq | ⟨q, heq⟩
      · exact Or.inl heq
      · exact Or.inr ⟨.consume q, trivial, congrArg some heq.symm⟩
    | write p f =>
      rcases kernelOf_writeStream (s := s) h (k := W.outOf j p)
        (fun q hq => hj (h.writer j p q hq.symm)) f with heq | ⟨q, -, heq⟩
      · exact Or.inl heq
      · exact Or.inr ⟨.produce q f, trivial, congrArg some heq.symm⟩

/-! ## Runs -/

/-- **What a step of the network is to a thread.** -/
theorem kernelOf_step (h : OwnStreams W i) {a : NetAction ι κ γ α} (ha : OtherEnds W i a)
    (hs : nstep W K s a = some t) :
    kernelOf W t i = kernelOf W s i ∨
      ∃ b, kstep (K i) (kernelOf W s i) b = some (kernelOf W t i) ∧
        (b = .kernel ∧ a = .thread i ∨ IsOutside b ∨
          ∃ req, b = .post req ∧ a = .post (W.chanOf i) req) := by
  cases a with
  | thread j =>
    cases hs
    by_cases hj : j = i
    · subst hj
      exact Or.inr ⟨.kernel, congrArg some (kernelOf_threadStep_self h).symm, Or.inl ⟨rfl, rfl⟩⟩
    · rcases kernelOf_threadStep_other (K := K) (s := s) h hj with heq | ⟨b, hb, hstep⟩
      · exact Or.inl heq
      · exact Or.inr ⟨b, hstep, Or.inr (Or.inl hb)⟩
  | inject k f =>
    cases hs
    rcases kernelOf_writeStream (s := s) h (fun p hp => ha p hp.symm) f with heq | ⟨q, -, heq⟩
    · exact Or.inl heq
    · exact Or.inr ⟨.produce q f, congrArg some heq.symm, Or.inr (Or.inl trivial)⟩
  | observe k =>
    cases hs
    rcases kernelOf_readStream (s := s) h (fun p hp => ha p hp.symm) with heq | ⟨q, heq⟩
    · exact Or.inl heq
    · exact Or.inr ⟨.consume q, congrArg some heq.symm, Or.inr (Or.inl trivial)⟩
  | post c req =>
    cases hs
    by_cases hc : W.chanOf i = c
    · subst hc
      refine Or.inr ⟨.post req, ?_, Or.inr (Or.inr ⟨req, rfl, rfl⟩)⟩
      simp [kernelOf, kstep, NetState.written]
    · refine Or.inl ?_
      simp [kernelOf, NetState.written, Function.update_of_ne hc]

/-- **A run of the network is a run of each of its threads.** What `ok` asks of the steps of the
network gives what `ok'` asks of the steps of the thread; producers and consumers are asked
nothing. -/
theorem reaches_kernelOf {ok : NetState ι κ γ σ α → NetAction ι κ γ α → Prop}
    {ok' : KernelState (σ i) α → KernelAction α → Prop} (h : OwnStreams W i)
    (hends : ∀ s a, ok s a → OtherEnds W i a)
    (hown : ∀ s, ok s (.thread i) → ok' (kernelOf W s i) .kernel)
    (hposts : ∀ s ks req, ok s (.post (W.chanOf i) req) → ok' ks (.post req))
    (hothers : ∀ ks b, IsOutside b → ok' ks b) (hrun : Reaches (nstep W K) ok s t) :
    Reaches (kstep (K i)) ok' (kernelOf W s i) (kernelOf W t i) := by
  induction hrun with
  | refl => exact .refl
  | tail _ a hok hs ih =>
    rcases kernelOf_step h (hends _ a hok) hs with heq | ⟨b, hstep, hb⟩
    · rw [heq]
      exact ih
    · refine ih.tail b ?_ hstep
      rcases hb with ⟨rfl, rfl⟩ | hb | ⟨req, rfl, rfl⟩
      · exact hown _ hok
      · exact hothers _ b hb
      · exact hposts _ _ req hok

end

/-! ## Networks with an input and an output -/

/-- Every thread has its streams to itself, no thread writes the input and none reads the
output. -/
structure Ends {ι κ γ : Type} (W : Wiring ι κ γ) (input output : κ) : Prop where
  own : ∀ i, OwnStreams W i
  input : ∀ i p, W.outOf i p ≠ input
  output : ∀ i p, W.inOf i p ≠ output

/-- No signal is posted, and the writes of a kernel find room. -/
def Smooth {σ α : Type} (s : KernelState σ α) (a : KernelAction α) : Prop :=
  (∀ p, FindsRoom p s a) ∧ ∀ req, a ≠ .post req

section
variable {ι κ γ α : Type} {σ : ι → Type}

/-- The world outside writes the input and reads the output, and posts no signal; the writes of
the threads find room. -/
def Flowing (W : Wiring ι κ γ) (input output : κ) (s : NetState ι κ γ σ α) :
    NetAction ι κ γ α → Prop
  | .thread i => WriteFindsRoom (kernelOf W s i)
  | .inject k _ => k = input
  | .observe k => k = output
  | .post _ _ => False

instance [DecidableEq κ] (W : Wiring ι κ γ) (input output : κ) (s : NetState ι κ γ σ α) :
    ∀ a, Decidable (Flowing W input output s a)
  | .thread i => inferInstanceAs (Decidable (WriteFindsRoom (kernelOf W s i)))
  | .inject k _ => inferInstanceAs (Decidable (k = input))
  | .observe k => inferInstanceAs (Decidable (k = output))
  | .post _ _ => isFalse not_false

variable [DecidableEq ι] [DecidableEq κ] [DecidableEq γ]
variable {W : Wiring ι κ γ} {K : ∀ i, KernelFn (σ i) α} {s t : NetState ι κ γ σ α} {i : ι}
variable {input output : κ} {ok : NetState ι κ γ σ α → NetAction ι κ γ α → Prop}

/-- The part of a run that one thread sees, with what else is asked of the thread's steps. -/
theorem stage_run_with (hW : Ends W input output)
    {e : KernelState (σ i) α → KernelAction α → Prop}
    (hok : ∀ s a, ok s a → Flowing W input output s a)
    (hextra : ∀ s, ok s (.thread i) → e (kernelOf W s i) .kernel)
    (hothers : ∀ ks b, IsOutside b → e ks b) (hrun : Reaches (nstep W K) ok s t) :
    Reaches (kstep (K i)) (fun s a => Smooth s a ∧ e s a) (kernelOf W s i)
      (kernelOf W t i) := by
  refine reaches_kernelOf (hW.own i) (fun s a h => ?_)
    (fun s h => ⟨⟨findsRoom_of_write (hok s _ h), nofun⟩, hextra s h⟩)
    (fun s ks req h => absurd (hok s _ h) not_false) (fun ks b hb => ⟨?_, hothers ks b hb⟩) hrun
  · have hends := hok s a h
    cases a with
    | thread j => trivial
    | inject k f =>
      intro p hp
      exact hW.input i p (hp.symm.trans hends)
    | observe k =>
      intro p hp
      exact hW.output i p (hp.symm.trans hends)
    | post c req => trivial
  · cases b with
    | produce p f => exact ⟨fun _ => trivial, nofun⟩
    | consume p => exact ⟨fun _ => trivial, nofun⟩
    | kernel => cases hb
    | post req => cases hb

theorem stage_run (hW : Ends W input output) (hok : ∀ s a, ok s a → Flowing W input output s a)
    (hrun : Reaches (nstep W K) ok s t) (i : ι) :
    Reaches (kstep (K i)) Smooth (kernelOf W s i) (kernelOf W t i) :=
  (stage_run_with (e := fun _ _ => True) hW hok (fun _ _ => trivial) (fun _ _ _ => trivial)
    hrun).mono fun _ _ h => h.1

end

/-! ## Point-to-point wirings -/

section
variable {ι : Type}

/-- The wiring in which the stream of an input port is named after the port, `next` gives the
input port that an output port is connected to, and every thread has a signal channel of its
own. -/
def pointToPoint (next : ι → Nat → Option (ι × Nat)) :
    Wiring ι ((ι × Nat) ⊕ (ι × Nat)) ι where
  inOf := fun i p => .inl (i, p)
  outOf := fun i p =>
    match next i p with
    | some q => .inl q
    | none => .inr (i, p)
  chanOf := id

/-- When no two output ports are connected to one input port and no thread to itself, every
thread has its streams to itself. -/
theorem ownStreams_pointToPoint {next : ι → Nat → Option (ι × Nat)}
    (hinj : ∀ i p j q r, next i p = some r → next j q = some r → i = j ∧ p = q)
    (hloop : ∀ i p q, next i p ≠ some (i, q)) (i : ι) : OwnStreams (pointToPoint next) i where
  inOf_inj := by
    intro p q h
    simpa [pointToPoint] using h
  outOf_inj := by
    intro p q h
    simp only [pointToPoint] at h
    cases hp : next i p with
    | some r =>
      cases hq : next i q with
      | some r' =>
        rw [hp, hq] at h
        cases h
        exact (hinj i p i q r hp hq).2
      | none => simp [hp, hq] at h
    | none =>
      cases hq : next i q with
      | some r' => simp [hp, hq] at h
      | none => simpa [hp, hq] using h
  no_loop := by
    intro p q h
    simp only [pointToPoint] at h
    cases hq : next i q with
    | some r =>
      rw [hq] at h
      cases h
      exact hloop i q p hq
    | none => simp [hq] at h
  reader := by
    intro j p q h
    simp only [pointToPoint, Sum.inl.injEq, Prod.mk.injEq] at h
    exact h.1
  writer := by
    intro j p q h
    simp only [pointToPoint] at h
    cases hp : next j p with
    | some r =>
      cases hq : next i q with
      | some r' =>
        rw [hp, hq] at h
        cases h
        exact (hinj j p i q r hp hq).1
      | none => simp [hp, hq] at h
    | none =>
      cases hq : next i q with
      | some r' => simp [hp, hq] at h
      | none =>
        simp [hp, hq] at h
        exact h.1
  chan := fun _ h => h

/-- The input of a port that nothing is connected to, and the output of a port that is connected
to nothing. -/
theorem ends_pointToPoint {next : ι → Nat → Option (ι × Nat)} {i j : ι} {p q : Nat}
    (hown : ∀ i, OwnStreams (pointToPoint next) i) (hin : ∀ k r, next k r ≠ some (i, p)) :
    Ends (pointToPoint next) (.inl (i, p)) (.inr (j, q)) where
  own := hown
  input := by
    intro k r h
    simp only [pointToPoint] at h
    cases hr : next k r with
    | some x =>
      rw [hr] at h
      cases h
      exact hin k r hr
    | none => simp [hr] at h
  output := by
    intro k r h
    cases h

end

end OpenClickNP
