import OpenClickNP.Backend.Lossless

/-!
# The kernel module of the SystemC backend

`emitKernelModule` wraps the same handler in another loop: it waits for a cycle, latches the
inputs, runs the handler and writes the outputs with the blocking `write`. It declares
`_output_failed` and `_output_success` and never sets them.

Run beside the kernel function of the emulator, under one schedule of iterations, producers and
consumers, the two differ as soon as an iteration leaves an output to write (`agree_iff`).
-/

namespace OpenClickNP

open Run

/-! ## `sc_fifo` -/

/-- `sc_fifo<T>`: a bounded FIFO. -/
abbrev ScFifo (α : Type) := SwStream α

namespace ScFifo

variable {α : Type}

/-- `num_available()`. -/
def numAvailable (f : ScFifo α) : Nat := f.q.length

/-- `read()`, which waits until there is something to read. -/
def read (f : ScFifo α) : Option α × ScFifo α := f.readNb

/-- `write(v)`, which waits while there is no room: then the first component is `false`. -/
def write (f : ScFifo α) (v : α) : Bool × ScFifo α := f.writeNb v

end ScFifo

/-! ## The module -/

/-- The module with its ports. The local variables of `run` are those of the emulator's function
without the ones for signals. The thread waits for the next cycle, or in a `write`: then `pending`
has the ports that the iteration has left to write. -/
structure ScState (σ α : Type) where
  locals : Locals σ α
  pending : List Nat := []
  ins : Nat → ScFifo α
  outs : Nat → ScFifo α
  consumed : Nat → List α := fun _ => []

section
variable {σ α : Type}

/-- `if ((_ret & PORT_BIT(q)) && in_q.num_available() > 0 && !(_input_port & PORT_BIT(q)))`, for
the port `q`. -/
def scReadPort (s : ScState σ α) (q : Nat) : ScState σ α :=
  if testPort s.locals.ret q && decide ((s.ins q).numAvailable > 0)
      && !testPort s.locals.inputPort q then
    match (s.ins q).read with
    | (some f, fifo) =>
      { s with
        ins := Function.update s.ins q fifo
        locals := { s.locals with
          inputData := fun i => if i = q then f else s.locals.inputData i
          inputPort := s.locals.inputPort ||| PORT_BIT q } }
    -- never taken: something is available
    | (none, _) => s
  else s

/-- The writes of an iteration, up to one that has to wait. -/
def scWritePorts (s : ScState σ α) : List Nat → ScState σ α
  | [] => { s with pending := [] }
  | q :: rest =>
    if testPort s.locals.outputPort q then
      match (s.outs q).write (s.locals.outputData q) with
      | (true, fifo) => scWritePorts { s with outs := Function.update s.outs q fifo } rest
      | (false, _) => { s with pending := q :: rest }
    else scWritePorts s rest

variable (K : KernelFn σ α)

/-- `_output_port = 0` and the handler. -/
def scHandler (s : ScState σ α) : ScState σ α :=
  { s with locals := runBody s.locals (K.handler (viewOf s.locals)) }

/-- The thread goes on until the next `wait(1, SC_NS)`, or until a `write` has to wait. -/
def scIteration (s : ScState σ α) : ScState σ α :=
  match s.pending with
  -- behind `wait(1, SC_NS)`
  | [] => scWritePorts (scHandler K (K.inPorts.foldl scReadPort s)) K.outPorts
  -- the thread still stands in the `write` to `q`
  | q :: rest => scWritePorts s (q :: rest)

def scProduce (s : ScState σ α) (p : Nat) (f : α) : ScState σ α :=
  match (s.ins p).write f with
  | (true, fifo) => { s with ins := Function.update s.ins p fifo }
  | (false, _) => s

def scConsume (s : ScState σ α) (p : Nat) : ScState σ α :=
  match (s.outs p).read with
  | (some f, fifo) =>
    { s with
      outs := Function.update s.outs p fifo
      consumed := Function.update s.consumed p (s.consumed p ++ [f]) }
  | (none, _) => s

def scInit [Inhabited α] (state : σ) (inCap outCap : Nat → Int) : ScState σ α where
  locals := { state := state, inputData := fun _ => default, outputData := fun _ => default }
  ins := fun p => SwStream.ofCapacity (inCap p)
  outs := fun p => SwStream.ofCapacity (outCap p)

/-- What has been written to output `p`. -/
def scEmitted (p : Nat) (s : ScState σ α) : List α := s.consumed p ++ (s.outs p).q

/-! ## The two kernels side by side -/

/-- An iteration of the emulator's function that receives no signal, from the head of the loop
to the head of the loop. -/
def swIteration (s : KernelState σ α) : KernelState σ α :=
  -- besides the ports: the head, the end of the reads, the body and the end of the writes
  (kernelStep K)^[K.inPorts.length + K.outPorts.length + 4] s

/-- A schedule is made of these; each is for both kernels. -/
inductive ScheduleAction (α : Type) where
  | iteration
  | produce (p : Nat) (f : α)
  | consume (p : Nat)

def kernelsStep (x : KernelState σ α × ScState σ α) :
    ScheduleAction α → Option (KernelState σ α × ScState σ α)
  | .iteration => some (swIteration K x.1, scIteration K x.2)
  | .produce p f => some (produceStep x.1 p f, scProduce x.2 p f)
  | .consume p => some (consumeStep x.1 p, scConsume x.2 p)

/-- Both have written the same to every output, and the next handler call sees the same
`last_output_failed` and `last_output_success`. -/
def Agree (x : KernelState σ α × ScState σ α) : Prop :=
  (∀ p, emitted p x.1 = scEmitted p x.2) ∧
    x.1.locals.outputFailed = x.2.locals.outputFailed ∧
    x.1.locals.outputSuccess = x.2.locals.outputSuccess

/-- The variables with which the handler of the next iteration ends. -/
def afterHandler (s : KernelState σ α) : Locals σ α :=
  let l := (K.inPorts.foldl readPort s).locals
  runBody l (K.handler (viewOf l))

/-- An iteration leaves no output to write. -/
def Silent (x : KernelState σ α × ScState σ α) : ScheduleAction α → Prop
  | .iteration => ∀ q ∈ K.outPorts, testPort (afterHandler K x.1).outputPort q = false
  | _ => True

/-! ## The iteration of the emulator's function -/

variable {K} {s : KernelState σ α}

theorem readPort_pc (s : KernelState σ α) (pc : LoopPc) (q : Nat) :
    readPort { s with pc := pc } q = { readPort s q with pc := pc } := by
  unfold readPort
  simp only []
  split
  · split <;> rfl
  · rfl

theorem writePort_pc (s : KernelState σ α) (pc : LoopPc) (q : Nat) :
    writePort { s with pc := pc } q = { writePort s q with pc := pc } := by
  unfold writePort
  simp only []
  split
  · split <;> rfl
  · rfl

/-- Induction on the ports left to read. -/
theorem iterate_readIn (l : List Nat) (s : KernelState σ α) :
    (kernelStep K)^[l.length] { s with pc := .readIn l }
      = { l.foldl readPort s with pc := .readIn [] } := by
  induction l generalizing s with
  | nil => rfl
  | cons q l ih =>
    have hstep : kernelStep K { s with pc := .readIn (q :: l) }
        = { readPort s q with pc := .readIn l } := by
      show { readPort { s with pc := .readIn (q :: l) } q with pc := .readIn l } = _
      rw [readPort_pc]
    rw [List.length_cons, Function.iterate_succ_apply, hstep, ih, List.foldl_cons]

theorem iterate_writeOut (l : List Nat) (s : KernelState σ α) :
    (kernelStep K)^[l.length] { s with pc := .writeOut l }
      = { l.foldl writePort s with pc := .writeOut [] } := by
  induction l generalizing s with
  | nil => rfl
  | cons q l ih =>
    have hstep : kernelStep K { s with pc := .writeOut (q :: l) }
        = { writePort s q with pc := .writeOut l } := by
      show { writePort { s with pc := .writeOut (q :: l) } q with pc := .writeOut l } = _
      rw [writePort_pc]
    rw [List.length_cons, Function.iterate_succ_apply, hstep, ih, List.foldl_cons]

/-- The state in which the handler of the iteration starts. -/
def afterReads (K : KernelFn σ α) (s : KernelState σ α) : KernelState σ α :=
  { K.inPorts.foldl readPort s with pc := .body }

/-- Without a signal, an iteration is the reads, the handler and the writes. -/
theorem swIteration_eq (hpc : s.pc = .head) (hreq : s.requests = [])
    (hbody : (afterReads K s).locals.hasSignal = false) :
    swIteration K s
      = { K.outPorts.foldl writePort (bodyStep K (afterReads K s)) with pc := .head } := by
  have hhead : kernelStep K s = { s with pc := .readIn K.inPorts } := by
    rw [kernelStep, hpc]
    show recvStep K s = _
    unfold recvStep
    rw [hreq]
    split <;> rfl
  have hread : kernelStep K { K.inPorts.foldl readPort s with pc := .readIn [] }
      = afterReads K s := rfl
  have hrun : kernelStep K (afterReads K s) = bodyStep K (afterReads K s) := rfl
  have hwrites : bodyStep K (afterReads K s)
      = { bodyStep K (afterReads K s) with pc := .writeOut K.outPorts } := by
    unfold bodyStep
    simp only []
    rw [if_neg (by rw [hbody]; exact Bool.false_ne_true)]
  -- the steps in the order in which they are taken
  have hcount : K.inPorts.length + K.outPorts.length + 4
      = 1 + (K.outPorts.length + (1 + (1 + (K.inPorts.length + 1)))) := by omega
  rw [swIteration, hcount, Function.iterate_add_apply, Function.iterate_add_apply,
    Function.iterate_add_apply, Function.iterate_add_apply, Function.iterate_add_apply]
  simp only [Function.iterate_one]
  rw [hhead, iterate_readIn, hread, hrun, hwrites, iterate_writeOut, ← hwrites]
  rfl

/-! ## Where the two kernels stand alike -/

/-- The same variables, and the same streams. -/
structure SameVars (s : KernelState σ α) (c : ScState σ α) : Prop where
  locals : s.locals = c.locals
  ins : s.ins = c.ins
  outs : s.outs = c.outs
  consumed : s.consumed = c.consumed

variable {c : ScState σ α}

/-- The two read a port alike. -/
theorem SameVars.read (h : SameVars s c) (q : Nat) : SameVars (readPort s q) (scReadPort c q) := by
  cases hnb : (s.ins q).readNb with
  | mk o fifo =>
    have hsc : ScFifo.read (c.ins q) = (o, fifo) := by rw [← h.ins]; exact hnb
    cases o with
    | none =>
      have hs : readPort s q = s := by
        unfold readPort
        rw [hnb]
        split <;> rfl
      have hc : scReadPort c q = c := by
        unfold scReadPort
        rw [hsc]
        split <;> rfl
      rw [hs, hc]
      exact h
    | some f =>
      -- the check of `num_available` is passed whenever the read succeeds
      have havail : decide (ScFifo.numAvailable (c.ins q) > 0) = true := by
        have hq := SwStream.readNb_eq_some hnb
        rw [← h.ins, ScFifo.numAvailable, hq]
        simp
      unfold readPort scReadPort
      rw [hnb, hsc, havail, Bool.and_true, ← h.locals, ← h.ins]
      split
      · exact ⟨rfl, rfl, h.outs, h.consumed⟩
      · exact h

theorem SameVars.reads (h : SameVars s c) (l : List Nat) :
    SameVars (l.foldl readPort s) (l.foldl scReadPort c) := by
  induction l generalizing s c with
  | nil => exact h
  | cons q l ih => exact ih (h.read q)

/-- What reads leave alone in the emulator's function. -/
structure ReadFrame (s t : KernelState σ α) : Prop where
  requests : t.requests = s.requests
  hasSignal : t.locals.hasSignal = s.locals.hasSignal

theorem readFrame_reads (l : List Nat) (s : KernelState σ α) :
    ReadFrame s (l.foldl readPort s) := by
  induction l generalizing s with
  | nil => exact ⟨rfl, rfl⟩
  | cons q l ih =>
    have hone : ReadFrame s (readPort s q) := by
      unfold readPort
      split
      · split <;> exact ⟨rfl, rfl⟩
      · exact ⟨rfl, rfl⟩
    have hrest := ih (readPort s q)
    exact ⟨hrest.requests.trans hone.requests, hrest.hasSignal.trans hone.hasSignal⟩

/-- What reads leave alone in the module. -/
theorem scReads_frame (l : List Nat) (c : ScState σ α) :
    (l.foldl scReadPort c).locals.outputFailed = c.locals.outputFailed ∧
      (l.foldl scReadPort c).locals.outputSuccess = c.locals.outputSuccess := by
  induction l generalizing c with
  | nil => exact ⟨rfl, rfl⟩
  | cons q l ih =>
    have hone : (scReadPort c q).locals.outputFailed = c.locals.outputFailed ∧
        (scReadPort c q).locals.outputSuccess = c.locals.outputSuccess := by
      unfold scReadPort
      split
      · split <;> exact ⟨rfl, rfl⟩
      · exact ⟨rfl, rfl⟩
    have hrest := ih (scReadPort c q)
    exact ⟨hrest.1.trans hone.1, hrest.2.trans hone.2⟩

/-- Between two iterations, nothing ever having been written, the two are in the same state. -/
structure Abreast (x : KernelState σ α × ScState σ α) : Prop where
  same : SameVars x.1 x.2
  pc : x.1.pc = .head
  requests : x.1.requests = []
  hasSignal : x.1.locals.hasSignal = false
  pending : x.2.pending = []
  failed : x.2.locals.outputFailed = 0
  success : x.2.locals.outputSuccess = 0

theorem Abreast.agree {x : KernelState σ α × ScState σ α} (h : Abreast x) : Agree x := by
  refine ⟨fun p => ?_, congrArg _ h.same.locals, congrArg _ h.same.locals⟩
  rw [emitted, scEmitted, h.same.consumed, h.same.outs]

/-- The body on both sides, up to the emulator's reset of its two masks. -/
theorem SameVars.body (h : SameVars s c) (hsig : s.locals.hasSignal = false) :
    (bodyStep K s).locals
        = { (scHandler K c).locals with outputFailed := 0, outputSuccess := 0 } ∧
      (bodyStep K s).ins = (scHandler K c).ins ∧ (bodyStep K s).outs = (scHandler K c).outs ∧
      (bodyStep K s).consumed = (scHandler K c).consumed ∧
      (bodyStep K s).requests = s.requests := by
  have hresult : bodyResult K s.locals = K.handler (viewOf s.locals) :=
    if_neg (by rw [hsig]; exact Bool.false_ne_true)
  unfold bodyStep scHandler
  simp only []
  rw [if_neg (by rw [hsig]; exact Bool.false_ne_true), hresult, ← h.locals]
  exact ⟨rfl, h.ins, h.outs, h.consumed, rfl⟩

/-! ## The writes -/

theorem masks_applyOps (ops : List (PortOp α)) (l : Locals σ α) :
    (ops.foldl applyOp l).outputFailed = l.outputFailed ∧
      (ops.foldl applyOp l).outputSuccess = l.outputSuccess := by
  induction ops generalizing l with
  | nil => exact ⟨rfl, rfl⟩
  | cons op ops ih =>
    rw [List.foldl_cons, (ih _).1, (ih _).2]
    cases op <;> exact ⟨rfl, rfl⟩

/-- The module's writes change no variable. -/
theorem locals_scWritePorts (l : List Nat) (c : ScState σ α) :
    (scWritePorts c l).locals = c.locals := by
  induction l generalizing c with
  | nil => rfl
  | cons q l ih =>
    unfold scWritePorts
    split
    · split
      · rw [ih]
      · rfl
    · exact ih c

/-- Nor do its reads and its handler change the masks. -/
theorem masks_scHandler (c : ScState σ α) :
    (scHandler K (K.inPorts.foldl scReadPort c)).locals.outputFailed = c.locals.outputFailed ∧
      (scHandler K (K.inPorts.foldl scReadPort c)).locals.outputSuccess
        = c.locals.outputSuccess := by
  have hreads := scReads_frame K.inPorts c
  have hbody := masks_applyOps (K.handler (viewOf (K.inPorts.foldl scReadPort c).locals)).ops
    { (K.inPorts.foldl scReadPort c).locals with outputPort := 0 }
  exact ⟨hbody.1.trans hreads.1, hbody.2.trans hreads.2⟩

/-- The ports whose bit is in one of the emulator's two masks. -/
def reported (s : KernelState σ α) (q : Nat) : Bool :=
  testPort s.locals.outputFailed q || testPort s.locals.outputSuccess q

/-- A write is reported, and what was reported stays so. -/
theorem reported_writePort (q p : Nat)
    (h : reported s p = true ∨ p = q ∧ testPort s.locals.outputPort p = true) :
    reported (writePort s q) p = true := by
  have hkeep : ∀ m m' : PortMask, testPort m p = true → testPort (m ||| m') p = true := by
    intro m m' hm
    rw [testPort_or, hm, Bool.true_or]
  -- the bit of the port just written
  have hset : ∀ m : PortMask, p = q ∧ testPort s.locals.outputPort p = true →
      testPort (m ||| PORT_BIT q) p = true := by
    rintro m ⟨rfl, hbit⟩
    rw [testPort_or_PORT_BIT (lt_of_testPort hbit), decide_eq_true rfl, Bool.or_true]
  unfold reported at h ⊢
  rw [Bool.or_eq_true] at h ⊢
  unfold writePort
  split
  · split
    · rcases h with (hf | hs) | hbit
      · exact Or.inl hf
      · exact Or.inr (hkeep _ _ hs)
      · exact Or.inr (hset _ hbit)
    · rcases h with (hf | hs) | hbit
      · exact Or.inl (hkeep _ _ hf)
      · exact Or.inr hs
      · exact Or.inl (hset _ hbit)
  · rename_i hclear
    rcases h with h | ⟨rfl, hbit⟩
    · exact h
    · exact absurd hbit hclear

theorem outputPort_writePort (q : Nat) :
    (writePort s q).locals.outputPort = s.locals.outputPort := by
  unfold writePort
  split
  · split <;> rfl
  · rfl

/-- Every port with a bit is reported in the end. -/
theorem reported_writes {l : List Nat} {p : Nat}
    (h : reported s p = true ∨ p ∈ l ∧ testPort s.locals.outputPort p = true) :
    reported (l.foldl writePort s) p = true := by
  induction l generalizing s with
  | nil =>
    rcases h with h | ⟨hmem, -⟩
    · exact h
    · cases hmem
  | cons q l ih =>
    rw [List.foldl_cons]
    -- `q` is reported now, and the writes that follow keep it so
    apply ih
    rcases h with h | ⟨hmem, hbit⟩
    · exact Or.inl (reported_writePort q p (Or.inl h))
    · rcases List.mem_cons.mp hmem with rfl | hrest
      · exact Or.inl (reported_writePort p p (Or.inr ⟨rfl, hbit⟩))
      · exact Or.inr ⟨hrest, by rw [outputPort_writePort, hbit]⟩

/-! ## A silent iteration -/

/-- Ports without a bit are not written. -/
theorem writes_of_silent {l : List Nat}
    (h : ∀ q ∈ l, testPort s.locals.outputPort q = false) : l.foldl writePort s = s := by
  induction l with
  | nil => rfl
  | cons q l ih =>
    have hq : writePort s q = s := by
      rw [writePort, if_neg (by rw [h q List.mem_cons_self]; exact Bool.false_ne_true)]
    rw [List.foldl_cons, hq]
    exact ih fun q' hq' => h q' (List.mem_cons_of_mem _ hq')

theorem scWrites_of_silent {l : List Nat}
    (h : ∀ q ∈ l, testPort c.locals.outputPort q = false) :
    scWritePorts c l = { c with pending := [] } := by
  induction l with
  | nil => rfl
  | cons q l ih =>
    rw [scWritePorts, if_neg (by rw [h q List.mem_cons_self]; exact Bool.false_ne_true)]
    exact ih fun q' hq' => h q' (List.mem_cons_of_mem _ hq')

/-- The handler ends alike on both sides. -/
theorem Abreast.afterHandler_eq {x : KernelState σ α × ScState σ α} (h : Abreast x) :
    afterHandler K x.1 = (scHandler K (K.inPorts.foldl scReadPort x.2)).locals := by
  rw [afterHandler, scHandler, (h.same.reads K.inPorts).locals]

/-- The emulator's iteration from there. -/
theorem Abreast.swIteration_eq {x : KernelState σ α × ScState σ α} (h : Abreast x) :
    swIteration K x.1
      = { K.outPorts.foldl writePort (bodyStep K (afterReads K x.1)) with pc := .head } ∧
    (bodyStep K (afterReads K x.1)).locals
      = { afterHandler K x.1 with outputFailed := 0, outputSuccess := 0 } := by
  have hsig : (afterReads K x.1).locals.hasSignal = false :=
    (readFrame_reads K.inPorts x.1).hasSignal.trans h.hasSignal
  have hreads := h.same.reads K.inPorts
  have hsame : SameVars (afterReads K x.1) (K.inPorts.foldl scReadPort x.2) :=
    ⟨hreads.locals, hreads.ins, hreads.outs, hreads.consumed⟩
  rw [h.afterHandler_eq]
  exact ⟨OpenClickNP.swIteration_eq h.pc h.requests hsig, (hsame.body hsig).1⟩

theorem locals_reset {l : Locals σ α} (hf : l.outputFailed = 0) (hs : l.outputSuccess = 0) :
    { l with outputFailed := 0, outputSuccess := 0 } = l := by
  cases l
  cases hf
  cases hs
  rfl

/-- A silent iteration leaves the two abreast. -/
theorem Abreast.iteration {x : KernelState σ α × ScState σ α} (h : Abreast x)
    (hsilent : Silent K x .iteration) :
    Abreast (swIteration K x.1, scIteration K x.2) := by
  obtain ⟨s, c⟩ := x
  have hframe := readFrame_reads K.inPorts s
  have hsig : (afterReads K s).locals.hasSignal = false := hframe.hasSignal.trans h.hasSignal
  have hreads := h.same.reads K.inPorts
  have hsame : SameVars (afterReads K s) (K.inPorts.foldl scReadPort c) :=
    ⟨hreads.locals, hreads.ins, hreads.outs, hreads.consumed⟩
  obtain ⟨-, hins, houts, hconsumed, hreq⟩ := hsame.body (K := K) hsig
  obtain ⟨hsw, hbody⟩ := h.swIteration_eq (K := K)
  have hmasks := masks_scHandler (K := K) c
  have hlocals : (bodyStep K (afterReads K s)).locals
      = (scHandler K (K.inPorts.foldl scReadPort c)).locals := by
    rw [hbody, h.afterHandler_eq]
    exact locals_reset (hmasks.1.trans h.failed) (hmasks.2.trans h.success)
  -- no bit is set, so neither side writes
  have hbits : ∀ q ∈ K.outPorts,
      testPort (scHandler K (K.inPorts.foldl scReadPort c)).locals.outputPort q = false := by
    intro q hq
    rw [← h.afterHandler_eq (K := K)]
    exact hsilent q hq
  have hsc : scIteration K c
      = { scHandler K (K.inPorts.foldl scReadPort c) with pending := [] } := by
    rw [scIteration, h.pending]
    exact scWrites_of_silent hbits
  have hswrites := writes_of_silent (l := K.outPorts) (s := bodyStep K (afterReads K s))
    fun q hq => by rw [hlocals]; exact hbits q hq
  rw [hsw, hsc, hswrites]
  have hsig' : (bodyStep K (afterReads K s)).locals.hasSignal = false := by
    rw [hbody]
    exact (hasSignal_applyOps _ _).trans hsig
  exact ⟨⟨hlocals, hins, houts, hconsumed⟩, rfl, hreq.trans (hframe.requests.trans h.requests),
    hsig', rfl, hmasks.1.trans h.failed, hmasks.2.trans h.success⟩

/-- After an iteration that writes, the emulator's masks say so and the module's do not. -/
theorem Abreast.not_agree {x : KernelState σ α × ScState σ α} (h : Abreast x)
    (hwrites : ¬ Silent K x .iteration) :
    ¬ Agree (swIteration K x.1, scIteration K x.2) := by
  obtain ⟨s, c⟩ := x
  obtain ⟨hsw, hbody⟩ := h.swIteration_eq (K := K)
  have hmasks := masks_scHandler (K := K) c
  rintro ⟨-, hfailed, hsuccess⟩
  refine hwrites fun q hq => Bool.eq_false_iff.mpr fun hbit => ?_
  have hport : testPort (bodyStep K (afterReads K s)).locals.outputPort q = true := by
    rw [hbody]
    exact hbit
  -- the bit has been reported to the emulator, while the masks of the module are still zero
  have hreported := reported_writes (l := K.outPorts) (p := q)
    (s := bodyStep K (afterReads K s)) (Or.inr ⟨hq, hport⟩)
  have hsc : (scIteration K c).locals = (scHandler K (K.inPorts.foldl scReadPort c)).locals := by
    rw [scIteration, h.pending]
    exact locals_scWritePorts _ _
  rw [hsw] at hfailed hsuccess
  rw [hsc] at hfailed hsuccess
  have hf : (K.outPorts.foldl writePort (bodyStep K (afterReads K s))).locals.outputFailed = 0 :=
    hfailed.trans (hmasks.1.trans h.failed)
  have hs : (K.outPorts.foldl writePort (bodyStep K (afterReads K s))).locals.outputSuccess = 0 :=
    hsuccess.trans (hmasks.2.trans h.success)
  rw [reported, hf, hs] at hreported
  simp at hreported

/-- The world outside treats the two alike. -/
theorem Abreast.outside {x y : KernelState σ α × ScState σ α} {a : ScheduleAction α}
    (h : Abreast x) (ha : a ≠ .iteration) (hs : kernelsStep K x a = some y) : Abreast y := by
  obtain ⟨s, c⟩ := x
  have hins := h.same.ins
  have houts := h.same.outs
  cases a with
  | iteration => exact absurd rfl ha
  | produce p f =>
    cases hs
    have hsc : ScFifo.write (c.ins p) f = (s.ins p).writeNb f := by rw [← hins]; rfl
    unfold produceStep scProduce
    rw [hsc]
    cases (s.ins p).writeNb f with
    | mk ok stream =>
      cases ok with
      | true =>
        refine ⟨⟨h.same.locals, ?_, houts, h.same.consumed⟩, h.pc, h.requests, h.hasSignal,
          h.pending, h.failed, h.success⟩
        exact congrArg (Function.update · p stream) hins
      | false => exact h
  | consume p =>
    cases hs
    have hsc : ScFifo.read (c.outs p) = (s.outs p).readNb := by rw [← houts]; rfl
    unfold consumeStep scConsume
    rw [hsc]
    cases (s.outs p).readNb with
    | mk o stream =>
      cases o with
      | some f =>
        refine ⟨⟨h.same.locals, hins, ?_, ?_⟩, h.pc, h.requests, h.hasSignal, h.pending,
          h.failed, h.success⟩
        · exact congrArg (Function.update · p stream) houts
        · exact congrArg (fun r => Function.update r p (r p ++ [f])) h.same.consumed
      | none => exact h

/-! ## Every schedule -/

theorem abreast_init [Inhabited α] (state : σ) (inCap outCap : Nat → Int) :
    Abreast (kinit state inCap outCap, (scInit state inCap outCap : ScState σ α)) :=
  ⟨⟨rfl, rfl, rfl, rfl⟩, rfl, rfl, rfl, rfl, rfl, rfl⟩

/-- **When the two backends agree.** For every handler, all capacities of the streams and every
schedule of iterations, producers and consumers: the two kernels agree all along the schedule
exactly when no iteration of it leaves an output to write. -/
theorem agree_iff [Inhabited α] (K : KernelFn σ α) (state : σ) (inCap outCap : Nat → Int)
    (as : List (ScheduleAction α)) :
    Along (kernelsStep K) Agree (kinit state inCap outCap, scInit state inCap outCap) as ↔
      Meets (kernelsStep K) (Silent K) (kinit state inCap outCap, scInit state inCap outCap)
        as := by
  refine along_iff_meets_while Abreast (fun _ h => h.agree) ?_ ?_ as
    (abreast_init state inCap outCap)
  · intro x a y h hs hok
    cases a with
    | iteration =>
      cases hs
      exact h.iteration hok
    | produce p f => exact h.outside (by simp) hs
    | consume p => exact h.outside (by simp) hs
  · intro x a y h hs hok
    cases a with
    | iteration =>
      cases hs
      exact h.not_agree hok
    | produce p f => exact absurd trivial hok
    | consume p => exact absurd trivial hok

end

/-- An element that sends a flit in every call, numbered in its slot id. -/
def source : KernelFn UInt16 Flit where
  inPorts := []
  outPorts := [1]
  nodup_outPorts := nodup_one
  handler := fun v =>
    { state := v.state + 1, ops := [.setOutputPort 1 (Flit.setSlotId {} v.state)],
      ret := some PORT_ALL }

/-- With room for one flit: after the first call only the emulator's kernel reports success; it
drops the second flit, on which the module waits; and when the first has been read, one sends the
third flit where the other sends the second. -/
theorem source_differs :
    (¬ ∀ (K : KernelFn UInt16 Flit) (state : UInt16) (inCap outCap : Nat → Int)
      (as : List (ScheduleAction Flit)),
      Along (kernelsStep K) Agree (kinit state inCap outCap, scInit state inCap outCap) as) ∧
    let x := exec (kernelsStep source) (kinit 0 (fun _ => 1) (fun _ => 1),
      scInit 0 (fun _ => 1) (fun _ => 1)) [.iteration, .iteration, .consume 1, .iteration]
    emitted 1 x.1 = [Flit.setSlotId {} 0, Flit.setSlotId {} 2] ∧
      scEmitted 1 x.2 = [Flit.setSlotId {} 0, Flit.setSlotId {} 1] := by
  constructor
  · intro h
    have hfirst := (h source 0 (fun _ => 1) (fun _ => 1) [.iteration]).exec
    have hsuccess := hfirst.2.2
    revert hsuccess
    decide
  · exact ⟨rfl, rfl⟩

end OpenClickNP
