import OpenClickNP.Lib.Run
import OpenClickNP.Runtime.Flit
import OpenClickNP.Runtime.SwStream

/-!
# The kernel function of `emitKernelFunc`

The loop wrapped around an element's handler: latch the inputs, run the `.signal` or `.handler`
body, write the outputs. One step of the kernel is one stream operation or one body, so that
the producers and the consumers of its streams may act between any two of them.

A body is an arbitrary function of what it can see; what it does to the ports is a list of
built-ins. The records `arrived`, `taken`, `sent` and `consumed` say what has gone through each
port. On the input side nothing is ever lost (`Inputs`).
-/

namespace OpenClickNP

open Run

/-! ## Bodies -/

/-- The built-ins of an element body that act on a port. `read_input_port` is
`clear_input_ready` and a look at the data. -/
inductive PortOp (α : Type) where
  | setOutputPort (idx : Nat) (value : α)
  | setOutputReady (mask : PortMask)
  | clearOutputReady (mask : PortMask)
  | clearInputReady (mask : PortMask)

/-- What a body sees when it starts. -/
structure View (σ α : Type) where
  state : σ
  inputPort : PortMask
  inputData : Nat → α
  outputData : Nat → α
  outputFailed : PortMask
  outputSuccess : PortMask
  lastRport : PortMask
  event : ClSignal

/-- What a body does: the new state, its built-ins in order, the mask of its `return` (none
when it runs off its end), and `outevent`. -/
structure BodyResult (σ α : Type) where
  state : σ
  ops : List (PortOp α)
  ret : Option PortMask
  outevent : ClSignal := {}

/-- The parts of a `KernelHls` that its function is made of. -/
structure KernelFn (σ α : Type) where
  inPorts : List Nat
  outPorts : List Nat
  nodup_outPorts : outPorts.Nodup
  hasSignal : Bool := false
  handler : View σ α → BodyResult σ α
  signal : View σ α → BodyResult σ α := fun v =>
    { state := v.state, ops := [], ret := none, outevent := v.event }

theorem nodup_one : ([1] : List Nat).Nodup := List.nodup_singleton 1

/-! ## The state of the loop -/

/-- The local variables of the function. -/
structure Locals (σ α : Type) where
  state : σ
  ret : PortMask := PORT_ALL
  inputPort : PortMask := 0
  outputPort : PortMask := 0
  outputFailed : PortMask := 0
  outputSuccess : PortMask := 0
  inputData : Nat → α
  outputData : Nat → α
  event : ClSignal := {}
  hasSignal : Bool := false

/-- Where the loop is: at its head, with the ports left to read, at the body, with the ports
left to write. -/
inductive LoopPc where
  | head
  | readIn (rest : List Nat)
  | body
  | writeOut (rest : List Nat)

/-- The function with its streams and its signal channel. The last four fields record, for each
port, the flits put into its input stream, the inputs the body has cleared, the flits passed
to `set_output_port`, and the flits taken out of its output stream. -/
structure KernelState (σ α : Type) where
  locals : Locals σ α
  pc : LoopPc := .head
  ins : Nat → SwStream α
  outs : Nat → SwStream α
  requests : List ClSignal := []
  responses : List ClSignal := []
  arrived : Nat → List α := fun _ => []
  taken : Nat → List α := fun _ => []
  sent : Nat → List α := fun _ => []
  consumed : Nat → List α := fun _ => []

inductive KernelAction (α : Type) where
  /-- The kernel goes on by one operation. -/
  | kernel
  /-- A producer writes a flit to an input stream. -/
  | produce (p : Nat) (f : α)
  /-- A consumer reads from an output stream. -/
  | consume (p : Nat)
  /-- The host posts a signal. -/
  | post (req : ClSignal)

/-! ## Steps -/

section
variable {σ α : Type}

/-- One built-in, on `_input_port`, `_output_port` and `_output_data`. -/
def applyOp (l : Locals σ α) : PortOp α → Locals σ α
  | .setOutputPort idx value =>
    { l with
      outputPort := l.outputPort ||| PORT_BIT idx
      outputData := fun i => if i = idx then value else l.outputData i }
  | .setOutputReady mask => { l with outputPort := l.outputPort ||| mask }
  | .clearOutputReady mask => { l with outputPort := l.outputPort &&& ~~~mask }
  | .clearInputReady mask => { l with inputPort := l.inputPort &&& ~~~mask }

/-- The flits that the built-ins pass to `set_output_port(p, .)`. -/
def setsOf (p : Nat) (ops : List (PortOp α)) : List α :=
  ops.filterMap fun op =>
    match op with
    | .setOutputPort idx value => if idx = p then some value else none
    -- the other built-ins only set or clear bits
    | _ => none

theorem setsOf_append (p : Nat) (ops ops' : List (PortOp α)) :
    setsOf p (ops ++ ops') = setsOf p ops ++ setsOf p ops' := List.filterMap_append

def viewOf (l : Locals σ α) : View σ α where
  state := l.state
  inputPort := l.inputPort
  inputData := l.inputData
  outputData := l.outputData
  outputFailed := l.outputFailed
  outputSuccess := l.outputSuccess
  lastRport := l.ret
  event := l.event

/-- The variables after a body, which starts with `_output_port = 0`. -/
def runBody (l : Locals σ α) (r : BodyResult σ α) : Locals σ α :=
  let l' := r.ops.foldl applyOp { l with outputPort := 0 }
  { l' with state := r.state, ret := r.ret.getD l.ret }

variable (K : KernelFn σ α)

/-- `if ((_ret & PORT_BIT(q)) && !(_input_port & PORT_BIT(q))) read_nb`, for the port `q`. -/
def readPort (s : KernelState σ α) (q : Nat) : KernelState σ α :=
  if testPort s.locals.ret q && !testPort s.locals.inputPort q then
    match (s.ins q).readNb with
    | (some f, stream) =>
      { s with
        ins := Function.update s.ins q stream
        locals := { s.locals with
          inputData := fun i => if i = q then f else s.locals.inputData i
          inputPort := s.locals.inputPort ||| PORT_BIT q } }
    -- `read_nb` found nothing: the port stays free
    | (none, _) => s
  else s

/-- `if (_output_port & PORT_BIT(q)) write_nb`, for the port `q`. -/
def writePort (s : KernelState σ α) (q : Nat) : KernelState σ α :=
  if testPort s.locals.outputPort q then
    match (s.outs q).writeNb (s.locals.outputData q) with
    | (true, stream) =>
      { s with
        outs := Function.update s.outs q stream
        locals := { s.locals with outputSuccess := s.locals.outputSuccess ||| PORT_BIT q } }
    -- the flit is dropped, and the handler is told
    | (false, _) =>
      { s with locals := { s.locals with outputFailed := s.locals.outputFailed ||| PORT_BIT q } }
  else s

/-- What the body of this iteration does. -/
def bodyResult (l : Locals σ α) : BodyResult σ α :=
  if l.hasSignal then K.signal (viewOf l) else K.handler (viewOf l)

/-- The inputs a body clears: those latched before it and not after it. -/
def takenBy (l l' : Locals σ α) (p : Nat) : List α :=
  if testPort l.inputPort p && !testPort l'.inputPort p then [l.inputData p] else []

/-- The body with its two records. -/
def runRecorded (s : KernelState σ α) (r : BodyResult σ α) : KernelState σ α :=
  { s with
    locals := runBody s.locals r
    taken := fun p => s.taken p ++ takenBy s.locals (runBody s.locals r) p
    sent := fun p => s.sent p ++ setsOf p r.ops }

/-- The `.signal` body ends the iteration, the `.handler` body goes on to the writes. -/
def bodyStep (s : KernelState σ α) : KernelState σ α :=
  let r := bodyResult K s.locals
  let s' := runRecorded s r
  -- `continue` skips the writes
  if s.locals.hasSignal then
    { s' with
      pc := .head
      responses := s.responses ++ [r.outevent]
      locals := { s'.locals with hasSignal := false } }
  else
    { s' with
      pc := .writeOut K.outPorts
      locals := { s'.locals with outputFailed := 0, outputSuccess := 0 } }

/-- `if (!_has_signal) _has_signal = _sigch.try_recv(event)`. -/
def recvStep (s : KernelState σ α) : KernelState σ α :=
  if K.hasSignal && !s.locals.hasSignal then
    match s.requests with
    -- `try_recv` returned false
    | [] => { s with pc := .readIn K.inPorts }
    | req :: rest =>
      { s with
        pc := .readIn K.inPorts
        requests := rest
        locals := { s.locals with event := req, hasSignal := true } }
  else { s with pc := .readIn K.inPorts }

def kernelStep (s : KernelState σ α) : KernelState σ α :=
  match s.pc with
  | .head => recvStep K s
  | .readIn [] => { s with pc := .body }
  | .readIn (q :: rest) => { readPort s q with pc := .readIn rest }
  | .body => bodyStep K s
  | .writeOut [] => { s with pc := .head }
  | .writeOut (q :: rest) => { writePort s q with pc := .writeOut rest }

/-- A producer's write that finds the stream full does nothing. -/
def produceStep (s : KernelState σ α) (p : Nat) (f : α) : KernelState σ α :=
  match (s.ins p).writeNb f with
  | (true, stream) =>
    { s with
      ins := Function.update s.ins p stream
      arrived := Function.update s.arrived p (s.arrived p ++ [f]) }
  | (false, _) => s

def consumeStep (s : KernelState σ α) (p : Nat) : KernelState σ α :=
  match (s.outs p).readNb with
  | (some f, stream) =>
    { s with
      outs := Function.update s.outs p stream
      consumed := Function.update s.consumed p (s.consumed p ++ [f]) }
  | (none, _) => s

def kstep (s : KernelState σ α) : KernelAction α → Option (KernelState σ α)
  | .kernel => some (kernelStep K s)
  | .produce p f => some (produceStep s p f)
  | .consume p => some (consumeStep s p)
  | .post req => some { s with requests := s.requests ++ [req] }

/-- The function at its start, with streams of the given capacities. -/
def kinit [Inhabited α] (state : σ) (inCap outCap : Nat → Int) : KernelState σ α where
  locals := { state := state, inputData := fun _ => default, outputData := fun _ => default }
  ins := fun p => SwStream.ofCapacity (inCap p)
  outs := fun p => SwStream.ofCapacity (outCap p)

end

/-! ## The built-ins together -/

section
variable {σ α : Type} {K : KernelFn σ α} {s t : KernelState σ α}

theorem inputData_applyOps (ops : List (PortOp α)) (l : Locals σ α) :
    (ops.foldl applyOp l).inputData = l.inputData := by
  induction ops generalizing l with
  | nil => rfl
  | cons op ops ih =>
    rw [List.foldl_cons, ih]
    cases op <;> rfl

theorem hasSignal_applyOps (ops : List (PortOp α)) (l : Locals σ α) :
    (ops.foldl applyOp l).hasSignal = l.hasSignal := by
  induction ops generalizing l with
  | nil => rfl
  | cons op ops ih =>
    rw [List.foldl_cons, ih]
    cases op <;> rfl

/-- A built-in that clears the input port `p`. -/
def PortOp.clears (p : Nat) : PortOp α → Bool
  | .clearInputReady mask => testPort mask p
  | _ => false

/-- No built-in marks an input as ready. -/
theorem testPort_applyOps (ops : List (PortOp α)) (l : Locals σ α) (p : Nat) :
    testPort (ops.foldl applyOp l).inputPort p
      = (testPort l.inputPort p && !ops.any (PortOp.clears p)) := by
  induction ops generalizing l with
  | nil => simp
  | cons op ops ih =>
    rw [List.foldl_cons, ih, List.any_cons]
    cases op with
    -- the only built-in on `_input_port`
    | clearInputReady mask =>
      simp only [applyOp, testPort_clear, PortOp.clears, Bool.not_or, Bool.and_assoc]
    | _ => rfl

/-- The last flit passed to `set_output_port(p, .)` is the one left in `_output_data[p]`. -/
theorem outputData_applyOps (p : Nat) (ops : List (PortOp α)) (l : Locals σ α) :
    (ops.foldl applyOp l).outputData p = ((setsOf p ops).getLast?).getD (l.outputData p) := by
  induction ops generalizing l with
  | nil => rfl
  | cons op ops ih =>
    rw [List.foldl_cons, ih]
    cases op with
    | setOutputPort idx value =>
      by_cases hidx : idx = p
      · subst hidx
        simp [setsOf, applyOp, List.getLast?_cons]
      · simp [setsOf, applyOp, hidx, Ne.symm hidx]
    | setOutputReady mask => simp [setsOf, applyOp]
    | clearOutputReady mask => simp [setsOf, applyOp]
    | clearInputReady mask => simp [setsOf, applyOp]

/-! ## The input side -/

/-- The flit latched from port `p`. -/
def latched (l : Locals σ α) (p : Nat) : List α :=
  if testPort l.inputPort p then [l.inputData p] else []

theorem takenBy_runBody (l : Locals σ α) (r : BodyResult σ α) (p : Nat) :
    takenBy l (runBody l r) p
      = if testPort l.inputPort p && r.ops.any (PortOp.clears p) then [l.inputData p] else [] := by
  unfold takenBy runBody
  rw [testPort_applyOps]
  cases testPort l.inputPort p <;> cases r.ops.any (PortOp.clears p) <;> rfl

/-- Every flit put into an input stream has been cleared by a body, is latched, or is still in
the stream, in this order. -/
def Inputs (s : KernelState σ α) : Prop :=
  ∀ p, s.arrived p = s.taken p ++ latched s.locals p ++ (s.ins p).q

theorem latched_runBody (l : Locals σ α) (r : BodyResult σ α) (p : Nat) :
    latched l p = takenBy l (runBody l r) p ++ latched (runBody l r) p := by
  rw [takenBy_runBody]
  unfold latched runBody
  simp only [testPort_applyOps, inputData_applyOps]
  cases testPort l.inputPort p <;> cases r.ops.any (PortOp.clears p) <;> rfl

theorem inputs_readPort (h : Inputs s) (q : Nat) : Inputs (readPort s q) := by
  unfold readPort
  split
  · rename_i hcond
    obtain ⟨hret, hfree⟩ := Bool.and_eq_true_iff.mp hcond
    have hq := lt_of_testPort hret
    split
    · rename_i f stream hread
      have hf := SwStream.readNb_eq_some hread
      intro p
      have hp := h p
      by_cases hpq : p = q
      · subst hpq
        have hbit : testPort s.locals.inputPort p = false := by simpa using hfree
        simp only [latched, hbit, hf] at hp
        simp [latched, testPort_or, testPort_PORT_BIT, hbit, hq, hp]
      · simpa [latched, testPort_or, testPort_PORT_BIT, hpq] using hp
    · exact h
  · exact h

theorem inputs_runRecorded (h : Inputs s) (r : BodyResult σ α) : Inputs (runRecorded s r) := by
  intro p
  have hp := h p
  rw [latched_runBody s.locals r p, ← List.append_assoc] at hp
  exact hp

theorem inputs_bodyStep (h : Inputs s) : Inputs (bodyStep K s) := by
  have hr := inputs_runRecorded h (bodyResult K s.locals)
  unfold bodyStep
  simp only []
  split
  · exact hr
  · exact hr

theorem inputs_writePort (h : Inputs s) (q : Nat) : Inputs (writePort s q) := by
  unfold writePort
  split
  · split <;> exact h
  · exact h

theorem inputs_recvStep (h : Inputs s) : Inputs (recvStep K s) := by
  unfold recvStep
  split
  · split <;> exact h
  · exact h

theorem inputs_produceStep (h : Inputs s) (q : Nat) (f : α) : Inputs (produceStep s q f) := by
  unfold produceStep
  split
  · rename_i stream hwrite
    have hq := SwStream.writeNb_eq_true hwrite
    intro p
    have hp := h p
    by_cases hpq : p = q
    · subst hpq
      simp [hp, hq, latched]
    · simpa [hpq] using hp
  · exact h

theorem inputs_consumeStep (h : Inputs s) (q : Nat) : Inputs (consumeStep s q) := by
  unfold consumeStep
  split <;> exact h

/-- One step keeps the account of the inputs. -/
theorem inputs_step {a : KernelAction α} (h : Inputs s) (hs : kstep K s a = some t) :
    Inputs t := by
  cases a with
  | kernel =>
    cases hs
    unfold kernelStep
    split
    · exact inputs_recvStep h
    · exact h
    · exact inputs_readPort h _
    · exact inputs_bodyStep h
    · exact h
    · exact inputs_writePort h _
  | produce p f => cases hs; exact inputs_produceStep h p f
  | consume p => cases hs; exact inputs_consumeStep h p
  | post req => cases hs; exact h

/-! ## Between two bodies -/

/-- `t` agrees with `s` on what only a body changes. -/
structure SameBody (s t : KernelState σ α) : Prop where
  state : t.locals.state = s.locals.state
  ret : t.locals.ret = s.locals.ret
  hasSignal : t.locals.hasSignal = s.locals.hasSignal
  taken : t.taken = s.taken
  sent : t.sent = s.sent

theorem sameBody_kernelStep (hsig : K.hasSignal = false) (hpc : s.pc ≠ .body) :
    SameBody s (kernelStep K s) := by
  unfold kernelStep
  split
  · unfold recvStep
    rw [hsig]
    exact ⟨rfl, rfl, rfl, rfl, rfl⟩
  · exact ⟨rfl, rfl, rfl, rfl, rfl⟩
  · unfold readPort
    split
    · split <;> exact ⟨rfl, rfl, rfl, rfl, rfl⟩
    · exact ⟨rfl, rfl, rfl, rfl, rfl⟩
  · rename_i hbody
    exact absurd hbody hpc
  · exact ⟨rfl, rfl, rfl, rfl, rfl⟩
  · unfold writePort
    split
    · split <;> exact ⟨rfl, rfl, rfl, rfl, rfl⟩
    · exact ⟨rfl, rfl, rfl, rfl, rfl⟩

theorem arrived_kernelStep : (kernelStep K s).arrived = s.arrived := by
  unfold kernelStep
  split
  · unfold recvStep
    split
    · split <;> rfl
    · rfl
  · rfl
  · unfold readPort
    split
    · split <;> rfl
    · rfl
  · unfold bodyStep
    simp only []
    split <;> rfl
  · rfl
  · unfold writePort
    split
    · split <;> rfl
    · rfl

/-- The world outside leaves the variables of the function alone; to an input port it may add
one flit. -/
theorem env_step {a : KernelAction α} (ha : a ≠ .kernel) (hs : kstep K s a = some t) :
    t.locals = s.locals ∧ t.pc = s.pc ∧ t.taken = s.taken ∧ t.sent = s.sent ∧
      ∀ p, t.ins p = s.ins p ∧ t.arrived p = s.arrived p ∨
        ∃ f, a = .produce p f ∧ t.arrived p = s.arrived p ++ [f] := by
  cases a with
  | kernel => exact absurd rfl ha
  | produce q f =>
    cases hs
    unfold produceStep
    split
    · refine ⟨rfl, rfl, rfl, rfl, fun p => ?_⟩
      by_cases hpq : p = q
      · subst hpq
        exact Or.inr ⟨f, rfl, Function.update_self _ _ _⟩
      · exact Or.inl ⟨Function.update_of_ne hpq _ _, Function.update_of_ne hpq _ _⟩
    · exact ⟨rfl, rfl, rfl, rfl, fun p => Or.inl ⟨rfl, rfl⟩⟩
  | consume q =>
    cases hs
    unfold consumeStep
    split <;> exact ⟨rfl, rfl, rfl, rfl, fun p => Or.inl ⟨rfl, rfl⟩⟩
  | post req => cases hs; exact ⟨rfl, rfl, rfl, rfl, fun p => Or.inl ⟨rfl, rfl⟩⟩

end

end OpenClickNP
