import OpenClickNP.Backend.Transduction

/-!
# The calls of a run as a chain

In an element without signals each handler call finds the state block that the call before has
left (`chained_handlerViews`), so a run is a chain of calls whose other inputs come from the
ports. What the calls pass to `set_output_port`, in order and with the port they name, is
`written`; it need not be a port that the element has.

The other way round, an iteration of the loop makes one call, behind a look at each input port
(`exec_iteration`).
-/

namespace OpenClickNP

open Run

section
variable {σ α : Type} {K : KernelFn σ α} {s t : KernelState σ α}

/-! ## Each call finds what the one before leaves -/

/-- A sequence of calls from the state block `st`. -/
def Chained (K : KernelFn σ α) : σ → List (View σ α) → Prop
  | _, [] => True
  | st, v :: vs => v.state = st ∧ Chained K (K.handler v).state vs

/-- **The calls of a run are a chain.** Induction on the actions; only a body changes the state
block. -/
theorem chained_handlerViews (hK : K.hasSignal = false) (h : s.locals.hasSignal = false)
    (as : List (KernelAction α)) : Chained K s.locals.state (handlerViews K s as) := by
  induction as generalizing s with
  | nil => trivial
  | cons a as ih =>
    unfold handlerViews
    cases hs : kstep K s a with
    | none => trivial
    | some t =>
      -- the calls behind this step are a chain from the state it leaves
      have hrest := ih (hasSignal_step hK h hs)
      rcases records_step hs with ⟨rfl, hpc, rfl⟩ | ⟨hpc, hrec⟩
      · rw [state_bodyStep, bodyResult_of_noSignal h] at hrest
        show Chained K s.locals.state (handlerView s .kernel ++ _)
        rw [handlerView_body hpc h]
        exact ⟨rfl, hrest⟩
      · rw [hrec.state] at hrest
        show Chained K s.locals.state (handlerView s a ++ _)
        rw [handlerView_of_not_body hpc]
        exact hrest

/-- Along a chain, what every call keeps. -/
theorem Chained.inv {P : σ → Prop} (hstep : ∀ v, P v.state → P (K.handler v).state)
    {st : σ} {vs : List (View σ α)} (h : Chained K st vs) (hst : P st) :
    ∀ v ∈ vs, P v.state := by
  induction vs generalizing st with
  | nil => exact fun v hv => absurd hv List.not_mem_nil
  | cons w vs ih =>
    obtain ⟨hw, hrest⟩ := h
    have hPw : P w.state := hw ▸ hst
    intro v hv
    rcases List.mem_cons.mp hv with rfl | hv
    · exact hPw
    · exact ih hrest (hstep w hPw) v hv

theorem Chained.first {st : σ} {vs : List (View σ α)} (h : Chained K st vs) {v : View σ α}
    (hv : vs[0]? = some v) : v.state = st := by
  cases vs with
  | nil => cases hv
  | cons u vs =>
    cases hv
    exact h.1

/-- The state block that a call finds is the one that the call before it leaves. -/
theorem Chained.succ {st : σ} {vs : List (View σ α)} (h : Chained K st vs) {i : Nat}
    {v w : View σ α} (hv : vs[i]? = some v) (hw : vs[i + 1]? = some w) :
    w.state = (K.handler v).state := by
  induction vs generalizing st i with
  | nil => cases hv
  | cons u vs ih =>
    obtain ⟨-, hrest⟩ := h
    cases i with
    | zero =>
      cases hv
      cases vs with
      | nil => cases hw
      | cons u' vs =>
        cases hw
        exact hrest.1
    | succ i => exact ih hrest hv hw

/-- **The potential rule.** When each call pays for what it passes to a port, `gain` for each flit,
with its `cost` and with what it takes from the potential, so do the calls of a chain. Induction on
the calls. -/
theorem Chained.potential {P : σ → Prop} {p : Nat} (worth : σ → Nat) (cost gain : Nat)
    (hkeep : ∀ v, P v.state → P (K.handler v).state)
    (hstep : ∀ v, P v.state → worth (K.handler v).state + gain * (setsOf p (K.handler v).ops).length
      ≤ worth v.state + cost) {st : σ} {vs : List (View σ α)} (h : Chained K st vs) (hst : P st) :
    gain * (vs.flatMap fun v => setsOf p (K.handler v).ops).length
      ≤ worth st + cost * vs.length := by
  induction vs generalizing st with
  | nil => exact Nat.zero_le _
  | cons v vs ih =>
    obtain ⟨rfl, hrest⟩ := h
    have hone := hstep v hst
    have hmore := ih hrest (hkeep v hst)
    rw [List.flatMap_cons, List.length_append, List.length_cons, Nat.mul_add, Nat.mul_succ]
    omega

/-! ## What each call passes on -/

/-- What each handler call of a run passes to a port. -/
def sentByCall (K : KernelFn σ α) (p : Nat) (s : KernelState σ α) (as : List (KernelAction α)) :
    List (List α) := (handlerViews K s as).map fun v => setsOf p (K.handler v).ops

theorem flatten_sentByCall (p : Nat) (s : KernelState σ α) (as : List (KernelAction α)) :
    (sentByCall K p s as).flatten
      = (handlerViews K s as).flatMap fun v => setsOf p (K.handler v).ops :=
  List.flatMap_def.symm

/-- A transducer passes on in each call what it puts out for what the call is offered. Induction on
the calls. -/
theorem Transduces.sets_chained {τ : Type} {proj : σ → τ} {harmless : ClSignal → Prop}
    {M : Transducer τ (Option α) α} (hK : Transduces K proj harmless M) {st : σ}
    {vs : List (View σ α)} (h : Chained K st vs) :
    (vs.map fun v => setsOf 1 (K.handler v).ops) = M.outs (proj st) (vs.map offered) := by
  induction vs generalizing st with
  | nil => rfl
  | cons v vs ih =>
    obtain ⟨rfl, hrest⟩ := h
    rw [List.map_cons, List.map_cons, Transducer.outs_cons, hK.sets, ih hrest, hK.state]

theorem Transduces.sentByCall_eq {τ : Type} {proj : σ → τ} {harmless : ClSignal → Prop}
    {M : Transducer τ (Option α) α} (hK : Transduces K proj harmless M) (hsig : K.hasSignal = false)
    (h : s.locals.hasSignal = false) (as : List (KernelAction α)) :
    sentByCall K 1 s as = M.outs (proj s.locals.state) (calls K s as) :=
  hK.sets_chained (chained_handlerViews hsig h as)

/-! ## What is written -/

/-- The arguments of the calls of `set_output_port`. -/
def writesOf (ops : List (PortOp α)) : List (Nat × α) :=
  ops.filterMap fun op =>
    match op with
    | .setOutputPort idx value => some (idx, value)
    | _ => none

/-- What the calls of a run have passed to `set_output_port`, to whatever port. -/
def written (K : KernelFn σ α) (s : KernelState σ α) (as : List (KernelAction α)) :
    List (Nat × α) :=
  (handlerViews K s as).flatMap fun v => writesOf (K.handler v).ops

/-! ## One iteration -/

/-- The state in front of the body, when every input port has been looked at. -/
def latchAll (K : KernelFn σ α) (s : KernelState σ α) : KernelState σ α :=
  { K.inPorts.foldl readPort s with pc := .body }

/-- The number of steps in an iteration of the loop. -/
def iterationSteps (K : KernelFn σ α) : Nat := K.inPorts.length + K.outPorts.length + 4

theorem readPort_setPc (s : KernelState σ α) (pc : LoopPc) (q : Nat) :
    readPort { s with pc := pc } q = { readPort s q with pc := pc } := by
  unfold readPort
  simp only []
  split
  · split <;> rfl
  · rfl

/-- Steps that call no handler. -/
theorem handlerViews_kernel_of_not_body (hpc : s.pc ≠ .body) (as : List (KernelAction α)) :
    handlerViews K s (.kernel :: as) = handlerViews K (kernelStep K s) as := by
  show handlerView s .kernel ++ _ = _
  rw [handlerView_of_not_body fun _ => hpc]
  rfl

/-- Ports are visited one after the other. Induction on the ports left. -/
theorem exec_ports {visit : KernelState σ α → Nat → KernelState σ α} {todo : List Nat → LoopPc}
    {next : LoopPc} (hbody : ∀ ports, todo ports ≠ .body)
    (hnil : ∀ s : KernelState σ α, kernelStep K { s with pc := todo [] } = { s with pc := next })
    (hcons : ∀ (s : KernelState σ α) (q : Nat) (ports : List Nat),
      kernelStep K { s with pc := todo (q :: ports) } = { visit s q with pc := todo ports })
    (ports : List Nat) (s : KernelState σ α) (as : List (KernelAction α)) :
    exec (kstep K) { s with pc := todo ports } (List.replicate (ports.length + 1) .kernel ++ as)
        = exec (kstep K) { ports.foldl visit s with pc := next } as ∧
      handlerViews K { s with pc := todo ports }
        (List.replicate (ports.length + 1) .kernel ++ as)
        = handlerViews K { ports.foldl visit s with pc := next } as := by
  induction ports generalizing s with
  | nil =>
    constructor
    · show exec (kstep K) (kernelStep K _) as = _
      rw [hnil]
      rfl
    · show handlerViews K _ (.kernel :: as) = _
      rw [handlerViews_kernel_of_not_body (hbody []), hnil]
      rfl
  | cons q ports ih =>
    obtain ⟨hexec, hviews⟩ := ih (visit s q)
    rw [List.length_cons, List.replicate_succ, List.cons_append]
    constructor
    · show exec (kstep K) (kernelStep K _) _ = _
      rw [hcons]
      exact hexec
    · rw [handlerViews_kernel_of_not_body (hbody (q :: ports)), hcons]
      exact hviews

/-- The input ports are read. -/
theorem exec_readIn (ports : List Nat) (s : KernelState σ α) (as : List (KernelAction α)) :
    exec (kstep K) { s with pc := .readIn ports }
        (List.replicate (ports.length + 1) .kernel ++ as)
        = exec (kstep K) { ports.foldl readPort s with pc := .body } as ∧
      handlerViews K { s with pc := .readIn ports }
        (List.replicate (ports.length + 1) .kernel ++ as)
        = handlerViews K { ports.foldl readPort s with pc := .body } as := by
  refine exec_ports (fun _ => by simp) (fun _ => rfl) (fun s q rest => ?_) ports s as
  show { readPort { s with pc := .readIn (q :: rest) } q with pc := .readIn rest } = _
  rw [readPort_setPc]

theorem writePort_setPc (s : KernelState σ α) (pc : LoopPc) (q : Nat) :
    writePort { s with pc := pc } q = { writePort s q with pc := pc } := by
  unfold writePort
  simp only []
  split
  · split <;> rfl
  · rfl

/-- The output ports are written. -/
theorem exec_writeOut (ports : List Nat) (s : KernelState σ α) (as : List (KernelAction α)) :
    exec (kstep K) { s with pc := .writeOut ports }
        (List.replicate (ports.length + 1) .kernel ++ as)
        = exec (kstep K) { ports.foldl writePort s with pc := .head } as ∧
      handlerViews K { s with pc := .writeOut ports }
        (List.replicate (ports.length + 1) .kernel ++ as)
        = handlerViews K { ports.foldl writePort s with pc := .head } as := by
  refine exec_ports (fun _ => by simp) (fun _ => rfl) (fun s q rest => ?_) ports s as
  show { writePort { s with pc := .writeOut (q :: rest) } q with pc := .writeOut rest } = _
  rw [writePort_setPc]

/-- The state behind an iteration. -/
def iterated (K : KernelFn σ α) (s : KernelState σ α) : KernelState σ α :=
  { K.outPorts.foldl writePort (bodyStep K (latchAll K s)) with pc := .head }

theorem hasSignal_latchAll (K : KernelFn σ α) (s : KernelState σ α) :
    (latchAll K s).locals.hasSignal = s.locals.hasSignal := by
  show (K.inPorts.foldl readPort s).locals.hasSignal = _
  induction K.inPorts generalizing s with
  | nil => rfl
  | cons q ports ih => rw [List.foldl_cons, ih, (readPort_frame s q).2.1]

/-- **An iteration** looks at the input ports, makes one call and writes the output ports. -/
theorem exec_iteration (hK : K.hasSignal = false) (hpc : s.pc = .head)
    (hsig : s.locals.hasSignal = false) (as : List (KernelAction α)) :
    exec (kstep K) s (List.replicate (iterationSteps K) .kernel ++ as)
        = exec (kstep K) (iterated K s) as ∧
      handlerViews K s (List.replicate (iterationSteps K) .kernel ++ as)
        = viewOf (latchAll K s).locals :: handlerViews K (iterated K s) as := by
  -- the head, the input ports, the body, and the output ports
  have hsplit : List.replicate (iterationSteps K) (.kernel : KernelAction α) ++ as
      = .kernel :: (List.replicate (K.inPorts.length + 1) .kernel ++ (.kernel ::
        (List.replicate (K.outPorts.length + 1) .kernel ++ as))) := by
    have hcount : iterationSteps K = (K.inPorts.length + 1) + 1 + (K.outPorts.length + 1) + 1 := by
      unfold iterationSteps
      omega
    rw [hcount, List.replicate_succ, ← List.replicate_append_replicate,
      ← List.replicate_append_replicate]
    simp
  have hrecv : kernelStep K s = { s with pc := .readIn K.inPorts } := by
    unfold kernelStep
    rw [hpc]
    simp [recvStep, hK]
  have hbodySig := (hasSignal_latchAll K s).trans hsig
  have hbody : kernelStep K (latchAll K s)
      = { bodyStep K (latchAll K s) with pc := .writeOut K.outPorts } := by
    show bodyStep K (latchAll K s) = _
    unfold bodyStep
    simp [hbodySig]
  obtain ⟨hread, hreadViews⟩ := exec_readIn (K := K) K.inPorts s
    (.kernel :: (List.replicate (K.outPorts.length + 1) .kernel ++ as))
  obtain ⟨hwrite, hwriteViews⟩ := exec_writeOut (K := K) K.outPorts
    (bodyStep K (latchAll K s)) as
  rw [hsplit]
  constructor
  · show exec (kstep K) (kernelStep K s) _ = _
    rw [hrecv, hread]
    show exec (kstep K) (kernelStep K (latchAll K s)) _ = _
    rw [hbody, hwrite]
    rfl
  · rw [handlerViews_kernel_of_not_body (by simp [hpc]), hrecv, hreadViews]
    show handlerView (latchAll K s) .kernel ++ handlerViews K (kernelStep K (latchAll K s)) _ = _
    rw [handlerView_body rfl hbodySig, hbody, hwriteViews]
    rfl

/-! ## Flits one by one -/

/-- The output ports do not touch what the next iteration starts with. Induction on the ports. -/
theorem writePorts_frame (ports : List Nat) (s : KernelState σ α) :
    SameRecords s (ports.foldl writePort s) ∧ (ports.foldl writePort s).requests = s.requests ∧
      (ports.foldl writePort s).ins = s.ins ∧
      (ports.foldl writePort s).locals.hasSignal = s.locals.hasSignal ∧
      (ports.foldl writePort s).locals.ret = s.locals.ret ∧
      (ports.foldl writePort s).locals.inputPort = s.locals.inputPort := by
  induction ports generalizing s with
  | nil => exact ⟨⟨rfl, rfl, rfl⟩, rfl, rfl, rfl, rfl, rfl⟩
  | cons q ports ih =>
    obtain ⟨hone, hreq, hins, hsig, hret, hinput⟩ := writePort_frame s q
    obtain ⟨hrest, hreq', hins', hsig', hret', hinput'⟩ := ih (writePort s q)
    exact ⟨⟨hrest.state.trans hone.state, hrest.taken.trans hone.taken,
      hrest.sent.trans hone.sent⟩, hreq'.trans hreq, hins'.trans hins, hsig'.trans hsig,
      hret'.trans hret, hinput'.trans hinput⟩

theorem latchAll_produceStep (hK : Reads K) (s : KernelState σ α) (f : α) :
    latchAll K (produceStep s 1 f) = readFlit s f := by
  unfold latchAll readFlit
  rw [hK.inPorts, readPort_setPc]
  rfl

/-- The iteration in which the kernel takes the flit that comes in. -/
theorem Reads.turn (hK : Reads K) (hsig : K.hasSignal = false) (h : Waiting s) (f : α) :
    let as := .produce 1 f :: List.replicate (iterationSteps K) .kernel
    Waiting (exec (kstep K) s as) ∧ (exec (kstep K) s as).taken 1 = s.taken 1 ++ [f] := by
  obtain ⟨hlocals, hpc, -, -, -⟩ := produceStep_frame s 1 f
  have hfront := inFront_readFlit h.toIdle f
  obtain ⟨hdata, hempty⟩ := readFlit_of_waiting h f
  obtain ⟨hreq, hins, hnone, hret, hfree⟩ := hK.asks hfront
  obtain ⟨hsame, hreq', hins', hnone', hret', hinput'⟩ :=
    writePorts_frame K.outPorts (bodyStep K (readFlit s f))
  have hexec : exec (kstep K) s (.produce 1 f :: List.replicate (iterationSteps K) .kernel)
      = iterated K (produceStep s 1 f) := by
    have hiter := (exec_iteration hsig (hpc.trans h.head)
      ((congrArg Locals.hasSignal hlocals).trans h.noSignal) []).1
    rw [List.append_nil] at hiter
    exact hiter
  -- the port was free and its stream empty, so it is this flit that the call finds
  have hoffered : (offered (viewOf (readFlit s f).locals)).toList = [f] := by
    have hbit : testPort (viewOf (readFlit s f).locals).inputPort 1 = true := hfront.latched
    rw [offered, if_pos hbit]
    exact congrArg (fun g => [g]) hdata
  simp only [hexec]
  unfold iterated
  rw [latchAll_produceStep hK]
  refine ⟨⟨⟨rfl, hnone'.trans hnone, hreq'.trans hreq, ?_⟩, ?_, ?_⟩, ?_⟩
  · exact (congrArg (testPort · 1) hret').trans hret
  · exact (congrArg (testPort · 1) hinput').trans hfree
  · exact (congrArg (fun i => (i 1).q) (hins'.trans hins)).trans hempty
  · show (K.outPorts.foldl writePort (bodyStep K (readFlit s f))).taken 1 = _
    rw [hsame.taken, taken_bodyStep, bodyResult_of_noSignal hfront.noSignal, hK.taken, hoffered,
      hfront.taken]

/-- **A waiting kernel that reads port 1 takes what comes in**, one flit in each iteration.
Induction on the flits. -/
theorem Reads.feed (hK : Reads K) (hsig : K.hasSignal = false) (h : Waiting s) (fs : List α) :
    ∃ as, (exec (kstep K) s as).taken 1 = s.taken 1 ++ fs := by
  induction fs generalizing s with
  | nil => exact ⟨[], (List.append_nil _).symm⟩
  | cons f fs ih =>
    obtain ⟨hwait, htaken⟩ := hK.turn hsig h f
    obtain ⟨as, hrest⟩ := ih hwait
    refine ⟨(.produce 1 f :: List.replicate (iterationSteps K) .kernel) ++ as, ?_⟩
    rw [exec_append, hrest, htaken, List.append_assoc]
    rfl

end

end OpenClickNP
