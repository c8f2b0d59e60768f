import OpenClickNP.Backend.Network

/-!
# What the bodies of a kernel see, and what the host is answered

An observer stands beside the kernel (`Watch`) and notes what leaves the input streams, what the
bodies are shown, and which requests are answered. What it has noted agrees with the state of the
kernel in every run (`disciplined_exec`): every flit taken from a stream is shown once, in order,
and nothing is answered twice.

A `.signal` body may clear an input: the flit in the latch is then taken from the stream, but no
handler sees it (`handler_misses_flit`).
-/

namespace OpenClickNP

open Run

section
variable {σ α : Type}

/-! ## The observer -/

/-- The notes of the observer. For each input port: the flits that have left the stream; the flits
that have been shown, each with whether a handler call saw it (if none did, a `.signal` body
cleared it); and the flit that a handler call has seen and no body has cleared. The mask of the
last `return`. The requests received, and each request that was answered with its answer. For the
iteration under way: whether it has called the handler, whether it has written to a stream, and
the number of its answers. -/
structure Watch (α : Type) where
  read : Nat → List α := fun _ => []
  shown : Nat → List (α × Bool) := fun _ => []
  held : Nat → Option α := fun _ => none
  lastRet : PortMask := PORT_ALL
  received : List ClSignal := []
  answered : List (ClSignal × ClSignal) := []
  ranHandler : Bool := false
  wrote : Bool := false
  answers : Nat := 0

/-- The flits of the port that handler calls have seen. -/
def Watch.presented (w : Watch α) (p : Nat) : List α :=
  ((w.shown p).filter Prod.snd).map Prod.fst

/-- What has left the front of a list. -/
def leftBy {β : Type} (before after : List β) : List β :=
  before.take (before.length - after.length)

/-- What a body is shown on port `p` for the first time: the handler whatever is latched, a
`.signal` body what it clears. -/
def Watch.firstShown (w : Watch α) (l l' : Locals σ α) (p : Nat) : List (α × Bool) :=
  if testPort l.inputPort p && (w.held p).isNone then
    -- a `.signal` body handles only what it clears
    if !l.hasSignal then [(l.inputData p, true)]
    else if !testPort l'.inputPort p then [(l.inputData p, false)] else []
  else []

/-- What is held of port `p` after a body. -/
def Watch.heldAfter (w : Watch α) (l l' : Locals σ α) (p : Nat) : Option α :=
  if testPort l'.inputPort p then
    -- a handler call has now seen what was latched
    if !l.hasSignal && (w.held p).isNone then some (l.inputData p) else w.held p
  else none

variable (K : KernelFn σ α)

/-- The notes on the body that leads from `s` to `t`. -/
def Watch.noteBody (w : Watch α) (s t : KernelState σ α) : Watch α :=
  { w with
    shown := fun p => w.shown p ++ w.firstShown s.locals t.locals p
    held := fun p => w.heldAfter s.locals t.locals p
    lastRet := (bodyResult K s.locals).ret.getD w.lastRet
    answered := w.answered ++
      (t.responses.drop s.responses.length).map fun rsp => (s.locals.event, rsp)
    ranHandler := w.ranHandler || !s.locals.hasSignal
    answers := w.answers + (t.responses.length - s.responses.length) }

/-- The notes on the kernel's next step. -/
def Watch.note (w : Watch α) (s : KernelState σ α) : Watch α :=
  match s.pc with
  | .head =>
    { w with
      received := w.received ++ leftBy s.requests (kernelStep K s).requests
      ranHandler := false
      wrote := false
      answers := 0 }
  | .readIn _ =>
    { w with read := fun p => w.read p ++ leftBy (s.ins p).q ((kernelStep K s).ins p).q }
  | .body => w.noteBody K s (kernelStep K s)
  | .writeOut [] => w
  | .writeOut (q :: _) => { w with wrote := w.wrote || testPort s.locals.outputPort q }

/-- A step of the kernel or of the world outside, with the observer's notes. -/
def watchedStep (sw : KernelState σ α × Watch α) (a : KernelAction α) :
    Option (KernelState σ α × Watch α) :=
  (kstep K sw.1 a).map fun t =>
    match a with
    | .kernel => (t, sw.2.note K sw.1)
    | _ => (t, sw.2)

/-! ## What the notes say -/

/-- The flit of port `p` that is latched and that no handler call has seen. -/
def unseen (s : KernelState σ α) (w : Watch α) (p : Nat) : List α :=
  if testPort s.locals.inputPort p && (w.held p).isNone then [s.locals.inputData p] else []

/-- The request that is received and not answered. -/
def unanswered (l : Locals σ α) : List ClSignal := if l.hasSignal then [l.event] else []

/-- What an iteration has done at each place of the loop. -/
def IterationSoFar (s : KernelState σ α) (w : Watch α) : Prop :=
  match s.pc with
  | .head => s.locals.hasSignal = false ∧
      -- `continue` leads back to the head as well
      (w.answers = 0 ∨ w.answers = 1 ∧ w.ranHandler = false ∧ w.wrote = false)
  | .readIn _ | .body => w.answers = 0 ∧ w.ranHandler = false ∧ w.wrote = false
  | .writeOut _ => s.locals.hasSignal = false ∧ w.answers = 0

/-- The notes agree with the state. -/
structure Disciplined (s : KernelState σ α) (w : Watch α) : Prop where
  /-- The flits leave a stream in the order in which they came. -/
  fifo : ∀ p, s.arrived p = w.read p ++ (s.ins p).q
  /-- What has left a stream has been shown, in order, or is latched and not yet seen. -/
  shown : ∀ p, w.read p = (w.shown p).map Prod.fst ++ unseen s w p
  /-- What a handler call has seen stays latched. -/
  held : ∀ p f, w.held p = some f →
    testPort s.locals.inputPort p = true ∧ s.locals.inputData p = f
  /-- The mask of the last `return` says what is read. -/
  lastRet : s.locals.ret = w.lastRet
  /-- The requests are answered in order. -/
  received : w.received = w.answered.map Prod.fst ++ unanswered s.locals
  /-- The host gets the answers noted. -/
  responses : s.responses = w.answered.map Prod.snd
  /-- An answer is the only thing that its iteration does. -/
  iteration : IterationSoFar s w

variable {K} {s t : KernelState σ α} {w : Watch α}

@[simp] theorem leftBy_self {β : Type} (l : List β) : leftBy l l = [] := by
  rw [leftBy, Nat.sub_self, List.take_zero]

theorem leftBy_tail {β : Type} (b : β) (l : List β) : leftBy (b :: l) l = [b] := by
  rw [leftBy, List.length_cons, Nat.add_sub_cancel_left]
  rfl

/-- The head of the loop: a request is received, if there is one. -/
theorem disciplined_head (hpc : s.pc = .head) (h : Disciplined s w) :
    Disciplined (kernelStep K s) (w.note K s) := by
  have hiter := h.iteration
  rw [IterationSoFar, hpc] at hiter
  have hreceived := h.received
  rw [unanswered, hiter.1, if_neg Bool.false_ne_true, List.append_nil] at hreceived
  have hstep : kernelStep K s = recvStep K s := by rw [kernelStep, hpc]
  rw [Watch.note, hpc, hstep]
  unfold recvStep
  rw [hiter.1]
  split
  · cases hreq : s.requests with
    | nil =>
      refine ⟨h.fifo, h.shown, h.held, h.lastRet, ?_, h.responses, ⟨rfl, rfl, rfl⟩⟩
      show w.received ++ leftBy [] [] = w.answered.map Prod.fst ++ unanswered s.locals
      rw [leftBy_self, List.append_nil, hreceived, unanswered, hiter.1]
      exact (List.append_nil _).symm
    | cons req rest =>
      refine ⟨h.fifo, h.shown, h.held, h.lastRet, ?_, h.responses, ⟨rfl, rfl, rfl⟩⟩
      show w.received ++ leftBy (req :: rest) rest = w.answered.map Prod.fst ++ [req]
      rw [leftBy_tail, hreceived]
  · refine ⟨h.fifo, h.shown, h.held, h.lastRet, ?_, h.responses, ⟨rfl, rfl, rfl⟩⟩
    show w.received ++ leftBy s.requests s.requests
      = w.answered.map Prod.fst ++ unanswered s.locals
    rw [leftBy_self, List.append_nil, hreceived, unanswered, hiter.1]
    exact (List.append_nil _).symm

/-- A read takes the oldest flit of a stream whose bit is in the mask of the last `return`, into
a latch that is free. -/
theorem readPort_cases (s : KernelState σ α) (q : Nat) :
    readPort s q = s ∨
      testPort s.locals.ret q = true ∧ testPort s.locals.inputPort q = false ∧
        ∃ f stream, (s.ins q).readNb = (some f, stream) ∧ (s.ins q).q = f :: stream.q ∧
          readPort s q = { s with
            ins := Function.update s.ins q stream
            locals := { s.locals with
              inputData := fun i => if i = q then f else s.locals.inputData i
              inputPort := s.locals.inputPort ||| PORT_BIT q } } := by
  unfold readPort
  split
  · rename_i hcond
    obtain ⟨hret, hfree⟩ := Bool.and_eq_true_iff.mp hcond
    cases hread : (s.ins q).readNb with
    | mk o stream =>
      cases o with
      | none => exact Or.inl rfl
      | some f =>
        exact Or.inr ⟨hret, by simpa using hfree, f, stream, rfl, SwStream.readNb_eq_some hread,
          rfl⟩
  · exact Or.inl rfl

/-- Such a read takes the flit from its own stream, and nothing from any other. -/
theorem leftBy_update {ins : Nat → SwStream α} {q : Nat} {f : α} {stream : SwStream α}
    (hq : (ins q).q = f :: stream.q) (p : Nat) :
    leftBy (ins p).q (Function.update ins q stream p).q = (if p = q then [f] else []) ∧
      leftBy (ins p).q (Function.update ins q stream p).q ++ (Function.update ins q stream p).q
        = (ins p).q := by
  by_cases hpq : p = q
  · subst hpq
    rw [Function.update_self, hq, leftBy_tail, if_pos rfl]
    exact ⟨rfl, rfl⟩
  · rw [Function.update_of_ne hpq, leftBy_self, if_neg hpq]
    exact ⟨rfl, rfl⟩

/-- The reads. -/
theorem disciplined_read {rest : List Nat} (hpc : s.pc = .readIn rest) (h : Disciplined s w) :
    Disciplined (kernelStep K s) (w.note K s) := by
  have hiter := h.iteration
  rw [IterationSoFar, hpc] at hiter
  have hquiet : ∀ x : Watch α,
      { x with read := fun p => x.read p ++ leftBy (s.ins p).q (s.ins p).q }
      = x := by
    intro x
    simp
  cases rest with
  | nil =>
    have hstep : kernelStep K s = { s with pc := .body } := by rw [kernelStep, hpc]
    rw [Watch.note, hpc, hstep]
    show Disciplined _ { w with read := fun p => w.read p ++ leftBy (s.ins p).q (s.ins p).q }
    rw [hquiet]
    exact ⟨h.fifo, h.shown, h.held, h.lastRet, h.received, h.responses, hiter⟩
  | cons q rest =>
    have hstep : kernelStep K s = { readPort s q with pc := .readIn rest } := by
      rw [kernelStep, hpc]
    rw [Watch.note, hpc, hstep]
    rcases readPort_cases s q with hsame | ⟨hret, hfree, f, stream, -, hq, hread⟩
    · rw [hsame]
      show Disciplined _ { w with read := fun p => w.read p ++ leftBy (s.ins p).q (s.ins p).q }
      rw [hquiet]
      exact ⟨h.fifo, h.shown, h.held, h.lastRet, h.received, h.responses, hiter⟩
    · rw [hread]
      -- the free latch of `q` was not held, so the flit is unseen
      have hheld : w.held q = none := by
        cases hw : w.held q with
        | none => rfl
        | some g =>
          rw [(h.held q g hw).1] at hfree
          cases hfree
      refine ⟨fun p => ?_, fun p => ?_, fun p g hg => ?_, h.lastRet, h.received, h.responses,
        hiter⟩
      · have hp := h.fifo p
        show s.arrived p = (w.read p ++ leftBy (s.ins p).q (Function.update s.ins q stream p).q)
          ++ (Function.update s.ins q stream p).q
        rw [List.append_assoc, (leftBy_update hq p).2, hp]
      · have hp := h.shown p
        show w.read p ++ leftBy (s.ins p).q (Function.update s.ins q stream p).q
          = (w.shown p).map Prod.fst
            ++ if testPort (s.locals.inputPort ||| PORT_BIT q) p && (w.held p).isNone then
              [if p = q then f else s.locals.inputData p] else []
        rw [testPort_or_PORT_BIT (lt_of_testPort hret), (leftBy_update hq p).1, hp, unseen]
        by_cases hpq : p = q
        · subst hpq
          simp [hfree, hheld]
        · simp [hpq]
      · have hne : p ≠ q := by
          rintro rfl
          rw [hheld] at hg
          cases hg
        obtain ⟨hbit, hdata⟩ := h.held p g hg
        show testPort (s.locals.inputPort ||| PORT_BIT q) p = true
          ∧ (if p = q then f else s.locals.inputData p) = g
        rw [testPort_or_PORT_BIT (lt_of_testPort hret), hbit, if_neg hne]
        exact ⟨rfl, hdata⟩

/-- The variables after a body, but for the signal flag and the output masks. -/
theorem locals_bodyStep :
    (bodyStep K s).locals.inputPort = (runBody s.locals (bodyResult K s.locals)).inputPort ∧
      (bodyStep K s).locals.inputData = s.locals.inputData ∧
      (bodyStep K s).locals.ret = (bodyResult K s.locals).ret.getD s.locals.ret := by
  have hdata : (runBody s.locals (bodyResult K s.locals)).inputData = s.locals.inputData :=
    inputData_applyOps _ _
  unfold bodyStep
  simp only []
  split <;> exact ⟨rfl, hdata, rfl⟩

/-- A body latches nothing. -/
theorem testPort_bodyStep {p : Nat} (h : testPort (bodyStep K s).locals.inputPort p = true) :
    testPort s.locals.inputPort p = true := by
  rw [locals_bodyStep.1, runBody, testPort_applyOps] at h
  exact (Bool.and_eq_true_iff.mp h).1

theorem ins_bodyStep : (bodyStep K s).ins = s.ins := by
  unfold bodyStep
  simp only []
  split <;> rfl

/-- The `.signal` body ends the iteration with an answer. -/
theorem bodyStep_of_signal (hsig : s.locals.hasSignal = true) :
    (bodyStep K s).pc = .head ∧ (bodyStep K s).locals.hasSignal = false ∧
      (bodyStep K s).responses = s.responses ++ [(bodyResult K s.locals).outevent] := by
  unfold bodyStep
  simp only []
  rw [if_pos hsig]
  exact ⟨rfl, rfl, rfl⟩

/-- The handler goes on to the writes without one. -/
theorem bodyStep_of_handler (hsig : s.locals.hasSignal = false) :
    (bodyStep K s).pc = .writeOut K.outPorts ∧ (bodyStep K s).locals.hasSignal = false ∧
      (bodyStep K s).responses = s.responses := by
  unfold bodyStep
  simp only []
  rw [if_neg (by rw [hsig]; exact Bool.false_ne_true)]
  exact ⟨rfl, (hasSignal_applyOps _ _).trans hsig, rfl⟩

/-- What was unseen before a body is shown to it for the first time or is unseen after it. -/
theorem unseen_body (w : Watch α) (s : KernelState σ α) (p : Nat) :
    unseen s w p = (w.firstShown s.locals (bodyStep K s).locals p).map Prod.fst
      ++ unseen (bodyStep K s) (w.noteBody K s (bodyStep K s)) p := by
  have hlatch := testPort_bodyStep (K := K) (s := s) (p := p)
  have hdata := (locals_bodyStep (K := K) (s := s)).2.1
  simp only [unseen, Watch.noteBody, Watch.firstShown, Watch.heldAfter, hdata]
  generalize testPort (bodyStep K s).locals.inputPort p = b' at hlatch
  cases b' with
  | true =>
    rw [hlatch rfl]
    cases w.held p <;> cases s.locals.hasSignal <;> rfl
  | false =>
    cases testPort s.locals.inputPort p <;> cases w.held p <;> cases s.locals.hasSignal <;> rfl

/-- The body. -/
theorem disciplined_body (hpc : s.pc = .body) (h : Disciplined s w) :
    Disciplined (kernelStep K s) (w.note K s) := by
  have hiter := h.iteration
  rw [IterationSoFar, hpc] at hiter
  obtain ⟨hanswers, hran, hwrote⟩ := hiter
  have hstep : kernelStep K s = bodyStep K s := by rw [kernelStep, hpc]
  have hnote : w.note K s = w.noteBody K s (bodyStep K s) := by rw [Watch.note, hpc, hstep]
  obtain ⟨hport, hdata, hret⟩ := locals_bodyStep (K := K) (s := s)
  have hshown : ∀ p, w.read p = (w.shown p ++ w.firstShown s.locals (bodyStep K s).locals p).map
      Prod.fst ++ unseen (bodyStep K s) (w.noteBody K s (bodyStep K s)) p := by
    intro p
    rw [h.shown p, unseen_body (K := K), List.map_append, List.append_assoc]
  -- what a handler call sees and leaves latched is held from now on
  have hheld : ∀ p f, w.heldAfter s.locals (bodyStep K s).locals p = some f →
      testPort (bodyStep K s).locals.inputPort p = true ∧
        (bodyStep K s).locals.inputData p = f := by
    intro p f hf
    rw [hdata]
    unfold Watch.heldAfter at hf
    split at hf
    · rename_i hlatched
      refine ⟨hlatched, ?_⟩
      split at hf
      · exact Option.some.inj hf
      · exact (h.held p f hf).2
    · cases hf
  have hlast : (bodyStep K s).locals.ret = (bodyResult K s.locals).ret.getD w.lastRet := by
    rw [hret, h.lastRet]
  have hfifo : ∀ p, (bodyStep K s).arrived p = w.read p ++ ((bodyStep K s).ins p).q := by
    intro p
    rw [arrived_bodyStep, ins_bodyStep, h.fifo p]
  rw [hstep, hnote]
  cases hsig : s.locals.hasSignal with
  -- the `.signal` body: it answers and goes back to the head
  | true =>
    obtain ⟨hpc', hsig', hresp⟩ := bodyStep_of_signal (K := K) hsig
    have hreceived := h.received
    rw [unanswered, hsig, if_pos rfl] at hreceived
    refine ⟨hfifo, hshown, hheld, hlast, ?_, ?_, ?_⟩
    · simp only [Watch.noteBody, hresp, List.drop_left, unanswered, hsig', hreceived]
      simp
    · simp only [Watch.noteBody, hresp, List.drop_left, h.responses]
      simp
    · rw [IterationSoFar, hpc']
      refine ⟨hsig', Or.inr ⟨?_, ?_, hwrote⟩⟩
      · simp [Watch.noteBody, hresp, hanswers]
      · simp [Watch.noteBody, hran, hsig]
  -- the handler: it answers nothing
  | false =>
    obtain ⟨hpc', hsig', hresp⟩ := bodyStep_of_handler (K := K) hsig
    have hreceived := h.received
    rw [unanswered, hsig, if_neg Bool.false_ne_true] at hreceived
    refine ⟨hfifo, hshown, hheld, hlast, ?_, ?_, ?_⟩
    · simp only [Watch.noteBody, hresp, List.drop_length, unanswered, hsig', hreceived]
      simp
    · simp only [Watch.noteBody, hresp, List.drop_length, h.responses]
      simp
    · rw [IterationSoFar, hpc']
      refine ⟨hsig', ?_⟩
      simp [Watch.noteBody, hresp, hanswers]

/-- The writes. -/
theorem disciplined_write {rest : List Nat} (hpc : s.pc = .writeOut rest) (h : Disciplined s w) :
    Disciplined (kernelStep K s) (w.note K s) := by
  have hiter := h.iteration
  rw [IterationSoFar, hpc] at hiter
  cases rest with
  | nil =>
    have hstep : kernelStep K s = { s with pc := .head } := by rw [kernelStep, hpc]
    rw [Watch.note, hpc, hstep]
    exact ⟨h.fifo, h.shown, h.held, h.lastRet, h.received, h.responses, hiter.1, Or.inl hiter.2⟩
  | cons q rest =>
    have hstep : kernelStep K s = { writePort s q with pc := .writeOut rest } := by
      rw [kernelStep, hpc]
    rw [Watch.note, hpc, hstep]
    unfold writePort
    split
    · split
      · exact ⟨h.fifo, h.shown, h.held, h.lastRet, h.received, h.responses, hiter⟩
      · exact ⟨h.fifo, h.shown, h.held, h.lastRet, h.received, h.responses, hiter⟩
    · exact ⟨h.fifo, h.shown, h.held, h.lastRet, h.received, h.responses, hiter⟩

/-- **One step keeps the notes right.** -/
theorem disciplined_step {sw sw' : KernelState σ α × Watch α} {a : KernelAction α}
    (h : Disciplined sw.1 sw.2) (hs : watchedStep K sw a = some sw') :
    Disciplined sw'.1 sw'.2 := by
  obtain ⟨s, w⟩ := sw
  cases a with
  | kernel =>
    cases hs
    show Disciplined (kernelStep K s) (w.note K s)
    cases hpc : s.pc with
    | head => exact disciplined_head hpc h
    | readIn rest => exact disciplined_read hpc h
    | body => exact disciplined_body hpc h
    | writeOut rest => exact disciplined_write hpc h
  | produce q f =>
    cases hs
    show Disciplined (produceStep s q f) w
    unfold produceStep
    split
    · rename_i stream hwrite
      have hq := SwStream.writeNb_eq_true hwrite
      refine ⟨fun p => ?_, h.shown, h.held, h.lastRet, h.received, h.responses, h.iteration⟩
      have hp : s.arrived p = w.read p ++ (s.ins p).q := h.fifo p
      by_cases hpq : p = q
      · subst hpq
        simp [hp, hq]
      · simpa [hpq] using hp
    · exact h
  | consume q =>
    cases hs
    show Disciplined (consumeStep s q) w
    unfold consumeStep
    split
    · exact ⟨h.fifo, h.shown, h.held, h.lastRet, h.received, h.responses, h.iteration⟩
    · exact h
  | post req =>
    cases hs
    exact ⟨h.fifo, h.shown, h.held, h.lastRet, h.received, h.responses, h.iteration⟩

/-- At its start the kernel has read nothing and the observer has no notes. -/
theorem disciplined_kinit [Inhabited α] (state : σ) (inCap outCap : Nat → Int) :
    Disciplined (kinit state inCap outCap : KernelState σ α) {} where
  fifo := fun _ => rfl
  shown := fun p => by simp [unseen, kinit]
  held := fun _ _ hf => by cases hf
  lastRet := rfl
  received := rfl
  responses := rfl
  iteration := ⟨rfl, Or.inl rfl⟩

/-- **The run lemma.** -/
theorem disciplined_exec [Inhabited α] (K : KernelFn σ α) (state : σ) (inCap outCap : Nat → Int)
    (as : List (KernelAction α)) :
    Disciplined (exec (watchedStep K) (kinit state inCap outCap, {}) as).1
      (exec (watchedStep K) (kinit state inCap outCap, {}) as).2 :=
  inv_exec (P := fun sw : KernelState σ α × Watch α => Disciplined sw.1 sw.2)
    (fun _ _ _ h hs => disciplined_step h hs) as (disciplined_kinit state inCap outCap)

/-- The next step reads only a stream that the last `return` asked for, into a latch that is
free. -/
theorem read_asked (h : Disciplined s w) {p : Nat}
    (hread : streamOp s.locals s.pc = some (.read p)) :
    testPort w.lastRet p = true ∧ testPort s.locals.inputPort p = false := by
  rw [← h.lastRet]
  unfold streamOp at hread
  split at hread
  · split at hread
    · rename_i q rest hpc hcond
      obtain ⟨hret, hfree⟩ := Bool.and_eq_true_iff.mp hcond
      have hq : q = p := StreamOp.read.inj (Option.some.inj hread)
      rw [← hq]
      exact ⟨hret, by simpa using hfree⟩
    · cases hread
  · split at hread <;> cases hread
  · cases hread

/-- An iteration that has answered has called no handler and written to no stream. -/
theorem answers_apart (h : Disciplined s w) (hone : 0 < w.answers) :
    w.answers = 1 ∧ w.ranHandler = false ∧ w.wrote = false := by
  have hiter := h.iteration
  unfold IterationSoFar at hiter
  split at hiter
  · rcases hiter.2 with h0 | h1
    · omega
    · exact h1
  · omega
  · omega
  · omega

/-- At the head of the loop nothing is left to answer. -/
theorem answered_at_head (h : Disciplined s w) (hpc : s.pc = .head) :
    w.received = w.answered.map Prod.fst := by
  have hiter := h.iteration
  rw [IterationSoFar, hpc] at hiter
  rw [h.received, unanswered, hiter.1, if_neg Bool.false_ne_true, List.append_nil]

/-! ## Where the `.signal` body leaves an input alone -/

/-- A body that the handler is not shows nothing where it clears nothing. -/
theorem firstShown_seen {p : Nat} (hclears : ∀ v, (K.signal v).ops.any (PortOp.clears p) = false) :
    ∀ x ∈ w.firstShown s.locals (bodyStep K s).locals p, x.2 = true := by
  intro x hx
  unfold Watch.firstShown at hx
  split at hx
  · rename_i hcond
    split at hx
    · rw [List.mem_singleton.mp hx]
    · rename_i hsig
      have hsignal : s.locals.hasSignal = true := by simpa using hsig
      have hresult : bodyResult K s.locals = K.signal (viewOf s.locals) := if_pos hsignal
      have hkept : testPort (bodyStep K s).locals.inputPort p = true := by
        rw [locals_bodyStep.1, runBody, testPort_applyOps, hresult, hclears, Bool.not_false,
          Bool.and_true]
        exact (Bool.and_eq_true_iff.mp hcond).1
      rw [hkept, if_neg (by decide)] at hx
      cases hx
  · cases hx

/-- Then whatever is shown is seen by a handler call. -/
theorem shown_seen_step {p : Nat} (hclears : ∀ v, (K.signal v).ops.any (PortOp.clears p) = false)
    {sw sw' : KernelState σ α × Watch α} {a : KernelAction α}
    (h : ∀ x ∈ sw.2.shown p, x.2 = true) (hs : watchedStep K sw a = some sw') :
    ∀ x ∈ sw'.2.shown p, x.2 = true := by
  obtain ⟨s, w⟩ := sw
  cases a with
  | kernel =>
    cases hs
    show ∀ x ∈ (w.note K s).shown p, x.2 = true
    cases hpc : s.pc with
    | body =>
      have hstep : kernelStep K s = bodyStep K s := by rw [kernelStep, hpc]
      rw [Watch.note, hpc, hstep]
      exact List.forall_mem_append.mpr ⟨h, firstShown_seen hclears⟩
    | writeOut rest =>
      rw [Watch.note, hpc]
      cases rest <;> exact h
    | _ =>
      rw [Watch.note, hpc]
      exact h
  | _ =>
    cases hs
    exact h

/-- The handler calls of such an element see every flit that leaves the stream. -/
theorem presented_of_kept [Inhabited α] {p : Nat}
    (hclears : ∀ v, (K.signal v).ops.any (PortOp.clears p) = false) (state : σ)
    (inCap outCap : Nat → Int) (as : List (KernelAction α)) :
    (exec (watchedStep K) (kinit state inCap outCap, {}) as).2.presented p
      = ((exec (watchedStep K) (kinit state inCap outCap, {}) as).2.shown p).map Prod.fst := by
  have hseen : ∀ x ∈ (exec (watchedStep K) (kinit state inCap outCap, {}) as).2.shown p,
      x.2 = true :=
    inv_exec (P := fun sw : KernelState σ α × Watch α => ∀ x ∈ sw.2.shown p, x.2 = true)
      (fun _ _ _ h hs => shown_seen_step hclears h hs) as fun x hx => absurd hx List.not_mem_nil
  rw [Watch.presented, List.filter_eq_self.mpr hseen]

/-! ## Every run -/

/-- **What the bodies are shown and the host is answered.** For every kernel, every handler and
`.signal` body, every capacity of the streams and every interleaving with producers, consumers and
requesters, in the state reached:
the flits leave an input stream in the order in which they came in; those that have left have been
shown to a body, each once and in this order, but for one in the latch that no body has handled
yet; that body is a handler call on a port that the `.signal` body does not clear; what a handler
call has seen and no body has cleared is still latched, unchanged; a stream is read only if the
last `return` asked for it, and never over a latched flit; each request received has one answer, in
order, but for the one that the iteration under way is to answer; and an iteration that has
answered has done so once, has called no handler and written to no stream. -/
theorem shown_and_answered [Inhabited α] (K : KernelFn σ α) (state : σ) (inCap outCap : Nat → Int)
    (as : List (KernelAction α)) :
    let sw := exec (watchedStep K) (kinit state inCap outCap, {}) as
    (∀ p, sw.1.arrived p = sw.2.read p ++ (sw.1.ins p).q) ∧
      (∀ p, sw.2.read p = (sw.2.shown p).map Prod.fst ++ unseen sw.1 sw.2 p) ∧
      (∀ p, (∀ v, (K.signal v).ops.any (PortOp.clears p) = false) →
        sw.2.read p = sw.2.presented p ++ unseen sw.1 sw.2 p) ∧
      (∀ p f, sw.2.held p = some f →
        testPort sw.1.locals.inputPort p = true ∧ sw.1.locals.inputData p = f) ∧
      (∀ p, streamOp sw.1.locals sw.1.pc = some (.read p) →
        testPort sw.2.lastRet p = true ∧ testPort sw.1.locals.inputPort p = false) ∧
      (sw.2.received = sw.2.answered.map Prod.fst ++ unanswered sw.1.locals ∧
        sw.1.responses = sw.2.answered.map Prod.snd) ∧
      (sw.1.pc = .head → sw.2.received = sw.2.answered.map Prod.fst) ∧
      (0 < sw.2.answers →
        sw.2.answers = 1 ∧ sw.2.ranHandler = false ∧ sw.2.wrote = false) := by
  intro sw
  have h : Disciplined sw.1 sw.2 := disciplined_exec K state inCap outCap as
  refine ⟨h.fifo, h.shown, fun p hclears => ?_, h.held, fun p => read_asked h,
    ⟨h.received, h.responses⟩, answered_at_head h, answers_apart h⟩
  rw [presented_of_kept hclears]
  exact h.shown p

end

/-! ## A `.signal` body that clears an input -/

/-- An element whose `.signal` body drops what is latched on its input. -/
def flusher : KernelFn Unit Flit where
  inPorts := [1]
  outPorts := []
  nodup_outPorts := List.nodup_nil
  hasSignal := true
  handler := fun v => { state := v.state, ops := [], ret := some (PORT_BIT 1) }
  signal := fun v =>
    { state := v.state, ops := [.clearInputReady (PORT_BIT 1)], ret := none, outevent := v.event }

/-- A flit comes in and a signal is posted before the first iteration: the flit has then left the
stream, it is not latched, and no handler call has seen it. -/
theorem handler_misses_flit :
    ¬ ∀ (K : KernelFn Unit Flit) (state : Unit) (inCap outCap : Nat → Int)
      (as : List (KernelAction Flit)) (p : Nat),
      let sw := exec (watchedStep K) (kinit state inCap outCap, {}) as
      sw.2.read p = sw.2.presented p ++ unseen sw.1 sw.2 p := by
  intro h
  have hrun := h flusher () (fun _ => 1) (fun _ => 1)
    [.produce 1 {}, .post {}, .kernel, .kernel, .kernel, .kernel] 1
  revert hrun
  decide

end OpenClickNP
