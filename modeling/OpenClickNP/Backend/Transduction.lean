import Mathlib.Data.List.ReduceOption
import OpenClickNP.Backend.HandlerCalls
import OpenClickNP.Lib.Transducer

/-!
# Elements that read one port

Many elements look at port 1 in each call of their handler, take the flit if there is one, and
pass on what they make of it. Such an element is a transducer that reads, call by call, what the
port offers: whatever the interleaving, a run passes on the transducer's output for what its calls
have been offered (`Transduces.run`). Signals that leave alone what the transducer knows of the
state may come in at any time.

The other way round, a flit that is put into a waiting kernel goes through its handler within one
iteration (`Transduces.turn`), so that there is a run for every list of flits
(`Transduces.feed`).
-/

namespace OpenClickNP

open Run

variable {σ τ α : Type} {K : KernelFn σ α} {s t u : KernelState σ α}

/-! ## Calls and signals -/

/-- What a call finds on port 1. -/
def offered (v : View σ α) : Option α :=
  if testPort v.inputPort 1 then some (v.inputData 1) else none

/-- A handler that starts with `if (test_input_port(1)) read_input_port(1)` takes what it finds. -/
theorem takenIn_offered {v : View σ α} {r : BodyResult σ α} {rest : List (PortOp α)}
    (hops : r.ops
      = if testPort v.inputPort 1 then .clearInputReady (PORT_BIT 1) :: rest else []) :
    takenIn 1 v r = (offered v).toList := by
  rw [takenIn_of_ready (by decide) hops, offered]
  split <;> rfl

/-- A handler that then sends on what `g` makes of the flit. -/
theorem setsOf_offered (g : α → α) {v : View σ α} {r : BodyResult σ α}
    (hops : r.ops = if testPort v.inputPort 1 then
        [.clearInputReady (PORT_BIT 1), .setOutputPort 1 (g (v.inputData 1))] else []) :
    setsOf 1 r.ops = ((offered v).map g).toList := by
  rw [setsOf_of_ready 1 hops, offered]
  split <;> rfl

/-- What the handler calls of a run find on port 1. -/
def calls (K : KernelFn σ α) (s : KernelState σ α) (as : List (KernelAction α)) :
    List (Option α) := (handlerViews K s as).map offered

theorem handlerView_of_not_body {a : KernelAction α} (h : a = .kernel → s.pc ≠ .body) :
    handlerView s a = [] := by
  cases a with
  | kernel =>
    unfold handlerView
    cases hpc : s.pc with
    | body => exact absurd hpc (h rfl)
    | _ => rfl
  | _ => rfl

theorem handlerView_body (hpc : s.pc = .body) (hsig : s.locals.hasSignal = false) :
    handlerView s .kernel = [viewOf s.locals] := by
  simp [handlerView, hpc, hsig]

variable {harmless : ClSignal → Prop}

/-- Where no signal does harm, whatever may be posted. -/
theorem meets_posts (hall : ∀ req, harmless req) (s : KernelState σ α)
    (as : List (KernelAction α)) : Meets (kstep K) (Posts harmless) s as := by
  induction as generalizing s with
  | nil => trivial
  | cons a as ih =>
    cases a with
    | post req => exact ⟨hall req, ih _⟩
    | _ => exact ⟨trivial, ih _⟩

/-- The rule for runs, behind some calls. Induction on the actions. -/
theorem inv_views_from {P : σ → List (View σ α) → (Nat → List α) → (Nat → List α) → Prop}
    {g : View σ α → Prop}
    (hcall : ∀ (v : View σ α) (vs : List (View σ α)) (taken sent : Nat → List α), g v →
      P v.state vs taken sent →
      P (K.handler v).state (vs ++ [v]) (fun p => taken p ++ takenIn p v (K.handler v))
        fun p => sent p ++ setsOf p (K.handler v).ops)
    (hops : ∀ v, (K.signal v).ops = [])
    (hsignal : ∀ (v : View σ α) (vs : List (View σ α)) (taken sent : Nat → List α),
      harmless v.event → P v.state vs taken sent → P (K.signal v).state vs taken sent)
    (hquiet : Quiet harmless s) {as : List (KernelAction α)}
    (hposts : Meets (kstep K) (Posts harmless) s as) (hok : ∀ v ∈ handlerViews K s as, g v)
    {vs : List (View σ α)} (h : P s.locals.state vs s.taken s.sent) :
    P (exec (kstep K) s as).locals.state (vs ++ handlerViews K s as) (exec (kstep K) s as).taken
      (exec (kstep K) s as).sent := by
  induction as generalizing s vs with
  | nil => simpa [handlerViews, exec] using h
  | cons a as ih =>
    unfold Meets at hposts
    unfold handlerViews at hok ⊢
    unfold exec
    cases hs : kstep K s a with
    | none => simpa using h
    | some t =>
      rw [hs] at hposts hok
      have hnext := quiet_step hquiet hposts.1 hs
      have hrest : ∀ v ∈ handlerViews K t as, g v := fun v hv => hok v (List.mem_append_right _ hv)
      rcases records_step hs with ⟨rfl, hpc, rfl⟩ | ⟨hpc, hrec⟩
      · have htaken : (bodyStep K s).taken = fun p => s.taken p
            ++ takenIn p (viewOf s.locals) (bodyResult K s.locals) :=
          funext fun p => taken_bodyStep p
        have hsent : (bodyStep K s).sent
            = fun p => s.sent p ++ setsOf p (bodyResult K s.locals).ops :=
          funext fun p => sent_bodyStep p
        cases hsig : s.locals.hasSignal with
        | false =>
          rw [handlerView_body hpc hsig] at hok ⊢
          have hstep := hcall (viewOf s.locals) vs s.taken s.sent (hok _ List.mem_cons_self) h
          rw [← bodyResult_of_noSignal hsig, ← state_bodyStep, ← htaken, ← hsent] at hstep
          rw [← List.append_assoc]
          exact ih hnext hposts.2 hrest hstep
        | true =>
          have hserve : bodyResult K s.locals = K.signal (viewOf s.locals) := by
            simp [bodyResult, hsig]
          have hstep := hsignal (viewOf s.locals) vs s.taken s.sent (hquiet.latched hsig) h
          have hsame : (bodyStep K s).taken = s.taken ∧ (bodyStep K s).sent = s.sent := by
            rw [htaken, hsent, hserve]
            simp [takenIn, setsOf, hops]
          rw [← hserve, ← state_bodyStep, ← hsame.1, ← hsame.2] at hstep
          rw [show handlerView s .kernel = [] by simp [handlerView, hpc, hsig]]
          exact ih hnext hposts.2 hrest hstep
      · rw [handlerView_of_not_body hpc]
        rw [← hrec.state, ← hrec.taken, ← hrec.sent] at h
        exact ih hnext hposts.2 hrest h

/-- **The rule for runs.** What every handler call and every harmless signal keeps of the state
block, of the calls so far and of what has been taken and sent holds after a run in which only
harmless signals are posted; `g` is what the calls of the run are known to find. -/
theorem inv_views {P : σ → List (View σ α) → (Nat → List α) → (Nat → List α) → Prop}
    {g : View σ α → Prop}
    (hcall : ∀ (v : View σ α) (vs : List (View σ α)) (taken sent : Nat → List α), g v →
      P v.state vs taken sent →
      P (K.handler v).state (vs ++ [v]) (fun p => taken p ++ takenIn p v (K.handler v))
        fun p => sent p ++ setsOf p (K.handler v).ops)
    (hops : ∀ v, (K.signal v).ops = [])
    (hsignal : ∀ (v : View σ α) (vs : List (View σ α)) (taken sent : Nat → List α),
      harmless v.event → P v.state vs taken sent → P (K.signal v).state vs taken sent)
    (hquiet : Quiet harmless s) {as : List (KernelAction α)}
    (hposts : Meets (kstep K) (Posts harmless) s as) (hok : ∀ v ∈ handlerViews K s as, g v)
    (h : P s.locals.state [] s.taken s.sent) :
    P (exec (kstep K) s as).locals.state (handlerViews K s as) (exec (kstep K) s as).taken
      (exec (kstep K) s as).sent :=
  inv_views_from hcall hops hsignal hquiet hposts hok h

/-- **The rule for bodies.** The same where the calls so far do not matter. -/
theorem inv_bodies {P : σ → (Nat → List α) → (Nat → List α) → Prop}
    (hcall : ∀ (v : View σ α) (taken sent : Nat → List α), P v.state taken sent →
      P (K.handler v).state (fun p => taken p ++ takenIn p v (K.handler v))
        fun p => sent p ++ setsOf p (K.handler v).ops)
    (hops : ∀ v, (K.signal v).ops = [])
    (hsignal : ∀ (v : View σ α) (taken sent : Nat → List α), harmless v.event →
      P v.state taken sent → P (K.signal v).state taken sent)
    (hquiet : Quiet harmless s) {as : List (KernelAction α)}
    (hok : Meets (kstep K) (Posts harmless) s as) (h : P s.locals.state s.taken s.sent) :
    P (exec (kstep K) s as).locals.state (exec (kstep K) s as).taken (exec (kstep K) s as).sent :=
  inv_views (P := fun st _ taken sent => P st taken sent) (g := fun _ => True)
    (fun v _ taken sent _ => hcall v taken sent) hops (fun v _ taken sent => hsignal v taken sent)
    hquiet hok (fun _ _ => trivial) h

/-! ## Signals in order -/

/-- The signals that wait, in the order in which they will be served. -/
def pending (s : KernelState σ α) : List ClSignal :=
  (if s.locals.hasSignal then [s.locals.event] else []) ++ s.requests

/-- The signals that are posted in a run. -/
def posted (as : List (KernelAction α)) : List ClSignal :=
  as.filterMap fun
    | .post req => some req
    | _ => none

/-- Only signals change the state. -/
structure Replays (K : KernelFn σ α) (apply : σ → ClSignal → σ) : Prop where
  handler : ∀ v, (K.handler v).state = v.state
  signal : ∀ v, (K.signal v).state = apply v.state v.event

theorem pending_of_same (hsig : t.locals.hasSignal = s.locals.hasSignal)
    (hevent : t.locals.event = s.locals.event) (hreq : t.requests = s.requests) :
    pending t = pending s := by
  rw [pending, pending, hsig, hevent, hreq]

theorem event_applyOps (ops : List (PortOp α)) (l : Locals σ α) :
    (ops.foldl applyOp l).event = l.event := by
  induction ops generalizing l with
  | nil => rfl
  | cons op ops ih =>
    rw [List.foldl_cons, ih]
    cases op <;> rfl

/-- A step of the kernel serves the first of the signals that wait, or none. -/
theorem Replays.kernelStep {apply : σ → ClSignal → σ} (hK : Replays K apply) :
    ∃ served, served ++ pending (kernelStep K s) = pending s ∧
      (kernelStep K s).locals.state = served.foldl apply s.locals.state := by
  unfold OpenClickNP.kernelStep
  split
  · unfold recvStep
    split
    · rename_i hcond
      have hsig : s.locals.hasSignal = false := by
        simpa using (Bool.and_eq_true_iff.mp hcond).2
      split
      · exact ⟨[], rfl, rfl⟩
      · rename_i req rest hreq
        exact ⟨[], by simp [pending, hsig, hreq], rfl⟩
    · exact ⟨[], rfl, rfl⟩
  · exact ⟨[], rfl, rfl⟩
  · unfold readPort
    split
    · split <;> exact ⟨[], rfl, rfl⟩
    · exact ⟨[], rfl, rfl⟩
  · cases hsig : s.locals.hasSignal with
    | true =>
      refine ⟨[s.locals.event], ?_, ?_⟩
      · unfold bodyStep
        simp [pending, hsig, runRecorded]
      · rw [state_bodyStep, bodyResult, if_pos hsig, hK.signal]
        rfl
    | false =>
      refine ⟨[], ?_, ?_⟩
      · unfold bodyStep
        simp only [hsig, Bool.false_eq_true, if_false]
        exact pending_of_same (hasSignal_applyOps _ _) (event_applyOps _ _) rfl
      · rw [state_bodyStep, bodyResult_of_noSignal hsig, hK.handler]
        rfl
  · exact ⟨[], rfl, rfl⟩
  · unfold writePort
    split
    · split <;> exact ⟨[], rfl, rfl⟩
    · exact ⟨[], rfl, rfl⟩

/-- A producer leaves the function alone. -/
theorem produceStep_frame (s : KernelState σ α) (p : Nat) (f : α) :
    (produceStep s p f).locals = s.locals ∧ (produceStep s p f).pc = s.pc ∧
      (produceStep s p f).requests = s.requests ∧ (produceStep s p f).taken = s.taken ∧
      (produceStep s p f).sent = s.sent := by
  unfold produceStep
  split <;> exact ⟨rfl, rfl, rfl, rfl, rfl⟩

/-- A step serves some of the signals that wait, and one that is posted waits behind them. -/
theorem Replays.step {apply : σ → ClSignal → σ} (hK : Replays K apply) {a : KernelAction α}
    (hs : kstep K s a = some t) :
    ∃ served, served ++ pending t = pending s ++ posted [a] ∧
      t.locals.state = served.foldl apply s.locals.state := by
  cases a with
  | kernel =>
    cases hs
    obtain ⟨served, hserved, hstate⟩ := hK.kernelStep (s := s)
    exact ⟨served, hserved.trans (List.append_nil _).symm, hstate⟩
  | produce p f =>
    cases hs
    obtain ⟨hlocals, -, hreq, -, -⟩ := produceStep_frame s p f
    refine ⟨[], ?_, congrArg Locals.state hlocals⟩
    rw [pending, pending, hlocals, hreq]
    exact (List.append_nil _).symm
  | consume p =>
    cases hs
    have hframe : (consumeStep s p).locals = s.locals ∧
        (consumeStep s p).requests = s.requests := by
      unfold consumeStep
      split <;> exact ⟨rfl, rfl⟩
    refine ⟨[], ?_, congrArg Locals.state hframe.1⟩
    rw [pending, pending, hframe.1, hframe.2]
    exact (List.append_nil _).symm
  | post req =>
    cases hs
    refine ⟨[], ?_, rfl⟩
    show pending { s with requests := s.requests ++ [req] } = pending s ++ [req]
    rw [pending, pending, List.append_assoc]

/-- **A run replays the signals that have been posted**, but for those that still wait. Induction
on the actions. -/
theorem Replays.exec {apply : σ → ClSignal → σ} (hK : Replays K apply) (s : KernelState σ α)
    (as : List (KernelAction α)) :
    ∃ served, served ++ pending (exec (kstep K) s as) = pending s ++ posted as ∧
      (Run.exec (kstep K) s as).locals.state = served.foldl apply s.locals.state := by
  induction as generalizing s with
  | nil => exact ⟨[], by simp [posted, Run.exec], rfl⟩
  | cons a as ih =>
    obtain ⟨t, hs⟩ : ∃ t, kstep K s a = some t := by cases a <;> exact ⟨_, rfl⟩
    have hexec : Run.exec (kstep K) s (a :: as) = Run.exec (kstep K) t as := by
      rw [Run.exec, hs]
    have hposted : posted (a :: as) = posted [a] ++ posted as := by cases a <;> rfl
    obtain ⟨first, hfirst, hstate⟩ := hK.step hs
    obtain ⟨served, hserved, hrest⟩ := ih t
    refine ⟨first ++ served, ?_, ?_⟩
    · rw [hexec, hposted, List.append_assoc, hserved, ← List.append_assoc, hfirst,
        List.append_assoc]
    · rw [hexec, hrest, List.foldl_append, hstate]

/-! ## From runs to outputs -/

/-- The handler takes the flit of port 1 if there is one, and asks for the next. -/
structure Reads (K : KernelFn σ α) : Prop where
  inPorts : K.inPorts = [1]
  returns : ∀ v, (K.handler v).ret = some (PORT_BIT 1)
  taken : ∀ v, takenIn 1 v (K.handler v) = (offered v).toList

/-- The handler takes the flit of port 1 if there is one, acts as `M` on what it finds, and asks
for the next; `proj` is what `M` knows of the state, and a harmless signal does not change it. -/
structure Transduces (K : KernelFn σ α) (proj : σ → τ) (harmless : ClSignal → Prop)
    (M : Transducer τ (Option α) α) : Prop where
  inPorts : K.inPorts = [1]
  outPorts : K.outPorts = [1]
  returns : ∀ v, (K.handler v).ret = some (PORT_BIT 1)
  state : ∀ v, proj (K.handler v).state = M.next (proj v.state) (offered v)
  taken : ∀ v, takenIn 1 v (K.handler v) = (offered v).toList
  sets : ∀ v, setsOf 1 (K.handler v).ops = M.out (proj v.state) (offered v)
  signalState : ∀ v, harmless v.event → proj (K.signal v).state = proj v.state
  signalOps : ∀ v, (K.signal v).ops = []
  signalRet : ∀ v, (K.signal v).ret = none

theorem Transduces.reads {proj : σ → τ} {M : Transducer τ (Option α) α}
    (hK : Transduces K proj harmless M) : Reads K := ⟨hK.inPorts, hK.returns, hK.taken⟩

/-- Since `s`, the calls have been offered `xs`. -/
structure Transduced (proj : σ → τ) (harmless : ClSignal → Prop) (M : Transducer τ (Option α) α)
    (s : KernelState σ α) (xs : List (Option α)) (t : KernelState σ α) : Prop where
  quiet : Quiet harmless t
  state : proj t.locals.state = M.state (proj s.locals.state) xs
  taken : t.taken 1 = s.taken 1 ++ xs.reduceOption
  sent : t.sent 1 = s.sent 1 ++ M.output (proj s.locals.state) xs

section
variable {proj : σ → τ} {M : Transducer τ (Option α) α} {xs : List (Option α)}

/-- **A run passes on the output for what its calls are offered.** -/
theorem Transduces.run (hK : Transduces K proj harmless M) (hquiet : Quiet harmless s)
    {as : List (KernelAction α)} (hok : Meets (kstep K) (Posts harmless) s as) :
    Transduced proj harmless M s (calls K s as) (exec (kstep K) s as) := by
  have hrecords := inv_views (K := K) (g := fun _ => True)
    (P := fun st vs taken sent => proj st = M.state (proj s.locals.state) (vs.map offered) ∧
      taken 1 = s.taken 1 ++ (vs.map offered).reduceOption ∧
      sent 1 = s.sent 1 ++ M.output (proj s.locals.state) (vs.map offered))
    ?_ hK.signalOps ?_ hquiet hok (fun _ _ => trivial)
    ⟨rfl, (List.append_nil _).symm, (List.append_nil _).symm⟩
  · obtain ⟨hstate, htaken, hsent⟩ := hrecords
    have hend : Quiet harmless (exec (kstep K) s as) :=
      hok.reaches.inv (P := Quiet harmless) hquiet fun _ _ _ h ha hs => quiet_step h ha hs
    exact ⟨hend, hstate, htaken, hsent⟩
  · rintro v vs taken sent - ⟨hstate, htaken, hsent⟩
    rw [List.map_append, List.map_singleton]
    refine ⟨?_, ?_, ?_⟩
    · rw [hK.state, M.state_append, ← hstate]
      rfl
    · show taken 1 ++ takenIn 1 v (K.handler v) = _
      rw [hK.taken, htaken, List.reduceOption_append, List.append_assoc,
        List.reduceOption_singleton]
    · show sent 1 ++ setsOf 1 (K.handler v).ops = _
      rw [hK.sets, hsent, M.output_append, ← hstate, List.append_assoc, M.output_cons,
        M.output_nil, List.append_nil]
  · rintro v vs taken sent hevent ⟨hstate, htaken, hsent⟩
    exact ⟨(hK.signalState v hevent).trans hstate, htaken, hsent⟩

end

/-! ## One iteration -/

/-- The kernel is at the head of its loop, with no signal to serve, and asks for port 1. -/
structure Idle (s : KernelState σ α) : Prop where
  head : s.pc = .head
  noSignal : s.locals.hasSignal = false
  noRequest : s.requests = []
  asked : testPort s.locals.ret 1 = true

/-- And no flit has come in. -/
structure Waiting (s : KernelState σ α) : Prop extends Idle s where
  free : testPort s.locals.inputPort 1 = false
  empty : (s.ins 1).q = []

theorem waiting_kinit [Inhabited α] (state : σ) (inCap outCap : Nat → Int) :
    Waiting (kinit state inCap outCap : KernelState σ α) where
  head := rfl
  noSignal := rfl
  noRequest := rfl
  asked := (by decide : testPort PORT_ALL 1 = true)
  free := testPort_zero 1
  empty := rfl

theorem Idle.quiet (h : Idle s) : Quiet harmless s := quiet_of_none h.noSignal h.noRequest

/-- A flit comes in, and the kernel makes an iteration. -/
def turn (f : α) : List (KernelAction α) := .produce 1 f :: List.replicate 6 .kernel

theorem meets_turn (harmless : ClSignal → Prop) (s : KernelState σ α) (f : α) :
    Meets (kstep K) (Posts harmless) s (turn f) := by
  simp [turn, Meets, kstep, Posts]

/-- The kernel is in front of a handler call that finds a flit on port 1. -/
structure InFront (s u : KernelState σ α) : Prop extends SameRecords s u where
  noSignal : u.locals.hasSignal = false
  noRequest : u.requests = []
  latched : testPort u.locals.inputPort 1 = true

/-- A read that is asked for, from a stream that is not empty. -/
theorem inFront_readPort (hsig : s.locals.hasSignal = false) (hreq : s.requests = [])
    (hasked : testPort s.locals.ret 1 = true) (hne : (s.ins 1).q ≠ []) :
    InFront s (readPort s 1) := by
  unfold readPort
  split
  · split
    · refine ⟨⟨rfl, rfl, rfl⟩, hsig, hreq, ?_⟩
      show testPort (s.locals.inputPort ||| PORT_BIT 1) 1 = true
      rw [testPort_or_PORT_BIT (by omega)]
      simp
    · rename_i stream hread
      exact absurd (SwStream.readNb_eq_none hread) hne
  · rename_i hcond
    refine ⟨⟨rfl, rfl, rfl⟩, hsig, hreq, ?_⟩
    rw [hasked, Bool.true_and] at hcond
    simpa using hcond

/-- The stream is not empty behind a write, whether it found room or not. -/
theorem q_produceStep (s : KernelState σ α) (p : Nat) (f : α) :
    ((produceStep s p f).ins p).q ≠ [] := by
  unfold produceStep
  split
  · rename_i stream hwrite
    have hq := SwStream.writeNb_eq_true hwrite
    simp [hq]
  · rename_i stream hwrite
    intro hempty
    have hroom : (s.ins p).q.length < (s.ins p).capacity := by
      rw [show (s.ins p).q = [] from hempty]
      exact (s.ins p).capacity_pos
    have hok := ((s.ins p).writeNb_of_room hroom f).1
    rw [hwrite] at hok
    cases hok

theorem recvStep_of_noRequest (h : s.requests = []) :
    recvStep K s = { s with pc := .readIn K.inPorts } := by
  unfold recvStep
  split
  · split
    · rfl
    · rename_i req rest hreq
      rw [h] at hreq
      cases hreq
  · rfl

/-- The state in front of the body of the iteration. -/
def readFlit (s : KernelState σ α) (f : α) : KernelState σ α :=
  { readPort { produceStep s 1 f with pc := .readIn [1] } 1 with pc := .body }

theorem inFront_readFlit (h : Idle s) (f : α) : InFront s (readFlit s f) := by
  obtain ⟨hlocals, -, hreq, htaken, hsent⟩ := produceStep_frame s 1 f
  have hread := inFront_readPort (s := { produceStep s 1 f with pc := .readIn [1] })
    (by rw [hlocals]; exact h.noSignal) (hreq.trans h.noRequest) (by rw [hlocals]; exact h.asked)
    (q_produceStep s 1 f)
  exact ⟨⟨hread.state.trans (congrArg Locals.state hlocals), hread.taken.trans htaken,
    hread.sent.trans hsent⟩, hread.noSignal, hread.noRequest, hread.latched⟩

/-- A kernel that waits reads the flit that comes in, and has then emptied the stream. -/
theorem readFlit_of_waiting (h : Waiting s) (f : α) :
    (readFlit s f).locals.inputData 1 = f ∧ ((readFlit s f).ins 1).q = [] := by
  obtain ⟨hok, hq⟩ := (s.ins 1).writeNb_of_room (by rw [h.empty]; exact (s.ins 1).capacity_pos) f
  rw [h.empty, List.nil_append] at hq
  have hasked : (testPort s.locals.ret 1 && !testPort s.locals.inputPort 1) = true := by
    rw [h.asked, h.free]
    rfl
  unfold readFlit produceStep
  split
  · rename_i stream hwrite
    rw [hwrite] at hq
    have hread := stream.q_eq_readNb
    rw [show stream.q = [f] from hq] at hread
    unfold readPort
    simp only [hasked, if_true, Function.update_self]
    split
    · rename_i g rest hnb
      rw [hnb] at hread
      obtain ⟨rfl, hrest⟩ := List.cons.inj hread
      exact ⟨rfl, hrest.symm⟩
    · rename_i rest hnb
      cases hq.symm.trans (SwStream.readNb_eq_none hnb)
  · rename_i stream hwrite
    rw [hwrite] at hok
    cases hok

/-- A write changes no record of a body, and no variable but those that tell the next body how
the write went. -/
theorem writePort_frame (s : KernelState σ α) (q : Nat) :
    SameRecords s (writePort s q) ∧ (writePort s q).requests = s.requests ∧
      (writePort s q).ins = s.ins ∧ (writePort s q).locals.hasSignal = s.locals.hasSignal ∧
      (writePort s q).locals.ret = s.locals.ret ∧
      (writePort s q).locals.inputPort = s.locals.inputPort := by
  unfold writePort
  split
  · split <;> exact ⟨⟨rfl, rfl, rfl⟩, rfl, rfl, rfl, rfl, rfl⟩
  · exact ⟨⟨rfl, rfl, rfl⟩, rfl, rfl, rfl, rfl, rfl⟩

section
variable {proj : σ → τ} {M : Transducer τ (Option α) α}

theorem handlerViews_kernel (s : KernelState σ α) (n : Nat) :
    handlerViews K s (List.replicate (n + 1) .kernel)
      = handlerView s .kernel ++ handlerViews K (kernelStep K s) (List.replicate n .kernel) := rfl

/-- The iteration, step by step. -/
theorem Transduces.exec_turn (hK : Transduces K proj harmless M) (h : Idle s) (f : α) :
    exec (kstep K) s (turn f) = { writePort (bodyStep K (readFlit s f)) 1 with pc := .head } ∧
      calls K s (turn f) = [some ((readFlit s f).locals.inputData 1)] := by
  obtain ⟨-, hpc, hreq, -, -⟩ := produceStep_frame s 1 f
  have hfront := inFront_readFlit h f
  have hhead : (produceStep s 1 f).pc = .head := hpc.trans h.head
  have hrecv : kernelStep K (produceStep s 1 f)
      = { produceStep s 1 f with pc := .readIn [1] } := by
    unfold kernelStep
    rw [hhead]
    exact (recvStep_of_noRequest (hreq.trans h.noRequest)).trans (by rw [hK.inPorts])
  have hlatch : kernelStep K { produceStep s 1 f with pc := .readIn [1] }
      = { readFlit s f with pc := .readIn [] } := rfl
  have hready : kernelStep K { readFlit s f with pc := .readIn [] } = readFlit s f := rfl
  have hbody : kernelStep K (readFlit s f) = bodyStep K (readFlit s f) := rfl
  have hout : (bodyStep K (readFlit s f)).pc = .writeOut [1] := by
    unfold bodyStep
    simp only [hfront.noSignal, Bool.false_eq_true, if_false, hK.outPorts]
  have hwrite : kernelStep K (bodyStep K (readFlit s f))
      = { writePort (bodyStep K (readFlit s f)) 1 with pc := .writeOut [] } := by
    unfold kernelStep
    rw [hout]
  constructor
  · show kernelStep K (kernelStep K (kernelStep K (kernelStep K (kernelStep K (kernelStep K
      (produceStep s 1 f)))))) = _
    rw [hrecv, hlatch, hready, hbody, hwrite]
    rfl
  · have hviews : handlerViews K s (turn f) = [viewOf (readFlit s f).locals] := by
      show [] ++ handlerViews K (produceStep s 1 f) (List.replicate 6 .kernel) = _
      rw [handlerViews_kernel, handlerViews_kernel, handlerViews_kernel, handlerViews_kernel,
        handlerViews_kernel, handlerViews_kernel, hrecv, hlatch, hready, hbody, hwrite,
        handlerView_body rfl hfront.noSignal, handlerView_of_not_body (by simp [hhead]),
        handlerView_of_not_body (by simp), handlerView_of_not_body (by simp),
        handlerView_of_not_body (by simp [hout]), handlerView_of_not_body (by simp)]
      rfl
    have hbit : testPort (viewOf (readFlit s f).locals).inputPort 1 = true := hfront.latched
    rw [calls, hviews, List.map_singleton, offered, if_pos hbit]
    rfl

/-- The body leaves the port free, and asks for it. -/
theorem Reads.asks (hK : Reads K) (h : InFront s u) :
    (bodyStep K u).requests = [] ∧ (bodyStep K u).ins = u.ins ∧
      (bodyStep K u).locals.hasSignal = false ∧ testPort (bodyStep K u).locals.ret 1 = true ∧
      testPort (bodyStep K u).locals.inputPort 1 = false := by
  have hbit : testPort (viewOf u.locals).inputPort 1 = true := h.latched
  have htaken := hK.taken (viewOf u.locals)
  rw [offered, if_pos hbit] at htaken
  have hclears : (K.handler (viewOf u.locals)).ops.any (PortOp.clears 1) = true := by
    by_contra hno
    rw [takenIn, Bool.eq_false_of_not_eq_true hno, Bool.and_false] at htaken
    cases htaken
  unfold bodyStep
  simp only [h.noSignal, Bool.false_eq_true, if_false]
  rw [bodyResult_of_noSignal h.noSignal]
  refine ⟨h.noRequest, rfl, (hasSignal_applyOps _ _).trans h.noSignal, ?_, ?_⟩
  · show testPort ((K.handler (viewOf u.locals)).ret.getD u.locals.ret) 1 = true
    rw [hK.returns]
    exact (by decide : testPort (PORT_BIT 1) 1 = true)
  · show testPort (List.foldl applyOp _ _).inputPort 1 = false
    rw [testPort_applyOps, hclears, Bool.not_true, Bool.and_false]

/-- **A flit that comes in goes through the handler**, at the latest when the flits in front of it
have. -/
theorem Transduces.turn (hK : Transduces K proj harmless M) (h : Idle s) (f : α) :
    Idle (exec (kstep K) s (turn f)) ∧ ∃ g, calls K s (OpenClickNP.turn f) = [some g] ∧
      (Waiting s → g = f ∧ Waiting (exec (kstep K) s (OpenClickNP.turn f))) := by
  obtain ⟨hexec, hcalls⟩ := hK.exec_turn h f
  obtain ⟨hreq, hins, hsig, hret, hfree⟩ := hK.reads.asks (inFront_readFlit h f)
  obtain ⟨-, hreq', hins', hsig', hret', hinput'⟩ := writePort_frame (bodyStep K (readFlit s f)) 1
  have hidle : Idle (exec (kstep K) s (OpenClickNP.turn f)) := by
    rw [hexec]
    exact ⟨rfl, hsig'.trans hsig, hreq'.trans hreq, (congrArg (testPort · 1) hret').trans hret⟩
  refine ⟨hidle, _, hcalls, fun hwait => ?_⟩
  obtain ⟨hdata, hempty⟩ := readFlit_of_waiting hwait f
  refine ⟨hdata, hidle, ?_, ?_⟩
  · rw [hexec]
    exact (congrArg (testPort · 1) hinput').trans hfree
  · rw [hexec]
    exact (congrArg (fun i => (i 1).q) (hins'.trans hins)).trans hempty

/-! ## Signals first -/

theorem readPort_frame (s : KernelState σ α) (q : Nat) :
    (readPort s q).requests = s.requests ∧ (readPort s q).locals.hasSignal = s.locals.hasSignal ∧
      (readPort s q).locals.ret = s.locals.ret := by
  unfold readPort
  split
  · split <;> exact ⟨rfl, rfl, rfl⟩
  · exact ⟨rfl, rfl, rfl⟩

/-- The kernel always asks for port 1. -/
theorem Transduces.asked_step (hK : Transduces K proj harmless M)
    (h : testPort s.locals.ret 1 = true) {a : KernelAction α} (hs : kstep K s a = some t) :
    testPort t.locals.ret 1 = true := by
  by_cases ha : a = .kernel
  · subst ha
    cases hs
    unfold kernelStep
    split
    · unfold recvStep
      split
      · split <;> exact h
      · exact h
    · exact h
    · exact (congrArg (testPort · 1) (readPort_frame s _).2.2).trans h
    · have hret : testPort ((bodyResult K s.locals).ret.getD s.locals.ret) 1 = true := by
        unfold bodyResult
        split
        · rw [hK.signalRet]
          exact h
        · rw [hK.returns]
          exact (by decide : testPort (PORT_BIT 1) 1 = true)
      unfold bodyStep
      simp only []
      split <;> exact hret
    · exact h
    · obtain ⟨-, -, -, -, hret, -⟩ := writePort_frame s ‹Nat›
      exact (congrArg (testPort · 1) hret).trans h
  · rw [(env_step ha hs).1]
    exact h

/-- An iteration that serves a signal. -/
theorem Transduces.serve (hK : Transduces K proj harmless M) (hhas : K.hasSignal = true)
    (hpc : s.pc = .head) (hsig : s.locals.hasSignal = false) {req : ClSignal}
    {rest : List ClSignal} (hreq : s.requests = req :: rest) :
    let t := exec (kstep K) s (List.replicate 4 .kernel)
    t.pc = .head ∧ t.locals.hasSignal = false ∧ t.requests = rest ∧
      t.locals.ret = s.locals.ret ∧ calls K s (List.replicate 4 .kernel) = [] := by
  let s₁ : KernelState σ α :=
    { s with
      pc := .readIn [1]
      requests := rest
      locals := { s.locals with event := req, hasSignal := true } }
  let s₃ : KernelState σ α := { readPort s₁ 1 with pc := .body }
  obtain ⟨hreq₃, hsig₃, hret₃⟩ := readPort_frame s₁ 1
  have hrecv : kernelStep K s = s₁ := by
    unfold kernelStep
    rw [hpc]
    show recvStep K s = s₁
    unfold recvStep
    rw [hhas, hsig]
    simp only [Bool.not_false, Bool.and_true, if_true]
    rw [hreq]
    simp only [hK.inPorts]
    rfl
  have hread : kernelStep K s₁ = { readPort s₁ 1 with pc := .readIn [] } := rfl
  have hready : kernelStep K { readPort s₁ 1 with pc := .readIn [] } = s₃ := rfl
  have hbody : kernelStep K s₃ = bodyStep K s₃ := rfl
  have hexec : exec (kstep K) s (List.replicate 4 .kernel) = bodyStep K s₃ := by
    show kernelStep K (kernelStep K (kernelStep K (kernelStep K s))) = _
    rw [hrecv, hread, hready, hbody]
  have hsig' : s₃.locals.hasSignal = true := hsig₃
  have hret : (bodyResult K s₃.locals).ret = none := by
    rw [bodyResult, if_pos hsig']
    exact hK.signalRet _
  have hserved : (bodyStep K s₃).pc = .head ∧ (bodyStep K s₃).locals.hasSignal = false ∧
      (bodyStep K s₃).requests = s₃.requests ∧ (bodyStep K s₃).locals.ret = s₃.locals.ret := by
    unfold bodyStep
    simp only [hsig', if_true]
    refine ⟨trivial, trivial, rfl, ?_⟩
    show (bodyResult K s₃.locals).ret.getD s₃.locals.ret = s₃.locals.ret
    rw [hret]
    rfl
  simp only [hexec]
  refine ⟨hserved.1, hserved.2.1, hserved.2.2.1.trans hreq₃, hserved.2.2.2.trans hret₃, ?_⟩
  have hquietView : handlerView s₃ .kernel = [] := by
    show (if s₃.locals.hasSignal then _ else _) = _
    rw [if_pos hsig']
  unfold calls
  rw [handlerViews_kernel, handlerViews_kernel, handlerViews_kernel, handlerViews_kernel, hrecv,
    hread, hready, hquietView, handlerView_of_not_body (by simp [hpc]),
    handlerView_of_not_body (by simp [s₁]), handlerView_of_not_body (by simp)]
  rfl

/-! ## Lists of flits -/

theorem exec_append (s : KernelState σ α) (as bs : List (KernelAction α)) :
    exec (kstep K) s (as ++ bs) = exec (kstep K) (exec (kstep K) s as) bs := by
  induction as generalizing s with
  | nil => rfl
  | cons a as ih => cases a <;> exact ih _

theorem calls_append (s : KernelState σ α) (as bs : List (KernelAction α)) :
    calls K s (as ++ bs) = calls K s as ++ calls K (exec (kstep K) s as) bs := by
  unfold calls
  rw [← List.map_append]
  congr 1
  induction as generalizing s with
  | nil => rfl
  | cons a as ih =>
    cases a <;>
      exact (congrArg (handlerView s _ ++ ·) (ih _)).trans (List.append_assoc _ _ _).symm

theorem meets_append {ok : KernelState σ α → KernelAction α → Prop} {as bs : List (KernelAction α)}
    (has : Meets (kstep K) ok s as) (hbs : Meets (kstep K) ok (exec (kstep K) s as) bs) :
    Meets (kstep K) ok s (as ++ bs) := by
  induction as generalizing s with
  | nil => exact hbs
  | cons a as ih => cases a <;> exact ⟨has.1, ih has.2 hbs⟩

theorem meets_of_append {ok : KernelState σ α → KernelAction α → Prop}
    {as bs : List (KernelAction α)} (h : Meets (kstep K) ok s (as ++ bs)) :
    Meets (kstep K) ok s as := by
  induction as generalizing s with
  | nil => trivial
  | cons a as ih => cases a <;> exact ⟨h.1, ih h.2⟩

/-- The kernel by itself posts no signal. -/
theorem meets_kernels (harmless : ClSignal → Prop) (s : KernelState σ α) (n : Nat) :
    Meets (kstep K) (Posts harmless) s (List.replicate n .kernel) := by
  induction n generalizing s with
  | zero => trivial
  | succ n ih => exact ⟨trivial, ih _⟩

/-- **The signals that wait can be served first**, without a call of the handler. Induction on
them. -/
theorem Transduces.flush (hK : Transduces K proj harmless M) (hhas : K.hasSignal = true)
    (hpc : s.pc = .head) (hsig : s.locals.hasSignal = false)
    (hask : testPort s.locals.ret 1 = true) :
    ∃ n, calls K s (List.replicate n .kernel) = [] ∧
      Idle (exec (kstep K) s (List.replicate n .kernel)) := by
  induction hreq : s.requests generalizing s with
  | nil => exact ⟨0, rfl, hpc, hsig, hreq, hask⟩
  | cons req rest ih =>
    obtain ⟨hpc', hsig', hreq', hret', hcalls⟩ := hK.serve hhas hpc hsig hreq
    obtain ⟨n, hnone, hidle⟩ := ih hpc' hsig' (by rw [hret']; exact hask) hreq'
    have hsplit : List.replicate (4 + n) (.kernel : KernelAction α)
        = List.replicate 4 .kernel ++ List.replicate n .kernel :=
      (List.replicate_append_replicate).symm
    refine ⟨4 + n, ?_, ?_⟩
    · rw [hsplit, calls_append, hcalls, hnone]
      rfl
    · rw [hsplit, exec_append]
      exact hidle

/-- A kernel without signals makes as many calls that find a flit as one wants. -/
theorem Transduces.keepBusy (hK : Transduces K proj harmless M) (h : Idle s) (f : α) (n : Nat) :
    ∃ as, Meets (kstep K) (Posts harmless) s as ∧ (calls K s as).length = n ∧
      (∀ x ∈ calls K s as, x.isSome) ∧ Idle (exec (kstep K) s as) := by
  induction n with
  | zero => exact ⟨[], trivial, rfl, by simp [calls, handlerViews], h⟩
  | succ n ih =>
    obtain ⟨as, hmeets, hlen, hsome, hidle⟩ := ih
    obtain ⟨hidle', g, hcalls, -⟩ := hK.turn hidle f
    refine ⟨as ++ OpenClickNP.turn f, meets_append hmeets (meets_turn harmless _ f), ?_, ?_, ?_⟩
    · rw [calls_append, hcalls, List.length_append, hlen]
      rfl
    · intro x hx
      rw [calls_append, hcalls] at hx
      rcases List.mem_append.mp hx with hx | hx
      · exact hsome x hx
      · rw [List.mem_singleton.mp hx]
        rfl
    · rw [exec_append]
      exact hidle'

/-- **There is a run for every list of flits.** Induction on the flits. -/
theorem Transduces.feed (hK : Transduces K proj harmless M) (h : Waiting s) (fs : List α) :
    ∃ as, Meets (kstep K) (Posts harmless) s as ∧ calls K s as = fs.map some := by
  have hgo : ∀ s : KernelState σ α, Waiting s →
      Meets (kstep K) (Posts harmless) s (fs.flatMap OpenClickNP.turn) ∧
        calls K s (fs.flatMap OpenClickNP.turn) = fs.map some := by
    induction fs with
    | nil => exact fun s _ => ⟨trivial, rfl⟩
    | cons f fs ih =>
      intro s hwait
      obtain ⟨-, g, hcalls, hg⟩ := hK.turn hwait.toIdle f
      obtain ⟨rfl, hwait'⟩ := hg hwait
      obtain ⟨hmeets, hrest⟩ := ih _ hwait'
      rw [List.flatMap_cons]
      refine ⟨meets_append (meets_turn harmless s g) hmeets, ?_⟩
      rw [calls_append, hcalls, hrest]
      rfl
  exact ⟨_, hgo s h⟩

/-- A run from `s`, with harmless signals, takes `fs` and passes on `gs`. -/
def Maps (K : KernelFn σ α) (harmless : ClSignal → Prop) (s : KernelState σ α)
    (fs gs : List α) : Prop :=
  ∃ as, Meets (kstep K) (Posts harmless) s as ∧
    (exec (kstep K) s as).taken 1 = s.taken 1 ++ fs ∧
      (exec (kstep K) s as).sent 1 = s.sent 1 ++ gs

/-- A call that finds nothing does nothing. -/
def Lazy (M : Transducer τ (Option α) α) : Prop := ∀ s, M.next s none = s ∧ M.out s none = []

theorem reduceOption_map_some (fs : List α) : (fs.map some).reduceOption = fs := by
  induction fs with
  | nil => rfl
  | cons f fs ih => rw [List.map_cons, List.reduceOption_cons_of_some, ih]

/-- Such calls do not count. Induction on the calls. -/
theorem output_of_lazy (hM : Lazy M) (s : τ) (xs : List (Option α)) :
    M.output s xs = M.output s (xs.reduceOption.map some) := by
  induction xs generalizing s with
  | nil => rfl
  | cons x xs ih =>
    cases x with
    | none =>
      obtain ⟨hnext, hout⟩ := hM s
      rw [M.output_cons, hnext, hout, List.nil_append, List.reduceOption_cons_of_none, ih]
    | some f =>
      rw [M.output_cons, List.reduceOption_cons_of_some, List.map_cons, M.output_cons, ih]

/-- What a run passes on, when only the flits count. -/
theorem Transduces.output_of_maps (hK : Transduces K proj harmless M) (hM : Lazy M)
    (hquiet : Quiet harmless s) {fs gs : List α} (h : Maps K harmless s fs gs) :
    gs = M.output (proj s.locals.state) (fs.map some) := by
  obtain ⟨as, hmeets, htaken, hsent⟩ := h
  have hrun := hK.run hquiet hmeets
  have hfs := List.append_cancel_left (hrun.taken.symm.trans htaken)
  rw [← hfs, ← output_of_lazy hM]
  exact List.append_cancel_left (hsent.symm.trans hrun.sent)

/-- **A waiting element makes the transducer's output of what comes in, and nothing else.** -/
theorem Transduces.maps_iff (hK : Transduces K proj harmless M) (hM : Lazy M) (h : Waiting s)
    (fs gs : List α) :
    Maps K harmless s fs gs ↔ gs = M.output (proj s.locals.state) (fs.map some) := by
  constructor
  · exact hK.output_of_maps hM h.quiet
  · rintro rfl
    obtain ⟨as, hmeets, hcalls⟩ := hK.feed h fs
    have hrun := hK.run h.quiet hmeets
    have htaken := hrun.taken
    have hsent := hrun.sent
    rw [hcalls, reduceOption_map_some] at htaken
    rw [hcalls] at hsent
    exact ⟨as, hmeets, htaken, hsent⟩

end

end OpenClickNP
