import OpenClickNP.Backend.Lossless

/-!
# The handler calls of a run

What an element does to its flits it does in its bodies; every other step of the kernel leaves
the state block and the records of the bodies alone (`records_step`). So what a run of an
element without signals has taken and sent is a function of what its handler calls have seen
(`taken_exec`, `sent_exec`).
-/

namespace OpenClickNP

open Run

section
variable {σ α : Type} {K : KernelFn σ α} {s t : KernelState σ α}

/-! ## The records of a body -/

/-- The flits of port `p` that a handler call clears. -/
def takenIn (p : Nat) (v : View σ α) (r : BodyResult σ α) : List α :=
  if testPort v.inputPort p && r.ops.any (PortOp.clears p) then [v.inputData p] else []

@[simp] theorem taken_bodyStep (p : Nat) : (bodyStep K s).taken p
    = s.taken p ++ takenIn p (viewOf s.locals) (bodyResult K s.locals) := by
  have h : (runRecorded s (bodyResult K s.locals)).taken p
      = s.taken p ++ takenIn p (viewOf s.locals) (bodyResult K s.locals) := by
    simp only [runRecorded, takenBy_runBody]
    rfl
  unfold bodyStep
  simp only []
  split <;> exact h

@[simp] theorem sent_bodyStep (p : Nat) :
    (bodyStep K s).sent p = s.sent p ++ setsOf p (bodyResult K s.locals).ops := by
  unfold bodyStep
  simp only []
  split <;> rfl

@[simp] theorem state_bodyStep :
    (bodyStep K s).locals.state = (bodyResult K s.locals).state := by
  unfold bodyStep
  simp only []
  split <;> rfl

@[simp] theorem arrived_bodyStep : (bodyStep K s).arrived = s.arrived := by
  unfold bodyStep
  simp only []
  split <;> rfl

/-- A handler that starts with `if (test_input_port(p)) read_input_port(p)` takes what it finds on
the port. -/
theorem takenIn_of_ready {p : Nat} (hp : p < 32) {v : View σ α} {r : BodyResult σ α}
    {rest : List (PortOp α)} (hops : r.ops
      = if testPort v.inputPort p then .clearInputReady (PORT_BIT p) :: rest else []) :
    takenIn p v r = if testPort v.inputPort p then [v.inputData p] else [] := by
  unfold takenIn
  rw [hops]
  cases testPort v.inputPort p with
  | false => rfl
  | true => simp [PortOp.clears, testPort_PORT_BIT, hp]

theorem setsOf_of_ready {p : Nat} (q : Nat) {v : View σ α} {r : BodyResult σ α}
    {rest : List (PortOp α)} (hops : r.ops
      = if testPort v.inputPort p then .clearInputReady (PORT_BIT p) :: rest else []) :
    setsOf q r.ops = if testPort v.inputPort p then setsOf q rest else [] := by
  rw [hops]
  split <;> rfl

/-- A handler that reads port `p` on a condition of its own takes what it finds there. -/
theorem takenIn_of_guarded {p : Nat} (hp : p < 32) {v : View σ α} {r : BodyResult σ α}
    {rest : List (PortOp α)} {c : Prop} [Decidable c] (hready : c → testPort v.inputPort p = true)
    (hrest : rest.any (PortOp.clears p) = false)
    (hops : r.ops = (if c then [.clearInputReady (PORT_BIT p)] else []) ++ rest) :
    takenIn p v r = if c then [v.inputData p] else [] := by
  unfold takenIn
  rw [hops, List.any_append, hrest, Bool.or_false]
  by_cases hc : c
  · simp [hc, hready hc, PortOp.clears, testPort_PORT_BIT, hp]
  · simp [hc]

theorem setsOf_of_guarded (p q : Nat) {r : BodyResult σ α} {rest : List (PortOp α)} {c : Prop}
    [Decidable c] (hops : r.ops = (if c then [.clearInputReady (PORT_BIT p)] else []) ++ rest) :
    setsOf q r.ops = setsOf q rest := by
  rw [hops]
  split <;> rfl

/-! ## The other steps -/

/-- `t` has the state block and the records of the bodies that `s` has. -/
structure SameRecords (s t : KernelState σ α) : Prop where
  state : t.locals.state = s.locals.state
  taken : t.taken = s.taken
  sent : t.sent = s.sent

theorem sameRecords_kernelStep (hpc : s.pc ≠ .body) : SameRecords s (kernelStep K s) := by
  unfold kernelStep
  split
  · unfold recvStep
    split
    · split <;> exact ⟨rfl, rfl, rfl⟩
    · exact ⟨rfl, rfl, rfl⟩
  · exact ⟨rfl, rfl, rfl⟩
  · unfold readPort
    split
    · split <;> exact ⟨rfl, rfl, rfl⟩
    · exact ⟨rfl, rfl, rfl⟩
  · rename_i hbody
    exact absurd hbody hpc
  · exact ⟨rfl, rfl, rfl⟩
  · unfold writePort
    split
    · split <;> exact ⟨rfl, rfl, rfl⟩
    · exact ⟨rfl, rfl, rfl⟩

theorem kstep_of_body (hpc : s.pc = .body) : kstep K s .kernel = some (bodyStep K s) := by
  unfold kstep kernelStep
  rw [hpc]

/-- **A step is a body or it keeps the records.** -/
theorem records_step {a : KernelAction α} (hs : kstep K s a = some t) :
    (a = .kernel ∧ s.pc = .body ∧ t = bodyStep K s) ∨
      ((a = .kernel → s.pc ≠ .body) ∧ SameRecords s t) := by
  by_cases ha : a = .kernel
  · subst ha
    by_cases hpc : s.pc = .body
    · rw [kstep_of_body hpc] at hs
      exact Or.inl ⟨rfl, hpc, (Option.some.inj hs).symm⟩
    · cases hs
      exact Or.inr ⟨fun _ => hpc, sameRecords_kernelStep hpc⟩
  · obtain ⟨hlocals, -, htaken, hsent, -⟩ := env_step ha hs
    exact Or.inr ⟨fun h => absurd h ha, by rw [hlocals], htaken, hsent⟩

theorem inputs_kinit [Inhabited α] (state : σ) (inCap outCap : Nat → Int) :
    Inputs (kinit state inCap outCap : KernelState σ α) := by
  intro p
  simp [kinit, latched]

/-- A body takes the flits of a port in the order they have come in. -/
theorem taken_begins_arrived (h : Inputs s) (p : Nat) : s.taken p <+: s.arrived p := by
  rw [h p, List.append_assoc]
  exact List.prefix_append _ _

/-! ## Elements without signals -/

theorem hasSignal_step {a : KernelAction α} (hK : K.hasSignal = false)
    (h : s.locals.hasSignal = false) (hs : kstep K s a = some t) :
    t.locals.hasSignal = false := by
  rcases records_step hs with ⟨-, -, rfl⟩ | ⟨hpc, -⟩
  · unfold bodyStep
    simp only [h]
    exact (hasSignal_applyOps _ _).trans h
  · by_cases ha : a = .kernel
    · subst ha
      cases hs
      rw [(sameBody_kernelStep hK (hpc rfl)).hasSignal, h]
    · rw [(env_step ha hs).1, h]

/-! ## The signals that wait -/

/-- Of all signals only harmless ones are posted. -/
def Posts (harmless : ClSignal → Prop) (_ : KernelState σ α) : KernelAction α → Prop
  | .post req => harmless req
  | _ => True

instance (harmless : ClSignal → Prop) [DecidablePred harmless] (s : KernelState σ α) :
    ∀ a, Decidable (Posts harmless s a)
  | .kernel => isTrue trivial
  | .produce _ _ => isTrue trivial
  | .consume _ => isTrue trivial
  | .post req => inferInstanceAs (Decidable (harmless req))

/-- Every signal that waits to be served is harmless. -/
structure Quiet (harmless : ClSignal → Prop) (s : KernelState σ α) : Prop where
  latched : s.locals.hasSignal = true → harmless s.locals.event
  requests : ∀ req ∈ s.requests, harmless req

variable {harmless : ClSignal → Prop}

theorem quiet_of_none (hsig : s.locals.hasSignal = false) (hreq : s.requests = []) :
    Quiet harmless s where
  latched h := absurd (h.symm.trans hsig) (by decide)
  requests req h := by
    rw [hreq] at h
    cases h

theorem quiet_step {a : KernelAction α} (h : Quiet harmless s) (ha : Posts harmless s a)
    (hs : kstep K s a = some t) : Quiet harmless t := by
  cases a with
  | kernel =>
    cases hs
    unfold kernelStep
    split
    · unfold recvStep
      split
      · split
        · exact ⟨h.latched, h.requests⟩
        · rename_i req rest hposted
          refine ⟨fun _ => h.requests req ?_, fun r hr => h.requests r ?_⟩
          · rw [hposted]
            exact List.mem_cons_self
          · rw [hposted]
            exact List.mem_cons_of_mem _ hr
      · exact ⟨h.latched, h.requests⟩
    · exact ⟨h.latched, h.requests⟩
    · unfold readPort
      split
      · split <;> exact ⟨h.latched, h.requests⟩
      · exact ⟨h.latched, h.requests⟩
    · unfold bodyStep
      simp only []
      split
      · exact ⟨nofun, h.requests⟩
      · rename_i hno
        have hkeep : (runBody s.locals (bodyResult K s.locals)).hasSignal = s.locals.hasSignal :=
          hasSignal_applyOps _ _
        exact ⟨fun hsig => absurd (hkeep.symm.trans hsig) hno, h.requests⟩
    · exact ⟨h.latched, h.requests⟩
    · unfold writePort
      split
      · split <;> exact ⟨h.latched, h.requests⟩
      · exact ⟨h.latched, h.requests⟩
  | produce p f =>
    cases hs
    unfold produceStep
    split <;> exact ⟨h.latched, h.requests⟩
  | consume p =>
    cases hs
    unfold consumeStep
    split <;> exact ⟨h.latched, h.requests⟩
  | post req =>
    cases hs
    refine ⟨h.latched, fun r hr => ?_⟩
    rcases List.mem_append.mp hr with hr | hr
    · exact h.requests r hr
    · rw [List.mem_singleton.mp hr]
      exact ha

/-- A kernel that no signal is posted to stays without one. -/
theorem noSignal_step {a : KernelAction α} (h : s.locals.hasSignal = false) (hreq : s.requests = [])
    (ha : ∀ req, a ≠ .post req) (hs : kstep K s a = some t) :
    t.locals.hasSignal = false ∧ t.requests = [] := by
  -- no signal is harmless, so none may wait
  have hquiet : Quiet (fun _ => False) s := quiet_of_none h hreq
  have hposts : Posts (fun _ => False) s a := by
    cases a with
    | post req => exact ha req rfl
    | _ => trivial
  have hnext := quiet_step hquiet hposts hs
  refine ⟨?_, List.eq_nil_iff_forall_not_mem.mpr hnext.requests⟩
  cases hsig : t.locals.hasSignal with
  | false => rfl
  | true => exact (hnext.latched hsig).elim

/-! ## The rule for calls -/

theorem bodyResult_of_noSignal (h : s.locals.hasSignal = false) :
    bodyResult K s.locals = K.handler (viewOf s.locals) := by
  simp [bodyResult, h]

/-- **The rule for one step.** What every handler call keeps of the state block and of what has
been taken and sent, a step that finds no signal keeps. -/
theorem inv_call_step {P : σ → (Nat → List α) → (Nat → List α) → Prop}
    (hcall : ∀ (v : View σ α) (taken sent : Nat → List α), P v.state taken sent →
      P (K.handler v).state (fun p => taken p ++ takenIn p v (K.handler v))
        fun p => sent p ++ setsOf p (K.handler v).ops)
    {a : KernelAction α} (hsig : s.locals.hasSignal = false) (hs : kstep K s a = some t)
    (h : P s.locals.state s.taken s.sent) : P t.locals.state t.taken t.sent := by
  rcases records_step hs with ⟨-, -, rfl⟩ | ⟨-, hrec⟩
  · rw [state_bodyStep, funext (taken_bodyStep (K := K) (s := s)),
      funext (sent_bodyStep (K := K) (s := s)), bodyResult_of_noSignal hsig]
    exact hcall (viewOf s.locals) _ _ h
  · rw [hrec.state, hrec.taken, hrec.sent]
    exact h

/-- An element that keeps its state block and passes on what it takes, changed by `g`. -/
theorem mapped_step {g : α → α} {st : σ} (hstate : ∀ v, (K.handler v).state = v.state)
    (hops : ∀ v, v.state = st → (K.handler v).ops = if testPort v.inputPort 1 then
      [.clearInputReady (PORT_BIT 1), .setOutputPort 1 (g (v.inputData 1))] else [])
    {a : KernelAction α} (hsig : s.locals.hasSignal = false) (hs : kstep K s a = some t)
    (h : s.locals.state = st ∧ s.sent 1 = (s.taken 1).map g) :
    t.locals.state = st ∧ t.sent 1 = (t.taken 1).map g := by
  refine inv_call_step (P := fun now taken sent => now = st ∧ sent 1 = (taken 1).map g)
    (fun v taken sent hv => ⟨(hstate v).trans hv.1, ?_⟩) hsig hs h
  show sent 1 ++ setsOf 1 (K.handler v).ops = (taken 1 ++ takenIn 1 v (K.handler v)).map g
  rw [hv.2, List.map_append, setsOf_of_ready 1 (hops v hv.1),
    takenIn_of_ready (by decide) (hops v hv.1)]
  split <;> rfl

/-- **The rule for calls.** What every handler call keeps of the state block, of what has been taken
from a port and of what has been passed to one, holds after any actions. -/
theorem inv_calls {p q : Nat} {P : σ → List α → List α → Prop} (hK : K.hasSignal = false)
    (hcall : ∀ (v : View σ α) (taken sent : List α), P v.state taken sent →
      P (K.handler v).state (taken ++ takenIn p v (K.handler v))
        (sent ++ setsOf q (K.handler v).ops))
    (as : List (KernelAction α)) (hsig : s.locals.hasSignal = false)
    (h : P s.locals.state (s.taken p) (s.sent q)) :
    P (exec (kstep K) s as).locals.state ((exec (kstep K) s as).taken p)
      ((exec (kstep K) s as).sent q) := by
  have hinv : (exec (kstep K) s as).locals.hasSignal = false ∧
      P (exec (kstep K) s as).locals.state ((exec (kstep K) s as).taken p)
        ((exec (kstep K) s as).sent q) := by
    refine inv_exec (P := fun s : KernelState σ α => s.locals.hasSignal = false ∧
      P s.locals.state (s.taken p) (s.sent q)) ?_ as ⟨hsig, h⟩
    rintro s a t ⟨hsig, h⟩ hs
    exact ⟨hasSignal_step hK hsig hs, inv_call_step
      (P := fun st taken sent => P st (taken p) (sent q))
      (fun v taken sent => hcall v (taken p) (sent q)) hsig hs h⟩
  exact hinv.2

/-! ## Elements that present what they pass to a port -/

/-- A write to port `p` finds room. -/
def FindsRoom (p : Nat) (s : KernelState σ α) : KernelAction α → Prop
  | .kernel =>
    match s.pc with
    | .writeOut (q :: _) =>
      q = p → testPort s.locals.outputPort p = true → (s.outs p).q.length < (s.outs p).capacity
    | _ => True
  | _ => True

instance (p : Nat) (s : KernelState σ α) : ∀ a, Decidable (FindsRoom p s a)
  | .kernel =>
    show Decidable (match s.pc with
      | .writeOut (q :: _) =>
        q = p → testPort s.locals.outputPort p = true → (s.outs p).q.length < (s.outs p).capacity
      | _ => True) from
      match s.pc with
      | .writeOut (_ :: _) => inferInstance
      | .writeOut [] => isTrue trivial
      | .head => isTrue trivial
      | .readIn _ => isTrue trivial
      | .body => isTrue trivial
  | .produce _ _ => isTrue trivial
  | .consume _ => isTrue trivial
  | .post _ => isTrue trivial

/-- A write, to whatever port, finds room. -/
def WriteFindsRoom (s : KernelState σ α) : Prop :=
  match s.pc with
  | .writeOut (q :: _) =>
    testPort s.locals.outputPort q = true → (s.outs q).q.length < (s.outs q).capacity
  | _ => True

instance (s : KernelState σ α) : Decidable (WriteFindsRoom s) :=
  show Decidable (match s.pc with
    | .writeOut (q :: _) =>
      testPort s.locals.outputPort q = true → (s.outs q).q.length < (s.outs q).capacity
    | _ => True) from
    match s.pc with
    | .writeOut (_ :: _) => inferInstance
    | .writeOut [] => isTrue trivial
    | .head => isTrue trivial
    | .readIn _ => isTrue trivial
    | .body => isTrue trivial

theorem findsRoom_of_write (h : WriteFindsRoom s) (p : Nat) : FindsRoom p s .kernel := by
  unfold WriteFindsRoom at h
  unfold FindsRoom
  cases hpc : s.pc with
  | writeOut rest =>
    cases rest with
    | nil => trivial
    | cons q rest =>
      rw [hpc] at h
      rintro rfl
      exact h
  | _ => trivial

/-- A built-in other than `set_output_ready` and `clear_output_ready`. -/
def PortOp.isPlain : PortOp α → Bool
  | .setOutputReady _ => false
  | .clearOutputReady _ => false
  | _ => true

/-- Every handler call passes at most one flit to port `p`, and no built-in takes it back. -/
structure Plain (K : KernelFn σ α) (p : Nat) : Prop where
  mem : p ∈ K.outPorts
  lt : p < 32
  plain : ∀ v, ∀ op ∈ (K.handler v).ops, op.isPlain = true
  length_le : ∀ v, (setsOf p (K.handler v).ops).length ≤ 1
  signal : ∀ v, setsOf p (K.signal v).ops = []

/-- A handler that starts with `if (test_input_port(q)) read_input_port(q)`, and then passes at most
one flit to port `p`. -/
theorem plain_of_ready {p q : Nat} (hmem : p ∈ K.outPorts) (hlt : p < 32)
    {rest : View σ α → List (PortOp α)}
    (hops : ∀ v, (K.handler v).ops
      = if testPort v.inputPort q then .clearInputReady (PORT_BIT q) :: rest v else [])
    (hplain : ∀ v, ∀ op ∈ rest v, op.isPlain = true)
    (hle : ∀ v, (setsOf p (rest v)).length ≤ 1) (hsignal : ∀ v, setsOf p (K.signal v).ops = []) :
    Plain K p where
  mem := hmem
  lt := hlt
  plain v := by
    rw [hops]
    split
    · exact List.forall_mem_cons.mpr ⟨rfl, hplain v⟩
    · exact fun op hop => absurd hop List.not_mem_nil
  length_le v := by
    rw [setsOf_of_ready p (hops v)]
    split
    · exact hle v
    · exact Nat.zero_le 1
  signal := hsignal

theorem testPort_outputPort_applyOps {p : Nat} (hp : p < 32) (ops : List (PortOp α))
    (hplain : ∀ op ∈ ops, op.isPlain = true) (l : Locals σ α) :
    testPort (ops.foldl applyOp l).outputPort p
      = (testPort l.outputPort p || !(setsOf p ops).isEmpty) := by
  induction ops generalizing l with
  | nil => simp [setsOf]
  | cons op ops ih =>
    rw [List.foldl_cons, ih fun op' h => hplain op' (List.mem_cons_of_mem _ h)]
    cases op with
    | setOutputPort idx value =>
      by_cases hidx : idx = p
      · subst hidx
        simp [setsOf, applyOp, testPort_or, testPort_PORT_BIT, hp]
      · simp [setsOf, applyOp, testPort_or, testPort_PORT_BIT, hidx, Ne.symm hidx]
    | clearInputReady mask => simp [setsOf, applyOp]
    | setOutputReady mask => exact absurd (hplain _ List.mem_cons_self) Bool.false_ne_true
    | clearOutputReady mask => exact absurd (hplain _ List.mem_cons_self) Bool.false_ne_true

theorem presentsAll_of_plain {p : Nat} (h : Plain K p) (l : Locals σ α) :
    PresentsAll K p l := by
  unfold PresentsAll bodyResult
  cases hsig : l.hasSignal with
  | true => simp [h.signal]
  | false =>
    have hle := h.length_le (viewOf l)
    have hbit := testPort_outputPort_applyOps h.lt (K.handler (viewOf l)).ops
      (h.plain (viewOf l)) { l with outputPort := 0 }
    have hzero : testPort (0 : PortMask) p = false := testPort_zero p
    rw [hzero, Bool.false_or] at hbit
    simp only [Bool.false_eq_true, if_false, runBody, h.mem, hbit, true_and]
    cases hsets : setsOf p (K.handler (viewOf l)).ops with
    | nil => rfl
    | cons f fs =>
      rw [hsets] at hle
      exact Nat.le_antisymm hle (Nat.succ_le_succ (Nat.zero_le _))

/-- Such an element loses a flit only where a write finds no room. -/
theorem portKept_iff_findsRoom {p : Nat} (h : Plain K p) (a : KernelAction α) :
    PortKept K p s a ↔ FindsRoom p s a := by
  cases a with
  | kernel =>
    unfold PortKept FindsRoom
    cases s.pc with
    | body => exact iff_of_true (presentsAll_of_plain h s.locals) trivial
    | writeOut rest => cases rest <;> exact Iff.rfl
    | _ => exact Iff.rfl
  | _ => exact Iff.rfl

/-- Where the writes to the port find room, nothing that the bodies pass to it is lost. -/
theorem lossless_of_findsRoom [Inhabited α] {p : Nat} (h : Plain K p) (state : σ)
    (inCap outCap : Nat → Int) (as : List (KernelAction α))
    (hroom : Meets (kstep K) (FindsRoom p) (kinit state inCap outCap) as) :
    Lossless p (exec (kstep K) (kinit state inCap outCap) as) := by
  refine ((lossless_iff K p state inCap outCap as).mpr ?_).exec
  exact (hroom.congr fun _ a _ => portKept_iff_findsRoom h a).mpr hroom

/-- In a run whose writes to the port find room, what has been written to the stream is a first
part of what the bodies have passed to the port. -/
theorem emitted_begins_sent [Inhabited α] {p : Nat} {ok : KernelState σ α → KernelAction α → Prop}
    {state : σ} {inCap outCap : Nat → Int} (hplain : Plain K p)
    (hroom : ∀ s a, ok s a → FindsRoom p s a)
    (h : Reaches (kstep K) ok (kinit state inCap outCap) t) : emitted p t <+: t.sent p := by
  have hinv : WritesOnce t ∧ Lossless p t :=
    h.inv (P := fun t => WritesOnce t ∧ Lossless p t) ⟨trivial, rfl⟩
      fun s a t hs hok hstep => ⟨writesOnce_step hs.1 hstep,
        (lossless_step hs.1 hs.2 hstep).mpr
          ((portKept_iff_findsRoom hplain a).mpr (hroom s a hok))⟩
  rw [show t.sent p = _ from hinv.2]
  exact List.prefix_append _ _

/-- In every run a body takes what has come in, in order. -/
theorem taken_begins_arrived_of_reaches [Inhabited α]
    {ok : KernelState σ α → KernelAction α → Prop} {state : σ} {inCap outCap : Nat → Int}
    (h : Reaches (kstep K) ok (kinit state inCap outCap) t) (p : Nat) :
    t.taken p <+: t.arrived p :=
  taken_begins_arrived (h.inv (P := Inputs) (inputs_kinit state inCap outCap)
    fun _ _ _ hs _ hstep => inputs_step hs hstep) p

/-! ## The calls of a run -/

/-- What the handler sees when the action is its call. -/
def handlerView (s : KernelState σ α) : KernelAction α → List (View σ α)
  | .kernel =>
    match s.pc with
    | .body => if s.locals.hasSignal then [] else [viewOf s.locals]
    | _ => []
  | _ => []

/-- What the handler sees in the calls of a run, in order. -/
def handlerViews (K : KernelFn σ α) (s : KernelState σ α) : List (KernelAction α) →
    List (View σ α)
  | [] => []
  | a :: as =>
    match kstep K s a with
    | some t => handlerView s a ++ handlerViews K t as
    | none => []

/-- A record to which each handler call adds what `f` says is what the calls have added. The
induction is on the actions; every action is enabled. -/
theorem record_exec {β : Type} (record : KernelState σ α → List β) (f : View σ α → List β)
    (hK : K.hasSignal = false)
    (hbody : ∀ s : KernelState σ α, s.locals.hasSignal = false →
      record (bodyStep K s) = record s ++ f (viewOf s.locals))
    (hsame : ∀ s t : KernelState σ α, SameRecords s t → record t = record s)
    (as : List (KernelAction α)) (h : s.locals.hasSignal = false) :
    record (exec (kstep K) s as) = record s ++ (handlerViews K s as).flatMap f := by
  induction as generalizing s with
  | nil => simp [exec, handlerViews]
  | cons a as ih =>
    unfold exec handlerViews
    cases hs : kstep K s a with
    | none => simp
    | some t =>
      simp only []
      rw [ih (hasSignal_step hK h hs), List.flatMap_append, ← List.append_assoc]
      congr 1
      rcases records_step hs with ⟨rfl, hpc, rfl⟩ | ⟨hpc, hrec⟩
      · simp [handlerView, hpc, h, hbody s h]
      · rw [hsame s t hrec]
        have hnone : handlerView s a = [] := by
          cases a with
          | kernel =>
            have hne := hpc rfl
            unfold handlerView
            cases hs : s.pc with
            | body => exact absurd hs hne
            | _ => rfl
          | _ => rfl
        simp [hnone]

/-- **What a run has taken from a port.** -/
theorem taken_exec (hK : K.hasSignal = false) (h : s.locals.hasSignal = false)
    (as : List (KernelAction α)) (p : Nat) :
    (exec (kstep K) s as).taken p
      = s.taken p ++ (handlerViews K s as).flatMap fun v => takenIn p v (K.handler v) :=
  record_exec (fun s => s.taken p) _ hK
    (fun s hs => by rw [taken_bodyStep, bodyResult_of_noSignal hs])
    (fun _ _ hrec => by rw [hrec.taken]) as h

/-- **What a run has passed to a port.** -/
theorem sent_exec (hK : K.hasSignal = false) (h : s.locals.hasSignal = false)
    (as : List (KernelAction α)) (p : Nat) :
    (exec (kstep K) s as).sent p
      = s.sent p ++ (handlerViews K s as).flatMap fun v => setsOf p (K.handler v).ops :=
  record_exec (fun s => s.sent p) _ hK
    (fun s hs => by rw [sent_bodyStep, bodyResult_of_noSignal hs])
    (fun _ _ hrec => by rw [hrec.sent]) as h

end

end OpenClickNP
