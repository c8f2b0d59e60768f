import OpenClickNP.Backend.Lossless
import OpenClickNP.Elements.RsaModExp

/-!
# The runs of the `RSA_ModExp` elements

`Sim done st taken sent` relates the state of the element to what has gone through its ports:
the operands `done` have been taken whole and answered, and what has been taken since is in the
buffers. A handler call keeps it (`sim_handler`), and so does every step of the kernel.

Safety is then a matter of lining the blocks up with those the producers send. For progress,
`work` counts the handler calls still needed; each call takes one off as soon as the
operands have arrived.
-/

namespace OpenClickNP

open Bigint Loop Run

variable {F : Nat}

/-! ## What is owed -/

/-- The end of `modexp` from the loop at bit `k` on, with the values in the state. -/
def owed (st : RsaState F) (k : Nat) (rMont : U (4 * F)) : U (4 * F) :=
  montMul (forDown (modexpTurn st.eBuf st.mMont st.nBuf st.nInv) k rMont) (U.one (4 * F)) st.nBuf
    st.nInv

/-- Each state of the computation still owes the result of the operands it holds. -/
def Due (st : RsaState F) : Prop :=
  match st.state with
  | .collect => ∃ o, st.idx o ≠ F
  | .init => True
  | .findBit => owed st st.eBuf.bitlen st.rMont = st.operands.result
  | .square =>
    ∃ i : Nat, st.bitIdx = i ∧ owed st (i + 1) st.rMont = st.operands.result
  | .maybeMul =>
    ∃ i : Nat, st.bitIdx = i ∧
      owed st i (if st.eBuf.bit i then montMul st.rMont st.mMont st.nBuf st.nInv else st.rMont)
        = st.operands.result
  | .nextBit => ∃ i : Nat, st.bitIdx = i ∧ owed st i st.rMont = st.operands.result
  | .final => owed st 0 st.rMont = st.operands.result
  | .emit => st.cBuf = st.operands.result ∧ st.outIdx < F

/-- The element has answered the operands `done`, one after the other; on each port it has taken
these and, since then, `idx` flits, which are in the buffer. -/
structure Sim (done : List (Operands F)) (st : RsaState F) (taken : Operand → List Flit)
    (sent : List Flit) : Prop where
  idx_le : ∀ o, st.idx o ≤ F
  full : st.state ≠ .collect → ∀ o, st.idx o = F
  outIdx : st.state ≠ .emit → st.outIdx = 0
  due : Due st
  taken : ∀ o, Flit.payload (taken o)
    = done.flatMap (fun t => (t.get o).limbs) ++ (st.operands.get o).limbs.take (4 * st.idx o)
  sent : sent = done.flatMap (fun t => frame t.result)
    ++ (List.range st.outIdx).map (outFlit st.operands.result)

/-! ## One handler call -/

theorem due_seekBit (st : RsaState F) {k : Nat} (h : owed st k st.rMont = st.operands.result) :
    Due (seekBit st ((k : Int) - 1)) := by
  unfold Due seekBit
  cases k with
  | zero => exact h
  | succ i =>
    have hbit : ((i + 1 : Nat) : Int) - 1 = i := by omega
    simp only [hbit, show ¬ (i : Int) < 0 by omega, if_false]
    exact ⟨i, rfl, h⟩

theorem due_findBit {st : RsaState F} (hst : st.state = .findBit) (h : Due st) :
    Due (findBitStep st) := by
  simp only [Due, hst] at h
  exact due_seekBit st h

theorem due_nextBit {st : RsaState F} (hst : st.state = .nextBit) (h : Due st) :
    Due (nextBitStep st) := by
  simp only [Due, hst] at h
  obtain ⟨i, hi, howed⟩ := h
  unfold nextBitStep
  rw [hi]
  exact due_seekBit st howed

/-- `S_INIT` sets up what `modexp` sets up. -/
theorem due_init (st : RsaState F) : Due (initStep st) := rfl

theorem due_square {st : RsaState F} (hst : st.state = .square) (h : Due st) :
    Due (squareStep st) := by
  simp only [Due, hst] at h
  obtain ⟨i, hi, howed⟩ := h
  exact ⟨i, hi, howed⟩

theorem due_maybeMul {st : RsaState F} (hst : st.state = .maybeMul) (h : Due st) :
    Due (maybeMulStep st) := by
  simp only [Due, hst] at h
  obtain ⟨i, hi, howed⟩ := h
  refine ⟨i, hi, ?_⟩
  unfold maybeMulStep
  rw [hi]
  exact howed

theorem due_final {st : RsaState F} (hpos : 0 < F) (hst : st.state = .final)
    (hout : st.outIdx = 0) (h : Due st) : Due (finalStep st) := by
  simp only [Due, hst] at h
  refine ⟨h, ?_⟩
  show st.outIdx < F
  omega

/-- The flit that a body with the built-ins `ops` takes from a port. -/
def takenAt (v : View (RsaState F) Flit) (ops : List (PortOp Flit)) (p : Nat) : List Flit :=
  if testPort v.inputPort p && ops.any (PortOp.clears p) then [v.inputData p] else []

/-- The operands answered after a call: one more when it emits the last flit. -/
def doneAfter (st : RsaState F) (done : List (Operands F)) : List (Operands F) :=
  if st.state = .emit ∧ st.outIdx + 1 = F then done ++ [st.operands] else done

section
variable {done : List (Operands F)} {v : View (RsaState F) Flit} {taken : Operand → List Flit}
  {sent : List Flit}

/-- A call that touches neither the buffers nor the ports. -/
theorem Sim.compute {st st' : RsaState F} (h : Sim done st taken sent)
    (hcollect : st.state ≠ .collect) (hemit : st.state ≠ .emit)
    (hoperands : st'.operands = st.operands) (hidx : st'.idx = st.idx)
    (hout : st'.outIdx = st.outIdx) (hdue : Due st') : Sim done st' taken sent where
  idx_le := by rw [hidx]; exact h.idx_le
  full := fun _ => by rw [hidx]; exact h.full hcollect
  outIdx := fun _ => by rw [hout]; exact h.outIdx hemit
  due := hdue
  taken := by rw [hidx, hoperands]; exact h.taken
  sent := by rw [hout, hoperands]; exact h.sent

/-- What `S_COLLECT` does with one operand. -/
def collected (v : View (RsaState F) Flit) (o : Operand) : Collected F :=
  collectPort v o.port (v.state.idx o) (v.state.operands.get o)

theorem idx_collectStep (o : Operand) : (collectStep v).1.idx o = (collected v o).idx := by
  cases o <;> rfl

theorem get_collectStep (o : Operand) :
    (collectStep v).1.operands.get o = (collected v o).buf := by
  cases o <;> rfl

/-- Each port is cleared for its own operand only. -/
theorem clears_collectStep (o : Operand) :
    (collectStep v).2.any (PortOp.clears o.port)
      = (decide (v.state.idx o < F) && testPort v.inputPort o.port) := by
  have hany : ∀ o' : Operand, (collected v o').ops.any (PortOp.clears o.port)
      = (decide (o = o') && (decide (v.state.idx o' < F) && testPort v.inputPort o'.port)) := by
    intro o'
    unfold collected collectPort
    cases decide (v.state.idx o' < F) && testPort v.inputPort o'.port with
    | false => simp
    | true =>
      have hbit : testPort (PORT_BIT o'.port) o.port = decide (o = o') := by
        cases o <;> cases o' <;> decide
      simp [PortOp.clears, hbit]
  have hops : (collectStep v).2
      = (collected v .m).ops ++ (collected v .e).ops ++ (collected v .n).ops := rfl
  rw [hops, List.any_append, List.any_append, hany, hany, hany]
  cases o <;> simp

theorem setsOf_collectStep : setsOf 1 (collectStep v).2 = [] := by
  have hops : ∀ o, setsOf 1 (collected v o).ops = [] := by
    intro o
    unfold collected collectPort
    split <;> rfl
  show setsOf 1 ((collected v .m).ops ++ (collected v .e).ops ++ (collected v .n).ops) = []
  rw [setsOf_append, setsOf_append, hops, hops, hops]
  rfl

/-- The flit taken is the one stored. -/
theorem take_collected (o : Operand) :
    (collected v o).buf.limbs.take (4 * (collected v o).idx)
      = (v.state.operands.get o).limbs.take (4 * v.state.idx o)
        ++ Flit.payload (takenAt v (collectStep v).2 o.port) := by
  unfold takenAt
  rw [clears_collectStep]
  unfold collected collectPort
  cases htest : testPort v.inputPort o.port with
  | false => simp
  | true =>
    -- a flit beyond the last one of the operand stays in the port
    by_cases hlt : v.state.idx o < F
    · simp [hlt, take_storeFlit _ _ hlt, Flit.payload_singleton]
    · simp [hlt]

theorem idx_collected_le (o : Operand) (hle : v.state.idx o ≤ F) : (collected v o).idx ≤ F := by
  unfold collected collectPort
  split
  · rename_i hcond
    have hlt : v.state.idx o < F := by simpa using (Bool.and_eq_true_iff.mp hcond).1
    exact hlt
  · exact hle

/-- The state moves on with the flit that completes the last operand. -/
theorem state_collectStep_full (h : ∀ o, (collectStep v).1.idx o = F) :
    (collectStep v).1.state = .init :=
  if_pos ⟨h .m, h .e, h .n⟩

theorem state_collectStep_short (h : ¬ ∀ o, (collectStep v).1.idx o = F) :
    (collectStep v).1.state = v.state.state := by
  apply if_neg
  rintro ⟨hm, he, hn⟩
  apply h
  intro o
  cases o with
  | m => exact hm
  | e => exact he
  | n => exact hn

theorem sim_collect (hst : v.state.state = .collect) (h : Sim done v.state taken sent) :
    Sim done (collectStep v).1 (fun o => taken o ++ takenAt v (collectStep v).2 o.port) sent := by
  have hout : (collectStep v).1.outIdx = 0 := h.outIdx (by simp [hst])
  refine ⟨?_, ?_, fun _ => hout, ?_, ?_, ?_⟩
  · intro o
    rw [idx_collectStep]
    exact idx_collected_le o (h.idx_le o)
  · intro hne
    by_contra hnot
    rw [state_collectStep_short hnot] at hne
    exact hne hst
  · unfold Due
    -- the call that completes the last operand owes the whole exponentiation
    by_cases hall : ∀ o, (collectStep v).1.idx o = F
    · rw [state_collectStep_full hall]
      trivial
    · rw [state_collectStep_short hall, hst]
      exact not_forall.mp hall
  · intro o
    rw [idx_collectStep, get_collectStep, take_collected o, Flit.payload_append, h.taken o,
      List.append_assoc]
  · rw [h.sent, hout, h.outIdx (by simp [hst]), List.range_zero, List.map_nil, List.map_nil]

theorem sim_emit (hst : v.state.state = .emit) (h : Sim done v.state taken sent) :
    Sim (doneAfter v.state done) (emitStep v.state) taken
      (sent ++ [outFlit v.state.cBuf v.state.outIdx]) := by
  have hdue := h.due
  simp only [Due, hst] at hdue
  obtain ⟨hbuf, hlt⟩ := hdue
  have hfull := h.full (by simp [hst])
  have hsent : sent ++ [outFlit v.state.cBuf v.state.outIdx]
      = done.flatMap (fun t => frame t.result)
        ++ (List.range (v.state.outIdx + 1)).map (outFlit v.state.operands.result) := by
    rw [h.sent, hbuf, List.range_succ, List.map_append, List.append_assoc]
    rfl
  unfold doneAfter emitStep
  -- with its last flit the answer is complete, and collecting starts again
  by_cases hlast : v.state.outIdx + 1 = F
  · rw [if_pos ⟨hst, hlast⟩, if_pos hlast]
    refine ⟨fun o => ?_, fun hc => absurd rfl hc, fun _ => rfl, ?_, fun o => ?_, ?_⟩
    · cases o <;> exact Nat.zero_le _
    · exact ⟨.m, by show 0 ≠ F; omega⟩
    · -- the buffers start over, and what they held is the transaction just answered
      have hnew : ∀ st' : RsaState F, st'.idx o = 0 →
          (st'.operands.get o).limbs.take (4 * st'.idx o) = [] := by
        intro st' h0
        rw [h0]
        rfl
      rw [hnew _ (by cases o <;> rfl), h.taken o, hfull o, List.take_of_length_le (by simp),
        List.flatMap_append, List.flatMap_singleton, List.append_nil]
    · rw [hsent, hlast, List.flatMap_append, List.flatMap_singleton]
      simp [frame]
  · rw [if_neg (fun hc => hlast hc.2), if_neg hlast]
    refine ⟨h.idx_le, fun _ => hfull, fun hc => absurd hst hc, ?_, h.taken, hsent⟩
    show Due { v.state with outIdx := v.state.outIdx + 1 }
    simp only [Due, hst]
    exact ⟨hbuf, by omega⟩

/-- The calls that run `modexp`. -/
def computeStep (st : RsaState F) : RsaState F :=
  match st.state with
  | .init => initStep st
  | .findBit => findBitStep st
  | .square => squareStep st
  | .maybeMul => maybeMulStep st
  | .nextBit => nextBitStep st
  | .final => finalStep st
  | _ => st

theorem rsaHandler_collect (hst : v.state.state = .collect) :
    rsaHandler v
      = { state := (collectStep v).1, ops := (collectStep v).2, ret := some PORT_ALL } := by
  simp only [rsaHandler, hst]

theorem rsaHandler_compute (hcollect : v.state.state ≠ .collect) (hemit : v.state.state ≠ .emit) :
    rsaHandler v = { state := computeStep v.state, ops := [], ret := some PORT_ALL } := by
  cases hst : v.state.state with
  | collect => exact absurd hst hcollect
  | emit => exact absurd hst hemit
  | _ => simp only [rsaHandler, computeStep, hst]

theorem rsaHandler_emit (hst : v.state.state = .emit) (hlt : v.state.outIdx < F) :
    rsaHandler v =
      { state := emitStep v.state
        ops := [.setOutputPort 1 (outFlit v.state.cBuf v.state.outIdx)]
        ret := some PORT_ALL } := by
  simp only [rsaHandler, hst, if_pos hlt]

theorem sim_compute (hpos : 0 < F) {st : RsaState F} (hcollect : st.state ≠ .collect)
    (hemit : st.state ≠ .emit) (h : Sim done st taken sent) :
    Sim done (computeStep st) taken sent := by
  have hdue := h.due
  have hout := h.outIdx hemit
  unfold computeStep
  cases hst : st.state with
  | collect => exact absurd hst hcollect
  | emit => exact absurd hst hemit
  | init => exact h.compute hcollect hemit rfl rfl rfl (due_init st)
  | findBit => exact h.compute hcollect hemit rfl rfl rfl (due_findBit hst hdue)
  | square => exact h.compute hcollect hemit rfl rfl rfl (due_square hst hdue)
  | maybeMul => exact h.compute hcollect hemit rfl rfl rfl (due_maybeMul hst hdue)
  | nextBit => exact h.compute hcollect hemit rfl rfl rfl (due_nextBit hst hdue)
  | final => exact h.compute hcollect hemit rfl rfl rfl (due_final hpos hst hout hdue)

/-- **One handler call keeps the simulation**, whatever inputs it finds latched. -/
theorem sim_handler (hpos : 0 < F) (h : Sim done v.state taken sent) :
    Sim (doneAfter v.state done) (rsaHandler v).state
      (fun o => taken o ++ takenAt v (rsaHandler v).ops o.port)
      (sent ++ setsOf 1 (rsaHandler v).ops) := by
  by_cases hcollect : v.state.state = .collect
  · have hdone : doneAfter v.state done = done := if_neg fun hc => by simp [hcollect] at hc
    rw [rsaHandler_collect hcollect, hdone]
    simp only [setsOf_collectStep, List.append_nil]
    exact sim_collect hcollect h
  · by_cases hemit : v.state.state = .emit
    · have hdue := h.due
      simp only [Due, hemit] at hdue
      rw [rsaHandler_emit hemit hdue.2]
      simpa [takenAt, PortOp.clears, setsOf] using sim_emit hemit h
    · have hdone : doneAfter v.state done = done := if_neg fun hc => hemit hc.1
      rw [rsaHandler_compute hcollect hemit, hdone]
      simpa [takenAt, setsOf] using sim_compute hpos hcollect hemit h

end

/-! ## The kernel -/

/-- The limbs that the producers of an operand send for the transactions `txs`. -/
def stream (txs : List (Operands F)) (o : Operand) : List UInt64 :=
  txs.flatMap fun t => (t.get o).limbs

/-- The environment: each producer sends the operands of `txs` one after the other, at its own
pace, and every output write finds room. -/
def Fed (txs : List (Operands F)) (s : KernelState (RsaState F) Flit) : KernelAction Flit → Prop
  | .kernel =>
    match s.pc with
    | .writeOut (q :: _) =>
      testPort s.locals.outputPort q = true → (s.outs q).q.length < (s.outs q).capacity
    | _ => True
  | .produce p f => ∀ o : Operand, o.port = p → Flit.payload (s.arrived p ++ [f]) <+: stream txs o
  | _ => True

/-- What holds in every state of a run, with the operands answered so far. -/
structure Running (txs done : List (Operands F)) (s : KernelState (RsaState F) Flit) : Prop where
  ret : s.locals.ret = PORT_ALL
  hasSignal : s.locals.hasSignal = false
  sim : Sim done s.locals.state (fun o => s.taken o.port) (s.sent 1)
  arrived : ∀ o : Operand, Flit.payload (s.arrived o.port) <+: stream txs o
  inputs : Inputs s
  writes : WritesOnce s
  lossless : Lossless 1 s

section
variable {txs done : List (Operands F)} {s t : KernelState (RsaState F) Flit}

theorem ret_rsaHandler (v : View (RsaState F) Flit) : (rsaHandler v).ret = some PORT_ALL := by
  unfold rsaHandler
  simp only []
  split
  case h_8 => split <;> rfl
  all_goals rfl

theorem outputPort_collectStep (v : View (RsaState F) Flit) (l : Locals (RsaState F) Flit) :
    ((collectStep v).2.foldl applyOp l).outputPort = l.outputPort := by
  have hops : ∀ (o : Operand) (l : Locals (RsaState F) Flit),
      ((collected v o).ops.foldl applyOp l).outputPort = l.outputPort := by
    intro o l
    unfold collected collectPort
    split <;> rfl
  show (((collected v .m).ops ++ (collected v .e).ops ++ (collected v .n).ops).foldl applyOp
    l).outputPort = _
  rw [List.foldl_append, List.foldl_append, hops, hops, hops]

/-- A handler call presents the flit it emits. -/
theorem presentsAll_rsaModExp {l : Locals (RsaState F) Flit} (hsig : l.hasSignal = false) :
    PresentsAll (rsaModExp F) 1 l := by
  have hresult : bodyResult (rsaModExp F) l = rsaHandler (viewOf l) := by
    simp [bodyResult, hsig, rsaModExp]
  unfold PresentsAll
  rw [hresult]
  by_cases hcollect : (viewOf l).state.state = .collect
  · rw [rsaHandler_collect hcollect]
    simp only [setsOf_collectStep, runBody, outputPort_collectStep]
    simp
  · by_cases hemit : (viewOf l).state.state = .emit
    · by_cases hlt : (viewOf l).state.outIdx < F
      · rw [rsaHandler_emit hemit hlt]
        simp [setsOf, runBody, applyOp, hsig, rsaModExp, testPort_PORT_BIT]
      · simp [rsaHandler, hemit, hlt, setsOf, runBody]
    · rw [rsaHandler_compute hcollect hemit]
      simp [setsOf, runBody]

theorem portKept_of_fed (h : Running txs done s) {a : KernelAction Flit} (hok : Fed txs s a) :
    PortKept (rsaModExp F) 1 s a := by
  cases a with
  | kernel =>
    unfold Fed at hok
    unfold PortKept
    cases hpc : s.pc with
    | body => exact presentsAll_rsaModExp h.hasSignal
    | head => trivial
    | readIn rest => trivial
    | writeOut rest =>
      cases rest with
      | nil => trivial
      | cons q rest =>
        rw [hpc] at hok
        rintro rfl
        exact hok
  | _ => trivial

/-- What the producers have sent stays in order. -/
theorem arrived_step (h : ∀ o : Operand, Flit.payload (s.arrived o.port) <+: stream txs o)
    {a : KernelAction Flit} (hok : Fed txs s a) (hs : kstep (rsaModExp F) s a = some t)
    (o : Operand) : Flit.payload (t.arrived o.port) <+: stream txs o := by
  by_cases ha : a = .kernel
  · subst ha
    cases hs
    rw [arrived_kernelStep]
    exact h o
  · obtain ⟨-, -, -, -, hports⟩ := env_step ha hs
    rcases hports o.port with ⟨-, harr⟩ | ⟨f, rfl, harr⟩
    · rw [harr]
      exact h o
    · rw [harr]
      exact hok o rfl

/-- The operands answered after a step. -/
def doneNext (s : KernelState (RsaState F) Flit) (done : List (Operands F)) :
    KernelAction Flit → List (Operands F)
  | .kernel =>
    match s.pc with
    | .body => doneAfter s.locals.state done
    | _ => done
  | _ => done

theorem sim_body (hpos : 0 < F) (h : Running txs done s) :
    Sim (doneAfter s.locals.state done) (bodyStep (rsaModExp F) s).locals.state
      (fun o => (bodyStep (rsaModExp F) s).taken o.port) ((bodyStep (rsaModExp F) s).sent 1) := by
  have hresult : bodyResult (rsaModExp F) s.locals = rsaHandler (viewOf s.locals) := by
    simp [bodyResult, h.hasSignal, rsaModExp]
  have hstep := sim_handler (v := viewOf s.locals) hpos h.sim
  unfold bodyStep runRecorded
  simp only [hresult, h.hasSignal, takenBy_runBody]
  exact hstep

theorem sameBody_step {a : KernelAction Flit} (hs : kstep (rsaModExp F) s a = some t)
    (hnot : ¬ (a = .kernel ∧ s.pc = .body)) : SameBody s t := by
  by_cases ha : a = .kernel
  · subst ha
    cases hs
    exact sameBody_kernelStep rfl fun hpc => hnot ⟨rfl, hpc⟩
  · obtain ⟨hlocals, -, htaken, hsent, -⟩ := env_step ha hs
    exact ⟨by rw [hlocals], by rw [hlocals], by rw [hlocals], htaken, hsent⟩

theorem doneNext_of_not_body {a : KernelAction Flit} (hnot : ¬ (a = .kernel ∧ s.pc = .body)) :
    doneNext s done a = done := by
  cases a with
  | kernel =>
    have hpc : s.pc ≠ .body := fun hpc => hnot ⟨rfl, hpc⟩
    simp only [doneNext]
  | _ => rfl

/-- **One step of the kernel or of its environment keeps the invariant.** -/
theorem running_step (hpos : 0 < F) (h : Running txs done s) {a : KernelAction Flit}
    (hok : Fed txs s a) (hs : kstep (rsaModExp F) s a = some t) :
    Running txs (doneNext s done a) t := by
  have harrived := arrived_step h.arrived hok hs
  have hinputs := inputs_step h.inputs hs
  have hwrites := writesOnce_step h.writes hs
  have hlossless := (lossless_step h.writes h.lossless hs).mpr (portKept_of_fed h hok)
  by_cases hbody : a = .kernel ∧ s.pc = .body
  · obtain ⟨rfl, hpc⟩ := hbody
    have ht : t = bodyStep (rsaModExp F) s := by
      simp only [kstep, kernelStep, hpc] at hs
      exact (Option.some.inj hs).symm
    have hdone : doneNext s done .kernel = doneAfter s.locals.state done := by
      simp only [doneNext, hpc]
    have hsim := sim_body hpos h
    rw [hdone]
    rw [← ht] at hsim
    refine ⟨?_, ?_, hsim, harrived, hinputs, hwrites, hlossless⟩
    · rw [ht]
      simp [bodyStep, runRecorded, runBody, bodyResult, h.hasSignal, rsaModExp, ret_rsaHandler]
    · rw [ht]
      simp [bodyStep, h.hasSignal, runRecorded, runBody, hasSignal_applyOps]
  · have hsame := sameBody_step hs hbody
    rw [doneNext_of_not_body hbody]
    refine ⟨?_, ?_, ?_, harrived, hinputs, hwrites, hlossless⟩
    · rw [hsame.ret, h.ret]
    · rw [hsame.hasSignal, h.hasSignal]
    · rw [hsame.state, hsame.taken, hsame.sent]
      exact h.sim

theorem running_kinit (hpos : 0 < F) (st : RsaState F) (inCap outCap : Nat → Int) :
    Running txs [] (kinit (rsaInit st) inCap outCap) where
  ret := rfl
  hasSignal := rfl
  sim :=
    { idx_le := fun o => by cases o <;> exact Nat.zero_le _
      full := fun hne => absurd rfl hne
      outIdx := fun _ => rfl
      due := ⟨.m, hpos.ne⟩
      taken := fun o => by cases o <;> rfl
      sent := rfl }
  arrived := fun o => List.nil_prefix
  inputs := fun p => by simp [kinit, latched]
  writes := trivial
  lossless := rfl

end

end OpenClickNP
