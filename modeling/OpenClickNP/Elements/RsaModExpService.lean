import OpenClickNP.Backend.Progress
import OpenClickNP.Lib.Blocks
import OpenClickNP.Elements.RsaModExpRun

/-!
# The service of the `RSA_ModExp` elements

Whatever the order in which the operand flits arrive, the transactions that the element has
answered are the first ones that the producers have sent, and once all operands have arrived
a bounded number of kernel operations answers all of them.
-/

namespace OpenClickNP

open Bigint Run

variable {F : Nat}

/-! ## Lining up with what is sent -/

section
variable {txs done : List (Operands F)} {s t : KernelState (RsaState F) Flit}

theorem Operands.ext_get {t t' : Operands F} (h : ∀ o, t.get o = t'.get o) : t = t' := by
  cases t
  cases t'
  have hm := h .m
  have he := h .e
  have hn := h .n
  simp only [Operands.get] at hm he hn
  rw [hm, he, hn]

theorem length_get (o : Operand) (t : Operands F) : (t.get o).limbs.length = 4 * F :=
  (t.get o).length_limbs

/-- Flits are cleared in the order they came in. -/
theorem taken_begins_stream (h : Running txs done s) (o : Operand) :
    Flit.payload (s.taken o.port) <+: stream txs o := by
  have harr := h.arrived o
  rw [h.inputs o.port, List.append_assoc, Flit.payload_append] at harr
  exact (List.prefix_append _ _).trans harr

theorem blocks_taken (hpos : 0 < F) (h : Running txs done s) (o : Operand) :
    done.length ≤ txs.length ∧
      done.map (fun t => (t.get o).limbs) <+: txs.map (fun t => (t.get o).limbs) ∧
      (s.locals.state.operands.get o).limbs.take (4 * s.locals.state.idx o)
        <+: (txs.drop done.length).flatMap fun t => (t.get o).limbs := by
  have hpre := taken_begins_stream h o
  rw [h.sim.taken o] at hpre
  exact Blocks.line_up (length_get o) (by omega) hpre

/-- The transactions answered are the first ones sent. -/
theorem done_eq_take (hpos : 0 < F) (h : Running txs done s) : done = txs.take done.length := by
  have hle := (blocks_taken hpos h .m).1
  apply List.ext_getElem
  · simp [hle]
  · intro k hk _
    rw [List.getElem_take]
    apply Operands.ext_get
    intro o
    obtain ⟨-, hmap, -⟩ := blocks_taken hpos h o
    have hk' := hmap.getElem (i := k) (by simpa using hk)
    simp only [List.getElem_map] at hk'
    exact U.ext hk'

/-- Outside `S_COLLECT` the buffers hold the operands of the first transaction that is not
answered yet, all three of it. -/
theorem current_operands (hpos : 0 < F) (h : Running txs done s)
    (hst : s.locals.state.state ≠ .collect) :
    ∃ rest, txs.drop done.length = s.locals.state.operands :: rest := by
  have hblock : ∀ o : Operand, ∃ t rest, txs.drop done.length = t :: rest ∧
      (t.get o).limbs = (s.locals.state.operands.get o).limbs := by
    intro o
    obtain ⟨-, -, hcur⟩ := blocks_taken hpos h o
    rw [h.sim.full hst o, List.take_of_length_le (by simp)] at hcur
    exact Blocks.head_eq_of_begins (length_get o) (by omega) (length_get o _) hcur
  obtain ⟨t, rest, hdrop, -⟩ := hblock .m
  refine ⟨rest, ?_⟩
  have heq : t = s.locals.state.operands := by
    apply Operands.ext_get
    intro o
    obtain ⟨t', rest', hdrop', hlimbs⟩ := hblock o
    rw [hdrop] at hdrop'
    cases hdrop'
    exact U.ext hlimbs
  rw [hdrop, heq]

/-- The flits of all answers. -/
def answers (txs : List (Operands F)) : List Flit := txs.flatMap fun t => frame t.result

theorem sent_begins_answers (hpos : 0 < F) (h : Running txs done s) : s.sent 1 <+: answers txs := by
  have hdone := done_eq_take hpos h
  have hsplit : answers txs = answers done ++ answers (txs.drop done.length) := by
    unfold answers
    rw [← List.flatMap_append]
    conv_lhs => rw [← List.take_append_drop done.length txs, ← hdone]
  rw [h.sim.sent, hsplit]
  apply (List.prefix_append_right_inj _).mpr
  by_cases hemit : s.locals.state.state = .emit
  · have hst : s.locals.state.state ≠ .collect := by simp [hemit]
    obtain ⟨rest, hrest⟩ := current_operands hpos h hst
    have hdue := h.sim.due
    simp only [Due, hemit] at hdue
    rw [hrest]
    exact (outFlits_begin_frame _ hdue.2.le).trans (List.prefix_append _ _)
  · rw [h.sim.outIdx hemit]
    exact List.nil_prefix

theorem emitted_begins_answers (hpos : 0 < F) (h : Running txs done s) :
    emitted 1 s <+: answers txs := by
  have hsent : s.sent 1 = emitted 1 s ++ pendingOut 1 s := h.lossless
  have hpre := sent_begins_answers hpos h
  rw [hsent] at hpre
  exact (List.prefix_append _ _).trans hpre

/-- While it works on transaction `k` the element has taken from each port the flits of the
transactions before and of this one only, it has emitted the answers of those before, and what
it computes with are the three operands of this one. -/
structure Unmixed (txs : List (Operands F)) (k : Nat) (s : KernelState (RsaState F) Flit) :
    Prop where
  taken : ∀ o : Operand, k * F ≤ (s.taken o.port).length ∧ (s.taken o.port).length ≤ (k + 1) * F
  sent : k * F ≤ (s.sent 1).length ∧ (s.sent 1).length < (k + 1) * F
  operands : s.locals.state.state ≠ .collect → txs[k]? = some s.locals.state.operands

theorem unmixed (hpos : 0 < F) (h : Running txs done s) : Unmixed txs done.length s where
  taken := by
    intro o
    have hlen := congrArg List.length (h.sim.taken o)
    have hidx := h.sim.idx_le o
    rw [Flit.length_payload, List.length_append, Blocks.length_flatMap (length_get o),
      List.length_take, length_get, Nat.mul_assoc, Nat.min_eq_left (by omega)] at hlen
    rw [Nat.add_mul, Nat.mul_comm done.length F]
    omega
  sent := by
    have hlen := congrArg List.length h.sim.sent
    have hframe : ∀ t : Operands F, (frame t.result).length = F := fun t => by simp [frame]
    rw [List.length_append, Blocks.length_flatMap hframe, List.length_map, List.length_range]
      at hlen
    have hout : s.locals.state.outIdx < F := by
      by_cases hemit : s.locals.state.state = .emit
      · have hdue := h.sim.due
        simp only [Due, hemit] at hdue
        exact hdue.2
      · rw [h.sim.outIdx hemit]
        exact hpos
    rw [Nat.add_mul, Nat.mul_comm done.length F]
    omega
  operands := by
    intro hst
    obtain ⟨rest, hrest⟩ := current_operands hpos h hst
    have hget := congrArg (·[0]?) hrest
    simpa using hget

end

/-! ## The calls still needed -/

/-- The handler calls that a transaction needs once its operands have arrived. -/
def handlerCalls (t : Operands F) : Nat := 3 * F + (3 * t.e.bitlen + 3 + F)

/-- Those left for the transaction in work. -/
def callsLeft (st : RsaState F) (t : Operands F) : Nat :=
  match st.state with
  | .collect | .init =>
    (F - st.mIdx) + (F - st.eIdx) + (F - st.nIdx) + (3 * t.e.bitlen + 3 + F)
  | .findBit => 3 * t.e.bitlen + 2 + F
  | .square => 3 * st.bitIdx.toNat + 4 + F
  | .maybeMul => 3 * st.bitIdx.toNat + 3 + F
  | .nextBit => 3 * st.bitIdx.toNat + 2 + F
  | .final => 1 + F
  | .emit => F - st.outIdx

/-- Those left for the transactions not answered yet. -/
def work (st : RsaState F) : List (Operands F) → Nat
  | [] => 0
  | t :: rest => callsLeft st t + (rest.map handlerCalls).sum

theorem callsLeft_seekBit (st : RsaState F) (t : Operands F) (k : Nat) :
    callsLeft (seekBit st ((k : Int) - 1)) t = 3 * k + 1 + F := by
  unfold callsLeft seekBit
  cases k with
  | zero => rfl
  | succ i =>
    have hbit : ((i + 1 : Nat) : Int) - 1 = i := by omega
    simp only [hbit, show ¬ (i : Int) < 0 by omega, if_false, Int.toNat_natCast]
    omega

section
variable {done : List (Operands F)} {v : View (RsaState F) Flit} {taken : Operand → List Flit}
  {sent : List Flit}

/-- A call that runs `modexp` is one of those left. -/
theorem callsLeft_computeStep {st : RsaState F} (hcollect : st.state ≠ .collect)
    (hemit : st.state ≠ .emit) (h : Sim done st taken sent) :
    callsLeft (computeStep st) st.operands + 1 ≤ callsLeft st st.operands := by
  have hdue := h.due
  have hout := h.outIdx hemit
  unfold Due at hdue
  unfold computeStep
  cases hst : st.state with
  | collect => exact absurd hst hcollect
  | emit => exact absurd hst hemit
  | init =>
    simp only [callsLeft, initStep, hst]
    omega
  | findBit =>
    simp only [findBitStep, callsLeft_seekBit]
    simp only [callsLeft, hst, RsaState.operands]
    omega
  | square =>
    simp only [callsLeft, squareStep, hst]
    omega
  | maybeMul =>
    simp only [callsLeft, maybeMulStep, hst]
    omega
  | nextBit =>
    simp only [hst] at hdue
    obtain ⟨i, hi, -⟩ := hdue
    simp only [nextBitStep, hi, callsLeft_seekBit]
    simp only [callsLeft, hst, hi, Int.toNat_natCast]
    omega
  | final =>
    simp only [callsLeft, finalStep, hst, hout]
    omega

theorem idx_le_collected (o : Operand) : v.state.idx o ≤ (collected v o).idx := by
  unfold collected collectPort
  split
  · exact Nat.le_succ _
  · exact le_rfl

theorem callsLeft_collectStep_eq (hst : v.state.state = .collect) (t : Operands F) :
    callsLeft (collectStep v).1 t = (F - (collected v .m).idx) + (F - (collected v .e).idx)
      + (F - (collected v .n).idx) + (3 * t.e.bitlen + 3 + F) := by
  by_cases hall : ∀ o, (collectStep v).1.idx o = F
  · unfold callsLeft
    rw [state_collectStep_full hall]
    rfl
  · unfold callsLeft
    rw [state_collectStep_short hall, hst]
    rfl

theorem callsLeft_collectStep_le (hst : v.state.state = .collect) (t : Operands F) :
    callsLeft (collectStep v).1 t ≤ callsLeft v.state t := by
  have hm := idx_le_collected (v := v) .m
  have he := idx_le_collected (v := v) .e
  have hn := idx_le_collected (v := v) .n
  rw [callsLeft_collectStep_eq hst]
  simp only [callsLeft, hst]
  simp only [RsaState.idx] at hm he hn
  omega

/-- A call in `S_COLLECT` that finds a flit on each port it waits for is one of those left. -/
theorem callsLeft_collectStep_lt (hst : v.state.state = .collect)
    (h : Sim done v.state taken sent)
    (hready : ∀ o : Operand, v.state.idx o < F → testPort v.inputPort o.port = true)
    (t : Operands F) : callsLeft (collectStep v).1 t + 1 ≤ callsLeft v.state t := by
  have hdue := h.due
  simp only [Due, hst] at hdue
  obtain ⟨o, ho⟩ := hdue
  have hlt : v.state.idx o < F := lt_of_le_of_ne (h.idx_le o) ho
  have hmore : (collected v o).idx = v.state.idx o + 1 := by
    unfold collected collectPort
    simp [hlt, hready o hlt]
  have hm := idx_le_collected (v := v) .m
  have he := idx_le_collected (v := v) .e
  have hn := idx_le_collected (v := v) .n
  rw [callsLeft_collectStep_eq hst]
  simp only [callsLeft, hst]
  simp only [RsaState.idx] at hm he hn
  cases o <;> simp only [RsaState.idx] at hlt hmore <;> omega

theorem callsLeft_pos (h : Sim done v.state taken sent) (t : Operands F) :
    0 < callsLeft v.state t := by
  have hdue := h.due
  unfold Due at hdue
  unfold callsLeft
  cases hst : v.state.state with
  | emit =>
    simp only [hst] at hdue ⊢
    omega
  | _ =>
    simp only []
    omega

theorem work_emitStep (hst : v.state.state = .emit) (hlt : v.state.outIdx < F)
    (rest : List (Operands F)) :
    work (emitStep v.state)
        (if v.state.outIdx + 1 = F then rest else v.state.operands :: rest) + 1
      = work v.state (v.state.operands :: rest) := by
  by_cases hlast : v.state.outIdx + 1 = F
  · have hnext : work (emitStep v.state) rest = (rest.map handlerCalls).sum := by
      unfold emitStep
      rw [if_pos hlast]
      cases rest with
      | nil => rfl
      | cons t rest =>
        simp only [work, callsLeft, List.map_cons, List.sum_cons, handlerCalls]
        omega
    rw [if_pos hlast, hnext]
    simp only [work, callsLeft, hst]
    omega
  · rw [if_neg hlast]
    unfold emitStep
    rw [if_neg hlast]
    simp only [work, callsLeft, hst]
    omega

end

/-! ## Progress -/

/-- Every operand of `txs` has arrived. -/
def AllArrived (txs : List (Operands F)) (s : KernelState (RsaState F) Flit) : Prop :=
  ∀ o : Operand, Flit.payload (s.arrived o.port) = stream txs o

/-- No flit is waiting on a port that this turn of the loop has read in vain. -/
def Fresh (s : KernelState (RsaState F) Flit) : Prop :=
  match s.pc with
  | .readIn rest => ∀ o : Operand, o.port ∉ rest →
      testPort s.locals.inputPort o.port = true ∨ (s.ins o.port).q = []
  | .body => ∀ o : Operand, testPort s.locals.inputPort o.port = true ∨ (s.ins o.port).q = []
  | _ => True

/-- The kernel operations before the next body. -/
def toBody : LoopPc → Nat
  | .body => 0
  | .readIn rest => rest.length + 1
  | .head => 5
  | .writeOut rest => rest.length + 6

/-- The work left once the transactions `done` are answered. -/
def workLeft (txs done : List (Operands F)) (st : RsaState F) : Nat :=
  work st (txs.drop done.length)

/-- At most `n` kernel operations are needed to answer all of `txs`. A turn that started before
the last operands came in may be one too many. -/
def Progress (txs : List (Operands F)) (n : Nat) (s : KernelState (RsaState F) Flit) : Prop :=
  AllArrived txs s ∧ ∃ done, Running txs done s ∧
    (emitted 1 s = answers txs ∨
      8 * (workLeft txs done s.locals.state + 1) + toBody s.pc ≤ n ∨
      Fresh s ∧ 8 * workLeft txs done s.locals.state + toBody s.pc ≤ n)

section
variable {txs done : List (Operands F)} {s t : KernelState (RsaState F) Flit}

/-- A body outside `S_COLLECT` does one of the calls left. -/
theorem workLeft_busy (hpos : 0 < F) (h : Running txs done s)
    (hst : s.locals.state.state ≠ .collect) :
    workLeft txs (doneAfter s.locals.state done) (rsaHandler (viewOf s.locals)).state + 1
      ≤ workLeft txs done s.locals.state := by
  obtain ⟨rest, hrest⟩ := current_operands hpos h hst
  have hdue := h.sim.due
  unfold workLeft
  by_cases hemit : s.locals.state.state = .emit
  · simp only [Due, hemit] at hdue
    have hwork := work_emitStep (v := viewOf s.locals) hemit hdue.2 rest
    rw [rsaHandler_emit (v := viewOf s.locals) hemit hdue.2, hrest]
    have hdrop : txs.drop (doneAfter s.locals.state done).length
        = if s.locals.state.outIdx + 1 = F then rest else s.locals.state.operands :: rest := by
      unfold doneAfter
      by_cases hlast : s.locals.state.outIdx + 1 = F
      · rw [if_pos ⟨hemit, hlast⟩, if_pos hlast, List.length_append, List.length_singleton,
          ← List.drop_drop, hrest]
        rfl
      · rw [if_neg (fun hc => hlast hc.2), if_neg hlast, hrest]
    rw [hdrop]
    exact hwork.le
  · have hdone : doneAfter s.locals.state done = done := if_neg fun hc => hemit hc.1
    have hcalls := callsLeft_computeStep hst hemit h.sim
    rw [rsaHandler_compute (v := viewOf s.locals) hst hemit, hdone, hrest]
    show callsLeft (computeStep s.locals.state) _ + _ + 1 ≤ callsLeft s.locals.state _ + _
    omega

theorem workLeft_body_le (hpos : 0 < F) (h : Running txs done s) :
    workLeft txs (doneAfter s.locals.state done) (rsaHandler (viewOf s.locals)).state
      ≤ workLeft txs done s.locals.state := by
  by_cases hst : s.locals.state.state = .collect
  · have hdone : doneAfter s.locals.state done = done := if_neg fun hc => by simp [hst] at hc
    rw [rsaHandler_collect (v := viewOf s.locals) hst, hdone]
    unfold workLeft
    cases txs.drop done.length with
    | nil => exact le_rfl
    | cons t rest =>
      exact Nat.add_le_add_right (callsLeft_collectStep_le (v := viewOf s.locals) hst t) _
  · exact (Nat.le_succ _).trans (workLeft_busy hpos h hst)

/-- An operand still waited for is latched: it has arrived and this turn has not read in
vain. -/
theorem latched_of_fresh (h : Running txs done s) (hall : AllArrived txs s)
    (hrest : txs.drop done.length ≠ [])
    (hfresh : ∀ o : Operand, testPort s.locals.inputPort o.port = true ∨ (s.ins o.port).q = [])
    (o : Operand) (hlt : s.locals.state.idx o < F) :
    testPort s.locals.inputPort o.port = true := by
  cases hfresh o with
  | inl hbit => exact hbit
  | inr hempty =>
    by_contra hbit
    have htaken : s.arrived o.port = s.taken o.port := by
      rw [h.inputs o.port, hempty]
      simp [latched, hbit]
    have hlen := congrArg List.length (hall o)
    rw [htaken, h.sim.taken o, stream, List.length_append, Blocks.length_flatMap (length_get o),
      Blocks.length_flatMap (length_get o), List.length_take, length_get,
      Nat.min_eq_left (by omega)] at hlen
    have hmore : done.length + 1 ≤ txs.length := by
      by_contra hle
      exact hrest (List.drop_eq_nil_of_le (by omega))
    have hmul : 4 * F * (done.length + 1) ≤ 4 * F * txs.length := Nat.mul_le_mul_left _ hmore
    rw [Nat.mul_add] at hmul
    omega

/-- Nothing is left to do at a body only when everything is out. -/
theorem emitted_of_nothing_left (hpos : 0 < F) (h : Running txs done s) (hpc : s.pc = .body)
    (hrest : txs.drop done.length = []) : emitted 1 s = answers txs := by
  have hlossless : s.sent 1 = emitted 1 s ++ pendingOut 1 s := h.lossless
  have hpending : pendingOut 1 s = [] := by simp [pendingOut, hpc]
  have hcollect : s.locals.state.state = .collect := by
    by_contra hst
    obtain ⟨rest, hcons⟩ := current_operands hpos h hst
    rw [hrest] at hcons
    cases hcons
  have hdone : done = txs := by
    have htake := done_eq_take hpos h
    rw [htake]
    exact List.take_of_length_le (List.drop_eq_nil_iff.mp hrest)
  rw [hpending, List.append_nil] at hlossless
  rw [← hlossless, h.sim.sent, h.sim.outIdx (by simp [hcollect]), hdone]
  exact List.append_nil _

theorem workLeft_body_lt (hpos : 0 < F) (h : Running txs done s) (hall : AllArrived txs s)
    (hrest : txs.drop done.length ≠ [])
    (hfresh : ∀ o : Operand, testPort s.locals.inputPort o.port = true ∨ (s.ins o.port).q = []) :
    workLeft txs (doneAfter s.locals.state done) (rsaHandler (viewOf s.locals)).state + 1
      ≤ workLeft txs done s.locals.state := by
  by_cases hst : s.locals.state.state = .collect
  · have hdone : doneAfter s.locals.state done = done := if_neg fun hc => by simp [hst] at hc
    have hready := latched_of_fresh h hall hrest hfresh
    rw [rsaHandler_collect (v := viewOf s.locals) hst, hdone]
    unfold workLeft
    cases hdrop : txs.drop done.length with
    | nil => exact absurd hdrop hrest
    | cons t rest =>
      have hcalls := callsLeft_collectStep_lt (v := viewOf s.locals) hst h.sim hready t
      show callsLeft (collectStep (viewOf s.locals)).1 t + _ + 1 ≤ callsLeft s.locals.state t + _
      have hview : (viewOf s.locals).state = s.locals.state := rfl
      rw [hview] at hcalls
      omega
  · exact workLeft_busy hpos h hst

/-- The ports of the operands are the input ports. -/
theorem forall_inPorts {P : Nat → Prop} : (∀ p ∈ [1, 2, 3], P p) ↔ ∀ o : Operand, P o.port := by
  constructor
  · intro h o
    cases o <;> exact h _ (by decide)
  · intro h
    simpa using ⟨h .m, h .e, h .n⟩

theorem stepsToBody_rsaModExp (pc : LoopPc) : stepsToBody (rsaModExp F) pc = toBody pc := by
  cases pc <;> rfl

theorem caught_rsaModExp : Caught (rsaModExp F) s ↔ Fresh s := by
  unfold Caught Fresh
  cases s.pc with
  | readIn rest => exact forall_inPorts (P := fun p => p ∉ rest → LookedAt s p)
  | body => exact forall_inPorts (P := LookedAt s)
  | head => rfl
  | writeOut rest => rfl

theorem bodyStep_rsaModExp (hsig : s.locals.hasSignal = false) :
    (bodyStep (rsaModExp F) s).locals.state = (rsaHandler (viewOf s.locals)).state ∧
      (bodyStep (rsaModExp F) s).pc = .writeOut [1] := by
  simp [bodyStep, bodyResult, hsig, rsaModExp, runRecorded, runBody]

/-- Once all have come in nothing more is sent. -/
theorem operands_at_rest (hall : AllArrived txs s) {a : KernelAction Flit} (hok : Fed txs s a)
    (ha : a ≠ .kernel) (hs : kstep (rsaModExp F) s a = some t) (o : Operand) :
    t.ins o.port = s.ins o.port ∧ t.arrived o.port = s.arrived o.port := by
  obtain ⟨-, -, -, -, hports⟩ := env_step ha hs
  rcases hports o.port with hsame | ⟨f, rfl, -⟩
  · exact hsame
  · have hle := (hok o rfl).length_le
    rw [← hall o, Flit.length_payload, Flit.length_payload, List.length_append,
      List.length_singleton] at hle
    omega

theorem allArrived_step (hall : AllArrived txs s) {a : KernelAction Flit} (hok : Fed txs s a)
    (hs : kstep (rsaModExp F) s a = some t) : AllArrived txs t := by
  intro o
  by_cases ha : a = .kernel
  · subst ha
    cases hs
    rw [arrived_kernelStep]
    exact hall o
  · rw [(operands_at_rest hall hok ha hs o).2]
    exact hall o

/-- What a body leaves: the state of the handler, and the transactions it has answered. -/
theorem workLeft_bodyStep (h : Running txs done s) (hpc : s.pc = .body) :
    workLeft txs (doneNext s done .kernel) (bodyStep (rsaModExp F) s).locals.state
      = workLeft txs (doneAfter s.locals.state done) (rsaHandler (viewOf s.locals)).state := by
  have hdone : doneNext s done .kernel = doneAfter s.locals.state done := by
    simp only [doneNext, hpc]
  rw [hdone, (bodyStep_rsaModExp h.hasSignal).1]

/-- No step makes new work. -/
theorem workLeft_step (hpos : 0 < F) (h : Running txs done s) {a : KernelAction Flit}
    (hs : kstep (rsaModExp F) s a = some t) :
    workLeft txs (doneNext s done a) t.locals.state ≤ workLeft txs done s.locals.state := by
  by_cases hbody : a = .kernel ∧ s.pc = .body
  · obtain ⟨rfl, hpc⟩ := hbody
    rw [kstep_of_body hpc] at hs
    rw [← Option.some.inj hs, workLeft_bodyStep h hpc]
    exact workLeft_body_le hpos h
  · rw [doneNext_of_not_body hbody, (sameBody_step hs hbody).state]

theorem drop_of_workLeft (h : Running txs done s) (hwork : workLeft txs done s.locals.state ≤ 0) :
    txs.drop done.length = [] := by
  cases hdrop : txs.drop done.length with
  | nil => rfl
  | cons t rest =>
    have hcalls : 0 < callsLeft s.locals.state t :=
      callsLeft_pos (v := viewOf s.locals) h.sim t
    have hsum : workLeft txs done s.locals.state
        = callsLeft s.locals.state t + (rest.map handlerCalls).sum := by
      rw [workLeft, hdrop, work]
    omega

/-- All operands have come in, and at most `n` calls are left. -/
def RsaLeft (txs : List (Operands F)) (n : Nat) (s : KernelState (RsaState F) Flit) : Prop :=
  AllArrived txs s ∧ ∃ done, Running txs done s ∧ workLeft txs done s.locals.state ≤ n

/-- A call that finds all there is does one of those left. -/
theorem rsaLeft_call (hpos : 0 < F) {n : Nat} (h : RsaLeft txs (n + 1) s) (hpc : s.pc = .body)
    (hlooked : ∀ p ∈ [1, 2, 3], LookedAt s p) : RsaLeft txs n (bodyStep (rsaModExp F) s) := by
  obtain ⟨hall, done, hrun, hleft⟩ := h
  have hs : kstep (rsaModExp F) s .kernel = some (bodyStep (rsaModExp F) s) := kstep_of_body hpc
  have hok : Fed txs s .kernel := by
    -- a body writes to no stream
    unfold Fed
    rw [hpc]
    trivial
  refine ⟨allArrived_step hall hok hs, _, running_step hpos hrun hok hs, ?_⟩
  rw [workLeft_bodyStep hrun hpc]
  by_cases hrest : txs.drop done.length = []
  · have hnone : workLeft txs done s.locals.state = 0 := by rw [workLeft, hrest, work]
    have hle := workLeft_body_le hpos hrun
    omega
  · have hlt := workLeft_body_lt hpos hrun hall hrest (forall_inPorts.mp hlooked)
    omega

/-- **The element works off what has come in.** -/
theorem works_rsaModExp (hpos : 0 < F) (txs : List (Operands F)) :
    Works (rsaModExp F) (Fed txs) (RsaLeft txs) fun s => emitted 1 s = answers txs where
  lt := forall_inPorts.mpr fun o => by cases o <;> decide
  hasSignal := rfl
  noSignal h := by
    obtain ⟨-, done, hrun, -⟩ := h
    exact hrun.hasSignal
  asked h := by
    obtain ⟨-, done, hrun, -⟩ := h
    rw [hrun.ret]
    exact forall_inPorts.mpr fun o => by cases o <;> decide
  step h hok hs := by
    obtain ⟨hall, done, hrun, hleft⟩ := h
    exact ⟨allArrived_step hall hok hs, _, running_step hpos hrun hok hs,
      (workLeft_step hpos hrun hs).trans hleft⟩
  rest h hok ha hs := forall_inPorts.mpr fun o => (operands_at_rest h.1 hok ha hs o).1
  call := rsaLeft_call hpos
  finish h hpc := by
    obtain ⟨-, done, hrun, hleft⟩ := h
    exact emitted_of_nothing_left hpos hrun hpc (drop_of_workLeft hrun hleft)
  stable h hok hs hout := by
    obtain ⟨-, done, hrun, -⟩ := h
    have hmono := emitted_step (p := 1) hs
    rw [hout] at hmono
    exact (emitted_begins_answers hpos (running_step hpos hrun hok hs)).eq_of_length_le
      hmono.length_le

theorem progress_iff {n : Nat} : Progress txs n s ↔
    Outstanding (rsaModExp F) (RsaLeft txs) (fun s => emitted 1 s = answers txs) n s := by
  unfold Progress Outstanding
  rw [caught_rsaModExp, stepsToBody_rsaModExp]
  have hturn : iterationSteps (rsaModExp F) = 8 := rfl
  rw [hturn]
  constructor
  · rintro ⟨hall, done, hrun, hleft⟩
    exact ⟨_, ⟨hall, done, hrun, le_rfl⟩, hleft⟩
  · rintro ⟨k, ⟨hall, done, hrun, hk⟩, hleft⟩
    refine ⟨hall, done, hrun, ?_⟩
    rcases hleft with hout | hstale | ⟨hfresh, hn⟩
    · exact Or.inl hout
    · exact Or.inr (Or.inl (by omega))
    · exact Or.inr (Or.inr ⟨hfresh, by omega⟩)

/-- **Each kernel operation brings the last answer nearer**, and nothing takes it away. -/
theorem progress_step (hpos : 0 < F) {n : Nat} {a : KernelAction Flit} (h : Progress txs n s)
    (hok : Fed txs s a) (hs : kstep (rsaModExp F) s a = some t) :
    Progress txs (n - if a.isKernel then 1 else 0) t :=
  progress_iff.mpr ((works_rsaModExp hpos txs).step_outstanding (progress_iff.mp h) hok hs)

/-- With no operation left everything is out. -/
theorem emitted_of_progress (hpos : 0 < F) (h : Progress txs 0 s) : emitted 1 s = answers txs := by
  obtain ⟨-, done, hrun, hout | hstale | ⟨-, hn⟩⟩ := h
  · exact hout
  · omega
  · have hpc : s.pc = .body := by
      cases hpc : s.pc with
      | body => rfl
      | _ =>
        rw [hpc] at hn
        simp only [toBody] at hn
        omega
    exact emitted_of_nothing_left hpos hrun hpc (drop_of_workLeft hrun (by omega))

/-- What the run from the start keeps: the work left never exceeds what the transactions need in
all. -/
def InService (txs : List (Operands F)) (s : KernelState (RsaState F) Flit) : Prop :=
  ∃ done, Running txs done s ∧
    workLeft txs done s.locals.state ≤ (txs.map handlerCalls).sum ∧ toBody s.pc ≤ 7

theorem inService_kinit (hpos : 0 < F) (st : RsaState F) (inCap outCap : Nat → Int) :
    InService txs (kinit (rsaInit st) inCap outCap) := by
  refine ⟨[], running_kinit hpos st inCap outCap, ?_, show 5 ≤ 7 by decide⟩
  cases txs with
  | nil => exact le_rfl
  | cons t rest =>
    show callsLeft (rsaInit st) t + _ ≤ _
    simp only [callsLeft, rsaInit, handlerCalls, List.map_cons, List.sum_cons]
    omega

theorem inService_step (hpos : 0 < F) {a : KernelAction Flit} (h : InService txs s)
    (hok : Fed txs s a) (hs : kstep (rsaModExp F) s a = some t) : InService txs t := by
  obtain ⟨done, hrun, hwork, hnear⟩ := h
  refine ⟨_, running_step hpos hrun hok hs, (workLeft_step hpos hrun hs).trans hwork, ?_⟩
  have hlt : stepsToBody (rsaModExp F) s.pc < iterationSteps (rsaModExp F) := by
    rw [stepsToBody_rsaModExp]
    exact Nat.lt_succ_of_le hnear
  have hlt' := stepsToBody_lt_step rfl hrun.hasSignal hlt hs
  rw [stepsToBody_rsaModExp] at hlt'
  exact Nat.le_of_lt_succ hlt'

end

/-! ## The service -/

theorem forall₂_frames (txs : List (Operands F)) :
    List.Forall₂ (fun t fs => IsFrame (modexp t.m t.e t.n) fs) txs
      (txs.map fun t => frame t.result) := by
  induction txs with
  | nil => exact .nil
  | cons t txs ih => exact .cons (isFrame_frame _) ih

/-- **The `RSA_ModExp` elements serve their transactions in order.** For every width, every
sequence of transactions, all stream capacities and every interleaving of the kernel's
operations with its producers and its consumer, in which every output write is accepted: what
the element has emitted is a beginning of the answers of `txs`, one packet for each transaction
that spells its `modexp`; it never mixes the operands of two transactions; and once all operands
have arrived, the answers are complete after a bounded number of kernel operations. -/
theorem rsaModExp_serves (hpos : 0 < F) (txs : List (Operands F)) :
    ∃ frames : List (List Flit),
      List.Forall₂ (fun t fs => IsFrame (modexp t.m t.e t.n) fs) txs frames ∧
      ∀ (st : RsaState F) (inCap outCap : Nat → Int) (s : KernelState (RsaState F) Flit),
        Reaches (kstep (rsaModExp F)) (Fed txs) (kinit (rsaInit st) inCap outCap) s →
        emitted 1 s <+: frames.flatten ∧ (∃ k, Unmixed txs k s) ∧
        (AllArrived txs s → ∀ as, Meets (kstep (rsaModExp F)) (Fed txs) s as →
          8 * ((txs.map handlerCalls).sum + 2) ≤ as.countP KernelAction.isKernel →
          emitted 1 (exec (kstep (rsaModExp F)) s as) = frames.flatten) := by
  refine ⟨_, forall₂_frames txs, fun st inCap outCap s hreach => ?_⟩
  have hflat : (txs.map fun t => frame t.result).flatten = answers txs := List.flatMap_def.symm
  obtain ⟨done, hrun, hwork, hnear⟩ : InService txs s :=
    hreach.inv (inService_kinit hpos st inCap outCap)
      (fun _ _ _ h hok hs => inService_step hpos h hok hs)
  rw [hflat]
  refine ⟨emitted_begins_answers hpos hrun, ⟨_, unmixed hpos hrun⟩, fun hall as has hcount => ?_⟩
  have hstart : Progress txs (as.countP KernelAction.isKernel) s :=
    ⟨hall, done, hrun, Or.inr (Or.inl (by omega))⟩
  have hend := Meets.progress KernelAction.isKernel (fun s a => by cases a <;> rfl)
    (fun n s a t h hok hs => progress_step hpos h hok hs) has hstart
  rw [Nat.sub_self] at hend
  exact emitted_of_progress hpos hend

/-- `12 ^ 5 mod 7` on `RSA_ModExp_1024`, after the first flit of the base has come in. -/
theorem rsaModExp_serves_first_flit :
    ∃ frames : List (List Flit),
      List.Forall₂ (fun t fs => IsFrame (modexp t.m t.e t.n) fs)
        [(⟨U.ofNat 16 12, U.ofNat 16 5, U.ofNat 16 7⟩ : Operands 4)] frames ∧
      ∃ k, Unmixed [(⟨U.ofNat 16 12, U.ofNat 16 5, U.ofNat 16 7⟩ : Operands 4)] k
        (produceStep (kinit (rsaInit ⟨.emit, 1, 2, 3, 4, 5, U.zero _, U.zero _, U.zero _, U.zero _,
          U.zero _, U.zero _, U.zero _, 6⟩) (fun _ => 64) (fun _ => 64)) 1
          (outFlit (F := 4) (U.ofNat 16 12) 0)) := by
  obtain ⟨frames, hframes, hserve⟩ := rsaModExp_serves (F := 4) (by decide)
    [⟨U.ofNat 16 12, U.ofNat 16 5, U.ofNat 16 7⟩]
  refine ⟨frames, hframes, (hserve _ _ _ _ (.one (.produce 1 _) ?_ rfl)).2.1⟩
  rintro o ho
  have hlanes : Flit.payload [outFlit (F := 4) (U.ofNat 16 12) 0]
      = (U.ofNat (4 * 4) 12).limbs.take 4 :=
    payload_outFlits (F := 4) (U.ofNat 16 12) (by decide : 1 ≤ 4)
  cases o with
  | m =>
    show Flit.payload [outFlit (F := 4) (U.ofNat 16 12) 0] <+: _
    rw [hlanes]
    exact (List.take_prefix _ _).trans (List.prefix_append _ _)
  | e => cases ho
  | n => cases ho

end OpenClickNP
