import OpenClickNP.Backend.Progress
import OpenClickNP.Elements.MontMul
import OpenClickNP.Lib.Blocks

/-!
# The service of `MontMul_1024`

Whatever the order in which operand flits arrive on the two ports, the transactions that the element
has answered are the first ones that the producers have sent (`montDone_eq_take`), and once all
operands have arrived a bounded number of kernel operations answers all of them
(`montMul_serves`).
-/

namespace OpenClickNP

open Bigint Run

/-! ## Runs -/

/-- The words that the producer of a port sends for the transactions `txs`. -/
def montStream (txs : List MontOperands) (p : Nat) : List UInt64 := txs.flatMap fun t => t.words p

/-- The environment: each producer sends its operands one after the other, at its own pace, and
every output write finds room. -/
def MontFed (txs : List MontOperands) (s : KernelState MontState Flit) : KernelAction Flit → Prop
  | .kernel => FindsRoom 1 s .kernel
  | .produce p f => p ∈ [1, 2] → Flit.payload (s.arrived p ++ [f]) <+: montStream txs p
  | _ => True

/-- What holds in every state of a run, with the operands answered so far. -/
structure MontRunning (txs done : List MontOperands) (s : KernelState MontState Flit) : Prop where
  ret : s.locals.ret = PORT_ALL
  noSignal : s.locals.hasSignal = false
  sim : MontSim done s.locals.state s.taken (s.sent 1)
  arrived : ∀ p ∈ [1, 2], Flit.payload (s.arrived p) <+: montStream txs p
  inputs : Inputs s
  writes : WritesOnce s
  lossless : Lossless 1 s

section
variable {txs done : List MontOperands} {s t : KernelState MontState Flit}

theorem setsOf_emitC_length (st : MontState) : (setsOf 1 (emitC st).2).length ≤ 1 := by
  unfold emitC
  split
  · exact le_rfl
  · exact Nat.zero_le _

theorem plain_montMul : Plain montMul1024 1 where
  mem := List.mem_singleton_self 1
  lt := by decide
  plain v op hop := by
    have hop : op ∈ (montMulHandler v).ops := hop
    have hsend : ∀ op ∈ (emitC (filled v)).2, op.isPlain = true := by
      unfold emitC
      split <;> simp [PortOp.isPlain]
    rw [ops_montMul] at hop
    rcases List.mem_append.mp hop with hop | hop
    · rcases ops_collectA v v.state with hA | hA <;>
        rcases ops_collectBN v (collectA v v.state).1 with hB | hB <;> rw [hA, hB] at hop <;>
        simp only [List.nil_append, List.cons_append, List.mem_cons, List.not_mem_nil,
          or_false] at hop
      · rw [hop]
        rfl
      · rw [hop]
        rfl
      · rcases hop with hop | hop <;> rw [hop] <;> rfl
    · exact hsend op hop
  length_le v := by
    show (setsOf 1 (montMulHandler v).ops).length ≤ 1
    rw [setsOf_montMul]
    exact setsOf_emitC_length _
  signal _ := rfl

theorem findsRoom_of_montFed {a : KernelAction Flit} (h : MontFed txs s a) : FindsRoom 1 s a := by
  cases a with
  | kernel => exact h
  | _ => trivial

/-- What the producers have sent stays in order. -/
theorem montArrived_step (h : ∀ p ∈ [1, 2], Flit.payload (s.arrived p) <+: montStream txs p)
    {a : KernelAction Flit} (hok : MontFed txs s a) (hs : kstep montMul1024 s a = some t) :
    ∀ p ∈ [1, 2], Flit.payload (t.arrived p) <+: montStream txs p := by
  intro p hp
  by_cases ha : a = .kernel
  · subst ha
    cases hs
    rw [arrived_kernelStep]
    exact h p hp
  · obtain ⟨-, -, -, -, hports⟩ := env_step ha hs
    rcases hports p with ⟨-, harr⟩ | ⟨f, rfl, harr⟩
    · rw [harr]
      exact h p hp
    · rw [harr]
      exact hok hp

/-- The operands answered after a step. -/
def montNext (s : KernelState MontState Flit) (done : List MontOperands) :
    KernelAction Flit → List MontOperands
  | .kernel =>
    match s.pc with
    | .body => montDone (filled (viewOf s.locals)) done
    | _ => done
  | _ => done

theorem montNext_of_not_body {a : KernelAction Flit} (h : a = .kernel → s.pc ≠ .body) :
    montNext s done a = done := by
  cases a with
  | kernel =>
    have hpc : s.pc ≠ .body := h rfl
    simp only [montNext]
  | _ => rfl

/-- **One step of the kernel or of its environment keeps the invariant.** -/
theorem montRunning_step (h : MontRunning txs done s) {a : KernelAction Flit}
    (hok : MontFed txs s a) (hs : kstep montMul1024 s a = some t) :
    MontRunning txs (montNext s done a) t where
  ret := ret_step rfl (fun _ => rfl) h.ret h.noSignal hs
  noSignal := hasSignal_step rfl h.noSignal hs
  sim := by
    rcases records_step hs with ⟨rfl, hpc, rfl⟩ | ⟨hpc, hrec⟩
    · have hstep := montSim_handler (v := viewOf s.locals) h.sim
      have hnext : montNext s done .kernel = montDone (filled (viewOf s.locals)) done := by
        simp only [montNext, hpc]
      have htaken : (bodyStep montMul1024 s).taken = fun p => s.taken p
          ++ takenIn p (viewOf s.locals) (bodyResult montMul1024 s.locals) :=
        funext fun p => taken_bodyStep p
      rw [hnext, state_bodyStep, sent_bodyStep, htaken, bodyResult_of_noSignal h.noSignal]
      exact hstep
    · rw [montNext_of_not_body hpc, hrec.state, hrec.taken, hrec.sent]
      exact h.sim
  arrived := montArrived_step h.arrived hok hs
  inputs := inputs_step h.inputs hs
  writes := writesOnce_step h.writes hs
  lossless := (lossless_step h.writes h.lossless hs).mpr
    ((portKept_iff_findsRoom plain_montMul a).mpr (findsRoom_of_montFed hok))

theorem montRunning_kinit (st : MontState) (inCap outCap : Nat → Int) :
    MontRunning txs [] (kinit (montInit st) inCap outCap) where
  ret := rfl
  noSignal := rfl
  sim :=
    { aIdx_le := Nat.zero_le _
      bIdx_le := Nat.zero_le _
      nIdx_le := Nat.zero_le _
      second := fun hne => absurd rfl hne
      outIdx_lt := Nat.succ_pos _
      sending := fun hne => absurd rfl hne
      answered := fun hfull => absurd hfull.1 (Nat.succ_ne_zero _).symm
      taken := fun p _ => by
        unfold MontState.collected montInit
        simp [kinit, Flit.payload]
      sent := rfl }
  arrived := fun p _ => List.nil_prefix
  inputs := inputs_kinit _ _ _
  writes := trivial
  lossless := rfl

/-! ## Lining up with what is sent -/

/-- The words of one transaction on a port. -/
def portWords (p : Nat) : Nat := if p = 1 then 16 else 32

theorem length_words (p : Nat) (t : MontOperands) : (t.words p).length = portWords p := by
  unfold MontOperands.words portWords
  split <;> simp

theorem portWords_pos (p : Nat) : 0 < portWords p := by
  unfold portWords
  split <;> decide

/-- The words of both ports tell the operands. -/
theorem MontOperands.ext_words {t t' : MontOperands} (h : ∀ p ∈ [1, 2], t.words p = t'.words p) :
    t = t' := by
  obtain ⟨a, b, n⟩ := t
  obtain ⟨a', b', n'⟩ := t'
  have ha : a.limbs = a'.limbs := h 1 (by decide)
  have hbn : b.limbs ++ n.limbs = b'.limbs ++ n'.limbs := h 2 (by decide)
  -- both halves have the length of an operand
  obtain ⟨hb, hn⟩ := List.append_inj hbn (by simp)
  rw [U.ext ha, U.ext hb, U.ext hn]

/-- Flits are taken in the order they came in. -/
theorem montTaken_begins_stream (h : MontRunning txs done s) {p : Nat} (hp : p ∈ [1, 2]) :
    Flit.payload (s.taken p) <+: montStream txs p := by
  have harr := h.arrived p hp
  rw [h.inputs p, List.append_assoc, Flit.payload_append] at harr
  exact (List.prefix_append _ _).trans harr

theorem montBlocks_taken (h : MontRunning txs done s) {p : Nat} (hp : p ∈ [1, 2]) :
    done.length ≤ txs.length ∧
      done.map (fun t => t.words p) <+: txs.map (fun t => t.words p) ∧
      s.locals.state.collected p <+: (txs.drop done.length).flatMap fun t => t.words p := by
  have hpre := montTaken_begins_stream h hp
  rw [h.sim.taken p hp] at hpre
  exact Blocks.line_up (length_words p) (portWords_pos p) hpre

/-- The transactions answered are the first ones sent. -/
theorem montDone_eq_take (h : MontRunning txs done s) : done = txs.take done.length := by
  have hle := (montBlocks_taken h (p := 1) (by decide)).1
  apply List.ext_getElem
  · simp [hle]
  · intro k hk _
    rw [List.getElem_take]
    apply MontOperands.ext_words
    intro p hp
    obtain ⟨-, hmap, -⟩ := montBlocks_taken h hp
    have hk' := hmap.getElem (i := k) (by simpa using hk)
    simpa only [List.getElem_map] using hk'

/-- While an answer is sent, the buffers hold the operands of the first transaction that is not
answered yet, all three of it. -/
theorem montOperands_of_full (h : MontRunning txs done s) (hfull : s.locals.state.Full) :
    ∃ rest, txs.drop done.length = s.locals.state.operands :: rest := by
  have hhead : ∀ p ∈ [1, 2], ∃ t rest, txs.drop done.length = t :: rest ∧
      t.words p = s.locals.state.operands.words p := by
    intro p hp
    obtain ⟨-, -, hcur⟩ := montBlocks_taken h hp
    rw [collected_of_full hfull] at hcur
    exact Blocks.head_eq_of_begins (length_words p) (portWords_pos p) (length_words p _) hcur
  obtain ⟨t, rest, hdrop, -⟩ := hhead 1 (by decide)
  refine ⟨rest, ?_⟩
  rw [hdrop]
  refine congrArg (· :: rest) (MontOperands.ext_words fun p hp => ?_)
  obtain ⟨t', rest', hdrop', hwords⟩ := hhead p hp
  rw [hdrop] at hdrop'
  cases hdrop'
  exact hwords

/-- The flits of all answers. -/
def montAnswers (txs : List MontOperands) : List Flit :=
  txs.flatMap fun t => frame (F := 4) t.result

theorem montSent_begins_answers (h : MontRunning txs done s) : s.sent 1 <+: montAnswers txs := by
  have hdone := montDone_eq_take h
  have hsplit : montAnswers txs = montAnswers done ++ montAnswers (txs.drop done.length) := by
    unfold montAnswers
    rw [← List.flatMap_append]
    conv_lhs => rw [← List.take_append_drop done.length txs, ← hdone]
  rw [h.sim.sent, hsplit]
  apply (List.prefix_append_right_inj _).mpr
  by_cases hfull : s.locals.state.Full
  · obtain ⟨rest, hrest⟩ := montOperands_of_full h hfull
    rw [hrest]
    exact (outFlits_begin_frame (F := 4) _ h.sim.outIdx_lt.le).trans (List.prefix_append _ _)
  · rw [(h.sim.sent_of_short hfull).1]
    exact List.nil_prefix

theorem montEmitted_begins_answers (h : MontRunning txs done s) :
    emitted 1 s <+: montAnswers txs := by
  have hsent : s.sent 1 = emitted 1 s ++ pendingOut 1 s := h.lossless
  have hpre := montSent_begins_answers h
  rw [hsent] at hpre
  exact (List.prefix_append _ _).trans hpre

/-- While it works on transaction `k` the element has taken from each port the flits of the
transactions before and of this one only, it has emitted the answers of those before, and while it
sends the answer of this one, its buffers hold the operands of this one. -/
structure MontUnmixed (txs : List MontOperands) (k : Nat) (s : KernelState MontState Flit) : Prop
    where
  takenA : k * 4 ≤ (s.taken 1).length ∧ (s.taken 1).length ≤ (k + 1) * 4
  takenBN : k * 8 ≤ (s.taken 2).length ∧ (s.taken 2).length ≤ (k + 1) * 8
  sent : k * 4 ≤ (s.sent 1).length ∧ (s.sent 1).length < (k + 1) * 4
  operands : s.locals.state.outIdx ≠ 0 → txs[k]? = some s.locals.state.operands

theorem montUnmixed (h : MontRunning txs done s) : MontUnmixed txs done.length s := by
  have hwords : ∀ p ∈ [1, 2], 4 * (s.taken p).length
      = portWords p * done.length + (s.locals.state.collected p).length := by
    intro p hp
    have hlen := congrArg List.length (h.sim.taken p hp)
    rwa [Flit.length_payload, List.length_append, Blocks.length_flatMap (length_words p)] at hlen
  have ha := h.sim.aIdx_le
  have hb := h.sim.bIdx_le
  have hn := h.sim.nIdx_le
  have hout := h.sim.outIdx_lt
  have hone := hwords 1 (by decide)
  have htwo := hwords 2 (by decide)
  have hsent := congrArg List.length h.sim.sent
  have hframe : ∀ t : MontOperands, (frame (F := 4) t.result).length = 4 := fun t => by simp [frame]
  rw [List.length_append, Blocks.length_flatMap hframe, List.length_map, List.length_range] at hsent
  simp only [portWords, MontState.collected, if_true, List.length_take, U.length_limbs] at hone
  simp only [portWords, MontState.collected, show ¬ (2 : Nat) = 1 by decide, if_false,
    List.length_append, List.length_take, U.length_limbs] at htwo
  refine ⟨by omega, by omega, by omega, fun hne => ?_⟩
  obtain ⟨rest, hrest⟩ := montOperands_of_full h (h.sim.sending hne)
  have hget := congrArg (·[0]?) hrest
  simpa using hget

/-! ## Progress -/

/-- How far the transaction in work has come, of 16 steps. -/
def MontState.count (st : MontState) : Nat := st.aIdx + st.bIdx + st.nIdx + st.outIdx

theorem count_collectA (v : View MontState Flit) (st : MontState) : (collectA v st).1.count
    = st.count + if st.aIdx < 4 ∧ testPort v.inputPort 1 = true then 1 else 0 := by
  unfold collectA
  by_cases hcond : st.aIdx < 4 ∧ testPort v.inputPort 1 = true
  · simp [hcond, MontState.count]
    omega
  · rw [if_neg hcond, if_neg (by simpa using hcond)]
    rfl

theorem count_collectBN (v : View MontState Flit) {st : MontState} (hle : st.bIdx ≤ 4) :
    (collectBN v st).1.count = st.count +
      if (st.bIdx < 4 ∨ st.nIdx < 4) ∧ testPort v.inputPort 2 = true then 1 else 0 := by
  unfold collectBN
  cases htest : testPort v.inputPort 2 with
  | false => simp
  | true =>
    by_cases hb : st.bIdx < 4
    · simp [hb, MontState.count]
      omega
    · have hfour : st.bIdx = 4 := by omega
      by_cases hn : st.nIdx < 4
      · simp [hfour, hn, MontState.count]
        omega
      · simp [hfour, hn]

theorem count_emitC (done : List MontOperands) {st : MontState} (hlt : st.outIdx < 4) :
    16 * (montDone st done).length + (emitC st).1.count
      = 16 * done.length + st.count + if st.Full then 1 else 0 := by
  unfold montDone emitC
  by_cases hfull : st.Full
  · have hfour := hfull
    obtain ⟨ha, hb, hn⟩ := hfour
    by_cases hlast : st.outIdx + 1 = 4
    · rw [if_pos ⟨hfull, hlast⟩, if_pos ⟨hfull, hlt⟩, if_pos hfull]
      simp only [hlast, if_true, List.length_append, List.length_singleton, MontState.count, ha, hb,
        hn]
      omega
    · rw [if_neg fun hboth => hlast hboth.2, if_pos ⟨hfull, hlt⟩, if_pos hfull]
      simp only [if_neg hlast, MontState.count]
      omega
  · rw [if_neg fun hboth => hfull hboth.1, if_neg fun hboth => hfull hboth.1, if_neg hfull]
    rfl

/-- **A call does not go back**, and one that finds the flits it waits for goes on. -/
theorem count_handler {v : View MontState Flit} {taken : Nat → List Flit} {sent : List Flit}
    (h : MontSim done v.state taken sent) :
    16 * done.length + v.state.count
        ≤ 16 * (montDone (filled v) done).length + (montMulHandler v).state.count ∧
      ((v.state.aIdx < 4 → testPort v.inputPort 1 = true) →
        (v.state.bIdx < 4 ∨ v.state.nIdx < 4 → testPort v.inputPort 2 = true) →
        16 * done.length + v.state.count + 1
          ≤ 16 * (montDone (filled v) done).length + (montMulHandler v).state.count) := by
  have hA := h.toMontCollected.collectA (v := v)
  have hAB := hA.collectBN (v := v)
  have hcountA := count_collectA v v.state
  have hsame : (collectA v v.state).1.bIdx = v.state.bIdx ∧
      (collectA v v.state).1.nIdx = v.state.nIdx := by
    unfold collectA
    split <;> exact ⟨rfl, rfl⟩
  have hcountB := count_collectBN v hA.bIdx_le
  have hcountC : 16 * (montDone (filled v) done).length + (montMulHandler v).state.count
      = 16 * done.length + (filled v).count + if (filled v).Full then 1 else 0 :=
    count_emitC done hAB.outIdx_lt
  have hfilled : (filled v).count = (collectBN v (collectA v v.state).1).1.count := rfl
  rw [hsame.1, hsame.2] at hcountB
  refine ⟨by omega, fun hready1 hready2 => ?_⟩
  by_cases hfull : v.state.Full
  · -- nothing is left to collect, and a flit of the answer is sent
    have hkept : filled v = v.state := by
      obtain ⟨ha, hb, hn⟩ := hfull
      unfold filled collectA collectBN
      simp [ha, hb, hn]
    rw [hkept, if_pos hfull] at hcountC
    rw [hkept]
    omega
  · have hshort : v.state.aIdx < 4 ∨ v.state.bIdx < 4 ∨ v.state.nIdx < 4 := by
      by_contra hnone
      have ha := h.aIdx_le
      have hb := h.bIdx_le
      have hn := h.nIdx_le
      exact hfull ⟨by omega, by omega, by omega⟩
    rcases hshort with ha | hbn
    · rw [if_pos ⟨ha, hready1 ha⟩] at hcountA
      omega
    · rw [if_pos ⟨hbn, hready2 hbn⟩] at hcountB
      omega

/-- All operands have come in. -/
def MontArrived (txs : List MontOperands) (s : KernelState MontState Flit) : Prop :=
  ∀ p ∈ [1, 2], Flit.payload (s.arrived p) = montStream txs p

/-- All operands have come in, and at most `n` calls are needed that find the flits they wait for.
-/
def MontLeft (txs : List MontOperands) (n : Nat) (s : KernelState MontState Flit) : Prop :=
  MontArrived txs s ∧ ∃ done, MontRunning txs done s ∧
    16 * txs.length ≤ n + 16 * done.length + s.locals.state.count

/-- A transaction that is not answered has its flits on the ports. -/
theorem montReady (h : MontRunning txs done s) (hall : MontArrived txs s)
    (hmore : done.length < txs.length) {p : Nat} (hp : p ∈ [1, 2])
    (hlooked : LookedAt s p) (hshort : (s.locals.state.collected p).length < portWords p) :
    testPort s.locals.inputPort p = true := by
  rcases hlooked with hbit | hempty
  · exact hbit
  by_contra hno
  have hports := h.inputs p
  rw [hempty, latched, if_neg hno, List.append_nil, List.append_nil] at hports
  have hlen := congrArg List.length (h.sim.taken p hp)
  rw [← hports, hall p hp, montStream, List.length_append,
    Blocks.length_flatMap (length_words p), Blocks.length_flatMap (length_words p)] at hlen
  have hblocks : portWords p * (done.length + 1) ≤ portWords p * txs.length :=
    Nat.mul_le_mul_left _ hmore
  rw [Nat.mul_succ] at hblocks
  omega

/-- With nothing left to do everything has been sent. -/
theorem montSent_of_nothing_left (h : MontRunning txs done s) (hend : txs.length ≤ done.length)
    (hpc : s.pc = .body) : emitted 1 s = montAnswers txs := by
  have htxs : done = txs := by
    have htake := montDone_eq_take h
    rwa [List.take_of_length_le hend] at htake
  have hshort : ¬ s.locals.state.Full := by
    intro hfull
    obtain ⟨rest, hrest⟩ := montOperands_of_full h hfull
    rw [List.drop_eq_nil_iff.mpr hend] at hrest
    cases hrest
  have hsent : s.sent 1 = emitted 1 s ++ pendingOut 1 s := h.lossless
  have hnone : pendingOut 1 s = [] := by simp [pendingOut, hpc]
  rw [hnone, List.append_nil] at hsent
  rw [← hsent, (h.sim.sent_of_short hshort).2, htxs]
  rfl

/-- Once all have come in nothing more is sent. -/
theorem montAtRest (hall : MontArrived txs s) {a : KernelAction Flit} (hok : MontFed txs s a)
    (ha : a ≠ .kernel) (hs : kstep montMul1024 s a = some t) {p : Nat} (hp : p ∈ [1, 2]) :
    t.ins p = s.ins p ∧ t.arrived p = s.arrived p := by
  obtain ⟨-, -, -, -, hports⟩ := env_step ha hs
  rcases hports p with hsame | ⟨f, rfl, -⟩
  · exact hsame
  · have hle := (hok hp).length_le
    rw [← hall p hp, Flit.length_payload, Flit.length_payload, List.length_append,
      List.length_singleton] at hle
    omega

theorem montArrived_of_step (hall : MontArrived txs s) {a : KernelAction Flit}
    (hok : MontFed txs s a) (hs : kstep montMul1024 s a = some t) : MontArrived txs t := by
  intro p hp
  by_cases ha : a = .kernel
  · subst ha
    cases hs
    rw [arrived_kernelStep]
    exact hall p hp
  · rw [(montAtRest hall hok ha hs hp).2]
    exact hall p hp

/-- A step does not add to the work that is left. -/
theorem montCount_step (h : MontRunning txs done s) {a : KernelAction Flit}
    (hs : kstep montMul1024 s a = some t) :
    16 * done.length + s.locals.state.count
      ≤ 16 * (montNext s done a).length + t.locals.state.count := by
  rcases records_step hs with ⟨rfl, hpc, rfl⟩ | ⟨hpc, hrec⟩
  · have hnext : montNext s done .kernel = montDone (filled (viewOf s.locals)) done := by
      simp only [montNext, hpc]
    rw [hnext, state_bodyStep, bodyResult_of_noSignal h.noSignal]
    exact (count_handler (v := viewOf s.locals) h.sim).1
  · rw [montNext_of_not_body hpc, hrec.state]

theorem count_lt (h : MontRunning txs done s) : s.locals.state.count < 16 := by
  have ha := h.sim.aIdx_le
  have hb := h.sim.bIdx_le
  have hn := h.sim.nIdx_le
  have hout := h.sim.outIdx_lt
  unfold MontState.count
  omega

/-- A call that has looked at both ports does one of the steps that are left. -/
theorem montLeft_call {n : Nat} (h : MontLeft txs (n + 1) s) (hpc : s.pc = .body)
    (hlooked : ∀ p ∈ [1, 2], LookedAt s p) : MontLeft txs n (bodyStep montMul1024 s) := by
  obtain ⟨hall, done, hrun, hleft⟩ := h
  have hs : kstep montMul1024 s .kernel = some (bodyStep montMul1024 s) := kstep_of_body hpc
  have hok : MontFed txs s .kernel := by
    show FindsRoom 1 s .kernel
    -- a body writes to no stream
    unfold FindsRoom
    rw [hpc]
    trivial
  have hnext : montNext s done .kernel = montDone (filled (viewOf s.locals)) done := by
    simp only [montNext, hpc]
  refine ⟨montArrived_of_step hall hok hs, _, montRunning_step hrun hok hs, ?_⟩
  by_cases hmore : done.length < txs.length
  · have hcount := (count_handler (v := viewOf s.locals) hrun.sim).2
    rw [hnext, state_bodyStep, bodyResult_of_noSignal hrun.noSignal]
    have hstep := hcount ?_ ?_
    · show 16 * txs.length ≤ n + 16 * _ + (montMulHandler (viewOf s.locals)).state.count
      have hview : (viewOf s.locals).state = s.locals.state := rfl
      rw [hview] at hstep
      omega
    · intro ha
      have ha : s.locals.state.aIdx < 4 := ha
      refine montReady hrun hall hmore (by decide) (hlooked 1 (by decide)) ?_
      simp only [MontState.collected, portWords, if_true, List.length_take, U.length_limbs]
      omega
    · intro hbn
      have hbn : s.locals.state.bIdx < 4 ∨ s.locals.state.nIdx < 4 := hbn
      have hb := hrun.sim.bIdx_le
      have hn := hrun.sim.nIdx_le
      refine montReady hrun hall hmore (by decide) (hlooked 2 (by decide)) ?_
      simp only [MontState.collected, portWords, show ¬ (2 : Nat) = 1 by decide, if_false,
        List.length_append, List.length_take, U.length_limbs]
      omega
  · have hcount := montCount_step hrun hs
    have hlt := count_lt hrun
    omega

/-- **The element works off what has come in.** -/
theorem works_montMul (txs : List MontOperands) : Works montMul1024 (MontFed txs) (MontLeft txs)
    fun s => emitted 1 s = montAnswers txs where
  lt := by decide
  hasSignal := rfl
  noSignal h := by
    obtain ⟨-, done, hrun, -⟩ := h
    exact hrun.noSignal
  asked h p hp := by
    obtain ⟨-, done, hrun, -⟩ := h
    rw [hrun.ret]
    rcases List.mem_pair.mp hp with rfl | rfl <;> decide
  step h hok hs := by
    obtain ⟨hall, done, hrun, hleft⟩ := h
    have hcount := montCount_step hrun hs
    exact ⟨montArrived_of_step hall hok hs, _, montRunning_step hrun hok hs, by omega⟩
  rest h hok ha hs p hp := (montAtRest h.1 hok ha hs hp).1
  call := montLeft_call
  finish h hpc := by
    obtain ⟨-, done, hrun, hleft⟩ := h
    have hlt := count_lt hrun
    exact montSent_of_nothing_left hrun (by omega) hpc
  stable h hok hs hend := by
    obtain ⟨-, done, hrun, -⟩ := h
    have hmono := emitted_step (p := 1) hs
    rw [hend] at hmono
    exact ((montEmitted_begins_answers (montRunning_step hrun hok hs)).eq_of_length_le
      hmono.length_le)

end

/-! ## The service -/

theorem forall₂_montFrames (txs : List MontOperands) : List.Forall₂
    (fun t fs => IsFrame (F := 4) (montMul t.a t.b t.n (computeNInv t.n)) fs) txs
      (txs.map fun t => frame (F := 4) t.result) := by
  induction txs with
  | nil => exact .nil
  | cons t txs ih => exact .cons (isFrame_frame _) ih

/-- **`MontMul_1024` serves its transactions in order.** For every sequence of transactions, all
stream capacities and every interleaving of the kernel's operations with its producers and its
consumer, in which every output write is accepted: what the element has emitted is a beginning of
the answers of `txs`, one packet for each transaction that spells its `mont_mul`; it never mixes
the operands of two transactions; and once all operands have arrived, the answers are complete
after a bounded number of kernel operations. -/
theorem montMul_serves (txs : List MontOperands) :
    ∃ frames : List (List Flit),
      List.Forall₂
        (fun t fs => IsFrame (F := 4) (montMul t.a t.b t.n (computeNInv t.n)) fs) txs frames ∧
      ∀ (st : MontState) (inCap outCap : Nat → Int) (s : KernelState MontState Flit),
        Reaches (kstep montMul1024) (MontFed txs) (kinit (montInit st) inCap outCap) s →
        emitted 1 s <+: frames.flatten ∧ (∃ k, MontUnmixed txs k s) ∧
        (MontArrived txs s → ∀ as, Meets (kstep montMul1024) (MontFed txs) s as →
          7 * (16 * txs.length + 2) ≤ as.countP KernelAction.isKernel →
          emitted 1 (exec (kstep montMul1024) s as) = frames.flatten) := by
  refine ⟨_, forall₂_montFrames txs, fun st inCap outCap s hreach => ?_⟩
  have hflat : (txs.map fun t => frame (F := 4) t.result).flatten = montAnswers txs :=
    List.flatMap_def.symm
  have hinv : (∃ done, MontRunning txs done s) ∧
      stepsToBody montMul1024 s.pc < iterationSteps montMul1024 := by
    refine hreach.inv (P := fun s => (∃ done, MontRunning txs done s) ∧
      stepsToBody montMul1024 s.pc < iterationSteps montMul1024)
      ⟨⟨[], montRunning_kinit st inCap outCap⟩, (by decide : 4 < 7)⟩ ?_
    rintro s a t ⟨⟨done, hrun⟩, hnear⟩ hok hs
    exact ⟨⟨_, montRunning_step hrun hok hs⟩, stepsToBody_lt_step rfl hrun.noSignal hnear hs⟩
  obtain ⟨⟨done, hrun⟩, hnear⟩ := hinv
  rw [hflat]
  refine ⟨montEmitted_begins_answers hrun, ⟨_, montUnmixed hrun⟩, fun hall as has hcount => ?_⟩
  have hleft : MontLeft txs (16 * txs.length) s := ⟨hall, done, hrun, by omega⟩
  exact (works_montMul txs).progress hleft hnear.le has hcount

/-- One transaction. -/
def oneMont : MontOperands := ⟨U.ofNat 16 3, U.ofNat 16 5, U.ofNat 16 7⟩

/-- `3 · 5 · R⁻¹ mod 7`, after the first flit of the first operand has come in. -/
theorem montMul_serves_first_flit :
    ∃ frames : List (List Flit),
      List.Forall₂ (fun t fs => IsFrame (F := 4) (montMul t.a t.b t.n (computeNInv t.n)) fs)
        [oneMont] frames ∧
      ∃ k, MontUnmixed [oneMont] k
        (produceStep (kinit (montInit ⟨5, 1, 2, 3, 4, U.zero _, U.zero _, U.zero _, U.zero _⟩)
          (fun _ => 64) fun _ => 64) 1 (outFlit (F := 4) oneMont.a 0)) := by
  obtain ⟨frames, hframes, hserve⟩ := montMul_serves [oneMont]
  refine ⟨frames, hframes, (hserve _ _ _ _ (.one (.produce 1 _) ?_ rfl)).2.1⟩
  intro hport
  have hlanes : Flit.payload [outFlit (F := 4) oneMont.a 0] = oneMont.a.limbs.take 4 :=
    payload_outFlits (F := 4) oneMont.a (by decide : 1 ≤ 4)
  show Flit.payload [outFlit (F := 4) oneMont.a 0] <+: oneMont.a.limbs ++ []
  rw [hlanes]
  exact (List.take_prefix _ _).trans (List.prefix_append _ _)

end OpenClickNP
