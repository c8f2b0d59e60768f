import Mathlib.Algebra.Order.BigOperators.Group.List
import OpenClickNP.Backend.EmulatedRuns
import OpenClickNP.Backend.PortDiscipline
import OpenClickNP.Backend.Progress
import OpenClickNP.Compiler.Cycles
import OpenClickNP.Lib.Acyclic

/-!
# Networks that come to rest

`write_nb` drops a flit that finds its stream full, so a thread that is to lose nothing has to wait
until its reader has made room. Where no kernel leads back to itself, and each clears all that it
reads and goes on asking for its inputs (`Eager`), this waiting never ends in a deadlock: from every
state of every run the threads, and the readers outside, can go on until nothing is under way
(`settles`). Nothing more has to come in for that, and nothing is lost.

The threads are put in an order in which each writes only to those after it. A thread goes on by one
operation when all of those are at rest, and then they are brought to rest again.
-/

namespace OpenClickNP

open Run Acyclic Histories

/-! ## Kernels that take what they are given -/

/-- A handler that clears the inputs it is shown, and never stops asking for them. -/
structure Eager {σ α : Type} (K : KernelFn σ α) : Prop where
  first : ∀ p ∈ K.inPorts, testPort PORT_ALL p = true
  asks : ∀ v m, (K.handler v).ret = some m → ∀ p ∈ K.inPorts, testPort m p = true
  clears : ∀ v, ∀ p ∈ K.inPorts, testPort v.inputPort p = true →
    (K.handler v).ops.any (PortOp.clears p) = true

/-- The kernel asks for all of its inputs, and after a body none is latched. -/
def Attentive {σ α : Type} (K : KernelFn σ α) (l : Locals σ α) (pc : LoopPc) : Prop :=
  (∀ p ∈ K.inPorts, testPort l.ret p = true) ∧
    match pc with
    | .head | .writeOut _ => ∀ p ∈ K.inPorts, testPort l.inputPort p = false
    | .readIn _ | .body => True

/-- The operations before the loop is at its head again. -/
def stepsToHead {σ α : Type} (K : KernelFn σ α) : LoopPc → Nat
  | .head => 0
  | .writeOut rest => rest.length + 1
  | .body => K.outPorts.length + 2
  | .readIn rest => rest.length + K.outPorts.length + 3

/-- The flits in the input streams. -/
def waiting {σ α : Type} (K : KernelFn σ α) (s : KernelState σ α) : Nat :=
  (K.inPorts.map fun p => (s.ins p).q.length).sum

/-- A flit will be read before the next body. -/
def DueRead {σ α : Type} (K : KernelFn σ α) (s : KernelState σ α) : Prop :=
  match s.pc with
  | .readIn rest => ∃ p ∈ rest, p ∈ K.inPorts ∧ testPort s.locals.inputPort p = false ∧
      (s.ins p).q ≠ []
  | _ => False

/-- `t` agrees with `s` on what `waiting` and `DueRead` look at. -/
structure SameInputs {σ α : Type} (K : KernelFn σ α) (s t : KernelState σ α) : Prop where
  locals : t.locals = s.locals
  pc : t.pc = s.pc
  queues : ∀ p ∈ K.inPorts, (t.ins p).q = (s.ins p).q

section
variable {σ α : Type} {K : KernelFn σ α} {s t : KernelState σ α}

theorem SameInputs.waiting_eq (h : SameInputs K s t) : waiting K t = waiting K s := by
  unfold waiting
  refine congrArg List.sum (List.map_congr_left fun p hp => ?_)
  rw [h.queues p hp]

theorem SameInputs.dueRead (h : SameInputs K s t) (hs : DueRead K s) : DueRead K t := by
  unfold DueRead at hs ⊢
  rw [h.pc, h.locals]
  cases hpc : s.pc with
  | readIn rest =>
    rw [hpc] at hs
    obtain ⟨p, hrest, hp, hfree, hq⟩ := hs
    exact ⟨p, hrest, hp, hfree, by rwa [h.queues p hp]⟩
  | _ =>
    rw [hpc] at hs
    exact hs.elim

theorem attentive_kernelStep (hK : Eager K) (hsig : s.locals.hasSignal = false)
    (hreq : s.requests = []) (h : Attentive K s.locals s.pc) :
    Attentive K (kernelStep K s).locals (kernelStep K s).pc := by
  obtain ⟨hask, hfree⟩ := h
  unfold kernelStep
  split
  · rw [recvStep_of_noRequest hreq]
    exact ⟨hask, trivial⟩
  · exact ⟨hask, trivial⟩
  · rename_i q rest hpc
    refine ⟨fun p hp => ?_, trivial⟩
    show testPort (readPort s q).locals.ret p = true
    rcases readPort_cases s q with hsame | ⟨-, -, f, stream, -, -, hread⟩
    · rw [hsame]
      exact hask p hp
    · rw [hread]
      exact hask p hp
  · obtain ⟨hinput, -, hret⟩ := locals_bodyStep (K := K) (s := s)
    rw [bodyResult_of_noSignal hsig] at hinput hret
    refine ⟨fun p hp => ?_, ?_⟩
    · rw [hret]
      cases hm : (K.handler (viewOf s.locals)).ret with
      | none => exact hask p hp
      | some m => exact hK.asks _ m hm p hp
    · rw [(bodyStep_of_handler hsig).1]
      intro p hp
      rw [hinput, runBody, testPort_applyOps]
      -- what the handler has been shown, it has cleared
      cases hbit : testPort s.locals.inputPort p with
      | false => rfl
      | true =>
        rw [hK.clears (viewOf s.locals) p hp hbit]
        rfl
  · rename_i hpc
    rw [hpc] at hfree
    exact ⟨hask, hfree⟩
  · rename_i q rest hpc
    rw [hpc] at hfree
    have hsame : (writePort s q).locals.ret = s.locals.ret ∧
        (writePort s q).locals.inputPort = s.locals.inputPort := by
      unfold writePort
      split
      · split <;> exact ⟨rfl, rfl⟩
      · exact ⟨rfl, rfl⟩
    refine ⟨fun p hp => ?_, fun p hp => ?_⟩
    · exact (congrArg (testPort · p) hsame.1).trans (hask p hp)
    · exact (congrArg (testPort · p) hsame.2).trans (hfree p hp)

/-- Every operation brings the head of the loop nearer. -/
theorem stepsToHead_kernelStep (hsig : s.locals.hasSignal = false) (hpc : s.pc ≠ .head) :
    stepsToHead K (kernelStep K s).pc + 1 = stepsToHead K s.pc := by
  unfold kernelStep
  split
  · rename_i hhead
    exact absurd hhead hpc
  · rename_i hread
    rw [hread]
    simp only [stepsToHead, List.length_nil]
    omega
  · rename_i q rest hread
    rw [hread]
    simp only [stepsToHead, List.length_cons]
    omega
  · rename_i hbody
    rw [hbody, (bodyStep_of_handler hsig).1]
    rfl
  · rename_i hwrite
    rw [hwrite]
    rfl
  · rename_i q rest hwrite
    rw [hwrite]
    rfl

/-- A step takes nothing from an input stream but the flit that it reads. -/
theorem length_ins_kernelStep (p : Nat) :
    ((kernelStep K s).ins p).q.length ≤ (s.ins p).q.length := by
  rw [(streams_kernelStep K s).1]
  split
  · rename_i q hop
    by_cases hpq : p = q
    · subst hpq
      rw [Function.update_self]
      conv_rhs => rw [(s.ins p).q_eq_readNb, List.length_append]
      exact Nat.le_add_left _ _
    · rw [Function.update_of_ne hpq]
  · exact Nat.le_refl _

theorem waiting_kernelStep : waiting K (kernelStep K s) ≤ waiting K s :=
  List.sum_le_sum fun p _ => length_ins_kernelStep p

/-- A flit that waits when the loop is at its head is due. -/
theorem dueRead_of_head (hreq : s.requests = []) (hpc : s.pc = .head)
    (h : Attentive K s.locals s.pc) {p : Nat} (hp : p ∈ K.inPorts) (hq : (s.ins p).q ≠ []) :
    DueRead K (kernelStep K s) := by
  have hfree := h.2
  rw [hpc] at hfree
  have hstep : kernelStep K s = { s with pc := .readIn K.inPorts } := by
    rw [kernelStep, hpc]
    exact recvStep_of_noRequest hreq
  rw [hstep]
  exact ⟨p, hp, hp, hfree p hp, hq⟩

/-- What is due is read now, or still due after the step. -/
theorem dueRead_kernelStep (h : Attentive K s.locals s.pc) (hdue : DueRead K s) :
    waiting K (kernelStep K s) < waiting K s ∨ DueRead K (kernelStep K s) := by
  unfold DueRead at hdue
  split at hdue
  · rename_i rest hpc
    obtain ⟨p, hrest, hp, hfree, hq⟩ := hdue
    cases rest with
    | nil => cases hrest
    | cons q rest =>
      have hstep : kernelStep K s = { readPort s q with pc := .readIn rest } := by
        rw [kernelStep, hpc]
      by_cases hpq : p = q
      · subst hpq
        left
        refine List.sum_lt_sum _ _ (fun r _ => length_ins_kernelStep r) ⟨p, hp, ?_⟩
        rw [hstep]
        show ((readPort s p).ins p).q.length < _
        rcases readPort_cases s p with hsame | ⟨-, -, f, stream, -, hread, hins⟩
        · -- the port is asked for and free, so it is read
          have hlooked := lookedAt_readPort (lt_of_testPort (h.1 p hp)) (h.1 p hp)
          rw [hsame] at hlooked
          rcases hlooked with hbit | hnil
          · rw [hfree] at hbit
            cases hbit
          · exact absurd hnil hq
        · rw [hins, hread]
          show (Function.update s.ins p stream p).q.length < _
          rw [Function.update_self, List.length_cons]
          exact Nat.lt_succ_self _
      · right
        obtain ⟨hbit, hins⟩ := readPort_of_ne (s := s) hpq
        rw [hstep]
        refine ⟨p, (List.mem_cons.mp hrest).resolve_left hpq, hp, ?_, ?_⟩
        · exact hbit.trans hfree
        · show ((readPort s q).ins p).q ≠ []
          rwa [hins]
  · exact hdue.elim

end

/-- There is room in a stream that has just been read. -/
theorem SwStream.room_readNb {α : Type} (s : SwStream α) :
    s.readNb.2.q.length < s.readNb.2.capacity := by
  unfold readNb
  split
  · rename_i hq
    rw [hq]
    exact s.capacity_pos
  · rename_i f rest hq
    have hle := s.length_le
    rw [hq, List.length_cons] at hle
    exact hle

/-! ## Networks -/

section
variable {ι κ γ α : Type} {σ : ι → Type}

/-- Thread `i` writes to a stream that thread `j` reads. -/
def Feeds (W : Wiring ι κ γ) (K : ∀ i, KernelFn (σ i) α) (i j : ι) : Prop :=
  ∃ q ∈ (K i).outPorts, ∃ p ∈ (K j).inPorts, W.outOf i q = W.inOf j p

/-- The thread is at the head of its loop, and has nothing to read. -/
structure Resting (W : Wiring ι κ γ) (K : ∀ i, KernelFn (σ i) α) (s : NetState ι κ γ σ α) (i : ι) :
    Prop where
  pc : (s.threads i).pc = .head
  empty : ∀ p ∈ (K i).inPorts, (s.streams (W.inOf i p)).q = []

/-- Nothing comes in from the world outside. -/
def Draining (W : Wiring ι κ γ) (K : ∀ i, KernelFn (σ i) α) (live : κ → Bool)
    (s : NetState ι κ γ σ α) (a : NetAction ι κ γ α) : Prop :=
  WithinRoom W K live s a ∧ ∀ k f, a ≠ .inject k f

/-- What is known of every thread in every run. -/
def Alert (W : Wiring ι κ γ) (K : ∀ i, KernelFn (σ i) α) (live : κ → Bool)
    (P : ∀ i, σ i → (Nat → List α) → (Nat → List α) → Prop) (s : NetState ι κ γ σ α) : Prop :=
  ∀ i, ThreadSound W K live P s i ∧ Attentive (K i) (s.threads i).locals (s.threads i).pc

/-- Only the threads of `l` have gone on, and written to their own streams. -/
structure LeavesAlone (W : Wiring ι κ γ) (K : ∀ i, KernelFn (σ i) α) (l : List ι)
    (s t : NetState ι κ γ σ α) : Prop where
  threads : ∀ i, i ∉ l → t.threads i = s.threads i
  queues : ∀ i, i ∉ l → ∀ p ∈ (K i).inPorts,
    (t.streams (W.inOf i p)).q = (s.streams (W.inOf i p)).q

variable {W : Wiring ι κ γ} {K : ∀ i, KernelFn (σ i) α} {live : κ → Bool}
  {P : ∀ i, σ i → (Nat → List α) → (Nat → List α) → Prop} {F : ι → StreamFn α}
  {s t u : NetState ι κ γ σ α} {i : ι} {l l' touched : List ι}

theorem alert_ninit [Inhabited α] {st : ∀ i, σ i} (cap : κ → Int)
    (hinit : ∀ i, P i (st i) (fun _ => []) fun _ => []) (hK : ∀ i, Eager (K i)) :
    Alert W K live P (ninit st cap) :=
  fun i => ⟨sound_ninit st cap hinit i, (hK i).first, fun p _ => by
    show testPort 0 p = false
    simp [testPort]⟩

/-- Nothing is under way when all threads are at rest. -/
theorem drained_of_resting (h : Alert W K live P s) (hs : ∀ i, Resting W K s i) :
    Drained W K live s where
  inputs i p hp := by
    have hfree := (h i).2.2
    rw [(hs i).pc] at hfree
    refine ⟨?_, (hs i).empty p hp⟩
    unfold latched
    rw [hfree p hp]
    rfl
  outputs i q _ _ := by
    unfold pendingOut
    rw [show (kernelOf W s i).pc = .head from (hs i).pc]

variable [DecidableEq ι] [DecidableEq κ] [DecidableEq γ]

/-- A run in which only the threads of `touched` go on, to a state where those of `l` are at
rest. -/
structure Calms (W : Wiring ι κ γ) (K : ∀ i, KernelFn (σ i) α) (live : κ → Bool)
    (touched l : List ι) (s t : NetState ι κ γ σ α) : Prop where
  reaches : Reaches (nstep W K) (Draining W K live) s t
  alone : LeavesAlone W K touched s t
  resting : ∀ j ∈ l, Resting W K t j

theorem Calms.trans (h : Calms W K live touched l s t) (h' : Calms W K live touched l' t u) :
    Calms W K live touched l' s u where
  reaches := h.reaches.trans h'.reaches
  alone := {
    threads := fun i hi => (h'.alone.threads i hi).trans (h.alone.threads i hi)
    queues := fun i hi p hp => (h'.alone.queues i hi p hp).trans (h.alone.queues i hi p hp) }
  resting := h'.resting

theorem Calms.mono (h : Calms W K live l l' s t) (hsub : ∀ i ∈ l, i ∈ touched) :
    Calms W K live touched l' s t where
  reaches := h.reaches
  alone := {
    threads := fun i hi => h.alone.threads i fun hil => hi (hsub i hil)
    queues := fun i hi => h.alone.queues i fun hil => hi (hsub i hil) }
  resting := h.resting

/-- The threads of `l` can be brought to rest, without the others. -/
def Drains (W : Wiring ι κ γ) (K : ∀ i, KernelFn (σ i) α) (live : κ → Bool)
    (P : ∀ i, σ i → (Nat → List α) → (Nat → List α) → Prop) (l : List ι) : Prop :=
  ∀ s, Alert W K live P s → ∃ t, Calms W K live l l s t

/-- A step keeps what is known. -/
theorem alert_step (hW : Joins W K live) (hP : ∀ i, SaysSent (K i) (F i) (OutLive W live i) (P i))
    (hK : ∀ i, Eager (K i)) {a : NetAction ι κ γ α} (h : Alert W K live P s)
    (ha : WithinRoom W K live s a) (hs : nstep W K s a = some t) : Alert W K live P t := by
  have hsound := sound_step hW hP (fun i => (h i).1) ha hs
  refine fun i => ⟨hsound i, ?_⟩
  cases a with
  | thread j =>
    cases hs
    by_cases hij : i = j
    · subst hij
      obtain ⟨hlocals, hpc, -, -⟩ := kernelOf_ownStep (W := W) (K := K) s i
      have hnext := attentive_kernelStep (s := kernelOf W s i) (hK i) (h i).1.noSignal
        (h i).1.noRequest (h i).2
      rw [← hlocals, ← hpc] at hnext
      exact hnext
    · have hsame : (threadStep W K s j).threads i = s.threads i := Function.update_of_ne hij _ _
      rw [hsame]
      exact (h i).2
  | inject k f =>
    cases hs
    exact (h i).2
  | observe k =>
    cases hs
    exact (h i).2
  | post c req => exact ha.elim

theorem alert_reaches (hW : Joins W K live)
    (hP : ∀ i, SaysSent (K i) (F i) (OutLive W live i) (P i)) (hK : ∀ i, Eager (K i))
    (h : Alert W K live P s) (hr : Reaches (nstep W K) (WithinRoom W K live) s t) :
    Alert W K live P t :=
  hr.inv h fun _ _ _ h ha hs => alert_step hW hP hK h ha hs

theorem Calms.alert (hW : Joins W K live)
    (hP : ∀ i, SaysSent (K i) (F i) (OutLive W live i) (P i)) (hK : ∀ i, Eager (K i))
    (h : Alert W K live P s) (hr : Calms W K live touched l s t) : Alert W K live P t :=
  alert_reaches hW hP hK h (hr.reaches.mono fun _ _ ha => ha.1)

/-! ### One operation -/

/-- Where the readers of a thread are at rest, a read by the world outside is all that a write of
the thread may have to wait for. -/
theorem exists_room (h : Alert W K live P s) (hfed : ∀ j, Feeds W K i j → Resting W K s j) :
    ∃ t, Reaches (nstep W K) (Draining W K live) s t ∧ HasRoom W live t i ∧
      t.threads = s.threads ∧
      ∀ j, ∀ p ∈ (K j).inPorts, t.streams (W.inOf j p) = s.streams (W.inOf j p) := by
  by_cases hroom : HasRoom W live s i
  · exact ⟨s, .refl, hroom, rfl, fun _ _ _ => rfl⟩
  · unfold HasRoom at hroom
    cases hop : streamOp (s.threads i).locals (s.threads i).pc with
    | none =>
      rw [hop] at hroom
      exact absurd trivial hroom
    | some op =>
      cases op with
      | read p =>
        rw [hop] at hroom
        exact absurd trivial hroom
      | write q f =>
        rw [hop] at hroom
        have hq := (streamOp_port (h i).1.visits).2 q f hop
        -- the stream is full, so no thread reads it
        have hnone : ∀ j, ∀ p ∈ (K j).inPorts, W.inOf j p ≠ W.outOf i q := by
          intro j p hp heq
          refine hroom fun _ => ?_
          rw [← heq, (hfed j ⟨q, hq, p, hp, heq.symm⟩).empty p hp]
          exact (s.streams (W.inOf j p)).capacity_pos
        refine ⟨readStream s (W.outOf i q), .one (.observe (W.outOf i q)) ⟨hnone, by simp⟩ rfl, ?_,
          rfl, fun j p hp => Function.update_of_ne (hnone j p hp) _ _⟩
        have hop' : streamOp ((readStream s (W.outOf i q)).threads i).locals
            ((readStream s (W.outOf i q)).threads i).pc = some (.write q f) := hop
        unfold HasRoom
        rw [hop']
        intro _
        show (Function.update s.streams _ _ _).q.length
          < (Function.update s.streams _ _ _).capacity
        rw [Function.update_self]
        exact SwStream.room_readNb _

omit [DecidableEq ι] [DecidableEq γ] in
/-- A thread writes nothing to a stream that none of its ports is given. -/
theorem growth_of_unwritten {k : κ} (hvisits : VisitsPorts (K i) (u.threads i).pc)
    (hk : ∀ q ∈ (K i).outPorts, W.outOf i q ≠ k) :
    growth W i u k (streamOp (u.threads i).locals (u.threads i).pc) = [] := by
  cases hop : streamOp (u.threads i).locals (u.threads i).pc with
  | none => rfl
  | some op =>
    cases op with
    | read r => rfl
    | write q f =>
      have hne := hk q ((streamOp_port hvisits).2 q f hop)
      simp [growth, hne]

omit [DecidableEq ι] [DecidableEq γ] in
/-- A thread writes nothing to the inputs of threads that it does not feed. -/
theorem growth_of_not_feeds {j : ι} {p : Nat} (hvisits : VisitsPorts (K i) (u.threads i).pc)
    (hj : ¬ Feeds W K i j) (hp : p ∈ (K j).inPorts) :
    growth W i u (W.inOf j p) (streamOp (u.threads i).locals (u.threads i).pc) = [] :=
  growth_of_unwritten hvisits fun q hq heq => hj ⟨q, hq, p, hp, heq⟩

/-- One operation leaves the threads alone that the thread does not feed. -/
theorem leavesAlone_threadStep (hW : Joins W K live)
    (hvisits : VisitsPorts (K i) (u.threads i).pc) (hfed : ∀ j, Feeds W K i j → j ∈ l) :
    LeavesAlone W K (i :: l) u (threadStep W K u i) := by
  constructor
  · intro j hj
    have hji : j ≠ i := fun heq => hj (heq ▸ List.mem_cons_self)
    exact Function.update_of_ne hji _ _
  · intro j hj p hp
    have hji : j ≠ i := fun heq => hj (heq ▸ List.mem_cons_self)
    -- an input has one reader, so the thread does not read it either
    have hread : ∀ r, streamOp (u.threads i).locals (u.threads i).pc = some (.read r) →
        W.inOf i r ≠ W.inOf j p :=
      fun r hop heq => hji (hW.reader hp ((streamOp_port hvisits).1 r hop) heq.symm).1
    have hfeeds : ¬ Feeds W K i j := fun hf => hj (List.mem_cons_of_mem _ (hfed j hf))
    rw [queue_threadStep hread, growth_of_not_feeds hvisits hfeeds hp, List.append_nil]

/-- **A thread goes on by one operation**, and its readers come to rest again. -/
theorem exists_advance (hW : Joins W K live)
    (hP : ∀ i, SaysSent (K i) (F i) (OutLive W live i) (P i)) (hK : ∀ i, Eager (K i))
    (hdrains : Drains W K live P l) (hil : i ∉ l) (hfed : ∀ j, Feeds W K i j → j ∈ l)
    (h : Alert W K live P s) (hl : ∀ j ∈ l, Resting W K s j) :
    ∃ t, Calms W K live (i :: l) l s t ∧ ∃ v, v.requests = [] ∧
      SameInputs (K i) (kernelOf W s i) v ∧
      SameInputs (K i) (kernelStep (K i) v) (kernelOf W t i) := by
  obtain ⟨u, hr, hroom, hthreads, hqueues⟩ := exists_room h fun j hj => hl j (hfed j hj)
  have hu := alert_reaches hW hP hK h (hr.mono fun _ _ ha => ha.1)
  have hstep : nstep W K u (.thread i) = some (threadStep W K u i) := rfl
  obtain ⟨t, ht⟩ := hdrains _ (alert_step (a := .thread i) hW hP hK hu hroom hstep)
  have halone := leavesAlone_threadStep (l := l) hW (hu i).1.visits hfed
  refine ⟨t, ?_, kernelOf W u i, (hu i).1.noRequest, ⟨?_, ?_, fun p hp => ?_⟩, ?_, ?_,
    fun p hp => ?_⟩
  · exact {
      reaches := (hr.tail (.thread i) ⟨hroom, by simp⟩ hstep).trans ht.reaches
      alone := {
        threads := fun j hj => by
          rw [ht.alone.threads j fun hjl => hj (List.mem_cons_of_mem _ hjl),
            halone.threads j hj, hthreads]
        queues := fun j hj p hp => by
          rw [ht.alone.queues j (fun hjl => hj (List.mem_cons_of_mem _ hjl)) p hp,
            halone.queues j hj p hp, hqueues j p hp] }
      resting := ht.resting }
  · exact congrArg Thread.locals (congrFun hthreads i)
  · exact congrArg Thread.pc (congrFun hthreads i)
  · exact congrArg SwStream.q (hqueues i p hp)
  · exact (congrArg Thread.locals (ht.alone.threads i hil)).trans (kernelOf_ownStep u i).1
  · exact (congrArg Thread.pc (ht.alone.threads i hil)).trans (kernelOf_ownStep u i).2.1
  · -- the thread writes none of its own inputs
    refine (ht.alone.queues i hil p hp).trans ?_
    rw [queue_ownStep hW (hu i).1.visits hp,
      growth_of_not_feeds (hu i).1.visits (fun hf => hil (hfed i hf)) hp, List.append_nil]

/-! ### One turn, all turns, all threads -/

section
variable (hW : Joins W K live) (hP : ∀ i, SaysSent (K i) (F i) (OutLive W live i) (P i))
  (hK : ∀ i, Eager (K i))

include hW hP hK

/-- A turn of the loop that has begun comes to its end, and reads what is due in it. Induction on
the operations left. -/
theorem exists_head (hdrains : Drains W K live P l) (hil : i ∉ l)
    (hfed : ∀ j, Feeds W K i j → j ∈ l) {n : Nat} (hn : stepsToHead (K i) (s.threads i).pc = n)
    (h : Alert W K live P s) (hl : ∀ j ∈ l, Resting W K s j) :
    ∃ t, Calms W K live (i :: l) l s t ∧ (t.threads i).pc = .head ∧
      waiting (K i) (kernelOf W t i) ≤ waiting (K i) (kernelOf W s i) ∧
      (DueRead (K i) (kernelOf W s i) →
        waiting (K i) (kernelOf W t i) < waiting (K i) (kernelOf W s i)) := by
  induction n generalizing s with
  | zero =>
    have hpc : (s.threads i).pc = .head := by
      cases hpc : (s.threads i).pc with
      | head => rfl
      | _ =>
        rw [hpc] at hn
        simp [stepsToHead] at hn
    refine ⟨s, ⟨.refl, ⟨fun _ _ => rfl, fun _ _ _ _ => rfl⟩, hl⟩, hpc, Nat.le_refl _, ?_⟩
    intro hdue
    unfold DueRead at hdue
    rw [show (kernelOf W s i).pc = .head from hpc] at hdue
    exact hdue.elim
  | succ n ih =>
    obtain ⟨u, hu, v, -, hsame, hnext⟩ := exists_advance hW hP hK hdrains hil hfed h hl
    have hsteps : stepsToHead (K i) v.pc = n + 1 := (congrArg (stepsToHead (K i)) hsame.pc).trans hn
    have hpc : v.pc ≠ .head := by
      intro hhead
      rw [hhead] at hsteps
      cases hsteps
    have hsig : v.locals.hasSignal = false := by
      rw [hsame.locals]
      exact (h i).1.noSignal
    have hnu : stepsToHead (K i) (u.threads i).pc = n := by
      rw [← stepsToHead_kernelStep hsig hpc] at hsteps
      exact (congrArg (stepsToHead (K i)) hnext.pc).trans (Nat.succ.inj hsteps)
    -- what is due is read by this operation, or is still due after it
    obtain ⟨t, ht, hhead, hle, hlt⟩ := ih hnu (hu.alert hW hP hK h) hu.resting
    refine ⟨t, hu.trans ht, hhead, ?_, fun hdue => ?_⟩
    · calc waiting (K i) (kernelOf W t i) ≤ waiting (K i) (kernelOf W u i) := hle
        _ = waiting (K i) (kernelStep (K i) v) := hnext.waiting_eq
        _ ≤ waiting (K i) v := waiting_kernelStep
        _ = waiting (K i) (kernelOf W s i) := hsame.waiting_eq
    · have hattentive : Attentive (K i) v.locals v.pc := by
        rw [hsame.locals, hsame.pc]
        exact (h i).2
      rcases dueRead_kernelStep hattentive (hsame.dueRead hdue) with hread | hstill
      · rw [hnext.waiting_eq] at hle
        rw [hsame.waiting_eq] at hread
        omega
      · have hlater := hlt (hnext.dueRead hstill)
        have hstep : waiting (K i) (kernelStep (K i) v) ≤ waiting (K i) v := waiting_kernelStep
        rw [hnext.waiting_eq] at hlater
        rw [hsame.waiting_eq] at hstep
        omega

/-- A thread at the head of its loop comes to rest. Strong induction on the flits that wait for it:
each turn reads some of them. -/
theorem exists_rest (hdrains : Drains W K live P l) (hil : i ∉ l)
    (hfed : ∀ j, Feeds W K i j → j ∈ l) {n : Nat} (hn : waiting (K i) (kernelOf W s i) = n)
    (hhead : (s.threads i).pc = .head) (h : Alert W K live P s)
    (hl : ∀ j ∈ l, Resting W K s j) : ∃ t, Calms W K live (i :: l) (i :: l) s t := by
  induction n using Nat.strongRecOn generalizing s with
  | ind n ih =>
    by_cases hempty : ∀ p ∈ (K i).inPorts, (s.streams (W.inOf i p)).q = []
    · refine ⟨s, .refl, ⟨fun _ _ => rfl, fun _ _ _ _ => rfl⟩, fun j hj => ?_⟩
      rcases List.mem_cons.mp hj with rfl | hj
      · exact ⟨hhead, hempty⟩
      · exact hl j hj
    · obtain ⟨p, hp, hq⟩ : ∃ p ∈ (K i).inPorts, (s.streams (W.inOf i p)).q ≠ [] := by
        simpa using hempty
      obtain ⟨u, hu, v, hreq, hsame, hnext⟩ := exists_advance hW hP hK hdrains hil hfed h hl
      have hattentive : Attentive (K i) v.locals v.pc := by
        rw [hsame.locals, hsame.pc]
        exact (h i).2
      -- the turn begins, and the flit is due in it
      have hdue : DueRead (K i) (kernelOf W u i) :=
        hnext.dueRead (dueRead_of_head hreq (hsame.pc.trans hhead) hattentive hp
          (by rwa [hsame.queues p hp]))
      have hle : waiting (K i) (kernelOf W u i) ≤ n := by
        rw [← hn, hnext.waiting_eq, ← hsame.waiting_eq]
        exact waiting_kernelStep
      -- the turn reads it, so less is waiting when the thread is back at the head
      obtain ⟨t, ht, hback, -, hlt⟩ := exists_head hW hP hK hdrains hil hfed rfl
        (hu.alert hW hP hK h) hu.resting
      have hut := hu.trans ht
      obtain ⟨t', ht'⟩ := ih _ (Nat.lt_of_lt_of_le (hlt hdue) hle) rfl hback
        (hut.alert hW hP hK h) hut.resting
      exact ⟨t', hut.trans ht'⟩

/-- **Threads in an order in which each writes only to those after it can be brought to rest.**
Induction on the list. -/
theorem drains_of_forward (hl : Forward (Feeds W K) l) : Drains W K live P l := by
  induction l with
  | nil => exact fun s _ => ⟨s, .refl, ⟨fun _ _ => rfl, fun _ _ _ _ => rfl⟩, nofun⟩
  | cons i l ih =>
    obtain ⟨hil, hfed, hforward⟩ := hl
    have hdrains := ih hforward
    intro s h
    -- the readers first, then the turn under way, then what waits
    obtain ⟨u, hu⟩ := hdrains s h
    have hu := hu.mono fun j hj => List.mem_cons_of_mem i hj
    obtain ⟨v, hv, hhead, -, -⟩ := exists_head hW hP hK hdrains hil hfed rfl (hu.alert hW hP hK h)
      hu.resting
    have huv := hu.trans hv
    obtain ⟨t, ht⟩ := exists_rest hW hP hK hdrains hil hfed rfl hhead (huv.alert hW hP hK h)
      huv.resting
    exact ⟨t, huv.trans ht⟩

end

/-! ## Runs -/

/-- A stream that no thread writes to is left as it is by a run in which nothing comes in. -/
theorem written_of_draining (hW : Joins W K live)
    (hP : ∀ i, SaysSent (K i) (F i) (OutLive W live i) (P i)) (hK : ∀ i, Eager (K i)) {k : κ}
    (hk : ∀ i, ∀ q ∈ (K i).outPorts, W.outOf i q ≠ k) (h : Alert W K live P s)
    (hr : Reaches (nstep W K) (Draining W K live) s t) : t.written k = s.written k := by
  have hinv : Alert W K live P t ∧ t.written k = s.written k := by
    apply hr.inv ⟨h, rfl⟩
    intro x a y hx ha hs
    refine ⟨alert_step hW hP hK hx.1 ha.1 hs, Eq.trans ?_ hx.2⟩
    cases a with
    | thread i =>
      cases hs
      rw [written_threadStep, growth_of_unwritten (hx.1 i).1.visits (hk i), List.append_nil]
    | inject k' f => exact absurd rfl (ha.2 k' f)
    | observe k' =>
      cases hs
      exact written_readStream k' k
    | post c req => exact ha.1.elim
  exact hinv.2

/-- **A network without circles can come to rest**, from every state of every run, without anything
more coming in. -/
theorem settles [Finite ι] [Inhabited α] (hW : Joins W K live) {st : ∀ i, σ i}
    (hC : ∀ i, Computes (K i) (st i) (F i) (OutLive W live i)) (hK : ∀ i, Eager (K i))
    (hacyclic : ∀ i, ¬ Relation.TransGen (Feeds W K) i i) (cap : κ → Int)
    (hr : Reaches (nstep W K) (WithinRoom W K live) (ninit st cap) s) :
    ∃ t, Reaches (nstep W K) (Draining W K live) s t ∧ Drained W K live t ∧
      ∀ k, (∀ i, ∀ q ∈ (K i).outPorts, W.outOf i q ≠ k) → t.written k = s.written k := by
  obtain ⟨P, hinit, hP⟩ := Computes.all hC
  obtain ⟨l, hall, hl⟩ := exists_forward hacyclic
  have hs := alert_reaches hW hP hK (alert_ninit cap hinit hK) hr
  obtain ⟨t, ht⟩ := drains_of_forward hW hP hK hl s hs
  exact ⟨t, ht.reaches,
    drained_of_resting (ht.alert hW hP hK hs) fun i => ht.resting i (hall i),
    fun k hk => written_of_draining hW hP hK hk hs ht.reaches⟩

end

/-! ## Compiled graphs -/

/-- The elements that act on each flit of port 1 read it, and ask for the next. -/
theorem ActsOnFlits.eager {σ : Type} {K : KernelFn σ Flit} {next : σ → Flit → σ}
    {out : σ → Flit → List (Nat × Flit)} (hK : ActsOnFlits K next out) : Eager K where
  first p hp := by
    rw [hK.inPorts, List.mem_singleton] at hp
    rw [hp]
    decide
  asks v m hm p hp := by
    rw [hK.inPorts, List.mem_singleton] at hp
    rw [hK.handler] at hm
    cases hm
    rw [hp]
    decide
  clears v p hp hbit := by
    rw [hK.inPorts, List.mem_singleton] at hp
    subst hp
    rw [hK.handler]
    show (if testPort v.inputPort 1 then _ else _ : List (PortOp Flit)).any _ = true
    rw [if_pos hbit]
    rfl

open Ast Eg Be

section
variable {g : Graph} {platform : Platform} {userClockHz : Int} {sourcePath : String} {b : Build}

/-- A thread that feeds another does so along an edge. -/
theorem edge_of_feeds (hg : Emulable g)
    (hb : b = lowerToBackend g platform userClockHz sourcePath) {B : Bodies b}
    {i j : Fin b.kernels.length} (h : Feeds (emuWiring b) B.fn i j) :
    ∃ e ∈ g.edges, e.srcKernel = (b.kernels.get i).name ∧ e.dstKernel = (b.kernels.get j).name := by
  obtain ⟨q, -, p, hp, heq⟩ := h
  obtain ⟨e, he, v, hv, hkey, hin⟩ := input_edge hg hb B hp
  obtain ⟨e', he', hv', hkey'⟩ := output_edge hg hb (heq.trans hin)
  obtain rfl := edgeStream_inj he hv hv'
  exact ⟨e, he, (mem_edgeEnds_output.mp hkey').2.1, (mem_edgeEnds_input.mp hkey).2.1⟩

theorem feeds_acyclic (hg : Emulable g)
    (hb : b = lowerToBackend g platform userClockHz sourcePath) {B : Bodies b}
    (h : NoCircle g) (i : Fin b.kernels.length) :
    ¬ Relation.TransGen (Feeds (emuWiring b) B.fn) i i := by
  intro hloop
  obtain ⟨j, hij, hji⟩ := Relation.TransGen.head'_iff.mp hloop
  obtain ⟨e, he, hsrc, hdst⟩ := edge_of_feeds hg hb hij
  refine h e he ?_
  rw [hsrc, hdst]
  refine hji.lift (fun i => (b.kernels.get i).name) fun x y hxy => ?_
  obtain ⟨e', he', hsrc', hdst'⟩ := edge_of_feeds hg hb hxy
  exact mem_succKernels.mpr ⟨e', he', hsrc', hdst'⟩

/-- **A compiled graph without circles never deadlocks.** For every module that the compiler
resolves to such a graph, with existing ports, one pseudo-element at most at the ends of an edge,
and each port wired once, and for all eager bodies that compute the functions of the elements: from
every state of every run the threads and the readers outside can go on, with nothing more coming in
and nothing lost, to a state in which nothing is under way and every edge carries the meaning of the
graph. -/
theorem emulated_settles {m : Module} {fuel : Nat} {diags d : DiagnosticEngine}
    (h : resolveModuleToGraph fuel m diags = some (true, d, g))
    (harity : (analyzePortArity g d).1 = true) (hone : ∀ e ∈ g.edges, OneBoundary g e)
    (hw : WiredOnce g) (hcircle : NoCircle g)
    (B : Bodies (lowerToBackend g platform userClockHz sourcePath)) {F : String → StreamFn Flit}
    (hB : ComputeAll (lowerToBackend g platform userClockHz sourcePath) B F)
    (hK : ∀ i, Eager (B.fn i)) {s : NetState _ (Option StreamVar) Unit B.State Flit}
    (hr : Emulates (lowerToBackend g platform userClockHz sourcePath) B s) :
    ∃ t, Reaches (nstep (emuWiring _) B.fn) (Draining (emuWiring _) B.fn Option.isSome) s t ∧
      AtRest (lowerToBackend g platform userClockHz sourcePath) B t ∧ Means g F (carried g t) ∧
      ∀ e ∈ g.edges, fromElement g e = false → carried g t e = carried g s e := by
  have hg := emulable_of_resolves h harity hone hw
  obtain ⟨t, hrun, ht, hkept⟩ := settles (joins_emuWiring hg rfl B) hB hK
    (feeds_acyclic hg rfl hcircle) _ hr
  have hrt : Emulates (lowerToBackend g platform userClockHz sourcePath) B t :=
    hr.trans (hrun.mono fun _ _ ha => ha.1)
  refine ⟨t, hrun, ht, (means_iff hg).mpr (emulates_solves hg hB hrt ht), fun e he hout => ?_⟩
  cases hv : edgeStream g e with
  | none => simp [carried, alongEdges, he, hv]
  | some v =>
    unfold carried
    rw [alongEdges_of_stream he hv, alongEdges_of_stream he hv]
    refine hkept _ fun i q _ heq => ?_
    -- a stream that a kernel writes is that of an edge from an element
    obtain ⟨e', he', hv', hkey⟩ := output_edge hg rfl heq
    obtain rfl := edgeStream_inj he hv hv'
    rw [(mem_edgeEnds_output.mp hkey).1] at hout
    cases hout

/-- A flit has come in from `tor_in`. -/
def passTrafficFed : NetState (Fin passTrafficPlan.kernels.length) (Option StreamVar) Unit
    passTrafficBodies.State Flit :=
  exec (nstep (emuWiring passTrafficPlan) passTrafficBodies.fn)
    (emuStart passTrafficPlan passTrafficBodies) [.inject (some (.torStream 0)) {}]

theorem emulates_passTrafficFed :
    Emulates passTrafficPlan passTrafficBodies passTrafficFed :=
  Meets.reaches (by decide)

theorem noCircle_passTraffic : NoCircle passTrafficGraph :=
  noCircle_of_rank (fun n => if n = "tor_in" ∨ n = "nic_in" then 0
    else if n = "tor_out" ∨ n = "nic_out" then 2 else 1) (by decide)

theorem emulated_settles_passTraffic : ∃ t,
    Reaches (nstep (emuWiring passTrafficPlan) passTrafficBodies.fn)
      (Draining (emuWiring passTrafficPlan) passTrafficBodies.fn Option.isSome) passTrafficFed t ∧
      AtRest passTrafficPlan passTrafficBodies t ∧
      Means passTrafficGraph passTrafficFns (carried passTrafficGraph t) ∧
      ∀ e ∈ passTrafficGraph.edges, fromElement passTrafficGraph e = false →
        carried passTrafficGraph t e = carried passTrafficGraph passTrafficFed e :=
  emulated_settles resolves_passTraffic (by decide) (by decide) (by decide) noCircle_passTraffic
    passTrafficBodies computeAll_passTraffic (fun _ => acts_pass.eager) emulates_passTrafficFed

end

end OpenClickNP
