import OpenClickNP.Backend.KernelLoop

/-!
# What an emitted kernel loses

The epilogue of an emitted kernel tries each write once: a write that finds the stream full
only sets a bit of `_output_failed`, and the next iteration clears `_output_port`. So a port
loses nothing exactly in the runs on which its writes find room and its bodies present the
flits they pass to `set_output_port` (`lossless_iff`).
-/

namespace OpenClickNP

open Run

section
variable {σ α : Type} {K : KernelFn σ α} {s t : KernelState σ α} {p : Nat}

/-- The flit presented on port `p` whose write has not been tried yet. -/
def pendingOut (p : Nat) (s : KernelState σ α) : List α :=
  match s.pc with
  | .writeOut rest =>
    if p ∈ rest ∧ testPort s.locals.outputPort p = true then [s.locals.outputData p] else []
  | _ => []

/-- The flits passed to `set_output_port(p, .)` are those the consumer has read, those in the
stream and the one pending, in this order. -/
def Lossless (p : Nat) (s : KernelState σ α) : Prop :=
  s.sent p = s.consumed p ++ (s.outs p).q ++ pendingOut p s

/-- The number of flits the next body passes to `set_output_port(p, .)` is the number it
presents: none in a signal body, else one if it leaves the bit of `p` set. -/
def PresentsAll (K : KernelFn σ α) (p : Nat) (l : Locals σ α) : Prop :=
  (setsOf p (bodyResult K l).ops).length =
    if l.hasSignal = false ∧ p ∈ K.outPorts ∧
      testPort (runBody l (bodyResult K l)).outputPort p = true then 1 else 0

/-- The condition on a step: a body presents all it passes to `set_output_port(p, .)`, and a
write to `p` finds room. -/
def PortKept (K : KernelFn σ α) (p : Nat) (s : KernelState σ α) : KernelAction α → Prop
  | .kernel =>
    match s.pc with
    | .body => PresentsAll K p s.locals
    | .writeOut (q :: _) =>
      q = p → testPort s.locals.outputPort p = true → (s.outs p).q.length < (s.outs p).capacity
    | _ => True
  | _ => True

/-- No port is written twice in an iteration. -/
def WritesOnce (s : KernelState σ α) : Prop :=
  match s.pc with
  | .writeOut rest => rest.Nodup
  | _ => True

theorem writesOnce_step {a : KernelAction α} (h : WritesOnce s) (hs : kstep K s a = some t) :
    WritesOnce t := by
  cases a with
  | kernel =>
    cases hs
    unfold kernelStep
    split
    · unfold recvStep
      split
      · split <;> trivial
      · trivial
    · trivial
    · trivial
    · unfold bodyStep
      simp only []
      split
      · trivial
      · exact K.nodup_outPorts
    · trivial
    · rename_i q rest hpc
      simp only [WritesOnce, hpc] at h
      exact (List.nodup_cons.mp h).2
  | produce q f =>
    cases hs
    unfold produceStep
    split <;> exact h
  | consume q =>
    cases hs
    unfold consumeStep
    split <;> exact h
  | post req => cases hs; exact h

/-! ## One step -/

/-- A body: what it adds to `sent` is pending afterwards exactly when it presents it. -/
theorem lossless_body (hpc : s.pc = .body) (h : Lossless p s) :
    Lossless p (bodyStep K s) ↔ PresentsAll K p s.locals := by
  have hsent : s.sent p = s.consumed p ++ (s.outs p).q := by
    simpa [Lossless, pendingOut, hpc] using h
  have hdata := outputData_applyOps p (bodyResult K s.locals).ops { s.locals with outputPort := 0 }
  unfold PresentsAll
  cases hsig : s.locals.hasSignal with
  | true =>
    simp [Lossless, bodyStep, runRecorded, pendingOut, hsig, hsent]
  | false =>
    -- only the last flit set is left in `_output_data`, and only a port with its bit is written
    by_cases hbit : p ∈ K.outPorts ∧
        testPort (runBody s.locals (bodyResult K s.locals)).outputPort p = true
    · have hpend : pendingOut p (bodyStep K s)
          = [(runBody s.locals (bodyResult K s.locals)).outputData p] := by
        simp [pendingOut, bodyStep, runRecorded, hsig, hbit]
      have hval : (runBody s.locals (bodyResult K s.locals)).outputData p
          = ((setsOf p (bodyResult K s.locals).ops).getLast?).getD (s.locals.outputData p) := hdata
      have hlhs : Lossless p (bodyStep K s) ↔ setsOf p (bodyResult K s.locals).ops
          = [((setsOf p (bodyResult K s.locals).ops).getLast?).getD (s.locals.outputData p)] := by
        unfold Lossless
        rw [hpend, hval]
        simp [bodyStep, runRecorded, hsig, hsent]
      rw [hlhs, if_pos ⟨rfl, hbit⟩]
      constructor
      · intro heq
        rw [heq]
        rfl
      · intro hlen
        obtain ⟨v, hv⟩ := List.length_eq_one_iff.mp hlen
        rw [hv]
        rfl
    · have hpend : pendingOut p (bodyStep K s) = [] := by
        simp [pendingOut, bodyStep, runRecorded, hsig]
        simpa using hbit
      have hlhs : Lossless p (bodyStep K s) ↔ setsOf p (bodyResult K s.locals).ops = [] := by
        unfold Lossless
        rw [hpend]
        simp [bodyStep, runRecorded, hsig, hsent]
      rw [hlhs, if_neg (fun hc => hbit hc.2), List.length_eq_zero_iff]

/-- A write to `p`: the flit pending goes into the stream exactly when there is room. -/
theorem lossless_write {q : Nat} {rest : List Nat} (hpc : s.pc = .writeOut (q :: rest))
    (hnd : (q :: rest).Nodup) (h : Lossless p s) :
    Lossless p { writePort s q with pc := .writeOut rest } ↔
      (q = p → testPort s.locals.outputPort p = true →
        (s.outs p).q.length < (s.outs p).capacity) := by
  have hrest : q ∉ rest := (List.nodup_cons.mp hnd).1
  by_cases hqp : q = p
  · subst hqp
    simp only [forall_const]
    cases hbit : testPort s.locals.outputPort q with
    | false =>
      refine iff_of_true ?_ (fun hc => absurd hc Bool.false_ne_true)
      simpa [Lossless, pendingOut, writePort, hpc, hbit] using h
    | true =>
      have hsent : s.sent q = s.consumed q ++ (s.outs q).q ++ [s.locals.outputData q] := by
        simpa [Lossless, pendingOut, hpc, hbit] using h
      -- a full stream refuses the flit
      by_cases hroom : (s.outs q).q.length < (s.outs q).capacity
      · refine iff_of_true ?_ (fun _ => hroom)
        obtain ⟨hok, hq⟩ := SwStream.writeNb_of_room hroom (s.locals.outputData q)
        have hwrite : (s.outs q).writeNb (s.locals.outputData q)
            = (true, ((s.outs q).writeNb (s.locals.outputData q)).2) := Prod.ext hok rfl
        unfold Lossless pendingOut writePort
        rw [if_pos hbit, hwrite]
        simp [hrest, hsent, hq]
      · refine iff_of_false ?_ (fun hc => hroom (hc rfl))
        -- the flit is in no queue any more
        unfold Lossless pendingOut writePort
        rw [if_pos hbit, SwStream.writeNb_of_full (Nat.not_lt.mp hroom)]
        simp [hrest, hsent]
  · refine iff_of_true ?_ (fun hc => absurd hc hqp)
    have hmem : p ∈ q :: rest ↔ p ∈ rest := by simp [Ne.symm hqp]
    have hother : (writePort s q).outs p = s.outs p ∧
        (writePort s q).locals.outputPort = s.locals.outputPort ∧
        (writePort s q).locals.outputData = s.locals.outputData ∧
        (writePort s q).sent = s.sent ∧ (writePort s q).consumed = s.consumed := by
      unfold writePort
      split
      · split
        · exact ⟨Function.update_of_ne (Ne.symm hqp) _ _, rfl, rfl, rfl, rfl⟩
        · exact ⟨rfl, rfl, rfl, rfl, rfl⟩
      · exact ⟨rfl, rfl, rfl, rfl, rfl⟩
    obtain ⟨h1, h2, h3, h4, h5⟩ := hother
    unfold Lossless pendingOut at h ⊢
    simp only [hpc, hmem] at h
    simpa only [h1, h2, h3, h4, h5] using h

theorem lossless_consume (q : Nat) (h : Lossless p s) : Lossless p (consumeStep s q) := by
  unfold consumeStep
  split
  · rename_i f stream hread
    have hf := SwStream.readNb_eq_some hread
    unfold Lossless pendingOut at h ⊢
    by_cases hpq : p = q
    · subst hpq
      rw [hf] at h
      simpa using h
    · simpa [hpq] using h
  · exact h

/-- **One step keeps the account of a port exactly when it meets the condition.** -/
theorem lossless_step {a : KernelAction α} (hw : WritesOnce s) (h : Lossless p s)
    (hs : kstep K s a = some t) : Lossless p t ↔ PortKept K p s a := by
  cases a with
  | kernel =>
    cases hs
    unfold kernelStep PortKept
    cases hpc : s.pc with
    -- what does not touch the port keeps its account
    | head =>
      refine iff_of_true ?_ trivial
      have hsent : s.sent p = s.consumed p ++ (s.outs p).q := by
        simpa [Lossless, pendingOut, hpc] using h
      simp only []
      unfold recvStep
      split
      · split <;> simpa [Lossless, pendingOut] using hsent
      · simpa [Lossless, pendingOut] using hsent
    | readIn rest =>
      have hsent : s.sent p = s.consumed p ++ (s.outs p).q := by
        simpa [Lossless, pendingOut, hpc] using h
      cases rest with
      | nil => exact iff_of_true (by simpa [Lossless, pendingOut] using hsent) trivial
      | cons q rest =>
        refine iff_of_true ?_ trivial
        simp only []
        unfold readPort
        split
        · split <;> simpa [Lossless, pendingOut] using hsent
        · simpa [Lossless, pendingOut] using hsent
    | body => exact lossless_body hpc h
    | writeOut rest =>
      cases rest with
      | nil =>
        refine iff_of_true ?_ trivial
        simpa [Lossless, pendingOut, hpc] using h
      | cons q rest =>
        simp only [WritesOnce, hpc] at hw
        exact lossless_write hpc hw h
  | produce q f =>
    cases hs
    refine iff_of_true ?_ trivial
    unfold produceStep
    split <;> exact h
  | consume q => cases hs; exact iff_of_true (lossless_consume q h) trivial
  | post req => cases hs; exact iff_of_true h trivial

/-- The flits that port `p` has written to its stream. -/
def emitted (p : Nat) (s : KernelState σ α) : List α := s.consumed p ++ (s.outs p).q

/-- Nothing written to a stream is taken back. -/
theorem emitted_step {a : KernelAction α} (hs : kstep K s a = some t) :
    emitted p s <+: emitted p t := by
  cases a with
  | kernel =>
    cases hs
    unfold kernelStep
    split
    · unfold recvStep
      split
      · split <;> exact List.prefix_rfl
      · exact List.prefix_rfl
    · exact List.prefix_rfl
    · unfold readPort
      split
      · split <;> exact List.prefix_rfl
      · exact List.prefix_rfl
    · unfold bodyStep
      simp only []
      split <;> exact List.prefix_rfl
    · exact List.prefix_rfl
    · -- a write can only append
      rename_i q rest hpc
      unfold writePort
      split
      · split
        · rename_i stream hwrite
          have hq := SwStream.writeNb_eq_true hwrite
          by_cases hpq : p = q
          · subst hpq
            refine ⟨[s.locals.outputData p], ?_⟩
            simp [emitted, hq]
          · simp [emitted, hpq]
        · exact List.prefix_rfl
      · exact List.prefix_rfl
  | produce q f =>
    cases hs
    unfold produceStep
    split <;> exact List.prefix_rfl
  | consume q =>
    cases hs
    unfold consumeStep
    split
    · rename_i f stream hread
      have hf := SwStream.readNb_eq_some hread
      by_cases hpq : p = q
      · subst hpq
        simp [emitted, hf]
      · simp [emitted, hpq]
    · exact List.prefix_rfl
  | post req => cases hs; exact List.prefix_rfl

/-! ## Whole runs -/

/-- **When an emitted kernel loses nothing on a port.** For every kernel function, all bodies,
every port, all stream capacities and every interleaving of the kernel's operations with
producers, consumers and signals: the port loses no flit in any state of the run if and only if
at every body the flits passed to `set_output_port` are presented and at every write of the port
the stream has room. -/
theorem lossless_iff [Inhabited α] (K : KernelFn σ α) (p : Nat) (state : σ)
    (inCap outCap : Nat → Int) (as : List (KernelAction α)) :
    Along (kstep K) (Lossless p) (kinit state inCap outCap) as ↔
      Meets (kstep K) (PortKept K p) (kinit state inCap outCap) as :=
  along_iff_meets (fun _ _ _ hw hs => writesOnce_step hw hs)
    (fun _ _ _ hw h hs => lossless_step hw h hs) as trivial rfl

end

/-! ## `Tee` -/

/-- The handler of `Tee.clnp`. -/
def teeHandler (v : View Unit Flit) : BodyResult Unit Flit where
  state := v.state
  ops :=
    if testPort v.inputPort 1 then
      [.clearInputReady (PORT_BIT 1), .setOutputPort 1 (v.inputData 1),
        .setOutputPort 2 (v.inputData 1)]
    else []
  ret := some (PORT_BIT 1)

def tee : KernelFn Unit Flit where
  inPorts := [1]
  outPorts := [1, 2]
  nodup_outPorts := by decide
  handler := teeHandler

/-- Two flits through a `Tee` whose first output stream has room for one: the second is in no
stream and not pending. -/
theorem tee_loses_flit :
    ¬ ∀ (σ : Type) (K : KernelFn σ Flit) (p : Nat) (state : σ) (inCap outCap : Nat → Int)
      (as : List (KernelAction Flit)),
      Along (kstep K) (Lossless p) (kinit state inCap outCap) as := by
  intro h
  -- one turn of the loop is seven operations
  have hlast := (h Unit tee 1 () (fun _ => 2) (fun _ => 1)
    (.produce 1 {} :: .produce 1 {} :: List.replicate 14 .kernel)).exec
  have hlen := congrArg List.length hlast
  rw [List.length_append, List.length_append] at hlen
  exact absurd hlen (by decide)

end OpenClickNP
