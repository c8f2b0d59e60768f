import OpenClickNP.Backend.HandlerCalls

/-!
# `DropEnforcer.clnp`

Port 1 carries flits, port 2 carries verdicts. A handler call decides by the verdict it finds
ready; it passes a flit through when it finds none, and it drops a verdict that comes without
a flit. So the element enforces the verdict of each flit exactly in the runs on which every
handler call finds both or neither (`dropEnforcer_enforces`).
-/

namespace OpenClickNP

open Run

/-- The `.handler` block. -/
def dropEnforcerHandler (v : View Unit Flit) : BodyResult Unit Flit where
  state := v.state
  ops :=
    if testPort v.inputPort 2 then
      .clearInputReady (PORT_BIT 2) ::
        if (v.inputData 2).get 0 != 0 && testPort v.inputPort 1 then
          [.clearInputReady (PORT_BIT 1), .setOutputPort 1 (v.inputData 1)]
        else if testPort v.inputPort 1 then [.clearInputReady (PORT_BIT 1)]
        else []
    else if testPort v.inputPort 1 then
      [.clearInputReady (PORT_BIT 1), .setOutputPort 1 (v.inputData 1)]
    else []
  ret := some PORT_ALL

def dropEnforcer : KernelFn Unit Flit where
  inPorts := [1, 2]
  outPorts := [1]
  nodup_outPorts := nodup_one
  handler := dropEnforcerHandler

/-! ## One call -/

/-- What a call passes on: the flit it finds, if it finds one, unless the verdict it finds is
zero. -/
def forwarded (v : View Unit Flit) : List Flit :=
  if testPort v.inputPort 1 && (!testPort v.inputPort 2 || (v.inputData 2).get 0 != 0) then
    [v.inputData 1]
  else []

/-- The flit of port `p` that the handler finds ready. -/
def found (p : Nat) (v : View Unit Flit) : List Flit :=
  if testPort v.inputPort p then [v.inputData p] else []

theorem setsOf_dropEnforcer (v : View Unit Flit) :
    setsOf 1 (dropEnforcerHandler v).ops = forwarded v := by
  unfold dropEnforcerHandler forwarded
  cases testPort v.inputPort 1 <;> cases testPort v.inputPort 2 <;>
    cases (v.inputData 2).get 0 != 0 <;> rfl

/-- A call takes every flit it finds. -/
theorem takenIn_dropEnforcer {p : Nat} (hp : p = 1 ∨ p = 2) (v : View Unit Flit) :
    takenIn p v (dropEnforcerHandler v) = found p v := by
  unfold takenIn found dropEnforcerHandler
  rcases hp with rfl | rfl <;>
    cases testPort v.inputPort 1 <;> cases testPort v.inputPort 2 <;>
      cases (v.inputData 2).get 0 != 0 <;> rfl

theorem plain_dropEnforcer : Plain dropEnforcer 1 where
  mem := List.mem_singleton_self 1
  lt := by decide
  plain := by
    intro v
    show ∀ op ∈ (dropEnforcerHandler v).ops, op.isPlain = true
    unfold dropEnforcerHandler
    cases testPort v.inputPort 1 <;> cases testPort v.inputPort 2 <;>
      cases (v.inputData 2).get 0 != 0 <;> simp [PortOp.isPlain]
  length_le := by
    intro v
    show (setsOf 1 (dropEnforcerHandler v).ops).length ≤ 1
    rw [setsOf_dropEnforcer]
    unfold forwarded
    split <;> simp
  signal := fun _ => rfl

/-- A call that finds a flit forwards it unless it finds a zero verdict with it. -/
theorem forwards_iff {ks : KernelState Unit Flit} (hsig : ks.locals.hasSignal = false)
    (h1 : testPort ks.locals.inputPort 1 = true) :
    setsOf 1 (bodyResult dropEnforcer ks.locals).ops = [ks.locals.inputData 1] ↔
      (testPort ks.locals.inputPort 2 = true → (ks.locals.inputData 2).get 0 ≠ 0) := by
  rw [bodyResult_of_noSignal hsig]
  show setsOf 1 (dropEnforcerHandler _).ops = _ ↔ _
  rw [setsOf_dropEnforcer]
  unfold forwarded
  cases h2 : testPort ks.locals.inputPort 2 <;> simp [viewOf, h1, h2]

/-! ## Runs -/

section
variable {s t : KernelState Unit Flit}

/-- The flits of `data` whose verdict, at the same place of `verdicts`, has lane 0 non-zero. -/
def permitted (data verdicts : List Flit) : List Flit :=
  ((data.zip verdicts).filter fun x => x.2.get 0 != 0).map Prod.fst

theorem permitted_append {d v d' v' : List Flit} (h : d.length = v.length) :
    permitted (d ++ d') (v ++ v') = permitted d v ++ permitted d' v' := by
  unfold permitted
  rw [List.zip_append h, List.filter_append, List.map_append]

/-- In this state no flit has been decided without its verdict, no verdict has been consumed
without its flit, and the flits emitted are those that their own verdicts permit. -/
structure Enforced (s : KernelState Unit Flit) : Prop where
  paired : (s.taken 1).length = (s.taken 2).length
  sent : s.sent 1 = permitted (s.taken 1) (s.taken 2)
  lossless : Lossless 1 s

/-- The condition on a step: a handler call finds both ports ready or neither. -/
def FindsPair (s : KernelState Unit Flit) : KernelAction Flit → Prop
  | .kernel =>
    match s.pc with
    | .body => testPort s.locals.inputPort 1 = testPort s.locals.inputPort 2
    | _ => True
  | _ => True

theorem findsPair_of_not_body {a : KernelAction Flit} (h : a = .kernel → s.pc ≠ .body) :
    FindsPair s a := by
  cases a with
  | kernel =>
    have hne := h rfl
    unfold FindsPair
    cases hpc : s.pc with
    | body => exact absurd hpc hne
    | _ => trivial
  | _ => trivial

/-- A call decides as the verdicts say exactly when it finds a pair or nothing. -/
theorem decided_body (hsig : s.locals.hasSignal = false)
    (hpaired : (s.taken 1).length = (s.taken 2).length)
    (hsent : s.sent 1 = permitted (s.taken 1) (s.taken 2)) :
    (((bodyStep dropEnforcer s).taken 1).length = ((bodyStep dropEnforcer s).taken 2).length ∧
      (bodyStep dropEnforcer s).sent 1
        = permitted ((bodyStep dropEnforcer s).taken 1) ((bodyStep dropEnforcer s).taken 2)) ↔
      testPort s.locals.inputPort 1 = testPort s.locals.inputPort 2 := by
  have hbody : bodyResult dropEnforcer s.locals = dropEnforcerHandler (viewOf s.locals) :=
    bodyResult_of_noSignal hsig
  rw [taken_bodyStep, taken_bodyStep, sent_bodyStep, hbody, takenIn_dropEnforcer (Or.inl rfl),
    takenIn_dropEnforcer (Or.inr rfl), setsOf_dropEnforcer, permitted_append hpaired, hsent]
  -- the lengths tell a pair from a single flit; the pair is decided by its own verdict
  cases h1 : testPort s.locals.inputPort 1 <;> cases h2 : testPort s.locals.inputPort 2 <;>
    simp [found, forwarded, viewOf, h1, h2, hpaired, permitted]
  by_cases h0 : (s.locals.inputData 2).get 0 = 0 <;> simp [h0]

/-- **One step enforces the verdicts exactly when it meets the condition.** -/
theorem enforced_step {a : KernelAction Flit} (hsig : s.locals.hasSignal = false)
    (hw : WritesOnce s) (h : Enforced s) (hs : kstep dropEnforcer s a = some t) :
    Enforced t ↔ FindsPair s a ∧ FindsRoom 1 s a := by
  have hkept := (lossless_step hw h.lossless hs).trans (portKept_iff_findsRoom plain_dropEnforcer a)
  have hdecided : ((t.taken 1).length = (t.taken 2).length ∧
      t.sent 1 = permitted (t.taken 1) (t.taken 2)) ↔ FindsPair s a := by
    rcases records_step hs with ⟨rfl, hpc, rfl⟩ | ⟨hpc, hrec⟩
    · rw [decided_body hsig h.paired h.sent]
      unfold FindsPair
      rw [hpc]
    · rw [hrec.taken, hrec.sent]
      exact iff_of_true ⟨h.paired, h.sent⟩ (findsPair_of_not_body hpc)
  rw [← hkept, ← hdecided]
  constructor
  · intro ht
    exact ⟨⟨ht.paired, ht.sent⟩, ht.lossless⟩
  · rintro ⟨⟨hpaired, hsent⟩, hlossless⟩
    exact ⟨hpaired, hsent, hlossless⟩

end

/-- **What `DropEnforcer` emits.** For all stream capacities and every interleaving of its
operations with the flits that become ready on its ports: it passes on what its calls find
and the verdicts found with it do not forbid, and it takes every flit a call finds; and it
enforces the verdict of each flit in every state of the run if and only if every call finds
both ports ready or neither, and its writes find room. -/
theorem dropEnforcer_enforces (inCap outCap : Nat → Int) (as : List (KernelAction Flit)) :
    ((exec (kstep dropEnforcer) (kinit () inCap outCap) as).sent 1
        = (handlerViews dropEnforcer (kinit () inCap outCap) as).flatMap forwarded ∧
      ∀ p, p = 1 ∨ p = 2 →
        (exec (kstep dropEnforcer) (kinit () inCap outCap) as).taken p
          = (handlerViews dropEnforcer (kinit () inCap outCap) as).flatMap (found p) ∧
        (exec (kstep dropEnforcer) (kinit () inCap outCap) as).taken p
          <+: (exec (kstep dropEnforcer) (kinit () inCap outCap) as).arrived p) ∧
    (Along (kstep dropEnforcer) Enforced (kinit () inCap outCap) as ↔
      Meets (kstep dropEnforcer) (fun s a => FindsPair s a ∧ FindsRoom 1 s a)
        (kinit () inCap outCap) as) := by
  refine ⟨⟨?_, fun p hp => ⟨?_, ?_⟩⟩, ?_⟩
  · rw [sent_exec rfl rfl]
    exact List.flatMap_congr fun v _ => setsOf_dropEnforcer v
  · rw [taken_exec rfl rfl]
    exact List.flatMap_congr fun v _ => takenIn_dropEnforcer hp v
  · exact taken_begins_arrived (inv_exec (fun _ _ _ => inputs_step) as
      (inputs_kinit () inCap outCap)) p
  · exact along_iff_meets (W := fun s => s.locals.hasSignal = false ∧ WritesOnce s)
      (fun _ _ _ hw hs => ⟨hasSignal_step rfl hw.1 hs, writesOnce_step hw.2 hs⟩)
      (fun _ _ _ hw h hs => enforced_step hw.1 hw.2 h hs) as ⟨rfl, trivial⟩
      ⟨rfl, rfl, rfl⟩

/-- A flit that comes in before its verdict, which is zero, goes out. -/
theorem dropEnforcer_forwards_early_flit :
    ¬ ∀ (inCap outCap : Nat → Int) (as : List (KernelAction Flit)),
      Along (kstep dropEnforcer) Enforced (kinit () inCap outCap) as := by
  intro h
  -- one turn of the loop is seven operations
  have hlast := (h (fun _ => 2) (fun _ => 2)
    (.produce 1 {} :: List.replicate 7 .kernel ++ .produce 2 {} :: List.replicate 7 .kernel)).exec
  have hlen := congrArg List.length hlast.sent
  exact absurd hlen (by decide)

end OpenClickNP
