import OpenClickNP.Backend.PortService

/-!
# `Mux.clnp`

The element looks at one input port in each call, at port 1 to 8 in turn, whatever the number of
ports of the instance is. So with at most eight ports nobody waits for more than eight calls; from
the ninth port on a flit is latched, and waits for ever (`mux_serves_iff`).
-/

namespace OpenClickNP

open Run

/-! ## The element -/

/-- The `.state` block. -/
structure MuxState where
  rr : UInt8
  merged : UInt64

/-- The `.init` block. -/
def muxInit : MuxState where
  rr := 0
  merged := 0

/-- `(_state.rr % 8) + 1`. -/
def MuxState.port (st : MuxState) : UInt8 := st.rr % 8 + 1

/-- The `.handler` block. -/
def muxHandler (v : View MuxState Flit) : BodyResult MuxState Flit :=
  let p := v.state.port
  let mask := PORT_BIT p.toNat
  if v.inputPort &&& mask != 0 then
    { state := { rr := p, merged := v.state.merged + 1 }
      ops := [.clearInputReady mask, .setOutputPort 1 (v.inputData p.toNat)]
      ret := some PORT_ALL }
  else { state := { v.state with rr := p }, ops := [], ret := some PORT_ALL }

/-- An instance with `n` input ports. -/
def muxElement (n : Nat) : KernelFn MuxState Flit where
  inPorts := List.range' 1 n
  outPorts := [1]
  nodup_outPorts := nodup_one
  handler := muxHandler

/-! ## One call -/

/-- The port that a call looks at. -/
def visited (v : View MuxState Flit) : Nat := v.state.port.toNat

/-- The port that a call serves. -/
def muxed (v : View MuxState Flit) : Option Nat :=
  if testPort v.inputPort (visited v) then some (visited v) else none

theorem visited_bounds (v : View MuxState Flit) : 1 ≤ visited v ∧ visited v ≤ 8 := by
  have hport : visited v = (v.state.rr.toNat % 8 + 1) % 256 := by
    unfold visited MuxState.port
    rw [UInt8.toNat_add, UInt8.toNat_mod]
    rfl
  omega

theorem rr_muxHandler (v : View MuxState Flit) : (muxHandler v).state.rr = v.state.port := by
  unfold muxHandler
  simp only []
  split <;> rfl

/-- The next call looks at the next port. -/
theorem visited_next {v w : View MuxState Flit} (h : w.state = (muxHandler v).state) :
    visited w = visited v % 8 + 1 := by
  have hbounds := visited_bounds v
  have hport : visited w = (visited v % 8 + 1) % 256 := by
    unfold visited MuxState.port
    rw [h, rr_muxHandler, UInt8.toNat_add, UInt8.toNat_mod]
    rfl
  omega

theorem serving_mux (n : Nat) : Serving (muxElement n) muxed where
  noSignal := rfl
  taken v p := by
    show takenIn p v (muxHandler v) = _
    unfold takenIn muxHandler muxed
    cases hbit : testPort v.inputPort (visited v) with
    | true =>
      have hlt := lt_of_testPort hbit
      have hcond : (v.inputPort &&& PORT_BIT v.state.port.toNat != 0) = true := hbit
      simp only [hcond, if_true, List.any_cons, List.any_nil, PortOp.clears, Bool.or_false]
      show (if testPort v.inputPort p && testPort (PORT_BIT (visited v)) p then _ else _) = _
      rw [testPort_PORT_BIT]
      by_cases hp : visited v = p
      · subst hp
        simp [hbit, hlt]
      · simp [hp, Ne.symm hp]
    | false =>
      have hcond : (v.inputPort &&& PORT_BIT v.state.port.toNat != 0) = false := hbit
      simp only [hcond, Bool.false_eq_true, if_false]
      simp
  sets v := by
    show setsOf 1 (muxHandler v).ops = _
    unfold muxHandler muxed
    cases hbit : testPort v.inputPort (visited v) with
    | true =>
      have hcond : (v.inputPort &&& PORT_BIT v.state.port.toNat != 0) = true := hbit
      simp only [hcond, if_true]
      rfl
    | false =>
      have hcond : (v.inputPort &&& PORT_BIT v.state.port.toNat != 0) = false := hbit
      simp only [hcond, Bool.false_eq_true, if_false]
      rfl
  plain :=
    { mem := List.mem_singleton_self 1
      lt := by decide
      plain := by
        intro v op hop
        have hmem : op ∈ (muxHandler v).ops := hop
        unfold muxHandler at hmem
        simp only [] at hmem
        split at hmem
        · simp only [List.mem_cons, List.not_mem_nil, or_false] at hmem
          rcases hmem with rfl | rfl <;> rfl
        · cases hmem
      length_le := by
        intro v
        show (setsOf 1 (muxHandler v).ops).length ≤ 1
        unfold muxHandler
        simp only []
        split <;> simp [setsOf]
      signal := fun _ => rfl }

/-! ## At most eight ports -/

/-- The ports that the calls look at. Induction on the number of calls between the two. -/
theorem visited_later {n : Nat} {st : MuxState} {vs : List (View MuxState Flit)}
    (h : Chained (muxElement n) st vs) {i : Nat} {v : View MuxState Flit} (hv : vs[i]? = some v)
    (k : Nat) {w : View MuxState Flit} (hw : vs[i + k]? = some w) :
    visited w = (visited v - 1 + k) % 8 + 1 := by
  induction k generalizing w with
  | zero =>
    have hbounds := visited_bounds v
    rw [Nat.add_zero, hv] at hw
    cases hw
    omega
  | succ k ih =>
    have hlt : i + k < vs.length := by
      have hlast := (List.getElem?_eq_some_iff.mp hw).1
      omega
    have hu : vs[i + k]? = some vs[i + k] := List.getElem?_eq_getElem hlt
    have hnext := visited_next (h.succ hu hw)
    rw [ih hu] at hnext
    omega

/-- From the start the calls look at port 1, 2, …, 8, 1 and so on. -/
theorem visited_chained {n : Nat} {vs : List (View MuxState Flit)}
    (h : Chained (muxElement n) muxInit vs) {k : Nat} {v : View MuxState Flit}
    (hv : vs[k]? = some v) : visited v = k % 8 + 1 := by
  have hlt : 0 < vs.length := Nat.lt_of_le_of_lt (Nat.zero_le k) (List.getElem?_eq_some_iff.mp hv).1
  have hu : vs[0]? = some vs[0] := List.getElem?_eq_getElem hlt
  have hfirst : visited vs[0] = 1 := by
    show (vs[0]).state.port.toNat = 1
    rw [h.first hu]
    rfl
  have hlater := visited_later h hu k (w := v) (by rw [Nat.zero_add]; exact hv)
  rw [hlater, hfirst, Nat.sub_self, Nat.zero_add]

/-- **Every port from 1 to 8 is looked at between two looks at the same.** -/
theorem servesFairly_mux {n : Nat} (hn : n ≤ 8) {st : MuxState} {vs : List (View MuxState Flit)}
    (h : Chained (muxElement n) st vs) : ServesFairly (muxElement n) vs := by
  rintro i j a b hij hb hne ⟨v, hv, ha⟩ ⟨w, hw, ha'⟩ hready
  have hserves := (serving_mux n).serves_iff
  have hvisited : ∀ {u : View MuxState Flit} {p : Nat}, ServesPort (muxElement n) u p →
      visited u = p := by
    intro u p hu
    have hchoice := (hserves u p).mp hu
    unfold muxed at hchoice
    split at hchoice
    · exact Option.some.inj hchoice
    · cases hchoice
  have hva := hvisited ha
  have hwa := hvisited ha'
  have hbounds := visited_bounds v
  have hbports : 1 ≤ b ∧ b < 1 + n := List.mem_range'_1.mp hb
  have hlater := visited_later h hv (j - i) (w := w) (by rw [show i + (j - i) = j by omega, hw])
  -- `b` is looked at so many calls behind `a`
  let k := (b + 8 - a) % 8
  have hk : 0 < k ∧ i + k < j := by
    show 0 < (b + 8 - a) % 8 ∧ i + (b + 8 - a) % 8 < j
    omega
  have hlast := (List.getElem?_eq_some_iff.mp hw).1
  have hu : vs[i + k]? = some vs[i + k] := List.getElem?_eq_getElem (by omega)
  obtain ⟨u, hu', hbit⟩ := hready (i + k) (by omega) (by omega)
  rw [hu, Option.some_inj] at hu'
  have hport := visited_later h hv k hu
  have hvisit : visited vs[i + k] = b := by
    rw [hport]
    show (visited v - 1 + (b + 8 - a) % 8) % 8 + 1 = b
    omega
  refine ⟨i + k, by omega, hk.2, vs[i + k], hu, (hserves _ b).mpr ?_⟩
  rw [muxed, hvisit, hu', if_pos hbit]

/-! ## A ninth port -/

/-- The kernel is at the head of its loop, and has a flit for port 9. -/
structure Starving (s : KernelState MuxState Flit) : Prop where
  head : s.pc = .head
  noSignal : s.locals.hasSignal = false
  ret : s.locals.ret = PORT_ALL
  waits : testPort s.locals.inputPort 9 = true ∨ (s.ins 9).q ≠ []

/-- A flit comes in on port 1, and the kernel makes an iteration. -/
def feedOne (n : Nat) : List (KernelAction Flit) :=
  .produce 1 {} :: List.replicate (iterationSteps (muxElement n)) .kernel

/-- A port that is asked for, and has a flit latched or in its stream, is ready at the call. -/
theorem ready_foldl_readPort {ports : List Nat} {s : KernelState MuxState Flit} {p : Nat}
    (hp : p ∈ ports) (hask : testPort s.locals.ret p = true)
    (h : testPort s.locals.inputPort p = true ∨ (s.ins p).q ≠ []) :
    testPort (ports.foldl readPort s).locals.inputPort p = true := by
  have hkeep : ∀ (ports : List Nat) (s : KernelState MuxState Flit),
      testPort s.locals.inputPort p = true →
        testPort (ports.foldl readPort s).locals.inputPort p = true := by
    intro ports
    induction ports with
    | nil => exact fun s hs => hs
    | cons q ports ih =>
      intro s hs
      refine ih (readPort s q) ?_
      unfold readPort
      split
      · split
        · rw [testPort_or, hs, Bool.true_or]
        · exact hs
      · exact hs
  induction ports generalizing s with
  | nil => cases hp
  | cons q ports ih =>
    rw [List.foldl_cons]
    by_cases hqp : q = p
    · subst hqp
      by_cases hbit : testPort s.locals.inputPort q = true
      · exact hkeep (q :: ports) s hbit
      · -- the port is free, and its stream is not empty
        have hcond : (testPort s.locals.ret q && !testPort s.locals.inputPort q) = true := by
          simp [hask, hbit]
        refine hkeep ports _ ?_
        unfold readPort
        rw [if_pos hcond]
        split
        · rw [testPort_or_PORT_BIT (lt_of_testPort hask)]
          simp
        · rename_i stream hread
          exact absurd (SwStream.readNb_eq_none hread) (h.resolve_left hbit)
    · have hmem : p ∈ ports := (List.mem_cons.mp hp).resolve_left (Ne.symm hqp)
      refine ih hmem ?_ ?_
      · rw [(readPort_frame s q).2.2]
        exact hask
      · unfold readPort
        split
        · split
          · refine h.imp (fun hbit => ?_) fun hq => ?_
            · rw [testPort_or, hbit, Bool.true_or]
            · simpa [Function.update_of_ne (Ne.symm hqp)] using hq
          · exact h
        · exact h

/-- At the call of a turn, ports 1 and 9 are ready. -/
theorem ready_feedOne {n : Nat} (hn : 8 < n) {s : KernelState MuxState Flit} (h : Starving s)
    {p : Nat} (hp : p = 1 ∨ p = 9) :
    testPort (latchAll (muxElement n) (produceStep s 1 {})).locals.inputPort p = true := by
  have hmem : p ∈ (muxElement n).inPorts := List.mem_range'_1.mpr (by omega)
  obtain ⟨hlocals, -, -, -, -⟩ := produceStep_frame s 1 ({} : Flit)
  have hask : testPort (produceStep s 1 {}).locals.ret p = true := by
    rw [hlocals, h.ret]
    rcases hp with rfl | rfl <;> decide
  apply ready_foldl_readPort hmem hask
  rcases hp with rfl | rfl
  · exact Or.inr (q_produceStep s 1 {})
  · have hq9 : (produceStep s 1 {}).ins 9 = s.ins 9 := by
      unfold produceStep
      split
      · rename_i stream hwrite
        exact Function.update_of_ne (show (9 : Nat) ≠ 1 by decide) stream s.ins
      · rfl
    rw [hq9, hlocals]
    exact h.waits

/-- **Behind the call only a port up to 8 has been cleared**, so port 9 still waits. -/
theorem starving_iterated {n : Nat} {s : KernelState MuxState Flit}
    (hsig : s.locals.hasSignal = false)
    (h9 : testPort (latchAll (muxElement n) s).locals.inputPort 9 = true) :
    Starving (iterated (muxElement n) s) := by
  have hbodySig := (hasSignal_latchAll (muxElement n) s).trans hsig
  have hbody : bodyResult (muxElement n) (latchAll (muxElement n) s).locals
      = muxHandler (viewOf (latchAll (muxElement n) s).locals) := bodyResult_of_noSignal hbodySig
  obtain ⟨-, -, -, hsig', hret', hinput'⟩ :=
    writePort_frame (bodyStep (muxElement n) (latchAll (muxElement n) s)) 1
  refine ⟨rfl, ?_, ?_, Or.inl ?_⟩
  · show (writePort _ 1).locals.hasSignal = false
    rw [hsig']
    exact hasSignal_step (K := muxElement n) (a := .kernel) rfl hbodySig rfl
  · show (writePort _ 1).locals.ret = PORT_ALL
    rw [hret']
    unfold bodyStep
    simp only [hbodySig, hbody]
    show (muxHandler _).ret.getD _ = PORT_ALL
    unfold muxHandler
    simp only []
    split <;> rfl
  · show testPort (writePort _ 1).locals.inputPort 9 = true
    rw [hinput']
    unfold bodyStep
    simp only [hbodySig, hbody]
    show testPort (List.foldl applyOp _ (muxHandler _).ops).inputPort 9 = true
    rw [testPort_applyOps]
    show (testPort (latchAll (muxElement n) s).locals.inputPort 9 && _) = true
    rw [h9, Bool.true_and]
    have hbounds := visited_bounds (viewOf (latchAll (muxElement n) s).locals)
    unfold muxHandler
    simp only []
    split
    · show (!(testPort (PORT_BIT (visited _)) 9 || (false || false))) = true
      rw [testPort_PORT_BIT]
      simp
      omega
    · rfl

/-- **A turn serves port 1 or nothing, and port 9 still waits.** -/
theorem starving_turn {n : Nat} (hn : 8 < n) {s : KernelState MuxState Flit} (h : Starving s)
    (rest : List (KernelAction Flit)) :
    ∃ (v : View MuxState Flit) (t : KernelState MuxState Flit), Starving t ∧
      testPort v.inputPort 1 = true ∧ testPort v.inputPort 9 = true ∧
      handlerViews (muxElement n) s (feedOne n ++ rest)
        = v :: handlerViews (muxElement n) t rest := by
  obtain ⟨hlocals, hpc, -, -, -⟩ := produceStep_frame s 1 ({} : Flit)
  have hsig : (produceStep s 1 {}).locals.hasSignal = false := by
    rw [hlocals]
    exact h.noSignal
  have h9 := ready_feedOne hn h (Or.inr rfl)
  obtain ⟨-, hviews⟩ := exec_iteration (K := muxElement n) rfl
    (show (produceStep s 1 {}).pc = .head from hpc.trans h.head) hsig rest
  exact ⟨viewOf (latchAll (muxElement n) (produceStep s 1 {})).locals,
    iterated (muxElement n) (produceStep s 1 {}), starving_iterated hsig h9,
    ready_feedOne hn h (Or.inl rfl), h9, hviews⟩

/-- As many turns as one wants. -/
theorem starving_turns {n : Nat} (hn : 8 < n) (k : Nat) {s : KernelState MuxState Flit}
    (h : Starving s) :
    let vs := handlerViews (muxElement n) s (List.replicate k (feedOne n)).flatten
    vs.length = k ∧
      ∀ v ∈ vs, testPort v.inputPort 1 = true ∧ testPort v.inputPort 9 = true := by
  induction k generalizing s with
  | zero => exact ⟨rfl, fun v hv => absurd hv List.not_mem_nil⟩
  | succ k ih =>
    obtain ⟨v, t, ht, h1, h9, hviews⟩ :=
      starving_turn hn h (List.replicate k (feedOne n)).flatten
    obtain ⟨hlen, hall⟩ := ih ht
    simp only []
    rw [List.replicate_succ, List.flatten_cons, hviews]
    refine ⟨by rw [List.length_cons, hlen], fun w hw => ?_⟩
    rcases List.mem_cons.mp hw with rfl | hw
    · exact ⟨h1, h9⟩
    · exact hall w hw

/-- A flit comes in on port 9, and nine turns are made. -/
def starvingRun (n : Nat) : List (KernelAction Flit) :=
  .produce 9 {} :: (List.replicate 9 (feedOne n)).flatten

/-- **With nine ports or more, port 1 is served twice while port 9 waits.** -/
theorem not_servesFairly_mux {n : Nat} (hn : 8 < n) :
    ¬ ServesFairly (muxElement n) (handlerViews (muxElement n)
      (kinit muxInit (fun _ => 2) fun _ => 2) (starvingRun n)) := by
  intro hfair
  let s : KernelState MuxState Flit :=
    produceStep (kinit muxInit (fun _ => 2) fun _ => 2) 9 {}
  have hstart : Starving s := by
    obtain ⟨hlocals, hpc, -, -, -⟩ :=
      produceStep_frame (kinit muxInit (fun _ => 2) (fun _ => 2) : KernelState MuxState Flit) 9 {}
    refine ⟨hpc, ?_, ?_, Or.inr (q_produceStep _ 9 ({} : Flit))⟩
    · exact congrArg Locals.hasSignal hlocals
    · exact congrArg Locals.ret hlocals
  obtain ⟨hlen, hall⟩ := starving_turns hn 9 hstart
  have hviews : handlerViews (muxElement n) (kinit muxInit (fun _ => 2) fun _ => 2)
      (starvingRun n) = handlerViews (muxElement n) s
        (List.replicate 9 (feedOne n)).flatten := rfl
  have hchain := chained_handlerViews (K := muxElement n)
    (s := kinit muxInit (fun _ => 2) fun _ => 2) rfl rfl (starvingRun n)
  rw [hviews] at hfair hchain
  generalize hvs : handlerViews (muxElement n) s (List.replicate 9 (feedOne n)).flatten = vs
    at hfair hchain hlen hall
  have hget : ∀ k, k < 9 → ∃ v, vs[k]? = some v := by
    intro k hk
    have hlt : k < vs.length := by omega
    exact ⟨vs[k], List.getElem?_eq_getElem hlt⟩
  have hserved : ∀ {k : Nat}, k < 9 → k % 8 = 0 → ServedAt (muxElement n) vs k 1 := by
    intro k hk hk8
    obtain ⟨v, hv⟩ := hget k hk
    refine ⟨v, hv, ((serving_mux n).serves_iff v 1).mpr ?_⟩
    have hvisit := visited_chained hchain hv
    rw [hk8] at hvisit
    rw [muxed, hvisit, if_pos (hall v (List.mem_of_getElem? hv)).1]
  have hwaits : ∀ k, 0 < k → k ≤ 8 → ReadyAt vs k 9 := by
    intro k _ hk
    obtain ⟨v, hv⟩ := hget k (by omega)
    exact ⟨v, hv, (hall v (List.mem_of_getElem? hv)).2⟩
  obtain ⟨k, hk0, hk8, v, hv, hserves⟩ := hfair 0 8 1 9 (by decide)
    (List.mem_range'_1.mpr (by omega)) (by decide) (hserved (by decide) rfl)
    (hserved (by decide) rfl) hwaits
  have hchoice := ((serving_mux n).serves_iff v 9).mp hserves
  have hbounds := visited_bounds v
  unfold muxed at hchoice
  split at hchoice
  · have hnine := Option.some.inj hchoice
    omega
  · cases hchoice

/-- **When `Mux` serves all its ports.** For every number of input ports: in all runs, whatever
comes in on which port at what time, what is passed on is what is read, each flit once and the
flits of each port in order, and nobody waits while another is served twice, if and only if there
are at most eight ports. -/
theorem mux_serves_iff (n : Nat) :
    (∀ (inCap outCap : Nat → Int) (as : List (KernelAction Flit)),
      Merges (muxElement n) (kinit muxInit inCap outCap) as ∧
        ServesFairly (muxElement n)
          (handlerViews (muxElement n) (kinit muxInit inCap outCap) as)) ↔ n ≤ 8 := by
  constructor
  · intro h
    by_contra hn
    exact not_servesFairly_mux (Nat.not_le.mp hn) (h _ _ (starvingRun n)).2
  · intro hn inCap outCap as
    exact ⟨(serving_mux n).merges muxInit inCap outCap as,
      servesFairly_mux hn (chained_handlerViews rfl rfl as)⟩

/-- Port 1 of nine ports is served twice while port 9 waits. -/
theorem mux_starves_ninth : ¬ ∀ n : Nat, 1 ≤ n →
    ∀ (inCap outCap : Nat → Int) (as : List (KernelAction Flit)),
      Merges (muxElement n) (kinit muxInit inCap outCap) as ∧
        ServesFairly (muxElement n)
          (handlerViews (muxElement n) (kinit muxInit inCap outCap) as) := by
  intro h
  have hnine := (h 9 (by decide) (fun _ => 2) (fun _ => 2) (starvingRun 9)).2
  exact not_servesFairly_mux (by decide) hnine

end OpenClickNP
