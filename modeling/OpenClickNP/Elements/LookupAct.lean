import OpenClickNP.Backend.HandlerCalls
import OpenClickNP.Lib.Frames

/-!
# `LookupAct` of the `Firewall` application

Port 1 carries packets, port 2 one decision for each. The element holds one decision, from the
call that finds it to the last flit of a packet; a decision that comes earlier overwrites the
one held. So every packet is ruled by its own decision exactly in the runs on which no call
finds a decision while it holds one (`lookupAct_rules_iff`).
-/

namespace OpenClickNP

open Run Frames

/-- The `.state` block. -/
structure LookupState where
  hasDecision : Bool
  passPkt : Bool
  passedPkts : UInt64
  droppedPkts : UInt64

/-- The `.init` block. -/
def lookupInit : LookupState where
  hasDecision := false
  passPkt := false
  passedPkts := 0
  droppedPkts := 0

/-- `m.get(1) != 0`. -/
def passes (m : Flit) : Bool := m.get 1 != 0

/-- The state after the first `if` of the handler. -/
def pullDecision (v : View LookupState Flit) : LookupState :=
  if testPort v.inputPort 2 then
    { v.state with hasDecision := true, passPkt := passes (v.inputData 2) }
  else v.state

/-- The state after a flit of a packet. -/
def afterFlit (st : LookupState) (f : Flit) : LookupState :=
  if f.eop then
    if st.passPkt then { st with passedPkts := st.passedPkts + 1, hasDecision := false }
    else { st with droppedPkts := st.droppedPkts + 1, hasDecision := false }
  else st

/-- The built-ins of the first `if`. -/
def pullOps (v : View LookupState Flit) : List (PortOp Flit) :=
  if testPort v.inputPort 2 then [.clearInputReady (PORT_BIT 2)] else []

/-- The condition of the second `if`: there is a decision, and a flit for it. -/
def rules (v : View LookupState Flit) : Bool :=
  (pullDecision v).hasDecision && testPort v.inputPort 1

/-- The `.handler` block. -/
def lookupActHandler (v : View LookupState Flit) : BodyResult LookupState Flit :=
  let st := pullDecision v
  if rules v then
    let f := v.inputData 1
    { state := afterFlit st f
      ops := pullOps v ++ .clearInputReady (PORT_BIT 1) ::
        if st.passPkt then [.setOutputPort 1 f] else []
      ret := some PORT_ALL }
  else { state := st, ops := pullOps v, ret := some PORT_ALL }

/-- The `.signal` block. -/
def lookupActSignal (v : View LookupState Flit) : BodyResult LookupState Flit where
  state := v.state
  ops := []
  ret := none
  outevent := { v.event with
    lparam := Function.update (Function.update v.event.lparam 0 v.state.passedPkts) 1
      v.state.droppedPkts }

def lookupAct : KernelFn LookupState Flit where
  inPorts := [1, 2]
  outPorts := [1]
  nodup_outPorts := nodup_one
  hasSignal := true
  handler := lookupActHandler
  signal := lookupActSignal

/-! ## One call -/

section
variable (v : View LookupState Flit)

theorem ops_lookupAct : (lookupActHandler v).ops = pullOps v ++
    if rules v then .clearInputReady (PORT_BIT 1) ::
      if (pullDecision v).passPkt then [.setOutputPort 1 (v.inputData 1)] else []
    else [] := by
  unfold lookupActHandler
  cases rules v with
  | true => rfl
  | false => exact (List.append_nil _).symm

theorem state_lookupAct : (lookupActHandler v).state
    = if rules v then afterFlit (pullDecision v) (v.inputData 1) else pullDecision v := by
  unfold lookupActHandler
  cases rules v <;> rfl

/-- A call takes the decision it finds. -/
theorem takenIn_two : takenIn 2 v (lookupActHandler v)
    = if testPort v.inputPort 2 then [v.inputData 2] else [] := by
  unfold takenIn
  rw [ops_lookupAct]
  unfold pullOps
  cases testPort v.inputPort 2 with
  | false => rfl
  | true => simp [PortOp.clears, testPort_PORT_BIT]

theorem takenIn_one :
    takenIn 1 v (lookupActHandler v) = if rules v then [v.inputData 1] else [] := by
  have hpull : (pullOps v).any (PortOp.clears 1) = false := by
    unfold pullOps
    split <;> simp [PortOp.clears, testPort_PORT_BIT]
  unfold takenIn
  rw [ops_lookupAct, List.any_append, hpull]
  cases hrules : rules v with
  | false => simp
  | true =>
    have h1 : testPort v.inputPort 1 = true := (Bool.and_eq_true_iff.mp hrules).2
    simp [h1, PortOp.clears, testPort_PORT_BIT]

theorem setsOf_pullOps (ops : List (PortOp Flit)) : setsOf 1 (pullOps v ++ ops) = setsOf 1 ops := by
  unfold pullOps
  split <;> rfl

theorem setsOf_lookupAct : setsOf 1 (lookupActHandler v).ops
    = if rules v && (pullDecision v).passPkt then [v.inputData 1] else [] := by
  rw [ops_lookupAct, setsOf_pullOps]
  cases rules v <;> cases (pullDecision v).passPkt <;> rfl

end

theorem plain_lookupAct : Plain lookupAct 1 where
  mem := List.mem_singleton_self 1
  lt := by decide
  plain := by
    intro v
    show ∀ op ∈ (lookupActHandler v).ops, op.isPlain = true
    rw [ops_lookupAct]
    unfold pullOps
    cases testPort v.inputPort 2 <;> cases rules v <;> cases (pullDecision v).passPkt <;>
      simp [PortOp.isPlain]
  length_le := by
    intro v
    show (setsOf 1 (lookupActHandler v).ops).length ≤ 1
    rw [setsOf_lookupAct]
    split <;> simp
  signal := fun _ => rfl

theorem hasDecision_afterFlit (st : LookupState) (f : Flit) :
    (afterFlit st f).hasDecision = (st.hasDecision && !f.eop) := by
  unfold afterFlit
  cases f.eop with
  | false => simp
  | true => cases st.passPkt <;> simp

theorem passPkt_afterFlit (st : LookupState) (f : Flit) :
    (afterFlit st f).passPkt = st.passPkt := by
  unfold afterFlit
  split
  · split <;> rfl
  · rfl

/-! ## Runs -/

section
variable (packets : List (List Flit)) (decisions : List Flit)

/-- The environment: the packets come in on port 1 and the decisions on port 2, each at its own
pace. -/
def Offered (s : KernelState LookupState Flit) : KernelAction Flit → Prop
  | .produce p f =>
    (p = 1 → s.arrived 1 ++ [f] <+: packets.flatten) ∧ (p = 2 → s.arrived 2 ++ [f] <+: decisions)
  | _ => True

/-- The flits that may pass among the first `n`: those of the packets whose own decisions have
lane 1 non-zero. -/
def allowed (n : Nat) : List Flit :=
  (((labelled packets decisions).take n).filter fun x => passes x.2).map Prod.fst

/-- In this state what was passed on is what the packets' own decisions allow; a decision has
been taken for each packet that has ended and for the one being ruled, and for no other; when
all has been taken, the packets allowed are out. -/
structure Ruled (s : KernelState LookupState Flit) : Prop where
  sent : s.sent 1 = allowed packets decisions (s.taken 1).length
  own : (s.taken 2).length
    = (s.taken 1).countP Flit.eop + if s.locals.state.hasDecision then 1 else 0
  complete : s.taken 1 = packets.flatten →
    s.sent 1 = ((packets.zip decisions).filter fun x => passes x.2).flatMap Prod.fst
  lossless : Lossless 1 s

/-- The condition on a step: a handler call finds no decision while the element holds one. -/
def OneDecision (s : KernelState LookupState Flit) : KernelAction Flit → Prop
  | .kernel =>
    match s.pc with
    | .body => s.locals.hasSignal = false → testPort s.locals.inputPort 2 = true →
        s.locals.state.hasDecision = false
    | _ => True
  | _ => True

instance (s : KernelState LookupState Flit) : ∀ a, Decidable (OneDecision s a)
  | .kernel =>
    show Decidable (match s.pc with
      | .body => s.locals.hasSignal = false → testPort s.locals.inputPort 2 = true →
          s.locals.state.hasDecision = false
      | _ => True) from
      match s.pc with
      | .body => inferInstance
      | .head => isTrue trivial
      | .readIn _ => isTrue trivial
      | .writeOut _ => isTrue trivial
  | .produce _ _ => isTrue trivial
  | .consume _ => isTrue trivial
  | .post _ => isTrue trivial

instance (s : KernelState LookupState Flit) : ∀ a, Decidable (Offered packets decisions s a)
  | .produce _ _ => inferInstanceAs (Decidable (_ ∧ _))
  | .kernel => isTrue trivial
  | .consume _ => isTrue trivial
  | .post _ => isTrue trivial

/-- What holds in every state of a run that the packets and decisions are offered to; a decision
held is the last one taken. -/
structure Offering (s : KernelState LookupState Flit) : Prop where
  packets : s.arrived 1 <+: packets.flatten
  decisions : s.arrived 2 <+: decisions
  inputs : Inputs s
  writes : WritesOnce s
  held : s.locals.state.hasDecision = true →
    ∃ d, (s.taken 2).getLast? = some d ∧ s.locals.state.passPkt = passes d

end

section
variable {packets : List (List Flit)} {decisions : List Flit} {s t : KernelState LookupState Flit}

/-- The decision that a call rules by. -/
theorem held_pullDecision (h : s.locals.state.hasDecision = true →
      ∃ d, (s.taken 2).getLast? = some d ∧ s.locals.state.passPkt = passes d)
    (hhas : (pullDecision (viewOf s.locals)).hasDecision = true) :
    ∃ d, (s.taken 2 ++ takenIn 2 (viewOf s.locals) (lookupActHandler (viewOf s.locals))).getLast?
        = some d ∧ (pullDecision (viewOf s.locals)).passPkt = passes d := by
  rw [takenIn_two]
  unfold pullDecision at hhas ⊢
  split at hhas
  · rename_i h2
    rw [if_pos h2, if_pos h2]
    exact ⟨_, List.getLast?_concat, rfl⟩
  · rename_i h2
    rw [if_neg h2, if_neg h2, List.append_nil]
    exact h hhas

theorem offered_arrived {a : KernelAction Flit} (h : Offering packets decisions s)
    (henv : Offered packets decisions s a) (hs : kstep lookupAct s a = some t) :
    t.arrived 1 <+: packets.flatten ∧ t.arrived 2 <+: decisions := by
  by_cases ha : a = .kernel
  · subst ha
    cases hs
    rw [arrived_kernelStep]
    exact ⟨h.packets, h.decisions⟩
  · obtain ⟨-, -, -, -, hports⟩ := env_step ha hs
    refine ⟨?_, ?_⟩
    · rcases hports 1 with ⟨-, heq⟩ | ⟨f, rfl, heq⟩
      · rw [heq]
        exact h.packets
      · rw [heq]
        exact henv.1 rfl
    · rcases hports 2 with ⟨-, heq⟩ | ⟨f, rfl, heq⟩
      · rw [heq]
        exact h.decisions
      · rw [heq]
        exact henv.2 rfl

theorem offering_step {a : KernelAction Flit} (h : Offering packets decisions s)
    (henv : Offered packets decisions s a) (hs : kstep lookupAct s a = some t) :
    Offering packets decisions t where
  packets := (offered_arrived h henv hs).1
  decisions := (offered_arrived h henv hs).2
  inputs := inputs_step h.inputs hs
  writes := writesOnce_step h.writes hs
  held := by
    rcases records_step hs with ⟨-, -, rfl⟩ | ⟨-, hrec⟩
    · rw [state_bodyStep, taken_bodyStep]
      cases hsig : s.locals.hasSignal with
      | true =>
        have hbody : bodyResult lookupAct s.locals = lookupActSignal (viewOf s.locals) := by
          simp [bodyResult, hsig, lookupAct]
        rw [hbody]
        simpa [lookupActSignal, takenIn, viewOf] using h.held
      | false =>
        have hbody : bodyResult lookupAct s.locals = lookupActHandler (viewOf s.locals) :=
          bodyResult_of_noSignal hsig
        rw [hbody, state_lookupAct]
        intro hhas
        cases hrules : rules (viewOf s.locals) with
        | true =>
          rw [hrules, if_pos rfl, hasDecision_afterFlit] at hhas
          rw [if_pos rfl, passPkt_afterFlit]
          exact held_pullDecision h.held (Bool.and_eq_true_iff.mp hhas).1
        | false =>
          rw [hrules] at hhas
          exact held_pullDecision h.held hhas
    · rw [hrec.state, hrec.taken]
      exact h.held

theorem allowed_succ {n : Nat} {f d : Flit} (h : (labelled packets decisions)[n]? = some (f, d)) :
    allowed packets decisions (n + 1)
      = allowed packets decisions n ++ if passes d then [f] else [] := by
  unfold allowed
  rw [List.take_add_one, h, List.filter_append, List.map_append]
  cases hd : passes d <;> simp [hd]

theorem allowed_all (hlen : decisions.length = packets.length) :
    allowed packets decisions packets.flatten.length
      = ((packets.zip decisions).filter fun x => passes x.2).flatMap Prod.fst := by
  have hfull : (labelled packets decisions).length = packets.flatten.length := by
    rw [← map_fst_labelled hlen, List.length_map]
  unfold allowed
  rw [← hfull, List.take_length]
  exact filter_labelled passes packets decisions

/-- The decision found or held at the place of the packet being ruled is that packet's own. -/
theorem own_body (hsig : s.locals.hasSignal = false) (hpc : s.pc = .body)
    (hown : (s.taken 2).length
      = (s.taken 1).countP Flit.eop + if s.locals.state.hasDecision then 1 else 0)
    (hok : OneDecision s .kernel) :
    ((bodyStep lookupAct s).taken 2).length = (s.taken 1).countP Flit.eop
      + if (pullDecision (viewOf s.locals)).hasDecision then 1 else 0 := by
  rw [taken_bodyStep, bodyResult_of_noSignal hsig]
  show (s.taken 2 ++ takenIn 2 _ (lookupActHandler _)).length = _
  rw [takenIn_two]
  unfold OneDecision at hok
  rw [hpc] at hok
  unfold pullDecision
  cases h2 : testPort s.locals.inputPort 2 with
  | true =>
    have hfree := hok hsig h2
    rw [hfree] at hown
    simpa [viewOf, h2] using hown
  | false => simpa [viewOf, h2] using hown

/-- A call that meets the condition rules by the packet's own decision. -/
theorem ruled_body (hframed : ∀ P ∈ packets, Framed Flit.eop P) (hsig : s.locals.hasSignal = false)
    (hpc : s.pc = .body) (hw : Offering packets decisions (bodyStep lookupAct s))
    (hheld : s.locals.state.hasDecision = true →
      ∃ d, (s.taken 2).getLast? = some d ∧ s.locals.state.passPkt = passes d)
    (hsent : s.sent 1 = allowed packets decisions (s.taken 1).length)
    (hown : (s.taken 2).length
      = (s.taken 1).countP Flit.eop + if s.locals.state.hasDecision then 1 else 0)
    (hok : OneDecision s .kernel) :
    (bodyStep lookupAct s).sent 1
        = allowed packets decisions ((bodyStep lookupAct s).taken 1).length ∧
      ((bodyStep lookupAct s).taken 2).length = ((bodyStep lookupAct s).taken 1).countP Flit.eop
        + if (bodyStep lookupAct s).locals.state.hasDecision then 1 else 0 := by
  have hown' := own_body hsig hpc hown hok
  have hbody : bodyResult lookupAct s.locals = lookupActHandler (viewOf s.locals) :=
    bodyResult_of_noSignal hsig
  have hflits : (bodyStep lookupAct s).taken 1 <+: packets.flatten :=
    (taken_begins_arrived hw.inputs 1).trans hw.packets
  have hruling : (bodyStep lookupAct s).taken 2 <+: decisions :=
    (taken_begins_arrived hw.inputs 2).trans hw.decisions
  rw [hown', sent_bodyStep, state_bodyStep, hbody, setsOf_lookupAct, state_lookupAct]
  rw [taken_bodyStep, hbody, takenIn_one] at hflits ⊢
  cases hrules : rules (viewOf s.locals) with
  | false => simp [hsent]
  | true =>
    have hhas := (Bool.and_eq_true_iff.mp hrules).1
    obtain ⟨d, hlast, hpass⟩ := held_pullDecision hheld hhas
    rw [hrules, if_pos rfl] at hflits
    rw [if_pos hhas] at hown'
    rw [if_pos rfl, if_pos hhas, if_pos rfl, List.length_append, List.length_singleton,
      List.countP_append, List.countP_singleton, hasDecision_afterFlit, hhas, hpass, hsent]
    -- the flit's own decision is the last one taken
    obtain ⟨later, hlater⟩ := hflits
    obtain ⟨rest, hrest⟩ := hruling
    have hflit : packets.flatten[(s.taken 1).length]? = some ((viewOf s.locals).inputData 1) := by
      rw [← hlater]
      simp
    have hdecision : decisions[(packets.flatten.take (s.taken 1).length).countP Flit.eop]?
        = some d := by
      have htake : packets.flatten.take (s.taken 1).length = s.taken 1 := by
        rw [← hlater]
        simp
      have hlast' : ((bodyStep lookupAct s).taken 2).getLast? = some d := by
        rw [taken_bodyStep, hbody]
        exact hlast
      rw [List.getLast?_eq_getElem?, hown', Nat.add_sub_cancel] at hlast'
      rw [htake, ← hrest, List.getElem?_append_left (by rw [hown']; exact Nat.lt_succ_self _)]
      exact hlast'
    rw [allowed_succ (getElem?_labelled hframed hflit hdecision)]
    refine ⟨by simp, ?_⟩
    cases Flit.eop ((viewOf s.locals).inputData 1) <;> simp

theorem oneDecision_of_not_body {a : KernelAction Flit} (h : a = .kernel → s.pc ≠ .body) :
    OneDecision s a := by
  cases a with
  | kernel =>
    have hne := h rfl
    unfold OneDecision
    cases hpc : s.pc with
    | body => exact absurd hpc hne
    | _ => trivial
  | _ => trivial

/-- A call that finds a decision while one is held has taken one too many afterwards. -/
theorem oneDecision_of_own (hpc : s.pc = .body)
    (hown : (s.taken 2).length
      = (s.taken 1).countP Flit.eop + if s.locals.state.hasDecision then 1 else 0)
    (hown' : ((bodyStep lookupAct s).taken 2).length
      = ((bodyStep lookupAct s).taken 1).countP Flit.eop
        + if (bodyStep lookupAct s).locals.state.hasDecision then 1 else 0) :
    OneDecision s .kernel := by
  unfold OneDecision
  rw [hpc]
  intro hsig h2
  by_contra hhas
  have hhas := Bool.eq_true_of_not_eq_false hhas
  have hbody : bodyResult lookupAct s.locals = lookupActHandler (viewOf s.locals) :=
    bodyResult_of_noSignal hsig
  have hpull : (pullDecision (viewOf s.locals)).hasDecision = true := by
    simp [pullDecision, viewOf, h2]
  rw [taken_bodyStep, taken_bodyStep, state_bodyStep, hbody, takenIn_two, takenIn_one,
    state_lookupAct] at hown'
  rw [if_pos (show testPort (viewOf s.locals).inputPort 2 = true from h2)] at hown'
  rw [hhas] at hown
  cases hrules : rules (viewOf s.locals) with
  | false =>
    simp [hrules, hpull] at hown hown'
    omega
  | true =>
    cases heop : Flit.eop ((viewOf s.locals).inputData 1) <;>
      simp [hrules, hasDecision_afterFlit, hpull, heop] at hown hown' <;> omega

/-- **One step rules every packet by its own decision exactly when it meets the condition.** -/
theorem ruled_step (hframed : ∀ P ∈ packets, Framed Flit.eop P)
    (hlen : decisions.length = packets.length) {a : KernelAction Flit}
    (hw : Offering packets decisions s) (henv : Offered packets decisions s a)
    (h : Ruled packets decisions s) (hs : kstep lookupAct s a = some t) :
    Ruled packets decisions t ↔ OneDecision s a ∧ FindsRoom 1 s a := by
  have hkept := (lossless_step hw.writes h.lossless hs).trans
    (portKept_iff_findsRoom plain_lookupAct a)
  have hwt := offering_step hw henv hs
  have hruled : (t.sent 1 = allowed packets decisions (t.taken 1).length ∧
      (t.taken 2).length = (t.taken 1).countP Flit.eop
        + if t.locals.state.hasDecision then 1 else 0) ↔ OneDecision s a := by
    rcases records_step hs with ⟨rfl, hpc, rfl⟩ | ⟨hpc, hrec⟩
    · refine ⟨fun ht => oneDecision_of_own hpc h.own ht.2, fun hok => ?_⟩
      cases hsig : s.locals.hasSignal with
      | false => exact ruled_body hframed hsig hpc hwt hw.held h.sent h.own hok
      | true =>
        -- the signal body only reads the counters
        have hbody : bodyResult lookupAct s.locals = lookupActSignal (viewOf s.locals) := by
          simp [bodyResult, hsig, lookupAct]
        rw [taken_bodyStep, taken_bodyStep, sent_bodyStep, state_bodyStep, hbody]
        simpa [lookupActSignal, takenIn, setsOf, viewOf] using ⟨h.sent, h.own⟩
    · rw [hrec.taken, hrec.sent, hrec.state]
      exact iff_of_true ⟨h.sent, h.own⟩ (oneDecision_of_not_body hpc)
  rw [← hkept, ← hruled]
  constructor
  · intro ht
    exact ⟨⟨ht.sent, ht.own⟩, ht.lossless⟩
  · rintro ⟨⟨hsent, hown⟩, hlossless⟩
    refine ⟨hsent, hown, fun hall => ?_, hlossless⟩
    rw [hsent, hall]
    exact allowed_all hlen

theorem offering_kinit (inCap outCap : Nat → Int) :
    Offering packets decisions (kinit lookupInit inCap outCap) where
  packets := List.nil_prefix
  decisions := List.nil_prefix
  inputs := inputs_kinit lookupInit inCap outCap
  writes := trivial
  held := fun h => absurd h Bool.false_ne_true

theorem ruled_kinit (hlen : decisions.length = packets.length) (inCap outCap : Nat → Int) :
    Ruled packets decisions (kinit lookupInit inCap outCap) where
  sent := rfl
  own := rfl
  complete := by
    intro hall
    rw [← allowed_all hlen, ← hall]
    rfl
  lossless := rfl

end

/-- **When `LookupAct` rules every packet by its own decision.** For all packets and decisions,
all stream capacities, every interleaving in which they become ready, and signals at any time:
in every state of the run the output is what the packets' own decisions allow of the flits
taken, if and only if no handler call finds a decision while one is held and every write
finds room. -/
theorem lookupAct_rules_iff (packets : List (List Flit)) (decisions : List Flit)
    (hframed : ∀ P ∈ packets, Framed Flit.eop P) (hlen : decisions.length = packets.length)
    (inCap outCap : Nat → Int) (as : List (KernelAction Flit))
    (henv : Meets (kstep lookupAct) (Offered packets decisions)
      (kinit lookupInit inCap outCap) as) :
    Along (kstep lookupAct) (Ruled packets decisions) (kinit lookupInit inCap outCap) as ↔
      Meets (kstep lookupAct) (fun s a => OneDecision s a ∧ FindsRoom 1 s a)
        (kinit lookupInit inCap outCap) as :=
  along_iff_meets_of (fun _ _ _ hw henv hs => offering_step hw henv hs)
    (fun _ _ _ hw h henv hs => ruled_step hframed hlen hw henv h hs) as henv
    (offering_kinit inCap outCap) (ruled_kinit hlen inCap outCap)

/-- A packet of one flit and the decision that blocks it, both ready at once. -/
theorem lookupAct_rules_blocked :
    Along (kstep lookupAct) (Ruled [[⟨Vector.replicate 64 255⟩]] [{}])
      (kinit lookupInit (fun _ => 2) (fun _ => 2))
      (.produce 1 ⟨Vector.replicate 64 255⟩ :: .produce 2 {} :: List.replicate 7 .kernel) :=
  (lookupAct_rules_iff [[⟨Vector.replicate 64 255⟩]] [{}]
    (fun P hP => ⟨[], ⟨Vector.replicate 64 255⟩, List.mem_singleton.mp hP, by decide, by simp⟩)
    rfl (fun _ => 2) (fun _ => 2) _ (by decide)).mpr (by decide)

/-- A packet of two flits that its decision passes, and the next packet, which is blocked: with
the second decision ready early the first packet is cut in half. -/
theorem lookupAct_cuts_packet :
    ¬ ∀ (packets : List (List Flit)) (decisions : List Flit),
      (∀ P ∈ packets, Framed Flit.eop P) → decisions.length = packets.length →
      ∀ (inCap outCap : Nat → Int) (as : List (KernelAction Flit)),
        Meets (kstep lookupAct) (Offered packets decisions) (kinit lookupInit inCap outCap) as →
        Along (kstep lookupAct) (Ruled packets decisions) (kinit lookupInit inCap outCap) as := by
  intro h
  have hruled := (h [[{}, ⟨Vector.replicate 64 255⟩], [⟨Vector.replicate 64 255⟩]]
    [⟨Vector.replicate 64 255⟩, {}]
    (by
      intro P hP
      rcases List.mem_pair.mp hP with rfl | rfl
      · exact ⟨[{}], ⟨Vector.replicate 64 255⟩, rfl, by decide, by decide⟩
      · exact ⟨[], ⟨Vector.replicate 64 255⟩, rfl, by decide, by simp⟩)
    rfl (fun _ => 2) (fun _ => 2)
    (.produce 1 {} :: .produce 2 ⟨Vector.replicate 64 255⟩ :: List.replicate 7 .kernel ++
      .produce 1 ⟨Vector.replicate 64 255⟩ :: .produce 2 {} :: List.replicate 7 .kernel)
    (by decide +kernel)).exec
  have hlen := congrArg List.length hruled.sent
  exact absurd hlen (by decide +kernel)

end OpenClickNP
