import OpenClickNP.Backend.Transduction
import OpenClickNP.Lib.Framing

/-!
# `CheckSopEop.clnp`

The element forwards what comes in, and sends an error flit to port 2 for a sop inside a packet
and for an eop outside of one. A flit with neither flag it never objects to, also where no packet
is open. So it accepts what the framing of packets allows exactly when each flit with neither flag
stands inside a packet, or the flits with a flag break the framing by themselves
(`checkSopEop_accepts_iff`).
-/

namespace OpenClickNP

open Run FlagFraming

/-! ## The element -/

/-- The `.state` block. -/
structure CheckSopEopState where
  inPacket : Bool
  errors : UInt64

/-- The `.init` block. -/
def checkSopEopInit : CheckSopEopState where
  inPacket := false
  errors := 0

/-- The flit for port 2. -/
def errorFlit (errors : UInt64) : Flit :=
  ((({} : Flit).set 0 errors).setSop true).setEop true

/-- `if (f.sop()) { .. }`. -/
def CheckSopEopState.onSop (st : CheckSopEopState) (f : Flit) :
    CheckSopEopState × List (PortOp Flit) :=
  if f.sop then
    if st.inPacket then
      ({ inPacket := true, errors := st.errors + 1 }, [.setOutputPort 2 (errorFlit st.errors)])
    else ({ st with inPacket := true }, [])
  else (st, [])

/-- `if (f.eop()) { .. }`. -/
def CheckSopEopState.onEop (st : CheckSopEopState) (f : Flit) :
    CheckSopEopState × List (PortOp Flit) :=
  if f.eop then
    if !st.inPacket then
      ({ inPacket := false, errors := st.errors + 1 }, [.setOutputPort 2 (errorFlit st.errors)])
    else ({ st with inPacket := false }, [])
  else (st, [])

/-- The `.handler` block. -/
def checkSopEopHandler (v : View CheckSopEopState Flit) : BodyResult CheckSopEopState Flit :=
  let f := v.inputData 1
  if testPort v.inputPort 1 then
    let atSop := v.state.onSop f
    let atEop := atSop.1.onEop f
    { state := atEop.1
      ops := .clearInputReady (PORT_BIT 1) :: (atSop.2 ++ atEop.2 ++ [.setOutputPort 1 f])
      ret := some (PORT_BIT 1) }
  else { state := v.state, ops := [], ret := some (PORT_BIT 1) }

/-- The `.signal` block: the count is read. -/
def checkSopEopSignal (v : View CheckSopEopState Flit) : BodyResult CheckSopEopState Flit where
  state := v.state
  ops := []
  ret := none
  outevent := { v.event with lparam := Function.update v.event.lparam 0 v.state.errors }

theorem nodup_one_two : ([1, 2] : List Nat).Nodup := by decide

def checkSopEop : KernelFn CheckSopEopState Flit where
  inPorts := [1]
  outPorts := [1, 2]
  nodup_outPorts := nodup_one_two
  hasSignal := true
  handler := checkSopEopHandler
  signal := checkSopEopSignal

/-! ## One flit -/

/-- What the state and port 2 say of the flits with a flag: the framing automaton has read them, or
an error has been sent. -/
def Tracks (st : CheckSopEopState) (errs : List Flit) : Option Bool → Prop
  | some inPacket => st.inPacket = inPacket ∧ errs = []
  | none => errs ≠ []

/-- The automaton on a flit with a flag; the element lets the others pass. -/
def nextFlagged (reached : Option Bool) (f : Flit) : Option Bool :=
  if flagged Flit.sop Flit.eop f then next Flit.sop Flit.eop reached f else reached

/-- **The element makes an error of a flit exactly when the automaton gets stuck on it.** -/
theorem tracks_next {st : CheckSopEopState} {errs : List Flit} {reached : Option Bool}
    (h : Tracks st errs reached) (f : Flit) :
    Tracks ((st.onSop f).1.onEop f).1
      (errs ++ setsOf 2 ((st.onSop f).2 ++ ((st.onSop f).1.onEop f).2 ++ [.setOutputPort 1 f]))
      (nextFlagged reached f) := by
  cases reached with
  | none =>
    have hnone : nextFlagged none f = none := by
      unfold nextFlagged
      split <;> rfl
    rw [hnone]
    intro hnil
    exact h (List.append_eq_nil_iff.mp hnil).1
  | some inPacket =>
    obtain ⟨rfl, rfl⟩ : st.inPacket = inPacket ∧ errs = [] := h
    -- the four kinds of flits, inside and outside of a packet
    cases hsop : f.sop <;> cases heop : f.eop <;> cases hin : st.inPacket <;>
      simp [nextFlagged, flagged, next, CheckSopEopState.onSop, CheckSopEopState.onEop, Tracks,
        setsOf, hsop, heop, hin]

theorem checkSopEopHandler_ready {v : View CheckSopEopState Flit}
    (h : testPort v.inputPort 1 = true) :
    checkSopEopHandler v =
      { state := ((v.state.onSop (v.inputData 1)).1.onEop (v.inputData 1)).1
        ops := .clearInputReady (PORT_BIT 1) :: ((v.state.onSop (v.inputData 1)).2
          ++ ((v.state.onSop (v.inputData 1)).1.onEop (v.inputData 1)).2
          ++ [.setOutputPort 1 (v.inputData 1)])
        ret := some (PORT_BIT 1) } := if_pos h

theorem checkSopEopHandler_idle {v : View CheckSopEopState Flit}
    (h : testPort v.inputPort 1 = false) :
    checkSopEopHandler v = { state := v.state, ops := [], ret := some (PORT_BIT 1) } :=
  if_neg (by simp [h])

/-- Only port 2 gets error flits. -/
theorem setsOf_one_errors (st : CheckSopEopState) (f : Flit) :
    setsOf 1 (st.onSop f).2 = [] ∧ setsOf 1 (st.onEop f).2 = [] := by
  constructor
  · unfold CheckSopEopState.onSop
    split
    · split <;> rfl
    · rfl
  · unfold CheckSopEopState.onEop
    split
    · split <;> rfl
    · rfl

/-! ## Runs -/

/-- What holds in every state of a run. -/
structure Checked (s : KernelState CheckSopEopState Flit) : Prop where
  forwarded : s.sent 1 = s.taken 1
  tracks : Tracks s.locals.state (s.sent 2)
    (FlagFraming.run Flit.sop Flit.eop ((s.taken 1).filter (flagged Flit.sop Flit.eop)))

theorem run_filter_append (fs : List Flit) (f : Flit) :
    FlagFraming.run Flit.sop Flit.eop ((fs ++ [f]).filter (flagged Flit.sop Flit.eop))
      = nextFlagged
          (FlagFraming.run Flit.sop Flit.eop (fs.filter (flagged Flit.sop Flit.eop))) f := by
  rw [List.filter_append, FlagFraming.run_append, List.filter_singleton, nextFlagged]
  cases flagged Flit.sop Flit.eop f <;> rfl

/-- **A handler call**, behind what has been taken and sent so far. -/
theorem checked_call (v : View CheckSopEopState Flit) (taken sent : Nat → List Flit)
    (h : sent 1 = taken 1 ∧ Tracks v.state (sent 2)
      (FlagFraming.run Flit.sop Flit.eop ((taken 1).filter (flagged Flit.sop Flit.eop)))) :
    sent 1 ++ setsOf 1 (checkSopEopHandler v).ops
        = taken 1 ++ takenIn 1 v (checkSopEopHandler v) ∧
      Tracks (checkSopEopHandler v).state (sent 2 ++ setsOf 2 (checkSopEopHandler v).ops)
        (FlagFraming.run Flit.sop Flit.eop
          ((taken 1 ++ takenIn 1 v (checkSopEopHandler v)).filter
            (flagged Flit.sop Flit.eop))) := by
  cases hready : testPort v.inputPort 1 with
  | false =>
    rw [checkSopEopHandler_idle hready]
    simpa [takenIn, setsOf] using h
  | true =>
    have htaken : takenIn 1 v (checkSopEopHandler v) = [v.inputData 1] := by
      rw [checkSopEopHandler_ready hready, takenIn, hready]
      simp [PortOp.clears, testPort_PORT_BIT]
    rw [htaken, checkSopEopHandler_ready hready]
    constructor
    · show _ ++ setsOf 1 (_ ++ _ ++ [_]) = _
      rw [setsOf_append, setsOf_append, (setsOf_one_errors _ _).1, (setsOf_one_errors _ _).2, h.1]
      rfl
    · rw [run_filter_append]
      exact tracks_next h.2 _

/-- The signals only read the count, so they are all harmless. -/
theorem checked_exec (inCap outCap : Nat → Int) (as : List (KernelAction Flit)) :
    Checked (exec (kstep checkSopEop) (kinit checkSopEopInit inCap outCap) as) := by
  have hquiet : Quiet (fun _ => True) (kinit checkSopEopInit inCap outCap : KernelState _ Flit) :=
    quiet_of_none rfl rfl
  have hrun := inv_bodies (K := checkSopEop)
    (P := fun st taken sent => sent 1 = taken 1 ∧ Tracks st (sent 2)
      (FlagFraming.run Flit.sop Flit.eop ((taken 1).filter (flagged Flit.sop Flit.eop))))
    checked_call (fun _ => rfl) (fun _ _ _ _ h => h) hquiet (meets_posts (fun _ => trivial) _ as)
    ⟨rfl, rfl, rfl⟩
  exact ⟨hrun.1, hrun.2⟩

/-- A flit with eop alone. -/
theorem exists_closing : ∃ f : Flit, f.sop = false ∧ f.eop = true :=
  ⟨({} : Flit).setEop true, by decide, by decide⟩

/-- No error has been sent exactly when the flits with a flag are framed. -/
theorem no_error_iff {s : KernelState CheckSopEopState Flit} (h : Checked s) : s.sent 2 = [] ↔
    BeginsFramed Flit.sop Flit.eop ((s.taken 1).filter (flagged Flit.sop Flit.eop)) := by
  have htracks := h.tracks
  rw [beginsFramed_iff exists_closing]
  cases hrun : FlagFraming.run Flit.sop Flit.eop
    ((s.taken 1).filter (flagged Flit.sop Flit.eop)) with
  | none =>
    rw [hrun] at htracks
    exact iff_of_false htracks fun h => h rfl
  | some inPacket =>
    rw [hrun] at htracks
    exact iff_of_true htracks.2 (Option.some_ne_none _)

/-- **What `CheckSopEop` accepts.** For all stream capacities and every run, with any signals: what
comes in has been forwarded, and no error has been sent exactly when the flits read begin a
concatenation of packets, if and only if each flit with neither flag stands inside a packet or the
flits with a flag do not begin such a concatenation. -/
theorem checkSopEop_accepts_iff (inCap outCap : Nat → Int) (as : List (KernelAction Flit)) :
    let s := exec (kstep checkSopEop) (kinit checkSopEopInit inCap outCap) as
    (s.sent 1 = s.taken 1 ∧ (s.sent 2 = [] ↔ BeginsFramed Flit.sop Flit.eop (s.taken 1))) ↔
      (BeginsFramed Flit.sop Flit.eop ((s.taken 1).filter (flagged Flit.sop Flit.eop)) →
        Inside Flit.sop Flit.eop (s.taken 1)) := by
  intro s
  have hchecked : Checked s := checked_exec inCap outCap as
  rw [and_iff_right hchecked.forwarded, no_error_iff hchecked,
    beginsFramed_iff_flagged exists_closing (s.taken 1)]
  constructor
  · intro h hflagged
    exact (h.mp hflagged).2
  · intro h
    exact ⟨fun hflagged => ⟨hflagged, h hflagged⟩, And.left⟩

/-- A flit with neither flag is the first to come in. -/
theorem checkSopEop_accepts_stray :
    ¬ ∀ (inCap outCap : Nat → Int) (as : List (KernelAction Flit)),
      let s := exec (kstep checkSopEop) (kinit checkSopEopInit inCap outCap) as
      s.sent 1 = s.taken 1 ∧ (s.sent 2 = [] ↔ BeginsFramed Flit.sop Flit.eop (s.taken 1)) := by
  intro h
  -- one turn of the loop
  obtain ⟨-, haccepts⟩ := h (fun _ => 2) (fun _ => 2) (.produce 1 {} :: List.replicate 4 .kernel)
  have hframed := haccepts.mp rfl
  rw [beginsFramed_iff exists_closing] at hframed
  exact hframed (by decide)

end OpenClickNP
