import OpenClickNP.Backend.Transduction
import OpenClickNP.Lib.QueueBank

/-!
# `MultiFIFO.clnp`

Sixteen ring buffers share an input and an output port. Lane 0 says which of them a flit goes to;
the output looks for one that is not empty, from the one behind the last that was served. A call is
a step of a bank of sixteen queues (`steps_multiFifo`), whose capacity is 31 since a ring of 32
cells keeps one free.
-/

namespace OpenClickNP

open Run RingBuffer QueueBank

/-! ## The element -/

/-- The `.state` block. The indices are below `DEPTH`, `pending` is below `SLOTS`. -/
structure MultiFifoState where
  buf : Fin 16 → Fin 32 → Flit
  head : Fin 16 → Fin 32
  tail : Fin 16 → Fin 32
  pending : Fin 16

theorem cells_pos : 0 < 32 := by decide

/-- The `.init` block, after the value-initialisation of the state. -/
def multiFifoInit : MultiFifoState where
  buf := fun _ _ => {}
  head := fun _ => ⟨0, cells_pos⟩
  tail := fun _ => ⟨0, cells_pos⟩
  pending := 0

theorem slotOf_lt (f : Flit) : (f.get 0).toUInt32.toNat % 16 < 16 := Nat.mod_lt _ (by decide)

/-- `static_cast<uint32_t>(f.get(0)) % _state.SLOTS`. -/
def slotOf (f : Flit) : Fin 16 := ⟨(f.get 0).toUInt32.toNat % 16, slotOf_lt f⟩

namespace MultiFifoState

/-- The branch that accepts a flit, after `read_input_port`. -/
def push (st : MultiFifoState) (f : Flit) : MultiFifoState :=
  let s := slotOf f
  -- one place of the ring stays free, so that a full queue is not taken for an empty one
  let nxt := next (st.head s)
  if nxt ≠ st.tail s then
    { st with
      buf := Function.update st.buf s (Function.update (st.buf s) (st.head s) f)
      head := Function.update st.head s nxt }
  else st

/-- The slot at which the loop breaks off. -/
def scan (st : MultiFifoState) : Option (Fin 16) :=
  (around st.pending).find? fun s => st.head s != st.tail s

/-- The turn of the loop that breaks off, after `set_output_port`. -/
def pop (st : MultiFifoState) (s : Fin 16) : MultiFifoState :=
  { st with tail := Function.update st.tail s (next (st.tail s)), pending := next s }

end MultiFifoState

/-- The `.handler` block. -/
def multiFifoHandler (v : View MultiFifoState Flit) : BodyResult MultiFifoState Flit :=
  let st := if testPort v.inputPort 1 then v.state.push (v.inputData 1) else v.state
  let read := if testPort v.inputPort 1 then [.clearInputReady (PORT_BIT 1)] else []
  match st.scan with
  | some s =>
    { state := st.pop s
      ops := read ++ [.setOutputPort 1 (st.buf s (st.tail s))]
      ret := some (PORT_BIT 1) }
  | none => { state := st, ops := read, ret := some (PORT_BIT 1) }

/-- `MultiFIFO`. -/
def multiFifo : KernelFn MultiFifoState Flit where
  inPorts := [1]
  outPorts := [1]
  nodup_outPorts := nodup_one
  handler := multiFifoHandler

/-! ## The queues -/

namespace MultiFifoState

/-- The queues that the rings stand for. -/
def bank (st : MultiFifoState) : Bank 16 Flit where
  queues s := contents (st.buf s) (st.head s) (st.tail s)
  pending := st.pending

variable {st : MultiFifoState}

theorem queues_bank (st : MultiFifoState) (s : Fin 16) :
    st.bank.queues s = contents (st.buf s) (st.head s) (st.tail s) := rfl

/-- All queues are empty at the start. -/
theorem queues_multiFifoInit (s : Fin 16) : multiFifoInit.bank.queues s = [] :=
  contents_eq_nil.mpr rfl

/-- A flit joins its queue, unless this one holds 31. -/
theorem bank_push (st : MultiFifoState) (f : Flit) :
    (st.push f).bank = accept 31 slotOf st.bank (some f) := by
  have hfull : next (st.head (slotOf f)) = st.tail (slotOf f) ↔
      (st.bank.queues (slotOf f)).length = 31 := by
    have hlen : next (st.head (slotOf f)) = st.tail (slotOf f) ↔ (contents (st.buf (slotOf f))
        (st.head (slotOf f)) (st.tail (slotOf f))).length + 1 = 32 := full_iff
    rw [queues_bank, hlen]
    omega
  -- the source compares positions, the bank counts flits
  unfold push accept
  simp only []
  by_cases hnext : next (st.head (slotOf f)) = st.tail (slotOf f)
  · rw [if_neg (fun hne => hne hnext), if_pos (hfull.mp hnext)]
  · rw [if_pos hnext, if_neg (mt hfull.mpr hnext)]
    unfold bank
    congr 1
    funext s
    by_cases hs : s = slotOf f
    · subst hs
      simp only [Function.update_self]
      exact contents_push hnext f
    · simp only [Function.update_of_ne hs]

/-- The loop finds no slot only where all queues are empty. -/
theorem empty_of_scan (h : st.scan = none) (s : Fin 16) : st.bank.queues s = [] := by
  have hsame : (st.head s != st.tail s) = false := find?_around_eq_none h s
  rw [queues_bank, contents_eq_nil]
  simpa using hsame

/-- The oldest flit of the queue found goes out, and the other queues stay as they are. -/
theorem drain_of_scan {s : Fin 16} (h : st.scan = some s) :
    Drain st.bank (some (st.buf s (st.tail s))) (st.pop s).bank := by
  obtain ⟨hs, hnearest⟩ := find?_around_eq_some h
  have hne : st.head s ≠ st.tail s := bne_iff_ne.mp hs
  have hbank : (st.pop s).bank =
      { queues := Function.update st.bank.queues s
          (contents (st.buf s) (st.head s) (next (st.tail s)))
        pending := next s } := by
    unfold bank pop
    congr 1
    funext t
    by_cases ht : t = s
    · subst ht
      simp only [Function.update_self]
    · simp only [Function.update_of_ne ht]
  rw [hbank]
  refine Drain.serve s _ _ (contents_pop hne) fun t ht => hnearest t ?_
  rw [bne_iff_ne]
  exact fun heq => ht (contents_eq_nil.mpr heq)

end MultiFifoState

/-! ## The element as a machine -/

namespace MultiFifoState

/-- The state behind the first branch. -/
def fill (st : MultiFifoState) (x : Option Flit) : MultiFifoState := x.elim st st.push

/-- The state behind the loop. -/
def drained (st : MultiFifoState) : MultiFifoState := st.scan.elim st st.pop

/-- What the loop sends, if anything. -/
def sends (st : MultiFifoState) : Option Flit := st.scan.map fun s => st.buf s (st.tail s)

theorem drain_drained (st : MultiFifoState) : Drain st.bank st.sends st.drained.bank := by
  unfold sends drained
  cases h : st.scan with
  | some s => exact drain_of_scan h
  | none => exact Drain.idle (empty_of_scan h)

/-- **A call is a step of the bank.** -/
theorem step_bank (st : MultiFifoState) (x : Option Flit) :
    Step 31 slotOf st.bank x (st.fill x).sends (st.fill x).drained.bank := by
  have hfill : (st.fill x).bank = accept 31 slotOf st.bank x := by
    cases x with
    | some f => exact st.bank_push f
    | none => rfl
  unfold Step
  rw [← hfill]
  exact drain_drained _

end MultiFifoState

def multiFifoMachine : Transducer MultiFifoState (Option Flit) Flit where
  next st x := (st.fill x).drained
  out st x := (st.fill x).sends.toList

/-- The handler on what it finds on its port. -/
theorem handler_multiFifo (v : View MultiFifoState Flit) :
    (multiFifo.handler v).state = (v.state.fill (offered v)).drained ∧
      (multiFifo.handler v).ret = some (PORT_BIT 1) ∧
      (multiFifo.handler v).ops
        = (if testPort v.inputPort 1 = true then [.clearInputReady (PORT_BIT 1)] else [])
          ++ (v.state.fill (offered v)).sends.toList.map (.setOutputPort 1) := by
  have hfill : (if testPort v.inputPort 1 then v.state.push (v.inputData 1) else v.state)
      = v.state.fill (offered v) := by
    unfold offered
    split <;> rfl
  show (multiFifoHandler v).state = _ ∧ (multiFifoHandler v).ret = _ ∧ (multiFifoHandler v).ops = _
  unfold multiFifoHandler MultiFifoState.drained MultiFifoState.sends
  simp only [hfill]
  cases (v.state.fill (offered v)).scan with
  | some s => exact ⟨rfl, rfl, rfl⟩
  | none => exact ⟨rfl, rfl, (List.append_nil _).symm⟩

theorem transduces_multiFifo : Transduces multiFifo id (fun _ => True) multiFifoMachine where
  inPorts := rfl
  outPorts := rfl
  returns v := (handler_multiFifo v).2.1
  state v := (handler_multiFifo v).1
  taken v := by
    rw [takenIn_of_guarded (by decide) id ?_ (handler_multiFifo v).2.2, offered]
    · split <;> rfl
    · cases (v.state.fill (offered v)).sends <;> rfl
  sets v := by
    rw [setsOf_of_guarded 1 1 (handler_multiFifo v).2.2]
    show _ = (v.state.fill (offered v)).sends.toList
    cases (v.state.fill (offered v)).sends <;> rfl
  signalState _ _ := rfl
  signalOps _ := rfl
  signalRet _ := rfl

/-- The machine makes steps of the bank. Induction from the back of the calls. -/
theorem steps_multiFifo (st : MultiFifoState) (xs : List (Option Flit)) :
    ∃ ys : List (Option Flit), ys.reduceOption = multiFifoMachine.output st xs ∧
      Steps 31 slotOf st.bank xs ys (multiFifoMachine.state st xs).bank := by
  induction xs using List.reverseRecOn with
  | nil => exact ⟨[], rfl, Steps.start⟩
  | append_singleton xs x ih =>
    obtain ⟨ys, hys, hsteps⟩ := ih
    refine ⟨ys ++ [((multiFifoMachine.state st xs).fill x).sends], ?_, ?_⟩
    · rw [List.reduceOption_append, hys, Transducer.output_append, List.reduceOption_singleton,
        Transducer.output_cons, Transducer.output_nil, List.append_nil]
      rfl
    · rw [Transducer.state_append]
      exact Steps.step hsteps (MultiFifoState.step_bank _ x)

/-- **`MultiFIFO` is a bank of sixteen queues of capacity 31.** From every state, whatever a call
finds on its port, it reads; the call is a step of the bank. So is every run, for all stream
capacities and whatever comes in at what time. -/
theorem multiFifo_refines :
    (∀ v : View MultiFifoState Flit, ∃ y : Option Flit,
      takenIn 1 v (multiFifo.handler v) = (offered v).toList ∧
        setsOf 1 (multiFifo.handler v).ops = y.toList ∧
        Step 31 slotOf v.state.bank (offered v) y (multiFifo.handler v).state.bank) ∧
    ∀ (st : MultiFifoState) (inCap outCap : Nat → Int) (as : List (KernelAction Flit)),
      let xs := calls multiFifo (kinit st inCap outCap) as
      let s := exec (kstep multiFifo) (kinit st inCap outCap) as
      ∃ ys : List (Option Flit), s.taken 1 = xs.reduceOption ∧ s.sent 1 = ys.reduceOption ∧
        Steps 31 slotOf st.bank xs ys s.locals.state.bank := by
  constructor
  · intro v
    have hstate : (multiFifo.handler v).state = _ := transduces_multiFifo.state v
    refine ⟨_, transduces_multiFifo.taken v, transduces_multiFifo.sets v, ?_⟩
    rw [hstate]
    exact MultiFifoState.step_bank v.state (offered v)
  · intro st inCap outCap as xs s
    have hrun := transduces_multiFifo.run (quiet_of_none rfl rfl)
      (meets_posts (fun _ => trivial) (kinit st inCap outCap) as)
    obtain ⟨ys, hys, hsteps⟩ := steps_multiFifo st xs
    have hstate : s.locals.state = multiFifoMachine.state st xs := hrun.state
    refine ⟨ys, hrun.taken, ?_, ?_⟩
    · rw [hys]
      exact hrun.sent
    · rw [hstate]
      exact hsteps

end OpenClickNP
