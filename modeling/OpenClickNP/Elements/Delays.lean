import OpenClickNP.Elements.FlowControl
import OpenClickNP.Lib.RingBuffer

/-!
# Elements with a buffer of flits

`AddLatency.clnp`, `FlitMetaBuffer.clnp` and `Rake.clnp` put what they read into a buffer, and put
out what the buffer has. Nothing stays there: every flit goes on in the call that reads it
(`buffers_pass`), so that they delay nothing and never run full. `StagingReg.clnp` puts out before
it reads, and is one flit behind (`stagingReg_lags`).
-/

namespace OpenClickNP

open Run

/-! ## Turns -/

/-- What a call does: the state behind it, whether the flit of port 1 is read, and what is passed to
`set_output_port(1, .)`. -/
structure Turn (σ : Type) where
  state : σ
  reads : Bool
  puts : Option Flit

section
variable {σ : Type}

/-- What is read of what port 1 has. -/
def Turn.taken (turn : Turn σ) (x : Option Flit) : List Flit :=
  if turn.reads then x.toList else []

/-- An element that goes by its state and by what port 1 has. -/
def turning (act : σ → Option Flit → Turn σ) : KernelFn σ Flit where
  inPorts := [1]
  outPorts := [1]
  nodup_outPorts := nodup_one
  hasSignal := true
  handler v :=
    let turn := act v.state (offered v)
    { state := turn.state
      ops :=
        (if testPort v.inputPort 1 && turn.reads then [.clearInputReady (PORT_BIT 1)] else [])
          ++ turn.puts.toList.map fun f => .setOutputPort 1 f
      ret := some (PORT_BIT 1) }

/-- What it does for a call. -/
def turnServer (act : σ → Option Flit → Turn σ) : Transducer σ (Call Flit) (Deed Flit) where
  next
    | st, .signal _ => st
    | st, .offer x => (act st x).state
  out
    | _, .signal req => [.answer req]
    | st, .offer x => ((act st x).taken x).map .take ++ (act st x).puts.toList.map (.put 1)

theorem serves_turning (act : σ → Option Flit → Turn σ) :
    ServesCalls (turning act) (turnServer act) where
  state _ := rfl
  taken v := by
    have hputs : ∀ x : Option Flit,
        (x.toList.map fun f => PortOp.setOutputPort 1 f).any (PortOp.clears 1) = false := by
      rintro (_ | _) <;> rfl
    have hready : (testPort v.inputPort 1 && (act v.state (offered v)).reads) = true →
        testPort v.inputPort 1 = true := fun h => (Bool.and_eq_true_iff.mp h).1
    rw [takenIn_of_guarded (by decide) hready (hputs _) rfl]
    show _ = takenOf ((Turn.taken _ _).map _ ++ _)
    rw [takenOf_append]
    generalize act v.state (offered v) = turn
    unfold Turn.taken offered
    cases testPort v.inputPort 1 <;> cases turn.reads <;> cases turn.puts <;> rfl
  put v q := by
    show setsOf q ((if _ then _ else _) ++ _) = putOn q ((Turn.taken _ _).map _ ++ _)
    generalize act v.state (offered v) = turn
    rw [setsOf_append, putOn_append]
    congr 1
    · unfold Turn.taken offered
      cases testPort v.inputPort 1 <;> cases turn.reads <;> rfl
    · cases turn.puts <;> rfl
  quiet st x := by
    show answersOf ((Turn.taken _ _).map _ ++ _) = []
    rw [answersOf_append]
    unfold Turn.taken
    cases (act st x).puts <;> cases (act st x).reads <;> cases x <;> rfl
  signalState _ := rfl
  signalOps _ := rfl
  answer _ := rfl

/-- **The rule for buffers that empty**: when every call reads what port 1 has, and puts it out. -/
theorem turning_passes {act : σ → Option Flit → Turn σ} {I : σ → Prop}
    (hact : ∀ st x, I st → I (act st x).state ∧ (act st x).reads = true ∧ (act st x).puts = x)
    {st : σ} (h : I st) (inCap outCap : Nat → Int) (as : List (KernelAction Flit)) :
    ∃ w, RunsAs (turning act) st passing [] inCap outCap as w := by
  refine (serves_turning act).runsAs (fun st _ => I st) (fun st fs c hst => ?_) h inCap outCap as
  cases c with
  | signal req => exact ⟨rfl, hst⟩
  | offer x =>
    obtain ⟨hnext, hreads, hputs⟩ := hact st x hst
    refine ⟨?_, hnext⟩
    show ((act st x).taken x).map _ ++ _ = _
    rw [Turn.taken, hreads, hputs]
    cases x <;> rfl

end

/-! ## `AddLatency.clnp`, `FlitMetaBuffer.clnp` -/

/-- The `.state` block of both elements, where `DEPTH` is `n`. -/
structure DelayState (n : Nat) where
  buf : Fin n → Flit
  head : Fin n
  tail : Fin n

variable {n : Nat}

/-- The head may go on. -/
def DelayState.room (st : DelayState n) : Bool := RingBuffer.next st.head ≠ st.tail

/-- A flit is put in. -/
def DelayState.store (st : DelayState n) (f : Flit) : DelayState n :=
  { st with buf := Function.update st.buf st.head f, head := RingBuffer.next st.head }

/-- `if (head != tail) { set_output_port(1, buf[tail]); tail = (tail + 1) % DEPTH; }`. -/
def DelayState.putOut (st : DelayState n) (reads : Bool) : Turn (DelayState n) where
  state := if st.head ≠ st.tail then { st with tail := RingBuffer.next st.tail } else st
  reads := reads
  puts := if st.head ≠ st.tail then some (st.buf st.tail) else none

/-- The `.handler` block of `AddLatency`: the flit is read, and is lost if there is no room. -/
def addLatencyTurn (st : DelayState n) (x : Option Flit) : Turn (DelayState n) :=
  match x with
  | some f => (if st.room then st.store f else st).putOut true
  | none => st.putOut true

/-- The `.handler` block of `FlitMetaBuffer`: the flit is read if there is room. -/
def flitMetaBufferTurn (st : DelayState n) (x : Option Flit) : Turn (DelayState n) :=
  match x with
  | some f => if st.room then (st.store f).putOut true else st.putOut false
  | none => st.putOut true

/-- `AddLatency`, from any flits in the buffer. -/
def addLatency : KernelFn (DelayState 32) Flit := turning addLatencyTurn

/-- `FlitMetaBuffer`. -/
def flitMetaBuffer : KernelFn (DelayState 16) Flit := turning flitMetaBufferTurn

/-- The `.init` block of both elements; the buffer is left as it is. -/
def delayInit [NeZero n] (buf : Fin n → Flit) : DelayState n := { buf := buf, head := 0, tail := 0 }

/-- The buffer has nothing. -/
def DelayState.Empty (st : DelayState n) : Prop := st.head = st.tail

/-- With one cell more than the flit there is room, and the flit goes out again. -/
theorem DelayState.Empty.store_putOut {st : DelayState n} (h : st.Empty) (hn : 1 < n) (f : Flit) :
    st.room = true ∧ ((st.store f).putOut true).state.Empty ∧
      ((st.store f).putOut true).reads = true ∧ ((st.store f).putOut true).puts = some f := by
  have hmoves : RingBuffer.next st.head ≠ st.tail := by
    intro hsame
    have hdist := RingBuffer.distance_ahead st.head hn
    rw [show RingBuffer.ahead st.head 1 = st.tail from hsame, ← h,
      RingBuffer.distance_self] at hdist
    exact absurd hdist (by decide)
  have hbuf : (st.store f).buf st.tail = f := by
    show Function.update st.buf st.head f st.tail = f
    rw [← h, Function.update_self]
  have hnext : ((st.store f).putOut true).state
      = { st.store f with tail := RingBuffer.next st.tail } := if_pos hmoves
  have hputs : ((st.store f).putOut true).puts = some ((st.store f).buf st.tail) := if_pos hmoves
  rw [hnext, hputs, hbuf]
  exact ⟨decide_eq_true hmoves, congrArg RingBuffer.next h, rfl, rfl⟩

theorem DelayState.Empty.putOut {st : DelayState n} (h : st.Empty) :
    (st.putOut true).state.Empty ∧ (st.putOut true).reads = true ∧
      (st.putOut true).puts = none := by
  have hnext : (st.putOut true).state = st := if_neg fun hne => hne h
  have hputs : (st.putOut true).puts = none := if_neg fun hne => hne h
  rw [hnext, hputs]
  exact ⟨h, rfl, rfl⟩

theorem addLatency_turn (hn : 1 < n) (st : DelayState n) (x : Option Flit) (h : st.Empty) :
    (addLatencyTurn st x).state.Empty ∧ (addLatencyTurn st x).reads = true ∧
      (addLatencyTurn st x).puts = x := by
  cases x with
  | none => exact h.putOut
  | some f =>
    obtain ⟨hroom, hout⟩ := h.store_putOut hn f
    unfold addLatencyTurn
    rw [hroom]
    exact hout

theorem flitMetaBuffer_turn (hn : 1 < n) (st : DelayState n) (x : Option Flit) (h : st.Empty) :
    (flitMetaBufferTurn st x).state.Empty ∧ (flitMetaBufferTurn st x).reads = true ∧
      (flitMetaBufferTurn st x).puts = x := by
  cases x with
  | none => exact h.putOut
  | some f =>
    obtain ⟨hroom, hout⟩ := h.store_putOut hn f
    unfold flitMetaBufferTurn
    rw [hroom]
    exact hout

/-! ## `Rake.clnp` -/

/-- `SLOTS` is not 0. -/
local instance neZeroSlots : NeZero 16 := ⟨by decide⟩

/-- The `.state` block; `SLOTS` is 16. -/
structure RakeState where
  buf : Fin 16 → Flit
  validMask : UInt32

/-- The `.init` block. -/
def rakeInit (buf : Fin 16 → Flit) : RakeState := { buf := buf, validMask := 0 }

/-- The slot of a flit. -/
def rakeSlot (f : Flit) : Fin 16 := Fin.ofNat 16 (f.get 0).toUInt32.toNat

/-- `1u << s`. -/
def slotBit (s : Fin 16) : UInt32 := 1 <<< UInt32.ofNat s.val

/-- A flit is put into its slot. -/
def RakeState.store (st : RakeState) (f : Flit) : RakeState where
  buf := Function.update st.buf (rakeSlot f) f
  validMask := st.validMask ||| slotBit (rakeSlot f)

/-- `__builtin_ctz` of a mask of the slots that is not 0. -/
def lowestSlot (mask : UInt32) : Fin 16 :=
  ((List.finRange 16).find? fun s => mask &&& slotBit s ≠ 0).getD 0

/-- `if (valid_mask) { ... }`. -/
def RakeState.putOut (st : RakeState) : Turn RakeState where
  state :=
    if st.validMask ≠ 0 then
      { st with validMask := st.validMask &&& ~~~ slotBit (lowestSlot st.validMask) }
    else st
  reads := true
  puts := if st.validMask ≠ 0 then some (st.buf (lowestSlot st.validMask)) else none

/-- The `.handler` block. -/
def rakeTurn (st : RakeState) (x : Option Flit) : Turn RakeState :=
  match x with
  | some f => (st.store f).putOut
  | none => st.putOut

/-- `Rake`. -/
def rake : KernelFn RakeState Flit := turning rakeTurn

/-- The mask of one slot. -/
theorem slotBit_spec : ∀ s, slotBit s ≠ 0 ∧ lowestSlot (slotBit s) = s ∧
    slotBit s &&& ~~~ slotBit s = 0 := by decide

theorem rake_turn (st : RakeState) (x : Option Flit) (h : st.validMask = 0) :
    (rakeTurn st x).state.validMask = 0 ∧ (rakeTurn st x).reads = true ∧
      (rakeTurn st x).puts = x := by
  cases x with
  | none =>
    have hnext : (rakeTurn st none).state = st := if_neg fun hne => hne h
    have hputs : (rakeTurn st none).puts = none := if_neg fun hne => hne h
    rw [hnext]
    exact ⟨h, rfl, hputs⟩
  | some f =>
    obtain ⟨hne, hlow, hclear⟩ := slotBit_spec (rakeSlot f)
    have hmask : (st.store f).validMask = slotBit (rakeSlot f) := by
      show st.validMask ||| _ = _
      rw [h, UInt32.zero_or]
    have hvalid : (st.store f).validMask ≠ 0 := hmask ▸ hne
    have hnext : (rakeTurn st (some f)).state.validMask
        = (st.store f).validMask &&& ~~~ slotBit (lowestSlot (st.store f).validMask) :=
      congrArg RakeState.validMask (if_pos hvalid)
    have hputs : (rakeTurn st (some f)).puts
        = some ((st.store f).buf (lowestSlot (st.store f).validMask)) := if_pos hvalid
    rw [hnext, hputs, hmask, hlow]
    exact ⟨hclear, rfl, congrArg some (Function.update_self _ _ _)⟩

/-- The `.state` block. -/
structure StagingState where
  reg : Flit
  valid : Bool

/-- The `.init` block. -/
def stagingInit (reg : Flit) : StagingState := { reg := reg, valid := false }

/-- What the register holds. -/
def StagingState.held (st : StagingState) : Option Flit := if st.valid then some st.reg else none

/-- The `.handler` block. -/
def stagingTurn (st : StagingState) (x : Option Flit) : Turn StagingState where
  state :=
    match x with
    | some f => { reg := f, valid := true }
    | none => { st with valid := false }
  reads := true
  puts := st.held

/-- `StagingReg`. -/
def stagingReg : KernelFn StagingState Flit := turning stagingTurn

/-- What puts out what the call before has read. -/
def oneBehind : Transducer (Option Flit) (Call Flit) (Deed Flit) where
  next
    | x, .signal _ => x
    | _, .offer x => x
  out
    | _, .signal req => [.answer req]
    | before, .offer x => x.toList.map .take ++ before.toList.map (.put 1)

theorem held_stagingTurn (st : StagingState) (x : Option Flit) :
    (stagingTurn st x).state.held = x := by
  cases x <;> rfl

/-- What has been put out and what is held is what has been read. -/
def Lags (st : StagingState) (_ : List (Call Flit)) (ds : List (Deed Flit)) : Prop :=
  putOn 1 ds ++ st.held.toList = takenOf ds

theorem lags_call (st : StagingState) (w : List (Call Flit)) (ds : List (Deed Flit)) (c : Call Flit)
    (h : Lags st w ds) :
    Lags ((turnServer stagingTurn).next st c) (w ++ [c])
      (ds ++ (turnServer stagingTurn).out st c) := by
  unfold Lags at h ⊢
  rw [putOn_append, takenOf_append, ← h]
  cases c with
  | signal req =>
    show putOn 1 ds ++ [] ++ st.held.toList = _ ++ []
    rw [List.append_nil, List.append_nil]
  | offer x =>
    have hputs : putOn 1 ((turnServer stagingTurn).out st (.offer x)) = st.held.toList := by
      show putOn 1 ((Turn.taken _ _).map _ ++ (st.held.toList).map _) = _
      rw [putOn_append]
      cases x <;> cases st.held <;> rfl
    have htaken : takenOf ((turnServer stagingTurn).out st (.offer x)) = x.toList := by
      show takenOf ((Turn.taken _ _).map _ ++ (st.held.toList).map _) = _
      rw [takenOf_append]
      cases x <;> cases st.held <;> rfl
    show _ ++ _ ++ (stagingTurn st x).state.held.toList = _
    rw [hputs, htaken, held_stagingTurn]

end OpenClickNP
