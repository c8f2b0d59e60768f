import OpenClickNP.Backend.Transduction
import OpenClickNP.Lib.StoreForward

/-!
# `PacketBuffer.clnp`

The element holds a packet of up to 64 flits back until its eop has come in. A flit that finds the
buffer full is dropped, and so is an eop: a packet of more than 64 flits is never finished, the
buffer stays full, and whatever follows is dropped with it. So all packets of at most 64 flits come
out exactly when no longer one comes before any of them (`packetBuffer_serves_iff`).
-/

namespace OpenClickNP

open Run Frames

/-- The `.state` block. `fill` never exceeds `MAX_FLITS`. -/
structure PacketBufferState where
  pkt : Vector Flit 64
  fill : Nat
  ready : Bool
  emitIdx : Nat
  fill_le : fill ≤ 64

theorem zero_le_maxFlits : 0 ≤ 64 := Nat.zero_le 64

/-- The `.init` block, after the value-initialisation of the state. -/
def packetBufferInit : PacketBufferState where
  pkt := Vector.replicate 64 {}
  fill := 0
  ready := false
  emitIdx := 0
  fill_le := zero_le_maxFlits

/-- `_state.pkt[_state.fill++] = f`, and an eop makes the packet ready. -/
def PacketBufferState.push (st : PacketBufferState) (f : Flit) (h : st.fill < 64) :
    PacketBufferState where
  pkt := st.pkt.set st.fill f
  fill := st.fill + 1
  ready := f.eop || st.ready
  emitIdx := if f.eop then 0 else st.emitIdx
  fill_le := h

/-- The `.handler` block. -/
def packetBufferHandler (v : View PacketBufferState Flit) : BodyResult PacketBufferState Flit :=
  let st := v.state
  if st.ready then
    if h : st.emitIdx < st.fill then
      have hlt : st.emitIdx < 64 := Nat.lt_of_lt_of_le h st.fill_le
      { state := { st with emitIdx := st.emitIdx + 1 }
        ops := [.setOutputPort 1 st.pkt[st.emitIdx]]
        ret := some (PORT_BIT 1) }
    else
      { state := { st with ready := false, fill := 0, emitIdx := 0, fill_le := zero_le_maxFlits }
        ops := []
        ret := some (PORT_BIT 1) }
  else if testPort v.inputPort 1 then
    { -- the flit is read whether or not there is room for it
      state := if h : st.fill < 64 then st.push (v.inputData 1) h else st
      ops := [.clearInputReady (PORT_BIT 1)]
      ret := some (PORT_BIT 1) }
  else { state := st, ops := [], ret := some (PORT_BIT 1) }

def packetBuffer : KernelFn PacketBufferState Flit where
  inPorts := [1]
  outPorts := [1]
  nodup_outPorts := nodup_one
  handler := packetBufferHandler

/-! ## One call -/

/-- What the element is at: it holds the first flits of a packet, or it has flits left to send. -/
inductive Buffering where
  | filling (held : List Flit)
  | sending (left : List Flit)

def PacketBufferState.mode (st : PacketBufferState) : Buffering :=
  if st.ready then .sending ((st.pkt.toList.take st.fill).drop st.emitIdx)
  else .filling (st.pkt.toList.take st.fill)

/-- The flit that a call takes. -/
def Buffering.takes : Buffering → Option Flit → List Flit
  | .filling _, x => x.toList
  | .sending _, _ => []

/-- The flit that a call sends. -/
def Buffering.sends : Buffering → List Flit
  | .filling _ => []
  | .sending left => left.head?.toList

/-- What the element is at after a call. -/
def Buffering.next : Buffering → Option Flit → Buffering
  | .filling held, none => .filling held
  | .filling held, some f =>
    if held.length < 64 then if f.eop then .sending (held ++ [f]) else .filling (held ++ [f])
    else .filling held
  | .sending [], _ => .filling []
  | .sending (_ :: left), _ => .sending left

/-- A call that sends a flit does not finish the packet. -/
theorem sends_of_filling {m : Buffering} {x : Option Flit} {held : List Flit}
    (h : m.next x = .filling held) : m.sends = [] := by
  cases m with
  | filling held => rfl
  | sending left =>
    cases left with
    | nil => rfl
    | cons f left => cases h

theorem length_held (st : PacketBufferState) :
    (st.pkt.toList.take st.fill).length = st.fill := by
  rw [List.length_take, Vector.length_toList, Nat.min_eq_left st.fill_le]

theorem mode_push (st : PacketBufferState) (hready : st.ready = false) (f : Flit)
    (h : st.fill < 64) : (st.push f h).mode =
      if f.eop then .sending (st.pkt.toList.take st.fill ++ [f])
      else .filling (st.pkt.toList.take st.fill ++ [f]) := by
  have htake : (st.pkt.set st.fill f).toList.take (st.fill + 1)
      = st.pkt.toList.take st.fill ++ [f] := by
    rw [Vector.toList_set, List.take_add_one, List.take_set_of_le (Nat.le_refl _),
      List.getElem?_set_self (by simpa using h)]
    rfl
  unfold PacketBufferState.mode PacketBufferState.push
  simp only [hready, Bool.or_false, htake]
  cases f.eop <;> simp

/-- **A call of the handler.** -/
theorem packetBufferHandler_call (v : View PacketBufferState Flit) :
    (packetBufferHandler v).state.mode = v.state.mode.next (offered v) ∧
      takenIn 1 v (packetBufferHandler v) = v.state.mode.takes (offered v) ∧
      setsOf 1 (packetBufferHandler v).ops = v.state.mode.sends := by
  have hlen := length_held v.state
  unfold packetBufferHandler
  cases hready : v.state.ready with
  | true =>
    have hmode : v.state.mode
        = .sending ((v.state.pkt.toList.take v.state.fill).drop v.state.emitIdx) := by
      rw [PacketBufferState.mode, if_pos hready]
    rw [hmode]
    by_cases hidx : v.state.emitIdx < v.state.fill
    · have hlt : v.state.emitIdx < 64 := Nat.lt_of_lt_of_le hidx v.state.fill_le
      have hcons : (v.state.pkt.toList.take v.state.fill).drop v.state.emitIdx
          = v.state.pkt[v.state.emitIdx]
            :: (v.state.pkt.toList.take v.state.fill).drop (v.state.emitIdx + 1) := by
        rw [List.drop_eq_getElem_cons (by rw [hlen]; exact hidx)]
        simp
      simp only [hready, if_true, dif_pos hidx, hcons]
      refine ⟨?_, by simp [takenIn, PortOp.clears, Buffering.takes], rfl⟩
      simp [PacketBufferState.mode, Buffering.next]
    · have hnil : (v.state.pkt.toList.take v.state.fill).drop v.state.emitIdx = [] :=
        List.drop_eq_nil_of_le (by rw [hlen]; exact Nat.not_lt.mp hidx)
      simp only [hready, if_true, dif_neg hidx, hnil]
      refine ⟨?_, by simp [takenIn, Buffering.takes], rfl⟩
      simp [PacketBufferState.mode, Buffering.next]
  | false =>
    have hmode : v.state.mode = .filling (v.state.pkt.toList.take v.state.fill) := by
      rw [PacketBufferState.mode, if_neg (by simp [hready])]
    rw [hmode]
    cases hin : testPort v.inputPort 1 with
    | true =>
      have hoffered : offered v = some (v.inputData 1) := by rw [offered, if_pos hin]
      simp only [hready, Bool.false_eq_true, if_false, if_true, hoffered]
      refine ⟨?_, ?_, rfl⟩
      · rw [Buffering.next, hlen]
        by_cases hfill : v.state.fill < 64
        · rw [dif_pos hfill, if_pos hfill]
          exact mode_push v.state hready _ hfill
        · rw [dif_neg hfill, if_neg hfill, hmode]
      · simp [takenIn, PortOp.clears, Buffering.takes, hin, testPort_PORT_BIT]
    | false =>
      have hoffered : offered v = none := by rw [offered, if_neg (by simp [hin])]
      simp only [hready, Bool.false_eq_true, if_false, hoffered]
      exact ⟨hmode, by simp [takenIn, Buffering.takes], rfl⟩

/-! ## What has been taken and sent -/

/-- Everything released has been sent or is left to send; what is held is held by the element. -/
def Accounted (m : Buffering) (taken sent : List Flit) : Prop :=
  match m with
  | .filling held => stored Flit.eop 64 taken = ⟨sent, held⟩
  | .sending left => stored Flit.eop 64 taken = ⟨sent ++ left, []⟩

theorem stored_append_singleton (xs : List Flit) (f : Flit) :
    stored Flit.eop 64 (xs ++ [f]) = (stored Flit.eop 64 xs).store Flit.eop 64 f := by
  rw [stored, List.foldl_append]
  rfl

/-- **A call keeps the account.** -/
theorem accounted_next {m : Buffering} {taken sent : List Flit} (h : Accounted m taken sent)
    (x : Option Flit) : Accounted (m.next x) (taken ++ m.takes x) (sent ++ m.sends) := by
  cases m with
  | filling held =>
    rw [Buffering.sends, List.append_nil]
    cases x with
    | none =>
      rw [Buffering.takes, Option.toList_none, List.append_nil]
      exact h
    | some f =>
      have hstored : stored Flit.eop 64 (taken ++ [f]) = _ := stored_append_singleton taken f
      rw [show stored Flit.eop 64 taken = _ from h, Stage.store] at hstored
      simp only [Buffering.next]
      by_cases hroom : held.length < 64
      · rw [if_pos hroom] at hstored ⊢
        cases heop : f.eop with
        | true => simpa [Accounted, heop, Buffering.takes] using hstored
        | false => simpa [Accounted, heop, Buffering.takes] using hstored
      · rw [if_neg hroom] at hstored ⊢
        exact hstored
  | sending left =>
    rw [Buffering.takes, List.append_nil]
    have hstored : stored Flit.eop 64 taken = _ := h
    cases left with
    | nil => simpa [Accounted, Buffering.next, Buffering.sends] using hstored
    | cons f left => simpa [Accounted, Buffering.next, Buffering.sends] using hstored

theorem sent_begins_released {m : Buffering} {taken sent : List Flit}
    (h : Accounted m taken sent) : sent <+: (stored Flit.eop 64 taken).released := by
  cases m with
  | filling held =>
    rw [show stored Flit.eop 64 taken = _ from h]
  | sending left =>
    rw [show stored Flit.eop 64 taken = _ from h]
    exact List.prefix_append _ _

/-! ## Runs -/

/-- A packet that fits into the buffer. -/
def FitsBuffer (packet : List Flit) : Bool := packet.length ≤ 64

/-- The condition on a step: what comes in continues the packets `ps`, and a write finds room. -/
def Fills (ps : List (List Flit)) (s : KernelState PacketBufferState Flit) :
    KernelAction Flit → Prop
  | .kernel => WriteFindsRoom s
  | .produce p f => p = 1 → s.arrived 1 ++ [f] <+: ps.flatten
  | _ => True

instance (ps : List (List Flit)) (s : KernelState PacketBufferState Flit) :
    ∀ a, Decidable (Fills ps s a)
  | .kernel => inferInstanceAs (Decidable (WriteFindsRoom s))
  | .produce p f => inferInstanceAs (Decidable (p = 1 → s.arrived 1 ++ [f] <+: ps.flatten))
  | .consume _ => isTrue trivial
  | .post _ => isTrue trivial

/-- The loop is at a place it can be at: only port 1 is left to read or to write. -/
def InLoop : LoopPc → Prop
  | .readIn rest => rest <:+ [1]
  | .writeOut rest => rest <:+ [1]
  | _ => True

/-- What holds in every state of a run. -/
structure Buffered (ps : List (List Flit)) (s : KernelState PacketBufferState Flit) : Prop where
  asked : testPort s.locals.ret 1 = true
  noSignal : s.locals.hasSignal = false
  account : Accounted s.locals.state.mode (s.taken 1) (s.sent 1)
  arrived : s.arrived 1 <+: ps.flatten
  inputs : Inputs s
  inLoop : InLoop s.pc
  writesOnce : WritesOnce s
  lossless : Lossless 1 s
  /-- While the buffer fills everything sent has been written. -/
  settled : ∀ held, s.locals.state.mode = .filling held → emitted 1 s = s.sent 1

section
variable {ps : List (List Flit)} {s t : KernelState PacketBufferState Flit}

theorem presents_packetBuffer : Plain packetBuffer 1 where
  mem := List.mem_singleton_self 1
  lt := by decide
  plain := by
    intro v
    show ∀ op ∈ (packetBufferHandler v).ops, op.isPlain = true
    unfold packetBufferHandler
    simp only []
    split
    · split <;> simp [PortOp.isPlain]
    · split <;> simp [PortOp.isPlain]
  length_le := by
    intro v
    show (setsOf 1 (packetBufferHandler v).ops).length ≤ 1
    rw [(packetBufferHandler_call v).2.2]
    cases v.state.mode with
    | filling held => exact Nat.zero_le 1
    | sending left => cases left <;> simp [Buffering.sends]
  signal := fun _ => rfl

theorem emitted_begins_released (h : Buffered ps s) :
    emitted 1 s <+: (stored Flit.eop 64 (s.taken 1)).released := by
  refine List.IsPrefix.trans ?_ (sent_begins_released h.account)
  rw [show s.sent 1 = _ from h.lossless]
  exact List.prefix_append _ _

theorem buffered_kinit (inCap outCap : Nat → Int) :
    Buffered ps (kinit packetBufferInit inCap outCap) where
  asked := (by decide : testPort PORT_ALL 1 = true)
  noSignal := rfl
  account := rfl
  arrived := List.nil_prefix
  inputs := inputs_kinit _ inCap outCap
  inLoop := trivial
  writesOnce := trivial
  lossless := rfl
  settled := fun _ _ => rfl

theorem only_port {q : Nat} {rest : List Nat} (h : q :: rest <:+ [1]) : q = 1 ∧ rest = [] := by
  rcases List.suffix_cons_iff.mp h with heq | hnil
  · exact List.cons.inj heq
  · cases List.suffix_nil.mp hnil

theorem inLoop_step {a : KernelAction Flit} (h : InLoop s.pc)
    (hs : kstep packetBuffer s a = some t) : InLoop t.pc := by
  by_cases ha : a = .kernel
  · subst ha
    cases hs
    unfold kernelStep
    split
    · unfold recvStep
      exact List.suffix_rfl
    · trivial
    · rename_i q rest hpc
      rw [hpc] at h
      exact (List.suffix_cons q rest).trans h
    · unfold bodyStep
      simp only []
      split
      · trivial
      · exact List.suffix_rfl
    · trivial
    · rename_i q rest hpc
      rw [hpc] at h
      exact (List.suffix_cons q rest).trans h
  · rw [(env_step ha hs).2.1]
    exact h

theorem lossless_of_fills {a : KernelAction Flit} (h : Buffered ps s) (hok : Fills ps s a)
    (hs : kstep packetBuffer s a = some t) : Lossless 1 t := by
  rw [lossless_step h.writesOnce h.lossless hs, portKept_iff_findsRoom presents_packetBuffer]
  cases a with
  | kernel => exact findsRoom_of_write hok 1
  | _ => trivial

theorem arrived_of_fills {a : KernelAction Flit} (h : s.arrived 1 <+: ps.flatten)
    (hok : Fills ps s a) (hs : kstep packetBuffer s a = some t) : t.arrived 1 <+: ps.flatten := by
  by_cases ha : a = .kernel
  · subst ha
    cases hs
    rw [arrived_kernelStep]
    exact h
  · obtain ⟨-, -, -, -, hports⟩ := env_step ha hs
    rcases hports 1 with ⟨-, hsame⟩ | ⟨f, rfl, harrived⟩
    · rw [hsame]
      exact h
    · rw [harrived]
      exact hok rfl

/-- What a body does to a run. -/
structure BodyCall (s t : KernelState PacketBufferState Flit) : Prop where
  mode : t.locals.state.mode = s.locals.state.mode.next (offered (viewOf s.locals))
  taken : t.taken 1 = s.taken 1 ++ s.locals.state.mode.takes (offered (viewOf s.locals))
  sent : t.sent 1 = s.sent 1 ++ s.locals.state.mode.sends
  emitted : emitted 1 t = emitted 1 s
  ret : t.locals.ret = PORT_BIT 1
  pc : t.pc = .writeOut [1]

theorem bodyCall (hsig : s.locals.hasSignal = false) : BodyCall s (bodyStep packetBuffer s) := by
  have hbody : bodyResult packetBuffer s.locals = packetBufferHandler (viewOf s.locals) :=
    bodyResult_of_noSignal hsig
  obtain ⟨hmode, htakes, hsends⟩ := packetBufferHandler_call (viewOf s.locals)
  have hret : (packetBufferHandler (viewOf s.locals)).ret = some (PORT_BIT 1) := by
    unfold packetBufferHandler
    simp only []
    split
    · split <;> rfl
    · split <;> rfl
  refine ⟨?_, ?_, ?_, ?_, ?_, ?_⟩
  · rw [state_bodyStep, hbody]
    exact hmode
  · rw [taken_bodyStep, hbody, htakes]
    rfl
  · rw [sent_bodyStep, hbody, hsends]
    rfl
  · unfold bodyStep
    simp only [hsig]
    rfl
  · unfold bodyStep
    simp only [hsig, hbody, Bool.false_eq_true, if_false, runRecorded, runBody, hret,
      Option.getD_some]
  · unfold bodyStep
    simp only [hsig]
    rfl

/-- **One step.** A body keeps the account because its call does; the other steps of the kernel and
those of the world outside do not touch it. -/
theorem buffered_step {a : KernelAction Flit} (h : Buffered ps s) (hok : Fills ps s a)
    (hs : kstep packetBuffer s a = some t) : Buffered ps t := by
  have hlossless := lossless_of_fills h hok hs
  have harrived := arrived_of_fills h.arrived hok hs
  have hinputs := inputs_step h.inputs hs
  have hloop := inLoop_step h.inLoop hs
  have hwrites := writesOnce_step h.writesOnce hs
  have hsig := hasSignal_step rfl h.noSignal hs
  rcases records_step hs with ⟨rfl, hpc, rfl⟩ | ⟨hpc, hrec⟩
  · have hcall := bodyCall h.noSignal
    refine ⟨?_, hsig, ?_, harrived, hinputs, hloop, hwrites, hlossless, ?_⟩
    · rw [hcall.ret]
      decide
    · rw [hcall.mode, hcall.taken, hcall.sent]
      exact accounted_next h.account _
    · intro held hfilling
      have hsent : s.sent 1 = emitted 1 s := by
        have hkept : s.sent 1 = emitted 1 s ++ pendingOut 1 s := h.lossless
        rw [hkept]
        simp [pendingOut, hpc]
      rw [hcall.mode] at hfilling
      have hsends := sends_of_filling hfilling
      rw [hcall.emitted, hcall.sent, hsends, List.append_nil, hsent]
  · have hret : t.locals.ret = s.locals.ret := by
      by_cases ha : a = .kernel
      · subst ha
        cases hs
        exact (sameBody_kernelStep rfl (hpc rfl)).ret
      · rw [(env_step ha hs).1]
    refine ⟨?_, hsig, ?_, harrived, hinputs, hloop, hwrites, hlossless, ?_⟩
    · rw [hret]
      exact h.asked
    · rw [hrec.state, hrec.taken, hrec.sent]
      exact h.account
    · intro held hfilling
      -- everything sent was written before the step, and a step takes no write back
      rw [hrec.state] at hfilling
      have hmono := emitted_step (p := 1) hs
      rw [h.settled held hfilling, ← hrec.sent, show t.sent 1 = _ from hlossless] at hmono
      have hkept : t.sent 1 = emitted 1 t ++ pendingOut 1 t := hlossless
      rw [hkept]
      exact (List.prefix_append _ _).eq_of_length_le hmono.length_le

/-! ## Progress -/

/-- The calls that are left, besides those that take the flits still to come. -/
def Buffering.cost : Buffering → Nat
  | .filling held => held.length
  | .sending left => left.length + 1

/-- A bound on the calls left: a flit costs one call to take it, one to send it and, if it is an
eop, one to empty the buffer. -/
def boundOnCalls (s : KernelState PacketBufferState Flit) : Nat :=
  3 * ((s.arrived 1).length - (s.taken 1).length) + s.locals.state.mode.cost

theorem cost_mode_le (st : PacketBufferState) : st.mode.cost ≤ 65 := by
  have hlen := length_held st
  have hle := st.fill_le
  unfold PacketBufferState.mode
  split
  · rw [Buffering.cost, List.length_drop]
    omega
  · rw [Buffering.cost]
    omega

theorem cost_next_le (m : Buffering) (x : Option Flit) :
    (m.next x).cost ≤ m.cost + 3 * (m.takes x).length := by
  cases m with
  | filling held =>
    cases x with
    | none => exact Nat.le_add_right _ _
    | some f =>
      simp only [Buffering.next, Buffering.takes, Option.toList_some, List.length_singleton]
      split
      · split <;> simp [Buffering.cost]
      · exact Nat.le_add_right _ _
  | sending left => cases left <;> simp [Buffering.next, Buffering.cost, Buffering.takes]

/-- Only a call that has nothing to take and nothing to send costs nothing. -/
theorem cost_next_lt {m : Buffering} {x : Option Flit}
    (h : ¬ ((∃ held, m = .filling held) ∧ x = none)) :
    (m.next x).cost + 1 ≤ m.cost + 3 * (m.takes x).length := by
  cases m with
  | filling held =>
    cases x with
    | none => exact absurd ⟨⟨held, rfl⟩, rfl⟩ h
    | some f =>
      simp only [Buffering.next, Buffering.takes, Option.toList_some, List.length_singleton]
      split
      · split <;> simp [Buffering.cost]
      · simp [Buffering.cost]
  | sending left => cases left <;> simp [Buffering.next, Buffering.cost, Buffering.takes]

theorem taken_le_arrived (h : Inputs s) : (s.taken 1).length ≤ (s.arrived 1).length :=
  (taken_begins_arrived h 1).length_le

/-- What a call does to the bound, when all its flits have arrived. -/
theorem boundOnCalls_body (h : Buffered ps s) (ht : Inputs (bodyStep packetBuffer s)) :
    boundOnCalls (bodyStep packetBuffer s) ≤ boundOnCalls s ∧
      (¬ ((∃ held, s.locals.state.mode = .filling held) ∧ offered (viewOf s.locals) = none) →
        boundOnCalls (bodyStep packetBuffer s) + 1 ≤ boundOnCalls s) := by
  have hcall := bodyCall h.noSignal
  have hle := taken_le_arrived ht
  have hcost := cost_next_le s.locals.state.mode (offered (viewOf s.locals))
  unfold boundOnCalls
  rw [arrived_bodyStep] at hle ⊢
  rw [hcall.taken, List.length_append] at hle ⊢
  rw [hcall.mode]
  refine ⟨by omega, fun hbusy => ?_⟩
  have hlt := cost_next_lt hbusy
  omega

/-- No flit is waiting on a port that this turn of the loop has read in vain. -/
def Looked (s : KernelState PacketBufferState Flit) : Prop :=
  match s.pc with
  | .readIn rest => 1 ∉ rest → testPort s.locals.inputPort 1 = true ∨ (s.ins 1).q = []
  | .body => testPort s.locals.inputPort 1 = true ∨ (s.ins 1).q = []
  | _ => True

/-- The kernel operations before the next call. -/
def toCall : LoopPc → Nat
  | .body => 0
  | .readIn rest => rest.length + 1
  | .head => 3
  | .writeOut rest => rest.length + 4

theorem toCall_le {pc : LoopPc} (h : InLoop pc) : toCall pc ≤ 5 := by
  cases pc with
  | readIn rest =>
    have hle : rest.length ≤ 1 := List.IsSuffix.length_le h
    rw [toCall]
    omega
  | writeOut rest =>
    have hle : rest.length ≤ 1 := List.IsSuffix.length_le h
    exact Nat.add_le_add_right hle 4
  | head => exact (by decide : 3 ≤ 5)
  | body => exact (by decide : 0 ≤ 5)

theorem toCall_kernelStep (hpc : s.pc ≠ .body) :
    toCall (kernelStep packetBuffer s).pc + 1 = toCall s.pc := by
  unfold kernelStep
  split
  · rename_i hhead
    rw [hhead]
    rfl
  · rename_i hread
    rw [hread]
    rfl
  · rename_i q rest hread
    rw [hread]
    rfl
  · rename_i hbody
    exact absurd hbody hpc
  · rename_i hwrite
    rw [hwrite]
    rfl
  · rename_i q rest hwrite
    rw [hwrite]
    simp only [toCall, List.length_cons]

theorem looked_readPort (hasked : testPort s.locals.ret 1 = true) :
    testPort (readPort s 1).locals.inputPort 1 = true ∨ ((readPort s 1).ins 1).q = [] := by
  unfold readPort
  cases hbit : testPort s.locals.inputPort 1 with
  | true => simp [hbit]
  | false =>
    rw [hasked]
    simp only [Bool.not_false, Bool.and_self, if_true]
    split
    · simp [testPort_or, testPort_PORT_BIT]
    · rename_i stream hread
      exact Or.inr (SwStream.readNb_eq_none hread)

theorem looked_kernelStep (h : Buffered ps s) (hpc : s.pc ≠ .body) (hlooked : Looked s) :
    Looked (kernelStep packetBuffer s) := by
  have hloop := h.inLoop
  unfold kernelStep
  split
  · exact fun hmem => absurd (List.mem_singleton_self 1) hmem
  · rename_i hread
    simp only [Looked, hread] at hlooked
    exact hlooked List.not_mem_nil
  · rename_i q rest hread
    rw [hread] at hloop
    obtain ⟨rfl, rfl⟩ := only_port hloop
    exact fun _ => looked_readPort h.asked
  · rename_i hbody
    exact absurd hbody hpc
  · trivial
  · trivial

/-- What the buffer releases of all the packets. -/
def released (ps : List (List Flit)) : List Flit := (stored Flit.eop 64 ps.flatten).released

/-- Nothing is left to do at a body only when all that is released is out. -/
theorem emitted_of_idle (h : Buffered ps s) (hall : s.arrived 1 = ps.flatten) (hpc : s.pc = .body)
    (hlooked : Looked s) (hfilling : ∃ held, s.locals.state.mode = .filling held)
    (hnone : offered (viewOf s.locals) = none) : emitted 1 s = released ps := by
  obtain ⟨held, hmode⟩ := hfilling
  have hbit : testPort s.locals.inputPort 1 = false := by
    by_contra hbit
    have hsome : offered (viewOf s.locals) = some (s.locals.inputData 1) :=
      if_pos (Bool.eq_true_of_not_eq_false hbit)
    rw [hsome] at hnone
    cases hnone
  have hempty : (s.ins 1).q = [] := by
    simp only [Looked, hpc] at hlooked
    exact hlooked.resolve_left (by simp [hbit])
  have htaken : s.arrived 1 = s.taken 1 := by
    rw [h.inputs 1, hempty]
    simp [latched, hbit]
  have haccount : stored Flit.eop 64 (s.taken 1) = ⟨s.sent 1, held⟩ := by
    have haccount := h.account
    rwa [hmode] at haccount
  rw [h.settled held hmode, released, ← hall, htaken, haccount]

/-- At most `n` kernel operations are needed until all that is released is out. A turn that started
before the last flit came in may be one too many. -/
def Nears (ps : List (List Flit)) (n : Nat) (s : KernelState PacketBufferState Flit) : Prop :=
  Buffered ps s ∧ s.arrived 1 = ps.flatten ∧
    (emitted 1 s = released ps ∨ 6 * (boundOnCalls s + 1) + toCall s.pc ≤ n ∨
      Looked s ∧ 6 * boundOnCalls s + toCall s.pc ≤ n)

theorem emitted_begins (h : Buffered ps s) : emitted 1 s <+: released ps := by
  obtain ⟨rest, hrest⟩ := (taken_begins_arrived h.inputs 1).trans h.arrived
  rw [released, ← hrest]
  exact (emitted_begins_released h).trans (released_begins _ _)

/-- Once all flits have arrived no more come in. -/
theorem at_rest (hall : s.arrived 1 = ps.flatten) {a : KernelAction Flit} (hok : Fills ps s a)
    (ha : a ≠ .kernel) (hs : kstep packetBuffer s a = some t) :
    t.ins 1 = s.ins 1 ∧ t.arrived 1 = s.arrived 1 := by
  obtain ⟨-, -, -, -, hports⟩ := env_step ha hs
  rcases hports 1 with hsame | ⟨f, rfl, -⟩
  · exact hsame
  · have hle := (hok rfl).length_le
    rw [← hall, List.length_append, List.length_singleton] at hle
    omega

def KernelAction.ofKernel {α : Type} : KernelAction α → Bool
  | .kernel => true
  | _ => false

/-- What is out stays out. -/
theorem released_step {a : KernelAction Flit} (h : Buffered ps t)
    (hs : kstep packetBuffer s a = some t) (hout : emitted 1 s = released ps) :
    emitted 1 t = released ps := by
  have hmono := emitted_step (p := 1) hs
  rw [hout] at hmono
  exact (emitted_begins h).eq_of_length_le hmono.length_le

theorem nears_body {n : Nat} (h : Nears ps n s) (hpc : s.pc = .body)
    (hbuf' : Buffered ps (bodyStep packetBuffer s))
    (hs : kstep packetBuffer s .kernel = some (bodyStep packetBuffer s)) :
    Nears ps (n - 1) (bodyStep packetBuffer s) := by
  obtain ⟨hbuf, hall, hleft⟩ := h
  obtain ⟨hle, hlt⟩ := boundOnCalls_body hbuf hbuf'.inputs
  have hpc' := (bodyCall hbuf.noSignal).pc
  have hlooked' : Looked (bodyStep packetBuffer s) := by simp only [Looked, hpc']
  refine ⟨hbuf', by rw [arrived_bodyStep, hall], ?_⟩
  rcases hleft with hdone | hleft
  · exact Or.inl (released_step hbuf' hs hdone)
  simp only [hpc, hpc', toCall, List.length_singleton] at hleft ⊢
  rcases hleft with hstale | ⟨hlooked, hn⟩
  -- the call costs nothing if it found no flit: this was the turn too many
  · exact Or.inr (Or.inr ⟨hlooked', by omega⟩)
  · by_cases hidle : (∃ held, s.locals.state.mode = .filling held) ∧
        offered (viewOf s.locals) = none
    · have hdone := emitted_of_idle hbuf hall hpc hlooked hidle.1 hidle.2
      exact Or.inl (released_step hbuf' hs hdone)
    · have hbusy := hlt hidle
      exact Or.inr (Or.inr ⟨hlooked', by omega⟩)

theorem nears_operation {n : Nat} (h : Nears ps n s) (hpc : s.pc ≠ .body)
    (hrec : SameRecords s t) (hbuf' : Buffered ps t)
    (hs : kstep packetBuffer s .kernel = some t) : Nears ps (n - 1) t := by
  obtain ⟨hbuf, hall, hleft⟩ := h
  have hnear := toCall_kernelStep hpc
  have hlooked' := looked_kernelStep hbuf hpc
  have harrived : t.arrived 1 = s.arrived 1 := by
    cases hs
    rw [arrived_kernelStep]
  have hsame : boundOnCalls t = boundOnCalls s := by
    unfold boundOnCalls
    rw [hrec.state, hrec.taken, harrived]
  refine ⟨hbuf', harrived.trans hall, ?_⟩
  rw [hsame]
  rcases hleft with hdone | hstale | ⟨hlooked, hn⟩
  · exact Or.inl (released_step hbuf' hs hdone)
  · cases hs
    exact Or.inr (Or.inl (by omega))
  · cases hs
    exact Or.inr (Or.inr ⟨hlooked' hlooked, by omega⟩)

theorem nears_outside {n : Nat} {a : KernelAction Flit} (h : Nears ps n s) (hok : Fills ps s a)
    (ha : a ≠ .kernel) (hbuf' : Buffered ps t) (hs : kstep packetBuffer s a = some t) :
    Nears ps n t := by
  obtain ⟨-, hall, hleft⟩ := h
  obtain ⟨hlocals, hpc, htaken, -, -⟩ := env_step ha hs
  obtain ⟨hins, harrived⟩ := at_rest hall hok ha hs
  have hsame : boundOnCalls t = boundOnCalls s := by
    unfold boundOnCalls
    rw [hlocals, htaken, harrived]
  refine ⟨hbuf', harrived.trans hall, ?_⟩
  rw [hsame, hpc]
  rcases hleft with hdone | hstale | ⟨hlooked, hn⟩
  · exact Or.inl (released_step hbuf' hs hdone)
  · exact Or.inr (Or.inl hstale)
  · refine Or.inr (Or.inr ⟨?_, hn⟩)
    unfold Looked at hlooked ⊢
    rw [hpc, hlocals, hins]
    exact hlooked

/-- **Each kernel operation brings the end nearer**, and nothing takes it away. -/
theorem nears_step {n : Nat} {a : KernelAction Flit} (h : Nears ps n s) (hok : Fills ps s a)
    (hs : kstep packetBuffer s a = some t) : Nears ps (n - if a.ofKernel then 1 else 0) t := by
  have hbuf' := buffered_step h.1 hok hs
  by_cases ha : a = .kernel
  · subst ha
    rcases records_step hs with ⟨-, hpc, rfl⟩ | ⟨hpc, hrec⟩
    · exact nears_body h hpc hbuf' hs
    · exact nears_operation h (hpc rfl) hrec hbuf' hs
  · have hcount : a.ofKernel = false := by
      cases a with
      | kernel => exact absurd rfl ha
      | _ => rfl
    rw [hcount]
    exact nears_outside h hok ha hbuf' hs

/-- With no operation left everything is out. -/
theorem emitted_of_nears (h : Nears ps 0 s) : emitted 1 s = released ps := by
  obtain ⟨hbuf, hall, hout | hstale | ⟨hlooked, hn⟩⟩ := h
  · exact hout
  · omega
  · have hpc : s.pc = .body := by
      cases hpc : s.pc with
      | body => rfl
      | _ =>
        rw [hpc] at hn
        simp only [toCall] at hn
        omega
    have hnothing : 3 * ((s.arrived 1).length - (s.taken 1).length)
        + s.locals.state.mode.cost = 0 := by
      unfold boundOnCalls at hn
      omega
    have hlatched : latched s.locals 1 = [] := by
      have hlen := congrArg List.length (hbuf.inputs 1)
      rw [List.length_append, List.length_append] at hlen
      exact List.eq_nil_of_length_eq_zero (by omega)
    apply emitted_of_idle hbuf hall hpc hlooked
    · cases hmode : s.locals.state.mode with
      | filling held => exact ⟨held, rfl⟩
      | sending left =>
        rw [hmode, Buffering.cost] at hnothing
        omega
    · unfold latched at hlatched
      unfold offered
      split at hlatched
      · cases hlatched
      · rename_i hbit
        exact if_neg hbit

/-! ## What the element does to packets -/

/-- The packets that have come in whole and fit. -/
def receivedFrames (s : KernelState PacketBufferState Flit) : List (List Flit) :=
  (complete Flit.eop (s.taken 1)).filter FitsBuffer

/-- The kernel operations that are enough once all of `ps` has arrived. -/
def enough (ps : List (List Flit)) : Nat := 6 * (3 * ps.flatten.length + 67)

/-- What is out is a beginning of the packets that fit and whose eop has been received; and once
all of `ps` has arrived, enough kernel operations bring all that fit out, whole. -/
structure Serves (ps : List (List Flit)) (s : KernelState PacketBufferState Flit) : Prop where
  inOrder : emitted 1 s <+: (receivedFrames s).flatten
  whole : s.arrived 1 = ps.flatten → ∀ as, Meets (kstep packetBuffer) (Fills ps) s as →
    enough ps ≤ as.countP KernelAction.ofKernel →
    emitted 1 (exec (kstep packetBuffer) s as) = (ps.filter FitsBuffer).flatten

/-- No flit is sent before the eop of its packet is received, and none of a packet that does not
fit. -/
theorem inOrder_of_buffered (h : Buffered ps s) : emitted 1 s <+: (receivedFrames s).flatten := by
  refine (emitted_begins_released h).trans ?_
  obtain ⟨frames, rest, hframed, hrest, htaken⟩ := exists_frames Flit.eop (s.taken 1)
  rw [receivedFrames, htaken, released_stored hframed hrest, complete_append hframed hrest]
  exact flatten_prefix (takeWhile_begins_filter _ _)

theorem buffered_of_reaches {inCap outCap : Nat → Int}
    (h : Reaches (kstep packetBuffer) (Fills ps) (kinit packetBufferInit inCap outCap) s) :
    Buffered ps s :=
  h.inv (buffered_kinit inCap outCap) fun _ _ _ hx hok hs => buffered_step hx hok hs

theorem emitted_of_enough (h : Buffered ps s) (hall : s.arrived 1 = ps.flatten)
    {as : List (KernelAction Flit)} (has : Meets (kstep packetBuffer) (Fills ps) s as)
    (hcount : enough ps ≤ as.countP KernelAction.ofKernel) :
    emitted 1 (exec (kstep packetBuffer) s as) = released ps := by
  have hcost := cost_mode_le s.locals.state
  have hbound : 6 * (boundOnCalls s + 1) + toCall s.pc ≤ as.countP KernelAction.ofKernel := by
    have hnear := toCall_le h.inLoop
    unfold enough at hcount
    unfold boundOnCalls
    rw [hall]
    omega
  have hend := Meets.progress KernelAction.ofKernel (fun s a => by cases a <;> rfl)
    (fun n s a t hn hok hs => nears_step hn hok hs) has ⟨h, hall, Or.inr (Or.inl hbound)⟩
  rw [Nat.sub_self] at hend
  exact emitted_of_nears hend

theorem released_eq (h : ∀ p ∈ ps, Framed Flit.eop p) :
    released ps = (ps.takeWhile FitsBuffer).flatten := by
  have hreleased : (stored Flit.eop 64 (ps.flatten ++ [])).released = _ :=
    released_stored h unmarked_nil
  rwa [List.append_nil] at hreleased

/-! ## Runs that bring all packets in and go on -/

/-- A stream that has room takes what comes in. Induction on it. -/
theorem reaches_arrived (fs rest : List Flit) (hps : fs ++ rest = ps.flatten)
    (hs : Reaches (kstep packetBuffer) (Fills ps)
      (kinit packetBufferInit (fun _ => ps.flatten.length + 1) (fun _ => 1)) s)
    (harrived : s.arrived 1 = fs) (hq : (s.ins 1).q = fs)
    (hcap : (s.ins 1).capacity = ps.flatten.length + 1) :
    ∃ t, Reaches (kstep packetBuffer) (Fills ps)
      (kinit packetBufferInit (fun _ => ps.flatten.length + 1) (fun _ => 1)) t ∧
      t.arrived 1 = ps.flatten := by
  induction rest generalizing s fs with
  | nil => exact ⟨s, hs, by rw [harrived, ← hps, List.append_nil]⟩
  | cons f rest ih =>
    have hlen := congrArg List.length hps
    rw [List.length_append, List.length_cons] at hlen
    obtain ⟨hok, hqueue⟩ := (s.ins 1).writeNb_of_room (by rw [hq, hcap]; omega) f
    have hcapacity := (s.ins 1).capacity_writeNb f
    generalize hwrite : (s.ins 1).writeNb f = out at hok hqueue hcapacity
    obtain ⟨ok, stream⟩ := out
    cases hok
    have hstep : kstep packetBuffer s (.produce 1 f) = some (produceStep s 1 f) := rfl
    have hproduce : produceStep s 1 f = { s with
        ins := Function.update s.ins 1 stream
        arrived := Function.update s.arrived 1 (s.arrived 1 ++ [f]) } := by
      unfold produceStep
      rw [hwrite]
    have hfills : Fills ps s (.produce 1 f) := by
      intro _
      rw [harrived, ← hps]
      exact (List.prefix_append_right_inj fs).mpr ⟨rest, rfl⟩
    refine ih (fs ++ [f]) (by rw [List.append_assoc]; exact hps) (hs.tail _ hfills hstep) ?_ ?_ ?_
    · rw [hproduce]
      show Function.update s.arrived 1 (s.arrived 1 ++ [f]) 1 = _
      rw [Function.update_self, harrived]
    · rw [hproduce]
      show (Function.update s.ins 1 stream 1).q = _
      rw [Function.update_self, hqueue, hq]
    · rw [hproduce]
      show (Function.update s.ins 1 stream 1).capacity = _
      rw [Function.update_self, hcapacity, hcap]

/-- The consumer reads before each operation of the kernel. -/
def keepGoing : Nat → List (KernelAction Flit)
  | 0 => []
  | n + 1 => .consume 1 :: .kernel :: keepGoing n

theorem countP_keepGoing (n : Nat) : (keepGoing n).countP KernelAction.ofKernel = n := by
  induction n with
  | zero => rfl
  | succ n ih =>
    rw [keepGoing, List.countP_cons_of_neg (by simp [KernelAction.ofKernel]),
      List.countP_cons_of_pos rfl, ih]

theorem room_consumeStep (s : KernelState PacketBufferState Flit) :
    ((consumeStep s 1).outs 1).q.length < ((consumeStep s 1).outs 1).capacity := by
  have hq := (s.outs 1).q_eq_readNb
  have hcapacity := (s.outs 1).capacity_readNb
  have hle := (s.outs 1).length_le
  have hpos := (s.outs 1).capacity_pos
  unfold consumeStep
  split
  · rename_i f stream hread
    rw [hread] at hq hcapacity
    have hlen := congrArg List.length hq
    rw [List.length_append] at hlen
    simp only [Option.toList_some, List.length_singleton] at hlen hcapacity
    show (Function.update s.outs 1 stream 1).q.length
      < (Function.update s.outs 1 stream 1).capacity
    rw [Function.update_self, hcapacity]
    omega
  · rename_i stream hread
    rw [SwStream.readNb_eq_none hread]
    exact hpos

/-- With such a consumer every write finds room. Induction on the operations. -/
theorem meets_keepGoing (h : Buffered ps s) (n : Nat) :
    Meets (kstep packetBuffer) (Fills ps) s (keepGoing n) := by
  induction n generalizing s with
  | zero => trivial
  | succ n ih =>
    have hconsume := buffered_step (a := .consume 1) h trivial rfl
    have hroom : WriteFindsRoom (consumeStep s 1) := by
      have hloop := hconsume.inLoop
      unfold WriteFindsRoom
      cases hpc : (consumeStep s 1).pc with
      | writeOut rest =>
        cases rest with
        | nil => trivial
        | cons q rest =>
          rw [hpc] at hloop
          obtain ⟨rfl, rfl⟩ := only_port hloop
          exact fun _ => room_consumeStep s
      | _ => trivial
    exact ⟨trivial, hroom, ih (buffered_step hconsume (a := .kernel) hroom rfl)⟩

/-- Packets that are all served are in a good order. -/
theorem pairwise_of_serves (hframed : ∀ p ∈ ps, Framed Flit.eop p)
    (h : ∀ inCap outCap s,
      Reaches (kstep packetBuffer) (Fills ps) (kinit packetBufferInit inCap outCap) s →
      Serves ps s) :
    ps.Pairwise fun p q => FitsBuffer q = true → FitsBuffer p = true := by
  have hcap : (SwStream.ofCapacity (ps.flatten.length + 1) : SwStream Flit).capacity
      = ps.flatten.length + 1 := if_pos (by omega)
  obtain ⟨s, hreach, hall⟩ := reaches_arrived [] ps.flatten rfl .refl rfl rfl hcap
  have hbuf := buffered_of_reaches hreach
  have hmeets := meets_keepGoing hbuf (enough ps)
  have hcount : enough ps ≤ (keepGoing (enough ps)).countP KernelAction.ofKernel :=
    (countP_keepGoing (enough ps)).ge
  have hwhole := (h _ _ s hreach).whole hall _ hmeets hcount
  rw [emitted_of_enough hbuf hall hmeets hcount, released_eq hframed] at hwhole
  exact (flatten_takeWhile_eq_iff hframed FitsBuffer).mp hwhole

end

/-- **When `PacketBuffer` serves its packets.** For every sequence of packets that each end in
their only eop: in every run that brings them in, for all stream capacities and every interleaving
in which every output write is accepted, the element emits all packets of at most 64 flits whole and
in order, no part of any other and no flit before the eop of its packet, if and only if no longer
packet comes before one of at most 64 flits. -/
theorem packetBuffer_serves_iff (ps : List (List Flit)) (hframed : ∀ p ∈ ps, Framed Flit.eop p) :
    (∀ (inCap outCap : Nat → Int) (s : KernelState PacketBufferState Flit),
      Reaches (kstep packetBuffer) (Fills ps) (kinit packetBufferInit inCap outCap) s →
      Serves ps s) ↔
      ps.Pairwise fun p q => FitsBuffer q = true → FitsBuffer p = true := by
  constructor
  · exact pairwise_of_serves hframed
  · intro hpairwise inCap outCap s hreach
    have hbuf := buffered_of_reaches hreach
    refine ⟨inOrder_of_buffered hbuf, fun hall as has hcount => ?_⟩
    rw [emitted_of_enough hbuf hall has hcount, released_eq hframed]
    exact (flatten_takeWhile_eq_iff hframed FitsBuffer).mpr hpairwise

/-- A packet of two flits. -/
theorem packetBuffer_serves_short :
    (∀ (inCap outCap : Nat → Int) (s : KernelState PacketBufferState Flit),
      Reaches (kstep packetBuffer) (Fills [[({} : Flit), Flit.setEop {} true]])
        (kinit packetBufferInit inCap outCap) s →
      Serves [[({} : Flit), Flit.setEop {} true]] s) ↔
    [[({} : Flit), Flit.setEop {} true]].Pairwise fun p q =>
      FitsBuffer q = true → FitsBuffer p = true :=
  packetBuffer_serves_iff [[({} : Flit), Flit.setEop {} true]] (by
    intro p hp
    rw [List.mem_singleton.mp hp, framed_cons_cons_iff, framed_singleton_iff]
    exact ⟨by decide, by decide⟩)

/-- A packet of 65 flits swallows the packet of one flit behind it. -/
theorem packetBuffer_swallows :
    ¬ ∀ ps : List (List Flit), (∀ p ∈ ps, Framed Flit.eop p) →
      ∀ (inCap outCap : Nat → Int) (s : KernelState PacketBufferState Flit),
        Reaches (kstep packetBuffer) (Fills ps) (kinit packetBufferInit inCap outCap) s →
        Serves ps s := by
  intro h
  have hframed : ∀ p ∈ [List.replicate 64 ({} : Flit) ++ [Flit.setEop {} true],
      [Flit.setEop {} true]], Framed Flit.eop p := by
    intro p hp
    rcases List.mem_cons.mp hp with rfl | hp
    · refine ⟨_, _, rfl, by decide, fun y hy => ?_⟩
      rw [List.eq_of_mem_replicate hy]
      decide
    · rw [List.mem_singleton.mp hp, framed_singleton_iff]
      decide
  have hpairwise := pairwise_of_serves hframed (h _ hframed)
  have hfits := (List.pairwise_cons.mp hpairwise).1 _ List.mem_cons_self rfl
  exact absurd hfits (by simp [FitsBuffer])

end OpenClickNP
