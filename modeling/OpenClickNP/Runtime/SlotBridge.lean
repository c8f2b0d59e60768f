import OpenClickNP.Lib.KeyedFifo
import OpenClickNP.Shell.SlotRouting

/-!
# `slot_bridge_xdma.cpp` and `slot_bridge_qdma.cpp`: the two host bridges

Both bridges are a queue for each slot. The XDMA bridge writes the slot into each flit it is
given, the QDMA bridge passes flits on as they are: the two give the same answers exactly when
every flit that is taken already carries its slot (`bridgesAgree_iff`).
-/

namespace OpenClickNP

open KeyedFifo (Op Result outputs received receivedOn sentTo)

/-- A call of the interface `SlotBridge`. -/
inductive SlotCall where
  | send (slot : UInt16) (f : Flit)
  | recv (slot : UInt16) (blocking : Bool)

/-! ## `QdmaBridge` -/

/-- `queues_(64)`: one queue for each slot. -/
structure QdmaBridge where
  queues : List (List Flit) := List.replicate 64 []
  length_queues : queues.length = 64 := by rfl

namespace QdmaBridge

/-- `send(slot, f)`: the result and the bridge afterwards. -/
def send (b : QdmaBridge) (slot : UInt16) (f : Flit) : Bool × QdmaBridge :=
  if slot.toNat ≥ b.queues.length then (false, b)
  else
    (true,
      { queues := b.queues.modify slot.toNat (· ++ [f])
        length_queues := by rw [List.length_modify, b.length_queues] })

/-- `recv(slot, out, blocking)`: the flit taken, if any. A blocking call only waits before it
looks at the queue. -/
def recv (b : QdmaBridge) (slot : UInt16) : Option Flit × QdmaBridge :=
  if slot.toNat ≥ b.queues.length then (none, b)
  else
    match b.queues.getD slot.toNat [] with
    | [] => (none, b)
    | f :: rest =>
      (some f,
        { queues := b.queues.set slot.toNat rest
          length_queues := by rw [List.length_set, b.length_queues] })

/-- A call and its answer. -/
def call (b : QdmaBridge) : SlotCall → Result Flit × QdmaBridge
  | .send slot f => (.sent (b.send slot f).1, (b.send slot f).2)
  | .recv slot _ => (.received (b.recv slot).1, (b.recv slot).2)

end QdmaBridge

/-- A call and its answer. -/
def XdmaBridge.call (b : XdmaBridge) : SlotCall → Result Flit × XdmaBridge
  | .send slot f => (.sent (b.send slot f).1, (b.send slot f).2)
  | .recv slot _ => (.received (b.recv slot).1, (b.recv slot).2)

/-! ## The bridges as queues with keys -/

/-- The slots for which a bridge has a queue. -/
def hasQueue (slot : UInt16) : Bool := decide (slot.toNat < 64)

theorem hasQueue_iff {slot : UInt16} : hasQueue slot = true ↔ slot.toNat < 64 :=
  decide_eq_true_iff

/-- A call as an operation on queues with keys: waiting is not one. -/
def SlotCall.op : SlotCall → Op UInt16 Flit
  | .send slot f => .send slot f
  | .recv slot _ => .recv slot

/-- What waits for each slot. -/
def slotQueue (queues : List (List Flit)) (slot : UInt16) : List Flit :=
  queues.getD slot.toNat []

section

variable {queues : List (List Flit)} {slot : UInt16}

theorem slotQueue_set (h : slot.toNat < queues.length) (l : List Flit) :
    slotQueue (queues.set slot.toNat l) = Function.update (slotQueue queues) slot l := by
  funext s
  unfold slotQueue
  by_cases hs : s = slot
  · subst hs
    simp [List.getD_eq_getElem?_getD, h]
  · have hne : slot.toNat ≠ s.toNat := fun heq => hs (UInt16.toNat_inj.mp heq.symm)
    rw [Function.update_of_ne hs, List.getD_eq_getElem?_getD, List.getElem?_set_ne hne,
      List.getD_eq_getElem?_getD]

theorem slotQueue_modify (h : slot.toNat < queues.length) (f : Flit) :
    slotQueue (queues.modify slot.toNat (· ++ [f]))
      = Function.update (slotQueue queues) slot (slotQueue queues slot ++ [f]) := by
  rw [← slotQueue_set h, List.modify_eq_set_getElem?, List.getElem?_eq_getElem h, slotQueue,
    List.getD_eq_getElem _ _ h]
  rfl

end

/-- The empty queues of a new bridge. -/
theorem slotQueue_new : slotQueue (List.replicate 64 []) = fun _ => [] := by
  funext s
  rw [slotQueue, List.getD_eq_getElem?_getD, List.getElem?_replicate]
  split <;> rfl

/-- The XDMA bridge is the queues that tag a flit with its slot. -/
theorem XdmaBridge.call_step (b : XdmaBridge) (c : SlotCall) :
    (b.call c).1
        = (KeyedFifo.step hasQueue (fun s f => f.setSlotId s) (slotQueue b.queues) c.op).1 ∧
      slotQueue (b.call c).2.queues
        = (KeyedFifo.step hasQueue (fun s f => f.setSlotId s) (slotQueue b.queues) c.op).2 := by
  have hlen := b.length_queues
  cases c with
  | send slot f =>
    rw [SlotCall.op, call, send]
    by_cases hs : hasQueue slot = true
    · have hlt := hasQueue_iff.mp hs
      rw [KeyedFifo.step_send hs, if_neg (by omega)]
      exact ⟨rfl, slotQueue_modify (by omega) _⟩
    · rw [KeyedFifo.step_send_of_not hs, if_pos (by rw [hasQueue_iff] at hs; omega)]
      exact ⟨rfl, rfl⟩
  | recv slot blocking =>
    rw [SlotCall.op, call]
    unfold recv
    by_cases hs : hasQueue slot = true
    · have hlt := hasQueue_iff.mp hs
      rw [KeyedFifo.step_recv hs, if_neg (by omega), ← slotQueue]
      cases hq : slotQueue b.queues slot with
      | nil => exact ⟨rfl, (Function.update_eq_self_iff.mpr hq.symm).symm⟩
      | cons f rest => exact ⟨rfl, slotQueue_set (by omega) rest⟩
    · rw [KeyedFifo.step_recv_of_not hs, if_pos (by rw [hasQueue_iff] at hs; omega)]
      exact ⟨rfl, rfl⟩

/-- The two bridges have the same `recv`. -/
theorem QdmaBridge.recv_eq (b : QdmaBridge) (slot : UInt16) :
    (b.recv slot).1 = (XdmaBridge.recv ⟨b.queues, b.length_queues⟩ slot).1 ∧
      (b.recv slot).2.queues = (XdmaBridge.recv ⟨b.queues, b.length_queues⟩ slot).2.queues := by
  unfold recv XdmaBridge.recv
  split
  · exact ⟨rfl, rfl⟩
  · cases b.queues.getD slot.toNat [] with
    | nil => exact ⟨rfl, rfl⟩
    | cons f rest => exact ⟨rfl, rfl⟩

/-- The QDMA bridge is the plain queues. -/
theorem QdmaBridge.call_step (b : QdmaBridge) (c : SlotCall) :
    (b.call c).1 = (KeyedFifo.step hasQueue (fun _ f => f) (slotQueue b.queues) c.op).1 ∧
      slotQueue (b.call c).2.queues
        = (KeyedFifo.step hasQueue (fun _ f => f) (slotQueue b.queues) c.op).2 := by
  have hlen := b.length_queues
  cases c with
  | send slot f =>
    rw [SlotCall.op, call, send]
    by_cases hs : hasQueue slot = true
    · have hlt := hasQueue_iff.mp hs
      rw [KeyedFifo.step_send hs, if_neg (by omega)]
      exact ⟨rfl, slotQueue_modify (by omega) f⟩
    · rw [KeyedFifo.step_send_of_not hs, if_pos (by rw [hasQueue_iff] at hs; omega)]
      exact ⟨rfl, rfl⟩
  | recv slot blocking =>
    obtain ⟨htaken, hqueues⟩ := b.recv_eq slot
    obtain ⟨hresult, hnext⟩ :=
      XdmaBridge.call_step ⟨b.queues, b.length_queues⟩ (.recv slot blocking)
    exact ⟨(congrArg Result.received htaken).trans hresult,
      (congrArg slotQueue hqueues).trans hnext⟩

/-- The answers of a new QDMA bridge. -/
theorem QdmaBridge.outputs_call (cs : List SlotCall) :
    outputs call {} cs
      = outputs (KeyedFifo.step hasQueue fun _ f => f) (fun _ => []) (cs.map SlotCall.op) :=
  KeyedFifo.outputs_eq_of_simulates (fun b q => slotQueue b.queues = q)
    (fun b _ c hsim => hsim ▸ b.call_step c) slotQueue_new cs

/-- The answers of a new XDMA bridge. -/
theorem XdmaBridge.outputs_call (cs : List SlotCall) :
    outputs call {} cs
      = outputs (KeyedFifo.step hasQueue fun s f => f.setSlotId s) (fun _ => [])
          (cs.map SlotCall.op) :=
  KeyedFifo.outputs_eq_of_simulates (fun b q => slotQueue b.queues = q)
    (fun b _ c hsim => hsim ▸ b.call_step c) slotQueue_new cs

/-! ## Agreement -/

/-- The flits received on each slot begin the flits sent to it. -/
def InOrder (cs : List SlotCall) (rs : List (Result Flit)) : Prop :=
  ∀ slot, receivedOn slot (cs.map SlotCall.op) rs <+: sentTo slot (cs.map SlotCall.op)

/-- New bridges answer the calls alike, and both deliver in order. -/
def BridgesAgree (cs : List SlotCall) : Prop :=
  outputs XdmaBridge.call {} cs = outputs QdmaBridge.call {} cs ∧
    InOrder cs (outputs XdmaBridge.call {} cs) ∧ InOrder cs (outputs QdmaBridge.call {} cs)

/-- Every flit that a queue for each slot hands out was sent with its slot written in it. -/
def TakenCarrySlot (cs : List SlotCall) : Prop :=
  ∀ sf ∈ received (cs.map SlotCall.op)
      (outputs (KeyedFifo.step hasQueue fun _ f => f) (fun _ => []) (cs.map SlotCall.op)),
    sf.2.slotId = sf.1

theorem setSlotId_eq_self_iff (f : Flit) (s : UInt16) : f.setSlotId s = f ↔ f.slotId = s := by
  constructor
  · intro h
    rw [← h, Flit.slotId_setSlotId]
  · intro h
    rw [← h, Flit.setSlotId_slotId]

/-- **When the two bridges agree.** For every sequence of calls, the two bridges give the same
answers and both deliver each slot's flits in order exactly when every flit that is taken carries
its slot. -/
theorem bridgesAgree_iff (cs : List SlotCall) : BridgesAgree cs ↔ TakenCarrySlot cs := by
  have hanswers :
      outputs XdmaBridge.call {} cs = outputs QdmaBridge.call {} cs ↔ TakenCarrySlot cs := by
    rw [XdmaBridge.outputs_call, QdmaBridge.outputs_call]
    have htags := KeyedFifo.outputs_tagged_iff hasQueue
      (fun (s : UInt16) (f : Flit) => f.setSlotId s) (fun _ => []) (cs.map SlotCall.op)
    exact htags.trans (forall₂_congr fun sf _ => setSlotId_eq_self_iff sf.2 sf.1)
  have horder : InOrder cs (outputs QdmaBridge.call {} cs) := by
    intro slot
    rw [QdmaBridge.outputs_call]
    have hbegins := KeyedFifo.receivedOn_begins hasQueue (fun _ f => f) slot
      (cs.map SlotCall.op)
    rwa [List.map_id'] at hbegins
  rw [BridgesAgree, ← hanswers]
  constructor
  · exact fun h => h.1
  · exact fun h => ⟨h, h ▸ horder, horder⟩

/-- A flit sent without a slot id comes back from the XDMA bridge with one, and from the QDMA
bridge without. -/
theorem bridges_differ :
    ¬ BridgesAgree [.send 7 {}, .recv 7 false] := by
  rintro ⟨h, -⟩
  revert h
  decide

end OpenClickNP
