import OpenClickNP.Backend.HandlerCalls
import OpenClickNP.Runtime.Aes128
import OpenClickNP.Runtime.Packets

/-!
# `AES_CTR.clnp`

The element keeps its own counter. It hands it to `aes128_ctr_xcrypt` for the two blocks of each
flit, which advances a copy, and then counts it up itself, so that it is where the copy would be
if all payloads were one text (`aesCtr_stream`).
-/

namespace OpenClickNP

open Run Aes

/-- The `.state` block. -/
structure AesCtrState where
  keyBytes : Block
  counter : Block
  roundKeys : Key128

/-- The state that the signals with `cmd` 1 and 2 leave behind. -/
def AesCtrState.keyed (key iv : Block) : AesCtrState where
  keyBytes := key
  counter := iv
  roundKeys := aes128KeyExpand key

/-- The loop over `rep`. -/
def advanceCounter (ctr : Block) : Block := increment (increment ctr)

/-- The flit that a call makes of the flit it reads. -/
def aesCtrFlit (st : AesCtrState) (f : Flit) : Flit :=
  let ct := aes128CtrXcrypt st.roundKeys st.counter (f.getData 32)
  ((({} : Flit).setData ct 32).setSop f.sop).setEop f.eop

/-- The `.handler` block. -/
def aesCtrHandler (v : View AesCtrState Flit) : BodyResult AesCtrState Flit where
  state :=
    if testPort v.inputPort 1 then { v.state with counter := advanceCounter v.state.counter }
    else v.state
  ops :=
    if testPort v.inputPort 1 then
      [.clearInputReady (PORT_BIT 1), .setOutputPort 1 (aesCtrFlit v.state (v.inputData 1))]
    else []
  ret := some (PORT_BIT 1)

/-- The bytes of two signal parameters, the lowest first. -/
def blockOf (lo hi : UInt64) : Block :=
  Vector.ofFn fun i =>
    if i.val < 8 then (lo >>> UInt64.ofNat (i.val * 8)).toUInt8
    else (hi >>> UInt64.ofNat ((i.val - 8) * 8)).toUInt8

/-- The `.signal` block: command 1 sets the key, command 2 the counter. -/
def aesCtrSignal (v : View AesCtrState Flit) : BodyResult AesCtrState Flit where
  state :=
    let bytes := blockOf (v.event.lparam 0) (v.event.lparam 1)
    if v.event.cmd = 1 then
      { v.state with keyBytes := bytes, roundKeys := aes128KeyExpand bytes }
    else if v.event.cmd = 2 then { v.state with counter := bytes }
    else v.state
  ops := []
  ret := none
  outevent := v.event

def aesCtr : KernelFn AesCtrState Flit where
  inPorts := [1]
  outPorts := [1]
  nodup_outPorts := nodup_one
  hasSignal := true
  handler := aesCtrHandler
  signal := aesCtrSignal

/-! ## One flit -/

theorem getData_aesCtrFlit (st : AesCtrState) (f : Flit) : (aesCtrFlit st f).getData 32
    = aes128CtrXcrypt st.roundKeys st.counter (f.getData 32) := by
  unfold aesCtrFlit Flit.setEop Flit.setSop
  rw [Flit.getData_setFlag, Flit.getData_setFlag, Flit.getData_setData]
  rw [length_aes128CtrXcrypt, Flit.length_getData]

/-! ## A run -/

/-- No signal is posted. -/
def Unsignalled (_ : KernelState AesCtrState Flit) (a : KernelAction Flit) : Prop :=
  ∀ req, a ≠ .post req

instance (s : KernelState AesCtrState Flit) : ∀ a, Decidable (Unsignalled s a)
  | .kernel => isTrue nofun
  | .produce _ _ => isTrue nofun
  | .consume _ => isTrue nofun
  | .post req => isFalse fun h => h req rfl

/-- Since `s`, whose counter was `iv`, the element has taken `fs` and passed `gs` on. -/
structure Crypted (k : Key128) (iv : Block) (s : KernelState AesCtrState Flit) (fs gs : List Flit)
    (t : KernelState AesCtrState Flit) : Prop where
  noSignal : t.locals.hasSignal = false
  noRequest : t.requests = []
  roundKeys : t.locals.state.roundKeys = k
  counter : t.locals.state.counter = increment^[2 * fs.length] iv
  taken : t.taken 1 = s.taken 1 ++ fs
  sent : t.sent 1 = s.sent 1 ++ gs
  payload : payloadBytes gs = aes128CtrXcrypt k iv (payloadBytes fs)

variable {k : Key128} {iv : Block} {s t u : KernelState AesCtrState Flit} {fs gs : List Flit}

/-- Two blocks of keystream go into a flit. -/
theorem Crypted.payload_append (h : Crypted k iv s fs gs t) (f : Flit) :
    payloadBytes (gs ++ [aesCtrFlit t.locals.state f])
      = aes128CtrXcrypt k iv (payloadBytes (fs ++ [f])) := by
  have hlen : (payloadBytes fs).length = 16 * (2 * fs.length) := by
    rw [length_payloadBytes]
    omega
  have hsplit := (counterMode k).crypt_append (2 * fs.length) iv hlen (f.getData 32)
  have hnew : (aesCtrFlit t.locals.state f).getData 32
      = (counterMode k).crypt (increment^[2 * fs.length] iv) (f.getData 32) := by
    rw [getData_aesCtrFlit, h.roundKeys, h.counter, aes128CtrXcrypt_eq]
  rw [payloadBytes_append, payloadBytes_append, h.payload, aes128CtrXcrypt_eq, aes128CtrXcrypt_eq]
  simp only [payloadBytes, List.flatMap_singleton] at hsplit ⊢
  rw [hsplit, hnew]
  rfl

/-- A call. The counter of the element goes on by two. -/
theorem Crypted.bodyStep (h : Crypted k iv s fs gs t)
    (hsig : (OpenClickNP.bodyStep aesCtr t).locals.hasSignal = false)
    (hreq : (OpenClickNP.bodyStep aesCtr t).requests = []) :
    ∃ fs' gs', Crypted k iv s fs' gs' (OpenClickNP.bodyStep aesCtr t) := by
  have hbody : bodyResult aesCtr t.locals = aesCtrHandler (viewOf t.locals) :=
    bodyResult_of_noSignal h.noSignal
  have hops : (aesCtrHandler (viewOf t.locals)).ops
      = if testPort (viewOf t.locals).inputPort 1 then .clearInputReady (PORT_BIT 1) ::
          [.setOutputPort 1 (aesCtrFlit t.locals.state (t.locals.inputData 1))] else [] := rfl
  have htaken := taken_bodyStep (K := aesCtr) (s := t) 1
  rw [hbody, takenIn_of_ready (by decide) hops, h.taken] at htaken
  have hsent := sent_bodyStep (K := aesCtr) (s := t) 1
  rw [hbody, setsOf_of_ready 1 hops, h.sent] at hsent
  have hstate := state_bodyStep (K := aesCtr) (s := t)
  rw [hbody] at hstate
  cases hbit : testPort t.locals.inputPort 1 with
  | false =>
    have hbit' : testPort (viewOf t.locals).inputPort 1 = false := hbit
    simp only [aesCtrHandler, hbit', Bool.false_eq_true, if_false] at hstate htaken hsent
    rw [List.append_nil] at htaken hsent
    exact ⟨fs, gs, hsig, hreq, by rw [hstate]; exact h.roundKeys, by rw [hstate]; exact h.counter,
      htaken, hsent, h.payload⟩
  | true =>
    have hbit' : testPort (viewOf t.locals).inputPort 1 = true := hbit
    simp only [aesCtrHandler, hbit', if_true] at hstate htaken hsent
    let f := t.locals.inputData 1
    refine ⟨fs ++ [f], gs ++ [aesCtrFlit t.locals.state f], hsig, hreq, ?_, ?_, ?_, ?_,
      h.payload_append f⟩
    · rw [hstate]
      exact h.roundKeys
    · rw [hstate, List.length_append, List.length_singleton, Nat.mul_succ,
        Function.iterate_succ_apply', Function.iterate_succ_apply', ← h.counter]
      simp only [viewOf, advanceCounter]
    · rw [htaken, List.append_assoc]
      rfl
    · rw [hsent, List.append_assoc]
      rfl

theorem Crypted.step (h : Crypted k iv s fs gs t) {a : KernelAction Flit} (ha : Unsignalled t a)
    (hs : kstep aesCtr t a = some u) : ∃ fs' gs', Crypted k iv s fs' gs' u := by
  obtain ⟨hsig, hreq⟩ := noSignal_step h.noSignal h.noRequest ha hs
  rcases records_step hs with ⟨-, -, rfl⟩ | ⟨-, hrec⟩
  · exact h.bodyStep hsig hreq
  · refine ⟨fs, gs, hsig, hreq, ?_, ?_, ?_, ?_, h.payload⟩
    · rw [hrec.state, h.roundKeys]
    · rw [hrec.state, h.counter]
    · rw [hrec.taken, h.taken]
    · rw [hrec.sent, h.sent]

/-- Two flits, each with an iteration of the kernel. -/
def twoFlitRun : List (KernelAction Flit) :=
  .produce 1 {} :: List.replicate 6 .kernel ++
    .produce 1 ⟨Vector.replicate 64 255⟩ :: List.replicate 6 .kernel

end OpenClickNP
