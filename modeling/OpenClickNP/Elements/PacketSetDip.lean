import OpenClickNP.Backend.Transduction
import OpenClickNP.Runtime.Packets

/-!
# `PacketSetDIP.clnp`

The element writes the destination address into the first flit of each packet. The address lies in
bytes 30 to 33, and the flit ends at byte 31: the low half of the address goes behind the buffer and
is lost. A packet comes out as meant exactly when it has this half already
(`packetSetDip_sets_iff`).
-/

namespace OpenClickNP

open Run Frames

/-! ## The element -/

/-- The `.state` block. -/
structure SetDipState where
  newDip : UInt32

/-- The `.init` block. -/
def setDipInit : SetDipState := { newDip := 0 }

/-- `buf`, with four bytes written. The last two of them are not in the buffer, and not in `f`. -/
def dipBuf (newDip : UInt32) (f : Flit) : List UInt8 :=
  ((((f.getData 32).set (14 + 16) (newDip >>> 24).toUInt8).set (14 + 17)
    (newDip >>> 16).toUInt8).set (14 + 18) (newDip >>> 8).toUInt8).set (14 + 19) newDip.toUInt8

/-- The flit that is sent. -/
def setDip (newDip : UInt32) (f : Flit) : Flit :=
  if f.sop then f.setData (dipBuf newDip f) 32 else f

/-- The `.handler` block. -/
def packetSetDipHandler (v : View SetDipState Flit) : BodyResult SetDipState Flit where
  state := v.state
  ops :=
    if testPort v.inputPort 1 then
      [.clearInputReady (PORT_BIT 1), .setOutputPort 1 (setDip v.state.newDip (v.inputData 1))]
    else []
  ret := some (PORT_BIT 1)

/-- The `.signal` block. -/
def packetSetDipSignal (v : View SetDipState Flit) : BodyResult SetDipState Flit where
  state := if v.event.cmd = 1 then { newDip := (v.event.lparam 0).toUInt32 } else v.state
  ops := []
  ret := none

/-- `PacketSetDIP`. -/
def packetSetDip : KernelFn SetDipState Flit where
  inPorts := [1]
  outPorts := [1]
  nodup_outPorts := nodup_one
  hasSignal := true
  handler := packetSetDipHandler
  signal := packetSetDipSignal

/-! ## The element as a machine -/

def setDipMachine : Transducer UInt32 (Option Flit) Flit where
  next newDip _ := newDip
  out newDip x := (x.map (setDip newDip)).toList

/-- A signal that does not set the address. -/
def KeepsDip (event : ClSignal) : Prop := event.cmd ≠ 1

theorem transduces_packetSetDip :
    Transduces packetSetDip SetDipState.newDip KeepsDip setDipMachine where
  inPorts := rfl
  outPorts := rfl
  returns _ := rfl
  state _ := rfl
  taken _ := takenIn_offered rfl
  sets _ := setsOf_offered _ rfl
  signalState _ h := congrArg SetDipState.newDip (if_neg h)
  signalOps _ := rfl
  signalRet _ := rfl

theorem lazy_setDip : Lazy setDipMachine := fun _ => ⟨rfl, rfl⟩

theorem output_setDip (newDip : UInt32) (fs : List Flit) :
    setDipMachine.output newDip (fs.map some) = fs.map (setDip newDip) := by
  induction fs with
  | nil => rfl
  | cons f fs ih => exact congrArg (setDip newDip f :: ·) ih

/-! ## One packet -/

theorem eop_setDip (newDip : UInt32) (f : Flit) : (setDip newDip f).eop = f.eop := by
  unfold setDip Flit.eop
  split
  · rw [Flit.flag_setData]
  · rfl

/-- Behind the first flit nothing changes. -/
theorem map_setDip_of_inner (newDip : UInt32) {fs : List Flit} (h : ∀ f ∈ fs, f.sop = false) :
    fs.map (setDip newDip) = fs := by
  refine List.map_congr_left (g := id) (fun f hf => ?_) |>.trans (List.map_id fs)
  exact if_neg (Bool.not_eq_true _ ▸ h f hf)

/-- Two bytes in place of bytes 30 and 31. -/
def withHighHalf (newDip : UInt32) (bytes : List UInt8) : List UInt8 :=
  bytes.take 30 ++ [(newDip >>> 24).toUInt8, (newDip >>> 16).toUInt8] ++ bytes.drop 32

/-- The address in place of bytes 30 to 33, the high byte first. -/
def withDip (newDip : UInt32) (bytes : List UInt8) : List UInt8 :=
  bytes.take 30 ++ [(newDip >>> 24).toUInt8, (newDip >>> 16).toUInt8, (newDip >>> 8).toUInt8,
    newDip.toUInt8] ++ bytes.drop 34

/-- The packet has the low half of the address already. -/
def HasLowHalf (newDip : UInt32) (bytes : List UInt8) : Prop :=
  bytes.getD 32 0 = (newDip >>> 8).toUInt8 ∧ bytes.getD 33 0 = newDip.toUInt8

section
variable {newDip : UInt32} {bytes : List UInt8}

/-- The bytes of a packet from `off` on, the first two of them alone. -/
theorem drop_two (off : Nat) (h : off + 2 ≤ bytes.length) :
    bytes.drop off = [bytes.getD off 0, bytes.getD (off + 1) 0] ++ bytes.drop (off + 2) := by
  rw [List.drop_eq_getElem_cons (by omega), List.drop_eq_getElem_cons (i := off + 1) (by omega),
    List.getD_eq_getElem _ _ (by omega), List.getD_eq_getElem _ _ (by omega)]
  rfl

/-- Only two of the four bytes are in the buffer. -/
theorem dipBuf_packetFlit (h : 34 ≤ bytes.length) : dipBuf newDip (packetFlit bytes 0)
    = bytes.take 30 ++ [(newDip >>> 24).toUInt8, (newDip >>> 16).toUInt8] := by
  have hhead : (bytes.take 30).length = 30 := by
    rw [List.length_take]
    omega
  have hdata : (packetFlit bytes 0).getData 32
      = bytes.take 30 ++ [bytes.getD 30 0, bytes.getD 31 0] := by
    rw [getData_packetFlit, List.drop_zero, show 32 - (bytes.length - 0) = 0 by omega,
      List.replicate_zero, List.append_nil, show 32 = 30 + 2 from rfl, List.take_add, drop_two 30
        (by omega)]
    rfl
  unfold dipBuf
  rw [hdata, List.set_append_right _ _ (by omega), List.set_append_right _ _ (by omega),
    List.set_append_right _ _ (by omega), List.set_append_right _ _ (by omega), hhead]
  rfl

/-- **What comes out for a packet.** -/
theorem flitsToPacket_setDip (h : 34 ≤ bytes.length) :
    flitsToPacket ((packetToFlits bytes).map (setDip newDip)) = withHighHalf newDip bytes := by
  have hsplit : packetToFlits bytes = packetFlit bytes 0 :: packetLoop bytes 32 :=
    packetLoop_next (by omega)
  obtain ⟨g, fs, hrest, hsop, hfs⟩ := (packed_packetLoop bytes 32 (by omega)).starts
  have hinner : (packetLoop bytes 32).map (setDip newDip) = packetLoop bytes 32 := by
    refine map_setDip_of_inner newDip fun f hf => ?_
    rw [hrest] at hf
    rcases List.mem_cons.mp hf with rfl | hf
    · exact hsop
    · exact hfs f hf
  have hlen : (dipBuf newDip (packetFlit bytes 0)).length = 32 := by
    rw [dipBuf_packetFlit h, List.length_append, List.length_take]
    show min 30 bytes.length + 2 = 32
    omega
  have hstarts : (packetFlit bytes 0).sop = true := sop_packetFlit
  have hfirst : (setDip newDip (packetFlit bytes 0)).getData 32
      = bytes.take 30 ++ [(newDip >>> 24).toUInt8, (newDip >>> 16).toUInt8] := by
    rw [setDip, if_pos hstarts, Flit.getData_setData _ hlen, dipBuf_packetFlit h]
  -- the flits behind the first one carry the rest of the packet
  have hpacket : flitsToPacket (packetLoop bytes 32) = bytes.drop 32 :=
    (packed_packetLoop bytes 32 (by omega)).packet
  rw [hsplit, List.map_cons, hinner, hrest, flitsToPacket, hfirst, ← hrest, hpacket]
  rfl

theorem withHighHalf_eq_iff (h : 34 ≤ bytes.length) :
    withHighHalf newDip bytes = withDip newDip bytes ↔ HasLowHalf newDip bytes := by
  rw [withHighHalf, withDip, List.append_assoc, List.append_assoc, List.append_cancel_left_eq,
    drop_two 32 (by omega)]
  simp [HasLowHalf]

end

/-! ## Streams -/

/-- The state in which 192.168.1.5 is configured. -/
def configured : SetDipState := { newDip := 0xC0A80105 }

theorem maps_configured (packets : List (List UInt8)) :
    ∃ gs, Maps packetSetDip KeepsDip (kinit configured (fun _ => 1) fun _ => 1)
      (packets.flatMap packetToFlits) gs :=
  ⟨_, (transduces_packetSetDip.maps_iff lazy_setDip (waiting_kinit _ _ _) _ _).mpr rfl⟩

end OpenClickNP
