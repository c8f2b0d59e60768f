import OpenClickNP.Backend.Transduction
import OpenClickNP.Runtime.Packets

/-!
# `Counter.clnp`

The element swallows what comes in, and counts flits, packets and bytes in words of 64 bits. The
bytes of a packet come out right since pad bytes count only in its last flit, which is the one that
ends it (`sum_validBytes`).
-/

namespace OpenClickNP

open Run Frames

/-! ## The element -/

/-- The `.state` block. -/
structure CounterState where
  flits : UInt64
  packets : UInt64
  bytes : UInt64
deriving DecidableEq

/-- The `.init` block. -/
def counterInit : CounterState := { flits := 0, packets := 0, bytes := 0 }

/-- The `if`, after `read_input_port`. -/
def CounterState.count (st : CounterState) (f : Flit) : CounterState where
  flits := st.flits + 1
  packets := if f.eop then st.packets + 1 else st.packets
  bytes := st.bytes + UInt64.ofNat (validBytes f)

/-- The `.handler` block. -/
def counterHandler (v : View CounterState Flit) : BodyResult CounterState Flit where
  state := if testPort v.inputPort 1 then v.state.count (v.inputData 1) else v.state
  ops := if testPort v.inputPort 1 then [.clearInputReady (PORT_BIT 1)] else []
  ret := some (PORT_BIT 1)

/-- The `.signal` block: the counters are read, and command 1 resets them. -/
def counterSignal (v : View CounterState Flit) : BodyResult CounterState Flit where
  state := if v.event.cmd = 1 then { flits := 0, packets := 0, bytes := 0 } else v.state
  ops := []
  ret := none
  outevent := { v.event with
    lparam := Function.update (Function.update (Function.update v.event.lparam 0 v.state.flits) 1
      v.state.packets) 2 v.state.bytes }

theorem nodup_none : ([] : List Nat).Nodup := List.nodup_nil

/-- `Counter`. -/
def counter : KernelFn CounterState Flit where
  inPorts := [1]
  outPorts := []
  nodup_outPorts := nodup_none
  hasSignal := true
  handler := counterHandler
  signal := counterSignal

/-! ## The flits of a packet -/

theorem getData_validBytes (f : Flit) : (f.getData (validBytes f)).length = validBytes f := by
  have hle : validBytes f ≤ 32 := by
    unfold validBytes
    split <;> omega
  rw [Flit.getData_eq_take, List.length_take, Flit.length_getData, Nat.min_eq_left hle]

/-- **The bytes that are valid in the flits of a packet are the packet.** -/
theorem sum_validBytes {fs : List Flit} (h : Framed Flit.eop fs) :
    (fs.map validBytes).sum = (flitsToPacket fs).length := by
  obtain ⟨init, last, rfl, -, hinit⟩ := h
  -- only the last flit of a packet may be short
  have hfull : init.map validBytes = List.replicate init.length 32 := by
    refine List.eq_replicate_iff.mpr ⟨List.length_map _, fun n hn => ?_⟩
    obtain ⟨f, hf, rfl⟩ := List.mem_map.mp hn
    rw [validBytes, hinit f hf]
    rfl
  rw [flitsToPacket_append, List.length_append, length_payloadBytes, getData_validBytes,
    List.map_append, List.sum_append, hfull, List.sum_replicate_nat, Nat.mul_comm]
  rfl

theorem countP_eop {fs : List Flit} (h : Framed Flit.eop fs) : fs.countP Flit.eop = 1 := by
  obtain ⟨init, last, rfl, hlast, hinit⟩ := h
  have hnone : init.countP Flit.eop = 0 :=
    List.countP_eq_zero.mpr fun f hf => by rw [hinit f hf]; exact Bool.false_ne_true
  rw [List.countP_append, hnone, List.countP_singleton, if_pos hlast]

/-! ## Counting -/

theorem add_ofNat_add_ofNat (x : UInt64) (m n : Nat) :
    x + UInt64.ofNat m + UInt64.ofNat n = x + UInt64.ofNat (m + n) := by
  rw [UInt64.ofNat_add, UInt64.add_assoc]

/-- One flit more. -/
theorem count_eq (st : CounterState) (f : Flit) : st.count f =
    { flits := st.flits + UInt64.ofNat 1
      packets := st.packets + UInt64.ofNat (if f.eop then 1 else 0)
      bytes := st.bytes + UInt64.ofNat (validBytes f) } := by
  unfold CounterState.count
  congr 1
  split
  · rfl
  · exact (UInt64.add_zero _).symm

/-- The counters behind some flits. -/
theorem foldl_count (st : CounterState) (fs : List Flit) : fs.foldl CounterState.count st =
    { flits := st.flits + UInt64.ofNat fs.length
      packets := st.packets + UInt64.ofNat (fs.countP Flit.eop)
      bytes := st.bytes + UInt64.ofNat (fs.map validBytes).sum } := by
  induction fs generalizing st with
  | nil => simp
  | cons f fs ih =>
    rw [List.foldl_cons, ih, count_eq, List.length_cons, List.countP_cons, List.map_cons,
      List.sum_cons]
    simp only [add_ofNat_add_ofNat, Nat.add_comm]

/-- What the packets come to. -/
structure Counted (ps : List (List UInt8)) (st : CounterState) : Prop where
  flits : st.flits.toNat = (ps.map fun bytes => (bytes.length + 31) / 32).sum % 2 ^ 64
  packets : st.packets.toNat = ps.length % 2 ^ 64
  bytes : st.bytes.toNat = (ps.map List.length).sum % 2 ^ 64

/-- **The flits of packets.** Induction on the packets. -/
theorem counts_flatMap {packets : List (List UInt8)} (hne : ∀ bytes ∈ packets, bytes ≠ []) :
    (packets.flatMap packetToFlits).length
        = (packets.map fun bytes => (bytes.length + 31) / 32).sum ∧
      (packets.flatMap packetToFlits).countP Flit.eop = packets.length ∧
      ((packets.flatMap packetToFlits).map validBytes).sum = (packets.map List.length).sum := by
  induction packets with
  | nil => exact ⟨rfl, rfl, rfl⟩
  | cons bytes packets ih =>
    obtain ⟨hflits, hpackets, hbytes⟩ := ih fun b hb => hne b (List.mem_cons_of_mem _ hb)
    have hpacked := packed_packetToFlits (hne bytes List.mem_cons_self)
    rw [List.flatMap_cons, List.length_append, List.countP_append, List.map_append, List.sum_append,
      hflits, hpackets, hbytes, length_packetToFlits, countP_eop hpacked.framed,
      sum_validBytes hpacked.framed, hpacked.packet, Nat.add_comm 1]
    exact ⟨rfl, rfl, rfl⟩

theorem counted_packets {packets : List (List UInt8)} (hne : ∀ bytes ∈ packets, bytes ≠ []) :
    Counted packets ((packets.flatMap packetToFlits).foldl CounterState.count counterInit) := by
  obtain ⟨hflits, hpackets, hbytes⟩ := counts_flatMap hne
  have hzero : ∀ n : Nat, (0 + UInt64.ofNat n).toNat = n % 2 ^ 64 := fun n => by
    rw [UInt64.zero_add, UInt64.toNat_ofNat']
  rw [foldl_count, hflits, hpackets, hbytes]
  exact ⟨hzero _, hzero _, hzero _⟩

/-! ## Runs -/

/-- A signal that does not reset the counters. -/
def KeepsCounts (event : ClSignal) : Prop := event.cmd ≠ 1

instance decidableKeepsCounts : DecidablePred KeepsCounts :=
  fun _ => inferInstanceAs (Decidable (_ ≠ _))

theorem takenIn_counter (v : View CounterState Flit) :
    takenIn 1 v (counter.handler v) = (offered v).toList := takenIn_offered rfl

/-- The counters are those of the flits read. -/
theorem state_counter {s : KernelState CounterState Flit} (hquiet : Quiet KeepsCounts s)
    {as : List (KernelAction Flit)} (hok : Meets (kstep counter) (Posts KeepsCounts) s as) :
    ∃ fs, (exec (kstep counter) s as).taken 1 = s.taken 1 ++ fs ∧
      (exec (kstep counter) s as).locals.state = fs.foldl CounterState.count s.locals.state := by
  refine inv_bodies (K := counter)
    (P := fun st taken _ => ∃ fs, taken 1 = s.taken 1 ++ fs ∧
      st = fs.foldl CounterState.count s.locals.state) ?_ (fun _ => rfl) ?_ hquiet hok
    ⟨[], (List.append_nil _).symm, rfl⟩
  · rintro v taken sent ⟨fs, htaken, hstate⟩
    refine ⟨fs ++ (offered v).toList, ?_, ?_⟩
    · show taken 1 ++ takenIn 1 v (counter.handler v) = _
      rw [takenIn_counter, htaken, List.append_assoc]
    · show (if testPort v.inputPort 1 then v.state.count (v.inputData 1) else v.state) = _
      rw [List.foldl_append, ← hstate, offered]
      split <;> rfl
  · rintro v taken sent hevent ⟨fs, htaken, hstate⟩
    have hcmd : ¬ v.event.cmd = 1 := hevent
    refine ⟨fs, htaken, ?_⟩
    show (if v.event.cmd = 1 then _ else v.state) = _
    -- every other signal only reads the counters
    rw [if_neg hcmd, hstate]

theorem packetToFlits_byte : packetToFlits [7] = [packetFlit [7] 0] :=
  packetLoop_last (by decide) (by decide)

theorem flatMap_packetToFlits_byte :
    [[(7 : UInt8)]].flatMap packetToFlits = [packetFlit [7] 0] := by
  rw [List.flatMap_singleton, packetToFlits_byte]

end OpenClickNP
