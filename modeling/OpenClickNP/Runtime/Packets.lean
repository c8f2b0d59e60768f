import Mathlib.Data.List.Flatten
import OpenClickNP.Lib.Frames
import OpenClickNP.Runtime.Flit

/-!
# `pcap.cpp`: packets in flits

`packetToFlits` cuts the bytes of a packet into payloads. The last flit of the packet carries the
`eop` flag, and says in its pad bytes how much of its payload the packet leaves free;
`flitsToPacket` needs both to find the end of the packet (`flitsToPacket_packetToFlits`).
-/

namespace OpenClickNP

open Frames

/-! ## Packets to flits -/

/-- The flit of the bytes from `off` on. -/
def packetFlit (bytes : List UInt8) (off : Nat) : Flit :=
  let n := min 32 (bytes.length - off)
  let last := decide (off + n = bytes.length)
  let f := ((({} : Flit).setData (bytes.drop off) n).setSop (off == 0)).setEop last
  if last && decide (n < 32) then f.setPadbytes (UInt8.ofNat (32 - n)) else f

/-- The `while` loop. -/
def packetLoop (bytes : List UInt8) (off : Nat) : List Flit :=
  if off < bytes.length then
    packetFlit bytes off :: packetLoop bytes (off + min 32 (bytes.length - off))
  else []
termination_by bytes.length - off

/-- `packetToFlits(p)`: the bytes of the packet. -/
def packetToFlits (bytes : List UInt8) : List Flit := packetLoop bytes 0

/-! ## Flits to packets -/

/-- `valid`, of the last flit. -/
def validBytes (f : Flit) : Nat := if f.eop then 32 - f.padbytes.toNat else 32

/-- `flitsToPacket(fs)`. -/
def flitsToPacket : List Flit → List UInt8
  | [] => []
  | [f] => f.getData (validBytes f)
  | f :: g :: fs => f.getData 32 ++ flitsToPacket (g :: fs)

/-- The payloads of the flits, one after the other. -/
def payloadBytes (fs : List Flit) : List UInt8 := fs.flatMap fun f => f.getData 32

theorem payloadBytes_append (fs gs : List Flit) :
    payloadBytes (fs ++ gs) = payloadBytes fs ++ payloadBytes gs := List.flatMap_append

theorem length_payloadBytes (fs : List Flit) : (payloadBytes fs).length = 32 * fs.length :=
  Blocks.length_flatMap Flit.length_getData fs

theorem flitsToPacket_append (fs : List Flit) (f : Flit) :
    flitsToPacket (fs ++ [f]) = payloadBytes fs ++ f.getData (validBytes f) := by
  induction fs with
  | nil => rfl
  | cons g fs ih =>
    rw [payloadBytes, List.flatMap_cons, List.append_assoc, ← payloadBytes, ← ih]
    cases fs <;> rfl

/-! ## One flit of a packet -/

section
variable {bytes : List UInt8} {off : Nat}

/-- A flit shows 32 bytes of its packet, and the length. -/
theorem packetFlit_congr {bytes' : List UInt8} (hlen : bytes.length = bytes'.length)
    (h : (bytes.drop off).take 32 = (bytes'.drop off).take 32) :
    packetFlit bytes off = packetFlit bytes' off := by
  have htake : (bytes.drop off).take (min 32 (bytes'.length - off))
      = (bytes'.drop off).take (min 32 (bytes'.length - off)) := by
    rw [Nat.min_comm, ← List.take_take, h, List.take_take]
  have hdata : ({} : Flit).setData (bytes.drop off) (min 32 (bytes'.length - off))
      = ({} : Flit).setData (bytes'.drop off) (min 32 (bytes'.length - off)) := by
    rw [← Flit.setData_take, htake, Flit.setData_take]
  unfold packetFlit
  simp only [hlen, hdata]

/-- The first flit does not show what comes behind it. -/
theorem packetFlit_append {head tail tail' : List UInt8} (hhead : head.length = 32)
    (hlen : tail.length = tail'.length) :
    packetFlit (head ++ tail) 0 = packetFlit (head ++ tail') 0 := by
  apply packetFlit_congr
  · rw [List.length_append, List.length_append, hlen]
  · rw [List.drop_zero, List.drop_zero, List.take_append_of_le_length (by omega),
      List.take_append_of_le_length (by omega)]

theorem flag_packetFlit (mask : UInt8) : (packetFlit bytes off).flag mask
    = (((({} : Flit).setData (bytes.drop off) (min 32 (bytes.length - off))).setSop
      (off == 0)).setEop
        (decide (off + min 32 (bytes.length - off) = bytes.length))).flag mask := by
  unfold packetFlit
  simp only []
  split
  · rw [Flit.flag_setPadbytes]
  · rfl

theorem sop_packetFlit : (packetFlit bytes off).sop = (off == 0) := by
  unfold Flit.sop
  rw [flag_packetFlit, Flit.setEop, Flit.flag_setFlag_of_disjoint _ (by decide), Flit.setSop,
    Flit.flag_setFlag_self _ (by decide)]

theorem eop_packetFlit (h : off < bytes.length) :
    (packetFlit bytes off).eop = decide (bytes.length ≤ off + 32) := by
  unfold Flit.eop
  rw [flag_packetFlit, Flit.setEop, Flit.flag_setFlag_self _ (by decide)]
  exact decide_eq_decide.mpr (by omega)

theorem getData_default : ({} : Flit).getData 32 = List.replicate 32 0 := by decide

theorem getData_packetFlit : (packetFlit bytes off).getData 32
    = (bytes.drop off).take 32 ++ List.replicate (32 - (bytes.length - off)) 0 := by
  have hplain : (packetFlit bytes off).getData 32
      = (({} : Flit).setData (bytes.drop off) (min 32 (bytes.length - off))).getData 32 := by
    unfold packetFlit Flit.setSop Flit.setEop
    simp only []
    split
    · rw [Flit.getData_setPadbytes, Flit.getData_setFlag, Flit.getData_setFlag]
    · rw [Flit.getData_setFlag, Flit.getData_setFlag]
  have hlen : (bytes.drop off).length = bytes.length - off := List.length_drop
  have htake : (bytes.drop off).take (min 32 (bytes.length - off)) = (bytes.drop off).take 32 := by
    rw [← hlen, List.take_eq_take_iff]
    omega
  have hle : min 32 (bytes.length - off) ≤ (bytes.drop off).length := by omega
  rw [hplain, Flit.getData_setData_take _ (Nat.min_le_left _ _) hle, htake, getData_default,
    List.drop_replicate, show 32 - min 32 (bytes.length - off) = 32 - (bytes.length - off) by omega]

theorem padbytes_packetFlit (h : off < bytes.length) :
    (packetFlit bytes off).padbytes.toNat = 32 - (bytes.length - off) := by
  have hclear : (((({} : Flit).setData (bytes.drop off) (min 32 (bytes.length - off))).setSop
      (off == 0)).setEop (decide (off + min 32 (bytes.length - off) = bytes.length))).padbytes
        = 0 := by
    rw [Flit.setEop, Flit.padbytes_setFlag, Flit.setSop, Flit.padbytes_setFlag,
      Flit.padbytes_setData]
    decide
  unfold packetFlit
  simp only []
  split
  · rename_i hlast
    obtain ⟨hend, hshort⟩ := Bool.and_eq_true_iff.mp hlast
    have hend := of_decide_eq_true hend
    have hshort := of_decide_eq_true hshort
    rw [Flit.padbytes_setPadbytes, UInt8.toNat_ofNat']
    omega
  · rename_i hlast
    have hwhole : 32 ≤ bytes.length - off := by
      by_contra hlt
      exact hlast (Bool.and_eq_true_iff.mpr
        ⟨decide_eq_true (by omega), decide_eq_true (by omega)⟩)
    rw [hclear]
    show 0 = _
    omega

/-- What the last flit gives back is what is left of the packet. -/
theorem getData_last (h : off < bytes.length) (hlast : bytes.length ≤ off + 32) :
    (packetFlit bytes off).getData (validBytes (packetFlit bytes off)) = bytes.drop off := by
  have hlen : (bytes.drop off).length = bytes.length - off := List.length_drop
  have heop : (packetFlit bytes off).eop = true := by
    rw [eop_packetFlit h]
    exact decide_eq_true hlast
  rw [validBytes, if_pos heop, padbytes_packetFlit h, Flit.getData_eq_take, getData_packetFlit,
    List.take_of_length_le (l := bytes.drop off) (by omega),
    List.take_append_of_le_length (by omega)]
  exact List.take_of_length_le (by omega)

/-! ## The loop -/

/-- How much the last payload leaves free. -/
def fill (n : Nat) : Nat := (32 - n % 32) % 32

theorem packetLoop_last (h : off < bytes.length) (hlast : bytes.length ≤ off + 32) :
    packetLoop bytes off = [packetFlit bytes off] := by
  rw [packetLoop, if_pos h, packetLoop, if_neg (by omega)]

theorem packetLoop_next (h : off + 32 < bytes.length) :
    packetLoop bytes off = packetFlit bytes off :: packetLoop bytes (off + 32) := by
  rw [packetLoop, if_pos (by omega), show min 32 (bytes.length - off) = 32 by omega]

/-- The flits of the packet from `off` on. -/
structure Packed (bytes : List UInt8) (off : Nat) (fs : List Flit) : Prop where
  framed : Framed Flit.eop fs
  starts : ∃ f rest, fs = f :: rest ∧ f.sop = (off == 0) ∧ ∀ g ∈ rest, g.sop = false
  payload : payloadBytes fs = bytes.drop off ++ List.replicate (fill (bytes.length - off)) 0
  packet : flitsToPacket fs = bytes.drop off

theorem packed_last (h : off < bytes.length) (hlast : bytes.length ≤ off + 32) :
    Packed bytes off [packetFlit bytes off] where
  framed := ⟨[], _, rfl, by rw [eop_packetFlit h]; exact decide_eq_true hlast, by simp⟩
  starts := ⟨_, [], rfl, sop_packetFlit, by simp⟩
  payload := by
    have hlen : (bytes.drop off).length = bytes.length - off := List.length_drop
    rw [payloadBytes, List.flatMap_singleton, getData_packetFlit,
      List.take_of_length_le (by omega)]
    congr 2
    unfold fill
    omega
  packet := getData_last h hlast

theorem packed_next (h : off + 32 < bytes.length) {fs : List Flit}
    (hfs : Packed bytes (off + 32) fs) : Packed bytes off (packetFlit bytes off :: fs) := by
  obtain ⟨init, last, rfl, hlast, hinit⟩ := hfs.framed
  have heop : (packetFlit bytes off).eop = false := by
    rw [eop_packetFlit (by omega)]
    exact decide_eq_false (by omega)
  have hdata : (packetFlit bytes off).getData 32 = (bytes.drop off).take 32 := by
    rw [getData_packetFlit, show 32 - (bytes.length - off) = 0 by omega,
      List.replicate_zero, List.append_nil]
  have hdrop : (bytes.drop off).take 32 ++ bytes.drop (off + 32) = bytes.drop off := by
    rw [← List.drop_drop, List.take_append_drop]
  refine ⟨⟨packetFlit bytes off :: init, last, rfl, hlast, ?_⟩, ?_, ?_, ?_⟩
  · intro y hy
    rcases List.mem_cons.mp hy with rfl | hy
    · exact heop
    · exact hinit y hy
  · obtain ⟨f, rest, hfs', hsop, hrest⟩ := hfs.starts
    refine ⟨_, _, rfl, sop_packetFlit, fun g hg => ?_⟩
    rw [hfs'] at hg
    rcases List.mem_cons.mp hg with rfl | hg
    · rw [hsop]
      exact beq_eq_false_iff_ne.mpr (by omega)
    · exact hrest g hg
  · rw [payloadBytes, List.flatMap_cons, ← payloadBytes, hfs.payload, hdata, ← List.append_assoc,
      hdrop]
    congr 2
    unfold fill
    omega
  · have hpacket := hfs.packet
    rw [flitsToPacket_append] at hpacket
    rw [← List.cons_append, flitsToPacket_append, payloadBytes, List.flatMap_cons, ← payloadBytes,
      List.append_assoc, hpacket, hdata, hdrop]

end

/-- Induction on the turns of the loop. -/
theorem packed_packetLoop (bytes : List UInt8) (off : Nat) (h : off < bytes.length) :
    Packed bytes off (packetLoop bytes off) := by
  by_cases hlast : bytes.length ≤ off + 32
  · rw [packetLoop_last h hlast]
    exact packed_last h hlast
  · rw [packetLoop_next (by omega)]
    exact packed_next (by omega) (packed_packetLoop bytes (off + 32) (by omega))
termination_by bytes.length - off

/-- **The flits of a packet.** -/
theorem packed_packetToFlits {bytes : List UInt8} (h : bytes ≠ []) :
    Packed bytes 0 (packetToFlits bytes) :=
  packed_packetLoop bytes 0 (List.length_pos_iff.mpr h)

/-- **A packet is put together again.** -/
theorem flitsToPacket_packetToFlits (bytes : List UInt8) :
    flitsToPacket (packetToFlits bytes) = bytes := by
  by_cases h : bytes = []
  · subst h
    rw [packetToFlits, packetLoop, if_neg (by simp)]
    rfl
  · exact (packed_packetToFlits h).packet

theorem payloadBytes_packetToFlits {bytes : List UInt8} (h : bytes ≠ []) :
    payloadBytes (packetToFlits bytes)
      = bytes ++ List.replicate (fill bytes.length) 0 := (packed_packetToFlits h).payload

theorem fill_eq_zero_iff (n : Nat) : fill n = 0 ↔ 32 ∣ n := by
  unfold fill
  omega

/-! ## The framing, flit by flit -/

/-- Induction on the turns of the loop: the flit of turn `i` starts at byte `off + 32 i`. -/
theorem packetLoop_eq_map (bytes : List UInt8) (off : Nat) :
    packetLoop bytes off
      = (List.range ((bytes.length - off + 31) / 32)).map fun i =>
          packetFlit bytes (off + 32 * i) := by
  by_cases h : off < bytes.length
  · by_cases hlast : bytes.length ≤ off + 32
    · rw [packetLoop_last h hlast, show (bytes.length - off + 31) / 32 = 1 by omega,
        List.range_one, List.map_singleton]
      rfl
    · have hturns : (bytes.length - off + 31) / 32
          = (bytes.length - (off + 32) + 31) / 32 + 1 := by
        omega
      rw [packetLoop_next (by omega), packetLoop_eq_map bytes (off + 32), hturns,
        List.range_succ_eq_map, List.map_cons, List.map_map, Nat.mul_zero, Nat.add_zero]
      refine congrArg (packetFlit bytes off :: ·) (List.map_congr_left fun i _ => ?_)
      have hoff : off + 32 + 32 * i = off + 32 * i.succ := by omega
      rw [Function.comp_apply, hoff]
  · rw [packetLoop, if_neg h, show (bytes.length - off + 31) / 32 = 0 by omega]
    rfl
termination_by bytes.length - off

theorem length_packetToFlits (bytes : List UInt8) :
    (packetToFlits bytes).length = (bytes.length + 31) / 32 := by
  rw [packetToFlits, packetLoop_eq_map, List.length_map, List.length_range, Nat.sub_zero]

theorem getElem_packetToFlits (bytes : List UInt8) {i : Nat}
    (hi : i < (packetToFlits bytes).length) :
    (packetToFlits bytes)[i] = packetFlit bytes (32 * i) := by
  simp only [packetToFlits, packetLoop_eq_map, List.getElem_map, List.getElem_range, Nat.zero_add]

/-- What the bytes of a payload are: the bytes of the packet, then zeros. -/
theorem getElem?_getData_packetFlit {bytes : List UInt8} {off j : Nat} (hj : j < 32)
    (hend : bytes.length ≤ off + j) : ((packetFlit bytes off).getData 32)[j]? = some 0 := by
  have hlen : ((bytes.drop off).take 32).length = min 32 (bytes.length - off) := by
    rw [List.length_take, List.length_drop]
  rw [getData_packetFlit, List.getElem?_append_right (by omega), List.getElem?_replicate,
    if_pos (by omega)]

/-- The flits `fs` frame the packet `bytes`. -/
structure Framing (bytes : List UInt8) (fs : List Flit) : Prop where
  packet : flitsToPacket fs = bytes
  /-- The number of flits is the length of the packet by 32, rounded up. -/
  count : fs.length = (bytes.length + 31) / 32
  sop : ∀ i (hi : i < fs.length), fs[i].sop = true ↔ i = 0
  eop : ∀ i (hi : i < fs.length), fs[i].eop = true ↔ i + 1 = fs.length
  padbytes : ∀ i (hi : i < fs.length), fs[i].padbytes ≠ 0 → i + 1 = fs.length
  padbytes_le : ∀ i (hi : i < fs.length), fs[i].padbytes.toNat ≤ 31
  zeros : ∀ i (hi : i < fs.length), ∀ j < 32, bytes.length ≤ 32 * i + j →
    (fs[i].getData 32)[j]? = some 0

/-- **The framing law.** -/
theorem frames_packetToFlits (bytes : List UInt8) : Framing bytes (packetToFlits bytes) where
  packet := flitsToPacket_packetToFlits bytes
  count := length_packetToFlits bytes
  sop i hi := by
    rw [getElem_packetToFlits bytes hi, sop_packetFlit, beq_iff_eq]
    omega
  eop i hi := by
    have hcount := length_packetToFlits bytes
    rw [getElem_packetToFlits bytes hi, eop_packetFlit (by omega), decide_eq_true_iff]
    omega
  padbytes i hi hpad := by
    have hcount := length_packetToFlits bytes
    rw [getElem_packetToFlits bytes hi] at hpad
    have hfree : (packetFlit bytes (32 * i)).padbytes.toNat = 32 - (bytes.length - 32 * i) :=
      padbytes_packetFlit (by omega)
    have hpos : (packetFlit bytes (32 * i)).padbytes.toNat ≠ 0 := fun h0 =>
      hpad (UInt8.toNat_inj.mp h0)
    omega
  padbytes_le i hi := by
    have hcount := length_packetToFlits bytes
    rw [getElem_packetToFlits bytes hi, padbytes_packetFlit (by omega)]
    omega
  zeros i hi j hj hend := by
    rw [getElem_packetToFlits bytes hi]
    exact getElem?_getData_packetFlit hj hend

/-- Without pad bytes a packet comes back with the payload it leaves free. -/
theorem flitsToPacket_of_padbytes {fs : List Flit} (h : ∀ f ∈ fs, f.padbytes = 0) :
    flitsToPacket fs = payloadBytes fs := by
  induction fs using List.reverseRecOn with
  | nil => rfl
  | append_singleton fs f _ =>
    have hvalid : validBytes f = 32 := by
      rw [validBytes, h f (by simp)]
      exact ite_self 32
    rw [flitsToPacket_append, payloadBytes_append, hvalid, payloadBytes, payloadBytes,
      List.flatMap_singleton]

/-! ## An IPv4 packet -/

/-- Ethernet and IPv4 header of a packet without payload, from 10.0.0.1 to a host of 10.0.0.0/16;
its last two bytes are missing. -/
def headerStart : List UInt8 :=
  List.replicate 12 0 ++ [8, 0] ++
    [0x45, 0, 0, 20, 0, 0, 0, 0, 64, 17, 0, 0] ++ [10, 0, 0, 1] ++ [10, 0]

/-- The packet to 10.0.0.n. -/
def packetTo (n : UInt8) : List UInt8 := headerStart ++ [0, n]

end OpenClickNP
