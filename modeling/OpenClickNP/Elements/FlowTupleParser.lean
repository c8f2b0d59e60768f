import OpenClickNP.Elements.FirstFlit
import OpenClickNP.Lib.BigEndian
import OpenClickNP.Runtime.SignalRegs

/-!
# `FlowTupleParser.clnp`

The parser reads addresses and protocol from the first flit of an IPv4 packet. But the destination
address ends at byte 33, and the flit at byte 31: the last two bytes come from behind the buffer.
So the key is right exactly when the memory there holds these two bytes by chance
(`flowTupleParser_parses_iff`).
-/

namespace OpenClickNP

open Run BigEndian

/-! ## The element -/

/-- Four bytes of the buffer, shifted into their places. -/
def ipAt (buf : Nat → UInt8) (i : Nat) : UInt32 :=
  ((buf i).toUInt32 <<< 24) ||| ((buf (i + 1)).toUInt32 <<< 16) |||
    ((buf (i + 2)).toUInt32 <<< 8) ||| (buf (i + 3)).toUInt32

/-- `meta`, of the first flit. -/
def tupleMeta (outside : Flit → Nat → UInt8) (f : Flit) : Flit :=
  let buf := bufAt outside f
  let proto := buf (14 + 9)
  let srcIp := ipAt buf (14 + 12)
  let dstIp := ipAt buf (14 + 16)
  (((({} : Flit).set 0 ((srcIp.toUInt64 <<< 32) ||| dstIp.toUInt64)).set 1
    proto.toUInt64).setSop true).setEop true

/-- `FlowTupleParser`. -/
def flowTupleParser (outside : Flit → Nat → UInt8) : KernelFn FirstState Flit :=
  firstFlitFn (tupleMeta outside)

/-! ## What a packet says -/

/-- The address at an offset of the packet. -/
def addressAt (bytes : List UInt8) (off : Nat) : UInt32 :=
  UInt32.ofNat (value ((bytes.drop off).take 4))

/-- Source address and destination address, and the protocol. -/
def packetTuple (bytes : List UInt8) : UInt64 × UInt64 :=
  (((addressAt bytes 26).toUInt64 <<< 32) ||| (addressAt bytes 30).toUInt64,
    (bytes.getD 23 0).toUInt64)

theorem toNat_ipAt (buf : Nat → UInt8) (i : Nat) :
    (ipAt buf i).toNat = 2 ^ 24 * (buf i).toNat + 2 ^ 16 * (buf (i + 1)).toNat
      + 2 ^ 8 * (buf (i + 2)).toNat + (buf (i + 3)).toNat := by
  have h0 := (buf i).toNat_lt
  have h1 := (buf (i + 1)).toNat_lt
  have h2 := (buf (i + 2)).toNat_lt
  have h3 := (buf (i + 3)).toNat_lt
  have hshift : ∀ (x : UInt8) (n : UInt32), n.toNat ≤ 24 →
      (x.toUInt32 <<< n).toNat = 2 ^ n.toNat * x.toNat := by
    intro x n hn
    have hx := x.toNat_lt
    have hpow : 2 ^ n.toNat ≤ 2 ^ 24 := Nat.pow_le_pow_right (by decide) hn
    have hlt : x.toNat * 2 ^ n.toNat < 2 ^ 32 :=
      calc x.toNat * 2 ^ n.toNat ≤ 255 * 2 ^ 24 := Nat.mul_le_mul (by omega) hpow
        _ < 2 ^ 32 := by decide
    have hmod : n.toNat % 32 = n.toNat := Nat.mod_eq_of_lt (by omega)
    rw [UInt32.toNat_shiftLeft, UInt8.toNat_toUInt32, hmod, Nat.shiftLeft_eq,
      Nat.mod_eq_of_lt hlt, Nat.mul_comm]
  -- the bytes do not overlap, so `|` is `+`, from the high byte on
  have hlow : 2 ^ 16 * (buf (i + 1)).toNat < 2 ^ 24 := by omega
  have hsplit : 2 ^ 24 * (buf i).toNat + 2 ^ 16 * (buf (i + 1)).toNat
      = 2 ^ 16 * (2 ^ 8 * (buf i).toNat + (buf (i + 1)).toNat) := by omega
  have hsplit' : 2 ^ 16 * (2 ^ 8 * (buf i).toNat + (buf (i + 1)).toNat)
        + 2 ^ 8 * (buf (i + 2)).toNat
      = 2 ^ 8 * (2 ^ 16 * (buf i).toNat + 2 ^ 8 * (buf (i + 1)).toNat + (buf (i + 2)).toNat) := by
    omega
  unfold ipAt
  rw [UInt32.toNat_or, UInt32.toNat_or, UInt32.toNat_or, hshift _ 24 (by decide),
    hshift _ 16 (by decide), hshift _ 8 (by decide), UInt8.toNat_toUInt32]
  show ((2 ^ 24 * _ ||| 2 ^ 16 * _) ||| 2 ^ 8 * _) ||| _ = _
  rw [← Nat.two_pow_add_eq_or_of_lt hlow, hsplit,
    ← Nat.two_pow_add_eq_or_of_lt (show 2 ^ 8 * (buf (i + 2)).toNat < 2 ^ 16 by omega), hsplit',
    ← Nat.two_pow_add_eq_or_of_lt (show (buf (i + 3)).toNat < 2 ^ 8 by omega)]

theorem toNat_addressAt {bytes : List UInt8} {off : Nat} (h : off + 4 ≤ bytes.length) :
    (addressAt bytes off).toNat = (ipAt (bytes.getD · 0) off).toNat := by
  have hlen : ((bytes.drop off).take 4).length = 4 := by
    rw [List.length_take, List.length_drop]
    omega
  have hlt : value ((bytes.drop off).take 4) < 2 ^ 32 := by
    have hvalue := value_lt ((bytes.drop off).take 4)
    rwa [hlen] at hvalue
  rw [addressAt, UInt32.toNat_ofNat', Nat.mod_eq_of_lt hlt, take_drop_eq h, toNat_ipAt]
  show value [bytes.getD (off + 0) 0, bytes.getD (off + 1) 0, bytes.getD (off + 2) 0,
    bytes.getD (off + 3) 0] = _
  simp only [value, List.foldl_cons, List.foldl_nil, Nat.add_zero]
  omega

/-- Behind the buffer are the bytes of the packet that the flit does not hold. -/
def ReadsOn (outside : Flit → Nat → UInt8) (bytes : List UInt8) : Prop :=
  outside (packetFlit bytes 0) 32 = bytes.getD 32 0 ∧
    outside (packetFlit bytes 0) 33 = bytes.getD 33 0

/-- Lane 0 and lane 1 of a metadata flit. -/
def tupleOf (f : Flit) : UInt64 × UInt64 := (f.get 0, f.get 1)

theorem tupleOf_tupleMeta (outside : Flit → Nat → UInt8) (f : Flit) : tupleOf (tupleMeta outside f)
    = (joinHalves (ipAt (bufAt outside f) 26) (ipAt (bufAt outside f) 30),
        (bufAt outside f 23).toUInt64) := by
  unfold tupleOf tupleMeta Flit.setSop Flit.setEop
  simp only []
  rw [Flit.get_setFlag, Flit.get_setFlag, Flit.get_setFlag, Flit.get_setFlag,
    Flit.get_set_of_ne _ (by decide), Flit.get_set_self _ (by decide) (by decide),
    Flit.get_set_self _ (by decide) (by decide)]
  rfl

/-- **The tuple of one packet is right exactly when the memory behind the buffer is.** -/
theorem tuple_eq_iff {outside : Flit → Nat → UInt8} {bytes : List UInt8} (h : 34 ≤ bytes.length) :
    tupleOf (tupleMeta outside (packetFlit bytes 0)) = packetTuple bytes ↔
      ReadsOn outside bytes := by
  have hbuf : ∀ i < 32, bufAt outside (packetFlit bytes 0) i = bytes.getD i 0 :=
    fun i hi => bufAt_packetFlit hi (by omega)
  have hsrc : ipAt (bufAt outside (packetFlit bytes 0)) 26 = addressAt bytes 26 := by
    apply UInt32.toNat_inj.mp
    rw [toNat_addressAt (by omega), toNat_ipAt, toNat_ipAt, hbuf 26 (by omega), hbuf 27 (by omega),
      hbuf 28 (by omega), hbuf 29 (by omega)]
  have hdst : ipAt (bufAt outside (packetFlit bytes 0)) 30 = addressAt bytes 30 ↔
      ReadsOn outside bytes := by
    have hread : (ipAt (bufAt outside (packetFlit bytes 0)) 30).toNat
        = 2 ^ 24 * (bytes.getD 30 0).toNat + 2 ^ 16 * (bytes.getD 31 0).toNat
          + 2 ^ 8 * (outside (packetFlit bytes 0) 32).toNat
          + (outside (packetFlit bytes 0) 33).toNat := by
      rw [toNat_ipAt, hbuf 30 (by omega), hbuf 31 (by omega), bufAt_outside (by omega),
        bufAt_outside (by omega)]
    have hmeant : (addressAt bytes 30).toNat
        = 2 ^ 24 * (bytes.getD 30 0).toNat + 2 ^ 16 * (bytes.getD 31 0).toNat
          + 2 ^ 8 * (bytes.getD 32 0).toNat + (bytes.getD 33 0).toNat :=
      (toNat_addressAt (by omega)).trans (toNat_ipAt _ 30)
    have hlow := (outside (packetFlit bytes 0) 33).toNat_lt
    have hlow' := (bytes.getD 33 0).toNat_lt
    rw [← UInt32.toNat_inj, hread, hmeant, ReadsOn, ← UInt8.toNat_inj, ← UInt8.toNat_inj]
    omega
  rw [tupleOf_tupleMeta, hbuf 23 (by omega), packetTuple, Prod.mk.injEq, and_iff_left rfl, hsrc]
  exact joinHalves_inj.trans ((and_iff_right rfl).trans hdst)

/-! ## Runs -/

/-- In a run that has read the flits of some packets, these have been passed on, and there is a
tuple for each packet. -/
structure Parses (s : KernelState FirstState Flit) (packets : List (List UInt8)) : Prop where
  forwarded : s.sent 1 = packets.flatMap packetToFlits
  tuples : (s.sent 2).map tupleOf = packets.map packetTuple

/-- **When `FlowTupleParser` parses.** For all stream capacities and every run that reads the flits
of some packets, at what time they may come in: all flits are passed on and each packet gets its
tuple, if and only if for each packet the memory behind the buffer holds the two bytes of the
packet that are not in its first flit. -/
theorem flowTupleParser_parses_iff (outside : Flit → Nat → UInt8) (inCap outCap : Nat → Int)
    {as : List (KernelAction Flit)} {packets : List (List UInt8)}
    (hlen : ∀ bytes ∈ packets, 34 ≤ bytes.length)
    (htaken : (exec (kstep (flowTupleParser outside)) (kinit firstInit inCap outCap) as).taken 1
      = packets.flatMap packetToFlits) :
    Parses (exec (kstep (flowTupleParser outside)) (kinit firstInit inCap outCap) as) packets ↔
      ∀ bytes ∈ packets, ReadsOn outside bytes := by
  have hne : ∀ bytes ∈ packets, bytes ≠ [] := by
    rintro bytes hb rfl
    exact absurd (hlen _ hb) (by decide)
  obtain ⟨hone, htwo⟩ := described_packets hne inCap outCap htaken
  have htuples : (∀ bytes ∈ packets, ReadsOn outside bytes) ↔
      ∀ bytes ∈ packets, tupleOf (tupleMeta outside (packetFlit bytes 0)) = packetTuple bytes :=
    forall₂_congr fun bytes hb => (tuple_eq_iff (hlen bytes hb)).symm
  rw [htuples, ← List.map_inj_left, ← Function.comp_def, ← List.map_map, ← htwo]
  exact ⟨fun h => h.tuples, fun h => ⟨hone, h⟩⟩

/-- Two packets to different hosts, and one key for both. -/
theorem flowTupleParser_one_key :
    ¬ ∃ outside : Flit → Nat → UInt8, ∀ as : List (KernelAction Flit),
      (exec (kstep (flowTupleParser outside)) (kinit firstInit (fun _ => 1) fun _ => 1) as).taken 1
          = [packetTo 1, packetTo 2].flatMap packetToFlits →
        Parses (exec (kstep (flowTupleParser outside))
          (kinit firstInit (fun _ => 1) fun _ => 1) as) [packetTo 1, packetTo 2] := by
  rintro ⟨outside, hparses⟩
  obtain ⟨as, f, htaken, hsent⟩ :=
    descriptions_packetTo (tupleMeta outside) (fun _ => 1) (fun _ => 1) 1 2
  have htuples := (hparses as htaken).tuples
  have hkeys : [tupleOf f, tupleOf f] = [packetTuple (packetTo 1), packetTuple (packetTo 2)] :=
    (congrArg (List.map tupleOf) hsent).symm.trans htuples
  obtain ⟨hone, hrest⟩ := List.cons.inj hkeys
  have htwo := (List.cons.inj hrest).1
  have hdiffer : packetTuple (packetTo 1) ≠ packetTuple (packetTo 2) := by decide
  exact hdiffer (hone.symm.trans htwo)

theorem flowTupleParser_parses_one : ∃ as : List (KernelAction Flit),
    Parses (exec (kstep (flowTupleParser fun _ _ => 0))
        (kinit firstInit (fun _ => 1) fun _ => 1) as) [packetTo 0] ↔
      ∀ bytes ∈ [packetTo 0], ReadsOn (fun _ _ => 0) bytes := by
  obtain ⟨as, htaken⟩ :=
    feed_packets (tupleMeta fun _ _ => 0) (fun _ => 1) (fun _ => 1) [packetTo 0]
  exact ⟨as, flowTupleParser_parses_iff (fun _ _ => 0) (fun _ => 1) (fun _ => 1) (by decide) htaken⟩

end OpenClickNP
