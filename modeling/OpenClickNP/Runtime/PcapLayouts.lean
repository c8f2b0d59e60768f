import OpenClickNP.Runtime.Pcap

/-!
# `pcap.cpp`: the four layouts of a savefile

The magic number of a savefile tells its byte order and the unit of its timestamps. `open` keeps
both in `swap_` and `nano_`. `next` reads `swap_`: the words of a record come out right in either
byte order (`next_captured`). It never reads `nano_`: the fraction of a second goes into `ts_usec`
as it stands in the file, so the timestamps of a nanosecond file are right only where the fraction
is zero (`readsBack_iff`). The writer's files are little-endian ones in microseconds, and are read back
as far as the lengths of the packets go (`roundTrips_iff`).
-/

namespace OpenClickNP

namespace Pcap

/-! ## Savefiles -/

inductive ByteOrder
  | little
  | big
deriving DecidableEq

inductive Resolution
  | micro
  | nano
deriving DecidableEq

/-- What the magic number says of a file. -/
structure Layout where
  order : ByteOrder
  resolution : Resolution
deriving DecidableEq

/-- A word of a file. -/
def ByteOrder.word : ByteOrder → UInt32 → List UInt8
  | .little, w => wordBytes w
  | .big, w => (wordBytes w).reverse

def ByteOrder.swap : ByteOrder → Bool
  | .little => false
  | .big => true

def Resolution.magic : Resolution → UInt32
  | .micro => kMagicLE
  | .nano => kMagicLENano

def Resolution.nanoFlag : Resolution → Bool
  | .micro => false
  | .nano => true

/-- A fraction of a second in microseconds. -/
def Resolution.micros : Resolution → UInt32 → UInt32
  | .micro, fraction => fraction
  | .nano, fraction => fraction / 1000

/-- The header of a file behind its magic number, which the reader skips. -/
structure FileHeader where
  rest : List UInt8
  length_rest : rest.length = 20

/-- A packet of a file, with its length on the wire. The fraction of the second is in the unit of
the file. -/
structure Captured where
  tsSec : UInt32
  fraction : UInt32
  bytes : List UInt8
  origLen : UInt32

namespace Layout

def captured (l : Layout) (p : Captured) : List UInt8 :=
  [p.tsSec, p.fraction, UInt32.ofNat p.bytes.length, p.origLen].flatMap l.order.word ++ p.bytes

/-- The file of a list of packets. -/
def encode (l : Layout) (header : FileHeader) (ps : List Captured) : List UInt8 :=
  l.order.word l.resolution.magic ++ (header.rest ++ ps.flatMap l.captured)

/-- What the reader is to make of a packet. -/
def packet (l : Layout) (p : Captured) : PcapPacket :=
  { tsSec := p.tsSec, tsUsec := l.resolution.micros p.fraction, bytes := p.bytes }

/-- The reader in front of `ahead`. -/
def reader (l : Layout) (ahead : List UInt8) : PcapReader :=
  { file := { ahead := ahead }, swap := l.order.swap, nano := l.resolution.nanoFlag }

end Layout

/-- The file opens, and gives the packets back with their timestamps in microseconds. -/
def ReadsBack (l : Layout) (header : FileHeader) (ps : List Captured) : Prop :=
  (PcapReader.open (l.encode header ps)).1 = true ∧
    Returns (PcapReader.open (l.encode header ps)).2 (ps.map l.packet)

/-! ## Byte orders -/

/-- The mask of one byte. -/
theorem getLsbD_mask {m : UInt32} {k : Nat}
    (hmask : ∀ i : Fin 32, m.toBitVec.getLsbD i = decide (k ≤ i.val ∧ i.val < k + 8))
    (hk : k + 8 ≤ 32) (i : Nat) : m.toBitVec.getLsbD i = decide (k ≤ i ∧ i < k + 8) := by
  rcases Nat.lt_or_ge i 32 with hi | hi
  · exact hmask ⟨i, hi⟩
  · rw [BitVec.getLsbD_of_ge _ _ hi, eq_comm, decide_eq_false_iff_not]
    omega

theorem getLsbD_shiftLeft (w : UInt32) {i k : Nat} (hi : i < 32) (hk : k < 32) :
    (w <<< UInt32.ofNat k).toBitVec.getLsbD i
      = (decide (k ≤ i) && w.toBitVec.getLsbD (i - k)) := by
  have hmod : (UInt32.ofNat k).toBitVec.toNat % 32 = k := by
    show k % 2 ^ 32 % 32 = k
    omega
  rw [UInt32.toBitVec_shiftLeft, BitVec.shiftLeft_eq', BitVec.toNat_umod]
  show (w.toBitVec <<< ((UInt32.ofNat k).toBitVec.toNat % 32)).getLsbD i = _
  rw [hmod, BitVec.getLsbD_shiftLeft]
  simp only [hi, decide_true, Bool.true_and]
  grind

theorem getLsbD_shiftRight (w : UInt32) {k : Nat} (hk : k < 32) (i : Nat) :
    (w >>> UInt32.ofNat k).toBitVec.getLsbD i = w.toBitVec.getLsbD (k + i) := by
  have hmod : (UInt32.ofNat k).toBitVec.toNat % 32 = k := by
    show k % 2 ^ 32 % 32 = k
    omega
  rw [UInt32.toBitVec_shiftRight, BitVec.ushiftRight_eq', BitVec.toNat_umod]
  show (w.toBitVec >>> ((UInt32.ofNat k).toBitVec.toNat % 32)).getLsbD i = _
  rw [hmod, BitVec.getLsbD_ushiftRight]

/-- Byte `k` of the result is byte `3 - k` of the word. -/
theorem getLsbD_bswap32 (w : UInt32) {i : Nat} (hi : i < 32) :
    (bswap32 w).toBitVec.getLsbD i = w.toBitVec.getLsbD (8 * (3 - i / 8) + i % 8) := by
  have h0 := getLsbD_mask (m := 0x000000FF) (k := 0) (by decide) (by decide)
  have h1 := getLsbD_mask (m := 0x0000FF00) (k := 8) (by decide) (by decide)
  have h2 := getLsbD_mask (m := 0x00FF0000) (k := 16) (by decide) (by decide)
  have h3 := getLsbD_mask (m := 0xFF000000) (k := 24) (by decide) (by decide)
  show ((w &&& 0x000000FF) <<< UInt32.ofNat 24 ||| (w &&& 0x0000FF00) <<< UInt32.ofNat 8 |||
    (w &&& 0x00FF0000) >>> UInt32.ofNat 8 |||
      (w &&& 0xFF000000) >>> UInt32.ofNat 24).toBitVec.getLsbD i = _
  simp only [UInt32.toBitVec_or, BitVec.getLsbD_or]
  rw [getLsbD_shiftLeft _ hi (by decide), getLsbD_shiftLeft _ hi (by decide),
    getLsbD_shiftRight _ (by decide), getLsbD_shiftRight _ (by decide)]
  simp only [UInt32.toBitVec_and, BitVec.getLsbD_and, h0, h1, h2, h3]
  have hbyte : i / 8 = 0 ∨ i / 8 = 1 ∨ i / 8 = 2 ∨ i / 8 = 3 := by omega
  -- one of the four masks lets the bit through
  rcases hbyte with hbyte | hbyte | hbyte | hbyte
  · rw [show 8 * (3 - i / 8) + i % 8 = 24 + i by omega]
    grind
  · rw [show 8 * (3 - i / 8) + i % 8 = 8 + i by omega]
    grind
  · rw [show 8 * (3 - i / 8) + i % 8 = i - 8 by omega]
    grind
  · rw [show 8 * (3 - i / 8) + i % 8 = i - 24 by omega]
    grind

theorem bswap32_bswap32 (w : UInt32) : bswap32 (bswap32 w) = w := by
  apply UInt32.toBitVec_inj.mp
  refine BitVec.eq_of_getLsbD_eq fun i hi => ?_
  rw [getLsbD_bswap32 _ hi, getLsbD_bswap32 _ (by omega)]
  congr 1
  omega

theorem overwrite_reverse (w : UInt32) : overwrite 0 (wordBytes w).reverse = bswap32 w := by
  show (w >>> 24).toUInt8.toUInt32 ||| (w >>> 16).toUInt8.toUInt32 <<< 8 |||
    (w >>> 8).toUInt8.toUInt32 <<< 16 ||| w.toUInt8.toUInt32 <<< 24 = bswap32 w
  apply UInt32.toBitVec_inj.mp
  refine BitVec.eq_of_getLsbD_eq fun i hi => ?_
  rw [getLsbD_bswap32 w hi]
  simp only [UInt32.toBitVec_or, UInt32.toBitVec_shiftLeft, UInt8.toBitVec_toUInt32,
    UInt32.toBitVec_toUInt8, UInt32.toBitVec_shiftRight]
  simp [BitVec.getLsbD_setWidth, hi]
  grind

section
variable (o : ByteOrder)

theorem length_word (w : UInt32) : (o.word w).length = 4 := by
  cases o <;> rfl

/-- A word of a file, after the swap. -/
theorem swapped_word (w : UInt32) :
    (if o.swap then bswap32 (overwrite 0 (o.word w)) else overwrite 0 (o.word w)) = w := by
  cases o with
  | little => exact overwrite_wordBytes 0 w
  | big => exact (congrArg bswap32 (overwrite_reverse w)).trans (bswap32_bswap32 w)

theorem length_words (ws : List UInt32) : (ws.flatMap o.word).length = 4 * ws.length := by
  induction ws with
  | nil => rfl
  | cons w ws ih =>
    rw [List.flatMap_cons, List.length_append, length_word, ih, List.length_cons]
    omega

theorem take_word (w : UInt32) (rest : List UInt8) : (o.word w ++ rest).take 4 = o.word w := by
  rw [List.take_append_of_le_length (Nat.le_of_eq (length_word o w).symm),
    List.take_of_length_le (Nat.le_of_eq (length_word o w))]

theorem drop_word (w : UInt32) (rest : List UInt8) : (o.word w ++ rest).drop 4 = rest := by
  rw [List.drop_append_of_le_length (Nat.le_of_eq (length_word o w).symm),
    List.drop_of_length_le (Nat.le_of_eq (length_word o w)), List.nil_append]

theorem headerWord_zero (w : UInt32) (rest : List UInt8) :
    headerWord o.swap (o.word w ++ rest) 0 = w := by
  show (if o.swap then bswap32 (overwrite 0 ((o.word w ++ rest).take 4))
    else overwrite 0 ((o.word w ++ rest).take 4)) = w
  rw [take_word]
  exact swapped_word o w

theorem headerWord_succ (w : UInt32) (rest : List UInt8) (i : Nat) :
    headerWord o.swap (o.word w ++ rest) (i + 1) = headerWord o.swap rest i := by
  have hdrop : (o.word w ++ rest).drop (4 * (i + 1)) = rest.drop (4 * i) := by
    rw [Nat.mul_succ, Nat.add_comm, ← List.drop_drop, drop_word]
  simp only [headerWord, hdrop]

end

/-! ## Packets -/

/-- What the reader makes of a packet: the fraction as it stands in the file. -/
def Captured.asRead (p : Captured) : PcapPacket :=
  { tsSec := p.tsSec, tsUsec := p.fraction, bytes := p.bytes }

theorem flagsOf_magic (l : Layout) :
    flagsOf (overwrite 0 (l.order.word l.resolution.magic))
      = some (l.order.swap, l.resolution.nanoFlag) := by
  obtain ⟨order, resolution⟩ := l
  cases order <;> cases resolution <;> decide

theorem open_encode (l : Layout) (header : FileHeader) (ps : List Captured) :
    PcapReader.open (l.encode header ps) = (true, l.reader (ps.flatMap l.captured)) := by
  have hmagic : ({ ahead := l.encode header ps } : InFile).read 4
      = (l.order.word l.resolution.magic, { ahead := header.rest ++ ps.flatMap l.captured }) :=
    read_append rfl rfl (length_word _ _)
  have hrest : ({ ahead := header.rest ++ ps.flatMap l.captured } : InFile).read 20
      = (header.rest, { ahead := ps.flatMap l.captured }) :=
    read_append rfl rfl header.length_rest
  unfold PcapReader.open
  simp only [hmagic, flagsOf_magic, hrest]
  rfl

theorem next_reader_nil (l : Layout) (out : PcapPacket) : ((l.reader []).next out).1 = false := rfl

section
variable (l : Layout) {p : Captured}

/-- **A packet in any of the layouts**, of a length that the reader accepts. -/
theorem next_captured (h : p.bytes.length ≤ 65535) (rest : List UInt8) (out : PcapPacket) :
    (l.reader (l.captured p ++ rest)).next out = (true, p.asRead, l.reader rest) := by
  let words := [p.tsSec, p.fraction, UInt32.ofNat p.bytes.length, p.origLen]
  have hsize : (UInt32.ofNat p.bytes.length).toNat = p.bytes.length := by
    rw [UInt32.toNat_ofNat']
    omega
  have hlen : (words.flatMap l.order.word).length = 16 := length_words _ _
  have hread : (l.reader (l.captured p ++ rest)).file.read 16
      = (words.flatMap l.order.word, { ahead := p.bytes ++ rest }) :=
    read_append (List.append_assoc _ _ _) rfl hlen
  have hswap : (l.reader (l.captured p ++ rest)).swap = l.order.swap := rfl
  have h0 : headerWord l.order.swap (words.flatMap l.order.word) 0 = p.tsSec :=
    headerWord_zero _ _ _
  have h1 : headerWord l.order.swap (words.flatMap l.order.word) 1 = p.fraction :=
    (headerWord_succ _ _ _ 0).trans (headerWord_zero _ _ _)
  have h2 : headerWord l.order.swap (words.flatMap l.order.word) 2
      = UInt32.ofNat p.bytes.length :=
    ((headerWord_succ _ _ _ 1).trans (headerWord_succ _ _ _ 0)).trans (headerWord_zero _ _ _)
  have hincl : (headerWord (l.reader (l.captured p ++ rest)).swap
      (words.flatMap l.order.word) 2).toNat = p.bytes.length := by
    rw [hswap, h2, hsize]
  rw [next_of_header hread hlen hincl h, hswap, h0, h1]
  exact readBody_append (p := p.asRead) _ rfl rfl

/-- The reader gives packets back as `f` wants them exactly when it accepts their lengths, and
`f` wants them as it reads them. -/
theorem returns_captured_iff (f : Captured → PcapPacket) (hf : ∀ p, (f p).bytes = p.bytes)
    (ps : List Captured) :
    Returns (l.reader (ps.flatMap l.captured)) (ps.map f)
      ↔ ∀ p ∈ ps, p.bytes.length ≤ 65535 ∧ f p = p.asRead := by
  induction ps with
  | nil => exact iff_of_true (next_reader_nil l) nofun
  | cons p ps ih =>
    rw [List.flatMap_cons, List.map_cons, Returns, List.forall_mem_cons, ← ih]
    constructor
    · intro h
      obtain ⟨htrue, hpacket, hrest⟩ := h {}
      have hlen := length_next htrue
      rw [hpacket, hf] at hlen
      rw [next_captured l hlen] at hpacket hrest
      exact ⟨⟨hlen, hpacket.symm⟩, hrest⟩
    · rintro ⟨⟨hlen, hpacket⟩, hrest⟩ out
      rw [next_captured l hlen]
      exact ⟨rfl, hpacket.symm, hrest⟩

/-- The timestamp comes out in microseconds: in a microsecond file, or at a full second. -/
theorem packet_eq_asRead_iff (p : Captured) :
    l.packet p = p.asRead ↔ l.resolution = .nano → p.fraction = 0 := by
  have hfraction : l.packet p = p.asRead ↔ l.resolution.micros p.fraction = p.fraction := by
    simp only [Layout.packet, Captured.asRead, PcapPacket.mk.injEq, true_and, and_true]
  rw [hfraction]
  cases l.resolution with
  | micro => exact iff_of_true rfl nofun
  | nano =>
    rw [forall_prop_of_true rfl, ← UInt32.toNat_inj, ← UInt32.toNat_inj]
    show (p.fraction / 1000).toNat = p.fraction.toNat ↔ p.fraction.toNat = 0
    rw [UInt32.toNat_div]
    show p.fraction.toNat / 1000 = p.fraction.toNat ↔ p.fraction.toNat = 0
    omega

end

/-! ## Written files -/

/-- The reader in front of `ahead`, in a file that the writer has written. -/
def readerAt (ahead : List UInt8) : PcapReader := { file := { ahead := ahead } }

/-- The record that the writer writes of a packet, in the layout of its files. -/
def PcapPacket.captured (p : PcapPacket) : Captured :=
  { tsSec := p.tsSec, fraction := p.tsUsec, bytes := p.bytes,
    origLen := UInt32.ofNat p.bytes.length }

theorem returns_iff (ps : List PcapPacket) :
    Returns (readerAt (ps.flatMap record)) ps ↔ ∀ p ∈ ps, p.bytes.length ≤ 65535 := by
  have hlayout := returns_captured_iff ⟨.little, .micro⟩ Captured.asRead (fun _ => rfl)
    (ps.map PcapPacket.captured)
  rw [List.map_map, List.flatMap_map, List.forall_mem_map] at hlayout
  have hread : ps.map (Captured.asRead ∘ PcapPacket.captured) = ps := List.map_id ps
  rw [hread] at hlayout
  exact hlayout.trans (forall₂_congr fun p _ => and_iff_left rfl)

theorem open_written (linkType : UInt32) (ps : List PcapPacket) :
    PcapReader.open (written linkType ps) = (true, readerAt (ps.flatMap record)) := by
  have hopen := open_encode ⟨.little, .micro⟩
    ⟨[((2 : UInt32) <<< 16) ||| 4, 0, 0, 65535, linkType].flatMap wordBytes, rfl⟩
    (ps.map PcapPacket.captured)
  rw [Layout.encode, List.flatMap_map] at hopen
  exact hopen

/-- **Round trip.** A written file gives the packets back exactly when each of them has at most
`65535` bytes. -/
theorem roundTrips_iff (linkType : UInt32) (ps : List PcapPacket) :
    RoundTrips linkType ps ↔ ∀ p ∈ ps, p.bytes.length ≤ 65535 := by
  rw [RoundTrips, open_written, ← returns_iff]
  exact and_iff_right rfl

/-- The reader stops in front of a packet of `65536` bytes. -/
theorem roundTrips_long : ¬ RoundTrips 1 [{ bytes := List.replicate 65536 0 }] := by
  rw [RoundTrips, open_written]
  rintro ⟨-, hreturns⟩
  have hlen := (returns_iff _).mp hreturns _ List.mem_cons_self
  rw [List.length_replicate] at hlen
  omega

/-! ## The four layouts -/

/-- **The layouts.** A savefile gives its packets back with their timestamps in microseconds
exactly when no packet has more than `65535` bytes and, in a nanosecond file, every fraction of a
second is zero. -/
theorem readsBack_iff (l : Layout) (header : FileHeader) (ps : List Captured) :
    ReadsBack l header ps ↔
      ∀ p ∈ ps, p.bytes.length ≤ 65535 ∧ (l.resolution = .nano → p.fraction = 0) := by
  have hpackets := returns_captured_iff l l.packet (fun _ => rfl) ps
  simp only [packet_eq_asRead_iff] at hpackets
  rw [ReadsBack, open_encode]
  exact (and_iff_right rfl).trans hpackets

/-- The packet of a nanosecond file that is 1.5 ms into its second comes out 1.5 s into it. -/
theorem not_readsBack_nano :
    ¬ ReadsBack ⟨.little, .nano⟩ ⟨List.replicate 20 0, List.length_replicate⟩
      [{ tsSec := 1000, fraction := 1500000, bytes := [1, 2, 3, 4], origLen := 4 }] := by
  rw [ReadsBack, open_encode]
  rintro ⟨-, hreturns⟩
  have hpacket := (returns_captured_iff _ _ (fun _ => rfl) _).mp hreturns _ List.mem_cons_self
  have hfraction := (packet_eq_asRead_iff _ _).mp hpacket.2 rfl
  exact absurd hfraction (by decide)

end Pcap

end OpenClickNP
