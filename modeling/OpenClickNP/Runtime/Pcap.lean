import Mathlib.Data.List.Basic
import Mathlib.Data.List.GetD
import Mathlib.Tactic.Common

/-!
# `pcap.cpp`: packets in a savefile

A record is its header of sixteen bytes and the bytes of the packet. The reader refuses a record
of more than `65535` bytes, the snapshot length that the writer puts into the header of the file,
and nothing can be read behind it (`length_next`).

The host is little-endian: a word in memory is its lowest byte first.
-/

namespace OpenClickNP

namespace Pcap

/-! ## Words in memory -/

/-- The bytes of a word. -/
def wordBytes (w : UInt32) : List UInt8 :=
  [w.toUInt8, (w >>> 8).toUInt8, (w >>> 16).toUInt8, (w >>> 24).toUInt8]

/-- The word that `word` is after its first bytes have been overwritten with `bytes`. -/
def overwrite (word : UInt32) (bytes : List UInt8) : UInt32 :=
  let byte (i : Nat) : UInt32 := (bytes.getD i ((wordBytes word).getD i 0)).toUInt32
  byte 0 ||| byte 1 <<< 8 ||| byte 2 <<< 16 ||| byte 3 <<< 24

def kMagicLE : UInt32 := 0xa1b2c3d4
def kMagicBE : UInt32 := 0xd4c3b2a1
def kMagicLENano : UInt32 := 0xa1b23c4d
def kMagicBENano : UInt32 := 0x4d3cb2a1

def bswap32 (v : UInt32) : UInt32 :=
  ((v &&& 0x000000FF) <<< 24) ||| ((v &&& 0x0000FF00) <<< 8) |||
    ((v &&& 0x00FF0000) >>> 8) ||| ((v &&& 0xFF000000) >>> 24)

/-! ## Streams -/

/-- An `ifstream` on a file: the bytes ahead, and whether no read has failed. -/
structure InFile where
  ahead : List UInt8
  good : Bool := true

/-- `read(.., n)`: what it has read, `gcount()` bytes. Once a read has come too short, every later
one fails. -/
def InFile.read (f : InFile) (n : Nat) : List UInt8 × InFile :=
  if f.good then
    (f.ahead.take n, { ahead := f.ahead.drop n, good := decide (n ≤ f.ahead.length) })
  else ([], f)

/-- `PcapPacket`. -/
structure PcapPacket where
  tsSec : UInt32 := 0
  tsUsec : UInt32 := 0
  bytes : List UInt8 := []
deriving DecidableEq

/-- `PcapReader`, with its file. -/
structure PcapReader where
  file : InFile
  swap : Bool := false
  nano : Bool := false

/-- The flags `swap_` and `nano_` for the magic number. -/
def flagsOf (magic : UInt32) : Option (Bool × Bool) :=
  if magic = kMagicLE then some (false, false)
  else if magic = kMagicBE then some (true, false)
  else if magic = kMagicLENano then some (false, true)
  else if magic = kMagicBENano then some (true, true)
  else none

/-- `PcapReader::open`, for a file with the given contents. -/
def PcapReader.open (contents : List UInt8) : Bool × PcapReader :=
  let (bytes, file) := ({ ahead := contents } : InFile).read 4
  match flagsOf (overwrite 0 bytes) with
  | some (swap, nano) =>
    let (_, file) := file.read 20
    (file.good, { file := file, swap := swap, nano := nano })
  | none => (false, { file := file })

/-- `hdr[i]`, for the sixteen bytes of a record header. -/
def headerWord (swap : Bool) (hdr : List UInt8) (i : Nat) : UInt32 :=
  let w := overwrite 0 ((hdr.drop (4 * i)).take 4)
  if swap then bswap32 w else w

/-- The end of `next`: the vector is resized, and the read fills it from the front. -/
def PcapReader.readBody (r : PcapReader) (out : PcapPacket) (inclLen : Nat) :
    Bool × PcapPacket × PcapReader :=
  let (body, file) := r.file.read inclLen
  let resized := out.bytes.take inclLen ++ List.replicate (inclLen - out.bytes.length) 0
  (body.length = inclLen, { out with bytes := body ++ resized.drop body.length },
    { r with file := file })

/-- `PcapReader::next(out)`: the result, `out`, and the reader. -/
def PcapReader.next (r : PcapReader) (out : PcapPacket) : Bool × PcapPacket × PcapReader :=
  let (hdr, file) := r.file.read 16
  let r := { r with file := file }
  if hdr.length ≠ 16 then (false, out, r)
  else
    let out := { out with
      tsSec := headerWord r.swap hdr 0
      tsUsec := headerWord r.swap hdr 1 }
    let inclLen := (headerWord r.swap hdr 2).toNat
    if inclLen > 65535 then (false, out, r) else r.readBody out inclLen

/-- What `PcapWriter::open` writes. -/
def fileHeader (linkType : UInt32) : List UInt8 :=
  [kMagicLE, ((2 : UInt32) <<< 16) ||| 4, 0, 0, 65535, linkType].flatMap wordBytes

/-- What `PcapWriter::write` writes. -/
def record (p : PcapPacket) : List UInt8 :=
  let size := UInt32.ofNat p.bytes.length
  [p.tsSec, p.tsUsec, size, size].flatMap wordBytes ++ p.bytes

/-- The file after `open`, a `write` for each packet, and `close`. -/
def written (linkType : UInt32) (ps : List PcapPacket) : List UInt8 :=
  fileHeader linkType ++ ps.flatMap record

/-! ## Round trips -/

/-- Whatever `out` is passed, `next` returns the packets one after the other, and then false. -/
def Returns (r : PcapReader) : List PcapPacket → Prop
  | [] => ∀ out, (r.next out).1 = false
  | p :: ps => ∀ out, (r.next out).1 = true ∧ (r.next out).2.1 = p ∧ Returns (r.next out).2.2 ps

/-- The written file opens, and gives the packets back. -/
def RoundTrips (linkType : UInt32) (ps : List PcapPacket) : Prop :=
  (PcapReader.open (written linkType ps)).1 = true ∧
    Returns (PcapReader.open (written linkType ps)).2 ps

theorem overwrite_wordBytes (word w : UInt32) : overwrite word (wordBytes w) = w := by
  show w.toUInt8.toUInt32 ||| (w >>> 8).toUInt8.toUInt32 <<< 8 |||
    (w >>> 16).toUInt8.toUInt32 <<< 16 ||| (w >>> 24).toUInt8.toUInt32 <<< 24 = w
  apply UInt32.toBitVec_inj.mp
  simp only [UInt32.toBitVec_or, UInt32.toBitVec_shiftLeft, UInt8.toBitVec_toUInt32,
    UInt32.toBitVec_toUInt8, UInt32.toBitVec_shiftRight]
  refine BitVec.eq_of_getLsbD_eq fun i hi => ?_
  simp [BitVec.getLsbD_setWidth, hi]
  grind

/-- A read of the first part of what is ahead. -/
theorem read_append {f : InFile} {front rest : List UInt8} (hahead : f.ahead = front ++ rest)
    (hgood : f.good = true) {n : Nat} (hn : front.length = n) :
    f.read n = (front, { ahead := rest }) := by
  subst hn
  rw [InFile.read, if_pos hgood, hahead]
  simp

section
variable {r r' : PcapReader} {out : PcapPacket} {p : PcapPacket}

theorem readBody_append {rest : List UInt8} (out : PcapPacket)
    (hahead : r.file.ahead = p.bytes ++ rest) (hgood : r.file.good = true) :
    r.readBody out p.bytes.length
      = (true, { out with bytes := p.bytes }, { r with file := { ahead := rest } }) := by
  have hresized : (out.bytes.take p.bytes.length
      ++ List.replicate (p.bytes.length - out.bytes.length) 0).length = p.bytes.length := by
    rw [List.length_append, List.length_take, List.length_replicate]
    omega
  unfold PcapReader.readBody
  rw [read_append hahead hgood rfl]
  simp only [List.drop_of_length_le (Nat.le_of_eq hresized), List.append_nil, decide_true]

/-- A header of a length that the reader accepts. -/
theorem next_of_header {hdr : List UInt8} {file : InFile} (hread : r.file.read 16 = (hdr, file))
    (hlen : hdr.length = 16) {n : Nat} (hincl : (headerWord r.swap hdr 2).toNat = n)
    (hn : n ≤ 65535) (out : PcapPacket) :
    r.next out = PcapReader.readBody { r with file := file }
      { out with tsSec := headerWord r.swap hdr 0, tsUsec := headerWord r.swap hdr 1 } n := by
  subst hincl
  unfold PcapReader.next
  simp only [hread]
  rw [if_neg (not_not_intro hlen), if_neg (Nat.not_lt.mpr hn)]

/-- The bytes that a read returns with success. -/
theorem length_readBody {n : Nat} (h : (r.readBody out n).1 = true) :
    (r.readBody out n).2.1.bytes.length = n := by
  have hbody : (r.file.read n).1.length = n := of_decide_eq_true h
  have hresized : (out.bytes.take n ++ List.replicate (n - out.bytes.length) 0).length = n := by
    rw [List.length_append, List.length_take, List.length_replicate]
    omega
  show ((r.file.read n).1 ++ (out.bytes.take n
    ++ List.replicate (n - out.bytes.length) 0).drop (r.file.read n).1.length).length = n
  rw [List.length_append, List.length_drop, hbody, hresized, Nat.sub_self, Nat.add_zero]

/-- The reader returns no packet of more than `65535` bytes. -/
theorem length_next (h : (r.next out).1 = true) : (r.next out).2.1.bytes.length ≤ 65535 := by
  unfold PcapReader.next at h ⊢
  simp only at h ⊢
  split at h
  · cases h
  · split at h
    · cases h
    · rename_i hhdr hincl
      rw [if_neg hhdr, if_neg hincl, length_readBody h]
      omega

end

end Pcap

end OpenClickNP
