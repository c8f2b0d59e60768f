import OpenClickNP.Lib.BlockFold

/-!
# SHA-1 as FIPS 180-4 defines it

The function that `sha1.hpp` is meant to compute, in the terms of the standard: the words of the
message schedule are a recurrence, the functions of the rounds are `Ch`, `Parity` and `Maj`, and
the digest folds the compression over the blocks of the padded message.
-/

namespace OpenClickNP

namespace Fips180

/-- `ROTL`. -/
def ROTL (n x : UInt32) : UInt32 := (x <<< n) ||| (x >>> (32 - n))

def Ch (x y z : UInt32) : UInt32 := (x &&& y) ^^^ (~~~x &&& z)
def Parity (x y z : UInt32) : UInt32 := x ^^^ y ^^^ z
def Maj (x y z : UInt32) : UInt32 := (x &&& y) ^^^ (x &&& z) ^^^ (y &&& z)

/-- `f_t`. -/
def f (t : Nat) : UInt32 → UInt32 → UInt32 → UInt32 :=
  if t < 20 then Ch else if t < 40 then Parity else if t < 60 then Maj else Parity

/-- `K_t`. -/
def K (t : Nat) : UInt32 :=
  if t < 20 then 0x5a827999 else if t < 40 then 0x6ed9eba1
  else if t < 60 then 0x8f1bbcdc else 0xca62c1d6

/-- The word that the four bytes from `4 * i` on spell. -/
def wordAt (block : List UInt8) (i : Nat) : UInt32 :=
  let byte (j : Nat) : UInt32 := (block.getD (4 * i + j) 0).toUInt32
  byte 0 <<< 24 ||| byte 1 <<< 16 ||| byte 2 <<< 8 ||| byte 3

/-- `W_t`. -/
def W (M : Nat → UInt32) (t : Nat) : UInt32 :=
  if t < 16 then M t
  else ROTL 1 (W M (t - 3) ^^^ W M (t - 8) ^^^ W M (t - 14) ^^^ W M (t - 16))
termination_by t

/-- The five words of the hash value, and the working variables of the compression. -/
structure Words where
  a : UInt32
  b : UInt32
  c : UInt32
  d : UInt32
  e : UInt32
deriving DecidableEq

def round (M : Nat → UInt32) (v : Words) (t : Nat) : Words where
  a := ROTL 5 v.a + f t v.b v.c v.d + v.e + K t + W M t
  b := v.a
  c := ROTL 30 v.b
  d := v.c
  e := v.d

/-- The hash value after the block. -/
def compress (H : Words) (block : List UInt8) : Words :=
  let v := (List.range 80).foldl (round (wordAt block)) H
  { a := v.a + H.a, b := v.b + H.b, c := v.c + H.c, d := v.d + H.d, e := v.e + H.e }

/-- `H^(0)`. -/
def H0 : Words where
  a := 0x67452301
  b := 0xefcdab89
  c := 0x98badcfe
  d := 0x10325476
  e := 0xc3d2e1f0

/-- The `n` low bytes of `v`, the highest first. -/
def bigEndian (n v : Nat) : List UInt8 :=
  (List.range n).map fun i => UInt8.ofNat (v >>> (8 * (n - 1 - i)))

/-- How many zeros complete the last block. -/
def zeros (len : Nat) : Nat := (64 - (len + 9) % 64) % 64

/-- The padded message: a one bit, zeros, and the bit length. -/
def pad (m : List UInt8) : List UInt8 :=
  m ++ [0x80] ++ List.replicate (zeros m.length) 0 ++ bigEndian 8 (8 * m.length)

theorem length_bigEndian (n v : Nat) : (bigEndian n v).length = n := by simp [bigEndian]

/-- The padded message is made of whole blocks. -/
theorem length_pad (m : List UInt8) : (pad m).length % 64 = 0 := by
  simp only [pad, List.length_append, List.length_singleton, List.length_replicate,
    length_bigEndian, zeros]
  omega

def digest (H : Words) : List UInt8 :=
  [H.a, H.b, H.c, H.d, H.e].flatMap fun w => bigEndian 4 w.toNat

/-- The SHA-1 of a message of bytes. -/
def sha1 (m : List UInt8) : List UInt8 :=
  digest (BlockFold.foldBlocks compress 64 H0 (pad m))

end Fips180

end OpenClickNP
