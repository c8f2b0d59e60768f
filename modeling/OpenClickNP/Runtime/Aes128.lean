import Mathlib.Data.Fintype.EquivFin
import Mathlib.Tactic.IntervalCases
import OpenClickNP.Lib.CounterMode
import OpenClickNP.Lib.Rounds

/-!
# `aes128.hpp`: AES-128

The block cipher works on a state of sixteen bytes, with byte `4 * c + r` in column `c` and row
`r`. Every step of a round is undone by a step of the inverse cipher: the tables are inverse to
each other, so are the two written-out row shifts, and so are the two column maps, which are
linear over the field of `256` elements with `xtime` as multiplication by two. The rounds of
`aes128_decrypt_block` undo those of `aes128_encrypt_block` from the last one to the first.
-/

namespace OpenClickNP

namespace Aes

abbrev Block := Vector UInt8 16

set_option maxRecDepth 4096 in
/-- `sbox`, the forward S-box. -/
def sbox : Vector UInt8 256 := #v[
  0x63, 0x7c, 0x77, 0x7b, 0xf2, 0x6b, 0x6f, 0xc5, 0x30, 0x01, 0x67, 0x2b, 0xfe, 0xd7, 0xab, 0x76,
  0xca, 0x82, 0xc9, 0x7d, 0xfa, 0x59, 0x47, 0xf0, 0xad, 0xd4, 0xa2, 0xaf, 0x9c, 0xa4, 0x72, 0xc0,
  0xb7, 0xfd, 0x93, 0x26, 0x36, 0x3f, 0xf7, 0xcc, 0x34, 0xa5, 0xe5, 0xf1, 0x71, 0xd8, 0x31, 0x15,
  0x04, 0xc7, 0x23, 0xc3, 0x18, 0x96, 0x05, 0x9a, 0x07, 0x12, 0x80, 0xe2, 0xeb, 0x27, 0xb2, 0x75,
  0x09, 0x83, 0x2c, 0x1a, 0x1b, 0x6e, 0x5a, 0xa0, 0x52, 0x3b, 0xd6, 0xb3, 0x29, 0xe3, 0x2f, 0x84,
  0x53, 0xd1, 0x00, 0xed, 0x20, 0xfc, 0xb1, 0x5b, 0x6a, 0xcb, 0xbe, 0x39, 0x4a, 0x4c, 0x58, 0xcf,
  0xd0, 0xef, 0xaa, 0xfb, 0x43, 0x4d, 0x33, 0x85, 0x45, 0xf9, 0x02, 0x7f, 0x50, 0x3c, 0x9f, 0xa8,
  0x51, 0xa3, 0x40, 0x8f, 0x92, 0x9d, 0x38, 0xf5, 0xbc, 0xb6, 0xda, 0x21, 0x10, 0xff, 0xf3, 0xd2,
  0xcd, 0x0c, 0x13, 0xec, 0x5f, 0x97, 0x44, 0x17, 0xc4, 0xa7, 0x7e, 0x3d, 0x64, 0x5d, 0x19, 0x73,
  0x60, 0x81, 0x4f, 0xdc, 0x22, 0x2a, 0x90, 0x88, 0x46, 0xee, 0xb8, 0x14, 0xde, 0x5e, 0x0b, 0xdb,
  0xe0, 0x32, 0x3a, 0x0a, 0x49, 0x06, 0x24, 0x5c, 0xc2, 0xd3, 0xac, 0x62, 0x91, 0x95, 0xe4, 0x79,
  0xe7, 0xc8, 0x37, 0x6d, 0x8d, 0xd5, 0x4e, 0xa9, 0x6c, 0x56, 0xf4, 0xea, 0x65, 0x7a, 0xae, 0x08,
  0xba, 0x78, 0x25, 0x2e, 0x1c, 0xa6, 0xb4, 0xc6, 0xe8, 0xdd, 0x74, 0x1f, 0x4b, 0xbd, 0x8b, 0x8a,
  0x70, 0x3e, 0xb5, 0x66, 0x48, 0x03, 0xf6, 0x0e, 0x61, 0x35, 0x57, 0xb9, 0x86, 0xc1, 0x1d, 0x9e,
  0xe1, 0xf8, 0x98, 0x11, 0x69, 0xd9, 0x8e, 0x94, 0x9b, 0x1e, 0x87, 0xe9, 0xce, 0x55, 0x28, 0xdf,
  0x8c, 0xa1, 0x89, 0x0d, 0xbf, 0xe6, 0x42, 0x68, 0x41, 0x99, 0x2d, 0x0f, 0xb0, 0x54, 0xbb, 0x16]

set_option maxRecDepth 4096 in
/-- `inv_sbox`, the inverse S-box. -/
def invSbox : Vector UInt8 256 := #v[
  0x52, 0x09, 0x6a, 0xd5, 0x30, 0x36, 0xa5, 0x38, 0xbf, 0x40, 0xa3, 0x9e, 0x81, 0xf3, 0xd7, 0xfb,
  0x7c, 0xe3, 0x39, 0x82, 0x9b, 0x2f, 0xff, 0x87, 0x34, 0x8e, 0x43, 0x44, 0xc4, 0xde, 0xe9, 0xcb,
  0x54, 0x7b, 0x94, 0x32, 0xa6, 0xc2, 0x23, 0x3d, 0xee, 0x4c, 0x95, 0x0b, 0x42, 0xfa, 0xc3, 0x4e,
  0x08, 0x2e, 0xa1, 0x66, 0x28, 0xd9, 0x24, 0xb2, 0x76, 0x5b, 0xa2, 0x49, 0x6d, 0x8b, 0xd1, 0x25,
  0x72, 0xf8, 0xf6, 0x64, 0x86, 0x68, 0x98, 0x16, 0xd4, 0xa4, 0x5c, 0xcc, 0x5d, 0x65, 0xb6, 0x92,
  0x6c, 0x70, 0x48, 0x50, 0xfd, 0xed, 0xb9, 0xda, 0x5e, 0x15, 0x46, 0x57, 0xa7, 0x8d, 0x9d, 0x84,
  0x90, 0xd8, 0xab, 0x00, 0x8c, 0xbc, 0xd3, 0x0a, 0xf7, 0xe4, 0x58, 0x05, 0xb8, 0xb3, 0x45, 0x06,
  0xd0, 0x2c, 0x1e, 0x8f, 0xca, 0x3f, 0x0f, 0x02, 0xc1, 0xaf, 0xbd, 0x03, 0x01, 0x13, 0x8a, 0x6b,
  0x3a, 0x91, 0x11, 0x41, 0x4f, 0x67, 0xdc, 0xea, 0x97, 0xf2, 0xcf, 0xce, 0xf0, 0xb4, 0xe6, 0x73,
  0x96, 0xac, 0x74, 0x22, 0xe7, 0xad, 0x35, 0x85, 0xe2, 0xf9, 0x37, 0xe8, 0x1c, 0x75, 0xdf, 0x6e,
  0x47, 0xf1, 0x1a, 0x71, 0x1d, 0x29, 0xc5, 0x89, 0x6f, 0xb7, 0x62, 0x0e, 0xaa, 0x18, 0xbe, 0x1b,
  0xfc, 0x56, 0x3e, 0x4b, 0xc6, 0xd2, 0x79, 0x20, 0x9a, 0xdb, 0xc0, 0xfe, 0x78, 0xcd, 0x5a, 0xf4,
  0x1f, 0xdd, 0xa8, 0x33, 0x88, 0x07, 0xc7, 0x31, 0xb1, 0x12, 0x10, 0x59, 0x27, 0x80, 0xec, 0x5f,
  0x60, 0x51, 0x7f, 0xa9, 0x19, 0xb5, 0x4a, 0x0d, 0x2d, 0xe5, 0x7a, 0x9f, 0x93, 0xc9, 0x9c, 0xef,
  0xa0, 0xe0, 0x3b, 0x4d, 0xae, 0x2a, 0xf5, 0xb0, 0xc8, 0xeb, 0xbb, 0x3c, 0x83, 0x53, 0x99, 0x61,
  0x17, 0x2b, 0x04, 0x7e, 0xba, 0x77, 0xd6, 0x26, 0xe1, 0x69, 0x14, 0x63, 0x55, 0x21, 0x0c, 0x7d]

/-- A look-up in a table of `256` bytes. -/
def at256 (table : Vector UInt8 256) (x : UInt8) : UInt8 := table.get x.toFin

/-- Multiplication by two in the field of `256` elements. -/
def xtime (x : UInt8) : UInt8 := (x <<< 1) ^^^ (if x >>> 7 != 0 then 0x1b else 0x00)

/-- `rcon`, the round constants. -/
def rcon : Vector UInt8 11 :=
  #v[0x00, 0x01, 0x02, 0x04, 0x08, 0x10, 0x20, 0x40, 0x80, 0x1b, 0x36]

/-- `Key128`: eleven round keys of sixteen bytes. -/
structure Key128 where
  rk : Vector UInt8 176 := Vector.replicate 176 0
deriving DecidableEq

/-! ## Key schedule -/

/-- The turn of the loop of `aes128_key_expand` at `i = 16 + 4 * n`. -/
def expandTurn (rk : Vector UInt8 176) (n : Fin 40) : Vector UInt8 176 :=
  let i := 16 + 4 * n.val
  let t : Vector UInt8 4 := #v[rk[i - 4], rk[i - 3], rk[i - 2], rk[i - 1]]
  let t : Vector UInt8 4 :=
    if i % 16 = 0 then
      #v[at256 sbox t[1] ^^^ rcon[i / 16], at256 sbox t[2], at256 sbox t[3], at256 sbox t[0]]
    else t
  (((rk.set i (rk[i - 16] ^^^ t[0])).set (i + 1) (rk[i - 16 + 1] ^^^ t[1])).set (i + 2)
    (rk[i - 16 + 2] ^^^ t[2])).set (i + 3) (rk[i - 16 + 3] ^^^ t[3])

/-- `aes128_key_expand`. The cipher key is the first round key. -/
def aes128KeyExpand (key : Block) : Key128 where
  rk := (List.finRange 40).foldl expandTurn
    (Vector.ofFn fun i => if h : i.val < 16 then key[i.val] else 0)

/-! ## Steps of a round -/

def addRoundKey (k : Key128) (round : Fin 11) (s : Block) : Block :=
  Vector.ofFn fun i => s[i.val] ^^^ k.rk[round.val * 16 + i.val]

def subBytes (s : Block) : Block := s.map (at256 sbox)

def invSubBytes (s : Block) : Block := s.map (at256 invSbox)

/-- Row `r` goes left by `r` columns, byte by byte as written. -/
def shiftRows (t : Block) : Block := #v[
  t[0], t[5], t[10], t[15], t[4], t[9], t[14], t[3],
  t[8], t[13], t[2], t[7], t[12], t[1], t[6], t[11]]

/-- Row `r` goes right by `r` columns, byte by byte as written. -/
def invShiftRows (s : Block) : Block := #v[
  s[0], s[13], s[10], s[7], s[4], s[1], s[14], s[11],
  s[8], s[5], s[2], s[15], s[12], s[9], s[6], s[3]]

abbrev Column := Vector UInt8 4

def mixColumn (a : Column) : Column :=
  let x0 := a[0] ^^^ a[1] ^^^ a[2] ^^^ a[3]
  #v[a[0] ^^^ x0 ^^^ xtime (a[0] ^^^ a[1]), a[1] ^^^ x0 ^^^ xtime (a[1] ^^^ a[2]),
    a[2] ^^^ x0 ^^^ xtime (a[2] ^^^ a[3]), a[3] ^^^ x0 ^^^ xtime (a[3] ^^^ a[0])]

def gmul2 (x : UInt8) : UInt8 := xtime x
def gmul4 (x : UInt8) : UInt8 := xtime (xtime x)
def gmul8 (x : UInt8) : UInt8 := xtime (xtime (xtime x))
def gmul9 (x : UInt8) : UInt8 := gmul8 x ^^^ x
def gmul11 (x : UInt8) : UInt8 := gmul8 x ^^^ gmul2 x ^^^ x
def gmul13 (x : UInt8) : UInt8 := gmul8 x ^^^ gmul4 x ^^^ x
def gmul14 (x : UInt8) : UInt8 := gmul8 x ^^^ gmul4 x ^^^ gmul2 x

def invMixColumn (a : Column) : Column :=
  #v[gmul14 a[0] ^^^ gmul11 a[1] ^^^ gmul13 a[2] ^^^ gmul9 a[3],
    gmul9 a[0] ^^^ gmul14 a[1] ^^^ gmul11 a[2] ^^^ gmul13 a[3],
    gmul13 a[0] ^^^ gmul9 a[1] ^^^ gmul14 a[2] ^^^ gmul11 a[3],
    gmul11 a[0] ^^^ gmul13 a[1] ^^^ gmul9 a[2] ^^^ gmul14 a[3]]

/-- Column `c` of the state. -/
def column (s : Block) (c : Fin 4) : Column := Vector.ofFn fun r => s[4 * c.val + r.val]

/-- A map of the columns, one by one. -/
def mapColumns (f : Column → Column) (s : Block) : Block :=
  Vector.ofFn fun i => (f (column s ⟨i.val / 4, by omega⟩))[i.val % 4]

def mixColumns : Block → Block := mapColumns mixColumn

def invMixColumns : Block → Block := mapColumns invMixColumn

/-! ## The cipher -/

/-- The rounds of the two loops. -/
def middleRounds : List (Fin 11) := [1, 2, 3, 4, 5, 6, 7, 8, 9]

def encryptRound (k : Key128) (round : Fin 11) (s : Block) : Block :=
  addRoundKey k round (mixColumns (shiftRows (subBytes s)))

/-- `aes128_encrypt_block`. -/
def aes128EncryptBlock (k : Key128) (input : Block) : Block :=
  let s := Rounds.run (encryptRound k) middleRounds (addRoundKey k 0 input)
  addRoundKey k 10 (shiftRows (subBytes s))

def decryptRound (k : Key128) (round : Fin 11) (s : Block) : Block :=
  invMixColumns (addRoundKey k round (invSubBytes (invShiftRows s)))

/-- `aes128_decrypt_block`. -/
def aes128DecryptBlock (k : Key128) (input : Block) : Block :=
  let s := Rounds.run (decryptRound k) middleRounds.reverse (addRoundKey k 10 input)
  addRoundKey k 0 (invSubBytes (invShiftRows s))

/-! ## Each step undone -/

/-- One pass over the forward table. -/
theorem invSbox_of_mem : ∀ p ∈ sbox.toList.zipIdx, at256 invSbox p.1 = UInt8.ofNat p.2 := by
  have htable : sbox.toList.zipIdx.all (fun p => at256 invSbox p.1 == UInt8.ofNat p.2) = true := by
    decide +kernel
  intro p hp
  exact beq_iff_eq.mp (List.all_eq_true.mp htable p hp)

theorem getElem?_eq_at256 (table : Vector UInt8 256) (x : UInt8) :
    table[x.toNat]? = some (at256 table x) :=
  Vector.getElem?_eq_getElem x.toNat_lt

theorem invSbox_sbox (x : UInt8) : at256 invSbox (at256 sbox x) = x := by
  have hmem : (at256 sbox x, x.toNat) ∈ sbox.toList.zipIdx := by
    rw [List.mem_zipIdx_iff_getElem?, Vector.getElem?_toList]
    exact getElem?_eq_at256 sbox x
  rw [invSbox_of_mem _ hmem, UInt8.ofNat_toNat]

/-- The forward table has no byte twice, so it has them all. -/
theorem sbox_invSbox (x : UInt8) : at256 sbox (at256 invSbox x) = x := by
  have hfinite : Finite UInt8 := Finite.of_injective UInt8.toFin fun a b h => UInt8.toFin_inj.mp h
  have hinj : Function.Injective (at256 sbox) := Function.LeftInverse.injective invSbox_sbox
  obtain ⟨y, rfl⟩ := Finite.surjective_of_injective hinj x
  rw [invSbox_sbox]

theorem invSubBytes_subBytes (s : Block) : invSubBytes (subBytes s) = s := by
  ext i hi
  simp [invSubBytes, subBytes, invSbox_sbox]

theorem subBytes_invSubBytes (s : Block) : subBytes (invSubBytes s) = s := by
  ext i hi
  simp [invSubBytes, subBytes, sbox_invSbox]

theorem invShiftRows_shiftRows (s : Block) : invShiftRows (shiftRows s) = s := by
  ext i hi
  interval_cases i <;> rfl

theorem shiftRows_invShiftRows (s : Block) : shiftRows (invShiftRows s) = s := by
  ext i hi
  interval_cases i <;> rfl

theorem xor_left_comm (a b c : UInt8) : a ^^^ (b ^^^ c) = b ^^^ (a ^^^ c) := by
  rw [← UInt8.xor_assoc, UInt8.xor_comm a b, UInt8.xor_assoc]

theorem xor_cancel_left (a b : UInt8) : a ^^^ (a ^^^ b) = b := by
  rw [← UInt8.xor_assoc, UInt8.xor_self, UInt8.zero_xor]

theorem xor_cancel_right (a b : UInt8) : a ^^^ b ^^^ b = a := by
  rw [UInt8.xor_assoc, UInt8.xor_self, UInt8.xor_zero]

theorem addRoundKey_addRoundKey (k : Key128) (round : Fin 11) (s : Block) :
    addRoundKey k round (addRoundKey k round s) = s := by
  ext i hi
  simp only [addRoundKey, Vector.getElem_ofFn, xor_cancel_right]

/-! ## Columns -/

theorem shiftRight_seven (x : UInt8) : x >>> 7 = 0 ∨ x >>> 7 = 1 := by
  have htable : ∀ i : Fin 256, UInt8.ofFin i >>> 7 = 0 ∨ UInt8.ofFin i >>> 7 = 1 := by
    decide +kernel
  exact htable x.toFin

/-- `xtime` is linear. The bit that is shifted out of a sum is the sum of those shifted out. -/
theorem xtime_xor (a b : UInt8) : xtime (a ^^^ b) = xtime a ^^^ xtime b := by
  unfold xtime
  rw [UInt8.shiftLeft_xor, UInt8.shiftRight_xor]
  rcases shiftRight_seven a with ha | ha <;> rcases shiftRight_seven b with hb | hb <;>
    simp [ha, hb, xor_left_comm, UInt8.xor_comm, UInt8.xor_assoc]

/-- The square of `mixColumn`. -/
def spreadColumn (a : Column) : Column :=
  let u := gmul4 (a[0] ^^^ a[2])
  let v := gmul4 (a[1] ^^^ a[3])
  #v[a[0] ^^^ u, a[1] ^^^ v, a[2] ^^^ u, a[3] ^^^ v]

/-- The sums below are over the bytes of the column and their first multiples by `xtime`; a term
that stands in a sum twice drops out. -/
theorem mixColumn_mixColumn (a : Column) : mixColumn (mixColumn a) = spreadColumn a := by
  ext i hi
  interval_cases i
  all_goals
    simp only [mixColumn, spreadColumn, gmul4, Vector.getElem_mk, List.getElem_toArray,
      List.getElem_cons_zero, List.getElem_cons_succ, xtime_xor]
    generalize xtime (xtime a[0]) = c0, xtime (xtime a[1]) = c1, xtime (xtime a[2]) = c2,
      xtime (xtime a[3]) = c3
    generalize xtime a[0] = b0, xtime a[1] = b1, xtime a[2] = b2, xtime a[3] = b3
    generalize a[0] = a0, a[1] = a1, a[2] = a2, a[3] = a3
    simp only [UInt8.xor_comm, xor_left_comm, UInt8.xor_self, xor_cancel_left, UInt8.xor_zero]

theorem invMixColumn_eq (a : Column) : invMixColumn a = mixColumn (spreadColumn a) := by
  ext i hi
  interval_cases i
  all_goals
    simp only [invMixColumn, mixColumn, spreadColumn, gmul14, gmul13, gmul11, gmul9, gmul8, gmul4,
      gmul2, Vector.getElem_mk, List.getElem_toArray, List.getElem_cons_zero,
      List.getElem_cons_succ, xtime_xor]
    generalize xtime (xtime (xtime a[0])) = d0, xtime (xtime (xtime a[1])) = d1,
      xtime (xtime (xtime a[2])) = d2, xtime (xtime (xtime a[3])) = d3
    generalize xtime (xtime a[0]) = c0, xtime (xtime a[1]) = c1, xtime (xtime a[2]) = c2,
      xtime (xtime a[3]) = c3
    generalize xtime a[0] = b0, xtime a[1] = b1, xtime a[2] = b2, xtime a[3] = b3
    generalize a[0] = a0, a[1] = a1, a[2] = a2, a[3] = a3
    simp only [UInt8.xor_comm, xor_left_comm, UInt8.xor_self, xor_cancel_left, UInt8.xor_zero]

/-- What is added to a row is added to the row two below it, so their sum stays. -/
theorem spreadColumn_spreadColumn (a : Column) : spreadColumn (spreadColumn a) = a := by
  have hsum : ∀ x y u : UInt8, (x ^^^ u) ^^^ (y ^^^ u) = x ^^^ y := by
    intro x y u
    rw [UInt8.xor_assoc, UInt8.xor_comm y u, xor_cancel_left]
  ext i hi
  interval_cases i <;> simp only [spreadColumn, Vector.getElem_mk, List.getElem_toArray,
    List.getElem_cons_zero, List.getElem_cons_succ, hsum, xor_cancel_right]

/-- `mixColumn` has order four: its square is its own inverse. -/
theorem invMixColumn_mixColumn (a : Column) : invMixColumn (mixColumn a) = a := by
  rw [invMixColumn_eq, ← mixColumn_mixColumn, mixColumn_mixColumn a, mixColumn_mixColumn,
    spreadColumn_spreadColumn]

theorem mixColumn_invMixColumn (a : Column) : mixColumn (invMixColumn a) = a := by
  rw [invMixColumn_eq, mixColumn_mixColumn, spreadColumn_spreadColumn]

theorem column_mapColumns (f : Column → Column) (s : Block) (c : Fin 4) :
    column (mapColumns f s) c = f (column s c) := by
  ext r hr
  have hdiv : (4 * c.val + r) / 4 = c.val := by omega
  simp [column, mapColumns, hdiv, Nat.mod_eq_of_lt hr]

theorem mapColumns_mapColumns {f g : Column → Column} (h : ∀ a, g (f a) = a) (s : Block) :
    mapColumns g (mapColumns f s) = s := by
  ext i hi
  have hi4 : 4 * (i / 4) + i % 4 = i := Nat.div_add_mod i 4
  rw [mapColumns, Vector.getElem_ofFn]
  simp only [column_mapColumns, h]
  simp [column, hi4]

theorem invMixColumns_mixColumns (s : Block) : invMixColumns (mixColumns s) = s :=
  mapColumns_mapColumns invMixColumn_mixColumn s

theorem mixColumns_invMixColumns (s : Block) : mixColumns (invMixColumns s) = s :=
  mapColumns_mapColumns mixColumn_invMixColumn s

/-! ## The inverse cipher -/

/-- A round of the inverse cipher undoes the substitution of the next round and the rest of its
own. -/
theorem decryptRound_encryptRound (k : Key128) (round : Fin 11) (s : Block) :
    decryptRound k round (shiftRows (subBytes (encryptRound k round s)))
      = shiftRows (subBytes s) := by
  rw [decryptRound, invShiftRows_shiftRows, invSubBytes_subBytes, encryptRound,
    addRoundKey_addRoundKey, invMixColumns_mixColumns]

theorem encryptRound_decryptRound (k : Key128) (round : Fin 11) (s : Block) :
    encryptRound k round (invSubBytes (invShiftRows (decryptRound k round s)))
      = invSubBytes (invShiftRows s) := by
  rw [encryptRound, subBytes_invSubBytes, shiftRows_invShiftRows, decryptRound,
    mixColumns_invMixColumns, addRoundKey_addRoundKey]

theorem decryptBlock_encryptBlock (k : Key128) (x : Block) :
    aes128DecryptBlock k (aes128EncryptBlock k x) = x := by
  have hrounds := Rounds.run_reverse_run (p := fun s => shiftRows (subBytes s))
    (decryptRound_encryptRound k) middleRounds (addRoundKey k 0 x)
  simp only [aes128DecryptBlock, aes128EncryptBlock, addRoundKey_addRoundKey] at hrounds ⊢
  rw [hrounds, invShiftRows_shiftRows, invSubBytes_subBytes, addRoundKey_addRoundKey]

theorem encryptBlock_decryptBlock (k : Key128) (x : Block) :
    aes128EncryptBlock k (aes128DecryptBlock k x) = x := by
  have hrounds := Rounds.run_reverse_run (p := fun s => invSubBytes (invShiftRows s))
    (encryptRound_decryptRound k) middleRounds.reverse (addRoundKey k 10 x)
  rw [List.reverse_reverse] at hrounds
  simp only [aes128DecryptBlock, aes128EncryptBlock, addRoundKey_addRoundKey] at hrounds ⊢
  rw [hrounds, subBytes_invSubBytes, shiftRows_invShiftRows, addRoundKey_addRoundKey]

/-- **Decryption and encryption undo each other**, whatever the key. -/
theorem aes128_inverse (key x : Block) :
    aes128DecryptBlock (aes128KeyExpand key) (aes128EncryptBlock (aes128KeyExpand key) x) = x ∧
      aes128EncryptBlock (aes128KeyExpand key) (aes128DecryptBlock (aes128KeyExpand key) x) = x :=
  ⟨decryptBlock_encryptBlock _ x, encryptBlock_decryptBlock _ x⟩

/-! ## Counter mode -/

/-- `for (i = 15; i >= 8; --i) { ctr[i] = ctr[i] + 1; if (ctr[i] != 0) break; }`, with the turn
for `i = 7 + n` next. -/
def incrementFrom (ctr : Block) : (n : Nat) → n ≤ 8 → Block
  | 0, _ => ctr
  | n + 1, h =>
    let byte := ctr[8 + n] + 1
    let ctr := ctr.set (8 + n) byte
    if byte ≠ 0 then ctr else incrementFrom ctr n (by omega)

/-- The loop over the bytes 15 to 8, whose turns count the low 64 bits up by one. -/
def increment (ctr : Block) : Block := incrementFrom ctr 8 (by decide)

/-- `aes128_ctr_xcrypt`: what it writes to `out`, for the `len` bytes of `in`. -/
def aes128CtrXcrypt (k : Key128) (ctr : Block) (input : List UInt8) : List UInt8 :=
  if input = [] then []
  else
    let ks := aes128EncryptBlock k ctr
    List.zipWith (· ^^^ ·) (input.take 16) ks.toList
      ++ aes128CtrXcrypt k (increment ctr) (input.drop 16)
termination_by input.length
decreasing_by
  have hpos : 0 < input.length := List.length_pos_iff.mpr ‹_›
  rw [List.length_drop]
  omega

/-- The cipher as a keystream generator. -/
def counterMode (k : Key128) : CounterMode Block UInt8 where
  size := 16
  size_pos := by decide
  block := aes128EncryptBlock k
  next := increment
  combine := (· ^^^ ·)
  combine_combine := xor_cancel_right

theorem aes128CtrXcrypt_eq (k : Key128) (ctr : Block) (input : List UInt8) :
    aes128CtrXcrypt k ctr input = (counterMode k).crypt ctr input := by
  fun_induction aes128CtrXcrypt k ctr input with
  | case1 ctr => rw [CounterMode.crypt_nil]
  | case2 ctr input hne ks ih =>
    rw [CounterMode.crypt, if_neg hne, ih]
    rfl

theorem aes128CtrXcrypt_twice (k : Key128) (ctr : Block) (input : List UInt8) :
    aes128CtrXcrypt k ctr (aes128CtrXcrypt k ctr input) = input := by
  rw [aes128CtrXcrypt_eq, aes128CtrXcrypt_eq, CounterMode.crypt_crypt]

theorem length_aes128CtrXcrypt (k : Key128) (ctr : Block) (input : List UInt8) :
    (aes128CtrXcrypt k ctr input).length = input.length := by
  rw [aes128CtrXcrypt_eq, CounterMode.length_crypt]

end Aes

end OpenClickNP
