import OpenClickNP.Lib.BigEndian
import OpenClickNP.Bigint.Limbs

/-!
# Limbs and big-endian bytes

libcrypto hands a number over as big-endian bytes, `bigint.hpp` takes it as limbs, least
significant first. Both conversion loops of the engine keep the number.
-/

namespace OpenClickNP.Ssl

open Bigint BigEndian

/-- The inner loop of `bn_to_limbs` over the eight bytes of a limb. -/
def limbOfBytes (bs : List UInt8) : UInt64 := bs.foldl (fun v b => (v <<< 8) ||| b.toUInt64) 0

/-- The conversion loop of `bn_to_limbs`: limb `i` from the bytes at `(n_limbs - 1 - i) * 8`. -/
def limbsOfBytes (buf : List UInt8) (nLimbs : Nat) : U nLimbs :=
  ⟨(List.range nLimbs).map fun i => limbOfBytes ((buf.drop ((nLimbs - 1 - i) * 8)).take 8), by simp⟩

/-- The inner loop of `limbs_to_bn`, in the order of the buffer. -/
def bytesOfLimb (v : UInt64) : List UInt8 :=
  [7, 6, 5, 4, 3, 2, 1, 0].map fun b => ((v >>> UInt64.ofNat (b * 8)) &&& 0xff).toUInt8

/-- The conversion loop of `limbs_to_bn`: the highest limb comes first. -/
def bytesOfLimbs {nLimbs : Nat} (x : U nLimbs) : List UInt8 := x.limbs.reverse.flatMap bytesOfLimb

/-! ## One limb -/

theorem toNat_shiftLeft_or_byte {v : UInt64} (hv : v.toNat < 2 ^ 56) (b : UInt8) :
    ((v <<< 8) ||| b.toUInt64).toNat = 256 * v.toNat + b.toNat := by
  have hb := b.toNat_lt
  have hshift : v.toNat <<< 8 % 2 ^ 64 = 2 ^ 8 * v.toNat := by
    rw [Nat.shiftLeft_eq, Nat.mod_eq_of_lt (by omega), Nat.mul_comm]
  rw [UInt64.toNat_or, UInt64.toNat_shiftLeft, UInt8.toNat_toUInt64,
    show (8 : UInt64).toNat % 64 = 8 by decide, hshift, ← Nat.two_pow_add_eq_or_of_lt hb]

/-- Eight bytes fit. Induction from the last byte, which is the lowest. -/
theorem toNat_limbOfBytes (bs : List UInt8) (hlen : bs.length ≤ 8) :
    (limbOfBytes bs).toNat = value bs := by
  induction bs using List.reverseRecOn with
  | nil => rfl
  | append_singleton bs b ih =>
    rw [List.length_append, List.length_singleton] at hlen
    have hbs := ih (by omega)
    have hlt : value bs < 2 ^ 56 := by
      calc value bs < 256 ^ bs.length := value_lt bs
        _ ≤ 256 ^ 7 := Nat.pow_le_pow_right (by norm_num) (by omega)
        _ = 2 ^ 56 := by norm_num
    rw [limbOfBytes, List.foldl_concat, ← limbOfBytes, toNat_shiftLeft_or_byte (by omega) b, hbs,
      value_concat]

theorem length_bytesOfLimb (v : UInt64) : (bytesOfLimb v).length = 8 := rfl

theorem toUInt8_shiftRight (v : UInt64) {b : Nat} (hb : b < 8) :
    ((v >>> UInt64.ofNat (b * 8)) &&& 0xff).toUInt8 = UInt8.ofNat (v.toNat / 256 ^ b) := by
  have hshift : (UInt64.ofNat (b * 8)).toNat % 64 = b * 8 := by
    rw [UInt64.toNat_ofNat']; omega
  apply UInt8.toNat_inj.mp
  rw [UInt64.toNat_toUInt8, UInt64.toNat_and, UInt64.toNat_shiftRight, hshift,
    show (0xff : UInt64).toNat = 2 ^ 8 - 1 from rfl, Nat.and_two_pow_sub_one_eq_mod,
    Nat.shiftRight_eq_div_pow, UInt8.toNat_ofNat', Nat.mod_mod, Nat.mul_comm b 8, pow_mul,
    show (2 : Nat) ^ 8 = 256 from rfl]

theorem bytesOfLimb_eq (v : UInt64) : bytesOfLimb v = bytes 8 v.toNat := by
  have hbytes : bytesOfLimb v
      = [7, 6, 5, 4, 3, 2, 1, 0].map fun b => UInt8.ofNat (v.toNat / 256 ^ b) :=
    List.map_congr_left fun b hb => toUInt8_shiftRight v (by
      simp only [List.mem_cons, List.not_mem_nil, or_false] at hb
      omega)
  rw [hbytes]
  simp [bytes, Nat.div_div_eq_div_mul]

theorem value_bytesOfLimb (v : UInt64) : value (bytesOfLimb v) = v.toNat := by
  have hv : v.toNat < 256 ^ 8 := v.toNat_lt
  rw [bytesOfLimb_eq, value_bytes, Nat.mod_eq_of_lt hv]

/-! ## The whole buffer -/

/-- The bytes in front are those of the highest limb. -/
theorem limbs_limbsOfBytes_succ (buf : List UInt8) (n : Nat) :
    (limbsOfBytes buf (n + 1)).limbs
      = (limbsOfBytes (buf.drop 8) n).limbs ++ [limbOfBytes (buf.take 8)] := by
  have hlow : ∀ i ∈ List.range n,
      limbOfBytes ((buf.drop ((n + 1 - 1 - i) * 8)).take 8)
        = limbOfBytes (((buf.drop 8).drop ((n - 1 - i) * 8)).take 8) := by
    intro i hi
    have hlt := List.mem_range.mp hi
    rw [List.drop_drop, show 8 + (n - 1 - i) * 8 = (n + 1 - 1 - i) * 8 by omega]
  simp only [limbsOfBytes, List.range_succ, List.map_append, List.map_congr_left hlow]
  simp

theorem toNat_limbsOfBytes (buf : List UInt8) (n : Nat) (hlen : buf.length = 8 * n) :
    (limbsOfBytes buf n).toNat = value buf := by
  induction n generalizing buf with
  | zero =>
    obtain rfl := List.eq_nil_of_length_eq_zero hlen
    rfl
  | succ n ih =>
    have hrest : (buf.drop 8).length = 8 * n := by
      rw [List.length_drop]; omega
    have hhigh := toNat_limbOfBytes (buf.take 8) (by rw [List.length_take]; omega)
    have hvalue := value_append (buf.take 8) (buf.drop 8)
    rw [List.take_append_drop, hrest, pow_mul] at hvalue
    rw [U.toNat, limbs_limbsOfBytes_succ, limbsVal_append, ← U.toNat, ih _ hrest, limbsVal_cons,
      limbsVal_nil, hhigh, hvalue, U.length_limbs]
    norm_num
    ring

theorem value_flatMap_bytesOfLimb (ls : List UInt64) :
    value (ls.reverse.flatMap bytesOfLimb) = limbsVal ls := by
  induction ls with
  | nil => rfl
  | cons l ls ih =>
    rw [List.reverse_cons, List.flatMap_append, List.flatMap_singleton, value_append, ih,
      value_bytesOfLimb, length_bytesOfLimb, limbsVal_cons]
    norm_num
    ring

theorem value_bytesOfLimbs {n : Nat} (x : U n) : value (bytesOfLimbs x) = x.toNat :=
  value_flatMap_bytesOfLimb x.limbs

end OpenClickNP.Ssl
