import Mathlib.Data.UInt
import Mathlib.Tactic.Linarith

/-!
# Limb words

A limb is a `uint64_t`; carries are taken from `unsigned __int128` intermediates. This
module holds the three casts the arithmetic uses and the multiply-add turn they make up,
with the one fact about each: none of the intermediates leaves 128 bits.
-/

namespace OpenClickNP.Bigint

def LIMB_BITS : Nat := 64

def u128 (x : UInt64) : BitVec 128 := x.toBitVec.setWidth 128

/-- `static_cast<uint64_t>(s)`. -/
def lo64 (s : BitVec 128) : UInt64 := ⟨s.setWidth 64⟩

/-- `static_cast<uint64_t>(s >> 64)`. -/
def hi64 (s : BitVec 128) : UInt64 := lo64 (s >>> 64)

@[simp] theorem toNat_u128 (x : UInt64) : (u128 x).toNat = x.toNat := by
  have hx : x.toNat < 2 ^ 64 := x.toNat_lt
  simp only [u128, BitVec.toNat_setWidth, UInt64.toNat_toBitVec]
  omega

@[simp] theorem toNat_lo64 (s : BitVec 128) : (lo64 s).toNat = s.toNat % 2 ^ 64 := by
  simp [lo64]

@[simp] theorem toNat_hi64 (s : BitVec 128) : (hi64 s).toNat = s.toNat / 2 ^ 64 := by
  have hs : s.toNat < 2 ^ 128 := s.isLt
  simp only [hi64, toNat_lo64, BitVec.toNat_ushiftRight, Nat.shiftRight_eq_div_pow]
  omega

theorem lo64_add_hi64 (s : BitVec 128) :
    (lo64 s).toNat + 2 ^ 64 * (hi64 s).toNat = s.toNat := by
  rw [toNat_lo64, toNat_hi64]
  exact Nat.mod_add_div _ _

/-! ## The multiply-add turn -/

theorem mul_add_lt (a b t c : UInt64) :
    a.toNat * b.toNat + t.toNat + c.toNat < 2 ^ 128 := by
  have ha := a.toNat_lt
  have hb := b.toNat_lt
  have ht := t.toNat_lt
  have hc := c.toNat_lt
  have hab : a.toNat * b.toNat ≤ (2 ^ 64 - 1) * (2 ^ 64 - 1) :=
    Nat.mul_le_mul (by omega) (by omega)
  omega

/-- `(u128)a * (u128)b + (u128)t + (u128)carry`. -/
def mulAdd (a b t carry : UInt64) : BitVec 128 := u128 a * u128 b + u128 t + u128 carry

theorem toNat_mulAdd (a b t carry : UInt64) :
    (mulAdd a b t carry).toNat = a.toNat * b.toNat + t.toNat + carry.toNat := by
  have hlt := mul_add_lt a b t carry
  simp only [mulAdd, BitVec.toNat_add, BitVec.toNat_mul, toNat_u128]
  rw [Nat.mod_eq_of_lt (show a.toNat * b.toNat < 2 ^ 128 by omega)]
  omega

theorem toNat_u128_add (a b : UInt64) : (u128 a + u128 b).toNat = a.toNat + b.toNat := by
  have ha := a.toNat_lt
  have hb := b.toNat_lt
  simp only [BitVec.toNat_add, toNat_u128]
  omega

/-- `(u128)a - (u128)b - borrow`, which wraps exactly when `a < b + borrow`. -/
theorem toNat_u128_sub (a b c : UInt64) (hc : c.toNat ≤ 1) :
    (u128 a - u128 b - u128 c).toNat
      = if b.toNat + c.toNat ≤ a.toNat then a.toNat - b.toNat - c.toNat
        else 2 ^ 128 + a.toNat - b.toNat - c.toNat := by
  have ha := a.toNat_lt
  have hb := b.toNat_lt
  simp only [BitVec.toNat_sub, toNat_u128]
  split <;> omega

end OpenClickNP.Bigint
