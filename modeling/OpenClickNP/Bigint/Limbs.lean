import Mathlib.Data.Nat.Size
import Mathlib.Data.Int.Order.Basic
import OpenClickNP.Lib.Positional
import OpenClickNP.Bigint.Word

/-!
# `bigint::U<N>`: fixed-width integers

`U N` is `N` limbs, least significant first, and `U.toNat` is the number they spell. The
loops of `cmp`, `add`, `sub` and `mul` are passes of `Positional.carryLoop`; each function
has one specification over `toNat`, and nothing above this module unfolds a limb loop.
-/

namespace OpenClickNP.Bigint

open Positional

/-- `struct U`: exactly `N` limbs, `limbs[0]` least significant. -/
@[ext]
structure U (N : Nat) where
  limbs : List UInt64
  length_limbs : limbs.length = N
  deriving DecidableEq

attribute [simp] U.length_limbs

def limbsVal (ls : List UInt64) : Nat := Nat.ofDigits (2 ^ 64) (ls.map UInt64.toNat)

@[simp] theorem limbsVal_nil : limbsVal [] = 0 := rfl

theorem limbsVal_cons (l : UInt64) (ls : List UInt64) :
    limbsVal (l :: ls) = l.toNat + 2 ^ 64 * limbsVal ls := by
  simp [limbsVal, Nat.ofDigits_cons]

theorem limbsVal_append (ls ms : List UInt64) :
    limbsVal (ls ++ ms) = limbsVal ls + (2 ^ 64) ^ ls.length * limbsVal ms := by
  simp [limbsVal, Nat.ofDigits_append]

theorem limbsVal_lt (ls : List UInt64) : limbsVal ls < (2 ^ 64) ^ ls.length := by
  have h := Nat.ofDigits_lt_base_pow_length (b := 2 ^ 64) (l := ls.map UInt64.toNat)
    (by norm_num) (by simpa using fun l _ => l.toNat_lt)
  simpa [limbsVal] using h

theorem limbsVal_inj {ls ms : List UInt64} (hlen : ls.length = ms.length)
    (h : limbsVal ls = limbsVal ms) : ls = ms := by
  have hmap : ls.map UInt64.toNat = ms.map UInt64.toNat :=
    Nat.ofDigits_inj_of_len_eq (b := 2 ^ 64) (by norm_num) (by simpa using hlen)
      (by simpa using fun l _ => l.toNat_lt) (by simpa using fun l _ => l.toNat_lt) h
  exact List.map_injective_iff.mpr (fun a b hab => UInt64.toNat_inj.mp hab) hmap

theorem limbsVal_replicate_zero (k : Nat) : limbsVal (List.replicate k 0) = 0 := by
  induction k with
  | zero => rfl
  | succ k ih => rw [List.replicate_succ, limbsVal_cons, ih]; rfl

namespace U

variable {N : Nat}

def toNat (x : U N) : Nat := limbsVal x.limbs

theorem toNat_lt (x : U N) : x.toNat < 2 ^ (64 * N) := by
  have h := limbsVal_lt x.limbs
  rwa [x.length_limbs, ← pow_mul] at h

theorem toNat_inj {x y : U N} (h : x.toNat = y.toNat) : x = y := by
  have hl : x.limbs = y.limbs := limbsVal_inj (by simp) h
  cases x; cases y; simp_all

/-- The `N`-limb integer of a number below `2 ^ (64 * N)`. -/
def ofNat (N v : Nat) : U N :=
  ⟨(List.range N).map fun i => UInt64.ofNat (v / (2 ^ 64) ^ i), by simp⟩

theorem length_zeros (N : Nat) : (List.replicate N (0 : UInt64)).length = N :=
  List.length_replicate

def zero (N : Nat) : U N := ⟨List.replicate N 0, length_zeros N⟩

@[simp] theorem toNat_zero : (zero N).toNat = 0 := limbsVal_replicate_zero N

/-- `set_zero(); limbs[0] = 1;` -/
def one (N : Nat) : U N := ⟨(List.replicate N 0).set 0 1, by simp⟩

theorem toNat_one (hN : 0 < N) : (one N).toNat = 1 := by
  obtain ⟨k, rfl⟩ : ∃ k, N = k + 1 := ⟨N - 1, by omega⟩
  have hz := limbsVal_replicate_zero k
  simp [toNat, one, List.replicate_succ, limbsVal_cons, hz]

theorem pos_of_toNat_pos {x : U N} (h : 0 < x.toNat) : 0 < N := by
  rcases Nat.eq_zero_or_pos N with rfl | hN
  · have := x.toNat_lt
    simp only [Nat.mul_zero, pow_zero] at this
    omega
  · exact hN

/-! ## Bits -/

/-- `bit(i)`: false outside `[0, N * LIMB_BITS)`. -/
def bit (x : U N) (i : Int) : Bool :=
  if i < 0 ∨ (N * LIMB_BITS : Int) ≤ i then false
  else ((x.limbs.getD (i.toNat / LIMB_BITS) 0 >>> UInt64.ofNat (i.toNat % LIMB_BITS)) &&& 1) != 0

theorem toNat_getD_limbs (x : U N) (i : Nat) :
    (x.limbs.getD i 0).toNat = x.toNat / (2 ^ 64) ^ i % 2 ^ 64 := by
  have h := getD_eq_div_mod (B := 2 ^ 64) (by norm_num) (x.limbs.map UInt64.toNat)
    (by simpa using fun l _ => l.toNat_lt) i
  rw [toNat, limbsVal, ← h, List.getD_eq_getElem?_getD, List.getD_eq_getElem?_getD,
    List.getElem?_map]
  cases x.limbs[i]? <;> rfl

theorem toNat_limb_bit (l : UInt64) {b : Nat} (hb : b < 64) :
    ((l >>> UInt64.ofNat b) &&& 1).toNat = (l.toNat.testBit b).toNat := by
  have hb' : (UInt64.ofNat b).toNat = b := by
    rw [UInt64.toNat_ofNat']; omega
  rw [UInt64.toNat_and, UInt64.toNat_shiftRight, hb', Nat.mod_eq_of_lt hb,
    show (1 : UInt64).toNat = 1 from rfl, Nat.and_one_is_mod, Nat.shiftRight_eq_div_pow,
    Nat.testBit_eq_decide_div_mod_eq]
  rcases Nat.mod_two_eq_zero_or_one (l.toNat / 2 ^ b) with h | h <;> simp [h]

theorem limb_bit_bne_zero (l : UInt64) {b : Nat} (hb : b < 64) :
    (((l >>> UInt64.ofNat b) &&& 1) != 0) = l.toNat.testBit b := by
  have hbit := toNat_limb_bit l hb
  cases h : l.toNat.testBit b with
  | false =>
    rw [h] at hbit
    simpa using UInt64.toNat_inj.mp hbit
  | true =>
    rw [h] at hbit
    have hne : (l >>> UInt64.ofNat b) &&& 1 ≠ 0 := by
      intro h0
      rw [h0] at hbit
      exact absurd hbit (by decide)
    simpa using hne

/-- Bit `i` of the number sits in limb `i / 64` at position `i % 64`. -/
theorem testBit_getD_limbs (x : U N) (i : Nat) :
    (x.limbs.getD (i / 64) 0).toNat.testBit (i % 64) = x.toNat.testBit i := by
  rw [toNat_getD_limbs, Nat.testBit_mod_two_pow, ← pow_mul, Nat.testBit_div_two_pow,
    Nat.mod_add_div]
  simp [Nat.mod_lt]

theorem bit_eq_testBit (x : U N) {i : Nat} (hi : i < N * 64) :
    x.bit i = x.toNat.testBit i := by
  have hrange : ¬ ((i : Int) < 0 ∨ (N * LIMB_BITS : Int) ≤ i) := by
    simp only [LIMB_BITS]; omega
  rw [bit, if_neg hrange, Int.toNat_natCast, LIMB_BITS,
    limb_bit_bne_zero _ (Nat.mod_lt i (by omega)), testBit_getD_limbs]

def topBit (l : UInt64) : Nat → Option Nat
  | 0 => none
  | b + 1 => if ((l >>> UInt64.ofNat b) &&& 1) != 0 then some b else topBit l b

/-- The outer loop of `bitlen`, limbs `i - 1` down to `0`. -/
def bitlenLoop (limbs : List UInt64) : Nat → Nat
  | 0 => 0
  | i + 1 =>
    if limbs.getD i 0 = 0 then bitlenLoop limbs i
    else match topBit (limbs.getD i 0) LIMB_BITS with
      | some b => i * LIMB_BITS + b + 1
      | none => bitlenLoop limbs i

/-- `bitlen()`: one more than the position of the highest set bit. -/
def bitlen (x : U N) : Nat := bitlenLoop x.limbs N

/-- The inner loop finds the highest set bit of the low `n` bits. Induction on `n`. -/
theorem topBit_eq (l : UInt64) : ∀ n : Nat, n ≤ 64 →
    topBit l n = if l.toNat % 2 ^ n = 0 then none else some ((l.toNat % 2 ^ n).size - 1)
  | 0, _ => by simp [topBit, Nat.mod_one]
  | n + 1, hn => by
      have ih := topBit_eq l n (by omega)
      have hlow : l.toNat % 2 ^ n < 2 ^ n := Nat.mod_lt _ (by positivity)
      have hsplit : l.toNat % 2 ^ (n + 1) = l.toNat % 2 ^ n + 2 ^ n * (l.toNat / 2 ^ n % 2) :=
        Nat.mod_pow_succ
      rw [topBit, limb_bit_bne_zero l (by omega), ih, hsplit, Nat.testBit_eq_decide_div_mod_eq]
      rcases Nat.mod_two_eq_zero_or_one (l.toNat / 2 ^ n) with h | h
      · simp [h]
      · -- bit `n` is set: it is the highest one, and the size is `n + 1`
        have hsize : (l.toNat % 2 ^ n + 2 ^ n).size = n + 1 := by
          apply le_antisymm
          · rw [Nat.size_le, pow_succ]; omega
          · rw [Nat.succ_le_iff, Nat.lt_size]; omega
        simp [h, hsize]

/-- The outer loop finds the size of the number the low `i` limbs spell. Induction on `i`:
a zero limb leaves the number to the limbs below it, a non-zero limb decides. -/
theorem bitlenLoop_eq (x : U N) : ∀ i : Nat,
    bitlenLoop x.limbs i = (x.toNat % (2 ^ 64) ^ i).size
  | 0 => by simp [bitlenLoop, Nat.mod_one]
  | i + 1 => by
      have ih := bitlenLoop_eq x i
      have hlimb := toNat_getD_limbs x i
      have hsplit : x.toNat % (2 ^ 64) ^ (i + 1)
          = x.toNat % (2 ^ 64) ^ i + (2 ^ 64) ^ i * (x.toNat / (2 ^ 64) ^ i % 2 ^ 64) :=
        Nat.mod_pow_succ
      rw [← hlimb] at hsplit
      have hl := (x.limbs.getD i 0).toNat_lt
      have htop := topBit_eq (x.limbs.getD i 0) 64 le_rfl
      rw [Nat.mod_eq_of_lt hl] at htop
      rw [bitlenLoop, LIMB_BITS, htop, hsplit]
      by_cases h0 : x.limbs.getD i 0 = 0
      · rw [if_pos h0, ih, h0, show (0 : UInt64).toNat = 0 from rfl, Nat.mul_zero, Nat.add_zero]
      · have hne : (x.limbs.getD i 0).toNat ≠ 0 := fun h => h0 (UInt64.toNat_inj.mp h)
        have hlow : x.toNat % (2 ^ 64) ^ i < (2 ^ 64) ^ i := Nat.mod_lt _ (by positivity)
        generalize (x.limbs.getD i 0).toNat = v at hne ⊢
        have hpos : 0 < v.size := Nat.size_pos.mpr (by omega)
        have hhi : v < 2 ^ v.size := Nat.lt_size_self v
        have hlo : 2 ^ (v.size - 1) ≤ v := Nat.lt_size.mp (by omega)
        rw [if_neg h0, if_neg hne]
        show i * 64 + (v.size - 1) + 1 = _
        rw [← pow_mul] at hlow ⊢
        symm
        apply le_antisymm
        · rw [Nat.size_le, show i * 64 + (v.size - 1) + 1 = 64 * i + v.size from by omega, pow_add]
          have : 2 ^ (64 * i) * (v + 1) ≤ 2 ^ (64 * i) * 2 ^ v.size := Nat.mul_le_mul_left _ hhi
          linarith
        · have hcomm : i * 64 + (v.size - 1) = 64 * i + (v.size - 1) := by omega
          rw [Nat.succ_le_iff, Nat.lt_size, hcomm, pow_add]
          exact le_add_left (Nat.mul_le_mul_left _ hlo)

theorem bitlen_eq_size (x : U N) : x.bitlen = x.toNat.size := by
  rw [bitlen, bitlenLoop_eq, ← pow_mul, Nat.mod_eq_of_lt x.toNat_lt]

theorem bitlen_le (x : U N) : x.bitlen ≤ N * 64 := by
  rw [bitlen_eq_size, Nat.size_le, Nat.mul_comm]
  exact x.toNat_lt

end U

end OpenClickNP.Bigint
