import Mathlib.Data.Int.Order.Basic
import OpenClickNP.Bigint.Limbs

/-!
# `bigint.hpp`: `cmp`, `add`, `sub`

Each loop is a pass of `carryLoop`; each function is specified by the equation between the
numbers its operands and results spell.
-/

namespace OpenClickNP.Bigint

open Positional

variable {N : Nat}

/-! ## `cmp` -/

/-- The loop of `cmp`: the limbs above decide, this limb decides where they are equal. -/
def cmpLimbs : List UInt64 → List UInt64 → Int
  | a :: as, b :: bs =>
    match cmpLimbs as bs with
    | 0 => if a ≠ b then (if a < b then -1 else 1) else 0
    | r => r
  | _, _ => 0

/-- `cmp(a, b)`: `-1`, `0` or `1`. -/
def cmp (a b : U N) : Int := cmpLimbs a.limbs b.limbs

/-- The comparison of limb lists is the comparison of the numbers they spell. Induction on
the limbs, most significant limb last. -/
theorem cmpLimbs_spec : ∀ (as bs : List UInt64), as.length = bs.length →
    (limbsVal as < limbsVal bs ∧ cmpLimbs as bs = -1) ∨
    (limbsVal as = limbsVal bs ∧ cmpLimbs as bs = 0) ∨
    (limbsVal bs < limbsVal as ∧ cmpLimbs as bs = 1)
  | [], [], _ => .inr (.inl ⟨rfl, rfl⟩)
  | a :: as, b :: bs, h => by
      have ha := a.toNat_lt
      have hb := b.toNat_lt
      have hcons {c d : UInt64} {cs ds : List UInt64} (hlt : limbsVal cs < limbsVal ds) :
          limbsVal (c :: cs) < limbsVal (d :: ds) :=
        ofDigits_cons_lt_cons c.toNat_lt hlt
      rcases cmpLimbs_spec as bs (by simpa using h) with ⟨hlt, hc⟩ | ⟨heq, hc⟩ | ⟨hlt, hc⟩
      · exact .inl ⟨hcons hlt, by simp [cmpLimbs, hc]⟩
      · simp only [limbsVal_cons, heq, cmpLimbs, hc]
        rcases Nat.lt_trichotomy a.toNat b.toNat with hab | hab | hab
        · have hne : a ≠ b := fun h => by simp [h] at hab
          have hlt : a < b := UInt64.lt_iff_toNat_lt.mpr hab
          exact .inl ⟨by omega, by simp [hne, hlt]⟩
        · have heq : a = b := UInt64.toNat_inj.mp hab
          exact .inr (.inl ⟨by omega, by simp [heq]⟩)
        · have hne : a ≠ b := fun h => by simp [h] at hab
          have hlt : ¬ a < b := fun h => by rw [UInt64.lt_iff_toNat_lt] at h; omega
          exact .inr (.inr ⟨by omega, by simp [hne, hlt]⟩)
      · exact .inr (.inr ⟨hcons hlt, by simp [cmpLimbs, hc]⟩)

theorem cmp_spec (a b : U N) :
    (a.toNat < b.toNat ∧ cmp a b = -1) ∨ (a.toNat = b.toNat ∧ cmp a b = 0) ∨
      (b.toNat < a.toNat ∧ cmp a b = 1) :=
  cmpLimbs_spec a.limbs b.limbs (by simp)

theorem cmp_nonneg (a b : U N) : 0 ≤ cmp a b ↔ b.toNat ≤ a.toNat := by
  rcases cmp_spec a b with ⟨h, hc⟩ | ⟨h, hc⟩ | ⟨h, hc⟩ <;> rw [hc] <;> omega

/-! ## `add` -/

def addTurn (p : UInt64 × UInt64) (carry : UInt64) : UInt64 × UInt64 :=
  let s := u128 p.1 + u128 p.2 + u128 carry
  (lo64 s, hi64 s)

/-- `add(out, a, b)`: the sum and the carry out. -/
def add (a b : U N) : U N × UInt64 :=
  let r := carryLoop addTurn (a.limbs.zip b.limbs) 0
  (⟨r.1, by simp [r]⟩, r.2)

theorem addTurn_spec (p : UInt64 × UInt64) (carry : UInt64) (hc : carry.toNat ≤ 1) :
    (addTurn p carry).1.toNat + 2 ^ 64 * (addTurn p carry).2.toNat
        = p.1.toNat + p.2.toNat + carry.toNat
      ∧ (addTurn p carry).2.toNat ≤ 1 := by
  have h1 := p.1.toNat_lt
  have h2 := p.2.toNat_lt
  have hs : (u128 p.1 + u128 p.2 + u128 carry).toNat = p.1.toNat + p.2.toNat + carry.toNat := by
    rw [BitVec.toNat_add, toNat_u128_add, toNat_u128]
    omega
  constructor
  · simp only [addTurn, lo64_add_hi64, hs]
  · simp only [addTurn, toNat_hi64, hs]
    omega

theorem add_spec (a b : U N) :
    (add a b).1.toNat + 2 ^ (64 * N) * (add a b).2.toNat = a.toNat + b.toNat
      ∧ (add a b).2.toNat ≤ 1 := by
  have hval := carryLoop_value addTurn (2 ^ 64) UInt64.toNat UInt64.toNat (fun _ => 0)
    (fun p => 1 * p.1.toNat + p.2.toNat) (fun _ => 0) (fun c => c.toNat ≤ 1)
    (fun p c hc => ⟨by have := (addTurn_spec p c hc).1; omega, (addTurn_spec p c hc).2⟩)
    (a.limbs.zip b.limbs) 0 (by simp)
  have hsum := ofDigits_zip_linear (2 ^ 64) 1 UInt64.toNat UInt64.toNat a.limbs b.limbs (by simp)
  have hzero : Nat.ofDigits (2 ^ 64) ((a.limbs.zip b.limbs).map fun _ => 0) = 0 := by
    rw [List.map_const']
    exact Nat.ofDigits_replicate_zero
  have hcarry := carryLoop_carry addTurn (fun c => c.toNat ≤ 1) (a.limbs.zip b.limbs)
    (fun p _ c hc => (addTurn_spec p c hc).2) 0 (by simp)
  rw [hsum, hzero] at hval
  simp only [List.length_zip, U.length_limbs, min_self, ← pow_mul, UInt64.toNat_zero] at hval
  refine ⟨?_, hcarry⟩
  simp only [U.toNat, limbsVal, add]
  linarith

/-! ## `sub` -/

def subTurn (p : UInt64 × UInt64) (borrow : UInt64) : UInt64 × UInt64 :=
  let d := u128 p.1 - u128 p.2 - u128 borrow
  (lo64 d, if d >>> 64 ≠ 0 then 1 else 0)

/-- `sub(out, a, b)`: the difference and the borrow out. -/
def sub (a b : U N) : U N × UInt64 :=
  let r := carryLoop subTurn (a.limbs.zip b.limbs) 0
  (⟨r.1, by simp [r]⟩, r.2)

theorem subTurn_spec (p : UInt64 × UInt64) (borrow : UInt64) (hc : borrow.toNat ≤ 1) :
    (subTurn p borrow).1.toNat + p.2.toNat + borrow.toNat
        = p.1.toNat + 2 ^ 64 * (subTurn p borrow).2.toNat
      ∧ (subTurn p borrow).2.toNat ≤ 1 := by
  have h1 := p.1.toNat_lt
  have h2 := p.2.toNat_lt
  have hd := toNat_u128_sub p.1 p.2 borrow hc
  have hshift : (u128 p.1 - u128 p.2 - u128 borrow) >>> 64 = 0 ↔
      (u128 p.1 - u128 p.2 - u128 borrow).toNat / 2 ^ 64 = 0 := by
    rw [← BitVec.toNat_inj, BitVec.toNat_ushiftRight, Nat.shiftRight_eq_div_pow]
    rfl
  simp only [subTurn, toNat_lo64, ne_eq, hshift, hd]
  by_cases hle : p.2.toNat + borrow.toNat ≤ p.1.toNat
  · have hsmall : (p.1.toNat - p.2.toNat - borrow.toNat) / 2 ^ 64 = 0 := by omega
    simp only [if_pos hle, hsmall, not_true_eq_false, if_false, UInt64.toNat_zero]
    omega
  · have hlarge : ¬ (2 ^ 128 + p.1.toNat - p.2.toNat - borrow.toNat) / 2 ^ 64 = 0 := by omega
    simp only [if_neg hle, hlarge, not_false_eq_true, if_true, UInt64.toNat_one]
    omega

theorem sub_spec (a b : U N) :
    (sub a b).1.toNat + b.toNat = a.toNat + 2 ^ (64 * N) * (sub a b).2.toNat
      ∧ (sub a b).2.toNat ≤ 1 := by
  have hval := carryLoop_value subTurn (2 ^ 64) UInt64.toNat (fun _ => 0) UInt64.toNat
    (fun p => p.1.toNat) (fun p => p.2.toNat) (fun c => c.toNat ≤ 1)
    (fun p c hc => ⟨by have := (subTurn_spec p c hc).1; omega, (subTurn_spec p c hc).2⟩)
    (a.limbs.zip b.limbs) 0 (by simp)
  have hborrow := carryLoop_carry subTurn (fun c => c.toNat ≤ 1) (a.limbs.zip b.limbs)
    (fun p _ c hc => (subTurn_spec p c hc).2) 0 (by simp)
  rw [map_zip_fst UInt64.toNat _ _ (by simp), map_zip_snd UInt64.toNat _ _ (by simp)] at hval
  simp only [List.length_zip, U.length_limbs, min_self, ← pow_mul, UInt64.toNat_zero] at hval
  refine ⟨?_, hborrow⟩
  simp only [U.toNat, limbsVal, sub]
  linarith

/-- Without a borrow the difference is the natural one. -/
theorem toNat_sub_of_le {a b : U N} (h : b.toNat ≤ a.toNat) :
    (sub a b).1.toNat = a.toNat - b.toNat := by
  have hspec := sub_spec a b
  have hlt := (sub a b).1.toNat_lt
  have hb : (sub a b).2.toNat = 0 := by
    have ha := a.toNat_lt
    rcases Nat.le_one_iff_eq_zero_or_eq_one.mp hspec.2 with h0 | h1
    · exact h0
    · rw [h1] at hspec; omega
  rw [hb] at hspec
  omega

theorem toNat_sub_of_lt {a b : U N} (h : a.toNat < b.toNat) :
    (sub a b).1.toNat + b.toNat = a.toNat + 2 ^ (64 * N) := by
  have hspec := sub_spec a b
  have hb : (sub a b).2.toNat = 1 := by
    rcases Nat.le_one_iff_eq_zero_or_eq_one.mp hspec.2 with h0 | h1
    · rw [h0] at hspec; omega
    · exact h1
  rw [hb, Nat.mul_one] at hspec
  exact hspec.1

theorem toNat_sub_of_carry {a b : U N} (h : a.toNat < b.toNat) :
    (sub a b).1.toNat = 2 ^ (64 * N) + a.toNat - b.toNat := by
  have hwrap := toNat_sub_of_lt h
  omega

end OpenClickNP.Bigint
