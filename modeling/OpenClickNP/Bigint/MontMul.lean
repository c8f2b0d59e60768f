import Mathlib.Data.UInt
import OpenClickNP.Lib.Loop
import OpenClickNP.Lib.Montgomery
import OpenClickNP.Bigint.Arith

/-!
# `bigint.hpp`: `mont_mul` and its parameters

`mont_mul` keeps its accumulator in `N + 2` limbs. The accumulator refines the number-level
scan `Montgomery.product` turn by turn (`Acc.val_cios`), and on the way no carry leaves the
top limb (`Acc.exact_of_lt`). `compute_n_inv` is six Newton steps in the ring `uint64_t`,
`compute_R_mod_n` and `compute_R2_mod_n` are repeated doublings.
-/

namespace OpenClickNP.Bigint

open Positional Loop

variable {N : Nat}

/-! ## The accumulator -/

/-- `uint64_t t[N + 2]`: the limbs `t[0..N-1]`, then `t[N]` and `t[N + 1]`. -/
structure Acc (N : Nat) where
  lo : List UInt64
  length_lo : lo.length = N
  tN : UInt64
  tN1 : UInt64

attribute [simp] Acc.length_lo

def mulAddTurn (k : UInt64) (p : UInt64 × UInt64) (carry : UInt64) : UInt64 × UInt64 :=
  let s := mulAdd k p.1 p.2 carry
  (lo64 s, hi64 s)

theorem mulAddTurn_spec (k : UInt64) (p : UInt64 × UInt64) (carry : UInt64) :
    (mulAddTurn k p carry).1.toNat + 2 ^ 64 * (mulAddTurn k p carry).2.toNat
      = k.toNat * p.1.toNat + p.2.toNat + carry.toNat := by
  simp only [mulAddTurn, lo64_add_hi64, toNat_mulAdd]

theorem mulAdd_row (k : UInt64) (bs ts : List UInt64) (h : bs.length = ts.length) :
    limbsVal (carryLoop (mulAddTurn k) (bs.zip ts) 0).1
        + (2 ^ 64) ^ ts.length * (carryLoop (mulAddTurn k) (bs.zip ts) 0).2.toNat
      = k.toNat * limbsVal bs + limbsVal ts := by
  have hval := carryLoop_value (mulAddTurn k) (2 ^ 64) UInt64.toNat UInt64.toNat
    (fun _ => 0) (fun p => k.toNat * p.1.toNat + p.2.toNat) (fun _ => 0) (fun _ => True)
    (fun p c _ => ⟨by have := mulAddTurn_spec k p c; omega, trivial⟩) (bs.zip ts) 0 trivial
  have hsum := ofDigits_zip_linear (2 ^ 64) k.toNat UInt64.toNat UInt64.toNat bs ts h
  have hzero : Nat.ofDigits (2 ^ 64) ((bs.zip ts).map fun _ => 0) = 0 := by
    rw [List.map_const']
    exact Nat.ofDigits_replicate_zero
  rw [hsum, hzero] at hval
  simp only [List.length_zip, h, min_self, UInt64.toNat_zero] at hval
  simp only [limbsVal]
  omega

namespace Acc

def zero (N : Nat) : Acc N := ⟨List.replicate N 0, U.length_zeros N, 0, 0⟩

def val (t : Acc N) : Nat :=
  limbsVal t.lo + (2 ^ 64) ^ N * t.tN.toNat + (2 ^ 64) ^ (N + 1) * t.tN1.toNat

/-- Steps 1 and 2 both add `k * b`: the inner loop, then the carry into `t[N]` and what
overflows there into `t[N + 1]`. -/
def addMul (k : UInt64) (b : U N) (t : Acc N) : Acc N :=
  let r := carryLoop (mulAddTurn k) (b.limbs.zip t.lo) 0
  let s := u128 t.tN + u128 r.2
  { lo := r.1, length_lo := by simp [r], tN := lo64 s, tN1 := t.tN1 + hi64 s }

/-- `for (j = 0; j < N + 1; ++j) t[j] = t[j + 1]; t[N + 1] = 0;` -/
def shift (t : Acc N) : Acc N :=
  { lo := (t.lo ++ [t.tN]).tail, length_lo := by simp, tN := t.tN1, tN1 := 0 }

/-- The outer loop body for the limb `a`. -/
def cios (b n : U N) (nInv : UInt64) (t : Acc N) (a : UInt64) : Acc N :=
  let t1 := t.addMul a b
  let m := t1.lo.headD 0 * nInv
  (t1.addMul m n).shift

@[simp] theorem val_zero : (zero N).val = 0 := by
  simp [val, zero, limbsVal_replicate_zero]

/-- **No carry is lost.** While the sum fits in `N + 2` limbs, `t[N + 1]` does not wrap and
the accumulator spells the sum. -/
theorem val_addMul (k : UInt64) (b : U N) (t : Acc N)
    (hfit : t.val + k.toNat * b.toNat < (2 ^ 64) ^ (N + 2)) :
    (t.addMul k b).val = t.val + k.toNat * b.toNat := by
  have hrow := mulAdd_row k b.limbs t.lo (by simp)
  simp only [length_lo] at hrow
  generalize hr : carryLoop (mulAddTurn k) (b.limbs.zip t.lo) 0 = r at hrow
  have htop := lo64_add_hi64 (u128 t.tN + u128 r.2)
  rw [toNat_u128_add] at htop
  have hP : 0 < (2 ^ 64 : Nat) ^ N := by positivity
  rw [show (2 ^ 64 : Nat) ^ (N + 2) = (2 ^ 64) ^ N * 2 ^ 64 * 2 ^ 64 by ring] at hfit
  simp only [val, U.toNat, addMul, hr, pow_succ (2 ^ 64 : Nat) N] at hfit ⊢
  generalize (2 ^ 64 : Nat) ^ N = P at hrow hfit hP ⊢
  generalize (lo64 (u128 t.tN + u128 r.2)) = l at htop ⊢
  generalize (hi64 (u128 t.tN + u128 r.2)) = h at htop ⊢
  have hsum : limbsVal r.1 + P * l.toNat + P * 2 ^ 64 * (t.tN1.toNat + h.toNat)
      = limbsVal t.lo + P * t.tN.toNat + P * 2 ^ 64 * t.tN1.toNat + k.toNat * limbsVal b.limbs := by
    linear_combination hrow + P * htop
  have hno : t.tN1.toNat + h.toNat < 2 ^ 64 := by
    by_contra hge
    have : P * 2 ^ 64 * 2 ^ 64 ≤ P * 2 ^ 64 * (t.tN1.toNat + h.toNat) :=
      Nat.mul_le_mul_left _ (by omega)
    omega
  rw [UInt64.toNat_add, Nat.mod_eq_of_lt hno]
  exact hsum

theorem toNat_headD (hN : 0 < N) (t : Acc N) : (t.lo.headD 0).toNat = t.val % 2 ^ 64 := by
  obtain ⟨k, rfl⟩ : ∃ k, N = k + 1 := ⟨N - 1, by omega⟩
  have hlen := t.length_lo
  cases hlo : t.lo with
  | nil => simp [hlo] at hlen
  | cons l ls =>
    have hl := l.toNat_lt
    have hval : t.val = l.toNat + 2 ^ 64 * (limbsVal ls + (2 ^ 64) ^ k * t.tN.toNat
        + (2 ^ 64) ^ (k + 1) * t.tN1.toNat) := by
      simp only [val, hlo, limbsVal_cons, pow_succ]
      ring
    rw [List.headD_cons, hval, Nat.add_mul_mod_self_left, Nat.mod_eq_of_lt hl]

theorem val_shift (hN : 0 < N) (t : Acc N) : t.shift.val = t.val / 2 ^ 64 := by
  obtain ⟨k, rfl⟩ : ∃ k, N = k + 1 := ⟨N - 1, by omega⟩
  have hlen := t.length_lo
  cases hlo : t.lo with
  | nil => simp [hlo] at hlen
  | cons l ls =>
    have hl := l.toNat_lt
    have hls : ls.length = k := by simpa [hlo] using hlen
    have hval : t.val = l.toNat + 2 ^ 64 * (limbsVal ls + (2 ^ 64) ^ k * t.tN.toNat
        + (2 ^ 64) ^ (k + 1) * t.tN1.toNat) := by
      simp only [val, hlo, limbsVal_cons, pow_succ]
      ring
    rw [hval, Nat.add_mul_div_left _ _ (by norm_num), Nat.div_eq_of_lt hl, Nat.zero_add]
    simp [val, shift, hlo, limbsVal_append, limbsVal_cons, hls]

/-- What a turn does to the number in the accumulator: each of the two additions is exact, and
the limb that the shift drops is zero. -/
structure Exact (b n : U N) (nInv : UInt64) (t : Acc N) (a : UInt64) : Prop where
  lt : t.val < b.toNat + n.toNat
  mul : (t.addMul a b).val = t.val + a.toNat * b.toNat
  reduce : ((t.addMul a b).addMul ((t.addMul a b).lo.headD 0 * nInv) n).val
    = (t.addMul a b).val + ((t.addMul a b).lo.headD 0 * nInv).toNat * n.toNat
  shift : 2 ^ 64 * (t.cios b n nInv a).val
    = ((t.addMul a b).addMul ((t.addMul a b).lo.headD 0 * nInv) n).val

section
variable {b n : U N} {t : Acc N}

/-- Below `b + n` the accumulator has two limbs of head room, which is enough for both
additions. -/
theorem val_addMul_addMul (ht : t.val < b.toNat + n.toNat) (a m : UInt64) :
    (t.addMul a b).val = t.val + a.toNat * b.toNat ∧
      ((t.addMul a b).addMul m n).val = (t.addMul a b).val + m.toNat * n.toNat := by
  have hb := b.toNat_lt
  have hn := n.toNat_lt
  have ha := a.toNat_lt
  have hm := m.toNat_lt
  rw [pow_mul] at hb hn
  have hP2 : (2 ^ 64 : Nat) ^ (N + 2) = 2 ^ 64 * 2 ^ 64 * (2 ^ 64) ^ N := by ring
  have hab : a.toNat * b.toNat ≤ (2 ^ 64 - 1) * b.toNat := Nat.mul_le_mul_right _ (by omega)
  have hmn : m.toNat * n.toNat ≤ (2 ^ 64 - 1) * n.toNat := Nat.mul_le_mul_right _ (by omega)
  have h1 := val_addMul a b t (by rw [hP2]; omega)
  exact ⟨h1, val_addMul m n (t.addMul a b) (by rw [hP2, h1]; omega)⟩

theorem toNat_factor (hN : 0 < N) (nInv : UInt64) (ht : t.val < b.toNat + n.toNat)
    (a : UInt64) :
    ((t.addMul a b).lo.headD 0 * nInv).toNat
      = (t.val + a.toNat * b.toNat) % 2 ^ 64 * nInv.toNat % 2 ^ 64 := by
  rw [UInt64.toNat_mul, toNat_headD hN, (val_addMul_addMul ht a 0).1]

end

/-- **One turn of the accumulator is one turn of the scan**, as long as the accumulator is
below `b + n`. -/
theorem val_cios (hN : 0 < N) (b n : U N) (nInv : UInt64) (t : Acc N) (a : UInt64)
    (ht : t.val < b.toNat + n.toNat) :
    (t.cios b n nInv a).val
      = Montgomery.step (2 ^ 64) n.toNat nInv.toNat b.toNat t.val a.toNat := by
  have hm := toNat_factor hN nInv ht a
  obtain ⟨h1, h2⟩ := val_addMul_addMul ht a ((t.addMul a b).lo.headD 0 * nInv)
  simp only [cios]
  rw [val_shift hN, h2, h1, Montgomery.step, hm]

theorem exact_of_lt (hN : 0 < N) {b n : U N} {nInv : UInt64}
    (hinv : 2 ^ 64 ∣ n.toNat * nInv.toNat + 1) {t : Acc N} (ht : t.val < b.toNat + n.toNat)
    (a : UInt64) : Exact b n nInv t a := by
  have hm := toNat_factor hN nInv ht a
  obtain ⟨h1, h2⟩ := val_addMul_addMul ht a ((t.addMul a b).lo.headD 0 * nInv)
  refine ⟨ht, h1, h2, ?_⟩
  rw [val_cios hN b n nInv t a ht, Montgomery.mul_step hinv, h2, h1, hm]

theorem val_foldl_cios (hN : 0 < N) (b n : U N) (nInv : UInt64)
    (hinv : 2 ^ 64 ∣ n.toNat * nInv.toNat + 1) (as : List UInt64) (t : Acc N)
    (ht : t.val < b.toNat + n.toNat) :
    (as.foldl (cios b n nInv) t).val
      = Montgomery.product (2 ^ 64) n.toNat nInv.toNat b.toNat (as.map UInt64.toNat) t.val := by
  induction as generalizing t with
  | nil => rw [List.foldl_nil, List.map_nil, Montgomery.product_nil]
  | cons a as ih =>
    have hstep := val_cios hN b n nInv t a ht
    have hlt : (t.cios b n nInv a).val < b.toNat + n.toNat := by
      rw [hstep]
      exact Montgomery.step_lt (by norm_num) hinv a.toNat_lt ht
    rw [List.foldl_cons, ih _ hlt, hstep, List.map_cons, Montgomery.product_cons]

/-- The accumulator stays below `b + n`. -/
theorem val_foldl_cios_lt (hN : 0 < N) {b n : U N} {nInv : UInt64}
    (hinv : 2 ^ 64 ∣ n.toNat * nInv.toNat + 1) (hn : 0 < n.toNat) (as : List UInt64) :
    (as.foldl (cios b n nInv) (zero N)).val < b.toNat + n.toNat := by
  have hzero : (zero N).val < b.toNat + n.toNat := by
    rw [val_zero]
    omega
  rw [val_foldl_cios hN b n nInv hinv as (zero N) hzero]
  refine Montgomery.product_lt (by norm_num) hinv _ _ ?_ hzero
  intro a ha
  obtain ⟨limb, -, rfl⟩ := List.mem_map.mp ha
  exact limb.toNat_lt

end Acc

/-! ## `mont_mul` -/

/-- `mont_mul(out, a, b, n, n_inv)`. -/
def montMul (a b n : U N) (nInv : UInt64) : U N :=
  let t := a.limbs.foldl (Acc.cios b n nInv) (Acc.zero N)
  let out : U N := ⟨t.lo, t.length_lo⟩
  if t.tN ≠ 0 ∨ 0 ≤ cmp out n then (sub out n).1 else out

theorem toNat_montMul {a b n : U N} {nInv : UInt64} (hn : 0 < n.toNat)
    (hinv : 2 ^ 64 ∣ n.toNat * nInv.toNat + 1)
    (hab : a.toNat * b.toNat < 2 ^ (64 * N) * n.toNat) :
    (montMul a b n nInv).toNat
      = Montgomery.reduce n.toNat
          (Montgomery.product (2 ^ 64) n.toNat nInv.toNat b.toNat (a.limbs.map UInt64.toNat)
            0) := by
  have hN := U.pos_of_toNat_pos hn
  have hnlt := n.toNat_lt
  have hfold := Acc.val_foldl_cios hN b n nInv hinv a.limbs (Acc.zero N) (by simp; omega)
  rw [Acc.val_zero] at hfold
  have htwo := Montgomery.product_lt_two_mul (B := 2 ^ 64) (b := b.toNat) (by norm_num) hinv
    (a.limbs.map UInt64.toNat) (by simpa [U.toNat, limbsVal, pow_mul] using hab)
  generalize Montgomery.product (2 ^ 64) n.toNat nInv.toNat b.toNat (a.limbs.map UInt64.toNat) 0
    = T at hfold htwo
  simp only [montMul]
  generalize a.limbs.foldl (Acc.cios b n nInv) (Acc.zero N) = t at hfold
  have hlo := limbsVal_lt t.lo
  have hcmp := cmp_nonneg (⟨t.lo, t.length_lo⟩ : U N) n
  have hcarry := toNat_sub_of_carry (a := (⟨t.lo, t.length_lo⟩ : U N)) (b := n)
  have hsub := toNat_sub_of_le (a := (⟨t.lo, t.length_lo⟩ : U N)) (b := n)
  rw [show (⟨t.lo, t.length_lo⟩ : U N).toNat = limbsVal t.lo from rfl] at hcmp hcarry hsub
  rw [t.length_lo, ← pow_mul] at hlo
  -- the accumulator is `lo + 2^(64N) * t[N]`, with `t[N]` zero or one and `t[N + 1]` zero
  rw [Acc.val, pow_succ (2 ^ 64 : Nat) N, ← pow_mul] at hfold
  generalize (2 : Nat) ^ (64 * N) = P at hnlt hlo hfold hcarry
  have htN1 : t.tN1.toNat = 0 := by
    by_contra h
    have : P * 2 ^ 64 * 1 ≤ P * 2 ^ 64 * t.tN1.toNat := Nat.mul_le_mul_left _ (by omega)
    omega
  rw [htN1, Nat.mul_zero, Nat.add_zero] at hfold
  have htN : t.tN.toNat ≤ 1 := by
    by_contra h
    have : P * 2 ≤ P * t.tN.toNat := Nat.mul_le_mul_left _ (by omega)
    omega
  rcases Nat.le_one_iff_eq_zero_or_eq_one.mp htN with h0 | h1
  · have hz : t.tN = 0 := UInt64.toNat_inj.mp h0
    rw [h0, Nat.mul_zero, Nat.add_zero] at hfold
    subst hfold
    by_cases hge : n.toNat ≤ limbsVal t.lo
    · rw [if_pos (.inr (hcmp.mpr hge)), hsub hge, Montgomery.reduce, if_pos hge]
    · rw [if_neg (by simp [hz, hcmp, hge]), Montgomery.reduce, if_neg hge]
      rfl
  · have hz : t.tN ≠ 0 := fun h => by simp [h] at h1
    rw [h1, Nat.mul_one] at hfold
    rw [if_pos (.inl hz), hcarry (by omega), Montgomery.reduce, if_pos (by omega)]
    omega

/-- **`mont_mul` is exact.** With `a * b < R * n` the result lies below `n` and, times `R`,
is `a * b` modulo `n`. -/
theorem montMul_spec {a b n : U N} {nInv : UInt64} (hn : 0 < n.toNat)
    (hinv : 2 ^ 64 ∣ n.toNat * nInv.toNat + 1)
    (hab : a.toNat * b.toNat < 2 ^ (64 * N) * n.toNat) :
    (montMul a b n nInv).toNat < n.toNat ∧
      (montMul a b n nInv).toNat * 2 ^ (64 * N) ≡ a.toNat * b.toNat [MOD n.toNat] := by
  have hspec := Montgomery.mul_spec (B := 2 ^ 64) (b := b.toNat) (by norm_num) hinv
    (a.limbs.map UInt64.toNat) (by simpa [U.toNat, limbsVal, pow_mul] using hab)
  rw [toNat_montMul hn hinv hab]
  rw [List.length_map, U.length_limbs, ← pow_mul] at hspec
  exact hspec

/-! ## `compute_n_inv` -/

/-- `compute_n_inv(n)`: six Newton steps, then a negation. -/
def computeNInv (n : U N) : UInt64 :=
  let n0 := n.limbs.getD 0 0
  let x := forUp (fun x => x * (2 - n0 * x)) 6 1
  0 - x

section
open scoped UInt64.CommRing

theorem two_dvd_one_sub {n0 : UInt64} (h : n0.toNat % 2 = 1) : (2 : UInt64) ∣ 1 - n0 * 1 := by
  obtain ⟨q, hq⟩ : ∃ q : UInt64, n0 = 2 * q + 1 := by
    refine ⟨UInt64.ofNat (n0.toNat / 2), UInt64.toNat_inj.mp ?_⟩
    have hlt := n0.toNat_lt
    simp only [UInt64.toNat_add, UInt64.toNat_mul, UInt64.toNat_ofNat', UInt64.toNat_ofNat]
    omega
  exact ⟨0 - q, by rw [hq]; ring⟩

theorem two_pow_limb : (2 : UInt64) ^ 2 ^ 6 = 0 := by
  have h : (2 : UInt64) ^ 8 = 256 := by decide
  rw [show (2 : Nat) ^ 6 = 8 * 8 from rfl, pow_mul, h]
  decide

theorem hensel_lift {n0 : UInt64} (h : n0.toNat % 2 = 1) :
    n0 * forUp (fun x => x * (2 - n0 * x)) 6 1 = 1 := by
  -- the error `1 - n0 * x` is divisible by `2 ^ (2 ^ k)` after `k` steps
  have hlift := forUp_inv (fun x => x * (2 - n0 * x))
    (fun k x => (2 : UInt64) ^ 2 ^ k ∣ 1 - n0 * x)
    (fun k x hx => by
      have hsq := Montgomery.hensel_step hx
      rwa [← pow_mul, ← pow_succ] at hsq)
    6 0 1 (by simpa using two_dvd_one_sub h)
  rw [Nat.zero_add, two_pow_limb, zero_dvd_iff, sub_eq_zero] at hlift
  exact hlift.symm

theorem mul_computeNInv {n : U N} (hodd : (n.limbs.getD 0 0).toNat % 2 = 1) :
    n.limbs.getD 0 0 * computeNInv n = -1 := by
  have hlift := hensel_lift hodd
  simp only [computeNInv]
  generalize n.limbs.getD 0 0 = n0 at hlift ⊢
  generalize forUp (fun x => x * (2 - n0 * x)) 6 1 = x at hlift ⊢
  calc n0 * (0 - x) = -(n0 * x) := by ring
    _ = -1 := by rw [hlift]

/-- An odd limb has one negated inverse. -/
theorem mul_eq_neg_one_iff {n : U N} (hodd : (n.limbs.getD 0 0).toNat % 2 = 1) (x : UInt64) :
    n.limbs.getD 0 0 * x = -1 ↔ x = computeNInv n := by
  have hmul := mul_computeNInv hodd
  generalize n.limbs.getD 0 0 = n0 at hmul ⊢
  constructor
  · intro hx
    calc x = -(n0 * computeNInv n * x) := by rw [hmul]; ring
      _ = -(n0 * x * computeNInv n) := by ring
      _ = computeNInv n := by rw [hx]; ring
  · intro hx
    rw [hx, hmul]

end

theorem mul_eq_neg_one_iff_modEq (a x : UInt64) :
    a * x = -1 ↔ (a.toNat : Int) * x.toNat ≡ -1 [ZMOD 2 ^ 64] := by
  rw [← UInt64.toNat_inj, UInt64.toNat_mul, ← Nat.cast_mul, Int.ModEq]
  show a.toNat * x.toNat % 2 ^ 64 = 2 ^ 64 - 1 ↔ _
  generalize a.toNat * x.toNat = p
  omega

/-- **Hensel lifting is complete after six steps**: for an odd lowest limb `n0`, `compute_n_inv`
is the one `x` with `n0 * x = -1` modulo `2 ^ 64`. -/
theorem eq_computeNInv_iff {n : U N} (hodd : (n.limbs.getD 0 0).toNat % 2 = 1) (x : UInt64) :
    x = computeNInv n ↔ ((n.limbs.getD 0 0).toNat : Int) * x.toNat ≡ -1 [ZMOD 2 ^ 64] := by
  rw [← mul_eq_neg_one_iff hodd, mul_eq_neg_one_iff_modEq]

theorem eq_computeNInv_three :
    (6148914691236517205 : UInt64) = computeNInv (⟨[3], rfl⟩ : U 1) :=
  (eq_computeNInv_iff (n := ⟨[3], rfl⟩) (by decide) 6148914691236517205).mpr (by decide)

theorem computeNInv_spec {n : U N} (hodd : n.toNat % 2 = 1) :
    2 ^ 64 ∣ n.toNat * (computeNInv n).toNat + 1 := by
  have hn0 : (n.limbs.getD 0 0).toNat = n.toNat % 2 ^ 64 := by
    simpa using U.toNat_getD_limbs n 0
  have hmul := mul_computeNInv (n := n) (by omega)
  generalize n.limbs.getD 0 0 = n0 at hn0 hmul
  have hnat : n0.toNat * (computeNInv n).toNat % 2 ^ 64 = 2 ^ 64 - 1 := by
    rw [← UInt64.toNat_mul, hmul]
    rfl
  rw [hn0, Nat.mod_mul_mod] at hnat
  omega

/-- **`mont_mul` with `compute_n_inv`** is exact, and every turn of its outer loop is: no carry
leaves the `N + 2` limbs of the accumulator. -/
theorem montMul_computeNInv {a b n : U N} (hodd : n.toNat % 2 = 1)
    (hab : a.toNat * b.toNat < 2 ^ (64 * N) * n.toNat) :
    (montMul a b n (computeNInv n)).toNat < n.toNat ∧
      (montMul a b n (computeNInv n)).toNat * 2 ^ (64 * N) ≡ a.toNat * b.toNat [MOD n.toNat] ∧
        ∀ i < N, Acc.Exact b n (computeNInv n)
          ((a.limbs.take i).foldl (Acc.cios b n (computeNInv n)) (Acc.zero N))
          (a.limbs.getD i 0) := by
  have hn : 0 < n.toNat := by omega
  have hinv := computeNInv_spec hodd
  obtain ⟨hlt, hmod⟩ := montMul_spec hn hinv hab
  refine ⟨hlt, hmod, fun i hi => ?_⟩
  have hN : 0 < N := by omega
  exact Acc.exact_of_lt hN hinv (Acc.val_foldl_cios_lt hN hinv hn _) _

theorem montMul_computeNInv_three :
    (montMul (⟨[2], rfl⟩ : U 1) ⟨[2], rfl⟩ ⟨[3], rfl⟩ (computeNInv (⟨[3], rfl⟩ : U 1))).toNat
      < (⟨[3], rfl⟩ : U 1).toNat :=
  (montMul_computeNInv (by decide) (by decide)).1

/-! ## `compute_R_mod_n`, `compute_R2_mod_n` -/

def shlTurn (l carry : UInt64) : UInt64 × UInt64 := ((l <<< 1) ||| carry, l >>> 63)

/-- The shift loop: the doubled number and the bit shifted out of the top. -/
def shl1 (x : U N) : U N × UInt64 :=
  let r := carryLoop shlTurn x.limbs 0
  (⟨r.1, by simp [r]⟩, r.2)

theorem shlTurn_spec (l carry : UInt64) (hc : carry.toNat ≤ 1) :
    (shlTurn l carry).1.toNat + 2 ^ 64 * (shlTurn l carry).2.toNat = 2 * l.toNat + carry.toNat
      ∧ (shlTurn l carry).2.toNat ≤ 1 := by
  have hl := l.toNat_lt
  have hshl : (l <<< 1 ||| carry).toNat = (l.toNat * 2) % 2 ^ 64 + carry.toNat := by
    rw [UInt64.toNat_or, UInt64.toNat_shiftLeft, Nat.shiftLeft_eq,
      show (1 : UInt64).toNat % 64 = 1 from rfl, pow_one,
      show l.toNat * 2 % 2 ^ 64 = 2 ^ 1 * (l.toNat % 2 ^ 63) from by omega,
      ← Nat.two_pow_add_eq_or_of_lt (by omega)]
  have hshr : (l >>> 63).toNat = l.toNat / 2 ^ 63 := by
    rw [UInt64.toNat_shiftRight, Nat.shiftRight_eq_div_pow]
    rfl
  simp only [shlTurn, hshl, hshr]
  omega

theorem shl_pass (ls : List UInt64) (b : UInt64) (hb : b.toNat ≤ 1) :
    limbsVal (carryLoop shlTurn ls b).1
        + (2 ^ 64) ^ ls.length * (carryLoop shlTurn ls b).2.toNat
      = 2 * limbsVal ls + b.toNat
      ∧ (carryLoop shlTurn ls b).2.toNat ≤ 1 := by
  have hval := carryLoop_value shlTurn (2 ^ 64) UInt64.toNat UInt64.toNat (fun _ => 0)
    (fun l => 2 * l.toNat) (fun _ => 0) (fun c => c.toNat ≤ 1)
    (fun l c hc => ⟨by have := (shlTurn_spec l c hc).1; omega, (shlTurn_spec l c hc).2⟩)
    ls b hb
  have hcarry := carryLoop_carry shlTurn (fun c => c.toNat ≤ 1) ls
    (fun l _ c hc => (shlTurn_spec l c hc).2) b hb
  have hzero : Nat.ofDigits (2 ^ 64) (ls.map fun _ => 0) = 0 := by
    rw [List.map_const']
    exact Nat.ofDigits_replicate_zero
  have htwo : Nat.ofDigits (2 ^ 64) (ls.map fun l => 2 * l.toNat) = 2 * limbsVal ls := by
    rw [limbsVal, Nat.mul_ofDigits, List.map_map]
    rfl
  rw [hzero, htwo] at hval
  refine ⟨?_, hcarry⟩
  simp only [limbsVal] at hval ⊢
  omega

theorem shl1_spec (x : U N) :
    (shl1 x).1.toNat + 2 ^ (64 * N) * (shl1 x).2.toNat = 2 * x.toNat
      ∧ (shl1 x).2.toNat ≤ 1 := by
  have h := shl_pass x.limbs 0 (by simp)
  rwa [x.length_limbs, ← pow_mul, UInt64.toNat_zero, Nat.add_zero] at h

/-- The loop body shared by `compute_R_mod_n` and `compute_R2_mod_n`. -/
def doubleMod (n out : U N) : U N :=
  let r := shl1 out
  let out1 := if r.2 ≠ 0 ∨ 0 ≤ cmp r.1 n then (sub r.1 n).1 else r.1
  if 0 ≤ cmp out1 n then (sub out1 n).1 else out1

def computeRModN (n : U N) : U N := forUp (doubleMod n) (N * LIMB_BITS) (U.one N)

/-- `compute_R2_mod_n(out, n, n_inv)`; the last argument is not read. -/
def computeR2ModN (n : U N) (_nInv : UInt64) : U N :=
  forUp (doubleMod n) (2 * N * LIMB_BITS) (U.one N)

theorem toNat_condSub (x n : U N) :
    (if 0 ≤ cmp x n then (sub x n).1 else x).toNat = Montgomery.reduce n.toNat x.toNat := by
  rw [Montgomery.reduce]
  by_cases h : n.toNat ≤ x.toNat
  · rw [if_pos ((cmp_nonneg x n).mpr h), if_pos h, toNat_sub_of_le h]
  · rw [if_neg (fun hc => h ((cmp_nonneg x n).mp hc)), if_neg h]

/-- The loop body is doubling modulo `n`, the shifted-out bit included. -/
theorem toNat_doubleMod {n x : U N} (hx : x.toNat ≤ n.toNat) :
    (doubleMod n x).toNat = Montgomery.double n.toNat x.toNat := by
  have hshl := shl1_spec x
  have hnlt := n.toNat_lt
  have hlo := (shl1 x).1.toNat_lt
  simp only [doubleMod, toNat_condSub, Montgomery.double]
  congr 1
  rcases Nat.le_one_iff_eq_zero_or_eq_one.mp hshl.2 with h0 | h1
  · have hz : (shl1 x).2 = 0 := UInt64.toNat_inj.mp h0
    rw [h0, Nat.mul_zero, Nat.add_zero] at hshl
    simp only [hz, ne_eq, not_true_eq_false, false_or]
    rw [toNat_condSub, hshl.1]
  · have hz : (shl1 x).2 ≠ 0 := fun h => by simp [h] at h1
    rw [h1, Nat.mul_one] at hshl
    rw [if_pos (.inl hz), toNat_sub_of_carry (by omega), Montgomery.reduce, if_pos (by omega)]
    omega

/-- After `k` doublings from `1`: only at `n = 1`, before the first of them, is the number not
below the modulus. -/
theorem forUp_doubleMod_inv {n : U N} (hn : 0 < n.toNat) (k : Nat) :
    (forUp (doubleMod n) k (U.one N)).toNat ≤ n.toNat ∧
      (0 < k → (forUp (doubleMod n) k (U.one N)).toNat < n.toNat) ∧
        (forUp (doubleMod n) k (U.one N)).toNat ≡ 2 ^ k [MOD n.toNat] := by
  have hN := U.pos_of_toNat_pos hn
  have hinv := forUp_inv (doubleMod n)
    (fun j x => x.toNat ≤ n.toNat ∧ (0 < j → x.toNat < n.toNat) ∧
      x.toNat ≡ 2 ^ j [MOD n.toNat])
    (fun j x h => by
      obtain ⟨hlt, hmod⟩ := Montgomery.double_spec hn h.1
      rw [← toNat_doubleMod h.1] at hlt hmod
      refine ⟨hlt.le, fun _ => hlt, hmod.trans ?_⟩
      rw [pow_succ']
      exact h.2.2.mul_left 2)
    k 0 (U.one N) ⟨by rw [U.toNat_one hN]; omega, by simp, by rw [U.toNat_one hN, pow_zero]⟩
  rwa [Nat.zero_add] at hinv

theorem forUp_doubleMod {n : U N} (hn : 0 < n.toNat) {k : Nat} (hk : 0 < k) :
    (forUp (doubleMod n) k (U.one N)).toNat = 2 ^ k % n.toNat := by
  obtain ⟨-, hlt, hmod⟩ := forUp_doubleMod_inv hn k
  calc (forUp (doubleMod n) k (U.one N)).toNat
      = (forUp (doubleMod n) k (U.one N)).toNat % n.toNat := (Nat.mod_eq_of_lt (hlt hk)).symm
    _ = 2 ^ k % n.toNat := hmod

theorem toNat_computeRModN {n : U N} (hn : 0 < n.toNat) :
    (computeRModN n).toNat = 2 ^ (64 * N) % n.toNat := by
  have hN := U.pos_of_toNat_pos hn
  rw [computeRModN, forUp_doubleMod hn (by simp [LIMB_BITS]; omega), LIMB_BITS, Nat.mul_comm]

theorem toNat_computeR2ModN {n : U N} (nInv : UInt64) (hn : 0 < n.toNat) :
    (computeR2ModN n nInv).toNat = 2 ^ (64 * N) * 2 ^ (64 * N) % n.toNat := by
  have hN := U.pos_of_toNat_pos hn
  rw [computeR2ModN, forUp_doubleMod hn (by simp [LIMB_BITS]; omega), LIMB_BITS, ← pow_add]
  congr 2
  ring

/-- A turn of the loop doubles modulo `n`: the bit shifted out of the top is the carry of the
doubled number, and what is left is below `n`. -/
structure DoublesMod (n x : U N) : Prop where
  shift : (shl1 x).1.toNat + 2 ^ (64 * N) * (shl1 x).2.toNat = 2 * x.toNat
  lt : (doubleMod n x).toNat < n.toNat
  double : (doubleMod n x).toNat = 2 * x.toNat % n.toNat

theorem doublesMod_of_le {n x : U N} (hn : 0 < n.toNat) (hx : x.toNat ≤ n.toNat) :
    DoublesMod n x := by
  obtain ⟨hlt, hmod⟩ := Montgomery.double_spec hn hx
  rw [← toNat_doubleMod hx] at hlt hmod
  exact ⟨(shl1_spec x).1, hlt, (Nat.mod_eq_of_lt hlt).symm.trans hmod⟩

/-- **`compute_R_mod_n` and `compute_R2_mod_n`** return powers of two modulo `n`, for any modulus,
and every turn of their loops accounts for the bit it shifts out. -/
theorem computeR_exact {n : U N} (hn : 0 < n.toNat) (nInv : UInt64) :
    (computeRModN n).toNat = 2 ^ (64 * N) % n.toNat ∧ (computeRModN n).toNat < n.toNat ∧
      (computeR2ModN n nInv).toNat = 2 ^ (128 * N) % n.toNat ∧
        (computeR2ModN n nInv).toNat < n.toNat ∧
          ∀ k, DoublesMod n (forUp (doubleMod n) k (U.one N)) := by
  have hR := toNat_computeRModN hn
  have hR2 := toNat_computeR2ModN nInv hn
  rw [← pow_add, show 64 * N + 64 * N = 128 * N by omega] at hR2
  refine ⟨hR, ?_, hR2, ?_, fun k => doublesMod_of_le hn (forUp_doubleMod_inv hn k).1⟩
  · rw [hR]
    exact Nat.mod_lt _ hn
  · rw [hR2]
    exact Nat.mod_lt _ hn

/-- At `n = 1` the parameters are zero. -/
theorem computeR_exact_one :
    (computeRModN (⟨[1], rfl⟩ : U 1)).toNat = 2 ^ (64 * 1) % 1 :=
  (computeR_exact (n := ⟨[1], rfl⟩) (by decide) 0).1

end OpenClickNP.Bigint
