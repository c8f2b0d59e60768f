import Mathlib.Data.Nat.Prime.Basic
import OpenClickNP.Lib.PowerLoop
import OpenClickNP.Bigint.MontMul

/-!
# `bigint.hpp`: `modexp` and `modexp_consttime`

Both exponentiations run in Montgomery form. `Mont n v` says that a number is the form of
`v`; `mont_mul` adds the exponents of powers under it, so the two loops are instances of
`PowerLoop.squareMultiply_rep` and `PowerLoop.ladder_rep`, and both functions return
`m ^ e mod n`.
-/

namespace OpenClickNP.Bigint

open Loop

variable {N : Nat}

/-! ## `modexp` -/

/-- The body of the square-and-multiply loop at bit `i` of `e`. -/
def modexpTurn (e mMont n : U N) (nInv : UInt64) (i : Nat) (rMont : U N) : U N :=
  let sq := montMul rMont rMont n nInv
  if e.bit i then montMul sq mMont n nInv else sq

/-- `modexp(out, m, e, n)`. -/
def modexp (m e n : U N) : U N :=
  let nInv := computeNInv n
  let R2 := computeR2ModN n nInv
  let mMont := montMul m R2 n nInv
  let rMont := computeRModN n
  let rMont := forDown (modexpTurn e mMont n nInv) e.bitlen rMont
  montMul rMont (U.one N) n nInv

/-! ## `modexp_consttime` -/

def condMask (cond : UInt64) : UInt64 := ~~~(cond - 1)

/-- `const_time_swap(a, b, cond)`: the XOR-mask swap. -/
def constTimeSwap (a b : U N) (cond : UInt64) : U N × U N :=
  let mask := condMask cond
  (⟨List.zipWith (fun x y => x ^^^ ((x ^^^ y) &&& mask)) a.limbs b.limbs, by simp⟩,
    ⟨List.zipWith (fun x y => y ^^^ ((x ^^^ y) &&& mask)) a.limbs b.limbs, by simp⟩)

/-- The body of the ladder at bit `i` of `e`, on `(R0, R1)`. -/
def ladderTurn (e n : U N) (nInv : UInt64) (i : Nat) (R : U N × U N) : U N × U N :=
  let bit := (e.limbs.getD (i / LIMB_BITS) 0 >>> UInt64.ofNat (i % LIMB_BITS)) &&& 1
  let S := constTimeSwap R.1 R.2 bit
  let prod := montMul S.1 S.2 n nInv
  let sq := montMul S.1 S.1 n nInv
  constTimeSwap sq prod bit

/-- `modexp_consttime(out, m, e, n)`. -/
def modexpConsttime (m e n : U N) : U N :=
  let nInv := computeNInv n
  let R2 := computeR2ModN n nInv
  let mMont := montMul m R2 n nInv
  let R0 := computeRModN n
  let R := forDown (ladderTurn e n nInv) (N * LIMB_BITS) (R0, mMont)
  montMul R.1 (U.one N) n nInv

/-! ## Montgomery form on limbs -/

/-- `x` is the Montgomery form of `v` for the modulus `n`. -/
def Mont (n : U N) (v : Nat) (x : U N) : Prop :=
  Montgomery.Form n.toNat (2 ^ (64 * N)) v x.toNat

section
variable {n : U N} (hodd : n.toNat % 2 = 1)
include hodd

theorem pos_of_odd : 0 < n.toNat := by omega

theorem coprime_radix : Nat.Coprime n.toNat (2 ^ (64 * N)) :=
  Nat.Coprime.pow_right _ (Nat.coprime_two_right.mpr (Nat.odd_iff.mpr hodd))

theorem Mont.mul {v w : Nat} {x y : U N} (hx : Mont n v x) (hy : Mont n w y) :
    Mont n (v * w) (montMul x y n (computeNInv n)) := by
  have hn := n.toNat_lt
  have hxy : x.toNat * y.toNat < 2 ^ (64 * N) * n.toNat :=
    Nat.mul_lt_mul'' (hx.1.trans hn) hy.1
  obtain ⟨hlt, hmod⟩ := montMul_spec (pos_of_odd hodd) (computeNInv_spec hodd) hxy
  exact Montgomery.Form.mul (coprime_radix hodd) hx hy hlt hmod

/-- `mont_mul` adds exponents in Montgomery form. -/
theorem Mont.mul_pow {m i j : Nat} {x y : U N} (hx : Mont n (m ^ i) x) (hy : Mont n (m ^ j) y) :
    Mont n (m ^ (i + j)) (montMul x y n (computeNInv n)) := by
  rw [pow_add]
  exact Mont.mul hodd hx hy

theorem Mont.enter (m : U N) :
    Mont n m.toNat (montMul m (computeR2ModN n (computeNInv n)) n (computeNInv n)) := by
  have hpos := pos_of_odd hodd
  have hR2 := toNat_computeR2ModN (computeNInv n) hpos
  have hR2lt : (computeR2ModN n (computeNInv n)).toNat < n.toNat := by
    rw [hR2]; exact Nat.mod_lt _ hpos
  have hab := Nat.mul_lt_mul'' m.toNat_lt hR2lt
  obtain ⟨hlt, hmod⟩ := montMul_spec hpos (computeNInv_spec hodd) hab
  refine Montgomery.Form.enter (coprime_radix hodd) ?_ hlt hmod
  rw [hR2]
  exact Nat.mod_modEq _ _

theorem Mont.one : Mont n 1 (computeRModN n) := by
  have hpos := pos_of_odd hodd
  have hR := toNat_computeRModN hpos
  refine Montgomery.Form.one ?_ ?_
  · rw [hR]; exact Nat.mod_lt _ hpos
  · rw [hR]; exact Nat.mod_modEq _ _

theorem Mont.leave {v : Nat} {x : U N} (hx : Mont n v x) :
    (montMul x (U.one N) n (computeNInv n)).toNat = v % n.toNat := by
  have hpos := pos_of_odd hodd
  have hone := U.toNat_one (U.pos_of_toNat_pos hpos)
  have hab : x.toNat * (U.one N).toNat < 2 ^ (64 * N) * n.toNat := by
    rw [hone, Nat.mul_one]
    exact hx.1.trans_le (Nat.le_mul_of_pos_left _ (by positivity))
  obtain ⟨hlt, hmod⟩ := montMul_spec hpos (computeNInv_spec hodd) hab
  rw [hone] at hmod
  exact Montgomery.Form.leave (coprime_radix hodd) hx hlt hmod

theorem toNat_modexp (m e : U N) : (modexp m e n).toNat = m.toNat ^ e.toNat % n.toNat := by
  have hlt : e.toNat < 2 ^ e.bitlen := by
    rw [U.bitlen_eq_size]
    exact Nat.lt_size_self _
  have hloop := PowerLoop.squareMultiply_rep (fun x y => montMul x y n (computeNInv n))
    (fun k => Mont n (m.toNat ^ k)) (fun hx hy => Mont.mul_pow hodd hx hy)
    (by simpa using Mont.enter hodd m) (by simpa using Mont.one hodd) e.toNat hlt
  have hbody := forDown_congr (modexpTurn e
      (montMul m (computeR2ModN n (computeNInv n)) n (computeNInv n)) n (computeNInv n))
    _ e.bitlen (computeRModN n) (fun i s hi => by
      have hbit := e.bit_eq_testBit (hi.trans_le e.bitlen_le)
      show modexpTurn _ _ _ _ i s
        = PowerLoop.squareMultiply (fun x y => montMul x y n (computeNInv n))
        (montMul m (computeR2ModN n (computeNInv n)) n (computeNInv n)) e.toNat.testBit i s
      simp only [modexpTurn, PowerLoop.squareMultiply, hbit])
  simp only [modexp, hbody]
  exact Mont.leave hodd hloop

end

/-- **`modexp` is modular exponentiation**, for every width, every odd modulus, every base
(reduced or not) and every exponent. -/
theorem modexp_correct (m e n : U N) (hodd : n.toNat % 2 = 1) :
    (modexp m e n).toNat = m.toNat ^ e.toNat % n.toNat ∧
      (modexp m e n).toNat < n.toNat := by
  have h := toNat_modexp hodd m e
  refine ⟨h, ?_⟩
  rw [h]
  exact Nat.mod_lt _ (pos_of_odd hodd)

theorem modexp_correct_base_above :
    (modexp (U.ofNat 1 12) (U.ofNat 1 5) (U.ofNat 1 7)).toNat = 3 ∧
      (modexp (U.ofNat 1 12) (U.ofNat 1 5) (U.ofNat 1 7)).toNat < 7 :=
  modexp_correct (U.ofNat 1 12) (U.ofNat 1 5) (U.ofNat 1 7) (by decide)

/-! ## The ladder agrees -/

theorem condMask_zero : condMask 0 = 0 := by decide

theorem condMask_one : condMask 1 = -1 := by decide

theorem U.ext_getElem {a b : U N}
    (h : ∀ i (ha : i < a.limbs.length) (hb : i < b.limbs.length), a.limbs[i] = b.limbs[i]) :
    a = b := by
  have hl : a.limbs = b.limbs := List.ext_getElem (by simp) h
  cases a; cases b; simp_all

theorem constTimeSwap_zero (a b : U N) : constTimeSwap a b 0 = (a, b) := by
  refine Prod.ext (U.ext_getElem fun i ha hb => ?_) (U.ext_getElem fun i ha hb => ?_)
  all_goals simp [constTimeSwap, condMask_zero]

theorem constTimeSwap_one (a b : U N) : constTimeSwap a b 1 = (b, a) := by
  refine Prod.ext (U.ext_getElem fun i ha hb => ?_) (U.ext_getElem fun i ha hb => ?_)
  · simp only [constTimeSwap, condMask_one, List.getElem_zipWith, UInt64.and_neg_one]
    rw [← UInt64.xor_assoc, UInt64.xor_self, UInt64.zero_xor]
  · simp only [constTimeSwap, condMask_one, List.getElem_zipWith, UInt64.and_neg_one]
    rw [UInt64.xor_comm, UInt64.xor_assoc, UInt64.xor_self, UInt64.xor_zero]

/-- **The masked swaps around the two products are the branches of the ladder.** -/
theorem ladderTurn_eq_ladder (e n : U N) (nInv : UInt64) {i : Nat} (R : U N × U N) :
    ladderTurn e n nInv i R
      = PowerLoop.ladder (fun x y => montMul x y n nInv) e.toNat.testBit i R := by
  have hbit := U.toNat_limb_bit (e.limbs.getD (i / 64) 0) (Nat.mod_lt i (by omega : 0 < 64))
  rw [U.testBit_getD_limbs] at hbit
  simp only [ladderTurn, LIMB_BITS, PowerLoop.ladder]
  cases h : e.toNat.testBit i with
  | false =>
    rw [h] at hbit
    rw [(UInt64.toNat_inj (b := 0)).mp hbit, constTimeSwap_zero, constTimeSwap_zero]
    simp
  | true =>
    rw [h] at hbit
    rw [(UInt64.toNat_inj (b := 1)).mp hbit, constTimeSwap_one, constTimeSwap_one]
    simp

section
variable {n : U N} (hodd : n.toNat % 2 = 1)
include hodd

/-- The ladder returns the power too: it runs over all `64 * N` bits, and the leading zero
bits keep `(R0, R1)` at the powers `0` and `1`. -/
theorem toNat_modexpConsttime (m e : U N) :
    (modexpConsttime m e n).toNat = m.toNat ^ e.toNat % n.toNat := by
  have he : e.toNat < 2 ^ (N * LIMB_BITS) := by
    rw [LIMB_BITS, Nat.mul_comm]
    exact e.toNat_lt
  have hloop := PowerLoop.ladder_rep (fun x y => montMul x y n (computeNInv n))
    (fun k => Mont n (m.toNat ^ k)) (fun hx hy => Mont.mul_pow hodd hx hy)
    (p := (computeRModN n, montMul m (computeR2ModN n (computeNInv n)) n (computeNInv n)))
    (by simpa using Mont.one hodd) (by simpa using Mont.enter hodd m) e.toNat he
  simp only [modexpConsttime,
    forDown_congr _ _ _ _ (fun i R _ => ladderTurn_eq_ladder e n (computeNInv n) (i := i) R)]
  exact Mont.leave hodd hloop

end

/-- **The constant-time ladder writes the same limbs as `modexp`.** -/
theorem modexpConsttime_eq_modexp (m e n : U N) (hodd : n.toNat % 2 = 1) :
    modexpConsttime m e n = modexp m e n := by
  apply U.toNat_inj
  rw [toNat_modexpConsttime hodd, toNat_modexp hodd]

theorem modexpConsttime_eq_modexp_mod_one :
    modexpConsttime (U.ofNat 2 12) (U.ofNat 2 5) (U.ofNat 2 1)
      = modexp (U.ofNat 2 12) (U.ofNat 2 5) (U.ofNat 2 1) :=
  modexpConsttime_eq_modexp (U.ofNat 2 12) (U.ofNat 2 5) (U.ofNat 2 1) (by decide)

end OpenClickNP.Bigint
