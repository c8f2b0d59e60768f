import Mathlib.Tactic.NormNum.Prime
import OpenClickNP.Lib.Garner
import OpenClickNP.Bigint.ModExp
import OpenClickNP.Bigint.Mul

/-!
# `bigint.hpp`: `rsa_crt_decrypt`

The private-key operation on the half-width primes. Each piece has its own specification:
the bit-serial reduction is `mod` (`toNat_reduceToM`), the row-wise product is exact
(`toNat_mulTrunc`), the half results come from `modexp_consttime`. What is left is the
difference of the half results, which the source makes non-negative by adding `p` once:
that is not enough when `q` is the larger prime by more than `p`
(`rsaCrtDecrypt_eq_iff`).
-/

namespace OpenClickNP.Bigint

open Positional Loop

variable {N M : Nat}

/-! ## `reduce_to_M` -/

/-- The downward shift loop, `limbs[i] = (limbs[i] << 1) | (limbs[i - 1] >> 63)`, with
nothing below limb `0`. -/
def shlDown (limbs : List UInt64) : List UInt64 :=
  List.zipWith (fun (l below : UInt64) => (l <<< 1) ||| (below >>> 63)) limbs (0 :: limbs)

/-- The loop body of `reduce_to_M` on `(r_low, r_high)` at bit `bit` of `src`. -/
def reduceTurn (src : U N) (mod : U M) (bit : Nat) (r : U M × UInt64) : U M × UInt64 :=
  let carryOut := r.1.limbs.getD (M - 1) 0 >>> 63
  let shifted := shlDown r.1.limbs
  let newHigh := (r.2 <<< 1) ||| carryOut
  let b := (src.limbs.getD (bit / LIMB_BITS) 0 >>> UInt64.ofNat (bit % LIMB_BITS)) &&& 1
  let rLow : U M := ⟨shifted.set 0 (shifted.getD 0 0 ||| b), by simp [shifted, shlDown]⟩
  if newHigh ≠ 0 ∨ 0 ≤ cmp rLow mod then ((sub rLow mod).1, 0) else (rLow, newHigh)

/-- `reduce_to_M(src, mod, dst)`. -/
def reduceToM (src : U N) (mod : U M) : U M :=
  (forDown (reduceTurn src mod) (N * LIMB_BITS) (U.zero M, 0)).1

theorem zipWith_eq_carryLoop : ∀ (ls : List UInt64) (below : UInt64),
    List.zipWith (fun (l b : UInt64) => (l <<< 1) ||| (b >>> 63)) ls (below :: ls)
      = (carryLoop shlTurn ls (below >>> 63)).1
  | [], _ => rfl
  | l :: ls, below => by
      have ih := zipWith_eq_carryLoop ls l
      simp only [List.zipWith_cons_cons, ih, carryLoop_cons, shlTurn]

theorem carryLoop_shlTurn_snd : ∀ (ls : List UInt64) (c : UInt64), ls ≠ [] →
    (carryLoop shlTurn ls c).2 = ls.getD (ls.length - 1) 0 >>> 63
  | [l], _, _ => by simp [shlTurn]
  | l :: l' :: ls, c, _ => by
      have ih := carryLoop_shlTurn_snd (l' :: ls) (l >>> 63) (by simp)
      rw [carryLoop_cons]
      simpa [shlTurn] using ih

theorem set_or_carryLoop {ls : List UInt64} (hls : ls ≠ []) (b : UInt64) :
    ((carryLoop shlTurn ls 0).1.set 0 ((carryLoop shlTurn ls 0).1.getD 0 0 ||| b))
      = (carryLoop shlTurn ls b).1 := by
  cases ls with
  | nil => exact absurd rfl hls
  | cons l ls => simp [shlTurn]

/-- One turn from a clear top word: a shift with the next bit of `src` as carry in, and a
subtraction when the bit shifted out or the comparison asks for it. -/
theorem reduceTurn_eq (src : U N) (mod : U M) (bit : Nat) (rLow : U M) (hM : 0 < M) :
    ∃ (b c : UInt64) (x : U M), b.toNat = (src.toNat.testBit bit).toNat ∧
      carryLoop shlTurn rLow.limbs b = (x.limbs, c) ∧
      reduceTurn src mod bit (rLow, 0) =
        if c ≠ 0 ∨ 0 ≤ cmp x mod then ((sub x mod).1, 0) else (x, c) := by
  have hls : rLow.limbs ≠ [] := by
    intro h
    have := rLow.length_limbs
    simp only [h, List.length_nil] at this
    omega
  have hshl : shlDown rLow.limbs = (carryLoop shlTurn rLow.limbs 0).1 := by
    rw [shlDown, zipWith_eq_carryLoop]
    rfl
  have hbit := U.toNat_limb_bit (src.limbs.getD (bit / 64) 0) (Nat.mod_lt bit (by omega : 0 < 64))
  rw [U.testBit_getD_limbs] at hbit
  generalize hb : (src.limbs.getD (bit / 64) 0 >>> UInt64.ofNat (bit % 64)) &&& 1 = b at hbit
  have hset := set_or_carryLoop hls b
  have htop := carryLoop_shlTurn_snd rLow.limbs b hls
  rw [rLow.length_limbs] at htop
  refine ⟨b, rLow.limbs.getD (M - 1) 0 >>> 63, ⟨(carryLoop shlTurn rLow.limbs b).1, by simp⟩,
    hbit, Prod.ext rfl htop, ?_⟩
  simp only [reduceTurn, LIMB_BITS, hb, hshl, hset, UInt64.zero_shiftLeft, UInt64.zero_or]

/-- One turn of long division: the remainder of the next prefix of `src`, whatever the
size of the modulus. -/
theorem reduceTurn_spec (src : U N) {mod : U M} (bit : Nat) {rLow : U M}
    (hr : rLow.toNat = src.toNat / 2 ^ (bit + 1) % mod.toNat) (hmod : 0 < mod.toNat) :
    (reduceTurn src mod bit (rLow, 0)).1.toNat = src.toNat / 2 ^ bit % mod.toNat ∧
      (reduceTurn src mod bit (rLow, 0)).2 = 0 := by
  have hrlt : rLow.toNat < mod.toNat := hr ▸ Nat.mod_lt _ hmod
  have hmlt := mod.toNat_lt
  obtain ⟨b, c, x, hb, hloop, hturn⟩ := reduceTurn_eq src mod bit rLow (U.pos_of_toNat_pos hmod)
  have hb1 : b.toNat ≤ 1 := hb ▸ Bool.toNat_le _
  have hval : x.toNat + 2 ^ (64 * M) * c.toNat = 2 * rLow.toNat + b.toNat ∧ c.toNat ≤ 1 := by
    have hpass := shl_pass rLow.limbs b hb1
    rwa [hloop, rLow.length_limbs, ← pow_mul] at hpass
  have hxlt := x.toNat_lt
  -- the shifted number is the remainder of the next prefix up to one subtraction
  have hnext : src.toNat / 2 ^ bit % mod.toNat
      = Montgomery.reduce mod.toNat (2 * rLow.toNat + b.toNat) := by
    have hshift : src.toNat / 2 ^ bit = 2 * (src.toNat / 2 ^ (bit + 1)) + b.toNat := by
      rw [PowerLoop.div_two_pow_eq src.toNat bit, hb]
      cases src.toNat.testBit bit <;> rfl
    have hlt : 2 * rLow.toNat + b.toNat < 2 * mod.toNat := by omega
    have hcongr : 2 * (src.toNat / 2 ^ (bit + 1)) + b.toNat ≡ 2 * rLow.toNat + b.toNat
        [MOD mod.toNat] := by
      refine Nat.ModEq.add_right _ (Nat.ModEq.mul_left 2 ?_)
      rw [hr]
      exact (Nat.mod_modEq _ _).symm
    rw [hshift, ← Nat.mod_eq_of_lt (Montgomery.reduce_lt hlt)]
    exact hcongr.trans (Montgomery.reduce_modEq _ _).symm
  rw [hturn, hnext]
  rcases Nat.le_one_iff_eq_zero_or_eq_one.mp hval.2 with h0 | h1
  · have hz : c = 0 := UInt64.toNat_inj.mp h0
    rw [h0, Nat.mul_zero, Nat.add_zero] at hval
    rw [← hval.1, ← toNat_condSub x mod, hz]
    simp only [ne_eq, not_true_eq_false, false_or]
    split <;> exact ⟨rfl, rfl⟩
  · have hz : c ≠ 0 := fun h => by simp [h] at h1
    rw [h1, Nat.mul_one] at hval
    rw [if_pos (.inl hz), toNat_sub_of_carry (by omega), Montgomery.reduce, if_pos (by omega)]
    exact ⟨by omega, rfl⟩

/-- **`reduce_to_M` is the remainder**, for any modulus with a bit set. -/
theorem toNat_reduceToM (src : U N) {mod : U M} (hmod : 0 < mod.toNat) :
    (reduceToM src mod).toNat = src.toNat % mod.toNat := by
  have hinv := forDown_inv (reduceTurn src mod)
    (fun i r => r.1.toNat = src.toNat / 2 ^ i % mod.toNat ∧ r.2 = 0)
    (N * LIMB_BITS) (U.zero M, 0) ?_ ?_
  · simpa [reduceToM] using hinv.1
  · have hlt := src.toNat_lt
    rw [LIMB_BITS, Nat.mul_comm, Nat.div_eq_of_lt hlt]
    simp
  · rintro i ⟨rLow, rHigh⟩ _ ⟨hr, rfl⟩
    exact reduceTurn_spec src i hr hmod

/-! ## The recombination product -/

/-- Row `i` of the schoolbook product: `hq[i + j] += hi * q[j] + carry` for `j < M` while
`i + j < N`, then the carry into `hq[i + M]` if there is such a limb. -/
def mulRow (q : List UInt64) (hi : UInt64) (i : Nat) (hq : List UInt64) : List UInt64 :=
  let r := carryLoop (mulAddTurn hi) (q.zip (hq.drop i)) 0
  let hq := hq.take i ++ r.1 ++ hq.drop (i + r.1.length)
  if i + q.length < hq.length then
    hq.set (i + q.length) (hq.getD (i + q.length) 0 + r.2)
  else hq

/-- The rows for the limbs `hs`, the first of them at position `i`. -/
def mulRows (q : List UInt64) : List UInt64 → Nat → List UInt64 → List UInt64
  | [], _, hq => hq
  | hi :: hs, i, hq => mulRows q hs (i + 1) (mulRow q hi i hq)

theorem mulRows_eq_rows (q : List UInt64) : ∀ (hs : List UInt64) (i : Nat) (hq : List UInt64),
    mulRows q hs i hq = rows (mulRow q) hs i hq
  | [], _, _ => rfl
  | hi :: hs, i, hq => mulRows_eq_rows q hs (i + 1) (mulRow q hi i hq)

theorem writesRow_mulRow (q : List UInt64) : WritesRow q (mulRow q) := by
  intro hi pre mid rest hmid
  obtain ⟨htake, hzip, hdrop⟩ := window_parts q pre mid (0 :: rest) hmid
  have hlen : (carryLoop (mulAddTurn hi) (q.zip mid) 0).1.length = q.length := by simp [hmid]
  simp only [mulRow, htake, hzip]
  generalize carryLoop (mulAddTurn hi) (q.zip mid) 0 = r at hlen
  rw [hlen, hdrop]
  simp [← hlen]

/-! ## `rsa_crt_decrypt` -/

def extend (x : U M) : U (2 * M) := ⟨x.limbs ++ List.replicate M 0, by simp; omega⟩

@[simp] theorem toNat_extend (x : U M) : (extend x).toNat = x.toNat := by
  simp [U.toNat, extend, limbsVal_append, limbsVal_replicate_zero]

theorem length_mulRow (q : List UInt64) (hi : UInt64) (i : Nat) (hq : List UInt64) :
    (mulRow q hi i hq).length = hq.length := by
  have hr := length_carryLoop (mulAddTurn hi) (q.zip (hq.drop i)) 0
  rw [List.length_zip, List.length_drop] at hr
  simp only [mulRow]
  split
  all_goals
    simp only [List.length_set, List.length_append, List.length_take, List.length_drop, hr]
    omega

theorem length_mulRows (q hs : List UInt64) (i : Nat) (hq : List UInt64) :
    (mulRows q hs i hq).length = hq.length := by
  rw [mulRows_eq_rows, length_rows (length_mulRow q)]

/-- `hq`: the product `h * q` truncated to `2 * M` limbs. -/
def mulTrunc (h q : U M) : U (2 * M) :=
  ⟨mulRows q.limbs h.limbs 0 (List.replicate (2 * M) 0), by simp [length_mulRows]⟩

/-- `diff`: the half results' difference, with `p` added once when it is negative. -/
def crtDiff (m1 m2 p : U M) : U M :=
  if 0 ≤ cmp m1 m2 then (sub m1 m2).1 else (sub p (sub m2 m1).1).1

/-- `h = qInv * diff mod p`, through Montgomery form. -/
def crtCoeff (diff qInv p : U M) : U M :=
  let pInv := computeNInv p
  let R2p := computeR2ModN p pInv
  let diffMont := montMul diff R2p p pInv
  let qInvMont := montMul qInv R2p p pInv
  let hMont := montMul diffMont qInvMont p pInv
  montMul hMont (U.one M) p pInv

/-- `rsa_crt_decrypt<2 * M, M>(out, c, p, q, dp, dq, qInv)`. -/
def rsaCrtDecrypt (c : U (2 * M)) (p q dp dq qInv : U M) : U (2 * M) :=
  let cp := reduceToM c p
  let cq := reduceToM c q
  let m1 := modexpConsttime cp dp p
  let m2 := modexpConsttime cq dq q
  let h := crtCoeff (crtDiff m1 m2 p) qInv p
  (add (extend m2) (mulTrunc h q)).1

theorem toNat_mulTrunc (h q : U M) : (mulTrunc h q).toNat = h.toNat * q.toNat := by
  have hrows := limbsVal_rows_zeros (p := h.limbs) (q := q.limbs) (by simp)
    (writesRow_mulRow q.limbs)
  rw [q.length_limbs, ← mulRows_eq_rows] at hrows
  exact hrows

theorem toNat_crtCoeff {p : U M} (hodd : p.toNat % 2 = 1) (diff qInv : U M) :
    (crtCoeff diff qInv p).toNat = diff.toNat * qInv.toNat % p.toNat :=
  Mont.leave hodd (Mont.mul hodd (Mont.enter hodd diff) (Mont.enter hodd qInv))

/-- What `diff` leaves modulo `p` when added to `m2`: `m1`, unless `m2` exceeds `m1` by more
than `p`; then the second subtraction borrows and `2 ^ (64 * M)` stays in. -/
theorem crtDiff_spec (m1 m2 p : U M) :
    (m2.toNat ≤ m1.toNat + p.toNat ∧
      m2.toNat + (crtDiff m1 m2 p).toNat ≡ m1.toNat [MOD p.toNat]) ∨
    (m1.toNat + p.toNat < m2.toNat ∧
      m2.toNat + (crtDiff m1 m2 p).toNat ≡ m1.toNat + 2 ^ (64 * M) [MOD p.toNat]) := by
  unfold crtDiff
  by_cases hge : m2.toNat ≤ m1.toNat
  · left
    rw [if_pos ((cmp_nonneg m1 m2).mpr hge), toNat_sub_of_le hge]
    refine ⟨by omega, ?_⟩
    rw [Nat.add_sub_cancel' hge]
  · rw [if_neg (fun h => hge ((cmp_nonneg m1 m2).mp h))]
    have ht := toNat_sub_of_le (a := m2) (b := m1) (by omega)
    by_cases hp : m2.toNat ≤ m1.toNat + p.toNat
    · left
      rw [toNat_sub_of_le (by omega), ht]
      refine ⟨hp, ?_⟩
      rw [show m2.toNat + (p.toNat - (m2.toNat - m1.toNat)) = m1.toNat + p.toNat by omega]
      simp [Nat.ModEq]
    · right
      have hwrap := toNat_sub_of_carry (a := p) (b := (sub m2 m1).1) (by omega)
      have hm2 := m2.toNat_lt
      rw [hwrap, ht]
      refine ⟨by omega, ?_⟩
      rw [show m2.toNat + (2 ^ (64 * M) + p.toNat - (m2.toNat - m1.toNat))
        = m1.toNat + 2 ^ (64 * M) + p.toNat by omega]
      simp [Nat.ModEq]

/-! ## Two-prime keys -/

/-- A two-prime RSA private key with its CRT components, in the limbs the function takes.
Nothing orders the primes. -/
structure RsaKey (M : Nat) where
  p : U M
  q : U M
  dp : U M
  dq : U M
  qInv : U M
  e : Nat
  d : Nat
  prime_p : p.toNat.Prime
  prime_q : q.toNat.Prime
  odd_p : p.toNat % 2 = 1
  odd_q : q.toNat % 2 = 1
  p_ne_q : p.toNat ≠ q.toNat
  e_mul_d : e * d ≡ 1 [MOD Nat.lcm (p.toNat - 1) (q.toNat - 1)]
  dp_eq : dp.toNat = d % (p.toNat - 1)
  dq_eq : dq.toNat = d % (q.toNat - 1)
  qInv_lt : qInv.toNat < p.toNat
  qInv_eq : q.toNat * qInv.toNat ≡ 1 [MOD p.toNat]

namespace RsaKey

variable (k : RsaKey M)

def n : Nat := k.p.toNat * k.q.toNat

def decrypt (c : U (2 * M)) : U (2 * M) := rsaCrtDecrypt c k.p k.q k.dp k.dq k.qInv

theorem coprime : Nat.Coprime k.p.toNat k.q.toNat :=
  (Nat.coprime_primes k.prime_p k.prime_q).mpr k.p_ne_q

theorem half_eq {r dr : U M} (hr : r.toNat.Prime) (hodd : r.toNat % 2 = 1)
    (hed : k.e * k.d ≡ 1 [MOD r.toNat - 1]) (hdr : dr.toNat = k.d % (r.toNat - 1))
    (c : U (2 * M)) :
    (modexpConsttime (reduceToM c r) dr r).toNat = c.toNat ^ k.d % r.toNat := by
  have hpos := Garner.mod_pred_pos hr hodd hed
  rw [toNat_modexpConsttime hodd, toNat_reduceToM c hr.pos, hdr]
  calc (c.toNat % r.toNat) ^ (k.d % (r.toNat - 1)) % r.toNat
      = c.toNat ^ (k.d % (r.toNat - 1)) % r.toNat := ((Nat.mod_modEq c.toNat r.toNat).pow _)
    _ = c.toNat ^ k.d % r.toNat := Garner.pow_mod_pred hr c.toNat k.d hpos

/-- The last step recombines two reduced halves, without overflow. -/
theorem toNat_decrypt (c : U (2 * M)) :
    ∃ m1 m2 h : U M, m1.toNat = c.toNat ^ k.d % k.p.toNat ∧ m2.toNat = c.toNat ^ k.d % k.q.toNat
      ∧ h.toNat = (crtDiff m1 m2 k.p).toNat * k.qInv.toNat % k.p.toNat
      ∧ (k.decrypt c).toNat = m2.toNat + h.toNat * k.q.toNat
      ∧ (k.decrypt c).toNat < k.n := by
  have hM := U.pos_of_toNat_pos k.prime_p.pos
  have hm1 := k.half_eq k.prime_p k.odd_p
    (k.e_mul_d.of_dvd (Nat.dvd_lcm_left _ _)) k.dp_eq c
  have hm2 := k.half_eq k.prime_q k.odd_q
    (k.e_mul_d.of_dvd (Nat.dvd_lcm_right _ _)) k.dq_eq c
  simp only [decrypt, rsaCrtDecrypt, n]
  generalize modexpConsttime (reduceToM c k.p) k.dp k.p = m1 at hm1
  generalize modexpConsttime (reduceToM c k.q) k.dq k.q = m2 at hm2
  have hm2lt : m2.toNat < k.q.toNat := hm2 ▸ Nat.mod_lt _ k.prime_q.pos
  have hcoeff := toNat_crtCoeff k.odd_p (crtDiff m1 m2 k.p) k.qInv
  generalize crtCoeff (crtDiff m1 m2 k.p) k.qInv k.p = h at hcoeff
  have hhlt : h.toNat < k.p.toNat := hcoeff ▸ Nat.mod_lt _ k.prime_p.pos
  have hlt := Garner.recombine_lt hm2lt hhlt
  have hout : (add (extend m2) (mulTrunc h k.q)).1.toNat = m2.toNat + h.toNat * k.q.toNat := by
    have hadd := add_spec (extend m2) (mulTrunc h k.q)
    have hfit := Nat.mul_lt_mul'' k.p.toNat_lt k.q.toNat_lt
    rw [← pow_add, show 64 * M + 64 * M = 64 * (2 * M) by ring] at hfit
    rw [toNat_extend, toNat_mulTrunc] at hadd
    have hcarry : (add (extend m2) (mulTrunc h k.q)).2.toNat = 0 := by
      rcases Nat.le_one_iff_eq_zero_or_eq_one.mp hadd.2 with h0 | h1
      · exact h0
      · rw [h1] at hadd; omega
    rw [hcarry] at hadd
    omega
  exact ⟨m1, m2, h, hm1, hm2, hcoeff, hout, hout ▸ hlt⟩

theorem decrypt_lt (c : U (2 * M)) : (k.decrypt c).toNat < k.n := by
  obtain ⟨_, _, _, -, -, -, -, hlt⟩ := k.toNat_decrypt c
  exact hlt

theorem decrypt_eq_iff (c : U (2 * M)) :
    (k.decrypt c).toNat = c.toNat ^ k.d % k.n ↔
      c.toNat ^ k.d % k.q.toNat ≤ c.toNat ^ k.d % k.p.toNat + k.p.toNat := by
  obtain ⟨m1, m2, h, hm1, hm2, hcoeff, hout, hlt⟩ := k.toNat_decrypt c
  have hdiff := crtDiff_spec m1 m2 k.p
  generalize crtDiff m1 m2 k.p = diff at hcoeff hdiff
  have hhmod : h.toNat ≡ diff.toNat * k.qInv.toNat [MOD k.p.toNat] := by
    rw [hcoeff]; exact Nat.mod_modEq _ _
  rw [← hm1, ← hm2]
  rw [hout] at hlt ⊢
  rw [n] at hlt ⊢
  have hq : m2.toNat + h.toNat * k.q.toNat ≡ c.toNat ^ k.d [MOD k.q.toNat] := by
    refine Garner.recombine_modEq_right.trans ?_
    rw [hm2]; exact Nat.mod_modEq _ _
  have hp := Garner.recombine_modEq_left (m := m2.toNat) k.qInv_eq hhmod
  have hm1mod : m1.toNat ≡ c.toNat ^ k.d [MOD k.p.toNat] := by
    rw [hm1]; exact Nat.mod_modEq _ _
  rw [Garner.eq_mod_mul_iff k.coprime hlt hq]
  rcases hdiff with ⟨hle, hmod⟩ | ⟨hgt, hmod⟩
  · exact iff_of_true (hp.trans (hmod.trans hm1mod)) hle
  · refine iff_of_false (fun heq => ?_) (by omega)
    -- otherwise `p` would divide `2 ^ (64 * M)`
    have hcancel : m1.toNat + 2 ^ (64 * M) ≡ m1.toNat + 0 [MOD k.p.toNat] :=
      ((hp.trans hmod).symm.trans heq).trans hm1mod.symm
    have hdvd := (Nat.modEq_zero_iff_dvd).mp (Nat.ModEq.add_left_cancel' _ hcancel)
    have hcop := coprime_radix (n := k.p) k.odd_p
    have hone := Nat.Coprime.eq_one_of_dvd hcop hdvd
    exact k.prime_p.one_lt.ne' hone

end RsaKey

/-- **When `rsa_crt_decrypt` is exact.** For every two-prime key, in either size order, and
every `c`, the function writes `c ^ d mod n` if and only if `c ^ d mod q` exceeds
`c ^ d mod p` by at most `p`. -/
theorem rsaCrtDecrypt_eq_iff (k : RsaKey M) (c : U (2 * M)) :
    (rsaCrtDecrypt c k.p k.q k.dp k.dq k.qInv).toNat
        = c.toNat ^ k.d % (k.p.toNat * k.q.toNat) ↔
      c.toNat ^ k.d % k.q.toNat ≤ c.toNat ^ k.d % k.p.toNat + k.p.toNat :=
  k.decrypt_eq_iff c

def smallKey : RsaKey 1 where
  p := U.ofNat 1 3
  q := U.ofNat 1 11
  dp := U.ofNat 1 1
  dq := U.ofNat 1 7
  qInv := U.ofNat 1 2
  e := 3
  d := 7
  prime_p := by
    rw [show (U.ofNat 1 3).toNat = 3 by decide]
    exact Nat.prime_three
  prime_q := by
    rw [show (U.ofNat 1 11).toNat = 11 by decide]
    norm_num
  odd_p := by decide
  odd_q := by decide
  p_ne_q := by decide
  e_mul_d := by decide
  dp_eq := by decide
  dq_eq := by decide
  qInv_lt := by decide
  qInv_eq := by decide

/-- With the smaller prime first the difference borrows: `3 ^ 7 mod 33` is `9`, and the
function writes `31`. -/
theorem rsaCrtDecrypt_not_exact :
    ¬ ∀ (M : Nat) (k : RsaKey M) (c : U (2 * M)),
      (rsaCrtDecrypt c k.p k.q k.dp k.dq k.qInv).toNat
        = c.toNat ^ k.d % (k.p.toNat * k.q.toNat) := by
  intro h
  have hout : (rsaCrtDecrypt (U.ofNat 2 3) (U.ofNat 1 3) (U.ofNat 1 11) (U.ofNat 1 1) (U.ofNat 1 7)
      (U.ofNat 1 2)).toNat = 31 := by decide +kernel
  have hexact : (U.ofNat 2 3).toNat ^ 7 % ((U.ofNat 1 3).toNat * (U.ofNat 1 11).toNat) = 9 := by
    decide
  have hclaim := (hout.symm.trans (h 1 smallKey (U.ofNat 2 3))).trans hexact
  exact absurd hclaim (by decide)

end OpenClickNP.Bigint
