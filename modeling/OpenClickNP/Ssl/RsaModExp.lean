import OpenClickNP.Bigint.RsaCrt
import OpenClickNP.Ssl.BnModExp

/-!
# The `rsa_mod_exp` hook of the OpenSSL engine

`ocnp_rsa_mod_exp` recombines two halves, from `p` and `q`. A key may have more primes; the
modulus is then a multiple of `p * q`, and what the hook computes is right only for a message
below `p * q` (`ocnpRsaModExp_eq_iff`). Calls that it leaves to libcrypto are not concerned.
-/

namespace OpenClickNP.Ssl

open Bigint

/-! ## The hook -/

/-- What `RSA_get0_key`, `RSA_get0_factors` and `RSA_get0_crt_params` return of a key; a null
pointer is `none`. -/
structure Rsa (B : Type) where
  n : B
  d : B
  p : Option B
  q : Option B
  dp : Option B
  dq : Option B
  qi : Option B

/-- `openclicknp_rsa_crt` for `n_limbs = 2 * M`. -/
def openclicknpRsaCrt {M : Nat} (c : U (2 * M)) (p q dp dq qInv : U M) : Option (U (2 * M)) :=
  if Instantiated (2 * M) then
    if evenLimbs p || evenLimbs q then none else some (rsaCrtDecrypt c p q dp dq qInv)
  else none

/-- `ocnp_rsa_mod_exp(r0, I, rsa)`: the number stored in `r0`, or `none` when `0` is returned, and
the counters after the call. -/
def ocnpRsaModExp {B : Type} (L : LibCrypto B) (I : B) (rsa : Rsa B) (g : Counters) :
    Option B × Counters :=
  let fallback := (L.BN_mod_exp_mont_consttime I rsa.d rsa.n, g.unsupported)
  match rsa.p, rsa.q, rsa.dp, rsa.dq, rsa.qi with
  | some bnP, some bnQ, some bnDp, some bnDq, some bnQi =>
    let nLimbs := roundUpLimbsForBits (L.BN_num_bits rsa.n)
    if nLimbs = 0 then fallback
    else
      -- every width is even, so `2 * half` limbs are `n_limbs`
      let half := nLimbs / 2
      match L.bnToLimbs I (2 * half), L.bnToLimbs bnP half, L.bnToLimbs bnQ half,
        L.bnToLimbs bnDp half, L.bnToLimbs bnDq half, L.bnToLimbs bnQi half with
      | some cLimbs, some pLimbs, some qLimbs, some dpLimbs, some dqLimbs, some qiLimbs =>
        match openclicknpRsaCrt cLimbs pLimbs qLimbs dpLimbs dqLimbs qiLimbs with
        | some rLimbs => (L.limbsToBn rLimbs, g.crt)
        | none => fallback
      | _, _, _, _, _, _ => fallback
  | _, _, _, _, _ => fallback

/-! ## Keys -/

/-- A valid RSA key: two or more distinct odd primes, and exponents inverse to each other modulo
the least common multiple of the `r - 1`. Of two primes the first is the larger one. -/
structure PrivateKey where
  p : Nat
  q : Nat
  others : List Nat
  e : Nat
  d : Nat
  prime : ∀ r ∈ p :: q :: others, r.Prime
  odd : ∀ r ∈ p :: q :: others, r % 2 = 1
  nodup : (p :: q :: others).Nodup
  e_mul_d : e * d ≡ 1 [MOD ((p :: q :: others).map (· - 1)).foldr Nat.lcm 1]
  q_lt_p : others = [] → q < p

namespace PrivateKey

variable (k : PrivateKey)

def primes : List Nat := k.p :: k.q :: k.others

def n : Nat := k.primes.prod

/-- The components of the key are those that libcrypto returns. -/
structure Stored {B : Type} (L : LibCrypto B) (rsa : Rsa B) : Prop where
  n : L.value rsa.n = k.n
  d : L.value rsa.d = k.d
  p : ∃ x, rsa.p = some x ∧ L.value x = k.p
  q : ∃ x, rsa.q = some x ∧ L.value x = k.q
  dp : ∃ x, rsa.dp = some x ∧ L.value x = k.d % (k.p - 1)
  dq : ∃ x, rsa.dq = some x ∧ L.value x = k.d % (k.q - 1)
  qi : ∃ x, rsa.qi = some x ∧ L.value x < k.p ∧ k.q * L.value x ≡ 1 [MOD k.p]

/-- The bits of half the width chosen for the modulus. -/
def halfBits : Nat := 64 * (roundUpLimbsForBits k.n.size / 2)

/-- The hook leaves the key to libcrypto: the modulus is too long, or a prime is too long for half
of the width chosen for the modulus. -/
def LeftToLibcrypto : Prop :=
  4096 < k.n.size ∨ 2 ^ k.halfBits ≤ k.p ∨ 2 ^ k.halfBits ≤ k.q

/-- `c` is the ciphertext of a message that `p` and `q` alone determine, in the order of size that
the recombination takes. -/
def ShortMessage (c : Nat) : Prop :=
  ∃ x, x < k.p * k.q ∧ x ^ k.e % k.n = c ∧ x % k.q ≤ x % k.p + k.p

theorem n_eq : k.n = k.p * k.q * k.others.prod := by
  simp [n, primes, Nat.mul_assoc]

theorem odd_n : k.n % 2 = 1 := by
  rw [← Nat.odd_iff, n]
  have hodd : ∀ l : List Nat, (∀ r ∈ l, r % 2 = 1) → Odd l.prod := by
    intro l hl
    induction l with
    | nil => exact odd_one
    | cons r l ih =>
      rw [List.prod_cons]
      exact (Nat.odd_iff.mpr (hl r List.mem_cons_self)).mul
        (ih fun s hs => hl s (List.mem_cons_of_mem r hs))
  exact hodd _ k.odd

theorem e_mul_d_of_mem {r : Nat} (hr : r ∈ k.primes) : k.e * k.d ≡ 1 [MOD r - 1] := by
  have hdvd : ∀ l : List Nat, r ∈ l → r - 1 ∣ (l.map (· - 1)).foldr Nat.lcm 1 := by
    intro l hl
    induction l with
    | nil => cases hl
    | cons s l ih =>
      rw [List.map_cons, List.foldr_cons]
      rcases List.mem_cons.mp hl with rfl | hmem
      · exact Nat.dvd_lcm_left _ _
      · exact (ih hmem).trans (Nat.dvd_lcm_right _ _)
  exact k.e_mul_d.of_dvd (hdvd k.primes hr)

/-- Decryption undoes encryption, for a message of any size. -/
theorem pow_modEq_self (x : Nat) : x ^ (k.e * k.d) ≡ x [MOD k.n] :=
  Garner.pow_modEq_self_prod k.prime k.odd k.nodup (fun _ hr => k.e_mul_d_of_mem hr) x

theorem mul_le_n : k.p * k.q ≤ k.n := by
  rw [n_eq]
  refine Nat.le_mul_of_pos_right _ (List.prod_pos fun r hr => ?_)
  exact (k.prime r (List.mem_cons_of_mem _ (List.mem_cons_of_mem _ hr))).pos

/-- The ciphertexts of short messages are those whose power is short. -/
theorem shortMessage_iff {c : Nat} (hc : c < k.n) :
    k.ShortMessage c ↔
      c ^ k.d % k.n < k.p * k.q ∧ c ^ k.d % k.q ≤ c ^ k.d % k.p + k.p := by
  have hp : k.p ∣ k.n := ⟨k.q * k.others.prod, by rw [n_eq, Nat.mul_assoc]⟩
  have hq : k.q ∣ k.n := ⟨k.p * k.others.prod, by rw [n_eq]; ring⟩
  constructor
  · rintro ⟨x, hx, hxc, hle⟩
    have hpow : c ^ k.d ≡ x [MOD k.n] := by
      calc c ^ k.d ≡ (x ^ k.e) ^ k.d [MOD k.n] := by
            rw [← hxc]
            exact (Nat.mod_modEq _ _).pow _
        _ = x ^ (k.e * k.d) := (pow_mul x k.e k.d).symm
        _ ≡ x [MOD k.n] := k.pow_modEq_self x
    have hmod : c ^ k.d % k.n = x := by
      calc c ^ k.d % k.n = x % k.n := hpow
        _ = x := Nat.mod_eq_of_lt (hx.trans_le k.mul_le_n)
    rw [hmod, hpow.of_dvd hp, hpow.of_dvd hq]
    exact ⟨hx, hle⟩
  · rintro ⟨hlt, hle⟩
    refine ⟨c ^ k.d % k.n, hlt, ?_, ?_⟩
    · calc (c ^ k.d % k.n) ^ k.e % k.n = (c ^ k.d) ^ k.e % k.n := (Nat.mod_modEq _ _).pow _
        _ = c ^ (k.e * k.d) % k.n := by rw [← pow_mul, Nat.mul_comm k.d k.e]
        _ = c % k.n := k.pow_modEq_self c
        _ = c := Nat.mod_eq_of_lt hc
    · rwa [Nat.mod_mod_of_dvd _ hp, Nat.mod_mod_of_dvd _ hq]

/-- With two primes, or with the larger of the two in front, every message below `p * q` is
recombined. -/
theorem shortMessage_of_others_eq_nil (h : k.others = []) {c : Nat} (hc : c < k.n) :
    k.ShortMessage c := by
  have hn : k.n = k.p * k.q := by rw [n_eq, h, List.prod_nil, Nat.mul_one]
  have hlt := k.q_lt_p h
  rw [shortMessage_iff k hc, hn]
  have hq : c ^ k.d % k.q < k.q := Nat.mod_lt _ (by
    exact (k.prime k.q (List.mem_cons_of_mem _ List.mem_cons_self)).pos)
  exact ⟨Nat.mod_lt _ (hn ▸ (Nat.zero_le c).trans_lt hc), by omega⟩

/-- What the hook answers itself fits the width, and half of it. -/
theorem fits_of_not_left (h : ¬ k.LeftToLibcrypto) :
    roundUpLimbsForBits k.n.size ≠ 0 ∧ Instantiated (2 * (roundUpLimbsForBits k.n.size / 2))
      ∧ k.n < 2 ^ (64 * (2 * (roundUpLimbsForBits k.n.size / 2)))
      ∧ k.p < 2 ^ k.halfBits ∧ k.q < 2 ^ k.halfBits := by
  simp only [LeftToLibcrypto, not_or, Nat.not_lt, Nat.not_le] at h
  obtain ⟨hsize, hp, hq⟩ := h
  have hinst := instantiated_roundUpLimbsForBits hsize
  have heven : 2 * (roundUpLimbsForBits k.n.size / 2) = roundUpLimbsForBits k.n.size := by
    rcases hinst with h | h | h <;> rw [h]
  have hne : roundUpLimbsForBits k.n.size ≠ 0 := by
    rw [Ne, roundUpLimbsForBits_eq_zero_iff, Nat.not_lt]
    exact hsize
  rw [heven]
  refine ⟨hne, hinst, ?_, hp, hq⟩
  calc k.n < 2 ^ k.n.size := Nat.lt_size_self _
    _ ≤ _ := Nat.pow_le_pow_right (by norm_num) (le_roundUpLimbsForBits hsize)

/-- The first two primes as the key that the limbs spell. -/
def toRsaKey {M : Nat} {p q dp dq qInv : U M} (hp : p.toNat = k.p) (hq : q.toNat = k.q)
    (hdp : dp.toNat = k.d % (k.p - 1)) (hdq : dq.toNat = k.d % (k.q - 1))
    (hlt : qInv.toNat < k.p) (hinv : k.q * qInv.toNat ≡ 1 [MOD k.p]) : RsaKey M where
  p := p
  q := q
  dp := dp
  dq := dq
  qInv := qInv
  e := k.e
  d := k.d
  prime_p := hp ▸ k.prime k.p List.mem_cons_self
  prime_q := hq ▸ k.prime k.q (List.mem_cons_of_mem _ List.mem_cons_self)
  odd_p := hp ▸ k.odd k.p List.mem_cons_self
  odd_q := hq ▸ k.odd k.q (List.mem_cons_of_mem _ List.mem_cons_self)
  p_ne_q := by
    rw [hp, hq]
    exact fun h => (List.nodup_cons.mp k.nodup).1 (h ▸ List.mem_cons_self)
  e_mul_d := by
    rw [hp, hq]
    exact k.e_mul_d.of_dvd (Nat.lcm_dvd (Nat.dvd_lcm_left _ _)
      ((Nat.dvd_lcm_left _ _).trans (Nat.dvd_lcm_right _ _)))
  dp_eq := by rw [hp]; exact hdp
  dq_eq := by rw [hq]; exact hdq
  qInv_lt := by rw [hp]; exact hlt
  qInv_eq := by rw [hp, hq]; exact hinv

end PrivateKey

/-! ## What the hook stores -/

/-- The recombination of the first two primes is the power of the whole key for the short messages
only. -/
theorem PrivateKey.decrypt_eq_iff (k : PrivateKey) {M : Nat} {r : RsaKey M} (c : U (2 * M))
    (hp : r.p.toNat = k.p) (hq : r.q.toNat = k.q) (hd : r.d = k.d) (hc : c.toNat < k.n) :
    (r.decrypt c).toNat = c.toNat ^ k.d % k.n ↔ k.ShortMessage c.toNat := by
  have hlt := r.decrypt_lt c
  have hiff := r.decrypt_eq_iff c
  rw [RsaKey.n, hp, hq] at hlt hiff
  rw [hd] at hiff
  rw [k.shortMessage_iff hc, ← hiff]
  have hdvd : k.p * k.q ∣ k.n := ⟨k.others.prod, k.n_eq⟩
  have hmod : c.toNat ^ k.d % k.n % (k.p * k.q) = c.toNat ^ k.d % (k.p * k.q) :=
    Nat.mod_mod_of_dvd _ hdvd
  constructor
  · intro heq
    rw [heq] at hlt
    exact ⟨hlt, by rw [heq, ← hmod, Nat.mod_eq_of_lt hlt]⟩
  · rintro ⟨hshort, heq⟩
    rw [heq, ← hmod, Nat.mod_eq_of_lt hshort]

section
variable {B : Type} {L : LibCrypto B} (hL : L.Exact) {k : PrivateKey} {rsa : Rsa B}
  (hk : k.Stored L rsa)
include hL hk

theorem ocnpRsaModExp_of_left (I : B) (g : Counters) (h : k.LeftToLibcrypto) :
    (ocnpRsaModExp L I rsa g).1 = L.BN_mod_exp_mont_consttime I rsa.d rsa.n := by
  obtain ⟨bnP, hbnP, hp⟩ := hk.p
  obtain ⟨bnQ, hbnQ, hq⟩ := hk.q
  obtain ⟨bnDp, hbnDp, -⟩ := hk.dp
  obtain ⟨bnDq, hbnDq, -⟩ := hk.dq
  obtain ⟨bnQi, hbnQi, -⟩ := hk.qi
  have hbits : L.BN_num_bits rsa.n = k.n.size := by rw [hL.num_bits, hk.n]
  simp only [PrivateKey.LeftToLibcrypto, PrivateKey.halfBits, ← hbits, ← hp, ← hq] at h
  simp only [ocnpRsaModExp, hbnP, hbnQ, hbnDp, hbnDq, hbnQi]
  split
  · rfl
  next hn =>
    rw [roundUpLimbsForBits_eq_zero_iff] at hn
    split
    next hpLimbs hqLimbs _ _ _ =>
      -- a prime does not fit, so its conversion has failed
      exfalso
      rcases h with h | h | h
      · exact hn h
      · rw [LibCrypto.bnToLimbs_of_le hL h] at hpLimbs
        cases hpLimbs
      · rw [LibCrypto.bnToLimbs_of_le hL h] at hqLimbs
        cases hqLimbs
    next => rfl

theorem ocnpRsaModExp_of_not_left (I : B) (g : Counters) (hI : L.value I < k.n)
    (h : ¬ k.LeftToLibcrypto) :
    ∃ x, (ocnpRsaModExp L I rsa g).1 = some x
      ∧ (L.value x = L.value I ^ k.d % k.n ↔ k.ShortMessage (L.value I)) := by
  obtain ⟨bnP, hbnP, hp⟩ := hk.p
  obtain ⟨bnQ, hbnQ, hq⟩ := hk.q
  obtain ⟨bnDp, hbnDp, hdp⟩ := hk.dp
  obtain ⟨bnDq, hbnDq, hdq⟩ := hk.dq
  obtain ⟨bnQi, hbnQi, hqiLt, hqi⟩ := hk.qi
  have hbits : L.BN_num_bits rsa.n = k.n.size := by rw [hL.num_bits, hk.n]
  obtain ⟨hn, hinst, hnLt, hpLt, hqLt⟩ := k.fits_of_not_left h
  rw [PrivateKey.halfBits] at hpLt hqLt
  rw [← hbits] at hn hinst hnLt hpLt hqLt
  simp only [ocnpRsaModExp, hbnP, hbnQ, hbnDp, hbnDq, hbnQi, if_neg hn]
  generalize roundUpLimbsForBits (L.BN_num_bits rsa.n) / 2 = half at hinst hnLt hpLt hqLt ⊢
  -- the two exponents are smaller than their primes
  have hdpLt : L.value bnDp < 2 ^ (64 * half) := by
    have hle := Nat.mod_lt k.d (y := k.p - 1) (by
      have := (k.prime k.p List.mem_cons_self).two_le
      omega)
    omega
  have hdqLt : L.value bnDq < 2 ^ (64 * half) := by
    have hle := Nat.mod_lt k.d (y := k.q - 1) (by
      have := (k.prime k.q (List.mem_cons_of_mem _ List.mem_cons_self)).two_le
      omega)
    omega
  obtain ⟨cLimbs, hcLimbs, hc⟩ := LibCrypto.bnToLimbs_of_lt hL (hI.trans hnLt)
  obtain ⟨pLimbs, hpLimbs, hpVal⟩ := LibCrypto.bnToLimbs_of_lt hL (hp ▸ hpLt)
  obtain ⟨qLimbs, hqLimbs, hqVal⟩ := LibCrypto.bnToLimbs_of_lt hL (hq ▸ hqLt)
  obtain ⟨dpLimbs, hdpLimbs, hdpVal⟩ := LibCrypto.bnToLimbs_of_lt hL hdpLt
  obtain ⟨dqLimbs, hdqLimbs, hdqVal⟩ := LibCrypto.bnToLimbs_of_lt hL hdqLt
  obtain ⟨qiLimbs, hqiLimbs, hqiVal⟩ := LibCrypto.bnToLimbs_of_lt hL (hqiLt.trans hpLt)
  let r := k.toRsaKey (hpVal.trans hp) (hqVal.trans hq) (hdpVal.trans hdp) (hdqVal.trans hdq)
    (hqiVal ▸ hqiLt) (hqiVal ▸ hqi)
  have hshim : openclicknpRsaCrt cLimbs pLimbs qLimbs dpLimbs dqLimbs qiLimbs
      = some (r.decrypt cLimbs) := by
    have hpOdd : pLimbs.toNat % 2 = 1 := r.odd_p
    have hqOdd : qLimbs.toNat % 2 = 1 := r.odd_q
    simp [openclicknpRsaCrt, hinst, evenLimbs_eq, hpOdd, hqOdd, r, RsaKey.decrypt,
      PrivateKey.toRsaKey]
  obtain ⟨x, hx, hval⟩ := LibCrypto.limbsToBn_spec hL (r.decrypt cLimbs)
  refine ⟨x, ?_, ?_⟩
  · simp only [hcLimbs, hpLimbs, hqLimbs, hdpLimbs, hdqLimbs, hqiLimbs, hshim, hx]
  · rw [hval, ← hc]
    exact k.decrypt_eq_iff (r := r) cLimbs (hpVal.trans hp) (hqVal.trans hq) rfl (hc ▸ hI)

/-- On a call that the hook answers itself, short messages are what it gets right. -/
theorem value_ocnpRsaModExp_iff (I : B) (g : Counters) (hI : L.value I < k.n) :
    (∀ x, (ocnpRsaModExp L I rsa g).1 = some x → L.value x = L.value I ^ k.d % k.n) ↔
      k.others = [] ∨ k.LeftToLibcrypto ∨ k.ShortMessage (L.value I) := by
  by_cases hleft : k.LeftToLibcrypto
  · refine iff_of_true (fun x hx => ?_) (Or.inr (Or.inl hleft))
    rw [ocnpRsaModExp_of_left hL hk I g hleft] at hx
    obtain ⟨y, hy, hval⟩ := hL.mod_exp_mont_consttime I rsa.d rsa.n (hk.n ▸ k.odd_n)
    obtain rfl := Option.some.inj (hx.symm.trans hy)
    rw [hval, hk.n, hk.d]
  · obtain ⟨y, hy, hiff⟩ := ocnpRsaModExp_of_not_left hL hk I g hI hleft
    constructor
    · exact fun h => Or.inr (Or.inr (hiff.mp (h y hy)))
    · intro h x hx
      obtain rfl := Option.some.inj (hx.symm.trans hy)
      rcases h with htwo | hleft' | hshort
      · exact hiff.mpr (k.shortMessage_of_others_eq_nil htwo hI)
      · exact absurd hleft' hleft
      · exact hiff.mpr hshort

end

/-- **When `ocnp_rsa_mod_exp` stores the power.** For every valid key and every `I` below the
modulus, what it stores, if anything, is `I ^ d mod n` if and only if the key has two primes, or
the call is left to libcrypto, or `I` is the ciphertext of a message below `p * q`. -/
theorem ocnpRsaModExp_eq_iff {B : Type} (L : LibCrypto B) (hL : L.Exact) (k : PrivateKey)
    (rsa : Rsa B) (hk : k.Stored L rsa) (I : B) (g : Counters) (hI : L.value I < k.n) :
    (∀ x, (ocnpRsaModExp L I rsa g).1 = some x → L.value x = L.value I ^ k.d % k.n) ↔
      k.others = [] ∨ k.LeftToLibcrypto ∨ k.ShortMessage (L.value I) :=
  value_ocnpRsaModExp_iff hL hk I g hI

/-- Three primes and their components. -/
def threePrimes : PrivateKey where
  p := 7
  q := 5
  others := [3]
  e := 5
  d := 5
  prime := by
    have h7 : Nat.Prime 7 := by norm_num
    simp [h7, Nat.prime_five, Nat.prime_three]
  odd := by decide
  nodup := by decide
  e_mul_d := by decide
  q_lt_p := by simp

def threePrimesStored : Rsa (Nat × Bool) where
  n := (105, false)
  d := (5, false)
  p := some (7, false)
  q := some (5, false)
  dp := some (5, false)
  dq := some (1, false)
  qi := some (3, false)

theorem threePrimes_stored : threePrimes.Stored natCrypto threePrimesStored where
  n := by decide
  d := by decide
  p := ⟨(7, false), by decide, by decide⟩
  q := ⟨(5, false), by decide, by decide⟩
  dp := ⟨(5, false), by decide, by decide⟩
  dq := ⟨(1, false), by decide, by decide⟩
  qi := ⟨(3, false), by decide, by decide, by decide⟩

theorem ocnpRsaModExp_eq_three_primes :
    (∀ x, (ocnpRsaModExp natCrypto (36, false) threePrimesStored ⟨0, 0, 0, 0⟩).1 = some x →
        natCrypto.value x = 36 ^ 5 % 105) ↔
      threePrimes.others = [] ∨ threePrimes.LeftToLibcrypto ∨ threePrimes.ShortMessage 36 :=
  ocnpRsaModExp_eq_iff natCrypto natCrypto_exact threePrimes threePrimesStored threePrimes_stored
    (36, false) ⟨0, 0, 0, 0⟩ (by decide)

/-- `36 ^ 5 mod 105` is `36`, but the hook stores a number below `35`. -/
theorem ocnpRsaModExp_ne_power :
    ¬ ∀ (B : Type) (L : LibCrypto B), L.Exact → ∀ (k : PrivateKey) (rsa : Rsa B),
      k.Stored L rsa → ∀ (I : B) (g : Counters), L.value I < k.n →
      ∀ x, (ocnpRsaModExp L I rsa g).1 = some x → L.value x = L.value I ^ k.d % k.n := by
  intro hall
  have h := hall _ natCrypto natCrypto_exact threePrimes threePrimesStored threePrimes_stored
    (36, false) ⟨0, 0, 0, 0⟩ (by decide)
  rw [value_ocnpRsaModExp_iff natCrypto_exact threePrimes_stored (36, false) _ (by decide)] at h
  have hn : threePrimes.n = 105 := by decide
  have hsize : Nat.size 105 = 7 := by decide
  rcases h with h | h | h
  · exact absurd h (by decide)
  · simp only [PrivateKey.LeftToLibcrypto, PrivateKey.halfBits, hn, hsize] at h
    have hwide : 2 ^ 3 ≤ 2 ^ (64 * (roundUpLimbsForBits 7 / 2)) :=
      Nat.pow_le_pow_right (by norm_num) (by decide)
    have hp : threePrimes.p = 7 := rfl
    have hq : threePrimes.q = 5 := rfl
    omega
  · have hlt := ((threePrimes.shortMessage_iff (by decide)).mp h).1
    exact absurd hlt (by decide)

end OpenClickNP.Ssl
