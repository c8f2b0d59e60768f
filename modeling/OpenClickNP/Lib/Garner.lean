import Mathlib.FieldTheory.Finite.Basic
import Mathlib.Data.Nat.ChineseRemainder
import Mathlib.Tactic.Ring

/-!
# Exponentiation modulo a product of two primes

Exponents may be reduced modulo `p - 1` for a prime modulus `p` (`pow_mod_pred`), and two
residues are recombined by one multiplication with the inverse of one modulus in the other
(`recombine_lt`, `recombine_modEq_left`, `recombine_modEq_right`).
-/

namespace Garner

/-- For a prime `p` the exponent counts modulo `p - 1`, zero bases included as long as the
reduced exponent is not zero. -/
theorem pow_mod_pred {p : Nat} (hp : p.Prime) (c d : Nat) (hd : 0 < d % (p - 1)) :
    c ^ (d % (p - 1)) ≡ c ^ d [MOD p] := by
  by_cases hdvd : p ∣ c
  · have hd' : d ≠ 0 := fun h => by simp [h] at hd
    have h0 : c ≡ 0 [MOD p] := (Nat.modEq_zero_iff_dvd).mpr hdvd
    calc c ^ (d % (p - 1)) ≡ 0 ^ (d % (p - 1)) [MOD p] := h0.pow _
      _ = 0 ^ d := by rw [zero_pow hd.ne', zero_pow hd']
      _ ≡ c ^ d [MOD p] := (h0.pow d).symm
  · have hcop : Nat.Coprime c p := ((Nat.Prime.coprime_iff_not_dvd hp).mpr hdvd).symm
    have hfermat : c ^ (p - 1) ≡ 1 [MOD p] := by
      have h := Nat.ModEq.pow_totient hcop
      rwa [Nat.totient_prime hp] at h
    calc c ^ (d % (p - 1)) = 1 ^ (d / (p - 1)) * c ^ (d % (p - 1)) := by rw [one_pow, one_mul]
      _ ≡ (c ^ (p - 1)) ^ (d / (p - 1)) * c ^ (d % (p - 1)) [MOD p] :=
        ((hfermat.pow _).symm).mul_right _
      _ = c ^ d := by rw [← pow_mul, ← pow_add, Nat.div_add_mod]

theorem mod_pred_pos {p d e : Nat} (hp : p.Prime) (hodd : p % 2 = 1)
    (hed : e * d ≡ 1 [MOD p - 1]) : 0 < d % (p - 1) := by
  have htwo := hp.two_le
  rcases Nat.eq_zero_or_pos (d % (p - 1)) with h0 | hpos
  · have hd : p - 1 ∣ d := Nat.dvd_of_mod_eq_zero h0
    have hone : p - 1 ∣ 1 := (hed.dvd_iff dvd_rfl).mp (Dvd.dvd.mul_left hd e)
    have hle := Nat.le_of_dvd one_pos hone
    omega
  · exact hpos

/-- An exponent that is `1` modulo `p - 1` changes nothing modulo an odd prime `p`. -/
theorem pow_modEq_self {p m : Nat} (hp : p.Prime) (hodd : p % 2 = 1) (hm : m ≡ 1 [MOD p - 1])
    (x : Nat) : x ^ m ≡ x [MOD p] := by
  have htwo := hp.two_le
  have hone : m % (p - 1) = 1 := by
    calc m % (p - 1) = 1 % (p - 1) := hm
      _ = 1 := Nat.mod_eq_of_lt (by omega)
  have hpow := pow_mod_pred hp x m (by omega)
  rw [hone, pow_one] at hpow
  exact hpow.symm

/-- The same modulo a product of distinct odd primes. -/
theorem pow_modEq_self_prod {l : List Nat} {m : Nat} (hprime : ∀ r ∈ l, r.Prime)
    (hodd : ∀ r ∈ l, r % 2 = 1) (hnodup : l.Nodup) (hm : ∀ r ∈ l, m ≡ 1 [MOD r - 1]) (x : Nat) :
    x ^ m ≡ x [MOD l.prod] := by
  have hcoprime : l.Pairwise Nat.Coprime :=
    hnodup.imp_of_mem fun ha hb hne => (Nat.coprime_primes (hprime _ ha) (hprime _ hb)).mpr hne
  rw [Nat.modEq_list_prod_iff hcoprime]
  intro i
  have hmem := List.get_mem l i
  exact pow_modEq_self (hprime _ hmem) (hodd _ hmem) (hm _ hmem) x

section
variable {p q qInv m h δ : Nat}

theorem recombine_lt (hm2 : m < q) (hh : h < p) : m + h * q < p * q := by
  have : (h + 1) * q ≤ p * q := Nat.mul_le_mul_right q hh
  rw [Nat.add_mul, Nat.one_mul] at this
  omega

theorem recombine_modEq_right : m + h * q ≡ m [MOD q] := by
  simp [Nat.ModEq]

theorem recombine_modEq_left (hinv : q * qInv ≡ 1 [MOD p]) (hh : h ≡ δ * qInv [MOD p]) :
    m + h * q ≡ m + δ [MOD p] := by
  refine Nat.ModEq.add_left m ?_
  calc h * q ≡ δ * qInv * q [MOD p] := hh.mul_right q
    _ = δ * (q * qInv) := by ring
    _ ≡ δ * 1 [MOD p] := hinv.mul_left δ
    _ = δ := mul_one δ

end

theorem eq_mod_mul_iff {p q x v : Nat} (hcop : Nat.Coprime p q) (hx : x < p * q)
    (hq : x ≡ v [MOD q]) : x = v % (p * q) ↔ x ≡ v [MOD p] := by
  constructor
  · intro h
    rw [h]
    exact (Nat.mod_modEq v (p * q)).of_mul_right q
  · intro hp
    have hpq : x ≡ v [MOD p * q] := (Nat.modEq_and_modEq_iff_modEq_mul hcop).mp ⟨hp, hq⟩
    calc x = x % (p * q) := (Nat.mod_eq_of_lt hx).symm
      _ = v % (p * q) := hpq

end Garner
