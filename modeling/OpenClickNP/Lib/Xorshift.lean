import Mathlib.Dynamics.PeriodicPts.Lemmas

/-!
# Xorshift

A word is combined with itself, shifted to the left or to the right. That loses nothing
(`left_injective`, `right_injective`), and so do several such steps. A map of a finite type that
loses nothing comes back to where it began, and never to what it leaves alone
(`Generates.of_injective`).
-/

namespace Xorshift

/-! ## Words -/

section
variable {w k : Nat}

/-- `x ^= x << k`. -/
def left (k : Nat) (x : BitVec w) : BitVec w := x ^^^ (x <<< k)

/-- `x ^= x >> k`. -/
def right (k : Nat) (x : BitVec w) : BitVec w := x ^^^ (x >>> k)

/-- Two words with the same sum to a shift of their own differ by a word that is its shift. -/
theorem xor_eq_of_eq {x y s t : BitVec w} (h : x ^^^ s = y ^^^ t) : x ^^^ y = s ^^^ t := by
  have hx : x = y ^^^ (t ^^^ s) := by
    rw [← BitVec.xor_assoc, ← h, BitVec.xor_assoc, BitVec.xor_self, BitVec.xor_zero]
  rw [hx, BitVec.xor_comm y, BitVec.xor_assoc, BitVec.xor_self, BitVec.xor_zero, BitVec.xor_comm]

/-- A word that is its own shift to the left is 0. Induction on the bits. -/
theorem eq_zero_of_shiftLeft (hk : 0 < k) {d : BitVec w} (h : d = d <<< k) : d = 0 := by
  have hbit : ∀ i, d.getLsbD i = false := by
    intro i
    induction i using Nat.strongRecOn with
    | ind i ih =>
      rw [h, BitVec.getLsbD_shiftLeft]
      by_cases hi : i < k
      · simp [hi]
      · rw [ih (i - k) (by omega), Bool.and_false]
  exact BitVec.eq_of_getLsbD_eq fun i _ => by simp [hbit i]

/-- A word that is its own shift to the right is 0. -/
theorem eq_zero_of_shiftRight (hk : 0 < k) {d : BitVec w} (h : d = d >>> k) : d = 0 := by
  have hdiv : d.toNat = d.toNat / 2 ^ k := by
    have hnat := congrArg BitVec.toNat h
    rwa [BitVec.toNat_ushiftRight, Nat.shiftRight_eq_div_pow] at hnat
  have hzero : d.toNat = 0 := by
    by_contra hne
    have hlt := Nat.div_lt_self (Nat.pos_of_ne_zero hne) (Nat.one_lt_two_pow hk.ne')
    omega
  exact BitVec.eq_of_toNat_eq (by simp [hzero])

theorem left_injective (hk : 0 < k) : Function.Injective (left k : BitVec w → BitVec w) := by
  intro x y h
  have hshift : x ^^^ y = (x ^^^ y) <<< k := by
    rw [BitVec.shiftLeft_xor_distrib]
    exact xor_eq_of_eq h
  exact BitVec.xor_eq_zero_iff.mp (eq_zero_of_shiftLeft hk hshift)

theorem right_injective (hk : 0 < k) : Function.Injective (right k : BitVec w → BitVec w) := by
  intro x y h
  have hshift : x ^^^ y = (x ^^^ y) >>> k := by
    rw [BitVec.ushiftRight_xor_distrib]
    exact xor_eq_of_eq h
  exact BitVec.xor_eq_zero_iff.mp (eq_zero_of_shiftRight hk hshift)

end

/-! ## What is generated -/

/-- What a step makes of a seed never comes to `zero`, and comes back to the seed. -/
structure Generates {α : Type*} (step : α → α) (zero seed : α) : Prop where
  ne_zero : ∀ n, step^[n] seed ≠ zero
  period : ∃ p > 0, ∀ n, step^[n + p] seed = step^[n] seed

theorem Generates.of_injective {α : Type*} [Finite α] {step : α → α} {zero seed : α}
    (hstep : Function.Injective step) (hzero : step zero = zero) (hseed : seed ≠ zero) :
    Generates step zero seed where
  ne_zero n h := by
    have hfixed : step^[n] zero = zero := Function.iterate_fixed hzero n
    exact hseed (hstep.iterate n (h.trans hfixed.symm))
  period := by
    obtain ⟨p, hpos, hp⟩ := Function.mem_periodicPts.mp (hstep.mem_periodicPts seed)
    refine ⟨p, hpos, fun n => ?_⟩
    rw [Function.iterate_add_apply, hp]

end Xorshift
