import Mathlib.Data.Nat.Bitwise
import OpenClickNP.Lib.Loop

/-!
# Exponentiation loops

Two loops that read the bits of an exponent from the most significant one down. Both are
stated over any carrier with a multiplication, through a relation `Rep k a` ("`a` stands
for the `k`-th power") that the multiplication respects: square-and-multiply carries
`Rep (e / 2 ^ i)`, the ladder carries that for its first component and the next power for
its second.
-/

namespace PowerLoop

open Loop

variable {α : Type*} (mul : α → α → α) (Rep : Nat → α → Prop)

/-- Reading bit `i` doubles the prefix of the exponent and adds the bit. -/
theorem div_two_pow_eq (e i : Nat) :
    e / 2 ^ i = 2 * (e / 2 ^ (i + 1)) + (if e.testBit i then 1 else 0) := by
  rw [Nat.pow_succ, ← Nat.div_div_eq_div_mul, Nat.testBit_eq_decide_div_mod_eq]
  simp only [decide_eq_true_eq]
  split <;> omega

/-! ## Square and multiply -/

def squareMultiply (x : α) (bit : Nat → Bool) (i : Nat) (r : α) : α :=
  if bit i then mul (mul r r) x else mul r r

/-- **Square-and-multiply computes the power.** The invariant at bit `i` is
`Rep (e / 2 ^ i)`. -/
theorem squareMultiply_rep
    (hmul : ∀ {i j a b}, Rep i a → Rep j b → Rep (i + j) (mul a b))
    {x r : α} (hx : Rep 1 x) (hr : Rep 0 r) (e : Nat) {n : Nat} (he : e < 2 ^ n) :
    Rep e (forDown (squareMultiply mul x e.testBit) n r) := by
  have hinv := forDown_inv (squareMultiply mul x e.testBit)
    (fun i a => Rep (e / 2 ^ i) a) n r ?_ ?_
  · simpa using hinv
  · simpa [Nat.div_eq_of_lt he] using hr
  · intro i a _ ha
    show Rep (e / 2 ^ i) (squareMultiply mul x e.testBit i a)
    rw [div_two_pow_eq e i, squareMultiply]
    have hsq := hmul ha ha
    rw [← two_mul] at hsq
    by_cases hb : e.testBit i
    · simpa [hb] using hmul hsq hx
    · simpa [hb] using hsq

/-! ## The ladder -/

def ladder (bit : Nat → Bool) (i : Nat) (p : α × α) : α × α :=
  if bit i then (mul p.2 p.1, mul p.2 p.2) else (mul p.1 p.1, mul p.1 p.2)

/-- **The ladder computes the power.** The invariant at bit `i` is `Rep (e / 2 ^ i)` of the
first component and the next power of the second, leading zero bits included. -/
theorem ladder_rep
    (hmul : ∀ {i j a b}, Rep i a → Rep j b → Rep (i + j) (mul a b))
    {p : α × α} (h0 : Rep 0 p.1) (h1 : Rep 1 p.2) (e : Nat) {n : Nat} (he : e < 2 ^ n) :
    Rep e (forDown (ladder mul e.testBit) n p).1 := by
  have hinv := forDown_inv (ladder mul e.testBit)
    (fun i q => Rep (e / 2 ^ i) q.1 ∧ Rep (e / 2 ^ i + 1) q.2) n p ?_ ?_
  · simpa using hinv.1
  · simpa [Nat.div_eq_of_lt he] using And.intro h0 h1
  · intro i q _ hq
    show Rep (e / 2 ^ i) (ladder mul e.testBit i q).1 ∧
      Rep (e / 2 ^ i + 1) (ladder mul e.testBit i q).2
    rw [div_two_pow_eq e i, ladder]
    generalize e / 2 ^ (i + 1) = k at hq ⊢
    obtain ⟨hk, hk1⟩ := hq
    by_cases hb : e.testBit i
    · simp only [hb, if_true]
      refine ⟨?_, ?_⟩
      · have h := hmul hk1 hk
        rwa [show k + 1 + k = 2 * k + 1 from by omega] at h
      · have h := hmul hk1 hk1
        rwa [show k + 1 + (k + 1) = 2 * k + 1 + 1 from by omega] at h
    · simp only [hb]
      refine ⟨?_, ?_⟩
      · have h := hmul hk hk
        rwa [← two_mul] at h
      · have h := hmul hk hk1
        rwa [show k + (k + 1) = 2 * k + 1 from by omega] at h

end PowerLoop
