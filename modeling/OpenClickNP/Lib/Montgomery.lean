import Mathlib.Data.Nat.Digits.Lemmas
import Mathlib.Data.Int.GCD
import Mathlib.Tactic.LinearCombination
import Mathlib.Tactic.Linarith
import Mathlib.Tactic.Ring

/-!
# Montgomery arithmetic over the natural numbers

Interleaved (operand-scanning) Montgomery multiplication in an arbitrary base `B`, one
digit of the first factor a turn. Everything is stated on numbers; a word-level
implementation refines `step` turn by turn.

* `product_spec`: after the digits `as` have been scanned, `B ^ |as| * t = as * b + M * n`;
* `step_lt`: the accumulator stays below `b + n`, whatever the digits are;
* `mul_spec`: the reduced result lies below `n` and is `as * b * B ^ (-|as|)` modulo `n`;
* `Form`: the Montgomery form of a number, closed under the multiplication;
* `hensel_step`: the quadratic lift of an inverse, in any commutative ring;
* `double_spec`: doubling modulo `n` by two conditional subtractions.
-/

namespace Montgomery

/-! ## One turn -/

/-- One turn on the digit `a`: add `a * b`, make the sum divisible by `B` with a multiple of
`n`, and drop the lowest digit. `n'` is the negated inverse of `n` modulo `B`. -/
def step (B n n' b t a : Nat) : Nat :=
  (t + a * b + (t + a * b) % B * n' % B * n) / B

theorem dvd_add_mul {B n n' : Nat} (hn' : B ∣ n * n' + 1) (u : Nat) :
    B ∣ u + u % B * n' % B * n := by
  have hm : u % B * n' % B ≡ u * n' [MOD B] :=
    (Nat.mod_modEq _ _).trans ((Nat.mod_modEq u B).mul_right n')
  have hsum : u + u % B * n' % B * n ≡ u * (n * n' + 1) [MOD B] := by
    calc u + u % B * n' % B * n ≡ u + u * n' * n [MOD B] := (hm.mul_right n).add_left u
      _ = u * (n * n' + 1) := by ring
  exact (hsum.dvd_iff dvd_rfl).mpr (Dvd.dvd.mul_left hn' u)

theorem mul_step {B n n' : Nat} (hn' : B ∣ n * n' + 1) (b t a : Nat) :
    B * step B n n' b t a = t + a * b + (t + a * b) % B * n' % B * n :=
  Nat.mul_div_cancel' (dvd_add_mul hn' (t + a * b))

theorem step_lt {B n n' b t a : Nat} (hB : 0 < B) (hn' : B ∣ n * n' + 1) (ha : a < B)
    (ht : t < b + n) : step B n n' b t a < b + n := by
  have hm : (t + a * b) % B * n' % B < B := Nat.mod_lt _ hB
  have hstep := mul_step hn' b t a
  generalize (t + a * b) % B * n' % B = m at hm hstep
  have hab : a * b + b ≤ B * b := by nlinarith
  have hmn : m * n + n ≤ B * n := by nlinarith
  have hlt : B * step B n n' b t a < B * (b + n) := by
    rw [hstep, Nat.mul_add]
    omega
  exact Nat.lt_of_mul_lt_mul_left hlt

/-! ## The whole scan -/

def product (B n n' b : Nat) (as : List Nat) (t : Nat) : Nat :=
  as.foldl (step B n n' b) t

@[simp] theorem product_nil (B n n' b t : Nat) : product B n n' b [] t = t := rfl

@[simp] theorem product_cons (B n n' b a : Nat) (as : List Nat) (t : Nat) :
    product B n n' b (a :: as) t = product B n n' b as (step B n n' b t a) := rfl

/-- Scanning `as` adds `as * b` and a multiple of `n` that is smaller than `B ^ |as|`.
Induction on the digits. -/
theorem product_spec {B n n' : Nat} (hB : 0 < B) (hn' : B ∣ n * n' + 1) (b : Nat) :
    ∀ (as : List Nat) (t : Nat), ∃ M, M < B ^ as.length ∧
      B ^ as.length * product B n n' b as t = t + Nat.ofDigits B as * b + M * n
  | [], t => ⟨0, by simp, by simp [Nat.ofDigits_nil]⟩
  | a :: as, t => by
      obtain ⟨M, hM, hval⟩ := product_spec hB hn' b as (step B n n' b t a)
      have hstep := mul_step hn' b t a
      have hm : (t + a * b) % B * n' % B < B := Nat.mod_lt _ hB
      generalize (t + a * b) % B * n' % B = m at hstep hm
      refine ⟨m + B * M, ?_, ?_⟩
      · rw [List.length_cons, pow_succ']
        calc m + B * M < B + B * M := by omega
          _ = B * (M + 1) := by ring
          _ ≤ B * B ^ as.length := Nat.mul_le_mul_left B hM
      · rw [List.length_cons, pow_succ', product_cons, Nat.ofDigits_cons]
        linear_combination B * hval + hstep

theorem product_lt {B n n' b : Nat} (hB : 0 < B) (hn' : B ∣ n * n' + 1) :
    ∀ (as : List Nat) (t : Nat), (∀ a ∈ as, a < B) → t < b + n →
      product B n n' b as t < b + n
  | [], _, _, ht => ht
  | a :: as, t, has, ht => by
      have hstep : step B n n' b t a < b + n := step_lt hB hn' (has a List.mem_cons_self) ht
      exact product_lt hB hn' as _ (fun x hx => has x (List.mem_cons_of_mem a hx)) hstep

/-! ## The final subtraction -/

def reduce (n t : Nat) : Nat := if n ≤ t then t - n else t

theorem reduce_lt {n t : Nat} (ht : t < 2 * n) : reduce n t < n := by
  unfold reduce
  split <;> omega

theorem reduce_modEq (n t : Nat) : reduce n t ≡ t [MOD n] := by
  unfold reduce
  split
  · next h => exact ((Nat.modEq_iff_dvd' (Nat.sub_le t n)).mpr ⟨1, by omega⟩)
  · exact Nat.ModEq.refl t

theorem product_lt_two_mul {B n n' b : Nat} (hB : 0 < B) (hn' : B ∣ n * n' + 1)
    (as : List Nat) (hab : Nat.ofDigits B as * b < B ^ as.length * n) :
    product B n n' b as 0 < 2 * n := by
  obtain ⟨M, hM, hval⟩ := product_spec hB hn' b as 0
  have hMn : M * n ≤ B ^ as.length * n := Nat.mul_le_mul_right n hM.le
  have hlt : B ^ as.length * product B n n' b as 0 < B ^ as.length * (2 * n) := by
    rw [hval, show B ^ as.length * (2 * n) = B ^ as.length * n + B ^ as.length * n by ring]
    omega
  exact Nat.lt_of_mul_lt_mul_left hlt

/-- **Montgomery multiplication.** The reduced accumulator lies below `n` and, multiplied by
`B ^ |as|`, is the product modulo `n`. -/
theorem mul_spec {B n n' b : Nat} (hB : 0 < B) (hn' : B ∣ n * n' + 1) (as : List Nat)
    (hab : Nat.ofDigits B as * b < B ^ as.length * n) :
    reduce n (product B n n' b as 0) < n ∧
      reduce n (product B n n' b as 0) * B ^ as.length ≡ Nat.ofDigits B as * b [MOD n] := by
  refine ⟨reduce_lt (product_lt_two_mul hB hn' as hab), ?_⟩
  obtain ⟨M, _, hval⟩ := product_spec hB hn' b as 0
  calc reduce n (product B n n' b as 0) * B ^ as.length
      ≡ product B n n' b as 0 * B ^ as.length [MOD n] :=
        (reduce_modEq n _).mul_right _
    _ = Nat.ofDigits B as * b + M * n := by rw [mul_comm, hval]; ring
    _ ≡ Nat.ofDigits B as * b [MOD n] := by
        simp [Nat.ModEq]

/-! ## Montgomery form -/

/-- `r` is the reduced Montgomery form of `v` for the radix `R`. -/
def Form (n R v r : Nat) : Prop := r < n ∧ r ≡ v * R [MOD n]

theorem Form.mul {n R v w r s p : Nat} (hR : Nat.Coprime n R) (hr : Form n R v r)
    (hs : Form n R w s) (hp : p < n) (hpR : p * R ≡ r * s [MOD n]) :
    Form n R (v * w) p := by
  refine ⟨hp, Nat.ModEq.cancel_right_of_coprime hR ?_⟩
  calc p * R ≡ r * s [MOD n] := hpR
    _ ≡ v * R * (w * R) [MOD n] := hr.2.mul hs.2
    _ = v * w * R * R := by ring

theorem Form.enter {n R v r2 p : Nat} (hR : Nat.Coprime n R) (hr2 : r2 ≡ R * R [MOD n])
    (hp : p < n) (hpR : p * R ≡ v * r2 [MOD n]) : Form n R v p := by
  refine ⟨hp, Nat.ModEq.cancel_right_of_coprime hR ?_⟩
  calc p * R ≡ v * r2 [MOD n] := hpR
    _ ≡ v * (R * R) [MOD n] := hr2.mul_left v
    _ = v * R * R := by ring

theorem Form.leave {n R v r p : Nat} (hR : Nat.Coprime n R) (hr : Form n R v r)
    (hp : p < n) (hpR : p * R ≡ r * 1 [MOD n]) : p = v % n := by
  have hmod : p ≡ v [MOD n] := by
    refine Nat.ModEq.cancel_right_of_coprime hR ?_
    calc p * R ≡ r * 1 [MOD n] := hpR
      _ = r := mul_one r
      _ ≡ v * R [MOD n] := hr.2
  calc p = p % n := (Nat.mod_eq_of_lt hp).symm
    _ = v % n := hmod

theorem Form.one {n R r : Nat} (hr : r < n) (hrR : r ≡ R [MOD n]) : Form n R 1 r :=
  ⟨hr, by simpa using hrR⟩

/-! ## Inverses by Hensel lifting -/

/-- One Newton step squares the error of an approximate inverse. -/
theorem hensel_step {R : Type*} [CommRing R] {a x d : R} (h : d ∣ 1 - a * x) :
    d ^ 2 ∣ 1 - a * (x * (2 - a * x)) := by
  have hsq : 1 - a * (x * (2 - a * x)) = (1 - a * x) ^ 2 := by ring
  rw [hsq]
  exact pow_dvd_pow_of_dvd h 2

/-! ## Doubling -/

def double (n x : Nat) : Nat := reduce n (reduce n (2 * x))

/-- From any `x ≤ n` the double is reduced; `x = n` happens only at `n = 1`, where the
start value `1` is not below the modulus. -/
theorem double_spec {n x : Nat} (hn : 0 < n) (hx : x ≤ n) :
    double n x < n ∧ double n x ≡ 2 * x [MOD n] := by
  constructor
  · unfold double reduce
    split_ifs <;> omega
  · exact (reduce_modEq n _).trans (reduce_modEq n _)

end Montgomery
