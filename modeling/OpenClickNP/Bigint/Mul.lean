import OpenClickNP.Bigint.MontMul

/-!
# `bigint.hpp`: `mul`

The schoolbook product in `2N` limbs, one row for each limb of `a`. A row adds its multiple of
`b` to a window of `N` limbs and writes the carry above the window, where the array is still
zero; the lowest limb of the window is final (`limbsVal_rows`). The rows are stated for any
function that writes such a row.
-/

namespace OpenClickNP.Bigint

open Positional

variable {N : Nat}

/-! ## Rows -/

/-- The rows for the limbs `ks`, the first of them at position `i`. -/
def rows (row : UInt64 → Nat → List UInt64 → List UInt64) :
    List UInt64 → Nat → List UInt64 → List UInt64
  | [], _, out => out
  | k :: ks, i, out => rows row ks (i + 1) (row k i out)

/-- Where the limb above the window `mid` is zero, a row rewrites the window and puts its carry
in place of the zero. -/
def WritesRow (q : List UInt64) (row : UInt64 → Nat → List UInt64 → List UInt64) : Prop :=
  ∀ (k : UInt64) (pre mid rest : List UInt64), mid.length = q.length →
    row k pre.length (pre ++ mid ++ 0 :: rest)
      = pre ++ (carryLoop (mulAddTurn k) (q.zip mid) 0).1
          ++ (carryLoop (mulAddTurn k) (q.zip mid) 0).2 :: rest

section
variable {row : UInt64 → Nat → List UInt64 → List UInt64}

theorem length_rows (hlen : ∀ k i out, (row k i out).length = out.length) :
    ∀ (ks : List UInt64) (i : Nat) (out : List UInt64), (rows row ks i out).length = out.length
  | [], _, _ => rfl
  | k :: ks, i, out => by rw [rows, length_rows hlen ks, hlen]

/-- **The rows add up to the product.** Induction on the limbs still to multiply; above the
window of the current row the array is still zero. -/
theorem limbsVal_rows {q : List UInt64} (hq : q ≠ []) (hrow : WritesRow q row) :
    ∀ (ks pre mid : List UInt64), mid.length = q.length →
      limbsVal (rows row ks pre.length (pre ++ mid ++ List.replicate ks.length 0))
        = limbsVal (pre ++ mid) + (2 ^ 64) ^ pre.length * (limbsVal ks * limbsVal q)
  | [], pre, mid, _ => by simp [rows]
  | k :: ks, pre, mid, hmid => by
      have hvalue := mulAdd_row k q mid hmid.symm
      have hlen : (carryLoop (mulAddTurn k) (q.zip mid) 0).1.length = mid.length := by
        simp [hmid]
      have heq := hrow k pre mid (List.replicate ks.length 0) hmid
      generalize carryLoop (mulAddTurn k) (q.zip mid) 0 = r at hvalue hlen heq
      obtain ⟨digits, carry⟩ := r
      simp only at hvalue hlen heq
      -- the lowest digit of the row is final, the others and the carry are the next window
      obtain ⟨d, ds, rfl⟩ : ∃ d ds, digits = d :: ds := by
        cases digits with
        | nil =>
          have : q.length = 0 := by rw [← hmid, ← hlen]; rfl
          exact absurd (List.eq_nil_of_length_eq_zero this) hq
        | cons d ds => exact ⟨d, ds, rfl⟩
      have hwin : (ds ++ [carry]).length = q.length := by
        simp only [List.length_cons] at hlen
        simp [← hmid, ← hlen]
      have hrest := limbsVal_rows hq hrow ks (pre ++ [d]) (ds ++ [carry]) hwin
      have hnext : rows row (k :: ks) pre.length (pre ++ mid ++ List.replicate (k :: ks).length 0)
          = rows row ks (pre ++ [d]).length
              (pre ++ [d] ++ (ds ++ [carry]) ++ List.replicate ks.length 0) := by
        rw [List.length_cons, List.replicate_succ, rows, heq]
        simp
      have hsplit : limbsVal (pre ++ [d] ++ (ds ++ [carry]))
          = limbsVal pre + (2 ^ 64) ^ pre.length
            * (limbsVal (d :: ds) + (2 ^ 64) ^ mid.length * carry.toNat) := by
        rw [show pre ++ [d] ++ (ds ++ [carry]) = pre ++ ((d :: ds) ++ [carry]) by simp,
          limbsVal_append, limbsVal_append, hlen, limbsVal_cons carry, limbsVal_nil]
        ring
      rw [hnext, hrest, hsplit, hvalue, limbsVal_append, limbsVal_cons k, List.length_append,
        List.length_singleton, pow_succ]
      ring

/-- From an array of zeros the rows spell the product. -/
theorem limbsVal_rows_zeros {p q : List UInt64} (hpq : p.length = q.length)
    (hrow : WritesRow q row) :
    limbsVal (rows row p 0 (List.replicate (2 * q.length) 0)) = limbsVal p * limbsVal q := by
  rcases eq_or_ne q [] with rfl | hq
  · have hp : p = [] := List.eq_nil_of_length_eq_zero hpq
    rw [hp]
    rfl
  · have hrows := limbsVal_rows hq hrow p [] (List.replicate q.length 0) List.length_replicate
    rw [List.nil_append, ← List.replicate_add, hpq, ← two_mul, limbsVal_replicate_zero] at hrows
    rw [show (0 : Nat) = ([] : List UInt64).length from rfl, hrows]
    simp

end

/-! ## `mul` -/

/-- The inner loop for the limb `k` of `a` at position `i`, and `out.limbs[i + N] = carry;`. -/
def mulPass (b : List UInt64) (k : UInt64) (i : Nat) (out : List UInt64) : List UInt64 :=
  let r := carryLoop (mulAddTurn k) (b.zip (out.drop i)) 0
  (out.take i ++ r.1 ++ out.drop (i + r.1.length)).set (i + b.length) r.2

theorem length_mulPass (b : List UInt64) (k : UInt64) (i : Nat) (out : List UInt64) :
    (mulPass b k i out).length = out.length := by
  have hr := length_carryLoop (mulAddTurn k) (b.zip (out.drop i)) 0
  rw [List.length_zip, List.length_drop] at hr
  simp only [mulPass, List.length_set, List.length_append, List.length_take, List.length_drop, hr]
  omega

theorem length_mulPasses (a b : U N) :
    (rows (mulPass b.limbs) a.limbs 0 (List.replicate (2 * N) 0)).length = 2 * N := by
  rw [length_rows (length_mulPass b.limbs), List.length_replicate]

/-- `mul(out, a, b)`. -/
def mul (a b : U N) : U (2 * N) :=
  ⟨rows (mulPass b.limbs) a.limbs 0 (List.replicate (2 * N) 0), length_mulPasses a b⟩

/-- A row reads its window, and what it leaves of the array around it. -/
theorem window_parts (q pre mid rest : List UInt64) (hmid : mid.length = q.length) :
    (pre ++ mid ++ rest).take pre.length = pre ∧
      q.zip ((pre ++ mid ++ rest).drop pre.length) = q.zip mid ∧
        (pre ++ mid ++ rest).drop (pre.length + q.length) = rest := by
  have hzip := @List.zip_append _ _ q [] mid rest hmid.symm
  refine ⟨by simp, ?_, by simp [← hmid]⟩
  rw [List.append_assoc, List.drop_left]
  simpa using hzip

theorem writesRow_mulPass (b : List UInt64) : WritesRow b (mulPass b) := by
  intro k pre mid rest hmid
  obtain ⟨htake, hzip, hdrop⟩ := window_parts b pre mid (0 :: rest) hmid
  have hlen : (carryLoop (mulAddTurn k) (b.zip mid) 0).1.length = b.length := by simp [hmid]
  simp only [mulPass, htake, hzip]
  generalize carryLoop (mulAddTurn k) (b.zip mid) 0 = r at hlen
  rw [hlen, hdrop]
  simp [← hlen]

theorem toNat_mul (a b : U N) : (mul a b).toNat = a.toNat * b.toNat := by
  have hrows := limbsVal_rows_zeros (p := a.limbs) (q := b.limbs) (by simp)
    (writesRow_mulPass b.limbs)
  rw [b.length_limbs] at hrows
  exact hrows

/-! ## The arithmetic over the limbs -/

theorem cmp_eq_sign (a b : U N) : cmp a b = Int.sign ((a.toNat : Int) - b.toNat) := by
  rcases cmp_spec a b with ⟨h, hc⟩ | ⟨h, hc⟩ | ⟨h, hc⟩
  · rw [hc, Int.sign_eq_neg_one_of_neg (by omega)]
  · rw [hc, h, sub_self, Int.sign_zero]
  · rw [hc, Int.sign_eq_one_of_pos (by omega)]

/-- **`add`, `sub`, `cmp` and `mul` are exact**: the sum with its carry, the difference with its
borrow, the sign of the difference, the product in `2N` limbs. -/
theorem arith_exact (a b : U N) :
    (add a b).1.toNat + (add a b).2.toNat * 2 ^ (64 * N) = a.toNat + b.toNat ∧
      ((sub a b).1.toNat : Int) - (sub a b).2.toNat * 2 ^ (64 * N) = a.toNat - b.toNat ∧
        cmp a b = Int.sign ((a.toNat : Int) - b.toNat) ∧
          (mul a b).toNat = a.toNat * b.toNat := by
  refine ⟨?_, ?_, cmp_eq_sign a b, toNat_mul a b⟩
  · rw [Nat.mul_comm]
    exact (add_spec a b).1
  · have hsub := (sub_spec a b).1
    have hcast : ((sub a b).1.toNat : Int) + b.toNat
        = a.toNat + 2 ^ (64 * N) * ((sub a b).2.toNat : Int) := by exact_mod_cast hsub
    linarith

end OpenClickNP.Bigint
