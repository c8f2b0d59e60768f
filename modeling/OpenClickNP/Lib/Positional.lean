import Mathlib.Data.Nat.Digits.Lemmas
import Mathlib.Tactic.Ring
import Mathlib.Tactic.LinearCombination

/-!
# Positional arithmetic with carries

Digit strings are least significant first, and their value is Mathlib's `Nat.ofDigits`.
`carryLoop` is the one loop shape of multi-digit arithmetic: a pass over the digits that
writes a digit and hands a carry (or a borrow) on. What a single turn conserves, the whole
pass conserves (`carryLoop_value`); addition, subtraction, shifts and multiply-add rows are
instances.
-/

namespace Positional

variable {α β γ : Type*}

/-- One pass over `xs`, least significant first: `body x c` gives the digit written for `x`
and the carry for the next position. -/
def carryLoop (body : α → γ → β × γ) : List α → γ → List β × γ
  | [], c => ([], c)
  | x :: xs, c =>
    ((body x c).1 :: (carryLoop body xs (body x c).2).1, (carryLoop body xs (body x c).2).2)

@[simp] theorem carryLoop_nil (body : α → γ → β × γ) (c : γ) : carryLoop body [] c = ([], c) := rfl

@[simp] theorem carryLoop_cons (body : α → γ → β × γ) (x : α) (xs : List α) (c : γ) :
    carryLoop body (x :: xs) c
      = ((body x c).1 :: (carryLoop body xs (body x c).2).1,
          (carryLoop body xs (body x c).2).2) := rfl

@[simp] theorem length_carryLoop (body : α → γ → β × γ) (xs : List α) (c : γ) :
    (carryLoop body xs c).1.length = xs.length := by
  induction xs generalizing c with
  | nil => rfl
  | cons x xs ih => simp [ih]

theorem carryLoop_carry (body : α → γ → β × γ) (Inv : γ → Prop) (xs : List α)
    (hbody : ∀ x ∈ xs, ∀ c, Inv c → Inv (body x c).2) (c : γ) (hc : Inv c) :
    Inv (carryLoop body xs c).2 := by
  induction xs generalizing c with
  | nil => exact hc
  | cons x xs ih =>
    exact ih (fun y hy => hbody y (List.mem_cons_of_mem x hy)) _
      (hbody x List.mem_cons_self c hc)

/-- **Conservation of value along a pass.** `carry c` is what a position owes to the next
one, `borrow c` what it has taken from it, `minus x` and `plus x` what the turn at `x`
subtracts and adds. If each turn conserves value, so does the pass. Induction on the
digits; the carry is general. -/
theorem carryLoop_value (body : α → γ → β × γ) (B : Nat) (digit : β → Nat)
    (carry borrow : γ → Nat) (plus minus : α → Nat) (Inv : γ → Prop)
    (hbody : ∀ x c, Inv c →
      digit (body x c).1 + minus x + borrow c + B * carry (body x c).2
          = plus x + carry c + B * borrow (body x c).2
        ∧ Inv (body x c).2)
    (xs : List α) (c : γ) (hc : Inv c) :
    Nat.ofDigits B ((carryLoop body xs c).1.map digit) + Nat.ofDigits B (xs.map minus)
        + borrow c + B ^ xs.length * carry (carryLoop body xs c).2
      = Nat.ofDigits B (xs.map plus) + carry c
        + B ^ xs.length * borrow (carryLoop body xs c).2 := by
  induction xs generalizing c with
  | nil => simp [Nat.ofDigits_nil]; omega
  | cons x xs ih =>
    obtain ⟨hx, hinv⟩ := hbody x c hc
    have hxs := ih (body x c).2 hinv
    simp only [carryLoop_cons, List.map_cons, List.length_cons, Nat.ofDigits_cons, pow_succ]
    generalize hc' : (body x c).2 = c' at hx hxs ⊢
    generalize (carryLoop body xs c').2 = c'' at hxs ⊢
    generalize Nat.ofDigits B (List.map digit (carryLoop body xs c').1) = w at hxs ⊢
    linear_combination hx + B * hxs

theorem ofDigits_zip_linear (B k : Nat) (f : α → Nat) (g : β → Nat) :
    ∀ (as : List α) (bs : List β), as.length = bs.length →
      Nat.ofDigits B ((as.zip bs).map fun p => k * f p.1 + g p.2)
        = k * Nat.ofDigits B (as.map f) + Nat.ofDigits B (bs.map g)
  | [], [], _ => by simp [Nat.ofDigits_nil]
  | a :: as, b :: bs, h => by
      have ih := ofDigits_zip_linear B k f g as bs (by simpa using h)
      simp only [List.zip_cons_cons, List.map_cons, Nat.ofDigits_cons, ih]
      ring

theorem map_zip_fst (f : α → Nat) (as : List α) (bs : List β) (h : as.length = bs.length) :
    (as.zip bs).map (fun p => f p.1) = as.map f := by
  rw [show (fun p : α × β => f p.1) = f ∘ Prod.fst from rfl, ← List.map_map,
    List.map_fst_zip (by omega)]

theorem map_zip_snd (g : β → Nat) (as : List α) (bs : List β) (h : as.length = bs.length) :
    (as.zip bs).map (fun p => g p.2) = bs.map g := by
  rw [show (fun p : α × β => g p.2) = g ∘ Prod.snd from rfl, ← List.map_map,
    List.map_snd_zip (by omega)]

/-- Digit `i` of a number, read back from its value. Induction on the digits. -/
theorem getD_eq_div_mod {B : Nat} (hB : 0 < B) :
    ∀ (ds : List Nat), (∀ d ∈ ds, d < B) → ∀ i : Nat,
      ds.getD i 0 = Nat.ofDigits B ds / B ^ i % B
  | [], _, i => by simp [Nat.ofDigits_nil]
  | d :: ds, h, 0 => by
      have hd : d < B := h d List.mem_cons_self
      simp [Nat.ofDigits_cons, Nat.mod_eq_of_lt hd]
  | d :: ds, h, i + 1 => by
      have hd : d < B := h d List.mem_cons_self
      have ih := getD_eq_div_mod hB ds (fun x hx => h x (List.mem_cons_of_mem d hx)) i
      rw [List.getD_cons_succ, ih, Nat.ofDigits_cons, pow_succ', ← Nat.div_div_eq_div_mul,
        Nat.add_mul_div_left _ _ hB, Nat.div_eq_of_lt hd, Nat.zero_add]

/-- The most significant digits decide a comparison: with equal high parts the low digit
does, with unequal high parts it does not matter. -/
theorem ofDigits_cons_lt_cons {B d e : Nat} {ds es : List Nat} (hd : d < B)
    (h : Nat.ofDigits B ds < Nat.ofDigits B es) :
    Nat.ofDigits B (d :: ds) < Nat.ofDigits B (e :: es) := by
  simp only [Nat.ofDigits_cons]
  have hstep : B * Nat.ofDigits B ds + B ≤ B * Nat.ofDigits B es := by
    calc B * Nat.ofDigits B ds + B = B * (Nat.ofDigits B ds + 1) := by ring
      _ ≤ B * Nat.ofDigits B es := Nat.mul_le_mul_left B h
  omega

end Positional
