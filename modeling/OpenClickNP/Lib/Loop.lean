import Mathlib.Logic.Function.Iterate
import Mathlib.Tactic.Common

/-!
# Counted loops and their invariant rules

`for` loops over a counter as structural recursions, each with the rule that carries an
invariant from the first to the last turn: `forDown` counts `n - 1, …, 0`, `forUp` repeats
a body that does not read its counter.
-/

namespace Loop

variable {α : Type*}

/-- `for (i = n - 1; i >= 0; --i) s = body(i, s);` -/
def forDown (body : Nat → α → α) : Nat → α → α
  | 0, s => s
  | i + 1, s => forDown body i (body i s)

@[simp] theorem forDown_zero (body : Nat → α → α) (s : α) : forDown body 0 s = s := rfl

@[simp] theorem forDown_succ (body : Nat → α → α) (i : Nat) (s : α) :
    forDown body (i + 1) s = forDown body i (body i s) := rfl

/-- **The invariant rule of a down-counting loop.** `Inv (i + 1)` holds before the turn that
reads `i`, `Inv i` after it. Induction on the counter. -/
theorem forDown_inv (body : Nat → α → α) (Inv : Nat → α → Prop) :
    ∀ (n : Nat) (s : α), Inv n s → (∀ i s, i < n → Inv (i + 1) s → Inv i (body i s)) →
      Inv 0 (forDown body n s)
  | 0, _, h0, _ => h0
  | n + 1, s, h0, hstep => by
      have hfirst : Inv n (body n s) := hstep n s (Nat.lt_succ_self n) h0
      exact forDown_inv body Inv n (body n s) hfirst
        (fun i s hi => hstep i s (Nat.lt_succ_of_lt hi))

theorem forDown_congr (body body' : Nat → α → α) :
    ∀ (n : Nat) (s : α), (∀ i s, i < n → body i s = body' i s) →
      forDown body n s = forDown body' n s
  | 0, _, _ => rfl
  | n + 1, s, h => by
      rw [forDown_succ, forDown_succ, h n s (Nat.lt_succ_self n)]
      exact forDown_congr body body' n _ (fun i s hi => h i s (Nat.lt_succ_of_lt hi))

/-- `for (step = 0; step < n; ++step) s = body(s);` -/
def forUp (body : α → α) : Nat → α → α
  | 0, s => s
  | n + 1, s => forUp body n (body s)

/-- **The invariant rule of a repeated body.** `Inv k` holds after `k` turns. Induction on
the number of turns still to run. -/
theorem forUp_inv (body : α → α) (Inv : Nat → α → Prop)
    (hstep : ∀ k s, Inv k s → Inv (k + 1) (body s)) :
    ∀ (n k : Nat) (s : α), Inv k s → Inv (k + n) (forUp body n s)
  | 0, _, _, h => h
  | n + 1, k, s, h => by
      have hrest := forUp_inv body Inv hstep n (k + 1) (body s) (hstep k s h)
      rw [show k + (n + 1) = k + 1 + n from by omega]
      exact hrest

end Loop
