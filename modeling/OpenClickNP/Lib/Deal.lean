import Mathlib.Data.List.Basic
import Mathlib.Data.List.Infix

/-!
# Dealing a sequence round-robin

`deal n j l` is the share of the `j`-th of `n` players when the items of `l` are dealt one after
the other. The shares determine the sequence (`begins_of_shares`).
-/

namespace Deal

variable {α β : Type*}

/-- The items of `l` at the places `j`, `j + n`, `j + 2 * n`, … -/
def deal (n : Nat) : Nat → List α → List α
  | _, [] => []
  | 0, x :: l => x :: deal n (n - 1) l
  | j + 1, _ :: l => deal n j l

/-- **The `k`-th item of a share.** Induction on the sequence. -/
theorem getElem?_deal {n : Nat} (hn : 0 < n) (j k : Nat) (l : List α) :
    (deal n j l)[k]? = l[k * n + j]? := by
  induction l generalizing j k with
  | nil => cases j <;> rfl
  | cons x l ih =>
    cases j with
    | zero =>
      cases k with
      | zero => simp [deal]
      | succ k =>
        rw [deal, List.getElem?_cons_succ, ih,
          show (k + 1) * n + 0 = (k * n + (n - 1)) + 1 by rw [Nat.succ_mul]; omega,
          List.getElem?_cons_succ]
    | succ j => rw [deal, ih, ← Nat.add_assoc, List.getElem?_cons_succ]

theorem add_one_mod {a n : Nat} (hn : 0 < n) :
    (a + 1) % n = if a % n + 1 = n then 0 else a % n + 1 := by
  have hlt := Nat.mod_lt a hn
  have hdiv := Nat.div_add_mod a n
  split
  · rename_i hlast
    rw [show a + 1 = n * (a / n + 1) by rw [Nat.mul_succ]; omega, Nat.mul_mod_right]
  · rename_i hlast
    rw [show a + 1 = n * (a / n) + (a % n + 1) by omega, Nat.mul_add_mod,
      Nat.mod_eq_of_lt (by omega)]

/-- The next item goes to the player whose turn it is. -/
theorem deal_concat {n j : Nat} (hj : j < n) (l : List α) (x : α) :
    deal n j (l ++ [x]) = deal n j l ++ if l.length % n = j then [x] else [] := by
  have hn := Nat.zero_lt_of_lt hj
  induction l generalizing j with
  | nil =>
    cases j with
    | zero => simp [deal]
    | succ j => simp [deal]
  | cons y l ih =>
    have hlt := Nat.mod_lt l.length hn
    cases j with
    | zero =>
      rw [List.cons_append, deal, deal, ih (by omega), List.length_cons, add_one_mod hn]
      by_cases hlast : l.length % n + 1 = n
      · rw [if_pos (by omega), if_pos hlast, if_pos rfl]
        rfl
      · rw [if_neg (by omega), if_neg hlast, if_neg (by omega)]
        rfl
    | succ j =>
      rw [List.cons_append, deal, deal, ih (by omega), List.length_cons, add_one_mod hn]
      by_cases hlast : l.length % n + 1 = n
      · rw [if_pos hlast, if_neg (by omega), if_neg (by omega)]
      · rw [if_neg hlast]
        by_cases hturn : l.length % n = j
        · rw [if_pos hturn, if_pos (by omega)]
        · rw [if_neg hturn, if_neg (by omega)]

/-- The share of a sequence that begins another begins the other's share. -/
theorem deal_begins {n : Nat} (hn : 0 < n) (j : Nat) {l l' : List α} (h : l <+: l') :
    deal n j l <+: deal n j l' := by
  rw [List.prefix_iff_getElem?] at h ⊢
  intro k hk
  have hget := getElem?_deal hn j k l
  rw [List.getElem?_eq_getElem hk] at hget
  obtain ⟨hlt, hitem⟩ := List.getElem?_eq_some_iff.mp hget.symm
  rw [getElem?_deal hn, h _ hlt, hitem]

/-- **The shares determine the sequence.** -/
theorem begins_of_shares {n : Nat} (hn : 0 < n) {l l' : List α}
    (h : ∀ j < n, deal n j l <+: deal n j l') : l <+: l' := by
  rw [List.prefix_iff_getElem?]
  intro i hi
  have hplace : i / n * n + i % n = i := by rw [Nat.mul_comm]; exact Nat.div_add_mod i n
  have hshare := h (i % n) (Nat.mod_lt i hn)
  have hitem : (deal n (i % n) l)[i / n]? = some l[i] := by
    rw [getElem?_deal hn, hplace, List.getElem?_eq_getElem hi]
  obtain ⟨rest, hrest⟩ := hshare
  obtain ⟨hlt, -⟩ := List.getElem?_eq_some_iff.mp hitem
  rw [← hitem, ← hplace, ← getElem?_deal hn, ← hrest, List.getElem?_append_left hlt, hplace]

end Deal
