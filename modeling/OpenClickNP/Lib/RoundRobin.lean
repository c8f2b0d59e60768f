import Mathlib.Data.Finset.Max
import Mathlib.Data.Fintype.Basic

/-!
# Round-robin arbitration

`n` parties ask, and a pointer names the party that was served last. `rank r i` is the place of
`i` in the rotation that begins behind `r`; the party whose turn it is (`IsNext`) is the one of
lowest rank among those that ask.

Each service brings every party that keeps asking nearer, so nobody is served twice while another
waits (`served_between`).
-/

namespace RoundRobin

variable {n : Nat}

/-- The place of `i` in the rotation behind `r`. -/
def rank (r i : Fin n) : Nat := if r.val < i.val then i.val - r.val - 1 else n + i.val - r.val - 1

/-- The party at a place of the rotation. -/
def partyAt (r : Fin n) (j : Nat) : Fin n := ⟨(r.val + 1 + j) % n, Nat.mod_lt _ r.pos⟩

theorem rank_lt (r i : Fin n) : rank r i < n := by
  unfold rank
  split <;> omega

theorem mod_of_lt_two_mul {a : Nat} (h : a < 2 * n) : a % n = if a < n then a else a - n := by
  split
  · rename_i hlt
    exact Nat.mod_eq_of_lt hlt
  · rename_i hge
    rw [Nat.mod_eq_sub_mod (by omega), Nat.mod_eq_of_lt (by omega)]

@[simp] theorem partyAt_rank (r i : Fin n) : partyAt r (rank r i) = i := by
  have hlt := rank_lt r i
  apply Fin.ext
  show (r.val + 1 + rank r i) % n = i.val
  rw [mod_of_lt_two_mul (by omega)]
  unfold rank
  split <;> split <;> omega

theorem rank_partyAt (r : Fin n) {j : Nat} (hj : j < n) : rank r (partyAt r j) = j := by
  have hval : (partyAt r j).val = (r.val + 1 + j) % n := rfl
  rw [mod_of_lt_two_mul (by omega)] at hval
  unfold rank
  split at hval <;> split <;> omega

theorem rank_injective (r : Fin n) {i i' : Fin n} (h : rank r i = rank r i') : i = i' := by
  rw [← partyAt_rank r i, h, partyAt_rank]

/-- The party that the pointer names comes last. -/
theorem rank_self (r : Fin n) : rank r r = n - 1 := by
  rw [rank, if_neg (Nat.lt_irrefl _)]
  omega

/-- With the pointer moved to `g`, the rotation begins behind `g`. -/
theorem rank_of_moved {r g i : Fin n} (h : rank r g < rank r i) :
    rank g i = rank r i - rank r g - 1 := by
  unfold rank at h ⊢
  split_ifs at h ⊢ <;> omega

/-! ## The party whose turn it is -/

/-- `g` asks, and no party that asks comes before it. -/
def IsNext (r : Fin n) (asks : Fin n → Bool) (g : Fin n) : Prop :=
  asks g = true ∧ ∀ i, asks i = true → rank r g ≤ rank r i

theorem IsNext.unique {r : Fin n} {asks : Fin n → Bool} {g g' : Fin n} (h : IsNext r asks g)
    (h' : IsNext r asks g') : g = g' :=
  rank_injective r (Nat.le_antisymm (h.2 g' h'.1) (h'.2 g h.1))

/-- Somebody is next as soon as somebody asks. -/
theorem exists_isNext (r : Fin n) {asks : Fin n → Bool} (h : ∃ i, asks i = true) :
    ∃ g, IsNext r asks g := by
  obtain ⟨i, hi⟩ := h
  obtain ⟨g, hg, hmin⟩ := Finset.exists_min_image (Finset.univ.filter fun i => asks i = true)
    (rank r) ⟨i, Finset.mem_filter.mpr ⟨Finset.mem_univ i, hi⟩⟩
  exact ⟨g, (Finset.mem_filter.mp hg).2,
    fun i hi => hmin i (Finset.mem_filter.mpr ⟨Finset.mem_univ i, hi⟩)⟩

/-! ## Fairness -/

/-- One step of an arbiter: only the next party is served, and the pointer moves to it. -/
structure Step (r : Fin n) (asks : Fin n → Bool) (served : Fin n → Prop) (r' : Fin n) : Prop where
  isNext : ∀ g, served g → IsNext r asks g
  moved : ∀ g, served g → r' = g
  kept : (∀ g, ¬ served g) → r' = r

section

variable {r : ℕ → Fin n} {asks : ℕ → Fin n → Bool} {served : ℕ → Fin n → Prop} {t₁ t₂ : ℕ}
  {a b : Fin n}

/-- After a service of `a`, a party that keeps asking and is not served stays before `a`.
Induction on the time since then. -/
theorem rank_lt_rank_of_waiting
    (hstep : ∀ t, t₁ ≤ t → t < t₂ → Step (r t) (asks t) (served t) (r (t + 1)))
    (ha : served t₁ a) (hne : b ≠ a)
    (hasks : ∀ t, t₁ < t → t < t₂ → asks t b = true)
    (hwaits : ∀ t, t₁ < t → t < t₂ → ¬ served t b) :
    ∀ t, t₁ < t → t ≤ t₂ → rank (r t) b < rank (r t) a := by
  intro t ht htle
  induction t, ht using Nat.le_induction with
  | base =>
    -- the pointer is at `a`, which makes it the last in the rotation
    have hlt := rank_lt a b
    have hself := rank_self a
    have hdiff : rank a b ≠ rank a a := fun heq => hne (rank_injective a heq)
    rw [(hstep t₁ le_rfl htle).moved a ha]
    omega
  | succ t ht ih =>
    have hbefore := ih (by omega)
    have h := hstep t (by omega) (by omega)
    by_cases hserved : ∃ g, served t g
    · obtain ⟨g, hg⟩ := hserved
      -- the party served comes before `b`, and the two behind it keep their order
      have hgb : rank (r t) g < rank (r t) b := by
        refine Nat.lt_of_le_of_ne ((h.isNext g hg).2 b (hasks t ht (by omega))) fun heq => ?_
        exact hwaits t ht (by omega) (rank_injective _ heq ▸ hg)
      rw [h.moved g hg, rank_of_moved hgb, rank_of_moved (hgb.trans hbefore)]
      omega
    · rwa [h.kept fun g hg => hserved ⟨g, hg⟩]

/-- **Fairness.** Between two services of a party, everybody who asks all the time is served. -/
theorem served_between
    (hstep : ∀ t, t₁ ≤ t → t < t₂ → Step (r t) (asks t) (served t) (r (t + 1)))
    (hlt : t₁ < t₂) (ha : served t₁ a) (hnext : IsNext (r t₂) (asks t₂) a) (hne : b ≠ a)
    (hasks : ∀ t, t₁ < t → t ≤ t₂ → asks t b = true) :
    ∃ t, t₁ < t ∧ t < t₂ ∧ served t b := by
  by_contra hnever
  have hwaits : ∀ t, t₁ < t → t < t₂ → ¬ served t b :=
    fun t h₁ h₂ h => hnever ⟨t, h₁, h₂, h⟩
  have hbefore := rank_lt_rank_of_waiting hstep ha hne
    (fun t h₁ h₂ => hasks t h₁ (Nat.le_of_lt h₂)) hwaits t₂ hlt le_rfl
  -- but `a` is the next party while `b` asks
  have hle := hnext.2 b (hasks t₂ hlt le_rfl)
  omega

end

end RoundRobin
