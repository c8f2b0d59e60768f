import Mathlib.Algebra.BigOperators.Group.List.Basic
import Mathlib.Algebra.GroupWithZero.Nat
import Mathlib.Data.List.Induction

/-!
# The Internet checksum

Words of 16 bits are added with end-around carry: what runs over comes back at the low end. Such a
sum is the plain sum modulo 65535, with 65535 in place of 0 unless all words are 0 (`sum_eq_rep`).
So a sum does not tell a word 0 from a word 65535 beside something else (`rep_add_eq_iff`).
-/

namespace InternetChecksum

/-- Addition with end-around carry. -/
def add (a b : ℕ) : ℕ := if a + b < 65536 then a + b else a + b - 65535

def sum (ws : List ℕ) : ℕ := ws.foldl add 0

/-- The words of a byte string, the high byte first; an odd byte at the end is a high byte. -/
def words : List UInt8 → List ℕ
  | [] => []
  | [a] => [256 * a.toNat]
  | a :: b :: rest => (256 * a.toNat + b.toNat) :: words rest

/-- The complement of the sum of the words. -/
def checksum (bytes : List UInt8) : ℕ := 65535 - sum (words bytes)

/-- The word that stands for `n`. -/
def rep (n : ℕ) : ℕ := if n = 0 then 0 else (n - 1) % 65535 + 1

theorem rep_le (n : ℕ) : rep n ≤ 65535 := by
  unfold rep
  split <;> omega

theorem rep_of_lt {n : ℕ} (h : n < 65536) : rep n = n := by
  unfold rep
  split <;> omega

theorem add_rep {w : ℕ} (n : ℕ) (hw : w < 65536) : add (rep n) w = rep (n + w) := by
  unfold add rep
  split <;> split <;> split <;> omega

/-- **The sum with end-around carry**, of words. Induction from the last word. -/
theorem sum_eq_rep {ws : List ℕ} (h : ∀ w ∈ ws, w < 65536) : sum ws = rep ws.sum := by
  induction ws using List.reverseRecOn with
  | nil => rfl
  | append_singleton ws w ih =>
    have hrest := ih fun x hx => h x (List.mem_append_left _ hx)
    rw [sum, List.foldl_append, ← sum, hrest, List.sum_append, List.sum_singleton]
    exact add_rep _ (h w (by simp))

theorem lt_of_mem_words {bytes : List UInt8} {w : ℕ} (h : w ∈ words bytes) : w < 65536 := by
  induction bytes using words.induct with
  | case1 => cases h
  | case2 a =>
    have ha := a.toNat_lt
    rw [List.mem_singleton.mp h]
    omega
  | case3 a b rest ih =>
    have ha := a.toNat_lt
    have hb := b.toNat_lt
    rcases List.mem_cons.mp h with rfl | h
    · omega
    · exact ih h

theorem checksum_eq (bytes : List UInt8) : checksum bytes = 65535 - rep (words bytes).sum := by
  rw [checksum, sum_eq_rep fun _ => lt_of_mem_words]

/-! ## Folding -/

/-- The high half of a sum is added to its low half. -/
def carry (n : ℕ) : ℕ := n % 65536 + n / 65536

theorem rep_carry (n : ℕ) : rep (carry n) = rep n := by
  unfold rep carry
  split <;> split <;> omega

theorem carry_lt {n : ℕ} (h : 65536 ≤ n) : carry n < n := by
  unfold carry
  omega

/-! ## Words that cannot be told apart -/

theorem rep_add_eq_iff {s w w' : ℕ} (hw : w < 65536) (hw' : w' < 65536) :
    rep (s + w) = rep (s + w') ↔
      w = w' ∨ s ≠ 0 ∧ (w = 0 ∧ w' = 65535 ∨ w = 65535 ∧ w' = 0) := by
  unfold rep
  split <;> split <;> omega

end InternetChecksum
