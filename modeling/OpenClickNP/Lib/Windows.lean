import Mathlib.Data.Int.Basic
import Mathlib.Data.List.Nodup
import Mathlib.Tactic.Linarith

/-!
# Address windows at a fixed stride

`strided base stride n` lists the `n` addresses from `base` on. For a positive stride they are
distinct (`nodup_strided`), and windows of one width at them have no address in common exactly
when the width is at most the stride, two windows given (`pairwise_apart_strided_iff`).
-/

namespace Windows

/-- No address is in both windows of width `w`, the one at `a` and the one at `b`. -/
def Apart (w a b : Int) : Prop := ∀ x, a ≤ x → x < a + w → b ≤ x → x < b + w → False

def strided (base stride : Int) : Nat → List Int
  | 0 => []
  | n + 1 => base :: strided (base + stride) stride n

variable {w a b base stride : Int} {n : Nat}

theorem apart_iff (hpos : 0 < w) : Apart w a b ↔ a + w ≤ b ∨ b + w ≤ a := by
  constructor
  · intro h
    rcases le_total a b with hab | hba
    · exact Or.inl (not_lt.mp fun hlt => h b hab hlt le_rfl (lt_add_of_pos_right b hpos))
    · exact Or.inr (not_lt.mp fun hlt => h a le_rfl (lt_add_of_pos_right a hpos) hba hlt)
  · rintro h x h1 h2 h3 h4
    omega

@[simp] theorem length_strided : (strided base stride n).length = n := by
  induction n generalizing base with
  | zero => rfl
  | succ n ih => rw [strided, List.length_cons, ih]

theorem le_of_mem_strided (hs : 0 ≤ stride) (h : a ∈ strided base stride n) : base ≤ a := by
  induction n generalizing base with
  | zero => cases h
  | succ n ih =>
    rcases List.mem_cons.mp h with rfl | h
    · exact le_rfl
    · have := ih h
      omega

theorem nodup_strided (hs : 0 < stride) : (strided base stride n).Nodup := by
  induction n generalizing base with
  | zero => exact List.nodup_nil
  | succ n ih =>
    refine List.nodup_cons.mpr ⟨fun hmem => ?_, ih⟩
    have := le_of_mem_strided hs.le hmem
    omega

theorem pairwise_apart_strided (hs : 0 ≤ stride) (hw : w ≤ stride) :
    (strided base stride n).Pairwise (Apart w) := by
  induction n generalizing base with
  | zero => exact List.Pairwise.nil
  | succ n ih =>
    refine List.pairwise_cons.mpr ⟨fun a ha x h1 h2 h3 h4 => ?_, ih⟩
    have := le_of_mem_strided hs ha
    omega

theorem pairwise_apart_strided_iff (hs : 0 ≤ stride) (hpos : 0 < w) :
    (strided base stride n).Pairwise (Apart w) ↔ w ≤ stride ∨ n ≤ 1 := by
  constructor
  · intro h
    by_contra hno
    push Not at hno
    obtain ⟨k, rfl⟩ : ∃ k, n = k + 2 := ⟨n - 2, by omega⟩
    -- the first two windows share an address
    have hfirst := (List.pairwise_cons.mp h).1 (base + stride) List.mem_cons_self
    rw [apart_iff hpos] at hfirst
    omega
  · rintro (hw | hn)
    · exact pairwise_apart_strided hs hw
    · match n, hn with
      | 0, _ => exact List.Pairwise.nil
      | 1, _ => exact List.pairwise_singleton _ _

end Windows
