import Mathlib.Data.Fin.Basic
import Mathlib.Logic.Equiv.Basic
import Mathlib.Order.Basic

/-!
# Binary heaps in arrays

The first `size` slots of an array hold a heap when no element is smaller than the one above it.
A sift restores that order: on its way it has a hole, the one place where the order may fail, and
each swap moves the hole on. `RisesAt` and `SinksAt` are the invariants of the two directions.
-/

namespace BinaryHeap

variable {n size : Nat}

/-- The position above `i`. The root is above itself. -/
def parent (i : Fin n) : Fin n := ⟨(i.val - 1) / 2, by omega⟩

theorem parent_val (i : Fin n) : (parent i).val = (i.val - 1) / 2 := rfl

theorem parent_lt {i : Fin n} (h : 0 < i.val) : (parent i).val < i.val := by
  rw [parent_val]
  omega

/-- A position other than the root is the left or the right child of the one above it. -/
theorem child_cases {i : Fin n} (h : 0 < i.val) :
    i.val = 2 * (parent i).val + 1 ∨ i.val = 2 * (parent i).val + 2 := by
  rw [parent_val]
  omega

section
variable {κ : Type*} [LinearOrder κ]

/-- No element is smaller than the one above it. -/
def IsHeap (a : Fin n → κ) (size : Nat) : Prop :=
  ∀ i : Fin n, 0 < i.val → i.val < size → a (parent i) ≤ a i

variable {a b : Fin n → κ} {hole m : Fin n}

theorem isHeap_zero (a : Fin n → κ) : IsHeap a 0 := fun i _ h => absurd h (Nat.not_lt_zero i.val)

/-- **The root holds a smallest element.** Induction along the way up. -/
theorem IsHeap.root_le (h : IsHeap a size) (root : Fin n) (hroot : root.val = 0) (i : Fin n)
    (hi : i.val < size) : a root ≤ a i := by
  induction hk : i.val using Nat.strong_induction_on generalizing i with
  | _ k ih =>
    subst hk
    by_cases hpos : 0 < i.val
    · have hlt := parent_lt hpos
      exact (ih _ hlt (parent i) (Nat.lt_trans hlt hi) rfl).trans (h i hpos hi)
    · have hsame : i = root := Fin.ext (by omega)
      rw [hsame]

/-! ## The way up -/

/-- The element in the hole may be smaller than the one above it. -/
structure RisesAt (a : Fin n → κ) (size : Nat) (hole : Fin n) : Prop where
  order : ∀ i : Fin n, 0 < i.val → i.val < size → i ≠ hole → a (parent i) ≤ a i
  across : ∀ i : Fin n, 0 < i.val → i.val < size → parent i = hole → 0 < hole.val →
    a (parent hole) ≤ a i

/-- One more element, behind a heap. -/
theorem IsHeap.risesAt (h : IsHeap a size) (hsize : size < n) (hb : ∀ i, i.val < size → b i = a i) :
    RisesAt b (size + 1) ⟨size, hsize⟩ where
  order i hpos hi hne := by
    have hlt : i.val < size := by
      have hval : i.val ≠ size := fun heq => hne (Fin.ext heq)
      omega
    have hup := parent_lt hpos
    rw [hb i hlt, hb _ (Nat.lt_trans hup hlt)]
    exact h i hpos hlt
  across i hpos hi hparent _ := by
    have hup := parent_lt hpos
    rw [hparent] at hup
    exact absurd hup (by simp only []; omega)

theorem RisesAt.isHeap_of_root (h : RisesAt a size hole) (hroot : ¬ 0 < hole.val) :
    IsHeap a size := by
  intro i hpos hi
  refine h.order i hpos hi ?_
  rintro rfl
  exact hroot hpos

theorem RisesAt.isHeap_of_le (h : RisesAt a size hole) (hle : a (parent hole) ≤ a hole) :
    IsHeap a size := by
  intro i hpos hi
  by_cases hne : i = hole
  · rw [hne]
    exact hle
  · exact h.order i hpos hi hne

/-- **A swap on the way up moves the hole up.** -/
theorem RisesAt.swap (h : RisesAt a size hole) (hpos : 0 < hole.val) (hsize : hole.val < size)
    (hlt : a hole < a (parent hole)) :
    RisesAt (a ∘ Equiv.swap hole (parent hole)) size (parent hole) := by
  have hup := parent_lt hpos
  have hne : parent hole ≠ hole := fun heq => by rw [heq] at hup; exact Nat.lt_irrefl _ hup
  have hhole : (a ∘ Equiv.swap hole (parent hole)) hole = a (parent hole) :=
    congrArg a (Equiv.swap_apply_left _ _)
  have habove : (a ∘ Equiv.swap hole (parent hole)) (parent hole) = a hole :=
    congrArg a (Equiv.swap_apply_right _ _)
  have hother : ∀ i, i ≠ hole → i ≠ parent hole →
      (a ∘ Equiv.swap hole (parent hole)) i = a i :=
    fun i h₁ h₂ => congrArg a (Equiv.swap_apply_of_ne_of_ne h₁ h₂)
  constructor
  · intro i hi hisize hiabove
    by_cases hihole : i = hole
    · rw [hihole, habove, hhole]
      exact hlt.le
    · rw [hother i hihole hiabove]
      by_cases hchild : parent i = hole
      · -- a child of the hole is now under the element from above
        rw [hchild, hhole]
        exact h.across i hi hisize hchild hpos
      · by_cases hsibling : parent i = parent hole
        · rw [hsibling, habove]
          have hold := h.order i hi hisize hihole
          rw [hsibling] at hold
          exact hlt.le.trans hold
        · rw [hother _ hchild hsibling]
          exact h.order i hi hisize hihole
  · intro i hi hisize hchild hposabove
    have hupup := parent_lt hposabove
    have hold := h.order (parent hole) hposabove (Nat.lt_trans hup hsize) hne
    rw [hother (parent (parent hole)) (fun heq => by rw [heq] at hupup; omega)
      (fun heq => by rw [heq] at hupup; exact Nat.lt_irrefl _ hupup)]
    by_cases hihole : i = hole
    · rw [hihole, hhole]
      exact hold
    · have hiabove : i ≠ parent hole := by
        rintro rfl
        have hself := parent_lt hi
        rw [hchild] at hself
        exact Nat.lt_irrefl _ hself
      rw [hother i hihole hiabove]
      have hbelow := h.order i hi hisize hihole
      rw [hchild] at hbelow
      exact hold.trans hbelow

/-! ## The way down -/

/-- The element in the hole may be greater than those under it. -/
structure SinksAt (a : Fin n → κ) (size : Nat) (hole : Fin n) : Prop where
  order : ∀ i : Fin n, 0 < i.val → i.val < size → parent i ≠ hole → a (parent i) ≤ a i
  across : ∀ i : Fin n, 0 < i.val → i.val < size → parent i = hole → 0 < hole.val →
    a (parent hole) ≤ a i

/-- Another element in the root of a heap, and one element fewer. -/
theorem IsHeap.sinksAt (h : IsHeap a (size + 1)) (root : Fin n) (hroot : root.val = 0)
    (hb : ∀ i, i ≠ root → b i = a i) : SinksAt b size root where
  order i hpos hi hparent := by
    have hne : i ≠ root := by
      rintro rfl
      omega
    rw [hb i hne, hb _ hparent]
    exact h i hpos (Nat.lt_succ_of_lt hi)
  across _ _ _ _ hpos := absurd hpos (by omega)

theorem SinksAt.isHeap_of_le (h : SinksAt a size hole)
    (hle : ∀ i : Fin n, 0 < i.val → i.val < size → parent i = hole → a hole ≤ a i) :
    IsHeap a size := by
  intro i hpos hi
  by_cases hchild : parent i = hole
  · rw [hchild]
    exact hle i hpos hi hchild
  · exact h.order i hpos hi hchild

/-- **A swap with a smallest child moves the hole down.** -/
theorem SinksAt.swap (h : SinksAt a size hole) (hpos : 0 < m.val) (hm : m.val < size)
    (hchild : parent m = hole) (hlt : a m < a hole)
    (hleast : ∀ i : Fin n, 0 < i.val → i.val < size → parent i = hole → a m ≤ a i) :
    SinksAt (a ∘ Equiv.swap hole m) size m := by
  have hup : hole.val < m.val := by
    have hlt := parent_lt hpos
    rwa [hchild] at hlt
  have hhole : (a ∘ Equiv.swap hole m) hole = a m := congrArg a (Equiv.swap_apply_left _ _)
  have hbelow : (a ∘ Equiv.swap hole m) m = a hole := congrArg a (Equiv.swap_apply_right _ _)
  have hother : ∀ i, i ≠ hole → i ≠ m → (a ∘ Equiv.swap hole m) i = a i :=
    fun i h₁ h₂ => congrArg a (Equiv.swap_apply_of_ne_of_ne h₁ h₂)
  constructor
  · intro i hi hisize hparent
    by_cases him : i = m
    · rw [him, hchild, hhole, hbelow]
      exact hlt.le
    · by_cases hihole : i = hole
      · -- the hole is under what was above it
        subst hihole
        have hupup := parent_lt hi
        rw [hhole, hother (parent i) (fun heq => by rw [heq] at hupup; exact Nat.lt_irrefl _ hupup)
          hparent]
        exact h.across m hpos hm hchild hi
      · rw [hother i hihole him]
        by_cases hsibling : parent i = hole
        · rw [hsibling, hhole]
          exact hleast i hi hisize hsibling
        · rw [hother _ hsibling hparent]
          exact h.order i hi hisize hsibling
  · intro i hi hisize hunder _
    have hupi := parent_lt hi
    rw [hunder] at hupi
    have hne : ∀ j : Fin n, j.val < i.val → i ≠ j := by
      rintro j hj rfl
      exact Nat.lt_irrefl _ hj
    rw [hchild, hhole, hother i (hne hole (by omega)) (hne m hupi)]
    have hold := h.order i hi hisize (by
      rw [hunder]
      rintro rfl
      exact Nat.lt_irrefl _ hup)
    rwa [hunder] at hold

end

end BinaryHeap
