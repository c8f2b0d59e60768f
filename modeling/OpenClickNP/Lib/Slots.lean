import Mathlib.Data.List.FinRange
import Mathlib.Logic.Equiv.Basic

/-!
# Arrays of which the first slots are in use

`contents a size` is what the first `size` slots of an array hold. To move elements about inside
these slots permutes it, to write behind them and to take from the end adds and takes one element,
and to fill a gap with the last element takes out what was there.
-/

namespace Slots

variable {n size : Nat} {α : Type*} {a b : Fin n → α}

/-- The first `size` positions. -/
def positions (n size : Nat) : List (Fin n) := (List.finRange n).take size

/-- What the first `size` slots hold. -/
def contents (a : Fin n → α) (size : Nat) : List α := (positions n size).map a

theorem length_positions (h : size ≤ n) : (positions n size).length = size := by
  rw [positions, List.length_take, List.length_finRange, Nat.min_eq_left h]

theorem length_contents (h : size ≤ n) : (contents a size).length = size := by
  rw [contents, List.length_map, length_positions h]

theorem getElem?_positions (i : Fin n) (h : i.val < size) :
    (positions n size)[i.val]? = some i := by
  rw [positions, List.getElem?_take_of_lt h, List.getElem?_eq_getElem (by simp)]
  simp

theorem getElem?_contents (i : Fin n) (h : i.val < size) :
    (contents a size)[i.val]? = some (a i) := by
  rw [contents, List.getElem?_map, getElem?_positions i h]
  rfl

theorem mem_positions {i : Fin n} : i ∈ positions n size ↔ i.val < size := by
  constructor
  · intro h
    obtain ⟨k, hk⟩ := List.mem_iff_getElem?.mp h
    rw [positions, List.getElem?_take] at hk
    split at hk
    · rename_i hlt
      obtain ⟨hkn, hget⟩ := List.getElem?_eq_some_iff.mp hk
      rw [← hget, List.getElem_finRange]
      exact hlt
    · cases hk
  · exact fun h => List.mem_of_getElem? (getElem?_positions i h)

theorem mem_contents {x : α} : x ∈ contents a size ↔ ∃ i : Fin n, i.val < size ∧ a i = x := by
  simp only [contents, List.mem_map, mem_positions]

/-- Only the slots in use matter. -/
theorem contents_congr (h : ∀ i : Fin n, i.val < size → a i = b i) :
    contents a size = contents b size :=
  List.map_congr_left fun i hi => h i (mem_positions.mp hi)

/-- What holds between the slots in use, in order. -/
theorem pairwise_contents {R : α → α → Prop} :
    (contents a size).Pairwise R ↔ ∀ i j : Fin n, i < j → j.val < size → R (a i) (a j) := by
  constructor
  · intro h i j hij hj
    obtain ⟨hi', hi⟩ := List.getElem?_eq_some_iff.mp
      (getElem?_contents (a := a) i (Nat.lt_trans hij hj))
    obtain ⟨hj', hj⟩ := List.getElem?_eq_some_iff.mp (getElem?_contents (a := a) j hj)
    have hrel := List.pairwise_iff_getElem.mp h i.val j.val hi' hj' hij
    rwa [hi, hj] at hrel
  · intro h
    have hsorted : (positions n size).Pairwise (· < ·) := (List.pairwise_lt_finRange n).take
    refine List.pairwise_map.mpr (hsorted.imp_of_mem fun _ hj hlt => ?_)
    exact h _ _ hlt (mem_positions.mp hj)

theorem positions_succ (h : size < n) :
    positions n (size + 1) = positions n size ++ [⟨size, h⟩] := by
  have hlen : size < (List.finRange n).length := by simpa using h
  rw [positions, List.take_succ_eq_append_getElem hlen, List.getElem_finRange]
  rfl

theorem contents_succ (h : size < n) :
    contents a (size + 1) = contents a size ++ [a ⟨size, h⟩] := by
  rw [contents, positions_succ h, List.map_append]
  rfl

/-- An element written behind the slots in use. -/
theorem contents_push (h : size < n) (x : α) :
    contents (Function.update a ⟨size, h⟩ x) (size + 1) = contents a size ++ [x] := by
  rw [contents_succ h, Function.update_self]
  congr 1
  refine contents_congr fun i hi => Function.update_of_ne ?_ x a
  rintro rfl
  exact Nat.lt_irrefl _ hi

/-! ## Moving elements -/

/-- `σ` moves elements only inside the slots in use. -/
def Within (size : Nat) (σ : Equiv.Perm (Fin n)) : Prop := ∀ i : Fin n, size ≤ i.val → σ i = i

theorem within_refl : Within size (Equiv.refl (Fin n)) := fun _ _ => rfl

theorem within_swap {i j : Fin n} (hi : i.val < size) (hj : j.val < size) :
    Within size (Equiv.swap i j) := by
  intro k hk
  apply Equiv.swap_apply_of_ne_of_ne
  · rintro rfl
    omega
  · rintro rfl
    omega

theorem Within.trans {σ τ : Equiv.Perm (Fin n)} (hσ : Within size σ) (hτ : Within size τ) :
    Within size (σ.trans τ) := by
  intro i hi
  rw [Equiv.trans_apply, hσ i hi, hτ i hi]

theorem Within.lt_iff {σ : Equiv.Perm (Fin n)} (hσ : Within size σ) (i : Fin n) :
    (σ i).val < size ↔ i.val < size := by
  constructor
  · intro h
    by_contra hge
    rw [hσ i (Nat.not_lt.mp hge)] at h
    exact hge h
  · intro h
    by_contra hge
    have hfix := σ.injective (hσ (σ i) (Nat.not_lt.mp hge))
    rw [hfix] at hge
    exact hge h

/-- **To move elements inside the slots in use permutes the contents.** -/
theorem Within.contents_perm {σ : Equiv.Perm (Fin n)} (hσ : Within size σ) (a : Fin n → α) :
    (contents (a ∘ σ) size).Perm (contents a size) := by
  have hnodup : (positions n size).Nodup := (List.nodup_finRange n).take
  have hmap : ((positions n size).map σ).Perm (positions n size) := by
    rw [List.perm_ext_iff_of_nodup (hnodup.map σ.injective) hnodup]
    intro i
    rw [List.mem_map]
    constructor
    · rintro ⟨j, hj, rfl⟩
      exact mem_positions.mpr ((hσ.lt_iff j).mpr (mem_positions.mp hj))
    · intro hi
      refine ⟨σ.symm i, mem_positions.mpr ((hσ.lt_iff _).mp ?_), σ.apply_symm_apply i⟩
      rw [σ.apply_symm_apply]
      exact mem_positions.mp hi
  have hcomp : contents (a ∘ σ) size = ((positions n size).map σ).map a := by
    rw [List.map_map]
    rfl
  rw [hcomp]
  exact hmap.map a

/-- **The last element fills the gap that another one leaves.** -/
theorem contents_fill (h : size < n) {i : Fin n} (hi : i.val ≤ size) :
    (a i :: contents (Function.update a i (a ⟨size, h⟩)) size).Perm (contents a (size + 1)) := by
  have hswap : Within (size + 1) (Equiv.swap i ⟨size, h⟩) :=
    within_swap (Nat.lt_succ_of_le hi) (Nat.lt_succ_self size)
  have hlast : (a ∘ Equiv.swap i ⟨size, h⟩) ⟨size, h⟩ = a i :=
    congrArg a (Equiv.swap_apply_right i ⟨size, h⟩)
  have hrest : contents (a ∘ Equiv.swap i ⟨size, h⟩) size
      = contents (Function.update a i (a ⟨size, h⟩)) size := by
    refine contents_congr fun j hj => ?_
    have hne : j ≠ ⟨size, h⟩ := by
      rintro rfl
      exact Nat.lt_irrefl _ hj
    by_cases hji : j = i
    · rw [hji, Function.update_self]
      exact congrArg a (Equiv.swap_apply_left i ⟨size, h⟩)
    · rw [Function.update_of_ne hji]
      exact congrArg a (Equiv.swap_apply_of_ne_of_ne hji hne)
  have hends : contents (a ∘ Equiv.swap i ⟨size, h⟩) (size + 1)
      = contents (Function.update a i (a ⟨size, h⟩)) size ++ [a i] := by
    rw [contents_succ h, hlast, hrest]
  refine (List.perm_append_singleton (a i) _).symm.trans ?_
  rw [← hends]
  exact hswap.contents_perm a

/-! ## Shifting elements -/

theorem getElem?_contents_of_ge {k : Nat} (hn : size ≤ n) (h : size ≤ k) :
    (contents a size)[k]? = none := by
  rw [List.getElem?_eq_none]
  rw [length_contents hn]
  exact h

/-- **The elements from slot `i` on move one slot back**, and `x` takes their place. -/
theorem contents_insert {i : Fin n} {x : α} (hsize : size < n) (hi : i.val ≤ size)
    (hbefore : ∀ k : Fin n, k.val < i.val → b k = a k) (hat : b i = x)
    (hbehind : ∀ j k : Fin n, k.val = j.val + 1 → i.val < k.val → k.val ≤ size → b k = a j) :
    contents b (size + 1) = (contents a size).take i.val ++ x :: (contents a size).drop i.val := by
  have hlen : ((contents a size).take i.val).length = i.val := by
    rw [List.length_take, length_contents hsize.le, Nat.min_eq_left hi]
  apply List.ext_getElem?
  intro k
  by_cases hk : k < size + 1
  · have hkn : k < n := by omega
    rw [getElem?_contents ⟨k, hkn⟩ hk]
    rcases Nat.lt_trichotomy k i.val with hlt | heq | hgt
    · rw [List.getElem?_append_left (by omega), List.getElem?_take_of_lt hlt,
        getElem?_contents ⟨k, hkn⟩ (show k < size by omega), hbefore _ hlt]
    · subst heq
      rw [List.getElem?_append_right (by omega), hlen, Nat.sub_self, List.getElem?_cons_zero]
      exact congrArg some hat
    · obtain ⟨d, hd⟩ : ∃ d, k - i.val = d + 1 := ⟨k - i.val - 1, by omega⟩
      have hj : k - 1 < n := by omega
      rw [List.getElem?_append_right (by omega), hlen, hd, List.getElem?_cons_succ,
        List.getElem?_drop, show i.val + d = k - 1 by omega,
        getElem?_contents ⟨k - 1, hj⟩ (show k - 1 < size by omega),
        hbehind ⟨k - 1, hj⟩ ⟨k, hkn⟩ (show k = k - 1 + 1 by omega) hgt (Nat.le_of_lt_succ hk)]
  · rw [getElem?_contents_of_ge hsize (Nat.not_lt.mp hk), List.getElem?_eq_none]
    rw [List.length_append, hlen, List.length_cons, List.length_drop, length_contents hsize.le]
    omega

/-- **All elements move one slot to the front.** -/
theorem contents_tail (hsize : size ≤ n)
    (h : ∀ j k : Fin n, k.val = j.val + 1 → k.val < size → b j = a k) :
    contents b (size - 1) = (contents a size).tail := by
  apply List.ext_getElem?
  intro k
  rw [List.getElem?_tail]
  by_cases hk : k + 1 < size
  · have hkn : k < n := by omega
    have hkn' : k + 1 < n := by omega
    rw [getElem?_contents ⟨k, hkn⟩ (show k < size - 1 by omega),
      getElem?_contents ⟨k + 1, hkn'⟩ hk, h ⟨k, hkn⟩ ⟨k + 1, hkn'⟩ rfl hk]
  · rw [getElem?_contents_of_ge (by omega) (show size - 1 ≤ k by omega),
      getElem?_contents_of_ge hsize (Nat.not_lt.mp hk)]

theorem contents_take {i : Nat} (hi : i ≤ size) :
    (contents a size).take i = contents a i := by
  rw [contents, contents, ← List.map_take, positions, List.take_take, Nat.min_eq_left hi]
  rfl

theorem mem_drop_contents {i : Nat} {x : α} (h : x ∈ (contents a size).drop i) :
    ∃ k : Fin n, i ≤ k.val ∧ k.val < size ∧ a k = x := by
  obtain ⟨d, hd⟩ := List.mem_iff_getElem?.mp h
  rw [List.getElem?_drop, contents, List.getElem?_map, Option.map_eq_some_iff] at hd
  obtain ⟨k, hk, rfl⟩ := hd
  have hlt := mem_positions.mp (List.mem_of_getElem? hk)
  rw [positions, List.getElem?_take] at hk
  split at hk
  · obtain ⟨hdn, hget⟩ := List.getElem?_eq_some_iff.mp hk
    rw [List.getElem_finRange] at hget
    have hval : i + d = k.val := congrArg Fin.val hget
    exact ⟨k, by omega, hlt, rfl⟩
  · cases hk

/-! ## What a step conserves -/

/-- Where a step turns what is held and what comes in into what is then held and what goes out, the
steps of a run do so together. -/
theorem conserves_append {held held' sent taken input output : List α}
    (h : (held ++ sent).Perm taken) (hstep : (held' ++ output).Perm (held ++ input)) :
    (held' ++ (sent ++ output)).Perm (taken ++ input) :=
  calc (held' ++ (sent ++ output)).Perm (held' ++ (output ++ sent)) :=
        List.perm_append_comm.append_left held'
    List.Perm _ ((held' ++ output) ++ sent) := by rw [List.append_assoc]
    List.Perm _ ((held ++ input) ++ sent) := hstep.append_right sent
    List.Perm _ (held ++ (sent ++ input)) := by
        rw [List.append_assoc]
        exact List.perm_append_comm.append_left held
    List.Perm _ ((held ++ sent) ++ input) := by rw [List.append_assoc]
    List.Perm _ (taken ++ input) := h.append_right input

end Slots
