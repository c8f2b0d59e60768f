import Mathlib.Tactic.Common

/-!
# Folds that may fail

`l.foldlM f b` in `Option`: what one step keeps, a fold that succeeds keeps; and each element of
the list has its own step somewhere in it.
-/

namespace FoldM

variable {α β : Type*} {f : β → α → Option β} {R : β → β → Prop}

/-- **The rule of a relation.** Induction on the list. -/
theorem rel (hrefl : ∀ b, R b b) (htrans : ∀ a b c, R a b → R b c → R a c)
    {l : List α} (hf : ∀ b, ∀ a ∈ l, ∀ c, f b a = some c → R b c) {b c : β}
    (h : l.foldlM f b = some c) : R b c := by
  induction l generalizing b with
  | nil =>
    cases h
    exact hrefl _
  | cons a l ih =>
    rw [List.foldlM_cons] at h
    obtain ⟨d, hd, hrest⟩ := Option.bind_eq_some_iff.mp h
    exact htrans _ _ _ (hf b a List.mem_cons_self d hd)
      (ih (fun b a ha => hf b a (List.mem_cons_of_mem _ ha)) hrest)

/-- Every element has its step, and what comes before and after it is related. -/
theorem step_of_mem (hrefl : ∀ b, R b b) (htrans : ∀ a b c, R a b → R b c → R a c)
    {l : List α} (hf : ∀ b, ∀ a ∈ l, ∀ c, f b a = some c → R b c) {b c : β}
    (h : l.foldlM f b = some c) {a : α} (ha : a ∈ l) :
    ∃ b' c', R b b' ∧ f b' a = some c' ∧ R c' c := by
  induction l generalizing b with
  | nil => exact absurd ha List.not_mem_nil
  | cons a' l ih =>
    rw [List.foldlM_cons] at h
    obtain ⟨d, hd, hrest⟩ := Option.bind_eq_some_iff.mp h
    have hf' : ∀ b, ∀ a ∈ l, ∀ c, f b a = some c → R b c :=
      fun b a ha => hf b a (List.mem_cons_of_mem _ ha)
    rcases List.mem_cons.mp ha with rfl | hmem
    · exact ⟨b, d, hrefl b, hd, rel hrefl htrans hf' hrest⟩
    · obtain ⟨b', c', hb, hstep, hc⟩ := ih hf' hrest hmem
      exact ⟨b', c', htrans _ _ _ (hf b a' List.mem_cons_self d hd) hb, hstep, hc⟩

/-- A fold of steps that only succeed more often. -/
theorem mono {f' : β → α → Option β} (hf : ∀ b a c, f b a = some c → f' b a = some c)
    {l : List α} {b c : β} (h : l.foldlM f b = some c) : l.foldlM f' b = some c := by
  induction l generalizing b with
  | nil => exact h
  | cons a l ih =>
    rw [List.foldlM_cons] at h ⊢
    obtain ⟨d, hd, hrest⟩ := Option.bind_eq_some_iff.mp h
    rw [hf b a d hd]
    exact ih hrest

/-- A fold whose steps succeed with large enough a bound does. `I` is an invariant of the
results. -/
theorem exists_bound {f : Nat → β → α → Option β} (I : β → Prop)
    (hmono : ∀ n b a c, f n b a = some c → f (n + 1) b a = some c) {l : List α}
    (hf : ∀ b, I b → ∀ a ∈ l, ∃ n c, f n b a = some c ∧ I c) {b : β} (hb : I b) :
    ∃ n c, l.foldlM (f n) b = some c ∧ I c := by
  have hle : ∀ n k b a c, f n b a = some c → f (n + k) b a = some c := by
    intro n k b a c h
    induction k with
    | zero => exact h
    | succ k ih => exact hmono _ b a c ih
  induction l generalizing b with
  | nil => exact ⟨0, b, rfl, hb⟩
  | cons a l ih =>
    obtain ⟨n, c, hstep, hc⟩ := hf b hb a List.mem_cons_self
    obtain ⟨k, e, hrest, he⟩ := ih (fun b hb a ha => hf b hb a (List.mem_cons_of_mem _ ha)) hc
    refine ⟨n + k, e, ?_, he⟩
    rw [List.foldlM_cons, hle n k b a c hstep]
    refine mono (fun b a c h => ?_) hrest
    rw [Nat.add_comm]
    exact hle k n b a c h

end FoldM
