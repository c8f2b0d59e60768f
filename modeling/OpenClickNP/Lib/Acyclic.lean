import Mathlib.Data.Fintype.Card
import Mathlib.Data.Set.Finite.List
import Mathlib.Logic.Relation

/-!
# References without a cycle

A relation between finitely many things can be followed to an end from `a` exactly when nothing
that `a` leads to leads back to itself. Where nothing at all leads to itself, they can be listed so
that each comes before all it refers to (`exists_forward`).
-/

namespace Acyclic

open Relation (TransGen ReflTransGen)

variable {α : Type*} {R : α → α → Prop} {a b : α}

/-- What leads to itself can be followed without end. -/
theorem not_transGen_self (h : Acc (fun b a => R a b) a) : ¬ TransGen R a a := by
  intro hloop
  have hback : TransGen (fun b a => R a b) a a := Relation.transGen_swap.mpr hloop
  induction h.transGen with
  | intro x hacc ih => exact ih x hback (acc_transGen_iff.mp (hacc x hback)) hloop hback

theorem acc_of_reflTransGen (h : Acc (fun b a => R a b) a) (hab : ReflTransGen R a b) :
    Acc (fun b a => R a b) b := by
  induction hab with
  | refl => exact h
  | tail _ hstep ih => exact ih.inv hstep

/-- **The criterion.** `l` holds all that anything refers to. -/
theorem acc_iff {l : List α} (hl : ∀ x y, R x y → y ∈ l) :
    Acc (fun b a => R a b) a ↔ ∀ b, ReflTransGen R a b → ¬ TransGen R b b := by
  constructor
  · exact fun h b hab => not_transGen_self (acc_of_reflTransGen h hab)
  · intro hno
    -- what `a` leads to is finite, and `TransGen R` is a strict order on it
    let S := { b // b ∈ l ∧ ReflTransGen R a b }
    have hfinite : Finite S :=
      Set.Finite.subset (List.finite_toSet l) fun b (hb : b ∈ l ∧ ReflTransGen R a b) => hb.1
    let T : S → S → Prop := fun x y => TransGen R y.1 x.1
    have htrans : IsTrans S T := ⟨fun _ _ _ hxy hyz => hyz.trans hxy⟩
    have hirrefl : Std.Irrefl T := ⟨fun x => hno x.1 x.2.2⟩
    have hwf : WellFounded T := Finite.wellFounded_of_trans_of_irrefl T
    have hacc : ∀ x : S, Acc (fun b a => R a b) x.1 := by
      intro x
      induction x using hwf.induction with
      | h x ih =>
        refine Acc.intro x.1 fun y hy => ?_
        exact ih ⟨y, hl _ _ hy, x.2.2.tail hy⟩ (.single hy)
    exact Acc.intro a fun y hy => hacc ⟨y, hl _ _ hy, .single hy⟩

/-! ## Orders -/

/-- Each comes once, and before all that it refers to. -/
def Forward (R : α → α → Prop) : List α → Prop
  | [] => True
  | a :: l => a ∉ l ∧ (∀ b, R a b → b ∈ l) ∧ Forward R l

/-- **What refers to nothing in a circle can be put in order.** Induction on the number of those to
be listed; first comes one that none of the others refers to. -/
theorem exists_forward [Finite α] (h : ∀ a, ¬ TransGen R a a) :
    ∃ l : List α, (∀ a, a ∈ l) ∧ Forward R l := by
  classical
  have htrans : IsTrans α (TransGen R) := ⟨fun _ _ _ hab hbc => hab.trans hbc⟩
  have hirrefl : Std.Irrefl (TransGen R) := ⟨h⟩
  have hwf : WellFounded (TransGen R) := Finite.wellFounded_of_trans_of_irrefl _
  have hlist : ∀ s : Finset α, (∀ a ∈ s, ∀ b, R a b → b ∈ s) →
      ∃ l : List α, (∀ a, a ∈ l ↔ a ∈ s) ∧ Forward R l := by
    intro s
    induction s using Finset.strongInduction with
    | H s ih =>
      intro hclosed
      rcases s.eq_empty_or_nonempty with rfl | hs
      · exact ⟨[], fun a => by simp, trivial⟩
      · obtain ⟨m, hm, hmin⟩ := hwf.has_min {a | a ∈ s} hs
        have herase : ∀ a ∈ s.erase m, ∀ b, R a b → b ∈ s.erase m := fun a ha b hab =>
          have has := Finset.mem_of_mem_erase ha
          Finset.mem_erase.mpr ⟨fun hbm => hmin a has (.single (hbm ▸ hab)), hclosed a has b hab⟩
        obtain ⟨l, hl, hforward⟩ := ih (s.erase m) (Finset.erase_ssubset hm) herase
        refine ⟨m :: l, fun a => ?_, ?_, ?_, hforward⟩
        · rw [List.mem_cons, hl, Finset.mem_erase]
          by_cases ham : a = m
          · exact iff_of_true (Or.inl ham) (ham ▸ hm)
          · simp [ham]
        · rw [hl]
          exact Finset.notMem_erase m s
        · intro b hmb
          exact (hl b).mpr (Finset.mem_erase.mpr
            ⟨fun hbm => h m (.single (hbm ▸ hmb)), hclosed m hm b hmb⟩)
  have : Fintype α := Fintype.ofFinite α
  obtain ⟨l, hl, hforward⟩ := hlist Finset.univ fun _ _ b _ => Finset.mem_univ b
  exact ⟨l, fun a => (hl a).mpr (Finset.mem_univ a), hforward⟩

end Acyclic
