import Mathlib.Tactic.TypeStar

/-!
# Rounds that undo each other

`run f ks s` applies the round `f k` for each key `k` of `ks` to `s`. When the round `g k` undoes
`f k` as seen through `p`, the rounds `g` in the reverse order undo the rounds `f`
(`run_reverse_run`).
-/

namespace Rounds

variable {κ S T : Type*}

/-- The rounds for the keys `ks`, one after the other. -/
def run (f : κ → S → S) (ks : List κ) (s : S) : S := ks.foldl (fun s k => f k s) s

@[simp] theorem run_nil (f : κ → S → S) (s : S) : run f [] s = s := rfl

theorem run_cons (f : κ → S → S) (k : κ) (ks : List κ) (s : S) :
    run f (k :: ks) s = run f ks (f k s) := rfl

theorem run_append (f : κ → S → S) (ks ks' : List κ) (s : S) :
    run f (ks ++ ks') s = run f ks' (run f ks s) := List.foldl_append

/-- **Rounds in reverse.** Induction on the keys: the last round is undone first. -/
theorem run_reverse_run {f : κ → S → S} {g : κ → T → T} {p : S → T}
    (h : ∀ k s, g k (p (f k s)) = p s) (ks : List κ) (s : S) :
    run g ks.reverse (p (run f ks s)) = p s := by
  induction ks generalizing s with
  | nil => rfl
  | cons k ks ih =>
    have hrest : run g ks.reverse (p (run f ks (f k s))) = p (f k s) := ih (f k s)
    rw [List.reverse_cons, run_append, run_cons f, hrest]
    exact h k s

end Rounds
