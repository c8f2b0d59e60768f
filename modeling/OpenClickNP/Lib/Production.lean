import Mathlib.Tactic.TypeStar

/-!
# Productions

A computation over a state that may fail, and that keeps the state it has reached when it does.
Its loops take at most as many turns as the bound it is run with.

`Yields p s r t` says that `p`, run from `s` with a large enough bound, ends in `t` with the
result `r`. The rules below take a run apart along the structure of the computation.
-/

/-- A run is `none` when a loop reaches the bound. Otherwise it is the state at the end and the
result, `none` when the computation failed. -/
def Production (σ α : Type) : Type := Nat → σ → Option (Option α × σ)

namespace Production

variable {σ τ α β : Type}

instance : Monad (Production σ) where
  pure a := fun _ s => some (some a, s)
  bind p f := fun n s =>
    match p n s with
    | none => none
    | some (none, t) => some (none, t)
    | some (some a, t) => f a n t

instance : MonadStateOf σ (Production σ) where
  get := fun _ s => some (some s, s)
  set t := fun _ _ => some (some ⟨⟩, t)
  modifyGet f := fun _ s => some (some (f s).1, (f s).2)

def fail : Production σ α := fun _ s => some (none, s)

/-- The result of `p`, a failure included. -/
def attempt (p : Production σ α) : Production σ (Option α) := fun n s =>
  match p n s with
  | none => none
  | some (r, t) => some (some r, t)

/-- `p` on a part of the state. -/
def within (view : τ → σ) (put : σ → τ → τ) (p : Production σ α) : Production τ α := fun n t =>
  match p n (view t) with
  | none => none
  | some (r, s) => some (r, put s t)

/-- At most `k` turns of a loop. -/
def turns (body : β → Production σ (ForInStep β)) : Nat → β → Production σ β
  | 0, _ => fun _ _ => none
  | k + 1, b => do
    match ← body b with
    | .yield b' => turns body k b'
    | .done b' => pure b'

/-- `while (true) { .. }`, where `.done` is the turn that breaks. -/
def loop (body : β → Production σ (ForInStep β)) (b : β) : Production σ β := fun n =>
  turns body n b n

/-! ## Runs -/

/-- With a large enough bound, `p` runs from `s` to `t` and gives `r`. -/
def Yields (p : Production σ α) (s : σ) (r : Option α) (t : σ) : Prop :=
  ∃ bound, ∀ n ≥ bound, p n s = some (r, t)

section
variable {p : Production σ α} {f : α → Production σ β} {s t u : σ} {a : α} {r r' : Option α}
variable {q : Option β}

theorem bind_eq (n : Nat) : (p >>= f) n s = match p n s with
    | none => none
    | some (none, t) => some (none, t)
    | some (some a, t) => f a n t := rfl

/-- A run of `p >>= f` is one of `p` that fails, or one of `p` and then one of `f`. -/
theorem bind_cases {n : Nat} (h : (p >>= f) n s = some (q, u)) :
    (p n s = some (none, u) ∧ q = none) ∨
      ∃ a t, p n s = some (some a, t) ∧ f a n t = some (q, u) := by
  rw [bind_eq] at h
  cases hp : p n s with
  | none =>
    rw [hp] at h
    cases h
  | some out =>
    rw [hp] at h
    obtain ⟨_ | a, t⟩ := out
    · cases h
      exact Or.inl ⟨rfl, rfl⟩
    · exact Or.inr ⟨a, t, rfl, h⟩

theorem attempt_cases {n : Nat} {o : Option (Option α)} (h : attempt p n s = some (o, t)) :
    ∃ r, p n s = some (r, t) ∧ o = some r := by
  unfold attempt at h
  cases hp : p n s with
  | none =>
    rw [hp] at h
    cases h
  | some out =>
    rw [hp] at h
    cases h
    exact ⟨out.1, rfl, rfl⟩

theorem within_cases {view : τ → σ} {put : σ → τ → τ} {n : Nat} {x y : τ}
    (h : within view put p n x = some (r, y)) :
    ∃ t, p n (view x) = some (r, t) ∧ y = put t x := by
  unfold within at h
  cases hp : p n (view x) with
  | none =>
    rw [hp] at h
    cases h
  | some out =>
    rw [hp] at h
    cases h
    exact ⟨out.2, rfl, rfl⟩

theorem Yields.of_eq (h : ∀ n, p n s = some (r, t)) : Yields p s r t := ⟨0, fun n _ => h n⟩

theorem Yields.unique (h : Yields p s r t) (h' : Yields p s r' u) : r = r' ∧ t = u := by
  obtain ⟨N, hN⟩ := h
  obtain ⟨N', hN'⟩ := h'
  have heq := (hN (max N N') (Nat.le_max_left _ _)).symm.trans (hN' _ (Nat.le_max_right _ _))
  simpa using heq

theorem Yields.pure (a : α) (s : σ) : Yields (pure a) s (some a) s := .of_eq fun _ => rfl

theorem Yields.fail (s : σ) : Yields (fail : Production σ α) s none s := .of_eq fun _ => rfl

theorem Yields.bind (h : Yields p s (some a) t) (hf : Yields (f a) t q u) :
    Yields (p >>= f) s q u := by
  obtain ⟨N, hN⟩ := h
  obtain ⟨N', hN'⟩ := hf
  refine ⟨max N N', fun n hn => ?_⟩
  have hp := hN n (Nat.le_trans (Nat.le_max_left _ _) hn)
  have hrest := hN' n (Nat.le_trans (Nat.le_max_right _ _) hn)
  rw [bind_eq, hp]
  exact hrest

theorem Yields.bind_fail (h : Yields p s none t) : Yields (p >>= f) s none t := by
  obtain ⟨N, hN⟩ := h
  refine ⟨N, fun n hn => ?_⟩
  rw [bind_eq, hN n hn]

theorem Yields.map {g : α → β} (h : Yields p s (some a) t) :
    Yields (g <$> p) s (some (g a)) t :=
  h.bind (.pure (g a) t)

theorem Yields.get_bind {f : σ → Production σ β} (h : Yields (f s) s q u) :
    Yields (get >>= f) s q u :=
  Yields.bind (.of_eq fun _ => rfl) h

theorem Yields.modify (g : σ → σ) (s : σ) : Yields (modify g) s (some ⟨⟩) (g s) :=
  .of_eq fun _ => rfl

theorem Yields.attempt (h : Yields p s r t) : Yields (attempt p) s (some r) t := by
  obtain ⟨N, hN⟩ := h
  refine ⟨N, fun n hn => ?_⟩
  unfold Production.attempt
  rw [hN n hn]

theorem Yields.within {view : τ → σ} {put : σ → τ → τ} {x : τ} (h : Yields p (view x) r t) :
    Yields (within view put p) x r (put t x) := by
  obtain ⟨N, hN⟩ := h
  refine ⟨N, fun n hn => ?_⟩
  unfold Production.within
  rw [hN n hn]

theorem Yields.ite_pos {c : Prop} [Decidable c] {p' : Production σ α} (hc : c)
    (h : Yields p s r t) : Yields (if c then p else p') s r t := by
  rwa [if_pos hc]

theorem Yields.ite_neg {c : Prop} [Decidable c] {p' : Production σ α} (hc : ¬ c)
    (h : Yields p' s r t) : Yields (if c then p else p') s r t := by
  rwa [if_neg hc]

end

/-! ## Loops -/

/-- With a large enough bound on its turns and on those of the loops in its body, the loop runs
from `s` to `t` and gives `r`. -/
def Loops (body : β → Production σ (ForInStep β)) (b : β) (s : σ) (r : Option β) (t : σ) : Prop :=
  ∃ bound, ∀ n ≥ bound, ∀ k ≥ bound, turns body k b n s = some (r, t)

section
variable {body : β → Production σ (ForInStep β)} {b b' : β} {s t u : σ} {r : Option β}

theorem Loops.yields (h : Loops body b s r t) : Yields (loop body b) s r t := by
  obtain ⟨N, hN⟩ := h
  exact ⟨N, fun n hn => hN n hn n hn⟩

theorem turns_succ (k n : Nat) :
    turns body (k + 1) b n s = match body b n s with
      | none => none
      | some (none, t) => some (none, t)
      | some (some (.yield b'), t) => turns body k b' n t
      | some (some (.done b'), t) => some (some b', t) := by
  rw [turns, bind_eq]
  cases body b n s with
  | none => rfl
  | some out =>
    obtain ⟨_ | _ | _, _⟩ := out <;> rfl

/-- The turn that breaks. -/
theorem Loops.done (h : Yields (body b) s (some (.done b')) t) : Loops body b s (some b') t := by
  obtain ⟨N, hN⟩ := h
  refine ⟨N + 1, fun n hn k hk => ?_⟩
  obtain ⟨k, rfl⟩ : ∃ j, k = j + 1 := ⟨k - 1, by omega⟩
  rw [turns_succ, hN n (by omega)]

/-- A turn that fails. -/
theorem Loops.fail (h : Yields (body b) s none t) : Loops body b s none t := by
  obtain ⟨N, hN⟩ := h
  refine ⟨N + 1, fun n hn k hk => ?_⟩
  obtain ⟨k, rfl⟩ : ∃ j, k = j + 1 := ⟨k - 1, by omega⟩
  rw [turns_succ, hN n (by omega)]

/-- A turn, and the turns after it. -/
theorem Loops.turn (h : Yields (body b) s (some (.yield b')) t) (hrest : Loops body b' t r u) :
    Loops body b s r u := by
  obtain ⟨N, hN⟩ := h
  obtain ⟨M, hM⟩ := hrest
  refine ⟨max N M + 1, fun n hn k hk => ?_⟩
  have hN' := Nat.le_max_left N M
  have hM' := Nat.le_max_right N M
  obtain ⟨k, rfl⟩ : ∃ j, k = j + 1 := ⟨k - 1, by omega⟩
  rw [turns_succ, hN n (by omega)]
  exact hM n (by omega) k (by omega)

end

/-! ## Productions that end more often -/

/-- `p'` ends wherever `p` does, and alike. -/
def Le (p p' : Production σ α) : Prop := ∀ n s x, p n s = some x → p' n s = some x

section
variable {p p' p'' : Production σ α} {f f' : α → Production σ β} {s t : σ} {r : Option α}

theorem Le.refl (p : Production σ α) : Le p p := fun _ _ _ h => h

theorem Le.trans (h : Le p p') (h' : Le p' p'') : Le p p'' := fun n s x hx => h' n s x (h n s x hx)

theorem Le.yields (h : Le p p') (hrun : Yields p s r t) : Yields p' s r t := by
  obtain ⟨N, hN⟩ := hrun
  exact ⟨N, fun n hn => h n s _ (hN n hn)⟩

theorem Le.bind (h : Le p p') (hf : ∀ a, Le (f a) (f' a)) : Le (p >>= f) (p' >>= f') := by
  rintro n s ⟨q, u⟩ hx
  rw [bind_eq]
  rcases bind_cases hx with ⟨hp, rfl⟩ | ⟨a, t, hp, hrest⟩
  · rw [h n s _ hp]
  · rw [h n s _ hp]
    exact hf a n t _ hrest

theorem Le.attempt (h : Le p p') : Le (attempt p) (attempt p') := by
  rintro n s ⟨o, t⟩ hx
  obtain ⟨r, hp, rfl⟩ := attempt_cases hx
  unfold Production.attempt
  rw [h n s _ hp]

theorem Le.within {view : τ → σ} {put : σ → τ → τ} (h : Le p p') :
    Le (within view put p) (within view put p') := by
  rintro n x ⟨r, y⟩ hx
  obtain ⟨t, hp, rfl⟩ := within_cases hx
  unfold Production.within
  rw [h n _ _ hp]

theorem Le.ite {c : Prop} [Decidable c] {q q' : Production σ α} (h : Le p p') (hq : Le q q') :
    Le (if c then p else q) (if c then p' else q') := by
  split
  · exact h
  · exact hq

/-- Loops whose bodies are so. Induction on the turns. -/
theorem Le.loop {body body' : β → Production σ (ForInStep β)} (h : ∀ b, Le (body b) (body' b))
    (b : β) : Le (loop body b) (loop body' b) := by
  have hturns : ∀ k b, Le (turns body k b) (turns body' k b) := by
    intro k
    induction k with
    | zero => exact fun _ _ _ _ hx => by cases hx
    | succ k ih =>
      refine fun b => Le.bind (h b) fun step => ?_
      cases step with
      | yield b' => exact ih b'
      | done b' => exact Le.refl _
  exact fun n s x hx => hturns n b n s x hx

end

end Production
