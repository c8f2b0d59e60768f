import OpenClickNP.Lib.Production

/-!
# Productions that end

`Finishes p s post` says that `p`, run from `s` with a large enough bound, ends, and that `post`
holds of the result and the state at the end. There is one rule for each combinator; a loop
finishes when a measure of the state falls with each turn that goes on (`Finishes.loop`). The rule
may use of a turn that it is reached from the start (`Turns`).
-/

namespace Production

variable {σ τ α β : Type}

def Finishes (p : Production σ α) (s : σ) (post : Option α → σ → Prop) : Prop :=
  ∃ r t, Yields p s r t ∧ post r t

section
variable {p : Production σ α} {f : α → Production σ β} {s t : σ} {a : α} {r : Option α}
variable {post post' : Option α → σ → Prop} {postf : Option β → σ → Prop}

theorem Finishes.of_yields (h : Yields p s r t) (hpost : post r t) : Finishes p s post :=
  ⟨r, t, h, hpost⟩

theorem Finishes.post_of_yields (h : Finishes p s post) (hrun : Yields p s r t) : post r t := by
  obtain ⟨r', t', hrun', hpost⟩ := h
  obtain ⟨rfl, rfl⟩ := hrun.unique hrun'
  exact hpost

theorem Finishes.mono (h : Finishes p s post) (himp : ∀ r t, post r t → post' r t) :
    Finishes p s post' := by
  obtain ⟨r, t, hrun, hpost⟩ := h
  exact ⟨r, t, hrun, himp r t hpost⟩

theorem Finishes.pure (h : post (some a) s) : Finishes (pure a) s post :=
  .of_yields (.pure a s) h

theorem Finishes.fail (h : post none s) : Finishes fail s post := .of_yields (.fail s) h

theorem Finishes.get_bind {f : σ → Production σ β} (h : Finishes (f s) s postf) :
    Finishes (get >>= f) s postf := by
  obtain ⟨r, t, hrun, hpost⟩ := h
  exact ⟨r, t, hrun.get_bind, hpost⟩

theorem Finishes.modify {g : σ → σ} {post : Option Unit → σ → Prop} (h : post (some ()) (g s)) :
    Finishes (modify g) s post := .of_yields (.modify g s) h

/-- First `p`, then what follows on its result; a failure of `p` is the end. -/
theorem Finishes.bind (h : Finishes p s post) (hsome : ∀ a t, post (some a) t →
    Finishes (f a) t postf) (hnone : ∀ t, post none t → postf none t) :
    Finishes (p >>= f) s postf := by
  obtain ⟨_ | a, t, hrun, hpost⟩ := h
  · exact ⟨none, t, hrun.bind_fail, hnone t hpost⟩
  · obtain ⟨r, u, hrest, hpost'⟩ := hsome a t hpost
    exact ⟨r, u, hrun.bind hrest, hpost'⟩

theorem Finishes.attempt {post : Option (Option α) → σ → Prop}
    (h : Finishes p s fun r t => post (some r) t) : Finishes (attempt p) s post := by
  obtain ⟨r, t, hrun, hpost⟩ := h
  exact ⟨some r, t, hrun.attempt, hpost⟩

theorem Finishes.within {view : τ → σ} {put : σ → τ → τ} {x : τ} {post : Option α → τ → Prop}
    (h : Finishes p (view x) fun r t => post r (put t x)) :
    Finishes (within view put p) x post := by
  obtain ⟨r, t, hrun, hpost⟩ := h
  exact ⟨r, put t x, hrun.within, hpost⟩

end

instance : LawfulMonad (Production σ) := by
  refine LawfulMonad.mk' _ (fun p => ?_) (fun _ _ => rfl) fun p f g => ?_
  · funext n s
    show (match p n s with
      | none => none
      | some (none, t) => some (none, t)
      | some (some a, t) => some (some a, t)) = p n s
    cases p n s with
    | none => rfl
    | some out => obtain ⟨_ | a, t⟩ := out <;> rfl
  · funext n s
    simp only [bind_eq]
    cases p n s with
    | none => rfl
    | some out => obtain ⟨_ | a, t⟩ := out <;> rfl

/-! ## Loops -/

/-- Turns of a loop that go on lead from `b` in the state `s` to `b'` in the state `t`. -/
inductive Turns (body : β → Production σ (ForInStep β)) (b : β) (s : σ) : β → σ → Prop
  | start : Turns body b s b s
  | turn {b' b'' : β} {t u : σ} : Turns body b s b' t →
      Yields (body b') t (some (.yield b'')) u → Turns body b s b'' u

/-- What every turn that goes on keeps holds wherever the turns lead. -/
theorem Turns.invariant {body : β → Production σ (ForInStep β)} {b b' : β} {s t : σ}
    (inv : β → σ → Prop) (hstep : ∀ b' t b'' u, Turns body b s b' t → inv b' t →
      Yields (body b') t (some (.yield b'')) u → inv b'' u)
    (hstart : inv b s) (h : Turns body b s b' t) : inv b' t := by
  induction h with
  | start => exact hstart
  | turn hreach hrun ih => exact hstep _ _ _ _ hreach ih hrun

/-- After a turn that goes on the invariant holds and the measure is below `k`; after any other
one the loop has ended, with `post`. -/
def TurnPost (inv : β → σ → Prop) (measure : σ → Nat) (k : Nat) (post : Option β → σ → Prop) :
    Option (ForInStep β) → σ → Prop
  | some (.yield b), t => inv b t ∧ measure t < k
  | some (.done b), t => post (some b) t
  | none, t => post none t

/-- Induction on the measure. -/
theorem Finishes.loop {body : β → Production σ (ForInStep β)} {b : β} {s : σ}
    {post : Option β → σ → Prop} (inv : β → σ → Prop) (measure : σ → Nat)
    (hbody : ∀ b' t, Turns body b s b' t → inv b' t →
      Finishes (body b') t (TurnPost inv measure (measure t) post))
    (hinv : inv b s) : Finishes (loop body b) s post := by
  have hall : ∀ k b' t, measure t = k → Turns body b s b' t → inv b' t →
      ∃ r u, Loops body b' t r u ∧ post r u := by
    intro k
    induction k using Nat.strongRecOn with
    | ind k ih =>
      intro b' t hk hreach ht
      obtain ⟨r, u, hrun, hpost⟩ := hbody b' t hreach ht
      match r, hrun, hpost with
      | some (.yield b''), hrun, hpost =>
        obtain ⟨r, v, hrest, hv⟩ := ih (measure u) (hk ▸ hpost.2) b'' u rfl (.turn hreach hrun)
          hpost.1
        exact ⟨r, v, .turn hrun hrest, hv⟩
      | some (.done b''), hrun, hpost => exact ⟨some b'', u, .done hrun, hpost⟩
      | none, hrun, hpost => exact ⟨none, u, .fail hrun, hpost⟩
  obtain ⟨r, t, hrun, hpost⟩ := hall (measure s) b s rfl .start hinv
  exact ⟨r, t, hrun.yields, hpost⟩

end Production
