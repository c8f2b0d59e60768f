import OpenClickNP.Lib.Production

/-!
# Invariants of productions

`Triple P p Q` is partial correctness: a run of `p` from where `P` holds ends, if it does, with `Q`
of its result and its state. `Keeps I p post` is the case of an invariant: `I` holds at the end,
after a failure too, and `post` of what is returned. There is one rule for each combinator; a loop
has an invariant of its own for the value it carries.
-/

namespace Production

variable {σ τ α β : Type}

def Triple (P : σ → Prop) (p : Production σ α) (Q : Option α → σ → Prop) : Prop :=
  ∀ n s r t, P s → p n s = some (r, t) → Q r t

section
variable {P : σ → Prop} {p : Production σ α} {f : α → Production σ β}
variable {Q Q' : Option α → σ → Prop} {R : Option β → σ → Prop}

theorem Triple.mono (h : Triple P p Q) (himp : ∀ r t, Q r t → Q' r t) : Triple P p Q' :=
  fun n s r t hs hrun => himp r t (h n s r t hs hrun)

theorem Triple.bind (hp : Triple P p Q) (hsome : ∀ a, Triple (Q (some a)) (f a) R)
    (hnone : ∀ t, Q none t → R none t) : Triple P (p >>= f) R := by
  intro n s r t hs hrun
  rcases bind_cases hrun with ⟨hfirst, rfl⟩ | ⟨a, u, hfirst, hrest⟩
  · exact hnone t (hp n s _ _ hs hfirst)
  · exact hsome a n u r t (hp n s _ _ hs hfirst) hrest

theorem Triple.get_bind {f : σ → Production σ β} (h : ∀ s, P s → Triple (fun t => t = s) (f s) R) :
    Triple P (get >>= f) R := fun n s r t hs hrun => h s hs n s r t rfl hrun

theorem Triple.attempt {Q : Option (Option α) → σ → Prop} (h : Triple P p fun r t => Q (some r) t) :
    Triple P (attempt p) Q := by
  intro n s o t hs hrun
  obtain ⟨r, hp, rfl⟩ := attempt_cases hrun
  exact h n s r t hs hp

/-- What holds of the part that `p` runs on. -/
theorem Triple.within {view : τ → σ} {put : σ → τ → τ} {x : τ} {Q : Option α → τ → Prop}
    (hx : P (view x)) (h : Triple P p fun r s => Q r (put s x)) :
    Triple (fun y => y = x) (within view put p) Q := by
  rintro n y r z rfl hrun
  obtain ⟨t, hp, rfl⟩ := within_cases hrun
  exact h n _ r t hx hp

end

/-! ## Invariants -/

def Keeps (I : σ → Prop) (p : Production σ α) (post : α → Prop) : Prop :=
  Triple I p fun r t => I t ∧ ∀ a, r = some a → post a

section
variable {I : σ → Prop} {p q : Production σ α} {f : α → Production σ β} {a : α}
variable {post post' : α → Prop} {postf : β → Prop}

theorem Keeps.mono (h : Keeps I p post) (himp : ∀ a, post a → post' a) : Keeps I p post' := by
  intro n s r t hs hrun
  obtain ⟨ht, hpost⟩ := h n s r t hs hrun
  exact ⟨ht, fun a ha => himp a (hpost a ha)⟩

theorem Keeps.pure (h : post a) : Keeps I (pure a) post := by
  intro n s r t hs hrun
  cases hrun
  exact ⟨hs, fun _ ha => Option.some.inj ha ▸ h⟩

theorem Keeps.fail : Keeps I (fail : Production σ α) post := by
  intro n s r t hs hrun
  cases hrun
  exact ⟨hs, nofun⟩

theorem Keeps.bind (hp : Keeps I p post) (hf : ∀ a, post a → Keeps I (f a) postf) :
    Keeps I (p >>= f) postf :=
  Triple.bind hp (fun a n s r t hs hrun => hf a (hs.2 a rfl) n s r t hs.1 hrun)
    fun _ ht => ⟨ht.1, nofun⟩

theorem Keeps.get_bind {f : σ → Production σ β} (h : ∀ s, I s → Keeps I (f s) postf) :
    Keeps I (get >>= f) postf := fun n s r t hs hrun => h s hs n s r t hs hrun

theorem Keeps.modify {g : σ → σ} (h : ∀ s, I s → I (g s)) {post : Unit → Prop} (hpost : post ()) :
    Keeps I (modify g) post := by
  intro n s r t hs hrun
  cases hrun
  exact ⟨h s hs, fun _ _ => hpost⟩

theorem Keeps.attempt (h : Keeps I p post) :
    Keeps I (attempt p) fun o => ∀ a, o = some a → post a :=
  Triple.attempt (Triple.mono h fun _ _ ht => ⟨ht.1, fun _ ho => Option.some.inj ho ▸ ht.2⟩)

theorem Keeps.ite {c : Prop} [Decidable c] (hp : c → Keeps I p post)
    (hq : ¬ c → Keeps I q post) : Keeps I (if c then p else q) post := by
  by_cases hc : c
  · rw [if_pos hc]
    exact hp hc
  · rw [if_neg hc]
    exact hq hc

end

/-! ## Loops -/

/-- What a turn carries on. -/
def carried : ForInStep β → β
  | .yield b => b
  | .done b => b

/-- Induction on the turns. -/
theorem Keeps.loop {I : σ → Prop} {body : β → Production σ (ForInStep β)} {b : β} {P : β → Prop}
    (hbody : ∀ b, P b → Keeps I (body b) fun step => P (carried step)) (hb : P b) :
    Keeps I (loop body b) P := by
  have hturns : ∀ k b, P b → Keeps I (turns body k b) P := by
    intro k
    induction k with
    | zero => exact fun _ _ _ _ _ _ _ hrun => by cases hrun
    | succ k ih =>
      refine fun b hb => (hbody b hb).bind fun step hstep => ?_
      cases step with
      | yield b' => exact ih b' hstep
      | done b' => exact .pure hstep
  exact fun n s r t hs hrun => hturns n b hb n s r t hs hrun

end Production
