import OpenClickNP.Lib.Production

/-!
# Productions side by side

Two productions that differ in what they are given, run from states that correspond. Some states
are bad: `Reports bad p` says that `p` does not leave them, and that it ends in one when it fails.
`Mirrors bad R p p' V S` adds that every other run of `p`, from a state that `R` relates to one of
`p'`, is matched by a run of `p'` with a result that is alike. There is one rule for each
combinator.
-/

/-- Values that count as the same. -/
structure Likeness (α : Type) where
  rel : α → α → Prop
  refl : ∀ a, rel a a

namespace Likeness

variable {α β : Type}

def any : Likeness α := ⟨fun _ _ => True, fun _ => trivial⟩

/-- The same as far as `view` shows. -/
def of (view : α → β) : Likeness α := ⟨fun a a' => view a = view a', fun _ => rfl⟩

def option (V : Likeness α) : Likeness (Option α) :=
  ⟨Option.Rel V.rel, fun o => by
    cases o with
    | none => exact .none
    | some a => exact .some (V.refl a)⟩

/-- A turn of a loop that goes on like another, or breaks like it. -/
inductive Steps (V : Likeness α) : ForInStep α → ForInStep α → Prop
  | yield {a a' : α} (h : V.rel a a') : Steps V (.yield a) (.yield a')
  | done {a a' : α} (h : V.rel a a') : Steps V (.done a) (.done a')

def step (V : Likeness α) : Likeness (ForInStep α) :=
  ⟨Steps V, fun b => by
    cases b with
    | yield a => exact .yield (V.refl a)
    | done a => exact .done (V.refl a)⟩

end Likeness

namespace Production

variable {σ σ' τ τ' α β : Type}

/-- Runs do not leave the bad states, and a run that fails ends in one. -/
structure Reports (bad : σ → Prop) (p : Production σ α) : Prop where
  keeps : ∀ n s r t, p n s = some (r, t) → bad s → bad t
  fails : ∀ n s t, p n s = some (none, t) → bad t

/-- Runs that do not end in a bad state are matched. -/
structure Mirrors (bad : σ → Prop) (R : σ → σ' → Prop) (p : Production σ α)
    (p' : Production σ' α) (V : Likeness α) (S : α → σ → σ' → Prop) : Prop
    extends Reports bad p where
  mirror : ∀ n s s' a t, R s s' → p n s = some (some a, t) → ¬ bad t →
    ∃ a' t', p' n s' = some (some a', t') ∧ V.rel a a' ∧ S a t t'

section
variable {bad : σ → Prop} {p q : Production σ α} {f : α → Production σ β}

theorem Reports.bind (hp : Reports bad p) (hf : ∀ a, Reports bad (f a)) :
    Reports bad (p >>= f) where
  keeps n s r t hrun hs := by
    rcases bind_cases hrun with ⟨hfirst, -⟩ | ⟨a, u, hfirst, hrest⟩
    · exact hp.fails n s _ hfirst
    · exact (hf a).keeps n u r t hrest (hp.keeps n s _ u hfirst hs)
  fails n s t hrun := by
    rcases bind_cases hrun with ⟨hfirst, -⟩ | ⟨a, u, hfirst, hrest⟩
    · exact hp.fails n s _ hfirst
    · exact (hf a).fails n u t hrest

theorem Reports.ite {c : Prop} [Decidable c] (hp : Reports bad p) (hq : Reports bad q) :
    Reports bad (if c then p else q) := by
  split
  · exact hp
  · exact hq

/-- A production that runs in one step. -/
theorem Reports.of_step {g : σ → α} {k : σ → σ} (hp : ∀ n s, p n s = some (some (g s), k s))
    (hkeeps : ∀ s, bad s → bad (k s)) : Reports bad p where
  keeps n s r t hrun hs := by
    rw [hp] at hrun
    cases hrun
    exact hkeeps s hs
  fails n s t hrun := by
    rw [hp] at hrun
    cases hrun

/-- A production that never ends. -/
theorem Reports.endless (h : ∀ n s, p n s = none) : Reports bad p where
  keeps n s r t hrun _ := by
    rw [h] at hrun
    cases hrun
  fails n s t hrun := by
    rw [h] at hrun
    cases hrun

theorem Reports.pure (a : α) : Reports bad (pure a) := .of_step (fun _ _ => rfl) fun _ => id

/-- Induction on the turns. -/
theorem Reports.loop {body : β → Production σ (ForInStep β)} (hbody : ∀ b, Reports bad (body b))
    (b : β) : Reports bad (loop body b) := by
  have hturns : ∀ k b, Reports bad (turns body k b) := by
    intro k
    induction k with
    | zero => exact fun _ => .endless fun _ _ => rfl
    | succ k ih =>
      refine fun b => (hbody b).bind fun step => ?_
      cases step with
      | yield b' => exact ih b'
      | done b' => exact .pure b'
  exact ⟨fun n s r t => (hturns n b).keeps n s r t, fun n s t => (hturns n b).fails n s t⟩

end

section
variable {bad : σ → Prop} {R R' : σ → σ' → Prop} {p q : Production σ α} {p' q' : Production σ' α}
variable {V : Likeness α} {S S' : α → σ → σ' → Prop} {W : Likeness β} {T : β → σ → σ' → Prop}
variable {f : α → Production σ β} {f' : α → Production σ' β} {a a' : α}

theorem Mirrors.weaken (h : Mirrors bad R p p' V S) (hR : ∀ s s', R' s s' → R s s')
    (hS : ∀ a s s', S a s s' → S' a s s') : Mirrors bad R' p p' V S' where
  toReports := h.toReports
  mirror n s s' a t hs hrun ht := by
    obtain ⟨a', t', hrun', hV, hT⟩ := h.mirror n s s' a t (hR s s' hs) hrun ht
    exact ⟨a', t', hrun', hV, hS a t t' hT⟩

/-- A likeness that tells less apart. -/
theorem Mirrors.relike {V' : Likeness α} (h : Mirrors bad R p p' V S)
    (hV : ∀ a a', V.rel a a' → V'.rel a a') : Mirrors bad R p p' V' S where
  toReports := h.toReports
  mirror n s s' a t hs hrun ht := by
    obtain ⟨a', t', hrun', hlike, hT⟩ := h.mirror n s s' a t hs hrun ht
    exact ⟨a', t', hrun', hV a a' hlike, hT⟩

/-- A production that always ends in a bad state. -/
theorem Mirrors.dead (h : ∀ n s r t, p n s = some (r, t) → bad t) : Mirrors bad R p p' V S where
  keeps n s r t hrun _ := h n s r t hrun
  fails n s t hrun := h n s none t hrun
  mirror n s _ _ t _ hrun ht := absurd (h n s _ t hrun) ht

/-- A production that is not reached. -/
theorem Mirrors.unreached (h : Reports bad p) (hR : ∀ s s', ¬ R s s') :
    Mirrors bad R p p' V S where
  toReports := h
  mirror _ s s' _ _ hs := absurd hs (hR s s')

/-- Productions that run in one step. -/
theorem Mirrors.of_step {g : σ → α} {k : σ → σ} {g' : σ' → α} {k' : σ' → σ'}
    (hp : ∀ n s, p n s = some (some (g s), k s))
    (hp' : ∀ n s, p' n s = some (some (g' s), k' s)) (hkeeps : ∀ s, bad s → bad (k s))
    (h : ∀ s s', R s s' → ¬ bad (k s) → V.rel (g s) (g' s') ∧ S (g s) (k s) (k' s')) :
    Mirrors bad R p p' V S where
  toReports := .of_step hp hkeeps
  mirror n s s' a t hs hrun ht := by
    rw [hp] at hrun
    cases hrun
    obtain ⟨hV, hS⟩ := h s s' hs ht
    exact ⟨g' s', k' s', hp' n s', hV, hS⟩

theorem Mirrors.pure (hV : V.rel a a') (hS : ∀ s s', R s s' → S a s s') :
    Mirrors bad R (pure a) (pure a') V S :=
  .of_step (fun _ _ => rfl) (fun _ _ => rfl) (fun _ => id) fun s s' hs _ => ⟨hV, hS s s' hs⟩

theorem Mirrors.bind (hp : Mirrors bad R p p' V S)
    (hf : ∀ a a', V.rel a a' → Mirrors bad (S a) (f a) (f' a') W T) :
    Mirrors bad R (p >>= f) (p' >>= f') W T where
  toReports := hp.toReports.bind fun a => (hf a a (V.refl a)).toReports
  mirror n s s' b t hs hrun ht := by
    rcases bind_cases hrun with ⟨-, hnone⟩ | ⟨a, u, hfirst, hrest⟩
    · cases hnone
    · -- `f a` would not leave a bad state
      have hu : ¬ bad u := fun hbad => ht ((hf a a (V.refl a)).keeps n u _ t hrest hbad)
      obtain ⟨a', u', hfirst', hV, hS⟩ := hp.mirror n s s' a u hs hfirst hu
      obtain ⟨b', t', hrest', hW, hT⟩ := (hf a a' hV).mirror n u u' b t hS hrest ht
      refine ⟨b', t', ?_, hW, hT⟩
      rw [bind_eq, hfirst']
      exact hrest'

theorem Mirrors.ite {c c' : Prop} [Decidable c] [Decidable c'] (hc : c ↔ c')
    (hp : c → Mirrors bad R p p' V S) (hq : ¬ c → Mirrors bad R q q' V S) :
    Mirrors bad R (if c then p else q) (if c' then p' else q') V S := by
  by_cases h : c
  · rw [if_pos h, if_pos (hc.mp h)]
    exact hp h
  · rw [if_neg h, if_neg (mt hc.mpr h)]
    exact hq h

/-- A failure is reported, so that the attempt is matched only where it succeeds. -/
theorem Mirrors.attempt (h : Mirrors bad R p p' V S) :
    Mirrors bad R (attempt p) (attempt p') V.option fun o s s' => ∃ a, o = some a ∧ S a s s' where
  keeps n s o t hrun hs := by
    obtain ⟨r, hp, -⟩ := attempt_cases hrun
    exact h.keeps n s r t hp hs
  fails n s t hrun := by
    obtain ⟨r, -, hnone⟩ := attempt_cases hrun
    cases hnone
  mirror n s s' o t hs hrun ht := by
    obtain ⟨r, hp, ho⟩ := attempt_cases hrun
    obtain rfl := Option.some.inj ho
    cases o with
    | none => exact absurd (h.fails n s t hp) ht
    | some a =>
      obtain ⟨a', t', hrun', hV, hS⟩ := h.mirror n s s' a t hs hp ht
      refine ⟨some a', t', ?_, .some hV, a, rfl, hS⟩
      unfold Production.attempt
      rw [hrun']

/-- Productions on parts of the states. -/
theorem Mirrors.within {view : τ → σ} {put : σ → τ → τ} {view' : τ' → σ'} {put' : σ' → τ' → τ'}
    {ill : τ → Prop} {Q : τ → τ' → Prop} {U : α → τ → τ' → Prop} (h : Mirrors bad R p p' V S)
    (hview : ∀ x, ill x → bad (view x)) (hput : ∀ s x, bad s → ill (put s x))
    (hQ : ∀ x x', Q x x' → R (view x) (view' x'))
    (hU : ∀ a x x' t t', Q x x' → S a t t' → U a (put t x) (put' t' x')) :
    Mirrors ill Q (within view put p) (within view' put' p') V U where
  keeps n x r y hrun hx := by
    obtain ⟨t, hp, rfl⟩ := within_cases hrun
    exact hput _ _ (h.keeps n _ r t hp (hview x hx))
  fails n x y hrun := by
    obtain ⟨t, hp, rfl⟩ := within_cases hrun
    exact hput _ _ (h.fails n _ t hp)
  mirror n x x' a y hx hrun hy := by
    obtain ⟨t, hp, rfl⟩ := within_cases hrun
    have ht : ¬ bad t := fun hbad => hy (hput t x hbad)
    obtain ⟨a', t', hrun', hV, hS⟩ := h.mirror n _ _ a t (hQ x x' hx) hp ht
    refine ⟨a', put' t' x', ?_, hV, hU a x x' t t' hx hS⟩
    unfold Production.within
    rw [hrun']

end

/-! ## Loops -/

/-- Where a loop is between two turns, and behind the last. -/
def between (I J : σ → σ' → Prop) : ForInStep β → σ → σ' → Prop
  | .yield _ => I
  | .done _ => J

/-- Induction on the turns. -/
theorem Mirrors.loop {bad : σ → Prop} {I J : σ → σ' → Prop} {V : Likeness β}
    {body : β → Production σ (ForInStep β)} {body' : β → Production σ' (ForInStep β)} {b b' : β}
    (hbody : ∀ b b', V.rel b b' → Mirrors bad I (body b) (body' b') V.step (between I J))
    (hb : V.rel b b') : Mirrors bad I (loop body b) (loop body' b') V fun _ => J := by
  have hturns : ∀ k b b', V.rel b b' →
      Mirrors bad I (turns body k b) (turns body' k b') V fun _ => J := by
    intro k
    induction k with
    | zero =>
      exact fun _ _ _ => ⟨.endless fun _ _ => rfl, fun _ _ _ _ _ _ hrun _ => by cases hrun⟩
    | succ k ih =>
      refine fun b b' hb => (hbody b b' hb).bind fun step step' hstep => ?_
      cases hstep with
      | yield h => exact ih _ _ h
      | done h => exact .pure h fun _ _ => id
  exact ⟨⟨fun n s r t => (hturns n b b' hb).keeps n s r t,
    fun n s t => (hturns n b b' hb).fails n s t⟩,
    fun n s s' a t => (hturns n b b' hb).mirror n s s' a t⟩

end Production
