import Mathlib.Tactic.TypeStar

/-!
# Runs of a guarded transition system

`step s a` is the state after action `a`, `none` where the action is not enabled. A run takes
actions one after the other; `ok s a` is a condition on the actions it takes.

What every allowed step preserves holds along every run (`Reaches.inv`).
-/

namespace Run

variable {S A : Type*} (step : S → A → Option S)

/-- A run from `s` on which every action meets `ok` in the state it is taken in. -/
inductive Reaches (ok : S → A → Prop) (s : S) : S → Prop
  | refl : Reaches ok s s
  | tail {t u : S} (h : Reaches ok s t) (a : A) (hok : ok t a) (hs : step t a = some u) :
    Reaches ok s u

variable {step} {ok ok' : S → A → Prop} {s t u : S}

/-- **The invariant rule.** Induction on the run. -/
theorem Reaches.inv {P : S → Prop} (h : Reaches step ok s t) (hinit : P s)
    (hstep : ∀ x a y, P x → ok x a → step x a = some y → P y) : P t := by
  induction h with
  | refl => exact hinit
  | tail _ a hok hs ih => exact hstep _ a _ ih hok hs

theorem Reaches.trans (h₁ : Reaches step ok s t) (h₂ : Reaches step ok t u) :
    Reaches step ok s u := by
  induction h₂ with
  | refl => exact h₁
  | tail _ a hok hs ih => exact ih.tail a hok hs

theorem Reaches.mono (h : Reaches step ok s t) (himp : ∀ x a, ok x a → ok' x a) :
    Reaches step ok' s t := by
  induction h with
  | refl => exact .refl
  | tail _ a hok hs ih => exact ih.tail a (himp _ _ hok) hs

/-- One step is a run. -/
theorem Reaches.one (a : A) (hok : ok s a) (hs : step s a = some t) : Reaches step ok s t :=
  .tail .refl a hok hs

/-! ## Properties along a list of actions -/

section
variable (step)

/-- The state after the actions, up to the first that is not enabled. -/
def exec (s : S) : List A → S
  | [] => s
  | a :: as =>
    match step s a with
    | some t => exec t as
    | none => s

/-- `P` holds in every state that the actions lead through. -/
def Along (P : S → Prop) (s : S) : List A → Prop
  | [] => P s
  | a :: as =>
    P s ∧
      match step s a with
      | some t => Along P t as
      | none => True

/-- Every action taken meets `ok` in the state it is taken in. -/
def Meets (ok : S → A → Prop) (s : S) : List A → Prop
  | [] => True
  | a :: as =>
    match step s a with
    | some t => ok s a ∧ Meets ok t as
    | none => True

instance decidableMeets {ok : S → A → Prop} [∀ s a, Decidable (ok s a)] :
    ∀ (s : S) (as : List A), Decidable (Meets step ok s as)
  | _, [] => isTrue trivial
  | s, a :: as =>
    show Decidable (match step s a with
      | some t => ok s a ∧ Meets step ok t as
      | none => True) from
      match step s a with
      | some t => @instDecidableAnd _ _ _ (decidableMeets t as)
      | none => isTrue trivial

end

/-- What every step keeps holds after any actions. -/
theorem inv_exec {P : S → Prop} (hstep : ∀ s a t, P s → step s a = some t → P t)
    (as : List A) (h : P s) : P (exec step s as) := by
  induction as generalizing s with
  | nil => exact h
  | cons a as ih =>
    unfold Run.exec
    cases hs : step s a with
    | none => exact h
    | some t => exact ih (hstep s a t h hs)

theorem Along.exec {P : S → Prop} {as : List A} (h : Along step P s as) :
    P (exec step s as) := by
  induction as generalizing s with
  | nil => exact h
  | cons a as ih =>
    unfold Along at h
    unfold Run.exec
    cases hs : step s a with
    | none => exact h.1
    | some t =>
      rw [hs] at h
      exact ih h.2

theorem Meets.reaches {as : List A} (h : Meets step ok s as) :
    Reaches step ok s (exec step s as) := by
  induction as generalizing s with
  | nil => exact .refl
  | cons a as ih =>
    unfold Meets at h
    unfold Run.exec
    cases hs : step s a with
    | none => exact .refl
    | some t =>
      rw [hs] at h
      exact (Reaches.one a h.1 hs).trans (ih h.2)

/-- Two conditions that agree in every state of a run are met by the same runs. Induction on the
actions. -/
theorem Meets.congr {p q : S → A → Prop} {as : List A} (h : Meets step ok s as)
    (hpq : ∀ t a, Reaches step ok s t → (p t a ↔ q t a)) :
    Meets step p s as ↔ Meets step q s as := by
  induction as generalizing s with
  | nil => exact Iff.rfl
  | cons a as ih =>
    unfold Meets at h ⊢
    cases hs : step s a with
    | none => exact Iff.rfl
    | some t =>
      rw [hs] at h
      exact and_congr (hpq s a .refl)
        (ih h.2 fun u b hu => hpq u b ((Reaches.one a h.1 hs).trans hu))

/-- **The progress rule.** `P n` says that at most `n` of the counted actions are left to take;
every action is enabled, and none makes that number grow. Induction on the actions. -/
theorem Meets.progress {P : Nat → S → Prop} (counted : A → Bool)
    (henabled : ∀ s a, (step s a).isSome)
    (hstep : ∀ n s a t, P n s → ok s a → step s a = some t →
      P (n - if counted a then 1 else 0) t)
    {n : Nat} {as : List A} (h : Meets step ok s as) (hP : P n s) :
    P (n - as.countP counted) (exec step s as) := by
  induction as generalizing s n with
  | nil => exact hP
  | cons a as ih =>
    obtain ⟨t, ht⟩ := Option.isSome_iff_exists.mp (henabled s a)
    unfold Meets at h
    unfold Run.exec
    rw [ht] at h ⊢
    have hrest := ih h.2 (hstep n s a t hP h.1 ht)
    rwa [Nat.sub_sub, Nat.add_comm, ← List.countP_cons] at hrest

/-- **When a property holds all along a run.** If a step from a state with the property leads to
a state with it exactly when the step meets `ok`, then the property holds in every state of a
run exactly when every step of the run meets `ok`. Induction on the actions; `env` is what the
environment promises of its steps, and `W` an invariant they then keep in any case. -/
theorem along_iff_meets_of {P W : S → Prop} {env : S → A → Prop}
    (hW : ∀ s a t, W s → env s a → step s a = some t → W t)
    (hstep : ∀ s a t, W s → P s → env s a → step s a = some t → (P t ↔ ok s a)) (as : List A)
    (henv : Meets step env s as) (hs : W s) (hP : P s) :
    Along step P s as ↔ Meets step ok s as := by
  induction as generalizing s with
  | nil => exact iff_of_true hP trivial
  | cons a as ih =>
    unfold Meets at henv
    unfold Along Meets
    cases ht : step s a with
    | none => exact iff_of_true ⟨hP, trivial⟩ trivial
    | some t =>
      rw [ht] at henv
      have hiff := hstep s a t hs hP henv.1 ht
      have hWt := hW s a t hs henv.1 ht
      constructor
      · rintro ⟨-, halong⟩
        have hPt : P t := by
          cases as with
          | nil => exact halong
          | cons b bs => exact halong.1
        exact ⟨hiff.mp hPt, (ih henv.2 hWt hPt).mp halong⟩
      · rintro ⟨hok, hmeets⟩
        exact ⟨hP, (ih henv.2 hWt (hiff.mpr hok)).mpr hmeets⟩

/-- **When the parts of a state agree all along a run.** `Sim` is more than `P`: a step that meets
`ok` keeps it, and a step that does not breaks `P`. Induction on the actions; `env` is what the
environment promises of its steps. -/
theorem along_iff_meets_while_of {P : S → Prop} {env : S → A → Prop} (Sim : S → Prop)
    (hsim : ∀ s, Sim s → P s)
    (hgood : ∀ s a t, Sim s → env s a → step s a = some t → ok s a → Sim t)
    (hbad : ∀ s a t, Sim s → env s a → step s a = some t → ¬ ok s a → ¬ P t) (as : List A)
    (henv : Meets step env s as) (hs : Sim s) : Along step P s as ↔ Meets step ok s as := by
  induction as generalizing s with
  | nil => exact iff_of_true (hsim s hs) trivial
  | cons a as ih =>
    unfold Meets at henv
    unfold Along Meets
    cases ht : step s a with
    | none => exact iff_of_true ⟨hsim s hs, trivial⟩ trivial
    | some t =>
      rw [ht] at henv
      by_cases hok : ok s a
      · have ht' := ih henv.2 (hgood s a t hs henv.1 ht hok)
        exact ⟨fun h => ⟨hok, ht'.mp h.2⟩, fun h => ⟨hsim s hs, ht'.mpr h.2⟩⟩
      · refine iff_of_false (fun h => hbad s a t hs henv.1 ht hok ?_) fun h => hok h.1
        cases as with
        | nil => exact h.2
        | cons b bs => exact h.2.1

theorem meets_true (as : List A) : Meets step (fun _ _ => True) s as := by
  induction as generalizing s with
  | nil => trivial
  | cons a as ih =>
    unfold Meets
    cases step s a with
    | none => trivial
    | some t => exact ⟨trivial, ih⟩

/-- The same where nothing is asked of the environment. -/
theorem along_iff_meets {P W : S → Prop} (hW : ∀ s a t, W s → step s a = some t → W t)
    (hstep : ∀ s a t, W s → P s → step s a = some t → (P t ↔ ok s a)) (as : List A)
    (hs : W s) (hP : P s) : Along step P s as ↔ Meets step ok s as :=
  along_iff_meets_of (fun s a t hw _ => hW s a t hw) (fun s a t hw hp _ => hstep s a t hw hp) as
    (meets_true as) hs hP

/-- The same where nothing is asked of the environment. -/
theorem along_iff_meets_while {P : S → Prop} (Sim : S → Prop) (hsim : ∀ s, Sim s → P s)
    (hgood : ∀ s a t, Sim s → step s a = some t → ok s a → Sim t)
    (hbad : ∀ s a t, Sim s → step s a = some t → ¬ ok s a → ¬ P t) (as : List A) (hs : Sim s) :
    Along step P s as ↔ Meets step ok s as :=
  along_iff_meets_while_of Sim hsim (fun s a t h _ => hgood s a t h)
    (fun s a t h _ => hbad s a t h) as (meets_true as) hs

/-- What holds along a run of which every step meets `ok`. `I` is an invariant of these steps. -/
theorem Meets.along {P : S → Prop} {env : S → A → Prop} (I : S → Prop) (hI : ∀ s, I s → P s)
    (hstep : ∀ s a t, I s → env s a → ok s a → step s a = some t → I t) {as : List A}
    (h : Meets step ok s as) (henv : Meets step env s as) (hs : I s) : Along step P s as := by
  induction as generalizing s with
  | nil => exact hI s hs
  | cons a as ih =>
    unfold Meets at h henv
    unfold Along
    cases ht : step s a with
    | none => exact ⟨hI s hs, trivial⟩
    | some t =>
      rw [ht] at h henv
      exact ⟨hI s hs, ih h.2 henv.2 (hstep s a t hs henv.1 h.1 ht)⟩

/-- **What is lost for good.** While the steps meet `ok` the state is in `I`; a step that does not
leads into `B`, which no step leaves. Induction on the actions. -/
theorem exec_of_not_meets {B : S → Prop} {env : S → A → Prop} (I : S → Prop)
    (hgood : ∀ s a t, I s → env s a → step s a = some t → ok s a → I t)
    (hbad : ∀ s a t, I s → env s a → step s a = some t → ¬ ok s a → B t)
    (hlost : ∀ s a t, B s → env s a → step s a = some t → B t) {as : List A}
    (henv : Meets step env s as) (hs : I s) (h : ¬ Meets step ok s as) :
    B (exec step s as) := by
  induction as generalizing s with
  | nil => exact absurd trivial h
  | cons a as ih =>
    unfold Meets at h henv
    unfold Run.exec
    cases ht : step s a with
    | none =>
      rw [ht] at h
      exact absurd trivial h
    | some t =>
      rw [ht] at h henv
      by_cases hok : ok s a
      · exact ih henv.2 (hgood s a t hs henv.1 ht hok) fun hrest => h ⟨hok, hrest⟩
      · exact henv.2.reaches.inv (hbad s a t hs henv.1 ht hok) hlost

end Run
