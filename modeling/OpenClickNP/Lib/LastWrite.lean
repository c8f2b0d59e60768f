import Mathlib.Data.List.Induction
import Mathlib.Logic.Function.Basic

/-!
# Slots that requests write

Each request writes one slot, or none. What a slot holds behind some requests is what the last of
them has put there that wrote it (`foldl_write`); so it is for a state that has slots (`abs_foldl`).
-/

namespace LastWrite

variable {ρ ι α : Type*} [DecidableEq ι] (writes : ρ → Option (ι × α))

/-- The slots behind a request. -/
def write (slots : ι → α) (r : ρ) : ι → α :=
  (writes r).elim slots fun w => Function.update slots w.1 w.2

/-- What a request puts in the slot. -/
def puts (i : ι) (r : ρ) : Option α := (writes r).bind fun w => if w.1 = i then some w.2 else none

/-- What the last request puts in the slot that writes it. -/
def last (rs : List ρ) (i : ι) : Option α := rs.reverse.findSome? (puts writes i)

variable {writes} {i : ι}

theorem last_concat (rs : List ρ) (r : ρ) :
    last writes (rs ++ [r]) i = (puts writes i r).or (last writes rs i) := by
  unfold last
  rw [List.reverse_concat, List.findSome?_cons]
  cases puts writes i r <;> rfl

theorem write_apply (slots : ι → α) (r : ρ) :
    write writes slots r i = (puts writes i r).getD (slots i) := by
  unfold write puts
  cases writes r with
  | none => rfl
  | some w =>
    by_cases hi : w.1 = i
    · subst hi
      simp
    · simp [hi, Ne.symm hi]

/-- **A slot holds what was put there last.** Induction on the requests, from the back. -/
theorem foldl_write (slots : ι → α) (rs : List ρ) (i : ι) :
    rs.foldl (write writes) slots i = (last writes rs i).getD (slots i) := by
  induction rs using List.reverseRecOn with
  | nil => rfl
  | append_singleton rs r ih =>
    rw [List.foldl_append, List.foldl_cons, List.foldl_nil, last_concat, write_apply, ih]
    cases puts writes i r <;> rfl

/-- The same through an abstraction `abs` of a state that an update changes like a write. -/
theorem abs_foldl {σ : Type*} {update : σ → ρ → σ} {abs : σ → ι → α}
    (habs : ∀ st r, abs (update st r) = write writes (abs st) r) (st : σ) (rs : List ρ) (i : ι) :
    abs (rs.foldl update st) i = (last writes rs i).getD (abs st i) := by
  have hfold : abs (rs.foldl update st) = rs.foldl (write writes) (abs st) := by
    induction rs generalizing st with
    | nil => rfl
    | cons r rs ih => rw [List.foldl_cons, List.foldl_cons, ih, habs]
  rw [hfold, foldl_write]

/-- What a slot holds that was empty at the start; a request may empty it again. -/
def held (writes : ρ → Option (ι × Option α)) (rs : List ρ) (i : ι) : Option α :=
  (last writes rs i).join

theorem abs_foldl_of_empty {σ : Type*} {writes : ρ → Option (ι × Option α)} {update : σ → ρ → σ}
    {abs : σ → ι → Option α} (habs : ∀ st r, abs (update st r) = write writes (abs st) r) {st : σ}
    (hempty : ∀ i, abs st i = none) (rs : List ρ) : abs (rs.foldl update st) = held writes rs := by
  funext i
  rw [abs_foldl habs, hempty]
  unfold held
  cases last writes rs i <;> rfl

end LastWrite
