import Mathlib.Data.List.Induction

/-!
# Transducers

A machine with a state reads items one after the other and puts out a list for each. What it puts
out for a list in two pieces is what it puts out for the first, and for the second from the state
behind the first (`output_append`).

A machine that simulates another puts out the same for each item (`outs_eq_of_simulates`). How much
it puts out is bounded from below by a potential: when each step pays its cost with what it puts out
and with what it takes from the potential, so does the whole run (`potential`).
-/

/-- A step and an output function. -/
structure Transducer (σ α β : Type*) where
  next : σ → α → σ
  out : σ → α → List β

namespace Transducer

variable {σ α β : Type*} (M : Transducer σ α β)

/-- The state after the items. -/
def state (s : σ) (xs : List α) : σ := xs.foldl M.next s

/-- What is put out for the items. -/
def output : σ → List α → List β
  | _, [] => []
  | s, x :: xs => M.out s x ++ output (M.next s x) xs

@[simp] theorem state_nil (s : σ) : M.state s [] = s := rfl

@[simp] theorem state_cons (s : σ) (x : α) (xs : List α) :
    M.state s (x :: xs) = M.state (M.next s x) xs := rfl

@[simp] theorem output_nil (s : σ) : M.output s [] = [] := rfl

@[simp] theorem output_cons (s : σ) (x : α) (xs : List α) :
    M.output s (x :: xs) = M.out s x ++ M.output (M.next s x) xs := rfl

theorem state_append (s : σ) (xs ys : List α) :
    M.state s (xs ++ ys) = M.state (M.state s xs) ys := List.foldl_append

theorem output_append (s : σ) (xs ys : List α) :
    M.output s (xs ++ ys) = M.output s xs ++ M.output (M.state s xs) ys := by
  induction xs generalizing s with
  | nil => rfl
  | cons x xs ih =>
    rw [List.cons_append, output_cons, output_cons, ih, List.append_assoc, state_cons]

/-! ## Item by item -/

/-- What is put out for each of the items. -/
def outs : σ → List α → List (List β)
  | _, [] => []
  | s, x :: xs => M.out s x :: outs (M.next s x) xs

@[simp] theorem outs_nil (s : σ) : M.outs s [] = [] := rfl

@[simp] theorem outs_cons (s : σ) (x : α) (xs : List α) :
    M.outs s (x :: xs) = M.out s x :: M.outs (M.next s x) xs := rfl

theorem flatten_outs (s : σ) (xs : List α) : (M.outs s xs).flatten = M.output s xs := by
  induction xs generalizing s with
  | nil => rfl
  | cons x xs ih => rw [outs_cons, output_cons, List.flatten_cons, ih]

/-- **The simulation rule.** Machines in related states that put out the same and stay related put
out the same for ever. Induction on the items. -/
theorem outs_eq_of_simulates {τ : Type*} {M : Transducer σ α β} {N : Transducer τ α β}
    (Sim : σ → τ → Prop)
    (hstep : ∀ s t x, Sim s t → M.out s x = N.out t x ∧ Sim (M.next s x) (N.next t x))
    {s : σ} {t : τ} (h : Sim s t) (xs : List α) :
    M.outs s xs = N.outs t xs ∧ Sim (M.state s xs) (N.state t xs) := by
  induction xs generalizing s t with
  | nil => exact ⟨rfl, h⟩
  | cons x xs ih =>
    obtain ⟨hout, hnext⟩ := hstep s t x h
    obtain ⟨houts, hstate⟩ := ih hnext
    rw [outs_cons, outs_cons, hout, houts]
    exact ⟨rfl, hstate⟩

/-! ## How much is put out -/

section
variable {M} {s : σ} {xs : List α} {P : σ → Prop}

/-- What every step keeps. -/
theorem state_inv (hP : ∀ x ∈ xs, ∀ s, P s → P (M.next s x)) (h : P s) : P (M.state s xs) := by
  induction xs generalizing s with
  | nil => exact h
  | cons x xs ih =>
    exact ih (fun y hy => hP y (List.mem_cons_of_mem _ hy)) (hP x List.mem_cons_self s h)

/-- **The rule for words.** What every item keeps of the state, of the items read and of those put
out. Induction on the items, from the back. -/
theorem word_inv {Q : σ → List α → List β → Prop}
    (hQ : ∀ s ws ys x, Q s ws ys → Q (M.next s x) (ws ++ [x]) (ys ++ M.out s x)) (h : Q s [] []) :
    Q (M.state s xs) xs (M.output s xs) := by
  induction xs using List.reverseRecOn with
  | nil => exact h
  | append_singleton xs x ih =>
    rw [state_append, output_append, state_cons, state_nil, output_cons, output_nil,
      List.append_nil]
    exact hQ _ _ _ _ ih

theorem length_output_le (h : ∀ s x, (M.out s x).length ≤ 1) :
    (M.output s xs).length ≤ xs.length := by
  induction xs generalizing s with
  | nil => exact Nat.le_refl 0
  | cons x xs ih =>
    rw [output_cons, List.length_append, List.length_cons, Nat.add_comm]
    exact Nat.add_le_add ih (h s x)

theorem output_eq_nil (hP : ∀ s x, P s → P (M.next s x)) (hout : ∀ s x, P s → M.out s x = [])
    (h : P s) : M.output s xs = [] := by
  induction xs generalizing s with
  | nil => rfl
  | cons x xs ih => rw [output_cons, hout s x h, ih (hP s x h), List.append_nil]

/-- **The potential rule.** `cost` is what a step costs, `gain` what an item that is put out pays.
Induction on the items. -/
theorem potential (cost gain : ℕ) (worth : σ → ℕ)
    (hP : ∀ x ∈ xs, ∀ s, P s → P (M.next s x))
    (hstep : ∀ x ∈ xs, ∀ s, P s → worth (M.next s x) + cost ≤ worth s + gain * (M.out s x).length)
    (h : P s) :
    worth (M.state s xs) + cost * xs.length ≤ worth s + gain * (M.output s xs).length := by
  induction xs generalizing s with
  | nil => simp
  | cons x xs ih =>
    have hone := hstep x List.mem_cons_self s h
    have hrest := ih (fun y hy => hP y (List.mem_cons_of_mem _ hy))
      (fun y hy => hstep y (List.mem_cons_of_mem _ hy)) (hP x List.mem_cons_self s h)
    rw [state_cons, output_cons, List.length_append, List.length_cons, Nat.mul_succ,
      Nat.mul_add gain]
    omega

end

end Transducer
