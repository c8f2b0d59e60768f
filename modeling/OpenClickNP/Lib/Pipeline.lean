import Mathlib.Data.List.ReduceOption
import OpenClickNP.Lib.Transducer

/-!
# Two stages

A machine that has something to read in some steps only (`whenReady`) can be run in two stages
(`staged`): one step latches an item, and the next one works on it while it latches another. This
is the same machine, one step behind (`outs_staged`), however the items come in.
-/

namespace Pipeline

variable {σ α β : Type*} (M : Transducer σ α β)

/-- The machine, in steps that may find nothing to read. -/
def whenReady : Transducer σ (Option α) β where
  next s x := x.elim s (M.next s)
  out s x := x.elim [] (M.out s)

/-- The machine in two stages: its state, and the item that has been latched. -/
def staged : Transducer (σ × Option α) (Option α) β where
  next s x := ((whenReady M).next s.1 s.2, x)
  out s _ := (whenReady M).out s.1 s.2

variable {M}

/-- The items that have gone through both stages: all but the last. -/
def delayed (latched : Option α) (xs : List (Option α)) : List (Option α) :=
  (latched :: xs).dropLast

theorem delayed_cons (latched x : Option α) (xs : List (Option α)) :
    delayed latched (x :: xs) = latched :: delayed x xs := rfl

/-- **In two stages the machine is one step behind.** Induction on the steps. -/
theorem outs_staged (s : σ) (latched : Option α) (xs : List (Option α)) :
    (staged M).outs (s, latched) xs = (whenReady M).outs s (delayed latched xs) := by
  induction xs generalizing s latched with
  | nil => rfl
  | cons x xs ih => rw [Transducer.outs_cons, delayed_cons, Transducer.outs_cons, ← ih]; rfl

/-- Behind the item that is latched, the state is that of the machine. -/
theorem state_staged (s : σ) (latched : Option α) (xs : List (Option α)) :
    (whenReady M).next ((staged M).state (s, latched) xs).1 ((staged M).state (s, latched) xs).2
      = (whenReady M).state s (latched :: xs) := by
  induction xs generalizing s latched with
  | nil => rfl
  | cons x xs ih => exact ih _ x

/-- Where nothing is latched, all items have gone through. -/
theorem state_of_empty {s : σ} {latched : Option α} {xs : List (Option α)}
    (h : ((staged M).state (s, latched) xs).2 = none) :
    ((staged M).state (s, latched) xs).1 = (whenReady M).state s (latched :: xs) := by
  rw [← state_staged, h]
  rfl

/-- The steps that find nothing do not count. -/
theorem state_whenReady (s : σ) (xs : List (Option α)) :
    (whenReady M).state s xs = M.state s xs.reduceOption := by
  induction xs generalizing s with
  | nil => rfl
  | cons x xs ih =>
    cases x with
    | none => exact ih s
    | some a => exact ih (M.next s a)

theorem output_whenReady (s : σ) (xs : List (Option α)) :
    (whenReady M).output s xs = M.output s xs.reduceOption := by
  induction xs generalizing s with
  | nil => rfl
  | cons x xs ih =>
    cases x with
    | none => exact ih s
    | some a => exact congrArg (M.out s a ++ ·) (ih (M.next s a))

end Pipeline
