import OpenClickNP.Lib.RingBuffer

/-!
# Banks of queues

`m` queues of one capacity share an input and an output. An element that comes in joins the queue
of its key, unless this one is full. An output takes the oldest element of the first queue, from the
pending one on, that is not empty, and the queue behind it is pending then.
-/

namespace QueueBank

open RingBuffer

variable {m : Nat} {α : Type*}

structure Bank (m : Nat) (α : Type*) where
  queues : Fin m → List α
  pending : Fin m

/-- What comes in, if anything. -/
def accept (cap : Nat) (key : α → Fin m) (b : Bank m α) : Option α → Bank m α
  | some x =>
    if (b.queues (key x)).length = cap then b
    else { b with queues := Function.update b.queues (key x) (b.queues (key x) ++ [x]) }
  | none => b

/-- What goes out, if anything. -/
inductive Drain (b : Bank m α) : Option α → Bank m α → Prop where
  | idle (hempty : ∀ i, b.queues i = []) : Drain b none b
  | serve (i : Fin m) (x : α) (rest : List α) (hqueue : b.queues i = x :: rest)
      (hfirst : ∀ j, b.queues j ≠ [] → distance b.pending i ≤ distance b.pending j) :
      Drain b (some x) { queues := Function.update b.queues i rest, pending := next i }

/-- First something may come in, then something may go out. -/
def Step (cap : Nat) (key : α → Fin m) (b : Bank m α) (input output : Option α) (b' : Bank m α) :
    Prop :=
  Drain (accept cap key b input) output b'

/-- Any number of steps. -/
inductive Steps (cap : Nat) (key : α → Fin m) (b : Bank m α) :
    List (Option α) → List (Option α) → Bank m α → Prop where
  | start : Steps cap key b [] [] b
  | step {xs ys : List (Option α)} {x y : Option α} {b' b'' : Bank m α}
      (hsteps : Steps cap key b xs ys b') (hstep : Step cap key b' x y b'') :
      Steps cap key b (xs ++ [x]) (ys ++ [y]) b''

end QueueBank
