import Mathlib.Tactic.TypeStar

/-!
# Block by block through a memory

A loop reads a block of `B` cells at a time from `src` on and writes what `f` makes of it from `dst`
on. It works on the blocks as they were in the beginning when no block is overwritten before it is
read, as in place, or when the destination lies below the source (`read_transfer`).
-/

namespace BlockTransfer

variable {β : Type*} {B : Nat}

/-- The block at an address. -/
def read (B : Nat) (m : Nat → β) (a : Nat) : Vector β B := Vector.ofFn fun i => m (a + i)

/-- A block is written to an address. -/
def write (m : Nat → β) (a : Nat) (b : Vector β B) : Nat → β := fun x =>
  if h : a ≤ x ∧ x - a < B then b[x - a] else m x

/-- The loop, `n` times. -/
def transfer (f : Vector β B → Vector β B) (dst src : Nat) (m : Nat → β) (n : Nat) : Nat → β :=
  (List.range n).foldl (fun m i => write m (dst + B * i) (f (read B m (src + B * i)))) m

/-- The first `n` blocks from `src` on can be read when what comes before has been written. -/
def Safe (B dst src n : Nat) : Prop := dst ≤ src ∨ src + B * n ≤ dst

variable {f g : Vector β B → Vector β B} {dst src n : Nat} {m m' : Nat → β}

theorem transfer_succ (f : Vector β B → Vector β B) (dst src : Nat) (m : Nat → β) (n : Nat) :
    transfer f dst src m (n + 1)
      = write (transfer f dst src m n) (dst + B * n)
          (f (read B (transfer f dst src m n) (src + B * n))) := by
  unfold transfer
  rw [List.range_succ, List.foldl_append]
  rfl

theorem read_write (m : Nat → β) (a : Nat) (b : Vector β B) : read B (write m a b) a = b := by
  ext i hi
  simp [read, write]

theorem write_of_outside {a x : Nat} (b : Vector β B) (h : x < a ∨ a + B ≤ x) :
    write m a b x = m x := dif_neg (by omega)

theorem read_congr {a : Nat} (h : ∀ x, a ≤ x → x < a + B → m x = m' x) :
    read B m a = read B m' a := by
  ext i hi
  simp only [read, Vector.getElem_ofFn]
  exact h (a + i) (by omega) (by omega)

/-- Nothing but the destination changes. -/
theorem transfer_of_outside {x : Nat} (h : x < dst ∨ dst + B * n ≤ x) :
    transfer f dst src m n x = m x := by
  induction n with
  | zero => rfl
  | succ n ih =>
    rw [Nat.mul_succ] at h
    rw [transfer_succ, write_of_outside _ (by omega), ih (by omega)]

/-- **Every block is what `f` makes of the one that was there in the beginning.** Induction on the
turns: the next block has not been touched. -/
theorem read_transfer (h : Safe B dst src n) :
    ∀ i < n, read B (transfer f dst src m n) (dst + B * i) = f (read B m (src + B * i)) := by
  induction n with
  | zero => exact fun i hi => absurd hi (Nat.not_lt_zero i)
  | succ n ih =>
    unfold Safe at h
    rw [Nat.mul_succ] at h
    have hsafe : Safe B dst src n := h.imp id fun hle => by omega
    intro i hi
    rw [transfer_succ]
    rcases Nat.lt_succ_iff_lt_or_eq.mp hi with hlt | rfl
    · have hbelow : B * (i + 1) ≤ B * n := Nat.mul_le_mul_left B hlt
      rw [Nat.mul_succ] at hbelow
      rw [← ih hsafe i hlt]
      exact read_congr fun x _ hx => write_of_outside _ (by omega)
    · rw [read_write]
      congr 1
      exact read_congr fun x hx hx' => transfer_of_outside (by omega)

/-- The loop can be left and taken up again. -/
theorem transfer_add (f : Vector β B → Vector β B) (dst src : Nat) (m : Nat → β) (n k : Nat) :
    transfer f dst src m (n + k)
      = transfer f (dst + B * n) (src + B * n) (transfer f dst src m n) k := by
  induction k with
  | zero => rfl
  | succ k ih =>
    have haddr : ∀ a, a + B * (n + k) = a + B * n + B * k := fun a => by
      rw [Nat.mul_add, Nat.add_assoc]
    rw [← Nat.add_assoc, transfer_succ, ih, transfer_succ, haddr, haddr]

/-- Undone by what undoes `f`, wherever the blocks go. -/
theorem transfer_transfer (hgf : ∀ b, g (f b) = b) {back : Nat} (h : Safe B dst src n)
    (hback : Safe B back dst n) {i : Nat} (hi : i < B * n) :
    transfer g back dst (transfer f dst src m n) n (back + i) = m (src + i) := by
  have hB : 0 < B := Nat.pos_of_mul_pos_right (Nat.lt_of_le_of_lt (Nat.zero_le i) hi)
  have hblock : i / B < n := Nat.div_lt_of_lt_mul hi
  have hmod := Nat.mod_lt i hB
  have hread := read_transfer (f := g) (m := transfer f dst src m n) hback (i / B) hblock
  rw [read_transfer h (i / B) hblock, hgf] at hread
  have hcell := congrArg (fun b : Vector β B => b[i % B]) hread
  simp only [read, Vector.getElem_ofFn] at hcell
  rwa [Nat.add_assoc, Nat.add_assoc, Nat.div_add_mod] at hcell

end BlockTransfer
