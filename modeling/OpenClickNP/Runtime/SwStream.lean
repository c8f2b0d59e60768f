/-!
# `SwStream`: the bounded FIFO of the emulator

A stream never holds more than its capacity, which is at least one; both facts are part of the
type.
-/

namespace OpenClickNP

structure SwStream (α : Type) where
  q : List α
  capacity : Nat
  capacity_pos : 0 < capacity
  length_le : q.length ≤ capacity

namespace SwStream

variable {α : Type}

/-- `SwStream(int capacity)`: empty, with a capacity of one in place of one below that. -/
def ofCapacity (capacity : Int) : SwStream α where
  q := []
  capacity := if 0 < capacity then capacity.toNat else 1
  capacity_pos := by split <;> omega
  length_le := Nat.zero_le _

@[simp] theorem q_ofCapacity (c : Int) : (ofCapacity c : SwStream α).q = [] := rfl

/-- `write_nb(f)`: false when the buffer is full. -/
def writeNb (s : SwStream α) (f : α) : Bool × SwStream α :=
  if h : s.q.length ≥ s.capacity then (false, s)
  else
    (true, { s with
      q := s.q ++ [f]
      length_le := by rw [List.length_append, List.length_singleton]; omega })

/-- `read_nb(out)`: the flit read, if there is one. -/
def readNb (s : SwStream α) : Option α × SwStream α :=
  match h : s.q with
  | [] => (none, s)
  | f :: rest =>
    (some f, { s with
      q := rest
      length_le := by
        have hle := s.length_le
        rw [h, List.length_cons] at hle
        omega })

theorem writeNb_of_full {s : SwStream α} (h : s.capacity ≤ s.q.length) (f : α) :
    s.writeNb f = (false, s) := by
  rw [writeNb, dif_pos h]

theorem writeNb_of_room {s : SwStream α} (h : s.q.length < s.capacity) (f : α) :
    (s.writeNb f).1 = true ∧ (s.writeNb f).2.q = s.q ++ [f] := by
  rw [writeNb, dif_neg (by omega)]
  exact ⟨rfl, rfl⟩

theorem writeNb_eq_true {s s' : SwStream α} {f : α} (h : s.writeNb f = (true, s')) :
    s'.q = s.q ++ [f] := by
  unfold writeNb at h
  split at h
  · cases h
  · cases h
    rfl

theorem readNb_eq_none {s s' : SwStream α} (h : s.readNb = (none, s')) : s.q = [] := by
  unfold readNb at h
  split at h
  · assumption
  · cases h

theorem readNb_of_nil {s : SwStream α} (h : s.q = []) : s.readNb = (none, s) := by
  unfold readNb
  split
  · rfl
  · rename_i f rest hq
    rw [h] at hq
    cases hq

/-- What a read takes out is what it returns. -/
theorem q_eq_readNb (s : SwStream α) : s.q = s.readNb.1.toList ++ s.readNb.2.q := by
  unfold readNb
  split
  · rename_i hq
    simp [hq]
  · rename_i f rest hq
    simp [hq]

/-- A write that fails does nothing. -/
theorem writeNb_eq_false {s s' : SwStream α} {f : α} (h : s.writeNb f = (false, s')) :
    s' = s := by
  unfold writeNb at h
  split at h
  · cases h
    rfl
  · cases h

theorem readNb_eq_some {s s' : SwStream α} {f : α} (h : s.readNb = (some f, s')) :
    s.q = f :: s'.q := by
  unfold readNb at h
  split at h
  · cases h
  · rename_i g rest hq
    cases h
    exact hq

/-! ## Capacities -/

theorem capacity_readNb (s : SwStream α) : s.readNb.2.capacity = s.capacity := by
  unfold readNb
  split <;> rfl

theorem capacity_writeNb (s : SwStream α) (f : α) : (s.writeNb f).2.capacity = s.capacity := by
  unfold writeNb
  split <;> rfl

end SwStream

end OpenClickNP
