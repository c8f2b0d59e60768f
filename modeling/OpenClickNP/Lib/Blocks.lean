import Mathlib.Data.List.Infix

/-!
# Lists made of blocks of one length

`l.flatMap f` spells a list of items when every `f a` has the same positive length: what a
receiver that cuts the spelling into blocks has got so far determines the items.
-/

namespace Blocks

variable {α β : Type*} {f : α → List β} {B : Nat}

theorem length_flatMap (hB : ∀ a, (f a).length = B) (l : List α) :
    (l.flatMap f).length = B * l.length := by
  induction l with
  | nil => rfl
  | cons a l ih =>
    rw [List.flatMap_cons, List.length_append, hB, ih, List.length_cons, Nat.mul_succ,
      Nat.add_comm]

/-- **Blocks line up.** When the blocks of `l`, and `r` after them, begin the spelling of `l'`,
the items of `l` spell as the first items of `l'`, and `r` begins the spelling of the others.
Induction on `l`. -/
theorem line_up (hB : ∀ a, (f a).length = B) (hpos : 0 < B) {l l' : List α} {r : List β}
    (h : l.flatMap f ++ r <+: l'.flatMap f) :
    l.length ≤ l'.length ∧ l.map f <+: l'.map f ∧ r <+: (l'.drop l.length).flatMap f := by
  induction l generalizing l' with
  | nil => exact ⟨Nat.zero_le _, List.nil_prefix, by simpa using h⟩
  | cons a l ih =>
    cases l' with
    | nil =>
      have hlen := h.length_le
      simp only [List.flatMap_cons, List.flatMap_nil, List.length_append, List.length_nil, hB]
        at hlen
      omega
    | cons b l' =>
      obtain ⟨tail, htail⟩ := h
      rw [List.flatMap_cons, List.flatMap_cons, List.append_assoc, List.append_assoc] at htail
      obtain ⟨hab, hrest⟩ := List.append_inj htail (by rw [hB, hB])
      have hsub : l.flatMap f ++ r <+: l'.flatMap f := ⟨tail, by rw [← hrest, List.append_assoc]⟩
      obtain ⟨hle, hmap, hr⟩ := ih hsub
      refine ⟨Nat.succ_le_succ hle, ?_, hr⟩
      rw [List.map_cons, List.map_cons, hab]
      exact List.prefix_cons_inj (f b) |>.mpr hmap

/-- A whole block at the front of a spelling is the first item's. -/
theorem head_eq_of_begins (hB : ∀ a, (f a).length = B) (hpos : 0 < B) {l : List α} {r : List β}
    (hr : r.length = B) (h : r <+: l.flatMap f) : ∃ a t, l = a :: t ∧ f a = r := by
  cases l with
  | nil =>
    have hlen := h.length_le
    rw [List.flatMap_nil, List.length_nil] at hlen
    omega
  | cons a t =>
    refine ⟨a, t, rfl, ?_⟩
    have htake := List.prefix_iff_eq_take.mp h
    rw [htake, hr, List.flatMap_cons, List.take_append_of_le_length (by rw [hB]),
      List.take_of_length_le]
    rw [hB]

end Blocks
