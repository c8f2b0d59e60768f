import Mathlib.Data.List.TakeWhile
import Mathlib.Order.Lattice

/-!
# Queues that serve by rank

A step of such a queue turns what is held and what comes in into what goes out and what is left.
`ServesBest` says that an element of the greatest rank goes out and nothing is lost: that alone
fixes the ranks that go out (`ServesBest.map_rank_eq`). `FirstIn` says that elements of one rank go
out in the order they came in; it composes along a run. A list that is kept in order of rank, and
takes an element behind all others of its rank, has both properties.
-/

namespace PriorityFifo

variable {α κ : Type*} [LinearOrder κ] (rank : α → κ)

/-- An element of the greatest rank goes out, and nothing is lost. -/
structure ServesBest (held input output left : List α) : Prop where
  best : held ++ input ≠ [] →
    ∃ x ∈ held ++ input, output = [x] ∧ ∀ y ∈ held ++ input, rank y ≤ rank x
  conserves : (left ++ output).Perm (held ++ input)

/-- Elements of one rank go out in the order they came in. -/
def FirstIn (held input output left : List α) : Prop :=
  ∀ r, (held ++ input).filter (rank · = r) = (output ++ left).filter (rank · = r)

section
variable {rank} {held held' input input' output output' left left' : List α}

/-- **What serves by rank sends the same ranks**, whatever its order of service is. -/
theorem ServesBest.map_rank_eq (h : ServesBest rank held input output left)
    (h' : ServesBest rank held' input output' left') (hsame : held.Perm held') :
    output.map rank = output'.map rank := by
  have hall : (held ++ input).Perm (held' ++ input) := hsame.append_right input
  by_cases hnil : held ++ input = []
  · have hnil' : held' ++ input = [] := (hnil ▸ hall).nil_eq.symm
    have hnone := (List.append_eq_nil_iff.mp (hnil ▸ h.conserves).eq_nil).2
    have hnone' := (List.append_eq_nil_iff.mp (hnil' ▸ h'.conserves).eq_nil).2
    rw [hnone, hnone']
  · have hne' : held' ++ input ≠ [] := fun heq => hnil ((heq ▸ hall).eq_nil)
    obtain ⟨x, hx, rfl, hbest⟩ := h.best hnil
    obtain ⟨x', hx', rfl, hbest'⟩ := h'.best hne'
    have heq : rank x = rank x' :=
      le_antisymm (hbest' x (hall.mem_iff.mp hx)) (hbest x' (hall.mem_iff.mpr hx'))
    rw [List.map_singleton, List.map_singleton, heq]

theorem FirstIn.refl (held : List α) : FirstIn rank held [] [] held := by
  intro r
  rw [List.append_nil, List.nil_append]

/-- **Two steps.** -/
theorem FirstIn.append (h : FirstIn rank held input output left)
    (h' : FirstIn rank left input' output' left') :
    FirstIn rank held (input ++ input') (output ++ output') left' := by
  intro r
  have hfirst := h r
  have hsecond := h' r
  simp only [List.filter_append] at hfirst hsecond ⊢
  rw [← List.append_assoc, hfirst, List.append_assoc, hsecond, List.append_assoc]

end

/-! ## A list in order of rank -/

/-- Greater ranks come first. -/
def Sorted (l : List α) : Prop := l.Pairwise fun x y => rank y ≤ rank x

/-- `x` is put behind all elements whose rank is not below its own. -/
def enqueue (l : List α) (x : α) : List α :=
  l.takeWhile (fun y => rank x ≤ rank y) ++ x :: l.dropWhile fun y => rank x ≤ rank y

section
variable {rank} {l front back : List α} {x : α}

theorem enqueue_append (hfront : ∀ y ∈ front, rank x ≤ rank y)
    (hback : ∀ y ∈ back, rank y < rank x) :
    enqueue rank (front ++ back) x = front ++ x :: back := by
  have hpass : ∀ y ∈ front, decide (rank x ≤ rank y) = true :=
    fun y hy => decide_eq_true (hfront y hy)
  have htake : back.takeWhile (fun y => rank x ≤ rank y) = [] := by
    cases back with
    | nil => rfl
    | cons y back =>
      exact List.takeWhile_cons_of_neg (by simpa using hback y List.mem_cons_self)
  have hdrop : back.dropWhile (fun y => rank x ≤ rank y) = back := by
    cases back with
    | nil => rfl
    | cons y back =>
      exact List.dropWhile_cons_of_neg (by simpa using hback y List.mem_cons_self)
  rw [enqueue, List.takeWhile_append_of_pos hpass, List.dropWhile_append_of_pos hpass, htake,
    hdrop, List.append_nil]

theorem enqueue_perm (l : List α) (x : α) : (enqueue rank l x).Perm (l ++ [x]) := by
  have hsplit : l.takeWhile (fun y => rank x ≤ rank y) ++ l.dropWhile (fun y => rank x ≤ rank y)
      = l := List.takeWhile_append_dropWhile
  refine List.perm_middle.trans ?_
  rw [hsplit]
  exact (List.perm_append_singleton x l).symm

/-- From the first element of a lower rank on, all are of a lower rank. -/
theorem Sorted.lt_of_mem_dropWhile (h : Sorted rank l) {y : α}
    (hy : y ∈ l.dropWhile fun y => rank x ≤ rank y) : rank y < rank x := by
  induction l with
  | nil => cases hy
  | cons z l ih =>
    obtain ⟨hz, hl⟩ := List.pairwise_cons.mp h
    by_cases hle : rank x ≤ rank z
    · rw [List.dropWhile_cons_of_pos (by simpa using hle)] at hy
      exact ih hl hy
    · rw [List.dropWhile_cons_of_neg (by simpa using hle)] at hy
      rcases List.mem_cons.mp hy with rfl | hmem
      · exact not_le.mp hle
      · exact (hz y hmem).trans_lt (not_le.mp hle)

theorem le_of_mem_takeWhile {y : α} (hy : y ∈ l.takeWhile fun y => rank x ≤ rank y) :
    rank x ≤ rank y := by
  simpa using List.mem_takeWhile_imp hy

/-- **The order is kept.** -/
theorem sorted_enqueue (h : Sorted rank l) (x : α) : Sorted rank (enqueue rank l x) := by
  have hfront : (l.takeWhile fun y => rank x ≤ rank y).Pairwise fun x y => rank y ≤ rank x :=
    List.Pairwise.sublist (List.takeWhile_sublist _) h
  have hback : (l.dropWhile fun y => rank x ≤ rank y).Pairwise fun x y => rank y ≤ rank x :=
    List.Pairwise.sublist (List.dropWhile_sublist _) h
  refine List.pairwise_append.mpr ⟨hfront, List.pairwise_cons.mpr ⟨?_, hback⟩, ?_⟩
  · exact fun y hy => (h.lt_of_mem_dropWhile hy).le
  · intro y hy z hz
    have hle := le_of_mem_takeWhile hy
    rcases List.mem_cons.mp hz with rfl | hmem
    · exact hle
    · exact (h.lt_of_mem_dropWhile hmem).le.trans hle

/-- **Behind the others of its rank.** -/
theorem filter_enqueue (h : Sorted rank l) (x : α) (r : κ) :
    (enqueue rank l x).filter (rank · = r) = (l ++ [x]).filter (rank · = r) := by
  have hsplit : l.takeWhile (fun y => rank x ≤ rank y) ++ l.dropWhile (fun y => rank x ≤ rank y)
      = l := List.takeWhile_append_dropWhile
  by_cases hr : rank x = r
  · -- those behind are of a lower rank
    have hnone : (l.dropWhile fun y => rank x ≤ rank y).filter (rank · = r) = [] := by
      rw [List.filter_eq_nil_iff]
      intro y hy heq
      have hlt := h.lt_of_mem_dropWhile hy
      rw [hr] at hlt
      exact absurd (of_decide_eq_true heq) (ne_of_lt hlt)
    have hall : l.filter (rank · = r)
        = (l.takeWhile fun y => rank x ≤ rank y).filter (rank · = r) := by
      calc l.filter (rank · = r)
          = (l.takeWhile (fun y => rank x ≤ rank y)
              ++ l.dropWhile fun y => rank x ≤ rank y).filter (rank · = r) := by rw [hsplit]
        _ = _ := by rw [List.filter_append, hnone, List.append_nil]
    rw [enqueue, List.filter_append, List.filter_append, hall,
      List.filter_cons_of_pos (by simpa using hr), hnone,
      List.filter_cons_of_pos (by simpa using hr), List.filter_nil]
  · rw [enqueue, List.filter_append, List.filter_append,
      List.filter_cons_of_neg (by simpa using hr), List.filter_cons_of_neg (by simpa using hr),
      List.filter_nil, List.append_nil, ← List.filter_append, hsplit]

/-- What is held when what comes in is put in its place. -/
def filled (rank : α → κ) (held input : List α) : List α := input.foldl (enqueue rank) held

theorem sorted_filled (h : Sorted rank held) (input : List α) :
    Sorted rank (filled rank held input) := by
  induction input generalizing held with
  | nil => exact h
  | cons x input ih => exact ih (sorted_enqueue h x)

theorem filled_perm (held input : List α) :
    (filled rank held input).Perm (held ++ input) := by
  induction input generalizing held with
  | nil =>
    rw [List.append_nil]
    exact List.Perm.refl held
  | cons x input ih =>
    refine (ih (enqueue rank held x)).trans ?_
    rw [List.append_cons]
    exact (enqueue_perm held x).append_right input

theorem filter_filled (h : Sorted rank held) (input : List α) (r : κ) :
    (filled rank held input).filter (rank · = r)
      = (held ++ input).filter (rank · = r) := by
  induction input generalizing held with
  | nil =>
    rw [List.append_nil]
    rfl
  | cons x input ih =>
    refine (ih (sorted_enqueue h x)).trans ?_
    rw [List.filter_append, filter_enqueue h x r, ← List.filter_append, ← List.append_cons]

/-- **A list in order serves by rank.** -/
theorem serves_filled (h : Sorted rank held) (input : List α) :
    ServesBest rank held input ((filled rank held input).take 1)
      (filled rank held input).tail := by
  have hperm : (filled rank held input).Perm (held ++ input) := filled_perm held input
  have hsorted := sorted_filled h input
  cases hfilled : filled rank held input with
  | nil =>
    rw [hfilled] at hperm
    exact ⟨fun hne => absurd hperm.nil_eq.symm hne, hperm⟩
  | cons x rest =>
    rw [hfilled] at hperm hsorted
    refine ⟨fun _ => ⟨x, hperm.mem_iff.mp List.mem_cons_self, rfl, fun y hy => ?_⟩, ?_⟩
    · rcases List.mem_cons.mp (hperm.mem_iff.mpr hy) with rfl | hmem
      · exact le_rfl
      · exact (List.pairwise_cons.mp hsorted).1 y hmem
    · exact (List.perm_append_singleton x rest).trans hperm

/-- **First in, first out, in each rank.** -/
theorem firstIn_filled (h : Sorted rank held) (input : List α) :
    FirstIn rank held input ((filled rank held input).take 1)
      (filled rank held input).tail := by
  intro r
  rw [← filter_filled h input r, ← List.drop_one, List.take_append_drop]

theorem sorted_tail (h : Sorted rank l) : Sorted rank l.tail :=
  List.Pairwise.sublist (List.tail_sublist l) h

end

end PriorityFifo
