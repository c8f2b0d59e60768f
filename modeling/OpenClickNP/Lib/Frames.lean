import Mathlib.Data.List.Basic

/-!
# Frames in a flat sequence

A frame is a list whose last item, and no other, carries a mark. In the concatenation of frames
the frame of an item is found by counting the marks before it.
-/

namespace Frames

variable {α β : Type*} {isLast : α → Bool}

/-- One item after others, it alone with the mark. -/
def Framed (isLast : α → Bool) (frame : List α) : Prop :=
  ∃ init x, frame = init ++ [x] ∧ isLast x = true ∧ ∀ y ∈ init, isLast y = false

theorem framed_singleton_iff {x : α} : Framed isLast [x] ↔ isLast x = true := by
  constructor
  · rintro ⟨init, z, hframe, hz, -⟩
    cases init with
    | nil =>
      cases hframe
      exact hz
    | cons y init => simp at hframe
  · intro h
    exact ⟨[], x, rfl, h, by simp⟩

theorem framed_cons_cons_iff {x y : α} {xs : List α} :
    Framed isLast (x :: y :: xs) ↔ isLast x = false ∧ Framed isLast (y :: xs) := by
  constructor
  · rintro ⟨init, z, hframe, hz, hinit⟩
    cases init with
    | nil => simp at hframe
    | cons x' init =>
      obtain ⟨rfl, hrest⟩ := List.cons.inj hframe
      exact ⟨hinit x List.mem_cons_self, init, z, hrest, hz,
        fun w hw => hinit w (List.mem_cons_of_mem _ hw)⟩
  · rintro ⟨hx, init, z, hframe, hz, hinit⟩
    refine ⟨x :: init, z, by rw [hframe, List.cons_append], hz, fun w hw => ?_⟩
    rcases List.mem_cons.mp hw with rfl | hw
    · exact hx
    · exact hinit w hw

/-- The items of the frames, each with the label of its frame. -/
def labelled (frames : List (List α)) (labels : List β) : List (α × β) :=
  (frames.zip labels).flatMap fun x => x.1.map (·, x.2)

theorem map_fst_labelled {frames : List (List α)} {labels : List β}
    (hlen : labels.length = frames.length) :
    (labelled frames labels).map Prod.fst = frames.flatten := by
  induction frames generalizing labels with
  | nil => rfl
  | cons frame frames ih =>
    cases labels with
    | nil => cases hlen
    | cons d labels =>
      have hrest := ih (Nat.succ.inj hlen)
      unfold labelled at hrest ⊢
      rw [List.zip_cons_cons, List.flatMap_cons, List.map_append, hrest, List.map_map,
        List.flatten_cons]
      congr 1
      exact List.map_id _

/-- The items of the frames whose labels are chosen are the chosen frames. -/
theorem filter_labelled (chosen : β → Bool) (frames : List (List α)) (labels : List β) :
    ((labelled frames labels).filter fun x => chosen x.2).map Prod.fst
      = ((frames.zip labels).filter fun x => chosen x.2).flatMap Prod.fst := by
  unfold labelled
  induction frames.zip labels with
  | nil => rfl
  | cons x xs ih =>
    have hid : (x.1.map (·, x.2)).map Prod.fst = x.1 := by
      rw [List.map_map]
      exact List.map_id _
    rw [List.flatMap_cons, List.filter_append, List.map_append, ih]
    cases hx : chosen x.2 with
    | true =>
      rw [List.filter_cons_of_pos (by simpa using hx), List.flatMap_cons]
      congr 1
      rw [List.filter_eq_self.mpr (by simp [hx]), hid]
    | false =>
      rw [List.filter_cons_of_neg (by simp [hx]), List.filter_eq_nil_iff.mpr (by simp [hx])]
      rfl

/-- **The label of an item is found by counting marks.** Induction on the frames. -/
theorem getElem?_labelled {frames : List (List α)} {labels : List β} {n : Nat} {x : α} {d : β}
    (hframed : ∀ frame ∈ frames, Framed isLast frame) (hx : frames.flatten[n]? = some x)
    (hd : labels[(frames.flatten.take n).countP isLast]? = some d) :
    (labelled frames labels)[n]? = some (x, d) := by
  induction frames generalizing labels n with
  | nil => cases hx
  | cons frame frames ih =>
    obtain ⟨init, z, rfl, hz, hinit⟩ := hframed frame List.mem_cons_self
    have hcount : ∀ k ≤ init.length, (init.take k).countP isLast = 0 := fun k _ =>
      List.countP_eq_zero.mpr fun y hy => by simp [hinit y (List.mem_of_mem_take hy)]
    cases labels with
    | nil => cases hd
    | cons d' labels =>
      rw [List.flatten_cons] at hx hd
      unfold labelled
      rw [List.zip_cons_cons, List.flatMap_cons]
      by_cases hn : n < (init ++ [z]).length
      · -- no mark stands before an item of the first frame
        have hle : n ≤ init.length := by simpa [Nat.lt_succ_iff] using hn
        rw [List.take_append_of_le_length (Nat.le_of_lt hn),
          List.take_append_of_le_length hle, hcount n hle] at hd
        cases hd
        rw [List.getElem?_append_left hn] at hx
        rw [List.getElem?_append_left (by simpa using hn), List.getElem?_map, hx]
        rfl
      · have hle := Nat.not_lt.mp hn
        rw [List.getElem?_append_right hle] at hx
        rw [List.take_append, List.countP_append, List.take_of_length_le hle, List.countP_append,
          List.countP_eq_zero.mpr fun y hy => by simp [hinit y hy]] at hd
        rw [List.countP_singleton, if_pos hz, Nat.zero_add, Nat.add_comm] at hd
        have hrest := ih (fun frame hmem => hframed frame (List.mem_cons_of_mem _ hmem)) hx hd
        unfold labelled at hrest
        rw [List.getElem?_append_right (by simpa using hle)]
        simpa using hrest

/-! ## Cutting -/

/-- The items up to each mark, and those behind the last one. -/
def cut (isLast : α → Bool) : List α → List (List α)
  | [] => []
  | x :: xs =>
    if isLast x then [x] :: cut isLast xs
    else
      match cut isLast xs with
      | [] => [[x]]
      | frame :: frames => (x :: frame) :: frames

theorem cut_append {frame : List α} (h : Framed isLast frame) (xs : List α) :
    cut isLast (frame ++ xs) = frame :: cut isLast xs := by
  obtain ⟨init, z, rfl, hz, hinit⟩ := h
  induction init with
  | nil => exact if_pos hz
  | cons y init ih =>
    have hy : ¬ isLast y = true := by simp [hinit y List.mem_cons_self]
    have hrest := ih fun x hx => hinit x (List.mem_cons_of_mem _ hx)
    rw [List.cons_append, List.cons_append, cut, if_neg hy, hrest]

/-- **Frames are found again.** -/
theorem cut_flatten {frames : List (List α)} (h : ∀ frame ∈ frames, Framed isLast frame) :
    cut isLast frames.flatten = frames := by
  induction frames with
  | nil => rfl
  | cons frame frames ih =>
    rw [List.flatten_cons, cut_append (h frame List.mem_cons_self),
      ih fun x hx => h x (List.mem_cons_of_mem _ hx)]

/-- Two sequences with the same marks are cut at the same places. Induction on the items. -/
theorem map_length_cut {p : α → Bool} {q : β → Bool} {xs : List α} {ys : List β}
    (h : xs.map p = ys.map q) : (cut p xs).map List.length = (cut q ys).map List.length := by
  induction xs generalizing ys with
  | nil =>
    cases ys with
    | nil => rfl
    | cons y ys => cases h
  | cons x xs ih =>
    cases ys with
    | nil => cases h
    | cons y ys =>
      obtain ⟨hxy, hrest⟩ := List.cons.inj h
      have hcut := ih hrest
      unfold cut
      rw [hxy]
      cases q y with
      | true => simp [hcut]
      | false =>
        cases hx : cut p xs <;> cases hy : cut q ys <;> simp [hx, hy] at hcut ⊢
        exact hcut

theorem Framed.map {f : α → α} (hf : ∀ x, isLast (f x) = isLast x) {frame : List α}
    (h : Framed isLast frame) : Framed isLast (frame.map f) := by
  obtain ⟨init, z, rfl, hz, hinit⟩ := h
  refine ⟨init.map f, f z, by rw [List.map_append, List.map_singleton], (hf z).trans hz, ?_⟩
  rintro y hy
  obtain ⟨x, hx, rfl⟩ := List.mem_map.mp hy
  exact (hf x).trans (hinit x hx)

end Frames
