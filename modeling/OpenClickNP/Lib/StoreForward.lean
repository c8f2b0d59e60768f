import Mathlib.Data.List.Infix
import OpenClickNP.Lib.Frames

/-!
# Store and forward with a bounded buffer

A buffer for `limit` items takes the items of frames one after the other. The mark of a frame
releases what is held; an item that finds the buffer full is dropped, its mark with it. So the
first frame that is too long for the buffer fills it for good: what is released is the frames
before that one (`released_stored`). These are all the frames that fit exactly when no frame that
does not fit stands before one that does (`takeWhile_eq_filter_iff`).
-/

namespace Frames

variable {α : Type*} {isLast : α → Bool} {limit : ℕ}

/-! ## The frames that are complete -/

/-- The pieces between marks that have come to their mark. -/
def complete (isLast : α → Bool) (xs : List α) : List (List α) :=
  (cut isLast xs).filter (·.any isLast)

/-- Items without a mark. -/
def Unmarked (isLast : α → Bool) (xs : List α) : Prop := ∀ x ∈ xs, isLast x = false

theorem unmarked_nil : Unmarked isLast [] := List.forall_mem_nil _

theorem any_of_framed {frame : List α} (h : Framed isLast frame) : frame.any isLast = true := by
  obtain ⟨init, x, rfl, hx, -⟩ := h
  simp [hx]

theorem cut_of_unmarked {xs : List α} (h : Unmarked isLast xs) :
    cut isLast xs = if xs.isEmpty then [] else [xs] := by
  induction xs with
  | nil => rfl
  | cons x xs ih =>
    have hx : ¬ isLast x = true := by simp [h x List.mem_cons_self]
    rw [cut, if_neg hx, ih fun y hy => h y (List.mem_cons_of_mem _ hy)]
    cases xs <;> rfl

theorem complete_append {frames : List (List α)} {rest : List α}
    (hframed : ∀ frame ∈ frames, Framed isLast frame) (hrest : Unmarked isLast rest) :
    complete isLast (frames.flatten ++ rest) = frames := by
  induction frames with
  | nil =>
    have hnone : rest.any isLast = false := List.any_eq_false.mpr fun x hx => by simp [hrest x hx]
    rw [List.flatten_nil, List.nil_append, complete, cut_of_unmarked hrest]
    cases hempty : rest.isEmpty <;> simp [hnone]
  | cons frame frames ih =>
    have hframe := hframed frame List.mem_cons_self
    have hcut := ih fun f hf => hframed f (List.mem_cons_of_mem _ hf)
    rw [complete] at hcut
    rw [List.flatten_cons, List.append_assoc, complete, cut_append hframe,
      List.filter_cons, if_pos (any_of_framed hframe), hcut]

/-- Every sequence is complete frames and a rest without a mark. Induction from the back: an item
with the mark makes a frame of the rest before it. -/
theorem exists_frames (isLast : α → Bool) (xs : List α) :
    ∃ (frames : List (List α)) (rest : List α),
      (∀ frame ∈ frames, Framed isLast frame) ∧ Unmarked isLast rest ∧
      xs = frames.flatten ++ rest := by
  induction xs using List.reverseRecOn with
  | nil => exact ⟨[], [], List.forall_mem_nil _, unmarked_nil, rfl⟩
  | append_singleton xs x ih =>
    obtain ⟨frames, rest, hframed, hrest, rfl⟩ := ih
    cases hx : isLast x with
    | true =>
      refine ⟨frames ++ [rest ++ [x]], [], fun f hf => ?_, unmarked_nil, by simp⟩
      rcases List.mem_append.mp hf with hf | hf
      · exact hframed f hf
      · rw [List.mem_singleton.mp hf]
        exact ⟨rest, x, rfl, hx, hrest⟩
    | false =>
      refine ⟨frames, rest ++ [x], hframed, fun y hy => ?_, by simp⟩
      rcases List.mem_append.mp hy with hy | hy
      · exact hrest y hy
      · rw [List.mem_singleton.mp hy]
        exact hx

/-! ## The buffer -/

/-- What has been released, and what is held back. -/
structure Stage (α : Type*) where
  released : List α
  held : List α

/-- One item comes in. -/
def Stage.store (isLast : α → Bool) (limit : ℕ) (s : Stage α) (x : α) : Stage α :=
  if s.held.length < limit then
    if isLast x then ⟨s.released ++ (s.held ++ [x]), []⟩ else ⟨s.released, s.held ++ [x]⟩
  else s

/-- The buffer after the items `xs`. -/
def stored (isLast : α → Bool) (limit : ℕ) (xs : List α) : Stage α :=
  xs.foldl (Stage.store isLast limit) ⟨[], []⟩

theorem foldl_store_full {s : Stage α} (h : limit ≤ s.held.length) (xs : List α) :
    xs.foldl (Stage.store isLast limit) s = s := by
  induction xs with
  | nil => rfl
  | cons x xs ih => rw [List.foldl_cons, Stage.store, if_neg (Nat.not_lt.mpr h), ih]

theorem foldl_store_unmarked {s : Stage α} {xs : List α} (hheld : s.held.length ≤ limit)
    (h : Unmarked isLast xs) :
    xs.foldl (Stage.store isLast limit) s = ⟨s.released, (s.held ++ xs).take limit⟩ := by
  induction xs generalizing s with
  | nil => rw [List.append_nil, List.take_of_length_le hheld, List.foldl_nil]
  | cons x xs ih =>
    by_cases hlt : s.held.length < limit
    · rw [List.foldl_cons, Stage.store, if_pos hlt, if_neg (by simp [h x List.mem_cons_self]), ih]
      · rw [List.append_assoc, List.singleton_append]
      · rw [List.length_append, List.length_singleton]
        exact hlt
      · exact fun y hy => h y (List.mem_cons_of_mem _ hy)
    · -- full: nothing that comes is stored
      have hfull : limit = s.held.length := Nat.le_antisymm (Nat.not_lt.mp hlt) hheld
      rw [foldl_store_full hfull.le, hfull, List.take_left]

/-- A frame that fits is released. -/
theorem foldl_store_frame {frame : List α} (h : Framed isLast frame) (hfits : frame.length ≤ limit)
    (released : List α) :
    frame.foldl (Stage.store isLast limit) ⟨released, []⟩ = ⟨released ++ frame, []⟩ := by
  obtain ⟨init, x, rfl, hx, hinit⟩ := h
  have hlt : init.length < limit := by simpa [Nat.succ_le_iff] using hfits
  rw [List.foldl_append, foldl_store_unmarked (Nat.zero_le _) hinit, List.nil_append,
    List.take_of_length_le hlt.le, List.foldl_cons, Stage.store, if_pos hlt, if_pos hx,
    List.foldl_nil]

/-- A frame that does not fit fills the buffer and releases nothing. -/
theorem foldl_store_overlong {frame : List α} (h : Framed isLast frame)
    (hlong : limit < frame.length) (released : List α) :
    frame.foldl (Stage.store isLast limit) ⟨released, []⟩ = ⟨released, frame.take limit⟩ := by
  obtain ⟨init, x, rfl, -, hinit⟩ := h
  have hle : limit ≤ init.length := by simpa [Nat.lt_succ_iff] using hlong
  rw [List.foldl_append, foldl_store_unmarked (Nat.zero_le _) hinit, List.nil_append,
    foldl_store_full (by rw [List.length_take, Nat.min_eq_left hle]),
    List.take_append_of_le_length hle]

/-- **What the buffer releases**: the frames before the first that does not fit. Induction on the
frames. -/
theorem released_stored {frames : List (List α)} {rest : List α}
    (hframed : ∀ frame ∈ frames, Framed isLast frame) (hrest : Unmarked isLast rest) :
    (stored isLast limit (frames.flatten ++ rest)).released
      = (frames.takeWhile (·.length ≤ limit)).flatten := by
  have hgo : ∀ released,
      ((frames.flatten ++ rest).foldl (Stage.store isLast limit) ⟨released, []⟩).released
        = released ++ (frames.takeWhile (·.length ≤ limit)).flatten := by
    induction frames with
    | nil =>
      intro released
      rw [List.flatten_nil, List.nil_append, foldl_store_unmarked (Nat.zero_le _) hrest]
      exact (List.append_nil _).symm
    | cons frame frames ih =>
      intro released
      have hframe := hframed frame List.mem_cons_self
      rw [List.flatten_cons, List.append_assoc, List.foldl_append]
      by_cases hfits : frame.length ≤ limit
      · rw [foldl_store_frame hframe hfits, ih fun f hf => hframed f (List.mem_cons_of_mem _ hf),
          List.takeWhile_cons_of_pos (by simpa using hfits), List.flatten_cons, List.append_assoc]
      · -- the frame fills the buffer, and no mark comes through any more
        have hlong := Nat.not_le.mp hfits
        rw [foldl_store_overlong hframe hlong, foldl_store_full (by
          rw [List.length_take, Nat.min_eq_left hlong.le]),
          List.takeWhile_cons_of_neg (by simpa using hfits)]
        exact (List.append_nil _).symm
  exact hgo []

/-- What has been released stays released. -/
theorem released_begins (xs ys : List α) :
    (stored isLast limit xs).released <+: (stored isLast limit (xs ++ ys)).released := by
  unfold stored
  rw [List.foldl_append]
  generalize xs.foldl (Stage.store isLast limit) ⟨[], []⟩ = s
  induction ys generalizing s with
  | nil => exact List.prefix_rfl
  | cons y ys ih =>
    rw [List.foldl_cons]
    refine List.IsPrefix.trans ?_ (ih _)
    unfold Stage.store
    split
    · split
      · exact List.prefix_append _ _
      · exact List.prefix_rfl
    · exact List.prefix_rfl

/-! ## Which frames that fit are released -/

theorem takeWhile_begins_filter {β : Type*} (p : β → Bool) (xs : List β) :
    xs.takeWhile p <+: xs.filter p := by
  induction xs with
  | nil => exact List.prefix_rfl
  | cons x xs ih =>
    cases hx : p x with
    | true =>
      rw [List.takeWhile_cons_of_pos hx, List.filter_cons_of_pos hx]
      exact List.cons_prefix_cons.mpr ⟨rfl, ih⟩
    | false =>
      rw [List.takeWhile_cons_of_neg (by simp [hx])]
      exact List.nil_prefix

/-- The chosen items at the front are all the chosen ones exactly when none that is not chosen
stands before one that is. -/
theorem takeWhile_eq_filter_iff {β : Type*} (p : β → Bool) (xs : List β) :
    xs.takeWhile p = xs.filter p ↔ xs.Pairwise fun x y => p y = true → p x = true := by
  induction xs with
  | nil => simp
  | cons x xs ih =>
    rw [List.pairwise_cons]
    cases hx : p x with
    | true =>
      rw [List.takeWhile_cons_of_pos hx, List.filter_cons_of_pos hx, List.cons_inj_right, ih]
      simp
    | false =>
      rw [List.takeWhile_cons_of_neg (by simp [hx]), List.filter_cons_of_neg (by simp [hx]),
        eq_comm, List.filter_eq_nil_iff]
      constructor
      · intro hnone
        refine ⟨fun y hy hpy => absurd hpy (hnone y hy), ?_⟩
        exact List.pairwise_of_forall_mem_list fun _ _ y hy hpy => absurd hpy (hnone y hy)
      · rintro ⟨hnone, -⟩ y hy hpy
        exact Bool.false_ne_true (hnone y hy hpy)

theorem flatten_prefix {xs ys : List (List α)} (h : xs <+: ys) : xs.flatten <+: ys.flatten := by
  obtain ⟨zs, rfl⟩ := h
  rw [List.flatten_append]
  exact List.prefix_append _ _

/-- The frames that fit are released, all of them, exactly when no longer one stands before. -/
theorem flatten_takeWhile_eq_iff {frames : List (List α)}
    (hframed : ∀ frame ∈ frames, Framed isLast frame) (p : List α → Bool) :
    (frames.takeWhile p).flatten = (frames.filter p).flatten ↔
      frames.Pairwise fun f g => p g = true → p f = true := by
  rw [← takeWhile_eq_filter_iff]
  constructor
  · intro h
    -- cut at the marks, a flat sequence gives its frames back
    have hcut := congrArg (cut isLast) h
    rwa [cut_flatten fun f hf => hframed f (List.takeWhile_sublist _ |>.mem hf),
      cut_flatten fun f hf => hframed f (List.mem_of_mem_filter hf)] at hcut
  · exact congrArg List.flatten

end Frames
