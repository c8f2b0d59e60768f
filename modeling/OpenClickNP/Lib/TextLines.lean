import Mathlib.Data.List.DropRight
import Mathlib.Data.List.GetD
import Mathlib.Tactic.Common

/-!
# Lines and columns of a text

The line of an offset is one more than the line breaks in front of it, its column one more than
the characters since the last of them. `starts` are the offsets where the lines start. Of two
offsets the later is on a later line or, on the same one, in a later column (`line_col_inj`); a
start is at or before an offset exactly when it is one of the first `line` (`starts_le_iff`), and
the line of an offset is the text from there to the next line break (`line_text`).
-/

namespace TextLines

variable {α : Type*} [DecidableEq α] {b : α}

def line (b : α) (text : List α) (p : Nat) : Nat := 1 + (text.take p).count b

def col (b : α) (text : List α) (p : Nat) : Nat :=
  1 + ((text.take p).rtakeWhile (· != b)).length

/-- The starts of the lines behind the breaks of `text`, which is at offset `n`. -/
def startsFrom (b : α) (n : Nat) (text : List α) : List Nat :=
  ((text.zipIdx n).filter fun c => c.1 == b).map fun c => c.2 + 1

def starts (b : α) (text : List α) : List Nat := 0 :: startsFrom b 0 text

/-! ## One character -/

section
variable {text : List α} {p : Nat} {c : α} (h : text[p]? = some c)
include h

theorem line_succ_of_eq (hc : c = b) : line b text (p + 1) = line b text p + 1 := by
  rw [line, line, List.take_add_one, h, Option.toList_some, hc, List.count_append,
    List.count_singleton_self]
  omega

theorem line_succ_of_ne (hc : c ≠ b) : line b text (p + 1) = line b text p := by
  rw [line, line, List.take_add_one, h, Option.toList_some, List.count_append, List.count_singleton,
    if_neg (by simpa using hc)]
  rfl

theorem col_succ_of_eq (hc : c = b) : col b text (p + 1) = 1 := by
  rw [col, List.take_add_one, h, Option.toList_some,
    List.rtakeWhile_concat_neg _ _ _ (by simpa using hc)]
  rfl

theorem col_succ_of_ne (hc : c ≠ b) : col b text (p + 1) = col b text p + 1 := by
  rw [col, col, List.take_add_one, h, Option.toList_some,
    List.rtakeWhile_concat_pos _ _ _ (by simpa using hc), List.length_append]
  rfl

end

theorem line_le (text : List α) (p : Nat) : line b text p ≤ p + 1 := by
  have hcount := List.count_le_length (a := b) (l := text.take p)
  have htake := List.length_take_le p text
  unfold line
  omega

omit [DecidableEq α] in
theorem length_rtakeWhile_le (f : α → Bool) (u : List α) : (u.rtakeWhile f).length ≤ u.length :=
  (List.rtakeWhile_suffix f u).length_le

theorem col_le (text : List α) (p : Nat) : col b text p ≤ p + 1 := by
  have htail := length_rtakeWhile_le (· != b) (text.take p)
  have htake := List.length_take_le p text
  unfold col
  omega

omit [DecidableEq α] in
theorem rtakeWhile_append_of_all {f : α → Bool} {u v : List α} (hv : ∀ c ∈ v, f c = true) :
    (u ++ v).rtakeWhile f = u.rtakeWhile f ++ v := by
  rw [List.rtakeWhile, List.rtakeWhile, List.reverse_append,
    List.takeWhile_append_of_pos (by simpa using hv), List.reverse_append, List.reverse_reverse]

/-- Two offsets in one line are told apart by their columns. -/
theorem line_col_inj {text : List α} {p q : Nat} (hp : p ≤ text.length) (hq : q ≤ text.length)
    (hline : line b text p = line b text q) (hcol : col b text p = col b text q) : p = q := by
  wlog hle : p ≤ q generalizing p q with hsymm
  · exact (hsymm hq hp hline.symm hcol.symm (by omega)).symm
  -- what stands between them has no line break, so that it adds to the column
  obtain ⟨k, rfl⟩ : ∃ k, q = p + k := ⟨q - p, by omega⟩
  have hsplit : text.take (p + k) = text.take p ++ (text.drop p).take k := List.take_add
  have hlen : ((text.drop p).take k).length = k := by
    rw [List.length_take, List.length_drop]
    omega
  have hnone : ((text.drop p).take k).count b = 0 := by
    rw [line, line, hsplit, List.count_append] at hline
    omega
  have hbetween : ∀ c ∈ ((text.drop p).take k), (c != b) = true := by
    intro c hc
    rw [bne_iff_ne]
    rintro rfl
    exact List.count_eq_zero.mp hnone hc
  rw [col, col, hsplit, rtakeWhile_append_of_all hbetween, List.length_append] at hcol
  omega

/-! ## Starts -/

section
variable {n : Nat} {u v text : List α} {p : Nat}

theorem startsFrom_nil : startsFrom b n [] = [] := rfl

theorem startsFrom_cons (c : α) (u : List α) :
    startsFrom b n (c :: u)
      = if c = b then (n + 1) :: startsFrom b (n + 1) u else startsFrom b (n + 1) u := by
  by_cases hc : c = b
  · simp [startsFrom, hc]
  · simp [startsFrom, hc]

theorem startsFrom_append (u v : List α) :
    startsFrom b n (u ++ v) = startsFrom b n u ++ startsFrom b (n + u.length) v := by
  rw [startsFrom, List.zipIdx_append, List.filter_append, List.map_append]
  rfl

theorem length_startsFrom (u : List α) : (startsFrom b n u).length = u.count b := by
  induction u generalizing n with
  | nil => rfl
  | cons c u ih =>
    rw [startsFrom_cons, List.count_cons]
    by_cases hc : c = b
    · rw [if_pos hc, List.length_cons, ih, if_pos (by simpa using hc)]
    · rw [if_neg hc, ih, if_neg (by simpa using hc), Nat.add_zero]

theorem mem_startsFrom {s : Nat} (h : s ∈ startsFrom b n u) : n < s ∧ s ≤ n + u.length := by
  obtain ⟨⟨c, i⟩, hmem, rfl⟩ := List.mem_map.mp h
  have hidx := List.mem_zipIdx (List.mem_filter.mp hmem).1
  exact ⟨by omega, by omega⟩

/-- The first start behind the offset `n` is behind the first line break. -/
theorem startsFrom_head (u : List α) :
    u.takeWhile (· != b) = u ∧ startsFrom b n u = [] ∨
      ∃ rest, startsFrom b n u = (n + (u.takeWhile (· != b)).length + 1) :: rest := by
  induction u generalizing n with
  | nil => exact .inl ⟨rfl, rfl⟩
  | cons c u ih =>
    rw [startsFrom_cons]
    by_cases hc : c = b
    · right
      rw [if_pos hc, List.takeWhile_cons_of_neg (by simpa using hc)]
      exact ⟨_, rfl⟩
    · rw [if_neg hc, List.takeWhile_cons_of_pos (by simpa using hc)]
      rcases ih (n := n + 1) with ⟨hall, hnil⟩ | ⟨rest, hcons⟩
      · exact .inl ⟨by rw [hall], hnil⟩
      · right
        refine ⟨rest, ?_⟩
        rw [hcons, List.length_cons]
        congr 1
        omega

theorem length_starts (u : List α) : (starts b u).length = u.count b + 1 := by
  rw [starts, List.length_cons, length_startsFrom]

/-- The last start of a text is that of its last line. Induction on the text from its end. -/
theorem getD_starts_count (u : List α) :
    (starts b u).getD (u.count b) 0 + (u.rtakeWhile (· != b)).length = u.length := by
  induction u using List.reverseRecOn with
  | nil => rfl
  | append_singleton u c ih =>
    have hstarts : starts b (u ++ [c]) = starts b u ++ startsFrom b u.length [c] := by
      rw [starts, startsFrom_append, Nat.zero_add]
      rfl
    rw [hstarts, startsFrom_cons, List.count_append]
    by_cases hc : c = b
    · rw [if_pos hc, List.rtakeWhile_concat_neg _ _ _ (by simpa using hc), hc,
        List.count_singleton_self, ← length_starts, List.getD_append_right _ _ _ _ (Nat.le_refl _),
        Nat.sub_self, List.length_append]
      rfl
    · rw [if_neg hc, List.rtakeWhile_concat_pos _ _ _ (by simpa using hc), startsFrom_nil,
        List.append_nil, List.count_singleton, if_neg (by simpa using hc), Nat.add_zero,
        List.length_append, List.length_append]
      simp only [List.length_singleton]
      omega

/-- The starts in front of an offset and those behind it. -/
theorem starts_split (text : List α) (p : Nat) (hp : p ≤ text.length) :
    starts b text = starts b (text.take p) ++ startsFrom b p (text.drop p) := by
  have hlen : (text.take p).length = p := List.length_take_of_le hp
  conv_lhs => rw [← List.take_append_drop p text]
  rw [starts, startsFrom_append, hlen, Nat.zero_add]
  rfl

theorem length_starts_take (text : List α) (p : Nat) :
    (starts b (text.take p)).length = line b text p := by
  rw [length_starts, line, Nat.add_comm]

theorem line_le_length_starts (hp : p ≤ text.length) :
    line b text p ≤ (starts b text).length := by
  rw [starts_split text p hp, List.length_append, length_starts_take]
  omega

theorem mem_starts_le {s : Nat} (h : s ∈ starts b u) : s ≤ u.length := by
  rcases List.mem_cons.mp h with rfl | h
  · exact Nat.zero_le _
  · have hbound := (mem_startsFrom h).2
    omega

/-- **The starts at or before an offset** are the first `line`. -/
theorem starts_le_iff (hp : p ≤ text.length) {i : Nat} (hi : i < (starts b text).length) :
    (starts b text).getD i 0 ≤ p ↔ i < line b text p := by
  have hfront := length_starts_take (b := b) text p
  rw [starts_split text p hp] at hi ⊢
  rcases Nat.lt_or_ge i (line b text p) with hlt | hge
  · rw [List.getD_append _ _ _ _ (by omega)]
    have hmem : (starts b (text.take p)).getD i 0 ∈ starts b (text.take p) := by
      rw [List.getD_eq_getElem _ _ (by omega)]
      exact List.getElem_mem _
    have hbound := mem_starts_le hmem
    rw [List.length_take] at hbound
    exact iff_of_true (by omega) hlt
  · rw [List.getD_append_right _ _ _ _ (by omega)]
    rw [List.length_append] at hi
    have hmem : (startsFrom b p (text.drop p)).getD (i - (starts b (text.take p)).length) 0
        ∈ startsFrom b p (text.drop p) := by
      rw [List.getD_eq_getElem _ _ (by omega)]
      exact List.getElem_mem _
    have hbound := (mem_startsFrom hmem).1
    exact iff_of_false (by omega) (by omega)

/-- The start of the line of an offset. -/
theorem getD_starts_line (hp : p ≤ text.length) :
    (starts b text).getD (line b text p - 1) 0 + col b text p = p + 1 := by
  have hfront := length_starts_take (b := b) text p
  have hlast := getD_starts_count (b := b) (text.take p)
  have hline : line b text p - 1 = (text.take p).count b := by
    rw [line]
    omega
  rw [List.length_take_of_le hp] at hlast
  rw [starts_split text p hp, List.getD_append _ _ _ _ (by rw [hfront]; unfold line; omega), hline,
    col]
  omega

/-- The line of an offset ends at the next break, or with the text. -/
theorem line_end (hp : p ≤ text.length) :
    if line b text p < (starts b text).length then
      (starts b text).getD (line b text p) 0
        = p + ((text.drop p).takeWhile (· != b)).length + 1
    else text.length = p + ((text.drop p).takeWhile (· != b)).length := by
  have hfront := length_starts_take (b := b) text p
  rw [starts_split text p hp, List.length_append, hfront]
  rcases startsFrom_head (b := b) (n := p) (text.drop p) with ⟨hall, hnil⟩ | ⟨rest, hcons⟩
  · rw [if_neg (by rw [hnil]; simp), hall, List.length_drop]
    omega
  · rw [if_pos (by rw [hcons]; simp), List.getD_append_right _ _ _ _ (by omega), hfront,
      Nat.sub_self, hcons]
    rfl

/-- **The text of a line**: what is in front of the offset since the last break, and what is
behind it to the next. -/
theorem line_text (hp : p ≤ text.length) {first last : Nat}
    (hfirst : first + col b text p = p + 1)
    (hlast : last = p + ((text.drop p).takeWhile (· != b)).length) :
    (text.drop first).take (last - first)
      = (text.take p).rtakeWhile (· != b) ++ (text.drop p).takeWhile (· != b) := by
  have hlen : (text.take p).length = p := List.length_take_of_le hp
  have hhead : (text.take p).rdropWhile (· != b) ++ (text.take p).rtakeWhile (· != b)
      = text.take p := List.rdropWhile_append_rtakeWhile
  have htext : text = (text.take p).rdropWhile (· != b) ++ ((text.take p).rtakeWhile (· != b)
      ++ ((text.drop p).takeWhile (· != b) ++ (text.drop p).dropWhile (· != b))) := by
    rw [List.takeWhile_append_dropWhile, ← List.append_assoc, hhead, List.take_append_drop]
  replace hhead := congrArg List.length hhead
  rw [List.length_append, hlen] at hhead
  rw [col] at hfirst
  have hfront : ((text.take p).rdropWhile (· != b)).length = first := by omega
  have hline : ((text.take p).rtakeWhile (· != b)
      ++ (text.drop p).takeWhile (· != b)).length = last - first := by
    rw [List.length_append]
    omega
  conv_lhs => rw [htext]
  rw [List.drop_left' hfront, ← List.append_assoc, List.take_left' hline]

end

end TextLines
