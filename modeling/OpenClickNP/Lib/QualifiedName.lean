import Mathlib.Data.List.Basic

/-!
# Qualified names

`outer ++ "::" ++ inner`. A plain name has no separator in it, so a qualified name with plain
components can be taken apart in one way only.
-/

namespace QualifiedName

/-- A name without a separator. -/
def Plain (s : String) : Prop := ':' ∉ s.toList

instance (s : String) : Decidable (Plain s) := inferInstanceAs (Decidable (_ ∉ _))

/-- `inner` in the scope `scope`; `none` is the scope of the whole program. -/
def qualify : Option String → String → String
  | none, inner => inner
  | some outer, inner => outer ++ "::" ++ inner

theorem Plain.append {a b : String} (ha : Plain a) (hb : Plain b) : Plain (a ++ b) := by
  simpa [Plain, String.toList_append] using ⟨ha, hb⟩

theorem not_plain_qualify (a b : String) : ¬ Plain (a ++ "::" ++ b) := by
  simp [Plain, String.toList_append]

theorem qualify_inj {N : Option String} {a b : String} (h : qualify N a = qualify N b) :
    a = b := by
  cases N with
  | none => exact h
  | some outer => simpa [qualify] using h

theorem append_cons_inj {α : Type*} {sep : α} {a b x y : List α} (ha : sep ∉ a) (hb : sep ∉ b)
    (h : a ++ sep :: x = b ++ sep :: y) : a = b := by
  induction a generalizing b with
  | nil =>
    cases b with
    | nil => rfl
    | cons c b =>
      have hc : sep = c := by simpa using (List.cons.inj h).1
      exact absurd (hc ▸ List.mem_cons_self) hb
  | cons c a ih =>
    cases b with
    | nil =>
      have hc : c = sep := by simpa using (List.cons.inj h).1
      exact absurd (hc ▸ List.mem_cons_self) ha
    | cons d b =>
      obtain ⟨hcd, hrest⟩ := List.cons.inj h
      rw [hcd, ih (fun hm => ha (List.mem_cons_of_mem _ hm))
        (fun hm => hb (List.mem_cons_of_mem _ hm)) hrest]

theorem qualify_append (N : Option String) (a x : String) :
    qualify N a ++ "::" ++ x = qualify N (a ++ "::" ++ x) := by
  cases N with
  | none => rfl
  | some outer => simp only [qualify, String.append_assoc]

/-- The first plain components of two equal qualified names are equal. -/
theorem head_inj {a b x y : String} (ha : Plain a) (hb : Plain b)
    (h : a ++ "::" ++ x = b ++ "::" ++ y) : a = b := by
  have hlist := congrArg String.toList h
  simp only [String.toList_append, List.append_assoc] at hlist
  exact String.toList_inj.mp (append_cons_inj ha hb hlist)

theorem plain_ne_qualify {a b x : String} (ha : Plain a) : a ≠ b ++ "::" ++ x := by
  rintro rfl
  exact not_plain_qualify b x ha

/-- A plain name is its scope's own: no name further in is equal to it. -/
theorem qualify_ne_deeper {N : Option String} {a b x : String} (ha : Plain a) :
    qualify N a ≠ qualify N b ++ "::" ++ x := by
  rw [qualify_append]
  intro h
  exact plain_ne_qualify ha (qualify_inj h)

/-- Two names further in share the next component. -/
theorem deeper_inj {N : Option String} {a b x y : String} (ha : Plain a) (hb : Plain b)
    (h : qualify N a ++ "::" ++ x = qualify N b ++ "::" ++ y) : a = b := by
  rw [qualify_append, qualify_append] at h
  exact head_inj ha hb (qualify_inj h)

/-! ## Numbered names -/

/-- `stem ++ tag ++ k` with a decimal number at its end. -/
def numbered (stem tag : String) (k : Nat) : String := stem ++ tag ++ toString k

theorem plain_numbered {stem tag : String} (hs : Plain stem) (ht : Plain tag) (k : Nat) :
    Plain (numbered stem tag k) := by
  apply (hs.append ht).append
  intro hmem
  rw [Nat.toString_eq_repr, Nat.toList_repr] at hmem
  have hdigit := Nat.isDigit_of_mem_toDigits (by decide) (by decide) hmem
  exact absurd hdigit (by decide)

/-- The number can be read back, and so can what stands in front of it, when both tags end in
something else than a digit: the number is the longest run of digits at the end. -/
theorem numbered_split {stem stem' tag tag' : String} {k k' : Nat} {last last' : Char}
    (htag : tag.toList.getLast? = some last) (hlast : last.isDigit = false)
    (htag' : tag'.toList.getLast? = some last') (hlast' : last'.isDigit = false)
    (h : numbered stem tag k = numbered stem' tag' k') : stem ++ tag = stem' ++ tag' ∧ k = k' := by
  have hsplit : ∀ (s t : String) (c : Char) (i : Nat), t.toList.getLast? = some c →
      c.isDigit = false →
      (numbered s t i).toList.reverse.takeWhile Char.isDigit = (Nat.toDigits 10 i).reverse ∧
        (numbered s t i).toList.reverse.dropWhile Char.isDigit = (s ++ t).toList.reverse := by
    intro s t c i ht hc
    have hdigits : ∀ c ∈ (Nat.toDigits 10 i).reverse, c.isDigit = true := by
      intro c hc
      exact Nat.isDigit_of_mem_toDigits (by decide) (by decide) (List.mem_reverse.mp hc)
    obtain ⟨init, htl⟩ : ∃ init, t.toList = init ++ [c] := List.getLast?_eq_some_iff.mp ht
    have hrev : (s ++ t).toList.reverse = c :: (s.toList ++ init).reverse := by
      rw [String.toList_append, htl, ← List.append_assoc, List.reverse_append]
      rfl
    rw [numbered, Nat.toString_eq_repr, String.toList_append, Nat.toList_repr,
      List.reverse_append, List.takeWhile_append_of_pos hdigits,
      List.dropWhile_append_of_pos hdigits, hrev]
    simp [hc]
  obtain ⟨htake, hdrop⟩ := hsplit stem tag last k htag hlast
  obtain ⟨htake', hdrop'⟩ := hsplit stem' tag' last' k' htag' hlast'
  rw [h] at htake hdrop
  refine ⟨String.toList_inj.mp (List.reverse_inj.mp (hdrop.symm.trans hdrop')), ?_⟩
  have hk := List.reverse_inj.mp (htake.symm.trans htake')
  have hnum := congrArg (fun ds => Nat.ofDigitChars 10 ds 0) hk
  simpa [Nat.ofDigitChars_toDigits] using hnum

/-- The number of a tagged name does not depend on the stem. -/
theorem numbered_inj {stem stem' tag : String} {k k' : Nat} {last : Char}
    (htag : tag.toList.getLast? = some last) (hlast : last.isDigit = false)
    (h : numbered stem tag k = numbered stem' tag k') : k = k' :=
  (numbered_split htag hlast htag hlast h).2

end QualifiedName
