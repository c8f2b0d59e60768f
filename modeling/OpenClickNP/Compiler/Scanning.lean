import OpenClickNP.Compiler.Lexer

/-!
# What the lexer reads

`lx.rest` is the text from `pos_` on. `Passes lx w lx'` says that `lx'` is `lx` moved over the
characters `w`, with nothing else changed. Every scanning loop is described by the text that it
passes.
-/

namespace OpenClickNP

namespace Lexer

/-- The text that has not been read. -/
def rest (lx : Lexer) : List Char := lx.src.drop lx.pos

/-- `lx'` has read `w` since `lx`. -/
structure Passes (lx : Lexer) (w : List Char) (lx' : Lexer) : Prop where
  rest : lx.rest = w ++ lx'.rest
  buf : lx'.buf = lx.buf
  fileId : lx'.fileId = lx.fileId
  diags : lx'.diags = lx.diags
  pos : lx'.pos = lx.pos + w.length

variable {lx lx' lx'' : Lexer} {c : Char} {w w' t : List Char}

theorem Passes.refl (lx : Lexer) : Passes lx [] lx := ⟨rfl, rfl, rfl, rfl, rfl⟩

theorem Passes.trans (h : Passes lx w lx') (h' : Passes lx' w' lx'') :
    Passes lx (w ++ w') lx'' where
  rest := by rw [h.rest, h'.rest, List.append_assoc]
  buf := h'.buf.trans h.buf
  fileId := h'.fileId.trans h.fileId
  diags := h'.diags.trans h.diags
  pos := by rw [h'.pos, h.pos, List.length_append, Nat.add_assoc]

/-- What is left after the text passed. -/
theorem Passes.rest_eq (h : Passes lx w lx') (hrest : lx.rest = w ++ t) : lx'.rest = t :=
  List.append_cancel_left (h.rest.symm.trans hrest)

/-- What has been passed is the text between the two positions. -/
theorem Passes.textFrom (h : Passes lx w lx') : lx'.textFrom lx.pos = w := by
  have hsrc : (lx'.src.drop lx.pos) = w ++ lx'.rest := by
    rw [← h.rest, Lexer.rest, Lexer.src, Lexer.src, h.buf]
  rw [Lexer.textFrom, hsrc, h.pos, Nat.add_sub_cancel_left, List.take_left]

/-! ## One character -/

theorem left_eq (lx : Lexer) : lx.left = lx.rest.length := by
  simp [left, rest]

theorem atEnd_eq (lx : Lexer) : lx.atEnd = lx.rest.isEmpty := by
  unfold atEnd rest
  rw [Bool.eq_iff_iff, List.isEmpty_iff, List.drop_eq_nil_iff, decide_eq_true_iff]

theorem atEnd_of_nil (h : lx.rest = []) : lx.atEnd = true := by rw [atEnd_eq, h, List.isEmpty_nil]

theorem atEnd_of_cons (h : lx.rest = c :: t) : lx.atEnd = false := by
  rw [atEnd_eq, h, List.isEmpty_cons]

theorem peek_eq (lx : Lexer) (k : Nat) : lx.peek k = lx.rest.getD k '\x00' := by
  simp [peek, rest, List.getD_eq_getElem?_getD]

theorem peek_error (lx : Lexer) (r : SourceRange) (msg : String) (k : Nat) :
    (lx.error r msg).peek k = lx.peek k := rfl

theorem peek_of_cons (h : lx.rest = c :: t) : lx.peek = c := by
  rw [peek_eq, h]
  rfl

theorem peek_one_of_cons (h : lx.rest = c :: t) : lx.peek 1 = t.headD '\x00' := by
  rw [peek_eq, h]
  cases t <;> rfl

theorem passes_advance (h : lx.rest = c :: t) : Passes lx [c] lx.advance := by
  have hpos : lx.advance.pos = lx.pos + 1 ∧ lx.advance.buf = lx.buf ∧
      lx.advance.fileId = lx.fileId ∧ lx.advance.diags = lx.diags := by
    unfold advance
    rw [atEnd_of_cons h, if_neg Bool.false_ne_true]
    split <;> exact ⟨rfl, rfl, rfl, rfl⟩
  obtain ⟨hpos, hbuf, hfile, hdiags⟩ := hpos
  refine ⟨?_, hbuf, hfile, hdiags, hpos⟩
  have htail : lx.advance.rest = t := by
    have hdrop : lx.src.drop (lx.pos + 1) = (lx.src.drop lx.pos).drop 1 := by rw [List.drop_drop]
    rw [rest, src, hbuf, hpos]
    exact hdrop.trans (congrArg (List.drop 1) h)
  rw [h, htail]
  rfl

theorem rest_advance (h : lx.rest = c :: t) : lx.advance.rest = t :=
  (passes_advance h).rest_eq h

/-! ## Scans -/

-- Characters are finitely many, so `∀ c` alone is decidable too, by going over all of them.
instance decidableAllChars (p : Char → Prop) [DecidablePred p] (w : List Char) :
    Decidable (∀ c ∈ w, p c) :=
  List.decidableBAll p w

instance decidableAllHead (p : Char → Prop) [DecidablePred p] (c : Option Char) :
    Decidable (∀ d ∈ c, p d) :=
  Option.decidableForallMem c

instance decidableAnyHead (p : Char → Prop) [DecidablePred p] (c : Option Char) :
    Decidable (∃ d ∈ c, p d) :=
  Option.decidableExistsMem c

/-- The first character that is left does not meet `f`. -/
def StopsAt (f : Char → Bool) (t : List Char) : Prop := ∀ c ∈ t.head?, f c = false

instance (f : Char → Bool) (t : List Char) : Decidable (StopsAt f t) :=
  inferInstanceAs (Decidable (∀ c ∈ t.head?, f c = false))

/-- A scan that looks at the text ahead takes the longest prefix in front of which it goes on.
Induction on that prefix. -/
theorem passes_scanText {p : Lexer → Bool} (go : List Char → Bool) (hp : ∀ l, p l = go l.rest)
    (hrest : lx.rest = w ++ t) (hw : ∀ u, u <:+ w → u ≠ [] → go (u ++ t) = true)
    (ht : t ≠ [] → go t = false) : Passes lx w (lx.scan p) := by
  have hleft : w.length ≤ lx.left := by simp [left_eq, hrest]
  rw [scan]
  generalize lx.left = n at hleft
  induction w generalizing lx n with
  | nil =>
    have hstop : advanceWhile p n lx = lx := by
      cases n with
      | zero => rfl
      | succ n =>
        rw [advanceWhile, hp, hrest]
        cases t with
        | nil => simp [atEnd_of_nil hrest]
        | cons d t => simp [ht]
    rw [hstop]
    exact .refl lx
  | cons d w ih =>
    obtain ⟨m, rfl⟩ : ∃ m, n = m + 1 := ⟨n - 1, by simp at hleft; omega⟩
    have hgo := hw (d :: w) (List.suffix_refl _) (List.cons_ne_nil d w)
    have hstep : advanceWhile p (m + 1) lx = advanceWhile p m lx.advance := by
      rw [advanceWhile, hp, hrest, hgo, atEnd_of_cons hrest]
      rfl
    rw [hstep]
    exact (passes_advance hrest).trans (ih (rest_advance hrest)
      (fun u hu => hw u (hu.trans (List.suffix_cons d w))) m (by simpa using hleft))

/-- A scan on the character it stands on takes the longest run of its characters. -/
theorem passes_scan {f : Char → Bool} (hrest : lx.rest = w ++ t) (hw : ∀ c ∈ w, f c = true)
    (ht : StopsAt f t) : Passes lx w (lx.scan fun l => f l.peek) := by
  refine passes_scanText (fun r => f (r.headD '\x00')) (fun l => ?_) hrest (fun u hu hne => ?_)
    fun hne => ?_
  · rw [peek_eq]
    cases l.rest <;> rfl
  · obtain ⟨c, u, rfl⟩ := List.exists_cons_of_ne_nil hne
    exact hw c (hu.subset List.mem_cons_self)
  · obtain ⟨c, t, rfl⟩ := List.exists_cons_of_ne_nil hne
    exact ht c rfl

/-! ## Blanks -/

def isBlank (c : Char) : Bool := c == ' ' || c == '\t' || c == '\r' || c == '\n'

/-- A character that `skipWhitespaceAndComments` may go on at. -/
def startsBlank (c : Char) : Bool := isBlank c || c == '/' || c == '#'

theorem skipTurn_of_blank (h : lx.rest = c :: t) (hc : isBlank c = true) :
    lx.skipTurn = some lx.advance := by
  have hor : c = ' ' ∨ c = '\t' ∨ c = '\r' ∨ c = '\n' := by simpa [isBlank, or_assoc] using hc
  simp only [skipTurn, peek_of_cons h, if_pos hor]

theorem skipTurn_of_start (h : lx.rest = c :: t) (hc : startsBlank c = false) :
    lx.skipTurn = none := by
  simp only [startsBlank, isBlank, Bool.or_eq_false_iff, beq_eq_false_iff_ne] at hc
  obtain ⟨⟨⟨⟨⟨h₁, h₂⟩, h₃⟩, h₄⟩, h₅⟩, h₆⟩ := hc
  simp only [skipTurn, peek_of_cons h, h₁, h₂, h₃, h₄, h₅, h₆, or_self, false_and, if_false]

theorem passes_skip (hrest : lx.rest = w ++ t) (hw : ∀ c ∈ w, isBlank c = true)
    (ht : StopsAt startsBlank t) : Passes lx w lx.skipWhitespaceAndComments := by
  have hleft : w.length ≤ lx.left := by simp [left_eq, hrest]
  rw [skipWhitespaceAndComments]
  generalize lx.left = n at hleft
  induction w generalizing lx n with
  | nil =>
    have hstop : skipLoop n lx = lx := by
      cases n with
      | zero => rfl
      | succ n =>
        rw [skipLoop]
        cases t with
        | nil => rw [atEnd_of_nil hrest, if_pos rfl]
        | cons d t =>
          rw [atEnd_of_cons hrest, if_neg Bool.false_ne_true, skipTurn_of_start hrest (ht d rfl)]
    rw [hstop]
    exact .refl lx
  | cons d w ih =>
    obtain ⟨m, rfl⟩ : ∃ m, n = m + 1 := ⟨n - 1, by simp at hleft; omega⟩
    have hstep : skipLoop (m + 1) lx = skipLoop m lx.advance := by
      rw [skipLoop, atEnd_of_cons hrest, if_neg Bool.false_ne_true,
        skipTurn_of_blank hrest (hw d List.mem_cons_self)]
    rw [hstep]
    exact (passes_advance hrest).trans (ih (rest_advance hrest)
      (fun c hc => hw c (List.mem_cons_of_mem _ hc)) m (by simpa using hleft))

end Lexer

end OpenClickNP
