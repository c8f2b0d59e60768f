import OpenClickNP.Compiler.Buffer

/-!
# The lexer moves forward

`Goes lx lx'`: `lx'` is on the same buffer, not before `lx` and not behind the end. Every operation
but `seekTo` goes on, every turn of a scanning loop that is not at the end passes a character, and
so each of these loops is left through its own condition and not by running out of turns. `next`
returns the end of the file at the end and has moved on otherwise (`next_advances`).
-/

namespace OpenClickNP

namespace Lexer

structure Goes (lx lx' : Lexer) : Prop where
  buf : lx'.buf = lx.buf
  le : lx.pos ≤ lx'.pos
  inside : lx.pos ≤ lx.src.length → lx'.pos ≤ lx.src.length

variable {lx lx' lx'' : Lexer} {start : SourceLoc}

theorem Goes.refl (lx : Lexer) : Goes lx lx := ⟨rfl, Nat.le_refl _, id⟩

theorem Goes.src (h : Goes lx lx') : lx'.src = lx.src := congrArg SourceBuffer.contents h.buf

theorem Goes.trans (h : Goes lx lx') (h' : Goes lx' lx'') : Goes lx lx'' where
  buf := h'.buf.trans h.buf
  le := Nat.le_trans h.le h'.le
  inside hin := by
    have hnext := h'.inside
    rw [h.src] at hnext
    exact hnext (h.inside hin)

theorem Goes.left_le (h : Goes lx lx') : lx'.left ≤ lx.left := by
  have hle := h.le
  rw [left, left, h.src]
  omega

theorem Goes.of_atEnd (h : Goes lx lx') (hend : lx.atEnd = true) : lx'.atEnd = true := by
  have hle := h.le
  simp only [atEnd, decide_eq_true_eq, h.src] at hend ⊢
  omega

theorem left_lt_of_pos_lt (hbuf : lx'.buf = lx.buf) (hend : lx.atEnd = false)
    (hlt : lx.pos < lx'.pos) : lx'.left < lx.left := by
  have hsrc : lx'.src = lx.src := congrArg SourceBuffer.contents hbuf
  simp only [atEnd, decide_eq_false_iff_not, Nat.not_le] at hend
  rw [left, left, hsrc]
  omega

theorem atEnd_of_left (h : lx.left = 0) : lx.atEnd = true := by
  simp only [left, atEnd, decide_eq_true_eq] at h ⊢
  omega

/-! ## Single characters and scans -/

theorem pos_advance (hend : lx.atEnd = false) : lx.advance.pos = lx.pos + 1 := by
  unfold advance
  rw [hend, if_neg Bool.false_ne_true]
  split <;> rfl

theorem advance_of_atEnd (hend : lx.atEnd = true) : lx.advance = lx := by
  rw [advance, if_pos hend]

theorem goes_advance (lx : Lexer) : Goes lx lx.advance := by
  refine ⟨buf_advance lx, ?_, ?_⟩
  · cases hend : lx.atEnd with
    | true => exact (advance_of_atEnd hend).symm ▸ Nat.le_refl _
    | false => rw [pos_advance hend]; omega
  · intro hin
    cases hend : lx.atEnd with
    | true => rwa [advance_of_atEnd hend]
    | false =>
      rw [pos_advance hend]
      simp only [atEnd, decide_eq_false_iff_not, Nat.not_le] at hend
      omega

theorem left_advance_lt (hend : lx.atEnd = false) : lx.advance.left < lx.left :=
  left_lt_of_pos_lt (buf_advance lx) hend (by rw [pos_advance hend]; omega)

theorem Moves.goes (h : Moves lx lx') : Goes lx lx' :=
  h.keeps (P := Goes lx) (fun l hl => hl.trans (goes_advance l))
    (fun _ _ _ hl => hl.trans ⟨rfl, Nat.le_refl _, id⟩) (.refl lx)

theorem Walks.goes (h : Walks lx lx') : Goes lx lx' := h.moves.goes

theorem Walks.pos_lt (hend : lx.atEnd = false) (h : Walks lx.advance lx') : lx.pos < lx'.pos := by
  have hle := h.goes.le
  rwa [pos_advance hend] at hle

theorem advanceWhile_ends (p : Lexer → Bool) (n : Nat) (lx : Lexer) (hn : lx.left ≤ n) :
    (advanceWhile p n lx).atEnd = true ∨ p (advanceWhile p n lx) = false := by
  induction n generalizing lx with
  | zero => exact .inl (atEnd_of_left (Nat.le_zero.mp hn))
  | succ n ih =>
    unfold advanceWhile
    split
    next hgo =>
      simp only [Bool.and_eq_true, Bool.not_eq_true'] at hgo
      have hlt := left_advance_lt hgo.1
      exact ih _ (by omega)
    next hstop =>
      cases hend : lx.atEnd with
      | true => exact .inl rfl
      | false =>
        right
        simpa [hend] using hstop

/-- A scan is left at the end or where its condition fails. -/
theorem scan_ends (lx : Lexer) (p : Lexer → Bool) :
    (lx.scan p).atEnd = true ∨ p (lx.scan p) = false :=
  advanceWhile_ends p lx.left lx (Nat.le_refl _)

theorem pos_lt_scan {p : Lexer → Bool} (hend : lx.atEnd = false) (hp : p lx = true) :
    lx.pos < (lx.scan p).pos := by
  have hleft : 0 < lx.left := by
    simp only [atEnd, decide_eq_false_iff_not, left] at hend ⊢
    omega
  obtain ⟨n, hn⟩ : ∃ n, lx.left = n + 1 := ⟨lx.left - 1, by omega⟩
  simp only [scan, hn, advanceWhile, hend, hp, Bool.not_false, Bool.and_self, if_true]
  exact (walks_advanceWhile p n lx.advance).pos_lt hend

/-! ## Blanks and comments -/

/-- A turn over blanks that goes on has passed a character. -/
theorem skipTurn_goes (hend : lx.atEnd = false) (h : lx.skipTurn = some lx') :
    Goes lx lx' ∧ lx.pos < lx'.pos := by
  unfold skipTurn at h
  simp only at h
  split at h
  · obtain rfl := Option.some.inj h
    exact ⟨goes_advance lx, Walks.refl.pos_lt hend⟩
  · split at h
    next hc =>
      obtain rfl := Option.some.inj h
      exact ⟨(walks_scan lx _).goes, pos_lt_scan hend (by rw [hc.1]; rfl)⟩
    · split at h
      · obtain rfl := Option.some.inj h
        have hwalk := walks_skipBlockComment lx
        exact ⟨hwalk.of_advance.goes, hwalk.pos_lt hend⟩
      · split at h
        next hc =>
          obtain rfl := Option.some.inj h
          exact ⟨(walks_scan lx _).goes, pos_lt_scan hend (by rw [hc]; rfl)⟩
        · cases h

/-- The loop over blanks is left at the end or at its `break`. -/
theorem skip_ends (lx : Lexer) : lx.skipWhitespaceAndComments.atEnd = true ∨
    lx.skipWhitespaceAndComments.skipTurn = none := by
  have hloop : ∀ (n : Nat) (lx : Lexer), lx.left ≤ n →
      (skipLoop n lx).atEnd = true ∨ (skipLoop n lx).skipTurn = none := by
    intro n
    induction n with
    | zero => exact fun lx hn => .inl (atEnd_of_left (Nat.le_zero.mp hn))
    | succ n ih =>
      intro lx hn
      unfold skipLoop
      split
      next hend => exact .inl hend
      next hend =>
        have hend : lx.atEnd = false := Bool.not_eq_true _ ▸ hend
        split
        next lx' hturn =>
          obtain ⟨hgoes, hlt⟩ := skipTurn_goes hend hturn
          have hleft := left_lt_of_pos_lt hgoes.buf hend hlt
          exact ih lx' (by omega)
        next hbreak => exact .inr hbreak
  exact hloop lx.left lx (Nat.le_refl _)

/-! ## Strings -/

/-- The loop over a string is left at the end or at the closing quote. -/
theorem stringLoop_ends (n : Nat) (out : List Char) (lx : Lexer) (hn : lx.left ≤ n) :
    (stringLoop n out lx).2.atEnd = true ∨ (stringLoop n out lx).2.peek = '"' := by
  induction n generalizing out lx with
  | zero => exact .inl (atEnd_of_left (Nat.le_zero.mp hn))
  | succ n ih =>
    unfold stringLoop
    split
    next hstop => simpa using hstop
    next hgo =>
      have hend : lx.atEnd = false := by
        simp only [Bool.or_eq_true, not_or, Bool.not_eq_true] at hgo
        exact hgo.1
      have hlt := left_advance_lt hend
      split
      · have hle := (goes_advance lx.advance).left_le
        exact ih _ _ (by omega)
      · exact ih _ _ (by omega)

/-- The loop over a quoted text of a block is left at the end or at the closing quote. -/
theorem quotedLoop_ends (q : Char) (n : Nat) (lx : Lexer) (hn : lx.left ≤ n) :
    (quotedLoop q n lx).atEnd = true ∨ (quotedLoop q n lx).peek = q := by
  induction n generalizing lx with
  | zero => exact .inl (atEnd_of_left (Nat.le_zero.mp hn))
  | succ n ih =>
    unfold quotedLoop
    split
    next hstop => simpa using hstop
    next hgo =>
      have hend : lx.atEnd = false := by
        simp only [Bool.or_eq_true, not_or, Bool.not_eq_true] at hgo
        exact hgo.1
      have hlt := left_advance_lt hend
      split
      · have hle := (goes_advance lx.advance).left_le
        exact ih _ (by omega)
      · exact ih _ (by omega)

/-! ## Opaque blocks -/

/-- The lexer after a turn of `opaqueLoop` that goes on. -/
def opaqueStep (lx : Lexer) : Lexer :=
  if lx.peek = '/' ∧ lx.peek 1 = '/' then lx.scan fun l => l.peek != '\n'
  else if lx.peek = '/' ∧ lx.peek 1 = '*' then lx.skipBlockComment
  else if lx.peek = '"' ∨ lx.peek = '\'' then lx.skipString lx.peek
  else lx.advance

theorem opaqueStep_goes (hend : lx.atEnd = false) :
    Goes lx lx.opaqueStep ∧ lx.pos < lx.opaqueStep.pos := by
  unfold opaqueStep
  split
  next hc => exact ⟨(walks_scan lx _).goes, pos_lt_scan hend (by rw [hc.1]; rfl)⟩
  · split
    · have hwalk := walks_skipBlockComment lx
      exact ⟨hwalk.of_advance.goes, hwalk.pos_lt hend⟩
    · split
      · have hwalk := walks_skipString lx lx.peek
        exact ⟨hwalk.of_advance.goes, hwalk.pos_lt hend⟩
      · exact ⟨goes_advance lx, Walks.refl.pos_lt hend⟩

/-- A turn of `opaqueLoop`: the loop is left at the end or at depth zero, and goes on behind the
step otherwise. -/
theorem opaqueLoop_succ (n depth : Nat) (lx : Lexer) :
    (opaqueLoop (n + 1) depth lx = (depth, lx) ∧ (lx.atEnd = true ∨ depth = 0)) ∨
      opaqueLoop (n + 1) depth lx = (0, lx) ∨
      (lx.atEnd = false ∧ ∃ depth', opaqueLoop (n + 1) depth lx
        = opaqueLoop n depth' lx.opaqueStep) := by
  rw [opaqueLoop]
  split
  next hstop => exact .inl ⟨rfl, by simpa using hstop⟩
  next hgo =>
    simp only [Bool.or_eq_true, not_or, Bool.not_eq_true] at hgo
    simp only [opaqueStep]
    split
    next hc => exact .inr (.inr ⟨hgo.1, depth, rfl⟩)
    · split
      next hc => exact .inr (.inr ⟨hgo.1, depth, rfl⟩)
      · split
        next hc => exact .inr (.inr ⟨hgo.1, depth, rfl⟩)
        · split
          · exact .inr (.inr ⟨hgo.1, _, rfl⟩)
          · split
            · split
              · exact .inr (.inl rfl)
              · exact .inr (.inr ⟨hgo.1, _, rfl⟩)
            · exact .inr (.inr ⟨hgo.1, _, rfl⟩)

/-- The loop over a block is left at the end or when its braces are closed. -/
theorem opaqueLoop_ends (n depth : Nat) (lx : Lexer) (hn : lx.left ≤ n) :
    (opaqueLoop n depth lx).2.atEnd = true ∨ (opaqueLoop n depth lx).1 = 0 := by
  induction n generalizing depth lx with
  | zero => exact .inl (atEnd_of_left (Nat.le_zero.mp hn))
  | succ n ih =>
    rcases opaqueLoop_succ n depth lx with ⟨heq, hstop⟩ | heq | ⟨hend, depth', heq⟩
    · rw [heq]; exact hstop
    · rw [heq]; exact .inr rfl
    · obtain ⟨hgoes, hlt⟩ := opaqueStep_goes hend
      have hleft := left_lt_of_pos_lt hgoes.buf hend hlt
      rw [heq]
      exact ih _ _ (by omega)

/-- A block that is not closed ends where the file does. -/
theorem lexOpaqueBlock_spec (lx : Lexer) : Goes lx lx.lexOpaqueBlock.2 ∧
    (lx.lexOpaqueBlock.1.kind = .error → lx.lexOpaqueBlock.2.atEnd = true) := by
  refine ⟨(moves_lexOpaqueBlock lx).goes, ?_⟩
  have hends := opaqueLoop_ends lx.left 1 lx (Nat.le_refl _)
  unfold lexOpaqueBlock
  simp only []
  generalize opaqueLoop lx.left 1 lx = out at hends
  obtain ⟨depth, lx'⟩ := out
  intro herror
  have hdepth : depth ≠ 0 := by
    rintro rfl
    exact absurd herror (by simp [token])
  have hend : lx'.atEnd = true := hends.resolve_right hdepth
  have hclosed : (depth == 0) = false := by simpa using hdepth
  rw [hclosed]
  simp only [Bool.false_eq_true, if_false]
  have hreport : Moves lx' (lx'.error { «begin» := lx.here, «end» := lx'.here }
      "unterminated \x60\x7b\x60 block") := .error _ _ .refl
  split
  · exact hreport.advance.goes.of_atEnd hend
  · exact hreport.goes.of_atEnd hend

/-! ## Tokens -/

/-- A token is read: it ends where the lexer then stands, further on than before. -/
structure Takes (lx : Lexer) (out : Token × Lexer) : Prop where
  kind : out.1.kind ≠ .eof
  behind : out.1.range.end = out.2.here
  goes : Goes lx out.2
  lt : lx.pos < out.2.pos

theorem takes_tokOne (hend : lx.atEnd = false) {kind : Tok} (hkind : kind ≠ .eof) :
    Takes lx (lx.tokOne kind start) where
  kind := hkind
  behind := rfl
  goes := goes_advance lx
  lt := Walks.refl.pos_lt hend

theorem takes_tokTwo (hend : lx.atEnd = false) {kind : Tok} (hkind : kind ≠ .eof) :
    Takes lx (lx.tokTwo kind start) where
  kind := hkind
  behind := rfl
  goes := (walks_two lx).goes
  lt := (walks_advance lx.advance).pos_lt hend

theorem lookup_ne {l : List (String × Tok)} (hl : ∀ x ∈ l, x.2 ≠ .eof) {name : String}
    {kind : Tok} (h : l.lookup name = some kind) : kind ≠ .eof := by
  obtain ⟨l₁, l₂, rfl, -⟩ := List.lookup_eq_some_iff.mp h
  exact hl (name, kind) (List.mem_append_right _ List.mem_cons_self)

theorem takes_lexIdentOrKeyword (hend : lx.atEnd = false) (hc : isWordChar lx.peek = true) :
    Takes lx (lx.lexIdentOrKeyword start) where
  kind := by
    show ((keywords.lookup _).getD .ident) ≠ .eof
    generalize hname : String.ofList _ = name
    cases h : keywords.lookup name with
    | none => decide
    | some kind => exact lookup_ne (by decide) h
  behind := rfl
  goes := (walks_scan lx _).goes
  lt := pos_lt_scan hend hc

theorem takes_lexDirectiveKeyword (hend : lx.atEnd = false) :
    Takes lx (lx.lexDirectiveKeyword start) := by
  have hscan := (walks_scan lx.advance fun l => isWordChar l.peek).of_advance.moves
  have hlt := (walks_scan lx.advance fun l => isWordChar l.peek).pos_lt hend
  unfold lexDirectiveKeyword
  simp only []
  split
  next kind h => exact ⟨lookup_ne (by decide) h, rfl, hscan.goes, hlt⟩
  next => exact ⟨nofun, rfl, (hscan.error _ _).goes, hlt⟩

theorem takes_lexDigits {lx₀ : Lexer} {isDigit : Char → Bool} {base : Nat} (hgoes : Goes lx₀ lx)
    (hlt : lx₀.pos < (lx.scan fun l => isDigit l.peek).pos) :
    Takes lx₀ (lx.lexDigits start isDigit base) :=
  ⟨nofun, rfl, hgoes.trans (walks_scan lx _).goes, hlt⟩

theorem takes_lexNumber (hend : lx.atEnd = false) (hc : lx.peek.isDigit = true) :
    Takes lx (lx.lexNumber start) := by
  unfold lexNumber
  split
  · refine takes_lexDigits (walks_two lx).goes ?_
    exact (walks_scan lx.advance.advance _).of_advance.pos_lt hend
  · split
    · exact takes_lexDigits (goes_advance lx) ((walks_scan lx.advance _).pos_lt hend)
    · exact takes_lexDigits (.refl lx) (pos_lt_scan hend hc)

theorem takes_lexString (hend : lx.atEnd = false) : Takes lx (lx.lexString start) := by
  have hloop := walks_stringLoop lx.advance.left [] lx.advance
  unfold lexString
  simp only []
  generalize stringLoop lx.advance.left [] lx.advance = out at hloop
  have hlt : lx.pos < out.2.pos := hloop.pos_lt hend
  split
  · exact ⟨nofun, rfl, (hloop.of_advance.moves.error _ _).goes, hlt⟩
  · exact ⟨nofun, rfl, hloop.of_advance.advance.goes, hloop.advance.pos_lt hend⟩

theorem punctuation_ne {c : Char} {kind : Tok} (h : punctuation c = some kind) : kind ≠ .eof := by
  unfold punctuation at h
  split at h <;> cases h <;> decide

theorem takes_lexToken (hend : lx.atEnd = false) : Takes lx (lx.lexToken start) := by
  unfold lexToken
  simp only []
  split
  · exact takes_tokTwo hend (by decide)
  split
  · exact takes_tokTwo hend (by decide)
  split
  · exact takes_tokTwo hend (by decide)
  split
  next kind h => exact takes_tokOne hend (punctuation_ne h)
  split
  · exact takes_lexString hend
  split
  · exact takes_lexDirectiveKeyword hend
  split
  next hc => exact takes_lexNumber hend hc
  split
  next hc =>
    refine takes_lexIdentOrKeyword hend ?_
    simp only [isWordChar, Char.isAlphanum, Bool.or_eq_true] at hc ⊢
    exact hc.imp_left .inl
  · have hlt : lx.pos < lx.advance.pos := Walks.refl.pos_lt hend
    exact ⟨(by decide : Tok.error ≠ .eof), rfl, ((walks_advance lx).moves.error _ _).goes, hlt⟩

/-- What a call of `next` does: at the end it returns the end of the file, and otherwise it has
moved forward; the token ends where the lexer then stands. -/
structure Advances (lx : Lexer) (out : Token × Lexer) : Prop where
  goes : Goes lx out.2
  behind : out.1.range.end = out.2.here
  forward : out.1.kind = .eof ∧ out.2.atEnd = true ∨ out.1.kind ≠ .eof ∧ lx.pos < out.2.pos

/-- **`next` moves on**, on every buffer and from every position. -/
theorem next_advances (lx : Lexer) : Advances lx lx.next := by
  have hskip := (walks_skip lx).goes
  unfold next
  simp only []
  split
  next hend => exact ⟨hskip, rfl, .inl ⟨rfl, hend⟩⟩
  next hend =>
    have htakes : Takes lx.skipWhitespaceAndComments
        (lx.skipWhitespaceAndComments.lexToken lx.skipWhitespaceAndComments.here) :=
      takes_lexToken (Bool.not_eq_true _ ▸ hend)
    exact ⟨hskip.trans htakes.goes, htakes.behind,
      .inr ⟨htakes.kind, Nat.lt_of_le_of_lt hskip.le htakes.lt⟩⟩

/-- Every loop of the lexer is left through its own condition. -/
structure LoopsEnd : Prop where
  scan : ∀ lx p, (scan lx p).atEnd = true ∨ p (lx.scan p) = false
  skip : ∀ lx, (skipWhitespaceAndComments lx).atEnd = true ∨
    lx.skipWhitespaceAndComments.skipTurn = none
  string : ∀ lx out, (stringLoop (left lx) out lx).2.atEnd = true ∨
    (stringLoop lx.left out lx).2.peek = '"'
  quoted : ∀ q lx, (quotedLoop q (left lx) lx).atEnd = true ∨ (quotedLoop q lx.left lx).peek = q
  block : ∀ depth lx, (opaqueLoop (left lx) depth lx).2.atEnd = true ∨
    (opaqueLoop lx.left depth lx).1 = 0

theorem loopsEnd : LoopsEnd where
  scan := scan_ends
  skip := skip_ends
  string lx out := stringLoop_ends lx.left out lx (Nat.le_refl _)
  quoted q lx := quotedLoop_ends q lx.left lx (Nat.le_refl _)
  block depth lx := opaqueLoop_ends lx.left depth lx (Nat.le_refl _)

end Lexer

end OpenClickNP
