import OpenClickNP.Compiler.Lexer

/-!
# The lexer walks

Everything that the lexer does to its position it does through `advance`. `Walks lx lx'` says that
`lx'` is `lx` after some of these steps, and every scanning loop is such a walk; `Moves lx lx'` has
reported errors on the way too, as `next` and `lexOpaqueBlock` do. What a step keeps, a walk keeps
(`Walks.keeps`).
-/

namespace OpenClickNP

namespace Lexer

/-- `lx'` is `lx` after some calls of `advance`. -/
inductive Walks (lx : Lexer) : Lexer → Prop
  | refl : Walks lx lx
  | advance {lx' : Lexer} : Walks lx lx' → Walks lx lx'.advance

/-- `lx'` is `lx` after some calls of `advance` and some errors. -/
inductive Moves (lx : Lexer) : Lexer → Prop
  | refl : Moves lx lx
  | advance {lx' : Lexer} : Moves lx lx' → Moves lx lx'.advance
  | error {lx' : Lexer} (r : SourceRange) (msg : String) : Moves lx lx' → Moves lx (lx'.error r msg)

variable {lx lx' lx'' : Lexer} {start : SourceLoc}

theorem Walks.keeps {P : Lexer → Prop} (hstep : ∀ l, P l → P l.advance) (h : Walks lx lx')
    (hP : P lx) : P lx' := by
  induction h with
  | refl => exact hP
  | advance _ ih => exact hstep _ ih

theorem Walks.trans (h : Walks lx lx') (h' : Walks lx' lx'') : Walks lx lx'' :=
  h'.keeps (fun _ => .advance) h

theorem Moves.keeps {P : Lexer → Prop} (hstep : ∀ l, P l → P l.advance)
    (herror : ∀ l r msg, P l → P (l.error r msg)) (h : Moves lx lx') (hP : P lx) : P lx' := by
  induction h with
  | refl => exact hP
  | advance _ ih => exact hstep _ ih
  | error r msg _ ih => exact herror _ r msg ih

theorem Moves.trans (h : Moves lx lx') (h' : Moves lx' lx'') : Moves lx lx'' :=
  h'.keeps (fun _ => .advance) (fun _ r msg => .error r msg) h

theorem Walks.moves (h : Walks lx lx') : Moves lx lx' :=
  h.keeps (fun _ => .advance) .refl

/-! ## What stays -/

@[simp] theorem buf_error (lx : Lexer) (r : SourceRange) (msg : String) :
    (lx.error r msg).buf = lx.buf := rfl

@[simp] theorem buf_seekTo (lx : Lexer) (offset : UInt32) : (lx.seekTo offset).buf = lx.buf := rfl

@[simp] theorem diags_seekTo (lx : Lexer) (offset : UInt32) : (lx.seekTo offset).diags = lx.diags :=
  rfl

/-- `advance` changes nothing but the position. -/
theorem advance_frame (lx : Lexer) : lx.advance.buf = lx.buf ∧ lx.advance.fileId = lx.fileId ∧
    lx.advance.diags = lx.diags := by
  unfold advance
  split
  · exact ⟨rfl, rfl, rfl⟩
  · split <;> exact ⟨rfl, rfl, rfl⟩

@[simp] theorem buf_advance (lx : Lexer) : lx.advance.buf = lx.buf := (advance_frame lx).1

theorem Walks.fileId (h : Walks lx lx') : lx'.fileId = lx.fileId :=
  h.keeps (P := fun l => l.fileId = lx.fileId) (fun l hl => (advance_frame l).2.1.trans hl) rfl

theorem Walks.diags (h : Walks lx lx') : lx'.diags = lx.diags :=
  h.keeps (P := fun l => l.diags = lx.diags) (fun l hl => (advance_frame l).2.2.trans hl) rfl

theorem Moves.buf (h : Moves lx lx') : lx'.buf = lx.buf :=
  h.keeps (P := fun l => l.buf = lx.buf) (fun l hl => (buf_advance l).trans hl)
    (fun _ _ _ hl => hl) rfl

/-! ## Scans -/

theorem walks_advance (lx : Lexer) : Walks lx lx.advance := .advance .refl

theorem Walks.of_advance (h : Walks lx.advance lx') : Walks lx lx' := (walks_advance lx).trans h

theorem walks_two (lx : Lexer) : Walks lx lx.advance.advance := .advance (.advance .refl)

theorem walks_advanceWhile (p : Lexer → Bool) (n : Nat) (lx : Lexer) :
    Walks lx (advanceWhile p n lx) := by
  induction n generalizing lx with
  | zero => exact .refl
  | succ n ih =>
    unfold advanceWhile
    split
    · exact (ih _).of_advance
    · exact .refl

theorem walks_scan (lx : Lexer) (p : Lexer → Bool) : Walks lx (lx.scan p) :=
  walks_advanceWhile p lx.left lx

theorem walks_skipBlockComment (lx : Lexer) : Walks lx.advance lx.skipBlockComment := by
  have hscan := (walks_scan lx.advance.advance
    fun l => !(l.peek == '*' && l.peek 1 == '/')).of_advance
  unfold skipBlockComment
  simp only []
  split
  · exact hscan
  · exact hscan.trans (walks_two _)

theorem walks_skipTurn (h : lx.skipTurn = some lx') : Walks lx lx' := by
  unfold skipTurn at h
  simp only at h
  repeat' split at h
  · obtain rfl := Option.some.inj h
    exact walks_advance lx
  · obtain rfl := Option.some.inj h
    exact walks_scan lx _
  · obtain rfl := Option.some.inj h
    exact (walks_skipBlockComment lx).of_advance
  · obtain rfl := Option.some.inj h
    exact walks_scan lx _
  · cases h

theorem walks_skip (lx : Lexer) : Walks lx lx.skipWhitespaceAndComments := by
  unfold skipWhitespaceAndComments
  generalize lx.left = n
  induction n generalizing lx with
  | zero => exact .refl
  | succ n ih =>
    unfold skipLoop
    split
    · exact .refl
    · split
      next lx' hturn => exact (walks_skipTurn hturn).trans (ih lx')
      · exact .refl

theorem walks_stringLoop (n : Nat) (out : List Char) (lx : Lexer) :
    Walks lx (stringLoop n out lx).2 := by
  induction n generalizing out lx with
  | zero => exact .refl
  | succ n ih =>
    unfold stringLoop
    split
    · exact .refl
    · split
      · exact (walks_two lx).trans (ih _ _)
      · exact (ih _ _).of_advance

theorem walks_quotedLoop (q : Char) (n : Nat) (lx : Lexer) : Walks lx (quotedLoop q n lx) := by
  induction n generalizing lx with
  | zero => exact .refl
  | succ n ih =>
    unfold quotedLoop
    split
    · exact .refl
    · split
      · exact (walks_two lx).trans (ih _)
      · exact (ih _).of_advance

theorem walks_skipString (lx : Lexer) (q : Char) : Walks lx.advance (lx.skipString q) := by
  have hloop := walks_quotedLoop q lx.advance.left lx.advance
  unfold skipString
  simp only []
  split
  · exact hloop
  · exact hloop.advance

theorem walks_opaqueLoop (n depth : Nat) (lx : Lexer) : Walks lx (opaqueLoop n depth lx).2 := by
  induction n generalizing depth lx with
  | zero => exact .refl
  | succ n ih =>
    unfold opaqueLoop
    simp only []
    split
    · exact .refl
    split
    · exact (walks_scan lx _).trans (ih _ _)
    split
    · exact (walks_skipBlockComment lx).of_advance.trans (ih _ _)
    split
    · exact (walks_skipString lx _).of_advance.trans (ih _ _)
    split
    · exact (ih _ _).of_advance
    split
    · split
      · exact .refl
      · exact (ih _ _).of_advance
    · exact (ih _ _).of_advance

/-! ## Tokens -/

theorem moves_lexString : Moves lx (lx.lexString start).2 := by
  have hloop := (walks_stringLoop lx.advance.left [] lx.advance).of_advance.moves
  unfold lexString
  simp only []
  split
  · exact hloop.error _ _
  · exact hloop.advance

theorem moves_lexDirectiveKeyword : Moves lx (lx.lexDirectiveKeyword start).2 := by
  have hscan := (walks_scan lx.advance fun l => isWordChar l.peek).of_advance.moves
  unfold lexDirectiveKeyword
  simp only []
  split
  · exact hscan
  · exact hscan.error _ _

theorem walks_lexNumber : Walks lx (lx.lexNumber start).2 := by
  unfold lexNumber
  split
  · exact (walks_two lx).trans (walks_scan _ _)
  · split
    · exact (walks_scan _ _).of_advance
    · exact walks_scan lx _

theorem moves_lexToken : Moves lx (lx.lexToken start).2 := by
  have htwo := (walks_two lx).moves
  have hone := (walks_advance lx).moves
  unfold lexToken
  simp only []
  split
  · exact htwo
  split
  · exact htwo
  split
  · exact htwo
  split
  · exact hone
  split
  · exact moves_lexString
  split
  · exact moves_lexDirectiveKeyword
  split
  · exact walks_lexNumber.moves
  split
  · exact (walks_scan lx _).moves
  · exact hone.error _ _

theorem moves_next (lx : Lexer) : Moves lx lx.next.2 := by
  have hskip := (walks_skip lx).moves
  unfold next
  simp only []
  split
  · exact hskip
  · exact hskip.trans moves_lexToken

theorem moves_lexOpaqueBlock (lx : Lexer) : Moves lx lx.lexOpaqueBlock.2 := by
  have hloop := (walks_opaqueLoop lx.left 1 lx).moves
  unfold lexOpaqueBlock
  simp only []
  generalize opaqueLoop lx.left 1 lx = out at hloop
  obtain ⟨depth, lx'⟩ := out
  have hreport : Moves lx (if (depth == 0) = true then lx'
      else lx'.error { «begin» := lx.here, «end» := lx'.here }
        "unterminated \x60\x7b\x60 block") := by
    split
    · exact hloop
    · exact hloop.error _ _
  generalize (if (depth == 0) = true then lx' else lx'.error _ _) = lx'' at hreport
  show Moves lx (if lx''.peek = '\x7d' then lx''.advance else lx'')
  split
  · exact hreport.advance
  · exact hreport

@[simp] theorem buf_next : lx.next.2.buf = lx.buf := (moves_next lx).buf

@[simp] theorem buf_lexOpaqueBlock : lx.lexOpaqueBlock.2.buf = lx.buf :=
  (moves_lexOpaqueBlock lx).buf

end Lexer

end OpenClickNP
