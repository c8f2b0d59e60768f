import OpenClickNP.Compiler.ParserTermination
import OpenClickNP.Lib.Keeping

/-!
# The files of diagnostics

The lexer gives every token and every error the id of its own file (`lexed_next`). The parser copies
ranges from tokens, so that the ranges of the statements and of the errors are those of files that
have been opened (`triple_parseFile`). The error of a file that cannot be opened is put at the start
of file `0`, which need not be there.
-/

namespace OpenClickNP

/-- Both ends are in the file `f`. -/
structure SourceRange.InFile (r : SourceRange) (f : UInt32) : Prop where
  begins : r.begin.fileId = f
  ends : r.end.fileId = f

/-- Both ends are in one of the first `n` files. -/
structure SourceRange.Within (n : Nat) (r : SourceRange) : Prop where
  begins : r.begin.fileId.toNat < n
  ends : r.end.fileId.toNat < n

theorem SourceRange.InFile.within {r : SourceRange} {f : UInt32} {n : Nat} (h : r.InFile f)
    (hf : f.toNat < n) : r.Within n := ⟨h.begins ▸ hf, h.ends ▸ hf⟩

theorem SourceRange.Within.mono {r : SourceRange} {n n' : Nat} (h : r.Within n) (hle : n ≤ n') :
    r.Within n' := ⟨Nat.lt_of_lt_of_le h.begins hle, Nat.lt_of_lt_of_le h.ends hle⟩

/-- A range that is made up of the ends of two others. -/
theorem SourceRange.Within.join {r r' : SourceRange} {n : Nat} (h : r.Within n)
    (h' : r'.Within n) : SourceRange.Within n { «begin» := r.begin, «end» := r'.end } :=
  ⟨h.begins, h'.ends⟩

/-- The default range is in file `0`. -/
theorem SourceRange.within_default {n : Nat} (hn : 0 < n) : SourceRange.Within n {} := ⟨hn, hn⟩

/-! ## The lexer -/

namespace Lexer

/-- `lx'` is in the file of `lx`, and so are the errors that were added. -/
structure Stays (lx lx' : Lexer) : Prop where
  fileId : lx'.fileId = lx.fileId
  diags : ∀ x ∈ lx'.diags.diags, x ∈ lx.diags.diags ∨ x.range.InFile lx.fileId

/-- A token of the file. -/
structure Lexed (lx : Lexer) (out : Token × Lexer) : Prop where
  stays : Stays lx out.2
  range : out.1.range.InFile lx.fileId

variable {lx lx' lx'' : Lexer} {start : SourceLoc}

theorem Stays.refl (lx : Lexer) : Stays lx lx := ⟨rfl, fun _ => .inl⟩

theorem Stays.trans (h : Stays lx lx') (h' : Stays lx' lx'') : Stays lx lx'' where
  fileId := h'.fileId.trans h.fileId
  diags x hx := by
    rcases h'.diags x hx with hx | hx
    · exact h.diags x hx
    · exact .inr (h.fileId ▸ hx)

theorem stays_error {r : SourceRange} (hr : r.InFile lx.fileId) (msg : String) :
    Stays lx (lx.error r msg) where
  fileId := rfl
  diags x hx := by
    rcases List.mem_append.mp hx with hx | hx
    · exact .inl hx
    · rw [List.mem_singleton.mp hx]
      exact .inr hr

theorem stays_seekTo (lx : Lexer) (offset : UInt32) : Stays lx (lx.seekTo offset) :=
  ⟨rfl, fun _ => .inl⟩

theorem Walks.stays (h : Walks lx lx') : Stays lx lx' :=
  ⟨h.fileId, fun _ hx => .inl (h.diags ▸ hx)⟩

/-- A token from `start` to where the lexer is. -/
theorem Stays.lexed (h : Stays lx lx') (hstart : start.fileId = lx.fileId) (kind : Tok)
    (text : List Char) (value : UInt64) : Lexed lx (lx'.token start kind text value, lx') :=
  ⟨h, hstart, h.fileId⟩

/-- An error on the range of the token. -/
theorem Lexed.error {t : Token} (h : Lexed lx (t, lx')) (msg : String) :
    Lexed lx (t, lx'.error t.range msg) :=
  ⟨h.stays.trans (stays_error (h.stays.fileId ▸ h.range) msg), h.range⟩

theorem lexed_string (hstart : start.fileId = lx.fileId) : Lexed lx (lx.lexString start) := by
  have hloop := (walks_stringLoop lx.advance.left [] lx.advance).of_advance
  unfold lexString
  simp only []
  split
  · exact (hloop.stays.trans (stays_error ⟨hstart.trans hloop.fileId.symm, rfl⟩ _)).lexed
      hstart _ _ _
  · exact hloop.advance.stays.lexed hstart _ _ _

theorem lexed_directive (hstart : start.fileId = lx.fileId) :
    Lexed lx (lx.lexDirectiveKeyword start) := by
  have hscan := (walks_scan lx.advance fun l => isWordChar l.peek).of_advance.stays
  unfold lexDirectiveKeyword
  simp only []
  split
  · exact hscan.lexed hstart _ _ _
  · exact (hscan.lexed hstart _ _ _).error _

theorem lexed_digits (hstay : Stays lx lx') (hstart : start.fileId = lx.fileId)
    (isDigit : Char → Bool) (base : Nat) : Lexed lx (lx'.lexDigits start isDigit base) :=
  (hstay.trans (walks_scan lx' fun l => isDigit l.peek).stays).lexed hstart _ _ _

theorem lexed_number (hstart : start.fileId = lx.fileId) : Lexed lx (lx.lexNumber start) := by
  unfold lexNumber
  split
  · exact lexed_digits (walks_two lx).stays hstart _ _
  · split
    · exact lexed_digits (walks_advance lx).stays hstart _ _
    · exact lexed_digits (.refl lx) hstart _ _

theorem lexed_token (hstart : start.fileId = lx.fileId) : Lexed lx (lx.lexToken start) := by
  have htwo := (walks_two lx).stays
  unfold lexToken
  simp only []
  split
  · exact htwo.lexed hstart _ _ _
  split
  · exact htwo.lexed hstart _ _ _
  split
  · exact htwo.lexed hstart _ _ _
  split
  · exact (walks_advance lx).stays.lexed hstart _ _ _
  split
  · exact lexed_string hstart
  split
  · exact lexed_directive hstart
  split
  · exact lexed_number hstart
  split
  · exact (walks_scan lx _).stays.lexed hstart _ _ _
  · exact ((walks_advance lx).stays.lexed hstart _ _ _).error _

/-- **Tokens.** -/
theorem lexed_next (lx : Lexer) : Lexed lx lx.next := by
  have hskip := (walks_skip lx).stays
  unfold next
  simp only []
  split
  · exact ⟨hskip, hskip.fileId, hskip.fileId⟩
  · have htoken : Lexed lx.skipWhitespaceAndComments (lx.skipWhitespaceAndComments.lexToken
        lx.skipWhitespaceAndComments.here) := lexed_token rfl
    exact ⟨hskip.trans htoken.stays, hskip.fileId ▸ htoken.range⟩

/-- **Blocks.** -/
theorem lexed_opaqueBlock (lx : Lexer) : Lexed lx lx.lexOpaqueBlock := by
  have hloop := (walks_opaqueLoop lx.left 1 lx).stays
  unfold lexOpaqueBlock
  simp only []
  generalize opaqueLoop lx.left 1 lx = out at hloop
  obtain ⟨depth, lx'⟩ := out
  have hreport : Stays lx (if (depth == 0) = true then lx'
      else lx'.error { «begin» := lx.here, «end» := lx'.here }
        "unterminated \x60\x7b\x60 block") := by
    split
    · exact hloop
    · exact hloop.trans (stays_error ⟨hloop.fileId.symm, rfl⟩ _)
  generalize (if (depth == 0) = true then lx' else lx'.error _ _) = lx'' at hreport
  refine ⟨?_, rfl, hreport.fileId⟩
  show Stays lx (if lx''.peek = '\x7d' then lx''.advance else lx'')
  split
  · exact hreport.trans (walks_advance _).stays
  · exact hreport

end Lexer

/-! ## Tokens -/

namespace Parser

open Ast Production

def GroupWithin (n : Nat) : GroupStmt → Prop
  | .instanceDecl d => d.src.Within n
  | .connectionDecl c => c.src.Within n

/-- The statement, and the statements of a group, are in the first `n` files. -/
def TopWithin (n : Nat) : TopStmt → Prop
  | .importDecl d => d.src.Within n
  | .elementDecl d => d.src.Within n
  | .elementGroupDecl g => g.src.Within n ∧ ∀ x ∈ g.body, GroupWithin n x
  | .instanceDecl d => d.src.Within n
  | .connectionDecl c => c.src.Within n

/-- Everything that the state refers to is in the first `n` files, and these are open. -/
structure FileState.Within (n : Nat) (s : FileState) : Prop where
  count : n ≤ s.buffers.length
  file : s.lex.fileId.toNat < n
  diags : ∀ x ∈ s.lex.diags.diags, x.range.Within n
  cur : s.cur.range.Within n
  prev : s.prev.range.Within n
  stmts : ∀ x ∈ s.stmts, TopWithin n x
  body : ∀ x ∈ s.body, GroupWithin n x

section
variable {n : Nat} {α β : Type}

/-- The lexer goes on in its file, and the current token is replaced by one of it. -/
theorem FileState.Within.lexes {s : FileState} (h : s.Within n) {lx : Lexer} {cur prev : Token}
    (hlx : s.lex.Stays lx) (hcur : cur.range.Within n) (hprev : prev.range.Within n) :
    FileState.Within n { s with lex := lx, cur := cur, prev := prev } where
  count := h.count
  file := hlx.fileId ▸ h.file
  diags x hx := (hlx.diags x hx).elim (h.diags x) fun hin => hin.within h.file
  cur := hcur
  prev := hprev
  stmts := h.stmts
  body := h.body

theorem keeps_advance : Keeps (FileState.Within n) advance fun _ => True := by
  refine .modify (fun s h => ?_) trivial
  have hnext := Lexer.lexed_next s.lex
  exact h.lexes hnext.stays (hnext.range.within h.file) h.cur

theorem keeps_error {tok : Token} (htok : tok.range.Within n) (msg : String) :
    Keeps (FileState.Within n) (error tok msg) fun _ => True := by
  refine .modify (fun s h => { h with diags := fun x hx => ?_ }) trivial
  rcases List.mem_append.mp hx with hx | hx
  · exact h.diags x hx
  · rw [List.mem_singleton.mp hx]
    exact htok

theorem keeps_cur : Keeps (FileState.Within n) cur fun tok => tok.range.Within n :=
  .get_bind fun _ h => .pure h.cur

theorem keeps_prev : Keeps (FileState.Within n) prev fun tok => tok.range.Within n :=
  .get_bind fun _ h => .pure h.prev

theorem keeps_accept (t : Tok) : Keeps (FileState.Within n) (accept t) fun _ => True :=
  keeps_cur.bind fun _ _ => .ite (fun _ => keeps_advance.bind fun _ _ => .pure trivial)
    fun _ => .pure trivial

theorem keeps_expect (t : Tok) (what : String) :
    Keeps (FileState.Within n) (expect t what) fun tok => tok.range.Within n :=
  keeps_cur.bind fun _ htok => .ite (fun _ => keeps_advance.bind fun _ _ => .pure htok)
    fun _ => (keeps_error htok _).bind fun _ _ => .pure htok

theorem keeps_require (t : Tok) (what : String) :
    Keeps (FileState.Within n) (require t what) fun tok => tok.range.Within n :=
  (keeps_expect t what).bind fun _ htok => .ite (fun _ => .pure htok) fun _ => .fail

/-- A production that fails after an error. -/
theorem keeps_error_fail {tok : Token} (htok : tok.range.Within n) (msg : String)
    {post : α → Prop} :
    Keeps (FileState.Within n) (error tok msg >>= fun _ => (fail : Parse α)) post :=
  (keeps_error htok msg).bind fun _ _ => .fail

theorem keeps_push (sink : Sink) {x : GroupStmt} (hx : GroupWithin n x) :
    Keeps (FileState.Within n) (push sink x) fun _ => True := by
  refine .modify (fun s h => ?_) trivial
  cases sink with
  | module =>
    refine { h with stmts := fun y hy => ?_ }
    rcases List.mem_append.mp hy with hy | hy
    · exact h.stmts y hy
    · rw [List.mem_singleton.mp hy]
      cases x <;> exact hx
  | group =>
    refine { h with body := fun y hy => ?_ }
    rcases List.mem_append.mp hy with hy | hy
    · exact h.body y hy
    · rw [List.mem_singleton.mp hy]
      exact hx

theorem keeps_pushTop {x : TopStmt} (hx : TopWithin n x) :
    Keeps (FileState.Within n) (pushTop x) fun _ => True := by
  refine .modify (fun s h => { h with stmts := fun y hy => ?_ }) trivial
  rcases List.mem_append.mp hy with hy | hy
  · exact h.stmts y hy
  · rw [List.mem_singleton.mp hy]
    exact hx

theorem keeps_braceBlock : Keeps (FileState.Within n) parseBraceBlock fun _ => True := by
  intro m s r t hs hrun
  cases hrun
  refine ⟨?_, fun _ _ => trivial⟩
  unfold State.braceBlock
  split
  next => exact (keeps_error hs.cur _ m s _ _ hs rfl).1
  next =>
    have hblock := Lexer.lexed_opaqueBlock (s.lex.seekTo s.cur.range.end.offset)
    have hstays := (Lexer.stays_seekTo s.lex s.cur.range.end.offset).trans hblock.stays
    simp only []
    split
    · exact hs.lexes hstays hs.cur hs.prev
    · have hnext := Lexer.lexed_next (s.lex.seekTo s.cur.range.end.offset).lexOpaqueBlock.2
      have hfile := hstays.fileId.symm ▸ hs.file
      exact hs.lexes (hstays.trans hnext.stays) (hnext.range.within hfile) hs.prev

theorem keeps_untilBrace {body : β → Parse β}
    (h : ∀ b, Keeps (FileState.Within n) (body b) fun _ => True) (b : β) :
    Keeps (FileState.Within n) (untilBrace body b) fun _ => True :=
  .loop (fun b _ => keeps_cur.bind fun _ _ => .ite (fun _ => .pure trivial)
    fun _ => (h b).bind fun _ _ => .pure trivial) trivial

/-! ## Elements -/

theorem keeps_signalHead : Keeps (FileState.Within n) parseSignalHead fun _ => True := by
  have hparam : Keeps (FileState.Within n) parseSignalParam fun _ => True :=
    (keeps_require _ _).bind fun _ _ => (keeps_require _ _).bind fun _ _ => .pure trivial
  have hparams : Keeps (FileState.Within n) parseSignalParams fun _ => True := by
    refine Keeps.bind (.loop (P := fun _ => True) (fun params _ => ?_) trivial) fun _ _ =>
      (keeps_expect _ _).bind fun _ _ => .pure trivial
    refine keeps_cur.bind fun _ _ => .ite (fun _ => .pure trivial) fun _ => ?_
    exact hparam.bind fun _ _ => (keeps_accept _).bind fun _ _ =>
      .ite (fun _ => .pure trivial) fun _ => .pure trivial
  exact (keeps_accept _).bind fun _ _ => .ite (fun _ => hparams) fun _ => .pure trivial

theorem keeps_hlsPragmas (pragmas : List String) :
    Keeps (FileState.Within n) (parseHlsPragmas pragmas) fun _ => True :=
  (keeps_require _ _).bind fun _ _ =>
    (keeps_untilBrace (fun _ => (keeps_require _ _).bind fun _ _ =>
      (keeps_expect _ _).bind fun _ _ => .pure trivial) pragmas).bind fun _ _ =>
    (keeps_expect _ _).bind fun _ _ => .pure trivial

theorem keeps_timingEntry (ii : Int) :
    Keeps (FileState.Within n) (parseTimingEntry ii) fun _ => True := by
  refine (keeps_require _ _).bind fun id hid => (keeps_require _ _).bind fun _ _ =>
    (keeps_require _ _).bind fun val hval => .ite (fun _ => ?_) fun _ => keeps_error_fail hid _
  split
  · exact keeps_error_fail hval _
  · exact .ite (fun _ => keeps_error_fail hval _) fun _ =>
      (keeps_expect _ _).bind fun _ _ => .pure trivial

theorem keeps_timing (ii : Int) : Keeps (FileState.Within n) (parseTiming ii) fun _ => True :=
  (keeps_require _ _).bind fun _ _ => (keeps_untilBrace keeps_timingEntry ii).bind fun _ _ =>
    (keeps_expect _ _).bind fun _ _ => .pure trivial

/-- A section keeps the range of the declaration. -/
theorem keeps_section {elem : ElementDecl} (helem : elem.src.Within n) :
    Keeps (FileState.Within n) (parseSection elem) fun elem => elem.src.Within n := by
  refine keeps_cur.bind fun tok htok => ?_
  split
  · exact keeps_advance.bind fun _ _ => keeps_braceBlock.bind fun _ _ => .pure helem
  · exact keeps_advance.bind fun _ _ => keeps_braceBlock.bind fun _ _ => .pure helem
  · exact keeps_advance.bind fun _ _ => keeps_braceBlock.bind fun _ _ => .pure helem
  · exact keeps_advance.bind fun _ _ => keeps_signalHead.bind fun _ _ =>
      keeps_braceBlock.bind fun _ _ => .pure helem
  · exact keeps_advance.bind fun _ _ => (keeps_hlsPragmas _).bind fun _ _ => .pure helem
  · exact keeps_advance.bind fun _ _ => (keeps_timing _).bind fun _ _ => .pure helem
  · exact keeps_error_fail htok _

theorem keeps_portCounts : Keeps (FileState.Within n) parsePortCounts fun _ => True := by
  refine (keeps_accept _).bind fun _ _ => .ite (fun _ => ?_) fun _ => .pure trivial
  exact (keeps_require _ _).bind fun _ _ => (keeps_expect _ _).bind fun _ _ =>
    (keeps_require _ _).bind fun _ _ => (keeps_expect _ _).bind fun _ _ => .pure trivial

theorem keeps_elementDecl : Keeps (FileState.Within n) parseElementDecl fun _ => True := by
  refine keeps_cur.bind fun kw hkw => keeps_advance.bind fun _ _ =>
    (keeps_require _ _).bind fun name hname => keeps_portCounts.bind fun counts _ => ?_
  have hbody : ∀ elem : ElementDecl, elem.src.Within n →
      Keeps (FileState.Within n) (parseElementBody elem) fun elem => elem.src.Within n := by
    intro elem helem
    refine (keeps_require _ _).bind fun _ _ => Keeps.bind (.loop (fun elem helem => ?_) helem)
      fun elem helem => (keeps_expect _ _).bind fun _ _ => .pure helem
    exact keeps_cur.bind fun _ _ => .ite (fun _ => .pure helem) fun _ =>
      (keeps_section helem).bind fun _ helem => .pure helem
  exact (hbody _ (hkw.join hname)).bind fun decl hdecl =>
    keeps_pushTop (x := .elementDecl decl) hdecl

/-! ## Instances and connections -/

theorem keeps_after (t : Tok) (what : String) (default : Int) :
    Keeps (FileState.Within n) (parseAfter t what default) fun _ => True :=
  (keeps_accept _).bind fun _ _ => .ite
    (fun _ => (keeps_require _ _).bind fun _ _ => .pure trivial) fun _ => .pure trivial

theorem keeps_optionalRange : Keeps (FileState.Within n) parseOptionalRange fun _ => True := by
  refine keeps_cur.bind fun _ _ => .ite (fun _ => ?_) fun _ => .pure trivial
  have hrange : Keeps (FileState.Within n) parseRange fun _ => True :=
    keeps_cur.bind fun _ _ => keeps_advance.bind fun _ _ => (keeps_require _ _).bind fun _ _ =>
      (keeps_after _ _ _).bind fun _ _ => (keeps_after _ _ _).bind fun _ _ =>
        (keeps_expect _ _).bind fun _ _ => .pure trivial
  exact hrange.attempt.mono fun _ _ => trivial

theorem keeps_args (strict : Bool) :
    Keeps (FileState.Within n) (parseArgs strict) fun _ => True := by
  have hturn : ∀ params, Keeps (FileState.Within n) (paramTurn strict params) fun _ => True := by
    refine fun params => (keeps_accept _).bind fun _ _ => .ite (fun _ => ?_) fun _ => .pure trivial
    refine keeps_cur.bind fun tok htok => .ite
      (fun _ => keeps_advance.bind fun _ _ => .pure trivial) fun _ => .ite
      (fun _ => keeps_advance.bind fun _ _ => .pure trivial) fun _ => .ite
      (fun _ => keeps_error_fail htok _) fun _ => .pure trivial
  exact (keeps_require _ _).bind fun _ _ => (keeps_expect _ _).bind fun _ _ =>
    (keeps_require _ _).bind fun _ _ => (keeps_after _ _ _).bind fun _ _ =>
      Keeps.bind (.loop (P := fun _ => True) (fun params _ => hturn params) trivial) fun _ _ =>
        (keeps_expect _ _).bind fun _ _ => .pure trivial

theorem keeps_instance (sink : Sink) {first : Token} (hfirst : first.range.Within n) :
    Keeps (FileState.Within n) (parseInstance sink first) fun _ => True := by
  have hqualifier : Keeps (FileState.Within n) parseHostQualifier fun _ => True := by
    refine .loop (fun flags _ => ?_) trivial
    exact (keeps_accept _).bind fun _ _ => .ite (fun _ => .pure trivial) fun _ =>
      (keeps_accept _).bind fun _ _ => .ite (fun _ => .pure trivial) fun _ => .pure trivial
  have hargs : Keeps (FileState.Within n) parseInstanceArgs fun _ => True :=
    (keeps_accept _).bind fun _ _ => .ite (fun _ => keeps_args true) fun _ => .pure trivial
  refine keeps_advance.bind fun _ _ => (keeps_require _ _).bind fun name hname =>
    hqualifier.bind fun _ _ => hargs.bind fun _ _ => (keeps_accept _).bind fun _ _ => ?_
  exact keeps_push sink (hfirst.join hname)

theorem keeps_node (sink : Sink) {tok : Token} (htok : tok.range.Within n) :
    Keeps (FileState.Within n) (parseNode sink tok) fun _ => True := by
  refine (keeps_accept _).bind fun _ _ => .ite (fun _ => ?_) fun _ => .pure trivial
  refine (keeps_args false).bind fun _ _ => keeps_prev.bind fun _ hlast =>
    Keeps.bind (keeps_push sink ?_) fun _ _ => .pure trivial
  exact htok.join hlast

/-- The range of a connection goes from one end to the other. -/
theorem keeps_link (sink : Sink) {arrow : Token} {source : ConnEnd}
    (hsource : source.src.Within n) :
    Keeps (FileState.Within n) (parseLink sink arrow source) fun dest => dest.src.Within n := by
  refine keeps_advance.bind fun _ _ => keeps_optionalRange.bind fun _ _ =>
    keeps_cur.bind fun tok htok => .ite (fun _ => ?_) fun _ => keeps_error_fail htok _
  refine (keeps_accept _).bind fun _ _ => (keeps_accept _).bind fun _ _ =>
    (keeps_require _ _).bind fun next hnext => (keeps_node sink hnext).bind fun _ _ =>
      keeps_prev.bind fun last hlast => keeps_optionalRange.bind fun _ _ => ?_
  have hdest := hnext.join hlast
  refine Keeps.bind (keeps_push sink ?_) fun _ _ => .pure hdest
  exact hsource.join hdest

theorem keeps_chain (sink : Sink) {first : Token} (hfirst : first.range.Within n) :
    Keeps (FileState.Within n) (parseChain sink first) fun _ => True := by
  refine (keeps_node sink hfirst).bind fun _ _ => keeps_prev.bind fun _ hlast =>
    keeps_optionalRange.bind fun _ _ => Keeps.bind
      (.loop (P := fun source : ConnEnd => source.src.Within n) (fun source hsource => ?_)
        (hfirst.join hlast)) fun _ _ => (keeps_accept _).bind fun _ _ => .pure trivial
  exact keeps_cur.bind fun tok _ => .ite
    (fun _ => (keeps_link sink hsource).bind fun _ hdest => .pure hdest) fun _ => .pure hsource

theorem keeps_declOrChain (sink : Sink) :
    Keeps (FileState.Within n) (parseDeclOrChain sink) fun _ => True := by
  have hqualifier : Keeps (FileState.Within n) parseQualifier fun _ => True :=
    (keeps_accept _).bind fun _ _ => .ite (fun _ => .pure trivial) fun _ =>
      (keeps_accept _).bind fun _ _ => .pure trivial
  refine hqualifier.bind fun _ _ => keeps_cur.bind fun first hfirst => .ite (fun _ => ?_)
    fun _ => keeps_error_fail hfirst _
  exact keeps_advance.bind fun _ _ => keeps_cur.bind fun _ _ => .ite
    (fun _ => keeps_instance sink hfirst) fun _ => keeps_chain sink hfirst

/-! ## Groups -/

theorem keeps_skipUntil (kinds : List Tok) :
    Keeps (FileState.Within n) (skipUntil kinds) fun _ => True :=
  .loop (fun _ _ => keeps_cur.bind fun _ _ => .ite (fun _ => .pure trivial)
    fun _ => keeps_advance.bind fun _ _ => .pure trivial) trivial

theorem keeps_groupBody :
    Keeps (FileState.Within n) parseGroupBody fun body => ∀ x ∈ body, GroupWithin n x := by
  have hclear : Keeps (FileState.Within n) (modify fun s => { s with body := [] }) fun _ => True :=
    .modify (fun _ h => { h with body := fun _ hx => absurd hx List.not_mem_nil }) trivial
  refine (keeps_require _ _).bind fun _ _ => hclear.bind fun _ _ => ?_
  refine (keeps_untilBrace (fun _ => ?_) ()).bind fun _ _ => (keeps_expect _ _).bind fun _ _ =>
    .get_bind fun _ h => .pure h.body
  exact (keeps_declOrChain .group).attempt.bind fun _ _ => .ite (fun _ => keeps_skipUntil _)
    fun _ => .pure trivial

theorem keeps_elementGroupDecl :
    Keeps (FileState.Within n) parseElementGroupDecl fun _ => True := by
  refine keeps_cur.bind fun kw hkw => keeps_advance.bind fun _ _ =>
    (keeps_require _ _).bind fun name hname => keeps_portCounts.bind fun _ _ =>
      keeps_groupBody.bind fun body hbody => ?_
  exact keeps_pushTop ⟨hkw.join hname, hbody⟩

end

/-! ## Files -/

/-- The errors are in the first `n` files, and these are open. -/
structure Within (n : Nat) (p : Parser) : Prop where
  count : n ≤ p.buffers.length
  diags : ∀ x ∈ p.diags.diags, x.range.Within n

/-- Somewhere behind the first `n` files. -/
def Opened (n : Nat) (r : Option Module) (p : Parser) : Prop :=
  ∃ n' ≥ n, 0 < n' ∧ p.Within n' ∧ ∀ m, r = some m → ∀ x ∈ m.stmts, TopWithin n' x

section
variable {n n' : Nat} {fs : FileSystem} {importDirs : List String}

theorem GroupWithin.mono {x : GroupStmt} (h : GroupWithin n x) (hle : n ≤ n') :
    GroupWithin n' x := by
  cases x <;> exact SourceRange.Within.mono h hle

theorem TopWithin.mono {x : TopStmt} (h : TopWithin n x) (hle : n ≤ n') : TopWithin n' x := by
  cases x with
  | elementGroupDecl g => exact ⟨h.1.mono hle, fun y hy => (h.2 y hy).mono hle⟩
  | _ => exact SourceRange.Within.mono h hle

/-- Back in the file that imports another. -/
theorem FileState.Within.withParser {s : FileState} (h : s.Within n) {p : Parser}
    (hp : p.Within n') (hle : n ≤ n') : (FileState.withParser p s).Within n' where
  count := hp.count
  file := Nat.lt_of_lt_of_le h.file hle
  diags := hp.diags
  cur := h.cur.mono hle
  prev := h.prev.mono hle
  stmts x hx := (h.stmts x hx).mono hle
  body x hx := (h.body x hx).mono hle

/-- Between the statements of a file; those it imports have been opened. -/
def FileState.Reading (n : Nat) (s : FileState) : Prop := ∃ n' ≥ n, s.Within n'

theorem keeps_reading {p : Parse Unit} (h : ∀ n, Keeps (FileState.Within n) p fun _ => True) :
    Keeps (FileState.Reading n) p fun _ => True := by
  rintro m s r t ⟨n', hle, hs⟩ hrun
  exact ⟨⟨n', hle, (h n' m s r t hs hrun).1⟩, fun _ _ => trivial⟩

variable {parseFile : String → Production Parser Module}

/-- The statements of the imported file come before the import, whose range is of this file. -/
theorem triple_importRest {kw str : Token}
    (hfile : ∀ path, Triple (Parser.Within n) (parseFile path) (Opened n))
    (hkw : kw.range.Within n) (hstr : str.range.Within n) :
    Triple (FileState.Within n) (importRest fs importDirs parseFile kw str)
      fun _ t => FileState.Reading n t := by
  refine Triple.get_bind fun s hs => ?_
  let imported : Option (Option Module) → FileState → Prop := fun o t =>
    ∃ n' ≥ n, t.Within n' ∧ ∀ m, o = some (some m) → ∀ x ∈ m.stmts, TopWithin n' x
  have hsub : Triple (fun t => t = s) (attempt (within FileState.parser FileState.withParser
      (parseFile (fs.resolveImport importDirs s.lex.buf.path str.text)))) imported := by
    refine Triple.attempt (Triple.within ⟨hs.count, hs.diags⟩ ((hfile _).mono ?_))
    rintro r p ⟨n', hle, -, hp, hr⟩
    exact ⟨n', hle, hs.withParser hp hle, fun m hm => hr m (Option.some.inj hm)⟩
  refine hsub.bind (fun o m u r t hu hrun => ?_) fun t ht => ?_
  · obtain ⟨n', hle, hu, hmod⟩ := hu
    cases o with
    | none =>
      have herror : Keeps (FileState.Within n') (error str
          ("failed to parse imported file \x60" ++ str.text ++ "\x60") >>= fun _ => fail)
            fun _ : Unit => True := keeps_error_fail (hstr.mono hle) _
      exact ⟨n', hle, (herror m u r t hu hrun).1⟩
    | some sub =>
      have hmerge : Keeps (FileState.Within n')
          (modify fun s => { s with stmts := s.stmts ++ sub.stmts }) fun _ => True := by
        refine .modify (fun s h => { h with stmts := fun x hx => ?_ }) trivial
        exact (List.mem_append.mp hx).elim (h.stmts x) (hmod sub rfl x)
      have hpush := hmerge.bind fun _ _ =>
        keeps_pushTop (x := .importDecl { path := str.text
                                          src := ⟨kw.range.begin, str.range.end⟩ })
          ((hkw.mono hle).join (hstr.mono hle))
      exact ⟨n', hle, (hpush m u r t hu hrun).1⟩
  · obtain ⟨n', hle, ht, -⟩ := ht
    exact ⟨n', hle, ht⟩

theorem keeps_import
    (hfile : ∀ n > 0, ∀ path, Triple (Parser.Within n) (parseFile path) (Opened n)) :
    Keeps (FileState.Reading n) (parseImport fs importDirs parseFile) fun _ => True := by
  rintro m s r t ⟨k, hle, hs⟩ hrun
  have hpos : 0 < k := Nat.zero_lt_of_lt hs.file
  have hhead : Keeps (FileState.Within k) importHead fun str => str.range.Within k :=
    keeps_advance.bind fun _ _ => (keeps_require _ _).bind fun _ hstr =>
      (keeps_accept _).bind fun _ _ => .pure hstr
  have hstay : ∀ t : FileState, t.Within k → FileState.Reading k t := fun t ht =>
    ⟨k, Nat.le_refl k, ht⟩
  have hrest : Triple (FileState.Within k) (parseImport fs importDirs parseFile)
      fun _ t => FileState.Reading k t := by
    rw [parseImport_eq]
    refine Triple.bind keeps_cur (fun kw m s r t hkw hrun => ?_) fun t ht => hstay t ht.1
    have hread : Triple (FileState.Within k) (importHead >>= importRest fs importDirs parseFile kw)
        fun _ t => FileState.Reading k t := by
      refine Triple.bind hhead (fun str m s r t hstr hrun => ?_) fun t ht => hstay t ht.1
      exact triple_importRest (hfile k hpos) (hkw.2 kw rfl) (hstr.2 str rfl) m s r t hstr.1 hrun
    exact hread m s r t hkw.1 hrun
  obtain ⟨k', hk', ht⟩ := hrest m s r t hs hrun
  exact ⟨⟨k', Nat.le_trans hle hk', ht⟩, fun _ _ => trivial⟩

theorem keeps_stmts
    (hfile : ∀ n > 0, ∀ path, Triple (Parser.Within n) (parseFile path) (Opened n)) :
    Keeps (FileState.Reading n) (parseStmts fs importDirs parseFile) fun _ => True := by
  have hcur : ∀ n, Keeps (FileState.Reading n) cur fun _ => True := fun n =>
    .get_bind fun _ _ => .pure trivial
  have hstmt : Keeps (FileState.Reading n) (parseTopStmt fs importDirs parseFile)
      fun _ => True := by
    refine (hcur n).bind fun tok _ => ?_
    split
    · exact keeps_import hfile
    · exact keeps_reading fun _ => keeps_elementDecl
    · exact keeps_reading fun _ => keeps_elementGroupDecl
    · exact keeps_reading fun _ => keeps_declOrChain .module
  refine .loop (fun _ _ => (hcur n).bind fun _ _ => .ite (fun _ => .pure trivial) fun _ => ?_)
    trivial
  exact hstmt.attempt.bind fun _ _ => .ite
    (fun _ => (keeps_reading fun _ => keeps_skipUntil _).bind fun _ _ => .pure trivial)
    fun _ => .pure trivial

/-- In front of the first token of a file that has just been opened. -/
theorem within_openFile {p : Parser} (h : p.Within n) (path : String) (contents : List Char) :
    (openFile p path contents).Within (p.buffers.length + 1) := by
  have hfile : (UInt32.ofNat p.buffers.length).toNat < p.buffers.length + 1 := by
    rw [UInt32.toNat_ofNat']
    exact Nat.lt_succ_of_le (Nat.mod_le _ _)
  have hnext := Lexer.lexed_next
    { buf := ⟨path, contents⟩, fileId := UInt32.ofNat p.buffers.length, diags := p.diags }
  refine ⟨?_, hnext.stays.fileId ▸ hfile, fun x hx => ?_, hnext.range.within hfile,
    SourceRange.within_default (Nat.succ_pos _), fun _ hx => absurd hx List.not_mem_nil,
    fun _ hx => absurd hx List.not_mem_nil⟩
  · rw [openFile, List.length_append]
    exact Nat.le_refl _
  · rcases hnext.stays.diags x hx with hx | hx
    · exact (h.diags x hx).mono (Nat.le_succ_of_le h.count)
    · exact hx.within hfile

/-- An opened file. -/
theorem triple_parseBuffer
    (hfile : ∀ n > 0, ∀ path, Triple (Parser.Within n) (parseFile path) (Opened n))
    (path : String) (contents : List Char) :
    Triple (Parser.Within n) (parseBuffer fs importDirs parseFile path contents) (Opened n) := by
  intro m p r q hp hrun
  unfold parseBuffer at hrun
  cases hstmts : parseStmts fs importDirs parseFile m (openFile p path contents) with
  | none =>
    rw [hstmts] at hrun
    cases hrun
  | some out =>
    rw [hstmts] at hrun
    cases hrun
    obtain ⟨⟨k, hk, ht⟩, -⟩ := keeps_stmts hfile m _ out.1 out.2
      ⟨_, Nat.le_refl _, within_openFile hp path contents⟩ hstmts
    refine ⟨k, ?_, Nat.zero_lt_of_lt ht.file, ⟨ht.count, ht.diags⟩, fun m hm => ?_⟩
    · exact Nat.le_trans hp.count (Nat.le_trans (Nat.le_succ _) hk)
    · cases hm
      exact ht.stmts

/-- **Files.** Where a file can be opened, or another one has been opened before, everything is in
the files that have been opened. Induction on the bound on the open files. -/
theorem triple_parseFile (depth : Nat) (path : String)
    (h : 0 < n ∨ ∃ contents, fs.read path = some contents) :
    Triple (fun p => p.Within n ∧ (n = 0 → p.seenFiles = []))
      (Parser.parseFile fs importDirs depth path) (Opened n) := by
  induction depth generalizing n path with
  | zero => exact fun _ _ _ _ _ hrun => by cases hrun
  | succ depth ih =>
    have hfile : ∀ n > 0, ∀ path, Triple (Parser.Within n)
        (Parser.parseFile fs importDirs depth path) (Opened n) := fun n hn path m p r q hp hrun =>
      ih path (.inl hn) m p r q ⟨hp, fun h0 => absurd h0 (Nat.pos_iff_ne_zero.mp hn)⟩ hrun
    refine Triple.get_bind fun p hp => ?_
    split
    next hmem =>
      -- the file was parsed before, so there is a buffer
      intro m p' r q heq hrun
      cases heq
      cases hrun
      have hpos : n ≠ 0 := fun h0 => by
        rw [hp.2 h0] at hmem
        cases hmem
      refine ⟨n, Nat.le_refl n, Nat.pos_of_ne_zero hpos, hp.1, fun m hm => ?_⟩
      cases hm
      exact fun _ hx => absurd hx List.not_mem_nil
    next =>
      let marked : Parser := { p with seenFiles := p.seenFiles ++ [fs.weaklyCanonical path] }
      have hmarked : marked.Within n := ⟨hp.1.count, hp.1.diags⟩
      refine Triple.bind (Q := fun r q => r ≠ none ∧ q = marked) (fun m p' r q heq hrun => ?_)
        (fun _ => ?_) fun _ hq => absurd rfl hq.1
      · cases heq
        cases hrun
        exact ⟨Option.some_ne_none _, rfl⟩
      · cases hread : fs.read path with
        | none =>
          -- the error is put into buffer 0: there is one, since another file imports this one
          rintro m _ r q ⟨-, rfl⟩ hrun
          cases hrun
          have hpos : 0 < n := h.resolve_right fun ⟨contents, hc⟩ => by
            rw [hread] at hc
            cases hc
          refine ⟨n, Nat.le_refl n, hpos, ⟨hmarked.count, fun x hx => ?_⟩, nofun⟩
          rcases List.mem_append.mp hx with hx | hx
          · exact hmarked.diags x hx
          · rw [List.mem_singleton.mp hx]
            exact ⟨hpos, hpos⟩
        | some contents =>
          rintro m _ r q ⟨-, rfl⟩ hrun
          exact triple_parseBuffer hfile path contents m marked r q hmarked hrun

end

end Parser

end OpenClickNP
