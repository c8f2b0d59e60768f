import OpenClickNP.Compiler.ParserTermination
import OpenClickNP.Compiler.Spelling
import OpenClickNP.Lib.Keeping

/-!
# Names that are C identifiers

An identifier token is a letter or `_` and word characters (`spelled_next`). The parser takes the
types and the names of instances from such tokens, and the names it makes up add word characters to
them, so that in a parsed module all of them are C identifiers (`triple_spelledFile`).
-/

namespace OpenClickNP

/-- A letter or an underscore, followed by letters, digits and underscores. -/
structure IsCIdent (x : String) : Prop where
  word : ∀ c ∈ x.toList, isWordChar c = true
  head : ∃ c ∈ x.toList.head?, c.isDigit = false

instance (x : String) : Decidable (IsCIdent x) :=
  decidable_of_iff ((∀ c ∈ x.toList, isWordChar c = true) ∧
      ∃ c ∈ x.toList.head?, c.isDigit = false)
    ⟨fun h => ⟨h.1, h.2⟩, fun h => ⟨h.word, h.head⟩⟩

section
variable {x y : String}

/-- Word characters behind an identifier. -/
theorem IsCIdent.append (h : IsCIdent x) (hy : ∀ c ∈ y.toList, isWordChar c = true) :
    IsCIdent (x ++ y) where
  word c hc := by
    rw [String.toList_append] at hc
    exact (List.mem_append.mp hc).elim (h.word c) (hy c)
  head := by
    obtain ⟨c, hc, hdigit⟩ := h.head
    obtain ⟨rest, hrest⟩ := List.head?_eq_some_iff.mp hc
    exact ⟨c, by rw [String.toList_append, hrest]; rfl, hdigit⟩

theorem word_natToString (n : Nat) : ∀ c ∈ (toString n).toList, isWordChar c = true := by
  intro c hc
  rw [Nat.toString_eq_repr, Nat.toList_repr] at hc
  exact isWordChar_of_isDigit (Nat.isDigit_of_mem_toDigits (by decide) (by decide) hc)

/-- A separator is not a word character. -/
theorem not_isCIdent_qualified (a b : String) : ¬ IsCIdent (a ++ "::" ++ b) := by
  intro h
  have hcolon := h.word ':' (by simp [String.toList_append])
  exact absurd hcolon (by decide)

end

/-! ## Identifier tokens -/

/-- If the token is an identifier, its text is a C identifier. -/
def Token.Spelled (t : Token) : Prop := t.kind = .ident → IsCIdent t.text

theorem Token.spelled_of_ne {t : Token} (h : t.kind ≠ .ident) : t.Spelled := fun hk => absurd hk h

namespace Lexer

variable {lx : Lexer} {start : SourceLoc}

/-- Where a word starts, the lexer reads it to its end. -/
theorem spelled_lexIdentOrKeyword {c : Char} {t : List Char} (hrest : lx.rest = c :: t)
    (hc : (c.isAlpha || c == '_') = true) : (lx.lexIdentOrKeyword start).1.Spelled := by
  have hword : isWordChar c = true := by
    unfold isWordChar Char.isAlphanum
    rw [Bool.or_assoc, Bool.or_comm c.isDigit, ← Bool.or_assoc, hc, Bool.true_or]
  have hdigit : c.isDigit = false := by
    rcases Bool.or_eq_true_iff.mp hc with halpha | hunder
    · exact not_isDigit_of_isAlpha halpha
    · rw [beq_iff_eq.mp hunder]
      decide
  have hsplit : lx.rest = (c :: t).takeWhile isWordChar ++ (c :: t).dropWhile isWordChar := by
    rw [hrest, List.takeWhile_append_dropWhile]
  have hstop : StopsAt isWordChar ((c :: t).dropWhile isWordChar) := by
    intro d hd
    have hnot := List.head?_dropWhile_not isWordChar (c :: t)
    rw [Option.mem_def.mp hd] at hnot
    simpa using hnot
  have hpass := passes_scan hsplit (fun d hd => List.mem_takeWhile_imp hd) hstop
  have htext : (lx.lexIdentOrKeyword start).1.text
      = String.ofList ((c :: t).takeWhile isWordChar) := by
    simp only [lexIdentOrKeyword, token, hpass.textFrom]
  intro _
  rw [htext]
  refine ⟨fun d hd => ?_, c, ?_, hdigit⟩
  · rw [String.toList_ofList] at hd
    exact List.mem_takeWhile_imp hd
  · rw [String.toList_ofList, List.takeWhile_cons_of_pos hword]
    rfl

theorem token_ne {lx' : Lexer} {kind : Tok} {text : List Char} {value : UInt64}
    (h : kind ≠ .ident) : (lx'.token start kind text value).Spelled := Token.spelled_of_ne h

theorem spelled_lexString : (lx.lexString start).1.Spelled := by
  unfold lexString
  simp only []
  split
  · exact token_ne (by decide)
  · exact token_ne (by decide)

theorem mem_of_lookup {l : List (String × Tok)} {name : String} {kind : Tok}
    (h : l.lookup name = some kind) : (name, kind) ∈ l := by
  obtain ⟨l₁, l₂, rfl, -⟩ := List.lookup_eq_some_iff.mp h
  exact List.mem_append_right _ List.mem_cons_self

theorem spelled_directive : (lx.lexDirectiveKeyword start).1.Spelled := by
  have htable : ∀ x ∈ directives, x.2 ≠ .ident := by decide
  unfold lexDirectiveKeyword
  simp only []
  split
  · rename_i kind hlookup
    exact token_ne (htable _ (mem_of_lookup hlookup))
  · exact token_ne (by decide)

theorem spelled_number : (lx.lexNumber start).1.Spelled := by
  unfold lexNumber
  split
  · exact token_ne (by decide)
  · split
    · exact token_ne (by decide)
    · exact token_ne (by decide)

theorem punctuation_ne_ident {c : Char} {kind : Tok} (h : punctuation c = some kind) :
    kind ≠ .ident := by
  unfold punctuation at h
  split at h <;> cases h <;> decide

theorem spelled_lexToken (hend : lx.atEnd = false) : (lx.lexToken start).1.Spelled := by
  obtain ⟨c, t, hrest⟩ : ∃ c t, lx.rest = c :: t := by
    rw [atEnd_eq] at hend
    exact List.exists_cons_of_ne_nil (by simpa using hend)
  unfold lexToken
  simp only [peek_of_cons hrest]
  split
  · exact token_ne (by decide)
  split
  · exact token_ne (by decide)
  split
  · exact token_ne (by decide)
  split
  · rename_i kind hkind
    exact token_ne (punctuation_ne_ident hkind)
  split
  · exact spelled_lexString
  split
  · exact spelled_directive
  split
  · exact spelled_number
  split
  · rename_i halpha
    exact spelled_lexIdentOrKeyword hrest halpha
  · exact token_ne (by decide)

/-- **Identifier tokens.** -/
theorem spelled_next (lx : Lexer) : lx.next.1.Spelled := by
  unfold next
  simp only []
  split
  · exact Token.spelled_of_ne (fun h => Tok.noConfusion h)
  · rename_i hend
    exact spelled_lexToken (by simpa using hend)

end Lexer

/-! ## Instances -/

namespace Parser

open Ast Production

/-- The type and the name of an instance are C identifiers. -/
def GroupSpelled : GroupStmt → Prop
  | .instanceDecl d => IsCIdent d.type ∧ IsCIdent d.name
  | .connectionDecl _ => True

/-- So are those of the instances in a group. -/
def TopSpelled : TopStmt → Prop
  | .instanceDecl d => IsCIdent d.type ∧ IsCIdent d.name
  | .elementGroupDecl g => ∀ x ∈ g.body, GroupSpelled x
  | _ => True

/-- The current token, and the instances that have been pushed. -/
structure FileState.Spelled (s : FileState) : Prop where
  cur : s.cur.Spelled
  stmts : ∀ x ∈ s.stmts, TopSpelled x
  body : ∀ x ∈ s.body, GroupSpelled x

variable {α β : Type}

theorem spelled_advance : Keeps FileState.Spelled advance fun _ => True :=
  .modify (fun s h => ⟨Lexer.spelled_next s.lex, h.stmts, h.body⟩) trivial

theorem spelled_error (tok : Token) (msg : String) :
    Keeps FileState.Spelled (error tok msg) fun _ => True :=
  .modify (fun _ h => ⟨h.cur, h.stmts, h.body⟩) trivial

theorem spelled_cur : Keeps FileState.Spelled cur Token.Spelled := .get_bind fun _ h => .pure h.cur

theorem spelled_prev : Keeps FileState.Spelled prev fun _ => True :=
  .get_bind fun _ _ => .pure trivial

theorem spelled_accept (t : Tok) : Keeps FileState.Spelled (accept t) fun _ => True :=
  spelled_cur.bind fun _ _ => .ite (fun _ => spelled_advance.bind fun _ _ => .pure trivial)
    fun _ => .pure trivial

theorem spelled_expect (t : Tok) (what : String) :
    Keeps FileState.Spelled (expect t what) Token.Spelled :=
  spelled_cur.bind fun _ htok => .ite (fun _ => spelled_advance.bind fun _ _ => .pure htok)
    fun _ => (spelled_error _ _).bind fun _ _ => .pure (Token.spelled_of_ne fun hk => by cases hk)

theorem spelled_require (t : Tok) (what : String) :
    Keeps FileState.Spelled (require t what) fun tok => tok.kind = t ∧ tok.Spelled :=
  (spelled_expect t what).bind fun _ htok => .ite (fun hkind => .pure ⟨hkind, htok⟩)
    fun _ => .fail

/-- An identifier that is required. -/
theorem spelled_ident (what : String) :
    Keeps FileState.Spelled (require .ident what) fun tok => IsCIdent tok.text :=
  (spelled_require .ident what).mono fun _ h => h.2 h.1

theorem spelled_error_fail (tok : Token) (msg : String) {post : α → Prop} :
    Keeps FileState.Spelled (error tok msg >>= fun _ => (fail : Parse α)) post :=
  (spelled_error tok msg).bind fun _ _ => .fail

theorem spelled_push (sink : Sink) {x : GroupStmt} (hx : GroupSpelled x) :
    Keeps FileState.Spelled (push sink x) fun _ => True := by
  refine .modify (fun s h => ?_) trivial
  cases sink with
  | module =>
    refine ⟨h.cur, fun y hy => ?_, h.body⟩
    rcases List.mem_append.mp hy with hy | hy
    · exact h.stmts y hy
    · rw [List.mem_singleton.mp hy]
      cases x with
      | instanceDecl d => exact hx
      | connectionDecl c => trivial
  | group =>
    refine ⟨h.cur, h.stmts, fun y hy => ?_⟩
    rcases List.mem_append.mp hy with hy | hy
    · exact h.body y hy
    · rw [List.mem_singleton.mp hy]
      exact hx

theorem spelled_pushTop {x : TopStmt} (hx : TopSpelled x) :
    Keeps FileState.Spelled (pushTop x) fun _ => True := by
  refine .modify (fun s h => ⟨h.cur, fun y hy => ?_, h.body⟩) trivial
  rcases List.mem_append.mp hy with hy | hy
  · exact h.stmts y hy
  · rw [List.mem_singleton.mp hy]
    exact hx

theorem spelled_braceBlock : Keeps FileState.Spelled parseBraceBlock fun _ => True := by
  intro m s r t hs hrun
  cases hrun
  refine ⟨⟨?_, hs.stmts, hs.body⟩, fun _ _ => trivial⟩
  show s.toState.braceBlock.2.cur.Spelled
  -- the token behind a block that is read to its end is a new one, any other is the one before
  unfold State.braceBlock
  split
  next => exact hs.cur
  next =>
    generalize (s.lex.seekTo s.cur.range.end.offset).lexOpaqueBlock = out
    obtain ⟨block, lex⟩ := out
    simp only []
    split
    · exact hs.cur
    · exact Lexer.spelled_next lex

theorem spelled_untilBrace {body : β → Parse β}
    (h : ∀ b, Keeps FileState.Spelled (body b) fun _ => True) (b : β) :
    Keeps FileState.Spelled (untilBrace body b) fun _ => True :=
  .loop (fun b _ => spelled_cur.bind fun _ _ => .ite (fun _ => .pure trivial)
    fun _ => (h b).bind fun _ _ => .pure trivial) trivial

/-! ### Elements -/

theorem spelled_signalHead : Keeps FileState.Spelled parseSignalHead fun _ => True := by
  have hparam : Keeps FileState.Spelled parseSignalParam fun _ => True :=
    (spelled_require _ _).bind fun _ _ => (spelled_require _ _).bind fun _ _ => .pure trivial
  have hparams : Keeps FileState.Spelled parseSignalParams fun _ => True := by
    refine Keeps.bind (.loop (P := fun _ => True) (fun params _ => ?_) trivial) fun _ _ =>
      (spelled_expect _ _).bind fun _ _ => .pure trivial
    refine spelled_cur.bind fun _ _ => .ite (fun _ => .pure trivial) fun _ => ?_
    exact hparam.bind fun _ _ => (spelled_accept _).bind fun _ _ =>
      .ite (fun _ => .pure trivial) fun _ => .pure trivial
  exact (spelled_accept _).bind fun _ _ => .ite (fun _ => hparams) fun _ => .pure trivial

theorem spelled_hlsPragmas (pragmas : List String) :
    Keeps FileState.Spelled (parseHlsPragmas pragmas) fun _ => True :=
  (spelled_require _ _).bind fun _ _ =>
    (spelled_untilBrace (fun _ => (spelled_require _ _).bind fun _ _ =>
      (spelled_expect _ _).bind fun _ _ => .pure trivial) pragmas).bind fun _ _ =>
    (spelled_expect _ _).bind fun _ _ => .pure trivial

theorem spelled_timingEntry (ii : Int) :
    Keeps FileState.Spelled (parseTimingEntry ii) fun _ => True := by
  refine (spelled_require _ _).bind fun id _ => (spelled_require _ _).bind fun _ _ =>
    (spelled_require _ _).bind fun val _ => .ite (fun _ => ?_) fun _ => spelled_error_fail id _
  split
  · exact spelled_error_fail val _
  · exact .ite (fun _ => spelled_error_fail val _) fun _ =>
      (spelled_expect _ _).bind fun _ _ => .pure trivial

theorem spelled_timing (ii : Int) : Keeps FileState.Spelled (parseTiming ii) fun _ => True :=
  (spelled_require _ _).bind fun _ _ => (spelled_untilBrace spelled_timingEntry ii).bind fun _ _ =>
    (spelled_expect _ _).bind fun _ _ => .pure trivial

theorem spelled_section (elem : ElementDecl) :
    Keeps FileState.Spelled (parseSection elem) fun _ => True := by
  refine spelled_cur.bind fun tok _ => ?_
  split
  · exact spelled_advance.bind fun _ _ => spelled_braceBlock.bind fun _ _ => .pure trivial
  · exact spelled_advance.bind fun _ _ => spelled_braceBlock.bind fun _ _ => .pure trivial
  · exact spelled_advance.bind fun _ _ => spelled_braceBlock.bind fun _ _ => .pure trivial
  · exact spelled_advance.bind fun _ _ => spelled_signalHead.bind fun _ _ =>
      spelled_braceBlock.bind fun _ _ => .pure trivial
  · exact spelled_advance.bind fun _ _ => (spelled_hlsPragmas _).bind fun _ _ => .pure trivial
  · exact spelled_advance.bind fun _ _ => (spelled_timing _).bind fun _ _ => .pure trivial
  · exact spelled_error_fail tok _

theorem spelled_portCounts : Keeps FileState.Spelled parsePortCounts fun _ => True := by
  refine (spelled_accept _).bind fun _ _ => .ite (fun _ => ?_) fun _ => .pure trivial
  exact (spelled_require _ _).bind fun _ _ => (spelled_expect _ _).bind fun _ _ =>
    (spelled_require _ _).bind fun _ _ => (spelled_expect _ _).bind fun _ _ => .pure trivial

theorem spelled_elementDecl : Keeps FileState.Spelled parseElementDecl fun _ => True := by
  refine spelled_cur.bind fun _ _ => spelled_advance.bind fun _ _ =>
    (spelled_require _ _).bind fun _ _ => spelled_portCounts.bind fun _ _ => ?_
  have hbody : ∀ elem, Keeps FileState.Spelled (parseElementBody elem) fun _ => True :=
    fun elem => (spelled_require _ _).bind fun _ _ =>
      (spelled_untilBrace spelled_section elem).bind fun _ _ =>
        (spelled_expect _ _).bind fun _ _ => .pure trivial
  exact (hbody _).bind fun decl _ => spelled_pushTop (x := .elementDecl decl) trivial

/-! ### Instances and connections -/

theorem spelled_after (t : Tok) (what : String) (default : Int) :
    Keeps FileState.Spelled (parseAfter t what default) fun _ => True :=
  (spelled_accept _).bind fun _ _ => .ite
    (fun _ => (spelled_require _ _).bind fun _ _ => .pure trivial) fun _ => .pure trivial

theorem spelled_optionalRange : Keeps FileState.Spelled parseOptionalRange fun _ => True := by
  refine spelled_cur.bind fun _ _ => .ite (fun _ => ?_) fun _ => .pure trivial
  have hrange : Keeps FileState.Spelled parseRange fun _ => True :=
    spelled_cur.bind fun _ _ => spelled_advance.bind fun _ _ =>
      (spelled_require _ _).bind fun _ _ => (spelled_after _ _ _).bind fun _ _ =>
        (spelled_after _ _ _).bind fun _ _ => (spelled_expect _ _).bind fun _ _ => .pure trivial
  exact hrange.attempt.mono fun _ _ => trivial

theorem spelled_args (strict : Bool) :
    Keeps FileState.Spelled (parseArgs strict) fun _ => True := by
  have hturn : ∀ params, Keeps FileState.Spelled (paramTurn strict params) fun _ => True := by
    refine fun params => (spelled_accept _).bind fun _ _ => .ite (fun _ => ?_)
      fun _ => .pure trivial
    refine spelled_cur.bind fun tok _ => .ite
      (fun _ => spelled_advance.bind fun _ _ => .pure trivial) fun _ => .ite
      (fun _ => spelled_advance.bind fun _ _ => .pure trivial) fun _ => .ite
      (fun _ => spelled_error_fail tok _) fun _ => .pure trivial
  exact (spelled_require _ _).bind fun _ _ => (spelled_expect _ _).bind fun _ _ =>
    (spelled_require _ _).bind fun _ _ => (spelled_after _ _ _).bind fun _ _ =>
      Keeps.bind (.loop (P := fun _ => True) (fun params _ => hturn params) trivial) fun _ _ =>
        (spelled_expect _ _).bind fun _ _ => .pure trivial

theorem spelled_instance (sink : Sink) {first : Token} (hfirst : IsCIdent first.text) :
    Keeps FileState.Spelled (parseInstance sink first) fun _ => True := by
  have hqualifier : Keeps FileState.Spelled parseHostQualifier fun _ => True := by
    refine .loop (fun flags _ => ?_) trivial
    exact (spelled_accept _).bind fun _ _ => .ite (fun _ => .pure trivial) fun _ =>
      (spelled_accept _).bind fun _ _ => .ite (fun _ => .pure trivial) fun _ => .pure trivial
  have hargs : Keeps FileState.Spelled parseInstanceArgs fun _ => True :=
    (spelled_accept _).bind fun _ _ => .ite (fun _ => spelled_args true) fun _ => .pure trivial
  refine spelled_advance.bind fun _ _ => (spelled_ident _).bind fun name hname =>
    hqualifier.bind fun _ _ => hargs.bind fun _ _ => (spelled_accept _).bind fun _ _ => ?_
  exact spelled_push sink ⟨hfirst, hname⟩

/-- The name that is made up for an inline instance. -/
theorem isCIdent_anonName {type : String} (h : IsCIdent type) (loc : SourceLoc) :
    IsCIdent (anonName type loc) :=
  (((h.append (by decide)).append (word_natToString _)).append (by decide)).append
    (word_natToString _)

theorem spelled_node (sink : Sink) {tok : Token} (htok : IsCIdent tok.text) :
    Keeps FileState.Spelled (parseNode sink tok) fun _ => True := by
  refine (spelled_accept _).bind fun _ _ => .ite (fun _ => ?_) fun _ => .pure trivial
  refine (spelled_args false).bind fun _ _ => spelled_prev.bind fun _ _ =>
    Keeps.bind (spelled_push sink ?_) fun _ _ => .pure trivial
  exact ⟨htok, isCIdent_anonName htok _⟩

theorem spelled_link (sink : Sink) (arrow : Token) (source : ConnEnd) :
    Keeps FileState.Spelled (parseLink sink arrow source) fun _ => True := by
  refine spelled_advance.bind fun _ _ => spelled_optionalRange.bind fun _ _ =>
    spelled_cur.bind fun tok _ => .ite (fun _ => ?_) fun _ => spelled_error_fail tok _
  exact (spelled_accept _).bind fun _ _ => (spelled_accept _).bind fun _ _ =>
    (spelled_ident _).bind fun _ hnext => (spelled_node sink hnext).bind fun _ _ =>
      spelled_prev.bind fun _ _ => spelled_optionalRange.bind fun _ _ =>
        Keeps.bind (spelled_push sink trivial) fun _ _ => .pure trivial

theorem spelled_chain (sink : Sink) {first : Token} (hfirst : IsCIdent first.text) :
    Keeps FileState.Spelled (parseChain sink first) fun _ => True := by
  refine (spelled_node sink hfirst).bind fun _ _ => spelled_prev.bind fun _ _ =>
    spelled_optionalRange.bind fun _ _ => Keeps.bind
      (.loop (P := fun _ => True) (fun source _ => ?_) trivial) fun _ _ =>
        (spelled_accept _).bind fun _ _ => .pure trivial
  exact spelled_cur.bind fun tok _ => .ite
    (fun _ => (spelled_link sink tok source).bind fun _ _ => .pure trivial) fun _ => .pure trivial

theorem spelled_declOrChain (sink : Sink) :
    Keeps FileState.Spelled (parseDeclOrChain sink) fun _ => True := by
  have hqualifier : Keeps FileState.Spelled parseQualifier fun _ => True :=
    (spelled_accept _).bind fun _ _ => .ite (fun _ => .pure trivial) fun _ =>
      (spelled_accept _).bind fun _ _ => .pure trivial
  refine hqualifier.bind fun _ _ => spelled_cur.bind fun first hfirst => .ite (fun hkind => ?_)
    fun _ => spelled_error_fail first _
  exact spelled_advance.bind fun _ _ => spelled_cur.bind fun _ _ => .ite
    (fun _ => spelled_instance sink (hfirst hkind)) fun _ => spelled_chain sink (hfirst hkind)

/-! ### Groups -/

theorem spelled_skipUntil (kinds : List Tok) :
    Keeps FileState.Spelled (skipUntil kinds) fun _ => True :=
  .loop (fun _ _ => spelled_cur.bind fun _ _ => .ite (fun _ => .pure trivial)
    fun _ => spelled_advance.bind fun _ _ => .pure trivial) trivial

theorem spelled_groupBody :
    Keeps FileState.Spelled parseGroupBody fun body => ∀ x ∈ body, GroupSpelled x := by
  have hclear : Keeps FileState.Spelled (modify fun s => { s with body := [] }) fun _ => True :=
    .modify (fun _ h => ⟨h.cur, h.stmts, fun _ hx => absurd hx List.not_mem_nil⟩) trivial
  refine (spelled_require _ _).bind fun _ _ => hclear.bind fun _ _ => ?_
  refine (spelled_untilBrace (fun _ => ?_) ()).bind fun _ _ => (spelled_expect _ _).bind fun _ _ =>
    .get_bind fun _ h => .pure h.body
  exact (spelled_declOrChain .group).attempt.bind fun _ _ => .ite (fun _ => spelled_skipUntil _)
    fun _ => .pure trivial

theorem spelled_elementGroupDecl :
    Keeps FileState.Spelled parseElementGroupDecl fun _ => True := by
  refine spelled_cur.bind fun _ _ => spelled_advance.bind fun _ _ =>
    (spelled_require _ _).bind fun _ _ => spelled_portCounts.bind fun _ _ =>
      spelled_groupBody.bind fun body hbody => ?_
  exact spelled_pushTop (x := .elementGroupDecl _) hbody

/-! ### Files -/

/-- In a module every instance has a type and a name that are C identifiers. -/
def SpelledModule (r : Option Module) : Prop := ∀ m, r = some m → ∀ x ∈ m.stmts, TopSpelled x

section
variable {fs : FileSystem} {importDirs : List String}
variable {parseFile : String → Production Parser Module}

/-- The statements of the imported file are put in front. -/
theorem spelled_importRest
    (hfile : ∀ path, Triple (fun _ => True) (parseFile path) fun r _ => SpelledModule r)
    (kw str : Token) :
    Keeps FileState.Spelled (importRest fs importDirs parseFile kw str) fun _ => True := by
  refine Triple.get_bind fun s hs => ?_
  have hsub : Triple (fun t => t = s) (attempt (within FileState.parser FileState.withParser
      (parseFile (fs.resolveImport importDirs s.lex.buf.path str.text))))
      fun o t => t.Spelled ∧ ∀ sub, o = some (some sub) → ∀ x ∈ sub.stmts, TopSpelled x := by
    refine Triple.attempt (Triple.within trivial ((hfile _).mono ?_))
    intro r p hr
    exact ⟨⟨hs.cur, hs.stmts, hs.body⟩, fun sub hsub => hr sub (Option.some.inj hsub)⟩
  -- an import that fails ends the statement
  refine hsub.bind (fun o m u r t hu hrun => ?_) fun t ht => ⟨ht.1, fun _ h => by cases h⟩
  cases o with
  | none => exact spelled_error_fail (α := Unit) str _ m u r t hu.1 hrun
  | some sub =>
    have hmerge : Keeps FileState.Spelled
        (modify fun s => { s with stmts := s.stmts ++ sub.stmts }) fun _ => True := by
      refine .modify (fun s h => ⟨h.cur, fun x hx => ?_, h.body⟩) trivial
      exact (List.mem_append.mp hx).elim (h.stmts x) (hu.2 sub rfl x)
    exact hmerge.bind (fun _ _ => spelled_pushTop (x := .importDecl _) trivial) m u r t hu.1 hrun

theorem spelled_import
    (hfile : ∀ path, Triple (fun _ => True) (parseFile path) fun r _ => SpelledModule r) :
    Keeps FileState.Spelled (parseImport fs importDirs parseFile) fun _ => True := by
  have hhead : Keeps FileState.Spelled importHead fun _ => True :=
    spelled_advance.bind fun _ _ => (spelled_require _ _).bind fun _ _ =>
      (spelled_accept _).bind fun _ _ => .pure trivial
  rw [parseImport_eq]
  exact spelled_cur.bind fun kw _ => hhead.bind fun str _ => spelled_importRest hfile kw str

theorem spelled_stmts
    (hfile : ∀ path, Triple (fun _ => True) (parseFile path) fun r _ => SpelledModule r) :
    Keeps FileState.Spelled (parseStmts fs importDirs parseFile) fun _ => True := by
  have hstmt : Keeps FileState.Spelled (parseTopStmt fs importDirs parseFile) fun _ => True := by
    refine spelled_cur.bind fun tok _ => ?_
    split
    · exact spelled_import hfile
    · exact spelled_elementDecl
    · exact spelled_elementGroupDecl
    · exact spelled_declOrChain .module
  refine .loop (fun _ _ => spelled_cur.bind fun _ _ => .ite (fun _ => .pure trivial) fun _ => ?_)
    trivial
  exact hstmt.attempt.bind fun _ _ => .ite
    (fun _ => (spelled_skipUntil _).bind fun _ _ => .pure trivial) fun _ => .pure trivial

/-- An opened file. -/
theorem spelled_parseBuffer
    (hfile : ∀ path, Triple (fun _ => True) (parseFile path) fun r _ => SpelledModule r)
    (path : String) (contents : List Char) :
    Triple (fun _ => True) (parseBuffer fs importDirs parseFile path contents)
      fun r _ => SpelledModule r := by
  intro m p r q _ hrun
  unfold parseBuffer at hrun
  cases hstmts : parseStmts fs importDirs parseFile m (openFile p path contents) with
  | none =>
    rw [hstmts] at hrun
    cases hrun
  | some out =>
    rw [hstmts] at hrun
    cases hrun
    have hopen : (openFile p path contents).Spelled := ⟨Lexer.spelled_next _,
      fun _ hx => absurd hx List.not_mem_nil, fun _ hx => absurd hx List.not_mem_nil⟩
    intro sub hsub
    cases hsub
    exact (spelled_stmts hfile m _ out.1 out.2 hopen hstmts).1.stmts

end

/-- **The instances of a parsed module.** Induction on the bound on the open files. -/
theorem triple_spelledFile (fs : FileSystem) (importDirs : List String) (depth : Nat)
    (path : String) :
    Triple (fun _ => True) (Parser.parseFile fs importDirs depth path)
      fun r _ => SpelledModule r := by
  induction depth generalizing path with
  | zero => exact fun _ _ _ _ _ hrun => by cases hrun
  | succ depth ih =>
    refine Triple.get_bind fun p _ => ?_
    split
    · -- the file has been read before: no statements
      intro m p' r q _ hrun
      cases hrun
      intro sub hsub
      cases hsub
      exact fun _ hx => absurd hx List.not_mem_nil
    · refine Triple.bind (Q := fun r _ => r ≠ none) (fun m p' r q _ hrun => ?_) (fun _ => ?_)
        fun _ hq => absurd rfl hq
      · cases hrun
        exact Option.some_ne_none _
      · cases fs.read path with
        | none =>
          intro m _ r q _ hrun
          cases hrun
          exact fun _ h => by cases h
        | some contents =>
          exact fun m p r q _ hrun => spelled_parseBuffer ih path contents m p r q trivial hrun

end Parser

end OpenClickNP
