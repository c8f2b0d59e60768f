import OpenClickNP.Compiler.Printing

/-!
# A block beyond 4 GiB

`parseBraceBlock` goes back to the character behind a brace by its offset, and that is a 32-bit
number. Behind 4 GiB of text it comes out at the start of the file: the whole file is taken for
the text of the block, and no statement is read.
-/

namespace OpenClickNP

open Ast Syntax OpenClickNP.Parser Production OpenClickNP.Lexer

section
variable {u v v' t : State} {s : FileState} {fs : FileSystem} {importDirs : List String}

/-- `braceBlock` at a brace, when the file ends in the block. -/
theorem braceBlock_unclosed {lx : Lexer} {w : List Char} (hkind : v.cur.kind = .lBrace)
    (hseek : v.lex.seekTo v.cur.range.end.offset = lx) (hrest : lx.rest = w)
    (hbalanced : OpaqueText 0 w) :
    ∃ v', v.braceBlock = (none, v') ∧ v'.cur.kind = .lBrace ∧ v'.advance.cur.kind = .eof ∧
      v'.advance.lex.diags.hasError = true := by
  obtain ⟨herror, hnil, hdiags⟩ := lexOpaqueBlock_unclosed hbalanced hrest
  have hbrace : ¬ v.cur.kind ≠ .lBrace := not_not.mpr hkind
  refine ⟨{ v with lex := lx.lexOpaqueBlock.2 }, ?_, hkind, ?_⟩
  · unfold State.braceBlock
    rw [if_neg hbrace, hseek]
    exact if_pos herror
  · have hblanks : ∀ c ∈ lx.lexOpaqueBlock.2.rest, isBlank c = true := by
      rw [hnil]
      nofun
    obtain ⟨tok, lx', hnext, heof, hpass⟩ := next_of_blank hblanks
    simp only [State.advance, hnext]
    exact ⟨heof, by rw [hpass.diags, hdiags]⟩

theorem fails_braceBlock (h : v.braceBlock = (none, v')) :
    Yields parseBraceBlock (s.at v) none (s.at v') := by
  refine .of_eq fun _ => ?_
  show some ((s.at v).toState.braceBlock.1, (s.at v).at (s.at v).toState.braceBlock.2) = _
  rw [FileState.at_toState, h, FileState.at_at]

/-- A `.init` section whose block cannot be read. -/
theorem fails_section {elem : ElementDecl} (hreads : u.Reads [.sym .kwInit] v)
    (hblock : v.braceBlock = (none, v')) :
    Yields (parseSection elem) (s.at u) none (s.at v') := by
  obtain ⟨hk, hrest⟩ := reads_sym.mp hreads
  obtain rfl := reads_nil.mp hrest
  refine yields_cur.bind ?_
  simp only [hk]
  exact yields_advance.bind (fails_braceBlock hblock).bind_fail

/-- An element with a `.state` block that can be read and a `.init` block that cannot. -/
theorem fails_elementDecl {name text : String} {ports : Option (Numeral × Numeral)}
    (hreads : u.Reads (.sym .kwElement :: .ident name :: (portsLexemes ports ++
      .sym .lBrace :: ((Section.state text).lexemes ++ [.sym .kwInit]))) v)
    (hblock : v.braceBlock = (none, v')) :
    Yields parseElementDecl (s.at u) none (s.at v') := by
  obtain ⟨-, hrest⟩ := reads_sym.mp hreads
  obtain ⟨⟨hname, -⟩, hrest⟩ := reads_ident.mp hrest
  obtain ⟨w, hports, hrest⟩ := reads_append.mp hrest
  obtain ⟨hopen, hrest⟩ := reads_sym.mp hrest
  obtain ⟨w', hstate, hinit⟩ := reads_append.mp hrest
  have hk := (reads_sym.mp hinit).1
  have hloop : ∀ elem, Loops (braceTurn parseSection) elem (s.at w.advance) none (s.at v') := by
    intro elem
    obtain ⟨elem', hrun, -⟩ := yields_section (s := s) (x := .state text) trivial hstate elem
    refine loops_brace_turn (section_kind hstate) hrun (.fail (yields_cur.bind (.ite_neg ?_ ?_)))
    · simp [hk]
    · exact (fails_section hinit hblock).bind_fail
  refine yields_cur.bind (yields_advance.bind ((yields_require hname).bind ?_))
  refine (yields_portCounts hports (by rw [hopen]; decide)).bind (Yields.bind_fail ?_)
  exact (yields_require hopen).bind (hloop _).yields.bind_fail

/-- After a statement that fails at the end of the file there is nothing left. -/
theorem loops_failed {parseFile : String → Production Parser Module}
    (hfirst : u.cur.kind ≠ .eof)
    (hfails : Yields (parseTopStmt fs importDirs parseFile) (s.at u) none (s.at v))
    (hstuck : v.cur.kind = .lBrace) (hend : v.advance.cur.kind = .eof) :
    Loops (stmtTurn fs importDirs parseFile) () (s.at u) (some ()) (s.at v.advance) := by
  have hskip : Yields (skipUntil [.eof, .kwElement, .kwElementGroup, .kwImport]) (s.at v) (some ())
      (s.at v.advance) := by
    have hturn : Yields (skipTurn [.eof, .kwElement, .kwElementGroup, .kwImport] ()) (s.at v)
        (some (.yield ())) (s.at v.advance) := by
      refine yields_cur.bind (.ite_neg (by simp [hstuck]) ?_)
      exact yields_advance.bind (.pure _ _)
    have hlast : Yields (skipTurn [.eof, .kwElement, .kwElementGroup, .kwImport] ())
        (s.at v.advance) (some (.done ())) (s.at v.advance) :=
      yields_cur.bind (.ite_pos (by simp [hend]) (.pure _ _))
    exact (Loops.turn hturn (.done hlast)).yields
  have hturn : Yields (stmtTurn fs importDirs parseFile ()) (s.at u) (some (.yield ()))
      (s.at v.advance) := by
    refine yields_cur.bind (.ite_neg hfirst (hfails.attempt.bind ?_))
    exact .ite_pos rfl (hskip.bind (.pure _ _))
  exact .turn hturn (.done (yields_cur.bind (.ite_pos hend (.pure _ _))))

end

/-! ## The file -/

/-- `n` blanks in the `.state` block of an element with an empty `.init` block. -/
def blankElement (n : Nat) : ElementDecl where
  name := "E"
  nInPorts := 0
  nOutPorts := 0
  state := some { text := String.ofList (List.replicate n ' ') }
  init := some { text := "" }

theorem canonical_blankElement (n : Nat) : (blankElement n).Canonical where
  name := (by decide : IsIdent "E")
  ports := .inl (by decide : IsCount 0 ∧ IsCount 0)
  state := by
    rintro b ⟨⟩
    rw [String.toList_ofList, ← List.append_nil (List.replicate n ' ')]
    refine .plains (fun c hc => ?_) .nil
    rw [List.eq_of_mem_replicate hc]
    decide
  init := by
    rintro b ⟨⟩
    exact .nil
  handler := nofun
  signal := nofun
  params := nofun
  unsignalled := fun _ => rfl
  pipelineIi := (by decide : (0 : Int) ≤ 0 ∧ (0 : Int) ≤ 64)

/-- Up to the first block. -/
def headLexemes : List Lexeme :=
  .sym .kwElement :: .ident "E" ::
    (portsLexemes (some (countOf 0, countOf 0)) ++ [.sym .lBrace, .sym .kwState])

/-- Up to the second block. -/
def frontLexemes (n : Nat) : List Lexeme :=
  headLexemes ++ [.block (String.ofList (List.replicate n ' ')), .sym .kwInit]

theorem length_front (n : Nat) : (textOf (spread (frontLexemes n))).length = n + 39 := by
  have hhead : (textOf (spread headLexemes)).length = 30 := by decide
  have hinit : (textOf (spread [.sym .kwInit])).length = 6 := by decide
  rw [frontLexemes, textOf_spread_append, List.length_append, hhead, textOf_spread_cons,
    List.length_cons, List.length_append, hinit, Lexeme.spelling, String.toList_ofList,
    List.length_cons, List.length_append, List.length_replicate, List.length_singleton]
  omega

/-! ### The file as the text of a block -/

section
variable {d : Nat} {l : Lexeme} {ls : List Lexeme}

theorem OpaqueText.lexeme (hl : ∀ c ∈ l.spelling, c ∉ ['"', '\'', '\x7b', '\x7d', '/'])
    (h : OpaqueText d (textOf (spread ls))) : OpaqueText d (textOf (spread (l :: ls))) := by
  rw [textOf_spread_cons, ← List.cons_append]
  refine .plains (fun c hc => ?_) h
  rcases List.mem_cons.mp hc with rfl | hc
  · decide
  · exact hl c hc

theorem opaque_blank {w : List Char} (h : OpaqueText d w) : OpaqueText d (' ' :: w) :=
  .plain ⟨by decide, fun hslash => absurd hslash (by decide)⟩ h

theorem OpaqueText.lBrace (h : OpaqueText (d + 1) (textOf (spread ls))) :
    OpaqueText d (textOf (spread (.sym .lBrace :: ls))) := by
  rw [textOf_spread_cons]
  exact opaque_blank (.opened h)

theorem OpaqueText.rBrace (h : OpaqueText d (textOf (spread ls))) :
    OpaqueText (d + 1) (textOf (spread (.sym .rBrace :: ls))) := by
  rw [textOf_spread_cons]
  exact opaque_blank (.closed h)

theorem OpaqueText.blanks (n : Nat) (h : OpaqueText d (textOf (spread ls))) :
    OpaqueText d (textOf (spread (.block (String.ofList (List.replicate n ' ')) :: ls))) := by
  rw [textOf_spread_cons, Lexeme.spelling, String.toList_ofList, List.cons_append,
    List.append_assoc]
  refine opaque_blank (.opened (.plains (fun c hc => ?_) (.closed h)))
  rw [List.eq_of_mem_replicate hc]
  decide

end

theorem opaque_file (n : Nat) :
    OpaqueText 0 (textOf (spread (frontLexemes n ++ [.block "", .sym .rBrace]))) := by
  have hback : OpaqueText 1 (textOf (spread [.sym .kwInit, .block "", .sym .rBrace])) :=
    .lexeme (by decide) (.blanks 0 (.rBrace .nil))
  have hbody : OpaqueText 0 (textOf (spread (.sym .lBrace :: .sym .kwState ::
      .block (String.ofList (List.replicate n ' ')) ::
        [.sym .kwInit, .block "", .sym .rBrace]))) :=
    .lBrace (.lexeme (by decide) (.blanks n hback))
  refine .lexeme (l := .sym .kwElement) (by decide) (.lexeme (l := .ident "E") (by decide) ?_)
  refine .lexeme (l := .sym .lAngle) (by decide) (.lexeme (l := .number _) (by decide) ?_)
  refine .lexeme (l := .sym .comma) (by decide) (.lexeme (l := .number _) (by decide) ?_)
  exact .lexeme (l := .sym .rAngle) (by decide) hbody

/-- The brace of the second block ends at offset `2 ^ 32`, which wraps around to the start of the
file. -/
theorem reads_front {n : Nat} (hn : n + 41 = 2 ^ 32) (p : Parser) (path : String) :
    ∃ v, (openFile p path (textOf (spread (frontLexemes n ++ [.block "", .sym .rBrace])))).Reads
        (frontLexemes n) v ∧
      v.cur.kind = .lBrace ∧ v.lex.pos = 2 ^ 32 ∧ v.cur.range.end.offset = 0 ∧
      (v.lex.seekTo 0).rest = textOf (spread (frontLexemes n ++ [.block "", .sym .rBrace])) := by
  generalize hcontents : textOf (spread (frontLexemes n ++ [.block "", .sym .rBrace])) = contents
  let s : FileState := openFile p path contents
  let lx₀ : Lexer :=
    { buf := { path := path, contents := contents }
      fileId := UInt32.ofNat p.buffers.length
      diags := p.diags }
  have hrest₀ : lx₀.rest = textOf (spread (frontLexemes n)) ++
      textOf (spread [.block "", .sym .rBrace]) := by
    rw [← textOf_spread_append, hcontents]
    rfl
  -- the lexemes in front of the block
  have hplain : ∀ q ∈ spread (frontLexemes n), q.lexeme.Plain ∧ q.lexeme.Closed := by
    intro q hq
    have hreadable : Readable (frontLexemes n ++ [.block "", .sym .rBrace]) :=
      readable_element (canonical_blankElement n)
    refine hreadable _ (List.mem_append_left [Lexeme.block "", .sym .rBrace] ?_)
    rw [← map_spread (frontLexemes n)]
    exact List.mem_map_of_mem hq
  have hstart : lx₀.next = (s.cur, s.lex) := rfl
  obtain ⟨v, lx₁, hreads, hnext, hpass⟩ := reads_layout (u := s.toState) hstart hrest₀
    (spaced_spread _ (by decide)) hplain
    (inReach_of_length 0 (by rw [length_front]; omega))
  rw [map_spread] at hreads
  -- the brace of the block
  have hrest₁ : lx₁.rest = [' '] ++ ((Lexeme.block "").opening ++
      ('\x7d' :: textOf (spread [.sym .rBrace]))) := hpass.rest_eq hrest₀
  obtain ⟨tok, lx₂, hnext₂, hmatch, hend, hpass₂⟩ := next_lexeme (l := .block "") trivial
    (by decide) hrest₁ fun _ _ => rfl
  obtain ⟨rfl, rfl⟩ : tok = v.cur ∧ lx₂ = v.lex := by simpa [hnext] using hnext₂.symm
  have hpos : v.lex.pos = 2 ^ 32 := by
    rw [hpass₂.pos, hpass.pos, length_front]
    show 0 + (n + 39) + 2 = 2 ^ 32
    omega
  have hoffset : v.cur.range.end.offset = 0 := by
    rw [hend, here, hpos]
    rfl
  have hbuf : v.lex.buf = lx₀.buf := hpass₂.buf.trans hpass.buf
  refine ⟨v, hreads, hmatch, hpos, hoffset, ?_⟩
  rw [rest, src, buf_seekTo, hbuf]
  rfl

theorem blankElement_unread {n : Nat} (hn : n + 41 = 2 ^ 32) {fs : FileSystem}
    {importDirs : List String} {path : String}
    (hread : fs.read path
      = some (textOf (spread (frontLexemes n ++ [.block "", .sym .rBrace])))) :
    ¬ ReadsBack fs importDirs 1 path [.elementDecl (blankElement n)] := by
  obtain ⟨v, hreads, hmatch, -, hoffset, hseek⟩ := reads_front hn (markSeen fs path {}) path
  have hopaque := opaque_file n
  generalize textOf (spread (frontLexemes n ++ [.block "", .sym .rBrace])) = contents at *
  let s : FileState := openFile (markSeen fs path {}) path contents
  rw [← hoffset] at hseek
  obtain ⟨v', hblock, hstuck, heof, herror⟩ := braceBlock_unclosed hmatch rfl hseek
    hopaque
  have hfirst : s.cur.kind = .kwElement := (reads_sym.mp hreads).1
  have hfails : Yields (parseTopStmt fs importDirs (parseFile fs importDirs 0))
      (s.at s.toState) none
      (s.at v') := by
    refine yields_cur.bind ?_
    simp only [hfirst]
    have hreads' : s.toState.Reads (.sym .kwElement :: .ident "E" ::
        (portsLexemes (some (countOf 0, countOf 0)) ++ .sym .lBrace ::
          ((Section.state (String.ofList (List.replicate n ' '))).lexemes ++ [.sym .kwInit]))) v :=
      hreads
    exact fails_elementDecl hreads' hblock
  have hloop := loops_failed (by rw [hfirst]; decide) hfails hstuck heof
  have hrun := yields_parseFile (p := {}) List.not_mem_nil hread hloop.yields
  rintro ⟨m, p, hrun', -, hdiags⟩
  obtain ⟨-, rfl⟩ := hrun'.unique hrun
  have herror' : ((s.at v'.advance).parser.diags).hasError = true := herror
  rw [hdiags] at herror'
  exact absurd herror' (by decide)

/-- 4294967255 blanks are enough. -/
theorem printed_unread : ¬ ∀ (given : List (TopStmt × Style)) (ps : List Spelled)
    (blanks : List Char) (fs : FileSystem) (importDirs : List String) (path : String),
    (∀ x ∈ given, x.1.Canonical) → Prints given ps blanks →
      fs.read path = some (textOf ps ++ blanks) →
        ReadsBack fs importDirs 1 path (given.map Prod.fst) := by
  intro h
  have hn : 4294967255 + 41 = 2 ^ 32 := by decide
  generalize 4294967255 = n at hn
  let contents := textOf (spread (frontLexemes n ++ [.block "", .sym .rBrace]))
  have hprints : Prints [(.elementDecl (blankElement n), ⟨false, false⟩)]
      (spread (frontLexemes n ++ [.block "", .sym .rBrace])) [] :=
    ⟨map_spread _, spaced_spread _ nofun, nofun⟩
  refine blankElement_unread hn (rfl : (oneFile contents).read "e.clnp" = some contents)
    (h _ _ _ (oneFile contents) [] "e.clnp" (fun x hx => ?_) hprints ?_)
  · rw [List.mem_singleton.mp hx]
    exact canonical_blankElement n
  · rw [List.append_nil]
    rfl

end OpenClickNP
