import Mathlib.Data.List.Forall2
import OpenClickNP.Compiler.Buffer

/-!
# Files

A module is what is written in a file, with the statements of each import in front of the import.
`merge` is this for files that are written as lists of statements, without the tokens;
`yields_parseFile`: it is what `parseFile` gives, and nothing is reported.
-/

namespace OpenClickNP

open Ast Production Syntax

namespace Parser

section
variable {u v t : State} {s : FileState}

/-! ## Groups -/

theorem yields_decl {d : Decl} {semi : Bool}
    (hreads : u.Reads (d.lexemes ++ semicolonLexemes semi) v)
    (hend : semi = false → Ends v.cur) (sink : Sink) :
    ∃ out, Yields (parseDeclOrChain sink) (s.at u) (some ()) ((s.pushAll sink out).at v) ∧
      d.Gives out := by
  cases d with
  | «instance» i =>
    obtain ⟨d, hrun, hd⟩ := yields_instance (s := s) hreads hend sink
    rw [FileState.push_eq] at hrun
    refine ⟨[.instanceDecl d], hrun, ?_⟩
    rw [Decl.Gives, List.map_singleton, GroupStmt.bare, hd]
  | chain c => exact yields_chain hreads hend sink

theorem decl_kind {d : Decl} {semi : Bool} (h : u.Reads (d.lexemes ++ semicolonLexemes semi) v) :
    u.cur.kind = .ident := by
  obtain ⟨w, h, -⟩ := reads_append.mp h
  cases d with
  | «instance» i => exact (reads_ident.mp h).1.1
  | chain c => exact node_ident (reads_append.mp h).choose_spec.1

/-- A token that starts a statement, or that the statements stand in front of, ends a
declaration. -/
theorem ends_of_kind {tok : Token} (h : tok.kind ∈ [.eof, .rBrace, .ident, .kwImport, .kwElement,
    .kwElementGroup]) : Ends tok := by
  unfold Ends Stops
  generalize tok.kind = k at h
  revert k
  decide

theorem body_kind {body : List (Decl × Bool)} (h : u.Reads (Group.bodyLexemes body) v)
    (hend : v.cur.kind = .rBrace) : u.cur.kind = .ident ∨ u.cur.kind = .rBrace := by
  cases body with
  | nil =>
    obtain rfl := reads_nil.mp h
    exact Or.inr hend
  | cons d body =>
    rw [Group.bodyLexemes, List.flatMap_cons] at h
    obtain ⟨w, h, -⟩ := reads_append.mp h
    exact Or.inl (decl_kind h)

/-- The declarations of a group body. -/
theorem loops_body {body : List (Decl × Bool)} (hreads : u.Reads (Group.bodyLexemes body) v)
    (hend : v.cur.kind = .rBrace) :
    ∃ outs, Loops (braceTurn fun _ => do
        let ok ← attempt (parseDeclOrChain .group)
        if ok.isNone then skipUntil [.rBrace, .eof, .ident, .kwHost, .kwVerilog]) () (s.at u)
        (some ()) ((s.pushAll .group outs.flatten).at v) ∧
      List.Forall₂ (fun b out => b.1.Gives out) body outs := by
  induction body generalizing u s with
  | nil =>
    obtain rfl := reads_nil.mp hreads
    exact ⟨[], by rw [List.flatten_nil, FileState.pushAll_nil]; exact loops_brace_done hend, .nil⟩
  | cons d body ih =>
    rw [Group.bodyLexemes, List.flatMap_cons] at hreads
    obtain ⟨w, hd, hrest⟩ := reads_append.mp hreads
    have hnext : Ends w.cur := ends_of_kind (by
      rcases body_kind hrest hend with hk | hk <;> simp [hk])
    obtain ⟨out, hrun, hgives⟩ := yields_decl (s := s) hd (fun _ => hnext) .group
    obtain ⟨outs, hloop, hall⟩ := ih (s := s.pushAll .group out) hrest
    rw [FileState.pushAll_append, ← List.flatten_cons] at hloop
    refine ⟨out :: outs, loops_brace_turn ?_ (hrun.attempt.bind (.ite_neg ?_ (.pure _ _))) hloop,
      .cons hgives hall⟩
    · simp [decl_kind hd]
    · simp

/-- **A group declaration.** Its body is left behind in the state of the file. -/
theorem yields_groupDecl {g : Group} (hreads : u.Reads g.lexemes v) :
    ∃ d body, Yields parseElementGroupDecl (s.at u) (some ())
        (({ s with body := body }.add [.elementGroupDecl d]).at v) ∧ g.Gives d := by
  obtain ⟨-, hrest⟩ := reads_sym.mp hreads
  obtain ⟨⟨hname, htext⟩, hrest⟩ := reads_ident.mp hrest
  obtain ⟨w, hports, hrest⟩ := reads_append.mp hrest
  obtain ⟨hopen, hrest⟩ := reads_sym.mp hrest
  obtain ⟨w', hbody, hclose, rfl⟩ := reads_closed.mp hrest
  obtain ⟨outs, hloop, hall⟩ := loops_body (s := { s with body := [] }) hbody hclose
  refine ⟨{
    name := u.advance.cur.text
    src := { «begin» := u.cur.range.begin, «end» := u.advance.cur.range.end }
    nInPorts := (portsOf g.ports).1
    nOutPorts := (portsOf g.ports).2
    body := outs.flatten }, outs.flatten, ?_, htext, rfl, outs, hall, rfl⟩
  refine yields_cur.bind (yields_advance.bind ((yields_require hname).bind ?_))
  refine (yields_portCounts hports (by rw [hopen]; decide)).bind (Yields.bind ?_ (yields_pushTop _))
  refine (yields_require hopen).bind (Yields.bind (.modify _ _) (hloop.yields.bind ?_))
  exact (yields_expect hclose).bind (.get_bind (.pure _ _))

/-! ## Statements -/

/-- `s'` is `s`, read on to `v`, with `out` more in its module and the files `seen` read. -/
structure FileState.Reached (s : FileState) (v : State) (out : List TopStmt) (seen : List String)
    (s' : FileState) : Prop where
  toState : s'.toState = v
  stmts : s'.stmts = s.stmts ++ out
  seenFiles : s'.seenFiles = seen

theorem FileState.at_eq (h : s.toState = u) : s.at u = s := by
  subst h
  rfl

/-- A statement of a file that is no import. -/
theorem yields_stmt {x : Stmt} {fs : FileSystem} {importDirs : List String}
    {parseFile : String → Production Parser Module}
    (himport : ∀ target semi, x ≠ .import target semi)
    (hvalid : x.Valid) (hreads : u.Reads x.lexemes v) (hend : Ends v.cur) :
    ∃ out s', Yields (parseTopStmt fs importDirs parseFile) (s.at u) (some ()) s' ∧
      s.Reached v out s.seenFiles s' ∧ x.Gives out := by
  cases x with
  | «import» target semi => exact absurd rfl (himport target semi)
  | element e =>
    have hk : u.cur.kind = .kwElement := (reads_sym.mp hreads).1
    obtain ⟨d, hrun, hd⟩ := yields_elementDecl (s := s) hvalid hreads
    refine ⟨[.elementDecl d], (s.add [.elementDecl d]).at v, yields_cur.bind ?_,
      ⟨rfl, rfl, rfl⟩, ?_⟩
    · simpa only [hk] using hrun
    · rw [Stmt.Gives, List.map_singleton, TopStmt.bare, hd]
  | group g =>
    have hk : u.cur.kind = .kwElementGroup := (reads_sym.mp hreads).1
    obtain ⟨d, body, hrun, hd⟩ := yields_groupDecl (s := s) hreads
    refine ⟨[.elementGroupDecl d], ({ s with body := body }.add [.elementGroupDecl d]).at v,
      yields_cur.bind ?_, ⟨rfl, rfl, rfl⟩, d, rfl, hd⟩
    simpa only [hk] using hrun
  | decl d semi =>
    have hk : u.cur.kind = .ident := decl_kind hreads
    obtain ⟨out, hrun, hd⟩ := yields_decl (s := s) hreads (fun _ => hend) .module
    refine ⟨out.map topOf, (s.pushAll .module out).at v, yields_cur.bind ?_, ⟨rfl, rfl, rfl⟩,
      out, rfl, hd⟩
    simpa only [hk] using hrun

/-- Run by a parser that has read the files `seen`, the production gives what is written as `w`,
and has then read the files `seen'`; it reports nothing. -/
def Delivers (p : Production Parser Module) (seen : List String) (w : List Stmt)
    (seen' : List String) : Prop :=
  ∀ q : Parser, q.seenFiles = seen → ∃ m q' outs, Yields p q (some m) q' ∧ q'.seenFiles = seen' ∧
    q'.diags = q.diags ∧ List.Forall₂ Stmt.Gives w outs ∧ m.stmts = outs.flatten

/-- An import gives what the file gives, and itself. -/
theorem yields_import {target : String} {semi : Bool} {fs : FileSystem} {importDirs : List String}
    {parseFile : String → Production Parser Module} {w : List Stmt} {seen : List String}
    (hreads : u.Reads (Stmt.import target semi).lexemes v) (hend : Ends v.cur)
    (hfile : Delivers (parseFile (fs.resolveImport importDirs u.lex.buf.path target)) s.seenFiles w
      seen) :
    ∃ outs out s', Yields (parseTopStmt fs importDirs parseFile) (s.at u) (some ()) s' ∧
      s.Reached v (outs.flatten ++ out) seen s' ∧ List.Forall₂ Stmt.Gives w outs ∧
      (Stmt.import target semi).Gives out := by
  have hbuf : v.lex.buf = u.lex.buf := reads_buf hreads
  obtain ⟨hk, hrest⟩ := reads_sym.mp hreads
  obtain ⟨⟨hstr, htext⟩, hsemi⟩ := reads_str.mp hrest
  obtain ⟨m, q, outs, hrun, hseen, hdiags, hgives, hstmts⟩ := hfile (s.at v).parser rfl
  -- the sub-parse hands back the diagnostics it was given
  have hback : ((s.at v).withParser q).toState = v := by
    show { v with lex := { v.lex with diags := q.diags } } = v
    rw [hdiags]
    rfl
  let decl : ImportDecl := {
    path := u.advance.cur.text
    src := { «begin» := u.cur.range.begin, «end» := u.advance.cur.range.end } }
  let s₁ : FileState := (s.at v).withParser q
  refine ⟨outs, [.importDecl decl], { s₁ with stmts := s.stmts ++ m.stmts ++ [.importDecl decl] },
    yields_cur.bind ?_, ⟨hback, ?_, hseen⟩, hgives, ?_⟩
  · simp only [hk]
    refine yields_cur.bind (yields_advance.bind ((yields_require hstr).bind ?_))
    refine (yields_semicolon hsemi fun _ => hend.2).bind (.get_bind ?_)
    rw [FileState.at_toState, hbuf]
    rw [← htext] at hrun
    refine (Yields.attempt (Yields.within hrun)).bind ?_
    exact Yields.bind (.modify _ _) (.of_eq fun _ => rfl)
  · rw [← hstmts, ← List.append_assoc]
  · rw [Stmt.Gives, ← htext]
    rfl

end

end Parser

/-! ## Merged files -/

section
variable (fs : FileSystem) (importDirs : List String) (files : String → Option (List Stmt))

/-- The statements of the file at `path`, with those of its imports in front of the imports, and
the files that have been read after it. `mergeFile` is this for an import. -/
def mergeStmts (mergeFile : String → List String → Option (List Stmt × List String))
    (path : String) : List Stmt → List String → Option (List Stmt × List String)
  | [], seen => some ([], seen)
  | .import target semi :: ss, seen => do
    let (sub, seen) ← mergeFile (fs.resolveImport importDirs path target) seen
    let (rest, seen) ← mergeStmts mergeFile path ss seen
    pure (sub ++ .import target semi :: rest, seen)
  | s :: ss, seen => do
    let (rest, seen) ← mergeStmts mergeFile path ss seen
    pure (s :: rest, seen)

/-- A file that has been read gives nothing. `none` when a file is not there, or when more than
`depth` files would be open. -/
def merge : Nat → String → List String → Option (List Stmt × List String)
  | 0, _, _ => none
  | depth + 1, path, seen =>
    let canon := fs.weaklyCanonical path
    if canon ∈ seen then some ([], seen)
    else do
      let ss ← files path
      mergeStmts fs importDirs (merge depth) path ss (seen ++ [canon])

/-- Without imports there is nothing to merge. -/
theorem mergeStmts_of_plain {mergeFile : String → List String → Option (List Stmt × List String)}
    {ss : List Stmt} (h : ∀ x ∈ ss, ∀ target semi, x ≠ .import target semi) (path : String)
    (seen : List String) :
    mergeStmts fs importDirs mergeFile path ss seen = some (ss, seen) := by
  induction ss with
  | nil => rfl
  | cons x ss ih =>
    rw [mergeStmts, ih fun y hy => h y (List.mem_cons_of_mem _ hy)]
    · rfl
    · exact h x List.mem_cons_self

theorem merge_of_plain {ss : List Stmt} (h : ∀ x ∈ ss, ∀ target semi, x ≠ .import target semi)
    {path : String} (hfile : files path = some ss) (depth : Nat) :
    merge fs importDirs files (depth + 1) path [] = some (ss, [fs.weaklyCanonical path]) := by
  simp only [merge, List.not_mem_nil, if_false, hfile, Option.bind_eq_bind, Option.bind_some,
    mergeStmts_of_plain fs importDirs h, List.nil_append]

end

namespace Parser

section
variable {u v : State} {s : FileState} {fs : FileSystem} {importDirs : List String}

theorem stmt_kind {x : Stmt} (h : u.Reads x.lexemes v) :
    u.cur.kind ∈ [.ident, .kwImport, .kwElement, .kwElementGroup] := by
  cases x with
  | decl d semi => simp [decl_kind h]
  | _ => simp [(reads_sym.mp h).1]

theorem stmts_kind {ss : List Stmt} (h : u.Reads (ss.flatMap Stmt.lexemes) v)
    (hend : v.cur.kind = .eof) : Ends u.cur := by
  refine ends_of_kind ?_
  cases ss with
  | nil =>
    obtain rfl := reads_nil.mp h
    simp [hend]
  | cons x ss =>
    rw [List.flatMap_cons] at h
    obtain ⟨w, h, -⟩ := reads_append.mp h
    have hk := stmt_kind h
    simp only [List.mem_cons, List.not_mem_nil, or_false] at hk ⊢
    tauto

/-- A turn of the loop over the statements of a file. -/
theorem yields_stmtTurn {parseFile : String → Production Parser Module} {x : Stmt} {s' : FileState}
    (hreads : u.Reads x.lexemes v)
    (hrun : Yields (parseTopStmt fs importDirs parseFile) (s.at u) (some ()) s') :
    Yields (stmtTurn fs importDirs parseFile ()) (s.at u) (some (.yield ())) s' := by
  have hk := stmt_kind hreads
  refine yields_cur.bind (.ite_neg ?_ (hrun.attempt.bind ?_))
  · intro heof
    rw [heof] at hk
    exact absurd hk (by decide)
  · exact .ite_neg Bool.false_ne_true (.pure _ _)

/-- **The statements of a file**, one after the other. -/
theorem loops_stmts {parseFile : String → Production Parser Module}
    {mergeFile : String → List String → Option (List Stmt × List String)} {path : String}
    (hfile : ∀ target seen w seen', mergeFile target seen = some (w, seen') →
      Delivers (parseFile target) seen w seen')
    {ss w : List Stmt} {seen : List String} (hvalid : ∀ x ∈ ss, x.Valid)
    (hmerge : mergeStmts fs importDirs mergeFile path ss s.seenFiles = some (w, seen))
    (hpath : u.lex.buf.path = path) (hreads : u.Reads (ss.flatMap Stmt.lexemes) v)
    (hend : v.cur.kind = .eof) :
    ∃ outs s', Loops (stmtTurn fs importDirs parseFile) () (s.at u) (some ()) s' ∧
      s.Reached v outs.flatten seen s' ∧ List.Forall₂ Stmt.Gives w outs := by
  induction ss generalizing u s w with
  | nil =>
    obtain rfl := reads_nil.mp hreads
    cases hmerge
    refine ⟨[], s.at u, .done (yields_cur.bind (.ite_pos hend (.pure _ _))), ?_, .nil⟩
    exact ⟨rfl, (List.append_nil _).symm, rfl⟩
  | cons x ss ih =>
    rw [List.flatMap_cons] at hreads
    obtain ⟨v₁, hx, hrest⟩ := reads_append.mp hreads
    have hends := stmts_kind hrest hend
    have hvalid' := fun y hy => hvalid y (List.mem_cons_of_mem _ hy)
    have hpath' : v₁.lex.buf.path = path := by rw [reads_buf hx, hpath]
    by_cases himport : ∃ target semi, x = .import target semi
    · obtain ⟨target, semi, rfl⟩ := himport
      obtain ⟨⟨sub, seen₁⟩, hsub, hmerge⟩ := Option.bind_eq_some_iff.mp hmerge
      obtain ⟨⟨rest, seen₂⟩, hmerge, heq⟩ := Option.bind_eq_some_iff.mp hmerge
      cases heq
      have hdelivers := hfile _ _ _ _ hsub
      rw [← hpath] at hdelivers
      obtain ⟨outs, out, s₁, hrun, hreached, hall, hgives⟩ := yields_import hx hends hdelivers
      obtain ⟨outs', s', hloop, hreached', hall'⟩ :=
        ih (s := s₁) hvalid' (by rw [hreached.seenFiles]; exact hmerge) hpath' hrest
      rw [FileState.at_eq hreached.toState] at hloop
      refine ⟨outs ++ out :: outs', s', .turn (yields_stmtTurn hx hrun) hloop, ?_,
        List.rel_append hall (.cons hgives hall')⟩
      refine ⟨hreached'.toState, ?_, hreached'.seenFiles⟩
      rw [hreached'.stmts, hreached.stmts]
      simp
    · have hno : ∀ target semi, x ≠ .import target semi :=
        fun target semi heq => himport ⟨target, semi, heq⟩
      obtain ⟨out, s₁, hrun, hreached, hgives⟩ :=
        yields_stmt hno (hvalid x List.mem_cons_self) hx hends
      rw [mergeStmts] at hmerge
      · obtain ⟨⟨rest, seen₂⟩, hmerge, heq⟩ := Option.bind_eq_some_iff.mp hmerge
        cases heq
        obtain ⟨outs', s', hloop, hreached', hall'⟩ :=
          ih (s := s₁) hvalid' (by rw [hreached.seenFiles]; exact hmerge) hpath' hrest
        rw [FileState.at_eq hreached.toState] at hloop
        refine ⟨out :: outs', s', .turn (yields_stmtTurn hx hrun) hloop, ?_, .cons hgives hall'⟩
        refine ⟨hreached'.toState, ?_, hreached'.seenFiles⟩
        rw [hreached'.stmts, hreached.stmts]
        simp
      · exact hno

/-- The parser, once it has set out to read the file. -/
def markSeen (fs : FileSystem) (path : String) (p : Parser) : Parser :=
  { p with seenFiles := p.seenFiles ++ [fs.weaklyCanonical path] }

theorem parseFile_of_seen {depth n : Nat} {path : String} {p : Parser}
    (h : fs.weaklyCanonical path ∈ p.seenFiles) :
    parseFile fs importDirs (depth + 1) path n p = some (some { stmts := [] }, p) := by
  rw [parseFile, bind_eq]
  show (if fs.weaklyCanonical path ∈ p.seenFiles then (pure _ : Production Parser Module)
    else _) n p = _
  rw [if_pos h]
  rfl

theorem parseFile_of_new {depth n : Nat} {path : String} {contents : List Char} {p : Parser}
    (h : fs.weaklyCanonical path ∉ p.seenFiles) (hread : fs.read path = some contents) :
    parseFile fs importDirs (depth + 1) path n p
      = parseBuffer fs importDirs (parseFile fs importDirs depth) path contents n
          (markSeen fs path p) := by
  rw [parseFile, bind_eq, hread]
  show (if fs.weaklyCanonical path ∈ p.seenFiles then (pure _ : Production Parser Module)
    else _) n p = _
  rw [if_neg h]
  rfl

/-- The error stands at the start of a file that has no buffer. -/
theorem parseFile_of_missing {depth n : Nat} {path : String} {p : Parser}
    (h : fs.weaklyCanonical path ∉ p.seenFiles) (hread : fs.read path = none) :
    parseFile fs importDirs (depth + 1) path n p = some (none, { markSeen fs path p with
      diags := p.diags.error
        { «begin» := { line := 1, column := 1 }, «end» := { line := 1, column := 1 } }
        ("cannot open \x60" ++ path ++ "\x60") }) := by
  rw [parseFile, bind_eq, hread]
  show (if fs.weaklyCanonical path ∈ p.seenFiles then (pure _ : Production Parser Module)
    else _) n p = _
  rw [if_neg h]
  rfl

/-- A file that has not been read gives what the loop over its statements gives. -/
theorem yields_parseFile {depth : Nat} {path : String} {contents : List Char} {p : Parser}
    {r : Option Unit} {s' : FileState} (hseen : fs.weaklyCanonical path ∉ p.seenFiles)
    (hcontents : fs.read path = some contents)
    (hstmts : Yields (parseStmts fs importDirs (parseFile fs importDirs depth))
      (openFile (markSeen fs path p) path contents) r s') :
    Yields (parseFile fs importDirs (depth + 1) path) p
      (some { fileId := s'.lex.fileId, stmts := s'.stmts }) s'.parser := by
  obtain ⟨N, hN⟩ := hstmts
  refine ⟨N, fun n hn => ?_⟩
  rw [parseFile_of_new hseen hcontents]
  unfold parseBuffer
  rw [hN n hn]

/-- The contents of a file are the statements, however they are laid out. -/
def Contains (contents : List Char) (ss : List Stmt) : Prop :=
  (∀ x ∈ ss, x.Valid) ∧ ∀ (p : Parser) (path : String), ∃ v,
    (openFile p path contents).toState.Reads (ss.flatMap Stmt.lexemes) v ∧ v.cur.kind = .eof ∧
      v.lex.diags = p.diags

/-- **A file.** When the files contain what `files` says, `parseFile` gives the merged
statements. -/
theorem delivers_parseFile {files : String → Option (List Stmt)}
    (hfiles : ∀ path ss, files path = some ss →
      ∃ contents, fs.read path = some contents ∧ Contains contents ss)
    {depth : Nat} {path : String} {seen seen' : List String} {w : List Stmt}
    (hmerge : merge fs importDirs files depth path seen = some (w, seen')) :
    Delivers (parseFile fs importDirs depth path) seen w seen' := by
  induction depth generalizing path seen seen' w with
  | zero => cases hmerge
  | succ depth ih =>
    rintro p rfl
    unfold merge at hmerge
    simp only at hmerge
    by_cases hseen : fs.weaklyCanonical path ∈ p.seenFiles
    · rw [if_pos hseen] at hmerge
      cases hmerge
      exact ⟨{ stmts := [] }, p, [], .get_bind (.ite_pos hseen (.pure _ _)), rfl, rfl, .nil, rfl⟩
    · rw [if_neg hseen] at hmerge
      obtain ⟨ss, hss, hmerge⟩ := Option.bind_eq_some_iff.mp hmerge
      obtain ⟨contents, hcontents, hvalid, hwritten⟩ := hfiles path ss hss
      obtain ⟨v, hreads, hend, hdiags⟩ := hwritten (markSeen fs path p) path
      obtain ⟨outs, s', hloop, hreached, hall⟩ :=
        loops_stmts (s := openFile (markSeen fs path p) path contents)
          (fun target seen w seen' h => ih h) hvalid hmerge (congrArg _ Lexer.buf_next) hreads hend
      refine ⟨{ fileId := s'.lex.fileId, stmts := s'.stmts }, s'.parser, outs,
        yields_parseFile hseen hcontents hloop.yields, hreached.seenFiles, ?_, hall, hreached.stmts⟩
      rw [FileState.parser, hreached.toState]
      exact hdiags

/-- A file that is the only one. -/
def onlyFile (path : String) (ss : List Stmt) (name : String) : Option (List Stmt) :=
  if name = path then some ss else none

theorem contains_onlyFile {path : String} {contents : List Char} {ss : List Stmt}
    (hread : fs.read path = some contents) (hcontains : Contains contents ss) (name : String)
    (ss' : List Stmt) (h : onlyFile path ss name = some ss') :
    ∃ contents, fs.read name = some contents ∧ Contains contents ss' := by
  simp only [onlyFile, Option.ite_none_right_eq_some, Option.some.injEq] at h
  obtain ⟨rfl, rfl⟩ := h
  exact ⟨contents, hread, hcontains⟩

end

end Parser

end OpenClickNP
