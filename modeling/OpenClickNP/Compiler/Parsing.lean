import OpenClickNP.Compiler.Syntax

/-!
# What the productions read

`u.Reads ls t`: the tokens that the parser sees from the state `u` on are the lexemes `ls`, and `t`
is the state behind them. Each production that finds the lexemes of its phrase runs to the state
behind them and gives what the phrase stands for, up to source ranges.
-/

namespace OpenClickNP

namespace Parser

open Ast Production Syntax

/-! ## Tokens -/

/-- The tokens from `u` on, an opaque block taken as a whole. -/
def State.Reads (u : State) : List Lexeme → State → Prop
  | [], t => u = t
  | .block text :: ls, t =>
    ∃ blk v, u.braceBlock = (some blk, v) ∧ blk.text = text ∧ v.Reads ls t
  | l :: ls, t => u.cur.Matches l ∧ u.advance.Reads ls t

/-- The file in the state `u`. -/
def FileState.at (s : FileState) (u : State) : FileState := { s with toState := u }

section
variable {u v t : State} {s : FileState} {l : Lexeme} {ls ls' : List Lexeme}

@[simp] theorem FileState.at_toState (s : FileState) (u : State) : (s.at u).toState = u := rfl

@[simp] theorem FileState.at_at (s : FileState) (u v : State) : (s.at u).at v = s.at v := rfl

@[simp] theorem FileState.at_self (s : FileState) : s.at s.toState = s := rfl

@[simp] theorem FileState.at_cur (s : FileState) (u : State) : (s.at u).cur = u.cur := rfl

theorem FileState.push_at (s : FileState) (u : State) (sink : Sink) (stmt : GroupStmt) :
    (s.at u).push sink stmt = (s.push sink stmt).at u := by
  cases sink <;> rfl

theorem Reads.nil (u : State) : u.Reads [] u := by
  unfold State.Reads
  rfl

theorem reads_nil : u.Reads [] t ↔ u = t := by
  unfold State.Reads
  exact Iff.rfl

theorem reads_block {text : String} : u.Reads (.block text :: ls) t ↔
    ∃ blk v, u.braceBlock = (some blk, v) ∧ blk.text = text ∧ v.Reads ls t := by
  rw [State.Reads]

theorem reads_cons (hl : ∀ text, l ≠ .block text) :
    u.Reads (l :: ls) t ↔ u.cur.Matches l ∧ u.advance.Reads ls t := by
  cases l with
  | block text => exact absurd rfl (hl text)
  | _ => rw [State.Reads]; nofun

@[simp] theorem reads_sym {k : Tok} : u.Reads (.sym k :: ls) t ↔
    u.cur.kind = k ∧ u.advance.Reads ls t := reads_cons nofun

@[simp] theorem reads_ident {x : String} : u.Reads (.ident x :: ls) t ↔
    (u.cur.kind = .ident ∧ u.cur.text = x) ∧ u.advance.Reads ls t := reads_cons nofun

@[simp] theorem reads_number {n : Numeral} : u.Reads (.number n :: ls) t ↔
    (u.cur.kind = .integer ∧ u.cur.text = n.text ∧ u.cur.intValue = n.value) ∧
      u.advance.Reads ls t := reads_cons nofun

@[simp] theorem reads_str {x : String} : u.Reads (.str x :: ls) t ↔
    (u.cur.kind = .stringLit ∧ u.cur.text = x) ∧ u.advance.Reads ls t := reads_cons nofun

theorem reads_append : u.Reads (ls ++ ls') t ↔ ∃ v, u.Reads ls v ∧ v.Reads ls' t := by
  induction ls generalizing u with
  | nil => simp [reads_nil]
  | cons l ls ih =>
    rw [List.cons_append]
    by_cases hl : ∀ text, l ≠ .block text
    · simp only [reads_cons hl, ih]
      tauto
    · simp only [not_forall, not_not] at hl
      obtain ⟨text, rfl⟩ := hl
      simp only [reads_block, ih]
      constructor
      · rintro ⟨blk, v, hblk, htext, w, hw, hrest⟩
        exact ⟨w, ⟨blk, v, hblk, htext, hw⟩, hrest⟩
      · rintro ⟨w, ⟨blk, v, hblk, htext, hw⟩, hrest⟩
        exact ⟨blk, v, hblk, htext, w, hw, hrest⟩

/-- Up to a symbol that closes what is read. -/
theorem reads_closed {k : Tok} : u.Reads (ls ++ [.sym k]) t ↔
    ∃ v, u.Reads ls v ∧ v.cur.kind = k ∧ v.advance = t := by
  simp only [reads_append, reads_sym, reads_nil]

/-! ## The small productions -/

theorem yields_cur : Yields cur (s.at u) (some u.cur) (s.at u) := .of_eq fun _ => rfl

theorem yields_prev : Yields prev (s.at u) (some u.prev) (s.at u) := .of_eq fun _ => rfl

theorem yields_advance : Yields advance (s.at u) (some ()) (s.at u.advance) :=
  .of_eq fun _ => rfl

theorem yields_accept {k : Tok} (h : u.cur.kind = k) :
    Yields (accept k) (s.at u) (some true) (s.at u.advance) := by
  refine Yields.bind yields_cur (.ite_pos h ?_)
  exact yields_advance.bind (.pure true _)

theorem yields_accept_not {k : Tok} (h : u.cur.kind ≠ k) :
    Yields (accept k) (s.at u) (some false) (s.at u) :=
  Yields.bind yields_cur (.ite_neg h (.pure false _))

theorem yields_expect {k : Tok} {what : String} (h : u.cur.kind = k) :
    Yields (expect k what) (s.at u) (some u.cur) (s.at u.advance) := by
  refine Yields.bind yields_cur (.ite_pos h ?_)
  exact yields_advance.bind (.pure u.cur _)

theorem yields_require {k : Tok} {what : String} (h : u.cur.kind = k) :
    Yields (require k what) (s.at u) (some u.cur) (s.at u.advance) :=
  (yields_expect h).bind (.ite_pos h (.pure u.cur _))

/-- A block, and what follows it. -/
theorem yields_braceBlock {text : String} (h : u.Reads (.block text :: ls) t) :
    ∃ blk v, Yields parseBraceBlock (s.at u) (some blk) (s.at v) ∧
      blk.bare = { text := text } ∧ v.Reads ls t := by
  obtain ⟨blk, v, hblk, htext, hrest⟩ := reads_block.mp h
  refine ⟨blk, v, .of_eq fun _ => ?_, by simp [OpaqueCpp.bare, htext], hrest⟩
  show some ((s.at u).toState.braceBlock.1, (s.at u).at (s.at u).toState.braceBlock.2) = _
  rw [FileState.at_toState, hblk, FileState.at_at]

/-! ## Loops up to a closing brace -/

theorem loops_brace_done {β : Type} {body : β → Parse β} {b : β} (h : u.cur.kind = .rBrace) :
    Loops (braceTurn body) b (s.at u) (some b) (s.at u) :=
  .done (yields_cur.bind (.ite_pos (Or.inl h) (.pure _ _)))

theorem loops_brace_turn {β : Type} {body : β → Parse β} {b b' : β} {r : Option β}
    {s s' s'' : FileState} (hkind : s.cur.kind ≠ .rBrace ∧ s.cur.kind ≠ .eof)
    (hbody : Yields (body b) s (some b') s') (hrest : Loops (braceTurn body) b' s' r s'') :
    Loops (braceTurn body) b s r s'' := by
  refine Loops.turn (yields_cur.bind (.ite_neg ?_ ?_)) hrest
  · exact not_or.mpr hkind
  · exact hbody.bind (.pure _ _)

/-! ## Elements -/

theorem yields_signalParam {x y : String} (h : u.Reads (.ident x :: .ident y :: ls) t) :
    ∃ p v, Yields parseSignalParam (s.at u) (some p) (s.at v) ∧
      p.bare = { typeName := x, fieldName := y } ∧ v.Reads ls t := by
  simp only [reads_ident] at h
  obtain ⟨⟨hx, rfl⟩, ⟨hy, rfl⟩, hrest⟩ := h
  have hrun : Yields parseSignalParam (s.at u) (some {
      typeName := u.cur.text
      fieldName := u.advance.cur.text
      src := { «begin» := u.cur.range.begin, «end» := u.advance.cur.range.end } })
      (s.at u.advance.advance) :=
    (yields_require hx).bind ((yields_require hy).bind (.pure _ _))
  exact ⟨_, _, hrun, rfl, hrest⟩

/-- The turn of one parameter, with the comma behind it if there is one. -/
theorem yields_signalParamTurn {x y : String} (acc : List SignalParam)
    (h : u.Reads (.ident x :: .ident y :: ls) t) :
    ∃ p v, Yields (signalParamTurn acc) (s.at u) (some (if v.cur.kind = .comma
        then .yield (acc ++ [p]) else .done (acc ++ [p])))
        (s.at (if v.cur.kind = .comma then v.advance else v)) ∧
      p.bare = { typeName := x, fieldName := y } ∧ v.Reads ls t := by
  obtain ⟨p, v, hrun, hbare, hrest⟩ := yields_signalParam (s := s) h
  refine ⟨p, v, yields_cur.bind (.ite_neg ?_ (hrun.bind ?_)), hbare, hrest⟩
  · have hident : u.cur.kind = .ident := (reads_ident.mp h).1.1
    simp [hident]
  · by_cases hcomma : v.cur.kind = .comma
    · rw [if_pos hcomma, if_pos hcomma]
      exact (yields_accept hcomma).bind (.pure _ _)
    · rw [if_neg hcomma, if_neg hcomma]
      exact (yields_accept_not hcomma).bind (.pure _ _)

/-- The parameters up to the parenthesis. Induction on the list. -/
theorem loops_signalParams (ps : List (String × String))
    (hreads : u.Reads (signalParamsLexemes ps) v)
    (hend : v.cur.kind = .rParen) (acc : List SignalParam) :
    ∃ out, Loops signalParamTurn acc (s.at u) (some (acc ++ out)) (s.at v) ∧
      out.map SignalParam.bare = ps.map fun p => { typeName := p.1, fieldName := p.2 } := by
  induction ps using signalParamsLexemes.induct generalizing u acc with
  | case1 =>
    obtain rfl := reads_nil.mp hreads
    refine ⟨[], .done (yields_cur.bind (.ite_pos (Or.inl hend) ?_)), rfl⟩
    rw [List.append_nil]
    exact .pure _ _
  | case2 p =>
    obtain ⟨q, w, hturn, hbare, hrest⟩ := yields_signalParamTurn (s := s) acc hreads
    obtain rfl := reads_nil.mp hrest
    have hcomma : w.cur.kind ≠ .comma := by simp [hend]
    rw [if_neg hcomma, if_neg hcomma] at hturn
    exact ⟨[q], .done hturn, by simp [hbare]⟩
  | case3 p q ps ih =>
    obtain ⟨p', w, hturn, hbare, hrest⟩ := yields_signalParamTurn (s := s) acc hreads
    obtain ⟨hcomma, hrest⟩ := reads_sym.mp hrest
    rw [if_pos hcomma, if_pos hcomma] at hturn
    obtain ⟨out, hloop, hout⟩ := ih hrest (acc ++ [p'])
    rw [List.append_assoc] at hloop
    exact ⟨p' :: out, .turn hturn hloop, by simp [hbare, hout]⟩

theorem loops_hlsPragmas (pragmas : List String)
    (hreads : u.Reads (pragmas.flatMap fun x => [.str x, .sym .semicolon]) v)
    (hend : v.cur.kind = .rBrace) (acc : List String) :
    Loops (braceTurn parseHlsPragma) acc (s.at u) (some (acc ++ pragmas)) (s.at v) := by
  induction pragmas generalizing u acc with
  | nil =>
    obtain rfl := reads_nil.mp hreads
    simpa using loops_brace_done hend
  | cons x pragmas ih =>
    simp only [List.flatMap_cons, List.cons_append, List.nil_append, reads_str, reads_sym] at hreads
    obtain ⟨⟨hstr, rfl⟩, hsemi, hrest⟩ := hreads
    have hbody : Yields (parseHlsPragma acc) (s.at u) (some (acc ++ [u.cur.text]))
        (s.at u.advance.advance) :=
      (yields_require hstr).bind ((yields_expect hsemi).bind (.pure _ _))
    have hloop := ih hrest (acc ++ [u.cur.text])
    rw [List.append_assoc] at hloop
    exact loops_brace_turn (by simp [hstr]) hbody hloop

theorem loops_timing (entries : List Numeral) (hvalid : (Section.timing entries).Valid)
    (hreads : u.Reads (entries.flatMap fun n =>
      [.ident "ii", .sym .equals, .number n, .sym .semicolon]) v)
    (hend : v.cur.kind = .rBrace) (acc : Int) :
    Loops (braceTurn parseTimingEntry) acc (s.at u)
      (some (entries.foldl (fun ii n => (stoi n.text).getD ii) acc)) (s.at v) := by
  induction entries generalizing u acc with
  | nil =>
    obtain rfl := reads_nil.mp hreads
    exact loops_brace_done hend
  | cons n entries ih =>
    simp only [List.flatMap_cons, List.cons_append, List.nil_append, reads_ident, reads_sym,
      reads_number] at hreads
    obtain ⟨⟨hid, hii⟩, heq, ⟨hnum, htext, -⟩, hsemi, hrest⟩ := hreads
    obtain ⟨ii, hstoi, hlo, hhi⟩ := hvalid n List.mem_cons_self
    have hbody : Yields (parseTimingEntry acc) (s.at u) (some ii)
        (s.at u.advance.advance.advance.advance) := by
      refine (yields_require hid).bind ((yields_require heq).bind ((yields_require hnum).bind ?_))
      rw [if_pos hii, htext, hstoi]
      refine .ite_neg (by omega) ?_
      exact (yields_expect hsemi).bind (.pure _ _)
    have hloop := ih (fun m hm => hvalid m (List.mem_cons_of_mem _ hm)) hrest ii
    rw [List.foldl_cons, hstoi, Option.getD_some]
    exact loops_brace_turn (by simp [hid]) hbody hloop

theorem yields_signalHead {params : Option (List (String × String))} {text : String}
    (h : u.Reads (Section.signal params text).lexemes v) :
    u.cur.kind = .kwSignal ∧ ∃ ps w,
      Yields parseSignalHead (s.at u.advance) (some ps) (s.at w) ∧ w.Reads [.block text] v ∧
      ps.map SignalParam.bare
        = (params.getD []).map fun p => { typeName := p.1, fieldName := p.2 } := by
  cases params with
  | none =>
    obtain ⟨hk, hblock⟩ := reads_sym.mp h
    -- the block starts with a brace
    have hbrace : u.advance.cur.kind = .lBrace := by
      obtain ⟨blk, w, hblk, -⟩ := reads_block.mp hblock
      by_contra hne
      rw [State.braceBlock, if_pos hne] at hblk
      cases hblk
    refine ⟨hk, [], u.advance, ?_, hblock, rfl⟩
    exact (yields_accept_not (by rw [hbrace]; decide)).bind (.pure _ _)
  | some ps =>
    obtain ⟨hk, hrest⟩ := reads_sym.mp h
    obtain ⟨hopen, hrest⟩ := reads_sym.mp hrest
    obtain ⟨w, hps, hrest⟩ := reads_append.mp hrest
    obtain ⟨hclose, hblock⟩ := reads_sym.mp hrest
    obtain ⟨out, hloop, hout⟩ := loops_signalParams (s := s) ps hps hclose []
    refine ⟨hk, out, w.advance, (yields_accept hopen).bind ?_, hblock, hout⟩
    exact hloop.yields.bind ((yields_expect hclose).bind (.pure _ _))

/-- A section that is a keyword and a block. -/
theorem yields_blockSection {k : Tok} {text : String} (put : OpaqueCpp → ElementDecl)
    (hreads : u.Reads [.sym k, .block text] v) :
    u.cur.kind = k ∧ ∃ blk : OpaqueCpp, blk.bare = { text := text } ∧
      Yields (do advance; let blk ← parseBraceBlock; pure (put blk)) (s.at u) (some (put blk))
        (s.at v) := by
  obtain ⟨hk, hblock⟩ := reads_sym.mp hreads
  obtain ⟨blk, w, hrun, hbare, hrest⟩ := yields_braceBlock (s := s) hblock
  obtain rfl := reads_nil.mp hrest
  exact ⟨hk, blk, hbare, yields_advance.bind (hrun.bind (.pure _ _))⟩

/-- **A section.** The production adds to the declaration what the section stands for. -/
theorem yields_section {x : Section} (hvalid : x.Valid) (hreads : u.Reads x.lexemes v)
    (elem : ElementDecl) :
    ∃ elem', Yields (parseSection elem) (s.at u) (some elem') (s.at v) ∧
      elem'.bare = x.apply elem.bare := by
  cases x with
  | state text =>
    obtain ⟨hk, blk, hbare, hrun⟩ :=
      yields_blockSection (s := s) (fun blk => { elem with state := some blk }) hreads
    refine ⟨{ elem with state := some blk }, yields_cur.bind ?_, ?_⟩
    · simp only [hk]
      exact hrun
    · simp [ElementDecl.bare, Section.apply, hbare]
  | init text =>
    obtain ⟨hk, blk, hbare, hrun⟩ :=
      yields_blockSection (s := s) (fun blk => { elem with init := some blk }) hreads
    refine ⟨{ elem with init := some blk }, yields_cur.bind ?_, ?_⟩
    · simp only [hk]
      exact hrun
    · simp [ElementDecl.bare, Section.apply, hbare]
  | handler text =>
    obtain ⟨hk, blk, hbare, hrun⟩ :=
      yields_blockSection (s := s) (fun blk => { elem with handler := some blk }) hreads
    refine ⟨{ elem with handler := some blk }, yields_cur.bind ?_, ?_⟩
    · simp only [hk]
      exact hrun
    · simp [ElementDecl.bare, Section.apply, hbare]
  | signal params text =>
    obtain ⟨hk, ps, w, hhead, hblock, hps⟩ := yields_signalHead (s := s) hreads
    obtain ⟨blk, w', hrun, hbare, hrest⟩ := yields_braceBlock (s := s) hblock
    obtain rfl := reads_nil.mp hrest
    refine ⟨{ elem with signalParams := elem.signalParams ++ ps, signal := some blk },
      yields_cur.bind ?_, ?_⟩
    · simp only [hk]
      exact yields_advance.bind (hhead.bind (hrun.bind (.pure _ _)))
    · simp [ElementDecl.bare, Section.apply, hbare, hps]
  | timing entries =>
    obtain ⟨hk, hrest⟩ := reads_sym.mp hreads
    obtain ⟨hopen, hrest⟩ := reads_sym.mp hrest
    obtain ⟨w, hentries, hclose, rfl⟩ := reads_closed.mp hrest
    have hloop := loops_timing (s := s) entries hvalid hentries hclose elem.pipelineIi
    refine ⟨{ elem with pipelineIi := (entries.foldl _ _) }, yields_cur.bind ?_, rfl⟩
    simp only [hk]
    refine yields_advance.bind (Yields.bind ?_ (.pure _ _))
    exact (yields_require hopen).bind (hloop.yields.bind ((yields_expect hclose).bind (.pure _ _)))
  | hlsPragma pragmas =>
    obtain ⟨hk, hrest⟩ := reads_sym.mp hreads
    obtain ⟨hopen, hrest⟩ := reads_sym.mp hrest
    obtain ⟨w, hpragmas, hclose, rfl⟩ := reads_closed.mp hrest
    have hloop := loops_hlsPragmas (s := s) pragmas hpragmas hclose elem.hlsPragmas
    refine ⟨{ elem with hlsPragmas := elem.hlsPragmas ++ pragmas }, yields_cur.bind ?_, rfl⟩
    simp only [hk]
    refine yields_advance.bind (Yields.bind ?_ (.pure _ _))
    exact (yields_require hopen).bind (hloop.yields.bind ((yields_expect hclose).bind (.pure _ _)))

/-- A section starts with its keyword. -/
theorem section_kind {x : Section} (hreads : u.Reads x.lexemes v) :
    u.cur.kind ≠ .rBrace ∧ u.cur.kind ≠ .eof := by
  obtain ⟨k, ls, hls, hk⟩ : ∃ k ls, x.lexemes = .sym k :: ls ∧ k ≠ .rBrace ∧ k ≠ .eof := by
    cases x with
    | signal params text => cases params <;> exact ⟨_, _, rfl, by decide, by decide⟩
    | _ => exact ⟨_, _, rfl, by decide, by decide⟩
  rw [hls, reads_sym] at hreads
  rwa [hreads.1]

/-- The sections, one after the other. -/
theorem loops_sections {sections : List Section} (hvalid : ∀ x ∈ sections, x.Valid)
    (hreads : u.Reads (sections.flatMap Section.lexemes) v) (hend : v.cur.kind = .rBrace)
    (elem : ElementDecl) :
    ∃ elem', Loops (braceTurn parseSection) elem (s.at u) (some elem') (s.at v) ∧
      elem'.bare = sections.foldl Section.apply elem.bare := by
  induction sections generalizing u elem with
  | nil =>
    obtain rfl := reads_nil.mp hreads
    exact ⟨elem, loops_brace_done hend, rfl⟩
  | cons x sections ih =>
    rw [List.flatMap_cons] at hreads
    obtain ⟨w, hx, hrest⟩ := reads_append.mp hreads
    obtain ⟨elem₁, hrun, hbare⟩ := yields_section (s := s) (hvalid x List.mem_cons_self) hx elem
    obtain ⟨elem', hloop, hbare'⟩ := ih (fun y hy => hvalid y (List.mem_cons_of_mem _ hy)) hrest
      elem₁
    refine ⟨elem', loops_brace_turn (section_kind hx) hrun hloop, ?_⟩
    rw [hbare', hbare, List.foldl_cons]

theorem yields_portCounts_some {nIn nOut : Numeral}
    (h : u.Reads (portsLexemes (some (nIn, nOut))) v) :
    Yields parsePortCounts (s.at u) (some (castInt nIn.value, castInt nOut.value)) (s.at v) := by
  simp only [portsLexemes, reads_sym, reads_number, reads_nil] at h
  obtain ⟨hopen, ⟨hin, -, hinv⟩, hcomma, ⟨hout, -, houtv⟩, hclose, rfl⟩ := h
  rw [← hinv, ← houtv]
  refine (yields_accept hopen).bind ((yields_require hin).bind ?_)
  refine (yields_expect hcomma).bind ((yields_require hout).bind ?_)
  exact (yields_expect hclose).bind (.pure _ _)

theorem yields_portCounts {ports : Option (Numeral × Numeral)} (h : u.Reads (portsLexemes ports) v)
    (hnext : v.cur.kind ≠ .lAngle) :
    Yields parsePortCounts (s.at u) (some (portsOf ports)) (s.at v) := by
  cases ports with
  | none =>
    obtain rfl := reads_nil.mp h
    exact (yields_accept_not hnext).bind (.pure _ _)
  | some ports => exact yields_portCounts_some h

/-- The file with more statements in its module. -/
def FileState.add (s : FileState) (stmts : List TopStmt) : FileState :=
  { s with stmts := s.stmts ++ stmts }

theorem yields_pushTop (x : TopStmt) :
    Yields (pushTop x) (s.at u) (some ()) ((s.add [x]).at u) := .of_eq fun _ => rfl

/-- **An element declaration.** -/
theorem yields_elementDecl {e : Element} (hvalid : e.Valid) (hreads : u.Reads e.lexemes v) :
    ∃ d, Yields parseElementDecl (s.at u) (some ()) ((s.add [.elementDecl d]).at v) ∧
      d.bare = e.decl := by
  obtain ⟨-, hrest⟩ := reads_sym.mp hreads
  obtain ⟨⟨hname, htext⟩, hrest⟩ := reads_ident.mp hrest
  obtain ⟨w, hports, hrest⟩ := reads_append.mp hrest
  obtain ⟨hopen, hrest⟩ := reads_sym.mp hrest
  obtain ⟨w', hsections, hclose, rfl⟩ := reads_closed.mp hrest
  obtain ⟨d, hloop, hbare⟩ := loops_sections (s := s) hvalid hsections hclose {
    name := u.advance.cur.text
    src := { «begin» := u.cur.range.begin, «end» := u.advance.cur.range.end }
    nInPorts := (portsOf e.ports).1
    nOutPorts := (portsOf e.ports).2 }
  refine ⟨d, ?_, hbare.trans (by rw [htext]; rfl)⟩
  refine yields_cur.bind (yields_advance.bind ((yields_require hname).bind ?_))
  refine (yields_portCounts hports (by rw [hopen]; decide)).bind (Yields.bind ?_ (yields_pushTop _))
  exact (yields_require hopen).bind (hloop.yields.bind ((yields_expect hclose).bind (.pure _ _)))

/-! ## Instances -/

theorem yields_after {k : Tok} {what : String} {n : Option Numeral} {d : Int}
    (h : u.Reads (n.elim [] fun n => [.sym k, .number n]) v) (hnext : n = none → v.cur.kind ≠ k) :
    Yields (parseAfter k what d) (s.at u) (some ((n.map fun n => castInt n.value).getD d))
      (s.at v) := by
  cases n with
  | none =>
    obtain rfl := reads_nil.mp h
    exact (yields_accept_not (hnext rfl)).bind (.pure _ _)
  | some n =>
    simp only [Option.elim_some, reads_sym, reads_number, reads_nil] at h
    obtain ⟨hk, ⟨hnum, -, hvalue⟩, rfl⟩ := h
    rw [Option.map_some, Option.getD_some, ← hvalue]
    exact (yields_accept hk).bind ((yields_require hnum).bind (.pure _ _))

theorem depthLexemes_eq (d : Option Numeral) :
    depthLexemes d = d.elim [] fun n => [.sym .star, .number n] := by
  cases d <;> rfl

/-- The parameters, up to a token that is no comma. -/
theorem loops_params (strict : Bool) (params : List Param)
    (hreads : u.Reads (params.flatMap fun p => [.sym .comma, p.lexeme]) v)
    (hend : v.cur.kind ≠ .comma) (acc : List InstanceParam) :
    ∃ out, Loops (paramTurn strict) acc (s.at u) (some (acc ++ out)) (s.at v) ∧
      out.map InstanceParam.bare = params.map Param.value := by
  induction params generalizing u acc with
  | nil =>
    obtain rfl := reads_nil.mp hreads
    refine ⟨[], .done ((yields_accept_not hend).bind ?_), rfl⟩
    rw [List.append_nil]
    exact .pure _ _
  | cons p params ih =>
    rw [List.flatMap_cons] at hreads
    obtain ⟨hcomma, hreads⟩ := reads_sym.mp hreads
    cases p with
    | number n =>
      obtain ⟨⟨hkind, htext, -⟩, hrest⟩ := reads_number.mp hreads
      obtain ⟨out, hloop, hout⟩ := ih hrest
        (acc ++ [{ kind := .number, text := u.advance.cur.text, src := u.advance.cur.range }])
      rw [List.append_assoc] at hloop
      refine ⟨_, .turn ((yields_accept hcomma).bind (yields_cur.bind (.ite_pos hkind ?_))) hloop,
        by simp [hout, InstanceParam.bare, Param.value, htext]⟩
      exact yields_advance.bind (.pure _ _)
    | string x =>
      obtain ⟨⟨hkind, htext⟩, hrest⟩ := reads_str.mp hreads
      obtain ⟨out, hloop, hout⟩ := ih hrest
        (acc ++ [{ kind := .string, text := u.advance.cur.text, src := u.advance.cur.range }])
      rw [List.append_assoc] at hloop
      refine ⟨_, .turn ((yields_accept hcomma).bind (yields_cur.bind (.ite_neg (by simp [hkind])
        (.ite_pos hkind ?_)))) hloop, by simp [hout, InstanceParam.bare, Param.value, htext]⟩
      exact yields_advance.bind (.pure _ _)

/-- What stands between the parentheses, with the closing one. -/
theorem yields_args (strict : Bool) {a : Args} (hreads : u.Reads a.lexemes v) :
    ∃ params, Yields (parseArgs strict) (s.at u) (some {
        nInPorts := castInt a.nIn.value
        nOutPorts := castInt a.nOut.value
        channelDepth := a.channelDepth
        params := params }) (s.at v) ∧
      params.map InstanceParam.bare = a.params.map Param.value := by
  obtain ⟨⟨hin, -, hinv⟩, hrest⟩ := reads_number.mp hreads
  obtain ⟨hcomma, hrest⟩ := reads_sym.mp hrest
  obtain ⟨⟨hout, -, houtv⟩, hrest⟩ := reads_number.mp hrest
  obtain ⟨w, hdepth, hrest⟩ := reads_append.mp hrest
  obtain ⟨w', hparams, hclose, rfl⟩ := reads_closed.mp hrest
  obtain ⟨out, hloop, hbare⟩ := loops_params (s := s) strict a.params hparams
    (by rw [hclose]; decide) []
  refine ⟨out, ?_, hbare⟩
  rw [← hinv, ← houtv]
  refine (yields_require hin).bind ((yields_expect hcomma).bind ((yields_require hout).bind ?_))
  -- behind the depth there is a comma or the parenthesis
  have hstar : w.cur.kind ≠ .star := by
    cases hp : a.params with
    | nil =>
      rw [hp] at hparams
      obtain rfl := reads_nil.mp hparams
      simp [hclose]
    | cons p ps =>
      rw [hp] at hparams
      simp [(reads_sym.mp hparams).1]
  rw [depthLexemes_eq] at hdepth
  refine (yields_after hdepth fun _ => hstar).bind (hloop.yields.bind ?_)
  exact (yields_expect hclose).bind (.pure _ _)

theorem loops_marks (marks : List Mark) (hreads : u.Reads (marks.map Mark.lexeme) v)
    (hend : v.cur.kind ≠ .at ∧ v.cur.kind ≠ .amp) (host autorun : Bool) :
    Loops hostQualifierTurn (host, autorun) (s.at u)
      (some (host || marks.contains .hostControl, autorun || marks.contains .autorun))
      (s.at v) := by
  induction marks generalizing u host autorun with
  | nil =>
    obtain rfl := reads_nil.mp hreads
    have hturn : Yields (hostQualifierTurn (host, autorun)) (s.at u)
        (some (.done (host, autorun))) (s.at u) :=
      (yields_accept_not hend.1).bind ((yields_accept_not hend.2).bind (.pure _ _))
    simpa using Loops.done hturn
  | cons m marks ih =>
    cases m with
    | hostControl =>
      obtain ⟨hk, hrest⟩ := reads_sym.mp hreads
      have hturn : Yields (hostQualifierTurn (host, autorun)) (s.at u)
          (some (.yield (true, autorun))) (s.at u.advance) :=
        (yields_accept hk).bind (.pure _ _)
      simpa using Loops.turn hturn (ih hrest true autorun)
    | autorun =>
      obtain ⟨hk, hrest⟩ := reads_sym.mp hreads
      have hturn : Yields (hostQualifierTurn (host, autorun)) (s.at u)
          (some (.yield (host, true))) (s.at u.advance) :=
        (yields_accept_not (by rw [hk]; decide)).bind ((yields_accept hk).bind (.pure _ _))
      simpa using Loops.turn hturn (ih hrest host true)

theorem yields_semicolon {semi : Bool} (h : u.Reads (semicolonLexemes semi) v)
    (hnext : semi = false → v.cur.kind ≠ .semicolon) :
    Yields (accept .semicolon) (s.at u) (some semi) (s.at v) := by
  cases semi with
  | false =>
    obtain rfl := reads_nil.mp h
    exact yields_accept_not (hnext rfl)
  | true =>
    obtain ⟨hk, hrest⟩ := reads_sym.mp h
    obtain rfl := reads_nil.mp hrest
    exact yields_accept hk

theorem yields_push (sink : Sink) (x : GroupStmt) :
    Yields (push sink x) (s.at u) (some ()) ((s.push sink x).at u) := by
  rw [← FileState.push_at]
  exact .of_eq fun _ => rfl

/-- A declaration without a semicolon does not go on with the token. -/
def Stops (t : Token) : Prop :=
  t.kind ∉ [.doubleColon, .lParen, .lBracket, .arrow, .fatArrow, .at, .amp]

def Ends (t : Token) : Prop := Stops t ∧ t.kind ≠ .semicolon

theorem stops_semicolon {semi : Bool} (h : u.Reads (semicolonLexemes semi) v)
    (hend : semi = false → Ends v.cur) : Stops u.cur := by
  cases semi with
  | false =>
    obtain rfl := reads_nil.mp h
    exact (hend rfl).1
  | true =>
    have hk := (reads_sym.mp h).1
    rw [Stops, hk]
    decide

/-- A declaration is dispatched on the token behind its first identifier. -/
theorem yields_declOrChain {sink : Sink} {r : Option Unit} {s' : FileState}
    (hfirst : u.cur.kind = .ident)
    (h : Yields (if u.advance.cur.kind = .doubleColon then parseInstance sink u.cur
      else parseChain sink u.cur) (s.at u.advance) r s') :
    Yields (parseDeclOrChain sink) (s.at u) r s' := by
  have hqualifier : Yields parseQualifier (s.at u) (some ()) (s.at u) := by
    refine (yields_accept_not (by rw [hfirst]; decide)).bind ?_
    exact (yields_accept_not (by rw [hfirst]; decide)).bind (.pure _ _)
  refine hqualifier.bind (yields_cur.bind (.ite_pos hfirst ?_))
  exact yields_advance.bind (yields_cur.bind h)

/-- **A named instance.** -/
theorem yields_instance {i : Instance} {semi : Bool}
    (hreads : u.Reads (i.lexemes ++ semicolonLexemes semi) v)
    (hend : semi = false → Ends v.cur) (sink : Sink) :
    ∃ d, Yields (parseDeclOrChain sink) (s.at u) (some ()) ((s.push sink (.instanceDecl d)).at v) ∧
      d.bare = i.decl := by
  obtain ⟨w, hinst, hsemi⟩ := reads_append.mp hreads
  have hstops := stops_semicolon hsemi hend
  simp only [Stops, List.mem_cons, not_or] at hstops
  obtain ⟨⟨hfirst, htype⟩, hrest⟩ := reads_ident.mp hinst
  obtain ⟨hcolon, hrest⟩ := reads_sym.mp hrest
  obtain ⟨⟨hident, hname⟩, hrest⟩ := reads_ident.mp hrest
  obtain ⟨w', hmarks, hargs⟩ := reads_append.mp hrest
  -- the arguments, or the defaults where there are none
  obtain ⟨args, hrun, hmark, hdecl⟩ : ∃ args : InstanceArgs,
      Yields parseInstanceArgs (s.at w') (some args) (s.at w) ∧
        (w'.cur.kind ≠ .at ∧ w'.cur.kind ≠ .amp) ∧
      ∀ loc, InstanceDecl.bare {
        type := i.type
        name := i.name
        hostControl := i.marks.contains .hostControl
        autorun := i.marks.contains .autorun
        nInPorts := args.nInPorts
        nOutPorts := args.nOutPorts
        channelDepth := args.channelDepth
        params := args.params
        src := loc } = i.decl := by
    cases hia : i.args with
    | none =>
      rw [hia] at hargs
      obtain rfl := reads_nil.mp hargs
      refine ⟨{ nInPorts := -1, nOutPorts := -1, channelDepth := 64, params := [] },
        (yields_accept_not hstops.2.1).bind (.pure _ _), ⟨?_, ?_⟩, fun loc => ?_⟩
      · exact hstops.2.2.2.2.2.1
      · exact hstops.2.2.2.2.2.2.1
      · simp [InstanceDecl.bare, Instance.decl, hia]
    | some a =>
      rw [hia] at hargs
      obtain ⟨hparen, hargs⟩ := reads_sym.mp hargs
      obtain ⟨params, hrun, hbare⟩ := yields_args (s := s) true hargs
      refine ⟨_, (yields_accept hparen).bind hrun, by simp [hparen], fun loc => ?_⟩
      simp [InstanceDecl.bare, Instance.decl, hia, hbare]
  have hflags := (loops_marks (s := s) i.marks hmarks hmark false false).yields
  rw [Bool.false_or, Bool.false_or] at hflags
  refine ⟨_, ?_, hdecl { «begin» := u.cur.range.begin, «end» := u.advance.advance.cur.range.end }⟩
  rw [← htype, ← hname]
  refine yields_declOrChain hfirst (.ite_pos hcolon ?_)
  refine yields_advance.bind ((yields_require hident).bind (hflags.bind (hrun.bind ?_)))
  exact (yields_semicolon hsemi fun h => (hend h).2).bind (yields_push sink _)

/-! ## Chains -/

/-- The file with more statements in `sink`. -/
def FileState.pushAll (s : FileState) : Sink → List GroupStmt → FileState
  | .module, out => { s with stmts := s.stmts ++ out.map topOf }
  | .group, out => { s with body := s.body ++ out }

theorem FileState.pushAll_nil (s : FileState) (sink : Sink) : s.pushAll sink [] = s := by
  cases sink <;> simp [pushAll]

theorem FileState.pushAll_append (s : FileState) (sink : Sink) (xs ys : List GroupStmt) :
    (s.pushAll sink xs).pushAll sink ys = s.pushAll sink (xs ++ ys) := by
  cases sink <;> simp [pushAll]

theorem FileState.push_eq (s : FileState) (sink : Sink) (x : GroupStmt) :
    s.push sink x = s.pushAll sink [x] := by
  cases sink <;> rfl

theorem yields_range {b : Bracket} (hreads : u.Reads b.lexemes v) :
    ∃ r, Yields parseRange (s.at u) (some r) (s.at v) ∧ r.bare = b.range := by
  obtain ⟨hopen, hrest⟩ := reads_sym.mp hreads
  obtain ⟨⟨hlo, -, hlov⟩, hrest⟩ := reads_number.mp hrest
  obtain ⟨w, hhi, hrest⟩ := reads_append.mp hrest
  obtain ⟨w', hdepth, hclose, rfl⟩ := reads_closed.mp hrest
  rw [depthLexemes_eq] at hdepth
  have hstar : b.depth = none → w'.cur.kind ≠ .star := fun _ => by simp [hclose]
  -- behind the port numbers there is a star or the bracket
  have hdash : w.cur.kind ≠ .dash := by
    cases hd : b.depth with
    | none =>
      rw [hd] at hdepth
      obtain rfl := reads_nil.mp hdepth
      simp [hclose]
    | some d =>
      rw [hd] at hdepth
      simp [(reads_sym.mp hdepth).1]
  have hrun : Yields parseRange (s.at u) (some {
      lo := castInt u.advance.cur.intValue
      hi := (b.hi.map fun n => castInt n.value).getD (castInt u.advance.cur.intValue)
      depth := (b.depth.map fun n => castInt n.value).getD (-1)
      src := { «begin» := u.cur.range.begin, «end» := w'.cur.range.end } }) (s.at w'.advance) := by
    refine yields_cur.bind (yields_advance.bind ((yields_require hlo).bind ?_))
    refine (yields_after hhi fun _ => hdash).bind ((yields_after hdepth hstar).bind ?_)
    exact (yields_expect hclose).bind (.pure _ _)
  have hhi' : (b.hi.map fun n => castInt n.value).getD (castInt b.lo.value)
      = castInt (b.hi.getD b.lo).value := by
    cases b.hi <;> simp only [Option.map_none, Option.map_some, Option.getD_none, Option.getD_some]
  rw [hlov, hhi'] at hrun
  exact ⟨_, hrun, by simp only [PortRange.bare, Bracket.range]⟩

theorem yields_optionalRange {b : Option Bracket} (hreads : u.Reads (bracketLexemes b) v)
    (hnext : b = none → v.cur.kind ≠ .lBracket) :
    ∃ r, Yields parseOptionalRange (s.at u) (some r) (s.at v) ∧
      r.map PortRange.bare = b.map Bracket.range := by
  cases b with
  | none =>
    obtain rfl := reads_nil.mp hreads
    exact ⟨none, yields_cur.bind (.ite_neg (hnext rfl) (.pure _ _)), rfl⟩
  | some b =>
    have hopen : u.cur.kind = .lBracket := (reads_sym.mp hreads).1
    obtain ⟨r, hrun, hbare⟩ := yields_range (s := s) hreads
    exact ⟨some r, yields_cur.bind (.ite_pos hopen hrun.attempt), by simp [hbare]⟩

/-- A node, after its identifier. -/
theorem yields_node {n : Node} (hreads : u.Reads n.lexemes v) (hnext : v.cur.kind ≠ .lParen)
    (sink : Sink) :
    u.cur.kind = .ident ∧ ∃ out, Yields (parseNode sink u.cur) (s.at u.advance)
        (some (n.nameAt u.cur.range.begin)) ((s.pushAll sink out).at v) ∧
      out.map GroupStmt.bare = n.stmts (n.nameAt u.cur.range.begin) := by
  cases n with
  | named x =>
    obtain ⟨⟨hident, rfl⟩, hrest⟩ := reads_ident.mp hreads
    obtain rfl := reads_nil.mp hrest
    refine ⟨hident, [], ?_, rfl⟩
    rw [FileState.pushAll_nil]
    exact (yields_accept_not hnext).bind (.pure _ _)
  | inline type args =>
    obtain ⟨⟨hident, rfl⟩, hrest⟩ := reads_ident.mp hreads
    obtain ⟨hparen, hargs⟩ := reads_sym.mp hrest
    obtain ⟨params, hrun, hbare⟩ := yields_args (s := s) false hargs
    refine ⟨hident, [.instanceDecl {
      type := u.cur.text
      name := anonName u.cur.text u.cur.range.begin
      anonymous := true
      nInPorts := castInt args.nIn.value
      nOutPorts := castInt args.nOut.value
      channelDepth := args.channelDepth
      params := params
      src := { «begin» := u.cur.range.begin, «end» := v.prev.range.end } }], ?_, ?_⟩
    · refine (yields_accept hparen).bind (hrun.bind (yields_prev.bind ?_))
      rw [← FileState.push_eq]
      exact (yields_push sink _).bind (.pure _ _)
    · simp only [List.map_cons, List.map_nil, GroupStmt.bare, InstanceDecl.bare, hbare]
      rfl

/-- In front of a bracket that may be missing there is the bracket, or what is behind it. -/
theorem bracket_kind {b : Option Bracket} (h : u.Reads (bracketLexemes b) v) :
    u.cur.kind = .lBracket ∨ u = v := by
  cases b with
  | none => exact Or.inr (reads_nil.mp h)
  | some b => exact Or.inl (reads_sym.mp h).1

theorem node_ident {n : Node} (h : u.Reads n.lexemes v) : u.cur.kind = .ident := by
  cases n with
  | named x => exact (reads_ident.mp h).1.1
  | inline type args => exact (reads_ident.mp h).1.1

/-- **A link.** It pushes the instance of an inline node and the connection to the node; the end
that it passes on is the destination of that connection. -/
theorem yields_link {l : Link} (hreads : u.Reads l.lexemes v)
    (hnext : v.cur.kind ≠ .lParen ∧ v.cur.kind ≠ .lBracket) (sink : Sink) (source : ConnEnd) :
    ∃ dest out loc, Yields (linkTurn sink source) (s.at u) (some (.yield dest))
        ((s.pushAll sink out).at v) ∧
      dest.bare = { nodeName := l.node.nameAt loc, range := l.range } ∧
      out.map GroupStmt.bare = l.node.stmts (l.node.nameAt loc) ++
        [.connectionDecl { source := source.bare, dest := dest.bare, lossy := l.lossy }] := by
  obtain ⟨harrow, hrest⟩ := reads_sym.mp hreads
  obtain ⟨w, hpre, hrest⟩ := reads_append.mp hrest
  obtain ⟨w', hnode, hpost⟩ := reads_append.mp hrest
  have hident : w.cur.kind = .ident := node_ident hnode
  have hparen : w'.cur.kind ≠ .lParen := by
    rcases bracket_kind hpost with hk | rfl
    · simp [hk]
    · exact hnext.1
  obtain ⟨leading, hleading, hpre'⟩ := yields_optionalRange (s := s) hpre
    fun _ => by simp [hident]
  obtain ⟨-, out, hrun, hout⟩ := yields_node (s := s) hnode hparen sink
  obtain ⟨trailing, htrailing, hpost'⟩ := yields_optionalRange (s := s.pushAll sink out) hpost
    fun _ => hnext.2
  have hkind : u.cur.kind = .arrow ∨ u.cur.kind = .fatArrow := by
    rw [harrow]
    cases l.lossy <;> simp
  have hlossy : (u.cur.kind == .fatArrow) = l.lossy := by
    rw [harrow]
    cases l.lossy <;> rfl
  have hrange : ((trailing.or leading).getD {}).bare = l.range := by
    rw [Link.range, Option.map_or, ← hpost', ← hpre', ← Option.map_or]
    cases trailing.or leading <;> rfl
  let dest : ConnEnd := {
    nodeName := l.node.nameAt w.cur.range.begin
    range := (trailing.or leading).getD {}
    src := { «begin» := w.cur.range.begin, «end» := w'.prev.range.end } }
  let conn : ConnectionDecl := {
    source := source
    dest := dest
    lossy := u.cur.kind == .fatArrow
    src := { «begin» := source.src.begin, «end» := dest.src.end } }
  have hlink : Yields (parseLink sink u.cur source) (s.at u) (some dest)
      ((s.pushAll sink (out ++ [.connectionDecl conn])).at v) := by
    rw [← FileState.pushAll_append, ← FileState.push_eq]
    refine yields_advance.bind (hleading.bind (yields_cur.bind (.ite_pos (Or.inl hident) ?_)))
    refine (yields_accept_not (by simp [hident])).bind ?_
    refine (yields_accept_not (by simp [hident])).bind ?_
    refine (yields_require hident).bind (hrun.bind (yields_prev.bind (htrailing.bind ?_)))
    exact (yields_push sink _).bind (.pure _ _)
  refine ⟨dest, out ++ [.connectionDecl conn], w.cur.range.begin, ?_, ?_, ?_⟩
  · exact yields_cur.bind (.ite_pos hkind (hlink.bind (.pure _ _)))
  · simp only [ConnEnd.bare, dest, hrange]
  · rw [List.map_append, hout]
    simp only [List.map_cons, List.map_nil, GroupStmt.bare, ConnectionDecl.bare, conn, hlossy]

/-- The first token of the links, or the token behind the chain. -/
theorem links_kind {links : List Link} (h : u.Reads (links.flatMap Link.lexemes) v)
    (hstops : Stops v.cur) :
    u.cur.kind ≠ .lParen ∧ u.cur.kind ≠ .lBracket ∧ u.cur.kind ≠ .doubleColon := by
  cases links with
  | nil =>
    obtain rfl := reads_nil.mp h
    simp only [Stops, List.mem_cons, not_or] at hstops
    exact ⟨hstops.2.1, hstops.2.2.1, hstops.1⟩
  | cons l ls =>
    have hk := (reads_sym.mp h).1
    cases hl : l.lossy <;> simp [hk, hl]

/-- The links, one after the other. Induction on the list. -/
theorem loops_links {links : List Link} (hreads : u.Reads (links.flatMap Link.lexemes) v)
    (hstops : Stops v.cur) (sink : Sink) (source : ConnEnd) :
    ∃ last out names, Loops (linkTurn sink) source (s.at u) (some last)
        ((s.pushAll sink out).at v) ∧
      Chain.Named (links.map Link.node) names ∧
      out.map GroupStmt.bare = Chain.linkStmts source.bare links names := by
  induction links generalizing u s source with
  | nil =>
    obtain rfl := reads_nil.mp hreads
    refine ⟨source, [], [], .done (yields_cur.bind (.ite_neg ?_ ?_)), .nil, rfl⟩
    · simp only [Stops, List.mem_cons, not_or] at hstops
      exact not_or.mpr ⟨hstops.2.2.2.1, hstops.2.2.2.2.1⟩
    · rw [FileState.pushAll_nil]
      exact .pure _ _
  | cons l links ih =>
    rw [List.flatMap_cons] at hreads
    obtain ⟨w, hl, hrest⟩ := reads_append.mp hreads
    have hkind := links_kind hrest hstops
    obtain ⟨dest, out, loc, hrun, hdest, hout⟩ :=
      yields_link (s := s) hl ⟨hkind.1, hkind.2.1⟩ sink source
    obtain ⟨last, rest, names, hloop, hnamed, hbare⟩ := ih (s := s.pushAll sink out) hrest dest
    rw [FileState.pushAll_append] at hloop
    refine ⟨last, out ++ rest, l.node.nameAt loc :: names, .turn hrun hloop,
      .cons ⟨loc, rfl⟩ hnamed, ?_⟩
    rw [List.map_append, hout, hbare, hdest, Chain.linkStmts, List.append_assoc]
    rfl

/-- **A chain.** The names of its nodes are those of the source or made up from where an inline
instance stands. -/
theorem yields_chain {c : Chain} {semi : Bool}
    (hreads : u.Reads (c.lexemes ++ semicolonLexemes semi) v)
    (hend : semi = false → Ends v.cur) (sink : Sink) :
    ∃ out, Yields (parseDeclOrChain sink) (s.at u) (some ()) ((s.pushAll sink out).at v) ∧
      (Decl.chain c).Gives out := by
  obtain ⟨w, hchain, hsemi⟩ := reads_append.mp hreads
  have hstops := stops_semicolon hsemi hend
  obtain ⟨w₁, hfirst, hrest⟩ := reads_append.mp hchain
  obtain ⟨w₂, hpost, hlinks⟩ := reads_append.mp hrest
  have hkind := links_kind hlinks hstops
  have hbehind : w₁.cur.kind ≠ .lParen ∧ w₁.cur.kind ≠ .doubleColon := by
    rcases bracket_kind hpost with hk | rfl
    · simp [hk]
    · exact ⟨hkind.1, hkind.2.2⟩
  obtain ⟨hident, out, hrun, hout⟩ := yields_node (s := s) hfirst hbehind.1 sink
  obtain ⟨range, hrange, hpost'⟩ := yields_optionalRange (s := s.pushAll sink out) hpost
    fun _ => hkind.2.1
  obtain ⟨last, rest, names, hloop, hnamed, hbare⟩ := loops_links (s := s.pushAll sink out)
    hlinks hstops sink {
      nodeName := c.first.nameAt u.cur.range.begin
      range := range.getD {}
      src := { «begin» := u.cur.range.begin, «end» := w₁.prev.range.end } }
  rw [FileState.pushAll_append] at hloop
  refine ⟨out ++ rest, yields_declOrChain hident (.ite_neg ?_ ?_), c.first.nameAt _, names,
    .cons ⟨u.cur.range.begin, rfl⟩ hnamed, ?_⟩
  · -- an inline instance goes on with its parenthesis
    cases hn : c.first with
    | named x =>
      rw [hn] at hfirst
      have hw := reads_nil.mp (reads_ident.mp hfirst).2
      rw [hw]
      exact hbehind.2
    | inline type args =>
      rw [hn] at hfirst
      simp [(reads_sym.mp (reads_ident.mp hfirst).2).1]
  · refine hrun.bind (yields_prev.bind (hrange.bind (hloop.yields.bind ?_)))
    exact (yields_semicolon hsemi fun h => (hend h).2).bind (.pure _ _)
  · rw [List.map_append, hout, hbare, Chain.stmts, ← hpost']
    cases range <;> rfl

end

end Parser

end OpenClickNP
