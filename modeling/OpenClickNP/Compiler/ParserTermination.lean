import OpenClickNP.Compiler.ParserProgress
import OpenClickNP.Compiler.BeyondReach

/-!
# When the parser ends

The only operation that goes back in a file is `seekTo` in `parseBraceBlock`. `BlockAt` are the
states in which a run over a file reads a block; while none of them makes the lexer go back, every
statement and every section consumes a token or is the last, and `parseFile` ends. The offset that
the lexer goes back to has 32 bits, so this is so exactly while no block is read at a brace that
ends at offset `2 ^ 32` or behind it.
-/

namespace OpenClickNP

namespace Parser

open Ast Production

/-! ## Blocks -/

/-- `seekTo` in `parseBraceBlock` does not go back behind what the lexer has read. -/
def State.SeeksOn (s : State) : Prop :=
  s.lex.pos ≤ (s.lex.seekTo s.cur.range.end.offset).pos

/-- The offset of the token is that of the lexer, modulo `2 ^ 32`. -/
theorem State.InStep.pos_seekTo {s : State} (h : s.InStep) :
    (s.lex.seekTo s.cur.range.end.offset).pos = s.lex.pos % 2 ^ 32 := by
  have hoffset : s.cur.range.end.offset.toNat = s.lex.pos % 2 ^ 32 := by
    rw [h.behind]
    exact UInt32.toNat_ofNat'
  have hmod : s.lex.pos % 2 ^ 32 ≤ s.lex.pos := Nat.mod_le _ _
  have hin := h.inside
  rw [← hoffset]
  unfold Lexer.seekTo
  rw [if_neg (by rw [hoffset]; omega)]

theorem State.InStep.seeksOn_iff {s : State} (h : s.InStep) : s.SeeksOn ↔ s.lex.pos < 2 ^ 32 := by
  rw [State.SeeksOn, h.pos_seekTo]
  omega

theorem State.InStep.goes_seekTo {s : State} (h : s.InStep) (hseek : s.SeeksOn) :
    Lexer.Goes s.lex (s.lex.seekTo s.cur.range.end.offset) where
  buf := rfl
  le := hseek
  inside hin := by
    rw [h.pos_seekTo]
    exact Nat.le_trans (Nat.mod_le _ _) hin

/-- The state after a production that may read a block. Behind a block that is not closed the
brace is still the current token, and the lexer is no longer behind it. -/
structure Lands {α : Type} (s : State) (r : Option α) (t : State) : Prop where
  buf : t.lex.buf = s.lex.buf
  le : t.remaining ≤ s.remaining
  inside : t.lex.pos ≤ t.lex.src.length
  inStep : r ≠ none ∨ t.cur.kind ≠ .lBrace → t.InStep

section
variable {α β : Type} {s t u : State} {r : Option α} {a : α}

theorem Onward.lands (h : Onward s t) : Lands s r t :=
  ⟨h.buf, h.le, h.inStep.inside, fun _ => h.inStep⟩

theorem Lands.onward (h : Lands s (some a) t) : Onward s t := ⟨h.inStep (.inl nofun), h.buf, h.le⟩

theorem Onward.trans_lands (h : Onward s t) (h' : Lands t r u) : Lands s r u :=
  ⟨h'.buf.trans h.buf, Nat.le_trans h'.le h.le, h'.inside, h'.inStep⟩

theorem Lands.none (h : Lands s (none : Option α) t) : Lands s (none : Option β) t :=
  ⟨h.buf, h.le, h.inside, fun hb => h.inStep (hb.imp (absurd rfl) id)⟩

end

/-- The result of a production that may read a block; a success has consumed. -/
def LandsFurther {α : Type} (s : FileState) (r : Option α) (t : FileState) : Prop :=
  Lands s.toState r t.toState ∧ (r ≠ none → t.remaining < s.remaining)

theorem Moves.lands {α : Type} {p : Parse α} {s : FileState} (h : Moves p (fun r => r ≠ none) s)
    (hin : s.InStep) : Finishes p s (LandsFurther s) :=
  (h hin).mono fun _ _ ht => ⟨ht.1.lands, ht.2⟩

/-- A block consumes when it can be read. -/
theorem braceBlock_finishes {w : FileState} (hin : w.InStep)
    (hseek : w.cur.kind = .lBrace → w.SeeksOn) :
    Finishes parseBraceBlock w (LandsFurther w) := by
  refine .of_yields (.of_eq fun _ => rfl) ?_
  show Lands w.toState w.toState.braceBlock.1 w.toState.braceBlock.2 ∧
    (w.toState.braceBlock.1 ≠ none → w.toState.braceBlock.2.remaining < w.remaining)
  unfold State.braceBlock
  split
  next => exact ⟨(onward_error hin _ _).lands, fun h => absurd rfl h⟩
  next hbrace =>
    rw [not_not] at hbrace
    have hback := hin.goes_seekTo (hseek hbrace)
    generalize w.lex.seekTo w.cur.range.end.offset = lx at hback
    have hblock := hback.trans (Lexer.lexOpaqueBlock_spec lx).1
    simp only []
    generalize lx.lexOpaqueBlock = out at hblock
    -- the state behind the block, still with the brace as the current token
    have hne : w.cur.kind ≠ .eof := by rw [hbrace]; decide
    have hinside : out.2.pos ≤ out.2.src.length := by
      rw [hblock.src]
      exact hblock.inside hin.inside
    have hle : ({ w.toState with lex := out.2 } : State).remaining ≤ w.remaining := by
      show (if w.cur.kind = .eof then 0 else out.2.left + 1) ≤
        if w.cur.kind = .eof then 0 else w.lex.left + 1
      rw [if_neg hne, if_neg hne]
      exact Nat.succ_le_succ hblock.left_le
    split
    next => exact ⟨⟨hblock.buf, hle, hinside, fun h => absurd hbrace (h.resolve_left nofun)⟩, nofun⟩
    next =>
      have hlt := remaining_advance_lt (s := { w.toState with lex := out.2 }) hinside hne
      have hstep := inStep_advance (s := { w.toState with lex := out.2 }) hinside
      exact ⟨⟨Lexer.buf_next.trans hblock.buf, Nat.le_trans (Nat.le_of_lt hlt) hle, hstep.inside,
        fun _ => ⟨hstep.inside, hstep.behind, hstep.ended⟩⟩, fun _ => Nat.lt_of_lt_of_le hlt hle⟩

/-! ## Sections -/

/-- `parseSection` up to its block. -/
def blockHead : Parse (List SignalParam) := do
  let tok ← cur
  match tok.kind with
  | .kwState | .kwInit | .kwHandler => do
    advance
    pure []
  | .kwSignal => do
    advance
    parseSignalHead
  | _ => fail

theorem tame_blockHead : Tame blockHead := by
  intro v
  refine .cur_bind ?_
  split
  case h_4 => exact (tame_advance.bind fun _ => tame_signalHead) v
  case h_5 => exact .fail id
  all_goals exact (tame_advance.bind fun _ => .pure []) v

/-- A section with a block, given by what stands in front of it. -/
theorem blockSection_finishes {v : FileState} {q : Parse (List SignalParam)}
    {put : List SignalParam → OpaqueCpp → ElementDecl} (hq : Tame q) (hin : v.InStep)
    (hne : v.cur.kind ≠ .eof)
    (hseek : ∀ ps w, Yields (advance >>= fun _ => q) v (some ps) w →
      Onward v.toState w.toState → w.cur.kind = .lBrace → w.SeeksOn) :
    Finishes (advance >>= fun _ => q >>= fun ps => parseBraceBlock >>= fun blk =>
      pure (put ps blk)) v (LandsFurther v) := by
  rw [← bind_assoc]
  obtain ⟨_ | ps, w, hrun, hw, hlt⟩ := Moves.advance_bind (S := fun _ => True) hne hq hin
  · exact .of_yields hrun.bind_fail ⟨hw.lands, fun h => absurd rfl h⟩
  · obtain ⟨_ | blk, t, hblock, ht, hless⟩ :=
      braceBlock_finishes hw.inStep (hseek ps w hrun hw)
    · exact .of_yields (hrun.bind hblock.bind_fail)
        ⟨hw.trans_lands ht.none, fun h => absurd rfl h⟩
    · exact .of_yields (hrun.bind (hblock.bind (.pure _ _)))
        ⟨(hw.trans ht.onward).lands, fun _ => Nat.lt_trans (hless nofun) (hlt trivial)⟩

theorem section_finishes (elem : ElementDecl) {v : FileState} (hin : v.InStep)
    (hne : v.cur.kind ≠ .eof)
    (hseek : ∀ ps w, Yields blockHead v (some ps) w → Onward v.toState w.toState →
      w.cur.kind = .lBrace → w.SeeksOn) : Finishes (parseSection elem) v (LandsFurther v) := by
  have hblock : ∀ {q : Parse (List SignalParam)} {g : List SignalParam → OpaqueCpp → ElementDecl},
      Tame q → (∀ r w, Yields (advance >>= fun _ => q) v r w → Yields blockHead v r w) →
      Finishes (advance >>= fun _ => q >>= fun ps => parseBraceBlock >>= fun blk =>
        pure (g ps blk)) v (LandsFurther v) := fun hq hhead =>
    blockSection_finishes hq hin hne fun ps w hrun => hseek ps w (hhead _ w hrun)
  refine finishes_cur ?_
  split
  next hk =>
    exact hblock (q := pure []) (g := fun _ blk => { elem with state := some blk }) (.pure [])
      fun r w hrun => .get_bind (by simpa only [hk] using hrun)
  next hk =>
    exact hblock (q := pure []) (g := fun _ blk => { elem with init := some blk }) (.pure [])
      fun r w hrun => .get_bind (by simpa only [hk] using hrun)
  next hk =>
    exact hblock (q := pure []) (g := fun _ blk => { elem with handler := some blk }) (.pure [])
      fun r w hrun => .get_bind (by simpa only [hk] using hrun)
  next hk =>
    exact hblock tame_signalHead fun r w hrun => .get_bind (by simpa only [hk] using hrun)
  next => exact (Moves.advance_bind hne ((tame_hlsPragmas _).bind fun _ => .pure _)).lands hin
  next => exact (Moves.advance_bind hne ((tame_timing _).bind fun _ => .pure _)).lands hin
  next =>
    exact .of_yields (Yields.bind (Yields.modify _ v) (.fail _))
      ⟨(onward_error hin _ _).lands, fun h => absurd rfl h⟩

/-- A turn of the loop over the sections. -/
theorem sectionTurn_finishes {elem : ElementDecl} {v : FileState} (hin : v.InStep)
    (hseek : ∀ ps w, Yields blockHead v (some ps) w → Onward v.toState w.toState →
      w.cur.kind = .lBrace → w.SeeksOn) : Finishes (braceTurn parseSection elem) v fun r t =>
        Lands v.toState r t.toState ∧ ((∃ b, r = some (.yield b)) → t.remaining < v.remaining) := by
  refine finishes_cur ?_
  split
  next =>
    refine .pure ⟨(Onward.refl hin).lands, fun hyield => ?_⟩
    obtain ⟨b, hb⟩ := hyield
    cases hb
  next hgo =>
    simp only [not_or] at hgo
    obtain ⟨_ | elem', t, hrun, ht, hlt⟩ := section_finishes elem hin hgo.2 hseek
    · exact .of_yields hrun.bind_fail ⟨ht.none, fun ⟨b, hb⟩ => by cases hb⟩
    · exact .of_yields (hrun.bind (.pure _ _)) ⟨ht.onward.lands, fun _ => hlt nofun⟩

/-! ## Elements -/

/-- `parseElementDecl` up to the loop over the sections. -/
def elementHead : Parse ElementDecl := do
  let kw ← cur
  advance
  let name ← require .ident "element name"
  let (nIn, nOut) ← parsePortCounts
  let _ ← require .lBrace "\x60\x7b\x60 to begin element body"
  pure {
    name := name.text
    src := { «begin» := kw.range.begin, «end» := name.range.end }
    nInPorts := nIn
    nOutPorts := nOut }

theorem parseElementDecl_eq : parseElementDecl = (do
    let elem ← elementHead
    let elem ← untilBrace parseSection elem
    let _ ← expect .rBrace "\x60\x7d\x60"
    pushTop (.elementDecl elem)) := by
  simp only [parseElementDecl, elementHead, parseElementBody, bind_assoc, pure_bind]

theorem elementHead_moves {s : FileState} {S : Option ElementDecl → Prop}
    (hs : s.cur.kind ≠ .eof) : Moves elementHead S s := by
  refine .cur_bind (.advance_bind hs ?_)
  refine (greedy_require (by decide) (by decide)).tame.bind fun _ => ?_
  refine tame_portCounts.bind fun counts => ?_
  exact (greedy_require (by decide) (by decide)).tame.bind fun _ => .pure _

/-- The loop over the sections. Induction on what is left to read. -/
theorem sections_finish (elem : ElementDecl) {u : FileState} (hin : u.InStep)
    (hseek : ∀ elem' v ps w, Turns (braceTurn parseSection) elem u elem' v →
      Yields blockHead v (some ps) w → Onward u.toState w.toState → w.cur.kind = .lBrace →
        w.SeeksOn) :
    Finishes (untilBrace parseSection elem) u fun r t => Lands u.toState r t.toState := by
  refine Finishes.loop (fun _ t => Onward u.toState t.toState) (fun t => t.remaining)
    (fun elem' v hreach hv => ?_) (.refl hin)
  refine (sectionTurn_finishes hv.inStep fun ps w hblock hw =>
    hseek elem' v ps w hreach hblock (hv.trans hw)).mono fun r t ht => ?_
  match r with
  | some (.yield _) => exact ⟨hv.trans ht.1.onward, ht.2 ⟨_, rfl⟩⟩
  | some (.done _) => exact (hv.trans ht.1.onward).lands
  | none => exact hv.trans_lands ht.1.none

theorem elementDecl_finishes {s : FileState} (hin : s.InStep) (hs : s.cur.kind ≠ .eof)
    (hseek : ∀ elem u elem' v ps w, Yields elementHead s (some elem) u →
      Turns (braceTurn parseSection) elem u elem' v → Yields blockHead v (some ps) w →
        Onward s.toState w.toState → w.cur.kind = .lBrace → w.SeeksOn) :
    Finishes parseElementDecl s fun r t =>
      Lands s.toState r t.toState ∧ t.remaining < s.remaining := by
  rw [parseElementDecl_eq]
  obtain ⟨_ | elem, u, hhead, hu, hlt⟩ := elementHead_moves (S := fun _ => True) hs hin
  · exact .of_yields hhead.bind_fail ⟨hu.lands, hlt trivial⟩
  obtain ⟨_ | elem', t, hloop, ht⟩ := sections_finish elem hu.inStep
    fun elem' v ps w hturns hblock hw => hseek elem u elem' v ps w hhead hturns hblock (hu.trans hw)
  · exact .of_yields (hhead.bind hloop.bind_fail)
      ⟨hu.trans_lands ht.none, Nat.lt_of_le_of_lt ht.le (hlt trivial)⟩
  have hrest : Tame (expect .rBrace "\x60\x7d\x60" >>= fun _ => pushTop (.elementDecl elem')) :=
    tame_expect.bind fun _ => tame_pushTop _
  obtain ⟨r, t', hrun, ht', -⟩ := hrest t ht.onward.inStep
  exact .of_yields (hhead.bind (hloop.bind hrun)) ⟨(hu.trans (ht.onward.trans ht')).lands,
    Nat.lt_of_le_of_lt (Nat.le_trans ht'.le ht.le) (hlt trivial)⟩

/-! ## Imports -/

/-- `parseImport` from behind its keyword up to the file. -/
def importHead : Parse Token := do
  advance
  let str ← require .stringLit "import path string"
  let _ ← accept .semicolon
  pure str

theorem importHead_moves {s : FileState} {S : Option Token → Prop} (hs : s.cur.kind ≠ .eof) :
    Moves importHead S s :=
  .advance_bind hs ((greedy_require (by decide) (by decide)).tame.bind fun _ =>
    (tame_accept (by decide)).bind fun _ => .pure _)

section
variable {fs : FileSystem} {importDirs : List String}

/-- An import that is not read: its file has been seen before, or it cannot be opened. -/
def Unread (fs : FileSystem) (importDirs : List String) (str : Token) (u : FileState) : Prop :=
  let resolved := fs.resolveImport importDirs u.lex.buf.path str.text
  fs.weaklyCanonical resolved ∈ u.seenFiles ∨ fs.read resolved = none

theorem parseFile_ends_of_unread (importDirs : List String) (depth : Nat) {path : String}
    {q : Parser} (h : fs.weaklyCanonical path ∈ q.seenFiles ∨ fs.read path = none) :
    ∃ sub p, Yields (parseFile fs importDirs (depth + 1) path) q sub p := by
  by_cases hseen : fs.weaklyCanonical path ∈ q.seenFiles
  · exact ⟨_, _, .get_bind (.ite_pos hseen (.pure _ _))⟩
  · simp only [parseFile, h.resolve_left hseen]
    exact ⟨none, _, .get_bind (.ite_neg hseen (Yields.bind (.of_eq fun _ => rfl)
      (Yields.bind (Yields.modify _ _) (.fail _))))⟩

/-- `parseImport` from where it opens the file. -/
def importRest (fs : FileSystem) (importDirs : List String)
    (parseFile : String → Production Parser Module) (kw str : Token) : Parse Unit := do
  let s ← get
  let resolved := fs.resolveImport importDirs s.lex.buf.path str.text
  let sub ← attempt (within FileState.parser FileState.withParser (parseFile resolved))
  match sub with
  | none => do
    error str ("failed to parse imported file \x60" ++ str.text ++ "\x60")
    fail
  | some sub => do
    modify fun s => { s with stmts := s.stmts ++ sub.stmts }
    pushTop (.importDecl {
      path := str.text
      src := { «begin» := kw.range.begin, «end» := str.range.end } })

theorem parseImport_eq (parseFile : String → Production Parser Module) :
    parseImport fs importDirs parseFile = (do
      let kw ← cur
      let str ← importHead
      importRest fs importDirs parseFile kw str) := by
  simp only [parseImport, importHead, importRest, bind_assoc, pure_bind] <;> rfl

/-- What outlives the file does not touch the tokens. -/
theorem importRest_finishes (depth : Nat) (kw : Token) {u : FileState} {str : Token}
    (hin : u.InStep) (hunread : Unread fs importDirs str u) :
    Finishes (importRest fs importDirs (parseFile fs importDirs (depth + 1)) kw str) u fun _ t =>
      Onward u.toState t.toState := by
  obtain ⟨_ | sub, p, hsub⟩ :=
    parseFile_ends_of_unread importDirs depth (q := u.parser) hunread
  all_goals
    have hput : Onward u.toState (u.withParser p).toState :=
      ⟨⟨hin.inside, hin.behind, hin.ended⟩, rfl, Nat.le_refl _⟩
  · exact .of_yields (.get_bind (hsub.within.attempt.bind (Yields.bind (Yields.modify _ _)
      (.fail _)))) (hput.trans (onward_error hput.inStep _ _))
  · exact .of_yields (.get_bind (hsub.within.attempt.bind (Yields.bind (Yields.modify _ _)
      (Yields.modify _ _)))) hput

theorem import_finishes (depth : Nat) {s : FileState} (hin : s.InStep) (hs : s.cur.kind ≠ .eof)
    (hunread : ∀ str u, Yields importHead s (some str) u → Unread fs importDirs str u) :
    Finishes (parseImport fs importDirs (parseFile fs importDirs (depth + 1))) s fun _ t =>
      Onward s.toState t.toState ∧ t.remaining < s.remaining := by
  rw [parseImport_eq]
  refine finishes_cur ?_
  obtain ⟨_ | str, u, hhead, hu, hlt⟩ := importHead_moves (S := fun _ => True) hs hin
  · exact .of_yields hhead.bind_fail ⟨hu, hlt trivial⟩
  · obtain ⟨r, t, hrest, ht⟩ := importRest_finishes depth s.cur hu.inStep
      (hunread str u hhead)
    exact .of_yields (hhead.bind hrest) ⟨hu.trans ht, Nat.lt_of_le_of_lt ht.le (hlt trivial)⟩

/-! ## Statements -/

/-- The tokens at which the recovery of `parseFile` stops. -/
def stmtStops : List Tok := [.eof, .kwElement, .kwElementGroup, .kwImport]

/-- A statement consumes, or it fails at a token that recovery goes over. -/
theorem topStmt_finishes (depth : Nat) {s : FileState} (hin : s.InStep) (hs : s.cur.kind ≠ .eof)
    (hseek : ∀ elem u elem' v ps w, s.cur.kind = .kwElement → Yields elementHead s (some elem) u →
      Turns (braceTurn parseSection) elem u elem' v → Yields blockHead v (some ps) w →
        Onward s.toState w.toState → w.cur.kind = .lBrace → w.SeeksOn)
    (hunread : ∀ str u, s.cur.kind = .kwImport → Yields importHead s (some str) u →
      Unread fs importDirs str u) :
    Finishes (parseTopStmt fs importDirs (parseFile fs importDirs (depth + 1))) s fun r t =>
      Lands s.toState r t.toState ∧ (t.remaining < s.remaining ∨
        r = none ∧ t.cur = s.cur ∧ s.cur.kind ∉ stmtStops) := by
  refine finishes_cur ?_
  split
  next hk =>
    exact (import_finishes depth hin hs fun str u => hunread str u hk).mono fun _ _ ht =>
      ⟨ht.1.lands, .inl ht.2⟩
  next hk =>
    exact (elementDecl_finishes hin hs fun elem u elem' v ps w => hseek elem u elem' v ps w hk).mono
      fun _ _ ht => ⟨ht.1, .inl ht.2⟩
  next =>
    exact (elementGroupDecl_moves (S := fun _ => True) hs hin).mono fun _ _ ht =>
      ⟨ht.1.lands, .inl (ht.2 trivial)⟩
  next hother hother' hother'' =>
    by_cases hdecl : s.cur.kind ∈ declStarts
    · exact (declOrChain_moves (S := fun _ => True) hdecl hin).mono fun _ _ ht =>
        ⟨ht.1.lands, .inl (ht.2 trivial)⟩
    · refine .of_yields (yields_declOrChain_none hdecl)
        ⟨(onward_error hin _ _).lands, .inr ⟨rfl, rfl, ?_⟩⟩
      simp only [stmtStops, List.mem_cons, List.not_mem_nil, or_false, not_or]
      exact ⟨hs, hother', hother'', hother⟩

/-- A turn of the loop over the statements. -/
theorem stmtTurn_moves {depth : Nat} {s : FileState}
    (hseek : ∀ elem u elem' v ps w, s.cur.kind = .kwElement → Yields elementHead s (some elem) u →
      Turns (braceTurn parseSection) elem u elem' v → Yields blockHead v (some ps) w →
        Onward s.toState w.toState → w.cur.kind = .lBrace → w.SeeksOn)
    (hunread : ∀ str u, s.cur.kind = .kwImport → Yields importHead s (some str) u →
      Unread fs importDirs str u) :
    Moves (stmtTurn fs importDirs (parseFile fs importDirs (depth + 1)) ())
      (fun r => ∃ b, r = some (.yield b)) s := by
  refine .cur_bind ?_
  split
  next => exact .pure nofun
  next hs =>
    intro hin
    obtain ⟨_ | ⟨⟨⟩⟩, t, hrun, ht, hlt⟩ := topStmt_finishes depth hin hs hseek hunread
    · -- recovery stands at one of its tokens at once only if something was consumed before
      obtain ⟨_, t', hskip, rfl, hstop, hmoved⟩ :=
        skipUntil_finishes (by decide : Tok.eof ∈ stmtStops) ht.inside
      have hland : Onward s.toState t'.toState ∧ t'.remaining < s.remaining := by
        rcases hmoved with rfl | ⟨hnext, hlt'⟩
        · have hin' : t'.InStep := ht.inStep (.inr fun h => absurd (h ▸ hstop) (by decide))
          refine ⟨⟨hin', ht.buf, ht.le⟩, hlt.resolve_right fun h => h.2.2 ?_⟩
          rw [← h.2.1]
          exact hstop
        · exact ⟨⟨hnext.inStep, hnext.buf.trans ht.buf, Nat.le_trans hnext.le ht.le⟩,
            Nat.lt_of_lt_of_le hlt' ht.le⟩
      exact .of_yields (hrun.attempt.bind (.ite_pos rfl (hskip.bind (.pure _ _))))
        ⟨hland.1, fun _ => hland.2⟩
    · have hlt' : t.remaining < s.remaining := hlt.resolve_right fun h => absurd h.1 nofun
      exact .of_yields (hrun.attempt.bind (.ite_neg nofun (.pure _ _)))
        ⟨ht.onward, fun _ => hlt'⟩

end

/-! ## Runs over a file -/

section
variable (fs : FileSystem) (importDirs : List String) (depth : Nat) (s₀ : FileState)

/-- The states in front of a statement. -/
def TopRun (s : FileState) : Prop :=
  Turns (stmtTurn fs importDirs (parseFile fs importDirs depth)) () s₀ () s

/-- The states in front of a section of an element. -/
def SectionAt (elem : ElementDecl) (v : FileState) : Prop :=
  ∃ s elem₀ u, TopRun fs importDirs depth s₀ s ∧ s.cur.kind = .kwElement ∧
    Yields elementHead s (some elem₀) u ∧ Turns (braceTurn parseSection) elem₀ u elem v

/-- The states in which `parseBraceBlock` is called. -/
def BlockAt (w : FileState) : Prop :=
  ∃ elem v ps, SectionAt fs importDirs depth s₀ elem v ∧ Yields blockHead v (some ps) w

/-- The states in which an import opens its file, with the token of its path. -/
def ImportAt (str : Token) (u : FileState) : Prop :=
  ∃ s, TopRun fs importDirs depth s₀ s ∧ s.cur.kind = .kwImport ∧
    Yields importHead s (some str) u

end

/-- What the results below assume of the run from `s₀`. -/
structure Forward (fs : FileSystem) (importDirs : List String) (depth : Nat) (s₀ : FileState) :
    Prop where
  start : s₀.InStep
  seeks : ∀ w, BlockAt fs importDirs (depth + 1) s₀ w → Onward s₀.toState w.toState →
    w.cur.kind = .lBrace → w.SeeksOn
  unread : ∀ str u, ImportAt fs importDirs (depth + 1) s₀ str u → Unread fs importDirs str u

section
variable {fs : FileSystem} {importDirs : List String} {depth : Nat} {s₀ s : FileState}
variable {elem elem' : ElementDecl} {v w t : FileState}

/-- A turn at a state that the run reaches. -/
theorem Forward.turn_moves (h : Forward fs importDirs depth s₀)
    (hs : TopRun fs importDirs (depth + 1) s₀ s) (hon : Onward s₀.toState s.toState) :
    Moves (stmtTurn fs importDirs (parseFile fs importDirs (depth + 1)) ())
      (fun r => ∃ b, r = some (.yield b)) s := by
  refine stmtTurn_moves (fun elem u elem' v ps w hk hhead hturns hblock hw => ?_)
    fun str u hk hhead => ?_
  · exact h.seeks w ⟨elem', v, ps, ⟨s, elem, u, hs, hk, hhead, hturns⟩, hblock⟩ (hon.trans hw)
  · exact h.unread str u ⟨s, hs, hk, hhead⟩

theorem Forward.top_onward (h : Forward fs importDirs depth s₀)
    (hs : TopRun fs importDirs (depth + 1) s₀ s) : Onward s₀.toState s.toState := by
  refine Turns.invariant (fun _ t => Onward s₀.toState t.toState)
    (fun _ t _ u hreach ht hrun => ?_) (.refl h.start) hs
  exact ht.trans ((h.turn_moves hreach ht ht.inStep).post_of_yields hrun).1

/-- The loop over the statements ends. -/
theorem Forward.stmts_finish (h : Forward fs importDirs depth s₀) :
    Finishes (parseStmts fs importDirs (parseFile fs importDirs (depth + 1))) s₀
      fun _ _ => True := by
  refine Finishes.loop (fun _ t => Onward s₀.toState t.toState) (fun t => t.remaining)
    (fun _ t hreach ht => ?_) (.refl h.start)
  refine (h.turn_moves hreach ht ht.inStep).mono fun r u hu => ?_
  match r with
  | some (.yield b) => exact ⟨ht.trans hu.1, hu.2 ⟨b, rfl⟩⟩
  | some (.done _) => trivial
  | none => trivial

/-- A statement that is not the last consumes a token. -/
theorem Forward.stmt_consumes (h : Forward fs importDirs depth s₀)
    (hs : TopRun fs importDirs (depth + 1) s₀ s)
    (hrun : Yields (stmtTurn fs importDirs (parseFile fs importDirs (depth + 1)) ()) s
      (some (.yield ())) t) : Consumes s.toState t.toState := by
  have hon := h.top_onward hs
  have hpost := (h.turn_moves hs hon hon.inStep).post_of_yields hrun
  exact hpost.1.consumes (hpost.2 ⟨(), rfl⟩)

/-- A turn of the loop over the sections, at a state that the run reaches. -/
theorem Forward.section_turn (h : Forward fs importDirs depth s₀)
    (hv : SectionAt fs importDirs (depth + 1) s₀ elem v) (hon : Onward s₀.toState v.toState) :
    Finishes (braceTurn parseSection elem) v fun r t => Lands v.toState r t.toState ∧
      ((∃ b, r = some (.yield b)) → t.remaining < v.remaining) :=
  sectionTurn_finishes hon.inStep fun ps w hblock hw =>
    h.seeks w ⟨elem, v, ps, hv, hblock⟩ (hon.trans hw)

theorem Forward.section_onward (h : Forward fs importDirs depth s₀)
    (hv : SectionAt fs importDirs (depth + 1) s₀ elem v) : Onward s₀.toState v.toState := by
  obtain ⟨s, elem₀, u, hs, hk, hhead, hturns⟩ := hv
  have hon := h.top_onward hs
  have hu := ((elementHead_moves (S := fun _ => True) (by rw [hk]; decide)
    hon.inStep).post_of_yields hhead).1
  refine Turns.invariant (fun _ t => Onward s₀.toState t.toState)
    (fun elem' t elem'' t' hreach ht hrun => ?_) (hon.trans hu) hturns
  have hturn := h.section_turn ⟨s, elem₀, u, hs, hk, hhead, hreach⟩ ht
  exact ht.trans (hturn.post_of_yields hrun).1.onward

theorem Forward.section_consumes (h : Forward fs importDirs depth s₀)
    (hv : SectionAt fs importDirs (depth + 1) s₀ elem v)
    (hrun : Yields (braceTurn parseSection elem) v (some (.yield elem')) t) :
    Consumes v.toState t.toState := by
  have hpost := (h.section_turn hv (h.section_onward hv)).post_of_yields hrun
  exact hpost.1.onward.consumes (hpost.2 ⟨elem', rfl⟩)

theorem Forward.block_onward (h : Forward fs importDirs depth s₀)
    (hw : BlockAt fs importDirs (depth + 1) s₀ w) : Onward s₀.toState w.toState := by
  obtain ⟨elem, v, ps, hv, hhead⟩ := hw
  have hon := h.section_onward hv
  exact hon.trans ((tame_blockHead v hon.inStep).post_of_yields hhead).1

end

/-! ## The whole parser -/

/-- Each turn of the loop ends, and it consumes a token or is the last. -/
def TurnsConsume {β : Type} (body : β → Parse (ForInStep β)) : Prop :=
  ∀ b (s : FileState), s.InStep → Finishes (body b) s fun r t =>
    t.InStep ∧ ((∃ b', r = some (.yield b')) → Consumes s.toState t.toState)

theorem Advancing.turnsConsume {β : Type} {body : β → Parse (ForInStep β)} (h : Advancing body) :
    TurnsConsume body := fun b s hin =>
  (h b s hin).mono fun _ _ ht => ⟨ht.1.inStep, fun hyield => ht.1.consumes (ht.2 hyield)⟩

/-- The loops of the parser that read no blocks. -/
structure LoopsConsume : Prop where
  group : TurnsConsume groupTurn
  groupRecovery : TurnsConsume (skipTurn [.rBrace, .eof, .ident, .kwHost, .kwVerilog])
  stmtRecovery : TurnsConsume (skipTurn [.eof, .kwElement, .kwElementGroup, .kwImport])
  links : ∀ sink, TurnsConsume (linkTurn sink)
  params : ∀ strict, TurnsConsume (paramTurn strict)
  marks : TurnsConsume hostQualifierTurn
  signalParams : TurnsConsume signalParamTurn
  pragmas : TurnsConsume (braceTurn parseHlsPragma)
  timing : TurnsConsume (braceTurn parseTimingEntry)

theorem loopsConsume : LoopsConsume where
  group := groupTurn_advancing.turnsConsume
  groupRecovery := (skipTurn_advancing (by decide)).turnsConsume
  stmtRecovery := (skipTurn_advancing (by decide)).turnsConsume
  links sink := (linkTurn_advancing sink).turnsConsume
  params strict := (paramTurn_advancing strict).turnsConsume
  marks := hostQualifierTurn_advancing.turnsConsume
  signalParams := signalParamTurn_advancing.turnsConsume
  pragmas := (braceTurn_advancing fun b u _ _ => greedy_hlsPragma b u).turnsConsume
  timing := (braceTurn_advancing fun b u _ _ => greedy_timingEntry b u).turnsConsume

theorem inStep_openFile (p : Parser) (path : String) (contents : List Char) :
    (openFile p path contents).InStep :=
  let lx : Lexer :=
    { buf := { path := path, contents := contents }
      fileId := UInt32.ofNat p.buffers.length
      diags := p.diags }
  inStep_advance (s := { lex := lx }) (Nat.zero_le _)

/-- The state in front of the first token of a file that has not been read. -/
def started (fs : FileSystem) (path : String) (p : Parser) (contents : List Char) : FileState :=
  openFile (markSeen fs path p) path contents

section
variable (fs : FileSystem) (importDirs : List String) (depth : Nat) (path : String) (p : Parser)
variable (contents : List Char)

/-- The parser, reading `contents` as the file `path`, ends; its lexer never goes back, and each of
its loops consumes with every turn but the last. -/
structure MovesOn : Prop where
  next : ∀ lx : Lexer, Lexer.Advances lx lx.next
  lexer : Lexer.LoopsEnd
  ends : ∃ r q, Yields (parseFile fs importDirs (depth + 2) path) p r q
  seeks : ∀ w, BlockAt fs importDirs (depth + 1) (started fs path p contents) w →
    w.cur.kind = .lBrace → w.SeeksOn
  inStep : ∀ s, TopRun fs importDirs (depth + 1) (started fs path p contents) s → s.InStep
  statements : ∀ s t, TopRun fs importDirs (depth + 1) (started fs path p contents) s →
    Yields (stmtTurn fs importDirs (parseFile fs importDirs (depth + 1)) ()) s
      (some (.yield ())) t → Consumes s.toState t.toState
  sections : ∀ elem v elem' t,
    SectionAt fs importDirs (depth + 1) (started fs path p contents) elem v →
      Yields (braceTurn parseSection elem) v (some (.yield elem')) t →
        Consumes v.toState t.toState
  loops : LoopsConsume

end

section
variable {fs : FileSystem} {importDirs : List String} {depth : Nat} {path : String} {p : Parser}
variable {contents : List Char}

theorem Forward.movesOn (h : Forward fs importDirs depth (started fs path p contents))
    (hseen : fs.weaklyCanonical path ∉ p.seenFiles) (hread : fs.read path = some contents) :
    MovesOn fs importDirs depth path p contents where
  next := Lexer.next_advances
  lexer := Lexer.loopsEnd
  ends := by
    obtain ⟨r, s', hrun, -⟩ := h.stmts_finish
    exact ⟨_, _, yields_parseFile hseen hread hrun⟩
  seeks w hw := h.seeks w hw (h.block_onward hw)
  inStep _ hs := (h.top_onward hs).inStep
  statements _ _ hs hrun := h.stmt_consumes hs hrun
  sections _ _ _ _ hv hrun := h.section_consumes hv hrun
  loops := loopsConsume

/-- **When the parser moves on**: while no block is read at a brace that ends at offset `2 ^ 32` or
behind it. -/
theorem parseFile_movesOn_iff (hseen : fs.weaklyCanonical path ∉ p.seenFiles)
    (hread : fs.read path = some contents)
    (hunread : ∀ str u, ImportAt fs importDirs (depth + 1) (started fs path p contents) str u →
      Unread fs importDirs str u) :
    MovesOn fs importDirs depth path p contents ↔
      ∀ w, BlockAt fs importDirs (depth + 1) (started fs path p contents) w →
        w.cur.kind = .lBrace → w.lex.pos < 2 ^ 32 := by
  constructor
  · intro h w hw hk
    have hforward : Forward fs importDirs depth (started fs path p contents) :=
      ⟨inStep_openFile _ _ _, fun w hw _ => h.seeks w hw, hunread⟩
    exact (hforward.block_onward hw).inStep.seeksOn_iff.mp (h.seeks w hw hk)
  · intro hnear
    have hforward : Forward fs importDirs depth (started fs path p contents) :=
      ⟨inStep_openFile _ _ _, fun w hw hon hk => hon.inStep.seeksOn_iff.mpr (hnear w hw hk),
        hunread⟩
    exact hforward.movesOn hseen hread

/-- In a file below 4 GiB no block is read behind offset `2 ^ 32`. -/
theorem near_of_length (hlength : contents.length < 2 ^ 32)
    (hunread : ∀ str u, ImportAt fs importDirs (depth + 1) (started fs path p contents) str u →
      Unread fs importDirs str u) {w : FileState}
    (hw : BlockAt fs importDirs (depth + 1) (started fs path p contents) w) :
    w.lex.pos < 2 ^ 32 := by
  have hinside : ∀ v : FileState, Onward (started fs path p contents).toState v.toState →
      v.lex.pos < 2 ^ 32 := by
    intro v hon
    have hbuf : v.lex.src = contents := by
      rw [Lexer.src, hon.buf]
      exact congrArg SourceBuffer.contents Lexer.buf_next
    have hin := hon.inStep.inside
    rw [hbuf] at hin
    omega
  have hforward : Forward fs importDirs depth (started fs path p contents) :=
    ⟨inStep_openFile _ _ _, fun w _ hon _ => hon.inStep.seeksOn_iff.mpr (hinside w hon), hunread⟩
  exact hinside w (hforward.block_onward hw)

end

/-! ## Two files -/

section
open Syntax

/-- A file system with one file; what it imports is found as another path, which cannot be
opened. -/
def loneFile (contents : List Char) : FileSystem where
  weaklyCanonical := id
  isAbsolute := fun _ => false
  isFile := fun _ => true
  parentPath := fun _ => ""
  join := fun _ _ => "lib.clnp"
  read := fun path => if path = "top.clnp" then some contents else none

theorem unread_loneFile (contents : List Char) (str : Token) (u : FileState) :
    Unread (loneFile contents) ["dir"] str u := by
  right
  have hresolved : (loneFile contents).resolveImport ["dir"] u.lex.buf.path str.text = "" ∨
      (loneFile contents).resolveImport ["dir"] u.lex.buf.path str.text = "lib.clnp" := by
    unfold FileSystem.resolveImport
    by_cases htext : str.text = ""
    · exact .inl (by simp [htext])
    · by_cases hpath : u.lex.buf.path = ""
      · exact .inr (by simp [htext, hpath, loneFile])
      · exact .inr (by simp [htext, hpath, loneFile])
  rcases hresolved with h | h <;> rw [h] <;> rfl

/-- An import that fails, a stray byte, and an element that ends in a block. -/
def truncated : List Char :=
  "import \"x\" $ .element E \x7b .init \x7b \x27\x7b\x27 /* ".toList

theorem truncated_movesOn :
    MovesOn (loneFile truncated) ["dir"] 0 "top.clnp" {} truncated :=
  (parseFile_movesOn_iff List.not_mem_nil rfl fun str u _ => unread_loneFile _ str u).mpr
    fun _ hw _ => near_of_length (by decide) (fun str u _ => unread_loneFile _ str u) hw

/-- A `.state` block that is read, and the brace of the `.init` block behind it. -/
theorem reaches_init {u v : State} {s : FileState} {name text : String}
    {ports : Option (Numeral × Numeral)}
    (hreads : u.Reads (.sym .kwElement :: .ident name :: (portsLexemes ports ++
      .sym .lBrace :: ((Section.state text).lexemes ++ [.sym .kwInit]))) v) :
    ∃ elem elem' w w', Yields elementHead (s.at u) (some elem) (s.at w) ∧
      Turns (braceTurn parseSection) elem (s.at w) elem' (s.at w') ∧
        Yields blockHead (s.at w') (some []) (s.at v) := by
  obtain ⟨-, hrest⟩ := reads_sym.mp hreads
  obtain ⟨⟨hname, -⟩, hrest⟩ := reads_ident.mp hrest
  obtain ⟨w, hports, hrest⟩ := reads_append.mp hrest
  obtain ⟨hopen, hrest⟩ := reads_sym.mp hrest
  obtain ⟨w', hstate, hinit⟩ := reads_append.mp hrest
  obtain ⟨hk, hlast⟩ := reads_sym.mp hinit
  obtain rfl := reads_nil.mp hlast
  have hhead : ∃ elem, Yields elementHead (s.at u) (some elem) (s.at w.advance) :=
    ⟨_, yields_cur.bind (yields_advance.bind ((yields_require hname).bind
      ((yields_portCounts hports (by rw [hopen]; decide)).bind
        ((yields_require hopen).bind (.pure _ _)))))⟩
  obtain ⟨elem, hhead⟩ := hhead
  obtain ⟨elem', hrun, -⟩ := yields_section (s := s) (x := .state text) trivial hstate elem
  refine ⟨elem, elem', w.advance, w', hhead, .turn .start (yields_cur.bind (.ite_neg ?_ ?_)), ?_⟩
  · exact not_or.mpr (section_kind hstate)
  · exact hrun.bind (.pure _ _)
  · refine yields_cur.bind ?_
    simp only [hk]
    exact yields_advance.bind (.pure _ _)

/-- 4294967255 blanks, and the parser goes back to the start of the file. -/
theorem parseFile_goes_back : ¬ ∀ (fs : FileSystem) (importDirs : List String) (depth : Nat)
    (path : String) (p : Parser) (contents : List Char), fs.weaklyCanonical path ∉ p.seenFiles →
      fs.read path = some contents →
      (∀ str u, ImportAt fs importDirs (depth + 1) (started fs path p contents) str u →
        Unread fs importDirs str u) → MovesOn fs importDirs depth path p contents := by
  intro h
  have hn : 4294967255 + 41 = 2 ^ 32 := by decide
  generalize 4294967255 = n at hn
  obtain ⟨v, hreads, hkind, hpos, hoffset, -⟩ := reads_front hn (markSeen
    (loneFile (textOf (spread (frontLexemes n ++ [.block "", .sym .rBrace])))) "top.clnp" {})
    "top.clnp"
  generalize textOf (spread (frontLexemes n ++ [.block "", .sym .rBrace])) = contents at hreads
  let s : FileState := started (loneFile contents) "top.clnp" {} contents
  have hreads' : s.toState.Reads (.sym .kwElement :: .ident "E" ::
      (portsLexemes (some (countOf 0, countOf 0)) ++ .sym .lBrace ::
        ((Section.state (String.ofList (List.replicate n ' '))).lexemes ++ [.sym .kwInit]))) v :=
    hreads
  obtain ⟨elem, elem', w, w', hhead, hturns, hblock⟩ := reaches_init (s := s) hreads'
  have hmoves := h (loneFile contents) ["dir"] 0 "top.clnp" {} contents List.not_mem_nil rfl
    fun str u _ => unread_loneFile _ str u
  have hon : v.SeeksOn := hmoves.seeks (s.at v) ⟨elem', s.at w', [], ⟨s, elem, s.at w, .start,
    (reads_sym.mp hreads').1, hhead, hturns⟩, hblock⟩ hkind
  -- back to offset 0
  have hback : (v.lex.seekTo 0).pos = 0 := by
    have hinside : ¬ v.lex.src.length < (0 : UInt32).toNat := Nat.not_lt_zero _
    unfold Lexer.seekTo
    rw [if_neg hinside]
    rfl
  rw [State.SeeksOn, hoffset, hback, hpos] at hon
  omega

end

end Parser

end OpenClickNP
