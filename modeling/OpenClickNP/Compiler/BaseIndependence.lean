import OpenClickNP.Compiler.LiteralFields
import OpenClickNP.Compiler.SideBySide

/-!
# The base of a literal

A module text, and the same text with some of its literals written in another base. The parser takes
a number by its value everywhere but in two places: a parameter of an instance keeps the digits, and
`.timing` reads them again as decimal ones. Where these keep what they say, both texts are accepted
or both refused, and the modules are the same (`base_independent`).
-/

namespace OpenClickNP

namespace Parser

open Ast Production Syntax

/-! ## Files -/

section
variable {fs fs' : FileSystem} {importDirs : List String} {file path : String}
variable {parseFile parseFile' : String → Production Parser Module} {contents contents' : List Char}

theorem faulty_openFile {p : Parser} (h : FaultyFiles p) : Faulty (openFile p path contents) := by
  let lx : Lexer := {
    buf := { path := path, contents := contents }
    fileId := UInt32.ofNat p.buffers.length
    diags := p.diags }
  show lx.next.2.diags.hasError = true
  by_cases hkind : lx.next.1.kind = .error
  · exact (Lexer.complains_next lx).loud hkind
  · rw [(Lexer.complains_next lx).quiet hkind]
    exact h

/-- A file that is opened on both sides. -/
theorem paired_openFile {p p' : Parser} (hfiles : PairedFiles file p p')
    (hsame : Respelled (openFile p path contents).toState (openFile p' path contents').toState)
    (hclean : ¬ Faulty (openFile p path contents)) :
    Paired (openFile p path contents).toState (openFile p' path contents').toState file []
      (openFile p path contents) (openFile p' path contents') := by
  have hkind : (openFile p path contents).cur.kind ≠ .error := kind_ne_error hclean
  have hkind' : (openFile p' path contents').cur.kind ≠ .error :=
    (hsame.tokens _ _ _ .start).kind ▸ hkind
  exact {
    walk := .start
    clean := clean_next hfiles.clean hkind
    clean' := clean_next hfiles.clean' hkind'
    path := by
      show (Lexer.next _).2.buf.path = (Lexer.next _).2.buf.path
      rw [Lexer.buf_next, Lexer.buf_next]
    stmts := .nil
    body := .nil
    buffers := by
      show (p.buffers ++ [_]).length = (p'.buffers ++ [_]).length
      rw [List.length_append, List.length_append, hfiles.buffers]
      rfl
    seenFiles := hfiles.seenFiles
    opened := hfiles.opened }

/-- The statements of a file that is opened by the parsers that `R` relates. -/
theorem mirrors_parseBuffer {R : Parser → Parser → Prop} (hnames : SameNames fs fs')
    (hfile : ∀ path, Mirrors FaultyFiles (PairedFiles file) (parseFile path) (parseFile' path)
      likeModule fun _ => PairedFiles file)
    (hR : ∀ p p', R p p' → PairedFiles file p p' ∧
      Respelled (openFile p path contents).toState (openFile p' path contents').toState ∧
      SpelledAlike (openFile p path contents).toState (openFile p' path contents').toState) :
    Mirrors FaultyFiles R (parseBuffer fs importDirs parseFile path contents)
      (parseBuffer fs' importDirs parseFile' path contents') likeModule
      fun _ => PairedFiles file := by
  have hstmts : ∀ u₀ u₀' : State, Respelled u₀ u₀' → SpelledAlike u₀ u₀' →
      Mirrored u₀ u₀' file anywhere (parseStmts fs importDirs parseFile)
        (parseStmts fs' importDirs parseFile') .any fun _ => anywhere :=
    fun _ _ hsame halike => mirrored_stmts hsame halike hnames hfile
  have hrun : ∀ {n p r q}, parseBuffer fs importDirs parseFile path contents n p = some (r, q) →
      ∃ o s, parseStmts fs importDirs parseFile n (openFile p path contents) = some (o, s) ∧
        r = some { fileId := s.lex.fileId, stmts := s.stmts } ∧ q = s.parser := by
    intro n p r q hrun
    unfold parseBuffer at hrun
    cases hstmts : parseStmts fs importDirs parseFile n (openFile p path contents) with
    | none =>
      rw [hstmts] at hrun
      cases hrun
    | some out =>
      rw [hstmts] at hrun
      cases hrun
      exact ⟨out.1, out.2, rfl, rfl, rfl⟩
  refine ⟨⟨fun n p r q hrun' hp => ?_, fun n p q hrun' => ?_⟩, fun n p p' m q hp hrun' hq => ?_⟩
  · obtain ⟨o, s, hbody, -, rfl⟩ := hrun hrun'
    exact (hstmts (openFile p path contents).toState _ (.refl _) (.refl _)).keeps n _ o s hbody
      (faulty_openFile hp)
  · obtain ⟨o, s, -, hnone, -⟩ := hrun hrun'
    cases hnone
  · obtain ⟨o, s, hbody, hm, rfl⟩ := hrun hrun'
    cases hm
    obtain ⟨hfiles, hsame, halike⟩ := hR p p' hp
    have hmirror := hstmts _ _ hsame halike
    have hclean : ¬ Faulty (openFile p path contents) := fun hbad =>
      hq (hmirror.keeps n _ o s hbody hbad)
    cases o with
    | none => exact absurd (hmirror.fails n _ s hbody) hq
    | some a =>
      obtain ⟨a', s', hbody', -, h, -, hpair⟩ := hmirror.mirror n _ _ a s
        ⟨[], trivial, paired_openFile hfiles hsame hclean⟩ hbody hq
      refine ⟨{ fileId := s'.lex.fileId, stmts := s'.stmts }, s'.parser, ?_, hpair.stmts,
        ⟨hpair.buffers, hpair.seenFiles, hpair.opened, hpair.clean, hpair.clean'⟩⟩
      unfold parseBuffer
      rw [hbody']

/-! ## What `parseFile` does -/

/-- A run of `parseFile` skips a file that has been read, or it cannot open the file, or it reads
the text. -/
theorem parseFile_cases {depth n : Nat} {p q : Parser} {r : Option Module}
    (hrun : Parser.parseFile fs importDirs (depth + 1) path n p = some (r, q)) :
    (fs.weaklyCanonical path ∈ p.seenFiles ∧ r = some { stmts := [] } ∧ q = p) ∨
      r = none ∧ FaultyFiles q ∨
      ∃ contents, fs.weaklyCanonical path ∉ p.seenFiles ∧ fs.read path = some contents ∧
        parseBuffer fs importDirs (Parser.parseFile fs importDirs depth) path contents n
          (markSeen fs path p) = some (r, q) := by
  by_cases hseen : fs.weaklyCanonical path ∈ p.seenFiles
  · rw [parseFile_of_seen hseen] at hrun
    cases hrun
    exact Or.inl ⟨hseen, rfl, rfl⟩
  · cases hread : fs.read path with
    | none =>
      rw [parseFile_of_missing hseen hread] at hrun
      cases hrun
      exact Or.inr (Or.inl ⟨rfl, DiagnosticEngine.hasError_error _ _ _⟩)
    | some contents =>
      rw [parseFile_of_new hseen hread] at hrun
      exact Or.inr (Or.inr ⟨contents, hseen, rfl, hrun⟩)

theorem reports_parseFile {depth : Nat}
    (hbuffer : ∀ contents, Reports FaultyFiles
      (parseBuffer fs importDirs (Parser.parseFile fs importDirs depth) path contents)) :
    Reports FaultyFiles (Parser.parseFile fs importDirs (depth + 1) path) where
  keeps n p r q hrun hp := by
    rcases parseFile_cases hrun with ⟨-, -, rfl⟩ | ⟨-, hfaulty⟩ | ⟨contents, -, -, hrun'⟩
    · exact hp
    · exact hfaulty
    · exact (hbuffer contents).keeps n _ r q hrun' hp
  fails n p q hrun := by
    rcases parseFile_cases hrun with ⟨-, hnone, -⟩ | ⟨-, hfaulty⟩ | ⟨contents, -, -, hrun'⟩
    · cases hnone
    · exact hfaulty
    · exact (hbuffer contents).fails n _ q hrun'

theorem paired_markSeen (hnames : SameNames fs fs') {p p' : Parser}
    (hfiles : PairedFiles file p p') :
    PairedFiles file (markSeen fs path p) (markSeen fs' path p') where
  buffers := hfiles.buffers
  seenFiles := by
    show p.seenFiles ++ [fs.weaklyCanonical path] = p'.seenFiles ++ [fs'.weaklyCanonical path]
    rw [hfiles.seenFiles, hnames]
  opened := List.mem_append_left _ hfiles.opened
  clean := hfiles.clean
  clean' := hfiles.clean'

/-- A module that is read from a file, and its imports; only the text of `file` differs. Induction
on the bound on the open files. -/
theorem mirrors_parseFile (hnames : SameNames fs fs')
    (hreads : ∀ path, fs.weaklyCanonical path ≠ file → fs'.read path = fs.read path)
    (depth : Nat) (path : String) :
    Mirrors FaultyFiles (PairedFiles file) (Parser.parseFile fs importDirs depth path)
      (Parser.parseFile fs' importDirs depth path) likeModule fun _ => PairedFiles file := by
  induction depth generalizing path with
  | zero => exact ⟨.endless fun _ _ => rfl, fun _ _ _ _ _ _ hrun _ => by cases hrun⟩
  | succ depth ih =>
    have hbuffer : ∀ contents, Mirrors FaultyFiles (PairedFiles file)
        (parseBuffer fs importDirs (Parser.parseFile fs importDirs depth) path contents)
        (parseBuffer fs' importDirs (Parser.parseFile fs' importDirs depth) path contents)
        likeModule fun _ => PairedFiles file := by
      intro contents
      refine mirrors_parseBuffer hnames ih fun p p' hfiles => ?_
      have hstate : (openFile p path contents).toState = (openFile p' path contents).toState := by
        simp only [openFile, hfiles.buffers, hfiles.clean, hfiles.clean']
      rw [hstate]
      exact ⟨hfiles, .refl _, .refl _⟩
    refine ⟨reports_parseFile fun contents => (hbuffer contents).toReports,
      fun n p p' m q hfiles hrun hq => ?_⟩
    have hseen' : fs'.weaklyCanonical path ∈ p'.seenFiles ↔
        fs.weaklyCanonical path ∈ p.seenFiles := by rw [hnames, hfiles.seenFiles]
    rcases parseFile_cases hrun with ⟨hseen, hm, rfl⟩ | ⟨hnone, -⟩ | ⟨contents, hnew, hread, hrun'⟩
    · cases hm
      exact ⟨_, p', parseFile_of_seen (hseen'.mpr hseen), likeModule.refl _, hfiles⟩
    · cases hnone
    · -- `file` has been opened before, so the text that is read here is the same
      have hread' : fs'.read path = some contents := by
        rw [hreads path fun heq => hnew (heq ▸ hfiles.opened), hread]
      rw [parseFile_of_new (fun hseen => hnew (hseen'.mp hseen)) hread']
      exact (hbuffer contents).mirror n _ _ m q (paired_markSeen hnames hfiles) hrun' hq

end

/-! ## Two parses -/

/-- The parser accepts the text of `path` and makes `m` of it. -/
def ParsesTo (fs : FileSystem) (importDirs : List String) (depth turns : Nat) (path : String)
    (m : Module) : Prop :=
  ∃ p, parseFile fs importDirs depth path turns {} = some (some m, p) ∧ p.diags.hasError = false

/-- Both are accepted or neither is, and they are parsed to the same but for source positions. -/
structure SameParse (fs fs' : FileSystem) (importDirs : List String) (depth turns : Nat)
    (path : String) : Prop where
  outcome : (∃ m, ParsesTo fs importDirs depth turns path m) ↔
    ∃ m, ParsesTo fs' importDirs depth turns path m
  trees : ∀ m m', ParsesTo fs importDirs depth turns path m →
    ParsesTo fs' importDirs depth turns path m' → m.Alike m'

section
variable {fs : FileSystem} {importDirs : List String} {path : String}
variable {contents contents' : List Char}

/-- The same files, with another text in one of them. -/
def withText (fs : FileSystem) (path : String) (contents : List Char) : FileSystem :=
  { fs with read := fun q => if q = path then some contents else fs.read q }

/-- What is accepted of the first text is accepted of the second. -/
theorem accepts_of_respelled {depth turns : Nat} {m : Module}
    (hsame : Respelled (openFile {} path contents).toState (openFile {} path contents').toState)
    (halike : SpelledAlike (openFile {} path contents).toState
      (openFile {} path contents').toState)
    (h : ParsesTo (withText fs path contents) importDirs depth turns path m) :
    ∃ m', ParsesTo (withText fs path contents') importDirs depth turns path m' ∧ m.Alike m' := by
  obtain ⟨p, hrun, hclean⟩ := h
  cases depth with
  | zero => cases hrun
  | succ depth =>
    have hread : ∀ text, (withText fs path text).read path = some text := fun _ => if_pos rfl
    have hnames : SameNames (withText fs path contents) (withText fs path contents') := rfl
    have hreads : ∀ q, (withText fs path contents).weaklyCanonical q ≠ fs.weaklyCanonical path →
        (withText fs path contents').read q = (withText fs path contents).read q := by
      intro q hq
      have hne : q ≠ path := fun heq => hq (heq ▸ rfl)
      show (if q = path then _ else _) = if q = path then _ else _
      rw [if_neg hne, if_neg hne]
    rw [parseFile_of_new List.not_mem_nil (hread contents)] at hrun
    have hmirror : Mirrors FaultyFiles
        (fun p p' => p = markSeen fs path {} ∧ p' = markSeen fs path {})
        (parseBuffer (withText fs path contents) importDirs
          (parseFile (withText fs path contents) importDirs depth) path contents)
        (parseBuffer (withText fs path contents') importDirs
          (parseFile (withText fs path contents') importDirs depth) path contents') likeModule
        fun _ => PairedFiles (fs.weaklyCanonical path) := by
      refine mirrors_parseBuffer hnames (mirrors_parseFile hnames hreads depth) ?_
      rintro p p' ⟨rfl, rfl⟩
      exact ⟨⟨rfl, rfl, List.mem_singleton_self _, rfl, rfl⟩, hsame, halike⟩
    obtain ⟨m', p', hrun', hlike, hfiles⟩ := hmirror.mirror turns _ _ m p ⟨rfl, rfl⟩ hrun
      (by simp [FaultyFiles, hclean])
    refine ⟨m', ⟨p', ?_, ?_⟩, hlike⟩
    · rw [parseFile_of_new List.not_mem_nil (hread contents')]
      exact hrun'
    · rw [hfiles.clean']
      rfl

/-- **Two parses.** -/
theorem sameParse_of_spelledAlike (depth turns : Nat)
    (hsame : Respelled (openFile {} path contents).toState (openFile {} path contents').toState)
    (halike : SpelledAlike (openFile {} path contents).toState
      (openFile {} path contents').toState) :
    SameParse (withText fs path contents) (withText fs path contents') importDirs depth turns
      path where
  outcome := by
    constructor
    · rintro ⟨m, hm⟩
      obtain ⟨m', hm', -⟩ := accepts_of_respelled hsame halike hm
      exact ⟨m', hm'⟩
    · -- the same with the texts exchanged
      rintro ⟨m, hm⟩
      obtain ⟨m', hm', -⟩ := accepts_of_respelled hsame.symm (halike.symm hsame) hm
      exact ⟨m', hm'⟩
  trees := by
    intro m m' hm hm'
    obtain ⟨m'', ⟨p, hrun, -⟩, hlike⟩ := accepts_of_respelled hsame halike hm
    obtain ⟨p', hrun', -⟩ := hm'
    rw [hrun] at hrun'
    cases hrun'
    exact hlike

end

/-! ## The two places -/

section
variable {s s' : FileState} {v v' : State}

/-- Argument lists that differ in the spelling of literals. -/
structure ArgsRespelled (a a' : Args) : Prop where
  nIn : a.nIn.value = a'.nIn.value
  nOut : a.nOut.value = a'.nOut.value
  depth : a.depth.map Numeral.value = a'.depth.map Numeral.value

/-- The arguments of an instance come out the same exactly when the parameters have the same
digits. -/
theorem args_same_iff (strict : Bool) {a a' : Args} (hvalues : ArgsRespelled a a')
    (hreads : s.toState.Reads a.lexemes v) (hreads' : s'.toState.Reads a'.lexemes v') :
    ∃ r r', Yields (parseArgs strict) s (some r) (s.at v) ∧
      Yields (parseArgs strict) s' (some r') (s'.at v') ∧
      (r.bare = r'.bare ↔ a.params.map Param.value = a'.params.map Param.value) := by
  obtain ⟨params, hrun, hparams⟩ := yields_args (s := s) strict hreads
  obtain ⟨params', hrun', hparams'⟩ := yields_args (s := s') strict hreads'
  have hdepth : a.channelDepth = a'.channelDepth := by
    have hcast : ∀ d : Option Numeral, (d.map fun n => castInt n.value).getD 64
        = ((d.map Numeral.value).map castInt).getD 64 := by
      intro d
      rw [Option.map_map]
      rfl
    rw [Args.channelDepth, Args.channelDepth, hcast, hcast, hvalues.depth]
  refine ⟨_, _, hrun, hrun', ?_⟩
  simp only [InstanceArgs.bare, hparams, hparams', hvalues.nIn, hvalues.nOut, hdepth,
    InstanceArgs.mk.injEq, true_and]

/-- An entry of `.timing` comes out the same exactly when the digits do, read in decimal. -/
theorem timing_same_iff {n n' : Numeral}
    (hreads : s.toState.Reads (Field.ii.before ++ .number n :: Field.ii.after) v)
    (hreads' : s'.toState.Reads (Field.ii.before ++ .number n' :: Field.ii.after) v') :
    ∃ r r' t t', Yields (parseTimingEntry 0) s r t ∧ Yields (parseTimingEntry 0) s' r' t' ∧
      (r = r' ↔ timingIi n.text = timingIi n'.text) := by
  have hentry : ∀ {s : FileState} {v : State} {n : Numeral},
      s.toState.Reads (Field.ii.before ++ .number n :: Field.ii.after) v →
        ∃ t, Yields (parseTimingEntry 0) s (timingIi n.text) t := by
    intro s v n hreads
    cases hii : timingIi n.text with
    | some ii =>
      obtain ⟨hstoi, hin⟩ := timingIi_eq.mp hii
      exact ⟨_, yields_timingEntry hstoi (by omega) hreads⟩
    | none =>
      obtain ⟨t, hrun, -⟩ := refuses_timingEntry (fun ii hstoi hin => by
        rw [timingIi_eq.mpr ⟨hstoi, by omega⟩] at hii
        cases hii) hreads
      exact ⟨t, hrun⟩
  obtain ⟨t, hrun⟩ := hentry hreads
  obtain ⟨t', hrun'⟩ := hentry hreads'
  exact ⟨_, _, t, t', hrun, hrun', Iff.rfl⟩

end

/-! ## Texts without blocks -/

/-- The state `i` tokens on. -/
def State.after (u : State) : Nat → State
  | 0 => u
  | i + 1 => (u.after i).advance

/-- The kinds of the first `i` tokens, the last one first. -/
def State.kinds (u : State) : Nat → List Tok
  | 0 => []
  | i + 1 => (u.after i).cur.kind :: u.kinds i

section
variable {u₀ u₀' u u' : State} {n : Nat} {h : List Tok}

/-- Without a brace up to the end, the walk goes from token to token. -/
theorem along_tokens (hbrace : ∀ i ≤ n, (u₀.after i).cur.kind ≠ .lBrace)
    (hend : (u₀.after n).cur.kind = .eof) (hwalk : Along u₀ u₀' h u u') :
    ∃ i ≤ n, u = u₀.after i ∧ u' = u₀'.after i ∧ h = u₀.kinds i := by
  induction hwalk with
  | start => exact ⟨0, Nat.zero_le n, rfl, rfl, rfl⟩
  | token _ hmore _ ih =>
    obtain ⟨i, hi, rfl, rfl, rfl⟩ := ih
    -- the walk does not go on from the end
    have hlt : i < n := Nat.lt_of_le_of_ne hi fun heq => hmore (heq ▸ hend)
    exact ⟨i + 1, hlt, rfl, rfl, rfl⟩
  | block _ _ hread _ ih =>
    obtain ⟨i, hi, rfl, -, -⟩ := ih
    exact absurd (braceBlock_some hread).1 (hbrace i hi)

/-- Two such texts whose tokens are the same but for one literal. -/
theorem respelled_tokens (m : Nat) (l l' : Literal) (hvalue : l.value = l'.value)
    (hbrace : ∀ i ≤ n, (u₀.after i).cur.kind ≠ .lBrace) (hend : (u₀.after n).cur.kind = .eof)
    (hl : (u₀.after m).cur.Matches (.number l.numeral))
    (hl' : (u₀'.after m).cur.Matches (.number l'.numeral))
    (hsame : ∀ i ≤ n, i ≠ m → (u₀.after i).cur.kind = (u₀'.after i).cur.kind ∧
      (u₀.after i).cur.text = (u₀'.after i).cur.text ∧
      (u₀.after i).cur.intValue = (u₀'.after i).cur.intValue) : Respelled u₀ u₀' := by
  have htokens : ∀ i ≤ n, Respells (u₀.after i).cur (u₀'.after i).cur := by
    intro i hi
    by_cases him : i = m
    · subst him
      exact .inr ⟨l, l', hvalue, hl, hl'⟩
    · exact .inl (hsame i hi him)
  refine ⟨fun h u u' hwalk => ?_, fun h u u' hwalk _ => ?_⟩
  · obtain ⟨i, hi, rfl, rfl, -⟩ := along_tokens hbrace hend hwalk
    exact htokens i hi
  · obtain ⟨i, hi, rfl, rfl, -⟩ := along_tokens hbrace hend hwalk
    have hne := hbrace i hi
    have hne' : (u₀'.after i).cur.kind ≠ .lBrace := (htokens i hi).kind ▸ hne
    rw [State.braceBlock, if_pos hne, State.braceBlock, if_pos hne']

theorem spelledAlike_tokens (hbrace : ∀ i ≤ n, (u₀.after i).cur.kind ≠ .lBrace)
    (hend : (u₀.after n).cur.kind = .eof)
    (htiming : ∀ i ≤ n, iiNext (u₀.kinds i) = true → (u₀.after i).cur.kind = .integer →
      timingIi (u₀.after i).cur.text = timingIi (u₀'.after i).cur.text)
    (hparams : ∀ i ≤ n, paramNext (u₀.kinds i) = true → (u₀.after i).cur.kind = .integer →
      (u₀.after i).cur.text = (u₀'.after i).cur.text) : SpelledAlike u₀ u₀' where
  timing h u u' hwalk hnext hkind := by
    obtain ⟨i, hi, rfl, rfl, rfl⟩ := along_tokens hbrace hend hwalk
    exact htiming i hi hnext hkind
  params h u u' hwalk hnext hkind := by
    obtain ⟨i, hi, rfl, rfl, rfl⟩ := along_tokens hbrace hend hwalk
    exact hparams i hi hnext hkind

end

/-! ## The base of a literal -/

/-- **The base of a literal.** Where every parameter keeps its digits and every initiation interval
is read as the same number, a text and its respelling have the same parse; and at these two places
what comes out is the same only then. -/
theorem base_independent (fs : FileSystem) (importDirs : List String) (path : String)
    (contents contents' : List Char) (depth turns : Nat) (strict : Bool) (a a' : Args)
    (n n' : Numeral) (s s' : FileState) (v v' : State) :
    (Respelled (openFile {} path contents).toState (openFile {} path contents').toState →
      SpelledAlike (openFile {} path contents).toState (openFile {} path contents').toState →
      SameParse (withText fs path contents) (withText fs path contents') importDirs depth turns
        path) ∧
    (ArgsRespelled a a' → s.toState.Reads a.lexemes v → s'.toState.Reads a'.lexemes v' →
      ∃ r r', Yields (parseArgs strict) s (some r) (s.at v) ∧
        Yields (parseArgs strict) s' (some r') (s'.at v') ∧
        (r.bare = r'.bare ↔ a.params.map Param.value = a'.params.map Param.value)) ∧
    (s.toState.Reads (Field.ii.before ++ .number n :: Field.ii.after) v →
      s'.toState.Reads (Field.ii.before ++ .number n' :: Field.ii.after) v' →
      ∃ r r' t t', Yields (parseTimingEntry 0) s r t ∧ Yields (parseTimingEntry 0) s' r' t' ∧
        (r = r' ↔ timingIi n.text = timingIi n'.text)) :=
  ⟨sameParse_of_spelledAlike depth turns, args_same_iff strict, timing_same_iff⟩

/-- Sixteen in decimal, and in hexadecimal. -/
def literalSixteen : Literal where
  radix := .decimal
  digits := ['1', '6']
  nonempty := by decide
  valid := by decide
  unmarked := by decide

def literalHexSixteen : Literal where
  radix := .hex false
  digits := ['1', '0']
  nonempty := by decide
  valid := by decide
  unmarked := by decide

/-- Two spellings of a depth. -/
def decimalDepth : List Char := "E :: a (1, 1*16, 5)".toList

def hexDepth : List Char := "E :: a (0x1, 01*0x10, 0x5)".toList

/-- Two spellings of a parameter. -/
def decimalParam : List Char := "E :: a (1, 1, 16)".toList

def hexParam : List Char := "E :: a (1, 1, 0x10)".toList

/-- The arguments `(1, 1, 5)`. -/
def argsFive : Args where
  nIn := { text := "1", value := 1 }
  nOut := { text := "1", value := 1 }
  params := [.number { text := "5", value := 5 }]

theorem base_independent_depth :
    SameParse (withText (loneFile []) "top.clnp" decimalDepth)
      (withText (loneFile []) "top.clnp" hexDepth) [] 1 40 "top.clnp" ∧
    (∃ s v r r', Yields (parseArgs true) s (some r) (s.at v) ∧
      Yields (parseArgs true) s (some r') (s.at v) ∧
      (r.bare = r'.bare ↔ argsFive.params.map Param.value = argsFive.params.map Param.value)) ∧
    ∃ s r r' t t', Yields (parseTimingEntry 0) s r t ∧ Yields (parseTimingEntry 0) s r' t' ∧
      (r = r' ↔ timingIi "16" = timingIi "16") := by
  have hsame : Respelled (openFile {} "top.clnp" decimalDepth).toState
      (openFile {} "top.clnp" hexDepth).toState :=
    respelled_tokens (n := 12) 8 literalSixteen literalHexSixteen (by decide) (by decide +kernel)
      (by decide +kernel) (by decide +kernel) (by decide +kernel) (by decide +kernel)
  have halike : SpelledAlike (openFile {} "top.clnp" decimalDepth).toState
      (openFile {} "top.clnp" hexDepth).toState :=
    spelledAlike_tokens (n := 12) (by decide +kernel) (by decide +kernel) (by decide +kernel)
      (by decide +kernel)
  obtain ⟨v, hargs, -⟩ := openFile_spread argsFive.lexemes {} "" (by decide)
  obtain ⟨w, htiming, -⟩ := openFile_spread
    (Field.ii.before ++ .number { text := "16", value := 16 } :: Field.ii.after) {} "" (by decide)
  obtain ⟨hparse, hargs', -⟩ := base_independent (loneFile []) [] "top.clnp" decimalDepth hexDepth
    1 40 true argsFive argsFive { text := "16", value := 16 } { text := "16", value := 16 } _ _ v v
  obtain ⟨-, -, htiming'⟩ := base_independent (loneFile []) [] "top.clnp" decimalDepth hexDepth
    1 40 true argsFive argsFive { text := "16", value := 16 } { text := "16", value := 16 } _ _ w w
  exact ⟨hparse hsame halike, ⟨_, v, hargs' ⟨rfl, rfl, rfl⟩ hargs hargs⟩, _,
    htiming' htiming htiming⟩

/-- The numbers and strings that are given to an instance. -/
def paramTexts : TopStmt → List String
  | .instanceDecl d => d.params.map InstanceParam.text
  | _ => []

theorem paramTexts_eq {x x' : TopStmt} (h : x.Alike x') : paramTexts x = paramTexts x' := by
  cases h with
  | importDecl _ => rfl
  | elementDecl _ => rfl
  | elementGroupDecl _ => rfl
  | ofGroup h =>
    cases h with
    | connectionDecl _ _ _ => rfl
    | instanceDecl h =>
      have hparams := congrArg (fun d => d.params.map InstanceParam.text) h.rest
      simp only [InstanceDecl.bare, List.map_map] at hparams
      exact hparams

theorem map_paramTexts {xs xs' : List TopStmt} (h : List.Forall₂ TopStmt.Alike xs xs') :
    xs.map paramTexts = xs'.map paramTexts := by
  induction h with
  | nil => rfl
  | cons hx _ ih => rw [List.map_cons, List.map_cons, paramTexts_eq hx, ih]

/-- What the parser makes of the parameters of a text. -/
def parsedParams (contents : List Char) : Option (Option (List (List String)) × Bool) :=
  (parseFile (withText (loneFile []) "top.clnp" contents) [] 1 "top.clnp" 40 {}).map fun x =>
    (x.1.map fun m => m.stmts.map paramTexts, x.2.diags.hasError)

theorem parsesTo_of_parsedParams {contents : List Char} {texts : List (List String)}
    (h : parsedParams contents = some (some texts, false)) :
    ∃ m, ParsesTo (withText (loneFile []) "top.clnp" contents) [] 1 40 "top.clnp" m ∧
      m.stmts.map paramTexts = texts := by
  obtain ⟨⟨r, p⟩, hrun, heq⟩ := Option.map_eq_some_iff.mp h
  obtain ⟨hr, hclean⟩ := Prod.mk.inj heq
  obtain ⟨m, rfl, htexts⟩ := Option.map_eq_some_iff.mp hr
  exact ⟨m, ⟨p, hrun, hclean⟩, htexts⟩

/-- The parameter is 16 in the one text and 10 in the other. -/
theorem base_changes_parameter : ¬ ∀ (fs : FileSystem) (importDirs : List String) (path : String)
    (contents contents' : List Char) (depth turns : Nat),
    Respelled (openFile {} path contents).toState (openFile {} path contents').toState →
    SameParse (withText fs path contents) (withText fs path contents') importDirs depth turns
      path := by
  intro h
  have hsame : Respelled (openFile {} "top.clnp" decimalParam).toState
      (openFile {} "top.clnp" hexParam).toState :=
    respelled_tokens (n := 10) 8 literalSixteen literalHexSixteen (by decide) (by decide +kernel)
      (by decide +kernel) (by decide +kernel) (by decide +kernel) (by decide +kernel)
  have hparse := h (loneFile []) [] "top.clnp" decimalParam hexParam 1 40 hsame
  obtain ⟨m, hm, htexts⟩ := parsesTo_of_parsedParams
    (show parsedParams decimalParam = some (some [["16"]], false) by decide +kernel)
  obtain ⟨m', hm', htexts'⟩ := parsesTo_of_parsedParams
    (show parsedParams hexParam = some (some [["10"]], false) by decide +kernel)
  have hlike : List.Forall₂ TopStmt.Alike m.stmts m'.stmts := hparse.trees m m' hm hm'
  have heq := map_paramTexts hlike
  rw [htexts, htexts'] at heq
  exact absurd heq (by decide)

end Parser

end OpenClickNP
