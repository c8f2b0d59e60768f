import OpenClickNP.Compiler.Respelling
import OpenClickNP.Lib.Mirroring

/-!
# Two texts side by side

The parser on two texts that differ in how literals are written. Where the literals that it reads
digit by digit are spelled alike, every production that reads the one text without an error does the
same on the other, and what it gives is the same up to source positions.
-/

namespace OpenClickNP

/-! ## Syntax trees up to positions -/

namespace Ast

/-- The same name, or the names made up for an inline instance at two places. -/
inductive NameAlike : String → String → Prop
  | same (x : String) : NameAlike x x
  | anon (type : String) (loc loc' : SourceLoc) :
    NameAlike (Parser.anonName type loc) (Parser.anonName type loc')

structure InstanceDecl.Alike (d d' : InstanceDecl) : Prop where
  name : NameAlike d.name d'.name
  written : d.anonymous = false → d.name = d'.name
  rest : { d.bare with name := "" } = { d'.bare with name := "" }

structure ConnEnd.Alike (e e' : ConnEnd) : Prop where
  nodeName : NameAlike e.nodeName e'.nodeName
  range : e.range.bare = e'.range.bare

inductive GroupStmt.Alike : GroupStmt → GroupStmt → Prop
  | instanceDecl {d d' : InstanceDecl} (h : d.Alike d') : Alike (.instanceDecl d) (.instanceDecl d')
  | connectionDecl {x x' : ConnectionDecl} (hsource : x.source.Alike x'.source)
    (hdest : x.dest.Alike x'.dest) (hlossy : x.lossy = x'.lossy) :
    Alike (.connectionDecl x) (.connectionDecl x')

structure ElementGroupDecl.Alike (g g' : ElementGroupDecl) : Prop where
  name : g.name = g'.name
  ports : (g.nInPorts, g.nOutPorts) = (g'.nInPorts, g'.nOutPorts)
  body : List.Forall₂ GroupStmt.Alike g.body g'.body

inductive TopStmt.Alike : TopStmt → TopStmt → Prop
  | importDecl {d d' : ImportDecl} (h : d.path = d'.path) : Alike (.importDecl d) (.importDecl d')
  | elementDecl {e e' : ElementDecl} (h : e.bare = e'.bare) :
    Alike (.elementDecl e) (.elementDecl e')
  | elementGroupDecl {g g' : ElementGroupDecl} (h : g.Alike g') :
    Alike (.elementGroupDecl g) (.elementGroupDecl g')
  | ofGroup {x x' : GroupStmt} (h : x.Alike x') : Alike (Parser.topOf x) (Parser.topOf x')

/-- The same module, but for source positions and for the names that are made up from them. -/
def Module.Alike (m m' : Module) : Prop := List.Forall₂ TopStmt.Alike m.stmts m'.stmts

theorem ConnEnd.Alike.refl (e : ConnEnd) : e.Alike e := ⟨.same _, rfl⟩

theorem GroupStmt.Alike.refl (x : GroupStmt) : x.Alike x := by
  cases x with
  | instanceDecl d => exact .instanceDecl ⟨.same _, fun _ => rfl, rfl⟩
  | connectionDecl x => exact .connectionDecl (.refl _) (.refl _) rfl

theorem TopStmt.Alike.refl (x : TopStmt) : x.Alike x := by
  cases x with
  | importDecl d => exact .importDecl rfl
  | elementDecl e => exact .elementDecl rfl
  | elementGroupDecl g =>
    exact .elementGroupDecl ⟨rfl, rfl, List.forall₂_same.mpr fun x _ => .refl x⟩
  | instanceDecl d => exact .ofGroup (x := .instanceDecl d) (.refl _)
  | connectionDecl x => exact .ofGroup (x := .connectionDecl x) (.refl _)

end Ast

namespace Parser

open Ast Production

/-- What is left of arguments without source ranges. -/
def InstanceArgs.bare (a : InstanceArgs) : InstanceArgs :=
  { a with params := a.params.map InstanceParam.bare }

/-- Tokens of one kind that stand for the same. -/
structure TokenAlike (t t' : Token) : Prop where
  kind : t.kind = t'.kind
  text : t.kind ≠ .integer → t.text = t'.text
  value : t.intValue = t'.intValue

theorem Respells.alike {t t' : Token} (h : Respells t t') : TokenAlike t t' :=
  ⟨h.kind, h.text, h.value⟩

/-! ### Likenesses -/

def likeToken : Likeness Token := ⟨TokenAlike, fun _ => ⟨rfl, fun _ => rfl, rfl⟩⟩

/-- With the same text, whatever the kind. -/
def likeText : Likeness Token := .of fun t => (t.kind, t.text)

def likeName : Likeness String := ⟨NameAlike, .same⟩

def likeEnd : Likeness ConnEnd := ⟨ConnEnd.Alike, .refl⟩

def likeBody : Likeness (List GroupStmt) :=
  ⟨List.Forall₂ GroupStmt.Alike, fun _ => List.forall₂_same.mpr fun x _ => .refl x⟩

def likeModule : Likeness Module :=
  ⟨Module.Alike, fun _ => List.forall₂_same.mpr fun x _ => .refl x⟩

/-- Equal values. -/
def likeSame {α : Type} : Likeness α := .of id

/-! ## Paired states -/

/-- An error has been reported. -/
def Faulty (s : FileState) : Prop := s.lex.diags.hasError = true

/-- The parser is at the same place of the two texts, without an error so far, and has pushed the
same. The file `file` has been opened. -/
structure Paired (u₀ u₀' : State) (file : String) (h : List Tok) (s s' : FileState) : Prop where
  walk : Along u₀ u₀' h s.toState s'.toState
  clean : s.lex.diags = {}
  clean' : s'.lex.diags = {}
  path : s.lex.buf.path = s'.lex.buf.path
  stmts : List.Forall₂ TopStmt.Alike s.stmts s'.stmts
  body : List.Forall₂ GroupStmt.Alike s.body s'.body
  buffers : s.buffers.length = s'.buffers.length
  seenFiles : s.seenFiles = s'.seenFiles
  opened : file ∈ s.seenFiles

/-- Paired, at a place that `P` tells by the tokens in front and by the kind of the current one. -/
def At (u₀ u₀' : State) (file : String) (P : List Tok → Tok → Prop) (s s' : FileState) : Prop :=
  ∃ h, P h s.cur.kind ∧ Paired u₀ u₀' file h s s'

/-- From paired states at `P` to paired states at `Q`, with results that are alike. -/
def Mirrored (u₀ u₀' : State) (file : String) {α : Type} (P : List Tok → Tok → Prop)
    (p p' : Parse α) (V : Likeness α) (Q : α → List Tok → Tok → Prop) : Prop :=
  Mirrors Faulty (At u₀ u₀' file P) p p' V fun a => At u₀ u₀' file (Q a)

/-- Anywhere. -/
def anywhere (_ : List Tok) (_ : Tok) : Prop := True

/-- Behind a token of the kind `t` that stands at `P`. -/
def behind (t : Tok) (P : List Tok → Tok → Prop) (h : List Tok) (_ : Tok) : Prop :=
  ∃ h₀, h = t :: h₀ ∧ P h₀ t

/-- Where a loop is behind a turn: at `P` before the next, at `J` when it breaks. -/
def turnPlace {β : Type} (P J : List Tok → Tok → Prop) : ForInStep β → List Tok → Tok → Prop
  | .yield _ => P
  | .done _ => J

/-- The current token can be read over: it is not the last, and not the brace of a block. -/
def Passable (h : List Tok) (k : Tok) : Prop :=
  k ≠ .eof ∧ (k = .lBrace → blockNext h = false)

section
variable {u₀ u₀' : State} {file : String} {α β : Type} {P P' : List Tok → Tok → Prop}
variable {p p' q q' : Parse α} {V : Likeness α} {Q Q' : α → List Tok → Tok → Prop}

theorem Mirrored.weaken (h : Mirrored u₀ u₀' file P p p' V Q) (hP : ∀ h k, P' h k → P h k)
    (hQ : ∀ a h k, Q a h k → Q' a h k) : Mirrored u₀ u₀' file P' p p' V Q' :=
  Mirrors.weaken h (fun _ _ ⟨l, hl, hpair⟩ => ⟨l, hP _ _ hl, hpair⟩)
    fun a _ _ ⟨l, hl, hpair⟩ => ⟨l, hQ a _ _ hl, hpair⟩

theorem Mirrored.pure {a a' : α} (hV : V.rel a a') (hQ : ∀ h k, P h k → Q a h k) :
    Mirrored u₀ u₀' file P (pure a) (pure a') V Q :=
  Mirrors.pure hV fun _ _ ⟨l, hl, hpair⟩ => ⟨l, hQ _ _ hl, hpair⟩

theorem Mirrored.bind {f f' : α → Parse β} {W : Likeness β} {T : β → List Tok → Tok → Prop}
    (hp : Mirrored u₀ u₀' file P p p' V Q)
    (hf : ∀ a a', V.rel a a' → Mirrored u₀ u₀' file (Q a) (f a) (f' a') W T) :
    Mirrored u₀ u₀' file P (p >>= f) (p' >>= f') W T :=
  Mirrors.bind hp hf

theorem Mirrored.ite {c c' : Prop} [Decidable c] [Decidable c'] (hc : c ↔ c')
    (hp : c → Mirrored u₀ u₀' file P p p' V Q) (hq : ¬ c → Mirrored u₀ u₀' file P q q' V Q) :
    Mirrored u₀ u₀' file P (if c then p else q) (if c' then p' else q') V Q :=
  Mirrors.ite hc hp hq

theorem Mirrored.attempt {T : List Tok → Tok → Prop}
    (h : Mirrored u₀ u₀' file P p p' V fun _ => T) :
    Mirrored u₀ u₀' file P (attempt p) (attempt p') V.option
      fun o h k => o.isSome = true ∧ T h k :=
  Mirrors.weaken (Mirrors.attempt h) (fun _ _ => id) fun o s s' ⟨a, ho, l, hl, hpair⟩ =>
    ⟨l, ⟨by rw [ho]; rfl, hl⟩, hpair⟩

/-- A loop that is at `P` before every turn. -/
theorem Mirrored.loop {V : Likeness β} {body body' : β → Parse (ForInStep β)} {b b' : β}
    {J : List Tok → Tok → Prop}
    (hbody : ∀ b b', V.rel b b' →
      Mirrored u₀ u₀' file P (body b) (body' b') V.step (turnPlace P J))
    (hb : V.rel b b') :
    Mirrored u₀ u₀' file P (loop body b) (loop body' b') V fun _ => J := by
  refine Mirrors.loop (fun b b' hb => Mirrors.weaken (hbody b b' hb) (fun _ _ => id) ?_) hb
  rintro (b | b) s s' hat
  · exact hat
  · exact hat

/-! ## Tokens -/

/-- Behind a token that stands at `P`. -/
def past (P : List Tok → Tok → Prop) (h : List Tok) (_ : Tok) : Prop :=
  ∃ h₀ k, h = k :: h₀ ∧ P h₀ k

/-- A state of the lexer and a token that it gives without an error. -/
theorem clean_next {lx : Lexer} (hclean : lx.diags = {}) (hkind : lx.next.1.kind ≠ .error) :
    lx.next.2.diags = {} :=
  ((Lexer.complains_next lx).quiet hkind).trans hclean

theorem kind_ne_error {lx : Lexer} (hclean : ¬ lx.next.2.diags.hasError = true) :
    lx.next.1.kind ≠ .error := fun hkind => hclean ((Lexer.complains_next lx).loud hkind)

/-- Errors stay. -/
theorem faulty_advance {s : FileState} (h : Faulty s) :
    Faulty { s with toState := s.toState.advance } := by
  by_cases hkind : s.lex.next.1.kind = .error
  · exact (Lexer.complains_next s.lex).loud hkind
  · have hdiags := (Lexer.complains_next s.lex).quiet hkind
    show s.lex.next.2.diags.hasError = true
    rw [hdiags]
    exact h

/-- **A token.** -/
theorem Paired.advance {h : List Tok} {s s' : FileState} (hsame : Respelled u₀ u₀')
    (hpair : Paired u₀ u₀' file h s s') (hpass : Passable h s.cur.kind)
    (hclean : ¬ Faulty { s with toState := s.toState.advance }) :
    Paired u₀ u₀' file (s.cur.kind :: h) { s with toState := s.toState.advance }
      { s' with toState := s'.toState.advance } := by
  have hwalk := Along.token hpair.walk hpass.1 hpass.2
  -- no error has been reported, so the token is none; the other text has one of the same kind
  have hkind : s.lex.next.1.kind ≠ .error := kind_ne_error hclean
  have hkind' : s'.lex.next.1.kind ≠ .error := (hsame.tokens _ _ _ hwalk).kind ▸ hkind
  exact { hpair with
    walk := hwalk
    clean := clean_next hpair.clean hkind
    clean' := clean_next hpair.clean' hkind'
    path := by
      show s.lex.next.2.buf.path = s'.lex.next.2.buf.path
      rw [Lexer.buf_next, Lexer.buf_next]
      exact hpair.path }

/-- What the current tokens have in common at the places `P`. -/
theorem mirrored_look {V : Likeness Token}
    (hV : ∀ h s s', P h s.cur.kind → Paired u₀ u₀' file h s s' → V.rel s.cur s'.cur) :
    Mirrored u₀ u₀' file P cur cur V fun tok h k => P h k ∧ k = tok.kind :=
  .of_step (fun _ _ => rfl) (fun _ _ => rfl) (fun _ => id) fun _ _ ⟨h, hP, hpair⟩ _ =>
    ⟨hV h _ _ hP hpair, h, ⟨hP, rfl⟩, hpair⟩

theorem mirrored_cur (hsame : Respelled u₀ u₀') :
    Mirrored u₀ u₀' file P cur cur likeToken fun tok h k => P h k ∧ k = tok.kind :=
  mirrored_look fun h _ _ _ hpair => (hsame.tokens h _ _ hpair.walk).alike

theorem mirrored_prev : Mirrored u₀ u₀' file P prev prev .any fun _ => P :=
  .of_step (fun _ _ => rfl) (fun _ _ => rfl) (fun _ => id) fun _ _ hat _ => ⟨trivial, hat⟩

theorem mirrored_advance (hsame : Respelled u₀ u₀') (hpass : ∀ h k, P h k → Passable h k) :
    Mirrored u₀ u₀' file P advance advance .any fun _ => past P :=
  .of_step (fun _ _ => rfl) (fun _ _ => rfl) (fun _ => faulty_advance)
    fun _ _ ⟨h, hP, hpair⟩ hclean =>
      ⟨trivial, _, ⟨h, _, rfl, hP⟩, hpair.advance hsame (hpass _ _ hP) hclean⟩

/-- An error, and a failure. -/
theorem mirrored_error_fail (tok tok' : Token) (msg msg' : String) :
    Mirrored u₀ u₀' file P (error tok msg >>= fun _ => fail) (error tok' msg' >>= fun _ => fail)
      V Q := by
  refine .dead fun n s r t hrun => ?_
  cases hrun
  exact DiagnosticEngine.hasError_error _ _ _

/-- Over a token of the kind `t`. -/
theorem mirrored_take (hsame : Respelled u₀ u₀') {t : Tok} {tok : Token} {a a' : α}
    (hkind : tok.kind = t) (hpass : ∀ h, P h t → Passable h t) (hV : V.rel a a')
    (hQ : ∀ h k, behind t P h k → Q a h k) :
    Mirrored u₀ u₀' file (fun h k => P h k ∧ k = tok.kind) (advance >>= fun _ => pure a)
      (advance >>= fun _ => pure a') V Q := by
  refine (mirrored_advance hsame fun h k hP => ?_).bind fun _ _ _ => .pure hV ?_
  · obtain ⟨hP, rfl⟩ := hP
    exact hkind ▸ hpass h (hkind ▸ hP)
  · rintro h k ⟨h₀, k₀, rfl, hP, rfl⟩
    exact hQ _ _ ⟨h₀, by rw [hkind], hkind ▸ hP⟩

/-- What `accept` leaves behind. -/
def accepted (t : Tok) (P : List Tok → Tok → Prop) : Bool → List Tok → Tok → Prop
  | true => behind t P
  | false => P

theorem mirrored_accept (hsame : Respelled u₀ u₀') {t : Tok} (ht : t ≠ .eof ∧ t ≠ .lBrace) :
    Mirrored u₀ u₀' file P (accept t) (accept t) likeSame (accepted t P) :=
  (mirrored_cur hsame).bind fun _ _ htok => .ite (by rw [htok.kind])
    (fun hkind => mirrored_take hsame hkind (fun _ _ => ⟨ht.1, fun h => absurd h ht.2⟩) rfl
      fun _ _ => id)
    fun _ => .pure rfl fun _ _ hP => hP.1

/-- A token that is wanted, at a place where it can be read over. -/
theorem mirrored_expect (hsame : Respelled u₀ u₀') {t : Tok} {what : String}
    (hpass : ∀ h, P h t → Passable h t) :
    Mirrored u₀ u₀' file P (expect t what) (expect t what) likeToken fun _ => behind t P := by
  refine (mirrored_cur hsame).bind fun tok tok' htok => .ite (by rw [htok.kind])
    (fun hkind => mirrored_take hsame hkind hpass htok fun _ _ => id)
    fun _ => .dead fun n s r u hrun => ?_
  cases hrun
  exact DiagnosticEngine.hasError_error _ _ _

/-- `require` in one piece: it fails where `expect` reports an error. -/
theorem require_eq {t : Tok} (ht : t ≠ .error) (what : String) : require t what = (do
    let tok ← cur
    if tok.kind = t then do
      advance
      pure tok
    else do
      error tok ("expected " ++ what ++ " (got " ++ tokName tok.kind ++ ")")
      fail) := by
  have hpseudo : ∀ tok : Token, ¬ ({ kind := .error, range := tok.range } : Token).kind = t :=
    fun _ h => ht h.symm
  unfold require expect
  rw [bind_assoc]
  congr 1
  funext tok
  split
  next hkind => rw [bind_assoc, pure_bind, if_pos hkind]
  next => rw [bind_assoc, pure_bind, if_neg (hpseudo tok)]

theorem mirrored_require_look (hsame : Respelled u₀ u₀') {t : Tok} {what : String}
    {V W : Likeness Token} (ht : t ≠ .error)
    (hV : ∀ h s s', P h s.cur.kind → Paired u₀ u₀' file h s s' → V.rel s.cur s'.cur)
    (hkinds : ∀ tok tok', V.rel tok tok' → tok.kind = tok'.kind)
    (hW : ∀ tok tok', V.rel tok tok' → tok.kind = t → W.rel tok tok')
    (hpass : ∀ h, P h t → Passable h t) :
    Mirrored u₀ u₀' file P (require t what) (require t what) W fun _ => behind t P := by
  rw [require_eq ht]
  exact (mirrored_look hV).bind fun _ _ htok => .ite (by rw [hkinds _ _ htok])
    (fun hkind => mirrored_take hsame hkind hpass (hW _ _ htok hkind) fun _ _ => id)
    fun _ => mirrored_error_fail _ _ _ _

theorem mirrored_require (hsame : Respelled u₀ u₀') {t : Tok} {what : String} {W : Likeness Token}
    (ht : t ≠ .error) (hW : ∀ tok tok', TokenAlike tok tok' → tok.kind = t → W.rel tok tok')
    (hpass : ∀ h, P h t → Passable h t) :
    Mirrored u₀ u₀' file P (require t what) (require t what) W fun _ => behind t P :=
  mirrored_require_look hsame ht (V := likeToken)
    (fun h _ _ _ hpair => (hsame.tokens h _ _ hpair.walk).alike) (fun _ _ htok => htok.kind)
    hW hpass

/-- Any token but a brace can be read over. -/
theorem passable {t : Tok} (h : t ≠ .eof ∧ t ≠ .lBrace) (l : List Tok) : Passable l t :=
  ⟨h.1, fun hbrace => absurd hbrace h.2⟩

/-- Over a token whose kind is known. -/
theorem mirrored_over (hsame : Respelled u₀ u₀') {t : Tok} (hP : ∀ h k, P h k → k = t)
    (ht : t ≠ .eof ∧ t ≠ .lBrace) :
    Mirrored u₀ u₀' file P advance advance .any fun _ => behind t anywhere := by
  refine (mirrored_advance hsame fun h k hk => ?_).weaken (fun _ _ => id) ?_
  · rw [hP h k hk]
    exact passable ht h
  · rintro - h k ⟨h₀, k₀, rfl, hk⟩
    exact ⟨h₀, by rw [hP _ _ hk], trivial⟩

/-- A token that stands for its text. -/
theorem mirrored_word (hsame : Respelled u₀ u₀') {t : Tok} {what : String}
    (ht : t ≠ .error ∧ t ≠ .integer) (hpass : t ≠ .eof ∧ t ≠ .lBrace) :
    Mirrored u₀ u₀' file P (require t what) (require t what) (.of Token.text)
      fun _ => behind t P :=
  mirrored_require hsame ht.1 (fun _ _ htok hkind => htok.text (hkind ▸ ht.2))
    fun h _ => passable hpass h

/-- A number that stands for its value. -/
theorem mirrored_number (hsame : Respelled u₀ u₀') {what : String} :
    Mirrored u₀ u₀' file P (require .integer what) (require .integer what) (.of Token.intValue)
      fun _ => behind .integer P :=
  mirrored_require hsame (by decide) (fun _ _ htok _ => htok.value)
    fun h _ => passable (by decide) h

/-- The brace of something other than a block. -/
theorem mirrored_brace (hsame : Respelled u₀ u₀') {what : String}
    (hplain : ∀ h k, P h k → blockNext h = false) :
    Mirrored u₀ u₀' file P (require .lBrace what) (require .lBrace what) .any
      fun _ => behind .lBrace P :=
  mirrored_require hsame (by decide) (fun _ _ _ _ => trivial)
    fun h hP => ⟨by decide, fun _ => hplain h _ hP⟩

/-- Punctuation. -/
theorem mirrored_mark (hsame : Respelled u₀ u₀') {t : Tok} {what : String}
    (ht : t ≠ .eof ∧ t ≠ .lBrace) :
    Mirrored u₀ u₀' file P (expect t what) (expect t what) likeToken fun _ => behind t P :=
  mirrored_expect hsame fun h _ => passable ht h

/-! ## Blocks and loops over them -/

/-- A block that is read in both texts. -/
theorem Paired.braceBlock {h : List Tok} {s s' : FileState} {blk : OpaqueCpp} {v : State}
    (hsame : Respelled u₀ u₀') (hpair : Paired u₀ u₀' file h s s') (hnext : blockNext h = true)
    (hread : s.toState.braceBlock = (some blk, v)) (hclean : ¬ v.lex.diags.hasError = true) :
    ∃ blk' v', s'.toState.braceBlock = (some blk', v') ∧ blk.bare = blk'.bare ∧
      Paired u₀ u₀' file (.opaqueCpp :: h) { s with toState := v } { s' with toState := v' } := by
  -- the texts of the blocks agree, so the block is read in the other text too
  have htexts := hsame.blocks _ _ _ hpair.walk hnext
  rw [hread] at htexts
  cases hread' : s'.toState.braceBlock with
  | mk r' v' =>
    rw [hread'] at htexts
    obtain ⟨blk', rfl, htext⟩ := Option.map_eq_some_iff.mp htexts.symm
    have hwalk := Along.block hpair.walk hnext hread hread'
    -- what follows is the token behind the block
    obtain ⟨-, lx, hlx, hcur, hlex⟩ := braceBlock_some hread
    obtain ⟨-, lx', hlx', hcur', hlex'⟩ := braceBlock_some hread'
    have hkind : lx.next.1.kind ≠ .error := kind_ne_error (hlex ▸ hclean)
    have hkind' : lx'.next.1.kind ≠ .error := by
      rw [← hcur', ← (hsame.tokens _ _ _ hwalk).kind, hcur]
      exact hkind
    refine ⟨blk', v', rfl, by simp only [OpaqueCpp.bare, htext], ?_⟩
    exact { hpair with
      walk := hwalk
      clean := by
        show v.lex.diags = {}
        rw [hlex]
        exact clean_next (hlx.trans hpair.clean) hkind
      clean' := by
        show v'.lex.diags = {}
        rw [hlex']
        exact clean_next (hlx'.trans hpair.clean') hkind'
      path := by
        have hbuf := buf_braceBlock (u := s.toState)
        have hbuf' := buf_braceBlock (u := s'.toState)
        rw [hread] at hbuf
        rw [hread'] at hbuf'
        show v.lex.buf.path = v'.lex.buf.path
        rw [hbuf, hbuf']
        exact hpair.path }

theorem faulty_braceBlock {u : State} (h : u.lex.diags.hasError = true) :
    u.braceBlock.2.lex.diags.hasError = true := by
  cases hread : u.braceBlock with
  | mk r v =>
    cases r with
    | none => exact braceBlock_none hread
    | some blk =>
      obtain ⟨-, lx, hlx, -, hlex⟩ := braceBlock_some hread
      show v.lex.diags.hasError = true
      rw [hlex]
      by_cases hkind : lx.next.1.kind = .error
      · exact (Lexer.complains_next lx).loud hkind
      · rw [(Lexer.complains_next lx).quiet hkind, hlx]
        exact h

theorem mirrored_braceBlock (hsame : Respelled u₀ u₀')
    (hnext : ∀ h k, P h k → blockNext h = true) :
    Mirrored u₀ u₀' file P parseBraceBlock parseBraceBlock (.of OpaqueCpp.bare)
      fun _ => anywhere where
  keeps n s r t hrun hs := by
    cases hrun
    exact faulty_braceBlock hs
  fails n s t hrun := by
    cases hread : s.toState.braceBlock with
    | mk r v =>
      simp only [parseBraceBlock, hread, Option.some.injEq, Prod.mk.injEq] at hrun
      obtain ⟨rfl, rfl⟩ := hrun
      exact braceBlock_none hread
  mirror n s s' blk t hat hrun hclean := by
    obtain ⟨h, hP, hpair⟩ := hat
    cases hread : s.toState.braceBlock with
    | mk r v =>
      simp only [parseBraceBlock, hread, Option.some.injEq, Prod.mk.injEq] at hrun
      obtain ⟨rfl, rfl⟩ := hrun
      obtain ⟨blk', v', hread', hbare, hpair'⟩ :=
        hpair.braceBlock hsame (hnext _ _ hP) hread hclean
      exact ⟨blk', { s' with toState := v' }, by simp only [parseBraceBlock, hread'], hbare, _,
        trivial, hpair'⟩

theorem mirrored_untilBrace {W : Likeness β} {body body' : β → Parse β} {b b' : β}
    (hsame : Respelled u₀ u₀')
    (hbody : ∀ b b', W.rel b b' →
      Mirrored u₀ u₀' file anywhere (body b) (body' b') W fun _ => anywhere)
    (hb : W.rel b b') :
    Mirrored u₀ u₀' file anywhere (untilBrace body b) (untilBrace body' b') W
      fun _ => anywhere := by
  refine .loop (fun b b' hb => (mirrored_cur hsame).bind fun tok tok' htok => .ite ?_ (fun _ => ?_)
    fun _ => ?_) hb
  · rw [htok.kind]
  · exact .pure (.done hb) fun _ _ _ => trivial
  · exact ((hbody b b' hb).weaken (fun _ _ _ => trivial) fun _ _ _ => id).bind
      fun _ _ hb' => .pure (.yield hb') fun _ _ _ => trivial

/-! ## Elements -/

/-- Inside the parentheses of `.signal`. -/
def inParams (h : List Tok) (_ : Tok) : Prop := inSignalParams h = true

theorem mirrored_signalParam (hsame : Respelled u₀ u₀') :
    Mirrored u₀ u₀' file inParams parseSignalParam parseSignalParam (.of SignalParam.bare)
      fun _ => inParams := by
  refine (mirrored_word hsame (by decide) (by decide)).bind fun _ _ htype =>
    (mirrored_word hsame (by decide) (by decide)).bind fun _ _ hname => .pure ?_ ?_
  · exact congrArg₂ (fun x y => ({ typeName := x, fieldName := y } : SignalParam)) htype hname
  · rintro h k ⟨h₁, rfl, h₂, rfl, hin⟩
    exact hin

theorem mirrored_signalParams (hsame : Respelled u₀ u₀') :
    Mirrored u₀ u₀' file inParams parseSignalParams parseSignalParams
      (.of (List.map SignalParam.bare)) fun _ => behind .rParen inParams := by
  have hadd : ∀ {ps ps' : List SignalParam} {q q' : SignalParam},
      ps.map SignalParam.bare = ps'.map SignalParam.bare → q.bare = q'.bare →
        (ps ++ [q]).map SignalParam.bare = (ps' ++ [q']).map SignalParam.bare := by
    intro ps ps' q q' hps hq
    rw [List.map_append, List.map_append, hps, List.map_singleton, List.map_singleton, hq]
  refine Mirrored.bind (.loop (J := inParams) (fun ps ps' hps => ?_) rfl) fun _ _ hps =>
    (mirrored_mark hsame (by decide)).bind fun _ _ _ => .pure hps fun _ _ => id
  refine (mirrored_cur hsame).bind fun _ _ htok => .ite (by rw [htok.kind])
    (fun _ => .pure (.done hps) fun _ _ h => h.1) fun _ => ?_
  refine ((mirrored_signalParam hsame).weaken (fun _ _ h => h.1) fun _ _ _ => id).bind
    fun _ _ hq => (mirrored_accept hsame (by decide)).bind fun more _ hmore => ?_
  obtain rfl := hmore
  cases more with
  | true =>
    refine .pure (.yield (hadd hps hq)) ?_
    rintro h k ⟨h₀, rfl, hin⟩
    exact hin
  | false => exact .pure (.done (hadd hps hq)) fun _ _ => id

/-- In front of a block. -/
def atBlock (h : List Tok) (_ : Tok) : Prop := blockNext h = true

theorem mirrored_signalHead (hsame : Respelled u₀ u₀') :
    Mirrored u₀ u₀' file (behind .kwSignal P) parseSignalHead parseSignalHead
      (.of (List.map SignalParam.bare)) fun _ => atBlock := by
  refine (mirrored_accept hsame (by decide)).bind fun some _ hsome => ?_
  obtain rfl := hsome
  cases some with
  | true =>
    refine (mirrored_signalParams hsame).weaken ?_ ?_
    · rintro h k ⟨h₁, rfl, h₂, rfl, hP⟩
      rfl
    · rintro a h k ⟨h₁, rfl, hin⟩
      exact hin
  | false =>
    refine .pure rfl ?_
    rintro h k ⟨h₁, rfl, hP⟩
    rfl

theorem mirrored_hlsPragmas (hsame : Respelled u₀ u₀') (pragmas : List String)
    (hplain : ∀ h k, P h k → blockNext h = false) :
    Mirrored u₀ u₀' file P (parseHlsPragmas pragmas) (parseHlsPragmas pragmas) likeSame
      fun _ => anywhere := by
  refine (mirrored_brace hsame hplain).bind fun _ _ _ => Mirrored.bind (V := likeSame)
    (Mirrored.weaken (mirrored_untilBrace hsame (fun ps ps' hps => ?_) rfl) (fun _ _ _ => trivial)
      fun _ _ _ => id) fun _ _ hps =>
      (mirrored_mark hsame (by decide)).bind fun _ _ _ => .pure hps fun _ _ _ => trivial
  exact (mirrored_word hsame (by decide) (by decide)).bind fun _ _ hstr =>
    (mirrored_mark hsame (by decide)).bind fun _ _ _ =>
      .pure (congrArg₂ (fun ps x => ps ++ [x]) hps hstr) fun _ _ _ => trivial

/-- A number behind `=`. -/
theorem mirrored_ii (hsame : Respelled u₀ u₀') (halike : SpelledAlike u₀ u₀') {what : String} :
    Mirrored u₀ u₀' file (behind .equals P) (require .integer what) (require .integer what)
      (.of fun tok => timingIi tok.text) fun _ => anywhere := by
  -- the tokens are compared before the check that they are numbers, so also when they are none
  let likeIi : Likeness Token :=
    .of fun tok => (tok.kind, if tok.kind = .integer then timingIi tok.text else none)
  refine Mirrored.weaken (mirrored_require_look hsame (V := likeIi) (by decide) ?_ ?_ ?_ ?_)
    (fun _ _ => id) fun _ _ _ _ => trivial
  · rintro h s s' ⟨h₀, rfl, hP⟩ hpair
    have hkind := (hsame.tokens _ _ _ hpair.walk).kind
    show (_, _) = (_, _)
    rw [← hkind]
    split
    · rename_i hint
      rw [halike.timing _ _ _ hpair.walk rfl hint]
    · rfl
  · exact fun tok tok' htok => congrArg Prod.fst htok
  · intro tok tok' htok hint
    have hkind : tok.kind = tok'.kind := congrArg Prod.fst htok
    have hii := congrArg Prod.snd htok
    simp only at hii
    rwa [if_pos hint, if_pos (hkind ▸ hint)] at hii
  · exact fun h _ => passable (by decide) h

/-- An entry that is taken is one that `timingIi` takes. -/
theorem timingIi_eq {text : String} {ii : Int} : timingIi text = some ii ↔
    stoi text = some ii ∧ ¬ (ii < 1 ∨ 64 < ii) := by
  simp only [timingIi, Option.filter_eq_some_iff, decide_eq_true_eq, not_or, Int.not_lt]

/-- An entry of `.timing`, whose number is read digit by digit. -/
theorem mirrored_timingEntry (hsame : Respelled u₀ u₀') (halike : SpelledAlike u₀ u₀')
    (ii ii' : Int) :
    Mirrored u₀ u₀' file anywhere (parseTimingEntry ii) (parseTimingEntry ii') likeSame
      fun _ => anywhere := by
  refine (mirrored_word hsame (by decide) (by decide)).bind fun id id' hid =>
    (mirrored_word hsame (by decide) (by decide)).bind fun _ _ _ =>
      (mirrored_ii hsame halike).bind fun val val' hval => .ite ?_ (fun _ => ?_)
        fun _ => mirrored_error_fail _ _ _ _
  · rw [show id.text = id'.text from hid]
  · have hval : timingIi val.text = timingIi val'.text := hval
    cases hii : timingIi val.text with
    | some ii =>
      obtain ⟨hstoi, hin⟩ := timingIi_eq.mp hii
      obtain ⟨hstoi', -⟩ := timingIi_eq.mp (hval ▸ hii)
      simp only [hstoi, hstoi', if_neg hin]
      exact (mirrored_mark hsame (by decide)).bind fun _ _ _ => .pure rfl fun _ _ _ => trivial
    | none =>
      -- refused in the one text: nothing is left to match in the other
      refine .dead fun n s r t hrun => ?_
      cases hstoi : stoi val.text with
      | none =>
        rw [hstoi] at hrun
        cases hrun
        exact DiagnosticEngine.hasError_error _ _ _
      | some ii =>
        have hout : ii < 1 ∨ 64 < ii := by
          by_contra hin
          rw [timingIi_eq.mpr ⟨hstoi, hin⟩] at hii
          cases hii
        simp only [hstoi, if_pos hout] at hrun
        cases hrun
        exact DiagnosticEngine.hasError_error _ _ _

theorem mirrored_timing (hsame : Respelled u₀ u₀') (halike : SpelledAlike u₀ u₀') {ii ii' : Int}
    (hii : ii = ii') (hplain : ∀ h k, P h k → blockNext h = false) :
    Mirrored u₀ u₀' file P (parseTiming ii) (parseTiming ii') likeSame fun _ => anywhere :=
  (mirrored_brace hsame hplain).bind fun _ _ _ => Mirrored.bind (V := likeSame)
    (Mirrored.weaken (mirrored_untilBrace hsame (fun ii ii' _ =>
      mirrored_timingEntry hsame halike ii ii') hii) (fun _ _ _ => trivial) fun _ _ _ => id)
    fun _ _ hii => (mirrored_mark hsame (by decide)).bind fun _ _ _ =>
      .pure hii fun _ _ _ => trivial

/-- A section that is a keyword and a block. -/
theorem mirrored_blockSection (hsame : Respelled u₀ u₀') {put put' : OpaqueCpp → ElementDecl}
    {t : Tok} (ht : t ≠ .eof ∧ t ≠ .lBrace) (hnext : ∀ h, blockNext (t :: h) = true)
    (hput : ∀ blk blk', blk.bare = blk'.bare → (put blk).bare = (put' blk').bare) :
    Mirrored u₀ u₀' file (fun _ k => k = t) (advance >>= fun _ => parseBraceBlock >>= fun blk =>
      pure (put blk)) (advance >>= fun _ => parseBraceBlock >>= fun blk => pure (put' blk))
      (.of ElementDecl.bare) fun _ => anywhere := by
  refine (mirrored_over hsame (fun _ _ => id) ht).bind fun _ _ _ =>
    (mirrored_braceBlock hsame ?_).bind fun _ _ hblk => .pure (hput _ _ hblk) fun _ _ _ => trivial
  rintro h k ⟨h₀, rfl, -⟩
  exact hnext h₀

theorem bare_signal (e : ElementDecl) (ps : List SignalParam) (blk : OpaqueCpp) :
    ElementDecl.bare { e with signalParams := e.signalParams ++ ps, signal := some blk }
      = { e.bare with
          signalParams := e.bare.signalParams ++ ps.map SignalParam.bare
          signal := some blk.bare } := by
  simp only [ElementDecl.bare, List.map_append, Option.map_some]

theorem mirrored_signalSection (hsame : Respelled u₀ u₀') {elem elem' : ElementDecl}
    (helem : elem.bare = elem'.bare) :
    Mirrored u₀ u₀' file (fun _ k => k = .kwSignal)
      (advance >>= fun _ => parseSignalHead >>= fun params => parseBraceBlock >>= fun blk =>
        pure { elem with signalParams := elem.signalParams ++ params, signal := some blk })
      (advance >>= fun _ => parseSignalHead >>= fun params => parseBraceBlock >>= fun blk =>
        pure { elem' with signalParams := elem'.signalParams ++ params, signal := some blk })
      (.of ElementDecl.bare) fun _ => anywhere := by
  refine (mirrored_over hsame (fun _ _ => id) (by decide)).bind fun _ _ _ =>
    (mirrored_signalHead hsame).bind fun ps ps' hps =>
      (mirrored_braceBlock hsame fun _ _ => id).bind fun blk blk' hblk =>
        .pure ?_ fun _ _ _ => trivial
  show ElementDecl.bare _ = ElementDecl.bare _
  rw [bare_signal, bare_signal, helem, show ps.map _ = ps'.map _ from hps,
    show blk.bare = blk'.bare from hblk]

theorem mirrored_pragmaSection (hsame : Respelled u₀ u₀') {elem elem' : ElementDecl}
    (helem : elem.bare = elem'.bare) :
    Mirrored u₀ u₀' file (fun _ k => k = .kwHlsPragma)
      (advance >>= fun _ => parseHlsPragmas elem.hlsPragmas >>= fun pragmas =>
        pure { elem with hlsPragmas := pragmas })
      (advance >>= fun _ => parseHlsPragmas elem'.hlsPragmas >>= fun pragmas =>
        pure { elem' with hlsPragmas := pragmas })
      (.of ElementDecl.bare) fun _ => anywhere := by
  have hpragmas : elem.hlsPragmas = elem'.hlsPragmas := (congrArg ElementDecl.hlsPragmas helem :)
  rw [hpragmas]
  refine (mirrored_over hsame (fun _ _ => id) (by decide)).bind fun _ _ _ =>
    (mirrored_hlsPragmas hsame _ ?_).bind fun _ _ hout => .pure ?_ fun _ _ _ => trivial
  · rintro h k ⟨h₀, rfl, -⟩
    rfl
  · exact congrArg₂ (fun (e : ElementDecl) ps => { e with hlsPragmas := ps }) helem hout

theorem mirrored_timingSection (hsame : Respelled u₀ u₀') (halike : SpelledAlike u₀ u₀')
    {elem elem' : ElementDecl} (helem : elem.bare = elem'.bare) :
    Mirrored u₀ u₀' file (fun _ k => k = .kwTiming)
      (advance >>= fun _ => parseTiming elem.pipelineIi >>= fun ii =>
        pure { elem with pipelineIi := ii })
      (advance >>= fun _ => parseTiming elem'.pipelineIi >>= fun ii =>
        pure { elem' with pipelineIi := ii })
      (.of ElementDecl.bare) fun _ => anywhere := by
  have hii : elem.pipelineIi = elem'.pipelineIi := (congrArg ElementDecl.pipelineIi helem :)
  refine (mirrored_over hsame (fun _ _ => id) (by decide)).bind fun _ _ _ =>
    (mirrored_timing hsame halike hii ?_).bind fun _ _ hout => .pure ?_ fun _ _ _ => trivial
  · rintro h k ⟨h₀, rfl, -⟩
    rfl
  · exact congrArg₂ (fun (e : ElementDecl) ii => { e with pipelineIi := ii }) helem hout

theorem mirrored_section (hsame : Respelled u₀ u₀') (halike : SpelledAlike u₀ u₀')
    {elem elem' : ElementDecl} (helem : elem.bare = elem'.bare) :
    Mirrored u₀ u₀' file anywhere (parseSection elem) (parseSection elem') (.of ElementDecl.bare)
      fun _ => anywhere := by
  refine (mirrored_cur hsame).bind fun tok tok' htok => ?_
  rw [← htok.kind]
  -- both sides take the branch of the kind, and stand in front of that keyword
  have hplace : ∀ {k : Tok}, tok.kind = k → ∀ (h : List Tok) (k' : Tok),
      anywhere h k' ∧ k' = tok.kind → k' = k := fun hk _ _ h => h.2.trans hk
  split
  next hk =>
    exact (mirrored_blockSection hsame (by decide) (fun _ => rfl) fun _ _ hblk =>
      congrArg₂ (fun (e : ElementDecl) b => { e with state := some b }) helem hblk).weaken
        (hplace hk) fun _ _ _ => id
  next hk =>
    exact (mirrored_blockSection hsame (by decide) (fun _ => rfl) fun _ _ hblk =>
      congrArg₂ (fun (e : ElementDecl) b => { e with init := some b }) helem hblk).weaken
        (hplace hk) fun _ _ _ => id
  next hk =>
    exact (mirrored_blockSection hsame (by decide) (fun _ => rfl) fun _ _ hblk =>
      congrArg₂ (fun (e : ElementDecl) b => { e with handler := some b }) helem hblk).weaken
        (hplace hk) fun _ _ _ => id
  next hk => exact (mirrored_signalSection hsame helem).weaken (hplace hk) fun _ _ _ => id
  next hk => exact (mirrored_pragmaSection hsame helem).weaken (hplace hk) fun _ _ _ => id
  next hk => exact (mirrored_timingSection hsame halike helem).weaken (hplace hk) fun _ _ _ => id
  · exact mirrored_error_fail _ _ _ _

/-- A place that is not in front of a block. -/
def plain (h : List Tok) (_ : Tok) : Prop := blockNext h = false

theorem mirrored_portCounts (hsame : Respelled u₀ u₀') :
    Mirrored u₀ u₀' file plain parsePortCounts parsePortCounts likeSame fun _ => plain := by
  refine (mirrored_accept hsame (by decide)).bind fun some _ hsome => ?_
  obtain rfl := hsome
  cases some with
  | true =>
    refine (mirrored_number hsame).bind fun _ _ hin => (mirrored_mark hsame (by decide)).bind
      fun _ _ _ => (mirrored_number hsame).bind fun _ _ hout =>
        (mirrored_mark hsame (by decide)).bind fun _ _ _ => .pure ?_ ?_
    · exact congrArg₂ (fun x y => (castInt x, castInt y)) hin hout
    · rintro h k ⟨h₀, rfl, -⟩
      rfl
  | false => exact .pure rfl fun _ _ => id

theorem mirrored_pushTop {x x' : TopStmt} (hx : x.Alike x') :
    Mirrored u₀ u₀' file P (pushTop x) (pushTop x') .any fun _ => P :=
  .of_step (fun _ _ => rfl) (fun _ _ => rfl) (fun _ => id) fun _ _ ⟨h, hP, hpair⟩ _ =>
    ⟨trivial, h, hP, { hpair with stmts := List.rel_append hpair.stmts (.cons hx .nil) }⟩

theorem mirrored_elementDecl (hsame : Respelled u₀ u₀') (halike : SpelledAlike u₀ u₀') :
    Mirrored u₀ u₀' file (fun _ k => k = .kwElement) parseElementDecl parseElementDecl .any
      fun _ => anywhere := by
  refine (mirrored_cur hsame).bind fun _ _ _ =>
    (mirrored_over hsame (fun _ _ h => h.1) (by decide)).bind fun _ _ _ =>
    (mirrored_word hsame (by decide) (by decide)).bind fun _ _ hname =>
      ((mirrored_portCounts hsame).weaken ?_ fun _ _ _ => id).bind fun ports ports' hports => ?_
  · rintro h k ⟨h₀, rfl, -⟩
    rfl
  · have hbody : ∀ {elem elem' : ElementDecl}, elem.bare = elem'.bare →
        Mirrored u₀ u₀' file plain (parseElementBody elem) (parseElementBody elem')
          (.of ElementDecl.bare) fun _ => anywhere := fun helem =>
      (mirrored_brace hsame fun _ _ => id).bind fun _ _ _ => Mirrored.bind
        (Mirrored.weaken (mirrored_untilBrace hsame (fun _ _ helem =>
          mirrored_section hsame halike helem) helem) (fun _ _ _ => trivial) fun _ _ _ => id)
        fun _ _ helem => (mirrored_mark hsame (by decide)).bind fun _ _ _ =>
          .pure helem fun _ _ _ => trivial
    obtain rfl := hports
    refine (hbody ?_).bind fun _ _ helem => mirrored_pushTop (.elementDecl helem)
    exact congrArg (fun x => ({ name := x, nInPorts := ports.1, nOutPorts := ports.2 } :
      ElementDecl)) hname

/-! ## Instances and connections -/

theorem mirrored_push (sink : Sink) {x x' : GroupStmt} (hx : x.Alike x') :
    Mirrored u₀ u₀' file P (push sink x) (push sink x') .any fun _ => P := by
  cases sink with
  | module => exact mirrored_pushTop (.ofGroup hx)
  | group =>
    exact .of_step (fun _ _ => rfl) (fun _ _ => rfl) (fun _ => id) fun _ _ ⟨h, hP, hpair⟩ _ =>
      ⟨trivial, h, hP, { hpair with body := List.rel_append hpair.body (.cons hx .nil) }⟩

/-- A number behind a mark. -/
theorem mirrored_after (hsame : Respelled u₀ u₀') {t : Tok} {what : String} {d d' : Int}
    (ht : t ≠ .eof ∧ t ≠ .lBrace) (hd : d = d') {Q : List Tok → Tok → Prop}
    (hnone : ∀ h k, P h k → Q h k) (hsome : ∀ h k, Q (.integer :: t :: h) k) :
    Mirrored u₀ u₀' file P (parseAfter t what d) (parseAfter t what d') likeSame fun _ => Q := by
  refine (mirrored_accept hsame ht).bind fun some _ heq => ?_
  obtain rfl := heq
  cases some with
  | true =>
    refine (mirrored_number hsame).bind fun _ _ hn => .pure (congrArg castInt hn) ?_
    rintro h k ⟨h₁, rfl, h₂, rfl, -⟩
    exact hsome h₂ k
  | false => exact .pure hd hnone

theorem mirrored_range (hsame : Respelled u₀ u₀') :
    Mirrored u₀ u₀' file (fun _ k => k = .lBracket) parseRange parseRange (.of PortRange.bare)
      fun _ => anywhere := by
  refine (mirrored_cur hsame).bind fun _ _ _ =>
    (mirrored_over hsame (fun _ _ h => h.1) (by decide)).bind fun _ _ _ =>
    (mirrored_number hsame).bind fun _ _ hlo =>
      (mirrored_after (Q := anywhere) hsame (by decide) (congrArg castInt hlo)
        (fun _ _ _ => trivial) fun _ _ => trivial).bind fun _ _ hhi =>
      (mirrored_after (Q := anywhere) hsame (by decide) rfl (fun _ _ _ => trivial)
        fun _ _ => trivial).bind fun _ _ hdepth =>
      (mirrored_mark hsame (by decide)).bind fun _ _ _ => .pure ?_ fun _ _ _ => trivial
  obtain rfl := hhi
  obtain rfl := hdepth
  exact congrArg (fun lo => ({ lo := lo, hi := _, depth := _ } : PortRange)) (congrArg castInt hlo)

theorem mirrored_optionalRange (hsame : Respelled u₀ u₀') :
    Mirrored u₀ u₀' file anywhere parseOptionalRange parseOptionalRange
      (.of (Option.map PortRange.bare)) fun _ => anywhere := by
  refine (mirrored_cur hsame).bind fun tok tok' htok => .ite (by rw [htok.kind]) (fun hk => ?_)
    fun _ => .pure rfl fun _ _ _ => trivial
  have hrange : Mirrored u₀ u₀' file (fun h k => anywhere h k ∧ k = tok.kind) parseRange parseRange
      (.of PortRange.bare) fun _ => anywhere :=
    (mirrored_range hsame).weaken (fun _ _ h => h.2.trans hk) fun _ _ _ => id
  refine Mirrors.relike (hrange.attempt.weaken (fun _ _ => id) fun _ _ _ _ => trivial)
    fun o o' ho => ?_
  show o.map PortRange.bare = o'.map PortRange.bare
  cases ho with
  | none => rfl
  | some h => exact congrArg some h

/-- Behind a count or a parameter, where a comma is followed by a parameter. -/
def betweenParams (h : List Tok) (_ : Tok) : Prop := paramNext (.comma :: h) = true

theorem mirrored_paramTurn (hsame : Respelled u₀ u₀') (halike : SpelledAlike u₀ u₀') (strict : Bool)
    {params params' : List InstanceParam}
    (hparams : params.map InstanceParam.bare = params'.map InstanceParam.bare) :
    Mirrored u₀ u₀' file betweenParams (paramTurn strict params) (paramTurn strict params')
      (Likeness.step (.of (List.map InstanceParam.bare)))
      (turnPlace betweenParams anywhere) := by
  refine (mirrored_accept hsame (by decide)).bind fun more _ hmore => ?_
  obtain rfl := hmore
  cases more with
  | false => exact .pure (.done hparams) fun _ _ _ => trivial
  | true =>
    -- behind the comma a number has the same digits in both texts
    have hlook : Mirrored u₀ u₀' file (accepted .comma betweenParams true) cur cur likeText
        fun tok h k => accepted .comma betweenParams true h k ∧ k = tok.kind := by
      refine mirrored_look ?_
      rintro h s s' ⟨h₀, rfl, hnext⟩ hpair
      have htok := hsame.tokens _ _ _ hpair.walk
      refine Prod.ext htok.kind ?_
      by_cases hint : s.cur.kind = .integer
      · exact halike.params _ _ _ hpair.walk hnext hint
      · exact htok.text hint
    have hadd : ∀ {tok tok' : Token} (kind : InstanceParam.Kind), likeText.rel tok tok' →
        (params ++ [({ kind := kind, text := tok.text, src := tok.range } : InstanceParam)]).map
            InstanceParam.bare
          = (params' ++ [({ kind := kind, text := tok'.text, src := tok'.range } :
            InstanceParam)]).map InstanceParam.bare := by
      intro tok tok' kind htok
      have htext : tok.text = tok'.text := congrArg Prod.snd htok
      rw [List.map_append, List.map_append, hparams]
      simp only [List.map_singleton, InstanceParam.bare, htext]
    refine hlook.bind fun tok tok' htok => ?_
    have hkind : tok.kind = tok'.kind := congrArg Prod.fst htok
    refine .ite (by rw [hkind]) (fun hint => ?_) fun _ => .ite (by rw [hkind]) (fun hstr => ?_)
      fun _ => .ite Iff.rfl (fun _ => mirrored_error_fail _ _ _ _)
        fun _ => .pure (.done hparams) fun _ _ _ => trivial
    · refine mirrored_take hsame hint (fun h _ => passable (by decide) h)
        (.yield (hadd .number htok)) ?_
      rintro h k ⟨h₁, rfl, h₂, rfl, -⟩
      rfl
    · refine mirrored_take hsame hstr (fun h _ => passable (by decide) h)
        (.yield (hadd .string htok)) ?_
      rintro h k ⟨h₁, rfl, h₂, rfl, -⟩
      rfl

theorem mirrored_args (hsame : Respelled u₀ u₀') (halike : SpelledAlike u₀ u₀') (strict : Bool) :
    Mirrored u₀ u₀' file (behind .lParen P) (parseArgs strict) (parseArgs strict)
      (.of InstanceArgs.bare) fun _ => anywhere := by
  refine (mirrored_number hsame).bind fun _ _ hin => (mirrored_mark hsame (by decide)).bind
    fun _ _ _ => (mirrored_number hsame).bind fun _ _ hout =>
      (mirrored_after (Q := betweenParams) hsame (by decide) rfl ?_ ?_).bind
        fun depth depth' hdepth => Mirrored.bind (.loop (J := anywhere)
          (V := .of (List.map InstanceParam.bare))
          (fun _ _ hparams => mirrored_paramTurn hsame halike strict hparams) rfl)
          fun params params' hparams =>
      (mirrored_mark hsame (by decide)).bind fun _ _ _ => .pure ?_ fun _ _ _ => trivial
  · rintro h k ⟨h₁, rfl, h₂, rfl, -⟩
    rfl
  · exact fun _ _ => rfl
  · obtain rfl := hdepth
    show InstanceArgs.bare _ = InstanceArgs.bare _
    simp only [InstanceArgs.bare]
    rw [show params.map _ = params'.map _ from hparams]
    exact congrArg₂ (fun x y => ({ nInPorts := x, nOutPorts := y, channelDepth := _, params := _ } :
      InstanceArgs)) (congrArg castInt hin) (congrArg castInt hout)

theorem mirrored_instance (hsame : Respelled u₀ u₀') (halike : SpelledAlike u₀ u₀') (sink : Sink)
    {first first' : Token} (hfirst : first.text = first'.text) :
    Mirrored u₀ u₀' file (fun _ k => k = .doubleColon) (parseInstance sink first)
      (parseInstance sink first') .any fun _ => anywhere := by
  have hqualifier : Mirrored u₀ u₀' file anywhere parseHostQualifier parseHostQualifier likeSame
      fun _ => anywhere := by
    refine .loop (fun flags flags' hflags => ?_) rfl
    obtain rfl := hflags
    refine (mirrored_accept hsame (by decide)).bind fun host _ hhost => ?_
    obtain rfl := hhost
    refine .ite Iff.rfl (fun _ => .pure (.yield rfl) fun _ _ _ => trivial) fun _ => ?_
    refine (mirrored_accept hsame (by decide)).bind fun autorun _ hautorun => ?_
    obtain rfl := hautorun
    exact .ite Iff.rfl (fun _ => .pure (.yield rfl) fun _ _ _ => trivial)
      fun _ => .pure (.done rfl) fun _ _ _ => trivial
  have hargs : Mirrored u₀ u₀' file anywhere parseInstanceArgs parseInstanceArgs
      (.of InstanceArgs.bare) fun _ => anywhere := by
    refine (mirrored_accept hsame (by decide)).bind fun some _ hsome => ?_
    obtain rfl := hsome
    cases some with
    | true => exact mirrored_args hsame halike true
    | false => exact .pure rfl fun _ _ _ => trivial
  refine (mirrored_over hsame (fun _ _ => id) (by decide)).bind fun _ _ _ =>
    (mirrored_word hsame (by decide) (by decide)).bind fun name name' hname =>
      (hqualifier.weaken (fun _ _ _ => trivial) fun _ _ _ => id).bind fun flags flags' hflags =>
        hargs.bind fun args args' hargs => (mirrored_accept hsame (by decide)).bind fun _ _ _ =>
          (mirrored_push sink ?_).weaken (fun _ _ => id) fun _ _ _ _ => trivial
  obtain rfl := hflags
  have hwritten : name.text = name'.text := hname
  refine .instanceDecl ⟨?_, fun _ => hwritten, ?_⟩
  · show NameAlike name.text name'.text
    rw [hwritten]
    exact .same _
  · exact congrArg₂ (fun type (a : InstanceArgs) => ({
      type := type
      name := ""
      hostControl := flags.1
      autorun := flags.2
      nInPorts := a.nInPorts
      nOutPorts := a.nOutPorts
      channelDepth := a.channelDepth
      params := a.params } : InstanceDecl)) hfirst hargs

theorem mirrored_node (hsame : Respelled u₀ u₀') (halike : SpelledAlike u₀ u₀') (sink : Sink)
    {tok tok' : Token} (htok : tok.text = tok'.text) :
    Mirrored u₀ u₀' file anywhere (parseNode sink tok) (parseNode sink tok') likeName
      fun _ => anywhere := by
  have hname : NameAlike (anonName tok.text tok.range.begin)
      (anonName tok'.text tok'.range.begin) := by
    rw [htok]
    exact .anon _ _ _
  refine (mirrored_accept hsame (by decide)).bind fun inline _ hinline => ?_
  obtain rfl := hinline
  cases inline with
  | true =>
    refine (mirrored_args hsame halike false).bind fun args args' hargs => mirrored_prev.bind
      fun _ _ _ => (mirrored_push sink ?_).bind fun _ _ _ => .pure hname fun _ _ _ => trivial
    refine .instanceDecl ⟨hname, nofun, ?_⟩
    exact congrArg₂ (fun type (a : InstanceArgs) => ({
      type := type
      name := ""
      anonymous := true
      nInPorts := a.nInPorts
      nOutPorts := a.nOutPorts
      channelDepth := a.channelDepth
      params := a.params } : InstanceDecl)) htok hargs
  | false =>
    refine .pure ?_ fun _ _ _ => trivial
    rw [htok]
    exact .same _

theorem mirrored_link (hsame : Respelled u₀ u₀') (halike : SpelledAlike u₀ u₀') (sink : Sink)
    {arrow arrow' : Token} {source source' : ConnEnd} (harrow : arrow.kind = arrow'.kind)
    (hkind : arrow.kind = .arrow ∨ arrow.kind = .fatArrow) (hsource : source.Alike source') :
    Mirrored u₀ u₀' file (fun _ k => k = arrow.kind) (parseLink sink arrow source)
      (parseLink sink arrow' source') likeEnd fun _ => anywhere := by
  refine (mirrored_advance hsame ?_).bind fun _ _ _ =>
    ((mirrored_optionalRange hsame).weaken (fun _ _ _ => trivial) fun _ _ _ => id).bind
      fun leading leading' hleading => (mirrored_cur hsame).bind fun tok tok' htok =>
        .ite (by rw [htok.kind]) (fun _ => ?_) fun _ => mirrored_error_fail _ _ _ _
  · rintro h k rfl
    rcases hkind with hkind | hkind <;> rw [hkind] <;> exact passable (by decide) h
  · refine (mirrored_accept hsame (by decide)).bind fun _ _ _ =>
      (mirrored_accept hsame (by decide)).bind fun _ _ _ =>
        (mirrored_word hsame (by decide) (by decide)).bind fun next next' hnext =>
          ((mirrored_node hsame halike sink hnext).weaken (fun _ _ _ => trivial)
            fun _ _ _ => id).bind fun name name' hname => mirrored_prev.bind fun _ _ _ =>
              (mirrored_optionalRange hsame).bind fun trailing trailing' htrailing => ?_
    -- a range behind the node replaces the one before it, on both sides
    have hrange : ((trailing.or leading).getD {}).bare
        = ((trailing'.or leading').getD {}).bare := by
      have hor : (trailing.or leading).map PortRange.bare
          = (trailing'.or leading').map PortRange.bare := by
        rw [Option.map_or, Option.map_or]
        exact congrArg₂ Option.or htrailing hleading
      generalize trailing.or leading = r at hor
      generalize trailing'.or leading' = r' at hor
      cases r <;> cases r' <;> simp at hor
      · rfl
      · exact hor
    refine (mirrored_push sink ?_).bind fun _ _ _ => .pure ⟨hname, hrange⟩ fun _ _ _ => trivial
    refine .connectionDecl hsource ⟨hname, hrange⟩ ?_
    show (arrow.kind == .fatArrow) = (arrow'.kind == .fatArrow)
    rw [harrow]

theorem mirrored_chain (hsame : Respelled u₀ u₀') (halike : SpelledAlike u₀ u₀') (sink : Sink)
    {first first' : Token} (hfirst : first.text = first'.text) :
    Mirrored u₀ u₀' file anywhere (parseChain sink first) (parseChain sink first') .any
      fun _ => anywhere := by
  refine (mirrored_node hsame halike sink hfirst).bind fun name name' hname =>
    mirrored_prev.bind fun _ _ _ => (mirrored_optionalRange hsame).bind fun range range' hrange =>
      Mirrored.bind (.loop (V := likeEnd) (J := anywhere) (fun source source' hsource => ?_)
        ⟨hname, ?_⟩) fun _ _ _ => (mirrored_accept hsame (by decide)).bind fun _ _ _ =>
          .pure trivial fun _ _ _ => trivial
  · refine (mirrored_cur hsame).bind fun tok tok' htok => .ite (by rw [htok.kind]) (fun hkind => ?_)
      fun _ => .pure (.done hsource) fun _ _ _ => trivial
    exact ((mirrored_link hsame halike sink htok.kind hkind hsource).weaken (fun _ _ h => h.2)
      fun _ _ _ => id).bind fun _ _ hdest => .pure (.yield hdest) fun _ _ _ => trivial
  · have hrange : range.map PortRange.bare = range'.map PortRange.bare := hrange
    cases range <;> cases range' <;> simp at hrange
    · rfl
    · exact hrange

theorem mirrored_declOrChain (hsame : Respelled u₀ u₀') (halike : SpelledAlike u₀ u₀')
    (sink : Sink) :
    Mirrored u₀ u₀' file anywhere (parseDeclOrChain sink) (parseDeclOrChain sink) .any
      fun _ => anywhere := by
  have hqualifier : Mirrored u₀ u₀' file anywhere parseQualifier parseQualifier .any
      fun _ => anywhere := by
    refine (mirrored_accept hsame (by decide)).bind fun host _ hhost => ?_
    obtain rfl := hhost
    exact .ite Iff.rfl (fun _ => .pure trivial fun _ _ _ => trivial) fun _ =>
      (mirrored_accept hsame (by decide)).bind fun _ _ _ => .pure trivial fun _ _ _ => trivial
  refine hqualifier.bind fun _ _ _ => (mirrored_cur hsame).bind fun first first' hfirst =>
    .ite (by rw [hfirst.kind]) (fun hident => ?_) fun _ => mirrored_error_fail _ _ _ _
  have htext : first.text = first'.text := hfirst.text (by rw [hident]; decide)
  refine (mirrored_over hsame (fun _ _ h => h.2.trans hident) (by decide)).bind fun _ _ _ =>
    (mirrored_cur hsame).bind
    fun tok tok' htok => .ite (by rw [htok.kind]) (fun hkind => ?_) fun _ => ?_
  · exact (mirrored_instance hsame halike sink htext).weaken (fun _ _ h => h.2.trans hkind)
      fun _ _ _ => id
  · exact (mirrored_chain hsame halike sink htext).weaken (fun _ _ _ => trivial) fun _ _ _ => id

/-! ## Groups -/

theorem reports_skipUntil (kinds : List Tok) : Reports Faulty (skipUntil kinds) :=
  .loop (fun _ => Reports.bind (.of_step (fun _ _ => rfl) fun _ => id) fun _ =>
    .ite (.pure _) (Reports.bind (.of_step (fun _ _ => rfl) fun _ => faulty_advance)
      fun _ => .pure _)) ()

/-- A statement that fails has reported an error, so that what comes after it does not matter. -/
theorem mirrored_recovery {o o' : Option α} {r r' : Parse β} {f f' : β} {W : Likeness β}
    (ho : V.option.rel o o') (hr : Reports Faulty r) (hf : W.rel f f') :
    Mirrored u₀ u₀' file (fun h k => o.isSome = true ∧ P h k)
      (if o.isNone = true then r else pure f) (if o'.isNone = true then r' else pure f') W
      fun _ => P := by
  cases ho with
  | none => exact Mirrors.unreached hr fun _ _ ⟨_, h, _⟩ => Bool.false_ne_true h.1
  | some _ => exact .pure hf fun _ _ h => h.2

theorem mirrored_groupBody (hsame : Respelled u₀ u₀') (halike : SpelledAlike u₀ u₀') :
    Mirrored u₀ u₀' file plain parseGroupBody parseGroupBody likeBody fun _ => anywhere := by
  have hclear : Mirrored u₀ u₀' file anywhere (modify fun s => { s with body := [] })
      (modify fun s => { s with body := [] }) .any fun _ => anywhere :=
    .of_step (fun _ _ => rfl) (fun _ _ => rfl) (fun _ => id) fun _ _ ⟨h, hP, hpair⟩ _ =>
      ⟨trivial, h, hP, { hpair with body := .nil }⟩
  have hread : Mirrored u₀ u₀' file anywhere (get >>= fun s => pure s.body)
      (get >>= fun s => pure s.body) likeBody fun _ => anywhere :=
    .of_step (fun _ _ => rfl) (fun _ _ => rfl) (fun _ => id) fun _ _ ⟨h, hP, hpair⟩ _ =>
      ⟨hpair.body, h, hP, hpair⟩
  refine (mirrored_brace hsame fun _ _ => id).bind fun _ _ _ =>
    (hclear.weaken (fun _ _ _ => trivial) fun _ _ _ => id).bind fun _ _ _ =>
      Mirrored.bind (mirrored_untilBrace (W := .any) hsame (fun _ _ _ => ?_) trivial) fun _ _ _ =>
        (mirrored_mark hsame (by decide)).bind fun _ _ _ =>
          hread.weaken (fun _ _ _ => trivial) fun _ _ _ => id
  exact (mirrored_declOrChain hsame halike .group).attempt.bind fun _ _ hok =>
    mirrored_recovery hok (reports_skipUntil _) trivial

theorem mirrored_elementGroupDecl (hsame : Respelled u₀ u₀') (halike : SpelledAlike u₀ u₀') :
    Mirrored u₀ u₀' file (fun _ k => k = .kwElementGroup) parseElementGroupDecl
      parseElementGroupDecl .any fun _ => anywhere := by
  refine (mirrored_cur hsame).bind fun _ _ _ =>
    (mirrored_over hsame (fun _ _ h => h.1) (by decide)).bind fun _ _ _ =>
    (mirrored_word hsame (by decide) (by decide)).bind fun _ _ hname =>
      ((mirrored_portCounts hsame).weaken ?_ fun _ _ _ => id).bind fun ports ports' hports =>
        (mirrored_groupBody hsame halike).bind fun _ _ hbody =>
          mirrored_pushTop (.elementGroupDecl ⟨hname, ?_, hbody⟩)
  · rintro h k ⟨h₀, rfl, -⟩
    rfl
  · exact hports

end

/-! ## Files -/

/-- What two parsers have in common between two files. -/
structure PairedFiles (file : String) (p p' : Parser) : Prop where
  buffers : p.buffers.length = p'.buffers.length
  seenFiles : p.seenFiles = p'.seenFiles
  opened : file ∈ p.seenFiles
  clean : p.diags = {}
  clean' : p'.diags = {}

def FaultyFiles (p : Parser) : Prop := p.diags.hasError = true

section
variable {u₀ u₀' : State} {file : String} {fs fs' : FileSystem} {importDirs : List String}
variable {parseFile parseFile' : String → Production Parser Module}

/-- The second file system differs in nothing but what the files contain. -/
def SameNames (fs fs' : FileSystem) : Prop := fs' = { fs with read := fs'.read }

theorem resolveImport_sameNames (h : SameNames fs fs') (referer target : String) :
    fs'.resolveImport importDirs referer target = fs.resolveImport importDirs referer target := by
  rw [h]
  rfl

/-- Behind an import the lexers are where they were. -/
theorem Paired.withParser {h : List Tok} {x x' : FileState} {p p' : Parser}
    (hpair : Paired u₀ u₀' file h x x') (hfiles : PairedFiles file p p') :
    Paired u₀ u₀' file h (FileState.withParser p x) (FileState.withParser p' x') := by
  have hlex : ({ x.lex with diags := p.diags } : Lexer) = x.lex := by
    rw [hfiles.clean, ← hpair.clean]
  have hlex' : ({ x'.lex with diags := p'.diags } : Lexer) = x'.lex := by
    rw [hfiles.clean', ← hpair.clean']
  have hstate : (FileState.withParser p x).toState = x.toState := by
    rw [FileState.withParser, hlex]
  have hstate' : (FileState.withParser p' x').toState = x'.toState := by
    rw [FileState.withParser, hlex']
  exact {
    walk := by
      rw [hstate, hstate']
      exact hpair.walk
    clean := hfiles.clean
    clean' := hfiles.clean'
    path := hpair.path
    stmts := hpair.stmts
    body := hpair.body
    buffers := hfiles.buffers
    seenFiles := hfiles.seenFiles
    opened := hfiles.opened }

theorem mirrored_importRest (hnames : SameNames fs fs')
    (hfile : ∀ path, Mirrors FaultyFiles (PairedFiles file) (parseFile path) (parseFile' path)
      likeModule fun _ => PairedFiles file) (kw kw' : Token) {str str' : Token}
    (hstr : str.text = str'.text) :
    Mirrored u₀ u₀' file anywhere (importRest fs importDirs parseFile kw str)
      (importRest fs' importDirs parseFile' kw' str') .any fun _ => anywhere := by
  -- an import is looked up from the path of the text it stands in
  have hget : Mirrored u₀ u₀' file anywhere get get (.of fun s => s.lex.buf.path)
      fun _ => anywhere :=
    .of_step (fun _ _ => rfl) (fun _ _ => rfl) (fun _ => id) fun _ _ hat _ =>
      ⟨hat.choose_spec.2.path, hat⟩
  refine hget.bind fun s s' hpath => ?_
  have hpath : s.lex.buf.path = s'.lex.buf.path := hpath
  rw [resolveImport_sameNames hnames, ← hpath, ← hstr]
  have hsub : Mirrored u₀ u₀' file anywhere (within FileState.parser FileState.withParser
      (parseFile (fs.resolveImport importDirs s.lex.buf.path str.text)))
      (within FileState.parser FileState.withParser
        (parseFile' (fs.resolveImport importDirs s.lex.buf.path str.text))) likeModule
      fun _ => anywhere := by
    refine Mirrors.within (hfile _) (fun _ => id) (fun _ _ => id) ?_ ?_
    · rintro x x' ⟨h, -, hpair⟩
      exact ⟨hpair.buffers, hpair.seenFiles, hpair.opened, hpair.clean, hpair.clean'⟩
    · rintro a x x' t t' ⟨h, -, hpair⟩ hfiles
      exact ⟨h, trivial, hpair.withParser hfiles⟩
  refine hsub.attempt.bind fun o o' ho => ?_
  cases ho with
  | none => exact mirrored_error_fail _ _ _ _
  | @some m m' hm =>
    have hmerge : Mirrored u₀ u₀' file anywhere
        (modify fun s => { s with stmts := s.stmts ++ m.stmts })
        (modify fun s => { s with stmts := s.stmts ++ m'.stmts }) .any fun _ => anywhere :=
      .of_step (fun _ _ => rfl) (fun _ _ => rfl) (fun _ => id) fun _ _ ⟨h, hP, hpair⟩ _ =>
        ⟨trivial, h, hP, { hpair with stmts := List.rel_append hpair.stmts hm }⟩
    exact (hmerge.weaken (fun _ _ _ => trivial) fun _ _ _ => id).bind fun _ _ _ =>
      mirrored_pushTop (.importDecl rfl)

theorem mirrored_import (hsame : Respelled u₀ u₀') (hnames : SameNames fs fs')
    (hfile : ∀ path, Mirrors FaultyFiles (PairedFiles file) (parseFile path) (parseFile' path)
      likeModule fun _ => PairedFiles file) :
    Mirrored u₀ u₀' file (fun _ k => k = .kwImport) (parseImport fs importDirs parseFile)
      (parseImport fs' importDirs parseFile') .any fun _ => anywhere := by
  have hhead : Mirrored u₀ u₀' file (fun _ k => k = .kwImport) importHead importHead
      (.of Token.text) fun _ => anywhere :=
    (mirrored_over hsame (fun _ _ => id) (by decide)).bind fun _ _ _ =>
      (mirrored_word hsame (by decide) (by decide)).bind fun _ _ hstr =>
        (mirrored_accept hsame (by decide)).bind fun _ _ _ => .pure hstr fun _ _ _ => trivial
  rw [parseImport_eq, parseImport_eq]
  exact (mirrored_cur hsame).bind fun _ _ _ => (hhead.weaken (fun _ _ h => h.1)
    fun _ _ _ => id).bind fun _ _ hstr => mirrored_importRest hnames hfile _ _ hstr

theorem mirrored_stmts (hsame : Respelled u₀ u₀') (halike : SpelledAlike u₀ u₀')
    (hnames : SameNames fs fs')
    (hfile : ∀ path, Mirrors FaultyFiles (PairedFiles file) (parseFile path) (parseFile' path)
      likeModule fun _ => PairedFiles file) :
    Mirrored u₀ u₀' file anywhere (parseStmts fs importDirs parseFile)
      (parseStmts fs' importDirs parseFile') .any fun _ => anywhere := by
  have hstmt : Mirrored u₀ u₀' file anywhere (parseTopStmt fs importDirs parseFile)
      (parseTopStmt fs' importDirs parseFile') .any fun _ => anywhere := by
    refine (mirrored_cur hsame).bind fun tok tok' htok => ?_
    rw [← htok.kind]
    split
    next hk =>
      exact (mirrored_import hsame hnames hfile).weaken (fun _ _ h => h.2.trans hk)
        fun _ _ _ => id
    next hk =>
      exact (mirrored_elementDecl hsame halike).weaken (fun _ _ h => h.2.trans hk)
        fun _ _ _ => id
    next hk =>
      exact (mirrored_elementGroupDecl hsame halike).weaken (fun _ _ h => h.2.trans hk)
        fun _ _ _ => id
    · exact (mirrored_declOrChain hsame halike .module).weaken (fun _ _ _ => trivial)
        fun _ _ _ => id
  refine .loop (fun _ _ _ => (mirrored_cur hsame).bind fun tok tok' htok => .ite
    (by rw [htok.kind]) (fun _ => .pure (.done trivial) fun _ _ _ => trivial) fun _ => ?_) trivial
  refine (hstmt.weaken (fun _ _ _ => trivial) fun _ _ _ => id).attempt.bind fun o o' hok => ?_
  have hnext : Mirrored u₀ u₀' file (fun h k => o.isSome = true ∧ anywhere h k)
      (if o.isNone = true then skipUntil stmtStops >>= fun _ => pure (ForInStep.yield ())
        else pure (.yield ()))
      (if o'.isNone = true then skipUntil stmtStops >>= fun _ => pure (ForInStep.yield ())
        else pure (.yield ())) (Likeness.step .any) fun _ => anywhere :=
    mirrored_recovery hok ((reports_skipUntil _).bind fun _ => .pure _) (.yield trivial)
  refine hnext.weaken (fun _ _ => id) fun step _ _ _ => ?_
  cases step <;> trivial

end

end Parser

end OpenClickNP
