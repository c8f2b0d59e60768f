import OpenClickNP.Compiler.Buffer
import OpenClickNP.Compiler.Identifiers
import OpenClickNP.Compiler.Literals

/-!
# Texts with their literals respelled

Two texts are walked token by token, a block of C++ taken as a whole (`Along`). The second is the
first with some integer literals written in another base when the walk meets the same tokens and
blocks in both, up to literals of one value (`Respelled`). What a literal is for can be told from
the kinds of the tokens in front of it.
-/

namespace OpenClickNP

/-! ## Error tokens -/

namespace Lexer

/-- The lexer reports an error exactly where it gives an error token. -/
structure Complains (lx : Lexer) (out : Token × Lexer) : Prop where
  quiet : out.1.kind ≠ .error → out.2.diags = lx.diags
  loud : out.1.kind = .error → out.2.diags.hasError = true

variable {lx : Lexer} {start : SourceLoc}

/-- A token of another kind. -/
theorem Complains.of_ne {lx' : Lexer} {t : Token} (hkind : t.kind ≠ .error)
    (hdiags : lx'.diags = lx.diags) : Complains lx (t, lx') :=
  ⟨fun _ => hdiags, fun h => absurd h hkind⟩

theorem Complains.of_error {lx' : Lexer} {t : Token} (hkind : t.kind = .error)
    (herror : lx'.diags.hasError = true) : Complains lx (t, lx') :=
  ⟨fun h => absurd hkind h, fun _ => herror⟩

theorem complains_lexString : Complains lx (lx.lexString start) := by
  have hloop := (walks_stringLoop lx.advance.left [] lx.advance).of_advance
  unfold lexString
  simp only
  generalize stringLoop _ _ _ = out at hloop
  split
  · exact .of_error rfl (DiagnosticEngine.hasError_error _ _ _)
  · exact .of_ne (fun h => Tok.noConfusion h) hloop.advance.diags

theorem complains_directive : Complains lx (lx.lexDirectiveKeyword start) := by
  have htable : ∀ x ∈ directives, x.2 ≠ .error := by decide
  have hscan := (walks_scan lx.advance fun l => isWordChar l.peek).of_advance
  unfold lexDirectiveKeyword
  simp only
  split
  · rename_i kind hlookup
    exact .of_ne (htable _ (mem_of_lookup hlookup)) hscan.diags
  · exact .of_error rfl (DiagnosticEngine.hasError_error _ _ _)

theorem complains_identOrKeyword : Complains lx (lx.lexIdentOrKeyword start) := by
  have htable : ∀ x ∈ keywords, x.2 ≠ .error := by decide
  refine .of_ne ?_ (walks_scan lx _).diags
  show ((keywords.lookup _).getD .ident) ≠ .error
  cases hlookup : keywords.lookup (String.ofList
      ((lx.scan fun l => isWordChar l.peek).textFrom lx.pos)) with
  | none => exact fun h => Tok.noConfusion h
  | some kind => exact htable _ (mem_of_lookup hlookup)

theorem complains_number : Complains lx (lx.lexNumber start) := by
  unfold lexNumber
  split
  · exact .of_ne (fun h => Tok.noConfusion h) ((walks_two lx).trans (walks_scan _ _)).diags
  · split
    · exact .of_ne (fun h => Tok.noConfusion h) (walks_scan lx.advance _).of_advance.diags
    · exact .of_ne (fun h => Tok.noConfusion h) (walks_scan lx _).diags

theorem punctuation_ne_error {c : Char} {kind : Tok} (h : punctuation c = some kind) :
    kind ≠ .error := by
  unfold punctuation at h
  split at h <;> cases h <;> decide

theorem complains_lexToken : Complains lx (lx.lexToken start) := by
  have htwo := (walks_two lx).diags
  unfold lexToken
  simp only
  split
  · exact .of_ne (fun h => Tok.noConfusion h) htwo
  split
  · exact .of_ne (fun h => Tok.noConfusion h) htwo
  split
  · exact .of_ne (fun h => Tok.noConfusion h) htwo
  split
  · rename_i kind hkind
    exact .of_ne (punctuation_ne_error hkind) (walks_advance lx).diags
  split
  · exact complains_lexString
  split
  · exact complains_directive
  split
  · exact complains_number
  split
  · exact complains_identOrKeyword
  · exact .of_error rfl (DiagnosticEngine.hasError_error _ _ _)

/-- **Error tokens.** -/
theorem complains_next (lx : Lexer) : Complains lx lx.next := by
  unfold next
  simp only
  split
  · exact .of_ne (fun h => Tok.noConfusion h) (walks_skip lx).diags
  · have htoken : Complains lx.skipWhitespaceAndComments (lx.skipWhitespaceAndComments.lexToken
        lx.skipWhitespaceAndComments.here) := complains_lexToken
    exact ⟨fun h => (htoken.quiet h).trans (walks_skip lx).diags, htoken.loud⟩

/-- An opaque block that is not closed. -/
theorem complains_opaqueBlock (lx : Lexer) : Complains lx lx.lexOpaqueBlock := by
  have hloop := (walks_opaqueLoop lx.left 1 lx).diags
  have hbrace : ∀ l : Lexer, (if l.peek = '\x7d' then l.advance else l).diags = l.diags := by
    intro l
    split
    · exact (walks_advance l).diags
    · rfl
  unfold lexOpaqueBlock
  simp only
  generalize opaqueLoop lx.left 1 lx = out at hloop
  obtain ⟨depth, lx'⟩ := out
  cases hclosed : depth == 0 with
  | true => exact .of_ne (fun h => Tok.noConfusion h) ((hbrace lx').trans hloop)
  | false =>
    refine .of_error rfl ?_
    rw [hbrace]
    exact DiagnosticEngine.hasError_error _ _ _

end Lexer

namespace Parser

/-- A block that is read, with the lexer behind its closing brace. -/
theorem braceBlock_some {u v : State} {blk : Ast.OpaqueCpp} (h : u.braceBlock = (some blk, v)) :
    u.cur.kind = .lBrace ∧
      ∃ lx : Lexer, lx.diags = u.lex.diags ∧ v.cur = lx.next.1 ∧ v.lex = lx.next.2 := by
  unfold State.braceBlock at h
  split at h
  · cases h
  · rename_i hbrace
    have hblock := Lexer.complains_opaqueBlock (u.lex.seekTo u.cur.range.end.offset)
    generalize (u.lex.seekTo u.cur.range.end.offset).lexOpaqueBlock = out at h hblock
    obtain ⟨body, lx⟩ := out
    simp only at h
    split at h
    · cases h
    · rename_i hkind
      cases h
      exact ⟨by simpa using hbrace, lx, hblock.quiet hkind, rfl, rfl⟩

/-- A block that is not read has been reported. -/
theorem braceBlock_none {u v : State} (h : u.braceBlock = (none, v)) :
    v.lex.diags.hasError = true := by
  unfold State.braceBlock at h
  split at h
  · cases h
    exact DiagnosticEngine.hasError_error _ _ _
  · have hblock := Lexer.complains_opaqueBlock (u.lex.seekTo u.cur.range.end.offset)
    generalize (u.lex.seekTo u.cur.range.end.offset).lexOpaqueBlock = out at h hblock
    obtain ⟨body, lx⟩ := out
    simp only at h
    split at h
    · rename_i hkind
      cases h
      exact hblock.loud hkind
    · cases h

/-! ## Where a token stands -/

/-- Inside the parentheses of a `.signal`. The kinds of the tokens in front are those of `h`, the
last one first. -/
def inSignalParams (h : List Tok) : Bool :=
  match h.dropWhile fun k => k == .ident || k == .comma with
  | .lParen :: .kwSignal :: _ => true
  | _ => false

/-- A brace opens a block of C++. -/
def blockNext : List Tok → Bool
  | .kwState :: _ => true
  | .kwInit :: _ => true
  | .kwHandler :: _ => true
  | .kwSignal :: _ => true
  | .rParen :: h => inSignalParams h
  | _ => false

/-- A number is an initiation interval. -/
def iiNext : List Tok → Bool
  | .equals :: _ => true
  | _ => false

/-- A number is a parameter of an instance, and not the second of two port counts. -/
def paramNext : List Tok → Bool
  | .comma :: .stringLit :: _ => true
  | .comma :: .integer :: k :: _ => k != .lParen && k != .lAngle
  | _ => false

/-- What an entry of `.timing` makes of the text of a number; `none` where it is refused. -/
def timingIi (text : String) : Option Int := (stoi text).filter fun ii => 1 ≤ ii ∧ ii ≤ 64

/-! ## Walking two texts -/

/-- Two texts are at `u` and `u'` after a walk over the tokens and blocks `h`. -/
inductive Along (u₀ u₀' : State) : List Tok → State → State → Prop
  | start : Along u₀ u₀' [] u₀ u₀'
  | token {h : List Tok} {u u' : State} (hwalk : Along u₀ u₀' h u u') (hmore : u.cur.kind ≠ .eof)
      (hbrace : u.cur.kind = .lBrace → blockNext h = false) :
      Along u₀ u₀' (u.cur.kind :: h) u.advance u'.advance
  | block {h : List Tok} {u u' v v' : State} {blk blk' : Ast.OpaqueCpp}
      (hwalk : Along u₀ u₀' h u u') (hnext : blockNext h = true)
      (hread : u.braceBlock = (some blk, v)) (hread' : u'.braceBlock = (some blk', v')) :
      Along u₀ u₀' (.opaqueCpp :: h) v v'

/-- The same token, or two literals of one value. -/
def Respells (t t' : Token) : Prop :=
  (t.kind = t'.kind ∧ t.text = t'.text ∧ t.intValue = t'.intValue) ∨
    ∃ l l' : Literal, l.value = l'.value ∧
      t.Matches (.number l.numeral) ∧ t'.Matches (.number l'.numeral)

/-- The texts differ in nothing but how their literals are written. -/
structure Respelled (u₀ u₀' : State) : Prop where
  tokens : ∀ h u u', Along u₀ u₀' h u u' → Respells u.cur u'.cur
  blocks : ∀ h u u', Along u₀ u₀' h u u' → blockNext h = true →
    u.braceBlock.1.map Ast.OpaqueCpp.text = u'.braceBlock.1.map Ast.OpaqueCpp.text

/-- The literals that are read digit by digit keep their digits, an initiation interval as far as
`stoi` takes them for the same number. -/
structure SpelledAlike (u₀ u₀' : State) : Prop where
  timing : ∀ h u u', Along u₀ u₀' h u u' → iiNext h = true → u.cur.kind = .integer →
    timingIi u.cur.text = timingIi u'.cur.text
  params : ∀ h u u', Along u₀ u₀' h u u' → paramNext h = true → u.cur.kind = .integer →
    u.cur.text = u'.cur.text

section
variable {u₀ u₀' u u' : State} {h : List Tok} {t t' : Token}

theorem Respells.refl (t : Token) : Respells t t := .inl ⟨rfl, rfl, rfl⟩

theorem Respells.kind (h : Respells t t') : t.kind = t'.kind := by
  rcases h with ⟨hkind, -⟩ | ⟨l, l', -, hl, hl'⟩
  · exact hkind
  · exact hl.1.trans hl'.1.symm

theorem Respells.text (h : Respells t t') (hkind : t.kind ≠ .integer) : t.text = t'.text := by
  rcases h with ⟨-, htext, -⟩ | ⟨l, l', -, hl, -⟩
  · exact htext
  · exact absurd hl.1 hkind

/-- Literals of one value have tokens of one value. -/
theorem Respells.value (h : Respells t t') : t.intValue = t'.intValue := by
  rcases h with ⟨-, -, hvalue⟩ | ⟨l, l', hvalue, hl, hl'⟩
  · exact hvalue
  · rw [hl.2.2, hl'.2.2]
    unfold Literal.numeral
    rw [hvalue]

theorem Respells.symm (h : Respells t t') : Respells t' t := by
  rcases h with ⟨hkind, htext, hvalue⟩ | ⟨l, l', hvalue, hl, hl'⟩
  · exact .inl ⟨hkind.symm, htext.symm, hvalue.symm⟩
  · exact .inr ⟨l', l, hvalue.symm, hl', hl⟩

/-- The walk, with the texts the other way round. -/
theorem Along.symm (hsame : Respelled u₀ u₀') (hwalk : Along u₀ u₀' h u u') :
    Along u₀' u₀ h u' u := by
  induction hwalk with
  | start => exact .start
  | token hwalk hmore hbrace ih =>
    -- a walk notes the kinds of the tokens, and these are the same in both texts
    have hkind := (hsame.tokens _ _ _ hwalk).kind
    rw [hkind] at hmore hbrace ⊢
    exact .token ih hmore hbrace
  | block _ hnext hread hread' ih => exact .block ih hnext hread' hread

theorem Respelled.symm (hsame : Respelled u₀ u₀') : Respelled u₀' u₀ := by
  -- as for `Along.symm`, but with the kinds known for the other order of the texts
  have hback : ∀ h u u', Along u₀' u₀ h u u' → Along u₀ u₀' h u' u := by
    intro h u u' hwalk
    induction hwalk with
    | start => exact .start
    | token _ hmore hbrace ih =>
      have hkind := (hsame.tokens _ _ _ ih).kind
      rw [← hkind] at hmore hbrace ⊢
      exact .token ih hmore hbrace
    | block _ hnext hread hread' ih => exact .block ih hnext hread' hread
  exact ⟨fun h u u' hwalk => (hsame.tokens h u' u (hback h u u' hwalk)).symm,
    fun h u u' hwalk hnext => (hsame.blocks h u' u (hback h u u' hwalk) hnext).symm⟩

theorem SpelledAlike.symm (halike : SpelledAlike u₀ u₀') (hsame : Respelled u₀ u₀') :
    SpelledAlike u₀' u₀ where
  timing h u u' hwalk hnext hkind := by
    have hback := hwalk.symm hsame.symm
    exact (halike.timing h u' u hback hnext ((hsame.tokens h u' u hback).kind ▸ hkind)).symm
  params h u u' hwalk hnext hkind := by
    have hback := hwalk.symm hsame.symm
    exact (halike.params h u' u hback hnext ((hsame.tokens h u' u hback).kind ▸ hkind)).symm

/-- A text is the same as itself. -/
theorem Along.eq (hwalk : Along u₀ u₀ h u u') : u = u' := by
  induction hwalk with
  | start => rfl
  | token _ _ _ ih => rw [ih]
  | block _ _ hread hread' ih =>
    rw [ih, hread'] at hread
    exact (congrArg Prod.snd hread).symm

theorem Respelled.refl (u₀ : State) : Respelled u₀ u₀ where
  tokens h u u' hwalk := by
    rw [hwalk.eq]
    exact .refl _
  blocks h u u' hwalk _ := by rw [hwalk.eq]

theorem SpelledAlike.refl (u₀ : State) : SpelledAlike u₀ u₀ where
  timing h u u' hwalk _ _ := by rw [hwalk.eq]
  params h u u' hwalk _ _ := by rw [hwalk.eq]

end

end Parser

end OpenClickNP
