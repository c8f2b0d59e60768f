import OpenClickNP.Compiler.OpaqueBlock
import OpenClickNP.Compiler.Parsing

/-!
# Laid out text

A text is laid out by putting blanks in front of its lexemes, where two of them would otherwise be
read as one. `reads_layout`: the parser sees the lexemes of a laid out text, opaque blocks
included, as long as the braces in front of these stand within the first 4 GiB of the file: the
way back to the character behind a brace goes through a 32-bit offset.
-/

namespace OpenClickNP

open OpenClickNP.Parser OpenClickNP.Lexer

/-- A lexeme and the blanks in front of it. -/
structure Spelled where
  gap : List Char
  lexeme : Lexeme

namespace Spelled

def text (p : Spelled) : List Char := p.gap ++ p.lexeme.spelling

end Spelled

def textOf (ps : List Spelled) : List Char := ps.flatMap Spelled.text

/-- The text of a block is balanced. -/
def Lexeme.Closed : Lexeme → Prop
  | .block text => OpaqueText 0 text.toList
  | _ => True

def Lexeme.isBlock : Lexeme → Bool
  | .block _ => true
  | _ => false

theorem closed_of_isBlock {l : Lexeme} (h : l.isBlock = false) : l.Closed := by
  cases l with
  | block text => nomatch h
  | _ => trivial

/-- Blanks keep the lexemes apart, from each other and from the text `t` behind them. -/
def Spaced : List Spelled → List Char → Prop
  | [], _ => True
  | p :: ps, t =>
    (∀ c ∈ p.gap, isBlank c = true) ∧ StopsAt p.lexeme.runsOn (textOf ps ++ t) ∧ Spaced ps t

/-- Behind `n` characters, each brace that opens a block ends below 4 GiB. -/
def InReach : Nat → List Spelled → Prop
  | _, [] => True
  | n, p :: ps =>
    (p.lexeme.isBlock = true → n + p.gap.length + 1 < 2 ^ 32) ∧ InReach (n + p.text.length) ps

section
variable {lx lx' : Lexer} {u : State} {ps : List Spelled} {t : List Char}

theorem passes_seekTo (h : lx.pos < 2 ^ 32) (hle : lx.pos ≤ lx.src.length) :
    Passes lx [] (lx.seekTo (UInt32.ofNat lx.pos)) := by
  have hpos : (UInt32.ofNat lx.pos).toNat = lx.pos := by
    rw [UInt32.toNat_ofNat']
    exact Nat.mod_eq_of_lt h
  have hseek : (lx.seekTo (UInt32.ofNat lx.pos)).pos = lx.pos := by
    unfold seekTo
    rw [hpos, if_neg (Nat.not_lt.mpr hle)]
    exact hpos
  refine ⟨?_, rfl, rfl, rfl, hseek⟩
  rw [List.nil_append, rest, rest, hseek]
  rfl

/-- `braceBlock` at a brace, when the block is closed. -/
theorem braceBlock_eq {lx₀ : Lexer} (hkind : u.cur.kind = .lBrace)
    (hlx : u.lex.seekTo u.cur.range.end.offset = lx₀)
    (hok : lx₀.lexOpaqueBlock.1.kind ≠ .error) :
    u.braceBlock = (some {
        text := lx₀.lexOpaqueBlock.1.text
        src := {
          «begin» := u.cur.range.begin
          «end» := lx₀.lexOpaqueBlock.1.range.end } },
      { u with lex := lx₀.lexOpaqueBlock.2.next.2, cur := lx₀.lexOpaqueBlock.2.next.1 }) := by
  have hbrace : ¬ u.cur.kind ≠ .lBrace := not_not.mpr hkind
  unfold State.braceBlock
  rw [if_neg hbrace, hlx]
  generalize lx₀.lexOpaqueBlock = out at hok
  exact if_neg hok

/-- A block, from its brace on. -/
theorem braceBlock_layout {text : String} (hkind : u.cur.kind = .lBrace)
    (hend : u.cur.range.end = u.lex.here) (hpos : u.lex.pos < 2 ^ 32)
    (hclosed : OpaqueText 0 text.toList) (hrest : u.lex.rest = text.toList ++ '\x7d' :: t) :
    ∃ blk v lx', u.braceBlock = (some blk, v) ∧ blk.text = text ∧
      lx'.next = (v.cur, v.lex) ∧ Passes u.lex (text.toList ++ ['\x7d']) lx' := by
  have hle : u.lex.pos ≤ u.lex.src.length := by
    have hlen := congrArg List.length hrest
    simp only [rest, List.length_drop, List.length_append, List.length_cons] at hlen
    omega
  have hseek := passes_seekTo hpos hle
  have hoffset : u.cur.range.end.offset = UInt32.ofNat u.lex.pos := by rw [hend, here]
  rw [← hoffset] at hseek
  obtain ⟨hcpp, htext, hpass⟩ := lexOpaqueBlock_closed hclosed
    (hseek.rest_eq (t := text.toList ++ '\x7d' :: t) hrest)
  have hblock := braceBlock_eq hkind rfl (by rw [hcpp]; decide)
  refine ⟨_, _, _, hblock, ?_, ?_, hseek.trans hpass⟩
  · rw [htext, String.ofList_toList]
  · simp only [Prod.eta]

theorem textOf_cons (gap : List Char) (l : Lexeme) (ps : List Spelled) :
    textOf ({ gap := gap, lexeme := l } :: ps) = gap ++ (l.spelling ++ textOf ps) := by
  rw [textOf, List.flatMap_cons, Spelled.text, List.append_assoc]
  rfl

/-- **Laid out lexemes.** If the token of `u` is the first in the text in front of `lx`, the parser
sees the lexemes of that text. Induction on them. -/
theorem reads_layout (hu : lx.next = (u.cur, u.lex)) (hrest : lx.rest = textOf ps ++ t)
    (hspaced : Spaced ps t) (hplain : ∀ p ∈ ps, p.lexeme.Plain ∧ p.lexeme.Closed)
    (hreach : InReach lx.pos ps) :
    ∃ v lx', u.Reads (ps.map Spelled.lexeme) v ∧ lx'.next = (v.cur, v.lex) ∧
      Passes lx (textOf ps) lx' := by
  induction ps generalizing u lx with
  | nil => exact ⟨u, lx, reads_nil.mpr rfl, hu, .refl lx⟩
  | cons p ps ih =>
    obtain ⟨gap, l⟩ := p
    obtain ⟨hgap, hstops, hspaced⟩ := hspaced
    replace hgap : ∀ c ∈ gap, isBlank c = true := hgap
    obtain ⟨hl, hclosed⟩ := hplain _ List.mem_cons_self
    have hplain' := fun q hq => hplain q (List.mem_cons_of_mem _ hq)
    obtain ⟨hbrace, hreach⟩ := hreach
    rw [Spelled.text, List.length_append] at hreach
    rw [textOf_cons] at hrest ⊢
    simp only [List.append_assoc] at hrest
    rw [List.map_cons]
    by_cases hblock : ∃ text, l = .block text
    · obtain ⟨text, rfl⟩ := hblock
      have hrest' : lx.rest = gap ++ ((Lexeme.block text).opening ++
          (text.toList ++ '\x7d' :: (textOf ps ++ t))) := by
        rw [hrest]
        simp [Lexeme.spelling, Lexeme.opening]
      have hopening : (Lexeme.block text).opening.length = 1 := rfl
      have hspelling : (Lexeme.block text).spelling.length = text.toList.length + 2 := by
        simp [Lexeme.spelling]
      obtain ⟨tok, lx₁, hnext, hmatch, hend, hpass⟩ := next_lexeme hl hgap hrest'
        fun _ _ => rfl
      obtain ⟨rfl, rfl⟩ : tok = u.cur ∧ lx₁ = u.lex := by simpa [hu] using hnext.symm
      have hrest₁ := hpass.rest_eq (by rw [hrest', List.append_assoc])
      have hpos₁ := hpass.pos
      rw [List.length_append, hopening] at hpos₁
      obtain ⟨blk, v, lx₂, hblk, htext, hnext₂, hpass₂⟩ :=
        braceBlock_layout hmatch hend (by rw [hpos₁]; exact hbrace rfl) hclosed hrest₁
      have hpos₂ : lx₂.pos = lx.pos + (gap.length + (Lexeme.block text).spelling.length) := by
        rw [hpass₂.pos, List.length_append, List.length_singleton]
        omega
      obtain ⟨w, lx', hreads, hnext', hpass'⟩ := ih hnext₂
        (hpass₂.rest_eq (by rw [hrest₁]; simp)) hspaced hplain' (by rw [hpos₂]; exact hreach)
      refine ⟨w, lx', reads_block.mpr ⟨blk, v, hblk, htext, hreads⟩, hnext', ?_⟩
      have hall := hpass.trans (hpass₂.trans hpass')
      simpa [Lexeme.opening, Lexeme.spelling] using hall
    · have hopening : l.opening = l.spelling := by
        cases l with
        | block text => exact absurd ⟨text, rfl⟩ hblock
        | _ => rfl
      obtain ⟨tok, lx₁, hnext, hmatch, -, hpass⟩ := next_lexeme hl hgap
        (by rw [hopening]; exact hrest) hstops
      obtain ⟨rfl, rfl⟩ : tok = u.cur ∧ lx₁ = u.lex := by simpa [hu] using hnext.symm
      rw [hopening] at hpass
      have hpos₁ := hpass.pos
      rw [List.length_append] at hpos₁
      obtain ⟨w, lx', hreads, hnext', hpass'⟩ := ih (u := u.advance) rfl
        (hpass.rest_eq (by rw [hrest, List.append_assoc])) hspaced hplain'
        (by rw [hpos₁]; exact hreach)
      refine ⟨w, lx', (reads_cons fun text heq => hblock ⟨text, heq⟩).mpr ⟨hmatch, hreads⟩,
        hnext', ?_⟩
      simpa using hpass.trans hpass'

/-- A file of laid out lexemes, from its first token to its end. -/
theorem openFile_reads {p : Parser} {path : String}
    (hblanks : ∀ c ∈ t, isBlank c = true) (hspaced : Spaced ps t)
    (hplain : ∀ q ∈ ps, q.lexeme.Plain ∧ q.lexeme.Closed) (hreach : InReach 0 ps) :
    ∃ v, (openFile p path (textOf ps ++ t)).toState.Reads (ps.map Spelled.lexeme) v ∧
      v.cur.kind = .eof ∧ v.lex.diags = p.diags := by
  let lx₀ : Lexer := {
    buf := { path := path, contents := textOf ps ++ t }
    fileId := UInt32.ofNat p.buffers.length
    diags := p.diags }
  have hrest : lx₀.rest = textOf ps ++ t := rfl
  have hstart : lx₀.next = ((openFile p path (textOf ps ++ t)).cur,
      (openFile p path (textOf ps ++ t)).lex) := rfl
  obtain ⟨v, lx₁, hreads, hnext, hpass⟩ := reads_layout hstart hrest hspaced hplain hreach
  -- only blanks are left, so the next token is the end
  have hrest₁ := hpass.rest_eq hrest
  rw [← hrest₁] at hblanks
  obtain ⟨tok, lx₂, hend, heof, hpass₂⟩ := next_of_blank hblanks
  obtain ⟨rfl, rfl⟩ : tok = v.cur ∧ lx₂ = v.lex := by simpa [hnext] using hend.symm
  exact ⟨v, hreads, heof, hpass₂.diags.trans hpass.diags⟩

theorem inReach_of_length (n : Nat) (h : n + (textOf ps).length < 2 ^ 32) : InReach n ps := by
  induction ps generalizing n with
  | nil => trivial
  | cons q ps ih =>
    obtain ⟨gap, l⟩ := q
    rw [textOf_cons] at h
    simp only [List.length_append] at h
    refine ⟨fun hblock => ?_, ih _ ?_⟩
    · cases l with
      | block text =>
        simp only [Lexeme.spelling, List.length_cons] at h
        show n + gap.length + 1 < 2 ^ 32
        omega
      | _ => nomatch hblock
    · have hlen : (Spelled.text { gap := gap, lexeme := l }).length
          = gap.length + l.spelling.length := List.length_append
      omega

theorem inReach_of_isBlock (n : Nat) (h : ∀ q ∈ ps, q.lexeme.isBlock = false) : InReach n ps := by
  induction ps generalizing n with
  | nil => trivial
  | cons q ps ih =>
    refine ⟨fun hblock => ?_, ih _ fun p hp => h p (List.mem_cons_of_mem _ hp)⟩
    rw [h q List.mem_cons_self] at hblock
    nomatch hblock

end

/-! ## One blank in front of each lexeme -/

def spread (ls : List Lexeme) : List Spelled := ls.map fun l => { gap := [' '], lexeme := l }

theorem runsOn_blank (l : Lexeme) : l.runsOn ' ' = false := by
  cases l with
  | sym k => cases k <;> rfl
  | ident x => rfl
  | number n => rfl
  | str x => rfl
  | block text => rfl

/-- The text behind the lexemes starts with a blank, too. -/
theorem spaced_spread (ls : List Lexeme) {t : List Char} (ht : ∀ c ∈ t.head?, c = ' ') :
    Spaced (spread ls) t := by
  induction ls with
  | nil => trivial
  | cons l ls ih =>
    refine ⟨fun c hc => ?_, fun c hc => ?_, ih⟩
    · rw [List.mem_singleton.mp hc]
      rfl
    · have hblank : c = ' ' := by
        cases ls with
        | nil => exact ht c hc
        | cons m ls => exact (Option.some.inj hc).symm
      rw [hblank]
      exact runsOn_blank l

theorem textOf_spread_cons (l : Lexeme) (ls : List Lexeme) :
    textOf (spread (l :: ls)) = ' ' :: (l.spelling ++ textOf (spread ls)) := by
  rw [spread, List.map_cons, textOf_cons]
  rfl

theorem textOf_spread_append (ls ls' : List Lexeme) :
    textOf (spread (ls ++ ls')) = textOf (spread ls) ++ textOf (spread ls') := by
  rw [spread, List.map_append, textOf, List.flatMap_append]
  rfl

theorem map_spread (ls : List Lexeme) : (spread ls).map Spelled.lexeme = ls := by
  rw [spread, List.map_map]
  exact List.map_id _

theorem openFile_spread (ls : List Lexeme) (p : Parser) (path : String)
    (hplain : ∀ l ∈ ls, l.Plain ∧ l.isBlock = false) :
    ∃ v, (openFile p path (textOf (spread ls))).toState.Reads ls v ∧ v.cur.kind = .eof := by
  have hall : ∀ q ∈ spread ls, q.lexeme.Plain ∧ q.lexeme.isBlock = false := by
    intro q hq
    refine hplain _ ?_
    rw [← map_spread ls]
    exact List.mem_map_of_mem hq
  obtain ⟨v, hreads, hend, -⟩ := openFile_reads (p := p) (t := []) nofun (spaced_spread ls nofun)
    (fun q hq => ⟨(hall q hq).1, closed_of_isBlock (hall q hq).2⟩)
    (inReach_of_isBlock 0 fun q hq => (hall q hq).2)
  rw [List.append_nil, map_spread] at hreads
  exact ⟨v, hreads, hend⟩

end OpenClickNP
