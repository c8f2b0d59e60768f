import OpenClickNP.Compiler.LexerProgress
import OpenClickNP.Compiler.BeyondReach

/-!
# The text of a section

The parser reads one token ahead, so at a brace the lexer stands behind it already. From there on
`parseBraceBlock` takes a balanced text byte for byte, and the next token is the first one behind
the brace that closes it (`readsBlock_of_near`). It finds its way back through the 32-bit offset
of the brace, so the brace has to end below 4 GiB (`readsBlock_beyond`).
-/

namespace OpenClickNP

open Production OpenClickNP.Parser OpenClickNP.Lexer

/-- The current token is a brace, and the lexer stands where it stood when it had read it. -/
structure AtBrace (s : FileState) : Prop where
  kind : s.cur.kind = .lBrace
  read : ∃ lx : Lexer, lx.next = (s.cur, s.lex)

/-- `parseBraceBlock` takes the characters `w` for the text of the block, and the token behind them
and their closing brace is the next one. -/
def ReadsBlock (s : FileState) (w : List Char) : Prop :=
  ∃ blk lx, Passes s.lex (w ++ ['\x7d']) lx ∧ blk.text = String.ofList w ∧
    Yields parseBraceBlock s (some blk)
      (s.at { s.toState with cur := lx.next.1, lex := lx.next.2 })

/-- **The text of a block.** -/
theorem readsBlock_of_near {s : FileState} {w t : List Char} (hs : AtBrace s)
    (hbalanced : OpaqueText 0 w) (hrest : s.lex.rest = w ++ '\x7d' :: t)
    (hnear : s.lex.pos < 2 ^ 32) : ReadsBlock s w := by
  obtain ⟨lx₀, hread⟩ := hs.read
  have hend : s.cur.range.end = s.lex.here := by
    have hbehind := (next_advances lx₀).behind
    rwa [hread] at hbehind
  have hle : s.lex.pos ≤ s.lex.src.length := by
    have hlen := congrArg List.length hrest
    simp only [rest, List.length_drop, List.length_append, List.length_cons] at hlen
    omega
  -- the way back leads to where the lexer is
  have hseek := passes_seekTo hnear hle
  have hoffset : s.cur.range.end.offset = UInt32.ofNat s.lex.pos := by rw [hend, here]
  rw [← hoffset] at hseek
  obtain ⟨hcpp, htext, hpass⟩ := lexOpaqueBlock_closed hbalanced
    (hseek.rest_eq (t := w ++ '\x7d' :: t) hrest)
  have hblock := braceBlock_eq hs.kind rfl (by rw [hcpp]; decide)
  generalize (s.lex.seekTo s.cur.range.end.offset).lexOpaqueBlock = out at hblock hpass htext
  refine ⟨{
      text := out.1.text
      src := { «begin» := s.cur.range.begin, «end» := out.1.range.end } },
    out.2, hseek.trans hpass, htext, .of_eq fun _ => ?_⟩
  rw [parseBraceBlock, hblock]
  rfl

/-- In front of the block of a section, which is the last of its element. -/
def beforeBlock : Lexer where
  buf := { path := "e.clnp", contents := "\x7b if (c) \x7b n = '\x7b'; \x7d \x7d \x7d".toList }
  fileId := 0

def stateBlock : FileState where
  lex := beforeBlock.next.2
  cur := beforeBlock.next.1

/-- A block with a brace in a character literal. -/
theorem readsBlock_stateBlock :
    ReadsBlock stateBlock " if (c) \x7b n = '\x7b'; \x7d ".toList :=
  have hquoted : Quoted '\'' ['\x7b'] := .plain (by decide) (by decide) .nil
  readsBlock_of_near ⟨by decide, beforeBlock, rfl⟩
    (.plains (w := " if (c) ".toList) (by decide)
      (.opened (.plains (w := " n = ".toList) (by decide)
        (.literal (.inr rfl) hquoted
          (.plains (w := "; ".toList) (by decide)
            (.closed (.plains (w := " ".toList) (by decide) .nil)))))))
    (t := " \x7d".toList) (by decide) (by decide)

/-! ## Beyond 4 GiB -/

/-- At a brace that ends at offset `2 ^ 32` the parser goes back to the start of the file, and
reads a block that is not closed. -/
theorem readsBlock_beyond : ¬ ∀ (s : FileState) (w t : List Char), AtBrace s → OpaqueText 0 w →
    s.lex.rest = w ++ '\x7d' :: t → ReadsBlock s w := by
  intro h
  have hn : 4294967255 + 41 = 2 ^ 32 := by decide
  generalize 4294967255 = n at hn
  obtain ⟨v, hreads, hkind, hpos, hoffset, hseek⟩ := reads_front hn {} "e.clnp"
  have hopaque := opaque_file n
  have hbehind : textOf (spread (frontLexemes n ++ [.block "", .sym .rBrace]))
      = (textOf (spread (frontLexemes n)) ++ " \x7b".toList) ++
        '\x7d' :: textOf (spread [.sym .rBrace]) := by
    rw [textOf_spread_append, textOf_spread_cons]
    simp [Lexeme.spelling]
  generalize textOf (spread (frontLexemes n ++ [.block "", .sym .rBrace])) = contents at *
  -- the last token read in front of the brace
  have hreads' : State.Reads _
    ((headLexemes ++ [.block (String.ofList (List.replicate n ' '))]) ++ [.sym .kwInit]) v := hreads
  obtain ⟨v₀, -, hlast⟩ := reads_append.mp hreads'
  have hv : v₀.advance = v := reads_nil.mp (reads_sym.mp hlast).2
  have hatBrace : AtBrace ((openFile {} "e.clnp" contents).at v) :=
    ⟨hkind, v₀.lex, by rw [← hv]; rfl⟩
  have hsrc : v.lex.src = contents := hseek
  have hrest : v.lex.rest = [] ++ '\x7d' :: textOf (spread [.sym .rBrace]) := by
    have hlen : (textOf (spread (frontLexemes n)) ++ " \x7b".toList).length = v.lex.pos := by
      rw [List.length_append, length_front, hpos]
      exact hn
    rw [rest, hsrc, hbehind, ← hlen, List.drop_left, List.nil_append]
  obtain ⟨blk, lx, -, -, hblock⟩ := h _ _ _ hatBrace .nil hrest
  rw [← hoffset] at hseek
  obtain ⟨v', hfails, -⟩ := braceBlock_unclosed hkind rfl hseek hopaque
  have hnone := (fails_braceBlock (s := openFile {} "e.clnp" contents) hfails).unique hblock
  exact absurd hnone.1 (by simp)

end OpenClickNP
