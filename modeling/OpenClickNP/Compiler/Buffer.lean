import OpenClickNP.Compiler.Parsing
import OpenClickNP.Compiler.Walking

/-!
# The buffer of a lexer

No operation of the lexer changes the buffer it reads from, so the parser is in one file from the
first token it reads there to the last (`reads_buf`).
-/

namespace OpenClickNP

namespace Parser

variable {u v t : State} {ls : List Lexeme}

theorem buf_braceBlock : u.braceBlock.2.lex.buf = u.lex.buf := by
  unfold State.braceBlock
  split
  · rfl
  · simp only
    split <;> simp

/-- The parser stays in the file. -/
theorem reads_buf (h : u.Reads ls t) : t.lex.buf = u.lex.buf := by
  induction ls generalizing u with
  | nil => rw [reads_nil.mp h]
  | cons l ls ih =>
    by_cases hl : ∀ text, l ≠ .block text
    · exact (ih ((reads_cons hl).mp h).2).trans Lexer.buf_next
    · simp only [not_forall, not_not] at hl
      obtain ⟨text, rfl⟩ := hl
      obtain ⟨blk, v, hblk, -, hrest⟩ := reads_block.mp h
      have hbuf := buf_braceBlock (u := u)
      rw [hblk] at hbuf
      exact (ih hrest).trans hbuf

end Parser

end OpenClickNP
