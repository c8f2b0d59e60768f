import OpenClickNP.Compiler.OpaqueBlock

/-!
# C++ texts

The text of a block as a sequence of comments, string and character literals, words and other
characters. A word is an identifier, a keyword or a number. Comments and literals are those that
`lexOpaqueBlock` reads, through which every block comes: a backslash in a literal takes the next
character along, and a line comment ends at the line break.
-/

namespace OpenClickNP

inductive Piece where
  | comment (text : List Char)
  | literal (text : List Char)
  | word (text : List Char)
  | mark (c : Char)
deriving DecidableEq, Repr

namespace Piece

def text : Piece → List Char
  | comment text => text
  | literal text => text
  | word text => text
  | mark c => [c]

end Piece

/-- The text of the pieces. -/
def spell (ps : List Piece) : List Char := ps.flatMap Piece.text

@[simp] theorem spell_nil : spell [] = [] := rfl

@[simp] theorem spell_cons (p : Piece) (ps : List Piece) : spell (p :: ps) = p.text ++ spell ps :=
  List.flatMap_cons

@[simp] theorem spell_append (ps qs : List Piece) : spell (ps ++ qs) = spell ps ++ spell qs :=
  List.flatMap_append

/-- The text is read back as these pieces: each is as long as it can be. -/
inductive CppText : List Piece → Prop
  | nil : CppText []
  | lineComment {text : List Char} {ps : List Piece} (ht : '\n' ∉ text)
    (hend : ∀ c ∈ (spell ps).head?, c = '\n') (h : CppText ps) :
    CppText (.comment ('/' :: '/' :: text) :: ps)
  | blockComment {text : List Char} {ps : List Piece} (ht : ¬ ['*', '/'] <:+: text ++ ['*'])
    (h : CppText ps) : CppText (.comment ('/' :: '*' :: text ++ ['*', '/']) :: ps)
  | literal {q : Char} {text : List Char} {ps : List Piece} (hq : q = '"' ∨ q = '\'')
    (ht : Quoted q text) (h : CppText ps) : CppText (.literal (q :: text ++ [q]) :: ps)
  | word {text : List Char} {ps : List Piece} (hne : text ≠ [])
    (hw : ∀ c ∈ text, isWordChar c = true)
    (hend : ∀ c ∈ (spell ps).head?, isWordChar c = false) (h : CppText ps) :
    CppText (.word text :: ps)
  | mark {c : Char} {ps : List Piece} (hw : isWordChar c = false) (hq : c ≠ '"' ∧ c ≠ '\'')
    (hslash : c = '/' → NoComment (spell ps)) (h : CppText ps) : CppText (.mark c :: ps)

namespace CppText

variable {p : Piece} {ps qs : List Piece}

theorem tail (h : CppText (p :: ps)) : CppText ps := by
  cases h <;> assumption

theorem of_append (h : CppText (ps ++ qs)) : CppText qs := by
  induction ps with
  | nil => exact h
  | cons p ps ih => exact ih h.tail

/-- Every piece has a character. -/
theorem text_ne_nil (h : CppText (p :: ps)) : p.text ≠ [] := by
  cases h with
  | word hne => exact hne
  | _ => exact List.cons_ne_nil _ _

end CppText

end OpenClickNP
