import Mathlib.Data.List.Basic
import OpenClickNP.Compiler.Scanning

/-!
# Spelled tokens

A `Lexeme` is a token without its place in the file. `next_lexeme`: after blanks, the spelling of
a lexeme is read as that lexeme, if the text behind it does not run on from it.
-/

namespace OpenClickNP

/-! ## Lexemes -/

/-- An integer literal: its text, and the value the lexer gives it. -/
structure Numeral where
  text : String
  value : UInt64
deriving DecidableEq, Repr

/-- The decimal literal. -/
def Numeral.ofNat (n : Nat) : Numeral := { text := toString n, value := UInt64.ofNat n }

/-- `block` is an opaque block with its braces. -/
inductive Lexeme where
  | sym (k : Tok)
  | ident (x : String)
  | number (n : Numeral)
  | str (s : String)
  | block (text : String)
deriving DecidableEq, Repr

/-- The token is the lexeme, or the brace in front of it. -/
def Token.Matches (t : Token) : Lexeme → Prop
  | .sym k => t.kind = k
  | .ident x => t.kind = .ident ∧ t.text = x
  | .number n => t.kind = .integer ∧ t.text = n.text ∧ t.intValue = n.value
  | .str s => t.kind = .stringLit ∧ t.text = s
  | .block _ => t.kind = .lBrace

instance (t : Token) : (l : Lexeme) → Decidable (t.Matches l)
  | .sym _ => inferInstanceAs (Decidable (_ = _))
  | .ident _ => inferInstanceAs (Decidable (_ ∧ _))
  | .number _ => inferInstanceAs (Decidable (_ ∧ _))
  | .str _ => inferInstanceAs (Decidable (_ ∧ _))
  | .block _ => inferInstanceAs (Decidable (_ = _))

/-- How a character is written in a string literal. -/
def escape : Char → List Char
  | '\n' => ['\\', 'n']
  | '\t' => ['\\', 't']
  | '\r' => ['\\', 'r']
  | '\x00' => ['\\', '0']
  | '\\' => ['\\', '\\']
  | '"' => ['\\', '"']
  | c => [c]

namespace Lexeme

def spelling : Lexeme → List Char
  | sym k => (tokName k).toList
  | ident x => x.toList
  | number n => n.text.toList
  | str s => '"' :: (s.toList.flatMap escape ++ ['"'])
  | block text => '\x7b' :: (text.toList ++ ['\x7d'])

/-- The part of the spelling that `next` reads. -/
def opening : Lexeme → List Char
  | block _ => ['\x7b']
  | l => l.spelling

/-- A symbol that is written as a word, with or without a dot. -/
def isWord (k : Tok) : Bool := (directives ++ keywords).any fun p => p.2 == k
where
  directives := Lexer.directives
  keywords := Lexer.keywords

/-- The characters that would be read as a part of the lexeme. -/
def runsOn : Lexeme → Char → Bool
  | sym .dash, c => c == '>'
  | sym .equals, c => c == '>'
  | sym .colon, c => c == ':'
  | sym k, c => isWord k && isWordChar c
  | ident _, c => isWordChar c
  | number _, c => isWordChar c
  | str _, _ => false
  | block _, _ => false

end Lexeme

/-- A letter or `_`, and word characters; not a keyword. -/
structure IsIdent (x : String) : Prop where
  word : ∀ c ∈ x.toList, isWordChar c = true
  head : ∃ c ∈ x.toList.head?, c.isDigit = false
  free : Lexer.keywords.lookup x = none

instance (x : String) : Decidable (IsIdent x) :=
  decidable_of_iff ((∀ c ∈ x.toList, isWordChar c = true) ∧
      (x.toList.head?.any fun c => !c.isDigit) = true ∧ Lexer.keywords.lookup x = none)
    ⟨fun h => ⟨h.1, by simpa [Option.any_eq_true] using h.2.1, h.2.2⟩,
      fun h => ⟨h.word, by simpa [Option.any_eq_true] using h.head, h.free⟩⟩

namespace Lexeme

/-- The lexeme is one that the lexer gives for its spelling; numbers are decimal. -/
def Plain : Lexeme → Prop
  | sym k => k ∉ [.eof, .error, .ident, .integer, .stringLit, .opaqueCpp]
  | ident x => IsIdent x
  | number n => n.text = toString n.value.toNat
  | str _ => True
  | block _ => True

instance : (l : Lexeme) → Decidable l.Plain
  | sym _ => inferInstanceAs (Decidable (_ ∉ _))
  | ident _ => inferInstanceAs (Decidable (IsIdent _))
  | number _ => inferInstanceAs (Decidable (_ = _))
  | str _ => isTrue trivial
  | block _ => isTrue trivial

end Lexeme

/-! ## Characters -/

theorem isWordChar_of_isDigit {c : Char} (h : c.isDigit = true) : isWordChar c = true := by
  simp [isWordChar, Char.isAlphanum, h]

theorem not_isDigit_of_isAlpha {c : Char} (h : c.isAlpha = true) : c.isDigit = false := by
  by_contra hd
  obtain ⟨-, hle⟩ := Char.isDigit_iff_toNat.mp (by simpa using hd)
  have hge : 'A'.toNat ≤ c.toNat := by
    rcases Bool.or_eq_true_iff.mp h with hupper | hlower
    · have hupper : 'A'.val ≤ c.val ∧ c.val ≤ 'Z'.val := of_decide_eq_true hupper
      exact UInt32.le_iff_toNat_le.mp hupper.1
    · have hlower : (decide ('a'.val ≤ c.val) && decide (c.val ≤ 'z'.val)) = true := hlower
      exact Nat.le_trans (by decide)
        (UInt32.le_iff_toNat_le.mp (of_decide_eq_true (Bool.and_eq_true_iff.mp hlower).1))
  exact absurd (Nat.le_trans hge hle) (by decide)

/-- A word character is no mark, no blank, no quote and no dot. -/
theorem word_ne {c d : Char} (h : isWordChar c = true) (hd : isWordChar d = false) : c ≠ d := by
  rintro rfl
  rw [h] at hd
  cases hd

theorem punctuation_of_word {c : Char} (h : isWordChar c = true) :
    Lexer.punctuation c = none := by
  unfold Lexer.punctuation
  split
  case h_18 => rfl
  all_goals exact absurd h (by decide)

theorem startsBlank_of_word {c : Char} (h : isWordChar c = true) :
    Lexer.startsBlank c = false := by
  simp only [Lexer.startsBlank, Lexer.isBlank, Bool.or_eq_false_iff, beq_eq_false_iff_ne]
  exact ⟨⟨⟨⟨⟨word_ne h rfl, word_ne h rfl⟩, word_ne h rfl⟩, word_ne h rfl⟩, word_ne h rfl⟩,
    word_ne h rfl⟩

theorem isAlpha_of_word {c : Char} (h : isWordChar c = true) (hd : c.isDigit = false) :
    (c.isAlpha || c == '_') = true := by
  simpa [isWordChar, Char.isAlphanum, hd] using h

namespace Lexer

variable {lx lx' : Lexer} {start : SourceLoc} {c : Char} {w t : List Char}

/-! ## Blanks before a token -/

/-- The token after blanks. -/
theorem next_of_cons {gap : List Char} (hgap : ∀ c ∈ gap, isBlank c = true)
    (hrest : lx.rest = gap ++ c :: w) (hc : startsBlank c = false) :
    ∃ lx₁, Passes lx gap lx₁ ∧ lx₁.rest = c :: w ∧ lx.next = lx₁.lexToken lx₁.here := by
  have hpass := passes_skip hrest hgap (t := c :: w) fun d hd => by cases hd; exact hc
  refine ⟨_, hpass, hpass.rest_eq hrest, ?_⟩
  rw [next]
  simp only [atEnd_of_cons (hpass.rest_eq hrest), Bool.false_eq_true, if_false]

theorem next_of_blank (hgap : ∀ c ∈ lx.rest, isBlank c = true) :
    ∃ tok lx', lx.next = (tok, lx') ∧ tok.kind = .eof ∧ Passes lx lx.rest lx' := by
  have hpass := passes_skip (List.append_nil _).symm hgap (t := []) nofun
  have hend := atEnd_of_nil (hpass.rest_eq (List.append_nil _).symm)
  have hnext : lx.next = ({
      kind := .eof
      range := {
        «begin» := lx.skipWhitespaceAndComments.here
        «end» := lx.skipWhitespaceAndComments.here } }, lx.skipWhitespaceAndComments) := by
    rw [next]
    simp only [hend, if_true]
  exact ⟨_, _, hnext, rfl, hpass⟩

/-! ## Words -/

theorem lexToken_of_word (h : lx.rest = c :: w) (hc : isWordChar c = true) :
    lx.lexToken start
      = if c.isDigit then lx.lexNumber start else lx.lexIdentOrKeyword start := by
  have hne : ∀ d, isWordChar d = false → (c = d) = False := fun d hd => eq_false (word_ne hc hd)
  simp only [lexToken, peek_of_cons h, hne _ (rfl : isWordChar '-' = false),
    hne _ (rfl : isWordChar '=' = false), hne _ (rfl : isWordChar ':' = false),
    hne _ (rfl : isWordChar '"' = false), hne _ (rfl : isWordChar '.' = false), false_and,
    if_false, punctuation_of_word hc]
  cases hd : c.isDigit with
  | true => rw [if_pos rfl, if_pos rfl]
  | false =>
    rw [if_neg Bool.false_ne_true, if_neg Bool.false_ne_true, if_pos (isAlpha_of_word hc hd)]

/-- A word that does not start with a digit. -/
theorem lexToken_word {kind : Tok} (hrest : lx.rest = w ++ t) (hw : ∀ c ∈ w, isWordChar c = true)
    (hhead : ∃ c ∈ w.head?, c.isDigit = false)
    (hkind : (keywords.lookup (String.ofList w)).getD .ident = kind) (ht : StopsAt isWordChar t) :
    ∃ lx', lx.lexToken start = (lx'.token start kind w, lx') ∧ Passes lx w lx' := by
  obtain ⟨c, hc, hdigit⟩ := hhead
  obtain ⟨w, rfl⟩ : ∃ u, w = c :: u := List.head?_eq_some_iff.mp hc
  have hpass := passes_scan hrest hw ht
  refine ⟨_, ?_, hpass⟩
  rw [lexToken_of_word hrest (hw c List.mem_cons_self), hdigit, if_neg Bool.false_ne_true]
  simp only [lexIdentOrKeyword, hpass.textFrom, hkind]

theorem lexToken_directive {name : String} {kind : Tok} (hrest : lx.rest = '.' :: name.toList ++ t)
    (hw : ∀ c ∈ name.toList, isWordChar c = true) (hkind : directives.lookup name = some kind)
    (ht : StopsAt isWordChar t) :
    ∃ lx', lx.lexToken start = (lx'.token start kind ('.' :: name.toList), lx') ∧
      Passes lx ('.' :: name.toList) lx' := by
  have hdot := passes_advance hrest
  have hpass := passes_scan (hdot.rest_eq hrest) hw ht
  refine ⟨_, ?_, hdot.trans hpass⟩
  have hdispatch : lx.lexToken start = lx.lexDirectiveKeyword start := by
    simp only [lexToken, peek_of_cons hrest]
    rfl
  rw [hdispatch]
  simp only [lexDirectiveKeyword, hpass.textFrom, String.ofList_toList, hkind]

/-! ## Marks -/

theorem lexToken_mark {kind : Tok} (hrest : lx.rest = c :: t) (hkind : punctuation c = some kind)
    (ht : ∀ d ∈ t.head?, (c = '-' ∨ c = '=' → d ≠ '>') ∧ (c = ':' → d ≠ ':')) :
    ∃ lx', lx.lexToken start = (lx'.token start kind, lx') ∧ Passes lx [c] lx' := by
  refine ⟨_, ?_, passes_advance hrest⟩
  have hpeek : ∀ d, d ≠ '\x00' → lx.peek 1 = d → d ∈ t.head? := by
    intro d hd hp
    rw [peek_one_of_cons hrest] at hp
    cases t with
    | nil => exact absurd hp.symm hd
    | cons e t => exact congrArg some hp
  have harrow : ∀ d, (d = '-' ∨ d = '=') → ¬ (c = d ∧ lx.peek 1 = '>') := by
    rintro d hd ⟨rfl, hp⟩
    exact (ht _ (hpeek _ (by decide) hp)).1 hd rfl
  have hcolon : ¬ (c = ':' ∧ lx.peek 1 = ':') := by
    rintro ⟨rfl, hp⟩
    exact (ht _ (hpeek _ (by decide) hp)).2 rfl rfl
  simp only [lexToken, peek_of_cons hrest, if_neg (harrow '-' (.inl rfl)),
    if_neg (harrow '=' (.inr rfl)), if_neg hcolon, hkind, tokOne]

/-- `->`, `=>` and `::`. -/
theorem lexToken_pair {d : Char} {kind : Tok} (hrest : lx.rest = c :: d :: t)
    (hkind : (c, d, kind) ∈
      [('-', '>', Tok.arrow), ('=', '>', .fatArrow), (':', ':', .doubleColon)]) :
    ∃ lx', lx.lexToken start = (lx'.token start kind, lx') ∧ Passes lx [c, d] lx' := by
  have hfirst := passes_advance hrest
  refine ⟨_, ?_, hfirst.trans (passes_advance (rest_advance hrest))⟩
  have hone : lx.peek 1 = d := peek_one_of_cons hrest
  simp only [List.mem_cons, Prod.mk.injEq, List.not_mem_nil, or_false] at hkind
  rcases hkind with ⟨rfl, rfl, rfl⟩ | ⟨rfl, rfl, rfl⟩ | ⟨rfl, rfl, rfl⟩ <;>
    simp only [lexToken, peek_of_cons hrest, hone] <;> rfl

/-! ## Numbers -/

theorem mem_toDigits {n : Nat} {c : Char} (h : c ∈ Nat.toDigits 10 n) : c.isDigit = true :=
  Nat.isDigit_of_mem_toDigits (by decide) (by decide) h

/-- No zero in front. Strong induction along the digits. -/
theorem toDigits_zero_head {n : Nat} {ds : List Char} (h : Nat.toDigits 10 n = '0' :: ds) :
    n = 0 := by
  induction n using Nat.strongRecOn generalizing ds with
  | ind n ih =>
    rcases Nat.lt_or_ge n 10 with hlt | hge
    · rw [Nat.toDigits_of_lt_base hlt] at h
      exact Nat.digitChar_eq_zero.mp (List.cons.inj h).1
    · rw [Nat.toDigits_of_base_le (by decide) hge] at h
      -- the first digit is one of the quotient
      cases hq : Nat.toDigits 10 (n / 10) with
      | nil => exact absurd hq Nat.toDigits_ne_nil
      | cons d qs =>
        rw [hq, List.cons_append] at h
        have hzero := ih (n / 10) (by omega) (hq.trans (by rw [(List.cons.inj h).1]))
        omega

/-- The digits are read back as the number. -/
theorem foldl_toDigits (n : Nat) :
    (Nat.toDigits 10 n).foldl (fun acc c => 10 * acc + digitValue c) 0 = n := by
  have hfold := Nat.ofDigitChars_ten_toDigits (n := n)
  rw [Nat.ofDigitChars_eq_foldl] at hfold
  refine (List.foldl_ext _ _ _ fun acc c hc => ?_).trans hfold
  rw [digitValue, if_pos (mem_toDigits hc)]

theorem stoull_toDigits {n : Nat} (h : n < 2 ^ 64) :
    stoull (Nat.toDigits 10 n) 10 = some (UInt64.ofNat n) := by
  have hne : (Nat.toDigits 10 n).isEmpty = false := by simp
  have hlt : ¬ 2 ^ 64 ≤ n := by omega
  simp only [stoull, foldl_toDigits, hne, hlt]
  rfl

theorem lexToken_decimal {n : Nat} (hn : n < 2 ^ 64) (hrest : lx.rest = Nat.toDigits 10 n ++ t)
    (ht : StopsAt isWordChar t) :
    ∃ lx', lx.lexToken start
        = (lx'.token start .integer (Nat.toDigits 10 n) (UInt64.ofNat n), lx') ∧
      Passes lx (Nat.toDigits 10 n) lx' := by
  obtain ⟨c, w, hcw⟩ := List.exists_cons_of_ne_nil (Nat.toDigits_ne_nil (n := n) (b := 10))
  have hdigits : ∀ d ∈ Nat.toDigits 10 n, d.isDigit = true := fun d hd => mem_toDigits hd
  have hstop : StopsAt Char.isDigit t := by
    intro d hd
    have hword := ht d hd
    simp only [isWordChar, Char.isAlphanum, Bool.or_eq_false_iff] at hword
    exact hword.1.2
  have hpass := passes_scan hrest hdigits hstop
  refine ⟨_, ?_, hpass⟩
  have hhead : lx.rest = c :: (w ++ t) := by rw [hrest, hcw, List.cons_append]
  have hc := hdigits c (by rw [hcw]; exact List.mem_cons_self)
  -- a zero in front is the whole number, and no base mark follows it
  have hafter : c = '0' → lx.peek 1 = t.headD '\x00' := by
    rintro rfl
    have hzero := toDigits_zero_head hcw
    subst hzero
    rw [Nat.toDigits_zero] at hcw
    rw [peek_one_of_cons hhead, ← (List.cons.inj hcw).2, List.nil_append]
  have hplain : ∀ d, isWordChar d = true → ¬ (c = '0' ∧ lx.peek 1 = d) := by
    rintro d hd ⟨hc0, hp⟩
    rw [hafter hc0] at hp
    cases t with
    | nil => exact word_ne hd (by decide) hp.symm
    | cons e t => exact word_ne hd (ht e rfl) hp.symm
  have hoct : ¬ (c = '0' ∧ isOctDigit (lx.peek 1) = true) := by
    rintro ⟨hc0, hp⟩
    refine hplain (lx.peek 1) (isWordChar_of_isDigit ?_) ⟨hc0, rfl⟩
    simp only [isOctDigit, Bool.and_eq_true, decide_eq_true_eq] at hp
    simp only [Char.isDigit, Bool.and_eq_true, decide_eq_true_eq]
    exact ⟨hp.1, Char.le_trans hp.2 (by decide)⟩
  have hhex : ¬ (c = '0' ∧ (lx.peek 1 = 'x' ∨ lx.peek 1 = 'X')) := by
    rintro ⟨hc0, hp | hp⟩
    · exact hplain _ rfl ⟨hc0, hp⟩
    · exact hplain _ rfl ⟨hc0, hp⟩
  rw [lexToken_of_word hhead (isWordChar_of_isDigit hc), hc, if_pos rfl]
  simp only [lexNumber, peek_of_cons hhead, hhex, hoct, if_false, lexDigits, hpass.textFrom,
    stoull_toDigits hn, Option.getD_some]

/-! ## String literals -/

theorem escape_cases (c : Char) :
    (∃ e, escape c = ['\\', e] ∧ unescape e = c) ∨ escape c = [c] ∧ c ≠ '\\' ∧ c ≠ '"' := by
  unfold escape
  split
  case h_7 h₁ h₂ h₃ h₄ h₅ h₆ => exact Or.inr ⟨rfl, h₅, h₆⟩
  all_goals exact Or.inl ⟨_, rfl, rfl⟩

/-- The loop reads the escaped characters back, up to the closing quote. -/
theorem stringLoop_escape {s : List Char} (hrest : lx.rest = s.flatMap escape ++ '"' :: t)
    (n : Nat) (hn : (s.flatMap escape).length < n) (out : List Char) :
    ∃ lx', stringLoop n out lx = (out ++ s, lx') ∧ Passes lx (s.flatMap escape) lx' := by
  induction s generalizing lx n out with
  | nil =>
    obtain ⟨m, rfl⟩ : ∃ m, n = m + 1 := ⟨n - 1, by omega⟩
    refine ⟨lx, ?_, .refl lx⟩
    rw [stringLoop, atEnd_of_cons hrest, peek_of_cons hrest, List.append_nil]
    rfl
  | cons c s ih =>
    obtain ⟨m, rfl⟩ : ∃ m, n = m + 1 := ⟨n - 1, by omega⟩
    rw [List.flatMap_cons, List.append_assoc] at hrest
    rw [List.flatMap_cons, List.length_append] at hn
    rcases escape_cases c with ⟨e, hesc, hun⟩ | ⟨hesc, hslash, hquote⟩
    · rw [hesc] at hrest hn
      rw [List.flatMap_cons, hesc]
      have hfirst := passes_advance hrest
      have hrest₁ := hfirst.rest_eq hrest
      have hsecond := passes_advance hrest₁
      obtain ⟨lx', hloop, hpass⟩ := ih (hsecond.rest_eq hrest₁) m
        (by simp only [List.length_cons, List.length_nil] at hn; omega) (out ++ [c])
      refine ⟨lx', ?_, (hfirst.trans hsecond).trans hpass⟩
      rw [stringLoop, atEnd_of_cons hrest, peek_of_cons hrest]
      simp only [peek_of_cons hrest₁, hun, hloop, List.append_assoc]
      rfl
    · rw [hesc] at hrest hn
      rw [List.flatMap_cons, hesc]
      have hfirst := passes_advance hrest
      obtain ⟨lx', hloop, hpass⟩ := ih (hfirst.rest_eq hrest) m
        (by simp only [List.length_cons, List.length_nil] at hn; omega) (out ++ [c])
      refine ⟨lx', ?_, hfirst.trans hpass⟩
      rw [stringLoop, atEnd_of_cons hrest, peek_of_cons hrest]
      simp only [hslash, hquote, hloop, List.append_assoc, Bool.false_or, beq_iff_eq, if_false]
      rfl

theorem lexToken_string {s : List Char}
    (hrest : lx.rest = '"' :: (s.flatMap escape ++ ['"']) ++ t) :
    ∃ lx', lx.lexToken start = (lx'.token start .stringLit s, lx') ∧
      Passes lx ('"' :: (s.flatMap escape ++ ['"'])) lx' := by
  rw [List.cons_append, List.append_assoc] at hrest
  have hopen := passes_advance hrest
  have hrest₁ := hopen.rest_eq hrest
  obtain ⟨lx', hloop, hbody⟩ := stringLoop_escape hrest₁ lx.advance.left
    (by rw [left_eq, hrest₁]; simp) []
  have hrest₂ := hbody.rest_eq hrest₁
  refine ⟨lx'.advance, ?_, hopen.trans (hbody.trans (passes_advance hrest₂))⟩
  have hdispatch : lx.lexToken start = lx.lexString start := by
    simp only [lexToken, peek_of_cons hrest]
    rfl
  rw [hdispatch]
  simp only [lexString, hloop, List.nil_append, atEnd_of_cons hrest₂, Bool.false_eq_true, if_false]

/-! ## Lexemes -/

/-- Symbols are marks, pairs of characters, keywords or directives. -/
theorem symbol_cases {k : Tok} (hk : (Lexeme.sym k).Plain) :
    (∃ c, (tokName k).toList = [c] ∧ punctuation c = some k) ∨
    (∃ c d, (tokName k).toList = [c, d] ∧
      (c, d, k) ∈ [('-', '>', Tok.arrow), ('=', '>', .fatArrow), (':', ':', .doubleColon)]) ∨
    (keywords.lookup (tokName k) = some k ∧ (∀ c ∈ (tokName k).toList, isWordChar c = true) ∧
      ∃ c ∈ (tokName k).toList.head?, c.isDigit = false) ∨
    ∃ name : String, (tokName k).toList = '.' :: name.toList ∧ directives.lookup name = some k ∧
      ∀ c ∈ name.toList, isWordChar c = true := by
  cases k
  case eof | error | ident | integer | stringLit | opaqueCpp => exact absurd hk (by decide)
  case arrow | fatArrow | doubleColon => exact .inr (.inl ⟨_, _, rfl, by decide⟩)
  case kwImport | kwBreak | kwConstexpr | kwHost | kwVerilog | kwPortAny =>
    exact .inr (.inr (.inl ⟨rfl, by decide, by decide⟩))
  case kwElement => exact .inr (.inr (.inr ⟨"element", rfl, rfl, by decide⟩))
  case kwElementGroup => exact .inr (.inr (.inr ⟨"element_group", rfl, rfl, by decide⟩))
  case kwState => exact .inr (.inr (.inr ⟨"state", rfl, rfl, by decide⟩))
  case kwInit => exact .inr (.inr (.inr ⟨"init", rfl, rfl, by decide⟩))
  case kwHandler => exact .inr (.inr (.inr ⟨"handler", rfl, rfl, by decide⟩))
  case kwSignal => exact .inr (.inr (.inr ⟨"signal", rfl, rfl, by decide⟩))
  case kwTiming => exact .inr (.inr (.inr ⟨"timing", rfl, rfl, by decide⟩))
  case kwHlsPragma => exact .inr (.inr (.inr ⟨"hls_pragma", rfl, rfl, by decide⟩))
  case kwRepeat => exact .inr (.inr (.inr ⟨"repeat", rfl, rfl, by decide⟩))
  all_goals exact .inl ⟨_, rfl, rfl⟩

/-- A keyword or a directive goes on with every word character. -/
theorem stopsAt_word {k : Tok} (hk : Lexeme.isWord k = true)
    (ht : StopsAt (Lexeme.sym k).runsOn t) : StopsAt isWordChar t := by
  intro c hc
  have hruns : (Lexeme.sym k).runsOn c = (Lexeme.isWord k && isWordChar c) := by
    cases k <;> first | rfl | exact absurd hk (by decide)
  have hstop := ht c hc
  rwa [hruns, hk, Bool.true_and] at hstop

theorem isWord_of_lookup {k : Tok} {table : List (String × Tok)} {name : String}
    (h : table.lookup name = some k) (hsub : table ⊆ directives ++ keywords) :
    Lexeme.isWord k = true := by
  obtain ⟨pre, post, rfl, -⟩ := List.lookup_eq_some_iff.mp h
  rw [Lexeme.isWord, List.any_eq_true]
  exact ⟨(name, k), hsub (by simp), by simp⟩

/-- The symbols, with the text behind them. -/
theorem lexToken_symbol {k : Tok} (hk : (Lexeme.sym k).Plain)
    (hrest : lx.rest = (tokName k).toList ++ t) (ht : StopsAt (Lexeme.sym k).runsOn t) :
    ∃ text lx', lx.lexToken start = (lx'.token start k text, lx') ∧
      Passes lx (tokName k).toList lx' := by
  rcases symbol_cases hk with ⟨c, hc, hmark⟩ | ⟨c, d, hcd, hpair⟩ | ⟨hkey, hw, hhead⟩ |
    ⟨name, hname, hdir, hw⟩
  · rw [hc] at hrest ⊢
    refine ⟨[], lexToken_mark hrest hmark fun d hd => ⟨?_, ?_⟩⟩
    · rintro (rfl | rfl) rfl <;> cases hmark <;> exact absurd (ht _ hd) (by decide)
    · rintro rfl rfl
      cases hmark
      exact absurd (ht _ hd) (by decide)
  · rw [hcd] at hrest ⊢
    exact ⟨[], lexToken_pair hrest hpair⟩
  · have hword := isWord_of_lookup hkey (List.subset_append_right _ _)
    refine ⟨_, lexToken_word hrest hw hhead ?_ (stopsAt_word hword ht)⟩
    rw [String.ofList_toList, hkey, Option.getD_some]
  · have hword := isWord_of_lookup hdir (List.subset_append_left _ _)
    rw [hname] at hrest ⊢
    exact ⟨_, lexToken_directive hrest hw hdir (stopsAt_word hword ht)⟩

/-- No spelling starts like a blank or a comment. -/
theorem opening_cons {l : Lexeme} (hl : l.Plain) :
    ∃ c w, l.opening = c :: w ∧ startsBlank c = false := by
  cases l with
  | sym k => cases k <;> exact ⟨_, _, rfl, rfl⟩
  | ident x =>
    obtain ⟨c, hc, -⟩ := hl.head
    obtain ⟨w, hw⟩ := List.head?_eq_some_iff.mp hc
    exact ⟨c, w, hw, startsBlank_of_word (hl.word c (by rw [hw]; exact List.mem_cons_self))⟩
  | number n =>
    obtain ⟨c, w, hcw⟩ := List.exists_cons_of_ne_nil (Nat.toDigits_ne_nil (n := n.value.toNat)
      (b := 10))
    have hdigit : c.isDigit = true := mem_toDigits (by rw [hcw]; exact List.mem_cons_self)
    refine ⟨c, w, ?_, startsBlank_of_word (isWordChar_of_isDigit hdigit)⟩
    rw [← hcw, ← Nat.toList_repr, ← Nat.toString_eq_repr, ← hl]
    rfl
  | str s => exact ⟨_, _, rfl, rfl⟩
  | block text => exact ⟨_, _, rfl, rfl⟩

/-- The lexeme where the lexer stands, with the text behind it. -/
theorem lexToken_lexeme (start : SourceLoc) {l : Lexeme} (hl : l.Plain)
    (hrest : lx.rest = l.opening ++ t)
    (ht : StopsAt l.runsOn t) :
    ∃ tok lx', lx.lexToken start = (tok, lx') ∧ tok.Matches l ∧ tok.range.end = lx'.here ∧
      Passes lx l.opening lx' := by
  cases l with
  | sym k =>
    obtain ⟨text, lx', htok, hpass⟩ := lexToken_symbol hl hrest ht
    exact ⟨_, lx', htok, rfl, rfl, hpass⟩
  | ident x =>
    have hkind : (keywords.lookup (String.ofList x.toList)).getD .ident = .ident := by
      rw [String.ofList_toList, hl.free, Option.getD_none]
    obtain ⟨lx', htok, hpass⟩ := lexToken_word hrest hl.word hl.head hkind ht
    exact ⟨_, lx', htok, ⟨rfl, String.ofList_toList⟩, rfl, hpass⟩
  | number n =>
    have htext : n.text.toList = Nat.toDigits 10 n.value.toNat := by
      rw [show n.text = toString n.value.toNat from hl, Nat.toString_eq_repr, Nat.toList_repr]
    have hopening : (Lexeme.number n).opening = Nat.toDigits 10 n.value.toNat := htext
    rw [hopening] at hrest ⊢
    obtain ⟨lx', htok, hpass⟩ := lexToken_decimal n.value.toNat_lt hrest ht
    refine ⟨_, lx', htok, ⟨rfl, ?_, ?_⟩, rfl, hpass⟩
    · rw [token, ← htext, String.ofList_toList]
    · exact UInt64.ofNat_toNat
  | str s =>
    obtain ⟨lx', htok, hpass⟩ := lexToken_string hrest
    exact ⟨_, lx', htok, ⟨rfl, String.ofList_toList⟩, rfl, hpass⟩
  | block text =>
    have hbrace : punctuation '\x7b' = some .lBrace := rfl
    obtain ⟨lx', htok, hpass⟩ := lexToken_mark hrest hbrace
      fun d _ => ⟨fun h => by simp at h, fun h => by simp at h⟩
    exact ⟨_, lx', htok, rfl, rfl, hpass⟩

/-- **The next lexeme.** After blanks, `next` reads the lexeme whose spelling comes first, and
leaves the lexer behind it. -/
theorem next_lexeme {l : Lexeme} {gap : List Char} (hl : l.Plain)
    (hgap : ∀ c ∈ gap, isBlank c = true) (hrest : lx.rest = gap ++ (l.opening ++ t))
    (ht : StopsAt l.runsOn t) :
    ∃ tok lx', lx.next = (tok, lx') ∧ tok.Matches l ∧ tok.range.end = lx'.here ∧
      Passes lx (gap ++ l.opening) lx' := by
  obtain ⟨c, w, hcw, hblank⟩ := opening_cons hl
  obtain ⟨lx₁, hpass, hrest₁, hnext⟩ := next_of_cons (w := w ++ t) hgap
    (by rw [hrest, hcw, List.cons_append]) hblank
  obtain ⟨tok, lx', htok, hmatch, hend, hpass'⟩ := lexToken_lexeme lx₁.here hl
    (by rw [hrest₁, hcw, List.cons_append]) ht
  exact ⟨tok, lx', hnext.trans htok, hmatch, hend, hpass.trans hpass'⟩

end Lexer

end OpenClickNP
