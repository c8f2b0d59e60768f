import OpenClickNP.Compiler.CppText

/-!
# `body_rewrite.cpp`: the `return` statements of a body

`rewriteReturns` replaces `return E;` by an assignment and a jump. In front of a `return` it passes
over comments and literals; behind it, it looks for the first semicolon outside parentheses and
takes every character as it comes. So the statement is cut at the right place exactly when the
parentheses of `E` are balanced, comments and literals included, and no other semicolon in `E`
stands where they are.
-/

namespace OpenClickNP

/-! ## The rewriter -/

def isIdentChar (c : Char) : Bool := c.isAlphanum || c == '_'

/-- `std::isspace`. -/
def isSpace (c : Char) : Bool :=
  c == ' ' || c == '\t' || c == '\n' || c == '\x0b' || c == '\x0c' || c == '\r'

/-- `skip_string`, after the opening quote: what is copied, and what is left. -/
def skipQuoted (q : Char) : List Char → List Char × List Char
  | [] => ([], [])
  | [c] => ([c], [])
  | c :: d :: rest =>
    if c = q then ([c], d :: rest)
    else if c = '\\' then
      let out := skipQuoted q rest
      (c :: d :: out.1, out.2)
    else
      let out := skipQuoted q (d :: rest)
      (c :: out.1, out.2)

/-- The rest of a block comment. -/
def skipBlock : List Char → List Char × List Char
  | [] => ([], [])
  | c :: rest =>
    if c = '*' ∧ rest.head? = some '/' then (['*', '/'], rest.tail)
    else
      let out := skipBlock rest
      (c :: out.1, out.2)

/-- A comment or a literal is passed through. -/
def passThrough : List Char → Option (List Char × List Char)
  | [] => none
  | c :: rest =>
    if c = '/' ∧ rest.head? = some '/' then
      some ((c :: rest).takeWhile (· != '\n'), (c :: rest).dropWhile (· != '\n'))
    else if c = '/' ∧ rest.head? = some '*' then
      let out := skipBlock rest.tail
      some ('/' :: '*' :: out.1, out.2)
    else if c = '"' ∨ c = '\'' then
      let out := skipQuoted c rest
      some (c :: out.1, out.2)
    else none

def returnWord : List Char := ['r', 'e', 't', 'u', 'r', 'n']

/-- A standalone `return` in front, behind the character `prev`. -/
def atReturn (prev : Option Char) (rest : List Char) : Bool :=
  returnWord.isPrefixOf rest && !prev.any isIdentChar &&
    match rest.drop returnWord.length with
    | d :: _ => !isIdentChar d
    | [] => false

/-- Up to the next semicolon outside parentheses: what is in front of it, and what is behind. -/
def capture : Int → List Char → List Char × List Char
  | _, [] => ([], [])
  | paren, d :: rest =>
    if d = ';' ∧ paren = 0 then ([], rest)
    else
      let paren := if d = '(' then paren + 1 else if d = ')' then paren - 1 else paren
      let out := capture paren rest
      (d :: out.1, out.2)

/-- The statement in place of `return expr;`. -/
def jump (which : String) (expr : List Char) : List Char :=
  let e := expr.dropWhile isSpace
  let e := if e.isEmpty then "openclicknp::PORT_ALL".toList else e
  "\x7b _ret = (".toList ++ e ++ ("); goto _end_".toList ++ which.toList ++ "; \x7d".toList)

/-- At most `n` turns of the loop of `rewriteReturns`, behind the character `prev`. -/
def rewriteLoop (which : String) : Nat → Option Char → List Char → List Char
  | 0, _, _ => []
  | n + 1, prev, rest =>
    match passThrough rest with
    | some (text, rest) => text ++ rewriteLoop which n text.getLast? rest
    | none =>
      if atReturn prev rest then
        let (expr, rest) := capture 0 (rest.drop returnWord.length)
        jump which expr ++ rewriteLoop which n (some ';') rest
      else
        match rest with
        | [] => []
        | c :: rest => c :: rewriteLoop which n (some c) rest

/-- Every turn takes a character, so the length of the text bounds the turns. -/
def rewriteReturns (text : List Char) (which : String) : List Char :=
  rewriteLoop which text.length none text

/-! ## What it should do -/

/-- The expression of a `return` statement, and what is behind its semicolon: the first one outside
parentheses and braces that the expression opens. -/
def returned : Nat → List Piece → Option (List Piece × List Piece)
  | _, [] => none
  | depth, p :: ps =>
    if p = .mark ';' ∧ depth = 0 then some ([], ps)
    else if p = .mark '(' ∨ p = .mark '\x7b' then
      (returned (depth + 1) ps).map fun out => (p :: out.1, out.2)
    else if p = .mark ')' ∨ p = .mark '\x7d' then
      if depth = 0 then none else (returned (depth - 1) ps).map fun out => (p :: out.1, out.2)
    else (returned depth ps).map fun out => (p :: out.1, out.2)

theorem eq_of_returned {depth : Nat} {ps e rest : List Piece}
    (h : returned depth ps = some (e, rest)) : ps = e ++ .mark ';' :: rest := by
  induction ps generalizing depth e with
  | nil => cases h
  | cons p ps ih =>
    have hcons : ∀ d, (returned d ps).map (fun out => (p :: out.1, out.2)) = some (e, rest) →
        p :: ps = e ++ .mark ';' :: rest := by
      intro d hd
      obtain ⟨⟨e', rest'⟩, hrest, heq⟩ := Option.map_eq_some_iff.mp hd
      cases heq
      rw [ih hrest]
      rfl
    unfold returned at h
    repeat' split at h
    next hp =>
      cases h
      rw [hp.1]
      rfl
    next => exact hcons _ h
    next => cases h
    next => exact hcons _ h
    next => exact hcons _ h

/-- The body with its `return` statements replaced; what is in one of them is not looked at
again. -/
def rewritten (which : String) : List Piece → List Char
  | [] => []
  | p :: ps =>
    if p = .word returnWord then
      match _h : returned 0 ps with
      | some (e, rest) => jump which (spell e) ++ rewritten which rest
      | none => p.text ++ rewritten which ps
    else p.text ++ rewritten which ps
termination_by ps => ps.length
decreasing_by
  all_goals simp only [List.length_cons]
  · have hlen := congrArg List.length (eq_of_returned _h)
    rw [List.length_append, List.length_cons] at hlen
    omega
  · omega
  · omega

section
variable {which : String} {p : Piece} {ps e rest : List Piece}

theorem rewritten_piece (hp : p ≠ .word returnWord ∨ returned 0 ps = none) :
    rewritten which (p :: ps) = p.text ++ rewritten which ps := by
  rw [rewritten]
  split
  next hword =>
    have hnone := hp.resolve_left fun h => h hword
    split
    next hsome => rw [hnone] at hsome; cases hsome
    next => rfl
  next => rfl

theorem rewritten_return (h : returned 0 ps = some (e, rest)) :
    rewritten which (.word returnWord :: ps)
      = jump which (spell e) ++ rewritten which rest := by
  rw [rewritten, if_pos rfl]
  split
  next hsome => rw [h] at hsome; cases hsome; rfl
  next hnone => rw [h] at hnone; cases hnone

end

/-! ## Comments and literals -/

section
variable {text rest : List Char} {c : Char}

theorem skipQuoted_eq {q : Char} (h : Quoted q text) (hq : q ≠ '\\') (rest : List Char) :
    skipQuoted q (text ++ q :: rest) = (text ++ [q], rest) := by
  induction h with
  | nil =>
    cases rest with
    | nil => rfl
    | cons d rest => rw [List.nil_append, skipQuoted, if_pos rfl]; rfl
  | @plain c w hc hs _ ih =>
    obtain ⟨d, u, hdu⟩ : ∃ d u, w ++ q :: rest = d :: u := by
      cases w with
      | nil => exact ⟨_, _, rfl⟩
      | cons d w => exact ⟨_, _, rfl⟩
    rw [List.cons_append, hdu, skipQuoted, if_neg hc, if_neg hs, ← hdu, ih]
    rfl
  | @escaped c w _ ih =>
    rw [List.cons_append, List.cons_append, skipQuoted, if_neg hq.symm, if_pos rfl, ih]
    rfl

theorem skipBlock_eq (h : ¬ ['*', '/'] <:+: text ++ ['*']) (rest : List Char) :
    skipBlock (text ++ '*' :: '/' :: rest) = (text ++ ['*', '/'], rest) := by
  induction text with
  | nil => rw [List.nil_append, skipBlock, if_pos ⟨rfl, rfl⟩]; rfl
  | cons c text ih =>
    have htail : ¬ ['*', '/'] <:+: text ++ ['*'] := fun ⟨a, b, hab⟩ =>
      h ⟨c :: a, b, by rw [List.cons_append, List.cons_append, hab]; rfl⟩
    have hstop : ¬ (c = '*' ∧ (text ++ '*' :: '/' :: rest).head? = some '/') := by
      rintro ⟨rfl, hhead⟩
      cases text with
      | nil => cases hhead
      | cons d text =>
        cases hhead
        exact h ⟨[], text ++ ['*'], rfl⟩
    rw [List.cons_append, skipBlock, if_neg hstop, ih htail]
    rfl

/-- A comment or a literal in front of a text is passed through. -/
theorem passThrough_piece {p : Piece} {ps : List Piece} (h : CppText (p :: ps))
    (hp : (∃ text, p = .comment text) ∨ ∃ text, p = .literal text) :
    passThrough (spell (p :: ps)) = some (p.text, spell ps) := by
  cases h with
  | word => simp at hp
  | mark => simp at hp
  | @lineComment text ps ht hend =>
    have hin : ∀ c ∈ '/' :: '/' :: text, (c != '\n') = true := by
      intro c hc
      refine bne_iff_ne.mpr fun heq => ?_
      rw [heq, List.mem_cons, List.mem_cons] at hc
      exact (hc.resolve_left (by decide)).elim (by decide) ht
    have hstop : (spell ps).takeWhile (· != '\n') = [] ∧
        (spell ps).dropWhile (· != '\n') = spell ps := by
      cases hps : spell ps with
      | nil => exact ⟨rfl, rfl⟩
      | cons c u =>
        rw [hps] at hend
        rw [hend c rfl]
        exact ⟨rfl, rfl⟩
    rw [spell_cons, Piece.text, List.cons_append, passThrough, if_pos ⟨rfl, rfl⟩,
      ← List.cons_append, List.takeWhile_append_of_pos hin, List.dropWhile_append_of_pos hin,
      hstop.1, hstop.2, List.append_nil]
  | @blockComment text ps ht =>
    have hspell : spell (.comment ('/' :: '*' :: text ++ ['*', '/']) :: ps)
        = '/' :: '*' :: (text ++ '*' :: '/' :: spell ps) := by simp [Piece.text]
    have hslash : ¬ ('/' = '/' ∧ ('*' :: (text ++ '*' :: '/' :: spell ps)).head? = some '/') :=
      fun h => absurd (Option.some.inj h.2) (by decide)
    rw [hspell, passThrough, if_neg hslash, if_pos ⟨rfl, rfl⟩, List.tail_cons,
      skipBlock_eq ht]
    rfl
  | @literal q text ps hq ht =>
    have hspell : spell (.literal (q :: text ++ [q]) :: ps) = q :: (text ++ q :: spell ps) := by
      simp [Piece.text]
    have hslash : q ≠ '/' ∧ q ≠ '\\' := by
      rcases hq with rfl | rfl <;> decide
    rw [hspell, passThrough, if_neg fun h => hslash.1 h.1, if_neg fun h => hslash.1 h.1, if_pos hq,
      skipQuoted_eq ht hslash.2]
    rfl

/-- Nothing else is. -/
theorem passThrough_eq_none (hq : c ≠ '"' ∧ c ≠ '\'') (hslash : c = '/' → NoComment rest) :
    passThrough (c :: rest) = none := by
  have hcomment : ∀ d, d = '/' ∨ d = '*' → ¬ (c = '/' ∧ rest.head? = some d) := by
    rintro d hd ⟨hc, hhead⟩
    have hne := hslash hc d hhead
    exact hd.elim hne.1 hne.2
  rw [passThrough, if_neg (hcomment '/' (.inl rfl)), if_neg (hcomment '*' (.inr rfl)),
    if_neg fun h => h.elim hq.1 hq.2]

/-! ## Words -/

theorem isIdentChar_returnWord : ∀ c ∈ returnWord, isIdentChar c = true := by decide

/-- Only the whole word is taken, and only where something is behind it. -/
theorem word_of_atReturn {w : List Char} {prev : Option Char}
    (hw : ∀ c ∈ w, isIdentChar c = true) (hend : ∀ c ∈ rest.head?, isIdentChar c = false)
    (h : atReturn prev (w ++ rest) = true) : w = returnWord ∧ rest ≠ [] := by
  simp only [atReturn, Bool.and_eq_true, List.isPrefixOf_iff_prefix] at h
  obtain ⟨⟨⟨u, hu⟩, -⟩, hnext⟩ := h
  rw [← hu, List.drop_left] at hnext
  obtain ⟨d, u', rfl, hd⟩ : ∃ d u', u = d :: u' ∧ isIdentChar d = false := by
    cases u with
    | nil => cases hnext
    | cons d u' => exact ⟨d, u', rfl, by simpa using hnext⟩
  rcases List.append_eq_append_iff.mp hu with ⟨v, hv, hrest⟩ | ⟨v, hv, hrest⟩
  · cases v with
    | nil =>
      rw [List.append_nil] at hv
      rw [List.nil_append] at hrest
      exact ⟨hv, by rw [← hrest]; exact List.cons_ne_nil _ _⟩
    | cons e v =>
      cases hrest
      have he := hw d (by rw [hv]; simp)
      rw [hd] at he
      cases he
  · cases v with
    | nil =>
      rw [List.append_nil] at hv
      rw [List.nil_append] at hrest
      exact ⟨hv.symm, by rw [hrest]; exact List.cons_ne_nil _ _⟩
    | cons e v =>
      have he := hend e (by rw [hrest]; rfl)
      rw [isIdentChar_returnWord e (by rw [hv]; simp)] at he
      cases he

theorem atReturn_of_ident {prev : Option Char} (hprev : prev.any isIdentChar = true)
    (rest : List Char) : atReturn prev rest = false := by
  simp [atReturn, hprev]

theorem noComment_of_ident (hc : isIdentChar c = true) (rest : List Char) :
    (c ≠ '"' ∧ c ≠ '\'') ∧ (c = '/' → NoComment rest) := by
  refine ⟨⟨?_, ?_⟩, ?_⟩ <;> rintro rfl <;> cases hc

variable {which : String} {n : Nat} {prev : Option Char}

theorem rewriteLoop_char (hq : c ≠ '"' ∧ c ≠ '\'') (hslash : c = '/' → NoComment rest)
    (hret : atReturn prev (c :: rest) = false) :
    rewriteLoop which (n + 1) prev (c :: rest) = c :: rewriteLoop which n (some c) rest := by
  rw [rewriteLoop, passThrough_eq_none hq hslash]
  simp only [hret, Bool.false_eq_true, if_false]

/-- Inside a word no `return` starts. -/
theorem rewriteLoop_inside (w : List Char) (hw : ∀ c ∈ w, isIdentChar c = true)
    (hprev : prev.any isIdentChar = true) :
    ∃ prev', rewriteLoop which (n + w.length) prev (w ++ rest)
      = w ++ rewriteLoop which n prev' rest := by
  induction w generalizing prev with
  | nil => exact ⟨prev, rfl⟩
  | cons c w ih =>
    have hc := hw c List.mem_cons_self
    obtain ⟨hq, hslash⟩ := noComment_of_ident hc (w ++ rest)
    obtain ⟨prev', hrun⟩ : ∃ prev', rewriteLoop which (n + w.length) (some c) (w ++ rest)
        = w ++ rewriteLoop which n prev' rest :=
      ih (fun c hc => hw c (List.mem_cons_of_mem _ hc)) hc
    refine ⟨prev', ?_⟩
    rw [List.length_cons, ← Nat.add_assoc, List.cons_append,
      rewriteLoop_char hq hslash (atReturn_of_ident hprev _), hrun]
    rfl

/-- A word that is not taken for a `return`. -/
theorem rewriteLoop_word {w : List Char} (hne : w ≠ []) (hw : ∀ c ∈ w, isIdentChar c = true)
    (hret : atReturn prev (w ++ rest) = false) :
    ∃ prev', rewriteLoop which (n + w.length) prev (w ++ rest)
      = w ++ rewriteLoop which n prev' rest := by
  obtain ⟨c, w, rfl⟩ := List.exists_cons_of_ne_nil hne
  have hc := hw c List.mem_cons_self
  obtain ⟨hq, hslash⟩ := noComment_of_ident hc (w ++ rest)
  obtain ⟨prev', hrun⟩ : ∃ prev', rewriteLoop which (n + w.length) (some c) (w ++ rest)
      = w ++ rewriteLoop which n prev' rest :=
    rewriteLoop_inside w (fun c hc => hw c (List.mem_cons_of_mem _ hc)) hc
  refine ⟨prev', ?_⟩
  rw [List.cons_append] at hret
  rw [List.length_cons, ← Nat.add_assoc, List.cons_append, rewriteLoop_char hq hslash hret, hrun]
  rfl

theorem atReturn_of_not_ident (hc : isIdentChar c = false) : atReturn prev (c :: rest) = false := by
  have hne : 'r' ≠ c := by
    rintro rfl
    cases hc
  simp [atReturn, returnWord, hne]

/-! ## Pieces -/

/-- Behind the character `prev` a word of the pieces is whole. -/
def Whole (prev : Option Char) (ps : List Piece) : Prop :=
  ∀ w qs, ps = .word w :: qs → prev.any isIdentChar = false

/-- Where no word follows. -/
theorem whole_of_head {ps : List Piece} (h : CppText ps)
    (hend : ∀ c ∈ (spell ps).head?, isWordChar c = false) (prev : Option Char) : Whole prev ps := by
  rintro w qs rfl
  cases h with
  | word hne hw _ _ =>
    obtain ⟨c, w, rfl⟩ := List.exists_cons_of_ne_nil hne
    have hc := hend c rfl
    rw [hw c List.mem_cons_self] at hc
    cases hc

/-- A piece is copied. -/
theorem rewriteLoop_piece {p : Piece} {ps : List Piece} (h : CppText (p :: ps))
    (hprev : Whole prev (p :: ps)) (hp : p ≠ .word returnWord ∨ ps = [])
    (hn : (spell (p :: ps)).length ≤ n) :
    ∃ m prev', (spell ps).length ≤ m ∧ Whole prev' ps ∧
      rewriteLoop which n prev (spell (p :: ps))
        = p.text ++ rewriteLoop which m prev' (spell ps) := by
  have hlen : 0 < p.text.length := List.length_pos_iff.mpr h.text_ne_nil
  rw [spell_cons, List.length_append] at hn
  obtain ⟨m, rfl⟩ : ∃ m, n = m + 1 := ⟨n - 1, by omega⟩
  have hm : (spell ps).length ≤ m := by omega
  have hpassed : passThrough (spell (p :: ps)) = some (p.text, spell ps) →
      rewriteLoop which (m + 1) prev (spell (p :: ps))
        = p.text ++ rewriteLoop which m p.text.getLast? (spell ps) := by
    intro hpass
    rw [rewriteLoop.eq_def]
    simp only [hpass]
  cases h with
  | @lineComment text ps ht hend htail =>
    refine ⟨m, _, hm, whole_of_head htail (fun c hc => ?_) _,
      hpassed (passThrough_piece (.lineComment ht hend htail) (.inl ⟨_, rfl⟩))⟩
    rw [hend c hc]
    rfl
  | @blockComment text ps ht htail =>
    -- a slash is in front of what follows
    refine ⟨m, _, hm, fun _ _ _ => ?_,
      hpassed (passThrough_piece (.blockComment ht htail) (.inl ⟨_, rfl⟩))⟩
    have hlast : '/' :: '*' :: text ++ ['*', '/'] = ('/' :: '*' :: text ++ ['*']) ++ ['/'] := by
      simp
    rw [Piece.text, hlast, List.getLast?_concat]
    rfl
  | @literal q text ps hq ht htail =>
    refine ⟨m, _, hm, fun _ _ _ => ?_,
      hpassed (passThrough_piece (.literal hq ht htail) (.inr ⟨_, rfl⟩))⟩
    have hlast : (q :: text ++ [q]).getLast? = some q := List.getLast?_concat
    rw [Piece.text, hlast]
    rcases hq with rfl | rfl <;> rfl
  | @word w ps hne hw hend htail =>
    have hret : atReturn prev (w ++ spell ps) = false := by
      -- else it were the word, with something behind it
      refine Bool.eq_false_iff.mpr fun hat => ?_
      obtain ⟨hword, hrest⟩ := word_of_atReturn hw hend hat
      rcases hp with hp | hp
      · exact hp (congrArg Piece.word hword)
      · exact hrest (by rw [hp]; rfl)
    have hw' : (Piece.word w).text.length = w.length := rfl
    obtain ⟨k, hk⟩ : ∃ k, m + 1 = k + w.length := ⟨m + 1 - w.length, by omega⟩
    obtain ⟨prev', hrun⟩ : ∃ prev', rewriteLoop which (k + w.length) prev (w ++ spell ps)
        = w ++ rewriteLoop which k prev' (spell ps) := rewriteLoop_word hne hw hret
    refine ⟨k, prev', by omega, whole_of_head htail hend _, ?_⟩
    rw [hk]
    exact hrun
  | @mark c ps hc hq hslash htail =>
    exact ⟨m, some c, hm, fun _ _ _ => hc,
      rewriteLoop_char hq hslash (atReturn_of_not_ident hc)⟩

/-- A `return` with something behind it. -/
theorem rewriteLoop_return {ps : List Piece} (h : CppText (.word returnWord :: ps)) (hne : ps ≠ [])
    (hprev : Whole prev (.word returnWord :: ps))
    (hn : (spell (.word returnWord :: ps)).length ≤ n) :
    ∃ m, (spell ps).length ≤ m ∧
      rewriteLoop which n prev (spell (.word returnWord :: ps))
        = jump which (capture 0 (spell ps)).1
          ++ rewriteLoop which m (some ';') (capture 0 (spell ps)).2 := by
  obtain ⟨p, qs, rfl⟩ := List.exists_cons_of_ne_nil hne
  have hspell : spell (.word returnWord :: p :: qs) = returnWord ++ spell (p :: qs) := rfl
  rw [hspell, List.length_append] at hn
  have hlen : returnWord.length = 6 := rfl
  obtain ⟨m, rfl⟩ : ∃ m, n = m + 1 := ⟨n - 1, by omega⟩
  refine ⟨m, by omega, ?_⟩
  -- behind the word stands a character that is not of the word
  obtain ⟨d, u, hdu, hd⟩ : ∃ d u, spell (p :: qs) = d :: u ∧ isIdentChar d = false := by
    cases h with
    | word _ _ hend htail =>
      obtain ⟨d, u, hdu⟩ := List.exists_cons_of_ne_nil
        (show spell (p :: qs) ≠ [] from fun hnil => htail.text_ne_nil
          (List.append_eq_nil_iff.mp ((spell_cons p qs).symm.trans hnil)).1)
      exact ⟨d, u, hdu, hend d (by rw [hdu]; rfl)⟩
  have hpass : passThrough (returnWord ++ spell (p :: qs)) = none := rfl
  have hat : atReturn prev (returnWord ++ spell (p :: qs)) = true := by
    rw [atReturn, List.drop_left, hdu, hprev _ _ rfl]
    simp [hd]
  rw [hspell, rewriteLoop.eq_def]
  simp only [hpass, hat, if_true, List.drop_left]

end

/-! ## The cut -/

/-- What a character adds to `paren`. -/
def parenStep (c : Char) : Int := if c = '(' then 1 else if c = ')' then -1 else 0

/-- The opening parentheses less the closing ones, whatever they are part of. -/
def parenLevel : List Char → Int
  | [] => 0
  | c :: text => parenStep c + parenLevel text

/-- The parentheses are balanced in number, and they are not in front of a semicolon. -/
structure Uncut (text : List Char) : Prop where
  level : parenLevel text = 0
  before : ∀ a b, text = a ++ ';' :: b → parenLevel a ≠ 0

section
variable {t rest : List Char}

theorem capture_cons {paren : Int} {d : Char} (h : ¬ (d = ';' ∧ paren = 0)) (s : List Char) :
    capture paren (d :: s)
      = (d :: (capture (paren + parenStep d) s).1, (capture (paren + parenStep d) s).2) := by
  have hparen : (if d = '(' then paren + 1 else if d = ')' then paren - 1 else paren)
      = paren + parenStep d := by
    unfold parenStep
    repeat' split
    all_goals omega
  rw [capture, if_neg h, hparen]

/-- Up to the first semicolon at which the parentheses are balanced. -/
theorem capture_spec (paren : Int) (s : List Char) :
    (s = (capture paren s).1 ++ ';' :: (capture paren s).2 ∧
        paren + parenLevel (capture paren s).1 = 0 ∨ s = (capture paren s).1) ∧
      ∀ a b, (capture paren s).1 = a ++ ';' :: b → paren + parenLevel a ≠ 0 := by
  induction s generalizing paren with
  | nil => exact ⟨.inr rfl, fun a b h => absurd h (by simp [capture])⟩
  | cons d s ih =>
    by_cases hstop : d = ';' ∧ paren = 0
    · rw [capture, if_pos hstop]
      obtain ⟨rfl, rfl⟩ := hstop
      exact ⟨.inl ⟨rfl, rfl⟩, fun a b h => absurd h (by simp)⟩
    · rw [capture_cons hstop]
      obtain ⟨hcut, hbefore⟩ := ih (paren + parenStep d)
      generalize capture (paren + parenStep d) s = out at hcut hbefore
      obtain ⟨x, y⟩ := out
      simp only at hcut hbefore ⊢
      constructor
      · rcases hcut with ⟨hs, hlevel⟩ | hs
        · refine .inl ⟨congrArg (d :: ·) hs, ?_⟩
          rw [parenLevel]
          omega
        · exact .inr (congrArg (d :: ·) hs)
      · intro a b hab
        cases a with
        | nil =>
          cases hab
          intro h0
          exact hstop ⟨rfl, by simpa [parenLevel] using h0⟩
        | cons e a =>
          cases hab
          have hlevel := hbefore a b rfl
          rw [parenLevel]
          omega

/-- The expression is captured, or it is cut off somewhere else. -/
theorem capture_cases (t rest : List Char) :
    capture 0 (t ++ ';' :: rest) = (t, rest) ∧ Uncut t ∨
      ¬ Uncut t ∧ ((∃ b, t = (capture 0 (t ++ ';' :: rest)).1 ++ ';' :: b) ∨
        ∃ b, (capture 0 (t ++ ';' :: rest)).1 = t ++ ';' :: b) := by
  obtain ⟨hcut, hbefore⟩ := capture_spec 0 (t ++ ';' :: rest)
  generalize capture 0 (t ++ ';' :: rest) = out at hcut hbefore
  obtain ⟨x, y⟩ := out
  simp only [Int.zero_add] at hcut hbefore
  rcases hcut with ⟨hs, hlevel⟩ | hs
  · rcases List.append_eq_append_iff.mp hs with ⟨w, hx, hrest⟩ | ⟨w, ht, hrest⟩
    · cases w with
      | nil =>
        rw [List.append_nil] at hx
        cases hrest
        subst hx
        exact .inl ⟨rfl, hlevel, hbefore⟩
      | cons e w =>
        cases hrest
        exact .inr ⟨fun h => hbefore t w hx h.level, .inr ⟨w, hx⟩⟩
    · cases w with
      | nil =>
        rw [List.append_nil] at ht
        cases hrest
        subst ht
        exact .inl ⟨rfl, hlevel, hbefore⟩
      | cons e w =>
        cases hrest
        exact .inr ⟨fun h => h.before x w ht hlevel, .inl ⟨w, ht⟩⟩
  · exact .inr ⟨fun h => hbefore t rest hs.symm h.level, .inr ⟨rest, hs.symm⟩⟩

/-! ## Two cuts -/

theorem dropWhile_isSpace_append (x b : List Char) :
    (x ++ ';' :: b).dropWhile isSpace = x.dropWhile isSpace ++ ';' :: b := by
  induction x with
  | nil => rfl
  | cons c x ih =>
    rw [List.cons_append, List.dropWhile_cons, List.dropWhile_cons]
    split
    · exact ih
    · rfl

theorem isEmpty_append_cons (t : List Char) (c : Char) (b : List Char) :
    (t ++ c :: b).isEmpty = false := by
  cases t <;> rfl

/-- In a jump a parenthesis stands behind the expression. -/
theorem jump_eq (which : String) : ∃ pre post, ∀ x y, x.dropWhile isSpace = y → jump which x
    = pre ++ (if y.isEmpty then "openclicknp::PORT_ALL".toList else y) ++ ')' :: post := by
  refine ⟨"\x7b _ret = (".toList, "; goto _end_".toList ++ which.toList ++ "; \x7d".toList,
    fun x y hy => ?_⟩
  have hpost : "); goto _end_".toList = ')' :: "; goto _end_".toList := by simp
  unfold jump
  simp only [hy]
  rw [hpost, List.append_assoc, List.append_assoc, List.append_assoc]
  rfl

/-- Expressions that are cut at different semicolons give different statements. -/
theorem jump_ne (which : String) (x b u v : List Char) :
    jump which x ++ u ≠ jump which (x ++ ';' :: b) ++ v := by
  intro h
  obtain ⟨pre, post, hjump⟩ := jump_eq which
  have hall : "openclicknp::PORT_ALL".toList = 'o' :: "penclicknp::PORT_ALL".toList := by simp
  have hx := hjump x _ rfl
  have hxb := hjump _ _ (dropWhile_isSpace_append x b)
  generalize x.dropWhile isSpace = y at hx hxb
  rw [hx, hxb, isEmpty_append_cons, if_neg Bool.false_ne_true] at h
  simp only [List.append_assoc, List.cons_append] at h
  have hin := List.append_cancel_left h
  cases y with
  | nil =>
    rw [List.isEmpty_nil, if_pos rfl, hall] at hin
    exact absurd (List.cons.inj hin).1 (by decide)
  | cons c y =>
    rw [List.isEmpty_cons, if_neg Bool.false_ne_true] at hin
    exact absurd (List.cons.inj (List.append_cancel_left hin)).1 (by decide)

/-- What is behind a `return` comes out right exactly when its expression is not cut and the rest of
the body comes out right. -/
theorem jump_capture_eq_iff (which : String) (t rest v : List Char)
    (next : List Char → List Char) :
    jump which (capture 0 (t ++ ';' :: rest)).1 ++ next (capture 0 (t ++ ';' :: rest)).2
        = jump which t ++ v ↔ Uncut t ∧ next rest = v := by
  rcases capture_cases t rest with ⟨hcap, hcut⟩ | ⟨hcut, hother⟩
  · rw [hcap, List.append_right_inj]
    exact ⟨fun h => ⟨hcut, h⟩, And.right⟩
  · refine iff_of_false (fun heq => ?_) fun h => hcut h.1
    generalize capture 0 (t ++ ';' :: rest) = out at hother heq
    rcases hother with ⟨b, hb⟩ | ⟨b, hb⟩
    · rw [hb] at heq
      exact jump_ne which out.1 b _ _ heq
    · rw [hb] at heq
      exact jump_ne which t b _ _ heq.symm

end

/-! ## The whole body -/

/-- Every `return` outside comments, literals and other `return` statements is the last word of the
body, or has an expression that is not cut. -/
inductive Faithful : List Piece → Prop
  | nil : Faithful []
  | last : Faithful [.word returnWord]
  | ret {ps e rest : List Piece} (he : returned 0 ps = some (e, rest)) (hcut : Uncut (spell e))
    (h : Faithful rest) : Faithful (.word returnWord :: ps)
  | skip {p : Piece} {ps : List Piece} (hp : p ≠ .word returnWord) (h : Faithful ps) :
    Faithful (p :: ps)

section
variable {which : String} {n : Nat} {prev : Option Char} {p : Piece} {ps e rest : List Piece}

theorem faithful_piece (hp : p ≠ .word returnWord ∨ ps = []) :
    Faithful (p :: ps) ↔ Faithful ps := by
  constructor
  · intro h
    cases h with
    | last => exact .nil
    | skip _ h => exact h
    | ret he =>
      rcases hp with hp | rfl
      · exact absurd rfl hp
      · cases he
  · intro h
    by_cases hword : p = .word returnWord
    · rw [hword, hp.resolve_left fun h => h hword]
      exact .last
    · exact .skip hword h

theorem faithful_return (hne : ps ≠ []) :
    Faithful (.word returnWord :: ps)
      ↔ ∃ e rest, returned 0 ps = some (e, rest) ∧ Uncut (spell e) ∧ Faithful rest := by
  constructor
  · intro h
    cases h with
    | last => exact absurd rfl hne
    | skip hp => exact absurd rfl hp
    | ret he hcut h => exact ⟨_, _, he, hcut, h⟩
  · rintro ⟨e, rest, he, hcut, h⟩
    exact .ret he hcut h

theorem rewriteLoop_nil : rewriteLoop which n prev [] = [] := by
  cases n with
  | zero => rfl
  | succ n => rfl

theorem jump_ne_returnWord (x u v : List Char) : jump which x ++ u ≠ returnWord ++ v := by
  intro h
  exact absurd (List.cons.inj h).1 (by decide)

/-- From any place in the body the loop does what it should exactly when the rest of the body is
faithful. -/
theorem rewriteLoop_eq_iff (h : CppText ps) (hprev : Whole prev ps)
    (hn : (spell ps).length ≤ n) :
    rewriteLoop which n prev (spell ps) = rewritten which ps ↔ Faithful ps := by
  induction hk : ps.length using Nat.strongRecOn generalizing ps n prev with
  | ind k ih =>
    cases ps with
    | nil =>
      rw [spell_nil, rewriteLoop_nil, rewritten]
      exact ⟨fun _ => .nil, fun _ => rfl⟩
    | cons p ps =>
      rw [List.length_cons] at hk
      by_cases hp : p ≠ .word returnWord ∨ ps = []
      -- the piece is copied
      · obtain ⟨m, prev', hm, hprev', hrun⟩ := rewriteLoop_piece h hprev hp hn
        have hspec : rewritten which (p :: ps) = p.text ++ rewritten which ps :=
          rewritten_piece (hp.imp_right fun hnil => by rw [hnil]; rfl)
        rw [hrun, hspec, List.append_right_inj, faithful_piece hp]
        exact ih ps.length (by omega) h.tail hprev' hm rfl
      -- a `return`, of which the expression is captured
      · obtain ⟨rfl, hne⟩ : p = .word returnWord ∧ ps ≠ [] :=
          ⟨Classical.byContradiction fun h => hp (.inl h), fun h => hp (.inr h)⟩
        obtain ⟨m, hm, hrun⟩ := rewriteLoop_return h hne hprev hn
        rw [hrun, faithful_return hne]
        cases hret : returned 0 ps with
        | none =>
          -- the loop takes what is not ended by a semicolon for a statement all the same
          rw [rewritten_piece (.inr hret)]
          refine ⟨fun heq => absurd heq (jump_ne_returnWord _ _ _), ?_⟩
          rintro ⟨e, rest, he, -⟩
          cases he
        | some out =>
          obtain ⟨e, rest⟩ := out
          have hps := eq_of_returned hret
          have hspell : spell ps = spell e ++ ';' :: spell rest := by
            rw [hps, spell_append]
            rfl
          have hlen : rest.length < k := by
            rw [← hk, hps, List.length_append, List.length_cons]
            omega
          rw [hspell, List.length_append, List.length_cons] at hm
          rw [hps] at h
          have hrest : CppText rest := h.tail.of_append.tail
          rw [hspell, rewritten_return hret,
            jump_capture_eq_iff which _ _ _ (rewriteLoop which m _),
            ih rest.length hlen hrest (fun _ _ _ => rfl) (by omega) rfl]
          constructor
          · exact fun ⟨hcut, h⟩ => ⟨e, rest, rfl, hcut, h⟩
          · rintro ⟨e', rest', heq, hcut, h⟩
            cases heq
            exact ⟨hcut, h⟩

/-- `rewriteReturns` replaces the `return` statements exactly of the faithful bodies. -/
theorem rewriteReturns_eq_iff (h : CppText ps) (which : String) :
    rewriteReturns (spell ps) which = rewritten which ps ↔ Faithful ps :=
  rewriteLoop_eq_iff h (fun _ _ _ => rfl) (Nat.le_refl _)

end

/-- `return max(a);` -/
def callBody : List Piece :=
  [.word returnWord, .mark ' ', .word ['m', 'a', 'x'], .mark '(', .word ['a'], .mark ')', .mark ';']

theorem cppText_callBody : CppText callBody :=
  .word (by decide) (by decide) (by decide) <|
  .mark (by decide) (by decide) (fun h => absurd h (by decide)) <|
  .word (by decide) (by decide) (by decide) <|
  .mark (by decide) (by decide) (fun h => absurd h (by decide)) <|
  .word (by decide) (by decide) (by decide) <|
  .mark (by decide) (by decide) (fun h => absurd h (by decide)) <|
  .mark (by decide) (by decide) (fun h => absurd h (by decide)) .nil

theorem rewriteReturns_callBody : CppText callBody ∧
    (rewriteReturns (spell callBody) "tx" = rewritten "tx" callBody ↔ Faithful callBody) :=
  ⟨cppText_callBody, rewriteReturns_eq_iff cppText_callBody "tx"⟩

/-- The parentheses and braces outside comments and literals are balanced, with these closing ones
still to come. -/
def balanced : List Char → List Piece → Bool
  | opened, [] => opened.isEmpty
  | opened, p :: ps =>
    if p = .mark '(' then balanced (')' :: opened) ps
    else if p = .mark '\x7b' then balanced ('\x7d' :: opened) ps
    else if p = .mark ')' then opened.head? == some ')' && balanced opened.tail ps
    else if p = .mark '\x7d' then opened.head? == some '\x7d' && balanced opened.tail ps
    else balanced opened ps

/-- `return ';';` -/
def semicolonBody : List Piece :=
  [.word returnWord, .mark ' ', .literal ['\'', ';', '\''], .mark ';']

theorem cppText_semicolonBody : CppText semicolonBody :=
  .word (by decide) (by decide) (by decide) <|
  .mark (by decide) (by decide) (fun h => absurd h (by decide)) <|
  .literal (.inr rfl) (.plain (by decide) (by decide) .nil) <|
  .mark (by decide) (by decide) (fun h => absurd h (by decide)) .nil

/-- A semicolon in a literal ends the statement. -/
theorem rewriteReturns_cuts_literal : ¬ ∀ ps which, CppText ps → balanced [] ps = true →
    rewriteReturns (spell ps) which = rewritten which ps := by
  intro hall
  have heq := hall semicolonBody "tx" cppText_semicolonBody (by decide)
  have hfaithful : Faithful semicolonBody :=
    (rewriteLoop_eq_iff cppText_semicolonBody (fun _ _ _ => rfl) (Nat.le_refl _)).mp heq
  obtain ⟨e, rest, he, hcut, -⟩ := (faithful_return (List.cons_ne_nil _ _)).mp hfaithful
  cases he
  exact hcut.before [' ', '\''] ['\''] rfl (by decide)

end OpenClickNP
