import OpenClickNP.Compiler.Spelling

/-!
# Integer literals

A literal as it is written, with the number it stands for. The lexer takes the digits behind the
mark of the base for the text of the token and keeps their value when it fits in 64 bits; otherwise
the value of the token is 0 (`lexToken_literal`).
-/

namespace OpenClickNP

/-- How a literal is written. -/
inductive Radix where
  | decimal
  | hex (upper : Bool)
  | octal
deriving DecidableEq, Repr

namespace Radix

def base : Radix → Nat
  | decimal => 10
  | hex _ => 16
  | octal => 8

/-- What stands in front of the digits. -/
def mark : Radix → List Char
  | decimal => []
  | hex false => ['0', 'x']
  | hex true => ['0', 'X']
  | octal => ['0']

def isDigit : Radix → Char → Bool
  | decimal => Char.isDigit
  | hex _ => isXDigit
  | octal => isOctDigit

end Radix

/-- A decimal literal does not start like an octal one. -/
def startsOctal (digits : List Char) : Bool :=
  digits.head? == some '0' && digits.tail.head?.any isOctDigit

structure Literal where
  radix : Radix
  digits : List Char
  nonempty : digits ≠ []
  valid : ∀ c ∈ digits, radix.isDigit c = true
  unmarked : radix = .decimal → startsOctal digits = false

namespace Literal

def spelling (l : Literal) : List Char := l.radix.mark ++ l.digits

/-- The number that the literal stands for. -/
def value (l : Literal) : Nat :=
  l.digits.foldl (fun acc c => l.radix.base * acc + digitValue c) 0

/-- What the lexer makes of it. -/
def numeral (l : Literal) : Numeral where
  text := String.ofList l.digits
  value := if l.value < 2 ^ 64 then UInt64.ofNat l.value else 0

/-- The literal does not run on into the text behind it. -/
def Ends (l : Literal) (t : List Char) : Prop :=
  Lexer.StopsAt l.radix.isDigit t ∧
    (l.radix = .decimal → l.digits = ['0'] → ∀ c ∈ t.head?, c ≠ 'x' ∧ c ≠ 'X')

instance (l : Literal) (t : List Char) : Decidable (l.Ends t) :=
  inferInstanceAs (Decidable (_ ∧ _))

theorem stoull_digits (l : Literal) :
    (stoull l.digits l.radix.base).getD 0 = l.numeral.value := by
  have hne : l.digits.isEmpty = false := by simpa using l.nonempty
  unfold stoull numeral
  show (if (l.digits.isEmpty || decide (2 ^ 64 ≤ l.value)) = true then none
    else some (UInt64.ofNat l.value)).getD 0 = _
  rw [hne, Bool.false_or]
  by_cases h : l.value < 2 ^ 64
  · rw [if_neg (by simpa using h), if_pos h, Option.getD_some]
  · rw [if_pos (by simpa using h), if_neg h, Option.getD_none]

end Literal

namespace Lexer

variable {lx : Lexer} {start : SourceLoc} {t : List Char}

/-- The digits, behind the mark. -/
theorem lexDigits_literal (l : Literal) (hrest : lx.rest = l.digits ++ t)
    (ht : StopsAt l.radix.isDigit t) :
    ∃ lx', lx.lexDigits start l.radix.isDigit l.radix.base
        = (lx'.token start .integer l.digits l.numeral.value, lx') ∧ Passes lx l.digits lx' := by
  have hpass := passes_scan hrest l.valid ht
  refine ⟨_, ?_, hpass⟩
  simp only [lexDigits, hpass.textFrom, l.stoull_digits]

/-- The mark of a hexadecimal literal. -/
theorem lexNumber_hex (upper : Bool) (hrest : lx.rest = (Radix.hex upper).mark ++ t) :
    ∃ lx₁, Passes lx (Radix.hex upper).mark lx₁ ∧
      lx.lexNumber start = lx₁.lexDigits start isXDigit 16 := by
  obtain ⟨x, hx, hmark⟩ : ∃ x, (x = 'x' ∨ x = 'X') ∧ (Radix.hex upper).mark = ['0', x] := by
    cases upper <;> exact ⟨_, by decide, rfl⟩
  rw [hmark] at hrest ⊢
  have hzero : lx.rest = '0' :: (x :: t) := hrest
  have hfirst := passes_advance hzero
  refine ⟨lx.advance.advance, hfirst.trans (passes_advance (rest_advance hzero)), ?_⟩
  unfold lexNumber
  rw [if_pos ⟨peek_of_cons hzero, by simpa [peek_one_of_cons hzero] using hx⟩]

theorem not_isOctDigit_mark {c : Char} (h : isOctDigit c = true) : ¬ (c = 'x' ∨ c = 'X') := by
  rintro (rfl | rfl) <;> exact absurd h (by decide)

theorem isDigit_of_isOctDigit {c : Char} (h : isOctDigit c = true) : c.isDigit = true := by
  simp only [isOctDigit, Bool.and_eq_true, decide_eq_true_eq] at h
  simp only [Char.isDigit, Bool.and_eq_true, decide_eq_true_eq]
  exact ⟨h.1, Char.le_trans h.2 (by decide)⟩

/-- The mark of an octal literal. -/
theorem lexNumber_octal {c : Char} {w : List Char} (hrest : lx.rest = '0' :: c :: w)
    (hc : isOctDigit c = true) :
    lx.lexNumber start = lx.advance.lexDigits start isOctDigit 8 := by
  have hone : lx.peek 1 = c := peek_one_of_cons hrest
  unfold lexNumber
  rw [if_neg fun h => not_isOctDigit_mark hc (hone ▸ h.2),
    if_pos ⟨peek_of_cons hrest, by rw [hone]; exact hc⟩]

/-- A decimal literal has no mark. -/
theorem lexNumber_decimal {c : Char} {w : List Char} (hrest : lx.rest = c :: w)
    (hoctal : startsOctal (c :: w) = false) (hmark : c = '0' → ∀ d ∈ w.head?, d ≠ 'x' ∧ d ≠ 'X') :
    lx.lexNumber start = lx.lexDigits start Char.isDigit 10 := by
  unfold lexNumber
  rw [peek_of_cons hrest, peek_one_of_cons hrest, if_neg, if_neg]
  · rintro ⟨rfl, hoct⟩
    cases w with
    | nil => exact absurd hoct (by decide)
    | cons d w => exact Bool.false_ne_true (hoctal.symm.trans hoct)
  · rintro ⟨rfl, hx⟩
    cases w with
    | nil => exact absurd hx (by decide)
    | cons d w =>
      obtain ⟨hne, hne'⟩ := hmark rfl d rfl
      exact hx.elim hne hne'

theorem startsOctal_of_stop {d : Char} (h : StopsAt Char.isDigit t) :
    startsOctal (d :: t) = false := by
  cases t with
  | nil => exact Bool.and_false _
  | cons c t =>
    have hoct : isOctDigit c = false := by
      by_contra hne
      have hdigit := isDigit_of_isOctDigit (by simpa using hne)
      rw [h c rfl] at hdigit
      cases hdigit
    show (_ && isOctDigit c) = false
    rw [hoct, Bool.and_false]

/-- In the text a decimal literal does not look like one with a mark. -/
theorem unmarked_of_ends {l : Literal} (hradix : l.radix = .decimal) (ht : l.Ends t) {d : Char}
    {w : List Char} (hdw : l.digits = d :: w) :
    startsOctal (d :: (w ++ t)) = false ∧
      (d = '0' → ∀ x ∈ (w ++ t).head?, x ≠ 'x' ∧ x ≠ 'X') := by
  obtain ⟨hstop, hzero⟩ := ht
  have hunmarked := l.unmarked hradix
  rw [hradix] at hstop
  rw [hdw] at hunmarked hzero
  cases w with
  | nil =>
    -- a single digit: what stands behind it is no digit, and no `x` if it is 0
    refine ⟨startsOctal_of_stop hstop, ?_⟩
    rintro rfl
    exact hzero hradix rfl
  | cons c w =>
    refine ⟨hunmarked, fun _ x hx => ?_⟩
    obtain rfl : c = x := Option.some.inj hx
    have hc : c.isDigit = true := by
      have hvalid := l.valid c
      rw [hradix, hdw] at hvalid
      exact hvalid (by simp)
    exact ⟨fun h => absurd (h ▸ hc) (by decide), fun h => absurd (h ▸ hc) (by decide)⟩

/-- **A literal.** -/
theorem lexToken_literal (l : Literal) (hrest : lx.rest = l.spelling ++ t) (ht : l.Ends t) :
    ∃ lx', lx.lexToken start = (lx'.token start .integer l.digits l.numeral.value, lx') ∧
      Passes lx l.spelling lx' := by
  have hstop := ht.1
  obtain ⟨d, w, hdw⟩ := List.exists_cons_of_ne_nil l.nonempty
  -- every literal starts with a digit, of which the lexer makes a number
  have hlexed : ∀ {c : Char} {u : List Char}, lx.rest = c :: u → c.isDigit = true →
      lx.lexToken start = lx.lexNumber start := fun h hc => by
    rw [lexToken_of_word h (isWordChar_of_isDigit hc), hc, if_pos rfl]
  have hdigits : ∀ lx : Lexer, lx.rest = l.digits ++ t → StopsAt l.radix.isDigit t →
      ∃ lx', lx.lexDigits start l.radix.isDigit l.radix.base
          = (lx'.token start .integer l.digits l.numeral.value, lx') ∧ Passes lx l.digits lx' :=
    fun lx hrest ht => lexDigits_literal l hrest ht
  have hd : l.radix.isDigit d = true := l.valid d (by rw [hdw]; exact List.mem_cons_self)
  unfold Literal.spelling at hrest ⊢
  cases hradix : l.radix with
  | decimal =>
    rw [hradix] at hrest hstop hdigits hd
    have hhead : lx.rest = d :: (w ++ t) := by rw [hrest, hdw]; rfl
    obtain ⟨lx', htok, hpass⟩ := hdigits lx hrest hstop
    refine ⟨lx', ?_, hpass⟩
    obtain ⟨hoctal, hmark⟩ := unmarked_of_ends hradix ht hdw
    rw [hlexed hhead hd, lexNumber_decimal hhead hoctal hmark, ← htok]
    rfl
  | hex upper =>
    rw [hradix] at hrest hstop hdigits
    rw [List.append_assoc] at hrest
    obtain ⟨lx₁, hpass₁, hnumber⟩ := @lexNumber_hex lx start _ upper hrest
    obtain ⟨lx', htok, hpass⟩ := hdigits lx₁ (hpass₁.rest_eq hrest) hstop
    refine ⟨lx', ?_, hpass₁.trans hpass⟩
    have hhead : ∃ u, lx.rest = '0' :: u := by
      rw [hrest]
      cases upper <;> exact ⟨_, rfl⟩
    obtain ⟨u, hu⟩ := hhead
    rw [hlexed hu (by decide), hnumber, ← htok]
    rfl
  | octal =>
    rw [hradix] at hrest hstop hdigits hd
    have hhead : lx.rest = '0' :: d :: (w ++ t) := by rw [hrest, hdw]; rfl
    obtain ⟨lx', htok, hpass⟩ := hdigits lx.advance
      ((rest_advance hhead).trans (by rw [hdw]; rfl)) hstop
    refine ⟨lx', ?_, (passes_advance hhead).trans hpass⟩
    rw [hlexed hhead (by decide), lexNumber_octal hhead hd, ← htok]
    rfl

/-- The next thing in the text, behind blanks and comments, is the literal. -/
def StandsAt (lx : Lexer) (l : Literal) : Prop :=
  ∃ t, lx.skipWhitespaceAndComments.rest = l.spelling ++ t ∧ l.Ends t

/-- The token of a literal. -/
theorem next_literal {l : Literal} (h : lx.StandsAt l) : lx.next.1.Matches (.number l.numeral) := by
  obtain ⟨t, hrest, hends⟩ := h
  obtain ⟨lx', htok, -⟩ :=
    @lexToken_literal _ lx.skipWhitespaceAndComments.here _ l hrest hends
  obtain ⟨c, w, hcw⟩ := List.exists_cons_of_ne_nil l.nonempty
  have hend : lx.skipWhitespaceAndComments.atEnd = false := by
    cases hspell : l.spelling ++ t with
    | nil =>
      rw [Literal.spelling, hcw] at hspell
      simp at hspell
    | cons d u => exact atEnd_of_cons (hrest.trans hspell)
  have hnext : lx.next = lx.skipWhitespaceAndComments.lexToken
      lx.skipWhitespaceAndComments.here := by
    unfold next
    simp only [hend, Bool.false_eq_true, if_false]
  rw [hnext, htok]
  exact ⟨rfl, rfl, rfl⟩

end Lexer

end OpenClickNP
