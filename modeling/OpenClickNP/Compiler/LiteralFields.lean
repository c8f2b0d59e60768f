import Mathlib.Data.List.TakeWhile
import OpenClickNP.Compiler.Literals
import OpenClickNP.Compiler.Parsing

/-!
# Where literals go

The places of the grammar where a literal stands for a field of the syntax tree. All but one cast
the value of the token to `int`, so that a literal from `2 ^ 31` on becomes another number without a
word; `.timing` reads the digits of the token again, as decimal ones (`literal_stored_iff`).
-/

namespace OpenClickNP

open Production OpenClickNP.Parser Syntax

/-- A field that a literal is written for, with the rest of its phrase. -/
inductive Field where
  /-- `<in, out>` of an element or a group. -/
  | portIn (nOut : Numeral)
  | portOut (nIn : Numeral)
  /-- The arguments of an instance, `strict` for one with a name. -/
  | argIn (strict : Bool) (a : Args)
  | argOut (strict : Bool) (a : Args)
  | argDepth (strict : Bool) (a : Args)
  /-- `[lo-hi*depth]`. -/
  | rangeLo (b : Bracket)
  | rangeHi (b : Bracket)
  | rangeDepth (b : Bracket)
  /-- An entry of `.timing`. -/
  | ii

namespace Field

def hiLexemes (hi : Option Numeral) : List Lexeme := hi.elim [] fun n => [.sym .dash, .number n]

def paramsLexemes (a : Args) : List Lexeme :=
  a.params.flatMap (fun p => [.sym .comma, p.lexeme]) ++ [.sym .rParen]

/-- The phrase in front of the literal. -/
def before : Field → List Lexeme
  | portIn _ => [.sym .lAngle]
  | portOut nIn => [.sym .lAngle, .number nIn, .sym .comma]
  | argIn _ _ => []
  | argOut _ a => [.number a.nIn, .sym .comma]
  | argDepth _ a => [.number a.nIn, .sym .comma, .number a.nOut, .sym .star]
  | rangeLo _ => [.sym .lBracket]
  | rangeHi b => [.sym .lBracket, .number b.lo, .sym .dash]
  | rangeDepth b => .sym .lBracket :: .number b.lo :: (hiLexemes b.hi ++ [.sym .star])
  | ii => [.ident "ii", .sym .equals]

/-- The phrase behind it. -/
def after : Field → List Lexeme
  | portIn nOut => [.sym .comma, .number nOut, .sym .rAngle]
  | portOut _ => [.sym .rAngle]
  | argIn _ a => .sym .comma :: .number a.nOut :: (depthLexemes a.depth ++ paramsLexemes a)
  | argOut _ a => depthLexemes a.depth ++ paramsLexemes a
  | argDepth _ a => paramsLexemes a
  | rangeLo b => hiLexemes b.hi ++ (depthLexemes b.depth ++ [.sym .rBracket])
  | rangeHi b => depthLexemes b.depth ++ [.sym .rBracket]
  | rangeDepth _ => [.sym .rBracket]
  | ii => [.sym .semicolon]

/-- The production that reads the phrase, and the field of what it gives. -/
def read : Field → Parse Int
  | portIn _ => Prod.fst <$> parsePortCounts
  | portOut _ => Prod.snd <$> parsePortCounts
  | argIn strict _ => InstanceArgs.nInPorts <$> parseArgs strict
  | argOut strict _ => InstanceArgs.nOutPorts <$> parseArgs strict
  | argDepth strict _ => InstanceArgs.channelDepth <$> parseArgs strict
  | rangeLo _ => Ast.PortRange.lo <$> parseRange
  | rangeHi _ => Ast.PortRange.hi <$> parseRange
  | rangeDepth _ => Ast.PortRange.depth <$> parseRange
  | ii => parseTimingEntry 0

/-- The literal is written for the field in the text from `u` to `v`. -/
def Written (F : Field) (l : Literal) (u v : State) : Prop :=
  ∃ (w : State) (lx : Lexer), u.Reads F.before w ∧ lx.next = (w.cur, w.lex) ∧ lx.StandsAt l ∧
    w.advance.Reads F.after v

/-- Reading the phrase stores the number, or the compiler reports an error. -/
def StoredOrError (F : Field) (l : Literal) (s : FileState) : Prop :=
  ∃ r s', Yields F.read s r s' ∧ (r = some (l.value : Int) ∨ s'.lex.diags.hasError = true)

/-- Where the number is stored: below `2 ^ 31`, and for an `ii` where the digits stand for the same
number in decimal, unless that is refused. -/
def Fits : Field → Literal → Prop
  | ii, l => ∀ v ∈ stoi (String.ofList l.digits), 1 ≤ v → v ≤ 64 → v = l.value
  | _, l => l.value < 2 ^ 31

end Field

theorem castInt_numeral_iff (l : Literal) :
    castInt l.numeral.value = l.value ↔ l.value < 2 ^ 31 := by
  -- an `int` is below `2 ^ 31`, also where the lexer made 0 of a literal from `2 ^ 64` on
  have hcast : castInt l.numeral.value < 2 ^ 31 := by
    unfold castInt
    simp only []
    split <;> omega
  constructor
  · intro h
    rw [h] at hcast
    exact_mod_cast hcast
  · intro h
    have hsmall : l.value < 2 ^ 64 := Nat.lt_trans h (by decide)
    have hvalue : l.numeral.value.toNat = l.value := by
      unfold Literal.numeral
      rw [if_pos hsmall, UInt64.toNat_ofNat_of_lt' hsmall]
    unfold castInt
    simp only [hvalue]
    rw [Nat.mod_eq_of_lt (by omega), if_pos h]

section
variable {F : Field} {l : Literal} {u v w : State} {s : FileState}

/-- The phrase, with the literal for a numeral. -/
theorem Field.Written.phrase (h : F.Written l u v) :
    u.Reads (F.before ++ .number l.numeral :: F.after) v := by
  obtain ⟨w, lx, hbefore, hnext, hstands, hafter⟩ := h
  have hmatch := Lexer.next_literal hstands
  rw [hnext] at hmatch
  exact reads_append.mpr ⟨w, hbefore, reads_number.mpr ⟨hmatch, hafter⟩⟩

/-- **What is stored.** Every field but the `ii` gets the value of its token as an `int`. -/
theorem yields_read {n : Numeral} (hF : F ≠ .ii)
    (hreads : s.toState.Reads (F.before ++ .number n :: F.after) v) :
    Yields F.read s (some (castInt n.value)) (s.at v) := by
  cases F with
  | portIn nOut => exact (yields_portCounts_some (s := s) hreads).map
  | portOut nIn => exact (yields_portCounts_some (s := s) hreads).map
  | argIn strict a =>
    obtain ⟨params, hrun, -⟩ := yields_args (s := s) strict (a := { a with nIn := n }) hreads
    exact hrun.map
  | argOut strict a =>
    obtain ⟨params, hrun, -⟩ := yields_args (s := s) strict (a := { a with nOut := n }) hreads
    exact hrun.map
  | argDepth strict a =>
    obtain ⟨params, hrun, -⟩ := yields_args (s := s) strict (a := { a with depth := some n }) hreads
    exact hrun.map
  | rangeLo b =>
    obtain ⟨r, hrun, hbare⟩ := yields_range (s := s) (b := { b with lo := n }) hreads
    have hlo : r.lo = castInt n.value := congrArg Ast.PortRange.lo hbare
    rw [← hlo]
    exact hrun.map
  | rangeHi b =>
    obtain ⟨r, hrun, hbare⟩ := yields_range (s := s) (b := { b with hi := some n }) hreads
    have hhi : r.hi = castInt n.value := congrArg Ast.PortRange.hi hbare
    rw [← hhi]
    exact hrun.map
  | rangeDepth b =>
    have hphrase : (Field.rangeDepth b).before ++ .number n :: (Field.rangeDepth b).after
        = ({ b with depth := some n } : Bracket).lexemes := by
      simp [Field.before, Field.after, Bracket.lexemes, Field.hiLexemes, depthLexemes]
    rw [hphrase] at hreads
    obtain ⟨r, hrun, hbare⟩ := yields_range (s := s) hreads
    have hdepth : r.depth = castInt n.value := congrArg Ast.PortRange.depth hbare
    rw [← hdepth]
    exact hrun.map
  | ii => exact absurd rfl hF

/-- An entry of `.timing`: what `stoi` makes of the digits, if that is from 1 to 64. -/
theorem yields_timingEntry {n : Numeral} {ii : Int} (hstoi : stoi n.text = some ii)
    (hrange : 1 ≤ ii ∧ ii ≤ 64)
    (hreads : s.toState.Reads (Field.ii.before ++ .number n :: Field.ii.after) v) :
    Yields Field.ii.read s (some ii) (s.at v) := by
  simp only [Field.before, Field.after, List.cons_append, List.nil_append, reads_ident, reads_sym,
    reads_number, reads_nil] at hreads
  obtain ⟨⟨hid, hii⟩, heq, ⟨hnum, htext, -⟩, hsemi, rfl⟩ := hreads
  refine (yields_require hid).bind ((yields_require heq).bind ((yields_require hnum).bind ?_))
  rw [if_pos hii, htext, hstoi]
  refine .ite_neg (by omega) ?_
  exact (yields_expect hsemi).bind (.pure _ _)

/-- Any other entry is refused. -/
theorem refuses_timingEntry {n : Numeral}
    (hrefused : ∀ ii ∈ stoi n.text, ¬ (1 ≤ ii ∧ ii ≤ 64))
    (hreads : s.toState.Reads (Field.ii.before ++ .number n :: Field.ii.after) v) :
    ∃ s', Yields Field.ii.read s none s' ∧ s'.lex.diags.hasError = true := by
  simp only [Field.before, Field.after, List.cons_append, List.nil_append, reads_ident, reads_sym,
    reads_number, reads_nil] at hreads
  obtain ⟨⟨hid, hii⟩, heq, ⟨hnum, htext, -⟩, -, -⟩ := hreads
  have hfail : ∀ (tok : Token) (msg : String) (u : State), ∃ s',
      Yields (do error tok msg; fail : Parse Int) (s.at u) none s' ∧
        s'.lex.diags.hasError = true := fun tok msg u =>
    ⟨_, Yields.bind (.modify _ _) (.fail _), DiagnosticEngine.hasError_error _ _ _⟩
  -- no number at all, or one that is out of range
  cases hstoi : stoi n.text with
  | none =>
    obtain ⟨s', hrun, herror⟩ := hfail s.toState.advance.advance.cur "invalid integer for ii"
      s.toState.advance.advance.advance
    refine ⟨s', ?_, herror⟩
    refine (yields_require hid).bind ((yields_require heq).bind ((yields_require hnum).bind ?_))
    rw [if_pos hii, htext, hstoi]
    exact hrun
  | some ii =>
    have hout := hrefused ii hstoi
    obtain ⟨s', hrun, herror⟩ := hfail s.toState.advance.advance.cur "ii must be in [1, 64]"
      s.toState.advance.advance.advance
    refine ⟨s', ?_, herror⟩
    refine (yields_require hid).bind ((yields_require heq).bind ((yields_require hnum).bind ?_))
    rw [if_pos hii, htext, hstoi]
    exact .ite_pos (by omega) hrun

/-- A production ends in one way, so it is the number that it gives that counts. -/
theorem storedOrError_iff {x : Int} (hrun : Yields F.read s (some x) (s.at v)) :
    F.StoredOrError l s ↔ x = l.value ∨ v.lex.diags.hasError = true := by
  constructor
  · rintro ⟨r, s', hrun', hstored⟩
    obtain ⟨rfl, rfl⟩ := hrun'.unique hrun
    exact hstored.imp_left Option.some.inj
  · exact fun hor => ⟨_, _, hrun, hor.imp_left (congrArg some)⟩

/-- **A literal is stored or refused** exactly when it fits, if nothing else in its phrase is an
error. -/
theorem literal_stored_iff (h : F.Written l s.toState v) :
    F.StoredOrError l s ↔ F.Fits l ∨ v.lex.diags.hasError = true := by
  have hreads := h.phrase
  by_cases hF : F = .ii
  · subst hF
    by_cases hvalid : ∃ ii ∈ stoi l.numeral.text, 1 ≤ ii ∧ ii ≤ 64
    · obtain ⟨ii, hstoi, hrange⟩ := hvalid
      have hrun := yields_timingEntry hstoi hrange hreads
      have hfits : Field.ii.Fits l ↔ ii = l.value := by
        constructor
        · exact fun hall => hall ii hstoi hrange.1 hrange.2
        · rintro hvalue v hv - -
          rw [← hvalue]
          exact Option.some.inj (hv.symm.trans hstoi)
      rw [hfits]
      exact storedOrError_iff hrun
    · -- the entry is refused, whatever the value of the literal
      simp only [not_exists, not_and] at hvalid
      obtain ⟨s', hrun, herror⟩ := refuses_timingEntry (fun ii hstoi hrange =>
        hvalid ii hstoi hrange.1 hrange.2) hreads
      exact ⟨fun _ => Or.inl fun ii hstoi hlow hhigh =>
        absurd hhigh (hvalid ii hstoi hlow), fun _ => ⟨none, s', hrun, Or.inr herror⟩⟩
  · have hrun := yields_read hF hreads
    have hfits : F.Fits l ↔ l.value < 2 ^ 31 := by
      cases F <;> first | exact Iff.rfl | exact absurd rfl hF
    rw [hfits, ← castInt_numeral_iff]
    exact storedOrError_iff hrun

/-- A decimal `ii` is read again as the same number. -/
theorem fits_ii_of_decimal (hdecimal : l.radix = .decimal) : Field.ii.Fits l := by
  have hdigits : l.digits.takeWhile Char.isDigit = l.digits := by
    refine List.takeWhile_eq_self_iff.mpr fun c hc => ?_
    have hc := l.valid c hc
    rwa [hdecimal] at hc
  have hvalue : l.value = l.digits.foldl (fun acc c => 10 * acc + digitValue c) 0 := by
    unfold Literal.value
    rw [hdecimal]
    rfl
  rintro v hv - -
  unfold stoi at hv
  rw [String.toList_ofList, hdigits] at hv
  simp only [← hvalue] at hv
  split at hv
  · cases hv
  · exact (Option.some.inj hv).symm

end

/-! ## A count of ports -/

/-- The parser in front of the port counts of an element. -/
def atCounts (text : String) : FileState :=
  let s := openFile {} "" text.toList
  s.at s.toState.advance.advance

def numeralOne : Numeral := { text := "1", value := 1 }

/-- `.element E <2, 1>` -/
def literalTwo : Literal where
  radix := .decimal
  digits := ['2']
  nonempty := by decide
  valid := by decide
  unmarked := by decide

/-- `.element E <4294967297, 1>`: one more than `2 ^ 32`. -/
def literalLarge : Literal where
  radix := .decimal
  digits := "4294967297".toList
  nonempty := by decide
  valid := by decide
  unmarked := by decide

theorem written_portIn {nOut : Numeral} {l : Literal} {u : State} {t : List Char}
    (hopen : u.cur.kind = .lAngle)
    (hrest : u.lex.skipWhitespaceAndComments.rest = l.spelling ++ t) (hends : l.Ends t)
    (hcomma : u.advance.advance.cur.kind = .comma)
    (hout : u.advance.advance.advance.cur.Matches (.number nOut))
    (hclose : u.advance.advance.advance.advance.cur.kind = .rAngle) :
    (Field.portIn nOut).Written l u u.advance.advance.advance.advance.advance := by
  refine ⟨u.advance, u.lex, ?_, rfl, ⟨t, hrest, hends⟩, ?_⟩
  · exact reads_sym.mpr ⟨hopen, reads_nil.mpr rfl⟩
  · exact reads_sym.mpr ⟨hcomma, reads_number.mpr ⟨hout, reads_sym.mpr ⟨hclose, reads_nil.mpr rfl⟩⟩⟩

theorem literal_stored_two : ∃ v : State,
    (Field.portIn numeralOne).StoredOrError literalTwo (atCounts ".element E <2, 1> \x7b") ↔
      (Field.portIn numeralOne).Fits literalTwo ∨ v.lex.diags.hasError = true :=
  ⟨_, literal_stored_iff (s := atCounts ".element E <2, 1> \x7b")
    (written_portIn (u := (atCounts ".element E <2, 1> \x7b").toState) (l := literalTwo)
      (t := ", 1> \x7b".toList) (by decide +kernel) (by decide +kernel) (by decide)
      (by decide +kernel) (by decide +kernel) (by decide +kernel))⟩

/-- The element gets one port. -/
theorem literal_wraps : ¬ ∀ (F : Field) (l : Literal) (s : FileState) (v : State),
    F.Written l s.toState v → F.StoredOrError l s := by
  intro h
  have hwritten : (Field.portIn numeralOne).Written literalLarge
      (atCounts ".element E <4294967297, 1> \x7b").toState _ :=
    written_portIn (t := ", 1> \x7b".toList) (by decide +kernel) (by decide +kernel) (by decide)
      (by decide +kernel) (by decide +kernel) (by decide +kernel)
  obtain ⟨r, s', hrun, hstored⟩ := h _ _ _ _ hwritten
  obtain ⟨rfl, rfl⟩ := hrun.unique (yields_read nofun hwritten.phrase)
  rcases hstored with hstored | herror
  · exact absurd (Option.some.inj hstored) (by decide)
  · exact absurd herror (by decide +kernel)

end OpenClickNP
