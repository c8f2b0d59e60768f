import OpenClickNP.Compiler.Scanning

/-!
# Opaque blocks

The text of a `.state`, `.init`, `.handler` or `.signal` block is a sequence of comments, string
and character literals and other characters, and the braces among the other characters are
balanced. `lexOpaqueBlock` reads such a text, and stops in front of the closing brace.
-/

namespace OpenClickNP

/-- What stands between two quotes `q`: a backslash takes the character after it along. -/
inductive Quoted (q : Char) : List Char → Prop
  | nil : Quoted q []
  | plain {c : Char} {w : List Char} (hq : c ≠ q) (hs : c ≠ '\\') (h : Quoted q w) :
    Quoted q (c :: w)
  | escaped {c : Char} {w : List Char} (h : Quoted q w) : Quoted q ('\\' :: c :: w)

/-- A slash in front of the text does not start a comment. -/
def NoComment (w : List Char) : Prop := ∀ c ∈ w.head?, c ≠ '/' ∧ c ≠ '*'

/-- A character that neither opens nor closes anything, with the text behind it. -/
def OpaquePlain (c : Char) (w : List Char) : Prop :=
  c ∉ ['"', '\'', '\x7b', '\x7d'] ∧ (c = '/' → NoComment w)

/-- `OpaqueText d w`: read with `d` braces open, `w` closes these and is balanced after them. -/
inductive OpaqueText : Nat → List Char → Prop
  | nil : OpaqueText 0 []
  | opened {d : Nat} {w : List Char} (h : OpaqueText (d + 1) w) : OpaqueText d ('\x7b' :: w)
  | closed {d : Nat} {w : List Char} (h : OpaqueText d w) : OpaqueText (d + 1) ('\x7d' :: w)
  | plain {d : Nat} {c : Char} {w : List Char} (hc : OpaquePlain c w) (h : OpaqueText d w) :
    OpaqueText d (c :: w)
  | lineComment {d : Nat} {text w : List Char} (ht : '\n' ∉ text) (h : OpaqueText d w) :
    OpaqueText d ('/' :: '/' :: text ++ '\n' :: w)
  | blockComment {d : Nat} {text w : List Char} (ht : ¬ ['*', '/'] <:+: text ++ ['*'])
    (h : OpaqueText d w) : OpaqueText d ('/' :: '*' :: text ++ '*' :: '/' :: w)
  | literal {d : Nat} {q : Char} {text w : List Char} (hq : q = '"' ∨ q = '\'')
    (ht : Quoted q text) (h : OpaqueText d w) : OpaqueText d (q :: text ++ q :: w)

/-- Characters that are no quotes, braces or slashes. -/
theorem OpaqueText.plains {d : Nat} {w t : List Char}
    (hw : ∀ c ∈ w, c ∉ ['"', '\'', '\x7b', '\x7d', '/']) (ht : OpaqueText d t) :
    OpaqueText d (w ++ t) := by
  induction w with
  | nil => exact ht
  | cons c w ih =>
    have hc := hw c List.mem_cons_self
    simp only [List.mem_cons, List.not_mem_nil, or_false, not_or] at hc
    refine .plain ⟨?_, fun hslash => absurd hslash hc.2.2.2.2⟩
      (ih fun c hc => hw c (List.mem_cons_of_mem _ hc))
    simp [hc]

namespace Lexer

variable {lx lx' : Lexer} {c : Char} {w t : List Char}

theorem passes_lineComment {text : List Char} (hrest : lx.rest = text ++ '\n' :: t)
    (ht : '\n' ∉ text) : Passes lx text (lx.scan fun l => l.peek != '\n') := by
  refine passes_scan (f := fun c => c != '\n') hrest (fun c hc => ?_) fun c hc => ?_
  · simpa using fun heq : c = '\n' => ht (heq ▸ hc)
  · cases hc
    rfl

/-- The comment ends at its first star with a slash. -/
theorem passes_blockComment {text : List Char}
    (hrest : lx.rest = '/' :: '*' :: text ++ '*' :: '/' :: t)
    (ht : ¬ ['*', '/'] <:+: text ++ ['*']) :
    Passes lx ('/' :: '*' :: text ++ ['*', '/']) lx.skipBlockComment := by
  have hfirst := passes_advance hrest
  have hrest₁ := hfirst.rest_eq hrest
  have hsecond := passes_advance hrest₁
  have hrest₂ := hsecond.rest_eq hrest₁
  have hscan : Passes lx.advance.advance text
      (lx.advance.advance.scan fun l => !(l.peek == '*' && l.peek 1 == '/')) := by
    refine passes_scanText
      (fun r => !(r.getD 0 '\x00' == '*' && r.getD 1 '\x00' == '/')) (fun l => ?_) hrest₂
      (fun u hu hne => ?_) fun _ => rfl
    · rw [peek_eq, peek_eq]
    · obtain ⟨c, u, rfl⟩ := List.exists_cons_of_ne_nil hne
      obtain ⟨v, hv⟩ := hu
      rw [Bool.not_eq_true', Bool.and_eq_false_iff, beq_eq_false_iff_ne, beq_eq_false_iff_ne]
      refine Decidable.not_and_iff_not_or_not.mp ?_
      rintro ⟨hstar, hslash⟩
      cases u with
      | nil =>
        have heq : '*' = '/' := hslash
        exact absurd heq (by decide)
      | cons d u =>
        have hc : c = '*' := hstar
        have hd : d = '/' := hslash
        exact ht ⟨v, u ++ ['*'], by rw [← hv, hc, hd]; simp⟩
  have hrest₃ := hscan.rest_eq hrest₂
  have hthird := passes_advance hrest₃
  have hrest₄ := hthird.rest_eq hrest₃
  have hall := (hfirst.trans hsecond).trans (hscan.trans (hthird.trans (passes_advance hrest₄)))
  rw [skipBlockComment]
  simp only [atEnd_of_cons hrest₃, Bool.false_eq_true, if_false]
  exact hall

/-- The text of a literal, up to the closing quote. Induction on the text. -/
theorem passes_quotedLoop {q : Char} {text : List Char} (h : Quoted q text) (hq : q ≠ '\\')
    (hrest : lx.rest = text ++ q :: t) (n : Nat) (hn : text.length < n) :
    Passes lx text (quotedLoop q n lx) := by
  induction h generalizing lx n with
  | nil =>
    obtain ⟨m, rfl⟩ : ∃ m, n = m + 1 := ⟨n - 1, by omega⟩
    rw [quotedLoop, peek_of_cons hrest, beq_self_eq_true, Bool.or_true, if_pos rfl]
    exact .refl lx
  | @plain c w hc hs _ ih =>
    obtain ⟨m, rfl⟩ : ∃ m, n = m + 1 := ⟨n - 1, by omega⟩
    have hstep : quotedLoop q (m + 1) lx = quotedLoop q m lx.advance := by
      rw [quotedLoop, atEnd_of_cons hrest, peek_of_cons hrest]
      simp [hc, hs]
    rw [hstep]
    have hfirst := passes_advance hrest
    exact hfirst.trans (ih (hfirst.rest_eq hrest) m (by simpa using hn))
  | @escaped c w _ ih =>
    obtain ⟨m, rfl⟩ : ∃ m, n = m + 1 := ⟨n - 1, by omega⟩
    have hfirst := passes_advance hrest
    have hrest₁ := hfirst.rest_eq hrest
    have hsecond := passes_advance hrest₁
    -- the closing quote is still to come, so the backslash is not the last character
    have hlast : lx.pos + 1 < lx.src.length := by
      have hlen := congrArg List.length hrest
      simp only [rest, List.length_drop, List.length_append, List.length_cons] at hlen
      omega
    have hstep : quotedLoop q (m + 1) lx = quotedLoop q m lx.advance.advance := by
      rw [quotedLoop, atEnd_of_cons hrest, peek_of_cons hrest]
      simp [hq.symm, hlast]
    rw [hstep]
    exact (hfirst.trans hsecond).trans (ih (hsecond.rest_eq hrest₁) m (by simp at hn; omega))

theorem passes_skipString {q : Char} {text : List Char} (h : Quoted q text) (hq : q ≠ '\\')
    (hrest : lx.rest = q :: text ++ q :: t) :
    Passes lx (q :: text ++ [q]) (lx.skipString q) := by
  have hopen := passes_advance hrest
  have hrest₁ := hopen.rest_eq hrest
  have hbody := passes_quotedLoop h hq hrest₁ lx.advance.left (by rw [left_eq, hrest₁]; simp)
  have hrest₂ := hbody.rest_eq hrest₁
  rw [skipString]
  simp only [atEnd_of_cons hrest₂, Bool.false_eq_true, if_false]
  exact hopen.trans (hbody.trans (passes_advance hrest₂))

/-! ## The block -/

theorem peek_one_ne (hrest : lx.rest = c :: (w ++ t)) (hw : NoComment w) (ht : NoComment t) :
    lx.peek 1 ≠ '/' ∧ lx.peek 1 ≠ '*' := by
  rw [peek_one_of_cons hrest]
  cases w with
  | nil =>
    cases t with
    | nil => exact ⟨by decide, by decide⟩
    | cons d t => exact ht d rfl
  | cons d w => exact hw d rfl

/-- A turn that passes the front of a text, and the turns that pass the rest. -/
theorem opaqueLoop_turn {lx lx₁ : Lexer} {w₁ w₂ : List Char} {n m d d₁ : Nat}
    (hfirst : Passes lx w₁ lx₁) (hm : n ≤ m + w₁.length)
    (hturn : opaqueLoop n (d + 1) lx = opaqueLoop m (d₁ + 1) lx₁)
    (hrest : ∃ lx' k, Passes lx₁ w₂ lx' ∧ m ≤ k + w₂.length ∧
      opaqueLoop m (d₁ + 1) lx₁ = opaqueLoop k 1 lx') :
    ∃ lx' k, Passes lx (w₁ ++ w₂) lx' ∧ n ≤ k + (w₁ ++ w₂).length ∧
      opaqueLoop n (d + 1) lx = opaqueLoop k 1 lx' := by
  obtain ⟨lx', k, hpass, hk, hloop⟩ := hrest
  refine ⟨lx', k, hfirst.trans hpass, ?_, hturn.trans hloop⟩
  rw [List.length_append]
  omega

/-- **The loop reads an opaque text** and has enough turns left for what follows. Induction on the
text, one case for each turn. -/
theorem opaqueLoop_text {d : Nat} (h : OpaqueText d w) (ht : NoComment t)
    (hrest : lx.rest = w ++ t) (n : Nat) (hn : w.length ≤ n) :
    ∃ lx' k, Passes lx w lx' ∧ n ≤ k + w.length ∧
      opaqueLoop n (d + 1) lx = opaqueLoop k 1 lx' := by
  induction h generalizing lx n with
  | nil => exact ⟨lx, n, .refl lx, by simp, rfl⟩
  | @opened d w _ ih =>
    obtain ⟨m, rfl⟩ : ∃ m, n = m + 1 := ⟨n - 1, by simp at hn; omega⟩
    have hfirst := passes_advance hrest
    refine opaqueLoop_turn hfirst (by simp) ?_
      (ih (hfirst.rest_eq hrest) m (by simpa using hn))
    rw [opaqueLoop, atEnd_of_cons hrest, peek_of_cons hrest]
    simp
  | @closed d w _ ih =>
    obtain ⟨m, rfl⟩ : ∃ m, n = m + 1 := ⟨n - 1, by simp at hn; omega⟩
    have hfirst := passes_advance hrest
    refine opaqueLoop_turn hfirst (by simp) ?_
      (ih (hfirst.rest_eq hrest) m (by simpa using hn))
    rw [opaqueLoop, atEnd_of_cons hrest, peek_of_cons hrest]
    simp
  | @plain d c w hc _ ih =>
    obtain ⟨m, rfl⟩ : ∃ m, n = m + 1 := ⟨n - 1, by simp at hn; omega⟩
    have hfirst := passes_advance hrest
    refine opaqueLoop_turn hfirst (by simp) ?_
      (ih (hfirst.rest_eq hrest) m (by simpa using hn))
    have hcomment : c = '/' → lx.peek 1 ≠ '/' ∧ lx.peek 1 ≠ '*' :=
      fun hslash => peek_one_ne hrest (hc.2 hslash) ht
    obtain ⟨h₁, h₂, h₃, h₄⟩ : c ≠ '"' ∧ c ≠ '\'' ∧ c ≠ '\x7b' ∧ c ≠ '\x7d' := by
      simpa using hc.1
    have hline : ¬ (c = '/' ∧ lx.peek 1 = '/') := fun hp => (hcomment hp.1).1 hp.2
    have hstar : ¬ (c = '/' ∧ lx.peek 1 = '*') := fun hp => (hcomment hp.1).2 hp.2
    rw [opaqueLoop, atEnd_of_cons hrest, peek_of_cons hrest]
    simp [h₁, h₂, h₃, h₄, hline, hstar]
  | @lineComment d text w htext _ ih =>
    obtain ⟨m, rfl⟩ : ∃ m, n = m + 2 := ⟨n - 2, by simp at hn; omega⟩
    have hsplit : lx.rest = ('/' :: '/' :: text) ++ '\n' :: (w ++ t) := by
      rw [hrest, List.append_assoc]
      rfl
    have hscan := passes_lineComment hsplit (by simpa using htext)
    have hrest₁ := hscan.rest_eq hsplit
    -- the newline takes a turn of its own
    have hnewline := passes_advance hrest₁
    have hturns : opaqueLoop (m + 2) (d + 1) lx
        = opaqueLoop m (d + 1) (lx.scan fun l => l.peek != '\n').advance := by
      have hone : lx.peek 1 = '/' := peek_one_of_cons hsplit
      rw [opaqueLoop, atEnd_of_cons hsplit, peek_of_cons hsplit, hone]
      simp only [Bool.false_or, Nat.succ_ne_zero, beq_iff_eq, if_false, and_self, if_true]
      rw [opaqueLoop, atEnd_of_cons hrest₁, peek_of_cons hrest₁]
      simp
    have hall := opaqueLoop_turn (hscan.trans hnewline) (by simp) hturns
      (ih (hnewline.rest_eq hrest₁) m (by simp at hn; omega))
    simpa using hall
  | @blockComment d text w htext _ ih =>
    obtain ⟨m, rfl⟩ : ∃ m, n = m + 1 := ⟨n - 1, by simp at hn; omega⟩
    have hsplit : lx.rest = '/' :: '*' :: text ++ '*' :: '/' :: (w ++ t) := by
      rw [hrest, List.append_assoc]
      rfl
    have hfirst := passes_blockComment hsplit htext
    have hturn : opaqueLoop (m + 1) (d + 1) lx
        = opaqueLoop m (d + 1) lx.skipBlockComment := by
      have hone : lx.peek 1 = '*' := peek_one_of_cons hsplit
      rw [opaqueLoop, atEnd_of_cons hsplit, peek_of_cons hsplit, hone]
      simp
    have hall := opaqueLoop_turn hfirst (by simp) hturn
      (ih (hfirst.rest_eq (by rw [hsplit]; simp)) m (by simp at hn; omega))
    simpa using hall
  | @literal d q text w hq htext _ ih =>
    obtain ⟨m, rfl⟩ : ∃ m, n = m + 1 := ⟨n - 1, by simp at hn; omega⟩
    have hsplit : lx.rest = q :: text ++ q :: (w ++ t) := by
      rw [hrest, List.append_assoc]
      rfl
    have hne : q ≠ '\\' := by rcases hq with rfl | rfl <;> decide
    have hfirst := passes_skipString htext hne hsplit
    have hturn : opaqueLoop (m + 1) (d + 1) lx = opaqueLoop m (d + 1) (lx.skipString q) := by
      rw [opaqueLoop, atEnd_of_cons hsplit, peek_of_cons hsplit]
      rcases hq with rfl | rfl <;> simp
    have hall := opaqueLoop_turn hfirst (by simp) hturn
      (ih (hfirst.rest_eq (by rw [hsplit]; simp)) m (by simp at hn; omega))
    simpa using hall

/-- **A closed block.** The token is the text between the braces, and the lexer stands behind the
closing one. -/
theorem lexOpaqueBlock_closed (h : OpaqueText 0 w) (hrest : lx.rest = w ++ '\x7d' :: t) :
    lx.lexOpaqueBlock.1.kind = .opaqueCpp ∧ lx.lexOpaqueBlock.1.text = String.ofList w ∧
      Passes lx (w ++ ['\x7d']) lx.lexOpaqueBlock.2 := by
  have hnone : NoComment ('\x7d' :: t) := by
    intro c hc
    cases hc
    decide
  obtain ⟨lx', k, hpass, hk, hloop⟩ := opaqueLoop_text h hnone hrest lx.left
    (by rw [left_eq, hrest]; simp)
  have hrest' := hpass.rest_eq hrest
  have hend : opaqueLoop lx.left 1 lx = (0, lx') := by
    obtain ⟨j, rfl⟩ : ∃ j, k = j + 1 := ⟨k - 1, by
      rw [left_eq, hrest] at hk
      simp at hk
      omega⟩
    rw [hloop, opaqueLoop, atEnd_of_cons hrest', peek_of_cons hrest']
    simp
  have hlex : lx.lexOpaqueBlock = (lx'.token lx.here .opaqueCpp w, lx'.advance) := by
    simp only [lexOpaqueBlock, hend, beq_self_eq_true, if_true, peek_of_cons hrest', hpass.textFrom]
  rw [hlex]
  exact ⟨rfl, rfl, hpass.trans (passes_advance hrest')⟩

/-- **A block that the file ends in.** The token is an error, and one is reported. -/
theorem lexOpaqueBlock_unclosed (h : OpaqueText 0 w) (hrest : lx.rest = w) :
    lx.lexOpaqueBlock.1.kind = .error ∧ lx.lexOpaqueBlock.2.rest = [] ∧
      lx.lexOpaqueBlock.2.diags.hasError = true := by
  have hsplit : lx.rest = w ++ [] := hrest.trans (List.append_nil w).symm
  obtain ⟨lx', k, hpass, -, hloop⟩ := opaqueLoop_text (t := []) h nofun hsplit lx.left
    (by simp [left_eq, hrest])
  have hrest' := hpass.rest_eq hsplit
  have hend : opaqueLoop lx.left 1 lx = (1, lx') := by
    rw [hloop]
    cases k with
    | zero => rfl
    | succ k => rw [opaqueLoop, atEnd_of_nil hrest', Bool.true_or, if_pos rfl]
  have hpeek : lx'.peek = '\x00' := by
    rw [peek_eq, hrest']
    rfl
  have herror : lx.lexOpaqueBlock.2
      = lx'.error { «begin» := lx.here, «end» := lx'.here } "unterminated \x60\x7b\x60 block" := by
    simp [lexOpaqueBlock, hend, peek_error, hpeek]
  refine ⟨by simp only [lexOpaqueBlock, hend]; rfl, ?_, ?_⟩
  · rw [herror]
    exact hrest'
  · rw [herror]
    exact DiagnosticEngine.hasError_error _ _ _

end Lexer

end OpenClickNP
