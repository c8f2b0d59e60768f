import OpenClickNP.Lib.Finishing
import OpenClickNP.Compiler.LexerProgress

/-!
# Productions that read no block

What is left to read of a file (`State.remaining`) never grows in one of these productions, and it
falls wherever a token is taken. `Moves p S s` is the statement about one production, with the
results `S` for which something was consumed; there is a rule for each way to put two productions
together, and one for loops all of whose turns consume (`Advancing`).
-/

namespace OpenClickNP

namespace Parser

open Ast Production

/-- The characters that the lexer has not read, and the current token. -/
def State.remaining (s : State) : Nat := if s.cur.kind = .eof then 0 else s.lex.left + 1

/-- The lexer stands behind the current token. -/
structure State.InStep (s : State) : Prop where
  inside : s.lex.pos ≤ s.lex.src.length
  behind : s.cur.range.end.offset = UInt32.ofNat s.lex.pos
  ended : s.cur.kind = .eof → s.lex.atEnd = true

/-- From `s` to `t` a token was consumed: the lexer is further on, or the end was reached. -/
def Consumes (s t : State) : Prop :=
  s.cur.kind ≠ .eof ∧ (t.cur.kind = .eof ∨ s.lex.pos < t.lex.pos)

/-- `t` is in the file of `s`, with no more left to read. -/
structure Onward (s t : State) : Prop where
  inStep : t.InStep
  buf : t.lex.buf = s.lex.buf
  le : t.remaining ≤ s.remaining

section
variable {s t u : State}

theorem Onward.refl (h : s.InStep) : Onward s s := ⟨h, rfl, Nat.le_refl _⟩

theorem Onward.trans (h : Onward s t) (h' : Onward t u) : Onward s u :=
  ⟨h'.inStep, h'.buf.trans h.buf, Nat.le_trans h'.le h.le⟩

theorem Onward.consumes (h : Onward s t) (hlt : t.remaining < s.remaining) : Consumes s t := by
  have hsrc : t.lex.src = s.lex.src := congrArg SourceBuffer.contents h.buf
  unfold State.remaining Lexer.left at hlt
  rw [hsrc] at hlt
  by_cases hs : s.cur.kind = .eof
  · rw [if_pos hs] at hlt
    exact absurd hlt (Nat.not_lt_zero _)
  · refine ⟨hs, ?_⟩
    by_cases ht : t.cur.kind = .eof
    · exact .inl ht
    · rw [if_neg hs, if_neg ht] at hlt
      right
      omega

theorem remaining_advance_lt (hin : s.lex.pos ≤ s.lex.src.length) (h : s.cur.kind ≠ .eof) :
    s.advance.remaining < s.remaining := by
  have hnext := Lexer.next_advances s.lex
  have hle := hnext.goes.left_le
  have hinside := hnext.goes.inside hin
  show (if s.lex.next.1.kind = .eof then 0 else s.lex.next.2.left + 1) <
    if s.cur.kind = .eof then 0 else s.lex.left + 1
  rw [if_neg h]
  rcases hnext.forward with ⟨hkind, -⟩ | ⟨hkind, hlt⟩
  · rw [if_pos hkind]
    omega
  · rw [if_neg hkind]
    unfold Lexer.left at hle ⊢
    rw [hnext.goes.src] at hle ⊢
    omega

theorem inStep_advance (hin : s.lex.pos ≤ s.lex.src.length) : s.advance.InStep where
  inside := by
    have hnext := (Lexer.next_advances s.lex).goes
    show s.lex.next.2.pos ≤ s.lex.next.2.src.length
    rw [hnext.src]
    exact hnext.inside hin
  behind := congrArg SourceLoc.offset (Lexer.next_advances s.lex).behind
  ended hkind := by
    rcases (Lexer.next_advances s.lex).forward with ⟨-, hend⟩ | ⟨hne, -⟩
    · exact hend
    · exact absurd hkind hne

theorem onward_advance (h : s.InStep) : Onward s s.advance where
  inStep := inStep_advance h.inside
  buf := Lexer.buf_next
  le := by
    by_cases hs : s.cur.kind = .eof
    · have hnext := Lexer.next_advances s.lex
      have hend := h.ended hs
      have hin := hnext.goes.inside h.inside
      simp only [Lexer.atEnd, decide_eq_true_eq] at hend
      rcases hnext.forward with ⟨hkind, -⟩ | ⟨-, hlt⟩
      · show (if s.lex.next.1.kind = .eof then 0 else s.lex.next.2.left + 1) ≤ _
        rw [if_pos hkind]
        exact Nat.zero_le _
      · omega
    · exact Nat.le_of_lt (remaining_advance_lt h.inside hs)

theorem inStep_error (h : s.InStep) (tok : Token) (msg : String) : (s.error tok msg).InStep :=
  ⟨h.inside, h.behind, h.ended⟩

theorem onward_error (h : s.InStep) (tok : Token) (msg : String) : Onward s (s.error tok msg) :=
  ⟨inStep_error h tok msg, rfl, Nat.le_refl _⟩

end

/-! ## One production -/

/-- From a state in step `p` ends in one, and where the result is in `S` it has consumed. -/
def Moves {α : Type} (p : Parse α) (S : Option α → Prop) (s : FileState) : Prop :=
  s.InStep → Finishes p s fun r t =>
    Onward s.toState t.toState ∧ (S r → t.remaining < s.remaining)

def Tame {α : Type} (p : Parse α) : Prop := ∀ s, Moves p (fun _ => False) s

/-- A success has consumed. -/
def Greedy {α : Type} (p : Parse α) : Prop := ∀ s, Moves p (fun r => r ≠ none) s

/-- A turn that goes on has consumed. -/
def Advancing {β : Type} (body : β → Parse (ForInStep β)) : Prop :=
  ∀ b s, Moves (body b) (fun r => ∃ b', r = some (.yield b')) s

section
variable {α β : Type} {p : Parse α} {f : α → Parse β} {S : Option β → Prop}
variable {S' S'' : Option α → Prop} {s : FileState}

theorem Moves.mono (h : Moves p S' s) (himp : ∀ r, S'' r → S' r) : Moves p S'' s := fun hin =>
  (h hin).mono fun r _ hpost => ⟨hpost.1, fun hS => hpost.2 (himp r hS)⟩

/-- Either part may be the one that consumes. -/
theorem Moves.bind (hp : Moves p S' s)
    (hf : ∀ a t, Moves (f a) (fun r => S r ∧ ¬ S' (some a)) t) (hnone : S none → S' none) :
    Moves (p >>= f) S s := by
  intro hin
  refine (hp hin).bind (fun a t ht => ?_) fun t ht => ⟨ht.1, fun hS => ht.2 (hnone hS)⟩
  refine (hf a t ht.1.inStep).mono fun r u hu => ⟨ht.1.trans hu.1, fun hS => ?_⟩
  by_cases ha : S' (some a)
  · exact Nat.lt_of_le_of_lt hu.1.le (ht.2 ha)
  · exact Nat.lt_of_lt_of_le (hu.2 ⟨hS, ha⟩) ht.1.le

theorem finishes_cur {f : Token → Parse β} {post : Option β → FileState → Prop}
    (h : Finishes (f s.cur) s post) : Finishes (cur >>= f) s post := h.get_bind

theorem Moves.cur_bind {f : Token → Parse β} (h : Moves (f s.cur) S s) : Moves (cur >>= f) S s :=
  fun hin => finishes_cur (h hin)

/-- Where `p` does nothing. -/
theorem Moves.skip_bind {a : α} (hrun : Yields p s (some a) s) (h : Moves (f a) S s) :
    Moves (p >>= f) S s := fun hin =>
  let ⟨r, t, hrest, hpost⟩ := h hin
  ⟨r, t, hrun.bind hrest, hpost⟩

/-- Where `p` takes the current token. -/
theorem Moves.take_bind {a : α} (hs : s.cur.kind ≠ .eof)
    (hrun : Yields p s (some a) (s.at s.advance)) (hf : Tame (f a)) : Moves (p >>= f) S s := by
  intro hin
  obtain ⟨r, t, hrest, ht, -⟩ := hf (s.at s.advance) (inStep_advance hin.inside)
  refine ⟨r, t, hrun.bind hrest, (onward_advance hin).trans ht, fun _ => ?_⟩
  exact Nat.lt_of_le_of_lt ht.le (remaining_advance_lt hin.inside hs)

theorem Moves.advance_bind {p : Parse β} (hs : s.cur.kind ≠ .eof) (hp : Tame p) :
    Moves (advance >>= fun _ => p) S s := .take_bind hs (Yields.modify _ s) hp

theorem Greedy.tame (h : Greedy p) : Tame p := fun s => (h s).mono fun _ => False.elim

theorem Tame.moves (h : Tame p) (hS : ∀ r, ¬ S' r) : Moves p S' s := (h s).mono hS

theorem Tame.pure (a : α) : Tame (pure a : Parse α) := fun _ hin =>
  .pure ⟨.refl hin, False.elim⟩

theorem Tame.fail : Tame (fail : Parse α) := fun _ hin => .fail ⟨.refl hin, False.elim⟩

theorem Tame.bind (hp : Tame p) (hf : ∀ a, Tame (f a)) : Tame (p >>= f) := fun s =>
  (hp s).bind (fun a _ => (hf a).moves fun _ h => h.1) id

theorem Greedy.bind (hp : Greedy p) (hf : ∀ a, Tame (f a)) : Greedy (p >>= f) := fun s =>
  (hp s).bind (fun a _ => (hf a).moves fun _ h => h.2 nofun) fun h => absurd rfl h

theorem Tame.attempt (h : Tame p) : Tame (attempt p) := fun s hin =>
  ((h s hin).mono fun _ _ ht => ⟨ht.1, False.elim⟩).attempt

theorem Moves.attempt (h : Moves p (fun _ => True) s) : Moves (attempt p) (fun _ => True) s :=
  fun hin => ((h hin).mono fun _ _ ht => ⟨ht.1, fun _ => ht.2 trivial⟩).attempt

/-- A loop all of whose turns consume, by induction on what is left to read. -/
theorem Advancing.tame_loop {body : β → Parse (ForInStep β)} (h : Advancing body) (b : β) :
    Tame (loop body b) := by
  intro s hin
  refine Finishes.loop (fun _ t => Onward s.toState t.toState) (fun t => t.remaining)
    (fun b' t _ ht => ?_) (.refl hin)
  refine (h b' t ht.inStep).mono fun r u hu => ?_
  match r with
  | some (.yield b'') => exact ⟨ht.trans hu.1, hu.2 ⟨b'', rfl⟩⟩
  | some (.done b'') => exact ⟨ht.trans hu.1, False.elim⟩
  | none => exact ⟨ht.trans hu.1, False.elim⟩

end

/-! ## Tokens -/

section
variable {α β : Type} {p q : Parse β} {t : Tok} {what : String} {s : FileState}
variable {S : Option β → Prop}

theorem Moves.pure {b : β} (h : ¬ S (some b)) : Moves (pure b) S s := fun hin =>
  .pure ⟨.refl hin, fun hS => absurd hS h⟩

theorem Moves.fail (h : ¬ S none) : Moves fail S s := fun hin =>
  .fail ⟨.refl hin, fun hS => absurd hS h⟩

theorem tame_advance : Tame advance := fun _ hin => .modify ⟨onward_advance hin, False.elim⟩

theorem tame_error (tok : Token) (msg : String) : Tame (error tok msg) := fun _ hin =>
  .modify ⟨onward_error hin tok msg, False.elim⟩

theorem tame_cur : Tame cur := fun _ => .cur_bind (.pure id)

theorem tame_prev : Tame prev := fun _ hin =>
  Finishes.get_bind (.pure ⟨.refl hin, False.elim⟩)

theorem tame_push (sink : Sink) (stmt : GroupStmt) : Tame (push sink stmt) := by
  intro s hin
  refine .modify ⟨?_, False.elim⟩
  cases sink <;> exact .refl hin

theorem tame_pushTop (stmt : TopStmt) : Tame (pushTop stmt) := fun _ hin =>
  .modify ⟨.refl hin, False.elim⟩

/-- An `accept` that takes the token has consumed. -/
theorem Moves.accept_ite (ht : t ≠ .eof) (hnone : ¬ S none) (hp : Tame p)
    (hq : ∀ u, Moves q S u) : Moves (accept t >>= fun b => if b = true then p else q) S s := by
  have haccept : Moves (accept t) (fun r => r = some true) s := by
    refine .cur_bind ?_
    split
    next h => exact .advance_bind (h ▸ ht) (.pure true)
    next => exact .pure nofun
  refine haccept.bind (fun b u => ?_) fun h => absurd h hnone
  cases b with
  | true => exact hp.moves fun _ h => h.2 rfl
  | false => exact (hq u).mono fun _ h => h.1

theorem Tame.accept_ite (ht : t ≠ .eof) (hp : Tame p) (hq : Tame q) :
    Tame (accept t >>= fun b => if b = true then p else q) := fun _ =>
  Moves.accept_ite ht id hp hq

theorem tame_accept (ht : t ≠ .eof) : Tame (accept t) := by
  intro s
  refine .cur_bind ?_
  split
  next h => exact .advance_bind (h ▸ ht) (.pure true)
  next => exact .pure id

theorem tame_expect : Tame (expect t what) := by
  intro s
  refine .cur_bind ?_
  split
  next => exact (tame_advance.bind fun _ => .pure _) s
  next => exact ((tame_error _ _).bind fun _ => .pure _) s

theorem greedy_require (ht : t ≠ .eof) (ht' : t ≠ .error) : Greedy (require t what) := by
  intro s hin
  by_cases h : s.cur.kind = t
  · exact ⟨some s.cur, { s with toState := s.advance }, yields_require (s := s) h,
      onward_advance hin, fun _ => remaining_advance_lt hin.inside (h ▸ ht)⟩
  · have hrun : Yields (require t what) s none
        { s with toState := s.error s.cur ("expected " ++ what ++ " (got " ++ tokName s.cur.kind ++
          ")") } := by
      have hexpect : Yields (expect t what) s (some { kind := .error, range := s.cur.range })
          { s with toState := s.error s.cur ("expected " ++ what ++ " (got " ++
            tokName s.cur.kind ++ ")") } :=
        .get_bind (.ite_neg h ((Yields.modify _ s).bind (.pure _ _)))
      exact hexpect.bind (.ite_neg (fun h => ht' h.symm) (.fail _))
    exact ⟨none, _, hrun, onward_error hin _ _, fun hne => absurd rfl hne⟩

theorem Greedy.goesOn {p : Parse (ForInStep β)} (h : Greedy p) :
    Moves p (fun r => ∃ b', r = some (.yield b')) s := by
  refine (h s).mono fun r hr => ?_
  obtain ⟨b', rfl⟩ := hr
  exact nofun

/-- A loop up to the closing brace, with a body that consumes when it succeeds. -/
theorem braceTurn_advancing {body : β → Parse β} (h : ∀ b (u : FileState), u.cur.kind ≠ .rBrace →
    u.cur.kind ≠ .eof → Moves (body b) (fun r => r ≠ none) u) : Advancing (braceTurn body) := by
  intro b u
  refine .cur_bind ?_
  split
  next => exact .pure nofun
  next hgo =>
    simp only [not_or] at hgo
    refine (h b u hgo.1 hgo.2).bind (fun b' v => .pure fun hS => hS.2 nofun) fun hnone => ?_
    obtain ⟨b', hb⟩ := hnone
    cases hb

theorem Greedy.tame_untilBrace {body : β → Parse β} (h : ∀ b, Greedy (body b)) (b : β) :
    Tame (untilBrace body b) :=
  (braceTurn_advancing fun b u _ _ => h b u).tame_loop b

end

/-! ## Element heads and entries -/

theorem greedy_signalParam : Greedy parseSignalParam :=
  (greedy_require (by decide) (by decide)).bind fun _ =>
    (greedy_require (by decide) (by decide)).tame.bind fun _ => .pure _

theorem signalParamTurn_advancing : Advancing signalParamTurn := by
  intro params s
  refine .cur_bind ?_
  split
  next => exact .pure nofun
  next =>
    refine (greedy_signalParam.bind fun p => ?_).goesOn
    exact .accept_ite (by decide) (.pure _) (.pure _)

theorem tame_signalHead : Tame parseSignalHead := by
  refine .accept_ite (by decide) ?_ (.pure _)
  exact (signalParamTurn_advancing.tame_loop []).bind fun _ => tame_expect.bind fun _ => .pure _

theorem greedy_hlsPragma (pragmas : List String) : Greedy (parseHlsPragma pragmas) :=
  (greedy_require (by decide) (by decide)).bind fun _ => tame_expect.bind fun _ => .pure _

theorem tame_hlsPragmas (pragmas : List String) : Tame (parseHlsPragmas pragmas) :=
  (greedy_require (by decide) (by decide)).tame.bind fun _ =>
    (Greedy.tame_untilBrace greedy_hlsPragma pragmas).bind fun _ => tame_expect.bind fun _ =>
      .pure _

theorem greedy_timingEntry (ii : Int) : Greedy (parseTimingEntry ii) := by
  refine (greedy_require (by decide) (by decide)).bind fun id => ?_
  refine (greedy_require (by decide) (by decide)).tame.bind fun _ => ?_
  refine (greedy_require (by decide) (by decide)).tame.bind fun val => ?_
  split
  next =>
    split
    next => exact (tame_error _ _).bind fun _ => .fail
    next =>
      split
      next => exact (tame_error _ _).bind fun _ => .fail
      next => exact tame_expect.bind fun _ => .pure _
  next => exact (tame_error _ _).bind fun _ => .fail

theorem tame_timing (ii : Int) : Tame (parseTiming ii) :=
  (greedy_require (by decide) (by decide)).tame.bind fun _ =>
    (Greedy.tame_untilBrace greedy_timingEntry ii).bind fun _ => tame_expect.bind fun _ => .pure _

theorem tame_portCounts : Tame parsePortCounts := by
  refine .accept_ite (by decide) ?_ (.pure _)
  refine (greedy_require (by decide) (by decide)).tame.bind fun _ => tame_expect.bind fun _ => ?_
  exact (greedy_require (by decide) (by decide)).tame.bind fun _ => tame_expect.bind fun _ =>
    .pure _

/-! ## Instances -/

theorem hostQualifierTurn_advancing : Advancing hostQualifierTurn := fun _ _ =>
  .accept_ite (by decide) nofun (.pure _) fun _ =>
    .accept_ite (by decide) nofun (.pure _) fun _ => .pure nofun

theorem tame_after {t : Tok} (ht : t ≠ .eof) (what : String) (default : Int) :
    Tame (parseAfter t what default) :=
  .accept_ite ht ((greedy_require (by decide) (by decide)).tame.bind fun _ => .pure _) (.pure _)

theorem tame_range : Tame parseRange :=
  tame_cur.bind fun _ => tame_advance.bind fun _ =>
    (greedy_require (by decide) (by decide)).tame.bind fun _ =>
      (tame_after (by decide) _ _).bind fun _ => (tame_after (by decide) _ _).bind fun _ =>
        tame_expect.bind fun _ => .pure _

theorem tame_optionalRange : Tame parseOptionalRange := by
  intro s
  refine .cur_bind ?_
  split
  next => exact tame_range.attempt s
  next => exact .pure id

theorem paramTurn_advancing (strict : Bool) : Advancing (paramTurn strict) := by
  intro params s
  refine .accept_ite (by decide) nofun (fun u => ?_) fun _ => .pure nofun
  refine .cur_bind ?_
  split
  next => exact (tame_advance.bind fun _ => .pure _) u
  next =>
    split
    next => exact (tame_advance.bind fun _ => .pure _) u
    next =>
      split
      next => exact ((tame_error _ _).bind fun _ => .fail) u
      next => exact .pure id

theorem tame_args (strict : Bool) : Tame (parseArgs strict) :=
  (greedy_require (by decide) (by decide)).tame.bind fun _ => tame_expect.bind fun _ =>
    (greedy_require (by decide) (by decide)).tame.bind fun _ =>
      (tame_after (by decide) _ _).bind fun _ =>
        ((paramTurn_advancing strict).tame_loop []).bind fun _ => tame_expect.bind fun _ => .pure _

theorem tame_instance (sink : Sink) (first : Token) : Tame (parseInstance sink first) := by
  refine tame_advance.bind fun _ => (greedy_require (by decide) (by decide)).tame.bind fun _ => ?_
  refine (hostQualifierTurn_advancing.tame_loop _).bind fun flags => ?_
  refine Tame.bind (.accept_ite (by decide) (tame_args true) (.pure _)) fun args => ?_
  exact (tame_accept (by decide)).bind fun _ => tame_push sink _

/-! ## Chains -/

theorem tame_node (sink : Sink) (tok : Token) : Tame (parseNode sink tok) := by
  refine .accept_ite (by decide) ?_ (.pure _)
  exact (tame_args false).bind fun _ => tame_prev.bind fun _ => (tame_push sink _).bind fun _ =>
    .pure _

/-- Where an arrow stands it is taken. -/
theorem link_moves (sink : Sink) (arrow : Token) (source : ConnEnd) {s : FileState}
    {S : Option ConnEnd → Prop} (hs : s.cur.kind ≠ .eof) :
    Moves (parseLink sink arrow source) S s := by
  refine .advance_bind hs (tame_optionalRange.bind fun leading v => ?_)
  refine .cur_bind ?_
  split
  next =>
    refine Tame.bind (tame_accept (by decide)) (fun _ => ?_) v
    refine (tame_accept (by decide)).bind fun _ =>
      (greedy_require (by decide) (by decide)).tame.bind fun next => ?_
    exact (tame_node sink next).bind fun _ => tame_prev.bind fun _ =>
      tame_optionalRange.bind fun _ => (tame_push sink _).bind fun _ => .pure _
  next => exact ((tame_error _ _).bind fun _ => .fail) v

theorem linkTurn_advancing (sink : Sink) : Advancing (linkTurn sink) := by
  intro source s
  refine .cur_bind ?_
  split
  next harrow =>
    have hs : s.cur.kind ≠ .eof := by
      rcases harrow with h | h <;> rw [h] <;> decide
    exact Moves.bind (link_moves sink s.cur source hs (S := fun _ => True))
      (fun _ _ => .pure fun h => h.2 trivial) fun _ => trivial
  next => exact .pure nofun

theorem tame_chain (sink : Sink) (first : Token) : Tame (parseChain sink first) :=
  (tame_node sink first).bind fun _ => tame_prev.bind fun _ => tame_optionalRange.bind fun _ =>
    ((linkTurn_advancing sink).tame_loop _).bind fun _ => (tame_accept (by decide)).bind fun _ =>
      .pure _

/-- The tokens at which `parseDeclOrChain` takes something. -/
def declStarts : List Tok := [.ident, .kwHost, .kwVerilog]

section
variable {sink : Sink} {s : FileState}

theorem yields_noQualifier (hhost : s.cur.kind ≠ .kwHost) (hverilog : s.cur.kind ≠ .kwVerilog) :
    Yields parseQualifier s (some ()) s := by
  refine Yields.bind (yields_accept_not (s := s) hhost) ?_
  exact Yields.bind (yields_accept_not (s := s) hverilog) (.pure _ _)

theorem yields_qualifier (h : s.cur.kind = .kwHost ∨ s.cur.kind = .kwVerilog) :
    Yields parseQualifier s (some ()) (s.at s.advance) := by
  rcases h with h | h
  · exact Yields.bind (yields_accept (s := s) h) (.pure _ _)
  · refine Yields.bind (yields_accept_not (s := s) (by rw [h]; decide)) ?_
    exact Yields.bind (yields_accept (s := s) h) (.pure _ _)

/-- Behind its first token a statement may fail, but that token is taken. -/
theorem declOrChain_moves {S : Option Unit → Prop} (hs : s.cur.kind ∈ declStarts) :
    Moves (parseDeclOrChain sink) S s := by
  have hnames : ∀ first, Tame (cur >>= fun tok =>
      if tok.kind = .doubleColon then parseInstance sink first else parseChain sink first) := by
    intro first u
    refine .cur_bind ?_
    split
    next => exact tame_instance sink first u
    next => exact tame_chain sink first u
  have hne : s.cur.kind ≠ .eof := fun h => by rw [h] at hs; exact absurd hs (by decide)
  simp only [declStarts, List.mem_cons, List.not_mem_nil, or_false] at hs
  rcases hs with hident | hqualifier
  · refine .skip_bind (yields_noQualifier (by rw [hident]; decide) (by rw [hident]; decide)) ?_
    refine .cur_bind ?_
    rw [if_pos hident]
    exact .advance_bind hne (hnames s.cur)
  · refine .take_bind hne (yields_qualifier hqualifier) fun u => ?_
    refine .cur_bind ?_
    split
    next => exact (tame_advance.bind fun _ => hnames u.cur) u
    next => exact ((tame_error _ _).bind fun _ => .fail) u

/-- At any other token the statement fails, and the token stays. -/
theorem yields_declOrChain_none (hs : s.cur.kind ∉ declStarts) :
    Yields (parseDeclOrChain sink) s none
      (s.at (s.error s.cur ("expected identifier (got " ++ tokName s.cur.kind ++ ")"))) := by
  simp only [declStarts, List.mem_cons, List.not_mem_nil, or_false, not_or] at hs
  obtain ⟨hident, hhost, hverilog⟩ := hs
  refine (yields_noQualifier hhost hverilog).bind (Yields.get_bind (.ite_neg hident ?_))
  exact Yields.bind (Yields.modify _ s) (.fail _)

/-! ## Recovery -/

/-- Recovery stops at one of its tokens, where it stands or further on. -/
theorem skipUntil_finishes {kinds : List Tok} (heof : Tok.eof ∈ kinds)
    (hin : s.lex.pos ≤ s.lex.src.length) : Finishes (skipUntil kinds) s fun r t =>
      r = some () ∧ t.cur.kind ∈ kinds ∧
        (t = s ∨ Onward s.toState t.toState ∧ t.remaining < s.remaining) := by
  refine Finishes.loop
    (fun _ t => t = s ∨ Onward s.toState t.toState ∧ t.remaining < s.remaining)
    (fun t => t.remaining) (fun _ t _ ht => ?_) (.inl rfl)
  have hinside : t.lex.pos ≤ t.lex.src.length := by
    rcases ht with rfl | ⟨ht, -⟩
    · exact hin
    · exact ht.inStep.inside
  by_cases hstop : t.cur.kind ∈ kinds
  · exact .of_yields (Yields.get_bind (.ite_pos hstop (.pure _ _))) ⟨rfl, hstop, ht⟩
  · have hne : t.cur.kind ≠ .eof := fun h => hstop (h ▸ heof)
    have hlt := remaining_advance_lt hinside hne
    refine .of_yields (Yields.get_bind (.ite_neg hstop (Yields.bind (Yields.modify _ t)
      (.pure _ _)))) ⟨.inr ?_, hlt⟩
    have hnext : Onward t.toState t.advance :=
      ⟨inStep_advance hinside, Lexer.buf_next, Nat.le_of_lt hlt⟩
    rcases ht with rfl | ⟨ht, hlt'⟩
    · exact ⟨hnext, hlt⟩
    · exact ⟨ht.trans hnext, Nat.lt_trans hlt hlt'⟩

theorem tame_skipUntil {kinds : List Tok} (heof : Tok.eof ∈ kinds) : Tame (skipUntil kinds) :=
  fun _ hin => (skipUntil_finishes heof hin.inside).mono fun _ t ht => by
    rcases ht.2.2 with rfl | ht
    · exact ⟨.refl hin, False.elim⟩
    · exact ⟨ht.1, False.elim⟩

/-- Recovery consumes where it does not stand at one of its tokens. -/
theorem skipUntil_moves {kinds : List Tok} {S : Option Unit → Prop} (heof : Tok.eof ∈ kinds)
    (hs : s.cur.kind ∉ kinds) : Moves (skipUntil kinds) S s := fun hin =>
  (skipUntil_finishes heof hin.inside).mono fun _ t ht => by
    rcases ht.2.2 with rfl | ht'
    · exact absurd ht.2.1 hs
    · exact ⟨ht'.1, fun _ => ht'.2⟩

theorem skipTurn_advancing {kinds : List Tok} (heof : Tok.eof ∈ kinds) :
    Advancing (skipTurn kinds) := by
  intro _ u
  refine .cur_bind ?_
  split
  next => exact .pure nofun
  next hgo => exact .advance_bind (fun h => hgo (h ▸ heof)) (.pure _)

end

/-- A statement that is tried: where it fails at its first token, what follows has to consume. -/
theorem Moves.declOrChain_bind {β : Type} {f : Option Unit → Parse β} {S : Option β → Prop}
    {sink : Sink} {s : FileState} (hf : ∀ ok, Tame (f ok))
    (hstuck : ∀ t : FileState, s.cur.kind ∉ declStarts → t.cur = s.cur → Moves (f none) S t) :
    Moves (Production.attempt (parseDeclOrChain sink) >>= f) S s := by
  by_cases hs : s.cur.kind ∈ declStarts
  · refine (declOrChain_moves hs).attempt.bind (fun ok _ => ?_) fun _ => trivial
    exact (hf ok).moves fun _ h => h.2 trivial
  · intro hin
    obtain ⟨r, t, hrest, ht, hlt⟩ := hstuck (s.at (s.error s.cur _)) hs rfl (inStep_error hin _ _)
    exact ⟨r, t, (yields_declOrChain_none hs).attempt.bind hrest,
      (onward_error hin _ _).trans ht, hlt⟩

/-! ## Groups -/

/-- A statement of a group, and the recovery of `parseGroupBody`. Where the statement fails at its
first token, that is none of the tokens at which recovery stops. -/
theorem groupStmt_moves {s : FileState} {S : Option Unit → Prop} (hbrace : s.cur.kind ≠ .rBrace)
    (heof : s.cur.kind ≠ .eof) : Moves (attempt (parseDeclOrChain .group) >>= fun ok =>
      if ok.isNone = true then skipUntil [.rBrace, .eof, .ident, .kwHost, .kwVerilog]
      else pure ()) S s := by
  refine .declOrChain_bind (fun ok u => ?_) fun t hs ht => ?_
  · split
    next => exact tame_skipUntil (by decide) u
    next => exact .pure id
  · refine skipUntil_moves (by decide) ?_
    simp only [declStarts, List.mem_cons, List.not_mem_nil, or_false, not_or, ht] at hs ⊢
    exact ⟨hbrace, heof, hs⟩

/-- A turn of the loop of `parseGroupBody`. -/
def groupTurn : Unit → Parse (ForInStep Unit) := braceTurn fun _ => do
  let ok ← attempt (parseDeclOrChain .group)
  if ok.isNone then skipUntil [.rBrace, .eof, .ident, .kwHost, .kwVerilog]

theorem parseGroupBody_eq : parseGroupBody = (do
    let _ ← require .lBrace "\x60\x7b\x60 to begin element group body"
    modify fun s => { s with body := [] }
    loop groupTurn ()
    let _ ← expect .rBrace "\x60\x7d\x60"
    let s ← get
    pure s.body) := rfl

theorem groupTurn_advancing : Advancing groupTurn :=
  braceTurn_advancing fun _ _ hbrace heof => groupStmt_moves hbrace heof

theorem tame_groupBody : Tame parseGroupBody := by
  rw [parseGroupBody_eq]
  refine (greedy_require (by decide) (by decide)).tame.bind fun _ => ?_
  refine Tame.bind (fun _ hin => .modify ⟨.refl hin, False.elim⟩) fun _ => ?_
  refine (groupTurn_advancing.tame_loop ()).bind fun _ => tame_expect.bind fun _ => ?_
  exact Tame.bind (fun _ hin => .of_yields (.of_eq fun _ => rfl) ⟨.refl hin, False.elim⟩)
    fun _ => .pure _

theorem elementGroupDecl_moves {s : FileState} {S : Option Unit → Prop} (hs : s.cur.kind ≠ .eof) :
    Moves parseElementGroupDecl S s := by
  refine .cur_bind (.advance_bind hs ?_)
  refine (greedy_require (by decide) (by decide)).tame.bind fun _ => ?_
  refine tame_portCounts.bind fun counts => tame_groupBody.bind fun _ => ?_
  exact tame_pushTop _

end Parser

end OpenClickNP
