import Mathlib.Data.List.Basic
import OpenClickNP.Compiler.CppText
import OpenClickNP.Compiler.Lower

/-!
# `emit.cpp` of `sw_emu`, `hls_cpp` and `systemc`: the struct of a `.state` body

A `constexpr` member of a struct has to be `static`. The three backends add the `static` line by
line: to the first `constexpr` of a line, where that stands at the start of the line or behind a
blank and there is no `static` on the line. Both are looked for as characters, whatever they are
part of.
-/

namespace OpenClickNP

/-! ## The emitters -/

/-- `std::string::find`. -/
def find (pat : List Char) : List Char → Option Nat
  | [] => if pat = [] then some 0 else none
  | c :: rest => if pat.isPrefixOf (c :: rest) then some 0 else (find pat rest).map (· + 1)

/-- The lines that `std::getline` reads: behind the last line break there is one more line only
where there is something. -/
def getlines {α : Type} (stop : α → Bool) : List α → List (List α)
  | [] => []
  | c :: rest =>
    let lines := getlines stop rest
    if stop c then [] :: lines else (c :: lines.headD []) :: lines.tail

def staticWord : List Char := ['s', 't', 'a', 't', 'i', 'c']

def constexprWord : List Char := ['c', 'o', 'n', 's', 't', 'e', 'x', 'p', 'r']

/-- A line of the body as it is emitted. -/
def patchLine (l : List Char) : List Char :=
  match find constexprWord l with
  | some pos =>
    if (pos = 0 ∨ l[pos - 1]? = some ' ' ∨ l[pos - 1]? = some '\t') ∧ find staticWord l = none then
      l.take pos ++ (staticWord ++ ' ' :: constexprWord) ++ l.drop (pos + constexprWord.length)
    else l
  | none => l

def indentLine (l : List Char) : List Char := "        ".toList ++ l ++ "\n".toList

/-- The texts around the lines of the body. -/
structure StructText where
  opening : List Char
  closing : List Char

def emitState (t : StructText) (stateCpp : List Char) : List Char :=
  if stateCpp = [] then []
  else
    t.opening ++ (getlines (· == '\n') stateCpp).flatMap (fun l => indentLine (patchLine l))
      ++ t.closing

section
variable (k : Be.KernelHls)

/-- The struct of `emitKernelFunc` of `sw_emu`. -/
def swEmuStruct : StructText where
  opening := "namespace ".toList ++ k.name.toList
    ++ "_ns \x7b\n    using namespace openclicknp;\n    struct State_t \x7b\n".toList
  closing := "    \x7d;\n\x7d\n".toList

/-- The struct of `emitKernel` of `hls_cpp`. -/
def hlsCppStruct : StructText where
  opening := "namespace \x7b namespace ".toList ++ k.name.toList
    ++ "_ns \x7b\n    using namespace openclicknp;\n    struct State_t \x7b\n".toList
  closing := "    \x7d;\n\x7d \x7d\n\n".toList

/-- The struct of `emitKernelModule` of `systemc`, inside the module. -/
def systemCStruct : StructText where
  opening := "    struct State_t \x7b\n".toList
  closing := "    \x7d _state;\n".toList

def swEmuState : List Char := emitState (swEmuStruct k) k.stateCpp.toList

def hlsCppState : List Char := emitState (hlsCppStruct k) k.stateCpp.toList

def systemCState : List Char := emitState systemCStruct k.stateCpp.toList

end

/-! ## What they should do -/

/-- A comment or white space. -/
def Piece.isBlank : Piece → Bool
  | .comment _ => true
  | .mark c => c == ' ' || c == '\t' || c == '\n' || c == '\r' || c == '\x0b' || c == '\x0c'
  | _ => false

/-- Where the scan of a body stands. -/
structure Place where
  /-- The open brackets, the innermost first: whether each opened the body of a class. -/
  opened : List Bool := []
  /-- The tokens of the member declaration so far, the last first. -/
  decl : List Piece := []
  /-- In a preprocessor directive, its last piece. -/
  directive : Option Piece := none

def wordOf (w : String) : Piece := .word w.toList

def isClassKey (p : Piece) : Bool := [wordOf "class", wordOf "struct", wordOf "union"].contains p

/-- Parentheses behind these are not the parameters of a function. -/
def isAttribute (p : Piece) : Bool :=
  [wordOf "alignas", wordOf "__attribute__", wordOf "decltype"].contains p

/-- There is no parameter list among the tokens, the last first. -/
def noParameters : List Piece → Bool
  | [] => true
  | p :: ps => (p != .mark '(' || ps.head?.any isAttribute) && noParameters ps

/-- A brace behind these tokens opens the body of a class: behind the class key there are neither
parameters nor an initializer. -/
def opensClass (decl : List Piece) : Bool :=
  let name := decl.takeWhile (fun p => !isClassKey p)
  decl.any isClassKey && noParameters name && !name.contains (.mark '=')

def isAccessLabel (decl : List Piece) : Bool :=
  [[wordOf "public"], [wordOf "protected"], [wordOf "private"]].contains decl

namespace Place

/-- Members are declared here: directly in the struct, or in the body of a class in it. -/
def inClass (s : Place) : Bool := s.opened.head? != some false

def next (s : Place) (p : Piece) : Place :=
  match s.directive with
  | some last =>
    -- a directive ends with its line, unless a backslash stands in front of the line break
    if p = .mark '\n' ∧ last ≠ .mark '\\' then { s with directive := none }
    else { s with directive := some p }
  | none =>
    if p.isBlank then s
    else if p = .mark '#' then { s with directive := some p }
    else if s.inClass then
      if p = .mark ';' ∨ p = .mark ':' ∧ isAccessLabel s.decl then { s with decl := [] }
      else if p = .mark '\x7b' then
        { s with opened := opensClass s.decl :: s.opened, decl := [] }
      else if p = .mark '\x7d' then { s with opened := s.opened.tail, decl := [] }
      else if p = .mark '(' ∨ p = .mark '[' then
        { s with opened := false :: s.opened, decl := p :: s.decl }
      else { s with decl := p :: s.decl }
    else if p = .mark '(' ∨ p = .mark '[' ∨ p = .mark '\x7b' then
      { s with opened := false :: s.opened }
    else if p = .mark ')' ∨ p = .mark ']' then { s with opened := s.opened.tail }
    else if p = .mark '\x7d' then
      -- behind the body of a function the next member is declared
      let s := { s with opened := s.opened.tail }
      if s.inClass then { s with decl := [] } else s
    else s

/-- `static` is among the specifiers that come next. -/
def marked (ps : List Piece) : Bool :=
  let specifiers := ps.takeWhile fun p =>
    [.mark ';', .mark '=', .mark '\x7b', .mark '('].all (· != p)
  specifiers.contains (.word staticWord)

/-- A member declaration without `static` is introduced by `constexpr`. -/
def introduces (s : Place) (p : Piece) (ps : List Piece) : Bool :=
  p == .word constexprWord && s.directive.isNone && s.inClass && s.decl.isEmpty && !marked ps

end Place

/-- The body with `static` in front of the `constexpr` that introduce a member declaration. -/
def withStatic : Place → List Piece → List Char
  | _, [] => []
  | s, p :: ps =>
    (if s.introduces p ps then staticWord ++ [' '] else []) ++ p.text ++ withStatic (s.next p) ps

/-- The struct that should be emitted for a body. -/
def stateStruct (t : StructText) (ps : List Piece) : List Char :=
  if spell ps = [] then []
  else t.opening ++ (getlines (· == '\n') (withStatic {} ps)).flatMap indentLine ++ t.closing

/-! ## Lines -/

section
variable {α β : Type} {stop : α → Bool} {l : List α}

/-- What is in front of the text comes to its first line. -/
theorem getlines_append {pre : List α} (hne : pre ≠ []) (hpre : ∀ c ∈ pre, stop c = false)
    (l : List α) : getlines stop (pre ++ l)
      = (pre ++ (getlines stop l).headD []) :: (getlines stop l).tail := by
  induction pre with
  | nil => exact absurd rfl hne
  | cons c pre ih =>
    have hc : stop c = false := hpre c List.mem_cons_self
    rw [List.cons_append, getlines, hc]
    cases pre with
    | nil => rfl
    | cons d pre =>
      rw [ih (List.cons_ne_nil _ _) fun c hc => hpre c (List.mem_cons_of_mem _ hc)]
      rfl

theorem getlines_map (f : β → α) (l : List β) :
    getlines stop (l.map f) = (getlines (fun c => stop (f c)) l).map (List.map f) := by
  induction l with
  | nil => rfl
  | cons c l ih =>
    rw [List.map_cons, getlines, ih, getlines]
    cases stop (f c) with
    | true => rfl
    | false => cases getlines (fun c => stop (f c)) l <;> rfl

/-- Replacing what is between the line breaks replaces it in every line. -/
theorem getlines_flatMap {stop' : β → Bool} (f : α → List β)
    (hbreak : ∀ c ∈ l, stop c = true → ∃ d, f c = [d] ∧ stop' d = true)
    (hkeep : ∀ c ∈ l, stop c = false → f c ≠ [] ∧ ∀ d ∈ f c, stop' d = false) :
    getlines stop' (l.flatMap f) = (getlines stop l).map (·.flatMap f) := by
  induction l with
  | nil => rfl
  | cons c l ih =>
    have hrest := ih (fun c hc => hbreak c (List.mem_cons_of_mem _ hc))
      (fun c hc => hkeep c (List.mem_cons_of_mem _ hc))
    rw [List.flatMap_cons]
    by_cases hc : stop c = true
    · obtain ⟨d, hd, hstop⟩ := hbreak c List.mem_cons_self hc
      rw [hd, List.cons_append, List.nil_append, getlines, if_pos hstop, hrest, getlines, if_pos hc]
      rfl
    · rw [Bool.not_eq_true] at hc
      obtain ⟨hne, hmem⟩ := hkeep c List.mem_cons_self hc
      rw [getlines_append hne hmem, hrest, getlines, hc]
      cases getlines stop l with
      | nil => simp
      | cons line lines => simp

/-- A line is a part of the text, without the character that ends it. -/
theorem of_mem_getlines {line : List α} (h : line ∈ getlines stop l) :
    ∀ c ∈ line, c ∈ l ∧ stop c = false := by
  induction l generalizing line with
  | nil => cases h
  | cons d l ih =>
    have hin : ∀ c ∈ (getlines stop l).headD [], c ∈ l ∧ stop c = false := by
      cases hl : getlines stop l with
      | nil => exact fun c hc => nomatch hc
      | cons line' lines =>
        have hmem : line' ∈ getlines stop l := by
          rw [hl]
          exact List.mem_cons_self
        exact ih hmem
    intro c hc
    rw [getlines] at h
    split at h
    · rcases List.mem_cons.mp h with rfl | h
      · cases hc
      · exact (ih h c hc).imp_left (List.mem_cons_of_mem _)
    next hd =>
      rcases List.mem_cons.mp h with rfl | h
      · rcases List.mem_cons.mp hc with rfl | hc
        · exact ⟨List.mem_cons_self, Bool.eq_false_iff.mpr hd⟩
        · exact (hin c hc).imp_left (List.mem_cons_of_mem _)
      · exact (ih (List.mem_of_mem_tail h) c hc).imp_left (List.mem_cons_of_mem _)

theorem append_cons_inj {nl : α} {u v : List α} : ∀ {w : List α} {x : List α},
    nl ∉ u → nl ∉ w → u ++ nl :: v = w ++ nl :: x → u = w ∧ v = x := by
  induction u with
  | nil =>
    intro w x _ hw h
    cases w with
    | nil => exact ⟨rfl, (List.cons.inj h).2⟩
    | cons d w => exact absurd ((List.cons.inj h).1 ▸ List.mem_cons_self) hw
  | cons c u ih =>
    intro w x hu hw h
    cases w with
    | nil => exact absurd ((List.cons.inj h).1 ▸ List.mem_cons_self) hu
    | cons d w =>
      obtain ⟨hcd, htail⟩ := List.cons.inj h
      obtain ⟨huw, hvx⟩ := ih (fun hc => hu (List.mem_cons_of_mem _ hc))
        (fun hc => hw (List.mem_cons_of_mem _ hc)) htail
      exact ⟨by rw [hcd, huw], hvx⟩

/-- A text of lines, each with its line break, has the lines of another only where each line is the
same. -/
theorem flatMap_line_inj {ι : Type} {f g : ι → List α} {nl : α} (ls : List ι)
    (hf : ∀ i ∈ ls, nl ∉ f i) (hg : ∀ i ∈ ls, nl ∉ g i) :
    ls.flatMap (fun i => f i ++ [nl]) = ls.flatMap (fun i => g i ++ [nl])
      ↔ ∀ i ∈ ls, f i = g i := by
  induction ls with
  | nil => exact ⟨fun _ _ h => (List.not_mem_nil h).elim, fun _ => rfl⟩
  | cons i ls ih =>
    have hrest := ih (fun i hi => hf i (List.mem_cons_of_mem _ hi))
      (fun i hi => hg i (List.mem_cons_of_mem _ hi))
    rw [List.flatMap_cons, List.flatMap_cons, List.forall_mem_cons, ← hrest, List.append_assoc,
      List.append_assoc]
    constructor
    · exact append_cons_inj (hf i List.mem_cons_self) (hg i List.mem_cons_self)
    · rintro ⟨hhead, htail⟩
      rw [hhead, htail]

end

/-! ## A line -/

section
variable {pat l : List Char} {pos : Nat}

/-- `find` answers the first place. -/
theorem find_eq_some (h : find pat l = some pos) :
    pos ≤ l.length ∧ pat <+: l.drop pos ∧ ∀ n < pos, ¬ pat <+: l.drop n := by
  induction l generalizing pos with
  | nil =>
    rw [find] at h
    split at h
    next hpat =>
      cases h
      exact ⟨Nat.le_refl _, hpat ▸ List.nil_prefix, fun n hn => absurd hn (Nat.not_lt_zero n)⟩
    next => cases h
  | cons c l ih =>
    rw [find] at h
    split at h
    next hpat =>
      cases h
      exact ⟨Nat.zero_le _, List.isPrefixOf_iff_prefix.mp hpat,
        fun n hn => absurd hn (Nat.not_lt_zero n)⟩
    next hpat =>
      obtain ⟨m, hm, rfl⟩ := Option.map_eq_some_iff.mp h
      obtain ⟨hle, hhere, hfirst⟩ := ih hm
      refine ⟨Nat.succ_le_succ hle, hhere, fun n hn => ?_⟩
      cases n with
      | zero => exact fun hp => hpat (List.isPrefixOf_iff_prefix.mpr hp)
      | succ n => exact hfirst n (Nat.lt_of_succ_lt_succ hn)

theorem find_eq_none : find pat l = none ↔ ¬ pat <:+: l := by
  induction l with
  | nil =>
    rw [find, List.infix_nil]
    split
    next hpat => exact ⟨fun h => (Option.some_ne_none _ h).elim, fun h => absurd hpat h⟩
    next hpat => exact ⟨fun _ => hpat, fun _ => rfl⟩
  | cons c l ih =>
    rw [find, List.infix_cons_iff, not_or, ← ih, ← List.isPrefixOf_iff_prefix]
    split
    next hpat => exact ⟨fun h => (Option.some_ne_none _ h).elim, fun h => absurd hpat h.1⟩
    next hpat => rw [Option.map_eq_none_iff]; exact ⟨fun h => ⟨hpat, h⟩, And.right⟩

/-- In the line `a ++ b` the first `constexpr` stands in front of `b`, at the start of the line or
behind a blank, and there is no `static`. -/
structure Opens (a b : List Char) : Prop where
  here : constexprWord <+: b
  first : ∀ n < a.length, ¬ constexprWord <+: (a ++ b).drop n
  behind : ∀ c ∈ a.getLast?, c = ' ' ∨ c = '\t'
  alone : ¬ staticWord <:+: a ++ b

namespace Opens

variable {a b a' b' : List Char}

/-- No `constexpr` stands in front of it. -/
theorem le (h : Opens a b) (hb : constexprWord <+: b') (heq : a ++ b = a' ++ b') :
    a.length ≤ a'.length := by
  refine Nat.le_of_not_lt fun hlt => h.first a'.length hlt ?_
  rw [heq, List.drop_left]
  exact hb

theorem unique (h : Opens a b) (h' : Opens a' b') (heq : a ++ b = a' ++ b') :
    a = a' ∧ b = b' :=
  List.append_inj heq (Nat.le_antisymm (h.le h'.here heq) (h'.le h.here heq.symm))

end Opens

/-- `static` is added where `constexpr` opens the line, and nowhere else. -/
theorem patchLine_cases (l : List Char) :
    (∃ a b, l = a ++ b ∧ Opens a b ∧ patchLine l = a ++ staticWord ++ ' ' :: b) ∨
      (∀ a b, l = a ++ b → ¬ Opens a b) ∧ patchLine l = l := by
  cases hfind : find constexprWord l with
  | none =>
    refine .inr ⟨?_, by rw [patchLine, hfind]⟩
    rintro a b rfl hopens
    exact find_eq_none.mp hfind (hopens.here.isInfix.trans (List.suffix_append a b).isInfix)
  | some pos =>
    -- the first place is the only one where the line can be opened
    obtain ⟨hle, hhere, hfirst⟩ := find_eq_some hfind
    have hpatch : patchLine l = if (pos = 0 ∨ l[pos - 1]? = some ' ' ∨ l[pos - 1]? = some '\t') ∧
        find staticWord l = none then
      l.take pos ++ (staticWord ++ ' ' :: constexprWord) ++ l.drop (pos + constexprWord.length)
      else l := by rw [patchLine, hfind]
    have hbehind : (pos = 0 ∨ l[pos - 1]? = some ' ' ∨ l[pos - 1]? = some '\t')
        ↔ ∀ c ∈ (l.take pos).getLast?, c = ' ' ∨ c = '\t' := by
      cases pos with
      | zero => simp
      | succ m =>
        have hm : m < l.length := hle
        simp [List.getLast?_take, List.getElem?_eq_getElem hm]
    by_cases hcond : (pos = 0 ∨ l[pos - 1]? = some ' ' ∨ l[pos - 1]? = some '\t') ∧
        find staticWord l = none
    · refine .inl ⟨l.take pos, l.drop pos, (List.take_append_drop pos l).symm, ⟨hhere, ?_,
        hbehind.mp hcond.1, ?_⟩, ?_⟩
      · rw [List.take_append_drop, List.length_take, Nat.min_eq_left hle]
        exact hfirst
      · rw [List.take_append_drop]
        exact find_eq_none.mp hcond.2
      · obtain ⟨u, hu⟩ := hhere
        rw [hpatch, if_pos hcond, ← List.drop_drop, ← hu, List.drop_left]
        simp only [List.append_assoc, List.cons_append]
    · refine .inr ⟨?_, by rw [hpatch, if_neg hcond]⟩
      rintro a b rfl hopens
      have hlen : a.length = pos := by
        refine Nat.le_antisymm ?_ (Nat.le_of_not_lt fun hlt => hfirst a.length hlt ?_)
        · have hle' := hopens.le hhere (List.take_append_drop pos (a ++ b)).symm
          rwa [List.length_take, Nat.min_eq_left hle] at hle'
        · rw [List.drop_left]
          exact hopens.here
      refine hcond ⟨hbehind.mpr ?_, find_eq_none.mpr hopens.alone⟩
      rw [← hlen, List.take_left]
      exact hopens.behind

end

/-! ## Declarations on a line -/

/-- A character of a text, with `static` in front of it where one of the declarations starts. -/
def insertStatic (x : Bool × Char) : List Char :=
  if x.1 then staticWord ++ [' ', x.2] else [x.2]

/-- The declarations to be marked start exactly where `constexpr` opens the line. -/
def LineRight (l : List (Bool × Char)) : Prop :=
  ∀ a b, l = a ++ b →
    (Opens (a.map Prod.snd) (b.map Prod.snd) ↔ ∃ c u, b = (true, c) :: u)

section
variable {l : List (Bool × Char)}

theorem flatMap_insertStatic (h : ∀ x ∈ l, x.1 = false) :
    l.flatMap insertStatic = l.map Prod.snd := by
  induction l with
  | nil => rfl
  | cons x l ih =>
    rw [List.flatMap_cons, List.map_cons, insertStatic, h x List.mem_cons_self,
      ih fun y hy => h y (List.mem_cons_of_mem _ hy)]
    rfl

theorem length_le_flatMap_insertStatic (l : List (Bool × Char)) :
    l.length ≤ (l.flatMap insertStatic).length := by
  induction l with
  | nil => exact Nat.le_refl _
  | cons x l ih =>
    have hx : 1 ≤ (insertStatic x).length := by
      unfold insertStatic
      split <;> simp
    rw [List.flatMap_cons, List.length_append, List.length_cons]
    omega

/-- A text that nothing is added to has no such declaration. -/
theorem eq_false_of_flatMap_eq (h : l.flatMap insertStatic = l.map Prod.snd) :
    ∀ x ∈ l, x.1 = false := by
  induction l with
  | nil => exact fun x hx => (List.not_mem_nil hx).elim
  | cons x l ih =>
    obtain ⟨b, c⟩ := x
    rw [List.flatMap_cons, List.map_cons] at h
    cases b with
    | true =>
      have hlen := congrArg List.length h
      have hle := length_le_flatMap_insertStatic l
      rw [List.length_append, List.length_cons, List.length_map] at hlen
      have hadded : (insertStatic (true, c)).length = 8 := rfl
      omega
    | false =>
      rw [List.forall_mem_cons]
      exact ⟨rfl, ih (List.cons.inj h).2⟩

/-- Where `static` is added once, there is one declaration. -/
theorem of_flatMap_eq_append (hc : ∀ x ∈ l, x.1 = true → x.2 = 'c') {a b : List Char}
    (htext : l.map Prod.snd = a ++ 'c' :: b)
    (h : l.flatMap insertStatic = a ++ staticWord ++ ' ' :: 'c' :: b) :
    ∃ u v, l = u ++ (true, 'c') :: v ∧ u.map Prod.snd = a ∧ v.map Prod.snd = b ∧
      (∀ x ∈ u, x.1 = false) ∧ ∀ x ∈ v, x.1 = false := by
  induction a generalizing l with
  | nil =>
    cases l with
    | nil => cases htext
    | cons x l =>
      obtain ⟨flagged, c⟩ := x
      obtain ⟨rfl, htail⟩ : c = 'c' ∧ l.map Prod.snd = b := List.cons.inj htext
      cases flagged with
      | false => exact absurd (List.cons.inj h).1 (by decide)
      | true =>
        have hrest : l.flatMap insertStatic = b := by
          rw [List.flatMap_cons] at h
          exact List.append_cancel_left (h : insertStatic (true, 'c') ++ _ = _ ++ b)
        exact ⟨[], l, rfl, rfl, htail, fun x hx => (List.not_mem_nil hx).elim,
          eq_false_of_flatMap_eq (hrest.trans htail.symm)⟩
  | cons d a ih =>
    cases l with
    | nil => cases htext
    | cons x l =>
      obtain ⟨flagged, c⟩ := x
      obtain ⟨hcd, htail⟩ : c = d ∧ l.map Prod.snd = a ++ 'c' :: b := List.cons.inj htext
      rw [← hcd] at h ⊢
      cases flagged with
      | true =>
        -- `static` would come earlier than it does
        have hc' : c = 'c' := hc (true, c) List.mem_cons_self rfl
        rw [hc'] at h
        exact absurd (List.cons.inj h).1 (by decide)
      | false =>
        obtain ⟨u, v, rfl, hu, hv, hunone, hvnone⟩ :=
          ih (fun x hx => hc x (List.mem_cons_of_mem _ hx)) htail (List.cons.inj h).2
        exact ⟨(false, c) :: u, v, rfl, by rw [List.map_cons, hu], hv,
          List.forall_mem_cons.mpr ⟨rfl, hunone⟩, hvnone⟩

/-- Where the line is opened stands the only declaration. -/
theorem lineRight_iff_of_opens (hc : ∀ x ∈ l, x.1 = true → x.2 = 'c') {a b : List Char}
    (htext : l.map Prod.snd = a ++ b) (hopens : Opens a b) :
    LineRight l ↔ ∃ u v, l = u ++ (true, 'c') :: v ∧ u.map Prod.snd = a ∧
      (∀ x ∈ u, x.1 = false) ∧ ∀ x ∈ v, x.1 = false := by
  constructor
  · intro hright
    -- wherever a declaration starts, the same text is in front of it
    have hfront : ∀ u x v, l = u ++ x :: v → x.1 = true → u.map Prod.snd = a := by
      rintro u ⟨flagged, c⟩ v hl rfl
      have hopens' := (hright u _ hl).mpr ⟨c, v, rfl⟩
      exact (hopens'.unique hopens (by rw [← List.map_append, ← hl, htext])).1
    obtain ⟨u, w, rfl, hu, hw⟩ := List.map_eq_append_iff.mp htext
    obtain ⟨c, v, rfl⟩ := (hright u w rfl).mp (by rw [hu, hw]; exact hopens)
    obtain rfl : c = 'c' := hc (true, c) (by simp) rfl
    refine ⟨u, v, rfl, hu, fun x hx => ?_, fun x hx => ?_⟩
    · obtain ⟨u₁, u₂, rfl⟩ := List.append_of_mem hx
      refine Bool.eq_false_iff.mpr fun hflag => ?_
      have hlen := congrArg List.length
        ((hfront u₁ x (u₂ ++ (true, 'c') :: v) (by simp) hflag).trans hu.symm)
      simp at hlen
    · obtain ⟨v₁, v₂, rfl⟩ := List.append_of_mem hx
      refine Bool.eq_false_iff.mpr fun hflag => ?_
      have hlen := congrArg List.length
        ((hfront (u ++ (true, 'c') :: v₁) x v₂ (by simp) hflag).trans hu.symm)
      simp at hlen
  · rintro ⟨u, v, rfl, rfl, hu, hv⟩ a' b' hab
    constructor
    · intro hopens'
      have hlen := congrArg List.length (hopens'.unique hopens
        (by rw [← List.map_append, ← hab, htext])).1
      rw [List.length_map, List.length_map] at hlen
      exact ⟨'c', v, (List.append_inj hab hlen.symm).2.symm⟩
    · rintro ⟨c, w, rfl⟩
      obtain rfl : c = 'c' := hc (true, c) (by rw [hab]; simp) rfl
      have hnotin : ∀ {t : List (Bool × Char)}, (∀ x ∈ t, x.1 = false) → (true, 'c') ∉ t :=
        fun h hmem => Bool.noConfusion (h _ hmem)
      obtain ⟨hfront, -, hback⟩ :=
        (List.append_cons_inj_of_notMem (hnotin hu) (hnotin hv)).mp hab
      rw [List.map_append] at htext
      rw [← hfront, ← hback, List.append_cancel_left htext]
      exact hopens

/-- A line is patched as it should be exactly when its declarations start where it is opened. -/
theorem patchLine_eq_iff (hc : ∀ x ∈ l, x.1 = true → x.2 = 'c') :
    patchLine (l.map Prod.snd) = l.flatMap insertStatic ↔ LineRight l := by
  rcases patchLine_cases (l.map Prod.snd) with ⟨a, b, htext, hopens, hpatch⟩ | ⟨hnone, hpatch⟩
  · obtain ⟨t, rfl⟩ : ∃ t, b = 'c' :: t := by
      obtain ⟨t, ht⟩ := hopens.here
      exact ⟨_, ht.symm⟩
    rw [hpatch, lineRight_iff_of_opens hc htext hopens]
    constructor
    · intro h
      obtain ⟨u, v, hl, hu, -, hunone, hvnone⟩ := of_flatMap_eq_append hc htext h.symm
      exact ⟨u, v, hl, hu, hunone, hvnone⟩
    · rintro ⟨u, v, rfl, rfl, hu, hv⟩
      have ht : v.map Prod.snd = t := by
        rw [List.map_append, List.map_cons] at htext
        exact (List.cons.inj (List.append_cancel_left htext)).2
      rw [List.flatMap_append, List.flatMap_cons, flatMap_insertStatic hu, flatMap_insertStatic hv,
        ht, List.append_assoc]
      rfl
  · rw [hpatch]
    constructor
    · intro h u v hl
      constructor
      · intro hopens
        exact absurd hopens (hnone _ _ (by rw [hl, List.map_append]))
      · rintro ⟨c, w, rfl⟩
        have hflag := eq_false_of_flatMap_eq h.symm (true, c) (by rw [hl]; simp)
        cases hflag
    · intro hright
      refine (flatMap_insertStatic fun x hx => ?_).symm
      obtain ⟨u, v, hl⟩ := List.append_of_mem hx
      obtain ⟨flagged, c⟩ := x
      refine Bool.eq_false_iff.mpr fun hflag => ?_
      have hopens := (hright u _ hl).mpr ⟨c, v, by rw [show flagged = true from hflag]⟩
      exact hnone _ _ (by rw [hl, List.map_append]) hopens

end

/-! ## The whole body -/

/-- The characters of a text, the first with this mark. -/
def markFirst (flagged : Bool) : List Char → List (Bool × Char)
  | [] => []
  | c :: text => (flagged, c) :: text.map (false, ·)

/-- The characters of the body, with the declarations that `constexpr` introduces without
`static`. -/
def declarations : Place → List Piece → List (Bool × Char)
  | _, [] => []
  | s, p :: ps => markFirst (s.introduces p ps) p.text ++ declarations (s.next p) ps

/-- Every line of the body is right. -/
def LinesRight (ps : List Piece) : Prop :=
  ∀ l ∈ getlines (fun x => x.2 == '\n') (declarations {} ps), LineRight l

section
variable {s : Place} {p : Piece} {ps : List Piece} {x : Bool × Char}

theorem Place.eq_of_introduces (h : s.introduces p ps = true) : p = .word constexprWord := by
  simp only [introduces, Bool.and_eq_true, beq_iff_eq] at h
  exact h.1.1.1.1

theorem map_snd_markFirst (flagged : Bool) (text : List Char) :
    (markFirst flagged text).map Prod.snd = text := by
  cases text with
  | nil => rfl
  | cons c text =>
    rw [markFirst, List.map_cons, List.map_map]
    exact congrArg (c :: ·) (List.map_id text)

theorem map_snd_declarations (s : Place) (ps : List Piece) :
    (declarations s ps).map Prod.snd = spell ps := by
  induction ps generalizing s with
  | nil => rfl
  | cons p ps ih => rw [declarations, List.map_append, map_snd_markFirst, ih, spell_cons]

theorem of_mem_markFirst {flagged : Bool} {text : List Char} (h : x ∈ markFirst flagged text)
    (hx : x.1 = true) : flagged = true ∧ text.head? = some x.2 := by
  cases text with
  | nil => cases h
  | cons c text =>
    rcases List.mem_cons.mp h with rfl | h
    · exact ⟨hx, rfl⟩
    · obtain ⟨d, -, rfl⟩ := List.mem_map.mp h
      cases hx

theorem eq_c_of_mem_declarations (h : x ∈ declarations s ps) (hx : x.1 = true) : x.2 = 'c' := by
  induction ps generalizing s with
  | nil => cases h
  | cons p ps ih =>
    rcases List.mem_append.mp h with h | h
    · obtain ⟨hintro, hhead⟩ := of_mem_markFirst h hx
      rw [Place.eq_of_introduces hintro] at hhead
      exact (Option.some.inj hhead).symm
    · exact ih h

/-- With `static` in front of its declarations the body is what it should be. -/
theorem flatMap_declarations (s : Place) (ps : List Piece) :
    (declarations s ps).flatMap insertStatic = withStatic s ps := by
  induction ps generalizing s with
  | nil => rfl
  | cons p ps ih =>
    rw [declarations, List.flatMap_append, ih, withStatic]
    congr 1
    cases hintro : s.introduces p ps with
    | true =>
      rw [Place.eq_of_introduces hintro]
      rfl
    | false =>
      have hnone : ∀ x ∈ markFirst false p.text, x.1 = false := fun x hx =>
        Bool.eq_false_iff.mpr fun hflag => Bool.noConfusion (of_mem_markFirst hx hflag).1
      rw [flatMap_insertStatic hnone, map_snd_markFirst]
      rfl

theorem newline_not_mem_patchLine {l : List Char} (h : '\n' ∉ l) : '\n' ∉ patchLine l := by
  rcases patchLine_cases l with ⟨a, b, rfl, -, hpatch⟩ | ⟨-, hpatch⟩
  · rw [hpatch]
    simp only [List.mem_append, List.mem_cons, not_or] at h ⊢
    exact ⟨⟨h.1, by decide⟩, by decide, h.2⟩
  · rwa [hpatch]

theorem newline_not_mem_insertStatic (h : x.2 ≠ '\n') : '\n' ∉ insertStatic x := by
  unfold insertStatic
  split
  · simp only [List.mem_append, List.mem_cons, List.not_mem_nil, or_false, not_or]
    exact ⟨by decide, by decide, h.symm⟩
  · simpa using h.symm

/-- The lines that should be emitted. -/
theorem getlines_withStatic (s : Place) (ps : List Piece) :
    getlines (· == '\n') (withStatic s ps)
      = (getlines (fun x => x.2 == '\n') (declarations s ps)).map (List.flatMap insertStatic) := by
  rw [← flatMap_declarations]
  refine getlines_flatMap insertStatic (fun x hx hbreak => ?_) fun x hx hkeep => ?_
  · have hnl := beq_iff_eq.mp hbreak
    have hflag : x.1 = false := Bool.eq_false_iff.mpr fun hflag => by
      rw [eq_c_of_mem_declarations hx hflag] at hnl
      exact absurd hnl (by decide)
    exact ⟨'\n', by rw [insertStatic, hflag, hnl]; rfl, rfl⟩
  · have hnl := newline_not_mem_insertStatic (beq_eq_false_iff_ne.mp hkeep)
    refine ⟨?_, fun d hd => beq_eq_false_iff_ne.mpr fun heq => hnl (heq ▸ hd)⟩
    unfold insertStatic
    split <;> exact List.cons_ne_nil _ _

/-- The struct is the one that should be emitted exactly when every line is right. -/
theorem emitState_eq_iff (t : StructText) (ps : List Piece) :
    emitState t (spell ps) = stateStruct t ps ↔ LinesRight ps := by
  by_cases hnil : spell ps = []
  -- no struct is emitted for an empty body, and there is no line
  · have hdecl : declarations {} ps = [] :=
      List.map_eq_nil_iff.mp ((map_snd_declarations {} ps).trans hnil)
    rw [emitState, stateStruct, if_pos hnil, if_pos hnil, LinesRight, hdecl]
    exact ⟨fun _ l hl => (List.not_mem_nil hl).elim, fun _ => rfl⟩
  · have hindent : ∀ l, indentLine l = ("        ".toList ++ l) ++ ['\n'] := fun l => rfl
    have hblanks : '\n' ∉ "        ".toList := by simp
    have hlines : getlines (· == '\n') (spell ps)
        = (getlines (fun x => x.2 == '\n') (declarations {} ps)).map (List.map Prod.snd) := by
      rw [← map_snd_declarations {} ps, getlines_map]
    rw [emitState, stateStruct, if_neg hnil, if_neg hnil, List.append_left_inj,
      List.append_right_inj, hlines, getlines_withStatic, List.flatMap_map, List.flatMap_map]
    have hmem : ∀ l ∈ getlines (fun x => x.2 == '\n') (declarations {} ps), ∀ x ∈ l,
        x ∈ declarations {} ps ∧ x.2 ≠ '\n' := fun l hl x hx =>
      (of_mem_getlines hl x hx).imp_right beq_eq_false_iff_ne.mp
    simp only [hindent]
    rw [flatMap_line_inj]
    · refine forall_congr' fun l => forall_congr' fun hl => ?_
      rw [List.append_right_inj]
      exact patchLine_eq_iff fun x hx => eq_c_of_mem_declarations (hmem l hl x hx).1
    · intro l hl
      refine List.not_mem_append hblanks (newline_not_mem_patchLine fun hnl => ?_)
      obtain ⟨x, hx, hxnl⟩ := List.mem_map.mp hnl
      exact (hmem l hl x hx).2 hxnl
    · intro l hl
      refine List.not_mem_append hblanks fun hnl => ?_
      obtain ⟨x, hx, hxnl⟩ := List.mem_flatMap.mp hnl
      exact newline_not_mem_insertStatic (hmem l hl x hx).2 hxnl

/-- The structs of the three backends are what they should be exactly when every line is right. -/
theorem stateStructs_eq_iff {k : Be.KernelHls} (hk : k.stateCpp.toList = spell ps) :
    (swEmuState k = stateStruct (swEmuStruct k) ps ↔ LinesRight ps) ∧
      (hlsCppState k = stateStruct (hlsCppStruct k) ps ↔ LinesRight ps) ∧
      (systemCState k = stateStruct systemCStruct ps ↔ LinesRight ps) := by
  rw [swEmuState, hlsCppState, systemCState, hk]
  exact ⟨emitState_eq_iff _ ps, emitState_eq_iff _ ps, emitState_eq_iff _ ps⟩

end

/-- `constexpr int n=1;` -/
def sizeBody : List Piece :=
  [.word constexprWord, .mark ' ', .word ['i', 'n', 't'], .mark ' ', .word ['n'], .mark '=',
    .word ['1'], .mark ';']

def kernelWith (ps : List Piece) : Be.KernelHls :=
  { name := "K", elementType := "E", stateCpp := String.ofList (spell ps) }

theorem stateStructs_sizeBody :
    (swEmuState (kernelWith sizeBody) = stateStruct (swEmuStruct (kernelWith sizeBody)) sizeBody
        ↔ LinesRight sizeBody) ∧
      (hlsCppState (kernelWith sizeBody) = stateStruct (hlsCppStruct (kernelWith sizeBody)) sizeBody
        ↔ LinesRight sizeBody) ∧
      (systemCState (kernelWith sizeBody) = stateStruct systemCStruct sizeBody
        ↔ LinesRight sizeBody) :=
  stateStructs_eq_iff String.toList_ofList

/-- `constexpr int n=1;//static` -/
def remarkBody : List Piece := sizeBody ++ [.comment ['/', '/', 's', 't', 'a', 't', 'i', 'c']]

theorem cppText_remarkBody : CppText remarkBody :=
  .word (by decide) (by decide) (by decide) <|
  .mark (by decide) (by decide) (fun h => absurd h (by decide)) <|
  .word (by decide) (by decide) (by decide) <|
  .mark (by decide) (by decide) (fun h => absurd h (by decide)) <|
  .word (by decide) (by decide) (by decide) <|
  .mark (by decide) (by decide) (fun h => absurd h (by decide)) <|
  .word (by decide) (by decide) (by decide) <|
  .mark (by decide) (by decide) (fun h => absurd h (by decide)) <|
  .lineComment (by decide) (by decide) .nil

/-- A comment about `static` on the line keeps the member from being `static`. -/
theorem stateStructs_leave_member : ¬ ∀ k ps, CppText ps → k.stateCpp.toList = spell ps →
    swEmuState k = stateStruct (swEmuStruct k) ps ∧
      hlsCppState k = stateStruct (hlsCppStruct k) ps ∧
      systemCState k = stateStruct systemCStruct ps := by
  intro hall
  obtain ⟨-, -, heq⟩ := hall (kernelWith remarkBody) remarkBody cppText_remarkBody
    String.toList_ofList
  have hk : systemCState (kernelWith remarkBody) = emitState systemCStruct (spell remarkBody) :=
    congrArg (emitState systemCStruct) String.toList_ofList
  rw [hk] at heq
  have hright := (emitState_eq_iff systemCStruct remarkBody).mp heq
  have hline := hright (declarations {} remarkBody) (by decide)
  have hpatch := (patchLine_eq_iff fun x hx => eq_c_of_mem_declarations hx).mpr hline
  exact absurd hpatch (by decide)

end OpenClickNP
