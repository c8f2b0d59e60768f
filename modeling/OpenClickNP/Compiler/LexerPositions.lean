import OpenClickNP.Lib.TextLines
import OpenClickNP.Compiler.Driver
import OpenClickNP.Compiler.LexerProgress
import OpenClickNP.Compiler.Walking

/-!
# Lines and columns

The lexer counts the line and the column of its position on the way; `seekTo` looks them up in the
starts of the lines. Modulo `2 ^ 32` the count is right whatever the file (`Placed`). The starts
are kept in 32 bits, and so the search is right for files below 4 GiB only (`lineColOf_eq`). Both
agree in every state of the lexer exactly where the offsets, lines and columns of the file fit
(`located_iff`).
-/

namespace OpenClickNP

open TextLines

/-! ## The search -/

namespace SourceBuffer

variable {buf : SourceBuffer} {p : Nat}

theorem lineStarts_eq (buf : SourceBuffer) :
    buf.lineStarts = (starts '\n' buf.contents).map UInt32.ofNat := by
  rw [lineStarts, starts, startsFrom, List.map_cons, List.map_map]
  rfl

theorem length_lineStarts (buf : SourceBuffer) :
    buf.lineStarts.length = (starts '\n' buf.contents).length := by
  rw [lineStarts_eq, List.length_map]

theorem getD_lineStarts (buf : SourceBuffer) (i : Nat) :
    buf.lineStarts.getD i 0 = UInt32.ofNat ((starts '\n' buf.contents).getD i 0) := by
  rw [lineStarts_eq]
  exact List.getD_map _ 0 UInt32.ofNat

/-- A binary search between `lo` and `hi` for the last of the first `m` starts, when these are the
starts at or before the offset. -/
theorem searchLine_eq {starts : List UInt32} {offset : UInt32} {m : Nat}
    (hstarts : ∀ i < starts.length, starts.getD i 0 ≤ offset ↔ i < m) (n lo hi : Nat)
    (hlo : lo < m) (hm : m ≤ hi) (hhi : hi ≤ starts.length) (hn : hi ≤ lo + n) :
    searchLine starts offset n lo hi = m - 1 := by
  induction n generalizing lo hi with
  | zero => omega
  | succ n ih =>
    rw [searchLine]
    by_cases hgap : lo + 1 < hi
    · rw [if_pos hgap]
      have hmid := hstarts ((lo + hi) / 2) (by omega)
      simp only []
      by_cases hle : starts.getD ((lo + hi) / 2) 0 ≤ offset
      · rw [if_pos hle]
        exact ih _ _ (hmid.mp hle) hm hhi (by omega)
      · rw [if_neg hle]
        exact ih _ _ hlo (Nat.not_lt.mp fun h => hle (hmid.mpr h)) (by omega) (by omega)
    · rw [if_neg hgap]
      omega

/-- No start is behind the end of the file. -/
theorem getD_starts_le (buf : SourceBuffer) (i : Nat) :
    (starts '\n' buf.contents).getD i 0 ≤ buf.contents.length := by
  rcases Nat.lt_or_ge i (starts '\n' buf.contents).length with hi | hi
  · rw [List.getD_eq_getElem _ _ hi]
    exact mem_starts_le (List.getElem_mem hi)
  · rw [List.getD_eq_default _ _ hi]
    exact Nat.zero_le _

/-- **The search** finds the line and the column of an offset of a file below 4 GiB. -/
theorem lineColOf_eq (hlen : buf.contents.length < 2 ^ 32) (hp : p ≤ buf.contents.length) :
    buf.lineColOf (UInt32.ofNat p)
      = (UInt32.ofNat (line '\n' buf.contents p), UInt32.ofNat (col '\n' buf.contents p)) := by
  have hoffset : (UInt32.ofNat p).toNat = p :=
    UInt32.toNat_ofNat_of_lt' (Nat.lt_of_le_of_lt hp hlen)
  have hlength := length_lineStarts buf
  have hstarts : ∀ i < buf.lineStarts.length,
      buf.lineStarts.getD i 0 ≤ UInt32.ofNat p ↔ i < line '\n' buf.contents p := by
    intro i hi
    rw [← starts_le_iff hp (hlength ▸ hi), getD_lineStarts, UInt32.le_iff_toNat_le, hoffset,
      UInt32.toNat_ofNat_of_lt' (Nat.lt_of_le_of_lt (getD_starts_le buf i) hlen)]
  have hsearch := searchLine_eq hstarts buf.lineStarts.length 0 buf.lineStarts.length
    (by unfold line; omega) (hlength ▸ line_le_length_starts hp) (Nat.le_refl _) (by omega)
  have hstart := getD_starts_line (b := '\n') hp
  have hpos : 0 < line '\n' buf.contents p := by
    unfold line
    omega
  simp only [lineColOf]
  rw [hsearch, getD_lineStarts, Nat.sub_add_cancel hpos]
  congr 1
  -- the column is one more than what the offset is behind the start
  have hcol : col '\n' buf.contents p
      = p - (starts '\n' buf.contents).getD (line '\n' buf.contents p - 1) 0 + 1 := by
    unfold col at hstart ⊢
    omega
  rw [hcol, UInt32.ofNat_add, UInt32.ofNat_sub (by unfold col at hstart; omega)]
  rfl

/-- The text of the line of an offset, with the carriage returns at its end. -/
def lineAround (text : List Char) (p : Nat) : List Char :=
  (text.take p).rtakeWhile (· != '\n') ++ (text.drop p).takeWhile (· != '\n')

theorem toNat_getD_lineStarts (hlen : buf.contents.length < 2 ^ 32) (i : Nat) :
    (buf.lineStarts.getD i 0).toNat = (starts '\n' buf.contents).getD i 0 := by
  rw [getD_lineStarts]
  exact UInt32.toNat_ofNat_of_lt' (Nat.lt_of_le_of_lt (getD_starts_le buf i) hlen)

/-- Where `lineText` ends the line `m`. -/
def lastOf (buf : SourceBuffer) (m : Nat) : UInt32 :=
  if m < buf.lineStarts.length then buf.lineStarts.getD m 0 - 1
  else UInt32.ofNat buf.contents.length

theorem toNat_lastOf (hlen : buf.contents.length < 2 ^ 32) (hp : p ≤ buf.contents.length) :
    (buf.lastOf (line '\n' buf.contents p)).toNat
      = p + ((buf.contents.drop p).takeWhile (· != '\n')).length := by
  have hend := line_end (b := '\n') hp
  have hlength := length_lineStarts buf
  have hstart := toNat_getD_lineStarts hlen (line '\n' buf.contents p)
  rw [lastOf, hlength]
  by_cases hlast : line '\n' buf.contents p < (starts '\n' buf.contents).length
  · rw [if_pos hlast] at hend ⊢
    have hone : (1 : UInt32) ≤ buf.lineStarts.getD (line '\n' buf.contents p) 0 := by
      rw [UInt32.le_iff_toNat_le, hstart, hend]
      exact Nat.le_add_left _ _
    rw [UInt32.toNat_sub_of_le _ _ hone, hstart, hend]
    rfl
  · rw [if_neg hlast] at hend ⊢
    rw [UInt32.toNat_ofNat_of_lt' hlen]
    exact hend

/-- **The text** that is printed for the line of an offset. -/
theorem lineText_eq (hlen : buf.contents.length < 2 ^ 32) (hp : p ≤ buf.contents.length)
    (hline : line '\n' buf.contents p < 2 ^ 32) :
    buf.lineText (UInt32.ofNat (line '\n' buf.contents p))
      = (lineAround buf.contents p).rdropWhile (· == '\r') := by
  have hnumber : (UInt32.ofNat (line '\n' buf.contents p)).toNat = line '\n' buf.contents p :=
    UInt32.toNat_ofNat_of_lt' hline
  have hlength := length_lineStarts buf
  have hcount := line_le_length_starts (b := '\n') hp
  have hstart := getD_starts_line (b := '\n') hp
  have hfirst := toNat_getD_lineStarts hlen (line '\n' buf.contents p - 1)
  have hlast := toNat_lastOf hlen hp
  have hvalid : ¬ (UInt32.ofNat (line '\n' buf.contents p) = 0 ∨
      buf.lineStarts.length < (UInt32.ofNat (line '\n' buf.contents p)).toNat) := by
    rw [← UInt32.toNat_inj, hnumber, hlength]
    show ¬ (line '\n' buf.contents p = 0 ∨ _)
    unfold line at hcount ⊢
    omega
  -- the difference of the two ends does not wrap
  have hwidth : (buf.lastOf (line '\n' buf.contents p)
      - buf.lineStarts.getD (line '\n' buf.contents p - 1) 0).toNat
      = p + ((buf.contents.drop p).takeWhile (· != '\n')).length
        - (starts '\n' buf.contents).getD (line '\n' buf.contents p - 1) 0 := by
    have hle : buf.lineStarts.getD (line '\n' buf.contents p - 1) 0
        ≤ buf.lastOf (line '\n' buf.contents p) := by
      rw [UInt32.le_iff_toNat_le, hfirst, hlast]
      unfold col at hstart
      omega
    rw [UInt32.toNat_sub_of_le _ _ hle, hfirst, hlast]
  unfold lineText
  simp only []
  rw [if_neg hvalid, hnumber]
  show ((List.take (buf.lastOf _ - _).toNat _).reverse.dropWhile _).reverse = _
  rw [hwidth, hfirst, line_text hp hstart rfl]
  rfl

/-- A carriage return at the end of a line, a line break, or the end of the text. -/
def Trailing (text : List Char) (p : Nat) : Prop :=
  ∀ d ∈ (text.drop p).takeWhile (· != '\n'), d = '\r'

/-- What is dropped from the end of a text stays within its second part, unless all of that is. -/
theorem rdropWhile_append {f : Char → Bool} {u v : List Char} (hv : ¬ ∀ d ∈ v, f d = true) :
    (u ++ v).rdropWhile f = u ++ v.rdropWhile f := by
  have hne : (v.reverse.dropWhile f).isEmpty = false := by
    rw [List.isEmpty_eq_false_iff]
    intro hnil
    exact hv (List.rdropWhile_eq_nil_iff.mp (congrArg List.reverse hnil))
  rw [List.rdropWhile, List.rdropWhile, List.reverse_append, List.dropWhile_append, hne,
    if_neg Bool.false_ne_true, List.reverse_append, List.reverse_reverse]

/-- A character of a line is printed in its column, unless it is a carriage return at the end. -/
theorem getElem_rdropWhile_lineAround {text : List Char} {c : Char} (hget : text[p]? = some c)
    (hbreak : c ≠ '\n') (hshown : ¬ Trailing text p) :
    ((lineAround text p).rdropWhile (· == '\r'))[col '\n' text p - 1]? = some c := by
  obtain ⟨hlt, hc⟩ := List.getElem?_eq_some_iff.mp hget
  have hrest : (text.drop p).takeWhile (· != '\n')
      = c :: (text.drop (p + 1)).takeWhile (· != '\n') := by
    rw [List.drop_eq_getElem_cons hlt, hc, List.takeWhile_cons_of_pos (by simpa using hbreak)]
  have hsome : ¬ ∀ d ∈ (text.drop p).takeWhile (· != '\n'), (d == '\r') = true := by
    intro hall
    exact hshown fun d hd => eq_of_beq (hall d hd)
  -- of the rest of the line something stays, and that starts with the character
  have hhead : ((text.drop p).takeWhile (· != '\n')).rdropWhile (· == '\r') ≠ [] := by
    rw [ne_eq, List.rdropWhile_eq_nil_iff]
    exact hsome
  obtain ⟨dropped, hdropped⟩ := List.rdropWhile_prefix (· == '\r')
    (l := (text.drop p).takeWhile (· != '\n'))
  rw [lineAround, rdropWhile_append hsome, col, Nat.add_sub_cancel_left,
    List.getElem?_append_right (Nat.le_refl _), Nat.sub_self]
  cases hkept : ((text.drop p).takeWhile (· != '\n')).rdropWhile (· == '\r') with
  | nil => exact absurd hkept hhead
  | cons d kept =>
    rw [hkept, hrest, List.cons_append] at hdropped
    rw [List.getElem?_cons_zero, (List.cons.inj hdropped).1]

end SourceBuffer

/-! ## The count -/

namespace Lexer

/-- The line and the column are those of the position, modulo `2 ^ 32`. -/
structure Placed (lx : Lexer) : Prop where
  inside : lx.pos ≤ lx.src.length
  line : lx.line = UInt32.ofNat (TextLines.line '\n' lx.src lx.pos)
  col : lx.col = UInt32.ofNat (TextLines.col '\n' lx.src lx.pos)

variable {lx : Lexer}

theorem getElem_src_of_not_atEnd (hend : lx.atEnd = false) : lx.src[lx.pos]? = some lx.peek := by
  have hlt : lx.pos < lx.src.length := by
    simpa only [atEnd, decide_eq_false_iff_not, Nat.not_le] using hend
  rw [peek, Nat.add_zero, List.getD_eq_getElem _ _ hlt]
  exact List.getElem?_eq_getElem hlt

theorem Placed.advance (h : Placed lx) : Placed lx.advance := by
  cases hend : lx.atEnd with
  | true => rwa [advance_of_atEnd hend]
  | false =>
    have hget := getElem_src_of_not_atEnd hend
    have hinside : lx.pos + 1 ≤ lx.src.length := (List.getElem?_eq_some_iff.mp hget).1
    unfold Lexer.advance
    rw [hend, if_neg Bool.false_ne_true]
    split
    next hbreak =>
      refine ⟨hinside, ?_, ?_⟩
      · show lx.line + 1 = UInt32.ofNat (TextLines.line '\n' lx.src (lx.pos + 1))
        rw [line_succ_of_eq hget hbreak, UInt32.ofNat_add, h.line]
        rfl
      · show 1 = UInt32.ofNat (TextLines.col '\n' lx.src (lx.pos + 1))
        rw [col_succ_of_eq hget hbreak]
        rfl
    next hbreak =>
      refine ⟨hinside, ?_, ?_⟩
      · show lx.line = UInt32.ofNat (TextLines.line '\n' lx.src (lx.pos + 1))
        rw [line_succ_of_ne hget hbreak, h.line]
      · show lx.col + 1 = UInt32.ofNat (TextLines.col '\n' lx.src (lx.pos + 1))
        rw [col_succ_of_ne hget hbreak, UInt32.ofNat_add, h.col]
        rfl

theorem Placed.moves {lx' : Lexer} (h : Placed lx) (hmoves : Moves lx lx') : Placed lx' :=
  hmoves.keeps (fun _ => Placed.advance) (fun _ _ _ hl => ⟨hl.inside, hl.line, hl.col⟩) h

/-- Below 4 GiB, the search of `seekTo` gives the line and the column of where it goes. -/
theorem placed_seekTo (hlen : lx.src.length < 2 ^ 32) (offset : UInt32) :
    Placed (lx.seekTo offset) := by
  have hgo : ∀ o : UInt32, o.toNat ≤ lx.src.length →
      Placed { lx with
        pos := o.toNat, line := (lx.buf.lineColOf o).1, col := (lx.buf.lineColOf o).2 } := by
    intro o ho
    have hsearch := SourceBuffer.lineColOf_eq hlen ho
    rw [UInt32.ofNat_toNat] at hsearch
    exact ⟨ho, congrArg Prod.fst hsearch, congrArg Prod.snd hsearch⟩
  unfold seekTo
  simp only []
  split
  next hbeyond =>
    refine hgo _ ?_
    rw [UInt32.toNat_ofNat_of_lt' hlen]
  next hinside => exact hgo _ (Nat.not_lt.mp hinside)

/-- The lexer of a buffer after any calls; the parser reports errors on the way. -/
inductive Called (buf : SourceBuffer) : Lexer → Prop
  | opened (fileId : UInt32) (diags : DiagnosticEngine) :
    Called buf { buf := buf, fileId := fileId, diags := diags }
  | next {lx : Lexer} : Called buf lx → Called buf lx.next.2
  | seekTo {lx : Lexer} (offset : UInt32) : Called buf lx → Called buf (lx.seekTo offset)
  | lexOpaqueBlock {lx : Lexer} : Called buf lx → Called buf lx.lexOpaqueBlock.2
  | error {lx : Lexer} (r : SourceRange) (msg : String) :
    Called buf lx → Called buf (lx.error r msg)

theorem Called.buf {buf : SourceBuffer} (h : Called buf lx) : lx.buf = buf := by
  induction h with
  | opened fileId diags => rfl
  | next _ ih => rw [buf_next, ih]
  | seekTo offset _ ih => rw [buf_seekTo, ih]
  | lexOpaqueBlock _ ih => rw [buf_lexOpaqueBlock, ih]
  | error r msg _ ih => rw [buf_error, ih]

theorem Called.src {buf : SourceBuffer} (h : Called buf lx) : lx.src = buf.contents :=
  congrArg SourceBuffer.contents h.buf

theorem Called.placed {buf : SourceBuffer} (hlen : buf.contents.length < 2 ^ 32)
    (h : Called buf lx) : Placed lx := by
  induction h with
  | opened fileId diags => exact ⟨Nat.zero_le _, rfl, rfl⟩
  | next _ ih => exact ih.moves (moves_next _)
  | seekTo offset hcalled _ => exact placed_seekTo (hcalled.src ▸ hlen) offset
  | lexOpaqueBlock _ ih => exact ih.moves (moves_lexOpaqueBlock _)
  | error r msg _ ih => exact ⟨ih.inside, ih.line, ih.col⟩

/-! ## The two agree -/

/-- The lexer's line and column, the search for its position and the text of the file agree, and
the character it is at is in the line that is printed. -/
structure Located (lx : Lexer) : Prop where
  line : lx.line.toNat = TextLines.line '\n' lx.src lx.pos
  col : lx.col.toNat = TextLines.col '\n' lx.src lx.pos
  search : lx.buf.lineColOf (UInt32.ofNat lx.pos) = (lx.line, lx.col)
  shown : ∀ c, lx.src[lx.pos]? = some c → c ≠ '\n' → ¬ SourceBuffer.Trailing lx.src lx.pos →
    (lx.buf.lineText lx.line)[lx.col.toNat - 1]? = some c

/-- The offsets of a text, and the line and the column of its end, fit into 32 bits. -/
structure Fits (text : List Char) : Prop where
  length : text.length < 2 ^ 32
  line : TextLines.line '\n' text text.length < 2 ^ 32
  col : TextLines.col '\n' text text.length < 2 ^ 32

theorem Fits.line_lt {text : List Char} (h : Fits text) {p : Nat} (hp : p ≤ text.length) :
    TextLines.line '\n' text p < 2 ^ 32 := by
  have hlength := h.length
  have hle := line_le (b := '\n') text p
  rcases Nat.lt_or_eq_of_le hp with hlt | rfl
  · omega
  · exact h.line

theorem Fits.col_lt {text : List Char} (h : Fits text) {p : Nat} (hp : p ≤ text.length) :
    TextLines.col '\n' text p < 2 ^ 32 := by
  have hlength := h.length
  have hle := col_le (b := '\n') text p
  rcases Nat.lt_or_eq_of_le hp with hlt | rfl
  · omega
  · exact h.col

theorem Placed.located (h : Placed lx) (hfits : Fits lx.src) : Located lx := by
  have hline : lx.line.toNat = TextLines.line '\n' lx.src lx.pos := by
    rw [h.line]
    exact UInt32.toNat_ofNat_of_lt' (hfits.line_lt h.inside)
  have hcol : lx.col.toNat = TextLines.col '\n' lx.src lx.pos := by
    rw [h.col]
    exact UInt32.toNat_ofNat_of_lt' (hfits.col_lt h.inside)
  refine ⟨hline, hcol, ?_, ?_⟩
  · rw [h.line, h.col]
    exact SourceBuffer.lineColOf_eq hfits.length h.inside
  · intro c hget hbreak hshown
    have htext := SourceBuffer.lineText_eq hfits.length h.inside (hfits.line_lt h.inside)
    rw [h.line, hcol]
    exact (congrArg (·[TextLines.col '\n' lx.src lx.pos - 1]?) htext).trans
      (SourceBuffer.getElem_rdropWhile_lineAround hget hbreak hshown)

/-- Calls of `next` lead to the end of the file. -/
theorem Called.reaches_end {buf : SourceBuffer} (h : Called buf lx)
    (hin : lx.pos ≤ lx.src.length) :
    ∃ lx', Called buf lx' ∧ lx'.pos = buf.contents.length := by
  induction hleft : lx.left using Nat.strong_induction_on generalizing lx with
  | h n ih =>
    have hadv := next_advances lx
    have hgoes := hadv.goes.inside hin
    have hsrc := hadv.goes.src
    rcases hadv.forward with ⟨-, hend⟩ | ⟨-, hlt⟩
    · refine ⟨lx.next.2, h.next, ?_⟩
      simp only [atEnd, decide_eq_true_eq] at hend
      rw [hsrc] at hend
      rw [← h.src]
      omega
    · refine ih lx.next.2.left ?_ h.next (hsrc ▸ hgoes) rfl
      rw [← hleft, left, left, hsrc]
      omega

/-- At two positions of a file that are equal modulo `2 ^ 32` the search gives the same. -/
theorem Located.pos_unique {lx' : Lexer} (h : Located lx) (h' : Located lx')
    (hbuf : lx.buf = lx'.buf) (hmod : UInt32.ofNat lx.pos = UInt32.ofNat lx'.pos)
    (hin : lx.pos ≤ lx.src.length) (hin' : lx'.pos ≤ lx'.src.length) : lx.pos = lx'.pos := by
  have hsrc : lx.src = lx'.src := congrArg SourceBuffer.contents hbuf
  have hpair : (lx.line, lx.col) = (lx'.line, lx'.col) := by
    rw [← h.search, ← h'.search, hbuf, hmod]
  have hline : lx.line = lx'.line := congrArg Prod.fst hpair
  have hcol : lx.col = lx'.col := congrArg Prod.snd hpair
  refine line_col_inj (b := '\n') hin (hsrc ▸ hin') ?_ ?_
  · rw [← h.line, hline, h'.line, hsrc]
  · rw [← h.col, hcol, h'.col, hsrc]

/-- **Positions.** The lexer's count, the search and the text agree after all calls exactly where
the offsets, lines and columns of the file fit into 32 bits. -/
theorem located_iff (buf : SourceBuffer) :
    (∀ lx, Called buf lx → Located lx) ↔ Fits buf.contents := by
  constructor
  · intro h
    let lx₀ : Lexer := { buf := buf, fileId := 0 }
    have hopened : Called buf lx₀ := .opened 0 {}
    obtain ⟨lx, hcalled, hpos⟩ := hopened.reaches_end (Nat.zero_le _)
    have hlocated := h lx hcalled
    have hsrc := hcalled.src
    have hlength : buf.contents.length < 2 ^ 32 := by
      -- otherwise the lexer can be at the end, and at the offset of the end modulo `2 ^ 32`
      by_contra hge
      have hoffset : (UInt32.ofNat buf.contents.length).toNat = buf.contents.length % 2 ^ 32 :=
        UInt32.toNat_ofNat'
      have hseek : (lx₀.seekTo (UInt32.ofNat buf.contents.length)).pos
          = buf.contents.length % 2 ^ 32 := by
        have hin : ¬ lx₀.src.length < (UInt32.ofNat buf.contents.length).toNat := by
          rw [hoffset]
          exact Nat.not_lt.mpr (Nat.mod_le _ _)
        unfold seekTo
        rw [if_neg hin]
        exact hoffset
      have hcalled' := hopened.seekTo (UInt32.ofNat buf.contents.length)
      have hsame := (h _ hcalled').pos_unique hlocated (hcalled'.buf.trans hcalled.buf.symm)
        (by rw [hseek, hpos, ← UInt32.toNat_inj, UInt32.toNat_ofNat', UInt32.toNat_ofNat',
          Nat.mod_mod])
        (by rw [hseek, hcalled'.src]; exact Nat.mod_le _ _) (by rw [hpos, hsrc])
      rw [hseek, hpos] at hsame
      have hlt : buf.contents.length % 2 ^ 32 < 2 ^ 32 := Nat.mod_lt _ (by decide)
      omega
    refine ⟨hlength, ?_, ?_⟩
    · rw [← hpos, ← hsrc, ← hlocated.line]
      exact lx.line.toNat_lt
    · rw [← hpos, ← hsrc, ← hlocated.col]
      exact lx.col.toNat_lt
  · intro hfits lx hcalled
    exact (hcalled.placed hfits.length).located (hcalled.src ▸ hfits)

/-- A line break at offset `4294967295`: the line behind it starts at offset `0`, and the search
for offset `0` gives line `2`. -/
theorem not_located_beyond : ¬ ∀ (buf : SourceBuffer) (lx : Lexer), Called buf lx → Located lx := by
  intro h
  have hn : 4294967295 + 1 = 2 ^ 32 := by decide
  generalize 4294967295 = n at hn
  let buf : SourceBuffer := { path := "top.clnp", contents := List.replicate n ' ' ++ ['\n'] }
  have hstarts : buf.lineStarts = [0, 0] := by
    have hblank : startsFrom '\n' 0 (List.replicate n ' ') = [] := by
      rw [← List.length_eq_zero_iff, length_startsFrom, List.count_eq_zero]
      intro hmem
      exact absurd (List.eq_of_mem_replicate hmem) (by decide)
    rw [SourceBuffer.lineStarts_eq, starts, startsFrom_append, hblank, startsFrom_cons, if_pos rfl,
      List.length_replicate, Nat.zero_add, hn]
    rfl
  have hsearch := (h buf _ (.opened 0 {})).search
  have hfound : buf.lineColOf (UInt32.ofNat 0) = (2, 1) := by
    rw [SourceBuffer.lineColOf, hstarts]
    rfl
  have hline : (2 : UInt32) = 1 := congrArg Prod.fst (hfound.symm.trans hsearch)
  exact absurd hline (by decide)

end Lexer

end OpenClickNP
