import Mathlib.Data.List.Infix

/-!
# Packets with a first and a last item

Items carry two marks: `sop` on the first item of a packet, `eop` on its last. A sequence begins a
concatenation of packets exactly when an automaton with one bit, whether a packet is open, reads it
without getting stuck (`beginsFramed_iff`).

Items with neither mark can be left out, provided that each of them stands inside a packet
(`beginsFramed_iff_flagged`).
-/

namespace FlagFraming

variable {α : Type*} (sop eop : α → Bool)

/-- A packet: one item with both marks, or one with `sop`, any number with neither, and one with
`eop`. -/
def WellFramed (packet : List α) : Prop :=
  (∃ x, packet = [x] ∧ sop x = true ∧ eop x = true) ∨
    ∃ first inner last, packet = first :: (inner ++ [last]) ∧
      sop first = true ∧ eop first = false ∧
      (∀ x ∈ inner, sop x = false ∧ eop x = false) ∧ sop last = false ∧ eop last = true

/-- A sequence is the first part of a concatenation of packets. -/
def BeginsFramed (xs : List α) : Prop :=
  ∃ packets : List (List α), (∀ packet ∈ packets, WellFramed sop eop packet) ∧
    xs <+: packets.flatten

/-! ## The automaton -/

/-- Whether a packet is open behind the next item; `none` once an item has not fitted. -/
def next : Option Bool → α → Option Bool
  | none, _ => none
  | some inPacket, x => if sop x = inPacket then none else some (!eop x)

/-- The automaton from the start of a packet. -/
def run (xs : List α) : Option Bool := xs.foldl (next sop eop) (some false)

/-- A packet whose last item has not come yet. -/
def Opened (xs : List α) : Prop :=
  ∃ first inner, xs = first :: inner ∧ sop first = true ∧ eop first = false ∧
    ∀ x ∈ inner, sop x = false ∧ eop x = false

/-- Packets, and behind them a packet that is open if `inPacket` says so. -/
def Parsed (inPacket : Bool) (xs : List α) : Prop :=
  ∃ (packets : List (List α)) (rest : List α),
    (∀ packet ∈ packets, WellFramed sop eop packet) ∧ xs = packets.flatten ++ rest ∧
      if inPacket then Opened sop eop rest else rest = []

variable {sop eop}

/-- There is a last item. -/
theorem WellFramed.closes {packet : List α} (h : WellFramed sop eop packet) :
    ∃ x ∈ packet, eop x = true := by
  rcases h with ⟨x, rfl, -, heop⟩ | ⟨first, inner, last, rfl, -, -, -, -, heop⟩
  · exact ⟨x, List.mem_singleton_self x, heop⟩
  · exact ⟨last, by simp, heop⟩

theorem foldl_next_none (xs : List α) : xs.foldl (next sop eop) none = none := by
  induction xs with
  | nil => rfl
  | cons x xs ih => exact ih

theorem run_append (xs ys : List α) :
    run sop eop (xs ++ ys) = ys.foldl (next sop eop) (run sop eop xs) := List.foldl_append

theorem next_eq_some {inPacket : Bool} {x : α} {after : Option Bool}
    (h : next sop eop (some inPacket) x = after) (hne : after ≠ none) :
    sop x = !inPacket ∧ after = some (!eop x) := by
  by_cases hsop : sop x = inPacket
  · rw [next, if_pos hsop] at h
    exact absurd h.symm hne
  · rw [next, if_neg hsop] at h
    refine ⟨?_, h.symm⟩
    cases hx : sop x <;> cases inPacket <;> simp [hx] at hsop ⊢

/-- Inside a packet, items without marks change nothing. -/
theorem foldl_next_inner {inner : List α} (h : ∀ x ∈ inner, sop x = false ∧ eop x = false) :
    inner.foldl (next sop eop) (some true) = some true := by
  induction inner with
  | nil => rfl
  | cons x inner ih =>
    obtain ⟨hsop, heop⟩ := h x List.mem_cons_self
    have hstep : next sop eop (some true) x = some true := by simp [next, hsop, heop]
    rw [List.foldl_cons, hstep, ih fun y hy => h y (List.mem_cons_of_mem _ hy)]

theorem foldl_next_wellFramed {packet : List α} (h : WellFramed sop eop packet) :
    packet.foldl (next sop eop) (some false) = some false := by
  rcases h with ⟨x, rfl, hsop, heop⟩ | ⟨first, inner, last, rfl, hs, he, hinner, hs', he'⟩
  · simp [next, hsop, heop]
  · have hfirst : next sop eop (some false) first = some true := by simp [next, hs, he]
    have hlast : next sop eop (some true) last = some false := by simp [next, hs', he']
    rw [List.foldl_cons, hfirst, List.foldl_append, foldl_next_inner hinner, List.foldl_cons,
      hlast, List.foldl_nil]

theorem run_flatten {packets : List (List α)}
    (h : ∀ packet ∈ packets, WellFramed sop eop packet) :
    run sop eop packets.flatten = some false := by
  induction packets with
  | nil => rfl
  | cons packet packets ih =>
    rw [List.flatten_cons, run, List.foldl_append,
      foldl_next_wellFramed (h packet List.mem_cons_self)]
    exact ih fun p hp => h p (List.mem_cons_of_mem _ hp)

/-- The first items of a packet, none of them the last. -/
def Begun (sop eop : α → Bool) (xs : List α) : Prop := xs = [] ∨ Opened sop eop xs

/-- **The next item of a packet** leaves it open or closes it. -/
theorem Begun.concat {xs : List α} (h : Begun sop eop xs) {x : α} (hsop : sop x = xs.isEmpty) :
    (eop x = false → Opened sop eop (xs ++ [x])) ∧
      (eop x = true → WellFramed sop eop (xs ++ [x])) := by
  rcases h with rfl | ⟨first, inner, rfl, hs, he, hinner⟩
  · exact ⟨fun heop => ⟨x, [], rfl, hsop, heop, by simp⟩, fun heop => Or.inl ⟨x, rfl, hsop, heop⟩⟩
  · constructor
    · intro heop
      refine ⟨first, inner ++ [x], rfl, hs, he, fun y hy => ?_⟩
      rcases List.mem_append.mp hy with hy | hy
      · exact hinner y hy
      · rw [List.mem_singleton.mp hy]
        exact ⟨hsop, heop⟩
    · exact fun heop => Or.inr ⟨first, inner, x, rfl, hs, he, hinner, hsop, heop⟩

/-- **One item.** It begins a packet, is one by itself, goes on with the open one or ends it. -/
theorem Parsed.next {inPacket after : Bool} {xs : List α} (h : Parsed sop eop inPacket xs) {x : α}
    (hx : next sop eop (some inPacket) x = some after) : Parsed sop eop after (xs ++ [x]) := by
  obtain ⟨hsop, hafter⟩ := next_eq_some hx (Option.some_ne_none _)
  obtain ⟨packets, rest, hall, rfl, hrest⟩ := h
  cases Option.some.inj hafter
  have hbegun : Begun sop eop rest ∧ rest.isEmpty = !inPacket := by
    cases inPacket with
    | false => exact ⟨Or.inl hrest, List.isEmpty_iff.mpr hrest⟩
    | true =>
      obtain ⟨first, inner, rfl, -⟩ := id hrest
      exact ⟨Or.inr hrest, rfl⟩
  obtain ⟨hopen, hclose⟩ := hbegun.1.concat (hsop.trans hbegun.2.symm)
  cases heop : eop x with
  | true =>
    refine ⟨packets ++ [rest ++ [x]], [], fun p hp => ?_, by simp, rfl⟩
    rcases List.mem_append.mp hp with hp | hp
    · exact hall p hp
    · rw [List.mem_singleton.mp hp]
      exact hclose heop
  | false => exact ⟨packets, rest ++ [x], hall, by simp, hopen heop⟩

/-- Induction on what has been read, from the back. -/
theorem parsed_of_run {inPacket : Bool} {xs : List α} (h : run sop eop xs = some inPacket) :
    Parsed sop eop inPacket xs := by
  induction xs using List.reverseRecOn generalizing inPacket with
  | nil =>
    cases h
    exact ⟨[], [], List.forall_mem_nil _, rfl, rfl⟩
  | append_singleton xs x ih =>
    rw [run_append] at h
    cases hbefore : run sop eop xs with
    | none =>
      rw [hbefore] at h
      cases h
    | some before =>
      rw [hbefore] at h
      exact (ih hbefore).next h

/-- **The automaton accepts what begins a concatenation of packets.** -/
theorem beginsFramed_iff (hclose : ∃ x, sop x = false ∧ eop x = true) (xs : List α) :
    BeginsFramed sop eop xs ↔ run sop eop xs ≠ none := by
  constructor
  · rintro ⟨packets, hall, ys, hys⟩ hstuck
    have hrun := run_flatten hall
    rw [← hys, run_append, hstuck, foldl_next_none] at hrun
    cases hrun
  · intro hne
    obtain ⟨inPacket, hrun⟩ := Option.ne_none_iff_exists'.mp hne
    obtain ⟨packets, rest, hall, rfl, hrest⟩ := parsed_of_run hrun
    cases inPacket with
    | false =>
      obtain rfl : rest = [] := hrest
      exact ⟨packets, hall, by simp⟩
    | true =>
      -- an open packet can always be closed
      obtain ⟨first, inner, rfl, hs, he, hinner⟩ : Opened sop eop rest := hrest
      obtain ⟨z, hz, hz'⟩ := hclose
      refine ⟨packets ++ [first :: (inner ++ [z])], fun p hp => ?_, [z], by simp⟩
      rcases List.mem_append.mp hp with hp | hp
      · exact hall p hp
      · rw [List.mem_singleton.mp hp]
        exact Or.inr ⟨first, inner, z, rfl, hs, he, hinner, hz, hz'⟩

/-! ## Items with neither mark -/

variable (sop eop) in
/-- An item with a mark. -/
def flagged (x : α) : Bool := sop x || eop x

variable (sop eop) in
/-- Behind these items a packet is open: the last mark is a `sop` alone. -/
def EndsInside (xs : List α) : Prop :=
  ∃ x, (xs.filter (flagged sop eop)).getLast? = some x ∧ sop x = true ∧ eop x = false

variable (sop eop) in
/-- Every item with neither mark stands inside a packet. -/
def Inside (xs : List α) : Prop :=
  ∀ (j : Nat) (x : α), xs[j]? = some x → flagged sop eop x = false →
    EndsInside sop eop (xs.take j)

/-- What the automaton is at behind items with marks is what the last one says. -/
theorem endsInside_iff_run {xs : List α} {inPacket : Bool}
    (h : run sop eop (xs.filter (flagged sop eop)) = some inPacket) :
    EndsInside sop eop xs ↔ inPacket = true := by
  unfold EndsInside
  cases hlast : (xs.filter (flagged sop eop)).getLast? with
  | none =>
    rw [List.getLast?_eq_none_iff.mp hlast] at h
    cases h
    simp
  | some x =>
    obtain ⟨init, hinit⟩ := List.getLast?_eq_some_iff.mp hlast
    have hx : flagged sop eop x = true := by
      have hmem : x ∈ xs.filter (flagged sop eop) := by simp [hinit]
      exact (List.mem_filter.mp hmem).2
    rw [hinit, run_append] at h
    cases hbefore : run sop eop init with
    | none =>
      rw [hbefore] at h
      cases h
    | some before =>
      rw [hbefore] at h
      obtain ⟨-, hafter⟩ := next_eq_some (show next sop eop (some before) x = _ from h)
        (Option.some_ne_none _)
      cases Option.some.inj hafter
      unfold flagged at hx
      cases heop : eop x <;> simp [heop] at hx ⊢
      exact hx

theorem inside_append_singleton {xs : List α} {x : α} : Inside sop eop (xs ++ [x]) ↔
    Inside sop eop xs ∧ (flagged sop eop x = false → EndsInside sop eop xs) := by
  constructor
  · intro h
    constructor
    · intro j y hy hflag
      have hlt := (List.getElem?_eq_some_iff.mp hy).1
      have hin := h j y (by rw [List.getElem?_append_left hlt, hy]) hflag
      rwa [List.take_append_of_le_length hlt.le] at hin
    · intro hflag
      have hin := h xs.length x (by simp) hflag
      rwa [List.take_left] at hin
  · rintro ⟨hxs, hx⟩ j y hy hflag
    by_cases hlt : j < xs.length
    · rw [List.getElem?_append_left hlt] at hy
      rw [List.take_append_of_le_length hlt.le]
      exact hxs j y hy hflag
    · obtain ⟨hlen, hget⟩ := List.getElem?_eq_some_iff.mp hy
      rw [List.length_append, List.length_singleton] at hlen
      obtain rfl : j = xs.length := by omega
      obtain rfl : x = y := by simpa using hget
      rw [List.take_left]
      exact hx hflag

/-- Items with neither mark only matter to the automaton outside a packet. Induction from the
back. -/
theorem run_eq_some_iff (xs : List α) (inPacket : Bool) : run sop eop xs = some inPacket ↔
    run sop eop (xs.filter (flagged sop eop)) = some inPacket ∧ Inside sop eop xs := by
  induction xs using List.reverseRecOn generalizing inPacket with
  | nil =>
    refine (and_iff_left ?_).symm
    intro j x hx
    cases hx
  | append_singleton xs x ih =>
    rw [run_append, List.filter_append, run_append, inside_append_singleton]
    cases hflag : flagged sop eop x with
    | true =>
      rw [List.filter_singleton, hflag]
      simp only [Bool.true_eq_false, false_implies, and_true, cond_true]
      cases hrun : run sop eop xs with
      | some before =>
        obtain ⟨hfilter, hinside⟩ := (ih before).mp hrun
        rw [hfilter, and_iff_left hinside]
      | none =>
        refine iff_of_false (fun h => by cases h) ?_
        rintro ⟨hnext, hinside⟩
        cases hfilter : run sop eop (xs.filter (flagged sop eop)) with
        | none =>
          rw [hfilter] at hnext
          cases hnext
        | some before => exact absurd ((ih before).mpr ⟨hfilter, hinside⟩) (by simp [hrun])
    | false =>
      rw [List.filter_singleton, hflag]
      simp only [true_implies, cond_false, List.foldl_nil]
      obtain ⟨hsop, heop⟩ : sop x = false ∧ eop x = false := by simpa [flagged] using hflag
      have hnext : ∀ before, next sop eop (some before) x = some inPacket ↔
          before = true ∧ inPacket = true := by
        intro before
        cases before <;> cases inPacket <;> simp [next, hsop, heop]
      constructor
      · intro h
        cases hrun : run sop eop xs with
        | none =>
          rw [hrun] at h
          cases h
        | some before =>
          rw [hrun] at h
          obtain ⟨rfl, rfl⟩ := (hnext before).mp h
          obtain ⟨hfilter, hinside⟩ := (ih true).mp hrun
          exact ⟨hfilter, hinside, (endsInside_iff_run hfilter).mpr rfl⟩
      · rintro ⟨hfilter, hinside, hends⟩
        cases (endsInside_iff_run hfilter).mp hends
        rw [(ih true).mpr ⟨hfilter, hinside⟩]
        exact (hnext true).mpr ⟨rfl, rfl⟩

/-- **Items with neither mark can be left out** exactly when each stands inside a packet. -/
theorem beginsFramed_iff_flagged (hclose : ∃ x, sop x = false ∧ eop x = true) (xs : List α) :
    BeginsFramed sop eop xs ↔
      BeginsFramed sop eop (xs.filter (flagged sop eop)) ∧ Inside sop eop xs := by
  rw [beginsFramed_iff hclose, beginsFramed_iff hclose, Option.ne_none_iff_exists',
    Option.ne_none_iff_exists']
  constructor
  · rintro ⟨inPacket, h⟩
    obtain ⟨hfilter, hinside⟩ := (run_eq_some_iff xs inPacket).mp h
    exact ⟨⟨inPacket, hfilter⟩, hinside⟩
  · rintro ⟨⟨inPacket, hfilter⟩, hinside⟩
    exact ⟨inPacket, (run_eq_some_iff xs inPacket).mpr ⟨hfilter, hinside⟩⟩

/-! ## Sequences with the same marks -/

theorem BeginsFramed.of_begin {xs ys : List α} (h : BeginsFramed sop eop ys) (hxs : xs <+: ys) :
    BeginsFramed sop eop xs := by
  obtain ⟨packets, hall, hys⟩ := h
  exact ⟨packets, hall, hxs.trans hys⟩

/-- Items that are packets of their own. -/
theorem beginsFramed_of_whole {xs : List α} (h : ∀ x ∈ xs, sop x = true ∧ eop x = true) :
    BeginsFramed sop eop xs := by
  refine ⟨xs.map fun x => [x], fun packet hp => ?_, ?_⟩
  · obtain ⟨x, hx, rfl⟩ := List.mem_map.mp hp
    exact Or.inl ⟨x, rfl, h x hx⟩
  · rw [← List.flatMap_def, List.flatMap_singleton']

/-- Only the marks count. -/
theorem BeginsFramed.of_marks (hclose : ∃ x, sop x = false ∧ eop x = true) {xs ys : List α}
    (h : List.Forall₂ (fun x y => sop y = sop x ∧ eop y = eop x) xs ys)
    (hxs : BeginsFramed sop eop xs) : BeginsFramed sop eop ys := by
  have hfold : ∀ start, ys.foldl (next sop eop) start = xs.foldl (next sop eop) start := by
    clear hxs
    induction h with
    | nil => exact fun _ => rfl
    | @cons x y xs ys hmarks _ ih =>
      intro start
      have hnext : next sop eop start y = next sop eop start x := by
        cases start with
        | none => rfl
        | some inPacket => rw [next, next, hmarks.1, hmarks.2]
      rw [List.foldl_cons, List.foldl_cons, hnext]
      exact ih _
  rw [beginsFramed_iff hclose] at hxs ⊢
  unfold run
  rw [hfold]
  exact hxs

end FlagFraming
