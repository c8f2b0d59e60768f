import Mathlib.Data.List.Basic
import Mathlib.Data.List.Nodup

/-!
# Maps filled by overwriting assignments

A map filled by a program that assigns `map[k] = v` again and again: the last assignment of a
key is the one a later read sees.

* `lookup_fill_of_mem`: a key that was assigned reads as one of the values assigned to it;
* `survive_iff`: when every assignment of a group is still there at the end;
* `count_eq_one_iff`: the same condition as a count of keys.
-/

namespace OverwriteMap

variable {K V : Type*} [BEq K] [LawfulBEq K]

/-- `map[e.1] = e.2`. -/
def assign (m : List (K × V)) (e : K × V) : List (K × V) := e :: m

def fill (log : List (K × V)) : List (K × V) := log.foldl assign []

omit [BEq K] [LawfulBEq K] in
theorem foldl_assign (log m : List (K × V)) : log.foldl assign m = log.reverse ++ m := by
  induction log generalizing m with
  | nil => rfl
  | cons e log ih => simp [ih, assign]

omit [BEq K] [LawfulBEq K] in
theorem fill_append (S T : List (K × V)) : fill (S ++ T) = fill T ++ fill S := by
  simp [fill, foldl_assign]

theorem lookup_of_key {m : List (K × V)} {e : K × V} (he : e ∈ m) :
    ∃ e' ∈ m, e'.1 = e.1 ∧ m.lookup e.1 = some e'.2 := by
  induction m with
  | nil => cases he
  | cons a m ih =>
    obtain ⟨k, v⟩ := a
    by_cases hkey : k = e.1
    · exact ⟨(k, v), List.mem_cons_self, hkey, by rw [hkey, List.lookup_cons_self]⟩
    · have hne : e ≠ (k, v) := fun h => hkey (by rw [h])
      obtain ⟨e', he', hk, hl⟩ := ih ((List.mem_cons.mp he).resolve_left hne)
      have hbeq : (e.1 == k) = false := beq_eq_false_iff_ne.mpr (Ne.symm hkey)
      exact ⟨e', List.mem_cons_of_mem (k, v) he', hk, by rw [List.lookup_cons, hbeq, hl]⟩

theorem lookup_fill_of_mem {log : List (K × V)} {e : K × V} (he : e ∈ log) :
    ∃ e' ∈ log, e'.1 = e.1 ∧ (fill log).lookup e.1 = some e'.2 := by
  have hmem : ∀ x, x ∈ fill log ↔ x ∈ log := by
    intro x
    simp [fill, foldl_assign]
  obtain ⟨e', he', h⟩ := lookup_of_key ((hmem e).mpr he)
  exact ⟨e', (hmem e').mp he', h⟩

theorem mem_of_lookup_fill {log : List (K × V)} {k : K} {v : V}
    (h : (fill log).lookup k = some v) : (k, v) ∈ log := by
  have hmem : (k, v) ∈ fill log := by
    obtain ⟨l₁, l₂, hl, -⟩ := List.lookup_eq_some_iff.mp h
    rw [hl]
    simp
  simpa [fill, foldl_assign] using hmem

/-- **When a group of assignments survives.** The assignments `S` come first and share no
value with the later ones `T`: all of `S` can be read back at the end exactly when nothing
assigns another value to a key of `S`. -/
theorem survive_iff {S T : List (K × V)} (hdisj : ∀ e ∈ S, ∀ e' ∈ T, e'.2 ≠ e.2) :
    (∀ e ∈ S, (fill (S ++ T)).lookup e.1 = some e.2) ↔
      ∀ e ∈ S, ∀ e' ∈ S ++ T, e'.1 = e.1 → e'.2 = e.2 := by
  constructor
  · intro h e he e' he' hkey
    rcases List.mem_append.mp he' with hS | hT
    · have hread := h e' hS
      rw [hkey, h e he] at hread
      exact (Option.some.inj hread).symm
    · -- the last assignment of the key lies in `T`
      obtain ⟨t, ht, -, hread⟩ := lookup_fill_of_mem hT
      have hsurv := h e he
      rw [fill_append, List.lookup_append, ← hkey, hread, Option.some_or] at hsurv
      exact absurd (Option.some.inj hsurv) (hdisj e he t ht)
  · intro h e he
    obtain ⟨e', he', hkey, hread⟩ := lookup_fill_of_mem (List.mem_append_left T he)
    rw [hread, h e he e' he' hkey]

omit [BEq K] [LawfulBEq K] in
theorem eq_singleton_of_forall {α : Type*} {l : List α} {a : α} (hnd : l.Nodup) (ha : a ∈ l)
    (h : ∀ x ∈ l, x = a) : l = [a] := by
  cases l with
  | nil => cases ha
  | cons b t =>
    have hb : b = a := h b List.mem_cons_self
    cases t with
    | nil => rw [hb]
    | cons c t =>
      have hc : c = a := h c (by simp)
      rw [hb, hc] at hnd
      exact absurd List.mem_cons_self (List.nodup_cons.mp hnd).1

/-- A key is assigned once exactly when every assignment of it has the one value. -/
theorem count_eq_one_iff {log : List (K × V)} (hnd : log.Nodup) {e : K × V} (he : e ∈ log) :
    (log.map Prod.fst).count e.1 = 1 ↔ ∀ e' ∈ log, e'.1 = e.1 → e'.2 = e.2 := by
  have hcount : (log.map Prod.fst).count e.1 = (log.filter (·.1 == e.1)).length := by
    rw [List.count, List.countP_map, List.countP_eq_length_filter]
    rfl
  have hmem : e ∈ log.filter (·.1 == e.1) := by simp [he]
  rw [hcount]
  constructor
  · intro hlen e' he' hkey
    obtain ⟨a, ha⟩ := List.length_eq_one_iff.mp hlen
    have hmem' : e' ∈ log.filter (·.1 == e.1) := by simp [he', hkey]
    rw [ha, List.mem_singleton] at hmem hmem'
    rw [hmem, hmem']
  · intro h
    have hall : ∀ x ∈ log.filter (·.1 == e.1), x = e := by
      intro x hx
      obtain ⟨hx, hkey⟩ := List.mem_filter.mp hx
      have hk : x.1 = e.1 := by simpa using hkey
      exact Prod.ext hk (h x hx hk)
    rw [eq_singleton_of_forall (hnd.filter _) hmem hall]
    rfl

end OverwriteMap
