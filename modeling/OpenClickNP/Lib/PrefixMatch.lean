import Mathlib.Algebra.Notation.Defs
import Mathlib.Data.List.Infix

/-!
# Longest prefix match

Routes give values to strings; 0 is no route. The trie of the routes has a node for each prefix of
a string with a route. Among the nodes on the path of an address there is a deepest one
(`Deepest`), and its value is the value of the longest route that matches exactly when no route
leaves the path behind the longest one that matches (`isLongestMatch_iff_covered`).
-/

namespace PrefixMatch

variable {β V : Type*} [Zero V] (routes : List β → V)

/-- A prefix of a string with a route. -/
def IsNode (u : List β) : Prop := ∃ p, routes p ≠ 0 ∧ u <+: p

/-- The value of the longest route that matches the address, or 0 if none does. -/
def IsLongestMatch (addr : List β) (v : V) : Prop :=
  (∃ p, p <+: addr ∧ routes p = v ∧ v ≠ 0 ∧
    ∀ q, q <+: addr → routes q ≠ 0 → q.length ≤ p.length) ∨
    v = 0 ∧ ∀ q, q <+: addr → routes q = 0

/-- If a route matches, then none shares more of the address than the longest that matches. -/
def Covered (addr : List β) : Prop :=
  (∃ p, p <+: addr ∧ routes p ≠ 0) → ∀ q u, routes q ≠ 0 → u <+: q → u <+: addr →
    ∃ p, p <+: addr ∧ routes p ≠ 0 ∧ u.length ≤ p.length

/-- The last node on the path of the address; the root if there is none. -/
structure Deepest (addr u : List β) : Prop where
  onPath : u <+: addr
  inTrie : u = [] ∨ IsNode routes u
  last : ∀ w, IsNode routes w → w <+: addr → w.length ≤ u.length

variable {routes} {addr u w : List β} {v v' : V}

theorem isNode_of_route (h : routes u ≠ 0) : IsNode routes u := ⟨u, h, List.prefix_rfl⟩

theorem IsNode.of_begins (h : IsNode routes w) (hu : u <+: w) : IsNode routes u := by
  obtain ⟨p, hp, hw⟩ := h
  exact ⟨p, hp, hu.trans hw⟩

/-- Two prefixes of one length are one. -/
theorem eq_of_length_of_begins (hu : u <+: addr) (hw : w <+: addr) (h : u.length = w.length) :
    u = w := by
  rw [List.prefix_iff_eq_take.mp hu, List.prefix_iff_eq_take.mp hw, h]

/-- There is one longest match. -/
theorem IsLongestMatch.unique (h : IsLongestMatch routes addr v)
    (h' : IsLongestMatch routes addr v') : v = v' := by
  rcases h with ⟨p, hp, rfl, hne, hlongest⟩ | ⟨rfl, hnone⟩
  · rcases h' with ⟨p', hp', rfl, hne', hlongest'⟩ | ⟨rfl, hnone'⟩
    · have hlen := Nat.le_antisymm (hlongest' p hp hne) (hlongest p' hp' hne')
      rw [eq_of_length_of_begins hp hp' hlen]
    · exact hnone' p hp
  · rcases h' with ⟨p', hp', rfl, -, -⟩ | ⟨rfl, -⟩
    · exact (hnone p' hp').symm
    · rfl

/-- The path leaves the trie behind the first `d` letters of the address. -/
theorem deepest_of_leaves {d : ℕ} (hin : addr.take d = [] ∨ IsNode routes (addr.take d))
    (hleaves : ¬ IsNode routes (addr.take (d + 1))) : Deepest routes addr (addr.take d) where
  onPath := List.take_prefix d addr
  inTrie := hin
  last := by
    intro w hw hpath
    by_contra hlong
    rw [List.length_take] at hlong
    have hlen := hpath.length_le
    refine hleaves (hw.of_begins ?_)
    rw [List.prefix_iff_eq_take.mp hpath]
    exact List.take_prefix_take_left (by omega)

/-- **When the deepest node has the value of the longest match.** -/
theorem isLongestMatch_iff_covered (h : Deepest routes addr u) :
    IsLongestMatch routes addr (routes u) ↔ Covered routes addr := by
  by_cases hu : routes u = 0
  · constructor
    · rintro (⟨p, -, hp, hne, -⟩ | ⟨-, hnone⟩)
      · exact absurd hu hne
      · rintro ⟨p, hp, hne⟩
        exact absurd (hnone p hp) hne
    · intro hcovered
      by_contra hnot
      -- a route matches, so the deepest node is on the way to one
      obtain ⟨p, hp, hne⟩ : ∃ p, p <+: addr ∧ routes p ≠ 0 := by
        by_contra hnone
        refine hnot (Or.inr ⟨hu, fun q hq => ?_⟩)
        by_contra hne
        exact hnone ⟨q, hq, hne⟩
      have hnode : IsNode routes u := by
        rcases h.inTrie with rfl | hnode
        · exact (isNode_of_route hne).of_begins List.nil_prefix
        · exact hnode
      obtain ⟨q, hq, huq⟩ := hnode
      obtain ⟨p', hp', hne', hlen⟩ := hcovered ⟨p, hp, hne⟩ q u hq huq h.onPath
      have hdeep := h.last p' (isNode_of_route hne') hp'
      rw [eq_of_length_of_begins h.onPath hp' (Nat.le_antisymm hlen hdeep)] at hu
      exact hne' hu
  · refine iff_of_true (Or.inl ⟨u, h.onPath, rfl, hu, fun q hq hne => ?_⟩) ?_
    · exact h.last q (isNode_of_route hne) hq
    · intro _ q w hq hwq hw
      exact ⟨u, h.onPath, hu, h.last w ⟨q, hq, hwq⟩ hw⟩

end PrefixMatch
