import Mathlib.Data.Finset.Card
import Mathlib.Data.Set.Insert
import Mathlib.Logic.Function.Basic
import Mathlib.Logic.Relation

/-!
# Tarjan's algorithm

The strongly connected components of a graph given by its successors, by one depth first search.
`strong` visits a vertex: it numbers it, puts it on the stack, visits its successors, and pops a
component off the stack if the vertex is the first of one.

The vertices whose visits are still going on are the open ones. The invariant (`Inv`) says that
every vertex on the stack leads to an open one, and that no edge leaves what is off the stack
again. With it `low` need only say whether an edge leads from the vertices above to the stack below
(`Visited`): neither the order of the stack nor the path that `low` stands for is needed.
-/

namespace Tarjan

open Relation (ReflTransGen)

variable {α : Type*}

/-! ## The algorithm -/

/-- The state of the search; the top of the stack comes first. -/
structure State (α : Type*) where
  idx : α → Option Nat := fun _ => none
  low : α → Nat := fun _ => 0
  onstack : α → Bool := fun _ => false
  stk : List α := []
  sccs : List (List α) := []
  counter : Nat := 0

section

variable [DecidableEq α]

namespace State

/-- `idx[v] = low[v] = counter++; stk.push_back(v); onstack[v] = true;`. -/
def enter (s : State α) (v : α) : State α where
  idx := Function.update s.idx v (some s.counter)
  low := Function.update s.low v s.counter
  onstack := Function.update s.onstack v true
  stk := v :: s.stk
  sccs := s.sccs
  counter := s.counter + 1

/-- `low[v] = std::min(low[v], n);`. -/
def lower (s : State α) (v : α) (n : Nat) : State α :=
  { s with low := Function.update s.low v (min (s.low v) n) }

end State

/-- What is popped off the stack up to `v`, and what is left. -/
def popTo (v : α) : List α → List α × List α
  | [] => ([], [])
  | w :: stk => if w = v then ([w], stk) else (w :: (popTo v stk).1, (popTo v stk).2)

/-- The end of a visit: the component of `v` is popped if `v` is the first of it. -/
def State.leave (s : State α) (v : α) : State α :=
  if s.idx v = some (s.low v) then
    { s with
      stk := (popTo v s.stk).2
      onstack := (popTo v s.stk).1.foldl (fun onstack w => Function.update onstack w false)
        s.onstack
      sccs := s.sccs ++ [(popTo v s.stk).1] }
  else s

/-- One successor `w` of `v`. -/
def visit (strong : α → State α → Option (State α)) (v : α) (s : State α) (w : α) :
    Option (State α) :=
  match s.idx w with
  | none => do
    let s ← strong w s
    pure (s.lower v (s.low w))
  | some n => if s.onstack w then some (s.lower v n) else some s

/-- The visit of `v`, with at most `fuel` visits going on at a time. -/
def strong (succ : α → List α) : Nat → α → State α → Option (State α)
  | 0, _, _ => none
  | fuel + 1, v, s => do
    let s ← (succ v).foldlM (visit (strong succ fuel) v) (s.enter v)
    pure (s.leave v)

def runFrom (succ : α → List α) (fuel : Nat) (s : State α) (v : α) : Option (State α) :=
  match s.idx v with
  | none => strong succ fuel v s
  | some _ => some s

/-- The search from each of the roots that has not been visited by then. -/
def run (succ : α → List α) (fuel : Nat) (roots : List α) : Option (State α) :=
  roots.foldlM (runFrom succ fuel) {}

end

/-! ## The invariant -/

section

variable (succ : α → List α)

/-- `a` leads to `b` along edges. -/
def Leads : α → α → Prop := ReflTransGen fun a b => b ∈ succ a

/-- The vertices that lead to each other, and no others. -/
def Component (C : List α) : Prop :=
  ∃ r ∈ C, ∀ x, x ∈ C ↔ Leads succ r x ∧ Leads succ x r

/-- Between visits; the visits of `G` are going on. -/
structure Inv (G : Set α) (s : State α) : Prop where
  bound : ∀ x n, s.idx x = some n → n < s.counter
  onstack : ∀ x, s.onstack x = true ↔ x ∈ s.stk
  stacked : ∀ x ∈ s.stk, s.idx x ≠ none
  nodup : s.stk.Nodup
  opened : ∀ x ∈ G, x ∈ s.stk
  done : ∀ x, s.idx x ≠ none → x ∉ G → ∀ y ∈ succ x, s.idx y ≠ none
  closed : ∀ x, s.idx x ≠ none → x ∉ s.stk → ∀ y ∈ succ x, s.idx y ≠ none ∧ y ∉ s.stk
  leads : ∀ x ∈ s.stk, ∃ z ∈ G, Leads succ x z
  components : ∀ C ∈ s.sccs, Component succ C
  apart : s.sccs.flatten.Nodup
  popped : ∀ x, x ∈ s.sccs.flatten ↔ s.idx x ≠ none ∧ x ∉ s.stk

end

/-- What a visit leaves of the state before it. -/
structure Extends (s t : State α) : Prop where
  counter : s.counter ≤ t.counter
  idx : ∀ x n, s.idx x = some n → t.idx x = some n
  fresh : ∀ x n, s.idx x = none → t.idx x = some n → s.counter ≤ n
  low : ∀ x, s.idx x ≠ none → t.low x = s.low x

/-- After a visit of `w` that began in `s`. The stack has grown by `l`; `low w` is the number of a
vertex of the old stack to which `w` leads, or none of these has it, and no edge from `l` leads
further down. -/
structure Visited (succ : α → List α) (G : Set α) (w : α) (s t : State α) (l : List α) : Prop where
  inv : Inv succ G t
  ext : Extends s t
  visited : t.idx w ≠ none
  stk : t.stk = l ++ s.stk
  grown : ∀ x ∈ l, s.idx x = none
  reached : ∀ x, s.idx x = none → t.idx x ≠ none → Leads succ w x
  lowAt : t.low w < s.counter → ∃ y ∈ s.stk, t.idx y = some (t.low w) ∧ Leads succ w y
  lowLe : ∀ x ∈ l, ∀ y ∈ s.stk, y ∈ succ x → ∃ n, t.idx y = some n ∧ t.low w ≤ n

/-- During the visit of `v` that began in `s`, when the successors `ws` are done. -/
structure Visiting (succ : α → List α) (G : Set α) (v : α) (ws : List α) (s t : State α)
    (l : List α) : Prop where
  inv : Inv succ (insert v G) t
  ext : Extends s t
  idx : t.idx v = some s.counter
  counter : s.counter < t.counter
  stk : t.stk = l ++ v :: s.stk
  above : ∀ x ∈ l, ∀ n, t.idx x = some n → s.counter < n
  reached : ∀ x, s.idx x = none → t.idx x ≠ none → Leads succ v x
  seen : ∀ y ∈ ws, t.idx y ≠ none
  lowLt : t.low v ≤ s.counter
  lowAt : ∃ y ∈ v :: s.stk, t.idx y = some (t.low v) ∧ Leads succ v y
  lowLe : ∀ x ∈ l, ∀ y ∈ s.stk, y ∈ succ x → ∃ n, t.idx y = some n ∧ t.low v ≤ n
  lowLeSelf : ∀ y ∈ ws, y ∈ s.stk → ∃ n, t.idx y = some n ∧ t.low v ≤ n

variable {succ : α → List α} {G : Set α} {v w x : α} {s t u : State α} {l l' ws : List α}

theorem Extends.trans (h : Extends s t) (h' : Extends t u) : Extends s u where
  counter := Nat.le_trans h.counter h'.counter
  idx x n hx := h'.idx x n (h.idx x n hx)
  fresh x n hs hu := by
    cases ht : t.idx x with
    | none => exact Nat.le_trans h.counter (h'.fresh x n ht hu)
    | some k =>
      have hk := h.fresh x k hs ht
      have heq := h'.idx x k ht
      rw [hu] at heq
      cases heq
      exact hk
  low x hx := by
    have hx' : t.idx x ≠ none := by
      obtain ⟨n, hn⟩ := Option.ne_none_iff_exists'.mp hx
      rw [h.idx x n hn]
      exact Option.some_ne_none n
    rw [h'.low x hx', h.low x hx]

theorem Extends.visited (h : Extends s t) (hx : s.idx x ≠ none) : t.idx x ≠ none := by
  obtain ⟨n, hn⟩ := Option.ne_none_iff_exists'.mp hx
  rw [h.idx x n hn]
  exact Option.some_ne_none n

/-- A vertex that has not been visited is not on the stack. -/
theorem Inv.not_mem_stk (h : Inv succ G s) (hv : s.idx v = none) : v ∉ s.stk :=
  fun hmem => h.stacked v hmem hv

/-! ## During a visit -/

/-- What has been popped does not lead back to the stack. -/
theorem Inv.popped_of_leads {y : α} (h : Inv succ G s) (hxy : Leads succ x y)
    (hx : s.idx x ≠ none ∧ x ∉ s.stk) : s.idx y ≠ none ∧ y ∉ s.stk := by
  induction hxy with
  | refl => exact hx
  | tail _ hstep ih => exact h.closed _ ih.1 ih.2 _ hstep

theorem Visiting.mem_tail (h : Visiting succ G v ws s t l) {y : α} {n : Nat} (hy : y ∈ t.stk)
    (hn : t.idx y = some n) (hle : n ≤ s.counter) : y ∈ v :: s.stk := by
  rw [h.stk] at hy
  rcases List.mem_append.mp hy with hy | hy
  · exact absurd (h.above y hy n hn) (Nat.not_lt.mpr hle)
  · exact hy

/-- A successor that has been popped. -/
theorem Visiting.skip (h : Visiting succ G v ws s t l) (hw : t.idx w ≠ none) (hstk : w ∉ t.stk) :
    Visiting succ G v (ws ++ [w]) s t l := by
  refine { h with seen := ?_, lowLeSelf := ?_ }
  · intro y hy
    rcases List.mem_append.mp hy with hy | hy
    · exact h.seen y hy
    · rwa [List.mem_singleton.mp hy]
  · intro y hy hmem
    rcases List.mem_append.mp hy with hy | hy
    · exact h.lowLeSelf y hy hmem
    · rw [List.mem_singleton.mp hy] at hmem
      refine absurd ?_ hstk
      rw [h.stk]
      exact List.mem_append_right _ (List.mem_cons_of_mem v hmem)

theorem Visiting.not_mem (h : Visiting succ G v ws s t l) : v ∉ l ∧ (∀ x ∈ l, x ∉ s.stk) := by
  have hnodup := h.inv.nodup
  rw [h.stk] at hnodup
  have hdisjoint := (List.nodup_append.mp hnodup).2.2
  exact ⟨fun hv => hdisjoint v hv v List.mem_cons_self rfl,
    fun x hx hmem => hdisjoint x hx x (List.mem_cons_of_mem v hmem) rfl⟩

/-- What the visit has put on the stack had not been visited. -/
theorem Visiting.grown (h : Visiting succ G v ws s t l) (hs : Inv succ G s) (hv : s.idx v = none) :
    ∀ x ∈ l ++ [v], s.idx x = none := by
  intro x hx
  rcases List.mem_append.mp hx with hx | hx
  · cases hidx : s.idx x with
    | none => rfl
    | some k =>
      have hlt := hs.bound x k hidx
      have habove := h.above x hx k (h.ext.idx x k hidx)
      exact absurd hlt (Nat.lt_asymm habove)
  · rwa [List.mem_singleton.mp hx]

/-- The edges from what the visit has put on the stack lead to what has been visited. -/
theorem Visiting.succ_visited (h : Visiting succ G v (succ v) s t l) (hs : Inv succ G s) :
    ∀ x ∈ l ++ [v], ∀ y ∈ succ x, t.idx y ≠ none := by
  obtain ⟨hvl, hl⟩ := h.not_mem
  intro x hx y hy
  rcases List.mem_append.mp hx with hxl | hxv
  · have hstk : x ∈ t.stk := by
      rw [h.stk]
      exact List.mem_append_left _ hxl
    refine h.inv.done x (h.inv.stacked x hstk) (fun hopen => ?_) y hy
    rcases hopen with heq | hG
    · exact hvl (heq ▸ hxl)
    · exact hl x hxl (hs.opened x hG)
  · rw [List.mem_singleton.mp hxv] at hy
    exact h.seen y hy

theorem Visiting.low_le (h : Visiting succ G v (succ v) s t l) :
    ∀ x ∈ l ++ [v], ∀ y ∈ s.stk, y ∈ succ x → ∃ n, t.idx y = some n ∧ t.low v ≤ n := by
  intro x hx y hy hxy
  rcases List.mem_append.mp hx with hx | hx
  · exact h.lowLe x hx y hy hxy
  · rw [List.mem_singleton.mp hx] at hxy
    exact h.lowLeSelf y hxy hy

theorem Visiting.leads_to (h : Visiting succ G v ws s t l) (hs : Inv succ G s)
    (hv : s.idx v = none) : ∀ x ∈ l ++ [v], Leads succ v x := by
  intro x hx
  have hstk : x ∈ t.stk := by
    rw [h.stk, List.append_cons]
    exact List.mem_append_left _ hx
  exact h.reached x (h.grown hs hv x hx) (h.inv.stacked x hstk)

/-- **The component.** If `low v` is still the number of `v`, then no edge leads from what the visit
has put on the stack to what is below. -/
theorem Visiting.component (h : Visiting succ G v (succ v) s t l) (hs : Inv succ G s)
    (hv : s.idx v = none) (hG : ∀ z ∈ G, Leads succ z v)
    (hbelow : ∀ x ∈ l ++ [v], ∀ y ∈ succ x, y ∉ s.stk) : Component succ (l ++ [v]) := by
  have hstk : t.stk = (l ++ [v]) ++ s.stk := by rw [h.stk, List.append_cons]
  have hmem : v ∈ l ++ [v] := List.mem_append_right _ (List.mem_singleton_self v)
  have hon : v ∈ t.stk := by
    rw [hstk]
    exact List.mem_append_left _ hmem
  -- what `v` leads to is in the component or has been popped
  have hforth : ∀ x, Leads succ v x → x ∈ l ++ [v] ∨ t.idx x ≠ none ∧ x ∉ t.stk := by
    intro x hx
    induction hx with
    | refl => exact .inl hmem
    | @tail x y _ hxy ih =>
      rcases ih with hin | ⟨hvisited, hpopped⟩
      · have hy := h.succ_visited hs x hin y hxy
        by_cases hystk : y ∈ t.stk
        · rw [hstk] at hystk
          exact .inl ((List.mem_append.mp hystk).resolve_right (hbelow x hin y hxy))
        · exact .inr ⟨hy, hystk⟩
      · exact .inr (h.inv.closed x hvisited hpopped y hxy)
  refine ⟨v, hmem, fun x => ⟨fun hx => ⟨h.leads_to hs hv x hx, ?_⟩, ?_⟩⟩
  · have hxstk : x ∈ t.stk := by
      rw [hstk]
      exact List.mem_append_left _ hx
    obtain ⟨z, hz, hlead⟩ := h.inv.leads x hxstk
    rcases hz with rfl | hz
    · exact hlead
    · exact hlead.trans (hG z hz)
  · rintro ⟨hvx, hxv⟩
    refine (hforth x hvx).resolve_right fun hpopped => ?_
    exact (h.inv.popped_of_leads hxv hpopped).2 hon

/-- A visit that ends below the first of its component: the vertices stay on the stack. -/
theorem Visiting.stays (h : Visiting succ G v (succ v) s t l) (hs : Inv succ G s)
    (hv : s.idx v = none) (hlow : t.low v ≠ s.counter) : Visited succ G v s t (l ++ [v]) := by
  obtain ⟨y₀, hy₀, hn₀, hlead₀⟩ := h.lowAt
  have hy₀stk : y₀ ∈ s.stk := by
    rcases List.mem_cons.mp hy₀ with rfl | hy₀
    · have heq : some (t.low y₀) = some s.counter := hn₀.symm.trans h.idx
      exact absurd (Option.some.inj heq) hlow
    · exact hy₀
  refine ⟨{ h.inv with opened := ?_, done := ?_, leads := ?_ }, h.ext, ?_, ?_, h.grown hs hv,
    h.reached, fun _ => ⟨y₀, hy₀stk, hn₀, hlead₀⟩, h.low_le⟩
  · exact fun x hx => h.inv.opened x (.inr hx)
  · intro x hx hnot y hy
    by_cases hxv : x = v
    · rw [hxv] at hy
      exact h.seen y hy
    · exact h.inv.done x hx (fun hG => hG.elim hxv hnot) y hy
  · intro x hx
    obtain ⟨z, hz, hlead⟩ := h.inv.leads x hx
    rcases hz with rfl | hz
    · obtain ⟨z', hz', hlead'⟩ := hs.leads y₀ hy₀stk
      exact ⟨z', hz', hlead.trans (hlead₀.trans hlead')⟩
    · exact ⟨z, hz, hlead⟩
  · rw [h.idx]
    exact Option.some_ne_none _
  · rw [h.stk, List.append_cons]

/-! ## Between the roots -/

/-- Between the roots of a search that has done `roots`. -/
structure Searched (succ : α → List α) (roots : List α) (s : State α) : Prop where
  inv : Inv succ ∅ s
  done : ∀ r ∈ roots, s.idx r ≠ none
  reached : ∀ x, s.idx x ≠ none → ∃ r ∈ roots, Leads succ r x

theorem searched_nil : Searched succ [] ({} : State α) where
  inv := {
    bound := nofun
    onstack := fun _ => ⟨nofun, nofun⟩
    stacked := nofun
    nodup := List.nodup_nil
    opened := nofun
    done := fun _ hx => absurd rfl hx
    closed := fun _ hx => absurd rfl hx
    leads := nofun
    components := nofun
    apart := List.nodup_nil
    popped := fun _ => ⟨nofun, fun hx => absurd rfl hx.1⟩ }
  done := nofun
  reached := fun _ hx => absurd rfl hx

/-- Between the roots the stack is empty. -/
theorem Inv.mem_sccs (h : Inv succ ∅ s) : x ∈ s.sccs.flatten ↔ s.idx x ≠ none := by
  rw [h.popped]
  refine and_iff_left_of_imp fun _ hx => ?_
  obtain ⟨z, hz, -⟩ := h.leads x hx
  exact hz

theorem Searched.mem_sccs {roots : List α} (h : Searched succ roots s) :
    x ∈ s.sccs.flatten ↔ ∃ r ∈ roots, Leads succ r x := by
  rw [h.inv.mem_sccs]
  refine ⟨h.reached x, fun ⟨r, hr, hlead⟩ => ?_⟩
  have hpopped := (h.inv.popped r).mp (h.inv.mem_sccs.mpr (h.done r hr))
  exact (h.inv.popped_of_leads hlead hpopped).1

/-! ## What is left to visit -/

/-- The vertices of `U` that have not been visited. -/
def unvisited (U : Finset α) (s : State α) : Finset α := U.filter fun x => s.idx x = none

theorem card_unvisited_lt {U : Finset α} (h : Visiting succ G v ws s t l) (hv : s.idx v = none)
    (hU : v ∈ U) : (unvisited U t).card < (unvisited U s).card := by
  refine Finset.card_lt_card ((Finset.ssubset_iff_of_subset fun x hx => ?_).mpr ⟨v, ?_, ?_⟩)
  · obtain ⟨hxU, hx⟩ := Finset.mem_filter.mp hx
    refine Finset.mem_filter.mpr ⟨hxU, ?_⟩
    by_contra hvisited
    exact h.ext.visited hvisited hx
  · exact Finset.mem_filter.mpr ⟨hU, hv⟩
  · intro hmem
    have hnone := (Finset.mem_filter.mp hmem).2
    rw [h.idx] at hnone
    cases hnone

end Tarjan
