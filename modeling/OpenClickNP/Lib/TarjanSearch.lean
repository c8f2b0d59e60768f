import OpenClickNP.Lib.Tarjan

/-!
# Tarjan's algorithm: the search

`visits_strong`: a visit ends and keeps the invariant, for any bound that is no smaller than the
number of vertices left. `run_searched`: so does the search from a list of roots.
-/

namespace Tarjan

open Relation (ReflTransGen)

variable {α : Type*} [DecidableEq α]
variable {succ : α → List α} {G : Set α} {v w x : α} {s t u : State α} {l l' ws : List α}

/-! ## The start of a visit -/

theorem idx_enter_self (s : State α) (v : α) : (s.enter v).idx v = some s.counter :=
  Function.update_self ..

theorem idx_enter_of_ne (s : State α) (h : x ≠ v) : (s.enter v).idx x = s.idx x :=
  Function.update_of_ne h ..

theorem low_enter_self (s : State α) (v : α) : (s.enter v).low v = s.counter :=
  Function.update_self ..

omit [DecidableEq α] in
/-- A visited vertex is not the one that is entered. -/
theorem ne_of_visited (hv : s.idx v = none) (hx : s.idx x ≠ none) : x ≠ v :=
  fun heq => hx (heq ▸ hv)

theorem visited_enter (hv : s.idx v = none) (hx : s.idx x ≠ none) : (s.enter v).idx x ≠ none := by
  rwa [idx_enter_of_ne s (ne_of_visited hv hx)]

theorem of_visited_enter (hx : (s.enter v).idx x ≠ none) : x = v ∨ s.idx x ≠ none := by
  by_cases heq : x = v
  · exact .inl heq
  · rw [idx_enter_of_ne s heq] at hx
    exact .inr hx

theorem inv_enter (h : Inv succ G s) (hv : s.idx v = none) :
    Inv succ (insert v G) (s.enter v) where
  bound := by
    intro x n hx
    by_cases heq : x = v
    · rw [heq, idx_enter_self] at hx
      cases hx
      exact Nat.lt_succ_self _
    · rw [idx_enter_of_ne s heq] at hx
      exact Nat.lt_succ_of_lt (h.bound x n hx)
  onstack := by
    intro x
    by_cases heq : x = v
    · rw [heq]
      exact iff_of_true (Function.update_self ..) List.mem_cons_self
    · have honstack : (s.enter v).onstack x = s.onstack x := Function.update_of_ne heq ..
      rw [honstack, h.onstack]
      exact ⟨List.mem_cons_of_mem v, fun hx => (List.mem_cons.mp hx).resolve_left heq⟩
  stacked := by
    intro x hx
    rcases List.mem_cons.mp hx with rfl | hx
    · rw [idx_enter_self]
      exact Option.some_ne_none _
    · exact visited_enter hv (h.stacked x hx)
  nodup := List.nodup_cons.mpr ⟨h.not_mem_stk hv, h.nodup⟩
  opened := by
    rintro x (rfl | hx)
    · exact List.mem_cons_self
    · exact List.mem_cons_of_mem v (h.opened x hx)
  done := by
    intro x hx hnot y hy
    have hxv : x ≠ v := fun heq => hnot (.inl heq)
    have hx' := (of_visited_enter hx).resolve_left hxv
    exact visited_enter hv (h.done x hx' (fun hG => hnot (.inr hG)) y hy)
  closed := by
    intro x hx hnot y hy
    have hxv : x ≠ v := fun heq => hnot (heq ▸ List.mem_cons_self)
    have hx' := (of_visited_enter hx).resolve_left hxv
    obtain ⟨hy', hystk⟩ := h.closed x hx' (fun hmem => hnot (List.mem_cons_of_mem v hmem)) y hy
    refine ⟨visited_enter hv hy', fun hmem => ?_⟩
    rcases List.mem_cons.mp hmem with rfl | hmem
    · exact hy' hv
    · exact hystk hmem
  leads := by
    intro x hx
    rcases List.mem_cons.mp hx with rfl | hx
    · exact ⟨x, .inl rfl, .refl⟩
    · obtain ⟨z, hz, hlead⟩ := h.leads x hx
      exact ⟨z, .inr hz, hlead⟩
  components := h.components
  apart := h.apart
  popped := by
    intro x
    show x ∈ s.sccs.flatten ↔ _
    rw [h.popped]
    constructor
    · rintro ⟨hx, hnot⟩
      refine ⟨visited_enter hv hx, fun hmem => ?_⟩
      exact (List.mem_cons.mp hmem).elim (ne_of_visited hv hx) hnot
    · rintro ⟨hx, hnot⟩
      refine ⟨(of_visited_enter hx).resolve_left fun heq => ?_, fun hmem => ?_⟩
      · exact hnot (heq ▸ List.mem_cons_self)
      · exact hnot (List.mem_cons_of_mem v hmem)

theorem extends_enter (hv : s.idx v = none) : Extends s (s.enter v) where
  counter := Nat.le_succ _
  idx := by
    intro x n hx
    rwa [idx_enter_of_ne s (ne_of_visited hv (by rw [hx]; exact Option.some_ne_none n))]
  fresh := by
    intro x n hx hx'
    by_cases heq : x = v
    · rw [heq, idx_enter_self] at hx'
      cases hx'
      exact Nat.le_refl _
    · rw [idx_enter_of_ne s heq, hx] at hx'
      cases hx'
  low x hx := Function.update_of_ne (ne_of_visited hv hx) ..

theorem visiting_enter (h : Inv succ G s) (hv : s.idx v = none) :
    Visiting succ G v [] s (s.enter v) [] where
  inv := inv_enter h hv
  ext := extends_enter hv
  idx := idx_enter_self s v
  counter := Nat.lt_succ_self _
  stk := rfl
  above := nofun
  reached := by
    intro x hx hx'
    rcases of_visited_enter hx' with rfl | hold
    · exact .refl
    · exact absurd hx hold
  seen := nofun
  lowLt := Nat.le_of_eq (low_enter_self s v)
  lowAt := ⟨v, List.mem_cons_self, by rw [idx_enter_self, low_enter_self], .refl⟩
  lowLe := nofun
  lowLeSelf := nofun

/-! ## The successors -/

theorem Inv.lower (h : Inv succ G s) (v : α) (n : Nat) : Inv succ G (s.lower v n) :=
  { h with }

theorem Extends.lower (h : Extends s t) (hv : s.idx v = none) (n : Nat) :
    Extends s (t.lower v n) where
  counter := h.counter
  idx := h.idx
  fresh := h.fresh
  low x hx := by
    have hne : x ≠ v := fun heq => hx (heq ▸ hv)
    have hlow : (t.lower v n).low x = t.low x := Function.update_of_ne hne ..
    rw [hlow, h.low x hx]

theorem low_lower (s : State α) (v : α) (n : Nat) : (s.lower v n).low v = min (s.low v) n :=
  Function.update_self ..

/-- What `low v` is the number of, once it is lowered. -/
theorem lowAt_lower {n : Nat} {stk : List α}
    (hold : ∃ y ∈ stk, t.idx y = some (t.low v) ∧ Leads succ v y)
    (hnew : n < t.low v → ∃ y ∈ stk, t.idx y = some n ∧ Leads succ v y) :
    ∃ y ∈ stk, (t.lower v n).idx y = some ((t.lower v n).low v) ∧ Leads succ v y := by
  rw [low_lower]
  rcases Nat.lt_or_ge n (t.low v) with hlt | hle
  case inl =>
    rw [Nat.min_eq_right (Nat.le_of_lt hlt)]
    exact hnew hlt
  case inr =>
    rw [Nat.min_eq_left hle]
    exact hold

/-- A bound on `low v` holds when it is lowered. -/
theorem le_of_lower {y : α} {n : Nat} (h : ∃ k, t.idx y = some k ∧ t.low v ≤ k) :
    ∃ k, (t.lower v n).idx y = some k ∧ (t.lower v n).low v ≤ k := by
  obtain ⟨k, hk, hle⟩ := h
  rw [low_lower]
  exact ⟨k, hk, Nat.le_trans (Nat.min_le_left _ _) hle⟩

/-- A successor that is on the stack. -/
theorem Visiting.back (h : Visiting succ G v ws s t l) (hv : s.idx v = none) (hw : w ∈ succ v)
    {n : Nat} (hn : t.idx w = some n) (hstk : w ∈ t.stk) :
    Visiting succ G v (ws ++ [w]) s (t.lower v n) l where
  inv := h.inv.lower v n
  ext := h.ext.lower hv n
  idx := h.idx
  counter := h.counter
  stk := h.stk
  above := h.above
  reached := h.reached
  seen := by
    intro y hy
    rcases List.mem_append.mp hy with hy | hy
    · exact h.seen y hy
    · rw [List.mem_singleton.mp hy]
      show t.idx w ≠ none
      rw [hn]
      exact Option.some_ne_none n
  lowLt := by
    rw [low_lower]
    exact Nat.le_trans (Nat.min_le_left _ _) h.lowLt
  lowAt := lowAt_lower h.lowAt fun hlt =>
    ⟨w, h.mem_tail hstk hn (Nat.le_trans (Nat.le_of_lt hlt) h.lowLt), hn, .single hw⟩
  lowLe := fun x hx y hy hxy => le_of_lower (h.lowLe x hx y hy hxy)
  lowLeSelf := by
    intro y hy hmem
    rcases List.mem_append.mp hy with hy | hy
    · exact le_of_lower (h.lowLeSelf y hy hmem)
    · rw [List.mem_singleton.mp hy, low_lower]
      exact ⟨n, hn, Nat.min_le_right _ _⟩

/-- A successor that is visited now. -/
theorem Visiting.child (h : Visiting succ G v ws s t l) (hs : Inv succ G s) (hv : s.idx v = none)
    (hw : w ∈ succ v) (hnew : t.idx w = none)
    (hchild : Visited succ (insert v G) w t u l') :
    Visiting succ G v (ws ++ [w]) s (u.lower v (u.low w)) (l' ++ l) := by
  have hlowv : u.low v = t.low v :=
    hchild.ext.low v (by rw [h.idx]; exact Option.some_ne_none _)
  -- a vertex that had a number keeps it
  have hsame : ∀ {y : α} {n : Nat}, t.idx y ≠ none → u.idx y = some n → t.idx y = some n := by
    intro y n hy hn
    obtain ⟨k, hk⟩ := Option.ne_none_iff_exists'.mp hy
    exact hk.trans ((hchild.ext.idx y k hk).symm.trans hn)
  have hbound : ∀ {y : α}, (∃ k, t.idx y = some k ∧ t.low v ≤ k) →
      ∃ k, u.idx y = some k ∧ u.low v ≤ k := by
    rintro y ⟨k, hk, hle⟩
    exact ⟨k, hchild.ext.idx y k hk, by rwa [hlowv]⟩
  exact {
    inv := hchild.inv.lower v _
    ext := (h.ext.trans hchild.ext).lower hv _
    idx := hchild.ext.idx v _ h.idx
    counter := Nat.lt_of_lt_of_le h.counter hchild.ext.counter
    stk := by
      show u.stk = _
      rw [hchild.stk, h.stk, List.append_assoc]
    above := by
      intro x hx n hn
      rcases List.mem_append.mp hx with hx | hx
      · exact Nat.lt_of_lt_of_le h.counter (hchild.ext.fresh x n (hchild.grown x hx) hn)
      · have hstk : x ∈ t.stk := by
          rw [h.stk]
          exact List.mem_append_left _ hx
        exact h.above x hx n (hsame (h.inv.stacked x hstk) hn)
    reached := by
      intro x hx hx'
      by_cases ht : t.idx x = none
      · exact (hchild.reached x ht hx').head hw
      · exact h.reached x hx ht
    seen := by
      intro y hy
      rcases List.mem_append.mp hy with hy | hy
      · exact hchild.ext.visited (h.seen y hy)
      · rw [List.mem_singleton.mp hy]
        exact hchild.visited
    lowLt := by
      rw [low_lower, hlowv]
      exact Nat.le_trans (Nat.min_le_left _ _) h.lowLt
    lowAt := by
      obtain ⟨y, hy, hn, hlead⟩ := h.lowAt
      refine lowAt_lower ⟨y, hy, by rw [hlowv]; exact hchild.ext.idx y _ hn, hlead⟩ fun hlt => ?_
      rw [hlowv] at hlt
      have hle := Nat.le_trans (Nat.le_of_lt hlt) h.lowLt
      obtain ⟨z, hz, hzn, hlead⟩ := hchild.lowAt (Nat.lt_of_le_of_lt hle h.counter)
      exact ⟨z, h.mem_tail hz (hsame (h.inv.stacked z hz) hzn) hle, hzn, hlead.head hw⟩
    lowLe := by
      intro x hx y hy hxy
      rcases List.mem_append.mp hx with hx | hx
      · have hold : y ∈ t.stk := by
          rw [h.stk]
          exact List.mem_append_right _ (List.mem_cons_of_mem v hy)
        obtain ⟨k, hk, hle⟩ := hchild.lowLe x hx y hold hxy
        rw [low_lower]
        exact ⟨k, hk, Nat.le_trans (Nat.min_le_right _ _) hle⟩
      · exact le_of_lower (hbound (h.lowLe x hx y hy hxy))
    lowLeSelf := by
      intro y hy hmem
      rcases List.mem_append.mp hy with hy | hy
      · exact le_of_lower (hbound (h.lowLeSelf y hy hmem))
      · -- `w` was not visited before, so it is not on the old stack
        rw [List.mem_singleton.mp hy] at hmem
        exact absurd hnew (h.ext.visited (hs.stacked w hmem)) }

/-! ## The end of a visit -/

theorem popTo_append (hv : v ∉ l) (stk : List α) :
    popTo v (l ++ v :: stk) = (l ++ [v], stk) := by
  induction l with
  | nil => simp [popTo]
  | cons w l ih =>
    have hne := List.ne_of_not_mem_cons hv
    rw [List.cons_append, popTo, if_neg hne.symm, ih (List.not_mem_of_not_mem_cons hv)]
    rfl

theorem foldl_update_false (C : List α) (f : α → Bool) (x : α) :
    C.foldl (fun onstack w => Function.update onstack w false) f x = true ↔
      f x = true ∧ x ∉ C := by
  induction C generalizing f with
  | nil => simp
  | cons w C ih =>
    rw [List.foldl_cons, ih]
    by_cases hx : x = w
    · simp [hx]
    · rw [Function.update_of_ne hx, List.mem_cons, not_or]
      exact ⟨fun ⟨hf, hC⟩ => ⟨hf, hx, hC⟩, fun ⟨hf, _, hC⟩ => ⟨hf, hC⟩⟩

/-- At the first of its component a visit pops the whole of it. -/
theorem Visiting.leave_eq (h : Visiting succ G v ws s t l) (hlow : t.low v = s.counter) :
    t.leave v = { t with
      stk := s.stk
      onstack := (l ++ [v]).foldl (fun onstack w => Function.update onstack w false) t.onstack
      sccs := t.sccs ++ [l ++ [v]] } := by
  have hpop : popTo v t.stk = (l ++ [v], s.stk) := by rw [h.stk, popTo_append h.not_mem.1]
  unfold State.leave
  rw [if_pos (by rw [h.idx, hlow]), hpop]

omit [DecidableEq α] in
theorem Visiting.mem_stk (h : Visiting succ G v ws s t l) :
    x ∈ t.stk ↔ x ∈ l ++ [v] ∨ x ∈ s.stk := by
  rw [h.stk, List.append_cons, List.mem_append]

omit [DecidableEq α] in
/-- No edge leads from the component down the stack. -/
theorem Visiting.not_below (h : Visiting succ G v (succ v) s t l) (hs : Inv succ G s)
    (hlow : t.low v = s.counter) : ∀ x ∈ l ++ [v], ∀ y ∈ succ x, y ∉ s.stk := by
  intro x hx y hy hold
  obtain ⟨n, hn, hle⟩ := h.low_le x hx y hold hy
  obtain ⟨k, hk⟩ := Option.ne_none_iff_exists'.mp (hs.stacked y hold)
  have heq : some k = some n := (h.ext.idx y k hk).symm.trans hn
  have hlt := hs.bound y k hk
  cases heq
  omega

theorem Visiting.inv_leave (h : Visiting succ G v (succ v) s t l) (hs : Inv succ G s)
    (hv : s.idx v = none) (hG : ∀ z ∈ G, Leads succ z v) (hlow : t.low v = s.counter) :
    Inv succ G (t.leave v) := by
  have hapart : ∀ x ∈ l ++ [v], x ∉ s.stk :=
    fun x hx hold => hs.stacked x hold (h.grown hs hv x hx)
  have hbelow := h.not_below hs hlow
  rw [h.leave_eq hlow]
  exact {
    bound := h.inv.bound
    onstack := by
      intro x
      rw [foldl_update_false, h.inv.onstack, h.mem_stk]
      exact ⟨fun ⟨hx, hnot⟩ => hx.resolve_left hnot,
        fun hx => ⟨.inr hx, fun hin => hapart x hin hx⟩⟩
    stacked := fun x hx => h.inv.stacked x (h.mem_stk.mpr (.inr hx))
    nodup := hs.nodup
    opened := hs.opened
    done := by
      intro x hx hnot y hy
      by_cases hxv : x = v
      · rw [hxv] at hy
        exact h.seen y hy
      · exact h.inv.done x hx (fun hopen => hopen.elim hxv hnot) y hy
    closed := by
      intro x hx hnot y hy
      by_cases hin : x ∈ l ++ [v]
      · exact ⟨h.succ_visited hs x hin y hy, hbelow x hin y hy⟩
      · obtain ⟨hvisited, hystk⟩ := h.inv.closed x hx
          (fun hstk => (h.mem_stk.mp hstk).elim hin hnot) y hy
        exact ⟨hvisited, fun hold => hystk (h.mem_stk.mpr (.inr hold))⟩
    leads := hs.leads
    components := by
      intro C hC
      rcases List.mem_append.mp hC with hC | hC
      · exact h.inv.components C hC
      · rw [List.mem_singleton.mp hC]
        exact h.component hs hv hG hbelow
    apart := by
      rw [List.flatten_append, List.flatten_singleton, List.nodup_append]
      have hnodup := h.inv.nodup
      rw [h.stk, List.append_cons] at hnodup
      refine ⟨h.inv.apart, (List.nodup_append.mp hnodup).1, fun x hx y hy heq => ?_⟩
      exact ((h.inv.popped x).mp hx).2 (h.mem_stk.mpr (.inl (heq ▸ hy)))
    popped := by
      intro x
      rw [List.flatten_append, List.flatten_singleton, List.mem_append, h.inv.popped, h.mem_stk]
      constructor
      · rintro (⟨hx, hnot⟩ | hx)
        · exact ⟨hx, fun hold => hnot (.inr hold)⟩
        · exact ⟨h.inv.stacked x (h.mem_stk.mpr (.inl hx)), hapart x hx⟩
      · rintro ⟨hx, hnot⟩
        by_cases hin : x ∈ l ++ [v]
        · exact .inr hin
        · exact .inl ⟨hx, fun hor => hor.elim hin hnot⟩ }

/-- A visit that ends at the first of its component: it is popped. -/
theorem Visiting.pops (h : Visiting succ G v (succ v) s t l) (hs : Inv succ G s)
    (hv : s.idx v = none) (hG : ∀ z ∈ G, Leads succ z v) (hlow : t.low v = s.counter) :
    Visited succ G v s (t.leave v) [] := by
  have hinv := h.inv_leave hs hv hG hlow
  rw [h.leave_eq hlow] at hinv ⊢
  exact {
    inv := hinv
    ext := ⟨h.ext.counter, h.ext.idx, h.ext.fresh, h.ext.low⟩
    visited := by
      show t.idx v ≠ none
      rw [h.idx]
      exact Option.some_ne_none _
    stk := rfl
    grown := nofun
    reached := h.reached
    lowAt := fun hlt => absurd hlow (Nat.ne_of_lt hlt)
    lowLe := nofun }

/-- **The end of a visit.** -/
theorem Visiting.leave (h : Visiting succ G v (succ v) s t l) (hs : Inv succ G s)
    (hv : s.idx v = none) (hG : ∀ z ∈ G, Leads succ z v) :
    ∃ l', Visited succ G v s (t.leave v) l' := by
  by_cases hlow : t.low v = s.counter
  · exact ⟨[], h.pops hs hv hG hlow⟩
  · refine ⟨l ++ [v], ?_⟩
    have hstays : t.leave v = t := by
      unfold State.leave
      rw [if_neg]
      rw [h.idx]
      exact fun heq => hlow (Option.some.inj heq).symm
    rw [hstays]
    exact h.stays hs hv hlow

/-! ## The search -/

section

variable {U : Finset α} {rec : α → State α → Option (State α)} {n : Nat}

/-- Visits from states with at most `n` vertices left. -/
def Visits (succ : α → List α) (U : Finset α) (n : Nat) (rec : α → State α → Option (State α)) :
    Prop :=
  ∀ (G : Set α) (w : α) (s : State α), Inv succ G s → s.idx w = none →
    (∀ z ∈ G, Leads succ z w) → w ∈ U → (unvisited U s).card ≤ n →
      ∃ t l, rec w s = some t ∧ Visited succ G w s t l

/-- One successor. -/
theorem Visiting.visit (hrec : Visits succ U n rec) (h : Visiting succ G v ws s t l)
    (hs : Inv succ G s) (hv : s.idx v = none) (hG : ∀ z ∈ G, Leads succ z v) (hw : w ∈ succ v)
    (hU : w ∈ U) (hn : (unvisited U t).card ≤ n) :
    ∃ u l', Tarjan.visit rec v t w = some u ∧ Visiting succ G v (ws ++ [w]) s u l' := by
  cases hidx : t.idx w with
  | none =>
    have hinsert : ∀ z ∈ insert v G, Leads succ z w := by
      rintro z (rfl | hz)
      · exact .single hw
      · exact (hG z hz).tail hw
    obtain ⟨u, l', hrun, hchild⟩ := hrec _ w t h.inv hidx hinsert hU hn
    refine ⟨_, _, ?_, h.child hs hv hw hidx hchild⟩
    rw [Tarjan.visit, hidx]
    simp only [hrun]
    rfl
  | some k =>
    cases hon : t.onstack w with
    | true =>
      refine ⟨_, l, ?_, h.back hv hw hidx ((h.inv.onstack w).mp hon)⟩
      rw [Tarjan.visit, hidx]
      simp only [hon, if_true]
    | false =>
      refine ⟨t, l, ?_, h.skip (by rw [hidx]; exact Option.some_ne_none k) fun hmem => ?_⟩
      · rw [Tarjan.visit, hidx]
        simp only [hon, Bool.false_eq_true, if_false]
      · rw [(h.inv.onstack w).mpr hmem] at hon
        cases hon

/-- The loop over the successors. Induction on those that are left. -/
theorem Visiting.visits (hrec : Visits succ U n rec) (hs : Inv succ G s) (hv : s.idx v = none)
    (hG : ∀ z ∈ G, Leads succ z v) (hvU : v ∈ U) (hn : (unvisited U s).card ≤ n + 1)
    (hU : ∀ w ∈ succ v, w ∈ U) (rest : List α) (hrest : rest ⊆ succ v)
    (h : Visiting succ G v ws s t l) :
    ∃ u l', rest.foldlM (Tarjan.visit rec v) t = some u ∧
      Visiting succ G v (ws ++ rest) s u l' := by
  induction rest generalizing ws t l with
  | nil => exact ⟨t, l, rfl, by rwa [List.append_nil]⟩
  | cons w rest ih =>
    have hw := hrest List.mem_cons_self
    have hlt := card_unvisited_lt h hv hvU
    obtain ⟨t₁, l₁, hstep, h₁⟩ := h.visit hrec hs hv hG hw (hU w hw) (by omega)
    obtain ⟨u, l', hrun, hu⟩ := ih (fun x hx => hrest (List.mem_cons_of_mem _ hx)) h₁
    refine ⟨u, l', ?_, by rwa [List.append_cons]⟩
    rw [List.foldlM_cons, hstep]
    exact hrun

end

/-- **A visit ends and leaves the invariant.** Induction on the bound, which is large enough while
it is no smaller than the number of vertices left. -/
theorem visits_strong {U : Finset α} (hU : ∀ x ∈ U, ∀ y ∈ succ x, y ∈ U) (n : Nat) :
    Visits succ U n (strong succ n) := by
  induction n with
  | zero =>
    intro G w s _ hw _ hwU hn
    have hmem : w ∈ unvisited U s := Finset.mem_filter.mpr ⟨hwU, hw⟩
    rw [Finset.card_eq_zero.mp (Nat.le_zero.mp hn)] at hmem
    cases hmem
  | succ n ih =>
    intro G w s hs hw hG hwU hn
    obtain ⟨t, l, hrun, ht⟩ := (visiting_enter hs hw).visits ih hs hw hG hwU hn (hU w hwU)
      (succ w) (List.Subset.refl _)
    obtain ⟨l', hleave⟩ := ht.leave hs hw hG
    refine ⟨_, l', ?_, hleave⟩
    rw [strong, hrun]
    rfl

theorem Searched.next {roots : List α} {U : Finset α} (hU : ∀ x ∈ U, ∀ y ∈ succ x, y ∈ U)
    (h : Searched succ roots s) (hv : v ∈ U) {fuel : Nat} (hfuel : U.card ≤ fuel) :
    ∃ t, runFrom succ fuel s v = some t ∧ Searched succ (roots ++ [v]) t := by
  have hmem : ∀ {x}, x ∈ roots → x ∈ roots ++ [v] := fun hx => List.mem_append_left _ hx
  have hlast : v ∈ roots ++ [v] := List.mem_append_right _ (List.mem_singleton_self v)
  cases hidx : s.idx v with
  | some k =>
    refine ⟨s, by rw [runFrom, hidx], h.inv, fun r hr => ?_, fun x hx => ?_⟩
    · rcases List.mem_append.mp hr with hr | hr
      · exact h.done r hr
      · rw [List.mem_singleton.mp hr, hidx]
        exact Option.some_ne_none k
    · obtain ⟨r, hr, hlead⟩ := h.reached x hx
      exact ⟨r, hmem hr, hlead⟩
  | none =>
    have hcard : (unvisited U s).card ≤ fuel :=
      Nat.le_trans (Finset.card_le_card (Finset.filter_subset _ _)) hfuel
    obtain ⟨t, l, hrun, ht⟩ := visits_strong hU fuel ∅ v s h.inv hidx nofun hv hcard
    refine ⟨t, by rw [runFrom, hidx]; exact hrun, ht.inv, fun r hr => ?_, fun x hx => ?_⟩
    · rcases List.mem_append.mp hr with hr | hr
      · exact ht.ext.visited (h.done r hr)
      · rw [List.mem_singleton.mp hr]
        exact ht.visited
    · by_cases hs : s.idx x = none
      · exact ⟨v, hlast, ht.reached x hs hx⟩
      · obtain ⟨r, hr, hlead⟩ := h.reached x hs
        exact ⟨r, hmem hr, hlead⟩

/-- **The search.** It ends, and its components are those of what the roots lead to, each once. -/
theorem run_searched {U : Finset α} (hU : ∀ x ∈ U, ∀ y ∈ succ x, y ∈ U) {roots : List α}
    (hroots : ∀ r ∈ roots, r ∈ U) {fuel : Nat} (hfuel : U.card ≤ fuel) :
    ∃ s, run succ fuel roots = some s ∧ Searched succ roots s := by
  have hrest : ∀ (rest done : List α) (s : State α), (∀ r ∈ rest, r ∈ U) →
      Searched succ done s →
        ∃ t, rest.foldlM (runFrom succ fuel) s = some t ∧ Searched succ (done ++ rest) t := by
    intro rest
    induction rest with
    | nil => exact fun done s _ hs => ⟨s, rfl, by rwa [List.append_nil]⟩
    | cons v rest ih =>
      intro done s hU' hs
      obtain ⟨s₁, hstep, hs₁⟩ := hs.next hU (hU' v List.mem_cons_self) hfuel
      obtain ⟨t, hrun, ht⟩ := ih _ s₁ (fun r hr => hU' r (List.mem_cons_of_mem _ hr)) hs₁
      refine ⟨t, ?_, by rwa [List.append_cons]⟩
      rw [List.foldlM_cons, hstep]
      exact hrun
  exact hrest roots [] {} hroots searched_nil

end Tarjan
