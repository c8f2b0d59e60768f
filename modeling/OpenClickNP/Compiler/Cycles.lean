import Mathlib.Data.Finset.Dedup
import OpenClickNP.Compiler.Graph
import OpenClickNP.Lib.TarjanSearch

/-!
# `cycles.cpp`: cycles of the kernel graph

`analyzeCycles` warns of the strongly connected components that have two vertices or more and no
host-controlled kernel (`analyzeCycles_warns`). It decides for a component as a whole: a cycle of
kernels that are not host-controlled goes unreported where its component has a host-controlled
kernel off the cycle (`cycle_reported_iff`).
-/

namespace OpenClickNP

open Eg

open Tarjan (Leads Component)

/-- `d.warn(r, msg)`. -/
def DiagnosticEngine.warn (d : DiagnosticEngine) (r : SourceRange) (msg : String) :
    DiagnosticEngine :=
  d.emit { severity := .warning, message := msg, range := r }

/-- `succ[v]`. -/
def succKernels (g : Graph) (v : String) : List String :=
  (g.edges.filter (·.srcKernel == v)).map (·.dstKernel)

/-- `Tarjan t(g); t.run();`. -/
def tarjan (fuel : Nat) (g : Graph) : Option (Tarjan.State String) :=
  Tarjan.run (succKernels g) fuel (g.kernels.map (·.name))

/-- A kernel of the component is host-controlled. -/
def tolerated (g : Graph) (comp : List String) : Bool :=
  comp.any fun n =>
    match g.find n with
    | some k => k.hostControl
    | none => false

def cycleMessage (comp : List String) : String :=
  comp.foldl (fun os n => os ++ " " ++ n) "pure-dataflow cycle (deadlock risk) involving:"

/-- The range of the first kernel of the component. -/
def cycleRange (g : Graph) (comp : List String) : SourceRange :=
  match comp.head? with
  | some n =>
    match g.find n with
    | some k => k.src
    | none => {}
  | none => {}

/-- The loop body of `analyzeCycles`. -/
def reportComponent (g : Graph) (d : DiagnosticEngine) (comp : List String) : DiagnosticEngine :=
  if comp.length < 2 then d
  else if tolerated g comp then d
  else d.warn (cycleRange g comp) (cycleMessage comp)

def analyzeCycles (fuel : Nat) (g : Graph) (d : DiagnosticEngine) : Option DiagnosticEngine := do
  let t ← tarjan fuel g
  pure (t.sccs.foldl (reportComponent g) d)

/-! ## What it should report -/

/-- The names that lead to each other, and no others. -/
def IsScc (g : Graph) (C : Set String) : Prop :=
  ∃ r ∈ C, ∀ x, x ∈ C ↔ Leads (succKernels g) r x ∧ Leads (succKernels g) x r

/-- A component to be warned of. -/
structure Flagged (g : Graph) (C : Set String) : Prop where
  scc : IsScc g C
  two : C.Nontrivial
  reached : ∃ k ∈ g.kernels, ∃ x ∈ C, Leads (succKernels g) k.name x
  pure : ∀ k ∈ g.kernels, k.hostControl = true → k.name ∉ C

/-- The warning of a component. -/
def cycleWarning (g : Graph) (comp : List String) : Diagnostic where
  severity := .warning
  message := cycleMessage comp
  range := cycleRange g comp

/-- One warning for each component to be warned of, and no others. -/
def WarnsOf (g : Graph) (ws : List Diagnostic) : Prop :=
  ∃ comps : List (List String), ws = comps.map (cycleWarning g) ∧ comps.flatten.Nodup ∧
    ∀ C : Set String, Flagged g C ↔ ∃ comp ∈ comps, {x | x ∈ comp} = C

/-- The components found are those of the names visited, each name in one of them. -/
structure Partitions (g : Graph) (t : Tarjan.State String) : Prop where
  visited : ∀ x, t.idx x ≠ none ↔ ∃ k ∈ g.kernels, Leads (succKernels g) k.name x
  covers : ∀ x, x ∈ t.sccs.flatten ↔ t.idx x ≠ none
  apart : t.sccs.flatten.Nodup
  classes : ∀ comp ∈ t.sccs, Component (succKernels g) comp

/-! ## The search -/

/-- A bound that is large enough for the search. -/
def cycleBound (g : Graph) : Nat := g.kernels.length + g.edges.length

section

variable {g : Graph} {fuel : Nat}

theorem mem_succKernels {a b : String} :
    b ∈ succKernels g a ↔ ∃ e ∈ g.edges, e.srcKernel = a ∧ e.dstKernel = b := by
  simp [succKernels, and_assoc]

theorem exists_tarjan (hfuel : cycleBound g ≤ fuel) :
    ∃ t, tarjan fuel g = some t ∧ Partitions g t := by
  let names := g.kernels.map (·.name) ++ g.edges.map (·.dstKernel)
  have hcard : names.toFinset.card ≤ fuel := by
    refine Nat.le_trans (List.toFinset_card_le names) ?_
    rwa [List.length_append, List.length_map, List.length_map]
  have hclosed : ∀ x ∈ names.toFinset, ∀ y ∈ succKernels g x, y ∈ names.toFinset := by
    intro x _ y hy
    obtain ⟨e, he, -, rfl⟩ := mem_succKernels.mp hy
    exact List.mem_toFinset.mpr (List.mem_append_right _ (List.mem_map_of_mem he))
  have hroots : ∀ r ∈ g.kernels.map (·.name), r ∈ names.toFinset := fun r hr =>
    List.mem_toFinset.mpr (List.mem_append_left _ hr)
  obtain ⟨t, hrun, ht⟩ := Tarjan.run_searched hclosed hroots hcard
  have hreach : ∀ x, (∃ r ∈ g.kernels.map (·.name), Leads (succKernels g) r x) ↔
      ∃ k ∈ g.kernels, Leads (succKernels g) k.name x := fun x => by simp
  refine ⟨t, hrun, fun x => ?_, fun x => ht.inv.mem_sccs, ht.inv.apart, ht.inv.components⟩
  rw [← ht.inv.mem_sccs, ht.mem_sccs, hreach]

/-! ## The warnings -/

/-- The components that the loop warns of. -/
def warned (g : Graph) (comps : List (List String)) : List (List String) :=
  comps.filter fun comp => decide (2 ≤ comp.length) && !tolerated g comp

theorem warned_cons (comp : List String) (comps : List (List String)) :
    warned g (comp :: comps)
      = (if comp.length < 2 ∨ tolerated g comp = true then [] else [comp]) ++ warned g comps := by
  rw [warned, List.filter_cons]
  by_cases hlen : comp.length < 2
  · simp [hlen, Nat.not_le.mpr hlen, warned]
  · cases htol : tolerated g comp <;> simp [hlen, Nat.not_lt.mp hlen, warned]

theorem reportComponent_diags (d : DiagnosticEngine) (comp : List String) :
    (reportComponent g d comp).diags = d.diags
      ++ (if comp.length < 2 ∨ tolerated g comp = true then [] else [comp]).map
        (cycleWarning g) := by
  rw [reportComponent]
  by_cases hlen : comp.length < 2
  · rw [if_pos hlen, if_pos (.inl hlen)]
    exact (List.append_nil _).symm
  · by_cases htol : tolerated g comp = true
    · rw [if_neg hlen, if_pos htol, if_pos (.inr htol)]
      exact (List.append_nil _).symm
    · rw [if_neg hlen, if_neg htol, if_neg fun h => h.elim hlen htol]
      rfl

theorem foldl_reportComponent (comps : List (List String)) (d : DiagnosticEngine) :
    (comps.foldl (reportComponent g) d).diags
      = d.diags ++ (warned g comps).map (cycleWarning g) := by
  induction comps generalizing d with
  | nil => exact (List.append_nil _).symm
  | cons comp comps ih =>
    rw [List.foldl_cons, ih, reportComponent_diags, warned_cons, List.map_append,
      List.append_assoc]

theorem mem_warned {comps : List (List String)} {comp : List String} :
    comp ∈ warned g comps ↔
      comp ∈ comps ∧ 2 ≤ comp.length ∧ tolerated g comp = false := by
  simp [warned]

theorem tolerated_eq_false {comp : List String} :
    tolerated g comp = false ↔
      ∀ n ∈ comp, ∀ k, g.find n = some k → k.hostControl = false := by
  rw [tolerated, List.any_eq_false]
  refine forall₂_congr fun n _ => ?_
  cases g.find n with
  | none => simp
  | some k => simp

theorem analyzeCycles_eq {d : DiagnosticEngine} {t : Tarjan.State String}
    (ht : tarjan fuel g = some t) : analyzeCycles fuel g d
      = some { diags := d.diags ++ (warned g t.sccs).map (cycleWarning g) } := by
  rw [analyzeCycles, ht, ← foldl_reportComponent]
  rfl

/-- A list without repetitions has two elements if it is long enough. -/
theorem two_le_length {comp : List String} (hnodup : comp.Nodup) :
    2 ≤ comp.length ↔ Set.Nontrivial {x | x ∈ comp} := by
  constructor
  · intro hlen
    match comp, hnodup with
    | x :: y :: _, hnodup =>
      have hne : x ≠ y := (List.ne_of_not_mem_cons (List.nodup_cons.mp hnodup).1)
      exact ⟨x, List.mem_cons_self, y, List.mem_cons_of_mem _ List.mem_cons_self, hne⟩
  · rintro ⟨x, hx, y, hy, hne⟩
    match comp, hx, hy with
    | [_], hx, hy =>
      have heq := (List.mem_singleton.mp hx).trans (List.mem_singleton.mp hy).symm
      exact absurd heq hne
    | _ :: _ :: _, _, _ => simp

/-- Among kernels of distinct names, each is found under its name. -/
theorem find_of_mem (hnames : (g.kernels.map (·.name)).Nodup) {k : Kernel} (hk : k ∈ g.kernels) :
    g.find k.name = some k := by
  obtain ⟨k', hk'⟩ : ∃ k', g.find k.name = some k' := by
    refine Option.ne_none_iff_exists'.mp fun hnone => ?_
    exact absurd (List.find?_eq_none.mp hnone k hk) (by simp)
  obtain ⟨hmem, hname⟩ := Graph.find_eq_some hk'
  rw [hk', List.inj_on_of_nodup_map hnames hmem hk hname]

/-- The components that are warned of are those to be warned of. -/
theorem flagged_iff (hnames : (g.kernels.map (·.name)).Nodup) {t : Tarjan.State String}
    (ht : Partitions g t) (C : Set String) :
    Flagged g C ↔ ∃ comp ∈ warned g t.sccs, {x | x ∈ comp} = C := by
  have hnodup : ∀ comp ∈ t.sccs, comp.Nodup := fun comp hcomp =>
    (List.nodup_flatten.mp ht.apart).1 comp hcomp
  constructor
  · rintro ⟨⟨r, hr, hC⟩, htwo, ⟨k, hk, x, hx, hlead⟩, hpure⟩
    -- the component of `x` is that of the class
    obtain ⟨comp, hcomp, hmem⟩ := List.mem_flatten.mp
      ((ht.covers x).mpr ((ht.visited x).mpr ⟨k, hk, hlead⟩))
    obtain ⟨r', -, hr'⟩ := ht.classes comp hcomp
    obtain ⟨hrx, hxr⟩ := (hC x).mp hx
    obtain ⟨hrx', hxr'⟩ := (hr' x).mp hmem
    have heq : {x | x ∈ comp} = C := by
      ext y
      refine (hr' y).trans (Iff.trans ?_ (hC y).symm)
      constructor
      · exact fun ⟨h, h'⟩ => ⟨hrx.trans (hxr'.trans h), h'.trans (hrx'.trans hxr)⟩
      · exact fun ⟨h, h'⟩ => ⟨hrx'.trans (hxr.trans h), h'.trans (hrx.trans hxr')⟩
    refine ⟨comp, mem_warned.mpr ⟨hcomp, ?_, ?_⟩, heq⟩
    · rw [two_le_length (hnodup comp hcomp), heq]
      exact htwo
    · refine tolerated_eq_false.mpr fun n hn k hk => Bool.eq_false_iff.mpr fun hhost => ?_
      obtain ⟨hmem, hname⟩ := Graph.find_eq_some hk
      refine hpure k hmem hhost ?_
      rw [hname, ← heq]
      exact hn
  · rintro ⟨comp, hcomp, rfl⟩
    obtain ⟨hcomp, hlen, htol⟩ := mem_warned.mp hcomp
    obtain ⟨r, hr, hclass⟩ := ht.classes comp hcomp
    refine ⟨⟨r, hr, hclass⟩, (two_le_length (hnodup comp hcomp)).mp hlen, ?_,
      fun k hk hhost hmem => ?_⟩
    · obtain ⟨k, hk, hlead⟩ := (ht.visited r).mp
        ((ht.covers r).mp (List.mem_flatten.mpr ⟨comp, hcomp, hr⟩))
      exact ⟨k, hk, r, hr, hlead⟩
    · have hfalse := tolerated_eq_false.mp htol k.name hmem k (find_of_mem hnames hk)
      rw [hhost] at hfalse
      cases hfalse

end

/-- **The cycle analysis.** On a graph whose kernels have distinct names the search ends, its
components are those of the names visited, and there is one warning for each component to be warned
of. -/
theorem analyzeCycles_warns {g : Graph} (hnames : (g.kernels.map (·.name)).Nodup)
    (d : DiagnosticEngine) {fuel : Nat} (hfuel : cycleBound g ≤ fuel) :
    ∃ t ws, tarjan fuel g = some t ∧ Partitions g t ∧
      analyzeCycles fuel g d = some { diags := d.diags ++ ws } ∧ WarnsOf g ws := by
  obtain ⟨t, hrun, ht⟩ := exists_tarjan hfuel
  refine ⟨t, _, hrun, ht, analyzeCycles_eq hrun, warned g t.sccs, rfl, ?_,
    flagged_iff hnames ht⟩
  obtain ⟨hnodup, hdisjoint⟩ := List.nodup_flatten.mp ht.apart
  exact List.nodup_flatten.mpr ⟨fun comp hcomp => hnodup comp (mem_warned.mp hcomp).1,
    hdisjoint.sublist List.filter_sublist⟩

/-- Two kernels, each connected to the other. -/
def ringGraph : Graph where
  kernels := [{ name := "a", type := "A" }, { name := "b", type := "B" }]
  edges := [{ srcKernel := "a", dstKernel := "b" }, { srcKernel := "b", dstKernel := "a" }]

theorem analyzeCycles_ringGraph : ∃ t ws, tarjan 4 ringGraph = some t ∧ Partitions ringGraph t ∧
    analyzeCycles 4 ringGraph {} = some { diags := [] ++ ws } ∧ WarnsOf ringGraph ws :=
  analyzeCycles_warns (by decide) {} (by decide)

/-! ## Cycles one by one -/

/-- A cycle through two kernels or more, none of which is host-controlled. -/
structure DataflowCycle (g : Graph) (cyc : List String) : Prop where
  two : Set.Nontrivial {x | x ∈ cyc}
  edges : ∀ i a b, cyc[i]? = some a → cyc[(i + 1) % cyc.length]? = some b → b ∈ succKernels g a
  kernels : ∀ n ∈ cyc, ∃ k, g.find n = some k ∧ k.hostControl = false

/-- No kernel of the component of the cycle is host-controlled, on the cycle or off it. -/
def PureComponent (g : Graph) (cyc : List String) : Prop :=
  ∀ x ∈ cyc, ∀ n, Leads (succKernels g) x n → Leads (succKernels g) n x →
    ∀ k, g.find n = some k → k.hostControl = false

theorem DataflowCycle.leads_add {g : Graph} {cyc : List String} (hc : DataflowCycle g cyc)
    {i j : Nat} {a b : String} (hi : cyc[i]? = some a) (hj : cyc[(i + j) % cyc.length]? = some b) :
    Leads (succKernels g) a b := by
  obtain ⟨hlt, -⟩ := List.getElem?_eq_some_iff.mp hi
  induction j generalizing b with
  | zero =>
    rw [Nat.add_zero, Nat.mod_eq_of_lt hlt, hi] at hj
    cases hj
    exact .refl
  | succ j ih =>
    have hpos : 0 < cyc.length := Nat.zero_lt_of_lt hlt
    obtain ⟨b', hb'⟩ : ∃ b', cyc[(i + j) % cyc.length]? = some b' :=
      ⟨_, List.getElem?_eq_getElem (Nat.mod_lt _ hpos)⟩
    refine .tail (ih hb') (hc.edges _ b' b hb' ?_)
    rwa [Nat.mod_add_mod]

/-- The vertices of a cycle lead to each other. -/
theorem DataflowCycle.leads {g : Graph} {cyc : List String} (hc : DataflowCycle g cyc)
    {a b : String} (ha : a ∈ cyc) (hb : b ∈ cyc) : Leads (succKernels g) a b := by
  obtain ⟨i, hi⟩ := List.mem_iff_getElem?.mp ha
  obtain ⟨j, hj⟩ := List.mem_iff_getElem?.mp hb
  obtain ⟨hilt, -⟩ := List.getElem?_eq_some_iff.mp hi
  obtain ⟨hjlt, -⟩ := List.getElem?_eq_some_iff.mp hj
  refine hc.leads_add (j := cyc.length - i + j) hi ?_
  have hsum : i + (cyc.length - i + j) = j + cyc.length := by omega
  rwa [hsum, Nat.add_mod_right, Nat.mod_eq_of_lt hjlt]

/-- **Cycles.** A cycle is named by a warning if and only if no kernel of its component is
host-controlled. -/
theorem cycle_reported_iff (g : Graph) (d : DiagnosticEngine) {fuel : Nat}
    (hfuel : cycleBound g ≤ fuel) {cyc : List String} (hc : DataflowCycle g cyc) :
    ∃ comps : List (List String),
      analyzeCycles fuel g d = some { diags := d.diags ++ comps.map (cycleWarning g) } ∧
      ((∃ comp ∈ comps, ∀ n ∈ cyc, n ∈ comp) ↔ PureComponent g cyc) := by
  obtain ⟨t, hrun, ht⟩ := exists_tarjan hfuel
  refine ⟨warned g t.sccs, analyzeCycles_eq hrun, ?_⟩
  constructor
  · rintro ⟨comp, hcomp, hsub⟩ x hx n hxn hnx k hk
    obtain ⟨hmem, -, htol⟩ := mem_warned.mp hcomp
    obtain ⟨r, -, hr⟩ := ht.classes comp hmem
    obtain ⟨hrx, hxr⟩ := (hr x).mp (hsub x hx)
    exact tolerated_eq_false.mp htol n ((hr n).mpr ⟨hrx.trans hxn, hnx.trans hxr⟩) k hk
  · intro hpure
    obtain ⟨x, hx, y, hy, hne⟩ := hc.two
    obtain ⟨k, hk, -⟩ := hc.kernels x hx
    obtain ⟨hkmem, hkname⟩ := Graph.find_eq_some hk
    have hvisited : t.idx x ≠ none := (ht.visited x).mpr ⟨k, hkmem, by rw [hkname]; exact .refl⟩
    obtain ⟨comp, hmem, hxmem⟩ := List.mem_flatten.mp ((ht.covers x).mpr hvisited)
    obtain ⟨r, -, hr⟩ := ht.classes comp hmem
    obtain ⟨hrx, hxr⟩ := (hr x).mp hxmem
    have hsub : ∀ n ∈ cyc, n ∈ comp := fun n hn =>
      (hr n).mpr ⟨hrx.trans (hc.leads hx hn), (hc.leads hn hx).trans hxr⟩
    refine ⟨comp, mem_warned.mpr ⟨hmem, ?_, tolerated_eq_false.mpr fun n hn k' hk' => ?_⟩, hsub⟩
    · exact (two_le_length ((List.nodup_flatten.mp ht.apart).1 comp hmem)).mpr
        ⟨x, hsub x hx, y, hsub y hy, hne⟩
    · obtain ⟨hrn, hnr⟩ := (hr n).mp hn
      exact hpure x hx n (hxr.trans hrn) (hnr.trans hrx) k' hk'

theorem dataflowCycle_ringGraph : DataflowCycle ringGraph ["a", "b"] where
  two := ⟨"a", by simp, "b", by simp, by decide⟩
  edges i a b ha hb := by
    match i with
    | 0 | 1 =>
      cases ha
      cases hb
      decide
  kernels := by decide

theorem cycle_reported_ringGraph : ∃ comps : List (List String),
    analyzeCycles 4 ringGraph {} = some { diags := [] ++ comps.map (cycleWarning ringGraph) } ∧
      ((∃ comp ∈ comps, ∀ n ∈ ["a", "b"], n ∈ comp) ↔ PureComponent ringGraph ["a", "b"]) :=
  cycle_reported_iff ringGraph {} (by decide) dataflowCycle_ringGraph

/-- The ring again, and a host-controlled kernel connected to one kernel of it in both ways. -/
def hostGraph : Graph where
  kernels := ringGraph.kernels ++ [{ name := "h", type := "H", hostControl := true }]
  edges := ringGraph.edges
    ++ [{ srcKernel := "b", srcPort := 2, dstKernel := "h" },
      { srcKernel := "h", dstKernel := "b", dstPort := 2 }]

/-- The ring goes unreported. -/
theorem cycle_unreported : DataflowCycle hostGraph ["a", "b"] ∧
    analyzeCycles (cycleBound hostGraph) hostGraph {} = some {} := by
  refine ⟨⟨⟨"a", by simp, "b", by simp, by decide⟩, fun i a b ha hb => ?_, by decide⟩, by decide⟩
  match i with
  | 0 | 1 =>
    cases ha
    cases hb
    decide

/-! ## Graphs without a circle -/

/-- No edge is on a circle. -/
def NoCircle (g : Graph) : Prop :=
  ∀ e ∈ g.edges, ¬ Leads (succKernels g) e.dstKernel e.srcKernel

/-- Edges that all lead upwards do not lead back. -/
theorem noCircle_of_rank {g : Graph} (rank : String → Nat)
    (h : ∀ e ∈ g.edges, rank e.srcKernel < rank e.dstKernel) : NoCircle g := by
  have hle : ∀ {a b : String}, Leads (succKernels g) a b → rank a ≤ rank b := by
    intro a b hab
    induction hab with
    | refl => exact Nat.le_refl _
    | tail _ hstep ih =>
      obtain ⟨e, he, rfl, rfl⟩ := mem_succKernels.mp hstep
      exact ih.trans (h e he).le
  exact fun e he hback => absurd (hle hback) (Nat.not_le.mpr (h e he))

/-- The analysis says nothing if and only if no component is warned about. -/
theorem analyzeCycles_silent_iff {g : Graph} {fuel : Nat} {t : Tarjan.State String}
    (hrun : tarjan fuel g = some t) (d : DiagnosticEngine) :
    analyzeCycles fuel g d = some d ↔ warned g t.sccs = [] := by
  rw [analyzeCycles_eq hrun, Option.some.injEq]
  constructor
  · intro h
    have hdiags := congrArg DiagnosticEngine.diags h
    exact List.map_eq_nil_iff.mp (List.append_right_eq_self.mp hdiags)
  · intro h
    rw [h, List.map_nil, List.append_nil]

/-- Where two kernels lead to each other, an edge of a circle starts at the first. -/
theorem exists_edge_of_leads {g : Graph} {x y : String} (hne : x ≠ y)
    (hxy : Leads (succKernels g) x y) (hyx : Leads (succKernels g) y x) :
    ∃ e ∈ g.edges, e.srcKernel = x ∧ Leads (succKernels g) e.dstKernel e.srcKernel := by
  rcases Relation.ReflTransGen.cases_head hxy with heq | ⟨z, hxz, hzy⟩
  · exact absurd heq hne
  · obtain ⟨e, he, rfl, rfl⟩ := mem_succKernels.mp hxz
    exact ⟨e, he, rfl, hzy.trans hyx⟩

/-- An edge of a circle lies within a component, whose kernels are all on circles with it. -/
theorem exists_component_of_circle {g : Graph} {t : Tarjan.State String} (ht : Partitions g t)
    (hends : ∀ e ∈ g.edges, (g.find e.srcKernel).isSome = true) {e : Edge} (he : e ∈ g.edges)
    (hback : Leads (succKernels g) e.dstKernel e.srcKernel) :
    ∃ comp ∈ t.sccs, e.srcKernel ∈ comp ∧ e.dstKernel ∈ comp ∧ ∀ n ∈ comp,
      Leads (succKernels g) n e.srcKernel ∧ Leads (succKernels g) e.srcKernel n := by
  obtain ⟨k, hk⟩ := Option.isSome_iff_exists.mp (hends e he)
  obtain ⟨hkmem, hkname⟩ := Graph.find_eq_some hk
  have hvisited : t.idx e.srcKernel ≠ none :=
    (ht.visited _).mpr ⟨k, hkmem, by rw [hkname]; exact .refl⟩
  obtain ⟨comp, hmem, hsrc⟩ := List.mem_flatten.mp ((ht.covers _).mpr hvisited)
  obtain ⟨r, -, hr⟩ := ht.classes comp hmem
  obtain ⟨hrs, hsr⟩ := (hr _).mp hsrc
  have hedge : Leads (succKernels g) e.srcKernel e.dstKernel :=
    .single (mem_succKernels.mpr ⟨e, he, rfl, rfl⟩)
  refine ⟨comp, hmem, hsrc, (hr _).mpr ⟨hrs.trans hedge, hback.trans hsr⟩, fun n hn => ?_⟩
  obtain ⟨hrn, hnr⟩ := (hr n).mp hn
  exact ⟨hnr.trans hrs, hsr.trans hrn⟩

/-- Without a circle there is nothing to warn about. -/
theorem warned_of_noCircle {g : Graph} {t : Tarjan.State String} (ht : Partitions g t)
    (hno : NoCircle g) : warned g t.sccs = [] := by
  refine List.eq_nil_iff_forall_not_mem.mpr fun comp hcomp => ?_
  obtain ⟨hmem, hlen, -⟩ := mem_warned.mp hcomp
  obtain ⟨x, hx, y, hy, hne⟩ :=
    (two_le_length ((List.nodup_flatten.mp ht.apart).1 comp hmem)).mp hlen
  obtain ⟨r, -, hr⟩ := ht.classes comp hmem
  -- two kernels of a component lead to each other, by way of an edge
  have hxy := ((hr x).mp hx).2.trans ((hr y).mp hy).1
  have hyx := ((hr y).mp hy).2.trans ((hr x).mp hx).1
  obtain ⟨e, he, -, hback⟩ := exists_edge_of_leads hne hxy hyx
  exact hno e he hback

/-- A circle of several kernels, none of them host-controlled, is warned about. -/
theorem noCircle_of_warned {g : Graph} {t : Tarjan.State String} (ht : Partitions g t)
    (hends : ∀ e ∈ g.edges, (g.find e.srcKernel).isSome = true) (hnone : warned g t.sccs = [])
    (hself : ∀ e ∈ g.edges, e.srcKernel ≠ e.dstKernel)
    (hhost : ∀ e ∈ g.edges, Leads (succKernels g) e.dstKernel e.srcKernel →
      ∀ k, g.find e.srcKernel = some k → k.hostControl = false) : NoCircle g := by
  intro e he hback
  obtain ⟨comp, hmem, hsrc, hdst, hround⟩ := exists_component_of_circle ht hends he hback
  have hlen : 2 ≤ comp.length :=
    (two_le_length ((List.nodup_flatten.mp ht.apart).1 comp hmem)).mpr
      ⟨_, hsrc, _, hdst, hself e he⟩
  have hkernels : ∀ n ∈ comp, ∀ k, g.find n = some k → k.hostControl = false := by
    intro n hn k hk
    by_cases hne : n = e.srcKernel
    · subst hne
      exact hhost e he hback k hk
    · -- the kernel is on a circle, so an edge of the circle starts at it
      obtain ⟨e', he', rfl, hback'⟩ := exists_edge_of_leads hne (hround n hn).1 (hround n hn).2
      exact hhost e' he' hback' k hk
  have hwarned : comp ∈ warned g t.sccs :=
    mem_warned.mpr ⟨hmem, hlen, tolerated_eq_false.mpr hkernels⟩
  rw [hnone] at hwarned
  cases hwarned

/-- **What the deadlock warning leaves.** Where all edges start at kernels, the graph has no circle
if and only if there is no warning, no edge from a kernel to itself, and no host-controlled kernel
that leads back to itself. -/
theorem noCircle_iff_unwarned {g : Graph}
    (hends : ∀ e ∈ g.edges, (g.find e.srcKernel).isSome = true) (d : DiagnosticEngine)
    {fuel : Nat} (hfuel : cycleBound g ≤ fuel) :
    NoCircle g ↔ analyzeCycles fuel g d = some d ∧ (∀ e ∈ g.edges, e.srcKernel ≠ e.dstKernel) ∧
      ∀ e ∈ g.edges, Leads (succKernels g) e.dstKernel e.srcKernel →
        ∀ k, g.find e.srcKernel = some k → k.hostControl = false := by
  obtain ⟨t, hrun, ht⟩ := exists_tarjan hfuel
  rw [analyzeCycles_silent_iff hrun d]
  constructor
  · intro hno
    refine ⟨warned_of_noCircle ht hno, ?_, fun e he hback => absurd hback (hno e he)⟩
    intro e he heq
    refine hno e he ?_
    rw [heq]
    exact .refl
  · rintro ⟨hnone, hself, hhost⟩
    exact noCircle_of_warned ht hends hnone hself hhost

theorem noCircle_iff_unwarned_hostGraph : NoCircle hostGraph ↔
    analyzeCycles (cycleBound hostGraph) hostGraph {} = some {} ∧
      (∀ e ∈ hostGraph.edges, e.srcKernel ≠ e.dstKernel) ∧
      ∀ e ∈ hostGraph.edges, Leads (succKernels hostGraph) e.dstKernel e.srcKernel →
        ∀ k, hostGraph.find e.srcKernel = some k → k.hostControl = false :=
  noCircle_iff_unwarned (by decide) {} (Nat.le_refl _)

end OpenClickNP
