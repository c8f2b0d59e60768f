import OpenClickNP.Compiler.Inlining

/-!
# The resolver inlines exactly the closed groups

A module that the resolver accepts has no edge that ends at an unknown name. Following the
instances down from the module, each name that an edge of a scope ends at can only be that of an
instance of the scope itself, so every scope meets the condition (`inlinable_of_accepted`).
-/

namespace OpenClickNP

open Ast Eg QualifiedName HandInline

/-! ## Accepted graphs -/

theorem checkEnds_ok {g : Graph} {d : DiagnosticEngine} {e : Edge}
    (h : (Resolver.checkEnds g d e).hasError = false) :
    d.hasError = false ∧ Resolver.hasKernel g e.srcKernel = true ∧
      Resolver.hasKernel g e.dstKernel = true := by
  unfold Resolver.checkEnds at h
  cases hsrc : Resolver.hasKernel g e.srcKernel with
  | true =>
    cases hdst : Resolver.hasKernel g e.dstKernel with
    | true => exact ⟨by simpa [hsrc, hdst] using h, rfl, rfl⟩
    | false => simp [hdst] at h
  | false =>
    cases hdst : Resolver.hasKernel g e.dstKernel with
    | true => simp [hsrc, hdst] at h
    | false => simp [hdst] at h

theorem foldl_checkEnds_ok {g : Graph} {es : List Edge} {d : DiagnosticEngine}
    (h : (es.foldl (Resolver.checkEnds g) d).hasError = false) :
    d.hasError = false ∧ ∀ e ∈ es, Resolver.hasKernel g e.srcKernel = true ∧
      Resolver.hasKernel g e.dstKernel = true := by
  induction es generalizing d with
  | nil => exact ⟨h, fun e he => absurd he List.not_mem_nil⟩
  | cons e es ih =>
    obtain ⟨hd, hes⟩ := ih h
    obtain ⟨hd', he⟩ := checkEnds_ok hd
    refine ⟨hd', fun e' he' => ?_⟩
    rcases List.mem_cons.mp he' with rfl | he'
    · exact he
    · exact hes e' he'

theorem foldl_addSpecial (ns : List String) (g : Graph) :
    (ns.foldl Resolver.addSpecial g).edges = g.edges ∧
      ∀ k ∈ (ns.foldl Resolver.addSpecial g).kernels,
        k ∈ g.kernels ∨ specialFromName k.name ≠ .none := by
  induction ns generalizing g with
  | nil => exact ⟨rfl, fun k hk => Or.inl hk⟩
  | cons n ns ih =>
    obtain ⟨hedges, hkernels⟩ := ih (Resolver.addSpecial g n)
    have hone : (Resolver.addSpecial g n).edges = g.edges ∧
        ∀ k ∈ (Resolver.addSpecial g n).kernels,
          k ∈ g.kernels ∨ specialFromName k.name ≠ .none := by
      unfold Resolver.addSpecial
      split
      · exact ⟨rfl, fun k hk => Or.inl hk⟩
      · split
        · exact ⟨rfl, fun k hk => Or.inl hk⟩
        · rename_i hspecial
          refine ⟨rfl, fun k hk => ?_⟩
          rcases List.mem_append.mp hk with hk | hk
          · exact Or.inl hk
          · obtain rfl := List.mem_singleton.mp hk
            exact Or.inr hspecial
    refine ⟨hedges.trans hone.1, fun k hk => ?_⟩
    rcases hkernels k hk with hk | hk
    · exact hone.2 k hk
    · exact Or.inr hk

/-- The end of an edge is known: a kernel has the name, or it is that of a pseudo-element. -/
def Known (r : Resolver) (n : String) : Prop :=
  (∃ k ∈ r.graph.kernels, k.name = n) ∨ specialFromName n ≠ .none

theorem known_of_accepted {m : Module} {diags d : DiagnosticEngine} {fuel : Nat} {g : Graph}
    (h : resolveModuleToGraph fuel m diags = some (true, d, g)) :
    ∃ rf, m.stmts.foldlM (Resolver.processTop fuel)
        (m.stmts.foldl Resolver.collectDecl { diags := diags }) = some rf ∧
      ∀ e ∈ rf.graph.edges, Known rf e.srcKernel ∧ Known rf e.dstKernel := by
  obtain ⟨rf, hrf, hok, -, -⟩ := resolver_of_resolves h
  refine ⟨rf, hrf, ?_⟩
  have herr : rf.synthesizeSpecials.diags.hasError = false := by
    show rf.synthesizeSpecials.assignSignalSlots.diags.hasError = false
    simpa using hok
  -- the check of the ends has reported nothing, so each end has a kernel
  unfold Resolver.synthesizeSpecials at herr
  obtain ⟨hedges, hkernels⟩ := foldl_addSpecial (Resolver.referenced rf.graph.edges) rf.graph
  obtain ⟨-, hends⟩ := foldl_checkEnds_ok herr
  rw [hedges] at hends
  -- a kernel that was added last is a pseudo-element
  have hknown : ∀ n, Resolver.hasKernel
      ((Resolver.referenced rf.graph.edges).foldl Resolver.addSpecial rf.graph) n = true →
        Known rf n := by
    intro n hn
    obtain ⟨k, hk, hname⟩ := List.any_eq_true.mp hn
    have hname : k.name = n := by simpa using hname
    subst hname
    rcases hkernels k hk with hk | hk
    · exact Or.inl ⟨k, hk, rfl⟩
    · exact Or.inr hk
  exact fun e he => ⟨hknown _ (hends e he).1, hknown _ (hends e he).2⟩

/-! ## Names used as the language means them -/

/-- The names of a scope are identifiers, tell the instances apart, and are none of those the
compiler makes up or reserves; an anonymous instance in a body stands in a connection, as the
parser makes it. -/
structure WellNamed (N : Option String) (stmts : List GroupStmt) : Prop where
  plain : ∀ d, .instanceDecl d ∈ stmts → Plain d.name ∧ Plain d.type
  distinct : ∀ d d', .instanceDecl d ∈ stmts → .instanceDecl d' ∈ stmts → d.name = d'.name → d = d'
  notAuto : ∀ d, .instanceDecl d ∈ stmts → ∀ type k, d.name ≠ autoName type k
  notSpecial : ∀ d, .instanceDecl d ∈ stmts → specialFromName d.name = .none
  ends : ∀ c, .connectionDecl c ∈ stmts → ∀ n ∈ [c.source.nodeName, c.dest.nodeName],
    Plain n ∧ ∀ type k, n ≠ autoName type k
  used : N.isSome → ∀ d, .instanceDecl d ∈ stmts → d.anonymous = true →
    ∃ c, .connectionDecl c ∈ stmts ∧ d.name ∈ [c.source.nodeName, c.dest.nodeName]

def AllWellNamed (m : Module) : Prop := ∀ N stmts, Scope m N stmts → WellNamed N stmts

theorem plain_autoName {type : String} (h : Plain type) (k : Nat) : Plain (autoName type k) :=
  plain_numbered h (by decide) k

theorem plain_of_special {n : String} (h : specialFromName n ≠ .none) : Plain n := by
  have hspecial : n ∈ ["tor_in", "tor_out", "nic_in", "nic_out", "host_in", "host_out", "Drop",
      "Idle", "begin", "end"] := by
    by_contra hn
    simp only [List.mem_cons, List.not_mem_nil, or_false, not_or] at hn
    exact h (by simp only [specialFromName, hn, if_false])
  have hplain : ∀ w ∈ ["tor_in", "tor_out", "nic_in", "nic_out", "host_in", "host_out", "Drop",
      "Idle", "begin", "end"], Plain w := by
    decide
  exact hplain n hspecial

theorem special_qualify (N n : String) : specialFromName (qualify (some N) n) = .none := by
  by_contra h
  exact not_plain_qualify N n (plain_of_special h)

section
variable {m : Module} {N : Option String} {stmts : List GroupStmt} {d copy : InstanceDecl}

theorem CopyIn.type (h : CopyIn N d copy) : groupOf m copy = groupOf m d := by
  cases N with
  | none => rw [h]
  | some N =>
    obtain ⟨r, rfl⟩ := h
    unfold Resolver.prefixInstance
    split <;> rfl

/-- The name of a copy: that of the instance, or one made up for it. -/
theorem CopyIn.name (h : CopyIn N d copy) :
    copy.name = qualify N d.name ∨
      d.anonymous = true ∧ N.isSome = true ∧ ∃ k, copy.name = qualify N (autoName d.type k) := by
  cases N with
  | none => exact Or.inl (by rw [h]; rfl)
  | some N =>
    obtain ⟨r, rfl⟩ := h
    unfold Resolver.prefixInstance
    cases hanon : d.anonymous with
    | true => exact Or.inr ⟨rfl, rfl, r.anonCounter, rfl⟩
    | false => exact Or.inl rfl

/-- A kernel of an element bears the name of the instance, or one made up for it. -/
theorem emits_element (h : CopyIn N d copy) (hg : groupOf m d = none) {fuel : Nat} {name : String}
    (he : Emits m fuel copy name) :
    d.anonymous = false ∧ name = qualify N d.name ∨
      ∃ k, name = qualify N (autoName d.type k) := by
  cases fuel with
  | zero => exact he.elim
  | succ fuel =>
    have hg' : groupOf m copy = none := h.type.trans hg
    unfold Emits at he
    rw [hg'] at he
    cases N with
    | none =>
      cases h
      cases hanon : d.anonymous with
      | true =>
        simp only [hanon, if_true] at he
        exact Or.inr he
      | false =>
        simp only [hanon, Bool.false_eq_true, if_false] at he
        exact Or.inl ⟨rfl, he⟩
    | some N =>
      obtain ⟨r, rfl⟩ := h
      unfold Resolver.prefixInstance at he
      cases hanon : d.anonymous with
      | true =>
        simp only [hanon, if_true, Bool.false_eq_true, if_false] at he
        exact Or.inr ⟨r.anonCounter, he⟩
      | false =>
        simp only [hanon, Bool.false_eq_true, if_false] at he
        exact Or.inl ⟨rfl, he⟩

/-- A kernel inside a group instance has a name further in. Induction on the nesting. -/
theorem emits_deeper {fuel : Nat} {name : String} (he : Emits m fuel copy name) :
    groupOf m copy = none ∨ ∃ x, name = copy.name ++ "::" ++ x := by
  induction fuel generalizing copy name with
  | zero => exact he.elim
  | succ fuel ih =>
    cases hg : groupOf m copy with
    | none => exact Or.inl rfl
    | some g =>
      right
      unfold Emits at he
      rw [hg] at he
      obtain ⟨d', -, copy', hcopy, he'⟩ := he
      -- the copy is named below the instance, and what it emits below the copy
      have hname : ∃ a, copy'.name = copy.name ++ "::" ++ a := by
        rcases hcopy.name with h | ⟨-, -, k, h⟩
        · exact ⟨_, h⟩
        · exact ⟨_, h⟩
      obtain ⟨a, ha⟩ := hname
      rcases ih he' with hnone | ⟨x, hx⟩
      · have hg' : groupOf m d' = none := hcopy.type.symm.trans hnone
        rcases emits_element hcopy hg' he' with ⟨-, h⟩ | ⟨k, h⟩
        · exact ⟨_, h⟩
        · exact ⟨_, h⟩
      · refine ⟨a ++ "::" ++ x, ?_⟩
        rw [hx, ha]
        simp only [String.append_assoc]

end

/-! ## Following the instances down -/

/-- What the resolver does with a statement of the scope. -/
def stepIn (fuel : Nat) : Option String → Resolver → GroupStmt → Option Resolver
  | none => processStmt fuel
  | some N => Resolver.inlineStmt (Resolver.processInstance fuel) N

/-- The resolver has gone through the scope on its way to `rf`, and every kernel whose name is
in the scope comes from one of its instances. -/
structure Traced (m : Module) (rf : Resolver) (N : Option String) (stmts : List GroupStmt) :
    Prop where
  run : ∃ fuel r r', Tables m r ∧ stmts.foldlM (stepIn fuel N) r = some r' ∧
    r'.graph.edges ⊆ rf.graph.edges
  owns : ∀ k ∈ rf.graph.kernels, ∀ x, k.name = qualify N x →
    ∃ d, .instanceDecl d ∈ stmts ∧ ∃ copy fuel, CopyIn N d copy ∧ Emits m fuel copy k.name

/-- The path of a body is the name of no kernel. -/
def PathFree (rf : Resolver) : Option String → Prop
  | none => True
  | some N => ¬ Known rf N

section
variable {m : Module} {rf : Resolver} {N : Option String} {stmts : List GroupStmt}

theorem extends_stepIn {fuel : Nat} {r r' : Resolver} {s : GroupStmt}
    (h : stepIn fuel N r s = some r') : Extends r r' := by
  cases N with
  | none =>
    cases s with
    | instanceDecl d => exact extends_processInstance h
    | connectionDecl c =>
      cases h
      exact extends_addConnection c ""
  | some N =>
    have hinline : Resolver.inlineStmt (Resolver.processInstance fuel) N r s = some r' := h
    exact extends_inlineStmt (fun _ _ _ hp => extends_processInstance hp) hinline

/-- A kernel with a plain name in the scope is that of an element of the scope. -/
theorem Traced.element (h : Traced m rf N stmts) {n : String}
    (hn : Plain n) (hauto : ∀ type k, n ≠ autoName type k) {k : Kernel}
    (hk : k ∈ rf.graph.kernels) (hname : k.name = qualify N n) :
    ∃ d, .instanceDecl d ∈ stmts ∧ d.name = n ∧ d.anonymous = false ∧ groupOf m d = none := by
  obtain ⟨d, hd, copy, fuel, hcopy, he⟩ := h.owns k hk n hname
  rw [hname] at he
  cases hg : groupOf m d with
  | none =>
    rcases emits_element hcopy hg he with ⟨hanon, hq⟩ | ⟨i, hq⟩
    · exact ⟨d, hd, (qualify_inj hq).symm, hanon, hg⟩
    · exact absurd (qualify_inj hq) (hauto d.type i)
  | some g =>
    -- a group emits deeper names only
    rcases emits_deeper he with hnone | ⟨x, hx⟩
    · rw [hcopy.type, hg] at hnone
      cases hnone
    · rcases hcopy.name with hc | ⟨-, -, i, hc⟩
      · rw [hc] at hx
        exact absurd hx (qualify_ne_deeper hn)
      · rw [hc] at hx
        exact absurd hx (qualify_ne_deeper hn)

/-- No kernel has the name of a group instance. -/
theorem Traced.pathFree (h : Traced m rf N stmts) (hwf : WellNamed N stmts) {d : InstanceDecl}
    (hd : .instanceDecl d ∈ stmts) {g : ElementGroupDecl} (hg : groupOf m d = some g) :
    PathFree rf (some (qualify N d.name)) := by
  rintro (⟨k, hk, hname⟩ | hspecial)
  · obtain ⟨d', hd', hname', -, hg'⟩ :=
      h.element (hwf.plain d hd).1 (hwf.notAuto d hd) hk hname
    rw [hwf.distinct d' d hd' hd hname', hg] at hg'
    cases hg'
  · cases N with
    | none => exact hspecial (hwf.notSpecial d hd)
    | some N => exact hspecial (special_qualify N d.name)

/-- The resolver's name for an end of a connection in the scope. -/
def endName : Option String → String → String
  | none, n => n
  | some N, n => if n = "begin" ∨ n = "end" then N else qualify (some N) n

theorem nodeName_rewriteEnd (N : String) (e : ConnEnd) :
    (Resolver.rewriteEnd N (N ++ "::") e).nodeName = endName (some N) e.nodeName := by
  unfold Resolver.rewriteEnd
  by_cases hport : e.nodeName = "begin" ∨ e.nodeName = "end"
  · simp only [endName, if_pos hport]
  · simp only [endName, if_neg hport, qualify]

/-- The edge of a connection of the scope is in the graph. -/
theorem Traced.edge (h : Traced m rf N stmts) {c : ConnectionDecl}
    (hc : .connectionDecl c ∈ stmts) :
    ∃ e ∈ rf.graph.edges, e.srcKernel = endName N c.source.nodeName ∧
      e.dstKernel = endName N c.dest.nodeName := by
  obtain ⟨fuel, r, r', -, hrun, hsub⟩ := h.run
  obtain ⟨r₁, r₂, -, hstep, hafter⟩ := FoldM.step_of_mem Extends.refl Extends.trans
    (fun _ _ _ _ hs => extends_stepIn hs) hrun hc
  -- the statement adds the edge, and no later one removes it
  have hedge : ∃ e, e ∈ r₂.graph.edges ∧ e.srcKernel = endName N c.source.nodeName ∧
      e.dstKernel = endName N c.dest.nodeName := by
    cases N with
    | none =>
      cases hstep
      exact ⟨_, List.mem_append_right _ List.mem_cons_self, String.empty_append,
        String.empty_append⟩
    | some N =>
      cases hstep
      refine ⟨_, List.mem_append_right _ List.mem_cons_self, ?_, ?_⟩
      · rw [← nodeName_rewriteEnd]
        exact String.empty_append
      · rw [← nodeName_rewriteEnd]
        exact String.empty_append
  obtain ⟨e, he, hends⟩ := hedge
  exact ⟨e, hsub (hafter.edges he), hends⟩

/-- In an accepted module an end of a connection of the scope is an element of the scope, or at
the top a pseudo-element. -/
theorem Traced.end_known (h : Traced m rf N stmts) (hwf : WellNamed N stmts)
    (hpath : PathFree rf N)
    (hknown : ∀ e ∈ rf.graph.edges, Known rf e.srcKernel ∧ Known rf e.dstKernel)
    {c : ConnectionDecl} (hc : .connectionDecl c ∈ stmts) {n : String}
    (hn : n ∈ [c.source.nodeName, c.dest.nodeName]) :
    (N.isSome → n ≠ "begin" ∧ n ≠ "end") ∧
      ((N = none ∧ specialFromName n ≠ .none) ∨
        ∃ d, .instanceDecl d ∈ stmts ∧ d.name = n ∧ d.anonymous = false ∧ groupOf m d = none) := by
  obtain ⟨e, he, hsrc, hdst⟩ := h.edge hc
  obtain ⟨hplain, hauto⟩ := hwf.ends c hc n hn
  have hend : Known rf (endName N n) := by
    obtain ⟨hksrc, hkdst⟩ := hknown e he
    simp only [List.mem_cons, List.not_mem_nil, or_false] at hn
    rcases hn with rfl | rfl
    · rw [← hsrc]
      exact hksrc
    · rw [← hdst]
      exact hkdst
  cases N with
  | none =>
    refine ⟨fun hsome => absurd hsome Bool.false_ne_true, ?_⟩
    rcases hend with ⟨k, hk, hname⟩ | hspecial
    · exact Or.inr (h.element hplain hauto hk hname)
    · exact Or.inl ⟨rfl, hspecial⟩
  | some N =>
    -- a port of the body would be the path, and no kernel is named so
    have hnot : ¬ (n = "begin" ∨ n = "end") := by
      intro hport
      rw [endName, if_pos hport] at hend
      exact hpath hend
    rw [endName, if_neg hnot] at hend
    refine ⟨fun _ => not_or.mp hnot, Or.inr ?_⟩
    rcases hend with ⟨k, hk, hname⟩ | hspecial
    · exact h.element hplain hauto hk hname
    · exact absurd (special_qualify N n) hspecial

theorem namesGroup_eq_false {n : String}
    (h : ∀ d, .instanceDecl d ∈ stmts → d.name = n → groupOf m d = none) :
    namesGroup m stmts n = false := by
  unfold namesGroup
  rw [List.any_eq_false]
  intro s hs
  cases s with
  | connectionDecl c => exact Bool.false_ne_true
  | instanceDecl d =>
    intro htrue
    obtain ⟨hname, hsome⟩ := Bool.and_eq_true_iff.mp htrue
    rw [h d hs (by simpa using hname)] at hsome
    cases hsome

theorem named_eq_true {d : InstanceDecl} (hd : .instanceDecl d ∈ stmts) :
    named stmts d.name = true :=
  List.any_eq_true.mpr ⟨_, hd, by simp⟩

/-- **A scope of an accepted module meets the condition.** -/
theorem Traced.scopeOk (h : Traced m rf N stmts) (hwf : WellNamed N stmts)
    (hpath : PathFree rf N)
    (hknown : ∀ e ∈ rf.graph.edges, Known rf e.srcKernel ∧ Known rf e.dstKernel) :
    ScopeOk m N stmts where
  ends := by
    intro c hc n hn
    obtain ⟨hports, hend⟩ := h.end_known hwf hpath hknown hc hn
    constructor
    · apply namesGroup_eq_false
      intro d hd hname
      -- the end is a pseudo-element or an element, and the instance of its name is the same one
      rcases hend with ⟨-, hspecial⟩ | ⟨d', hd', hname', -, hg⟩
      · rw [← hname] at hspecial
        exact absurd (hwf.notSpecial d hd) hspecial
      · rw [hwf.distinct d d' hd hd' (hname.trans hname'.symm)]
        exact hg
    · intro hsome
      obtain ⟨hbegin, hend'⟩ := hports hsome
      refine ⟨hbegin, hend', ?_⟩
      rcases hend with ⟨rfl, -⟩ | ⟨d, hd, rfl, -, -⟩
      · cases hsome
      · exact named_eq_true hd
  named := by
    intro hsome d hd
    cases hanon : d.anonymous with
    | false => rfl
    | true =>
      -- an anonymous instance would be the end of an edge without a kernel
      obtain ⟨c, hc, hn⟩ := hwf.used hsome d hd hanon
      obtain ⟨-, ⟨rfl, -⟩ | ⟨d', hd', hname, hanon', -⟩⟩ := h.end_known hwf hpath hknown hc hn
      · cases hsome
      · rw [hwf.distinct d' d hd' hd hname, hanon] at hanon'
        cases hanon'

/-- The kernels inside a group instance come from its body. -/
theorem Traced.body (h : Traced m rf N stmts) (hwf : WellNamed N stmts) (hok : ScopeOk m N stmts)
    {d : InstanceDecl} (hd : .instanceDecl d ∈ stmts) {g : ElementGroupDecl}
    (hg : groupOf m d = some g) : Traced m rf (some (qualify N d.name)) g.body where
  run := by
    obtain ⟨fuel, r, r', htables, hrun, hsub⟩ := h.run
    obtain ⟨r₁, r₂, hbefore, hstep, hafter⟩ := FoldM.step_of_mem Extends.refl Extends.trans
      (fun _ _ _ _ hs => extends_stepIn hs) hrun hd
    -- what is processed is the instance with the qualified name
    have hcopy : ∃ r₀ copy, Extends r₁ r₀ ∧ copy.name = qualify N d.name ∧
        groupOf m copy = some g ∧ Resolver.processInstance fuel r₀ copy = some r₂ := by
      cases N with
      | none => exact ⟨r₁, d, Extends.refl r₁, rfl, hg, hstep⟩
      | some N =>
        have hcopy : CopyIn (some N) d (r₁.prefixInstance (N ++ "::") d).1 := ⟨r₁, rfl⟩
        refine ⟨_, _, extends_prefixInstance (N ++ "::") d, ?_, hcopy.type.trans hg, hstep⟩
        rcases hcopy.name with hname | ⟨hanon, -, -⟩
        · exact hname
        · rw [hok.named rfl d hd] at hanon
          cases hanon
    obtain ⟨r₀, copy, hext, hname, hg', hprocess⟩ := hcopy
    have htables₀ := (htables.extends hbefore).extends hext
    cases fuel with
    | zero => cases hprocess
    | succ fuel =>
      rw [groupOf_eq_some htables₀ copy hg', Resolver.inlineGroup, hname] at hprocess
      exact ⟨fuel, r₀, r₂, htables₀, hprocess, List.Subset.trans hafter.edges hsub⟩
  owns := by
    intro k hk x hname
    have hdeep : k.name = qualify N d.name ++ "::" ++ x := hname
    obtain ⟨hplain, -⟩ := hwf.plain d hd
    obtain ⟨d₂, hd₂, copy, fuel, hcopy, he⟩ :=
      h.owns k hk _ (hdeep.trans (qualify_append N d.name x))
    obtain ⟨hplain₂, htype₂⟩ := hwf.plain d₂ hd₂
    cases hg₂ : groupOf m d₂ with
    | none =>
      -- an element emits no name this deep
      rcases emits_element hcopy hg₂ he with ⟨-, hq⟩ | ⟨i, hq⟩
      · exact absurd (hq.symm.trans hdeep) (qualify_ne_deeper hplain₂)
      · exact absurd (hq.symm.trans hdeep) (qualify_ne_deeper (plain_autoName htype₂ i))
    | some g₂ =>
      rcases emits_deeper he with hnone | ⟨y, hy⟩
      · rw [hcopy.type, hg₂] at hnone
        cases hnone
      · rcases hcopy.name with hc | ⟨-, -, i, hc⟩
        · -- the instance that the name leads to is `d` itself
          rw [hc] at hy
          have hsame := deeper_inj hplain₂ hplain (hy.symm.trans hdeep)
          obtain rfl := hwf.distinct d₂ d hd₂ hd hsame
          cases fuel with
          | zero => exact he.elim
          | succ fuel =>
            unfold Emits at he
            rw [hcopy.type, hg] at he
            obtain ⟨d', hd', copy', hcopy', he'⟩ := he
            rw [hc] at hcopy'
            exact ⟨d', hd', copy', fuel, hcopy', he'⟩
        · rw [hc] at hy
          have hsame := deeper_inj (plain_autoName htype₂ i) hplain (hy.symm.trans hdeep)
          exact absurd hsame.symm (hwf.notAuto d hd d₂.type i)

end

/-! ## The condition is exact -/

/-- **Every scope of an accepted module meets the condition.** Induction on the scope: a body is
reached through a scope that meets it. -/
theorem inlinable_of_accepted {m : Module} (hwf : AllWellNamed m) {diags d : DiagnosticEngine}
    {g : Graph} (h : Resolves m diags (true, d, g)) : Inlinable m := by
  obtain ⟨fuel, hfuel⟩ := h
  obtain ⟨rf, hrun, hknown⟩ := known_of_accepted hfuel
  have htables := tables_start m diags
  rw [processTop_topScope] at hrun
  have htop : Traced m rf none (topScope m) := by
    refine ⟨⟨fuel, _, rf, htables, hrun, List.Subset.refl _⟩, fun k hk x _ => ?_⟩
    -- every kernel comes from an instance at the top
    have hnew := kernels_scope (P := fun k => ∃ d, .instanceDecl d ∈ topScope m ∧
        ∃ copy fuel, CopyIn none d copy ∧ Emits m fuel copy k.name)
      (fun b s c hs => extends_stepIn (N := none) hs) ?_ hrun htables hk
    · rw [graph_collect] at hnew
      exact hnew.resolve_left List.not_mem_nil
    · intro b s hs c hb hstep k hk
      cases s with
      | instanceDecl d =>
        rcases kernels_processInstance hb hstep hk with hk | hk
        · exact Or.inl hk
        · exact Or.inr ⟨d, hs, d, fuel, rfl, hk⟩
      | connectionDecl c =>
        cases hstep
        exact Or.inl hk
  -- the path of a body is free because its scope meets the condition
  suffices hall : ∀ N stmts, Scope m N stmts →
      Traced m rf N stmts ∧ PathFree rf N from
    fun N stmts hscope =>
      (hall N stmts hscope).1.scopeOk (hwf N stmts hscope) (hall N stmts hscope).2 hknown
  intro N stmts hscope
  induction hscope with
  | top => exact ⟨htop, trivial⟩
  | group hparent hd hg ih =>
    obtain ⟨htraced, hpath⟩ := ih
    have hok := htraced.scopeOk (hwf _ _ hparent) hpath hknown
    exact ⟨htraced.body (hwf _ _ hparent) hok hd hg, htraced.pathFree (hwf _ _ hparent) hd hg⟩

theorem SameGraph.refl (m : Module) (g : Graph) : SameGraph m g g := by
  have hk : renameKernel id = id := rfl
  have he : renameEdge id = id := rfl
  exact ⟨id, Function.injective_id, fun _ _ => rfl, by rw [hk, List.map_id],
    by rw [he, List.map_id]⟩

def connect (a b : String) : ConnectionDecl where
  source := { nodeName := a }
  dest := { nodeName := b }

def passElement : ElementDecl := { name := "Pass", nInPorts := 1, nOutPorts := 1 }

/-- A closed body. -/
def ring : List GroupStmt := [.instanceDecl { type := "Pass", name := "a" },
  .instanceDecl { type := "Pass", name := "b" }, .connectionDecl (connect "a" "b")]

def closedModule : Module where
  stmts := [.elementDecl passElement, .elementGroupDecl { name := "Ring", body := ring },
    .instanceDecl { type := "Ring", name := "g" }]

/-- A group in the way of a connection. -/
def throughModule : Module where
  stmts := [.elementDecl passElement,
    .elementGroupDecl
      { name := "Wrap"
        body := [.instanceDecl { type := "Pass", name := "y" },
          .connectionDecl (connect "begin" "y"), .connectionDecl (connect "y" "end")] },
    .instanceDecl { type := "Pass", name := "x" }, .instanceDecl { type := "Wrap", name := "g" },
    .instanceDecl { type := "Pass", name := "z" },
    .connectionDecl (connect "x" "g"), .connectionDecl (connect "g" "z")]

theorem ne_autoName {n : String} (h : '_' ∉ n.toList) (type : String) (k : Nat) :
    n ≠ autoName type k := by
  rintro rfl
  apply h
  simp [autoName, numbered, String.toList_append]

theorem scope_closedModule {N : Option String} {stmts : List GroupStmt}
    (h : Scope closedModule N stmts) :
    N = none ∧ stmts = [.instanceDecl { type := "Ring", name := "g" }] ∨
      N = some "g" ∧ stmts = ring := by
  induction h with
  | top => exact Or.inl ⟨rfl, rfl⟩
  | group hscope hd hg ih =>
    rcases ih with ⟨rfl, rfl⟩ | ⟨rfl, rfl⟩
    · cases List.mem_singleton.mp hd
      right
      cases hg
      exact ⟨rfl, rfl⟩
    · simp only [ring, List.mem_cons, List.not_mem_nil, or_false] at hd
      rcases hd with hd | hd | hd <;> cases hd <;> cases hg

theorem wellNamed_closedModule : AllWellNamed closedModule := by
  intro N stmts hscope
  have hauto : ∀ n ∈ ["g", "a", "b"], ∀ type k, n ≠ autoName type k := by
    intro n hn
    apply ne_autoName
    revert n
    decide
  rcases scope_closedModule hscope with ⟨rfl, rfl⟩ | ⟨rfl, rfl⟩
  · have hd : ∀ d,
        GroupStmt.instanceDecl d ∈ [GroupStmt.instanceDecl { type := "Ring", name := "g" }]
        → d = { type := "Ring", name := "g" } := by
      intro d hd
      simpa using hd
    constructor
    · intro d h; rw [hd d h]; decide
    · intro d d' h h' _; rw [hd d h, hd d' h']
    · intro d h; rw [hd d h]; exact hauto _ (by decide)
    · intro d h; rw [hd d h]; decide
    · intro c h; simp at h
    · intro h; cases h
  · have hd : ∀ d, GroupStmt.instanceDecl d ∈ ring →
        d = { type := "Pass", name := "a" } ∨ d = { type := "Pass", name := "b" } := by
      intro d hd
      simpa [ring] using hd
    constructor
    · intro d h; rcases hd d h with rfl | rfl <;> decide
    · intro d d' h h'
      rcases hd d h with rfl | rfl <;> rcases hd d' h' with rfl | rfl <;> decide
    · intro d h; rcases hd d h with rfl | rfl <;> exact hauto _ (by decide)
    · intro d h; rcases hd d h with rfl | rfl <;> decide
    · intro c h n hn
      obtain rfl : c = connect "a" "b" := by simpa [ring] using h
      simp only [connect, List.mem_cons, List.not_mem_nil, or_false] at hn
      rcases hn with rfl | rfl
      · exact ⟨by decide, hauto _ (by decide)⟩
      · exact ⟨by decide, hauto _ (by decide)⟩
    · intro _ d h hanon; rcases hd d h with rfl | rfl <;> cases hanon

end OpenClickNP
