import OpenClickNP.Compiler.InlineInstances

/-!
# What the resolver reports

The errors of the resolver are about a second declaration of a name, an instance of a type that is
not declared, and a node that is not there. Each has the range of the statement it is about, and
so have the kernels and edges of the graph (`sourced_resolve`).
-/

namespace OpenClickNP

open Ast Eg HandInline

/-- The range of an instance of the module, or of one of its groups. -/
def InstanceSrc (m : Module) (src : SourceRange) : Prop :=
  ∃ d, d.src = src ∧ (.instanceDecl d ∈ m.stmts ∨
    ∃ g, .elementGroupDecl g ∈ m.stmts ∧ .instanceDecl d ∈ g.body)

/-- The range of a connection of the module, or of one of its groups. -/
def ConnectionSrc (m : Module) (src : SourceRange) : Prop :=
  ∃ c, c.src = src ∧ (.connectionDecl c ∈ m.stmts ∨
    ∃ g, .elementGroupDecl g ∈ m.stmts ∧ .connectionDecl c ∈ g.body)

/-- The errors of the resolver. -/
inductive Fault (m : Module) : Diagnostic → Prop
  | element (d : ElementDecl) (hd : .elementDecl d ∈ m.stmts) :
    Fault m ⟨.error, "duplicate \x60.element " ++ d.name ++ "\x60", d.src⟩
  | group (d : ElementGroupDecl) (hd : .elementGroupDecl d ∈ m.stmts) :
    Fault m ⟨.error, "duplicate \x60.element_group " ++ d.name ++ "\x60", d.src⟩
  | type (n : String) {src : SourceRange} (hsrc : InstanceSrc m src) :
    Fault m ⟨.error, "unknown element or group type \x60" ++ n ++ "\x60", src⟩
  | node (n : String) {msg : String} {src : SourceRange} (hmsg : AboutNode n msg)
    (hsrc : ConnectionSrc m src) : Fault m ⟨.error, msg, src⟩

section

variable {m : Module} {r r' r'' : Resolver} {d : InstanceDecl} {g : ElementGroupDecl}

/-! ## The declarations -/

/-- The groups of the table are declared. -/
theorem mem_groupDecls (stmts : List TopStmt) (r : Resolver) :
    ∀ p ∈ (stmts.foldl Resolver.collectDecl r).groupDecls,
      p ∈ r.groupDecls ∨ .elementGroupDecl p.2 ∈ stmts := by
  induction stmts generalizing r with
  | nil => exact fun p hp => .inl hp
  | cons s stmts ih =>
    intro p hp
    rcases ih (r.collectDecl s) p hp with hp | hp
    · cases s with
      | elementGroupDecl g =>
        simp only [Resolver.collectDecl, Resolver.collectGroup] at hp
        split at hp
        · exact .inl hp
        · rcases List.mem_append.mp hp with hp | hp
          · exact .inl hp
          · rw [List.mem_singleton.mp hp]
            exact .inr List.mem_cons_self
      | elementDecl e =>
        simp only [Resolver.collectDecl, Resolver.collectElement] at hp
        split at hp <;> exact .inl hp
      | _ => exact .inl hp
    · exact .inr (List.mem_cons_of_mem _ hp)

theorem mem_of_groupOf (h : groupOf m d = some g) : .elementGroupDecl g ∈ m.stmts := by
  unfold groupOf at h
  split at h
  · cases h
  · obtain ⟨l₁, l₂, hl, -⟩ := List.lookup_eq_some_iff.mp h
    have hmem : (d.type, g) ∈ (declared m).groupDecls := by
      rw [hl]
      exact List.mem_append_right _ List.mem_cons_self
    rcases mem_groupDecls m.stmts {} _ hmem with hmem | hmem
    · cases hmem
    · exact hmem

theorem groupOf_prefixInstance (r : Resolver) (pfx : String) (d : InstanceDecl) :
    groupOf m (r.prefixInstance pfx d).1 = groupOf m d := by
  unfold Resolver.prefixInstance
  split <;> rfl

theorem src_prefixInstance (r : Resolver) (pfx : String) (d : InstanceDecl) :
    (r.prefixInstance pfx d).1.src = d.src := by
  unfold Resolver.prefixInstance
  split <;> rfl

/-! ## The steps -/

/-- What comes from `r` to `r'` is about statements of the module. -/
structure Sourced (m : Module) (r r' : Resolver) : Prop where
  diags : ∀ x ∈ r'.diags.diags, x ∈ r.diags.diags ∨ Fault m x
  kernels : ∀ k ∈ r'.graph.kernels, k.src ∈ r.graph.kernels.map Kernel.src ∨
    InstanceSrc m k.src ∨ k.src = {}
  edges : ∀ e ∈ r'.graph.edges, e ∈ r.graph.edges ∨ ConnectionSrc m e.src

theorem Sourced.refl (m : Module) (r : Resolver) : Sourced m r r :=
  ⟨fun _ => .inl, fun _ hk => .inl (List.mem_map_of_mem hk), fun _ => .inl⟩

theorem Sourced.trans (h : Sourced m r r') (h' : Sourced m r' r'') : Sourced m r r'' where
  diags x hx := (h'.diags x hx).elim (h.diags x) .inr
  kernels k hk := by
    rcases h'.kernels k hk with hold | hnew
    · obtain ⟨k₀, hk₀, hsrc⟩ := List.mem_map.mp hold
      rw [← hsrc]
      exact h.kernels k₀ hk₀
    · exact .inr hnew
  edges e he := (h'.edges e he).elim (h.edges e) .inr

/-- A step that changes neither the diagnostics nor the graph. -/
theorem Sourced.of_eq (hdiags : r'.diags = r.diags) (hgraph : r'.graph = r.graph) :
    Sourced m r r' where
  diags _ hx := .inl (hdiags ▸ hx)
  kernels _ hk := .inl (List.mem_map_of_mem (hgraph ▸ hk))
  edges _ he := .inl (hgraph ▸ he)

theorem sourced_error {src : SourceRange} {msg : String} (h : Fault m ⟨.error, msg, src⟩) :
    Sourced m r (r.error src msg) where
  diags x hx := by
    rcases List.mem_append.mp hx with hx | hx
    · exact .inl hx
    · rw [List.mem_singleton.mp hx]
      exact .inr h
  kernels _ hk := .inl (List.mem_map_of_mem hk)
  edges _ := .inl

theorem sourced_collect (stmts : List TopStmt) (hstmts : stmts ⊆ m.stmts) (r : Resolver) :
    Sourced m r (stmts.foldl Resolver.collectDecl r) := by
  induction stmts generalizing r with
  | nil => exact Sourced.refl m r
  | cons s stmts ih =>
    have hs : s ∈ m.stmts := hstmts List.mem_cons_self
    have hstep : Sourced m r (r.collectDecl s) := by
      cases s with
      | elementDecl d =>
        simp only [Resolver.collectDecl, Resolver.collectElement]
        split
        · exact sourced_error (.element d hs)
        · exact .of_eq rfl rfl
      | elementGroupDecl d =>
        simp only [Resolver.collectDecl, Resolver.collectGroup]
        split
        · exact sourced_error (.group d hs)
        · exact .of_eq rfl rfl
      | _ => exact Sourced.refl m r
    exact hstep.trans (ih (fun x hx => hstmts (List.mem_cons_of_mem _ hx)) _)

theorem sourced_prefixInstance (pfx : String) (d : InstanceDecl) :
    Sourced m r (r.prefixInstance pfx d).2 := by
  unfold Resolver.prefixInstance
  split <;> exact .of_eq rfl rfl

theorem sourced_addConnection {c : ConnectionDecl} (hc : ConnectionSrc m c.src) :
    Sourced m r (r.addConnection c "") where
  diags _ := .inl
  kernels _ hk := .inl (List.mem_map_of_mem hk)
  edges e he := by
    rcases List.mem_append.mp he with he | he
    · exact .inl he
    · rw [List.mem_singleton.mp he]
      exact .inr hc

theorem sourced_pushKernel {k : Kernel} (hk : InstanceSrc m k.src) :
    Sourced m r (r.pushKernel k) where
  diags _ := .inl
  kernels k' hk' := by
    rcases List.mem_append.mp hk' with hk' | hk'
    · exact .inl (List.mem_map_of_mem hk')
    · rw [List.mem_singleton.mp hk']
      exact .inr (.inl hk)
  edges _ := .inl

theorem sourced_emitInstance (hd : InstanceSrc m d.src) : Sourced m r (emitInstance r d) := by
  unfold emitInstance
  split
  · unfold Resolver.emitKernelFromInstance
    split
    · have hname : Sourced m r (r.makeAnonName d.type).2 :=
        .of_eq rfl rfl
      exact hname.trans (sourced_pushKernel hd)
    · exact sourced_pushKernel hd
  · exact sourced_error (.type d.type hd)

/-- **An instance.** Induction on the nesting of the groups. -/
theorem sourced_processInstance {fuel : Nat} (hr : Tables m r) (hd : InstanceSrc m d.src)
    (h : Resolver.processInstance fuel r d = some r') : Sourced m r r' := by
  induction fuel generalizing r d r' with
  | zero => cases h
  | succ fuel ih =>
    cases hg : groupOf m d with
    | none =>
      rw [groupOf_eq_none hr d hg] at h
      cases h
      exact sourced_emitInstance hd
    | some g =>
      rw [groupOf_eq_some hr d hg] at h
      have hmem := mem_of_groupOf hg
      -- the tables stay, so every statement of the body finds those of the module
      have hbody : Extends r r' ∧ (Tables m r → Sourced m r r') := by
        refine FoldM.rel (R := fun b c => Extends b c ∧ (Tables m b → Sourced m b c))
          (fun b => ⟨Extends.refl b, fun _ => Sourced.refl m b⟩)
          (fun a b c hab hbc => ⟨hab.1.trans _ _ _ hbc.1, fun ha =>
            (hab.2 ha).trans (hbc.2 (ha.extends hab.1))⟩) (fun b s hs c hstep => ?_) h
        refine ⟨extends_inlineStmt (fun _ _ _ hp => extends_processInstance hp) hstep, fun hb => ?_⟩
        cases s with
        | instanceDecl d' =>
          have hsrc : InstanceSrc m (b.prefixInstance (d.name ++ "::") d').1.src := by
            rw [src_prefixInstance]
            exact ⟨d', rfl, .inr ⟨g, hmem, hs⟩⟩
          exact (sourced_prefixInstance _ d').trans
            (ih (hb.extends (extends_prefixInstance _ d')) hsrc hstep)
        | connectionDecl c =>
          cases hstep
          exact sourced_addConnection ⟨c, rfl, .inr ⟨g, hmem, hs⟩⟩
      exact hbody.2 hr

theorem extends_processTop {fuel : Nat} {s : TopStmt}
    (h : Resolver.processTop fuel r s = some r') : Extends r r' := by
  cases s with
  | instanceDecl d => exact extends_processInstance h
  | connectionDecl c =>
    cases h
    exact extends_addConnection _ ""
  | _ =>
    cases h
    exact Extends.refl r

theorem sourced_processTop {fuel : Nat} {s : TopStmt} (hr : Tables m r) (hs : s ∈ m.stmts)
    (h : Resolver.processTop fuel r s = some r') : Sourced m r r' := by
  cases s with
  | instanceDecl d => exact sourced_processInstance hr ⟨d, rfl, .inl hs⟩ h
  | connectionDecl c =>
    cases h
    exact sourced_addConnection ⟨c, rfl, .inl hs⟩
  | _ =>
    cases h
    exact Sourced.refl m r

/-! ## The pass -/

/-- The check of one end of an edge. -/
theorem mem_checkEnd {g : Graph} {d : DiagnosticEngine} {n msg : String} {src : SourceRange}
    (hmsg : AboutNode n msg) (hsrc : ConnectionSrc m src) :
    ∀ x ∈ (if Resolver.hasKernel g n then d else d.error src msg).diags,
      x ∈ d.diags ∨ Fault m x := by
  intro x hx
  split at hx
  · exact .inl hx
  · rcases List.mem_append.mp hx with hx | hx
    · exact .inl hx
    · rw [List.mem_singleton.mp hx]
      exact .inr (.node n hmsg hsrc)

theorem mem_checkEnds {g : Graph} {es : List Edge} (hes : ∀ e ∈ es, ConnectionSrc m e.src)
    (d : DiagnosticEngine) :
    ∀ x ∈ (es.foldl (Resolver.checkEnds g) d).diags, x ∈ d.diags ∨ Fault m x := by
  induction es generalizing d with
  | nil => exact fun x hx => .inl hx
  | cons e es ih =>
    have he := hes e List.mem_cons_self
    intro x hx
    rcases ih (fun e he => hes e (List.mem_cons_of_mem _ he)) _ x hx with hx | hx
    · rcases mem_checkEnd (.inr rfl) he x hx with hx | hx
      · exact mem_checkEnd (.inl rfl) he x hx
      · exact .inr hx
    · exact .inr hx

/-- The pseudo-elements have no range. -/
theorem src_addSpecial (ns : List String) (g : Graph) :
    ∀ k ∈ (ns.foldl Resolver.addSpecial g).kernels,
      k.src ∈ g.kernels.map Kernel.src ∨ k.src = {} := by
  induction ns generalizing g with
  | nil => exact fun k hk => .inl (List.mem_map_of_mem hk)
  | cons n ns ih =>
    have hone : ∀ k ∈ (Resolver.addSpecial g n).kernels,
        k.src ∈ g.kernels.map Kernel.src ∨ k.src = {} := by
      intro k hk
      unfold Resolver.addSpecial at hk
      repeat' split at hk
      · exact .inl (List.mem_map_of_mem hk)
      · exact .inl (List.mem_map_of_mem hk)
      · rcases List.mem_append.mp hk with hk | hk
        · exact .inl (List.mem_map_of_mem hk)
        · rw [List.mem_singleton.mp hk]
          exact .inr rfl
    intro k hk
    rcases ih _ k hk with hold | hnew
    · obtain ⟨k₀, hk₀, hsrc⟩ := List.mem_map.mp hold
      rw [← hsrc]
      exact hone k₀ hk₀
    · exact .inr hnew

theorem src_assignSignalSlots (r : Resolver) :
    r.assignSignalSlots.graph.kernels.map Kernel.src = r.graph.kernels.map Kernel.src := by
  have hslots := map_noSlot_assignSlot r.graph.kernels [] 0 0x1000
  rw [List.map_nil, List.nil_append] at hslots
  have hsrc := congrArg (List.map Kernel.src) hslots
  rwa [List.map_map, List.map_map] at hsrc

/-- **What the resolver leaves behind.** -/
theorem sourced_resolve {fuel : Nat} (diags : DiagnosticEngine)
    (h : Resolver.resolve fuel m { diags := diags } = some r') :
    Sourced m { diags := diags } r' := by
  obtain ⟨rf, hrf, hout⟩ := Option.bind_eq_some_iff.mp h
  have hstart := tables_start m diags
  have hrun : Sourced m { diags := diags } rf := by
    refine (sourced_collect m.stmts (List.Subset.refl _) _).trans ?_
    have hstmts := FoldM.rel (R := fun b c => Extends b c ∧ (Tables m b → Sourced m b c))
      (fun b => ⟨Extends.refl b, fun _ => Sourced.refl m b⟩)
      (fun a b c hab hbc => ⟨hab.1.trans _ _ _ hbc.1, fun ha =>
        (hab.2 ha).trans (hbc.2 (ha.extends hab.1))⟩)
      (fun b s hs c hstep => ⟨extends_processTop hstep, fun hb => sourced_processTop hb hs hstep⟩)
      hrf
    exact hstmts.2 hstart
  cases hout
  have hedges : ∀ e ∈ rf.graph.edges, ConnectionSrc m e.src := fun e he =>
    (hrun.edges e he).resolve_left List.not_mem_nil
  have hkernels := src_addSpecial (Resolver.referenced rf.graph.edges) rf.graph
  constructor
  · intro x hx
    have hx' : x ∈ (((Resolver.referenced rf.graph.edges).foldl Resolver.addSpecial
        rf.graph).edges.foldl (Resolver.checkEnds
          ((Resolver.referenced rf.graph.edges).foldl Resolver.addSpecial rf.graph))
            rf.diags).diags := hx
    rw [(foldl_addSpecial _ _).1] at hx'
    rcases mem_checkEnds hedges rf.diags x hx' with hx' | hx'
    · exact hrun.diags x hx'
    · exact .inr hx'
  · intro k hk
    have hmem : k.src ∈ (rf.synthesizeSpecials.graph.kernels).map Kernel.src := by
      rw [← src_assignSignalSlots]
      exact List.mem_map_of_mem hk
    obtain ⟨k₁, hk₁, hsrc₁⟩ := List.mem_map.mp hmem
    rw [← hsrc₁]
    rcases hkernels k₁ hk₁ with hold | hnew
    · obtain ⟨k₀, hk₀, hsrc₀⟩ := List.mem_map.mp hold
      rw [← hsrc₀]
      exact hrun.kernels k₀ hk₀
    · exact .inr (.inr hnew)
  · intro e he
    have he' : e ∈ ((Resolver.referenced rf.graph.edges).foldl Resolver.addSpecial
        rf.graph).edges := he
    rw [(foldl_addSpecial _ _).1] at he'
    exact hrun.edges e he'

end

end OpenClickNP
