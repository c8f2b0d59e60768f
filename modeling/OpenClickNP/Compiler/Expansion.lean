import OpenClickNP.Compiler.KernelNames

/-!
# The graph of a module

The statements of a module with every group instance replaced by its body, and from them the graph
in closed form: the kernels are those of the elements and the edges those of the connections, both
in the order of the expansion (`graph_of_accepted`).
-/

namespace OpenClickNP

open Ast Eg QualifiedName HandInline

/-! ## The expanded module -/

/-- An element of the expanded module, under its qualified name. -/
structure PlacedElement where
  name : String
  decl : ElementDecl
  inst : InstanceDecl

def PlacedElement.occurrence (p : PlacedElement) : Occurrence where
  name := p.name
  anonymous := p.inst.anonymous

def PlacedElement.kernel (p : PlacedElement) : Kernel := Resolver.kernelOf p.decl p.inst p.name

/-- A statement of the expanded module. -/
inductive Site where
  | element (p : PlacedElement)
  | connection (c : ConnectionDecl)

namespace Site

def element? : Site → Option PlacedElement
  | element p => some p
  | connection _ => none

def connection? : Site → Option ConnectionDecl
  | element _ => none
  | connection c => some c

end Site

def elements (ss : List Site) : List PlacedElement := ss.filterMap Site.element?

def connections (ss : List Site) : List ConnectionDecl := ss.filterMap Site.connection?

/-- A connection of the scope `N`. -/
def placedConnection : Option String → ConnectionDecl → ConnectionDecl
  | none, c => c
  | some N, c =>
    { c with
      source := Resolver.rewriteEnd N (N ++ "::") c.source
      dest := Resolver.rewriteEnd N (N ++ "::") c.dest }

def sitesAll (N : Option String) (place : Nat → InstanceDecl → Option (List Site × Nat)) :
    Nat → List GroupStmt → Option (List Site × Nat)
  | k, [] => some ([], k)
  | k, .connectionDecl c :: ss => do
    let (rest, k) ← sitesAll N place k ss
    pure (.connection (placedConnection N c) :: rest, k)
  | k, .instanceDecl d :: ss => do
    let (first, k) ← place k d
    let (rest, k) ← sitesAll N place k ss
    pure (first ++ rest, k)

/-- What an instance of the scope `N` stands for, when `k` names have been made up, and the number
of names made up after it. -/
def sites (m : Module) : Nat → Option String → Nat → InstanceDecl → Option (List Site × Nat)
  | 0, _, _, _ => none
  | fuel + 1, N, k, d =>
    match (declared m).elemDecls.lookup d.type with
    | some decl =>
      some ([.element { name := qualify N (ownName N true d k), decl := decl, inst := d }],
        nextAuto N true d k)
    | none =>
      match (declared m).groupDecls.lookup d.type with
      | some g =>
        let inner := some (qualify N (ownName N false d k))
        sitesAll inner (sites m fuel inner) (nextAuto N false d k) g.body
      | none => some ([], nextAuto N false d k)

def moduleSites (m : Module) (fuel : Nat) : Option (List Site) :=
  (sitesAll none (sites m fuel none) 0 (topScope m)).map Prod.fst

/-! ## Its elements -/

/-- The occurrences among the sites. -/
def occurrencesOf (out : List Site × Nat) : List Occurrence × Nat :=
  ((elements out.1).map (·.occurrence), out.2)

@[simp] theorem elements_append (ss ss' : List Site) :
    elements (ss ++ ss') = elements ss ++ elements ss' := List.filterMap_append

@[simp] theorem connections_append (ss ss' : List Site) :
    connections (ss ++ ss') = connections ss ++ connections ss' := List.filterMap_append

theorem occurrencesAll_eq {occ : Nat → InstanceDecl → Option (List Occurrence × Nat)}
    {N : Option String} {place : Nat → InstanceDecl → Option (List Site × Nat)}
    (h : ∀ k d, occ k d = (place k d).map occurrencesOf) (k : Nat) (ss : List GroupStmt) :
    occurrencesAll occ k ss = (sitesAll N place k ss).map occurrencesOf := by
  induction ss generalizing k with
  | nil => rfl
  | cons s ss ih =>
    cases s with
    | connectionDecl c =>
      unfold occurrencesAll sitesAll
      rw [ih]
      cases sitesAll N place k ss <;> rfl
    | instanceDecl d =>
      unfold occurrencesAll sitesAll
      rw [h]
      cases place k d with
      | none => rfl
      | some first =>
        simp only [Option.map_some, Option.bind_eq_bind, Option.bind_some, occurrencesOf, ih]
        cases sitesAll N place first.2 ss with
        | none => rfl
        | some rest => simp [occurrencesOf]

theorem occurrences_eq (m : Module) (fuel : Nat) (N : Option String) (k : Nat) (d : InstanceDecl) :
    occurrences m fuel N k d = (sites m fuel N k d).map occurrencesOf := by
  induction fuel generalizing N k d with
  | zero => rfl
  | succ fuel ih =>
    unfold occurrences sites
    cases (declared m).elemDecls.lookup d.type with
    | some decl => rfl
    | none =>
      cases (declared m).groupDecls.lookup d.type with
      | some g => exact occurrencesAll_eq (ih _) _ _
      | none => rfl

theorem moduleOccurrences_eq (m : Module) (fuel : Nat) :
    moduleOccurrences m fuel
      = (moduleSites m fuel).map fun ss => (elements ss).map (·.occurrence) := by
  unfold moduleOccurrences moduleSites
  rw [occurrencesAll_eq (occurrences_eq m fuel none), Option.map_map, Option.map_map]
  rfl

/-! ## One instance -/

section
variable {m : Module} {N : Option String} {d : InstanceDecl} {fuel k k' : Nat} {out : List Site}
variable {place : Nat → InstanceDecl → Option (List Site × Nat)} {ss : List GroupStmt}

/-- An element comes from an instance. -/
theorem mem_sitesAll (h : sitesAll N place k ss = some (out, k')) {p : PlacedElement}
    (hp : p ∈ elements out) :
    ∃ d i qs j, .instanceDecl d ∈ ss ∧ place i d = some (qs, j) ∧ p ∈ elements qs := by
  induction ss generalizing k out with
  | nil =>
    cases h
    cases hp
  | cons s ss ih =>
    cases s with
    | connectionDecl c =>
      obtain ⟨⟨rest, k₁⟩, hrest, h⟩ := Option.bind_eq_some_iff.mp h
      cases h
      obtain ⟨d, i, qs, j, hd, hplace⟩ := ih hrest hp
      exact ⟨d, i, qs, j, List.mem_cons_of_mem _ hd, hplace⟩
    | instanceDecl d =>
      obtain ⟨⟨first, k₁⟩, hfirst, h⟩ := Option.bind_eq_some_iff.mp h
      obtain ⟨⟨rest, k₂⟩, hrest, h⟩ := Option.bind_eq_some_iff.mp h
      cases h
      rw [elements_append] at hp
      rcases List.mem_append.mp hp with hp | hp
      · exact ⟨d, k, first, k₁, List.mem_cons_self, hfirst, hp⟩
      · obtain ⟨d', i, qs, j, hd, hplace⟩ := ih hrest hp
        exact ⟨d', i, qs, j, List.mem_cons_of_mem _ hd, hplace⟩

/-- An instance gives its elements. -/
theorem sitesAll_of_mem (h : sitesAll N place k ss = some (out, k'))
    (hd : .instanceDecl d ∈ ss) :
    ∃ i qs j, place i d = some (qs, j) ∧ elements qs ⊆ elements out := by
  induction ss generalizing k out with
  | nil => cases hd
  | cons s ss ih =>
    cases s with
    | connectionDecl c =>
      obtain ⟨⟨rest, k₁⟩, hrest, h⟩ := Option.bind_eq_some_iff.mp h
      cases h
      rcases List.mem_cons.mp hd with hd | hd
      · cases hd
      · obtain ⟨i, qs, j, hplace, hsub⟩ := ih hrest hd
        exact ⟨i, qs, j, hplace, hsub⟩
    | instanceDecl d' =>
      obtain ⟨⟨first, k₁⟩, hfirst, h⟩ := Option.bind_eq_some_iff.mp h
      obtain ⟨⟨rest, k₂⟩, hrest, h⟩ := Option.bind_eq_some_iff.mp h
      cases h
      rw [elements_append]
      rcases List.mem_cons.mp hd with hd | hd
      · cases hd
        exact ⟨k, first, k₁, hfirst, List.subset_append_left _ _⟩
      · obtain ⟨i, qs, j, hplace, hsub⟩ := ih hrest hd
        exact ⟨i, qs, j, hplace, fun p hp => List.mem_append_right _ (hsub hp)⟩

theorem sites_element {decl : ElementDecl}
    (hdecl : (declared m).elemDecls.lookup d.type = some decl) :
    sites m (fuel + 1) N k d
      = some ([.element { name := qualify N (ownName N true d k), decl := decl, inst := d }],
          nextAuto N true d k) := by
  unfold sites
  rw [hdecl]

theorem sites_group {g : ElementGroupDecl} (hg : groupOf m d = some g) :
    sites m (fuel + 1) N k d
      = sitesAll (some (qualify N (ownName N false d k)))
          (sites m fuel (some (qualify N (ownName N false d k)))) (nextAuto N false d k)
          g.body := by
  unfold groupOf at hg
  unfold sites
  cases helem : (declared m).elemDecls.lookup d.type with
  | some decl =>
    rw [helem] at hg
    cases hg
  | none =>
    rw [helem] at hg
    simp only [hg]

theorem sites_unknown (helem : (declared m).elemDecls.lookup d.type = none)
    (hg : groupOf m d = none) : sites m (fuel + 1) N k d = some ([], nextAuto N false d k) := by
  unfold groupOf at hg
  rw [helem] at hg
  unfold sites
  simp only [helem, show (declared m).groupDecls.lookup d.type = none from hg]

end

/-! ## What the resolver builds -/

/-- `r'` has the graph of `r` and what the sites add to it. -/
structure AddsSites (r r' : Resolver) (ss : List Site) : Prop where
  kernels : r'.graph.kernels = r.graph.kernels ++ (elements ss).map (·.kernel)
  edges : r'.graph.edges = r.graph.edges ++ (connections ss).map (Resolver.edgeOf · "")

section
variable {m : Module} {N : Option String} {r r' r'' : Resolver} {ss ss' : List Site}

theorem AddsSites.nil (h : r'.graph = r.graph) : AddsSites r r' [] where
  kernels := by rw [h]; exact (List.append_nil _).symm
  edges := by rw [h]; exact (List.append_nil _).symm

theorem AddsSites.append (h : AddsSites r r' ss) (h' : AddsSites r' r'' ss') :
    AddsSites r r'' (ss ++ ss') where
  kernels := by
    rw [h'.kernels, h.kernels, elements_append, List.map_append, List.append_assoc]
  edges := by
    rw [h'.edges, h.edges, connections_append, List.map_append, List.append_assoc]

theorem AddsSites.connection (r : Resolver) (c : ConnectionDecl) :
    AddsSites r (r.addConnection c "") [.connection c] where
  kernels := (List.append_nil _).symm
  edges := rfl

/-- An element, in whatever scope. -/
theorem addsSites_emitKernel (N : Option String) (r : Resolver) (d : InstanceDecl)
    (decl : ElementDecl) :
    AddsSites r ((placed N r d).2.emitKernelFromInstance decl (placed N r d).1 "")
      [.element {
        name := qualify N (ownName N true d r.anonCounter), decl := decl, inst := d }] := by
  obtain ⟨⟨ks, hks, hnames, -⟩, -⟩ := adds_emitKernel N r d decl
  obtain ⟨hkernels, -⟩ := kernels_emitKernel (placed N r d).2 decl (placed N r d).1
  obtain ⟨-, -, -, hgraph, -⟩ := placed_group N r d
  rw [hgraph] at hkernels
  obtain rfl := List.append_cancel_left (hks.symm.trans hkernels)
  have hname : (if (placed N r d).1.anonymous then
      autoName (placed N r d).1.type (placed N r d).2.anonCounter else (placed N r d).1.name)
      = qualify N (ownName N true d r.anonCounter) := (List.cons.inj hnames).1
  constructor
  · rw [hks]
    refine congrArg (fun k => r.graph.kernels ++ [k]) ?_
    -- the copy that reaches the resolver has another name only
    rw [hname]
    cases N with
    | none => rfl
    | some N =>
      cases h : d.anonymous <;> simp [placed, Resolver.prefixInstance, h, Resolver.kernelOf,
        PlacedElement.kernel]
  · rw [← hgraph]
    unfold Resolver.emitKernelFromInstance
    split <;> exact (List.append_nil _).symm

theorem addsSites_all {place : Nat → InstanceDecl → Option (List Site × Nat)}
    {step : Resolver → GroupStmt → Option Resolver} {stmts : List GroupStmt}
    (hext : ∀ b s c, step b s = some c → Extends b c)
    (hconn : ∀ b c b', step b (.connectionDecl c) = some b' →
      b' = b.addConnection (placedConnection N c) "")
    (hinst : ∀ b d b', Tables m b → step b (.instanceDecl d) = some b' →
      ∃ ss, place b.anonCounter d = some (ss, b'.anonCounter) ∧ AddsSites b b' ss)
    (hr : Tables m r) (h : stmts.foldlM step r = some r') :
    ∃ ss, sitesAll N place r.anonCounter stmts = some (ss, r'.anonCounter) ∧
      AddsSites r r' ss := by
  induction stmts generalizing r with
  | nil =>
    cases h
    exact ⟨[], rfl, AddsSites.nil rfl⟩
  | cons s stmts ih =>
    rw [List.foldlM_cons] at h
    obtain ⟨b, hb, hrest⟩ := Option.bind_eq_some_iff.mp h
    -- the tables of declarations stay as they are, and a connection makes up no name
    obtain ⟨rest, hplace, hadds⟩ := ih (hr.extends (hext r s b hb)) hrest
    cases s with
    | connectionDecl c =>
      obtain rfl := hconn r c b hb
      refine ⟨.connection (placedConnection N c) :: rest, ?_,
        (AddsSites.connection r (placedConnection N c)).append hadds⟩
      have hcounter : (r.addConnection (placedConnection N c) "").anonCounter = r.anonCounter := rfl
      rw [hcounter] at hplace
      simp only [sitesAll, hplace, Option.bind_eq_bind, Option.bind_some, Option.pure_def]
    | instanceDecl d =>
      obtain ⟨first, hfirst, hadds'⟩ := hinst r d b hr hb
      refine ⟨first ++ rest, ?_, hadds'.append hadds⟩
      simp only [sitesAll, hfirst, hplace, Option.bind_eq_bind, Option.bind_some, Option.pure_def]

/-- **An instance adds its sites.** Induction on the nesting of the groups. -/
theorem addsSites_processInstance {fuel : Nat} {d : InstanceDecl} (hr : Tables m r)
    (h : Resolver.processInstance fuel (placed N r d).2 (placed N r d).1 = some r') :
    ∃ ss, sites m fuel N r.anonCounter d = some (ss, r'.anonCounter) ∧ AddsSites r r' ss := by
  induction fuel generalizing N d r r' with
  | zero => cases h
  | succ fuel ih =>
    obtain ⟨htype, hname, hnext, hgraph, hext⟩ := placed_group N r d
    have htables := hr.extends hext
    unfold Resolver.processInstance at h
    unfold sites
    rw [htables.1, htables.2, htype] at h
    cases helem : (declared m).elemDecls.lookup d.type with
    | some decl =>
      rw [helem] at h
      cases h
      exact ⟨_, by rw [(adds_emitKernel N r d decl).2], addsSites_emitKernel N r d decl⟩
    | none =>
      rw [helem] at h
      cases hgroup : (declared m).groupDecls.lookup d.type with
      | none =>
        rw [hgroup] at h
        cases h
        exact ⟨[], by rw [← hnext]; rfl, AddsSites.nil hgraph⟩
      | some g =>
        rw [hgroup] at h
        simp only [Resolver.inlineGroup] at h
        rw [hname] at h
        -- the statements of the body are run in the scope of the instance
        have hinst : ∀ b d' b', Tables m b →
            Resolver.inlineStmt (Resolver.processInstance fuel)
              (qualify N (ownName N false d r.anonCounter)) b (.instanceDecl d') = some b' →
            ∃ ss, sites m fuel (some (qualify N (ownName N false d r.anonCounter)))
              b.anonCounter d' = some (ss, b'.anonCounter) ∧ AddsSites b b' ss :=
          fun b d' b' hb hs => ih (N := some _) hb hs
        obtain ⟨ss, hplace, hadds⟩ := addsSites_all
          (N := some (qualify N (ownName N false d r.anonCounter)))
          (fun b s c hs => extends_inlineStmt (fun _ _ _ hp => extends_processInstance hp) hs)
          (fun b c b' hs => by cases hs; rfl) hinst htables h
        rw [hnext] at hplace
        exact ⟨ss, hplace, (AddsSites.nil hgraph).append hadds⟩

/-- The graph before pseudo-elements and signal slots are added. -/
theorem addsSites_module {fuel : Nat} {diags : DiagnosticEngine} {rf : Resolver}
    (h : m.stmts.foldlM (Resolver.processTop fuel)
      (m.stmts.foldl Resolver.collectDecl { diags := diags }) = some rf) :
    ∃ ss, moduleSites m fuel = some ss ∧ rf.graph.kernels = (elements ss).map (·.kernel) ∧
      rf.graph.edges = (connections ss).map (Resolver.edgeOf · "") := by
  have htables := tables_start m diags
  rw [processTop_topScope] at h
  have hinst : ∀ b d b', Tables m b → processStmt fuel b (.instanceDecl d) = some b' →
      ∃ ss, sites m fuel none b.anonCounter d = some (ss, b'.anonCounter) ∧ AddsSites b b' ss :=
    fun b d b' hb hs => addsSites_processInstance (N := none) hb hs
  obtain ⟨ss, hplace, hadds⟩ := addsSites_all (N := none) (fun _ _ _ => extends_processStmt)
    (fun b c b' hs => by cases hs; rfl) hinst htables h
  rw [anonCounter_collect] at hplace
  obtain ⟨hkernels, hedges⟩ := hadds
  rw [graph_collect] at hkernels hedges
  exact ⟨ss, congrArg (Option.map Prod.fst) hplace, hkernels, hedges⟩

end

/-! ## The graph of an accepted module -/

/-- A pseudo-element is no kernel of the plan. -/
theorem filter_addSpecial (ns : List String) (g : Graph) :
    (ns.foldl Resolver.addSpecial g).kernels.filter (·.special == .none)
      = g.kernels.filter (·.special == .none) := by
  induction ns generalizing g with
  | nil => rfl
  | cons n ns ih =>
    rw [List.foldl_cons, ih]
    unfold Resolver.addSpecial
    split
    · rfl
    · split
      · rfl
      · rename_i hspecial
        rw [List.filter_append, List.filter_cons_of_neg (by simpa [Resolver.specialKernel]),
          List.filter_nil, List.append_nil]

theorem edges_addSpecial (ns : List String) (g : Graph) :
    (ns.foldl Resolver.addSpecial g).edges = g.edges := by
  induction ns generalizing g with
  | nil => rfl
  | cons n ns ih =>
    rw [List.foldl_cons, ih]
    unfold Resolver.addSpecial
    split
    · rfl
    · split <;> rfl

/-- The signal slots do not change which kernels are pseudo-elements. -/
theorem filter_noSlot (ks : List Kernel) :
    (ks.filter (·.special == .none)).map noSlot
      = (ks.map noSlot).filter (·.special == .none) := by
  rw [List.filter_map]
  rfl

/-- **The graph of a module.** -/
theorem graph_of_accepted {m : Module} {fuel : Nat} {diags d : DiagnosticEngine} {g : Graph}
    (h : resolveModuleToGraph fuel m diags = some (true, d, g)) :
    ∃ ss, moduleSites m fuel = some ss ∧
      (g.kernels.filter (·.special == .none)).map noSlot = (elements ss).map (·.kernel) ∧
      g.edges = (connections ss).map (Resolver.edgeOf · "") := by
  obtain ⟨rf, hrf, -, -, rfl⟩ := resolver_of_resolves h
  obtain ⟨ss, hss, hkernels, hedges⟩ := addsSites_module hrf
  refine ⟨ss, hss, ?_, ?_⟩
  · have hslots := map_noSlot_assignSlot rf.synthesizeSpecials.graph.kernels [] 0 0x1000
    have hspecials := filter_addSpecial (Resolver.referenced rf.graph.edges) rf.graph
    -- no statement makes a pseudo-element, so the filter takes away just those that were added
    have hplain : rf.graph.kernels.filter (·.special == .none) = rf.graph.kernels := by
      rw [hkernels, List.filter_map]
      exact congrArg _ (List.filter_eq_self.mpr fun _ _ => rfl)
    have hmade : rf.synthesizeSpecials.graph.kernels.filter (·.special == .none)
        = (elements ss).map (·.kernel) := hspecials.trans (hplain.trans hkernels)
    rw [filter_noSlot]
    show ((rf.synthesizeSpecials.graph.kernels.foldl Resolver.assignSlot ([], 0, 0x1000)).1.map
      noSlot).filter _ = _
    rw [hslots, List.map_nil, List.nil_append, ← filter_noSlot, hmade, List.map_map]
    rfl
  · exact (edges_addSpecial _ rf.graph).trans hedges

end OpenClickNP
