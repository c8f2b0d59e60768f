import OpenClickNP.Lib.FoldM
import OpenClickNP.Compiler.HandInline

/-!
# When `inlineGroup` inlines

`inlineGroup` pastes the body of a group under prefixed names. Where no connection meets the
ports of a group and the bodies are closed (`Inlinable`), that is inlining by hand, statement for
statement. Elsewhere it leaves an edge whose end is the name of no kernel: the name of the group
instance itself, a prefixed pseudo-element, or the parser's name of an anonymous instance.
-/

namespace OpenClickNP

open Ast Eg QualifiedName HandInline

/-! ## The declarations stay -/

/-- The two tables of a resolver are those of the module. -/
def Tables (m : Module) (r : Resolver) : Prop :=
  r.elemDecls = (declared m).elemDecls ∧ r.groupDecls = (declared m).groupDecls

section
variable {m : Module} {r : Resolver}

theorem tables_collectDecl {r r' : Resolver} (s : TopStmt)
    (h : r.elemDecls = r'.elemDecls ∧ r.groupDecls = r'.groupDecls) :
    (r.collectDecl s).elemDecls = (r'.collectDecl s).elemDecls ∧
      (r.collectDecl s).groupDecls = (r'.collectDecl s).groupDecls := by
  obtain ⟨helem, hgroup⟩ := h
  cases s with
  | elementDecl d =>
    simp only [Resolver.collectDecl, Resolver.collectElement, helem]
    cases r'.elemDecls.lookup d.name with
    | none => exact ⟨rfl, hgroup⟩
    | some _ => exact ⟨helem, hgroup⟩
  | elementGroupDecl d =>
    simp only [Resolver.collectDecl, Resolver.collectGroup, hgroup]
    cases r'.groupDecls.lookup d.name with
    | none => exact ⟨helem, rfl⟩
    | some _ => exact ⟨helem, hgroup⟩
  | _ => exact ⟨helem, hgroup⟩

theorem tables_collect (stmts : List TopStmt) {r r' : Resolver}
    (h : r.elemDecls = r'.elemDecls ∧ r.groupDecls = r'.groupDecls) :
    (stmts.foldl Resolver.collectDecl r).elemDecls
        = (stmts.foldl Resolver.collectDecl r').elemDecls ∧
      (stmts.foldl Resolver.collectDecl r).groupDecls
        = (stmts.foldl Resolver.collectDecl r').groupDecls := by
  induction stmts generalizing r r' with
  | nil => exact h
  | cons s ss ih => exact ih (tables_collectDecl s h)

theorem tables_start (m : Module) (diags : DiagnosticEngine) :
    Tables m (m.stmts.foldl Resolver.collectDecl { diags := diags }) :=
  tables_collect m.stmts ⟨rfl, rfl⟩

theorem graph_collect (stmts : List TopStmt) (r : Resolver) :
    (stmts.foldl Resolver.collectDecl r).graph = r.graph := by
  induction stmts generalizing r with
  | nil => rfl
  | cons s ss ih =>
    rw [List.foldl_cons, ih]
    cases s with
    | elementDecl d =>
      simp only [Resolver.collectDecl, Resolver.collectElement]
      split <;> rfl
    | elementGroupDecl d =>
      simp only [Resolver.collectDecl, Resolver.collectGroup]
      split <;> rfl
    | _ => rfl

/-- Instances and connections declare nothing. -/
theorem collect_isDecl (stmts : List TopStmt) (r : Resolver) :
    (stmts.filter isDecl).foldl Resolver.collectDecl r = stmts.foldl Resolver.collectDecl r := by
  induction stmts generalizing r with
  | nil => rfl
  | cons s ss ih => cases s <;> exact ih _

theorem collect_flat (wires : List Wire) (flat : List FlatStmt) (r : Resolver) :
    (flat.flatMap (topStmts wires)).foldl Resolver.collectDecl r = r := by
  have hconn : ∀ (cs : List ConnectionDecl) (r : Resolver),
      (cs.map TopStmt.connectionDecl).foldl Resolver.collectDecl r = r := by
    intro cs
    induction cs with
    | nil => exact fun _ => rfl
    | cons c cs ih => exact fun r => ih r
  induction flat with
  | nil => rfl
  | cons s ss ih =>
    rw [List.flatMap_cons, List.foldl_append]
    cases s with
    -- neither kind is a declaration
    | inst d => exact ih
    | wire w =>
      rw [topStmts, hconn]
      exact ih

/-! ## Flat instances -/

/-- An instance of an element, or of no known type. -/
def emitInstance (r : Resolver) (d : InstanceDecl) : Resolver :=
  match r.elemDecls.lookup d.type with
  | some decl => r.emitKernelFromInstance decl d ""
  | none => r.error d.src ("unknown element or group type \x60" ++ d.type ++ "\x60")

theorem groupOf_eq_none (h : Tables m r) (d : InstanceDecl) (hg : groupOf m d = none) (fuel : Nat) :
    Resolver.processInstance (fuel + 1) r d = some (emitInstance r d) := by
  unfold groupOf at hg
  unfold Resolver.processInstance emitInstance
  rw [h.1, h.2]
  cases hd : (declared m).elemDecls.lookup d.type with
  | some decl => rfl
  | none =>
    rw [hd] at hg
    simp only [hg]

theorem groupOf_eq_some (h : Tables m r) (d : InstanceDecl) {g : ElementGroupDecl}
    (hg : groupOf m d = some g) (fuel : Nat) :
    Resolver.processInstance (fuel + 1) r d
      = Resolver.inlineGroup (Resolver.processInstance fuel) g d r := by
  unfold groupOf at hg
  rw [Resolver.processInstance, h.1, h.2]
  cases hd : (declared m).elemDecls.lookup d.type with
  -- the name is that of an element: it has no group
  | some decl =>
    rw [hd] at hg
    cases hg
  | none =>
    rw [hd] at hg
    simp only [hg]

/-- `r'` has the declarations of `r` and at least its edges. -/
structure Extends (r r' : Resolver) : Prop where
  elemDecls : r'.elemDecls = r.elemDecls
  groupDecls : r'.groupDecls = r.groupDecls
  edges : r.graph.edges ⊆ r'.graph.edges

theorem Extends.refl (r : Resolver) : Extends r r := ⟨rfl, rfl, List.Subset.refl _⟩

theorem Extends.trans (r₁ r₂ r₃ : Resolver) (h : Extends r₁ r₂) (h' : Extends r₂ r₃) :
    Extends r₁ r₃ :=
  ⟨h'.elemDecls.trans h.elemDecls, h'.groupDecls.trans h.groupDecls,
    List.Subset.trans h.edges h'.edges⟩

theorem Tables.extends {r' : Resolver} (h : Tables m r) (h' : Extends r r') : Tables m r' :=
  ⟨h'.elemDecls.trans h.1, h'.groupDecls.trans h.2⟩

theorem extends_emitKernel (decl : ElementDecl) (d : InstanceDecl) (pfx : String) :
    Extends r (r.emitKernelFromInstance decl d pfx) := by
  unfold Resolver.emitKernelFromInstance
  split <;> exact ⟨rfl, rfl, List.Subset.refl _⟩

theorem extends_addConnection (c : ConnectionDecl) (pfx : String) :
    Extends r (r.addConnection c pfx) :=
  ⟨rfl, rfl, List.subset_append_left _ _⟩

theorem extends_emitInstance (d : InstanceDecl) : Extends r (emitInstance r d) := by
  unfold emitInstance
  split
  · exact extends_emitKernel _ d ""
  · exact ⟨rfl, rfl, List.Subset.refl _⟩

/-- What a flat statement does when no wire ends at a group. -/
def applyFlat (r : Resolver) : FlatStmt → Resolver
  | .inst d => emitInstance r d
  | .wire w =>
    match w.source, w.dest with
    | .real a, .real b =>
      r.addConnection
        { w.decl with source := rename a w.decl.source, dest := rename b w.decl.dest } ""
    | _, _ => r

theorem extends_applyFlat (s : FlatStmt) : Extends r (applyFlat r s) := by
  unfold applyFlat
  split
  · exact extends_emitInstance _
  · split
    · exact extends_addConnection _ ""
    · exact Extends.refl r

/-- Both ends of a wire are real, and an instance is not one of a group. -/
def FlatOk (m : Module) : FlatStmt → Prop
  | .inst d => groupOf m d = none
  | .wire w => (∃ a, w.source = .real a) ∧ ∃ b, w.dest = .real b

theorem processTop_flat (h : Tables m r) {fuel : Nat} {wires : List Wire} {s : FlatStmt}
    (hs : FlatOk m s) :
    (topStmts wires s).foldlM (Resolver.processTop (fuel + 1)) r = some (applyFlat r s) := by
  cases s with
  | inst d =>
    rw [topStmts, List.foldlM_cons]
    show (Resolver.processInstance (fuel + 1) r d).bind _ = _
    rw [groupOf_eq_none h d hs fuel]
    rfl
  | wire w =>
    obtain ⟨⟨a, ha⟩, b, hb⟩ := hs
    have hfollow : joined wires w
        = [{ w.decl with source := rename a w.decl.source, dest := rename b w.decl.dest }] := by
      unfold joined
      rw [ha]
      simp only []
      unfold follow
      rw [hb]
    rw [topStmts, hfollow]
    simp only [applyFlat, ha, hb]
    rfl

/-- The flattened module, statement for statement. -/
theorem processTop_flatMap (fuel : Nat) (wires : List Wire) {flat : List FlatStmt}
    (hflat : ∀ s ∈ flat, FlatOk m s) (h : Tables m r) :
    (flat.flatMap (topStmts wires)).foldlM (Resolver.processTop (fuel + 1)) r
      = some (flat.foldl applyFlat r) := by
  induction flat generalizing r with
  | nil => rfl
  | cons s ss ih =>
    rw [List.flatMap_cons, List.foldlM_append, processTop_flat h (hflat s List.mem_cons_self)]
    exact ih (fun s hs => hflat s (List.mem_cons_of_mem _ hs)) (h.extends (extends_applyFlat s))

/-! ## Pasting a closed body -/

theorem nodeOf_eq_real {N : Option String} {stmts : List GroupStmt} (hok : ScopeOk m N stmts)
    {c : ConnectionDecl} (hc : .connectionDecl c ∈ stmts) {n : String}
    (hn : n ∈ [c.source.nodeName, c.dest.nodeName]) (inside outside : String → Node) :
    nodeOf m N stmts inside outside n = .real (qualify N n) := by
  obtain ⟨hgroup, hinner⟩ := hok.ends c hc n hn
  unfold nodeOf
  cases N with
  | none => simp [hgroup, qualify]
  | some g =>
    obtain ⟨hbegin, hend, hnamed⟩ := hinner rfl
    simp [hbegin, hend, hgroup, hnamed]

/-- What a list of flat statements stands for: `step` does the same to every resolver of the
module. -/
def Flattens (m : Module) (flat : List FlatStmt) (step : Resolver → Option Resolver) : Prop :=
  (∀ s ∈ flat, FlatOk m s) ∧ ∀ r, Tables m r → step r = some (flat.foldl applyFlat r)

theorem extends_foldl_applyFlat (flat : List FlatStmt) (r : Resolver) :
    Extends r (flat.foldl applyFlat r) := by
  induction flat generalizing r with
  | nil => exact Extends.refl r
  | cons s ss ih => exact (extends_applyFlat s).trans _ _ _ (ih _)

/-- The statements of a scope one after the other, when each of them flattens. -/
theorem flattens_all {flat : GroupStmt → Option (List FlatStmt)}
    {step : Resolver → GroupStmt → Option Resolver} {ss : List GroupStmt}
    (hstmt : ∀ s ∈ ss, ∀ fs, flat s = some fs → Flattens m fs (step · s)) {fs : List FlatStmt}
    (h : flattenAll flat ss = some fs) : Flattens m fs (fun r => ss.foldlM step r) := by
  induction ss generalizing fs with
  | nil =>
    cases h
    exact ⟨fun s hs => absurd hs List.not_mem_nil, fun r _ => rfl⟩
  | cons s ss ih =>
    obtain ⟨first, hfirst, htail⟩ := Option.bind_eq_some_iff.mp h
    obtain ⟨rest, hrest, heq⟩ := Option.bind_eq_some_iff.mp htail
    cases heq
    obtain ⟨hok, hstep⟩ := hstmt s List.mem_cons_self first hfirst
    obtain ⟨hok', hsteps⟩ := ih (fun s hs => hstmt s (List.mem_cons_of_mem _ hs)) hrest
    refine ⟨fun s hs => ?_, fun r hr => ?_⟩
    · rcases List.mem_append.mp hs with hs | hs
      · exact hok s hs
      · exact hok' s hs
    · have hfirst' : step r s = some (first.foldl applyFlat r) := hstep r hr
      show (s :: ss).foldlM step r = _
      rw [List.foldlM_cons, hfirst', List.foldl_append]
      exact hsteps _ (hr.extends (extends_foldl_applyFlat first r))

theorem flattens_connection {N : Option String} {stmts : List GroupStmt}
    (hok : ScopeOk m N stmts) {c : ConnectionDecl} (hc : .connectionDecl c ∈ stmts) :
    Flattens m [.wire (wireOf m N stmts c)] fun r => some (r.addConnection
      { c with
        source := rename (qualify N c.source.nodeName) c.source
        dest := rename (qualify N c.dest.nodeName) c.dest } "") := by
  have hsource := nodeOf_eq_real hok hc (n := c.source.nodeName) (by simp) .inputs .outputs
  have hdest := nodeOf_eq_real hok hc (n := c.dest.nodeName) (by simp) .outputs .inputs
  constructor
  · intro s hs
    obtain rfl := List.mem_singleton.mp hs
    exact ⟨⟨_, hsource⟩, _, hdest⟩
  · intro r _
    simp only [List.foldl_cons, List.foldl_nil, applyFlat, wireOf, hsource, hdest]

/-- **A closed body is pasted as it is flattened.** Induction on the nesting of the groups. -/
theorem flattens_instance (hinl : Inlinable m) (fuel : Nat) {N : Option String}
    {stmts : List GroupStmt} (hscope : Scope m N stmts) {d : InstanceDecl}
    (hd : .instanceDecl d ∈ stmts) {flat : List FlatStmt}
    (h : flattenInstance m fuel N d = some flat) :
    Flattens m flat fun r => Resolver.processInstance fuel r (flatInstance N d) := by
  induction fuel generalizing N stmts d flat with
  | zero => cases h
  | succ fuel ih =>
    have htype : groupOf m (flatInstance N d) = groupOf m d := by cases N <;> rfl
    have hname : (flatInstance N d).name = qualify N d.name := by cases N <;> rfl
    unfold flattenInstance at h
    cases hg : groupOf m d with
    -- an element: its instance is flat already
    | none =>
      rw [hg] at h
      cases h
      refine ⟨fun s hs => ?_, fun r hr => ?_⟩
      · obtain rfl := List.mem_singleton.mp hs
        exact htype.trans hg
      · exact groupOf_eq_none hr _ (htype.trans hg) fuel
    | some g =>
      rw [hg] at h
      have hinner := Scope.group hscope hd hg
      have hok := hinl _ _ hinner
      -- the body, statement for statement, with the qualified names
      have hbody : Flattens m flat fun r => g.body.foldlM
          (Resolver.inlineStmt (Resolver.processInstance fuel) (qualify N d.name)) r := by
        apply flattens_all ?_ h
        intro s hs fs hfs
        cases s with
        | instanceDecl d' =>
          have hnamed := hok.named rfl d' hs
          have hcopy : ∀ r : Resolver, Resolver.inlineStmt (Resolver.processInstance fuel)
              (qualify N d.name) r (.instanceDecl d')
                = Resolver.processInstance fuel r (flatInstance (some (qualify N d.name)) d') := by
            intro r
            simp [Resolver.inlineStmt, Resolver.prefixInstance, hnamed, flatInstance, qualify]
          simp only [hcopy]
          exact ih hinner hs hfs
        | connectionDecl c =>
          have hends : ∀ n ∈ [c.source.nodeName, c.dest.nodeName], ¬ (n = "begin" ∨ n = "end") := by
            intro n hn
            obtain ⟨hbegin, hend, -⟩ := (hok.ends c hs n hn).2 rfl
            rintro (rfl | rfl)
            · exact hbegin rfl
            · exact hend rfl
          have hconn := flattens_connection hok hs
          cases hfs
          simpa [Resolver.inlineStmt, Resolver.rewriteEnd, hends, rename, qualify] using hconn
      refine ⟨hbody.1, fun r hr => ?_⟩
      show Resolver.processInstance (fuel + 1) r (flatInstance N d) = _
      rw [groupOf_eq_some hr _ (htype.trans hg), Resolver.inlineGroup, hname]
      exact hbody.2 r hr

/-! ## The whole module -/

/-- `processTop` of an instance or a connection. -/
def processStmt (fuel : Nat) (r : Resolver) : GroupStmt → Option Resolver
  | .instanceDecl d => Resolver.processInstance fuel r d
  | .connectionDecl c => some (r.addConnection c "")

theorem processTop_topScope (fuel : Nat) (stmts : List TopStmt) (r : Resolver) :
    stmts.foldlM (Resolver.processTop fuel) r
      = (stmts.filterMap scopeStmt).foldlM (processStmt fuel) r := by
  induction stmts generalizing r with
  | nil => rfl
  | cons s ss ih =>
    cases s with
    | instanceDecl d =>
      show (Resolver.processInstance fuel r d).bind _ = (Resolver.processInstance fuel r d).bind _
      cases Resolver.processInstance fuel r d with
      | none => rfl
      | some r' => exact ih r'
    | connectionDecl c => exact ih _
    | _ => exact ih r

theorem processTop_isDecl (fuel : Nat) (stmts : List TopStmt) (r : Resolver) :
    (stmts.filter isDecl).foldlM (Resolver.processTop fuel) r = some r := by
  induction stmts with
  | nil => rfl
  | cons s ss ih => cases s <;> exact ih

theorem flattens_module (hinl : Inlinable m) {fuel : Nat} {flat : List FlatStmt}
    (h : flattenModule m fuel = some flat) :
    Flattens m flat fun r => m.stmts.foldlM (Resolver.processTop fuel) r := by
  have hstmt : ∀ s ∈ topScope m, ∀ fs,
      flattenStmt m none (topScope m) (flattenInstance m fuel none) s = some fs →
        Flattens m fs (processStmt fuel · s) := by
    intro s hs fs hfs
    cases s with
    | instanceDecl d => exact flattens_instance hinl fuel .top hs hfs
    | connectionDecl c =>
      have hconn := flattens_connection (hinl _ _ .top) hs
      cases hfs
      exact hconn
  simp only [processTop_topScope]
  exact flattens_all hstmt h

/-- **Where the condition holds the resolver inlines by hand**: it does to the module what it
does to the hand-inlined one. -/
theorem resolve_eq_of_inlinable (hinl : Inlinable m) {fuel : Nat} {m' : Module}
    (h : handInline m fuel = some m') (diags : DiagnosticEngine) (fuel' : Nat) :
    resolveModuleToGraph fuel m diags = resolveModuleToGraph (fuel' + 1) m' diags := by
  obtain ⟨flat, hflat, heq⟩ := Option.bind_eq_some_iff.mp h
  cases heq
  obtain ⟨hok, hstep⟩ := flattens_module hinl hflat
  have hr := tables_start m diags
  have hcode : m.stmts.foldlM (Resolver.processTop fuel) _ = _ := hstep _ hr
  have hhand := processTop_flatMap fuel' (wiresOf flat) hok hr
  simp only [resolveModuleToGraph, Resolver.resolve, List.foldl_append, collect_isDecl,
    collect_flat, List.foldlM_append, processTop_isDecl, hcode, Option.bind_eq_bind,
    Option.bind_some, hhand]

/-! ## More fuel -/

theorem processInstance_succ {fuel : Nat} {d : InstanceDecl} {r' : Resolver}
    (h : Resolver.processInstance fuel r d = some r') :
    Resolver.processInstance (fuel + 1) r d = some r' := by
  induction fuel generalizing r d r' with
  | zero => cases h
  | succ fuel ih =>
    unfold Resolver.processInstance at h ⊢
    cases hd : r.elemDecls.lookup d.type with
    | some decl =>
      rw [hd] at h
      exact h
    | none =>
      rw [hd] at h
      cases hg : r.groupDecls.lookup d.type with
      | none =>
        rw [hg] at h
        exact h
      | some g =>
        rw [hg] at h
        refine FoldM.mono (fun b s c hs => ?_) h
        cases s with
        | instanceDecl d' => exact ih hs
        | connectionDecl c => exact hs

theorem resolve_succ {fuel : Nat} {diags : DiagnosticEngine} {out : Bool × DiagnosticEngine × Graph}
    (h : resolveModuleToGraph fuel m diags = some out) :
    resolveModuleToGraph (fuel + 1) m diags = some out := by
  obtain ⟨r, hr, hout⟩ := Option.bind_eq_some_iff.mp h
  obtain ⟨rf, hrf, heq⟩ := Option.bind_eq_some_iff.mp hr
  have hstmt : ∀ b s c, Resolver.processTop fuel b s = some c →
      Resolver.processTop (fuel + 1) b s = some c := by
    intro b s c hs
    cases s with
    | instanceDecl d => exact processInstance_succ hs
    | _ => exact hs
  have hrf' := FoldM.mono hstmt hrf
  unfold resolveModuleToGraph Resolver.resolve
  rw [hrf']
  cases heq
  exact hout

theorem resolve_add {fuel : Nat} {diags : DiagnosticEngine} {out : Bool × DiagnosticEngine × Graph}
    (h : resolveModuleToGraph fuel m diags = some out) (k : Nat) :
    resolveModuleToGraph (fuel + k) m diags = some out := by
  induction k with
  | zero => exact h
  | succ k ih => exact resolve_succ ih

/-- The result does not depend on the bound. -/
theorem Resolves.unique {diags : DiagnosticEngine} {out out' : Bool × DiagnosticEngine × Graph}
    (h : Resolves m diags out) (h' : Resolves m diags out') : out = out' := by
  obtain ⟨fuel, h⟩ := h
  obtain ⟨fuel', h'⟩ := h'
  have hsum := resolve_add h fuel'
  rw [Nat.add_comm, resolve_add h' fuel] at hsum
  exact (Option.some.inj hsum).symm

/-! ## What the resolver leaves behind elsewhere -/

theorem extends_prefixInstance (pfx : String) (d : InstanceDecl) :
    Extends r (r.prefixInstance pfx d).2 := by
  unfold Resolver.prefixInstance
  split <;> exact ⟨rfl, rfl, List.Subset.refl _⟩

theorem extends_inlineStmt {process : Resolver → InstanceDecl → Option Resolver}
    (hprocess : ∀ r d r', process r d = some r' → Extends r r') {N : String} {s : GroupStmt}
    {r' : Resolver} (h : Resolver.inlineStmt process N r s = some r') : Extends r r' := by
  cases s with
  | instanceDecl d => exact (extends_prefixInstance _ d).trans _ _ _ (hprocess _ _ _ h)
  | connectionDecl c =>
    cases h
    exact extends_addConnection _ ""

theorem extends_processInstance {fuel : Nat} {d : InstanceDecl} {r' : Resolver}
    (h : Resolver.processInstance fuel r d = some r') : Extends r r' := by
  induction fuel generalizing r d r' with
  | zero => cases h
  | succ fuel ih =>
    unfold Resolver.processInstance at h
    split at h
    · cases h
      exact extends_emitKernel _ d ""
    · split at h
      · exact FoldM.rel Extends.refl Extends.trans
          (fun _ _ _ _ hstep => extends_inlineStmt (fun _ _ _ hp => ih hp) hstep) h
      · cases h
        exact ⟨rfl, rfl, List.Subset.refl _⟩

/-- The name that `makeAnonName` gives. -/
def autoName (type : String) (k : Nat) : String := numbered type "__anon_" k

/-- `copy` is what `inlineGroup` makes of an instance of the scope; the module's own instances
stay as they are. -/
def CopyIn : Option String → InstanceDecl → InstanceDecl → Prop
  | none, d, copy => copy = d
  | some N, d, copy => ∃ r : Resolver, copy = (r.prefixInstance (N ++ "::") d).1

/-- The names that kernels of an instance can have. -/
def Emits (m : Module) : Nat → InstanceDecl → String → Prop
  | 0, _, _ => False
  | fuel + 1, d, name =>
    match groupOf m d with
    | none => if d.anonymous then ∃ k, name = autoName d.type k else name = d.name
    | some g =>
      ∃ d', .instanceDecl d' ∈ g.body ∧ ∃ copy, CopyIn (some d.name) d' copy ∧
        Emits m fuel copy name

theorem kernels_emitInstance {d : InstanceDecl} (hg : groupOf m d = none)
    {fuel : Nat} {k : Kernel} (hk : k ∈ (emitInstance r d).graph.kernels) :
    k ∈ r.graph.kernels ∨ Emits m (fuel + 1) d k.name := by
  unfold emitInstance at hk
  unfold Emits
  rw [hg]
  split at hk
  · unfold Resolver.emitKernelFromInstance at hk
    cases hanon : d.anonymous with
    | true =>
      simp only [hanon, if_true, Resolver.pushKernel, Resolver.makeAnonName, List.mem_append,
        List.mem_singleton] at hk
      rcases hk with hk | rfl
      · exact Or.inl hk
      · exact Or.inr ⟨r.anonCounter, String.empty_append⟩
    | false =>
      simp only [hanon, Bool.false_eq_true, if_false, Resolver.pushKernel, List.mem_append,
        List.mem_singleton] at hk
      rcases hk with hk | rfl
      · exact Or.inl hk
      · exact Or.inr String.empty_append
  · exact Or.inl hk

/-- What holds of the kernels that each statement adds holds of those that a scope adds. -/
theorem kernels_scope {step : Resolver → GroupStmt → Option Resolver} {P : Kernel → Prop}
    {ss : List GroupStmt} (hext : ∀ b s c, step b s = some c → Extends b c)
    (hstep : ∀ b, ∀ s ∈ ss, ∀ c, Tables m b → step b s = some c →
      ∀ k ∈ c.graph.kernels, k ∈ b.graph.kernels ∨ P k)
    {r' : Resolver} (h : ss.foldlM step r = some r') (hr : Tables m r) {k : Kernel}
    (hk : k ∈ r'.graph.kernels) : k ∈ r.graph.kernels ∨ P k := by
  have hrel : Tables m r → Tables m r' ∧ ∀ k ∈ r'.graph.kernels, k ∈ r.graph.kernels ∨ P k := by
    refine FoldM.rel (R := fun b c => Tables m b → Tables m c ∧
      ∀ k ∈ c.graph.kernels, k ∈ b.graph.kernels ∨ P k) ?_ ?_ ?_ h
    · exact fun b hb => ⟨hb, fun k hk => Or.inl hk⟩
    · intro a b c hab hbc ha
      obtain ⟨hb, hkb⟩ := hab ha
      obtain ⟨hc, hkc⟩ := hbc hb
      refine ⟨hc, fun k hk => ?_⟩
      rcases hkc k hk with hk | hk
      · exact hkb k hk
      · exact Or.inr hk
    · intro b s hs c hbc hb
      exact ⟨hb.extends (hext b s c hbc), hstep b s hs c hb hbc⟩
  exact (hrel hr).2 k hk

/-- **Each kernel bears the name of an instance it comes from.** Induction on the nesting of
the groups. -/
theorem kernels_processInstance {fuel : Nat} {d : InstanceDecl} {r' : Resolver}
    (h : Tables m r) (hp : Resolver.processInstance fuel r d = some r') {k : Kernel}
    (hk : k ∈ r'.graph.kernels) : k ∈ r.graph.kernels ∨ Emits m fuel d k.name := by
  induction fuel generalizing r d r' k with
  | zero => cases hp
  | succ fuel ih =>
    cases hg : groupOf m d with
    | none =>
      rw [groupOf_eq_none h d hg] at hp
      cases hp
      exact kernels_emitInstance hg hk
    | some g =>
      rw [groupOf_eq_some h d hg] at hp
      unfold Emits
      rw [hg]
      refine kernels_scope (P := fun k => ∃ d', .instanceDecl d' ∈ g.body ∧ ∃ copy,
          CopyIn (some d.name) d' copy ∧ Emits m fuel copy k.name)
        (fun b s c hs => extends_inlineStmt (fun _ _ _ => extends_processInstance) hs) ?_ hp h hk
      intro b s hs c hb hstep k hk
      cases s with
      | instanceDecl d' =>
        have hb' := hb.extends (extends_prefixInstance (d.name ++ "::") d')
        rcases ih hb' hstep hk with hk | hk
        · left
          unfold Resolver.prefixInstance at hk
          split at hk <;> exact hk
        · exact Or.inr ⟨d', hs, _, ⟨b, rfl⟩, hk⟩
      | connectionDecl c =>
        cases hstep
        exact Or.inl hk

end

end OpenClickNP
