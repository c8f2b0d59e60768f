import OpenClickNP.Compiler.InliningExact

/-!
# The names of the kernels

Names enter the graph from the instances of the module, from those of the bodies that
`inlineGroup` pastes, from `makeAnonName` and from `synthesizeSpecials`. The last two keep them
apart by themselves: made-up names end in a counter, and a pseudo-element is created under a name
that no kernel has. For names that are written in the source nothing is checked, so the kernels
of an accepted module have pairwise distinct names exactly when no written name is used again
(`kernelNames_nodup_iff`).
-/

namespace OpenClickNP

open Ast Eg QualifiedName HandInline

/-! ## Occurrences of elements -/

/-- An instance of an element in the expanded module: its qualified name, and whether that ends
in a name made up for an anonymous instance. -/
structure Occurrence where
  name : String
  anonymous : Bool
deriving DecidableEq, Repr

/-- The name of an instance of the scope `N` when `k` names have been made up. The module's own
instances keep the name they have from the parser, unless they are anonymous elements. -/
def ownName (N : Option String) (isElement : Bool) (d : InstanceDecl) (k : Nat) : String :=
  if d.anonymous && (N.isSome || isElement) then autoName d.type k else d.name

/-- The number of names made up after the instance. -/
def nextAuto (N : Option String) (isElement : Bool) (d : InstanceDecl) (k : Nat) : Nat :=
  if d.anonymous && (N.isSome || isElement) then k + 1 else k

/-- The instances of a list of statements, one after the other. -/
def occurrencesAll (occ : Nat → InstanceDecl → Option (List Occurrence × Nat)) :
    Nat → List GroupStmt → Option (List Occurrence × Nat)
  | k, [] => some ([], k)
  | k, .connectionDecl _ :: ss => occurrencesAll occ k ss
  | k, .instanceDecl d :: ss => do
    let (first, k) ← occ k d
    let (rest, k) ← occurrencesAll occ k ss
    pure (first ++ rest, k)

/-- The elements that an instance of the scope `N` stands for, those of a group at any depth, and
the number of names made up after it. -/
def occurrences (m : Module) : Nat → Option String → Nat → InstanceDecl →
    Option (List Occurrence × Nat)
  | 0, _, _, _ => none
  | fuel + 1, N, k, d =>
    match (declared m).elemDecls.lookup d.type with
    | some _ =>
      some ([{ name := qualify N (ownName N true d k), anonymous := d.anonymous }],
        nextAuto N true d k)
    | none =>
      match (declared m).groupDecls.lookup d.type with
      | some g =>
        occurrencesAll (occurrences m fuel (some (qualify N (ownName N false d k))))
          (nextAuto N false d k) g.body
      | none => some ([], nextAuto N false d k)

/-- All elements of the expanded module. -/
def moduleOccurrences (m : Module) (fuel : Nat) : Option (List Occurrence) :=
  (occurrencesAll (occurrences m fuel none) 0 (topScope m)).map Prod.fst

/-- No written name is used again. Two made-up names may not be compared. -/
def NamedApart (occs : List Occurrence) : Prop :=
  occs.Pairwise fun a b => a.anonymous = true ∧ b.anonymous = true ∨ a.name ≠ b.name

instance (occs : List Occurrence) : Decidable (NamedApart occs) :=
  inferInstanceAs (Decidable (List.Pairwise _ occs))

/-! ## What the resolver builds -/

/-- `r'` has the kernels of `r` and after them one for each occurrence; none of them is a
pseudo-element. -/
def Adds (r r' : Resolver) (occs : List Occurrence) : Prop :=
  ∃ ks : List Kernel, r'.graph.kernels = r.graph.kernels ++ ks ∧
    ks.map (·.name) = occs.map (·.name) ∧ ∀ k ∈ ks, k.special = .none

section
variable {m : Module} {r r' r'' : Resolver} {occs occs' : List Occurrence}

theorem Adds.nil (h : r'.graph.kernels = r.graph.kernels) : Adds r r' [] :=
  ⟨[], by rw [h, List.append_nil], rfl, fun _ hk => absurd hk List.not_mem_nil⟩

theorem Adds.append (h : Adds r r' occs) (h' : Adds r' r'' occs') :
    Adds r r'' (occs ++ occs') := by
  obtain ⟨ks, hks, hnames, hplain⟩ := h
  obtain ⟨ks', hks', hnames', hplain'⟩ := h'
  refine ⟨ks ++ ks', by rw [hks', hks, List.append_assoc], ?_, fun k hk => ?_⟩
  · rw [List.map_append, List.map_append, hnames, hnames']
  · rcases List.mem_append.mp hk with hk | hk
    · exact hplain k hk
    · exact hplain' k hk

theorem Adds.one {k : Kernel} {o : Occurrence} (h : r'.graph.kernels = r.graph.kernels ++ [k])
    (hname : k.name = o.name) (hplain : k.special = .none) : Adds r r' [o] := by
  refine ⟨[k], h, by rw [List.map_singleton, List.map_singleton, hname], fun k' hk' => ?_⟩
  rw [List.mem_singleton.mp hk', hplain]

/-- An instance of the scope `N`, as it reaches `processInstance`: the module's own is taken as it
is, one of a body has been renamed. -/
def placed : Option String → Resolver → InstanceDecl → InstanceDecl × Resolver
  | none, r, d => (d, r)
  | some N, r, d => r.prefixInstance (N ++ "::") d

theorem placed_group (N : Option String) (r : Resolver) (d : InstanceDecl) :
    (placed N r d).1.type = d.type ∧
      (placed N r d).1.name = qualify N (ownName N false d r.anonCounter) ∧
      (placed N r d).2.anonCounter = nextAuto N false d r.anonCounter ∧
      (placed N r d).2.graph = r.graph ∧ Extends r (placed N r d).2 := by
  cases N with
  | none =>
    refine ⟨rfl, ?_, ?_, rfl, Extends.refl r⟩
    · simp [placed, ownName, qualify]
    · simp [placed, nextAuto]
  | some N =>
    refine ⟨?_, ?_, ?_, ?_, extends_prefixInstance (N ++ "::") d⟩
    -- the copy in a body takes the next made-up name, or keeps its own
    all_goals cases hanon : d.anonymous <;> simp only [placed, Resolver.prefixInstance, hanon] <;>
      simp [ownName, nextAuto, qualify, hanon, Resolver.makeAnonName, autoName, numbered]

theorem kernels_emitKernel (r : Resolver) (decl : ElementDecl) (d : InstanceDecl) :
    (r.emitKernelFromInstance decl d "").graph.kernels = r.graph.kernels ++
        [Resolver.kernelOf decl d (if d.anonymous then autoName d.type r.anonCounter else d.name)] ∧
      (r.emitKernelFromInstance decl d "").anonCounter
        = if d.anonymous then r.anonCounter + 1 else r.anonCounter := by
  unfold Resolver.emitKernelFromInstance
  cases d.anonymous with
  | true => exact ⟨by simp [Resolver.pushKernel, Resolver.makeAnonName, autoName, numbered], rfl⟩
  | false => exact ⟨by simp [Resolver.pushKernel], rfl⟩

/-- The kernel of an element. -/
theorem adds_emitKernel (N : Option String) (r : Resolver) (d : InstanceDecl) (decl : ElementDecl) :
    Adds r ((placed N r d).2.emitKernelFromInstance decl (placed N r d).1 "")
        [{ name := qualify N (ownName N true d r.anonCounter), anonymous := d.anonymous }] ∧
      ((placed N r d).2.emitKernelFromInstance decl (placed N r d).1 "").anonCounter
        = nextAuto N true d r.anonCounter := by
  obtain ⟨hkernels, hcounter⟩ := kernels_emitKernel (placed N r d).2 decl (placed N r d).1
  obtain ⟨-, hname, hnext, hgraph, -⟩ := placed_group N r d
  rw [hgraph] at hkernels
  cases N with
  | none =>
    refine ⟨Adds.one hkernels ?_ rfl, ?_⟩
    · cases hanon : d.anonymous <;> simp [Resolver.kernelOf, placed, ownName, qualify, hanon]
    · rw [hcounter]
      cases hanon : d.anonymous <;> simp [placed, nextAuto, hanon]
  | some N =>
    -- the copy of an instance of a body is anonymous no more
    have hanon : (placed (some N) r d).1.anonymous = false := by
      cases h : d.anonymous <;> simp [placed, Resolver.prefixInstance, h]
    rw [hanon, hname] at hkernels
    rw [hanon, hnext] at hcounter
    refine ⟨Adds.one hkernels (by simp [Resolver.kernelOf, ownName]) rfl, ?_⟩
    simpa [nextAuto] using hcounter

/-- The statements of a scope, when each instance adds its occurrences. -/
theorem adds_all {occ : Nat → InstanceDecl → Option (List Occurrence × Nat)}
    {step : Resolver → GroupStmt → Option Resolver} {ss : List GroupStmt}
    (hext : ∀ b s c, step b s = some c → Extends b c)
    (hconn : ∀ b c b', step b (.connectionDecl c) = some b' →
      b'.graph.kernels = b.graph.kernels ∧ b'.anonCounter = b.anonCounter)
    (hinst : ∀ b d b', Tables m b → step b (.instanceDecl d) = some b' →
      ∃ os, occ b.anonCounter d = some (os, b'.anonCounter) ∧ Adds b b' os)
    (hr : Tables m r) (h : ss.foldlM step r = some r') :
    ∃ os, occurrencesAll occ r.anonCounter ss = some (os, r'.anonCounter) ∧ Adds r r' os := by
  induction ss generalizing r with
  | nil =>
    cases h
    exact ⟨[], rfl, Adds.nil rfl⟩
  | cons s ss ih =>
    rw [List.foldlM_cons] at h
    obtain ⟨b, hb, hrest⟩ := Option.bind_eq_some_iff.mp h
    obtain ⟨rest, hocc, hadds⟩ := ih (hr.extends (hext r s b hb)) hrest
    cases s with
    -- a connection adds an edge only
    | connectionDecl c =>
      obtain ⟨hkernels, hcounter⟩ := hconn r c b hb
      rw [hcounter] at hocc
      exact ⟨rest, hocc, (Adds.nil hkernels).append hadds⟩
    | instanceDecl d =>
      obtain ⟨first, hfirst, hadds'⟩ := hinst r d b hr hb
      refine ⟨first ++ rest, ?_, hadds'.append hadds⟩
      simp only [occurrencesAll, hfirst, hocc, Option.bind_eq_bind, Option.bind_some,
        Option.pure_def]

/-- **An instance adds its occurrences.** Induction on the nesting of the groups. -/
theorem adds_processInstance {fuel : Nat} {N : Option String} {d : InstanceDecl} (hr : Tables m r)
    (h : Resolver.processInstance fuel (placed N r d).2 (placed N r d).1 = some r') :
    ∃ os, occurrences m fuel N r.anonCounter d = some (os, r'.anonCounter) ∧ Adds r r' os := by
  induction fuel generalizing N d r r' with
  | zero => cases h
  | succ fuel ih =>
    obtain ⟨htype, hname, hnext, hgraph, hext⟩ := placed_group N r d
    have htables := hr.extends hext
    unfold Resolver.processInstance at h
    unfold occurrences
    rw [htables.1, htables.2, htype] at h
    cases helem : (declared m).elemDecls.lookup d.type with
    -- the type is looked up among the elements before the groups
    | some decl =>
      rw [helem] at h
      cases h
      obtain ⟨hadds, hcounter⟩ := adds_emitKernel N r d decl
      exact ⟨_, by rw [hcounter], hadds⟩
    | none =>
      rw [helem] at h
      cases hgroup : (declared m).groupDecls.lookup d.type with
      | none =>
        rw [hgroup] at h
        cases h
        exact ⟨[], by rw [← hnext]; rfl, Adds.nil (congrArg _ hgraph)⟩
      | some g =>
        rw [hgroup] at h
        simp only [Resolver.inlineGroup] at h
        rw [hname] at h
        -- the body is placed below the name of the instance
        have hinst : ∀ b d' b', Tables m b →
            Resolver.inlineStmt (Resolver.processInstance fuel)
              (qualify N (ownName N false d r.anonCounter)) b (.instanceDecl d') = some b' →
            ∃ os, occurrences m fuel (some (qualify N (ownName N false d r.anonCounter)))
              b.anonCounter d' = some (os, b'.anonCounter) ∧ Adds b b' os :=
          fun b d' b' hb hs => ih (N := some _) hb hs
        obtain ⟨os, hocc, hadds⟩ := adds_all
          (fun b s c hs => extends_inlineStmt (fun _ _ _ hp => extends_processInstance hp) hs)
          (fun b c b' hs => by cases hs; exact ⟨rfl, rfl⟩) hinst htables h
        rw [hnext] at hocc
        exact ⟨os, hocc, (Adds.nil (congrArg _ hgraph)).append hadds⟩

/-- Collecting the declarations makes no name up. -/
theorem anonCounter_collect (stmts : List TopStmt) (r : Resolver) :
    (stmts.foldl Resolver.collectDecl r).anonCounter = r.anonCounter := by
  induction stmts generalizing r with
  | nil => rfl
  | cons s ss ih =>
    rw [List.foldl_cons, ih]
    cases s with
    | elementDecl d => simp only [Resolver.collectDecl, Resolver.collectElement]; split <;> rfl
    | elementGroupDecl d => simp only [Resolver.collectDecl, Resolver.collectGroup]; split <;> rfl
    | _ => rfl

theorem extends_processStmt {fuel : Nat} {s : GroupStmt} (h : processStmt fuel r s = some r') :
    Extends r r' := by
  cases s with
  | instanceDecl d => exact extends_processInstance h
  | connectionDecl c =>
    cases h
    exact extends_addConnection c ""

/-- The module's statements, from a resolver that has built nothing yet. -/
theorem adds_module {fuel : Nat} {diags : DiagnosticEngine} {rf : Resolver}
    (h : m.stmts.foldlM (Resolver.processTop fuel)
      (m.stmts.foldl Resolver.collectDecl { diags := diags }) = some rf) :
    ∃ os, moduleOccurrences m fuel = some os ∧
      rf.graph.kernels.map (·.name) = os.map (·.name) ∧
        ∀ k ∈ rf.graph.kernels, k.special = .none := by
  have htables := tables_start m diags
  rw [processTop_topScope] at h
  have hinst : ∀ b d b', Tables m b → processStmt fuel b (.instanceDecl d) = some b' →
      ∃ os, occurrences m fuel none b.anonCounter d = some (os, b'.anonCounter) ∧ Adds b b' os :=
    fun b d b' hb hs => adds_processInstance (N := none) hb hs
  obtain ⟨os, hocc, ks, hks, hnames, hplain⟩ := adds_all (fun _ _ _ => extends_processStmt)
    (fun b c b' hs => by cases hs; exact ⟨rfl, rfl⟩) hinst htables h
  rw [anonCounter_collect] at hocc
  rw [graph_collect, List.nil_append] at hks
  refine ⟨os, ?_, by rw [hks, hnames], hks ▸ hplain⟩
  have hfst := congrArg (Option.map Prod.fst) hocc
  exact hfst

end

/-! ## Made-up names -/

/-- The made-up names among the occurrences are numbered from `k` up to `k'`, and no two of them
are equal. -/
def AutoNumbered (k k' : Nat) (occs : List Occurrence) : Prop :=
  k ≤ k' ∧
    (∀ o ∈ occs, o.anonymous = true →
      ∃ stem j, k ≤ j ∧ j < k' ∧ o.name = numbered stem "__anon_" j) ∧
    occs.Pairwise fun a b => a.anonymous = true → b.anonymous = true → a.name ≠ b.name

theorem AutoNumbered.nil (k : Nat) : AutoNumbered k k [] :=
  ⟨le_rfl, fun _ h => absurd h List.not_mem_nil, List.Pairwise.nil⟩

theorem AutoNumbered.append {k k' k'' : Nat} {as bs : List Occurrence} (ha : AutoNumbered k k' as)
    (hb : AutoNumbered k' k'' bs) : AutoNumbered k k'' (as ++ bs) := by
  obtain ⟨hle, hnum, hapart⟩ := ha
  obtain ⟨hle', hnum', hapart'⟩ := hb
  refine ⟨hle.trans hle', fun o ho hanon => ?_, List.pairwise_append.mpr ⟨hapart, hapart', ?_⟩⟩
  · -- the two halves use counters below and above the one between them
    rcases List.mem_append.mp ho with ho | ho
    · obtain ⟨stem, j, hj, hj', hname⟩ := hnum o ho hanon
      exact ⟨stem, j, hj, by omega, hname⟩
    · obtain ⟨stem, j, hj, hj', hname⟩ := hnum' o ho hanon
      exact ⟨stem, j, by omega, hj', hname⟩
  · intro a hmem b hmem' hanon hanon' heq
    obtain ⟨stem, i, -, hi, hname⟩ := hnum a hmem hanon
    obtain ⟨stem', j, hj, -, hname'⟩ := hnum' b hmem' hanon'
    -- the counter has moved on between the two
    have htag : "__anon_".toList.getLast? = some '_' := by simp
    have hij : i = j := numbered_inj htag rfl (hname.symm.trans (heq.trans hname'))
    omega

theorem AutoNumbered.weaken {k₀ k k' : Nat} {os : List Occurrence} (h : AutoNumbered k k' os)
    (hle : k₀ ≤ k) : AutoNumbered k₀ k' os := by
  have hnil : AutoNumbered k₀ k [] :=
    ⟨hle, fun _ h => absurd h List.not_mem_nil, List.Pairwise.nil⟩
  exact hnil.append h

theorem numbered_qualify (N : Option String) (type : String) (k : Nat) :
    ∃ stem, qualify N (autoName type k) = numbered stem "__anon_" k := by
  cases N with
  | none => exact ⟨type, rfl⟩
  | some N =>
    exact ⟨N ++ "::" ++ type, by simp only [qualify, autoName, numbered, String.append_assoc]⟩

theorem autoNumbered_all {occ : Nat → InstanceDecl → Option (List Occurrence × Nat)}
    (hocc : ∀ k d os k', occ k d = some (os, k') → AutoNumbered k k' os) {k k' : Nat}
    {ss : List GroupStmt} {os : List Occurrence} (h : occurrencesAll occ k ss = some (os, k')) :
    AutoNumbered k k' os := by
  induction ss generalizing k os with
  | nil =>
    cases h
    exact AutoNumbered.nil _
  | cons s ss ih =>
    cases s with
    | connectionDecl c => exact ih h
    | instanceDecl d =>
      obtain ⟨⟨first, k₁⟩, hfirst, h⟩ := Option.bind_eq_some_iff.mp h
      obtain ⟨⟨rest, k₂⟩, hrest, h⟩ := Option.bind_eq_some_iff.mp h
      cases h
      exact (hocc k d first k₁ hfirst).append (ih hrest)

/-- Made-up names never clash. Induction on the nesting of the groups. -/
theorem autoNumbered_occurrences {m : Module} {fuel : Nat} {N : Option String} {k k' : Nat}
    {d : InstanceDecl} {os : List Occurrence} (h : occurrences m fuel N k d = some (os, k')) :
    AutoNumbered k k' os := by
  induction fuel generalizing N k k' d os with
  | zero => cases h
  | succ fuel ih =>
    have hnext : k ≤ nextAuto N false d k := by
      unfold nextAuto
      split <;> omega
    unfold occurrences at h
    split at h
    · cases h
      refine ⟨?_, fun o ho hanon => ?_, List.pairwise_singleton _ _⟩
      · unfold nextAuto
        split <;> omega
      obtain rfl := List.mem_singleton.mp ho
      have hanon' : d.anonymous = true := hanon
      obtain ⟨stem, hstem⟩ := numbered_qualify N d.type k
      exact ⟨stem, k, le_rfl, by simp [nextAuto, hanon'], by simp [ownName, hanon', hstem]⟩
    · split at h
      · exact (autoNumbered_all (fun _ _ _ _ h' => ih h') h).weaken hnext
      · cases h
        exact (AutoNumbered.nil _).weaken hnext

/-- Written or made up, the names are distinct when no written one is used again. -/
theorem nodup_occurrences_iff {m : Module} {fuel : Nat} {os : List Occurrence}
    (h : moduleOccurrences m fuel = some os) : (os.map (·.name)).Nodup ↔ NamedApart os := by
  obtain ⟨⟨os', k⟩, hall, rfl⟩ := Option.map_eq_some_iff.mp h
  obtain ⟨-, -, hauto⟩ := autoNumbered_all (fun _ _ _ _ => autoNumbered_occurrences) hall
  rw [List.Nodup, List.pairwise_map]
  constructor
  · exact fun hnd => hnd.imp fun hne => Or.inr hne
  · intro happart
    refine (happart.and hauto).imp ?_
    rintro a b ⟨hor, himp⟩
    rcases hor with ⟨ha, hb⟩ | hne
    · -- two made-up names: their counters differ
      exact himp ha hb
    · exact hne

/-! ## Pseudo-elements and signal slots -/

/-- A kernel without what `assignSignalSlots` writes. -/
def noSlot (k : Kernel) : Kernel := { k with gid := -1, axiliteBase := -1 }

theorem map_noSlot_assignSlot (ks done : List Kernel) (gid base : Int) :
    (ks.foldl Resolver.assignSlot (done, gid, base)).1.map noSlot
      = done.map noSlot ++ ks.map noSlot := by
  induction ks generalizing done gid base with
  | nil => simp
  | cons k ks ih =>
    rw [List.foldl_cons, Resolver.assignSlot]
    split <;> simp [ih, noSlot]

theorem nodup_addSpecial (ns : List String) (g : Graph) :
    ((ns.foldl Resolver.addSpecial g).kernels.map (·.name)).Nodup ↔
      (g.kernels.map (·.name)).Nodup := by
  induction ns generalizing g with
  | nil => rfl
  | cons n ns ih =>
    rw [List.foldl_cons, ih]
    unfold Resolver.addSpecial
    split
    · rfl
    · rename_i hfresh
      split
      · rfl
      · -- a pseudo-element is created only under a fresh name
        have hnot : n ∉ g.kernels.map (·.name) := by
          simpa [Resolver.hasKernel] using hfresh
        rw [List.map_append, List.map_singleton, List.nodup_append_comm]
        simp [Resolver.specialKernel, List.nodup_cons, hnot]

/-! ## The names of an accepted module -/

/-- **When the kernels have distinct names.** For every module that the resolver accepts, the
kernels of the graph have pairwise distinct names if and only if no two elements of the expanded
module, at least one of them written with a name, have the same qualified name. -/
theorem kernelNames_nodup_iff {m : Module} {fuel : Nat} {diags d : DiagnosticEngine} {g : Graph}
    (h : resolveModuleToGraph fuel m diags = some (true, d, g)) :
    (g.kernels.map (·.name)).Nodup ↔
      ∃ occs, moduleOccurrences m fuel = some occs ∧ NamedApart occs := by
  obtain ⟨rf, hrf, -, -, rfl⟩ := resolver_of_resolves h
  obtain ⟨os, hos, hnames, -⟩ := adds_module hrf
  have hslots := congrArg (List.map (·.name))
    (map_noSlot_assignSlot rf.synthesizeSpecials.graph.kernels [] 0 0x1000)
  simp only [List.map_map, List.map_nil, List.nil_append] at hslots
  have hg : rf.synthesizeSpecials.assignSignalSlots.graph.kernels.map (·.name)
      = rf.synthesizeSpecials.graph.kernels.map (·.name) := hslots
  rw [hg]
  show (((Resolver.referenced rf.graph.edges).foldl Resolver.addSpecial rf.graph).kernels.map
    (·.name)).Nodup ↔ _
  rw [nodup_addSpecial, hnames, nodup_occurrences_iff hos]
  constructor
  · exact fun happart => ⟨os, hos, happart⟩
  · rintro ⟨os', hos', happart⟩
    rwa [Option.some.inj (hos.symm.trans hos')]

/-- Two instances of one name. -/
def twiceModule : Module where
  stmts := [
    .elementDecl passElement,
    .instanceDecl { type := "Pass", name := "x" },
    .instanceDecl { type := "Pass", name := "x" },
    .connectionDecl (connect "tor_in" "x")]

/-- `closedModule` pastes `g::a` and `g::b`. -/
theorem kernelNames_nodup_closed :
    ∃ d g, resolveModuleToGraph 2 closedModule {} = some (true, d, g) ∧
      (g.kernels.map (·.name)).Nodup := by
  have hrun : (resolveModuleToGraph 2 closedModule {}).map Prod.fst = some true := by decide
  obtain ⟨⟨ok, d, g⟩, hres, hok⟩ := Option.map_eq_some_iff.mp hrun
  obtain rfl : ok = true := hok
  refine ⟨d, g, hres, (kernelNames_nodup_iff hres).mpr ?_⟩
  exact ⟨[⟨"g::a", false⟩, ⟨"g::b", false⟩], by decide, by decide⟩

/-- `Pass :: x` twice: accepted, with two kernels called `x`. -/
theorem duplicate_instance_accepted :
    ¬ ∀ (m : Module) (fuel : Nat) (diags d : DiagnosticEngine) (g : Graph),
      resolveModuleToGraph fuel m diags = some (true, d, g) → (g.kernels.map (·.name)).Nodup := by
  intro h
  have hrun : (resolveModuleToGraph 1 twiceModule {}).map
      (fun out => (out.1, out.2.2.kernels.map (·.name))) = some (true, ["x", "x", "tor_in"]) := by
    decide
  obtain ⟨⟨ok, d, g⟩, hres, hout⟩ := Option.map_eq_some_iff.mp hrun
  obtain ⟨rfl, hnames⟩ := Prod.mk.inj hout
  have hnd := h twiceModule 1 {} d g hres
  rw [show g.kernels.map (·.name) = ["x", "x", "tor_in"] from hnames] at hnd
  exact absurd hnd (by decide)

end OpenClickNP
