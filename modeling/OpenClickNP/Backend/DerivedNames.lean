import OpenClickNP.Compiler.Expansion
import OpenClickNP.Compiler.GroupRecursion
import OpenClickNP.Compiler.Identifiers
import OpenClickNP.Compiler.Lower

/-!
# The names that the backends derive

Every backend splices the name of a kernel into names of its own: functions, namespaces, modules,
variables and files. `inlineGroup` puts `::` between the name of an instance and those in the body
of its group, so that the kernels of a group have names that are no identifiers; and a suffix can
make one kernel's name into that of another. The names derived are well formed and tell the kernels
apart exactly when no instance of a group holds an element and the names written keep clear of each
other (`derivedNames_iff`).
-/

namespace OpenClickNP

open Ast Eg Be QualifiedName HandInline

open Relation (ReflTransGen)

/-! ## Derived names -/

/-- Where a derived name has to be alone. -/
inductive NameSpace where
  /-- The files `kernels/<name>.cpp`. -/
  | kernelFiles
  /-- The functions that Vitis links and names its modules after. -/
  | hlsTop
  /-- The file of one kernel. -/
  | hlsUnit (kernel : String)
  /-- `sw_emu/topology.cpp`. -/
  | swEmu
  /-- `systemc/topology.cpp`, and its `sc_main`. -/
  | systemC
  | scMain
  /-- The instances in `verilator/topology.v`. -/
  | verilogTop
  /-- The compute units of the link files. -/
  | link
deriving DecidableEq, Repr

structure DerivedName where
  space : NameSpace
  name : String
deriving DecidableEq, Repr

/-- What the backends make of the name of a kernel; a `.state` gets a namespace. -/
def namesFrom (name : String) (hasState : Bool) : List DerivedName :=
  [⟨.kernelFiles, name⟩, ⟨.kernelFiles, name ++ "_tb"⟩, ⟨.hlsTop, name⟩,
    ⟨.swEmu, "kernel_" ++ name⟩, ⟨.systemC, "SC_" ++ name⟩, ⟨.scMain, "m_" ++ name⟩,
    ⟨.verilogTop, "u_" ++ name⟩, ⟨.link, name⟩] ++
  if hasState then [⟨.hlsUnit name, name ++ "_ns"⟩, ⟨.swEmu, name ++ "_ns"⟩] else []

def derivedNames (k : KernelHls) : List DerivedName := namesFrom k.name (k.stateCpp != "")

/-- Every kernel of the plan has a C identifier for its name, and so is every name derived from it;
no name is derived from two kernels. -/
structure WellNamedPlan (b : Build) : Prop where
  ident : ∀ k ∈ b.kernels, IsCIdent k.name
  derived : ∀ k ∈ b.kernels, ∀ n ∈ derivedNames k, IsCIdent n.name
  apart : b.kernels.Pairwise fun k k' => ∀ n ∈ derivedNames k, n ∉ derivedNames k'

theorem isCIdent_namesFrom {name : String} (h : IsCIdent name) (hasState : Bool) :
    ∀ n ∈ namesFrom name hasState, IsCIdent n.name := by
  have htb : IsCIdent (name ++ "_tb") := h.append (by decide)
  have hns : IsCIdent (name ++ "_ns") := h.append (by decide)
  have hpre : ∀ pre, IsCIdent pre → IsCIdent (pre ++ name) := fun pre hpre => hpre.append h.word
  have hkernel := hpre "kernel_" (by decide)
  have hsc := hpre "SC_" (by decide)
  have hm := hpre "m_" (by decide)
  have hu := hpre "u_" (by decide)
  intro n hn
  unfold namesFrom at hn
  rcases List.mem_append.mp hn with hn | hn
  · simp only [List.mem_cons, List.not_mem_nil, or_false] at hn
    rcases hn with rfl | rfl | rfl | rfl | rfl | rfl | rfl | rfl <;> assumption
  · split at hn
    · simp only [List.mem_cons, List.not_mem_nil, or_false] at hn
      rcases hn with rfl | rfl <;> assumption
    · cases hn

/-- Nothing that is derived from one name is derived from the other. -/
def KeepClear (a : String) (aState : Bool) (b : String) (bState : Bool) : Prop :=
  a ≠ b ∧ a ++ "_tb" ≠ b ∧ b ++ "_tb" ≠ a ∧
    (aState = true → a ++ "_ns" ≠ "kernel_" ++ b) ∧ (bState = true → b ++ "_ns" ≠ "kernel_" ++ a)

instance (a : String) (aState : Bool) (b : String) (bState : Bool) :
    Decidable (KeepClear a aState b bState) :=
  inferInstanceAs (Decidable (_ ∧ _ ∧ _ ∧ _ ∧ _))

theorem namesFrom_disjoint_iff (a : String) (aState : Bool) (b : String) (bState : Bool) :
    (∀ n ∈ namesFrom a aState, n ∉ namesFrom b bState) ↔ KeepClear a aState b bState := by
  unfold namesFrom KeepClear
  cases aState <;> cases bState <;>
    simp [String.append_right_inj, String.append_left_inj, DerivedName.mk.injEq] <;> grind

/-! ## Kernels and elements -/

/-- What the derived names depend on. -/
def PlacedElement.view (p : PlacedElement) : String × String :=
  (p.name, Resolver.textOf p.decl.state)

/-- Its kernel has a state block. -/
def PlacedElement.hasState (p : PlacedElement) : Bool := Resolver.textOf p.decl.state != ""

/-! ## Groups that hold no element -/

/-- An element is placed in the body of the group, or in that of a group inside it. -/
def HoldsElement (m : Module) (g : ElementGroupDecl) : Prop :=
  ∃ g', ReflTransGen (HasGroup m) g g' ∧
    ∃ d decl, .instanceDecl d ∈ g'.body ∧ (declared m).elemDecls.lookup d.type = some decl

/-- No instance of a group in the module holds an element. -/
def HollowGroups (m : Module) : Prop :=
  ∀ d g, .instanceDecl d ∈ m.stmts → groupOf m d = some g → ¬ HoldsElement m g

section
variable {m : Module} {N : Option String} {d : InstanceDecl} {g : ElementGroupDecl}
variable {fuel k k' : Nat} {ss : List Site}

theorem holdsElement_iff : HoldsElement m g ↔
    ∃ d, .instanceDecl d ∈ g.body ∧
      ((∃ decl, (declared m).elemDecls.lookup d.type = some decl) ∨
        ∃ g', groupOf m d = some g' ∧ HoldsElement m g') := by
  constructor
  · rintro ⟨g', hlead, d, decl, hd, hdecl⟩
    rcases Relation.ReflTransGen.cases_head hlead with rfl | ⟨g₁, ⟨d₁, hd₁, hg₁⟩, hrest⟩
    · exact ⟨d, hd, Or.inl ⟨decl, hdecl⟩⟩
    · exact ⟨d₁, hd₁, Or.inr ⟨g₁, hg₁, g', hrest, d, decl, hd, hdecl⟩⟩
  · rintro ⟨d, hd, ⟨decl, hdecl⟩ | ⟨g₁, hg₁, g', hlead, d', decl, hd', hdecl⟩⟩
    · exact ⟨g, .refl, d, decl, hd, hdecl⟩
    · exact ⟨g', .head ⟨d, hd, hg₁⟩ hlead, d', decl, hd', hdecl⟩

/-- **A group that holds no element adds none, and only such a group.** Induction on the nesting
of the groups. -/
theorem elements_eq_nil_iff (hg : groupOf m d = some g) (h : sites m fuel N k d = some (ss, k')) :
    elements ss = [] ↔ ¬ HoldsElement m g := by
  induction fuel generalizing N k k' d g ss with
  | zero => cases h
  | succ fuel ih =>
    rw [sites_group hg] at h
    rw [holdsElement_iff]
    constructor
    · rintro hss ⟨d', hd', hor⟩
      -- the sites of `d'` are among those of the group
      obtain ⟨i, qs, j, hqs, hsub⟩ := sitesAll_of_mem h hd'
      rw [hss] at hsub
      have hnil : elements qs = [] := List.subset_nil.mp hsub
      cases fuel with
      | zero => cases hqs
      | succ fuel =>
        rcases hor with ⟨decl, hdecl⟩ | ⟨g', hg', hholds⟩
        · rw [sites_element hdecl] at hqs
          cases hqs
          cases hnil
        · exact (ih hg' hqs).mp hnil hholds
    · intro hno
      refine List.eq_nil_iff_forall_not_mem.mpr fun p hp => ?_
      obtain ⟨d', i, qs, j, hd', hqs, hp⟩ := mem_sitesAll h hp
      have hnil : elements qs = [] := by
        cases fuel with
        | zero => cases hqs
        | succ fuel =>
          cases hdecl : (declared m).elemDecls.lookup d'.type with
          | some decl => exact absurd ⟨d', hd', Or.inl ⟨decl, hdecl⟩⟩ hno
          | none =>
            cases hg' : groupOf m d' with
            | some g' =>
              exact (ih hg' hqs).mpr fun hholds => hno ⟨d', hd', Or.inr ⟨g', hg', hholds⟩⟩
            | none =>
              rw [sites_unknown hdecl hg'] at hqs
              cases hqs
              rfl
      rw [hnil] at hp
      cases hp

/-- Inside a group every name is qualified. -/
theorem qualified_of_scope {n : String} (h : sites m fuel (some n) k d = some (ss, k'))
    {p : PlacedElement} (hp : p ∈ elements ss) : ∃ a b, p.name = a ++ "::" ++ b := by
  induction fuel generalizing n k k' d ss with
  | zero => cases h
  | succ fuel ih =>
    cases hdecl : (declared m).elemDecls.lookup d.type with
    | some decl =>
      rw [sites_element hdecl] at h
      cases h
      rw [List.mem_singleton.mp hp]
      exact ⟨n, _, rfl⟩
    | none =>
      cases hg : groupOf m d with
      | some g =>
        rw [sites_group hg] at h
        obtain ⟨d', i, qs, j, -, hqs, hp⟩ := mem_sitesAll h hp
        exact ih hqs hp
      | none =>
        rw [sites_unknown hdecl hg] at h
        cases h
        cases hp

/-! ## The plan of an accepted module -/

theorem isCIdent_autoName {type : String} (h : IsCIdent type) (k : Nat) :
    IsCIdent (autoName type k) :=
  (h.append (by decide)).append (word_natToString k)

theorem mem_topScope : .instanceDecl d ∈ topScope m ↔ .instanceDecl d ∈ m.stmts := by
  unfold topScope
  rw [List.mem_filterMap]
  constructor
  · rintro ⟨s, hs, hstmt⟩
    cases s <;> cases hstmt
    exact hs
  · exact fun hd => ⟨_, hd, rfl⟩

/-- **Which names are identifiers**: those of the elements that stand in the module itself. -/
theorem isCIdent_elements_iff (hspelled : ∀ x ∈ m.stmts, Parser.TopSpelled x)
    (h : moduleSites m fuel = some ss) :
    (∀ p ∈ elements ss, IsCIdent p.name) ↔ HollowGroups m := by
  obtain ⟨⟨ss, k⟩, hall, rfl⟩ := Option.map_eq_some_iff.mp h
  constructor
  · intro hident d g hd hg hholds
    obtain ⟨i, qs, j, hqs, hsub⟩ := sitesAll_of_mem hall (mem_topScope.mpr hd)
    have hne : elements qs ≠ [] := fun hnil => (elements_eq_nil_iff hg hqs).mp hnil hholds
    obtain ⟨p, hp⟩ := List.exists_mem_of_ne_nil _ hne
    -- the element is inside the group, so its name is qualified
    have hname := hident p (hsub hp)
    cases fuel with
    | zero => cases hqs
    | succ fuel =>
      rw [sites_group hg] at hqs
      obtain ⟨d', i', qs', j', -, hqs', hp⟩ := mem_sitesAll hqs hp
      obtain ⟨a, b, hqualified⟩ := qualified_of_scope hqs' hp
      rw [hqualified] at hname
      exact not_isCIdent_qualified a b hname
  · intro hhollow p hp
    obtain ⟨d, i, qs, j, hd, hqs, hp⟩ := mem_sitesAll hall hp
    -- an instance of an element keeps its name; the groups have no elements to give
    rw [mem_topScope] at hd
    obtain ⟨htype, hname⟩ := hspelled _ hd
    cases fuel with
    | zero => cases hqs
    | succ fuel =>
      cases hdecl : (declared m).elemDecls.lookup d.type with
      | some decl =>
        rw [sites_element hdecl] at hqs
        cases hqs
        rw [List.mem_singleton.mp hp]
        show IsCIdent (ownName none true d i)
        unfold ownName
        split
        · exact isCIdent_autoName htype i
        · exact hname
      | none =>
        cases hg : groupOf m d with
        | some g =>
          rw [(elements_eq_nil_iff hg hqs).mpr (hhollow d g hd hg)] at hp
          cases hp
        | none =>
          rw [sites_unknown hdecl hg] at hqs
          cases hqs
          cases hp

/-- The suffixes of the backends do not make the name of one into a name of the other. -/
def Unsuffixed (a b : PlacedElement) : Prop :=
  a.name ++ "_tb" ≠ b.name ∧ b.name ++ "_tb" ≠ a.name ∧
    (a.hasState = true → a.name ++ "_ns" ≠ "kernel_" ++ b.name) ∧
    (b.hasState = true → b.name ++ "_ns" ≠ "kernel_" ++ a.name)

instance (a b : PlacedElement) : Decidable (Unsuffixed a b) :=
  inferInstanceAs (Decidable (_ ∧ _ ∧ _ ∧ _))

/-- **Which names keep clear of each other.** -/
theorem keepClear_elements_iff (h : moduleSites m fuel = some ss) :
    ((elements ss).Pairwise fun a b => KeepClear a.name a.hasState b.name b.hasState) ↔
      NamedApart ((elements ss).map (·.occurrence)) ∧ (elements ss).Pairwise Unsuffixed := by
  have hocc : moduleOccurrences m fuel = some ((elements ss).map (·.occurrence)) := by
    rw [moduleOccurrences_eq, h]
    rfl
  rw [← nodup_occurrences_iff hocc, List.map_map, List.Nodup, List.pairwise_map,
    ← List.pairwise_and_iff]
  exact Iff.rfl

end

/-- The names and the states of the kernels of the plan. -/
theorem views_of_accepted {m : Module} {fuel : Nat} {diags d : DiagnosticEngine} {g : Graph}
    (h : resolveModuleToGraph fuel m diags = some (true, d, g)) (platform : Platform)
    (userClockHz : Int) (sourcePath : String) :
    ∃ ss, moduleSites m fuel = some ss ∧
      (lowerToBackend g platform userClockHz sourcePath).kernels.map
        (fun k => (k.name, k.stateCpp)) = (elements ss).map PlacedElement.view := by
  obtain ⟨ss, hss, hkernels, -⟩ := graph_of_accepted h
  refine ⟨ss, hss, ?_⟩
  have hviews := congrArg (List.map fun k : Kernel => (k.name, k.stateCpp)) hkernels
  rw [List.map_map, List.map_map] at hviews
  rw [(lowerToBackend_lists g platform userClockHz sourcePath).1, List.map_map]
  exact hviews

/-! ## When the names are well formed -/

/-- Two views keep clear of each other. -/
def viewsKeepClear (a b : String × String) : Prop :=
  KeepClear a.1 (a.2 != "") b.1 (b.2 != "")

/-- **When the derived names are well formed and tell the kernels apart.** For every file that is
parsed and resolved without an error: exactly when no instance of a group in the module holds an
element, no written name is used again, and no suffix of a backend makes one name into a name of
another kernel. -/
theorem derivedNames_iff {fs : FileSystem} {importDirs : List String} {depth : Nat}
    {path : String} {turns : Nat} {p₀ p : Parser} {m : Module} {fuel : Nat}
    {d : DiagnosticEngine} {g : Graph}
    (hparse : Parser.parseFile fs importDirs depth path turns p₀ = some (some m, p))
    (h : resolveModuleToGraph fuel m p.diags = some (true, d, g)) (platform : Platform)
    (userClockHz : Int) (sourcePath : String) :
    WellNamedPlan (lowerToBackend g platform userClockHz sourcePath) ↔
      HollowGroups m ∧ ∃ ss, moduleSites m fuel = some ss ∧
        NamedApart ((elements ss).map (·.occurrence)) ∧ (elements ss).Pairwise Unsuffixed := by
  have hspelled := Parser.triple_spelledFile fs importDirs depth path turns p₀ _ _ trivial hparse m
    rfl
  obtain ⟨ss, hss, hviews⟩ := views_of_accepted h platform userClockHz sourcePath
  generalize lowerToBackend g platform userClockHz sourcePath = b at hviews ⊢
  have hident : (∀ k ∈ b.kernels, IsCIdent k.name) ↔ HollowGroups m := by
    rw [← isCIdent_elements_iff hspelled hss]
    have hnames : b.kernels.map (·.name) = (elements ss).map (·.name) := by
      have hfst := congrArg (List.map Prod.fst) hviews
      rwa [List.map_map, List.map_map] at hfst
    rw [← List.forall_mem_map (f := fun k : KernelHls => k.name) (P := IsCIdent), hnames,
      List.forall_mem_map]
  -- both sides are about names and states only, so the kernels can be exchanged for the elements
  have hapart : (b.kernels.Pairwise fun k k' => ∀ n ∈ derivedNames k, n ∉ derivedNames k') ↔
      NamedApart ((elements ss).map (·.occurrence)) ∧ (elements ss).Pairwise Unsuffixed := by
    rw [← keepClear_elements_iff hss]
    have hkernels := List.pairwise_map (f := fun k : KernelHls => (k.name, k.stateCpp))
      (R := viewsKeepClear) (l := b.kernels)
    have hplaced := List.pairwise_map (f := PlacedElement.view) (R := viewsKeepClear)
      (l := elements ss)
    rw [hviews] at hkernels
    have hderived : (b.kernels.Pairwise fun k k' => ∀ n ∈ derivedNames k, n ∉ derivedNames k') ↔
        b.kernels.Pairwise fun k k' => viewsKeepClear (k.name, k.stateCpp) (k'.name, k'.stateCpp) :=
      List.Pairwise.iff fun k k' => namesFrom_disjoint_iff _ _ _ _
    exact hderived.trans (hkernels.symm.trans hplaced)
  constructor
  · intro hplan
    exact ⟨hident.mp hplan.ident, ss, hss, hapart.mp hplan.apart⟩
  · rintro ⟨hhollow, ss', hss', happart⟩
    obtain rfl : ss = ss' := Option.some.inj (hss.symm.trans hss')
    have hnames := hident.mpr hhollow
    exact ⟨hnames, fun k hk => isCIdent_namesFrom (hnames k hk) _, hapart.mpr happart⟩

/-- A file system that holds one text. -/
def oneText (text : String) : FileSystem where
  weaklyCanonical := id
  isAbsolute := fun _ => false
  isFile := fun _ => true
  parentPath := fun _ => ""
  join := fun dir name => dir ++ name
  read := fun _ => some text.toList

/-- What becomes of the text. -/
def planned (text : String) : Option (Module × Parser × Bool × DiagnosticEngine × Graph) := do
  let (parsed, p) ← Parser.parseFile (oneText text) [] 1 "in.clnp" 100 {}
  let m ← parsed
  let out ← resolveModuleToGraph 3 m p.diags
  pure (m, p, out)

theorem planned_eq {text : String} {m : Module} {p : Parser}
    {out : Bool × DiagnosticEngine × Graph} (h : planned text = some (m, p, out)) :
    Parser.parseFile (oneText text) [] 1 "in.clnp" 100 {} = some (some m, p) ∧
      resolveModuleToGraph 3 m p.diags = some out := by
  obtain ⟨⟨parsed, q⟩, hparse, h⟩ := Option.bind_eq_some_iff.mp h
  obtain ⟨m', hm, h⟩ := Option.bind_eq_some_iff.mp h
  obtain ⟨out', hout, h⟩ := Option.bind_eq_some_iff.mp h
  cases h
  cases hm
  exact ⟨hparse, hout⟩

def oneElement : String := ".element E <1, 1> { .handler { } } E :: a"

theorem derivedNames_oneElement : ∃ m p d g,
    planned oneElement = some (m, p, true, d, g) ∧
      (WellNamedPlan (lowerToBackend g .u50Xdma 1 "in.clnp") ↔
        HollowGroups m ∧ ∃ ss, moduleSites m 3 = some ss ∧
          NamedApart ((elements ss).map (·.occurrence)) ∧
            (elements ss).Pairwise Unsuffixed) := by
  have haccepted : (planned oneElement).map (·.2.2.1) = some true := by decide +kernel
  obtain ⟨⟨m, p, ok, d, g⟩, hplanned, rfl⟩ := Option.map_eq_some_iff.mp haccepted
  obtain ⟨hparse, hresolve⟩ := planned_eq hplanned
  exact ⟨m, p, d, g, hplanned, derivedNames_iff hparse hresolve .u50Xdma 1 "in.clnp"⟩

/-- An element in a group. -/
def grouped : String :=
  ".element E <1, 1> { .handler { } } .element_group G <1, 1> { E :: x } G :: g"

/-- Its kernel is `g::x`, and so is the function of the kernel. -/
theorem derivedNames_grouped : ¬ ∀ (fs : FileSystem) (importDirs : List String) (depth : Nat)
    (path : String) (turns : Nat) (m : Module) (p : Parser) (fuel : Nat) (d : DiagnosticEngine)
    (g : Graph) (platform : Platform) (userClockHz : Int) (sourcePath : String),
    Parser.parseFile fs importDirs depth path turns {} = some (some m, p) →
    resolveModuleToGraph fuel m p.diags = some (true, d, g) →
    WellNamedPlan (lowerToBackend g platform userClockHz sourcePath) := by
  intro h
  have hkernels : (planned grouped).map (fun x => (x.2.2.1,
      (lowerToBackend x.2.2.2.2 .u50Xdma 1 "in.clnp").kernels.map (·.name)))
      = some (true, ["g::x"]) := by decide +kernel
  obtain ⟨⟨m, p, ok, d, g⟩, hplanned, heq⟩ := Option.map_eq_some_iff.mp hkernels
  obtain ⟨hok, hnames⟩ := Prod.mk.injEq .. ▸ heq
  obtain rfl : ok = true := hok
  obtain ⟨hparse, hresolve⟩ := planned_eq hplanned
  have hplan := h _ _ _ _ _ _ _ _ _ _ .u50Xdma 1 "in.clnp" hparse hresolve
  have hmem : "g::x" ∈ (lowerToBackend g .u50Xdma 1 "in.clnp").kernels.map (·.name) := by
    rw [hnames]
    exact List.mem_singleton_self _
  obtain ⟨k, hk, hname⟩ := List.mem_map.mp hmem
  -- `::` is no part of an identifier
  have hident := hplan.ident k hk
  rw [hname] at hident
  exact absurd hident (by decide)

end OpenClickNP
