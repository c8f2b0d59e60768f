import OpenClickNP.Lib.Acyclic
import OpenClickNP.Compiler.Faults

/-!
# Groups that contain themselves

An instance of a group is expanded in place, and nothing keeps a group from being expanded inside
itself: the expansion ends exactly when no instance of the module leads to such a group
(`resolves_iff`). One that is never instantiated is not noticed, either: the resolver has no error
for it.
-/

namespace OpenClickNP

open Ast Eg HandInline

open Relation (TransGen ReflTransGen)

/-- The groups of the module. -/
def groups (m : Module) : List ElementGroupDecl :=
  m.stmts.filterMap fun s => match s with
    | .elementGroupDecl g => some g
    | _ => none

/-- The body of `g` has an instance of the group `g'`. -/
def HasGroup (m : Module) (g g' : ElementGroupDecl) : Prop :=
  ∃ d, .instanceDecl d ∈ g.body ∧ groupOf m d = some g'

/-- A group of the module contains itself, directly or through others. -/
def Recursive (m : Module) (g : ElementGroupDecl) : Prop :=
  .elementGroupDecl g ∈ m.stmts ∧ TransGen (HasGroup m) g g

/-- An instance of the module leads to the group. -/
def Instantiated (m : Module) (g : ElementGroupDecl) : Prop :=
  ∃ d g₀, .instanceDecl d ∈ m.stmts ∧ groupOf m d = some g₀ ∧ ReflTransGen (HasGroup m) g₀ g

/-- What the errors of the resolver are about: a second declaration of a name, a type that is not
declared, a node that is not there. -/
def OtherFault (msg : String) : Prop :=
  ∃ n, msg = "duplicate \x60.element " ++ n ++ "\x60" ∨
    msg = "duplicate \x60.element_group " ++ n ++ "\x60" ∨
    msg = "unknown element or group type \x60" ++ n ++ "\x60" ∨ AboutNode n msg

/-- The resolver returns, and if a group contains itself there is an error for it. -/
def EndsWithError (m : Module) (diags : DiagnosticEngine) : Prop :=
  ∃ out, Resolves m diags out ∧
    ((∃ g, Recursive m g) →
      ∃ x ∈ out.2.1.diags, x ∉ diags.diags ∧ x.severity = .error ∧ ¬ OtherFault x.message)

/-! ## The expansion -/

section

variable {m : Module} {r r' : Resolver} {g : ElementGroupDecl} {d : InstanceDecl}

/-- Only groups of the module are referred to. -/
theorem hasGroup_mem {g g' : ElementGroupDecl} (h : HasGroup m g g') : g' ∈ groups m := by
  obtain ⟨d, -, hd⟩ := h
  exact List.mem_filterMap.mpr ⟨_, mem_of_groupOf hd, rfl⟩

theorem acc_iff_not_recursive :
    Acc (fun b a => HasGroup m a b) g ↔
      ∀ b, ReflTransGen (HasGroup m) g b → ¬ TransGen (HasGroup m) b b :=
  Acyclic.acc_iff fun _ _ => hasGroup_mem

theorem inlineStmt_succ {fuel : Nat} {n : String} {s : GroupStmt}
    (h : Resolver.inlineStmt (Resolver.processInstance fuel) n r s = some r') :
    Resolver.inlineStmt (Resolver.processInstance (fuel + 1)) n r s = some r' := by
  cases s with
  | instanceDecl d => exact processInstance_succ h
  | connectionDecl c => exact h

/-- An instance that leads to no recursive group is expanded. Induction on the groups it leads
to. -/
theorem exists_processInstance (hr : Tables m r)
    (hacc : ∀ g, groupOf m d = some g → Acc (fun b a => HasGroup m a b) g) :
    ∃ fuel r', Resolver.processInstance fuel r d = some r' ∧ Tables m r' := by
  have hgroup : ∀ g, Acc (fun b a => HasGroup m a b) g → ∀ (r : Resolver) (d : InstanceDecl),
      Tables m r → groupOf m d = some g →
        ∃ fuel r', Resolver.processInstance fuel r d = some r' ∧ Tables m r' := by
    intro g hg
    induction hg with
    | intro g _ ih =>
      intro r d hr hd
      have hbody : ∀ r, Tables m r → ∀ s ∈ g.body, ∃ n r',
          Resolver.inlineStmt (Resolver.processInstance n) d.name r s = some r' ∧ Tables m r' := by
        intro r hr s hs
        cases s with
        | connectionDecl c => exact ⟨0, _, rfl, hr.extends (extends_addConnection _ "")⟩
        | instanceDecl d' =>
          have hr₁ := hr.extends (extends_prefixInstance (d.name ++ "::") d')
          cases hd' : groupOf m d' with
          | none =>
            exact ⟨1, _, groupOf_eq_none hr₁ _ ((groupOf_prefixInstance _ _ _).trans hd') 0,
              hr₁.extends (extends_emitInstance _)⟩
          | some g' =>
            exact ih g' ⟨d', hs, hd'⟩ _ _ hr₁ ((groupOf_prefixInstance _ _ _).trans hd')
      obtain ⟨n, r', hrun, hr'⟩ := FoldM.exists_bound (Tables m)
        (fun _ _ _ _ => inlineStmt_succ) hbody hr
      exact ⟨n + 1, r', by rw [groupOf_eq_some hr d hd]; exact hrun, hr'⟩
  cases hd : groupOf m d with
  | none => exact ⟨1, _, groupOf_eq_none hr d hd 0, hr.extends (extends_emitInstance d)⟩
  | some g => exact hgroup g (hacc g hd) r d hr hd

/-- An instance that is expanded leads to no recursive group. Induction on the bound. -/
theorem acc_of_processInstance {fuel : Nat} (hr : Tables m r)
    (h : Resolver.processInstance fuel r d = some r') (hd : groupOf m d = some g) :
    Acc (fun b a => HasGroup m a b) g := by
  induction fuel generalizing r r' d g with
  | zero => cases h
  | succ fuel ih =>
    rw [groupOf_eq_some hr d hd] at h
    refine Acc.intro g fun g' hg' => ?_
    obtain ⟨d', hmem, hd'⟩ := hg'
    obtain ⟨b, c, hb, hstep, -⟩ := FoldM.step_of_mem Extends.refl Extends.trans
      (fun _ _ _ _ hs => extends_inlineStmt (fun _ _ _ hp => extends_processInstance hp) hs) h hmem
    exact ih ((hr.extends hb).extends (extends_prefixInstance _ d')) hstep
      ((groupOf_prefixInstance _ _ _).trans hd')

theorem processTop_succ {fuel : Nat} {s : TopStmt} (h : Resolver.processTop fuel r s = some r') :
    Resolver.processTop (fuel + 1) r s = some r' := by
  cases s with
  | instanceDecl d => exact processInstance_succ h
  | _ => exact h

end

/-- **When the resolver returns.** -/
theorem resolves_iff (m : Module) (diags : DiagnosticEngine) :
    (∃ out, Resolves m diags out) ↔ ∀ g, Instantiated m g → ¬ Recursive m g := by
  have hstart := tables_start m diags
  constructor
  · rintro ⟨out, fuel, hout⟩ g ⟨d, g₀, hd, hg₀, hlead⟩ hrec
    obtain ⟨r, hr, -⟩ := resolver_of_resolves hout
    obtain ⟨b, c, hb, hstep, -⟩ := FoldM.step_of_mem Extends.refl Extends.trans
      (fun _ _ _ _ hs => extends_processTop hs) hr hd
    have hacc := acc_of_processInstance (hstart.extends hb) hstep hg₀
    exact acc_iff_not_recursive.mp hacc g hlead hrec.2
  · intro hno
    have hstmt : ∀ r, Tables m r → ∀ s ∈ m.stmts, ∃ n r',
        Resolver.processTop n r s = some r' ∧ Tables m r' := by
      intro r hr s hs
      cases s with
      | instanceDecl d =>
        refine exists_processInstance hr fun g hg => acc_iff_not_recursive.mpr fun b hb hloop => ?_
        obtain ⟨b', -, d', -, hd'⟩ := Relation.TransGen.tail'_iff.mp hloop
        exact hno b ⟨d, g, hs, hg, hb⟩ ⟨mem_of_groupOf hd', hloop⟩
      | connectionDecl c => exact ⟨0, _, rfl, hr.extends (extends_addConnection _ "")⟩
      | _ => exact ⟨0, r, rfl, hr⟩
    obtain ⟨fuel, r, hr, -⟩ := FoldM.exists_bound (Tables m)
      (fun _ _ _ _ => processTop_succ) hstmt hstart
    exact ⟨_, fuel, by rw [resolveModuleToGraph, Resolver.resolve, hr]; rfl⟩

theorem Fault.other {m : Module} {x : Diagnostic} (h : Fault m x) : OtherFault x.message := by
  cases h with
  | element d _ => exact ⟨d.name, .inl rfl⟩
  | group d _ => exact ⟨d.name, .inr (.inl rfl)⟩
  | type n _ => exact ⟨n, .inr (.inr (.inl rfl))⟩
  | node n hmsg _ => exact ⟨n, .inr (.inr (.inr hmsg))⟩

/-- **When recursion among the groups is handled.** -/
theorem endsWithError_iff (m : Module) (diags : DiagnosticEngine) :
    EndsWithError m diags ↔ ∀ g, ¬ Recursive m g := by
  constructor
  · rintro ⟨out, ⟨fuel, hout⟩, herror⟩ g hg
    obtain ⟨x, hx, hnew, -, hother⟩ := herror ⟨g, hg⟩
    obtain ⟨rf, hrf, heq⟩ := Option.bind_eq_some_iff.mp hout
    cases heq
    rcases (sourced_resolve diags hrf).diags x hx with hold | hfault
    · exact hnew hold
    · exact hother hfault.other
  · intro hno
    obtain ⟨out, hout⟩ := (resolves_iff m diags).mpr fun g _ => hno g
    exact ⟨out, hout, fun ⟨g, hg⟩ => absurd hg (hno g)⟩

/-- **Groups that contain themselves.** The resolver returns exactly when no instance leads to such
a group, and gives an error for it, where there is one, never. -/
theorem recursion_handled_iff (m : Module) (diags : DiagnosticEngine) :
    ((∃ out, Resolves m diags out) ↔ ∀ g, Instantiated m g → ¬ Recursive m g) ∧
      (EndsWithError m diags ↔ ∀ g, ¬ Recursive m g) :=
  ⟨resolves_iff m diags, endsWithError_iff m diags⟩

/-- `.element_group Ring <1, 1> { Ring :: r }` and an instance of it. -/
def ringGroup : ElementGroupDecl where
  name := "Ring"
  nInPorts := 1
  nOutPorts := 1
  body := [.instanceDecl { type := "Ring", name := "r" }]

def ringModule : Module where
  stmts := [.elementGroupDecl ringGroup, .instanceDecl { type := "Ring", name := "x" }]

/-- It is expanded without end. -/
theorem ringModule_unresolved :
    ¬ ∀ (m : Module) (diags : DiagnosticEngine), EndsWithError m diags := by
  intro h
  obtain ⟨out, hout, -⟩ := h ringModule {}
  have hring : groupOf ringModule { type := "Ring", name := "x" } = some ringGroup := by decide
  have hself : HasGroup ringModule ringGroup ringGroup :=
    ⟨{ type := "Ring", name := "r" }, List.mem_cons_self, by decide⟩
  refine (resolves_iff ringModule {}).mp ⟨out, hout⟩ ringGroup ⟨_, _, ?_, hring, .refl⟩
    ⟨List.mem_cons_self, .single hself⟩
  exact List.mem_cons_of_mem _ List.mem_cons_self

end OpenClickNP
