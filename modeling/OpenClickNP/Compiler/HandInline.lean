import OpenClickNP.Lib.QualifiedName
import OpenClickNP.Compiler.Resolver

/-!
# Inlining element groups by hand

What `language.md` says of groups, as a transformation of modules: "group instantiation inlines
the body, replacing `begin` and `end` with the outer instance's port references". Every group
instance is expanded, however deep; an instance in a body becomes an instance of the module under
its qualified name, and a connection through the ports of a group becomes one connection for
each pair of real ends that it joins.

This is the specification that the resolver's `inlineGroup` is compared with, not a translation
of it.
-/

namespace OpenClickNP

open Ast Eg QualifiedName

namespace HandInline

/-! ## Scopes -/

/-- The declarations of a module, as the resolver collects them. -/
def declared (m : Module) : Resolver := m.stmts.foldl Resolver.collectDecl {}

/-- The group that an instance expands to. An element of that name comes first. -/
def groupOf (m : Module) (d : InstanceDecl) : Option ElementGroupDecl :=
  match (declared m).elemDecls.lookup d.type with
  | some _ => none
  | none => (declared m).groupDecls.lookup d.type

/-- An instance or a connection of the module itself. -/
def scopeStmt : TopStmt → Option GroupStmt
  | .instanceDecl d => some (.instanceDecl d)
  | .connectionDecl c => some (.connectionDecl c)
  | _ => none

def topScope (m : Module) : List GroupStmt := m.stmts.filterMap scopeStmt

def named (stmts : List GroupStmt) (n : String) : Bool :=
  stmts.any fun s =>
    match s with
    | .instanceDecl d => d.name == n
    | .connectionDecl _ => false

def namesGroup (m : Module) (stmts : List GroupStmt) (n : String) : Bool :=
  stmts.any fun s =>
    match s with
    | .instanceDecl d => d.name == n && (groupOf m d).isSome
    | .connectionDecl _ => false

/-- The scopes of a module: its own, and the body of every group instance under its qualified
name. -/
inductive Scope (m : Module) : Option String → List GroupStmt → Prop
  | top : Scope m none (topScope m)
  | group {N : Option String} {stmts : List GroupStmt} {d : InstanceDecl} {g : ElementGroupDecl}
    (hscope : Scope m N stmts) (hmem : .instanceDecl d ∈ stmts) (hgroup : groupOf m d = some g) :
    Scope m (some (qualify N d.name)) g.body

/-! ## Flattening -/

/-- The end of a wire: an instance or a pseudo-element, or the ports of a group instance, its
inputs or its outputs. -/
inductive Node where
  | real (name : String)
  | inputs (group : String)
  | outputs (group : String)
deriving DecidableEq

structure Wire where
  source : Node
  dest : Node
  decl : ConnectionDecl

inductive FlatStmt where
  | inst (d : InstanceDecl)
  | wire (w : Wire)

/-- What a name means as an end of a connection in the scope `N`. In a body, `begin` and `end`
are the ports of the group, seen from inside; the name of a group instance stands for its ports,
seen from outside; a pseudo-element is the same everywhere. -/
def nodeOf (m : Module) (N : Option String) (stmts : List GroupStmt)
    (inside outside : String → Node)
    (n : String) : Node :=
  match N with
  | some g =>
    if n = "begin" ∨ n = "end" then inside g
    else if namesGroup m stmts n then outside (qualify N n)
    else if specialFromName n ≠ .none ∧ named stmts n = false then .real n
    else .real (qualify N n)
  | none => if namesGroup m stmts n then outside n else .real n

def wireOf (m : Module) (N : Option String) (stmts : List GroupStmt)
    (c : ConnectionDecl) : Wire where
  source := nodeOf m N stmts .inputs .outputs c.source.nodeName
  dest := nodeOf m N stmts .outputs .inputs c.dest.nodeName
  decl := c

def flatInstance (N : Option String) (d : InstanceDecl) : InstanceDecl :=
  match N with
  | none => d
  | some _ => { d with name := qualify N d.name, anonymous := false }

/-- The statements of a scope, one after the other. -/
def flattenAll (flat : GroupStmt → Option (List FlatStmt)) : List GroupStmt → Option (List FlatStmt)
  | [] => some []
  | s :: ss => do
    let first ← flat s
    let rest ← flattenAll flat ss
    pure (first ++ rest)

def flattenStmt (m : Module) (N : Option String) (stmts : List GroupStmt)
    (flatInst : InstanceDecl → Option (List FlatStmt)) : GroupStmt → Option (List FlatStmt)
  | .instanceDecl d => flatInst d
  | .connectionDecl c => some [.wire (wireOf m N stmts c)]

/-- An instance in the scope `N`, with at most `fuel` groups nested in one another. -/
def flattenInstance (m : Module) : Nat → Option String → InstanceDecl → Option (List FlatStmt)
  | 0, _, _ => none
  | fuel + 1, N, d =>
    match groupOf m d with
    | none => some [.inst (flatInstance N d)]
    | some g =>
      let inner := some (qualify N d.name)
      flattenAll (flattenStmt m inner g.body (flattenInstance m fuel inner)) g.body

def flattenModule (m : Module) (fuel : Nat) : Option (List FlatStmt) :=
  flattenAll (flattenStmt m none (topScope m) (flattenInstance m fuel none)) (topScope m)

/-! ## Joining -/

/-- A port number left out is `1`. -/
def portOf (e : ConnEnd) : Int := if e.range.lo = 0 then 1 else e.range.lo

def rename (n : String) (e : ConnEnd) : ConnEnd := { e with nodeName := n }

/-- The connections that a wire with the source `source` is part of: where it ends at the ports
of a group it goes on with every wire that leaves from the same port. -/
def follow (wires : List Wire) (source : ConnEnd) : Nat → Wire → List ConnectionDecl
  | fuel, w =>
    match w.dest with
    | .real n => [{ w.decl with source := source, dest := rename n w.decl.dest }]
    | _ =>
      match fuel with
      | 0 => []
      | fuel + 1 =>
        (wires.filter fun w' =>
          w'.source = w.dest ∧ portOf w'.decl.source = portOf w.decl.dest).flatMap fun w' =>
            follow wires source fuel
              { w' with decl := { w'.decl with lossy := w.decl.lossy || w'.decl.lossy } }

/-- The connections that start with a wire; none for one that leaves from the ports of a group,
which is part of others. -/
def joined (wires : List Wire) (w : Wire) : List ConnectionDecl :=
  match w.source with
  | .real n => follow wires (rename n w.decl.source) wires.length w
  | _ => []

def wiresOf (flat : List FlatStmt) : List Wire :=
  flat.filterMap fun s =>
    match s with
    | .inst _ => none
    | .wire w => some w

def topStmts (wires : List Wire) : FlatStmt → List TopStmt
  | .inst d => [.instanceDecl d]
  | .wire w => (joined wires w).map .connectionDecl

def isDecl : TopStmt → Bool
  | .instanceDecl _ => false
  | .connectionDecl _ => false
  | _ => true

/-- The module with every group instance expanded by hand. -/
def handInline (m : Module) (fuel : Nat) : Option Module := do
  let flat ← flattenModule m fuel
  pure { m with stmts := m.stmts.filter isDecl ++ flat.flatMap (topStmts (wiresOf flat)) }

/-! ## The same graph -/

/-- `resolveModuleToGraph` returns `out`. -/
def Resolves (m : Module) (diags : DiagnosticEngine) (out : Bool × DiagnosticEngine × Graph) :
    Prop :=
  ∃ fuel, resolveModuleToGraph fuel m diags = some out

/-- The names of the kernels inside a group instance. -/
def Inner (m : Module) (n : String) : Prop :=
  ∃ d g x, .instanceDecl d ∈ topScope m ∧ groupOf m d = some g ∧ n = d.name ++ "::" ++ x

def renameKernel (ρ : String → String) (k : Kernel) : Kernel := { k with name := ρ k.name }

def renameEdge (ρ : String → String) (e : Edge) : Edge :=
  { e with srcKernel := ρ e.srcKernel, dstKernel := ρ e.dstKernel }

/-- The same kernels and edges, up to the names of the kernels inside group instances. -/
def SameGraph (m : Module) (g g' : Graph) : Prop :=
  ∃ ρ : String → String, Function.Injective ρ ∧ (∀ n, ¬ Inner m n → ρ n = n) ∧
    g.kernels.Perm (g'.kernels.map (renameKernel ρ)) ∧ g.edges.Perm (g'.edges.map (renameEdge ρ))

/-! ## Where the resolver inlines -/

/-- The condition on one scope. No connection ends at a group instance, and in the body of a
group no instance is anonymous and every connection joins two instances of the body. -/
structure ScopeOk (m : Module) (N : Option String) (stmts : List GroupStmt) : Prop where
  ends : ∀ c, .connectionDecl c ∈ stmts → ∀ n ∈ [c.source.nodeName, c.dest.nodeName],
    namesGroup m stmts n = false ∧
      (N.isSome → n ≠ "begin" ∧ n ≠ "end" ∧ named stmts n = true)
  named : N.isSome → ∀ d, .instanceDecl d ∈ stmts → d.anonymous = false

def Inlinable (m : Module) : Prop := ∀ N stmts, Scope m N stmts → ScopeOk m N stmts

end HandInline

end OpenClickNP
