import Mathlib.Data.List.Sort
import OpenClickNP.Compiler.Graph

/-!
# `resolver.cpp`: from the module to the element graph

* declarations are collected first, then instances and connections in source order;
* an instance of a group is expanded in place, so expansion recurses through the groups: the
  recursion takes a bound, and `none` means that the bound was reached;
* boundary pseudo-elements are created for the names that edges refer to, in the order of
  `std::set`.
-/

namespace OpenClickNP

open Ast Eg

/-- The fields of `Resolver`, and the graph it fills. -/
structure Resolver where
  elemDecls : List (String × ElementDecl) := []
  groupDecls : List (String × ElementGroupDecl) := []
  anonCounter : Nat := 0
  diags : DiagnosticEngine := {}
  graph : Graph := {}
deriving DecidableEq, Repr

namespace Resolver

def error (r : Resolver) (src : SourceRange) (msg : String) : Resolver :=
  { r with diags := r.diags.error src msg }

/-! ## Declarations -/

def collectElement (r : Resolver) (d : ElementDecl) : Resolver :=
  match r.elemDecls.lookup d.name with
  | some _ => r.error d.src ("duplicate \x60.element " ++ d.name ++ "\x60")
  | none => { r with elemDecls := r.elemDecls ++ [(d.name, d)] }

def collectGroup (r : Resolver) (d : ElementGroupDecl) : Resolver :=
  match r.groupDecls.lookup d.name with
  | some _ => r.error d.src ("duplicate \x60.element_group " ++ d.name ++ "\x60")
  | none => { r with groupDecls := r.groupDecls ++ [(d.name, d)] }

def collectDecl (r : Resolver) : TopStmt → Resolver
  | .elementDecl d => r.collectElement d
  | .elementGroupDecl d => r.collectGroup d
  | .importDecl _ => r
  | .instanceDecl _ => r
  | .connectionDecl _ => r

/-! ## Instances and connections -/

/-- `makeAnonName`: the name, and the resolver with its counter advanced. -/
def makeAnonName (r : Resolver) (type : String) : String × Resolver :=
  (type ++ "__anon_" ++ toString r.anonCounter, { r with anonCounter := r.anonCounter + 1 })

/-- The edge `addConnection` records. -/
def edgeOf (c : ConnectionDecl) (namePrefix : String) : Edge where
  srcKernel := namePrefix ++ c.source.nodeName
  dstKernel := namePrefix ++ c.dest.nodeName
  srcPort := if c.source.range.lo = 0 then 1 else c.source.range.lo
  dstPort := if c.dest.range.lo = 0 then 1 else c.dest.range.lo
  lossy := c.lossy
  depth :=
    if c.dest.range.depth > 0 then c.dest.range.depth
    else if c.source.range.depth > 0 then c.source.range.depth
    else 64
  kind := .flit
  src := c.src

def addConnection (r : Resolver) (c : ConnectionDecl) (namePrefix : String) : Resolver :=
  { r with graph := { r.graph with edges := r.graph.edges ++ [edgeOf c namePrefix] } }

/-- The port count of an instance: its own, else the declaration's, else one. -/
def portCount (inst decl : Int) : Int :=
  let n := if inst > 0 then inst else decl
  if n < 0 then 1 else n

def textOf (block : Option OpaqueCpp) : String :=
  match block with
  | some b => b.text
  | none => ""

/-- The kernel of an instance, under the name it was given. -/
def kernelOf (decl : ElementDecl) (inst : InstanceDecl) (name : String) : Kernel where
  name := name
  type := inst.type
  hostControl := inst.hostControl
  autorun := inst.autorun
  nInPorts := portCount inst.nInPorts decl.nInPorts
  nOutPorts := portCount inst.nOutPorts decl.nOutPorts
  channelDepth := inst.channelDepth
  params := inst.params
  signalParams := decl.signalParams
  stateCpp := textOf decl.state
  initCpp := textOf decl.init
  handlerCpp := textOf decl.handler
  signalCpp := textOf decl.signal
  pipelineIi := decl.pipelineIi
  hlsPragmas := decl.hlsPragmas
  src := inst.src

def pushKernel (r : Resolver) (k : Kernel) : Resolver :=
  { r with graph := { r.graph with kernels := r.graph.kernels ++ [k] } }

def emitKernelFromInstance (r : Resolver) (decl : ElementDecl) (inst : InstanceDecl)
    (namePrefix : String) : Resolver :=
  if inst.anonymous then
    let (name, r) := r.makeAnonName inst.type
    r.pushKernel (kernelOf decl inst (namePrefix ++ name))
  else r.pushKernel (kernelOf decl inst (namePrefix ++ inst.name))

/-! ## Groups -/

/-- The copy of an instance of a group body: prefixed, and no longer anonymous. -/
def prefixInstance (r : Resolver) (pfx : String) (d : InstanceDecl) : InstanceDecl × Resolver :=
  if d.anonymous then
    let (name, r) := r.makeAnonName d.type
    ({ d with name := pfx ++ name, anonymous := false }, r)
  else ({ d with name := pfx ++ d.name, anonymous := false }, r)

/-- `rewriteEnd`: `begin` and `end` become the outer instance, any other name is prefixed. -/
def rewriteEnd (instName pfx : String) (e : ConnEnd) : ConnEnd :=
  if e.nodeName = "begin" ∨ e.nodeName = "end" then { e with nodeName := instName }
  else { e with nodeName := pfx ++ e.nodeName }

/-- One statement of a group body; `process` handles the instances in it. -/
def inlineStmt (process : Resolver → InstanceDecl → Option Resolver) (instName : String)
    (r : Resolver) : GroupStmt → Option Resolver
  | .instanceDecl d =>
    let (copy, r) := r.prefixInstance (instName ++ "::") d
    process r copy
  | .connectionDecl c =>
    let pfx := instName ++ "::"
    some (r.addConnection
      { c with
        source := rewriteEnd instName pfx c.source
        dest := rewriteEnd instName pfx c.dest } "")

def inlineGroup (process : Resolver → InstanceDecl → Option Resolver) (g : ElementGroupDecl)
    (inst : InstanceDecl) (r : Resolver) : Option Resolver :=
  g.body.foldlM (inlineStmt process inst.name) r

/-- `processTop` of an instance, with at most `fuel` groups nested in one another. -/
def processInstance : Nat → Resolver → InstanceDecl → Option Resolver
  | 0, _, _ => none
  | fuel + 1, r, d =>
    match r.elemDecls.lookup d.type with
    | some decl => some (r.emitKernelFromInstance decl d "")
    | none =>
      match r.groupDecls.lookup d.type with
      | some g => inlineGroup (processInstance fuel) g d r
      | none => some (r.error d.src ("unknown element or group type \x60" ++ d.type ++ "\x60"))

def processTop (fuel : Nat) (r : Resolver) : TopStmt → Option Resolver
  | .importDecl _ => some r
  | .elementDecl _ => some r
  | .elementGroupDecl _ => some r
  | .instanceDecl d => processInstance fuel r d
  | .connectionDecl c => some (r.addConnection c "")

/-! ## Pseudo-elements -/

/-- Port counts of a pseudo-element: `*_in` and `Idle` only produce, `*_out` and `Drop` only
consume. -/
def specialPorts : SpecialKind → Int × Int
  | .torIn | .nicIn | .hostIn | .idle => (0, 1)
  | .torOut | .nicOut | .hostOut | .drop => (1, 0)
  | _ => (1, 1)

def specialKernel (n : String) : Kernel where
  name := n
  type := n
  special := specialFromName n
  nInPorts := (specialPorts (specialFromName n)).1
  nOutPorts := (specialPorts (specialFromName n)).2
  autorun := true

/-- `referenced`: the names the edges use, each once, in the order of `std::set`. -/
def referenced (edges : List Edge) : List String :=
  (edges.flatMap fun e => [e.srcKernel, e.dstKernel]).dedup.insertionSort (· ≤ ·)

def hasKernel (g : Graph) (n : String) : Bool :=
  g.kernels.any (·.name == n)

/-- `add_special`. -/
def addSpecial (g : Graph) (n : String) : Graph :=
  if hasKernel g n then g
  else if specialFromName n = .none then g
  else { g with kernels := g.kernels ++ [specialKernel n] }

/-- The final pass over one edge: an end that no kernel has is an error. -/
def checkEnds (g : Graph) (d : DiagnosticEngine) (e : Edge) : DiagnosticEngine :=
  let d := if hasKernel g e.srcKernel then d
    else d.error e.src ("unknown source node \x60" ++ e.srcKernel ++ "\x60")
  if hasKernel g e.dstKernel then d
  else d.error e.src ("unknown destination node \x60" ++ e.dstKernel ++ "\x60")

def synthesizeSpecials (r : Resolver) : Resolver :=
  let g := (referenced r.graph.edges).foldl addSpecial r.graph
  { r with graph := g, diags := g.edges.foldl (checkEnds g) r.diags }

/-! ## Signal slots -/

/-- One turn of `assignSignalSlots` on `(gid, axi_base)` and the kernels done so far. -/
def assignSlot (s : List Kernel × Int × Int) (k : Kernel) : List Kernel × Int × Int :=
  if k.hostControl && k.special == .none then
    (s.1 ++ [{ k with gid := s.2.1, axiliteBase := s.2.2 }], s.2.1 + 1, s.2.2 + 0x80)
  else (s.1 ++ [k], s.2)

def assignSignalSlots (r : Resolver) : Resolver :=
  { r with graph :=
      { r.graph with kernels := (r.graph.kernels.foldl assignSlot ([], 0, 0x1000)).1 } }

/-! ## The pass -/

/-- `Resolver::resolve`, from a resolver whose diagnostics are those of the parser. -/
def resolve (fuel : Nat) (m : Module) (r : Resolver) : Option Resolver := do
  let r ← m.stmts.foldlM (processTop fuel) (m.stmts.foldl collectDecl r)
  pure r.synthesizeSpecials.assignSignalSlots

end Resolver

/-- `resolveModuleToGraph`: the result flag, the diagnostics and the graph. -/
def resolveModuleToGraph (fuel : Nat) (m : Module) (diags : DiagnosticEngine) :
    Option (Bool × DiagnosticEngine × Graph) := do
  let r ← Resolver.resolve fuel m { diags := diags }
  pure (!r.diags.hasError, r.diags, r.graph)

/-- What the resolver returns comes from the statements, the pseudo-elements and the slots. -/
theorem resolver_of_resolves {fuel : Nat} {m : Module} {diags d : DiagnosticEngine} {ok : Bool}
    {g : Graph} (h : resolveModuleToGraph fuel m diags = some (ok, d, g)) :
    ∃ rf, m.stmts.foldlM (Resolver.processTop fuel)
        (m.stmts.foldl Resolver.collectDecl { diags := diags }) = some rf ∧
      (!rf.synthesizeSpecials.assignSignalSlots.diags.hasError) = ok ∧
      rf.synthesizeSpecials.assignSignalSlots.diags = d ∧
      rf.synthesizeSpecials.assignSignalSlots.graph = g := by
  obtain ⟨r, hr, hout⟩ := Option.bind_eq_some_iff.mp h
  obtain ⟨rf, hrf, heq⟩ := Option.bind_eq_some_iff.mp hr
  cases heq
  cases hout
  exact ⟨rf, hrf, rfl, rfl, rfl⟩

end OpenClickNP
