import OpenClickNP.Compiler.Ast

/-!
# `eg_ir.hpp`, `eg_builder.cpp`, `port_arity.cpp`: the element graph

* the kernels and edges a module resolves to, and the pseudo-elements among them;
* `analyzePortArity`, which checks the port numbers of every edge.
-/

namespace OpenClickNP

namespace Eg

inductive ChannelKind where
  | flit | metadata
deriving DecidableEq, Repr

inductive SpecialKind where
  | none | torIn | torOut | nicIn | nicOut | hostIn | hostOut | drop | idle | «begin» | «end»
deriving DecidableEq, Repr

def specialFromName (n : String) : SpecialKind :=
  if n = "tor_in" then .torIn
  else if n = "tor_out" then .torOut
  else if n = "nic_in" then .nicIn
  else if n = "nic_out" then .nicOut
  else if n = "host_in" then .hostIn
  else if n = "host_out" then .hostOut
  else if n = "Drop" then .drop
  else if n = "Idle" then .idle
  else if n = "begin" then .begin
  else if n = "end" then .end
  else .none

structure Kernel where
  name : String
  type : String
  special : SpecialKind := .none
  nInPorts : Int := 0
  nOutPorts : Int := 0
  hostControl : Bool := false
  autorun : Bool := false
  stateCpp : String := ""
  initCpp : String := ""
  handlerCpp : String := ""
  signalCpp : String := ""
  signalParams : List Ast.SignalParam := []
  params : List Ast.InstanceParam := []
  channelDepth : Int := 64
  pipelineIi : Int := 0
  hlsPragmas : List String := []
  axiliteBase : Int := -1
  gid : Int := -1
  src : SourceRange := {}
deriving DecidableEq, Repr

structure Edge where
  srcKernel : String
  srcPort : Int := 1
  dstKernel : String
  dstPort : Int := 1
  lossy : Bool := false
  depth : Int := 64
  kind : ChannelKind := .flit
  src : SourceRange := {}
deriving DecidableEq, Repr

structure Graph where
  kernels : List Kernel := []
  edges : List Edge := []
deriving DecidableEq, Repr

/-- `Graph::find`: the first kernel of that name. -/
def Graph.find (g : Graph) (name : String) : Option Kernel :=
  g.kernels.find? (·.name == name)

theorem Graph.find_eq_some {g : Graph} {name : String} {k : Kernel} (h : g.find name = some k) :
    k ∈ g.kernels ∧ k.name = name := by
  unfold Graph.find at h
  have hname := List.find?_some h
  exact ⟨List.mem_of_find?_eq_some h, by simpa using hname⟩

end Eg

/-! ## `analyzePortArity` -/

open Eg

/-- `d.error(...); ok = false;` on the pair `(ok, d)`. -/
def arityError (r : SourceRange) (msg : String) (s : Bool × DiagnosticEngine) :
    Bool × DiagnosticEngine :=
  (false, s.2.error r msg)

def checkSrcArity (g : Graph) (e : Edge) (s : Bool × DiagnosticEngine) :
    Bool × DiagnosticEngine :=
  match g.find e.srcKernel with
  | some sk =>
    if e.srcPort > sk.nOutPorts then
      arityError e.src ("kernel \x60" ++ sk.name ++ "\x60 has " ++ toString sk.nOutPorts
        ++ " output port(s), but connection uses port " ++ toString e.srcPort) s
    else s
  | none => s

def checkDstArity (g : Graph) (e : Edge) (s : Bool × DiagnosticEngine) :
    Bool × DiagnosticEngine :=
  match g.find e.dstKernel with
  | some dk =>
    if e.dstPort > dk.nInPorts then
      arityError e.src ("kernel \x60" ++ dk.name ++ "\x60 has " ++ toString dk.nInPorts
        ++ " input port(s), but connection uses port " ++ toString e.dstPort) s
    else s
  | none => s

/-- The loop body of `analyzePortArity`. -/
def checkEdge (g : Graph) (s : Bool × DiagnosticEngine) (e : Edge) : Bool × DiagnosticEngine :=
  let s := checkDstArity g e (checkSrcArity g e s)
  let s := if e.srcPort < 1 then arityError e.src "source port must be >= 1" s else s
  if e.dstPort < 1 then arityError e.src "destination port must be >= 1" s else s

def analyzePortArity (g : Graph) (d : DiagnosticEngine) : Bool × DiagnosticEngine :=
  g.edges.foldl (checkEdge g) (true, d)

end OpenClickNP
