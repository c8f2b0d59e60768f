/-!
# `ast.hpp`, `diagnostic.hpp`: the parsed module

What the parser hands to the later passes, and the diagnostics every pass appends to.
-/

namespace OpenClickNP

structure SourceLoc where
  fileId : UInt32 := 0
  line : UInt32 := 0
  column : UInt32 := 0
  offset : UInt32 := 0
deriving DecidableEq, Repr

structure SourceRange where
  «begin» : SourceLoc := {}
  «end» : SourceLoc := {}
deriving DecidableEq, Repr

/-! ## Diagnostics -/

inductive Severity where
  | note | warning | error
deriving DecidableEq, Repr

structure Diagnostic where
  severity : Severity
  message : String
  range : SourceRange
deriving DecidableEq, Repr

/-- `DiagnosticEngine`: the diagnostics in the order they were emitted. -/
structure DiagnosticEngine where
  diags : List Diagnostic := []
deriving DecidableEq, Repr

namespace DiagnosticEngine

def emit (d : DiagnosticEngine) (diag : Diagnostic) : DiagnosticEngine :=
  { diags := d.diags ++ [diag] }

def error (d : DiagnosticEngine) (r : SourceRange) (msg : String) : DiagnosticEngine :=
  d.emit { severity := .error, message := msg, range := r }

/-- `error_count_ > 0`. -/
def hasError (d : DiagnosticEngine) : Bool :=
  d.diags.any (·.severity == .error)

@[simp] theorem hasError_error (d : DiagnosticEngine) (r : SourceRange) (msg : String) :
    (d.error r msg).hasError = true := by
  simp [error, emit, hasError]

end DiagnosticEngine

/-! ## The syntax tree -/

namespace Ast

/-- A raw C++ block between matching braces. -/
structure OpaqueCpp where
  text : String
  src : SourceRange := {}
deriving DecidableEq, Repr

structure SignalParam where
  typeName : String
  fieldName : String
  src : SourceRange := {}
deriving DecidableEq, Repr

/-- A `.element` declaration; a port count of `-1` is left to the instance. -/
structure ElementDecl where
  name : String
  nInPorts : Int := -1
  nOutPorts : Int := -1
  state : Option OpaqueCpp := none
  init : Option OpaqueCpp := none
  handler : Option OpaqueCpp := none
  signal : Option OpaqueCpp := none
  signalParams : List SignalParam := []
  pipelineIi : Int := 0
  hlsPragmas : List String := []
  src : SourceRange := {}
deriving DecidableEq, Repr

inductive InstanceParam.Kind where
  | number | string
deriving DecidableEq, Repr

structure InstanceParam where
  kind : InstanceParam.Kind
  text : String
  src : SourceRange := {}
deriving DecidableEq, Repr

structure InstanceDecl where
  type : String
  name : String
  anonymous : Bool := false
  hostControl : Bool := false
  autorun : Bool := false
  nInPorts : Int := -1
  nOutPorts : Int := -1
  channelDepth : Int := 64
  params : List InstanceParam := []
  src : SourceRange := {}
deriving DecidableEq, Repr

/-- `[lo .. hi]` with an optional `*depth`; `0` stands for the default port. -/
structure PortRange where
  lo : Int := 0
  hi : Int := 0
  depth : Int := -1
  src : SourceRange := {}
deriving DecidableEq, Repr

structure ConnEnd where
  nodeName : String
  range : PortRange := {}
  src : SourceRange := {}
deriving DecidableEq, Repr

structure ConnectionDecl where
  source : ConnEnd
  dest : ConnEnd
  lossy : Bool := false
  src : SourceRange := {}
deriving DecidableEq, Repr

inductive GroupStmt where
  | instanceDecl (d : InstanceDecl)
  | connectionDecl (c : ConnectionDecl)
deriving DecidableEq, Repr

structure ElementGroupDecl where
  name : String
  nInPorts : Int := -1
  nOutPorts : Int := -1
  body : List GroupStmt
  src : SourceRange := {}
deriving DecidableEq, Repr

structure ImportDecl where
  path : String
  src : SourceRange := {}
deriving DecidableEq, Repr

inductive TopStmt where
  | importDecl (d : ImportDecl)
  | elementDecl (d : ElementDecl)
  | elementGroupDecl (d : ElementGroupDecl)
  | instanceDecl (d : InstanceDecl)
  | connectionDecl (c : ConnectionDecl)
deriving DecidableEq, Repr

structure Module where
  fileId : UInt32 := 0
  stmts : List TopStmt
deriving DecidableEq, Repr

end Ast

end OpenClickNP
