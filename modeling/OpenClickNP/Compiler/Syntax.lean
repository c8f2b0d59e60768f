import OpenClickNP.Compiler.Parser
import OpenClickNP.Compiler.Spelling

/-!
# The language

The statements of a `.clnp` file as they are written: `lexemes` is how a phrase is spelled, and
what it stands for is a statement of the syntax tree without source ranges. A chain is kept as
written, with the bracket before and the bracket after each node apart; `Chain.stmts` is what the
parser makes of it.
-/

namespace OpenClickNP

/-! ## Statements without source ranges -/

namespace Ast

def OpaqueCpp.bare (b : OpaqueCpp) : OpaqueCpp := { b with src := {} }

def SignalParam.bare (p : SignalParam) : SignalParam := { p with src := {} }

def ElementDecl.bare (e : ElementDecl) : ElementDecl :=
  { e with
    state := e.state.map OpaqueCpp.bare
    init := e.init.map OpaqueCpp.bare
    handler := e.handler.map OpaqueCpp.bare
    signal := e.signal.map OpaqueCpp.bare
    signalParams := e.signalParams.map SignalParam.bare
    src := {} }

def InstanceParam.bare (p : InstanceParam) : InstanceParam := { p with src := {} }

def InstanceDecl.bare (d : InstanceDecl) : InstanceDecl :=
  { d with params := d.params.map InstanceParam.bare, src := {} }

def PortRange.bare (r : PortRange) : PortRange := { r with src := {} }

def ConnEnd.bare (e : ConnEnd) : ConnEnd := { e with range := e.range.bare, src := {} }

def ConnectionDecl.bare (c : ConnectionDecl) : ConnectionDecl :=
  { c with source := c.source.bare, dest := c.dest.bare, src := {} }

def GroupStmt.bare : GroupStmt → GroupStmt
  | .instanceDecl d => .instanceDecl d.bare
  | .connectionDecl c => .connectionDecl c.bare

def ElementGroupDecl.bare (g : ElementGroupDecl) : ElementGroupDecl :=
  { g with body := g.body.map GroupStmt.bare, src := {} }

def TopStmt.bare : TopStmt → TopStmt
  | .importDecl d => .importDecl { d with src := {} }
  | .elementDecl e => .elementDecl e.bare
  | .elementGroupDecl g => .elementGroupDecl g.bare
  | .instanceDecl d => .instanceDecl d.bare
  | .connectionDecl c => .connectionDecl c.bare

end Ast

open Ast

namespace Syntax

/-! ## Elements -/

/-- The optional `<in, out>`. -/
def portsLexemes : Option (Numeral × Numeral) → List Lexeme
  | none => []
  | some (nIn, nOut) => [.sym .lAngle, .number nIn, .sym .comma, .number nOut, .sym .rAngle]

def portsOf : Option (Numeral × Numeral) → Int × Int
  | none => (-1, -1)
  | some (nIn, nOut) => (castInt nIn.value, castInt nOut.value)

inductive Section where
  | state (text : String)
  | init (text : String)
  | handler (text : String)
  | signal (params : Option (List (String × String))) (text : String)
  | timing (entries : List Numeral)
  | hlsPragma (pragmas : List String)

def signalParamsLexemes : List (String × String) → List Lexeme
  | [] => []
  | [p] => [.ident p.1, .ident p.2]
  | p :: q :: ps => .ident p.1 :: .ident p.2 :: .sym .comma :: signalParamsLexemes (q :: ps)

namespace Section

def lexemes : Section → List Lexeme
  | state text => [.sym .kwState, .block text]
  | init text => [.sym .kwInit, .block text]
  | handler text => [.sym .kwHandler, .block text]
  | signal none text => [.sym .kwSignal, .block text]
  | signal (some ps) text =>
    .sym .kwSignal :: .sym .lParen :: (signalParamsLexemes ps ++ [.sym .rParen, .block text])
  | timing entries =>
    .sym .kwTiming :: .sym .lBrace ::
      (entries.flatMap (fun n => [.ident "ii", .sym .equals, .number n, .sym .semicolon])
        ++ [.sym .rBrace])
  | hlsPragma pragmas =>
    .sym .kwHlsPragma :: .sym .lBrace ::
      (pragmas.flatMap (fun s => [.str s, .sym .semicolon]) ++ [.sym .rBrace])

/-- The initiation intervals of a `.timing` block are numbers from 1 to 64. -/
def Valid : Section → Prop
  | timing entries => ∀ n ∈ entries, ∃ ii, stoi n.text = some ii ∧ 1 ≤ ii ∧ ii ≤ 64
  | _ => True

/-- What the section adds to the declaration. -/
def apply (e : ElementDecl) : Section → ElementDecl
  | state text => { e with state := some { text := text } }
  | init text => { e with init := some { text := text } }
  | handler text => { e with handler := some { text := text } }
  | signal params text =>
    { e with
      signalParams := e.signalParams ++
        (params.getD []).map fun p => { typeName := p.1, fieldName := p.2 }
      signal := some { text := text } }
  | timing entries =>
    { e with pipelineIi := entries.foldl (fun ii n => (stoi n.text).getD ii) e.pipelineIi }
  | hlsPragma pragmas => { e with hlsPragmas := e.hlsPragmas ++ pragmas }

end Section

structure Element where
  name : String
  ports : Option (Numeral × Numeral)
  sections : List Section

namespace Element

def lexemes (e : Element) : List Lexeme :=
  .sym .kwElement :: .ident e.name :: (portsLexemes e.ports ++
    .sym .lBrace :: (e.sections.flatMap Section.lexemes ++ [.sym .rBrace]))

def Valid (e : Element) : Prop := ∀ s ∈ e.sections, s.Valid

def decl (e : Element) : ElementDecl :=
  e.sections.foldl Section.apply {
    name := e.name
    nInPorts := (portsOf e.ports).1
    nOutPorts := (portsOf e.ports).2 }

end Element

/-! ## Instances -/

inductive Param where
  | number (n : Numeral)
  | string (s : String)
deriving DecidableEq, Repr

namespace Param

def lexeme : Param → Lexeme
  | number n => .number n
  | string s => .str s

def value : Param → InstanceParam
  | number n => { kind := .number, text := n.text }
  | string s => { kind := .string, text := s }

end Param

/-- `*depth`. -/
def depthLexemes : Option Numeral → List Lexeme
  | none => []
  | some d => [.sym .star, .number d]

/-- What stands between the parentheses of an instance. -/
structure Args where
  nIn : Numeral
  nOut : Numeral
  depth : Option Numeral := none
  params : List Param := []
deriving DecidableEq, Repr

/-- From behind the opening parenthesis to the closing one. -/
def Args.lexemes (a : Args) : List Lexeme :=
  .number a.nIn :: .sym .comma :: .number a.nOut :: (depthLexemes a.depth ++
    (a.params.flatMap (fun p => [.sym .comma, p.lexeme]) ++ [.sym .rParen]))

def Args.channelDepth (a : Args) : Int := (a.depth.map fun d => castInt d.value).getD 64

/-- `@` and `&`. -/
inductive Mark where
  | hostControl | autorun
deriving DecidableEq, Repr

def Mark.lexeme : Mark → Lexeme
  | hostControl => .sym .at
  | autorun => .sym .amp

structure Instance where
  type : String
  name : String
  marks : List Mark := []
  args : Option Args := none
deriving DecidableEq, Repr

def semicolonLexemes (semi : Bool) : List Lexeme := if semi then [.sym .semicolon] else []

namespace Instance

def argsLexemes : Option Args → List Lexeme
  | none => []
  | some a => .sym .lParen :: a.lexemes

def lexemes (i : Instance) : List Lexeme :=
  .ident i.type :: .sym .doubleColon :: .ident i.name ::
    (i.marks.map Mark.lexeme ++ argsLexemes i.args)

def decl (i : Instance) : InstanceDecl :=
  let d : InstanceDecl := {
    type := i.type
    name := i.name
    hostControl := i.marks.contains .hostControl
    autorun := i.marks.contains .autorun }
  match i.args with
  | none => d
  | some a =>
    { d with
      nInPorts := castInt a.nIn.value
      nOutPorts := castInt a.nOut.value
      channelDepth := a.channelDepth
      params := a.params.map Param.value }

end Instance

/-! ## Chains -/

/-- `[lo-hi*depth]`. -/
structure Bracket where
  lo : Numeral
  hi : Option Numeral := none
  depth : Option Numeral := none
deriving DecidableEq, Repr

namespace Bracket

def lexemes (b : Bracket) : List Lexeme :=
  .sym .lBracket :: .number b.lo ::
    ((b.hi.elim [] fun n => [.sym .dash, .number n]) ++ (depthLexemes b.depth ++ [.sym .rBracket]))

def range (b : Bracket) : PortRange where
  lo := castInt b.lo.value
  hi := castInt (b.hi.getD b.lo).value
  depth := (b.depth.map fun d => castInt d.value).getD (-1)

end Bracket

def bracketLexemes (b : Option Bracket) : List Lexeme := b.elim [] Bracket.lexemes

inductive Node where
  | named (x : String)
  | inline (type : String) (args : Args)
deriving DecidableEq, Repr

namespace Node

def lexemes : Node → List Lexeme
  | named x => [.ident x]
  | inline type args => .ident type :: .sym .lParen :: args.lexemes

def isNamed : Node → Bool
  | named _ => true
  | inline _ _ => false

/-- The identifier that the node starts with. -/
def word : Node → String
  | named x => x
  | inline type _ => type

/-- The name of a node whose identifier stands at `loc`. -/
def nameAt (loc : SourceLoc) : Node → String
  | named x => x
  | inline type _ => Parser.anonName type loc

/-- The instance that an inline node declares. -/
def stmts (name : String) : Node → List GroupStmt
  | named _ => []
  | inline type args => [.instanceDecl {
      type := type
      name := name
      anonymous := true
      nInPorts := castInt args.nIn.value
      nOutPorts := castInt args.nOut.value
      channelDepth := args.channelDepth
      params := args.params.map Param.value }]

end Node

/-- An arrow, and the node behind it with the brackets before and after it. -/
structure Link where
  lossy : Bool
  pre : Option Bracket := none
  node : Node
  post : Option Bracket := none
deriving DecidableEq, Repr

structure Chain where
  first : Node
  post : Option Bracket := none
  links : List Link
deriving DecidableEq, Repr

namespace Link

def lexemes (l : Link) : List Lexeme :=
  .sym (if l.lossy then .fatArrow else .arrow) ::
    (bracketLexemes l.pre ++ (l.node.lexemes ++ bracketLexemes l.post))

/-- The range of the one end that the parser makes of the node. -/
def range (l : Link) : PortRange := ((l.post.or l.pre).map Bracket.range).getD {}

end Link

namespace Chain

/-- The nodes of the chain in order. -/
def nodes (c : Chain) : List Node := c.first :: c.links.map Link.node

def lexemes (c : Chain) : List Lexeme :=
  c.first.lexemes ++ (bracketLexemes c.post ++ c.links.flatMap Link.lexemes)

/-- The statements of the links behind the end `source`, when `names` are the names of their
nodes. -/
def linkStmts (source : ConnEnd) : List Link → List String → List GroupStmt
  | l :: ls, name :: names =>
    let dest : ConnEnd := { nodeName := name, range := l.range }
    l.node.stmts name ++
      .connectionDecl { source := source, dest := dest, lossy := l.lossy } ::
        linkStmts dest ls names
  | _, _ => []

/-- What the parser pushes for the chain, when `name` is the name of its first node and `names`
are those of the others. -/
def stmts (c : Chain) (name : String) (names : List String) : List GroupStmt :=
  c.first.stmts name ++
    linkStmts { nodeName := name, range := (c.post.map Bracket.range).getD {} } c.links names

/-- `names` are names for the nodes, each at some place. -/
def Named (nodes : List Node) (names : List String) : Prop :=
  List.Forall₂ (fun n name => ∃ loc, name = Node.nameAt loc n) nodes names

end Chain

/-! ## Statements -/

/-- A statement of a group body, or one of a module. -/
inductive Decl where
  | instance (i : Instance)
  | chain (c : Chain)
deriving DecidableEq, Repr

namespace Decl

def lexemes : Decl → List Lexeme
  | .instance i => i.lexemes
  | .chain c => c.lexemes

/-- The statements are what the parser may push for the declaration. -/
def Gives : Decl → List GroupStmt → Prop
  | .instance i, out => out.map GroupStmt.bare = [.instanceDecl i.decl]
  | .chain c, out => ∃ name names,
      Chain.Named (c.first :: c.links.map Link.node) (name :: names) ∧
        out.map GroupStmt.bare = c.stmts name names

end Decl

structure Group where
  name : String
  ports : Option (Numeral × Numeral)
  body : List (Decl × Bool)

namespace Group

def bodyLexemes (body : List (Decl × Bool)) : List Lexeme :=
  body.flatMap fun d => d.1.lexemes ++ semicolonLexemes d.2

def lexemes (g : Group) : List Lexeme :=
  .sym .kwElementGroup :: .ident g.name :: (portsLexemes g.ports ++
    .sym .lBrace :: (bodyLexemes g.body ++ [.sym .rBrace]))

/-- The declaration is what the parser makes of the group. -/
def Gives (g : Group) (d : ElementGroupDecl) : Prop :=
  d.name = g.name ∧ (d.nInPorts, d.nOutPorts) = portsOf g.ports ∧
    ∃ outs, List.Forall₂ (fun b out => b.1.Gives out) g.body outs ∧ d.body = outs.flatten

end Group

/-- A statement of a file. -/
inductive Stmt where
  | «import» (target : String) (semi : Bool)
  | element (e : Element)
  | group (g : Group)
  | decl (d : Decl) (semi : Bool)

namespace Stmt

def lexemes : Stmt → List Lexeme
  | .import target semi => .sym .kwImport :: .str target :: semicolonLexemes semi
  | element e => e.lexemes
  | group g => g.lexemes
  | decl d semi => d.lexemes ++ semicolonLexemes semi

def Valid : Stmt → Prop
  | element e => e.Valid
  | _ => True

/-- The statements are what the parser may push for this one; what an import brings along comes
before it. -/
def Gives : Stmt → List TopStmt → Prop
  | .import target _, out => out.map TopStmt.bare = [.importDecl { path := target }]
  | element e, out => out.map TopStmt.bare = [.elementDecl e.decl]
  | group g, out => ∃ d, out = [.elementGroupDecl d] ∧ g.Gives d
  | decl d _, out => ∃ body, out = body.map Parser.topOf ∧ d.Gives body

end Stmt

end Syntax

end OpenClickNP
