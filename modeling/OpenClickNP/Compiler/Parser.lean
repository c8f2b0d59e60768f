import OpenClickNP.Lib.Production
import OpenClickNP.Compiler.Lexer

/-!
# `parser.cpp`: from tokens to the module

* a production is a computation on the state of the file being read; `return false` and
  `return std::nullopt` fail and keep the tokens read, the statements pushed and the errors;
* `Token t = expect(..); if (t.kind != ..) return false;` is `require`;
* loops take a bound on their turns, imports one on how deep they go.
-/

namespace OpenClickNP

open Ast Production

/-- The operations of `std::filesystem` and `std::ifstream` that the parser uses. -/
structure FileSystem where
  weaklyCanonical : String → String
  isAbsolute : String → Bool
  isFile : String → Bool
  parentPath : String → String
  join : String → String → String
  read : String → Option (List Char)

/-- `SourceManager::resolveImport`, with its import directories. -/
def FileSystem.resolveImport (fs : FileSystem) (importDirs : List String)
    (refererPath target : String) : String :=
  let relative := fs.join (fs.parentPath refererPath) target
  if target = "" then target
  else if fs.isAbsolute target && fs.isFile target then target
  else if refererPath ≠ "" ∧ fs.isFile relative then relative
  else
    match importDirs.find? fun dir => fs.isFile (fs.join dir target) with
    | some dir => fs.join dir target
    | none => target

/-- What outlives a file: the buffers of the source manager, `seen_files_`, and the diagnostics. -/
structure Parser where
  buffers : List SourceBuffer := []
  seenFiles : List String := []
  diags : DiagnosticEngine := {}

/-- `static_cast<int>`: the low 32 bits, in two's complement. -/
def castInt (v : UInt64) : Int :=
  let low : Nat := v.toNat % 2 ^ 32
  if low < 2 ^ 31 then (low : Int) else (low : Int) - 2 ^ 32

/-- `std::stoi`, on the digits in front; `none` where it throws. -/
def stoi (text : String) : Option Int :=
  let digits := text.toList.takeWhile Char.isDigit
  let value := digits.foldl (fun acc c => 10 * acc + digitValue c) 0
  if digits.isEmpty || 2 ^ 31 ≤ value then none else some value

namespace Parser

/-- `Parser::State`. -/
structure State where
  lex : Lexer
  cur : Token := {}
  prev : Token := {}

/-- The state of the file being read, with the statements of its module and those of the group
body that is being read. -/
structure FileState extends State where
  stmts : List TopStmt := []
  body : List GroupStmt := []
  buffers : List SourceBuffer := []
  seenFiles : List String := []

abbrev Parse := Production FileState

/-! ## Tokens -/

def State.advance (s : State) : State where
  lex := s.lex.next.2
  cur := s.lex.next.1
  prev := s.cur

def State.error (s : State) (tok : Token) (msg : String) : State :=
  { s with lex := s.lex.error tok.range msg }

def advance : Parse Unit := modify fun s => { s with toState := s.toState.advance }

def error (tok : Token) (msg : String) : Parse Unit :=
  modify fun s => { s with toState := s.toState.error tok msg }

def cur : Parse Token := do
  let s ← get
  pure s.cur

def prev : Parse Token := do
  let s ← get
  pure s.prev

def accept (t : Tok) : Parse Bool := do
  let tok ← cur
  if tok.kind = t then do
    advance
    pure true
  else pure false

def expect (t : Tok) (what : String) : Parse Token := do
  let tok ← cur
  if tok.kind = t then do
    advance
    pure tok
  else do
    error tok ("expected " ++ what ++ " (got " ++ tokName tok.kind ++ ")")
    pure { kind := .error, range := tok.range }

/-- `expect`, and `return false` on any other token. -/
def require (t : Tok) (what : String) : Parse Token := do
  let tok ← expect t what
  if tok.kind = t then pure tok else fail

/-! ## Elements -/

/-- `parseBraceBlock`: back to the character behind the brace, over the block, and on to the next
token. -/
def State.braceBlock (s : State) : Option OpaqueCpp × State :=
  if s.cur.kind ≠ .lBrace then
    (none, s.error s.cur ("expected \x60\x7b\x60 (got " ++ tokName s.cur.kind ++ ")"))
  else
    let (body, lex) := (s.lex.seekTo s.cur.range.end.offset).lexOpaqueBlock
    if body.kind = .error then (none, { s with lex := lex })
    else
      let src := { «begin» := s.cur.range.begin, «end» := body.range.end }
      (some { text := body.text, src := src }, { s with lex := lex.next.2, cur := lex.next.1 })

def parseBraceBlock : Parse OpaqueCpp := fun _ s =>
  some (s.toState.braceBlock.1, { s with toState := s.toState.braceBlock.2 })

def parseSignalParam : Parse SignalParam := do
  let type ← require .ident "signal parameter type"
  let name ← require .ident "signal parameter name"
  pure {
    typeName := type.text
    fieldName := name.text
    src := { «begin» := type.range.begin, «end» := name.range.end } }

def signalParamTurn (params : List SignalParam) : Parse (ForInStep (List SignalParam)) := do
  let tok ← cur
  if tok.kind = .rParen ∨ tok.kind = .eof then pure (.done params)
  else do
    let p ← parseSignalParam
    if ← accept .comma then pure (.yield (params ++ [p])) else pure (.done (params ++ [p]))

/-- The list between the parentheses of `.signal`, and the closing one. -/
def parseSignalParams : Parse (List SignalParam) := do
  let params ← loop signalParamTurn []
  let _ ← expect .rParen "\x60)\x60"
  pure params

/-- The optional parameter list of `.signal`. -/
def parseSignalHead : Parse (List SignalParam) := do
  if ← accept .lParen then parseSignalParams else pure []

def braceTurn {β : Type} (body : β → Parse β) (b : β) : Parse (ForInStep β) := do
  let tok ← cur
  if tok.kind = .rBrace ∨ tok.kind = .eof then pure (.done b)
  else do
    let b ← body b
    pure (.yield b)

/-- `while (cur is neither a closing brace nor the end) { .. }`. -/
def untilBrace {β : Type} (body : β → Parse β) (b : β) : Parse β := loop (braceTurn body) b

def parseHlsPragma (pragmas : List String) : Parse (List String) := do
  let str ← require .stringLit "HLS directive string"
  let _ ← expect .semicolon "\x60;\x60 after HLS directive"
  pure (pragmas ++ [str.text])

def parseHlsPragmas (pragmas : List String) : Parse (List String) := do
  let _ ← require .lBrace "\x60\x7b\x60 after .hls_pragma"
  let pragmas ← untilBrace parseHlsPragma pragmas
  let _ ← expect .rBrace "\x60\x7d\x60 to close .hls_pragma block"
  pure pragmas

/-- One entry of a `.timing` block; `ii` is the only key. -/
def parseTimingEntry (_ : Int) : Parse Int := do
  let id ← require .ident "timing key (e.g. \x60ii\x60)"
  let _ ← require .equals "\x60=\x60 after timing key"
  let val ← require .integer "integer value"
  if id.text = "ii" then
    match stoi val.text with
    | none => do
      error val "invalid integer for ii"
      fail
    | some ii =>
      if ii < 1 ∨ 64 < ii then do
        error val "ii must be in [1, 64]"
        fail
      else do
        let _ ← expect .semicolon "\x60;\x60 after timing entry"
        pure ii
  else do
    error id ("unknown timing key \x60" ++ id.text ++ "\x60 (only \x60ii\x60 supported)")
    fail

def parseTiming (ii : Int) : Parse Int := do
  let _ ← require .lBrace "\x60\x7b\x60 after .timing"
  let ii ← untilBrace parseTimingEntry ii
  let _ ← expect .rBrace "\x60\x7d\x60 to close .timing block"
  pure ii

/-- One section of an element body. -/
def parseSection (elem : ElementDecl) : Parse ElementDecl := do
  let tok ← cur
  match tok.kind with
  | .kwState => do
    advance
    let blk ← parseBraceBlock
    pure { elem with state := some blk }
  | .kwInit => do
    advance
    let blk ← parseBraceBlock
    pure { elem with init := some blk }
  | .kwHandler => do
    advance
    let blk ← parseBraceBlock
    pure { elem with handler := some blk }
  | .kwSignal => do
    advance
    let params ← parseSignalHead
    let blk ← parseBraceBlock
    pure { elem with signalParams := elem.signalParams ++ params, signal := some blk }
  | .kwHlsPragma => do
    advance
    let pragmas ← parseHlsPragmas elem.hlsPragmas
    pure { elem with hlsPragmas := pragmas }
  | .kwTiming => do
    advance
    let ii ← parseTiming elem.pipelineIi
    pure { elem with pipelineIi := ii }
  | _ => do
    error tok ("unexpected token in element body: " ++ tokName tok.kind)
    fail

def parseElementBody (elem : ElementDecl) : Parse ElementDecl := do
  let _ ← require .lBrace "\x60\x7b\x60 to begin element body"
  let elem ← untilBrace parseSection elem
  let _ ← expect .rBrace "\x60\x7d\x60"
  pure elem

/-- The optional `<in, out>` of an element or a group. -/
def parsePortCounts : Parse (Int × Int) := do
  if ← accept .lAngle then do
    let inT ← require .integer "input port count"
    let _ ← expect .comma "\x60,\x60"
    let outT ← require .integer "output port count"
    let _ ← expect .rAngle "\x60>\x60"
    pure (castInt inT.intValue, castInt outT.intValue)
  else pure (-1, -1)

def pushTop (stmt : TopStmt) : Parse Unit :=
  modify fun s => { s with stmts := s.stmts ++ [stmt] }

def parseElementDecl : Parse Unit := do
  let kw ← cur
  advance
  let name ← require .ident "element name"
  let (nIn, nOut) ← parsePortCounts
  let decl ← parseElementBody {
    name := name.text
    src := { «begin» := kw.range.begin, «end» := name.range.end }
    nInPorts := nIn
    nOutPorts := nOut }
  pushTop (.elementDecl decl)

/-! ## Instances and connections -/

/-- Where `parseDeclOrChain` pushes to: `mod_out` or `group_out`. -/
inductive Sink where
  | module | group
deriving DecidableEq, Repr

def topOf : GroupStmt → TopStmt
  | .instanceDecl d => .instanceDecl d
  | .connectionDecl c => .connectionDecl c

def FileState.push (s : FileState) : Sink → GroupStmt → FileState
  | .module, stmt => { s with stmts := s.stmts ++ [topOf stmt] }
  | .group, stmt => { s with body := s.body ++ [stmt] }

def push (sink : Sink) (stmt : GroupStmt) : Parse Unit := modify fun s => s.push sink stmt

def hostQualifierTurn (flags : Bool × Bool) : Parse (ForInStep (Bool × Bool)) := do
  if ← accept .at then pure (.yield (true, flags.2))
  else if ← accept .amp then pure (.yield (flags.1, true))
  else pure (.done flags)

/-- `parseHostQualifier`: the flags `host_ctrl` and `autorun`. -/
def parseHostQualifier : Parse (Bool × Bool) := loop hostQualifierTurn (false, false)

/-- A number after the mark `t` if that is there, else `default`. -/
def parseAfter (t : Tok) (what : String) (default : Int) : Parse Int := do
  if ← accept t then do
    let n ← require .integer what
    pure (castInt n.intValue)
  else pure default

/-- `[lo-hi*depth]`, at its bracket. -/
def parseRange : Parse PortRange := do
  let lb ← cur
  advance
  let n1 ← require .integer "port number"
  let lo := castInt n1.intValue
  let hi ← parseAfter .dash "port number" lo
  let depth ← parseAfter .star "channel depth" (-1)
  let rb ← expect .rBracket "\x60]\x60"
  pure {
    lo := lo
    hi := hi
    depth := depth
    src := { «begin» := lb.range.begin, «end» := rb.range.end } }

/-- A malformed range has been reported and counts as none. -/
def parseOptionalRange : Parse (Option PortRange) := do
  let tok ← cur
  if tok.kind = .lBracket then attempt parseRange else pure none

/-- One turn of the loop over `, param`. On another token an instance fails, an inline instance
goes on. -/
def paramTurn (strict : Bool) (params : List InstanceParam) :
    Parse (ForInStep (List InstanceParam)) := do
  if ← accept .comma then do
    let tok ← cur
    if tok.kind = .integer then do
      advance
      pure (.yield (params ++ [{ kind := .number, text := tok.text, src := tok.range }]))
    else if tok.kind = .stringLit then do
      advance
      pure (.yield (params ++ [{ kind := .string, text := tok.text, src := tok.range }]))
    else if strict then do
      error tok "expected number or string param"
      fail
    else pure (.done params)
  else pure (.done params)

/-- What stands between the parentheses of an instance. -/
structure InstanceArgs where
  nInPorts : Int
  nOutPorts : Int
  channelDepth : Int
  params : List InstanceParam

/-- `in, out*depth, params)`, after the opening parenthesis. -/
def parseArgs (strict : Bool) : Parse InstanceArgs := do
  let inT ← require .integer "input port count"
  let _ ← expect .comma "\x60,\x60"
  let outT ← require .integer "output port count"
  let depth ← parseAfter .star "channel depth" 64
  let params ← loop (paramTurn strict) []
  let _ ← expect .rParen "\x60)\x60"
  pure {
    nInPorts := castInt inT.intValue
    nOutPorts := castInt outT.intValue
    channelDepth := depth
    params := params }

/-- The optional arguments of an instance. -/
def parseInstanceArgs : Parse InstanceArgs := do
  if ← accept .lParen then parseArgs true
  else pure { nInPorts := -1, nOutPorts := -1, channelDepth := 64, params := [] }

/-- `Type :: name ..`, at the double colon. -/
def parseInstance (sink : Sink) (first : Token) : Parse Unit := do
  advance
  let name ← require .ident "instance name"
  let (host, autorun) ← parseHostQualifier
  let args ← parseInstanceArgs
  let _ ← accept .semicolon
  push sink (.instanceDecl {
    type := first.text
    name := name.text
    hostControl := host
    autorun := autorun
    nInPorts := args.nInPorts
    nOutPorts := args.nOutPorts
    channelDepth := args.channelDepth
    params := args.params
    src := { «begin» := first.range.begin, «end» := name.range.end } })

/-- The name of an inline instance: its type and where it stands. -/
def anonName (type : String) (loc : SourceLoc) : String :=
  type ++ "__anon_" ++ toString loc.line.toNat ++ "_" ++ toString loc.column.toNat

/-- The node that the identifier `tok` starts: an inline instance is pushed under a made-up name,
any other name stands for itself. -/
def parseNode (sink : Sink) (tok : Token) : Parse String := do
  if ← accept .lParen then do
    let args ← parseArgs false
    let last ← prev
    push sink (.instanceDecl {
      type := tok.text
      name := anonName tok.text tok.range.begin
      anonymous := true
      nInPorts := args.nInPorts
      nOutPorts := args.nOutPorts
      channelDepth := args.channelDepth
      params := args.params
      src := { «begin» := tok.range.begin, «end» := last.range.end } })
    pure (anonName tok.text tok.range.begin)
  else pure tok.text

/-- One arrow and the node behind it. The end read here is the destination of this connection and
the source of the next: its range is the one behind the node if there is one, else the one in
front. -/
def parseLink (sink : Sink) (arrow : Token) (source : ConnEnd) : Parse ConnEnd := do
  advance
  let leading ← parseOptionalRange
  let tok ← cur
  if tok.kind = .ident ∨ tok.kind = .kwHost ∨ tok.kind = .kwVerilog then do
    let _ ← accept .kwHost
    let _ ← accept .kwVerilog
    let next ← require .ident "node name"
    let name ← parseNode sink next
    let last ← prev
    let trailing ← parseOptionalRange
    let dest : ConnEnd := {
      nodeName := name
      range := (trailing.or leading).getD {}
      src := { «begin» := next.range.begin, «end» := last.range.end } }
    push sink (.connectionDecl {
      source := source
      dest := dest
      lossy := arrow.kind == .fatArrow
      src := { «begin» := source.src.begin, «end» := dest.src.end } })
    pure dest
  else do
    error tok "expected node after arrow"
    fail

def linkTurn (sink : Sink) (source : ConnEnd) : Parse (ForInStep ConnEnd) := do
  let tok ← cur
  if tok.kind = .arrow ∨ tok.kind = .fatArrow then do
    let dest ← parseLink sink tok source
    pure (.yield dest)
  else pure (.done source)

/-- A chain, after the identifier of its first node. -/
def parseChain (sink : Sink) (first : Token) : Parse Unit := do
  let name ← parseNode sink first
  let last ← prev
  let range ← parseOptionalRange
  let _ ← loop (linkTurn sink) {
    nodeName := name
    range := range.getD {}
    src := { «begin» := first.range.begin, «end» := last.range.end } }
  let _ ← accept .semicolon

/-- `host` or `verilog` in front of a declaration is read over. -/
def parseQualifier : Parse Unit := do
  if ← accept .kwHost then pure ()
  else do
    let _ ← accept .kwVerilog

def parseDeclOrChain (sink : Sink) : Parse Unit := do
  parseQualifier
  let first ← cur
  if first.kind = .ident then do
    advance
    let tok ← cur
    if tok.kind = .doubleColon then parseInstance sink first else parseChain sink first
  else do
    error first ("expected identifier (got " ++ tokName first.kind ++ ")")
    fail

/-! ## Groups -/

def skipTurn (kinds : List Tok) (_ : Unit) : Parse (ForInStep Unit) := do
  let tok ← cur
  if tok.kind ∈ kinds then pure (.done ())
  else do
    advance
    pure (.yield ())

/-- `while (cur is none of kinds) advance(s);`. -/
def skipUntil (kinds : List Tok) : Parse Unit := loop (skipTurn kinds) ()

def parseGroupBody : Parse (List GroupStmt) := do
  let _ ← require .lBrace "\x60\x7b\x60 to begin element group body"
  modify fun s => { s with body := [] }
  untilBrace (fun _ => do
    let ok ← attempt (parseDeclOrChain .group)
    if ok.isNone then skipUntil [.rBrace, .eof, .ident, .kwHost, .kwVerilog]) ()
  let _ ← expect .rBrace "\x60\x7d\x60"
  let s ← get
  pure s.body

def parseElementGroupDecl : Parse Unit := do
  let kw ← cur
  advance
  let name ← require .ident "element group name"
  let (nIn, nOut) ← parsePortCounts
  let body ← parseGroupBody
  pushTop (.elementGroupDecl {
    name := name.text
    src := { «begin» := kw.range.begin, «end» := name.range.end }
    nInPorts := nIn
    nOutPorts := nOut
    body := body })

/-! ## Files -/

/-- The part of the state that outlives the file. -/
def FileState.parser (s : FileState) : Parser where
  buffers := s.buffers
  seenFiles := s.seenFiles
  diags := s.lex.diags

def FileState.withParser (p : Parser) (s : FileState) : FileState :=
  { s with
    lex := { s.lex with diags := p.diags }
    buffers := p.buffers
    seenFiles := p.seenFiles }

section
variable (fs : FileSystem) (importDirs : List String)

/-- `parseFile` reads the imported file, whose statements come first. -/
def parseImport (parseFile : String → Production Parser Module) : Parse Unit := do
  let kw ← cur
  advance
  let str ← require .stringLit "import path string"
  let _ ← accept .semicolon
  let s ← get
  let resolved := fs.resolveImport importDirs s.lex.buf.path str.text
  let sub ← attempt (within FileState.parser FileState.withParser (parseFile resolved))
  match sub with
  | none => do
    error str ("failed to parse imported file \x60" ++ str.text ++ "\x60")
    fail
  | some sub => do
    modify fun s => { s with stmts := s.stmts ++ sub.stmts }
    pushTop (.importDecl {
      path := str.text
      src := { «begin» := kw.range.begin, «end» := str.range.end } })

def parseTopStmt (parseFile : String → Production Parser Module) : Parse Unit := do
  let tok ← cur
  match tok.kind with
  | .kwImport => parseImport fs importDirs parseFile
  | .kwElement => parseElementDecl
  | .kwElementGroup => parseElementGroupDecl
  | _ => parseDeclOrChain .module

/-- One turn of the loop of `parseFile`: after a statement that fails, on to the next marker. -/
def stmtTurn (parseFile : String → Production Parser Module) (_ : Unit) :
    Parse (ForInStep Unit) := do
  let tok ← cur
  if tok.kind = .eof then pure (.done ())
  else do
    let ok ← attempt (parseTopStmt fs importDirs parseFile)
    if ok.isNone then skipUntil [.eof, .kwElement, .kwElementGroup, .kwImport]
    pure (.yield ())

def parseStmts (parseFile : String → Production Parser Module) : Parse Unit :=
  loop (stmtTurn fs importDirs parseFile) ()

/-- The state in front of the first token of a file that has just been added to the buffers. -/
def openFile (p : Parser) (path : String) (contents : List Char) : FileState :=
  let buf : SourceBuffer := { path := path, contents := contents }
  let lex : Lexer := { buf := buf, fileId := UInt32.ofNat p.buffers.length, diags := p.diags }
  { lex := lex.next.2, cur := lex.next.1, buffers := p.buffers ++ [buf], seenFiles := p.seenFiles }

/-- The statements of an opened file. -/
def parseBuffer (parseFile : String → Production Parser Module) (path : String)
    (contents : List Char) : Production Parser Module := fun n p =>
  match parseStmts fs importDirs parseFile n (openFile p path contents) with
  | none => none
  | some (_, s) => some (some { fileId := s.lex.fileId, stmts := s.stmts }, s.parser)

/-- `Parser::parseFile`, with at most `depth` files open at a time. -/
def parseFile : Nat → String → Production Parser Module
  | 0, _ => fun _ _ => none
  | depth + 1, path => do
    let canon := fs.weaklyCanonical path
    let p ← get
    if canon ∈ p.seenFiles then pure { stmts := [] }
    else do
      set { p with seenFiles := p.seenFiles ++ [canon] }
      match fs.read path with
      | none => do
        let dummy : SourceLoc := { fileId := 0, line := 1, column := 1, offset := 0 }
        let range := { «begin» := dummy, «end» := dummy }
        modify fun p =>
          { p with diags := p.diags.error range ("cannot open \x60" ++ path ++ "\x60") }
        fail
      | some contents => parseBuffer fs importDirs (parseFile depth) path contents

end

end Parser

end OpenClickNP
