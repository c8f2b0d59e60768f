import Mathlib.Algebra.Group.Int.Defs
import Mathlib.Algebra.Group.Nat.Defs
import OpenClickNP.Compiler.Ast

/-!
# `source.cpp`, `lexer.cpp`: buffers and tokens

* a buffer is a list of characters, one for each byte of the file; the character classes are those
  of the C locale;
* every scanning loop moves `pos_` forward, so what is left of the buffer bounds its turns;
* `SourceLoc` and `seekTo` have 32-bit offsets, `pos_` is a `size_t`.
-/

namespace OpenClickNP

/-! ## Buffers -/

structure SourceBuffer where
  path : String
  contents : List Char
deriving DecidableEq, Repr

namespace SourceBuffer

/-- `line_starts_`. -/
def lineStarts (buf : SourceBuffer) : List UInt32 :=
  0 :: (buf.contents.zipIdx.filter fun c => c.1 == '\n').map fun c => UInt32.ofNat (c.2 + 1)

/-- The binary search of `lineColOf`: the last start at or before `offset`. -/
def searchLine (starts : List UInt32) (offset : UInt32) : Nat → Nat → Nat → Nat
  | 0, lo, _ => lo
  | n + 1, lo, hi =>
    if lo + 1 < hi then
      let mid := (lo + hi) / 2
      if starts.getD mid 0 ≤ offset then searchLine starts offset n mid hi
      else searchLine starts offset n lo mid
    else lo

def lineColOf (buf : SourceBuffer) (offset : UInt32) : UInt32 × UInt32 :=
  let starts := buf.lineStarts
  let lo := searchLine starts offset starts.length 0 starts.length
  (UInt32.ofNat (lo + 1), offset - starts.getD lo 0 + 1)

end SourceBuffer

/-! ## Tokens -/

inductive Tok where
  | eof | error
  | lBrace | rBrace | lParen | rParen | lBracket | rBracket | lAngle | rAngle
  | comma | semicolon | colon | doubleColon | star | dash | equals | dollar | at | amp
  | arrow | fatArrow
  | kwImport | kwElement | kwElementGroup | kwState | kwInit | kwHandler | kwSignal | kwTiming
  | kwHlsPragma | kwRepeat | kwBreak | kwConstexpr | kwHost | kwVerilog | kwPortAny
  | ident | integer | stringLit | opaqueCpp
deriving DecidableEq, Repr

def tokName : Tok → String
  | .eof => "<eof>"
  | .error => "<error>"
  | .lBrace => "\x7b"
  | .rBrace => "\x7d"
  | .lParen => "("
  | .rParen => ")"
  | .lBracket => "["
  | .rBracket => "]"
  | .lAngle => "<"
  | .rAngle => ">"
  | .comma => ","
  | .semicolon => ";"
  | .colon => ":"
  | .doubleColon => "::"
  | .star => "*"
  | .dash => "-"
  | .equals => "="
  | .dollar => "$"
  | .at => "@"
  | .amp => "&"
  | .arrow => "->"
  | .fatArrow => "=>"
  | .kwImport => "import"
  | .kwElement => ".element"
  | .kwElementGroup => ".element_group"
  | .kwState => ".state"
  | .kwInit => ".init"
  | .kwHandler => ".handler"
  | .kwSignal => ".signal"
  | .kwTiming => ".timing"
  | .kwHlsPragma => ".hls_pragma"
  | .kwRepeat => ".repeat"
  | .kwBreak => "BREAK"
  | .kwConstexpr => "constexpr"
  | .kwHost => "host"
  | .kwVerilog => "verilog"
  | .kwPortAny => "PORT_ANY"
  | .ident => "identifier"
  | .integer => "integer"
  | .stringLit => "string"
  | .opaqueCpp => "<opaque-cpp-block>"

structure Token where
  kind : Tok := .eof
  text : String := ""
  range : SourceRange := {}
  intValue : UInt64 := 0
deriving DecidableEq, Repr

/-! ## The lexer -/

/-- The fields of `Lexer`; the diagnostics are those of the engine it refers to. -/
structure Lexer where
  buf : SourceBuffer
  fileId : UInt32
  diags : DiagnosticEngine := {}
  pos : Nat := 0
  line : UInt32 := 1
  col : UInt32 := 1
deriving DecidableEq, Repr

/-- A character of an identifier after the first. -/
def isWordChar (c : Char) : Bool := c.isAlphanum || c == '_'

def isXDigit (c : Char) : Bool :=
  c.isDigit || ('a' ≤ c && c ≤ 'f') || ('A' ≤ c && c ≤ 'F')

def isOctDigit (c : Char) : Bool := '0' ≤ c && c ≤ '7'

def digitValue (c : Char) : Nat :=
  if c.isDigit then c.toNat - '0'.toNat
  else if 'a' ≤ c then c.toNat - 'a'.toNat + 10
  else c.toNat - 'A'.toNat + 10

/-- `std::stoull` of a run of digits; `none` where it throws. -/
def stoull (digits : List Char) (base : Nat) : Option UInt64 :=
  let value := digits.foldl (fun acc c => base * acc + digitValue c) 0
  if digits.isEmpty || 2 ^ 64 ≤ value then none else some (UInt64.ofNat value)

namespace Lexer

def src (lx : Lexer) : List Char := lx.buf.contents

def atEnd (lx : Lexer) : Bool := lx.src.length ≤ lx.pos

def peek (lx : Lexer) (k : Nat := 0) : Char := lx.src.getD (lx.pos + k) '\x00'

def error (lx : Lexer) (r : SourceRange) (msg : String) : Lexer :=
  { lx with diags := lx.diags.error r msg }

def here (lx : Lexer) : SourceLoc where
  fileId := lx.fileId
  line := lx.line
  column := lx.col
  offset := UInt32.ofNat lx.pos

def seekTo (lx : Lexer) (offset : UInt32) : Lexer :=
  let offset := if lx.src.length < offset.toNat then UInt32.ofNat lx.src.length else offset
  let (line, col) := lx.buf.lineColOf offset
  { lx with pos := offset.toNat, line := line, col := col }

def advance (lx : Lexer) : Lexer :=
  if lx.atEnd then lx
  else if lx.peek = '\n' then { lx with pos := lx.pos + 1, line := lx.line + 1, col := 1 }
  else { lx with pos := lx.pos + 1, col := lx.col + 1 }

/-- How far the end of the buffer is. -/
def left (lx : Lexer) : Nat := lx.src.length - lx.pos

/-- At most `n` turns of `while (!atEnd() && p) advance();`. -/
def advanceWhile (p : Lexer → Bool) : Nat → Lexer → Lexer
  | 0, lx => lx
  | n + 1, lx => if !lx.atEnd && p lx then advanceWhile p n lx.advance else lx

/-- `while (!atEnd() && p) advance();`. -/
def scan (lx : Lexer) (p : Lexer → Bool) : Lexer := advanceWhile p lx.left lx

/-- `src_.substr(b, pos_ - b)`. -/
def textFrom (lx : Lexer) (b : Nat) : List Char := (lx.src.drop b).take (lx.pos - b)

/-! ### Blanks and comments -/

/-- After a slash and a star. -/
def skipBlockComment (lx : Lexer) : Lexer :=
  let lx := lx.advance.advance.scan fun l => !(l.peek == '*' && l.peek 1 == '/')
  if lx.atEnd then lx else lx.advance.advance

/-- One turn of `skipWhitespaceAndComments`; `none` is its `break`. -/
def skipTurn (lx : Lexer) : Option Lexer :=
  let c := lx.peek
  if c = ' ' ∨ c = '\t' ∨ c = '\r' ∨ c = '\n' then some lx.advance
  else if c = '/' ∧ lx.peek 1 = '/' then some (lx.scan fun l => l.peek != '\n')
  else if c = '/' ∧ lx.peek 1 = '*' then some lx.skipBlockComment
  else if c = '#' then some (lx.scan fun l => l.peek != '\n')
  else none

def skipLoop : Nat → Lexer → Lexer
  | 0, lx => lx
  | n + 1, lx =>
    if lx.atEnd then lx
    else
      match lx.skipTurn with
      | some lx' => skipLoop n lx'
      | none => lx

def skipWhitespaceAndComments (lx : Lexer) : Lexer := skipLoop lx.left lx

/-! ### The tokens -/

/-- A token from `start` to where the lexer is. -/
def token (lx : Lexer) (start : SourceLoc) (kind : Tok) (text : List Char := [])
    (value : UInt64 := 0) : Token where
  kind := kind
  text := String.ofList text
  range := { «begin» := start, «end» := lx.here }
  intValue := value

def tokOne (lx : Lexer) (kind : Tok) (start : SourceLoc) : Token × Lexer :=
  let lx := lx.advance
  (lx.token start kind, lx)

def tokTwo (lx : Lexer) (kind : Tok) (start : SourceLoc) : Token × Lexer :=
  let lx := lx.advance.advance
  (lx.token start kind, lx)

def keywords : List (String × Tok) := [
  ("import", .kwImport),
  ("BREAK", .kwBreak),
  ("constexpr", .kwConstexpr),
  ("host", .kwHost),
  ("verilog", .kwVerilog),
  ("PORT_ANY", .kwPortAny)]

def lexIdentOrKeyword (lx : Lexer) (start : SourceLoc) : Token × Lexer :=
  let b := lx.pos
  let lx := lx.scan fun l => isWordChar l.peek
  let text := lx.textFrom b
  (lx.token start ((keywords.lookup (String.ofList text)).getD .ident) text, lx)

def directives : List (String × Tok) := [
  ("element", .kwElement),
  ("element_group", .kwElementGroup),
  ("state", .kwState),
  ("init", .kwInit),
  ("handler", .kwHandler),
  ("signal", .kwSignal),
  ("timing", .kwTiming),
  ("hls_pragma", .kwHlsPragma),
  ("repeat", .kwRepeat)]

def lexDirectiveKeyword (lx : Lexer) (start : SourceLoc) : Token × Lexer :=
  let lx := lx.advance
  let b := lx.pos
  let lx := lx.scan fun l => isWordChar l.peek
  let name := lx.textFrom b
  match directives.lookup (String.ofList name) with
  | some kind => (lx.token start kind ('.' :: name), lx)
  | none =>
    let t := lx.token start .error ('.' :: name)
    (t, lx.error t.range ("unknown directive \x60." ++ String.ofList name ++ "\x60"))

/-- The digits from where the lexer is, read in `base`; a value that does not fit is `0`. -/
def lexDigits (lx : Lexer) (start : SourceLoc) (isDigit : Char → Bool) (base : Nat) :
    Token × Lexer :=
  let b := lx.pos
  let lx := lx.scan fun l => isDigit l.peek
  let text := lx.textFrom b
  (lx.token start .integer text ((stoull text base).getD 0), lx)

def lexNumber (lx : Lexer) (start : SourceLoc) : Token × Lexer :=
  if lx.peek = '0' ∧ (lx.peek 1 = 'x' ∨ lx.peek 1 = 'X') then
    lx.advance.advance.lexDigits start isXDigit 16
  else if lx.peek = '0' ∧ isOctDigit (lx.peek 1) then lx.advance.lexDigits start isOctDigit 8
  else lx.lexDigits start Char.isDigit 10

/-- What an escaped character stands for. -/
def unescape : Char → Char
  | 'n' => '\n'
  | 't' => '\t'
  | 'r' => '\r'
  | '0' => '\x00'
  | c => c

/-- The loop of `lexString`. -/
def stringLoop : Nat → List Char → Lexer → List Char × Lexer
  | 0, out, lx => (out, lx)
  | n + 1, out, lx =>
    if lx.atEnd || lx.peek == '"' then (out, lx)
    else if lx.peek = '\\' then
      let lx := lx.advance
      stringLoop n (out ++ [unescape lx.peek]) lx.advance
    else stringLoop n (out ++ [lx.peek]) lx.advance

def lexString (lx : Lexer) (start : SourceLoc) : Token × Lexer :=
  let lx := lx.advance
  let (out, lx) := stringLoop lx.left [] lx
  if lx.atEnd then
    let lx := lx.error { «begin» := start, «end» := lx.here } "unterminated string literal"
    (lx.token start .error out, lx)
  else
    let lx := lx.advance
    (lx.token start .stringLit out, lx)

/-- The tokens of one character. -/
def punctuation : Char → Option Tok
  | '\x7b' => some .lBrace
  | '\x7d' => some .rBrace
  | '(' => some .lParen
  | ')' => some .rParen
  | '[' => some .lBracket
  | ']' => some .rBracket
  | '<' => some .lAngle
  | '>' => some .rAngle
  | ',' => some .comma
  | ';' => some .semicolon
  | ':' => some .colon
  | '*' => some .star
  | '-' => some .dash
  | '=' => some .equals
  | '$' => some .dollar
  | '@' => some .at
  | '&' => some .amp
  | _ => none

/-- The token that starts where the lexer is, after the blanks and not at the end. -/
def lexToken (lx : Lexer) (start : SourceLoc) : Token × Lexer :=
  let c := lx.peek
  if c = '-' ∧ lx.peek 1 = '>' then lx.tokTwo .arrow start
  else if c = '=' ∧ lx.peek 1 = '>' then lx.tokTwo .fatArrow start
  else if c = ':' ∧ lx.peek 1 = ':' then lx.tokTwo .doubleColon start
  else
    match punctuation c with
    | some kind => lx.tokOne kind start
    | none =>
      if c = '"' then lx.lexString start
      else if c = '.' then lx.lexDirectiveKeyword start
      else if c.isDigit then lx.lexNumber start
      else if c.isAlpha || c == '_' then lx.lexIdentOrKeyword start
      else
        let lx := lx.advance
        let t := lx.token start .error [c]
        (t, lx.error t.range ("unexpected character \x60" ++ String.ofList [c] ++ "\x60"))

def next (lx : Lexer) : Token × Lexer :=
  let lx := lx.skipWhitespaceAndComments
  let start := lx.here
  if lx.atEnd then ({ kind := .eof, range := { «begin» := start, «end» := start } }, lx)
  else lx.lexToken start

/-! ### Opaque blocks -/

/-- The loop of `skipString`, after the opening quote `q`. -/
def quotedLoop (q : Char) : Nat → Lexer → Lexer
  | 0, lx => lx
  | n + 1, lx =>
    if lx.atEnd || lx.peek == q then lx
    else if lx.peek = '\\' ∧ lx.pos + 1 < lx.src.length then quotedLoop q n lx.advance.advance
    else quotedLoop q n lx.advance

def skipString (lx : Lexer) (q : Char) : Lexer :=
  let lx := lx.advance
  let lx := quotedLoop q lx.left lx
  if lx.atEnd then lx else lx.advance

/-- The loop of `lexOpaqueBlock` on the number of open braces. -/
def opaqueLoop : Nat → Nat → Lexer → Nat × Lexer
  | 0, depth, lx => (depth, lx)
  | n + 1, depth, lx =>
    if lx.atEnd || depth == 0 then (depth, lx)
    else
      let c := lx.peek
      if c = '/' ∧ lx.peek 1 = '/' then opaqueLoop n depth (lx.scan fun l => l.peek != '\n')
      else if c = '/' ∧ lx.peek 1 = '*' then opaqueLoop n depth lx.skipBlockComment
      else if c = '"' ∨ c = '\'' then opaqueLoop n depth (lx.skipString c)
      else if c = '\x7b' then opaqueLoop n (depth + 1) lx.advance
      else if c = '\x7d' then
        if depth = 1 then (0, lx) else opaqueLoop n (depth - 1) lx.advance
      else opaqueLoop n depth lx.advance

/-- `lexOpaqueBlock`, from the first character after the opening brace. -/
def lexOpaqueBlock (lx : Lexer) : Token × Lexer :=
  let start := lx.here
  let b := lx.pos
  let (depth, lx) := opaqueLoop lx.left 1 lx
  let closed := depth == 0
  let lx := if closed then lx
    else lx.error { «begin» := start, «end» := lx.here } "unterminated \x60\x7b\x60 block"
  let t := lx.token start (if closed then .opaqueCpp else .error) (lx.textFrom b)
  (t, if lx.peek = '\x7d' then lx.advance else lx)

end Lexer

end OpenClickNP
