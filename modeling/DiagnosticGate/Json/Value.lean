import DiagnosticGate.Text.Utf8

/-!
JSON values, and the ways in which a text fails to be one.

A fault knows how many bytes of the text are left behind the place it names. The message of a
syntax error gives that place as a line and a column, both in bytes.
-/

namespace DiagnosticGate.Json

/-- A JSON value. The value of a number is not kept. -/
inductive Value
  | null
  | bool (b : Bool)
  | number
  | text (s : String)
  | list (items : List Value)
  | object (members : List (String × Value))
  deriving Repr

/-- why a text is not JSON -/
inductive Reason
  | endInValue
  | endInList
  | endInObject
  | endInString
  | expectedWord
  | expectedValue
  | expectedColon
  | expectedListEnd
  | expectedObjectEnd
  | keyNotText
  | trailingComma
  | trailingCharacters
  | tooDeep
  | invalidNumber
  | numberOutOfRange
  | invalidEscape
  | controlCharacter
  | loneSurrogate
  | unpairedSurrogate
  deriving Repr, DecidableEq

def Reason.message : Reason → String
  | endInValue => "EOF while parsing a value"
  | endInList => "EOF while parsing a list"
  | endInObject => "EOF while parsing an object"
  | endInString => "EOF while parsing a string"
  | expectedWord => "expected ident"
  | expectedValue => "expected value"
  | expectedColon => "expected `:`"
  | expectedListEnd => "expected `,` or `]`"
  | expectedObjectEnd => "expected `,` or `\x7d`"
  | keyNotText => "key must be a string"
  | trailingComma => "trailing comma"
  | trailingCharacters => "trailing characters"
  | tooDeep => "recursion limit exceeded"
  | invalidNumber => "invalid number"
  | numberOutOfRange => "number out of range"
  | invalidEscape => "invalid escape"
  | controlCharacter => "control character (\\u0000-\\u001F) found while parsing a string"
  | loneSurrogate => "lone leading surrogate in hex escape"
  | unpairedSurrogate => "unexpected end of hex escape"

/-- a reason, and the number of bytes behind the place of the fault -/
structure Fault where
  reason : Reason
  left : Nat
  deriving Repr, DecidableEq

/-- a fault right before `rest` -/
def Fault.before (reason : Reason) (rest : List Char) : Fault := ⟨reason, Text.byteLength rest⟩

/-- a fault behind the first byte of `rest`, or at the end if there is none -/
def Fault.behind (reason : Reason) (rest : List Char) : Fault := ⟨reason, Text.byteLength rest - 1⟩

/-- Line and column behind the first `n` bytes of a text, from those before it. -/
def place (line column n : Nat) : List Char → Nat × Nat
  | [] => (line, column)
  | c :: cs =>
    if n = 0 then (line, column)
    else if c = '\n' then place (line + 1) 0 (n - 1) cs
    else place line (column + min n c.utf8Size) (n - c.utf8Size) cs

/-- a syntax error, with the line (from one) and the column in which it was noticed -/
structure SyntaxError where
  reason : Reason
  line : Nat
  column : Nat
  deriving Repr, DecidableEq

def SyntaxError.message (e : SyntaxError) : String :=
  e.reason.message ++ s!" at line {e.line} column {e.column}"

/-- the place of a fault in the text `cs` -/
def Fault.locate (f : Fault) (cs : List Char) : SyntaxError :=
  let (line, column) := place 1 0 (Text.byteLength cs - f.left) cs
  ⟨f.reason, line, column⟩

end DiagnosticGate.Json
