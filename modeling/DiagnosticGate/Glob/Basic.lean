import DiagnosticGate.Glob.Parser
import DiagnosticGate.Glob.Pattern
import DiagnosticGate.Text.Utf8

/-!
Glob patterns over paths.

A path is matched as the bytes of its UTF-8 form, whole. `?`, `*` and classes take bytes, so they
can split a character; a class lays the bytes of its members side by side. In a group, a branch
that stands for nothing but the empty text is left out, and a group without branches stands for
the empty text.
-/

namespace DiagnosticGate.Glob

def slash : Pattern := .one (.exactly 0x2f)

/-- a text that stands for itself -/
def verbatim : List UInt8 → Pattern
  | [] => .empty
  | b :: bs => .andThen (.one (.exactly b)) (verbatim bs)

/-- The bytes of a range: those of its ends, where the last byte of `lo` and the first of `hi`
make a range of bytes. -/
def byteRanges (lo hi : Char) : List (UInt8 × UInt8) :=
  let low := String.utf8EncodeChar lo
  let high := String.utf8EncodeChar hi
  let single := fun b => (b, b)
  if lo = hi then low.map single
  else
    low.dropLast.map single ++ (low.getLast?.toList.zip high.head?.toList) ++ high.tail.map single

mutual

def Token.pattern : Token → Pattern
  | .literal c => verbatim (String.utf8EncodeChar c)
  | .anyOne => .one .notSlash
  | .anyRun => .many .notSlash
  | .leading => .either (.either .empty slash) (.both (.many .any) slash)
  | .trailing => .both slash (.many .any)
  | .between => .either slash (.both slash (.both (.many .any) slash))
  | .oneOf negated ranges =>
    .one (.listed negated (ranges.flatMap fun (lo, hi) => byteRanges lo hi))
  | .choice branches => .alternatives ((branchPatterns branches).filter fun p => !p.isEmpty)

/-- tokens one after the other -/
def tokensPattern : List Token → Pattern
  | [] => .empty
  | t :: ts => .andThen t.pattern (tokensPattern ts)

def branchPatterns : List (List Token) → List Pattern
  | [] => []
  | b :: bs => tokensPattern b :: branchPatterns bs

end

/-- The pattern of a whole glob. A `**` alone matches everything. -/
def compile : List Token → Pattern
  | [.leading] => .many .any
  | ts => tokensPattern ts

/-- reads a glob -/
def ofText (text : String) : Except Fault Pattern :=
  match parse text.toList with
  | .error e => .error e
  | .ok tokens => .ok (compile tokens)

/-- whether a glob covers a path -/
def covers (p : Pattern) (path : String) : Bool := p.accepts (Text.encode path)

end DiagnosticGate.Glob
