/-!
Glob patterns as tokens, and what can be wrong with the text of one.
-/

namespace DiagnosticGate.Glob

/-- one piece of a pattern -/
inductive Token
  /-- a character that stands for itself -/
  | literal (c : Char)
  /-- `?`: one byte of a segment -/
  | anyOne
  /-- `*`: a run of bytes of one segment -/
  | anyRun
  /-- `**` at the start, with the separator behind it -/
  | leading
  /-- `**` at the end, with the separator before it -/
  | trailing
  /-- `**` between two separators, with both of them -/
  | between
  /-- a bracketed class of ranges; `negated` takes what none of them holds -/
  | oneOf (negated : Bool) (ranges : List (Char × Char))
  /-- a group of alternatives in braces -/
  | choice (branches : List (List Token))
  deriving Repr

/-- what can be wrong with a pattern -/
inductive Fault
  | danglingEscape
  | unopenedGroup
  | unclosedGroup
  | invalidRange (lo hi : Char)
  | unclosedClass
  deriving Repr, DecidableEq

def Fault.message : Fault → String
  | .danglingEscape => "dangling '\\'"
  | .unopenedGroup => "unopened alternate group; missing '\x7b' (maybe escape '\x7d' with '[\x7d]'?)"
  | .unclosedGroup => "unclosed alternate group; missing '\x7d' (maybe escape '\x7b' with '[\x7b]'?)"
  | .invalidRange lo hi =>
    String.ofList ("invalid range; '".toList ++ lo :: "' > '".toList ++ hi :: "'".toList)
  | .unclosedClass => "unclosed character class; missing ']'"

end DiagnosticGate.Glob
