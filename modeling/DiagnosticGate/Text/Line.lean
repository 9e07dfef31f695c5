import DiagnosticGate.Text.Blank
import DiagnosticGate.Text.Escape

/-!
Lines of compiler output.

A line is read in its normal form: terminal sequences are removed first, the blanks at both ends
after that. Removing sequences can bring an introducer to stand before a new sequence, so a second
pass may still change a line.
-/

namespace DiagnosticGate.Text

/-- the normal form of a line -/
def normalize (line : String) : String := .ofList (trim (strip line.toList))

/-- whether `needle` stands somewhere in `text` -/
def occursIn (needle : List Char) : List Char → Bool
  | [] => needle.isEmpty
  | c :: cs => needle.isPrefixOf (c :: cs) || occursIn needle cs

theorem toList_normalize (line : String) :
    (normalize line).toList = trim (strip line.toList) := String.toList_ofList

end DiagnosticGate.Text
