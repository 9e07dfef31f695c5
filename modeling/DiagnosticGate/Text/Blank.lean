/-!
Blank characters and trimming.

A blank is a character with the Unicode property `White_Space`. Trimming removes the blanks at
both ends of a text and nothing else.
-/

namespace DiagnosticGate.Text

/-- The characters with the property `White_Space`, as ranges of code points. -/
def blankRanges : List (Nat × Nat) :=
  [(0x0009, 0x000d), (0x0020, 0x0020), (0x0085, 0x0085), (0x00a0, 0x00a0), (0x1680, 0x1680),
   (0x2000, 0x200a), (0x2028, 0x2029), (0x202f, 0x202f), (0x205f, 0x205f), (0x3000, 0x3000)]

def isBlank (c : Char) : Bool :=
  blankRanges.any fun (lo, hi) => lo ≤ c.toNat && c.toNat ≤ hi

/-- what is left of `cs` without its trailing blanks -/
def trimEnd (cs : List Char) : List Char := (cs.reverse.dropWhile isBlank).reverse

/-- `cs` without the blanks at both ends -/
def trim (cs : List Char) : List Char := trimEnd (cs.dropWhile isBlank)

example : (blankRanges.map fun (lo, hi) => hi + 1 - lo).sum = 25 := by decide

end DiagnosticGate.Text
