/-!
Diagnostics of a type checker.

A diagnostic names a file and an error code. Its first line is the header it was read from, the
others are the lines that explain it.
-/

namespace DiagnosticGate

/-- one error reported by the compiler -/
structure Diagnostic where
  /-- the path as the compiler wrote it -/
  file : String
  /-- the error code, such as `TS2532` -/
  code : String
  /-- the header line and the lines after it -/
  lines : List String
  deriving Repr, DecidableEq, Inhabited

/-- the text of a diagnostic as the compiler printed it -/
def Diagnostic.text (d : Diagnostic) : String := "\n".intercalate d.lines

/-- the digits of an error code: `TS` and at least four of them -/
def codeDigits? : List Char → Option (List Char)
  | 'T' :: 'S' :: ds => if 4 ≤ ds.length && ds.all Char.isDigit then some ds else none
  | _ => none

/-- whether `code` has the form of an error code -/
def isErrorCode (code : String) : Bool := (codeDigits? code.toList).isSome

/-- the members of `codes` that are no error codes, in order -/
def malformedCodes (codes : List String) : List String := codes.filter fun c => !isErrorCode c

theorem codeDigits?_eq_some_iff {cs ds : List Char} :
    codeDigits? cs = some ds ↔ cs = 'T' :: 'S' :: ds ∧ 4 ≤ ds.length ∧ ∀ d ∈ ds, d.isDigit := by
  fun_cases codeDigits? cs <;> grind

theorem isErrorCode_iff {code : String} :
    isErrorCode code ↔
      ∃ ds, code.toList = 'T' :: 'S' :: ds ∧ 4 ≤ ds.length ∧ ∀ d ∈ ds, d.isDigit := by
  simp [isErrorCode, Option.isSome_iff_exists, codeDigits?_eq_some_iff]

example : isErrorCode "TS1234" ∧ ¬ isErrorCode "TS123" ∧ ¬ isErrorCode "ts1234" := by decide

end DiagnosticGate
