import DiagnosticGate.Diagnostic.Header
import DiagnosticGate.Text.Line

/-!
Diagnostics from lines.

A header opens a diagnostic, every other line extends the open one. Lines before the first header
are dropped, and so are lines whose normal form is empty. An `Assembly` holds the open diagnostic;
`Diagnostic.ofLines` reads a whole output.
-/

namespace DiagnosticGate

/-- the diagnostic that is still being read -/
structure Assembly where
  pending : Option Diagnostic
  deriving Repr, DecidableEq

namespace Assembly

/-- nothing has been read -/
def empty : Assembly := ⟨none⟩

/-- Reads one line, and answers the diagnostic that the line closes. -/
def push (a : Assembly) (line : String) : Assembly × Option Diagnostic :=
  let text := Text.normalize line
  if text.isEmpty then (a, none)
  else
    match Diagnostic.ofHeader? text with
    | some d => (⟨some d⟩, a.pending)
    | none => (⟨a.pending.map fun d => { d with lines := d.lines ++ [text] }⟩, none)

/-- closes the open diagnostic -/
def close (a : Assembly) : Assembly × Option Diagnostic := (empty, a.pending)

/-- reads lines, and answers the diagnostics they close in order -/
def pushAll (a : Assembly) : List String → Assembly × List Diagnostic
  | [] => (a, [])
  | line :: lines =>
    let (b, closed) := a.push line
    let (c, rest) := b.pushAll lines
    (c, closed.toList ++ rest)

theorem pushAll_append (a : Assembly) (xs ys : List String) :
    a.pushAll (xs ++ ys) =
      (((a.pushAll xs).1.pushAll ys).1, (a.pushAll xs).2 ++ ((a.pushAll xs).1.pushAll ys).2) := by
  induction xs generalizing a with
  | nil => rfl
  | cons x xs ih => simp [pushAll, ih]

end Assembly

/-- the diagnostics of a complete output -/
def Diagnostic.ofLines (lines : List String) : List Diagnostic :=
  let (a, closed) := Assembly.empty.pushAll lines
  closed ++ a.pending.toList

end DiagnosticGate
