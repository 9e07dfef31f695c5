import DiagnosticGate.Diagnostic.Basic

/-!
Header lines.

The compiler opens a diagnostic with a header in one of two forms,

  `path(line,column): error CODE: message`
  `path:line:column - error CODE: message`

A path may itself look like the start of a header. The longest path for which the rest of the line
has one of the forms is the path of the header.
-/

namespace DiagnosticGate.Diagnostic

/-- what follows `word` in a text that starts with it -/
def after? : List Char → List Char → Option (List Char)
  | [], cs => some cs
  | _ :: _, [] => none
  | w :: ws, c :: cs => if w = c then after? ws cs else none

/-- what follows the digits at the start of a text that starts with a digit -/
def afterDigits? (cs : List Char) : Option (List Char) :=
  if (cs.takeWhile Char.isDigit).isEmpty then none else some (cs.dropWhile Char.isDigit)

/-- what follows a position in either form -/
def afterPosition? : List Char → Option (List Char)
  | '(' :: cs => do after? [')', ':'] (← afterDigits? (← after? [','] (← afterDigits? cs)))
  | ':' :: cs => do after? [' ', '-'] (← afterDigits? (← after? [':'] (← afterDigits? cs)))
  | _ => none

/-- the error code at the start of a text that goes on with a colon -/
def leadingCode? : List Char → Option (List Char)
  | 'T' :: 'S' :: cs =>
    let digits := cs.takeWhile Char.isDigit
    if 4 ≤ digits.length && (cs.dropWhile Char.isDigit).head? = some ':' then
      some ('T' :: 'S' :: digits)
    else none
  | _ => none

/-- the error code of a header whose path has been read -/
def codeBehindPath? (cs : List Char) : Option (List Char) := do
  leadingCode? (← after? " error ".toList (← afterPosition? cs))

/-- the longest path of a header and its code -/
def splitHeader? : List Char → Option (List Char × List Char)
  | [] => none
  | c :: cs =>
    match splitHeader? cs with
    | some (path, code) => some (c :: path, code)
    | none => (codeBehindPath? (c :: cs)).map fun code => ([], code)

/-- reads a header line; a text with a line feed is none -/
def ofHeader? (line : String) : Option Diagnostic :=
  if line.toList.contains '\n' then none
  else
    (splitHeader? line.toList).map fun (path, code) =>
      { file := .ofList path, code := .ofList code, lines := [line] }

theorem after?_eq_some_iff {word cs rest : List Char} :
    after? word cs = some rest ↔ cs = word ++ rest := by
  fun_induction after? word cs <;> grind

theorem lines_of_ofHeader? {line : String} {d : Diagnostic} (h : ofHeader? line = some d) :
    d.lines = [line] := by
  simp only [ofHeader?] at h
  split at h
  · cases h
  · simp only [Option.map_eq_some_iff] at h
    obtain ⟨_, _, rfl⟩ := h
    rfl

theorem codeDigits?_of_leadingCode? {cs code : List Char} (h : leadingCode? cs = some code) :
    ∃ ds, codeDigits? code = some ds := by
  unfold leadingCode? at h
  split at h
  · rename_i ds
    simp only at h
    split at h
    · rename_i hd
      cases h
      refine ⟨ds.takeWhile Char.isDigit, codeDigits?_eq_some_iff.2 ⟨rfl, ?_, ?_⟩⟩
      · simp only [Bool.and_eq_true, decide_eq_true_eq] at hd
        exact hd.1
      · intro d hmem
        have := List.all_takeWhile (l := ds) (p := Char.isDigit)
        exact List.all_eq_true.1 this d hmem
    · cases h
  · cases h

end DiagnosticGate.Diagnostic
