import DiagnosticGate.Json.Number

/-!
Reading JSON.

A reader takes the text that is left and answers a value and the rest, or the first fault. Lists and
objects nest to a fixed depth.
-/

namespace DiagnosticGate.Json

abbrev Reader (α : Type) := List Char → Except Fault (α × List Char)

def isBlank (c : Char) : Bool := c == ' ' || c == '\t' || c == '\n' || c == '\r'

def skipBlanks (cs : List Char) : List Char := cs.dropWhile isBlank

/-- reads the rest of a word that stands for `v` -/
def word (v : Value) : List Char → Reader Value
  | [], cs => .ok (v, cs)
  | _ :: _, [] => .error (.before .endInValue [])
  | w :: ws, c :: cs => if w = c then word v ws cs else .error (.behind .expectedWord (c :: cs))

/-! ### Texts -/

def hexDigit? (c : Char) : Option Nat :=
  if c.isDigit then some (c.toNat - '0'.toNat)
  else if 'a' ≤ c && c ≤ 'f' then some (c.toNat - 'a'.toNat + 10)
  else if 'A' ≤ c && c ≤ 'F' then some (c.toNat - 'A'.toNat + 10)
  else none

/-- the number that four characters spell in hexadecimal -/
def hexNumber? (a b c d : Char) : Option Nat := do
  return (← hexDigit? a) * 4096 + (← hexDigit? b) * 256 + (← hexDigit? c) * 16 + (← hexDigit? d)

/-- reads four hexadecimal digits -/
def hexUnit : Reader Nat := fun cs =>
  if Text.byteLength cs < 4 then .error (.before .endInString [])
  else
    match cs with
    | a :: b :: c :: d :: rest =>
      match hexNumber? a b c d with
      | some n => .ok (n, rest)
      | none => .error ⟨.invalidEscape, Text.byteLength cs - 4⟩
    | _ => .error ⟨.invalidEscape, Text.byteLength cs - 4⟩

def isLeading (unit : Nat) : Bool := 0xd800 ≤ unit && unit ≤ 0xdbff

def isTrailing (unit : Nat) : Bool := 0xdc00 ≤ unit && unit ≤ 0xdfff

/-- reads the second half of a pair whose first half is `leading` -/
def secondHalf (leading : Nat) : Reader Char := fun cs =>
  match cs with
  | [] => .error (.before .endInString [])
  | '\\' :: cs =>
    match cs with
    | [] => .error (.before .endInString [])
    | 'u' :: cs =>
      match hexUnit cs with
      | .error e => .error e
      | .ok (n, rest) =>
        if isTrailing n then
          .ok (.ofNat (0x10000 + (leading - 0xd800) * 0x400 + (n - 0xdc00)), rest)
        else .error (.before .loneSurrogate rest)
    | _ => .error (.behind .unpairedSurrogate cs)
  | _ => .error (.behind .unpairedSurrogate cs)

/-- reads a character written as one or two units of 16 bits, behind the first `u` -/
def unitEscape : Reader Char := fun cs =>
  match hexUnit cs with
  | .error e => .error e
  | .ok (n, rest) =>
    if isTrailing n then .error (.before .loneSurrogate rest)
    else if isLeading n then secondHalf n rest
    else .ok (.ofNat n, rest)

/-- what a short escape stands for -/
def shortEscape? (c : Char) : Option Char :=
  if c = '"' || c = '\\' || c = '/' then some c
  else if c = 'b' then some '\x08'
  else if c = 'f' then some '\x0c'
  else if c = 'n' then some '\n'
  else if c = 'r' then some '\r'
  else if c = 't' then some '\t'
  else none

/-- reads an escape behind its backslash -/
def escape : Reader Char := fun cs =>
  match cs with
  | [] => .error (.before .endInString [])
  | c :: rest =>
    match shortEscape? c with
    | some d => .ok (d, rest)
    | none => if c = 'u' then unitEscape rest else .error (.behind .invalidEscape cs)

theorem length_hexUnit {cs rest : List Char} {n : Nat} (h : hexUnit cs = .ok (n, rest)) :
    rest.length < cs.length := by
  unfold hexUnit at h
  split at h
  · cases h
  · split at h
    · split at h
      · cases h; simp; omega
      · cases h
    · cases h

theorem length_secondHalf {n : Nat} {cs rest : List Char} {c : Char}
    (h : secondHalf n cs = .ok (c, rest)) : rest.length < cs.length := by
  unfold secondHalf at h
  split at h
  · cases h
  · split at h
    · cases h
    · split at h
      · cases h
      · rename_i hu
        have := length_hexUnit hu
        split at h
        · simp only [Except.ok.injEq, Prod.mk.injEq] at h
          obtain ⟨-, rfl⟩ := h
          simp only [List.length_cons]
          omega
        · cases h
    · cases h
  · cases h

theorem length_unitEscape {cs rest : List Char} {c : Char} (h : unitEscape cs = .ok (c, rest)) :
    rest.length < cs.length := by
  unfold unitEscape at h
  split at h
  · cases h
  · rename_i hu
    have := length_hexUnit hu
    split at h
    · cases h
    · split at h
      · have := length_secondHalf h; omega
      · cases h; omega

theorem length_escape {cs rest : List Char} {c : Char} (h : escape cs = .ok (c, rest)) :
    rest.length < cs.length := by
  unfold escape at h
  split at h
  · cases h
  · split at h
    · cases h; simp
    · split at h
      · have := length_unitEscape h; simp; omega
      · cases h

/-- reads a text behind its opening quote -/
def characters (cs : List Char) : Except Fault (List Char × List Char) :=
  match cs with
  | [] => .error (.before .endInString [])
  | '"' :: cs => .ok ([], cs)
  | '\\' :: cs =>
    match _h : escape cs with
    | .error e => .error e
    | .ok (c, rest) =>
      match characters rest with
      | .error e => .error e
      | .ok (s, rest) => .ok (c :: s, rest)
  | c :: cs =>
    if c.toNat < 0x20 then .error (.behind .controlCharacter (c :: cs))
    else
      match characters cs with
      | .error e => .error e
      | .ok (s, rest) => .ok (c :: s, rest)
  termination_by cs.length
  decreasing_by
    all_goals simp
    have := length_escape _h
    omega

/-! ### Lists and objects -/

/-- reads items with `item` up to the closing bracket; `fuel` bounds their number -/
def moreItems (item : Reader Value) : Nat → Reader (List Value)
  | 0, cs => .error (.before .endInList cs)
  | fuel + 1, cs =>
    match item cs with
    | .error e => .error e
    | .ok (v, rest) =>
      match skipBlanks rest with
      | [] => .error (.before .endInList [])
      | ']' :: cs => .ok ([v], cs)
      | ',' :: cs =>
        match skipBlanks cs with
        | [] => .error (.before .endInValue [])
        | ']' :: cs => .error (.behind .trailingComma (']' :: cs))
        | cs =>
          match moreItems item fuel cs with
          | .error e => .error e
          | .ok (vs, rest) => .ok (v :: vs, rest)
      | cs => .error (.behind .expectedListEnd cs)

/-- reads the items of a list behind its opening bracket -/
def items (item : Reader Value) : Reader (List Value) := fun cs =>
  match skipBlanks cs with
  | [] => .error (.before .endInList [])
  | ']' :: cs => .ok ([], cs)
  | cs => moreItems item cs.length cs

/-- reads a key behind its quote, and the colon and the value -/
def member (item : Reader Value) : Reader (String × Value) := fun cs =>
  match characters cs with
  | .error e => .error e
  | .ok (key, rest) =>
    match skipBlanks rest with
    | [] => .error (.before .endInObject [])
    | ':' :: cs =>
      match item cs with
      | .error e => .error e
      | .ok (v, rest) => .ok ((.ofList key, v), rest)
    | cs => .error (.behind .expectedColon cs)

/-- reads members behind the quote of the next key up to the closing brace -/
def moreMembers (item : Reader Value) : Nat → Reader (List (String × Value))
  | 0, cs => .error (.before .endInObject cs)
  | fuel + 1, cs =>
    match member item cs with
    | .error e => .error e
    | .ok (m, rest) =>
      match skipBlanks rest with
      | [] => .error (.before .endInObject [])
      | '\x7d' :: cs => .ok ([m], cs)
      | ',' :: cs =>
        match skipBlanks cs with
        | [] => .error (.before .endInValue [])
        | '\x7d' :: cs => .error (.behind .trailingComma ('\x7d' :: cs))
        | '"' :: cs =>
          match moreMembers item fuel cs with
          | .error e => .error e
          | .ok (ms, rest) => .ok (m :: ms, rest)
        | cs => .error (.behind .keyNotText cs)
      | cs => .error (.behind .expectedObjectEnd cs)

/-- reads the members of an object behind its opening brace -/
def members (item : Reader Value) : Reader (List (String × Value)) := fun cs =>
  match skipBlanks cs with
  | [] => .error (.before .endInObject [])
  | '\x7d' :: cs => .ok ([], cs)
  | '"' :: cs => moreMembers item (cs.length + 1) cs
  | cs => .error (.behind .keyNotText cs)

/-- Reads a value whose parts are read with `inner`; without it, the value must have no parts. -/
def valueWith (inner : Option (Reader Value)) : Reader Value := fun cs =>
  match skipBlanks cs with
  | [] => .error (.before .endInValue [])
  | 'n' :: cs => word .null "ull".toList cs
  | 't' :: cs => word (.bool true) "rue".toList cs
  | 'f' :: cs => word (.bool false) "alse".toList cs
  | '"' :: cs => (characters cs).map fun (s, rest) => (.text (.ofList s), rest)
  | '[' :: cs =>
    match inner with
    | none => .error (.behind .tooDeep ('[' :: cs))
    | some item => (items item cs).map fun (vs, rest) => (.list vs, rest)
  | '\x7b' :: cs =>
    match inner with
    | none => .error (.behind .tooDeep ('\x7b' :: cs))
    | some item => (members item cs).map fun (ms, rest) => (.object ms, rest)
  | c :: cs =>
    if c == '-' || c.isDigit then (number (c :: cs)).map fun rest => (.number, rest)
    else .error (.behind .expectedValue (c :: cs))

/-- reads a value in which lists and objects nest at most `depth` deep -/
def value : Nat → Reader Value
  | 0 => valueWith none
  | depth + 1 => valueWith (some (value depth))

/-- how deep lists and objects may nest -/
def maxDepth : Nat := 127

/-- reads a whole text -/
def parse (text : String) : Except SyntaxError Value :=
  let cs := text.toList
  match value maxDepth cs with
  | .error f => .error (f.locate cs)
  | .ok (v, rest) =>
    match skipBlanks rest with
    | [] => .ok v
    | rest => .error ((Fault.behind .trailingCharacters rest).locate cs)

end DiagnosticGate.Json
