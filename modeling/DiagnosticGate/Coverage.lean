import DiagnosticGate.Glob.Basic

/-!
Which files are checked loosely, and which entries of their list are in use.

An entry with one of the characters `*`, `?` and the braces is a glob, every other entry is a path
that stands for itself. A query asks whether some entry covers a path and counts one hit for every
entry that does, so that entries without hits can be reported.
-/

namespace DiagnosticGate

/-- what an entry covers -/
inductive Rule
  /-- the path that is the entry -/
  | path
  | glob (pattern : Glob.Pattern)
  deriving Repr, DecidableEq

/-- an entry of the list and the number of queries it has covered -/
structure Entry where
  text : String
  rule : Rule
  hits : Nat
  deriving Repr, DecidableEq

/-- a glob that cannot be read -/
structure PatternError where
  pattern : String
  fault : Glob.Fault
  deriving Repr, DecidableEq

def PatternError.message (e : PatternError) : String :=
  "Invalid file path pattern '" ++ e.pattern ++ "': error parsing glob '" ++ e.pattern ++ "': " ++
    e.fault.message

/-- whether an entry is a glob -/
def isGlob (text : String) : Bool :=
  text.toList.any fun c => c == '*' || c == '?' || c == '\x7b' || c == '\x7d'

namespace Entry

/-- reads an entry -/
def ofText (text : String) : Except PatternError Entry :=
  if isGlob text then
    match Glob.ofText text with
    | .ok pattern => .ok ⟨text, .glob pattern, 0⟩
    | .error fault => .error ⟨text, fault⟩
  else .ok ⟨text, .path, 0⟩

def covers (e : Entry) (path : String) : Bool :=
  match e.rule with
  | .path => e.text == path
  | .glob pattern => Glob.covers pattern path

end Entry

/-- the entries of a list, each text once, in order -/
structure Coverage where
  entries : List Entry
  deriving Repr, DecidableEq

namespace Coverage

def empty : Coverage := ⟨[]⟩

/-- adds an entry at the end, unless its text is there -/
def add (c : Coverage) (text : String) : Except PatternError Coverage :=
  if c.entries.any (·.text == text) then .ok c
  else
    match Entry.ofText text with
    | .ok e => .ok ⟨c.entries ++ [e]⟩
    | .error e => .error e

/-- adds entries up to the first that cannot be read -/
def addAll (c : Coverage) : List String → Except PatternError Coverage
  | [] => .ok c
  | t :: ts =>
    match c.add t with
    | .ok c => c.addAll ts
    | .error e => .error e

/-- the coverage of a list of entries -/
def ofTexts (texts : List String) : Except PatternError Coverage := empty.addAll texts

/-- whether some entry covers `path` -/
def covers (c : Coverage) (path : String) : Bool := c.entries.any (·.covers path)

/-- counts a query for `path` -/
def count (c : Coverage) (path : String) : Coverage :=
  ⟨c.entries.map fun e => if e.covers path then { e with hits := e.hits + 1 } else e⟩

/-- the texts of the entries without hits -/
def unused (c : Coverage) : List String := (c.entries.filter (·.hits == 0)).map (·.text)

/-- the number of hits of an entry -/
def hits? (c : Coverage) (text : String) : Option Nat :=
  (c.entries.find? (·.text == text)).map (·.hits)

/-- forgets all hits -/
def clear (c : Coverage) : Coverage := ⟨c.entries.map fun e => { e with hits := 0 }⟩

theorem covers_count (c : Coverage) (path other : String) :
    (c.count path).covers other = c.covers other := by
  simp only [covers, count, List.any_map]
  congr 1
  funext e
  simp only [Function.comp]
  split <;> rfl

end Coverage

end DiagnosticGate
