import DiagnosticGate.Glob.Token

/-!
Reading a glob pattern.

A pattern is read character by character. A `Draft` is what has been read: the tokens of the
branch that is open, and for every open group the tokens before it and its finished branches.
-/

namespace DiagnosticGate.Glob

/-- an open group -/
structure Frame where
  /-- the tokens before the group, last first -/
  before : List Token
  /-- the finished branches, last first -/
  branches : List (List Token)

/-- a pattern that is being read -/
structure Draft where
  /-- the tokens of the open branch, last first -/
  current : List Token
  /-- the open groups, innermost first -/
  groups : List Frame

namespace Draft

def empty : Draft := ⟨[], []⟩

def push (d : Draft) (t : Token) : Draft := { d with current := t :: d.current }

/-- opens a group -/
def openGroup (d : Draft) : Draft := ⟨[], ⟨d.current, []⟩ :: d.groups⟩

/-- closes the innermost group, if one is open -/
def closeGroup? (d : Draft) : Option Draft :=
  match d.groups with
  | [] => none
  | g :: gs => some ⟨.choice (d.current.reverse :: g.branches).reverse :: g.before, gs⟩

/-- A comma separates branches inside a group and stands for itself outside. -/
def comma (d : Draft) : Draft :=
  match d.groups with
  | [] => d.push (.literal ',')
  | g :: gs => ⟨[], { g with branches := d.current.reverse :: g.branches } :: gs⟩

def inGroup (d : Draft) : Bool := !d.groups.isEmpty

/-- puts `t` in the place of the last token, unless that is a `**` at an end -/
def replaceLast (d : Draft) (t : Token) : Draft :=
  match d.current with
  | .leading :: _ => d
  | .trailing :: _ => d
  | _ :: ts => { d with current := t :: ts }
  | [] => { d with current := [t] }

/-- Reads `**` that stands between the characters `prev` and `next`, and says whether `next`
belongs to it. Where it does not fill a whole segment, it is two single stars. -/
def doubleStar (d : Draft) (prev next : Option Char) : Draft × Bool :=
  let twoRuns := (d.push .anyRun).push .anyRun
  if d.current.isEmpty then
    if next = some '/' then (d.push .leading, true)
    else if next = none then (d.push .leading, false)
    else (twoRuns, false)
  else if prev ≠ some '/' && !(d.inGroup && (prev = some ',' || prev = some '\x7b')) then
    (twoRuns, false)
  else if next = none || d.inGroup && (next = some ',' || next = some '\x7d') then
    (d.replaceLast .trailing, false)
  else if next = some '/' then (d.replaceLast .between, true)
  else (twoRuns, false)

end Draft

/-- Moves the end of the last range to `c`. -/
def stretch (ranges : List (Char × Char)) (c : Char) : Except Fault (List (Char × Char)) :=
  match ranges with
  | [] => .ok [(c, c)]
  | (lo, _) :: rs => if c < lo then .error (.invalidRange lo c) else .ok ((lo, c) :: rs)

/-- Reads the ranges of a class up to its closing bracket. `ranges` are those before, last first;
`first` says that nothing of the class has been read, and `dash` that the last character was a
dash that makes a range if one more character follows. -/
def classRanges (ranges : List (Char × Char)) (first dash : Bool) :
    List Char → Except Fault (List (Char × Char) × List Char)
  | [] => .error .unclosedClass
  | c :: cs =>
    if c = ']' && !first then
      .ok ((if dash then ('-', '-') :: ranges else ranges).reverse, cs)
    else if dash then do
      classRanges (← stretch ranges c) false false cs
    else if c = '-' && !first then classRanges ranges false true cs
    else classRanges ((c, c) :: ranges) false false cs

/-- whether a class is negated, and what follows the sign of that -/
def classOpening : List Char → Bool × List Char
  | '!' :: cs => (true, cs)
  | '^' :: cs => (true, cs)
  | cs => (false, cs)

/-- reads a class behind its opening bracket -/
def classToken (cs : List Char) : Except Fault (Token × List Char) :=
  match classRanges [] true false (classOpening cs).2 with
  | .error e => .error e
  | .ok (ranges, rest) => .ok (.oneOf (classOpening cs).1 ranges, rest)

theorem length_classRanges {ranges out : List (Char × Char)} {first dash : Bool}
    {cs rest : List Char} (h : classRanges ranges first dash cs = .ok (out, rest)) :
    rest.length < cs.length := by
  induction cs generalizing ranges first dash with
  | nil => cases h
  | cons c cs ih =>
    unfold classRanges at h
    split at h
    · cases h; simp
    · split at h
      · cases hs : stretch ranges c with
        | error e => rw [hs] at h; cases h
        | ok rs => rw [hs] at h; have := ih h; simp; omega
      · split at h <;> · have := ih h; simp; omega

theorem length_classOpening (cs : List Char) : (classOpening cs).2.length ≤ cs.length := by
  fun_cases classOpening cs <;> simp

theorem length_classToken {t : Token} {cs rest : List Char}
    (h : classToken cs = .ok (t, rest)) : rest.length < cs.length := by
  unfold classToken at h
  split at h
  · cases h
  · rename_i hr
    cases h
    have := length_classRanges hr
    have := length_classOpening cs
    omega

/-- Reads the rest of a pattern; `prev` is the character before it. -/
def readTokens (prev : Option Char) (d : Draft) : List Char → Except Fault Draft
  | [] => .ok d
  | '?' :: cs => readTokens (some '?') (d.push .anyOne) cs
  | '*' :: '*' :: cs =>
    let (d, takesNext) := d.doubleStar prev cs.head?
    if takesNext then readTokens (some '/') d cs.tail else readTokens (some '*') d cs
  | '*' :: cs => readTokens (some '*') (d.push .anyRun) cs
  | '[' :: cs =>
    match _h : classToken cs with
    | .error e => .error e
    | .ok (t, rest) => readTokens (some ']') (d.push t) rest
  | '\x7b' :: cs => readTokens (some '\x7b') d.openGroup cs
  | '\x7d' :: cs =>
    match d.closeGroup? with
    | none => .error .unopenedGroup
    | some d => readTokens (some '\x7d') d cs
  | ',' :: cs => readTokens (some ',') d.comma cs
  | ['\\'] => .error .danglingEscape
  | '\\' :: c :: cs => readTokens (some c) (d.push (.literal c)) cs
  | c :: cs => readTokens (some c) (d.push (.literal c)) cs
  termination_by cs => cs.length
  decreasing_by
    all_goals simp
    all_goals try omega
    have := length_classToken _h
    omega

/-- reads a pattern -/
def parse (pattern : List Char) : Except Fault (List Token) := do
  let d ← readTokens none .empty pattern
  if d.inGroup then .error .unclosedGroup else .ok d.current.reverse

end DiagnosticGate.Glob
