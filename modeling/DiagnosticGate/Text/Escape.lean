/-!
Terminal sequences in the output of a compiler.

A sequence starts with an introducer, `ESC` or `U+009B`. Intermediate characters follow, then
parameters, which are groups of at most four digits with `;` between them, then one final
character. Digits are final characters too, so where the parameters are not followed by a final
character, their last digit is it. `strip` removes every sequence in one pass from left to right.
-/

namespace DiagnosticGate.Text

def isIntroducer (c : Char) : Bool := c == '\x1b' || c == '\u009b'

def isIntermediate (c : Char) : Bool :=
  c == '[' || c == '(' || c == ')' || c == '#' || c == ';' || c == '?'

/-- whether `c` may end a sequence -/
def isFinal (c : Char) : Bool :=
  c.isDigit || ('A' ≤ c && c ≤ 'O') || c == 'R' || c == 'Z' || c == 'c' || ('f' ≤ c && c ≤ 'n') ||
    c == 'q' || c == 'r' || c == 'y' || c == '=' || c == '>' || c == '<'

/-- What follows the sequence whose parameters go on with `cs`. The open group takes `room` more
digits, and `back` is what follows the last digit read. -/
def afterParameters (room : Nat) (back : List Char) : List Char → List Char
  | [] => back
  | c :: cs =>
    if c.isDigit then
      match room with
      | 0 => cs
      | room + 1 => afterParameters room cs cs
    else if c == ';' then afterParameters 4 back cs
    else if isFinal c then cs
    else back

/-- what follows the sequence whose introducer stands before `cs`, if there is a sequence -/
def afterSequence? (cs : List Char) : Option (List Char) :=
  match cs.dropWhile isIntermediate with
  | [] => none
  | c :: rest =>
    if c.isDigit then some (afterParameters 3 rest rest)
    else if isFinal c then some rest
    else none

theorem length_afterParameters (room : Nat) (back cs : List Char) :
    (afterParameters room back cs).length ≤ max back.length cs.length := by
  induction cs generalizing room back with
  | nil => exact Nat.le_max_left _ _
  | cons c cs ih =>
    have hlen : (c :: cs).length = cs.length + 1 := rfl
    unfold afterParameters
    split
    · split
      · omega
      · rename_i room
        have := ih room cs
        omega
    · split
      · have := ih 4 back
        omega
      · split <;> omega

theorem length_afterSequence? {cs rest : List Char} (h : afterSequence? cs = some rest) :
    rest.length < cs.length := by
  unfold afterSequence? at h
  have hd : (cs.dropWhile isIntermediate).length ≤ cs.length :=
    (List.dropWhile_suffix _).length_le
  split at h
  · cases h
  · rename_i c tail heq
    rw [heq] at hd
    simp only [List.length_cons] at hd
    split at h
    · cases h
      have := length_afterParameters 3 tail tail
      omega
    · split at h
      · cases h; omega
      · cases h

/-- `cs` without its terminal sequences -/
def strip : List Char → List Char
  | [] => []
  | c :: cs =>
    if isIntroducer c then
      match _h : afterSequence? cs with
      | some rest => strip rest
      | none => c :: strip cs
    else c :: strip cs
  termination_by cs => cs.length
  decreasing_by
    all_goals simp
    have := length_afterSequence? _h
    omega

end DiagnosticGate.Text
