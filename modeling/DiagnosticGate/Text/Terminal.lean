/-!
What a terminal shows of a text.

A terminal reads bytes through a state machine: `ESC` opens a sequence, and what belongs to a
sequence is not shown. `shown` keeps the bytes of a text that are shown, which are those of its
characters, its spaces and its line ends. As soon as one byte is shown, those behind it are read as
plain text up to the next one that is not; only then does an open sequence go on.
-/

namespace DiagnosticGate.Text.Terminal

/-- where a terminal is in its input -/
inductive State
  | ground
  /-- inside a character of which `left` more bytes follow -/
  | character (left : Nat)
  | escape
  | escapeIntermediate
  | csiEntry
  | csiParameter
  | csiIntermediate
  | csiIgnore
  | dcsEntry
  | dcsParameter
  | dcsIntermediate
  | dcsIgnore
  | dcsPassthrough
  | oscString
  | otherString
  deriving Repr, DecidableEq

/-- what a terminal does with a byte -/
inductive Action
  | print
  | execute
  | startCharacter
  | swallow
  deriving Repr, DecidableEq

def inRange (lo hi b : UInt8) : Bool := lo ≤ b && b ≤ hi

/-- a control byte that does not end sequences -/
def isControl (b : UInt8) : Bool := b < 0x20 && b != 0x18 && b != 0x1a && b != 0x1b

/-- the bytes behind the first byte of a character -/
def following (b : UInt8) : Nat :=
  if inRange 0xc2 0xdf b then 1
  else if inRange 0xe0 0xef b then 2
  else if inRange 0xf0 0xf4 b then 3
  else 0

/-- the state after a byte and what is done with it, inside a sequence or string -/
def inside (s : State) (b : UInt8) : State × Action :=
  let control := if isControl b then .execute else .swallow
  match s with
  | .ground =>
    if isControl b then (.ground, .execute)
    else if inRange 0x20 0x7f b then (.ground, .print)
    else if following b != 0 then (.character (following b), .startCharacter)
    else (.ground, .swallow)
  | .character left => (.character left, .swallow)
  | .escape =>
    if inRange 0x20 0x2f b then (.escapeIntermediate, .swallow)
    else if b == 0x5b then (.csiEntry, .swallow)
    else if b == 0x5d then (.oscString, .swallow)
    else if b == 0x50 then (.dcsEntry, .swallow)
    else if b == 0x58 || b == 0x5e || b == 0x5f then (.otherString, .swallow)
    else if inRange 0x30 0x7e b then (.ground, .swallow)
    else (.escape, control)
  | .escapeIntermediate =>
    if inRange 0x30 0x7e b then (.ground, .swallow) else (.escapeIntermediate, control)
  | .csiEntry =>
    if inRange 0x20 0x2f b then (.csiIntermediate, .swallow)
    else if inRange 0x30 0x3f b then (.csiParameter, .swallow)
    else if inRange 0x40 0x7e b then (.ground, .swallow)
    else (.csiEntry, control)
  | .csiParameter =>
    if inRange 0x20 0x2f b then (.csiIntermediate, .swallow)
    else if inRange 0x3c 0x3f b then (.csiIgnore, .swallow)
    else if inRange 0x40 0x7e b then (.ground, .swallow)
    else (.csiParameter, control)
  | .csiIntermediate =>
    if inRange 0x30 0x3f b then (.csiIgnore, .swallow)
    else if inRange 0x40 0x7e b then (.ground, .swallow)
    else (.csiIntermediate, control)
  | .csiIgnore => if inRange 0x40 0x7e b then (.ground, .swallow) else (.csiIgnore, control)
  | .dcsEntry =>
    if inRange 0x20 0x2f b then (.dcsIntermediate, .swallow)
    else if inRange 0x30 0x3f b then (.dcsParameter, .swallow)
    else if inRange 0x40 0x7e b then (.dcsPassthrough, .swallow)
    else (.dcsEntry, .swallow)
  | .dcsParameter =>
    if inRange 0x20 0x2f b then (.dcsIntermediate, .swallow)
    else if inRange 0x3c 0x3f b then (.dcsIgnore, .swallow)
    else if inRange 0x40 0x7e b then (.dcsPassthrough, .swallow)
    else (.dcsParameter, .swallow)
  | .dcsIntermediate =>
    if inRange 0x30 0x3f b then (.dcsIgnore, .swallow)
    else if inRange 0x40 0x7e b then (.dcsPassthrough, .swallow)
    else (.dcsIntermediate, .swallow)
  | .dcsIgnore => (if b == 0x9c then .ground else .dcsIgnore, .swallow)
  | .dcsPassthrough => (if b == 0x9c then .ground else .dcsPassthrough, .swallow)
  | .oscString => (if b == 0x07 then .ground else .oscString, .swallow)
  | .otherString => (if b == 0x9c then .ground else .otherString, .swallow)

/-- The state after a byte and what is done with it. Three control bytes count in every state. -/
def change (s : State) (b : UInt8) : State × Action :=
  if b == 0x1b then (.escape, .swallow)
  else if b == 0x18 || b == 0x1a then (.ground, .execute)
  else inside s b

/-- whether a byte with this action is shown -/
def isShown (a : Action) (b : UInt8) : Bool :=
  match a with
  | .print => b != 0x7f
  | .startCharacter => true
  | .execute => b == 0x09 || b == 0x0a || b == 0x0c || b == 0x0d
  | .swallow => false

/-- Reads a byte as plain text in the state `s`; answers the state after it, if it is shown, and
else the state in which it is to be read again. -/
def plain (s : State) (b : UInt8) : Except State State :=
  match s with
  | .character 0 => .ok .ground
  | .character 1 => .ok .ground
  | .character (left + 2) => .ok (.character (left + 1))
  | _ =>
    let (g, a) := change .ground b
    let next := if g = .ground && !(b == 0x18 || b == 0x1a) then s else g
    if isShown a b then .ok next else .error next

/-- Reads a byte in the state `s`: the state after it, and whether it is shown. -/
def read (s : State) (b : UInt8) : State × Bool :=
  match s with
  | .character _ =>
    match plain s b with
    | .ok t => (t, true)
    | .error t => (t, false)
  | _ =>
    let (t, a) := change s b
    if isShown a b then
      match a with
      | .startCharacter => (t, true)
      | _ =>
        match plain t b with
        | .ok u => (u, true)
        | .error u => (u, false)
    else (t, false)

/-- The bytes that are shown. `flowing` says that the byte before was. -/
def shownFrom (s : State) (flowing : Bool) : List UInt8 → List UInt8
  | [] => []
  | b :: bs =>
    if flowing then
      match plain s b with
      | .ok t => b :: shownFrom t true bs
      | .error t =>
        let (u, kept) := read t b
        if kept then b :: shownFrom u true bs else shownFrom u false bs
    else
      let (t, kept) := read s b
      if kept then b :: shownFrom t true bs else shownFrom t false bs

/-- the bytes of a text that a terminal shows -/
def shown (bs : List UInt8) : List UInt8 := shownFrom .ground false bs

end DiagnosticGate.Text.Terminal
