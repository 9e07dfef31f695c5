/-!
Patterns over bytes.

A `Pattern` is built from single bytes and runs of bytes by sequence and choice; `Matches` is the
set of byte strings it stands for. `accepts` decides it in one pass per node: it keeps, for every
position of the text, whether some match of what has been read so far ends there, so the work is
the size of the pattern times the length of the text.
-/

namespace DiagnosticGate.Glob

/-- what a byte may be -/
inductive ByteSet
  | exactly (b : UInt8)
  | notSlash
  | any
  /-- in one of the ranges or, if `negated`, in none -/
  | listed (negated : Bool) (ranges : List (UInt8 × UInt8))
  deriving Repr, DecidableEq

def ByteSet.holds : ByteSet → UInt8 → Bool
  | exactly a, b => a == b
  | notSlash, b => b != 0x2f
  | any, _ => true
  | listed negated ranges, b => negated != ranges.any fun (lo, hi) => lo ≤ b && b ≤ hi

inductive Pattern
  | empty
  | one (s : ByteSet)
  | many (s : ByteSet)
  | both (p q : Pattern)
  | either (p q : Pattern)
  deriving Repr, DecidableEq

namespace Pattern

/-- the byte strings a pattern stands for -/
def Matches : Pattern → List UInt8 → Prop
  | empty, bs => bs = []
  | one s, bs => ∃ b, bs = [b] ∧ s.holds b
  | many s, bs => ∀ b ∈ bs, s.holds b
  | both p q, bs => ∃ u v, bs = u ++ v ∧ p.Matches u ∧ q.Matches v
  | either p q, bs => p.Matches bs ∨ q.Matches bs

/-- one after the other; `empty` leaves no trace -/
def andThen : Pattern → Pattern → Pattern
  | empty, q => q
  | p, empty => p
  | p, q => both p q

def isEmpty : Pattern → Bool
  | empty => true
  | _ => false

/-- the choice between patterns; of none it is `empty` -/
def alternatives : List Pattern → Pattern
  | [] => empty
  | [p] => p
  | p :: ps => either p (alternatives ps)

/-- The ends of one byte: the mark of a position moves behind the byte there. -/
def step (s : ByteSet) : List UInt8 → List Bool → List Bool
  | b :: bs, m :: ms => (m && s.holds b) :: step s bs ms
  | _, _ => []

/-- The ends of a run: a mark is carried along as long as the bytes hold. -/
def spread (s : ByteSet) (carried : Bool) : List UInt8 → List Bool → List Bool
  | _, [] => []
  | [], m :: _ => [m || carried]
  | b :: bs, m :: ms => (m || carried) :: spread s ((m || carried) && s.holds b) bs ms

/-- From the marks where a match may start to those where it may end. There is one mark for each
position of `bs`, the one behind the last byte included. -/
def ends (bs : List UInt8) : Pattern → List Bool → List Bool
  | empty, ms => ms
  | one s, ms => false :: step s bs ms
  | many s, ms => spread s false bs ms
  | both p q, ms => q.ends bs (p.ends bs ms)
  | either p q, ms => List.zipWith (· || ·) (p.ends bs ms) (q.ends bs ms)

/-- whether the pattern matches the whole of `bs` -/
def accepts (p : Pattern) (bs : List UInt8) : Bool :=
  (p.ends bs (true :: List.replicate bs.length false)).getLast?.getD false

end Pattern

end DiagnosticGate.Glob
