/-!
Which decimal numbers a double can hold.

A number is read as a significand of at most 64 bits and a power of ten. Both are rounded to the
nearest double and then multiplied, so a number is out of range if that product is; a negative
power never is.
-/

namespace DiagnosticGate.Json

/-- The double nearest to `n`, for `n` in the range of doubles: 53 bits are kept, and a tie goes to
the even neighbour. -/
def nearestDouble (n : Nat) : Nat :=
  let unit := Nat.pow 2 (n.log2 + 1 - 53)
  let kept := n / unit
  let lost := n % unit
  if 2 * lost < unit || (2 * lost == unit && kept % 2 == 0) then kept * unit
  else (kept + 1) * unit

/-- the least number that is rounded to infinity -/
def infinityBound : Nat := Nat.pow 2 1024 - Nat.pow 2 970

/-- the largest power of ten that a double can hold -/
def largestPower : Nat := 308

/-- whether `significand * 10 ^ power` is out of range -/
def outOfRange (significand : Nat) (power : Int) : Bool :=
  match power with
  | .negSucc _ => false
  | .ofNat p =>
    significand != 0 &&
      (largestPower < p ||
        infinityBound ≤ nearestDouble significand * nearestDouble (Nat.pow 10 p))

end DiagnosticGate.Json
