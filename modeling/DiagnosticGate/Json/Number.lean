import DiagnosticGate.Json.Magnitude
import DiagnosticGate.Json.Value

/-!
Reading JSON numbers.

A number is an integer part, a fraction and an exponent. As many digits as fit go into a
significand of 64 bits; the digits behind those count for their place only. The reader answers
what follows the number, or the fault.
-/

namespace DiagnosticGate.Json

def digit (c : Char) : Nat := c.toNat - '0'.toNat

/-- Reads digits behind `significand` as long as the result fits into 64 bits. Answers it, the
number of digits read and the rest. -/
def fill (significand count : Nat) : List Char → Nat × Nat × List Char
  | [] => (significand, count, [])
  | c :: cs =>
    if c.isDigit && significand * 10 + digit c < 2 ^ 64 then
      fill (significand * 10 + digit c) (count + 1) cs
    else (significand, count, c :: cs)

/-- the largest exponent that is told apart -/
def largestExponent : Nat := 2147483647

/-- Reads the digits of an exponent; `none` behind the digit that makes it too large. -/
def exponentDigits (exponent : Nat) : List Char → Option Nat × List Char
  | [] => (some exponent, [])
  | c :: cs =>
    if c.isDigit then
      let e := exponent * 10 + digit c
      if largestExponent < e then (none, cs) else exponentDigits e cs
    else (some exponent, c :: cs)

/-- the end of a number: its value must be in range -/
def finish (significand : Nat) (power : Int) (rest : List Char) : Except Fault (List Char) :=
  if outOfRange significand power then .error (.before .numberOutOfRange rest) else .ok rest

/-- the sign of an exponent, as whether it is negative -/
def exponentSign : List Char → Bool × List Char
  | '+' :: cs => (false, cs)
  | '-' :: cs => (true, cs)
  | cs => (false, cs)

/-- reads an exponent behind its `e` -/
def exponent (significand : Nat) (power : Int) (cs : List Char) : Except Fault (List Char) :=
  let (negative, cs) := exponentSign cs
  match cs with
  | [] => .error (.before .endInValue [])
  | c :: _ =>
    if c.isDigit then
      match exponentDigits 0 cs with
      | (some e, rest) => finish significand (if negative then power - e else power + e) rest
      | (none, rest) =>
        if significand != 0 && !negative then .error (.before .numberOutOfRange rest)
        else .ok (rest.dropWhile Char.isDigit)
    else .error (.behind .invalidNumber cs)

/-- reads what follows the digits of a number, an exponent if there is one -/
def afterDigits (significand : Nat) (power : Int) (cs : List Char) : Except Fault (List Char) :=
  match cs with
  | 'e' :: cs => exponent significand power cs
  | 'E' :: cs => exponent significand power cs
  | _ => finish significand power cs

/-- reads a fraction behind its point -/
def fraction (significand : Nat) (power : Int) (cs : List Char) : Except Fault (List Char) :=
  match cs with
  | [] => .error (.before .endInValue [])
  | c :: _ =>
    if c.isDigit then
      let (significand, count, rest) := fill significand 0 cs
      afterDigits significand (power - count) (rest.dropWhile Char.isDigit)
    else .error (.behind .invalidNumber cs)

/-- reads what follows an integer part -/
def afterInteger (significand : Nat) (power : Int) (cs : List Char) : Except Fault (List Char) :=
  match cs with
  | '.' :: cs => fraction significand power cs
  | _ => afterDigits significand power cs

/-- reads a number without sign -/
def unsigned (cs : List Char) : Except Fault (List Char) :=
  match cs with
  | [] => .error (.before .endInValue [])
  | '0' :: cs =>
    if cs.head?.any Char.isDigit then .error (.behind .invalidNumber cs) else afterInteger 0 0 cs
  | c :: _ =>
    if c.isDigit then
      let (significand, _, rest) := fill 0 0 cs
      afterInteger significand (rest.takeWhile Char.isDigit).length (rest.dropWhile Char.isDigit)
    else .error (.behind .invalidNumber cs)

/-- reads a number -/
def number (cs : List Char) : Except Fault (List Char) :=
  match cs with
  | '-' :: cs => unsigned cs
  | _ => unsigned cs

end DiagnosticGate.Json
