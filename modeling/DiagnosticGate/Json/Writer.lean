/-!
Writing lists of texts as JSON.

Each text stands on a line of its own, indented by two spaces, and the text ends with a line feed.
Quotes, backslashes and control characters are escaped, all else is written as it is.
-/

namespace DiagnosticGate.Json

/-- the hexadecimal digit of a number below 16 -/
def hexChar (n : Nat) : Char := .ofNat (if n < 10 then '0'.toNat + n else 'a'.toNat + (n - 10))

/-- how a character is written inside quotes -/
def escapeChar (c : Char) : List Char :=
  if c = '"' then ['\\', '"']
  else if c = '\\' then ['\\', '\\']
  else if c = '\x08' then ['\\', 'b']
  else if c = '\x0c' then ['\\', 'f']
  else if c = '\n' then ['\\', 'n']
  else if c = '\r' then ['\\', 'r']
  else if c = '\t' then ['\\', 't']
  else if c.toNat < 0x20 then
    ['\\', 'u', '0', '0', hexChar (c.toNat / 16), hexChar (c.toNat % 16)]
  else [c]

/-- a text in quotes -/
def quote (s : String) : List Char := '"' :: (s.toList.flatMap escapeChar ++ ['"'])

/-- the items of a list behind the first, and its end -/
def writeRest : List String → List Char
  | [] => "\n]\n".toList
  | s :: ss => ",\n  ".toList ++ quote s ++ writeRest ss

/-- a list of texts -/
def write : List String → String
  | [] => "[]\n"
  | s :: ss => .ofList ("[\n  ".toList ++ quote s ++ writeRest ss)

end DiagnosticGate.Json
