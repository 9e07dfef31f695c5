/-!
Bytes and text.

`decode` reads UTF-8 and says where and how a byte sequence fails to be UTF-8; `encode` is its
inverse on text. `splitLines` cuts a stream of bytes behind every line feed.
-/

namespace DiagnosticGate.Text

/-- Where bytes stop being UTF-8: `start` bytes before it are text. The sequence there is broken
after `length` bytes, or the input ends inside it (`none`). -/
structure Utf8Fault where
  start : Nat
  length : Option Nat
  deriving Repr, DecidableEq

def Utf8Fault.message (f : Utf8Fault) : String :=
  match f.length with
  | some n => s!"invalid utf-8 sequence of {n} bytes from index {f.start}"
  | none => s!"incomplete utf-8 byte sequence from index {f.start}"

/-- a byte of the form `10xxxxxx` -/
def isContinuation (b : UInt8) : Bool := 0x80 ≤ b && b ≤ 0xbf

/-- whether `b` may follow the first byte `a` of a sequence of three or four bytes -/
def isSecond (a b : UInt8) : Bool :=
  if a == 0xe0 then 0xa0 ≤ b && b ≤ 0xbf
  else if a == 0xed then 0x80 ≤ b && b ≤ 0x9f
  else if a == 0xf0 then 0x90 ≤ b && b ≤ 0xbf
  else if a == 0xf4 then 0x80 ≤ b && b ≤ 0x8f
  else isContinuation b

/-- the six low bits of a continuation byte -/
def low (b : UInt8) : Nat := b.toNat % 64

/-- Reads the bytes that stand at index `n`. -/
def decodeFrom (n : Nat) : List UInt8 → Except Utf8Fault (List Char)
  | [] => .ok []
  | a :: bs =>
    if a < 0x80 then
      return Char.ofNat a.toNat :: (← decodeFrom (n + 1) bs)
    else if 0xc2 ≤ a && a ≤ 0xdf then
      match bs with
      | [] => .error ⟨n, none⟩
      | b :: bs =>
        if isContinuation b then
          return Char.ofNat (a.toNat % 32 * 64 + low b) :: (← decodeFrom (n + 2) bs)
        else .error ⟨n, some 1⟩
    else if 0xe0 ≤ a && a ≤ 0xef then
      match bs with
      | [] => .error ⟨n, none⟩
      | b :: bs =>
        if isSecond a b then
          match bs with
          | [] => .error ⟨n, none⟩
          | c :: bs =>
            if isContinuation c then
              return Char.ofNat (a.toNat % 16 * 4096 + low b * 64 + low c) ::
                (← decodeFrom (n + 3) bs)
            else .error ⟨n, some 2⟩
        else .error ⟨n, some 1⟩
    else if 0xf0 ≤ a && a ≤ 0xf4 then
      match bs with
      | [] => .error ⟨n, none⟩
      | b :: bs =>
        if isSecond a b then
          match bs with
          | [] => .error ⟨n, none⟩
          | c :: bs =>
            if isContinuation c then
              match bs with
              | [] => .error ⟨n, none⟩
              | d :: bs =>
                if isContinuation d then
                  return Char.ofNat
                      (a.toNat % 8 * 262144 + low b * 4096 + low c * 64 + low d) ::
                    (← decodeFrom (n + 4) bs)
                else .error ⟨n, some 3⟩
            else .error ⟨n, some 2⟩
        else .error ⟨n, some 1⟩
    else .error ⟨n, some 1⟩

/-- the text that `bs` spells in UTF-8 -/
def decode (bs : List UInt8) : Except Utf8Fault String := return .ofList (← decodeFrom 0 bs)

/-- the bytes of a text -/
def encodeChars (cs : List Char) : List UInt8 := cs.flatMap String.utf8EncodeChar

def encode (s : String) : List UInt8 := encodeChars s.toList

/-- how many bytes a text takes -/
def byteLength (cs : List Char) : Nat := cs.foldr (fun c n => c.utf8Size + n) 0

/-- The lines of a stream, each with its line feed; the last may lack it. The open line holds the
bytes `held`, last first. -/
def splitLines (held : List UInt8) : List UInt8 → List (List UInt8)
  | [] => if held.isEmpty then [] else [held.reverse]
  | b :: bs =>
    if b == 0x0a then (b :: held).reverse :: splitLines [] bs else splitLines (b :: held) bs

/-- The bytes of a line, without the line feed at its end and without a carriage return before
that. -/
def dropLineEnd (bs : List UInt8) : List UInt8 :=
  match bs.reverse with
  | 0x0a :: 0x0d :: r => r.reverse
  | 0x0a :: r => r.reverse
  | _ => bs

/-- Reads one line of a stream. Its end is dropped first, so it is no part of a broken sequence. -/
def decodeLine (bs : List UInt8) : Except Utf8Fault String := decode (dropLineEnd bs)

/-- Cutting loses no byte. -/
theorem flatten_splitLines (held bs : List UInt8) :
    (splitLines held bs).flatten = held.reverse ++ bs := by
  induction bs generalizing held with
  | nil => cases held <;> simp [splitLines]
  | cons b bs ih =>
    unfold splitLines
    split
    · simp [ih]
    · simp [ih]

theorem encodeChars_cons (c : Char) (cs : List Char) :
    encodeChars (c :: cs) = String.utf8EncodeChar c ++ encodeChars cs := rfl

theorem encodeChars_append (cs ds : List Char) :
    encodeChars (cs ++ ds) = encodeChars cs ++ encodeChars ds := List.flatMap_append

end DiagnosticGate.Text
