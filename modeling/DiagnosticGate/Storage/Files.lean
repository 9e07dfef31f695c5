/-!
Stores of text files.

A store is a value. Reading a path answers a text, writing one answers the store with the new text,
and each can fail for a reason that has a wording.
-/

namespace DiagnosticGate.Storage

/-- why a file cannot be read or written -/
inductive FileFault
  /-- a store in memory holds no such path -/
  | unknownPath
  /-- a store in memory refuses to write -/
  | readOnly
  | noSuchFile
  | notDirectory
  | isDirectory
  | nameTooLong
  /-- the bytes of the file are no text -/
  | notUtf8
  /-- no file can have the path -/
  | nulInPath
  /-- what a system says; `missing` if it says that there is no such file -/
  | reported (missing : Bool) (wording : String)
  deriving Repr, DecidableEq

namespace FileFault

def message : FileFault → String
  | unknownPath => "not found"
  | readOnly => "read-only"
  | noSuchFile => "No such file or directory (os error 2)"
  | notDirectory => "Not a directory (os error 20)"
  | isDirectory => "Is a directory (os error 21)"
  | nameTooLong => "File name too long (os error 36)"
  | notUtf8 => "stream did not contain valid UTF-8"
  | nulInPath => "file name contained an unexpected NUL byte"
  | reported _ wording => wording

/-- whether the file simply is not there -/
def isMissing : FileFault → Bool
  | unknownPath | noSuchFile => true
  | reported missing _ => missing
  | _ => false

end FileFault

/-- a store of text files -/
class TextFiles (σ : Type) where
  read : σ → String → Except FileFault String
  write : σ → String → String → Except FileFault σ

end DiagnosticGate.Storage
