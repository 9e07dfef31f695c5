import DiagnosticGate.Json.Reader
import DiagnosticGate.Json.Writer
import DiagnosticGate.Storage.Files

/-!
Allow-lists in files.

The file of an allow-list is a JSON list of texts.
-/

namespace DiagnosticGate.Storage

/-- why an allow-list cannot be read from its file or written to it -/
inductive ListFault
  | unreadable (fault : FileFault)
  | noJson (error : Json.SyntaxError)
  | noList
  | noTexts
  | unwritable (fault : FileFault)
  deriving Repr, DecidableEq

/-- a fault and the path of the file -/
structure ListFileError where
  path : String
  fault : ListFault
  deriving Repr, DecidableEq

def ListFileError.message (e : ListFileError) : String :=
  match e.fault with
  | .unreadable f => "Cannot read file " ++ e.path ++ ": " ++ f.message
  | .noJson s => "Cannot parse JSON file " ++ e.path ++ ": " ++ s.message
  | .noList => "File " ++ e.path ++ " is not a valid array"
  | .noTexts => "File " ++ e.path ++ " must only contain strings"
  | .unwritable f => "Cannot write file " ++ e.path ++ ": " ++ f.message

/-- the texts of a list in which every value is a text -/
def textsOf? : List Json.Value → Option (List String)
  | [] => some []
  | .text s :: vs => (textsOf? vs).map (s :: ·)
  | _ :: _ => none

/-- the texts in the contents of a file -/
def parseTexts (contents : String) : Except ListFault (List String) :=
  match Json.parse contents with
  | .error e => .error (.noJson e)
  | .ok (.list vs) =>
    match textsOf? vs with
    | some ss => .ok ss
    | none => .error .noTexts
  | .ok _ => .error .noList

variable {σ : Type} [TextFiles σ]

/-- Reads the texts in the file at `path`. With `allowMissing`, a file that is not there is no
error; it is answered by `none`. -/
def readTexts (files : σ) (path : String) (allowMissing : Bool) :
    Except ListFileError (Option (List String)) :=
  match TextFiles.read files path with
  | .error f =>
    if allowMissing && f.isMissing then .ok none else .error ⟨path, .unreadable f⟩
  | .ok contents =>
    match parseTexts contents with
    | .error f => .error ⟨path, f⟩
    | .ok ss => .ok (some ss)

/-- writes texts to the file at `path` -/
def saveTexts (files : σ) (path : String) (texts : List String) : Except ListFileError σ :=
  match TextFiles.write files path (Json.write texts) with
  | .error f => .error ⟨path, .unwritable f⟩
  | .ok files => .ok files

end DiagnosticGate.Storage
