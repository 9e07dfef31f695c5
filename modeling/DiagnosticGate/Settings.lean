/-!
How a check is run.
-/

namespace DiagnosticGate

/-- one of the two allow-lists -/
inductive Which
  | codes
  | files
  deriving Repr, DecidableEq

def Which.name : Which → String
  | codes => "ignored error codes"
  | files => "loosely type-checked files"

structure Settings where
  /-- the path of the list of codes -/
  codesPath : String
  /-- the path of the list of files -/
  filesPath : String
  /-- the lists are to be made from the diagnostics -/
  init : Bool
  /-- the lists are to be changed instead of only reported on -/
  autoUpdate : Bool
  deriving Repr, DecidableEq

namespace Settings

def defaultCodesPath : String := "ignored-error-codes.json"

def defaultFilesPath : String := "loosely-type-checked-files.json"

def path (settings : Settings) : Which → String
  | .codes => settings.codesPath
  | .files => settings.filesPath

end Settings

end DiagnosticGate
