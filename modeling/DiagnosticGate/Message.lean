import DiagnosticGate.Findings
import DiagnosticGate.Settings
import DiagnosticGate.Storage.ListFile

/-!
What a check tells.

Messages are for the user; each has a tone and a text. Notes say what goes on inside and carry a
level of their own. An `Event` is one or the other, in the order in which they arise.
-/

namespace DiagnosticGate

open Storage

/-- how a message is meant -/
inductive Tone
  | plain
  | success
  | warning
  /-- part of a failing outcome -/
  | failure
  /-- names a command line option -/
  | hint
  deriving Repr, DecidableEq

/-- A message for the user. Where `applied` is given, it says that the change is made and not only
asked for. -/
inductive Message
  | noErrors
  | detected (n : Nat)
  | ignored (n : Nat)
  | notIgnored (n : Nat)
  /-- codes that no diagnostic has -/
  | staleCodes (codes : List String)
  | staleCodeList (codes : List String)
  /-- entries that cover no diagnostic -/
  | unusedFiles (applied : Bool) (entries : List String)
  | unusedFileList (applied : Bool) (entries : List String)
  /-- diagnostics of files that could be listed -/
  | promotable (applied : Bool) (n : Nat)
  | promotableError (applied : Bool) (d : Diagnostic)
  /-- diagnostics whose code is not listed -/
  | validErrors (n : Nat)
  | validError (d : Diagnostic)
  | updateHint
  | promoteHint
  | willUpdate
  | updating (list : Which)
  | updated (list : Which)
  | updateFailed (list : Which)
  | initializing
  | initialized
  | initFailed (path : String)
  /-- a list that cannot be read or written -/
  | listFault (error : ListFileError)
  | invalidCode (code : String)
  deriving Repr, DecidableEq

namespace Message

def tone : Message → Tone
  | noErrors | updated _ | initialized => .success
  | detected _ | ignored _ | staleCodeList _ | willUpdate | updating _ | initializing => .plain
  | notIgnored _ | staleCodes _ => .warning
  | unusedFiles applied _ | promotable applied _ => if applied then .warning else .failure
  | unusedFileList applied _ | promotableError applied _ => if applied then .plain else .failure
  | validErrors _ | validError _ | updateFailed _ | initFailed _ | listFault _ | invalidCode _ =>
    .failure
  | updateHint | promoteHint => .hint

def text : Message → String
  | noErrors => "No TSC errors detected"
  | detected n => s!"{n} errors detected"
  | ignored n => s!"{n} errors have been ignored."
  | notIgnored n => s!"{n} errors were not ignored."
  | staleCodes codes => s!"{codes.length} currently ignored error codes did not occur."
  | staleCodeList codes => "\n".intercalate codes
  | unusedFiles _ entries =>
    s!"{entries.length} loosely type-checked files no longer have any errors" ++
      " and could be strictly type-checked."
  | unusedFileList _ entries => "\n".intercalate entries
  | promotable _ n => s!"{n} errors could be ignored, as their error codes are ignored."
  | promotableError _ d => d.text
  | validErrors n =>
    s!"{n} errors could not be ignored as those codes are not in the ignored list."
  | validError d => d.text
  | updateHint => "Use the --auto-update option to update the registry automatically."
  | promoteHint => "Use the --auto-update option to add these file paths to the registry."
  | willUpdate => "Registry will be updated."
  | updating list => "Updating the list of " ++ list.name ++ "..."
  | updated list => "The list of " ++ list.name ++ " updated successfully"
  | updateFailed list => "Error when saving the list of " ++ list.name
  | initializing => "Initializing configuration files..."
  | initialized => "Configuration files saved successfully"
  | initFailed path => "Error when saving " ++ path
  | listFault e => e.message
  | invalidCode code => "Invalid TSC error code: " ++ code

end Message

/-- something that goes on inside -/
inductive Note
  | missing (path : String)
  | loaded (codes files : Nat)
  | watchStarted
  | watchDetected
  | fileChanged (dropped : Nat)
  | inputEnded
  | judged (d : Diagnostic) (kind : Class)
  | unchanged (list : Which) (path : String)
  | saved (n : Nat) (path : String)
  | adopting
  | keeping (error : PatternError)
  deriving Repr, DecidableEq

def Note.text : Note → String
  | missing path => path ++ " does not exist, starting from an empty list"
  | loaded codes files =>
    s!"Loaded {codes} ignored error codes and {files} loosely type-checked files"
  | watchStarted => "watch mode compilation started"
  | watchDetected => "Watch mode detected"
  | fileChanged dropped => s!"File change detected, discarding {dropped} errors"
  | inputEnded => "Input ended during a compilation, dropping its errors"
  | judged d kind => d.file ++ " " ++ d.code ++ ": " ++ kind.name
  | unchanged list path => "The list of " ++ list.name ++ " is unchanged, skipping " ++ path
  | saved n path => s!"Saved {n} entries to {path}"
  | adopting => "Adopting the updated registries"
  | keeping e => "Keeping the previous loosely type-checked files: " ++ e.message

inductive Event
  | message (m : Message)
  | note (n : Note)
  deriving Repr, DecidableEq

/-- the messages among events, in order -/
def messagesOf (events : List Event) : List Message :=
  events.filterMap fun
    | .message m => some m
    | .note _ => none

theorem messagesOf_append (xs ys : List Event) :
    messagesOf (xs ++ ys) = messagesOf xs ++ messagesOf ys := List.filterMap_append

end DiagnosticGate
