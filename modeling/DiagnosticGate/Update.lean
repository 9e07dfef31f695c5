import DiagnosticGate.Message
import DiagnosticGate.Verdict

/-!
Writing the allow-lists.

A list is written only if its members have changed, sorted by code points. The list of files is
written before the list of codes, and nothing is written after a failed write.
-/

namespace DiagnosticGate

open Storage

section

variable {σ : Type} [TextFiles σ]

/-- the store after a write was tried, whether it succeeded, and what was told -/
structure Written (σ : Type) where
  files : σ
  verdict : Verdict
  events : List Event

/-- writes one list if its members have changed -/
def writeList (store : σ) (settings : Settings) (list : Which) (held wanted : AllowList) :
    Written σ :=
  let path := settings.path list
  if held.agrees wanted then ⟨store, .pass, [.note (.unchanged list path)]⟩
  else
    let texts := wanted.sorted
    match saveTexts store path texts with
    | .ok store =>
      ⟨store, .pass,
        [.message (.updating list), .note (.saved texts.length path), .message (.updated list)]⟩
    | .error e =>
      ⟨store, .fail,
        [.message (.updating list), .message (.updateFailed list), .message (.listFault e)]⟩

/-- the outcome of writing both lists: `persisted` is what the files hold now -/
structure Update (σ : Type) where
  files : σ
  verdict : Verdict
  persisted : AllowLists
  events : List Event

/-- writes the lists that have changed -/
def writeLists (store : σ) (settings : Settings) (held wanted : AllowLists) : Update σ :=
  let first := writeList store settings .files held.files wanted.files
  match first.verdict with
  | .fail => ⟨first.files, .fail, held, first.events⟩
  | .pass =>
    let second := writeList first.files settings .codes held.codes wanted.codes
    let codes := match second.verdict with
      | .fail => held.codes
      | .pass => wanted.codes
    ⟨second.files, second.verdict, ⟨codes, wanted.files⟩, first.events ++ second.events⟩

/-- Writes lists one after the other up to the first failure; each is given with its path. -/
def saveAll (store : σ) : List (String × List String) → Written σ
  | [] => ⟨store, .pass, [.message .initialized]⟩
  | (path, texts) :: rest =>
    match saveTexts store path texts with
    | .error e => ⟨store, .fail, [.message (.initFailed path), .message (.listFault e)]⟩
    | .ok store =>
      let after := saveAll store rest
      { after with events := .note (.saved texts.length path) :: after.events }

/-- makes both lists from the diagnostics -/
def makeLists (store : σ) (settings : Settings) (diagnostics : List Diagnostic) : Written σ :=
  let files := (AllowList.ofList (diagnostics.map (·.file))).sorted
  let codes := (AllowList.ofList (diagnostics.map (·.code))).sorted
  let after := saveAll store [(settings.filesPath, files), (settings.codesPath, codes)]
  { after with events := .message .initializing :: after.events }

end

end DiagnosticGate
