import DiagnosticGate.Diagnostic.Assembly
import DiagnosticGate.Discrepancies
import DiagnosticGate.Update
import DiagnosticGate.WatchMode

/-!
Checking the output of a compiler.

A gate reads the allow-lists and is then given the output line by line. Outside of watch mode the
whole output is one compilation, judged when the input ends. In watch mode every finished marker
ends a compilation, and a changed file drops what has been collected since the last one. A gate
is a value; every call answers the gate after it, what was told and the verdict, if one was
reached.
-/

namespace DiagnosticGate

open Storage

/-- why a gate cannot start -/
inductive StartFault
  | unreadable (errors : List ListFileError)
  | malformedCodes (path : String) (codes : List String)
  | badPattern (error : PatternError)
  deriving Repr, DecidableEq

def StartFault.message : StartFault → String
  | unreadable _ => "Either fix the files or pass the --init option"
  | malformedCodes path _ => "Invalid TSC error codes in " ++ path
  | badPattern e => e.message

structure Gate (σ : Type) where
  settings : Settings
  /-- the store of the two lists -/
  files : σ
  lists : AllowLists
  coverage : Coverage
  assembly : Assembly
  findings : Findings
  watch : WatchMode
  lastVerdict : Verdict

/-- what a call answers -/
structure Reply (σ : Type) where
  gate : Gate σ
  events : List Event
  verdict : Option Verdict

/-- the end of a compilation -/
structure Completion (σ : Type) where
  gate : Gate σ
  events : List Event
  verdict : Verdict

namespace Gate

/-! ### Starting -/

/-- the entries of a list that was read, and the note that its file is missing -/
def entriesOf (path : String) : Option (List String) → List String × List Event
  | some texts => (texts, [])
  | none => ([], [.note (.missing path)])

/-- a gate on lists that have been read -/
def ofLists {σ : Type} (files : σ) (settings : Settings) (lists : AllowLists) :
    List Event × Except StartFault (Gate σ) :=
  let invalid := malformedCodes lists.codes.entries
  if invalid.isEmpty then
    match Coverage.ofTexts lists.files.entries with
    | .error e => ([], .error (.badPattern e))
    | .ok coverage =>
      ([.note (.loaded lists.codes.size lists.files.size)],
        .ok ⟨settings, files, lists, coverage, .empty, .empty, .idle, .pass⟩)
  else
    (invalid.map fun c => .message (.invalidCode c),
      .error (.malformedCodes settings.codesPath invalid))

section

variable {σ : Type} [TextFiles σ]

/-- Reads both lists. Files that are missing are empty lists if the lists are to be made. -/
def start (files : σ) (settings : Settings) : List Event × Except StartFault (Gate σ) :=
  let readCodes := readTexts files settings.codesPath settings.init
  let readFiles := readTexts files settings.filesPath settings.init
  let noted := fun (path : String) (r : Except ListFileError (Option (List String))) =>
    match r with
    | .ok found => entriesOf path found
    | .error _ => ([], [])
  let (codes, codeNotes) := noted settings.codesPath readCodes
  let (entries, fileNotes) := noted settings.filesPath readFiles
  let errorOf := fun (r : Except ListFileError (Option (List String))) =>
    match r with
    | .ok _ => []
    | .error e => [e]
  let errors := errorOf readCodes ++ errorOf readFiles
  if errors.isEmpty then
    let (events, result) := ofLists files settings (.ofLists codes entries)
    (codeNotes ++ fileNotes ++ events, result)
  else
    (codeNotes ++ fileNotes ++ errors.map fun e => .message (.listFault e),
      .error (.unreadable errors))

/-! ### Judging -/

/-- Judges a diagnostic and keeps it. Where the lists are to be made, every diagnostic is valid. -/
def take (g : Gate σ) (d : Diagnostic) : Gate σ × List Event :=
  let kind := if g.settings.init then .valid else d.judge g.lists.codes g.coverage
  let coverage := if g.settings.init then g.coverage else g.coverage.count d.file
  ({ g with coverage, findings := g.findings.push kind d }, [.note (.judged d kind)])

/-- judges the diagnostic that is still open -/
def closePending (g : Gate σ) : Gate σ × List Event :=
  let (assembly, closed) := g.assembly.close
  match closed with
  | none => ({ g with assembly }, [])
  | some d => { g with assembly }.take d

/-- forgets the compilation -/
def clear (g : Gate σ) : Gate σ :=
  { g with assembly := .empty, findings := .empty, coverage := g.coverage.clear }

/-- Goes by the lists that have been written. If their entries cannot be read, the lists before
them stay. -/
def follow (g : Gate σ) (persisted : AllowLists) : Gate σ × List Event :=
  if persisted.agrees g.lists then (g, [])
  else
    match Coverage.ofTexts persisted.files.entries with
    | .ok coverage => ({ g with coverage, lists := persisted }, [.note .adopting])
    | .error e => (g, [.note (.keeping e)])

/-- the counts at the head of a report -/
def summary (split : Findings.Split) : List Message :=
  [.detected split.all.length, .ignored split.ignored.length] ++
    if split.unignored.isEmpty then [] else [.notIgnored split.unignored.length]

/-- judges the compilation that has been collected -/
def conclude (g : Gate σ) : Completion σ :=
  let split := g.findings.split
  if split.all.isEmpty then ⟨g, [.message .noErrors], .pass⟩
  else if g.settings.init then
    let made := makeLists g.files g.settings split.all
    ⟨{ g with files := made.files }, .message (.detected split.all.length) :: made.events,
      made.verdict⟩
  else
    let step := resolve g.settings.autoUpdate split g.coverage g.lists
    let report := (summary split ++ step.messages).map .message
    if g.settings.autoUpdate then
      let update := writeLists g.files g.settings g.lists step.result
      let (gate, followed) := { g with files := update.files }.follow update.persisted
      ⟨gate, report ++ update.events ++ followed, step.verdict ||| update.verdict⟩
    else ⟨g, report, step.verdict⟩

/-- ends a compilation and forgets it -/
def endCompilation (g : Gate σ) : Completion σ :=
  let (closed, closing) := g.closePending
  let c := closed.conclude
  ⟨{ c.gate.clear with lastVerdict := c.verdict }, closing ++ c.events, c.verdict⟩

/-! ### Lines -/

/-- reads one line of output -/
def line (g : Gate σ) (raw : String) : Reply σ :=
  let text := Text.normalize raw
  if g.watch.starts text then
    ⟨{ g with watch := g.watch.see text }, [.note .watchStarted, .note .watchDetected], none⟩
  else if g.watch.changes text then
    ⟨g.clear, [.note (.fileChanged g.findings.size)], none⟩
  else if g.watch.finishes text then
    let c := g.endCompilation
    ⟨c.gate, c.events, some c.verdict⟩
  else
    let (assembly, closed) := g.assembly.push text
    match closed with
    | none => ⟨{ g with assembly }, [], none⟩
    | some d =>
      let (gate, events) := { g with assembly }.take d
      ⟨gate, events, none⟩

/-- Ends the input. In watch mode the last verdict counts, and an unfinished compilation is
dropped. -/
def finish (g : Gate σ) : Completion σ :=
  if g.watch.active then
    let dropped := g.assembly.pending.isSome || !g.findings.isEmpty
    ⟨g.clear, if dropped then [.note .inputEnded] else [], g.lastVerdict⟩
  else g.endCompilation

/-- reads lines one after the other -/
def lines (g : Gate σ) : List String → Gate σ × List Event
  | [] => (g, [])
  | raw :: rest =>
    match g.line raw with
    | ⟨next, events, _⟩ =>
      let (last, more) := next.lines rest
      (last, events ++ more)

/-- reads a complete output -/
def check (g : Gate σ) (lines : List String) : Completion σ :=
  let (last, events) := g.lines lines
  let c := last.finish
  { c with events := events ++ c.events }

end

end Gate

end DiagnosticGate
