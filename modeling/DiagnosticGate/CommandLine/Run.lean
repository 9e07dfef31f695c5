import DiagnosticGate.CommandLine.Log
import DiagnosticGate.Gate

/-!
Running the program.

`run` checks an input of bytes line by line; a line that is no text ends it. `call` is the whole
program, from its arguments to the exit code.
-/

namespace DiagnosticGate.CommandLine

open Storage

/-- why a run fails -/
inductive RunError
  | start (error : StartFault)
  | input (fault : Text.Utf8Fault)
  deriving Repr, DecidableEq

def RunError.message : RunError → String
  | start e => e.message
  | input f => f.message

/-- what a run leaves -/
structure Run (σ : Type) where
  files : σ
  records : List LogRecord
  outcome : Except RunError Verdict

section

variable {σ : Type} [TextFiles σ]

/-- the records of a line: what was told, and the verdict if it ends a compilation -/
def lineRecords (events : List Event) (verdict : Option Verdict) : List LogRecord :=
  events.map .ofEvent ++ verdict.toList.map .finished

/-- checks the lines of an input up to its end -/
def runLines (g : Gate σ) : List (List UInt8) → Run σ
  | [] =>
    let c := g.finish
    ⟨c.gate.files, c.events.map .ofEvent, .ok c.verdict⟩
  | raw :: rest =>
    match Text.decodeLine raw with
    | .error f => ⟨g.files, [], .error (.input f)⟩
    | .ok text =>
      match g.line text with
      | ⟨next, events, verdict⟩ =>
        let after := runLines next rest
        { after with records := lineRecords events verdict ++ after.records }

/-- checks an input -/
def run (files : σ) (options : Options) (input : List UInt8) : Run σ :=
  match Gate.start files options.settings with
  | (events, .error e) => ⟨files, events.map .ofEvent, .error (.start e)⟩
  | (events, .ok g) =>
    let after := runLines g (Text.splitLines [] input)
    { after with records := events.map .ofEvent ++ after.records }

/-- what is left of a call -/
structure Call (σ : Type) where
  exitCode : Nat
  output : String
  /-- what is printed on the error stream -/
  errors : List UInt8
  files : σ

def versionText : String := "loose-ts-check 0.1.0\n"

def helpText : String :=
  "Reads the output of tsc from stdin and ignores errors whose code is allow-listed when they\n" ++
  "occur in a loosely type-checked file.\n\n" ++
  "Usage: loose-ts-check [OPTIONS]\n\nOptions:\n" ++
  "      --ignored-error-codes <PATH>\n" ++
  "      --loosely-type-checked-files <PATH>\n" ++
  "  -i, --init\n      --auto-update\n  -q, --quiet\n  -v, --verbose...\n" ++
  "  -h, --help\n  -V, --version\n"

/-- the answer to arguments that ask for no check -/
def answerUsage (files : σ) (u : Usage) : Call σ :=
  match u with
  | .displayHelp => ⟨0, helpText, [], files⟩
  | .displayVersion => ⟨0, versionText, [], files⟩
  | _ => ⟨2, "", Text.encode ("error: " ++ u.name ++ "\n"), files⟩

/-- the record of the error that ends the program -/
def finalRecords : Except RunError Verdict → List LogRecord
  | .ok _ => []
  | .error e => [⟨.error, programModule, e.message⟩]

/-- A check that fails and an error both end the program with 1. -/
def exitCode : Except RunError Verdict → Nat
  | .ok v => if v.fails then 1 else 0
  | .error _ => 1

/-- the whole program -/
def call (files : σ) (args : List String) (env : Environment) (input : List UInt8)
    (colour : Bool) (time : String) : Call σ :=
  match Options.parse args env with
  | .error u => answerUsage files u
  | .ok options =>
    let r := run files options input
    let records := r.records ++ finalRecords r.outcome
    { exitCode := exitCode r.outcome
      output := ""
      errors := records.flatMap (bytesOf (threshold options) colour time)
      files := r.files }

end

end DiagnosticGate.CommandLine
