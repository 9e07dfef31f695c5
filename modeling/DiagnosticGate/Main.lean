import DiagnosticGate.CommandLine.Run
import DiagnosticGate.Storage.Snapshot

/-!
The program.

Everything is decided by the gate; this layer reads the two files, the environment and the input,
does the writes that are due and prints the log.
-/

open DiagnosticGate DiagnosticGate.Storage DiagnosticGate.CommandLine

namespace DiagnosticGate.Program

/-- what the system says about a file -/
def faultOf (e : IO.Error) : FileFault :=
  match e with
  | .noFileOrDirectory _ _ _ => .noSuchFile
  | .inappropriateType _ 20 _ => .notDirectory
  | .inappropriateType _ 21 _ => .isDirectory
  | e => .reported false (toString e)

/-- reads a file as text -/
def readText (path : String) : IO (Except FileFault String) := do
  if path.toList.contains '\x00' then return .error .nulInPath
  try
    let bytes ← IO.FS.readBinFile path
    match Text.decode bytes.toList with
    | .ok text => return .ok text
    | .error _ => return .error .notUtf8
  catch e => return .error (faultOf e)

/-- does writes in order and answers the first that fails -/
def doWrites : List (String × String) → IO (Option (String × FileFault))
  | [] => return none
  | (path, text) :: rest => do
    let failed ← try
        IO.FS.writeFile path text
        pure none
      catch e => pure (some (path, faultOf e))
    match failed with
    | some f => return some f
    | none => doWrites rest

/-- the settings of the log -/
structure Printer where
  limit : Level
  colour : Bool
  started : Nat

def Printer.print (p : Printer) (records : List LogRecord) : IO Unit := do
  let now ← IO.monoMsNow
  let time := s!"{(now - p.started) / 1000}s"
  let bytes := records.flatMap (bytesOf p.limit p.colour time)
  unless bytes.isEmpty do
    let errors ← IO.getStderr
    errors.write ⟨bytes.toArray⟩
    errors.flush

/-- Takes a step and does its writes. If one is refused, the step is taken again from the same
gate, which now knows of the refusal; `done` writes need not be repeated. -/
partial def perform (step : Gate Snapshot → Reply Snapshot) (g : Gate Snapshot) (done : Nat) :
    IO (Reply Snapshot) := do
  let reply := step g
  let due := reply.gate.files.due
  match ← doWrites (due.drop done) with
  | none =>
    let t := reply.gate
    return { reply with gate := { t with files := t.files.settled } }
  | some (path, fault) =>
    let files := { g.files with refused := (path, fault) :: g.files.refused }
    perform step { g with files } (due.takeWhile (·.1 != path)).length

/-- the end of the input as a step -/
def finishStep (g : Gate Snapshot) : Reply Snapshot :=
  let c := g.finish
  ⟨c.gate, c.events, some c.verdict⟩

/-- Checks the lines of `held` and of what can still be read. -/
partial def serve (p : Printer) (input : IO.FS.Stream) (g : Gate Snapshot)
    (held : List UInt8) : IO (Except RunError Verdict) := do
  let chunk ← input.read 65536
  let pieces := Text.splitLines held chunk.toList
  let (whole, rest) :=
    if chunk.isEmpty then (pieces, [])
    else match pieces.getLast? with
      | some l => if l.getLast? = some 0x0a then (pieces, []) else (pieces.dropLast, l.reverse)
      | none => ([], [])
  let mut g := g
  for raw in whole do
    match Text.decodeLine raw with
    | .error f => return .error (.input f)
    | .ok text =>
      let reply ← perform (·.line text) g 0
      p.print (lineRecords reply.events reply.verdict)
      g := reply.gate
  if chunk.isEmpty then
    let reply ← perform finishStep g 0
    p.print (reply.events.map .ofEvent)
    return .ok (reply.verdict.getD .pass)
  serve p input g rest

/-- runs a check -/
def check (options : Options) : IO (Except RunError Verdict) := do
  let known ← [options.codesPath, options.filesPath].mapM fun path => do
    return (path, ← readText path)
  let printer : Printer :=
    ⟨threshold options, ← (← IO.getStderr).isTty, ← IO.monoMsNow⟩
  let (events, started) := Gate.start (Snapshot.mk known [] []) options.settings
  printer.print (events.map .ofEvent)
  let outcome ← match started with
    | .error e => pure (.error (.start e))
    | .ok g => serve printer (← IO.getStdin) g []
  printer.print (finalRecords outcome)
  return outcome

end DiagnosticGate.Program

open DiagnosticGate.Program in
def main (args : List String) : IO UInt32 := do
  let env : Environment :=
    ⟨← IO.getEnv "LOOSE_TS_CHECK_IGNORED_ERROR_CODES",
      ← IO.getEnv "LOOSE_TS_CHECK_LOOSELY_TYPE_CHECKED_FILES"⟩
  match Options.parse args env with
  | .error u =>
    let c := answerUsage () u
    (← IO.getStdout).putStr c.output
    (← IO.getStderr).write ⟨c.errors.toArray⟩
    return c.exitCode.toUInt32
  | .ok options => return (exitCode (← check options)).toUInt32
