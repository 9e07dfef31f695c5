import DiagnosticGate.CommandLine.Options
import DiagnosticGate.Message
import DiagnosticGate.Text.Terminal
import DiagnosticGate.Text.Utf8
import DiagnosticGate.Verdict

/-!
The log of the program.

Messages and notes become records of a level, a module and a text. Which records are printed, and
with what in front, depends on how much the user wants to see.
-/

namespace DiagnosticGate.CommandLine

/-- the levels of a log, the most important first -/
inductive Level
  | error
  | warn
  | info
  | debug
  | trace
  deriving Repr, DecidableEq

namespace Level

def rank : Level → Nat
  | error => 0
  | warn => 1
  | info => 2
  | debug => 3
  | trace => 4

def name : Level → String
  | error => "ERROR"
  | warn => "WARN"
  | info => "INFO"
  | debug => "DEBUG"
  | trace => "TRACE"

/-- what switches the colour of a level on -/
def colour : Level → String
  | error => "\x1b[1m\x1b[31m"
  | warn => "\x1b[33m"
  | info => "\x1b[32m"
  | debug => "\x1b[34m"
  | trace => "\x1b[36m"

end Level

/-- what switches every colour off -/
def plainColour : String := "\x1b[0m"

structure LogRecord where
  level : Level
  module : String
  text : String
  deriving Repr, DecidableEq

/-- Failures are errors, so that they are printed also where nothing else is. -/
def toneLevel : Tone → Level
  | .failure => .error
  | .plain | .success | .warning | .hint => .info

/-- a text in the colour of its tone; of a success only the tick has one -/
def styled (tone : Tone) (text : String) : String :=
  match tone with
  | .plain | .failure => text
  | .success => "\x1b[32m✔" ++ plainColour ++ " " ++ text
  | .warning => "\x1b[33m" ++ text ++ plainColour
  | .hint => "\x1b[96m" ++ text ++ plainColour

/-- the module of the program itself -/
def programModule : String := "loose_ts_check"

def noteLevel : Note → Level
  | .watchStarted | .judged _ _ => .trace
  | .keeping _ => .warn
  | _ => .debug

def noteModule : Note → String
  | .missing _ | .saved _ _ => "loose_ts_check_config::allow_list"
  | .watchStarted => "tsc_errors::watch"
  | .unchanged _ _ => "tsc_errors::registry"
  | _ => "tsc_errors::session"

namespace LogRecord

def ofEvent : Event → LogRecord
  | .message m => ⟨toneLevel m.tone, programModule, styled m.tone m.text⟩
  | .note n => ⟨noteLevel n, noteModule n, n.text⟩

/-- the end of a compilation in watch mode -/
def finished (v : Verdict) : LogRecord :=
  ⟨.debug, programModule, "Compilation finished: " ++ v.name⟩

end LogRecord

/-- the least important level that is printed -/
def threshold (o : Options) : Level :=
  if o.quiet then .error
  else if o.verbose = 0 then .info
  else if o.verbose = 1 then .debug
  else .trace

/-- puts four spaces behind every line end -/
def indent (text : String) : String :=
  .ofList (text.toList.flatMap fun c => if c = '\n' then "\n    ".toList else [c])

/-- a level, filled up to the width of the longest -/
def paddedName (l : Level) : String := l.name ++ "".pushn ' ' (5 - l.name.length)

/-- A record as it is printed, in colour, with its line end. Down to the level `info` an
information stands alone; below it every record has a head with the time. -/
def printed (limit : Level) (time : String) (r : LogRecord) : String :=
  if limit.rank ≤ Level.info.rank then
    if r.level = .info then r.text ++ "\n"
    else r.level.colour ++ "[" ++ r.level.name ++ "]" ++ plainColour ++ " " ++ r.text ++ "\n"
  else
    "\x1b[90m[" ++ plainColour ++ time ++ " " ++ r.level.colour ++ paddedName r.level ++
      plainColour ++ " " ++ r.module ++ "\x1b[90m]" ++ plainColour ++ " " ++ indent r.text ++ "\n"

/-- the bytes that are printed for a record -/
def bytesOf (limit : Level) (colour : Bool) (time : String) (r : LogRecord) : List UInt8 :=
  if r.level.rank ≤ limit.rank then
    let bytes := Text.encode (printed limit time r)
    if colour then bytes else Text.Terminal.shown bytes
  else []

end DiagnosticGate.CommandLine
