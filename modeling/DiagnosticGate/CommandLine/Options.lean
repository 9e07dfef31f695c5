import DiagnosticGate.Settings

/-!
Command line options.

Arguments are read from left to right. An option takes its value from behind an equals sign or from
the next argument; it is complete when the next option that is known starts, or the arguments end,
and only then can it be found to lack its value or to be given twice.
-/

namespace DiagnosticGate.CommandLine

/-- what a call of the program asks for -/
structure Options where
  codesPath : String
  filesPath : String
  init : Bool
  autoUpdate : Bool
  quiet : Bool
  verbose : Nat
  deriving Repr, DecidableEq

/-- the paths that the environment gives -/
structure Environment where
  codesPath : Option String
  filesPath : Option String
  deriving Repr, DecidableEq

/-- why no check is run -/
inductive Usage
  | unknownArgument
  | invalidValue
  | argumentConflict
  | tooManyValues
  | displayHelp
  | displayVersion
  deriving Repr, DecidableEq

namespace Usage

def name : Usage → String
  | unknownArgument => "UnknownArgument"
  | invalidValue => "InvalidValue"
  | argumentConflict => "ArgumentConflict"
  | tooManyValues => "TooManyValues"
  | displayHelp => "DisplayHelp"
  | displayVersion => "DisplayVersion"

end Usage

/-- the options without a value -/
inductive Flag
  | init
  | autoUpdate
  | quiet
  | verbose
  | help
  | version
  deriving Repr, DecidableEq

/-- the name of an option -/
inductive Name
  | flag (f : Flag)
  | path (list : Which)
  deriving Repr, DecidableEq

def longName? (s : String) : Option Name :=
  match s with
  | "init" => some (.flag .init)
  | "auto-update" => some (.flag .autoUpdate)
  | "quiet" => some (.flag .quiet)
  | "verbose" => some (.flag .verbose)
  | "help" => some (.flag .help)
  | "version" => some (.flag .version)
  | "ignored-error-codes" => some (.path .codes)
  | "loosely-type-checked-files" => some (.path .files)
  | _ => none

def shortName? (c : Char) : Option Flag :=
  match c with
  | 'i' => some .init
  | 'q' => some .quiet
  | 'v' => some .verbose
  | 'h' => some .help
  | 'V' => some .version
  | _ => none

/-- the arguments read so far -/
structure Arguments where
  codesPath : Option String
  filesPath : Option String
  init : Bool
  autoUpdate : Bool
  quiet : Bool
  verbose : Nat
  /-- an option that is not complete, and its value if it has been read -/
  pending : Option (Which × Option String)
  deriving Repr, DecidableEq

namespace Arguments

def none : Arguments := ⟨.none, .none, false, false, false, 0, .none⟩

/-- the largest count of `-v` -/
def maxVerbose : Nat := 255

/-- gives an option its value -/
def setPath (a : Arguments) (list : Which) (value : String) : Except Usage Arguments :=
  match list with
  | .codes =>
    if a.codesPath.isSome then .error .argumentConflict
    else .ok { a with codesPath := some value }
  | .files =>
    if a.filesPath.isSome then .error .argumentConflict
    else .ok { a with filesPath := some value }

/-- completes the option that is not complete -/
def settle (a : Arguments) : Except Usage Arguments :=
  match a.pending with
  | .none => .ok a
  | some (_, .none) => .error .invalidValue
  | some (list, some value) => { a with pending := .none }.setPath list value

/-- takes a flag -/
def setFlag (a : Arguments) (f : Flag) : Except Usage Arguments :=
  match f with
  | .init => if a.init then .error .argumentConflict else .ok { a with init := true }
  | .autoUpdate =>
    if a.autoUpdate then .error .argumentConflict else .ok { a with autoUpdate := true }
  | .quiet => if a.quiet then .error .argumentConflict else .ok { a with quiet := true }
  | .verbose => .ok { a with verbose := min maxVerbose (a.verbose + 1) }
  | .help => .error .displayHelp
  | .version => .error .displayVersion

/-- takes flags of one letter each -/
def setFlags (a : Arguments) : List Char → Except Usage Arguments
  | [] => .ok a
  | c :: cs =>
    match shortName? c with
    | .none => .error .unknownArgument
    | some f => do
      (← (← a.settle).setFlag f).setFlags cs

/-- reads a long option; `cs` is what follows its two dashes -/
def setLong (a : Arguments) (cs : List Char) : Except Usage Arguments :=
  let name := String.ofList (cs.takeWhile (· != '='))
  let value : Option String := match cs.dropWhile (· != '=') with
    | [] => .none
    | _ :: value => some (.ofList value)
  match longName? name, value with
  | .none, _ => .error .unknownArgument
  | some (.flag _), some _ => .error .tooManyValues
  | some (.flag f), .none => do (← a.settle).setFlag f
  | some (.path list), some value => do (← a.settle).setPath list value
  | some (.path list), .none => do return { (← a.settle) with pending := some (list, .none) }

/-- takes an argument that is no option: the value that an option waits for -/
def setValue (a : Arguments) (value : String) : Except Usage Arguments :=
  match a.pending with
  | some (list, .none) => .ok { a with pending := some (list, some value) }
  | _ => .error .unknownArgument

/-- reads arguments -/
def read (a : Arguments) : List String → Except Usage Arguments
  | [] => a.settle
  | arg :: rest =>
    match arg.toList with
    | ['-', '-'] => if rest.isEmpty then a.settle else .error .unknownArgument
    | '-' :: '-' :: cs => do (← a.setLong cs).read rest
    | '-' :: c :: cs => do (← a.setFlags (c :: cs)).read rest
    | _ => do (← a.setValue arg).read rest

end Arguments

namespace Options

/-- Reads the arguments of a call. An argument goes before the environment, and that before the
default. -/
def parse (args : List String) (env : Environment) : Except Usage Options := do
  let a ← Arguments.none.read args
  return {
    codesPath := (a.codesPath.or env.codesPath).getD Settings.defaultCodesPath
    filesPath := (a.filesPath.or env.filesPath).getD Settings.defaultFilesPath
    init := a.init
    autoUpdate := a.autoUpdate
    quiet := a.quiet
    verbose := a.verbose }

def settings (o : Options) : Settings := ⟨o.codesPath, o.filesPath, o.init, o.autoUpdate⟩

end Options

end DiagnosticGate.CommandLine
