import DiagnosticGate.Text.Line

/-!
Watch mode.

A compiler in watch mode prints a marker when it starts, when it has finished a compilation and
when it has seen a changed file. Until the start marker has been seen once, the other markers are
ordinary text.
-/

namespace DiagnosticGate

/-- whether the start marker has been seen -/
structure WatchMode where
  active : Bool
  deriving Repr, DecidableEq

namespace WatchMode

def startMarker : String := "Starting compilation in watch mode..."
def finishedMarker : String := "Watching for file changes."
def fileChangeMarker : String := "File change detected. Starting incremental compilation..."

/-- no line has been seen -/
def idle : WatchMode := ⟨false⟩

/-- whether `line` holds `marker` -/
def holds (marker line : String) : Bool := Text.occursIn marker.toList line.toList

/-- whether `line` holds the first start marker -/
def starts (w : WatchMode) (line : String) : Bool := !w.active && holds startMarker line

/-- whether `line` ends a compilation -/
def finishes (w : WatchMode) (line : String) : Bool := w.active && holds finishedMarker line

/-- whether `line` announces a changed file -/
def changes (w : WatchMode) (line : String) : Bool := w.active && holds fileChangeMarker line

/-- what is known after `line` -/
def see (w : WatchMode) (line : String) : WatchMode := ⟨w.active || w.starts line⟩

end WatchMode

end DiagnosticGate
