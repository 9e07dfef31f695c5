import DiagnosticGate.Main
import DiagnosticGate.Glob.Matching
import DiagnosticGate.Storage.Disk
import DiagnosticGate.Proofs.SingleShot
import DiagnosticGate.Proofs.Watching
import DiagnosticGate.Proofs.Persistence
import DiagnosticGate.Proofs.Bootstrap
import DiagnosticGate.Proofs.Consistency
import DiagnosticGate.Proofs.Revision
import DiagnosticGate.Proofs.Verdict
import DiagnosticGate.Proofs.Settling
import DiagnosticGate.Proofs.Series
import DiagnosticGate.Proofs.Asking
import DiagnosticGate.Proofs.Saving
import DiagnosticGate.Proofs.Pairs
import DiagnosticGate.Proofs.Provenance
import DiagnosticGate.Proofs.Canonical
import DiagnosticGate.Proofs.Failing
import DiagnosticGate.Proofs.Globstar
import DiagnosticGate.Proofs.Input
import DiagnosticGate.Proofs.Usage
import DiagnosticGate.Proofs.Assembly
import DiagnosticGate.Proofs.Writing
import DiagnosticGate.Proofs.Lines
import DiagnosticGate.Proofs.Framing
import DiagnosticGate.Proofs.Headers
import DiagnosticGate.Proofs.Sequences
import DiagnosticGate.Proofs.Colour
import DiagnosticGate.Proofs.Braces
import DiagnosticGate.Proofs.QuestionMarks
import DiagnosticGate.Proofs.Views
import DiagnosticGate.Proofs.Disk
import DiagnosticGate.Proofs.Admission
import DiagnosticGate.Proofs.Reporting
