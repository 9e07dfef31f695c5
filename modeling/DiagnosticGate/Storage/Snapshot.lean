import DiagnosticGate.Storage.Files

/-!
What is known of the files of a system.

A snapshot holds what reading each file has given. Writing to it is a promise: the write is due, and
the file is known to hold the text. A path that the system has refused to write is told to the
snapshot, and what was computed from it is then computed again.
-/

namespace DiagnosticGate.Storage

structure Snapshot where
  known : List (String × Except FileFault String)
  refused : List (String × FileFault)
  /-- the writes that are due, oldest first -/
  due : List (String × String)

namespace Snapshot

instance : TextFiles Snapshot where
  read s path := (s.known.lookup path).getD (.error .noSuchFile)
  write s path text :=
    match s.refused.lookup path with
    | some fault => .error fault
    | none => .ok { s with known := (path, .ok text) :: s.known, due := s.due ++ [(path, text)] }

/-- the writes have been done -/
def settled (s : Snapshot) : Snapshot := { s with refused := [], due := [] }

end Snapshot

end DiagnosticGate.Storage
