/-!
Trees of directories and files.

A place in a tree is given by the names that lead to it from the top. Segments of a path are walked
from a place: `.` stays there and `..` goes up, at the top it stays too.
-/

namespace DiagnosticGate.Storage

inductive FileTree
  | file (bytes : List UInt8)
  /-- a file that stays empty, whatever is written to it -/
  | sink
  | dir (entries : List (String × FileTree))

/-- why a walk through a tree fails -/
inductive WalkFault
  | noSuchFile
  | notDirectory
  | nameTooLong
  deriving Repr, DecidableEq

namespace FileTree

/-- a directory without entries -/
def empty : FileTree := .dir []

def isDir : FileTree → Bool
  | dir _ => true
  | file _ | sink => false

/-- the entry of a directory with a name -/
def entry? (t : FileTree) (name : String) : Option FileTree :=
  match t with
  | dir es => es.lookup name
  | file _ | sink => none

/-- what stands at the names, one below the other -/
def get? (t : FileTree) : List String → Option FileTree
  | [] => some t
  | n :: ns =>
    match t.entry? n with
    | none => none
    | some u => u.get? ns

/-- whether a directory stands at the names -/
def hasDir (t : FileTree) (names : List String) : Bool := (t.get? names).any isDir

/-- puts an entry in its place or at the end -/
def putEntry (name : String) (u : FileTree) :
    List (String × FileTree) → List (String × FileTree)
  | [] => [(name, u)]
  | (n, t) :: es => if n == name then (name, u) :: es else (n, t) :: putEntry name u es

/-- Puts `u` at the names. Nothing happens below a file. -/
def set (t : FileTree) (u : FileTree) : List String → FileTree
  | [] => u
  | n :: ns =>
    match t with
    | dir es => dir (putEntry n (((es.lookup n).getD empty).set u ns) es)
    | file _ | sink => t

/-- the bytes that a name may have at most -/
def maxName : Nat := 255

/-- Walks segments from the directory at the names `start`. Answers the names of what is meant; the
last of them need not be there. -/
def walk (t : FileTree) (start : List String) : List String → Except WalkFault (List String)
  | [] => .ok start
  | s :: ss =>
    if !t.hasDir start then .error .notDirectory
    else if s = "." then walk t start ss
    else if s = ".." then walk t start.dropLast ss
    else if maxName < s.utf8ByteSize then .error .nameTooLong
    else if (t.get? (start ++ [s])).isNone then
      if ss.isEmpty then .ok (start ++ [s]) else .error .noSuchFile
    else walk t (start ++ [s]) ss

/-- Walks segments and makes the directories that are not there, up to the first that cannot be
made. -/
def makeDirs (t : FileTree) (start : List String) : List String → FileTree
  | [] => t
  | s :: ss =>
    if !t.hasDir start then t
    else if s = "." then makeDirs t start ss
    else if s = ".." then makeDirs t start.dropLast ss
    else if maxName < s.utf8ByteSize then t
    else
      let names := start ++ [s]
      makeDirs (if (t.get? names).isSome then t else t.set empty names) names ss

mutual

/-- the files of a tree with their paths -/
def files (above : String) : FileTree → List (String × List UInt8)
  | file bytes => [(above, bytes)]
  | sink => [(above, [])]
  | dir es => entryFiles (if above.isEmpty then "" else above ++ "/") es

def entryFiles (above : String) : List (String × FileTree) → List (String × List UInt8)
  | [] => []
  | (n, t) :: es => files (above ++ n) t ++ entryFiles above es

end

end FileTree

end DiagnosticGate.Storage
