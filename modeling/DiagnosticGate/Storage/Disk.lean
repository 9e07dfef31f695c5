import DiagnosticGate.Storage.FileTree
import DiagnosticGate.Storage.Files
import DiagnosticGate.Text.Utf8

/-!
The disk of a Linux system, as far as a program in a fresh working directory knows it.

A path is absolute or starts in the working directory. Around that there are the directories that
every system has, and nothing else is known of them. The name of the working directory cannot be
spelled in a path, so it is reached only from within.
-/

namespace DiagnosticGate.Storage

structure Disk where
  root : FileTree

namespace Disk

/-- the names of the working directory -/
def home : List String := ["tmp", "/"]

/-- the names of the directories at the root of a system -/
def standardNames : List String :=
  ["bin", "boot", "etc", "home", "lib", "media", "mnt", "opt", "proc", "root", "run", "sbin", "srv",
    "sys", "usr", "var"]

/-- a disk whose working directory is empty -/
def empty : Disk :=
  ⟨.dir ([("tmp", .dir [("/", .empty)]), ("dev", .dir [("null", .sink)])] ++
    standardNames.map fun n => (n, .empty))⟩

/-- the bytes that a path may have at most -/
def maxPath : Nat := 4095

/-- the segment whose characters are held last first, unless it is empty -/
def closeSegment (held : List Char) : List String :=
  if held.isEmpty then [] else [.ofList held.reverse]

/-- The segments of a path between its slashes, without the empty ones. The first of them starts
with the characters `held`, last first. -/
def segmentsFrom (held : List Char) : List Char → List String
  | [] => closeSegment held
  | c :: cs =>
    if c = '/' then closeSegment held ++ segmentsFrom [] cs else segmentsFrom (c :: held) cs

def segments (path : String) : List String := segmentsFrom [] path.toList

/-- where a path starts -/
def start (path : String) : List String := if path.toList.head? = some '/' then [] else home

/-- whether a path can only name a directory -/
def namesDirectory (path : String) : Bool := path.toList.getLast? = some '/'

/-- what is wrong with the text of a path -/
def pathFault? (path : String) : Option FileFault :=
  if path.toList.contains '\x00' then some .nulInPath
  else if path.isEmpty then some .noSuchFile
  else if maxPath < path.utf8ByteSize then some .nameTooLong
  else none

def faultOf : WalkFault → FileFault
  | .noSuchFile => .noSuchFile
  | .notDirectory => .notDirectory
  | .nameTooLong => .nameTooLong

/-- the names of what segments mean that stand at the start of a path -/
def locate (d : Disk) (path : String) (ss : List String) : Except FileFault (List String) :=
  (d.root.walk (start path) ss).mapError faultOf

/-- the bytes of the file at a path -/
def readBytes (d : Disk) (path : String) : Except FileFault (List UInt8) := do
  if let some fault := pathFault? path then .error fault
  match d.root.get? (← d.locate path (segments path)) with
  | none => .error .noSuchFile
  | some (.dir _) => .error .isDirectory
  | some (.file bytes) => if namesDirectory path then .error .notDirectory else .ok bytes
  | some .sink => if namesDirectory path then .error .notDirectory else .ok []

/-- Writes the file at a path. Its directory must be there. -/
def writeBytes (d : Disk) (path : String) (bytes : List UInt8) : Except FileFault Disk := do
  if let some fault := pathFault? path then .error fault
  if namesDirectory path then
    let parent ← d.locate path (segments path).dropLast
    if d.root.hasDir parent then .error .isDirectory
    else if (d.root.get? parent).isSome then .error .notDirectory
    else .error .noSuchFile
  let names ← d.locate path (segments path)
  match d.root.get? names with
  | some (.dir _) => .error .isDirectory
  | some .sink => .ok d
  | _ => .ok ⟨d.root.set (.file bytes) names⟩

/-- makes the directory at a path, and those it is in -/
def makeDir (d : Disk) (path : String) : Disk :=
  if (pathFault? path).isSome then d else ⟨d.root.makeDirs (start path) (segments path)⟩

/-- puts a file at a path, and makes the directories it is in -/
def place (d : Disk) (path : String) (bytes : List UInt8) : Disk :=
  let made : Disk := ⟨d.root.makeDirs (start path) (segments path).dropLast⟩
  match made.writeBytes path bytes with
  | .ok written => written
  | .error _ => made

/-- the files below the working directory with their paths -/
def files (d : Disk) : List (String × List UInt8) :=
  match d.root.get? home with
  | some t => t.files ""
  | none => []

instance : TextFiles Disk where
  read d path := do
    match Text.decode (← d.readBytes path) with
    | .ok text => .ok text
    | .error _ => .error .notUtf8
  write d path text := d.writeBytes path (Text.encode text)

end Disk

end DiagnosticGate.Storage
