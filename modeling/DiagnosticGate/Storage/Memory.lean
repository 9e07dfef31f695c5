import DiagnosticGate.Storage.Files

/-!
A store in memory, which can be told to refuse some writes and remembers those it has taken.
-/

namespace DiagnosticGate.Storage

structure Memory where
  /-- each path and its text -/
  files : List (String × String)
  /-- the paths that cannot be written -/
  refused : List String
  /-- the writes so far, oldest first -/
  written : List (String × String)
  deriving Repr, DecidableEq

namespace Memory

/-- a store that holds `files` -/
def ofFiles (files : List (String × String)) (refused : List String) : Memory :=
  ⟨files, refused, []⟩

/-- the text at a path -/
def get? (m : Memory) (path : String) : Option String := m.files.lookup path

/-- puts a text at a path, in its place or at the end -/
def put : List (String × String) → String → String → List (String × String)
  | [], path, text => [(path, text)]
  | (p, t) :: fs, path, text =>
    if p == path then (path, text) :: fs else (p, t) :: put fs path text

instance : TextFiles Memory where
  read m path :=
    match m.get? path with
    | some text => .ok text
    | none => .error .unknownPath
  write m path text :=
    if m.refused.contains path then .error .readOnly
    else .ok { m with files := put m.files path text, written := m.written ++ [(path, text)] }

theorem lookup_put (fs : List (String × String)) (path other text : String) :
    (put fs path text).lookup other =
      if other == path then some text else fs.lookup other := by
  induction fs with
  | nil => simp only [put, List.lookup_cons, List.lookup_nil]; split <;> simp_all
  | cons f fs ih =>
    obtain ⟨p, t⟩ := f
    by_cases h : p == path
    · simp only [put, h, if_true]
      have : p = path := by simpa using h
      subst this
      by_cases ho : other == p <;> simp [List.lookup_cons, ho]
    · simp only [put, h]
      by_cases ho : other == p
      · have : other = p := by simpa using ho
        subst this
        simp [h]
      · simp [List.lookup_cons, ho, ih]

end Memory

end DiagnosticGate.Storage
