/-!
Allow-lists.

An allow-list is a list of texts without repetition, in the order in which they were added. Two
allow-lists agree if they have the same members; the order matters for what is reported, and is
replaced by the order of code points when a list is written.
-/

namespace DiagnosticGate

structure AllowList where
  entries : List String
  nodup : entries.Nodup

namespace AllowList

def empty : AllowList := ⟨[], .nil⟩

instance : Membership String AllowList := ⟨fun l s => s ∈ l.entries⟩

def contains (l : AllowList) (s : String) : Bool := l.entries.contains s

def size (l : AllowList) : Nat := l.entries.length

/-- adds a text at the end, unless it is a member -/
def insert (l : AllowList) (s : String) : AllowList :=
  if h : s ∈ l.entries then l
  else ⟨l.entries ++ [s], List.nodup_append.2 ⟨l.nodup, by simp, by grind⟩⟩

/-- adds texts one after the other -/
def insertAll (l : AllowList) (ss : List String) : AllowList := ss.foldl insert l

/-- the members that `keep` holds of -/
def filter (l : AllowList) (keep : String → Bool) : AllowList :=
  ⟨l.entries.filter keep, l.nodup.filter keep⟩

/-- takes texts out -/
def eraseAll (l : AllowList) (ss : List String) : AllowList := l.filter fun s => !ss.contains s

/-- each text at its first place -/
def ofList (ss : List String) : AllowList := empty.insertAll ss

/-- whether two lists have the same members -/
def agrees (a b : AllowList) : Bool := a.size == b.size && a.entries.all b.contains

/-- the members in the order of code points -/
def sorted (l : AllowList) : List String := l.entries.mergeSort fun a b => decide (a ≤ b)

theorem mem_insert {l : AllowList} {s t : String} :
    t ∈ (l.insert s).entries ↔ t ∈ l.entries ∨ t = s := by
  unfold insert
  split <;> grind

theorem mem_insertAll {l : AllowList} {ss : List String} {t : String} :
    t ∈ (l.insertAll ss).entries ↔ t ∈ l.entries ∨ t ∈ ss := by
  induction ss generalizing l with
  | nil => simp [insertAll]
  | cons s ss ih =>
    have := ih (l := l.insert s)
    simp only [insertAll, List.foldl_cons] at this ⊢
    rw [this, mem_insert]
    grind

theorem mem_ofList {ss : List String} {t : String} : t ∈ (ofList ss).entries ↔ t ∈ ss := by
  simp [ofList, mem_insertAll, empty]

theorem mem_filter {l : AllowList} {keep : String → Bool} {t : String} :
    t ∈ (l.filter keep).entries ↔ t ∈ l.entries ∧ keep t := by simp [filter]

end AllowList

/-- the two lists a check goes by -/
structure AllowLists where
  /-- error codes that may be ignored -/
  codes : AllowList
  /-- paths and globs of the files that are checked loosely -/
  files : AllowList

namespace AllowLists

def ofLists (codes files : List String) : AllowLists := ⟨.ofList codes, .ofList files⟩

/-- whether both lists have the same members -/
def agrees (a b : AllowLists) : Bool := a.codes.agrees b.codes && a.files.agrees b.files

end AllowLists

end DiagnosticGate
