import DiagnosticGate.AllowList
import DiagnosticGate.Proofs.Json
import DiagnosticGate.Settings
import DiagnosticGate.Storage.Memory
import Mathlib.Data.Set.Insert

/-!
Reading back from a store.

A store is lawful at some paths if a write at one of them changes what is read there and at no other
of them, and if this stays so. Where a store is lawful at the paths of both lists, the file of a list
holds what was saved last, and saving one list leaves the file of the other.
-/

namespace DiagnosticGate

/-- the paths of both lists -/
def Settings.paths (settings : Settings) : Set String := {settings.codesPath, settings.filesPath}

theorem Settings.path_mem_paths (settings : Settings) (list : Which) :
    settings.path list ∈ settings.paths := by
  cases list <;> simp [paths, path]

namespace Storage

/-! ### The laws of a store -/

section

variable {σ : Type} [TextFiles σ] {paths : Set String} {files mid next : σ}

/-- `files` has become another store by writes at `paths` that have succeeded. -/
inductive WrittenAt (paths : Set String) (files : σ) : σ → Prop
  | none : WrittenAt paths files files
  | next {mid next : σ} {path text : String} (h : WrittenAt paths files mid) (hpath : path ∈ paths)
      (hwrite : TextFiles.write mid path text = .ok next) : WrittenAt paths files next

theorem WrittenAt.trans (h : WrittenAt paths files mid) (hn : WrittenAt paths mid next) :
    WrittenAt paths files next := by
  induction hn with
  | none => exact h
  | next _ hpath hwrite ih => exact ih.next hpath hwrite

theorem WrittenAt.mono {fewer : Set String} (h : WrittenAt fewer files next) (hsub : fewer ⊆ paths) :
    WrittenAt paths files next := by
  induction h with
  | none => exact .none
  | next _ hpath hwrite ih => exact ih.next (hsub hpath) hwrite

/-- A write at one of `paths` changes what is read there and at no other of them, neither now nor
behind other such writes. -/
def LawfulAt (paths : Set String) (files : σ) : Prop :=
  ∀ ⦃mid next : σ⦄ ⦃path text : String⦄, WrittenAt paths files mid → path ∈ paths →
    TextFiles.write mid path text = .ok next → ∀ other ∈ paths,
      TextFiles.read next other = if other = path then .ok text else TextFiles.read mid other

theorem LawfulAt.of_written (h : LawfulAt paths files) (hw : WrittenAt paths files next) :
    LawfulAt paths next := fun _ _ _ _ hn => h (hw.trans hn)

theorem LawfulAt.mono {fewer : Set String} (h : LawfulAt paths files) (hsub : fewer ⊆ paths) :
    LawfulAt fewer files := by
  intro mid next path text hw hpath hwrite other hother
  exact h (hw.mono hsub) (hsub hpath) hwrite other (hsub hother)

/-- No write at `paths` fails, neither now nor behind other such writes. -/
def WritableAt (paths : Set String) (files : σ) : Prop :=
  ∀ ⦃mid : σ⦄, WrittenAt paths files mid → ∀ path ∈ paths, ∀ text,
    ∃ next, TextFiles.write mid path text = .ok next

theorem WritableAt.of_written (h : WritableAt paths files) (hw : WrittenAt paths files next) :
    WritableAt paths next := fun _ hn => h (hw.trans hn)

end

namespace Memory

/-- a store of two lists, at the paths `c` and `f`, that cannot be written at `refused` -/
def ofLists (codes files refused : List String) : Memory :=
  .ofFiles [("c", Json.write codes), ("f", Json.write files)] refused

theorem read_eq (m : Memory) (path : String) :
    TextFiles.read m path =
      match m.get? path with
      | some text => .ok text
      | none => .error .unknownPath := rfl

theorem write_eq (m : Memory) (path text : String) :
    TextFiles.write m path text =
      if m.refused.contains path then .error .readOnly
      else .ok { m with files := put m.files path text, written := m.written ++ [(path, text)] } :=
  rfl

theorem lawfulAt (paths : Set String) (m : Memory) : LawfulAt paths m := by
  intro mid next path text _ _ h other _
  rw [write_eq] at h
  split at h
  · cases h
  · cases h
    rw [read_eq, read_eq, get?, lookup_put, get?]
    by_cases ho : other = path
    · rw [if_pos ho, if_pos (by simp [ho])]
    · rw [if_neg ho, if_neg (by simp [ho])]

theorem writableAt {m : Memory} (h : m.refused = []) (paths : Set String) : WritableAt paths m := by
  intro mid hw
  have hmid : mid.refused = [] := by
    induction hw with
    | none => exact h
    | next _ _ hwrite ih =>
      rw [write_eq, if_neg (by simp [ih])] at hwrite
      cases hwrite
      exact ih
  intro path _ text
  rw [write_eq, if_neg (by simp [hmid])]
  exact ⟨_, rfl⟩

end Memory

variable {σ : Type} [TextFiles σ] {files next : σ} {path other : String} {texts : List String}

/-! ### The texts of a file -/

theorem readTexts_congr (h : TextFiles.read next path = TextFiles.read files path)
    (allowMissing : Bool) : readTexts next path allowMissing = readTexts files path allowMissing := by
  rw [readTexts, readTexts, h]

theorem write_of_saveTexts (h : saveTexts files path texts = .ok next) :
    TextFiles.write files path (Json.write texts) = .ok next := by
  unfold saveTexts at h
  split at h
  · cases h
  · rename_i hw
    cases h
    exact hw

theorem write_of_saveTexts_error {e : ListFileError} (h : saveTexts files path texts = .error e) :
    ∃ f, TextFiles.write files path (Json.write texts) = .error f ∧ e = ⟨path, .unwritable f⟩ := by
  unfold saveTexts at h
  split at h
  · rename_i f hw
    cases h
    exact ⟨f, hw, rfl⟩
  · cases h

section

variable {paths : Set String}

theorem written_of_saveTexts (hpath : path ∈ paths) (h : saveTexts files path texts = .ok next) :
    WrittenAt paths files next := .next .none hpath (write_of_saveTexts h)

/-- **What is saved is read back**, in the same order. -/
theorem LawfulAt.readTexts_saveTexts (hl : LawfulAt paths files) (hpath : path ∈ paths)
    (h : saveTexts files path texts = .ok next) (allowMissing : Bool) :
    readTexts next path allowMissing = .ok (some texts) := by
  have hread := hl .none hpath (write_of_saveTexts h) path hpath
  rw [if_pos rfl] at hread
  rw [readTexts, hread]
  simp only [parseTexts_write]

theorem LawfulAt.readTexts_saveTexts_of_ne (hl : LawfulAt paths files) (hpath : path ∈ paths)
    (h : saveTexts files path texts = .ok next) (hother : other ∈ paths) (hne : other ≠ path)
    (allowMissing : Bool) : readTexts next other allowMissing = readTexts files other allowMissing := by
  have hread := hl .none hpath (write_of_saveTexts h) other hother
  rw [if_neg hne] at hread
  exact readTexts_congr hread allowMissing

theorem WritableAt.saveTexts (h : WritableAt paths files) (hpath : path ∈ paths)
    (texts : List String) : ∃ next, saveTexts files path texts = .ok next ∧ WritableAt paths next := by
  obtain ⟨next, hwrite⟩ := h .none path hpath (Json.write texts)
  refine ⟨next, ?_, h.of_written (.next .none hpath hwrite)⟩
  rw [Storage.saveTexts, hwrite]

end

/-! ### The members of a file -/

/-- The file at `path` can be read, and its texts are the members of `list`. -/
def Holds (files : σ) (path : String) (list : AllowList) : Prop :=
  ∃ texts, readTexts files path false = .ok (some texts) ∧ ∀ s, s ∈ texts ↔ s ∈ list.entries

theorem Holds.congr {list : AllowList} (h : Holds files path list)
    (hread : readTexts next path false = readTexts files path false) : Holds next path list := by
  obtain ⟨texts, hr, hmem⟩ := h
  exact ⟨texts, hread.trans hr, hmem⟩

end Storage

end DiagnosticGate
