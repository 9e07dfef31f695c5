import DiagnosticGate.Diagnostic.Assembly

/-!
What all diagnostics of an output have in common.

A diagnostic is opened by its header and extended by other lines. What holds of every header and is
kept by every extension holds of all diagnostics that are read, such as that the code is an error
code.
-/

namespace DiagnosticGate

namespace Assembly

variable {a : Assembly} {line : String}

/-- **All that a line can do** to the open diagnostic. -/
theorem push_cases (a : Assembly) (line : String) :
    ((Text.normalize line).isEmpty ∧ a.push line = (a, none)) ∨
    ((Text.normalize line).isEmpty = false ∧ ∃ d, Diagnostic.ofHeader? (Text.normalize line) = some d ∧
      a.push line = (⟨some d⟩, a.pending)) ∨
    ((Text.normalize line).isEmpty = false ∧ Diagnostic.ofHeader? (Text.normalize line) = none ∧
      a.push line =
        (⟨a.pending.map fun d => { d with lines := d.lines ++ [Text.normalize line] }⟩, none)) := by
  unfold push
  by_cases h : (Text.normalize line).isEmpty
  · exact .inl ⟨h, if_pos h⟩
  · simp only [Bool.not_eq_true] at h
    simp only [h, Bool.false_eq_true, if_false]
    cases hd : Diagnostic.ofHeader? (Text.normalize line) with
    | some d => exact .inr (.inl ⟨trivial, d, rfl, rfl⟩)
    | none => exact .inr (.inr ⟨trivial, rfl, rfl⟩)

/-- What every header has and every extension, which is no header, keeps. -/
structure Lasting (P : Diagnostic → Prop) : Prop where
  header : ∀ {text : String} {d : Diagnostic}, Diagnostic.ofHeader? text = some d → P d
  extend : ∀ {d : Diagnostic} {text : String}, Diagnostic.ofHeader? text = none → P d →
    P { d with lines := d.lines ++ [text] }

variable {P : Diagnostic → Prop}

theorem Lasting.push (hP : Lasting P) (ha : ∀ d ∈ a.pending, P d) (line : String) :
    (∀ d ∈ (a.push line).1.pending, P d) ∧ ∀ d ∈ (a.push line).2, P d := by
  rcases a.push_cases line with ⟨-, hp⟩ | ⟨-, d, hd, hp⟩ | ⟨-, hno, hp⟩ <;> rw [hp]
  · refine ⟨ha, ?_⟩
    intro d hd
    cases hd
  · refine ⟨?_, ha⟩
    intro d' hd'
    cases hd'
    exact hP.header hd
  · refine ⟨?_, ?_⟩
    · intro d hd
      obtain ⟨d', hd', rfl⟩ := Option.map_eq_some_iff.1 hd
      exact hP.extend hno (ha d' hd')
    · intro d hd
      cases hd

theorem Lasting.pushAll (hP : Lasting P) (ha : ∀ d ∈ a.pending, P d) (lines : List String) :
    (∀ d ∈ (a.pushAll lines).1.pending, P d) ∧ ∀ d ∈ (a.pushAll lines).2, P d := by
  induction lines generalizing a with
  | nil =>
    refine ⟨ha, ?_⟩
    intro d hd
    cases hd
  | cons line lines ih =>
    obtain ⟨hopen, hclosed⟩ := hP.push ha line
    obtain ⟨hopen', hrest⟩ := ih hopen
    refine ⟨hopen', ?_⟩
    intro d hd
    rcases List.mem_append.1 hd with hd | hd
    · exact hclosed d (Option.mem_toList.1 hd)
    · exact hrest d hd

end Assembly

namespace Diagnostic

/-- **What lasts holds of all diagnostics of an output.** -/
theorem forall_mem_ofLines {P : Diagnostic → Prop} (hP : Assembly.Lasting P) (lines : List String) :
    ∀ d ∈ ofLines lines, P d := by
  have hempty : ∀ d ∈ Assembly.empty.pending, P d := by
    intro d hd
    cases hd
  obtain ⟨hopen, hclosed⟩ := hP.pushAll hempty lines
  intro d hd
  rcases List.mem_append.1 hd with hd | hd
  · exact hclosed d hd
  · exact hopen d (Option.mem_toList.1 hd)

/-! ### Codes -/

theorem codeDigits?_of_splitHeader? {cs path code : List Char}
    (h : splitHeader? cs = some (path, code)) : ∃ ds, codeDigits? code = some ds := by
  induction cs generalizing path with
  | nil => cases h
  | cons c cs ih =>
    rw [splitHeader?] at h
    split at h
    · rename_i path' code' hrest
      cases h
      exact ih hrest
    · obtain ⟨code', hcode, heq⟩ := Option.map_eq_some_iff.1 h
      cases heq
      obtain ⟨position, -, hword⟩ := Option.bind_eq_some_iff.1 hcode
      obtain ⟨rest, -, hlead⟩ := Option.bind_eq_some_iff.1 hword
      exact codeDigits?_of_leadingCode? hlead

theorem isErrorCode_of_ofHeader? {text : String} {d : Diagnostic} (h : ofHeader? text = some d) :
    isErrorCode d.code := by
  unfold ofHeader? at h
  split at h
  · cases h
  · obtain ⟨⟨path, code⟩, hsplit, rfl⟩ := Option.map_eq_some_iff.1 h
    obtain ⟨ds, hds⟩ := codeDigits?_of_splitHeader? hsplit
    simp only [isErrorCode, String.toList_ofList, hds, Option.isSome_some]

theorem isErrorCode_of_mem_ofLines {lines : List String} {d : Diagnostic} (h : d ∈ ofLines lines) :
    isErrorCode d.code :=
  forall_mem_ofLines ⟨isErrorCode_of_ofHeader?, fun _ hd => hd⟩ lines d h

end Diagnostic

end DiagnosticGate
