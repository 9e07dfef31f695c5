import DiagnosticGate.Message
import DiagnosticGate.Verdict

/-!
One compilation against the allow-lists.

Four steps run in a fixed order, each on what the one before has left of the lists: codes that did
not occur, entries that covered nothing, files that could be listed, and errors that remain. A step
reports what it finds. If changes are to be applied it changes the lists; otherwise, but for the
codes, it fails the compilation. Errors that remain always do.
-/

namespace DiagnosticGate

/-- the outcome of a step: the verdict, the messages and what became of `α` -/
structure Step (α : Type) where
  verdict : Verdict
  messages : List Message
  result : α

/-- the codes that no diagnostic has -/
def staleCodes (diagnostics : List Diagnostic) (codes : AllowList) : List String :=
  codes.entries.filter fun c => !(diagnostics.map (·.code)).contains c

/-- takes out the codes that did not occur; never fails -/
def dropStaleCodes (apply : Bool) (diagnostics : List Diagnostic) (codes : AllowList) :
    Step AllowList :=
  let stale := staleCodes diagnostics codes
  if stale.isEmpty then ⟨.pass, [], codes⟩
  else if apply then
    ⟨.pass, [.staleCodes stale, .staleCodeList stale, .willUpdate], codes.eraseAll stale⟩
  else ⟨.pass, [.staleCodes stale, .staleCodeList stale, .updateHint], codes⟩

/-- takes out the entries that covered nothing -/
def dropUnusedFiles (apply : Bool) (coverage : Coverage) (files : AllowList) : Step AllowList :=
  let unused := coverage.unused
  if unused.isEmpty then ⟨.pass, [], files⟩
  else if apply then
    ⟨.pass, [.unusedFiles true unused, .unusedFileList true unused, .willUpdate],
      files.eraseAll unused⟩
  else ⟨.fail, [.unusedFiles false unused, .unusedFileList false unused, .updateHint], files⟩

/-- adds the files of diagnostics whose code is listed -/
def promoteFiles (apply : Bool) (promotable : List Diagnostic) (files : AllowList) :
    Step AllowList :=
  if promotable.isEmpty then ⟨.pass, [], files⟩
  else
    let report := .promotable apply promotable.length ::
      promotable.map (Message.promotableError apply)
    if apply then
      ⟨.pass, report ++ [.willUpdate], files.insertAll (promotable.map (·.file))⟩
    else ⟨.fail, report ++ [.promoteHint], files⟩

/-- reports the errors that remain -/
def reportValid (valid : List Diagnostic) : Step Unit :=
  if valid.isEmpty then ⟨.pass, [], ()⟩
  else ⟨.fail, .validErrors valid.length :: valid.map .validError, ()⟩

/-- all four steps -/
def resolve (apply : Bool) (split : Findings.Split) (coverage : Coverage) (lists : AllowLists) :
    Step AllowLists :=
  let codes := dropStaleCodes apply split.all lists.codes
  let unused := dropUnusedFiles apply coverage lists.files
  let files := promoteFiles apply split.promotable unused.result
  let valid := reportValid split.valid
  { verdict := codes.verdict ||| unused.verdict ||| files.verdict ||| valid.verdict
    messages := codes.messages ++ unused.messages ++ files.messages ++ valid.messages
    result := ⟨codes.result, files.result⟩ }

theorem result_resolve_false (split : Findings.Split) (coverage : Coverage) (lists : AllowLists) :
    (resolve false split coverage lists).result = lists := by
  have hc : (dropStaleCodes false split.all lists.codes).result = lists.codes := by
    simp only [dropStaleCodes]; split <;> rfl
  have hu : (dropUnusedFiles false coverage lists.files).result = lists.files := by
    simp only [dropUnusedFiles]; split <;> rfl
  have hp : ∀ fs, (promoteFiles false split.promotable fs).result = fs := by
    intro fs; simp only [promoteFiles]; split <;> rfl
  simp [resolve, hc, hu, hp]

theorem verdict_dropStaleCodes (apply : Bool) (ds : List Diagnostic) (codes : AllowList) :
    (dropStaleCodes apply ds codes).verdict = .pass := by
  simp only [dropStaleCodes]
  split
  · rfl
  · split <;> rfl

end DiagnosticGate
