import DiagnosticGate.Proofs.Collecting

/-!
Starting a gate.

A gate that starts holds the lists that were read, and it has collected nothing. All codes of its
list are error codes.
-/

namespace DiagnosticGate.Gate

open Storage

variable {σ : Type} {files : σ} {settings : Settings} {g : Gate σ}

theorem exists_of_map_eq_ok {ε α β : Type} {r : Except ε α} {f : α → β} {b : β}
    (h : r.map f = .ok b) : ∃ a, r = .ok a ∧ f a = b := by
  cases r with
  | error e => cases h
  | ok a =>
    cases h
    exact ⟨a, rfl, rfl⟩

theorem malformedCodes_eq_nil_iff {codes : List String} :
    malformedCodes codes = [] ↔ ∀ c ∈ codes, isErrorCode c := by
  simp [malformedCodes]

/-- the gate that starts on `lists`, with the coverage of their files -/
def fresh (files : σ) (settings : Settings) (lists : AllowLists) (coverage : Coverage) : Gate σ :=
  ⟨settings, files, lists, coverage, .empty, .empty, .idle, .pass⟩

theorem ofLists_eq_ok_iff {lists : AllowLists} :
    (ofLists files settings lists).2 = .ok g ↔
      malformedCodes lists.codes.entries = [] ∧
        ∃ coverage, Coverage.ofTexts lists.files.entries = .ok coverage ∧
          g = fresh files settings lists coverage := by
  unfold ofLists
  simp only [List.isEmpty_iff]
  by_cases h : malformedCodes lists.codes.entries = []
  · rw [if_pos h]
    cases hc : Coverage.ofTexts lists.files.entries with
    | ok coverage => simp [h, fresh, eq_comm]
    | error e => simp
  · simp [h]

section

variable [TextFiles σ]

theorem start_of_reads {codes entries : Option (List String)}
    (hc : readTexts files settings.codesPath settings.init = .ok codes)
    (hf : readTexts files settings.filesPath settings.init = .ok entries) :
    (start files settings).2 =
      (ofLists files settings (.ofLists (codes.getD []) (entries.getD []))).2 := by
  unfold start
  simp only [hc, hf, List.append_nil, List.isEmpty_nil, if_true]
  cases codes <;> cases entries <;> rfl

/-- Where the codes can be read and are error codes, a gate goes by them, or it is the list of files
that it does not start on. -/
theorem start_of_codes {codes : List String}
    (hc : readTexts files settings.codesPath settings.init = .ok (some codes))
    (hcodes : ∀ c ∈ codes, isErrorCode c) :
    (∃ g, (start files settings).2 = .ok g ∧ ∀ c, c ∈ g.lists.codes.entries ↔ c ∈ codes) ∨
    (∃ e, readTexts files settings.filesPath settings.init = .error e ∧
      (start files settings).2 = .error (.unreadable [e])) ∨
    ∃ e, (start files settings).2 = .error (.badPattern e) := by
  cases hf : readTexts files settings.filesPath settings.init with
  | error e =>
    refine .inr (.inl ⟨e, rfl, ?_⟩)
    simp [start, hc, hf]
  | ok entries =>
    have hread := start_of_reads hc hf
    have hwell : malformedCodes (AllowList.ofList codes).entries = [] :=
      malformedCodes_eq_nil_iff.2 fun c hmem => hcodes c (AllowList.mem_ofList.1 hmem)
    cases hcov : Coverage.ofTexts (AllowList.ofList (entries.getD [])).entries with
    | ok coverage =>
      refine .inl ⟨_, hread.trans (ofLists_eq_ok_iff.2 ⟨hwell, coverage, hcov, rfl⟩), fun c => ?_⟩
      exact AllowList.mem_ofList
    | error e =>
      refine .inr (.inr ⟨e, hread.trans ?_⟩)
      simp only [ofLists, AllowLists.ofLists, Option.getD_some, hwell, hcov, List.isEmpty_nil, if_true]

theorem reads_of_start (h : (start files settings).2 = .ok g) :
    ∃ codes entries, readTexts files settings.codesPath settings.init = .ok codes ∧
      readTexts files settings.filesPath settings.init = .ok entries := by
  unfold start at h
  cases hc : readTexts files settings.codesPath settings.init with
  | error e => simp [hc] at h
  | ok codes =>
    cases hf : readTexts files settings.filesPath settings.init with
    | error e => simp [hc, hf] at h
    | ok entries => exact ⟨codes, entries, rfl, rfl⟩

/-- **A gate that starts** has read both lists, and is fresh on their members. -/
theorem start_eq_ok (h : (start files settings).2 = .ok g) :
    ∃ codes entries coverage,
      readTexts files settings.codesPath settings.init = .ok codes ∧
      readTexts files settings.filesPath settings.init = .ok entries ∧
      g = fresh files settings (.ofLists (codes.getD []) (entries.getD [])) coverage ∧
      malformedCodes g.lists.codes.entries = [] ∧
      Coverage.ofTexts g.lists.files.entries = .ok coverage := by
  obtain ⟨codes, entries, hc, hf⟩ := reads_of_start h
  rw [start_of_reads hc hf, ofLists_eq_ok_iff] at h
  obtain ⟨hm, coverage, hcov, rfl⟩ := h
  exact ⟨codes, entries, coverage, hc, hf, rfl, hm, hcov⟩

theorem isErrorCode_of_start (h : (start files settings).2 = .ok g) :
    ∀ c ∈ g.lists.codes.entries, isErrorCode c := by
  obtain ⟨codes, entries, coverage, -, -, -, hm, -⟩ := start_eq_ok h
  exact malformedCodes_eq_nil_iff.1 hm

theorem ofText_of_start (h : (start files settings).2 = .ok g) :
    ∀ t ∈ g.lists.files.entries, ∃ e, Entry.ofText t = .ok e := by
  obtain ⟨codes, entries, coverage, -, -, -, -, hcov⟩ := start_eq_ok h
  exact Coverage.exists_ofTexts_iff.1 ⟨coverage, hcov⟩

theorem collected_start (h : (start files settings).2 = .ok g) : g.Collected [] := by
  obtain ⟨codes, entries, coverage, -, -, rfl, -, hcov⟩ := start_eq_ok h
  exact ⟨rfl, coverage, hcov, rfl⟩

theorem frame_start (h : (start files settings).2 = .ok g) :
    ∃ lists coverage, g = fresh files settings lists coverage := by
  obtain ⟨codes, entries, coverage, -, -, hg, -, -⟩ := start_eq_ok h
  exact ⟨_, coverage, hg⟩

theorem files_start (h : (start files settings).2 = .ok g) : g.files = files := by
  obtain ⟨lists, coverage, rfl⟩ := frame_start h
  rfl

theorem settings_start (h : (start files settings).2 = .ok g) : g.settings = settings := by
  obtain ⟨lists, coverage, rfl⟩ := frame_start h
  rfl

theorem idle_start (h : (start files settings).2 = .ok g) : g.watch = .idle := by
  obtain ⟨lists, coverage, rfl⟩ := frame_start h
  rfl

end

end DiagnosticGate.Gate
