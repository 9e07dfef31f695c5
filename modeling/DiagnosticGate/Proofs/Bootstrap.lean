import DiagnosticGate.Proofs.Diagnostics
import DiagnosticGate.Proofs.Disk
import DiagnosticGate.Proofs.Quiet
import DiagnosticGate.Proofs.SingleShot
import DiagnosticGate.Proofs.Update

/-!
Making the lists from an output, and checking the same output against them.

The codes that are written are error codes. The paths are written as they are, but an entry of the
list of files with a glob character is read as a glob. So the second check accepts the output
whenever no path holds such a character, and in general exactly if every path is covered by one of
the entries that the paths spell, and covers one as an entry.
-/

namespace DiagnosticGate

open Storage

/-! ### The lists that are made -/

/-- the lists that are made from diagnostics, as they are read back -/
def AllowLists.madeFrom (ds : List Diagnostic) : AllowLists :=
  .ofLists (AllowList.ofList (ds.map (·.code))).sorted (AllowList.ofList (ds.map (·.file))).sorted

section

variable {ds : List Diagnostic}

theorem mem_codes_madeFrom {c : String} :
    c ∈ (AllowLists.madeFrom ds).codes.entries ↔ ∃ d ∈ ds, d.code = c := by
  show c ∈ (AllowList.ofList (AllowList.ofList (ds.map (·.code))).sorted).entries ↔ _
  rw [AllowList.mem_ofList, AllowList.mem_sorted, AllowList.mem_ofList, List.mem_map]

theorem mem_files_madeFrom {t : String} :
    t ∈ (AllowLists.madeFrom ds).files.entries ↔ ∃ d ∈ ds, d.file = t := by
  show t ∈ (AllowList.ofList (AllowList.ofList (ds.map (·.file))).sorted).entries ↔ _
  rw [AllowList.mem_ofList, AllowList.mem_sorted, AllowList.mem_ofList, List.mem_map]

theorem malformedCodes_madeFrom {lines : List String} :
    malformedCodes (AllowLists.madeFrom (Diagnostic.ofLines lines)).codes.entries = [] := by
  refine Gate.malformedCodes_eq_nil_iff.2 fun c hc => ?_
  obtain ⟨d, hd, rfl⟩ := mem_codes_madeFrom.1 hc
  exact Diagnostic.isErrorCode_of_mem_ofLines hd

end

/-- Every reported path is covered by the entry that some reported path spells, and covers some
reported path as an entry. -/
def SelfCovering (ds : List Diagnostic) : Prop :=
  ∀ d ∈ ds, (∃ d' ∈ ds, Coverage.TextCovers d'.file d.file) ∧
    ∃ d' ∈ ds, Coverage.TextCovers d.file d'.file

theorem selfCovering_of_plain {ds : List Diagnostic} (h : ∀ d ∈ ds, isGlob d.file = false) :
    SelfCovering ds := by
  intro d hd
  have hself := Coverage.textCovers_self (h d hd)
  exact ⟨⟨d, hd, hself⟩, d, hd, hself⟩

namespace Gate

/-- Checking `lines` passes, counts every diagnostic as ignored, tells nothing else, and leaves the
store and the lists. -/
def IgnoresAll {σ : Type} [TextFiles σ] (g : Gate σ) (lines : List String) : Prop :=
  (g.check lines).outcome =
    ⟨.pass, [.detected (Diagnostic.ofLines (lines.map Text.normalize)).length,
      .ignored (Diagnostic.ofLines (lines.map Text.normalize)).length], g.files, g.lists⟩

variable {σ : Type} {files : σ} {settings later : Settings} {g : Gate σ} {lines : List String}

theorem ofLists_madeFrom_iff {left : σ} :
    (∃ g', (ofLists left later (.madeFrom (Diagnostic.ofLines lines))).2 = .ok g') ↔
      ∀ d ∈ Diagnostic.ofLines lines, ∃ e, Entry.ofText d.file = .ok e := by
  simp only [ofLists_eq_ok_iff, malformedCodes_madeFrom, true_and]
  constructor
  · rintro ⟨g', coverage, hcov, -⟩ d hd
    exact Coverage.exists_ofTexts_iff.1 ⟨coverage, hcov⟩ d.file (mem_files_madeFrom.2 ⟨d, hd, rfl⟩)
  · intro hall
    have hentries : ∀ t ∈ (AllowLists.madeFrom (Diagnostic.ofLines lines)).files.entries,
        ∃ e, Entry.ofText t = .ok e := by
      intro t ht
      obtain ⟨d, hd, rfl⟩ := mem_files_madeFrom.1 ht
      exact hall d hd
    obtain ⟨coverage, hcov⟩ := Coverage.exists_ofTexts_iff.2 hentries
    exact ⟨_, coverage, hcov, rfl⟩

section

variable [TextFiles σ]

/-- **A check that makes the lists** leaves the store with the lists of all diagnostics. -/
theorem files_check_of_making (h : (start files settings).2 = .ok g) (hi : settings.init)
    (hl : ∀ raw ∈ lines, WatchMode.holds WatchMode.startMarker (Text.normalize raw) = false)
    (hds : Diagnostic.ofLines (lines.map Text.normalize) ≠ []) :
    (g.check lines).gate.files =
      (makeLists files settings (Diagnostic.ofLines (lines.map Text.normalize))).files := by
  obtain ⟨codes, entries, coverage, -, -, -, -, hcov⟩ := start_eq_ok h
  have hout := outcome_check_of_idle (idle_start h) (collected_start h) hl
  have hall : (Judged.ofList true g.lists.codes coverage
      (Diagnostic.ofLines (lines.map Text.normalize))).findings.split.all =
        Diagnostic.ofLines (lines.map Text.normalize) := by
    rw [Findings.split_eq, Judged.all_ofList]
  rw [List.nil_append, Outcome.ofLines, hcov, settings_start h, files_start h, hi] at hout
  simp only [Outcome.ofJudged, hall, hi, List.isEmpty_iff, hds, if_true, if_false] at hout
  have hleft := congrArg Outcome.files (Except.ok.inj hout)
  exact hleft.symm

theorem start_of_making {ds : List Diagnostic} (hlaw : LawfulAt settings.paths files)
    (hne : settings.codesPath ≠ settings.filesPath)
    (hmade : (makeLists files settings ds).verdict = .pass)
    (hc : later.codesPath = settings.codesPath) (hf : later.filesPath = settings.filesPath) :
    (start (makeLists files settings ds).files later).2 =
      (ofLists (makeLists files settings ds).files later (.madeFrom ds)).2 := by
  obtain ⟨hcodes, hfiles⟩ := reads_of_makeLists hlaw hne hmade later.init
  rw [← hc] at hcodes
  rw [← hf] at hfiles
  rw [start_of_reads hcodes hfiles]
  rfl

/-- **A second check against lists made from the same output** ignores all of it exactly if its
paths cover themselves. -/
theorem ignoresAll_madeFrom_iff {left : σ} {g' : Gate σ} (hi : later.init = false)
    (h : (ofLists left later (.madeFrom (Diagnostic.ofLines (lines.map Text.normalize)))).2 = .ok g')
    (hl : ∀ raw ∈ lines, WatchMode.holds WatchMode.startMarker (Text.normalize raw) = false)
    (hds : Diagnostic.ofLines (lines.map Text.normalize) ≠ []) :
    g'.IgnoresAll lines ↔ SelfCovering (Diagnostic.ofLines (lines.map Text.normalize)) := by
  obtain ⟨-, coverage, hcov, rfl⟩ := ofLists_eq_ok_iff.1 h
  have hcol : (fresh left later (.madeFrom (Diagnostic.ofLines (lines.map Text.normalize)))
      coverage).Collected [] := ⟨rfl, coverage, hcov, rfl⟩
  have hout := outcome_check_of_idle rfl hcol hl
  rw [List.nil_append, Outcome.ofLines] at hout
  unfold IgnoresAll SelfCovering
  simp only [fresh, hcov, hi] at hout ⊢
  rw [← Except.ok.inj hout]
  generalize hd : Diagnostic.ofLines (lines.map Text.normalize) = ds at *
  have hall : (Judged.ofList false (AllowLists.madeFrom ds).codes coverage ds).findings.all ≠ [] := by
    rw [Judged.all_ofList]
    exact hds
  have hquiet := @messages_resolve_ofList coverage ds later.autoUpdate (.madeFrom ds) hcov
  simp only [mem_codes_madeFrom, mem_files_madeFrom] at hquiet
  constructor
  · intro heq
    have hlength : (Outcome.ofJudged left later (.madeFrom ds)
        (.ofList false (AllowLists.madeFrom ds).codes coverage ds)).messages.length ≤ 2 := by
      rw [heq]
      exact Nat.le_refl 2
    obtain ⟨-, -, hused, hcovered⟩ := hquiet.1 (Outcome.quiet_of_length_messages hall hi hlength)
    intro d hd
    obtain ⟨t, ⟨d', hd', rfl⟩, hcov'⟩ := hcovered d hd
    exact ⟨⟨d', hd', hcov'⟩, hused d.file ⟨d, hd, rfl⟩⟩
  · intro hcovers
    have hmessages := hquiet.2 ⟨fun c hc => hc, fun d hd => ⟨d, hd, rfl⟩, ?_, ?_⟩
    · rw [Outcome.ofJudged_of_quiet hall hi hmessages, summary_of_ignored]
      intro d hd
      obtain ⟨⟨d', hd', hcov'⟩, -⟩ := hcovers d hd
      refine judge_eq_ignored_iff.2 ⟨?_, mem_codes_madeFrom.2 ⟨d, hd, rfl⟩⟩
      exact (Coverage.covers_ofTexts_iff hcov).2
        ⟨d'.file, mem_files_madeFrom.2 ⟨d', hd', rfl⟩, hcov'⟩
    · rintro t ⟨d, hd, rfl⟩
      exact (hcovers d hd).2
    · intro d hd
      obtain ⟨⟨d', hd', hcov'⟩, -⟩ := hcovers d hd
      exact ⟨d'.file, ⟨d', hd', rfl⟩, hcov'⟩

theorem exists_ignoresAll_madeFrom_iff {left : σ} (hi : later.init = false)
    (hl : ∀ raw ∈ lines, WatchMode.holds WatchMode.startMarker (Text.normalize raw) = false)
    (hds : Diagnostic.ofLines (lines.map Text.normalize) ≠ []) :
    (∃ g', (ofLists left later (.madeFrom (Diagnostic.ofLines (lines.map Text.normalize)))).2 =
        .ok g' ∧ g'.IgnoresAll lines) ↔
      SelfCovering (Diagnostic.ofLines (lines.map Text.normalize)) := by
  constructor
  · rintro ⟨g', hg', hall⟩
    exact (ignoresAll_madeFrom_iff hi hg' hl hds).1 hall
  · intro hcovers
    have hentries : ∀ d ∈ Diagnostic.ofLines (lines.map Text.normalize),
        ∃ e, Entry.ofText d.file = .ok e := by
      intro d hd
      obtain ⟨-, d', -, e, he, -⟩ := hcovers d hd
      exact ⟨e, he⟩
    obtain ⟨g', hg'⟩ := ofLists_madeFrom_iff.2 hentries
    exact ⟨g', hg', (ignoresAll_madeFrom_iff hi hg' hl hds).2 hcovers⟩

/-- **Making the lists and checking again.** Where the lists lie at different paths of a store that
is lawful there and no write at them fails, let an output without the start marker and with some
diagnostic be checked to make the lists, and then be checked against them. The second gate starts if
and only if every reported path is an entry. It starts and ignores every diagnostic, without saving
anything, if and only if the reported paths cover themselves. So it does whenever no reported path
holds a glob character. -/
theorem ignoresAll_after_making (autoUpdate : Bool)
    (h : (start files settings).2 = .ok g) (hi : settings.init)
    (hne : settings.codesPath ≠ settings.filesPath) (hlaw : LawfulAt settings.paths files)
    (hw : WritableAt settings.paths files)
    (hl : ∀ raw ∈ lines, WatchMode.holds WatchMode.startMarker (Text.normalize raw) = false)
    (hds : Diagnostic.ofLines (lines.map Text.normalize) ≠ []) :
    let ds := Diagnostic.ofLines (lines.map Text.normalize)
    let left := (g.check lines).gate.files
    let later := { settings with init := false, autoUpdate }
    ((∃ g', (start left later).2 = .ok g') ↔ ∀ d ∈ ds, ∃ e, Entry.ofText d.file = .ok e) ∧
    ((∃ g', (start left later).2 = .ok g' ∧ g'.IgnoresAll lines) ↔ SelfCovering ds) ∧
    ((∀ d ∈ ds, isGlob d.file = false) → ∃ g', (start left later).2 = .ok g' ∧ g'.IgnoresAll lines) := by
  intro ds left later
  have hleft : left = (makeLists files settings ds).files := files_check_of_making h hi hl hds
  have hstart : (start left later).2 = (ofLists left later (.madeFrom ds)).2 := by
    rw [hleft]
    exact start_of_making hlaw hne (hw.verdict_makeLists ds) rfl rfl
  have hignores := @exists_ignoresAll_madeFrom_iff σ later lines _ left rfl hl hds
  rw [hstart]
  refine ⟨ofLists_madeFrom_iff, hignores, ?_⟩
  intro hplain
  exact hignores.2 (selfCovering_of_plain hplain)

/-- an output about a path with brackets -/
def bracketOutput : List String :=
  ["app/[id]/page.tsx(1,1): error TS2322: m", "src/a.ts:3:4 - error TS7006: n"]

/-- On an empty disk, a path with brackets spells itself as an entry. -/
theorem ignoresAll_after_making_brackets :
    ∃ g g' : Gate Disk,
      (start Disk.empty ⟨"codes.json", "./files.json", true, false⟩).2 = .ok g ∧
      (start (g.check bracketOutput).gate.files ⟨"codes.json", "./files.json", false, true⟩).2 =
        .ok g' ∧
      g'.IgnoresAll bracketOutput := by
  have hrun : ((start Disk.empty ⟨"codes.json", "./files.json", true, false⟩).2.map fun _ => ()) =
      .ok () := by decide +kernel
  have hplain : ∀ raw ∈ bracketOutput,
      WatchMode.holds WatchMode.startMarker (Text.normalize raw) = false := by decide +kernel
  have hds : Diagnostic.ofLines (bracketOutput.map Text.normalize) ≠ [] := by decide +kernel
  have hglob : ∀ d ∈ Diagnostic.ofLines (bracketOutput.map Text.normalize),
      isGlob d.file = false := by decide +kernel
  have hapart : Disk.empty.Apart (Settings.paths ⟨"codes.json", "./files.json", true, false⟩) fun path =>
      if path = "codes.json" then ["tmp", "/", "codes.json"] else ["tmp", "/", "files.json"] := by
    refine ⟨?_, ?_⟩
    · rintro path (rfl | rfl)
      · exact ⟨by decide, by decide, by decide +kernel, by decide +kernel⟩
      · exact ⟨by decide, by decide, by decide +kernel, by decide +kernel⟩
    · rintro path (rfl | rfl) other (rfl | rfl) heq
      · rfl
      · revert heq; decide
      · revert heq; decide
      · rfl
  obtain ⟨g, hstart, -⟩ := exists_of_map_eq_ok hrun
  obtain ⟨-, -, hignores⟩ := ignoresAll_after_making true hstart rfl (by decide)
    hapart.lawfulAt hapart.writableAt hplain hds
  obtain ⟨g', hstart', hall⟩ := hignores hglob
  exact ⟨g, g', hstart, hstart', hall⟩

/-- It is not so that the second check always ignores the output: with a brace in a path that is not
closed, the second gate does not start. -/
theorem not_ignoresAll_after_every_making :
    ¬ ∀ (files : Memory) (settings : Settings) (g : Gate Memory) (lines : List String),
      (start files settings).2 = .ok g → settings.init = true →
      settings.codesPath ≠ settings.filesPath → files.refused = [] →
      (∀ raw ∈ lines, WatchMode.holds WatchMode.startMarker (Text.normalize raw) = false) →
      Diagnostic.ofLines (lines.map Text.normalize) ≠ [] →
      ∃ g', (start (g.check lines).gate.files { settings with init := false }).2 = .ok g' ∧
        g'.IgnoresAll lines := by
  intro hall
  have hrun : ((start (Memory.ofLists [] [] []) ⟨"c", "f", true, false⟩).2.map fun g =>
      (start (g.check ["src/\x7ba.ts(1,1): error TS2322: m"]).gate.files
        ⟨"c", "f", false, false⟩).2.isOk) = .ok false := by decide +kernel
  obtain ⟨g, hstart, hfails⟩ := exists_of_map_eq_ok hrun
  obtain ⟨g', hstart', -⟩ := hall _ _ g ["src/\x7ba.ts(1,1): error TS2322: m"] hstart rfl (by decide)
    rfl (by decide +kernel) (by decide +kernel)
  rw [hstart'] at hfails
  cases hfails

end

end Gate

end DiagnosticGate
