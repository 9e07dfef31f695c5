import DiagnosticGate.Proofs.Consistency
import DiagnosticGate.Proofs.Revision
import DiagnosticGate.Proofs.Watching

/-!
The verdict of a compilation.

The lists by which a compilation is judged are those at its beginning. A report passes exactly if
every diagnostic has a listed code and a covered file and every entry covers one; an update passes
exactly if every diagnostic has a listed code and no write that is tried fails. Codes that did not
occur fail neither.
-/

namespace DiagnosticGate

open Storage

theorem AllowLists.Revised.agrees_files {lists next : AllowLists} {ds : List Diagnostic}
    (h : lists.Revised ds next)
    (hused : ∀ t ∈ lists.files.entries, ∃ d ∈ ds, Coverage.TextCovers t d.file)
    (hcovered : ∀ d ∈ ds, lists.files.Covers d.file) : lists.files.agrees next.files := by
  refine AllowList.agrees_iff.2 fun t => ?_
  rw [h.files]
  constructor
  · exact fun ht => .inl ⟨ht, hused t ht⟩
  · rintro (⟨ht, -⟩ | ⟨d, hd, -, hno, -⟩)
    · exact ht
    · exact absurd (hcovered d hd) hno

/-- The writes of such an update fail only if the list of codes cannot be saved. -/
theorem saveTexts_of_saveAll_codes {σ : Type} [TextFiles σ] {files : σ} {settings : Settings}
    {lists next : AllowLists} (hfiles : lists.files.agrees next.files)
    (hfail : (saveAll files (lists.writes settings next)).verdict ≠ .pass) :
    ∃ texts e, saveTexts files settings.codesPath texts = .error e := by
  rw [AllowLists.writes, AllowList.write, AllowList.write, if_pos hfiles, List.nil_append] at hfail
  split at hfail
  · exact absurd rfl hfail
  · cases hs : saveTexts files settings.codesPath next.codes.sorted with
    | error e => exact ⟨_, e, hs⟩
    | ok after =>
      simp only [saveAll, hs] at hfail
      exact absurd rfl hfail

namespace Gate

/-! ### The compilation that is open -/

section

variable {σ : Type} {g : Gate σ}

/-- the diagnostics of the open compilation, with the one that is not closed yet -/
def diagnostics (g : Gate σ) : List Diagnostic := g.findings.all ++ g.assembly.pending.toList

theorem Collected.diagnostics {lines : List String} (h : g.Collected lines) :
    g.diagnostics = Diagnostic.ofLines lines := by
  obtain ⟨fresh, -, hj⟩ := h.judged
  have hall : g.findings.all = (Assembly.empty.pushAll lines).2 := by
    rw [← @Judged.all_ofList g.settings.init g.lists.codes fresh (Assembly.empty.pushAll lines).2,
      ← hj]
    rfl
  rw [Gate.diagnostics, hall, h.assembly]
  rfl

end

section

variable {σ : Type} [TextFiles σ] {g : Gate σ} {c : Completion σ}

/-- The calls that end a compilation: the end of the input outside of watch mode, and a line that is
answered with a verdict. -/
inductive Ends (g : Gate σ) : Completion σ → Prop
  | finish (h : g.watch.active = false) : Ends g g.finish
  | line (raw : String) (verdict : Verdict) (h : (g.line raw).verdict = some verdict) :
    Ends g ⟨(g.line raw).gate, (g.line raw).events, verdict⟩

theorem Ends.eq_endCompilation (h : g.Ends c) : c = g.endCompilation := by
  cases h with
  | finish h => exact finish_of_idle h
  | line raw verdict h =>
    rcases g.line_cases raw with ⟨-, hl⟩ | ⟨-, -, hl⟩ | ⟨-, -, -, hl⟩ | ⟨-, -, -, hl⟩ <;>
      rw [hl] at h <;> cases h
    rw [hl]

theorem frame_line_of_unanswered {raw : String} (h : (g.line raw).verdict = none) :
    (g.line raw).gate.files = g.files ∧ (g.line raw).gate.lists = g.lists := by
  rcases g.line_cases raw with ⟨-, hl⟩ | ⟨-, -, hl⟩ | ⟨-, -, -, hl⟩ | ⟨-, -, -, hl⟩
  · rw [hl]
    exact ⟨rfl, rfl⟩
  · rw [hl]
    exact ⟨rfl, rfl⟩
  · rw [hl] at h
    cases h
  · obtain ⟨assembly, coverage, findings, hframe⟩ := g.read_frame (Text.normalize raw)
    rw [hl]
    simp only [hframe]
    exact ⟨trivial, trivial⟩

/-- **The lists of a compilation are those at its beginning.** -/
theorem frame_lines_of_unanswered {raws : List String} (h : ∀ v ∈ g.answers raws, v = none) :
    (g.lines raws).1.files = g.files ∧ (g.lines raws).1.lists = g.lists := by
  induction raws generalizing g with
  | nil => exact ⟨rfl, rfl⟩
  | cons raw rest ih =>
    obtain ⟨hfirst, hrest⟩ := List.forall_mem_cons.1 h
    obtain ⟨hfiles, hlists⟩ := frame_line_of_unanswered hfirst
    obtain ⟨hfiles', hlists'⟩ := ih hrest
    exact ⟨hfiles'.trans hfiles, hlists'.trans hlists⟩

/-- **What decides a compilation.** Where lists are not to be made, let lines that end no compilation
be fed to any gate that a run leads to, and then let a call end one. Without diagnostics it passes
and saves nothing. A report passes if and only if all codes are listed, all files are covered and
every entry covers one. An update saves the lists that it changes, and passes if and only if all
codes are listed and no write fails. If nothing but codes that did not occur is amiss, it fails only
where these are taken out and the list of codes cannot be saved. -/
theorem verdict_of_compilation {files : σ} {settings : Settings} {g₀ : Gate σ}
    {events : List Event} {raws : List String} (h : (start files settings).2 = .ok g₀)
    (hi : settings.init = false) (hrun : Run g₀ events g)
    (hopen : ∀ v ∈ g.answers raws, v = none) (hends : (g.lines raws).1.Ends c) :
    let ds := (g.lines raws).1.diagnostics
    (ds = [] → c.verdict = .pass ∧ c.gate.files = g.files ∧ messagesOf c.events = [.noErrors]) ∧
    (ds ≠ [] → settings.autoUpdate = false → (c.verdict = .pass ↔
      (∀ d ∈ ds, d.code ∈ g.lists.codes.entries) ∧
      (∀ t ∈ g.lists.files.entries, ∃ d ∈ ds, Coverage.TextCovers t d.file) ∧
      ∀ d ∈ ds, g.lists.files.Covers d.file)) ∧
    (ds ≠ [] → settings.autoUpdate → ∃ wanted, g.lists.Revised ds wanted ∧
      c.gate.files = (saveAll g.files (g.lists.writes settings wanted)).files ∧
      (c.verdict = .pass ↔ (∀ d ∈ ds, d.code ∈ g.lists.codes.entries) ∧
        (saveAll g.files (g.lists.writes settings wanted)).verdict = .pass)) ∧
    ((∀ d ∈ ds, d.code ∈ g.lists.codes.entries) →
      (∀ t ∈ g.lists.files.entries, ∃ d ∈ ds, Coverage.TextCovers t d.file) →
      (∀ d ∈ ds, g.lists.files.Covers d.file) → c.verdict = .fail →
      settings.autoUpdate ∧ ∃ texts e, saveTexts g.files settings.codesPath texts = .error e) := by
  intro ds
  obtain ⟨lines, hcollected⟩ := (collected_start h).run (hrun.lines raws)
  have hsettings := ((kept_start h).run (hrun.lines raws)).settings
  obtain ⟨hfiles, hlists⟩ := frame_lines_of_unanswered hopen
  have hout := hcollected.outcome_endCompilation
  rw [hsettings, hfiles, hlists, ← hends.eq_endCompilation] at hout
  have hds : Diagnostic.ofLines lines = ds := hcollected.diagnostics.symm
  have hnone : ds = [] → c.verdict = .pass ∧ c.gate.files = g.files ∧
      messagesOf c.events = [.noErrors] := by
    intro hnil
    have heq := Outcome.eq_of_no_diagnostics hout (hds.trans hnil)
    exact ⟨congrArg Outcome.verdict heq, congrArg Outcome.files heq, congrArg Outcome.messages heq⟩
  have hreport : ds ≠ [] → settings.autoUpdate = false → (c.verdict = .pass ↔
      (∀ d ∈ ds, d.code ∈ g.lists.codes.entries) ∧
      (∀ t ∈ g.lists.files.entries, ∃ d ∈ ds, Coverage.TextCovers t d.file) ∧
      ∀ d ∈ ds, g.lists.files.Covers d.file) := by
    intro hne hu
    exact hds ▸ (Outcome.of_report hout (hds ▸ hne) hi hu).2.2
  have hupdate : ds ≠ [] → settings.autoUpdate → ∃ wanted, g.lists.Revised ds wanted ∧
      c.gate.files = (saveAll g.files (g.lists.writes settings wanted)).files ∧
      (c.verdict = .pass ↔ (∀ d ∈ ds, d.code ∈ g.lists.codes.entries) ∧
        (saveAll g.files (g.lists.writes settings wanted)).verdict = .pass) := by
    intro hne hu
    obtain ⟨wanted, hrevised, hleft, -, hverdict⟩ := Outcome.of_update hout (hds ▸ hne) hi hu
    obtain ⟨hsaved, hpassed⟩ := writeLists_eq_saveAll g.files settings g.lists wanted
    rw [hsaved] at hleft
    rw [hpassed] at hverdict
    exact ⟨wanted, hds ▸ hrevised, hleft, hds ▸ hverdict⟩
  refine ⟨hnone, hreport, hupdate, ?_⟩
  -- the lists fit but for codes that did not occur, so only a write can have failed
  intro hcodes hused hcovered hfail
  have hno : ¬ c.verdict = .pass := Verdict.eq_fail_iff.1 hfail
  by_cases hne : ds = []
  · exact absurd (hnone hne).1 hno
  cases hu : settings.autoUpdate with
  | false => exact absurd ((hreport hne hu).2 ⟨hcodes, hused, hcovered⟩) hno
  | true =>
    obtain ⟨wanted, hrevised, -, hverdict⟩ := hupdate hne hu
    refine ⟨rfl, saveTexts_of_saveAll_codes (hrevised.agrees_files hused hcovered) ?_⟩
    intro hsaved
    exact hno (hverdict.2 ⟨hcodes, hsaved⟩)

end

/-- In a second compilation under a list that the first has changed, only a code that did not occur
is amiss. -/
theorem verdict_of_compilation_stale_code :
    ∃ (g₀ : Gate Memory) (events : List Event) (g : Gate Memory) (c : Completion Memory),
      (start (Memory.ofLists ["TS2322", "TS7006"] ["lib/*.ts"] ["c"]) ⟨"c", "f", false, true⟩).2 =
        .ok g₀ ∧ Run g₀ events g ∧ g.lists.files.entries = ["src/a.ts"] ∧
      (g.lines ["src/a.ts(2,2): error TS2322: m"]).1.Ends c ∧ c.verdict = .fail ∧
      ∃ wanted, g.lists.Revised (g.lines ["src/a.ts(2,2): error TS2322: m"]).1.diagnostics wanted ∧
        (saveAll g.files (g.lists.writes ⟨"c", "f", false, true⟩ wanted)).verdict ≠ .pass := by
  have hrun : ((start (Memory.ofLists ["TS2322", "TS7006"] ["lib/*.ts"] ["c"])
      ⟨"c", "f", false, true⟩).2.map fun g₀ =>
        let g := (g₀.lines [WatchMode.startMarker, "src/a.ts(1,1): error TS2322: m",
          WatchMode.finishedMarker]).1
        let last := (g.lines ["src/a.ts(2,2): error TS2322: m"]).1
        ([g.lists.files.entries, g.lists.codes.entries, last.diagnostics.map (·.code)],
          g.answers ["src/a.ts(2,2): error TS2322: m"],
          (last.line WatchMode.finishedMarker).verdict)) =
      .ok ([["src/a.ts"], ["TS2322", "TS7006"], ["TS2322"]], [none], some .fail) := by
    decide +kernel
  obtain ⟨g₀, hstart, heq⟩ := exists_of_map_eq_ok hrun
  simp only [Prod.mk.injEq, List.cons.injEq, and_true] at heq
  obtain ⟨⟨hfiles, hcodes, hds⟩, hanswers, hverdict⟩ := heq
  have hlines : Run g₀ _ _ := Run.start.lines [WatchMode.startMarker,
    "src/a.ts(1,1): error TS2322: m", WatchMode.finishedMarker]
  obtain ⟨-, -, hupdate, -⟩ := verdict_of_compilation hstart rfl hlines
    (by simp [hanswers]) (.line WatchMode.finishedMarker .fail hverdict)
  obtain ⟨wanted, hrevised, -, hpass⟩ := hupdate (by rintro hnil; simp [hnil] at hds) rfl
  refine ⟨g₀, _, _, _, hstart, hlines, hfiles, .line _ _ hverdict, rfl, wanted, hrevised, ?_⟩
  intro hsaved
  have hlisted := hpass.2 ⟨?_, hsaved⟩
  · cases hlisted
  · intro d hd
    have hcode := List.mem_map_of_mem (f := fun d => d.code) hd
    rw [hds, List.mem_singleton] at hcode
    rw [hcodes, hcode]
    exact List.mem_cons_self

end Gate

end DiagnosticGate
