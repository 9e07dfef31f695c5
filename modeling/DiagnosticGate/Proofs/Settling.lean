import DiagnosticGate.Proofs.Persistence
import DiagnosticGate.Proofs.Revision
import DiagnosticGate.Proofs.SingleShot

/-!
Updating once is enough.

An update takes out what is not in use and adds what is missing, and neither undoes the other: an
entry is kept because it covers a file, a file that is added covers itself, and a file whose entry is
taken out was not covered by it. So lists that were updated from an output are settled for it, and
checking the output against them asks for no further change.
-/

namespace DiagnosticGate

open Storage

namespace AllowLists

/-- Nothing of `lists` is to be changed for the diagnostics `ds`: all codes occur, all entries are in
use, and all files of diagnostics whose code is listed are covered. -/
structure Settled (lists : AllowLists) (ds : List Diagnostic) : Prop where
  codes : ∀ c ∈ lists.codes.entries, ∃ d ∈ ds, d.code = c
  files : ∀ t ∈ lists.files.entries, ∃ d ∈ ds, Coverage.TextCovers t d.file
  covered : ∀ d ∈ ds, d.code ∈ lists.codes.entries → lists.files.Covers d.file

variable {lists lists' next : AllowLists} {ds : List Diagnostic}

theorem Settled.congr (h : lists.Settled ds) (ha : lists.agrees lists') : lists'.Settled ds := by
  obtain ⟨hcodes, hfiles⟩ := agrees_iff.1 ha
  refine ⟨?_, ?_, ?_⟩
  · exact fun c hc => h.codes c ((AllowList.agrees_iff.1 hcodes c).2 hc)
  · exact fun t ht => h.files t ((AllowList.agrees_iff.1 hfiles t).2 ht)
  · intro d hd hc
    exact (AllowList.covers_congr hfiles).1
      (h.covered d hd ((AllowList.agrees_iff.1 hcodes d.code).2 hc))

/-- **An update settles the lists**, unless a file that it adds is a glob. -/
theorem Revised.settled (h : lists.Revised ds next)
    (hplain : ∀ d ∈ ds, d.code ∈ lists.codes.entries → isGlob d.file = false) : next.Settled ds := by
  refine ⟨fun c hc => ((h.codes c).1 hc).2, ?_, ?_⟩
  · intro t ht
    rcases (h.files t).1 ht with ⟨-, hused⟩ | ⟨d, hd, hc, -, rfl⟩
    · exact hused
    · exact ⟨d, hd, Coverage.textCovers_self (hplain d hd hc)⟩
  · intro d hd hc
    have hlisted := ((h.codes d.code).1 hc).1
    by_cases hcov : lists.files.Covers d.file
    · -- the entry that covers the file is in use, and so it is kept
      obtain ⟨t, ht, hcovers⟩ := hcov
      exact ⟨t, (h.files t).2 (.inl ⟨ht, d, hd, hcovers⟩), hcovers⟩
    · exact ⟨d.file, (h.files d.file).2 (.inr ⟨d, hd, hlisted, hcov, rfl⟩),
        Coverage.textCovers_self (hplain d hd hlisted)⟩

theorem Revised.exists_unlisted_iff (h : lists.Revised ds next) :
    (∃ d ∈ ds, d.code ∉ next.codes.entries) ↔ ∃ d ∈ ds, d.code ∉ lists.codes.entries := by
  refine exists_congr fun d => and_congr_right fun hd => not_congr ?_
  rw [h.codes]
  exact and_iff_left ⟨d, hd, rfl⟩

end AllowLists

/-- whether a message tells of a change of the lists, due or made, or of a fault in them -/
def Message.concernsLists : Message → Bool
  | noErrors | detected _ | ignored _ | notIgnored _ | validErrors _ | validError _ => false
  | _ => true

theorem concernsLists_of_summary {split : Findings.Split} {m : Message}
    (h : m ∈ Gate.summary split) : m.concernsLists = false := by
  unfold Gate.summary at h
  split at h
  · simp only [List.append_nil, List.mem_cons, List.not_mem_nil, or_false] at h
    rcases h with rfl | rfl <;> rfl
  · simp only [List.cons_append, List.nil_append, List.mem_cons, List.not_mem_nil, or_false] at h
    rcases h with rfl | rfl | rfl <;> rfl

theorem concernsLists_of_reportValid {ds : List Diagnostic} {m : Message}
    (h : m ∈ (reportValid ds).messages) : m.concernsLists = false := by
  unfold reportValid at h
  split at h
  · cases h
  · rcases List.mem_cons.1 h with rfl | h
    · rfl
    · obtain ⟨d, -, rfl⟩ := List.mem_map.1 h
      rfl

theorem AllowLists.Settled.resolve {lists : AllowLists} {fresh : Coverage} {ds : List Diagnostic}
    (hs : lists.Settled ds) (h : Coverage.ofTexts lists.files.entries = .ok fresh) (apply : Bool) :
    let j := Judged.ofList false lists.codes fresh ds
    DiagnosticGate.resolve apply j.findings.split j.coverage lists =
      ⟨(reportValid j.findings.valid).verdict, (reportValid j.findings.valid).messages, lists⟩ := by
  intro j
  rw [Findings.split_eq]
  refine resolve_of_settled ?_ ?_ ?_
  · rw [Judged.all_ofList, staleCodes_eq_nil_iff]
    exact hs.codes
  · rw [Judged.coverage_ofList, if_neg Bool.false_ne_true, unused_countAll_files_eq_nil_iff h]
    exact hs.files
  · rw [promotable_ofList_eq_nil_iff]
    exact fun d hd hc => (Coverage.covers_ofTexts_iff h).2 (hs.covered d hd hc)

namespace Outcome

variable {σ : Type} [TextFiles σ] {files : σ} {settings : Settings} {lists : AllowLists}
variable {lines : List String} {o : Outcome σ}

/-- **Under settled lists** nothing is saved, no change is told, and only errors whose code is not
listed fail the compilation. -/
theorem of_settled (h : ofLines files settings lists lines = .ok o) (hi : settings.init = false)
    (hs : Diagnostic.ofLines lines ≠ [] → lists.Settled (Diagnostic.ofLines lines)) :
    o.files = files ∧ (∀ m ∈ o.messages, m.concernsLists = false) ∧
      (o.verdict = .fail ↔ ∃ d ∈ Diagnostic.ofLines lines, d.code ∉ lists.codes.entries) := by
  by_cases hds : Diagnostic.ofLines lines = []
  · rw [eq_of_no_diagnostics h hds, hds]
    simp [Message.concernsLists]
  obtain ⟨fresh, hfresh, rfl⟩ := ofLines_eq_ok h
  have hstep := (hs hds).resolve hfresh settings.autoUpdate
  have hall : (Judged.ofList settings.init lists.codes fresh
      (Diagnostic.ofLines lines)).findings.all ≠ [] := by
    rwa [Judged.all_ofList]
  rw [hi] at hall ⊢
  rw [ofJudged_of_unchanged hall hi (by rw [hstep]), hstep]
  refine ⟨rfl, ?_, ?_⟩
  · intro m hm
    rcases List.mem_append.1 hm with hm | hm
    · exact concernsLists_of_summary hm
    · exact concernsLists_of_reportValid hm
  · rw [Verdict.eq_fail_iff, verdict_reportValid, valid_ofList_eq_nil_iff]
    push Not
    rfl

/-- **An update that is not hindered revises the lists**, unless an added file is a glob. Without
diagnostics it leaves them. -/
theorem lists_of_update (h : ofLines files settings lists lines = .ok o)
    (hi : settings.init = false) (hu : settings.autoUpdate) (hw : WritableAt settings.paths files)
    (hplain : ∀ d ∈ Diagnostic.ofLines lines, d.code ∈ lists.codes.entries →
      isGlob d.file = false) :
    (Diagnostic.ofLines lines = [] ∧ o.lists = lists) ∨
      lists.Revised (Diagnostic.ofLines lines) o.lists := by
  by_cases hds : Diagnostic.ofLines lines = []
  · exact .inl ⟨hds, by rw [eq_of_no_diagnostics h hds]⟩
  · obtain ⟨fresh, hfresh, -⟩ := ofLines_eq_ok h
    obtain ⟨wanted, hrevised, -, hlists, -⟩ := of_update h hds hi hu
    have hread := hrevised.ofText (Coverage.exists_ofTexts_iff.1 ⟨fresh, hfresh⟩) hplain
    rw [hlists, hw.persisted_writeLists]
    exact .inr (hrevised.congr lists.agrees_refl (AllowLists.agrees_adopted hread))

end Outcome

namespace Gate

variable {σ : Type} [TextFiles σ] {files : σ} {settings : Settings} {g : Gate σ}
variable {lines : List String}

/-- **One update settles the lists.** Where the lists lie at different paths of a store that is
lawful there and no write at them fails, let an output without the start marker be checked with
updates, such that no diagnostic with a listed code has a glob for its file. Then a gate starts on
the files that this has left, with updates or without. Checking the same output again saves nothing
and tells of no change of the lists, and it fails exactly if the code of some diagnostic was not
listed to begin with. -/
theorem settled_after_update (again : Bool)
    (h : (start files settings).2 = .ok g) (hi : settings.init = false) (hu : settings.autoUpdate)
    (hne : settings.codesPath ≠ settings.filesPath) (hlaw : LawfulAt settings.paths files)
    (hw : WritableAt settings.paths files)
    (hl : ∀ raw ∈ lines, WatchMode.holds WatchMode.startMarker (Text.normalize raw) = false)
    (hplain : ∀ d ∈ Diagnostic.ofLines (lines.map Text.normalize),
      d.code ∈ g.lists.codes.entries → isGlob d.file = false) :
    let left := (g.check lines).gate.files
    ∃ g', (start left { settings with autoUpdate := again }).2 = .ok g' ∧
      (g'.check lines).gate.files = left ∧
      (∀ m ∈ messagesOf (g'.check lines).events, m.concernsLists = false) ∧
      ((g'.check lines).verdict = .fail ↔
        ∃ d ∈ Diagnostic.ofLines (lines.map Text.normalize), d.code ∉ g.lists.codes.entries) := by
  intro left
  have hout := outcome_check_of_idle (idle_start h) (collected_start h) hl
  rw [List.nil_append, files_start h, settings_start h] at hout
  have hstored : Stored files settings g.lists := files_start h ▸ stored_start h hi
  have hleft : Stored left settings (g.check lines).outcome.lists :=
    Outcome.stored hout hi hlaw hne hstored hplain
  have hnext := Outcome.lists_of_update hout hi hu hw hplain
  generalize hds : Diagnostic.ofLines (lines.map Text.normalize) = ds at *
  generalize (g.check lines).outcome.lists = next at hnext hleft
  have hcodes : ∀ c ∈ next.codes.entries, isErrorCode c := by
    intro c hc
    rcases hnext with ⟨-, rfl⟩ | hrevised
    · exact isErrorCode_of_start h c hc
    · exact isErrorCode_of_start h c ((hrevised.codes c).1 hc).1
  have hfiles : ∀ t ∈ next.files.entries, ∃ e, Entry.ofText t = .ok e := by
    rcases hnext with ⟨-, rfl⟩ | hrevised
    · exact ofText_of_start h
    · exact hrevised.ofText (ofText_of_start h) hplain
  have hsettled : ds ≠ [] → next.Settled ds := by
    rcases hnext with ⟨hnil, -⟩ | hrevised
    · exact fun hne => absurd hnil hne
    · exact fun _ => hrevised.settled hplain
  have hunlisted : (∃ d ∈ ds, d.code ∉ next.codes.entries) ↔
      ∃ d ∈ ds, d.code ∉ g.lists.codes.entries := by
    rcases hnext with ⟨-, rfl⟩ | hrevised
    · exact Iff.rfl
    · exact hrevised.exists_unlisted_iff
  obtain ⟨g', hstart, hagrees⟩ := @start_of_stored σ _ left { settings with autoUpdate := again } next
    ⟨hleft.codes, hleft.files⟩ hi hcodes hfiles
  have hout' := outcome_check_of_idle (idle_start hstart) (collected_start hstart) hl
  rw [List.nil_append, files_start hstart, settings_start hstart] at hout'
  obtain ⟨hkept, hsilent, hverdict⟩ := Outcome.of_settled hout' hi
    (hds ▸ fun hne => (hsettled hne).congr hagrees)
  refine ⟨g', hstart, hkept, hsilent, hverdict.trans ?_⟩
  rw [hds, ← hunlisted]
  simp only [AllowList.agrees_iff.1 (AllowLists.agrees_iff.1 hagrees).1]

/-- an output with a covered file, a file to be added, and an error that no list allows -/
def strayOutput : List String :=
  ["src/a.ts(1,1): error TS2322: m", "lib/b.ts(2,2): error TS2322: m",
    "lib/\x7bb.ts(3,3): error TS1234: m"]

/-- The update takes out a code and an entry and adds an entry. Behind it the error that no list allows
still fails, and nothing is saved. -/
theorem settled_after_update_stray :
    ∃ g g' : Gate Memory,
      (start (Memory.ofLists ["TS7006", "TS2322"] ["old.ts", "src/*.ts"] []) ⟨"c", "f", false, true⟩).2 =
        .ok g ∧
      (g.check strayOutput).gate.lists.files.entries = ["src/*.ts", "lib/b.ts"] ∧
      (start (g.check strayOutput).gate.files ⟨"c", "f", false, false⟩).2 = .ok g' ∧
      (g'.check strayOutput).verdict = .fail ∧
      (g'.check strayOutput).gate.files = (g.check strayOutput).gate.files := by
  have hrun : ((start (Memory.ofLists ["TS7006", "TS2322"] ["old.ts", "src/*.ts"] [])
      ⟨"c", "f", false, true⟩).2.map fun g =>
        (g.lists.codes.entries, (g.check strayOutput).gate.lists.files.entries)) =
      .ok (["TS7006", "TS2322"], ["src/*.ts", "lib/b.ts"]) := by decide +kernel
  have hunmarked : ∀ raw ∈ strayOutput,
      WatchMode.holds WatchMode.startMarker (Text.normalize raw) = false := by decide +kernel
  have hplain : ∀ d ∈ Diagnostic.ofLines (strayOutput.map Text.normalize),
      d.code ∈ ["TS7006", "TS2322"] → isGlob d.file = false := by decide +kernel
  have hstray : ∃ d ∈ Diagnostic.ofLines (strayOutput.map Text.normalize),
      d.code ∉ ["TS7006", "TS2322"] := by decide +kernel
  obtain ⟨g, hstart, heq⟩ := exists_of_map_eq_ok hrun
  obtain ⟨hcodes, hfiles⟩ := Prod.mk.inj heq
  rw [← hcodes] at hplain hstray
  obtain ⟨g', hstart', hleft, -, hverdict⟩ := settled_after_update false hstart rfl rfl (by decide)
    (Memory.lawfulAt _ _) (Memory.writableAt rfl _) hunmarked hplain
  exact ⟨g, g', hstart, hfiles, hstart', hverdict.2 hstray, hleft⟩

end Gate

end DiagnosticGate
