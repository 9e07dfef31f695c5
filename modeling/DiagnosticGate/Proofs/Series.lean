import DiagnosticGate.Proofs.Consistency
import DiagnosticGate.Proofs.Revision
import DiagnosticGate.Proofs.SingleShot
import DiagnosticGate.Proofs.Watching

/-!
Watching, and checking again and again.

A gate that watches keeps its lists from one compilation to the next, in the order in which it has
added to them. A gate of its own for every compilation reads them back in the order of their file.
Both hold the same members whenever a compilation begins, whichever writes have failed before, and so
both come to the same verdicts and the same files.
-/

namespace DiagnosticGate

open Storage

namespace WatchMode

/-- the lines with which a compiler that watches starts, ends a compilation and begins the next -/
structure Frame where
  opening : String
  closing : String
  changing : String
  holds_opening : holds startMarker (Text.normalize opening)
  holds_closing : holds finishedMarker (Text.normalize closing)
  not_holds_closing : holds fileChangeMarker (Text.normalize closing) = false
  holds_changing : holds fileChangeMarker (Text.normalize changing)

/-- the markers by themselves -/
def Frame.bare : Frame where
  opening := startMarker
  closing := finishedMarker
  changing := fileChangeMarker
  holds_opening := by decide +kernel
  holds_closing := by decide +kernel
  not_holds_closing := by decide +kernel
  holds_changing := by decide +kernel

/-- compilations one after the other, with a changed file between any two -/
def Frame.compilations (frame : Frame) (outputs : List (List String)) : List String :=
  [frame.changing].intercalate (outputs.map (· ++ [frame.closing]))

theorem Frame.compilations_singleton (frame : Frame) (output : List String) :
    frame.compilations [output] = output ++ [frame.closing] := List.intercalate_singleton

theorem Frame.compilations_cons_cons (frame : Frame) (output second : List String)
    (rest : List (List String)) : frame.compilations (output :: second :: rest) =
      (output ++ [frame.closing]) ++ frame.changing :: frame.compilations (second :: rest) := by
  simp [compilations]

/-- whether `line` holds a marker -/
def isMarker (line : String) : Bool := holds startMarker line || isBoundary line

theorem heeds_of_not_isMarker (w : WatchMode) {line : String} (h : isMarker line = false) :
    w.heeds line = false := by
  simp only [isMarker, isBoundary, Bool.or_eq_false_iff] at h
  obtain ⟨hs, hf, hc⟩ := h
  simp [heeds, starts, changes, finishes, hs, hf, hc]

end WatchMode

namespace Gate

variable {σ : Type} [TextFiles σ]

/-- Checks outputs one after the other. Each has a gate of its own, which starts on the files that the
one before has left. -/
def checkEach (files : σ) (settings : Settings) :
    List (List String) → Except StartFault (List Verdict × σ)
  | [] => .ok ([], files)
  | output :: rest =>
    match (start files settings).2 with
    | .error e => .error e
    | .ok g =>
      match checkEach (g.check output).gate.files settings rest with
      | .error e => .error e
      | .ok (verdicts, left) => .ok ((g.check output).verdict :: verdicts, left)

section

variable {settings : Settings} {g g' : Gate σ} {output : List String}

theorem checkEach_cons {files left : σ} {rest : List (List String)} {verdicts : List Verdict}
    (h : (start files settings).2 = .ok g)
    (hrest : checkEach (g.check output).gate.files settings rest = .ok (verdicts, left)) :
    checkEach files settings (output :: rest) = .ok ((g.check output).verdict :: verdicts, left) := by
  simp only [checkEach, h, hrest]

/-! ### The lines of a watched output -/

theorem answers_of_unheeded (hl : ∀ raw ∈ output, g.watch.heeds (Text.normalize raw) = false) :
    (g.answers output).filterMap id = [] := by
  induction output generalizing g with
  | nil => rfl
  | cons raw rest ih =>
    obtain ⟨hfirst, hl⟩ := unheeded_cons hl
    simp only [answers, line_of_unheeded hfirst]
    exact ih hl

section

variable (frame : WatchMode.Frame)

theorem line_opening (hw : g.watch = .idle) : g.line frame.opening =
    ⟨{ g with watch := ⟨true⟩ }, [.note .watchStarted, .note .watchDetected], none⟩ := by
  simp [line, WatchMode.see, WatchMode.starts, WatchMode.idle, hw, frame.holds_opening]

theorem line_closing (ha : g.watch.active) : g.line frame.closing =
    ⟨g.endCompilation.gate, g.endCompilation.events, some g.endCompilation.verdict⟩ := by
  simp [line, WatchMode.starts, WatchMode.changes, WatchMode.finishes, ha, frame.holds_closing,
    frame.not_holds_closing]

theorem line_changing (ha : g.watch.active) : g.line frame.changing =
    ⟨g.clear, [.note (.fileChanged g.findings.size)], none⟩ := by
  simp [line, WatchMode.starts, WatchMode.changes, ha, frame.holds_changing]

end

/-- `g` watches, has collected `seen` of the open compilation, and its lists are those in its files. -/
structure Watches (settings : Settings) (seen : List String) (g : Gate σ) : Prop where
  settings : g.settings = settings
  active : g.watch.active
  collected : g.Collected seen
  lawful : LawfulAt g.settings.paths g.files
  stored : Stored g.files g.settings g.lists
  codes : ∀ c ∈ g.lists.codes.entries, isErrorCode c

variable (frame : WatchMode.Frame) {seen : List String}

theorem watches_line_opening {files : σ} (h : (start files settings).2 = .ok g)
    (hi : settings.init = false) (hlaw : LawfulAt settings.paths files) :
    Watches settings [] (g.line frame.opening).gate := by
  have hstored := stored_start h hi
  have hcollected := collected_start h
  have hcodes := isErrorCode_of_start h
  obtain ⟨lists, coverage, rfl⟩ := frame_start h
  rw [line_opening frame rfl]
  exact ⟨rfl, rfl, ⟨hcollected.assembly, hcollected.judged⟩, hlaw, hstored, hcodes⟩

theorem Watches.line_changing (h : Watches settings seen g) :
    Watches settings [] (g.line frame.changing).gate := by
  rw [Gate.line_changing frame h.active]
  exact ⟨h.settings, h.active, h.collected.ready.collected_clear, h.lawful, h.stored, h.codes⟩

theorem Watches.lines (h : Watches settings seen g)
    (hl : ∀ raw ∈ output, WatchMode.isMarker (Text.normalize raw) = false) :
    Watches settings (seen ++ output.map Text.normalize) (g.lines output).1 ∧
      (g.lines output).1.files = g.files ∧ (g.lines output).1.lists = g.lists ∧
      (g.answers output).filterMap id = [] := by
  have hunheeded : ∀ raw ∈ output, g.watch.heeds (Text.normalize raw) = false :=
    fun raw hraw => WatchMode.heeds_of_not_isMarker _ (hl raw hraw)
  obtain ⟨hcollected, -, assembly, coverage, findings, hframe⟩ :=
    lines_of_unheeded h.collected hunheeded
  rw [hframe] at hcollected ⊢
  exact ⟨⟨h.settings, h.active, hcollected, h.lawful, h.stored, h.codes⟩, rfl, rfl,
    answers_of_unheeded hunheeded⟩

/-- A gate of its own starts on the files of a gate that watches, and goes by the same members. -/
theorem Watches.exists_start (h : Watches settings seen g) (hi : settings.init = false) :
    ∃ g', (start g.files settings).2 = .ok g' ∧ g.lists.agrees g'.lists := by
  obtain rfl := h.settings
  obtain ⟨fresh, hfresh, -⟩ := h.collected.judged
  exact start_of_stored h.stored hi h.codes (Coverage.exists_ofTexts_iff.1 ⟨fresh, hfresh⟩)

/-- **The finished marker ends it**: it has the outcome of its lines, and whichever writes fail, the
lists are those in the files again. -/
theorem Watches.line_closing (h : Watches settings seen g) (hi : settings.init = false)
    (hne : settings.codesPath ≠ settings.filesPath)
    (hplain : ∀ d ∈ Diagnostic.ofLines seen, isGlob d.file = false) :
    ∃ o, Outcome.ofLines g.files settings g.lists seen = .ok o ∧
      (g.line frame.closing).verdict = some o.verdict ∧
      (g.line frame.closing).gate.files = o.files ∧
      Watches settings [] (g.line frame.closing).gate := by
  obtain rfl := h.settings
  have hout := h.collected.outcome_endCompilation
  have hlawful := h.lawful.of_written (Outcome.written hout hi)
  have hstored := Outcome.stored hout hi h.lawful hne h.stored fun d hd _ => hplain d hd
  have hcollected := h.collected.ready.collected_endCompilation
  have hcodes := fun c hc => h.codes c (mem_codes_of_endCompilation hi hc)
  obtain ⟨files, lists, coverage, hend⟩ := g.endCompilation_frame
  rw [Gate.line_closing frame h.active]
  have hsettings : g.endCompilation.gate.settings = g.settings := by rw [hend]
  refine ⟨_, hout, rfl, rfl, hsettings, ?_, hcollected, ?_, ?_, hcodes⟩
  · rw [hend]
    exact h.active
  · rw [hsettings]
    exact hlawful
  · rw [hsettings]
    exact hstored

/-! ### Compilations -/

/-- **One compilation** comes to what it comes to by itself. -/
theorem Watches.compilation (h : Watches settings [] g) (hi : settings.init = false)
    (hne : settings.codesPath ≠ settings.filesPath)
    (hl : ∀ raw ∈ output, WatchMode.isMarker (Text.normalize raw) = false)
    (hplain : ∀ d ∈ Diagnostic.ofLines (output.map Text.normalize), isGlob d.file = false) :
    ∃ g', (start g.files settings).2 = .ok g' ∧
      (g.answers (output ++ [frame.closing])).filterMap id = [(g'.check output).verdict] ∧
      (g.lines (output ++ [frame.closing])).1.files = (g'.check output).gate.files ∧
      Watches settings [] (g.lines (output ++ [frame.closing])).1 := by
  obtain ⟨g', hstart, hagrees⟩ := h.exists_start hi
  have hunstarted : ∀ raw ∈ output,
      WatchMode.holds WatchMode.startMarker (Text.normalize raw) = false := by
    intro raw hraw
    have hno := hl raw hraw
    simp only [WatchMode.isMarker, Bool.or_eq_false_iff] at hno
    exact hno.1
  have hsingle := outcome_check_of_idle (idle_start hstart) (collected_start hstart) hunstarted
  rw [List.nil_append, files_start hstart, settings_start hstart] at hsingle
  obtain ⟨hlast, hfiles, hlists, hsilent⟩ := h.lines hl
  obtain ⟨o, hout, hanswer, hleft, hnext⟩ := hlast.line_closing frame hi hne hplain
  rw [hfiles, hlists] at hout
  obtain ⟨hverdict, hsame⟩ := Outcome.eq_of_samePairs hout hsingle hagrees (.refl _)
  rw [answers_concat, lines_concat, List.filterMap_append, hsilent, hanswer, hverdict]
  exact ⟨g', hstart, rfl, hleft.trans hsame, hnext⟩

/-- **Any number of compilations** come to what they come to one by one. -/
theorem Watches.compilations {outputs : List (List String)} (h : Watches settings [] g)
    (hi : settings.init = false) (hne : settings.codesPath ≠ settings.filesPath)
    (hl : ∀ output ∈ outputs, ∀ raw ∈ output, WatchMode.isMarker (Text.normalize raw) = false)
    (hplain : ∀ output ∈ outputs, ∀ d ∈ Diagnostic.ofLines (output.map Text.normalize),
      isGlob d.file = false) :
    checkEach g.files settings outputs =
      .ok ((g.answers (frame.compilations outputs)).filterMap id,
        (g.lines (frame.compilations outputs)).1.files) := by
  induction outputs generalizing g with
  | nil => rfl
  | cons output rest ih =>
    obtain ⟨hfirst, hl⟩ := List.forall_mem_cons.1 hl
    obtain ⟨hplainFirst, hplain⟩ := List.forall_mem_cons.1 hplain
    obtain ⟨g', hstart, hanswer, hleft, hnext⟩ := h.compilation frame hi hne hfirst hplainFirst
    cases rest with
    | nil =>
      rw [frame.compilations_singleton, hanswer, hleft]
      exact checkEach_cons hstart rfl
    | cons second rest =>
      rw [frame.compilations_cons_cons]
      generalize output ++ [frame.closing] = first at hanswer hleft hnext ⊢
      have hchanging := Gate.line_changing frame hnext.active
      have hmore := ih (hnext.line_changing frame) hl hplain
      rw [hchanging] at hmore
      rw [answers_append, lines_append, List.filterMap_append, hanswer]
      simp only [answers, Gate.lines, hchanging]
      refine checkEach_cons hstart ?_
      rw [← hleft]
      exact hmore

/-- **Watching comes to the same as checking again and again.** Where the lists are not to be made
and lie at different paths of a store that is lawful there, let outputs without markers be given
whose diagnostics have no globs for files. One gate that watches them one after the other answers
with the verdicts of gates of their own that start on what the one before has left, and it leaves
the same store, whichever writes it refuses. -/
theorem checkEach_eq_watched {files : σ} {outputs : List (List String)}
    (h : (start files settings).2 = .ok g) (hi : settings.init = false)
    (hne : settings.codesPath ≠ settings.filesPath) (hlaw : LawfulAt settings.paths files)
    (hl : ∀ output ∈ outputs, ∀ raw ∈ output, WatchMode.isMarker (Text.normalize raw) = false)
    (hplain : ∀ output ∈ outputs, ∀ d ∈ Diagnostic.ofLines (output.map Text.normalize),
      isGlob d.file = false) :
    checkEach files settings outputs =
      .ok ((g.answers (frame.opening :: frame.compilations outputs)).filterMap id,
        (g.lines (frame.opening :: frame.compilations outputs)).1.files) := by
  have hwatches := watches_line_opening frame h hi hlaw
  have hopening := line_opening frame (idle_start h)
  rw [hopening] at hwatches
  have hall := hwatches.compilations frame hi hne hl hplain
  simp only [answers, Gate.lines, hopening]
  rw [← files_start h]
  exact hall

/-- a file that is new to the list, and then a code that was stale -/
def returningOutputs : List (List String) :=
  [["lib/b.ts(1,1): error TS2322: m"], ["lib/b.ts(1,1): error TS2322: m", "a.ts(2,2): error TS7006: n"]]

/-- The list of codes cannot be written. The first compilation fails for that; the second goes by the
file that was added and by the code that is still listed. -/
theorem checkEach_eq_watched_refused_codes :
    ∃ g : Gate Memory,
      (start (Memory.ofLists ["TS2322", "TS7006"] ["src/*.ts"] ["c"]) ⟨"c", "f", false, true⟩).2 =
        .ok g ∧
      checkEach (Memory.ofLists ["TS2322", "TS7006"] ["src/*.ts"] ["c"]) ⟨"c", "f", false, true⟩
        returningOutputs = .ok ([.fail, .pass], (g.lines (WatchMode.Frame.bare.opening ::
          WatchMode.Frame.bare.compilations returningOutputs)).1.files) := by
  have hrun : ((start (Memory.ofLists ["TS2322", "TS7006"] ["src/*.ts"] ["c"])
      ⟨"c", "f", false, true⟩).2.map fun g => (g.answers (WatchMode.Frame.bare.opening ::
        WatchMode.Frame.bare.compilations returningOutputs)).filterMap id) =
      .ok [.fail, .pass] := by decide +kernel
  have hunmarked : ∀ output ∈ returningOutputs, ∀ raw ∈ output,
      WatchMode.isMarker (Text.normalize raw) = false := by decide +kernel
  have hplain : ∀ output ∈ returningOutputs,
      ∀ d ∈ Diagnostic.ofLines (output.map Text.normalize), isGlob d.file = false := by
    decide +kernel
  obtain ⟨g, hstart, hanswers⟩ := exists_of_map_eq_ok hrun
  have heq := checkEach_eq_watched .bare hstart rfl (by decide) (Memory.lawfulAt _ _) hunmarked hplain
  rw [hanswers] at heq
  exact ⟨g, hstart, heq⟩

end

end Gate

end DiagnosticGate
