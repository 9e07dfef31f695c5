import DiagnosticGate.Proofs.Starting
import DiagnosticGate.Proofs.Storage

/-!
Checking a complete output.

Outside of watch mode no line is anything but text, so checking all lines one by one comes to the
same as taking them together.
-/

namespace DiagnosticGate

open Storage

/-- whether `line` is taken as a marker -/
def WatchMode.heeds (w : WatchMode) (line : String) : Bool :=
  w.starts line || w.changes line || w.finishes line

theorem WatchMode.heeds_idle (line : String) : idle.heeds line = holds startMarker line := by
  simp [heeds, starts, changes, finishes, idle]

namespace Gate

variable {σ : Type} [TextFiles σ] {files : σ} {settings : Settings} {g : Gate σ}

theorem line_of_unheeded {raw : String} (h : g.watch.heeds (Text.normalize raw) = false) :
    g.line raw = ⟨(g.read (Text.normalize raw)).1, (g.read (Text.normalize raw)).2, none⟩ := by
  simp only [WatchMode.heeds, Bool.or_eq_false_iff] at h
  obtain ⟨⟨hs, hc⟩, hf⟩ := h
  rcases g.line_cases raw with ⟨h, -⟩ | ⟨-, h, -⟩ | ⟨-, -, h, -⟩ | ⟨-, -, -, h⟩
  · rw [hs] at h; cases h
  · rw [hc] at h; cases h
  · rw [hf] at h; cases h
  · exact h

omit [TextFiles σ] in
theorem unheeded_cons {raw : String} {rest : List String}
    (h : ∀ line ∈ raw :: rest, g.watch.heeds (Text.normalize line) = false) :
    g.watch.heeds (Text.normalize raw) = false ∧
      ∀ line ∈ rest, (g.read (Text.normalize raw)).1.watch.heeds (Text.normalize line) = false := by
  obtain ⟨hfirst, hrest⟩ := List.forall_mem_cons.1 h
  obtain ⟨assembly, coverage, findings, hframe⟩ := g.read_frame (Text.normalize raw)
  have hwatch : (g.read (Text.normalize raw)).1.watch = g.watch := by rw [hframe]
  exact ⟨hfirst, hwatch ▸ hrest⟩

/-- **Lines that are not taken as markers are collected**, and nothing is told, written or
changed. -/
theorem lines_of_unheeded {seen lines : List String} (hc : g.Collected seen)
    (hl : ∀ raw ∈ lines, g.watch.heeds (Text.normalize raw) = false) :
    (g.lines lines).1.Collected (seen ++ lines.map Text.normalize) ∧
      messagesOf (g.lines lines).2 = [] ∧
      ∃ assembly coverage findings, (g.lines lines).1 = { g with assembly, coverage, findings } := by
  induction lines generalizing g seen with
  | nil => exact ⟨by simpa [Gate.lines] using hc, rfl, _, _, _, rfl⟩
  | cons raw rest ih =>
    obtain ⟨hfirst, hl⟩ := unheeded_cons hl
    obtain ⟨assembly, coverage, findings, hframe⟩ := g.read_frame (Text.normalize raw)
    obtain ⟨hcol, hmsg, a, c, f, hrest⟩ := ih (hc.read (Text.normalize raw)) hl
    have hline := line_of_unheeded hfirst
    simp only [Gate.lines, hline]
    refine ⟨?_, ?_, a, c, f, ?_⟩
    · rw [List.map_cons, List.append_cons]
      exact hcol
    · rw [messagesOf_append, messagesOf_read, hmsg]
      rfl
    · rw [hrest, hframe]

/-- Outside of watch mode, a check has the outcome of all the lines that were collected. -/
theorem outcome_check_of_idle {seen lines : List String} (hw : g.watch = .idle)
    (hc : g.Collected seen)
    (hl : ∀ raw ∈ lines, WatchMode.holds WatchMode.startMarker (Text.normalize raw) = false) :
    Outcome.ofLines g.files g.settings g.lists (seen ++ lines.map Text.normalize) =
      .ok (g.check lines).outcome := by
  obtain ⟨hcol, hmsg, a, c, f, hframe⟩ := lines_of_unheeded hc fun raw hraw => by
    rw [hw, WatchMode.heeds_idle, hl raw hraw]
  have hidle : (g.lines lines).1.watch.active = false := by
    rw [hframe, hw]
    rfl
  have hend := hcol.outcome_endCompilation
  rw [check_eq, finish_of_idle hidle]
  unfold Completion.outcome at hend ⊢
  rw [messagesOf_append, hmsg, List.nil_append, ← hend, hframe]

/-- **Checking line by line is checking all at once.** Whatever the settings, the lists and the
store are, and whatever the store refuses to write: for an output without the start marker the
verdict, the messages in their order, the store behind all writes and the final lists are those of
the whole output taken as one compilation. -/
theorem outcome_check {lines : List String} (h : (start files settings).2 = .ok g)
    (hl : ∀ raw ∈ lines, WatchMode.holds WatchMode.startMarker (Text.normalize raw) = false) :
    Outcome.ofLines files settings g.lists (lines.map Text.normalize) =
      .ok (g.check lines).outcome := by
  have hcol := collected_start h
  obtain ⟨lists, coverage, rfl⟩ := frame_start h
  have hout := outcome_check_of_idle rfl hcol hl
  rw [List.nil_append] at hout
  exact hout

/-- an output with both forms of headers -/
def mixedOutput : List String :=
  ["noise", "src/a.ts(1,2): error TS2322: m", "  more", "lib/b.ts:3:4 - error TS2322: n"]

/-- Checking with updates, against a glob and a stale code, where the list of codes cannot be
written. -/
theorem outcome_check_refused_codes :
    ∃ g : Gate Memory,
      (start (Memory.ofLists ["TS2322", "TS7006"] ["src/*.ts"] ["c"]) ⟨"c", "f", false, true⟩).2 =
        .ok g ∧
      Outcome.ofLines (Memory.ofLists ["TS2322", "TS7006"] ["src/*.ts"] ["c"])
        ⟨"c", "f", false, true⟩ g.lists (mixedOutput.map Text.normalize) =
        .ok (g.check mixedOutput).outcome ∧
      (g.check mixedOutput).gate.lists.files.entries = ["src/*.ts", "lib/b.ts"] := by
  have hrun : ((start (Memory.ofLists ["TS2322", "TS7006"] ["src/*.ts"] ["c"])
      ⟨"c", "f", false, true⟩).2.map fun g => (g.check mixedOutput).gate.lists.files.entries) =
      .ok ["src/*.ts", "lib/b.ts"] := by decide +kernel
  have hplain : ∀ raw ∈ mixedOutput,
      WatchMode.holds WatchMode.startMarker (Text.normalize raw) = false := by decide +kernel
  obtain ⟨g, hstart, hentries⟩ := exists_of_map_eq_ok hrun
  exact ⟨g, hstart, outcome_check hstart hplain, hentries⟩

end Gate

end DiagnosticGate
