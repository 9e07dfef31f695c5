import DiagnosticGate.Proofs.Persistence

/-!
What the parts of a gate have to do with each other.

The coverage, the findings and the lists of a gate change at different moments. Behind every call
they fit: the coverage has the entries of the list of files in their order, each with one hit for
every finding that it covers, and every finding has the class that the lists give it. Behind the end
of a compilation and behind a changed file nothing is left of what was read before.
-/

namespace DiagnosticGate

open Storage

namespace Gate

/-- The coverage and the findings fit the lists. -/
structure Consistent {σ : Type} (g : Gate σ) : Prop where
  texts : g.coverage.entries.map (·.text) = g.lists.files.entries
  rules : ∀ e ∈ g.coverage.entries, Entry.ofText e.text = .ok { e with hits := 0 }
  hits : ∀ e ∈ g.coverage.entries, e.hits = g.findings.all.countP fun d => e.covers d.file
  kinds : ∀ x ∈ g.findings.toList, x.kind =
    .of (g.coverage.covers x.diagnostic.file) (g.lists.codes.contains x.diagnostic.code)
  codes : ∀ c ∈ g.lists.codes.entries, isErrorCode c

/-- Nothing is left of a compilation. -/
structure Forgotten {σ : Type} (g : Gate σ) : Prop where
  findings : g.findings.toList = []
  pending : g.assembly.pending = none
  hits : ∀ e ∈ g.coverage.entries, e.hits = 0

/-! ### What has been collected -/

section

variable {σ : Type} {g : Gate σ} {lines : List String}

theorem Collected.consistent (h : g.Collected lines) (hi : g.settings.init = false)
    (hcodes : ∀ c ∈ g.lists.codes.entries, isErrorCode c) : g.Consistent := by
  obtain ⟨fresh, hfresh, hj⟩ := h.judged
  generalize (Assembly.empty.pushAll lines).2 = ds at hj
  rw [hi] at hj
  have hcoverage : g.coverage = fresh.countAll (ds.map (·.file)) := by
    have hcov := @Judged.coverage_ofList false g.lists.codes fresh ds
    rw [← hj, if_neg Bool.false_ne_true] at hcov
    exact hcov
  have hfindings : g.findings.toList = ds.map fun d => ⟨d.judge g.lists.codes fresh, d⟩ := by
    have hfind := @Judged.findings_ofList false g.lists.codes fresh ds
    simp only [← hj, Bool.false_eq_true, if_false] at hfind
    exact hfind
  have hall : g.findings.all = ds := by
    rw [Findings.all, hfindings, List.map_map]
    exact List.map_id ds
  have hsound := Coverage.sound_ofTexts hfresh
  -- an entry is one of the fresh coverage, with the hits that have been counted
  have hentries : ∀ e ∈ g.coverage.entries, ∃ e₀ ∈ fresh.entries,
      Entry.ofText e₀.text = .ok e₀ ∧ e = { e₀ with hits := (ds.map (·.file)).countP e₀.covers } := by
    intro e he
    rw [hcoverage, Coverage.entries_countAll] at he
    obtain ⟨e₀, he₀, rfl⟩ := List.mem_map.1 he
    refine ⟨e₀, he₀, hsound e₀ he₀, ?_⟩
    rw [Entry.hits_ofText (hsound e₀ he₀), Nat.zero_add]
  refine ⟨?_, ?_, ?_, ?_, hcodes⟩
  · rw [hcoverage, Coverage.entries_countAll, List.map_map]
    exact Coverage.texts_ofTexts hfresh g.lists.files.nodup
  · intro e he
    obtain ⟨e₀, -, hread, rfl⟩ := hentries e he
    rw [hread, ← Entry.hits_ofText hread]
  · intro e he
    obtain ⟨e₀, -, -, rfl⟩ := hentries e he
    rw [hall, List.countP_map]
    rfl
  · intro x hx
    rw [hfindings] at hx
    obtain ⟨d, -, rfl⟩ := List.mem_map.1 hx
    rw [hcoverage, Coverage.covers_countAll]
    rfl

theorem Collected.forgotten (h : g.Collected []) : g.Forgotten := by
  obtain ⟨fresh, hfresh, hj⟩ := h.judged
  obtain ⟨hcoverage, hfindings⟩ := Judged.mk.inj hj
  refine ⟨?_, ?_, ?_⟩
  · rw [hfindings]
    rfl
  · rw [h.assembly]
    rfl
  · intro e he
    rw [hcoverage] at he
    exact Entry.hits_ofText (Coverage.sound_ofTexts hfresh e he)

end

/-! ### Calls -/

section

variable {σ : Type} [TextFiles σ] {g₀ g next : Gate σ} {events more : List Event}

theorem Collected.call {lines : List String} (h : g.Collected lines) (hcall : Call g more next) :
    ∃ lines, next.Collected lines := by
  rcases call_cases hcall with ⟨rfl, -⟩ | ⟨rfl, -⟩ | ⟨text, rfl, -⟩ | ⟨watch, files, rfl, -⟩
  · exact ⟨[], h.ready.collected_endCompilation⟩
  · exact ⟨[], h.ready.collected_clear⟩
  · exact ⟨lines ++ [text], h.read text⟩
  · exact ⟨lines, h.assembly, h.judged⟩

/-- **Whatever has been called, the gate has collected some lines.** -/
theorem Collected.run {lines : List String} (h : g₀.Collected lines) (hrun : Run g₀ events g) :
    ∃ lines, g.Collected lines := by
  induction hrun with
  | start => exact ⟨lines, h⟩
  | step _ hcall ih =>
    obtain ⟨lines, hc⟩ := ih
    exact hc.call hcall

theorem mem_codes_of_endCompilation (hi : g.settings.init = false) {c : String}
    (hc : c ∈ g.endCompilation.gate.lists.codes.entries) : c ∈ g.lists.codes.entries := by
  rcases g.endCompilation_cases hi with ⟨-, hl, -⟩ | ⟨hu, -, ⟨-, hl, -⟩ | ⟨hl, -⟩ | ⟨-, hl, -⟩⟩ <;>
    rw [hl] at hc
  · exact hc
  · exact hc
  · rw [update_closePending] at hc
    rcases (persisted_writeLists g.files g.settings g.lists g.closePending.1.resolved.result).1 with
      hp | hp <;> rw [hp] at hc
    · exact hc
    · rw [resolved, settings_closePending, lists_closePending, hu, mem_codes_resolve] at hc
      exact hc.1
  · exact hc

/-- **Codes are never added.** -/
theorem mem_codes_of_run {settings : Settings} (h : Kept settings [] g₀)
    (hi : settings.init = false) (hrun : Run g₀ events g) {c : String}
    (hc : c ∈ g.lists.codes.entries) : c ∈ g₀.lists.codes.entries := by
  induction hrun with
  | start => exact hc
  | step hrun hcall ih =>
    have hkept := h.run hrun
    rcases call_frame hcall with ⟨rfl, -⟩ | ⟨hl, -⟩
    · exact ih (mem_codes_of_endCompilation (hkept.settings ▸ hi) hc)
    · rw [hl] at hc
      exact ih hc

theorem Ready.forgotten_finish (h : g.Ready) : g.finish.gate.Forgotten := by
  unfold finish
  cases g.watch.active with
  | false => exact h.collected_endCompilation.forgotten
  | true => exact h.collected_clear.forgotten

theorem Ready.forgotten_line (h : g.Ready) {raw : String}
    (hm : g.watch.changes (Text.normalize raw) ∨ g.watch.finishes (Text.normalize raw)) :
    (g.line raw).gate.Forgotten := by
  rcases line_of_boundary hm with hg | hg <;> rw [hg]
  · exact h.collected_clear.forgotten
  · exact h.collected_endCompilation.forgotten

/-- **The parts of a gate fit behind every call.** Where lists are not to be made, whatever is fed
and whichever writes fail: the coverage and the findings fit the lists, and all codes are error
codes. A call that ends the input leaves nothing of the open compilation, and neither does a line
that is taken as a finished marker or as a changed file. -/
theorem consistent_of_run {files : σ} {settings : Settings} (h : (start files settings).2 = .ok g₀)
    (hi : settings.init = false) (hrun : Run g₀ events g) :
    g.Consistent ∧ g.finish.gate.Forgotten ∧
      ∀ raw, g.watch.changes (Text.normalize raw) ∨ g.watch.finishes (Text.normalize raw) →
        (g.line raw).gate.Forgotten := by
  have hkept := kept_start h
  obtain ⟨lines, hcollected⟩ := (collected_start h).run hrun
  have hsettings := (hkept.run hrun).settings
  have hcodes : ∀ c ∈ g.lists.codes.entries, isErrorCode c := by
    intro c hc
    exact isErrorCode_of_start h c (mem_codes_of_run hkept hi hrun hc)
  exact ⟨hcollected.consistent (hsettings ▸ hi) hcodes, hcollected.ready.forgotten_finish,
    fun raw hm => hcollected.ready.forgotten_line hm⟩

end

/-- a watched output whose second compilation is judged by a list that the first has changed -/
def twiceWatchedOutput : List String :=
  [WatchMode.startMarker, "src/a.ts(1,1): error TS2322: m", "lib/b.ts(2,2): error TS2322: m",
    WatchMode.finishedMarker, "lib/b.ts(3,3): error TS2322: m", "src/a.ts(4,4): error TS7006: m",
    "lib/c.ts(5,5): error TS2322: m"]

/-- In the middle of the second compilation two diagnostics are judged, by the entry that was there
and the one that was added. -/
theorem consistent_of_run_adopted :
    ∃ (g₀ : Gate Memory) (events : List Event) (g : Gate Memory),
      (start (Memory.ofLists ["TS2322"] ["src/*.ts", "old.ts"] []) ⟨"c", "f", false, true⟩).2 =
        .ok g₀ ∧ Run g₀ events g ∧
      g.coverage.entries.map (fun e => (e.text, e.hits)) = [("src/*.ts", 1), ("lib/b.ts", 1)] ∧
      g.findings.toList.map (·.kind) = [.ignored, .fileOnly] ∧
      g.Consistent ∧ (g.line WatchMode.fileChangeMarker).gate.Forgotten := by
  have hrun : ((start (Memory.ofLists ["TS2322"] ["src/*.ts", "old.ts"] [])
      ⟨"c", "f", false, true⟩).2.map fun g₀ =>
        let g := (g₀.lines twiceWatchedOutput).1
        (g.coverage.entries.map (fun e => (e.text, e.hits)), g.findings.toList.map (·.kind),
          g.watch.changes (Text.normalize WatchMode.fileChangeMarker))) =
      .ok ([("src/*.ts", 1), ("lib/b.ts", 1)], [.ignored, .fileOnly], true) := by decide +kernel
  obtain ⟨g₀, hstart, heq⟩ := exists_of_map_eq_ok hrun
  simp only [Prod.mk.injEq] at heq
  obtain ⟨hentries, hkinds, hchanges⟩ := heq
  have hlines : Run g₀ _ _ := Run.start.lines twiceWatchedOutput
  obtain ⟨hconsistent, -, hforgotten⟩ := consistent_of_run hstart rfl hlines
  exact ⟨g₀, _, _, hstart, hlines, hentries, hkinds, hconsistent, hforgotten _ (.inl hchanges)⟩

end Gate

end DiagnosticGate
