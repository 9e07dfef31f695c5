import DiagnosticGate.Proofs.Verdict

/-!
Where the entries of the lists come from.

Every update rewrites both lists, and the next compilation is judged by what was written. Still a code
that was not listed when the gate was started never becomes one, and a file becomes one only through a
diagnostic whose code was listed from the start. So no update can hide an error whose code nobody has
listed.
-/

namespace DiagnosticGate

open Storage

theorem Outcome.mem_codes_of_pass {σ : Type} [TextFiles σ] {files : σ} {settings : Settings}
    {lists : AllowLists} {lines : List String} {o : Outcome σ}
    (h : ofLines files settings lists lines = .ok o) (hi : settings.init = false)
    (hpass : o.verdict = .pass) {d : Diagnostic} (hd : d ∈ Diagnostic.ofLines lines) :
    d.code ∈ lists.codes.entries := by
  have hds : Diagnostic.ofLines lines ≠ [] := List.ne_nil_of_mem hd
  cases hu : settings.autoUpdate with
  | false =>
    obtain ⟨-, -, hverdict⟩ := of_report h hds hi hu
    exact (hverdict.1 hpass).1 d hd
  | true =>
    obtain ⟨wanted, -, -, -, hverdict⟩ := of_update h hds hi hu
    exact (hverdict.1 hpass).1 d hd

namespace Gate

section

variable {σ : Type} [TextFiles σ] {g₀ g : Gate σ} {events : List Event}

theorem mem_files_of_endCompilation (hi : g.settings.init = false) {t : String}
    (ht : t ∈ g.endCompilation.gate.lists.files.entries) : t ∈ g.lists.files.entries ∨
      ∃ d, ⟨.promotable, d⟩ ∈ g.closePending.1.findings.toList ∧ d.file = t := by
  rcases g.endCompilation_cases hi with ⟨-, hl, -⟩ | ⟨hu, -, ⟨-, hl, -⟩ | ⟨hl, -⟩ | ⟨-, hl, -⟩⟩ <;>
    rw [hl] at ht
  · exact .inl ht
  · exact .inl ht
  · have hmem := mem_files_persisted (g.settings_closePending ▸ hu) ht
    rw [lists_closePending] at hmem
    exact hmem
  · exact .inl ht

omit [TextFiles σ] in
theorem Collected.mem_codes_of_promotable {lines : List String} (h : g.Collected lines)
    (hi : g.settings.init = false) {d : Diagnostic}
    (hd : ⟨.promotable, d⟩ ∈ g.closePending.1.findings.toList) : d.code ∈ g.lists.codes.entries := by
  obtain ⟨fresh, -, hj⟩ := h.judged_closePending
  have hmem := Findings.mem_promotable.2 hd
  have hfindings : g.closePending.1.findings = _ := congrArg Judged.findings hj
  rw [hfindings, hi, mem_promotable_ofList] at hmem
  exact hmem.2.2

/-- **Where a file comes from**: it was listed when the gate was started, or it is the file of a
diagnostic that has been told as promotable and whose code was listed then. -/
theorem mem_files_of_run {settings : Settings} {lines : List String} (h : Kept settings [] g₀)
    (hc : g₀.Collected lines) (hi : settings.init = false) (hrun : Run g₀ events g) {t : String}
    (ht : t ∈ g.lists.files.entries) : t ∈ g₀.lists.files.entries ∨
      ∃ d, .note (.judged d .promotable) ∈ events ∧ d.code ∈ g₀.lists.codes.entries ∧ d.file = t := by
  induction hrun with
  | start => exact .inl ht
  | @step events more g next hrun hcall ih =>
    have hkept := h.run hrun
    have hearlier : t ∈ g.lists.files.entries → t ∈ g₀.lists.files.entries ∨
        ∃ d, .note (.judged d .promotable) ∈ events ++ more ∧ d.code ∈ g₀.lists.codes.entries ∧
          d.file = t := by
      intro hmem
      rcases ih hmem with hstart | ⟨d, hd, hcode, hfile⟩
      · exact .inl hstart
      · exact .inr ⟨d, List.mem_append_left _ hd, hcode, hfile⟩
    rcases call_frame hcall with ⟨rfl, rfl⟩ | ⟨hl, -⟩
    · have hinit : g.settings.init = false := hkept.settings ▸ hi
      rcases mem_files_of_endCompilation hinit ht with hmem | ⟨d, hd, hfile⟩
      · exact hearlier hmem
      · -- the compilation that ends now was judged by codes that were listed from the start
        obtain ⟨lines, hcollected⟩ := hc.run hrun
        have hcode := mem_codes_of_run h hi hrun (hcollected.mem_codes_of_promotable hinit hd)
        refine .inr ⟨d, ?_, hcode, hfile⟩
        rw [endCompilation_eq, ← List.append_assoc]
        exact List.mem_append_left _ (hkept.noted.closePending _ hd)
    · rw [hl] at ht
      exact hearlier ht

/-- **Updates hide no error.** Where lists are not to be made, let a gate be fed with anything and let
any writes fail. Then every code in memory was listed when the gate was started, and so a compilation
with a diagnostic whose code was not fails. Every file in memory was listed then, or is the file of a
diagnostic that has been judged before and whose code was listed then. -/
theorem listed_of_run {files : σ} {settings : Settings} (h : (start files settings).2 = .ok g₀)
    (hi : settings.init = false) (hrun : Run g₀ events g) :
    (∀ c ∈ g.lists.codes.entries, c ∈ g₀.lists.codes.entries) ∧
    (∀ c, g.Ends c → ∀ d ∈ g.diagnostics, d.code ∉ g₀.lists.codes.entries → c.verdict = .fail) ∧
    ∀ t ∈ g.lists.files.entries, t ∈ g₀.lists.files.entries ∨
      ∃ d, .note (.judged d .promotable) ∈ events ∧ d.code ∈ g₀.lists.codes.entries ∧ d.file = t := by
  have hkept := kept_start h
  have hstarted := collected_start h
  have hcodes : ∀ c ∈ g.lists.codes.entries, c ∈ g₀.lists.codes.entries := by
    intro c hc
    exact mem_codes_of_run hkept hi hrun hc
  refine ⟨hcodes, ?_, fun t ht => mem_files_of_run hkept hstarted hi hrun ht⟩
  intro c hends d hd hno
  obtain ⟨lines, hcollected⟩ := hstarted.run hrun
  have hout := hcollected.outcome_endCompilation
  rw [(hkept.run hrun).settings] at hout
  rw [hcollected.diagnostics] at hd
  rw [Verdict.eq_fail_iff, hends.eq_endCompilation]
  intro hpass
  exact hno (hcodes _ (Outcome.mem_codes_of_pass hout hi hpass hd))

end

/-- a watched output whose second compilation has an error that no list allows -/
def strayWatchedOutput : List String :=
  [WatchMode.startMarker, "src/a.ts(1,1): error TS2322: m", WatchMode.finishedMarker,
    "src/a.ts(2,2): error TS2322: m", "src/a.ts(3,3): error TS1005: m"]

/-- The first compilation has taken out a code and an entry and has added a file, and the second fails
all the same. -/
theorem listed_of_run_stray :
    ∃ (g₀ : Gate Memory) (events : List Event) (g : Gate Memory) (c : Completion Memory),
      (start (Memory.ofLists ["TS2322", "TS7006"] ["lib/*.ts"] []) ⟨"c", "f", false, true⟩).2 =
        .ok g₀ ∧ Run g₀ events g ∧
      g.lists.codes.entries = ["TS2322"] ∧ g.lists.files.entries = ["src/a.ts"] ∧
      (∃ d, .note (.judged d .promotable) ∈ events ∧ d.code ∈ g₀.lists.codes.entries ∧
        d.file = "src/a.ts") ∧
      g.Ends c ∧ c.verdict = .fail := by
  have hrun : ((start (Memory.ofLists ["TS2322", "TS7006"] ["lib/*.ts"] [])
      ⟨"c", "f", false, true⟩).2.map fun g₀ =>
        let g := (g₀.lines strayWatchedOutput).1
        ([g₀.lists.codes.entries, g₀.lists.files.entries, g.lists.codes.entries,
          g.lists.files.entries, g.diagnostics.map (·.code)],
          (g.line WatchMode.finishedMarker).verdict.isSome)) =
      .ok ([["TS2322", "TS7006"], ["lib/*.ts"], ["TS2322"], ["src/a.ts"], ["TS2322", "TS1005"]],
        true) := by
    decide +kernel
  obtain ⟨g₀, hstart, heq⟩ := exists_of_map_eq_ok hrun
  simp only [Prod.mk.injEq, List.cons.injEq, and_true] at heq
  obtain ⟨⟨hcodes₀, hfiles₀, hcodes, hfiles, hds⟩, hends⟩ := heq
  obtain ⟨verdict, hverdict⟩ := Option.isSome_iff_exists.1 hends
  have hlines : Run g₀ _ _ := Run.start.lines strayWatchedOutput
  obtain ⟨-, hfail, horigin⟩ := listed_of_run hstart rfl hlines
  obtain ⟨d, hd, hcode⟩ : ∃ d ∈ (g₀.lines strayWatchedOutput).1.diagnostics, d.code = "TS1005" := by
    have hmem : "TS1005" ∈ (g₀.lines strayWatchedOutput).1.diagnostics.map (·.code) := by simp [hds]
    exact List.mem_map.1 hmem
  have hlast := hfail _ (.line WatchMode.finishedMarker verdict hverdict) d hd
    (by simp [hcodes₀, hcode])
  refine ⟨g₀, _, _, _, hstart, hlines, hcodes, hfiles, ?_, .line _ verdict hverdict, hlast⟩
  rcases horigin "src/a.ts" (by simp [hfiles]) with hold | hnew
  · simp [hfiles₀] at hold
  · exact hnew

end Gate

end DiagnosticGate
