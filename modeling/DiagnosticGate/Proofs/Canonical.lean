import DiagnosticGate.Proofs.Diagnostics
import DiagnosticGate.Proofs.Saving

/-!
What is written can be read.

Every text that a gate saves is a list of texts in strictly ascending order, and so there is one text
for each set of members. The codes that are saved come from headers, and what is accepted as the code
of a header is accepted as a code when a list is loaded. So no gate refuses a list of codes that
another has written.
-/

namespace DiagnosticGate

open Storage

namespace Gate

/-- A gate that finds `text` in its file of codes goes by `codes`, or it is the list of files that it
does not start on. -/
def LoadedAs (text : String) (codes : List String) : Prop :=
  ∀ (τ : Type) [TextFiles τ] (files : τ) (settings : Settings),
    TextFiles.read files settings.codesPath = .ok text →
    (∃ g, (start files settings).2 = .ok g ∧ ∀ c, c ∈ g.lists.codes.entries ↔ c ∈ codes) ∨
    (∃ e, readTexts files settings.filesPath settings.init = .error e ∧
      (start files settings).2 = .error (.unreadable [e])) ∨
    ∃ e, (start files settings).2 = .error (.badPattern e)

theorem loadedAs_write {codes : List String} (hcodes : ∀ c ∈ codes, isErrorCode c) :
    LoadedAs (Json.write codes) codes := by
  intro τ _ files settings hread
  have hc : readTexts files settings.codesPath settings.init = .ok (some codes) := by
    simp only [readTexts, hread, parseTexts_write]
  exact start_of_codes hc hcodes

theorem Collected.isErrorCode_wanted {σ : Type} {g : Gate σ} {lines : List String}
    (h : g.Collected lines) {c : String}
    (hc : c ∈ (g.closePending.1.judged.wanted g.settings g.lists).codes.entries) : isErrorCode c := by
  obtain ⟨d, hd, rfl⟩ := Judged.mem_codes_wanted hc
  rw [all_closePending, h.diagnostics] at hd
  exact Diagnostic.isErrorCode_of_mem_ofLines hd

theorem mem_saves {σ : Type} [TextFiles σ] {g : Gate σ} {input : Input} {a : Attempt σ}
    (h : a ∈ g.saves input) :
    ∃ wanted, wanted = g.closePending.1.judged.wanted g.settings g.lists ∧
      ((a.path = g.settings.filesPath ∧ a.text = Json.write wanted.files.sorted) ∨
        (a.path = g.settings.codesPath ∧ a.text = Json.write wanted.codes.sorted)) := by
  refine ⟨_, rfl, ?_⟩
  unfold saves at h
  split at h
  · obtain ⟨p, hp, hpath, htext⟩ := mem_of_mem_attempts h
    have hboth := Judged.plan_sublist.subset hp
    simp only [AllowLists.saves, List.mem_cons, List.not_mem_nil, or_false] at hboth
    rcases hboth with rfl | rfl
    · exact .inl ⟨hpath, htext⟩
    · exact .inr ⟨hpath, htext⟩
  · cases h

/-- **What is written can be read.** Let the two lists have different paths. Whatever a gate has been
fed since it was started, each text that the next call saves is that of a list in strictly ascending
order, and is read back as this list. If it is saved as the list of codes, all its members are error
codes, and no gate will refuse it. -/
theorem canonical_of_run {σ : Type} {kind : TextFiles σ} {g₀ g : Gate σ} {events : List Event}
    {files : σ} {settings : Settings} (h : (start files settings).2 = .ok g₀)
    (hne : settings.codesPath ≠ settings.filesPath) (hrun : Run g₀ events g) (input : Input) :
    Asks kind (fun other => @reply σ other g input) g.files (g.saves input)
      (g.reply input).gate.files ∧
    ∀ a ∈ g.saves input, ∃ texts, a.text = Json.write texts ∧ texts.Pairwise (· < ·) ∧
      parseTexts a.text = .ok texts ∧
      (a.path = settings.codesPath → (∀ c ∈ texts, isErrorCode c) ∧ LoadedAs a.text texts) := by
  obtain ⟨lines, hcollected⟩ := (collected_start h).run hrun
  have hsettings := ((kept_start h).run hrun).settings
  refine ⟨g.asks_reply input, ?_⟩
  intro a ha
  obtain ⟨wanted, hwanted, ⟨hpath, htext⟩ | ⟨-, htext⟩⟩ := mem_saves ha
  · refine ⟨_, htext, wanted.files.pairwise_lt_sorted, htext ▸ parseTexts_write _, ?_⟩
    intro hcodes
    rw [hpath, hsettings] at hcodes
    exact absurd hcodes.symm hne
  · have hcodes : ∀ c ∈ wanted.codes.sorted, isErrorCode c := by
      intro c hc
      rw [AllowList.mem_sorted, hwanted] at hc
      exact hcollected.isErrorCode_wanted hc
    refine ⟨_, htext, wanted.codes.pairwise_lt_sorted, htext ▸ parseTexts_write _, fun _ => ?_⟩
    rw [htext]
    exact ⟨hcodes, loadedAs_write hcodes⟩

/-- The codes of an output in descending order are saved in ascending order, and any gate goes by
them. -/
theorem canonical_of_run_descending :
    ∃ (g₀ : Gate Memory) (events : List Event) (g : Gate Memory),
      (start (Memory.ofLists [] [] []) ⟨"c", "f", true, false⟩).2 = .ok g₀ ∧ Run g₀ events g ∧
      g.diagnostics.map (·.code) = ["TS7006", "TS2322"] ∧
      ∃ a ∈ g.saves .finish, ∃ codes, a.path = "c" ∧ a.text = Json.write codes ∧
        codes.Pairwise (· < ·) ∧ LoadedAs a.text codes := by
  have hrun : ((start (Memory.ofLists [] [] []) ⟨"c", "f", true, false⟩).2.map fun g₀ =>
      let g := (g₀.lines ["z.ts(1,1): error TS7006: m", "a.ts(2,2): error TS2322: m"]).1
      (g.diagnostics.map (·.code), (g.saves .finish).map (·.path))) =
      .ok (["TS7006", "TS2322"], ["f", "c"]) := by decide +kernel
  obtain ⟨g₀, hstart, heq⟩ := exists_of_map_eq_ok hrun
  obtain ⟨hcodes, hpaths⟩ := Prod.mk.inj heq
  obtain ⟨a, ha, hpath⟩ : ∃ a ∈ (g₀.lines ["z.ts(1,1): error TS7006: m",
      "a.ts(2,2): error TS2322: m"]).1.saves .finish, a.path = "c" := by
    refine List.mem_map.1 ?_
    rw [hpaths]
    exact List.mem_cons_of_mem _ List.mem_cons_self
  have hlines : Run g₀ _ _ :=
    Run.start.lines ["z.ts(1,1): error TS7006: m", "a.ts(2,2): error TS2322: m"]
  obtain ⟨texts, htext, hordered, -, hloaded⟩ :=
    (canonical_of_run hstart (by decide) hlines .finish).2 a ha
  exact ⟨g₀, _, _, hstart, hlines, hcodes, a, ha, texts, hpath, htext, hordered, (hloaded hpath).2⟩

end Gate

end DiagnosticGate
