import DiagnosticGate.Proofs.Compilation
import DiagnosticGate.Proofs.Discrepancies
import DiagnosticGate.Proofs.Update

/-!
Compilations with nothing to tell.

Beyond its counts, a report is empty exactly if the lists fit the diagnostics: every diagnostic is
ignored, every code occurs, and every entry covers a file. Such a compilation passes, writes nothing
and keeps the lists.
-/

namespace DiagnosticGate

open Storage

/-! ### When there is nothing to tell -/

section

variable {codes : AllowList} {fresh : Coverage} {ds : List Diagnostic} {d : Diagnostic}

theorem judge_eq_promotable_iff :
    d.judge codes fresh = .promotable ↔ fresh.covers d.file = false ∧ d.code ∈ codes.entries := by
  rw [← AllowList.contains_iff, Diagnostic.judge]
  cases fresh.covers d.file <;> cases codes.contains d.code <;> simp [Class.of]

theorem judge_eq_ignored_iff :
    d.judge codes fresh = .ignored ↔ fresh.covers d.file ∧ d.code ∈ codes.entries := by
  rw [← AllowList.contains_iff, Diagnostic.judge]
  cases fresh.covers d.file <;> cases codes.contains d.code <;> simp [Class.of]

theorem mem_promotable_ofList : d ∈ (Judged.ofList false codes fresh ds).findings.promotable ↔
    d ∈ ds ∧ fresh.covers d.file = false ∧ d.code ∈ codes.entries := by
  rw [Findings.mem_promotable, Judged.findings_ofList, ← judge_eq_promotable_iff, List.mem_map]
  constructor
  · rintro ⟨d', hd', heq⟩
    simp only [Finding.mk.injEq, Bool.false_eq_true, if_false] at heq
    obtain ⟨hj, rfl⟩ := heq
    exact ⟨hd', hj⟩
  · rintro ⟨hd, hj⟩
    exact ⟨d, hd, by simp [hj]⟩

theorem mem_valid_ofList : d ∈ (Judged.ofList false codes fresh ds).findings.valid ↔
    d ∈ ds ∧ d.code ∉ codes.entries := by
  rw [Findings.valid, Findings.mem_select, Judged.findings_ofList, ← AllowList.contains_iff]
  constructor
  · rintro ⟨k, hmem, hk⟩
    obtain ⟨d', hd', heq⟩ := List.mem_map.1 hmem
    cases heq
    refine ⟨hd', ?_⟩
    simpa [Diagnostic.judge, Class.codeListed_of] using hk
  · rintro ⟨hd, hno⟩
    refine ⟨_, List.mem_map.2 ⟨d, hd, rfl⟩, ?_⟩
    simpa [Diagnostic.judge, Class.codeListed_of] using hno

theorem staleCodes_eq_nil_iff :
    staleCodes ds codes = [] ↔ ∀ c ∈ codes.entries, ∃ d ∈ ds, d.code = c := by
  simp only [List.eq_nil_iff_forall_not_mem, mem_staleCodes, not_and, not_forall, not_not,
    exists_prop]

theorem unused_countAll_files_eq_nil_iff {files : AllowList}
    (h : Coverage.ofTexts files.entries = .ok fresh) :
    (fresh.countAll (ds.map (·.file))).unused = [] ↔
      ∀ t ∈ files.entries, ∃ d ∈ ds, Coverage.TextCovers t d.file := by
  simp only [Coverage.unused_countAll_eq_nil_iff h, List.mem_map, exists_exists_and_eq_and]

theorem valid_ofList_eq_nil_iff : (Judged.ofList false codes fresh ds).findings.valid = [] ↔
    ∀ d ∈ ds, d.code ∈ codes.entries := by
  simp only [List.eq_nil_iff_forall_not_mem, mem_valid_ofList, not_and, not_not]

theorem promotable_ofList_eq_nil_iff :
    (Judged.ofList false codes fresh ds).findings.promotable = [] ↔
      ∀ d ∈ ds, d.code ∈ codes.entries → fresh.covers d.file := by
  simp only [List.eq_nil_iff_forall_not_mem, mem_promotable_ofList]
  constructor
  · intro hno d hd hc
    by_contra hcov
    exact hno d ⟨hd, by simpa using hcov, hc⟩
  · rintro hall d ⟨hd, hcov, hc⟩
    rw [hall d hd hc] at hcov
    cases hcov

/-- **There is nothing to tell** exactly if all codes occur and are listed, and all files are covered
by entries that each cover one. -/
theorem messages_resolve_ofList {apply : Bool} {lists : AllowLists}
    (h : Coverage.ofTexts lists.files.entries = .ok fresh) :
    (resolve apply (Judged.ofList false lists.codes fresh ds).findings.split
        (Judged.ofList false lists.codes fresh ds).coverage lists).messages = [] ↔
      (∀ c ∈ lists.codes.entries, ∃ d ∈ ds, d.code = c) ∧ (∀ d ∈ ds, d.code ∈ lists.codes.entries) ∧
      (∀ t ∈ lists.files.entries, ∃ d ∈ ds, Coverage.TextCovers t d.file) ∧
      ∀ d ∈ ds, ∃ t ∈ lists.files.entries, Coverage.TextCovers t d.file := by
  rw [messages_resolve, Findings.split_eq, Judged.all_ofList, Judged.coverage_ofList,
    if_neg Bool.false_ne_true, staleCodes_eq_nil_iff, unused_countAll_files_eq_nil_iff h,
    valid_ofList_eq_nil_iff, promotable_ofList_eq_nil_iff]
  simp only [Coverage.covers_ofTexts_iff h]
  constructor
  · rintro ⟨hs, hu, hp, hv⟩
    exact ⟨hs, hv, hu, fun d hd => hp d hd (hv d hd)⟩
  · rintro ⟨hs, hv, hu, hc⟩
    exact ⟨hs, hu, fun d hd _ => hc d hd, hv⟩

theorem summary_of_ignored (h : ∀ d ∈ ds, d.judge codes fresh = .ignored) :
    Gate.summary (Judged.ofList false codes fresh ds).findings.split =
      [.detected ds.length, .ignored ds.length] := by
  have hitems : (Judged.ofList false codes fresh ds).findings.toList =
      ds.map fun d => ⟨.ignored, d⟩ := by
    rw [Judged.findings_ofList]
    refine List.map_congr_left fun d hd => ?_
    rw [if_neg Bool.false_ne_true, h d hd]
  have hignored : (Judged.ofList false codes fresh ds).findings.ignored = ds := by
    rw [Findings.ignored, Findings.select, hitems, List.filter_map, List.map_map]
    simp [Function.comp_def]
  have hreported : (Judged.ofList false codes fresh ds).findings.reported = [] := by
    rw [Findings.reported, Findings.select, hitems, List.filter_map]
    simp [Function.comp_def]
  rw [Findings.split_eq, Gate.summary]
  simp only [Judged.all_ofList, hignored, hreported]
  rfl

end

/-! ### What comes of it -/

namespace Outcome

variable {σ : Type} [TextFiles σ] {files : σ} {settings : Settings} {lists : AllowLists}
variable {j : Judged}

theorem ofJudged_of_unchanged (hall : j.findings.all ≠ []) (hi : settings.init = false)
    (h : (resolve settings.autoUpdate j.findings.split j.coverage lists).result = lists) :
    let step := resolve settings.autoUpdate j.findings.split j.coverage lists
    ofJudged files settings lists j =
      ⟨step.verdict, Gate.summary j.findings.split ++ step.messages, files, lists⟩ := by
  intro step
  have hsplit : j.findings.split.all.isEmpty = false := by
    rw [Findings.split_eq]
    simpa using hall
  obtain ⟨hfiles, hverdict, hpersisted, hmessages⟩ := writeLists_self files settings lists
  have hadopted : lists.adopted lists = lists := if_pos lists.agrees_refl
  unfold ofJudged
  simp only [hsplit, hi, Bool.false_eq_true, if_false, h, hfiles, hverdict, hpersisted, hmessages,
    hadopted, List.append_nil, Verdict.or_pass]
  split <;> rfl

theorem ofJudged_of_quiet (hall : j.findings.all ≠ []) (hi : settings.init = false)
    (h : (resolve settings.autoUpdate j.findings.split j.coverage lists).messages = []) :
    ofJudged files settings lists j = ⟨.pass, Gate.summary j.findings.split, files, lists⟩ := by
  have hstep := resolve_of_quiet h
  rw [ofJudged_of_unchanged hall hi (by rw [hstep]), hstep, List.append_nil]

theorem quiet_of_length_messages (hall : j.findings.all ≠ []) (hi : settings.init = false)
    (h : (ofJudged files settings lists j).messages.length ≤ 2) :
    (resolve settings.autoUpdate j.findings.split j.coverage lists).messages = [] := by
  have hsplit : j.findings.split.all.isEmpty = false := by
    rw [Findings.split_eq]
    simpa using hall
  have hsummary : 2 ≤ (Gate.summary j.findings.split).length := by
    rw [Gate.summary, List.length_append]
    exact Nat.le_add_right 2 _
  unfold ofJudged at h
  simp only [hsplit, hi, Bool.false_eq_true, if_false] at h
  refine List.eq_nil_of_length_eq_zero ?_
  split at h
  · simp only [List.length_append] at h
    omega
  · simp only [List.length_append] at h
    omega

end Outcome

end DiagnosticGate
