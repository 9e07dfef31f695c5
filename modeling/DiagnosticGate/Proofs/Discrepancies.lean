import DiagnosticGate.Discrepancies
import DiagnosticGate.Proofs.Findings
import Mathlib.Data.List.Nodup

/-!
What the four steps make of the lists.

Applied, they keep the codes that occurred, drop the entries that covered nothing and add the files
of the promotable diagnostics behind the others, each once; what stays keeps its order. They tell
nothing exactly if there is nothing to change and no error remains. They pass if no error remains and,
where they are not applied, nothing of the files is to be changed.
-/

namespace DiagnosticGate

variable {apply : Bool} {ds : List Diagnostic} {codes files : AllowList} {coverage : Coverage}
variable {split : Findings.Split} {lists : AllowLists} {c s : String}

/-! ### The steps -/

theorem mem_staleCodes : c ∈ staleCodes ds codes ↔ c ∈ codes.entries ∧ ∀ d ∈ ds, d.code ≠ c := by
  rw [staleCodes, List.mem_filter]
  simp

theorem entries_dropStaleCodes : (dropStaleCodes true ds codes).result.entries =
    codes.entries.filter fun c => ∃ d ∈ ds, d.code = c := by
  have hstale : ∀ c ∈ codes.entries, c ∈ staleCodes ds codes ↔ ¬ ∃ d ∈ ds, d.code = c := by
    intro c hc
    simp [mem_staleCodes, hc]
  unfold dropStaleCodes
  simp only [List.isEmpty_iff]
  by_cases h : staleCodes ds codes = []
  · rw [if_pos h, eq_comm, List.filter_eq_self]
    intro c hc
    have hno : c ∉ staleCodes ds codes := by simp [h]
    simpa [hstale c hc] using hno
  · rw [if_neg h, if_pos trivial]
    refine List.filter_congr fun c hc => ?_
    simp only [List.contains_eq_mem, hstale c hc, decide_not, Bool.not_not]

theorem mem_dropStaleCodes :
    c ∈ (dropStaleCodes true ds codes).result.entries ↔ c ∈ codes.entries ∧ ∃ d ∈ ds, d.code = c := by
  rw [entries_dropStaleCodes, List.mem_filter, decide_eq_true_iff]

theorem entries_dropUnusedFiles : (dropUnusedFiles true coverage files).result.entries =
    files.entries.filter fun s => s ∉ coverage.unused := by
  unfold dropUnusedFiles
  simp only [List.isEmpty_iff]
  by_cases h : coverage.unused = []
  · rw [if_pos h, h]
    simp
  · rw [if_neg h, if_pos trivial]
    refine List.filter_congr fun s _ => ?_
    simp

theorem mem_dropUnusedFiles :
    s ∈ (dropUnusedFiles true coverage files).result.entries ↔
      s ∈ files.entries ∧ s ∉ coverage.unused := by
  rw [entries_dropUnusedFiles, List.mem_filter, decide_eq_true_iff]

theorem entries_promoteFiles : (promoteFiles true ds files).result.entries =
    files.entries ++ ((ds.map (·.file)).filter fun s => s ∉ files.entries).eraseDups := by
  unfold promoteFiles
  simp only [List.isEmpty_iff]
  by_cases h : ds = []
  · rw [if_pos h, h]
    simp
  · rw [if_neg h, if_pos trivial]
    show (files.insertAll (ds.map (·.file))).entries = _
    rw [AllowList.entries_insertAll]
    congr 2
    refine List.filter_congr fun s _ => ?_
    simp [AllowList.contains]

theorem mem_promoteFiles :
    s ∈ (promoteFiles true ds files).result.entries ↔ s ∈ files.entries ∨ ∃ d ∈ ds, d.file = s := by
  rw [entries_promoteFiles, List.mem_append, List.mem_eraseDups, List.mem_filter, List.mem_map]
  by_cases h : s ∈ files.entries <;> simp [h]

theorem messages_dropStaleCodes : (dropStaleCodes apply ds codes).messages = [] ↔
    staleCodes ds codes = [] := by
  unfold dropStaleCodes
  simp only [List.isEmpty_iff]
  by_cases h : staleCodes ds codes = []
  · simp [h]
  · cases apply <;> simp [h]

theorem messages_dropUnusedFiles : (dropUnusedFiles apply coverage files).messages = [] ↔
    coverage.unused = [] := by
  unfold dropUnusedFiles
  simp only [List.isEmpty_iff]
  by_cases h : coverage.unused = []
  · simp [h]
  · cases apply <;> simp [h]

theorem messages_promoteFiles : (promoteFiles apply ds files).messages = [] ↔ ds = [] := by
  unfold promoteFiles
  simp only [List.isEmpty_iff]
  by_cases h : ds = []
  · simp [h]
  · cases apply <;> simp [h]

theorem messages_reportValid : (reportValid ds).messages = [] ↔ ds = [] := by
  unfold reportValid
  simp only [List.isEmpty_iff]
  by_cases h : ds = []
  · simp [h]
  · simp [h]

theorem verdict_dropUnusedFiles : (dropUnusedFiles apply coverage files).verdict = .pass ↔
    (apply = false → coverage.unused = []) := by
  unfold dropUnusedFiles
  simp only [List.isEmpty_iff]
  by_cases h : coverage.unused = []
  · simp [h]
  · cases apply <;> simp [h]

theorem verdict_promoteFiles : (promoteFiles apply ds files).verdict = .pass ↔
    (apply = false → ds = []) := by
  unfold promoteFiles
  simp only [List.isEmpty_iff]
  by_cases h : ds = []
  · simp [h]
  · cases apply <;> simp [h]

theorem verdict_reportValid : (reportValid ds).verdict = .pass ↔ ds = [] := by
  unfold reportValid
  simp only [List.isEmpty_iff]
  by_cases h : ds = []
  · simp [h]
  · simp [h]

/-! ### All four -/

/-- **The codes that are kept** are those that occurred. -/
theorem mem_codes_resolve : c ∈ (resolve true split coverage lists).result.codes.entries ↔
    c ∈ lists.codes.entries ∧ ∃ d ∈ split.all, d.code = c := mem_dropStaleCodes

/-- **The files that are kept** are those in use, together with the files to be promoted. -/
theorem mem_files_resolve : s ∈ (resolve true split coverage lists).result.files.entries ↔
    (s ∈ lists.files.entries ∧ s ∉ coverage.unused) ∨ ∃ d ∈ split.promotable, d.file = s := by
  show s ∈ (promoteFiles true split.promotable
    (dropUnusedFiles true coverage lists.files).result).result.entries ↔ _
  rw [mem_promoteFiles, mem_dropUnusedFiles]

/-- **Nothing is told** exactly if nothing is to be changed and no error remains. -/
theorem messages_resolve : (resolve apply split coverage lists).messages = [] ↔
    staleCodes split.all lists.codes = [] ∧ coverage.unused = [] ∧ split.promotable = [] ∧
      split.valid = [] := by
  unfold resolve
  simp only [List.append_eq_nil_iff, messages_dropStaleCodes, messages_dropUnusedFiles,
    messages_promoteFiles, messages_reportValid]
  tauto

theorem listFault_not_mem_resolve {e : Storage.ListFileError} :
    Message.listFault e ∉ (resolve apply split coverage lists).messages := by
  have hcodes : .listFault e ∉ (dropStaleCodes apply split.all lists.codes).messages := by
    unfold dropStaleCodes
    by_cases h : staleCodes split.all lists.codes = []
    · simp [h]
    · cases apply <;> simp [h]
  have hunused : .listFault e ∉ (dropUnusedFiles apply coverage lists.files).messages := by
    unfold dropUnusedFiles
    by_cases h : coverage.unused = []
    · simp [h]
    · cases apply <;> simp [h]
  have hfiles : ∀ files, .listFault e ∉ (promoteFiles apply split.promotable files).messages := by
    intro files
    unfold promoteFiles
    by_cases h : split.promotable = []
    · simp [h]
    · cases apply <;> simp [h]
  have hvalid : .listFault e ∉ (reportValid split.valid).messages := by
    unfold reportValid
    by_cases h : split.valid = []
    · simp [h]
    · simp [h]
  simp [resolve, hcodes, hunused, hfiles, hvalid]

/-- **It passes** if no error remains and, unless they are applied, no file is to be changed. -/
theorem verdict_resolve : (resolve apply split coverage lists).verdict = .pass ↔
    split.valid = [] ∧ (apply = false → coverage.unused = [] ∧ split.promotable = []) := by
  unfold resolve
  simp only [Verdict.or_eq_pass_iff, verdict_dropStaleCodes, verdict_dropUnusedFiles,
    verdict_promoteFiles, verdict_reportValid]
  tauto

theorem resolve_of_settled (hstale : staleCodes split.all lists.codes = [])
    (hunused : coverage.unused = []) (hpromotable : split.promotable = []) :
    resolve apply split coverage lists =
      ⟨(reportValid split.valid).verdict, (reportValid split.valid).messages, lists⟩ := by
  have hcodes : dropStaleCodes apply split.all lists.codes = ⟨.pass, [], lists.codes⟩ := by
    rw [dropStaleCodes, hstale]
    rfl
  have hfiles : dropUnusedFiles apply coverage lists.files = ⟨.pass, [], lists.files⟩ := by
    rw [dropUnusedFiles, hunused]
    rfl
  rw [resolve, hcodes, hfiles, hpromotable]
  rfl

theorem resolve_of_quiet (h : (resolve apply split coverage lists).messages = []) :
    resolve apply split coverage lists = ⟨.pass, [], lists⟩ := by
  obtain ⟨hstale, hunused, hpromotable, hvalid⟩ := messages_resolve.1 h
  rw [resolve_of_settled hstale hunused hpromotable, hvalid]
  rfl

/-! ### The lists that are left -/

/-- **What is left of the lists.** Whatever a coverage has been asked and however diagnostics were
judged: without applying, the lists stay as they are. Applied, the codes that occurred and the entries
that covered something stay in their order. The files of the promotable diagnostics come behind these
entries, each at its first place unless it is there already. So the file of a promotable diagnostic
that is an entry without hits is taken out and added again, and stands in the list once. -/
theorem entries_resolve (findings : Findings) (coverage : Coverage) (lists : AllowLists) :
    (resolve false findings.split coverage lists).result = lists ∧
    let next := (resolve true findings.split coverage lists).result
    let kept := lists.files.entries.filter fun s => s ∉ coverage.unused
    let promoted := findings.promotable.map (·.file)
    next.codes.entries = lists.codes.entries.filter (fun c => ∃ d ∈ findings.all, d.code = c) ∧
    next.files.entries = kept ++ (promoted.filter fun s => s ∉ kept).eraseDups ∧
    ∀ s ∈ coverage.unused, s ∈ promoted → s ∉ kept ∧ next.files.entries.count s = 1 := by
  refine ⟨result_resolve_false _ _ _, ?_⟩
  intro next kept promoted
  have hcodes : next.codes.entries =
      lists.codes.entries.filter fun c => ∃ d ∈ findings.split.all, d.code = c :=
    entries_dropStaleCodes
  have hfiles : next.files.entries = kept ++ (promoted.filter fun s => s ∉ kept).eraseDups := by
    show (promoteFiles true findings.split.promotable
      (dropUnusedFiles true coverage lists.files).result).result.entries = _
    rw [entries_promoteFiles, entries_dropUnusedFiles, Findings.split_eq]
  rw [Findings.split_eq] at hcodes
  refine ⟨hcodes, hfiles, ?_⟩
  intro s hunused hpromoted
  have hout : s ∉ kept := by simp [kept, hunused]
  have hnew : s ∈ promoted.filter fun s => s ∉ kept :=
    List.mem_filter.2 ⟨hpromoted, decide_eq_true hout⟩
  refine ⟨hout, List.count_eq_one_of_mem next.files.nodup ?_⟩
  rw [hfiles]
  exact List.mem_append_right kept (List.mem_eraseDups.2 hnew)

/-- a coverage that has been asked for one of its paths only; one of the others is no entry of the list
of files -/
def partlyUsed : Coverage := ⟨[⟨"lib/a.ts", .path, 0⟩, ⟨"lib/b.ts", .path, 2⟩, ⟨"lib/z.ts", .path, 0⟩]⟩

/-- diagnostics of a listed file, of a file twice, and of the file of an entry without hits -/
def promotedFindings : Findings :=
  ⟨#[⟨.promotable, ⟨"lib/d.ts", "TS2322", []⟩⟩, ⟨.ignored, ⟨"lib/b.ts", "TS2532", []⟩⟩,
    ⟨.promotable, ⟨"lib/a.ts", "TS2322", []⟩⟩, ⟨.promotable, ⟨"lib/d.ts", "TS2322", []⟩⟩]⟩

/-- An entry is removed and added again, behind a file that was found before. -/
theorem entries_resolve_readded :
    let lists := AllowLists.ofLists ["TS7006", "TS2532", "TS2322"] ["lib/a.ts", "lib/b.ts"]
    let next := (resolve true promotedFindings.split partlyUsed lists).result
    "lib/a.ts" ∈ partlyUsed.unused ∧ "lib/a.ts" ∈ promotedFindings.promotable.map (·.file) ∧
      next.codes.entries = ["TS2532", "TS2322"] ∧
      next.files.entries = ["lib/b.ts", "lib/d.ts", "lib/a.ts"] ∧
      next.files.entries.count "lib/a.ts" = 1 := by
  intro lists next
  obtain ⟨-, hcodes, hfiles, honce⟩ := entries_resolve promotedFindings partlyUsed lists
  have hunused : "lib/a.ts" ∈ partlyUsed.unused := by decide +kernel
  have hpromoted : "lib/a.ts" ∈ promotedFindings.promotable.map (·.file) := by decide +kernel
  refine ⟨hunused, hpromoted, ?_, ?_, (honce _ hunused hpromoted).2⟩
  · rw [hcodes]
    decide +kernel
  · rw [hfiles]
    decide +kernel

end DiagnosticGate
