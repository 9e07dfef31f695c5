import DiagnosticGate.Proofs.Quiet

/-!
What a compilation comes to, by the members of its lists.

The verdict of a compilation and the lists that an update asks for are told by four questions alone:
which codes occur, which are listed, which files are covered, and which entries cover one. The order
of the lists and the hits of the entries have no part in it, nor do the order, the number and the text
of the diagnostics. So lists with the same members, and diagnostics with the same paths and codes,
come to the same verdict and the same writes.
-/

namespace DiagnosticGate

open Storage

/-- some entry of the list covers `path` -/
def AllowList.Covers (files : AllowList) (path : String) : Prop :=
  ∃ t ∈ files.entries, Coverage.TextCovers t path

theorem AllowList.covers_congr {a b : AllowList} (h : a.agrees b) {path : String} :
    a.Covers path ↔ b.Covers path := by
  simp only [Covers, AllowList.agrees_iff.1 h]

/-! ### Paths and codes -/

/-- what is asked of a diagnostic: its path and its code -/
def Diagnostic.pair (d : Diagnostic) : String × String := (d.file, d.code)

/-- Both have the same pairs of path and code, in whatever order and however often. -/
def SamePairs (ds es : List Diagnostic) : Prop :=
  ∀ p, p ∈ ds.map Diagnostic.pair ↔ p ∈ es.map Diagnostic.pair

namespace SamePairs

variable {ds es : List Diagnostic} {P : String → String → Prop}

instance : Decidable (SamePairs ds es) :=
  decidable_of_iff ((∀ p ∈ ds.map Diagnostic.pair, p ∈ es.map Diagnostic.pair) ∧
    ∀ p ∈ es.map Diagnostic.pair, p ∈ ds.map Diagnostic.pair)
    ⟨fun h p => ⟨h.1 p, h.2 p⟩, fun h => ⟨fun p => (h p).1, fun p => (h p).2⟩⟩

theorem refl (ds : List Diagnostic) : SamePairs ds ds := fun _ => Iff.rfl

theorem exists_iff (h : SamePairs ds es) :
    (∃ d ∈ ds, P d.file d.code) ↔ ∃ d ∈ es, P d.file d.code := by
  have hpair : ∀ {ds : List Diagnostic},
      (∃ d ∈ ds, P d.file d.code) ↔ ∃ p ∈ ds.map Diagnostic.pair, P p.1 p.2 := by
    simp [Diagnostic.pair]
  rw [hpair, hpair]
  exact exists_congr fun p => and_congr_left fun _ => h p

theorem forall_iff (h : SamePairs ds es) :
    (∀ d ∈ ds, P d.file d.code) ↔ ∀ d ∈ es, P d.file d.code := by
  have hno := not_congr (h.exists_iff (P := fun file code => ¬ P file code))
  push Not at hno
  exact hno

theorem nil_iff (h : SamePairs ds es) : ds = [] ↔ es = [] := by
  have hnone := h.forall_iff (P := fun _ _ => False)
  simp only [List.eq_nil_iff_forall_not_mem]
  exact hnone

theorem agrees_named (h : SamePairs ds es) :
    (AllowLists.named ds).agrees (AllowLists.named es) := by
  refine AllowLists.agrees_iff.2 ⟨AllowList.agrees_iff.2 ?_, AllowList.agrees_iff.2 ?_⟩
  · intro c
    simp only [AllowLists.named, AllowLists.ofLists, AllowList.mem_ofList, List.mem_map]
    exact h.exists_iff (P := fun _ code => code = c)
  · intro t
    simp only [AllowLists.named, AllowLists.ofLists, AllowList.mem_ofList, List.mem_map]
    exact h.exists_iff (P := fun file _ => file = t)

theorem makeLists_eq {σ : Type} [TextFiles σ] {store : σ} {settings : Settings}
    (h : SamePairs ds es) : makeLists store settings ds = makeLists store settings es := by
  rw [DiagnosticGate.makeLists_eq, DiagnosticGate.makeLists_eq,
    AllowLists.saves_congr settings h.agrees_named]

end SamePairs

namespace AllowLists

/-- `next` is what an update makes of `lists` for the diagnostics `ds`: the codes that occurred, the
entries in use, and the uncovered files of diagnostics whose code is listed. -/
structure Revised (lists : AllowLists) (ds : List Diagnostic) (next : AllowLists) : Prop where
  codes : ∀ c, c ∈ next.codes.entries ↔ c ∈ lists.codes.entries ∧ ∃ d ∈ ds, d.code = c
  files : ∀ t, t ∈ next.files.entries ↔
    (t ∈ lists.files.entries ∧ ∃ d ∈ ds, Coverage.TextCovers t d.file) ∨
      ∃ d ∈ ds, d.code ∈ lists.codes.entries ∧ ¬ lists.files.Covers d.file ∧ d.file = t

variable {lists lists' next next' : AllowLists} {ds : List Diagnostic}

theorem Revised.congr (h : lists.Revised ds next) (hl : lists.agrees lists')
    (hn : next.agrees next') : lists'.Revised ds next' := by
  obtain ⟨hcodes, hfiles⟩ := agrees_iff.1 hl
  obtain ⟨hcodes', hfiles'⟩ := agrees_iff.1 hn
  refine ⟨?_, ?_⟩
  · intro c
    rw [← AllowList.agrees_iff.1 hcodes', ← AllowList.agrees_iff.1 hcodes]
    exact h.codes c
  · intro t
    simp only [← AllowList.agrees_iff.1 hfiles', ← AllowList.agrees_iff.1 hfiles,
      ← AllowList.agrees_iff.1 hcodes, ← AllowList.covers_congr hfiles]
    exact h.files t

theorem Revised.of_samePairs {es : List Diagnostic} (h : lists.Revised ds next)
    (hs : SamePairs ds es) : lists.Revised es next := by
  refine ⟨?_, ?_⟩
  · intro c
    rw [h.codes, hs.exists_iff (P := fun _ code => code = c)]
  · intro t
    rw [h.files, hs.exists_iff (P := fun file _ => Coverage.TextCovers t file),
      hs.exists_iff (P := fun file code =>
        code ∈ lists.codes.entries ∧ ¬ lists.files.Covers file ∧ file = t)]

theorem Revised.agrees (h : lists.Revised ds next) (h' : lists.Revised ds next') :
    next.agrees next' := by
  refine agrees_iff.2 ⟨AllowList.agrees_iff.2 ?_, AllowList.agrees_iff.2 ?_⟩
  · exact fun c => (h.codes c).trans (h'.codes c).symm
  · exact fun t => (h.files t).trans (h'.files t).symm

theorem Revised.ofText (h : lists.Revised ds next)
    (hread : ∀ t ∈ lists.files.entries, ∃ e, Entry.ofText t = .ok e)
    (hplain : ∀ d ∈ ds, d.code ∈ lists.codes.entries → isGlob d.file = false) :
    ∀ t ∈ next.files.entries, ∃ e, Entry.ofText t = .ok e := by
  intro t ht
  rcases (h.files t).1 ht with ⟨ht, -⟩ | ⟨d, hd, hc, -, rfl⟩
  · exact hread t ht
  · exact ⟨_, Entry.ofText_of_not_isGlob (hplain d hd hc)⟩

/-- Lists whose entries can be read are gone by. -/
theorem agrees_adopted {held persisted : AllowLists}
    (h : ∀ t ∈ persisted.files.entries, ∃ e, Entry.ofText t = .ok e) :
    persisted.agrees (held.adopted persisted) := by
  obtain ⟨coverage, hcoverage⟩ := Coverage.exists_ofTexts_iff.2 h
  unfold adopted
  by_cases ha : persisted.agrees held
  · rw [if_pos ha]
    exact ha
  · rw [if_neg ha, hcoverage]
    exact persisted.agrees_refl

end AllowLists

/-! ### The steps on judged diagnostics -/

section

variable {lists : AllowLists} {fresh : Coverage} {ds : List Diagnostic} {apply : Bool}

/-- **Applied, the steps revise the lists.** -/
theorem revised_resolve_ofList (h : Coverage.ofTexts lists.files.entries = .ok fresh) :
    lists.Revised ds (resolve true (Judged.ofList false lists.codes fresh ds).findings.split
      (Judged.ofList false lists.codes fresh ds).coverage lists).result := by
  refine ⟨?_, ?_⟩
  · intro c
    rw [mem_codes_resolve, Findings.split_eq, Judged.all_ofList]
  · intro t
    have hcovers : ∀ path, fresh.covers path = false ↔ ¬ lists.files.Covers path := by
      intro path
      rw [AllowList.Covers, ← Coverage.covers_ofTexts_iff h, Bool.not_eq_true]
    have hunused : t ∈ lists.files.entries ∧ t ∉ (fresh.countAll (ds.map (·.file))).unused ↔
        t ∈ lists.files.entries ∧ ∃ d ∈ ds, Coverage.TextCovers t d.file := by
      refine and_congr_right fun ht => ?_
      simp only [Coverage.mem_unused_ofTexts h, ht, true_and, List.mem_map, not_forall, not_not,
        forall_exists_index, and_imp, forall_apply_eq_imp_iff₂, exists_prop]
    rw [mem_files_resolve, Findings.split_eq, Judged.coverage_ofList, if_neg Bool.false_ne_true,
      hunused]
    simp only [mem_promotable_ofList, hcovers]
    refine or_congr_right ?_
    constructor
    · rintro ⟨d, ⟨hd, hcov, hc⟩, rfl⟩
      exact ⟨d, hd, hc, hcov, rfl⟩
    · rintro ⟨d, hd, hc, hcov, rfl⟩
      exact ⟨d, ⟨hd, hcov, hc⟩, rfl⟩

/-- **The steps pass** if all codes are listed and, unless they are applied, all files are covered
by entries that each cover one. -/
theorem verdict_resolve_ofList (h : Coverage.ofTexts lists.files.entries = .ok fresh) :
    (resolve apply (Judged.ofList false lists.codes fresh ds).findings.split
        (Judged.ofList false lists.codes fresh ds).coverage lists).verdict = .pass ↔
      (∀ d ∈ ds, d.code ∈ lists.codes.entries) ∧ (apply = false →
        (∀ t ∈ lists.files.entries, ∃ d ∈ ds, Coverage.TextCovers t d.file) ∧
          ∀ d ∈ ds, lists.files.Covers d.file) := by
  rw [verdict_resolve, Findings.split_eq, Judged.coverage_ofList, if_neg Bool.false_ne_true,
    unused_countAll_files_eq_nil_iff h, valid_ofList_eq_nil_iff, promotable_ofList_eq_nil_iff]
  simp only [AllowList.Covers, Coverage.covers_ofTexts_iff h]
  refine and_congr_right fun hvalid => imp_congr_right fun _ => and_congr_right fun _ => ?_
  exact ⟨fun hp d hd => hp d hd (hvalid d hd), fun hc d hd _ => hc d hd⟩

end

/-! ### The outcome of lines -/

namespace Outcome

variable {σ : Type} [TextFiles σ] {files : σ} {settings : Settings} {lists : AllowLists}
variable {lines : List String} {o : Outcome σ}

theorem ofLines_eq_ok (h : ofLines files settings lists lines = .ok o) :
    ∃ fresh, Coverage.ofTexts lists.files.entries = .ok fresh ∧
      o = ofJudged files settings lists
        (.ofList settings.init lists.codes fresh (Diagnostic.ofLines lines)) := by
  unfold ofLines at h
  split at h
  · cases h
  · rename_i fresh hfresh
    cases h
    exact ⟨fresh, hfresh, rfl⟩

theorem eq_of_no_diagnostics (h : ofLines files settings lists lines = .ok o)
    (hds : Diagnostic.ofLines lines = []) : o = ⟨.pass, [.noErrors], files, lists⟩ := by
  obtain ⟨fresh, -, rfl⟩ := ofLines_eq_ok h
  have hall : (Judged.ofList settings.init lists.codes fresh
      (Diagnostic.ofLines lines)).findings.split.all.isEmpty = true := by
    rw [Findings.split_eq, Judged.all_ofList, hds]
    rfl
  rw [ofJudged]
  exact if_pos hall

/-- **A report** changes nothing, and passes exactly if the lists fit the diagnostics; codes that did
not occur do not matter. -/
theorem of_report (h : ofLines files settings lists lines = .ok o)
    (hds : Diagnostic.ofLines lines ≠ []) (hi : settings.init = false)
    (hu : settings.autoUpdate = false) :
    o.files = files ∧ o.lists = lists ∧ (o.verdict = .pass ↔
      (∀ d ∈ Diagnostic.ofLines lines, d.code ∈ lists.codes.entries) ∧
      (∀ t ∈ lists.files.entries, ∃ d ∈ Diagnostic.ofLines lines, Coverage.TextCovers t d.file) ∧
      ∀ d ∈ Diagnostic.ofLines lines, lists.files.Covers d.file) := by
  obtain ⟨fresh, hfresh, rfl⟩ := ofLines_eq_ok h
  have hall : (Judged.ofList false lists.codes fresh
      (Diagnostic.ofLines lines)).findings.split.all.isEmpty = false := by
    rw [Findings.split_eq, Judged.all_ofList]
    simpa using hds
  have hverdict := @verdict_resolve_ofList lists fresh (Diagnostic.ofLines lines) false hfresh
  simp only [ofJudged, hi, hu, hall, Bool.false_eq_true, if_false, hverdict, true_and, forall_const]

/-- **An update** writes the revised lists, and passes exactly if all codes are listed and no write
fails. -/
theorem of_update (h : ofLines files settings lists lines = .ok o)
    (hds : Diagnostic.ofLines lines ≠ []) (hi : settings.init = false) (hu : settings.autoUpdate) :
    ∃ wanted, lists.Revised (Diagnostic.ofLines lines) wanted ∧
      o.files = (writeLists files settings lists wanted).files ∧
      o.lists = lists.adopted (writeLists files settings lists wanted).persisted ∧
      (o.verdict = .pass ↔ (∀ d ∈ Diagnostic.ofLines lines, d.code ∈ lists.codes.entries) ∧
        (writeLists files settings lists wanted).verdict = .pass) := by
  obtain ⟨fresh, hfresh, rfl⟩ := ofLines_eq_ok h
  have hall : (Judged.ofList false lists.codes fresh
      (Diagnostic.ofLines lines)).findings.split.all.isEmpty = false := by
    rw [Findings.split_eq, Judged.all_ofList]
    simpa using hds
  have hverdict := @verdict_resolve_ofList lists fresh (Diagnostic.ofLines lines) true hfresh
  refine ⟨_, revised_resolve_ofList hfresh, ?_⟩
  simp only [ofJudged, hi, hu, hall, Bool.false_eq_true, if_false, if_true,
    Verdict.or_eq_pass_iff, hverdict, Bool.true_eq_false, false_imp_iff, and_true]

theorem of_making (h : ofLines files settings lists lines = .ok o)
    (hds : Diagnostic.ofLines lines ≠ []) (hi : settings.init) :
    o.verdict = (makeLists files settings (Diagnostic.ofLines lines)).verdict ∧
      o.files = (makeLists files settings (Diagnostic.ofLines lines)).files := by
  obtain ⟨fresh, -, rfl⟩ := ofLines_eq_ok h
  have hall : (Judged.ofList true lists.codes fresh (Diagnostic.ofLines lines)).findings.split.all =
      Diagnostic.ofLines lines := by
    rw [Findings.split_eq, Judged.all_ofList]
  simp only [ofJudged, hi, hall, List.isEmpty_iff, hds, if_true, if_false]
  exact ⟨trivial, trivial⟩

/-- **Lists with the same members and diagnostics with the same pairs** come to the same verdict and
the same store. -/
theorem eq_of_samePairs {lists' : AllowLists} {lines' : List String} {o' : Outcome σ}
    (h : ofLines files settings lists lines = .ok o)
    (h' : ofLines files settings lists' lines' = .ok o') (ha : lists.agrees lists')
    (hs : SamePairs (Diagnostic.ofLines lines) (Diagnostic.ofLines lines')) :
    o.verdict = o'.verdict ∧ o.files = o'.files := by
  obtain ⟨hcodes, hfiles⟩ := AllowLists.agrees_iff.1 ha
  by_cases hds : Diagnostic.ofLines lines = []
  · rw [eq_of_no_diagnostics h hds, eq_of_no_diagnostics h' (hs.nil_iff.1 hds)]
    exact ⟨rfl, rfl⟩
  have hds' : Diagnostic.ofLines lines' ≠ [] := fun hnil => hds (hs.nil_iff.2 hnil)
  cases hi : settings.init with
  | true =>
    obtain ⟨hverdict, hleft⟩ := of_making h hds hi
    obtain ⟨hverdict', hleft'⟩ := of_making h' hds' hi
    rw [hverdict, hleft, hverdict', hleft', hs.makeLists_eq]
    exact ⟨rfl, rfl⟩
  | false =>
    have hlisted : (∀ d ∈ Diagnostic.ofLines lines, d.code ∈ lists.codes.entries) ↔
        ∀ d ∈ Diagnostic.ofLines lines', d.code ∈ lists'.codes.entries := by
      simp only [AllowList.agrees_iff.1 hcodes]
      exact hs.forall_iff (P := fun _ code => code ∈ lists'.codes.entries)
    cases hu : settings.autoUpdate with
    | false =>
      have hused : (∀ t ∈ lists.files.entries,
          ∃ d ∈ Diagnostic.ofLines lines, Coverage.TextCovers t d.file) ↔
          ∀ t ∈ lists'.files.entries,
            ∃ d ∈ Diagnostic.ofLines lines', Coverage.TextCovers t d.file := by
        simp only [AllowList.agrees_iff.1 hfiles]
        exact forall₂_congr fun t _ => hs.exists_iff (P := fun file _ => Coverage.TextCovers t file)
      have hcovered : (∀ d ∈ Diagnostic.ofLines lines, lists.files.Covers d.file) ↔
          ∀ d ∈ Diagnostic.ofLines lines', lists'.files.Covers d.file := by
        simp only [AllowList.covers_congr hfiles]
        exact hs.forall_iff (P := fun file _ => lists'.files.Covers file)
      obtain ⟨hleft, -, hverdict⟩ := of_report h hds hi hu
      obtain ⟨hleft', -, hverdict'⟩ := of_report h' hds' hi hu
      refine ⟨Verdict.eq_of_pass_iff ?_, hleft.trans hleft'.symm⟩
      rw [hverdict, hverdict', hlisted, hused, hcovered]
    | true =>
      obtain ⟨wanted, hrevised, hleft, -, hverdict⟩ := of_update h hds hi hu
      obtain ⟨wanted', hrevised', hleft', -, hverdict'⟩ := of_update h' hds' hi hu
      have hwanted : wanted.agrees wanted' :=
        ((hrevised.congr ha wanted.agrees_refl).of_samePairs hs).agrees hrevised'
      obtain ⟨hsaved, hpassed⟩ := writeLists_eq_saveAll files settings lists wanted
      obtain ⟨hsaved', hpassed'⟩ := writeLists_eq_saveAll files settings lists' wanted'
      rw [AllowLists.writes_congr settings ha hwanted] at hsaved hpassed
      refine ⟨Verdict.eq_of_pass_iff ?_, ?_⟩
      · rw [hverdict, hverdict', hpassed, hpassed', hlisted]
      · rw [hleft, hleft', hsaved, hsaved']

theorem written (h : ofLines files settings lists lines = .ok o) (hi : settings.init = false) :
    WrittenAt settings.paths files o.files := by
  by_cases hds : Diagnostic.ofLines lines = []
  · rw [eq_of_no_diagnostics h hds]
    exact .none
  cases hu : settings.autoUpdate with
  | false =>
    obtain ⟨hfiles, -⟩ := of_report h hds hi hu
    rw [hfiles]
    exact .none
  | true =>
    obtain ⟨wanted, -, hfiles, -⟩ := of_update h hds hi hu
    rw [hfiles]
    exact written_writeLists files settings lists wanted

/-- **Files that hold the lists hold those behind the compilation**, whichever writes fail, unless an
added file is a glob. -/
theorem stored (h : ofLines files settings lists lines = .ok o) (hi : settings.init = false)
    (hl : LawfulAt settings.paths files) (hne : settings.codesPath ≠ settings.filesPath)
    (hs : Stored files settings lists)
    (hplain : ∀ d ∈ Diagnostic.ofLines lines, d.code ∈ lists.codes.entries →
      isGlob d.file = false) : Stored o.files settings o.lists := by
  by_cases hds : Diagnostic.ofLines lines = []
  · rw [eq_of_no_diagnostics h hds]
    exact hs
  cases hu : settings.autoUpdate with
  | false =>
    obtain ⟨hfiles, hlists, -⟩ := of_report h hds hi hu
    rw [hfiles, hlists]
    exact hs
  | true =>
    obtain ⟨fresh, hfresh, -⟩ := ofLines_eq_ok h
    obtain ⟨wanted, hrevised, hfiles, hlists, -⟩ := of_update h hds hi hu
    have hread := Coverage.exists_ofTexts_iff.1 ⟨fresh, hfresh⟩
    have hpersisted : ∀ t ∈ (writeLists files settings lists wanted).persisted.files.entries,
        ∃ e, Entry.ofText t = .ok e := by
      rcases (persisted_writeLists files settings lists wanted).2 with hp | hp <;> rw [hp]
      · exact hread
      · exact hrevised.ofText hread hplain
    rw [hfiles, hlists]
    exact (Stored.writeLists hl hne hs).iff_agrees.2 (AllowLists.agrees_adopted hpersisted)

end Outcome

end DiagnosticGate
