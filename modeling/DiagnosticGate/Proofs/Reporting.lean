import DiagnosticGate.Proofs.Reading
import DiagnosticGate.Proofs.Usage
import DiagnosticGate.Proofs.Verdict

/-!
What a report says.

A report counts the diagnostics of a compilation and then goes through four steps: codes that did not
occur, entries that covered nothing, diagnostics whose file could be listed, and diagnostics whose code
is not listed. What each of them has to say can be told from the lists and the diagnostics alone. Every
step says it, whatever the steps before it have come to, and so the numbers add up and every diagnostic
that is not ignored is quoted once.
-/

namespace DiagnosticGate

open Storage

instance (files : AllowList) (path : String) : Decidable (files.Covers path) :=
  inferInstanceAs (Decidable (∃ t ∈ files.entries, Coverage.TextCovers t path))

/-! ### The parts of a report -/

namespace AllowLists

variable (lists : AllowLists) (ds : List Diagnostic)

/-- the diagnostics with a listed code and a covered file -/
def ignored : List Diagnostic :=
  ds.filter fun d => d.code ∈ lists.codes.entries ∧ lists.files.Covers d.file

/-- the other diagnostics with a listed code -/
def promotable : List Diagnostic :=
  ds.filter fun d => d.code ∈ lists.codes.entries ∧ ¬ lists.files.Covers d.file

/-- the diagnostics whose code is not listed, wherever their file is -/
def unlisted : List Diagnostic := ds.filter fun d => d.code ∉ lists.codes.entries

/-- the codes that no diagnostic has -/
def stale : List String := lists.codes.entries.filter fun c => ∀ d ∈ ds, d.code ≠ c

/-- the entries that cover no file of a diagnostic -/
def unused : List String :=
  lists.files.entries.filter fun t => ∀ d ∈ ds, ¬ Coverage.TextCovers t d.file

/-- **Every diagnostic is in one part.** -/
theorem length_parts : ds.length =
    (lists.ignored ds).length + ((lists.promotable ds).length + (lists.unlisted ds).length) := by
  induction ds with
  | nil => rfl
  | cons d ds ih =>
    simp only [ignored, promotable, unlisted, List.filter_cons, List.length_cons] at ih ⊢
    by_cases hc : d.code ∈ lists.codes.entries <;> by_cases hf : lists.files.Covers d.file <;>
      simp [hc, hf, ih] <;> omega

end AllowLists

/-! ### The parts as they are judged -/

section

variable {lists : AllowLists} {fresh : Coverage} {ds : List Diagnostic}

theorem select_ofList (keep : Class → Bool) :
    (Judged.ofList false lists.codes fresh ds).findings.select keep =
      ds.filter fun d => keep (d.judge lists.codes fresh) := by
  rw [Findings.select, Judged.findings_ofList, List.filter_map, List.map_map]
  simp [Function.comp_def]

/-- **The parts of the split are those of the report.** -/
theorem split_ofList (h : Coverage.ofTexts lists.files.entries = .ok fresh) :
    (Judged.ofList false lists.codes fresh ds).findings.ignored = lists.ignored ds ∧
    (Judged.ofList false lists.codes fresh ds).findings.promotable = lists.promotable ds ∧
    (Judged.ofList false lists.codes fresh ds).findings.valid = lists.unlisted ds ∧
    (Judged.ofList false lists.codes fresh ds).findings.reported.length =
      (lists.promotable ds).length + (lists.unlisted ds).length := by
  have hcovers (path : String) : fresh.covers path ↔ lists.files.Covers path :=
    Coverage.covers_ofTexts_iff h
  have hignored : (Judged.ofList false lists.codes fresh ds).findings.ignored = lists.ignored ds := by
    rw [Findings.ignored, select_ofList, AllowLists.ignored]
    refine List.filter_congr fun d _ => ?_
    rw [Bool.eq_iff_iff, beq_iff_eq, judge_eq_ignored_iff, hcovers, and_comm, decide_eq_true_iff]
  refine ⟨hignored, ?_, ?_, ?_⟩
  · rw [Findings.promotable, select_ofList, AllowLists.promotable]
    refine List.filter_congr fun d _ => ?_
    rw [Bool.eq_iff_iff, beq_iff_eq, judge_eq_promotable_iff, ← Bool.not_eq_true, hcovers, and_comm,
      decide_eq_true_iff]
  · rw [Findings.valid, select_ofList, AllowLists.unlisted]
    refine List.filter_congr fun d _ => ?_
    rw [Diagnostic.judge, Class.codeListed_of, decide_not, AllowList.contains, List.contains_eq_mem]
  · have hparts := lists.length_parts ds
    have hrest : ds.length = (Judged.ofList false lists.codes fresh ds).findings.ignored.length +
        (Judged.ofList false lists.codes fresh ds).findings.reported.length := by
      rw [Findings.ignored, Findings.reported, select_ofList, select_ofList]
      exact List.length_eq_length_filter_add _
    rw [hignored] at hrest
    omega

theorem staleCodes_eq : staleCodes ds lists.codes = lists.stale ds := by
  refine List.filter_congr fun c _ => ?_
  rw [Bool.eq_iff_iff]
  simp

/-- **Unused are the entries that cover no file.** -/
theorem unused_ofList (h : Coverage.ofTexts lists.files.entries = .ok fresh) :
    (Judged.ofList false lists.codes fresh ds).coverage.unused = lists.unused ds := by
  have hnodup : lists.files.entries.eraseDups = lists.files.entries :=
    (Coverage.texts_eq_eraseDups h).symm.trans (Coverage.texts_ofTexts h lists.files.nodup)
  rw [Judged.coverage_ofList, if_neg Bool.false_ne_true, Coverage.unused_countAll h, hnodup]
  refine List.filter_congr fun t _ => ?_
  simp [List.countP_eq_zero, beq_eq_decide]

end

/-! ### What a report tells -/

/-- what a report counts -/
inductive Count
  | detected
  | ignored
  | notIgnored
  | promotable
  | unlisted
  deriving DecidableEq

/-- how a count is worded -/
def Count.text (what : Count) (n : Nat) : String :=
  toString n ++ match what with
    | detected => " errors detected"
    | ignored => " errors have been ignored."
    | notIgnored => " errors were not ignored."
    | promotable => " errors could be ignored, as their error codes are ignored."
    | unlisted => " errors could not be ignored as those codes are not in the ignored list."

namespace Message

/-- what a message counts, and the number -/
def count? : Message → Option (Count × Nat)
  | .detected n => some (.detected, n)
  | .ignored n => some (.ignored, n)
  | .notIgnored n => some (.notIgnored, n)
  | .promotable _ n => some (.promotable, n)
  | .validErrors n => some (.unlisted, n)
  | _ => none

/-- the diagnostic whose text the message is -/
def quoted? : Message → Option Diagnostic
  | .promotableError _ d | .validError d => some d
  | _ => none

/-- the texts that a message lists, those that are not in use -/
def listed? : Message → Option (List String)
  | .staleCodeList texts | .unusedFileList _ texts => some texts
  | _ => none

theorem text_of_count? {m : Message} {what : Count} {n : Nat} (h : m.count? = some (what, n)) :
    m.text = what.text n := by
  cases m <;> cases h <;> rfl

theorem text_of_quoted? {m : Message} {d : Diagnostic} (h : m.quoted? = some d) : m.text = d.text := by
  cases m <;> cases h <;> rfl

theorem text_of_listed? {m : Message} {texts : List String} (h : m.listed? = some texts) :
    m.text = "\n".intercalate texts := by
  cases m <;> cases h <;> rfl

/-- whether a message is about a list that is written -/
def ofWriting : Message → Bool
  | .updating _ | .updated _ | .updateFailed _ | .listFault _ => true
  | _ => false

/-- whether a message lists what is not in use, or hints at what to do -/
def ofEntries : Message → Bool
  | .staleCodes _ | .staleCodeList _ | .unusedFiles _ _ | .unusedFileList _ _ | .willUpdate
  | .updateHint | .promoteHint => true
  | _ => false

theorem silent_of_ofEntries {m : Message} (h : m.ofEntries) : m.count? = none ∧ m.quoted? = none := by
  cases m <;> first | exact ⟨rfl, rfl⟩ | cases h

theorem silent_of_ofWriting {m : Message} (h : m.ofWriting) :
    m.count? = none ∧ m.quoted? = none ∧ m.listed? = none := by
  cases m <;> first | exact ⟨rfl, rfl, rfl⟩ | cases h

end Message

/-- the number that is told for a count, zero if there is none -/
def numberOf (what : Count) (told : List Message) : Nat :=
  ((told.filterMap Message.count?).lookup what).getD 0

theorem text_mem_of_numberOf {what : Count} {told : List Message} (h : numberOf what told ≠ 0) :
    what.text (numberOf what told) ∈ told.map Message.text := by
  cases hn : (told.filterMap Message.count?).lookup what with
  | none => simp [numberOf, hn] at h
  | some n =>
    obtain ⟨pre, post, hsplit, -⟩ := List.lookup_eq_some_iff.1 hn
    have hpair : (what, n) ∈ told.filterMap Message.count? := by simp [hsplit]
    obtain ⟨m, hm, hcount⟩ := List.mem_filterMap.1 hpair
    rw [numberOf, hn, Option.getD_some, ← Message.text_of_count? hcount]
    exact List.mem_map_of_mem hm

namespace AllowLists

variable (apply : Bool) (lists : AllowLists) (ds : List Diagnostic)

/-- the counts at the head of a report -/
def summaryOf : List Message :=
  [.detected ds.length, .ignored (lists.ignored ds).length] ++
    if (lists.promotable ds).length + (lists.unlisted ds).length = 0 then []
    else [.notIgnored ((lists.promotable ds).length + (lists.unlisted ds).length)]

/-- what is told of the codes that did not occur -/
def reportStale : List Message :=
  if lists.stale ds = [] then []
  else [.staleCodes (lists.stale ds), .staleCodeList (lists.stale ds),
    if apply then .willUpdate else .updateHint]

/-- what is told of the entries that covered nothing -/
def reportUnused : List Message :=
  if lists.unused ds = [] then []
  else [.unusedFiles apply (lists.unused ds), .unusedFileList apply (lists.unused ds),
    if apply then .willUpdate else .updateHint]

/-- what is told of the diagnostics that could be ignored -/
def reportPromotable : List Message :=
  if lists.promotable ds = [] then []
  else .promotable apply (lists.promotable ds).length ::
    ((lists.promotable ds).map (.promotableError apply) ++
      [if apply then .willUpdate else .promoteHint])

/-- what is told of the diagnostics whose code is not listed -/
def reportUnlisted : List Message :=
  if lists.unlisted ds = [] then []
  else .validErrors (lists.unlisted ds).length :: (lists.unlisted ds).map .validError

/-- what all four steps tell -/
def stepsOf : List Message :=
  lists.reportStale apply ds ++ lists.reportUnused apply ds ++ lists.reportPromotable apply ds ++
    lists.reportUnlisted ds

end AllowLists

section

variable {lists : AllowLists} {fresh : Coverage} {ds : List Diagnostic} {apply : Bool}

/-- **No step is left out**, whatever the others come to. -/
theorem messages_resolve_eq (h : Coverage.ofTexts lists.files.entries = .ok fresh) :
    (resolve apply (Judged.ofList false lists.codes fresh ds).findings.split
      (Judged.ofList false lists.codes fresh ds).coverage lists).messages =
        lists.stepsOf apply ds := by
  obtain ⟨-, hpromotable, hvalid, -⟩ := @split_ofList lists fresh ds h
  have hstale : (dropStaleCodes apply ds lists.codes).messages = lists.reportStale apply ds := by
    simp only [dropStaleCodes, AllowLists.reportStale, staleCodes_eq, List.isEmpty_iff]
    split
    · rfl
    · cases apply <;> rfl
  have hunused : (dropUnusedFiles apply (Judged.ofList false lists.codes fresh ds).coverage
      lists.files).messages = lists.reportUnused apply ds := by
    simp only [dropUnusedFiles, AllowLists.reportUnused, unused_ofList h, List.isEmpty_iff]
    split
    · rfl
    · cases apply <;> rfl
  have hfiles (files : AllowList) : (promoteFiles apply (lists.promotable ds) files).messages =
      lists.reportPromotable apply ds := by
    simp only [promoteFiles, AllowLists.reportPromotable, List.isEmpty_iff]
    split
    · rfl
    · cases apply <;> rfl
  have hrest : (reportValid (lists.unlisted ds)).messages = lists.reportUnlisted ds := by
    simp only [reportValid, AllowLists.reportUnlisted, List.isEmpty_iff]
    split <;> rfl
  rw [Findings.split_eq, Judged.all_ofList, hpromotable, hvalid]
  simp only [resolve, hstale, hunused, hfiles, hrest]
  rfl

theorem summary_ofList (h : Coverage.ofTexts lists.files.entries = .ok fresh) :
    Gate.summary (Judged.ofList false lists.codes fresh ds).findings.split = lists.summaryOf ds := by
  obtain ⟨hignored, -, -, hreported⟩ := @split_ofList lists fresh ds h
  rw [Findings.split_eq, Gate.summary, Judged.all_ofList, hignored, AllowLists.summaryOf]
  simp only [List.isEmpty_iff_length_eq_zero, hreported]

/-- A reading of messages that passes over lists and hints finds something in the steps about
diagnostics only. -/
theorem filterMap_stepsOf {β : Type} {f : Message → Option β}
    (hentries : ∀ m : Message, m.ofEntries → f m = none) : (lists.stepsOf apply ds).filterMap f =
      (if lists.promotable ds = [] then [] else
        (f (.promotable apply (lists.promotable ds).length)).toList ++
          (lists.promotable ds).filterMap fun d => f (.promotableError apply d)) ++
      if lists.unlisted ds = [] then [] else
        (f (.validErrors (lists.unlisted ds).length)).toList ++
          (lists.unlisted ds).filterMap fun d => f (.validError d) := by
  have hstale : ∀ m ∈ lists.reportStale apply ds, m.ofEntries := by
    unfold AllowLists.reportStale
    cases apply <;> split <;> simp [Message.ofEntries]
  have hunused : ∀ m ∈ lists.reportUnused apply ds, m.ofEntries := by
    unfold AllowLists.reportUnused
    cases apply <;> split <;> simp [Message.ofEntries]
  have hquiet {ms : List Message} (hms : ∀ m ∈ ms, m.ofEntries) : ms.filterMap f = [] :=
    List.filterMap_eq_nil_iff.2 fun m hm => hentries m (hms m hm)
  have hhint : ∀ m ∈ [if apply then Message.willUpdate else .promoteHint], m.ofEntries := by
    cases apply <;> simp [Message.ofEntries]
  rw [AllowLists.stepsOf, List.filterMap_append, List.filterMap_append, List.filterMap_append,
    hquiet hstale, hquiet hunused, AllowLists.reportPromotable, AllowLists.reportUnlisted]
  congr 1
  · split
    · rfl
    · rw [List.filterMap_cons, List.filterMap_append, List.filterMap_map, hquiet hhint]
      cases f (.promotable apply (lists.promotable ds).length) <;> simp
  · split
    · rfl
    · rw [List.filterMap_cons, List.filterMap_map]
      cases f (.validErrors (lists.unlisted ds).length) <;> rfl

theorem counts_stepsOf : (lists.stepsOf apply ds).filterMap Message.count? =
    (if lists.promotable ds = [] then [] else [(.promotable, (lists.promotable ds).length)]) ++
      if lists.unlisted ds = [] then [] else [(.unlisted, (lists.unlisted ds).length)] := by
  rw [filterMap_stepsOf fun _ h => (Message.silent_of_ofEntries h).1]
  simp [Message.count?]

theorem quotes_stepsOf : (lists.stepsOf apply ds).filterMap Message.quoted? =
    lists.promotable ds ++ lists.unlisted ds := by
  rw [filterMap_stepsOf fun _ h => (Message.silent_of_ofEntries h).2]
  congr 1 <;> split <;> simp_all [Message.quoted?]

theorem lists_stepsOf : (lists.stepsOf apply ds).filterMap Message.listed? =
    (if lists.stale ds = [] then [] else [lists.stale ds]) ++
      if lists.unused ds = [] then [] else [lists.unused ds] := by
  have hstale : (lists.reportStale apply ds).filterMap Message.listed? =
      if lists.stale ds = [] then [] else [lists.stale ds] := by
    unfold AllowLists.reportStale
    cases apply <;> split <;> rfl
  have hunused : (lists.reportUnused apply ds).filterMap Message.listed? =
      if lists.unused ds = [] then [] else [lists.unused ds] := by
    unfold AllowLists.reportUnused
    cases apply <;> split <;> rfl
  have hpromotable : (lists.reportPromotable apply ds).filterMap Message.listed? = [] := by
    refine List.filterMap_eq_nil_iff.2 fun m hm => ?_
    unfold AllowLists.reportPromotable at hm
    split at hm
    · cases hm
    · simp only [List.mem_cons, List.mem_append, List.mem_map, List.not_mem_nil, or_false] at hm
      obtain rfl | ⟨d, -, rfl⟩ | rfl := hm
      · rfl
      · rfl
      · cases apply <;> rfl
  have hunlisted : (lists.reportUnlisted ds).filterMap Message.listed? = [] := by
    unfold AllowLists.reportUnlisted
    split
    · rfl
    · simp [Message.listed?]
  rw [AllowLists.stepsOf, List.filterMap_append, List.filterMap_append, List.filterMap_append,
    hstale, hunused, hpromotable, hunlisted, List.append_nil, List.append_nil]

theorem stale_mem_stepsOf (h : lists.stale ds ≠ []) :
    .staleCodes (lists.stale ds) ∈ lists.stepsOf apply ds ∧
      .staleCodeList (lists.stale ds) ∈ lists.stepsOf apply ds := by
  rw [AllowLists.stepsOf, AllowLists.reportStale, if_neg h]
  simp

theorem unused_mem_stepsOf (h : lists.unused ds ≠ []) :
    .unusedFiles apply (lists.unused ds) ∈ lists.stepsOf apply ds ∧
      .unusedFileList apply (lists.unused ds) ∈ lists.stepsOf apply ds := by
  rw [AllowLists.stepsOf, AllowLists.reportUnused, if_neg h]
  simp

/-- A reading that passes over the summary and the writes finds what it finds in the steps. -/
theorem filterMap_report {β : Type} {f : Message → Option β} {update : List Message}
    (hsummary : ∀ m ∈ lists.summaryOf ds, f m = none)
    (hwriting : ∀ m : Message, m.ofWriting → f m = none) (hupdate : ∀ m ∈ update, m.ofWriting) :
    (lists.summaryOf ds ++ lists.stepsOf apply ds ++ update).filterMap f =
      (lists.stepsOf apply ds).filterMap f := by
  rw [List.filterMap_append, List.filterMap_append, List.filterMap_eq_nil_iff.2 hsummary,
    List.filterMap_eq_nil_iff.2 fun m hm => hwriting m (hupdate m hm), List.nil_append,
    List.append_nil]

theorem quiet_summaryOf : ∀ m ∈ lists.summaryOf ds, m.quoted? = none ∧ m.listed? = none := by
  unfold AllowLists.summaryOf
  split <;> simp [Message.quoted?, Message.listed?]

/-- **The numbers of a report** are the sizes of its parts. -/
theorem numberOf_report {update : List Message} (hupdate : ∀ m ∈ update, m.ofWriting)
    (what : Count) :
    numberOf what (lists.summaryOf ds ++ lists.stepsOf apply ds ++ update) =
      match what with
      | .detected => ds.length
      | .ignored => (lists.ignored ds).length
      | .notIgnored => (lists.promotable ds).length + (lists.unlisted ds).length
      | .promotable => (lists.promotable ds).length
      | .unlisted => (lists.unlisted ds).length := by
  have hwriting : update.filterMap Message.count? = [] :=
    List.filterMap_eq_nil_iff.2 fun m hm => (Message.silent_of_ofWriting (hupdate m hm)).1
  rw [numberOf, List.filterMap_append, List.filterMap_append, hwriting, counts_stepsOf,
    AllowLists.summaryOf, List.append_nil]
  -- a part that is empty has no number of its own
  by_cases hp : lists.promotable ds = [] <;> by_cases hu : lists.unlisted ds = []
  all_goals
    simp only [hp, hu, List.length_nil, List.length_eq_zero_iff, Nat.add_eq_zero_iff, and_true,
      and_false, if_true, if_false]
    cases what <;> rfl

end

/-! ### The end of a compilation -/

section

variable {σ : Type} [TextFiles σ]

theorem ofWriting_writeList (store : σ) (settings : Settings) (list : Which) (held wanted : AllowList) :
    ∀ m ∈ messagesOf (writeList store settings list held wanted).events, m.ofWriting := by
  rcases writeList_cases store settings list held wanted with ⟨-, hw⟩ | ⟨-, next, -, hw⟩ |
    ⟨-, e, -, hw⟩ <;> rw [hw] <;> simp [messagesOf, Message.ofWriting]

theorem ofWriting_writeLists (store : σ) (settings : Settings) (held wanted : AllowLists) :
    ∀ m ∈ messagesOf (writeLists store settings held wanted).events, m.ofWriting := by
  have hfiles := ofWriting_writeList store settings .files held.files wanted.files
  rcases writeLists_cases store settings held wanted with ⟨-, hw⟩ | ⟨-, second, hsecond, hw⟩ <;> rw [hw]
  · exact hfiles
  · rw [messagesOf_append, hsecond]
    exact List.forall_mem_append.2 ⟨hfiles, ofWriting_writeList _ _ _ _ _⟩

/-- **What the diagnostics of a compilation are reported as.** -/
theorem Outcome.messages_eq {files : σ} {settings : Settings} {lists : AllowLists}
    {lines : List String} {o : Outcome σ} (h : ofLines files settings lists lines = .ok o)
    (hds : Diagnostic.ofLines lines ≠ []) (hi : settings.init = false) :
    ∃ update, o.messages = lists.summaryOf (Diagnostic.ofLines lines) ++
        lists.stepsOf settings.autoUpdate (Diagnostic.ofLines lines) ++ update ∧
      (settings.autoUpdate = false → update = []) ∧ ∀ m ∈ update, m.ofWriting := by
  obtain ⟨fresh, hfresh, rfl⟩ := ofLines_eq_ok h
  have hall : (Judged.ofList false lists.codes fresh
      (Diagnostic.ofLines lines)).findings.split.all.isEmpty = false := by
    rw [Findings.split_eq, Judged.all_ofList]
    simpa using hds
  cases hu : settings.autoUpdate with
  | false =>
    refine ⟨[], ?_, fun _ => rfl, List.forall_mem_nil _⟩
    simp only [ofJudged, hi, hu, hall, Bool.false_eq_true, if_false, summary_ofList hfresh,
      messages_resolve_eq hfresh, List.append_nil]
  | true =>
    refine ⟨_, ?_, fun hno => absurd hno Bool.true_eq_false.mp, ofWriting_writeLists files settings lists
      (resolve true (Judged.ofList false lists.codes fresh (Diagnostic.ofLines lines)).findings.split
        (Judged.ofList false lists.codes fresh (Diagnostic.ofLines lines)).coverage lists).result⟩
    simp only [ofJudged, hi, hu, hall, Bool.false_eq_true, if_false, if_true, summary_ofList hfresh,
      messages_resolve_eq hfresh]

end

namespace Gate

variable {σ : Type} [TextFiles σ] {g₀ g : Gate σ} {texts : List String}

/-- **A report is complete, and its numbers add up.** Where lists are not to be made, let any calls
leave lines with diagnostics open and let a call end the compilation, whatever the other settings
are and whichever writes fail. The counts add up, each is the size of its part, and each that is not
zero is among the texts that are told. Behind the summary the diagnostics that could be ignored are
quoted and then those whose code is not listed, as they were printed and in their order, and no
others. The codes and the entries that are not in use are counted and listed, one below the other.
Every step tells what it finds, whatever the others come to, and behind them only writes are told.
-/
theorem report_of_reading {files : σ} {settings : Settings} {c : Completion σ}
    (h : (start files settings).2 = .ok g₀) (hi : settings.init = false) (hr : Reading g₀ texts g)
    (hends : g.Ends c) (hds : Diagnostic.ofLines texts ≠ []) :
    let ds := Diagnostic.ofLines texts
    let told := messagesOf c.events
    (numberOf .detected told = numberOf .ignored told + numberOf .notIgnored told ∧
      numberOf .notIgnored told = numberOf .promotable told + numberOf .unlisted told) ∧
    (numberOf .detected told = ds.length ∧ numberOf .ignored told = (g.lists.ignored ds).length ∧
      numberOf .promotable told = (g.lists.promotable ds).length ∧
      numberOf .unlisted told = (g.lists.unlisted ds).length) ∧
    ((∀ what, numberOf what told ≠ 0 → what.text (numberOf what told) ∈ told.map Message.text) ∧
      ∀ (m : Message) (what : Count) (n : Nat), m.count? = some (what, n) → m.text = what.text n) ∧
    (told.filterMap Message.quoted? = g.lists.promotable ds ++ g.lists.unlisted ds ∧
      ∀ (m : Message) (d : Diagnostic), m.quoted? = some d → m.text = d.text) ∧
    (told.filterMap Message.listed? =
        (if g.lists.stale ds = [] then [] else [g.lists.stale ds]) ++
          (if g.lists.unused ds = [] then [] else [g.lists.unused ds]) ∧
      ∀ (m : Message) (listed : List String),
        m.listed? = some listed → m.text = "\n".intercalate listed) ∧
    (g.lists.stale ds ≠ [] → .staleCodeList (g.lists.stale ds) ∈ told ∧
      toString (g.lists.stale ds).length ++ " currently ignored error codes did not occur." ∈
        told.map Message.text) ∧
    (g.lists.unused ds ≠ [] → .unusedFileList settings.autoUpdate (g.lists.unused ds) ∈ told ∧
      toString (g.lists.unused ds).length ++ " loosely type-checked files no longer have any errors" ++
        " and could be strictly type-checked." ∈ told.map Message.text) ∧
    ∃ update, told = g.lists.summaryOf ds ++ g.lists.stepsOf settings.autoUpdate ds ++ update ∧
      (∀ m ∈ g.lists.summaryOf ds, m.quoted? = none) ∧
      (settings.autoUpdate = false → update = []) ∧ ∀ m ∈ update, m.ofWriting := by
  intro ds told
  obtain ⟨events, hrun⟩ := hr.exists_run
  have hsettings := ((kept_start h).run hrun).settings
  have hout := (hr.collected (collected_start h)).outcome_endCompilation
  rw [hsettings, ← hends.eq_endCompilation] at hout
  obtain ⟨update, htold, hnone, hwriting⟩ := Outcome.messages_eq hout hds hi
  have htold : told = g.lists.summaryOf ds ++ g.lists.stepsOf settings.autoUpdate ds ++ update := htold
  have hnumbers (what : Count) := @numberOf_report g.lists ds settings.autoUpdate update hwriting what
  rw [← htold] at hnumbers
  have hsummary := @quiet_summaryOf g.lists ds
  have hquotes : told.filterMap Message.quoted? = g.lists.promotable ds ++ g.lists.unlisted ds := by
    rw [htold, filterMap_report (fun m hm => (hsummary m hm).1)
      (fun _ h => (Message.silent_of_ofWriting h).2.1) hwriting, quotes_stepsOf]
  have hlists : told.filterMap Message.listed? =
      (if g.lists.stale ds = [] then [] else [g.lists.stale ds]) ++
        if g.lists.unused ds = [] then [] else [g.lists.unused ds] := by
    rw [htold, filterMap_report (fun m hm => (hsummary m hm).2)
      (fun _ h => (Message.silent_of_ofWriting h).2.2) hwriting, lists_stepsOf]
  have hsteps {m : Message} (hm : m ∈ g.lists.stepsOf settings.autoUpdate ds) : m ∈ told :=
    htold ▸ List.mem_append_left _ (List.mem_append_right _ hm)
  have hparts := g.lists.length_parts ds
  refine ⟨?_, ?_, ⟨fun _ => text_mem_of_numberOf, fun _ _ _ => Message.text_of_count?⟩,
    ⟨hquotes, fun _ _ => Message.text_of_quoted?⟩, ⟨hlists, fun _ _ => Message.text_of_listed?⟩,
    ?_, ?_, update, htold, fun m hm => (hsummary m hm).1, hnone, hwriting⟩
  · simp only [hnumbers]
    exact ⟨hparts, trivial⟩
  · simp only [hnumbers]
    exact ⟨trivial, trivial, trivial, trivial⟩
  · intro hstale
    obtain ⟨hhead, hlist⟩ := stale_mem_stepsOf hstale
    exact ⟨hsteps hlist, List.mem_map.2 ⟨_, hsteps hhead, rfl⟩⟩
  · intro hunused
    obtain ⟨hhead, hlist⟩ := unused_mem_stepsOf hunused
    exact ⟨hsteps hlist, List.mem_map.2 ⟨_, hsteps hhead, rfl⟩⟩

/-- diagnostics of all kinds, one with a second line -/
def reportedOutput : List String :=
  ["src/b.ts(1,1): error TS2322: m", "src/a.ts(1,1): error TS2322: m",
    "src/a.ts(2,2): error TS7006: n", "  more of it", "src/b.ts(3,3): error TS2322: m",
    "src/b.ts(3,3): error TS2322: m"]

/-- In watch mode, with a code and an entry that are not in use. -/
theorem report_of_reading_mixed : ∃ (g₀ g : Gate Memory) (c : Completion Memory),
    (start (Memory.ofLists ["TS2322", "TS9999"] ["src/a.ts", "old/*.ts"] [])
      ⟨"c", "f", false, false⟩).2 = .ok g₀ ∧
    Reading g₀ (reportedOutput.map Text.normalize) g ∧ g.Ends c ∧ c.verdict = .fail ∧
    numberOf .detected (messagesOf c.events) = 5 ∧ numberOf .ignored (messagesOf c.events) = 1 ∧
    ((messagesOf c.events).filterMap Message.quoted?).map (·.text) =
      ["src/b.ts(1,1): error TS2322: m", "src/b.ts(3,3): error TS2322: m",
        "src/b.ts(3,3): error TS2322: m", "src/a.ts(2,2): error TS7006: n\nmore of it"] ∧
    (messagesOf c.events).filterMap Message.listed? = [["TS9999"], ["old/*.ts"]] ∧
    .staleCodeList ["TS9999"] ∈ messagesOf c.events ∧
    .unusedFileList false ["old/*.ts"] ∈ messagesOf c.events ∧
    ∀ text ∈ ["5 errors detected", "1 errors have been ignored.", "TS9999", "old/*.ts",
      "1 currently ignored error codes did not occur."],
      text ∈ (messagesOf c.events).map Message.text := by
  have hrun : ((start (Memory.ofLists ["TS2322", "TS9999"] ["src/a.ts", "old/*.ts"] [])
      ⟨"c", "f", false, false⟩).2.map fun g₀ =>
        let opened := (g₀.line WatchMode.startMarker).gate
        let g := (opened.lines reportedOutput).1
        let ds := Diagnostic.ofLines (reportedOutput.map Text.normalize)
        ([g₀.watch.starts (Text.normalize WatchMode.startMarker),
            reportedOutput.any fun raw => opened.watch.heeds (Text.normalize raw)],
          (g.line WatchMode.finishedMarker).verdict,
          [(g.lists.ignored ds).map (·.text),
            (g.lists.promotable ds ++ g.lists.unlisted ds).map (·.text), g.lists.stale ds,
            g.lists.unused ds])) =
      .ok ([true, false], some .fail, [["src/a.ts(1,1): error TS2322: m"],
        ["src/b.ts(1,1): error TS2322: m", "src/b.ts(3,3): error TS2322: m",
          "src/b.ts(3,3): error TS2322: m", "src/a.ts(2,2): error TS7006: n\nmore of it"],
        ["TS9999"], ["old/*.ts"]]) := by
    decide +kernel
  obtain ⟨g₀, hstart, heq⟩ := exists_of_map_eq_ok hrun
  simp only [Prod.mk.injEq, List.cons.injEq, and_true] at heq
  obtain ⟨⟨hopens, hplain⟩, hverdict, hignored, hquoted, hstale, hunused⟩ := heq
  have hall : (Diagnostic.ofLines (reportedOutput.map Text.normalize)).length = 5 := by
    decide +kernel
  have hunheeded : ∀ raw ∈ reportedOutput,
      (g₀.line WatchMode.startMarker).gate.watch.heeds (Text.normalize raw) = false := by
    intro raw hraw
    simpa using List.any_eq_false.1 hplain raw hraw
  have hreading := (Reading.start.opening WatchMode.startMarker hopens).lines hunheeded
  rw [List.nil_append] at hreading
  have hends := Ends.line WatchMode.finishedMarker .fail hverdict
  obtain ⟨-, ⟨hdetected, hnumber, -⟩, ⟨hcounts, -⟩, ⟨htold, -⟩, ⟨hlists, hlines⟩, hcodes, hfiles, -⟩ :=
    report_of_reading hstart rfl hreading hends (by intro hnil; simp [hnil] at hall)
  rw [hstale, hunused] at hlists
  obtain ⟨hcodes, hcodesHead⟩ := hstale ▸ hcodes (by simp [hstale])
  obtain ⟨hfiles, -⟩ := hunused ▸ hfiles (by simp [hunused])
  rw [hall] at hdetected
  rw [← List.length_map, hignored] at hnumber
  refine ⟨g₀, _, _, hstart, hreading, hends, rfl, hdetected, hnumber, ?_, hlists, hcodes, hfiles, ?_⟩
  · rw [htold, hquoted]
  · have hfive := hdetected ▸ hcounts .detected (by simp [hdetected])
    have hone := hnumber ▸ hcounts .ignored (by simp [hnumber])
    have hlisted {m : Message} {listed : List String} {told : List Message} (hm : m ∈ told)
        (heq : m.listed? = some listed) : "\n".intercalate listed ∈ told.map Message.text :=
      List.mem_map.2 ⟨m, hm, hlines m listed heq⟩
    simp only [List.forall_mem_cons]
    exact ⟨hfive, hone, hlisted hcodes rfl, hlisted hfiles rfl, hcodesHead, List.forall_mem_nil _⟩

end Gate

end DiagnosticGate
