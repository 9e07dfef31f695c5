import DiagnosticGate.Proofs.Discrepancies
import DiagnosticGate.Proofs.Run
import DiagnosticGate.Proofs.Update

/-!
The lists of a gate and the lists in its files.

Outside of making lists, a gate that has written its lists goes by them, and so its lists are those
in the files. The one exception is a promoted file whose path is no entry: then the list has been
written, and the gate stays with the lists before it.
-/

namespace DiagnosticGate

open Storage

namespace Gate

variable {σ : Type} [TextFiles σ] {g next : Gate σ} {events more : List Event}

/-! ### The end of a compilation -/

theorem refusalsOf_writeLists (store : σ) (settings : Settings) (held wanted : AllowLists) :
    refusalsOf (writeLists store settings held wanted).events = [] := by
  have hone : ∀ (store : σ) (list : Which) (held wanted : AllowList),
      refusalsOf (writeList store settings list held wanted).events = [] := by
    intro store list held wanted
    rcases writeList_cases store settings list held wanted with ⟨-, hw⟩ | ⟨-, next, -, hw⟩ |
      ⟨-, e, -, hw⟩ <;> rw [hw] <;> rfl
  rcases writeLists_cases store settings held wanted with ⟨-, hw⟩ | ⟨-, second, hsecond, hw⟩
  · rw [hw]
    exact hone store .files held.files wanted.files
  · rw [hw, refusalsOf_append, hone, hsecond, hone]
    rfl

/-- **All that the end of a compilation can do** to the store and the lists, where lists are not to
be made: nothing, or an update that changes no member, is gone by, or is not gone by. -/
theorem endCompilation_cases (g : Gate σ) (hi : g.settings.init = false) :
    (g.endCompilation.gate.files = g.files ∧ g.endCompilation.gate.lists = g.lists ∧
      refusalsOf g.endCompilation.events = []) ∨
    (g.settings.autoUpdate ∧ g.endCompilation.gate.files = g.closePending.1.update.files ∧
      ((g.closePending.1.update.persisted.agrees g.lists ∧ g.endCompilation.gate.lists = g.lists ∧
          refusalsOf g.endCompilation.events = []) ∨
        (g.endCompilation.gate.lists = g.closePending.1.update.persisted ∧
          refusalsOf g.endCompilation.events = []) ∨
        (¬ g.closePending.1.update.persisted.agrees g.lists ∧ g.endCompilation.gate.lists = g.lists ∧
          ∃ e, Coverage.ofTexts g.closePending.1.update.persisted.files.entries = .error e ∧
            refusalsOf g.endCompilation.events = [e]))) := by
  rw [endCompilation_eq]
  simp only [clear, refusalsOf_append, refusalsOf_closePending, List.nil_append]
  rcases g.closePending.1.conclude_cases with ⟨-, hc⟩ | ⟨-, hi', -⟩ | ⟨-, -, hu, hc⟩ | ⟨-, -, -, hc⟩
  · rw [hc]
    exact .inl ⟨g.files_closePending, g.lists_closePending, rfl⟩
  · rw [settings_closePending, hi] at hi'
    cases hi'
  · have hquiet : refusalsOf g.closePending.1.update.events = [] := refusalsOf_writeLists _ _ _ _
    rw [hc]
    simp only [refusalsOf_append, refusalsOf_map_message, hquiet, List.nil_append]
    refine .inr ⟨g.settings_closePending ▸ hu, ?_, ?_⟩
    · obtain ⟨coverage, lists, hfollow⟩ := follow_frame
        { g.closePending.1 with files := g.closePending.1.update.files } g.closePending.1.update.persisted
      rw [hfollow]
    · rcases follow_cases { g.closePending.1 with files := g.closePending.1.update.files }
        g.closePending.1.update.persisted with ⟨ha, hf⟩ | ⟨-, coverage, -, hf⟩ | ⟨ha, e, he, hf⟩ <;>
        rw [hf]
      · exact .inl ⟨g.lists_closePending ▸ ha, g.lists_closePending, rfl⟩
      · exact .inr (.inl ⟨rfl, rfl⟩)
      · exact .inr (.inr ⟨g.lists_closePending ▸ ha, g.lists_closePending, e, he, rfl⟩)
  · rw [hc]
    refine .inl ⟨g.files_closePending, g.lists_closePending, ?_⟩
    exact refusalsOf_map_message _

theorem update_closePending (g : Gate σ) : g.closePending.1.update =
    writeLists g.files g.settings g.lists g.closePending.1.resolved.result := by
  rw [update, files_closePending, settings_closePending, lists_closePending]

theorem written_endCompilation (g : Gate σ) (hi : g.settings.init = false) :
    WrittenAt g.settings.paths g.files g.endCompilation.gate.files := by
  rcases g.endCompilation_cases hi with ⟨hf, -⟩ | ⟨-, hf, -⟩ <;> rw [hf]
  · exact .none
  · rw [update_closePending]
    exact written_writeLists _ _ _ _

theorem mem_files_persisted (hu : g.settings.autoUpdate) {t : String}
    (ht : t ∈ g.update.persisted.files.entries) : t ∈ g.lists.files.entries ∨
      ∃ d, ⟨.promotable, d⟩ ∈ g.findings.toList ∧ d.file = t := by
  rcases (persisted_writeLists g.files g.settings g.lists g.resolved.result).2 with hp | hp
  · rw [update, hp] at ht
    exact .inl ht
  · rw [update, hp, resolved, hu, mem_files_resolve, Findings.split_eq] at ht
    rcases ht with ⟨ht, -⟩ | ⟨d, hd, hfile⟩
    · exact .inl ht
    · exact .inr ⟨d, Findings.mem_promotable.1 hd, hfile⟩

theorem exists_promotable_of_refused (hready : g.Ready) (hu : g.settings.autoUpdate)
    {e : PatternError} (he : Coverage.ofTexts g.update.persisted.files.entries = .error e) :
    ∃ d, ⟨.promotable, d⟩ ∈ g.findings.toList ∧ Entry.ofText d.file = .error e := by
  obtain ⟨t, ht, hbad⟩ := Coverage.exists_of_ofTexts_error he
  rcases mem_files_persisted hu ht with hheld | ⟨d, hd, rfl⟩
  · obtain ⟨entry, hentry⟩ := Coverage.exists_ofTexts_iff.1 ⟨_, hready⟩ t hheld
    rw [hbad] at hentry
    cases hentry
  · exact ⟨d, hd, hbad⟩

/-! ### Calls -/

theorem written_line (g : Gate σ) (hi : g.settings.init = false) (raw : String) :
    WrittenAt g.settings.paths g.files (g.line raw).gate.files := by
  rcases g.line_cases raw with ⟨-, hl⟩ | ⟨-, -, hl⟩ | ⟨-, -, -, hl⟩ | ⟨-, -, -, hl⟩ <;> rw [hl]
  · exact .none
  · exact .none
  · exact g.written_endCompilation hi
  · obtain ⟨assembly, coverage, findings, hframe⟩ := g.read_frame (Text.normalize raw)
    rw [hframe]
    exact .none

theorem written_finish (g : Gate σ) (hi : g.settings.init = false) :
    WrittenAt g.settings.paths g.files g.finish.gate.files := by
  unfold finish
  cases g.watch.active with
  | false => exact g.written_endCompilation hi
  | true => exact .none

/-- A call ends a compilation, or it leaves the lists and all that is read from the store. -/
theorem call_frame (hcall : Call g more next) :
    (next = g.endCompilation.gate ∧ more = g.endCompilation.events) ∨
    (next.lists = g.lists ∧
      (∀ path, TextFiles.read next.files path = TextFiles.read g.files path) ∧
      refusalsOf more = []) := by
  rcases call_cases hcall with h | ⟨rfl, -, hr⟩ | ⟨text, rfl, rfl⟩ | ⟨watch, files, rfl, hread, -, hr⟩
  · exact .inl h
  · exact .inr ⟨rfl, fun _ => rfl, hr⟩
  · obtain ⟨assembly, coverage, findings, hframe⟩ := g.read_frame text
    refine .inr ⟨?_, ?_, refusalsOf_read g text⟩
    · rw [hframe]
    · intro path
      rw [hframe]
  · exact .inr ⟨rfl, hread, hr⟩

/-- A refusal is due to a promotable diagnostic that has been told. -/
theorem exists_judged_of_refusal {settings : Settings} (hkept : Kept settings events g)
    (hi : settings.init = false) (hcall : Call g more next) {e : PatternError}
    (he : e ∈ refusalsOf more) :
    ∃ d, .note (.judged d .promotable) ∈ events ++ more ∧ Entry.ofText d.file = .error e := by
  obtain rfl := hkept.settings
  rcases call_frame hcall with ⟨-, rfl⟩ | ⟨-, -, hr⟩
  · rcases g.endCompilation_cases hi with ⟨-, -, hr⟩ | ⟨hu, -, ⟨-, -, hr⟩ | ⟨-, hr⟩ |
      ⟨-, -, e', hbad, hr⟩⟩ <;> rw [hr] at he
    · cases he
    · cases he
    · cases he
    · obtain rfl := List.mem_singleton.1 he
      have hclosed : g.closePending.1.settings.autoUpdate := g.settings_closePending ▸ hu
      obtain ⟨d, hd, herr⟩ := exists_promotable_of_refused hkept.ready.closePending hclosed hbad
      have hnoted := hkept.noted.closePending _ hd
      refine ⟨d, ?_, herr⟩
      rw [endCompilation_eq, ← List.append_assoc]
      exact List.mem_append_left _ hnoted
  · rw [hr] at he
    cases he

theorem stored_start {files : σ} {settings : Settings} (h : (start files settings).2 = .ok g)
    (hi : settings.init = false) : Stored g.files settings g.lists := by
  obtain ⟨codes, entries, coverage, hc, hf, hg, -, -⟩ := start_eq_ok h
  -- without making lists, a file that is missing is an error
  have hsome : ∀ {path : String} {found : Option (List String)},
      readTexts files path settings.init = .ok found →
      Holds files path (.ofList (found.getD [])) := by
    intro path found hr
    rw [hi] at hr
    cases found with
    | some texts => exact ⟨texts, hr, fun _ => AllowList.mem_ofList.symm⟩
    | none =>
      unfold readTexts at hr
      split at hr
      · cases hr
      · split at hr <;> cases hr
  rw [hg]
  exact ⟨hsome hc, hsome hf⟩

/-- **A gate starts on files that hold lists of error codes and of entries**, and goes by the same
members; whether lists are to be changed has no part in it. -/
theorem start_of_stored {files : σ} {settings : Settings} {lists : AllowLists}
    (h : Stored files settings lists) (hi : settings.init = false)
    (hcodes : ∀ c ∈ lists.codes.entries, isErrorCode c)
    (hfiles : ∀ t ∈ lists.files.entries, ∃ e, Entry.ofText t = .ok e) :
    ∃ g, (start files settings).2 = .ok g ∧ lists.agrees g.lists := by
  obtain ⟨codes, hreadCodes, hmemCodes⟩ := h.codes
  obtain ⟨texts, hreadFiles, hmemFiles⟩ := h.files
  rw [← hi] at hreadCodes hreadFiles
  have hwell : malformedCodes (AllowList.ofList codes).entries = [] :=
    malformedCodes_eq_nil_iff.2 fun c hc => hcodes c ((hmemCodes c).1 (AllowList.mem_ofList.1 hc))
  obtain ⟨coverage, hcoverage⟩ := (@Coverage.exists_ofTexts_iff (AllowList.ofList texts).entries).2
    fun t ht => hfiles t ((hmemFiles t).1 (AllowList.mem_ofList.1 ht))
  refine ⟨fresh files settings (.ofLists codes texts) coverage, ?_, AllowLists.agrees_iff.2
    ⟨AllowList.agrees_iff.2 fun c => ?_, AllowList.agrees_iff.2 fun t => ?_⟩⟩
  · rw [start_of_reads hreadCodes hreadFiles]
    exact ofLists_eq_ok_iff.2 ⟨hwell, coverage, hcoverage, rfl⟩
  · exact (hmemCodes c).symm.trans AllowList.mem_ofList.symm
  · exact (hmemFiles t).symm.trans AllowList.mem_ofList.symm

/-! ### Lists and files -/

/-- Calls one after the other, where all that the store becomes from outside is of the kind `K`. -/
inductive RunAmong (K : σ → Prop) (g₀ : Gate σ) : List Event → Gate σ → Prop
  | start : RunAmong K g₀ [] g₀
  | line {events : List Event} {g : Gate σ} (h : RunAmong K g₀ events g) (raw : String) :
      RunAmong K g₀ (events ++ (g.line raw).events) (g.line raw).gate
  | finish {events : List Event} {g : Gate σ} (h : RunAmong K g₀ events g) :
      RunAmong K g₀ (events ++ g.finish.events) g.finish.gate
  | store {events : List Event} {g : Gate σ} (h : RunAmong K g₀ events g) (files : σ)
      (hread : ∀ path, TextFiles.read files path = TextFiles.read g.files path) (hkind : K files) :
      RunAmong K g₀ events { g with files }

theorem RunAmong.run {K : σ → Prop} {g₀ : Gate σ} (h : RunAmong K g₀ events g) :
    Run g₀ events g := by
  induction h with
  | start => exact .start
  | line _ raw ih => exact ih.step (.line _ raw)
  | finish _ ih => exact ih.step (.finish _)
  | store _ files hread _ ih => simpa using ih.step (.store _ files hread)

/-- Where every store is of the kind, nothing more is asked of a run. -/
theorem Run.among {K : σ → Prop} {g₀ : Gate σ} (h : Run g₀ events g) (hall : ∀ files, K files) :
    RunAmong K g₀ events g := by
  induction h with
  | start => exact .start
  | step _ hcall ih =>
    cases hcall with
    | line raw => exact ih.line raw
    | finish => exact ih.finish
    | store files hread =>
      rw [List.append_nil]
      exact ih.store files hread (hall files)

/-- **Lists and files part at the end of a compilation** exactly if it refuses to go by its lists. -/
theorem stored_endCompilation_iff (hi : g.settings.init = false)
    (hlaw : LawfulAt g.settings.paths g.files) (hne : g.settings.codesPath ≠ g.settings.filesPath)
    (h : Stored g.files g.settings g.lists) :
    Stored g.endCompilation.gate.files g.settings g.endCompilation.gate.lists ↔
      refusalsOf g.endCompilation.events = [] := by
  have hwritten : Stored g.closePending.1.update.files g.settings g.closePending.1.update.persisted := by
    rw [update_closePending]
    exact Stored.writeLists hlaw hne h
  rcases g.endCompilation_cases hi with ⟨hf, hl, hr⟩ | ⟨-, hf, ⟨ha, hl, hr⟩ | ⟨hl, hr⟩ |
    ⟨ha, hl, e, -, hr⟩⟩ <;> rw [hf, hl, hr]
  · exact ⟨fun _ => rfl, fun _ => h⟩
  · exact ⟨fun _ => rfl, fun _ => hwritten.iff_agrees.2 ha⟩
  · exact ⟨fun _ => rfl, fun _ => hwritten⟩
  · constructor
    · intro hs
      exact absurd (hwritten.iff_agrees.1 hs) ha
    · intro hnil
      cases hnil

theorem exists_stored_endCompilation (hi : g.settings.init = false)
    (hlaw : LawfulAt g.settings.paths g.files) (hne : g.settings.codesPath ≠ g.settings.filesPath)
    {disk : AllowLists} (h : Stored g.files g.settings disk) :
    ∃ disk, Stored g.endCompilation.gate.files g.settings disk := by
  rcases g.endCompilation_cases hi with ⟨hf, -⟩ | ⟨-, hf, -⟩ <;> rw [hf]
  · exact ⟨disk, h⟩
  · rw [update_closePending]
    exact exists_stored_writeLists hlaw hne h

/-- **One call.** Where lists and files agree, they part exactly if the call refuses to go by the
lists that it has written. -/
theorem stored_call_iff {settings : Settings} (hkept : Kept settings events g)
    (hi : settings.init = false) (hlaw : LawfulAt settings.paths g.files)
    (hne : settings.codesPath ≠ settings.filesPath) (h : Stored g.files settings g.lists)
    (hcall : Call g more next) :
    Stored next.files settings next.lists ↔ refusalsOf more = [] := by
  obtain rfl := hkept.settings
  rcases call_frame hcall with ⟨rfl, rfl⟩ | ⟨hl, hread, hr⟩
  · exact stored_endCompilation_iff hi hlaw hne h
  · rw [hl, hr]
    exact ⟨fun _ => rfl, fun _ => h.congr hread⟩

theorem exists_stored_call {settings : Settings} (hkept : Kept settings events g)
    (hi : settings.init = false) (hlaw : LawfulAt settings.paths g.files)
    (hne : settings.codesPath ≠ settings.filesPath) {disk : AllowLists}
    (h : Stored g.files settings disk) (hcall : Call g more next) :
    ∃ disk, Stored next.files settings disk := by
  obtain rfl := hkept.settings
  rcases call_frame hcall with ⟨rfl, rfl⟩ | ⟨-, hread, -⟩
  · exact exists_stored_endCompilation hi hlaw hne h
  · exact ⟨disk, h.congr hread⟩

/-- What a run keeps: the store is lawful at the paths of the lists, the files can be read, they hold
the lists unless the gate has refused to go by them, and each refusal is due to a promotable diagnostic
that has been told. -/
structure InStep (settings : Settings) (events : List Event) (g : Gate σ) : Prop where
  kept : Kept settings events g
  lawful : LawfulAt settings.paths g.files
  readable : ∃ disk, Stored g.files settings disk
  stored : refusalsOf events = [] → Stored g.files settings g.lists
  refusals : ∀ e ∈ refusalsOf events,
    ∃ d, .note (.judged d .promotable) ∈ events ∧ Entry.ofText d.file = .error e

theorem InStep.call {settings : Settings} (hi : settings.init = false)
    (hne : settings.codesPath ≠ settings.filesPath) (h : InStep settings events g)
    (hcall : Call g more next) (hlaw : LawfulAt settings.paths next.files) :
    InStep settings (events ++ more) next := by
  obtain ⟨disk, hdisk⟩ := h.readable
  refine ⟨h.kept.call hcall, hlaw, exists_stored_call h.kept hi h.lawful hne hdisk hcall, ?_, ?_⟩
  · rw [refusalsOf_append]
    intro hnil
    obtain ⟨hevents, hmore⟩ := List.append_eq_nil_iff.1 hnil
    exact (stored_call_iff h.kept hi h.lawful hne (h.stored hevents) hcall).2 hmore
  · intro e he
    rw [refusalsOf_append, List.mem_append] at he
    rcases he with he | he
    · obtain ⟨d, hd, herr⟩ := h.refusals e he
      exact ⟨d, List.mem_append_left _ hd, herr⟩
    · exact exists_judged_of_refusal h.kept hi hcall he

theorem inStep_run {files : σ} {settings : Settings} {g₀ : Gate σ}
    (h : (start files settings).2 = .ok g₀) (hi : settings.init = false)
    (hne : settings.codesPath ≠ settings.filesPath) (hlaw : LawfulAt settings.paths files)
    (hrun : RunAmong (LawfulAt settings.paths) g₀ events g) : InStep settings events g := by
  induction hrun with
  | start =>
    have hs := stored_start h hi
    rw [← files_start h] at hlaw
    refine ⟨kept_start h, hlaw, ⟨_, hs⟩, fun _ => hs, ?_⟩
    intro e he
    cases he
  | @line _ g _ raw ih =>
    have hset := ih.kept.settings
    exact ih.call hi hne (.line g raw) (ih.lawful.of_written (hset ▸ g.written_line (hset ▸ hi) raw))
  | @finish _ g _ ih =>
    have hset := ih.kept.settings
    exact ih.call hi hne (.finish g) (ih.lawful.of_written (hset ▸ g.written_finish (hset ▸ hi)))
  | store _ files hread hkind ih =>
    have hnext := ih.call hi hne (.store _ files hread) hkind
    rwa [List.append_nil] at hnext

/-- **Lists and files agree as long as the gate goes by what it has written.** Where lists are not
to be made and lie at different paths, at which the store is lawful, whatever is fed and whichever
writes fail: the files can always be read; they hold the members of the lists unless the gate has
refused to go by lists that it had written; it refuses only for a promotable diagnostic whose file is
no entry; and from a gate that agrees with its files, a call leads to one that does not if and only if
it refuses. -/
theorem stored_of_run {files : σ} {settings : Settings} {g₀ : Gate σ}
    (h : (start files settings).2 = .ok g₀) (hi : settings.init = false)
    (hne : settings.codesPath ≠ settings.filesPath) (hlaw : LawfulAt settings.paths files)
    (hrun : RunAmong (LawfulAt settings.paths) g₀ events g) :
    (∃ disk, Stored g.files settings disk) ∧
    (refusalsOf events = [] → Stored g.files settings g.lists) ∧
    (∀ e ∈ refusalsOf events,
      ∃ d, .note (.judged d .promotable) ∈ events ∧ Entry.ofText d.file = .error e) ∧
    (Stored g.files settings g.lists → ∀ more next, Call g more next →
      (Stored next.files settings next.lists ↔ refusalsOf more = [])) := by
  have hstep := inStep_run h hi hne hlaw hrun
  refine ⟨hstep.readable, hstep.stored, hstep.refusals, ?_⟩
  intro hs more next hcall
  exact stored_call_iff hstep.kept hi hstep.lawful hne hs hcall

/-- Two checks of one output. The first cannot write the list of codes, which the second does. -/
theorem stored_of_run_retried_codes :
    ∃ g₀ : Gate Memory,
      (start (Memory.ofLists ["TS2322", "TS7006"] ["src/*.ts"] ["c"]) ⟨"c", "f", false, true⟩).2 =
        .ok g₀ ∧
      ∃ events g, Run g₀ events g ∧ g.lists.codes.entries = ["TS2322"] ∧
        g.lists.files.entries = ["lib/b.ts"] ∧ Stored g.files ⟨"c", "f", false, true⟩ g.lists := by
  have hrun : ((start (Memory.ofLists ["TS2322", "TS7006"] ["src/*.ts"] ["c"])
      ⟨"c", "f", false, true⟩).2.map fun g₀ =>
        let first := g₀.check ["lib/b.ts(1,1): error TS2322: m"]
        let second := { first.gate with files := { first.gate.files with refused := [] } }.check
          ["lib/b.ts(1,1): error TS2322: m"]
        (refusalsOf (first.events ++ second.events), second.gate.lists.codes.entries,
          second.gate.lists.files.entries)) = .ok ([], ["TS2322"], ["lib/b.ts"]) := by decide +kernel
  obtain ⟨g₀, hstart, heq⟩ := exists_of_map_eq_ok hrun
  simp only [Prod.mk.injEq] at heq
  obtain ⟨hrefusals, hcodes, hfiles⟩ := heq
  have hfirst : Run g₀ _ _ := Run.start.check ["lib/b.ts(1,1): error TS2322: m"]
  have hsecond := (hfirst.step
    (.store _ { (g₀.check ["lib/b.ts(1,1): error TS2322: m"]).gate.files with refused := [] }
      fun _ => rfl)).check ["lib/b.ts(1,1): error TS2322: m"]
  rw [List.nil_append, List.append_nil] at hsecond
  exact ⟨g₀, hstart, _, _, hsecond, hcodes, hfiles,
    (stored_of_run hstart rfl (by decide) (Memory.lawfulAt _ _)
      (hsecond.among (Memory.lawfulAt _))).2.1 hrefusals⟩

/-- It is not so that the lists always agree with the files: the path of a promoted file can be no
entry, as a brace that is not closed. -/
theorem not_stored_of_every_run :
    ¬ ∀ (files : Memory) (settings : Settings) (g₀ g : Gate Memory) (events : List Event),
      (start files settings).2 = .ok g₀ → settings.init = false →
      settings.codesPath ≠ settings.filesPath → Run g₀ events g →
      Stored g.files settings g.lists := by
  intro hall
  have hrun : ((start (Memory.ofLists ["TS2322"] [] []) ⟨"c", "f", false, true⟩).2.map fun g₀ =>
      let after := (g₀.check ["src/\x7ba.ts(1,1): error TS2322: m"]).gate
      (readTexts after.files "f" false, after.lists.files.entries)) =
        .ok (.ok (some ["src/\x7ba.ts"]), []) := by decide +kernel
  obtain ⟨g₀, hstart, heq⟩ := exists_of_map_eq_ok hrun
  simp only [Prod.mk.injEq] at heq
  obtain ⟨hread, hentries⟩ := heq
  have hcheck : Run g₀ _ _ := Run.start.check ["src/\x7ba.ts(1,1): error TS2322: m"]
  obtain ⟨texts, htexts, hmem⟩ := (hall _ _ _ _ _ hstart rfl (by decide) hcheck).files
  rw [hread] at htexts
  cases htexts
  have hin := (hmem "src/\x7ba.ts").1 List.mem_cons_self
  rw [hentries] at hin
  cases hin

end Gate

end DiagnosticGate
