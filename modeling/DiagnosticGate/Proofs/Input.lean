import DiagnosticGate.CommandLine.Run
import DiagnosticGate.Proofs.Run
import DiagnosticGate.Proofs.SingleShot
import DiagnosticGate.Proofs.Utf8
import DiagnosticGate.Storage.Disk

/-!
Reading an input of bytes.

The lines of an input are read as texts up to the first that is no text. Outside of watch mode they
are only collected: nothing is told about diagnostics and nothing is written before the input ends, and
so an input that is broken before any start marker leaves all files as they were.
-/

namespace DiagnosticGate

open Storage

namespace Text

theorem exists_encode_of_decodeLine {raw : List UInt8} {text : String}
    (h : decodeLine raw = .ok text) : ∃ whole, encode whole = raw := by
  have hends : ∃ lineEnd : String, dropLineEnd raw ++ encode lineEnd = raw := by
    unfold dropLineEnd
    split
    · rename_i r hr
      refine ⟨"\r\n", ?_⟩
      rw [← List.reverse_reverse raw, hr]
      simp only [List.reverse_cons, List.append_assoc]
      rfl
    · rename_i r _ hr
      refine ⟨"\n", ?_⟩
      rw [← List.reverse_reverse raw, hr]
      simp only [List.reverse_cons]
      rfl
    · exact ⟨"", List.append_nil raw⟩
  obtain ⟨lineEnd, hend⟩ := hends
  refine ⟨text ++ lineEnd, ?_⟩
  rw [encode, String.toList_append, encodeChars_append]
  exact (congrArg (· ++ encode lineEnd) (encode_of_decode h)).trans hend

/-- The texts of lines up to the first line that is no text, and what is wrong with that. -/
def decodeLines : List (List UInt8) → List String × Option Utf8Fault
  | [] => ([], none)
  | raw :: rest =>
    match decodeLine raw with
    | .error f => ([], some f)
    | .ok text => (text :: (decodeLines rest).1, (decodeLines rest).2)

theorem mem_decodeLines {raws : List (List UInt8)} {text : String} (h : text ∈ (decodeLines raws).1) :
    ∃ raw ∈ raws, decodeLine raw = .ok text := by
  induction raws with
  | nil => cases h
  | cons raw rest ih =>
    unfold decodeLines at h
    split at h
    · cases h
    · rename_i t ht
      rcases List.mem_cons.1 h with rfl | h
      · exact ⟨raw, List.mem_cons_self, ht⟩
      · obtain ⟨other, hother, hd⟩ := ih h
        exact ⟨other, List.mem_cons_of_mem _ hother, hd⟩

/-- No line behind one that is no text is read. -/
theorem decodeLines_of_broken {before after : List (List UInt8)} {bad : List UInt8}
    (h : ∀ text, encode text ≠ bad) : ∃ f, (decodeLines (before ++ bad :: after)).2 = some f ∧
      (decodeLines (before ++ bad :: after)).1 = (decodeLines before).1 := by
  induction before with
  | nil =>
    cases hd : decodeLine bad with
    | error f => exact ⟨f, by simp [decodeLines, hd]⟩
    | ok text =>
      obtain ⟨whole, hwhole⟩ := exists_encode_of_decodeLine hd
      exact absurd hwhole (h whole)
  | cons raw rest ih =>
    obtain ⟨f, hfault, htexts⟩ := ih
    cases hd : decodeLine raw with
    | error f => exact ⟨f, by simp [decodeLines, hd]⟩
    | ok text => exact ⟨f, by simp [decodeLines, hd, hfault, htexts]⟩

end Text

open CommandLine

namespace Gate

/-! ### What is told while lines are read -/

section

variable {σ : Type} [TextFiles σ] {g : Gate σ}

/-- the records of lines one after the other -/
def log (g : Gate σ) : List String → List LogRecord
  | [] => []
  | raw :: rest => lineRecords (g.line raw).events (g.line raw).verdict ++ (g.line raw).gate.log rest

theorem log_of_unheeded {lines : List String}
    (h : ∀ raw ∈ lines, g.watch.heeds (Text.normalize raw) = false) :
    g.log lines = (g.lines lines).2.map .ofEvent ∧ refusalsOf (g.lines lines).2 = [] := by
  induction lines generalizing g with
  | nil => exact ⟨rfl, rfl⟩
  | cons raw rest ih =>
    obtain ⟨hfirst, hrest⟩ := unheeded_cons h
    obtain ⟨hlog, hrefusals⟩ := ih hrest
    simp only [log, Gate.lines, line_of_unheeded hfirst]
    constructor
    · rw [hlog, lineRecords, List.map_append]
      simp
    · rw [refusalsOf_append, refusalsOf_read, hrefusals]
      rfl

theorem messagesOf_entriesOf (path : String) (found : Option (List String)) :
    messagesOf (entriesOf path found).2 = [] ∧ refusalsOf (entriesOf path found).2 = [] := by
  cases found <;> exact ⟨rfl, rfl⟩

/-- **All that starting can do**: a list cannot be read, or the lists that were read are taken. -/
theorem start_cases (files : σ) (settings : Settings) :
    ∃ notes, messagesOf notes = [] ∧ refusalsOf notes = [] ∧
      ((∃ errors, start files settings =
          (notes ++ (errors.map .listFault).map .message, .error (.unreadable errors))) ∨
        ∃ lists, start files settings =
          (notes ++ (ofLists files settings lists).1, (ofLists files settings lists).2)) := by
  have hnotes : ∀ {p q : String} {xs ys : Option (List String)},
      messagesOf ((entriesOf p xs).2 ++ (entriesOf q ys).2) = [] ∧
        refusalsOf ((entriesOf p xs).2 ++ (entriesOf q ys).2) = [] := by
    intro p q xs ys
    rw [messagesOf_append, refusalsOf_append, (messagesOf_entriesOf p xs).1,
      (messagesOf_entriesOf p xs).2, (messagesOf_entriesOf q ys).1, (messagesOf_entriesOf q ys).2]
    exact ⟨rfl, rfl⟩
  unfold start
  cases readTexts files settings.codesPath settings.init with
  | error e =>
    cases readTexts files settings.filesPath settings.init with
    | error e' => exact ⟨[], rfl, rfl, .inl ⟨[e, e'], rfl⟩⟩
    | ok entries =>
      obtain ⟨hm, hr⟩ := messagesOf_entriesOf settings.filesPath entries
      exact ⟨_, hm, hr, .inl ⟨[e], rfl⟩⟩
  | ok codes =>
    cases readTexts files settings.filesPath settings.init with
    | error e =>
      obtain ⟨hm, hr⟩ := messagesOf_entriesOf settings.codesPath codes
      refine ⟨(entriesOf settings.codesPath codes).2, hm, hr, .inl ⟨[e], ?_⟩⟩
      simp only [List.append_nil]
      rfl
    | ok entries => exact ⟨_, hnotes.1, hnotes.2, .inr ⟨_, rfl⟩⟩

omit [TextFiles σ] in
theorem ofLists_cases (files : σ) (settings : Settings) (lists : AllowLists) :
    (∃ codes, ofLists files settings lists =
      ((codes.map .invalidCode).map .message, .error (.malformedCodes settings.codesPath codes))) ∨
    (∃ e, ofLists files settings lists = ([], .error (.badPattern e))) ∨
    ∃ n m g, ofLists files settings lists = ([.note (.loaded n m)], .ok g) := by
  unfold ofLists
  simp only [List.isEmpty_iff]
  by_cases h : malformedCodes lists.codes.entries = []
  · rw [if_pos h]
    cases Coverage.ofTexts lists.files.entries with
    | ok coverage => exact .inr (.inr ⟨_, _, _, rfl⟩)
    | error e => exact .inr (.inl ⟨e, rfl⟩)
  · rw [if_neg h]
    exact .inl ⟨malformedCodes lists.codes.entries, by rw [List.map_map]; rfl⟩

/-- **What starting tells**: nothing for the user where the gate starts, and otherwise the faults of
the lists. -/
theorem messagesOf_start (files : σ) (settings : Settings) :
    (∀ m ∈ messagesOf (start files settings).1,
      (∃ e, m = .listFault e) ∨ ∃ c, m = .invalidCode c) ∧
    ((start files settings).2.isOk → messagesOf (start files settings).1 = []) ∧
    refusalsOf (start files settings).1 = [] := by
  obtain ⟨notes, hm, hr, ⟨errors, hs⟩ | ⟨lists, hs⟩⟩ := start_cases files settings
  · rw [hs]
    simp only [messagesOf_append, hm, messagesOf_map_message, refusalsOf_append, hr,
      refusalsOf_map_message, List.nil_append]
    refine ⟨fun m hmem => ?_, fun hok => absurd hok Bool.false_ne_true, trivial⟩
    obtain ⟨e, -, rfl⟩ := List.mem_map.1 hmem
    exact .inl ⟨e, rfl⟩
  · rw [hs]
    simp only [messagesOf_append, hm, refusalsOf_append, hr, List.nil_append]
    rcases ofLists_cases files settings lists with ⟨codes, ho⟩ | ⟨e, ho⟩ | ⟨n, m, g, ho⟩ <;> rw [ho]
    · simp only [messagesOf_map_message, refusalsOf_map_message]
      refine ⟨fun m hmem => ?_, fun hok => absurd hok Bool.false_ne_true, trivial⟩
      obtain ⟨c, -, rfl⟩ := List.mem_map.1 hmem
      exact .inr ⟨c, rfl⟩
    · exact ⟨List.forall_mem_nil _, fun _ => rfl, rfl⟩
    · exact ⟨List.forall_mem_nil _, fun _ => rfl, rfl⟩

end

end Gate

namespace CommandLine

variable {σ : Type} [TextFiles σ] {g : Gate σ}

/-- **A run reads the lines that are texts.** If one is not, it ends there; if all are, it ends the
input. -/
theorem runLines_eq (g : Gate σ) (raws : List (List UInt8)) :
    runLines g raws = match (Text.decodeLines raws).2 with
      | some f => ⟨(g.lines (Text.decodeLines raws).1).1.files,
          g.log (Text.decodeLines raws).1, .error (.input f)⟩
      | none => ⟨(g.check (Text.decodeLines raws).1).gate.files,
          g.log (Text.decodeLines raws).1 ++
            (g.lines (Text.decodeLines raws).1).1.finish.events.map .ofEvent,
          .ok (g.check (Text.decodeLines raws).1).verdict⟩ := by
  induction raws generalizing g with
  | nil => rfl
  | cons raw rest ih =>
    unfold runLines Text.decodeLines
    cases hd : Text.decodeLine raw with
    | error f => rfl
    | ok text =>
      simp only [ih]
      cases hf : (Text.decodeLines rest).2 with
      | none => simp [Gate.lines, Gate.log, Gate.check]
      | some f => simp [Gate.lines, Gate.log]

/-! ### Broken inputs -/

/-- the records of messages and warnings, without those of what goes on inside -/
def reported (records : List LogRecord) : List LogRecord :=
  records.filter fun r => r.level.rank ≤ Level.info.rank

theorem reported_append (xs ys : List LogRecord) :
    reported (xs ++ ys) = reported xs ++ reported ys := List.filter_append xs ys

theorem reported_map_ofEvent {events : List Event} (h : refusalsOf events = []) :
    reported (events.map .ofEvent) = (messagesOf events).map fun m => .ofEvent (.message m) := by
  induction events with
  | nil => rfl
  | cons e events ih =>
    cases e with
    | message m =>
      have hshown : (LogRecord.ofEvent (.message m)).level.rank ≤ Level.info.rank := by
        simp only [LogRecord.ofEvent]
        cases m.tone <;> decide
      rw [List.map_cons, reported, List.filter_cons, if_pos (by simpa using hshown)]
      exact congrArg _ (ih h)
    | note n =>
      cases n with
      | keeping e => cases h
      | _ => exact ih h

/-- Outside of watch mode, lines that do not start it are only collected: the run ends with the input,
or with an error where a line is no text. -/
theorem runLines_of_unstarted {seen : List String} {raws : List (List UInt8)}
    (hc : g.Collected seen) (hw : g.watch = .idle)
    (h : ∀ text ∈ (Text.decodeLines raws).1,
      WatchMode.holds WatchMode.startMarker (Text.normalize text) = false) :
    ∃ (last : Gate σ) (notes : List Event), last.files = g.files ∧ last.settings = g.settings ∧
      messagesOf notes = [] ∧ refusalsOf notes = [] ∧ runLines g raws = match (Text.decodeLines raws).2 with
        | some f => ⟨g.files, notes.map .ofEvent, .error (.input f)⟩
        | none => ⟨last.endCompilation.gate.files,
            (notes ++ last.endCompilation.events).map .ofEvent, .ok last.endCompilation.verdict⟩ := by
  have hunheeded : ∀ text ∈ (Text.decodeLines raws).1,
      g.watch.heeds (Text.normalize text) = false := by
    intro text htext
    rw [hw, WatchMode.heeds_idle, h text htext]
  obtain ⟨-, hmessages, a, c, f, hframe⟩ := Gate.lines_of_unheeded hc hunheeded
  obtain ⟨hlog, hrefusals⟩ := Gate.log_of_unheeded hunheeded
  have hidle : (g.lines (Text.decodeLines raws).1).1.watch.active = false := by
    rw [hframe, hw]
    rfl
  refine ⟨(g.lines (Text.decodeLines raws).1).1, (g.lines (Text.decodeLines raws).1).2, ?_, ?_,
    hmessages, hrefusals, ?_⟩
  · rw [hframe]
  · rw [hframe]
  · rw [runLines_eq, hlog, Gate.check_eq, Gate.finish_of_idle hidle]
    cases (Text.decodeLines raws).2 with
    | none => simp only [List.map_append]
    | some f => simp only [hframe]

theorem run_of_fault {files : σ} {options : Options} {e : StartFault}
    (h : (Gate.start files options.settings).2 = .error e) (input : List UInt8) :
    run files options input =
      ⟨files, (Gate.start files options.settings).1.map .ofEvent, .error (.start e)⟩ := by
  unfold run
  split
  · rename_i heq
    rw [heq] at h
    cases h
    rw [heq]
  · rename_i heq
    rw [heq] at h
    cases h

theorem run_of_start {files : σ} {options : Options}
    (h : (Gate.start files options.settings).2 = .ok g) (input : List UInt8) :
    run files options input =
      { runLines g (Text.splitLines [] input) with
        records := (Gate.start files options.settings).1.map .ofEvent ++
          (runLines g (Text.splitLines [] input)).records } := by
  unfold run
  split
  · rename_i heq
    rw [heq] at h
    cases h
  · rename_i heq
    rw [heq] at h
    cases h
    rw [heq]

/-- **A broken input changes nothing.** Whatever the options, the store and the lines before are: if a
line of the input is no text, and no line before it starts watch mode, the run ends with an error, all
files are as they were, and nothing is reported but what starting has told, the faults of the lists. If
the gate does not start, its run ends with that error and leaves the files too, whatever the input is. -/
theorem run_of_broken (files : σ) (options : Options) (input : List UInt8) :
    (∀ before bad after, Text.splitLines [] input = before ++ bad :: after →
      (∀ text, Text.encode text ≠ bad) →
      (∀ raw ∈ before, ∀ text, Text.decodeLine raw = .ok text →
        WatchMode.holds WatchMode.startMarker (Text.normalize text) = false) →
      (∃ e, (run files options input).outcome = .error e) ∧
      (run files options input).files = files ∧
      reported (run files options input).records =
        (messagesOf (Gate.start files options.settings).1).map fun m => .ofEvent (.message m)) ∧
    (∀ e, (Gate.start files options.settings).2 = .error e →
      (run files options input).outcome = .error (.start e) ∧
      (run files options input).files = files) ∧
    (∀ m ∈ messagesOf (Gate.start files options.settings).1,
      (∃ e, m = .listFault e) ∨ ∃ c, m = .invalidCode c) ∧
    ((Gate.start files options.settings).2.isOk →
      messagesOf (Gate.start files options.settings).1 = []) := by
  obtain ⟨hfaults, hquiet, hrefusals⟩ := Gate.messagesOf_start files options.settings
  refine ⟨?_, fun e he => ?_, hfaults, hquiet⟩
  · intro before bad after hsplit hbad hbefore
    cases hstart : (Gate.start files options.settings).2 with
    | error e =>
      rw [run_of_fault hstart]
      exact ⟨⟨_, rfl⟩, rfl, reported_map_ofEvent hrefusals⟩
    | ok g =>
      obtain ⟨f, hf, htexts⟩ := @Text.decodeLines_of_broken before after bad hbad
      have hunstarted : ∀ text ∈ (Text.decodeLines (before ++ bad :: after)).1,
          WatchMode.holds WatchMode.startMarker (Text.normalize text) = false := by
        intro text htext
        rw [htexts] at htext
        obtain ⟨raw, hraw, hd⟩ := Text.mem_decodeLines htext
        exact hbefore raw hraw text hd
      obtain ⟨last, notes, -, -, hmessages, hkept, hrun⟩ :=
        runLines_of_unstarted (Gate.collected_start hstart) (Gate.idle_start hstart) hunstarted
      rw [run_of_start hstart, hsplit, hrun, hf]
      refine ⟨⟨_, rfl⟩, Gate.files_start hstart, ?_⟩
      rw [reported_append, reported_map_ofEvent hrefusals, reported_map_ofEvent hkept, hmessages]
      exact List.append_nil _
  · rw [run_of_fault he]
    exact ⟨rfl, rfl⟩

/-- a disk with both lists -/
def listedDisk : Disk :=
  (Disk.empty.place "c" (Text.encode "[\"TS2322\"]")).place "f" (Text.encode "[\"lib/*.ts\"]")

/-- a diagnostic whose file could be listed, a character that the line end cuts off, and a diagnostic
behind it -/
def cutOffInput : List UInt8 :=
  Text.encode "src/a.ts(1,1): error TS2322: m\n" ++ 0xc3 :: Text.encode "\nb.ts(2,2): error TS7006: n\n"

/-- An update is not made where a character is cut off behind a diagnostic that asks for it. -/
theorem run_of_broken_cut_off :
    (Gate.start listedDisk ⟨"c", "f", false, true⟩).2.isOk ∧
      (∃ e, (run listedDisk ⟨"c", "f", false, true, true, 0⟩ cutOffInput).outcome = .error e) ∧
      (run listedDisk ⟨"c", "f", false, true, true, 0⟩ cutOffInput).files = listedDisk ∧
      reported (run listedDisk ⟨"c", "f", false, true, true, 0⟩ cutOffInput).records = [] := by
  have hstart : (Gate.start listedDisk ⟨"c", "f", false, true⟩).2.isOk := by decide +kernel
  have hsplit : Text.splitLines [] cutOffInput =
      [Text.encode "src/a.ts(1,1): error TS2322: m\n"] ++ [0xc3, 0x0a] ::
        [Text.encode "b.ts(2,2): error TS7006: n\n"] := by decide +kernel
  have hbad : ∀ text, Text.encode text ≠ [0xc3, 0x0a] := by
    intro text htext
    have hdecoded := Text.decode_eq_ok_iff.2 htext
    rw [show Text.decode [0xc3, 0x0a] = .error ⟨0, some 1⟩ from rfl] at hdecoded
    cases hdecoded
  have hbefore : ∀ raw ∈ [Text.encode "src/a.ts(1,1): error TS2322: m\n"], ∀ text,
      Text.decodeLine raw = .ok text →
        WatchMode.holds WatchMode.startMarker (Text.normalize text) = false := by
    intro raw hraw text hd
    obtain rfl := List.mem_singleton.1 hraw
    have hline : Text.decodeLine (Text.encode "src/a.ts(1,1): error TS2322: m\n") =
        .ok "src/a.ts(1,1): error TS2322: m" := by decide +kernel
    rw [hline] at hd
    cases hd
    decide +kernel
  obtain ⟨hbroken, -, -, hquiet⟩ :=
    run_of_broken listedDisk ⟨"c", "f", false, true, true, 0⟩ cutOffInput
  obtain ⟨herror, hfiles, hreported⟩ := hbroken _ _ _ hsplit hbad hbefore
  rw [hquiet hstart] at hreported
  exact ⟨hstart, herror, hfiles, hreported⟩

end CommandLine

end DiagnosticGate
