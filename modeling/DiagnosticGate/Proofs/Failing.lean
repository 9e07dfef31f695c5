import DiagnosticGate.Proofs.Discrepancies
import DiagnosticGate.Proofs.Input
import DiagnosticGate.Proofs.Update
import DiagnosticGate.Proofs.Verdict

/-!
Failing and telling of a failure.

Each step of a report, each write and so each compilation fails exactly if it tells the user of a
failure. A quiet program prints the failures and nothing else, so it is silent exactly if all is well.
-/

namespace DiagnosticGate

open Storage

/-- whether one of the messages tells of a failure -/
def alarms (ms : List Message) : Bool := ms.any fun m => m.tone == .failure

theorem alarms_append (xs ys : List Message) : alarms (xs ++ ys) = (alarms xs || alarms ys) :=
  List.any_append

theorem alarms_iff {ms : List Message} : alarms ms ↔ ∃ m ∈ ms, m.tone = .failure := by
  simp [alarms]

/-! ### Reports -/

section

variable {apply : Bool} {ds : List Diagnostic} {codes files : AllowList} {coverage : Coverage}

theorem alarms_dropStaleCodes : alarms (dropStaleCodes apply ds codes).messages =
    (dropStaleCodes apply ds codes).verdict.fails := by
  unfold dropStaleCodes
  by_cases h : (staleCodes ds codes).isEmpty
  · simp only [h, if_true]
    rfl
  · cases apply <;> simp only [h] <;> rfl

theorem alarms_dropUnusedFiles : alarms (dropUnusedFiles apply coverage files).messages =
    (dropUnusedFiles apply coverage files).verdict.fails := by
  unfold dropUnusedFiles
  by_cases h : coverage.unused.isEmpty
  · simp only [h, if_true]
    rfl
  · cases apply <;> simp only [h] <;> rfl

theorem alarms_promoteFiles : alarms (promoteFiles apply ds files).messages =
    (promoteFiles apply ds files).verdict.fails := by
  unfold promoteFiles
  by_cases h : ds.isEmpty
  · simp only [h, if_true]
    rfl
  · cases apply with
    | false => simp only [h]; rfl
    | true =>
      -- the diagnostics that are promoted are told without alarm
      have hplain : alarms (ds.map (Message.promotableError true)) = false := by
        simp [alarms, Message.tone]
      simp only [h, if_true, Bool.false_eq_true, if_false, List.cons_append, alarms, List.any_cons,
        List.any_append] at hplain ⊢
      rw [hplain]
      rfl

theorem alarms_reportValid : alarms (reportValid ds).messages = (reportValid ds).verdict.fails := by
  unfold reportValid
  by_cases h : ds.isEmpty
  · simp only [h, if_true]
    rfl
  · simp only [h]
    rfl

/-- **A report alarms exactly if it fails.** -/
theorem alarms_resolve {split : Findings.Split} {lists : AllowLists} :
    alarms (resolve apply split coverage lists).messages =
      (resolve apply split coverage lists).verdict.fails := by
  unfold resolve
  simp only [alarms_append, Verdict.fails_or, alarms_dropStaleCodes, alarms_dropUnusedFiles,
    alarms_promoteFiles, alarms_reportValid]

theorem alarms_summary (split : Findings.Split) : alarms (Gate.summary split) = false := by
  unfold Gate.summary
  split <;> rfl

end

/-! ### Writes -/

section

variable {σ : Type} [TextFiles σ]

theorem alarms_writeList (store : σ) (settings : Settings) (list : Which) (held wanted : AllowList) :
    alarms (messagesOf (writeList store settings list held wanted).events) =
      (writeList store settings list held wanted).verdict.fails := by
  rcases writeList_cases store settings list held wanted with ⟨-, hw⟩ | ⟨-, next, -, hw⟩ |
    ⟨-, e, -, hw⟩ <;> rw [hw] <;> rfl

/-- **An update alarms exactly if it fails.** -/
theorem alarms_writeLists (store : σ) (settings : Settings) (held wanted : AllowLists) :
    alarms (messagesOf (writeLists store settings held wanted).events) =
      (writeLists store settings held wanted).verdict.fails := by
  have hfiles := alarms_writeList store settings .files held.files wanted.files
  rcases writeLists_cases store settings held wanted with ⟨hv, hw⟩ | ⟨hv, second, hsecond, hw⟩ <;>
    rw [hw]
  · rw [hfiles, hv]
  · rw [messagesOf_append, alarms_append, hfiles, hv, hsecond, alarms_writeList]
    rfl

theorem alarms_saveAll (store : σ) (plan : List (String × List String)) :
    alarms (messagesOf (saveAll store plan).events) = (saveAll store plan).verdict.fails := by
  induction plan generalizing store with
  | nil => rfl
  | cons p rest ih =>
    obtain ⟨path, texts⟩ := p
    unfold saveAll
    cases saveTexts store path texts with
    | error e => rfl
    | ok next => exact ih next

theorem alarms_makeLists (store : σ) (settings : Settings) (ds : List Diagnostic) :
    alarms (messagesOf (makeLists store settings ds).events) =
      (makeLists store settings ds).verdict.fails := alarms_saveAll store _

/-! ### Compilations -/

namespace Gate

variable {g : Gate σ} {c : Completion σ}

theorem alarms_conclude (g : Gate σ) :
    alarms (messagesOf g.conclude.events) = g.conclude.verdict.fails := by
  rcases g.conclude_cases with ⟨-, hc⟩ | ⟨-, -, hc⟩ | ⟨-, -, -, hc⟩ | ⟨-, -, -, hc⟩ <;> rw [hc]
  · rfl
  · exact alarms_makeLists g.files g.settings g.findings.all
  · simp only [messagesOf_append, messagesOf_map_message, messagesOf_follow, List.append_nil,
      alarms_append, alarms_summary, Bool.false_or, Verdict.fails_or]
    rw [resolved, alarms_resolve, update, alarms_writeLists, resolved]
  · simp only [messagesOf_map_message, alarms_append, alarms_summary, Bool.false_or]
    exact alarms_resolve

/-- **A compilation alarms exactly if it fails.** -/
theorem alarms_endCompilation (g : Gate σ) :
    alarms (messagesOf g.endCompilation.events) = g.endCompilation.verdict.fails := by
  rw [endCompilation_eq, messagesOf_append, messagesOf_closePending, List.nil_append]
  exact alarms_conclude _

end Gate

end

/-! ### What a quiet program prints -/

namespace CommandLine

/-- whether one of the records is an error -/
def erring (records : List LogRecord) : Bool := records.any fun r => r.level == .error

theorem erring_append (xs ys : List LogRecord) : erring (xs ++ ys) = (erring xs || erring ys) :=
  List.any_append

theorem erring_map_ofEvent (events : List Event) :
    erring (events.map .ofEvent) = alarms (messagesOf events) := by
  induction events with
  | nil => rfl
  | cons e events ih =>
    cases e with
    | message m =>
      have hlevel : ((LogRecord.ofEvent (.message m)).level == .error) = (m.tone == .failure) := by
        simp only [LogRecord.ofEvent]
        cases m.tone <;> rfl
      rw [List.map_cons, erring, List.any_cons, hlevel]
      exact congrArg _ ih
    | note n =>
      have hlevel : ((LogRecord.ofEvent (.note n)).level == .error) = false := by cases n <;> rfl
      rw [List.map_cons, erring, List.any_cons, hlevel]
      exact ih

theorem shown_mark (rest : List UInt8) :
    ∃ more, Text.Terminal.shown (Text.encode "\x1b[1m\x1b[31m[" ++ rest) = 0x5b :: more :=
  ⟨_, rfl⟩

theorem bytesOf_error_eq_nil {colour : Bool} {time : String} {r : LogRecord} :
    bytesOf .error colour time r = [] ↔ r.level ≠ .error := by
  unfold bytesOf
  by_cases h : r.level = .error
  · have hmark : ∃ rest, Text.encode (printed .error time r) =
        Text.encode "\x1b[1m\x1b[31m[" ++ rest := by
      refine ⟨Text.encode ("ERROR]" ++ plainColour ++ " " ++ r.text ++ "\n"), ?_⟩
      rw [Text.encode, Text.encode, Text.encode, ← Text.encodeChars_append]
      simp [printed, h, Level.rank, Level.colour, Level.name]
    obtain ⟨rest, hrest⟩ := hmark
    obtain ⟨more, hshown⟩ := shown_mark rest
    rw [if_pos (by rw [h])]
    refine iff_of_false ?_ (not_not_intro h)
    cases colour with
    | false => simp [hrest, hshown]
    | true =>
      rw [hrest]
      exact List.cons_ne_nil _ _
  · rw [if_neg]
    · simp [h]
    · cases hl : r.level <;> simp_all [Level.rank]

theorem errors_eq_nil {records : List LogRecord} {colour : Bool} {time : String} :
    records.flatMap (bytesOf .error colour time) = [] ↔ erring records = false := by
  simp [List.flatMap_eq_nil_iff, bytesOf_error_eq_nil, erring]

section

variable {σ : Type} [TextFiles σ]

/-- **A run fails exactly if it records an error**, where no line of its input starts watch mode. -/
theorem exitCode_run (files : σ) (options : Options) {input : List UInt8}
    (h : ∀ raw ∈ Text.splitLines [] input, ∀ text, Text.decodeLine raw = .ok text →
      WatchMode.holds WatchMode.startMarker (Text.normalize text) = false) :
    exitCode (run files options input).outcome =
      if erring ((run files options input).records ++ finalRecords (run files options input).outcome)
      then 1 else 0 := by
  -- every error ends in a record of its own
  have herror : ∀ records e, erring (records ++ finalRecords (.error e)) = true := by
    intro records e
    rw [erring_append]
    exact Bool.or_true _
  cases hstart : (Gate.start files options.settings).2 with
  | error e =>
    rw [run_of_fault hstart, herror]
    rfl
  | ok g =>
    have hquiet : messagesOf (Gate.start files options.settings).1 = [] :=
      (Gate.messagesOf_start files options.settings).2.1 (by rw [hstart]; rfl)
    have hunstarted : ∀ text ∈ (Text.decodeLines (Text.splitLines [] input)).1,
        WatchMode.holds WatchMode.startMarker (Text.normalize text) = false := by
      intro text htext
      obtain ⟨raw, hraw, hd⟩ := Text.mem_decodeLines htext
      exact h raw hraw text hd
    obtain ⟨last, notes, -, -, hmessages, -, hrun⟩ :=
      runLines_of_unstarted (Gate.collected_start hstart) (Gate.idle_start hstart) hunstarted
    rw [run_of_start hstart, hrun]
    cases (Text.decodeLines (Text.splitLines [] input)).2 with
    | some f =>
      simp only [herror]
      rfl
    | none =>
      simp only [finalRecords, List.append_nil, erring_append, erring_map_ofEvent, hquiet,
        messagesOf_append, hmessages, List.nil_append, Gate.alarms_endCompilation]
      rfl

/-- **Failing is telling of a failure.** A compilation ends with the verdict fail exactly if a message
of its end has the tone of a failure, whatever the gate has seen and whatever the store refuses. A
quiet program whose input starts no watch mode thus ends with 1 exactly if it prints something on the
error stream, and otherwise with 0. -/
theorem fails_iff_tells :
    (∀ (g : Gate σ) (c : Completion σ), g.Ends c →
      (c.verdict = .fail ↔ ∃ m ∈ messagesOf c.events, m.tone = .failure)) ∧
    ∀ (files : σ) args env input colour time options, Options.parse args env = .ok options →
      options.quiet → (∀ raw ∈ Text.splitLines [] input, ∀ text, Text.decodeLine raw = .ok text →
        WatchMode.holds WatchMode.startMarker (Text.normalize text) = false) →
      ((call files args env input colour time).exitCode = 1 ↔
        (call files args env input colour time).errors ≠ []) ∧
      ((call files args env input colour time).errors = [] →
        (call files args env input colour time).exitCode = 0) := by
  constructor
  · intro g c hends
    rw [hends.eq_endCompilation, ← alarms_iff, Gate.alarms_endCompilation]
    cases g.endCompilation.verdict <;> decide
  · intro files args env input colour time options hparse hquiet hstarts
    have hcode := exitCode_run files options hstarts
    have hlimit : threshold options = .error := if_pos hquiet
    unfold call
    rw [hparse]
    simp only [hlimit, ne_eq, errors_eq_nil, hcode]
    split <;> simp_all

end

/-- a store with a list that cannot be written, though one of its codes is stale -/
def refusingStore : Memory := Memory.ofLists ["TS2322", "TS7006"] ["src/a.ts"] ["c"]

def quietArgs : List String :=
  ["-q", "-v", "--auto-update", "--ignored-error-codes=c", "--loosely-type-checked-files", "f"]

def quietInput : List UInt8 := Text.encode "src/a.ts(1,1): error TS2322: m\n"

/-- An update that is refused is told also where the user wants to hear little, and it fails. -/
theorem fails_iff_tells_refused :
    (∃ (g : Gate Memory) (c : Completion Memory), g.Ends c ∧ c.verdict = .fail ∧
      ∃ m ∈ messagesOf c.events, m.tone = .failure) ∧
    (Options.parse quietArgs ⟨none, none⟩).isOk ∧
    (call refusingStore quietArgs ⟨none, none⟩ quietInput false "0s").exitCode = 1 ∧
    (call refusingStore quietArgs ⟨none, none⟩ quietInput false "0s").errors ≠ [] := by
  obtain ⟨hcompilation, hcall⟩ := @fails_iff_tells Memory _
  have hrun : ((Gate.start refusingStore ⟨"c", "f", false, true⟩).2.map fun g₀ =>
      let g := (g₀.lines ["src/a.ts(1,1): error TS2322: m"]).1
      (g.watch.active, g.finish.verdict)) = .ok (false, .fail) := by decide +kernel
  obtain ⟨g₀, -, heq⟩ := Gate.exists_of_map_eq_ok hrun
  obtain ⟨hidle, hfail⟩ := Prod.mk.inj heq
  have hparse : Options.parse quietArgs ⟨none, none⟩ = .ok ⟨"c", "f", false, true, true, 1⟩ := by
    decide +kernel
  have hstarts : ∀ raw ∈ Text.splitLines [] quietInput, ∀ text, Text.decodeLine raw = .ok text →
      WatchMode.holds WatchMode.startMarker (Text.normalize text) = false := by
    intro raw hraw text hd
    rw [show Text.splitLines [] quietInput = [quietInput] by decide +kernel] at hraw
    obtain rfl := List.mem_singleton.1 hraw
    rw [show Text.decodeLine quietInput = .ok "src/a.ts(1,1): error TS2322: m" by
      decide +kernel] at hd
    cases hd
    decide +kernel
  have hcode : (call refusingStore quietArgs ⟨none, none⟩ quietInput false "0s").exitCode = 1 := by
    decide +kernel
  refine ⟨⟨_, _, .finish hidle, hfail, (hcompilation _ _ (.finish hidle)).1 hfail⟩, ?_, hcode, ?_⟩
  · rw [hparse]
    rfl
  · exact (hcall _ _ _ _ _ _ _ hparse rfl hstarts).1.1 hcode

end CommandLine

end DiagnosticGate
