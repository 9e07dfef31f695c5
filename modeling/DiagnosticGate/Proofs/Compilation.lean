import DiagnosticGate.Gate
import DiagnosticGate.Proofs.Findings

/-!
One compilation, all at once.

A gate reads, judges and counts line by line. `Outcome.ofLines` takes the lines of a compilation
together: it reads all its diagnostics, judges them with a coverage that has no hits, reports on
them and writes the lists. The main statement here is that a gate which has judged some
diagnostics concludes with their outcome.
-/

namespace DiagnosticGate

open Storage

/-- What a compilation comes to: the verdict, what the user is told, the store behind all writes
and the lists that the next compilation is judged by. -/
structure Outcome (σ : Type) where
  verdict : Verdict
  messages : List Message
  files : σ
  lists : AllowLists

/-- The lists to go by after `persisted` has been written. The held ones stay if they have the same
members, or if the entries of `persisted` cannot be read. -/
def AllowLists.adopted (held persisted : AllowLists) : AllowLists :=
  if persisted.agrees held then held
  else
    match Coverage.ofTexts persisted.files.entries with
    | .ok _ => persisted
    | .error _ => held

namespace Outcome

variable {σ : Type} [TextFiles σ]

/-- what judged diagnostics come to -/
def ofJudged (files : σ) (settings : Settings) (lists : AllowLists) (j : Judged) : Outcome σ :=
  let split := j.findings.split
  if split.all.isEmpty then ⟨.pass, [.noErrors], files, lists⟩
  else if settings.init then
    let made := makeLists files settings split.all
    ⟨made.verdict, .detected split.all.length :: messagesOf made.events, made.files, lists⟩
  else
    let step := resolve settings.autoUpdate split j.coverage lists
    let told := Gate.summary split ++ step.messages
    if settings.autoUpdate then
      let update := writeLists files settings lists step.result
      ⟨step.verdict ||| update.verdict, told ++ messagesOf update.events, update.files,
        lists.adopted update.persisted⟩
    else ⟨step.verdict, told, files, lists⟩

/-- What the lines of a compilation come to, under lists whose entries must be readable. -/
def ofLines (files : σ) (settings : Settings) (lists : AllowLists) (lines : List String) :
    Except PatternError (Outcome σ) :=
  match Coverage.ofTexts lists.files.entries with
  | .error e => .error e
  | .ok fresh =>
    .ok (ofJudged files settings lists
      (.ofList settings.init lists.codes fresh (Diagnostic.ofLines lines)))

end Outcome

/-- what the end of a compilation shows to the outside -/
def Completion.outcome {σ : Type} (c : Completion σ) : Outcome σ :=
  ⟨c.verdict, messagesOf c.events, c.gate.files, c.gate.lists⟩

theorem messagesOf_map_message (ms : List Message) : messagesOf (ms.map .message) = ms := by
  induction ms with
  | nil => rfl
  | cons m ms ih => exact congrArg (m :: ·) ih

namespace Gate

section

variable {σ : Type}

/-- what a gate has judged of the open compilation -/
def judged (g : Gate σ) : Judged := ⟨g.coverage, g.findings⟩

/-- Hits left aside, the coverage is that of the list of files. -/
def Ready (g : Gate σ) : Prop := Coverage.ofTexts g.lists.files.entries = .ok g.coverage.clear

/-! ### Judging -/

theorem take_eq (g : Gate σ) (d : Diagnostic) :
    g.take d =
      ({ g with
          coverage := (g.judged.push g.settings.init g.lists.codes d).coverage
          findings := (g.judged.push g.settings.init g.lists.codes d).findings },
        [.note (.judged d (if g.settings.init then .valid else d.judge g.lists.codes g.coverage))]) := by
  unfold take Judged.push judged
  by_cases h : g.settings.init <;> simp [h]

theorem judged_take (g : Gate σ) (d : Diagnostic) :
    (g.take d).1.judged = g.judged.push g.settings.init g.lists.codes d := by
  rw [take_eq]
  rfl

theorem messagesOf_take (g : Gate σ) (d : Diagnostic) : messagesOf (g.take d).2 = [] := rfl

theorem take_frame (g : Gate σ) (d : Diagnostic) :
    ∃ coverage findings, (g.take d).1 = { g with coverage, findings } :=
  ⟨_, _, congrArg Prod.fst (take_eq g d)⟩

theorem Ready.take {g : Gate σ} (h : g.Ready) (d : Diagnostic) : (g.take d).1.Ready := by
  unfold Ready
  simp only [take_eq, Judged.push, judged]
  cases g.settings.init with
  | true => exact h
  | false =>
    show Coverage.ofTexts g.lists.files.entries = .ok (g.coverage.count d.file).clear
    rw [Coverage.clear_count]
    exact h

/-! ### Following the lists that have been written -/

theorem follow_cases (g : Gate σ) (persisted : AllowLists) :
    (persisted.agrees g.lists ∧ g.follow persisted = (g, [])) ∨
    (¬ persisted.agrees g.lists ∧ ∃ coverage, Coverage.ofTexts persisted.files.entries = .ok coverage ∧
      g.follow persisted = ({ g with coverage, lists := persisted }, [.note .adopting])) ∨
    (¬ persisted.agrees g.lists ∧ ∃ e, Coverage.ofTexts persisted.files.entries = .error e ∧
      g.follow persisted = (g, [.note (.keeping e)])) := by
  unfold follow
  by_cases h : persisted.agrees g.lists
  · exact .inl ⟨h, by rw [if_pos h]⟩
  · rw [if_neg h]
    cases hc : Coverage.ofTexts persisted.files.entries with
    | ok coverage => exact .inr (.inl ⟨h, coverage, rfl, rfl⟩)
    | error e => exact .inr (.inr ⟨h, e, rfl, rfl⟩)

theorem lists_follow (g : Gate σ) (persisted : AllowLists) :
    (g.follow persisted).1.lists = g.lists.adopted persisted := by
  unfold AllowLists.adopted
  rcases g.follow_cases persisted with ⟨h, hf⟩ | ⟨h, c, hc, hf⟩ | ⟨h, e, he, hf⟩
  · rw [hf, if_pos h]
  · rw [hf, if_neg h, hc]
  · rw [hf, if_neg h, he]

theorem messagesOf_follow (g : Gate σ) (persisted : AllowLists) :
    messagesOf (g.follow persisted).2 = [] := by
  rcases g.follow_cases persisted with ⟨-, hf⟩ | ⟨-, c, -, hf⟩ | ⟨-, e, -, hf⟩ <;> rw [hf] <;> rfl

theorem follow_frame (g : Gate σ) (persisted : AllowLists) :
    ∃ coverage lists, (g.follow persisted).1 = { g with coverage, lists } := by
  rcases g.follow_cases persisted with ⟨-, hf⟩ | ⟨-, c, -, hf⟩ | ⟨-, e, -, hf⟩ <;>
    exact ⟨_, _, congrArg Prod.fst hf⟩

theorem Ready.follow {g : Gate σ} (h : g.Ready) (persisted : AllowLists) :
    (g.follow persisted).1.Ready := by
  rcases g.follow_cases persisted with ⟨-, hf⟩ | ⟨-, c, hc, hf⟩ | ⟨-, e, -, hf⟩ <;> rw [hf]
  · exact h
  · rw [Ready, hc, Coverage.clear_of_sound (Coverage.sound_ofTexts hc)]
  · exact h

end

/-! ### The end of a compilation -/

section

variable {σ : Type} [TextFiles σ]

/-- what the findings of a gate ask of its lists -/
def resolved (g : Gate σ) : Step AllowLists :=
  resolve g.settings.autoUpdate g.findings.split g.coverage g.lists

/-- the writes that this leads to if the lists are to be changed -/
def update (g : Gate σ) : Update σ := writeLists g.files g.settings g.lists g.resolved.result

omit [TextFiles σ] in
theorem isEmpty_split (g : Gate σ) : g.findings.split.all.isEmpty = g.findings.all.isEmpty := by
  rw [Findings.split_eq]

theorem conclude_of_none {g : Gate σ} (h : g.findings.all = []) :
    g.conclude = ⟨g, [.message .noErrors], .pass⟩ := by
  unfold conclude
  simp only [isEmpty_split, h, List.isEmpty_nil, if_true]

theorem conclude_of_making {g : Gate σ} (h : g.findings.all ≠ []) (hi : g.settings.init) :
    g.conclude = ⟨{ g with files := (makeLists g.files g.settings g.findings.all).files },
      .message (.detected g.findings.all.length) ::
        (makeLists g.files g.settings g.findings.all).events,
      (makeLists g.files g.settings g.findings.all).verdict⟩ := by
  have hall : g.findings.split.all = g.findings.all := by rw [Findings.split_eq]
  unfold conclude
  simp only [hall, List.isEmpty_iff, h, hi, if_true, if_false]

theorem conclude_of_update {g : Gate σ} (h : g.findings.all ≠ []) (hi : g.settings.init = false)
    (hu : g.settings.autoUpdate) :
    g.conclude = ⟨({ g with files := g.update.files }.follow g.update.persisted).1,
      (summary g.findings.split ++ g.resolved.messages).map .message ++ g.update.events ++
        ({ g with files := g.update.files }.follow g.update.persisted).2,
      g.resolved.verdict ||| g.update.verdict⟩ := by
  unfold conclude
  simp only [isEmpty_split, List.isEmpty_iff, h, hi, hu, Bool.false_eq_true, if_true, if_false]
  simp only [update, resolved, hu]

theorem conclude_of_report {g : Gate σ} (h : g.findings.all ≠ []) (hi : g.settings.init = false)
    (hu : g.settings.autoUpdate = false) :
    g.conclude =
      ⟨g, (summary g.findings.split ++ g.resolved.messages).map .message, g.resolved.verdict⟩ := by
  unfold conclude
  simp only [isEmpty_split, List.isEmpty_iff, h, hi, hu, Bool.false_eq_true, if_false]
  simp only [resolved, hu]

/-- **All that concluding can do**: nothing was found, the lists are made, they are updated, or they
are only reported on. -/
theorem conclude_cases (g : Gate σ) :
    (g.findings.all = [] ∧ g.conclude = ⟨g, [.message .noErrors], .pass⟩) ∨
    (g.findings.all ≠ [] ∧ g.settings.init ∧
      g.conclude = ⟨{ g with files := (makeLists g.files g.settings g.findings.all).files },
        .message (.detected g.findings.all.length) ::
          (makeLists g.files g.settings g.findings.all).events,
        (makeLists g.files g.settings g.findings.all).verdict⟩) ∨
    (g.findings.all ≠ [] ∧ g.settings.init = false ∧ g.settings.autoUpdate ∧
      g.conclude = ⟨({ g with files := g.update.files }.follow g.update.persisted).1,
        (summary g.findings.split ++ g.resolved.messages).map .message ++ g.update.events ++
          ({ g with files := g.update.files }.follow g.update.persisted).2,
        g.resolved.verdict ||| g.update.verdict⟩) ∨
    (g.findings.all ≠ [] ∧ g.settings.init = false ∧ g.settings.autoUpdate = false ∧
      g.conclude = ⟨g, (summary g.findings.split ++ g.resolved.messages).map .message,
        g.resolved.verdict⟩) := by
  by_cases h : g.findings.all = []
  · exact .inl ⟨h, conclude_of_none h⟩
  cases hi : g.settings.init with
  | true => exact .inr (.inl ⟨h, rfl, conclude_of_making h hi⟩)
  | false =>
    cases hu : g.settings.autoUpdate with
    | true => exact .inr (.inr (.inl ⟨h, rfl, rfl, conclude_of_update h hi hu⟩))
    | false => exact .inr (.inr (.inr ⟨h, rfl, rfl, conclude_of_report h hi hu⟩))

/-- **A gate concludes with the outcome of what it has judged.** -/
theorem outcome_conclude (g : Gate σ) :
    g.conclude.outcome = .ofJudged g.files g.settings g.lists g.judged := by
  have hall : g.findings.split.all = g.findings.all := by rw [Findings.split_eq]
  unfold Outcome.ofJudged Completion.outcome judged
  simp only [hall, List.isEmpty_iff]
  rcases g.conclude_cases with ⟨h, hc⟩ | ⟨h, hi, hc⟩ | ⟨h, hi, hu, hc⟩ | ⟨h, hi, hu, hc⟩
  · rw [hc, if_pos h]
    rfl
  · rw [hc, if_neg h, if_pos hi]
    rfl
  · obtain ⟨coverage, lists, hframe⟩ :=
      follow_frame { g with files := g.update.files } g.update.persisted
    rw [hc, if_neg h, if_neg (by simp [hi]), if_pos hu]
    simp only [messagesOf_append, messagesOf_map_message, messagesOf_follow, List.append_nil,
      lists_follow]
    rw [hframe]
    rfl
  · rw [hc, if_neg h, if_neg (by simp [hi]), if_neg (by simp [hu])]
    simp only [messagesOf_map_message]
    rfl

theorem conclude_frame (g : Gate σ) :
    ∃ files coverage lists, g.conclude.gate = { g with files, coverage, lists } := by
  rcases g.conclude_cases with ⟨-, hc⟩ | ⟨-, -, hc⟩ | ⟨-, -, -, hc⟩ | ⟨-, -, -, hc⟩ <;> rw [hc]
  · exact ⟨_, _, _, rfl⟩
  · exact ⟨_, _, _, rfl⟩
  · obtain ⟨coverage, lists, hframe⟩ :=
      follow_frame { g with files := g.update.files } g.update.persisted
    exact ⟨_, _, _, hframe⟩
  · exact ⟨_, _, _, rfl⟩

theorem Ready.conclude {g : Gate σ} (h : g.Ready) : g.conclude.gate.Ready := by
  rcases g.conclude_cases with ⟨-, hc⟩ | ⟨-, -, hc⟩ | ⟨-, -, -, hc⟩ | ⟨-, -, -, hc⟩ <;> rw [hc]
  · exact h
  · exact h
  · exact Ready.follow (g := { g with files := g.update.files }) h g.update.persisted
  · exact h

end

end Gate

end DiagnosticGate
