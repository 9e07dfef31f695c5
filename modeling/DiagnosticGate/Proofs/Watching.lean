import DiagnosticGate.Proofs.Starting
import DiagnosticGate.Proofs.Storage
import Mathlib.Data.List.DropRight

/-!
The compilations in the output of a compiler that watches.

The markers cut the lines of an output into compilations. `WatchMode.openLines` says which of the
lines seen so far belong to the one that is open, and the main statement is that a line with a
finished marker has the outcome of just these lines, under the lists at that moment.
-/

namespace DiagnosticGate

open Storage

namespace WatchMode

/-! ### Cutting an output -/

/-- a start marker has been seen -/
def started (seen : List String) : Bool := seen.any (holds startMarker)

/-- Whether `text`, read behind `seen`, ends a compilation. Where it announces a changed file too,
it does not. -/
def ends (seen : List String) (text : String) : Bool :=
  started seen && holds finishedMarker text && !holds fileChangeMarker text

/-- a line behind which, once the compiler watches, nothing before it counts -/
def isBoundary (text : String) : Bool := holds finishedMarker text || holds fileChangeMarker text

/-- the lines before the first start marker -/
def beforeStart (seen : List String) : List String :=
  seen.takeWhile fun text => !holds startMarker text

/-- the lines behind the first start marker -/
def afterStart (seen : List String) : List String :=
  (seen.dropWhile fun text => !holds startMarker text).tail

/-- The lines of the open compilation: those behind the last boundary, or all but the first start
marker as long as there is none. -/
def openLines (seen : List String) : List String :=
  if (afterStart seen).any isBoundary then
    (afterStart seen).rtakeWhile fun text => !isBoundary text
  else beforeStart seen ++ afterStart seen

theorem started_concat (seen : List String) (text : String) :
    started (seen ++ [text]) = (started seen || holds startMarker text) := by
  simp [started]

section

variable {seen : List String} (text : String)

theorem beforeStart_of_not_started (h : started seen = false) : beforeStart seen = seen := by
  simp only [started, List.any_eq_false] at h
  exact List.takeWhile_eq_self_iff.2 fun t ht => by simpa using h t ht

theorem afterStart_of_not_started (h : started seen = false) : afterStart seen = [] := by
  simp only [started, List.any_eq_false] at h
  have hdrop : seen.dropWhile (fun t => !holds startMarker t) = [] :=
    List.dropWhile_eq_nil_iff.2 fun t ht => by simpa using h t ht
  rw [afterStart, hdrop, List.tail_nil]

theorem openLines_of_not_started (h : started seen = false) : openLines seen = seen := by
  rw [openLines, afterStart_of_not_started h, beforeStart_of_not_started h]
  simp

theorem cut_concat_of_started (h : started seen) :
    beforeStart (seen ++ [text]) = beforeStart seen ∧
      afterStart (seen ++ [text]) = afterStart seen ++ [text] := by
  simp only [started, List.any_eq_true] at h
  obtain ⟨t, ht, hs⟩ := h
  have hdrop : seen.dropWhile (fun t => !holds startMarker t) ≠ [] := fun hnil => by
    have := List.dropWhile_eq_nil_iff.1 hnil t ht
    simp [hs] at this
  have htake : (seen.takeWhile (fun t => !holds startMarker t)).length ≠ seen.length := fun hlen => by
    have := List.mem_takeWhile_imp ((List.takeWhile_prefix _).eq_of_length hlen ▸ ht)
    simp [hs] at this
  constructor
  · rw [beforeStart, List.takeWhile_append, if_neg htake, beforeStart]
  · rw [afterStart, List.dropWhile_append, if_neg (by simpa using hdrop),
      List.tail_append_of_ne_nil hdrop, afterStart]

/-- The first start marker belongs to no compilation. -/
theorem openLines_concat_start (h : started seen = false) (ht : holds startMarker text) :
    openLines (seen ++ [text]) = openLines seen := by
  have htake : seen.takeWhile (fun t => !holds startMarker t) = seen := beforeStart_of_not_started h
  rw [openLines_of_not_started h]
  simp only [started, List.any_eq_false] at h
  have hdrop : seen.dropWhile (fun t => !holds startMarker t) = [] :=
    List.dropWhile_eq_nil_iff.2 fun t ht => by simpa using h t ht
  have hbefore : beforeStart (seen ++ [text]) = seen := by
    rw [beforeStart, List.takeWhile_append, if_pos (congrArg List.length htake)]
    simp [ht]
  have hafter : afterStart (seen ++ [text]) = [] := by
    rw [afterStart, List.dropWhile_append, hdrop]
    simp [ht]
  rw [openLines, hbefore, hafter]
  simp

theorem openLines_concat_boundary (h : started seen) (ht : isBoundary text) :
    openLines (seen ++ [text]) = [] := by
  rw [openLines, (cut_concat_of_started text h).2]
  rw [if_pos (by simp [ht]), List.rtakeWhile_concat_neg _ _ _ (by simp [ht])]

theorem openLines_concat_text (h : started seen) (ht : isBoundary text = false) :
    openLines (seen ++ [text]) = openLines seen ++ [text] := by
  obtain ⟨hbefore, hafter⟩ := cut_concat_of_started text h
  rw [openLines, openLines, hbefore, hafter, List.any_append]
  by_cases hany : (afterStart seen).any isBoundary
  · rw [if_pos (by simp [hany]), if_pos hany, List.rtakeWhile_concat_pos _ _ _ (by simp [ht])]
  · rw [if_neg (by simp [hany, ht]), if_neg hany, List.append_assoc]

theorem openLines_concat_early (h : started seen = false) (ht : holds startMarker text = false) :
    openLines (seen ++ [text]) = openLines seen ++ [text] := by
  rw [openLines_of_not_started h, openLines_of_not_started (by rw [started_concat, h, ht]; rfl)]

end

end WatchMode

/-- what a line that ends a compilation shows to the outside -/
def Reply.outcome? {σ : Type} (r : Reply σ) : Option (Outcome σ) :=
  r.verdict.map fun verdict => ⟨verdict, messagesOf r.events, r.gate.files, r.gate.lists⟩

namespace Gate

variable {σ : Type} [TextFiles σ]

/-- the verdicts that lines are answered with, one after the other -/
def answers (g : Gate σ) : List String → List (Option Verdict)
  | [] => []
  | raw :: rest => (g.line raw).verdict :: (g.line raw).gate.answers rest

theorem answers_append (g : Gate σ) (xs ys : List String) :
    g.answers (xs ++ ys) = g.answers xs ++ (g.lines xs).1.answers ys := by
  induction xs generalizing g with
  | nil => rfl
  | cons x xs ih =>
    simp only [List.cons_append, answers, ih, Gate.lines]

theorem answers_concat (g : Gate σ) (before : List String) (raw : String) :
    g.answers (before ++ [raw]) = g.answers before ++ [((g.lines before).1.line raw).verdict] :=
  g.answers_append before [raw]

/-! ### Following an output -/

/-- **All that a line can do** behind the lines `seen`. -/
theorem line_cases_of_active {g : Gate σ} {seen : List String}
    (ha : g.watch.active = WatchMode.started seen) (raw : String) :
    ((WatchMode.started seen = false ∧ WatchMode.holds WatchMode.startMarker (Text.normalize raw)) ∧
      g.line raw = ⟨{ g with watch := g.watch.see (Text.normalize raw) },
        [.note .watchStarted, .note .watchDetected], none⟩) ∨
    ((WatchMode.started seen ∧ WatchMode.holds WatchMode.fileChangeMarker (Text.normalize raw)) ∧
      g.line raw = ⟨g.clear, [.note (.fileChanged g.findings.size)], none⟩) ∨
    ((WatchMode.started seen ∧ WatchMode.holds WatchMode.fileChangeMarker (Text.normalize raw) = false ∧
        WatchMode.holds WatchMode.finishedMarker (Text.normalize raw)) ∧
      g.line raw = ⟨g.endCompilation.gate, g.endCompilation.events, some g.endCompilation.verdict⟩) ∨
    ((WatchMode.started seen = false ∧
          WatchMode.holds WatchMode.startMarker (Text.normalize raw) = false ∨
        WatchMode.started seen ∧ WatchMode.isBoundary (Text.normalize raw) = false) ∧
      g.line raw = ⟨(g.read (Text.normalize raw)).1, (g.read (Text.normalize raw)).2, none⟩) := by
  have h := g.line_cases raw
  simp only [WatchMode.starts, WatchMode.changes, WatchMode.finishes, ha] at h
  cases hs : WatchMode.started seen with
  | false =>
    simp only [hs, Bool.not_false, Bool.true_and, Bool.false_and, Bool.false_eq_true, false_and,
      and_false, false_or, true_and] at h
    rcases h with ⟨h, hline⟩ | ⟨h, hline⟩
    · exact .inl ⟨⟨rfl, h⟩, hline⟩
    · exact .inr (.inr (.inr ⟨.inl ⟨rfl, h⟩, hline⟩))
  | true =>
    simp only [hs, Bool.not_true, Bool.true_and, Bool.false_and, Bool.false_eq_true, false_and,
      false_or, true_and] at h
    rcases h with ⟨h, hline⟩ | ⟨hc, h, hline⟩ | ⟨hc, h, hline⟩
    · exact .inr (.inl ⟨⟨rfl, h⟩, hline⟩)
    · exact .inr (.inr (.inl ⟨⟨rfl, hc, h⟩, hline⟩))
    · exact .inr (.inr (.inr ⟨.inr ⟨rfl, by rw [WatchMode.isBoundary, h, hc]; rfl⟩, hline⟩))

/-- `g` is in step with the lines `seen`: it knows whether the compiler watches, has collected the
open compilation and nothing else, and remembers the last verdict. -/
structure Follows (settings : Settings) (seen : List String) (last : Verdict) (g : Gate σ) :
    Prop where
  settings : g.settings = settings
  active : g.watch.active = WatchMode.started seen
  collected : g.Collected (WatchMode.openLines seen)
  lastVerdict : g.lastVerdict = last

namespace Follows

variable {settings : Settings} {seen : List String} {last : Verdict} {g : Gate σ}

/-- **One line** keeps a gate in step. -/
theorem line (h : Follows settings seen last g) (raw : String) :
    Follows settings (seen ++ [Text.normalize raw]) ((g.line raw).verdict.getD last)
      (g.line raw).gate := by
  rcases line_cases_of_active h.active raw with ⟨⟨hs, ht⟩, hline⟩ | ⟨⟨hs, ht⟩, hline⟩ |
    ⟨⟨hs, -, ht⟩, hline⟩ | ⟨ht, hline⟩
  · -- the first start marker: watch mode begins, and all that was collected stays
    rw [hline]
    refine ⟨h.settings, ?_, ?_, h.lastVerdict⟩
    · simp [WatchMode.see, WatchMode.starts, WatchMode.started_concat, h.active, hs, ht]
    · rw [WatchMode.openLines_concat_start _ hs ht]
      exact ⟨h.collected.assembly, h.collected.judged⟩
  · -- a changed file: all that was collected is dropped
    rw [hline]
    refine ⟨h.settings, ?_, ?_, h.lastVerdict⟩
    · rw [WatchMode.started_concat, hs, Bool.true_or]
      exact h.active.trans hs
    · rw [WatchMode.openLines_concat_boundary _ hs (by rw [WatchMode.isBoundary, ht, Bool.or_true])]
      exact h.collected.ready.collected_clear
  · -- the end of a compilation: it is judged and forgotten
    obtain ⟨files, lists, coverage, hframe⟩ := g.endCompilation_frame
    rw [hline]
    refine ⟨?_, ?_, ?_, ?_⟩
    · simp only [hframe]
      exact h.settings
    · rw [WatchMode.started_concat, hs, Bool.true_or]
      simp only [hframe]
      exact h.active.trans hs
    · rw [WatchMode.openLines_concat_boundary _ hs (by rw [WatchMode.isBoundary, ht, Bool.true_or])]
      exact h.collected.ready.collected_endCompilation
    · simp only [hframe, Option.getD_some]
  · -- all else is text of the open compilation
    obtain ⟨assembly, coverage, findings, hframe⟩ := g.read_frame (Text.normalize raw)
    have hread := h.collected.read (Text.normalize raw)
    rw [hline]
    refine ⟨?_, ?_, ?_, ?_⟩
    · simp only [hframe]
      exact h.settings
    · simp only [hframe]
      rw [WatchMode.started_concat, h.active]
      rcases ht with ⟨-, ht⟩ | ⟨hs, -⟩
      · rw [ht, Bool.or_false]
      · rw [hs, Bool.true_or]
    · rcases ht with ⟨hs, ht⟩ | ⟨hs, ht⟩
      · rw [WatchMode.openLines_concat_early _ hs ht]
        exact hread
      · rw [WatchMode.openLines_concat_text _ hs ht]
        exact hread
    · simp only [hframe]
      exact h.lastVerdict

/-- A line that ends a compilation has the outcome of the open lines, and no other line has one. -/
theorem outcome?_line (h : Follows settings seen last g) (raw : String) :
    ∃ outcome, Outcome.ofLines g.files settings g.lists (WatchMode.openLines seen) = .ok outcome ∧
      (g.line raw).outcome? =
        if WatchMode.ends seen (Text.normalize raw) then some outcome else none := by
  refine ⟨_, h.settings ▸ h.collected.outcome_endCompilation, ?_⟩
  rcases line_cases_of_active h.active raw with ⟨⟨hs, ht⟩, hline⟩ | ⟨⟨hs, ht⟩, hline⟩ |
    ⟨⟨hs, hc, ht⟩, hline⟩ | ⟨ht, hline⟩ <;> rw [hline]
  · rw [if_neg (by simp [WatchMode.ends, hs])]
    rfl
  · rw [if_neg (by simp [WatchMode.ends, ht])]
    rfl
  · rw [if_pos (by simp [WatchMode.ends, hs, hc, ht])]
    rfl
  · rw [if_neg]
    · rfl
    · rcases ht with ⟨hs, -⟩ | ⟨-, ht⟩
      · simp [WatchMode.ends, hs]
      · simp only [WatchMode.isBoundary, Bool.or_eq_false_iff] at ht
        simp [WatchMode.ends, ht.1]

theorem quiet_line (h : Follows settings seen last g) {raw : String}
    (ht : WatchMode.ends seen (Text.normalize raw) = false) :
    messagesOf (g.line raw).events = [] ∧ (g.line raw).gate.files = g.files ∧
      (g.line raw).gate.lists = g.lists := by
  rcases line_cases_of_active h.active raw with ⟨-, hline⟩ | ⟨-, hline⟩ | ⟨⟨hs, hc, hf⟩, hline⟩ |
    ⟨-, hline⟩
  · rw [hline]
    exact ⟨rfl, rfl, rfl⟩
  · rw [hline]
    exact ⟨rfl, rfl, rfl⟩
  · rw [WatchMode.ends, hs, hc, hf] at ht
    cases ht
  · obtain ⟨assembly, coverage, findings, hframe⟩ := g.read_frame (Text.normalize raw)
    rw [hline]
    refine ⟨g.messagesOf_read _, ?_, ?_⟩ <;> simp only [hframe]

theorem outcome_finish (h : Follows settings seen last g) (hs : WatchMode.started seen) :
    g.finish.outcome = ⟨last, [], g.files, g.lists⟩ := by
  obtain ⟨hgate, hmsg, hverdict⟩ := finish_of_active (h.active.trans hs)
  rw [Completion.outcome, hgate, hmsg, hverdict, h.lastVerdict]
  rfl

end Follows

/-- Lines that `g₀` is given one after the other, the verdicts it has answered with, and the gate
behind them. Between two lines the store may become any other, and so may take a write that it has
refused before, or refuse one that it has taken. -/
inductive Fed (g₀ : Gate σ) : List String → List Verdict → Gate σ → Prop
  | start : Fed g₀ [] [] g₀
  | line {before : List String} {given : List Verdict} {g : Gate σ} (raw : String)
      (h : Fed g₀ before given g) :
      Fed g₀ (before ++ [raw]) (given ++ (g.line raw).verdict.toList) (g.line raw).gate
  | store {before : List String} {given : List Verdict} {g : Gate σ} (files : σ)
      (h : Fed g₀ before given g) : Fed g₀ before given { g with files }

namespace Fed

variable {g₀ g : Gate σ} {before : List String} {given : List Verdict}

theorem lines (h : Fed g₀ before given g) (raws : List String) :
    Fed g₀ (before ++ raws) (given ++ (g.answers raws).filterMap id) (g.lines raws).1 := by
  induction raws generalizing g before given with
  | nil => simpa [answers, Gate.lines] using h
  | cons raw rest ih =>
    have hrest := ih (h.line raw)
    rw [List.append_assoc, List.append_assoc] at hrest
    cases hv : (g.line raw).verdict <;> simpa [answers, Gate.lines, hv] using hrest

/-- **A gate keeps in step with every output**, whatever becomes of its store: what it goes by does
not look at the store. -/
theorem follows {files : σ} {settings : Settings} (hfed : Fed g₀ before given g)
    (h : (Gate.start files settings).2 = .ok g₀) :
    Follows settings (before.map Text.normalize) (given.getLast?.getD .pass) g := by
  induction hfed with
  | start =>
    obtain ⟨lists, coverage, hg⟩ := frame_start h
    have hcol := collected_start h
    subst hg
    exact ⟨rfl, rfl, hcol, rfl⟩
  | @line before given g raw _ ih =>
    have hlast : (given ++ (g.line raw).verdict.toList).getLast?.getD .pass =
        (g.line raw).verdict.getD (given.getLast?.getD .pass) := by
      cases (g.line raw).verdict <;> simp
    rw [List.map_append, hlast]
    exact ih.line raw
  | store files _ ih =>
    exact ⟨ih.settings, ih.active, ⟨ih.collected.assembly, ih.collected.judged⟩, ih.lastVerdict⟩

end Fed

/-- **Every compilation of an output is judged by itself.** Behind any lines, and whatever has
become of the store between them, a line has a verdict if and only if it ends a compilation. Its
verdict, its messages, the store behind its writes and its lists are then those of the open lines
taken as one compilation under the lists and the store of that moment. Any other line tells nothing
and changes neither. Once the compiler watches, the end of the input repeats the last verdict, tells
nothing and changes neither. -/
theorem outcome_line_of_output {files : σ} {settings : Settings} {g₀ g : Gate σ}
    {before : List String} {given : List Verdict} (h : (start files settings).2 = .ok g₀)
    (hfed : Fed g₀ before given g) (raw : String) :
    let seen := before.map Text.normalize
    (∃ outcome,
      Outcome.ofLines g.files settings g.lists (WatchMode.openLines seen) = .ok outcome ∧
        (g.line raw).outcome? =
          if WatchMode.ends seen (Text.normalize raw) then some outcome else none) ∧
    (WatchMode.ends seen (Text.normalize raw) = false →
      messagesOf (g.line raw).events = [] ∧ (g.line raw).gate.files = g.files ∧
        (g.line raw).gate.lists = g.lists) ∧
    (WatchMode.started seen →
      g.finish.outcome = ⟨given.getLast?.getD .pass, [], g.files, g.lists⟩) := by
  have hfollows := hfed.follows h
  exact ⟨hfollows.outcome?_line raw, hfollows.quiet_line, hfollows.outcome_finish⟩

/-- a gate whose store takes every write from now on -/
def takingAll (g : Gate Memory) : Gate Memory := { g with files := { g.files with refused := [] } }

/-- the lines of a compilation up to its finished marker -/
def firstCompilation : List String := [WatchMode.startMarker, "lib/b.ts(1,1): error TS2322: m"]

/-- the lines of the next one, in which a file changes -/
def secondCompilation : List String :=
  ["src/a.ts(1,1): error TS1111: early", WatchMode.fileChangeMarker, "lib/b.ts(1,1): error TS2322: m"]

/-- The list of codes cannot be written at the end of the first compilation, which fails for that.
Then the store takes the write. The changed file drops an error, and the second compilation passes. -/
theorem outcome_line_of_output_retried_codes :
    ∃ g₀ g : Gate Memory,
      (start (Memory.ofLists ["TS2322", "TS7006"] ["src/*.ts"] ["c"]) ⟨"c", "f", false, true⟩).2 =
        .ok g₀ ∧
      Fed g₀ (firstCompilation ++ [WatchMode.finishedMarker] ++ secondCompilation) [.fail] g ∧
      g.lists.codes.entries = ["TS2322", "TS7006"] ∧ g.lists.files.entries = ["lib/b.ts"] ∧
      ∃ outcome,
        Outcome.ofLines g.files ⟨"c", "f", false, true⟩ g.lists ["lib/b.ts(1,1): error TS2322: m"] =
          .ok outcome ∧
        (g.line WatchMode.finishedMarker).outcome? = some outcome ∧ outcome.verdict = .pass ∧
        outcome.lists.codes.entries = ["TS2322"] := by
  have hrun : ((start (Memory.ofLists ["TS2322", "TS7006"] ["src/*.ts"] ["c"])
      ⟨"c", "f", false, true⟩).2.map fun g₀ =>
        let first := (g₀.lines firstCompilation).1.line WatchMode.finishedMarker
        let g := ((takingAll first.gate).lines secondCompilation).1
        ([(g₀.answers firstCompilation).filterMap id, first.verdict.toList,
            ((takingAll first.gate).answers secondCompilation).filterMap id],
          [g.lists.codes.entries, g.lists.files.entries],
          (g.line WatchMode.finishedMarker).outcome?.map fun o => (o.verdict, o.lists.codes.entries))) =
      .ok ([[], [.fail], []], [["TS2322", "TS7006"], ["lib/b.ts"]], some (.pass, ["TS2322"])) := by
    decide +kernel
  have hopen : WatchMode.openLines ((firstCompilation ++ [WatchMode.finishedMarker] ++
      secondCompilation).map Text.normalize) = ["lib/b.ts(1,1): error TS2322: m"] := by
    decide +kernel
  have hends : WatchMode.ends ((firstCompilation ++ [WatchMode.finishedMarker] ++
      secondCompilation).map Text.normalize) (Text.normalize WatchMode.finishedMarker) = true := by
    decide +kernel
  obtain ⟨g₀, hstart, heq⟩ := exists_of_map_eq_ok hrun
  simp only [Prod.mk.injEq, List.cons.injEq, and_true] at heq
  obtain ⟨⟨hquiet, hfail, hquiet'⟩, ⟨hcodes, hfiles⟩, hlast⟩ := heq
  have hfirst : Fed g₀ _ _ _ := (Fed.start.lines firstCompilation).line WatchMode.finishedMarker
  have hfed := Fed.lines (g := takingAll _) (hfirst.store _) secondCompilation
  rw [List.nil_append, List.nil_append, hquiet, hfail, hquiet'] at hfed
  obtain ⟨⟨outcome, hof, hline⟩, -, -⟩ := outcome_line_of_output hstart hfed WatchMode.finishedMarker
  rw [hopen] at hof
  rw [if_pos hends] at hline
  rw [hline] at hlast
  simp only [Option.map_some, Option.some.injEq, Prod.mk.injEq] at hlast
  exact ⟨g₀, _, hstart, hfed, hcodes, hfiles, outcome, hof, hline, hlast⟩

end Gate

end DiagnosticGate
