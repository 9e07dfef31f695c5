import DiagnosticGate.Proofs.Saving
import DiagnosticGate.Proofs.SingleShot

/-!
What a check makes of two outputs with the same pairs of path and code.

Diagnostics are asked for their path and their code alone, and what is counted or collected of them is
used as a set. So neither the order of an output, nor how often a pair is reported, nor the text of
the messages can change the verdict or a single byte that is saved.
-/

namespace DiagnosticGate

open Storage

theorem Judged.plan_of_samePairs {settings : Settings} {lists : AllowLists} {fresh : Coverage}
    {ds es : List Diagnostic} (h : Coverage.ofTexts lists.files.entries = .ok fresh)
    (hs : SamePairs ds es) :
    (ofList settings.init lists.codes fresh ds).plan settings lists =
      (ofList settings.init lists.codes fresh es).plan settings lists := by
  by_cases hds : ds = []
  · rw [plan_of_none (all_ofList.trans hds), plan_of_none (all_ofList.trans (hs.nil_iff.1 hds))]
  have hall : (ofList settings.init lists.codes fresh ds).findings.all ≠ [] := by
    rw [all_ofList]
    exact hds
  have hall' : (ofList settings.init lists.codes fresh es).findings.all ≠ [] := by
    rw [all_ofList]
    exact fun hnil => hds (hs.nil_iff.2 hnil)
  cases hi : settings.init with
  | true =>
    rw [hi] at hall hall'
    rw [plan_of_making hall hi, plan_of_making hall' hi, all_ofList, all_ofList,
      AllowLists.saves_congr settings hs.agrees_named]
  | false =>
    rw [hi] at hall hall'
    cases hu : settings.autoUpdate with
    | false => rw [plan_of_report hi hu, plan_of_report hi hu]
    | true =>
      have hrevised := (@revised_resolve_ofList lists fresh ds h).of_samePairs hs
      have hrevised' := @revised_resolve_ofList lists fresh es h
      rw [plan_of_update hall hi hu, plan_of_update hall' hi hu,
        AllowLists.writes_congr settings lists.agrees_refl (hrevised.agrees hrevised')]

namespace Gate

section

variable {σ : Type} {kind : TextFiles σ} {g : Gate σ} {xs : List String}

theorem saves_finish_of_unheeded (hc : g.Collected []) (hw : g.watch.active = false)
    (hl : ∀ raw ∈ xs, g.watch.heeds (Text.normalize raw) = false) :
    ∃ fresh, Coverage.ofTexts g.lists.files.entries = .ok fresh ∧
      (g.lines xs).1.saves .finish = attempts g.files
        ((Judged.ofList g.settings.init g.lists.codes fresh (g.lines xs).1.diagnostics).plan
          g.settings g.lists) := by
  obtain ⟨hcol, -, assembly, coverage, findings, hframe⟩ := lines_of_unheeded hc hl
  obtain ⟨fresh, hfresh, hj⟩ := hcol.judged_closePending
  rw [← hcol.diagnostics] at hj
  refine ⟨fresh, by rw [hframe] at hfresh; exact hfresh, ?_⟩
  have hends : (g.lines xs).1.completes .finish := by
    rw [hframe, completes, hw]
    rfl
  rw [saves, if_pos hends, hj, hframe]

theorem lines_alone (hl : ∀ raw ∈ xs, g.watch.heeds (Text.normalize raw) = false)
    (other : TextFiles σ) : @lines σ other g xs = @lines σ kind g xs := by
  induction xs generalizing g with
  | nil => rfl
  | cons raw rest ih =>
    obtain ⟨hfirst, hl⟩ := unheeded_cons hl
    simp only [lines, @line_of_unheeded σ other g raw hfirst, @line_of_unheeded σ kind g raw hfirst,
      ih hl]

/-- **A check outside of watch mode** asks for what the end of its input asks for. -/
theorem asks_check (hl : ∀ raw ∈ xs, g.watch.heeds (Text.normalize raw) = false) :
    Asks kind (fun other => @check σ other g xs) (g.lines xs).1.files ((g.lines xs).1.saves .finish)
      (g.check xs).gate.files := by
  have hlines := @lines_alone σ kind g xs hl
  have hcheck : ∀ other, @check σ other g xs =
      ⟨(@finish σ other (g.lines xs).1).gate, (g.lines xs).2 ++ (@finish σ other (g.lines xs).1).events,
        (@finish σ other (g.lines xs).1).verdict⟩ := by
    intro other
    rw [@check_eq σ other g xs, hlines]
  rw [funext hcheck]
  exact (asks_finish (g.lines xs).1).map fun c =>
    (⟨c.gate, (g.lines xs).2 ++ c.events, c.verdict⟩ : Completion σ)

theorem writesOf_lines (hl : ∀ raw ∈ xs, g.watch.heeds (Text.normalize raw) = false) :
    writesOf (g.lines xs).2 = [] := by
  induction xs generalizing g with
  | nil => rfl
  | cons raw rest ih =>
    obtain ⟨hfirst, hl⟩ := unheeded_cons hl
    simp only [lines, line_of_unheeded hfirst, writesOf_append, writesOf_read, ih hl,
      List.append_nil]

theorem writesOf_check (hl : ∀ raw ∈ xs, g.watch.heeds (Text.normalize raw) = false) :
    writesOf (g.check xs).events = ((g.lines xs).1.saves .finish).map (·.told) := by
  rw [check_eq, writesOf_append, writesOf_lines hl, List.nil_append]
  exact writesOf_finish (g.lines xs).1

/-- **A check depends on the pairs of path and code alone.** Whatever the settings, the lists and the
store are, and whatever the store refuses to write: two outputs without the start marker, from which
the same pairs are collected, come to the same verdict and the same store. Both checks ask the store
for the same writes in the same order, tell of each of them, and ask for nothing else. -/
theorem check_of_samePairs {files : σ} {settings : Settings} {ys : List String}
    (h : (start files settings).2 = .ok g)
    (hx : ∀ raw ∈ xs, WatchMode.holds WatchMode.startMarker (Text.normalize raw) = false)
    (hy : ∀ raw ∈ ys, WatchMode.holds WatchMode.startMarker (Text.normalize raw) = false)
    (hs : SamePairs (g.lines xs).1.diagnostics (g.lines ys).1.diagnostics) :
    (g.check xs).verdict = (g.check ys).verdict ∧
    (g.check xs).gate.files = (g.check ys).gate.files ∧
    ∃ saves, ∀ output ∈ [xs, ys],
      Asks kind (fun other => @check σ other g output) files saves (g.check output).gate.files ∧
      writesOf (g.check output).events = saves.map (·.told) := by
  have hidle := idle_start h
  have hcol := collected_start h
  have hfiles := files_start h
  have hinactive : g.watch.active = false := by rw [hidle]; rfl
  have hunheeded : ∀ output ∈ [xs, ys], ∀ raw ∈ output,
      g.watch.heeds (Text.normalize raw) = false := by
    intro output houtput raw hraw
    rw [hidle, WatchMode.heeds_idle]
    simp only [List.mem_cons, List.not_mem_nil, or_false] at houtput
    rcases houtput with rfl | rfl
    · exact hx raw hraw
    · exact hy raw hraw
  have hlx := hunheeded xs (by simp)
  have hly := hunheeded ys (by simp)
  obtain ⟨hverdict, hleft⟩ : (g.check xs).verdict = (g.check ys).verdict ∧
      (g.check xs).gate.files = (g.check ys).gate.files := by
    have houtx := outcome_check_of_idle hidle hcol hx
    have houty := outcome_check_of_idle hidle hcol hy
    rw [(lines_of_unheeded hcol hlx).1.diagnostics, (lines_of_unheeded hcol hly).1.diagnostics] at hs
    exact Outcome.eq_of_samePairs houtx houty g.lists.agrees_refl hs
  have hsaves : (g.lines ys).1.saves .finish = (g.lines xs).1.saves .finish := by
    obtain ⟨fresh, hfresh, hsavesx⟩ := saves_finish_of_unheeded hcol hinactive hlx
    obtain ⟨fresh', hfresh', hsavesy⟩ := saves_finish_of_unheeded hcol hinactive hly
    rw [hfresh] at hfresh'
    cases hfresh'
    rw [hsavesx, hsavesy, Judged.plan_of_samePairs hfresh hs]
  refine ⟨hverdict, hleft, (g.lines xs).1.saves .finish, ?_⟩
  intro output houtput
  have hl := hunheeded output houtput
  have hsame : (g.lines output).1.saves .finish = (g.lines xs).1.saves .finish := by
    simp only [List.mem_cons, List.not_mem_nil, or_false] at houtput
    rcases houtput with rfl | rfl
    · rfl
    · exact hsaves
  obtain ⟨-, -, assembly, coverage, findings, hframe⟩ := lines_of_unheeded hcol hl
  have hstore : (g.lines output).1.files = files := (congrArg Gate.files hframe).trans hfiles
  have hasks := @asks_check σ kind g output hl
  rw [hstore, hsame] at hasks
  exact ⟨hasks, hsame ▸ writesOf_check hl⟩

end

/-- an output with a pair twice -/
def repeatedOutput : List String :=
  ["b.ts(3,4): error TS2322: n", "a.ts(1,2): error TS2322: m", "b.ts(9,9): error TS2322: n"]

/-- the same pairs in the other order and in the other form -/
def reorderedOutput : List String :=
  ["a.ts:7:1 - error TS2322: other", "b.ts(3,4): error TS2322: n"]

/-- Both outputs lead to the same two writes, of which the second is refused. -/
theorem check_of_samePairs_reordered :
    ∃ g : Gate Memory,
      (start (Memory.ofLists ["TS2322", "TS7006"] ["b.ts", "old.ts"] ["c"])
        ⟨"c", "f", false, true⟩).2 = .ok g ∧
      SamePairs (g.lines repeatedOutput).1.diagnostics (g.lines reorderedOutput).1.diagnostics ∧
      (g.check repeatedOutput).gate.files = (g.check reorderedOutput).gate.files ∧
      ∃ saves : List (Attempt Memory), saves.map (·.told) = [("f", none), ("c", some .readOnly)] ∧
        writesOf (g.check reorderedOutput).events = saves.map (·.told) := by
  have hrun : ((start (Memory.ofLists ["TS2322", "TS7006"] ["b.ts", "old.ts"] ["c"])
      ⟨"c", "f", false, true⟩).2.map fun g =>
        (decide (SamePairs (g.lines repeatedOutput).1.diagnostics
            (g.lines reorderedOutput).1.diagnostics), writesOf (g.check repeatedOutput).events)) =
      .ok (true, [("f", none), ("c", some .readOnly)]) := by decide +kernel
  have hplain : ∀ output ∈ [repeatedOutput, reorderedOutput], ∀ raw ∈ output,
      WatchMode.holds WatchMode.startMarker (Text.normalize raw) = false := by decide +kernel
  obtain ⟨g, hstart, heq⟩ := exists_of_map_eq_ok hrun
  obtain ⟨hsame, hwrites⟩ := Prod.mk.inj heq
  have hs := of_decide_eq_true hsame
  obtain ⟨-, hleft, saves, hsaves⟩ :=
    check_of_samePairs hstart (hplain _ (by simp)) (hplain _ (by simp)) hs
  obtain ⟨-, htold⟩ := hsaves repeatedOutput (by simp)
  obtain ⟨-, htold'⟩ := hsaves reorderedOutput (by simp)
  exact ⟨g, hstart, hs, hleft, saves, htold.symm.trans hwrites, htold'⟩

end Gate

end DiagnosticGate
