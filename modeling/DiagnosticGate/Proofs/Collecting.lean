import DiagnosticGate.Proofs.Compilation

/-!
What a gate has collected of an open compilation.

The open diagnostic is one line behind: it is judged only when the next header or the end of the
compilation closes it. `Collected` ties the assembly, the findings and the hits of a gate to the
lines read since it was last cleared, and so a compilation that ends has the outcome of these
lines.
-/

namespace DiagnosticGate.Gate

open Storage

variable {σ : Type}

/-! ### Reading ordinary lines -/

/-- reads a line in normal form that holds no marker -/
def read (g : Gate σ) (text : String) : Gate σ × List Event :=
  match (g.assembly.push text).2 with
  | none => ({ g with assembly := (g.assembly.push text).1 }, [])
  | some d => { g with assembly := (g.assembly.push text).1 }.take d

theorem read_frame (g : Gate σ) (text : String) :
    ∃ assembly coverage findings, (g.read text).1 = { g with assembly, coverage, findings } := by
  unfold read
  split
  · exact ⟨_, _, _, rfl⟩
  · rename_i d _
    obtain ⟨coverage, findings, h⟩ := take_frame { g with assembly := (g.assembly.push text).1 } d
    exact ⟨_, _, _, h⟩

theorem messagesOf_read (g : Gate σ) (text : String) : messagesOf (g.read text).2 = [] := by
  unfold read
  split
  · rfl
  · exact messagesOf_take _ _

theorem Ready.read {g : Gate σ} (h : g.Ready) (text : String) : (g.read text).1.Ready := by
  unfold Gate.read
  split
  · exact h
  · exact Ready.take (g := { g with assembly := (g.assembly.push text).1 }) h _

/-- **All that a line can do**, by the marker it holds. -/
theorem line_cases [TextFiles σ] (g : Gate σ) (raw : String) :
    (g.watch.starts (Text.normalize raw) ∧
      g.line raw = ⟨{ g with watch := g.watch.see (Text.normalize raw) },
        [.note .watchStarted, .note .watchDetected], none⟩) ∨
    (g.watch.starts (Text.normalize raw) = false ∧ g.watch.changes (Text.normalize raw) ∧
      g.line raw = ⟨g.clear, [.note (.fileChanged g.findings.size)], none⟩) ∨
    (g.watch.starts (Text.normalize raw) = false ∧ g.watch.changes (Text.normalize raw) = false ∧
      g.watch.finishes (Text.normalize raw) ∧
      g.line raw = ⟨g.endCompilation.gate, g.endCompilation.events, some g.endCompilation.verdict⟩) ∨
    (g.watch.starts (Text.normalize raw) = false ∧ g.watch.changes (Text.normalize raw) = false ∧
      g.watch.finishes (Text.normalize raw) = false ∧
      g.line raw = ⟨(g.read (Text.normalize raw)).1, (g.read (Text.normalize raw)).2, none⟩) := by
  unfold line
  by_cases hs : g.watch.starts (Text.normalize raw)
  · exact .inl ⟨hs, if_pos hs⟩
  simp only [Bool.not_eq_true] at hs
  by_cases hc : g.watch.changes (Text.normalize raw)
  · exact .inr (.inl ⟨hs, hc, by simp [hs, hc]⟩)
  simp only [Bool.not_eq_true] at hc
  by_cases hf : g.watch.finishes (Text.normalize raw)
  · exact .inr (.inr (.inl ⟨hs, hc, hf, by simp [hs, hc, hf]⟩))
  simp only [Bool.not_eq_true] at hf
  refine .inr (.inr (.inr ⟨hs, hc, hf, ?_⟩))
  simp only [hs, hc, hf, Bool.false_eq_true, if_false, read]
  cases hd : (g.assembly.push (Text.normalize raw)).2 <;> rfl

/-- A line that is taken as a finished marker or as a changed file ends or drops the compilation. -/
theorem line_of_boundary [TextFiles σ] {g : Gate σ} {raw : String}
    (h : g.watch.changes (Text.normalize raw) ∨ g.watch.finishes (Text.normalize raw)) :
    (g.line raw).gate = g.clear ∨ (g.line raw).gate = g.endCompilation.gate := by
  rcases g.line_cases raw with ⟨hs, -⟩ | ⟨-, -, hl⟩ | ⟨-, -, -, hl⟩ | ⟨-, hc, hf, -⟩
  · -- before the first start marker, no other marker is heeded
    simp only [WatchMode.starts, Bool.and_eq_true, Bool.not_eq_true'] at hs
    simp [WatchMode.changes, WatchMode.finishes, hs.1] at h
  · exact .inl (by rw [hl])
  · exact .inr (by rw [hl])
  · simp [hc, hf] at h

/-! ### The open compilation -/

/-- `g` has collected `lines`, which are in normal form, since it was last cleared. -/
structure Collected (g : Gate σ) (lines : List String) : Prop where
  assembly : g.assembly = (Assembly.empty.pushAll lines).1
  judged : ∃ fresh, Coverage.ofTexts g.lists.files.entries = .ok fresh ∧
    g.judged = .ofList g.settings.init g.lists.codes fresh (Assembly.empty.pushAll lines).2

namespace Collected

variable {g : Gate σ} {lines : List String}

theorem ready (h : g.Collected lines) : g.Ready := by
  obtain ⟨fresh, hfresh, hj⟩ := h.judged
  have hclear : g.coverage.clear = fresh := by
    have := @Judged.clear_coverage_ofList g.settings.init g.lists.codes fresh
      (Assembly.empty.pushAll lines).2
    rw [← hj] at this
    exact this.trans (Coverage.clear_of_sound (Coverage.sound_ofTexts hfresh))
  rw [Ready, hclear, hfresh]

/-- **One more line is collected.** The diagnostic that it closes is judged by the hits so far. -/
theorem read (h : g.Collected lines) (text : String) :
    (g.read text).1.Collected (lines ++ [text]) := by
  obtain ⟨fresh, hfresh, hj⟩ := h.judged
  have hpush : (Assembly.empty.pushAll (lines ++ [text])) =
      ((g.assembly.push text).1,
        (Assembly.empty.pushAll lines).2 ++ (g.assembly.push text).2.toList) := by
    rw [Assembly.pushAll_append, ← h.assembly]
    simp [Assembly.pushAll]
  unfold Gate.read
  cases hd : (g.assembly.push text).2 with
  | none =>
    refine ⟨by rw [hpush], fresh, hfresh, ?_⟩
    rw [hpush, hd, Option.toList_none, List.append_nil]
    exact hj
  | some d =>
    obtain ⟨coverage, findings, hframe⟩ := take_frame { g with assembly := (g.assembly.push text).1 } d
    have htake := judged_take { g with assembly := (g.assembly.push text).1 } d
    simp only
    rw [hframe] at htake ⊢
    refine ⟨by rw [hpush], fresh, hfresh, ?_⟩
    rw [hpush, hd, Option.toList_some, Judged.ofList_concat, ← hj, htake]
    rfl

theorem judged_closePending (h : g.Collected lines) :
    ∃ fresh, Coverage.ofTexts g.lists.files.entries = .ok fresh ∧
      g.closePending.1.judged =
        .ofList g.settings.init g.lists.codes fresh (Diagnostic.ofLines lines) := by
  obtain ⟨fresh, hfresh, hj⟩ := h.judged
  refine ⟨fresh, hfresh, ?_⟩
  have hds : Diagnostic.ofLines lines =
      (Assembly.empty.pushAll lines).2 ++ g.assembly.pending.toList := by
    rw [h.assembly]; rfl
  rw [hds]
  unfold closePending Assembly.close
  cases hp : g.assembly.pending with
  | none =>
    rw [Option.toList_none, List.append_nil]
    exact hj
  | some d =>
    rw [Option.toList_some, Judged.ofList_concat, ← hj]
    exact judged_take { g with assembly := .empty } d

end Collected

theorem closePending_frame (g : Gate σ) :
    ∃ assembly coverage findings, g.closePending.1 = { g with assembly, coverage, findings } := by
  unfold closePending Assembly.close
  cases g.assembly.pending with
  | none => exact ⟨_, _, _, rfl⟩
  | some d =>
    obtain ⟨coverage, findings, h⟩ := take_frame { g with assembly := .empty } d
    exact ⟨_, _, _, h⟩

theorem settings_closePending (g : Gate σ) : g.closePending.1.settings = g.settings := by
  obtain ⟨assembly, coverage, findings, hframe⟩ := g.closePending_frame
  rw [hframe]

theorem files_closePending (g : Gate σ) : g.closePending.1.files = g.files := by
  obtain ⟨assembly, coverage, findings, hframe⟩ := g.closePending_frame
  rw [hframe]

theorem lists_closePending (g : Gate σ) : g.closePending.1.lists = g.lists := by
  obtain ⟨assembly, coverage, findings, hframe⟩ := g.closePending_frame
  rw [hframe]

theorem messagesOf_closePending (g : Gate σ) : messagesOf g.closePending.2 = [] := by
  unfold closePending Assembly.close
  cases g.assembly.pending with
  | none => rfl
  | some d => exact messagesOf_take _ _

theorem Ready.closePending {g : Gate σ} (h : g.Ready) : g.closePending.1.Ready := by
  unfold Gate.closePending Assembly.close
  cases g.assembly.pending with
  | none => exact h
  | some d => exact Ready.take (g := { g with assembly := .empty }) h d

theorem Ready.collected_clear {g : Gate σ} (h : g.Ready) : g.clear.Collected [] :=
  ⟨rfl, g.coverage.clear, h, rfl⟩

theorem endCompilation_eq [TextFiles σ] (g : Gate σ) :
    g.endCompilation =
      ⟨{ g.closePending.1.conclude.gate.clear with lastVerdict := g.closePending.1.conclude.verdict },
        g.closePending.2 ++ g.closePending.1.conclude.events, g.closePending.1.conclude.verdict⟩ :=
  rfl

/-- **The end of a compilation has the outcome of the lines that were collected.** -/
theorem Collected.outcome_endCompilation [TextFiles σ] {g : Gate σ} {lines : List String}
    (h : g.Collected lines) :
    Outcome.ofLines g.files g.settings g.lists lines = .ok g.endCompilation.outcome := by
  obtain ⟨fresh, hfresh, hj⟩ := h.judged_closePending
  have hout : g.endCompilation.outcome = g.closePending.1.conclude.outcome := by
    rw [endCompilation_eq]
    unfold Completion.outcome clear
    simp only [messagesOf_append, messagesOf_closePending, List.nil_append]
  rw [Outcome.ofLines, hfresh, hout, outcome_conclude, hj, files_closePending,
    settings_closePending, lists_closePending]

theorem Ready.collected_endCompilation [TextFiles σ] {g : Gate σ} (h : g.Ready) :
    g.endCompilation.gate.Collected [] := by
  have hclear := h.closePending.conclude.collected_clear
  exact ⟨hclear.assembly, hclear.judged⟩

theorem endCompilation_frame [TextFiles σ] (g : Gate σ) :
    ∃ files lists coverage, g.endCompilation.gate =
      { g with files, lists, coverage, assembly := .empty, findings := .empty,
               lastVerdict := g.endCompilation.verdict } := by
  obtain ⟨assembly, coverage, findings, hclose⟩ := g.closePending_frame
  obtain ⟨files, coverage', lists, hconclude⟩ := g.closePending.1.conclude_frame
  rw [endCompilation_eq]
  refine ⟨files, lists, coverage'.clear, ?_⟩
  simp only [clear]
  rw [hconclude, hclose]

/-! ### Reading many lines -/

section

variable [TextFiles σ]

theorem lines_append (g : Gate σ) (xs ys : List String) :
    g.lines (xs ++ ys) =
      (((g.lines xs).1.lines ys).1, (g.lines xs).2 ++ ((g.lines xs).1.lines ys).2) := by
  induction xs generalizing g with
  | nil => rfl
  | cons x xs ih =>
    simp only [List.cons_append, lines, ih, List.append_assoc]

theorem lines_concat (g : Gate σ) (xs : List String) (raw : String) :
    g.lines (xs ++ [raw]) =
      (((g.lines xs).1.line raw).gate, (g.lines xs).2 ++ ((g.lines xs).1.line raw).events) := by
  rw [lines_append]
  simp [lines]

theorem check_eq (g : Gate σ) (xs : List String) :
    g.check xs =
      ⟨(g.lines xs).1.finish.gate, (g.lines xs).2 ++ (g.lines xs).1.finish.events,
        (g.lines xs).1.finish.verdict⟩ := rfl

theorem finish_of_idle {g : Gate σ} (h : g.watch.active = false) : g.finish = g.endCompilation := by
  unfold finish
  rw [h]
  rfl

/-- In watch mode the end of the input tells the last verdict and drops what is open. -/
theorem finish_of_active {g : Gate σ} (h : g.watch.active) :
    g.finish.gate = g.clear ∧ messagesOf g.finish.events = [] ∧ g.finish.verdict = g.lastVerdict := by
  unfold finish
  rw [h]
  refine ⟨rfl, ?_, rfl⟩
  simp only [if_true]
  split <;> rfl

end

end DiagnosticGate.Gate
