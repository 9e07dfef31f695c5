import DiagnosticGate.Proofs.Run
import DiagnosticGate.Proofs.SingleShot

/-!
The lines that are open behind a run.

Lines are collected until a compilation ends or is dropped. What is open can be said call by call,
without looking at the gate, and it is what the gate has collected.
-/

namespace DiagnosticGate.Gate

open Storage

variable {σ : Type} [TextFiles σ] {g₀ g : Gate σ} {texts : List String} {events : List Event}

/-- Calls one after the other, with the lines of the compilation that is open behind them. A line is
held in normal form; one that is taken as a marker is none of them. The first start marker leaves
the compilation open, the other markers and the end of the input do not. -/
inductive Reading (g₀ : Gate σ) : List String → Gate σ → Prop
  | start : Reading g₀ [] g₀
  | text {texts : List String} {g : Gate σ} (raw : String) (h : Reading g₀ texts g)
      (hm : g.watch.heeds (Text.normalize raw) = false) :
      Reading g₀ (texts ++ [Text.normalize raw]) (g.line raw).gate
  | opening {texts : List String} {g : Gate σ} (raw : String) (h : Reading g₀ texts g)
      (hm : g.watch.starts (Text.normalize raw)) : Reading g₀ texts (g.line raw).gate
  | boundary {texts : List String} {g : Gate σ} (raw : String) (h : Reading g₀ texts g)
      (hm : g.watch.changes (Text.normalize raw) ∨ g.watch.finishes (Text.normalize raw)) :
      Reading g₀ [] (g.line raw).gate
  | finish {texts : List String} {g : Gate σ} (h : Reading g₀ texts g) : Reading g₀ [] g.finish.gate
  | store {texts : List String} {g : Gate σ} (files : σ) (h : Reading g₀ texts g)
      (hread : ∀ path, TextFiles.read files path = TextFiles.read g.files path) :
      Reading g₀ texts { g with files }

theorem Reading.exists_run (h : Reading g₀ texts g) : ∃ events, Run g₀ events g := by
  induction h with
  | start => exact ⟨[], .start⟩
  | text raw _ _ ih | opening raw _ _ ih | boundary raw _ _ ih =>
    obtain ⟨events, hrun⟩ := ih
    exact ⟨_, hrun.step (.line _ raw)⟩
  | finish _ ih =>
    obtain ⟨events, hrun⟩ := ih
    exact ⟨_, hrun.step (.finish _)⟩
  | store files _ hread ih =>
    obtain ⟨events, hrun⟩ := ih
    exact ⟨_, hrun.step (.store _ files hread)⟩

/-- **Whatever is called, some lines are open behind it.** -/
theorem Run.exists_reading (h : Run g₀ events g) : ∃ texts, Reading g₀ texts g := by
  induction h with
  | start => exact ⟨[], .start⟩
  | @step _ _ g _ _ hcall ih =>
    obtain ⟨texts, hr⟩ := ih
    cases hcall with
    | finish => exact ⟨[], hr.finish⟩
    | store files hread => exact ⟨texts, hr.store files hread⟩
    | line raw =>
      cases hm : g.watch.heeds (Text.normalize raw) with
      | false => exact ⟨_, hr.text raw hm⟩
      | true =>
        simp only [WatchMode.heeds, Bool.or_eq_true, or_assoc] at hm
        rcases hm with hs | hb
        · exact ⟨texts, hr.opening raw hs⟩
        · exact ⟨[], hr.boundary raw hb⟩

theorem Reading.lines {raws : List String} (h : Reading g₀ texts g)
    (hm : ∀ raw ∈ raws, g.watch.heeds (Text.normalize raw) = false) :
    Reading g₀ (texts ++ raws.map Text.normalize) (g.lines raws).1 := by
  induction raws generalizing g texts with
  | nil => simpa [Gate.lines] using h
  | cons raw rest ih =>
    obtain ⟨hfirst, hrest⟩ := unheeded_cons hm
    have hnext := h.text raw hfirst
    rw [line_of_unheeded hfirst] at hnext
    simpa [Gate.lines, line_of_unheeded hfirst] using ih hnext hrest

/-- **A gate has collected the lines of the compilation that is open.** -/
theorem Reading.collected (h : Reading g₀ texts g) (h₀ : g₀.Collected []) : g.Collected texts := by
  induction h with
  | start => exact h₀
  | text raw _ hm ih =>
    rw [line_of_unheeded hm]
    exact ih.read _
  | @opening _ g raw _ hm ih =>
    rcases g.line_cases raw with ⟨-, hl⟩ | ⟨hs, -⟩ | ⟨hs, -⟩ | ⟨hs, -⟩
    · rw [hl]
      exact ⟨ih.assembly, ih.judged⟩
    all_goals
      rw [hm] at hs
      cases hs
  | boundary raw _ hm ih =>
    rcases line_of_boundary hm with hg | hg <;> rw [hg]
    · exact ih.ready.collected_clear
    · exact ih.ready.collected_endCompilation
  | @finish _ g _ ih =>
    unfold Gate.finish
    cases g.watch.active with
    | false => exact ih.ready.collected_endCompilation
    | true => exact ih.ready.collected_clear
  | store files _ _ ih => exact ⟨ih.assembly, ih.judged⟩

end DiagnosticGate.Gate
