import DiagnosticGate.Findings
import DiagnosticGate.Proofs.AllowList
import DiagnosticGate.Proofs.Coverage
import Mathlib.Data.List.Induction

/-!
Judging the diagnostics of a compilation.

Splitting in one pass gives the five views. The class of a diagnostic depends on the lists alone,
not on the diagnostics before it, as judging them changes nothing but hits.
-/

namespace DiagnosticGate

namespace Findings

theorem select_cons (x : Finding) (xs : List Finding) (keep : Class → Bool) :
    select ⟨(x :: xs).toArray⟩ keep =
      (if keep x.kind then [x.diagnostic] else []) ++ select ⟨xs.toArray⟩ keep := by
  simp only [select, toList, List.filter_cons]
  split <;> simp

/-- **The parts of the split are the views.** -/
theorem split_eq (f : Findings) : f.split = ⟨f.all, f.ignored, f.reported, f.promotable, f.valid⟩ := by
  obtain ⟨⟨xs⟩⟩ := f
  induction xs with
  | nil => rfl
  | cons x xs ih =>
    have hstep : split ⟨(x :: xs).toArray⟩ = .cons x (split ⟨xs.toArray⟩) := rfl
    rw [hstep, ih]
    simp only [ignored, reported, promotable, valid, select_cons]
    obtain ⟨kind, d⟩ := x
    cases kind <;> rfl

theorem mem_select {f : Findings} {keep : Class → Bool} {d : Diagnostic} :
    d ∈ f.select keep ↔ ∃ k, ⟨k, d⟩ ∈ f.toList ∧ keep k := by
  simp only [select, List.mem_map, List.mem_filter]
  constructor
  · rintro ⟨⟨k, d⟩, h, rfl⟩
    exact ⟨k, h⟩
  · rintro ⟨k, h⟩
    exact ⟨⟨k, d⟩, h, rfl⟩

theorem mem_promotable {f : Findings} {d : Diagnostic} :
    d ∈ f.promotable ↔ ⟨.promotable, d⟩ ∈ f.toList := by
  rw [promotable, mem_select]
  constructor
  · rintro ⟨k, h, hk⟩
    obtain rfl : k = .promotable := by simpa using hk
    exact h
  · exact fun h => ⟨_, h, rfl⟩

end Findings

/-- the coverage and the findings while the diagnostics of a compilation are judged -/
structure Judged where
  coverage : Coverage
  findings : Findings

namespace Judged

/-- Judges one more diagnostic. Where the lists are to be made, it is valid and nothing is asked. -/
def push (making : Bool) (codes : AllowList) (j : Judged) (d : Diagnostic) : Judged :=
  if making then ⟨j.coverage, j.findings.push .valid d⟩
  else ⟨j.coverage.count d.file, j.findings.push (d.judge codes j.coverage) d⟩

/-- judges diagnostics in order, starting with a coverage without hits -/
def ofList (making : Bool) (codes : AllowList) (fresh : Coverage) (ds : List Diagnostic) : Judged :=
  ds.foldl (push making codes) ⟨fresh, .empty⟩

variable {making : Bool} {codes : AllowList} {fresh : Coverage} {ds : List Diagnostic}

theorem ofList_concat (d : Diagnostic) :
    ofList making codes fresh (ds ++ [d]) = (ofList making codes fresh ds).push making codes d := by
  simp [ofList]

theorem coverage_ofList :
    (ofList making codes fresh ds).coverage =
      if making then fresh else fresh.countAll (ds.map (·.file)) := by
  induction ds using List.reverseRecOn with
  | nil => simp [ofList, Coverage.countAll]
  | append_singleton ds d ih =>
    rw [ofList_concat, push]
    cases making with
    | true => exact ih
    | false =>
      simp only [Bool.false_eq_true, if_false] at ih ⊢
      rw [ih, List.map_append, Coverage.countAll_append]
      rfl

theorem findings_ofList :
    (ofList making codes fresh ds).findings.toList =
      ds.map fun d => ⟨if making then .valid else d.judge codes fresh, d⟩ := by
  induction ds using List.reverseRecOn with
  | nil => rfl
  | append_singleton ds d ih =>
    have hcover := @coverage_ofList making codes fresh ds
    rw [ofList_concat, push]
    cases making with
    | true => simp [ih]
    | false =>
      simp only [Bool.false_eq_true, if_false] at ih hcover ⊢
      rw [Findings.toList_push, ih, List.map_append, hcover]
      simp [Diagnostic.judge, Coverage.covers_countAll]

theorem all_ofList : (ofList making codes fresh ds).findings.all = ds := by
  rw [Findings.all, findings_ofList, List.map_map]
  exact List.map_id ds

theorem clear_coverage_ofList : (ofList making codes fresh ds).coverage.clear = fresh.clear := by
  rw [coverage_ofList]
  split
  · rfl
  · exact Coverage.clear_countAll fresh _

end Judged

end DiagnosticGate
