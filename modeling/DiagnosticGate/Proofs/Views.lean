import DiagnosticGate.Proofs.Findings
import Mathlib.Data.List.DropRight
import Mathlib.Data.List.FinRange

/-!
Two ways of looking at findings.

Findings can be filtered once for every view, or be split in one pass. Whatever was added and forgotten
before, both show the same of the findings that were added since. A diagnostic can be found twice, so
what belongs to a part is said by its position.
-/

namespace DiagnosticGate.Findings

/-! ### What is there -/

/-- what can be done to findings -/
inductive Call
  /-- one more is added -/
  | push (kind : Class) (d : Diagnostic)
  /-- all are to be forgotten -/
  | reset

namespace Call

/-- the finding that is added -/
def finding? : Call → Option Finding
  | push kind d => some ⟨kind, d⟩
  | reset => none

/-- the findings that were added since all were last forgotten -/
def sinceReset (calls : List Call) : List Finding :=
  (calls.rtakeWhile fun c => c.finding?.isSome).filterMap finding?

theorem sinceReset_push (calls : List Call) (k : Class) (d : Diagnostic) :
    sinceReset (calls ++ [push k d]) = sinceReset calls ++ [⟨k, d⟩] := by
  simp [sinceReset, finding?]

theorem sinceReset_reset (calls : List Call) : sinceReset (calls ++ [reset]) = [] := by
  simp [sinceReset, finding?]

end Call

open Call (sinceReset)

/-- the findings after a call -/
def next (f : Findings) : Call → Findings
  | .push kind d => f.push kind d
  | .reset => .empty

/-- the findings after calls one after the other, when there were none before -/
def after (calls : List Call) : Findings := calls.foldl next .empty

theorem toList_next {f : Findings} {calls : List Call} (h : f.toList = sinceReset calls) (c : Call) :
    (f.next c).toList = sinceReset (calls ++ [c]) := by
  cases c with
  | push k d => rw [next, toList_push, h, Call.sinceReset_push]
  | reset => rw [next, toList_empty, Call.sinceReset_reset]

/-- **What is there was added since all was last forgotten.** -/
theorem toList_after (calls : List Call) : (after calls).toList = sinceReset calls := by
  induction calls using List.reverseRecOn with
  | nil => rfl
  | append_singleton calls c ih =>
    rw [← toList_next ih, after, List.foldl_append]
    rfl

/-! ### Positions -/

/-- Two lists of positions split a third: both keep its order, and each of its positions is in exactly
one of them. -/
structure Splits {n : Nat} (whole left right : List (Fin n)) : Prop where
  left_sublist : left.Sublist whole
  right_sublist : right.Sublist whole
  exactly_one : ∀ i ∈ whole, Xor (i ∈ left) (i ∈ right)

section

variable (found : List Finding)

/-- the diagnostics at the positions -/
def diagnosticsAt (positions : List (Fin found.length)) : List Diagnostic :=
  positions.map fun i => found[i].diagnostic

/-- the positions of the findings whose class `keep` holds of -/
def positions (keep : Class → Bool) : List (Fin found.length) :=
  (List.finRange found.length).filter fun i => keep found[i].kind

variable {found} {keep whole left right : Class → Bool} {i : Fin found.length}

theorem mem_positions : i ∈ positions found keep ↔ keep found[i].kind := by
  simp [positions]

theorem positions_true : positions found (fun _ => true) = List.finRange found.length :=
  List.filter_true _

theorem diagnosticsAt_positions : diagnosticsAt found (positions found keep) =
    (found.filter fun x => keep x.kind).map (·.diagnostic) := by
  have hfound : (found.filter fun x => keep x.kind) =
      (positions found keep).map fun i => found[i] := by
    calc
      _ = ((List.finRange found.length).map fun i => found[i]).filter fun x => keep x.kind :=
        congrArg _ (List.map_getElem_finRange found).symm
      _ = _ := List.filter_map
  rw [hfound, List.map_map]
  rfl

theorem splits_positions (h : ∀ k, (left k → whole k) ∧ (right k → whole k) ∧
    (whole k → Xor (left k) (right k))) :
    Splits (positions found whole) (positions found left) (positions found right) where
  left_sublist := List.monotone_filter_right _ fun _ => (h _).1
  right_sublist := List.monotone_filter_right _ fun _ => (h _).2.1
  exactly_one := by
    intro i hi
    simp only [mem_positions] at hi ⊢
    exact (h _).2.2 hi

end

/-! ### Both ways -/

/-- **The two ways of looking at findings agree and lose nothing.** After any calls, all findings are
those that were added since the last reset, in their order. The parts of the split are the views. The
ignored ones and the others split the positions of all findings, and the promotable ones and the valid
ones split those of the others; a position is among the valid ones exactly if the code there is not
listed. -/
theorem split_after (calls : List Call) :
    (after calls).all = (sinceReset calls).map (·.diagnostic) ∧
    (after calls).split = ⟨(after calls).all, (after calls).ignored, (after calls).reported,
      (after calls).promotable, (after calls).valid⟩ ∧
    ∃ ignored reported promotable valid : List (Fin (sinceReset calls).length),
      Splits (List.finRange _) ignored reported ∧ Splits reported promotable valid ∧
      (after calls).ignored = diagnosticsAt _ ignored ∧
      (after calls).reported = diagnosticsAt _ reported ∧
      (after calls).promotable = diagnosticsAt _ promotable ∧
      (after calls).valid = diagnosticsAt _ valid ∧
      ∀ i, i ∈ valid ↔ (sinceReset calls)[i].kind.codeListed = false := by
  have hselect (keep : Class → Bool) : (after calls).select keep =
      diagnosticsAt _ (positions (sinceReset calls) keep) := by
    rw [diagnosticsAt_positions, select, toList_after]
  refine ⟨by rw [all, toList_after], split_eq _, positions _ (· == .ignored),
    positions _ (· != .ignored), positions _ (· == .promotable), positions _ (!·.codeListed), ?_, ?_,
    hselect _, hselect _, hselect _, hselect _, fun i => ?_⟩
  · rw [← positions_true]
    refine splits_positions fun k => ?_
    cases k <;> decide
  · refine splits_positions fun k => ?_
    cases k <;> decide
  · rw [mem_positions, Bool.not_eq_true']

end DiagnosticGate.Findings
