/-!
The outcome of a check.
-/

namespace DiagnosticGate

/-- Several outcomes together fail if one of them does. -/
inductive Verdict
  | pass
  | fail
  deriving Repr, DecidableEq, Inhabited

namespace Verdict

def fails : Verdict → Bool
  | pass => false
  | fail => true

/-- fails if one of the two fails -/
def or : Verdict → Verdict → Verdict
  | pass, v => v
  | fail, _ => fail

instance : OrOp Verdict := ⟨or⟩

theorem fails_or (v w : Verdict) : (v ||| w).fails = (v.fails || w.fails) := by
  cases v <;> cases w <;> rfl

theorem or_pass (v : Verdict) : v ||| .pass = v := by cases v <;> rfl

theorem or_eq_pass_iff {v w : Verdict} : v ||| w = .pass ↔ v = .pass ∧ w = .pass := by
  cases v <;> cases w <;> decide

theorem eq_fail_iff {v : Verdict} : v = .fail ↔ ¬ v = .pass := by cases v <;> decide

theorem eq_of_pass_iff {v w : Verdict} (h : v = .pass ↔ w = .pass) : v = w := by
  cases v <;> cases w <;> simp_all

def name : Verdict → String
  | pass => "Pass"
  | fail => "Fail"

end Verdict

end DiagnosticGate
