import DiagnosticGate.Proofs.Starting

/-!
Runs of a gate.

From outside a gate is given lines and ends of the input, in any order. Between two calls its store
may change which writes it takes, but not what is read from it. What one call can do is stated once;
what holds behind any number of calls follows by induction on the run.
-/

namespace DiagnosticGate

open Storage

/-- the reasons for which lists that had been written were not gone by -/
def refusalsOf (events : List Event) : List PatternError :=
  events.filterMap fun
    | .note (.keeping e) => some e
    | _ => none

theorem refusalsOf_append (xs ys : List Event) :
    refusalsOf (xs ++ ys) = refusalsOf xs ++ refusalsOf ys := List.filterMap_append

theorem refusalsOf_map_message (ms : List Message) : refusalsOf (ms.map .message) = [] := by
  induction ms with
  | nil => rfl
  | cons m ms ih => exact ih

namespace Gate

section

variable {σ : Type} [TextFiles σ]

/-- one call, with what it tells and the gate behind it -/
inductive Call : Gate σ → List Event → Gate σ → Prop
  | line (g : Gate σ) (raw : String) : Call g (g.line raw).events (g.line raw).gate
  | finish (g : Gate σ) : Call g g.finish.events g.finish.gate
  /-- the store may take other writes from now on -/
  | store (g : Gate σ) (files : σ)
    (h : ∀ path, TextFiles.read files path = TextFiles.read g.files path) :
    Call g [] { g with files }

/-- calls one after the other, with all that they tell -/
inductive Run (g₀ : Gate σ) : List Event → Gate σ → Prop
  | start : Run g₀ [] g₀
  | step {events more : List Event} {g next : Gate σ} :
    Run g₀ events g → Call g more next → Run g₀ (events ++ more) next

variable {g₀ g next : Gate σ} {events more : List Event}

theorem Run.lines (h : Run g₀ events g) (raws : List String) :
    Run g₀ (events ++ (g.lines raws).2) (g.lines raws).1 := by
  induction raws using List.reverseRecOn with
  | nil =>
    rw [Gate.lines, List.append_nil]
    exact h
  | append_singleton raws raw ih =>
    rw [lines_concat, ← List.append_assoc]
    exact ih.step (.line _ raw)

theorem Run.check (h : Run g₀ events g) (raws : List String) :
    Run g₀ (events ++ (g.check raws).events) (g.check raws).gate := by
  rw [check_eq, ← List.append_assoc]
  exact (h.lines raws).step (.finish _)

/-- **All that a call can do**: a compilation ends, it is forgotten, a line is read, or nothing is
changed but the mode and the writes that the store takes. -/
theorem call_cases (h : Call g events next) :
    (next = g.endCompilation.gate ∧ events = g.endCompilation.events) ∨
    (next = g.clear ∧ messagesOf events = [] ∧ refusalsOf events = []) ∨
    (∃ text, next = (g.read text).1 ∧ events = (g.read text).2) ∨
    (∃ watch files, next = { g with watch, files } ∧
      (∀ path, TextFiles.read files path = TextFiles.read g.files path) ∧
      messagesOf events = [] ∧ refusalsOf events = []) := by
  cases h with
  | line raw =>
    rcases g.line_cases raw with ⟨-, hl⟩ | ⟨-, -, hl⟩ | ⟨-, -, -, hl⟩ | ⟨-, -, -, hl⟩ <;> rw [hl]
    · exact .inr (.inr (.inr ⟨_, _, rfl, fun _ => rfl, rfl, rfl⟩))
    · exact .inr (.inl ⟨rfl, rfl, rfl⟩)
    · exact .inl ⟨rfl, rfl⟩
    · exact .inr (.inr (.inl ⟨_, rfl, rfl⟩))
  | finish =>
    unfold finish
    cases g.watch.active with
    | false => exact .inl ⟨rfl, rfl⟩
    | true =>
      refine .inr (.inl ⟨rfl, ?_, ?_⟩)
      · simp only [if_true]
        split <;> rfl
      · simp only [if_true]
        split <;> rfl
  | store files hread => exact .inr (.inr (.inr ⟨_, files, rfl, hread, rfl, rfl⟩))

end

/-! ### What is told about diagnostics -/

section

variable {σ : Type} {g : Gate σ} {events : List Event}

/-- All findings have been told in the way in which they were judged. -/
def Noted (g : Gate σ) (events : List Event) : Prop :=
  ∀ x ∈ g.findings.toList, .note (.judged x.diagnostic x.kind) ∈ events

theorem Noted.append (h : g.Noted events) (more : List Event) : g.Noted (events ++ more) :=
  fun x hx => List.mem_append_left _ (h x hx)

theorem Noted.take (h : g.Noted events) (d : Diagnostic) :
    (g.take d).1.Noted (events ++ (g.take d).2) := by
  intro x hx
  unfold Gate.take at hx ⊢
  simp only [Findings.toList_push, List.mem_append, List.mem_singleton] at hx ⊢
  rcases hx with hx | rfl
  · exact .inl (h x hx)
  · exact .inr rfl

theorem Noted.read (h : g.Noted events) (text : String) :
    (g.read text).1.Noted (events ++ (g.read text).2) := by
  unfold Gate.read
  split
  · exact Noted.append h []
  · exact Noted.take (g := { g with assembly := (g.assembly.push text).1 }) h _

theorem Noted.closePending (h : g.Noted events) :
    g.closePending.1.Noted (events ++ g.closePending.2) := by
  unfold Gate.closePending Assembly.close
  cases g.assembly.pending with
  | none => exact Noted.append h []
  | some d => exact Noted.take (g := { g with assembly := .empty }) h d

theorem noted_of_empty (h : g.findings = .empty) (events : List Event) : g.Noted events := by
  intro x hx
  rw [h] at hx
  cases hx

theorem refusalsOf_take (g : Gate σ) (d : Diagnostic) : refusalsOf (g.take d).2 = [] := rfl

theorem refusalsOf_read (g : Gate σ) (text : String) : refusalsOf (g.read text).2 = [] := by
  unfold Gate.read
  split
  · rfl
  · exact refusalsOf_take _ _

theorem refusalsOf_closePending (g : Gate σ) : refusalsOf g.closePending.2 = [] := by
  unfold closePending Assembly.close
  cases g.assembly.pending with
  | none => rfl
  | some d => exact refusalsOf_take _ _

end

/-! ### What holds behind any number of calls -/

section

variable {σ : Type} [TextFiles σ] {g₀ g next : Gate σ} {events more : List Event}

/-- What every call keeps: the settings, the coverage up to hits, and that all findings have been
told. -/
structure Kept (settings : Settings) (events : List Event) (g : Gate σ) : Prop where
  settings : g.settings = settings
  ready : g.Ready
  noted : g.Noted events

theorem kept_start {files : σ} {settings : Settings} (h : (start files settings).2 = .ok g) :
    Kept settings [] g := by
  have hcol := collected_start h
  obtain ⟨lists, coverage, rfl⟩ := frame_start h
  exact ⟨rfl, hcol.ready, noted_of_empty rfl []⟩

theorem Kept.call {settings : Settings} (h : Kept settings events g) (hcall : Call g more next) :
    Kept settings (events ++ more) next := by
  rcases call_cases hcall with ⟨rfl, -⟩ | ⟨rfl, -⟩ | ⟨text, rfl, rfl⟩ | ⟨watch, files, rfl, -⟩
  · obtain ⟨files, lists, coverage, hframe⟩ := g.endCompilation_frame
    have hcol := h.ready.collected_endCompilation
    refine ⟨?_, hcol.ready, noted_of_empty ?_ _⟩
    · rw [hframe]
      exact h.settings
    · rw [hframe]
  · exact ⟨h.settings, h.ready.collected_clear.ready, noted_of_empty rfl _⟩
  · obtain ⟨assembly, coverage, findings, hframe⟩ := g.read_frame text
    refine ⟨?_, h.ready.read text, h.noted.read text⟩
    rw [hframe]
    exact h.settings
  · exact ⟨h.settings, h.ready, h.noted.append more⟩

theorem Kept.run {settings : Settings} (h : Kept settings [] g₀) (hrun : Run g₀ events g) :
    Kept settings events g := by
  induction hrun with
  | start => exact h
  | step _ hcall ih => exact ih.call hcall

end

end Gate

end DiagnosticGate
