import DiagnosticGate.Proofs.Diagnostics
import DiagnosticGate.Proofs.Lines
import Mathlib.Data.List.SplitBy

/-!
An assembly that is fed again and again.

A diagnostic is answered one header late, or when it is closed. However an assembly has been fed
before, from one end of an output to the next it answers the diagnostics of the lines in between, as
if they were read at once, and all but the last of them where the open one is dropped. Of the lines
from the first header on, none is lost and none is repeated.
-/

namespace DiagnosticGate

namespace Assembly

variable {a : Assembly} {lines : List String}

/-! ### The diagnostic that is still open -/

theorem isSome_push (h : a.pending.isSome) (line : String) : (a.push line).1.pending.isSome := by
  rcases a.push_cases line with ⟨-, hp⟩ | ⟨-, d, -, hp⟩ | ⟨-, -, hp⟩ <;> rw [hp]
  · exact h
  · rfl
  · rw [Option.isSome_map]
    exact h

theorem isSome_pushAll (h : a.pending.isSome) (lines : List String) :
    (a.pushAll lines).1.pending.isSome := by
  induction lines generalizing a with
  | nil => exact h
  | cons line lines ih => exact ih (isSome_push h line)

/-- Where no diagnostic is open, none has been closed: what closes one opens the next. -/
theorem pushAll_of_pending_eq_none (h : (a.pushAll lines).1.pending = none) :
    (a.pushAll lines).2 = [] := by
  induction lines generalizing a with
  | nil => rfl
  | cons line lines ih =>
    have hrest : ((a.push line).1.pushAll lines).1.pending = none := h
    have hclosed : (a.push line).2 = none := by
      rcases a.push_cases line with ⟨-, hp⟩ | ⟨-, d, -, hp⟩ | ⟨-, -, hp⟩ <;> rw [hp]
      rw [hp] at hrest
      have hopen := isSome_pushAll (a := ⟨some d⟩) rfl lines
      rw [hrest] at hopen
      cases hopen
    simp only [pushAll, hclosed, ih hrest]
    rfl

theorem dropLast_ofLines (lines : List String) :
    (Diagnostic.ofLines lines).dropLast = (empty.pushAll lines).2 := by
  unfold Diagnostic.ofLines
  cases h : (empty.pushAll lines).1.pending with
  | none => simp [h, pushAll_of_pending_eq_none h]
  | some d => simp [h]

/-! ### Inputs one after the other -/

/-- what an assembly can be told -/
inductive Input
  | line (raw : String)
  /-- the output ends, and the open diagnostic is asked for -/
  | close
  /-- the output ends, and the open diagnostic is forgotten -/
  | drop

namespace Input

/-- whether an output ends -/
def ends : Input → Bool
  | line _ => false
  | close | drop => true

def closes : Input → Bool
  | close => true
  | line _ | drop => false

def line? : Input → Option String
  | line raw => some raw
  | close | drop => none

theorem not_closes {i : Input} (h : i.ends = false) : i.closes = false := by
  cases i with
  | line raw => rfl
  | close => cases h
  | drop => cases h

/-- **Inputs are lines, or lines up to an end and further inputs.** -/
theorem induction_on_ends {motive : List Input → Prop}
    (lines : ∀ ls : List String, motive (ls.map .line))
    (ended : ∀ (ls : List String) (i : Input) (rest : List Input), i.ends → motive rest →
      motive (ls.map .line ++ i :: rest)) (inputs : List Input) : motive inputs := by
  -- the lines that have been passed are put in front of what is still to be shown
  suffices h : ∀ ls : List String, motive (ls.map .line ++ inputs) from h []
  induction inputs with
  | nil =>
    intro ls
    rw [List.append_nil]
    exact lines ls
  | cons i rest ih =>
    intro ls
    cases i with
    | line raw =>
      have hnext := ih (ls ++ [raw])
      rw [List.map_append, List.append_assoc] at hnext
      exact hnext
    | close => exact ended ls .close rest rfl (ih [])
    | drop => exact ended ls .drop rest rfl (ih [])

end Input

/-- the assembly after an input, and the diagnostic that is answered -/
def reply (a : Assembly) : Input → Assembly × Option Diagnostic
  | .line raw => a.push raw
  | .close => a.close
  | .drop => (empty, none)

/-- an input and its answer -/
structure Exchange where
  input : Input
  answer : Option Diagnostic

/-- inputs one after the other with their answers -/
def history (a : Assembly) : List Input → List Exchange
  | [] => []
  | i :: rest => ⟨i, (a.reply i).2⟩ :: (a.reply i).1.history rest

/-- a history, cut behind every end of an output -/
def outputs (xs : List Exchange) : List (List Exchange) := xs.splitBy fun x _ => !x.input.ends

def linesOf (xs : List Exchange) : List String := xs.filterMap (·.input.line?)

def answersOf (xs : List Exchange) : List Diagnostic := xs.filterMap (·.answer)

/-- whether the last input asks for the open diagnostic -/
def isClosed (xs : List Exchange) : Bool := xs.getLast?.any (·.input.closes)

theorem inputs_history (a : Assembly) (inputs : List Input) :
    (a.history inputs).map (·.input) = inputs := by
  induction inputs generalizing a with
  | nil => rfl
  | cons i rest ih => rw [history, List.map_cons, ih]

theorem history_append_lines (a : Assembly) (lines : List String) (rest : List Input) :
    a.history (lines.map .line ++ rest) =
      a.history (lines.map .line) ++ (a.pushAll lines).1.history rest := by
  induction lines generalizing a with
  | nil => rfl
  | cons line lines ih => exact congrArg _ (ih (a.push line).1)

theorem answersOf_history_lines (a : Assembly) (lines : List String) :
    answersOf (a.history (lines.map .line)) = (a.pushAll lines).2 := by
  induction lines generalizing a with
  | nil => rfl
  | cons line lines ih =>
    have hrest := ih (a.push line).1
    simp only [answersOf, List.map_cons, history, reply, List.filterMap_cons, pushAll] at hrest ⊢
    rw [hrest]
    cases (a.push line).2 <;> rfl

theorem linesOf_history_lines (a : Assembly) (lines : List String) :
    linesOf (a.history (lines.map .line)) = lines := by
  induction lines generalizing a with
  | nil => rfl
  | cons line lines ih => exact congrArg (line :: ·) (ih (a.push line).1)

theorem ends_of_mem_history_lines {x : Exchange} (h : x ∈ a.history (lines.map .line)) :
    x.input.ends = false := by
  have hinput := List.mem_map_of_mem (f := (·.input)) h
  rw [inputs_history] at hinput
  obtain ⟨raw, -, hraw⟩ := List.mem_map.1 hinput
  rw [← hraw]
  rfl

theorem isChain_history_lines (a : Assembly) (lines : List String) :
    (a.history (lines.map .line)).IsChain fun x _ => !x.input.ends := by
  refine List.Pairwise.isChain (List.pairwise_of_forall_mem_list fun x hx _ _ => ?_)
  rw [ends_of_mem_history_lines hx]
  rfl

theorem eq_of_mem_outputs_lines {xs : List Exchange}
    (h : xs ∈ outputs (empty.history (lines.map .line))) : xs = empty.history (lines.map .line) := by
  by_cases hnil : empty.history (lines.map .line) = []
  · rw [hnil] at h
    cases h
  · rw [outputs, List.splitBy_of_isChain hnil (isChain_history_lines empty lines)] at h
    exact List.mem_singleton.1 h

theorem outputs_history_ended {i : Input} (hi : i.ends) (lines : List String) (rest : List Input) :
    outputs (empty.history (lines.map .line ++ i :: rest)) =
      (empty.history (lines.map .line) ++ [⟨i, ((empty.pushAll lines).1.reply i).2⟩]) ::
        outputs (empty.history rest) := by
  have hnext : ((empty.pushAll lines).1.reply i).1 = empty := by
    cases i with
    | line raw => cases hi
    | close => rfl
    | drop => rfl
  rw [history_append_lines, history, hnext, List.append_cons, outputs, List.splitBy_append]
  · rw [List.splitBy_of_isChain (List.append_ne_nil_of_right_ne_nil _ (List.cons_ne_nil _ _))]
    · rfl
    · refine List.isChain_append.2 ⟨isChain_history_lines _ _, List.isChain_singleton _, ?_⟩
      intro x hx _ _
      rw [ends_of_mem_history_lines (List.mem_of_getLast? hx)]
      rfl
  · intro x hx y _
    rw [List.getLast?_concat] at hx
    cases hx
    simp [hi]

/-! ### What is answered -/

/-- the diagnostics that are due for an output: all, if the open one is asked for at its end -/
def due (xs : List Exchange) : List Diagnostic :=
  if isClosed xs then Diagnostic.ofLines (linesOf xs) else (Diagnostic.ofLines (linesOf xs)).dropLast

theorem answersOf_lines (lines : List String) :
    answersOf (empty.history (lines.map .line)) = due (empty.history (lines.map .line)) := by
  have hopen : isClosed (empty.history (lines.map .line)) = false := by
    unfold isClosed
    cases hlast : (empty.history (lines.map .line)).getLast? with
    | none => rfl
    | some x => exact Input.not_closes (ends_of_mem_history_lines (List.mem_of_getLast? hlast))
  rw [due, hopen, linesOf_history_lines, answersOf_history_lines, ← dropLast_ofLines]
  rfl

theorem answersOf_ended {i : Input} (hi : i.ends) (lines : List String) :
    let xs := empty.history (lines.map .line) ++ [⟨i, ((empty.pushAll lines).1.reply i).2⟩]
    answersOf xs = due xs := by
  intro xs
  have hlines : linesOf xs = lines := by
    unfold xs linesOf
    rw [List.filterMap_append]
    have := linesOf_history_lines empty lines
    cases i <;> simp_all [linesOf, Input.ends, Input.line?]
  have hanswers : answersOf xs =
      (empty.pushAll lines).2 ++ ((empty.pushAll lines).1.reply i).2.toList := by
    unfold xs answersOf
    rw [List.filterMap_append, ← answersOf, answersOf_history_lines]
    congr 1
  have hclosed : isClosed xs = i.closes := by
    unfold xs isClosed
    rw [List.getLast?_concat]
    rfl
  rw [due, hclosed, hlines, hanswers]
  cases i with
  | line raw => cases hi
  | close => rfl
  | drop => simp [Input.closes, reply, dropLast_ofLines]

/-- **Each output is answered by itself**, whatever came before it. -/
theorem answersOf_outputs (inputs : List Input) :
    ∀ xs ∈ outputs (empty.history inputs), answersOf xs = due xs := by
  induction inputs using Input.induction_on_ends with
  | lines ls =>
    intro xs hxs
    rw [eq_of_mem_outputs_lines hxs]
    exact answersOf_lines ls
  | ended ls i rest hi ih =>
    rw [outputs_history_ended hi]
    exact List.forall_mem_cons.2 ⟨answersOf_ended hi ls, ih⟩

/-! ### The lines of diagnostics -/

/-- whether a text opens no diagnostic -/
def continues (t : String) : Bool := (Diagnostic.ofHeader? t).isNone

/-- Behind an open diagnostic all lines are kept, and otherwise those from the next header on. -/
theorem lines_pushAll (a : Assembly) (lines : List String) :
    ((a.pushAll lines).2 ++ (a.pushAll lines).1.pending.toList).flatMap (·.lines) =
      a.pending.toList.flatMap (·.lines) ++
        if a.pending.isSome then Text.contents lines else (Text.contents lines).dropWhile continues := by
  induction lines generalizing a with
  | nil => simp [pushAll, Text.contents]
  | cons line lines ih =>
    have hstep : ((a.pushAll (line :: lines)).2 ++
        (a.pushAll (line :: lines)).1.pending.toList).flatMap (·.lines) =
        (a.push line).2.toList.flatMap (·.lines) ++ (((a.push line).1.pushAll lines).2 ++
          ((a.push line).1.pushAll lines).1.pending.toList).flatMap (·.lines) := by
      simp [pushAll]
    rw [hstep, ih]
    rcases a.push_cases line with ⟨hempty, hp⟩ | ⟨hsome, d, hd, hp⟩ | ⟨hsome, hno, hp⟩ <;>
      rw [hp]
    · have hcontents : Text.contents (line :: lines) = Text.contents lines := by
        simp [Text.contents, hempty]
      rw [hcontents]
      rfl
    · -- a header closes the open diagnostic, and from it on all lines are kept
      have hcontents : Text.contents (line :: lines) = Text.normalize line :: Text.contents lines := by
        simp [Text.contents, hsome]
      rw [hcontents, List.dropWhile_cons_of_neg (by simp [continues, hd]), ite_self]
      simp [Diagnostic.lines_of_ofHeader? hd]
    · have hcontents : Text.contents (line :: lines) = Text.normalize line :: Text.contents lines := by
        simp [Text.contents, hsome]
      rw [hcontents, List.dropWhile_cons_of_pos (by simp [continues, hno])]
      cases a.pending <;> simp

/-- **No line is lost and none is repeated** from the first header on. -/
theorem lines_ofLines (lines : List String) :
    (Diagnostic.ofLines lines).flatMap (·.lines) = (Text.contents lines).dropWhile continues :=
  lines_pushAll empty lines

/-- The first line of a diagnostic is the header it was read from, and no other line is one. -/
def Headed (d : Diagnostic) : Prop :=
  ∃ header more, d.lines = header :: more ∧
    Diagnostic.ofHeader? header = some { d with lines := [header] } ∧
    ∀ t ∈ more, Diagnostic.ofHeader? t = none

theorem lasting_headed : Lasting Headed where
  header := by
    intro text d h
    have hlines := Diagnostic.lines_of_ofHeader? h
    refine ⟨text, [], hlines, ?_, List.forall_mem_nil _⟩
    rw [h, ← hlines]
  extend := by
    rintro d text hno ⟨header, more, hlines, hheader, hmore⟩
    refine ⟨header, more ++ [text], ?_, hheader, ?_⟩
    · rw [hlines, List.cons_append]
    · exact List.forall_mem_append.2 ⟨hmore, List.forall_mem_singleton.2 hno⟩

/-- **Nothing is lost and nothing is repeated.** However an assembly is fed and ended, from one end of
an output to the next it answers the diagnostics of the lines in between, all of them if the open one
is asked for and all but the last if not. The lines of all diagnostics of an output are, in order, its
lines in normal form from the first header on, without those that are empty. Each diagnostic starts
with its header, and no other line of it is one. -/
theorem answers_of_history (inputs : List Input) :
    (outputs (empty.history inputs)).flatten.map (·.input) = inputs ∧
    (∀ xs ∈ outputs (empty.history inputs), answersOf xs = due xs) ∧
    ∀ lines, (Diagnostic.ofLines lines).flatMap (·.lines) = (Text.contents lines).dropWhile continues ∧
      ∀ d ∈ Diagnostic.ofLines lines, Headed d := by
  refine ⟨?_, answersOf_outputs inputs, fun lines => ⟨lines_ofLines lines, ?_⟩⟩
  · rw [outputs, List.flatten_splitBy, inputs_history]
  · exact Diagnostic.forall_mem_ofLines lasting_headed lines

/-- an output that is dropped with a diagnostic open, one that is closed, and one that goes on -/
def droppedInputs : List Input :=
  [.line "noise", .line "a.ts(1,1): error TS1111: m", .line " ", .line "b.ts(2,2): error TS2222: m",
    .drop, .line "  more", .line "c.ts:3:3 - error TS3333: m", .line "  more ", .close,
    .line "  more", .line "d.ts(4,4): error TS4444: m"]

/-- Of the first output the last diagnostic is dropped, and the line behind it extends nothing. -/
theorem answers_of_history_dropped :
    (outputs (empty.history droppedInputs)).map answersOf =
        [[⟨"a.ts", "TS1111", ["a.ts(1,1): error TS1111: m"]⟩],
          [⟨"c.ts", "TS3333", ["c.ts:3:3 - error TS3333: m", "more"]⟩], []] ∧
      (Diagnostic.ofLines (droppedInputs.filterMap Input.line?)).flatMap (·.lines) =
        ["a.ts(1,1): error TS1111: m", "b.ts(2,2): error TS2222: m", "more",
          "c.ts:3:3 - error TS3333: m", "more", "more", "d.ts(4,4): error TS4444: m"] := by
  obtain ⟨-, hanswers, hlines⟩ := answers_of_history droppedInputs
  rw [List.map_congr_left hanswers, (hlines _).1]
  decide +kernel

end Assembly

end DiagnosticGate
