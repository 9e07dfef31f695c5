import DiagnosticGate.Proofs.Framing
import DiagnosticGate.Proofs.Saving
import DiagnosticGate.Proofs.Sequences

/-!
Output in colour.

A colour is a terminal sequence with any number of parameters and `m` at its end. Whatever follows it,
reading it stops behind that character. So a text with colours put in anywhere has the normal form of
the text, and a gate that is given its lines answers as if there were no colours.
-/

namespace DiagnosticGate

open Storage

namespace Text

/-! ### Colours -/

/-- groups of at most four digits with `;` between them -/
def IsParameters (cs : List Char) : Prop :=
  ∀ group ∈ cs.splitOn ';', group.length ≤ 4 ∧ ∀ c ∈ group, c.isDigit

instance (cs : List Char) : Decidable (IsParameters cs) :=
  decidable_of_iff ((cs.splitOn ';').all fun group => group.length ≤ 4 && group.all Char.isDigit)
    (by simp [IsParameters])

/-- whether `other` is `text` with colours put in, at any places and in any number -/
inductive Coloured : List Char → List Char → Prop
  | nil : Coloured [] []
  | char {text other : List Char} (c : Char) (rest : Coloured text other) :
    Coloured (c :: text) (c :: other)
  | colour {parameters text other : List Char} (h : IsParameters parameters)
    (rest : Coloured text other) : Coloured text ('\x1b' :: '[' :: (parameters ++ 'm' :: other))

/-- whether a line holds no introducer and another one is this line with colours put in -/
def Colours (raw other : String) : Prop :=
  (∀ c ∈ raw.toList, isIntroducer c = false) ∧ Coloured raw.toList other.toList

theorem Coloured.append {text other : List Char} (front : List Char) (h : Coloured text other) :
    Coloured (front ++ text) (front ++ other) := by
  induction front with
  | nil => exact h
  | cons c front ih => exact .char c ih

theorem Coloured.refl (text : List Char) : Coloured text text := by
  have h := Coloured.nil.append text
  rwa [List.append_nil] at h

section

variable {group more parameters text other : List Char}

theorem isParameters_of_notMem (h : ';' ∉ group) :
    IsParameters group ↔ group.length ≤ 4 ∧ ∀ c ∈ group, c.isDigit := by
  rw [IsParameters, List.splitOn_eq_singleton h]
  exact List.forall_mem_singleton

theorem isParameters_append (h : ';' ∉ group) : IsParameters (group ++ ';' :: more) ↔
    (group.length ≤ 4 ∧ ∀ c ∈ group, c.isDigit) ∧ IsParameters more := by
  rw [IsParameters, List.splitOn_append_cons_self, List.splitOn_eq_singleton h]
  exact List.forall_mem_cons

/-! ### Reading a colour -/

theorem exists_afterParameters_digits (hdigits : ∀ c ∈ group, c.isDigit) (room : Nat)
    (back cs : List Char) : ∃ last,
      afterParameters (room + group.length) back (group ++ cs) = afterParameters room last cs := by
  induction group generalizing back with
  | nil => exact ⟨back, rfl⟩
  | cons c group ih =>
    obtain ⟨hc, hgroup⟩ := List.forall_mem_cons.1 hdigits
    obtain ⟨last, hlast⟩ := ih hgroup (group ++ cs)
    refine ⟨last, ?_⟩
    rw [← hlast, List.length_cons, List.cons_append, ← Nat.add_assoc, afterParameters, if_pos hc]

/-- **Parameters are read to their end**: the mark behind a group ends them, and a semicolon starts the
next group. -/
theorem afterParameters_group {room : Nat} (hdigits : ∀ c ∈ group, c.isDigit)
    (hroom : group.length ≤ room) (back cs : List Char) :
    afterParameters room back (group ++ 'm' :: cs) = cs ∧
      ∃ last, afterParameters room back (group ++ ';' :: cs) = afterParameters 4 last cs := by
  obtain ⟨left, rfl⟩ := Nat.exists_eq_add_of_le' hroom
  obtain ⟨_, hmark⟩ := exists_afterParameters_digits hdigits left back ('m' :: cs)
  obtain ⟨last, hnext⟩ := exists_afterParameters_digits hdigits left back (';' :: cs)
  exact ⟨hmark.trans rfl, last, hnext.trans rfl⟩

theorem afterParameters_parameters (h : IsParameters parameters) (back cs : List Char) :
    afterParameters 4 back (parameters ++ 'm' :: cs) = cs := by
  induction parameters using parts_induction ';' generalizing back with
  | one group hgroup =>
    obtain ⟨hlength, hdigits⟩ := (isParameters_of_notMem hgroup).1 h
    exact (afterParameters_group hdigits hlength back cs).1
  | more group more hgroup ih =>
    obtain ⟨⟨hlength, hdigits⟩, hmore⟩ := (isParameters_append hgroup).1 h
    obtain ⟨last, hnext⟩ := (afterParameters_group hdigits hlength back (more ++ 'm' :: cs)).2
    rw [List.append_assoc, List.cons_append, hnext]
    exact ih hmore last

/-- **A colour ends at its mark**, whatever follows. -/
theorem afterSequence?_parameters (h : IsParameters parameters) (cs : List Char) :
    afterSequence? (parameters ++ 'm' :: cs) = some cs := by
  induction parameters using parts_induction ';' with
  | one group hgroup =>
    obtain ⟨hlength, hdigits⟩ := (isParameters_of_notMem hgroup).1 h
    cases group with
    | nil => rfl
    | cons c group =>
      obtain ⟨hc, hgroup⟩ := List.forall_mem_cons.1 hdigits
      rw [List.cons_append, afterSequence?_of_isDigit hc,
        (afterParameters_group hgroup (Nat.le_of_succ_le_succ hlength) _ cs).1]
  | more group more hgroup ih =>
    obtain ⟨⟨hlength, hdigits⟩, hmore⟩ := (isParameters_append hgroup).1 h
    cases group with
    | nil =>
      -- a semicolon in front of all digits is an intermediate character
      rw [List.nil_append, List.cons_append, afterSequence?_of_isIntermediate (by decide)]
      exact ih hmore
    | cons c group =>
      obtain ⟨hc, hgroup⟩ := List.forall_mem_cons.1 hdigits
      obtain ⟨last, hnext⟩ := (afterParameters_group hgroup (Nat.le_of_succ_le_succ hlength)
        (group ++ ';' :: (more ++ 'm' :: cs)) (more ++ 'm' :: cs)).2
      rw [List.append_assoc, List.cons_append, List.cons_append, afterSequence?_of_isDigit hc, hnext,
        afterParameters_parameters hmore]

/-! ### Coloured texts -/

/-- **What is left of a coloured text is the text.** -/
theorem strip_of_coloured (hplain : ∀ c ∈ text, isIntroducer c = false) (h : Coloured text other) :
    strip other = text := by
  induction h with
  | nil => exact strip_nil
  | char c _ ih =>
    obtain ⟨hc, htext⟩ := List.forall_mem_cons.1 hplain
    rw [strip_of_incomplete (fun hi => by rw [hc] at hi; cases hi), ih htext]
  | colour hparameters _ ih =>
    have hend := afterSequence?_parameters hparameters
    rw [strip_of_sequence (by decide) (afterSequence?_of_isIntermediate (by decide) _ |>.trans (hend _)),
      ih hplain]

/-- A coloured line has the normal form of the line, which is the line without the blanks around it. -/
theorem normalize_of_colours {raw other : String} (h : Colours raw other) :
    normalize other = .ofList (trim raw.toList) ∧ normalize raw = .ofList (trim raw.toList) := by
  rw [normalize, normalize, strip_of_coloured h.1 h.2, strip_of_coloured h.1 (.refl _)]
  exact ⟨rfl, rfl⟩

theorem map_normalize_of_colours {lines others : List String} (h : List.Forall₂ Colours lines others) :
    others.map normalize = lines.map (fun raw => .ofList (trim raw.toList)) ∧
      lines.map normalize = lines.map fun raw => .ofList (trim raw.toList) := by
  induction h with
  | nil => exact ⟨rfl, rfl⟩
  | cons hfirst _ ih =>
    obtain ⟨hother, hraw⟩ := normalize_of_colours hfirst
    simp only [List.map_cons, hother, hraw, ih, and_self]

end

end Text

namespace Gate

/-- whether an input is another one, whose line holds no introducer, with colours put in -/
inductive Input.Colours : Input → Input → Prop
  | line {raw other : String} (h : Text.Colours raw other) : Colours (.line raw) (.line other)
  | finish : Colours .finish .finish

section

variable {σ : Type} [TextFiles σ]

/-- the answers to inputs one after the other, each with the attempts to save lists -/
def exchanges (g : Gate σ) : List Input → List (Reply σ × List (Attempt σ))
  | [] => []
  | input :: rest => (g.reply input, g.saves input) :: (g.reply input).gate.exchanges rest

/-- **One input with colours** is answered like the input. -/
theorem reply_of_colours {input other : Input} (h : input.Colours other) (g : Gate σ) :
    g.reply other = g.reply input ∧ g.saves other = g.saves input := by
  cases h with
  | @line raw other h =>
    obtain ⟨hother, hraw⟩ := Text.normalize_of_colours h
    have hline := line_congr (hother.trans hraw.symm) g
    refine ⟨hline, ?_⟩
    rw [saves, saves, completes, completes, hline]
  | finish => exact ⟨rfl, rfl⟩

theorem exchanges_of_colours {inputs others : List Input}
    (h : List.Forall₂ Input.Colours inputs others) (g : Gate σ) :
    g.exchanges others = g.exchanges inputs := by
  induction h generalizing g with
  | nil => rfl
  | cons hfirst _ ih =>
    obtain ⟨hreply, hsaves⟩ := reply_of_colours hfirst g
    rw [exchanges, exchanges, hreply, hsaves, ih]

/-- **Colour does not matter.** A line that holds no introducer comes, with any colours put in, to
the line without the blanks around it. So an output in colour has the diagnostics of the plain
output, and it is checked alike; and whatever gate is given lines and ends of the input, in any
order, with the colours it answers, reports and saves what it does without them. -/
theorem unchanged_of_colours {lines others : List String} {inputs coloured : List Input}
    (hlines : List.Forall₂ Text.Colours lines others)
    (hinputs : List.Forall₂ Input.Colours inputs coloured) (g : Gate σ) :
    others.map Text.normalize = lines.map (fun raw => .ofList (Text.trim raw.toList)) ∧
    Diagnostic.ofLines others = Diagnostic.ofLines lines ∧
    g.check others = g.check lines ∧
    g.exchanges coloured = g.exchanges inputs := by
  obtain ⟨hothers, hraws⟩ := Text.map_normalize_of_colours hlines
  have hsame := hothers.trans hraws.symm
  refine ⟨hothers, Diagnostic.ofLines_congr hsame, ?_, exchanges_of_colours hinputs g⟩
  rw [check_eq, check_eq, (lines_congr hsame g).1]

end

/-- a diagnostic whose message starts like the rest of a colour -/
def plainLine : String := "a.ts(1,1): error TS2322: 31m"

/-- the same with colours side by side, without parameters, with empty groups and in front of the
message -/
def colouredLine : String := "\x1b[1;31m\x1b[ma.ts\x1b[;0m(1,1): error TS2322: \x1b[4;;m31m"

theorem colours_colouredLine : Text.Colours plainLine colouredLine := by
  have hchars : plainLine.toList = "a.ts".toList ++ ("(1,1): error TS2322: ".toList ++ "31m".toList) := by
    decide +kernel
  have hcoloured : colouredLine.toList = '\x1b' :: '[' :: ("1;31".toList ++ 'm' ::
      ('\x1b' :: '[' :: ("".toList ++ 'm' :: ("a.ts".toList ++
        '\x1b' :: '[' :: (";0".toList ++ 'm' :: ("(1,1): error TS2322: ".toList ++
          '\x1b' :: '[' :: ("4;;".toList ++ 'm' :: "31m".toList))))))) := by decide +kernel
  refine ⟨by simp [plainLine, Text.isIntroducer], ?_⟩
  rw [hchars, hcoloured]
  exact .colour (by decide +kernel) (.colour (by decide +kernel) (Text.Coloured.append _
    (.colour (by decide +kernel) (Text.Coloured.append _ (.colour (by decide +kernel) (.refl _))))))

/-- Each colour is left where its mark stands, and the message is kept. The file is saved in both
cases. -/
theorem unchanged_of_colours_adjoining :
    ∃ g : Gate Memory,
      (start (Memory.ofLists ["TS2322"] [] []) ⟨"c", "f", false, true⟩).2 = .ok g ∧
      Text.Colours plainLine colouredLine ∧ g.check [colouredLine] = g.check [plainLine] ∧
      g.exchanges [.line colouredLine, .finish] = g.exchanges [.line plainLine, .finish] ∧
      (g.check [colouredLine]).gate.files.written.map (·.1) = ["f"] := by
  have hrun : ((start (Memory.ofLists ["TS2322"] [] []) ⟨"c", "f", false, true⟩).2.map fun g =>
      (g.check [plainLine]).gate.files.written.map (·.1)) = .ok ["f"] := by decide +kernel
  obtain ⟨g, hstart, hwritten⟩ := exists_of_map_eq_ok hrun
  obtain ⟨-, -, hcheck, hexchanges⟩ := unchanged_of_colours (.cons colours_colouredLine .nil)
    (.cons (.line colours_colouredLine) (.cons .finish .nil)) g
  exact ⟨g, hstart, colours_colouredLine, hcheck, hexchanges, by rw [hcheck]; exact hwritten⟩

end Gate

end DiagnosticGate
