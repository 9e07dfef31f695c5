import DiagnosticGate.Proofs.Segments
import DiagnosticGate.Text.Line
import Mathlib.Data.List.TakeWhile
import Mathlib.Logic.Relation

/-!
Lines and the blanks around them.

No blank is part of a terminal sequence, so removing sequences and then blanks answers the same whether
a line is padded or not. With which line ends a text is laid out, with how many empty lines and with how
much padding, changes nothing of what its lines hold.
-/

namespace DiagnosticGate.Text

/-! ### Blanks are no part of a sequence -/

section

variable {c : Char} {cs pad : List Char}

theorem isBlank_eq_false (h : 0x21 ≤ c.toNat ∧ c.toNat ≤ 0x7e) : isBlank c = false := by
  simp only [isBlank, blankRanges, List.any_cons, List.any_nil, Bool.or_eq_false_iff,
    Bool.and_eq_false_imp, decide_eq_true_eq, decide_eq_false_iff_not, and_true]
  omega

theorem toNat_of_isFinal (h : isFinal c) : 0x30 ≤ c.toNat ∧ c.toNat ≤ 0x7a := by
  simp only [isFinal, Char.isDigit_iff_toNat, Bool.or_eq_true, Bool.and_eq_true, beq_iff_eq,
    decide_eq_true_eq, Char.le_def, UInt32.le_iff_toNat_le, ← Char.toNat_inj] at h
  simp only [Char.toNat_val, Char.reduceToNat] at h
  omega

/-- **A blank neither introduces a sequence nor goes on with one.** -/
theorem of_isBlank (h : isBlank c) : isIntroducer c = false ∧ isIntermediate c = false ∧
    c.isDigit = false ∧ (c == ';') = false ∧ isFinal c = false := by
  have hplain : ∀ {p : Bool}, (p = true → isBlank c = false) → p = false := by
    intro p hp
    rw [Bool.eq_false_iff]
    intro hpos
    rw [hp hpos] at h
    cases h
  have hfinal : isFinal c = false := by
    refine hplain fun hf => isBlank_eq_false ?_
    have := toNat_of_isFinal hf
    omega
  refine ⟨hplain fun hi => ?_, hplain fun hi => ?_, hplain fun hd => ?_, hplain fun hs => ?_, hfinal⟩
  · simp only [isIntroducer, Bool.or_eq_true, beq_iff_eq] at hi
    rcases hi with rfl | rfl <;> decide
  · simp only [isIntermediate, Bool.or_eq_true, beq_iff_eq] at hi
    rcases hi with ((((rfl | rfl) | rfl) | rfl) | rfl) | rfl <;> decide
  · simp [isFinal, hd] at hfinal
  · rw [beq_iff_eq.1 hs]
    decide

theorem strip_nil : strip [] = [] := by simp [strip]

theorem strip_cons_of_isBlank (h : isBlank c) (cs : List Char) : strip (c :: cs) = c :: strip cs := by
  simp [strip, (of_isBlank h).1]

theorem strip_blank_append (hpad : ∀ c ∈ pad, isBlank c) (cs : List Char) :
    strip (pad ++ cs) = pad ++ strip cs := by
  induction pad with
  | nil => rfl
  | cons p pad ih =>
    obtain ⟨hp, hpad⟩ := List.forall_mem_cons.1 hpad
    rw [List.cons_append, strip_cons_of_isBlank hp, ih hpad, List.cons_append]

theorem afterParameters_append_blank (hpad : ∀ c ∈ pad, isBlank c) (room : Nat) (back cs : List Char) :
    afterParameters room (back ++ pad) (cs ++ pad) = afterParameters room back cs ++ pad := by
  induction cs generalizing room back with
  | nil =>
    cases pad with
    | nil => rfl
    | cons p pad =>
      obtain ⟨-, -, hdigit, hsemi, hfinal⟩ := of_isBlank (hpad p List.mem_cons_self)
      simp [afterParameters, hdigit, hsemi, hfinal]
  | cons c cs ih =>
    simp only [List.cons_append, afterParameters]
    split
    · cases room with
      | zero => rfl
      | succ room => exact ih room cs
    · split
      · exact ih 4 back
      · split
        · rfl
        · rfl

theorem afterSequence?_append_blank (hpad : ∀ c ∈ pad, isBlank c) (cs : List Char) :
    afterSequence? (cs ++ pad) = (afterSequence? cs).map (· ++ pad) := by
  have hdrop : pad.dropWhile isIntermediate = pad := by
    cases pad with
    | nil => rfl
    | cons p pad =>
      obtain ⟨-, hmid, -⟩ := of_isBlank (hpad p List.mem_cons_self)
      simp [hmid]
  unfold afterSequence?
  rw [List.dropWhile_append, hdrop]
  cases cs.dropWhile isIntermediate with
  | nil =>
    -- a sequence that is not complete is not completed by a blank
    cases pad with
    | nil => rfl
    | cons p pad =>
      obtain ⟨-, -, hdigit, -, hfinal⟩ := of_isBlank (hpad p List.mem_cons_self)
      simp [hdigit, hfinal]
  | cons c rest =>
    simp only [List.isEmpty_cons, Bool.false_eq_true, if_false, List.cons_append]
    split
    · rw [afterParameters_append_blank hpad]
      rfl
    · split
      · rfl
      · rfl

/-- **Behind a text, padding stays as it is**, also behind a sequence that is not complete. -/
theorem strip_append_blank (hpad : ∀ c ∈ pad, isBlank c) (cs : List Char) :
    strip (cs ++ pad) = strip cs ++ pad := by
  fun_induction strip cs with
  | case1 =>
    have hfront := strip_blank_append hpad []
    rwa [strip_nil, List.append_nil] at hfront
  | case2 c cs hc rest hrest ih =>
    rw [List.cons_append, strip, if_pos hc]
    split
    · rename_i rest' hrest'
      rw [afterSequence?_append_blank hpad, hrest] at hrest'
      cases hrest'
      exact ih
    · rename_i hnone
      rw [afterSequence?_append_blank hpad, hrest] at hnone
      cases hnone
  | case3 c cs hc hnone ih =>
    rw [List.cons_append, strip, if_pos hc]
    split
    · rename_i rest hrest
      rw [afterSequence?_append_blank hpad, hnone] at hrest
      cases hrest
    · exact congrArg _ ih
  | case4 c cs hc ih =>
    rw [List.cons_append, strip, if_neg hc, ih]
    rfl

end

/-! ### Blanks around a line -/

section

variable {cs pad : List Char}

theorem trim_blank_append (hpad : ∀ c ∈ pad, isBlank c) (cs : List Char) :
    trim (pad ++ cs) = trim cs := by
  rw [trim, List.dropWhile_append_of_pos hpad, ← trim]

theorem trimEnd_append_blank (hpad : ∀ c ∈ pad, isBlank c) (cs : List Char) :
    trimEnd (cs ++ pad) = trimEnd cs := by
  rw [trimEnd, List.reverse_append,
    List.dropWhile_append_of_pos fun c hc => hpad c (List.mem_reverse.1 hc), ← trimEnd]

theorem trim_append_blank (hpad : ∀ c ∈ pad, isBlank c) (cs : List Char) :
    trim (cs ++ pad) = trim cs := by
  unfold trim
  rw [List.dropWhile_append]
  split
  · rename_i hblank
    rw [List.isEmpty_iff.1 hblank, List.dropWhile_eq_nil_iff.2 hpad]
  · exact trimEnd_append_blank hpad _

/-- **The normal form of a line does not depend on the blanks around it.** -/
theorem normalize_blank (hpad : ∀ c ∈ pad, isBlank c) (cs : List Char) :
    normalize (.ofList (pad ++ cs)) = normalize (.ofList cs) ∧
      normalize (.ofList (cs ++ pad)) = normalize (.ofList cs) := by
  simp only [normalize, String.toList_ofList]
  rw [strip_blank_append hpad, trim_blank_append hpad, strip_append_blank hpad,
    trim_append_blank hpad]
  exact ⟨rfl, rfl⟩

end

/-! ### What lines hold -/

/-- the lines in normal form that hold something -/
def contents (lines : List String) : List String :=
  (lines.map normalize).filter fun t => !t.isEmpty

theorem contents_append (lines more : List String) :
    contents (lines ++ more) = contents lines ++ contents more := by
  rw [contents, List.map_append, List.filter_append]
  rfl

/-- the lines of a text, without their line feeds -/
def linesOf (text : List Char) : List String := (text.splitOn '\n').map .ofList

/-- whether a character is a blank that ends no line -/
def isPadding (c : Char) : Bool := isBlank c && c != '\n'

/-- Behind such a text, a line starts. -/
def EndsLine (before : List Char) : Prop := before = [] ∨ ∃ w, before = w ++ ['\n']

/-- In front of such a text, a line ends. -/
def StartsBreak (after : List Char) : Prop := after = [] ∨ ∃ r, after = '\n' :: r

section

variable {before after text pad : List Char}

theorem linesOf_of_notMem (h : '\n' ∉ text) : linesOf text = [.ofList text] := by
  rw [linesOf, List.splitOn_eq_singleton h]
  rfl

theorem linesOf_append (before after : List Char) :
    linesOf (before ++ '\n' :: after) = linesOf before ++ linesOf after := by
  rw [linesOf, List.splitOn_append_cons_self, List.map_append]
  rfl

theorem contents_nil : contents (linesOf []) = [] := by decide +kernel

theorem contents_linesOf (before after : List Char) : contents (linesOf (before ++ '\n' :: after)) =
    contents (linesOf before) ++ contents (linesOf after) := by
  rw [linesOf_append, contents_append]

theorem contents_of_endsLine (h : EndsLine before) (after : List Char) :
    contents (linesOf (before ++ after)) = contents (linesOf before) ++ contents (linesOf after) := by
  rcases h with rfl | ⟨w, rfl⟩
  · rw [contents_nil]
    rfl
  · rw [List.append_assoc, List.singleton_append, contents_linesOf, contents_linesOf, contents_nil,
      List.append_nil]

theorem contents_of_startsBreak (before : List Char) (h : StartsBreak after) :
    contents (linesOf (before ++ after)) = contents (linesOf before) ++ contents (linesOf after) := by
  rcases h with rfl | ⟨r, rfl⟩
  · rw [contents_nil, List.append_nil, List.append_nil]
  · have hbreak := contents_linesOf [] r
    rw [List.nil_append, contents_nil, List.nil_append] at hbreak
    rw [contents_linesOf, hbreak]

theorem isBlank_of_isPadding (hpad : ∀ c ∈ pad, isPadding c) : ∀ c ∈ pad, isBlank c :=
  fun c hc => (Bool.and_eq_true_iff.1 (hpad c hc)).1

theorem notMem_of_isPadding (hpad : ∀ c ∈ pad, isPadding c) : '\n' ∉ pad := by
  intro hmem
  exact absurd (hpad _ hmem) (by decide)

theorem contents_line_pad (hpad : ∀ c ∈ pad, isPadding c) (h : '\n' ∉ text) :
    contents (linesOf (pad ++ text)) = contents (linesOf text) ∧
      contents (linesOf (text ++ pad)) = contents (linesOf text) := by
  obtain ⟨hfront, hback⟩ := normalize_blank (isBlank_of_isPadding hpad) text
  have hnone := notMem_of_isPadding hpad
  rw [linesOf_of_notMem h, linesOf_of_notMem (by simp [h, hnone]), linesOf_of_notMem (by simp [h, hnone])]
  simp only [contents, List.map_cons, hfront, hback, and_self]

theorem contents_pad (hpad : ∀ c ∈ pad, isPadding c) (text : List Char) :
    contents (linesOf (pad ++ text)) = contents (linesOf text) ∧
      contents (linesOf (text ++ pad)) = contents (linesOf text) := by
  induction text using parts_induction '\n' with
  | one s hs => exact contents_line_pad hpad hs
  | more s r hs ih =>
    obtain ⟨hfront, -⟩ := contents_line_pad hpad hs
    rw [← List.append_assoc, contents_linesOf, hfront, List.append_assoc, List.cons_append,
      contents_linesOf, contents_linesOf, ih.2]
    exact ⟨rfl, rfl⟩

end

/-! ### The layout of a text -/

/-- one change of the layout of a text -/
inductive Reframes : List Char → List Char → Prop
  /-- A line feed gets a carriage return in front. -/
  | lineEnd (before after : List Char) :
    Reframes (before ++ '\n' :: after) (before ++ '\r' :: '\n' :: after)
  /-- The last line gets a line end. -/
  | lastEnd (text : List Char) : Reframes text (text ++ ['\n'])
  /-- A line of blanks is put between two lines, in front of the first or behind the last. -/
  | blankLine {before blanks : List Char} (h : EndsLine before) (hb : ∀ c ∈ blanks, isPadding c)
    (after : List Char) : Reframes (before ++ after) (before ++ (blanks ++ '\n' :: after))
  /-- A line gets blanks in front. -/
  | padStart {before pad : List Char} (h : EndsLine before) (hpad : ∀ c ∈ pad, isPadding c)
    (after : List Char) : Reframes (before ++ after) (before ++ (pad ++ after))
  /-- A line gets blanks at its end. -/
  | padEnd {pad after : List Char} (before : List Char) (hpad : ∀ c ∈ pad, isPadding c)
    (h : StartsBreak after) : Reframes (before ++ after) (before ++ pad ++ after)

/-- **A change of layout leaves what the lines hold.** -/
theorem Reframes.contents_eq {text other : List Char} (h : Reframes text other) :
    contents (linesOf text) = contents (linesOf other) := by
  cases h with
  | lineEnd before after =>
    have hreturn := (contents_pad (List.forall_mem_singleton.2 (show isPadding '\r' by decide)) before).2
    rw [List.append_cons before '\r', contents_linesOf, contents_linesOf, hreturn]
  | lastEnd =>
    rw [contents_linesOf, contents_nil, List.append_nil]
  | @blankLine before blanks h hb after =>
    have hline := (contents_pad hb []).2
    rw [List.nil_append, contents_nil] at hline
    rw [contents_of_endsLine h, contents_of_endsLine h, contents_linesOf, hline, List.nil_append]
  | padStart h hpad after =>
    rw [contents_of_endsLine h, contents_of_endsLine h, (contents_pad hpad after).1]
  | padEnd before hpad h =>
    rw [contents_of_startsBreak _ h, contents_of_startsBreak _ h, (contents_pad hpad before).2]

/-- whether two texts differ in their layout only: changes of layout, or changes taken back, lead from
one to the other -/
def Reframed (text other : List Char) : Prop := Relation.EqvGen Reframes text other

theorem Reframed.contents_eq {text other : List Char} (h : Reframed text other) :
    contents (linesOf text) = contents (linesOf other) := by
  induction h with
  | rel _ _ h => exact h.contents_eq
  | refl _ => rfl
  | symm _ _ _ ih => exact ih.symm
  | trans _ _ _ _ _ ih₁ ih₂ => exact ih₁.trans ih₂

end DiagnosticGate.Text
