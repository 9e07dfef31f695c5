import DiagnosticGate.Proofs.Diagnostics
import DiagnosticGate.Proofs.Lines

/-!
Terminal sequences in a text, and what a second pass finds.

No introducer is part of a sequence, so every introducer of a text either begins a sequence, which is
removed, or is left. What stood on both sides of a removed sequence comes to stand together: a left
introducer may then begin a sequence. Exactly such texts are changed by a second pass.
-/

namespace DiagnosticGate

namespace Text

/-! ### Characters of a sequence -/

section

variable {c : Char} {cs rest : List Char}

theorem of_isIntroducer (h : isIntroducer c) : isIntermediate c = false ∧ c.isDigit = false ∧
    (c == ';') = false ∧ isFinal c = false := by
  simp only [isIntroducer, Bool.or_eq_true, beq_iff_eq] at h
  rcases h with rfl | rfl <;> decide

theorem isIntroducer_of_isDigit (h : c.isDigit) : isIntroducer c = false := by
  rw [Bool.eq_false_iff]
  intro hc
  rw [(of_isIntroducer hc).2.1] at h
  cases h

theorem isIntroducer_of_isFinal (h : isFinal c) : isIntroducer c = false := by
  rw [Bool.eq_false_iff]
  intro hc
  rw [(of_isIntroducer hc).2.2.2] at h
  cases h

theorem of_isIntermediate (h : isIntermediate c) : isIntroducer c = false ∧ isFinal c = false := by
  simp only [isIntermediate, Bool.or_eq_true, beq_iff_eq] at h
  rcases h with ((((rfl | rfl) | rfl) | rfl) | rfl) | rfl <;> decide

theorem isFinal_of_isDigit (h : c.isDigit) : isFinal c := by simp [isFinal, h]

/-! ### What follows a sequence -/

theorem afterSequence?_of_isIntermediate (h : isIntermediate c) (cs : List Char) :
    afterSequence? (c :: cs) = afterSequence? cs := by
  rw [afterSequence?, List.dropWhile_cons_of_pos h, ← afterSequence?]

theorem afterSequence?_of_isDigit (h : c.isDigit) (cs : List Char) :
    afterSequence? (c :: cs) = some (afterParameters 3 cs cs) := by
  have hmid : ¬ isIntermediate c := by
    intro hm
    have := (of_isIntermediate hm).2
    rw [isFinal_of_isDigit h] at this
    cases this
  rw [afterSequence?, List.dropWhile_cons_of_neg hmid]
  exact if_pos h

theorem isSome_afterSequence?_cons (h : isIntermediate c = false) :
    (afterSequence? (c :: cs)).isSome = isFinal c := by
  rw [afterSequence?, List.dropWhile_cons_of_neg (by simp [h])]
  cases hd : c.isDigit with
  | true => simp [hd, isFinal_of_isDigit hd]
  | false => cases hf : isFinal c <;> simp [hd, hf]

/-- What the parameters and the final character take away holds no introducer. -/
theorem exists_of_afterParameters {back taken : List Char} (room : Nat) (hback : back = taken ++ cs)
    (htaken : ∀ c ∈ taken, isIntroducer c = false) :
    ∃ gone, back = gone ++ afterParameters room back cs ∧ ∀ c ∈ gone, isIntroducer c = false := by
  induction cs generalizing room back taken with
  | nil => exact ⟨[], rfl, List.forall_mem_nil _⟩
  | cons c cs ih =>
    have hmore : isIntroducer c = false → ∀ d ∈ taken ++ [c], isIntroducer d = false :=
      fun hc => List.forall_mem_append.2 ⟨htaken, List.forall_mem_singleton.2 hc⟩
    have hnext : back = (taken ++ [c]) ++ cs := by rw [hback, List.append_cons]
    unfold afterParameters
    split
    · rename_i hdigit
      have hc := isIntroducer_of_isDigit hdigit
      cases room with
      | zero => exact ⟨taken ++ [c], hnext, hmore hc⟩
      | succ room =>
        obtain ⟨gone, hgone, hplain⟩ := ih room (List.nil_append cs).symm (List.forall_mem_nil _)
        refine ⟨taken ++ [c] ++ gone, ?_, List.forall_mem_append.2 ⟨hmore hc, hplain⟩⟩
        rw [List.append_assoc, ← hgone, ← hnext]
    · split
      · rename_i hsemi
        exact ih 4 hnext (hmore (by rw [beq_iff_eq.1 hsemi]; decide))
      · split
        · rename_i hfinal
          exact ⟨taken ++ [c], hnext, hmore (isIntroducer_of_isFinal hfinal)⟩
        · exact ⟨[], rfl, List.forall_mem_nil _⟩

/-- **A sequence holds no further introducer.** -/
theorem exists_of_afterSequence? (h : afterSequence? cs = some rest) :
    ∃ gone, cs = gone ++ rest ∧ ∀ c ∈ gone, isIntroducer c = false := by
  induction cs with
  | nil => cases h
  | cons c cs ih =>
    by_cases hmid : isIntermediate c
    · rw [afterSequence?_of_isIntermediate hmid] at h
      obtain ⟨gone, rfl, hplain⟩ := ih h
      exact ⟨c :: gone, rfl, List.forall_mem_cons.2 ⟨(of_isIntermediate hmid).1, hplain⟩⟩
    · rw [afterSequence?, List.dropWhile_cons_of_neg hmid] at h
      simp only at h
      split at h
      · rename_i hdigit
        cases h
        obtain ⟨gone, hgone, hplain⟩ :=
          exists_of_afterParameters 3 (List.nil_append cs).symm (List.forall_mem_nil _)
        refine ⟨c :: gone, ?_, List.forall_mem_cons.2 ⟨isIntroducer_of_isDigit hdigit, hplain⟩⟩
        rw [List.cons_append, ← hgone]
      · split at h
        · rename_i hfinal
          cases h
          exact ⟨[c], rfl, List.forall_mem_singleton.2 (isIntroducer_of_isFinal hfinal)⟩
        · cases h

/-! ### One pass -/

theorem strip_of_sequence (hc : isIntroducer c) (h : afterSequence? cs = some rest) :
    strip (c :: cs) = strip rest := by
  rw [strip, if_pos hc]
  split
  · rename_i next hnext
    rw [h] at hnext
    cases hnext
    rfl
  · rename_i hnone
    rw [h] at hnone
    cases hnone

theorem strip_of_incomplete (h : isIntroducer c → afterSequence? cs = none) :
    strip (c :: cs) = c :: strip cs := by
  rw [strip]
  split
  · rename_i hc
    split
    · rename_i rest hrest
      rw [h hc] at hrest
      cases hrest
    · rfl
  · rfl

/-- Induction over a text by what one pass does at its start. -/
theorem strip_induction {motive : List Char → Prop} (nil : motive [])
    (sequence : ∀ c cs rest, isIntroducer c → afterSequence? cs = some rest → motive rest →
      motive (c :: cs))
    (left : ∀ c cs, (isIntroducer c → afterSequence? cs = none) → motive cs → motive (c :: cs))
    (cs : List Char) : motive cs := by
  fun_induction strip cs with
  | case1 => exact nil
  | case2 c cs hc rest hrest ih => exact sequence c cs rest hc hrest ih
  | case3 c cs _ hnone ih => exact left c cs (fun _ => hnone) ih
  | case4 c cs hc ih => exact left c cs (fun h => absurd h hc) ih

theorem strip_sublist (cs : List Char) : (strip cs).Sublist cs := by
  induction cs using strip_induction with
  | nil => rw [strip_nil]
  | sequence c cs rest hc h ih =>
    obtain ⟨gone, rfl, -⟩ := exists_of_afterSequence? h
    rw [strip_of_sequence hc h]
    exact (ih.trans (List.sublist_append_right gone rest)).cons c
  | left c cs h ih =>
    rw [strip_of_incomplete h]
    exact ih.cons_cons c

end

/-! ### What a second pass finds -/

/-- whether intermediate characters and whole sequences lead to a final character -/
inductive Completed : List Char → Prop
  | final {c : Char} (h : isFinal c) (cs : List Char) : Completed (c :: cs)
  | intermediate {c : Char} {cs : List Char} (h : isIntermediate c) (rest : Completed cs) :
    Completed (c :: cs)
  | sequence {c : Char} {cs next : List Char} (hc : isIntroducer c)
    (h : afterSequence? cs = some next) (rest : Completed next) : Completed (c :: cs)

/-- whether an introducer that begins no sequence comes to begin one when sequences are removed -/
def Exposes (text : List Char) : Prop :=
  ∃ c cs, (c :: cs) <:+ text ∧ isIntroducer c ∧ afterSequence? cs = none ∧ Completed cs

section

variable {c : Char} {cs rest text : List Char}

theorem completed_sequence_iff (hc : isIntroducer c) (h : afterSequence? cs = some rest) :
    Completed (c :: cs) ↔ Completed rest := by
  obtain ⟨hmid, -, -, hfinal⟩ := of_isIntroducer hc
  refine ⟨fun hcompleted => ?_, .sequence hc h⟩
  cases hcompleted with
  | final hf => rw [hfinal] at hf; cases hf
  | intermediate hm => rw [hmid] at hm; cases hm
  | sequence _ hnext hrest =>
    rw [h] at hnext
    cases hnext
    exact hrest

theorem completed_intermediate_iff (h : isIntermediate c) : Completed (c :: cs) ↔ Completed cs := by
  obtain ⟨hc, hfinal⟩ := of_isIntermediate h
  refine ⟨fun hcompleted => ?_, .intermediate h⟩
  cases hcompleted with
  | final hf => rw [hfinal] at hf; cases hf
  | intermediate _ hrest => exact hrest
  | sequence hi => rw [hc] at hi; cases hi

theorem completed_cons_iff_isFinal (hmid : isIntermediate c = false)
    (h : isIntroducer c → afterSequence? cs = none) : Completed (c :: cs) ↔ isFinal c := by
  refine ⟨fun hcompleted => ?_, fun hfinal => .final hfinal cs⟩
  cases hcompleted with
  | final hf => exact hf
  | intermediate hm => rw [hmid] at hm; cases hm
  | sequence hi hnext => rw [h hi] at hnext; cases hnext

/-- **A sequence goes on in what is left of a text exactly if it is completed in the text.** -/
theorem isSome_afterSequence?_strip_iff (cs : List Char) :
    (afterSequence? (strip cs)).isSome ↔ Completed cs := by
  induction cs using strip_induction with
  | nil =>
    rw [strip_nil]
    exact iff_of_false (by decide) (fun h => nomatch h)
  | sequence c cs rest hc h ih => rw [strip_of_sequence hc h, ih, completed_sequence_iff hc h]
  | left c cs h ih =>
    rw [strip_of_incomplete h]
    by_cases hmid : isIntermediate c
    · rw [afterSequence?_of_isIntermediate hmid, ih, completed_intermediate_iff hmid]
    · rw [Bool.not_eq_true] at hmid
      rw [isSome_afterSequence?_cons hmid, completed_cons_iff_isFinal hmid h]

/-- **A pass leaves a text as it is exactly if no sequence stands in it.** -/
theorem strip_eq_self_iff : strip text = text ↔
    ∀ c cs, (c :: cs) <:+ text → isIntroducer c → afterSequence? cs = none := by
  induction text using strip_induction with
  | nil =>
    rw [strip_nil]
    refine iff_of_true rfl fun c cs h => ?_
    cases List.suffix_nil.1 h
  | sequence c cs rest hc h ih =>
    refine iff_of_false (fun heq => ?_) (fun hnone => ?_)
    · rw [strip_of_sequence hc h] at heq
      have hshort := (strip_sublist rest).length_le
      have hrest := length_afterSequence? h
      rw [heq, List.length_cons] at hshort
      omega
    · rw [hnone c cs (List.suffix_refl _) hc] at h
      cases h
  | left c cs h ih =>
    rw [strip_of_incomplete h, List.cons_inj_right, ih]
    constructor
    · intro hnone d ds hsuffix hd
      rcases List.suffix_cons_iff.1 hsuffix with heq | hsuffix
      · cases heq
        exact h hd
      · exact hnone d ds hsuffix hd
    · exact fun hnone d ds hsuffix => hnone d ds (hsuffix.trans (List.suffix_cons c cs))

theorem suffix_append_iff_of_plain {gone : List Char} (hplain : ∀ d ∈ gone, isIntroducer d = false)
    (hc : isIntroducer c) : (c :: cs) <:+ gone ++ rest ↔ (c :: cs) <:+ rest := by
  induction gone with
  | nil => rfl
  | cons d gone ih =>
    obtain ⟨hd, hgone⟩ := List.forall_mem_cons.1 hplain
    rw [List.cons_append, List.suffix_cons_iff, ih hgone, or_iff_right]
    intro heq
    cases heq
    rw [hd] at hc
    cases hc

/-- **The introducers that a pass leaves** are those that begin no sequence, and what follows them is
what is left of the text behind them. -/
theorem suffix_strip_iff (hc : isIntroducer c) : (c :: rest) <:+ strip text ↔
    ∃ cs, (c :: cs) <:+ text ∧ afterSequence? cs = none ∧ rest = strip cs := by
  induction text using strip_induction with
  | nil =>
    rw [strip_nil]
    simp
  | sequence d ds next hd h ih =>
    rw [strip_of_sequence hd h, ih]
    obtain ⟨gone, rfl, hplain⟩ := exists_of_afterSequence? h
    refine exists_congr fun cs => and_congr_left fun hleft => ?_
    rw [List.suffix_cons_iff, suffix_append_iff_of_plain hplain hc, or_iff_right]
    intro heq
    cases heq
    rw [h] at hleft
    cases hleft.1
  | left d ds h ih =>
    rw [strip_of_incomplete h, List.suffix_cons_iff, ih]
    constructor
    · rintro (heq | ⟨cs, hsuffix, hnone, hrest⟩)
      · cases heq
        exact ⟨ds, List.suffix_refl _, h hc, rfl⟩
      · exact ⟨cs, hsuffix.trans (List.suffix_cons d ds), hnone, hrest⟩
    · rintro ⟨cs, hsuffix, hnone, rfl⟩
      rcases List.suffix_cons_iff.1 hsuffix with heq | hsuffix
      · cases heq
        exact .inl rfl
      · exact .inr ⟨cs, hsuffix, hnone, rfl⟩

/-- **A second pass changes a text exactly if the first exposes a sequence.** -/
theorem strip_strip_iff : strip (strip text) = strip text ↔ ¬ Exposes text := by
  rw [strip_eq_self_iff]
  constructor
  · rintro hnone ⟨c, cs, hsuffix, hc, hincomplete, hcompleted⟩
    have hleft := (suffix_strip_iff hc).2 ⟨cs, hsuffix, hincomplete, rfl⟩
    have hsome := (isSome_afterSequence?_strip_iff cs).2 hcompleted
    rw [hnone c _ hleft hc] at hsome
    cases hsome
  · intro hexposes c rest hsuffix hc
    obtain ⟨cs, hcs, hincomplete, rfl⟩ := (suffix_strip_iff hc).1 hsuffix
    rw [← Option.not_isSome_iff_eq_none, isSome_afterSequence?_strip_iff]
    exact fun hcompleted => hexposes ⟨c, cs, hcs, hc, hincomplete, hcompleted⟩

end

/-! ### Normal forms -/

section

variable {cs : List Char}

theorem exists_of_trimEnd (cs : List Char) :
    ∃ pad, cs = trimEnd cs ++ pad ∧ ∀ c ∈ pad, isBlank c := by
  refine ⟨(cs.reverse.takeWhile isBlank).reverse, ?_, ?_⟩
  · rw [trimEnd, ← List.reverse_append, List.takeWhile_append_dropWhile, List.reverse_reverse]
  · intro c hc
    exact List.mem_takeWhile_imp (List.mem_reverse.1 hc)

theorem exists_of_trim (cs : List Char) : ∃ front back, cs = front ++ (trim cs ++ back) ∧
    strip cs = front ++ (strip (trim cs) ++ back) ∧
    (∀ c ∈ front, isBlank c) ∧ ∀ c ∈ back, isBlank c := by
  obtain ⟨back, hback, hblank⟩ := exists_of_trimEnd (cs.dropWhile isBlank)
  have hfront : ∀ c ∈ cs.takeWhile isBlank, isBlank c := fun c hc => List.mem_takeWhile_imp hc
  have hcs : cs = cs.takeWhile isBlank ++ (trim cs ++ back) := by
    rw [trim, ← hback, List.takeWhile_append_dropWhile]
  refine ⟨cs.takeWhile isBlank, back, hcs, ?_, hfront, hblank⟩
  rw [← strip_append_blank hblank, ← strip_blank_append hfront, ← hcs]

theorem trim_trim (cs : List Char) : trim (trim cs) = trim cs := by
  obtain ⟨front, back, hcs, -, hfront, hback⟩ := exists_of_trim cs
  have h := trim_blank_append hfront (trim cs ++ back)
  rw [trim_append_blank hback, ← hcs] at h
  exact h.symm

theorem trim_sublist (cs : List Char) : (trim cs).Sublist cs := by
  obtain ⟨front, back, hcs, -, -, -⟩ := exists_of_trim cs
  have h := (List.sublist_append_left (trim cs) back).trans (List.sublist_append_right front _)
  rwa [← hcs] at h

/-- **Trimming exposes nothing**: a pass finds in a trimmed text what it finds in the text. -/
theorem trim_strip_trim (cs : List Char) : trim (strip (trim cs)) = trim (strip cs) := by
  obtain ⟨front, back, -, hstrip, hfront, hback⟩ := exists_of_trim cs
  rw [hstrip, trim_blank_append hfront, trim_append_blank hback]

theorem strip_trim_eq_self_iff : strip (trim cs) = trim cs ↔ strip cs = cs := by
  obtain ⟨front, back, hcs, hstrip, -, -⟩ := exists_of_trim cs
  constructor
  · intro h
    rw [hstrip, h, ← hcs]
  · intro h
    rw [hstrip] at h
    exact List.append_cancel_right (List.append_cancel_left (h.trans hcs))

/-- What a pass removes is more than blanks at the ends. -/
theorem trim_strip_eq_trim_iff : trim (strip cs) = trim cs ↔ strip cs = cs := by
  rw [← strip_trim_eq_self_iff, ← trim_strip_trim]
  constructor
  · intro h
    have hsub := trim_sublist (strip (trim cs))
    rw [h] at hsub
    exact (strip_sublist (trim cs)).antisymm hsub
  · intro h
    rw [h, trim_trim]

theorem normalize_inj {raw other : String} :
    normalize raw = normalize other ↔ trim (strip raw.toList) = trim (strip other.toList) := by
  rw [← String.toList_inj, toList_normalize, toList_normalize]

/-- **A line in normal form stays as it is exactly if its first normal form has exposed nothing.** -/
theorem normalize_normalize_eq_iff {raw : String} :
    normalize (normalize raw) = normalize raw ↔ ¬ Exposes raw.toList := by
  rw [normalize_inj, toList_normalize, trim_strip_trim, trim_strip_eq_trim_iff, strip_strip_iff]

end

end Text

/-! ### Lines that are read twice -/

namespace Assembly

variable {raw other : String}

theorem push_congr (h : Text.normalize raw = Text.normalize other) (a : Assembly) :
    a.push raw = a.push other := by
  unfold push
  rw [h]

theorem normalize_eq_of_push (h : ∀ a : Assembly, a.push raw = a.push other) :
    Text.normalize raw = Text.normalize other := by
  have hlines : ∀ line : String, ((⟨some ⟨"", "", []⟩⟩ : Assembly).push line).1.pending.map (·.lines) =
      some (if (Text.normalize line).isEmpty then [] else [Text.normalize line]) := by
    intro line
    rcases push_cases ⟨some ⟨"", "", []⟩⟩ line with ⟨hempty, hp⟩ | ⟨hsome, d, hd, hp⟩ | ⟨hsome, -, hp⟩ <;>
      rw [hp]
    · simp [hempty]
    · simp [hsome, Diagnostic.lines_of_ofHeader? hd]
    · simp [hsome]
  have hsame := hlines raw
  rw [h, hlines other, Option.some.injEq] at hsame
  split at hsame <;> split at hsame
  · rename_i hother hraw
    rw [String.isEmpty_iff.1 hother, String.isEmpty_iff.1 hraw]
  · cases hsame
  · cases hsame
  · exact (List.singleton_inj.1 hsame).symm

theorem pushAll_congr {lines others : List String}
    (h : lines.map Text.normalize = others.map Text.normalize) (a : Assembly) :
    a.pushAll lines = a.pushAll others := by
  induction lines generalizing others a with
  | nil =>
    rw [List.map_eq_nil_iff.1 h.symm]
  | cons line lines ih =>
    cases others with
    | nil => cases h
    | cons other others =>
      obtain ⟨hfirst, hrest⟩ := List.cons.inj h
      simp only [pushAll, push_congr hfirst, ih hrest]

end Assembly

theorem Diagnostic.ofLines_congr {lines others : List String}
    (h : lines.map Text.normalize = others.map Text.normalize) : ofLines lines = ofLines others := by
  rw [ofLines, ofLines, Assembly.pushAll_congr h]

namespace Text

/-- **A line is read twice as it is read once exactly if its first normal form exposes nothing.** For
exactly these lines it makes no difference to an assembly whether it is given the line or its normal
form; and an output of such lines has the diagnostics of its lines in normal form. -/
theorem second_pass_iff (raw : String) (lines : List String) :
    (normalize (normalize raw) = normalize raw ↔ ¬ Exposes raw.toList) ∧
    ((∀ a : Assembly, a.push (normalize raw) = a.push raw) ↔ ¬ Exposes raw.toList) ∧
    ((∀ line ∈ lines, ¬ Exposes line.toList) →
      Diagnostic.ofLines (lines.map normalize) = Diagnostic.ofLines lines) := by
  refine ⟨normalize_normalize_eq_iff, ?_, fun hlines => Diagnostic.ofLines_congr ?_⟩
  · rw [← normalize_normalize_eq_iff]
    exact ⟨Assembly.normalize_eq_of_push, Assembly.push_congr⟩
  · rw [List.map_map]
    exact List.map_congr_left fun line hline => normalize_normalize_eq_iff.2 (hlines line hline)

/-- an introducer in front of a whole sequence, which stands in front of the rest of another -/
def interruptedLine : String := "\x1b\x1b[31m[31mX"

theorem exposes_interruptedLine : Exposes interruptedLine.toList :=
  ⟨'\x1b', "\x1b[31m[31mX".toList, List.suffix_refl _, by decide, by decide,
    @Completed.sequence '\x1b' "[31m[31mX".toList "[31mX".toList (by decide) (by decide)
      (.intermediate (by decide) (.final (by decide) _))⟩

/-- The first pass exposes a sequence and the second removes it; where each introducer begins a sequence
of its own, one pass is enough. -/
theorem second_pass_iff_interrupted :
    Exposes interruptedLine.toList ∧ normalize interruptedLine = "\x1b[31mX" ∧
      normalize (normalize interruptedLine) ≠ normalize interruptedLine ∧
      Diagnostic.ofLines (["\x1b[96ma.ts\x1b[0m(1,1): error TS2322: m", "  \x1b[7mx"].map normalize) =
        Diagnostic.ofLines ["\x1b[96ma.ts\x1b[0m(1,1): error TS2322: m", "  \x1b[7mx"] := by
  obtain ⟨htwice, -, hlines⟩ := second_pass_iff interruptedLine
    ["\x1b[96ma.ts\x1b[0m(1,1): error TS2322: m", "  \x1b[7mx"]
  refine ⟨exposes_interruptedLine, by decide +kernel,
    fun h => htwice.1 h exposes_interruptedLine, hlines ?_⟩
  simp only [← normalize_normalize_eq_iff]
  decide +kernel

/-- **A normal form can have another normal form.** -/
theorem not_normalize_normalize_of_every_line :
    ¬ ∀ raw : String, normalize (normalize raw) = normalize raw := by
  intro h
  exact absurd (h interruptedLine) (by decide +kernel)

end Text

end DiagnosticGate
