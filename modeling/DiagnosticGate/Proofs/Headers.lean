import DiagnosticGate.Proofs.Diagnostics
import Mathlib.Data.List.TakeWhile

/-!
Lines that are headers.

A header is a path, a position in one of two forms, the word `error`, a code, a colon and a message. A
line can often be split in this way at several places. What is read is the longest path with its code,
so a header is read as it was written exactly if its message is no header itself.
-/

namespace DiagnosticGate.Diagnostic

/-! ### The parts of a header -/

/-- at least one digit, and nothing else -/
def IsNumber (cs : List Char) : Prop := cs ≠ [] ∧ ∀ c ∈ cs, c.isDigit

/-- a position behind a path, with the mark at its end -/
inductive IsPosition : List Char → Prop
  /-- `(line,column):` -/
  | bracketed {line column : List Char} (hline : IsNumber line) (hcolumn : IsNumber column) :
    IsPosition ('(' :: (line ++ ',' :: (column ++ [')', ':'])))
  /-- `:line:column -` -/
  | colons {line column : List Char} (hline : IsNumber line) (hcolumn : IsNumber column) :
    IsPosition (':' :: (line ++ ':' :: (column ++ [' ', '-'])))

/-- what is written behind a path -/
def heading (position code message : List Char) : List Char :=
  position ++ (" error ".toList ++ (code ++ ':' :: message))

/-- whether a line can be split into the path `path`, a position, the code `code` and a message -/
def SplitsInto (line path code : List Char) : Prop :=
  ∃ position message, IsPosition position ∧ (codeDigits? code).isSome ∧ '\n' ∉ path ∧
    '\n' ∉ message ∧ line = path ++ heading position code message

section

variable {cs rest number position code message : List Char}

/-! ### Reading the parts -/

theorem afterDigits?_append (h : IsNumber number) (hrest : ∀ c ∈ rest.head?, c.isDigit = false) :
    afterDigits? (number ++ rest) = some rest := by
  have hdrop : rest.dropWhile Char.isDigit = rest := by
    cases rest with
    | nil => rfl
    | cons c rest => simp [hrest c rfl]
  have hne : (number ++ rest).takeWhile Char.isDigit ≠ [] := by
    rw [List.takeWhile_append_of_pos h.2]
    exact List.append_ne_nil_of_left_ne_nil h.1 _
  rw [afterDigits?, List.isEmpty_eq_false_iff.2 hne, List.dropWhile_append_of_pos h.2, hdrop]
  rfl

theorem exists_of_afterDigits? (h : afterDigits? cs = some rest) :
    ∃ number, IsNumber number ∧ cs = number ++ rest := by
  unfold afterDigits? at h
  split at h
  · cases h
  · rename_i hne
    cases h
    have hdigits : ∀ c ∈ cs.takeWhile Char.isDigit, c.isDigit := fun c hc => List.mem_takeWhile_imp hc
    exact ⟨cs.takeWhile Char.isDigit, ⟨by simpa using hne, hdigits⟩,
      List.takeWhile_append_dropWhile.symm⟩

/-- **A position is read in either form**, whatever follows it, and nothing else is. -/
theorem afterPosition?_eq_some_iff :
    afterPosition? cs = some rest ↔ ∃ position, IsPosition position ∧ cs = position ++ rest := by
  constructor
  · intro h
    unfold afterPosition? at h
    split at h
    · simp only [Option.bind_eq_bind, Option.bind_eq_some_iff, after?_eq_some_iff] at h
      obtain ⟨_, hl, _, rfl, _, hc, rfl⟩ := h
      obtain ⟨line, hline, rfl⟩ := exists_of_afterDigits? hl
      obtain ⟨column, hcolumn, rfl⟩ := exists_of_afterDigits? hc
      exact ⟨_, .bracketed hline hcolumn, by simp⟩
    · simp only [Option.bind_eq_bind, Option.bind_eq_some_iff, after?_eq_some_iff] at h
      obtain ⟨_, hl, _, rfl, _, hc, rfl⟩ := h
      obtain ⟨line, hline, rfl⟩ := exists_of_afterDigits? hl
      obtain ⟨column, hcolumn, rfl⟩ := exists_of_afterDigits? hc
      exact ⟨_, .colons hline hcolumn, by simp⟩
    · cases h
  · rintro ⟨position, hposition, rfl⟩
    cases hposition with
    | bracketed hline hcolumn =>
      simp only [List.cons_append, List.append_assoc, afterPosition?, Option.bind_eq_bind,
        Option.bind_eq_some_iff, after?_eq_some_iff]
      exact ⟨_, afterDigits?_append hline (by simp), _, rfl, _,
        afterDigits?_append hcolumn (by simp), rfl⟩
    | colons hline hcolumn =>
      simp only [List.cons_append, List.append_assoc, afterPosition?, Option.bind_eq_bind,
        Option.bind_eq_some_iff, after?_eq_some_iff]
      exact ⟨_, afterDigits?_append hline (by simp), _, rfl, _,
        afterDigits?_append hcolumn (by simp), rfl⟩

theorem leadingCode?_eq_some_iff : leadingCode? cs = some code ↔
    (codeDigits? code).isSome ∧ ∃ message, cs = code ++ ':' :: message := by
  constructor
  · intro h
    refine ⟨Option.isSome_iff_exists.2 (codeDigits?_of_leadingCode? h), ?_⟩
    unfold leadingCode? at h
    split at h
    · rename_i text
      simp only [Option.ite_none_right_eq_some, Bool.and_eq_true, decide_eq_true_eq] at h
      obtain ⟨⟨-, hcolon⟩, hcode⟩ := h
      cases hcode
      obtain ⟨message, hmessage⟩ := List.head?_eq_some_iff.1 hcolon
      refine ⟨message, ?_⟩
      rw [List.cons_append, List.cons_append, ← hmessage, List.takeWhile_append_dropWhile]
    · cases h
  · rintro ⟨hcode, message, rfl⟩
    obtain ⟨digits, hdigits⟩ := Option.isSome_iff_exists.1 hcode
    obtain ⟨rfl, hlength, hall⟩ := codeDigits?_eq_some_iff.1 hdigits
    have htake : (digits ++ ':' :: message).takeWhile Char.isDigit = digits := by
      rw [List.takeWhile_append_of_pos hall]
      simp
    have hdrop : (digits ++ ':' :: message).dropWhile Char.isDigit = ':' :: message := by
      rw [List.dropWhile_append_of_pos hall]
      simp
    simp [leadingCode?, htake, hdrop, hlength]

/-- **What stands behind a path is read exactly if it is written so.** -/
theorem codeBehindPath?_eq_some_iff : codeBehindPath? cs = some code ↔
    ∃ position message, IsPosition position ∧ (codeDigits? code).isSome ∧
      cs = heading position code message := by
  simp only [codeBehindPath?, Option.bind_eq_bind, Option.bind_eq_some_iff,
    afterPosition?_eq_some_iff, after?_eq_some_iff, leadingCode?_eq_some_iff, heading]
  constructor
  · rintro ⟨_, ⟨position, hposition, rfl⟩, _, rfl, hcode, message, rfl⟩
    exact ⟨position, message, hposition, hcode, rfl⟩
  · rintro ⟨position, message, hposition, hcode, rfl⟩
    exact ⟨_, ⟨position, hposition, rfl⟩, _, rfl, hcode, message, rfl⟩

end

/-! ### The longest path -/

/-- whether behind `path` the rest of a line goes on as a header with the code `code` -/
def Leads (line path code : List Char) : Prop :=
  ∃ rest, line = path ++ rest ∧ codeBehindPath? rest = some code

section

variable {c : Char} {cs path code : List Char}

theorem leads_cons : Leads (c :: cs) path code ↔
    (path = [] ∧ codeBehindPath? (c :: cs) = some code) ∨
      ∃ shorter, path = c :: shorter ∧ Leads cs shorter code := by
  unfold Leads
  cases path with
  | nil => simp
  | cons d path =>
    simp only [List.cons_append, List.cons.injEq, reduceCtorEq, false_and, false_or]
    constructor
    · rintro ⟨rest, ⟨rfl, rfl⟩, h⟩
      exact ⟨path, ⟨rfl, rfl⟩, rest, rfl, h⟩
    · rintro ⟨_, ⟨rfl, rfl⟩, rest, rfl, h⟩
      exact ⟨rest, ⟨rfl, rfl⟩, h⟩

theorem not_leads_nil : ¬ Leads [] path code := by
  rintro ⟨rest, h, hrest⟩
  rw [(List.append_eq_nil_iff.1 h.symm).2] at hrest
  cases hrest

theorem exists_splitHeader?_of_leads (h : Leads cs path code) :
    ∃ longest last, splitHeader? cs = some (longest, last) := by
  induction cs generalizing path with
  | nil => exact absurd h not_leads_nil
  | cons c cs ih =>
    rw [splitHeader?]
    rcases leads_cons.1 h with ⟨-, hcode⟩ | ⟨shorter, -, hshorter⟩
    · cases splitHeader? cs with
      | some split => exact ⟨_, _, rfl⟩
      | none => exact ⟨[], code, by rw [hcode]; rfl⟩
    · obtain ⟨longest, last, hrest⟩ := ih hshorter
      exact ⟨c :: longest, last, by rw [hrest]⟩

theorem leads_of_splitHeader? (h : splitHeader? cs = some (path, code)) :
    Leads cs path code ∧ ∀ other last, Leads cs other last → other.length ≤ path.length := by
  induction cs generalizing path with
  | nil => cases h
  | cons c cs ih =>
    rw [splitHeader?] at h
    cases hrest : splitHeader? cs with
    | some split =>
      rw [hrest] at h
      cases h
      obtain ⟨hleads, hlongest⟩ := ih hrest
      refine ⟨leads_cons.2 (.inr ⟨_, rfl, hleads⟩), fun other last hother => ?_⟩
      rcases leads_cons.1 hother with ⟨rfl, -⟩ | ⟨shorter, rfl, hshorter⟩
      · exact Nat.zero_le _
      · exact Nat.succ_le_succ (hlongest shorter last hshorter)
    | none =>
      rw [hrest] at h
      obtain ⟨_, hcode, heq⟩ := Option.map_eq_some_iff.1 h
      cases heq
      refine ⟨leads_cons.2 (.inl ⟨rfl, hcode⟩), fun other last hother => ?_⟩
      rcases leads_cons.1 hother with ⟨rfl, -⟩ | ⟨shorter, -, hshorter⟩
      · exact Nat.le_refl _
      · obtain ⟨_, _, hsome⟩ := exists_splitHeader?_of_leads hshorter
        rw [hrest] at hsome
        cases hsome

theorem Leads.eq {other last : List Char} (h : Leads cs path code) (hother : Leads cs other last)
    (hlength : path.length = other.length) : path = other ∧ code = last := by
  obtain ⟨rest, rfl, hrest⟩ := h
  obtain ⟨rest', hcs, hrest'⟩ := hother
  obtain ⟨rfl, rfl⟩ := List.append_inj hcs hlength
  exact ⟨rfl, Option.some.inj (hrest.symm.trans hrest')⟩

/-- **The longest path is read**, with the code behind it. -/
theorem splitHeader?_eq_some_iff : splitHeader? cs = some (path, code) ↔
    Leads cs path code ∧ ∀ other last, Leads cs other last → other.length ≤ path.length := by
  refine ⟨leads_of_splitHeader?, fun ⟨hleads, hlongest⟩ => ?_⟩
  obtain ⟨longest, last, hsplit⟩ := exists_splitHeader?_of_leads hleads
  obtain ⟨hread, hmost⟩ := leads_of_splitHeader? hsplit
  obtain ⟨rfl, rfl⟩ := hread.eq hleads (Nat.le_antisymm (hlongest _ _ hread) (hmost _ _ hleads))
  exact hsplit

end

/-! ### Lines -/

section

variable {position code line path : List Char}

theorem ne_of_isDigit {c : Char} (h : c.isDigit) : c ≠ '\n' ∧ c ≠ '(' ∧ c ≠ ':' := by
  refine ⟨?_, ?_, ?_⟩ <;> rintro rfl <;> cases h

theorem ne_of_codeDigits? (h : (codeDigits? code).isSome) {c : Char} (hc : c ∈ code) :
    c ≠ '\n' ∧ c ≠ '(' ∧ c ≠ ':' := by
  obtain ⟨digits, hdigits⟩ := Option.isSome_iff_exists.1 h
  obtain ⟨rfl, -, hall⟩ := codeDigits?_eq_some_iff.1 hdigits
  rcases List.mem_cons.1 hc with rfl | hc
  · decide
  · rcases List.mem_cons.1 hc with rfl | hc
    · decide
    · exact ne_of_isDigit (hall c hc)

theorem notMem_of_isPosition (h : IsPosition position) : '\n' ∉ position := by
  have hnumber : ∀ {number}, IsNumber number → '\n' ∉ number :=
    fun hn hc => (ne_of_isDigit (hn.2 _ hc)).1 rfl
  cases h with
  | bracketed hline hcolumn => simp [hnumber hline, hnumber hcolumn]
  | colons hline hcolumn => simp [hnumber hline, hnumber hcolumn]

theorem mem_heading_iff (hposition : IsPosition position) (hcode : (codeDigits? code).isSome)
    {message : List Char} : '\n' ∈ heading position code message ↔ '\n' ∈ message := by
  have hnone : '\n' ∉ code := fun hc => (ne_of_codeDigits? hcode hc).1 rfl
  simp [heading, notMem_of_isPosition hposition, hnone]

theorem splitsInto_iff : SplitsInto line path code ↔ '\n' ∉ line ∧ Leads line path code := by
  simp only [SplitsInto, Leads, codeBehindPath?_eq_some_iff]
  constructor
  · rintro ⟨position, message, hposition, hcode, hpath, hmessage, rfl⟩
    refine ⟨?_, _, rfl, position, message, hposition, hcode, rfl⟩
    rw [List.mem_append, mem_heading_iff hposition hcode]
    exact not_or.2 ⟨hpath, hmessage⟩
  · rintro ⟨hline, _, rfl, position, message, hposition, hcode, rfl⟩
    rw [List.mem_append, mem_heading_iff hposition hcode] at hline
    obtain ⟨hpath, hmessage⟩ := not_or.1 hline
    exact ⟨position, message, hposition, hcode, hpath, hmessage, rfl⟩

end

theorem ofHeader?_eq_some_iff {line : String} {d : Diagnostic} : ofHeader? line = some d ↔
    '\n' ∉ line.toList ∧ splitHeader? line.toList = some (d.file.toList, d.code.toList) ∧
      d.lines = [line] := by
  unfold ofHeader?
  by_cases hfeed : '\n' ∈ line.toList
  · simp [hfeed]
  · simp only [List.contains_eq_mem, hfeed, decide_false, Bool.false_eq_true, if_false,
      Option.map_eq_some_iff, not_false_eq_true, true_and]
    constructor
    · rintro ⟨⟨path, code⟩, hsplit, rfl⟩
      simpa only [String.toList_ofList, and_true] using hsplit
    · rintro ⟨hsplit, hlines⟩
      refine ⟨_, hsplit, ?_⟩
      simp only [String.ofList_toList, ← hlines]

theorem ofHeader?_ofList {cs : List Char} (h : '\n' ∉ cs) : ofHeader? (.ofList cs) =
    (splitHeader? cs).map fun split => ⟨.ofList split.1, .ofList split.2, [.ofList cs]⟩ := by
  simp [ofHeader?, h]

/-- **Exactly the lines that can be split into the parts of a header are read.** Of all splits the one
with the longest path is taken, with its code, and the line is kept as it is. -/
theorem ofHeader?_iff_longest (line : String) :
    ((ofHeader? line).isSome ↔ ∃ path code, SplitsInto line.toList path code) ∧
    ∀ d, ofHeader? line = some d ↔ SplitsInto line.toList d.file.toList d.code.toList ∧
      (∀ path code, SplitsInto line.toList path code → path.length ≤ d.file.toList.length) ∧
      d.lines = [line] := by
  simp only [splitsInto_iff]
  constructor
  · constructor
    · intro h
      obtain ⟨d, hd⟩ := Option.isSome_iff_exists.1 h
      obtain ⟨hfeed, hsplit, -⟩ := ofHeader?_eq_some_iff.1 hd
      exact ⟨_, _, hfeed, (leads_of_splitHeader? hsplit).1⟩
    · rintro ⟨path, code, hfeed, hleads⟩
      obtain ⟨longest, last, hsplit⟩ := exists_splitHeader?_of_leads hleads
      have hread : ofHeader? line = some ⟨.ofList longest, .ofList last, [line]⟩ := by
        rw [ofHeader?_eq_some_iff]
        simp only [String.toList_ofList]
        exact ⟨hfeed, hsplit, trivial⟩
      rw [hread]
      rfl
  · intro d
    rw [ofHeader?_eq_some_iff, splitHeader?_eq_some_iff]
    constructor
    · rintro ⟨hfeed, ⟨hleads, hlongest⟩, hlines⟩
      exact ⟨⟨hfeed, hleads⟩, fun path code h => hlongest path code h.2, hlines⟩
    · rintro ⟨⟨hfeed, hleads⟩, hlongest, hlines⟩
      exact ⟨hfeed, ⟨hleads, fun path code h => hlongest path code ⟨hfeed, h⟩⟩, hlines⟩

/-- Of two positions in a line the last one counts, also where their forms differ. -/
example : ofHeader? "a(1,1): error TS1111: b:2:2 - error TS2222: m" =
    some ⟨"a(1,1): error TS1111: b", "TS2222", ["a(1,1): error TS1111: b:2:2 - error TS2222: m"]⟩ := by
  decide +kernel

/-! ### Headers as they are written -/

/-- whether a header in front of which `front` stands can only start behind `front` -/
def Passed (front cs : List Char) : Prop :=
  splitHeader? (front ++ cs) = (splitHeader? cs).map fun (path, code) => (front ++ path, code)

section

variable {c : Char} {front more cs number : List Char}

theorem Passed.append (h : Passed front (more ++ cs)) (hmore : Passed more cs) :
    Passed (front ++ more) cs := by
  unfold Passed at h hmore ⊢
  rw [List.append_assoc, h, hmore, Option.map_map]
  simp [Function.comp_def]

theorem passed_nil : Passed [] cs := by simp [Passed]

theorem Passed.cons (h : Passed front cs) (hc : afterPosition? (c :: (front ++ cs)) = none) :
    Passed (c :: front) cs := by
  have hcode : codeBehindPath? (c :: (front ++ cs)) = none := by
    rw [codeBehindPath?, hc]
    rfl
  unfold Passed at h ⊢
  rw [List.cons_append, splitHeader?, h, hcode]
  cases splitHeader? cs <;> rfl

theorem passed_of_plain (h : ∀ c ∈ front, c ≠ '(' ∧ c ≠ ':') : Passed front cs := by
  induction front with
  | nil => exact passed_nil
  | cons c front ih =>
    obtain ⟨hc, hfront⟩ := List.forall_mem_cons.1 h
    refine (ih hfront).cons ?_
    simp [afterPosition?, hc]

theorem passed_colon_blank : Passed [':'] (' ' :: cs) := passed_nil.cons rfl

theorem passed_colon_number (h : IsNumber number) : Passed [':'] (number ++ ' ' :: cs) := by
  refine passed_nil.cons ?_
  simp only [List.nil_append, afterPosition?]
  rw [afterDigits?_append h (by simp)]
  rfl

end

section

variable {position code message : List Char}

/-- **Behind its first character, a heading with a blank behind its code starts no header.** -/
theorem exists_passed_heading (hposition : IsPosition position) (hcode : (codeDigits? code).isSome)
    (message : List Char) : ∃ c front, (∀ text, heading position code (' ' :: text) =
      c :: (front ++ text)) ∧ Passed front message := by
  have hplain : ∀ {number}, IsNumber number → ∀ c ∈ number, c ≠ '(' ∧ c ≠ ':' :=
    fun hn c hc => (ne_of_isDigit (hn.2 c hc)).2
  have hword : ∀ c ∈ " error ".toList ++ code, c ≠ '(' ∧ c ≠ ':' :=
    List.forall_mem_append.2 ⟨by simp, fun c hc => (ne_of_codeDigits? hcode hc).2⟩
  have hend : Passed ([':'] ++ [' ']) message := passed_colon_blank.append (passed_of_plain (by simp))
  have hrest : Passed ((" error ".toList ++ code) ++ ([':'] ++ [' '])) message :=
    (passed_of_plain hword).append hend
  cases hposition with
  | @bracketed line column hline hcolumn =>
    have hnumbers : ∀ c ∈ line ++ ([','] ++ (column ++ [')'])), c ≠ '(' ∧ c ≠ ':' := by
      simp only [List.forall_mem_append]
      exact ⟨hplain hline, by simp, hplain hcolumn, by simp⟩
    refine ⟨'(', line ++ ([','] ++ (column ++ [')'])) ++ ([':'] ++
      ((" error ".toList ++ code) ++ ([':'] ++ [' ']))), ?_, ?_⟩
    · intro text
      simp [heading]
    · exact (passed_of_plain hnumbers).append (passed_colon_blank.append hrest)
  | @colons line column hline hcolumn =>
    have hcolumn' : ∀ c ∈ column ++ [' ', '-'], c ≠ '(' ∧ c ≠ ':' :=
      List.forall_mem_append.2 ⟨hplain hcolumn, by simp⟩
    refine ⟨':', line ++ ([':'] ++ ((column ++ [' ', '-']) ++
      ((" error ".toList ++ code) ++ ([':'] ++ [' '])))), ?_, ?_⟩
    · intro text
      simp [heading]
    · have hcolon : Passed [':'] ((column ++ [' ', '-']) ++
          ((" error ".toList ++ code) ++ ([':'] ++ [' '])) ++ message) := by
        simp only [List.append_assoc, List.cons_append]
        exact passed_colon_number hcolumn
      exact (passed_of_plain (hplain hline)).append (hcolon.append
        ((passed_of_plain hcolumn').append hrest))

/-- **A heading is read at its start, unless its message is a header.** Then the path goes on up to the
position in the message. -/
theorem splitHeader?_heading (path : List Char) (hposition : IsPosition position)
    (hcode : (codeDigits? code).isSome) (message : List Char) :
    splitHeader? (path ++ heading position code (' ' :: message)) = some
      (((splitHeader? message).map fun (inner, last) =>
        (path ++ heading position code (' ' :: inner), last)).getD (path, code)) := by
  induction path with
  | nil =>
    obtain ⟨c, front, hfront, hpassed⟩ := exists_passed_heading hposition hcode message
    have hread : codeBehindPath? (heading position code (' ' :: message)) = some code :=
      codeBehindPath?_eq_some_iff.2 ⟨position, _, hposition, hcode, rfl⟩
    simp only [List.nil_append, hfront] at hread ⊢
    rw [splitHeader?, hpassed, hread]
    cases splitHeader? message <;> rfl
  | cons c path ih =>
    rw [List.cons_append, splitHeader?, ih]
    cases splitHeader? message <;> rfl

end

section

variable {path position code message : List Char}

/-- **A header is read as it was written exactly if its message is no header.** Otherwise its message is
read: all that stands in front of the position in the message counts as the path, and the code is the
one in the message. -/
theorem ofHeader?_heading (hpath : '\n' ∉ path) (hposition : IsPosition position)
    (hcode : (codeDigits? code).isSome) (hmessage : '\n' ∉ message) :
    let line := String.ofList (path ++ heading position code (' ' :: message))
    (ofHeader? line = some ⟨.ofList path, .ofList code, [line]⟩ ↔
      ofHeader? (.ofList message) = none) ∧
    ∀ d, ofHeader? (.ofList message) = some d → ofHeader? line =
      some ⟨.ofList (path ++ heading position code (' ' :: d.file.toList)), d.code, [line]⟩ := by
  intro line
  have hfeed : '\n' ∉ path ++ heading position code (' ' :: message) := by
    rw [List.mem_append, mem_heading_iff hposition hcode]
    simp [hpath, hmessage]
  have hline : ofHeader? line = _ := ofHeader?_ofList hfeed
  rw [hline, splitHeader?_heading path hposition hcode message, ofHeader?_ofList hmessage]
  cases splitHeader? message with
  | none => exact ⟨iff_of_true rfl rfl, fun d hd => absurd hd.symm (Option.some_ne_none d)⟩
  | some split =>
    refine ⟨iff_of_false (fun h => ?_) (Option.some_ne_none _), fun d hd => ?_⟩
    · -- the path that is read goes on behind the position
      have hfile := congrArg Diagnostic.file (Option.some.inj h)
      simp [heading] at hfile
    · cases hd
      simp only [Option.map_some, Option.getD_some, String.toList_ofList, line]

end

/-- a message that quotes another header -/
def quotingMessage : List Char :=
  "Type '\"b.ts(1,1): error TS2304: x\"' is not assignable to type 'number'.".toList

theorem isPosition_bracketed : IsPosition "(3,7):".toList :=
  @IsPosition.bracketed ['3'] ['7'] ⟨by simp, by simp⟩ ⟨by simp, by simp⟩

/-- With a message that quotes no header both parts are read as they were written; the quoted header is
read in their place, with what stands in front of it as its path. -/
theorem ofHeader?_heading_quoting :
    ofHeader? "src/a.ts(3,7): error TS2322: Type 'x' is not assignable." =
        some ⟨"src/a.ts", "TS2322", ["src/a.ts(3,7): error TS2322: Type 'x' is not assignable."]⟩ ∧
      (ofHeader? (.ofList ("src/a.ts".toList ++
        heading "(3,7):".toList "TS2322".toList (' ' :: quotingMessage)))).map
          (fun d => (d.file, d.code)) =
        some ("src/a.ts(3,7): error TS2322: Type '\"b.ts", "TS2304") := by
  have hplain := (@ofHeader?_heading "src/a.ts".toList "(3,7):".toList "TS2322".toList
    "Type 'x' is not assignable.".toList (by decide) isPosition_bracketed (by decide) (by decide)).1
  have hquoting := (@ofHeader?_heading "src/a.ts".toList "(3,7):".toList "TS2322".toList
    quotingMessage (by decide) isPosition_bracketed (by decide) (by decide +kernel)).2
  have hinner : ofHeader? (.ofList quotingMessage) =
      some ⟨"Type '\"b.ts", "TS2304", [.ofList quotingMessage]⟩ := by decide +kernel
  refine ⟨hplain.2 (by decide +kernel), ?_⟩
  rw [hquoting _ hinner]
  decide +kernel

/-- **A message can change the diagnostic it belongs to**, also where the path holds no position
with the word and the start of a code behind it. -/
theorem not_ofHeader?_of_every_message :
    ¬ ∀ path position code message : List Char, '\n' ∉ path →
      (∀ before inner after, IsPosition inner → path ≠ before ++ (inner ++ " error TS".toList) ++ after) →
      IsPosition position → (codeDigits? code).isSome → '\n' ∉ message →
      ∃ d, ofHeader? (.ofList (path ++ heading position code (' ' :: message))) = some d ∧
        d.file = .ofList path ∧ d.code = .ofList code := by
  intro h
  have hclean : ∀ before inner after, IsPosition inner →
      "src/a.ts".toList ≠ before ++ (inner ++ " error TS".toList) ++ after := by
    intro before inner after hinner heq
    have hblank : ' ' ∈ "src/a.ts".toList := by
      rw [heq]
      simp
    exact absurd hblank (by decide)
  obtain ⟨d, hd, hfile, -⟩ := h "src/a.ts".toList "(3,7):".toList "TS2322".toList quotingMessage
    (by decide) hclean isPosition_bracketed (by decide) (by decide +kernel)
  have hread : (ofHeader? (.ofList ("src/a.ts".toList ++
      heading "(3,7):".toList "TS2322".toList (' ' :: quotingMessage)))).map (·.file) =
      some "src/a.ts(3,7): error TS2322: Type '\"b.ts" := by decide +kernel
  rw [hd, Option.map_some, hfile] at hread
  exact absurd hread (by decide +kernel)

end DiagnosticGate.Diagnostic
