import DiagnosticGate.Proofs.Input
import DiagnosticGate.Proofs.Lines

/-!
Inputs that differ in their layout.

A gate reads every line in its normal form and passes over a line that holds nothing. So a run goes by
what the lines of its input hold, and not by how they are laid out.
-/

namespace DiagnosticGate

open Storage

namespace Text

/-! ### The lines of an encoded text -/

section

variable {bs : List UInt8}

theorem splitLines_of_mem (h : 0x0a ∉ bs) (held rest : List UInt8) :
    splitLines held (bs ++ 0x0a :: rest) = (held.reverse ++ bs ++ [0x0a]) :: splitLines [] rest := by
  induction bs generalizing held with
  | nil => simp [splitLines]
  | cons b bs ih =>
    obtain ⟨hb, hbs⟩ := not_or.1 (mt List.mem_cons.2 h)
    rw [List.cons_append, splitLines, if_neg (by simpa using Ne.symm hb), ih hbs]
    simp

theorem splitLines_of_notMem (h : 0x0a ∉ bs) (held : List UInt8) : splitLines held bs =
    if (held.reverse ++ bs).isEmpty then [] else [held.reverse ++ bs] := by
  induction bs generalizing held with
  | nil => simp [splitLines]
  | cons b bs ih =>
    obtain ⟨hb, hbs⟩ := not_or.1 (mt List.mem_cons.2 h)
    rw [splitLines, if_neg (by simpa using Ne.symm hb), ih hbs]
    simp

theorem dropLineEnd_of_notMem (h : 0x0a ∉ bs) : dropLineEnd bs = bs := by
  have hend : ∀ {r}, bs.reverse ≠ 0x0a :: r := by
    intro r hr
    exact h (List.mem_reverse.1 (hr ▸ List.mem_cons_self))
  unfold dropLineEnd
  split
  · rename_i hr
    exact absurd hr hend
  · rename_i hr
    exact absurd hr hend
  · rfl

theorem dropLineEnd_feed (h : bs.getLast? ≠ some 0x0d) : dropLineEnd (bs ++ [0x0a]) = bs := by
  rw [List.getLast?_eq_head?_reverse] at h
  rw [dropLineEnd, List.reverse_concat]
  split
  · rename_i hr
    rw [(List.cons.inj hr).2] at h
    exact absurd rfl h
  · rename_i hr
    rw [← (List.cons.inj hr).2, List.reverse_reverse]
  · rename_i hr
    exact absurd rfl (hr _)

theorem dropLineEnd_return (bs : List UInt8) : dropLineEnd (bs ++ [0x0d] ++ [0x0a]) = bs := by
  simp [dropLineEnd]

theorem decode_encodeChars (cs : List Char) : decode (encodeChars cs) = .ok (.ofList cs) :=
  decode_eq_ok_iff.2 (congrArg encodeChars String.toList_ofList)

/-- A line is read with or without the carriage return at its end, which counts for nothing. -/
theorem exists_decodeLine_feed (cs : List Char) :
    ∃ t, decodeLine (encodeChars cs ++ [0x0a]) = .ok t ∧ normalize t = normalize (.ofList cs) := by
  by_cases h : (encodeChars cs).getLast? = some 0x0d
  · obtain ⟨u, hu⟩ := List.getLast?_eq_some_iff.1 h
    obtain ⟨x, y, rfl, rfl, hy⟩ := @exists_of_encodeChars_eq_byte '\r' _ _ _ _ rfl hu
    obtain rfl := encodeChars_eq_nil.1 hy
    have hreturn := (normalize_blank (List.forall_mem_singleton.2 (show isBlank '\r' by decide)) x).2
    refine ⟨.ofList x, ?_, hreturn.symm⟩
    rw [decodeLine, hu, dropLineEnd_return, decode_encodeChars]
  · refine ⟨.ofList cs, ?_, rfl⟩
    rw [decodeLine, dropLineEnd_feed h, decode_encodeChars]

theorem decodeLines_cons {raw : List UInt8} {text : String} (h : decodeLine raw = .ok text)
    (rest : List (List UInt8)) :
    decodeLines (raw :: rest) = (text :: (decodeLines rest).1, (decodeLines rest).2) := by
  rw [decodeLines, h]

end

/-- **The lines that are read of an encoded text** hold what its lines hold, and all are read. -/
theorem decodeLines_encodeChars (text : List Char) :
    (decodeLines (splitLines [] (encodeChars text))).2 = none ∧
      contents (decodeLines (splitLines [] (encodeChars text))).1 = contents (linesOf text) := by
  have hfeed : ∀ {cs : List Char}, '\n' ∉ cs → 0x0a ∉ encodeChars cs :=
    fun h => mt (mem_encodeChars_iff rfl).1 h
  induction text using parts_induction '\n' with
  | one s hs =>
    rw [splitLines_of_notMem (hfeed hs), List.reverse_nil, List.nil_append]
    by_cases hnil : s = []
    · rw [hnil]
      exact ⟨rfl, contents_nil.symm⟩
    · have hline : decodeLine (encodeChars s) = .ok (.ofList s) := by
        rw [decodeLine, dropLineEnd_of_notMem (hfeed hs), decode_encodeChars]
      rw [if_neg (mt List.isEmpty_iff.1 (mt encodeChars_eq_nil.1 hnil)), decodeLines_cons hline,
        linesOf_of_notMem hs]
      exact ⟨rfl, rfl⟩
  | more s r hs ih =>
    obtain ⟨t, ht, hnormal⟩ := exists_decodeLine_feed s
    have hsplit : splitLines [] (encodeChars (s ++ '\n' :: r)) =
        (encodeChars s ++ [0x0a]) :: splitLines [] (encodeChars r) := by
      rw [encodeChars_append, encodeChars_cons]
      exact splitLines_of_mem (hfeed hs) [] (encodeChars r)
    have hfirst : contents [t] = contents (linesOf s) := by
      rw [linesOf_of_notMem hs]
      simp only [contents, List.map_cons, List.map_nil, hnormal]
    rw [hsplit, decodeLines_cons ht, contents_linesOf, ← hfirst, ← ih.2]
    exact ⟨ih.1, contents_append [t] _⟩

end Text

namespace Gate

variable {σ : Type} [TextFiles σ]

/-! ### Lines that are passed over -/

/-- **A line that holds nothing is passed over**, in every mode. -/
theorem line_of_isEmpty {raw : String} (h : (Text.normalize raw).isEmpty) (g : Gate σ) :
    g.line raw = ⟨g, [], none⟩ := by
  have hempty : Text.normalize raw = "" := String.isEmpty_iff.1 h
  have hblank : (Text.normalize "").isEmpty := by decide +kernel
  have hunheeded : ∀ w : WatchMode, w.heeds "" = false := by
    rintro ⟨_ | _⟩ <;> decide
  rw [line_of_unheeded (hempty ▸ hunheeded g.watch), hempty]
  simp [read, Assembly.push, hblank]

theorem line_congr {raw other : String} (h : Text.normalize raw = Text.normalize other)
    (g : Gate σ) : g.line raw = g.line other := by
  unfold line
  rw [h]

/-- whether a line holds something -/
def isFilled (raw : String) : Bool := !(Text.normalize raw).isEmpty

theorem lines_filter (g : Gate σ) (raws : List String) :
    g.lines (raws.filter isFilled) = g.lines raws ∧ g.log (raws.filter isFilled) = g.log raws := by
  induction raws generalizing g with
  | nil => exact ⟨rfl, rfl⟩
  | cons raw rest ih =>
    by_cases h : isFilled raw
    · rw [List.filter_cons_of_pos h]
      simp only [lines, log, (ih (g.line raw).gate).1, (ih (g.line raw).gate).2, and_self]
    · rw [List.filter_cons_of_neg h, (ih g).1, (ih g).2]
      simp only [isFilled, Bool.not_eq_true', Bool.not_eq_false] at h
      simp only [lines, log, line_of_isEmpty h]
      exact ⟨rfl, rfl⟩

theorem lines_congr {raws others : List String}
    (h : raws.map Text.normalize = others.map Text.normalize) (g : Gate σ) :
    g.lines raws = g.lines others ∧ g.log raws = g.log others := by
  induction raws generalizing others g with
  | nil =>
    rw [List.map_eq_nil_iff.1 h.symm]
    exact ⟨rfl, rfl⟩
  | cons raw rest ih =>
    cases others with
    | nil => cases h
    | cons other more =>
      obtain ⟨hfirst, hrest⟩ := List.cons.inj h
      have hline := line_congr hfirst g
      obtain ⟨hlines, hlog⟩ := ih hrest (g.line other).gate
      simp only [lines, log, hline, hlines, hlog, and_self]

/-- **A gate goes by what its lines hold.** -/
theorem lines_of_contents {raws others : List String} (h : Text.contents raws = Text.contents others)
    (g : Gate σ) : g.lines raws = g.lines others ∧ g.log raws = g.log others := by
  have hfilled : ∀ xs, Text.contents xs = (xs.filter isFilled).map Text.normalize := by
    intro xs
    rw [Text.contents, List.filter_map]
    rfl
  rw [hfilled, hfilled] at h
  obtain ⟨hlines, hlog⟩ := lines_congr h g
  rw [(g.lines_filter raws).1, (g.lines_filter others).1] at hlines
  rw [(g.lines_filter raws).2, (g.lines_filter others).2] at hlog
  exact ⟨hlines, hlog⟩

end Gate

namespace CommandLine

section

variable {σ : Type} [TextFiles σ]

/-! ### Runs -/

theorem runLines_of_contents {raws others : List (List UInt8)} (hr : (Text.decodeLines raws).2 = none)
    (ho : (Text.decodeLines others).2 = none)
    (h : Text.contents (Text.decodeLines raws).1 = Text.contents (Text.decodeLines others).1)
    (g : Gate σ) : runLines g raws = runLines g others := by
  obtain ⟨hlines, hlog⟩ := Gate.lines_of_contents h g
  rw [runLines_eq, runLines_eq, hr, ho]
  simp only [Gate.check_eq, hlines, hlog]

/-- **A run goes by what the lines of its input hold.** -/
theorem run_of_contents {text other : List Char}
    (h : Text.contents (Text.linesOf text) = Text.contents (Text.linesOf other)) (files : σ)
    (options : Options) : run files options (Text.encodeChars text) =
      run files options (Text.encodeChars other) := by
  cases hstart : (Gate.start files options.settings).2 with
  | error e => rw [run_of_fault hstart, run_of_fault hstart]
  | ok g =>
    obtain ⟨hread, hheld⟩ := Text.decodeLines_encodeChars text
    obtain ⟨hread', hheld'⟩ := Text.decodeLines_encodeChars other
    have hsame := runLines_of_contents hread hread' (hheld.trans (h.trans hheld'.symm)) g
    rw [run_of_start hstart, run_of_start hstart, hsame]

theorem run_of_text {files : σ} {options : Options} {g : Gate σ}
    (h : (Gate.start files options.settings).2 = .ok g) (text : String) :
    let lines := (Text.decodeLines (Text.splitLines [] (Text.encode text))).1
    (run files options (Text.encode text)).outcome = .ok (g.check lines).verdict ∧
      (run files options (Text.encode text)).files = (g.check lines).gate.files := by
  have hread := (Text.decodeLines_encodeChars text.toList).1
  rw [run_of_start h, runLines_eq, Text.encode, hread]
  exact ⟨rfl, rfl⟩

/-- **The layout of an input does not matter.** Whatever the options and the store are: two texts that
differ in their line ends, in lines of blanks and in the blanks around lines lead to the same run, with
the same records, files and outcome, and a call with them prints and answers the same. -/
theorem run_of_reframed (files : σ) {text other : String}
    (h : Text.Reframed text.toList other.toList) :
    (∀ options, run files options (Text.encode text) = run files options (Text.encode other)) ∧
    ∀ args env colour time, call files args env (Text.encode text) colour time =
      call files args env (Text.encode other) colour time := by
  have hrun : ∀ options,
      run files options (Text.encode text) = run files options (Text.encode other) :=
    run_of_contents h.contents_eq files
  refine ⟨hrun, fun args env colour time => ?_⟩
  unfold call
  cases Options.parse args env with
  | error u => rfl
  | ok options => simp only [hrun options]

end

/-- a compilation in watch mode, with a sequence in it that is not complete -/
def plainText : String :=
  "Starting compilation in watch mode...\n" ++ "src/a.ts(1,1): error TS2322: m\x1b[\n" ++
    "Watching for file changes.\n"

/-- the same with another line end, a line of blanks, blanks around the diagnostic, and no line end
behind the last line -/
def paddedText : String :=
  "Starting compilation in watch mode...\r\n" ++ "\t\n" ++
    "\u3000src/a.ts(1,1): error TS2322: m\x1b[\u00a0\n" ++ "Watching for file changes."

/-- One text is made from the other by each kind of change once, the last of them taken back. -/
theorem reframed_paddedText : Text.Reframed plainText.toList paddedText.toList := by
  have hlayout : ∀ a b c : List Char, Text.StartsBreak c →
      Text.Reframed (a ++ '\n' :: (b ++ (c ++ ['\n'])))
        (a ++ '\r' :: '\n' :: '\t' :: '\n' :: '\u3000' :: (b ++ '\u00a0' :: c)) := by
    intro a b c hc
    have hfirst : Text.EndsLine (a ++ ['\r', '\n']) := .inr ⟨a ++ ['\r'], by simp⟩
    have hsecond : Text.EndsLine (a ++ ['\r', '\n', '\t', '\n']) :=
      .inr ⟨a ++ ['\r', '\n', '\t'], by simp⟩
    have hreturn := Text.Reframes.lineEnd a (b ++ (c ++ ['\n']))
    have hblank := Text.Reframes.blankLine hfirst
      (List.forall_mem_singleton.2 (show Text.isPadding '\t' by decide)) (b ++ (c ++ ['\n']))
    have hstart := Text.Reframes.padStart hsecond
      (List.forall_mem_singleton.2 (show Text.isPadding '\u3000' by decide)) (b ++ (c ++ ['\n']))
    have hlast := Text.Reframes.lastEnd
      (a ++ '\r' :: '\n' :: '\t' :: '\n' :: '\u3000' :: (b ++ c))
    have hend := Text.Reframes.padEnd (a ++ '\r' :: '\n' :: '\t' :: '\n' :: '\u3000' :: b)
      (List.forall_mem_singleton.2 (show Text.isPadding '\u00a0' by decide)) hc
    simp only [List.append_assoc, List.cons_append, List.nil_append] at hblank hstart hlast hend
    exact .trans _ _ _ (.rel _ _ hreturn) (.trans _ _ _ (.rel _ _ hblank)
      (.trans _ _ _ (.rel _ _ hstart) (.trans _ _ _ (.symm _ _ (.rel _ _ hlast)) (.rel _ _ hend))))
  have hplain : plainText.toList = "Starting compilation in watch mode...".toList ++ '\n' ::
      ("src/a.ts(1,1): error TS2322: m\x1b[".toList ++
        ("\nWatching for file changes.".toList ++ ['\n'])) := by decide +kernel
  have hpadded : paddedText.toList = "Starting compilation in watch mode...".toList ++ '\r' :: '\n' ::
      '\t' :: '\n' :: '\u3000' :: ("src/a.ts(1,1): error TS2322: m\x1b[".toList ++
        '\u00a0' :: "\nWatching for file changes.".toList) := by decide +kernel
  rw [hplain, hpadded]
  exact hlayout _ _ _ (.inr ⟨"Watching for file changes.".toList, by decide +kernel⟩)

/-- with both lists, an update and quiet -/
def updatingOptions : Options := ⟨"c", "f", false, true, true, 0⟩

/-- The blank behind the open sequence is no part of it; the diagnostic is judged and its file
listed. -/
theorem run_of_reframed_padded :
    Text.Reframed plainText.toList paddedText.toList ∧
      run (Memory.ofLists ["TS2322"] ["old.ts"] []) updatingOptions (Text.encode plainText) =
        run (Memory.ofLists ["TS2322"] ["old.ts"] []) updatingOptions (Text.encode paddedText) ∧
      (run (Memory.ofLists ["TS2322"] ["old.ts"] []) updatingOptions
        (Text.encode paddedText)).outcome = .ok .pass ∧
      (run (Memory.ofLists ["TS2322"] ["old.ts"] []) updatingOptions
        (Text.encode paddedText)).files.written.map (·.1) = ["f"] := by
  obtain ⟨hsame, -⟩ := run_of_reframed (Memory.ofLists ["TS2322"] ["old.ts"] []) reframed_paddedText
  have hlines : Text.decodeLines (Text.splitLines [] (Text.encode paddedText)) =
      (["Starting compilation in watch mode...", "\t",
        "\u3000src/a.ts(1,1): error TS2322: m\x1b[\u00a0", "Watching for file changes."], none) := by
    decide +kernel
  have hrun : ((Gate.start (Memory.ofLists ["TS2322"] ["old.ts"] [])
      updatingOptions.settings).2.map fun g =>
        ((g.check (Text.decodeLines (Text.splitLines [] (Text.encode paddedText))).1).verdict,
          (g.check (Text.decodeLines (Text.splitLines []
            (Text.encode paddedText))).1).gate.files.written.map (·.1))) = .ok (.pass, ["f"]) := by
    rw [hlines]
    decide +kernel
  obtain ⟨g, hstart, heq⟩ := Gate.exists_of_map_eq_ok hrun
  obtain ⟨hverdict, hwritten⟩ := Prod.mk.inj heq
  obtain ⟨houtcome, hfiles⟩ := run_of_text hstart paddedText
  rw [houtcome, hfiles, hverdict, hwritten]
  exact ⟨reframed_paddedText, hsame updatingOptions, rfl, rfl⟩

end CommandLine

end DiagnosticGate
