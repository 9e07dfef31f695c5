import DiagnosticGate.Proofs.Input

/-!
Which lists a gate starts on.

A list is loaded with the texts of its file, and where lists are to be made, a file that is missing is
an empty list. A gate starts if and only if both lists can be loaded, the codes are error codes, and
the globs among the entries can be read. Otherwise it tells the first of these things that fails.
-/

namespace DiagnosticGate

/-! ### Lists with repetitions -/

theorem filter_eraseDups (keep : String → Bool) (ss : List String) :
    ss.eraseDups.filter keep = (ss.filter keep).eraseDups := by
  induction ss using List.reverseRecOn with
  | nil => rfl
  | append_singleton ss s ih =>
    rw [List.filter_append, List.eraseDups_append, List.eraseDups_append, List.filter_append, ih]
    by_cases hs : s ∈ ss <;> by_cases hk : keep s <;> simp [List.removeAll, hs, hk]

theorem AllowList.entries_ofList (ss : List String) : (ofList ss).entries = ss.eraseDups := by
  simp [ofList, entries_insertAll, empty, contains]

namespace Coverage

variable {c : Coverage} {ts us : List String} {f : PatternError}

theorem addAll_append : c.addAll (ts ++ us) =
    match c.addAll ts with
    | .ok d => d.addAll us
    | .error f => .error f := by
  induction ts generalizing c with
  | nil => rfl
  | cons t ts ih =>
    rw [List.cons_append, addAll, addAll]
    cases c.add t with
    | ok d => exact ih
    | error f => rfl

theorem addAll_singleton (c : Coverage) (t : String) : c.addAll [t] = c.add t := by
  rw [addAll]
  cases c.add t <;> rfl

theorem ofTexts_append_of_ok (h : ofTexts ts = .ok c) : ofTexts (ts ++ us) = c.addAll us := by
  rw [ofTexts, addAll_append, ← ofTexts, h]

theorem ofTexts_append_of_error (h : ofTexts ts = .error f) : ofTexts (ts ++ us) = .error f := by
  rw [ofTexts, addAll_append, ← ofTexts, h]

/-- **A list is refused for the first of its texts that is no entry.** -/
theorem ofTexts_eq_error_iff : ofTexts ts = .error f ↔ ∃ pre t post, ts = pre ++ t :: post ∧
    (∀ s ∈ pre, ∃ e, Entry.ofText s = .ok e) ∧ Entry.ofText t = .error f := by
  constructor
  · intro h
    induction ts using List.reverseRecOn with
    | nil => cases h
    | append_singleton ts t ih =>
      cases hts : ofTexts ts with
      | error f' =>
        rw [ofTexts_append_of_error hts] at h
        cases h
        obtain ⟨pre, s, post, rfl, hpre, hs⟩ := ih hts
        exact ⟨pre, s, post ++ [t], by simp, hpre, hs⟩
      | ok c =>
        rw [ofTexts_append_of_ok hts, addAll_singleton, add_eq_error_iff (sound_ofTexts hts)] at h
        exact ⟨ts, t, [], rfl, exists_ofTexts_iff.1 ⟨c, hts⟩, h⟩
  · rintro ⟨pre, t, post, rfl, hpre, ht⟩
    obtain ⟨c, hc⟩ := exists_ofTexts_iff.2 hpre
    have hadd : c.add t = .error f := (add_eq_error_iff (sound_ofTexts hc)).2 ht
    rw [ofTexts_append_of_ok hc, addAll, hadd]

theorem ofTexts_ofList (ts : List String) : ofTexts (AllowList.ofList ts).entries = ofTexts ts := by
  induction ts using List.reverseRecOn with
  | nil => rfl
  | append_singleton ts t ih =>
    have hinsert : AllowList.ofList (ts ++ [t]) = (AllowList.ofList ts).insert t := by
      simp [AllowList.ofList, AllowList.insertAll]
    rw [hinsert, AllowList.insert]
    cases hts : ofTexts ts with
    | error f =>
      rw [hts] at ih
      rw [ofTexts_append_of_error hts]
      split
      · exact ih
      · exact ofTexts_append_of_error ih
    | ok c =>
      rw [hts] at ih
      rw [ofTexts_append_of_ok hts, addAll_singleton]
      split
      · rename_i ht
        obtain ⟨e, he⟩ := exists_ofTexts_iff.1 ⟨c, hts⟩ t (AllowList.mem_ofList.1 ht)
        have hmem : e ∈ c.entries :=
          (mem_entries_ofTexts hts).2 ⟨t, AllowList.mem_ofList.1 ht, he⟩
        have hany : c.entries.any (·.text == t) :=
          List.any_eq_true.2 ⟨e, hmem, beq_iff_eq.2 (Entry.text_ofText he)⟩
        rw [ih, add, if_pos hany]
      · rw [ofTexts_append_of_ok ih, addAll_singleton]

end Coverage

/-! ### Loading a list -/

namespace Storage

section

variable {σ : Type} [TextFiles σ] {files : σ} {path : String} {allowMissing : Bool}
variable {r : Except ListFileError (List String)}

/-- How the list at a path is loaded: with the texts of its file, as an empty list where the file may
be missing and is, or not at all. -/
inductive Loads (files : σ) (path : String) (allowMissing : Bool) :
    Except ListFileError (List String) → Prop
  | present {contents : String} {texts : List String} (hread : TextFiles.read files path = .ok contents)
      (hparse : parseTexts contents = .ok texts) : Loads files path allowMissing (.ok texts)
  | absent {f : FileFault} (hread : TextFiles.read files path = .error f) (hmissing : f.isMissing)
      (hallowed : allowMissing) : Loads files path allowMissing (.ok [])
  | unreadable {f : FileFault} (hread : TextFiles.read files path = .error f)
      (hfault : ¬ (allowMissing ∧ f.isMissing)) :
      Loads files path allowMissing (.error ⟨path, .unreadable f⟩)
  | malformed {contents : String} {f : ListFault} (hread : TextFiles.read files path = .ok contents)
      (hparse : parseTexts contents = .error f) : Loads files path allowMissing (.error ⟨path, f⟩)

/-- **Every list is loaded in one way**: as it is read, with no texts where its file is missing. -/
theorem loads_iff :
    Loads files path allowMissing r ↔ r = (readTexts files path allowMissing).map (·.getD []) := by
  constructor
  · intro h
    cases h with
    | present hread hparse =>
      simp only [readTexts, hread, hparse]
      rfl
    | absent hread hmissing hallowed =>
      simp only [readTexts, hread, hmissing, hallowed]
      rfl
    | @unreadable f hread hfault =>
      have hno : (allowMissing && f.isMissing) = false := by simpa using hfault
      simp only [readTexts, hread, hno]
      rfl
    | malformed hread hparse =>
      simp only [readTexts, hread, hparse]
      rfl
  · rintro rfl
    unfold readTexts
    cases hread : TextFiles.read files path with
    | error f =>
      by_cases h : allowMissing ∧ f.isMissing
      · obtain ⟨rfl, hmissing⟩ := h
        simp only [hmissing]
        exact .absent hread hmissing rfl
      · have hno : (allowMissing && f.isMissing) = false := by simpa using h
        simp only [hno]
        exact .unreadable hread h
    | ok contents =>
      cases hparse : parseTexts contents with
      | error f =>
        simp only [hparse]
        exact .malformed hread hparse
      | ok texts =>
        simp only [hparse]
        exact .present hread hparse

end

theorem ListFileError.exists_message_eq (e : ListFileError) :
    ∃ head tail, e.message = head ++ e.path ++ tail := by
  obtain ⟨path, fault⟩ := e
  cases fault with
  | unreadable f => exact ⟨_, ": " ++ f.message, String.append_assoc⟩
  | noJson s => exact ⟨_, ": " ++ s.message, String.append_assoc⟩
  | noList => exact ⟨_, _, rfl⟩
  | noTexts => exact ⟨_, _, rfl⟩
  | unwritable f => exact ⟨_, ": " ++ f.message, String.append_assoc⟩

end Storage

open Storage

namespace Gate

section

variable {σ : Type} [TextFiles σ] {files : σ} {settings : Settings}
variable {codes entries : Except ListFileError (List String)} {cs ts : List String}

/-- what is wrong with a list that is not loaded -/
def faultsOf : Except ListFileError (List String) → List ListFileError
  | .ok _ => []
  | .error e => [e]

theorem start_of_faults (hc : Loads files settings.codesPath settings.init codes)
    (hf : Loads files settings.filesPath settings.init entries)
    (hfaults : faultsOf codes ++ faultsOf entries ≠ []) :
    (start files settings).2 = .error (.unreadable (faultsOf codes ++ faultsOf entries)) ∧
      messagesOf (start files settings).1 =
        (faultsOf codes ++ faultsOf entries).map .listFault := by
  obtain rfl := loads_iff.1 hc
  obtain rfl := loads_iff.1 hf
  revert hfaults
  unfold start
  cases readTexts files settings.codesPath settings.init with
  | error e =>
    cases readTexts files settings.filesPath settings.init with
    | error e' => exact fun _ => ⟨rfl, rfl⟩
    | ok found => cases found <;> exact fun _ => ⟨rfl, rfl⟩
  | ok found =>
    cases readTexts files settings.filesPath settings.init with
    | error e => cases found <;> exact fun _ => ⟨rfl, rfl⟩
    | ok found' => exact fun hfaults => absurd rfl hfaults

theorem start_of_loads (hc : Loads files settings.codesPath settings.init (.ok cs))
    (hf : Loads files settings.filesPath settings.init (.ok ts)) :
    (start files settings).2 = (ofLists files settings (.ofLists cs ts)).2 ∧
      messagesOf (start files settings).1 =
        messagesOf (ofLists files settings (.ofLists cs ts)).1 := by
  obtain ⟨codes, hcodes, rfl⟩ := exists_of_map_eq_ok (loads_iff.1 hc).symm
  obtain ⟨entries, hentries, rfl⟩ := exists_of_map_eq_ok (loads_iff.1 hf).symm
  refine ⟨start_of_reads hcodes hentries, ?_⟩
  unfold start
  simp only [hcodes, hentries, List.append_nil, List.isEmpty_nil, if_true]
  rw [messagesOf_append, messagesOf_append, (messagesOf_entriesOf _ codes).1,
    (messagesOf_entriesOf _ entries).1]
  cases codes <;> cases entries <;> rfl

theorem malformedCodes_ofLists : malformedCodes (AllowLists.ofLists cs ts).codes.entries =
    (cs.filter fun c => !isErrorCode c).eraseDups := by
  rw [malformedCodes, AllowLists.ofLists, AllowList.entries_ofList, filter_eraseDups]

omit [TextFiles σ] in
theorem ofLists_of_malformed {invalid : List String}
    (h : malformedCodes (AllowLists.ofLists cs ts).codes.entries = invalid) (hne : invalid ≠ []) :
    (ofLists files settings (.ofLists cs ts)).2 =
        .error (.malformedCodes settings.codesPath invalid) ∧
      messagesOf (ofLists files settings (.ofLists cs ts)).1 = invalid.map .invalidCode := by
  have hempty : invalid.isEmpty = false := by simpa using hne
  have hmessages := messagesOf_map_message (invalid.map .invalidCode)
  rw [List.map_map] at hmessages
  simp only [ofLists, h, hempty]
  exact ⟨rfl, hmessages⟩

omit [TextFiles σ] in
theorem ofLists_of_badPattern {e : PatternError}
    (h : malformedCodes (AllowLists.ofLists cs ts).codes.entries = [])
    (hbad : Coverage.ofTexts ts = .error e) :
    (ofLists files settings (.ofLists cs ts)).2 = .error (.badPattern e) ∧
      messagesOf (ofLists files settings (.ofLists cs ts)).1 = [] := by
  have hentries : Coverage.ofTexts (AllowLists.ofLists cs ts).files.entries = .error e :=
    (Coverage.ofTexts_ofList ts).trans hbad
  simp only [ofLists, h, hentries, List.isEmpty_nil, if_true]
  exact ⟨trivial, rfl⟩

end

end Gate

theorem Entry.exists_ofText_iff {text : String} :
    (∃ e, ofText text = .ok e) ↔ (isGlob text → ∃ p, Glob.ofText text = .ok p) := by
  unfold ofText
  by_cases h : isGlob text
  · rw [if_pos h]
    cases Glob.ofText text <;> simp [h]
  · simp [h]

theorem Entry.ofText_of_fault {text : String} {f : Glob.Fault} (h : isGlob text)
    (hf : Glob.ofText text = .error f) : ofText text = .error ⟨text, f⟩ := by
  rw [ofText, if_pos h, hf]

/-- **Which lists a gate starts on.** -/
theorem Gate.exists_start_iff {σ : Type} [TextFiles σ] {files : σ} {settings : Settings} :
    (∃ g, (start files settings).2 = .ok g) ↔ ∃ codes entries,
      Loads files settings.codesPath settings.init (.ok codes) ∧
      Loads files settings.filesPath settings.init (.ok entries) ∧
      (∀ c ∈ codes, isErrorCode c) ∧ ∀ t ∈ entries, ∃ e, Entry.ofText t = .ok e := by
  constructor
  · rintro ⟨g, h⟩
    obtain ⟨codes, entries, coverage, hc, hf, hg, hm, hcov⟩ := start_eq_ok h
    subst hg
    have hloads {path : String} {found : Option (List String)}
        (hread : readTexts files path settings.init = .ok found) :
        Loads files path settings.init (.ok (found.getD [])) := by
      rw [loads_iff, hread]
      rfl
    refine ⟨_, _, hloads hc, hloads hf, fun c hmem => ?_, fun t hmem => ?_⟩
    · exact malformedCodes_eq_nil_iff.1 hm c (AllowList.mem_ofList.2 hmem)
    · exact Coverage.exists_ofTexts_iff.1 ⟨coverage, hcov⟩ t (AllowList.mem_ofList.2 hmem)
  · rintro ⟨codes, entries, hc, hf, hcodes, hentries⟩
    obtain ⟨coverage, hcov⟩ := Coverage.exists_ofTexts_iff.2 hentries
    have hwell : malformedCodes (AllowList.ofList codes).entries = [] :=
      malformedCodes_eq_nil_iff.2 fun c hmem => hcodes c (AllowList.mem_ofList.1 hmem)
    exact ⟨_, (start_of_loads hc hf).1.trans
      (ofLists_eq_ok_iff.2 ⟨hwell, coverage, (Coverage.ofTexts_ofList entries).trans hcov, rfl⟩)⟩

/-- **A gate starts exactly when it should, with the right cause.** It starts if and only if both
lists can be loaded, every code is `TS` and at least four digits, and every entry with a character
of globs is one. Otherwise it ends with the first that applies: the faults of the lists that cannot
be loaded, the codes that are none, each once, or the first entry that is no glob. The faults and
the codes are told, each once and as failures, a fault with the path of its file and a code as it
is. Nothing is written, and it is immaterial what a store does on writing. -/
theorem Gate.start_iff_or_first_fault {σ : Type} [kind : TextFiles σ] (files : σ)
    (settings : Settings) :
    ((∃ g, (start files settings).2 = .ok g) ↔ ∃ codes entries,
      Loads files settings.codesPath settings.init (.ok codes) ∧
      Loads files settings.filesPath settings.init (.ok entries) ∧
      (∀ c ∈ codes, ∃ ds, c.toList = 'T' :: 'S' :: ds ∧ 4 ≤ ds.length ∧ ∀ d ∈ ds, d.isDigit) ∧
      ∀ t ∈ entries, isGlob t → ∃ p, Glob.ofText t = .ok p) ∧
    (∀ codes entries, Loads files settings.codesPath settings.init codes →
      Loads files settings.filesPath settings.init entries →
      faultsOf codes ++ faultsOf entries ≠ [] →
        (start files settings).2 = .error (.unreadable (faultsOf codes ++ faultsOf entries)) ∧
        messagesOf (start files settings).1 =
          (faultsOf codes ++ faultsOf entries).map .listFault ∧
        (messagesOf (start files settings).1).map Message.text =
          (faultsOf codes ++ faultsOf entries).map ListFileError.message ∧
        ∀ e ∈ faultsOf codes ++ faultsOf entries, ∃ head tail, e.message = head ++ e.path ++ tail) ∧
    (∀ codes entries, Loads files settings.codesPath settings.init (.ok codes) →
      Loads files settings.filesPath settings.init (.ok entries) →
      ∀ invalid, (codes.filter fun c => !isErrorCode c).eraseDups = invalid → invalid ≠ [] →
        (start files settings).2 = .error (.malformedCodes settings.codesPath invalid) ∧
        messagesOf (start files settings).1 = invalid.map .invalidCode ∧
        (messagesOf (start files settings).1).map Message.text =
          invalid.map ("Invalid TSC error code: " ++ ·)) ∧
    (∀ codes pre t post f, Loads files settings.codesPath settings.init (.ok codes) →
      Loads files settings.filesPath settings.init (.ok (pre ++ t :: post)) →
      (∀ c ∈ codes, isErrorCode c) → (∀ s ∈ pre, isGlob s → ∃ p, Glob.ofText s = .ok p) →
      isGlob t → Glob.ofText t = .error f →
        (start files settings).2 = .error (.badPattern ⟨t, f⟩) ∧
        messagesOf (start files settings).1 = []) ∧
    (∀ m ∈ messagesOf (start files settings).1, m.tone = .failure) ∧
    (∀ g, (start files settings).2 = .ok g → g.files = files) ∧
    ∀ other : TextFiles σ, other.read = kind.read →
      @start σ other files settings = @start σ kind files settings := by
  refine ⟨?_, ?_, ?_, ?_, ?_, fun _ => files_start, ?_⟩
  · simp only [exists_start_iff, isErrorCode_iff, Entry.exists_ofText_iff]
  · intro codes entries hc hf hfaults
    obtain ⟨hresult, hmessages⟩ := start_of_faults hc hf hfaults
    refine ⟨hresult, hmessages, ?_, fun e _ => e.exists_message_eq⟩
    rw [hmessages, List.map_map]
    rfl
  · intro codes entries hc hf invalid hinvalid hne
    obtain ⟨hresult, hmessages⟩ := start_of_loads hc hf
    rw [hresult, hmessages]
    obtain ⟨hfault, htold⟩ := @ofLists_of_malformed σ files settings _ _ _
      (malformedCodes_ofLists.trans hinvalid) hne
    refine ⟨hfault, htold, ?_⟩
    rw [htold, List.map_map]
    rfl
  · intro codes pre t post f hc hf hcodes hpre hglob hfault
    obtain ⟨hresult, hmessages⟩ := start_of_loads hc hf
    have hwell : (codes.filter fun c => !isErrorCode c) = [] := malformedCodes_eq_nil_iff.2 hcodes
    have hbad : Coverage.ofTexts (pre ++ t :: post) = .error ⟨t, f⟩ :=
      Coverage.ofTexts_eq_error_iff.2 ⟨pre, t, post, rfl,
        fun s hs => Entry.exists_ofText_iff.2 (hpre s hs), Entry.ofText_of_fault hglob hfault⟩
    rw [hresult, hmessages]
    exact ofLists_of_badPattern (malformedCodes_ofLists.trans (by rw [hwell]; rfl)) hbad
  · intro m hm
    obtain ⟨e, rfl⟩ | ⟨c, rfl⟩ := (messagesOf_start files settings).1 m hm <;> rfl
  · intro other hread
    have hreads : @readTexts σ other = @readTexts σ kind := by
      funext files path allowMissing
      unfold readTexts
      rw [hread]
    unfold start
    rw [hreads]

/-- A missing and a malformed list, codes that are none and repeated, an entry that is no glob behind
one that is, and missing lists that are to be made. -/
theorem Gate.start_iff_or_first_fault_memory :
    ((start (Memory.ofFiles [("f", "[1]")] []) ⟨"c", "f", false, false⟩).2 =
        .error (.unreadable [⟨"c", .unreadable .unknownPath⟩, ⟨"f", .noTexts⟩]) ∧
      (messagesOf (start (Memory.ofFiles [("f", "[1]")] []) ⟨"c", "f", false, false⟩).1).map
        Message.text = ["Cannot read file c: not found", "File f must only contain strings"]) ∧
    ((start (Memory.ofLists ["TS1", "TS2322", "x", "TS1"] ["\x7b"] []) ⟨"c", "f", false, false⟩).2 =
        .error (.malformedCodes "c" ["TS1", "x"]) ∧
      (messagesOf (start (Memory.ofLists ["TS1", "TS2322", "x", "TS1"] ["\x7b"] [])
        ⟨"c", "f", false, false⟩).1).map Message.text =
          ["Invalid TSC error code: TS1", "Invalid TSC error code: x"]) ∧
    (start (Memory.ofLists ["TS2322"] ["src/*.ts", "a\x7bb", "c\x7d"] []) ⟨"c", "f", false, false⟩).2 =
      .error (.badPattern ⟨"a\x7bb", .unclosedGroup⟩) ∧
    ∃ g, (start (Memory.ofFiles [] []) ⟨"c", "f", true, false⟩).2 = .ok g := by
  obtain ⟨-, hfaults, -⟩ :=
    start_iff_or_first_fault (Memory.ofFiles [("f", "[1]")] []) ⟨"c", "f", false, false⟩
  obtain ⟨-, -, hcodes, -⟩ := start_iff_or_first_fault
    (Memory.ofLists ["TS1", "TS2322", "x", "TS1"] ["\x7b"] []) ⟨"c", "f", false, false⟩
  obtain ⟨-, -, -, hpattern, -⟩ := start_iff_or_first_fault
    (Memory.ofLists ["TS2322"] ["src/*.ts", "a\x7bb", "c\x7d"] []) ⟨"c", "f", false, false⟩
  obtain ⟨hstarts, -⟩ := start_iff_or_first_fault (Memory.ofFiles [] []) ⟨"c", "f", true, false⟩
  refine ⟨?_, ?_, ?_, ?_⟩
  · obtain ⟨hresult, -, htexts, -⟩ := hfaults (.error ⟨"c", .unreadable .unknownPath⟩)
      (.error ⟨"f", .noTexts⟩) (loads_iff.2 (by decide +kernel)) (loads_iff.2 (by decide +kernel))
      (List.cons_ne_nil _ _)
    exact ⟨hresult, htexts⟩
  · obtain ⟨hresult, -, htexts⟩ := hcodes ["TS1", "TS2322", "x", "TS1"] ["\x7b"]
      (loads_iff.2 (by decide +kernel)) (loads_iff.2 (by decide +kernel)) ["TS1", "x"]
      (by decide +kernel) (List.cons_ne_nil _ _)
    exact ⟨hresult, htexts⟩
  · refine (hpattern ["TS2322"] ["src/*.ts"] "a\x7bb" ["c\x7d"] _ (loads_iff.2 (by decide +kernel))
      (loads_iff.2 (by decide +kernel)) (by decide +kernel) ?_ (by decide +kernel)
      (by decide +kernel)).1
    intro s hs _
    obtain rfl := List.mem_singleton.1 hs
    have hreads : (Glob.ofText "src/*.ts").map (fun _ => ()) = .ok () := by decide +kernel
    obtain ⟨p, hp, -⟩ := exists_of_map_eq_ok hreads
    exact ⟨p, hp⟩
  · refine hstarts.2 ⟨[], [], ?_, ?_, List.forall_mem_nil _, List.forall_mem_nil _⟩
    · exact .absent rfl rfl rfl
    · exact .absent rfl rfl rfl

end DiagnosticGate
