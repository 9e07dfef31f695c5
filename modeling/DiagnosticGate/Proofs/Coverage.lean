import DiagnosticGate.Coverage
import Mathlib.Data.List.Basic

/-!
What a coverage holds.

A coverage is built if and only if every text of its list is an entry, and then it holds the entries
of these texts, in their order and without hits. Counting changes nothing but hits: the entry of a
text has none exactly if it covers none of the paths that were counted.
-/

namespace DiagnosticGate

namespace Entry

theorem text_ofText {text : String} {e : Entry} (h : ofText text = .ok e) : e.text = text := by
  unfold ofText at h
  split at h
  · split at h
    · cases h; rfl
    · cases h
  · cases h; rfl

theorem hits_ofText {text : String} {e : Entry} (h : ofText text = .ok e) : e.hits = 0 := by
  unfold ofText at h
  split at h
  · split at h
    · cases h; rfl
    · cases h
  · cases h; rfl

theorem ofText_of_not_isGlob {text : String} (h : isGlob text = false) :
    ofText text = .ok ⟨text, .path, 0⟩ := by
  unfold ofText
  rw [if_neg (by simp [h])]

end Entry

namespace Coverage

variable {c d : Coverage} {t : String} {ts : List String}

/-! ### Building -/

theorem add_cases (h : c.add t = .ok d) :
    (∃ e ∈ c.entries, e.text = t) ∧ d = c ∨
      ∃ e, Entry.ofText t = .ok e ∧ d = ⟨c.entries ++ [e]⟩ := by
  unfold add at h
  split at h
  · rename_i hany
    cases h
    simp only [List.any_eq_true, beq_iff_eq] at hany
    exact .inl ⟨hany, rfl⟩
  · split at h
    · rename_i e he
      cases h
      exact .inr ⟨e, he, rfl⟩
    · cases h

/-- An entry of the coverage is the entry of its own text. -/
def Sound (c : Coverage) : Prop := ∀ e ∈ c.entries, Entry.ofText e.text = .ok e

theorem Sound.add (hc : c.Sound) (h : c.add t = .ok d) :
    d.Sound ∧ ∀ e, e ∈ d.entries ↔ e ∈ c.entries ∨ Entry.ofText t = .ok e := by
  rcases add_cases h with ⟨⟨e, he, rfl⟩, rfl⟩ | ⟨e, he, rfl⟩
  · refine ⟨hc, fun e' => ⟨.inl, ?_⟩⟩
    rintro (h' | h')
    · exact h'
    · rw [hc e he] at h'
      cases h'
      exact he
  · refine ⟨fun e' he' => ?_, fun e' => ?_⟩
    · rcases List.mem_append.1 he' with h' | h'
      · exact hc e' h'
      · obtain rfl := List.mem_singleton.1 h'
        rw [Entry.text_ofText he]
        exact he
    · rw [List.mem_append, List.mem_singleton, he]
      constructor
      · rintro (h' | rfl)
        · exact .inl h'
        · exact .inr rfl
      · rintro (h' | h')
        · exact .inl h'
        · cases h'; exact .inr rfl

theorem Sound.addAll (hc : c.Sound) (h : c.addAll ts = .ok d) :
    d.Sound ∧ ∀ e, e ∈ d.entries ↔ e ∈ c.entries ∨ ∃ t ∈ ts, Entry.ofText t = .ok e := by
  induction ts generalizing c with
  | nil => cases h; exact ⟨hc, by simp⟩
  | cons t ts ih =>
    unfold Coverage.addAll at h
    split at h
    · rename_i c' hadd
      obtain ⟨hc', hmem⟩ := hc.add hadd
      obtain ⟨hd, hall⟩ := ih hc' h
      refine ⟨hd, fun e => ?_⟩
      rw [hall, hmem, List.exists_mem_cons_iff, or_assoc]
    · cases h

theorem sound_empty : empty.Sound := by
  intro e he
  cases he

theorem sound_ofTexts (h : ofTexts ts = .ok c) : c.Sound := (sound_empty.addAll h).1

theorem mem_entries_ofTexts (h : ofTexts ts = .ok c) {e : Entry} :
    e ∈ c.entries ↔ ∃ t ∈ ts, Entry.ofText t = .ok e := by
  rw [(sound_empty.addAll h).2]
  simp [empty]

theorem texts_addAll (h : c.addAll ts = .ok d) (hn : ts.Nodup)
    (hnew : ∀ t ∈ ts, ∀ e ∈ c.entries, e.text ≠ t) :
    d.entries.map (·.text) = c.entries.map (·.text) ++ ts := by
  induction ts generalizing c with
  | nil => cases h; simp
  | cons t ts ih =>
    obtain ⟨hout, hn⟩ := List.nodup_cons.1 hn
    unfold Coverage.addAll at h
    split at h
    · rename_i c' hadd
      rcases add_cases hadd with ⟨⟨e, he, heq⟩, -⟩ | ⟨e, he, rfl⟩
      · exact absurd heq (hnew t List.mem_cons_self e he)
      · have htext := Entry.text_ofText he
        rw [ih h hn, List.map_append, List.append_assoc]
        · simp [htext]
        · intro s hs e' he'
          rcases List.mem_append.1 he' with he' | he'
          · exact hnew s (List.mem_cons_of_mem _ hs) e' he'
          · obtain rfl := List.mem_singleton.1 he'
            rw [htext]
            rintro rfl
            exact hout hs
    · cases h

/-- **The entries of a coverage stand in the order of its texts.** -/
theorem texts_ofTexts (h : ofTexts ts = .ok c) (hn : ts.Nodup) : c.entries.map (·.text) = ts :=
  texts_addAll h hn (by simp [empty])

theorem add_eq_error_iff (hc : c.Sound) {f : PatternError} :
    c.add t = .error f ↔ Entry.ofText t = .error f := by
  unfold add
  split
  · rename_i hany
    simp only [List.any_eq_true, beq_iff_eq] at hany
    obtain ⟨e, he, rfl⟩ := hany
    rw [hc e he]
    simp
  · split <;> simp_all

theorem exists_of_addAll_error (hc : c.Sound) {f : PatternError} (h : c.addAll ts = .error f) :
    ∃ t ∈ ts, Entry.ofText t = .error f := by
  induction ts generalizing c with
  | nil => cases h
  | cons t ts ih =>
    unfold Coverage.addAll at h
    split at h
    · rename_i c' hadd
      obtain ⟨s, hs, hf⟩ := ih (hc.add hadd).1 h
      exact ⟨s, List.mem_cons_of_mem _ hs, hf⟩
    · rename_i f' hadd
      cases h
      exact ⟨t, List.mem_cons_self, (add_eq_error_iff hc).1 hadd⟩

theorem exists_of_ofTexts_error {f : PatternError} (h : ofTexts ts = .error f) :
    ∃ t ∈ ts, Entry.ofText t = .error f := exists_of_addAll_error sound_empty h

theorem ofText_of_addAll (hc : c.Sound) (h : c.addAll ts = .ok d) :
    ∀ t ∈ ts, ∃ e, Entry.ofText t = .ok e := by
  induction ts generalizing c with
  | nil => intro t ht; cases ht
  | cons s ts ih =>
    intro t ht
    unfold Coverage.addAll at h
    split at h
    · rename_i c' hadd
      rcases List.mem_cons.1 ht with rfl | ht
      · cases he : Entry.ofText t with
        | ok e => exact ⟨e, rfl⟩
        | error f => rw [(add_eq_error_iff hc).2 he] at hadd; cases hadd
      · exact ih (hc.add hadd).1 h t ht
    · cases h

/-- **A coverage can be built if and only if every text is an entry.** -/
theorem exists_ofTexts_iff : (∃ c, ofTexts ts = .ok c) ↔ ∀ t ∈ ts, ∃ e, Entry.ofText t = .ok e := by
  constructor
  · rintro ⟨c, h⟩
    exact ofText_of_addAll sound_empty h
  · intro hall
    cases h : ofTexts ts with
    | ok c => exact ⟨c, rfl⟩
    | error f =>
      obtain ⟨t, ht, hf⟩ := exists_of_ofTexts_error h
      obtain ⟨e, he⟩ := hall t ht
      rw [hf] at he
      cases he

/-! ### Covering -/

/-- `text` is an entry that covers `path`. -/
def TextCovers (text path : String) : Prop := ∃ e, Entry.ofText text = .ok e ∧ e.covers path

theorem textCovers_self {text : String} (h : isGlob text = false) : TextCovers text text := by
  refine ⟨_, Entry.ofText_of_not_isGlob h, ?_⟩
  simp [Entry.covers]

theorem covers_ofTexts_iff (h : ofTexts ts = .ok c) {path : String} :
    c.covers path ↔ ∃ t ∈ ts, TextCovers t path := by
  rw [covers, List.any_eq_true]
  constructor
  · rintro ⟨e, he, hcov⟩
    obtain ⟨t, ht, hread⟩ := (mem_entries_ofTexts h).1 he
    exact ⟨t, ht, e, hread, hcov⟩
  · rintro ⟨t, ht, e, hread, hcov⟩
    exact ⟨e, (mem_entries_ofTexts h).2 ⟨t, ht, hread⟩, hcov⟩

/-- One entry can be held alone, and then what it covers is covered. -/
theorem exists_ofTexts_singleton {e : Entry} (h : Entry.ofText t = .ok e) :
    ∃ c, ofTexts [t] = .ok c ∧ ∀ path, c.covers path ↔ e.covers path := by
  obtain ⟨c, hc⟩ := exists_ofTexts_iff.2 (List.forall_mem_singleton.2 ⟨e, h⟩)
  refine ⟨c, hc, fun path => ?_⟩
  rw [covers_ofTexts_iff hc]
  simp [TextCovers, h]

/-! ### Counting -/

/-- the coverage after queries for `paths` -/
def countAll (c : Coverage) (paths : List String) : Coverage := paths.foldl count c

theorem countAll_append (c : Coverage) (ps qs : List String) :
    c.countAll (ps ++ qs) = (c.countAll ps).countAll qs := List.foldl_append

theorem clear_of_sound (hc : c.Sound) : c.clear = c := by
  have h : c.entries.map (fun e => { e with hits := 0 }) = c.entries.map id := by
    refine List.map_congr_left fun e he => ?_
    rw [← Entry.hits_ofText (hc e he), id]
  rw [clear, h, List.map_id]

theorem clear_count (c : Coverage) (path : String) : (c.count path).clear = c.clear := by
  simp only [clear, count, List.map_map]
  congr 1
  refine List.map_congr_left fun e _ => ?_
  simp only [Function.comp]
  split <;> rfl

theorem clear_countAll (c : Coverage) (paths : List String) :
    (c.countAll paths).clear = c.clear := by
  induction paths generalizing c with
  | nil => rfl
  | cons p ps ih => exact (ih (c.count p)).trans (c.clear_count p)

theorem covers_countAll (c : Coverage) (paths : List String) (other : String) :
    (c.countAll paths).covers other = c.covers other := by
  induction paths generalizing c with
  | nil => rfl
  | cons p ps ih => exact (ih (c.count p)).trans (c.covers_count p other)

theorem entries_countAll (c : Coverage) (paths : List String) :
    (c.countAll paths).entries =
      c.entries.map fun e => { e with hits := e.hits + paths.countP e.covers } := by
  induction paths generalizing c with
  | nil => simp [countAll]
  | cons p ps ih =>
    have hstep : c.countAll (p :: ps) = (c.count p).countAll ps := rfl
    rw [hstep, ih]
    simp only [count, List.map_map]
    refine List.map_congr_left fun e _ => ?_
    simp only [Function.comp, List.countP_cons]
    by_cases h : e.covers p
    · have hc : Entry.covers { e with hits := e.hits + 1 } = e.covers := rfl
      simp only [h, if_true, hc]
      congr 1
      omega
    · simp [h]

/-- **Without hits are the entries that cover none of the paths.** -/
theorem mem_unused_countAll (hc : c.Sound) {paths : List String} :
    t ∈ (c.countAll paths).unused ↔
      ∃ e ∈ c.entries, e.text = t ∧ ∀ p ∈ paths, e.covers p = false := by
  simp only [unused, entries_countAll, List.mem_map, List.mem_filter, beq_iff_eq]
  constructor
  · rintro ⟨_, ⟨⟨e, he, rfl⟩, hz⟩, rfl⟩
    have hz : paths.countP e.covers = 0 := by
      simp only at hz
      omega
    exact ⟨e, he, rfl, fun p hp => by simpa using List.countP_eq_zero.1 hz p hp⟩
  · rintro ⟨e, he, rfl, hno⟩
    have hz : paths.countP e.covers = 0 := List.countP_eq_zero.2 fun p hp => by simp [hno p hp]
    exact ⟨_, ⟨⟨e, he, rfl⟩, by rw [Entry.hits_ofText (hc e he), hz]⟩, rfl⟩

theorem mem_unused_ofTexts (h : ofTexts ts = .ok c) {paths : List String} :
    t ∈ (c.countAll paths).unused ↔ t ∈ ts ∧ ∀ p ∈ paths, ¬ TextCovers t p := by
  rw [mem_unused_countAll (sound_ofTexts h)]
  constructor
  · rintro ⟨e, he, rfl, hno⟩
    obtain ⟨t, ht, hread⟩ := (mem_entries_ofTexts h).1 he
    obtain rfl := Entry.text_ofText hread
    refine ⟨ht, ?_⟩
    rintro p hp ⟨e', hread', hcov⟩
    rw [hread] at hread'
    cases hread'
    rw [hno p hp] at hcov
    cases hcov
  · rintro ⟨ht, hno⟩
    obtain ⟨e, hread⟩ := exists_ofTexts_iff.1 ⟨c, h⟩ t ht
    refine ⟨e, (mem_entries_ofTexts h).2 ⟨t, ht, hread⟩, Entry.text_ofText hread, ?_⟩
    intro p hp
    by_contra hc
    exact hno p hp ⟨e, hread, by simpa using hc⟩

theorem unused_countAll_eq_nil_iff (h : ofTexts ts = .ok c) {paths : List String} :
    (c.countAll paths).unused = [] ↔ ∀ t ∈ ts, ∃ p ∈ paths, TextCovers t p := by
  simp only [List.eq_nil_iff_forall_not_mem, mem_unused_ofTexts h, not_and, not_forall, not_not,
    exists_prop]

end Coverage

end DiagnosticGate
