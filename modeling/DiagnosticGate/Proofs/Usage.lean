import DiagnosticGate.Proofs.Coverage
import Mathlib.Data.List.DropRight
import Mathlib.Data.List.Induction

/-!
Counting what is used.

A coverage can be asked about paths, for the hits of an entry and for the entries without hits, and it
can be told to forget all hits. Whatever it was asked and told, the hits of an entry are the questions
about paths that it covers, as many as were asked since the hits were last forgotten.
-/

namespace DiagnosticGate.Coverage

/-! ### Entries and their texts -/

theorem textCovers_iff {text path : String} : TextCovers text path ↔
    if isGlob text then ∃ pattern, Glob.ofText text = .ok pattern ∧ Glob.covers pattern path
    else text = path := by
  unfold TextCovers Entry.ofText
  by_cases hg : isGlob text
  · rw [if_pos hg, if_pos hg]
    cases Glob.ofText text with
    | ok pattern => simp [Entry.covers]
    | error fault => simp
  · rw [if_neg hg, if_neg hg]
    simp [Entry.covers]

instance (text path : String) : Decidable (TextCovers text path) :=
  decidable_of_iff
    ((match Entry.ofText text with
      | .ok e => e.covers path
      | .error _ => false) = true)
    (by unfold TextCovers; cases Entry.ofText text <;> simp)

variable {c d : Coverage} {t : String} {ts paths : List String}

theorem countP_textCovers {e : Entry} (h : Entry.ofText t = .ok e) :
    paths.countP (fun p => TextCovers t p) = paths.countP e.covers := by
  refine List.countP_congr fun p _ => ?_
  simp [TextCovers, h]

theorem texts_addAll_eraseDups (h : c.addAll ts = .ok d) :
    d.entries.map (·.text) = c.entries.map (·.text) ++
      (ts.filter fun t => !(c.entries.map (·.text)).contains t).eraseDups := by
  induction ts generalizing c with
  | nil => cases h; simp
  | cons t ts ih =>
    unfold addAll at h
    split at h
    · rename_i c' hadd
      rw [ih h]
      unfold add at hadd
      split at hadd
      · rename_i hany
        cases hadd
        have hin : (c.entries.map (·.text)).contains t = true := by
          simpa [List.any_eq_true] using hany
        rw [List.filter_cons, hin]
        rfl
      · rename_i hany
        have hout : (c.entries.map (·.text)).contains t = false := by
          simpa [List.any_eq_true] using hany
        split at hadd
        · rename_i e he
          cases hadd
          rw [List.filter_cons, hout, Bool.not_false, if_pos rfl, List.eraseDups_cons,
            List.filter_filter, List.map_append, List.map_singleton, Entry.text_ofText he,
            List.append_assoc, List.singleton_append]
          congr 3
          refine List.filter_congr fun s _ => ?_
          simp [Bool.not_or, Bool.and_comm, beq_eq_decide]
        · cases hadd
    · cases h

/-- **The entries of a coverage stand in the order of the first places of its texts.** -/
theorem texts_eq_eraseDups (h : ofTexts ts = .ok c) : c.entries.map (·.text) = ts.eraseDups := by
  have hall := texts_addAll_eraseDups h
  simpa [empty] using hall

/-! ### Hits -/

theorem find?_ofTexts (h : ofTexts ts = .ok c) :
    (t ∈ ts ∧ ∃ e, Entry.ofText t = .ok e ∧ c.entries.find? (·.text == t) = some e) ∨
      (t ∉ ts ∧ c.entries.find? (·.text == t) = none) := by
  cases hf : c.entries.find? (·.text == t) with
  | none =>
    refine .inr ⟨fun ht => ?_, rfl⟩
    obtain ⟨e, he⟩ := exists_ofTexts_iff.1 ⟨c, h⟩ t ht
    have hno := List.find?_eq_none.1 hf e ((mem_entries_ofTexts h).2 ⟨t, ht, he⟩)
    exact hno (by simp [Entry.text_ofText he])
  | some e =>
    obtain ⟨s, hs, he⟩ := (mem_entries_ofTexts h).1 (List.mem_of_find?_eq_some hf)
    have htext : e.text = t := by simpa using List.find?_some hf
    obtain rfl : s = t := (Entry.text_ofText he).symm.trans htext
    exact .inl ⟨hs, e, he, rfl⟩

/-- **The hits of an entry** are the paths that it covers. -/
theorem hits?_countAll (h : ofTexts ts = .ok c) : (c.countAll paths).hits? t =
    if t ∈ ts then some (paths.countP fun p => TextCovers t p) else none := by
  have hfind : (c.countAll paths).hits? t =
      (c.entries.find? (·.text == t)).map fun e => e.hits + paths.countP e.covers := by
    rw [hits?, entries_countAll, List.find?_map, Option.map_map]
    rfl
  rw [hfind]
  rcases @find?_ofTexts c t ts h with ⟨ht, e, he, hf⟩ | ⟨ht, hf⟩
  · rw [hf, if_pos ht, countP_textCovers he, Option.map_some, Entry.hits_ofText he, Nat.zero_add]
  · rw [hf, if_neg ht, Option.map_none]

/-- **Without hits** are, in order, the texts that cover none of the paths. -/
theorem unused_countAll (h : ofTexts ts = .ok c) : (c.countAll paths).unused =
    ts.eraseDups.filter fun t => paths.countP (fun p => TextCovers t p) == 0 := by
  rw [← texts_eq_eraseDups h, List.filter_map, unused, entries_countAll, List.filter_map,
    List.map_map]
  congr 1
  refine List.filter_congr fun e he => ?_
  have hread := sound_ofTexts h e he
  simp only [Function.comp, countP_textCovers hread, Entry.hits_ofText hread, Nat.zero_add]

/-! ### Questions one after the other -/

/-- what a coverage can be asked and told -/
inductive Query
  /-- whether some entry covers the path; this is counted -/
  | covers (path : String)
  /-- the hits of an entry -/
  | hits (text : String)
  /-- the entries without hits -/
  | unused
  /-- all hits are to be forgotten -/
  | clear

namespace Query

/-- the path that is asked about -/
def path? : Query → Option String
  | covers path => some path
  | hits _ | unused | clear => none

def isClear : Query → Bool
  | clear => true
  | covers _ | hits _ | unused => false

/-- the paths that were asked about since the hits were last forgotten -/
def pathsSinceClear (qs : List Query) : List String :=
  (qs.rtakeWhile fun q => !q.isClear).filterMap path?

theorem pathsSinceClear_concat (qs : List Query) (q : Query) :
    pathsSinceClear (qs ++ [q]) =
      if q.isClear then [] else pathsSinceClear qs ++ q.path?.toList := by
  cases q <;> simp [pathsSinceClear, isClear, path?]

end Query

/-- the answer to a question; what is told has none -/
inductive Answer
  | covered (b : Bool)
  | hits (n : Option Nat)
  | unused (texts : List String)
  | done
  deriving DecidableEq

def answer (c : Coverage) : Query → Answer
  | .covers path => .covered (c.covers path)
  | .hits text => .hits (c.hits? text)
  | .unused => .unused c.unused
  | .clear => .done

/-- the coverage after a question -/
def next (c : Coverage) : Query → Coverage
  | .covers path => c.count path
  | .hits _ | .unused => c
  | .clear => c.clear

/-- the coverage after questions one after the other -/
def after (c : Coverage) (qs : List Query) : Coverage := qs.foldl next c

theorem countAll_concat (c : Coverage) (paths : List String) (path : String) :
    c.countAll (paths ++ [path]) = (c.countAll paths).count path := countAll_append c paths [path]

theorem next_countAll (hc : c.Sound) (qs : List Query) (q : Query) :
    (c.countAll (Query.pathsSinceClear qs)).next q =
      c.countAll (Query.pathsSinceClear (qs ++ [q])) := by
  rw [Query.pathsSinceClear_concat]
  cases q with
  | covers path => exact (countAll_concat c _ path).symm
  | hits text => simp [next, Query.isClear, Query.path?]
  | unused => simp [next, Query.isClear, Query.path?]
  | clear => exact (clear_countAll c _).trans (clear_of_sound hc)

/-- **Whatever was asked, what counts are the paths since the hits were last forgotten.** -/
theorem after_eq_countAll (hc : c.Sound) (qs : List Query) :
    c.after qs = c.countAll (Query.pathsSinceClear qs) := by
  induction qs using List.reverseRecOn with
  | nil => rfl
  | append_singleton qs q ih =>
    rw [← next_countAll hc, ← ih]
    simp [after]

/-- **What a coverage answers.** However it has been asked before, it says that a path is covered
exactly if one of the texts it was built from covers it. The hits of such a text are the questions
about paths that it covers, since the hits were last forgotten, and other texts have none. The
entries without hits are these texts, each at its first place, as far as they cover none of these
paths. -/
theorem answer_after (h : ofTexts ts = .ok c) (qs : List Query) :
    (∀ path, (c.after qs).answer (.covers path) = .covered (decide (∃ t ∈ ts, TextCovers t path))) ∧
    (∀ text, (c.after qs).answer (.hits text) = .hits (if text ∈ ts then
      some ((Query.pathsSinceClear qs).countP fun p => TextCovers text p) else none)) ∧
    (c.after qs).answer .unused = .unused (ts.eraseDups.filter fun t =>
      (c.after qs).answer (.hits t) = .hits (some 0)) ∧
    ∀ text path, TextCovers text path ↔
      if isGlob text then ∃ pattern, Glob.ofText text = .ok pattern ∧ Glob.covers pattern path
      else text = path := by
  have hafter := after_eq_countAll (sound_ofTexts h) qs
  have hhits : ∀ text, (c.after qs).answer (.hits text) = .hits (if text ∈ ts then
      some ((Query.pathsSinceClear qs).countP fun p => TextCovers text p) else none) := by
    intro text
    rw [answer, hafter, hits?_countAll h]
  refine ⟨fun path => ?_, hhits, ?_, fun text path => textCovers_iff⟩
  · have hcovers : c.covers path = decide (∃ t ∈ ts, TextCovers t path) := by
      rw [Bool.eq_iff_iff, covers_ofTexts_iff h, decide_eq_true_iff]
    rw [answer, hafter, covers_countAll, hcovers]
  · rw [answer, hafter, unused_countAll h, ← hafter]
    congr 1
    refine List.filter_congr fun t ht => ?_
    rw [hhits, if_pos (List.mem_eraseDups.1 ht), beq_eq_decide]
    simp only [Answer.hits.injEq, Option.some.injEq]

/-- questions of which the first is forgotten and the last is the text of a glob -/
def shadowedQueries : List Query :=
  [.covers "lib/a.ts", .clear, .covers "app/file.ts", .hits "lib/*.ts", .covers "app/*.ts"]

/-- A path that is an entry counts for the globs that cover it too, and the text of a glob counts for
the glob only. -/
theorem answer_after_shadowed :
    ∃ c, ofTexts ["app/*.ts", "app/file.ts", "lib/*.ts", "app/*.ts"] = .ok c ∧
      (c.after shadowedQueries).answer (.covers "app/b.ts") = .covered true ∧
      (c.after shadowedQueries).answer (.hits "app/*.ts") = .hits (some 2) ∧
      (c.after shadowedQueries).answer (.hits "app/file.ts") = .hits (some 1) ∧
      (c.after shadowedQueries).answer (.hits "app/b.ts") = .hits none ∧
      (c.after shadowedQueries).answer .unused = .unused ["lib/*.ts"] := by
  obtain ⟨c, h⟩ : ∃ c, ofTexts ["app/*.ts", "app/file.ts", "lib/*.ts", "app/*.ts"] = .ok c := by
    rw [exists_ofTexts_iff]
    have hread : ∀ t ∈ ["app/*.ts", "app/file.ts", "lib/*.ts", "app/*.ts"],
        (Entry.ofText t).isOk := by decide +kernel
    intro t ht
    cases he : Entry.ofText t with
    | ok e => exact ⟨e, rfl⟩
    | error f => exact absurd (hread t ht) (by rw [he]; exact Bool.false_ne_true)
  obtain ⟨hcovers, hhits, hunused, -⟩ := answer_after h shadowedQueries
  simp only [hhits] at hunused
  refine ⟨c, h, ?_, ?_, ?_, ?_, ?_⟩
  · rw [hcovers]
    decide +kernel
  · rw [hhits]
    decide +kernel
  · rw [hhits]
    decide +kernel
  · rw [hhits]
    decide +kernel
  · rw [hunused]
    decide +kernel

end DiagnosticGate.Coverage
