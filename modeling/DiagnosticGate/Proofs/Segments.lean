import Mathlib.Data.List.Basic

/-!
Paths by their segments.

An entry can be read segment by segment. `**` stands for segments, and in every other segment a star
stands for a run of characters; so a text and a path match exactly if their segments do.
-/

namespace DiagnosticGate

/-- the parts of a text between its slashes -/
def segments (text : List Char) : List (List Char) := text.splitOn '/'

/-- the segment that stands for segments -/
def globstar : List Char := ['*', '*']

/-- whether a segment of an entry stands for a segment of a path -/
inductive SegmentMatches : List Char → List Char → Prop
  | nil : SegmentMatches [] []
  /-- A star stands for any run of characters. -/
  | star {s p : List Char} (run : List Char) (rest : SegmentMatches s p) :
    SegmentMatches ('*' :: s) (run ++ p)
  /-- Every other character stands for itself. -/
  | char {c : Char} {s p : List Char} (h : c ≠ '*') (rest : SegmentMatches s p) :
    SegmentMatches (c :: s) (c :: p)

/-- whether the segments of an entry stand for those of a path -/
inductive PathMatches : List (List Char) → List (List Char) → Prop
  | nil : PathMatches [] []
  | segment {s p : List Char} {ss ps : List (List Char)} (h : s ≠ globstar)
    (first : SegmentMatches s p) (rest : PathMatches ss ps) : PathMatches (s :: ss) (p :: ps)
  /-- At the end, a globstar stands for at least one segment. -/
  | last {ps : List (List Char)} (h : ps ≠ []) : PathMatches [globstar] ps
  /-- Before other segments, it stands for any number of them. -/
  | across {s : List Char} {ss ps : List (List Char)} (run : List (List Char))
    (rest : PathMatches (s :: ss) ps) : PathMatches (globstar :: s :: ss) (run ++ ps)

/-! ### Segments of a text -/

section

variable {cs u w r : List Char} {us vs : List (List Char)}

theorem segments_ne_nil : segments cs ≠ [] := List.splitOn_ne_nil _ _

theorem segments_of_notMem (h : '/' ∉ cs) : segments cs = [cs] := List.splitOn_eq_singleton h

theorem segments_append_slash : segments (w ++ '/' :: r) = segments w ++ segments r :=
  List.splitOn_append_cons_self w r

theorem segments_first (h : '/' ∉ u) : segments (u ++ '/' :: r) = u :: segments r := by
  rw [segments_append_slash, segments_of_notMem h]
  rfl

/-- **A text is one segment, or a segment, a slash and a text.** -/
theorem segments_cases (cs : List Char) : ('/' ∉ cs ∧ segments cs = [cs]) ∨
    ∃ u r, cs = u ++ '/' :: r ∧ '/' ∉ u ∧ segments cs = u :: segments r := by
  by_cases h : '/' ∈ cs
  · obtain ⟨u, r, rfl, hu⟩ := List.eq_append_cons_of_mem h
    exact .inr ⟨u, r, rfl, hu, segments_first hu⟩
  · exact .inl ⟨h, segments_of_notMem h⟩

/-- Induction over a text by its parts between separators. -/
theorem parts_induction (sep : Char) {motive : List Char → Prop} (one : ∀ s, sep ∉ s → motive s)
    (more : ∀ s r, sep ∉ s → motive r → motive (s ++ sep :: r)) (cs : List Char) : motive cs := by
  induction hn : cs.length using Nat.strongRecOn generalizing cs with
  | ind n ih =>
    by_cases h : sep ∈ cs
    · obtain ⟨u, r, rfl, hu⟩ := List.eq_append_cons_of_mem h
      exact more u r hu (ih r.length (by rw [← hn, List.length_append, List.length_cons]; omega) r rfl)
    · exact one cs h

/-- Induction over a text by its segments. -/
theorem segments_induction {motive : List Char → Prop} (one : ∀ s, '/' ∉ s → motive s)
    (more : ∀ s r, '/' ∉ s → motive r → motive (s ++ '/' :: r)) (cs : List Char) : motive cs :=
  parts_induction '/' one more cs

theorem mem_of_mem_segments {s : List Char} {c : Char} (h : s ∈ segments cs) (hc : c ∈ s) :
    c ∈ cs ∧ c ≠ '/' := by
  induction cs using segments_induction with
  | one u hu =>
    rw [segments_of_notMem hu, List.mem_singleton] at h
    subst h
    exact ⟨hc, fun heq => hu (heq ▸ hc)⟩
  | more u r hu ih =>
    rw [segments_first hu] at h
    rcases List.mem_cons.1 h with rfl | h
    · exact ⟨List.mem_append_left _ hc, fun heq => hu (heq ▸ hc)⟩
    · obtain ⟨hmem, hne⟩ := ih h
      exact ⟨List.mem_append_right u (List.mem_cons_of_mem _ hmem), hne⟩

theorem getLast?_of_segments (h : (segments cs).getLast? = some []) :
    cs = [] ∨ cs.getLast? = some '/' := by
  induction cs using segments_induction with
  | one s hs =>
    rw [segments_of_notMem hs, List.getLast?_singleton] at h
    exact .inl (Option.some.inj h)
  | more s r hs ih =>
    obtain ⟨s', ss, hss⟩ := List.exists_cons_of_ne_nil (@segments_ne_nil r)
    rw [segments_first hs, hss, List.getLast?_cons_cons, ← hss] at h
    right
    rcases ih h with rfl | hr
    · exact List.getLast?_concat
    · rw [List.getLast?_append, List.getLast?_cons, hr]
      rfl

theorem segments_injective {ds : List Char} (h : segments cs = segments ds) : cs = ds := by
  have hjoin : ∀ text : List Char, ['/'].intercalate (segments text) = text :=
    fun text => List.intercalate_splitOn '/'
  rw [← hjoin cs, ← hjoin ds, h]

/-- Segments that stand behind others are those of the text behind a slash. -/
theorem exists_of_segments_eq_append (h : segments cs = us ++ vs) (hus : us ≠ []) (hvs : vs ≠ []) :
    ∃ w r, cs = w ++ '/' :: r ∧ segments r = vs := by
  induction us generalizing cs with
  | nil => exact absurd rfl hus
  | cons p us ih =>
    rcases segments_cases cs with ⟨-, hseg⟩ | ⟨u, r, rfl, -, hseg⟩ <;> rw [hseg] at h <;>
      obtain ⟨rfl, hrest⟩ := List.cons.inj h
    · exact absurd (List.append_eq_nil_iff.1 hrest.symm).2 hvs
    · cases us with
      | nil => exact ⟨u, r, rfl, hrest⟩
      | cons q us =>
        obtain ⟨w, x, rfl, hx⟩ := ih hrest (List.cons_ne_nil q us)
        exact ⟨u ++ '/' :: w, x, by simp, hx⟩

end

/-! ### Matching segments -/

section

variable {s p pre post : List Char} {ss ps : List (List Char)}

theorem segmentMatches_star :
    SegmentMatches ('*' :: s) p ↔ ∃ run rest, p = run ++ rest ∧ SegmentMatches s rest := by
  constructor
  · intro h
    cases h with
    | star run rest => exact ⟨run, _, rfl, rest⟩
    | char h _ => exact absurd rfl h
  · rintro ⟨run, rest, rfl, h⟩
    exact .star run h

theorem segmentMatches_char {c : Char} (hc : c ≠ '*') :
    SegmentMatches (c :: s) p ↔ ∃ rest, p = c :: rest ∧ SegmentMatches s rest := by
  constructor
  · intro h
    cases h with
    | star run rest => exact absurd rfl hc
    | char _ rest => exact ⟨_, rfl, rest⟩
  · rintro ⟨rest, rfl, h⟩
    exact .char hc h

theorem segmentMatches_stars : SegmentMatches (pre ++ '*' :: '*' :: post) p ↔
    SegmentMatches (pre ++ '*' :: post) p := by
  induction pre generalizing p with
  | nil =>
    simp only [List.nil_append, segmentMatches_star]
    constructor
    · rintro ⟨u, _, rfl, v, rest, rfl, h⟩
      exact ⟨u ++ v, rest, (List.append_assoc u v rest).symm, h⟩
    · rintro ⟨u, rest, rfl, h⟩
      exact ⟨u, rest, rfl, [], rest, rfl, h⟩
  | cons c pre ih =>
    by_cases hc : c = '*'
    · subst hc
      simp only [List.cons_append, segmentMatches_star, ih]
    · simp only [List.cons_append, segmentMatches_char hc, ih]

theorem segmentMatches_of_notMem (h : '*' ∉ s) : SegmentMatches s p ↔ p = s := by
  induction s generalizing p with
  | nil =>
    constructor
    · intro hm
      cases hm
      rfl
    · rintro rfl
      exact .nil
  | cons c s ih =>
    obtain ⟨hc, hs⟩ := not_or.1 (mt List.mem_cons.2 h)
    rw [segmentMatches_char (Ne.symm hc)]
    simp only [ih hs, exists_eq_right]

theorem pathMatches_segment (hs : s ≠ globstar) : PathMatches (s :: ss) ps ↔
    ∃ p rest, ps = p :: rest ∧ SegmentMatches s p ∧ PathMatches ss rest := by
  constructor
  · intro h
    cases h with
    | segment _ first rest => exact ⟨_, _, rfl, first, rest⟩
    | last _ => exact absurd rfl hs
    | across _ _ => exact absurd rfl hs
  · rintro ⟨p, rest, rfl, hp, hrest⟩
    exact .segment hs hp hrest

theorem pathMatches_last : PathMatches [globstar] ps ↔ ps ≠ [] := by
  constructor
  · intro h
    cases h with
    | segment h _ _ => exact absurd rfl h
    | last h => exact h
  · exact .last

theorem pathMatches_across : PathMatches (globstar :: s :: ss) ps ↔
    ∃ run rest, ps = run ++ rest ∧ PathMatches (s :: ss) rest := by
  constructor
  · intro h
    cases h with
    | segment h _ _ => exact absurd rfl h
    | across run rest => exact ⟨run, _, rfl, rest⟩
  · rintro ⟨run, rest, rfl, h⟩
    exact .across run h

theorem PathMatches.ne_nil (h : PathMatches (s :: ss) ps) : ps ≠ [] := by
  generalize hall : s :: ss = all at h
  induction h generalizing s ss with
  | nil => cases hall
  | segment _ _ _ => exact List.cons_ne_nil _ _
  | last h => exact h
  | across run rest ih => exact List.append_ne_nil_of_right_ne_nil run (ih rfl)

theorem pathMatches_globstars :
    PathMatches (globstar :: globstar :: ss) ps ↔ PathMatches (globstar :: ss) ps := by
  cases ss with
  | nil =>
    rw [pathMatches_across, pathMatches_last]
    constructor
    · rintro ⟨run, rest, rfl, h⟩
      exact List.append_ne_nil_of_right_ne_nil run h.ne_nil
    · exact fun h => ⟨[], ps, rfl, .last h⟩
  | cons s ss =>
    simp only [pathMatches_across]
    constructor
    · rintro ⟨u, _, rfl, v, rest, rfl, h⟩
      exact ⟨u ++ v, rest, (List.append_assoc u v rest).symm, h⟩
    · rintro ⟨u, rest, rfl, h⟩
      exact ⟨u, rest, rfl, [], rest, rfl, h⟩

theorem pathMatches_of_all (h : ∀ t ∈ s :: ss, t = globstar) (hps : ps ≠ []) :
    PathMatches (s :: ss) ps := by
  induction ss generalizing s with
  | nil =>
    rw [h s List.mem_cons_self]
    exact .last hps
  | cons t ss ih =>
    rw [h s List.mem_cons_self]
    exact .across [] (ih fun t ht => h t (List.mem_cons_of_mem s ht))

theorem pathMatches_of_notMem (h : ∀ s ∈ ss, '*' ∉ s) : PathMatches ss ps ↔ ps = ss := by
  induction ss generalizing ps with
  | nil =>
    constructor
    · intro hm
      cases hm
      rfl
    · rintro rfl
      exact .nil
  | cons s ss ih =>
    obtain ⟨hs, hss⟩ := List.forall_mem_cons.1 h
    have hne : s ≠ globstar := by
      rintro rfl
      exact hs List.mem_cons_self
    rw [pathMatches_segment hne]
    simp only [segmentMatches_of_notMem hs, ih hss]
    constructor
    · rintro ⟨-, -, rfl, rfl, rfl⟩
      rfl
    · rintro rfl
      exact ⟨s, ss, rfl, rfl, rfl⟩

end

/-! ### Matching texts -/

section

variable {cs s : List Char} {ss : List (List Char)}

theorem pathMatches_segments_single (hs : s ≠ globstar) :
    PathMatches [s] (segments cs) ↔ '/' ∉ cs ∧ SegmentMatches s cs := by
  rw [pathMatches_segment hs]
  rcases segments_cases cs with ⟨hcs, hseg⟩ | ⟨u, r, rfl, -, hseg⟩ <;> rw [hseg]
  · simp [hcs, pathMatches_of_notMem]
  · simp [pathMatches_of_notMem, segments_ne_nil]

theorem pathMatches_segments_cons (hs : s ≠ globstar) (hss : ss ≠ []) :
    PathMatches (s :: ss) (segments cs) ↔ ∃ u r, cs = u ++ '/' :: r ∧
      ('/' ∉ u ∧ SegmentMatches s u) ∧ PathMatches ss (segments r) := by
  rw [pathMatches_segment hs]
  obtain ⟨t, ss, rfl⟩ := List.exists_cons_of_ne_nil hss
  constructor
  · rintro ⟨p, rest, hps, hp, hrest⟩
    rcases segments_cases cs with ⟨-, hseg⟩ | ⟨u, r, rfl, hu, hseg⟩ <;> rw [hseg] at hps <;>
      obtain ⟨rfl, rfl⟩ := List.cons.inj hps
    · exact absurd rfl hrest.ne_nil
    · exact ⟨u, r, rfl, ⟨hu, hp⟩, hrest⟩
  · rintro ⟨u, r, rfl, ⟨hu, hp⟩, hrest⟩
    exact ⟨u, segments r, segments_first hu, hp, hrest⟩

/-- **A globstar stands for nothing or for what ends with some slash.** -/
theorem pathMatches_segments_across : PathMatches (globstar :: s :: ss) (segments cs) ↔
    PathMatches (s :: ss) (segments cs) ∨
      ∃ w r, cs = w ++ '/' :: r ∧ PathMatches (s :: ss) (segments r) := by
  rw [pathMatches_across]
  constructor
  · rintro ⟨run, rest, hcs, h⟩
    cases run with
    | nil => exact .inl (hcs ▸ h)
    | cons p run =>
      obtain ⟨w, r, rfl, hr⟩ := exists_of_segments_eq_append hcs (List.cons_ne_nil p run) h.ne_nil
      exact .inr ⟨w, r, rfl, hr ▸ h⟩
  · rintro (h | ⟨w, r, rfl, h⟩)
    · exact ⟨[], segments cs, rfl, h⟩
    · exact ⟨segments w, segments r, segments_append_slash, h⟩

end

end DiagnosticGate
