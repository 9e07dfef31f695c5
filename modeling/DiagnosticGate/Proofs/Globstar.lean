import DiagnosticGate.Proofs.Characters
import DiagnosticGate.Proofs.Coverage
import DiagnosticGate.Proofs.Segments

/-!
Globs by their segments.

An entry is read character by character, and what `**` becomes depends on what stands around it. Read
segment by segment, its tokens are those of the segments with the separators between them, where the
separator before a globstar has been replaced. So an entry of literals and stars covers a path exactly
if its segments match those of the path.
-/

namespace DiagnosticGate.Glob

/-! ### The tokens of segments -/

/-- the tokens of a segment that is no globstar -/
def segmentTokens (s : List Char) : List Token :=
  s.map fun c => if c = '*' then .anyRun else .literal c

/-- what stands before a segment -/
inductive Separator
  | start
  | slash
  /-- globstars at the start -/
  | leading
  /-- a slash and globstars -/
  | between
  deriving Repr, DecidableEq

namespace Separator

def tokens : Separator → List Token
  | start => []
  | slash => [.literal '/']
  | leading => [.leading]
  | between => [.between]

/-- what stands before the segment behind a globstar -/
def across : Separator → Separator
  | start | leading => leading
  | slash | between => between

/-- the tokens of a globstar at the end -/
def last : Separator → List Token
  | start | leading => [.leading]
  | slash | between => [.trailing]

/-- the character before the segment -/
def character : Separator → Option Char
  | start => none
  | slash | leading | between => some '/'

end Separator

/-- the tokens of segments and of what stands before them -/
def pathTokens (sep : Separator) : List (List Char) → List Token
  | [] => sep.tokens
  | [s] => if s = globstar then sep.last else sep.tokens ++ segmentTokens s
  | s :: s' :: ss =>
    if s = globstar then pathTokens sep.across (s' :: ss)
    else sep.tokens ++ segmentTokens s ++ pathTokens .slash (s' :: ss)

section

variable {sep : Separator} {s : List Char} {ss : List (List Char)}

theorem pathTokens_cons (h : ss ≠ []) : pathTokens sep (s :: ss) =
    if s = globstar then pathTokens sep.across ss
    else sep.tokens ++ segmentTokens s ++ pathTokens .slash ss := by
  cases ss with
  | nil => exact absurd rfl h
  | cons s' ss => rw [pathTokens]

theorem isWhole_segmentTokens : ∀ u ∈ segmentTokens s, u.isWhole := by
  simp only [segmentTokens, List.forall_mem_map]
  intro c _
  split <;> rfl

theorem isWhole_pathTokens : ∀ u ∈ pathTokens sep ss, u.isWhole := by
  have htokens : ∀ sep : Separator, ∀ u ∈ sep.tokens, u.isWhole := by
    intro sep
    cases sep <;> simp [Separator.tokens, Token.isWhole]
  fun_induction pathTokens sep ss with
  | case1 sep => exact htokens sep
  | case2 sep => cases sep <;> exact List.forall_mem_singleton.2 rfl
  | case3 sep s hs => exact List.forall_mem_append.2 ⟨htokens sep, isWhole_segmentTokens⟩
  | case4 _ _ _ ih => exact ih
  | case5 sep s s' ss hs ih =>
    exact List.forall_mem_append.2
      ⟨List.forall_mem_append.2 ⟨htokens sep, isWhole_segmentTokens⟩, ih⟩

end

/-! ### Reading by segments -/

/-- the characters with a meaning in a glob, a star and a comma apart -/
def specials : List Char := ['?', '\x7b', '\x7d', '[', ']', '\\']

section

variable {c : Char} {cs rest s : List Char} {prev next : Option Char} {sep : Separator}
variable {ts : List Token}

theorem readTokens_plain {d : Draft} (hc : c ∉ specials) (hstar : c ≠ '*') (hcomma : c ≠ ',') :
    readTokens prev d (c :: cs) = readTokens (some c) (d.push (.literal c)) cs := by
  simp only [specials, List.mem_cons, List.not_mem_nil, or_false, not_or] at hc
  rw [readTokens]
  all_goals simp_all

theorem readTokens_literal (hc : c ∉ specials) (hstar : c ≠ '*') :
    readTokens prev ⟨ts, []⟩ (c :: cs) = readTokens (some c) ⟨.literal c :: ts, []⟩ cs := by
  by_cases hcomma : c = ','
  · subst hcomma
    rw [readTokens]
    rfl
  · exact readTokens_plain hc hstar hcomma

theorem readTokens_star (h : cs.head? ≠ some '*') :
    readTokens prev ⟨ts, []⟩ ('*' :: cs) = readTokens (some '*') ⟨.anyRun :: ts, []⟩ cs := by
  rw [readTokens]
  · rfl
  · rintro rest rfl
    exact h rfl

theorem readTokens_stars {d : Draft} : readTokens prev d ('*' :: '*' :: cs) =
    if (d.doubleStar prev cs.head?).2 then readTokens (some '/') (d.doubleStar prev cs.head?).1 cs.tail
    else readTokens (some '*') (d.doubleStar prev cs.head?).1 cs := by
  rw [readTokens]

/-- Behind a character of its own segment, `**` is two stars. -/
theorem doubleStar_inside (hts : ts ≠ []) (hprev : prev ≠ some '/') :
    Draft.doubleStar ⟨ts, []⟩ prev next = (⟨.anyRun :: .anyRun :: ts, []⟩, false) := by
  simp [Draft.doubleStar, Draft.push, Draft.inGroup, hts, hprev]

theorem doubleStar_glued (hc : c ≠ '/') :
    Draft.doubleStar ⟨ts, []⟩ prev (some c) = (⟨.anyRun :: .anyRun :: ts, []⟩, false) := by
  simp [Draft.doubleStar, Draft.push, Draft.inGroup, hc]

theorem doubleStar_end (h : sep = .start → ts = []) :
    Draft.doubleStar ⟨sep.tokens ++ ts, []⟩ sep.character none = (⟨sep.last ++ ts, []⟩, false) := by
  cases sep with
  | start =>
    obtain rfl := h rfl
    rfl
  | _ => rfl

theorem doubleStar_across (h : sep = .start → ts = []) :
    Draft.doubleStar ⟨sep.tokens ++ ts, []⟩ sep.character (some '/') =
      (⟨sep.across.tokens ++ ts, []⟩, true) := by
  cases sep with
  | start =>
    obtain rfl := h rfl
    rfl
  | _ => rfl

/-- Induction over a text as its stars are read, two at a time. -/
theorem stars_induction {motive : List Char → Prop} (nil : motive [])
    (two : ∀ s, motive s → motive ('*' :: '*' :: s))
    (one : ∀ s, s.head? ≠ some '*' → motive s → motive ('*' :: s))
    (other : ∀ c s, c ≠ '*' → motive s → motive (c :: s)) (s : List Char) : motive s := by
  induction hn : s.length using Nat.strongRecOn generalizing s with
  | ind n ih =>
    cases s with
    | nil => exact nil
    | cons c s =>
      rw [List.length_cons] at hn
      have hs : motive s := ih s.length (by omega) s rfl
      by_cases hc : c = '*'
      · subst hc
        by_cases hnext : s.head? = some '*'
        · obtain ⟨s, rfl⟩ := List.head?_eq_some_iff.1 hnext
          rw [List.length_cons] at hn
          exact two s (ih s.length (by omega) s rfl)
        · exact one s hnext hs
      · exact other c s hc hs

/-- **What is no globstar is read as the tokens of its characters**: a segment, wherever it stands, and
the rest of a segment behind a character of its own. -/
theorem readTokens_segment (hs : ∀ c ∈ s, c ∉ specials ∧ c ≠ '/') (hrest : rest.head? ≠ some '*')
    (h : s ≠ globstar ∨ ts ≠ [] ∧ prev ≠ some '/') :
    ∃ p, readTokens prev ⟨ts, []⟩ (s ++ rest) =
      readTokens p ⟨(segmentTokens s).reverse ++ ts, []⟩ rest := by
  have hstar : some '*' ≠ some '/' := by decide
  induction s using stars_induction generalizing prev ts with
  | nil => exact ⟨prev, rfl⟩
  | two s ih =>
    obtain ⟨-, hs⟩ := List.forall_mem_cons.1 (List.forall_mem_cons.1 hs).2
    have hruns : Draft.doubleStar ⟨ts, []⟩ prev (s ++ rest).head? =
        (⟨.anyRun :: .anyRun :: ts, []⟩, false) := by
      rcases h with hne | ⟨hts, hprev⟩
      · cases s with
        | nil => exact absurd rfl hne
        | cons c s => exact doubleStar_glued (hs c List.mem_cons_self).2
      · exact doubleStar_inside hts hprev
    obtain ⟨p, hp⟩ := ih hs (.inr ⟨List.cons_ne_nil .anyRun (.anyRun :: ts), hstar⟩)
    refine ⟨p, ?_⟩
    rw [List.cons_append, List.cons_append, readTokens_stars, hruns, if_neg Bool.false_ne_true, hp]
    simp [segmentTokens]
  | one s hnext ih =>
    have hhead : (s ++ rest).head? ≠ some '*' := by
      cases s with
      | nil => exact hrest
      | cons _ _ => exact hnext
    obtain ⟨p, hp⟩ := ih (List.forall_mem_cons.1 hs).2 (.inr ⟨List.cons_ne_nil .anyRun ts, hstar⟩)
    refine ⟨p, ?_⟩
    rw [List.cons_append, readTokens_star hhead, hp]
    simp [segmentTokens]
  | other c s hc ih =>
    obtain ⟨⟨hplain, hslash⟩, hs⟩ := List.forall_mem_cons.1 hs
    have hbehind : some c ≠ some '/' := by simpa using hslash
    obtain ⟨p, hp⟩ := ih hs (.inr ⟨List.cons_ne_nil (.literal c) ts, hbehind⟩)
    refine ⟨p, ?_⟩
    rw [List.cons_append, readTokens_literal hplain hc, hp]
    simp [segmentTokens, hc]

/-- **A text is read as the tokens of its segments**, behind any separator. -/
theorem readTokens_path (hcs : ∀ c ∈ cs, c ∉ specials) (h : sep = .start → ts = []) :
    readTokens sep.character ⟨sep.tokens ++ ts, []⟩ cs =
      .ok ⟨(pathTokens sep (segments cs)).reverse ++ ts, []⟩ := by
  have htokens : ∀ sep : Separator, sep.tokens.reverse = sep.tokens := by
    intro sep
    cases sep <;> rfl
  induction cs using segments_induction generalizing sep ts with
  | one s hs =>
    rw [segments_of_notMem hs, pathTokens]
    by_cases hglob : s = globstar
    · have hlast : sep.last.reverse = sep.last := by cases sep <;> rfl
      rw [if_pos hglob, hglob, globstar, readTokens_stars, List.head?_nil, doubleStar_end h,
        if_neg Bool.false_ne_true, readTokens, hlast]
    · have hchars : ∀ c ∈ s, c ∉ specials ∧ c ≠ '/' :=
        fun c hc => ⟨hcs c hc, fun heq => hs (heq ▸ hc)⟩
      obtain ⟨p, hp⟩ := @readTokens_segment [] s sep.character (sep.tokens ++ ts) hchars (by simp)
        (.inl hglob)
      rw [List.append_nil] at hp
      rw [hp, readTokens, if_neg hglob]
      simp [htokens]
  | more s r hs ih =>
    obtain ⟨hcs, hr⟩ := List.forall_mem_append.1 hcs
    obtain ⟨-, hr⟩ := List.forall_mem_cons.1 hr
    rw [segments_first hs, pathTokens_cons segments_ne_nil]
    by_cases hglob : s = globstar
    · have hsep : sep.across ≠ .start ∧ sep.across.character = some '/' := by
        cases sep <;> simp [Separator.across, Separator.character]
      rw [if_pos hglob, ← ih hr fun heq => absurd heq hsep.1, hsep.2, hglob, globstar]
      rw [List.cons_append, List.cons_append, List.nil_append, readTokens_stars, List.head?_cons,
        doubleStar_across h, if_pos rfl, List.tail_cons]
    · have hchars : ∀ c ∈ s, c ∉ specials ∧ c ≠ '/' :=
        fun c hc => ⟨hcs c hc, fun heq => hs (heq ▸ hc)⟩
      obtain ⟨p, hp⟩ := @readTokens_segment ('/' :: r) s sep.character (sep.tokens ++ ts) hchars
        (by simp) (.inl hglob)
      have hslash : Separator.slash ≠ .start := by decide
      have hrest := @ih .slash ((segmentTokens s).reverse ++ (sep.tokens ++ ts)) hr
        fun heq => absurd heq hslash
      rw [hp, readTokens_literal (by decide) (by decide), if_neg hglob]
      rw [Separator.tokens, Separator.character, List.singleton_append] at hrest
      rw [hrest]
      simp [htokens]

theorem parse_eq (hcs : ∀ c ∈ cs, c ∉ specials) :
    parse cs = .ok (pathTokens .start (segments cs)) := by
  have hread := @readTokens_path cs .start [] hcs fun _ => rfl
  unfold parse
  rw [show readTokens none .empty cs = _ from hread]
  simp [Draft.inGroup, bind, Except.bind]

end

/-! ### What the tokens of segments take -/

section

variable {cs s p : List Char} {sep : Separator} {ss : List (List Char)}

theorem leading_notMem_segmentTokens : .leading ∉ segmentTokens s := by
  simp only [segmentTokens, List.mem_map, not_exists, not_and]
  intro c _ heq
  split at heq <;> cases heq

theorem leading_notMem_pathTokens (h : sep = .slash ∨ sep = .between) :
    .leading ∉ pathTokens sep ss := by
  fun_induction pathTokens sep ss with
  | case1 sep => rcases h with rfl | rfl <;> simp [Separator.tokens]
  | case2 sep => rcases h with rfl | rfl <;> simp [Separator.last]
  | case3 sep s hs =>
    rcases h with rfl | rfl <;> simp [Separator.tokens, leading_notMem_segmentTokens]
  | case4 sep _ _ ih => exact ih (by rcases h with rfl | rfl <;> exact .inr rfl)
  | case5 sep s s' ss hs ih =>
    rcases h with rfl | rfl <;> simp [Separator.tokens, leading_notMem_segmentTokens, ih]

theorem takes_anyRun_cons {ts : List Token} : Takes (.anyRun :: ts) cs ↔
    ∃ run rest, cs = run ++ rest ∧ '/' ∉ run ∧ Takes ts rest := Iff.rfl

theorem takes_segmentTokens (hs : '/' ∉ s) :
    Takes (segmentTokens s) p ↔ '/' ∉ p ∧ SegmentMatches s p := by
  induction s generalizing p with
  | nil =>
    constructor
    · intro h
      obtain rfl : p = [] := h
      exact ⟨List.not_mem_nil, .nil⟩
    · rintro ⟨-, h⟩
      cases h
      rfl
  | cons c s ih =>
    obtain ⟨hc, htail⟩ := not_or.1 (mt List.mem_cons.2 hs)
    by_cases hstar : c = '*'
    · subst hstar
      rw [segmentTokens, List.map_cons, if_pos rfl, takes_anyRun_cons, segmentMatches_star]
      constructor
      · rintro ⟨run, rest, rfl, hrun, h⟩
        obtain ⟨hrest, h⟩ := (ih htail).1 h
        exact ⟨by simp [hrun, hrest], run, rest, rfl, h⟩
      · rintro ⟨hp, run, rest, rfl, h⟩
        obtain ⟨hrun, hrest⟩ := not_or.1 (mt List.mem_append.2 hp)
        exact ⟨run, rest, rfl, hrun, (ih htail).2 ⟨hrest, h⟩⟩
    · rw [segmentTokens, List.map_cons, if_neg hstar, takes_literal_cons, segmentMatches_char hstar]
      constructor
      · rintro ⟨rest, rfl, h⟩
        obtain ⟨hrest, h⟩ := (ih htail).1 h
        exact ⟨by simp [hc, hrest], rest, rfl, h⟩
      · rintro ⟨hp, rest, rfl, h⟩
        obtain ⟨-, hrest⟩ := not_or.1 (mt List.mem_cons.2 hp)
        exact ⟨rest, rfl, (ih htail).2 ⟨hrest, h⟩⟩

/-- the texts that segments stand for behind what stands before them -/
def Separator.Stands (ss : List (List Char)) : Separator → List Char → Prop
  | start, cs => PathMatches ss (segments cs)
  | slash, cs => ∃ r, cs = '/' :: r ∧ PathMatches ss (segments r)
  | leading, cs => PathMatches (globstar :: ss) (segments cs)
  | between, cs => ∃ r, cs = '/' :: r ∧ PathMatches (globstar :: ss) (segments r)

/-- A globstar before segments changes what stands before them. -/
theorem stands_across : sep.Stands (globstar :: ss) cs ↔ sep.across.Stands ss cs := by
  cases sep with
  | start | slash => rfl
  | leading => exact pathMatches_globstars
  | between => simp only [Separator.Stands, Separator.across, pathMatches_globstars]

theorem takes_separator {ts : List Token}
    (h : ∀ cs, Takes ts cs ↔ PathMatches (s :: ss) (segments cs)) :
    Takes (sep.tokens ++ ts) cs ↔ sep.Stands (s :: ss) cs := by
  have hleading : ∀ cs, Takes (.leading :: ts) cs ↔
      PathMatches (globstar :: s :: ss) (segments cs) := by
    intro cs
    simp only [takes_leading_cons, h, pathMatches_segments_across]
  cases sep with
  | start => exact h cs
  | slash =>
    simp only [Separator.tokens, List.singleton_append, takes_literal_cons, h, Separator.Stands]
  | leading => exact hleading cs
  | between =>
    simp only [Separator.tokens, List.singleton_append, takes_between_cons, hleading,
      Separator.Stands]

theorem takes_last (h : sep.last ≠ [.leading]) : Takes sep.last cs ↔ sep.Stands [globstar] cs := by
  have hall : ∀ r, PathMatches [globstar] (segments r) := fun r => .last segments_ne_nil
  cases sep with
  | start | leading => exact absurd rfl h
  | slash => exact takes_trailing.trans (by simp [Separator.Stands, hall])
  | between => exact takes_trailing.trans (by simp [Separator.Stands, pathMatches_globstars, hall])

/-- **The tokens of segments take the paths whose segments match**, but for globstars alone. -/
theorem takes_pathTokens (hne : ss ≠ []) (hss : ∀ s ∈ ss, '/' ∉ s)
    (h : pathTokens sep ss ≠ [.leading]) : Takes (pathTokens sep ss) cs ↔ sep.Stands ss cs := by
  induction ss generalizing sep cs with
  | nil => exact absurd rfl hne
  | cons s ss ih =>
    obtain ⟨hfirst, hrest⟩ := List.forall_mem_cons.1 hss
    cases ss with
    | nil =>
      rw [pathTokens] at h ⊢
      by_cases hglob : s = globstar
      · rw [if_pos hglob] at h ⊢
        rw [hglob, takes_last h]
      · rw [if_neg hglob]
        exact takes_separator fun cs =>
          (takes_segmentTokens hfirst).trans (pathMatches_segments_single hglob).symm
    | cons s' ss =>
      have hmore : s' :: ss ≠ [] := List.cons_ne_nil s' ss
      rw [pathTokens] at h ⊢
      by_cases hglob : s = globstar
      · rw [if_pos hglob] at h ⊢
        rw [hglob, ih hmore hrest h, stands_across]
      · have hslash : ∀ cs, Takes (pathTokens .slash (s' :: ss)) cs ↔
            ∃ r, cs = '/' :: r ∧ PathMatches (s' :: ss) (segments r) :=
          fun cs => ih hmore hrest fun heq =>
            leading_notMem_pathTokens (.inl rfl) (heq ▸ List.mem_singleton_self _)
        rw [if_neg hglob, List.append_assoc]
        refine takes_separator fun cs => ?_
        rw [takes_append, pathMatches_segments_cons hglob hmore]
        simp only [takes_segmentTokens hfirst, hslash]
        constructor
        · rintro ⟨u, _, rfl, hu, r, rfl, hr⟩
          exact ⟨u, r, rfl, hu, hr⟩
        · rintro ⟨u, r, rfl, hu, hr⟩
          exact ⟨u, _, rfl, hu, r, rfl, hr⟩

theorem pathTokens_ne_nil (h : sep ≠ .start) : pathTokens sep ss ≠ [] := by
  have htokens : ∀ {sep : Separator}, sep ≠ .start → sep.tokens ≠ [] := by
    intro sep h
    cases sep with
    | start => exact absurd rfl h
    | _ => exact List.cons_ne_nil _ _
  fun_induction pathTokens sep ss with
  | case1 sep => exact htokens h
  | case2 sep => cases sep <;> exact List.cons_ne_nil _ _
  | case3 sep s hs => exact List.append_ne_nil_of_left_ne_nil (htokens h) _
  | case4 sep _ _ ih => exact ih (by cases sep <;> decide)
  | case5 sep s s' ss hs ih =>
    exact List.append_ne_nil_of_left_ne_nil (List.append_ne_nil_of_left_ne_nil (htokens h) _) _

/-- Only globstars, and what ends in a slash, are read as one globstar at the start. -/
theorem pathTokens_eq_leading (hne : ss ≠ []) (h : pathTokens sep ss = [.leading]) :
    (∀ s ∈ ss, s = globstar) ∨ ss.getLast? = some [] := by
  have hnil : ∀ {sep : Separator} {ts}, .leading ∉ ts → sep.tokens ++ ts = [.leading] → ts = [] := by
    intro sep ts hts heq
    cases sep with
    | start =>
      obtain rfl : ts = [.leading] := heq
      exact absurd (List.mem_singleton_self _) hts
    | leading => exact (List.cons.inj heq).2
    | slash | between => cases heq
  fun_induction pathTokens sep ss with
  | case1 sep => exact absurd rfl hne
  | case2 sep => exact .inl (List.forall_mem_singleton.2 rfl)
  | case3 sep s hs =>
    have hs : s = [] := List.map_eq_nil_iff.1 (hnil leading_notMem_segmentTokens h)
    exact .inr (congrArg some hs)
  | case4 sep s' ss ih =>
    rcases ih (List.cons_ne_nil s' ss) h with hall | hlast
    · exact .inl (List.forall_mem_cons.2 ⟨rfl, hall⟩)
    · exact .inr (by rw [List.getLast?_cons_cons, hlast])
  | case5 sep s s' ss hs =>
    rw [List.append_assoc] at h
    have hmore := hnil (by simp [leading_notMem_segmentTokens, leading_notMem_pathTokens]) h
    exact absurd (List.append_eq_nil_iff.1 hmore).2 (pathTokens_ne_nil (by decide))

theorem compile_eq {ts : List Token} (h : ts ≠ [.leading]) : compile ts = tokensPattern ts := by
  unfold compile
  split
  · exact absurd rfl h
  · rfl

/-- **A glob that does not end in a slash matches a path exactly if its segments do.** -/
theorem matches_pathTokens {entry path : List Char} (hend : entry.getLast? ≠ some '/') :
    (compile (pathTokens .start (segments entry))).Matches (Text.encodeChars path) ↔
      PathMatches (segments entry) (segments path) := by
  by_cases h : pathTokens .start (segments entry) = [.leading]
  · have hall : ∀ s ∈ segments entry, s = globstar := by
      rcases pathTokens_eq_leading segments_ne_nil h with hall | hlast
      · exact hall
      · rcases getLast?_of_segments hlast with rfl | hslash
        · cases h
        · exact absurd hslash hend
    obtain ⟨s, ss, hss⟩ := List.exists_cons_of_ne_nil (@segments_ne_nil entry)
    rw [h, hss]
    exact iff_of_true (fun _ _ => rfl) (pathMatches_of_all (hss ▸ hall) segments_ne_nil)
  · have hslash : ∀ s ∈ segments entry, '/' ∉ s := fun s hs hc => (mem_of_mem_segments hs hc).2 rfl
    rw [compile_eq h, matches_encodeChars isWhole_pathTokens,
      takes_pathTokens segments_ne_nil hslash h]
    rfl

end

end DiagnosticGate.Glob

namespace DiagnosticGate

/-- A text without the other special characters of globs is an entry, and what it covers can be read off
its segments. -/
theorem Entry.exists_ofText_of_plain {text : String} (hplain : ∀ c ∈ text.toList, c ∉ Glob.specials)
    (hend : text.toList.getLast? ≠ some '/') :
    ∃ e, ofText text = .ok e ∧
      ∀ path, e.covers path ↔ PathMatches (segments text.toList) (segments path.toList) := by
  by_cases hglob : isGlob text
  · have hread : Glob.ofText text =
        .ok (Glob.compile (Glob.pathTokens .start (segments text.toList))) := by
      rw [Glob.ofText, Glob.parse_eq hplain]
    refine ⟨⟨text, .glob _, 0⟩, by rw [ofText, if_pos hglob, hread], fun path => ?_⟩
    exact (Glob.Pattern.accepts_iff _ _).trans (Glob.matches_pathTokens hend)
  · have hstar : '*' ∉ text.toList := by
      intro hmem
      exact hglob (List.any_eq_true.2 ⟨'*', hmem, rfl⟩)
    have hsegments : ∀ s ∈ segments text.toList, '*' ∉ s :=
      fun s hs hmem => hstar (mem_of_mem_segments hs hmem).1
    refine ⟨⟨text, .path, 0⟩, ofText_of_not_isGlob (by simpa using hglob), fun path => ?_⟩
    rw [pathMatches_of_notMem hsegments]
    simp only [covers, beq_iff_eq]
    constructor
    · rintro rfl
      rfl
    · exact fun h => (String.toList_injective (segments_injective h)).symm

/-- **Entries are matched segment by segment.** An entry without the other special characters of globs
that does not end in a slash can always be held by a coverage, and covers exactly the paths whose
segments match its own. In its segments, stars one after the other are one. -/
theorem Coverage.covers_iff_pathMatches {entry : String}
    (hplain : ∀ c ∈ entry.toList, c ∉ Glob.specials) (hend : entry.toList.getLast? ≠ some '/') :
    (∃ c, ofTexts [entry] = .ok c ∧
      ∀ path, c.covers path ↔ PathMatches (segments entry.toList) (segments path.toList)) ∧
    ∀ pre post p, SegmentMatches (pre ++ '*' :: '*' :: post) p ↔
      SegmentMatches (pre ++ '*' :: post) p := by
  refine ⟨?_, fun pre post p => segmentMatches_stars⟩
  obtain ⟨e, hread, hcovers⟩ := Entry.exists_ofText_of_plain hplain hend
  obtain ⟨c, hc⟩ := exists_ofTexts_iff.2 (List.forall_mem_singleton.2 ⟨e, hread⟩)
  refine ⟨c, hc, fun path => ?_⟩
  rw [covers_ofTexts_iff hc, ← hcovers]
  simp [TextCovers, hread]

/-- Globstars and stars beside each other, and a character of two bytes. -/
theorem Coverage.covers_iff_pathMatches_glued : ∃ c, ofTexts ["**/src/**/v*é**.ts"] = .ok c ∧
    c.covers "src//.a/b/vaéé.x.ts" ∧
    PathMatches (segments "**/src/**/v*é**.ts".toList) (segments "src//.a/b/vaéé.x.ts".toList) ∧
    ¬ PathMatches (segments "**/src/**/v*é**.ts".toList) (segments "src/vé/.ts".toList) := by
  have hall : "**/src/**/v*é**.ts".toList.all fun c => c ∉ Glob.specials := by decide +kernel
  have hplain : ∀ c ∈ "**/src/**/v*é**.ts".toList, c ∉ Glob.specials :=
    fun c hc => of_decide_eq_true (List.all_eq_true.1 hall c hc)
  have hend : "**/src/**/v*é**.ts".toList.getLast? ≠ some '/' := by decide +kernel
  obtain ⟨⟨c, hc, hcovers⟩, -⟩ := covers_iff_pathMatches hplain hend
  have hanswers : (ofTexts ["**/src/**/v*é**.ts"]).map (fun c =>
      (c.covers "src//.a/b/vaéé.x.ts", c.covers "src/vé/.ts")) = .ok (true, false) := by
    decide +kernel
  rw [hc] at hanswers
  obtain ⟨hyes, hno⟩ := Prod.mk.inj (Except.ok.inj hanswers)
  exact ⟨c, hc, hyes, (hcovers _).1 hyes, fun h => Bool.false_ne_true (hno ▸ (hcovers _).2 h)⟩

end DiagnosticGate
