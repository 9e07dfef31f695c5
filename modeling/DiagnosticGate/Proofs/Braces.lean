import DiagnosticGate.Proofs.Globstar

/-!
Groups of alternatives.

A group in braces is read as one token, whose branches are the texts between its commas. An empty
branch is left out of the choice, so a group of empty branches stands for the empty text. An entry
with one group of plain texts thus covers the paths that have one of its other branches in the place
of the group.
-/

namespace DiagnosticGate.Glob

open Text

/-! ### Reading a group -/

/-- Every character of the text stands for itself, inside a group too. -/
def Plain (s : List Char) : Prop := ∀ c ∈ s, c ∉ specials ∧ c ≠ '*' ∧ c ≠ ','

instance (s : List Char) : Decidable (Plain s) :=
  decidable_of_iff (s.all fun c => c ∉ specials ∧ c ≠ '*' ∧ c ≠ ',') (by simp [Plain])

/-- the tokens of a text whose characters stand for themselves -/
def literals (s : List Char) : List Token := s.map .literal

section

variable {s b rest : List Char} {bs : List (List Char)} {prev : Option Char} {d : Draft}
variable {ts before : List Token} {closed : List (List Token)} {gs : List Frame}

theorem readTokens_open :
    readTokens prev d ('\x7b' :: rest) = readTokens (some '\x7b') d.openGroup rest := by
  rw [readTokens]

theorem readTokens_comma : readTokens prev ⟨ts, ⟨before, closed⟩ :: gs⟩ (',' :: rest) =
    readTokens (some ',') ⟨[], ⟨before, ts.reverse :: closed⟩ :: gs⟩ rest := by
  rw [readTokens]
  rfl

theorem readTokens_close : readTokens prev ⟨ts, ⟨before, closed⟩ :: gs⟩ ('\x7d' :: rest) =
    readTokens (some '\x7d') ⟨.choice (ts.reverse :: closed).reverse :: before, gs⟩ rest := by
  rw [readTokens]
  rfl

theorem readTokens_literals (hs : Plain s) : ∃ p, readTokens prev ⟨ts, gs⟩ (s ++ rest) =
    readTokens p ⟨(literals s).reverse ++ ts, gs⟩ rest := by
  induction s generalizing prev ts with
  | nil => exact ⟨prev, rfl⟩
  | cons c s ih =>
    obtain ⟨⟨hc, hstar, hcomma⟩, hs⟩ := List.forall_mem_cons.1 hs
    obtain ⟨p, hp⟩ := @ih (some c) (.literal c :: ts) hs
    refine ⟨p, ?_⟩
    rw [List.cons_append, readTokens_plain hc hstar hcomma, Draft.push, hp]
    simp [literals]

/-- **The branches of a group are the texts between its commas.** -/
theorem readTokens_branches (h : ∀ s ∈ b :: bs, Plain s) :
    ∃ p, readTokens prev ⟨[], ⟨before, closed⟩ :: gs⟩
        ([','].intercalate (b :: bs) ++ '\x7d' :: rest) =
      readTokens p ⟨.choice (closed.reverse ++ (b :: bs).map literals) :: before, gs⟩ rest := by
  induction bs generalizing b prev closed with
  | nil =>
    obtain ⟨p, hp⟩ := @readTokens_literals b ('\x7d' :: rest) prev [] (⟨before, closed⟩ :: gs)
      (h b List.mem_cons_self)
    refine ⟨some '\x7d', ?_⟩
    rw [List.intercalate_singleton, hp, readTokens_close]
    simp
  | cons b' bs ih =>
    obtain ⟨hb, hbs⟩ := List.forall_mem_cons.1 h
    obtain ⟨p, hp⟩ := @readTokens_literals b
      (',' :: ([','].intercalate (b' :: bs) ++ '\x7d' :: rest)) prev [] (⟨before, closed⟩ :: gs) hb
    obtain ⟨q, hq⟩ := @ih b' (some ',') (literals b :: closed) hbs
    refine ⟨q, ?_⟩
    rw [List.intercalate_cons_cons, List.append_assoc, List.append_assoc, List.singleton_append, hp,
      readTokens_comma, List.append_nil, List.reverse_reverse, hq]
    simp

/-- a text with a group in it -/
def braced (pre : List Char) (branches : List (List Char)) (post : List Char) : List Char :=
  pre ++ '\x7b' :: ([','].intercalate branches ++ '\x7d' :: post)

/-- the tokens of a text with a group in it -/
def bracedTokens (pre : List Char) (branches : List (List Char)) (post : List Char) : List Token :=
  literals pre ++ .choice (branches.map literals) :: literals post

theorem parse_braced {pre post : List Char} {branches : List (List Char)} (hpre : Plain pre)
    (hpost : Plain post) (hbranches : ∀ b ∈ branches, Plain b) (hne : branches ≠ []) :
    parse (braced pre branches post) = .ok (bracedTokens pre branches post) := by
  obtain ⟨b, bs, rfl⟩ := List.exists_cons_of_ne_nil hne
  obtain ⟨p, hp⟩ := @readTokens_literals pre ('\x7b' :: ([','].intercalate (b :: bs) ++ '\x7d' :: post))
    none [] [] hpre
  obtain ⟨q, hq⟩ := @readTokens_branches b post bs (some '\x7b') ((literals pre).reverse ++ []) [] []
    hbranches
  obtain ⟨r, hr⟩ := @readTokens_literals post [] q
    (.choice ((b :: bs).map literals) :: ((literals pre).reverse ++ [])) [] hpost
  have hread : readTokens none .empty (braced pre (b :: bs) post) =
      .ok ⟨(bracedTokens pre (b :: bs) post).reverse, []⟩ := by
    rw [List.append_nil post] at hr
    rw [braced, Draft.empty, hp, readTokens_open, Draft.openGroup, hq, List.reverse_nil,
      List.nil_append, hr, readTokens, bracedTokens]
    simp
  unfold parse
  rw [hread]
  simp [Draft.inGroup, bind, Except.bind]

end

/-! ### What a group takes -/

section

variable {p q : Pattern} {bs : List UInt8} {ts us : List Token} {s : List Char}

theorem matches_append : (tokensPattern (ts ++ us)).Matches bs ↔
    ∃ u v, bs = u ++ v ∧ (tokensPattern ts).Matches u ∧ (tokensPattern us).Matches v := by
  induction ts generalizing bs with
  | nil => simp [tokensPattern, Pattern.Matches]
  | cons t ts ih =>
    simp only [List.cons_append, tokensPattern, matches_andThen, ih]
    constructor
    · rintro ⟨u, _, rfl, hu, v, w, rfl, hv, hw⟩
      exact ⟨u ++ v, w, (List.append_assoc u v w).symm, ⟨u, v, rfl, hu, hv⟩, hw⟩
    · rintro ⟨_, w, rfl, ⟨u, v, rfl, hu, hv⟩, hw⟩
      exact ⟨u, v ++ w, List.append_assoc u v w, hu, v, w, rfl, hv, hw⟩

theorem matches_literals : (tokensPattern (literals s)).Matches bs ↔ bs = encodeChars s := by
  induction s generalizing bs with
  | nil => rfl
  | cons c s ih =>
    rw [literals, List.map_cons, tokensPattern, matches_andThen]
    simp only [matches_literal]
    constructor
    · rintro ⟨_, v, rfl, rfl, hv⟩
      rw [encodeChars_cons, ih.1 hv]
    · rintro rfl
      exact ⟨_, _, encodeChars_cons c s, rfl, ih.2 rfl⟩

theorem matches_alternatives {ps : List Pattern} :
    (Pattern.alternatives ps).Matches bs ↔ (ps = [] ∧ bs = []) ∨ ∃ p ∈ ps, p.Matches bs := by
  fun_induction Pattern.alternatives ps with
  | case1 => simp [Pattern.Matches]
  | case2 p => simp
  | case3 p ps _ ih =>
    have hne : ps ≠ [] := by assumption
    simp [Pattern.Matches, ih, hne]

theorem isEmpty_andThen : (p.andThen q).isEmpty = (p.isEmpty && q.isEmpty) := by
  cases p <;> cases q <;> rfl

theorem isEmpty_literals : (tokensPattern (literals s)).isEmpty ↔ s = [] := by
  cases s with
  | nil => exact iff_of_true rfl rfl
  | cons c s =>
    obtain ⟨b, bs, hbytes, -⟩ := exists_utf8EncodeChar c
    refine iff_of_false ?_ (List.cons_ne_nil c s)
    rw [literals, List.map_cons, tokensPattern, isEmpty_andThen, Token.pattern, hbytes, verbatim,
      isEmpty_andThen]
    exact Bool.false_ne_true

theorem branchPatterns_eq (branches : List (List Token)) :
    branchPatterns branches = branches.map tokensPattern := by
  induction branches with
  | nil => rfl
  | cons b bs ih => rw [branchPatterns, ih, List.map_cons]

/-- **A group takes what one of its nonempty branches takes**, and nothing if all are empty. -/
theorem matches_choice {branches : List (List Char)} :
    (Token.choice (branches.map literals)).pattern.Matches bs ↔
      (∃ b ∈ branches, b ≠ [] ∧ bs = encodeChars b) ∨ (∀ b ∈ branches, b = []) ∧ bs = [] := by
  have hnone : ((branches.map literals).map tokensPattern).filter (fun p => !p.isEmpty) = [] ↔
      ∀ b ∈ branches, b = [] := by
    simp [List.filter_eq_nil_iff, isEmpty_literals]
  have hsome : (∃ p ∈ ((branches.map literals).map tokensPattern).filter (fun p => !p.isEmpty),
      p.Matches bs) ↔ ∃ b ∈ branches, b ≠ [] ∧ bs = encodeChars b := by
    simp only [List.mem_filter, List.mem_map, exists_exists_and_eq_and, and_assoc]
    simp [matches_literals, ← isEmpty_literals]
  rw [Token.pattern, branchPatterns_eq, matches_alternatives, hnone, hsome, or_comm]

/-- **A text with a group takes the texts with one of the branches in the place of the group.** -/
theorem matches_bracedTokens {pre post path : List Char} {branches : List (List Char)} :
    (compile (bracedTokens pre branches post)).Matches (encodeChars path) ↔
      (∃ b ∈ branches, b ≠ [] ∧ path = pre ++ (b ++ post)) ∨
        (∀ b ∈ branches, b = []) ∧ path = pre ++ post := by
  have hplain : bracedTokens pre branches post ≠ [.leading] := by
    cases pre <;> simp [bracedTokens, literals]
  have hparts : (tokensPattern (bracedTokens pre branches post)).Matches (encodeChars path) ↔
      ∃ mid, (Token.choice (branches.map literals)).pattern.Matches mid ∧
        encodeChars path = encodeChars pre ++ (mid ++ encodeChars post) := by
    simp only [bracedTokens, matches_append, tokensPattern, matches_andThen, matches_literals]
    constructor
    · rintro ⟨_, _, hpath, rfl, mid, _, rfl, hmid, rfl⟩
      exact ⟨mid, hmid, hpath⟩
    · rintro ⟨mid, hmid, hpath⟩
      exact ⟨_, _, hpath, rfl, mid, _, rfl, hmid, rfl⟩
  rw [compile_eq hplain, hparts]
  simp only [matches_choice]
  constructor
  · rintro ⟨mid, ⟨b, hb, hne, rfl⟩ | ⟨hall, rfl⟩, hpath⟩
    · refine .inl ⟨b, hb, hne, ?_⟩
      rwa [← encodeChars_append, ← encodeChars_append, encodeChars_inj] at hpath
    · refine .inr ⟨hall, ?_⟩
      rwa [List.nil_append, ← encodeChars_append, encodeChars_inj] at hpath
  · rintro (⟨b, hb, hne, rfl⟩ | ⟨hall, rfl⟩)
    · exact ⟨encodeChars b, .inl ⟨b, hb, hne, rfl⟩, by simp only [encodeChars_append]⟩
    · exact ⟨[], .inr ⟨hall, rfl⟩, encodeChars_append pre post⟩

end

end DiagnosticGate.Glob

namespace DiagnosticGate

open Glob (Plain)

/-! ### What an entry with a group covers -/

/-- the entry with a group of `branches` between `pre` and `post` -/
def bracedEntry (pre : String) (branches : List String) (post : String) : String :=
  pre ++ "\x7b" ++ ",".intercalate branches ++ "\x7d" ++ post

theorem toList_bracedEntry (pre : String) (branches : List String) (post : String) :
    (bracedEntry pre branches post).toList =
      Glob.braced pre.toList (branches.map String.toList) post.toList := by
  simp [bracedEntry, Glob.braced, String.toList_intercalate]

theorem Entry.exists_ofText_braced {pre post : String} {branches : List String}
    (hpre : Plain pre.toList) (hpost : Plain post.toList)
    (hbranches : ∀ b ∈ branches, Plain b.toList) (hne : branches ≠ []) :
    ∃ e, ofText (bracedEntry pre branches post) = .ok e ∧ ∀ path, e.covers path ↔
      (∃ b ∈ branches, b ≠ "" ∧ path = pre ++ b ++ post) ∨
        (∀ b ∈ branches, b = "") ∧ path = pre ++ post := by
  have hglob : isGlob (bracedEntry pre branches post) := by
    rw [isGlob, toList_bracedEntry]
    exact List.any_eq_true.2 ⟨'\x7b', by simp [Glob.braced], rfl⟩
  have hread : Glob.ofText (bracedEntry pre branches post) = .ok (Glob.compile
      (Glob.bracedTokens pre.toList (branches.map String.toList) post.toList)) := by
    rw [Glob.ofText, toList_bracedEntry, Glob.parse_braced hpre hpost (by simpa) (by simpa)]
  refine ⟨⟨_, .glob _, 0⟩, by rw [ofText, if_pos hglob, hread], fun path => ?_⟩
  have hpath (s : String) : path = s ↔ path.toList = s.toList := String.toList_inj.symm
  refine (Glob.Pattern.accepts_iff _ _).trans (Glob.matches_bracedTokens.trans ?_)
  simp only [hpath, String.toList_append, List.append_assoc]
  simp

/-- **A group means its nonempty branches.** An entry with one group of plain texts can always be
held by a coverage. It covers exactly the paths that have a nonempty branch in the place of the
group, and, if all branches are empty, the path without the group. -/
theorem Coverage.covers_bracedEntry_iff {pre post : String} {branches : List String}
    (hpre : Plain pre.toList) (hpost : Plain post.toList)
    (hbranches : ∀ b ∈ branches, Plain b.toList) (hne : branches ≠ []) :
    ∃ c, ofTexts [bracedEntry pre branches post] = .ok c ∧ ∀ path, c.covers path ↔
      (∃ b ∈ branches, b ≠ "" ∧ path = pre ++ b ++ post) ∨
        (∀ b ∈ branches, b = "") ∧ path = pre ++ post := by
  obtain ⟨e, hread, hcovers⟩ := Entry.exists_ofText_braced hpre hpost hbranches hne
  obtain ⟨c, hc⟩ := exists_ofTexts_iff.2 (List.forall_mem_singleton.2 ⟨e, hread⟩)
  refine ⟨c, hc, fun path => ?_⟩
  rw [covers_ofTexts_iff hc, ← hcovers]
  simp [TextCovers, hread]

/-- An empty branch in the middle, a slash in a branch and a character of two bytes. -/
theorem Coverage.covers_bracedEntry_iff_missing : ∃ c, ofTexts ["src/\x7bé/a,,b\x7d.ts"] = .ok c ∧
    c.covers "src/é/a.ts" ∧ c.covers "src/b.ts" ∧ ¬ c.covers "src/.ts" := by
  have hentry : bracedEntry "src/" ["é/a", "", "b"] ".ts" = "src/\x7bé/a,,b\x7d.ts" := by
    decide +kernel
  have hplain : ∀ s ∈ ["src/", ".ts", "é/a", "", "b"], Plain s.toList := by decide +kernel
  have hbranches : ∀ b ∈ ["é/a", "", "b"], Plain b.toList := fun b hb => hplain b (by simp_all)
  obtain ⟨c, hc, hcovers⟩ :=
    covers_bracedEntry_iff (hplain "src/" (by simp)) (hplain ".ts" (by simp)) hbranches (by simp)
  rw [hentry] at hc
  have hslash : c.covers "src/é/a.ts" := (hcovers _).2 (.inl ⟨"é/a", by decide +kernel⟩)
  have hlast : c.covers "src/b.ts" := (hcovers _).2 (.inl ⟨"b", by decide +kernel⟩)
  exact ⟨c, hc, hslash, hlast, fun h => absurd ((hcovers _).1 h) (by decide +kernel)⟩

/-- An empty branch beside another one is no alternative: `a{b,}c` does not cover `ac`. -/
theorem Coverage.not_covers_of_every_branch : ¬ ∀ (pre post : String) (branches : List String),
    Plain pre.toList → Plain post.toList → (∀ b ∈ branches, Plain b.toList) → branches ≠ [] →
    ∃ c, ofTexts [bracedEntry pre branches post] = .ok c ∧
      ∀ path, c.covers path ↔ ∃ b ∈ branches, path = pre ++ b ++ post := by
  intro hall
  have hplain : ∀ s ∈ ["a", "c", "b", ""], Plain s.toList := by decide +kernel
  obtain ⟨c, hc, hcovers⟩ := hall "a" "c" ["b", ""] (hplain "a" (by simp)) (hplain "c" (by simp))
    (fun b hb => hplain b (by simp_all)) (by simp)
  have hanswer : (ofTexts [bracedEntry "a" ["b", ""] "c"]).map (·.covers "ac") = .ok false := by
    decide +kernel
  rw [hc] at hanswer
  have hno : c.covers "ac" = false := Except.ok.inj hanswer
  have hyes : c.covers "ac" := (hcovers "ac").2 ⟨"", by decide +kernel⟩
  rw [hno] at hyes
  cases hyes

end DiagnosticGate
