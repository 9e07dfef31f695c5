import DiagnosticGate.Proofs.Globstar
import Mathlib.Data.List.Forall2

/-!
Question marks.

A question mark takes one byte, so it can begin or end inside a character. No other character of an
entry starts there, and what is left of the character is taken by question marks alone. So a character
other than the slash stands behind as many question marks as it has bytes, and one question mark is a
whole character only where that has one byte.
-/

namespace DiagnosticGate

/-! ### Texts with question marks -/

/-- A path is spelled by a text if it stands there with some of its characters hidden. The slash is
never hidden, and every other character behind as many question marks as it has bytes. -/
inductive Spells : List Char → List Char → Prop
  | nil : Spells [] []
  | same {s p : List Char} (c : Char) (rest : Spells s p) : Spells (c :: s) (c :: p)
  | hidden {s p : List Char} {c : Char} (h : c ≠ '/') (rest : Spells s p) :
    Spells (List.replicate c.utf8Size '?' ++ s) (c :: p)

/-- Text and path have the same characters in the same places, but that a question mark stands for any
character that `takes` holds of. -/
def SamePlaces (takes : Char → Prop) (text path : List Char) : Prop :=
  List.Forall₂ (fun c d => c = d ∨ c = '?' ∧ takes d) text path

instance (takes : Char → Prop) [DecidablePred takes] (text path : List Char) :
    Decidable (SamePlaces takes text path) :=
  inferInstanceAs (Decidable (List.Forall₂ _ text path))

section

variable {s p : List Char}

theorem spells_iff_of_notMem (hs : '?' ∉ s) : Spells s p ↔ s = p := by
  constructor
  · intro h
    induction h with
    | nil => rfl
    | same c _ ih => rw [ih (fun hmem => hs (List.mem_cons_of_mem c hmem))]
    | hidden _ _ _ =>
      refine absurd (List.mem_append_left _ (List.mem_replicate.2 ⟨?_, rfl⟩)) hs
      exact Nat.ne_of_gt (Char.utf8Size_pos _)
  · rintro rfl
    induction s with
    | nil => exact .nil
    | cons c s ih => exact .same c (ih fun hmem => hs (List.mem_cons_of_mem c hmem))

theorem Spells.one {c : Char} (h : c ≠ '/') (hone : c.utf8Size = 1) (rest : Spells s p) :
    Spells ('?' :: s) (c :: p) := by
  have hmark := Spells.hidden h rest
  rw [hone] at hmark
  exact hmark

theorem Spells.length_le (h : Spells s p) : p.length ≤ s.length := by
  induction h with
  | nil => exact Nat.le_refl 0
  | same c _ ih => simpa using ih
  | @hidden s p c _ _ ih =>
    have hpos := c.utf8Size_pos
    simp only [List.length_append, List.length_replicate, List.length_cons]
    omega

/-- **Of the paths with as many characters as the text, it spells those where each question mark stands
for a character of one byte.** -/
theorem spells_and_length_eq_iff : Spells s p ∧ s.length = p.length ↔
    SamePlaces (fun d => d ≠ '/' ∧ d.utf8Size = 1) s p := by
  constructor
  · rintro ⟨h, hlen⟩
    induction h with
    | nil => exact .nil
    | same c _ ih => exact .cons (.inl rfl) (ih (Nat.succ.inj hlen))
    | @hidden s p c hslash hrest ih =>
      -- no character has less than one byte, so none of them has more
      have hle := hrest.length_le
      have hpos := c.utf8Size_pos
      rw [List.length_append, List.length_replicate, List.length_cons] at hlen
      have hone : c.utf8Size = 1 := by omega
      rw [hone]
      exact .cons (.inr ⟨rfl, hslash, hone⟩) (ih (by omega))
  · intro h
    refine ⟨?_, h.length_eq⟩
    induction h with
    | nil => exact .nil
    | cons hhead _ ih =>
      rcases hhead with rfl | ⟨rfl, hslash, hone⟩
      · exact .same _ ih
      · exact .one hslash hone ih

theorem Spells.length_eq (h : Spells s p) (hp : ∀ d ∈ p, d.utf8Size = 1) : s.length = p.length := by
  induction h with
  | nil => rfl
  | same c _ ih => exact congrArg Nat.succ (ih (List.forall_mem_cons.1 hp).2)
  | hidden _ _ ih =>
    obtain ⟨hone, hrest⟩ := List.forall_mem_cons.1 hp
    rw [List.length_append, List.length_replicate, List.length_cons, hone, ih hrest, Nat.add_comm]

theorem SamePlaces.mono {takes other : Char → Prop} (h : SamePlaces takes s p)
    (himp : ∀ d ∈ p, takes d → other d) : SamePlaces other s p := by
  induction h with
  | nil => exact .nil
  | cons hhead _ ih =>
    obtain ⟨hfirst, hrest⟩ := List.forall_mem_cons.1 himp
    exact .cons (hhead.imp_right (And.imp_right hfirst)) (ih hrest)

theorem spells_iff_of_one (hp : ∀ d ∈ p, d.utf8Size = 1) : Spells s p ↔ SamePlaces (· ≠ '/') s p := by
  constructor
  · intro h
    exact (spells_and_length_eq_iff.1 ⟨h, h.length_eq hp⟩).mono fun _ _ => And.left
  · intro h
    have hone : SamePlaces (fun d => d ≠ '/' ∧ d.utf8Size = 1) s p :=
      h.mono fun d hd hslash => ⟨hslash, hp d hd⟩
    exact (spells_and_length_eq_iff.2 hone).1

end

end DiagnosticGate

namespace DiagnosticGate.Glob

open String (utf8EncodeChar)
open Text

/-! ### Reading question marks -/

/-- Every character of the text is a question mark or stands for itself. -/
def Marked (s : List Char) : Prop := ∀ c ∈ s, c = '?' ∨ c ∉ specials ∧ c ≠ '*'

instance (s : List Char) : Decidable (Marked s) :=
  decidable_of_iff (s.all fun c => c = '?' ∨ c ∉ specials ∧ c ≠ '*') (by simp [Marked])

/-- the tokens of such a text -/
def markedTokens (s : List Char) : List Token :=
  s.map fun c => if c = '?' then .anyOne else .literal c

section

variable {c : Char} {s p : List Char} {prev : Option Char} {ts : List Token} {b : UInt8}
variable {bs k : List UInt8}

theorem readTokens_mark : readTokens prev ⟨ts, []⟩ ('?' :: s) =
    readTokens (some '?') ⟨.anyOne :: ts, []⟩ s := by
  rw [readTokens]
  rfl

theorem readTokens_marked (hs : Marked s) :
    readTokens prev ⟨ts, []⟩ s = .ok ⟨(markedTokens s).reverse ++ ts, []⟩ := by
  induction s generalizing prev ts with
  | nil =>
    rw [readTokens]
    rfl
  | cons c s ih =>
    obtain ⟨hc, hrest⟩ := List.forall_mem_cons.1 hs
    by_cases hmark : c = '?'
    · subst hmark
      rw [readTokens_mark, ih hrest]
      simp [markedTokens]
    · obtain ⟨hplain, hstar⟩ := hc.resolve_left hmark
      rw [readTokens_literal hplain hstar, ih hrest]
      simp [markedTokens, hmark]

theorem parse_marked (hs : Marked s) : parse s = .ok (markedTokens s) := by
  unfold parse
  rw [Draft.empty, readTokens_marked hs]
  simp [Draft.inGroup, bind, Except.bind]

theorem markedTokens_ne_leading : markedTokens s ≠ [.leading] := by
  intro h
  have hmem : .leading ∈ markedTokens s := by simp [h]
  obtain ⟨c, -, hc⟩ := List.mem_map.1 hmem
  split at hc <;> cases hc

/-! ### The bytes of question marks -/

theorem matches_anyOne : Token.anyOne.pattern.Matches bs ↔ ∃ b, bs = [b] ∧ b ≠ 0x2f := by
  simp [Token.pattern, Pattern.Matches, ByteSet.holds]

theorem matches_markedTokens_mark : (tokensPattern (markedTokens ('?' :: s))).Matches bs ↔
    ∃ b rest, bs = b :: rest ∧ b ≠ 0x2f ∧ (tokensPattern (markedTokens s)).Matches rest := by
  rw [markedTokens, List.map_cons, if_pos rfl, tokensPattern, matches_andThen]
  simp only [matches_anyOne]
  constructor
  · rintro ⟨_, rest, rfl, ⟨b, rfl, hb⟩, h⟩
    exact ⟨b, rest, rfl, hb, h⟩
  · rintro ⟨b, rest, rfl, hb, h⟩
    exact ⟨[b], rest, rfl, ⟨b, rfl, hb⟩, h⟩

theorem matches_markedTokens_literal (hc : c ≠ '?') :
    (tokensPattern (markedTokens (c :: s))).Matches bs ↔
      ∃ rest, bs = utf8EncodeChar c ++ rest ∧ (tokensPattern (markedTokens s)).Matches rest := by
  rw [markedTokens, List.map_cons, if_neg hc, tokensPattern, matches_andThen]
  simp only [matches_literal]
  constructor
  · rintro ⟨_, rest, rfl, rfl, h⟩
    exact ⟨rest, rfl, h⟩
  · rintro ⟨rest, rfl, h⟩
    exact ⟨_, rest, rfl, rfl, h⟩

/-- **The rest of a character is taken by question marks alone**, one for each of its bytes. -/
theorem matches_markedTokens_continuation (hk : ∀ b ∈ k, isContinuation b) :
    (tokensPattern (markedTokens s)).Matches (k ++ bs) ↔
      ∃ t, s = List.replicate k.length '?' ++ t ∧ (tokensPattern (markedTokens t)).Matches bs := by
  induction k generalizing s with
  | nil => simp
  | cons b k ih =>
    obtain ⟨hb, hk⟩ := List.forall_mem_cons.1 hk
    have hslash : b ≠ 0x2f := by
      rintro rfl
      exact absurd hb (by decide)
    constructor
    · intro h
      cases s with
      | nil => cases h
      | cons c s =>
        by_cases hc : c = '?'
        · subst hc
          obtain ⟨_, _, heq, -, hrest⟩ := matches_markedTokens_mark.1 h
          obtain ⟨rfl, rfl⟩ := List.cons.inj heq
          obtain ⟨t, rfl, ht⟩ := (ih hk).1 hrest
          exact ⟨t, rfl, ht⟩
        · -- a character of the entry does not start with a continuation byte
          obtain ⟨rest, heq, -⟩ := (matches_markedTokens_literal hc).1 h
          obtain ⟨first, more, hbytes, hfirst, -⟩ := exists_utf8EncodeChar c
          rw [hbytes] at heq
          obtain ⟨rfl, -⟩ := List.cons.inj heq
          rw [hfirst] at hb
          cases hb
    · rintro ⟨t, rfl, ht⟩
      exact matches_markedTokens_mark.2 ⟨b, k ++ bs, rfl, hslash, (ih hk).2 ⟨t, rfl, ht⟩⟩

/-- Question marks take a character exactly if they are as many as its bytes and it is no slash. -/
theorem matches_markedTokens_hidden : (tokensPattern (markedTokens ('?' :: s))).Matches
    (utf8EncodeChar c ++ bs) ↔ c ≠ '/' ∧ ∃ t, '?' :: s = List.replicate c.utf8Size '?' ++ t ∧
      (tokensPattern (markedTokens t)).Matches bs := by
  obtain ⟨first, more, hbytes, hfirst, hmore⟩ := exists_utf8EncodeChar c
  have hsize : c.utf8Size = more.length + 1 := by
    rw [← String.length_utf8EncodeChar, hbytes, List.length_cons]
  have hslash : first = 0x2f ↔ c = '/' := by
    rw [← mem_utf8EncodeChar_iff (show utf8EncodeChar '/' = [0x2f] from rfl), hbytes, List.mem_cons,
      eq_comm, or_iff_left]
    intro hmem
    exact absurd (hmore _ hmem) (by decide)
  rw [matches_markedTokens_mark, hbytes, hsize, List.replicate_succ]
  simp only [List.cons_append, List.cons.injEq, true_and]
  constructor
  · rintro ⟨_, _, ⟨rfl, rfl⟩, hne, h⟩
    exact ⟨mt hslash.2 hne, (matches_markedTokens_continuation hmore).1 h⟩
  · rintro ⟨hne, h⟩
    exact ⟨_, _, ⟨rfl, rfl⟩, mt hslash.1 hne, (matches_markedTokens_continuation hmore).2 h⟩

theorem utf8EncodeChar_append_ne_nil : utf8EncodeChar c ++ bs ≠ [] := by
  obtain ⟨first, more, hbytes, -⟩ := exists_utf8EncodeChar c
  rw [hbytes]
  exact List.cons_ne_nil first (more ++ bs)

theorem not_matches_markedTokens_nil : ¬ (tokensPattern (markedTokens (c :: s))).Matches [] := by
  intro h
  by_cases hc : c = '?'
  · subst hc
    obtain ⟨_, _, heq, -⟩ := matches_markedTokens_mark.1 h
    cases heq
  · obtain ⟨rest, heq, -⟩ := (matches_markedTokens_literal hc).1 h
    exact utf8EncodeChar_append_ne_nil heq.symm

theorem spells_of_matches (h : (tokensPattern (markedTokens s)).Matches (encodeChars p)) :
    Spells s p := by
  induction p generalizing s with
  | nil =>
    cases s with
    | nil => exact .nil
    | cons c s => exact absurd h not_matches_markedTokens_nil
  | cons d p ih =>
    rw [encodeChars_cons] at h
    cases s with
    | nil => exact absurd h utf8EncodeChar_append_ne_nil
    | cons c s =>
      by_cases hc : c = '?'
      · subst hc
        obtain ⟨hslash, t, heq, ht⟩ := matches_markedTokens_hidden.1 h
        rw [heq]
        exact .hidden hslash (ih ht)
      · obtain ⟨rest, heq, hrest⟩ := (matches_markedTokens_literal hc).1 h
        obtain ⟨rfl, rfl⟩ := utf8EncodeChar_append_inj heq
        exact .same d (ih hrest)

theorem matches_of_spells (h : Spells s p) :
    (tokensPattern (markedTokens s)).Matches (encodeChars p) := by
  induction h with
  | nil => rfl
  | @same s p c _ ih =>
    rw [encodeChars_cons]
    by_cases hc : c = '?'
    · subst hc
      exact matches_markedTokens_hidden.2 ⟨by decide, s, rfl, ih⟩
    · exact (matches_markedTokens_literal hc).2 ⟨_, rfl, ih⟩
  | @hidden s p c hslash _ ih =>
    rw [encodeChars_cons]
    obtain ⟨n, hn⟩ := Nat.exists_eq_succ_of_ne_zero (Nat.ne_of_gt c.utf8Size_pos)
    have hmark : List.replicate c.utf8Size '?' ++ s = '?' :: (List.replicate n '?' ++ s) := by
      rw [hn]
      rfl
    rw [hmark]
    exact matches_markedTokens_hidden.2 ⟨hslash, s, hmark.symm, ih⟩

/-- **The tokens of a text take the paths that it spells.** -/
theorem matches_markedTokens_iff :
    (tokensPattern (markedTokens s)).Matches (encodeChars p) ↔ Spells s p :=
  ⟨spells_of_matches, matches_of_spells⟩

end

end DiagnosticGate.Glob

namespace DiagnosticGate

open Glob (Marked)

/-! ### What an entry with question marks covers -/

theorem Entry.exists_ofText_marked {text : String} (h : Marked text.toList) :
    ∃ e, ofText text = .ok e ∧ ∀ path, e.covers path ↔ Spells text.toList path.toList := by
  by_cases hglob : isGlob text
  · have hread : Glob.ofText text = .ok (Glob.compile (Glob.markedTokens text.toList)) := by
      rw [Glob.ofText, Glob.parse_marked h]
    refine ⟨⟨text, .glob _, 0⟩, by rw [ofText, if_pos hglob, hread], fun path => ?_⟩
    refine (Glob.Pattern.accepts_iff _ _).trans ?_
    rw [Glob.compile_eq Glob.markedTokens_ne_leading]
    exact Glob.matches_markedTokens_iff
  · have hmark : '?' ∉ text.toList := by
      intro hmem
      exact hglob (List.any_eq_true.2 ⟨'?', hmem, rfl⟩)
    refine ⟨⟨text, .path, 0⟩, ofText_of_not_isGlob (by simpa using hglob), fun path => ?_⟩
    rw [spells_iff_of_notMem hmark, String.toList_inj, covers, beq_iff_eq]

/-- **A question mark stands for one byte.** An entry of question marks and characters that stand for
themselves can always be held by a coverage. It covers exactly the paths that it spells, where as many
question marks as a character has bytes hide that character. Of the paths with as many characters as
the entry, these are the ones that have its characters in their places, with a character of one byte
other than the slash for every question mark; so a question mark stands for one character in the
paths whose characters have one byte. -/
theorem Coverage.covers_markedEntry_iff {entry : String} (h : Marked entry.toList) :
    ∃ c, ofTexts [entry] = .ok c ∧ ∀ path,
      (c.covers path ↔ Spells entry.toList path.toList) ∧
      (c.covers path ∧ entry.length = path.length ↔
        SamePlaces (fun d => d ≠ '/' ∧ d.utf8Size = 1) entry.toList path.toList) ∧
      ((∀ d ∈ path.toList, d.utf8Size = 1) →
        (c.covers path ↔ SamePlaces (· ≠ '/') entry.toList path.toList)) := by
  obtain ⟨e, hread, hcovers⟩ := Entry.exists_ofText_marked h
  obtain ⟨c, hc, hheld⟩ := exists_ofTexts_singleton hread
  have hspells (path : String) : c.covers path ↔ Spells entry.toList path.toList := by
    rw [hheld, hcovers]
  refine ⟨c, hc, fun path => ⟨hspells path, ?_, fun hone => ?_⟩⟩
  · rw [hspells, ← String.length_toList, ← String.length_toList]
    exact spells_and_length_eq_iff
  · rw [hspells]
    exact spells_iff_of_one hone

/-- Two question marks hide one character of two bytes or two of one byte, but not one of each. -/
theorem Coverage.covers_markedEntry_iff_two_bytes : Marked "src/v??.ts".toList ∧
    ∃ c, ofTexts ["src/v??.ts"] = .ok c ∧ Spells "src/v??.ts".toList "src/vü.ts".toList ∧
      c.covers "src/v10.ts" ∧ ¬ c.covers "src/v1ü.ts" ∧ ¬ c.covers "src/v1/.ts" := by
  have hmarked : Marked "src/v??.ts".toList := by decide +kernel
  obtain ⟨c, hc, hcovers⟩ := covers_markedEntry_iff hmarked
  have hanswer : (ofTexts ["src/v??.ts"]).map (·.covers "src/vü.ts") = .ok true := by decide +kernel
  rw [hc] at hanswer
  have htwo : Spells "src/v??.ts".toList "src/vü.ts".toList :=
    (hcovers _).1.1 (Except.ok.inj hanswer)
  have hall : "src/v10.ts".toList.all fun d => d.utf8Size = 1 := by decide +kernel
  have hones : c.covers "src/v10.ts" :=
    ((hcovers _).2.2 fun d hd => of_decide_eq_true (List.all_eq_true.1 hall d hd)).2
      (by decide +kernel)
  have hmixed : ¬ c.covers "src/v1ü.ts" := fun h =>
    absurd ((hcovers _).2.1.1 ⟨h, by decide +kernel⟩) (by decide +kernel)
  have hslash : ¬ c.covers "src/v1/.ts" := fun h =>
    absurd ((hcovers _).2.1.1 ⟨h, by decide +kernel⟩) (by decide +kernel)
  exact ⟨hmarked, c, hc, htwo, hones, hmixed, hslash⟩

/-- A question mark does not stand for a character of two bytes: `src/v?.ts` does not cover
`src/vé.ts`. -/
theorem Coverage.not_covers_of_every_character : ¬ ∀ entry : String, Marked entry.toList →
    ∃ c, ofTexts [entry] = .ok c ∧
      ∀ path, c.covers path ↔ SamePlaces (· ≠ '/') entry.toList path.toList := by
  intro hall
  obtain ⟨c, hc, hcovers⟩ := hall "src/v?.ts" (by decide +kernel)
  have hanswer : (ofTexts ["src/v?.ts"]).map (·.covers "src/vé.ts") = .ok false := by
    decide +kernel
  rw [hc] at hanswer
  have hno : c.covers "src/vé.ts" = false := Except.ok.inj hanswer
  have hyes : c.covers "src/vé.ts" := (hcovers _).2 (by decide +kernel)
  rw [hno] at hyes
  cases hyes

end DiagnosticGate
