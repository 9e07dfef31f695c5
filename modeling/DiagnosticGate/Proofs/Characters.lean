import DiagnosticGate.Glob.Matching
import DiagnosticGate.Glob.Basic
import DiagnosticGate.Proofs.Utf8

/-!
Globs over characters.

A glob takes bytes, so a star could end inside a character. In a glob of literals and stars nothing
starts there: what follows would match as well behind the rest of that character. So these globs take
whole characters, and what they stand for can be said without bytes.
-/

namespace DiagnosticGate.Glob

open String (utf8EncodeChar)
open Text

/-! ### The slash among the bytes -/

section

variable {c : Char} {cs : List Char} {u v : List UInt8}

theorem slash_mem_encodeChars : 0x2f ∈ encodeChars cs ↔ '/' ∈ cs := mem_encodeChars_iff rfl

theorem exists_of_encodeChars_eq_slash (h : encodeChars cs = u ++ 0x2f :: v) :
    ∃ x y, cs = x ++ '/' :: y ∧ encodeChars x = u ∧ encodeChars y = v :=
  exists_of_encodeChars_eq_byte rfl h

theorem exists_of_encodeChars_eq_cons_slash (h : encodeChars cs = 0x2f :: v) :
    ∃ y, cs = '/' :: y ∧ encodeChars y = v := by
  obtain ⟨x, y, rfl, hx, hy⟩ := @exists_of_encodeChars_eq_slash _ [] _ h
  obtain rfl := encodeChars_eq_nil.1 hx
  exact ⟨y, rfl, hy⟩

end

/-! ### The bytes of a token -/

section

variable {p q : Pattern} {bs text : List UInt8}

theorem matches_andThen :
    (p.andThen q).Matches bs ↔ ∃ u v, bs = u ++ v ∧ p.Matches u ∧ q.Matches v := by
  have hleft : (∃ u v, bs = u ++ v ∧ Pattern.empty.Matches u ∧ q.Matches v) ↔ q.Matches bs := by
    simp [Pattern.Matches]
  have hright : (∃ u v, bs = u ++ v ∧ p.Matches u ∧ Pattern.empty.Matches v) ↔ p.Matches bs := by
    simp [Pattern.Matches]
  cases p with
  | empty => exact hleft.symm
  | _ => cases q with
    | empty => exact hright.symm
    | _ => rfl

theorem matches_verbatim : (verbatim text).Matches bs ↔ bs = text := by
  induction text generalizing bs with
  | nil => rfl
  | cons b text ih =>
    simp only [verbatim, matches_andThen, ih, Pattern.Matches, ByteSet.holds, beq_iff_eq]
    constructor
    · rintro ⟨-, -, rfl, ⟨-, rfl, rfl⟩, rfl⟩
      rfl
    · rintro rfl
      exact ⟨[b], text, rfl, ⟨b, rfl, rfl⟩, rfl⟩

theorem matches_literal {c : Char} :
    (Token.literal c).pattern.Matches bs ↔ bs = utf8EncodeChar c := by
  rw [Token.pattern, matches_verbatim]

theorem matches_anyRun : Token.anyRun.pattern.Matches bs ↔ 0x2f ∉ bs := by
  simp only [Token.pattern, Pattern.Matches, ByteSet.holds, bne_iff_ne]
  exact ⟨fun h hmem => h _ hmem rfl, fun h b hb heq => h (heq ▸ hb)⟩

theorem matches_slash : slash.Matches bs ↔ bs = [0x2f] := by
  simp [slash, Pattern.Matches, ByteSet.holds]

theorem matches_leading :
    Token.leading.pattern.Matches bs ↔ bs = [] ∨ ∃ w, bs = w ++ [0x2f] := by
  simp only [Token.pattern, Pattern.Matches, matches_slash, ByteSet.holds]
  constructor
  · rintro ((h | rfl) | ⟨w, _, rfl, -, rfl⟩)
    · exact .inl h
    · exact .inr ⟨[], rfl⟩
    · exact .inr ⟨w, rfl⟩
  · rintro (h | ⟨w, rfl⟩)
    · exact .inl (.inl h)
    · exact .inr ⟨w, _, rfl, fun _ _ => trivial, rfl⟩

theorem matches_trailing : Token.trailing.pattern.Matches bs ↔ ∃ w, bs = 0x2f :: w := by
  simp only [Token.pattern, Pattern.Matches, matches_slash, ByteSet.holds]
  constructor
  · rintro ⟨_, w, rfl, rfl, -⟩
    exact ⟨w, rfl⟩
  · rintro ⟨w, rfl⟩
    exact ⟨_, w, rfl, rfl, fun _ _ => trivial⟩

theorem matches_between :
    Token.between.pattern.Matches bs ↔ bs = [0x2f] ∨ ∃ w, bs = 0x2f :: (w ++ [0x2f]) := by
  simp only [Token.pattern, Pattern.Matches, matches_slash, ByteSet.holds]
  constructor
  · rintro (h | ⟨_, _, rfl, rfl, w, _, rfl, -, rfl⟩)
    · exact .inl h
    · exact .inr ⟨w, rfl⟩
  · rintro (h | ⟨w, rfl⟩)
    · exact .inl h
    · exact .inr ⟨_, _, rfl, rfl, w, _, rfl, fun _ _ => trivial, rfl⟩

end

/-! ### The characters of a token -/

/-- the characters that a token of literals and stars stands for -/
def Token.Takes : Token → List Char → Prop
  | .literal c, cs => cs = [c]
  | .anyRun, cs => '/' ∉ cs
  | .leading, cs => cs = [] ∨ ∃ w, cs = w ++ ['/']
  | .trailing, cs => ∃ w, cs = '/' :: w
  | .between, cs => cs = ['/'] ∨ ∃ w, cs = '/' :: (w ++ ['/'])
  | .anyOne, _ | .oneOf _ _, _ | .choice _, _ => False

/-- whether a token takes whole characters -/
def Token.isWhole : Token → Bool
  | .literal _ | .anyRun | .leading | .trailing | .between => true
  | .anyOne | .oneOf _ _ | .choice _ => false

/-- the characters that tokens stand for one after the other -/
def Takes : List Token → List Char → Prop
  | [], cs => cs = []
  | t :: ts, cs => ∃ u v, cs = u ++ v ∧ t.Takes u ∧ Takes ts v

section

variable {t : Token} {ts us : List Token} {cs : List Char} {b : UInt8} {bs u v k : List UInt8}

theorem Token.matches_of_takes (h : t.Takes cs) : t.pattern.Matches (encodeChars cs) := by
  cases t with
  | literal c =>
    obtain rfl := h
    exact matches_literal.2 (List.append_nil _)
  | anyRun => exact matches_anyRun.2 fun hmem => h (slash_mem_encodeChars.1 hmem)
  | leading =>
    rcases h with rfl | ⟨w, rfl⟩
    · exact matches_leading.2 (.inl rfl)
    · exact matches_leading.2 (.inr ⟨encodeChars w, encodeChars_append w _⟩)
  | trailing =>
    obtain ⟨w, rfl⟩ := h
    exact matches_trailing.2 ⟨encodeChars w, encodeChars_cons '/' w⟩
  | between =>
    rcases h with rfl | ⟨w, rfl⟩
    · exact matches_between.2 (.inl rfl)
    · refine matches_between.2 (.inr ⟨encodeChars w, ?_⟩)
      rw [encodeChars_cons, encodeChars_append]
      rfl
  | _ => exact h.elim

/-- A token that takes bytes at the start of characters takes these characters, and perhaps some more
bytes of the last. -/
theorem Token.exists_takes (ht : t.isWhole) (h : t.pattern.Matches u) (hcs : encodeChars cs = u ++ v) :
    ∃ x y k, cs = x ++ y ∧ t.Takes x ∧ v = k ++ encodeChars y ∧ ∀ b ∈ k, isContinuation b := by
  cases t with
  | literal c =>
    obtain rfl := matches_literal.1 h
    cases cs with
    | nil =>
      obtain ⟨b, bs, hc, -⟩ := exists_utf8EncodeChar c
      rw [hc] at hcs
      cases hcs
    | cons d cs =>
      obtain ⟨rfl, rfl⟩ := utf8EncodeChar_append_inj hcs
      exact ⟨[d], cs, [], rfl, rfl, rfl, List.forall_mem_nil _⟩
  | anyRun =>
    obtain ⟨x, y, k, rfl, hx, rfl, hk⟩ := exists_of_encodeChars_eq_append hcs
    refine ⟨x, y, k, rfl, fun hmem => ?_, rfl, hk⟩
    rcases List.mem_append.1 (hx ▸ slash_mem_encodeChars.2 hmem) with hmem | hmem
    · exact matches_anyRun.1 h hmem
    · exact absurd (hk _ hmem) (by decide)
  | leading =>
    rcases matches_leading.1 h with rfl | ⟨w, rfl⟩
    · exact ⟨[], cs, [], rfl, .inl rfl, hcs.symm, List.forall_mem_nil _⟩
    · rw [List.append_assoc] at hcs
      obtain ⟨x, y, rfl, -, rfl⟩ := exists_of_encodeChars_eq_slash hcs
      exact ⟨x ++ ['/'], y, [], by simp, .inr ⟨x, rfl⟩, rfl, List.forall_mem_nil _⟩
  | trailing =>
    obtain ⟨w, rfl⟩ := matches_trailing.1 h
    obtain ⟨x, y, k, rfl, hx, rfl, hk⟩ := exists_of_encodeChars_eq_append hcs
    obtain ⟨x, rfl, -⟩ := exists_of_encodeChars_eq_cons_slash hx
    exact ⟨'/' :: x, y, k, rfl, ⟨x, rfl⟩, rfl, hk⟩
  | between =>
    rcases matches_between.1 h with rfl | ⟨w, rfl⟩
    · obtain ⟨y, rfl, rfl⟩ := exists_of_encodeChars_eq_cons_slash hcs
      exact ⟨['/'], y, [], rfl, .inl rfl, rfl, List.forall_mem_nil _⟩
    · rw [List.cons_append, List.append_assoc] at hcs
      obtain ⟨cs, rfl, hrest⟩ := exists_of_encodeChars_eq_cons_slash hcs
      obtain ⟨x, y, rfl, -, rfl⟩ := exists_of_encodeChars_eq_slash hrest
      exact ⟨'/' :: (x ++ ['/']), y, [], by simp, .inr ⟨x, rfl⟩, rfl, List.forall_mem_nil _⟩
  | _ => cases ht

/-- A token that takes a byte inside a character can also start behind it. -/
theorem Token.matches_of_cons (ht : t.isWhole) (hb : isContinuation b)
    (h : t.pattern.Matches (b :: bs)) : t.pattern.Matches bs := by
  have hslash : ∀ {rest}, b :: bs ≠ 0x2f :: rest := by
    intro rest heq
    obtain ⟨rfl, -⟩ := List.cons.inj heq
    exact absurd hb (by decide)
  cases t with
  | literal c =>
    obtain ⟨first, more, hc, hfirst, -⟩ := exists_utf8EncodeChar c
    have hbytes := matches_literal.1 h
    rw [hc] at hbytes
    obtain ⟨rfl, -⟩ := List.cons.inj hbytes
    rw [hb] at hfirst
    cases hfirst
  | anyRun =>
    exact matches_anyRun.2 fun hmem => matches_anyRun.1 h (List.mem_cons_of_mem b hmem)
  | leading =>
    rcases matches_leading.1 h with heq | ⟨w, hw⟩
    · cases heq
    · cases w with
      | nil => exact absurd hw hslash
      | cons _ w => exact matches_leading.2 (.inr ⟨w, (List.cons.inj hw).2⟩)
  | trailing =>
    obtain ⟨w, hw⟩ := matches_trailing.1 h
    exact absurd hw hslash
  | between => rcases matches_between.1 h with hw | ⟨w, hw⟩ <;> exact absurd hw hslash
  | _ => cases ht

/-- **Tokens that match from inside a character match behind it.** -/
theorem matches_of_continuation (hts : ∀ t ∈ ts, t.isWhole) (hk : ∀ b ∈ k, isContinuation b)
    (h : (tokensPattern ts).Matches (k ++ bs)) : (tokensPattern ts).Matches bs := by
  have hone : ∀ {ts : List Token} {b bs}, (∀ t ∈ ts, t.isWhole) → isContinuation b →
      (tokensPattern ts).Matches (b :: bs) → (tokensPattern ts).Matches bs := by
    intro ts b bs hts hb hm
    induction ts with
    | nil => cases hm
    | cons t ts ih =>
      obtain ⟨ht, hts⟩ := List.forall_mem_cons.1 hts
      rw [tokensPattern, matches_andThen] at hm ⊢
      obtain ⟨u, v, huv, hu, hv⟩ := hm
      cases u with
      | nil =>
        -- the token takes nothing, and the byte is left to those behind it
        obtain rfl : b :: bs = v := huv
        exact ⟨[], bs, rfl, hu, ih hts hv⟩
      | cons b' u =>
        obtain ⟨rfl, rfl⟩ := List.cons.inj huv
        exact ⟨u, v, rfl, Token.matches_of_cons ht hb hu, hv⟩
  induction k with
  | nil => exact h
  | cons b k ih =>
    obtain ⟨hb, hk⟩ := List.forall_mem_cons.1 hk
    exact ih hk (hone hts hb h)

/-- **Globs of literals and stars take whole characters.** -/
theorem matches_encodeChars (hts : ∀ t ∈ ts, t.isWhole) :
    (tokensPattern ts).Matches (encodeChars cs) ↔ Takes ts cs := by
  induction ts generalizing cs with
  | nil => exact encodeChars_eq_nil
  | cons t ts ih =>
    obtain ⟨ht, hts⟩ := List.forall_mem_cons.1 hts
    rw [tokensPattern, matches_andThen]
    constructor
    · rintro ⟨u, v, hcs, hu, hv⟩
      obtain ⟨x, y, k, rfl, hx, rfl, hk⟩ := Token.exists_takes ht hu hcs
      exact ⟨x, y, rfl, hx, (ih hts).1 (matches_of_continuation hts hk hv)⟩
    · rintro ⟨x, y, rfl, hx, hy⟩
      exact ⟨_, _, encodeChars_append x y, Token.matches_of_takes hx, (ih hts).2 hy⟩

/-! ### Tokens one after the other -/

theorem takes_append :
    Takes (ts ++ us) cs ↔ ∃ u v, cs = u ++ v ∧ Takes ts u ∧ Takes us v := by
  induction ts generalizing cs with
  | nil => simp [Takes]
  | cons t ts ih =>
    simp only [List.cons_append, Takes, ih]
    constructor
    · rintro ⟨u, _, rfl, hu, v, w, rfl, hv, hw⟩
      exact ⟨u ++ v, w, (List.append_assoc u v w).symm, ⟨u, v, rfl, hu, hv⟩, hw⟩
    · rintro ⟨_, w, rfl, ⟨u, v, rfl, hu, hv⟩, hw⟩
      exact ⟨u, v ++ w, List.append_assoc u v w, hu, v, w, rfl, hv, hw⟩

theorem takes_literal_cons {c : Char} :
    Takes (.literal c :: ts) cs ↔ ∃ rest, cs = c :: rest ∧ Takes ts rest := by
  simp [Takes, Token.Takes]

theorem takes_leading_cons : Takes (.leading :: ts) cs ↔
    Takes ts cs ∨ ∃ w rest, cs = w ++ '/' :: rest ∧ Takes ts rest := by
  simp only [Takes, Token.Takes]
  constructor
  · rintro ⟨_, rest, rfl, rfl | ⟨w, rfl⟩, hrest⟩
    · exact .inl hrest
    · exact .inr ⟨w, rest, by simp, hrest⟩
  · rintro (h | ⟨w, rest, rfl, hrest⟩)
    · exact ⟨[], cs, rfl, .inl rfl, h⟩
    · exact ⟨w ++ ['/'], rest, by simp, .inr ⟨w, rfl⟩, hrest⟩

/-- Between two separators, a `**` is one at the start behind the first. -/
theorem takes_between_cons : Takes (.between :: ts) cs ↔
    ∃ rest, cs = '/' :: rest ∧ Takes (.leading :: ts) rest := by
  simp only [Takes, Token.Takes]
  constructor
  · rintro ⟨_, rest, rfl, rfl | ⟨w, rfl⟩, hrest⟩
    · exact ⟨rest, rfl, [], rest, rfl, .inl rfl, hrest⟩
    · exact ⟨_, rfl, _, rest, rfl, .inr ⟨w, rfl⟩, hrest⟩
  · rintro ⟨_, rfl, _, rest, rfl, rfl | ⟨w, rfl⟩, hrest⟩
    · exact ⟨['/'], rest, rfl, .inl rfl, hrest⟩
    · exact ⟨_, rest, rfl, .inr ⟨w, rfl⟩, hrest⟩

theorem takes_trailing : Takes [.trailing] cs ↔ ∃ rest, cs = '/' :: rest := by
  simp [Takes, Token.Takes]

end

end DiagnosticGate.Glob
