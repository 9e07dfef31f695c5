import DiagnosticGate.Text.Utf8
import Mathlib.Data.List.Basic

/-!
Characters and their bytes.

The first byte of a character is no continuation byte and all others are, so the characters of a text
can be told apart in its bytes, wherever one starts to read. Bytes that are decoded are the bytes of
the text that is answered.
-/

namespace DiagnosticGate.Text

open String (utf8EncodeChar)

/-! ### One character -/

theorem isContinuation_iff {b : UInt8} : isContinuation b ↔ 0x80 ≤ b.toNat ∧ b.toNat ≤ 0xbf := by
  simp [isContinuation, UInt8.le_iff_toNat_le]

/-- **Only the first byte of a character is no continuation byte.** -/
theorem exists_utf8EncodeChar (c : Char) : ∃ b bs, utf8EncodeChar c = b :: bs ∧
    isContinuation b = false ∧ ∀ x ∈ bs, isContinuation x := by
  have hmax : c.val.toNat < 0x110000 := by
    rcases c.valid with h | h <;> omega
  have hnot : ∀ {n : Nat}, n < 0x80 ∨ (0xc0 ≤ n ∧ n < 0x100) → isContinuation (.ofNat n) = false := by
    intro n hn
    rw [Bool.eq_false_iff, Ne, isContinuation_iff, UInt8.toNat_ofNat']
    omega
  have hcont : ∀ n : Nat, isContinuation (.ofNat (n % 64 + 128)) := by
    intro n
    rw [isContinuation_iff, UInt8.toNat_ofNat']
    omega
  rw [utf8EncodeChar]
  split
  · exact ⟨_, _, rfl, hnot (by omega), List.forall_mem_nil _⟩
  · split
    · exact ⟨_, _, rfl, hnot (by omega), List.forall_mem_singleton.2 (hcont _)⟩
    · split
      · exact ⟨_, _, rfl, hnot (by omega),
          List.forall_mem_cons.2 ⟨hcont _, List.forall_mem_singleton.2 (hcont _)⟩⟩
      · exact ⟨_, _, rfl, hnot (by omega), List.forall_mem_cons.2 ⟨hcont _,
          List.forall_mem_cons.2 ⟨hcont _, List.forall_mem_singleton.2 (hcont _)⟩⟩⟩

/-- No character's bytes are the start of those of another. -/
theorem utf8EncodeChar_append_inj {c d : Char} {u v : List UInt8}
    (h : utf8EncodeChar c ++ u = utf8EncodeChar d ++ v) : c = d ∧ u = v := by
  have hfirst := congrArg (fun bs => bs.toByteArray.utf8DecodeChar? 0) h
  simp only [List.toByteArray_append, ByteArray.utf8DecodeChar?_utf8EncodeChar_append,
    Option.some.injEq] at hfirst
  subst hfirst
  exact ⟨rfl, List.append_cancel_left h⟩

/-! ### Characters of one byte -/

section

variable {c d : Char} {cs : List Char} {b : UInt8} {u v : List UInt8}

theorem isContinuation_of_utf8EncodeChar (hd : utf8EncodeChar d = [b]) : isContinuation b = false := by
  obtain ⟨first, more, hbytes, hfirst, -⟩ := exists_utf8EncodeChar d
  rw [hd] at hbytes
  obtain ⟨rfl, -⟩ := List.cons.inj hbytes
  exact hfirst

theorem mem_utf8EncodeChar_iff (hd : utf8EncodeChar d = [b]) : b ∈ utf8EncodeChar c ↔ c = d := by
  constructor
  · intro h
    obtain ⟨first, more, hc, -, hmore⟩ := exists_utf8EncodeChar c
    rw [hc] at h
    rcases List.mem_cons.1 h with rfl | h
    · have hsame : utf8EncodeChar c ++ [] = utf8EncodeChar d ++ more := by
        rw [hc, hd, List.append_nil]
        rfl
      exact (utf8EncodeChar_append_inj hsame).1
    · have hcont := hmore b h
      rw [isContinuation_of_utf8EncodeChar hd] at hcont
      cases hcont
  · rintro rfl
    rw [hd]
    exact List.mem_singleton_self b

theorem mem_encodeChars_iff (hd : utf8EncodeChar d = [b]) : b ∈ encodeChars cs ↔ d ∈ cs := by
  simp [encodeChars, List.mem_flatMap, mem_utf8EncodeChar_iff hd]

theorem encodeChars_eq_nil : encodeChars cs = [] ↔ cs = [] := by
  constructor
  · intro h
    cases cs with
    | nil => rfl
    | cons c cs =>
      obtain ⟨b, bs, hc, -⟩ := exists_utf8EncodeChar c
      rw [encodeChars_cons, hc] at h
      cases h
  · rintro rfl
    rfl

/-- **Where bytes are cut, whole characters stand before the cut** once the continuation bytes behind it
are taken along. -/
theorem exists_of_encodeChars_eq_append (h : encodeChars cs = u ++ v) :
    ∃ x y k, cs = x ++ y ∧ encodeChars x = u ++ k ∧ v = k ++ encodeChars y ∧
      ∀ b ∈ k, isContinuation b := by
  induction cs generalizing u with
  | nil =>
    obtain ⟨rfl, rfl⟩ := List.append_eq_nil_iff.1 h.symm
    exact ⟨[], [], [], rfl, rfl, rfl, List.forall_mem_nil _⟩
  | cons c cs ih =>
    rw [encodeChars_cons] at h
    rcases List.append_eq_append_iff.1 h with ⟨u', rfl, hrest⟩ | ⟨k, hc, rfl⟩
    · obtain ⟨x, y, k, rfl, hx, rfl, hk⟩ := ih hrest
      refine ⟨c :: x, y, k, rfl, ?_, rfl, hk⟩
      rw [encodeChars_cons, hx, List.append_assoc]
    · -- the cut is inside the character, or before it
      cases u with
      | nil =>
        refine ⟨[], c :: cs, [], rfl, rfl, ?_, List.forall_mem_nil _⟩
        rw [encodeChars_cons, hc]
        rfl
      | cons b u =>
        obtain ⟨first, more, hbytes, -, hmore⟩ := exists_utf8EncodeChar c
        rw [hbytes] at hc
        obtain ⟨rfl, rfl⟩ := List.cons.inj hc
        refine ⟨[c], cs, k, rfl, ?_, rfl, fun b hb => hmore b (List.mem_append_right u hb)⟩
        rw [encodeChars_cons, hbytes]
        exact List.append_nil _

theorem exists_of_encodeChars_eq_byte (hd : utf8EncodeChar d = [b])
    (h : encodeChars cs = u ++ b :: v) :
    ∃ x y, cs = x ++ d :: y ∧ encodeChars x = u ∧ encodeChars y = v := by
  obtain ⟨x, y, k, rfl, hx, hv, hk⟩ := exists_of_encodeChars_eq_append h
  cases k with
  | cons b' k =>
    obtain ⟨rfl, -⟩ := List.cons.inj hv
    have hcont := hk b List.mem_cons_self
    rw [isContinuation_of_utf8EncodeChar hd] at hcont
    cases hcont
  | nil =>
    cases y with
    | nil => cases hv
    | cons c y =>
      rw [List.nil_append, encodeChars_cons] at hv
      have hsame : utf8EncodeChar d ++ v = utf8EncodeChar c ++ encodeChars y := by
        rw [hd, ← hv]
        rfl
      obtain ⟨rfl, rfl⟩ := utf8EncodeChar_append_inj hsame
      exact ⟨x, y, rfl, by rw [hx, List.append_nil], rfl⟩

end

/-! ### Decoding -/

theorem toNat_ofNat {n : Nat} (h : n.isValidChar) : (Char.ofNat n).val.toNat = n := by
  rw [Char.ofNat, dif_pos h]
  rfl

section

variable {a b c d : UInt8}

/-- The second byte of a longer character keeps the number of the character in its range. -/
theorem isSecond_iff : isSecond a b ↔ (0x80 ≤ b.toNat ∧ b.toNat ≤ 0xbf) ∧
    (a.toNat = 0xe0 → 0xa0 ≤ b.toNat) ∧ (a.toNat = 0xed → b.toNat ≤ 0x9f) ∧
    (a.toNat = 0xf0 → 0x90 ≤ b.toNat) ∧ (a.toNat = 0xf4 → b.toNat ≤ 0x8f) := by
  have hrange : ∀ lo hi : UInt8, (decide (lo ≤ b) && decide (b ≤ hi)) = true ↔
      lo.toNat ≤ b.toNat ∧ b.toNat ≤ hi.toNat := by
    intro lo hi
    simp [UInt8.le_iff_toNat_le]
  simp only [isSecond, beq_iff_eq, ← UInt8.toNat_inj, UInt8.reduceToNat]
  split
  · rw [hrange]
    simp only [UInt8.reduceToNat]
    omega
  · split
    · rw [hrange]
      simp only [UInt8.reduceToNat]
      omega
    · split
      · rw [hrange]
        simp only [UInt8.reduceToNat]
        omega
      · split
        · rw [hrange]
          simp only [UInt8.reduceToNat]
          omega
        · rw [isContinuation_iff]
          omega

theorem utf8EncodeChar_one (ha : a.toNat < 0x80) : utf8EncodeChar (.ofNat a.toNat) = [a] := by
  have hv : a.toNat.isValidChar := .inl (by omega)
  rw [utf8EncodeChar, toNat_ofNat hv, if_pos (by omega), UInt8.ofNat_toNat]

theorem utf8EncodeChar_two (ha : 0xc2 ≤ a.toNat ∧ a.toNat ≤ 0xdf) (hb : isContinuation b) :
    utf8EncodeChar (.ofNat (a.toNat % 32 * 64 + low b)) = [a, b] := by
  rw [isContinuation_iff] at hb
  unfold low
  have hv : (a.toNat % 32 * 64 + b.toNat % 64).isValidChar := .inl (by omega)
  rw [utf8EncodeChar, toNat_ofNat hv, if_neg (by omega), if_pos (by omega)]
  simp only [List.cons.injEq, ← UInt8.toNat_inj, UInt8.toNat_ofNat', and_true]
  omega

theorem utf8EncodeChar_three (ha : 0xe0 ≤ a.toNat ∧ a.toNat ≤ 0xef) (hb : isSecond a b)
    (hc : isContinuation c) :
    utf8EncodeChar (.ofNat (a.toNat % 16 * 4096 + low b * 64 + low c)) = [a, b, c] := by
  have hsecond := isSecond_iff.1 hb
  rw [isContinuation_iff] at hc
  unfold low
  have hv : (a.toNat % 16 * 4096 + b.toNat % 64 * 64 + c.toNat % 64).isValidChar := by
    unfold Nat.isValidChar
    omega
  rw [utf8EncodeChar, toNat_ofNat hv, if_neg (by omega), if_neg (by omega), if_pos (by omega)]
  simp only [List.cons.injEq, ← UInt8.toNat_inj, UInt8.toNat_ofNat', and_true]
  omega

theorem utf8EncodeChar_four (ha : 0xf0 ≤ a.toNat ∧ a.toNat ≤ 0xf4) (hb : isSecond a b)
    (hc : isContinuation c) (hd : isContinuation d) :
    utf8EncodeChar (.ofNat (a.toNat % 8 * 262144 + low b * 4096 + low c * 64 + low d)) =
      [a, b, c, d] := by
  have hsecond := isSecond_iff.1 hb
  rw [isContinuation_iff] at hc hd
  unfold low
  have hv : (a.toNat % 8 * 262144 + b.toNat % 64 * 4096 + c.toNat % 64 * 64 +
      d.toNat % 64).isValidChar := .inr (by omega)
  rw [utf8EncodeChar, toNat_ofNat hv, if_neg (by omega), if_neg (by omega), if_neg (by omega)]
  simp only [List.cons.injEq, ← UInt8.toNat_inj, UInt8.toNat_ofNat', and_true]
  omega

end

theorem exists_of_cons_eq_ok {ε : Type} {r : Except ε (List Char)} {c : Char} {cs : List Char}
    (h : (do return c :: (← r)) = Except.ok cs) : ∃ ds, r = .ok ds ∧ cs = c :: ds := by
  cases r with
  | error e => cases h
  | ok ds => cases h; exact ⟨ds, rfl, rfl⟩

/-- **Bytes that are decoded are the bytes of the answer.** -/
theorem encodeChars_of_decodeFrom {n : Nat} {bs : List UInt8} {cs : List Char}
    (h : decodeFrom n bs = .ok cs) : encodeChars cs = bs := by
  fun_induction decodeFrom n bs generalizing cs with
  | case1 => cases h; rfl
  | case2 n a bs ha ih =>
    obtain ⟨ds, hds, rfl⟩ := exists_of_cons_eq_ok h
    rw [encodeChars_cons, ih hds, utf8EncodeChar_one (by simpa [UInt8.lt_iff_toNat_lt] using ha)]
    rfl
  | case4 n a _ ha b bs hb ih =>
    obtain ⟨ds, hds, rfl⟩ := exists_of_cons_eq_ok h
    rw [encodeChars_cons, ih hds,
      utf8EncodeChar_two (by simpa [UInt8.le_iff_toNat_le] using ha) hb]
    rfl
  | case8 n a _ _ ha b hb c bs hc ih =>
    obtain ⟨ds, hds, rfl⟩ := exists_of_cons_eq_ok h
    rw [encodeChars_cons, ih hds,
      utf8EncodeChar_three (by simpa [UInt8.le_iff_toNat_le] using ha) hb hc]
    rfl
  | case14 n a _ _ _ ha b hb c hc d bs hd ih =>
    obtain ⟨ds, hds, rfl⟩ := exists_of_cons_eq_ok h
    rw [encodeChars_cons, ih hds,
      utf8EncodeChar_four (by simpa [UInt8.le_iff_toNat_le] using ha) hb hc hd]
    rfl
  -- all other cases are faults
  | _ => cases h

theorem encode_of_decode {bs : List UInt8} {text : String} (h : decode bs = .ok text) :
    encode text = bs := by
  unfold decode at h
  cases hd : decodeFrom 0 bs with
  | error f => rw [hd] at h; cases h
  | ok cs =>
    rw [hd] at h
    cases h
    rw [encode, String.toList_ofList, encodeChars_of_decodeFrom hd]

/-! ### Encoding first -/

section

variable {n : Nat} {a b c d : UInt8} {bs : List UInt8}

theorem decodeFrom_one (ha : a.toNat < 0x80) :
    decodeFrom n (a :: bs) = (do return .ofNat a.toNat :: (← decodeFrom (n + 1) bs)) := by
  rw [decodeFrom.eq_def]
  exact if_pos (by simpa [UInt8.lt_iff_toNat_lt] using ha)

theorem decodeFrom_two (ha : 0xc2 ≤ a.toNat ∧ a.toNat ≤ 0xdf) (hb : isContinuation b) :
    decodeFrom n (a :: b :: bs) =
      (do return .ofNat (a.toNat % 32 * 64 + low b) :: (← decodeFrom (n + 2) bs)) := by
  rw [decodeFrom.eq_def]
  simp only [UInt8.lt_iff_toNat_lt, UInt8.le_iff_toNat_le, UInt8.reduceToNat, hb, if_true]
  rw [if_neg (by omega), if_pos (by simpa using ha)]

theorem decodeFrom_three (ha : 0xe0 ≤ a.toNat ∧ a.toNat ≤ 0xef) (hb : isSecond a b)
    (hc : isContinuation c) :
    decodeFrom n (a :: b :: c :: bs) =
      (do return .ofNat (a.toNat % 16 * 4096 + low b * 64 + low c) :: (← decodeFrom (n + 3) bs)) := by
  rw [decodeFrom.eq_def]
  simp only [UInt8.lt_iff_toNat_lt, UInt8.le_iff_toNat_le, UInt8.reduceToNat, hb, hc, if_true]
  rw [if_neg (by omega), if_neg (by simp; omega), if_pos (by simpa using ha)]

theorem decodeFrom_four (ha : 0xf0 ≤ a.toNat ∧ a.toNat ≤ 0xf4) (hb : isSecond a b)
    (hc : isContinuation c) (hd : isContinuation d) :
    decodeFrom n (a :: b :: c :: d :: bs) =
      (do return .ofNat (a.toNat % 8 * 262144 + low b * 4096 + low c * 64 + low d) ::
        (← decodeFrom (n + 4) bs)) := by
  rw [decodeFrom.eq_def]
  simp only [UInt8.lt_iff_toNat_lt, UInt8.le_iff_toNat_le, UInt8.reduceToNat, hb, hc, hd, if_true]
  rw [if_neg (by omega), if_neg (by simp; omega), if_neg (by simp; omega),
    if_pos (by simpa using ha)]

end

theorem decodeFrom_utf8EncodeChar (n : Nat) (c : Char) (bs : List UInt8) :
    ∃ m, decodeFrom n (utf8EncodeChar c ++ bs) = (do return c :: (← decodeFrom m bs)) := by
  have hvalid : c.val.toNat < 0xd800 ∨ 0xdfff < c.val.toNat ∧ c.val.toNat < 0x110000 := c.valid
  have hself : ∀ {k}, k = c.val.toNat → Char.ofNat k = c := by
    rintro k rfl
    exact Char.ofNat_toNat c
  have hbyte : ∀ {k}, k < 256 → (UInt8.ofNat k).toNat = k := fun h => UInt8.toNat_ofNat_of_lt' h
  have hlow : ∀ k, low (.ofNat (k % 64 + 128)) = k % 64 := by
    intro k
    unfold low
    rw [hbyte (by omega)]
    omega
  have hcont : ∀ k, isContinuation (.ofNat (k % 64 + 128)) := by
    intro k
    rw [isContinuation_iff, hbyte (by omega)]
    omega
  rw [utf8EncodeChar]
  generalize c.val.toNat = v at *
  split
  · refine ⟨n + 1, ?_⟩
    rw [List.singleton_append, decodeFrom_one (by rw [hbyte (by omega)]; omega),
      hself (hbyte (by omega))]
  · split
    · refine ⟨n + 2, ?_⟩
      rw [List.cons_append, List.singleton_append,
        decodeFrom_two (by rw [hbyte (by omega)]; omega) (hcont v), hlow, hself]
      rw [hbyte (by omega)]
      omega
    · split
      · refine ⟨n + 3, ?_⟩
        rw [List.cons_append, List.cons_append, List.singleton_append,
          decodeFrom_three (by rw [hbyte (by omega)]; omega)
            (isSecond_iff.2 (by rw [hbyte (by omega), hbyte (by omega)]; omega)) (hcont v),
          hlow, hlow, hself]
        rw [hbyte (by omega)]
        omega
      · refine ⟨n + 4, ?_⟩
        rw [List.cons_append, List.cons_append, List.cons_append, List.singleton_append,
          decodeFrom_four (by rw [hbyte (by omega)]; omega)
            (isSecond_iff.2 (by rw [hbyte (by omega), hbyte (by omega)]; omega)) (hcont _) (hcont v),
          hlow, hlow, hlow, hself]
        rw [hbyte (by omega)]
        omega

theorem decodeFrom_encodeChars (n : Nat) (cs : List Char) :
    decodeFrom n (encodeChars cs) = .ok cs := by
  induction cs generalizing n with
  | nil => rfl
  | cons c cs ih =>
    obtain ⟨m, hm⟩ := decodeFrom_utf8EncodeChar n c (encodeChars cs)
    rw [encodeChars_cons, hm, ih]
    rfl

theorem encodeChars_inj {cs ds : List Char} : encodeChars cs = encodeChars ds ↔ cs = ds := by
  constructor
  · intro h
    have hread := decodeFrom_encodeChars 0 cs
    rw [h, decodeFrom_encodeChars] at hread
    exact (Except.ok.inj hread).symm
  · rintro rfl
    rfl

/-- **Bytes are decoded exactly if they are the bytes of a text.** -/
theorem decode_eq_ok_iff {bs : List UInt8} {text : String} :
    decode bs = .ok text ↔ encode text = bs := by
  constructor
  · exact encode_of_decode
  · rintro rfl
    rw [decode, encode, decodeFrom_encodeChars]
    exact congrArg _ String.ofList_toList

end DiagnosticGate.Text
