import DiagnosticGate.Storage.ListFile

/-!
Reading what has been written.

Every escape that the writer chooses is undone by the reader, whatever follows it, and the layout of
a list is accepted. So the texts that are written to a file are the texts that are read from it.
-/

namespace DiagnosticGate.Json

/-! ### Characters -/

theorem hexDigit?_hexChar {n : Nat} (h : n < 16) : hexDigit? (hexChar n) = some n := by
  have hall : ∀ n < 16, hexDigit? (hexChar n) = some n := by decide
  exact hall n h

theorem hexUnit_of_lt {n : Nat} (h : n < 0x20) (rest : List Char) :
    hexUnit ('0' :: '0' :: hexChar (n / 16) :: hexChar (n % 16) :: rest) = .ok (n, rest) := by
  have hlen : ¬ Text.byteLength ('0' :: '0' :: hexChar (n / 16) :: hexChar (n % 16) :: rest) < 4 := by
    have h1 := Char.utf8Size_pos (hexChar (n / 16))
    have h2 := Char.utf8Size_pos (hexChar (n % 16))
    have h0 : '0'.utf8Size = 1 := by decide
    simp only [Text.byteLength, List.foldr_cons, h0]
    omega
  have hzero : hexDigit? '0' = some 0 := by decide
  have hnum : hexNumber? '0' '0' (hexChar (n / 16)) (hexChar (n % 16)) = some n := by
    simp only [hexNumber?, hzero, hexDigit?_hexChar (show n / 16 < 16 by omega),
      hexDigit?_hexChar (show n % 16 < 16 by omega)]
    simp
    omega
  rw [hexUnit, if_neg hlen]
  simp only [hnum]

theorem unitEscape_of_lt {c : Char} (h : c.toNat < 0x20) (rest : List Char) :
    unitEscape ('0' :: '0' :: hexChar (c.toNat / 16) :: hexChar (c.toNat % 16) :: rest) =
      .ok (c, rest) := by
  have htrail : isTrailing c.toNat = false := by simp [isTrailing]; omega
  have hlead : isLeading c.toNat = false := by simp [isLeading]; omega
  rw [unitEscape, hexUnit_of_lt h]
  simp [htrail, hlead]

theorem characters_backslash {cs rest s out : List Char} {c : Char}
    (he : escape cs = .ok (c, rest)) (h : characters rest = .ok (s, out)) :
    characters ('\\' :: cs) = .ok (c :: s, out) := by
  -- the equations of `characters` overlap; its definition as a whole is cheaper to unfold
  rw [characters.eq_def]
  simp only
  split
  · rename_i e he'
    rw [he] at he'
    cases he'
  · rename_i c' rest' he'
    rw [he] at he'
    cases he'
    rw [h]

theorem characters_plain {cs s out : List Char} {c : Char} (hq : c ≠ '"') (hb : c ≠ '\\')
    (hc : ¬ c.toNat < 0x20) (h : characters cs = .ok (s, out)) :
    characters (c :: cs) = .ok (c :: s, out) := by
  rw [characters.eq_def]
  split
  · simp_all
  · simp_all
  · simp_all
  · rename_i heq
    cases heq
    rw [if_neg hc, h]

/-- **An escaped character is read as itself.** -/
theorem characters_escapeChar (c : Char) {cs s out : List Char} (h : characters cs = .ok (s, out)) :
    characters (escapeChar c ++ cs) = .ok (c :: s, out) := by
  unfold escapeChar
  split
  · subst c
    exact characters_backslash rfl h
  split
  · subst c
    exact characters_backslash rfl h
  split
  · subst c
    exact characters_backslash rfl h
  split
  · subst c
    exact characters_backslash rfl h
  split
  · subst c
    exact characters_backslash rfl h
  split
  · subst c
    exact characters_backslash rfl h
  split
  · subst c
    exact characters_backslash rfl h
  split
  · rename_i hc
    exact characters_backslash (unitEscape_of_lt hc cs) h
  · rename_i hq hb _ _ _ _ _ hc
    exact characters_plain hq hb hc h

theorem characters_flatMap (s out : List Char) :
    characters (s.flatMap escapeChar ++ '"' :: out) = .ok (s, out) := by
  induction s with
  | nil =>
    rw [List.flatMap_nil, List.nil_append, characters.eq_def]
    rfl
  | cons c s ih =>
    rw [List.flatMap_cons, List.append_assoc]
    exact characters_escapeChar c ih

/-! ### Lists -/

theorem skipBlanks_cons {c : Char} (h : isBlank c = false) (cs : List Char) :
    skipBlanks (c :: cs) = c :: cs := by
  rw [skipBlanks, List.dropWhile_cons, h]
  rfl

/-- **A quoted text is read as itself**, at any depth. -/
theorem value_quote (depth : Nat) (s : String) (rest : List Char) :
    value depth (quote s ++ rest) = .ok (.text s, rest) := by
  have hread : ∀ inner, valueWith inner (quote s ++ rest) = .ok (.text s, rest) := by
    intro inner
    rw [valueWith, quote, List.cons_append, List.append_assoc, List.singleton_append,
      skipBlanks_cons (by decide)]
    simp only [characters_flatMap]
    rw [Except.map, String.ofList_toList]
  cases depth with
  | zero => exact hread none
  | succ depth => exact hread _

section

variable {item : Reader Value} {fuel : Nat} {cs rest more next out : List Char} {c : Char}
variable {v : Value} {vs : List Value}

theorem moreItems_of_end (hitem : item cs = .ok (v, rest)) (hrest : skipBlanks rest = ']' :: out) :
    moreItems item (fuel + 1) cs = .ok ([v], out) := by
  rw [moreItems]
  simp only [hitem, hrest]

theorem moreItems_of_comma (hitem : item cs = .ok (v, rest)) (hrest : skipBlanks rest = ',' :: more)
    (hmore : skipBlanks more = c :: next) (hc : c ≠ ']')
    (h : moreItems item fuel (c :: next) = .ok (vs, out)) :
    moreItems item (fuel + 1) cs = .ok (v :: vs, out) := by
  rw [moreItems]
  simp only [hitem, hrest, hmore]
  split
  · rename_i heq
    cases heq
  · rename_i heq
    cases heq
    exact absurd rfl hc
  · rw [h]

end

/-- Behind each item stands a comma with the next item, or the end of the list. The fuel need not
exceed the number of items. -/
theorem moreItems_writeRest (depth : Nat) (s : String) (ss : List String) (fuel : Nat)
    (h : ss.length < fuel) :
    moreItems (value depth) fuel (quote s ++ writeRest ss) =
      .ok ((s :: ss).map .text, ['\n']) := by
  induction ss generalizing s fuel with
  | nil =>
    obtain ⟨fuel, rfl⟩ : ∃ n, fuel = n + 1 := ⟨fuel - 1, by omega⟩
    exact moreItems_of_end (value_quote depth s _) rfl
  | cons t ts ih =>
    obtain ⟨fuel, rfl⟩ : ∃ n, fuel = n + 1 := ⟨fuel - 1, by omega⟩
    have hnext := ih t fuel (by simpa using h)
    -- the layout between the two quotes is skipped by computation
    exact moreItems_of_comma (value_quote depth s _) rfl rfl (by decide) hnext

theorem length_writeRest (ss : List String) : ss.length ≤ (writeRest ss).length := by
  induction ss with
  | nil => exact Nat.zero_le _
  | cons s ss ih =>
    simp only [writeRest, quote, List.length_cons, List.length_append]
    omega

/-- **A list that is written is read as itself.** -/
theorem parse_write (texts : List String) : parse (write texts) = .ok (.list (texts.map .text)) := by
  cases texts with
  | nil => rfl
  | cons s ss =>
    have hfuel : ss.length < (quote s ++ writeRest ss).length := by
      have := length_writeRest ss
      simp only [quote, List.length_append, List.length_cons]
      omega
    have hitems := moreItems_writeRest 126 s ss _ hfuel
    have hread : value maxDepth ("[\n  ".toList ++ (quote s ++ writeRest ss)) =
        (moreItems (value 126) (quote s ++ writeRest ss).length (quote s ++ writeRest ss)).map
          fun r => (.list r.1, r.2) := rfl
    have hwrite : (write (s :: ss)).toList = "[\n  ".toList ++ (quote s ++ writeRest ss) :=
      String.toList_ofList.trans (List.append_assoc _ _ _)
    rw [parse, hwrite]
    simp only [hread, hitems]
    rfl

end DiagnosticGate.Json

namespace DiagnosticGate.Storage

theorem textsOf?_map_text (texts : List String) : textsOf? (texts.map .text) = some texts := by
  induction texts with
  | nil => rfl
  | cons s ss ih => rw [List.map_cons, textsOf?, ih, Option.map_some]

/-- **The texts that are written to a file are read from it**, in the same order. -/
theorem parseTexts_write (texts : List String) : parseTexts (Json.write texts) = .ok texts := by
  rw [parseTexts, Json.parse_write]
  simp only [textsOf?_map_text]

end DiagnosticGate.Storage
