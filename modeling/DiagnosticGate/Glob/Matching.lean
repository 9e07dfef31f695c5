import DiagnosticGate.Glob.Pattern

/-!
Deciding a match.

The marks that `ends` computes are exactly the positions where a match ends that starts at a mark;
so `accepts` decides `Matches`.
-/

namespace DiagnosticGate.Glob.Pattern

/-! ### Slices -/

/-- the bytes from position `i` up to position `j` -/
def between (bs : List UInt8) (i j : Nat) : List UInt8 := (bs.drop i).take (j - i)

theorem between_self (bs : List UInt8) (i : Nat) : between bs i i = [] := by simp [between]

theorem length_between {bs : List UInt8} {i j : Nat} (hj : j ≤ bs.length) :
    (between bs i j).length = j - i := by
  simp only [between, List.length_take, List.length_drop]
  omega

theorem between_append {bs : List UInt8} {i k j : Nat} (hik : i ≤ k) (hkj : k ≤ j) :
    between bs i k ++ between bs k j = between bs i j := by
  have h1 : bs.drop k = (bs.drop i).drop (k - i) := by rw [List.drop_drop]; congr 1; omega
  have h2 : j - i = (k - i) + (j - k) := by omega
  simp only [between, h1, h2, List.take_add]

theorem between_cons_succ (b : UInt8) (bs : List UInt8) (i j : Nat) :
    between (b :: bs) (i + 1) (j + 1) = between bs i j := by
  simp [between]

theorem between_cons_zero (b : UInt8) (bs : List UInt8) (j : Nat) :
    between (b :: bs) 0 (j + 1) = b :: between bs 0 j := by
  simp [between]

/-- A split of a slice is a position in it. -/
theorem exists_of_between_eq_append {bs u v : List UInt8} {i j : Nat} (hi : i ≤ j)
    (hj : j ≤ bs.length) (h : between bs i j = u ++ v) :
    ∃ k, i ≤ k ∧ k ≤ j ∧ between bs i k = u ∧ between bs k j = v := by
  have hlen : u.length + v.length = j - i := by
    rw [← length_between hj, h, List.length_append]
  have hleft := congrArg (List.take u.length) h
  have hright := congrArg (List.drop u.length) h
  rw [List.take_left] at hleft
  rw [List.drop_left] at hright
  refine ⟨i + u.length, by omega, by omega, Eq.trans ?_ hleft, Eq.trans ?_ hright⟩
  · simp only [between, List.take_take]
    rw [Nat.add_sub_cancel_left, Nat.min_eq_left (by omega)]
  · simp only [between, List.drop_take, List.drop_drop]
    rw [Nat.sub_sub]

/-! ### The marks -/

theorem length_step (s : ByteSet) : ∀ (bs : List UInt8) (ms : List Bool),
    ms.length = bs.length + 1 → (step s bs ms).length = bs.length
  | [], _, _ => by simp [step]
  | b :: bs, m :: ms, h => by
    simp only [step, List.length_cons]
    rw [length_step s bs ms (by simpa using h)]

theorem length_spread (s : ByteSet) : ∀ (carried : Bool) (bs : List UInt8) (ms : List Bool),
    ms.length = bs.length + 1 → (spread s carried bs ms).length = bs.length + 1
  | _, [], [m], _ => by simp [spread]
  | carried, b :: bs, m :: ms, h => by
    simp only [spread, List.length_cons]
    rw [length_spread s _ bs ms (by simpa using h)]

theorem length_ends (p : Pattern) (bs : List UInt8) (ms : List Bool)
    (h : ms.length = bs.length + 1) : (p.ends bs ms).length = bs.length + 1 := by
  induction p generalizing ms with
  | empty => exact h
  | one s => simp [ends, length_step s bs ms h]
  | many s => exact length_spread s false bs ms h
  | both p q ihp ihq => exact ihq _ (ihp _ h)
  | either p q ihp ihq => simp [ends, ihp _ h, ihq _ h]

theorem getElem?_step (s : ByteSet) : ∀ (bs : List UInt8) (ms : List Bool) (j : Nat),
    ms.length = bs.length + 1 →
    ((step s bs ms)[j]? = some true ↔ ms[j]? = some true ∧ ∃ b, bs[j]? = some b ∧ s.holds b)
  | [], _, j, _ => by simp [step]
  | b :: bs, m :: ms, 0, _ => by simp [step]
  | b :: bs, m :: ms, j + 1, h => by
    simpa [step] using getElem?_step s bs ms j (by simpa using h)

theorem getElem?_spread (s : ByteSet) :
    ∀ (carried : Bool) (bs : List UInt8) (ms : List Bool) (j : Nat),
    ms.length = bs.length + 1 → j ≤ bs.length →
    ((spread s carried bs ms)[j]? = some true ↔
      (carried = true ∧ ∀ b ∈ between bs 0 j, s.holds b) ∨
      ∃ i ≤ j, ms[i]? = some true ∧ ∀ b ∈ between bs i j, s.holds b)
  | carried, [], [m], j, _, hj => by
    obtain rfl : j = 0 := by simpa using hj
    simp [spread, between_self, or_comm]
  | carried, b :: bs, m :: ms, 0, h, _ => by
    simp [spread, between_self, or_comm]
  | carried, b :: bs, m :: ms, j + 1, h, hj => by
    have ih := getElem?_spread s ((m || carried) && s.holds b) bs ms j (by simpa using h)
      (by simpa using hj)
    simp only [spread, List.getElem?_cons_succ, ih, between_cons_zero, List.forall_mem_cons]
    constructor
    · rintro (⟨hc, hb⟩ | ⟨i, hij, hm, hb⟩)
      · simp only [Bool.and_eq_true, Bool.or_eq_true] at hc
        obtain ⟨hm | hc, hs⟩ := hc
        · refine .inr ⟨0, by omega, by simpa using hm, ?_⟩
          rw [between_cons_zero]
          exact List.forall_mem_cons.2 ⟨hs, hb⟩
        · exact .inl ⟨hc, hs, hb⟩
      · exact .inr ⟨i + 1, by omega, by simpa using hm, by rwa [between_cons_succ]⟩
    · rintro (⟨hc, hs, hb⟩ | ⟨i, hij, hm, hb⟩)
      · exact .inl ⟨by simp [hc, hs], hb⟩
      · cases i with
        | zero =>
          rw [between_cons_zero, List.forall_mem_cons] at hb
          simp only [List.getElem?_cons_zero, Option.some.injEq] at hm
          exact .inl ⟨by simp [hm, hb.1], hb.2⟩
        | succ i =>
          rw [between_cons_succ] at hb
          exact .inr ⟨i, by omega, by simpa using hm, hb⟩

/-- The marks behind a pattern are the ends of its matches that start at a mark. -/
theorem getElem?_ends (p : Pattern) (bs : List UInt8) (ms : List Bool) (j : Nat)
    (h : ms.length = bs.length + 1) (hj : j ≤ bs.length) :
    (p.ends bs ms)[j]? = some true ↔
      ∃ i ≤ j, ms[i]? = some true ∧ p.Matches (between bs i j) := by
  induction p generalizing ms j with
  | empty =>
    simp only [ends, Matches]
    constructor
    · exact fun hm => ⟨j, Nat.le_refl j, hm, between_self bs j⟩
    · rintro ⟨i, hij, hm, hb⟩
      have := length_between (i := i) hj
      rw [hb] at this
      obtain rfl : i = j := by simp at this; omega
      exact hm
  | one s =>
    cases j with
    | zero =>
      simp only [ends, List.getElem?_cons_zero, Matches]
      constructor
      · intro hm; cases hm
      · rintro ⟨i, hi, -, b, hb, -⟩
        obtain rfl : i = 0 := by omega
        rw [between_self] at hb
        cases hb
    | succ j =>
      simp only [ends, List.getElem?_cons_succ, getElem?_step s bs ms j h, Matches]
      have hslice : ∀ b, bs[j]? = some b → between bs j (j + 1) = [b] := by
        intro b hb
        obtain ⟨hlt, rfl⟩ := List.getElem?_eq_some_iff.1 hb
        have : j + 1 - j = 1 := by omega
        simp [between, this, List.take_one, List.head?_drop, hb]
      constructor
      · rintro ⟨hm, b, hb, hs⟩
        exact ⟨j, by omega, hm, b, hslice b hb, hs⟩
      · rintro ⟨i, hij, hm, b, hb, hs⟩
        have hl := length_between (i := i) hj
        rw [hb] at hl
        obtain rfl : i = j := by simp at hl; omega
        obtain ⟨c, hc⟩ : ∃ c, bs[i]? = some c := ⟨bs[i], by simp⟩
        have := hslice c hc
        rw [hb] at this
        cases this
        exact ⟨hm, b, hc, hs⟩
  | many s => simpa [ends, Matches] using getElem?_spread s false bs ms j h hj
  | both p q ihp ihq =>
    simp only [ends, Matches]
    rw [ihq _ j (length_ends p bs ms h) hj]
    constructor
    · rintro ⟨k, hkj, hk, hq⟩
      obtain ⟨i, hik, hi, hp⟩ := (ihp ms k h (by omega)).1 hk
      exact ⟨i, by omega, hi, _, _, (between_append hik hkj).symm, hp, hq⟩
    · rintro ⟨i, hij, hi, u, v, huv, hp, hq⟩
      obtain ⟨k, hik, hkj, rfl, rfl⟩ := exists_of_between_eq_append hij hj huv
      exact ⟨k, hkj, (ihp ms k h (by omega)).2 ⟨i, hik, hi, hp⟩, hq⟩
  | either p q ihp ihq =>
    have lp := length_ends p bs ms h
    have lq := length_ends q bs ms h
    have hor : (List.zipWith (· || ·) (p.ends bs ms) (q.ends bs ms))[j]? = some true ↔
        (p.ends bs ms)[j]? = some true ∨ (q.ends bs ms)[j]? = some true := by
      have hp : j < (p.ends bs ms).length := by omega
      have hq : j < (q.ends bs ms).length := by omega
      simp [List.getElem?_zipWith, List.getElem?_eq_getElem hp, List.getElem?_eq_getElem hq]
    simp only [ends, Matches]
    rw [hor, ihp ms j h hj, ihq ms j h hj]
    constructor
    · rintro (⟨i, hij, hi, hm⟩ | ⟨i, hij, hi, hm⟩)
      · exact ⟨i, hij, hi, .inl hm⟩
      · exact ⟨i, hij, hi, .inr hm⟩
    · rintro ⟨i, hij, hi, hm | hm⟩
      · exact .inl ⟨i, hij, hi, hm⟩
      · exact .inr ⟨i, hij, hi, hm⟩

/-- Deciding a match is right. -/
theorem accepts_iff (p : Pattern) (bs : List UInt8) : p.accepts bs ↔ p.Matches bs := by
  have hl : (true :: List.replicate bs.length false).length = bs.length + 1 := by simp
  have hlast : p.accepts bs = true ↔
      (p.ends bs (true :: List.replicate bs.length false))[bs.length]? = some true := by
    have := length_ends p bs _ hl
    rw [accepts, List.getLast?_eq_getElem?, this]
    simp only [Nat.add_sub_cancel]
    cases (p.ends bs (true :: List.replicate bs.length false))[bs.length]? <;> simp
  rw [hlast, getElem?_ends p bs _ _ hl (Nat.le_refl _)]
  have hall : between bs 0 bs.length = bs := by simp [between]
  constructor
  · rintro ⟨i, hi, hm, hp⟩
    cases i with
    | zero => rwa [hall] at hp
    | succ i => simp [List.getElem?_replicate] at hm
  · exact fun hp => ⟨0, by omega, by simp, by rwa [hall]⟩

end DiagnosticGate.Glob.Pattern
