import DiagnosticGate.AllowList
import Mathlib.Data.List.Perm.Subperm

/-!
Members of allow-lists.

Two allow-lists agree exactly if they have the same members. Sizes and one inclusion are enough for
that, as no text is repeated. Writing a list in order keeps its members, and lists that agree are
written alike.
-/

namespace DiagnosticGate

namespace AllowList

theorem contains_iff {l : AllowList} {s : String} : l.contains s ↔ s ∈ l.entries := by
  simp [contains]

/-- **Agreeing is having the same members.** -/
theorem agrees_iff {a b : AllowList} : a.agrees b ↔ ∀ s, s ∈ a.entries ↔ s ∈ b.entries := by
  have h : a.agrees b ↔ a.entries.length = b.entries.length ∧ ∀ s ∈ a.entries, s ∈ b.entries := by
    simp [agrees, size, contains_iff]
  rw [h]
  constructor
  · rintro ⟨hlen, hsub⟩ s
    have hperm := (List.subperm_of_subset a.nodup hsub).perm_of_length_le (by omega)
    exact hperm.mem_iff
  · intro hmem
    have hperm := (List.perm_ext_iff_of_nodup a.nodup b.nodup).2 hmem
    exact ⟨hperm.length_eq, fun s hs => (hmem s).1 hs⟩

theorem agrees_refl (l : AllowList) : l.agrees l := agrees_iff.2 fun _ => Iff.rfl

theorem agrees_symm {a b : AllowList} (h : a.agrees b) : b.agrees a :=
  agrees_iff.2 fun s => (agrees_iff.1 h s).symm

theorem agrees_trans {a b c : AllowList} (hab : a.agrees b) (hbc : b.agrees c) : a.agrees c :=
  agrees_iff.2 fun s => (agrees_iff.1 hab s).trans (agrees_iff.1 hbc s)

theorem agrees_congr {a a' b b' : AllowList} (ha : a.agrees a') (hb : b.agrees b') :
    a.agrees b = a'.agrees b' := by
  rw [Bool.eq_iff_iff]
  constructor
  · intro h
    exact agrees_trans (agrees_symm ha) (agrees_trans h hb)
  · intro h
    exact agrees_trans ha (agrees_trans h (agrees_symm hb))

theorem mem_sorted {l : AllowList} {s : String} : s ∈ l.sorted ↔ s ∈ l.entries :=
  (List.mergeSort_perm _ _).mem_iff

theorem pairwise_le_sorted (l : AllowList) : l.sorted.Pairwise (· ≤ ·) := by
  have hle := @List.pairwise_mergeSort String (fun a b => decide (a ≤ b))
    (fun a b c hab hbc => by simpa using String.le_trans (of_decide_eq_true hab) (of_decide_eq_true hbc))
    (fun a b => by simpa using String.le_total a b) l.entries
  exact hle.imp of_decide_eq_true

/-- **A list is written in strictly ascending order.** -/
theorem pairwise_lt_sorted (l : AllowList) : l.sorted.Pairwise (· < ·) := by
  have hnodup : l.sorted.Nodup := (List.mergeSort_perm _ _).nodup_iff.2 l.nodup
  refine (l.pairwise_le_sorted.and hnodup).imp ?_
  rintro s t ⟨hle, hne⟩
  by_contra hlt
  exact hne (String.le_antisymm hle hlt)

/-- **Lists that agree are written alike.** -/
theorem sorted_of_agrees {a b : AllowList} (h : a.agrees b) : a.sorted = b.sorted := by
  have hperm : a.entries.Perm b.entries :=
    (List.perm_ext_iff_of_nodup a.nodup b.nodup).2 (agrees_iff.1 h)
  refine List.Perm.eq_of_pairwise (fun s t _ _ => String.le_antisymm) a.pairwise_le_sorted
    b.pairwise_le_sorted ?_
  exact (List.mergeSort_perm _ _).trans (hperm.trans (List.mergeSort_perm _ _).symm)

theorem entries_insertAll (l : AllowList) (ss : List String) :
    (l.insertAll ss).entries = l.entries ++ (ss.filter fun s => !l.contains s).eraseDups := by
  induction ss generalizing l with
  | nil => simp [insertAll]
  | cons s ss ih =>
    rw [insertAll, List.foldl_cons, ← insertAll, ih]
    unfold insert
    by_cases h : s ∈ l.entries
    · simp [h, contains]
    · rw [dif_neg h, List.filter_cons_of_pos (by simp [h, contains]), List.eraseDups_cons,
        List.filter_filter, List.append_assoc, List.singleton_append]
      congr 3
      refine List.filter_congr fun t _ => ?_
      simp [contains, Bool.and_comm, beq_eq_decide]

end AllowList

namespace AllowLists

theorem agrees_iff {a b : AllowLists} :
    a.agrees b ↔ a.codes.agrees b.codes ∧ a.files.agrees b.files := by
  simp [agrees]

theorem agrees_refl (l : AllowLists) : l.agrees l :=
  agrees_iff.2 ⟨l.codes.agrees_refl, l.files.agrees_refl⟩

end AllowLists

end DiagnosticGate
