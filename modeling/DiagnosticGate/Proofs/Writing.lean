import DiagnosticGate.Proofs.Asking

/-!
What an update answers about the files.

The two lists are saved one after the other, each only if its members change, and each write can fail.
Whichever do, the files hold afterwards what is answered as persisted, no other file is touched, and the
verdict tells whether everything that was wanted is there.
-/

namespace DiagnosticGate

open Storage

/-- Both lists have the same members, in whatever order. -/
def AllowList.SameMembers (a b : AllowList) : Prop := ∀ s, s ∈ a.entries ↔ s ∈ b.entries

theorem AllowList.sameMembers_iff_agrees {a b : AllowList} : a.SameMembers b ↔ a.agrees b :=
  AllowList.agrees_iff.symm

variable {σ : Type} {kind : TextFiles σ} {store left : σ} {settings : Settings}

/-- **Writes leave the files at other paths.** -/
theorem Storage.Tried.read_of_ne {saves : List (Attempt σ)} {paths : Set String} {path : String}
    (h : Tried kind store saves left) (hlaw : LawfulAt paths store)
    (hpaths : ∀ a ∈ saves, a.path ∈ paths) (hpath : path ∈ paths)
    (hne : ∀ a ∈ saves, a.path ≠ path) :
    TextFiles.read left path = TextFiles.read store path := by
  induction h with
  | none store => rfl
  | @next a rest left hanswered _ ih =>
    obtain ⟨hfirst, hrest⟩ := List.forall_mem_cons.1 hne
    obtain ⟨hin, hpaths⟩ := List.forall_mem_cons.1 hpaths
    cases hw : a.answer with
    | error f =>
      have hleft : a.left = a.store := by rw [Attempt.left, hw]
      rw [ih (hleft ▸ hlaw) hpaths hrest, hleft]
    | ok next =>
      have hwrite := hanswered.trans hw
      have hleft : a.left = next := by rw [Attempt.left, hw]
      have hread := hlaw .none hin hwrite path hpath
      rw [if_neg hfirst.symm] at hread
      rw [ih (hleft ▸ hlaw.of_written (.next .none hin hwrite)) hpaths hrest, hleft, hread]

/-! ### One list -/

section

variable {path : String} {held wanted : AllowList}

theorem path_of_mem_attempts_write {a : Attempt σ} (h : a ∈ attempts store (held.write path wanted)) :
    a.path = path := by
  obtain ⟨p, hp, hpath, -⟩ := mem_of_mem_attempts h
  unfold AllowList.write at hp
  split at hp
  · cases hp
  · rw [List.mem_singleton.1 hp] at hpath
    exact hpath

theorem exists_attempt_iff : (∃ a ∈ attempts store (held.write path wanted), a.path = path) ↔
    ¬ held.SameMembers wanted := by
  rw [AllowList.sameMembers_iff_agrees]
  constructor
  · rintro ⟨a, ha, -⟩ hsame
    rw [AllowList.write, if_pos hsame] at ha
    cases ha
  · intro hdiffer
    refine ⟨attempt store path wanted.sorted, ?_, rfl⟩
    rw [AllowList.write, if_neg hdiffer]
    exact attempt_mem_attempts

theorem verdict_saveAll_write_iff : (saveAll store (held.write path wanted)).verdict = .pass ↔
    held.SameMembers wanted ∨
      ∃ a ∈ attempts store (held.write path wanted), a.path = path ∧ a.Succeeded := by
  rw [AllowList.sameMembers_iff_agrees, AllowList.write]
  by_cases hsame : held.agrees wanted
  · rw [if_pos hsame]
    exact ⟨fun _ => .inl hsame, fun _ => rfl⟩
  · rw [if_neg hsame]
    cases hs : saveTexts store path wanted.sorted with
    | ok next =>
      rw [attempts_of_ok hs]
      simp only [saveAll, hs]
      exact ⟨fun _ => .inr ⟨_, List.mem_cons_self, rfl, succeeded_attempt hs⟩, fun _ => trivial⟩
    | error e =>
      rw [attempts_of_error hs]
      simp only [saveAll, hs]
      refine ⟨fun hpass => (by cases hpass), ?_⟩
      rintro (hin | ⟨a, ha, -, next, hok⟩)
      · exact absurd hin hsame
      · obtain ⟨f, hw, -⟩ := write_of_saveTexts_error hs
        rw [List.mem_singleton.1 ha, attempt, hw] at hok
        cases hok

theorem not_sameMembers_of_fail {list : Which}
    (h : (writeList store settings list held wanted).verdict = .fail) : ¬ held.SameMembers wanted := by
  rw [AllowList.sameMembers_iff_agrees]
  rcases writeList_cases store settings list held wanted with ⟨-, hw⟩ | ⟨-, next, -, hw⟩ |
    ⟨hdiffer, -⟩
  · rw [hw] at h; cases h
  · rw [hw] at h; cases h
  · exact hdiffer

end

/-! ### Both lists -/

section

variable {held wanted : AllowLists}

/-- **The verdict says whether everything wanted is persisted.** -/
theorem verdict_writeLists_iff : (writeLists store settings held wanted).verdict = .pass ↔
    (writeLists store settings held wanted).persisted.codes.SameMembers wanted.codes ∧
      (writeLists store settings held wanted).persisted.files.SameMembers wanted.files := by
  rcases writeLists_cases store settings held wanted with ⟨hv, hw⟩ | ⟨-, second, hsecond, hw⟩ <;>
    rw [hw]
  · exact ⟨fun hpass => (by cases hpass), fun hsame => absurd hsame.2 (not_sameMembers_of_fail hv)⟩
  · cases hv : second.verdict with
    | pass => exact ⟨fun _ => ⟨fun _ => Iff.rfl, fun _ => Iff.rfl⟩, fun _ => rfl⟩
    | fail =>
      rw [hsecond] at hv
      exact ⟨fun hpass => (by cases hpass), fun hsame => absurd hsame.1 (not_sameMembers_of_fail hv)⟩

theorem mem_attempts_writes {a : Attempt σ} : a ∈ attempts store (held.writes settings wanted) ↔
    a ∈ attempts store (held.files.write settings.filesPath wanted.files) ∨
      (saveAll store (held.files.write settings.filesPath wanted.files)).verdict = .pass ∧
        a ∈ attempts (saveAll store (held.files.write settings.filesPath wanted.files)).files
          (held.codes.write settings.codesPath wanted.codes) := by
  rw [AllowLists.writes, attempts_append, List.mem_append]
  by_cases h : (saveAll store (held.files.write settings.filesPath wanted.files)).verdict = .pass
  · simp [h]
  · simp [h]

theorem attempts_writes_at (hne : settings.codesPath ≠ settings.filesPath) {a : Attempt σ}
    (h : a ∈ attempts store (held.writes settings wanted)) :
    (a.path = settings.filesPath ∧
      a ∈ attempts store (held.files.write settings.filesPath wanted.files)) ∨
    (a.path = settings.codesPath ∧ a.path ≠ settings.filesPath ∧
      (saveAll store (held.files.write settings.filesPath wanted.files)).verdict = .pass ∧
        a ∈ attempts (saveAll store (held.files.write settings.filesPath wanted.files)).files
          (held.codes.write settings.codesPath wanted.codes)) := by
  rcases mem_attempts_writes.1 h with hfiles | ⟨hpass, hcodes⟩
  · exact .inl ⟨path_of_mem_attempts_write hfiles, hfiles⟩
  · have hpath := path_of_mem_attempts_write hcodes
    exact .inr ⟨hpath, hpath ▸ hne, hpass, hcodes⟩

theorem exists_files_attempt_iff (hne : settings.codesPath ≠ settings.filesPath) :
    (∃ a ∈ attempts store (held.writes settings wanted), a.path = settings.filesPath) ↔
      ¬ held.files.SameMembers wanted.files := by
  have hfiles : (∃ a ∈ attempts store (held.files.write settings.filesPath wanted.files),
      a.path = settings.filesPath) ↔ ¬ held.files.SameMembers wanted.files := exists_attempt_iff
  rw [← hfiles]
  constructor
  · rintro ⟨a, ha, hpath⟩
    rcases attempts_writes_at hne ha with ⟨-, hfiles⟩ | ⟨-, hother, -⟩
    · exact ⟨a, hfiles, hpath⟩
    · exact absurd hpath hother
  · rintro ⟨a, ha, hpath⟩
    exact ⟨a, mem_attempts_writes.2 (.inl ha), hpath⟩

theorem exists_codes_attempt_iff (hne : settings.codesPath ≠ settings.filesPath) :
    (∃ a ∈ attempts store (held.writes settings wanted), a.path = settings.codesPath) ↔
      ¬ held.codes.SameMembers wanted.codes ∧ (held.files.SameMembers wanted.files ∨
        ∃ a ∈ attempts store (held.writes settings wanted),
          a.path = settings.filesPath ∧ a.Succeeded) := by
  have hsaved : (∃ a ∈ attempts store (held.writes settings wanted),
      a.path = settings.filesPath ∧ a.Succeeded) ↔
      ∃ a ∈ attempts store (held.files.write settings.filesPath wanted.files),
        a.path = settings.filesPath ∧ a.Succeeded := by
    constructor
    · rintro ⟨a, ha, hpath, hok⟩
      rcases attempts_writes_at hne ha with ⟨-, hfiles⟩ | ⟨-, hother, -⟩
      · exact ⟨a, hfiles, hpath, hok⟩
      · exact absurd hpath hother
    · rintro ⟨a, ha, h⟩
      exact ⟨a, mem_attempts_writes.2 (.inl ha), h⟩
  rw [hsaved, ← verdict_saveAll_write_iff]
  constructor
  · rintro ⟨a, ha, hpath⟩
    rcases attempts_writes_at hne ha with ⟨hother, -⟩ | ⟨-, -, hpass, hcodes⟩
    · exact absurd (hpath.symm.trans hother) hne
    · exact ⟨exists_attempt_iff.1 ⟨a, hcodes, hpath⟩, hpass⟩
  · rintro ⟨hdiffer, hpass⟩
    obtain ⟨a, ha, hpath⟩ := exists_attempt_iff.2 hdiffer
    exact ⟨a, mem_attempts_writes.2 (.inr ⟨hpass, ha⟩), hpath⟩

/-- **An update tells the truth about the files.** The two files hold the members of the lists, at
different paths, and writes can fail, which leaves the store as it was. Whichever do: afterwards the
two files hold the members of what is answered as persisted, and what is read at any other path at
which the store is lawful is as it was. The store is asked for certain writes and for nothing else,
each of which is told. They are at the two paths; the list of files is tried exactly if its members
change, and the list of codes exactly if its members change and the list of files did not have to be
saved or was. The update passes exactly if what is persisted has the members that are wanted. -/
theorem persisted_of_update {paths : Set String} (hlaw : LawfulAt paths store)
    (hpaths : settings.paths ⊆ paths) (hne : settings.codesPath ≠ settings.filesPath)
    (h : Stored store settings held) (wanted : AllowLists) :
    let update := writeLists store settings held wanted
    Stored update.files settings update.persisted ∧
    (∀ path ∈ paths, path ≠ settings.codesPath → path ≠ settings.filesPath →
      TextFiles.read update.files path = TextFiles.read store path) ∧
    (∃ saves : List (Attempt σ),
      Asks kind (fun other => @writeLists σ other store settings held wanted) store saves update.files ∧
      writesOf update.events = saves.map (·.told) ∧
      (∀ a ∈ saves, a.path = settings.filesPath ∨ a.path = settings.codesPath) ∧
      ((∃ a ∈ saves, a.path = settings.filesPath) ↔ ¬ held.files.SameMembers wanted.files) ∧
      ((∃ a ∈ saves, a.path = settings.codesPath) ↔ ¬ held.codes.SameMembers wanted.codes ∧
        (held.files.SameMembers wanted.files ∨
          ∃ a ∈ saves, a.path = settings.filesPath ∧ a.Succeeded))) ∧
    (update.verdict = .pass ↔ update.persisted.codes.SameMembers wanted.codes ∧
      update.persisted.files.SameMembers wanted.files) := by
  intro update
  have hasks : Asks kind (fun other => @writeLists σ other store settings held wanted) store
      (attempts store (held.writes settings wanted)) update.files := asks_writeLists store settings _ _
  have htried : ∀ a ∈ attempts store (held.writes settings wanted),
      a.path = settings.filesPath ∨ a.path = settings.codesPath := by
    intro a ha
    rcases attempts_writes_at hne ha with ⟨hpath, -⟩ | ⟨hpath, -⟩
    · exact .inl hpath
    · exact .inr hpath
  refine ⟨Stored.writeLists (hlaw.mono hpaths) hne h, ?_, ⟨_, hasks,
    writesOf_writeLists store settings held wanted, htried, exists_files_attempt_iff hne,
    exists_codes_attempt_iff hne⟩, verdict_writeLists_iff⟩
  intro path hpath hcodes hfiles
  refine hasks.tried.read_of_ne hlaw (fun a ha => ?_) hpath fun a ha heq => ?_
  · rcases htried a ha with hf | hc
    · exact hf ▸ hpaths (settings.path_mem_paths .files)
    · exact hc ▸ hpaths (settings.path_mem_paths .codes)
  · rcases htried a ha with hf | hc
    · exact hfiles (heq.symm.trans hf)
    · exact hcodes (heq.symm.trans hc)

end

/-- a store of both lists and another file, of which the list of codes cannot be written -/
def sharedStore : Memory :=
  .ofFiles [("c", Json.write ["TS2322", "TS7006"]), ("x", "notes"), ("f", Json.write ["src/a.ts"])]
    ["c"]

theorem stored_sharedStore : Stored sharedStore ⟨"c", "f", false, true⟩
    (.ofLists ["TS7006", "TS2322"] ["src/a.ts"]) where
  codes := by
    refine ⟨["TS2322", "TS7006"], by decide +kernel, fun s => ?_⟩
    rw [AllowLists.ofLists, AllowList.mem_ofList]
    simp [or_comm]
  files := by
    refine ⟨["src/a.ts"], by decide +kernel, fun s => ?_⟩
    rw [AllowLists.ofLists, AllowList.mem_ofList]

/-- Only the list of files is on disk where the list of codes is refused, and the update fails. -/
theorem persisted_of_update_refused_codes :
    let held := AllowLists.ofLists ["TS7006", "TS2322"] ["src/a.ts"]
    let update := writeLists sharedStore ⟨"c", "f", false, true⟩ held (.ofLists ["TS2322"] ["lib/b.ts"])
    Stored sharedStore ⟨"c", "f", false, true⟩ held ∧
      update.persisted.codes.entries = ["TS7006", "TS2322"] ∧
      update.persisted.files.entries = ["lib/b.ts"] ∧
      Stored update.files ⟨"c", "f", false, true⟩ update.persisted ∧
      TextFiles.read update.files "x" = .ok "notes" ∧
      writesOf update.events = [("f", none), ("c", some .readOnly)] ∧ update.verdict ≠ .pass := by
  intro held update
  obtain ⟨hstored, hother, -, hverdict⟩ :=
    persisted_of_update (Memory.lawfulAt Set.univ sharedStore) (Set.subset_univ _) (by decide)
      stored_sharedStore (.ofLists ["TS2322"] ["lib/b.ts"])
  have hcodes : update.persisted.codes.entries = ["TS7006", "TS2322"] := by decide +kernel
  refine ⟨stored_sharedStore, hcodes, by decide +kernel, hstored, ?_, by decide +kernel, ?_⟩
  · rw [hother "x" (Set.mem_univ _) (by decide) (by decide)]
    rfl
  · rw [Ne, hverdict]
    rintro ⟨hsame, -⟩
    have hstale := (hsame "TS7006").1 (hcodes ▸ List.mem_cons_self)
    rw [AllowLists.ofLists, AllowList.mem_ofList] at hstale
    simp at hstale

end DiagnosticGate
