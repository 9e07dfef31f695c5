import DiagnosticGate.Proofs.AllowList
import DiagnosticGate.Proofs.Storage
import DiagnosticGate.Update

/-!
What the files hold once lists have been written.

Each of the two writes can fail by itself, and a failed write leaves its file. Where the files held
the lists before, they hold the lists that are answered as persisted afterwards.
-/

namespace DiagnosticGate

open Storage

variable {σ : Type} [TextFiles σ] {store : σ} {settings : Settings}

/-! ### One list -/

/-- **All that writing one list can do**: nothing, if its members have not changed, a write that
succeeds, or one that fails. -/
theorem writeList_cases (store : σ) (settings : Settings) (list : Which) (held wanted : AllowList) :
    (held.agrees wanted ∧ writeList store settings list held wanted =
      ⟨store, .pass, [.note (.unchanged list (settings.path list))]⟩) ∨
    (¬ held.agrees wanted ∧ ∃ next, saveTexts store (settings.path list) wanted.sorted = .ok next ∧
      writeList store settings list held wanted = ⟨next, .pass, [.message (.updating list),
        .note (.saved wanted.sorted.length (settings.path list)), .message (.updated list)]⟩) ∨
    (¬ held.agrees wanted ∧ ∃ e, saveTexts store (settings.path list) wanted.sorted = .error e ∧
      writeList store settings list held wanted = ⟨store, .fail, [.message (.updating list),
        .message (.updateFailed list), .message (.listFault e)]⟩) := by
  unfold writeList
  by_cases h : held.agrees wanted
  · exact .inl ⟨h, if_pos h⟩
  · rw [if_neg h]
    cases hs : saveTexts store (settings.path list) wanted.sorted with
    | ok next => exact .inr (.inl ⟨h, next, rfl, by simp only [hs]⟩)
    | error e => exact .inr (.inr ⟨h, e, rfl, by simp only [hs]⟩)

section

variable {paths : Set String} {list : Which} {held wanted disk : AllowList} {path : String}

theorem written_writeList (hpath : settings.path list ∈ paths) :
    WrittenAt paths store (writeList store settings list held wanted).files := by
  rcases writeList_cases store settings list held wanted with ⟨-, hw⟩ | ⟨-, next, hs, hw⟩ |
    ⟨-, e, -, hw⟩ <;> rw [hw]
  · exact .none
  · exact written_of_saveTexts hpath hs
  · exact .none

theorem holds_of_save {next : σ} (hl : LawfulAt paths store) (hpath : path ∈ paths)
    (h : saveTexts store path wanted.sorted = .ok next) : Holds next path wanted := by
  refine ⟨wanted.sorted, hl.readTexts_saveTexts hpath h false, ?_⟩
  intro s
  exact AllowList.mem_sorted

theorem holds_writeList (hl : LawfulAt paths store) (hpath : settings.path list ∈ paths)
    (h : Holds store (settings.path list) held) :
    ((writeList store settings list held wanted).verdict = .pass ∧
      Holds (writeList store settings list held wanted).files (settings.path list) wanted) ∨
    ((writeList store settings list held wanted).verdict = .fail ∧
      Holds (writeList store settings list held wanted).files (settings.path list) held) := by
  rcases writeList_cases store settings list held wanted with ⟨ha, hw⟩ | ⟨-, next, hs, hw⟩ |
    ⟨-, e, -, hw⟩
  · rw [hw]
    obtain ⟨texts, hr, hmem⟩ := h
    have hsame := AllowList.agrees_iff.1 ha
    exact .inl ⟨rfl, texts, hr, fun s => (hmem s).trans (hsame s)⟩
  · rw [hw]
    exact .inl ⟨rfl, holds_of_save hl hpath hs⟩
  · rw [hw]
    exact .inr ⟨rfl, h⟩

theorem exists_holds_writeList (hl : LawfulAt paths store) (hpath : settings.path list ∈ paths)
    (h : Holds store (settings.path list) disk) :
    ∃ disk, Holds (writeList store settings list held wanted).files (settings.path list) disk := by
  rcases writeList_cases store settings list held wanted with ⟨-, hw⟩ | ⟨-, next, hs, hw⟩ |
    ⟨-, e, -, hw⟩
  · rw [hw]
    exact ⟨disk, h⟩
  · rw [hw]
    exact ⟨wanted, holds_of_save hl hpath hs⟩
  · rw [hw]
    exact ⟨disk, h⟩

theorem Storage.Holds.writeList (h : Holds store path disk) (hl : LawfulAt paths store)
    (hpath : settings.path list ∈ paths) (hother : path ∈ paths) (hne : path ≠ settings.path list) :
    Holds (writeList store settings list held wanted).files path disk := by
  rcases writeList_cases store settings list held wanted with ⟨-, hw⟩ | ⟨-, next, hs, hw⟩ |
    ⟨-, e, -, hw⟩
  · rw [hw]
    exact h
  · rw [hw]
    exact h.congr (hl.readTexts_saveTexts_of_ne hpath hs hother hne false)
  · rw [hw]
    exact h

end

/-! ### Both lists -/

/-- The files of both lists can be read, and hold their members. -/
structure Stored (store : σ) (settings : Settings) (lists : AllowLists) : Prop where
  codes : Holds store settings.codesPath lists.codes
  files : Holds store settings.filesPath lists.files

theorem Stored.iff_agrees {held lists : AllowLists} (h : Stored store settings held) :
    Stored store settings lists ↔ held.agrees lists := by
  have hiff : ∀ {path : String} {a b : AllowList}, Holds store path a →
      (Holds store path b ↔ a.agrees b) := by
    rintro path a b ⟨texts, hr, hmem⟩
    rw [AllowList.agrees_iff]
    constructor
    · rintro ⟨texts', hr', hmem'⟩ s
      rw [hr] at hr'
      cases hr'
      rw [← hmem, hmem']
    · intro hab
      exact ⟨texts, hr, fun s => (hmem s).trans (hab s)⟩
  rw [AllowLists.agrees_iff, ← hiff h.codes, ← hiff h.files]
  exact ⟨fun hs => ⟨hs.codes, hs.files⟩, fun hs => ⟨hs.1, hs.2⟩⟩

theorem Stored.congr {next : σ} {lists : AllowLists} (h : Stored store settings lists)
    (hread : ∀ path, TextFiles.read next path = TextFiles.read store path) :
    Stored next settings lists :=
  ⟨h.codes.congr (readTexts_congr (hread _) false), h.files.congr (readTexts_congr (hread _) false)⟩

/-- Both lists are tried, or the first write has failed and ends the update. -/
theorem writeLists_cases (store : σ) (settings : Settings) (held wanted : AllowLists) :
    ((writeList store settings .files held.files wanted.files).verdict = .fail ∧
      writeLists store settings held wanted =
        ⟨(writeList store settings .files held.files wanted.files).files, .fail, held,
          (writeList store settings .files held.files wanted.files).events⟩) ∨
    ((writeList store settings .files held.files wanted.files).verdict = .pass ∧
      ∃ second, second = writeList (writeList store settings .files held.files wanted.files).files
          settings .codes held.codes wanted.codes ∧
        writeLists store settings held wanted =
          ⟨second.files, second.verdict,
            ⟨if second.verdict = .fail then held.codes else wanted.codes, wanted.files⟩,
            (writeList store settings .files held.files wanted.files).events ++ second.events⟩) := by
  unfold writeLists
  cases h : (writeList store settings .files held.files wanted.files).verdict with
  | fail => exact .inl ⟨rfl, by simp only [h]⟩
  | pass =>
    refine .inr ⟨rfl, _, rfl, ?_⟩
    simp only [h]
    cases (writeList (writeList store settings .files held.files wanted.files).files settings .codes
      held.codes wanted.codes).verdict <;> rfl

theorem writeLists_self (store : σ) (settings : Settings) (lists : AllowLists) :
    (writeLists store settings lists lists).files = store ∧
      (writeLists store settings lists lists).verdict = .pass ∧
      (writeLists store settings lists lists).persisted = lists ∧
      messagesOf (writeLists store settings lists lists).events = [] := by
  have hone : ∀ (list : Which) (l : AllowList), writeList store settings list l l =
      ⟨store, .pass, [.note (.unchanged list (settings.path list))]⟩ := by
    intro list l
    exact if_pos l.agrees_refl
  simp only [writeLists, hone]
  exact ⟨trivial, trivial, trivial, rfl⟩

/-- the write that a list whose members change needs, with the path of its file -/
def AllowList.write (path : String) (held wanted : AllowList) : List (String × List String) :=
  if held.agrees wanted then [] else [(path, wanted.sorted)]

/-- the writes that an update comes to, in order -/
def AllowLists.writes (settings : Settings) (held wanted : AllowLists) :
    List (String × List String) :=
  held.files.write settings.filesPath wanted.files ++
    held.codes.write settings.codesPath wanted.codes

/-- Writing one list comes before the writes behind it, and a failure ends them all. -/
theorem saveAll_write (store : σ) (settings : Settings) (list : Which) (held wanted : AllowList)
    (rest : List (String × List String)) :
    let first := writeList store settings list held wanted
    let all := saveAll store (held.write (settings.path list) wanted ++ rest)
    (first.verdict = .pass ∧ all.files = (saveAll first.files rest).files ∧
        all.verdict = (saveAll first.files rest).verdict) ∨
      (first.verdict = .fail ∧ all.files = first.files ∧ all.verdict = .fail) := by
  intro first all
  unfold first all AllowList.write
  rcases writeList_cases store settings list held wanted with ⟨ha, hw⟩ | ⟨ha, next, hs, hw⟩ |
    ⟨ha, e, hs, hw⟩
  · rw [hw, if_pos ha]
    exact .inl ⟨rfl, rfl, rfl⟩
  · rw [hw, if_neg ha]
    simp only [List.singleton_append, saveAll, hs]
    exact .inl ⟨trivial, trivial, trivial⟩
  · rw [hw, if_neg ha]
    simp only [List.singleton_append, saveAll, hs]
    exact .inr ⟨trivial, trivial, trivial⟩

theorem writeList_eq_saveAll (store : σ) (settings : Settings) (list : Which)
    (held wanted : AllowList) :
    let all := saveAll store (held.write (settings.path list) wanted)
    (writeList store settings list held wanted).files = all.files ∧
      (writeList store settings list held wanted).verdict = all.verdict := by
  intro all
  have hwrite := saveAll_write store settings list held wanted []
  rw [List.append_nil] at hwrite
  rcases hwrite with ⟨hp, hf, hverdict⟩ | ⟨hp, hf, hverdict⟩
  · exact ⟨hf.symm, hp.trans hverdict.symm⟩
  · exact ⟨hf.symm, hp.trans hverdict.symm⟩

/-- **An update saves the lists that have changed**, up to the first that cannot be saved. -/
theorem writeLists_eq_saveAll (store : σ) (settings : Settings) (held wanted : AllowLists) :
    let all := saveAll store (held.writes settings wanted)
    (writeLists store settings held wanted).files = all.files ∧
      (writeLists store settings held wanted).verdict = all.verdict := by
  intro all
  have hfiles := saveAll_write store settings .files held.files wanted.files
    (held.codes.write settings.codesPath wanted.codes)
  rcases writeLists_cases store settings held wanted with ⟨hv, hw⟩ | ⟨hv, second, hsecond, hw⟩ <;>
    rw [hw]
  · rcases hfiles with ⟨hp, -⟩ | ⟨-, hf, hverdict⟩
    · rw [hv] at hp; cases hp
    · exact ⟨hf.symm, hverdict.symm⟩
  · rcases hfiles with ⟨-, hf, hverdict⟩ | ⟨hp, -⟩
    · obtain ⟨hf', hverdict'⟩ := writeList_eq_saveAll
        (writeList store settings .files held.files wanted.files).files settings .codes held.codes
        wanted.codes
      rw [← hsecond] at hf' hverdict'
      exact ⟨hf'.trans hf.symm, hverdict'.trans hverdict.symm⟩
    · rw [hv] at hp; cases hp

theorem AllowLists.writes_congr {held held' wanted wanted' : AllowLists} (settings : Settings)
    (hh : held.agrees held') (hw : wanted.agrees wanted') :
    held.writes settings wanted = held'.writes settings wanted' := by
  have hone : ∀ {path : String} {a a' b b' : AllowList}, a.agrees a' → b.agrees b' →
      a.write path b = a'.write path b' := by
    intro path a a' b b' ha hb
    rw [AllowList.write, AllowList.write, AllowList.agrees_congr ha hb,
      AllowList.sorted_of_agrees hb]
  obtain ⟨hcodes, hfiles⟩ := AllowLists.agrees_iff.1 hh
  obtain ⟨hcodes', hfiles'⟩ := AllowLists.agrees_iff.1 hw
  rw [writes, writes, hone hfiles hfiles', hone hcodes hcodes']

/-- both lists with their paths, in the order in which they are saved -/
def AllowLists.saves (settings : Settings) (lists : AllowLists) : List (String × List String) :=
  [(settings.filesPath, lists.files.sorted), (settings.codesPath, lists.codes.sorted)]

theorem AllowLists.saves_congr {lists lists' : AllowLists} (settings : Settings)
    (h : lists.agrees lists') : lists.saves settings = lists'.saves settings := by
  obtain ⟨hcodes, hfiles⟩ := AllowLists.agrees_iff.1 h
  rw [saves, saves, AllowList.sorted_of_agrees hcodes, AllowList.sorted_of_agrees hfiles]

theorem persisted_writeLists (store : σ) (settings : Settings) (held wanted : AllowLists) :
    ((writeLists store settings held wanted).persisted.codes = held.codes ∨
      (writeLists store settings held wanted).persisted.codes = wanted.codes) ∧
    ((writeLists store settings held wanted).persisted.files = held.files ∨
      (writeLists store settings held wanted).persisted.files = wanted.files) := by
  rcases writeLists_cases store settings held wanted with ⟨-, hw⟩ | ⟨-, second, -, hw⟩
  · rw [hw]
    exact ⟨.inl rfl, .inl rfl⟩
  · rw [hw]
    refine ⟨?_, .inr rfl⟩
    by_cases h : second.verdict = .fail
    · exact .inl (if_pos h)
    · exact .inr (if_neg h)

section

variable {held wanted disk : AllowLists}

theorem written_writeLists (store : σ) (settings : Settings) (held wanted : AllowLists) :
    WrittenAt settings.paths store (writeLists store settings held wanted).files := by
  have hfirst : WrittenAt settings.paths store
      (writeList store settings .files held.files wanted.files).files :=
    written_writeList (settings.path_mem_paths .files)
  rcases writeLists_cases store settings held wanted with ⟨-, hw⟩ | ⟨-, second, hsecond, hw⟩
  · rw [hw]
    exact hfirst
  · rw [hw, hsecond]
    exact hfirst.trans (written_writeList (settings.path_mem_paths .codes))

/-- **The files hold what is answered as persisted**, whichever of the two writes fail. -/
theorem Stored.writeLists (hl : LawfulAt settings.paths store)
    (hne : settings.codesPath ≠ settings.filesPath) (h : Stored store settings held) :
    Stored (writeLists store settings held wanted).files settings
      (writeLists store settings held wanted).persisted := by
  have hcodesPath : settings.codesPath ∈ settings.paths := settings.path_mem_paths .codes
  have hfilesPath : settings.filesPath ∈ settings.paths := settings.path_mem_paths .files
  have hfiles := @holds_writeList σ _ store settings _ .files held.files wanted.files hl hfilesPath
    h.files
  have hcodes : Holds (writeList store settings .files held.files wanted.files).files
      settings.codesPath held.codes := h.codes.writeList hl hfilesPath hcodesPath hne
  have hnext : LawfulAt settings.paths
      (writeList store settings .files held.files wanted.files).files :=
    hl.of_written (written_writeList hfilesPath)
  rcases writeLists_cases store settings held wanted with ⟨hv, hw⟩ | ⟨hv, second, hsecond, hw⟩
  · -- the list of files could not be written, and the list of codes was not tried
    rcases hfiles with ⟨hp, -⟩ | ⟨-, hkept⟩
    · rw [hv] at hp; cases hp
    · rw [hw]
      exact ⟨hcodes, hkept⟩
  · rcases hfiles with ⟨-, hnew⟩ | ⟨hf, -⟩
    · have hsecondFiles : Holds second.files settings.filesPath wanted.files := by
        rw [hsecond]
        exact Holds.writeList hnew hnext hcodesPath hfilesPath hne.symm
      rw [hw]
      refine ⟨?_, hsecondFiles⟩
      rcases @holds_writeList σ _ _ settings _ .codes held.codes wanted.codes hnext hcodesPath hcodes
        with ⟨hp, hc⟩ | ⟨hp, hc⟩ <;> rw [← hsecond] at hp hc
      · rw [if_neg (by simp [hp])]
        exact hc
      · rw [if_pos hp]
        exact hc
    · rw [hv] at hf; cases hf

theorem exists_stored_writeLists (hl : LawfulAt settings.paths store)
    (hne : settings.codesPath ≠ settings.filesPath) (h : Stored store settings disk) :
    ∃ disk, Stored (DiagnosticGate.writeLists store settings held wanted).files settings disk := by
  have hcodesPath : settings.codesPath ∈ settings.paths := settings.path_mem_paths .codes
  have hfilesPath : settings.filesPath ∈ settings.paths := settings.path_mem_paths .files
  obtain ⟨files, hfiles⟩ := @exists_holds_writeList σ _ store settings _ .files held.files
    wanted.files _ hl hfilesPath h.files
  have hcodes : Holds (writeList store settings .files held.files wanted.files).files
      settings.codesPath disk.codes := h.codes.writeList hl hfilesPath hcodesPath hne
  have hnext : LawfulAt settings.paths
      (writeList store settings .files held.files wanted.files).files :=
    hl.of_written (written_writeList hfilesPath)
  rcases writeLists_cases store settings held wanted with ⟨-, hw⟩ | ⟨-, second, hsecond, hw⟩
  · rw [hw]
    exact ⟨⟨disk.codes, files⟩, hcodes, hfiles⟩
  · obtain ⟨codes, hnew⟩ := @exists_holds_writeList σ _ _ settings _ .codes held.codes
      wanted.codes _ hnext hcodesPath hcodes
    rw [hw, hsecond]
    exact ⟨⟨codes, files⟩, hnew, Holds.writeList hfiles hnext hcodesPath hfilesPath hne.symm⟩

end

theorem Storage.WritableAt.persisted_writeLists (h : WritableAt settings.paths store)
    (held wanted : AllowLists) :
    (DiagnosticGate.writeLists store settings held wanted).persisted = wanted := by
  -- a single write passes, and no write behind it fails
  have hone : ∀ {store : σ} (list : Which) (held wanted : AllowList), WritableAt settings.paths store →
      (writeList store settings list held wanted).verdict = .pass ∧
        WritableAt settings.paths (writeList store settings list held wanted).files := by
    intro store list held wanted hw
    obtain ⟨after, hafter, hnext⟩ := hw.saveTexts (settings.path_mem_paths list) wanted.sorted
    rcases writeList_cases store settings list held wanted with ⟨-, heq⟩ | ⟨-, next, hs, heq⟩ |
      ⟨-, e, hs, heq⟩ <;> rw [heq]
    · exact ⟨rfl, hw⟩
    · rw [hafter] at hs
      cases hs
      exact ⟨rfl, hnext⟩
    · rw [hafter] at hs
      cases hs
  obtain ⟨hpass, hfirst⟩ := hone .files held.files wanted.files h
  rcases writeLists_cases store settings held wanted with ⟨hv, -⟩ | ⟨-, second, hsecond, hw⟩
  · rw [hpass] at hv
    cases hv
  · obtain ⟨hpass', -⟩ := hone .codes held.codes wanted.codes hfirst
    rw [← hsecond] at hpass'
    rw [hw, hpass']
    rfl

/-! ### Making both lists -/

/-- the lists of all codes and all files of the diagnostics -/
def AllowLists.named (ds : List Diagnostic) : AllowLists :=
  .ofLists (ds.map (·.code)) (ds.map (·.file))

theorem makeLists_eq (store : σ) (settings : Settings) (ds : List Diagnostic) :
    makeLists store settings ds =
      { saveAll store ((AllowLists.named ds).saves settings) with
        events := .message .initializing ::
          (saveAll store ((AllowLists.named ds).saves settings)).events } := rfl

theorem saves_of_makeLists {ds : List Diagnostic} (h : (makeLists store settings ds).verdict = .pass) :
    ∃ first,
      saveTexts store settings.filesPath (AllowList.ofList (ds.map (·.file))).sorted = .ok first ∧
      saveTexts first settings.codesPath (AllowList.ofList (ds.map (·.code))).sorted =
        .ok (makeLists store settings ds).files := by
  simp only [makeLists, saveAll] at h ⊢
  cases hf : saveTexts store settings.filesPath (AllowList.ofList (ds.map (·.file))).sorted with
  | error e =>
    rw [hf] at h
    cases h
  | ok first =>
    simp only [hf] at h ⊢
    cases hc : saveTexts first settings.codesPath (AllowList.ofList (ds.map (·.code))).sorted with
    | error e =>
      rw [hc] at h
      cases h
    | ok second => exact ⟨first, rfl, by rw [hc]⟩

/-- **Lists that have been made are read back**, in order. -/
theorem reads_of_makeLists (hl : LawfulAt settings.paths store)
    (hne : settings.codesPath ≠ settings.filesPath) {ds : List Diagnostic}
    (h : (makeLists store settings ds).verdict = .pass) (allowMissing : Bool) :
    readTexts (makeLists store settings ds).files settings.codesPath allowMissing =
        .ok (some (AllowList.ofList (ds.map (·.code))).sorted) ∧
      readTexts (makeLists store settings ds).files settings.filesPath allowMissing =
        .ok (some (AllowList.ofList (ds.map (·.file))).sorted) := by
  have hcodesPath : settings.codesPath ∈ settings.paths := settings.path_mem_paths .codes
  have hfilesPath : settings.filesPath ∈ settings.paths := settings.path_mem_paths .files
  obtain ⟨first, hf, hc⟩ := saves_of_makeLists h
  have hfirst : LawfulAt settings.paths first := hl.of_written (written_of_saveTexts hfilesPath hf)
  refine ⟨hfirst.readTexts_saveTexts hcodesPath hc allowMissing, ?_⟩
  rw [hfirst.readTexts_saveTexts_of_ne hcodesPath hc hfilesPath hne.symm allowMissing]
  exact hl.readTexts_saveTexts hfilesPath hf allowMissing

theorem Storage.WritableAt.verdict_makeLists (h : WritableAt settings.paths store)
    (ds : List Diagnostic) : (makeLists store settings ds).verdict = .pass := by
  obtain ⟨first, hfirst, hw⟩ :=
    h.saveTexts (settings.path_mem_paths .files) (AllowList.ofList (ds.map (·.file))).sorted
  obtain ⟨second, hsecond, -⟩ :=
    hw.saveTexts (settings.path_mem_paths .codes) (AllowList.ofList (ds.map (·.code))).sorted
  simp only [Settings.path] at hfirst hsecond
  simp only [makeLists, saveAll, hfirst, hsecond]

end DiagnosticGate
