import DiagnosticGate.Proofs.Update

/-!
What is asked of a store.

Writes are tried one after the other, and one that is refused leaves the store as it was. Whatever is
computed with a store depends on nothing of it but the answers: stores of two kinds that answer the
same writes alike come to the same result. So it can be said which writes are tried, those that are
refused among them, and that the events tell of these and of no others.
-/

namespace DiagnosticGate

namespace Storage

/-- a write that was tried: the store it was asked of, its path and text, and the answer -/
structure Attempt (σ : Type) where
  store : σ
  path : String
  text : String
  answer : Except FileFault σ

namespace Attempt

variable {σ : Type}

/-- the write itself -/
def write (a : Attempt σ) : String × String := (a.path, a.text)

/-- The write was taken. -/
def Succeeded (a : Attempt σ) : Prop := ∃ next, a.answer = .ok next

/-- the fault for which the write was refused -/
def fault? (a : Attempt σ) : Option FileFault :=
  match a.answer with
  | .ok _ => none
  | .error f => some f

/-- what is told of the write: its path, and the fault if it was refused -/
def told (a : Attempt σ) : String × Option FileFault := (a.path, a.fault?)

/-- the store behind the write -/
def left (a : Attempt σ) : σ :=
  match a.answer with
  | .ok next => next
  | .error _ => a.store

/-- Stores of this kind answer the write in this way. -/
def AnsweredBy (a : Attempt σ) (kind : TextFiles σ) : Prop :=
  kind.write a.store a.path a.text = a.answer

end Attempt

/-- Writes that are tried one after the other lead from one store to another. -/
inductive Tried {σ : Type} (kind : TextFiles σ) : σ → List (Attempt σ) → σ → Prop
  | none (store : σ) : Tried kind store [] store
  | next {a : Attempt σ} {rest : List (Attempt σ)} {left : σ} (h : a.AnsweredBy kind) :
    Tried kind a.left rest left → Tried kind a.store (a :: rest) left

/-- **What a computation asks of a store.** From `store` on it tries `saves`, which lead to `left`, and
nothing else: with stores of any kind that answers these writes alike it comes to the same result. -/
structure Asks {σ α : Type} (kind : TextFiles σ) (run : TextFiles σ → α) (store : σ)
    (saves : List (Attempt σ)) (left : σ) : Prop where
  tried : Tried kind store saves left
  alone : ∀ other : TextFiles σ, (∀ a ∈ saves, a.AnsweredBy other) → run other = run kind

section

variable {σ α β : Type} {kind : TextFiles σ} {run : TextFiles σ → α} {store left : σ}
variable {saves : List (Attempt σ)}

/-- What does not depend on the kind of the store asks nothing. -/
theorem asks_nothing (h : ∀ other, run other = run kind) (store : σ) : Asks kind run store [] store :=
  ⟨.none store, fun other _ => h other⟩

theorem Asks.map (h : Asks kind run store saves left) (f : α → β) :
    Asks kind (fun other => f (run other)) store saves left :=
  ⟨h.tried, fun other hother => congrArg f (h.alone other hother)⟩

end

section

variable {σ : Type}

/-- the attempt to save texts -/
def attempt [TextFiles σ] (store : σ) (path : String) (texts : List String) : Attempt σ :=
  ⟨store, path, Json.write texts, TextFiles.write store path (Json.write texts)⟩

-- the kind of a store is an ordinary argument here, as two kinds are compared
variable {kind : TextFiles σ} {store next : σ} {path : String} {texts : List String}

theorem left_attempt_of_ok (h : saveTexts store path texts = .ok next) :
    (attempt store path texts).left = next := by
  rw [Attempt.left, attempt, write_of_saveTexts h]

theorem left_attempt_of_error {e : ListFileError} (h : saveTexts store path texts = .error e) :
    (attempt store path texts).left = store := by
  obtain ⟨f, hw, -⟩ := write_of_saveTexts_error h
  rw [Attempt.left, attempt, hw]

theorem succeeded_attempt (h : saveTexts store path texts = .ok next) :
    (attempt store path texts).Succeeded := ⟨next, write_of_saveTexts h⟩

theorem told_attempt_of_ok (h : saveTexts store path texts = .ok next) :
    (attempt store path texts).told = (path, none) := by
  rw [Attempt.told, Attempt.fault?, attempt, write_of_saveTexts h]

theorem told_attempt_of_error {e : ListFileError} (h : saveTexts store path texts = .error e) :
    ∃ f, e = ⟨path, .unwritable f⟩ ∧ (attempt store path texts).told = (path, some f) := by
  obtain ⟨f, hw, he⟩ := write_of_saveTexts_error h
  refine ⟨f, he, ?_⟩
  rw [Attempt.told, Attempt.fault?, attempt, hw]

theorem saveTexts_alone {other : TextFiles σ}
    (h : (@attempt σ kind store path texts).AnsweredBy other) :
    @saveTexts σ other store path texts = @saveTexts σ kind store path texts := by
  have hwrite : other.write store path (Json.write texts) =
    kind.write store path (Json.write texts) := h
  unfold saveTexts
  rw [hwrite]

end

end Storage

open Storage

variable {σ : Type}

/-- the attempts to save lists that are given with their paths, up to the first that fails -/
def attempts [TextFiles σ] (store : σ) : List (String × List String) → List (Attempt σ)
  | [] => []
  | (path, texts) :: rest =>
    match saveTexts store path texts with
    | .error _ => [attempt store path texts]
    | .ok next => attempt store path texts :: attempts next rest

namespace AllowLists

theorem writes_sublist (settings : Settings) (held wanted : AllowLists) :
    (held.writes settings wanted).Sublist (wanted.saves settings) := by
  have hone : ∀ (path : String) (a b : AllowList), (a.write path b).Sublist [(path, b.sorted)] := by
    intro path a b
    unfold AllowList.write
    split
    · exact List.nil_sublist _
    · exact List.Sublist.refl _
  exact (hone settings.filesPath held.files wanted.files).append
    (hone settings.codesPath held.codes wanted.codes)

end AllowLists

section

variable {kind : TextFiles σ} {store next : σ} {settings : Settings} {list : Which}
variable {held wanted : AllowList} {plan rest : List (String × List String)}

/-! ### Saving lists one after the other -/

section

variable {path : String} {texts : List String}

theorem attempts_of_error {e : ListFileError} (h : saveTexts store path texts = .error e) :
    attempts store ((path, texts) :: rest) = [attempt store path texts] := by
  simp only [attempts, h]

theorem attempts_of_ok (h : saveTexts store path texts = .ok next) :
    attempts store ((path, texts) :: rest) = attempt store path texts :: attempts next rest := by
  simp only [attempts, h]

theorem attempt_mem_attempts : attempt store path texts ∈ attempts store ((path, texts) :: rest) := by
  cases hs : saveTexts store path texts with
  | error e => simp [attempts_of_error hs]
  | ok next => simp [attempts_of_ok hs]

end

theorem attempts_in_order (store : σ) (plan : List (String × List String)) :
    (attempts store plan).map (·.write) <+: plan.map fun p => (p.1, Json.write p.2) := by
  induction plan generalizing store with
  | nil => exact List.nil_prefix
  | cons first rest ih =>
    obtain ⟨path, texts⟩ := first
    cases hs : saveTexts store path texts with
    | error e =>
      rw [attempts_of_error hs, List.map_cons, List.map_cons]
      exact List.cons_prefix_cons.2 ⟨rfl, List.nil_prefix⟩
    | ok next =>
      rw [attempts_of_ok hs, List.map_cons, List.map_cons]
      exact List.cons_prefix_cons.2 ⟨rfl, ih next⟩

theorem mem_of_mem_attempts {plan : List (String × List String)} {a : Attempt σ}
    (h : a ∈ attempts store plan) : ∃ p ∈ plan, a.path = p.1 ∧ a.text = Json.write p.2 := by
  have hmem := (attempts_in_order store plan).subset (List.mem_map_of_mem (f := (·.write)) h)
  obtain ⟨p, hp, heq⟩ := List.mem_map.1 hmem
  obtain ⟨hpath, htext⟩ := Prod.mk.inj heq
  exact ⟨p, hp, hpath.symm, htext.symm⟩

theorem pairwise_attempts (store : σ) (plan : List (String × List String)) :
    (attempts store plan).Pairwise fun a _ => a.Succeeded := by
  induction plan generalizing store with
  | nil => exact .nil
  | cons first rest ih =>
    obtain ⟨path, texts⟩ := first
    cases hs : saveTexts store path texts with
    | error e =>
      rw [attempts_of_error hs]
      exact List.pairwise_singleton _ _
    | ok next =>
      rw [attempts_of_ok hs]
      exact .cons (fun _ _ => succeeded_attempt hs) (ih next)

theorem attempts_append (store : σ) (plan rest : List (String × List String)) :
    attempts store (plan ++ rest) = attempts store plan ++
      if (saveAll store plan).verdict = .pass then attempts (saveAll store plan).files rest else [] := by
  induction plan generalizing store with
  | nil => simp [attempts, saveAll]
  | cons first more ih =>
    obtain ⟨path, texts⟩ := first
    cases hs : saveTexts store path texts with
    | error e => simp [attempts_of_error hs, saveAll, hs]
    | ok next =>
      rw [List.cons_append, attempts_of_ok hs, attempts_of_ok hs, ih next]
      simp [saveAll, hs]

theorem tried_attempts (store : σ) (plan : List (String × List String)) :
    Tried kind store (attempts store plan) (saveAll store plan).files := by
  induction plan generalizing store with
  | nil => exact .none store
  | cons first rest ih =>
    obtain ⟨path, texts⟩ := first
    have hanswered : (attempt store path texts).AnsweredBy kind := rfl
    cases hs : saveTexts store path texts with
    | error e =>
      have hlast := Tried.next hanswered (.none _)
      rw [left_attempt_of_error hs] at hlast
      simp only [attempts_of_error hs, saveAll, hs]
      exact hlast
    | ok next =>
      have hnext := Tried.next hanswered (ih _)
      rw [left_attempt_of_ok hs] at hnext
      simp only [attempts_of_ok hs, saveAll, hs]
      exact hnext

theorem saveAll_alone {other : TextFiles σ}
    (h : ∀ a ∈ @attempts σ kind store plan, a.AnsweredBy other) :
    @saveAll σ other store plan = @saveAll σ kind store plan := by
  induction plan generalizing store with
  | nil => rfl
  | cons first rest ih =>
    obtain ⟨path, texts⟩ := first
    unfold saveAll
    rw [saveTexts_alone (h _ attempt_mem_attempts)]
    cases hs : @saveTexts σ kind store path texts with
    | error e => rfl
    | ok next =>
      rw [attempts_of_ok hs] at h
      simp only [ih (List.forall_mem_cons.1 h).2]

/-- **Saving lists one after the other** asks for their writes, up to the first that fails. -/
theorem asks_saveAll (store : σ) (plan : List (String × List String)) :
    Asks kind (fun other => @saveAll σ other store plan) store (attempts store plan)
      (saveAll store plan).files :=
  ⟨tried_attempts store plan, fun _ h => saveAll_alone h⟩

theorem asks_makeLists (store : σ) (settings : Settings) (ds : List Diagnostic) :
    Asks kind (fun other => @makeLists σ other store settings ds) store
      (attempts store ((AllowLists.named ds).saves settings)) (makeLists store settings ds).files := by
  rw [funext fun other => @makeLists_eq σ other store settings ds]
  exact (asks_saveAll store ((AllowLists.named ds).saves settings)).map fun w =>
    { w with events := .message .initializing :: w.events }

/-! ### Writing what has changed -/

theorem writeList_alone {other : TextFiles σ}
    (h : ∀ a ∈ @attempts σ kind store (held.write (settings.path list) wanted), a.AnsweredBy other) :
    @writeList σ other store settings list held wanted =
      @writeList σ kind store settings list held wanted := by
  unfold writeList
  by_cases ha : held.agrees wanted
  · rw [if_pos ha, if_pos ha]
  · rw [AllowList.write, if_neg ha] at h
    simp only [if_neg ha, saveTexts_alone (h _ attempt_mem_attempts)]

theorem writeLists_alone {held wanted : AllowLists} {other : TextFiles σ}
    (h : ∀ a ∈ @attempts σ kind store (held.writes settings wanted), a.AnsweredBy other) :
    @writeLists σ other store settings held wanted = @writeLists σ kind store settings held wanted := by
  rw [AllowLists.writes, attempts_append] at h
  obtain ⟨hfiles, hcodes⟩ := List.forall_mem_append.1 h
  have hfirst := @writeList_alone σ kind store settings .files held.files wanted.files other hfiles
  unfold writeLists
  simp only [hfirst]
  cases hv : (@writeList σ kind store settings .files held.files wanted.files).verdict with
  | fail => rfl
  | pass =>
    -- the list of codes is tried on the store that the list of files has left
    obtain ⟨hsaved, hpassed⟩ :=
      @writeList_eq_saveAll σ kind store settings .files held.files wanted.files
    simp only [Settings.path] at hsaved hpassed
    rw [← hsaved, ← hpassed, if_pos hv] at hcodes
    simp only [@writeList_alone σ kind _ settings .codes held.codes wanted.codes other hcodes]

/-- **Writing the lists that have changed** asks for their writes, up to the first that fails. -/
theorem asks_writeLists (store : σ) (settings : Settings) (held wanted : AllowLists) :
    Asks kind (fun other => @writeLists σ other store settings held wanted) store
      (attempts store (held.writes settings wanted))
      (writeLists store settings held wanted).files := by
  refine ⟨?_, fun _ h => writeLists_alone h⟩
  rw [(writeLists_eq_saveAll store settings held wanted).1]
  exact tried_attempts store _

end

/-! ### What is told of writes -/

/-- the writes that events tell of: the path of each, and the fault if it was refused -/
def writesOf (events : List Event) : List (String × Option FileFault) :=
  events.filterMap fun
    | .note (.saved _ path) => some (path, none)
    | .message (.listFault ⟨path, .unwritable f⟩) => some (path, some f)
    | _ => none

theorem writesOf_append (xs ys : List Event) : writesOf (xs ++ ys) = writesOf xs ++ writesOf ys :=
  List.filterMap_append

section

variable [TextFiles σ]

theorem writesOf_saveAll (store : σ) (plan : List (String × List String)) :
    writesOf (saveAll store plan).events = (attempts store plan).map (·.told) := by
  induction plan generalizing store with
  | nil => rfl
  | cons first rest ih =>
    obtain ⟨path, texts⟩ := first
    cases hs : saveTexts store path texts with
    | error e =>
      obtain ⟨f, rfl, htold⟩ := told_attempt_of_error hs
      rw [attempts_of_error hs, List.map_singleton, htold]
      simp only [saveAll, hs]
      rfl
    | ok next =>
      rw [attempts_of_ok hs, List.map_cons, told_attempt_of_ok hs, ← ih next]
      simp only [saveAll, hs]
      rfl

theorem writesOf_writeList (store : σ) (settings : Settings) (list : Which)
    (held wanted : AllowList) : writesOf (writeList store settings list held wanted).events =
      (attempts store (held.write (settings.path list) wanted)).map (·.told) := by
  rcases writeList_cases store settings list held wanted with ⟨ha, hw⟩ | ⟨ha, next, hs, hw⟩ |
    ⟨ha, e, hs, hw⟩
  · rw [hw, AllowList.write, if_pos ha]
    rfl
  · rw [hw, AllowList.write, if_neg ha, attempts_of_ok hs, List.map_cons, told_attempt_of_ok hs]
    rfl
  · obtain ⟨f, rfl, htold⟩ := told_attempt_of_error hs
    rw [hw, AllowList.write, if_neg ha, attempts_of_error hs, List.map_singleton, htold]
    rfl

theorem writesOf_writeLists (store : σ) (settings : Settings) (held wanted : AllowLists) :
    writesOf (writeLists store settings held wanted).events =
      (attempts store (held.writes settings wanted)).map (·.told) := by
  have hfirst := writesOf_writeList store settings .files held.files wanted.files
  obtain ⟨hsaved, hpassed⟩ := writeList_eq_saveAll store settings .files held.files wanted.files
  simp only [Settings.path] at hfirst hsaved hpassed
  rw [AllowLists.writes, attempts_append, List.map_append, ← hfirst, ← hsaved, ← hpassed]
  rcases writeLists_cases store settings held wanted with ⟨hv, hw⟩ | ⟨hv, second, rfl, hw⟩
  · rw [hw, hv, if_neg (by decide), List.map_nil, List.append_nil]
  · rw [hw, hv, if_pos rfl, writesOf_append, writesOf_writeList _ settings .codes]
    rfl

end

end DiagnosticGate
