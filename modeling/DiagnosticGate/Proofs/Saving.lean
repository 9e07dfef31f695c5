import DiagnosticGate.Proofs.Asking
import DiagnosticGate.Proofs.Verdict

/-!
When lists are saved.

A gate asks its store for nothing but the lists that a compilation with diagnostics wants to be saved:
the list of files first, the list of codes behind it, and nothing behind a write that is refused. A
gate that only reports asks for nothing at all, and so does every call that ends no compilation. Each
write that is tried is told, with the fault if it is refused.
-/

namespace DiagnosticGate

open Storage

/-! ### What is to be saved -/

namespace Judged

/-- the lists that judged diagnostics ask for -/
def wanted (settings : Settings) (lists : AllowLists) (j : Judged) : AllowLists :=
  if settings.init then .named j.findings.all
  else (resolve true j.findings.split j.coverage lists).result

/-- the lists that are to be saved for them, with their paths and in order -/
def plan (settings : Settings) (lists : AllowLists) (j : Judged) : List (String × List String) :=
  if j.findings.all.isEmpty then []
  else if settings.init then (j.wanted settings lists).saves settings
  else if settings.autoUpdate then lists.writes settings (j.wanted settings lists)
  else []

variable {settings : Settings} {lists : AllowLists} {j : Judged}

theorem plan_of_none (h : j.findings.all = []) : j.plan settings lists = [] := by
  rw [plan, h]
  rfl

theorem plan_of_making (h : j.findings.all ≠ []) (hi : settings.init) :
    j.plan settings lists = (AllowLists.named j.findings.all).saves settings := by
  simp only [plan, wanted, List.isEmpty_iff, h, hi, if_true, if_false]

theorem plan_of_update (h : j.findings.all ≠ []) (hi : settings.init = false)
    (hu : settings.autoUpdate) : j.plan settings lists =
      lists.writes settings (resolve true j.findings.split j.coverage lists).result := by
  simp only [plan, wanted, List.isEmpty_iff, h, hi, hu, Bool.false_eq_true, if_true, if_false]

theorem plan_of_report (hi : settings.init = false) (hu : settings.autoUpdate = false) :
    j.plan settings lists = [] := by
  simp only [plan, hi, hu, Bool.false_eq_true, if_false, ite_self]

theorem mem_codes_wanted {c : String} (h : c ∈ (j.wanted settings lists).codes.entries) :
    ∃ d ∈ j.findings.all, d.code = c := by
  unfold wanted at h
  split at h
  · exact List.mem_map.1 (AllowList.mem_ofList.1 h)
  · rw [mem_codes_resolve, Findings.split_eq] at h
    exact h.2

theorem plan_sublist : (j.plan settings lists).Sublist ((j.wanted settings lists).saves settings) := by
  unfold plan
  split
  · exact List.nil_sublist _
  · split
    · exact List.Sublist.refl _
    · split
      · exact AllowLists.writes_sublist settings lists _
      · exact List.nil_sublist _

end Judged

/-- the end of a compilation as the answer to a call -/
def Completion.reply {σ : Type} (c : Completion σ) : Reply σ := ⟨c.gate, c.events, some c.verdict⟩

namespace Gate

/-- what a gate can be given -/
inductive Input
  | line (raw : String)
  | finish

section

variable {σ : Type} [TextFiles σ]

/-- the answer to an input; the end of the input always has a verdict -/
def reply (g : Gate σ) : Input → Reply σ
  | .line raw => g.line raw
  | .finish => g.finish.reply

/-- Whether an input ends a compilation: a line that is answered with a verdict, or the end of the
input outside of watch mode. -/
def completes (g : Gate σ) : Input → Bool
  | .line raw => (g.line raw).verdict.isSome
  | .finish => !g.watch.active

/-- the attempts to save lists that an input leads to -/
def saves (g : Gate σ) (input : Input) : List (Attempt σ) :=
  if g.completes input then attempts g.files (g.closePending.1.judged.plan g.settings g.lists)
  else []

variable {g : Gate σ}

theorem saves_of_completes {input : Input} (h : g.completes input) :
    g.saves input = attempts g.files (g.closePending.1.judged.plan g.settings g.lists) := if_pos h

theorem saves_of_open {input : Input} (h : g.completes input = false) : g.saves input = [] :=
  if_neg (by simp [h])

theorem saves_of_unanswered {raw : String} (h : (g.line raw).verdict = none) :
    g.saves (.line raw) = [] := saves_of_open (by rw [completes, h]; rfl)

theorem saves_of_answered {raw : String} (h : (g.line raw).verdict.isSome) :
    g.saves (.line raw) = attempts g.files (g.closePending.1.judged.plan g.settings g.lists) :=
  saves_of_completes h

theorem saves_finish_of_active (h : g.watch.active) : g.saves .finish = [] :=
  saves_of_open (by rw [completes, h]; rfl)

theorem saves_finish_of_idle (h : g.watch.active = false) :
    g.saves .finish = attempts g.files (g.closePending.1.judged.plan g.settings g.lists) :=
  saves_of_completes (by rw [completes, h]; rfl)

end

/-- What an update saves are the lists that it changes. -/
theorem plan_judged_of_update {σ : Type} {g : Gate σ} (h : g.findings.all ≠ [])
    (hi : g.settings.init = false) (hu : g.settings.autoUpdate) :
    g.judged.plan g.settings g.lists = g.lists.writes g.settings g.resolved.result := by
  have hall : g.judged.findings.all ≠ [] := h
  rw [Judged.plan_of_update hall hi hu, resolved, hu]
  rfl

/-! ### What is asked of the store -/

section

variable {σ : Type} {kind : TextFiles σ} {g : Gate σ} {raw : String}

/-- **Concluding** asks for the lists that the judged diagnostics want to be saved. -/
theorem asks_conclude (g : Gate σ) :
    Asks kind (fun other => @conclude σ other g) g.files
      (attempts g.files (g.judged.plan g.settings g.lists)) g.conclude.gate.files := by
  by_cases h : g.findings.all = []
  · rw [Judged.plan_of_none h, conclude_of_none h, funext fun other => @conclude_of_none σ other g h]
    exact asks_nothing (fun _ => rfl) g.files
  cases hi : g.settings.init with
  | true =>
    have hmake := (@asks_makeLists σ kind g.files g.settings g.findings.all).map fun w =>
      (⟨{ g with files := w.files }, .message (.detected g.findings.all.length) :: w.events,
        w.verdict⟩ : Completion σ)
    rw [Judged.plan_of_making h hi, conclude_of_making h hi,
      funext fun other => @conclude_of_making σ other g h hi]
    exact hmake
  | false =>
    cases hu : g.settings.autoUpdate with
    | true =>
      have hupdate := (@asks_writeLists σ kind g.files g.settings g.lists g.resolved.result).map
        fun u : Update σ =>
          (⟨({ g with files := u.files }.follow u.persisted).1,
            (summary g.findings.split ++ g.resolved.messages).map .message ++ u.events ++
              ({ g with files := u.files }.follow u.persisted).2,
            g.resolved.verdict ||| u.verdict⟩ : Completion σ)
      -- going by the written lists leaves the store that the writes have left
      obtain ⟨coverage, lists, hfollow⟩ :=
        follow_frame { g with files := g.update.files } g.update.persisted
      rw [plan_judged_of_update h hi hu, conclude_of_update h hi hu,
        funext fun other => @conclude_of_update σ other g h hi hu, hfollow]
      exact hupdate
    | false =>
      rw [Judged.plan_of_report hi hu, conclude_of_report h hi hu,
        funext fun other => @conclude_of_report σ other g h hi hu]
      exact asks_nothing (fun _ => rfl) g.files

theorem asks_endCompilation (g : Gate σ) :
    Asks kind (fun other => @endCompilation σ other g) g.files
      (attempts g.files (g.closePending.1.judged.plan g.settings g.lists))
      g.endCompilation.gate.files := by
  have hconclude := (@asks_conclude σ kind g.closePending.1).map fun c =>
    (⟨{ c.gate.clear with lastVerdict := c.verdict }, g.closePending.2 ++ c.events, c.verdict⟩ :
      Completion σ)
  rw [files_closePending, settings_closePending, lists_closePending] at hconclude
  rw [endCompilation_eq, funext fun other => @endCompilation_eq σ other g]
  exact hconclude

theorem line_alone (h : (g.line raw).verdict = none) (other : TextFiles σ) :
    @line σ other g raw = @line σ kind g raw := by
  rcases @line_cases σ kind g raw with ⟨hs, -⟩ | ⟨hs, hc, -⟩ | ⟨-, -, -, hl⟩ | ⟨hs, hc, hf, -⟩
  · simp only [line, hs, if_true]
  · simp only [line, hs, hc, Bool.false_eq_true, if_true, if_false]
  · rw [hl] at h
    cases h
  · simp only [line, hs, hc, hf, Bool.false_eq_true, if_false]

theorem line_of_answered (h : (g.line raw).verdict.isSome) (other : TextFiles σ) :
    @line σ other g raw = (@endCompilation σ other g).reply := by
  rcases @line_cases σ kind g raw with ⟨-, hl⟩ | ⟨-, -, hl⟩ | ⟨hs, hc, hf, -⟩ | ⟨-, -, -, hl⟩
  · rw [hl] at h
    cases h
  · rw [hl] at h
    cases h
  · simp only [line, hs, hc, hf, Bool.false_eq_true, if_true, if_false]
    rfl
  · rw [hl] at h
    cases h

theorem asks_line (g : Gate σ) (raw : String) :
    Asks kind (fun other => @line σ other g raw) g.files (g.saves (.line raw))
      (g.line raw).gate.files := by
  cases hv : (g.line raw).verdict with
  | none =>
    rw [saves_of_unanswered hv, (frame_line_of_unanswered hv).1, funext (line_alone hv)]
    exact asks_nothing (fun _ => rfl) g.files
  | some verdict =>
    have hends : (g.line raw).verdict.isSome := by rw [hv]; rfl
    rw [saves_of_answered hends, line_of_answered hends, funext (line_of_answered hends)]
    exact (asks_endCompilation g).map Completion.reply

theorem asks_finish (g : Gate σ) :
    Asks kind (fun other => @finish σ other g) g.files (g.saves .finish) g.finish.gate.files := by
  cases ha : g.watch.active with
  | false =>
    rw [saves_finish_of_idle ha, finish_of_idle ha, funext fun other => @finish_of_idle σ other g ha]
    exact asks_endCompilation g
  | true =>
    have hsame : ∀ other, @finish σ other g = @finish σ kind g := by
      intro other
      simp only [finish, ha, if_true]
    rw [saves_finish_of_active ha, (finish_of_active ha).1, funext hsame]
    exact asks_nothing (fun _ => rfl) g.files

/-- **A call** asks for the lists that the compilation it ends wants to be saved, and otherwise for
nothing. -/
theorem asks_reply (g : Gate σ) (input : Input) :
    Asks kind (fun other => @reply σ other g input) g.files (g.saves input)
      (g.reply input).gate.files := by
  cases input with
  | line raw => exact asks_line g raw
  | finish => exact (asks_finish g).map Completion.reply

end

/-! ### What is told of writes -/

section

variable {σ : Type} {g : Gate σ}

theorem writesOf_take (g : Gate σ) (d : Diagnostic) : writesOf (g.take d).2 = [] := rfl

theorem writesOf_read (g : Gate σ) (text : String) : writesOf (g.read text).2 = [] := by
  unfold read
  split
  · rfl
  · exact writesOf_take _ _

theorem writesOf_closePending (g : Gate σ) : writesOf g.closePending.2 = [] := by
  unfold closePending Assembly.close
  cases g.assembly.pending with
  | none => rfl
  | some d => exact writesOf_take _ _

theorem writesOf_follow (g : Gate σ) (persisted : AllowLists) :
    writesOf (g.follow persisted).2 = [] := by
  rcases g.follow_cases persisted with ⟨-, hf⟩ | ⟨-, c, -, hf⟩ | ⟨-, e, -, hf⟩ <;> rw [hf] <;> rfl

theorem writesOf_report {apply : Bool} {split : Findings.Split} {coverage : Coverage}
    {lists : AllowLists} :
    writesOf ((summary split ++ (resolve apply split coverage lists).messages).map .message) = [] := by
  have hno : ∀ m ∈ summary split ++ (resolve apply split coverage lists).messages,
      ∀ e, m ≠ .listFault e := by
    intro m hm e
    rintro rfl
    rcases List.mem_append.1 hm with hm | hm
    · unfold summary at hm
      split at hm <;> simp at hm
    · exact listFault_not_mem_resolve hm
  rw [writesOf, List.filterMap_map, List.filterMap_eq_nil_iff]
  intro m hm
  cases m with
  | listFault e => exact absurd rfl (hno _ hm e)
  | _ => rfl

end

section

variable {σ : Type} [TextFiles σ] {g : Gate σ}

/-- **Each write that concluding tries is told.** -/
theorem writesOf_conclude (g : Gate σ) : writesOf g.conclude.events =
    (attempts g.files (g.judged.plan g.settings g.lists)).map (·.told) := by
  by_cases h : g.findings.all = []
  · rw [conclude_of_none h, Judged.plan_of_none h]
    rfl
  cases hi : g.settings.init with
  | true =>
    rw [conclude_of_making h hi, Judged.plan_of_making h hi]
    exact writesOf_saveAll g.files ((AllowLists.named g.findings.all).saves g.settings)
  | false =>
    cases hu : g.settings.autoUpdate with
    | true =>
      rw [conclude_of_update h hi hu, writesOf_append, writesOf_append, writesOf_follow,
        List.append_nil, resolved, writesOf_report, List.nil_append, plan_judged_of_update h hi hu]
      exact writesOf_writeLists g.files g.settings g.lists g.resolved.result
    | false =>
      rw [conclude_of_report h hi hu, Judged.plan_of_report hi hu, resolved, writesOf_report]
      rfl

theorem writesOf_endCompilation (g : Gate σ) : writesOf g.endCompilation.events =
    (attempts g.files (g.closePending.1.judged.plan g.settings g.lists)).map (·.told) := by
  have hconclude := writesOf_conclude g.closePending.1
  rw [files_closePending, settings_closePending, lists_closePending] at hconclude
  rw [endCompilation_eq, writesOf_append, writesOf_closePending, List.nil_append, hconclude]

theorem writesOf_line (g : Gate σ) (raw : String) :
    writesOf (g.line raw).events = (g.saves (.line raw)).map (·.told) := by
  rcases g.line_cases raw with ⟨-, hl⟩ | ⟨-, -, hl⟩ | ⟨-, -, -, hl⟩ | ⟨-, -, -, hl⟩
  · rw [saves_of_unanswered (by rw [hl]), hl]
    rfl
  · rw [saves_of_unanswered (by rw [hl]), hl]
    rfl
  · rw [saves_of_answered (by rw [hl]; rfl), hl]
    exact writesOf_endCompilation g
  · rw [saves_of_unanswered (by rw [hl]), hl]
    exact writesOf_read g _

theorem writesOf_finish (g : Gate σ) :
    writesOf g.finish.events = (g.saves .finish).map (·.told) := by
  cases ha : g.watch.active with
  | false =>
    rw [saves_finish_of_idle ha, finish_of_idle ha]
    exact writesOf_endCompilation g
  | true =>
    rw [saves_finish_of_active ha]
    simp only [finish, ha, if_true]
    split <;> rfl

/-- **Each write that a call tries is told.** -/
theorem writesOf_reply (g : Gate σ) (input : Input) :
    writesOf (g.reply input).events = (g.saves input).map (·.told) := by
  cases input with
  | line raw => exact writesOf_line g raw
  | finish => exact writesOf_finish g

end

/-! ### The lists in memory -/

section

variable {σ : Type} [TextFiles σ] {g₀ g : Gate σ} {events : List Event}

omit [TextFiles σ] in
theorem all_closePending (g : Gate σ) : g.closePending.1.judged.findings.all = g.diagnostics := by
  unfold closePending Assembly.close diagnostics
  cases g.assembly.pending with
  | none => exact (List.append_nil _).symm
  | some d =>
    rw [judged_take]
    unfold Judged.push
    split <;> exact Findings.all_push ..

theorem lists_conclude (h : g.settings.init ∨ g.settings.autoUpdate = false) :
    g.conclude.gate.lists = g.lists := by
  rcases g.conclude_cases with ⟨-, hc⟩ | ⟨-, -, hc⟩ | ⟨-, hi, hu, -⟩ | ⟨-, -, -, hc⟩
  · rw [hc]
  · rw [hc]
  · rcases h with h | h
    · rw [hi] at h
      cases h
    · rw [hu] at h
      cases h
  · rw [hc]

theorem lists_endCompilation (h : g.settings.init ∨ g.settings.autoUpdate = false) :
    g.endCompilation.gate.lists = g.lists := by
  rw [← settings_closePending] at h
  rw [endCompilation_eq]
  exact (lists_conclude h).trans g.lists_closePending

theorem lists_of_run {settings : Settings} (h : Kept settings [] g₀)
    (hfixed : settings.init ∨ settings.autoUpdate = false) (hrun : Run g₀ events g) :
    g.lists = g₀.lists := by
  induction hrun with
  | start => rfl
  | step hrun hcall ih =>
    have hsettings := (h.run hrun).settings
    rcases call_frame hcall with ⟨rfl, -⟩ | ⟨hl, -⟩
    · exact (lists_endCompilation (hsettings ▸ hfixed)).trans ih
    · exact hl.trans ih

theorem Run.reply (h : Run g₀ events g) (input : Input) :
    Run g₀ (events ++ (g.reply input).events) (g.reply input).gate := by
  cases input with
  | line raw => exact h.step (.line g raw)
  | finish => exact h.step (.finish g)

/-! ### When lists are saved -/

/-- What is saved is wanted by a compilation that has diagnostics and is ended by the call. -/
theorem completes_of_saves {input : Input} (h : g.saves input ≠ []) :
    g.completes input ∧ g.diagnostics ≠ [] := by
  unfold saves at h
  split at h
  · rename_i hends
    refine ⟨hends, fun hnone => h ?_⟩
    rw [Judged.plan_of_none (g.all_closePending.trans hnone)]
    rfl
  · exact absurd rfl h

theorem saves_of_report (hi : g.settings.init = false) (hu : g.settings.autoUpdate = false)
    (input : Input) : g.saves input = [] := by
  unfold saves
  rw [Judged.plan_of_report hi hu]
  exact ite_self _

theorem saves_sublist (g : Gate σ) (input : Input) : ∃ wanted : AllowLists,
    ((g.saves input).map (·.write)).Sublist
      [(g.settings.filesPath, Json.write wanted.files.sorted),
        (g.settings.codesPath, Json.write wanted.codes.sorted)] := by
  refine ⟨g.closePending.1.judged.wanted g.settings g.lists, ?_⟩
  unfold saves
  split
  · have hplan := (@Judged.plan_sublist g.settings g.lists g.closePending.1.judged).map
      fun p => (p.1, Json.write p.2)
    exact (attempts_in_order g.files _).sublist.trans hplan
  · exact List.nil_sublist _

theorem pairwise_saves (g : Gate σ) (input : Input) :
    (g.saves input).Pairwise fun a _ => a.Succeeded := by
  unfold saves
  split
  · exact pairwise_attempts g.files _
  · exact .nil

end

section

variable {σ : Type} {kind : TextFiles σ} {g₀ g : Gate σ} {events : List Event}

/-- **When lists are saved.** Whatever a gate has been fed since it was started, the next call asks
its store for these writes and for nothing else, and tells of each of them. If lists are neither made
nor updated, there are none. Otherwise they are tried only in a call that ends a compilation with
diagnostics: each list once at most, the list of files before the list of codes, and nothing behind a
write that has failed. Unless lists are updated and not made, those in memory never change. -/
theorem saves_of_run {files : σ} {settings : Settings} (h : (start files settings).2 = .ok g₀)
    (hrun : Run g₀ events g) (input : Input) :
    Asks kind (fun other => @reply σ other g input) g.files (g.saves input)
      (g.reply input).gate.files ∧
    writesOf (g.reply input).events = (g.saves input).map (·.told) ∧
    (settings.init = false → settings.autoUpdate = false → g.saves input = []) ∧
    (g.saves input ≠ [] → g.completes input ∧ g.diagnostics ≠ []) ∧
    (∃ wanted : AllowLists, ((g.saves input).map (·.write)).Sublist
      [(settings.filesPath, Json.write wanted.files.sorted),
        (settings.codesPath, Json.write wanted.codes.sorted)]) ∧
    ((g.saves input).Pairwise fun a _ => a.Succeeded) ∧
    (settings.init ∨ settings.autoUpdate = false →
      g.lists = g₀.lists ∧ (g.reply input).gate.lists = g₀.lists) := by
  have hkept := kept_start h
  have hsettings := (hkept.run hrun).settings
  refine ⟨g.asks_reply input, g.writesOf_reply input, ?_, completes_of_saves, ?_,
    g.pairwise_saves input, ?_⟩
  · intro hi hu
    exact saves_of_report (hsettings ▸ hi) (hsettings ▸ hu) input
  · rw [← hsettings]
    exact g.saves_sublist input
  · intro hfixed
    exact ⟨lists_of_run hkept hfixed hrun, lists_of_run hkept hfixed (hrun.reply input)⟩

end

/-- Both lists are to be made, and to be updated too. The list of files is refused, and so the list of
codes is not tried; the lists in memory stay. -/
theorem saves_of_run_refused_files :
    ∃ (g₀ : Gate Memory) (events : List Event) (g : Gate Memory) (a : Attempt Memory),
      (start (Memory.ofLists ["TS7006"] [] ["f"]) ⟨"c", "f", true, true⟩).2 = .ok g₀ ∧
      Run g₀ events g ∧ g.saves .finish = [a] ∧ a.write = ("f", "[\n  \"src/a.ts\"\n]\n") ∧
      ¬ a.Succeeded ∧ g.diagnostics ≠ [] ∧ (g.reply .finish).gate.lists = g₀.lists := by
  have hrun : ((start (Memory.ofLists ["TS7006"] [] ["f"]) ⟨"c", "f", true, true⟩).2.map fun g₀ =>
      let saves := ((g₀.lines ["src/a.ts(1,1): error TS2322: m"]).1.saves .finish)
      saves.map fun a => (a.write, a.answer.isOk)) =
      .ok [(("f", "[\n  \"src/a.ts\"\n]\n"), false)] := by decide +kernel
  obtain ⟨g₀, hstart, heq⟩ := exists_of_map_eq_ok hrun
  obtain ⟨a, ha, hboth⟩ := List.map_eq_singleton_iff.1 heq
  obtain ⟨hwrite, hfail⟩ := Prod.mk.inj hboth
  have hlines : Run g₀ _ _ := Run.start.lines ["src/a.ts(1,1): error TS2322: m"]
  obtain ⟨-, -, -, hends, -, -, hfixed⟩ := saves_of_run hstart hlines .finish
  refine ⟨g₀, _, _, a, hstart, hlines, ha, hwrite, ?_, (hends (by simp [ha])).2, (hfixed (.inl rfl)).2⟩
  rintro ⟨next, hok⟩
  rw [hok] at hfail
  cases hfail

end Gate

end DiagnosticGate
