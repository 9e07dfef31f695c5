import DiagnosticGate.Proofs.Storage
import DiagnosticGate.Proofs.Utf8
import DiagnosticGate.Storage.Disk
import Mathlib.Data.Set.Operations

/-!
Reading back from a disk.

A file that is written stands where the walk along its path has led, and no directory goes away
thereby. So every walk leads where it did, and the same walk finds what was written, unless it leads
to the file that keeps nothing. At paths that lead to different places a disk is lawful.
-/

namespace DiagnosticGate.Storage

namespace FileTree

variable {t u v x : FileTree} {es : List (String × FileTree)} {m n s : String}
variable {above names p q start start' : List String} {ss ss' : List String}

/-- whether a file keeps nothing -/
def isSink : FileTree → Bool
  | sink => true
  | file _ | dir _ => false

/-- whether there is a file that keeps what is written -/
def isFile : FileTree → Bool
  | file _ => true
  | sink | dir _ => false

theorem isSink_iff : t.isSink ↔ t = sink := by
  cases t <;> simp [isSink]

/-! ### Looking up in a tree -/

theorem lookup_putEntry :
    (putEntry n u es).lookup m = if m == n then some u else es.lookup m := by
  induction es with
  | nil => by_cases h : m == n <;> simp [putEntry, List.lookup_cons, h]
  | cons e es ih =>
    obtain ⟨k, x⟩ := e
    by_cases hk : k = n
    · subst hk
      by_cases h : m == k <;> simp [putEntry, List.lookup_cons, h]
    · by_cases h : m == n
      · obtain rfl : m = n := by simpa using h
        have hm : (m == k) = false := by simpa using Ne.symm hk
        simp [putEntry, List.lookup_cons, hk, hm, ih]
      · by_cases hm : m == k <;> simp [putEntry, List.lookup_cons, hk, hm, ih, h]

theorem get?_dir : (dir es).get? (n :: names) = (es.lookup n).bind (·.get? names) := by
  rw [get?, entry?]
  cases es.lookup n <;> rfl

theorem get?_append : t.get? (p ++ q) = (t.get? p).bind (·.get? q) := by
  induction p generalizing t with
  | nil => rfl
  | cons n p ih =>
    rw [List.cons_append, get?, get?]
    cases t.entry? n with
    | none => rfl
    | some x => exact ih

theorem get?_of_not_isDir (h : t.isDir = false) : t.get? (n :: names) = none := by
  cases t with
  | dir es => cases h
  | file bytes => rfl
  | sink => rfl

theorem exists_of_isDir (h : t.isDir) : ∃ es, t = dir es := by
  cases t with
  | dir es => exact ⟨es, rfl⟩
  | file bytes => cases h
  | sink => cases h

theorem hasDir_iff : t.hasDir names ↔ ∃ es, t.get? names = some (dir es) := by
  rw [hasDir]
  cases t.get? names with
  | none => simp
  | some x => cases x <;> simp [isDir]

theorem hasDir_of_get? (h : t.get? (above ++ n :: names) = some x) : t.hasDir above := by
  rw [get?_append] at h
  obtain ⟨v, hv, hx⟩ := Option.bind_eq_some_iff.1 h
  rw [hasDir, hv, Option.any_some]
  by_contra hd
  rw [get?_of_not_isDir (by simpa using hd)] at hx
  cases hx

theorem get?_dropLast (h : (t.get? names).isSome) : (t.get? names.dropLast).isSome := by
  rcases List.eq_nil_or_concat names with rfl | ⟨above, n, rfl⟩
  · exact h
  · rw [List.concat_eq_append] at h ⊢
    obtain ⟨x, hx⟩ := Option.isSome_iff_exists.1 h
    obtain ⟨es, hes⟩ := hasDir_iff.1 (hasDir_of_get? hx)
    rw [List.dropLast_concat, hes, Option.isSome_some]

/-! ### Setting a place of a tree -/

theorem get?_set_of_hasDir (h : t.hasDir above) :
    (t.set u (above ++ [n])).get? (above ++ [n]) = some u := by
  induction above generalizing t with
  | nil =>
    obtain ⟨es, rfl⟩ := exists_of_isDir h
    simp [set, get?, entry?, lookup_putEntry]
  | cons m above ih =>
    obtain ⟨es, hes⟩ := hasDir_iff.1 h
    cases t with
    | file bytes => cases hes
    | sink => cases hes
    | dir entries =>
      cases hm : entries.lookup m with
      | none => simp [get?, entry?, hm] at hes
      | some x =>
        have hx : x.hasDir above := hasDir_iff.2 ⟨es, by simpa [get?, entry?, hm] using hes⟩
        simp [set, get?, entry?, lookup_putEntry, hm, ih hx]

/-- What is there stays there when a file is set or replaced, and directories stay directories. -/
theorem exists_get?_set (hfile : t.hasDir names = false) (hq : t.get? q = some v) :
    ∃ w, (t.set u names).get? q = some w ∧ (v.isDir → w.isDir) := by
  induction names generalizing t q with
  | nil =>
    cases q with
    | nil =>
      obtain rfl : t = v := Option.some.inj hq
      exact ⟨u, rfl, fun hd => absurd hd (by simpa [hasDir, get?] using hfile)⟩
    | cons m q =>
      rw [get?_of_not_isDir hfile] at hq
      cases hq
  | cons n names ih =>
    cases t with
    | file bytes => exact ⟨v, hq, id⟩
    | sink => exact ⟨v, hq, id⟩
    | dir es =>
      cases q with
      | nil =>
        cases hq
        exact ⟨_, rfl, id⟩
      | cons m q =>
        by_cases hm : m = n
        · subst hm
          cases hl : es.lookup m with
          | none => simp [get?, entry?, hl] at hq
          | some x =>
            have hx : x.hasDir names = false := by simpa [hasDir, get?, entry?, hl] using hfile
            obtain ⟨w, hw, hdir⟩ := ih hx (by simpa [get?, entry?, hl] using hq)
            exact ⟨w, by simpa [set, get?, entry?, lookup_putEntry, hl] using hw, hdir⟩
        · refine ⟨v, ?_, id⟩
          simpa [set, get?, entry?, lookup_putEntry, hm] using hq

theorem hasDir_set (hfile : t.hasDir names = false) (hd : t.hasDir q) :
    (t.set u names).hasDir q := by
  obtain ⟨es, hes⟩ := hasDir_iff.1 hd
  obtain ⟨w, hw, hwd⟩ := exists_get?_set (u := u) hfile hes
  rw [hasDir, hw, Option.any_some]
  exact hwd rfl

theorem get?_set_of_not_prefix (hp : ¬ p <+: q) (hq : ¬ q <+: p) :
    (t.set u p).get? q = t.get? q := by
  induction p generalizing t q with
  | nil => exact absurd List.nil_prefix hp
  | cons n p ih =>
    cases q with
    | nil => exact absurd List.nil_prefix hq
    | cons m q =>
      cases t with
      | file bytes => rfl
      | sink => rfl
      | dir es =>
        rw [set, get?_dir, get?_dir, lookup_putEntry]
        by_cases hm : m = n
        · subst hm
          rw [List.cons_prefix_cons] at hp hq
          have hbelow (x : FileTree) : (x.set u p).get? q = x.get? q :=
            ih (fun h => hp ⟨rfl, h⟩) fun h => hq ⟨rfl, h⟩
          cases es.lookup m with
          | some x => simpa using hbelow x
          | none =>
            -- a directory is made for what is set, in which nothing else is
            cases q with
            | nil => exact absurd ⟨rfl, List.nil_prefix⟩ hq
            | cons k q =>
              rw [beq_self_eq_true, if_pos rfl]
              exact hbelow .empty
        · simp [hm]

/-! ### Walking -/

/-- A walk ends where something is, or beside the entries of a directory. -/
theorem walk_cases (hstart : (t.get? start).isSome) (h : t.walk start ss = .ok names) :
    (t.get? names).isSome ∨ ∃ above n, names = above ++ [n] ∧ t.hasDir above := by
  fun_induction walk t start ss with
  | case1 start =>
    cases h
    exact .inl hstart
  | case2 => cases h
  | case3 start ss hdir ih => exact ih hstart h
  | case4 start ss hdir hdot ih => exact ih (get?_dropLast hstart) h
  | case5 => cases h
  | case6 start s ss hdir hdot hup hlong hnone hlast =>
    cases h
    exact .inr ⟨start, s, rfl, by simpa using hdir⟩
  | case7 => cases h
  | case8 start s ss hdir hdot hup hlong hsome ih =>
    exact ih (by simpa [Option.isSome_iff_ne_none] using hsome) h

theorem get?_set_of_walk (hstart : (t.get? start).isSome) (h : t.walk start ss = .ok names) :
    (t.set u names).get? names = some u := by
  rcases walk_cases hstart h with hsome | ⟨above, n, rfl, hdir⟩
  · rcases List.eq_nil_or_concat names with rfl | ⟨above, n, rfl⟩
    · rfl
    · rw [List.concat_eq_append] at hsome ⊢
      obtain ⟨x, hx⟩ := Option.isSome_iff_exists.1 hsome
      exact get?_set_of_hasDir (hasDir_of_get? hx)
  · exact get?_set_of_hasDir hdir

theorem hasDir_of_walk (hstart : (t.get? start).isSome) (h : t.walk start ss = .ok (p ++ n :: q)) :
    t.hasDir p := by
  rcases walk_cases hstart h with hsome | ⟨above, m, heq, hdir⟩
  · obtain ⟨x, hx⟩ := Option.isSome_iff_exists.1 hsome
    exact hasDir_of_get? hx
  · rcases List.eq_nil_or_concat q with rfl | ⟨q, k, rfl⟩
    · obtain ⟨rfl, -⟩ := List.append_inj' heq rfl
      exact hdir
    · rw [List.concat_eq_append, ← List.cons_append, ← List.append_assoc] at heq
      obtain ⟨rfl, -⟩ := List.append_inj' heq rfl
      obtain ⟨es, hes⟩ := hasDir_iff.1 hdir
      exact hasDir_of_get? hes

/-- **A file that is set changes no walk.** -/
theorem walk_set (hfile : t.hasDir p = false) (h : t.walk start ss = .ok names) :
    (t.set u p).walk start ss = .ok names := by
  fun_induction walk t start ss with
  | case1 start => exact h
  | case2 => cases h
  | case3 start ss hdir ih =>
    rw [walk, hasDir_set hfile (by simpa using hdir)]
    simpa using ih h
  | case4 start ss hdir hdot ih =>
    rw [walk, hasDir_set hfile (by simpa using hdir)]
    simpa using ih h
  | case5 => cases h
  | case6 start s ss hdir hdot hup hlong hnone hlast =>
    -- the walk was to end at a new name, which may be there now
    cases h
    obtain rfl := List.isEmpty_iff.1 hlast
    rw [walk, hasDir_set hfile (by simpa using hdir)]
    cases (t.set u p).get? (start ++ [s]) <;> simp [hdot, hup, hlong, walk]
  | case7 => cases h
  | case8 start s ss hdir hdot hup hlong hsome ih =>
    obtain ⟨x, hx⟩ : ∃ x, t.get? (start ++ [s]) = some x := by
      simpa [← Option.isSome_iff_exists, Option.isSome_iff_ne_none] using hsome
    obtain ⟨w, hw, -⟩ := exists_get?_set (u := u) hfile hx
    rw [walk, hasDir_set hfile (by simpa using hdir)]
    simpa [hdot, hup, hlong, hw] using ih h

/-- What is set is not seen where another walk leads, unless that is a directory. -/
theorem get?_set_of_walk_ne (hp : (t.get? start).isSome) (hq : (t.get? start').isSome)
    (hwalk : t.walk start ss = .ok p) (hwalk' : t.walk start' ss' = .ok q) (hfile : t.hasDir p = false)
    (hfile' : t.hasDir q = false) (hne : q ≠ p) : (t.set u p).get? q = t.get? q := by
  refine get?_set_of_not_prefix ?_ ?_
  · rintro ⟨below, rfl⟩
    cases below with
    | nil => exact hne (List.append_nil p)
    | cons n below =>
      rw [hasDir_of_walk hq hwalk'] at hfile
      cases hfile
  · rintro ⟨below, rfl⟩
    cases below with
    | nil => exact hne (List.append_nil q).symm
    | cons n below =>
      rw [hasDir_of_walk hp hwalk] at hfile'
      cases hfile'

end FileTree

namespace Disk

variable {d next : Disk} {path : String} {bytes : List UInt8} {names ss : List String}

/-! ### Reading what was written -/

theorem segmentsFrom_ne_nil {held cs : List Char} (h : held ≠ []) : segmentsFrom held cs ≠ [] := by
  induction cs generalizing held with
  | nil => simp [segmentsFrom, closeSegment, h]
  | cons c cs ih =>
    rw [segmentsFrom]
    split
    · simp [closeSegment, h]
    · exact ih (List.cons_ne_nil c held)

theorem locate_eq_ok_iff : d.locate path ss = .ok names ↔ d.root.walk (start path) ss = .ok names := by
  rw [locate]
  cases d.root.walk (start path) ss with
  | ok ns => simp [Except.mapError]
  | error f => simp [Except.mapError]

theorem locate_set {u : FileTree} {place : List String} (hfile : d.root.hasDir place = false)
    (h : d.locate path ss = .ok names) : Disk.locate ⟨d.root.set u place⟩ path ss = .ok names :=
  locate_eq_ok_iff.2 (FileTree.walk_set hfile (locate_eq_ok_iff.1 h))

theorem isSome_get?_start (hpath : path ≠ "") (h : d.locate path (segments path) = .ok names) :
    (d.root.get? (start path)).isSome := by
  by_cases habs : path.toList.head? = some '/'
  · rw [start, if_pos habs]
    rfl
  · have hsegments : segments path ≠ [] := by
      cases hp : path.toList with
      | nil => exact absurd (String.toList_injective hp) hpath
      | cons c cs =>
        have hc : c ≠ '/' := by simpa [hp] using habs
        rw [segments, hp, segmentsFrom, if_neg hc]
        exact segmentsFrom_ne_nil (List.cons_ne_nil c [])
    obtain ⟨s, ss, hs⟩ := List.exists_cons_of_ne_nil hsegments
    have hdir : d.root.hasDir (start path) := by
      by_contra hd
      rw [locate_eq_ok_iff, hs, FileTree.walk, if_pos (by simpa using hd)] at h
      cases h
    obtain ⟨es, hes⟩ := FileTree.hasDir_iff.1 hdir
    rw [hes, Option.isSome_some]

/-- whether a path leads to a file that keeps nothing -/
def discards (d : Disk) (path : String) : Bool :=
  match d.locate path (segments path) with
  | .ok names => (d.root.get? names).any FileTree.isSink
  | .error _ => false

theorem discards_iff (h : d.locate path (segments path) = .ok names) :
    d.discards path ↔ d.root.get? names = some .sink := by
  rw [discards, h]
  simp only [Option.any_eq_true, FileTree.isSink_iff]
  constructor
  · rintro ⟨x, hx, rfl⟩
    exact hx
  · exact fun hx => ⟨_, hx, rfl⟩

/-- **All that writing can do**: a file is set where the path leads, or nothing is kept. -/
theorem writeBytes_cases (h : d.writeBytes path bytes = .ok next) :
    pathFault? path = none ∧ namesDirectory path = false ∧
      ∃ names, d.locate path (segments path) = .ok names ∧ d.root.hasDir names = false ∧
        (d.root.get? names = some .sink ∧ next = d ∨
          d.root.get? names ≠ some .sink ∧ next = ⟨d.root.set (.file bytes) names⟩) := by
  unfold writeBytes at h
  cases hfault : pathFault? path with
  | some f => simp only [hfault, bind, Except.bind, reduceCtorEq] at h
  | none =>
    cases hend : namesDirectory path with
    | true =>
      simp only [hfault, hend, bind, Except.bind, if_true] at h
      repeat' split at h
      all_goals cases h
    | false =>
      simp only [hfault, hend, bind, Except.bind, Bool.false_eq_true, if_false] at h
      cases hnames : d.locate path (segments path) with
      | error f => simp only [hnames, reduceCtorEq] at h
      | ok names =>
        simp only [hnames] at h
        refine ⟨rfl, rfl, names, rfl, ?_⟩
        rw [FileTree.hasDir]
        split at h
        · cases h
        · rename_i hsink
          cases h
          exact ⟨by rw [hsink]; rfl, .inl ⟨hsink, rfl⟩⟩
        · rename_i hdir hsink
          cases h
          refine ⟨?_, .inr ⟨hsink, rfl⟩⟩
          cases hget : d.root.get? names with
          | none => rfl
          | some x =>
            cases x with
            | dir es => exact absurd hget (hdir es)
            | file _ | sink => rfl

theorem readBytes_of_file (hfault : pathFault? path = none) (hend : namesDirectory path = false)
    (hnames : d.locate path (segments path) = .ok names)
    (hfile : d.root.get? names = some (.file bytes)) : d.readBytes path = .ok bytes := by
  simp [readBytes, hfault, hend, hnames, hfile, bind, Except.bind]

theorem readBytes_of_sink (hfault : pathFault? path = none) (hend : namesDirectory path = false)
    (hnames : d.locate path (segments path) = .ok names)
    (hsink : d.root.get? names = some .sink) : d.readBytes path = .ok [] := by
  simp [readBytes, hfault, hend, hnames, hsink, bind, Except.bind]

/-- **What is written is read back**, whatever the file held before, unless the path leads to a file
that keeps nothing. -/
theorem readBytes_writeBytes (h : d.writeBytes path bytes = .ok next) :
    next.readBytes path = .ok (if d.discards path then [] else bytes) := by
  obtain ⟨hfault, hend, names, hnames, hfile, ⟨hsink, rfl⟩ | ⟨hsink, rfl⟩⟩ := writeBytes_cases h
  · rw [if_pos ((discards_iff hnames).2 hsink)]
    exact readBytes_of_sink hfault hend hnames hsink
  · rw [if_neg (mt (discards_iff hnames).1 hsink)]
    have hpath : path ≠ "" := by
      rintro rfl
      cases hfault
    have hwalk := locate_eq_ok_iff.1 hnames
    have hset := FileTree.get?_set_of_walk (u := .file bytes) (isSome_get?_start hpath hnames) hwalk
    exact readBytes_of_file hfault hend (locate_set hfile hnames) hset

theorem read_of_readBytes {text : String} (h : d.readBytes path = .ok bytes)
    (hdecode : Text.decode bytes = .ok text) : TextFiles.read d path = .ok text := by
  simp only [TextFiles.read, h, hdecode, bind, Except.bind]

/-! ### Paths that lead to different places -/

/-- A path leads to `names`, where a file is that keeps what is written, or can be made. -/
structure LeadsTo (d : Disk) (path : String) (names : List String) : Prop where
  sound : pathFault? path = none
  namesFile : namesDirectory path = false
  located : d.locate path (segments path) = .ok names
  isFile : (d.root.get? names).all FileTree.isFile

namespace LeadsTo

variable {other : String} {names' : List String}

theorem hasDir_eq_false (h : d.LeadsTo path names) : d.root.hasDir names = false := by
  have hfile := h.isFile
  rw [FileTree.hasDir]
  cases hget : d.root.get? names with
  | none => rfl
  | some x =>
    cases x with
    | dir es => simp [hget, FileTree.isFile] at hfile
    | file _ | sink => rfl

theorem isSome_get?_start (h : d.LeadsTo path names) : (d.root.get? (start path)).isSome := by
  refine Disk.isSome_get?_start ?_ h.located
  rintro rfl
  cases h.sound

theorem walk (h : d.LeadsTo path names) : d.root.walk (start path) (segments path) = .ok names :=
  locate_eq_ok_iff.1 h.located

theorem writeBytes_eq (h : d.LeadsTo path names) (bytes : List UInt8) :
    d.writeBytes path bytes = .ok ⟨d.root.set (.file bytes) names⟩ := by
  have hfile := h.isFile
  simp only [writeBytes, h.sound, h.namesFile, h.located, bind, Except.bind, Bool.false_eq_true,
    if_false]
  split
  · rename_i hget
    simp [hget, FileTree.isFile] at hfile
  · rename_i hget
    simp [hget, FileTree.isFile] at hfile
  · rfl

theorem set_self (h : d.LeadsTo path names) (bytes : List UInt8) :
    LeadsTo ⟨d.root.set (.file bytes) names⟩ path names := by
  refine ⟨h.sound, h.namesFile, locate_set h.hasDir_eq_false h.located, ?_⟩
  rw [FileTree.get?_set_of_walk h.isSome_get?_start h.walk]
  rfl

theorem get?_set_of_ne (h : d.LeadsTo path names) (ho : d.LeadsTo other names') (hne : names' ≠ names)
    (bytes : List UInt8) : (d.root.set (.file bytes) names).get? names' = d.root.get? names' :=
  FileTree.get?_set_of_walk_ne h.isSome_get?_start ho.isSome_get?_start h.walk ho.walk
    h.hasDir_eq_false ho.hasDir_eq_false hne

theorem set_of_ne (h : d.LeadsTo path names) (ho : d.LeadsTo other names') (hne : names' ≠ names)
    (bytes : List UInt8) : LeadsTo ⟨d.root.set (.file bytes) names⟩ other names' := by
  refine ⟨ho.sound, ho.namesFile, locate_set h.hasDir_eq_false ho.located, ?_⟩
  rw [h.get?_set_of_ne ho hne]
  exact ho.isFile

theorem readBytes_congr (h : d.LeadsTo path names) (hn : next.LeadsTo path names)
    (hget : next.root.get? names = d.root.get? names) : next.readBytes path = d.readBytes path := by
  simp only [readBytes, h.sound, h.located, hn.located, hget, bind, Except.bind]

end LeadsTo

/-- Each of `paths` leads to the place that is given for it, and no two to the same. -/
structure Apart (d : Disk) (paths : Set String) (place : String → List String) : Prop where
  leads : ∀ path ∈ paths, d.LeadsTo path (place path)
  distinct : Set.InjOn place paths

namespace Apart

variable {paths : Set String} {place : String → List String} {text : String}

theorem write_eq (h : d.Apart paths place) (hpath : path ∈ paths) (text : String) :
    TextFiles.write d path text = .ok ⟨d.root.set (.file (Text.encode text)) (place path)⟩ :=
  (h.leads path hpath).writeBytes_eq (Text.encode text)

/-- **One write** keeps the paths apart. It is read where it was made and nowhere else. -/
theorem write (h : d.Apart paths place) (hpath : path ∈ paths)
    (hwrite : TextFiles.write d path text = .ok next) : next.Apart paths place ∧
      ∀ other ∈ paths,
        TextFiles.read next other = if other = path then .ok text else TextFiles.read d other := by
  have hleads := h.leads path hpath
  rw [h.write_eq hpath] at hwrite
  cases hwrite
  have hother {other : String} (hin : other ∈ paths) (hne : other ≠ path) : place other ≠ place path :=
    fun heq => hne (h.distinct hin hpath heq)
  have hnext (other : String) (hin : other ∈ paths) :
      LeadsTo ⟨d.root.set (.file (Text.encode text)) (place path)⟩ other (place other) := by
    by_cases heq : other = path
    · rw [heq]
      exact hleads.set_self _
    · exact hleads.set_of_ne (h.leads other hin) (hother hin heq) _
  refine ⟨⟨hnext, h.distinct⟩, fun other hin => ?_⟩
  by_cases heq : other = path
  · subst heq
    rw [if_pos rfl]
    have hset := FileTree.get?_set_of_walk (u := .file (Text.encode text)) hleads.isSome_get?_start
      hleads.walk
    have hfound := hnext other hin
    exact read_of_readBytes (readBytes_of_file hfound.sound hfound.namesFile hfound.located hset)
      (Text.decode_eq_ok_iff.2 rfl)
  · rw [if_neg heq]
    have hsame := (h.leads other hin).readBytes_congr (hnext other hin)
      (hleads.get?_set_of_ne (h.leads other hin) (hother hin heq) _)
    simp only [TextFiles.read, hsame]

theorem written (h : d.Apart paths place) (hw : WrittenAt paths d next) : next.Apart paths place := by
  induction hw with
  | none => exact h
  | next _ hpath hwrite ih => exact (ih.write hpath hwrite).1

/-- **A disk is lawful at paths that lead to different files.** -/
theorem lawfulAt (h : d.Apart paths place) : LawfulAt paths d :=
  fun _ _ _ _ hw hpath hwrite => ((h.written hw).write hpath hwrite).2

theorem writableAt (h : d.Apart paths place) : WritableAt paths d :=
  fun _ hw _ hpath text => ⟨_, (h.written hw).write_eq hpath text⟩

end Apart

/-! ### The lists of a disk -/

/-- **Lists make the round trip.** The texts that are written are read again, in the same order. A
list that has been saved is read back from its path, whatever was there before, unless the path leads
to a file that keeps nothing. Such a file holds no list. -/
theorem readTexts_saveTexts_eq : (∀ texts, parseTexts (Json.write texts) = .ok texts) ∧
    ∀ (d next : Disk) (path : String) (texts : List String) (allowMissing : Bool),
      saveTexts d path texts = .ok next → readTexts next path allowMissing =
        if d.discards path then .error ⟨path, .noJson ⟨.endInValue, 1, 0⟩⟩ else .ok (some texts) := by
  refine ⟨parseTexts_write, ?_⟩
  intro d next path texts allowMissing h
  have hbytes := readBytes_writeBytes (write_of_saveTexts h : d.writeBytes path _ = .ok next)
  split at hbytes
  · rename_i hdiscards
    have hread : TextFiles.read next path = .ok "" := read_of_readBytes hbytes rfl
    have hparse : parseTexts "" = .error (.noJson ⟨.endInValue, 1, 0⟩) := by decide +kernel
    simp only [readTexts, hread, hparse, if_pos hdiscards]
  · rename_i hkeeps
    have hread : TextFiles.read next path = .ok (Json.write texts) :=
      read_of_readBytes hbytes (Text.decode_eq_ok_iff.2 rfl)
    simp only [readTexts, hread, parseTexts_write, if_neg hkeeps]

/-- a disk with a directory and a file that holds no text -/
def used : Disk := (Disk.empty.makeDir "d").place "f" [0x5b, 0x22, 0xff]

/-- A path that goes down and up again, and texts of all kinds. -/
theorem readTexts_saveTexts_eq_used : ∃ next,
    saveTexts used "d/.././f" ["\"\\", "", "é\n😀", "", "\x00\x1f/"] = .ok next ∧
    readTexts next "d/.././f" false = .ok (some ["\"\\", "", "é\n😀", "", "\x00\x1f/"]) := by
  have hsaved : (saveTexts used "d/.././f" ["\"\\", "", "é\n😀", "", "\x00\x1f/"]).isOk := by
    decide +kernel
  have hkeeps : used.discards "d/.././f" = false := by decide +kernel
  cases hnext : saveTexts used "d/.././f" ["\"\\", "", "é\n😀", "", "\x00\x1f/"] with
  | error f => simp [hnext, Except.isOk, Except.toBool] at hsaved
  | ok next =>
    have hread := readTexts_saveTexts_eq.2 _ _ _ _ false hnext
    rw [hkeeps] at hread
    exact ⟨next, rfl, hread⟩

/-- A list that is saved to the null device is not there afterwards. -/
theorem not_readTexts_of_every_saveTexts : ¬ ∀ (d next : Disk) (path : String) (texts : List String),
    saveTexts d path texts = .ok next → readTexts next path false = .ok (some texts) := by
  intro hall
  have hno : (saveTexts Disk.empty "../../dev/null" ["a"]).map
      (readTexts · "../../dev/null" false) =
        .ok (.error ⟨"../../dev/null", .noJson ⟨.endInValue, 1, 0⟩⟩) := by
    decide +kernel
  cases hnext : saveTexts Disk.empty "../../dev/null" ["a"] with
  | error f => simp [hnext, Except.map] at hno
  | ok next => simp [hnext, Except.map, hall _ _ _ _ hnext] at hno

end Disk

end DiagnosticGate.Storage
