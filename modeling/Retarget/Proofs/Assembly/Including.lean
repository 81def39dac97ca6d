import Mathlib.Data.List.Lex
import Retarget.Proofs.Assembly.Requests

/-!
# Included files

Files may include each other in any way. Loading ends all the same, since it comes to no file twice:
the table of files knows those that have been loaded or are being loaded, and an included file that
it knows is an error. A file is known by its canonical place, so that nothing here depends on the
names and links that lead to it: the statements hold for any `FileTree.canonical`.

* `FileTree.unread`: the files that have not been loaded;
* `FileTree.load_eq`: loading a file, without a bound on how deep files include each other;
* `FileTree.Visits`: the files that are loaded on the way, each with the lines that lead to it;
* `FileTree.Visits.known_of_lt`: the table of files knows all files that were visited before;
* `FileTree.Visits.load_eq_error`: an error in any of the files is the error of the whole.
-/

namespace Retarget

/-! ## Tables of files -/

namespace FileTable

variable {t t' : FileTable} {path : String}

theorem isSome_find?_mono (h : t <+: t') (hfind : (t.find? path).isSome = true) :
    (t'.find? path).isSome = true := by
  obtain ⟨more, rfl⟩ := h
  rw [find?, List.findIdx?_isSome] at hfind ⊢
  rw [List.any_append, hfind, Bool.true_or]

theorem isSome_find?_add : ((t.add path).1.find? path).isSome = true := by
  unfold add
  split
  · rename_i i hfind
    rw [hfind]
    rfl
  · simp [find?]

end FileTable

theorem Loading.isSome_find?_start (s : Session) (place : Place) :
    ((start s place).session.files.find? place.render).isSome = true := FileTable.isSome_find?_add

namespace FileTree

variable {t : FileTree} {search : List Place} {s s' s₁ s₂ : Session} {place p p' : Place}
  {text : String}
  {requester : Option SourceLine} {k depth depth' : Nat} {l : Loading} {src : List Char}
  {w : Request} {path path' : List Nat}

/-- How many files have not been loaded. -/
def unread (t : FileTree) (s : Session) : Nat :=
  t.files.countP fun f => (s.files.find? f.1.render).isNone

theorem exists_mem_of_read (h : t.read p = .ok text) : ∃ f ∈ t.files, f.1 = p := by
  unfold read at h
  cases hfile : t.file? p with
  | none =>
    rw [hfile] at h
    cases h
  | some found =>
    obtain ⟨f, hf, heq⟩ := List.lookup_isSome_iff.mp (Option.isSome_of_eq_some hfile)
    exact ⟨f, hf, (beq_iff_eq.mp heq).symm⟩

/-- A file that has been loaded is not counted any more. -/
theorem unread_lt (hfiles : s.files <+: s'.files) (hread : t.read p = .ok text)
    (hnew : s.files.find? p.render = none) (hknown : (s'.files.find? p.render).isSome = true) :
    t.unread s' < t.unread s := by
  obtain ⟨f, hf, rfl⟩ := exists_mem_of_read hread
  have hle (files : List (Place × Option String)) :
      files.countP (fun f => (s'.files.find? f.1.render).isNone) ≤
        files.countP fun f => (s.files.find? f.1.render).isNone := by
    refine List.countP_mono_left fun g _ hg => ?_
    cases hfind : s.files.find? g.1.render with
    | none => rfl
    | some i =>
      have hsome := FileTable.isSome_find?_mono hfiles (Option.isSome_of_eq_some hfind)
      rw [Option.isNone_iff_eq_none] at hg
      rw [hg] at hsome
      cases hsome
  obtain ⟨before, after, hsplit⟩ := List.append_of_mem hf
  have hbefore := hle before
  have hafter := hle after
  simp only [unread, hsplit, List.countP_append, List.countP_cons, hnew, Option.isNone_none,
    Option.isNone_eq_false_iff.mpr hknown, Bool.false_eq_true, if_true, if_false]
  omega

/-! ## Loading without a bound -/

/-- Read a file for the line that includes it. -/
def readFor (t : FileTree) (requester : Option SourceLine) (place : Place) : Except Error String :=
  (t.read place).mapError fun f => { cause := .program (.file f), line := requester }

theorem readFor_eq_ok : t.readFor requester place = .ok text ↔ t.read place = .ok text := by
  unfold readFor
  cases t.read place <;> simp [Except.mapError]

/-- Load a file with all that it includes. -/
def load (t : FileTree) (search : List Place) (s : Session) (place : Place)
    (requester : Option SourceLine) : Report Loaded :=
  Loading.loadFile t search (t.files.length + 1) s place requester

/-- A text of the tree, whose included files are loaded. -/
def source (t : FileTree) (search : List Place) (s : Session) (place : Place) (text : String) :
    SourceText where
  tree := t
  search := search
  load := fun s place line => t.load search s place (some line)
  session := s
  place := place
  lines := Text.lines text

/-- The same with a bound on how deep files include each other. -/
def boundedSource (t : FileTree) (search : List Place) (depth : Nat) (s : Session) (place : Place)
    (text : String) : SourceText :=
  { t.source search s place text with
    load := fun s place line => Loading.loadFile t search depth s place (some line) }

theorem loadFile_succ : Loading.loadFile t search (depth + 1) s place requester = (do
    let text ← Report.ofExcept (t.readFor requester place)
    (t.boundedSource search depth s place text).report) := rfl

theorem loadFile_addsFiles (depth : Nat) (s : Session) (place : Place)
    (requester : Option SourceLine) :
    Gives (fun r => s.files <+: r.session.files)
      (Loading.loadFile t search depth s place requester).result := by
  induction depth generalizing s place requester with
  | zero =>
    intro r hr
    cases hr
  | succ depth ih =>
    rw [loadFile_succ]
    have hload (text : String) :
        Loading.AddsFiles (t.boundedSource search depth s place text).load :=
      fun s place line => ih s place (some line)
    exact Report.gives_of_bind fun text r hr => (Loading.start_addsFiles s place).trans
      (SourceText.report_addsFiles (hload text) r hr)

theorem load_addsFiles : Loading.AddsFiles fun s place line => t.load search s place (some line) :=
  fun s place line => loadFile_addsFiles _ s place (some line)

/-- A line of a file is read when the file has been counted as loaded. -/
theorem unread_lt_of_asks {f : SourceText} (hload : Loading.AddsFiles f.load)
    (hread : t.read f.place = .ok text) (hnew : f.session.files.find? f.place.render = none)
    (hl : f.Reads k l) (hasks : l.Asks f.tree f.search (k + 1) src w) :
    t.unread w.session < t.unread f.session := by
  have hstart := Loading.start_addsFiles f.session f.place
  have hfiles := f.reads_zero.files_le hload hl (Nat.zero_le k)
  rw [← hasks.files_eq] at hfiles
  exact unread_lt (hstart.trans hfiles) hread hnew
    (FileTable.isSome_find?_mono hfiles (Loading.isSome_find?_start _ _))

/-- More depth than files that have not been loaded changes nothing. -/
theorem loadFile_eq_of_unread_lt (h : t.unread s < depth) (h' : t.unread s < depth')
    (hnew : s.files.find? place.render = none) :
    Loading.loadFile t search depth s place requester =
      Loading.loadFile t search depth' s place requester := by
  induction depth generalizing depth' s place requester with
  | zero => exact absurd h (Nat.not_lt_zero _)
  | succ depth ih =>
    obtain ⟨depth', rfl⟩ := Nat.exists_eq_add_one_of_ne_zero (Nat.ne_of_gt (Nat.zero_lt_of_lt h'))
    rw [loadFile_succ, loadFile_succ]
    cases hread : t.read place with
    | error e => simp only [readFor, hread, Except.mapError, Report.ofExcept_error_bind]
    | ok text =>
      simp only [readFor_eq_ok.mpr hread, Report.ofExcept_ok_bind]
      refine SourceText.report_congr fun k l src w hl _ hasks => ih ?_ ?_ hasks.is_new
      all_goals
        have hlt := unread_lt_of_asks (f := t.boundedSource search depth s place text)
          (fun s place line => loadFile_addsFiles _ s place (some line)) hread hnew hl hasks
        have hle : t.unread w.session < t.unread s := hlt
        omega

/-- **Loading a file**, with no bound on how deep files include each other. -/
theorem load_eq (hnew : s.files.find? place.render = none) : t.load search s place requester = (do
    let text ← Report.ofExcept (t.readFor requester place)
    (t.source search s place text).report) := by
  rw [load, loadFile_succ]
  cases hread : t.read place with
  | error e => simp only [readFor, hread, Except.mapError, Report.ofExcept_error_bind]
  | ok text =>
    simp only [readFor_eq_ok.mpr hread, Report.ofExcept_ok_bind]
    refine SourceText.report_congr fun k l src w hl _ hasks => ?_
    have hlt : t.unread w.session < t.unread s :=
      unread_lt_of_asks (f := t.boundedSource search t.files.length s place text)
        (fun s place line => loadFile_addsFiles _ s place (some line)) hread hnew hl hasks
    have hle : t.unread s ≤ t.files.length := List.countP_le_length
    exact loadFile_eq_of_unread_lt (by omega) (by omega) hasks.is_new

theorem load_eq_report (hnew : s.files.find? place.render = none)
    (hread : t.read place = .ok text) :
    t.load search s place requester = (t.source search s place text).report := by
  rw [load_eq hnew, readFor_eq_ok.mpr hread, Report.ofExcept_ok_bind]

theorem exists_text_of_load {loaded : Loaded} (hnew : s.files.find? place.render = none)
    (h : (t.load search s place requester).result = .ok loaded) :
    ∃ text, t.read place = .ok text ∧ (t.source search s place text).report.result =
      .ok loaded := by
  rw [load_eq hnew] at h
  obtain ⟨text, hread, hreport⟩ := Report.result_bind_eq_ok.mp h
  exact ⟨text, readFor_eq_ok.mp hread, hreport⟩

/-! ## Visited files -/

/-- The line after the first `k` ones of a file asks for another one. -/
def Requests (t : FileTree) (search : List Place) (s : Session) (place : Place) (k : Nat)
    (w : Request) : Prop :=
  ∃ text l src, t.read place = .ok text ∧ (t.source search s place text).Reads k l ∧
    (Text.lines text)[k]? = some src ∧ l.Asks t search (k + 1) src w

/-- While a file is loaded, another one is loaded into a session. The path to it has the numbers of
lines before each line that includes a file on the way, so paths are in the order of time. -/
inductive Visits (t : FileTree) (search : List Place) :
    Session → Place → List Nat → Session → Place → Prop
  | root (s : Session) (place : Place) : Visits t search s place [] s place
  | inside {s s' : Session} {place p : Place} {k : Nat} {w : Request} {path : List Nat}
      (hasks : t.Requests search s place k w) (h : Visits t search w.session w.place path s' p) :
      Visits t search s place (k :: path) s' p

theorem Requests.eq {w' : Request} (h : t.Requests search s place k w)
    (h' : t.Requests search s place k w') : w = w' := by
  obtain ⟨text, l, src, hread, hl, hsrc, hasks⟩ := h
  obtain ⟨text', l', src', hread', hl', hsrc', hasks'⟩ := h'
  cases hread.symm.trans hread'
  cases hl.eq hl'
  cases hsrc.symm.trans hsrc'
  exact hasks.eq hasks'

theorem Requests.is_new (h : t.Requests search s place k w) :
    w.session.files.find? w.place.render = none := by
  obtain ⟨text, l, src, -, -, -, hasks⟩ := h
  exact hasks.is_new

namespace Visits

theorem is_new (h : t.Visits search s place path s' p) (hnew : s.files.find? place.render = none) :
    s'.files.find? p.render = none := by
  induction h with
  | root => exact hnew
  | inside hasks _ ih => exact ih hasks.is_new

/-- A path leads to one file. -/
theorem eq (h : t.Visits search s place path s₁ p) (h' : t.Visits search s place path s₂ p') :
    s₁ = s₂ ∧ p = p' := by
  induction h with
  | root =>
    cases h'
    exact ⟨rfl, rfl⟩
  | inside hasks _ ih =>
    cases h' with
    | inside hasks' h' =>
      cases hasks.eq hasks'
      exact ih h'

/-- The last line of a path. -/
theorem exists_requests (h : t.Visits search s place (path ++ [k]) s' p) :
    ∃ s₁ p₁ w, t.Visits search s place path s₁ p₁ ∧ t.Requests search s₁ p₁ k w ∧ w.session = s' ∧
      w.place = p := by
  induction path generalizing s place with
  | nil =>
    cases h with
    | inside hasks h =>
      cases h
      exact ⟨s, place, _, .root s place, hasks, rfl, rfl⟩
  | cons j path ih =>
    cases h with
    | inside hasks h =>
      obtain ⟨s₁, p₁, w, hvisits, hrequests, hw⟩ := ih h
      exact ⟨s₁, p₁, w, .inside hasks hvisits, hrequests, hw⟩

/-- The table of files grows from the beginning of the first file on. -/
theorem files_le (h : t.Visits search s place path s' p)
    (hl : (t.source search s' p text).Reads k l) :
    (Loading.start s place).session.files <+: l.session.files := by
  induction h with
  | root s place => exact (SourceText.reads_zero _).files_le load_addsFiles hl (Nat.zero_le k)
  | inside hasks _ ih =>
    obtain ⟨text₀, l₀, src, -, hl₀, -, hasks⟩ := hasks
    have hbefore := (SourceText.reads_zero _).files_le load_addsFiles hl₀ (Nat.zero_le _)
    have hinside := (Loading.start_addsFiles _ _).trans (ih hl)
    rw [hasks.files_eq] at hinside
    exact hbefore.trans hinside

/-- Once a file has been loaded, the table knows all files that were visited on the way. -/
theorem known_of_load {loaded : Loaded} (h : t.Visits search s place path s' p)
    (hnew : s.files.find? place.render = none)
    (hload : (t.load search s place requester).result = .ok loaded) :
    (loaded.session.files.find? p.render).isSome = true := by
  induction h generalizing loaded requester with
  | root s place =>
    obtain ⟨text, -, hreport⟩ := exists_text_of_load hnew hload
    exact FileTable.isSome_find?_mono (SourceText.report_addsFiles load_addsFiles loaded hreport)
      (Loading.isSome_find?_start s place)
  | inside hrequests _ ih =>
    obtain ⟨text, hread, hreport⟩ := exists_text_of_load hnew hload
    obtain ⟨text', l, src, hread', hl, hsrc, hasks⟩ := id hrequests
    cases hread.symm.trans hread'
    obtain ⟨l', hl', hfiles⟩ := SourceText.report_eq_ok hreport
    obtain ⟨inner, hinner, hle⟩ :=
      hl.exists_loaded load_addsFiles hsrc hasks hl' (List.getElem?_eq_some_iff.mp hsrc).1
    rw [hfiles]
    exact FileTable.isSome_find?_mono hle (ih hrequests.is_new hinner)

/-- **The table of files knows all files that were visited before a line**: those that have been
loaded and those that are being loaded. -/
theorem known_of_lt (h : t.Visits search s place path s₁ p)
    (h' : t.Visits search s place path' s₂ p') (hl : (t.source search s₂ p' text).Reads k l)
    (hread : t.read p' = .ok text) (hlt : path < path' ++ [k]) :
    (l.session.files.find? p.render).isSome = true := by
  induction h generalizing path' with
  | root s place =>
    exact FileTable.isSome_find?_mono (h'.files_le hl) (Loading.isSome_find?_start s place)
  | @inside s s₁ place p j w path hrequests hvisits ih =>
    obtain ⟨text₀, l₀, src, hread₀, hl₀, hsrc, hasks⟩ := id hrequests
    -- A file that an earlier line has included has been loaded.
    have hearlier {k' : Nat} {l' : Loading} (hl' : (t.source search s place text₀).Reads k' l')
        (hj : j < k') : (l'.session.files.find? p.render).isSome = true := by
      obtain ⟨inner, hinner, hle⟩ := hl₀.exists_loaded load_addsFiles hsrc hasks hl' hj
      exact FileTable.isSome_find?_mono hle (hvisits.known_of_load hrequests.is_new hinner)
    cases h' with
    | root =>
      cases hread.symm.trans hread₀
      rcases List.cons_lt_cons_iff.mp hlt with hj | ⟨-, hnil⟩
      · exact hearlier hl hj
      · exact absurd hnil (List.not_lt_nil path)
    | inside hrequests' h' =>
      rcases List.cons_lt_cons_iff.mp hlt with hj | ⟨rfl, hpath⟩
      · obtain ⟨text₁, l₁, src', hread₁, hl₁, -, hasks'⟩ := hrequests'
        cases hread₀.symm.trans hread₁
        have hle := (Loading.start_addsFiles _ _).trans (h'.files_le hl)
        rw [hasks'.files_eq] at hle
        exact FileTable.isSome_find?_mono hle (hearlier hl₁ hj)
      · cases hrequests.eq hrequests'
        exact ih h' hpath

theorem not_lt (h : t.Visits search s place path s₁ p) (h' : t.Visits search s place path' s₂ p) :
    ¬ path < path' := by
  intro hlt
  rcases List.eq_nil_or_concat path' with rfl | ⟨init, k, rfl⟩
  · exact List.not_lt_nil path hlt
  · rw [List.concat_eq_append] at h' hlt
    obtain ⟨s', p', w, hvisits, ⟨text, l, src, hread, hl, -, hasks⟩, -, rfl⟩ := h'.exists_requests
    have hknown := h.known_of_lt hvisits hl hread hlt
    have hnew := hasks.is_new
    rw [hasks.files_eq] at hnew
    rw [hnew] at hknown
    cases hknown

/-- No file is visited twice. -/
theorem path_eq (h : t.Visits search s place path s₁ p) (h' : t.Visits search s place path' s₂ p) :
    path = path' := by
  rcases lt_trichotomy path path' with hlt | heq | hlt
  · exact absurd hlt (h.not_lt h')
  · exact heq
  · exact absurd hlt (h'.not_lt h)

/-- An error at a line of a visited file is the error of the whole. -/
theorem load_eq_error {e : Error} (h : t.Visits search s place path s' p)
    (hnew : s.files.find? place.render = none) (hread : t.read p = .ok text)
    (hl : (t.source search s' p text).Reads k l) (hsrc : (Text.lines text)[k]? = some src)
    (herror : (l.loadLine t search (t.source search s' p text).load (k + 1) src).result = .error e)
    (requester : Option SourceLine) : (t.load search s place requester).result = .error e := by
  induction h generalizing requester with
  | root =>
    rw [load_eq_report hnew hread]
    exact SourceText.report_eq_error hl hsrc herror
  | @inside s _ place _ _ w _ hrequests _ ih =>
    obtain ⟨text₀, l₀, src₀, hread₀, hl₀, hsrc₀, hasks⟩ := id hrequests
    rw [load_eq_report hnew hread₀]
    refine SourceText.report_eq_error hl₀ hsrc₀ ?_
    obtain ⟨after, -, hresult⟩ := hasks.result_loadLine (t.source search s place text₀).load
    have hinner : ((t.source search s place text₀).load w.session w.place w.line).result =
        .error e :=
      ih hrequests.is_new hread hl herror (some w.line)
    exact hresult.trans (by rw [hinner]; rfl)

end Visits

/-! ## Loading ends -/

/-- The second loading calls for the first one. -/
def Calls (t : FileTree) (search : List Place) (b a : Session × Place) : Prop :=
  ∃ k w, t.Requests search a.1 a.2 k w ∧ b = (w.session, w.place)

theorem acc_calls (hnew : s.files.find? place.render = none) : Acc (t.Calls search) (s, place) := by
  induction hcount : t.unread s using Nat.strong_induction_on generalizing s place with
  | _ count ih =>
    refine Acc.intro _ ?_
    rintro _ ⟨k, w, hrequests, rfl⟩
    obtain ⟨text, l, src, hread, hl, -, hasks⟩ := id hrequests
    have hlt : t.unread w.session < t.unread s :=
      unread_lt_of_asks (f := t.source search s place text) load_addsFiles hread hnew hl hasks
    exact ih _ (hcount ▸ hlt) hrequests.is_new rfl

end FileTree

/-! ## Files that are included again -/

namespace Loading

variable {l : Loading} {tree : FileTree} {search : List Place} {load : Include} {line : SourceLine}
  {number : Nat} {src : List Char} {name : String} {p : Place}

theorem warnMuted_eq_error
    (h : (l.conditions.isMuted && l.session.options.warningsAsErrors) = true) :
    (l.warnMuted line).result = .error (Error.ofCauseAt line (ProgramError.warning mutedNote)) := by
  obtain ⟨hmuted, herrors⟩ := Bool.and_eq_true_iff.mp h
  rw [warnMuted, if_pos hmuted, warn, Report.result_bind, Session.warn, if_pos herrors]
  rfl

theorem exists_warnMuted_eq_ok
    (h : (l.conditions.isMuted && l.session.options.warningsAsErrors) = false) (line : SourceLine) :
    ∃ warnings, (l.warnMuted line).result =
      .ok { l with session := { l.session with warnings } } := by
  unfold warnMuted
  split
  · rename_i hmuted
    rw [hmuted, Bool.true_and] at h
    refine ⟨l.session.warnings ++ [{ line, text := mutedNote }], ?_⟩
    rw [warn, Report.result_bind, Session.warn, if_neg (by rw [h]; exact Bool.false_ne_true)]
    rfl
  · exact ⟨l.session.warnings, rfl⟩

/-- Why a file cannot be included again. -/
def repeated (l : Loading) (p : Place) : ProgramError :=
  if l.conditions.isMuted && l.session.options.warningsAsErrors then .warning mutedNote
  else .includedTwice p.render

/-- A line that includes a file which the table of files knows is an error. -/
theorem loadLine_eq_error (hcarries : l.Carries number src (.includeFile name))
    (hfind : l.findInclude tree search name = .ok p)
    (hknown : (l.session.files.find? p.render).isSome = true) :
    (l.loadLine tree search load number src).result =
      .error (Error.ofCauseAt (l.lineAt number) (l.repeated p)) := by
  rw [loadLine_of_carries hcarries, process, includeFile_eq, Report.result_bind,
    Report.result_bind, repeated]
  cases hstrict : l.conditions.isMuted && l.session.options.warningsAsErrors with
  | true =>
    rw [warnMuted_eq_error hstrict]
    rfl
  | false =>
    obtain ⟨warnings, hwarn⟩ := exists_warnMuted_eq_ok hstrict (l.lineAt number)
    have hplace : Error.liftAt (l.lineAt number) (findInclude
        { l with session := { l.session with warnings } }
        tree search name) = .ok p := Error.liftAt_eq_ok.mpr hfind
    simp only [hwarn, ok_bind, hplace, Report.ofExcept_ok_bind, hknown, if_true]
    rfl

end Loading

/-- **Loading ends, and no file is loaded twice.** Let files include each other in any way. Then the
loadings that a loading calls for never go on forever, and each is the loading of a text with no
bound on how deep files include each other. No file is visited twice. Where an active line includes
a file that was visited before, be it loaded or still being loaded, the whole loading fails: the
line includes a file again, unless the file of the line is muted and warnings are errors, when the
warning about this comes first. -/
theorem load_ends_and_visits_files_once (t : FileTree) (search : List Place) (s : Session)
    (place : Place) (hnew : s.files.find? place.render = none) :
    Acc (t.Calls search) (s, place) ∧
    (∀ path s' p, t.Visits search s place path s' p → ∀ requester,
      t.load search s' p requester = (do
      let text ← Report.ofExcept (t.readFor requester p)
      (t.source search s' p text).report)) ∧
    (∀ path path' s₁ s₂ p, t.Visits search s place path s₁ p → t.Visits search s place path' s₂ p →
      path = path') ∧
    ∀ path s' p text k l src name q, t.Visits search s place path s' p → t.read p = .ok text →
      (t.source search s' p text).Reads k l → (Text.lines text)[k]? = some src → l.IsActive →
      (Text.trim src).head? = some '#' →
      Directive.parse (String.ofList src) (l.lineAt (k + 1)) = .ok (.includeFile name) →
      l.findInclude t search name = .ok q →
      (∃ path' s'', t.Visits search s place path' s'' q ∧ path' < path ++ [k]) →
      ∀ requester, (t.load search s place requester).result =
        .error (Error.ofCauseAt (l.lineAt (k + 1)) (l.repeated q)) := by
  refine ⟨FileTree.acc_calls hnew, fun path s' p h requester => FileTree.load_eq (h.is_new hnew),
    fun path path' s₁ s₂ p h h' => h.path_eq h', ?_⟩
  rintro path s' p text k l src name q h hread hl hsrc hactive hsharp hparse hfind ⟨path', s'', h',
    hlt⟩ requester
  obtain ⟨body, hbody⟩ := List.head?_eq_some_iff.mp hsharp
  have hcarries : l.Carries (k + 1) src (.includeFile name) :=
    ⟨body, true, hbody, hactive, rfl, hparse⟩
  have hknown := h'.known_of_lt h hl hread hlt
  exact h.load_eq_error hnew hread hl hsrc
    (Loading.loadLine_eq_error hcarries hfind hknown) requester

/-- Two files that include each other: the second one is visited, and it fails where it includes the
first one. -/
theorem load_ends_and_visits_files_once_cycle :
    let t : FileTree :=
      { files := [(["main.asm"], some "#include \"lib.asm\""),
        (["lib.asm"], some "#include \"main.asm\"")],
        directories := [] }
    let s := (SourceText.alone []).session
    (∃ s', t.Visits [] s ["main.asm"] [0] s' ["lib.asm"]) ∧
      (t.load [] s ["main.asm"] none).result = .error
        { cause := .program (.includedTwice "/main.asm"),
          line := some { file := some 1, name := "lib.asm", number := 1 } } := by
  intro t s
  let main := Loading.start s ["main.asm"]
  let lib := Loading.start main.session ["lib.asm"]
  have hmain : t.Requests [] s ["main.asm"] 0
      { session := main.session, place := ["lib.asm"], line := main.lineAt 1 } :=
    ⟨"#include \"lib.asm\"", main, "#include \"lib.asm\"".toList, by decide +kernel,
      SourceText.reads_zero _, by decide +kernel, "lib.asm", main,
      ⟨"include \"lib.asm\"".toList, true, by decide +kernel, by decide +kernel, rfl,
        by decide +kernel⟩, rfl, by decide +kernel, by decide +kernel, rfl, rfl⟩
  have hlib : t.Visits [] s ["main.asm"] [0] main.session ["lib.asm"] := .inside hmain (.root _ _)
  obtain ⟨-, -, -, hrepeated⟩ :=
    load_ends_and_visits_files_once t [] s ["main.asm"] (by decide +kernel)
  refine ⟨⟨_, hlib⟩, ?_⟩
  have hfails := hrepeated [0] main.session ["lib.asm"] "#include \"main.asm\"" 0 lib
    "#include \"main.asm\"".toList "main.asm" ["main.asm"] hlib (by decide +kernel)
      (SourceText.reads_zero _)
    (by decide +kernel) (by unfold Loading.IsActive; decide +kernel) (by decide +kernel)
      (by decide +kernel)
    (by decide +kernel) ⟨[], s, .root _ _, by decide⟩ none
  exact hfails.trans (congrArg Except.error (by decide +kernel))

/-- A muted file that includes itself fails with the warning if warnings are errors, although the
line is active and the file is being loaded. -/
theorem repeated_include_fails_as_warning :
    let text := "#mute\n#include \"main.asm\""
    let t : FileTree := { files := [(["main.asm"], some text)], directories := [] }
    let s : Session :=
      { (SourceText.alone []).session with options := { warningsAsErrors := true } }
    (∃ l, (t.source [] s ["main.asm"] text).Reads 1 l ∧ l.IsActive ∧
        (Text.lines text)[1]? = some "#include \"main.asm\"".toList ∧
        l.findInclude t [] "main.asm" = .ok ["main.asm"]) ∧
      ∃ e, (t.load [] s ["main.asm"] none).result = .error e ∧ e.kind = .warning := by
  intro text t s
  have hread : (((t.source [] s ["main.asm"] text).readUpTo 1).map fun r =>
      (r.1.conditions.isActive r.1.session.symbols, r.1.findInclude t [] "main.asm")) =
        .ok (.ok true, .ok ["main.asm"]) := by decide +kernel
  obtain ⟨⟨l, items⟩, hl, hview⟩ := map_eq_ok.mp hread
  obtain ⟨hactive, hfind⟩ := Prod.mk.inj hview
  refine ⟨⟨l, ⟨items, hl⟩, hactive, by decide +kernel, hfind⟩, ?_⟩
  have hkind : ((t.load [] s ["main.asm"] none).result.mapError Error.kind).map (fun _ => ()) =
      .error .warning := by decide +kernel
  cases hresult : (t.load [] s ["main.asm"] none).result with
  | ok loaded =>
    rw [hresult] at hkind
    cases hkind
  | error e =>
    rw [hresult] at hkind
    exact ⟨e, rfl, Except.error.inj hkind⟩

end Retarget
