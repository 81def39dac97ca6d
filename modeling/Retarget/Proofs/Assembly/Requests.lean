import Retarget.Proofs.Assembly.Branches

/-!
# Files that lines ask for

A line touches the file tree only if it includes a file. So loading a line, a text or a whole tree
of files is settled by how the files are loaded that lines ask for.

* `Report.Rel`: two reports that print the same and end alike;
* `Loading.Asks`: the file that a line asks for;
* `Loading.loadLine_rel`, `SourceText.report_rel`: how the files that are asked for matter;
* `Loading.loadLine_files`, `SourceText.Reads.files_le`: the table of files only grows.
-/

namespace Retarget

/-! ## Related reports -/

namespace Report

variable {α β γ δ : Type} {R : α → β → Prop} {Q : γ → δ → Prop}

/-- The reports print the same, and they fail alike or give related values. -/
inductive Rel (R : α → β → Prop) : Report α → Report β → Prop
  | ok {messages : List Message} {a : α} {b : β} (h : R a b) :
    Rel R { messages, result := .ok a } { messages, result := .ok b }
  | error (messages : List Message) (e : Error) :
    Rel R { messages, result := .error e } { messages, result := .error e }

namespace Rel

theorem refl {R : α → α → Prop} (hR : ∀ a, R a a) (r : Report α) : Rel R r r := by
  obtain ⟨messages, result⟩ := r
  cases result with
  | error e => exact .error messages e
  | ok a => exact .ok (hR a)

theorem pure {a : α} {b : β} (h : R a b) : Rel R (Pure.pure a) (Pure.pure b) := .ok h

/-- Chains are related if their steps are. -/
theorem bind {r : Report α} {r' : Report β} {f : α → Report γ} {g : β → Report δ} (h : Rel R r r')
    (hf : ∀ a b, r.result = .ok a → R a b → Rel Q (f a) (g b)) : Rel Q (r >>= f) (r' >>= g) := by
  cases h with
  | error messages e => exact .error messages e
  | ok hab =>
    rename_i messages a b
    have hnext := hf a b rfl hab
    show Rel Q (Report.bind _ f) (Report.bind _ g)
    simp only [Report.bind]
    cases hfa : f a
    cases hgb : g b
    rw [hfa, hgb] at hnext
    cases hnext with
    | error => exact .error _ _
    | ok hcd => exact .ok hcd

/-- The first step is the same. -/
theorem bind_self {r : Report α} {f : α → Report γ} {g : α → Report δ}
    (hf : ∀ a, r.result = .ok a → Rel Q (f a) (g a)) : Rel Q (r >>= f) (r >>= g) :=
  (refl (R := Eq) (fun _ => rfl) r).bind fun a _ ha hab => hab ▸ hf a ha

theorem eq {R : α → α → Prop} {r r' : Report α} (h : Rel R r r') (hR : ∀ a b, R a b → a = b) :
    r = r' := by
  cases h with
  | error messages e => rfl
  | ok hab => rw [hR _ _ hab]

/-- What depends only on what is related is the same after it. -/
theorem bind_eq {r : Report α} {r' : Report β} {f : α → Report γ} {g : β → Report γ}
    (h : Rel R r r') (hf : ∀ a b, R a b → f a = g b) : r >>= f = r' >>= g := by
  cases h with
  | error messages e => rfl
  | ok hab =>
    show Report.bind _ f = Report.bind _ g
    simp only [Report.bind, hf _ _ hab]

theorem result_bind_eq {r : Report α} {r' : Report β} {f : α → Except Error γ}
    {g : β → Except Error γ} (h : Rel R r r') (hf : ∀ a b, R a b → f a = g b) :
    r.result >>= f = r'.result >>= g := by
  cases h with
  | error messages e => rfl
  | ok hab => exact hf _ _ hab

end Rel

end Report

/-- Files that were loaded alike: their items are related. -/
def Loaded.Alike (S : Item → Item → Prop) (a b : Loaded) : Prop :=
  b.session = a.session ∧ b.created = a.created ∧ List.Forall₂ S a.items b.items

namespace Loaded.Alike

variable {S : Item → Item → Prop} {a b : Loaded}

theorem refl (hS : ∀ i, S i i) (a : Loaded) : a.Alike S a :=
  ⟨rfl, rfl, List.forall₂_same.mpr fun i _ => hS i⟩

theorem eq (h : a.Alike Eq b) : a = b := by
  obtain ⟨session, created, items⟩ := a
  obtain ⟨hsession, hcreated, hitems⟩ := h
  cases hsession
  cases hcreated
  rw [List.forall₂_eq_eq_eq] at hitems
  cases hitems
  rfl

end Loaded.Alike

/-! ## Lines and the file tree -/

/-- A file that a line asks for: the session before it is loaded, its place, and the line. -/
structure Request where
  session : Session
  place : Place
  line : SourceLine

namespace Loading

variable {l l' : Loading} {tree tree' : FileTree} {search search' : List Place}
  {load load' : Include}
  {line : SourceLine} {number : Nat} {src : List Char} {d : Directive} {w : Request}

/-- A line carries out one directive. -/
theorem Carries.eq {d' : Directive} (h : l.Carries number src d) (h' : l.Carries number src d') :
    d = d' := by
  obtain ⟨-, -, -, -, -, hparse⟩ := h
  obtain ⟨-, -, -, -, -, hparse'⟩ := h'
  exact Except.ok.inj (hparse.symm.trans hparse')

/-- A line that carries out no directive does not touch the file tree. -/
theorem loadLine_of_not_carries (h : ∀ d, ¬ l.Carries number src d) :
    l.loadLine tree search load number src = l.loadLine tree' search' load' number src := by
  unfold loadLine
  cases hactive : l.conditions.isActive l.session.symbols with
  | error e => simp only [Report.ofExcept_error_bind]
  | ok active =>
    simp only [Report.ofExcept_ok_bind]
    split
    · rename_i body hsharp
      unfold loadDirective
      dsimp only
      split
      · rename_i hguard
        cases hparse : Directive.parse (String.ofList src) (l.lineAt number) with
        | error e => simp only [Report.ofExcept_error_bind]
        | ok d => exact absurd ⟨body, active, hsharp, hactive, hguard, hparse⟩ (h d)
      · rfl
    · rfl

/-- Only the inclusion of a file touches the file tree. -/
theorem process_of_ne_includeFile (hd : ∀ name, d ≠ .includeFile name) :
    l.process tree search load line d = l.process tree' search' load' line d := by
  cases d with
  | includeFile name => exact absurd rfl (hd name)
  | condition | define | mute | unmute | raise | print | require | createZone
    | createScope | useScope
  | deactivateScope => rfl

/-! ## Requests -/

/-- The line asks for a file: it includes one that has not been loaded. -/
def Asks (l : Loading) (tree : FileTree) (search : List Place) (number : Nat) (src : List Char)
    (w : Request) : Prop :=
  ∃ name l', l.Carries number src (.includeFile name) ∧
    (l.warnMuted (l.lineAt number)).result = .ok l' ∧ l.findInclude tree search name = .ok w.place ∧
    l.session.files.find? w.place.render = none ∧ w.session = l'.session ∧ w.line = l.lineAt number

namespace Asks

theorem files_eq (h : l.Asks tree search number src w) : w.session.files = l.session.files := by
  obtain ⟨name, l', -, hwarn, -, -, hsession, -⟩ := h
  rw [hsession]
  exact (warnMuted_steady hwarn).keeps.files_eq

theorem is_new (h : l.Asks tree search number src w) :
    w.session.files.find? w.place.render = none := by
  rw [h.files_eq]
  obtain ⟨-, -, -, -, -, hnew, -⟩ := h
  exact hnew

/-- A line asks for one file. -/
theorem eq {w' : Request} (h : l.Asks tree search number src w)
    (h' : l.Asks tree search number src w') : w = w' := by
  obtain ⟨name, l₁, hcarries, hwarn, hfind, -, hsession, hline⟩ := h
  obtain ⟨name', l₂, hcarries', hwarn', hfind', -, hsession', hline'⟩ := h'
  cases hcarries.eq hcarries'
  cases hwarn.symm.trans hwarn'
  cases w
  cases w'
  cases hfind.symm.trans hfind'
  simp_all

/-- The line is loaded as the file is. -/
theorem result_loadLine (h : l.Asks tree search number src w) (load : Include) :
    ∃ after : Loaded → Loading × List Item, (∀ loaded, (after loaded).1.session = loaded.session) ∧
      (l.loadLine tree search load number src).result =
        (load w.session w.place w.line).result.map after := by
  obtain ⟨name, l', hcarries, hwarn, hfind, hnew, hsession, hline⟩ := h
  have hplace : Error.liftAt (l.lineAt number) (l'.findInclude tree search name) = .ok w.place ∧
      l'.session.files.find? w.place.render = none := by
    rw [findInclude_warnMuted hwarn, (warnMuted_steady hwarn).keeps.files_eq]
    exact ⟨Error.liftAt_eq_ok.mpr hfind, hnew⟩
  refine ⟨fun loaded => (l'.resume loaded, loaded.items ++
    [(l'.resume loaded).inertItem (l.lineAt number) (String.ofList src) "" false]),
      fun _ => rfl, ?_⟩
  rw [loadLine_of_carries hcarries, process, includeFile_eq]
  simp only [Report.result_bind, hwarn, ok_bind, Report.result_ofExcept, hplace, Option.isSome_none,
    Bool.false_eq_true, if_false, hsession, hline]
  cases (load l'.session w.place (l.lineAt number)).result <;> rfl

end Asks

/-! ## How the files matter that lines ask for -/

/-- What the loading of a line gives in two ways: the same state of the file, and related items. -/
def SameState (S : Item → Item → Prop) (r r' : Loading × List Item) : Prop :=
  r'.1 = r.1 ∧ List.Forall₂ S r.2 r'.2

theorem includeFile_rel {S : Item → Item → Prop} {name : String}
    (hfind : l.findInclude tree search name = l.findInclude tree' search name)
    (hload : ∀ l' place, (l.warnMuted line).result = .ok l' →
      l.findInclude tree search name = .ok place → l.session.files.find? place.render = none →
      Report.Rel (Loaded.Alike S) (load l'.session place line) (load' l'.session place line)) :
    Report.Rel (SameState S) (l.includeFile tree search load line name)
      (l.includeFile tree' search load' line name) := by
  rw [includeFile_eq, includeFile_eq]
  refine .bind_self fun l' hwarn => ?_
  rw [findInclude_warnMuted hwarn, findInclude_warnMuted hwarn, ← hfind]
  refine .bind_self fun place hplace => ?_
  split
  · exact .error _ _
  · rename_i hnew
    rw [(warnMuted_steady hwarn).keeps.files_eq, Bool.not_eq_true, Option.isSome_eq_false_iff,
      Option.isNone_iff_eq_none] at hnew
    refine (hload l' place hwarn (Error.liftAt_eq_ok.mp hplace) hnew).bind ?_
    rintro a b - ⟨hsession, hcreated, hitems⟩
    exact .pure ⟨by simp only [resume, hsession, hcreated], hitems⟩

/-- A line does the same in two ways if the file that it asks for is loaded alike. -/
theorem loadLine_rel {S : Item → Item → Prop} (hS : ∀ i, S i i)
    (hfind : ∀ name, l.findInclude tree search name = l.findInclude tree' search name)
    (hload : ∀ w, l.Asks tree search number src w →
      Report.Rel (Loaded.Alike S) (load w.session w.place w.line)
        (load' w.session w.place w.line)) :
    Report.Rel (SameState S) (l.loadLine tree search load number src)
      (l.loadLine tree' search load' number src) := by
  have hrefl (r : Loading × List Item) : SameState S r r :=
    ⟨rfl, List.forall₂_same.mpr fun i _ => hS i⟩
  by_cases hcarries : ∃ d, l.Carries number src d
  · obtain ⟨d, hcarries⟩ := hcarries
    rw [loadLine_of_carries hcarries, loadLine_of_carries hcarries]
    have hprocess : Report.Rel (SameState S) (l.process tree search load (l.lineAt number) d)
        (l.process tree' search load' (l.lineAt number) d) := by
      by_cases hd : ∃ name, d = .includeFile name
      · obtain ⟨name, rfl⟩ := hd
        refine includeFile_rel (hfind name) fun l' place hwarn hplace hnew => ?_
        exact hload ⟨l'.session, place, l.lineAt number⟩ ⟨name, l', hcarries, hwarn, hplace,
          hnew, rfl, rfl⟩
      · rw [process_of_ne_includeFile fun name hname => hd ⟨name, hname⟩]
        exact .refl hrefl _
    refine hprocess.bind ?_
    rintro ⟨l₁, items⟩ ⟨l₂, items'⟩ - ⟨hl, hitems⟩
    cases hl
    exact .pure ⟨rfl, List.rel_append hitems (.cons (hS _) .nil)⟩
  · rw [loadLine_of_not_carries fun d hd => hcarries ⟨d, hd⟩]
    exact .refl hrefl _

/-- Lines do the same in two ways if each of them does that is reached. -/
theorem loadLines_rel {S : Item → Item → Prop} {lines lines' : List (List Char)}
    (hlength : lines'.length = lines.length)
    (h : ∀ k l' items src src',
      (l.loadLines tree search load number (lines.take k)).result = .ok (l', items) →
      lines[k]? = some src → lines'[k]? = some src' →
      Report.Rel (SameState S) (l'.loadLine tree search load (number + k) src)
        (l'.loadLine tree' search load' (number + k) src')) :
    Report.Rel (SameState S) (l.loadLines tree search load number lines)
      (l.loadLines tree' search load' number lines') := by
  induction lines generalizing l number lines' with
  | nil =>
    cases List.length_eq_zero_iff.mp hlength
    exact .pure ⟨rfl, .nil⟩
  | cons src rest ih =>
    obtain ⟨src', rest', rfl⟩ := List.exists_cons_of_length_eq_add_one hlength
    have hfirst := h 0 l [] src src' rfl rfl rfl
    rw [Nat.add_zero] at hfirst
    refine hfirst.bind ?_
    rintro ⟨l₁, items₁⟩ ⟨l₂, items₂⟩ hok ⟨hl, hitems⟩
    cases hl
    have hrest : Report.Rel (SameState S) (l₁.loadLines tree search load (number + 1) rest)
        (l₁.loadLines tree' search load' (number + 1) rest') := by
      refine ih (Nat.succ.inj hlength) fun k l' items src src' hread hsrc hsrc' => ?_
      rw [Nat.add_assoc, Nat.add_comm 1]
      refine h (k + 1) l' (items₁ ++ items) src src' ?_ hsrc hsrc'
      rw [List.take_succ_cons, loadLines, Report.result_bind, hok, ok_bind,
        Report.result_bind, hread]
      rfl
    refine hrest.bind ?_
    rintro ⟨l₃, items₃⟩ ⟨l₄, items₄⟩ - ⟨hl, hmore⟩
    cases hl
    exact .pure ⟨rfl, List.rel_append hitems hmore⟩

/-! ## The table of files -/

/-- A line leaves the table of files alone, or it asks for a file and takes the table from there. -/
theorem loadLine_files : Gives (fun r => r.1.session.files = l.session.files ∨
    ∃ w loaded, l.Asks tree search number src w ∧
      (load w.session w.place w.line).result = .ok loaded ∧
      r.1.session = loaded.session) (l.loadLine tree search load number src).result := by
  intro r hr
  rcases loadLine_eq_ok hr with ⟨d, l', items, hcarries, hprocess, rfl⟩ |
    ⟨text, comment, muted, rfl⟩ | ⟨items, -, htrack⟩
  · rcases process_eq_ok hprocess with ⟨name, rfl, hinclude⟩ |
      ⟨c, conditions, -, -, h⟩ | ⟨hsteady, -⟩
    · obtain ⟨l₁, place, loaded, hwarn, hfind, hnew, hloaded, h⟩ := includeFile_eq_ok hinclude
      cases h
      exact .inr ⟨⟨l₁.session, place, l.lineAt number⟩, loaded,
        ⟨name, l₁, hcarries, hwarn, hfind, hnew, rfl, rfl⟩, hloaded, rfl⟩
    · cases h
      exact .inl rfl
    · exact .inl hsteady.keeps.files_eq
  · exact .inl rfl
  · exact .inl (trackAll_keeps items r htrack).files_eq

/-- Loading a file adds to the table of files. -/
def AddsFiles (load : Include) : Prop :=
  ∀ s place line, Gives (fun r => s.files <+: r.session.files) (load s place line).result

theorem loadLine_addsFiles (hload : AddsFiles load) :
    Gives (fun r => l.session.files <+: r.1.session.files)
      (l.loadLine tree search load number src).result := by
  intro r hr
  rcases loadLine_files r hr with hsame | ⟨w, loaded, hasks, hloaded, hsession⟩
  · exact ⟨[], by rw [List.append_nil, hsame]⟩
  · rw [hsession, ← hasks.files_eq]
    exact hload _ _ _ loaded hloaded

theorem start_addsFiles (s : Session) (place : Place) :
    s.files <+: (start s place).session.files := by
  show s.files <+: (s.files.add place.render).1
  unfold FileTable.add
  split
  · exact ⟨[], List.append_nil _⟩
  · exact List.prefix_append _ _

end Loading

/-! ## Texts -/

namespace SourceText

open Loading (AddsFiles)

variable {f : SourceText} {j k : Nat} {l l' : Loading} {src : List Char} {w : Request}

/-- Load a text. -/
def report (f : SourceText) : Report Loaded := do
  let l := Loading.start f.session f.place
  l.session.log 2 s!"Loading file: {f.place.render}"
  let (l, items) ← l.loadLines f.tree f.search f.load 1 f.lines
  let l ← l.finish f.lines.length
  return { session := l.session, created := l.created, items }

/-- Two texts are loaded alike if their lines are. -/
theorem report_rel {S : Item → Item → Prop} {tree : FileTree} {load : Loading.Include}
    {lines : List (List Char)} (hlength : lines.length = f.lines.length)
    (h : ∀ k l src src', f.Reads k l → f.lines[k]? = some src → lines[k]? = some src' →
      Report.Rel (Loading.SameState S) (l.loadLine f.tree f.search f.load (k + 1) src)
        (l.loadLine tree f.search load (k + 1) src')) :
    Report.Rel (Loaded.Alike S) f.report { f with tree, load, lines }.report := by
  refine .bind_self fun _ _ => ?_
  have hlines : Report.Rel (Loading.SameState S)
      ((Loading.start f.session f.place).loadLines f.tree f.search f.load 1 f.lines)
      ((Loading.start f.session f.place).loadLines tree f.search load 1 lines) := by
    refine Loading.loadLines_rel hlength fun k l' items src src' hread hsrc hsrc' => ?_
    rw [Nat.add_comm]
    exact h k l' src src' ⟨items, hread⟩ hsrc hsrc'
  refine hlines.bind ?_
  rintro ⟨l₁, items₁⟩ ⟨l₂, items₂⟩ - ⟨hl, hitems⟩
  cases hl
  dsimp only
  rw [hlength]
  exact .bind_self fun l' _ => .pure ⟨rfl, rfl, hitems⟩

/-- How a file is loaded matters only if a line asks for it. -/
theorem report_congr {load : Loading.Include}
    (h : ∀ k l src w, f.Reads k l → f.lines[k]? = some src →
      l.Asks f.tree f.search (k + 1) src w → f.load w.session w.place w.line =
        load w.session w.place w.line) : f.report = { f with load }.report := by
  refine (report_rel (S := Eq) rfl fun k l src src' hl hsrc hsrc' => ?_).eq fun a b hab => hab.eq
  cases hsrc.symm.trans hsrc'
  refine Loading.loadLine_rel (fun _ => rfl) (fun _ => rfl) fun w hasks => ?_
  rw [h k l src w hl hsrc hasks]
  exact .refl (.refl fun _ => rfl) _

theorem Reads.eq (h : f.Reads k l) (h' : f.Reads k l') : l = l' := by
  obtain ⟨items, h⟩ := h
  obtain ⟨items', h'⟩ := h'
  cases h.symm.trans h'
  rfl

theorem reads_zero (f : SourceText) : f.Reads 0 (Loading.start f.session f.place) := ⟨[], rfl⟩

/-- The line between two states. -/
theorem Reads.loadLine_eq_ok (h : f.Reads k l) (hsrc : f.lines[k]? = some src)
    (h' : f.Reads (k + 1) l') :
    ∃ items, (l.loadLine f.tree f.search f.load (k + 1) src).result = .ok (l', items) := by
  obtain ⟨l₀, hl₀, hstep⟩ := h'.exists_step
  cases h.eq hl₀
  rcases hstep with ⟨hend, -⟩ | ⟨src', items, hsrc', hline⟩
  · cases hsrc.symm.trans hend
  · cases hsrc.symm.trans hsrc'
    exact ⟨items, hline⟩

theorem Reads.files_le (hload : AddsFiles f.load) (hj : f.Reads j l) (hk : f.Reads k l')
    (hjk : j ≤ k) : l.session.files <+: l'.session.files := by
  induction hjk generalizing l' with
  | refl =>
    cases hj.eq hk
    exact ⟨[], List.append_nil _⟩
  | step _ ih =>
    obtain ⟨l₀, hl₀, ⟨-, rfl⟩ | ⟨src, items, -, hline⟩⟩ := hk.exists_step
    · exact ih hl₀
    · exact (ih hl₀).trans (Loading.loadLine_addsFiles hload _ hline)

/-- A file that a line asks for has been loaded when the lines after it are read. -/
theorem Reads.exists_loaded (hload : AddsFiles f.load) (hj : f.Reads j l)
    (hsrc : f.lines[j]? = some src) (hasks : l.Asks f.tree f.search (j + 1) src w)
    (hk : f.Reads k l') (hjk : j < k) :
    ∃ loaded, (f.load w.session w.place w.line).result = .ok loaded ∧
      loaded.session.files <+: l'.session.files := by
  obtain ⟨l₁, hl₁⟩ := hk.exists_of_le hjk
  obtain ⟨items, hline⟩ := hj.loadLine_eq_ok hsrc hl₁
  obtain ⟨after, hafter, hresult⟩ := hasks.result_loadLine f.load
  rw [hresult] at hline
  obtain ⟨loaded, hloaded, hl⟩ := map_eq_ok.mp hline
  have hsession : l₁.session = loaded.session := by rw [← hafter loaded, hl]
  refine ⟨loaded, hloaded, ?_⟩
  rw [← hsession]
  exact hl₁.files_le hload hk hjk

/-- A text that is loaded is read to its end. -/
theorem report_eq_ok {loaded : Loaded} (h : f.report.result = .ok loaded) :
    ∃ l, f.Reads f.lines.length l ∧ loaded.session.files = l.session.files := by
  obtain ⟨-, -, h⟩ := Report.result_bind_eq_ok.mp h
  obtain ⟨⟨l, items⟩, hlines, h⟩ := Report.result_bind_eq_ok.mp h
  obtain ⟨l', hfinish, h⟩ := Report.result_bind_eq_ok.mp h
  cases h
  refine ⟨l, ⟨items, ?_⟩, (Loading.finish_steady _ l' hfinish).keeps.files_eq⟩
  rw [readUpTo, List.take_length]
  exact hlines

theorem report_addsFiles (hload : AddsFiles f.load) :
    Gives (fun r => (Loading.start f.session f.place).session.files <+: r.session.files)
      f.report.result := by
  intro loaded h
  obtain ⟨l, hl, hfiles⟩ := report_eq_ok h
  rw [hfiles]
  exact f.reads_zero.files_le hload hl (Nat.zero_le _)

/-- A line that fails makes the whole text fail. -/
theorem report_eq_error {e : Error} (hk : f.Reads k l) (hsrc : f.lines[k]? = some src)
    (herror : (l.loadLine f.tree f.search f.load (k + 1) src).result = .error e) :
    f.report.result = .error e := by
  obtain ⟨hlt, hget⟩ := List.getElem?_eq_some_iff.mp hsrc
  have hlines : f.lines = f.lines.take k ++ src :: f.lines.drop (k + 1) := by
    rw [← hget, ← List.drop_eq_getElem_cons hlt, List.take_append_drop]
  obtain ⟨items, hread⟩ := hk
  have hnumber : 1 + (f.lines.take k).length = k + 1 := by
    rw [List.length_take_of_le (Nat.le_of_lt hlt), Nat.add_comm]
  have hwhole :
      ((Loading.start f.session f.place).loadLines f.tree f.search f.load 1 f.lines).result =
        .error e := by
    rw [hlines, Loading.result_loadLines_append, hnumber]
    rw [readUpTo] at hread
    rw [hread, ok_bind]
    simp only [Loading.loadLines, Report.result_bind, herror, error_bind]
  simp only [report, Report.result_bind, Session.result_log, ok_bind, hwhole, error_bind]

end SourceText

end Retarget
