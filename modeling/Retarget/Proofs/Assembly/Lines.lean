import Retarget.Assembly.Loader
import Retarget.Proofs.Assembly.Passes
import Retarget.Proofs.Scope.Local

/-!
# What a line does

The steps of a line, each said once: what it leaves alone, and how it can go well. What holds of all
lines of a file follows from here, without another look at the directives and statements.

* `Loading.Keeps`: what no statement changes;
* `Loading.Calm`: what the scopes of items depend on;
* `Loading.Steady`: steps that change none of this;
* `Loading.includeFile_eq_ok`, `Loading.process_eq_ok`: what a directive does;
* `Loading.Carries`, `Loading.loadLine_eq_ok`: what a line does.
-/

namespace Retarget

/-- The first word after a number sign. -/
def Directive.firstWord (body : List Char) : String :=
  String.ofList ((Text.words body).head?.getD [])

namespace Loading

variable {l l' l'' : Loading} {tree : FileTree} {search : List Place} {load : Include}
  {line : SourceLine}
  {number : Nat} {src : List Char} {name : String} {d : Directive} {r : Loading × List Item}

/-! ## What steps leave alone -/

/-- The session is for the same instruction set, no file was added, and the same blocks are open. -/
structure Keeps (l l' : Loading) : Prop where
  isa_eq : l'.session.isa = l.session.isa
  files_eq : l'.session.files = l.session.files
  blocks_eq : l'.conditions.blocks = l.conditions.blocks

theorem Keeps.trans (h : l.Keeps l') (h' : l'.Keeps l'') : l.Keeps l'' where
  isa_eq := h'.isa_eq.trans h.isa_eq
  files_eq := h'.files_eq.trans h.files_eq
  blocks_eq := h'.blocks_eq.trans h.blocks_eq

/-- Nothing changes that the scopes of items depend on. -/
structure Calm (l l' : Loading) : Prop where
  scopes_eq : l'.session.scopes = l.session.scopes
  files_eq : l'.session.files = l.session.files
  noLocals : l.session.named.NoLocals → l'.session.named.NoLocals
  file_eq : l'.file = l.file
  fileScope_eq : l'.fileScope = l.fileScope
  scope_eq : l'.position.scope = l.position.scope

theorem Calm.refl (l : Loading) : l.Calm l := ⟨rfl, rfl, id, rfl, rfl, rfl⟩

theorem Calm.trans (h : l.Calm l') (h' : l'.Calm l'') : l.Calm l'' where
  scopes_eq := h'.scopes_eq.trans h.scopes_eq
  files_eq := h'.files_eq.trans h.files_eq
  noLocals := h'.noLocals ∘ h.noLocals
  file_eq := h'.file_eq.trans h.file_eq
  fileScope_eq := h'.fileScope_eq.trans h.fileScope_eq
  scope_eq := h'.scope_eq.trans h.scope_eq

/-- Most steps change none of this. -/
structure Steady (l l' : Loading) : Prop where
  keeps : l.Keeps l'
  calm : l.Calm l'

theorem Steady.trans (h : l.Steady l') (h' : l'.Steady l'') : l.Steady l'' :=
  ⟨h.keeps.trans h'.keeps, h.calm.trans h'.calm⟩

theorem Steady.refl (l : Loading) : l.Steady l := ⟨⟨rfl, rfl, rfl⟩, .refl l⟩

theorem warn_eq_ok {text : String} (h : (l.warn line text).result = .ok l') :
    ∃ warnings, l' = { l with session := { l.session with warnings } } := by
  obtain ⟨s, hs, h⟩ := Report.result_bind_eq_ok.mp h
  obtain ⟨warnings, rfl⟩ := Session.warn_eq_ok hs
  cases h
  exact ⟨warnings, rfl⟩

theorem warn_steady (text : String) : Gives l.Steady (l.warn line text).result := by
  intro l' h
  obtain ⟨warnings, rfl⟩ := warn_eq_ok h
  exact ⟨⟨rfl, rfl, rfl⟩, ⟨rfl, rfl, id, rfl, rfl, rfl⟩⟩

theorem createZone_steady (name : String) (first last : Int) :
    Gives l.Steady (l.createZone line name first last) :=
  .bind fun _ => .pure ⟨⟨rfl, rfl, rfl⟩, ⟨rfl, rfl, id, rfl, rfl, rfl⟩⟩

theorem createScope_steady (name lead : String) :
    Gives l.Steady (l.createScope line name lead) := by
  intro l' h
  obtain ⟨named, hcreate, h⟩ := bind_eq_ok.mp h
  cases pure_eq_ok.mp h
  exact ⟨⟨rfl, rfl, rfl⟩,
    ⟨rfl, rfl, fun hl => hl.create (Error.liftAt_eq_ok.mp hcreate), rfl, rfl, rfl⟩⟩

theorem useScope_steady (name : String) : Gives l.Steady (l.useScope line name).result := by
  unfold useScope
  split
  · exact Report.gives_bind (warn_steady _) fun _ h =>
      .pure (h.trans ⟨⟨rfl, rfl, rfl⟩, ⟨rfl, rfl, id, rfl, rfl, rfl⟩⟩)
  · exact .pure ⟨⟨rfl, rfl, rfl⟩, ⟨rfl, rfl, id, rfl, rfl, rfl⟩⟩

theorem deactivateScope_steady (name : String) :
    Gives l.Steady (l.deactivateScope line name).result := by
  unfold deactivateScope
  split
  · exact .pure ⟨⟨rfl, rfl, rfl⟩, ⟨rfl, rfl, id, rfl, rfl, rfl⟩⟩
  · exact Report.gives_bind (warn_steady _) fun _ h =>
      .pure (h.trans ⟨⟨rfl, rfl, rfl⟩, ⟨rfl, rfl, id, rfl, rfl, rfl⟩⟩)

theorem unmute_steady : Gives l.Steady (l.unmute line).result := by
  unfold unmute Conditions.unmute?
  cases l.conditions.muteDepth with
  | zero => exact warn_steady _
  | succ depth => exact .pure ⟨⟨rfl, rfl, rfl⟩, ⟨rfl, rfl, id, rfl, rfl, rfl⟩⟩

theorem absoluteOrigin_steady : Gives l.Steady (l.absoluteOrigin line).result := by
  unfold absoluteOrigin
  dsimp only
  split
  · exact .pure (.refl l)
  · exact warn_steady _

theorem checkUsed_steady (used : List (String × SourceLine)) :
    Gives l.Steady (l.checkUsed used).result := by
  induction used generalizing l with
  | nil => exact .pure (.refl l)
  | cons first rest ih =>
    rw [checkUsed]
    split
    · exact ih
    · exact Report.gives_bind (warn_steady _) fun l' hl' l'' hl'' => hl'.trans (ih l'' hl'')

theorem finish_steady (count : Nat) : Gives l.Steady (l.finish count).result := by
  unfold finish
  split
  · intro r hr
    cases hr
  · have hrest (l' : Loading) (hl' : l.Steady l') : Gives l.Steady (l'.checkUsed l'.used).result :=
      fun l'' hl'' => hl'.trans (checkUsed_steady l'.used l'' hl'')
    split
    · exact Report.gives_bind (warn_steady _) hrest
    · exact Report.gives_bind (P := l.Steady) (.pure (.refl l)) hrest

/-! ## Statements -/

theorem track_keeps (i : Item) : Gives (fun r => l.Keeps r.1) (l.track i).result := by
  unfold track
  split
  · split
    · exact .pure ⟨rfl, rfl, rfl⟩
    · exact .pure ⟨rfl, rfl, rfl⟩
  · exact Report.gives_of_bind fun _ => .pure ⟨rfl, rfl, rfl⟩
  · exact Report.gives_bind absoluteOrigin_steady fun _ h => .pure (h.keeps.trans ⟨rfl, rfl, rfl⟩)
  · exact Report.gives_of_bind fun _ => .pure ⟨rfl, rfl, rfl⟩
  · intro r hr
    obtain ⟨session, hbind, hr⟩ := Report.result_bind_eq_ok.mp hr
    cases hr
    rcases Session.bindLabel_eq_ok (Error.liftAt_eq_ok.mp hbind) with ⟨named, -,
      rfl⟩ | ⟨scopes, -, -, rfl⟩
    · exact ⟨rfl, rfl, rfl⟩
    · exact ⟨rfl, rfl, rfl⟩
  · exact .pure ⟨rfl, rfl, rfl⟩

theorem trackAll_keeps (items : List Item) :
    Gives (fun r => l.Keeps r.1) (l.trackAll items).result := by
  induction items generalizing l with
  | nil => exact .pure ⟨rfl, rfl, rfl⟩
  | cons i rest ih =>
    exact Report.gives_bind (track_keeps i) fun _ h =>
      Report.gives_bind ih fun _ h' => .pure (h.trans h')

/-! ## Inclusions -/

/-- The warning that an included file is not muted with the file that includes it. -/
def mutedNote : String := "#include does not inherit #mute; included file will emit bytecode"

/-- Give this warning where it is due. -/
def warnMuted (l : Loading) (line : SourceLine) : Report Loading :=
  if l.conditions.isMuted then l.warn line mutedNote else pure l

/-- The file after one that it includes. -/
def resume (l : Loading) (loaded : Loaded) : Loading :=
  { l with
    session := loaded.session
    created := loaded.created.foldl (fun set n => NameSet.insert n set) l.created }

theorem includeFile_eq (name : String) : l.includeFile tree search load line name = (do
    let l ← l.warnMuted line
    let place ← Report.ofExcept (Error.liftAt line (l.findInclude tree search name))
    if (l.session.files.find? place.render).isSome then
      Report.fail (Error.ofCauseAt line (ProgramError.includedTwice place.render))
    else do
      let loaded ← load l.session place line
      return (l.resume loaded, loaded.items)) := by
  unfold includeFile warnMuted
  split
  · rfl
  · rfl

/-- The warning changes only the warnings. -/
theorem warnMuted_eq_ok (h : (l.warnMuted line).result = .ok l') :
    ∃ warnings, l' = { l with session := { l.session with warnings } } := by
  unfold warnMuted at h
  split at h
  · exact warn_eq_ok h
  · cases h
    exact ⟨l.session.warnings, rfl⟩

theorem warnMuted_steady (h : (l.warnMuted line).result = .ok l') : l.Steady l' := by
  obtain ⟨warnings, rfl⟩ := warnMuted_eq_ok h
  exact ⟨⟨rfl, rfl, rfl⟩, ⟨rfl, rfl, id, rfl, rfl, rfl⟩⟩

theorem findInclude_warnMuted (h : (l.warnMuted line).result = .ok l') (tree : FileTree)
    (search : List Place) (name : String) :
    l'.findInclude tree search name = l.findInclude tree search name := by
  obtain ⟨warnings, rfl⟩ := warnMuted_eq_ok h
  rfl

/-- An included file has not been loaded before, and it is loaded after the warning. -/
theorem includeFile_eq_ok (h : (l.includeFile tree search load line name).result = .ok r) :
    ∃ l' place loaded, (l.warnMuted line).result = .ok l' ∧
      l.findInclude tree search name = .ok place ∧
      l.session.files.find? place.render = none ∧ (load l'.session place line).result = .ok loaded ∧
      r = (l'.resume loaded, loaded.items) := by
  rw [includeFile_eq] at h
  obtain ⟨l', hwarn, h⟩ := Report.result_bind_eq_ok.mp h
  obtain ⟨place, hplace, h⟩ := Report.result_bind_eq_ok.mp h
  split at h
  · cases h
  · rename_i hnew
    obtain ⟨loaded, hloaded, h⟩ := Report.result_bind_eq_ok.mp h
    cases h
    rw [(warnMuted_steady hwarn).keeps.files_eq, Bool.not_eq_true, Option.isSome_eq_false_iff,
      Option.isNone_iff_eq_none] at hnew
    rw [findInclude_warnMuted hwarn] at hplace
    exact ⟨l', place, loaded, hwarn, Error.liftAt_eq_ok.mp hplace, hnew, hloaded, rfl⟩

/-! ## Directives -/

theorem process_steady (hinclude : ∀ name, d ≠ .includeFile name)
    (hcondition : ∀ c, d ≠ .condition c) :
    Gives (fun r => l.Steady r.1 ∧ r.2 = []) (l.process tree search load line d).result := by
  cases d with
  | includeFile name => exact absurd rfl (hinclude name)
  | condition c => exact absurd rfl (hcondition c)
  | define name value =>
    exact Report.gives_of_bind fun _ =>
      .pure ⟨⟨⟨rfl, rfl, rfl⟩, ⟨rfl, rfl, id, rfl, rfl, rfl⟩⟩, rfl⟩
  | mute => exact .pure ⟨⟨⟨rfl, rfl, rfl⟩, ⟨rfl, rfl, id, rfl, rfl, rfl⟩⟩, rfl⟩
  | unmute => exact Report.gives_bind unmute_steady fun _ h => .pure ⟨h, rfl⟩
  | raise text =>
    intro r h
    cases h
  | print level color text => exact Report.gives_of_bind fun _ => .pure ⟨.refl l, rfl⟩
  | require requirement => exact Report.gives_of_bind fun _ => .pure ⟨.refl l, rfl⟩
  | createZone name first last =>
    exact Report.gives_bind (createZone_steady name first last) fun _ h => .pure ⟨h, rfl⟩
  | createScope name lead =>
    exact Report.gives_bind (createScope_steady name lead) fun _ h => .pure ⟨h, rfl⟩
  | useScope name => exact Report.gives_bind (useScope_steady name) fun _ h => .pure ⟨h, rfl⟩
  | deactivateScope name =>
    exact Report.gives_bind (deactivateScope_steady name) fun _ h => .pure ⟨h, rfl⟩

/-- What a directive does: it includes a file, it opens, continues or closes a block, or it is a
steady step. -/
theorem process_eq_ok (h : (l.process tree search load line d).result = .ok r) :
    (∃ name, d = .includeFile name ∧ (l.includeFile tree search load line name).result = .ok r) ∨
    (∃ c conditions, d = .condition c ∧
      l.conditions.process l.session.symbols line c = (conditions, .ok ()) ∧
        r = ({ l with conditions }, [])) ∨
    l.Steady r.1 ∧ r.2 = [] := by
  by_cases hinclude : ∃ name, d = .includeFile name
  · obtain ⟨name, rfl⟩ := hinclude
    exact .inl ⟨name, rfl, h⟩
  by_cases hcondition : ∃ c, d = .condition c
  · obtain ⟨c, rfl⟩ := hcondition
    rw [process] at h
    cases hprocess : l.conditions.process l.session.symbols line c with
    | mk conditions result =>
      rw [hprocess] at h
      cases result with
      | error e => cases h
      | ok =>
        cases h
        exact .inr (.inl ⟨c, conditions, rfl, hprocess, rfl⟩)
  · exact .inr (.inr (process_steady (fun name hname => hinclude ⟨name, hname⟩)
      (fun c hc => hcondition ⟨c, hc⟩) r h))

/-! ## Lines -/

/-- The line carries out a directive. In an inactive block only conditional directives count. -/
def Carries (l : Loading) (number : Nat) (src : List Char) (d : Directive) : Prop :=
  ∃ body active, Text.trim src = '#' :: body ∧
    l.conditions.isActive l.session.symbols = .ok active ∧
    (active || Condition.isWord (Directive.firstWord body)) = true ∧
    Directive.parse (String.ofList src) (l.lineAt number) = .ok d

theorem loadLine_of_carries (h : l.Carries number src d) :
    l.loadLine tree search load number src = (do
      let (l', items) ← l.process tree search load (l.lineAt number) d
      return (l', items ++ [l'.inertItem (l.lineAt number) (String.ofList src) "" false])) := by
  obtain ⟨body, active, hsharp, hactive, hcounts, hparse⟩ := h
  have hguard : (active || Condition.isWord (String.ofList ((Text.words body).head?.getD []))) =
      true := hcounts
  unfold loadLine
  rw [hactive, hsharp, Report.ofExcept_ok_bind]
  show l.loadDirective tree search load (l.lineAt number) active src body = _
  unfold loadDirective
  dsimp only
  rw [if_pos hguard, hparse, Report.ofExcept_ok_bind]

/-- The file at an active statement. -/
def atStatement (l : Loading) : Loading :=
  { l with position := { l.position with compilable := true, muted := l.conditions.isMuted } }

/-- A line that starts with a number sign. -/
theorem loadLine_of_sharp {body : List Char} (h : Text.trim src = '#' :: body) :
    l.loadLine tree search load number src = (do
      let active ← Report.ofExcept (l.conditions.isActive l.session.symbols)
      l.loadDirective tree search load (l.lineAt number) active src body) := by
  unfold loadLine
  simp only [h]

/-- Any other line. -/
theorem loadLine_of_not_sharp (h : ∀ body, Text.trim src ≠ '#' :: body) :
    l.loadLine tree search load number src = (do
      let active ← Report.ofExcept (l.conditions.isActive l.session.symbols)
      if active then do
        let items ← Report.ofExcept ((l.atStatement.reader (l.lineAt number)).readLine src)
        l.atStatement.trackAll items
      else
        return (l, [l.inertItem (l.lineAt number)
          (String.ofList (Text.trim (Text.splitComment src).1))
          (String.ofList (Text.splitComment src).2) l.conditions.isMuted])) := by
  unfold loadLine
  split
  · rename_i body hsharp
    exact absurd hsharp (h body)
  · rfl

/-- What a line does: it carries out a directive, it is left out, or its statements are tracked. -/
theorem loadLine_eq_ok (h : (l.loadLine tree search load number src).result = .ok r) :
    (∃ d l' items, l.Carries number src d ∧
      (l.process tree search load (l.lineAt number) d).result = .ok (l', items) ∧
      r = (l', items ++ [l'.inertItem (l.lineAt number) (String.ofList src) "" false])) ∨
    (∃ text comment muted, r = (l, [l.inertItem (l.lineAt number) text comment muted])) ∨
    ∃ items, (l.atStatement.reader (l.lineAt number)).readLine src = .ok items ∧
      (l.atStatement.trackAll items).result = .ok r := by
  by_cases hcarries : ∃ d, l.Carries number src d
  · obtain ⟨d, hcarries⟩ := hcarries
    rw [loadLine_of_carries hcarries] at h
    obtain ⟨⟨l', items⟩, hprocess, h⟩ := Report.result_bind_eq_ok.mp h
    cases h
    exact .inl ⟨d, l', items, hcarries, hprocess, rfl⟩
  · right
    obtain ⟨active, hactive, h⟩ := Report.result_bind_eq_ok.mp h
    split at h
    · rename_i body hsharp
      unfold loadDirective at h
      dsimp only at h
      split at h
      · rename_i hguard
        cases hparse : Directive.parse (String.ofList src) (l.lineAt number) with
        | ok d => exact absurd ⟨d, body, active, hsharp, hactive, hguard, hparse⟩ hcarries
        | error e =>
          rw [hparse] at h
          cases h
      · cases h
        exact .inl ⟨String.ofList src, "", false, rfl⟩
    · split at h
      · obtain ⟨items, hitems, h⟩ := Report.result_bind_eq_ok.mp h
        exact .inr ⟨items, hitems, h⟩
      · cases h
        exact .inl ⟨_, _, _, rfl⟩

end Loading

end Retarget
