import Retarget.Proofs.Assembly.LocalLabels
import Retarget.Proofs.Assembly.Requests

/-!
# Warnings that are errors

Take two runs of a step that differ in one option only: the strict run takes warnings as errors, the
lax one does not. Up to the first warning both do the same, and there the strict run fails.

* `Report.warnings`: the warnings of a report, which it keeps also when it fails;
* `Report.Lockstep`: two runs of a step as above, with `Lockstep.bind` for chains of steps;
* `Session.Paired`, `Loading.Paired`: the states of two such runs where there has been no warning
  yet;
* `Loading.loadFile_lockstep`, `Session.placeAll_lockstep`, `Session.code_lockstep`: the stages of a
  run.
-/

namespace Retarget

/-! ## Warnings of reports -/

/-- The warning that a message is. -/
def Message.warning? : Message → Option Warning
  | text _ => none
  | warning w => some w

namespace Report

variable {α β γ δ : Type}

/-- The warnings that a step gave, also if it failed after them. -/
def warnings (r : Report α) : List Warning := r.messages.filterMap Message.warning?

theorem warnings_bind_of_ok {r : Report α} {f : α → Report β} {a : α} (h : r.result = .ok a) :
    (r >>= f).warnings = r.warnings ++ (f a).warnings := by
  show (Report.bind r f).warnings = _
  simp only [Report.bind, h, warnings, List.filterMap_append]

theorem warnings_bind_of_error {r : Report α} {f : α → Report β} {e : Error}
    (h : r.result = .error e) : (r >>= f).warnings = r.warnings := by
  show (Report.bind r f).warnings = _
  simp only [Report.bind, h, warnings]

/-! ## Two runs -/

/-- A lax and a strict run of a step, after the warnings `ws` of the lax one. `R` says which values
go together, and which warnings have been given then. -/
structure Lockstep (R : List Warning → α → β → Prop) (ws : List Warning) (lax : Report α)
    (strict : Report β) : Prop where
  /-- The lax run goes on after its warnings. -/
  recorded : ∀ a, lax.result = .ok a → ∃ b, R (ws ++ lax.warnings) a b
  /-- Without warnings the runs are the same. -/
  quiet : lax.warnings = [] → Rel (R ws) lax strict
  /-- The first warning is an error. -/
  warned : ∀ w ∈ lax.warnings.head?, strict.result = .error w.error

namespace Lockstep

variable {R : List Warning → α → β → Prop} {Q : List Warning → γ → δ → Prop} {ws : List Warning}

theorem pure {a : α} {b : β} (h : R ws a b) : Lockstep R ws (Pure.pure a) (Pure.pure b) where
  recorded := by
    rintro _ ⟨⟩
    exact ⟨b, (List.append_nil ws).symm ▸ h⟩
  quiet _ := .ok h
  warned := by
    rintro w ⟨⟩

theorem fail (e : Error) : Lockstep R ws (Report.fail e) (Report.fail e) where
  recorded := by
    rintro _ ⟨⟩
  quiet _ := .error [] e
  warned := by
    rintro w ⟨⟩

/-- Chains of steps. The second step of the lax run may come after warnings of the first one; then
the strict run has failed, and only what the lax run records counts. -/
theorem bind {lax : Report α} {strict : Report β} {f : α → Report γ} {g : β → Report δ}
    (h : Lockstep R ws lax strict) (hf : ∀ ws a b, R ws a b → Lockstep Q ws (f a) (g b)) :
    Lockstep Q ws (lax >>= f) (strict >>= g) := by
  cases hlax : lax.result with
  | error e =>
    have hwarnings : (lax >>= f).warnings = lax.warnings := warnings_bind_of_error hlax
    refine ⟨fun c hc => ?_, fun hquiet => ?_, fun w hw => ?_⟩
    · rw [result_bind, hlax] at hc
      cases hc
    · refine (h.quiet (hwarnings ▸ hquiet)).bind fun a b ha _ => ?_
      cases hlax.symm.trans ha
    · rw [result_bind, h.warned w (hwarnings ▸ hw)]
      rfl
  | ok a =>
    have hwarnings : (lax >>= f).warnings = lax.warnings ++ (f a).warnings :=
      warnings_bind_of_ok hlax
    refine ⟨fun c hc => ?_, fun hquiet => ?_, fun w hw => ?_⟩
    · obtain ⟨b, hb⟩ := h.recorded a hlax
      rw [result_bind, hlax, ok_bind] at hc
      rw [hwarnings, ← List.append_assoc]
      exact (hf _ a b hb).recorded c hc
    · obtain ⟨hfirst, hsecond⟩ := List.append_eq_nil_iff.mp (hwarnings ▸ hquiet)
      refine (h.quiet hfirst).bind fun a' b ha' hb => ?_
      cases hlax.symm.trans ha'
      exact (hf ws a b hb).quiet hsecond
    · rw [hwarnings] at hw
      cases hfirst : lax.warnings with
      | cons w' rest =>
        rw [hfirst] at hw
        cases hw
        rw [result_bind, h.warned w (by rw [hfirst]; rfl)]
        rfl
      | nil =>
        rw [hfirst, List.nil_append] at hw
        have hrel := h.quiet hfirst
        rw [result_bind]
        cases hrel with
        | error messages e => cases hlax
        | ok hab =>
          cases hlax
          exact (hf ws _ _ hab).warned w hw

/-- Both runs begin with the same step, which gives no warnings. -/
theorem bind_same {r : Report α} {f : α → Report γ} {g : α → Report δ} (hr : r.warnings = [])
    (hf : ∀ a, r.result = .ok a → Lockstep Q ws (f a) (g a)) :
    Lockstep Q ws (r >>= f) (r >>= g) := by
  have hfirst : Lockstep (fun ws' a b => ws' = ws ∧ r.result = .ok a ∧ a = b) ws r r := by
    refine ⟨fun a ha => ⟨a, by rw [hr, List.append_nil], ha, rfl⟩, fun _ => ?_, fun w hw => ?_⟩
    · obtain ⟨messages, result⟩ := r
      cases result with
      | error e => exact .error messages e
      | ok a => exact .ok ⟨rfl, rfl, rfl⟩
    · rw [hr] at hw
      cases hw
  refine hfirst.bind ?_
  rintro _ a _ ⟨rfl, ha, rfl⟩
  exact hf a ha

/-- A step that gives no warnings and does the same in both runs, up to what `F` changes. -/
theorem ofExcept {x : Except Error α} {F : α → β} (h : ∀ a, x = .ok a → R ws a (F a)) :
    Lockstep R ws (Report.ofExcept x) (Report.ofExcept (x.map F)) := by
  cases x with
  | error e => exact fail e
  | ok a => exact pure (h a rfl)

theorem ite {c : Prop} {_ : Decidable c} {lax lax' : Report α} {strict strict' : Report β}
    (h : c → Lockstep R ws lax strict) (h' : ¬ c → Lockstep R ws lax' strict') :
    Lockstep R ws (if c then lax else lax') (if c then strict else strict') := by
  split
  · exact h ‹_›
  · exact h' ‹_›

/-- Two ways to begin, and one to go on. -/
theorem ite_bind {c : Prop} {_ : Decidable c} {lax lax' : Report α} {strict strict' : Report β}
    {f : α → Report γ} {g : β → Report δ} (h : c → Lockstep R ws lax strict)
    (h' : ¬ c → Lockstep R ws lax' strict') (hf : ∀ ws a b, R ws a b → Lockstep Q ws (f a) (g b)) :
    Lockstep Q ws (if c then lax >>= f else lax' >>= f)
      (if c then strict >>= g else strict' >>= g) :=
  ite (fun hc => (h hc).bind hf) fun hc => (h' hc).bind hf

end Lockstep

end Report

open Report (Lockstep)

/-- Where a step gives a state and more, the states go together and the rest is the same. -/
def WithSame {α β γ : Type} (R : List Warning → α → β → Prop) (ws : List Warning) (a : α × γ)
    (b : β × γ) : Prop :=
  R ws a.1 b.1 ∧ b.2 = a.2

/-! ## Sessions -/

namespace Session

variable {s s' : Session} {ws : List Warning}

/-- The session where warnings are errors. -/
def strict (s : Session) : Session :=
  { s with options := { s.options with warningsAsErrors := true } }

/-- The sessions of a lax and a strict run, after the warnings `ws`. -/
def Paired (ws : List Warning) (s s' : Session) : Prop :=
  s.options.warningsAsErrors = false ∧ s.warnings = ws ∧ s' = s.strict

theorem warn_lockstep (h : Paired ws s s') (line : SourceLine) (text : String) :
    Lockstep Paired ws (s.warn line text) (s'.warn line text) := by
  obtain ⟨hlax, rfl, rfl⟩ := h
  unfold warn
  rw [if_neg (by rw [hlax]; exact Bool.false_ne_true)]
  refine ⟨?_, fun hquiet => ?_, ?_⟩
  · rintro _ ⟨⟩
    exact ⟨_, hlax, rfl, rfl⟩
  · cases hquiet
  · rintro w ⟨⟩
    rfl

theorem warnings_log (s : Session) (level : Nat) (text : String) :
    (s.log level text).warnings = [] := by
  unfold log
  split
  · rfl
  · rfl

/-- Labels are bound in both runs. -/
theorem liftAt_bindLabel_lockstep (h : Paired ws s s') (scope : ScopeId) (active : ActiveScopes)
    (label : String) (value : Int) (line : SourceLine) :
    Lockstep Paired ws
      (Report.ofExcept (Error.liftAt line (s.bindLabel scope active label value line)))
      (Report.ofExcept (Error.liftAt line (s'.bindLabel scope active label value line))) := by
  obtain ⟨hlax, rfl, rfl⟩ := h
  simp only [bindLabel, Error.liftAt_bind, Report.ofExcept_bind]
  refine .bind_same rfl fun taken _ => ?_
  cases taken with
  | some named => exact .pure ⟨hlax, rfl, rfl⟩
  | none =>
    simp only [Error.liftAt_bind, Report.ofExcept_bind]
    exact .bind_same rfl fun scopes _ => .pure ⟨hlax, rfl, rfl⟩

end Session

/-- Loaded files of a lax and a strict run, after the warnings `ws`. -/
def Loaded.Paired (ws : List Warning) (a b : Loaded) : Prop :=
  a.session.options.warningsAsErrors = false ∧ a.session.warnings = ws ∧
    b = { a with session := a.session.strict }

/-! ## Lines -/

namespace Loading

variable {l l' : Loading} {ws : List Warning} {tree : FileTree} {search : List Place}
  {load : Include}
  {line : SourceLine}

/-- The state where warnings are errors. -/
def strict (l : Loading) : Loading := { l with session := l.session.strict }

theorem conditions_strict (l : Loading) : l.strict.conditions = l.conditions := rfl

/-- The states of a lax and a strict run, after the warnings `ws`. -/
def Paired (ws : List Warning) (l l' : Loading) : Prop :=
  l.session.options.warningsAsErrors = false ∧ l.session.warnings = ws ∧ l' = l.strict

theorem Paired.session (h : Paired ws l l') : Session.Paired ws l.session l'.session := by
  obtain ⟨hlax, hws, rfl⟩ := h
  exact ⟨hlax, hws, rfl⟩

theorem warn_lockstep (h : Paired ws l l') (line : SourceLine) (text : String) :
    Lockstep Paired ws (l.warn line text) (l'.warn line text) := by
  refine (Session.warn_lockstep h.session line text).bind ?_
  rintro ws' s _ ⟨hlax, hws, rfl⟩
  obtain ⟨-, -, rfl⟩ := h
  exact .pure ⟨hlax, hws, rfl⟩

theorem useScope_lockstep (h : Paired ws l l') (name : String) :
    Lockstep Paired ws (l.useScope line name) (l'.useScope line name) := by
  obtain ⟨-, -, rfl⟩ := id h
  refine .ite_bind (fun _ => warn_lockstep h _ _) (fun _ => .pure h) ?_
  rintro ws' l _ ⟨hlax, hws, rfl⟩
  exact .pure ⟨hlax, hws, rfl⟩

theorem deactivateScope_lockstep (h : Paired ws l l') (name : String) :
    Lockstep Paired ws (l.deactivateScope line name) (l'.deactivateScope line name) := by
  obtain ⟨-, -, rfl⟩ := id h
  refine .ite_bind (fun _ => .pure h) (fun _ => warn_lockstep h _ _) ?_
  rintro ws' l _ ⟨hlax, hws, rfl⟩
  exact .pure ⟨hlax, hws, rfl⟩

theorem unmute_lockstep (h : Paired ws l l') :
    Lockstep Paired ws (l.unmute line) (l'.unmute line) := by
  obtain ⟨hlax, hws, rfl⟩ := id h
  unfold unmute
  rw [conditions_strict]
  cases l.conditions.unmute? with
  | some conditions => exact .pure ⟨hlax, hws, rfl⟩
  | none => exact warn_lockstep h _ _

theorem createZone_lockstep (h : Paired ws l l') (name : String) (first last : Int) :
    Lockstep Paired ws (Report.ofExcept (l.createZone line name first last))
      (Report.ofExcept (l'.createZone line name first last)) := by
  obtain ⟨hlax, hws, rfl⟩ := h
  have hstrict : l.strict.createZone line name first last =
      (l.createZone line name first last).map strict := by
    unfold createZone
    show Error.liftAt line (l.session.zones.create first last name) >>= _ = _
    cases Error.liftAt line (l.session.zones.create first last name) <;> rfl
  rw [hstrict]
  refine .ofExcept fun l₁ h₁ => ?_
  obtain ⟨zones, -, h₁⟩ := bind_eq_ok.mp h₁
  cases pure_eq_ok.mp h₁
  exact ⟨hlax, hws, rfl⟩

theorem createScope_lockstep (h : Paired ws l l') (name lead : String) :
    Lockstep Paired ws (Report.ofExcept (l.createScope line name lead))
      (Report.ofExcept (l'.createScope line name lead)) := by
  obtain ⟨hlax, hws, rfl⟩ := h
  have hstrict : l.strict.createScope line name lead =
      (l.createScope line name lead).map strict := by
    unfold createScope
    show Error.liftAt line (l.session.named.create name lead line) >>= _ = _
    cases Error.liftAt line (l.session.named.create name lead line) <;> rfl
  rw [hstrict]
  refine .ofExcept fun l₁ h₁ => ?_
  obtain ⟨named, -, h₁⟩ := bind_eq_ok.mp h₁
  cases pure_eq_ok.mp h₁
  exact ⟨hlax, hws, rfl⟩

theorem warnings_printMessage (l : Loading) (level : Nat) (color : Option Color) (text : String) :
    (l.printMessage level color text).warnings = [] := by
  unfold printMessage
  split
  · rfl
  · rfl

theorem warnings_require (l : Loading) (line : SourceLine) (requirement : String) :
    (l.require line requirement).warnings = [] := by
  unfold require
  cases hnote : Error.liftAt line (l.session.symbols.requireLanguage requirement) with
  | error e => rfl
  | ok note =>
    rw [Report.ofExcept_ok_bind]
    cases note with
    | none => rfl
    | some note =>
      dsimp only
      split
      · rfl
      · rfl

/-- Loading an included file, in two runs. -/
def IncludesInLockstep (load : Include) : Prop :=
  ∀ ws s s' place line, Session.Paired ws s s' →
    Lockstep Loaded.Paired ws (load s place line) (load s' place line)

theorem warnMuted_lockstep (h : Paired ws l l') (line : SourceLine) :
    Lockstep Paired ws (l.warnMuted line) (l'.warnMuted line) := by
  obtain ⟨-, -, rfl⟩ := id h
  exact .ite (fun _ => warn_lockstep h _ _) fun _ => .pure h

theorem includeFile_lockstep (hload : IncludesInLockstep load) (h : Paired ws l l')
    (name : String) :
    Lockstep (WithSame Paired) ws (l.includeFile tree search load line name)
      (l'.includeFile tree search load line name) := by
  rw [includeFile_eq, includeFile_eq]
  refine (warnMuted_lockstep h line).bind fun ws l l' hl => ?_
  obtain ⟨-, -, rfl⟩ := id hl
  refine .bind_same rfl fun place _ => .ite (fun _ => .fail _) fun _ => ?_
  refine (hload ws _ _ place line hl.session).bind ?_
  rintro ws' loaded _ ⟨hlax, hws, rfl⟩
  exact .pure ⟨⟨hlax, hws, rfl⟩, rfl⟩

theorem process_lockstep (hload : IncludesInLockstep load) (h : Paired ws l l') (d : Directive) :
    Lockstep (WithSame Paired) ws (l.process tree search load line d)
      (l'.process tree search load line d) := by
  obtain ⟨hlax, hws, rfl⟩ := id h
  have hdone {r : Report Loading} {r' : Report Loading} (hr : Lockstep Paired ws r r') :
      Lockstep (WithSame Paired) ws (do return (← r, ([] : List Item))) (do return (← r', [])) :=
    hr.bind fun _ _ _ hl => .pure ⟨hl, rfl⟩
  cases d with
  | includeFile name => exact includeFile_lockstep hload h name
  | condition c =>
    have hsame : l.strict.conditions.process l.strict.session.symbols line c =
      l.conditions.process l.session.symbols line c := rfl
    rw [process, process, hsame]
    cases l.conditions.process l.session.symbols line c with
    | mk conditions result =>
      cases result with
      | error e => exact .fail e
      | ok => exact .pure ⟨⟨hlax, hws, rfl⟩, rfl⟩
  | define name value => exact .bind_same rfl fun symbols _ => .pure ⟨⟨hlax, hws, rfl⟩, rfl⟩
  | mute => exact .pure ⟨⟨hlax, hws, rfl⟩, rfl⟩
  | unmute => exact hdone (unmute_lockstep h)
  | raise text => exact .fail _
  | print level color text => exact .bind_same (warnings_printMessage ..) fun _ _ => .pure ⟨h, rfl⟩
  | require requirement => exact .bind_same (warnings_require ..) fun _ _ => .pure ⟨h, rfl⟩
  | createZone name first last => exact hdone (createZone_lockstep h name first last)
  | createScope name lead => exact hdone (createScope_lockstep h name lead)
  | useScope name => exact hdone (useScope_lockstep h name)
  | deactivateScope name => exact hdone (deactivateScope_lockstep h name)

/-! ## Statements -/

theorem absoluteOrigin_lockstep (h : Paired ws l l') :
    Lockstep Paired ws (l.absoluteOrigin line) (l'.absoluteOrigin line) := by
  obtain ⟨-, -, rfl⟩ := id h
  exact .ite (fun _ => .pure h) fun _ => warn_lockstep h _ _

theorem track_lockstep (h : Paired ws l l') (i : Item) :
    Lockstep (WithSame Paired) ws (l.track i) (l'.track i) := by
  obtain ⟨hlax, hws, rfl⟩ := id h
  obtain ⟨line, text, comment, zone, scope, active, compilable, muted, statement⟩ := i
  cases statement with
  | label name => exact .ite (fun _ => .pure ⟨h, rfl⟩) fun _ => .pure ⟨⟨hlax, hws, rfl⟩, rfl⟩
  | org address zone =>
    cases zone with
    | some name => exact .bind_same rfl fun _ _ => .pure ⟨⟨hlax, hws, rfl⟩, rfl⟩
    | none =>
      refine (absoluteOrigin_lockstep h).bind ?_
      rintro ws' l _ ⟨hlax, hws, rfl⟩
      exact .pure ⟨⟨hlax, hws, rfl⟩, rfl⟩
  | setZone name => exact .bind_same rfl fun _ _ => .pure ⟨⟨hlax, hws, rfl⟩, rfl⟩
  | constant name value =>
    refine (Session.liftAt_bindLabel_lockstep h.session _ _ name value line).bind ?_
    rintro ws' s _ ⟨hlax, hws, rfl⟩
    exact .pure ⟨⟨hlax, hws, rfl⟩, rfl⟩
  | plain | instruction | data | fill | fillUntil | align => exact .pure ⟨h, rfl⟩

theorem trackAll_lockstep (h : Paired ws l l') (items : List Item) :
    Lockstep (WithSame Paired) ws (l.trackAll items) (l'.trackAll items) := by
  induction items generalizing l l' ws with
  | nil => exact .pure ⟨h, rfl⟩
  | cons i rest ih =>
    refine (track_lockstep h i).bind ?_
    rintro ws₁ ⟨l₁, i₁⟩ ⟨l₁', _⟩ ⟨h₁, rfl⟩
    refine (ih h₁).bind ?_
    rintro ws₂ ⟨l₂, items₂⟩ ⟨l₂', _⟩ ⟨h₂, rfl⟩
    exact .pure ⟨h₂, rfl⟩

/-! ## Lines and files -/

theorem loadDirective_lockstep (hload : IncludesInLockstep load) (h : Paired ws l l')
    (active : Bool) (src body : List Char) :
    Lockstep (WithSame Paired) ws (l.loadDirective tree search load line active src body)
      (l'.loadDirective tree search load line active src body) := by
  have hrest (ws : List Warning) (a b : Loading × List Item) (hab : WithSame Paired ws a b) :
      Lockstep (WithSame Paired) ws (pure (a.1,
        a.2 ++ [a.1.inertItem line (String.ofList src) "" false]))
        (pure (b.1, b.2 ++ [b.1.inertItem line (String.ofList src) "" false])) := by
    obtain ⟨hl, hitems⟩ := hab
    obtain ⟨-, -, hstrict⟩ := id hl
    rw [hitems, hstrict]
    exact .pure ⟨hstrict ▸ hl, rfl⟩
  refine .ite (fun _ => ?_) fun _ => hrest ws (l, []) (l', []) ⟨h, rfl⟩
  exact .bind_same rfl fun d _ => (process_lockstep hload h d).bind hrest

theorem loadLine_lockstep (hload : IncludesInLockstep load) (h : Paired ws l l') (number : Nat)
    (src : List Char) :
    Lockstep (WithSame Paired) ws (l.loadLine tree search load number src)
      (l'.loadLine tree search load number src) := by
  obtain ⟨hlax, hws, rfl⟩ := id h
  by_cases hsharp : ∃ body, Text.trim src = '#' :: body
  · obtain ⟨body, hsharp⟩ := hsharp
    rw [loadLine_of_sharp hsharp, loadLine_of_sharp hsharp]
    exact .bind_same rfl fun active _ => loadDirective_lockstep hload h active src body
  · have hplain (body : List Char) : Text.trim src ≠ '#' :: body :=
      fun hbody => hsharp ⟨body, hbody⟩
    rw [loadLine_of_not_sharp hplain, loadLine_of_not_sharp hplain]
    have hstatement : Paired ws l.atStatement l.strict.atStatement := ⟨hlax, hws, rfl⟩
    refine .bind_same rfl fun active _ => .ite (fun _ => ?_) fun _ => .pure ⟨h, rfl⟩
    exact .bind_same rfl fun items _ => trackAll_lockstep hstatement items

theorem loadLines_lockstep (hload : IncludesInLockstep load) (h : Paired ws l l') (number : Nat)
    (lines : List (List Char)) :
    Lockstep (WithSame Paired) ws (l.loadLines tree search load number lines)
      (l'.loadLines tree search load number lines) := by
  induction lines generalizing l l' ws number with
  | nil => exact .pure ⟨h, rfl⟩
  | cons src rest ih =>
    refine (loadLine_lockstep hload h number src).bind ?_
    rintro ws₁ ⟨l₁, items₁⟩ ⟨l₁', _⟩ ⟨h₁, rfl⟩
    refine (ih h₁ (number + 1)).bind ?_
    rintro ws₂ ⟨l₂, items₂⟩ ⟨l₂', _⟩ ⟨h₂, rfl⟩
    exact .pure ⟨h₂, rfl⟩

theorem checkUsed_lockstep (h : Paired ws l l') (used : List (String × SourceLine)) :
    Lockstep Paired ws (l.checkUsed used) (l'.checkUsed used) := by
  induction used generalizing l l' ws with
  | nil => exact .pure h
  | cons first rest ih =>
    obtain ⟨-, -, rfl⟩ := id h
    exact .ite (fun _ => ih h) fun _ => (warn_lockstep h _ _).bind fun _ _ _ h₁ => ih h₁

theorem finish_lockstep (h : Paired ws l l') (count : Nat) :
    Lockstep Paired ws (l.finish count) (l'.finish count) := by
  obtain ⟨-, -, rfl⟩ := id h
  unfold finish
  rw [conditions_strict]
  cases l.conditions.openLine with
  | some line => exact .fail _
  | none =>
    refine .ite_bind (fun _ => warn_lockstep h _ _) (fun _ => .pure h) ?_
    rintro ws₁ l₁ _ ⟨hlax, hws, rfl⟩
    exact checkUsed_lockstep ⟨hlax, hws, rfl⟩ l₁.used

/-- **Two runs load a file in lockstep.** The induction is on how deep files may include each
other. -/
theorem loadFile_lockstep (depth : Nat) {s s' : Session} (h : Session.Paired ws s s')
    (place : Place) (requester : Option SourceLine) :
    Lockstep Loaded.Paired ws (loadFile tree search depth s place requester)
      (loadFile tree search depth s' place requester) := by
  induction depth generalizing s s' ws place requester with
  | zero => exact .fail _
  | succ depth ih =>
    obtain ⟨hlax, hws, rfl⟩ := id h
    have hload : IncludesInLockstep fun s place line =>
        loadFile tree search depth s place (some line) :=
      fun ws s s' place line hs => ih hs place (some line)
    refine .bind_same rfl fun text _ => ?_
    refine .bind_same (Session.warnings_log _ _ _) fun _ _ => ?_
    have hstart : Paired ws (start s place) (start s.strict place) := ⟨hlax, hws, rfl⟩
    refine (loadLines_lockstep hload hstart 1 (Text.lines text)).bind ?_
    rintro ws₁ ⟨l₁, items₁⟩ ⟨l₁', _⟩ ⟨h₁, rfl⟩
    refine (finish_lockstep h₁ _).bind ?_
    rintro ws₂ l₂ _ ⟨hlax, hws, rfl⟩
    exact .pure ⟨hlax, hws, rfl⟩

end Loading

/-! ## The two passes -/

namespace Session

variable {s s' : Session} {ws : List Warning}

theorem warnBehind_lockstep (h : Paired ws s s') (i : Item) (cursor : Int) :
    Lockstep Paired ws (s.warnBehind i cursor) (s'.warnBehind i cursor) := by
  obtain ⟨-, -, rfl⟩ := id h
  refine .bind_same rfl fun target _ => ?_
  cases target with
  | none => exact .pure h
  | some target => exact warn_lockstep h _ _

theorem bindAddress_lockstep (h : Paired ws s s') (i : Item) (address : Int) :
    Lockstep Paired ws (Report.ofExcept (s.bindAddress i address))
      (Report.ofExcept (s'.bindAddress i address)) := by
  unfold bindAddress
  cases i.addressLabel? with
  | some label => exact liftAt_bindLabel_lockstep h _ _ label address i.line
  | none => exact .pure h

theorem placeItem_lockstep (h : Paired ws s s') (i : Item) :
    Lockstep (WithSame Paired) ws (s.placeItem i) (s'.placeItem i) := by
  obtain ⟨-, -, rfl⟩ := id h
  refine .bind_same rfl ?_
  rintro ⟨place, next⟩ -
  refine (warnBehind_lockstep h i _).bind ?_
  rintro ws₁ s₁ _ ⟨hlax, hws, rfl⟩
  refine .bind_same rfl fun zones _ => ?_
  have hmoved : Paired ws₁ { s₁ with zones } { s₁.strict with zones } := ⟨hlax, hws, rfl⟩
  exact (bindAddress_lockstep hmoved i place.address).bind fun _ _ _ h₂ => .pure ⟨h₂, rfl⟩

theorem placeAll_lockstep (h : Paired ws s s') (items : List Item) :
    Lockstep (WithSame Paired) ws (s.placeAll items) (s'.placeAll items) := by
  induction items generalizing s s' ws with
  | nil => exact .pure ⟨h, rfl⟩
  | cons i rest ih =>
    refine (placeItem_lockstep h i).bind ?_
    rintro ws₁ ⟨s₁, p⟩ ⟨s₁', _⟩ ⟨h₁, rfl⟩
    refine (ih h₁).bind ?_
    rintro ws₂ ⟨s₂, ps⟩ ⟨s₂', _⟩ ⟨h₂, rfl⟩
    exact .pure ⟨h₂, rfl⟩

theorem warnAll_lockstep (h : Paired ws s s') (line : SourceLine) (texts : List String) :
    Lockstep Paired ws (s.warnAll line texts) (s'.warnAll line texts) := by
  induction texts generalizing s s' ws with
  | nil => exact .pure h
  | cons text rest ih => exact (warn_lockstep h line text).bind fun _ _ _ h₁ => ih h₁

theorem codeAll_lockstep (h : Paired ws s s') (placed : List PlacedItem) :
    Lockstep (WithSame Paired) ws (s.codeAll placed) (s'.codeAll placed) := by
  induction placed generalizing s s' ws with
  | nil => exact .pure ⟨h, rfl⟩
  | cons p rest ih =>
    obtain ⟨-, -, rfl⟩ := id h
    refine .bind_same rfl ?_
    rintro ⟨words, texts⟩ -
    refine (warnAll_lockstep h p.item.line texts).bind fun ws₁ s₁ s₁' h₁ => ?_
    refine (ih h₁).bind ?_
    rintro ws₂ ⟨s₂, coded⟩ ⟨s₂', _⟩ ⟨h₂, rfl⟩
    exact .pure ⟨h₂, rfl⟩

theorem code_lockstep (h : Paired ws s s') (placed : List PlacedItem) :
    Lockstep (WithSame Paired) ws (s.code placed) (s'.code placed) := by
  refine (codeAll_lockstep h placed).bind ?_
  rintro ws₁ ⟨s₁, coded⟩ ⟨s₁', _⟩ ⟨h₁, rfl⟩
  exact .bind_same rfl fun _ _ => .pure ⟨h₁, rfl⟩

theorem placeBlocks_lockstep (h : Paired ws s s') (blocks : List DataBlock) :
    Lockstep (WithSame Paired) ws (Report.ofExcept (s.placeBlocks blocks))
      (Report.ofExcept (s'.placeBlocks blocks)) := by
  induction blocks generalizing s s' with
  | nil => exact .pure ⟨h, rfl⟩
  | cons b rest ih =>
    obtain ⟨hlax, hws, rfl⟩ := id h
    simp only [placeBlocks, Report.ofExcept_bind]
    refine .bind_same rfl fun r _ => .bind_same rfl fun scopes _ => ?_
    have hbound : Paired ws { s with scopes } { s.strict with scopes } := ⟨hlax, hws, rfl⟩
    refine (ih hbound).bind ?_
    rintro ws₁ ⟨s₁, placed⟩ ⟨s₁', _⟩ ⟨h₁, rfl⟩
    exact .pure ⟨h₁, rfl⟩

theorem start_lockstep (isa : Isa) (options : Options) :
    Lockstep Paired [] (Report.ofExcept (start isa { options with warningsAsErrors := false }))
      (Report.ofExcept (start isa { options with warningsAsErrors := true })) := by
  simp only [start, Report.ofExcept_bind]
  exact .bind_same rfl fun zones _ => .bind_same rfl fun symbols _ => .bind_same rfl fun scopes _ =>
    .pure ⟨rfl, rfl, rfl⟩

end Session

/-! ## The whole run -/

namespace Job

/-- The job with warnings as errors, or not. -/
def withWarningsAsErrors (j : Job) (strict : Bool) : Job :=
  { j with options := { j.options with warningsAsErrors := strict } }

/-- The programs of a lax and a strict run, after the warnings `ws`. -/
def SameProgram (ws : List Warning) (p p' : Program) : Prop :=
  p.warnings = ws.map Warning.render ∧ p' = p

theorem assemble_lockstep (j : Job) (isa : Isa) :
    Lockstep SameProgram [] ((j.withWarningsAsErrors false).assemble isa)
      ((j.withWarningsAsErrors true).assemble isa) := by
  refine .bind_same rfl fun place _ => ?_
  refine (Session.start_lockstep isa j.options).bind fun ws₀ s₀ s₀' h₀ => ?_
  refine (Session.placeBlocks_lockstep h₀ isa.blocks).bind ?_
  rintro ws₁ ⟨s₁, blocks⟩ ⟨s₁', blocks'⟩ ⟨h₁, hblocks⟩
  cases hblocks
  obtain ⟨-, -, rfl⟩ := id h₁
  refine .bind_same (Session.warnings_log s₁ _ _) fun _ _ => ?_
  refine (Loading.loadFile_lockstep _ h₁ place none).bind ?_
  rintro ws₂ loaded _ ⟨hlax, hws, rfl⟩
  have h₂ : Session.Paired ws₂ loaded.session loaded.session.strict := ⟨hlax, hws, rfl⟩
  refine .bind_same (Session.warnings_log loaded.session _ _) fun _ _ => ?_
  refine .bind_same (Session.warnings_log loaded.session _ _) fun _ _ => ?_
  refine (Session.placeAll_lockstep h₂ _).bind ?_
  rintro ws₃ ⟨s₃, placed⟩ ⟨s₃', placed'⟩ ⟨h₃, hplaced⟩
  cases hplaced
  obtain ⟨-, -, rfl⟩ := id h₃
  refine .bind_same (Session.warnings_log s₃ _ _) fun _ _ => ?_
  refine (Session.code_lockstep h₃ _).bind ?_
  rintro ws₄ ⟨s₄, items⟩ ⟨s₄', items'⟩ ⟨h₄, hitems⟩
  cases hitems
  obtain ⟨-, hwarnings, rfl⟩ := id h₄
  refine .bind_same rfl fun words _ => ?_
  refine .bind_same (Session.warnings_log s₄ _ _) fun _ _ => ?_
  exact .pure ⟨congrArg (List.map Warning.render) hwarnings, rfl⟩

end Job

/-- **Warnings as errors.** A job succeeds in the strict run exactly if it does so in the lax run
without a warning, and gives the same program then. A lax run that fails before any warning fails in
the strict run with the same error, and a lax run with warnings, whether it succeeds or fails after
them, fails with the first one. -/
theorem assemble_warningsAsErrors (j : Job) (isa : Isa) :
    let lax := (j.withWarningsAsErrors false).assemble isa
    let strict := (j.withWarningsAsErrors true).assemble isa
    (∀ p, strict.result = .ok p ↔ lax.result = .ok p ∧ p.warnings = []) ∧
      (∀ e, lax.result = .error e → lax.warnings = [] → strict.result = .error e) ∧
      (∀ w ∈ lax.warnings.head?, strict.result = .error w.error) ∧
      ∀ p, lax.result = .ok p → p.warnings = lax.warnings.map Warning.render := by
  intro lax strict
  have h : Lockstep Job.SameProgram [] lax strict := j.assemble_lockstep isa
  have hrecorded : ∀ p, lax.result = .ok p → p.warnings = lax.warnings.map Warning.render := by
    intro p hp
    obtain ⟨_, hwarnings, -⟩ := h.recorded p hp
    exact hwarnings
  have hquiet (hnone : lax.warnings = []) : strict.result = lax.result := by
    have hsame : lax = strict := (h.quiet hnone).eq fun _ _ hp => hp.2.symm
    rw [hsame]
  refine ⟨fun p => ⟨fun hp => ?_, ?_⟩, fun e he hnone => ?_, h.warned, hrecorded⟩
  · cases hwarnings : lax.warnings with
    | nil =>
      have hlax : lax.result = .ok p := (hquiet hwarnings).symm.trans hp
      exact ⟨hlax, by rw [hrecorded p hlax, hwarnings, List.map_nil]⟩
    | cons w rest =>
      cases hp.symm.trans (h.warned w (by rw [hwarnings]; rfl))
  · rintro ⟨hp, hnone⟩
    rw [hrecorded p hp] at hnone
    rw [hquiet (List.map_eq_nil_iff.mp hnone), hp]
  · rw [hquiet hnone, he]

/-- A program whose included file gives a warning while it is loaded, and whose data gives one when
words are made. The lax run succeeds with both, and the strict one fails with the first. -/
theorem assemble_two_warnings :
    let isa := Isa.bare { size := 8, segment := 8, order := .big } (by decide) (by decide)
    let j := Job.ofTwoFiles ["#include \"lib.asm\"", ".byte 300"] ["#unmute"]
    let w : Warning :=
      { line := { file := some 1, name := "lib.asm", number := 1 },
        text := "#unmute without a matching #mute" }
    ((j.withWarningsAsErrors false).assemble isa).result.toOption.map Program.warnings =
        some [w.render, "main.asm:2 - Data value 300 truncated to 44 for .byte"] ∧
      ((j.withWarningsAsErrors true).assemble isa).result = .error w.error := by
  intro isa j w
  have hwarnings : ((j.withWarningsAsErrors false).assemble isa).warnings.head? = some w := by
    decide +kernel
  exact ⟨by decide +kernel, (assemble_warningsAsErrors j isa).2.2.1 w hwarnings⟩

end Retarget
