import Retarget.Proofs.Assembly.Lines
import Retarget.Proofs.Statement.Numbering

/-!
# Line numbers while loading

Labels and warnings remember the lines that they come from. Apart from that the state of the loader
knows no line numbers: an item does the same to it on every line of its file
(`Loading.track_atNumber`).

* `SameOutcome`: steps that fail with errors of one kind, or succeed with related results;
* `Loading.unnumbered`: the state of the loader without the numbers of lines.
-/

namespace Retarget

/-! ## Outcomes -/

/-- Both steps fail, with errors of one kind, or both succeed, with related results. -/
inductive SameOutcome {α β : Type} (R : α → β → Prop) : Except Error α → Except Error β → Prop
  | ok {a : α} {b : β} (h : R a b) : SameOutcome R (.ok a) (.ok b)
  | error {e e' : Error} (h : e.kind = e'.kind) : SameOutcome R (.error e) (.error e')

namespace SameOutcome

variable {α β γ δ ε : Type} [IsCause ε] {R : α → β → Prop} {Q : γ → δ → Prop}

theorem bind {x : Except Error α} {y : Except Error β} {f : α → Except Error γ}
    {g : β → Except Error δ} (h : SameOutcome R x y)
    (hnext : ∀ a b, R a b → SameOutcome Q (f a) (g b)) : SameOutcome Q (x >>= f) (y >>= g) := by
  cases h with
  | ok h => exact hnext _ _ h
  | error h => exact .error h

/-- A step under two line numbers. -/
theorem renumber (n : Nat) (f : α → β) (x : Except Error α) :
    SameOutcome (fun a b => b = f a) x (renumber n f x) := by
  cases x with
  | ok a => exact .ok rfl
  | error e => exact .error rfl

/-- Two steps that give the same view of their results. -/
theorem of_map_eq {f : α → γ} {line line' : SourceLine} {x y : Except ε α} (h : x.map f = y.map f) :
    SameOutcome (fun a b => f a = f b) (Error.liftAt line x) (Error.liftAt line' y) := by
  cases x with
  | ok a =>
    obtain ⟨b, rfl, hb⟩ := map_eq_ok.mp h.symm
    exact .ok hb.symm
  | error e =>
    cases y with
    | ok b => cases h
    | error e' =>
      cases h
      exact .error rfl

end SameOutcome

/-! ## Labels -/

/-- The binding without the number of its line. -/
def Binding.unnumbered (b : Binding) : Binding := { b with line := b.line.atNumber 0 }

/-- The scope without the numbers of lines. -/
def Scope.unnumbered (s : Scope) : Scope := { s with bindings := s.bindings.map Binding.unnumbered }

/-- The tree without the numbers of lines. -/
def ScopeTree.unnumbered (t : ScopeTree) : ScopeTree := { scopes := t.scopes.map Scope.unnumbered }

/-- The named scope without the numbers of the lines of its labels. -/
def NamedScope.unnumbered (s : NamedScope) : NamedScope :=
  { s with bindings := s.bindings.map Binding.unnumbered }

/-- The warning without the number of its line. -/
def Warning.unnumbered (w : Warning) : Warning := { w with line := w.line.atNumber 0 }

/-- The session without the numbers of lines in its labels and warnings. -/
def Session.unnumbered (s : Session) : Session :=
  { s with
    scopes := s.scopes.unnumbered
    named := s.named.map NamedScope.unnumbered
    warnings := s.warnings.map Warning.unnumbered }

section Labels

variable (label : String) (value : Int) (line : SourceLine) (n : Nat)

/-- Steps with the same view of their results go on to the same view. -/
theorem map_bind_pure {ε α β γ δ : Type} {x y : Except ε α} {f : α → γ} {g : α → β} {view : β → δ}
    (h : x.map f = y.map f) (hview : ∀ a b, f a = f b → view (g a) = view (g b)) :
    (x >>= fun a => pure (g a)).map view = (y >>= fun a => pure (g a)).map view := by
  cases x with
  | ok a =>
    obtain ⟨b, rfl, hb⟩ := map_eq_ok.mp h.symm
    exact congrArg Except.ok (hview a b hb.symm)
  | error e =>
    cases y with
    | ok b => cases h
    | error e' =>
      cases h
      rfl

theorem Bindings.bind_atNumber (bs : Bindings) :
    (bs.bind label value (line.atNumber n)).map (List.map Binding.unnumbered) =
      (bs.bind label value line).map (List.map Binding.unnumbered) := by
  unfold bind
  cases find? bs label with
  | some b => rfl
  | none =>
    simp only [Except.map, List.map_append]
    rfl

theorem ScopeTree.bind_atNumber (t : ScopeTree) (id : ScopeId) :
    (t.bind id label value (line.atNumber n)).map unnumbered =
      (t.bind id label value line).map unnumbered := by
  unfold bind
  dsimp only
  cases t.enclosing id (Tier.ofLabel label) with
  | none => rfl
  | some target =>
    dsimp only
    cases t.scopes[target]? with
    | none => rfl
    | some s =>
      refine map_bind_pure (s.bindings.bind_atNumber label value line n) fun a b hab => ?_
      simp only [unnumbered, List.map_set, Scope.unnumbered, hab]

theorem NamedScopes.bind?_atNumber (all : NamedScopes) (active : List String) :
    (all.bind? active label value (line.atNumber n)).map
      (Option.map (List.map NamedScope.unnumbered)) =
      (all.bind? active label value line).map (Option.map (List.map NamedScope.unnumbered)) := by
  unfold bind?
  cases (claiming all active label).head? with
  | none => rfl
  | some s =>
    dsimp only
    rw [show (line.atNumber n).file = line.file from rfl]
    split
    · refine map_bind_pure (s.bindings.bind_atNumber label value line n) fun a b hab => ?_
      rw [Option.map_some, Option.map_some, List.map_map, List.map_map]
      refine congrArg some (List.map_congr_left fun other _ => ?_)
      rw [Function.comp, Function.comp]
      split
      · simp only [NamedScope.unnumbered, hab]
      · rfl
    · rfl

/-- A label is bound alike on every line of a file. -/
theorem Session.bindLabel_atNumber (s : Session) (scope : ScopeId) (active : ActiveScopes) :
    (s.bindLabel scope active label value (line.atNumber n)).map unnumbered =
      (s.bindLabel scope active label value line).map unnumbered := by
  have hnamed := s.named.bind?_atNumber label value line n active
  have hscopes :
      (do return { s with scopes :=
            ← s.scopes.bind scope label value (line.atNumber n) }).map unnumbered =
      (do return { s with scopes := ← s.scopes.bind scope label value line }).map unnumbered :=
    map_bind_pure (s.scopes.bind_atNumber label value line n scope) fun a b hab => by
      simp only [unnumbered, hab]
  unfold bindLabel
  cases hfirst : s.named.bind? active label value line with
  | error e =>
    rw [hfirst] at hnamed
    cases hsecond : s.named.bind? active label value (line.atNumber n) with
    | error e' =>
      rw [hsecond] at hnamed
      cases hnamed
      rfl
    | ok found =>
      rw [hsecond] at hnamed
      cases hnamed
  | ok found =>
    rw [hfirst] at hnamed
    obtain ⟨found', hfound', hsame⟩ := map_eq_ok.mp hnamed
    rw [hfound']
    cases found with
    | none =>
      cases Option.map_eq_none_iff.mp hsame
      exact hscopes
    | some named =>
      obtain ⟨named', rfl, hnames⟩ := Option.map_eq_some_iff.mp hsame
      refine congrArg Except.ok ?_
      simp only [unnumbered, hnames]

end Labels

/-! ## The loader -/

namespace Loading

variable {l : Loading}

/-- The state of the loader without the numbers of lines in its labels and warnings. -/
def unnumbered (l : Loading) : Loading := { l with session := l.session.unnumbered }

/-- The same state and the same item, up to line numbers. -/
def SameTracked (a b : Loading × Item) : Prop :=
  a.1.unnumbered = b.1.unnumbered ∧ a.2.atNumber 0 = b.2.atNumber 0

theorem warn_atNumber (l : Loading) (line : SourceLine) (n : Nat) (text : String) :
    SameOutcome (fun a b => a.unnumbered = b.unnumbered) (l.warn line text).result
      (l.warn (line.atNumber n) text).result := by
  unfold warn Session.warn
  dsimp only
  split
  · exact .error rfl
  · refine .ok ?_
    simp only [unnumbered, Session.unnumbered, List.map_append]
    rfl

theorem absoluteOrigin_atNumber (l : Loading) (line : SourceLine) (n : Nat) :
    SameOutcome (fun a b => a.unnumbered = b.unnumbered) (l.absoluteOrigin line).result
      (l.absoluteOrigin (line.atNumber n)).result := by
  unfold absoluteOrigin
  dsimp only
  split
  · exact .ok rfl
  · exact l.warn_atNumber line n _

theorem zoneNamed_atNumber (l : Loading) (line : SourceLine) (n : Nat) (name : String) :
    SameOutcome Eq (l.zoneNamed line name) (l.zoneNamed (line.atNumber n) name) := by
  unfold zoneNamed
  split
  · exact .ok rfl
  · exact .error rfl

/-- **An item does the same on every line of its file.** -/
theorem track_atNumber (l : Loading) (i : Item) (n : Nat) :
    SameOutcome SameTracked (l.track i).result (l.track (i.atNumber n)).result := by
  rcases i with ⟨line, text, comment, zone, scope, active, compilable, muted, statement⟩
  unfold track
  cases statement with
  | label name =>
    dsimp only [Item.atNumber, Statement.atNumber]
    split <;> exact .ok ⟨rfl, rfl⟩
  | constant name value =>
    dsimp only [Item.atNumber, Statement.atNumber]
    rw [Report.result_bind, Report.result_bind]
    have hbind := l.session.bindLabel_atNumber name value line n l.position.scope l.position.active
    refine (SameOutcome.of_map_eq hbind.symm).bind fun s s' hs => .ok ⟨?_, rfl⟩
    simp only [unnumbered, hs]
  | org address zone =>
    cases zone with
    | some name =>
      dsimp only [Item.atNumber, Statement.atNumber]
      rw [Report.result_bind, Report.result_bind]
      refine (l.zoneNamed_atNumber line n name).bind ?_
      rintro z _ rfl
      exact .ok ⟨rfl, rfl⟩
    | none =>
      dsimp only [Item.atNumber, Statement.atNumber]
      rw [Report.result_bind, Report.result_bind]
      refine (l.absoluteOrigin_atNumber line n).bind fun a b hab => .ok ⟨?_, ?_⟩
      · exact congrArg (fun l => l.enterZone ZoneMap.globalId) hab
      · have hscope : a.fileScope = b.fileScope := (congrArg fileScope hab :)
        simp only [enterZone, hscope]
        rfl
  | setZone name =>
    dsimp only [Item.atNumber, Statement.atNumber]
    rw [Report.result_bind, Report.result_bind]
    refine (l.zoneNamed_atNumber line n name).bind ?_
    rintro z _ rfl
    exact .ok ⟨rfl, rfl⟩
  | instruction e =>
    refine .ok ⟨rfl, ?_⟩
    exact (Item.atNumber_atNumber 0 n
      ⟨line, text, comment, zone, l.position.scope, active, compilable, muted, .instruction e⟩).symm
  | plain | data | fill | fillUntil | align => exact .ok ⟨rfl, rfl⟩

end Loading

end Retarget
