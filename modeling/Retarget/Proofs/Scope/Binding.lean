import Mathlib.Logic.Relation
import Retarget.Proofs.Statement.Size

/-!
# Bound labels

A label goes to a named scope or to the scope that its spelling calls for, and it is looked up in
all active named scopes first. The two searches are compared step by step.

* `Bindings.find?_of_bind`: a bound label is found in its table;
* `ScopeTree.lookup_of_bind`: from a scope, a label is found where it was bound from that scope;
* `NamedScopes.lookup_of_bind?`: a label that an active named scope takes is found there, before all
  others;
* `Session.bindLabel_eq_ok`: where a label goes.
-/

namespace Retarget

/-! ## Tables of labels -/

namespace Bindings

variable {bs bs' : Bindings} {label : String} {value : Int} {line : SourceLine}

theorem bind_eq_ok : bs.bind label value line = .ok bs' ↔
    bs.find? label = none ∧ bs' = bs ++ [({ label, value, line } : Binding)] := by
  unfold bind
  cases find? bs label with
  | none => simp [eq_comm]
  | some b => simp

/-- A bound label is found. -/
theorem find?_of_bind (h : bs.bind label value line = .ok bs') :
    bs'.find? label = some { label, value, line } := by
  obtain ⟨hnone, rfl⟩ := Bindings.bind_eq_ok.mp h
  unfold find? at *
  rw [List.find?_append, hnone, Option.none_or, List.find?_singleton, beq_self_eq_true]
  rfl

end Bindings

/-! ## Scopes -/

namespace ScopeTree

/-- The way from a scope outwards depends on the tiers and parents of the scopes up to it. -/
theorem enclosing_congr {t t' : ScopeTree} {id : ScopeId} (tier : Tier)
    (h : ∀ j ≤ id, t.scopes[j]?.map (fun s => (s.tier, s.parent)) =
      t'.scopes[j]?.map fun s => (s.tier, s.parent)) :
    t.enclosing id tier = t'.enclosing id tier := by
  induction id using Nat.strongRecOn with
  | ind id ih =>
    have hid := h id (Nat.le_refl id)
    rw [enclosing, enclosing]
    cases hs : t.scopes[id]? with
    | none =>
      rw [hs, Option.map_none, eq_comm, Option.map_eq_none_iff] at hid
      rw [hid]
    | some s =>
      rw [hs, Option.map_some, eq_comm, Option.map_eq_some_iff] at hid
      obtain ⟨s', hs', heq⟩ := hid
      obtain ⟨htier, hparent⟩ := Prod.mk.inj heq
      simp only [hs', htier, hparent]
      cases s.parent with
      | none => rfl
      | some p =>
        by_cases hp : p < id
        · simp only [ih p hp fun j hj => h j (Nat.le_trans hj (Nat.le_of_lt hp))]
        · simp only [if_neg hp]

/-- What the way from any scope outwards depends on. -/
def SameShape (t t' : ScopeTree) : Prop :=
  ∀ id : ScopeId, t.scopes[id]?.map (fun s => (s.tier, s.parent)) =
    t'.scopes[id]?.map fun s => (s.tier, s.parent)

theorem SameShape.enclosing_eq {t t' : ScopeTree} (h : SameShape t t') (id : ScopeId)
    (tier : Tier) : t.enclosing id tier = t'.enclosing id tier :=
  enclosing_congr tier fun j _ => h j

/-- Bindings are not part of the shape. -/
theorem sameShape_set {t : ScopeTree} {target : ScopeId} {s : Scope}
    (hs : t.scopes[target]? = some s) (bindings : Bindings) :
    SameShape t { scopes := t.scopes.set target { s with bindings } } := by
  intro id
  by_cases hid : target = id
  · subst hid
    have hlt : target < t.scopes.length := (List.getElem?_eq_some_iff.mp hs).1
    simp [hs, List.getElem?_set_self hlt]
  · rw [List.getElem?_set_ne hid]

theorem bind_eq_ok {t t' : ScopeTree} {id : ScopeId} {label : String} {value : Int}
    {line : SourceLine} (h : t.bind id label value line = .ok t') :
    ∃ target s bindings, t.enclosing id (Tier.ofLabel label) = some target ∧
      t.scopes[target]? = some s ∧ s.bindings.bind label value line = .ok bindings ∧
      t' = { scopes := t.scopes.set target { s with bindings } } := by
  simp only [bind] at h
  split at h
  · cases h
  · rename_i target htarget
    split at h
    · cases h
    · rename_i s hs
      obtain ⟨bindings, hbind, h⟩ := Retarget.bind_eq_ok.mp h
      exact ⟨target, s, bindings, htarget, hs, hbind, (pure_eq_ok.mp h).symm⟩

/-- A label is found from the scope from which it was bound. -/
theorem lookup_of_bind {t t' : ScopeTree} {id : ScopeId} {label : String} {value : Int}
    {line : SourceLine} (h : t.bind id label value line = .ok t') :
    t'.lookup id label = some value := by
  obtain ⟨target, s, bindings, htarget, hs, hbind, rfl⟩ := bind_eq_ok h
  have hlt : target < t.scopes.length := (List.getElem?_eq_some_iff.mp hs).1
  rw [lookup, ← (sameShape_set hs bindings).enclosing_eq, htarget]
  simp [List.getElem?_set_self hlt, Bindings.find?_of_bind hbind]

end ScopeTree

/-! ## Named scopes -/

/-- The scope with new bindings, if it has the given name. -/
def NamedScope.rebound (name : String) (bindings : Bindings) (s : NamedScope) : NamedScope :=
  if s.name == name then { s with bindings } else s

namespace NamedScope

variable {name : String} {bindings : Bindings} {s : NamedScope}

@[simp] theorem name_rebound : (s.rebound name bindings).name = s.name := by
  unfold rebound
  split <;> rfl

@[simp] theorem lead_rebound : (s.rebound name bindings).lead = s.lead := by
  unfold rebound
  split <;> rfl

@[simp] theorem claims_rebound {label : String} :
    (s.rebound name bindings).claims label = s.claims label := by
  unfold rebound
  split <;> rfl

theorem rebound_self : s.rebound s.name bindings = { s with bindings } :=
  if_pos (beq_self_eq_true _)

end NamedScope

namespace NamedScopes

variable {all all' : NamedScopes} {active : ActiveScopes} {label : String} {value : Int}
  {line : SourceLine}

/-- The named scope that takes a label of a line: the first active one that claims it, if that one
was made in the file of the line. -/
def keeper? (all : NamedScopes) (active : ActiveScopes) (label : String) (line : SourceLine) :
    Option NamedScope :=
  (claiming all active label).head?.filter fun s => s.definedAt.file = line.file

theorem bind?_eq_ok {result : Option NamedScopes}
    (h : all.bind? active label value line = .ok result) :
    all.keeper? active label line = none ∧ result = none ∨
      ∃ s rest bindings, all.keeper? active label line = some s ∧
        all.claiming active label = s :: rest ∧ s.bindings.bind label value line = .ok bindings ∧
        result = some (all.map (NamedScope.rebound s.name bindings)) := by
  unfold bind? at h
  unfold keeper?
  cases hclaiming : claiming all active label with
  | nil =>
    rw [hclaiming] at h
    cases h
    exact .inl ⟨rfl, rfl⟩
  | cons s rest =>
    rw [hclaiming, List.head?_cons] at h
    rw [List.head?_cons]
    by_cases hfile : s.definedAt.file = line.file
    · simp only [hfile, if_true] at h
      obtain ⟨bindings, hbind, h⟩ := Retarget.bind_eq_ok.mp h
      refine .inr ⟨s, rest, bindings, ?_, rfl, hbind, (pure_eq_ok.mp h).symm⟩
      simp [hfile]
    · simp only [hfile, if_false] at h
      cases h
      refine .inl ⟨?_, rfl⟩
      simp [hfile]

theorem isSome_keeper? {result : Option NamedScopes}
    (h : all.bind? active label value line = .ok result) :
    (all.keeper? active label line).isSome = result.isSome := by
  rcases bind?_eq_ok h with ⟨hkeeper, rfl⟩ | ⟨s, rest, bindings, hkeeper, -, -, rfl⟩
  · rw [hkeeper]
    rfl
  · rw [hkeeper]
    rfl

/-- The scope with a name is the same, up to its bindings. -/
theorem find?_map_rebound (name : String) (bindings : Bindings) (n : String) :
    find? (all.map (NamedScope.rebound name bindings)) n =
      (find? all n).map (NamedScope.rebound name bindings) := by
  unfold find?
  rw [List.find?_map]
  congr 2
  funext s
  simp

/-- The same scopes claim a label before and after one of them gets new bindings. -/
theorem claiming_map_rebound (name : String) (bindings : Bindings) :
    claiming (all.map (NamedScope.rebound name bindings)) active label =
      (claiming all active label).map (NamedScope.rebound name bindings) := by
  unfold claiming
  simp only [find?_map_rebound]
  rw [← List.map_filterMap, List.filter_map]
  congr 2
  funext s
  simp

/-- A label that an active named scope takes is found in it, whatever other active scopes hold. -/
theorem lookup_of_bind? (h : all.bind? active label value line = .ok (some all')) :
    all'.lookup active label = some value := by
  rcases bind?_eq_ok h with ⟨-, hnone⟩ | ⟨s, rest, bindings, -, hclaiming, hbind, hall⟩
  · cases hnone
  · cases hall
    rw [lookup, claiming_map_rebound, hclaiming, List.map_cons, List.findSome?_cons,
      NamedScope.rebound_self, Bindings.find?_of_bind hbind]
    rfl

end NamedScopes

/-! ## Sessions -/

namespace Session

theorem bindLabel_eq_ok {s s' : Session} {scope : ScopeId} {active : ActiveScopes} {label : String}
    {value : Int} {line : SourceLine} (h : s.bindLabel scope active label value line = .ok s') :
    (∃ named, s.named.bind? active label value line = .ok (some named) ∧ s' = { s with named }) ∨
      ∃ scopes, s.named.bind? active label value line = .ok none ∧
        s.scopes.bind scope label value line = .ok scopes ∧ s' = { s with scopes } := by
  obtain ⟨taken, htaken, h⟩ := bind_eq_ok.mp h
  cases taken with
  | some named => exact .inl ⟨named, htaken, (pure_eq_ok.mp h).symm⟩
  | none =>
    obtain ⟨scopes, hscopes, h⟩ := bind_eq_ok.mp h
    exact .inr ⟨scopes, htaken, hscopes, (pure_eq_ok.mp h).symm⟩

/-- What source lines do to scopes and labels. -/
inductive ScopeStep (s : Session) : Session → Prop
  | create {name lead : String} {line : SourceLine} {named : NamedScopes}
      (h : s.named.create name lead line = .ok named) : ScopeStep s { s with named }
  | openFile (name : String) : ScopeStep s { s with scopes := (s.scopes.openFile name).1 }
  | openBlock (within : ScopeId) (label : String) :
      ScopeStep s { s with scopes := (s.scopes.openBlock within label).1 }
  | bind {s' : Session} {scope : ScopeId} {active : ActiveScopes} {label : String} {value : Int}
      {line : SourceLine} (h : s.bindLabel scope active label value line = .ok s') : ScopeStep s s'

end Session

/-- **What is seen of a bound label.** A label that has been bound is seen with its value from the
scope and with the active scopes of its binding, if an active named scope has taken it or if no
active named scope held it before. If no named scope has taken it, and one holds it, then the value
there is seen. -/
theorem labels_of_bindLabel (s s' : Session) (scope : ScopeId) (active : ActiveScopes)
    (label : String) (value : Int) (line : SourceLine)
    (h : s.bindLabel scope active label value line = .ok s') :
    ((s.named.keeper? active label line).isSome ∨ s.named.lookup active label = none →
      s'.env.labels scope active label = some value) ∧
    (s.named.keeper? active label line = none → ∀ held, s.named.lookup active label = some held →
      s'.env.labels scope active label = some held) := by
  rcases Session.bindLabel_eq_ok h with ⟨named, hbind, rfl⟩ | ⟨scopes, hbind, hscopes, rfl⟩
  · -- The label is in the named scope that is asked first.
    have hkeeper := NamedScopes.isSome_keeper? hbind
    refine ⟨fun _ => ?_, fun hnone => ?_⟩
    · simp [Session.env, Environment.labels, NamedScopes.lookup_of_bind? hbind]
    · rw [hnone] at hkeeper
      cases hkeeper
  · -- The label is outside the named scopes, which are as they were and are asked before.
    have hkeeper := NamedScopes.isSome_keeper? hbind
    refine ⟨fun hfree => ?_, fun _ held hheld => ?_⟩
    · have hnone := hfree.resolve_left (by simp [hkeeper])
      simp [Session.env, Environment.labels, hnone, ScopeTree.lookup_of_bind hscopes]
    · simp [Session.env, Environment.labels, hheld]

/-- Two named scopes claim a label: the one that became active last takes it, although the other one
holds it already. -/
theorem labels_of_bindLabel_nested_leads :
    let isa := Isa.bare { size := 8, segment := 8, order := .big } (by decide) (by decide)
    let line : SourceLine := { file := some 0, name := "main.asm", number := 9 }
    let outer : NamedScope :=
      { name := "outer", lead := "m_", definedAt := line,
        bindings := [{ label := "m_io_x", value := 1, line }] }
    let inner : NamedScope := { name := "inner", lead := "m_io_", definedAt := line }
    let s : Session :=
      { isa, options := {}, scopes := .empty, named := [outer, inner], zones := default,
        symbols := default, files := [], warnings := [] }
    ∃ s', s.bindLabel 0 ["inner", "outer"] "m_io_x" 2 line = .ok s' ∧
      s'.env.labels 0 ["inner", "outer"] "m_io_x" = some 2 := by
  intro isa line outer inner s
  have hkeeper : s.named.keeper? ["inner", "outer"] "m_io_x" line = some inner := by decide +kernel
  have hbind : ((s.bindLabel 0 ["inner", "outer"] "m_io_x" 2 line).map fun _ => ()) = .ok () := by
    decide +kernel
  obtain ⟨s', h, -⟩ := map_eq_ok.mp hbind
  refine ⟨s', h, (labels_of_bindLabel s s' _ _ _ _ _ h).1 (.inl ?_)⟩
  rw [hkeeper]
  rfl

/-- A library makes a scope and binds a label in it. Another file that uses the scope can bind the
same label, but it goes on seeing that of the library. -/
theorem bindLabel_hidden_by_library :
    let isa := Isa.bare { size := 8, segment := 8, order := .big } (by decide) (by decide)
    let line : SourceLine := { file := some 0, name := "main.asm", number := 3 }
    ∃ s₀ s s' : Session, Session.start isa {} = .ok s₀ ∧
      Relation.ReflTransGen Session.ScopeStep s₀ s ∧
      s.bindLabel 1 (ActiveScopes.activate [] "m") "m_x" 2 line = .ok s' ∧
      s'.env.labels 1 (ActiveScopes.activate [] "m") "m_x" = some 1 := by
  intro isa line
  have hstart : ((Session.start isa {}).map fun s => (s.scopes, s.named)) = .ok (.empty, []) := by
    decide +kernel
  obtain ⟨⟨isa, options, scopes, named, zones, symbols, files, warnings⟩, hs₀, hview⟩ :=
    map_eq_ok.mp hstart
  obtain ⟨rfl, rfl⟩ := Prod.mk.inj hview
  -- The files are opened, the library makes its scope and binds its label.
  let library (number : Nat) : SourceLine := { file := some 1, name := "lib.asm", number }
  let opened := ((ScopeTree.empty.openFile "main.asm").1.openFile "lib.asm").1
  let made : NamedScope := { name := "m", lead := "m_", definedAt := library 1 }
  let bound : NamedScope :=
    { made with bindings := [{ label := "m_x", value := 1, line := library 2 }] }
  let s : Session :=
    { isa, options, scopes := opened, named := [bound], zones, symbols, files, warnings }
  have hcreate : NamedScopes.create [] "m" "m_" (library 1) = .ok [made] := by decide +kernel
  have htaken : NamedScopes.bind? [made] ["m"] "m_x" 1 (library 2) = .ok (some [bound]) := by
    decide +kernel
  have hlibrary :
      ({ s with named := [made] } : Session).bindLabel 2 ["m"] "m_x" 1 (library 2) = .ok s := by
    rw [Session.bindLabel, htaken]
    rfl
  have hleft : NamedScopes.bind? [bound] ["m"] "m_x" 2 line = .ok none := by decide +kernel
  have hfree : ((opened.bind 1 "m_x" 2 line).map fun _ => ()) = .ok () := by decide +kernel
  obtain ⟨scopes', hscopes, -⟩ := map_eq_ok.mp hfree
  have hmain : s.bindLabel 1 ["m"] "m_x" 2 line = .ok { s with scopes := scopes' } := by
    rw [Session.bindLabel, hleft, ok_bind, hscopes]
    rfl
  refine ⟨_, s, _, hs₀, ?_, hmain, ?_⟩
  · exact .tail (.tail (.tail (.single (.openFile "main.asm")) (.openFile "lib.asm"))
      (.create hcreate)) (.bind hlibrary)
  · have hheld : NamedScopes.lookup [bound] ["m"] "m_x" = some 1 := by decide +kernel
    show (NamedScopes.lookup [bound] ["m"] "m_x").or _ = some 1
    rw [hheld, Option.some_or]

end Retarget
