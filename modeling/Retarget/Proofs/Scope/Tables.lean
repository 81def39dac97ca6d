import Retarget.Proofs.Scope.Named

/-!
# Tables of labels

Labels are kept in tables, one for each named scope and one for each scope of the tree. Which table
a label goes to and in which ones it is looked up depends on the scopes alone; binding a label adds
one entry to one table.

* `Session.entry`: what a table holds;
* `Session.tableFor?`, `Session.tablesSeen`: where a label goes, and where it is looked up;
* `Session.Adds`: one more entry, and nothing else;
* `Session.bindLabel_adds`, `Session.exists_bindLabel`: when a label is bound, and what that does.
-/

namespace Retarget

theorem NamedScope.definedAt_rebound {name : String} {bindings : Bindings} {s : NamedScope} :
    (s.rebound name bindings).definedAt = s.definedAt := by
  unfold rebound
  split <;> rfl

theorem Bindings.find?_concat {bs : Bindings} {b : Binding} (hnone : bs.find? b.label = none)
    (label : String) :
    Bindings.find? (bs ++ [b]) label = if label = b.label then some b else bs.find? label := by
  unfold Bindings.find? at *
  rw [List.find?_append, List.find?_singleton]
  by_cases hlabel : label = b.label
  · subst hlabel
    simp [hnone]
  · have hne : ¬ b.label = label := fun h => hlabel h.symm
    simp [hlabel, hne]

/-- No named scope takes a label that has no keeper. -/
theorem NamedScopes.bind?_of_keeper?_eq_none {all : NamedScopes} {active : ActiveScopes}
    {label : String} {value : Int} {line : SourceLine} (h : all.keeper? active label line = none) :
    all.bind? active label value line = .ok none := by
  unfold NamedScopes.bind?
  cases hhead : (all.claiming active label).head? with
  | none => rfl
  | some claimant =>
    have hfile : ¬ claimant.definedAt.file = line.file := by
      intro hfile
      rw [NamedScopes.keeper?_eq_some.mpr ⟨hhead, hfile⟩] at h
      cases h
    simp only [hfile, if_false]

/-- A table of labels: that of a named scope, or that of a scope of the tree. -/
inductive Table
  | named (name : String)
  | scope (id : ScopeId)
  deriving DecidableEq, Repr

namespace Session

variable {s s' : Session} {scope : ScopeId} {active : ActiveScopes} {label : String} {value : Int}
  {line : SourceLine}
  {table : Table}

/-- The binding of a label in a table. -/
def entry (s : Session) : Table → String → Option Binding
  | .named name, label => (s.named.find? name).bind fun scope => scope.bindings.find? label
  | .scope id, label => s.scopes.scopes[id]?.bind fun scope => scope.bindings.find? label

/-- The table that a label of a line goes to. -/
def tableFor? (s : Session) (scope : ScopeId) (active : ActiveScopes) (label : String)
    (line : SourceLine) : Option Table :=
  match s.named.keeper? active label line with
  | some keeper => some (.named keeper.name)
  | none => (s.scopes.enclosing scope (Tier.ofLabel label)).map .scope

/-- The tables in which a label is looked up, one after the other. -/
def tablesSeen (s : Session) (scope : ScopeId) (active : ActiveScopes) (label : String) :
    List Table :=
  (s.named.claiming active label).map (fun claimant => .named claimant.name) ++
    ((s.scopes.enclosing scope (Tier.ofLabel label)).map .scope).toList

/-- The table of a scope that claims a label is its own. -/
theorem entry_of_mem_claiming {claimant : NamedScope}
    (h : claimant ∈ s.named.claiming active label) :
    s.entry (.named claimant.name) label = claimant.bindings.find? label := by
  obtain ⟨⟨n, -, hfind⟩, -⟩ := NamedScopes.mem_claiming.mp h
  obtain ⟨-, rfl⟩ := NamedScopes.mem_of_find? hfind
  rw [entry, hfind, Option.bind_some]

/-- A label has the value of the first table that holds it. -/
theorem labels_eq_findSome? (s : Session) (scope : ScopeId) (active : ActiveScopes)
    (label : String) :
    s.env.labels scope active label =
      (s.tablesSeen scope active label).findSome? fun table =>
        (s.entry table label).map Binding.value := by
  have hnamed : s.named.lookup active label = ((s.named.claiming active label).map fun claimant =>
      Table.named claimant.name).findSome? fun table =>
        (s.entry table label).map Binding.value := by
    rw [NamedScopes.lookup, ← Function.id_comp (fun claimant : NamedScope => _),
      ← List.findSome?_map, ← Function.id_comp (fun table : Table => _), ← List.findSome?_map,
      List.map_map]
    congr 1
    refine List.map_congr_left fun claimant hclaimant => ?_
    rw [Function.comp_apply, entry_of_mem_claiming hclaimant]
  have hscopes : s.scopes.lookup scope label = ((s.scopes.enclosing scope (Tier.ofLabel label)).map
      Table.scope).toList.findSome? fun table => (s.entry table label).map Binding.value := by
    rw [ScopeTree.lookup]
    cases s.scopes.enclosing scope (Tier.ofLabel label) with
    | none => rfl
    | some target =>
      simp only [entry, Option.map_some, Option.toList_some, List.findSome?_singleton]
      show (s.scopes.scopes[target]?.bind fun found => (found.bindings.find? label).bind fun b =>
          some b.value) = _
      cases s.scopes.scopes[target]? with
      | none => rfl
      | some found => exact Option.map_eq_bind.symm
  rw [tablesSeen, List.findSome?_append, ← hnamed, ← hscopes]
  rfl

/-- The same scopes with other bindings. -/
structure SameTables (s s' : Session) : Prop where
  tableFor_eq : ∀ scope active label line, s'.tableFor? scope active label line =
    s.tableFor? scope active label line
  seen_eq : ∀ scope active label, s'.tablesSeen scope active label = s.tablesSeen scope active label

/-- A table gets one more entry. -/
structure Adds (s s' : Session) (table : Table) (b : Binding) : Prop where
  same : s.SameTables s'
  free : s.entry table b.label = none
  entry_eq : ∀ other label, s'.entry other label =
    if other = table ∧ label = b.label then some b else s.entry other label

theorem sameTables_of_named {named : NamedScopes} {name : String} {bindings : Bindings}
    (h : named = s.named.map (NamedScope.rebound name bindings)) :
    s.SameTables { s with named } := by
  subst h
  refine ⟨fun scope active label line => ?_, fun scope active label => ?_⟩
  · have hkeeper :
        NamedScopes.keeper? (s.named.map (NamedScope.rebound name bindings)) active label line =
        (s.named.keeper? active label line).map (NamedScope.rebound name bindings) := by
      rw [NamedScopes.keeper?, NamedScopes.claiming_map_rebound, List.head?_map, Option.filter_map,
        NamedScopes.keeper?]
      simp only [Function.comp_def, NamedScope.definedAt_rebound]
    simp only [tableFor?, hkeeper]
    cases s.named.keeper? active label line with
    | none => rfl
    | some keeper => simp
  · rw [tablesSeen, tablesSeen, NamedScopes.claiming_map_rebound, List.map_map]
    simp [Function.comp_def]

theorem sameTables_of_scopes {scopes : ScopeTree} (h : s.scopes.SameShape scopes) :
    s.SameTables { s with scopes } := by
  refine ⟨fun scope active label line => ?_, fun scope active label => ?_⟩
  · simp only [tableFor?, h.enclosing_eq]
  · simp only [tablesSeen, h.enclosing_eq]

/-- A label that is bound goes to its table, where it was not before. -/
theorem bindLabel_adds (h : s.bindLabel scope active label value line = .ok s') :
    ∃ table, s.tableFor? scope active label line = some table ∧
      s.Adds s' table { label, value, line } := by
  rcases bindLabel_eq_ok h with ⟨named, hbind, rfl⟩ | ⟨scopes, hbind, hscopes, rfl⟩
  · rcases NamedScopes.bind?_eq_ok hbind with ⟨-, hnone⟩ |
      ⟨keeper, rest, bindings, hkeeper, -, hadd, hnamed⟩
    · cases hnone
    · cases hnamed
      obtain ⟨-, hfind, -⟩ := NamedScopes.of_keeper? hkeeper
      obtain ⟨hnone, rfl⟩ := Bindings.bind_eq_ok.mp hadd
      refine ⟨.named keeper.name, by rw [tableFor?, hkeeper], sameTables_of_named rfl, ?_, ?_⟩
      · rw [entry, hfind, Option.bind_some, hnone]
      · intro other label'
        cases other with
        | scope id => simp [entry]
        | named name =>
          simp only [entry, NamedScopes.find?_map_rebound, Table.named.injEq]
          by_cases hname : name = keeper.name
          · subst hname
            rw [hfind, Option.map_some, Option.bind_some, NamedScope.rebound_self, Option.bind_some]
            simpa using Bindings.find?_concat hnone label'
          · rw [if_neg fun h => hname h.1]
            cases hother : s.named.find? name with
            | none => rfl
            | some found =>
              obtain ⟨-, rfl⟩ := NamedScopes.mem_of_find? hother
              have hkept (bindings : Bindings) : found.rebound keeper.name bindings = found :=
                if_neg (by simpa using hname)
              rw [Option.map_some, hkept]
  · obtain ⟨hkeeper, -⟩ | ⟨keeper, rest, bindings, -, -, -, hnone⟩ := NamedScopes.bind?_eq_ok hbind
    · obtain ⟨target, found, bindings, htarget, hfound, hadd, rfl⟩ := ScopeTree.bind_eq_ok hscopes
      obtain ⟨hnone, rfl⟩ := Bindings.bind_eq_ok.mp hadd
      have hlt : target < s.scopes.scopes.length := (List.getElem?_eq_some_iff.mp hfound).1
      refine ⟨.scope target, by rw [tableFor?, hkeeper, htarget]; rfl,
        sameTables_of_scopes (ScopeTree.sameShape_set hfound _), ?_, ?_⟩
      · rw [entry, hfound, Option.bind_some, hnone]
      · intro other label'
        cases other with
        | named name => simp [entry]
        | scope id =>
          simp only [entry, Table.scope.injEq]
          by_cases hid : id = target
          · subst hid
            rw [List.getElem?_set_self hlt, hfound, Option.bind_some, Option.bind_some]
            simpa using Bindings.find?_concat hnone label'
          · rw [List.getElem?_set_ne (Ne.symm hid)]
            simp [hid]
    · cases hnone

/-- A label can be bound if its table does not hold it. -/
theorem exists_bindLabel (htable : s.tableFor? scope active label line = some table)
    (hfree : s.entry table label = none) (value : Int) :
    ∃ s', s.bindLabel scope active label value line = .ok s' := by
  have hbind {bs : Bindings} (hnone : bs.find? label = none) :
      bs.bind label value line = .ok (bs ++ [({ label, value, line } : Binding)]) :=
    Bindings.bind_eq_ok.mpr ⟨hnone, rfl⟩
  unfold tableFor? at htable
  cases hkeeper : s.named.keeper? active label line with
  | some keeper =>
    rw [hkeeper] at htable
    cases htable
    obtain ⟨-, hfind, -⟩ := NamedScopes.of_keeper? hkeeper
    obtain ⟨hhead, hfile⟩ := NamedScopes.keeper?_eq_some.mp hkeeper
    rw [entry, hfind, Option.bind_some] at hfree
    rw [bindLabel, NamedScopes.bind?, hhead]
    simp only [hfile, if_true, hbind hfree]
    exact ⟨_, rfl⟩
  | none =>
    rw [hkeeper] at htable
    obtain ⟨target, htarget, rfl⟩ := Option.map_eq_some_iff.mp htable
    obtain ⟨-, found, hfound, -⟩ := ScopeTree.enclosing_eq_some htarget
    rw [entry, hfound, Option.bind_some] at hfree
    rw [bindLabel, NamedScopes.bind?_of_keeper?_eq_none hkeeper, ok_bind, ScopeTree.bind]
    simp only [htarget, hfound, hbind hfree]
    exact ⟨_, rfl⟩

end Session

end Retarget
