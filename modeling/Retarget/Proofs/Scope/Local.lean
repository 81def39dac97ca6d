import Retarget.Proofs.Scope.Calls

/-!
# Local labels

Blocks are the innermost scopes, so a local label is looked up in one scope and nowhere else. Named
scopes never take one, as no lead starts with a dot.

* `ScopeTree.lookup_local`: where a local label is looked up;
* `ScopeTree.Extends`: scopes keep their tiers;
* `ScopeTree.Adds`: which local labels are new, and that each of them is defined once;
* `Session.adds_of_bindLabel`: what a binding adds.
-/

namespace Retarget

/-- The name of a local label. -/
abbrev LocalName := { name : String // Tier.ofLabel name = .block }

theorem LocalName.toList_eq (name : LocalName) : ∃ rest, name.val.toList = '.' :: rest := by
  obtain ⟨name, hname⟩ := name
  unfold Tier.ofLabel at hname
  split at hname
  · exact ⟨_, ‹_›⟩
  · cases hname
  · cases hname

namespace ScopeTree

variable {t t' t'' : ScopeTree} {id scope : ScopeId} {name : LocalName}

/-! ## Looking up a local label -/

theorem tierOf_of_getElem? {s : Scope} (hs : t.scopes[id]? = some s) : t.tierOf id = s.tier := by
  rw [tierOf, hs]
  rfl

/-- The scope of the whole program is the only one that need not have been opened. -/
theorem lt_of_tierOf_ne (h : t.tierOf id ≠ .everywhere) : id < t.scopes.length := by
  apply Nat.lt_of_not_le
  intro hle
  rw [tierOf, List.getElem?_eq_none hle] at h
  exact h rfl

/-- From a scope outwards there is a block only if the scope is one. -/
theorem enclosing_block (t : ScopeTree) (id : ScopeId) :
    t.enclosing id .block = if t.tierOf id = .block then some id else none := by
  rw [enclosing]
  cases hs : t.scopes[id]? with
  | none => simp [tierOf, hs]
  | some s => cases htier : s.tier <;> simp [tierOf, hs, htier, Tier.depth]

theorem lookup_local {v : Int} : t.lookup id name = some v ↔ ∃ s, t.scopes[id]? = some s ∧
    s.tier = .block ∧ (s.bindings.find? name).map Binding.value = some v := by
  rw [lookup, name.property, enclosing_block]
  cases hs : t.scopes[id]? with
  | none => simp [tierOf, hs]
  | some s =>
    rw [tierOf_of_getElem? hs]
    by_cases htier : s.tier = .block
    · cases hfind : s.bindings.find? name.val <;> simp [hs, htier, hfind]
    · simp [htier]

theorem tierOf_of_lookup {v : Int} (h : t.lookup id name = some v) : t.tierOf id = .block := by
  obtain ⟨s, hs, htier, -⟩ := lookup_local.mp h
  rw [tierOf_of_getElem? hs, htier]

/-! ## Scopes that stay -/

/-- All scopes are still there, and of the same tier. -/
structure Extends (t t' : ScopeTree) : Prop where
  length_le : t.scopes.length ≤ t'.scopes.length
  tierOf_eq : ∀ id < t.scopes.length, t'.tierOf id = t.tierOf id

namespace Extends

theorem refl (t : ScopeTree) : t.Extends t := ⟨Nat.le_refl _, fun _ _ => rfl⟩

theorem trans (h : t.Extends t') (h' : t'.Extends t'') : t.Extends t'' where
  length_le := Nat.le_trans h.length_le h'.length_le
  tierOf_eq id hid :=
  (h'.tierOf_eq id (Nat.lt_of_lt_of_le hid h.length_le)).trans (h.tierOf_eq id hid)

/-- Only the whole program is not kept in this way, and it is there from the start. -/
theorem keeps {tier : Tier} (h : t.Extends t') (htier : t.tierOf id = tier)
    (hne : tier ≠ .everywhere) : t'.tierOf id = tier := by
  rw [h.tierOf_eq id (lt_of_tierOf_ne (by rwa [htier])), htier]

theorem append (t : ScopeTree) (s : Scope) : t.Extends { scopes := t.scopes ++ [s] } where
  length_le := by simp
  tierOf_eq id hid := by rw [tierOf, tierOf, List.getElem?_append_left hid]

theorem of_bind {label : String} {value : Int} {line : SourceLine}
    (h : t.bind scope label value line = .ok t') : t.Extends t' := by
  obtain ⟨target, s, bindings, -, hs, -, rfl⟩ := bind_eq_ok h
  refine ⟨by simp, fun id _ => ?_⟩
  have hshape := sameShape_set hs bindings id
  have htier := congrArg (Option.map Prod.fst) hshape
  rw [Option.map_map, Option.map_map] at htier
  exact congrArg (fun o : Option Tier => o.getD .everywhere) htier.symm

end Extends

/-! ## Local labels that are added -/

/-- A new scope has no labels. -/
theorem lookup_append (t : ScopeTree) {s : Scope} (hs : s.bindings = []) (id : ScopeId)
    (name : LocalName) :
    ({ scopes := t.scopes ++ [s] } : ScopeTree).lookup id name = t.lookup id name := by
  apply Option.ext
  intro v
  rw [lookup_local, lookup_local]
  constructor
  · rintro ⟨s', hs', htier, hfind⟩
    rcases getElem?_concat_eq_some.mp hs' with hold | ⟨-, rfl⟩
    · exact ⟨s', hold, htier, hfind⟩
    · rw [hs] at hfind
      cases hfind
  · rintro ⟨s', hs', hrest⟩
    exact ⟨s', getElem?_concat_eq_some.mpr (.inl hs'), hrest⟩

/-- A label is added to the scope from which it is bound. -/
theorem lookup_bind_local {label : String} {value v : Int} {line : SourceLine}
    (h : t.bind scope label value line = .ok t') :
    t'.lookup id name = some v ↔ t.lookup id name = some v ∨ scope = id ∧ label = name ∧
      value = v := by
  constructor
  · intro hv
    obtain ⟨s', hs', htier, hfind⟩ := lookup_local.mp hv
    obtain ⟨s, hs, hsame, hadded⟩ := find?_of_bind h hs' name
    rw [hadded, Option.or_eq_some_iff] at hfind
    rcases hfind with hold | ⟨-, hgives⟩
    · exact .inl (lookup_local.mpr ⟨s, hs, hsame.trans htier, hold⟩)
    · right
      obtain ⟨⟨hlabel, htarget⟩, hvalue⟩ := Option.ite_none_right_eq_some.mp hgives
      rw [name.property, enclosing_block, Option.ite_none_right_eq_some] at htarget
      exact ⟨Option.some.inj htarget.2, hlabel, Option.some.inj hvalue⟩
  · rintro (hold | ⟨rfl, hlabel, rfl⟩)
    · obtain ⟨s, hs, htier, hfind⟩ := lookup_local.mp hold
      have hlt := Nat.lt_of_lt_of_le (List.getElem?_eq_some_iff.mp hs).1
        (Extends.of_bind h).length_le
      have hs' := List.getElem?_eq_getElem hlt
      obtain ⟨before, hbefore, hsame, hadded⟩ := find?_of_bind h hs' name
      cases hs.symm.trans hbefore
      refine lookup_local.mpr ⟨_, hs', hsame.symm.trans htier, ?_⟩
      rw [hadded, hfind, Option.some_or]
    · rw [← hlabel]
      exact lookup_of_bind h

theorem lookup_eq_none_of_bind {label : String} {value : Int} {line : SourceLine}
    (h : t.bind scope label value line = .ok t') : t.lookup scope label = none := by
  rw [← Option.not_isSome_iff_eq_none]
  intro hsome
  obtain ⟨e, he⟩ := bind_eq_error_iff.mpr (.inr hsome)
  rw [h] at he
  cases he

/-- What members of a list add to the local labels of a tree, if `D x id name v` says that `x` gives
the value `v` to the label `name` of the block `id`. No label is defined twice. -/
structure Adds {α : Type} (D : α → ScopeId → LocalName → Int → Prop) (t t' : ScopeTree)
    (xs : List α) : Prop where
  lookup_iff : ∀ id (name : LocalName) v,
    t'.lookup id name = some v ↔ t.lookup id name = some v ∨ ∃ x ∈ xs, D x id name v
  fresh : ∀ x ∈ xs, ∀ id (name : LocalName) v, D x id name v → t.lookup id name = none
  once : xs.Pairwise fun x y => ∀ id name v w, D x id name v → ¬ D y id name w

namespace Adds

variable {α : Type} {D : α → ScopeId → LocalName → Int → Prop} {xs ys : List α} {x : α}

/-- What leaves the local labels alone. -/
theorem of_same (h : ∀ id (name : LocalName), t'.lookup id name = t.lookup id name)
    (hxs : ∀ x ∈ xs, ∀ id name v, ¬ D x id name v) : Adds D t t' xs where
  lookup_iff id name v := by
    rw [h id name]
    exact ⟨.inl, fun hv => hv.resolve_right fun ⟨x, hx, hD⟩ => hxs x hx id name v hD⟩
  fresh x hx id name v hD := absurd hD (hxs x hx id name v)
  once := List.pairwise_of_forall_mem_list fun x hx _ _ id name v _ hD =>
    absurd hD (hxs x hx id name v)

theorem of_bind {label : String} {value : Int} {line : SourceLine}
    (h : t.bind scope label value line = .ok t')
    (hx : ∀ id name v, D x id name v ↔ scope = id ∧ label = name.val ∧ value = v) :
    Adds D t t' [x] where
  lookup_iff id name v := by
    rw [lookup_bind_local h]
    simp [hx]
  fresh y hy id name v hD := by
    cases List.mem_singleton.mp hy
    obtain ⟨rfl, hlabel, -⟩ := (hx id name v).mp hD
    rw [← hlabel]
    exact lookup_eq_none_of_bind h
  once := List.pairwise_singleton _ _

theorem append (h : Adds D t t' xs) (h' : Adds D t' t'' ys) : Adds D t t'' (xs ++ ys) where
  lookup_iff id name v := by
    rw [h'.lookup_iff, h.lookup_iff, or_assoc]
    simp only [List.mem_append, or_and_right, exists_or]
  fresh x hx id name v hD := by
    rcases List.mem_append.mp hx with hx | hx
    · exact h.fresh x hx id name v hD
    · -- What is not there later is not there before.
      have hnone := h'.fresh x hx id name v hD
      rw [Option.eq_none_iff_forall_ne_some] at hnone ⊢
      exact fun w hw => hnone w ((h.lookup_iff id name w).mpr (.inl hw))
  once := by
    refine List.pairwise_append.mpr ⟨h.once, h'.once, fun x hx y hy id name v w hD hD' => ?_⟩
    have hsome := (h.lookup_iff id name v).mpr (.inr ⟨x, hx, hD⟩)
    rw [h'.fresh y hy id name w hD'] at hsome
    cases hsome

end Adds

end ScopeTree

/-! ## Named scopes -/

namespace NamedScopes

variable {all all' : NamedScopes} {active : ActiveScopes} {name : LocalName}

/-- No scope claims a local label. -/
def NoLocals (all : NamedScopes) : Prop := ∀ s ∈ all, ∀ name : LocalName, s.claims name = false

theorem NoLocals.claiming (h : NoLocals all) : all.claiming active name = [] := by
  rw [NamedScopes.claiming, List.filter_eq_nil_iff]
  intro s hs
  obtain ⟨n, -, hfind⟩ := List.mem_filterMap.mp hs
  rw [h s (List.mem_of_find?_eq_some hfind) name]
  exact Bool.false_ne_true

/-- When a scope is made: its name and its lead are words that no other scope has, and the lead does
not start with a dot. -/
theorem create_eq_ok {n lead : String} {line : SourceLine} : all.create n lead line = .ok all' ↔
    emptyOrBlank n = false ∧ emptyOrBlank lead = false ∧ lead.toList.head? ≠ some '.' ∧
      (∀ s ∈ all, s.name ≠ n ∧ s.lead ≠ lead) ∧
        all' = all ++ [{ name := n, lead, definedAt := line }] := by
  unfold create
  cases hname : emptyOrBlank n with
  | true => simp
  | false =>
  cases hlead : emptyOrBlank lead with
  | true => simp
  | false =>
  by_cases hdot : lead.toList.head? = some '.'
  · simp [hdot]
  cases hn : find? all n with
  | some s =>
    have hmem := List.mem_of_find?_eq_some hn
    have heq : s.name = n := by simpa using List.find?_some hn
    have htaken : ¬ ∀ s ∈ all, s.name ≠ n ∧ s.lead ≠ lead := fun h => (h s hmem).1 heq
    simp [hdot, htaken]
  | none =>
  have hnames : ∀ s ∈ all, s.name ≠ n := by simpa [find?] using hn
  cases hl : List.find? (fun s => s.lead == lead) all with
  | some s =>
    have hmem := List.mem_of_find?_eq_some hl
    have heq : s.lead = lead := by simpa using List.find?_some hl
    have htaken : ¬ ∀ s ∈ all, s.name ≠ n ∧ s.lead ≠ lead := fun h => (h s hmem).2 heq
    simp [hdot, htaken]
  | none =>
  have hleads : ∀ s ∈ all, s.lead ≠ lead := by simpa using hl
  have hfree : ∀ s ∈ all, s.name ≠ n ∧ s.lead ≠ lead := fun s hs => ⟨hnames s hs, hleads s hs⟩
  rw [@eq_comm _ all']
  simpa [hdot] using fun _ => hfree

/-- A word has a first character. -/
theorem exists_cons_of_emptyOrBlank {text : String} (h : emptyOrBlank text = false) :
    ∃ c rest, text.toList = c :: rest := by
  cases hchars : text.toList with
  | nil => simp [emptyOrBlank, String.toList_eq_nil_iff.mp hchars] at h
  | cons c rest => exact ⟨c, rest, rfl⟩

theorem NoLocals.create (h : NoLocals all) {n lead : String} {line : SourceLine}
    (hcreate : all.create n lead line = .ok all') : NoLocals all' := by
  obtain ⟨-, hword, hdot, -, rfl⟩ := create_eq_ok.mp hcreate
  obtain ⟨c, rest, hlead⟩ := exists_cons_of_emptyOrBlank hword
  replace hdot : c ≠ '.' := by simpa [hlead] using hdot
  intro s hs name
  rcases List.mem_append.mp hs with hs | hs
  · exact h s hs name
  · cases List.mem_singleton.mp hs
    obtain ⟨more, hname⟩ := name.toList_eq
    rw [NamedScope.claims, hlead, hname, List.isPrefixOf_cons_cons, beq_false_of_ne hdot,
      Bool.false_and]

theorem NoLocals.map_rebound (h : NoLocals all) (n : String) (bindings : Bindings) :
    NoLocals (all.map (NamedScope.rebound n bindings)) := by
  intro s' hs' name
  obtain ⟨s, hs, rfl⟩ := List.mem_map.mp hs'
  rw [NamedScope.claims_rebound]
  exact h s hs name

end NamedScopes

namespace Session

variable {s s' : Session}

/-- A local label is seen in the scope of the statement, whatever named scopes are active. -/
theorem labels_local (h : s.named.NoLocals) (scope : ScopeId) (active : ActiveScopes)
    (name : LocalName) : s.env.labels scope active name = s.scopes.lookup scope name := by
  rw [env, Environment.labels, NamedScopes.lookup, h.claiming]
  rfl

/-- A binding adds at most its own label to the local ones. -/
theorem adds_of_bindLabel {α : Type} {D : α → ScopeId → LocalName → Int → Prop} {x : α}
    {scope : ScopeId} {active : ActiveScopes} {label : String} {value : Int} {line : SourceLine}
    (h : s.named.NoLocals) (hbind : s.bindLabel scope active label value line = .ok s')
    (hx : ∀ id name v, D x id name v ↔ scope = id ∧ label = name.val ∧ value = v) :
    s'.named.NoLocals ∧ s.scopes.Extends s'.scopes ∧ ScopeTree.Adds D s.scopes s'.scopes [x] := by
  rcases bindLabel_eq_ok hbind with ⟨named, htaken, rfl⟩ | ⟨scopes, -, hscopes, rfl⟩
  · rcases NamedScopes.bind?_eq_ok htaken with ⟨-, hnone⟩ |
      ⟨s', rest, bindings, -, hclaiming, -, hnamed⟩
    · cases hnone
    · cases hnamed
      refine ⟨h.map_rebound _ _, .refl _, .of_same (fun _ _ => rfl) ?_⟩
      intro y hy id name v hD
      -- A label that a named scope has taken is not local.
      cases List.mem_singleton.mp hy
      obtain ⟨-, rfl, -⟩ := (hx id name v).mp hD
      rw [h.claiming] at hclaiming
      cases hclaiming
  · exact ⟨h, .of_bind hscopes, .of_bind hscopes hx⟩

end Session

end Retarget
