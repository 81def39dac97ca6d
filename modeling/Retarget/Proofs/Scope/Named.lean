import Retarget.Proofs.Scope.Local

/-!
# Histories of named scopes

Named scopes are made, become active and inactive, and take labels, in any order and number. A name
may become active before there is a scope with it. What the tables hold and which scope is asked
first can be told from the calls so far.

* `Naming.Sound`: names and leads are unique, and tables hold only labels with the lead of their
  scope, from the file that made it;
* `Naming.Sound.apply`, `Naming.Recent.apply`: what a call keeps;
* `Naming.Sound.stored_apply`: a stored value stays;
* `Naming.ActiveSince`, `Naming.Recent`: the active scopes in the order in which they became active;
* `Naming.Sound.lookup_eq`: a label is looked up in the tables of the active scopes.
-/

namespace Retarget

/-! ## Claims and tables -/

namespace NamedScopes

variable {all : NamedScopes} {active : ActiveScopes} {label : String} {line : SourceLine}
  {scope : NamedScope}

theorem mem_claiming : scope ∈ all.claiming active label ↔
    (∃ n ∈ active, all.find? n = some scope) ∧ scope.lead.toList <+: label.toList := by
  simp [claiming, NamedScope.claims]

theorem mem_of_find? {n : String} (h : all.find? n = some scope) : scope ∈ all ∧ scope.name = n :=
  ⟨List.mem_of_find?_eq_some h, by simpa using List.find?_some h⟩

theorem keeper?_eq_some : all.keeper? active label line = some scope ↔
    (all.claiming active label).head? = some scope ∧ scope.definedAt.file = line.file := by
  simp [keeper?, Option.filter_eq_some_iff]

/-- A scope that takes a label is an active one that claims it, of the same file. -/
theorem of_keeper? (h : all.keeper? active label line = some scope) :
    scope ∈ all ∧ all.find? scope.name = some scope ∧ scope.lead.toList <+: label.toList ∧
      scope.definedAt.file = line.file := by
  obtain ⟨hhead, hfile⟩ := keeper?_eq_some.mp h
  obtain ⟨⟨n, -, hfind⟩, hlead⟩ := mem_claiming.mp (List.mem_of_mem_head? hhead)
  obtain ⟨hmem, rfl⟩ := mem_of_find? hfind
  exact ⟨hmem, hfind, hlead, hfile⟩

/-- The table of a scope gets new bindings, and nothing else changes. -/
theorem mem_map_rebound (hnames : (all.map NamedScope.name).Nodup) (hscope : scope ∈ all)
    {bindings : Bindings} {other : NamedScope}
    (h : other ∈ all.map (NamedScope.rebound scope.name bindings)) :
    other ∈ all ∨ other = { scope with bindings } := by
  obtain ⟨before, hbefore, rfl⟩ := List.mem_map.mp h
  by_cases hname : before.name = scope.name
  · right
    rw [List.inj_on_of_nodup_map hnames hbefore hscope hname, NamedScope.rebound_self]
  · left
    rwa [NamedScope.rebound, if_neg (by simpa using hname)]

end NamedScopes

/-! ## Calls -/

/-- Named scopes, and the names of the active ones. -/
structure Naming where
  scopes : NamedScopes := []
  active : ActiveScopes := []
  deriving DecidableEq, Repr

namespace Naming

variable {s : Naming} {name label : String} {v : Int}

/-- A call on named scopes and active ones. -/
inductive Call
  | create (name lead : String) (line : SourceLine)
  | activate (name : String)
  | deactivate (name : String)
  | clear
  | bind (label : String) (value : Int) (line : SourceLine)
  deriving DecidableEq, Repr

/-- The scopes after a call. One that fails, and a label that no scope takes, leave them as they
are. -/
def apply (s : Naming) : Call → Naming
  | .create name lead line =>
    match s.scopes.create name lead line with
    | .ok scopes => { s with scopes }
    | .error _ => s
  | .activate name => { s with active := s.active.activate name }
  | .deactivate name => { s with active := s.active.deactivate name }
  | .clear => { s with active := [] }
  | .bind label value line =>
    match s.scopes.bind? s.active label value line with
    | .ok (some scopes) => { s with scopes }
    | .ok none => s
    | .error _ => s

/-- The scopes after some calls. -/
def run (calls : List Call) : Naming := calls.foldl apply {}

theorem run_concat (calls : List Call) (c : Call) : run (calls ++ [c]) = (run calls).apply c := by
  simp [run]

/-- The value of a label in the table of the scope with a name. -/
def stored (s : Naming) (name label : String) : Option Int :=
  (s.scopes.find? name).bind fun scope => (scope.bindings.find? label).map Binding.value

/-- The call fails. -/
def Fails (s : Naming) : Call → Prop
  | .create name lead line => ∃ e, s.scopes.create name lead line = .error e
  | .bind label value line => ∃ e, s.scopes.bind? s.active label value line = .error e
  | _ => False

/-- What a call needs: a scope has a name and a lead of its own, which are words, and no dot leads;
a label is not stored yet in the scope that would take it. -/
def Call.Allowed (s : Naming) : Call → Prop
  | create name lead _ =>
    NamedScopes.emptyOrBlank name = false ∧ NamedScopes.emptyOrBlank lead = false ∧
      lead.toList.head? ≠ some '.' ∧ ∀ scope ∈ s.scopes, scope.name ≠ name ∧ scope.lead ≠ lead
  | bind label _ line => ∀ scope, s.scopes.keeper? s.active label line = some scope →
      s.stored scope.name label = none
  | _ => True

theorem stored_of_find? {scope : NamedScope} (h : s.scopes.find? name = some scope) :
    s.stored name label = (scope.bindings.find? label).map Binding.value := by
  rw [stored, h, Option.bind_some]

/-- What a label needs in order to be bound. -/
theorem bind?_eq_error_iff {value : Int} {line : SourceLine} :
    (∃ e, s.scopes.bind? s.active label value line = .error e) ↔
      ∃ scope, s.scopes.keeper? s.active label line = some scope ∧
        (s.stored scope.name label).isSome := by
  unfold NamedScopes.bind?
  cases hhead : (s.scopes.claiming s.active label).head? with
  | none => simp [NamedScopes.keeper?_eq_some, hhead]
  | some scope =>
    by_cases hfile : scope.definedAt.file = line.file
    · have hkeeper : s.scopes.keeper? s.active label line = some scope :=
        NamedScopes.keeper?_eq_some.mpr ⟨hhead, hfile⟩
      obtain ⟨-, hfind, -⟩ := NamedScopes.of_keeper? hkeeper
      simp only [hkeeper, hfile, if_true, Option.some.injEq, exists_eq_left', stored_of_find? hfind]
      cases hb : scope.bindings.find? label <;> simp [Bindings.bind, hb, pure, Except.pure]
    · simp [NamedScopes.keeper?_eq_some, hhead, hfile]

theorem create_of_allowed {lead : String} {line : SourceLine}
    (h : (Call.create name lead line).Allowed s) :
    s.scopes.create name lead line = .ok (s.scopes ++ [{ name, lead, definedAt := line }]) := by
  obtain ⟨hname, hlead, hdot, hfree⟩ := h
  exact NamedScopes.create_eq_ok.mpr ⟨hname, hlead, hdot, hfree, rfl⟩

theorem fails_iff (c : Call) : s.Fails c ↔ ¬ c.Allowed s := by
  cases c with
  | create name lead line =>
    have hiff : (∃ scopes, s.scopes.create name lead line = .ok scopes) ↔
        (Call.create name lead line).Allowed s := by
      simp [NamedScopes.create_eq_ok, Call.Allowed]
    rw [← hiff, Fails]
    cases s.scopes.create name lead line <;> simp
  | bind label value line =>
    simp [Fails, Call.Allowed, bind?_eq_error_iff, Option.isSome_iff_ne_none]
  | activate name | deactivate name | clear => simp [Fails, Call.Allowed]

theorem apply_of_fails {c : Call} (h : s.Fails c) : s.apply c = s := by
  cases c with
  | create name lead line =>
    obtain ⟨e, he⟩ := h
    rw [apply, he]
  | bind label value line =>
    obtain ⟨e, he⟩ := h
    rw [apply, he]
  | activate name | deactivate name | clear => exact h.elim

/-- A call makes a scope, or it adds a label to the table of a scope, or it leaves the tables
alone. -/
theorem scopes_apply (s : Naming) (c : Call) :
    (∃ name lead line, c = .create name lead line ∧
      s.scopes.create name lead line = .ok (s.apply c).scopes) ∨
    (∃ label value line scope, c = .bind label value line ∧
      s.scopes.keeper? s.active label line = some scope ∧ scope.bindings.find? label = none ∧
      (s.apply c).scopes = s.scopes.map (NamedScope.rebound scope.name
        (scope.bindings ++ [({ label, value, line } : Binding)]))) ∨
    (s.apply c).scopes = s.scopes := by
  cases c with
  | create name lead line =>
    cases hcreate : s.scopes.create name lead line with
    | ok scopes => exact .inl ⟨name, lead, line, rfl, by rw [hcreate, apply, hcreate]⟩
    | error e => exact .inr (.inr (by rw [apply, hcreate]))
  | bind label value line =>
    cases hbind : s.scopes.bind? s.active label value line with
    | error e => exact .inr (.inr (by rw [apply, hbind]))
    | ok result =>
      rcases NamedScopes.bind?_eq_ok hbind with ⟨-, rfl⟩ |
        ⟨scope, rest, bindings, hkeeper, -, hadd, rfl⟩
      · exact .inr (.inr (by rw [apply, hbind]))
      · obtain ⟨hnone, rfl⟩ := Bindings.bind_eq_ok.mp hadd
        exact .inr (.inl ⟨label, value, line, scope, rfl, hkeeper, hnone, by rw [apply, hbind]⟩)
  | activate name | deactivate name | clear => exact .inr (.inr rfl)

/-! ## Tables -/

/-- What the calls so far have made of the scopes: names and leads are unique, every scope was made
by a call, and its table holds labels with its lead, each once, that were bound by lines of its
file. -/
structure Sound (s : Naming) (calls : List Call) : Prop where
  names_nodup : (s.scopes.map NamedScope.name).Nodup
  leads_nodup : (s.scopes.map NamedScope.lead).Nodup
  created : ∀ scope ∈ s.scopes, .create scope.name scope.lead scope.definedAt ∈ calls ∧
    scope.lead ≠ "" ∧ scope.lead.toList.head? ≠ some '.'
  labels_nodup : ∀ scope ∈ s.scopes, (scope.bindings.map Binding.label).Nodup
  bound : ∀ scope ∈ s.scopes, ∀ b ∈ scope.bindings, .bind b.label b.value b.line ∈ calls ∧
    scope.lead.toList <+: b.label.toList ∧ b.line.file = scope.definedAt.file

namespace Sound

variable {calls : List Call} {c : Call}

theorem nil : Sound {} [] :=
  ⟨List.nodup_nil, List.nodup_nil, List.forall_mem_nil _, List.forall_mem_nil _,
    List.forall_mem_nil _⟩

/-- More calls may stand behind the tables. -/
theorem mono (h : s.Sound calls) (more : List Call) : s.Sound (calls ++ more) where
  names_nodup := h.names_nodup
  leads_nodup := h.leads_nodup
  created scope hscope := by
    obtain ⟨hmem, hlead⟩ := h.created scope hscope
    exact ⟨List.mem_append_left _ hmem, hlead⟩
  labels_nodup := h.labels_nodup
  bound scope hscope b hb := by
    obtain ⟨hmem, hrest⟩ := h.bound scope hscope b hb
    exact ⟨List.mem_append_left _ hmem, hrest⟩

/-- Only the scopes matter. -/
theorem of_scopes_eq {s' : Naming} (h : s.Sound calls) (hscopes : s'.scopes = s.scopes) :
    s'.Sound calls := by
  obtain ⟨scopes, active⟩ := s'
  cases hscopes
  exact ⟨h.names_nodup, h.leads_nodup, h.created, h.labels_nodup, h.bound⟩

/-- A new scope has a name and a lead of its own, and an empty table. -/
theorem of_create {lead : String} {line : SourceLine} {s' : Naming} (h : s.Sound calls)
    (hcreate : s.scopes.create name lead line = .ok s'.scopes) :
    s'.Sound (calls ++ [.create name lead line]) := by
  obtain ⟨-, hword, hdot, hfree, hscopes⟩ := NamedScopes.create_eq_ok.mp hcreate
  have hmem {scope : NamedScope} (hscope : scope ∈ s'.scopes) :
      scope ∈ s.scopes ∨ scope = { name, lead, definedAt := line } := by
    simpa [hscopes] using hscope
  have hmono := h.mono [.create name lead line]
  refine ⟨?_, ?_, fun scope hscope => ?_, fun scope hscope => ?_, fun scope hscope => ?_⟩
  · rw [hscopes, List.map_append, List.map_singleton, ← List.concat_eq_append]
    exact h.names_nodup.concat (by simpa using fun scope hscope => (hfree scope hscope).1)
  · rw [hscopes, List.map_append, List.map_singleton, ← List.concat_eq_append]
    exact h.leads_nodup.concat (by simpa using fun scope hscope => (hfree scope hscope).2)
  · rcases hmem hscope with hold | rfl
    · exact hmono.created scope hold
    · refine ⟨by simp, ?_, hdot⟩
      rintro rfl
      cases hword
  · rcases hmem hscope with hold | rfl
    · exact h.labels_nodup scope hold
    · exact List.nodup_nil
  · rcases hmem hscope with hold | rfl
    · exact hmono.bound scope hold
    · exact List.forall_mem_nil _

/-- A label goes into the table of a scope of its file whose lead it has. -/
theorem of_bind {value : Int} {line : SourceLine} {scope : NamedScope} {s' : Naming}
    (h : s.Sound calls) (hkeeper : s.scopes.keeper? s.active label line = some scope)
    (hnone : scope.bindings.find? label = none)
    (hscopes : s'.scopes = s.scopes.map (NamedScope.rebound scope.name
      (scope.bindings ++ [({ label, value, line } : Binding)]))) :
    s'.Sound (calls ++ [.bind label value line]) := by
  obtain ⟨hscope, -, hlead, hfile⟩ := NamedScopes.of_keeper? hkeeper
  have hmem {other : NamedScope} (hother : other ∈ s'.scopes) : other ∈ s.scopes ∨
      other = { scope with
        bindings := scope.bindings ++ [({ label, value, line } : Binding)] } := by
    rw [hscopes] at hother
    exact NamedScopes.mem_map_rebound h.names_nodup hscope hother
  have hmono := h.mono [.bind label value line]
  have hkept {α : Type} {f : NamedScope → α} (hf : ∀ bindings other,
      f (NamedScope.rebound scope.name bindings other) = f other) :
      s'.scopes.map f = s.scopes.map f := by
    rw [hscopes, List.map_map]
    exact List.map_congr_left fun other _ => hf _ other
  refine ⟨?_, ?_, fun other hother => ?_, fun other hother => ?_, fun other hother => ?_⟩
  · rw [hkept fun _ _ => NamedScope.name_rebound]
    exact h.names_nodup
  · rw [hkept fun _ _ => NamedScope.lead_rebound]
    exact h.leads_nodup
  · rcases hmem hother with hold | rfl
    · exact hmono.created other hold
    · exact hmono.created scope hscope
  · rcases hmem hother with hold | rfl
    · exact h.labels_nodup other hold
    · rw [List.map_append, List.map_singleton, ← List.concat_eq_append]
      exact (h.labels_nodup scope hscope).concat (by simpa [Bindings.find?] using hnone)
  · rcases hmem hother with hold | rfl
    · exact hmono.bound other hold
    · intro b hb
      rcases List.mem_append.mp hb with hold | hnew
      · exact hmono.bound scope hscope b hold
      · cases List.mem_singleton.mp hnew
        exact ⟨by simp, hlead, hfile.symm⟩

/-- **What a call keeps of the tables.** -/
theorem apply (h : s.Sound calls) (c : Call) : (s.apply c).Sound (calls ++ [c]) := by
  rcases s.scopes_apply c with ⟨name, lead, line, rfl, hcreate⟩ |
    ⟨label, value, line, scope, rfl, hkeeper, hnone, hscopes⟩ | hsame
  · exact h.of_create hcreate
  · exact h.of_bind hkeeper hnone hscopes
  · exact (h.mono [c]).of_scopes_eq hsame

theorem run (calls : List Call) : (run calls).Sound calls := by
  induction calls using List.reverseRecOn with
  | nil => exact nil
  | append_singleton calls c ih =>
    rw [run_concat]
    exact ih.apply c

/-- A stored value stays. -/
theorem stored_apply (h : s.Sound calls) (hv : s.stored name label = some v) (c : Call) :
    (s.apply c).stored name label = some v := by
  obtain ⟨scope, hfind, hvalue⟩ := Option.bind_eq_some_iff.mp hv
  rcases s.scopes_apply c with ⟨n, lead, line, rfl, hcreate⟩ |
    ⟨l, value, line, keeper, rfl, hkeeper, hnone, hscopes⟩ | hsame
  · obtain ⟨-, -, -, -, hscopes⟩ := NamedScopes.create_eq_ok.mp hcreate
    have hkept : (s.apply (.create n lead line)).scopes.find? name = some scope := by
      rw [hscopes, NamedScopes.find?, List.find?_append]
      simp only [NamedScopes.find?] at hfind
      rw [hfind, Option.some_or]
    rw [stored_of_find? hkept, hvalue]
  · have hkept : (s.apply (.bind l value line)).scopes.find? name =
        some (NamedScope.rebound keeper.name
        (keeper.bindings ++ [({ label := l, value, line } : Binding)]) scope) := by
      rw [hscopes, NamedScopes.find?_map_rebound, hfind, Option.map_some]
    rw [stored_of_find? hkept]
    by_cases hname : scope.name = keeper.name
    · -- The table of the scope has one more label, behind all others.
      obtain ⟨hkeeper, -⟩ := NamedScopes.of_keeper? hkeeper
      cases List.inj_on_of_nodup_map h.names_nodup (NamedScopes.mem_of_find? hfind).1 hkeeper hname
      obtain ⟨b, hb, rfl⟩ := Option.map_eq_some_iff.mp hvalue
      rw [NamedScope.rebound_self, Bindings.find?, List.find?_append]
      simp only [Bindings.find?] at hb
      rw [hb, Option.some_or, Option.map_some]
    · rw [NamedScope.rebound, if_neg (by simpa using hname), hvalue]
  · rw [stored, hsame]
    exact hv

theorem stored_run (hv : (Naming.run calls).stored name label = some v) (more : List Call) :
    (Naming.run (calls ++ more)).stored name label = some v := by
  induction more using List.reverseRecOn with
  | nil => rwa [List.append_nil]
  | append_singleton more c ih =>
    rw [← List.append_assoc, run_concat]
    exact (run (calls ++ more)).stored_apply ih c

/-- A label is in the table of the scope that takes it. -/
theorem stored_bind {value : Int} {line : SourceLine} {scope : NamedScope}
    (hkeeper : s.scopes.keeper? s.active label line = some scope)
    (hfree : s.stored scope.name label = none) :
    (s.apply (.bind label value line)).stored scope.name label = some value := by
  obtain ⟨-, hfind, -⟩ := NamedScopes.of_keeper? hkeeper
  cases hbind : s.scopes.bind? s.active label value line with
  | error e =>
    obtain ⟨scope', hkeeper', hsome⟩ := bind?_eq_error_iff.mp ⟨e, hbind⟩
    cases hkeeper.symm.trans hkeeper'
    simp [hfree] at hsome
  | ok result =>
    rcases NamedScopes.bind?_eq_ok hbind with ⟨hnone, -⟩ |
      ⟨scope', rest, bindings, hkeeper', -, hadd, rfl⟩
    · cases hkeeper.symm.trans hnone
    · cases hkeeper.symm.trans hkeeper'
      have hfind' : (s.apply (.bind label value line)).scopes.find? scope.name =
          some { scope with bindings } := by
        rw [Naming.apply, hbind, NamedScopes.find?_map_rebound, hfind, Option.map_some,
          NamedScope.rebound_self]
      rw [stored_of_find? hfind', Bindings.find?_of_bind hadd]
      rfl

/-- What is stored has the lead of its scope, so that the search of the active scopes needs no
leads. -/
theorem lookup_eq (h : s.Sound calls) (label : String) :
    s.scopes.lookup s.active label = s.active.findSome? fun n => s.stored n label := by
  rw [NamedScopes.lookup, NamedScopes.claiming]
  induction s.active with
  | nil => rfl
  | cons n rest ih =>
    cases hfind : s.scopes.find? n with
    | none => simpa [hfind, stored] using ih
    | some scope =>
      have hstored : s.stored n label = _ := stored_of_find? hfind
      cases hb : scope.bindings.find? label with
      | none =>
        by_cases hclaims : scope.claims label <;> simpa [hfind, hstored, hb, hclaims] using ih
      | some b =>
        have hlabel : b.label = label := by simpa using List.find?_some hb
        obtain ⟨hscope, -⟩ := NamedScopes.mem_of_find? hfind
        obtain ⟨-, hlead, -⟩ := h.bound scope hscope b (List.mem_of_find?_eq_some hb)
        have hclaims : scope.claims label = true := by
          rw [NamedScope.claims, List.isPrefixOf_iff_prefix, ← hlabel]
          exact hlead
        simp [hfind, hstored, hb, hclaims]

end Sound

/-! ## Active scopes -/

/-- The call after the first `k` ones made the scope active, and no later one has changed that. -/
def ActiveSince (calls : List Call) (name : String) (k : Nat) : Prop :=
  calls[k]? = some (.activate name) ∧
    ∀ j > k, ∀ c, calls[j]? = some c → c ≠ .activate name ∧ c ≠ .deactivate name ∧ c ≠ .clear

theorem ActiveSince.lt_length {calls : List Call} {k : Nat} (h : ActiveSince calls name k) :
    k < calls.length := (List.getElem?_eq_some_iff.mp h.1).1

theorem activeSince_concat {calls : List Call} {c : Call} {k : Nat} :
    ActiveSince (calls ++ [c]) name k ↔ k = calls.length ∧ c = .activate name ∨
      ActiveSince calls name k ∧ c ≠ .activate name ∧ c ≠ .deactivate name ∧ c ≠ .clear := by
  simp only [ActiveSince, getElem?_concat_eq_some]
  constructor
  · rintro ⟨hold | ⟨hk, hc⟩, hlater⟩
    · have hk := (List.getElem?_eq_some_iff.mp hold).1
      exact .inr ⟨⟨hold, fun j hj c' hc' => hlater j hj c' (.inl hc')⟩,
        hlater calls.length hk c (.inr ⟨rfl, rfl⟩)⟩
    · exact .inl ⟨hk, hc⟩
  · rintro (⟨rfl, rfl⟩ | ⟨⟨hold, hlater⟩, hc⟩)
    · refine ⟨.inr ⟨rfl, rfl⟩, fun j hj c' hc' => ?_⟩
      rcases hc' with hc' | ⟨rfl, -⟩
      · exact absurd (List.getElem?_eq_some_iff.mp hc').1 (by omega)
      · exact absurd hj (Nat.lt_irrefl _)
    · refine ⟨.inl hold, fun j hj c' hc' => ?_⟩
      rcases hc' with hc' | ⟨-, rfl⟩
      · exact hlater j hj c' hc'
      · exact hc

/-- The active scopes are those that some call has made active since, the latest one first. -/
structure Recent (active : ActiveScopes) (calls : List Call) : Prop where
  mem_iff : ∀ name, name ∈ active ↔ ∃ k, ActiveSince calls name k
  order : active.Pairwise fun n m => ∀ j k, ActiveSince calls n j → ActiveSince calls m k → k < j

namespace Recent

variable {active : ActiveScopes} {calls : List Call} {c : Call}

theorem nodup (h : Recent active calls) : active.Nodup := by
  refine h.order.imp_of_mem ?_
  rintro n m hn - horder rfl
  obtain ⟨k, hk⟩ := (h.mem_iff n).mp hn
  exact Nat.lt_irrefl k (horder k k hk hk)

/-- A call that makes no scope active leaves those out that it makes inactive. -/
theorem filter (h : Recent active calls) {p : String → Bool}
    (hactivate : ∀ name, c ≠ .activate name)
    (hp : ∀ name, p name = true ↔ c ≠ .deactivate name ∧ c ≠ .clear) :
    Recent (active.filter p) (calls ++ [c]) := by
  have hsince (name : String) (k : Nat) :
      ActiveSince (calls ++ [c]) name k ↔ ActiveSince calls name k ∧ p name = true := by
    simp [activeSince_concat, hactivate name, hp]
  refine ⟨fun name => ?_, (h.order.filter p).imp fun horder j k hj hk => ?_⟩
  · simp [List.mem_filter, h.mem_iff, hsince]
  · exact horder j k ((hsince _ j).mp hj).1 ((hsince _ k).mp hk).1

/-- The scope that has just become active comes first. -/
theorem activate (h : Recent active calls) (name : String) :
    Recent (active.activate name) (calls ++ [.activate name]) := by
  have hsince {n : String} (hn : n ≠ name) (k : Nat) :
      ActiveSince (calls ++ [.activate name]) n k ↔ ActiveSince calls n k := by
    simp [activeSince_concat, hn.symm]
  have hself (k : Nat) : ActiveSince (calls ++ [.activate name]) name k ↔ k = calls.length := by
    simp [activeSince_concat]
  unfold ActiveScopes.activate ActiveScopes.deactivate
  refine ⟨fun n => ?_, List.pairwise_cons.mpr ⟨fun m hm j k hj hk => ?_, ?_⟩⟩
  · by_cases hn : n = name
    · simp [hn, hself]
    · simp [hn, hsince hn, h.mem_iff]
  · have hne : m ≠ name := by simpa using (List.mem_filter.mp hm).2
    have hk := ((hsince hne k).mp hk).lt_length
    rw [(hself j).mp hj]
    exact hk
  · refine (h.order.filter _).imp_of_mem fun {n m} hn hm horder j k hj hk => ?_
    have hn : n ≠ name := by simpa using (List.mem_filter.mp hn).2
    have hm : m ≠ name := by simpa using (List.mem_filter.mp hm).2
    exact horder j k ((hsince hn j).mp hj) ((hsince hm k).mp hk)

/-- **What a call keeps of the active scopes.** -/
theorem apply (h : Recent s.active calls) (c : Call) :
    Recent (s.apply c).active (calls ++ [c]) := by
  have hkept (hactive : (s.apply c).active = s.active) (hactivate : ∀ name, c ≠ .activate name)
      (hdeactivate : ∀ name, c ≠ .deactivate name) (hclear : c ≠ .clear) :
      Recent (s.apply c).active (calls ++ [c]) := by
    have hall := h.filter (p := fun _ => true) hactivate fun name =>
      by simp [hdeactivate name, hclear]
    rwa [List.filter_true, ← hactive] at hall
  cases c with
  | create name lead line =>
    refine hkept ?_ (fun _ => Call.noConfusion) (fun _ => Call.noConfusion) Call.noConfusion
    rw [Naming.apply]
    split <;> rfl
  | bind label value line =>
    refine hkept ?_ (fun _ => Call.noConfusion) (fun _ => Call.noConfusion) Call.noConfusion
    rw [Naming.apply]
    split <;> rfl
  | activate name => exact h.activate name
  | deactivate name =>
    exact h.filter (fun _ => Call.noConfusion) fun n => by simp [@eq_comm _ n]
  | clear =>
    have hnone := h.filter (p := fun _ => false) (c := .clear) (fun _ => Call.noConfusion) fun n =>
      by simp
    rwa [List.filter_false] at hnone

theorem run (calls : List Call) : Recent (run calls).active calls := by
  induction calls using List.reverseRecOn with
  | nil => exact ⟨by simp [Naming.run, ActiveSince], List.Pairwise.nil⟩
  | append_singleton calls c ih =>
    rw [run_concat]
    exact ih.apply c

end Recent

/-- **The tables of named scopes stay private.** Let any calls make scopes, change which of them are
active and bind labels. Names and leads of scopes are unique, and no lead is empty or starts with a
dot. The table of a scope holds each label once, with the lead of the scope, and from a line of the
file that made the scope. A call fails exactly if it is not allowed, and then it changes nothing;
otherwise a scope is made with an empty table. A label is stored in the scope that takes it, and a
stored value stays in all later calls. The active scopes are listed once each, and the one that
became active last comes first. A label is looked up in their tables in this order, and in no other
table. -/
theorem named_scopes_stay_private (calls : List Call) :
    let s := run calls
    (s.scopes.map NamedScope.name).Nodup ∧ (s.scopes.map NamedScope.lead).Nodup ∧
    (∀ scope ∈ s.scopes, scope.lead ≠ "" ∧ scope.lead.toList.head? ≠ some '.' ∧
      .create scope.name scope.lead scope.definedAt ∈ calls ∧
        (scope.bindings.map Binding.label).Nodup ∧
      ∀ b ∈ scope.bindings, scope.lead.toList <+: b.label.toList ∧
        .bind b.label b.value b.line ∈ calls ∧ b.line.file = scope.definedAt.file) ∧
    (∀ c, (s.Fails c ↔ ¬ c.Allowed s) ∧ (s.Fails c → run (calls ++ [c]) = s)) ∧
    (∀ name lead line, (Call.create name lead line).Allowed s →
      (run (calls ++ [.create name lead line])).scopes =
        s.scopes ++ [{ name, lead, definedAt := line }]) ∧
    (∀ label value line scope, s.scopes.keeper? s.active label line = some scope →
      s.stored scope.name label = none →
      (run (calls ++ [.bind label value line])).stored scope.name label = some value) ∧
    (∀ more name label v, s.stored name label = some v →
      (run (calls ++ more)).stored name label = some v) ∧
    s.active.Nodup ∧ (∀ name, name ∈ s.active ↔ ∃ k, ActiveSince calls name k) ∧
    (s.active.Pairwise fun n m => ∀ j k, ActiveSince calls n j → ActiveSince calls m k → k < j) ∧
    ∀ label, (s.scopes.lookup s.active label = s.active.findSome? fun n => s.stored n label) ∧
      ((∀ name ∈ s.active, s.stored name label = none) →
        s.scopes.lookup s.active label = none) := by
  intro s
  have hsound : s.Sound calls := .run calls
  have hrecent : Recent s.active calls := .run calls
  refine ⟨hsound.names_nodup, hsound.leads_nodup, fun scope hscope => ?_,
    fun c => ⟨fails_iff c, fun hc => ?_⟩, fun name lead line hallowed => ?_,
    fun label value line scope hkeeper hfree => ?_,
    fun more name label v hv => Sound.stored_run hv more, hrecent.nodup, hrecent.mem_iff,
    hrecent.order, fun label => ⟨hsound.lookup_eq label, fun hnone => ?_⟩⟩
  · obtain ⟨hcreated, hlead, hdot⟩ := hsound.created scope hscope
    refine ⟨hlead, hdot, hcreated, hsound.labels_nodup scope hscope, fun b hb => ?_⟩
    obtain ⟨hbound, hstarts, hfile⟩ := hsound.bound scope hscope b hb
    exact ⟨hstarts, hbound, hfile⟩
  · rw [run_concat]
    exact apply_of_fails hc
  · rw [run_concat, apply, create_of_allowed hallowed]
  · rw [run_concat]
    exact Sound.stored_bind hkeeper hfree
  · rw [hsound.lookup_eq]
    exact List.findSome?_eq_none_iff.mpr hnone

/-- A scope becomes active before there is one with its name, and the labels of another one have its
lead too. The scope that became active last takes such a label, once; a line of another file stores
nothing. Once that scope is inactive, its labels are out of reach, and the other scope still has its
own. -/
theorem named_scopes_stay_private_overlapping_leads :
    let line : SourceLine := { file := some 0, name := "lib.asm", number := 1 }
    let calls : List Call :=
      [.activate "lib", .create "lib" "_" line, .create "lib" "x" line, .create "io" "." line,
        .bind "_a" 1 line, .create "io" "__" line, .activate "io", .bind "__a" 2 line,
        .bind "__a" 3 line, .bind "__b" 4 { line with file := some 1 }, .deactivate "io"]
    let s := run calls
    s.scopes.map (fun scope => (scope.name, scope.lead, scope.bindings.map Binding.label)) =
        [("lib", "_", ["_a"]), ("io", "__", ["__a"])] ∧
      s.active = ["lib"] ∧ s.scopes.lookup s.active "_a" = some 1 ∧
        s.scopes.lookup s.active "__a" = none ∧
      ∀ more, (run (calls ++ more)).stored "io" "__a" = some 2 := by
  intro line calls s
  obtain ⟨-, -, -, -, -, -, hkeeps, -, -, -, hlookup⟩ := named_scopes_stay_private calls
  refine ⟨by decide +kernel, by decide +kernel, ?_, (hlookup "__a").2 (by decide +kernel),
    fun more => hkeeps more "io" "__a" 2 (by decide +kernel)⟩
  rw [(hlookup "_a").1]
  decide +kernel

end Naming

end Retarget
