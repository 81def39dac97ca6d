import Retarget.Proofs.Scope.Binding

/-!
# Histories of scopes

Scopes are opened one inside the other, and labels are bound in them. What a label is, seen from a
scope, can be told from the calls that made the tree: it has the value of the first call that bound
it in the same place.

* `ScopeTree.WellFormed`: every scope but the first one is inside an earlier one;
* `ScopeTree.Walk`: the way from a scope outwards, as a loop without a bound;
* `ScopeTree.apply_cases`: what a call does;
* `ScopeTree.Recorded`: the labels of a tree are those of the calls so far.
-/

namespace Retarget

/-- A member of a longer list is an old one or the last one. -/
theorem getElem?_concat_eq_some {α : Type} {xs : List α} {x y : α} {k : Nat} :
    (xs ++ [x])[k]? = some y ↔ xs[k]? = some y ∨ k = xs.length ∧ x = y := by
  rcases Nat.lt_trichotomy k xs.length with hlt | rfl | hlt
  · rw [List.getElem?_append_left hlt]
    exact ⟨.inl, fun h => h.resolve_right fun ⟨heq, _⟩ => Nat.ne_of_lt hlt heq⟩
  · simp
  · have hnone : (xs ++ [x])[k]? = none :=
      List.getElem?_eq_none (by simpa using Nat.succ_le_of_lt hlt)
    simp [hnone, List.getElem?_eq_none (Nat.le_of_lt hlt), Nat.ne_of_gt hlt]

namespace ScopeTree

variable {t t' : ScopeTree} {id target : ScopeId} {tier : Tier} {label : String}

/-! ## The shape of a tree -/

/-- The first scope is that of the whole program, and every other one is inside an earlier one. -/
structure WellFormed (t : ScopeTree) : Prop where
  root : ∃ s, t.scopes[globalId]? = some s ∧ s.tier = .everywhere ∧ s.parent = none
  inside : ∀ id s, t.scopes[id]? = some s → id ≠ globalId →
    s.tier ≠ .everywhere ∧ ∃ p < id, s.parent = some p

theorem WellFormed.length_pos (h : t.WellFormed) : 0 < t.scopes.length := by
  obtain ⟨s, hs, -⟩ := h.root
  exact (List.getElem?_eq_some_iff.mp hs).1

theorem empty_wellFormed : empty.WellFormed where
  root := ⟨_, rfl, rfl, rfl⟩
  inside := by
    intro id s hs hid
    obtain ⟨hlt, -⟩ := List.getElem?_eq_some_iff.mp hs
    exact absurd (Nat.lt_one_iff.mp hlt) hid

/-- The scope that is found is of the tier, and not inside the one where the search began. -/
theorem enclosing_eq_some (h : t.enclosing id tier = some target) :
    target ≤ id ∧ ∃ s, t.scopes[target]? = some s ∧ s.tier = tier := by
  induction id using Nat.strongRecOn with
  | ind id ih =>
    rw [enclosing] at h
    split at h
    · cases h
    · rename_i s hs
      split at h
      · rename_i htier
        cases h
        exact ⟨Nat.le_refl _, s, hs, htier⟩
      · split at h
        · cases h
        · split at h
          · cases h
          · rename_i p _
            split at h
            · rename_i hp
              obtain ⟨hle, hfound⟩ := ih p hp h
              exact ⟨Nat.le_trans hle (Nat.le_of_lt hp), hfound⟩
            · cases h

theorem lt_of_enclosing_eq_some (h : t.enclosing id tier = some target) : id < t.scopes.length := by
  rw [enclosing] at h
  cases hs : t.scopes[id]? with
  | none => simp [hs] at h
  | some s => exact (List.getElem?_eq_some_iff.mp hs).1

theorem enclosing_self {s : Scope} (hs : t.scopes[id]? = some s) :
    t.enclosing id s.tier = some id := by
  rw [enclosing, hs]
  simp

/-- Scopes that are opened later are not on the way outwards. -/
theorem enclosing_append (hid : id < t.scopes.length) (more : List Scope) (tier : Tier) :
    ({ scopes := t.scopes ++ more } : ScopeTree).enclosing id tier = t.enclosing id tier := by
  refine enclosing_congr tier fun j hj => ?_
  rw [List.getElem?_append_left (Nat.lt_of_le_of_lt hj hid)]

/-- The way from a scope outwards, up to the scope of a tier: a loop that knows no bound. -/
inductive Walk (t : ScopeTree) (tier : Tier) : ScopeId → Option ScopeId → Prop
  | found {id : ScopeId} {s : Scope} (hs : t.scopes[id]? = some s) (htier : s.tier = tier) :
      Walk t tier id (some id)
  | passed {id : ScopeId} {s : Scope} (hs : t.scopes[id]? = some s) (htier : s.tier ≠ tier)
      (hdepth : s.tier.depth < tier.depth) : Walk t tier id none
  | outermost {id : ScopeId} {s : Scope} (hs : t.scopes[id]? = some s) (htier : s.tier ≠ tier)
      (hdepth : ¬ s.tier.depth < tier.depth) (hparent : s.parent = none) : Walk t tier id none
  | outwards {id parent : ScopeId} {s : Scope} {r : Option ScopeId} (hs : t.scopes[id]? = some s)
      (htier : s.tier ≠ tier) (hdepth : ¬ s.tier.depth <
        tier.depth) (hparent : s.parent = some parent)
      (h : Walk t tier parent r) : Walk t tier id r

namespace WellFormed

/-- The way outwards of the scopes but the first one. -/
theorem enclosing_of_inside (h : t.WellFormed) {s : Scope} (hs : t.scopes[id]? = some s)
    (hid : id ≠ globalId) (tier : Tier) : ∃ p < id, s.parent = some p ∧ t.enclosing id tier =
      if s.tier = tier then some id
      else if s.tier.depth < tier.depth then none else t.enclosing p tier := by
  obtain ⟨-, p, hp, hparent⟩ := h.inside id s hs hid
  refine ⟨p, hp, hparent, ?_⟩
  rw [enclosing, hs]
  simp only [hparent, if_pos hp]

theorem enclosing_global (h : t.WellFormed) :
    t.enclosing globalId tier = if tier = .everywhere then some globalId else none := by
  obtain ⟨s, hs, htier, -⟩ := h.root
  rw [enclosing, hs]
  cases tier <;> simp [htier, Tier.depth]

/-- The loop ends, with the scope that is looked for. -/
theorem walk_iff (h : t.WellFormed) (hid : id < t.scopes.length) {r : Option ScopeId} :
    t.Walk tier id r ↔ r = t.enclosing id tier := by
  constructor
  · intro hwalk
    clear hid
    induction hwalk with
    | found hs htier => rw [← htier, enclosing_self hs]
    | passed hs htier hdepth =>
      rw [enclosing, hs]
      simp only [htier, hdepth, if_true, if_false]
    | outermost hs htier hdepth hparent =>
      rw [enclosing, hs]
      simp only [htier, hdepth, hparent, if_false]
    | @outwards id parent s r hs htier hdepth hparent _ ih =>
      by_cases hroot : id = globalId
      · obtain ⟨s', hs', -, hnone⟩ := h.root
        rw [← hroot, hs] at hs'
        cases hs'
        rw [hparent] at hnone
        cases hnone
      · obtain ⟨p, -, hp, hway⟩ := h.enclosing_of_inside hs hroot tier
        cases hparent.symm.trans hp
        rw [hway, if_neg htier, if_neg hdepth, ih]
  · rintro rfl
    induction id using Nat.strongRecOn with
    | ind id ih =>
      have hs := List.getElem?_eq_getElem hid
      by_cases hroot : id = globalId
      · obtain ⟨s, hs, htier, -⟩ := h.root
        rw [hroot, h.enclosing_global]
        cases tier with
        | everywhere => exact .found hs htier
        | file => exact .passed hs (by simp [htier]) (by simp [htier, Tier.depth])
        | block => exact .passed hs (by simp [htier]) (by simp [htier, Tier.depth])
      · obtain ⟨p, hp, hparent, hway⟩ := h.enclosing_of_inside hs hroot tier
        rw [hway]
        split
        · exact .found hs ‹_›
        · split
          · exact .passed hs ‹_› ‹_›
          · exact .outwards hs ‹_› ‹_› hparent (ih p hp (Nat.lt_trans hp hid))

/-- The scope of the whole program encloses all others. -/
theorem enclosing_everywhere (h : t.WellFormed) (hid : id < t.scopes.length) :
    t.enclosing id .everywhere = some globalId := by
  induction id using Nat.strongRecOn with
  | ind id ih =>
    by_cases hroot : id = globalId
    · rw [hroot, h.enclosing_global, if_pos rfl]
    · have hs := List.getElem?_eq_getElem hid
      obtain ⟨p, hp, -, hway⟩ := h.enclosing_of_inside hs hroot .everywhere
      rw [hway, if_neg (h.inside id _ hs hroot).1, if_neg (by simp [Tier.depth])]
      exact ih p hp (Nat.lt_trans hp hid)

theorem of_sameShape (h : t.WellFormed) (hshape : SameShape t t') : t'.WellFormed where
  root := by
    obtain ⟨s, hs, htier, hparent⟩ := h.root
    have hroot := hshape globalId
    rw [hs, Option.map_some, eq_comm, Option.map_eq_some_iff] at hroot
    obtain ⟨s', hs', heq⟩ := hroot
    obtain ⟨htier', hparent'⟩ := Prod.mk.inj heq
    exact ⟨s', hs', htier'.trans htier, hparent'.trans hparent⟩
  inside := by
    intro id s' hs' hid
    have hsame := hshape id
    rw [hs', Option.map_some, Option.map_eq_some_iff] at hsame
    obtain ⟨s, hs, heq⟩ := hsame
    obtain ⟨htier, hparent⟩ := Prod.mk.inj heq
    rw [← htier, ← hparent]
    exact h.inside id s hs hid

theorem append (h : t.WellFormed) {s : Scope} (htier : s.tier ≠ .everywhere)
    (hparent : ∃ p < t.scopes.length, s.parent = some p) :
    WellFormed { scopes := t.scopes ++ [s] } where
  root := by
    obtain ⟨s', hs', hroot⟩ := h.root
    exact ⟨s', getElem?_concat_eq_some.mpr (.inl hs'), hroot⟩
  inside := by
    intro id s' hs' hid
    rcases getElem?_concat_eq_some.mp hs' with hs' | ⟨rfl, rfl⟩
    · exact h.inside id s' hs' hid
    · exact ⟨htier, hparent⟩

end WellFormed

/-! ## Calls -/

/-- A call on a tree of scopes. -/
inductive Call
  | openFile (name : String)
  | openBlock (within : ScopeId) (label : String)
  | bind (scope : ScopeId) (label : String) (value : Int) (line : SourceLine)
  deriving DecidableEq, Repr

/-- The scope that a call names has been opened. -/
def Call.Valid (t : ScopeTree) : Call → Prop
  | openFile _ => True
  | openBlock within _ => within < t.scopes.length
  | bind scope .. => scope < t.scopes.length

/-- The value that a call means to give to a label in the scope `target`. -/
def Call.gives (t : ScopeTree) (target : ScopeId) (label : String) : Call → Option Int
  | bind scope l value _ =>
    if l = label ∧ t.enclosing scope (Tier.ofLabel label) = some target then some value else none
  | _ => none

/-- The tree after a call. A binding that fails leaves it as it is. -/
def apply (t : ScopeTree) : Call → ScopeTree
  | .openFile name => (t.openFile name).1
  | .openBlock within label => (t.openBlock within label).1
  | .bind scope label value line =>
    match t.bind scope label value line with
    | .ok t' => t'
    | .error _ => t

/-- A call opens a scope inside an earlier one, or it binds a label or fails to. -/
theorem apply_cases (t : ScopeTree) (h : t.WellFormed) (call : Call) (hvalid : call.Valid t) :
    (∃ s : Scope, t.apply call = { scopes := t.scopes ++ [s] } ∧ s.bindings = [] ∧
      s.tier ≠ .everywhere ∧ (∃ p < t.scopes.length, s.parent = some p) ∧
      ∀ t' target label, call.gives t' target label = none) ∨
    ∃ scope label value line, call = .bind scope label value line ∧
      (t.bind scope label value line = .ok (t.apply call) ∨
        (∃ e, t.bind scope label value line = .error e) ∧ t.apply call = t) := by
  cases call with
  | openFile name =>
    exact .inl ⟨_, rfl, rfl, Tier.noConfusion, ⟨globalId, h.length_pos, rfl⟩, fun _ _ _ => rfl⟩
  | openBlock within label =>
    refine .inl ⟨_, rfl, rfl, Tier.noConfusion, ⟨_, ?_, rfl⟩, fun _ _ _ => rfl⟩
    cases hfile : t.enclosing within .file with
    | none => exact hvalid
    | some file => exact Nat.lt_of_le_of_lt (enclosing_eq_some hfile).1 hvalid
  | bind scope label value line =>
    refine .inr ⟨scope, label, value, line, rfl, ?_⟩
    cases hbind : t.bind scope label value line with
    | ok t' => exact .inl (by rw [apply, hbind])
    | error e => exact .inr ⟨⟨e, rfl⟩, by rw [apply, hbind]⟩

theorem WellFormed.apply (h : t.WellFormed) {call : Call} (hvalid : call.Valid t) :
    (t.apply call).WellFormed := by
  rcases apply_cases t h call hvalid with
    ⟨s, hopened, -, htier, hparent, -⟩ | ⟨scope, label, value, line, -, hbind | ⟨-, hsame⟩⟩
  · rw [hopened]
    exact h.append htier hparent
  · obtain ⟨target, s, bindings, -, hs, -, hset⟩ := bind_eq_ok hbind
    rw [hset]
    exact h.of_sameShape (sameShape_set hs bindings)
  · rw [hsame]
    exact h

/-- A call keeps the scopes and what encloses them. -/
theorem WellFormed.enclosing_apply (h : t.WellFormed) {call : Call} (hvalid : call.Valid t) :
    t.scopes.length ≤ (t.apply call).scopes.length ∧
      ∀ id < t.scopes.length, ∀ tier, (t.apply call).enclosing id tier = t.enclosing id tier := by
  rcases apply_cases t h call hvalid with
    ⟨s, hopened, -⟩ | ⟨scope, label, value, line, -, hbind | ⟨-, hsame⟩⟩
  · rw [hopened]
    exact ⟨by simp, fun id hid tier => enclosing_append hid [s] tier⟩
  · obtain ⟨target, s, bindings, -, hs, -, hset⟩ := bind_eq_ok hbind
    rw [hset]
    exact ⟨by simp, fun id _ tier => ((sameShape_set hs bindings).enclosing_eq id tier).symm⟩
  · rw [hsame]
    exact ⟨Nat.le_refl _, fun _ _ _ => rfl⟩

theorem Call.Valid.mono {call : Call} (h : call.Valid t)
    (hle : t.scopes.length ≤ t'.scopes.length) : call.Valid t' := by
  cases call with
  | openFile name => trivial
  | openBlock within label => exact Nat.lt_of_lt_of_le h hle
  | bind scope label value line => exact Nat.lt_of_lt_of_le h hle

/-- Calls give the same values in a tree where the same scopes enclose theirs. -/
theorem Call.gives_congr {call : Call} (h : call.Valid t)
    (hway : ∀ id < t.scopes.length, ∀ tier, t'.enclosing id tier = t.enclosing id tier)
    (target : ScopeId) (label : String) :
    call.gives t' target label = call.gives t target label := by
  cases call with
  | openFile name => rfl
  | openBlock within label => rfl
  | bind scope l value line => simp only [Call.gives, hway scope h]

theorem Call.findSome?_gives_congr {calls : List Call} (h : ∀ call ∈ calls, call.Valid t)
    (hway : ∀ id < t.scopes.length, ∀ tier, t'.enclosing id tier = t.enclosing id tier)
    (target : ScopeId) (label : String) :
    calls.findSome? (Call.gives t' target label) = calls.findSome? (Call.gives t target label) := by
  induction calls with
  | nil => rfl
  | cons call rest ih =>
    rw [List.forall_mem_cons] at h
    rw [List.findSome?_cons, List.findSome?_cons, Call.gives_congr h.1 hway, ih h.2]

/-- A call that binds a label adds what it gives, and to its scope only. -/
theorem find?_of_bind {scope : ScopeId} {l : String} {value : Int} {line : SourceLine}
    (hbind : t.bind scope l value line = .ok t') {s' : Scope} (hs' : t'.scopes[target]? = some s')
    (label : String) : ∃ s, t.scopes[target]? = some s ∧ s.tier = s'.tier ∧
      (s'.bindings.find? label).map Binding.value = ((s.bindings.find? label).map Binding.value).or
        (Call.gives t target label (.bind scope l value line)) := by
  obtain ⟨found, s, bindings, hfound, hs, hadd, rfl⟩ := bind_eq_ok hbind
  obtain ⟨-, rfl⟩ := Bindings.bind_eq_ok.mp hadd
  have hlt : found < t.scopes.length := (List.getElem?_eq_some_iff.mp hs).1
  by_cases hid : found = target
  · subst hid
    rw [List.getElem?_set_self hlt] at hs'
    cases hs'
    refine ⟨s, hs, rfl, ?_⟩
    rw [Bindings.find?, List.find?_append, Option.map_or, List.find?_singleton]
    congr 1
    by_cases hlabel : l = label
    · subst hlabel
      simp [Call.gives, hfound]
    · simp [Call.gives, hlabel]
  · rw [List.getElem?_set_ne hid] at hs'
    refine ⟨s', hs', rfl, ?_⟩
    rw [Call.gives, if_neg, Option.or_none]
    rintro ⟨rfl, htarget⟩
    exact hid (Option.some.inj (hfound.symm.trans htarget))

/-! ## What the calls have recorded -/

/-- The labels in the scopes are those of the calls so far, each with the value of the first one
that gave it one. -/
structure Recorded (t : ScopeTree) (calls : List Call) : Prop where
  wellFormed : t.WellFormed
  valid : ∀ call ∈ calls, call.Valid t
  bindings : ∀ target s label, t.scopes[target]? = some s → s.tier = Tier.ofLabel label →
    (s.bindings.find? label).map Binding.value = calls.findSome? (Call.gives t target label)

namespace Recorded

variable {calls : List Call}

theorem empty_nil : Recorded empty [] where
  wellFormed := empty_wellFormed
  valid := by simp
  bindings := by
    intro target s label hs _
    obtain ⟨hlt, hs⟩ := List.getElem?_eq_some_iff.mp hs
    obtain rfl : target = 0 := Nat.lt_one_iff.mp hlt
    subst hs
    rfl

/-- What a label is, told from the calls. -/
theorem lookup_eq (h : Recorded t calls) (id : ScopeId) (label : String) : t.lookup id label =
    (t.enclosing id (Tier.ofLabel label)).bind fun target =>
      calls.findSome? (Call.gives t target label) := by
  rw [lookup]
  cases htarget : t.enclosing id (Tier.ofLabel label) with
  | none => rfl
  | some target =>
    obtain ⟨-, s, hs, htier⟩ := enclosing_eq_some htarget
    rw [Option.bind_some, ← h.bindings target s label hs htier]
    simp only [Option.bind_eq_bind, Option.bind_some, hs]
    cases s.bindings.find? label <;> rfl

/-- The values that the earlier calls gave are the same after one more call. -/
theorem findSome?_apply (h : Recorded t calls) {call : Call} (hvalid : call.Valid t)
    (target : ScopeId) (label : String) :
    (calls ++ [call]).findSome? (Call.gives (t.apply call) target label) =
      (calls.findSome? (Call.gives t target label)).or (call.gives t target label) := by
  obtain ⟨-, hway⟩ := h.wellFormed.enclosing_apply hvalid
  rw [List.findSome?_append, Call.findSome?_gives_congr h.valid hway, List.findSome?_singleton,
    Call.gives_congr hvalid hway]

/-- No call gives a value in a scope that is still to be opened. -/
theorem findSome?_gives_length (t : ScopeTree) (calls : List Call) (label : String) :
    calls.findSome? (Call.gives t t.scopes.length label) = none := by
  rw [List.findSome?_eq_none_iff]
  intro call _
  cases call with
  | openFile name => rfl
  | openBlock within l => rfl
  | bind scope l value line =>
    refine if_neg fun ⟨_, htarget⟩ => ?_
    obtain ⟨-, s, hs, -⟩ := enclosing_eq_some htarget
    exact absurd (List.getElem?_eq_some_iff.mp hs).1 (Nat.lt_irrefl _)

/-- A call that is refused gives a value only to a label that has one. -/
theorem or_gives_of_refused (h : Recorded t calls) {scope : ScopeId} {l : String} {value : Int}
    {line : SourceLine} {e : LabelError} (hbind : t.bind scope l value line = .error e) {s : Scope}
    (hs : t.scopes[target]? = some s) (htier : s.tier = Tier.ofLabel label) :
    (calls.findSome? (Call.gives t target label)).or
      (Call.gives t target label (.bind scope l value line)) =
        calls.findSome? (Call.gives t target label) := by
  by_cases hgives : l = label ∧ t.enclosing scope (Tier.ofLabel label) = some target
  · obtain ⟨rfl, htarget⟩ := hgives
    rw [← h.bindings target s l hs htier]
    apply Option.or_of_isSome
    cases hfind : s.bindings.find? l with
    | some b => rfl
    | none => simp [ScopeTree.bind, htarget, hs, Bindings.bind, hfind] at hbind
  · rw [Call.gives, if_neg hgives, Option.or_none]

/-- A call is recorded. -/
theorem apply (h : Recorded t calls) {call : Call} (hvalid : call.Valid t) :
    Recorded (t.apply call) (calls ++ [call]) where
  wellFormed := h.wellFormed.apply hvalid
  valid := by
    have hle := (h.wellFormed.enclosing_apply hvalid).1
    intro c hc
    rcases List.mem_append.mp hc with hc | hc
    · exact (h.valid c hc).mono hle
    · rw [List.mem_singleton.mp hc]
      exact hvalid.mono hle
  bindings := by
    intro target s label hs htier
    rw [h.findSome?_apply hvalid]
    rcases apply_cases t h.wellFormed call hvalid with
      ⟨opened, happly, hnew, -, -, hgives⟩ |
        ⟨scope, l, value, line, rfl, hbind | ⟨⟨e, hbind⟩, happly⟩⟩
    · rw [hgives, Option.or_none]
      rw [happly] at hs
      rcases getElem?_concat_eq_some.mp hs with hs | ⟨rfl, rfl⟩
      · exact h.bindings target s label hs htier
      · -- The new scope is empty, and no call so far was in it.
        rw [hnew, findSome?_gives_length]
        rfl
    · obtain ⟨before, hbefore, hsame, hfind⟩ := find?_of_bind hbind hs label
      rw [hfind, h.bindings target before label hbefore (hsame.trans htier)]
    · rw [happly] at hs
      rw [h.or_gives_of_refused hbind hs htier]
      exact h.bindings target s label hs htier

end Recorded

/-! ## Sequences of calls -/

/-- The tree after some more calls. -/
def applyAll (t : ScopeTree) (calls : List Call) : ScopeTree := calls.foldl apply t

/-- Each call names a scope that the calls before it have opened. -/
def ValidFrom (t : ScopeTree) : List Call → Prop
  | [] => True
  | call :: rest => call.Valid t ∧ (t.apply call).ValidFrom rest

instance Call.decidableValid (t : ScopeTree) : (call : Call) → Decidable (call.Valid t)
  | openFile _ => inferInstanceAs (Decidable True)
  | openBlock within _ => inferInstanceAs (Decidable (within < t.scopes.length))
  | bind scope .. => inferInstanceAs (Decidable (scope < t.scopes.length))

instance ValidFrom.decidable (t : ScopeTree) : (calls : List Call) → Decidable (t.ValidFrom calls)
  | [] => inferInstanceAs (Decidable True)
  | call :: rest =>
    have := ValidFrom.decidable (t.apply call) rest
    inferInstanceAs (Decidable (call.Valid t ∧ (t.apply call).ValidFrom rest))

theorem validFrom_append {calls more : List Call} :
    t.ValidFrom (calls ++ more) ↔ t.ValidFrom calls ∧ (t.applyAll calls).ValidFrom more := by
  induction calls generalizing t with
  | nil => simp [ValidFrom, ScopeTree.applyAll]
  | cons call rest ih => exact (and_congr_right fun _ => ih).trans and_assoc.symm

theorem Recorded.applyAll {calls more : List Call} (h : Recorded t calls)
    (hmore : t.ValidFrom more) : Recorded (t.applyAll more) (calls ++ more) := by
  induction more generalizing t calls with
  | nil => simpa [ScopeTree.applyAll] using h
  | cons call rest ih =>
    rw [List.append_cons]
    exact ih (h.apply hmore.1) hmore.2

/-- A label that has a value keeps it. -/
theorem Recorded.lookup_apply {calls : List Call} (h : Recorded t calls) {call : Call}
    (hvalid : call.Valid t) {value : Int} (hvalue : t.lookup id label = some value) :
    (t.apply call).lookup id label = some value := by
  rw [h.lookup_eq, Option.bind_eq_some_iff] at hvalue
  obtain ⟨target, htarget, hfirst⟩ := hvalue
  have hway := (h.wellFormed.enclosing_apply hvalid).2 id (lt_of_enclosing_eq_some htarget)
  rw [(h.apply hvalid).lookup_eq, hway, htarget, Option.bind_some, h.findSome?_apply hvalid, hfirst,
    Option.some_or]

theorem Recorded.lookup_applyAll {calls more : List Call} (h : Recorded t calls)
    (hmore : t.ValidFrom more) {value : Int} (hvalue : t.lookup id label = some value) :
    (t.applyAll more).lookup id label = some value := by
  induction more generalizing t calls with
  | nil => exact hvalue
  | cons call rest ih => exact ih (h.apply hmore.1) hmore.2 (h.lookup_apply hmore.1 hvalue)

/-- A binding is refused if there is no scope for the label, or if the label has a value there. -/
theorem bind_eq_error_iff {value : Int} {line : SourceLine} :
    (∃ e, t.bind id label value line = .error e) ↔
      t.enclosing id (Tier.ofLabel label) = none ∨ (t.lookup id label).isSome := by
  cases htarget : t.enclosing id (Tier.ofLabel label) with
  | none => simp [ScopeTree.bind, htarget]
  | some target =>
    obtain ⟨-, s, hs, -⟩ := enclosing_eq_some htarget
    cases hfind : s.bindings.find? label with
    | none =>
      simp [ScopeTree.bind, lookup, Bindings.bind, htarget, hs, hfind, ok_bind, pure, Except.pure]
    | some b => simp [ScopeTree.bind, lookup, Bindings.bind, htarget, hs, hfind]

/-- **Labels are assigned once, and looked up by tier.** Whatever scopes have been opened and labels
bound, every scope but the first one is inside an earlier one, so the way outwards ends. A binding
is refused if there is no scope for the label or the label has a value there, and then it changes
nothing. A label has the value of the first call that gave it one in the scope where it is looked
up. It keeps that value in all later calls, and the labels of the whole program are the same from
everywhere. -/
theorem lookup_eq_first_binding (calls : List Call) (hcalls : empty.ValidFrom calls) :
    let t := empty.applyAll calls
    (∀ id s, t.scopes[id]? = some s → id ≠ globalId → ∃ p < id, s.parent = some p) ∧
    (∀ id < t.scopes.length, ∀ tier r, t.Walk tier id r ↔ r = t.enclosing id tier) ∧
    (∀ id label value line,
      ((∃ e, t.bind id label value line = .error e) ↔
        t.enclosing id (Tier.ofLabel label) = none ∨ (t.lookup id label).isSome) ∧
      ((∃ e, t.bind id label value line = .error e) →
        empty.applyAll (calls ++ [.bind id label value line]) = t)) ∧
    (∀ id label, t.lookup id label = (t.enclosing id (Tier.ofLabel label)).bind fun target =>
      calls.findSome? (Call.gives t target label)) ∧
    (∀ more, empty.ValidFrom (calls ++ more) → ∀ id label value, t.lookup id label = some value →
      (empty.applyAll (calls ++ more)).lookup id label = some value) ∧
    ∀ label, Tier.ofLabel label = .everywhere → ∀ id < t.scopes.length,
      t.lookup id label = t.lookup globalId label := by
  intro t
  have h : Recorded t calls := Recorded.empty_nil.applyAll hcalls
  have happend (more : List Call) : empty.applyAll (calls ++ more) = t.applyAll more :=
    List.foldl_append
  refine ⟨fun id s hs hid => (h.wellFormed.inside id s hs hid).2,
    fun id hid tier r => h.wellFormed.walk_iff hid,
    fun id label value line => ⟨bind_eq_error_iff, ?_⟩, h.lookup_eq, ?_, ?_⟩
  · rintro ⟨e, he⟩
    rw [happend, applyAll, List.foldl_cons, List.foldl_nil, apply, he]
  · intro more hmore id label value hvalue
    rw [happend]
    exact h.lookup_applyAll (validFrom_append.mp hmore).2 hvalue
  · intro label htier id hid
    rw [h.lookup_eq, h.lookup_eq, htier, h.wellFormed.enclosing_everywhere hid,
      h.wellFormed.enclosing_global, if_pos rfl]

/-- Two blocks of a file have a label of the same name, and a label of the whole program is bound
twice. -/
theorem lookup_eq_first_binding_two_blocks :
    let line : SourceLine := { file := some 0, name := "main.asm", number := 1 }
    let calls : List Call :=
      [.openFile "main.asm", .openBlock 1 "first", .bind 2 ".loop" 48 line, .bind 2 "start" 16 line,
        .openBlock 2 "second", .bind 3 ".loop" 64 line, .bind 3 "start" 1 line,
        .bind 1 ".orphan" 5 line]
    let t := empty.applyAll calls
    empty.ValidFrom calls ∧ t.lookup 2 ".loop" = some 48 ∧ t.lookup 3 ".loop" = some 64 ∧
      t.lookup 3 "start" = some 16 ∧ t.lookup 1 ".orphan" = none := by
  intro line calls t
  have hcalls : empty.ValidFrom calls := by decide +kernel
  obtain ⟨-, -, -, hfirst, -, -⟩ := lookup_eq_first_binding calls hcalls
  exact ⟨hcalls, (hfirst 2 ".loop").trans (by decide +kernel),
    (hfirst 3 ".loop").trans (by decide +kernel), (hfirst 3 "start").trans (by decide +kernel),
    (hfirst 1 ".orphan").trans (by decide +kernel)⟩

end ScopeTree

end Retarget
