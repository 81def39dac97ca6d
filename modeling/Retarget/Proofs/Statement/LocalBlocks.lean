import Mathlib.Data.List.Induction
import Retarget.Proofs.Scope.Calls

/-!
# Blocks of local labels

In the text of a file, a block goes from a label that is not local up to the next such label, origin
or choice of a zone. Items of other files may stand between those of a file, and do not matter.

* `InBlock`: two items are a label and an item of its block;
* `Tracked`: the scopes of the items of a file follow its blocks;
* `Tracked.inBlock_cases`: then the scope of an item is that of the label that opens its block.
-/

namespace Retarget

namespace Statement

/-- A label that is not local opens a block. -/
def opensBlock : Statement → Bool
  | label name => Tier.ofLabel name ≠ .block
  | _ => false

/-- An origin and the choice of a zone lead out of a block. -/
def leavesBlock : Statement → Bool
  | org .. | setZone _ => true
  | _ => false

/-- Where a block ends. -/
def endsBlock (s : Statement) : Bool := s.opensBlock || s.leavesBlock

end Statement

/-- The item at `m` opens the block of the item at `k`: both are of one file, and no other item of
that file ends the block up to the item at `k`. -/
def InBlock (items : List Item) (m k : Nat) : Prop :=
  m ≤ k ∧ ∃ i ∈ items[m]?, i.statement.opensBlock = true ∧
    (∃ j ∈ items[k]?, j.line.file = i.line.file) ∧
    ∀ n ≤ k, m < n → ∀ j ∈ items[n]?, j.line.file = i.line.file → j.statement.endsBlock = false

instance (items : List Item) (m k : Nat) : Decidable (InBlock items m k) :=
  inferInstanceAs (Decidable (_ ∧ _))

namespace InBlock

variable {items : List Item} {m m' k : Nat}

theorem le_of_inBlock (h : InBlock items m k) (h' : InBlock items m' k) : m' ≤ m := by
  obtain ⟨-, i, -, -, ⟨j, hj, hfile⟩, hends⟩ := h
  obtain ⟨hle, i', hi', hopens, ⟨j', hj', hfile'⟩, -⟩ := h'
  cases (Option.mem_def.mp hj).symm.trans hj'
  apply Nat.le_of_not_lt
  intro hlt
  -- A label between the first one and the item would end the block of the first one.
  have hnot := hends m' hle hlt i' hi' (hfile'.symm.trans hfile)
  rw [Statement.endsBlock, hopens] at hnot
  cases hnot

/-- An item is in one block. -/
theorem opener_eq (h : InBlock items m k) (h' : InBlock items m' k) : m = m' :=
  Nat.le_antisymm (le_of_inBlock h' h) (le_of_inBlock h h')

end InBlock

/-! ## Scopes that follow the blocks -/

/-- The scope of file `n` after an item, if `scope` is the one before it. -/
def Item.scopeAfter (n : Nat) (fileScope scope : ScopeId) (i : Item) : ScopeId :=
  if i.line.file = some n then
    if i.statement.opensBlock then i.scope
    else if i.statement.leavesBlock then fileScope
    else scope
  else scope

/-- The scope of file `n` after some items. -/
def scopeAtEnd (n : Nat) (fileScope scope : ScopeId) (items : List Item) : ScopeId :=
  items.foldl (Item.scopeAfter n fileScope) scope

/-- Every item of file `n` has the scope of the file after it. -/
def Tracked (n : Nat) (fileScope scope : ScopeId) : List Item → Prop
  | [] => True
  | i :: rest =>
    (i.line.file = some n → i.scope = i.scopeAfter n fileScope scope) ∧
      Tracked n fileScope (i.scopeAfter n fileScope scope) rest

variable {n : Nat} {fileScope scope : ScopeId} {items more : List Item}

theorem scopeAtEnd_append :
    scopeAtEnd n fileScope scope (items ++ more) =
      scopeAtEnd n fileScope (scopeAtEnd n fileScope scope items) more := List.foldl_append

theorem tracked_append : Tracked n fileScope scope (items ++ more) ↔
    Tracked n fileScope scope items ∧
      Tracked n fileScope (scopeAtEnd n fileScope scope items) more := by
  induction items generalizing scope with
  | nil => simp [Tracked, scopeAtEnd]
  | cons i rest ih =>
    rw [List.cons_append, Tracked, Tracked, ih, and_assoc]
    rfl

/-- Items of other files change nothing. -/
theorem tracked_of_other (h : ∀ i ∈ items, i.line.file ≠ some n) (fileScope scope : ScopeId) :
    Tracked n fileScope scope items ∧ scopeAtEnd n fileScope scope items = scope := by
  induction items with
  | nil => exact ⟨trivial, rfl⟩
  | cons i rest ih =>
    rw [List.forall_mem_cons] at h
    have hi : i.scopeAfter n fileScope scope = scope := if_neg h.1
    rw [Tracked, scopeAtEnd, List.foldl_cons, hi]
    exact ⟨⟨fun hfile => absurd hfile h.1, (ih h.2).1⟩, (ih h.2).2⟩

theorem Tracked.scope_eq (h : Tracked n fileScope scope items) {k : Nat} {i : Item}
    (hk : items[k]? = some i) (hfile : i.line.file = some n) :
    i.scope = scopeAtEnd n fileScope scope (items.take (k + 1)) := by
  induction items generalizing scope k with
  | nil => cases hk
  | cons first rest ih =>
    cases k with
    | zero =>
      cases hk
      exact h.1 hfile
    | succ k => exact ih h.2 hk

/-- The item at `m` is the last one of file `n` that ends a block, and it opens one. -/
def LastOpener (n : Nat) (items : List Item) (m : Nat) (i : Item) : Prop :=
  items[m]? = some i ∧ i.line.file = some n ∧ i.statement.opensBlock = true ∧
    ∀ k j, m < k → items[k]? = some j → j.line.file = some n → j.statement.endsBlock = false

/-- An item inside a block, or of another file, changes nothing. -/
theorem lastOpener_concat {i o : Item} {m : Nat}
    (hi : i.line.file = some n → i.statement.endsBlock = false) :
    LastOpener n (items ++ [i]) m o ↔ LastOpener n items m o := by
  simp only [LastOpener, getElem?_concat_eq_some]
  constructor
  · rintro ⟨hm | ⟨-, rfl⟩, hfile, hopens, hlast⟩
    · exact ⟨hm, hfile, hopens, fun k j hk hj => hlast k j hk (.inl hj)⟩
    · have hends := hi hfile
      rw [Statement.endsBlock, hopens] at hends
      cases hends
  · rintro ⟨hm, hfile, hopens, hlast⟩
    refine ⟨.inl hm, hfile, hopens, ?_⟩
    rintro k j hk (hj | ⟨-, rfl⟩)
    · exact hlast k j hk hj
    · exact hi

/-- After an item that ends a block, there is at most the block that it opens. -/
theorem lastOpener_concat_of_ends {i o : Item} {m : Nat} (hfile : i.line.file = some n)
    (hi : i.statement.endsBlock = true) :
    LastOpener n (items ++ [i]) m o ↔ m = items.length ∧ o = i ∧ i.statement.opensBlock = true := by
  simp only [LastOpener, getElem?_concat_eq_some]
  constructor
  · rintro ⟨hm | ⟨rfl, rfl⟩, -, hopens, hlast⟩
    · have hlt := (List.getElem?_eq_some_iff.mp hm).1
      rw [hlast items.length i hlt (.inr ⟨rfl, rfl⟩) hfile] at hi
      cases hi
    · exact ⟨rfl, rfl, hopens⟩
  · rintro ⟨rfl, rfl, hopens⟩
    refine ⟨.inr ⟨rfl, rfl⟩, hfile, hopens, ?_⟩
    rintro k j hk (hj | ⟨rfl, -⟩)
    · exact absurd (List.getElem?_eq_some_iff.mp hj).1 (Nat.lt_asymm hk)
    · exact absurd hk (Nat.lt_irrefl _)

/-- The scope of a file is that of the label of its current block, or that of the file itself. -/
theorem scopeAtEnd_cases (n : Nat) (fileScope : ScopeId) (items : List Item) :
    (∃ m i, LastOpener n items m i ∧ scopeAtEnd n fileScope fileScope items = i.scope) ∨
      (∀ m i, ¬ LastOpener n items m i) ∧ scopeAtEnd n fileScope fileScope items = fileScope := by
  induction items using List.reverseRecOn with
  | nil => exact .inr ⟨fun m i h => by simp [LastOpener] at h, rfl⟩
  | append_singleton items i ih =>
    rw [scopeAtEnd_append, scopeAtEnd, List.foldl_cons, List.foldl_nil, Item.scopeAfter]
    by_cases hfile : i.line.file = some n
    · cases hopens : i.statement.opensBlock with
      | true =>
        have hends : i.statement.endsBlock = true := by
          rw [Statement.endsBlock, hopens, Bool.true_or]
        simp only [lastOpener_concat_of_ends hfile hends]
        exact .inl ⟨_, i, ⟨rfl, rfl, hopens⟩, by simp [hfile]⟩
      | false =>
        cases hleaves : i.statement.leavesBlock with
        | true =>
          have hends : i.statement.endsBlock = true := by
            rw [Statement.endsBlock, hleaves, Bool.or_true]
          simp only [lastOpener_concat_of_ends hfile hends]
          exact .inr ⟨by simp [hopens], by simp [hfile]⟩
        | false =>
          have hinside : i.statement.endsBlock = false := by
            rw [Statement.endsBlock, hopens, hleaves]; rfl
          simp only [lastOpener_concat fun _ => hinside]
          simpa [hfile] using ih
    · simp only [lastOpener_concat fun h => absurd h hfile, if_neg hfile]
      exact ih

/-- The last opener up to an item of the file is the one of its block. -/
theorem lastOpener_take_iff {m k : Nat} {o i : Item} (hi : items[k]? = some i)
    (hfile : i.line.file = some n) :
    LastOpener n (items.take (k + 1)) m o ↔ InBlock items m k ∧ items[m]? = some o := by
  have htake (j : Nat) (x : Item) :
      (items.take (k + 1))[j]? = some x ↔ j ≤ k ∧ items[j]? = some x := by
    rw [List.getElem?_take, Option.ite_none_right_eq_some, Nat.lt_succ_iff]
  simp only [LastOpener, htake]
  constructor
  · rintro ⟨⟨hle, ho⟩, hofile, hopens, hlast⟩
    refine ⟨⟨hle, o, ho, hopens, ⟨i, hi, hfile.trans hofile.symm⟩, ?_⟩, ho⟩
    intro j hj hm b hb hbfile
    exact hlast j b hm ⟨hj, hb⟩ (hbfile.trans hofile)
  · rintro ⟨⟨hle, o', ho', hopens, ⟨i', hi', hsame⟩, hends⟩, ho⟩
    cases (Option.mem_def.mp ho').symm.trans ho
    cases (Option.mem_def.mp hi').symm.trans hi
    have hofile := hsame.symm.trans hfile
    refine ⟨⟨hle, ho⟩, hofile, hopens, ?_⟩
    rintro j b hm ⟨hj, hb⟩ hbfile
    exact hends j hj hm b hb (hbfile.trans hofile.symm)

/-- **The scope of an item follows its block.** It is that of the label that opens the block, and
that of the file outside all blocks. -/
theorem Tracked.inBlock_cases (h : Tracked n fileScope fileScope items) {k : Nat} {i : Item}
    (hk : items[k]? = some i) (hfile : i.line.file = some n) :
    (∃ m o, InBlock items m k ∧ items[m]? = some o ∧ i.scope = o.scope) ∨
      (∀ m, ¬ InBlock items m k) ∧ i.scope = fileScope := by
  have hscope := h.scope_eq hk hfile
  rcases scopeAtEnd_cases n fileScope (items.take (k + 1)) with ⟨m, o, hlast, hend⟩ | ⟨hnone, hend⟩
  · obtain ⟨hblock, ho⟩ := (lastOpener_take_iff hk hfile).mp hlast
    exact .inl ⟨m, o, hblock, ho, hscope.trans hend⟩
  · refine .inr ⟨fun m hblock => ?_, hscope.trans hend⟩
    obtain ⟨-, o, ho, -⟩ := id hblock
    exact hnone m o ((lastOpener_take_iff hk hfile).mpr ⟨hblock, ho⟩)

end Retarget
