import Mathlib.Data.List.Induction
import Retarget.Proofs.Result
import Retarget.Symbol.Condition

/-!
# Nested blocks

Open blocks are kept on a stack, and a block remembers only whether the text around it was active
when it was opened. For symbols that do not change this is the usual meaning of nested blocks: a
line counts if in every block around it the current branch is the first one whose guard holds.

* `Nesting`: how directives form blocks, as a grammar;
* `OpenBlocks`: the blocks that directives leave open, read off the grammar;
* `Block.isActive_eq_taken`: whether a block is active, from the current branch back to the branch
  that it follows;
* `Conditions.isActive_eq_ok_true`: when a line is active, in terms of the branches of its blocks;
* `Conditions.run_eq_ok`: the stack follows the directives, whatever their tests say;
* `Conditions.advance_openBlocks`: the stack holds the blocks that the grammar leaves open.
-/

namespace Retarget

/-! ## Branches that are chosen -/

/-- The last one of the branches is the first one whose guard holds. -/
def Chosen (t : SymbolTable) (branches : List Branch) : Prop :=
  ∃ earlier current, branches = earlier ++ [current] ∧ (∀ b ∈ earlier, b.holds t = .ok false) ∧
    current.holds t = .ok true

/-- The branches of a block so far, the current one last. -/
def Block.branches (b : Block) : List Branch := b.earlier ++ [b.current]

/-- The block with one more branch. -/
def Block.extend (b : Block) (branch : Branch) : Block :=
  { b with earlier := b.branches, current := branch }

/-- The guards of all branches can be evaluated. -/
def Evaluable (t : SymbolTable) (branches : List Branch) : Prop :=
  ∀ b ∈ branches, ∃ v, b.holds t = .ok v

theorem chosen_append_singleton {t : SymbolTable} {earlier : List Branch} {current : Branch} :
    Chosen t (earlier ++ [current]) ↔
      (∀ b ∈ earlier, b.holds t = .ok false) ∧ current.holds t = .ok true := by
  constructor
  · rintro ⟨earlier', current', hbranches, hchosen⟩
    obtain ⟨rfl, hlast⟩ := List.append_inj' hbranches rfl
    cases hlast
    exact hchosen
  · exact fun hchosen => ⟨earlier, current, rfl, hchosen⟩

/-- Where a branch is chosen, it stays so exactly if all guards keep their values. -/
theorem Chosen.iff_holds_eq {t t' : SymbolTable} {branches : List Branch} (h : Chosen t branches) :
    Chosen t' branches ↔ ∀ b ∈ branches, b.holds t' = b.holds t := by
  obtain ⟨earlier, current, rfl, hearlier, hcurrent⟩ := h
  rw [chosen_append_singleton, List.forall_mem_append, List.forall_mem_singleton, hcurrent]
  refine and_congr_left' (forall₂_congr fun b hb => ?_)
  rw [hearlier b hb]

namespace Branch

variable {t : SymbolTable} {bs : List Branch}

theorem anyHolds_eq_ok_false : anyHolds t bs = .ok false ↔ ∀ b ∈ bs, b.holds t = .ok false := by
  induction bs with
  | nil => simp [anyHolds]
  | cons b bs ih =>
    rw [anyHolds, bind_eq_ok, List.forall_mem_cons]
    constructor
    · rintro ⟨v, hv, h⟩
      cases v with
      | true => cases h
      | false => exact ⟨hv, ih.mp h⟩
    · rintro ⟨hv, h⟩
      exact ⟨false, hv, ih.mpr h⟩

theorem exists_anyHolds (h : Evaluable t bs) : ∃ v, anyHolds t bs = .ok v := by
  induction bs with
  | nil => exact ⟨false, rfl⟩
  | cons b bs ih =>
    obtain ⟨hb, hbs⟩ := List.forall_mem_cons.mp h
    obtain ⟨v, hv⟩ := hb
    rw [anyHolds, hv]
    cases v with
    | true => exact ⟨true, rfl⟩
    | false => exact ih hbs

/-- Whether one of the branches of a block is taken, from the last one back. A branch is if the one
that it follows is not, nor any before that, and its guard holds. -/
def anyTaken (t : SymbolTable) : List Branch → Except Error Bool
  | [] => .ok false
  | b :: before => do
    if ← anyTaken t before then return true
    if ← anyTaken t before then return false else b.holds t

/-- Whether a branch is taken that follows others. -/
def taken (t : SymbolTable) (b : Branch) (before : List Branch) : Except Error Bool := do
  if ← anyTaken t before then return false else b.holds t

theorem anyHolds_append_singleton (b : Branch) :
    anyHolds t (bs ++ [b]) = anyHolds t bs >>= fun v => if v then .ok true else b.holds t := by
  induction bs with
  | nil =>
    rw [List.nil_append, anyHolds, anyHolds, anyHolds, ok_bind, if_neg Bool.false_ne_true]
    cases b.holds t with
    | error e => rfl
    | ok v => cases v <;> rfl
  | cons first bs ih =>
    rw [List.cons_append, anyHolds, anyHolds]
    cases first.holds t with
    | error e => rfl
    | ok v =>
      cases v with
      | true => rfl
      | false => exact ih

/-- From the last branch back or from the first one on, the guards are looked at in the same
order. -/
theorem anyTaken_reverse (bs : List Branch) : anyTaken t bs.reverse = anyHolds t bs := by
  induction bs using List.reverseRecOn with
  | nil => rfl
  | append_singleton bs b ih =>
    rw [List.reverse_append, List.reverse_singleton, List.singleton_append, anyTaken, ih,
      anyHolds_append_singleton]
    cases anyHolds t bs with
    | error e => rfl
    | ok v => cases v <;> rfl

end Branch

namespace Block

variable {t : SymbolTable} {b : Block}

/-- **A block from its last branch back.** The current branch is active if the text around the block
is and the branch is taken, behind the branches that it follows. -/
theorem isActive_eq_taken :
    b.isActive t = if b.enclosing then b.current.taken t b.earlier.reverse else .ok false := by
  rw [isActive, Branch.taken, Branch.anyTaken_reverse]

/-- A block is active if the text around it was and its current branch is chosen. -/
theorem isActive_eq_ok_true :
    b.isActive t = .ok true ↔ b.enclosing = true ∧ Chosen t b.branches := by
  unfold isActive
  cases b.enclosing with
  | false => simp
  | true =>
    rw [if_pos rfl, bind_eq_ok, eq_self_iff_true, true_and, branches, chosen_append_singleton]
    constructor
    · rintro ⟨v, hv, h⟩
      cases v with
      | true => cases h
      | false => exact ⟨Branch.anyHolds_eq_ok_false.mp hv, h⟩
    · rintro ⟨hearlier, hcurrent⟩
      exact ⟨false, Branch.anyHolds_eq_ok_false.mpr hearlier, hcurrent⟩

theorem exists_isActive (h : Evaluable t b.branches) : ∃ v, b.isActive t = .ok v := by
  obtain ⟨hearlier, hcurrent⟩ := List.forall_mem_append.mp h
  unfold isActive
  cases b.enclosing with
  | false => exact ⟨false, rfl⟩
  | true =>
    obtain ⟨v, hv⟩ := Branch.exists_anyHolds hearlier
    rw [if_pos rfl, hv]
    cases v with
    | true => exact ⟨false, rfl⟩
    | false => exact hcurrent b.current (List.mem_singleton_self _)

end Block

/-! ## The grammar of blocks -/

/-- What a conditional directive does to blocks. -/
inductive Condition.Role
  | opens (guard : Guard)
  | continues (guard : Guard)
  | closes

namespace Condition

/-- The role of a directive. -/
def role : Condition → Role
  | ifTest test => .opens (.test test)
  | ifDefined symbol negated => .opens (.defined symbol negated)
  | elseIf test => .continues (.test test)
  | otherwise => .continues .always
  | endIf => .closes

/-- The test of a directive. -/
def test? : Condition → Option Test
  | ifTest test | elseIf test => some test
  | _ => none

end Condition

/-- A conditional directive and the line it stands on. -/
abbrev ConditionLine := SourceLine × Condition

/-- How directives nest. Without branches they are any number of complete blocks, one after the
other. With branches they are one block that is still open, from its first directive on, and these
are the branches that it has so far. A branch for the other cases is the last one of its block. -/
inductive Nesting : List Branch → List ConditionLine → Prop
  | nil : Nesting [] []
  | close {before block : List ConditionLine} {bs : List Branch} {d : ConditionLine} :
      Nesting [] before → Nesting bs block → bs ≠ [] → d.2.role = .closes →
      Nesting [] (before ++ block ++ [d])
  | first {d : ConditionLine} {guard : Guard} {inner : List ConditionLine} :
      d.2.role = .opens guard → Nesting [] inner →
      Nesting [{ guard, line := d.1 }] (d :: inner)
  | next {bs : List Branch} {b : Branch} {d : ConditionLine} {guard : Guard}
      {block inner : List ConditionLine} :
      Nesting (bs ++ [b]) block → b.guard ≠ .always → d.2.role = .continues guard →
        Nesting [] inner →
      Nesting (bs ++ [b] ++ [{ guard, line := d.1 }]) (block ++ d :: inner)

/-- Properly nested directives: complete blocks only. -/
abbrev Nested (ds : List ConditionLine) : Prop := Nesting [] ds

/-- The blocks that directives leave open, innermost first, each with the branches that it has so
far. -/
inductive OpenBlocks : List (List Branch) → List ConditionLine → Prop
  | none {ds : List ConditionLine} : Nested ds → OpenBlocks [] ds
  | inside {outer : List (List Branch)} {bs : List Branch} {ds block : List ConditionLine} :
      OpenBlocks outer ds → Nesting bs block → bs ≠ [] → OpenBlocks (bs :: outer) (ds ++ block)

theorem Nested.append {ds inner : List ConditionLine} (h : Nested ds) (hinner : Nested inner) :
    Nested (ds ++ inner) := by
  unfold Nested at hinner
  generalize hnone : ([] : List Branch) = bs at hinner
  induction hinner with
  | nil => rwa [List.append_nil]
  | close _ hblock hopen hrole ih _ =>
    rw [← List.append_assoc, ← List.append_assoc]
    exact .close (ih rfl) hblock hopen hrole
  | first => cases hnone
  | next => simp at hnone

/-- Complete blocks may follow at any point. -/
theorem Nesting.append_nested {bs : List Branch} {ds inner : List ConditionLine} (h : Nesting bs ds)
    (hinner : Nested inner) : Nesting bs (ds ++ inner) := by
  cases h with
  | nil => exact hinner
  | close hbefore hblock hopen hrole =>
    exact Nested.append (.close hbefore hblock hopen hrole) hinner
  | first hrole h => exact .first hrole (Nested.append h hinner)
  | @next bs b d guard block body hblock hguard hrole h =>
    rw [List.append_assoc block, List.cons_append]
    exact .next hblock hguard hrole (Nested.append h hinner)

namespace OpenBlocks

variable {outer : List (List Branch)} {bs : List Branch} {ds : List ConditionLine}
  {d : ConditionLine}

theorem append_nested {inner : List ConditionLine} (h : OpenBlocks outer ds)
    (hinner : Nested inner) : OpenBlocks outer (ds ++ inner) := by
  cases h with
  | none h => exact .none (Nested.append h hinner)
  | inside houter hblock hopen =>
    rw [List.append_assoc]
    exact .inside houter (hblock.append_nested hinner) hopen

theorem opened {guard : Guard} (h : OpenBlocks outer ds) (hrole : d.2.role = .opens guard) :
    OpenBlocks ([{ guard, line := d.1 }] :: outer) (ds ++ [d]) :=
  .inside h (.first hrole .nil) (List.cons_ne_nil _ _)

theorem continued {guard : Guard} {b : Branch} (h : OpenBlocks ((bs ++ [b]) :: outer) ds)
    (hguard : b.guard ≠ .always) (hrole : d.2.role = .continues guard) :
    OpenBlocks ((bs ++ [b] ++ [{ guard, line := d.1 }]) :: outer) (ds ++ [d]) := by
  cases h with
  | @inside _ _ ds block houter hblock _ =>
    rw [List.append_assoc ds]
    exact .inside houter (.next hblock hguard hrole .nil) (by simp)

theorem closed (h : OpenBlocks (bs :: outer) ds) (hrole : d.2.role = .closes) :
    OpenBlocks outer (ds ++ [d]) := by
  cases h with
  | inside houter hblock hopen =>
    rw [List.append_assoc]
    exact houter.append_nested (Nesting.close .nil hblock hopen hrole)

/-- Blocks that are open can be closed, innermost first. -/
theorem exists_nested_append (h : OpenBlocks outer ds) : ∃ rest, Nested (ds ++ rest) := by
  induction outer generalizing ds with
  | nil =>
    cases h with
    | none h => exact ⟨[], by rwa [List.append_nil]⟩
  | cons bs outer ih =>
    obtain ⟨rest, hrest⟩ := ih (h.closed (d := (default, .endIf)) rfl)
    exact ⟨(default, .endIf) :: rest, by rwa [List.append_assoc] at hrest⟩

end OpenBlocks

/-! ## The stack -/

namespace Conditions

variable {t : SymbolTable}

/-- Whether the next line is active; lines with an error are not. -/
def activity (t : SymbolTable) (blocks : List Block) : Bool :=
  match isActive { blocks } t with
  | .ok v => v
  | .error _ => false

/-- The open blocks after a directive, if it fits. -/
def advance (t : SymbolTable) (blocks : List Block) (d : ConditionLine) : Option (List Block) :=
  match d.2.role, blocks with
  | .opens guard, _ =>
    some ({ earlier := [], current := { guard, line := d.1 },
            enclosing := activity t blocks } :: blocks)
  | .continues guard, b :: rest =>
    if b.current.guard = .always then none
    else some (b.extend { guard, line := d.1 } :: rest)
  | .closes, _ :: rest => some rest
  | _, [] => none

/-- Process a directive. -/
def step (t : SymbolTable) (c : Conditions) (d : ConditionLine) : Except Error Conditions :=
  match c.process t d.1 d.2 with
  | (c', .ok _) => .ok c'
  | (_, .error e) => .error e

/-- Process directives one after the other. -/
def run (t : SymbolTable) (c : Conditions) (ds : List ConditionLine) : Except Error Conditions :=
  ds.foldlM (step t) c

theorem process_eq (c : Conditions) (line : SourceLine) (d : Condition) :
    c.process t line d =
      match d.role with
      | .opens guard =>
        match c.openBlock t { guard, line } with
        | .ok c' => (c', .ok ())
        | .error e => (c, .error e)
      | .continues guard =>
        match c.blocks with
        | [] => (c, Error.failAt line ConditionError.unmatched)
        | b :: rest =>
          if b.current.guard = .always then
            ({ c with blocks := rest }, Error.failAt line ConditionError.afterElse)
          else
            ({ c with blocks := b.extend { guard, line } :: rest }, .ok ())
      | .closes =>
        match c.blocks with
        | [] => (c, Error.failAt line ConditionError.unmatched)
        | _ :: rest => ({ c with blocks := rest }, .ok ()) := by
  cases d <;> rfl

theorem activity_eq {c : Conditions} {v : Bool} (h : c.isActive t = .ok v) :
    activity t c.blocks = v := by
  unfold activity
  rw [show isActive { blocks := c.blocks } t = .ok v from h]

/-- **A step is an advance of the stack**, unless a block is opened where a test has an error. -/
theorem step_eq_ok {c c' : Conditions} {d : ConditionLine} :
    c.step t d = .ok c' ↔
      (∀ guard, d.2.role = .opens guard → ∃ v, c.isActive t = .ok v) ∧
        ∃ blocks, advance t c.blocks d = some blocks ∧ c' = { c with blocks } := by
  unfold step advance
  rw [process_eq]
  cases d.2.role with
  | opens guard =>
    cases hactive : c.isActive t with
    | error e => simp [openBlock, hactive]
    | ok v => simp [openBlock, hactive, activity_eq hactive, eq_comm]
  | continues guard =>
    cases c.blocks with
    | nil => simp [Error.failAt]
    | cons b rest =>
      by_cases hlast : b.current.guard = .always
      · simp [hlast, Error.failAt]
      · simp [hlast, eq_comm]
  | closes =>
    cases c.blocks with
    | nil => simp [Error.failAt]
    | cons b rest => simp [eq_comm]

/-! ## Tests without errors -/

/-- The test of a directive can be evaluated. -/
def CanEvaluate (t : SymbolTable) (d : ConditionLine) : Prop :=
  ∀ test, d.2.test? = some test → ∃ v, test.holds t d.1 = .ok v

/-- The guards of all branches of the blocks can be evaluated. -/
def Sound (t : SymbolTable) (blocks : List Block) : Prop := ∀ b ∈ blocks, Evaluable t b.branches

theorem Sound.exists_isActive {c : Conditions} (h : Sound t c.blocks) :
    ∃ v, c.isActive t = .ok v := by
  unfold isActive
  cases hblocks : c.blocks with
  | nil => exact ⟨true, rfl⟩
  | cons b rest =>
    rw [hblocks] at h
    exact Block.exists_isActive (h b List.mem_cons_self)

theorem CanEvaluate.of_role {d : ConditionLine} {guard : Guard} (h : CanEvaluate t d)
    (hrole : d.2.role = .opens guard ∨ d.2.role = .continues guard) :
    ∃ v, Branch.holds t { guard, line := d.1 } = .ok v := by
  obtain ⟨line, d⟩ := d
  cases d with
  | ifTest test | elseIf test =>
    obtain rfl : guard = .test test := by simpa [Condition.role, eq_comm] using hrole
    exact h test rfl
  | ifDefined symbol negated =>
    obtain rfl : guard = .defined symbol negated := by simpa [Condition.role, eq_comm] using hrole
    exact ⟨_, rfl⟩
  | otherwise =>
    obtain rfl : guard = .always := by simpa [Condition.role, eq_comm] using hrole
    exact ⟨_, rfl⟩
  | endIf => simp [Condition.role] at hrole

/-- The three ways in which a directive fits. -/
theorem advance_eq_some {blocks blocks' : List Block} {d : ConditionLine} :
    advance t blocks d = some blocks' ↔
      (∃ guard, d.2.role = .opens guard ∧
        blocks' = { earlier := [], current := { guard, line := d.1 },
                    enclosing := activity t blocks } :: blocks) ∨
      (∃ guard b rest, d.2.role = .continues guard ∧ blocks = b :: rest ∧
        b.current.guard ≠ .always ∧ blocks' = b.extend { guard, line := d.1 } :: rest) ∨
      ∃ b, d.2.role = .closes ∧ blocks = b :: blocks' := by
  unfold advance
  cases d.2.role with
  | opens guard => simp [eq_comm]
  | continues guard =>
    cases blocks with
    | nil => simp
    | cons b rest =>
      by_cases hlast : b.current.guard = .always
      · simp [hlast]
      · simp [hlast, Ne.symm hlast, eq_comm]
  | closes =>
    cases blocks with
    | nil => simp
    | cons b rest => simp [eq_comm]

theorem Sound.advance {blocks blocks' : List Block} {d : ConditionLine} (h : Sound t blocks)
    (hd : CanEvaluate t d) (hadvance : advance t blocks d = some blocks') : Sound t blocks' := by
  rcases advance_eq_some.mp hadvance with ⟨guard, hrole, rfl⟩ |
    ⟨guard, b, rest, hrole, rfl, -, rfl⟩ | ⟨b, -, rfl⟩
  · refine List.forall_mem_cons.mpr ⟨?_, h⟩
    exact List.forall_mem_singleton.mpr (hd.of_role (.inl hrole))
  · obtain ⟨hb, hrest⟩ := List.forall_mem_cons.mp h
    refine List.forall_mem_cons.mpr ⟨List.forall_mem_append.mpr ⟨hb, ?_⟩, hrest⟩
    exact List.forall_mem_singleton.mpr (hd.of_role (.inr hrole))
  · exact (List.forall_mem_cons.mp h).2

/-- What every directive keeps, all of them keep. -/
theorem advance_induction {P : List Block → Prop} {blocks blocks' : List Block}
    {ds : List ConditionLine}
    (hstep : ∀ d ∈ ds, ∀ {bs bs'}, P bs → Conditions.advance t bs d = some bs' → P bs')
    (h : P blocks) (hds : ds.foldlM (Conditions.advance t) blocks = some blocks') : P blocks' := by
  induction ds generalizing blocks with
  | nil =>
    cases hds
    exact h
  | cons d ds ih =>
    rw [List.foldlM_cons] at hds
    obtain ⟨next, hadvance, hds⟩ := Option.bind_eq_some_iff.mp hds
    obtain ⟨hd, hrest⟩ := List.forall_mem_cons.mp hstep
    exact ih hrest (hd h hadvance) hds

/-- Directives whose tests have no errors succeed if they fit. -/
theorem run_eq_ok {c c' : Conditions} {ds : List ConditionLine} (h : Sound t c.blocks)
    (hds : ∀ d ∈ ds, CanEvaluate t d) :
    c.run t ds = .ok c' ↔
      ∃ blocks, ds.foldlM (Conditions.advance t) c.blocks = some blocks ∧
        c' = { c with blocks } := by
  induction ds generalizing c with
  | nil => simp [run, pure, Except.pure, eq_comm]
  | cons d ds ih =>
    obtain ⟨hd, hds⟩ := List.forall_mem_cons.mp hds
    rw [run, List.foldlM_cons, bind_eq_ok, List.foldlM_cons]
    constructor
    · rintro ⟨c₁, hstep, hrun⟩
      obtain ⟨-, blocks, hadvance, rfl⟩ := step_eq_ok.mp hstep
      rw [hadvance]
      exact (ih (h.advance hd hadvance) hds).mp hrun
    · rintro ⟨blocks, hall, rfl⟩
      obtain ⟨first, hadvance, hrest⟩ := Option.bind_eq_some_iff.mp hall
      refine ⟨{ c with blocks := first }, ?_, ?_⟩
      · exact step_eq_ok.mpr ⟨fun _ _ => h.exists_isActive, first, hadvance, rfl⟩
      · exact (ih (h.advance hd hadvance) hds).mpr ⟨blocks, hrest, rfl⟩

/-! ## The stack and the grammar -/

/-- Complete blocks leave the stack as it is, and an open block lies on top of it. -/
theorem advance_of_nesting {bs : List Branch} {ds : List ConditionLine} (h : Nesting bs ds)
    (blocks : List Block) :
    (bs = [] → ds.foldlM (Conditions.advance t) blocks = some blocks) ∧
      (bs ≠ [] → ∃ b : Block, b.branches = bs ∧
        ds.foldlM (Conditions.advance t) blocks = some (b :: blocks)) := by
  induction h generalizing blocks with
  | nil => exact ⟨fun _ => rfl, fun h => absurd rfl h⟩
  | @close _ _ _ d _ _ hopen hrole ihbefore ihblock =>
    refine ⟨fun _ => ?_, fun h => absurd rfl h⟩
    obtain ⟨b, -, hblock⟩ := (ihblock blocks).2 hopen
    have hadvance : advance t (b :: blocks) d = some blocks :=
      advance_eq_some.mpr (.inr (.inr ⟨b, hrole, rfl⟩))
    simp [List.foldlM_append, (ihbefore blocks).1 rfl, hblock, hadvance]
  | @first d guard _ hrole _ ih =>
    refine ⟨fun h => absurd h (List.cons_ne_nil _ _), fun _ => ?_⟩
    let block : Block :=
      { earlier := [], current := { guard, line := d.1 }, enclosing := activity t blocks }
    have hadvance : advance t blocks d = some (block :: blocks) :=
      advance_eq_some.mpr (.inl ⟨guard, hrole, rfl⟩)
    rw [List.foldlM_cons, hadvance]
    exact ⟨block, rfl, (ih _).1 rfl⟩
  | @next bs b d guard _ _ _ hguard hrole _ ihblock ih =>
    refine ⟨fun h => by simp at h, fun _ => ?_⟩
    obtain ⟨block, hbranches, hblock⟩ := (ihblock blocks).2 (by simp)
    have hcurrent : block.current = b := by
      simpa using (List.append_inj' hbranches rfl).2
    have hadvance : advance t (block :: blocks) d =
        some (block.extend { guard, line := d.1 } :: blocks) :=
      advance_eq_some.mpr (.inr (.inl ⟨guard, block, blocks, hrole, rfl, hcurrent ▸ hguard, rfl⟩))
    refine ⟨block.extend { guard, line := d.1 }, ?_, ?_⟩
    · rw [← hbranches]
      rfl
    · rw [List.foldlM_append, hblock]
      simp only [Option.bind_eq_bind, Option.bind_some, List.foldlM_cons, hadvance]
      exact (ih _).1 rfl

theorem openBlocks_advance {outer : List (List Branch)} {ds : List ConditionLine}
    (h : OpenBlocks outer ds) :
    ∃ blocks : List Block, ds.foldlM (Conditions.advance t) [] = some blocks ∧
      blocks.map Block.branches = outer := by
  induction h with
  | none h => exact ⟨[], (advance_of_nesting h []).1 rfl, rfl⟩
  | inside _ hblock hopen ih =>
    obtain ⟨blocks, hds, rfl⟩ := ih
    obtain ⟨b, rfl, hb⟩ := (advance_of_nesting hblock blocks).2 hopen
    refine ⟨b :: blocks, ?_, rfl⟩
    rw [List.foldlM_append, hds]
    exact hb

/-- The stack holds the blocks that the directives leave open. -/
theorem advance_openBlocks {blocks : List Block} {ds : List ConditionLine}
    (h : ds.foldlM (Conditions.advance t) [] = some blocks) :
    OpenBlocks (blocks.map Block.branches) ds := by
  induction ds using List.reverseRecOn generalizing blocks with
  | nil =>
    cases h
    exact .none .nil
  | append_singleton ds d ih =>
    rw [List.foldlM_append] at h
    obtain ⟨before, hbefore, h⟩ := Option.bind_eq_some_iff.mp h
    rw [List.foldlM_cons] at h
    obtain ⟨after, hadvance, h⟩ := Option.bind_eq_some_iff.mp h
    cases h
    have hopen := ih hbefore
    rcases advance_eq_some.mp hadvance with ⟨guard, hrole, rfl⟩ |
      ⟨guard, b, rest, hrole, rfl, hguard, rfl⟩ | ⟨b, hrole, rfl⟩
    · exact hopen.opened hrole
    · exact hopen.continued hguard hrole
    · exact hopen.closed hrole

/-- Directives fit if they begin a proper nesting. -/
theorem exists_nested_append_iff {ds : List ConditionLine} :
    (∃ rest, Nested (ds ++ rest)) ↔
      ∃ blocks, ds.foldlM (Conditions.advance t) [] = some blocks := by
  constructor
  · rintro ⟨rest, h⟩
    have hall := (advance_of_nesting (t := t) h []).1 rfl
    rw [List.foldlM_append] at hall
    obtain ⟨blocks, hds, -⟩ := Option.bind_eq_some_iff.mp hall
    exact ⟨blocks, hds⟩
  · rintro ⟨blocks, hds⟩
    exact (advance_openBlocks hds).exists_nested_append

/-! ## What the flags of blocks stand for -/

/-- Every block knows whether the text around it is active. -/
def Faithful (t : SymbolTable) : List Block → Prop
  | [] => True
  | b :: rest => b.enclosing = activity t rest ∧ Faithful t rest

theorem Faithful.advance {blocks blocks' : List Block} {d : ConditionLine} (h : Faithful t blocks)
    (hadvance : advance t blocks d = some blocks') : Faithful t blocks' := by
  rcases advance_eq_some.mp hadvance with ⟨guard, -, rfl⟩ | ⟨guard, b, rest, -, rfl, -, rfl⟩ |
    ⟨b, -, rfl⟩
  · exact ⟨rfl, h⟩
  · exact ⟨h.1, h.2⟩
  · exact h.2

theorem activity_eq_true {blocks : List Block} :
    activity t blocks = true ↔ isActive { blocks } t = .ok true := by
  unfold activity
  cases isActive { blocks } t with
  | ok v => simp
  | error e => simp

/-- Lines are active where the current branch of every open block is chosen. -/
theorem isActive_eq_ok_true {c : Conditions} (h : Faithful t c.blocks) :
    c.isActive t = .ok true ↔ ∀ b ∈ c.blocks, Chosen t b.branches := by
  obtain ⟨blocks, depth⟩ := c
  induction blocks with
  | nil => simp [isActive]
  | cons b rest ih =>
    rw [List.forall_mem_cons, ← ih h.2]
    show b.isActive t = .ok true ↔ _
    rw [Block.isActive_eq_ok_true, h.1, activity_eq_true, and_comm]
    rfl

end Conditions

/-- **Blocks have their usual meaning.** Let every test have a value under fixed symbols. Then
processing succeeds on directives exactly if they begin a proper nesting. After each of them,
whether lines are active is known, and they are exactly if in every open block the current branch is
the first one whose guard holds. Directives that form complete blocks leave things as they were. -/
theorem run_iff_nested_and_isActive (t : SymbolTable) (ds : List ConditionLine)
    (hds : ∀ d ∈ ds, Conditions.CanEvaluate t d) :
    ((∃ c, Conditions.run t {} ds = .ok c) ↔ ∃ rest, Nested (ds ++ rest)) ∧
    (∀ (n : Nat) (c : Conditions), Conditions.run t {} (ds.take n) = .ok c →
      (∃ v, c.isActive t = .ok v) ∧ (∃ blocks, OpenBlocks blocks (ds.take n)) ∧
      ∀ blocks, OpenBlocks blocks (ds.take n) →
        (c.isActive t = .ok true ↔ ∀ bs ∈ blocks, Chosen t bs)) ∧
    ∀ c : Conditions, (∀ b ∈ c.blocks, Evaluable t b.branches) → Nested ds →
      c.run t ds = .ok c := by
  have hempty : Conditions.Sound t ({} : Conditions).blocks := by simp [Conditions.Sound]
  refine ⟨?_, fun n c hrun => ?_, fun c hc hnested => ?_⟩
  · rw [Conditions.exists_nested_append_iff (t := t)]
    simp only [Conditions.run_eq_ok hempty hds]
    exact ⟨fun ⟨_, blocks, h, _⟩ => ⟨blocks, h⟩, fun ⟨blocks, h⟩ => ⟨_, blocks, h, rfl⟩⟩
  · have htake : ∀ d ∈ ds.take n, Conditions.CanEvaluate t d :=
      fun d hd => hds d (List.mem_of_mem_take hd)
    obtain ⟨stack, hstack, rfl⟩ := (Conditions.run_eq_ok hempty htake).mp hrun
    have hsound : Conditions.Sound t stack :=
      Conditions.advance_induction (fun d hd _ _ h => h.advance (htake d hd)) hempty hstack
    have hnone : Conditions.Faithful t [] := trivial
    have hfaithful : Conditions.Faithful t stack :=
      Conditions.advance_induction (fun _ _ _ _ h => h.advance) hnone hstack
    refine ⟨hsound.exists_isActive, ⟨_, Conditions.advance_openBlocks hstack⟩,
      fun blocks hblocks => ?_⟩
    · obtain ⟨stack', hstack', rfl⟩ := Conditions.openBlocks_advance (t := t) hblocks
      cases hstack.symm.trans hstack'
      rw [Conditions.isActive_eq_ok_true hfaithful, List.forall_mem_map]
  · rw [Conditions.run_eq_ok hc hds]
    exact ⟨c.blocks, (Conditions.advance_of_nesting hnested c.blocks).1 rfl, rfl⟩

/-- A chain whose first branch fails and has a block of its own: the second branch is chosen, and
the branch for the other cases is not. -/
theorem run_iff_nested_and_isActive_chain :
    let line (number : Nat) : SourceLine := { file := some 0, name := "chain.asm", number }
    let t : SymbolTable := [{ name := languageName, value := some "bare", line := line 0 }]
    let test (right : String) : Test := { left := languageName, comparison := .eq, right }
    let ds : List ConditionLine :=
      [(line 1, .ifTest (test "other")), (line 2, .ifDefined "X" true), (line 3, .otherwise),
        (line 4, .endIf), (line 5, .elseIf (test "bare")), (line 6, .otherwise)]
    (∃ rest, Nested (ds ++ rest)) ∧
      (∀ blocks, OpenBlocks blocks (ds.take 5) → ∀ bs ∈ blocks, Chosen t bs) ∧
      ∀ blocks, OpenBlocks blocks ds → ¬ ∀ bs ∈ blocks, Chosen t bs := by
  intro line t test ds
  have hfails : (test "other").holds t (line 1) = .ok false := by decide +kernel
  have hholds : (test "bare").holds t (line 5) = .ok true := by decide +kernel
  have hds : ∀ d ∈ ds, Conditions.CanEvaluate t d := by
    simp [ds, Conditions.CanEvaluate, Condition.test?, hfails, hholds]
  obtain ⟨hrun, hactive, -⟩ := run_iff_nested_and_isActive t ds hds
  have hfive : ((Conditions.run t {} (ds.take 5)).map fun c => c.isActive t) = .ok (.ok true) := by
    decide +kernel
  have hall : ((Conditions.run t {} ds).map fun c => c.isActive t) = .ok (.ok false) := by
    decide +kernel
  obtain ⟨c, hc, htrue⟩ := map_eq_ok.mp hfive
  obtain ⟨c', hc', hfalse⟩ := map_eq_ok.mp hall
  refine ⟨hrun.mp ⟨c', hc'⟩, fun blocks h => ((hactive 5 c hc).2.2 blocks h).mp htrue, ?_⟩
  intro blocks h hchosen
  have hactive := ((hactive 6 c' hc').2.2 blocks h).mpr hchosen
  rw [hfalse] at hactive
  cases hactive

end Retarget
