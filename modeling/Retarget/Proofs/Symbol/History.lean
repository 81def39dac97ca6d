import Mathlib.Data.List.Nodup
import Retarget.Proofs.Symbol.Nesting

/-!
# Blocks while symbols change

Guards are looked at anew for every line, so a definition inside a block can change which branch of
it is chosen. What the blocks of a file do while its lines are read is kept as a history: the open
blocks and the symbols before every line. Symbols may change in any way from line to line.

* `History.induct`: an invariant of the open blocks, from line to line;
* `History.Ordered`: lines tell branches and blocks apart;
* `History.exists_extends`: a block that stays open only gets more branches;
* `History.exists_active_innermost`: a line is active only if each block around it had a line of its
  own that was active, in the same branch;
* `History.current_eq_or_fails`: two branches of a block have active lines only if the guard of the
  first one stops holding;
* `History.active_iff_kept`: a branch stays active as long as the guards of its block keep their
  values.
-/

namespace Retarget

namespace Block

variable {b b' : Block}

theorem branches_ne_nil (b : Block) : b.branches ≠ [] := by simp [branches]

theorem current_mem_branches (b : Block) : b.current ∈ b.branches := by simp [branches]

/-- The line that opened the block. -/
def opening (b : Block) : SourceLine := (b.branches.head b.branches_ne_nil).line

theorem opening_eq_of_append {more : List Branch} (h : b'.branches = b.branches ++ more) :
    b'.opening = b.opening := by
  simp only [opening, h, List.head_append_of_ne_nil b.branches_ne_nil]

theorem opening_extend (b : Block) (branch : Branch) : (b.extend branch).opening = b.opening :=
  opening_eq_of_append rfl

/-- The block goes on, with branches from lines after the first `j` ones. -/
structure Extends (j : Nat) (b b' : Block) : Prop where
  enclosing_eq : b'.enclosing = b.enclosing
  branches_eq : ∃ more, b'.branches = b.branches ++ more ∧ ∀ branch ∈ more, j < branch.line.number

namespace Extends

variable {j : Nat}

theorem refl (j : Nat) (b : Block) : Extends j b b := ⟨rfl, [], by simp, by simp⟩

theorem extend {branch : Branch} (h : Extends j b b') (hline : j < branch.line.number) :
    Extends j b (b'.extend branch) := by
  obtain ⟨more, hbranches, hmore⟩ := h.branches_eq
  refine ⟨h.enclosing_eq, more ++ [branch], ?_, ?_⟩
  · rw [← List.append_assoc, ← hbranches]
    rfl
  · exact List.forall_mem_append.mpr ⟨hmore, List.forall_mem_singleton.mpr hline⟩

theorem opening_eq (h : Extends j b b') : b'.opening = b.opening := by
  obtain ⟨more, hbranches, -⟩ := h.branches_eq
  exact opening_eq_of_append hbranches

/-- Either nothing has been added, or the current branch is an earlier one by now. -/
theorem eq_or_current_mem (h : Extends j b b') :
    b' = b ∨ b.current ∈ b'.earlier ∧ j < b'.current.line.number := by
  obtain ⟨more, hbranches, hmore⟩ := h.branches_eq
  rcases List.eq_nil_or_concat more with rfl | ⟨more, last, rfl⟩
  · left
    rw [List.append_nil] at hbranches
    obtain ⟨hearlier, hcurrent⟩ := List.append_inj' hbranches rfl
    cases b
    cases b'
    cases hearlier
    cases hcurrent
    cases h.enclosing_eq
    rfl
  · right
    rw [List.concat_eq_append, ← List.append_assoc] at hbranches
    obtain ⟨hearlier, hcurrent⟩ := List.append_inj' hbranches rfl
    cases hcurrent
    rw [hearlier]
    exact ⟨by simp [branches], hmore _ (by simp)⟩

end Extends

end Block

/-- The open blocks and the symbols before each line of a file, of which `count` have been read.
Lines count from one, and a line other than a conditional directive leaves the blocks as they
are. -/
structure History where
  count : Nat
  blocks : Nat → List Block
  symbols : Nat → SymbolTable
  blocks_zero : blocks 0 = []
  step : ∀ k < count, blocks (k + 1) = blocks k ∨ ∃ d : ConditionLine, d.1.number = k + 1 ∧
    Conditions.advance (symbols k) (blocks k) d = some (blocks (k + 1))

namespace History

variable {h : History} {j k : Nat} {b b' : Block} {rest : List Block}

/-- The line after the first `k` ones is active. -/
def Active (h : History) (k : Nat) : Prop := Conditions.activity (h.symbols k) (h.blocks k) = true

theorem active_iff (hhead : (h.blocks k).head? = some b) :
    h.Active k ↔ b.enclosing = true ∧ Chosen (h.symbols k) b.branches := by
  obtain ⟨rest, hblocks⟩ := List.head?_eq_some_iff.mp hhead
  rw [Active, Conditions.activity_eq_true, hblocks]
  exact Block.isActive_eq_ok_true

/-! ## From line to line -/

/-- A property of the open blocks that every line keeps. -/
theorem induct {P : Nat → List Block → Prop} (hjk : j ≤ k) (hk : k ≤ h.count)
    (start : P j (h.blocks j)) (same : ∀ n bs, P n bs → P (n + 1) bs)
    (opens : ∀ n (branch : Branch), j ≤ n → branch.line.number = n + 1 → P n (h.blocks n) →
      P (n + 1) ({ earlier := [], current := branch,
                   enclosing := Conditions.activity (h.symbols n) (h.blocks n) } :: h.blocks n))
    (continues : ∀ n b rest (branch : Branch), j ≤ n → branch.line.number = n + 1 →
      P n (b :: rest) → P (n + 1) (b.extend branch :: rest))
    (closes : ∀ n b rest, P n (b :: rest) → P (n + 1) rest) : P k (h.blocks k) := by
  induction hjk with
  | refl => exact start
  | @step n hjn ih =>
    have hP := ih (by omega)
    rcases h.step n (by omega) with hsame | ⟨d, hnumber, hadvance⟩
    · rw [hsame]
      exact same n _ hP
    · rcases Conditions.advance_eq_some.mp hadvance with ⟨guard, -, hblocks⟩ |
        ⟨guard, b, rest, -, hbefore, -, hblocks⟩ | ⟨b, -, hbefore⟩
      · rw [hblocks]
        exact opens n _ hjn hnumber hP
      · rw [hbefore] at hP
        rw [hblocks]
        exact continues n b rest _ hjn hnumber hP
      · rw [hbefore] at hP
        exact closes n b _ hP

/-- Lines tell branches and blocks apart. -/
structure Ordered (k : Nat) (blocks : List Block) : Prop where
  number_le : ∀ b ∈ blocks, ∀ branch ∈ b.branches, branch.line.number ≤ k
  opening_lt : blocks.Pairwise fun inner outer => outer.opening.number < inner.opening.number

namespace Ordered

variable {blocks : List Block}

theorem opening_le (h : Ordered k blocks) (hb : b ∈ blocks) : b.opening.number ≤ k :=
  h.number_le b hb _ (List.head_mem _)

theorem succ (h : Ordered k blocks) : Ordered (k + 1) blocks :=
  ⟨fun b hb branch hbranch => Nat.le_succ_of_le (h.number_le b hb branch hbranch), h.opening_lt⟩

theorem eq_of_opening_eq (h : Ordered k blocks) (hb : b ∈ blocks) (hb' : b' ∈ blocks)
    (hopening : b.opening = b'.opening) : b = b' := by
  have hnodup : (blocks.map fun b => b.opening.number).Nodup :=
    List.pairwise_map.mpr (h.opening_lt.imp Nat.ne_of_gt)
  exact List.inj_on_of_nodup_map hnodup hb hb' (congrArg SourceLine.number hopening)

end Ordered

theorem ordered (hk : k ≤ h.count) : Ordered k (h.blocks k) := by
  refine induct (P := Ordered) (Nat.zero_le k) hk ?_ (fun _ _ => Ordered.succ) ?_ ?_ ?_
  · rw [h.blocks_zero]
    exact ⟨by simp, .nil⟩
  · intro n branch _ hnumber ih
    refine ⟨List.forall_mem_cons.mpr ⟨?_, ih.succ.number_le⟩,
      List.pairwise_cons.mpr ⟨?_, ih.opening_lt⟩⟩
    · exact List.forall_mem_singleton.mpr (Nat.le_of_eq hnumber)
    · intro outer houter
      calc outer.opening.number ≤ n := ih.opening_le houter
        _ < branch.line.number := by omega
  · intro n b rest branch _ hnumber ih
    obtain ⟨hb, hrest⟩ := List.forall_mem_cons.mp ih.succ.number_le
    obtain ⟨houter, hpairs⟩ := List.pairwise_cons.mp ih.opening_lt
    refine ⟨List.forall_mem_cons.mpr ⟨?_, hrest⟩, List.pairwise_cons.mpr ⟨?_, hpairs⟩⟩
    · exact List.forall_mem_append.mpr ⟨hb, List.forall_mem_singleton.mpr (Nat.le_of_eq hnumber)⟩
    · rwa [Block.opening_extend]
  · intro n b rest ih
    exact ⟨(List.forall_mem_cons.mp ih.succ.number_le).2, (List.pairwise_cons.mp ih.opening_lt).2⟩

/-- An open block has been opened since, or it goes on with a block that was open before. -/
theorem exists_extends (hjk : j ≤ k) (hk : k ≤ h.count) :
    ∀ b' ∈ h.blocks k, j < b'.opening.number ∨ ∃ b ∈ h.blocks j, b.Extends j b' := by
  refine induct (P := fun _ blocks => ∀ b' ∈ blocks, j < b'.opening.number ∨
    ∃ b ∈ h.blocks j, b.Extends j b') hjk hk ?_ (fun _ _ => id) ?_ ?_ ?_
  · exact fun b hb => .inr ⟨b, hb, .refl j b⟩
  · intro n branch hjn hnumber ih
    refine List.forall_mem_cons.mpr ⟨.inl ?_, ih⟩
    show j < branch.line.number
    omega
  · intro n b rest branch hjn hnumber ih
    obtain ⟨hb, hrest⟩ := List.forall_mem_cons.mp ih
    refine List.forall_mem_cons.mpr ⟨?_, hrest⟩
    rw [Block.opening_extend]
    rcases hb with hsince | ⟨before, hbefore, hextends⟩
    · exact .inl hsince
    · exact .inr ⟨before, hbefore, hextends.extend (by omega)⟩
  · intro n b rest ih
    exact (List.forall_mem_cons.mp ih).2

theorem extends_of_opening_eq (hjk : j ≤ k) (hk : k ≤ h.count) (hb : b ∈ h.blocks j)
    (hb' : b' ∈ h.blocks k) (hopening : b.opening = b'.opening) : b.Extends j b' := by
  have hordered := ordered (Nat.le_trans hjk hk)
  rcases exists_extends hjk hk b' hb' with hsince | ⟨before, hbefore, hextends⟩
  · have hle := hordered.opening_le hb
    rw [hopening] at hle
    omega
  · cases hordered.eq_of_opening_eq hb hbefore (hopening.trans hextends.opening_eq)
    exact hextends

/-! ## Active lines -/

/-- Every open block was opened at some line, and remembers whether that line was active. -/
theorem exists_opened (hk : k ≤ h.count) (hsuffix : b :: rest <:+ h.blocks k) :
    ∃ m < k, h.blocks m = rest ∧ (b.enclosing = true ↔ h.Active m) := by
  refine induct (P := fun k blocks => ∀ b rest, b :: rest <:+ blocks →
    ∃ m < k, h.blocks m = rest ∧
      (b.enclosing = true ↔ h.Active m)) (Nat.zero_le k) hk ?_ ?_ ?_ ?_ ?_
    b rest hsuffix
  · rw [h.blocks_zero]
    intro b rest hsuffix
    exact absurd (List.suffix_nil.mp hsuffix) (List.cons_ne_nil _ _)
  · intro n blocks ih b rest hsuffix
    obtain ⟨m, hm, hopened⟩ := ih b rest hsuffix
    exact ⟨m, by omega, hopened⟩
  · intro n branch _ _ ih b rest hsuffix
    rcases List.suffix_cons_iff.mp hsuffix with heq | hsuffix
    · cases heq
      exact ⟨n, by omega, rfl, Iff.rfl⟩
    · obtain ⟨m, hm, hopened⟩ := ih b rest hsuffix
      exact ⟨m, by omega, hopened⟩
  · intro n top outer branch _ _ ih b rest hsuffix
    rcases List.suffix_cons_iff.mp hsuffix with heq | hsuffix
    · cases heq
      obtain ⟨m, hm, hopened⟩ := ih top outer (List.suffix_refl _)
      exact ⟨m, by omega, hopened⟩
    · obtain ⟨m, hm, hopened⟩ := ih b rest (hsuffix.trans (List.suffix_cons _ _))
      exact ⟨m, by omega, hopened⟩
  · intro n top outer ih b rest hsuffix
    obtain ⟨m, hm, hopened⟩ := ih b rest (hsuffix.trans (List.suffix_cons _ _))
    exact ⟨m, by omega, hopened⟩

/-- Around an active line, every block had an active line of its own in the same branch. -/
theorem exists_active_innermost (hk : k ≤ h.count) (hb : b ∈ h.blocks k) (hactive : h.Active k) :
    ∃ m ≤ k, (h.blocks m).head? = some b ∧ h.Active m := by
  -- From a block inside `b` go back to the line that opened it, where fewer blocks are open.
  induction k using Nat.strongRecOn with
  | ind k ih =>
    cases hblocks : h.blocks k with
    | nil => simp [hblocks] at hb
    | cons inner rest =>
      have hhead : (h.blocks k).head? = some inner := by rw [hblocks, List.head?_cons]
      rw [hblocks] at hb
      rcases List.mem_cons.mp hb with rfl | hb
      · exact ⟨k, Nat.le_refl k, hhead, hactive⟩
      · have henclosing := ((active_iff hhead).mp hactive).1
        have hsuffix : inner :: rest <:+ h.blocks k := ⟨[], by rw [hblocks, List.nil_append]⟩
        obtain ⟨m, hm, hrest, hopened⟩ := exists_opened hk hsuffix
        obtain ⟨m', hm', h'⟩ := ih m hm (by omega) (hrest ▸ hb) (hopened.mp henclosing)
        exact ⟨m', by omega, h'⟩

/-- **Two branches of a block have active lines only if the guard of the first one stops holding**,
between a line of the first branch and a later one of the second branch. -/
theorem current_eq_or_fails (hjk : j ≤ k) (hk : k ≤ h.count) (hb : b ∈ h.blocks j)
    (hb' : b' ∈ h.blocks k) (hopening : b.opening = b'.opening) (hactive : h.Active j)
    (hactive' : h.Active k) :
    b.current = b'.current ∨
      (∃ m ≤ j, (h.blocks m).head? = some b ∧ b.current.holds (h.symbols m) = .ok true) ∧
      ∃ m ≤ k, j < m ∧ (h.blocks m).head? = some b' ∧
        b.current.holds (h.symbols m) = .ok false := by
  rcases (extends_of_opening_eq hjk hk hb hb' hopening).eq_or_current_mem
    with rfl | ⟨hearlier, hlater⟩
  · exact .inl rfl
  · right
    obtain ⟨m, hm, hhead, hm_active⟩ := exists_active_innermost (Nat.le_trans hjk hk) hb hactive
    obtain ⟨m', hm', hhead', hm_active'⟩ := exists_active_innermost hk hb' hactive'
    obtain ⟨-, hholds⟩ := chosen_append_singleton.mp ((active_iff hhead).mp hm_active).2
    obtain ⟨hfails, -⟩ := chosen_append_singleton.mp ((active_iff hhead').mp hm_active').2
    -- The current branch of `b'` is read after line `j`, so where it is innermost is after `j` too.
    have hread := (ordered (Nat.le_trans hm' hk)).number_le b' (List.mem_of_head? hhead') b'.current
      b'.current_mem_branches
    exact ⟨⟨m, hm, hhead, hholds⟩, m', hm', by omega, hhead', hfails b.current hearlier⟩

/-- **A branch stays active as long as the guards of its block keep their values.** -/
theorem active_iff_kept (hjk : j ≤ k) (hk : k ≤ h.count) (hhead : (h.blocks j).head? = some b)
    (hhead' : (h.blocks k).head? = some b') (hopening : b.opening = b'.opening)
    (hcurrent : b.current = b'.current) (hactive : h.Active j) :
    h.Active k ↔ ∀ branch ∈ b.branches, branch.holds (h.symbols k) =
      branch.holds (h.symbols j) := by
  have hb := List.mem_of_head? hhead
  have hsame : b' = b := by
    rcases (extends_of_opening_eq hjk hk hb (List.mem_of_head? hhead') hopening).eq_or_current_mem
      with hsame | ⟨-, hlater⟩
    · exact hsame
    · have hle := (ordered (Nat.le_trans hjk hk)).number_le b hb b.current b.current_mem_branches
      rw [hcurrent] at hle
      omega
  subst hsame
  obtain ⟨henclosing, hchosen⟩ := (active_iff hhead).mp hactive
  rw [active_iff hhead', henclosing, eq_self_iff_true, true_and]
  exact hchosen.iff_holds_eq

end History

end Retarget
