import Retarget.Proofs.Assembly.Lines
import Retarget.Proofs.Symbol.History

/-!
# Branches of a source file

Only conditional directives change the open blocks of a file, and they do so one line at a time. So
reading a file makes a history of its blocks, whatever else its lines do: define symbols, include
files or open scopes.

* `Loading.loadLine_follows`: what a line does to the blocks;
* `SourceText.Reads`: the states of a file between its lines;
* `SourceText.Reads.history`: its history up to a line.
-/

namespace Retarget

namespace Loading

variable {l : Loading} {tree : FileTree} {search : List Place} {load : Include} {line : SourceLine}

/-! ## What a line does to the blocks -/

/-- The same blocks are open. -/
def SameBlocks (l l' : Loading) : Prop := l'.conditions.blocks = l.conditions.blocks

/-- The blocks stay as they are, or they change as for a conditional directive of the line. -/
def Follows (l : Loading) (line : SourceLine) (l' : Loading) : Prop :=
  l.SameBlocks l' ∨ ∃ c : Condition,
    Conditions.advance l.session.symbols l.conditions.blocks (line, c) = some l'.conditions.blocks

theorem process_follows (d : Directive) :
    Gives (fun r => l.Follows line r.1) (l.process tree search load line d).result := by
  intro r hr
  rcases process_eq_ok hr with ⟨name, -, hinclude⟩ |
    ⟨c, conditions, -, hprocess, rfl⟩ | ⟨hsteady, -⟩
  · obtain ⟨l', place, loaded, hwarn, -, -, -, rfl⟩ := includeFile_eq_ok hinclude
    exact .inl (warnMuted_steady hwarn).keeps.blocks_eq
  · refine .inr ⟨c, ?_⟩
    have hstep : l.conditions.step l.session.symbols (line, c) = .ok conditions := by
      rw [Conditions.step, hprocess]
    obtain ⟨-, blocks, hadvance, rfl⟩ := Conditions.step_eq_ok.mp hstep
    exact hadvance
  · exact .inl hsteady.keeps.blocks_eq

theorem loadLine_follows (number : Nat) (src : List Char) :
    Gives (fun r => l.Follows (l.lineAt number) r.1)
      (l.loadLine tree search load number src).result := by
  intro r hr
  rcases loadLine_eq_ok hr with ⟨d, l', items, -, hprocess, rfl⟩ | ⟨text, comment, muted, rfl⟩ |
    ⟨items, -, htrack⟩
  · exact process_follows d (l', items) hprocess
  · exact .inl rfl
  · exact .inl (trackAll_keeps items r htrack).blocks_eq

/-- The next line is active. -/
def IsActive (l : Loading) : Prop := l.conditions.isActive l.session.symbols = .ok true

/-! ## Lines one after the other -/

theorem result_loadLines_append (number : Nat) (lines more : List (List Char)) :
    (l.loadLines tree search load number (lines ++ more)).result = (do
      let (l, items) ← (l.loadLines tree search load number lines).result
      let (l, others) ← (l.loadLines tree search load (number + lines.length) more).result
      return (l, items ++ others)) := by
  induction lines generalizing l number with
  | nil =>
    rw [List.nil_append]
    show _ = (l.loadLines tree search load number more).result >>= _
    cases (l.loadLines tree search load number more).result <;> rfl
  | cons src rest ih =>
    have hnumber : number + (src :: rest).length = number + 1 + rest.length := by
      rw [List.length_cons]
      omega
    rw [List.cons_append, loadLines, loadLines, hnumber]
    simp only [Report.result_bind, ih, bind_assoc]
    refine bind_congr fun r => bind_congr fun r' => ?_
    simp only [pure, Report.pure, ok_bind]
    refine bind_congr fun r'' => ?_
    simp only [Except.pure, ok_bind, List.append_assoc]

end Loading

/-- A file to be loaded: where included files are looked for and how they are loaded, the session,
the place of the file and its lines. -/
structure SourceText where
  tree : FileTree
  search : List Place
  load : Loading.Include
  session : Session
  place : Place
  lines : List (List Char)

namespace SourceText

/-- Loading the first lines, as `Loading.loadFile` does. -/
def readUpTo (f : SourceText) (k : Nat) : Except Error (Loading × List Item) :=
  ((Loading.start f.session f.place).loadLines f.tree f.search f.load 1 (f.lines.take k)).result

/-- The file before the line after the first `k` ones, if these can be loaded. -/
def Reads (f : SourceText) (k : Nat) (l : Loading) : Prop := ∃ items, f.readUpTo k = .ok (l, items)

variable {f : SourceText} {j k : Nat} {l l' : Loading}

theorem Reads.blocks_zero (h : f.Reads 0 l) : l.conditions.blocks = [] := by
  obtain ⟨items, h⟩ := h
  rw [readUpTo, List.take_zero] at h
  cases h
  rfl

/-- Before a line is read, those before it are. -/
theorem Reads.exists_step (h : f.Reads (k + 1) l') :
    ∃ l, f.Reads k l ∧ (f.lines[k]? = none ∧ l' = l ∨ ∃ src items, f.lines[k]? = some src ∧
      (l.loadLine f.tree f.search f.load (k + 1) src).result = .ok (l', items)) := by
  obtain ⟨items, h⟩ := h
  unfold readUpTo at h
  by_cases hk : k < f.lines.length
  · have hnumber : 1 + (f.lines.take k).length = k + 1 := by
      rw [List.length_take_of_le (Nat.le_of_lt hk), Nat.add_comm]
    rw [List.take_succ_eq_append_getElem hk, Loading.result_loadLines_append, hnumber] at h
    obtain ⟨⟨l, items₀⟩, hbefore, h⟩ := bind_eq_ok.mp h
    obtain ⟨after, hafter, h⟩ := bind_eq_ok.mp h
    obtain ⟨⟨l₁, items₁⟩, hline, hafter⟩ := Report.result_bind_eq_ok.mp hafter
    cases hafter
    cases pure_eq_ok.mp h
    exact ⟨l, ⟨items₀, hbefore⟩, .inr ⟨_, items₁, List.getElem?_eq_getElem hk, hline⟩⟩
  · -- There is no such line: the file has been read to its end.
    have hend : f.lines.take (k + 1) = f.lines.take k := by
      rw [List.take_of_length_le (by omega), List.take_of_length_le (by omega)]
    rw [hend] at h
    exact ⟨l', ⟨items, h⟩, .inl ⟨List.getElem?_eq_none (Nat.not_lt.mp hk), rfl⟩⟩

theorem Reads.exists_before (h : f.Reads (k + 1) l') :
    ∃ l, f.Reads k l ∧ ∃ line : SourceLine, line.number = k + 1 ∧ l.Follows line l' := by
  obtain ⟨l, hl, ⟨-, rfl⟩ | ⟨src, items, -, hline⟩⟩ := h.exists_step
  · exact ⟨l', hl, { file := none, name := "", number := k + 1 }, rfl, .inl rfl⟩
  · exact ⟨l, hl, l.lineAt (k + 1), rfl, Loading.loadLine_follows _ _ _ hline⟩

theorem Reads.exists_of_le (hk : f.Reads k l') (hjk : j ≤ k) : ∃ l, f.Reads j l := by
  induction hjk generalizing l' with
  | refl => exact ⟨l', hk⟩
  | step _ ih =>
    obtain ⟨l, hl, -⟩ := hk.exists_before
    exact ih hl

/-- What is known of the file before a line, and `default` if lines before it cannot be loaded. -/
def known {α : Type} (f : SourceText) (default : α) (view : Loading → α) (k : Nat) : α :=
  match f.readUpTo k with
  | .ok r => view r.1
  | .error _ => default

theorem Reads.known_eq {α : Type} {default : α} {view : Loading → α} (h : f.Reads k l) :
    f.known default view k = view l := by
  obtain ⟨items, h⟩ := h
  rw [known, h]

/-- The history of a file up to a line. -/
def Reads.history (h : f.Reads k l) : History where
  count := k
  blocks := f.known [] fun l => l.conditions.blocks
  symbols := f.known [] fun l => l.session.symbols
  blocks_zero := by
    obtain ⟨l₀, hl₀⟩ := h.exists_of_le (Nat.zero_le k)
    rw [hl₀.known_eq, hl₀.blocks_zero]
  step := by
    intro n hn
    obtain ⟨after, hafter⟩ := h.exists_of_le hn
    obtain ⟨before, hbefore, line, hnumber, hfollows⟩ := hafter.exists_before
    rw [hafter.known_eq, hbefore.known_eq, hbefore.known_eq]
    rcases hfollows with hsame | ⟨c, hadvance⟩
    · exact .inl hsame
    · exact .inr ⟨(line, c), hnumber, hadvance⟩

theorem Reads.history_blocks (hk : f.Reads k l') (hj : f.Reads j l) :
    hk.history.blocks j = l.conditions.blocks := by
  simp only [history, hj.known_eq]

theorem Reads.history_symbols (hk : f.Reads k l') (hj : f.Reads j l) :
    hk.history.symbols j = l.session.symbols := by
  simp only [history, hj.known_eq]

theorem Reads.history_active (hk : f.Reads k l') (hj : f.Reads j l) :
    hk.history.Active j ↔ l.IsActive := by
  rw [History.Active, hk.history_blocks hj, hk.history_symbols hj, Conditions.activity_eq_true]
  rfl

/-- A moment of the history of a file is a line of it. -/
theorem Reads.exists_of_history (hk : f.Reads k l') {P : List Block → SymbolTable → Prop} {m : Nat}
    (hm : m ≤ k) (h : P (hk.history.blocks m) (hk.history.symbols m)) :
    ∃ l, f.Reads m l ∧ P l.conditions.blocks l.session.symbols := by
  obtain ⟨l, hl⟩ := hk.exists_of_le hm
  rw [hk.history_blocks hl, hk.history_symbols hl] at h
  exact ⟨l, hl, h⟩

end SourceText

/-- **When two branches of a block count, and when a branch stops counting.** Take two lines of a
file that stand in the same block, at any depth, the first of which is active. If the second one is
active too, they belong to the same branch, unless the guard of the branch of the first line has
stopped holding: it held at a line of that branch and fails at a later line, of the other branch. If
the lines are at the level of the block and in the same branch, the second one is active exactly if
all guards of the block so far have kept their values. -/
theorem active_lines_of_block (f : SourceText) (j k : Nat) (l l' : Loading) (b b' : Block)
    (hj : f.Reads j l) (hk : f.Reads k l') (hjk : j ≤ k) (hb : b ∈ l.conditions.blocks)
    (hb' : b' ∈ l'.conditions.blocks) (hopening : b.opening = b'.opening) (hactive : l.IsActive) :
    (l'.IsActive → b.current = b'.current ∨
      (∃ m ≤ j, ∃ early, f.Reads m early ∧ early.conditions.blocks.head? = some b ∧
        b.current.holds early.session.symbols = .ok true) ∧
      ∃ m ≤ k, j < m ∧ ∃ late, f.Reads m late ∧ late.conditions.blocks.head? = some b' ∧
        b.current.holds late.session.symbols = .ok false) ∧
    (l.conditions.blocks.head? = some b → l'.conditions.blocks.head? = some b' →
      b.current = b'.current → (l'.IsActive ↔ ∀ branch ∈ b.branches,
        branch.holds l'.session.symbols = branch.holds l.session.symbols)) := by
  have hcount : k ≤ hk.history.count := Nat.le_refl k
  have hactive_j := (hk.history_active hj).mpr hactive
  rw [← hk.history_blocks hj] at hb ⊢
  rw [← hk.history_blocks hk] at hb' ⊢
  refine ⟨fun hactive' => ?_, fun hhead hhead' hcurrent => ?_⟩
  · have hactive_k := (hk.history_active hk).mpr hactive'
    rcases History.current_eq_or_fails hjk hcount hb hb' hopening hactive_j hactive_k with hsame |
      ⟨⟨m, hm, hholds⟩, m', hm', hlater, hfails⟩
    · exact .inl hsame
    · refine .inr ⟨⟨m, hm, ?_⟩, m', hm', hlater, ?_⟩
      · exact hk.exists_of_history (P := fun blocks t => blocks.head? = some b ∧
          b.current.holds t = .ok true) (Nat.le_trans hm hjk) hholds
      · exact hk.exists_of_history (P := fun blocks t => blocks.head? = some b' ∧
          b.current.holds t = .ok false) hm' hfails
  · rw [← hk.history_active hk, ← hk.history_symbols hj, ← hk.history_symbols hk]
    exact History.active_iff_kept hjk hcount hhead hhead' hopening hcurrent hactive_j

/-- A file of its own, without others to include. -/
def SourceText.alone (lines : List String) : SourceText where
  tree := default
  search := []
  load := fun s place line => Loading.loadFile default [] 0 s place (some line)
  session :=
    { isa := Isa.bare { size := 8, segment := 8, order := .big } (by decide) (by decide),
      options := {},
      scopes := .empty, named := [], zones := default, symbols := [], files := [], warnings := [] }
  place := ["main.asm"]
  lines := lines.map String.toList

/-- Lines that are loaded, with the blocks they leave open. -/
theorem SourceText.exists_reads {f : SourceText} {k : Nat} {blocks : List Block} {v : Bool}
    (h : ((f.readUpTo k).map fun r =>
      (r.1.conditions.blocks, r.1.conditions.isActive r.1.session.symbols)) = .ok (blocks, .ok v)) :
    ∃ l, f.Reads k l ∧ l.conditions.blocks = blocks ∧ (l.IsActive ↔ v = true) := by
  obtain ⟨⟨l, items⟩, hread, hview⟩ := map_eq_ok.mp h
  obtain ⟨hblocks, hactive⟩ := Prod.mk.inj hview
  refine ⟨l, ⟨items, hread⟩, hblocks, ?_⟩
  rw [Loading.IsActive, hactive, Except.ok.injEq]

/-- A block for the case that a symbol is not defined, which defines it. Its lines up to there and
those of the other branch count, and between them the guard has stopped holding. -/
theorem active_lines_of_block_guard :
    let f := SourceText.alone ["#ifndef GUARD", "#define GUARD", "", "#else", "", "#endif"]
    let line (number : Nat) : SourceLine := { file := some 0, name := "main.asm", number }
    let first : Branch := { guard := .defined "GUARD" true, line := line 1 }
    let b : Block := { earlier := [], current := first, enclosing := true }
    let b' : Block := b.extend { guard := .always, line := line 4 }
    (∃ m ≤ 1, ∃ l, f.Reads m l ∧ l.conditions.blocks.head? = some b ∧
        first.holds l.session.symbols = .ok true) ∧
      ∃ m ≤ 4, 1 < m ∧ ∃ l, f.Reads m l ∧ l.conditions.blocks.head? = some b' ∧
        first.holds l.session.symbols = .ok false := by
  intro f line first b b'
  obtain ⟨l, hread, hblocks, hactive⟩ : ∃ l, f.Reads 1 l ∧ l.conditions.blocks = [b] ∧
    (l.IsActive ↔ true = true) := SourceText.exists_reads (by decide +kernel)
  obtain ⟨l', hread', hblocks', hactive'⟩ : ∃ l, f.Reads 4 l ∧ l.conditions.blocks = [b'] ∧
    (l.IsActive ↔ true = true) := SourceText.exists_reads (by decide +kernel)
  have hbranches :=
    (active_lines_of_block f 1 4 l l' b b' hread hread' (by decide) (by simp [hblocks])
    (by simp [hblocks']) rfl (hactive.mpr rfl)).1 (hactive'.mpr rfl)
  exact hbranches.resolve_left (by decide)

/-- In such a block the line of the definition counts and the one after it in the same branch does
not, but the other branch does. -/
theorem guard_block_counts_twice :
    let f := SourceText.alone ["#ifndef GUARD", "#define GUARD", "", "#else", "", "#endif"]
    ∃ (l₁ l₂ l₄ : Loading) (b b' : Block), f.Reads 1 l₁ ∧ f.Reads 2 l₂ ∧ f.Reads 4 l₄ ∧
      l₁.conditions.blocks = [b] ∧ l₂.conditions.blocks = [b] ∧ l₄.conditions.blocks = [b'] ∧
      b.opening = b'.opening ∧ b.current ≠ b'.current ∧
      l₁.IsActive ∧ ¬ l₂.IsActive ∧ l₄.IsActive := by
  intro f
  let line (number : Nat) : SourceLine := { file := some 0, name := "main.asm", number }
  let b : Block :=
    { earlier := [], current := { guard := .defined "GUARD" true, line := line 1 },
      enclosing := true }
  let b' : Block := b.extend { guard := .always, line := line 4 }
  obtain ⟨l₁, hread₁, hblocks₁, hactive₁⟩ : ∃ l, f.Reads 1 l ∧ l.conditions.blocks = [b] ∧
    (l.IsActive ↔ true = true) := SourceText.exists_reads (by decide +kernel)
  obtain ⟨l₂, hread₂, hblocks₂, hactive₂⟩ : ∃ l, f.Reads 2 l ∧ l.conditions.blocks = [b] ∧
    (l.IsActive ↔ false = true) := SourceText.exists_reads (by decide +kernel)
  obtain ⟨l₄, hread₄, hblocks₄, hactive₄⟩ : ∃ l, f.Reads 4 l ∧ l.conditions.blocks = [b'] ∧
    (l.IsActive ↔ true = true) := SourceText.exists_reads (by decide +kernel)
  exact ⟨l₁, l₂, l₄, b, b', hread₁, hread₂, hread₄, hblocks₁, hblocks₂, hblocks₄, rfl, by decide,
    hactive₁.mpr rfl, fun h => Bool.false_ne_true (hactive₂.mp h), hactive₄.mpr rfl⟩

end Retarget
