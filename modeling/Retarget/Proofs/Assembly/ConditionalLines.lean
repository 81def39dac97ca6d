import Retarget.Proofs.Assembly.Inert
import Retarget.Proofs.Symbol.Directive

/-!
# Conditional directives in inactive blocks

Whether a line counts in an inactive block is decided by its first word after one number sign. What
it is read as depends on the word directly after all number signs. The two words are the same if the
line has one number sign and no blank after it, and such a line opens, continues and closes blocks
in every region alike. A conditional directive with more number signs is left out in inactive blocks
only, and one with a blank after the number sign is refused.

* `Text.head?_words`: the first word of a text;
* `Directive.firstWord_eq`: when the two words are the same;
* `Loading.loadLine_of_conditional`: a conditional directive in an inactive block;
* `Loading.loadLine_blocks`: other lines leave all blocks as they are.
-/

namespace Retarget

namespace Text

variable {c : Char} {cs run : List Char}

/-- A word that has been begun goes on up to the first blank. -/
theorem head?_wordsFrom (h : run ≠ []) :
    (wordsFrom run cs).head? = some (run.reverse ++ cs.takeWhile fun c => !isBlank c) := by
  induction cs generalizing run with
  | nil => simp [wordsFrom, h]
  | cons c cs ih =>
    rw [wordsFrom]
    cases hc : isBlank c with
    | true => simp [h, hc]
    | false => simp [ih, hc]

theorem head?_words (hc : isBlank c = false) :
    (words (c :: cs)).head? = some ((c :: cs).takeWhile fun c => !isBlank c) := by
  rw [words, wordsFrom, if_neg (by simp [hc]), head?_wordsFrom (by simp)]
  simp [hc]

end Text

namespace Directive

variable {src body : List Char} {c : Char}

/-- The word of a directive, if any, stands directly after its only number sign. -/
def IsTight (body : List Char) : Prop := ∀ c ∈ body.head?, Text.isBlank c = false ∧ c ≠ '#'

theorem splitWord_fst (cs : List Char) :
    (Text.splitWord cs).1 = cs.takeWhile fun c => !Text.isBlank c := by
  rw [Text.splitWord]
  split <;> rfl

theorem firstWord_eq (h : IsTight body) : firstWord body = wordOf body := by
  rw [firstWord, wordOf, splitWord_fst]
  cases body with
  | nil => rfl
  | cons c cs =>
    obtain ⟨hblank, hsharp⟩ := h c rfl
    rw [Text.head?_words hblank, List.dropWhile_cons_of_neg (by simpa using hsharp),
      Option.getD_some]

/-- The word before a blank is empty. -/
theorem wordOf_of_isBlank (hc : Text.isBlank c = true) : wordOf (c :: body) = "" := by
  have hsharp : c ≠ '#' := Text.ne_of_isBlank hc (by decide)
  rw [wordOf, splitWord_fst, List.dropWhile_cons_of_neg (by simpa using hsharp),
    List.takeWhile_cons_of_neg (by simp [hc])]

/-- No word of a conditional directive starts with a number sign. -/
theorem isWord_firstWord_sharp (body : List Char) :
    Condition.isWord (firstWord ('#' :: body)) = false := by
  have hall : ∀ word ∈ ["if", "elif", "else", "endif", "ifdef", "ifndef"],
      word.toList.head? ≠ some '#' := by decide
  rw [firstWord, Text.head?_words (by decide), Option.getD_some,
    List.takeWhile_cons_of_pos (by decide), Bool.eq_false_iff]
  intro hword
  exact hall _ (List.contains_iff_mem.mp hword) (by rw [String.toList_ofList]; rfl)

theorem isConditional_eq (h : Text.trim src = '#' :: body) :
    isConditional src = Condition.isWord (firstWord body) := by
  simp only [isConditional, h]

/-- A line that is not tight and counts in inactive blocks has a blank after its number sign. -/
theorem wordOf_of_not_tight (htight : ¬ IsTight body)
    (hfirst : Condition.isWord (firstWord body) = true) : wordOf body = "" := by
  cases body with
  | nil => cases hfirst
  | cons c body =>
    by_cases hc : Text.isBlank c = true
    · exact wordOf_of_isBlank hc
    · have hsharp : c = '#' := by
        by_contra hsharp
        refine htight ?_
        rintro d ⟨⟩
        exact ⟨Bool.eq_false_iff.mpr hc, hsharp⟩
      rw [hsharp, isWord_firstWord_sharp] at hfirst
      cases hfirst

/-- The two tests agree on tight lines, and on those that neither of them takes. -/
theorem isConditional_iff_readsCondition (h : Text.trim src = '#' :: body) (line : SourceLine) :
    (isConditional src = true ↔ ReadsCondition src line) ↔
      IsTight body ∨ isConditional src = false ∧ ¬ ReadsCondition src line := by
  rw [isConditional_eq h, readsCondition_iff h]
  by_cases htight : IsTight body
  · simp [firstWord_eq htight, htight]
  · cases hfirst : Condition.isWord (firstWord body) with
    | false => simp [htight]
    | true =>
      have hword : Condition.isWord (wordOf body) = false := by
        rw [wordOf_of_not_tight htight hfirst]
        rfl
      simp [htight, hword]

end Directive

namespace Loading

variable {l : Loading} {tree : FileTree} {search : List Place} {load : Include} {number : Nat}
  {src body : List Char}

/-- A line that counts in an inactive block is loaded as in an active one. -/
theorem loadLine_of_conditional (h : Text.trim src = '#' :: body) (hinactive : l.IsInactive)
    (hcounts : Directive.isConditional src = true) :
    l.loadLine tree search load number src =
      l.loadDirective tree search load (l.lineAt number) true src body := by
  have hword : Condition.isWord (String.ofList ((Text.words body).head?.getD [])) = true := by
    rwa [Directive.isConditional_eq h] at hcounts
  rw [loadLine_of_sharp h, hinactive, Report.ofExcept_ok_bind]
  unfold loadDirective
  dsimp only
  rw [hword, Bool.or_true, Bool.or_true]

theorem loadDirective_of_error {line : SourceLine} {e : Error}
    (h : Directive.parse (String.ofList src) line = .error e) :
    l.loadDirective tree search load line true src body = Report.fail e := by
  unfold loadDirective
  dsimp only
  rw [Bool.true_or, if_pos rfl, h, Report.ofExcept_error_bind]

/-- A line that is not read as a conditional directive leaves all blocks as they are. -/
theorem loadLine_blocks (h : ¬ Directive.ReadsCondition src (l.lineAt number)) :
    Gives (fun r => r.1.conditions.blocks =
      l.conditions.blocks) (l.loadLine tree search load number src).result := by
  intro r hr
  rcases loadLine_eq_ok hr with ⟨d, l', items, ⟨body, active, -, -, -, hparse⟩, hprocess, rfl⟩ |
    ⟨text, comment, muted, rfl⟩ | ⟨items, -, htrack⟩
  · rcases process_eq_ok hprocess with ⟨name, -, hinclude⟩ |
      ⟨c, conditions, rfl, -, -⟩ | ⟨hsteady, -⟩
    · obtain ⟨l₁, place, loaded, hwarn, -, -, -, hresume⟩ := includeFile_eq_ok hinclude
      cases hresume
      exact (warnMuted_steady hwarn).keeps.blocks_eq
    · exact absurd (.inl ⟨c, hparse⟩) h
    · exact hsteady.keeps.blocks_eq
  · rfl
  · exact (trackAll_keeps items r htrack).blocks_eq

end Loading

/-- **Conditional directives in every region.** The test for inactive blocks and the reading of a
line agree on what is a conditional directive exactly if the line is tight or is none for both. A
tight conditional directive is loaded in an inactive block as in an active one, and lines that are
read as something else change no block in either. A conditional directive that is not tight is left
out in inactive blocks, and what only the test takes for one is refused. -/
theorem conditional_lines_in_every_region {src body : List Char} (h : Text.trim src = '#' :: body)
    (l : Loading) (tree : FileTree) (search : List Place) (load : Loading.Include) (number : Nat) :
    let line := l.lineAt number
    ((Directive.isConditional src = true ↔ Directive.ReadsCondition src line) ↔
      Directive.IsTight body ∨ Directive.isConditional src = false ∧
        ¬ Directive.ReadsCondition src line) ∧
    (Directive.IsTight body → Directive.ReadsCondition src line → l.IsInactive →
      l.loadLine tree search load number src =
        l.loadDirective tree search load line true src body) ∧
    (¬ Directive.ReadsCondition src line →
      Gives (fun r => r.1.conditions.blocks =
        l.conditions.blocks) (l.loadLine tree search load number src).result) ∧
    (¬ Directive.IsTight body → Directive.ReadsCondition src line → l.IsInactive →
      ∃ item : Item, item.compilable = false ∧
        l.loadLine tree search load number src = pure (l, [item])) ∧
    (Directive.isConditional src = true → ¬ Directive.ReadsCondition src line → l.IsInactive →
      l.loadLine tree search load number src =
        Report.fail (Error.ofCauseAt line (DirectiveError.unknown ""))) := by
  intro line
  have hagree := Directive.isConditional_iff_readsCondition h line
  refine ⟨hagree, ?_, fun hreads => Loading.loadLine_blocks hreads, ?_, ?_⟩
  · intro htight hreads hinactive
    exact Loading.loadLine_of_conditional h hinactive ((hagree.mpr (.inl htight)).mpr hreads)
  · intro htight hreads hinactive
    have hcounts : Directive.isConditional src = false := by
      by_contra hcounts
      rcases hagree.mp (iff_of_true (by simpa using hcounts) hreads) with htight' | ⟨-, hreads'⟩
      · exact htight htight'
      · exact hreads' hreads
    obtain ⟨item, hitem, hload⟩ := Loading.loadLine_of_inactive hinactive hcounts number
    exact ⟨item, hitem, hload tree search load⟩
  · intro hcounts hreads hinactive
    have htight : ¬ Directive.IsTight body :=
      fun htight => hreads ((hagree.mpr (.inl htight)).mp hcounts)
    have hword : Directive.wordOf body = "" :=
      Directive.wordOf_of_not_tight htight (by rwa [Directive.isConditional_eq h] at hcounts)
    rw [Loading.loadLine_of_conditional h hinactive hcounts]
    refine Loading.loadDirective_of_error ?_
    rw [Directive.parse_of_sharp h, hword]
    rfl

/-- In an inactive block, a directive between blanks that goes on with another branch. -/
theorem conditional_lines_in_every_region_branch :
    let src := " #elif 1 ".toList
    ∃ l : Loading, (∃ b, l.conditions.blocks = [b]) ∧ l.IsInactive ∧
      Directive.isConditional src = true ∧
      ∀ tree search load,
        l.loadLine tree search load 2 src =
          l.loadDirective tree search load (l.lineAt 2) true src "elif 1".toList := by
  intro src
  let b : Block :=
    { earlier := []
      current := { guard := .test { left := "0", comparison := .ne, right := "0" },
                   line := { file := some 0, name := "main.asm", number := 1 } }
      enclosing := true }
  obtain ⟨⟨l, items⟩, -, hview⟩ :=
    map_eq_ok.mp (show (((SourceText.alone ["#if 0"]).readUpTo 1).map fun r =>
    (r.1.conditions.blocks, r.1.conditions.isActive r.1.session.symbols)) =
      .ok ([b], .ok false) by decide +kernel)
  obtain ⟨hblocks, hinactive⟩ := Prod.mk.inj hview
  have htrim : Text.trim src = '#' :: "elif 1".toList := by decide
  have hreads : Directive.ReadsCondition src (l.lineAt 2) :=
    (Directive.readsCondition_iff htrim).mpr (by decide)
  have htight : Directive.IsTight "elif 1".toList := by
    rintro c ⟨⟩
    decide
  refine ⟨l, ⟨b, hblocks⟩, hinactive, by decide, fun tree search load => ?_⟩
  exact (conditional_lines_in_every_region htrim l tree search load 2).2.1 htight hreads hinactive

/-- With two number signs the end of a block is read as such, and closes it in the first text only:
in the second one the block is inactive. -/
theorem number_signs_close_active_blocks :
    let openBlocks (text : List String) : Except Error Nat :=
      ((SourceText.alone text).readUpTo text.length).map fun r => r.1.conditions.blocks.length
    Directive.isConditional "##endif".toList = false ∧
    Directive.parse "##endif" default = .ok (.condition .endIf) ∧
    openBlocks ["#if 1", "##endif"] = .ok 0 ∧ openBlocks ["#if 0", "##endif"] = .ok 1 := by
  decide +kernel

end Retarget
