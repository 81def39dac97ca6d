import Retarget.Proofs.Expr.Printing
import Retarget.Proofs.Text.Blank
import Retarget.Symbol.Directive

/-!
# Lines with directives

A directive is read from its word and from what follows it. The word stands directly after the
number sign, of which there may be more than one, and ends at the first blank.

* `Directive.parse_of_sharp`: which word is taken, and what is left;
* `Directive.readsCondition_iff`: exactly six words make a line conditional, well-formed or not;
* `Directive.parse_written`: a line from its word, with any blanks around its parts.
-/

namespace Retarget

/-- Blanks, at least one. -/
abbrev Gap := { cs : List Char // cs ≠ [] ∧ ∀ c ∈ cs, Text.isBlank c = true }

namespace Directive

variable {src body rest : List Char} {line : SourceLine} {word : String} {level : Nat}
  {color : Option Color}

/-- The word of a directive. `body` is what follows its first number sign. -/
def wordOf (body : List Char) : String :=
  String.ofList (Text.splitWord (body.dropWhile fun c => c == '#')).1

/-- What follows the word of a directive, without the blanks around it. -/
def restOf (body : List Char) : List Char :=
  Text.trim ((Text.splitWord (body.dropWhile fun c => c == '#')).2.getD [])

/-- A directive, conditional or not, from its word and what follows it. -/
def read (line : SourceLine) (word : String) (rest : List Char) : Except Error Directive :=
  if Condition.isWord word
    then (Error.liftAt line (Condition.parse word (String.ofList rest))).map condition
  else Error.liftAt line (parseWord word rest)

theorem parse_of_sharp (h : Text.trim src = '#' :: body) :
    parse (String.ofList src) line = read line (wordOf body) (restOf body) := by
  unfold parse read wordOf restOf
  dsimp only
  rw [String.toList_ofList, h]
  rfl

/-! ## Conditional directives -/

/-- The line is read as a conditional directive, well-formed or not. -/
def ReadsCondition (src : List Char) (line : SourceLine) : Prop :=
  (∃ c, parse (String.ofList src) line = .ok (.condition c)) ∨
    ∃ e : ConditionError, parse (String.ofList src) line = Error.failAt line e

theorem onlyQuoted_map_ne {make : String → Directive} {c : Condition}
    (hmake : ∀ s, make s ≠ .condition c) :
    (onlyQuoted word rest).map make ≠ .ok (.condition c) := by
  intro h
  obtain ⟨s, -, h⟩ := map_eq_ok.mp h
  exact hmake s h

theorem parsePrint_ne (c : Condition) : parsePrint level color rest ≠ .ok (.condition c) := by
  fun_induction parsePrint level color rest with
  | case1 => exact fun h => by cases h
  | case2 => exact onlyQuoted_map_ne fun _ h => by cases h
  | case3 => exact fun h => by cases h
  | case4 level color d rest hquote level' color' hword ih => exact ih

/-- Other words give other directives. -/
theorem parseWord_ne (c : Condition) : parseWord word rest ≠ .ok (.condition c) := by
  unfold parseWord
  split
  case h_7 => exact parsePrint_ne c
  case h_1 | h_8 | h_11 | h_12 => exact onlyQuoted_map_ne fun _ h => by cases h
  case h_6 =>
    split
    · exact fun h => by cases h
    · exact onlyQuoted_map_ne fun _ h => by cases h
  case h_2 =>
    intro h
    dsimp only at h
    split at h <;> cases h
  case h_10 =>
    intro h
    split at h
    · cases h
    · dsimp only at h
      split at h
      · cases h
      · split at h <;> cases h
  all_goals
    intro h
    repeat' split at h
    all_goals cases h

/-- A line is conditional if its word is one of the six. -/
theorem readsCondition_iff (h : Text.trim src = '#' :: body) :
    ReadsCondition src line ↔ Condition.isWord (wordOf body) = true := by
  rw [ReadsCondition, parse_of_sharp h, read]
  constructor
  · intro hread
    by_contra hword
    rw [if_neg hword] at hread
    rcases hread with ⟨c, hread⟩ | ⟨e, hread⟩
    · exact parseWord_ne c (Error.liftAt_eq_ok.mp hread)
    · cases hparse : parseWord (wordOf body) (restOf body) with
      | ok d =>
        rw [hparse] at hread
        cases hread
      | error e' =>
        rw [hparse] at hread
        cases hread
  · intro hword
    rw [if_pos hword]
    cases Condition.parse (wordOf body) (String.ofList (restOf body)) with
    | ok c => exact .inl ⟨c, rfl⟩
    | error e => exact .inr ⟨e, rfl⟩

/-! ## Writing -/

/-- Whether a word can be the word of a directive. -/
def isDirectiveWord (word : String) : Bool :=
  !word.toList.isEmpty && word.toList.head? != some '#' && word.toList.all fun c => !Text.isBlank c

/-- A directive as it is written, with blanks before it. -/
def written (lead : Blanks) (word : String) (gap : Gap) (rest : List Char) : String :=
  String.ofList (lead.1 ++ '#' :: (word.toList ++ (gap.1 ++ rest)))

/-- What follows the word of a directive is read without the blanks around it. -/
theorem parse_written (hword : isDirectiveWord word = true) (hrest : Text.trim rest ≠ [])
    (lead : Blanks) (gap : Gap) :
    parse (written lead word gap rest) line = read line word (Text.trim rest) := by
  obtain ⟨gap, hne, hblank⟩ := gap
  obtain ⟨d, gap, rfl⟩ := List.exists_cons_of_ne_nil hne
  obtain ⟨hd, hblank⟩ := List.forall_mem_cons.mp hblank
  obtain ⟨⟨hword, hsharp⟩, hplain⟩ :
      (word.toList ≠ [] ∧ word.toList.head? ≠ some '#') ∧ ∀ c ∈ word.toList,
        Text.isBlank c = false := by
    simpa [isDirectiveWord] using hword
  obtain ⟨c, w, hw⟩ := List.exists_cons_of_ne_nil hword
  have hend : Text.trimEnd rest ≠ [] := by
    intro hnil
    rw [← Text.trimStart_trimEnd, hnil] at hrest
    exact hrest rfl
  have htrim : Text.trim (lead.1 ++ '#' :: (word.toList ++ (d :: gap ++ rest))) =
      '#' :: (word.toList ++ d :: (gap ++ Text.trimEnd rest)) := by
    rw [Text.trim_blanks_append lead.2, Text.trim_cons rfl, ← List.append_assoc,
      Text.trimEnd_append hend]
    simp
  have hdrop (x : List Char) : (word.toList ++ x).dropWhile (fun c => c == '#') =
      word.toList ++ x := by
    have hc : c ≠ '#' := by simpa [hw] using hsharp
    rw [hw, List.cons_append, List.dropWhile_cons_of_neg (by simpa using hc)]
  rw [written, parse_of_sharp htrim, wordOf, restOf, hdrop, Text.splitWord_append hplain hd]
  dsimp only
  rw [Option.getD_some, Text.trim_blanks_append hblank, Text.trim_trimEnd, String.ofList_toList]

end Directive

end Retarget
