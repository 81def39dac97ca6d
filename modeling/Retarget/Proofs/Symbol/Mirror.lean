import Mathlib.Data.List.Infix
import Retarget.Proofs.Text.Blank
import Retarget.Symbol.Test

/-!
# Tests read from the other side

A comparison is mirrored when its two sides are exchanged and `<`, `<=` become `>`, `>=`. The
evaluation of a test does not depend on the side that a text stands on: numbers, versions and texts
are compared by orders. Reading does, because only the text on the right loses its quotes. So a test
and its mirror image agree if no side is quoted, or if the quotes stand around a text that is no
number and has no symbols.

* `Comparison.holds_mirror`, `Test.compareTexts_mirror`, `Test.holds_mirror`: evaluation;
* `Test.findComparison_append`, `Test.parse_written`: reading;
* `Test.ReadsUnquoted`: sides whose quotes do not matter.
-/

namespace Retarget

namespace Text

variable {q : Char} {pattern z : List Char}

theorem occursIn_iff {cs : List Char} : occursIn pattern cs = true ↔ pattern <:+: cs := by
  induction cs with
  | nil => rw [occursIn, List.isEmpty_iff, List.infix_nil]
  | cons c cs ih =>
    rw [occursIn, Bool.or_eq_true, List.isPrefixOf_iff_prefix, ih, List.infix_cons_iff]

/-- A pattern is not found across a character that it does not have. -/
theorem occursIn_between (hq : q ∉ pattern) (hne : pattern ≠ []) :
    occursIn pattern (q :: (z ++ [q])) = occursIn pattern z := by
  rw [Bool.eq_iff_iff, occursIn_iff, occursIn_iff]
  constructor
  · intro h
    rcases List.infix_cons_iff.mp h with h | h
    · obtain ⟨c, body, rfl⟩ := List.exists_cons_of_ne_nil hne
      obtain ⟨rfl, -⟩ := List.cons_prefix_cons.mp h
      exact absurd List.mem_cons_self hq
    · rcases List.infix_concat_iff.mp h with h | h
      · rcases List.suffix_concat_iff.mp h with h | ⟨body, rfl, -⟩
        · exact absurd h hne
        · exact absurd (List.mem_append_right body List.mem_cons_self) hq
      · exact h
  · intro h
    exact h.trans ⟨[q], [q], rfl⟩

theorem unquote_between (h : isQuote q = true) (z : List Char) : unquote (q :: (z ++ [q])) = z := by
  obtain ⟨d, rest, hd⟩ := List.exists_cons_of_ne_nil (List.concat_ne_nil q z)
  have hlast : (d :: rest).getLast? = some q := by rw [← hd, List.getLast?_concat]
  have hdrop : (d :: rest).dropLast = z := by rw [← hd, List.dropLast_concat]
  rw [hd, unquote, h, hlast, hdrop, beq_self_eq_true, Bool.and_self, if_pos rfl]

end Text

namespace SymbolTable

variable {t : SymbolTable} {q : Char} {z : List Char}

/-- Quoted text is left alone. -/
theorem substitute_quoted (hz : q ∉ z) : t.substitute (some q) (z ++ [q]) = (z ++ [q], false) := by
  induction z with
  | nil =>
    rw [List.nil_append, substitute_other rfl, substitute]
  | cons c z ih =>
    obtain ⟨hc, hz⟩ := not_or.mp (mt List.mem_cons.mpr hz)
    have hopen : Text.quoteAfter (some q) c = some q := by
      rw [Text.quoteAfter, if_neg (by simpa using Ne.symm hc)]
    rw [List.cons_append, substitute_other rfl, hopen, ih hz]

theorem resolve_between (hq : Text.isQuote q = true) (hz : q ∉ z) :
    t.resolve (String.ofList (q :: (z ++ [q]))) = .ok (String.ofList (q :: (z ++ [q]))) := by
  have hfirst : t.substitute none (q :: (z ++ [q])) = (q :: (z ++ [q]), false) := by
    have hopen : Text.quoteAfter none q = some q := by rw [Text.quoteAfter, if_pos hq]
    rw [substitute_other (by rw [Text.isNameChar_of_isQuote hq]; rfl), hopen, substitute_quoted hz]
  rw [resolve_eq_ok, String.toList_ofList]
  exact settle_of_unchanged (by rw [hfirst])

end SymbolTable

/-! ## Evaluation -/

namespace Comparison

/-- The comparison with its sides exchanged. -/
def mirror : Comparison → Comparison
  | eq => eq
  | ne => ne
  | gt => lt
  | ge => le
  | lt => gt
  | le => ge

/-- How a comparison is written. -/
def written : Comparison → List Char
  | eq => ['=', '=']
  | ne => ['!', '=']
  | gt => ['>']
  | ge => ['>', '=']
  | lt => ['<']
  | le => ['<', '=']

theorem holds_mirror (op : Comparison) (o : Ordering) : op.mirror.holds o.swap = op.holds o := by
  cases op <;> cases o <;> rfl

/-- A comparison by an order holds of two things if its mirror image holds of them in the other
order. -/
theorem holds_mirror_compare {α : Type} [Ord α] [Std.OrientedOrd α] (op : Comparison) (a b : α) :
    op.mirror.holds (compare b a) = op.holds (compare a b) := by
  have hswap : compare b a = (compare a b).swap := Std.OrientedCmp.eq_swap
  rw [hswap, holds_mirror]

end Comparison

theorem Version.holds_mirror_compare (op : Comparison) (v w : Version) :
    op.mirror.holds (w.compare v) = op.holds (v.compare w) := by
  have hswap : w.compare v = (v.compare w).swap := by
    rw [Version.compare, Version.compare, Ordering.swap_then, Ordering.swap_then, Nat.compare_swap,
      Nat.compare_swap, Nat.compare_swap]
  rw [hswap, Comparison.holds_mirror]

namespace Test

variable {t : SymbolTable} {line : SourceLine} {op : Comparison} {x y : List Char}

theorem bind_map_comm {α β : Type} (f : α → α → β) (a b : Option α) :
    (a.bind fun v => b.map fun w => f v w) = b.bind fun w => a.map fun v => f v w := by
  cases a <;> cases b <;> rfl

theorem compareTexts_mirror (op : Comparison) (l r : String) :
    compareTexts op.mirror r l = compareTexts op l r := by
  simp only [compareTexts]
  generalize String.ofList (Text.unquote (Text.trim l.toList)) = l
  generalize String.ofList (Text.unquote (Text.trim r.toList)) = r
  rw [Bool.or_comm (r.toList.contains '.'), bind_map_comm _ (Version.parse r),
    bind_map_comm _ (readLiteral r)]
  simp only [Version.holds_mirror_compare, Comparison.holds_mirror_compare]

/-- The value of a text that is an expression without labels. -/
def constant? (s : String) : Option (Except ExprError Int) :=
  match Expression.parse s with
  | .ok e => if e.labels.isEmpty then some (e.eval fun _ => none) else none
  | .error _ => none

/-- What a test says about its two sides, when their symbols are replaced. -/
def verdict (line : SourceLine) (test : Test) (l r : String) : Except Error Bool :=
  if mentionsLanguage test.left || mentionsLanguage test.right then
    if hasOperator test.left || hasOperator test.right
      then Error.failAt line ConditionError.languageOperators
    else .ok (compareTexts test.comparison l r)
  else
    ((constant? l).bind fun a => (constant? r).map fun b =>
        Error.liftAt line (a.bind fun v => b.map fun w => test.comparison.holds (compare v w))).getD
      (.ok (compareTexts test.comparison l r))

theorem holds_eq (test : Test) :
    test.holds t line =
      (Error.liftAt line (t.resolve test.left)).bind fun l =>
        (Error.liftAt line (t.resolve test.right)).bind fun r => test.verdict line l r := by
  unfold holds verdict
  refine congrArg (Except.bind _) (funext fun l => congrArg (Except.bind _) (funext fun r => ?_))
  split
  · rfl
  · unfold constant?
    cases Expression.parse l with
    | error e => rfl
    | ok el =>
      cases Expression.parse r with
      | error e => dsimp only; cases el.labels.isEmpty <;> rfl
      | ok er =>
        dsimp only
        cases el.labels.isEmpty with
        | false => rfl
        | true =>
          cases er.labels.isEmpty with
          | false => rfl
          | true => cases el.eval fun _ => none <;> cases er.eval fun _ => none <;> rfl

/-- A test and its mirror image have the same truth value, or both fail. -/
theorem holds_mirror (op : Comparison) (l r : String) :
    (holds t line { left := r, comparison := op.mirror, right := l }).toOption =
      (holds t line { left := l, comparison := op, right := r }).toOption := by
  have hverdict (vl vr : String) :
      (verdict line { left := r, comparison := op.mirror, right := l } vr vl).toOption =
        (verdict line { left := l, comparison := op, right := r } vl vr).toOption := by
    unfold verdict
    dsimp only
    rw [Bool.or_comm (mentionsLanguage r), Bool.or_comm (hasOperator r), compareTexts_mirror]
    split
    · rfl
    · -- Both values are needed, so it does not matter which one fails first.
      cases constant? vl with
      | none => cases constant? vr <;> rfl
      | some a =>
        cases constant? vr with
        | none => rfl
        | some b =>
          cases a with
          | error e => cases b <;> rfl
          | ok v =>
            cases b with
            | error e => rfl
            | ok w => exact congrArg some (Comparison.holds_mirror_compare op v w)
  rw [holds_eq, holds_eq]
  dsimp only
  cases t.resolve l with
  | error e => cases t.resolve r <;> rfl
  | ok vl =>
    cases t.resolve r with
    | error e => rfl
    | ok vr => exact hverdict vl vr

/-! ## Reading -/

/-- A text that can stand on one side of a comparison. -/
structure IsSide (x : List Char) : Prop where
  ne_nil : x ≠ []
  trimmed : Text.trim x = x
  /-- No quote is left open. -/
  closed : x.foldl Text.quoteAfter none = none
  /-- There is no comparison outside quotes. -/
  single : findComparison none [] x = none

instance : DecidablePred IsSide := fun x =>
  decidable_of_iff
    (x ≠ [] ∧ Text.trim x = x ∧ x.foldl Text.quoteAfter none = none ∧
      findComparison none [] x = none)
    ⟨fun ⟨hne, htrim, hclosed, hsingle⟩ => ⟨hne, htrim, hclosed, hsingle⟩,
      fun ⟨hne, htrim, hclosed, hsingle⟩ => ⟨hne, htrim, hclosed, hsingle⟩⟩

/-- A test as it is written. -/
def written (x : List Char) (op : Comparison) (y : List Char) : List Char :=
  x ++ ' ' :: (op.written ++ ' ' :: y)

/-- The search for a comparison goes on after a character that begins none. -/
theorem findComparison_cons {c d : Char} {before rest : List Char} (hquote : Text.isQuote c = false)
    (hpair : Comparison.ofPair? c d = none) (hchar : Comparison.ofChar? c = none) :
    findComparison none before (c :: d :: rest) =
      findComparison none (c :: before) (d :: rest) := by
  have hshift : ((c == '<' || c == '>') && c == d) = false := by
    have hlt : c ≠ '<' := by rintro rfl; cases hchar
    have hgt : c ≠ '>' := by rintro rfl; cases hchar
    rw [beq_false_of_ne hlt, beq_false_of_ne hgt]
    rfl
  rw [findComparison, hquote, hshift, hpair, hchar]
  rfl

/-- The search for a comparison goes on after a text without one. -/
theorem findComparison_append {quote : Option Char} {before : List Char}
    (h : findComparison quote before x = none) (hclosed : x.foldl Text.quoteAfter quote = none)
    (rest : List Char) :
    findComparison quote before (x ++ ' ' :: rest) =
      findComparison none (x.reverse ++ before) (' ' :: rest) := by
  fun_induction findComparison quote before x with
  | case1 quote before => cases hclosed; rfl
  | case2 quote before c hquote =>
    have hafter : Text.quoteAfter quote c = none := hclosed
    rw [List.singleton_append, findComparison, hquote, Bool.true_or, if_pos rfl, hafter]
    rfl
  | case3 quote before c hquote =>
    obtain rfl : quote = none := by simpa using hquote
    have hpair : Comparison.ofPair? c ' ' = none := by unfold Comparison.ofPair?; split <;> simp_all
    have hquote : Text.isQuote c = false := by
      cases hc : Text.isQuote c with
      | false => rfl
      | true => simp [Text.quoteAfter, hc] at hclosed
    exact findComparison_cons hquote hpair (by simpa using h)
  | case4 quote before c d cs hquote ih =>
    rw [List.cons_append, List.cons_append, findComparison, hquote, if_pos rfl, ← List.cons_append,
      ih h hclosed]
    simp
  | case5 quote before c d cs hquote hshift ih =>
    obtain ⟨hnone, hc⟩ : quote = none ∧ Text.isQuote c = false := by simpa using hquote
    obtain rfl : c = d := by simpa using (Bool.and_eq_true_iff.mp hshift).2
    have hafter : cs.foldl Text.quoteAfter none = none := by
      simpa [hnone, Text.quoteAfter_none hc] using hclosed
    rw [List.cons_append, List.cons_append, findComparison, if_neg hquote, if_pos hshift,
      ih h hafter]
    simp
  | case6 => cases h
  | case7 => cases h
  | case8 quote before c d cs hquote hshift hchar hpair ih =>
    obtain ⟨rfl, hc⟩ : quote = none ∧ Text.isQuote c = false := by simpa using hquote
    have hafter : (d :: cs).foldl Text.quoteAfter none = none := by
      simpa [Text.quoteAfter_none hc] using hclosed
    rw [List.cons_append, List.cons_append, findComparison_cons hc hpair hchar, ← List.cons_append,
      ih h hafter]
    simp

theorem findComparison_written (before : List Char) (op : Comparison) (y : List Char) :
    findComparison none before (' ' :: (op.written ++ ' ' :: y)) =
      some ((' ' :: before).reverse, op, ' ' :: y) := by
  cases op <;> rfl

/-- A written test: the right side loses its quotes, and must not be empty then. -/
theorem parse_written (hx : IsSide x) (hy : IsSide y) (op : Comparison) :
    Test.parse (String.ofList (written x op y)) =
      if (Text.unquote y).isEmpty then .error (.needsOperands (String.ofList (written x op y)))
      else .ok
        { left := String.ofList x, comparison := op, right := String.ofList (Text.unquote y) } := by
  have htrim : Text.trim (written x op y) = written x op y := by
    have happend : written x op y = x ++ (' ' :: (op.written ++ [' ']) ++ y) := by simp [written]
    rw [happend]
    exact Text.trim_append_append hx.trimmed hy.trimmed hx.ne_nil hy.ne_nil _
  have hne : (written x op y).isEmpty = false := by
    rw [List.isEmpty_eq_false_iff]
    exact List.append_ne_nil_of_left_ne_nil hx.ne_nil _
  have hfind : findComparison none [] (written x op y) = some (x ++ [' '], op, ' ' :: y) := by
    rw [written, findComparison_append hx.single hx.closed, findComparison_written]
    simp
  have hleft : Text.trim (x ++ [' ']) = x := Text.trim_concat_blank rfl hx.trimmed
  have hright : Text.trim (' ' :: y) = y := by
    rw [Text.trim, Text.trimStart, List.dropWhile_cons_of_pos rfl, ← Text.trimStart,
      ← Text.trim, hy.trimmed]
  have hxne : x.isEmpty = false := List.isEmpty_eq_false_iff.mpr hx.ne_nil
  unfold Test.parse
  dsimp only
  rw [String.toList_ofList, htrim, hne, hfind]
  dsimp only
  rw [hleft, hright, hxne, Bool.false_or]
  rfl

/-! ## Quotes -/

/-- A side that is read the same with and without its quotes: it has none, or they stand around a
text that has no symbols and is no number. A character constant is a number. -/
inductive ReadsUnquoted (t : SymbolTable) : List Char → Prop
  | bare {x : List Char} (h : Text.unquote x = x) : ReadsUnquoted t x
  | quoted {q : Char} {z : List Char} (hq : Text.isQuote q = true) (hmem : q ∉ z) (hne : z ≠ [])
      (htrim : Text.trim z = z) (hunquote : Text.unquote z = z)
      (hresolve : t.resolve (String.ofList z) =
        .ok (String.ofList z)) (hnumber : constant? (String.ofList z) = none)
      (hchar : q = '\'' → constant? (String.ofList (q :: (z ++ [q]))) =
        none) : ReadsUnquoted t (q :: (z ++ [q]))

/-- A text in double quotes is no expression. -/
theorem constant?_doubleQuote (cs : List Char) : constant? (String.ofList ('"' :: cs)) = none := by
  have hscan : Token.scan ('"' :: cs) = .error (.unexpectedChar '"') := by
    rw [Token.scan, Token.scanFrom_cons (by decide)]
    rfl
  rw [constant?, Expression.parse, String.toList_ofList, hscan]
  rfl

theorem ReadsUnquoted.unquote_ne_nil (h : ReadsUnquoted t x) (hx : x ≠ []) :
    Text.unquote x ≠ [] := by
  cases h with
  | bare h => rwa [h]
  | @quoted q z hq hmem hne htrim hunquote hresolve hnumber hchar => rwa [Text.unquote_between hq]

/-- The left side may lose its quotes. -/
theorem ReadsUnquoted.holds_unquote (h : ReadsUnquoted t x) (op : Comparison) (r : String) :
    holds t line { left := String.ofList (Text.unquote x), comparison := op, right := r } =
      holds t line { left := String.ofList x, comparison := op, right := r } := by
  cases h with
  | bare h => rw [h]
  | @quoted q z hq hmem hne htrim hunquote hresolve hnumber hchar =>
    have hquotes : q = '"' ∨ q = '\'' := by simpa [Text.isQuote] using hq
    have hconstant : constant? (String.ofList (q :: (z ++ [q]))) = none := by
      rcases hquotes with rfl | hq
      · exact constant?_doubleQuote _
      · exact hchar hq
    have hlanguage : mentionsLanguage (String.ofList (q :: (z ++ [q]))) =
        mentionsLanguage (String.ofList z) := by
      simp only [mentionsLanguage, String.toList_ofList]
      apply Text.occursIn_between
      · rcases hquotes with rfl | rfl <;> decide
      · decide
    have hoperator : hasOperator (String.ofList (q :: (z ++ [q]))) =
        hasOperator (String.ofList z) := by
      rcases hquotes with rfl | rfl <;> simp [hasOperator]
    have hcompare (vr : String) :
        compareTexts op (String.ofList (q :: (z ++ [q]))) vr =
          compareTexts op (String.ofList z) vr := by
      unfold compareTexts
      rw [String.toList_ofList, String.toList_ofList, Text.trim_between hq, Text.unquote_between hq,
        htrim, hunquote]
    rw [Text.unquote_between hq, holds_eq, holds_eq]
    dsimp only
    rw [hresolve, SymbolTable.resolve_between hq hmem]
    show (Error.liftAt line (t.resolve r)).bind _ = (Error.liftAt line (t.resolve r)).bind _
    refine congrArg (Except.bind _) (funext fun vr => ?_)
    unfold verdict
    dsimp only
    rw [hlanguage, hoperator, hcompare, hnumber, hconstant]

/-- The truth value of a written test; none if it cannot be read or fails. -/
def outcome (t : SymbolTable) (line : SourceLine) (text : List Char) : Option Bool :=
  (Test.parse (String.ofList text)).toOption.bind fun test => (test.holds t line).toOption

theorem outcome_written (hx : IsSide x) (hy : IsSide y) (op : Comparison)
    (hne : Text.unquote y ≠ []) :
    outcome t line (written x op y) =
      (holds t line
        { left := String.ofList x, comparison := op,
          right := String.ofList (Text.unquote y) }).toOption := by
  rw [outcome, parse_written hx hy, if_neg (by rwa [List.isEmpty_iff])]
  rfl

end Test

/-- **Tests do not depend on the side.** A written test compares the text on its left with the text
on its right without quotes. A test and its mirror image have the same truth value, or both fail, if
both texts are read the same with and without quotes. -/
theorem test_mirror {t : SymbolTable} {line : SourceLine} {x y : List Char} (hx : Test.IsSide x)
    (hy : Test.IsSide y) (op : Comparison) :
    (Test.parse (String.ofList (Test.written x op y)) =
      if (Text.unquote y).isEmpty then .error (.needsOperands (String.ofList (Test.written x op y)))
      else .ok
        { left := String.ofList x, comparison := op, right := String.ofList (Text.unquote y) }) ∧
    (Test.ReadsUnquoted t x → Test.ReadsUnquoted t y →
      Test.outcome t line (Test.written y op.mirror x) =
        Test.outcome t line (Test.written x op y)) := by
  refine ⟨Test.parse_written hx hy op, fun hxq hyq => ?_⟩
  rw [Test.outcome_written hy hx _ (hxq.unquote_ne_nil hx.ne_nil),
    Test.outcome_written hx hy _ (hyq.unquote_ne_nil hy.ne_nil), ← hyq.holds_unquote,
    Test.holds_mirror, hxq.holds_unquote]

/-- A text in quotes and a symbol, a version in quotes and the version of the language, and two
numbers. -/
theorem test_mirror_symbols :
    let t : SymbolTable :=
      [{ name := "SPEED", value := some "fast", line := default },
        { name := "__LANGUAGE_VERSION__", value := some "0.10.1", line := default },
        { name := "N", value := some "3", line := default }]
    let agree (x : String) (op : Comparison) (y : String) (b : Bool) : Prop :=
      Test.outcome t default (Test.written y.toList op.mirror x.toList) = some b ∧
        Test.outcome t default (Test.written x.toList op y.toList) = some b
    agree "SPEED" .eq "\"fast\"" true ∧ agree "__LANGUAGE_VERSION__" .ge "'0.9'" true ∧
      agree "(N << 2) - 1" .lt "N * N" false := by
  intro t agree
  have hagree {x y : String} (op : Comparison) {b : Bool} (hx : Test.IsSide x.toList)
      (hy : Test.IsSide y.toList)
      (hxq : Test.ReadsUnquoted t x.toList) (hyq : Test.ReadsUnquoted t y.toList)
      (h : Test.outcome t default (Test.written x.toList op y.toList) = some b) : agree x op y b :=
    ⟨((test_mirror hx hy op).2 hxq hyq).trans h, h⟩
  have hfast : Test.ReadsUnquoted t "\"fast\"".toList :=
    .quoted (q := '"') (z := "fast".toList) rfl (by decide) (by decide) (by decide) (by decide)
      (by decide +kernel) (by decide +kernel) (by decide)
  have hversion : Test.ReadsUnquoted t "'0.9'".toList :=
    .quoted (q := '\'') (z := "0.9".toList) rfl (by decide) (by decide) (by decide) (by decide)
      (by decide +kernel) (by decide +kernel) (fun _ => by decide +kernel)
  refine ⟨hagree .eq ?_ ?_ (.bare ?_) hfast ?_, hagree .ge ?_ ?_ (.bare ?_) hversion ?_,
    hagree .lt ?_ ?_ (.bare ?_) (.bare ?_) ?_⟩
  all_goals decide +kernel

/-- A character constant, a symbol in quotes and an open quote are read in another way on the
right. -/
theorem test_depends_on_side_of_quotes :
    let t : SymbolTable := [{ name := "FOO", value := some "1", line := default }]
    let outcome (x y : String) := Test.outcome t default (Test.written x.toList .eq y.toList)
    (outcome "'a'" "97" = some true ∧ outcome "97" "'a'" = some false) ∧
      (outcome "\"FOO\"" "1" = some false ∧ outcome "1" "\"FOO\"" = some true) ∧
      (outcome "'" "1" = some true ∧ outcome "1" "'" = some false) := by
  decide +kernel

end Retarget
