import Retarget.Proofs.Expr.Lexeme
import Retarget.Proofs.Symbol.Comparison
import Retarget.Proofs.Symbol.Mirror
import Retarget.Proofs.Symbol.Resolution

/-!
# Tests of numbers

A test of two expressions without labels compares their values. The comparison is found by its
characters alone, before the expressions are read: the search passes over the shift operators of the
left one and must not take the comparison and what follows it for another shift.

* `Test.Numeric`: the texts that are compared as numbers;
* `Test.findComparison_arithmetic`, `Test.findComparison_numeric`: the search for the comparison;
* `Test.parse_numeric`, `Test.holds_numeric`: reading and evaluation.
-/

namespace Retarget

namespace Text

variable {x cs w : List Char}

theorem unquote_of_forall (h : ∀ c ∈ x, isQuote c = false) : unquote x = x := by
  unfold unquote
  split
  · rename_i c d rest
    rw [h c List.mem_cons_self, Bool.false_and, if_neg Bool.false_ne_true]
  · rfl

/-- The words of a text are still its words with blanks around it. -/
theorem HasWord.of_trim (h : HasWord none (trim cs) w) : HasWord none cs w := by
  obtain ⟨lead, tail, heq, hlead, htail⟩ := exists_blanks cs
  obtain ⟨before, after, htrim, hw, hopen, hbefore, hafter⟩ := h
  refine ⟨lead ++ before, after ++ tail, ?_, hw, ?_, ?_, hafter.append ?_⟩
  · rw [htrim] at heq
    rw [heq]
    simp only [List.append_assoc]
  · rw [List.foldl_append, foldl_quoteAfter fun c hc => isQuote_of_isBlank (hlead c hc), hopen]
  · intro c hc
    rw [List.getLast?_append] at hc
    cases hlast : before.getLast? with
    | none =>
      rw [hlast] at hc
      exact isNameChar_of_isBlank (hlead c (List.mem_of_getLast? hc))
    | some d =>
      rw [hlast] at hc
      cases hc
      exact hbefore _ hlast
  · exact fun c hc => isNameChar_of_isBlank (htail c (List.mem_of_mem_head? hc))

end Text

/-! ## Expressions do not begin with an operator -/

/-- Tokens that an expression can begin with. -/
def Token.BeginsValue : Token → Prop
  | number .. | label _ | .open | lsb | byte _ | op .sub => True
  | _ => False

theorem ParseTree.exists_first {n : Nat} (d : ParseTree n) :
    ∃ t ts, d.tokens = t :: ts ∧ t.BeginsValue := by
  cases d with
  | number text value => exact ⟨_, _, rfl, trivial⟩
  | label name => exact ⟨_, _, rfl, trivial⟩
  | closed opening inner => cases opening <;> exact ⟨_, _, rfl, trivial⟩
  | neg operand => exact ⟨_, _, rfl, trivial⟩
  | joined first more =>
    obtain ⟨t, ts, htokens, ht⟩ := first.exists_first
    exact ⟨t, ts ++ more.tokens, by rw [ParseTree.tokens, htokens, List.cons_append], ht⟩

namespace Test

variable {t : SymbolTable} {line : SourceLine} {l r s : String} {e el er : Expression} {c : Char}
  {x rest before : List Char}

/-! ## Texts that are compared as numbers -/

/-- A text that is an expression without labels and quotes, and in which no symbol is replaced. -/
structure Numeric (t : SymbolTable) (s : String) (e : Expression) : Prop where
  parse : Expression.parse s = .ok e
  labels : e.term.labels = []
  quotes : ∀ c ∈ s.toList, Text.isQuote c = false
  words : ∀ w, Text.HasWord none s.toList w → ¬ ∃ v, t.HasText w v

namespace Numeric

theorem quote_notMem (h : Numeric t s e) : '\'' ∉ s.toList := fun hmem => by
  have hquote := h.quotes _ hmem
  cases hquote

theorem parse_strip (h : Numeric t s e) : Expression.parse (Text.strip s) = .ok e := by
  rw [Expression.parse_strip h.quote_notMem, h.parse]

theorem exists_tree (h : Numeric t s e) :
    ∃ d : ParseTree 4, Token.scan (Text.trim s.toList) = .ok d.tokens ∧ d.term = e.term := by
  obtain ⟨d, hscan, rfl⟩ := Expression.parse_eq_ok.mp h.parse_strip
  rw [Text.strip, String.toList_ofList] at hscan
  exact ⟨d, hscan, rfl⟩

theorem arithmetic (h : Numeric t s e) : Text.Arithmetic (Text.trim s.toList) := by
  obtain ⟨d, hscan, hterm⟩ := h.exists_tree
  refine Token.arithmetic_of_scanFrom hscan (fun name hname => ?_) fun hmem => ?_
  · rw [← d.mem_labels, hterm, h.labels] at hname
    cases hname
  · exact h.quote_notMem ((Text.trim_sublist _).subset hmem)

theorem trim_ne_nil (h : Numeric t s e) : Text.trim s.toList ≠ [] := by
  obtain ⟨d, hscan, -⟩ := h.exists_tree
  obtain ⟨first, ts, htokens, -⟩ := d.exists_first
  intro hnil
  rw [hnil, htokens, Token.scan, Token.scanFrom_nil] at hscan
  cases hscan

/-- An expression does not begin with a comparison, nor with a shift operator. -/
theorem head_ne (h : Numeric t s e) :
    ∀ c ∈ (Text.trim s.toList).head?, c ≠ '<' ∧ c ≠ '>' ∧ c ≠ '=' := by
  obtain ⟨d, hscan, -⟩ := h.exists_tree
  obtain ⟨first, ts, htokens, hfirst⟩ := d.exists_first
  have harithmetic := h.arithmetic
  intro c hc
  generalize Text.trim s.toList = x at hscan harithmetic hc
  cases harithmetic with
  | nil => cases hc
  | char hloud _ =>
    cases hc
    simp only [Text.loudChars, List.mem_cons, not_or] at hloud
    exact ⟨hloud.1, hloud.2.1, hloud.2.2.1⟩
  | @shift d cs hshift _ =>
    have hnext : ∃ op : BinOp, op ≠ .sub ∧ Token.next false d (d :: cs) = .ok (.op op, cs) := by
      rcases hshift with rfl | rfl
      · exact ⟨.shl, by decide, rfl⟩
      · exact ⟨.shr, by decide, rfl⟩
    obtain ⟨op, hop, hnext⟩ := hnext
    have hblank : Text.isBlank d = false := by rcases hshift with rfl | rfl <;> rfl
    rw [Token.scan, Token.scanFrom_cons hblank, hnext, ok_bind, htokens] at hscan
    obtain ⟨ts', -, heq⟩ := bind_eq_ok.mp hscan
    cases heq
    cases op <;> first | exact absurd rfl hop | cases hfirst

theorem resolve_strip (h : Numeric t s e) : t.resolve (Text.strip s) = .ok (Text.strip s) := by
  have hunchanged : (t.substitute none (Text.trim s.toList)).2 = false := by
    rw [Bool.eq_false_iff, ne_eq, SymbolTable.substitute_changed_iff .none]
    rintro ⟨w, hw, hv⟩
    exact h.words w hw.of_trim hv
  rw [SymbolTable.resolve_eq_ok, Text.strip, String.toList_ofList]
  exact SymbolTable.settle_of_unchanged hunchanged

theorem constant?_strip (h : Numeric t s e) :
    constant? (Text.strip s) = some (e.eval fun _ => none) := by
  have hlabels : e.labels.isEmpty = true := by rw [Expression.labels, h.labels]; rfl
  rw [constant?, h.parse_strip]
  dsimp only
  rw [if_pos hlabels]

theorem mentionsLanguage_strip (h : Numeric t s e) : mentionsLanguage (Text.strip s) = false := by
  simp only [mentionsLanguage, Text.strip, String.toList_ofList]
  rw [Bool.eq_false_iff, ne_eq, Text.occursIn_iff]
  intro hoccurs
  have hmem : '_' ∈ "__LANGUAGE_".toList := by decide
  exact h.arithmetic.underscore_notMem (hoccurs.subset hmem)

end Numeric

theorem numeric_zero (t : SymbolTable) : Numeric t "0" { text := "0", term := .number 0 } where
  parse := by decide +kernel
  labels := rfl
  quotes := by simp [Text.isQuote]
  words := by
    rintro w hw ⟨v, hname, -⟩
    have hzero : Text.IsWord ['0'] := ⟨by decide, List.forall_mem_singleton.mpr rfl⟩
    rcases (Text.hasWord_word_append hzero .nil).mp hw with rfl | hw
    · revert hname
      decide
    · exact Text.not_hasWord_nil hw

/-! ## Reading -/

/-- The search goes on after a character that is not loud. -/
theorem findComparison_of_notMem (hc : c ∉ Text.loudChars) (before rest : List Char) :
    findComparison none before (c :: rest) = findComparison none (c :: before) rest := by
  simp only [Text.loudChars, List.mem_cons, List.not_mem_nil, or_false, not_or] at hc
  obtain ⟨hlt, hgt, heq, hne, hdouble, hsingle, -⟩ := hc
  have hchar : Comparison.ofChar? c = none := by
    unfold Comparison.ofChar?
    split <;> simp_all
  have hpair (d : Char) : Comparison.ofPair? c d = none := by
    unfold Comparison.ofPair?
    split <;> simp_all
  have hquote : Text.isQuote c = false := by simp [Text.isQuote, hdouble, hsingle]
  cases rest with
  | nil => simp only [findComparison, hchar, Option.map_none, ite_self]
  | cons d rest => exact findComparison_cons hquote (hpair d) hchar

/-- The search passes over an expression, with all its shift operators. -/
theorem findComparison_arithmetic (hx : Text.Arithmetic x) (before rest : List Char) :
    findComparison none before (x ++ rest) = findComparison none (x.reverse ++ before) rest := by
  induction hx generalizing before with
  | nil => rfl
  | char hc _ ih =>
    rw [List.cons_append, findComparison_of_notMem hc, ih]
    simp
  | @shift c cs hc _ ih =>
    have hquote : Text.isQuote c = false := by rcases hc with rfl | rfl <;> rfl
    have hshift : ((c == '<' || c == '>') && c == c) = true := by simpa using hc
    rw [List.cons_append, List.cons_append, findComparison, if_neg (by simp [hquote]),
      if_pos hshift, ih]
    simp

/-- A comparison is found, unless it and what follows are taken for another operator. -/
theorem findComparison_written_append (op : Comparison) (before : List Char)
    (hrest : ∀ d ∈ rest.head?, d ≠ '<' ∧ d ≠ '>' ∧ d ≠ '=') :
    findComparison none before (op.written ++ rest) = some (before.reverse, op, rest) := by
  have hsingle {c : Char} {op : Comparison} (hc : c = '<' ∨
      c = '>') (hop : Comparison.ofChar? c = some op) :
      findComparison none before (c :: rest) = some (before.reverse, op, rest) := by
    cases rest with
    | nil => rw [findComparison, hop]; rfl
    | cons d rest =>
      obtain ⟨hlt, hgt, heq⟩ := hrest d rfl
      have hquote : Text.isQuote c = false := by rcases hc with rfl | rfl <;> rfl
      have hshift : ((c == '<' || c == '>') && c == d) = false := by
        rcases hc with rfl | rfl
        · exact beq_false_of_ne (Ne.symm hlt)
        · exact beq_false_of_ne (Ne.symm hgt)
      have hpair : Comparison.ofPair? c d = none := by
        unfold Comparison.ofPair?
        split <;> simp_all
      rw [findComparison, if_neg (by simp [hquote]), hshift, hpair, hop]
      rfl
  cases op with
  | gt => exact hsingle (.inr rfl) rfl
  | lt => exact hsingle (.inl rfl) rfl
  | eq | ne | ge | le => rfl

/-- The comparison between two expressions is found, with or without blanks around it. -/
theorem findComparison_numeric (hl : Numeric t l el) (hr : Numeric t r er) (op : Comparison)
    {gap gap' : List Char} (hgap : ∀ c ∈ gap, Text.isBlank c = true)
    (hgap' : ∀ c ∈ gap', Text.isBlank c = true) :
    findComparison none [] (Text.trim l.toList ++
      (gap ++ (op.written ++ gap') ++ Text.trim r.toList)) =
      some (Text.trim l.toList ++ gap, op, gap' ++ Text.trim r.toList) := by
  have hhead : ∀ d ∈ (gap' ++ Text.trim r.toList).head?, d ≠ '<' ∧ d ≠ '>' ∧ d ≠ '=' := by
    cases gap' with
    | nil => exact hr.head_ne
    | cons d gap' =>
      have hd := hgap' d List.mem_cons_self
      rintro _ ⟨⟩
      exact ⟨Text.ne_of_isBlank hd rfl, Text.ne_of_isBlank hd rfl, Text.ne_of_isBlank hd rfl⟩
  have hblanks : Text.Arithmetic gap :=
    .of_forall fun c hc => Text.notMem_loudChars_of_isBlank (hgap c hc)
  have hsearch := findComparison_arithmetic (hl.arithmetic.append hblanks) []
    (op.written ++ (gap' ++ Text.trim r.toList))
  rw [findComparison_written_append op _ hhead] at hsearch
  simpa only [List.append_assoc, List.append_nil, List.reverse_reverse] using hsearch

/-- **A comparison of two expressions is read as such,** with or without blanks around the
operator. -/
theorem parse_numeric (hl : Numeric t l el) (hr : Numeric t r er) (op : Comparison)
    (gap gap' : Blanks) :
    Test.parse (String.ofList (l.toList ++ gap.1 ++ (op.written ++ (gap'.1 ++ r.toList)))) =
      .ok { left := Text.strip l, comparison := op, right := Text.strip r } := by
  obtain ⟨lead, tail, hleft, hlead, htail⟩ := Text.exists_blanks l.toList
  obtain ⟨lead', tail', hright, hlead', htail'⟩ := Text.exists_blanks r.toList
  have hbefore : ∀ c ∈ tail ++ gap.1, Text.isBlank c = true :=
    List.forall_mem_append.mpr ⟨htail, gap.2⟩
  have hafter : ∀ c ∈ gap'.1 ++ lead', Text.isBlank c = true :=
    List.forall_mem_append.mpr ⟨gap'.2, hlead'⟩
  have hwhole : l.toList ++ gap.1 ++ (op.written ++ (gap'.1 ++ r.toList)) =
      lead ++ (Text.trim l.toList ++
        ((tail ++ gap.1) ++ (op.written ++ (gap'.1 ++ lead')) ++ Text.trim r.toList) ++
        tail') := by
    conv_lhs => rw [hleft, hright]
    simp only [List.append_assoc]
  have htrim := Text.trim_append_append (Text.trim_trim l.toList)
    (Text.trim_trim r.toList) hl.trim_ne_nil
    hr.trim_ne_nil ((tail ++ gap.1) ++ (op.written ++ (gap'.1 ++ lead')))
  have hquotes : ∀ c ∈ Text.trim r.toList, Text.isQuote c = false := fun c hc =>
    hr.quotes c ((Text.trim_sublist _).subset hc)
  unfold Test.parse
  dsimp only
  rw [String.toList_ofList, hwhole, Text.trim_blanks_append hlead,
    Text.trim_append_blanks htail', htrim, if_neg (by simp [hl.trim_ne_nil]),
    findComparison_numeric hl hr op hbefore hafter]
  dsimp only
  rw [Text.trim_append_blanks hbefore, Text.trim_trim, Text.trim_blanks_append hafter,
    Text.trim_trim, Text.unquote_of_forall hquotes,
    if_neg (by simp [hl.trim_ne_nil, hr.trim_ne_nil]), Text.strip, Text.strip]

/-- An expression alone is compared with zero. -/
theorem parse_numeric_alone (h : Numeric t s e) :
    Test.parse s = .ok { left := Text.strip s, comparison := .ne, right := "0" } := by
  have hfind : findComparison none [] (Text.trim s.toList) = none := by
    rw [← List.append_nil (Text.trim s.toList), findComparison_arithmetic h.arithmetic,
      findComparison]
  unfold Test.parse
  dsimp only
  rw [if_neg (by rw [List.isEmpty_iff]; exact h.trim_ne_nil), hfind, Text.strip]

/-! ## Evaluation -/

/-- **Two expressions are compared by their values.** -/
theorem holds_numeric (hl : Numeric t l el) (hr : Numeric t r er) (op : Comparison) :
    holds t line { left := Text.strip l, comparison := op, right := Text.strip r } =
      Error.liftAt line ((el.eval fun _ => none).bind fun v => (er.eval fun _ => none).map fun w =>
        op.holds (compare v w)) := by
  have hbind (s : String) (f : String → Except Error Bool) :
      (Error.liftAt line (.ok s : Except SymbolError String)).bind f = f s := rfl
  rw [holds_eq]
  dsimp only
  rw [hl.resolve_strip, hr.resolve_strip, hbind, hbind]
  unfold verdict
  dsimp only
  rw [hl.mentionsLanguage_strip, hr.mentionsLanguage_strip, hl.constant?_strip, hr.constant?_strip]
  rfl

end Test

/-- **Tests of numbers.** A comparison of two expressions without labels, quotes and symbols is read
with or without blanks around the operator, and holds if the values are in this relation; it fails
if an expression has no value. An expression alone is a test of whether its value is different from
zero. -/
theorem numeric_tests_compare_values {t : SymbolTable} {l r : String} {el er : Expression}
    (hl : Test.Numeric t l el) (hr : Test.Numeric t r er) (line : SourceLine) (labels : Labels) :
    (∀ (op : Comparison) (gap gap' : Blanks), ∃ test,
      Test.parse (String.ofList (l.toList ++ gap.1 ++ (op.written ++ (gap'.1 ++ r.toList)))) =
        .ok test ∧
      test.holds t line = Error.liftAt line do
        let v ← el.eval labels
        let w ← er.eval labels
        return decide (op.Relates v w)) ∧
    ∃ test, Test.parse l = .ok test ∧
      test.holds t line = Error.liftAt line do
        let v ← el.eval labels
        return decide (v ≠ 0) := by
  have hvalue {s : String} {e : Expression} (h : Test.Numeric t s e) : (e.eval fun _ => none) =
      e.eval labels :=
    Term.eval_congr fun name hname => by
      rw [h.labels] at hname
      cases hname
  have hdecide (op : Comparison) (v w : Int) : op.holds (compare v w) =
      decide (op.Relates v w) := by
    rw [Bool.eq_iff_iff, decide_eq_true_iff]
    exact op.holds_compare v w
  refine ⟨fun op gap gap' => ⟨_, Test.parse_numeric hl hr op gap gap', ?_⟩, _,
    Test.parse_numeric_alone hl, ?_⟩
  · rw [Test.holds_numeric hl hr, hvalue hl, hvalue hr]
    simp only [hdecide]
    cases el.eval labels <;> cases er.eval labels <;> rfl
  · have hzero : Text.strip "0" = "0" := by decide +kernel
    have hne (v : Int) : decide (Comparison.ne.Relates v 0) = decide (v ≠ 0) :=
      decide_eq_decide.mpr Iff.rfl
    rw [← hzero, Test.holds_numeric hl (Test.numeric_zero t), hvalue hl]
    simp only [hdecide]
    cases el.eval labels with
    | error e => rfl
    | ok v => exact congrArg (fun b => Error.liftAt line (.ok b : Except ExprError Bool)) (hne v)

/-- Shift operators right before a comparison with `<`, and an expression without a value. -/
theorem numeric_tests_compare_values_shifts :
    let t : SymbolTable := [{ name := "N", value := some "3", line := default }]
    (∃ test, Test.parse "1<<2<<3<%101" = .ok test ∧ test.holds t default = .ok false) ∧
      (∃ test, Test.parse "1<<2<<3" = .ok test ∧ test.holds t default = .ok true) ∧
      ∃ test, Test.parse "LSB(1)/(5-%101) >= 1<<2<<3" = .ok test ∧
        ∃ e, test.holds t default = .error e := by
  intro t
  have hnumeric {s : String} {e : Expression} (hparse : Expression.parse s =
      .ok e) (hlabels : e.term.labels = [])
      (hquotes : (s.toList.all fun c => !Text.isQuote c) =
        true) (hwords : (t.substitute none s.toList).2 = false) :
      Test.Numeric t s e := by
    refine ⟨hparse, hlabels, by simpa using hquotes, fun w hw hv => ?_⟩
    rw [(SymbolTable.substitute_changed_iff .none _).mpr ⟨w, hw, hv⟩] at hwords
    cases hwords
  have hshifts : Test.Numeric t "1<<2<<3"
      { text := "1<<2<<3",
        term := .binary .shl (.binary .shl (.number 1) (.number 2)) (.number 3) } :=
    hnumeric (by decide +kernel) rfl (by decide +kernel) (by decide +kernel)
  have hfive : Test.Numeric t "%101" { text := "%101", term := .number 5 } :=
    hnumeric (by decide +kernel) rfl (by decide +kernel) (by decide +kernel)
  have hquotient : Test.Numeric t "LSB(1)/(5-%101)"
      { text := "LSB(1)/(5-%101)",
        term := .binary .div (.lsb (.number 1)) (.binary .sub (.number 5) (.number 5)) } :=
    hnumeric (by decide +kernel) rfl (by decide +kernel) (by decide +kernel)
  obtain ⟨hcompare, halone⟩ := numeric_tests_compare_values hshifts hfive default fun _ => none
  obtain ⟨test, hparse, hfails⟩ :=
    (numeric_tests_compare_values hquotient hshifts default fun _ => none).1
      .ge (.spaces 1) (.spaces 1)
  exact ⟨hcompare .lt (.spaces 0) (.spaces 0), halone, test, hparse, _, hfails⟩

end Retarget
