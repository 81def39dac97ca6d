import Retarget.Proofs.Expr.Dependence
import Retarget.Proofs.Expr.Printing
import Retarget.Proofs.Text.Blank

/-!
# The characters of expressions

An expression without labels and without quotes is written with few characters: it has no
underscore, and `<` and `>` stand in it only as the halves of shift operators. Blanks around it do
not count.

* `Token.next_takes`: the characters that one token takes;
* `Token.arithmetic_of_scanFrom`: the characters of all tokens;
* `Token.scanFrom_append_blanks`, `Expression.parse_strip`: blanks at the end of a text.
-/

namespace Retarget

/-! ## Characters -/

namespace Text

/-- Characters that expressions have in labels, in quotes and in shift operators only, and those of
comparisons. -/
def loudChars : List Char := ['<', '>', '=', '!', '"', '\'', '_']

variable {c : Char} {cs x y : List Char}

/-- A text of other characters and of shift operators. -/
inductive Arithmetic : List Char → Prop
  | nil : Arithmetic []
  | char {c : Char} {cs : List Char} (hc : c ∉ loudChars) (h : Arithmetic cs) : Arithmetic (c :: cs)
  | shift {c : Char} {cs : List Char} (hc : c = '<' ∨
    c = '>') (h : Arithmetic cs) : Arithmetic (c :: c :: cs)

theorem Arithmetic.append (hx : Arithmetic x) (hy : Arithmetic y) : Arithmetic (x ++ y) := by
  induction hx with
  | nil => exact hy
  | char hc _ ih => exact .char hc ih
  | shift hc _ ih => exact .shift hc ih

theorem Arithmetic.of_forall (h : ∀ c ∈ cs, c ∉ loudChars) : Arithmetic cs := by
  induction cs with
  | nil => exact .nil
  | cons c cs ih =>
    obtain ⟨hc, hcs⟩ := List.forall_mem_cons.mp h
    exact .char hc (ih hcs)

theorem Arithmetic.underscore_notMem (h : Arithmetic cs) : '_' ∉ cs := by
  induction h with
  | nil => exact List.not_mem_nil
  | char hc _ ih =>
    rw [List.mem_cons]
    rintro (rfl | h)
    · exact hc (by decide)
    · exact ih h
  | shift hc _ ih =>
    simp only [List.mem_cons]
    rintro (rfl | rfl | h)
    · simp at hc
    · simp at hc
    · exact ih h

/-- Characters of a class without loud ones. -/
theorem notMem_loudChars {p : Char → Bool} (hp : loudChars.any p = false) (h : p c = true) :
    c ∉ loudChars :=
  fun hmem => List.any_eq_false.mp hp c hmem h

theorem notMem_loudChars_of_isBlank (h : isBlank c = true) : c ∉ loudChars :=
  notMem_loudChars (by decide) h

/-- What is read as a number are digits. -/
theorem notMem_loudChars_of_readDigits {base acc n : Nat} (h : readDigits base acc cs = some n) :
    ∀ c ∈ cs, c ∉ loudChars := by
  induction cs generalizing acc with
  | nil => exact fun c hc => absurd hc List.not_mem_nil
  | cons c cs ih =>
    rw [readDigits] at h
    split at h
    · rename_i d hd
      have hvalue : (digitValue c).isSome = true :=
        Option.isSome_of_mem (Option.filter_eq_some_iff.mp hd).1
      exact List.forall_mem_cons.mpr ⟨notMem_loudChars (p := fun c => (digitValue c).isSome)
        (by decide) hvalue, ih h⟩
    · cases h

end Text

/-! ## Tokens -/

namespace Token

variable {t : Token} {ts : List Token} {afterValue : Bool} {c d : Char}
  {cs word rest more : List Char}

theorem notMem_loudChars_of_numeral {text digits : List Char} {base : Nat}
    (h : numeral text digits base = .ok t) : ∀ c ∈ digits, c ∉ Text.loudChars := by
  unfold numeral at h
  split at h
  · cases h
  · rename_i hne
    split at h
    · rename_i n hn
      rw [Text.readNat, if_neg hne] at hn
      exact Text.notMem_loudChars_of_readDigits hn
    · cases h

/-- The mark of a binary number. -/
theorem notMem_loudChars_of_mark {b b' : Bool} (h : ((c == 'b' || c == 'B') && b && b') = true) :
    c ∉ Text.loudChars := by
  have hmark := (Bool.and_eq_true_iff.mp (Bool.and_eq_true_iff.mp h).1).1
  exact Text.notMem_loudChars (p := fun c => c == 'b' || c == 'B') (by decide) hmark

theorem notMem_loudChars_of_ofDigitWord (h : ofDigitWord word = .ok t) :
    ∀ c ∈ word, c ∉ Text.loudChars := by
  have hmarked {b : Char} {digits : List Char} {base : Nat} (hb : b ∉ Text.loudChars)
      (h : numeral ('0' :: b :: digits) digits base = .ok t) : ∀ c ∈ '0' :: b :: digits,
        c ∉ Text.loudChars :=
    List.forall_mem_cons.mpr ⟨by decide,
      List.forall_mem_cons.mpr ⟨hb, notMem_loudChars_of_numeral h⟩⟩
  have hlast {b : Char} (hb : b ∉ Text.loudChars) (hlast : word.getLast? = some b)
      (h : numeral word word.dropLast 16 = .ok t) : ∀ c ∈ word, c ∉ Text.loudChars := by
    rw [← List.dropLast_append_getLast? b hlast]
    intro c hc
    rcases List.mem_append.mp hc with hc | hc
    · exact notMem_loudChars_of_numeral h c hc
    · rwa [List.mem_singleton.mp hc]
  unfold ofDigitWord at h
  split at h
  · exact hmarked (by decide) h
  · exact hmarked (by decide) h
  · dsimp only at h
    split at h
    · rename_i digits hdigits
      split at hdigits
      · split at hdigits
        · rename_i hbinary
          cases hdigits
          exact hmarked (notMem_loudChars_of_mark hbinary) h
        · cases hdigits
      · cases hdigits
    · split at h
      · rename_i hh
        exact hlast (by decide) hh h
      · rename_i hh
        exact hlast (by decide) hh h
      · exact notMem_loudChars_of_numeral h

theorem notMem_loudChars_of_ofNameWord (h : ofNameWord word = .ok t) :
    (∀ c ∈ word, c ∉ Text.loudChars) ∨ ∃ name, t = .label name := by
  unfold ofNameWord at h
  split at h
  · rename_i c digits
    split at h
    · rename_i hbinary
      exact .inl (List.forall_mem_cons.mpr ⟨notMem_loudChars_of_mark hbinary,
        notMem_loudChars_of_numeral h⟩)
    · split at h
      · cases h
        exact .inr ⟨_, rfl⟩
      · cases h
  · cases h

theorem notMem_loudChars_of_ofCall (h : ofCall word = some t) : ∀ c ∈ word, c ∉ Text.loudChars := by
  unfold ofCall at h
  split at h
  · simpa using ⟨by decide, by decide, by decide⟩
  · rename_i d
    obtain ⟨index, hindex, -⟩ := Option.map_eq_some_iff.mp h
    have hd : d ∉ Text.loudChars :=
      Text.notMem_loudChars (p := fun d => (Text.digitIn 10 d).isSome) (by decide)
        (Option.isSome_of_mem hindex)
    simpa using ⟨by decide, by decide, by decide, by decide, hd⟩
  · cases h

/-- **The characters that a token takes.** Labels apart, they are those of arithmetic. -/
theorem next_takes (hc : c ≠ '\'') (h : next afterValue c cs = .ok (t, rest)) :
    ∃ taken, cs = taken ++ rest ∧ (Text.Arithmetic (c :: taken) ∨ ∃ name, t = .label name) := by
  have hword {p : Char → Bool} {read : Except ExprError Token}
      (hread : ∀ t, read = .ok t → (∀ d ∈ c :: cs.takeWhile p, d ∉ Text.loudChars) ∨ ∃ name,
        t = .label name)
      (h : (read >>= fun t => .ok (t, cs.dropWhile p)) = .ok (t, rest)) :
      ∃ taken, cs = taken ++ rest ∧ (Text.Arithmetic (c :: taken) ∨ ∃ name, t = .label name) := by
    obtain ⟨t', ht, h⟩ := bind_eq_ok.mp h
    cases h
    exact ⟨cs.takeWhile p, List.takeWhile_append_dropWhile.symm, (hread t ht).imp_left .of_forall⟩
  unfold next at h
  by_cases hdollar : (c == '$') = true
  · rw [if_pos hdollar] at h
    refine hword (fun t ht => .inl (List.forall_mem_cons.mpr ⟨?_,
      notMem_loudChars_of_numeral ht⟩)) h
    rw [beq_iff_eq.mp hdollar]
    decide
  rw [if_neg hdollar] at h
  by_cases hpercent : (c == '%') = true
  · have hloud : c ∉ Text.loudChars := by rw [beq_iff_eq.mp hpercent]; decide
    rw [if_pos hpercent] at h
    dsimp only at h
    split at h
    · cases h
      exact ⟨[], rfl, .inl (.char hloud .nil)⟩
    · exact hword (fun t ht =>
        .inl (List.forall_mem_cons.mpr ⟨hloud, notMem_loudChars_of_numeral ht⟩)) h
  rw [if_neg hpercent, if_neg (mt beq_iff_eq.mp hc)] at h
  by_cases hdigit : Text.isDigit c = true
  · rw [if_pos hdigit] at h
    exact hword (fun t ht => .inl (notMem_loudChars_of_ofDigitWord ht)) h
  rw [if_neg hdigit] at h
  by_cases hname : (Text.isLetter c || c == '_' || c == '.') = true
  · rw [if_pos hname] at h
    dsimp only at h
    split at h
    · -- A word before an opening parenthesis may be the name of a function.
      rename_i found hfound
      cases h
      split at hfound
      · rename_i inside hinside
        obtain ⟨t', ht, hfound⟩ := Option.map_eq_some_iff.mp hfound
        cases hfound
        refine ⟨cs.takeWhile Text.isNameChar ++ ['('], ?_, .inl ?_⟩
        · rw [List.append_assoc, List.singleton_append, ← hinside, List.takeWhile_append_dropWhile]
        · exact .append (.of_forall (notMem_loudChars_of_ofCall ht)) (.char (by decide) .nil)
      · cases hfound
    · exact hword (fun t ht => notMem_loudChars_of_ofNameWord ht) h
  rw [if_neg hname] at h
  by_cases hshift : (c == '<' || c == '>') = true
  · rw [if_pos hshift] at h
    split at h
    · rename_i d rest'
      split at h
      · rename_i hd
        cases h
        obtain rfl := beq_iff_eq.mp hd
        exact ⟨[d], rfl, .inl (.shift (by simpa using hshift) .nil)⟩
      · cases h
    · cases h
  rw [if_neg hshift] at h
  split at h
  · rename_i t' ht
    cases h
    exact ⟨[], rfl,
      .inl (.char (Text.notMem_loudChars (p := fun c => (ofSymbol c).isSome) (by decide)
      (Option.isSome_of_mem ht)) .nil)⟩
  · cases h

/-- **Texts without labels and quotes** have the characters of arithmetic only. -/
theorem arithmetic_of_scanFrom (h : scanFrom afterValue cs = .ok ts)
    (hlabels : ∀ name, label name ∉ ts) (hquotes : '\'' ∉ cs) : Text.Arithmetic cs := by
  fun_induction scanFrom afterValue cs generalizing ts with
  | case1 => exact .nil
  | case2 afterValue c cs hblank ih =>
    exact .char (Text.notMem_loudChars_of_isBlank hblank)
      (ih h hlabels (mt (List.mem_cons_of_mem c) hquotes))
  | case3 => cases h
  | case4 => cases h
  | case5 afterValue c cs hblank t more hnext ts' hts ih =>
    cases h
    obtain ⟨hc, hcs⟩ := not_or.mp (mt List.mem_cons.mpr hquotes)
    obtain ⟨taken, rfl, htaken⟩ := next_takes (Ne.symm hc) hnext
    have htail : Text.Arithmetic more :=
      ih hts (fun name => mt (List.mem_cons_of_mem t) (hlabels name))
        (mt (List.mem_append_right taken) hcs)
    rcases htaken with htaken | ⟨name, rfl⟩
    · exact htaken.append htail
    · exact absurd List.mem_cons_self (hlabels name)

/-! ## Blanks after an expression -/

/-- A token does not go on after a blank. -/
theorem next_append_blank (hc : c ≠ '\'') (hd : Text.isBlank d = true) :
    next afterValue c (cs ++ d :: more) = (next afterValue c cs).map fun r =>
      (r.1, r.2 ++ d :: more) := by
  have hends {p : Char → Bool} (hp : ∀ d, p d = true → Text.isNameChar d = true) : p d = false :=
    Bool.eq_false_iff.mpr fun h => by
      rw [Text.isBlank_of_isNameChar (hp d h)] at hd
      cases hd
  have hhex := hends fun _ => Text.isNameChar_of_isHexDigit
  have hbinary := hends fun _ => Text.isNameChar_of_isBinaryDigit
  have hname := hends fun _ => id
  have hword (read : Except ExprError Token) (rest : List Char) :
      (read >>= fun t => .ok (t, rest ++ d :: more)) =
        (read >>= fun t => .ok (t, rest)).map fun r => (r.1, r.2 ++ d :: more) := by
    cases read <;> rfl
  unfold next
  by_cases hdollar : (c == '$') = true
  · rw [if_pos hdollar, if_pos hdollar, Text.takeWhile_append_cons hhex,
      Text.dropWhile_append_cons hhex]
    exact hword _ _
  rw [if_neg hdollar, if_neg hdollar]
  by_cases hpercent : (c == '%') = true
  · rw [if_pos hpercent, if_pos hpercent, Text.takeWhile_append_cons hbinary,
      Text.dropWhile_append_cons hbinary]
    dsimp only
    split
    · rfl
    · exact hword _ _
  rw [if_neg hpercent, if_neg hpercent, if_neg (mt beq_iff_eq.mp hc), if_neg (mt beq_iff_eq.mp hc)]
  by_cases hdigit : Text.isDigit c = true
  · rw [if_pos hdigit, if_pos hdigit, Text.takeWhile_append_cons hname,
      Text.dropWhile_append_cons hname]
    exact hword _ _
  rw [if_neg hdigit, if_neg hdigit]
  by_cases hletter : (Text.isLetter c || c == '_' || c == '.') = true
  · rw [if_pos hletter, if_pos hletter, Text.takeWhile_append_cons hname,
      Text.dropWhile_append_cons hname]
    dsimp only
    have hopen {e : Char} (he : e ≠ '(') (x inside : List Char) : e :: x ≠ '(' :: inside := fun h =>
      he (List.cons.inj h).1
    cases cs.dropWhile Text.isNameChar with
    | nil =>
      have hnot := hopen (Text.ne_of_isBlank hd (by decide)) more
      rw [List.nil_append]
      simp only
      exact hword _ []
    | cons e inside =>
      rw [List.cons_append]
      by_cases he : e = '('
      · subst he
        simp only
        cases ofCall (c :: cs.takeWhile Text.isNameChar) with
        | none => exact hword _ ('(' :: inside)
        | some t => rfl
      · have hnot := hopen he inside
        have hnot' := hopen he (inside ++ d :: more)
        simp only
        exact hword _ (e :: inside)
  rw [if_neg hletter, if_neg hletter]
  by_cases hshift : (c == '<' || c == '>') = true
  · rw [if_pos hshift, if_pos hshift]
    cases cs with
    | nil =>
      have hdc : (d == c) = false := by
        have hcases : c = '<' ∨ c = '>' := by simpa using hshift
        rcases hcases with rfl | rfl
        · exact beq_false_of_ne (Text.ne_of_isBlank hd (by decide))
        · exact beq_false_of_ne (Text.ne_of_isBlank hd (by decide))
      rw [List.nil_append]
      dsimp only
      rw [hdc]
      rfl
    | cons e cs =>
      rw [List.cons_append]
      dsimp only
      split <;> rfl
  rw [if_neg hshift, if_neg hshift]
  cases ofSymbol c <;> rfl

theorem scanFrom_append_blanks (hquotes : '\'' ∉ cs) (gap : Blanks) :
    scanFrom afterValue (cs ++ gap.1) = scanFrom afterValue cs := by
  obtain ⟨_ | ⟨d, gap⟩, hgap⟩ := gap
  · rw [List.append_nil]
  · have hd := hgap d List.mem_cons_self
    have hskip (afterValue : Bool) : scanFrom afterValue (d :: gap) = .ok [] := by
      have hblanks : scanFrom afterValue ((d :: gap) ++ []) = scanFrom afterValue [] :=
        scanFrom_blanks ⟨d :: gap, hgap⟩
      rwa [List.append_nil, scanFrom_nil] at hblanks
    -- A token is read as without the blanks, and they are left after it.
    have hstep {afterValue : Bool} {c : Char} {cs : List Char}
        {r : Except ExprError (Token × List Char)}
        (hblank : ¬ Text.isBlank c = true) (hc : c ≠ '\'') (hnext : next afterValue c cs = r) :
        scanFrom afterValue (c :: cs ++ d :: gap) =
          r >>= fun x => scanFrom x.1.endsValue (x.2 ++ d :: gap) >>= fun ts =>
            .ok (x.1 :: ts) := by
      rw [List.cons_append, scanFrom_cons (by simpa using hblank), next_append_blank hc hd, hnext]
      cases r <;> rfl
    dsimp only
    fun_induction scanFrom afterValue cs with
    | case1 afterValue => exact hskip afterValue
    | case2 afterValue c cs hblank ih =>
      have hone : scanFrom afterValue (c :: cs ++ d :: gap) =
          scanFrom afterValue (cs ++ d :: gap) :=
        scanFrom_blanks ⟨[c], by simpa using hblank⟩
      exact hone.trans (ih (mt (List.mem_cons_of_mem c) hquotes))
    | case3 afterValue c cs hblank e hnext =>
      obtain ⟨hc, -⟩ := not_or.mp (mt List.mem_cons.mpr hquotes)
      rw [hstep hblank (Ne.symm hc) hnext, error_bind]
    | case4 afterValue c cs hblank t more hnext e hts ih =>
      obtain ⟨hc, hcs⟩ := not_or.mp (mt List.mem_cons.mpr hquotes)
      obtain ⟨taken, rfl, -⟩ := next_takes (Ne.symm hc) hnext
      rw [hstep hblank (Ne.symm hc) hnext, ok_bind, ih (mt (List.mem_append_right taken) hcs),
        hts, error_bind]
    | case5 afterValue c cs hblank t more hnext ts hts ih =>
      obtain ⟨hc, hcs⟩ := not_or.mp (mt List.mem_cons.mpr hquotes)
      obtain ⟨taken, rfl, -⟩ := next_takes (Ne.symm hc) hnext
      rw [hstep hblank (Ne.symm hc) hnext, ok_bind, ih (mt (List.mem_append_right taken) hcs),
        hts, ok_bind]

end Token

/-- Blanks around an expression without quotes do not count. -/
theorem Expression.parse_strip {s : String} (hquotes : '\'' ∉ s.toList) :
    Expression.parse (Text.strip s) = Expression.parse s := by
  obtain ⟨lead, tail, heq, hlead, htail⟩ := Text.exists_blanks s.toList
  have hscan : Token.scan (Text.trim s.toList) = Token.scan s.toList := by
    conv_rhs => rw [heq]
    have hmem : '\'' ∉ Text.trim s.toList := fun h => hquotes (by rw [heq]; simp [h])
    rw [Token.scan, Token.scan, Token.scanFrom_blanks ⟨lead, hlead⟩,
      Token.scanFrom_append_blanks hmem ⟨tail, htail⟩]
  have htext : Text.strip (Text.strip s) = Text.strip s := by
    rw [Text.strip, Text.strip, String.toList_ofList, Text.trim_trim]
  unfold Expression.parse
  rw [htext, Text.strip, String.toList_ofList, hscan]

end Retarget
