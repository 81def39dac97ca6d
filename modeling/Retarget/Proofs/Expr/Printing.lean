import Mathlib.Tactic.IntervalCases
import Retarget.Proofs.Expr.Numeral

/-!
# Printing expressions

A term is printed with parentheses where the levels of the operators need them: around an operand
that binds less tightly than its operator, and around a right operand of the same level, since
operators of a level are taken from left to right. Any blanks may stand between the tokens.

* `Token.next_text`: the text of a token is read as this token, whatever follows it that cannot
  belong to it;
* `Token.scanFrom_spaced`: tokens that can stand one after the other are read back, whatever blanks
  are between them;
* `ParseTree.alternate`: and the tokens of a parse tree can;
* `Term.exists_tree`: the printed tokens are those of a parse tree of the term;
* `ParseTree.length_tokens_le`: no tokens that are read as the term are fewer;
* `parse_printed`: a printed term is read back;
* `Expression.readable_of_parse`: what is read can be printed.
-/

namespace Retarget

/-! ## Tokens and their texts -/

/-- Blanks, any number of them. -/
abbrev Blanks := { cs : List Char // ∀ c ∈ cs, Text.isBlank c = true }

/-- A number of spaces. -/
def Blanks.spaces (n : Nat) : Blanks :=
  ⟨List.replicate n ' ', fun _ hc => by rw [List.eq_of_mem_replicate hc]; rfl⟩

namespace Token

/-- What is known of every token that was read: a number is in the range and not negative, a label
is not written like a binary number, and a byte has an index of one digit. -/
def Proper : Token → Prop
  | number _ v => 0 ≤ v ∧ v < 2 ^ 127
  | label name => isLabel name.toList = true ∧ ¬ IsBinaryName name.toList
  | byte index => index < 10
  | _ => True

/-- A token whose text is read as it. -/
def Plain : Token → Prop
  | number text v => ∃ n : Nat, Numeral text.toList n ∧ n < 2 ^ 127 ∧ v = n
  | t => t.Proper

/-- Where a token may stand in an expression. A value stands where none ends, which is also where a
percent sign is not an operator; a minus sign stands anywhere. -/
def StandsAfter (afterValue : Bool) : Token → Prop
  | op .mod => afterValue = true
  | op _ | close => True
  | number .. | label _ | .open | lsb | byte _ => afterValue = false

/-- Each token may stand after the one before it. -/
def Alternate : Bool → List Token → Prop
  | _, [] => True
  | afterValue, t :: ts => t.StandsAfter afterValue ∧ Alternate t.endsValue ts

/-- The text of tokens with blanks before, between and after them. -/
def spaced (gap : Nat → Blanks) : List Token → List Char
  | [] => (gap 0).1
  | t :: ts => (gap 0).1 ++ (t.text.toList ++ spaced (fun i => gap (i + 1)) ts)

variable {t : Token} {ts : List Token} {afterValue : Bool} {rest : List Char}

/-- **The text of a token is read as this token,** whatever follows it that cannot belong to it. -/
theorem next_text (ht : t.Plain) (hstands : t.StandsAfter afterValue)
    (hrest : t.endsValue = true → WordEnds rest) :
    ∃ c cs, t.text.toList = c :: cs ∧ Text.isBlank c = false ∧
      next afterValue c (cs ++ rest) = .ok (t, rest) := by
  cases t with
  | number text v =>
    obtain ⟨n, hn, hlt, rfl⟩ := ht
    obtain rfl : afterValue = false := hstands
    obtain ⟨c, cs, htext, hnext⟩ := next_numeral hn (hrest rfl)
    rw [ofNumber, if_pos hlt, String.ofList_toList, ok_bind] at hnext
    exact ⟨c, cs, htext, hn.isBlank_eq (by simp [htext]), hnext⟩
  | label name =>
    obtain ⟨c, word, hname, hc, hword⟩ := startsName_of_isLabel ht.1
    refine ⟨c, word, hname, hc.isBlank_eq_false, ?_⟩
    rw [next_name hc hword (hrest rfl), ← hname, ofNameWord_of_not_binary ht.1 ht.2,
      String.ofList_toList, ok_bind]
  | op operator =>
    cases operator with
    | mod =>
      obtain rfl : afterValue = true := hstands
      exact ⟨'%', [], rfl, by decide, rfl⟩
    | shl => exact ⟨'<', ['<'], rfl, by decide, rfl⟩
    | shr => exact ⟨'>', ['>'], rfl, by decide, rfl⟩
    | _ => exact ⟨_, [], rfl, by decide, rfl⟩
  | «open» => exact ⟨'(', [], rfl, by decide, rfl⟩
  | close => exact ⟨')', [], rfl, by decide, rfl⟩
  | lsb => exact ⟨'L', ['S', 'B', '('], rfl, by decide, rfl⟩
  | byte index =>
    have hindex : index < 10 := ht
    interval_cases index <;> exact ⟨'B', _, rfl, by decide, rfl⟩

/-- What stands after a value does not begin like a word or a function. -/
theorem wordEnds_text (h : t.StandsAfter true) : WordEnds (t.text.toList ++ rest) := by
  cases t with
  | op operator => cases operator <;> (intro d hd; cases hd; decide)
  | close => intro d hd; cases hd; decide
  | _ => cases h

theorem wordEnds_blanks (gap : Blanks) (h : WordEnds rest) : WordEnds (gap.1 ++ rest) := by
  obtain ⟨_ | ⟨c, cs⟩, hblank⟩ := gap
  · exact h
  · intro d hd
    cases hd
    have hc := hblank c List.mem_cons_self
    constructor
    · rw [Bool.eq_false_iff]
      intro hname
      rw [Text.isBlank_of_isNameChar hname] at hc
      cases hc
    · rintro rfl
      revert hc
      decide

/-- A word before what stands after a value ends there, with or without blanks between them. -/
theorem wordEnds_spaced (gap : Nat → Blanks) (h : Alternate true ts) :
    WordEnds (spaced gap ts) := by
  cases ts with
  | nil =>
    rw [spaced, ← List.append_nil (gap 0).1]
    exact wordEnds_blanks _ .nil
  | cons t ts => exact wordEnds_blanks _ (wordEnds_text h.1)

theorem scanFrom_blanks (gap : Blanks) :
    scanFrom afterValue (gap.1 ++ rest) = scanFrom afterValue rest := by
  obtain ⟨cs, hblank⟩ := gap
  induction cs with
  | nil => rfl
  | cons c cs ih =>
    obtain ⟨hc, hcs⟩ := List.forall_mem_cons.mp hblank
    rw [List.cons_append, scanFrom.eq_def]
    dsimp only
    rw [if_pos hc]
    exact ih hcs

/-- **Tokens are read back from their texts,** whatever blanks are between them. -/
theorem scanFrom_spaced (gap : Nat → Blanks) (hts : ∀ t ∈ ts, t.Plain)
    (h : Alternate afterValue ts) : scanFrom afterValue (spaced gap ts) = .ok ts := by
  induction ts generalizing afterValue gap with
  | nil =>
    rw [spaced, ← List.append_nil (gap 0).1, scanFrom_blanks, scanFrom_nil]
  | cons t ts ih =>
    obtain ⟨ht, hts⟩ := List.forall_mem_cons.mp hts
    obtain ⟨hstands, halternate⟩ := h
    have hrest : t.endsValue = true → WordEnds (spaced (fun i => gap (i + 1)) ts) := by
      intro hvalue
      rw [hvalue] at halternate
      exact wordEnds_spaced _ halternate
    obtain ⟨c, cs, htext, hblank, hnext⟩ := next_text ht hstands hrest
    rw [spaced, scanFrom_blanks, htext, List.cons_append, scanFrom_cons hblank, hnext, ok_bind,
      ih _ hts halternate, ok_bind]

end Token

/-! ## Tokens of parse trees -/

mutual

/-- The tokens of a tree can stand one after the other where no value ends, if what follows can
stand after a value. -/
theorem ParseTree.alternate {n : Nat} (d : ParseTree n) {rest : List Token}
    (h : Token.Alternate true rest) : Token.Alternate false (d.tokens ++ rest) := by
  match n, d with
  | _, .number text value => exact ⟨rfl, h⟩
  | _, .label name => exact ⟨rfl, h⟩
  | _, .closed opening inner =>
    have hclose : Token.Alternate true (.close :: rest) := ⟨trivial, h⟩
    have hinner := inner.alternate hclose
    rw [ParseTree.tokens, List.cons_append, List.append_assoc, List.singleton_append]
    cases opening <;> exact ⟨rfl, hinner⟩
  | _, .neg operand => exact ⟨trivial, operand.alternate h⟩
  | _, .joined first more =>
    rw [ParseTree.tokens, List.append_assoc]
    exact first.alternate (more.alternate h)

theorem ParseTail.alternate {n : Nat} (d : ParseTail n) {rest : List Token}
    (h : Token.Alternate true rest) : Token.Alternate true (d.tokens ++ rest) := by
  match d with
  | .done => exact h
  | .step op mem operand more =>
    have hoperand := operand.alternate (more.alternate h)
    rw [ParseTail.tokens, List.cons_append, List.append_assoc]
    cases op <;> exact ⟨by trivial, hoperand⟩

end

/-- A tree is also one of every looser level. -/
theorem ParseTree.exists_raised {m n : Nat} (h : m ≤ n) (d : ParseTree m) :
    ∃ d' : ParseTree n, d'.tokens = d.tokens ∧ d'.term = d.term := by
  induction h with
  | refl => exact ⟨d, rfl, rfl⟩
  | step _ ih =>
    obtain ⟨d', htokens, hterm⟩ := ih
    exact ⟨.joined d' .done, by simpa using htokens, hterm⟩

/-- One more operand behind the others. -/
def ParseTail.concat {n : Nat} (op : BinOp) (mem : op ∈ BinOp.onLevel (n + 1))
    (operand : ParseTree n) :
    ParseTail n → ParseTail n
  | .done => .step op mem operand .done
  | .step op' mem' operand' more => .step op' mem' operand' (more.concat op mem operand)

namespace ParseTail

variable {n : Nat} {op : BinOp} {mem : op ∈ BinOp.onLevel (n + 1)} {operand : ParseTree n}

theorem tokens_concat :
    (d : ParseTail n) → (d.concat op mem operand).tokens = d.tokens ++ .op op :: operand.tokens
  | .done => by simp [concat]
  | .step _ _ _ more => by simp [concat, tokens_concat more]

theorem extend_concat (left : Term) : (d : ParseTail n) →
    (d.concat op mem operand).extend left = .binary op (d.extend left) operand.term
  | .done => rfl
  | .step _ _ _ more => by simp [concat, extend_concat _ more]

end ParseTail

/-! ## Printed terms -/

namespace Term

/-- The terms that can be written: numbers that can, labels that are not read as binary numbers, and
bytes with an index of one digit. -/
def Readable : Term → Prop
  | number v => 0 ≤ v ∧ v < 2 ^ 127
  | label name => isLabel name.toList = true ∧ ¬ IsBinaryName name.toList
  | neg t | lsb t => t.Readable
  | byte index t => index < 10 ∧ t.Readable
  | binary _ l r => l.Readable ∧ r.Readable

instance decidableReadable : (t : Term) → Decidable t.Readable
  | number v => inferInstanceAs (Decidable (0 ≤ v ∧ v < 2 ^ 127))
  | label name =>
    inferInstanceAs (Decidable (isLabel name.toList = true ∧ ¬ IsBinaryName name.toList))
  | neg t | lsb t => decidableReadable t
  | byte index t =>
    have := decidableReadable t
    inferInstanceAs (Decidable (index < 10 ∧ t.Readable))
  | binary _ l r =>
    have := decidableReadable l
    have := decidableReadable r
    inferInstanceAs (Decidable (l.Readable ∧ r.Readable))

/-- The tokens of a term where operators up to level `n` need no parentheses. A left operand may
have the level of its operator, a right operand not; the operand of a minus sign has none. -/
def tokens (n : Nat) : Term → List Token
  | number v => [.number (toString v) v]
  | label name => [.label name]
  | neg t => .op .sub :: t.tokens 0
  | lsb t => .lsb :: (t.tokens 4 ++ [.close])
  | byte index t => .byte index :: (t.tokens 4 ++ [.close])
  | binary op l r =>
    let inner := l.tokens op.level ++ .op op :: r.tokens (op.level - 1)
    if op.level ≤ n then inner else .open :: (inner ++ [.close])

/-- The text of a term with the given blanks between its tokens. -/
def print (gap : Nat → Blanks) (t : Term) : String := String.ofList (Token.spaced gap (t.tokens 4))

/-- The tokens of a term that can be written are read back one by one. -/
theorem plain_tokens {t : Term} (h : t.Readable) (n : Nat) : ∀ token ∈ t.tokens n, token.Plain := by
  have hclosed {o : Token} {ts : List Token} (ho : o.Plain) (hts : ∀ token ∈ ts, token.Plain) :
      ∀ token ∈ o :: (ts ++ [.close]), token.Plain :=
    List.forall_mem_cons.mpr ⟨ho,
      List.forall_mem_append.mpr ⟨hts, List.forall_mem_singleton.mpr trivial⟩⟩
  induction t generalizing n with
  | number v =>
    obtain ⟨hnonneg, hlt⟩ := h
    obtain ⟨m, rfl⟩ := Int.eq_ofNat_of_zero_le hnonneg
    have htext : (toString (m : Int)).toList = Nat.toDigits 10 m := String.toList_ofList
    refine List.forall_mem_singleton.mpr ⟨m, .decimal ?_, by omega, rfl⟩
    rw [htext]
    exact Text.Spells.toDigits m
  | label name => exact List.forall_mem_singleton.mpr h
  | neg t ih => exact List.forall_mem_cons.mpr ⟨trivial, ih h 0⟩
  | lsb t ih => exact hclosed trivial (ih h 4)
  | byte index t ih => exact hclosed h.1 (ih h.2 4)
  | binary op l r ihl ihr =>
    have hinner : ∀ token ∈ l.tokens op.level ++ .op op :: r.tokens (op.level - 1), token.Plain :=
      List.forall_mem_append.mpr ⟨ihl h.1 _, List.forall_mem_cons.mpr ⟨trivial, ihr h.2 _⟩⟩
    rw [tokens]
    split
    · exact hinner
    · exact hclosed trivial hinner

/-- **The printed tokens are those of a parse tree of the term.** -/
theorem exists_tree (t : Term) (n : Nat) :
    ∃ d : ParseTree n, d.tokens = t.tokens n ∧ d.term = t := by
  -- What stands without parentheses on the tightest level does so on every level.
  have hatom {t : Term} (n : Nat) (d : ParseTree 0) (htokens : d.tokens = t.tokens n)
      (hterm : d.term = t) : ∃ d : ParseTree n, d.tokens = t.tokens n ∧ d.term = t := by
    obtain ⟨d', htokens', hterm'⟩ := d.exists_raised (Nat.zero_le n)
    exact ⟨d', htokens'.trans htokens, hterm'.trans hterm⟩
  induction t generalizing n with
  | number v => exact hatom n (.number (toString v) v) rfl rfl
  | label name => exact hatom n (.label name) rfl rfl
  | neg t ih =>
    obtain ⟨d, htokens, rfl⟩ := ih 0
    exact hatom n (.neg d) (by rw [ParseTree.tokens, htokens, tokens]) rfl
  | lsb t ih =>
    obtain ⟨d, htokens, rfl⟩ := ih 4
    exact hatom n (.closed .lsb d) (by rw [ParseTree.tokens, htokens, tokens, Opening.token]) rfl
  | byte index t ih =>
    obtain ⟨d, htokens, rfl⟩ := ih 4
    exact hatom n (.closed (.byte index) d) (by rw [ParseTree.tokens, htokens, tokens,
      Opening.token]) rfl
  | binary op l r ihl ihr =>
    obtain ⟨m, hm⟩ : ∃ m, op.level = m + 1 := by cases op <;> exact ⟨_, rfl⟩
    have hle : m + 1 ≤ 4 := by rw [← hm]; cases op <;> decide
    -- The chain of the left operand goes on with the operator.
    obtain ⟨inner, htokens, hterm⟩ : ∃ d : ParseTree (m + 1),
        d.tokens = l.tokens op.level ++ .op op :: r.tokens (op.level - 1) ∧
          d.term = .binary op l r := by
      obtain ⟨left, hleft, rfl⟩ := ihl (m + 1)
      obtain ⟨right, hright, rfl⟩ := ihr m
      cases left with
      | joined first more =>
        refine ⟨.joined first (more.concat op (BinOp.mem_onLevel.mpr hm) right), ?_, ?_⟩
        · rw [ParseTree.tokens, ParseTail.tokens_concat, ← List.append_assoc, ← ParseTree.tokens,
            hleft, hright, hm, Nat.add_sub_cancel]
        · rw [ParseTree.term, ParseTail.extend_concat, ParseTree.term]
    by_cases hlevel : op.level ≤ n
    · obtain ⟨d, htokens', hterm'⟩ := inner.exists_raised (hm ▸ hlevel : m + 1 ≤ n)
      refine ⟨d, ?_, hterm'.trans hterm⟩
      rw [htokens', htokens, tokens, if_pos hlevel]
    · obtain ⟨d, htokens', hterm'⟩ := inner.exists_raised hle
      refine hatom n (.closed .paren d) ?_ (hterm'.trans hterm)
      rw [ParseTree.tokens, htokens', htokens, tokens, if_neg hlevel, Opening.token]

/-! ### Parentheses -/

/-- On a tighter level a term has at most one pair of parentheses more. -/
theorem length_tokens (t : Term) {m n : Nat} (h : m ≤ n) :
    (t.tokens n).length ≤ (t.tokens m).length ∧ (t.tokens m).length ≤ (t.tokens n).length + 2 := by
  cases t with
  | binary op l r =>
    simp only [tokens]
    split <;> split <;> simp <;> omega
  | _ => exact ⟨Nat.le_refl _, Nat.le_add_right _ 2⟩

end Term

mutual

/-- **No tokens that are read as a term are fewer than its printed ones,** so that every parenthesis
is needed. -/
theorem ParseTree.length_tokens_le {n : Nat} (d : ParseTree n) :
    (d.term.tokens n).length ≤ d.tokens.length := by
  match n, d with
  | _, .number text value => exact Nat.le_refl _
  | _, .label name => exact Nat.le_refl _
  | _, .closed opening inner =>
    have hinner := inner.length_tokens_le
    cases opening with
    | paren =>
      have hmore := (inner.term.length_tokens (Nat.zero_le 4)).2
      simp only [ParseTree.term, Opening.wrap, ParseTree.tokens, List.length_cons,
        List.length_append, List.length_nil]
      omega
    | _ => simpa [Opening.wrap, Term.tokens] using hinner
  | _, .neg operand => simpa [Term.tokens] using operand.length_tokens_le
  | n + 1, .joined first more =>
    have hfirst := first.length_tokens_le
    have hless := (first.term.length_tokens (Nat.le_add_right n 1)).1
    have hmore := more.length_tokens_le first.term
    rw [ParseTree.term, ParseTree.tokens, List.length_append]
    omega

theorem ParseTail.length_tokens_le {n : Nat} (d : ParseTail n) (left : Term) :
    ((d.extend left).tokens (n + 1)).length ≤ (left.tokens (n + 1)).length + d.tokens.length := by
  match d with
  | .done => exact Nat.le_refl _
  | .step op mem operand more =>
    have hoperand := operand.length_tokens_le
    have hmore := more.length_tokens_le (.binary op left operand.term)
    rw [Term.tokens, if_pos (BinOp.mem_onLevel.mp mem).le, BinOp.mem_onLevel.mp mem,
      Nat.add_sub_cancel] at hmore
    simp only [List.length_append, List.length_cons] at hmore
    simp only [ParseTail.extend, ParseTail.tokens, List.length_append, List.length_cons]
    omega

end

/-- **A printed term is read back.** A term that can be written is printed with parentheses only
where levels and the order from left to right need them: no tokens that are read as the term are
fewer. Its text, with any blanks between the tokens, is read as the same term, which has the same
value under all labels and mentions the same ones. -/
theorem parse_printed (t : Term) (ht : t.Readable) (gap : Nat → Blanks) :
    (∃ e, Expression.parse (t.print gap) = .ok e ∧ e.term = t ∧
      (∀ labels : Labels, e.eval labels = t.eval labels) ∧ e.labels = NameSet.ofList t.labels) ∧
    ∀ text ts, Term.ofTokens text ts = .ok t → (t.tokens 4).length ≤ ts.length := by
  obtain ⟨d, htokens, hterm⟩ := t.exists_tree 4
  have halternate : Token.Alternate false (t.tokens 4) := by
    rw [← htokens, ← List.append_nil d.tokens]
    exact d.alternate trivial
  have hscan : Token.scan (t.print gap).toList = .ok (t.tokens 4) := by
    rw [Term.print, String.toList_ofList]
    exact Token.scanFrom_spaced gap (Term.plain_tokens ht 4) halternate
  have hread (text : String) : Term.ofTokens text (t.tokens 4) = .ok t :=
    Term.ofTokens_eq_ok.mpr ⟨d, htokens, hterm⟩
  refine ⟨⟨{ text := Text.strip (t.print gap), term := t }, ?_, rfl, fun _ => rfl, rfl⟩,
    fun text ts hts => ?_⟩
  · rw [Expression.parse, hscan, ok_bind, hread, ok_bind]
  · obtain ⟨d', rfl, rfl⟩ := Term.ofTokens_eq_ok.mp hts
    exact d'.length_tokens_le

/-- A remainder in parentheses after a minus sign, and a label that is called like a function. -/
theorem parse_printed_remainder :
    let t : Term :=
      .binary .sub (.label "a") (.binary .sub (.neg (.binary .mod (.label "LSB") (.number 10)))
      (.byte 3 (.binary .shl (.label "b2") (.lsb (.number 7)))))
    t.Readable ∧ t.print (fun i => .spaces (i % 3)) =
      "a -  (- (  LSB% 10  )- BYTE3(  b2<< LSB(  7) )  )" ∧
      ∃ e, Expression.parse "a -  (- (  LSB% 10  )- BYTE3(  b2<< LSB(  7) )  )" = .ok e ∧
        e.term = t := by
  intro t
  have ht : t.Readable := by decide +kernel
  have hprint : t.print (fun i => .spaces (i % 3)) =
      "a -  (- (  LSB% 10  )- BYTE3(  b2<< LSB(  7) )  )" := by
    decide +kernel
  obtain ⟨⟨e, he, hterm, -⟩, -⟩ := parse_printed t ht fun i => .spaces (i % 3)
  exact ⟨ht, hprint, e, hprint ▸ he, hterm⟩

/-! ## What is read can be printed -/

namespace Token

variable {t : Token} {ts : List Token} {afterValue : Bool} {cs word rest : List Char} {c : Char}

theorem numeral_proper {text digits : List Char} {base : Nat}
    (h : numeral text digits base = .ok t) : t.Proper := by
  unfold numeral at h
  split at h
  · cases h
  · split at h
    · rename_i n hn
      split at h
      · rename_i hfits
        cases h
        exact ⟨Int.natCast_nonneg n, (Number.fits_iff.mp hfits).2⟩
      · cases h
    · cases h

theorem ofDigitWord_proper (h : ofDigitWord word = .ok t) : t.Proper := by
  unfold ofDigitWord at h
  repeat' split at h
  all_goals exact numeral_proper h

theorem ofNameWord_proper (h : ofNameWord word = .ok t) : t.Proper := by
  by_cases hbinary : IsBinaryName word
  · rw [ofNameWord_of_binary hbinary] at h
    exact numeral_proper h
  by_cases hlabel : isLabel word = true
  · rw [ofNameWord_of_not_binary hlabel hbinary] at h
    cases h
    exact ⟨by rwa [String.toList_ofList], by rwa [String.toList_ofList]⟩
  · unfold ofNameWord at h
    split at h
    · split at h
      · exact numeral_proper h
      · cases h
    · cases h

theorem ofCall_proper (h : ofCall word = some t) : t.Proper := by
  unfold ofCall at h
  split at h
  · cases h
    trivial
  · obtain ⟨index, hindex, rfl⟩ := Option.map_eq_some_iff.mp h
    have hlt : index < 10 := of_decide_eq_true (Option.filter_eq_some_iff.mp hindex).2
    exact hlt
  · cases h

theorem closeChar_proper (h : closeChar c cs = .ok (t, rest)) : t.Proper := by
  unfold closeChar at h
  split at h
  · cases h
    have hc : c.toNat < 2 ^ 32 := c.val.toNat_lt
    exact ⟨Int.natCast_nonneg _, by omega⟩
  · cases h

theorem readChar_proper (h : readChar cs = .ok (t, rest)) : t.Proper := by
  unfold readChar at h
  split at h
  · cases h
  · cases h
  · exact closeChar_proper h
  · exact closeChar_proper h

theorem ofSymbol_proper (h : ofSymbol c = some t) : t.Proper := by
  unfold ofSymbol at h
  split at h <;> cases h <;> trivial

theorem next_proper (h : next afterValue c cs = .ok (t, rest)) : t.Proper := by
  have hword {read : Except ExprError Token} {more : List Char} (hread : ∀ t,
      read = .ok t → t.Proper)
      (h : (read >>= fun t => .ok (t, more)) = .ok (t, rest)) : t.Proper := by
    obtain ⟨t', ht, h⟩ := bind_eq_ok.mp h
    cases h
    exact hread t ht
  unfold next at h
  split at h
  · exact hword (fun _ => numeral_proper) h
  split at h
  · dsimp only at h
    split at h
    · cases h
      trivial
    · exact hword (fun _ => numeral_proper) h
  split at h
  · exact readChar_proper h
  split at h
  · exact hword (fun _ => ofDigitWord_proper) h
  split at h
  · dsimp only at h
    split at h
    · -- A word before an opening parenthesis may be the name of a function.
      rename_i found hfound
      cases h
      split at hfound
      · obtain ⟨t', ht, hfound⟩ := Option.map_eq_some_iff.mp hfound
        cases hfound
        exact ofCall_proper ht
      · cases hfound
    · exact hword (fun _ => ofNameWord_proper) h
  split at h
  · split at h
    · split at h
      · cases h
        trivial
      · cases h
    · cases h
  · split at h
    · rename_i t' ht
      cases h
      exact ofSymbol_proper ht
    · cases h

/-- Every token that is read is proper. -/
theorem proper_of_scanFrom (h : scanFrom afterValue cs = .ok ts) : ∀ t ∈ ts, t.Proper := by
  fun_induction scanFrom afterValue cs generalizing ts with
  | case1 =>
    cases h
    simp
  | case2 afterValue c cs hblank ih => exact ih h
  | case3 => cases h
  | case4 => cases h
  | case5 afterValue c cs hblank t more hnext ts' hts ih =>
    cases h
    exact List.forall_mem_cons.mpr ⟨next_proper hnext, ih hts⟩

end Token

mutual

/-- The term of proper tokens can be written. -/
theorem ParseTree.readable {n : Nat} (d : ParseTree n) (h : ∀ t ∈ d.tokens, t.Proper) :
    d.term.Readable := by
  match n, d with
  | _, .number text value => exact h (.number text value) List.mem_cons_self
  | _, .label name => exact h (.label name) List.mem_cons_self
  | _, .closed opening inner =>
    obtain ⟨hopening, hrest⟩ := List.forall_mem_cons.mp h
    have hinner := inner.readable fun t ht => hrest t (List.mem_append_left _ ht)
    cases opening with
    | paren | lsb => exact hinner
    | byte index => exact ⟨hopening, hinner⟩
  | _, .neg operand => exact operand.readable fun t ht => h t (List.mem_cons_of_mem _ ht)
  | _, .joined first more =>
    exact more.readable (fun t ht => h t (List.mem_append_right _ ht))
      (first.readable fun t ht => h t (List.mem_append_left _ ht))

theorem ParseTail.readable {n : Nat} (d : ParseTail n) (h : ∀ t ∈ d.tokens, t.Proper) {left : Term}
    (hleft : left.Readable) : (d.extend left).Readable := by
  match d with
  | .done => exact hleft
  | .step op mem operand more =>
    obtain ⟨-, hrest⟩ := List.forall_mem_cons.mp h
    have hoperand := operand.readable fun t ht => hrest t (List.mem_append_left _ ht)
    exact more.readable (fun t ht => hrest t (List.mem_append_right _ ht)) ⟨hleft, hoperand⟩

end

/-- **The term of an expression that was read can be written.** -/
theorem Expression.readable_of_parse {s : String} {e : Expression}
    (h : Expression.parse s = .ok e) : e.term.Readable := by
  obtain ⟨d, hscan, rfl⟩ := Expression.parse_eq_ok.mp h
  exact d.readable (Token.proper_of_scanFrom hscan)

end Retarget
