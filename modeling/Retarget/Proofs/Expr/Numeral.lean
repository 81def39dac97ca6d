import Mathlib.Data.Nat.Digits.Defs
import Retarget.Proofs.Bits.Signed
import Retarget.Proofs.Expr.Name
import Retarget.Proofs.Hex.Record

/-!
# Ways to write a number

A number is written in digits of base ten, sixteen or two, with a mark that tells the base: `31`,
`$1F`, `0x1F`, `1FH`, `%11111`, `b11111` or `0b11111`. Digits and marks that are letters have either
case, and zeros may stand before the other digits. The marks share their characters with other
tokens and with each other: `0b1H` is hexadecimal, `b2` a label and `%` an operator.

* `Text.Spells`: the number that digits of a base denote, and `Text.Spells.readNat_eq`: it is the
  one that is read;
* `Numeral`: the seven ways to write a number;
* `Token.next_numeral`: each of them is one token, whatever follows it that cannot belong to it;
* `numeral_is_read`: and is read as the number that it denotes, up to the range of numbers.
-/

namespace Retarget

/-! ## Digits -/

namespace Text

/-- `c` is the digit `d` of `base`. The letters after nine have either case. -/
def DigitFor (base d : Nat) (c : Char) : Prop :=
  d < base ∧ (c = d.digitChar ∨ c = d.digitChar.toUpper)

/-- The characters are digits of `base`, the most significant one first, and denote `n`. -/
def Spells (base : Nat) (cs : List Char) (n : Nat) : Prop :=
  cs ≠ [] ∧ ∃ ds : List Nat, List.Forall₂ (DigitFor base) ds cs ∧ Nat.ofDigits base ds.reverse = n

variable {base d n : Nat} {c : Char} {cs : List Char}

theorem DigitFor.digitIn_eq (h : DigitFor base d c) (hbase : base ≤ 16) :
    digitIn base c = some d := by
  have hall : ∀ d < 16, digitValue d.digitChar = some d ∧
      digitValue d.digitChar.toUpper = some d := by decide
  obtain ⟨hd, hc⟩ := h
  have hvalue : digitValue c = some d := by
    rcases hc with rfl | rfl
    · exact (hall d (by omega)).1
    · exact (hall d (by omega)).2
  rw [digitIn, hvalue]
  simp [hd]

namespace Spells

/-- What holds of all digits of a base, in both cases, holds of every character. -/
theorem of_forall {p : Char → Prop} (h : Spells base cs n)
    (hp : ∀ d < base, p d.digitChar ∧ p d.digitChar.toUpper) : ∀ c ∈ cs, p c := by
  intro c hc
  obtain ⟨-, ds, hds, -⟩ := h
  obtain ⟨d, -, hd, rfl | rfl⟩ := exists_of_forall₂_right hds hc
  · exact (hp d hd).1
  · exact (hp d hd).2

theorem isNameChar_eq (h : Spells base cs n) (hbase : base ≤ 16) :
    ∀ c ∈ cs, isNameChar c = true := by
  have hall : ∀ d < 16, isNameChar d.digitChar = true ∧ isNameChar d.digitChar.toUpper = true := by
    decide
  exact h.of_forall fun d hd => hall d (by omega)

theorem isHexDigit_eq (h : Spells 16 cs n) : ∀ c ∈ cs, isHexDigit c = true :=
  h.of_forall (by decide)

theorem isDigit_eq (h : Spells 10 cs n) : ∀ c ∈ cs, isDigit c = true :=
  h.of_forall (by decide)

theorem isBinaryDigit_eq (h : Spells 2 cs n) : ∀ c ∈ cs, isBinaryDigit c = true :=
  h.of_forall (by decide)

/-- The marks of base sixteen are none of its digits. -/
theorem ne_mark (h : Spells 16 cs n) : ∀ c ∈ cs, c ≠ 'x' ∧ c ≠ 'X' :=
  h.of_forall (by decide)

theorem single (h : DigitFor base d c) : Spells base [c] d :=
  ⟨List.cons_ne_nil _ _, [d], .cons h .nil, by simp⟩

/-- A digit that is written behind the others. -/
theorem concat (h : Spells base cs n) (hc : DigitFor base d c) :
    Spells base (cs ++ [c]) (n * base + d) := by
  obtain ⟨-, ds, hds, rfl⟩ := h
  refine ⟨by simp, ds ++ [d], List.rel_append hds (.cons hc .nil), ?_⟩
  rw [List.reverse_append, List.reverse_singleton, List.singleton_append, Nat.ofDigits_cons]
  rw [Nat.mul_comm, Nat.add_comm]

/-- Reading goes on from the number of the digits before. -/
theorem readDigits_eq {ds : List Nat} (hds : List.Forall₂ (DigitFor base) ds cs) (hbase : base ≤ 16)
    (acc : Nat) :
    readDigits base acc cs = some (acc * base ^ ds.length + Nat.ofDigits base ds.reverse) := by
  induction hds generalizing acc with
  | nil => simp [readDigits]
  | @cons d c ds cs hd _ ih =>
    rw [readDigits, hd.digitIn_eq hbase]
    dsimp only
    rw [ih, Nat.ofDigits_reverse_cons, List.length_cons]
    congr 1
    ring

/-- **Digits are read as the number that they denote.** -/
theorem readNat_eq (h : Spells base cs n) (hbase : base ≤ 16) : readNat base cs = some n := by
  obtain ⟨hne, ds, hds, rfl⟩ := h
  rw [readNat, if_neg (by simpa using hne), readDigits_eq hds hbase, Nat.zero_mul, Nat.zero_add]

/-- The decimal digits of a number. -/
theorem toDigits (n : Nat) : Spells 10 (Nat.toDigits 10 n) n := by
  induction n using Nat.strongRecOn with
  | ind n ih =>
    by_cases hn : n < 10
    · rw [Nat.toDigits_of_lt_base hn]
      exact single ⟨hn, .inl rfl⟩
    · have hle := Nat.le_of_not_lt hn
      have hlast : DigitFor 10 (n % 10) (n % 10).digitChar := ⟨Nat.mod_lt n (by decide), .inl rfl⟩
      have hall := (ih (n / 10) (by omega)).concat hlast
      rwa [← Nat.toDigits_of_base_le (by decide) hle, Nat.div_add_mod'] at hall

end Spells

/-- Hexadecimal digits are letters or decimal digits. -/
theorem isNameChar_of_isHexDigit (h : isHexDigit c = true) : isNameChar c = true := by
  unfold isHexDigit digitIn digitValue at h
  split at h
  · rename_i hd
    simp [isNameChar, hd]
  · split at h
    · rename_i hl
      simp [isNameChar, isLetter, Bool.and_eq_true_iff.mp hl]
    · split at h
      · rename_i hl
        simp [isNameChar, isLetter, Bool.and_eq_true_iff.mp hl]
      · cases h

theorem isNameChar_of_isBinaryDigit (h : isBinaryDigit c = true) : isNameChar c = true := by
  rcases Bool.or_eq_true_iff.mp h with h | h <;> rw [beq_iff_eq.mp h] <;> decide

end Text

/-! ## Marks -/

/-- The ways to write the number `n`. -/
inductive Numeral : List Char → Nat → Prop
  | decimal {cs : List Char} {n : Nat} (h : Text.Spells 10 cs n) : Numeral cs n
  /-- `$1F` -/
  | dollar {cs : List Char} {n : Nat} (h : Text.Spells 16 cs n) : Numeral ('$' :: cs) n
  /-- `0x1F` -/
  | zeroX {x : Char} {cs : List Char} {n : Nat} (hx : x = 'x' ∨ x = 'X') (h : Text.Spells 16 cs n) :
      Numeral ('0' :: x :: cs) n
  /-- `1FH` or, where the first digit is a letter, with a zero before it: `0F1H`. -/
  | suffixH {c x : Char} {cs : List Char} {n : Nat} (hc : Text.isDigit c = true)
      (hx : x = 'h' ∨ x = 'H') (h : Text.Spells 16 (c :: cs) n) : Numeral (c :: cs ++ [x]) n
  /-- `%11111` -/
  | percent {cs : List Char} {n : Nat} (h : Text.Spells 2 cs n) : Numeral ('%' :: cs) n
  /-- `b11111` -/
  | letterB {x : Char} {cs : List Char} {n : Nat} (hx : x = 'b' ∨ x = 'B')
      (h : Text.Spells 2 cs n) : Numeral (x :: cs) n
  /-- `0b11111` -/
  | zeroB {x : Char} {cs : List Char} {n : Nat} (hx : x = 'b' ∨ x = 'B') (h : Text.Spells 2 cs n) :
      Numeral ('0' :: x :: cs) n

namespace Token

variable {cs text rest : List Char} {c x : Char} {n base : Nat} {afterValue : Bool}

/-- What is read for the number `n`, written as `text`. -/
def ofNumber (text : List Char) (n : Nat) : Except ExprError Token :=
  if n < 2 ^ 127 then .ok (.number (String.ofList text) n)
    else .error (.badNumber (String.ofList text))

theorem numeral_eq (h : Text.Spells base cs n) (hbase : base ≤ 16) :
    numeral text cs base = ofNumber text n := by
  have hfits : Number.fits n = true ↔ n < 2 ^ 127 := by
    rw [Number.fits_iff]
    omega
  rw [numeral, if_neg (by simpa using h.1), h.readNat_eq hbase, ofNumber]
  simp only [hfits]

/-! ### Words that start with a digit -/

theorem next_digitWord (hc : Text.isDigit c = true) (hcs : ∀ d ∈ cs, Text.isNameChar d = true)
    (hrest : WordEnds rest) :
    next afterValue c (cs ++ rest) = ofDigitWord (c :: cs) >>= fun t => .ok (t, rest) := by
  have hne : c ≠ '$' ∧ c ≠ '%' ∧ c ≠ '\'' := by
    refine ⟨?_, ?_, ?_⟩ <;> rintro rfl <;> revert hc <;> decide
  obtain ⟨htake, hdrop⟩ := hrest.takeWhile_eq (fun _ => id) hcs
  unfold next
  simp only [beq_iff_eq, hne.1, hne.2.1, hne.2.2, hc, if_false, if_true]
  rw [htake, hdrop]

theorem ofDigitWord_zeroX (hx : x = 'x' ∨ x = 'X') :
    ofDigitWord ('0' :: x :: cs) = numeral ('0' :: x :: cs) cs 16 := by
  rcases hx with rfl | rfl <;> rfl

theorem ofDigitWord_zeroB (hx : x = 'b' ∨ x = 'B') (hne : cs ≠ [])
    (hcs : ∀ d ∈ cs, Text.isBinaryDigit d = true) :
    ofDigitWord ('0' :: x :: cs) = numeral ('0' :: x :: cs) cs 2 := by
  have hall : cs.all Text.isBinaryDigit = true := List.all_eq_true.mpr hcs
  rcases hx with rfl | rfl <;> simp [ofDigitWord, hne, hall, - List.all_eq_true]

/-- Without a mark behind its first character, a word is hexadecimal if it ends with a mark, and
decimal otherwise. -/
theorem ofDigitWord_of_not_marked (hx : ∀ x ∈ cs.head?, x ≠ 'x' ∧ x ≠ 'X')
    (hbinary : ∀ x ∈ cs.head?, x = 'b' ∨ x = 'B' → ∃ d ∈ cs.tail, Text.isBinaryDigit d = false) :
    ((c :: cs).getLast? = some 'h' ∨ (c :: cs).getLast? = some 'H' →
      ofDigitWord (c :: cs) = numeral (c :: cs) (c :: cs).dropLast 16) ∧
    ((c :: cs).getLast? ≠ some 'h' → (c :: cs).getLast? ≠ some 'H' →
      ofDigitWord (c :: cs) = numeral (c :: cs) (c :: cs) 10) := by
  unfold ofDigitWord
  split
  · rename_i heq
    cases heq
    exact absurd rfl (hx 'x' rfl).1
  · rename_i heq
    cases heq
    exact absurd rfl (hx 'X' rfl).2
  · dsimp only
    split
    · -- The mark of base two would need binary digits only.
      rename_i digits hdigits
      split at hdigits
      · rename_i x digits' heq
        cases heq
        split at hdigits
        · rename_i hmarked
          simp only [Bool.and_eq_true, Bool.or_eq_true, beq_iff_eq, List.all_eq_true] at hmarked
          obtain ⟨d, hd, hd'⟩ := hbinary x rfl hmarked.1.1
          rw [hmarked.2 d hd] at hd'
          cases hd'
        · cases hdigits
      · cases hdigits
    · constructor
      · rintro (hlast | hlast) <;> simp only [hlast]
      · intro hlower hupper
        split
        · exact absurd ‹_› hlower
        · exact absurd ‹_› hupper
        · rfl

theorem ofDigitWord_decimal (h : Text.Spells 10 (c :: cs) n) :
    ofDigitWord (c :: cs) = numeral (c :: cs) (c :: cs) 10 := by
  have hne {x y : Char} (hx : x ∈ c :: cs) (hy : Text.isDigit y = false) : x ≠ y := by
    rintro rfl
    rw [h.isDigit_eq x hx] at hy
    cases hy
  have hmem {x : Char} (hx : x ∈ cs.head?) : x ∈ c :: cs :=
    List.mem_cons_of_mem c (List.mem_of_mem_head? hx)
  refine (ofDigitWord_of_not_marked (fun x hx => ?_) fun x hx hb => ?_).2 (fun hlast => ?_)
    fun hlast => ?_
  · exact ⟨hne (hmem hx) (by decide), hne (hmem hx) (by decide)⟩
  · rcases hb with hb | hb
    · exact absurd hb (hne (hmem hx) (by decide))
    · exact absurd hb (hne (hmem hx) (by decide))
  · exact hne (List.mem_of_getLast? hlast) (by decide) rfl
  · exact hne (List.mem_of_getLast? hlast) (by decide) rfl

/-- A mark at the end makes all before it hexadecimal, also what would be a mark of base two. -/
theorem ofDigitWord_suffixH (hx : x = 'h' ∨ x = 'H') (h : Text.Spells 16 (c :: cs) n) :
    ofDigitWord (c :: cs ++ [x]) = numeral (c :: cs ++ [x]) (c :: cs) 16 := by
  have hlast : (c :: (cs ++ [x])).getLast? = some x := by
    rw [← List.cons_append, List.getLast?_concat]
  have hdrop : (c :: (cs ++ [x])).dropLast = c :: cs := by
    rw [← List.cons_append, List.dropLast_concat]
  have hmark : ∀ y ∈ (cs ++ [x]).head?, y ≠ 'x' ∧ y ≠ 'X' := by
    intro y hy
    cases cs with
    | nil =>
      cases hy
      rcases hx with rfl | rfl <;> decide
    | cons d cs =>
      cases hy
      exact h.ne_mark _ (List.mem_cons_of_mem c List.mem_cons_self)
  have hbinary : ∀ y ∈ (cs ++ [x]).head?, y = 'b' ∨ y = 'B' → ∃ d ∈ (cs ++ [x]).tail,
      Text.isBinaryDigit d = false := by
    intro y hy hb
    cases cs with
    | nil =>
      cases hy
      rcases hx with rfl | rfl <;> revert hb <;> decide
    | cons d cs => exact ⟨x, by simp, by rcases hx with rfl | rfl <;> decide⟩
  have hword := (ofDigitWord_of_not_marked (c := c) hmark hbinary).1 (by
    rw [hlast]
    rcases hx with rfl | rfl
    · exact .inl rfl
    · exact .inr rfl)
  rwa [hdrop] at hword

/-! ### Numbers that start with a mark -/

theorem next_dollar (hcs : ∀ d ∈ cs, Text.isHexDigit d = true) (hrest : WordEnds rest) :
    next afterValue '$' (cs ++ rest) = numeral ('$' :: cs) cs 16 >>= fun t => .ok (t, rest) := by
  obtain ⟨htake, hdrop⟩ := hrest.takeWhile_eq (fun _ => Text.isNameChar_of_isHexDigit) hcs
  unfold next
  rw [if_pos (by decide), htake, hdrop]

/-- A percent sign is a mark only where no value ends before it. -/
theorem next_percent (hne : cs ≠ []) (hcs : ∀ d ∈ cs, Text.isBinaryDigit d = true)
    (hrest : WordEnds rest) :
    next false '%' (cs ++ rest) = numeral ('%' :: cs) cs 2 >>= fun t => .ok (t, rest) := by
  obtain ⟨htake, hdrop⟩ := hrest.takeWhile_eq (fun _ => Text.isNameChar_of_isBinaryDigit) hcs
  unfold next
  rw [if_neg (by decide), if_pos (by decide), htake, hdrop, if_neg (by simpa using hne)]

/-! ### Every way to write a number -/

/-- **A number is one token,** whatever follows it that cannot belong to it. -/
theorem next_numeral (h : Numeral text n) (hrest : WordEnds rest) :
    ∃ c cs, text = c :: cs ∧ next false c (cs ++ rest) = ofNumber text n >>= fun t =>
      .ok (t, rest) := by
  cases h with
  | decimal h =>
    obtain ⟨c, cs, rfl⟩ := List.exists_cons_of_ne_nil h.1
    obtain ⟨-, hcs⟩ := List.forall_mem_cons.mp (h.isNameChar_eq (by decide))
    refine ⟨c, cs, rfl, ?_⟩
    rw [next_digitWord (h.isDigit_eq c List.mem_cons_self) hcs hrest, ofDigitWord_decimal h,
      numeral_eq h (by decide)]
  | @dollar cs _ h =>
    refine ⟨'$', cs, rfl, ?_⟩
    rw [next_dollar h.isHexDigit_eq hrest, numeral_eq h (by decide)]
  | @zeroX x cs _ hx h =>
    have hname : Text.isNameChar x = true := by rcases hx with rfl | rfl <;> decide
    have hword : ∀ d ∈ x :: cs, Text.isNameChar d = true :=
      List.forall_mem_cons.mpr ⟨hname, h.isNameChar_eq (by decide)⟩
    refine ⟨'0', x :: cs, rfl, ?_⟩
    rw [next_digitWord (by decide) hword hrest, ofDigitWord_zeroX hx, numeral_eq h (by decide)]
  | @suffixH c x cs _ hc hx h =>
    have hname : Text.isNameChar x = true := by rcases hx with rfl | rfl <;> decide
    obtain ⟨-, hcs⟩ := List.forall_mem_cons.mp (h.isNameChar_eq (by decide))
    have hword := List.forall_mem_append.mpr ⟨hcs, List.forall_mem_singleton.mpr hname⟩
    refine ⟨c, cs ++ [x], rfl, ?_⟩
    rw [next_digitWord hc hword hrest, ← List.cons_append, ofDigitWord_suffixH hx h,
      numeral_eq h (by decide)]
  | @percent cs _ h =>
    refine ⟨'%', cs, rfl, ?_⟩
    rw [next_percent h.1 h.isBinaryDigit_eq hrest, numeral_eq h (by decide)]
  | @letterB x cs _ hx h =>
    have hstart : StartsName x := .inl (by rcases hx with rfl | rfl <;> decide)
    have hbinary : IsBinaryName (x :: cs) := by
      refine ⟨hx, h.1, fun d hd => ?_⟩
      simpa [Text.isBinaryDigit] using h.isBinaryDigit_eq d hd
    refine ⟨x, cs, rfl, ?_⟩
    rw [next_name hstart (h.isNameChar_eq (by decide)) hrest, ofNameWord_of_binary hbinary,
      List.tail_cons, numeral_eq h (by decide)]
  | @zeroB x cs _ hx h =>
    have hname : Text.isNameChar x = true := by rcases hx with rfl | rfl <;> decide
    have hword : ∀ d ∈ x :: cs, Text.isNameChar d = true :=
      List.forall_mem_cons.mpr ⟨hname, h.isNameChar_eq (by decide)⟩
    refine ⟨'0', x :: cs, rfl, ?_⟩
    rw [next_digitWord (by decide) hword hrest, ofDigitWord_zeroB hx h.1 h.isBinaryDigit_eq,
      numeral_eq h (by decide)]

end Token

/-- Nothing in a number is blank. -/
theorem Numeral.isBlank_eq {text : List Char} {n : Nat} (h : Numeral text n) {c : Char}
    (hc : c ∈ text) : Text.isBlank c = false := by
  have hdigit {base m : Nat} {cs : List Char} (hs : Text.Spells base cs m) (hbase : base ≤ 16)
      (hc : c ∈ cs) : Text.isBlank c = false :=
    Text.isBlank_of_isNameChar (hs.isNameChar_eq hbase c hc)
  cases h with
  | decimal hs => exact hdigit hs (by decide) hc
  | dollar hs | percent hs =>
    rcases List.mem_cons.mp hc with rfl | hc
    · decide
    · exact hdigit hs (by decide) hc
  | letterB hx hs =>
    rcases List.mem_cons.mp hc with rfl | hc
    · rcases hx with rfl | rfl <;> decide
    · exact hdigit hs (by decide) hc
  | zeroX hx hs | zeroB hx hs =>
    rcases List.mem_cons.mp hc with rfl | hc
    · decide
    rcases List.mem_cons.mp hc with rfl | hc
    · rcases hx with rfl | rfl <;> decide
    · exact hdigit hs (by decide) hc
  | suffixH _ hx hs =>
    rcases List.mem_append.mp hc with hc | hc
    · exact hdigit hs (by decide) hc
    · rw [List.mem_singleton.mp hc]
      rcases hx with rfl | rfl <;> decide

/-! ## Texts that are numbers -/

namespace Token

variable {text : List Char} {n : Nat}

theorem scan_numeral (h : Numeral text n) : scan text = ofNumber text n >>= fun t => .ok [t] := by
  obtain ⟨c, cs, rfl, hnext⟩ := next_numeral h .nil
  rw [List.append_nil] at hnext
  rw [scan, scanFrom_cons (h.isBlank_eq List.mem_cons_self), hnext]
  cases ofNumber (c :: cs) n with
  | error e => rfl
  | ok t => rw [ok_bind, ok_bind, scanFrom_nil, ok_bind, ok_bind]

/-- A minus sign before a number is a token of its own, and no value ends with it. -/
theorem scan_minus (cs : List Char) :
    scan ('-' :: cs) = scan cs >>= fun ts => .ok (.op .sub :: ts) := by
  have hnext : next false '-' cs = .ok (.op .sub, cs) := rfl
  rw [scan, scanFrom_cons (by decide), hnext, ok_bind]
  rfl

theorem scan_minus_numeral (h : Numeral text n) :
    scan ('-' :: text) = ofNumber text n >>= fun t => .ok [.op .sub, t] := by
  rw [scan_minus, scan_numeral h]
  cases ofNumber text n <;> rfl

end Token

/-- **Every way to write a number is read as that number.** Below the end of the range, a text that
is a number in decimal, hexadecimal or binary digits is read as this number where only a literal may
stand, and as an expression, whatever labels there are; with a minus sign before it, as its
negative. From the end of the range on, all of these are refused, also the negative of the first
number that is too large. -/
theorem numeral_is_read (s : String) (n : Nat) (h : Numeral s.toList n) :
    (n < 2 ^ 127 →
      readLiteral s = some (n : Int) ∧ readLiteral ("-" ++ s) = some (-(n : Int)) ∧
      ∀ labels : Labels, (Expression.parse s >>= fun e => e.eval labels) = .ok (n : Int) ∧
        (Expression.parse ("-" ++ s) >>= fun e => e.eval labels) = .ok (-(n : Int))) ∧
    (2 ^ 127 ≤ n →
      readLiteral s = none ∧ readLiteral ("-" ++ s) = none ∧
      Expression.parse s = .error (.badNumber s) ∧
        Expression.parse ("-" ++ s) = .error (.badNumber s)) := by
  have hminus : ("-" ++ s).toList = '-' :: s.toList := by rw [String.toList_append]; rfl
  have hscan := Token.scan_numeral h
  have hscan' := Token.scan_minus_numeral h
  rw [← hminus] at hscan'
  have htrim : Text.trim s.toList = s.toList := Text.trim_eq_self fun c hc => h.isBlank_eq hc
  have htrim' : Text.trim ("-" ++ s).toList = ("-" ++ s).toList := by
    refine Text.trim_eq_self fun c hc => ?_
    rw [hminus] at hc
    rcases List.mem_cons.mp hc with rfl | hc
    · decide
    · exact h.isBlank_eq hc
  refine ⟨fun hlt => ?_, fun hle => ?_⟩
  · rw [Token.ofNumber, if_pos hlt, String.ofList_toList, ok_bind] at hscan hscan'
    have hparse := Expression.parse_of_scan (d := .number s n) hscan rfl
    have hparse' := Expression.parse_of_scan (d := .neg (.number s n)) hscan' rfl
    have hneg : Number.wrap (-(n : Int)) = -(n : Int) := Number.wrap_eq_self (by omega) (by omega)
    refine ⟨?_, ?_, fun labels => ⟨?_, ?_⟩⟩
    · rw [readLiteral, htrim, hscan]
    · rw [readLiteral, htrim', hscan']
    · rw [hparse]
      rfl
    · rw [hparse', ok_bind, Expression.eval, ParseTree.term, ParseTree.term, Term.eval, Term.eval,
        ok_bind, hneg]
  · rw [Token.ofNumber, if_neg (Nat.not_lt.mpr hle), String.ofList_toList,
      error_bind] at hscan hscan'
    refine ⟨?_, ?_, ?_, ?_⟩
    · rw [readLiteral, htrim, hscan]
    · rw [readLiteral, htrim', hscan']
    · rw [Expression.parse, hscan, error_bind]
    · rw [Expression.parse, hscan', error_bind]

/-- What could be a binary number is hexadecimal with a mark at its end, and the first number beyond
the range is refused also as a negative one. -/
theorem numeral_is_read_ambiguous :
    let large := "170141183460469231731687303715884105728"
    Numeral "0b1H".toList 177 ∧ readLiteral "0b1H" = some 177 ∧
      readLiteral ("-" ++ "0b1H") = some (-177) ∧
    (Expression.parse "0b1H" >>= fun e => e.eval fun _ => none) = .ok 177 ∧
    Numeral large.toList (2 ^ 127) ∧ readLiteral ("-" ++ large) = none ∧
    Expression.parse ("-" ++ large) = .error (.badNumber large) := by
  intro large
  have hsmall : Numeral "0b1H".toList 177 := by
    have htext : "0b1H".toList = '0' :: ['b', '1'] ++ ['H'] := by decide
    rw [htext]
    refine .suffixH (by decide) (.inr rfl) ⟨List.cons_ne_nil _ _, [0, 11, 1], ?_, rfl⟩
    exact .cons ⟨by decide,
      .inl rfl⟩ (.cons ⟨by decide, .inl rfl⟩ (.cons ⟨by decide, .inl rfl⟩ .nil))
  have hlarge : Numeral large.toList (2 ^ 127) := by
    have hdigits : large.toList = Nat.toDigits 10 (2 ^ 127) := by decide +kernel
    rw [hdigits]
    exact .decimal (Text.Spells.toDigits _)
  obtain ⟨hread, hneg, hvalue⟩ := (numeral_is_read "0b1H" 177 hsmall).1 (by decide)
  obtain ⟨-, hrefused, -, herror⟩ := (numeral_is_read large (2 ^ 127) hlarge).2 (Nat.le_refl _)
  exact ⟨hsmall, hread, hneg, (hvalue _).1, hlarge, hrefused, herror⟩

end Retarget
