import Retarget.Proofs.Expr.Grammar
import Retarget.Proofs.Statement.Size
import Retarget.Proofs.Symbol.Substitution

/-!
# Names in expressions

A label is defined by its name and mentioned in expressions. Both sides have the same rule for
names, but an expression takes a `b` before binary digits for a number, so that a label of that name
is never seen.

* `Token.WordEnds`: what may follow a word, and `Token.next_name`: then a word is one token;
* `Token.scan_of_isLabel`: a name that a label may have is one token;
* `Token.ofNameWord_of_binary`, `Token.ofNameWord_of_not_binary`: which token that is;
* `Term.eval_congr`, `Term.eval_of_hidden`: what the value of a term owes to the labels in it.
-/

namespace Retarget

/-! ## Characters of names -/

namespace Text

theorem isLetter_iff {c : Char} : isLetter c = true ↔
    (97 ≤ c.toNat ∧ c.toNat ≤ 122) ∨ (65 ≤ c.toNat ∧ c.toNat ≤ 90) := by
  simp only [isLetter, Bool.or_eq_true, Bool.and_eq_true, decide_eq_true_eq, Char.le_def,
    UInt32.le_iff_toNat_le]
  rfl

theorem isDigit_iff {c : Char} : isDigit c = true ↔ 48 ≤ c.toNat ∧ c.toNat ≤ 57 := by
  simp only [isDigit, Bool.and_eq_true, decide_eq_true_eq, Char.le_def, UInt32.le_iff_toNat_le]
  rfl

theorem isBlank_eq_false {c : Char} (h : 32 < c.toNat) (h' : c.toNat < 128) :
    isBlank c = false := by
  simp only [isBlank, Bool.or_eq_false_iff, Bool.and_eq_false_iff, decide_eq_false_iff_not,
    beq_eq_false_iff_ne]
  omega

theorem toNat_of_isNameChar {c : Char} (h : isNameChar c = true) :
    32 < c.toNat ∧ c.toNat < 128 := by
  simp only [isNameChar, Bool.or_eq_true, isLetter_iff, isDigit_iff, beq_iff_eq] at h
  rcases h with (h | h) | rfl
  · omega
  · omega
  · decide

theorem isBlank_of_isNameChar {c : Char} (h : isNameChar c = true) : isBlank c = false :=
  isBlank_eq_false (toNat_of_isNameChar h).1 (toNat_of_isNameChar h).2

end Text

/-- The characters that a word of an expression begins with, if it is not a number in decimal
digits. -/
def StartsName (c : Char) : Prop := Text.isLetter c = true ∨ c = '_' ∨ c = '.'

namespace StartsName

variable {c : Char}

theorem isDigit_eq_false (h : StartsName c) : Text.isDigit c = false := by
  rcases h with h | rfl | rfl
  · rw [Bool.eq_false_iff, ne_eq, Text.isDigit_iff]
    have := Text.isLetter_iff.mp h
    omega
  · rfl
  · rfl

theorem isBlank_eq_false (h : StartsName c) : Text.isBlank c = false := by
  rcases h with h | rfl | rfl
  · have := Text.isLetter_iff.mp h
    exact Text.isBlank_eq_false (by omega) (by omega)
  · decide
  · decide

/-- No other kind of token begins with such a character. -/
theorem ne (h : StartsName c) : c ≠ '$' ∧ c ≠ '%' ∧ c ≠ '\'' := by
  refine ⟨?_, ?_, ?_⟩ <;> rintro rfl <;> revert h <;> unfold StartsName <;> decide

end StartsName

/-! ## Words -/

namespace Token

/-- A word cannot go on with what comes next, nor be the name of a function. -/
def WordEnds (rest : List Char) : Prop := ∀ d ∈ rest.head?, Text.isNameChar d = false ∧ d ≠ '('

theorem WordEnds.nil : WordEnds [] := by
  intro d hd
  cases hd

/-- Characters that can stand in a word are taken up to its end. -/
theorem WordEnds.takeWhile_eq {cs rest : List Char} (h : WordEnds rest) {p : Char → Bool}
    (hp : ∀ d, p d = true → Text.isNameChar d = true) (hcs : ∀ d ∈ cs, p d = true) :
    (cs ++ rest).takeWhile p = cs ∧ (cs ++ rest).dropWhile p = rest := by
  refine Text.takeWhile_append_of_ends hcs fun d hd => Bool.eq_false_iff.mpr fun hpd => ?_
  simpa [hp d hpd] using (h d hd).1

/-- A word is one token, whatever follows it that cannot belong to it. -/
theorem next_name {afterValue : Bool} {c : Char} {word rest : List Char} (hc : StartsName c)
    (hword : ∀ d ∈ word, Text.isNameChar d = true) (hrest : WordEnds rest) :
    next afterValue c (word ++ rest) = ofNameWord (c :: word) >>= fun t => .ok (t, rest) := by
  obtain ⟨hdollar, hpercent, hquote⟩ := hc.ne
  have hstart : (Text.isLetter c || c == '_' || c == '.') = true := by
    rcases hc with h | rfl | rfl
    · simp [h]
    · rfl
    · rfl
  obtain ⟨htake, hdrop⟩ := hrest.takeWhile_eq (fun _ => id) hword
  unfold next
  simp only [beq_iff_eq, hdollar, hpercent, hquote, hc.isDigit_eq_false, hstart, if_false, if_true,
    Bool.false_eq_true]
  rw [htake, hdrop]
  -- Only a parenthesis right after the word makes another token of it.
  split
  · rename_i found hfound
    split at hfound
    · exact absurd rfl (hrest '(' rfl).2
    · cases hfound
  · rfl

theorem scanFrom_nil (afterValue : Bool) : scanFrom afterValue [] = .ok [] := by
  rw [scanFrom.eq_def]

theorem scanFrom_cons {afterValue : Bool} {c : Char} {cs : List Char} (h : Text.isBlank c = false) :
    scanFrom afterValue (c :: cs) = next afterValue c cs >>= fun x =>
      scanFrom x.1.endsValue x.2 >>= fun ts => .ok (x.1 :: ts) := by
  rw [scanFrom.eq_def]
  dsimp only
  rw [if_neg (by simp [h])]
  split
  · rename_i e he
    rw [he, error_bind]
  · rename_i t more he
    rw [he, ok_bind]
    cases scanFrom t.endsValue more <;> rfl

/-- A text that is one word is one token. -/
theorem scan_name {c : Char} {word : List Char} (hc : StartsName c)
    (hword : ∀ d ∈ word, Text.isNameChar d = true) :
    scan (c :: word) = ofNameWord (c :: word) >>= fun t => .ok [t] := by
  have hnext : next false c (word ++ []) = _ := next_name hc hword .nil
  rw [List.append_nil] at hnext
  rw [scan, scanFrom_cons hc.isBlank_eq_false, hnext]
  cases ofNameWord (c :: word) with
  | error e => rfl
  | ok t => rw [ok_bind, ok_bind, scanFrom_nil, ok_bind, ok_bind]

end Token

/-- What a label may be called begins like a word and goes on like one. -/
theorem startsName_of_isLabel {cs : List Char} (h : isLabel cs = true) :
    ∃ c word, cs = c :: word ∧ StartsName c ∧ ∀ d ∈ word, Text.isNameChar d = true := by
  unfold isLabel at h
  split at h
  · cases h
  · rename_i c word _
    refine ⟨c, word, rfl, ?_⟩
    split at h
    · rename_i hc
      exact ⟨.inl hc, List.all_eq_true.mp h⟩
    · split at h
      · rename_i hc
        obtain ⟨-, hword⟩ := Bool.and_eq_true_iff.mp h
        refine ⟨.inr ?_, List.all_eq_true.mp hword⟩
        simpa [or_comm] using hc
      · cases h
  · cases h

/-- A name that is written like a binary number. -/
def IsBinaryName : List Char → Prop
  | c :: digits => (c = 'b' ∨ c = 'B') ∧ digits ≠ [] ∧ ∀ d ∈ digits, d = '0' ∨ d = '1'
  | [] => False

instance : DecidablePred IsBinaryName
  | c :: digits =>
    -- Only the digits are to be tried, and not all characters.
    have : Decidable (∀ d ∈ digits, d = '0' ∨ d = '1') := List.decidableBAll _ digits
    inferInstanceAs (Decidable ((c = 'b' ∨ c = 'B') ∧ digits ≠ [] ∧ _))
  | [] => inferInstanceAs (Decidable False)

namespace Token

theorem scan_of_isLabel {cs : List Char} (h : isLabel cs = true) :
    scan cs = ofNameWord cs >>= fun t => .ok [t] := by
  obtain ⟨c, word, rfl, hc, hword⟩ := startsName_of_isLabel h
  exact scan_name hc hword

theorem ofNameWord_of_not_binary {cs : List Char} (h : isLabel cs = true)
    (hbinary : ¬ IsBinaryName cs) : ofNameWord cs = .ok (.label (String.ofList cs)) := by
  cases cs with
  | nil => cases h
  | cons c digits =>
    rw [ofNameWord, if_neg, if_pos h]
    intro hb
    refine hbinary ?_
    simpa [IsBinaryName, Text.isBinaryDigit, and_assoc] using hb

theorem ofNameWord_of_binary {cs : List Char} (hbinary : IsBinaryName cs) :
    ofNameWord cs = numeral cs cs.tail 2 := by
  cases cs with
  | nil => cases hbinary
  | cons c digits =>
    rw [ofNameWord, if_pos, List.tail_cons]
    simpa [IsBinaryName, Text.isBinaryDigit, and_assoc] using hbinary

end Token

/-- The digits of such a name denote a number. -/
theorem IsBinaryName.exists_readNat {cs : List Char} (h : IsBinaryName cs) :
    cs.tail ≠ [] ∧ ∃ n, Text.readNat 2 cs.tail = some n := by
  have hread (digits : List Char) (hdigits : ∀ d ∈ digits, d = '0' ∨ d = '1') (acc : Nat) :
      ∃ n, Text.readDigits 2 acc digits = some n := by
    induction digits generalizing acc with
    | nil => exact ⟨acc, rfl⟩
    | cons d digits ih =>
      obtain ⟨v, hv⟩ : ∃ v, Text.digitIn 2 d = some v := by
        rcases hdigits d List.mem_cons_self with rfl | rfl
        · exact ⟨0, rfl⟩
        · exact ⟨1, rfl⟩
      rw [Text.readDigits, hv]
      exact ih (fun d hd => hdigits d (List.mem_cons_of_mem _ hd)) _
  cases cs with
  | nil => cases h
  | cons c digits =>
    obtain ⟨-, hne, hdigits⟩ := h
    rw [List.tail_cons, Text.readNat, if_neg (by simpa using hne)]
    exact ⟨hne, hread digits hdigits 0⟩

/-- An atom is a whole expression. -/
def ParseTree.alone (d : ParseTree 0) : ParseTree 4 :=
  .joined (.joined (.joined (.joined d .done) .done) .done) .done

/-- An expression that is an atom, or an atom with minus signs. -/
theorem Expression.parse_of_scan {s : String} {ts : List Token} {d : ParseTree 0}
    (hscan : Token.scan s.toList = .ok ts) (hd : d.tokens = ts) :
    Expression.parse s = .ok { text := Text.strip s, term := d.term } := by
  have hread : Term.ofTokens (Text.strip s) ts = .ok d.term :=
    Term.ofTokens_eq_ok.mpr ⟨d.alone, by simpa [ParseTree.alone] using hd, rfl⟩
  rw [Expression.parse, hscan, ok_bind, hread, ok_bind]

/-! ## Values -/

namespace Term

variable {labels labels' : Labels} {t : Term}

/-- The value of a term depends on the labels that it mentions. -/
theorem eval_congr (h : ∀ name ∈ t.labels, labels name = labels' name) :
    t.eval labels = t.eval labels' := by
  induction t with
  | number v => rfl
  | label name => rw [eval, eval, h name (List.mem_singleton.mpr rfl)]
  | neg t ih | lsb t ih | byte index t ih => rw [eval, eval, ih h]
  | binary op l r ihl ihr =>
    rw [eval, eval, ihl fun name hname => h name (List.mem_append_left _ hname),
      ihr fun name hname => h name (List.mem_append_right _ hname)]

/-- A term that has a value has none where one of its labels is hidden, and the others stay. -/
theorem eval_of_hidden {v : Int} (hv : t.eval labels = .ok v)
    (h : ∀ name ∈ t.labels, labels' name = labels name ∨ labels' name = none)
    (hidden : ∃ name ∈ t.labels, labels' name = none) :
    ∃ name, t.eval labels' = .error (.unknownLabel name) := by
  induction t generalizing v with
  | number v =>
    obtain ⟨name, hname, -⟩ := hidden
    cases hname
  | label name =>
    obtain ⟨name', hname, hnone⟩ := hidden
    rw [List.mem_singleton.mp hname] at hnone
    exact ⟨name, by rw [eval, hnone]⟩
  | neg t ih | lsb t ih | byte index t ih =>
    obtain ⟨w, hw, -⟩ := bind_eq_ok.mp hv
    obtain ⟨name, hname⟩ := ih hw h hidden
    exact ⟨name, by rw [eval, hname]; rfl⟩
  | binary op l r ihl ihr =>
    obtain ⟨x, hx, hv⟩ := bind_eq_ok.mp hv
    obtain ⟨y, hy, -⟩ := bind_eq_ok.mp hv
    have hleft : ∀ name ∈ l.labels, labels' name = labels name ∨ labels' name = none :=
      fun name hname => h name (List.mem_append_left _ hname)
    have hright : ∀ name ∈ r.labels, labels' name = labels name ∨ labels' name = none :=
      fun name hname => h name (List.mem_append_right _ hname)
    by_cases hfirst : ∃ name ∈ l.labels, labels' name = none
    · obtain ⟨name, hname⟩ := ihl hx hleft hfirst
      exact ⟨name, by rw [eval, hname]; rfl⟩
    · have hsame : l.eval labels' = .ok x := by
        rw [← hx]
        exact eval_congr fun name hname => (hleft name hname).resolve_right fun hnone =>
          hfirst ⟨name, hname, hnone⟩
      obtain ⟨name, hmem, hnone⟩ := hidden
      have hsecond : ∃ name ∈ r.labels, labels' name = none :=
        ⟨name, (List.mem_append.mp hmem).resolve_left fun hl => hfirst ⟨name, hl, hnone⟩, hnone⟩
      obtain ⟨name', hname'⟩ := ihr hy hright hsecond
      exact ⟨name', by rw [eval, hsame, hname']; rfl⟩

end Term

/-- **What is read where a label is mentioned.** Let a label have the name `s`. If the name is not
written like a binary number, it is one token, which is this label, and the expression `s` has the
value of the label, or none if the label has none. If it is, the expression `s` is this number,
whatever labels there are, or it is refused if the number is too large. -/
theorem parse_of_isLabel (s : String) (h : isLabel s.toList = true) :
    (¬ IsBinaryName s.toList →
      Token.scan s.toList = .ok [.label s] ∧
      ∃ e, Expression.parse s = .ok e ∧ ∀ labels : Labels,
        (∀ v, labels s = some v → e.eval labels = .ok v) ∧
        (labels s = none → e.eval labels = .error (.unknownLabel s))) ∧
    (IsBinaryName s.toList → ∃ n : Nat, Text.readNat 2 s.toList.tail = some n ∧
      (Number.fits n = true → Token.scan s.toList = .ok [.number s n] ∧
        ∃ e, Expression.parse s = .ok e ∧ ∀ labels : Labels, e.eval labels = .ok (n : Int)) ∧
      (Number.fits n = false → Expression.parse s = .error (.badNumber s))) := by
  have hscan := Token.scan_of_isLabel h
  refine ⟨fun hname => ?_, fun hbinary => ?_⟩
  · rw [Token.ofNameWord_of_not_binary h hname, String.ofList_toList, ok_bind] at hscan
    refine ⟨hscan, _, Expression.parse_of_scan (d := .label s) hscan rfl, fun labels => ⟨?_, ?_⟩⟩
    · intro v hv
      simp [Expression.eval, Term.eval, hv]
    · intro hnone
      simp [Expression.eval, Term.eval, hnone]
  · rw [Token.ofNameWord_of_binary hbinary] at hscan
    obtain ⟨hne, n, hn⟩ := hbinary.exists_readNat
    have hnumeral : Token.numeral s.toList s.toList.tail 2 =
        if Number.fits n then .ok (.number s n) else .error (.badNumber s) := by
      rw [Token.numeral, if_neg (by simpa using hne), hn, String.ofList_toList]
    rw [hnumeral] at hscan
    refine ⟨n, hn, fun hfits => ?_, fun hfits => ?_⟩
    · rw [if_pos hfits, ok_bind] at hscan
      exact ⟨hscan, _, Expression.parse_of_scan (d := .number s n) hscan rfl, fun labels => rfl⟩
    · rw [hfits, if_neg Bool.false_ne_true, error_bind] at hscan
      rw [Expression.parse, hscan, error_bind]

/-- A name that would be a function before a parenthesis is a label alone, and a `b` before other
digits too. -/
theorem parse_of_isLabel_function_name :
    (∃ e, Expression.parse "BYTE1" = .ok e ∧
      e.eval (fun name => if name = "BYTE1" then some 7 else none) = .ok 7) ∧
    ∃ e, Expression.parse "b12" = .ok e ∧
      e.eval (fun _ => none) = .error (.unknownLabel "b12") := by
  constructor
  · obtain ⟨-, e, he, hlabels⟩ := (parse_of_isLabel "BYTE1" (by decide)).1 (by decide)
    exact ⟨e, he, (hlabels _).1 7 (if_pos rfl)⟩
  · obtain ⟨-, e, he, hlabels⟩ := (parse_of_isLabel "b12" (by decide)).1 (by decide)
    exact ⟨e, he, (hlabels _).2 rfl⟩

/-- A label can be called `b1`, but the expression `b1` is the number 1 whatever value the label
has. -/
theorem binary_name_never_seen :
    let isa := Isa.bare { size := 8, segment := 8, order := .big } (by decide) (by decide)
    let r : Reader :=
      { env := { isa, zones := default, scopes := .empty, named := [] }, symbols := [],
        position := { zone := 0, scope := 0, active := [], compilable := true, muted := false },
        line := default }
    isLabel "b1".toList = true ∧ r.checkLabel "b1".toList = .ok () ∧
      Token.scan "b1".toList = .ok [.number "b1" 1] ∧
      ∃ e, Expression.parse "b1" = .ok e ∧
        e.eval (fun name => if name = "b1" then some 7 else none) = .ok 1 := by
  intro isa r
  refine ⟨by decide, by decide +kernel, by decide +kernel, ⟨"b1", .number 1⟩,
    by decide +kernel, rfl⟩

end Retarget
