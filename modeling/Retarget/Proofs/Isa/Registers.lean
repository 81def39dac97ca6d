import Retarget.Isa.Match
import Retarget.Proofs.Expr.Dependence
import Retarget.Proofs.Statement.Labelled
import Retarget.Proofs.Text.LetterCase

/-!
# Registers and numbers

A register operand takes its register in any letter case. An operand for numbers declines a text
only if the text is no expression or if one of its labels is a register, letter for letter. The two
agree on names that are spelled as they are declared.

* `isSome_numericExpression`: which texts operands for numbers take;
* `isPlainName_congr`: whether a text is a name does not depend on the case of its letters;
* `IsPlainName.isRegisterFree_iff`, `IsPlainName.not_isRegisterFree_append`: texts that begin with a
  name;
* `OperandBase.of_matchIndirect`: what a register in brackets looks like.
-/

namespace Retarget

/-! ## Expressions without registers -/

/-- The text is an expression without brackets, and none of its labels is one of the registers. -/
def IsRegisterFree (registers : NameSet) (cs : List Char) : Prop :=
  (∀ c ∈ cs, isBracket c = false) ∧
    ∃ d : ParseTree 4, Token.scan cs = .ok d.tokens ∧ ∀ name, Token.label name ∈ d.tokens →
      name ∉ registers

theorem numericExpression_eq_some {registers : NameSet} {cs : List Char} {e : Expression} :
    numericExpression registers cs = some e ↔ cs.any isBracket = false ∧
      Expression.parse (String.ofList cs) = .ok e ∧ e.mentionsAny registers = false := by
  have hempty (e : Expression) : Expression.parse (String.ofList []) ≠ .ok e := by
    intro h
    have hnone : (Expression.parse (String.ofList [])).toOption = none := by decide +kernel
    rw [h] at hnone
    cases hnone
  unfold numericExpression
  cases cs with
  | nil => simp [hempty]
  | cons c cs =>
    cases hbracket : (c :: cs).any isBracket with
    | true => simp
    | false =>
      cases hparse : Expression.parse (String.ofList (c :: cs)) with
      | error err => simp
      | ok found =>
        cases hmentions : found.mentionsAny registers <;> simp [hmentions] <;> rintro rfl
          <;> exact hmentions

/-- The texts that operands for numbers take. -/
theorem isSome_numericExpression {registers : NameSet} {cs : List Char} :
    (numericExpression registers cs).isSome = true ↔ IsRegisterFree registers cs := by
  have hbrackets : cs.any isBracket = false ↔ ∀ c ∈ cs, isBracket c = false := by
    simp only [List.any_eq_false, Bool.not_eq_true]
  have hfree {text : String} {d : ParseTree 4} :
      Expression.mentionsAny { text, term := d.term } registers = false ↔
      ∀ name, Token.label name ∈ d.tokens → name ∉ registers := by
    rw [Expression.mentionsAny_eq_false]
    exact forall_congr' fun name => imp_congr_left d.mem_labels
  simp only [Option.isSome_iff_exists, numericExpression_eq_some, hbrackets, exists_and_left,
    IsRegisterFree]
  refine and_congr_right fun _ => ?_
  constructor
  · rintro ⟨e, he, hmentions⟩
    obtain ⟨d, hd, rfl⟩ := Expression.parse_eq_ok.mp he
    rw [String.toList_ofList] at hd
    exact ⟨d, hd, hfree.mp hmentions⟩
  · rintro ⟨d, hd, hnames⟩
    refine ⟨_, Expression.parse_eq_ok.mpr ⟨d, ?_, rfl⟩, hfree.mpr hnames⟩
    rw [String.toList_ofList, hd]

/-! ## Letter case -/

theorem isLabel_cons_iff {c : Char} {rest : List Char} : isLabel (c :: rest) = true ↔
    (∀ d ∈ rest, Text.isNameChar d = true) ∧
    (Text.isLetter c = true ∨ (c = '.' ∨ c = '_' ∧ rest.head? ≠ some '_') ∧ rest ≠ []) := by
  unfold isLabel
  split
  · rename_i more heq
    cases heq
    have hletter : Text.isLetter '_' = false := rfl
    simp [hletter]
  · rename_i c' rest' hne heq
    cases heq
    have hline (h : c = '_') : rest.head? ≠ some '_' := by
      intro hhead
      obtain ⟨more, rfl⟩ := List.head?_eq_some_iff.mp hhead
      exact hne more h rfl
    rw [and_iff_left_of_imp hline]
    cases Text.isLetter c with
    | true => simp
    | false =>
      simp only [Bool.false_eq_true, if_false, false_or, Bool.or_eq_true, beq_iff_eq]
      split
      · rename_i h
        simp [h, and_comm]
      · rename_i h
        simp [h]
  · rename_i heq
    cases heq

theorem isLabel_map_toLower (cs : List Char) : isLabel (cs.map Char.toLower) = isLabel cs := by
  cases cs with
  | nil => rfl
  | cons c rest =>
    have hdot (d : Char) : d.toLower = '.' ↔ d = '.' := Text.toLower_eq_iff rfl
    have hline (d : Char) : d.toLower = '_' ↔ d = '_' := Text.toLower_eq_iff rfl
    have hhead : (rest.map Char.toLower).head? = some '_' ↔ rest.head? = some '_' := by
      cases rest <;> simp [hline]
    rw [Bool.eq_iff_iff, List.map_cons, isLabel_cons_iff, isLabel_cons_iff]
    simp only [List.forall_mem_map, Text.isNameChar_toLower, Text.isLetter_toLower, ne_eq,
      List.map_eq_nil_iff, hdot, hline, hhead]

theorem isBinaryName_map_toLower {cs : List Char} :
    IsBinaryName (cs.map Char.toLower) ↔ IsBinaryName cs := by
  cases cs with
  | nil => exact Iff.rfl
  | cons c digits =>
    have hzero (d : Char) : d.toLower = '0' ↔ d = '0' := Text.toLower_eq_iff rfl
    have hone (d : Char) : d.toLower = '1' ↔ d = '1' := Text.toLower_eq_iff rfl
    simp only [List.map_cons, IsBinaryName, Text.toLower_eq_b_iff, List.forall_mem_map, ne_eq,
      List.map_eq_nil_iff, hzero, hone]

/-! ## Texts that begin with a name -/

/-- What an expression takes for the name of a label. -/
def IsPlainName (cs : List Char) : Prop := isLabel cs = true ∧ ¬ IsBinaryName cs

instance : DecidablePred IsPlainName := fun _ => inferInstanceAs (Decidable (_ ∧ _))

/-- A name stays one when the case of its letters changes. -/
theorem isPlainName_congr {a b : String} (h : Text.equalIgnoringCase a b = true) :
    IsPlainName a.toList ↔ IsPlainName b.toList := by
  rw [IsPlainName, ← isLabel_map_toLower, ← isBinaryName_map_toLower,
    Text.equalIgnoringCase_iff.mp h, isLabel_map_toLower, isBinaryName_map_toLower, IsPlainName]

namespace IsPlainName

variable {registers : NameSet} {cs rest : List Char}

theorem isBracket_eq_false (h : IsPlainName cs) {c : Char} (hc : c ∈ cs) : isBracket c = false := by
  obtain ⟨first, word, rfl, hfirst, hword⟩ := startsName_of_isLabel h.1
  have hstart : StartsName c ∨ Text.isNameChar c = true := by
    rcases List.mem_cons.mp hc with rfl | hc
    · exact .inl hfirst
    · exact .inr (hword c hc)
  cases hbracket : isBracket c with
  | false => rfl
  | true =>
    simp only [isBracket, Bool.or_eq_true, beq_iff_eq] at hbracket
    rcases hbracket with ((rfl | rfl) | rfl) | rfl <;> revert hstart
      <;> unfold StartsName <;> decide

/-- The first token of a text that begins with a name is the label of this name. -/
theorem label_mem_of_scan (h : IsPlainName cs) (hrest : Token.WordEnds rest) {ts : List Token}
    (hscan : Token.scan (cs ++ rest) = .ok ts) : Token.label (String.ofList cs) ∈ ts := by
  have hname := Token.ofNameWord_of_not_binary h.1 h.2
  obtain ⟨c, word, rfl, hc, hword⟩ := startsName_of_isLabel h.1
  rw [Token.scan, List.cons_append, Token.scanFrom_cons hc.isBlank_eq_false,
    Token.next_name hc hword hrest, hname, ok_bind, ok_bind] at hscan
  obtain ⟨more, -, hts⟩ := bind_eq_ok.mp hscan
  cases hts
  exact List.mem_cons_self

/-- A text that begins with a register is never taken for a number. -/
theorem not_isRegisterFree_append (h : IsPlainName cs) (hrest : Token.WordEnds rest)
    (hmem : String.ofList cs ∈ registers) : ¬ IsRegisterFree registers (cs ++ rest) := by
  rintro ⟨-, d, hd, hfree⟩
  exact hfree _ (h.label_mem_of_scan hrest hd) hmem

/-- A name is taken for a number unless it is a register, letter for letter. -/
theorem isRegisterFree_iff (h : IsPlainName cs) :
    IsRegisterFree registers cs ↔ String.ofList cs ∉ registers := by
  constructor
  · intro hfree hmem
    refine h.not_isRegisterFree_append .nil hmem ?_
    rwa [List.append_nil]
  · intro hmem
    refine ⟨fun c hc => h.isBracket_eq_false hc, (ParseTree.label (String.ofList cs)).alone, ?_, ?_⟩
    · rw [Token.scan_of_isLabel h.1, Token.ofNameWord_of_not_binary h.1 h.2, ok_bind]
      simp [ParseTree.alone]
    · intro name hname
      have hname : name = String.ofList cs := by simpa [ParseTree.alone] using hname
      rwa [hname]

end IsPlainName

/-! ## Brackets and decorators -/

theorem inBrackets_eq_some {cs inner : List Char} :
    inBrackets cs = some inner ↔ ∃ body, Text.trim cs = '[' :: (body ++ [']']) ∧
      inner = Text.trim body := by
  unfold inBrackets between
  cases Text.trim cs with
  | nil => simp
  | cons c rest =>
    constructor
    · intro h
      obtain ⟨hends, h⟩ := Option.ite_none_right_eq_some.mp h
      simp only [Bool.and_eq_true, beq_iff_eq] at hends
      obtain ⟨body, rfl⟩ := List.getLast?_eq_some_iff.mp hends.2
      refine ⟨body, by rw [hends.1], ?_⟩
      rw [← Option.some.inj h, List.dropLast_concat]
    · rintro ⟨body, heq, rfl⟩
      cases heq
      simp

namespace Decorator

/-- What is left of a text without its decorator followed a mark. -/
theorem exists_mark_of_stripStart {d : Decorator} {cs rest : List Char}
    (h : d.stripStart cs = some rest) : ∃ mark more, isMark mark = true ∧ cs = mark :: more := by
  unfold stripStart at h
  split at h
  · rename_i htext
    obtain ⟨more, rfl⟩ := List.isPrefixOf_iff_prefix.mp htext
    cases d <;> exact ⟨_, _, rfl, rfl⟩
  · cases h

end Decorator

/-- A mark is not blank and no bracket. -/
theorem Decorator.isMark_spec {mark : Char} (h : isMark mark = true) :
    Text.isBlank mark = false ∧ mark ≠ '[' ∧ mark ≠ ']' := by
  simp only [isMark, Bool.or_eq_true, beq_iff_eq] at h
  rcases h with ((rfl | rfl) | rfl) | rfl <;> decide

namespace OperandBase

variable {b : OperandBase} {c : MatchContext} {cs rest inner : List Char}

/-- A text in brackets has no decorator around them. -/
theorem eq_of_undecorated (h : b.undecorated cs = some rest) (hinner : inBrackets cs = some inner) :
    rest = cs := by
  obtain ⟨body, hbody, -⟩ := inBrackets_eq_some.mp hinner
  unfold undecorated at h
  split at h
  · rename_i d _
    exfalso
    unfold Decoration.strip at h
    split at h
    · obtain ⟨mark, more, hmark, rfl⟩ := Decorator.exists_mark_of_stripStart h
      obtain ⟨hblank, hopening, -⟩ := Decorator.isMark_spec hmark
      rw [Text.trim_cons hblank] at hbody
      exact hopening (List.cons.inj hbody).1
    · obtain ⟨left, hleft, -⟩ := Option.map_eq_some_iff.mp h
      obtain ⟨mark, more, hmark, hcs⟩ := Decorator.exists_mark_of_stripStart hleft
      obtain ⟨hblank, -, hclosing⟩ := Decorator.isMark_spec hmark
      rw [List.reverse_eq_cons_iff.mp hcs, Text.trim_concat hblank, ← List.cons_append] at hbody
      exact hclosing (List.singleton_inj.mp (List.append_inj' hbody rfl).2)
  · exact (Option.some.inj h).symm

/-- The register stands at the start of the text, in some letter case. -/
theorem of_splitRegister {r : String} {head : List Char} (hb : b.register = some r)
    (h : b.splitRegister cs = some (head, rest)) :
    rest = (Text.trimStart cs).drop r.length ∧
      Text.equalIgnoringCase (String.ofList ((Text.trimStart cs).take r.length)) r = true ∧
      ∀ d ∈ rest.head?, Text.isNameChar d = false := by
  unfold splitRegister at h
  rw [hb] at h
  obtain ⟨hcond, heq⟩ := Option.ite_none_right_eq_some.mp h
  obtain ⟨hhead, hrest⟩ := Bool.and_eq_true_iff.mp hcond
  cases heq
  refine ⟨rfl, hhead, fun d hd => ?_⟩
  simpa [Option.mem_def.mp hd] using hrest

/-- An offset begins with a sign. -/
theorem head_ne_of_readOffset (h : (readOffset c rest).isSome = true) :
    ∀ d ∈ rest.head?, d ≠ '(' := by
  rintro d hd rfl
  obtain ⟨more, rfl⟩ := List.head?_eq_some_iff.mp hd
  unfold readOffset at h
  rw [Text.trim_cons rfl] at h
  dsimp only at h
  split at h <;> cases h

/-- What a register in brackets looks like. -/
theorem of_matchIndirect {r : String} {offset : Option FieldFormat} {m : MatchedOperand}
    (hb : b.register = some r) (h : b.matchIndirect c offset cs = .ok (some m))
    (hinner : inBrackets cs = some inner) :
    Text.equalIgnoringCase (String.ofList (inner.take r.length)) r = true ∧
      Token.WordEnds (inner.drop r.length) := by
  unfold matchIndirect at h
  split at h
  · cases h
  · rename_i inner' hinner'
    obtain ⟨plain, hplain, hinner'⟩ := Option.bind_eq_some_iff.mp hinner'
    rw [eq_of_undecorated hplain hinner, hinner] at hinner'
    cases hinner'
    split at h
    · cases h
    · rename_i head rest hsplit
      obtain ⟨body, -, rfl⟩ := inBrackets_eq_some.mp hinner
      obtain ⟨rfl, hhead, hrest⟩ := of_splitRegister hb hsplit
      rw [Text.trimStart_trim] at hhead hrest h
      have hoffset : (readOffset c ((Text.trim body).drop r.length)).isSome = true := by
        cases hnone : readOffset c ((Text.trim body).drop r.length) with
        | none =>
          rw [hnone] at h
          cases h
        | some e => rfl
      exact ⟨hhead, fun d hd => ⟨hrest d hd, head_ne_of_readOffset hoffset d hd⟩⟩

end OperandBase

/-! ## Operands for numbers -/

namespace OperandKind

/-- The shapes whose text is an expression, without anything around it. -/
def IsNumeric : OperandKind → Prop
  | numeric _ | numericEnumeration _ _ | numericCode _ _ | address _ _ _ => True
  | relativeAddress braces _ _ _ => braces = false
  | _ => False

/-- An expression in brackets. -/
def IsIndirectNumeric : OperandKind → Prop
  | indirectNumeric _ => True
  | _ => False

variable {kind : OperandKind} {b : OperandBase} {c : MatchContext} {cs inner : List Char}

/-- A text that is taken for a register is this register in some letter case. -/
theorem equalIgnoringCase_of_register {r : String} {m : MatchedOperand} (hb : b.register = some r)
    (hplain : b.decoration = none) (h : register.matchText b c (Text.trim cs) = .ok (some m)) :
    Text.equalIgnoringCase r (String.ofList (Text.trim cs)) = true := by
  have hundecorated : b.undecorated (Text.trim cs) = some (Text.trim cs) := by
    rw [OperandBase.undecorated, hplain]
  rw [matchText, hundecorated, Option.bind_some] at h
  obtain ⟨hregister, -⟩ := Option.ite_none_right_eq_some.mp (Except.ok.inj h)
  rwa [OperandBase.isRegister, hb, Option.any_some, Text.trim_trim] at hregister

theorem matchText_of_isNumeric (hkind : kind.IsNumeric)
    (h : numericExpression c.registers cs = none) : kind.matchText b c cs = .ok none := by
  cases kind with
  | numeric zoned => simp [matchText, OperandBase.matchNumeric, h]
  | numericEnumeration codes arguments => simp [matchText, OperandBase.matchSelection, h]
  | numericCode greatest least => simp [matchText, h]
  | address zone low samePage => simp [matchText, OperandBase.matchAddress, h]
  | relativeAddress braces least greatest fromEnd =>
    have hbraces : braces = false := hkind
    simp [matchText, hbraces, h]
  | _ => exact hkind.elim

theorem matchText_indirectNumeric {zoned : Bool} (hinner : inBrackets cs = some inner) :
    (indirectNumeric zoned).matchText b c cs = .ok (b.matchNumeric c zoned cs inner) := by
  have hbracket (h : inner.contains '[' = true) : numericExpression c.registers inner = none := by
    have hany : inner.any isBracket = true :=
      List.any_eq_true.mpr ⟨'[', List.contains_iff_mem.mp h, rfl⟩
    rw [numericExpression, hany, Bool.or_true, if_pos rfl]
  rw [matchText, hinner, Option.bind_some]
  split
  · rename_i h
    rw [OperandBase.matchNumeric, hbracket h, Option.map_none]
  · rfl

end OperandKind

namespace MatchContext

variable {c : MatchContext} {text inner : List Char}

/-- No operand of these shapes takes the text. -/
def Declines (c : MatchContext) (shapes : OperandKind → Prop) (text : List Char) : Prop :=
  ∀ base kind, shapes kind → (Operand.simple base kind).matchText c text = .ok none

theorem numericExpression_eq_none_iff :
    numericExpression c.registers text = none ↔ ¬ IsRegisterFree c.registers text := by
  rw [← isSome_numericExpression, Bool.not_eq_true, Option.isSome_eq_false_iff,
    Option.isNone_iff_eq_none]

theorem declines_isNumeric_iff (base : OperandBase) :
    c.Declines OperandKind.IsNumeric text ↔ ¬ IsRegisterFree c.registers (Text.trim text) := by
  rw [← numericExpression_eq_none_iff]
  constructor
  · intro h
    have hnumeric := Except.ok.inj (h base (.numeric false) trivial)
    exact Option.map_eq_none_iff.mp hnumeric
  · intro h base kind hkind
    exact OperandKind.matchText_of_isNumeric hkind h

theorem declines_isIndirectNumeric_iff (base : OperandBase)
    (hinner : inBrackets (Text.trim text) = some inner) :
    c.Declines OperandKind.IsIndirectNumeric text ↔ ¬ IsRegisterFree c.registers inner := by
  have hmatch (base : OperandBase) (zoned : Bool) :
      (Operand.simple base (.indirectNumeric zoned)).matchText c text =
      .ok none ↔ numericExpression c.registers inner = none := by
    rw [Operand.matchText, OperandKind.matchText_indirectNumeric hinner, Except.ok.injEq]
    exact Option.map_eq_none_iff
  rw [← numericExpression_eq_none_iff]
  constructor
  · intro h
    exact (hmatch base false).mp (h base (.indirectNumeric false) trivial)
  · intro h base kind hkind
    cases kind with
    | indirectNumeric zoned => exact (hmatch base zoned).mpr h
    | _ => exact hkind.elim

end MatchContext

/-- **Registers and operands for numbers.** Let a register operand without a decorator take a text.
All operands for numbers decline it exactly if it is not an expression without registers; where the
register is a name, exactly if the text is one of the registers, letter for letter. Let an operand
for a register in brackets take a text in brackets. All operands for numbers in brackets decline it
exactly if there is not an expression without registers in the brackets; where the register is a
name, they decline it if it is written as one of the registers, letter for letter. -/
theorem numbers_decline_registers (c : MatchContext) (r : String) (b : OperandBase)
    (hb : b.register = some r) (text : List Char) :
    (∀ m, b.decoration = none → (Operand.simple b .register).matchText c text = .ok (some m) →
      (c.Declines OperandKind.IsNumeric text ↔ ¬ IsRegisterFree c.registers (Text.trim text)) ∧
      (IsPlainName r.toList →
        (c.Declines OperandKind.IsNumeric text ↔ String.ofList (Text.trim text) ∈ c.registers))) ∧
    ∀ m offset inner,
      (Operand.simple b (.indirectRegister offset)).matchText c text = .ok (some m) →
      inBrackets (Text.trim text) = some inner →
      (c.Declines OperandKind.IsIndirectNumeric text ↔ ¬ IsRegisterFree c.registers inner) ∧
      (IsPlainName r.toList → String.ofList (inner.take r.length) ∈ c.registers →
        c.Declines OperandKind.IsIndirectNumeric text) := by
  refine ⟨fun m hplain hm => ?_, fun m offset inner hm hinner => ?_⟩
  · have hdeclines : c.Declines OperandKind.IsNumeric text ↔ _ :=
      MatchContext.declines_isNumeric_iff b
    refine ⟨hdeclines, fun hr => ?_⟩
    have hname := (isPlainName_congr (OperandKind.equalIgnoringCase_of_register hb hplain hm)).mp hr
    rw [String.toList_ofList] at hname
    rw [hdeclines, hname.isRegisterFree_iff, not_not]
  · have hdeclines : c.Declines OperandKind.IsIndirectNumeric text ↔ _ :=
      MatchContext.declines_isIndirectNumeric_iff b hinner
    refine ⟨hdeclines, fun hr hmem => hdeclines.mpr ?_⟩
    obtain ⟨hwritten, hrest⟩ := OperandBase.of_matchIndirect hb hm hinner
    have hname := (isPlainName_congr hwritten).mpr hr
    rw [String.toList_ofList] at hname
    rw [← List.take_append_drop r.length inner]
    exact hname.not_isRegisterFree_append hrest hmem

/-- The operand of a register, without code bits. -/
def OperandBase.ofRegister (r : String) : OperandBase :=
  { id := r, code := none, codeSize := 0, place := .after, argument := none, register := some r,
    decoration := none,
    wordOrder := .big, segmentOrder := .big }

/-- Whether an operand takes a text. -/
def MatchContext.takes (c : MatchContext) (text : String) (o : Operand) : Bool :=
  (o.matchText c text.toList).toOption.any Option.isSome

theorem MatchContext.exists_of_takes {c : MatchContext} {text : String} {o : Operand}
    (h : c.takes text o = true) : ∃ m, o.matchText c text.toList = .ok (some m) := by
  unfold takes at h
  match hmatch : o.matchText c text.toList with
  | .ok (some m) => exact ⟨m, rfl⟩
  | .ok none | .error e =>
    rw [hmatch] at h
    cases h

/-- A register with blanks around it, and one in brackets with an offset. -/
theorem numbers_decline_registers_with_offset :
    let c : MatchContext := { line := default, registers := ["a", "hl"], zones := default }
    c.Declines OperandKind.IsNumeric " hl ".toList ∧
      c.Declines OperandKind.IsIndirectNumeric "[hl + 2]".toList := by
  intro c
  let b := OperandBase.ofRegister "hl"
  let offset : FieldFormat :=
    { size := 8, aligned := true, wordOrder := .big, segmentOrder := .big }
  have hname : IsPlainName "hl".toList := by decide
  constructor
  · obtain ⟨m, hm⟩ :=
      MatchContext.exists_of_takes (show c.takes " hl " (.simple b .register) =
        true by decide +kernel)
    exact (((numbers_decline_registers c "hl" b rfl _).1 m rfl hm).2 hname).mpr (by decide +kernel)
  · obtain ⟨m, hm⟩ := MatchContext.exists_of_takes
      (show c.takes "[hl + 2]" (.simple b (.indirectRegister (some offset))) =
        true by decide +kernel)
    have hinner : inBrackets (Text.trim "[hl + 2]".toList) = some "hl + 2".toList := by
      decide +kernel
    exact ((numbers_decline_registers c "hl" b rfl _).2 m _ _ hm hinner).2 hname (by decide +kernel)

/-- Where registers are called `a` and `b1`, operands for numbers take `A`, `b1` and `[A]`, as those
of registers do. -/
theorem numbers_take_registers :
    let c : MatchContext := { line := default, registers := ["a", "b1"], zones := default }
    let a := OperandBase.ofRegister "a"
    let b1 := OperandBase.ofRegister "b1"
    let number := { a with register := none }
    c.takes "A" (.simple a .register) = true ∧
      c.takes "A" (.simple number (.numeric false)) = true ∧
      c.takes "b1" (.simple b1 .register) = true ∧
        c.takes "b1" (.simple number (.numeric false)) = true ∧
      c.takes "[A]" (.simple a (.indirectRegister none)) = true ∧
      c.takes "[A]" (.simple number (.indirectNumeric false)) = true := by
  decide +kernel

end Retarget
