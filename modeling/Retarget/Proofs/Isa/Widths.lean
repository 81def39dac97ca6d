import Retarget.Isa.Match
import Retarget.Proofs.Result

/-!
# Widths of code bits

An operand that takes a text contributes code bits. For most shapes their number is a matter of the
configuration (`Operand.HasWidth`), and it need not be the one that the operand declares: without
fixed code bits there are none, a word may have an argument only, and a register with an index has
the code bits of the index behind its own. Their sum is counted in 32 bits (`Counter.Counts`).

* `OperandKind.codeWidth_matchText`: the code bits of the shapes without an index;
* `Operand.exists_of_matchText_indexed`: how a register with an index takes a text;
* `Operand.codeSize_of_ofSpec`: what is checked of the index operands.
-/

namespace Retarget

theorem NameTable.isSome_lookup {α : Type} {t : NameTable α} {name : String} :
    (t.lookup name).isSome = true ↔ name ∈ t.names := by
  have hnone : t.lookup name = none ↔ ¬ name ∈ t.names := by
    rw [List.lookup_eq_none_iff, names, List.mem_map, not_exists]
    refine forall_congr' fun entry => ?_
    rw [bne_iff_ne, not_and]
    exact imp_congr_right fun _ => ne_comm
  rw [← Option.ne_none_iff_isSome, ne_eq, hnone, not_not]

/-- A width that counts to `n` in 32 bits: it is `n` up to multiples of `2 ^ 32`, and `n` itself if
that is less. -/
structure Counter.Counts (width n : Nat) : Prop where
  wrap_eq : wrap width = wrap n
  eq_of_lt : n < 2 ^ (32 : Nat) → width = n

namespace Counter.Counts

theorem refl (n : Nat) : Counts n n := ⟨rfl, fun _ => rfl⟩

theorem add (m n : Nat) : Counts (Counter.add m n) (m + n) := ⟨wrap_wrap _, wrap_of_lt⟩

/-- What is counted may be counted from other widths. -/
theorem trans_add {width m k n : Nat} (h : Counts width (m + k)) (hk : Counts k n) :
    Counts width (m + n) where
  wrap_eq := by
    have hsum : Counter.add m k = Counter.add m n := by
      rw [← add_wrap_right, hk.wrap_eq, add_wrap_right]
    exact h.wrap_eq.trans hsum
  eq_of_lt hlt := by
    have hkn := hk.eq_of_lt (by omega)
    rw [h.eq_of_lt (by omega), hkn]

end Counter.Counts

/-- How many code bits an operand contributes. -/
def MatchedOperand.codeWidth (m : MatchedOperand) : Nat := m.code.elim 0 Field.size

namespace OperandBase

variable {b : OperandBase} {c : MatchContext} {m : MatchedOperand} {text inner : List Char}

/-- The width of the fixed code bits. -/
def fixedWidth (b : OperandBase) : Nat := if b.code.isSome then b.codeSize else 0

theorem codeWidth_of_fixedCode (h : m.code = b.fixedCode c.line) : m.codeWidth = b.fixedWidth := by
  rw [MatchedOperand.codeWidth, h, fixedCode, fixedWidth]
  cases b.code <;> rfl

theorem code_of_matchNumeric {zoned : Bool} (h : b.matchNumeric c zoned text inner = some m) :
    m.code = b.fixedCode c.line := by
  obtain ⟨e, -, rfl⟩ := Option.map_eq_some_iff.mp h
  rfl

theorem code_of_matchIndirect {offset : Option FieldFormat}
    (h : b.matchIndirect c offset text = .ok (some m)) : m.code = b.fixedCode c.line := by
  unfold matchIndirect at h
  split at h
  · cases h
  · split at h
    · cases h
    · split at h
      · cases h
      · cases h
      · cases h
        rfl
      · cases h
        rfl

theorem code_of_matchAddress {zone : String} {low samePage : Bool}
    (h : b.matchAddress c zone low samePage text = .ok (some m)) : m.code = b.fixedCode c.line := by
  unfold matchAddress at h
  split at h
  · cases h
  · split at h
    · cases h
    · cases h
      rfl

/-- A word has code bits if it is in their table. -/
theorem codeWidth_of_matchWord {codes arguments : NameTable Int}
    (h : b.matchWord c codes arguments text = some m) :
    m.codeWidth = b.codeSize ∧ String.ofList text ∈ codes.names ∨
      m.codeWidth = 0 ∧ String.ofList text ∈ arguments.names ∧
        String.ofList text ∉ codes.names := by
  unfold matchWord at h
  dsimp only at h
  obtain ⟨hsome, h⟩ := Option.ite_none_left_eq_some.mp h
  cases h
  cases hcode : codes.lookup (String.ofList text) with
  | some v => exact .inl ⟨rfl, NameTable.isSome_lookup.mp (by rw [hcode]; rfl)⟩
  | none =>
    refine .inr ⟨rfl, NameTable.isSome_lookup.mp ?_, fun hmem => ?_⟩
    · cases hargument : arguments.lookup (String.ofList text) with
      | some v => rfl
      | none => simp [hcode, hargument] at hsome
    · have hfound := NameTable.isSome_lookup.mpr hmem
      rw [hcode] at hfound
      cases hfound

end OperandBase

namespace OperandKind

/-- All texts that the shape takes give `w` code bits. -/
def HasWidth (b : OperandBase) (w : Nat) : OperandKind → Prop
  | enumeration codes arguments =>
    (codes ≠ [] → w = b.codeSize) ∧ ∀ word ∈ arguments.names, word ∉ codes.names → w = 0
  | numericEnumeration codes _ => w = if codes.isSome then b.codeSize else 0
  | numericCode _ _ => w = b.codeSize
  | _ => w = b.fixedWidth

variable {kind : OperandKind} {b : OperandBase} {c : MatchContext} {m : MatchedOperand}
  {text : List Char} {w : Nat}

/-- The code bits of the shapes without an index. -/
theorem codeWidth_matchText (hw : kind.HasWidth b w) (h : kind.matchText b c text = .ok (some m)) :
    m.codeWidth = w := by
  cases kind with
  | empty =>
    cases h
    exact (OperandBase.codeWidth_of_fixedCode rfl).trans hw.symm
  | numeric zoned =>
    exact (OperandBase.codeWidth_of_fixedCode
      (OperandBase.code_of_matchNumeric (Except.ok.inj h))).trans hw.symm
  | indirectNumeric zoned =>
    obtain ⟨inner, -, h⟩ := Option.bind_eq_some_iff.mp (Except.ok.inj h)
    obtain ⟨-, h⟩ := Option.ite_none_left_eq_some.mp h
    exact (OperandBase.codeWidth_of_fixedCode (OperandBase.code_of_matchNumeric h)).trans hw.symm
  | deferredNumeric zoned =>
    obtain ⟨inner, -, h⟩ := Option.bind_eq_some_iff.mp (Except.ok.inj h)
    exact (OperandBase.codeWidth_of_fixedCode (OperandBase.code_of_matchNumeric h)).trans hw.symm
  | register =>
    obtain ⟨plain, -, h⟩ := Option.bind_eq_some_iff.mp (Except.ok.inj h)
    obtain ⟨-, h⟩ := Option.ite_none_right_eq_some.mp h
    cases h
    exact (OperandBase.codeWidth_of_fixedCode rfl).trans hw.symm
  | indirectRegister offset =>
    exact (OperandBase.codeWidth_of_fixedCode (OperandBase.code_of_matchIndirect h)).trans hw.symm
  | enumeration codes arguments =>
    rcases OperandBase.codeWidth_of_matchWord (Except.ok.inj h) with ⟨hm, hmem⟩ | ⟨hm, hmem, hnot⟩
    · rw [hm, hw.1]
      rintro rfl
      cases hmem
    · rw [hm, hw.2 _ hmem hnot]
  | numericEnumeration codes arguments =>
    obtain ⟨e, -, h⟩ := Option.bind_eq_some_iff.mp (Except.ok.inj h)
    obtain ⟨-, h⟩ := Option.ite_none_left_eq_some.mp h
    cases h
    rw [MatchedOperand.codeWidth, hw]
    cases codes <;> rfl
  | numericCode greatest least =>
    obtain ⟨e, -, rfl⟩ := Option.map_eq_some_iff.mp (Except.ok.inj h)
    exact hw.symm
  | address zone low samePage =>
    exact (OperandBase.codeWidth_of_fixedCode (OperandBase.code_of_matchAddress h)).trans hw.symm
  | relativeAddress braces least greatest fromEnd =>
    obtain ⟨e, -, rfl⟩ := Option.map_eq_some_iff.mp (Except.ok.inj h)
    exact (OperandBase.codeWidth_of_fixedCode rfl).trans hw.symm

end OperandKind

namespace Operand

/-- All texts that the operand takes give `w` code bits. -/
inductive HasWidth : Operand → Nat → Prop
  | simple {b : OperandBase} {kind : OperandKind} {w : Nat} (h : kind.HasWidth b w) :
    HasWidth (.simple b kind) w
  | indexed {b : OperandBase} {indexes : List Operand} {indirect : Bool} {w : Nat}
      (h : ∀ o ∈ indexes, HasWidth o w) :
    HasWidth (.indexed b indexes indirect) (b.fixedWidth + w)

variable {o : Operand} {b : OperandBase} {indexes : List Operand} {indirect : Bool}
  {c : MatchContext}
  {m : MatchedOperand} {text : List Char} {w : Nat}

theorem exists_of_matchFirst {operands : List Operand}
    (h : matchFirst c text operands = .ok (some m)) :
    ∃ o ∈ operands, o.matchText c text = .ok (some m) := by
  induction operands with
  | nil => cases h
  | cons o rest ih =>
    rw [matchFirst] at h
    obtain ⟨found, hfound, h⟩ := bind_eq_ok.mp h
    cases found with
    | some m' =>
      cases h
      exact ⟨o, List.mem_cons_self, hfound⟩
    | none =>
      obtain ⟨o', ho', hm⟩ := ih h
      exact ⟨o', List.mem_cons_of_mem o ho', hm⟩

/-- How a register with an index takes a text. -/
theorem exists_of_matchText_indexed
    (h : (indexed b indexes indirect).matchText c text = .ok (some m)) :
    ∃ o ∈ indexes, ∃ index found, o.matchText c index = .ok (some found) ∧
      m = withIndex b c (Text.trim text) found := by
  rw [matchText] at h
  split at h
  · cases h
  · rename_i index _
    obtain ⟨first, hfirst, h⟩ := bind_eq_ok.mp h
    obtain ⟨found, rfl, rfl⟩ := Option.map_eq_some_iff.mp (pure_eq_ok.mp h)
    obtain ⟨o, ho, hfound⟩ := exists_of_matchFirst hfirst
    exact ⟨o, ho, index, found, hfound, rfl⟩

/-- The code bits of an index stand behind those of the register. -/
theorem exists_code_withIndex (b : OperandBase) (c : MatchContext) (text : List Char)
    (found : MatchedOperand) :
    ∃ f, (withIndex b c text found).code = some f ∧
      Counter.Counts f.size (b.fixedWidth + found.codeWidth) := by
  have hown : ((b.fixedCode c.line).getD (b.codeField (.literal 0) 0 c.line)).size =
      b.fixedWidth := by
    rw [OperandBase.fixedCode, OperandBase.fixedWidth]
    cases b.code <;> rfl
  refine ⟨_, rfl, ?_⟩
  rw [MatchedOperand.codeWidth]
  cases found.code with
  | none =>
    rw [← hown]
    exact .refl _
  | some f =>
    have hadd := Counter.Counts.add b.fixedWidth f.size
    rw [← Counter.add_wrap_right, ← hown] at hadd
    rwa [← hown]

/-- **The code bits of an operand.** -/
theorem codeWidth_matchText (hw : o.HasWidth w) (h : o.matchText c text = .ok (some m)) :
    Counter.Counts m.codeWidth w := by
  induction hw generalizing text m with
  | simple hw =>
    rw [matchText] at h
    rw [OperandKind.codeWidth_matchText hw h]
    exact .refl _
  | indexed hw ih =>
    obtain ⟨o, ho, index, found, hfound, rfl⟩ := exists_of_matchText_indexed h
    obtain ⟨f, hf, hsize⟩ := exists_code_withIndex _ c (Text.trim text) found
    rw [MatchedOperand.codeWidth, hf, Option.elim_some]
    exact hsize.trans_add (ih o ho hfound)

/-- All index operands declare the same number of code bits. -/
theorem codeSize_of_ofSpec {defaults : EncodingDefaults} {id : String} {spec : OperandSpec}
    (h : ofSpec defaults id spec = .ok (.indexed b indexes indirect)) :
    ∃ size, ∀ o ∈ indexes, o.base.codeSize = size := by
  cases spec with
  | mk s specs =>
    rw [ofSpec] at h
    obtain ⟨base, -, h⟩ := bind_eq_ok.mp h
    split at h
    · obtain ⟨-, -, h⟩ := bind_eq_ok.mp h
      split at h
      · cases h
      · cases h
      · obtain ⟨operands, -, h⟩ := bind_eq_ok.mp h
        dsimp only at h
        split at h
        · rename_i hsizes
          cases h
          exact ⟨_, fun o ho =>
            beq_iff_eq.mp (List.all_eq_true.mp hsizes o (List.mem_mergeSort.mp ho))⟩
        · cases h
    · obtain ⟨kind, -, h⟩ := bind_eq_ok.mp h
      cases h

end Operand

/-- **The width of a register with an index.** Let an operand for a register with an index be
accepted. A text that it takes goes through one of the index operands, and has as many code bits as
the register and this index together, counted in 32 bits. Where every index operand has the width
that it declares, all texts that the operand takes have the same number of code bits. -/
theorem indexed_operand_width {defaults : EncodingDefaults} {id : String} {spec : OperandSpec}
    {b : OperandBase} {indexes : List Operand} {indirect : Bool}
    (h : Operand.ofSpec defaults id spec = .ok (.indexed b indexes indirect)) :
    (∀ c text m, (Operand.indexed b indexes indirect).matchText c text = .ok (some m) →
      ∃ f, m.code = some f ∧ ∃ o ∈ indexes, ∃ index found, o.matchText c index = .ok (some found) ∧
        Counter.Counts f.size (b.fixedWidth + found.codeWidth) ∧
        ∀ w, o.HasWidth w → Counter.Counts found.codeWidth w) ∧
    ((∀ o ∈ indexes, o.HasWidth o.base.codeSize) →
      ∃ width, (∀ o ∈ indexes, width = b.fixedWidth + o.base.codeSize) ∧
        ∀ c text m, (Operand.indexed b indexes indirect).matchText c text = .ok (some m) →
          ∃ f, m.code = some f ∧ Counter.Counts f.size width) := by
  have hlaw (c : MatchContext) (text : List Char) (m : MatchedOperand)
      (hm : (Operand.indexed b indexes indirect).matchText c text = .ok (some m)) :
      ∃ f, m.code = some f ∧ ∃ o ∈ indexes, ∃ index found, o.matchText c index = .ok (some found) ∧
        Counter.Counts f.size (b.fixedWidth + found.codeWidth) ∧
        ∀ w, o.HasWidth w → Counter.Counts found.codeWidth w := by
    obtain ⟨o, ho, index, found, hfound, rfl⟩ := Operand.exists_of_matchText_indexed hm
    obtain ⟨f, hf, hsize⟩ := Operand.exists_code_withIndex b c (Text.trim text) found
    exact ⟨f, hf, o, ho, index, found, hfound, hsize,
      fun w hw => Operand.codeWidth_matchText hw hfound⟩
  refine ⟨hlaw, fun hwidths => ?_⟩
  obtain ⟨size, hsize⟩ := Operand.codeSize_of_ofSpec h
  refine ⟨b.fixedWidth + size, fun o ho => by rw [hsize o ho], fun c text m hm => ?_⟩
  obtain ⟨f, hf, o, ho, index, found, -, hwidth, hfound⟩ := hlaw c text m hm
  have hindex := hfound _ (hwidths o ho)
  rw [hsize o ho] at hindex
  exact ⟨f, hf, hwidth.trans_add hindex⟩

/-- Settings of an operand with a register and code bits of a width. -/
def OperandSettings.ofRegister (type register : String) (code : Option Int) (size : Nat) :
    OperandSettings :=
  { type, register := some register, argument := none, decorator := none, offset := none,
    braces := false,
    fromEnd := false,
    code := some
      { value := code, size := some size, position := none, table := none, greatest := none,
        least := none } }

/-- The register `hl` with an index. -/
def OperandSpec.indexedHl (indexes : List (String × OperandSpec)) : OperandSpec :=
  .mk (.ofRegister "indexed_register" "hl" (some 1) 2) (some indexes)

/-- What `OperandSpec.indexedHl` has in common with all operands. -/
def OperandBase.indexedHl : OperandBase :=
  { id := "op", code := some 1, codeSize := 2, place := .after, argument := none,
    register := some "hl",
    decoration := none, wordOrder := .big, segmentOrder := .big }

/-- A register with another register or a number as its index. -/
theorem indexed_operand_width_register_or_number :
    let defaults : EncodingDefaults :=
      { wordOrder := .big, segmentOrder := .big, registers := ["a", "hl"] }
    let indexes := [("a", .mk (.ofRegister "register" "a" (some 5) 3) none),
      ("n", .mk
        { OperandSettings.ofRegister "numeric_bytecode" "a" none 3 with register := none } none)]
    ∃ o, Operand.ofSpec defaults "op" (.indexedHl indexes) = .ok o ∧
      ∀ c text m, o.matchText c text = .ok (some m) → ∃ f, m.code = some f ∧ f.size = 5 := by
  intro defaults indexes
  let base := OperandBase.indexedHl
  let register := Operand.simple
    { base with id := "a", code := some 5, codeSize := 3, register := some "a" } .register
  let number := Operand.simple
    { base with id := "n", code := none, codeSize := 3, register := none }
    (.numericCode none none)
  have hspec : Operand.ofSpec defaults "op" (.indexedHl indexes) =
      .ok (.indexed base (Operand.ordered [register, number]) false) := rfl
  have hmem {o : Operand} : o ∈ Operand.ordered [register, number] ↔ o = register ∨ o = number := by
    rw [Operand.ordered, List.mem_mergeSort, List.mem_cons, List.mem_singleton]
  obtain ⟨width, hwidth, hall⟩ := (indexed_operand_width hspec).2 fun o ho => by
    rcases hmem.mp ho with rfl | rfl
    · exact .simple rfl
    · exact .simple rfl
  have hfive : width = 5 := hwidth register (hmem.mpr (.inl rfl))
  subst hfive
  refine ⟨_, hspec, fun c text m hm => ?_⟩
  obtain ⟨f, hf, hcounts⟩ := hall c text m hm
  exact ⟨f, hf, hcounts.eq_of_lt (by decide)⟩

/-- The index operands declare three code bits each. One that has an index itself has six, and one
whose code bits have no value has none. -/
theorem indexed_operand_widths_differ :
    let defaults : EncodingDefaults :=
      { wordOrder := .big, segmentOrder := .big, registers := ["a", "b", "hl"] }
    let c : MatchContext := { line := default, registers := defaults.registers, zones := default }
    let a := ("a", .mk (.ofRegister "register" "a" (some 5) 3) none)
    let nested := ("b", .mk (.ofRegister "indexed_register" "b" (some 6) 3) (some [a]))
    let unset := ("b", .mk (.ofRegister "register" "b" none 3) none)
    let width (indexes : List (String × OperandSpec)) (text : String) : Option Nat := do
      let o ← (Operand.ofSpec defaults "op" (.indexedHl indexes)).toOption
      let m ← (o.matchText c text.toList).toOption.join
      m.code.map Field.size
    width [nested, a] "hl + a" = some 5 ∧ width [nested, a] "hl + b + a" = some 8 ∧
      width [a, unset] "hl + a" = some 5 ∧ width [a, unset] "hl + b" = some 2 := by
  intro defaults c a nested unset width
  -- The sort is by well-founded recursion and does not evaluate; two operands that stand in order
  -- stay so.
  have hordered (x y : Operand) (h : x.precedence ≤ y.precedence) :
      Operand.ordered [x, y] = [x, y] := by
    simp [Operand.ordered, List.mergeSort, h]
  let base := OperandBase.indexedHl
  let register := Operand.simple
    { base with id := "a", code := some 5, codeSize := 3, register := some "a" } .register
  let inner := Operand.indexed
    { base with id := "b", code := some 6, codeSize := 3, register := some "b" }
    (Operand.ordered [register]) false
  let empty := Operand.simple
    { base with id := "b", code := none, codeSize := 3, register := some "b" } .register
  have hnested : Operand.ofSpec defaults "op" (.indexedHl [nested, a]) =
      .ok (.indexed base (Operand.ordered [inner, register]) false) := rfl
  have hunset : Operand.ofSpec defaults "op" (.indexedHl [a, unset]) =
      .ok (.indexed base (Operand.ordered [register, empty]) false) := rfl
  have hinner : Operand.ordered [register] = [register] := List.mergeSort_singleton register
  rw [hordered _ _ (by decide)] at hnested hunset
  simp only [width, hnested, hunset, inner, hinner]
  decide +kernel

end Retarget
