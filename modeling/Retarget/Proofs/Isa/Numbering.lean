import Retarget.Isa.Encode
import Retarget.Proofs.Result

/-!
# Line numbers in encodings

An instruction is encoded alike on every line of a file. The number of the line gets into the fields
and into errors, for the messages about them, and nowhere else: encoding under another number gives
the same encoding or the same error under that number (`Isa.encode_atNumber`).

* `SourceLine.atNumber` and the like: the same thing under another line number;
* `renumber`: the outcome of a step under another line number, and `bind_renumber` for chains of
  steps.
-/

namespace Retarget

/-! ## Steps -/

/-- The line of a file with another number. -/
def SourceLine.atNumber (n : Nat) (line : SourceLine) : SourceLine := { line with number := n }

/-- The error about the line with another number. -/
def Error.atNumber (n : Nat) (e : Error) : Error :=
  { e with line := e.line.map (SourceLine.atNumber n) }

/-- The outcome of a step on the line with another number; `f` says what becomes of its result. -/
def renumber {α β : Type} (n : Nat) (f : α → β) (r : Except Error α) : Except Error β :=
  (r.map f).mapError (Error.atNumber n)

section Steps

variable {α β γ δ ε : Type} [IsCause ε] {n : Nat} {f : α → β} {g : γ → δ}

@[simp] theorem renumber_ok (a : α) : renumber n f (.ok a) = .ok (f a) := rfl

@[simp] theorem renumber_pure (a : α) : renumber n f (pure a) = pure (f a) := rfl

@[simp] theorem renumber_failAt (line : SourceLine) (e : ε) :
    renumber n f (Error.failAt line e) = Error.failAt (line.atNumber n) e := rfl

theorem renumber_eq_ok {x : Except Error α} {b : β} :
    renumber n f x = .ok b ↔ ∃ a, x = .ok a ∧ f a = b := by
  cases x with
  | error e => simp [renumber, Except.map, Except.mapError]
  | ok a => simp [renumber, Except.map, Except.mapError]

theorem renumber_liftAt (line : SourceLine) (r : Except ε α) :
    renumber n id (Error.liftAt line r) = Error.liftAt (line.atNumber n) r := by
  cases r <;> rfl

/-- A chain of steps, each of which is renumbered. -/
theorem bind_renumber {x : Except Error α} {x' : Except Error β} {k : α → Except Error γ}
    {k' : β → Except Error δ} (hx : x' = renumber n f x) (hk : ∀ a, k' (f a) = renumber n g (k a)) :
    x' >>= k' = renumber n g (x >>= k) := by
  rw [hx]
  cases x with
  | error e => rfl
  | ok a => exact hk a

/-- A chain after a step whose result has no line in it. -/
theorem liftAt_bind_renumber {line : SourceLine} {r : Except ε α} {k : α → Except Error γ}
    {k' : α → Except Error δ} (hk : ∀ a, k' a = renumber n g (k a)) :
    Error.liftAt (line.atNumber n) r >>= k' = renumber n g (Error.liftAt line r >>= k) :=
  bind_renumber (renumber_liftAt line r).symm hk

theorem mapM_renumber {k : γ → Except Error α} {k' : γ → Except Error β}
    (h : ∀ c, k' c = renumber n f (k c)) (cs : List γ) :
    cs.mapM k' = renumber n (List.map f) (cs.mapM k) := by
  induction cs with
  | nil => rfl
  | cons c cs ih =>
    rw [List.mapM_cons, List.mapM_cons]
    exact bind_renumber (h c) fun a => bind_renumber ih fun as => rfl

end Steps

/-! ## Fields -/

/-- The shape of a field on the line with another number. -/
def Shape.atNumber (n : Nat) (s : Shape) : Shape := { s with line := s.line.atNumber n }

namespace Field

mutual

/-- The field on the line with another number. -/
def atNumber (n : Nat) : Field → Field
  | leaf source s => leaf source (s.atNumber n)
  | group parts s => group (partsAtNumber n parts) (s.atNumber n)

/-- `atNumber` for the parts of a group. -/
def partsAtNumber (n : Nat) : List Field → List Field
  | [] => []
  | p :: rest => p.atNumber n :: partsAtNumber n rest

end

@[simp] theorem shape_atNumber (n : Nat) (f : Field) :
    (f.atNumber n).shape = f.shape.atNumber n := by
  cases f <;> rfl

@[simp] theorem text?_atNumber (n : Nat) (f : Field) : (f.atNumber n).text? = f.text? := by
  cases f <;> rfl

mutual

/-- The last number counts. -/
theorem atNumber_atNumber (m n : Nat) : ∀ f : Field, (f.atNumber n).atNumber m = f.atNumber m
  | leaf source s => rfl
  | group parts s => by
    rw [atNumber, atNumber, atNumber, partsAtNumber_partsAtNumber m n parts]
    rfl

theorem partsAtNumber_partsAtNumber (m n : Nat) :
    ∀ fs : List Field, partsAtNumber m (partsAtNumber n fs) = partsAtNumber m fs
  | [] => rfl
  | f :: rest => by
    rw [partsAtNumber, partsAtNumber, partsAtNumber, atNumber_atNumber m n f,
      partsAtNumber_partsAtNumber m n rest]

end

theorem pack_pair_atNumber (n : Nat) (f g : Field) (aligned : Bool) (line : SourceLine) :
    (pack [f, g] aligned line).atNumber n =
      pack [f.atNumber n, g.atNumber n] aligned (line.atNumber n) := by
  simp [pack, atNumber, partsAtNumber, size, Shape.atNumber]

end Field

/-! ## Operands -/

/-- The operand on the line with another number. -/
def MatchedOperand.atNumber (n : Nat) (m : MatchedOperand) : MatchedOperand :=
  { m with code := m.code.map (Field.atNumber n), argument := m.argument.map (Field.atNumber n) }

theorem MatchedOperand.argumentText?_atNumber (n : Nat) (m : MatchedOperand) :
    (m.atNumber n).argumentText? = m.argumentText? := by
  unfold argumentText? atNumber
  cases m.argument with
  | none => rfl
  | some f => exact f.text?_atNumber n

/-- The context of the line with another number. -/
def MatchContext.atNumber (n : Nat) (c : MatchContext) : MatchContext :=
  { c with line := c.line.atNumber n }

namespace OperandBase

variable (b : OperandBase) (n : Nat) (c : MatchContext)

theorem fixedCode_atNumber (line : SourceLine) :
    b.fixedCode (line.atNumber n) = (b.fixedCode line).map (Field.atNumber n) := by
  unfold fixedCode
  cases b.code <;> rfl

theorem argumentField_atNumber (source : Source) (line : SourceLine) :
    b.argumentField source (line.atNumber n) =
      (b.argumentField source line).map (Field.atNumber n) := by
  unfold argumentField
  cases b.argument <;> rfl

theorem matched_atNumber (text : List Char) (code argument : Option Field) :
    (b.matched text code argument).atNumber n =
      b.matched text (code.map (Field.atNumber n)) (argument.map (Field.atNumber n)) := rfl

theorem matchNumeric_atNumber (zoned : Bool) (text inner : List Char) :
    b.matchNumeric (c.atNumber n) zoned text inner =
      (b.matchNumeric c zoned text inner).map (MatchedOperand.atNumber n) := by
  simp only [matchNumeric, Option.map_map]
  congr 1
  funext e
  simp only [Function.comp, matched_atNumber, ← fixedCode_atNumber, ← argumentField_atNumber]
  rfl

theorem matchIndirect_atNumber (offset : Option FieldFormat) (text : List Char) :
    b.matchIndirect (c.atNumber n) offset text =
      renumber n (Option.map (MatchedOperand.atNumber n)) (b.matchIndirect c offset text) := by
  have hoffset (rest : List Char) : readOffset (c.atNumber n) rest = readOffset c rest := rfl
  unfold matchIndirect
  cases (b.undecorated text).bind inBrackets with
  | none => rfl
  | some inner =>
    dsimp only
    cases b.splitRegister inner with
    | none => rfl
    | some parts =>
      dsimp only
      rw [hoffset]
      rcases readOffset c parts.2 with _ | _ | e <;> rcases offset with _ | format <;>
        simp only [renumber_ok, renumber_failAt, Option.map_some, Option.map_none, matched_atNumber,
          ← fixedCode_atNumber] <;> rfl

/-- An operand that contributes nothing declines. -/
theorem declined_atNumber (text : List Char) (code argument : Option Field) :
    (if (code.map (Field.atNumber n)).isNone && (argument.map (Field.atNumber n)).isNone then none
      else some (b.matched text (code.map (Field.atNumber n)) (argument.map (Field.atNumber n)))) =
      (if code.isNone && argument.isNone then none else some (b.matched text code argument)).map
        (MatchedOperand.atNumber n) := by
  rw [Option.isNone_map, Option.isNone_map]
  split <;> rfl

theorem matchWord_atNumber (codes arguments : NameTable Int) (text : List Char) :
    b.matchWord (c.atNumber n) codes arguments text =
      (b.matchWord c codes arguments text).map (MatchedOperand.atNumber n) := by
  unfold matchWord
  rw [← declined_atNumber, Option.map_map, Option.map_bind]
  simp only [Function.comp_def, ← argumentField_atNumber]
  rfl

theorem matchSelection_atNumber (codes arguments : Option NumberTable) (text : List Char) :
    b.matchSelection (c.atNumber n) codes arguments text =
      (b.matchSelection c codes arguments text).map (MatchedOperand.atNumber n) := by
  unfold matchSelection
  rw [Option.map_bind]
  congr 1
  funext e
  rw [Function.comp, ← declined_atNumber, Option.map_map, Option.map_bind]
  simp only [Function.comp_def, ← argumentField_atNumber]
  rfl

theorem matchAddress_atNumber (zone : String) (low samePage : Bool) (text : List Char) :
    b.matchAddress (c.atNumber n) zone low samePage text =
      renumber n (Option.map (MatchedOperand.atNumber n))
        (b.matchAddress c zone low samePage text) := by
  unfold matchAddress
  rw [show numericExpression (c.atNumber n).registers text =
    numericExpression c.registers text from rfl, show (c.atNumber n).zones.find? zone =
      c.zones.find? zone from rfl]
  cases numericExpression c.registers text with
  | none => rfl
  | some e =>
    cases c.zones.find? zone with
    | none => rfl
    | some z =>
      rw [renumber_ok, Option.map_some, matched_atNumber, ← fixedCode_atNumber,
        ← argumentField_atNumber]
      rfl

end OperandBase

theorem OperandKind.matchText_atNumber (b : OperandBase) (n : Nat) (c : MatchContext)
    (text : List Char) (kind : OperandKind) :
    kind.matchText b (c.atNumber n) text =
      renumber n (Option.map (MatchedOperand.atNumber n)) (kind.matchText b c text) := by
  have hfixed : b.fixedCode (c.atNumber n).line = (b.fixedCode c.line).map (Field.atNumber n) :=
    b.fixedCode_atNumber n c.line
  cases kind with
  | empty => rw [matchText, hfixed]; rfl
  | numeric zoned => exact congrArg Except.ok (b.matchNumeric_atNumber n c zoned text text)
  | indirectNumeric zoned =>
    rw [matchText, matchText, renumber_ok, Option.map_bind]
    congr 2
    funext inner
    rw [Function.comp, b.matchNumeric_atNumber]
    split <;> rfl
  | deferredNumeric zoned =>
    rw [matchText, matchText, renumber_ok, Option.map_bind]
    congr 2
    funext inner
    exact b.matchNumeric_atNumber n c zoned text inner
  | register =>
    rw [matchText, matchText, renumber_ok, Option.map_bind, hfixed]
    congr 2
    funext r
    rw [Function.comp]
    split <;> rfl
  | indirectRegister offset => exact b.matchIndirect_atNumber n c offset text
  | enumeration codes arguments =>
    exact congrArg Except.ok (b.matchWord_atNumber n c codes arguments text)
  | numericEnumeration codes arguments =>
    exact congrArg Except.ok (b.matchSelection_atNumber n c codes arguments text)
  | numericCode greatest least =>
    rw [matchText, matchText, renumber_ok, Option.map_map]
    rfl
  | address zone low samePage => exact b.matchAddress_atNumber n c zone low samePage text
  | relativeAddress braces least greatest fromEnd =>
    rw [matchText, matchText, renumber_ok, Option.map_map, hfixed]
    congr 2
    funext e
    rw [Function.comp, b.matched_atNumber, ← b.argumentField_atNumber]
    rfl

namespace Operand

theorem withIndex_atNumber (b : OperandBase) (n : Nat) (c : MatchContext) (text : List Char)
    (index : MatchedOperand) :
    withIndex b (c.atNumber n) text (index.atNumber n) = (withIndex b c text index).atNumber n := by
  have hown : (b.fixedCode (c.atNumber n).line).getD
      (b.codeField (.literal 0) 0 (c.atNumber n).line) =
      ((b.fixedCode c.line).getD (b.codeField (.literal 0) 0 c.line)).atNumber n := by
    rw [show (c.atNumber n).line = c.line.atNumber n from rfl, b.fixedCode_atNumber]
    cases b.fixedCode c.line <;> rfl
  unfold withIndex
  rw [hown, b.matched_atNumber]
  cases hcode : index.code with
  | none => simp only [MatchedOperand.atNumber, hcode, Option.map_none, Option.map_some]
  | some f =>
    simp only [MatchedOperand.atNumber, hcode, Option.map_some, Field.pack_pair_atNumber]
    rfl

mutual

theorem matchText_atNumber (n : Nat) (c : MatchContext) (text : List Char) :
    ∀ o : Operand, o.matchText (c.atNumber n) text =
      renumber n (Option.map (MatchedOperand.atNumber n)) (o.matchText c text)
  | simple b kind => by
    rw [matchText, matchText]
    exact kind.matchText_atNumber b n c (Text.trim text)
  | indexed b indexes indirect => by
    rw [matchText, matchText]
    cases indexText b indirect (Text.trim text) with
    | none => rfl
    | some index =>
      refine bind_renumber (matchFirst_atNumber n c index indexes) fun found => ?_
      cases found with
      | none => rfl
      | some m =>
        rw [Option.map_some, Option.map_some, withIndex_atNumber]
        rfl

theorem matchFirst_atNumber (n : Nat) (c : MatchContext) (text : List Char) :
    ∀ os : List Operand, matchFirst (c.atNumber n) text os =
      renumber n (Option.map (MatchedOperand.atNumber n)) (matchFirst c text os)
  | [] => by
    rw [matchFirst, matchFirst]
    rfl
  | o :: rest => by
    rw [matchFirst, matchFirst]
    refine bind_renumber (matchText_atNumber n c text o) fun found => ?_
    cases found with
    | none => exact matchFirst_atNumber n c text rest
    | some m => rfl

end

end Operand

/-! ## Operand lists -/

/-- The operands on the line with another number. -/
def MatchedOperands.atNumber (n : Nat) (m : MatchedOperands) : MatchedOperands :=
  { m with operands := m.operands.map (MatchedOperand.atNumber n) }

namespace MatchedOperands

theorem codesAt_atNumber (n : Nat) (m : MatchedOperands) (place : CodePlace) :
    (m.atNumber n).codesAt place = (m.codesAt place).map (Field.atNumber n) := by
  unfold codesAt atNumber
  rw [List.filterMap_map, List.map_filterMap]
  congr 1
  funext o
  by_cases hplace : o.place = place
  · rw [if_pos hplace]
    exact if_pos hplace
  · rw [if_neg hplace]
    exact if_neg hplace

theorem fields_atNumber (n : Nat) (m : MatchedOperands) (own suffix : Option Field) :
    (m.atNumber n).fields (own.map (Field.atNumber n)) (suffix.map (Field.atNumber n)) =
      (m.fields own suffix).map (Field.atNumber n) := by
  have hturn (reverse : Bool) (fs : List Field) :
      (if reverse then (fs.map (Field.atNumber n)).reverse else fs.map (Field.atNumber n)) =
        (if reverse then fs.reverse else fs).map (Field.atNumber n) := by
    split
    · rw [List.map_reverse]
    · rfl
  have harguments : (m.atNumber n).operands.filterMap MatchedOperand.argument =
      (m.operands.filterMap MatchedOperand.argument).map (Field.atNumber n) := by
    rw [atNumber, List.filterMap_map, List.map_filterMap]
    rfl
  have hoption (o : Option Field) : (o.map (Field.atNumber n)).toList =
      o.toList.map (Field.atNumber n) := by
    cases o <;> rfl
  unfold fields
  dsimp only
  rw [codesAt_atNumber, codesAt_atNumber, harguments, ← List.map_reverse, hoption, hoption]
  simp only [List.map_append, ← hturn]
  rfl

end MatchedOperands

theorem OperandTuple.matchEach_atNumber (n : Nat) (c : MatchContext) (os : List Operand)
    (texts : List (List Char)) :
    matchEach (c.atNumber n) os texts =
      renumber n (Option.map (List.map (MatchedOperand.atNumber n))) (matchEach c os texts) := by
  induction os generalizing texts with
  | nil => rfl
  | cons o rest ih =>
    have hmore (m : MatchedOperand) (more : List (List Char)) :
        (do return (← matchEach (c.atNumber n) rest more).map (m.atNumber n :: ·)) =
          renumber n (Option.map (List.map (MatchedOperand.atNumber n)))
            (do return (← matchEach c rest more).map (m :: ·)) :=
      bind_renumber (ih more) fun found => by cases found <;> rfl
    unfold matchEach
    split
    · refine bind_renumber (o.matchText_atNumber n c []) fun found => ?_
      cases found with
      | none => rfl
      | some m => exact hmore m texts
    · cases texts with
      | nil => rfl
      | cons t more =>
        refine bind_renumber (o.matchText_atNumber n c t) fun found => ?_
        cases found with
        | none => rfl
        | some m => exact hmore m more

theorem OperandTuple.matchTexts_atNumber (n : Nat) (c : MatchContext) (t : OperandTuple)
    (count : Nat) (texts : List (List Char)) :
    t.matchTexts (c.atNumber n) count texts =
      renumber n (Option.map (MatchedOperands.atNumber n)) (t.matchTexts c count texts) := by
  unfold matchTexts
  dsimp only
  split
  · exact bind_renumber (matchEach_atNumber n c t.operands texts) fun found =>
      by cases found <;> rfl
  · rfl

theorem SetList.matchEach_atNumber (n : Nat) (c : MatchContext)
    (places : List (OperandSet × List Char)) :
    matchEach (c.atNumber n) places =
      renumber n (Option.map (List.map (MatchedOperand.atNumber n))) (matchEach c places) := by
  induction places with
  | nil => rfl
  | cons p rest ih =>
    rw [matchEach, matchEach]
    refine bind_renumber (Operand.matchFirst_atNumber n c p.2 p.1.operands) fun found => ?_
    cases found with
    | none => rfl
    | some m => exact bind_renumber ih fun found => by cases found <;> rfl

theorem SetList.matchTexts_atNumber (n : Nat) (c : MatchContext) (s : SetList)
    (texts : List (List Char)) :
    s.matchTexts (c.atNumber n) texts =
      renumber n (Option.map (MatchedOperands.atNumber n)) (s.matchTexts c texts) := by
  unfold matchTexts
  split
  · refine bind_renumber (matchEach_atNumber n c (s.sets.zip texts)) fun found => ?_
    cases found with
    | none => rfl
    | some operands =>
      have hids : (operands.map (MatchedOperand.atNumber n)).map MatchedOperand.id =
          operands.map MatchedOperand.id := by
        rw [List.map_map]
        rfl
      dsimp only [Option.map_some]
      rw [hids]
      split <;> rfl
  · rfl

namespace OperandList

theorem matchTuples_atNumber (n : Nat) (c : MatchContext) (count : Nat) (texts : List (List Char))
    (tuples : List OperandTuple) :
    matchTuples (c.atNumber n) count texts tuples =
      renumber n (Option.map (MatchedOperands.atNumber n)) (matchTuples c count texts tuples) := by
  induction tuples with
  | nil => rfl
  | cons t rest ih =>
    rw [matchTuples, matchTuples]
    refine bind_renumber (t.matchTexts_atNumber n c count texts) fun found => ?_
    cases found with
    | none => exact ih
    | some m => rfl

theorem matchTexts_atNumber (n : Nat) (c : MatchContext) (l : OperandList)
    (texts : List (List Char)) :
    l.matchTexts (c.atNumber n) texts =
      renumber n (Option.map (MatchedOperands.atNumber n)) (l.matchTexts c texts) := by
  unfold matchTexts
  split
  · rfl
  · refine bind_renumber (matchTuples_atNumber n c l.count texts l.tuples) fun found => ?_
    cases found with
    | some m => rfl
    | none =>
      cases l.sets with
      | none => rfl
      | some s => exact s.matchTexts_atNumber n c texts

theorem matchOptional_atNumber (n : Nat) (c : MatchContext) (texts : List (List Char))
    (l : Option OperandList) :
    matchOptional (c.atNumber n) texts l =
      renumber n (Option.map (MatchedOperands.atNumber n)) (matchOptional c texts l) := by
  cases l with
  | some l => exact l.matchTexts_atNumber n c texts
  | none =>
    rw [matchOptional, matchOptional, renumber_ok]
    split <;> rfl

end OperandList

/-! ## Instructions -/

/-- The encoding on the line with another number. -/
def Encoding.atNumber (n : Nat) (e : Encoding) : Encoding :=
  { e with line := e.line.atNumber n, fields := e.fields.map (Field.atNumber n) }

theorem Encoding.atNumber_atNumber (m n : Nat) (e : Encoding) :
    (e.atNumber n).atNumber m = e.atNumber m := by
  have hfields : (e.fields.map (Field.atNumber n)).map (Field.atNumber m) =
      e.fields.map (Field.atNumber m) := by
    rw [List.map_map]
    exact List.map_congr_left fun f _ => f.atNumber_atNumber m n
  unfold atNumber
  rw [hfields]
  rfl

theorem Encoding.concat_atNumber (n : Nat) (line : SourceLine) (steps : List Encoding)
    (wordSize : Nat) :
    concat (line.atNumber n) (steps.map (atNumber n)) wordSize =
      (concat line steps wordSize).atNumber n := by
  unfold concat atNumber
  rw [List.flatMap_map, List.map_flatMap]

theorem Instruction.encodeFirst_atNumber (n : Nat) (c : MatchContext) (texts : List (List Char))
    (variants : List Variant) :
    encodeFirst (c.atNumber n) texts variants =
      renumber n (Option.map (List.map (Field.atNumber n))) (encodeFirst c texts variants) := by
  induction variants with
  | nil => rfl
  | cons v rest ih =>
    rw [encodeFirst, encodeFirst]
    refine bind_renumber (OperandList.matchOptional_atNumber n c texts v.operands) fun found => ?_
    cases found with
    | none => exact ih
    | some m =>
      have hsuffix : v.opcode.suffixField (c.atNumber n).line =
          (v.opcode.suffixField c.line).map (Field.atNumber n) := by
        unfold Opcode.suffixField
        cases v.opcode.suffix <;> rfl
      rw [Option.map_some]
      dsimp only
      rw [hsuffix, renumber_pure, Option.map_some, ← MatchedOperands.fields_atNumber]
      rfl

theorem Instruction.encode_atNumber (i : Instruction) (n : Nat) (c : MatchContext) (wordSize : Nat)
    (texts : List (List Char)) :
    i.encode (c.atNumber n) wordSize texts =
      renumber n (Encoding.atNumber n) (i.encode c wordSize texts) := by
  unfold encode
  refine bind_renumber (encodeFirst_atNumber n c texts i.variants) fun found => ?_
  cases found <;> rfl

namespace Macro

/-- Templates are filled with texts, which know nothing of lines. -/
theorem fillFrom_atNumber (name : String) (step k n : Nat) (operands : List MatchedOperand)
    (cs : List Char) :
    fillFrom name step k (operands.map (MatchedOperand.atNumber n)) cs =
      fillFrom name step k operands cs := by
  induction operands generalizing k cs with
  | nil => rfl
  | cons o rest ih =>
    have hfirst : fillOperand name step k (o.atNumber n) cs = fillOperand name step k o cs := by
      unfold fillOperand
      rw [o.argumentText?_atNumber]
      rfl
    rw [List.map_cons, fillFrom, fillFrom, hfirst]
    simp only [ih]

theorem fill_atNumber (name : String) (step n : Nat) (operands : List MatchedOperand)
    (template : String) :
    fill name step (operands.map (MatchedOperand.atNumber n)) template =
      fill name step operands template := by
  unfold fill
  rw [fillFrom_atNumber]

theorem matchFirst_atNumber (n : Nat) (c : MatchContext) (texts : List (List Char))
    (variants : List MacroVariant) :
    matchFirst (c.atNumber n) texts variants =
      renumber n (Option.map (Prod.map id (MatchedOperands.atNumber n)))
        (matchFirst c texts variants) := by
  induction variants with
  | nil => rfl
  | cons v rest ih =>
    rw [matchFirst, matchFirst]
    refine bind_renumber (OperandList.matchOptional_atNumber n c texts v.operands) fun found => ?_
    cases found with
    | none => exact ih
    | some m => rfl

end Macro

namespace Isa

variable (isa : Isa) (zones : ZoneMap) (n : Nat)

theorem encodeAt_atNumber (depth : Nat) (line : SourceLine) (cs : List Char) :
    isa.encodeAt zones depth (line.atNumber n) cs =
      renumber n (Encoding.atNumber n) (isa.encodeAt zones depth line cs) := by
  induction depth generalizing line cs with
  | zero =>
    unfold encodeAt
    dsimp only
    split
    · rfl
    · rename_i i _
      exact i.encode_atNumber n (isa.matchContext zones line) isa.wordSize _
    · rfl
  | succ depth ih =>
    unfold encodeAt
    dsimp only
    split
    · rfl
    · rename_i i _
      exact i.encode_atNumber n (isa.matchContext zones line) isa.wordSize _
    · rename_i m _
      refine bind_renumber (Macro.matchFirst_atNumber n (isa.matchContext zones line) _ m.variants)
        fun found => ?_
      cases found with
      | none => rfl
      | some found =>
        refine bind_renumber (mapM_renumber (f := Encoding.atNumber n) (fun step => ?_)
          found.1.templates.zipIdx) fun steps => ?_
        · rw [show (MatchedOperands.atNumber n found.2).operands =
            found.2.operands.map (MatchedOperand.atNumber n) from rfl, Macro.fill_atNumber]
          exact liftAt_bind_renumber fun text => ih (line.inMacro m.mnemonic step.2) text
        · rw [renumber_pure, ← Encoding.concat_atNumber]

/-- **The number of a line does not matter to an encoding.** -/
theorem encode_atNumber (line : SourceLine) (cs : List Char) :
    isa.encode zones (line.atNumber n) cs =
      renumber n (Encoding.atNumber n) (isa.encode zones line cs) :=
  isa.encodeAt_atNumber zones n maxMacroDepth line cs

end Isa

end Retarget
