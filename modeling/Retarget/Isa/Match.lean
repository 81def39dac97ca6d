import Retarget.Error
import Retarget.Isa.Operand
import Retarget.Text.Lower

/-!
# Matching operands

An operand either declines a text or gives the fields that it contributes. Errors are for texts that
have the right shape but ask for something that the operand does not have.
-/

namespace Retarget

/-- An operand that took a text. -/
structure MatchedOperand where
  id : String
  place : CodePlace
  code : Option Field
  argument : Option Field
  register : Option String
  text : String
  deriving Repr

namespace MatchedOperand

/-- The source text of the argument. -/
def argumentText? (m : MatchedOperand) : Option String := m.argument.bind Field.text?

end MatchedOperand

/-- What the matching of an operand depends on. -/
structure MatchContext where
  line : SourceLine
  registers : NameSet
  zones : ZoneMap

/-! ## Pieces of texts -/

/-- Whether a character is a bracket that no expression has. -/
def isBracket (c : Char) : Bool := c == '[' || c == ']' || c == '\x7b' || c == '\x7d'

/-- An expression without registers. -/
def numericExpression (registers : NameSet) (cs : List Char) : Option Expression :=
  if cs.isEmpty || cs.any isBracket then none
  else
    match Expression.parse (String.ofList cs) with
    | .ok e => if e.mentionsAny registers then none else some e
    | .error _ => none

/-- The text between an opening and a closing character. -/
def between (opening closing : Char) (cs : List Char) : Option (List Char) :=
  match cs with
  | c :: rest =>
    if c == opening && rest.getLast? == some closing then some (Text.trim rest.dropLast) else none
  | [] => none

/-- The text in a pair of brackets. -/
def inBrackets (cs : List Char) : Option (List Char) := between '[' ']' (Text.trim cs)

namespace OperandBase

/-- A field of code bits with a value. -/
def codeField (b : OperandBase) (source : Source) (size : Nat) (line : SourceLine) : Field :=
  .leaf source
    { size, aligned := false, wordOrder := b.wordOrder, segmentOrder := b.segmentOrder, line }

/-- The fixed code bits. -/
def fixedCode (b : OperandBase) (line : SourceLine) : Option Field :=
  b.code.map fun v => b.codeField (.literal v) b.codeSize line

/-- The operand took a text and contributes these fields. -/
def matched (b : OperandBase) (text : List Char) (code argument : Option Field) : MatchedOperand :=
  { id := b.id, place := b.place, code, argument, register := b.register,
    text := String.ofList text }

/-- The argument of an operand that takes one. -/
def argumentField (b : OperandBase) (source : Source) (line : SourceLine) : Option Field :=
  b.argument.map fun f => f.field source line

/-- Whether a text is the register of the operand, in any letter case. -/
def isRegister (b : OperandBase) (cs : List Char) : Bool :=
  b.register.any fun r => Text.equalIgnoringCase r (String.ofList (Text.trim cs))

/-- The text without the decorator of the operand. -/
def undecorated (b : OperandBase) (cs : List Char) : Option (List Char) :=
  match b.decoration with
  | some d => d.strip cs
  | none => some cs

/-- The register at the start of a text as it is written, and what follows it. The register may not
run into another name character. -/
def splitRegister (b : OperandBase) (cs : List Char) : Option (List Char × List Char) :=
  match b.register with
  | none => none
  | some r =>
    let cs := Text.trimStart cs
    let head := cs.take r.length
    let rest := cs.drop r.length
    if Text.equalIgnoringCase (String.ofList head) r && !rest.head?.any Text.isNameChar then
      some (head, rest)
    else none

/-- Match an expression in `inner`, the part of `text` without brackets. -/
def matchNumeric (b : OperandBase) (c : MatchContext) (zoned : Bool) (text inner : List Char) :
    Option MatchedOperand :=
  (numericExpression c.registers inner).map fun e =>
    let source := if zoned then .inZone e ZoneMap.globalId else .expression e
    b.matched text (b.fixedCode c.line) (b.argumentField source c.line)

/-- The offset after a register in brackets: none if the text is something else. The sign is a whole
character, also where it takes several bytes and cannot be cut off as one. -/
def readOffset (c : MatchContext) (rest : List Char) : Option (Option Expression) :=
  match Text.trim rest with
  | [] => some none
  | sign :: more =>
    let body := Text.trim more
    if body.isEmpty then none
    else if sign == '+' then (numericExpression c.registers body).map some
    else if sign == '-' then
      (numericExpression c.registers ("0 - (".toList ++ body ++ [')'])).map some
    else none

/-- Match a register in brackets. -/
def matchIndirect (b : OperandBase) (c : MatchContext) (offset : Option FieldFormat)
    (text : List Char) : Except Error (Option MatchedOperand) :=
  match (b.undecorated text).bind inBrackets with
  | none => .ok none
  | some inner =>
    match b.splitRegister inner with
    | none => .ok none
    | some (register, rest) =>
      match readOffset c rest, offset with
      | none, _ => .ok none
      | some (some _), none =>
        Error.failAt c.line (InstructionError.unexpectedOffset (String.ofList register))
      | some none, none => .ok (some (b.matched text (b.fixedCode c.line) none))
      | some e, some f =>
        let source := (e.map Source.expression).getD (.literal 0)
        .ok (some (b.matched text (b.fixedCode c.line) (some (f.field source c.line))))

/-- Match one of some words. -/
def matchWord (b : OperandBase) (c : MatchContext) (codes arguments : NameTable Int)
    (text : List Char) : Option MatchedOperand :=
  let word := String.ofList text
  let code := (codes.lookup word).map fun v => b.codeField (.literal v) b.codeSize c.line
  let argument := (arguments.lookup word).bind fun v => b.argumentField (.literal v) c.line
  if code.isNone && argument.isNone then none else some (b.matched text code argument)

/-- Match an expression that selects from tables. -/
def matchSelection (b : OperandBase) (c : MatchContext) (codes arguments : Option NumberTable)
    (text : List Char) : Option MatchedOperand :=
  (numericExpression c.registers text).bind fun e =>
    let code := codes.map fun t => b.codeField (.selected e t) b.codeSize c.line
    let argument := arguments.bind fun t => b.argumentField (.selected e t) c.line
    if code.isNone && argument.isNone then none else some (b.matched text code argument)

/-- Match an address in a zone. -/
def matchAddress (b : OperandBase) (c : MatchContext) (zone : String) (low samePage : Bool)
    (text : List Char) : Except Error (Option MatchedOperand) :=
  match numericExpression c.registers text with
  | none => .ok none
  | some e =>
    match c.zones.find? zone with
    | none => Error.failAt c.line (InstructionError.unknownZone zone b.id)
    | some z =>
      .ok (some (b.matched text (b.fixedCode c.line)
        (b.argumentField (.address e z low samePage) c.line)))

end OperandBase

namespace OperandKind

/-- Match a text without surrounding blanks. -/
def matchText (b : OperandBase) (c : MatchContext) (text : List Char) :
    OperandKind → Except Error (Option MatchedOperand)
  | empty => .ok (some (b.matched text (b.fixedCode c.line) none))
  | numeric zoned => .ok (b.matchNumeric c zoned text text)
  | indirectNumeric zoned =>
    .ok ((inBrackets text).bind fun inner =>
      if inner.contains '[' then none else b.matchNumeric c zoned text inner)
  | deferredNumeric zoned =>
    .ok (((inBrackets text).bind inBrackets).bind fun inner => b.matchNumeric c zoned text inner)
  | register =>
    .ok ((b.undecorated text).bind fun r =>
      if b.isRegister r then some (b.matched text (b.fixedCode c.line) none) else none)
  | indirectRegister offset => b.matchIndirect c offset text
  | enumeration codes arguments => .ok (b.matchWord c codes arguments text)
  | numericEnumeration codes arguments => .ok (b.matchSelection c codes arguments text)
  | numericCode greatest least =>
    .ok ((numericExpression c.registers text).map fun e =>
      b.matched text (some (b.codeField (.bounded e least greatest) b.codeSize c.line)) none)
  | address zone low samePage => b.matchAddress c zone low samePage text
  | relativeAddress braces least greatest fromEnd =>
    let inner := if braces then between '\x7b' '\x7d' text else some text
    .ok (((inner.bind (numericExpression c.registers)).map fun e =>
      b.matched text (b.fixedCode c.line)
        (b.argumentField (.relative e ZoneMap.globalId least greatest fromEnd) c.line)))

end OperandKind

namespace Operand

/-- The index after a register and a plus sign. -/
def indexText (b : OperandBase) (indirect : Bool) (text : List Char) : Option (List Char) :=
  let body := if indirect then (b.undecorated text).bind inBrackets else some text
  (body.bind b.splitRegister).bind fun (_, rest) =>
    match Text.trimStart rest with
    | '+' :: more =>
      let index := Text.trim more
      if index.isEmpty then none else some index
    | _ => none

/-- Put the code bits of an index behind those of the register. -/
def withIndex (b : OperandBase) (c : MatchContext) (text : List Char) (index : MatchedOperand) :
    MatchedOperand :=
  let own := (b.fixedCode c.line).getD (b.codeField (.literal 0) 0 c.line)
  let code :=
    match index.code with
    | some f => Field.pack [own, f] false c.line
    | none => own
  b.matched text (some code) index.argument

mutual

/-- Match a text against an operand. -/
def matchText (c : MatchContext) (text : List Char) : Operand → Except Error (Option MatchedOperand)
  | simple b kind => kind.matchText b c (Text.trim text)
  | indexed b indexes indirect =>
    let text := Text.trim text
    match indexText b indirect text with
    | none => .ok none
    | some index => do
      return (← matchFirst c index indexes).map (withIndex b c text)

/-- The match of the first operand that takes a text. -/
def matchFirst (c : MatchContext) (text : List Char) :
    List Operand → Except Error (Option MatchedOperand)
  | [] => .ok none
  | o :: rest => do
    match ← o.matchText c text with
    | some m => return some m
    | none => matchFirst c text rest

end

end Operand

end Retarget
