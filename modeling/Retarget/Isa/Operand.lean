import Retarget.Field.Basic
import Retarget.Isa.Error
import Retarget.Isa.Schema
import Retarget.Text.NameSet
import Retarget.Text.NameTable

/-!
# Operands

An operand is one shape that the text between two commas may have, with the code bits and the
argument that it contributes. In an operand set the shapes are tried from the most particular one to
the most general one.
-/

namespace Retarget

/-- What operands inherit from the whole instruction set. -/
structure EncodingDefaults where
  wordOrder : Endian
  segmentOrder : Endian
  registers : NameSet
  deriving Repr

/-- Where the code bits of an operand go. -/
inductive CodePlace
  /-- Before the code bits of the instruction. -/
  | before
  /-- After the code bits of the instruction. -/
  | after
  deriving DecidableEq, Repr

/-! ## Decorators -/

/-- Marks that a register may carry. -/
inductive Decorator
  | plus | plusPlus | minus | minusMinus | exclamation | atSign
  deriving DecidableEq, Repr

namespace Decorator

/-- The decorator with a name. -/
def ofName? : String → Option Decorator
  | "plus" => some plus
  | "plus_plus" => some plusPlus
  | "minus" => some minus
  | "minus_minus" => some minusMinus
  | "exclamation" => some exclamation
  | "at" => some atSign
  | _ => none

/-- How a decorator is written. -/
def text : Decorator → List Char
  | plus => ['+']
  | plusPlus => ['+', '+']
  | minus => ['-']
  | minusMinus => ['-', '-']
  | exclamation => ['!']
  | atSign => ['@']

/-- Whether decorators contain a character. -/
def isMark (c : Char) : Bool := c == '+' || c == '-' || c == '!' || c == '@'

/-- Remove a decorator at the start. What is left may not start with a mark, so that one plus sign
is not found in two. -/
def stripStart (d : Decorator) (cs : List Char) : Option (List Char) :=
  if d.text.isPrefixOf cs then
    let rest := cs.drop d.text.length
    if rest.head?.any isMark then none else some rest
  else none

end Decorator

/-- A decorator and the side that it stands on. -/
structure Decoration where
  decorator : Decorator
  leading : Bool
  deriving DecidableEq, Repr

namespace Decoration

/-- Remove the decorator. All decorators read the same from both sides. -/
def strip (d : Decoration) (cs : List Char) : Option (List Char) :=
  if d.leading then d.decorator.stripStart cs
  else (d.decorator.stripStart cs.reverse).map List.reverse

end Decoration

/-! ## Fields -/

/-- Width, placement and orders of an argument. -/
structure FieldFormat where
  size : Nat
  aligned : Bool
  wordOrder : Endian
  segmentOrder : Endian
  deriving DecidableEq, Repr

namespace FieldFormat

/-- The format of an argument; none without a size. -/
def ofSpec? (s : ArgumentSpec) (defaults : EncodingDefaults) : Option FieldFormat :=
  s.size.map fun size =>
    { size, aligned := s.aligned.getD false, wordOrder := s.wordOrder.getD defaults.wordOrder,
      segmentOrder := s.segmentOrder.getD defaults.segmentOrder }

/-- The field of a value in this format. -/
def field (f : FieldFormat) (source : Source) (line : SourceLine) : Field :=
  .leaf source
    { size := f.size, aligned := f.aligned, wordOrder := f.wordOrder,
      segmentOrder := f.segmentOrder,
      line }

end FieldFormat

/-! ## Operands -/

/-- What all operands have, whatever their shape. -/
structure OperandBase where
  id : String
  /-- Fixed code bits. -/
  code : Option Int
  codeSize : Nat
  place : CodePlace
  argument : Option FieldFormat
  register : Option String
  decoration : Option Decoration
  wordOrder : Endian
  segmentOrder : Endian
  deriving DecidableEq, Repr

/-- The shapes that contain no other operands. -/
inductive OperandKind
  /-- No text at all; only code bits. -/
  | empty
  /-- An expression, which is an address if `zoned`. -/
  | numeric (zoned : Bool)
  /-- An expression in brackets. -/
  | indirectNumeric (zoned : Bool)
  /-- An expression in two pairs of brackets. -/
  | deferredNumeric (zoned : Bool)
  | register
  /-- A register in brackets, with an offset if there is a format for one. -/
  | indirectRegister (offset : Option FieldFormat)
  /-- One of some words. -/
  | enumeration (codes arguments : NameTable Int)
  /-- An expression whose value selects from tables. -/
  | numericEnumeration (codes arguments : Option NumberTable)
  /-- An expression that gives code bits. -/
  | numericCode (greatest least : Option Int)
  | address (zone : String) (low samePage : Bool)
  | relativeAddress (braces : Bool) (least greatest : Option Int) (fromEnd : Bool)
  deriving DecidableEq, Repr

/-- An operand. -/
inductive Operand
  | simple (base : OperandBase) (kind : OperandKind)
  /-- A register and an index, in brackets if `indirect`. -/
  | indexed (base : OperandBase) (indexes : List Operand) (indirect : Bool)
  deriving Repr

namespace Operand

/-- What the operand has in common with all others. -/
def base : Operand → OperandBase
  | simple b _ | indexed b .. => b

/-- The place of a shape in the order in which shapes are tried. -/
def precedence : Operand → Nat
  | simple _ .empty => 1
  | simple _ (.indirectRegister _) => 2
  | indexed _ _ true => 3
  | simple _ (.indirectNumeric _) => 4
  | simple _ (.deferredNumeric _) => 5
  | indexed _ _ false => 6
  | simple _ (.enumeration ..) | simple _ (.numericEnumeration ..) => 7
  | simple _ .register => 8
  | simple _ (.numeric _) => 9
  | simple _ (.address ..) => 10
  | simple _ (.relativeAddress ..) => 11
  | simple _ (.numericCode ..) => 12

/-- Whether the operand takes no text. -/
def isEmpty : Operand → Bool
  | simple _ .empty => true
  | _ => false

/-- How an operand is shown. -/
def render (o : Operand) : String :=
  match o.base.register with
  | some r => s!"Operand<{o.base.id},register={r}>"
  | none => s!"Operand<{o.base.id}>"

/-- Operands in the order in which they are tried. -/
def ordered (operands : List Operand) : List Operand :=
  operands.mergeSort fun a b => a.precedence ≤ b.precedence

end Operand

/-! ## Checking -/

/-- A fault and the operand that has it. -/
abbrev FaultOf := String × OperandFault

namespace OperandBase

/-- The place that a configuration names. -/
def placeOf (id : String) : Option String → Except FaultOf CodePlace
  | none | some "suffix" => .ok .after
  | some "prefix" => .ok .before
  | some other => .error (id, .unknownPosition other)

/-- The register that a configuration names. -/
def registerOf (id : String) (defaults : EncodingDefaults) :
    Option String → Except FaultOf (Option String)
  | none => .ok none
  | some r =>
    if defaults.registers.contains r then .ok (some r) else .error (id, .undeclaredRegister r)

/-- The decorator that a configuration names. -/
def decorationOf (id : String) : Option DecoratorSpec → Except FaultOf (Option Decoration)
  | none => .ok none
  | some d =>
    match d.name with
    | none => .error (id, .untypedDecorator)
    | some name =>
      match Decorator.ofName? name with
      | none => .error (id, .unknownDecorator name)
      | some decorator => .ok (some { decorator, leading := d.leading })

/-- Check what all operands have. -/
def ofSettings (id : String) (s : OperandSettings) (defaults : EncodingDefaults) :
    Except FaultOf OperandBase := do
  let code := s.code.bind CodeSpec.value
  let codeSize := s.code.bind CodeSpec.size
  if code.isSome && codeSize.isNone then
    throw (id, .noBytecodeSize)
  let place ← placeOf id (s.code.bind CodeSpec.position)
  let register ← registerOf id defaults s.register
  let decoration ← decorationOf id s.decorator
  return {
    id, code, codeSize := codeSize.getD 0, place,
    argument := s.argument.bind fun a => FieldFormat.ofSpec? a defaults,
    register, decoration, wordOrder := defaults.wordOrder, segmentOrder := defaults.segmentOrder }

/-- Refuse an operand without an argument. -/
def needArgument (b : OperandBase) : Except FaultOf Unit :=
  if b.argument.isSome then .ok () else .error (b.id, .noArgument)

/-- Refuse an operand without a register. -/
def needRegister (b : OperandBase) : Except FaultOf Unit :=
  if b.register.isSome then .ok () else .error (b.id, .noRegister)

end OperandBase

namespace OperandKind

/-- A table with numbers as keys. -/
def numberTable (id : String) (entries : List (String × Int)) : Except FaultOf NumberTable := do
  let pairs ← entries.mapM fun (k, v) =>
    match readLiteral k with
    | some n => .ok (n, v)
    | none => .error (id, .nonNumericKey k)
  return NumberTable.ofList pairs

/-- Check a table of words. -/
def ofWords (b : OperandBase) (s : OperandSettings) (defaults : EncodingDefaults) :
    Except FaultOf OperandKind := do
  let codes := NameTable.ofList ((s.code.bind CodeSpec.table).getD [])
  let arguments := NameTable.ofList ((s.argument.bind ArgumentSpec.table).getD [])
  if !arguments.isEmpty then
    b.needArgument
  match (codes.names ++ arguments.names).find? fun k => defaults.registers.contains k with
  | some key => throw (b.id, .registerKey key)
  | none => return .enumeration codes arguments

/-- Check tables of numbers. -/
def ofNumbers (b : OperandBase) (s : OperandSettings) : Except FaultOf OperandKind := do
  let codes ← (s.code.bind CodeSpec.table).mapM (numberTable b.id)
  let arguments ← (s.argument.bind ArgumentSpec.table).mapM fun entries => do
    b.needArgument
    numberTable b.id entries
  return .numericEnumeration codes arguments

/-- Check an operand that gives code bits. -/
def ofLimits (b : OperandBase) (s : OperandSettings) : Except FaultOf OperandKind :=
  match s.code with
  | none => .error (b.id, .noBytecode)
  | some c =>
    match c.greatest, c.least with
    | some g, some l =>
      if g < l then .error (b.id, .reversedLimits g l) else .ok (.numericCode (some g) (some l))
    | g, l => .ok (.numericCode g l)

/-- Check the shape that a configuration names. -/
def ofSettings (b : OperandBase) (s : OperandSettings) (defaults : EncodingDefaults) :
    Except FaultOf OperandKind :=
  let zoned := s.argument.any ArgumentSpec.validAddress
  let withArgument (kind : OperandKind) : Except FaultOf OperandKind := do
    b.needArgument
    return kind
  match s.type with
  | "empty" => .ok .empty
  | "numeric" => withArgument (.numeric zoned)
  | "indirect_numeric" => withArgument (.indirectNumeric zoned)
  | "deferred_numeric" => withArgument (.deferredNumeric zoned)
  | "register" => do
    b.needRegister
    return .register
  | "indirect_register" => do
    b.needRegister
    match s.offset with
    | none => return .indirectRegister none
    | some o =>
      match FieldFormat.ofSpec? o defaults with
      | none => throw (b.id, .noOffsetSize)
      | some f => return .indirectRegister (some f)
  | "enumeration" => ofWords b s defaults
  | "numeric_enumeration" => ofNumbers b s
  | "numeric_bytecode" => ofLimits b s
  | "address" =>
    let low := s.argument.any ArgumentSpec.lowBits
    withArgument (.address ((s.argument.bind ArgumentSpec.zone).getD ZoneMap.globalName) low
      (low && s.argument.any ArgumentSpec.samePage))
  | "relative_address" =>
    withArgument (.relativeAddress s.braces (s.argument.bind ArgumentSpec.least)
      (s.argument.bind ArgumentSpec.greatest) s.fromEnd)
  | other => .error (b.id, .unknownType other)

end OperandKind

namespace Operand

mutual

/-- Check an operand. -/
def ofSpec (defaults : EncodingDefaults) (id : String) : OperandSpec → Except FaultOf Operand
  | .mk s indexes => do
    let b ← OperandBase.ofSettings id s defaults
    if s.type == "indexed_register" || s.type == "indirect_indexed_register" then
      b.needRegister
      match indexes with
      | none | some [] => throw (id, .noIndexes)
      | some (i :: rest) =>
        let operands ← ofIndexes defaults id (i :: rest)
        let size := (operands.head?.map fun o => o.base.codeSize).getD 0
        if operands.all fun o => o.base.codeSize == size then
          return .indexed b (ordered operands) (s.type == "indirect_indexed_register")
        else throw (id, .unevenIndexes)
    else
      return .simple b (← OperandKind.ofSettings b s defaults)

/-- Check the index operands of an operand. -/
def ofIndexes (defaults : EncodingDefaults) (owner : String) :
    List (String × OperandSpec) → Except FaultOf (List Operand)
  | [] => .ok []
  | (id, spec) :: rest => do
    let o ← ofSpec defaults id spec
    if o.isEmpty then
      throw (owner, .emptyIndex id)
    return o :: (← ofIndexes defaults owner rest)

end

end Operand

/-- A named collection of operands, in the order in which they are tried. -/
structure OperandSet where
  name : String
  operands : List Operand
  deriving Repr

namespace OperandSet

/-- Check the operands of a set, in the order in which they are written. -/
def checkAll (defaults : EncodingDefaults) (set : String) :
    OperandSetSpec → Except IsaError (List Operand)
  | [] => .ok []
  | (id, spec) :: rest => do
    let o ← (Operand.ofSpec defaults id spec).mapError fun f => .operand f.1 f.2
    if o.isEmpty then
      throw (.emptyInSet set id)
    return o :: (← checkAll defaults set rest)

/-- Check an operand set. -/
def ofSpec (defaults : EncodingDefaults) (name : String) (spec : OperandSetSpec) :
    Except IsaError OperandSet := do
  return { name, operands := Operand.ordered (← checkAll defaults name spec) }

end OperandSet

end Retarget
