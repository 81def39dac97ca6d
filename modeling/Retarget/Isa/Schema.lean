import Retarget.Document.Decode

/-!
# Configurations of instruction sets

The sections of a configuration as they are written, before any of it is checked. Each type has a
decoder; a document that fails to decode has the wrong shape, whatever the reason.
-/

namespace Retarget

open Document (Key fields required optional orDefault asText asBool asInt asNat asKey asEndian
  asList asEntries)

/-- A field that a list of the fields has to give. -/
def field (name : String) : Key := { names := [name] }

/-- A field that may be left out at the end of a list. -/
def laterField (name : String) : Key := { names := [name], skippable := true }

/-- Sizes are numbers of 32 bits. -/
def asSize : Document → Option Nat := asNat 32

/-! ## Operands -/

/-- Code bits of an operand. -/
structure CodeSpec where
  value : Option Int
  size : Option Nat
  position : Option String
  table : Option (List (String × Int))
  greatest : Option Int
  least : Option Int
  deriving Repr

def CodeSpec.decode (d : Document) : Option CodeSpec := do
  match ← fields [field "value", field "size", field "position", field "value_dict", field "max",
      field "min"] d with
  | [value, size, position, table, greatest, least] =>
    return {
      value := ← optional asInt value
      size := ← optional asSize size
      position := ← optional asText position
      table := ← optional (asEntries asInt) table
      greatest := ← optional asInt greatest
      least := ← optional asInt least }
  | _ => none

/-- An argument or an offset. -/
structure ArgumentSpec where
  size : Option Nat
  aligned : Option Bool
  wordOrder : Option Endian
  segmentOrder : Option Endian
  table : Option (List (String × Int))
  validAddress : Bool
  zone : Option String
  lowBits : Bool
  samePage : Bool
  greatest : Option Int
  least : Option Int
  deriving Repr

def ArgumentSpec.decode (d : Document) : Option ArgumentSpec := do
  match ← fields [field "size", field "word_align", field "byte_align", field "multi_word_endian",
      field "endian", field "intra_word_endian", field "value_dict", laterField "valid_address",
      field "memory_zone", laterField "slice_lsb", laterField "match_address_msb", field "max",
      field "min"] d with
  | [size, wordAlign, byteAlign, wordOrder, order, segmentOrder, table, validAddress, zone, lowBits,
      samePage, greatest, least] =>
    return {
      size := ← optional asSize size
      aligned := (← optional asBool wordAlign).or (← optional asBool byteAlign)
      wordOrder := (← optional asEndian wordOrder).or (← optional asEndian order)
      segmentOrder := ← optional asEndian segmentOrder
      table := ← optional (asEntries asInt) table
      validAddress := ← orDefault asBool false validAddress
      zone := ← optional asText zone
      lowBits := ← orDefault asBool false lowBits
      samePage := ← orDefault asBool false samePage
      greatest := ← optional asInt greatest
      least := ← optional asInt least }
  | _ => none

/-- A decorator of a register. -/
structure DecoratorSpec where
  name : Option String
  leading : Bool
  deriving Repr

def DecoratorSpec.decode (d : Document) : Option DecoratorSpec := do
  match ← fields [field "type", laterField "is_prefix"] d with
  | [name, leading] =>
    return { name := ← optional asText name, leading := ← orDefault asBool false leading }
  | _ => none

/-- The settings of an operand other than its index operands. -/
structure OperandSettings where
  type : String
  code : Option CodeSpec
  argument : Option ArgumentSpec
  register : Option String
  decorator : Option DecoratorSpec
  offset : Option ArgumentSpec
  braces : Bool
  fromEnd : Bool
  deriving Repr

/-- An operand. -/
inductive OperandSpec
  | mk (settings : OperandSettings) (indexes : Option (List (String × OperandSpec)))
  deriving Repr

/-- Decode an operand whose index operands are nested at most `depth` deep. -/
def OperandSpec.decodeAt (depth : Nat) (d : Document) : Option OperandSpec := do
  match depth with
  | 0 => none
  | depth + 1 =>
    match ← fields [field "type", field "bytecode", field "argument", field "register",
        field "decorator", field "offset", field "index_operands", laterField "use_curly_braces",
        laterField "offset_from_instruction_end"] d with
    | [type, code, argument, register, decorator, offset, indexes, braces, fromEnd] =>
      let settings : OperandSettings := {
        type := ← required asText type
        code := ← optional CodeSpec.decode code
        argument := ← optional ArgumentSpec.decode argument
        register := ← optional asText register
        decorator := ← optional DecoratorSpec.decode decorator
        offset := ← optional ArgumentSpec.decode offset
        braces := ← orDefault asBool false braces
        fromEnd := ← orDefault asBool false fromEnd }
      return .mk settings (← optional (asEntries (OperandSpec.decodeAt depth)) indexes)
    | _ => none

def OperandSpec.decode (d : Document) : Option OperandSpec := OperandSpec.decodeAt (d.depth + 1) d

/-- The operands of a set. -/
abbrev OperandSetSpec := List (String × OperandSpec)

def OperandSetSpec.decode (d : Document) : Option OperandSetSpec := do
  match ← fields [field "operand_values"] d with
  | [values] => required (asEntries OperandSpec.decode) values
  | _ => none

/-! ## Operand lists -/

/-- Whether arguments and code bits are emitted in reverse order. -/
structure Reversal where
  arguments : Bool := false
  codes : Bool := false
  deriving DecidableEq, Repr

/-- One operand set for each place. -/
structure SetsSpec where
  names : Option (List String)
  disallowed : List (List String)
  reversal : Reversal
  deriving Repr

def SetsSpec.decode (d : Document) : Option SetsSpec := do
  match ← fields [field "list", laterField "disallowed_pairs", laterField "reverse_argument_order",
      laterField "reverse_bytecode_order"] d with
  | [names, disallowed, arguments, codes] =>
    return {
      names := ← optional (asList asText) names
      disallowed := ← orDefault (asList (asList asText)) [] disallowed
      reversal := {
        arguments := ← orDefault asBool false arguments
        codes := ← orDefault asBool false codes } }
  | _ => none

/-- A list of particular operands. -/
structure TupleSpec where
  operands : List (String × OperandSpec)
  reversal : Reversal
  deriving Repr

def TupleSpec.decode (d : Document) : Option TupleSpec := do
  match ← fields [laterField "list", laterField "reverse_argument_order",
      laterField "reverse_bytecode_order"] d with
  | [operands, arguments, codes] =>
    return {
      operands := ← orDefault (asEntries OperandSpec.decode) [] operands
      reversal := {
        arguments := ← orDefault asBool false arguments
        codes := ← orDefault asBool false codes } }
  | _ => none

/-- What operands an instruction takes. -/
structure OperandsSpec where
  count : Option Nat
  sets : Option SetsSpec
  tuples : Option (List (String × TupleSpec))
  deriving Repr

def OperandsSpec.decode (d : Document) : Option OperandsSpec := do
  match ← fields [field "count", field "operand_sets", field "specific_operands"] d with
  | [count, sets, tuples] =>
    return {
      count := ← optional (asNat 64) count
      sets := ← optional SetsSpec.decode sets
      tuples := ← optional (asEntries TupleSpec.decode) tuples }
  | _ => none

/-! ## Instructions and macros -/

/-- Code bits after all others, and their count. -/
structure Suffix where
  value : Int
  size : Nat
  deriving DecidableEq, Repr

def Suffix.decode (d : Document) : Option Suffix := do
  match ← fields [field "value", field "size"] d with
  | [value, size] => return { value := ← required asInt value, size := ← required asSize size }
  | _ => none

/-- Code bits of an instruction. -/
structure OpcodeSpec where
  value : Option Int
  size : Option Nat
  suffix : Option Suffix
  wordOrder : Option Endian
  segmentOrder : Option Endian
  deriving Repr

def OpcodeSpec.decode (d : Document) : Option OpcodeSpec := do
  match ← fields [field "value", field "size", field "suffix", field "multi_word_endian",
      field "intra_word_endian"] d with
  | [value, size, suffix, wordOrder, segmentOrder] =>
    return {
      value := ← optional asInt value
      size := ← optional asSize size
      suffix := ← optional Suffix.decode suffix
      wordOrder := ← optional asEndian wordOrder
      segmentOrder := ← optional asEndian segmentOrder }
  | _ => none

/-- A variant of an instruction. -/
structure VariantSpec where
  opcode : Option OpcodeSpec
  operands : Option OperandsSpec
  deriving Repr

def VariantSpec.decode (d : Document) : Option VariantSpec := do
  match ← fields [field "bytecode", field "operands"] d with
  | [opcode, operands] =>
    return {
      opcode := ← optional OpcodeSpec.decode opcode
      operands := ← optional OperandsSpec.decode operands }
  | _ => none

/-- An instruction. -/
structure InstructionSpec where
  first : VariantSpec
  aliases : List String
  others : List VariantSpec
  deriving Repr

def InstructionSpec.decode (d : Document) : Option InstructionSpec := do
  match ← fields [field "bytecode", field "operands", laterField "aliases", laterField "variants"]
      d with
  | [opcode, operands, aliases, others] =>
    return {
      first := {
        opcode := ← optional OpcodeSpec.decode opcode
        operands := ← optional OperandsSpec.decode operands }
      aliases := ← orDefault (asList asText) [] aliases
      others := ← orDefault (asList VariantSpec.decode) [] others }
  | _ => none

/-- A variant of a macro. -/
structure MacroVariantSpec where
  operands : Option OperandsSpec
  templates : List String
  deriving Repr

def MacroVariantSpec.decode (d : Document) : Option MacroVariantSpec := do
  match ← fields [field "operands", laterField "instructions"] d with
  | [operands, templates] =>
    return {
      operands := ← optional OperandsSpec.decode operands
      templates := ← orDefault (asList asText) [] templates }
  | _ => none

/-- The variants of a macro. -/
abbrev MacroSpec := List MacroVariantSpec

/-- A macro is a list of variants, or a map that has one. Its scalars are settled first. -/
def MacroSpec.decode (d : Document) : Option MacroSpec := do
  match ← d.settle with
  | .list items => items.mapM MacroVariantSpec.decode
  | .map entries =>
    match ← fields [field "variants"] (.map entries) with
    | [variants] => required (asList MacroVariantSpec.decode) variants
    | _ => none
  | _ => none

/-! ## Sections -/

/-- The names of an instruction set. -/
structure IdentifierSpec where
  name : Option String
  version : Option String
  extension : Option String
  deriving Repr

def IdentifierSpec.decode (d : Document) : Option IdentifierSpec := do
  match ← fields [field "name", field "version", field "extension"] d with
  | [name, version, extension] =>
    return {
      name := ← optional asText name
      version := ← optional asKey version
      extension := ← optional asText extension }
  | _ => none

/-- Sizes and other settings of an instruction set. -/
structure GeneralSpec where
  addressSize : Nat
  wordSize : Nat
  segmentSize : Option Nat
  wordOrder : Option Endian
  segmentOrder : Endian
  registers : List String
  origin : Int
  pageSize : Int
  terminator : Int
  packing : Bool
  packingFill : Int
  minVersion : Option String
  embeddedStrings : Bool
  identifier : Option IdentifierSpec
  deriving Repr

def GeneralSpec.decode (d : Document) : Option GeneralSpec := do
  match ← fields [field "address_size",
      { names := ["word_size", "byte_size"], skippable := true },
      field "word_segment_size", field "multi_word_endianness", field "endian",
      laterField "intra_word_endianness", laterField "registers", laterField "origin",
      laterField "page_size", laterField "cstr_terminator", laterField "string_byte_packing",
      laterField "string_byte_packing_fill", field "min_version",
      laterField "allow_embedded_strings", field "identifier"] d with
  | [addressSize, wordSize, segmentSize, wordOrder, order, segmentOrder, registers, origin,
      pageSize, terminator, packing, packingFill, minVersion, embeddedStrings, identifier] =>
    return {
      addressSize := ← required asSize addressSize
      wordSize := ← orDefault asSize 8 wordSize
      segmentSize := ← optional asSize segmentSize
      wordOrder := (← optional asEndian wordOrder).or (← optional asEndian order)
      segmentOrder := ← orDefault asEndian .big segmentOrder
      registers := (← optional (asList asText) registers).getD []
      origin := ← orDefault asInt 0 origin
      pageSize := ← orDefault asInt 1 pageSize
      terminator := ← orDefault asInt 0 terminator
      packing := ← orDefault asBool false packing
      packingFill := ← orDefault asInt 0 packingFill
      minVersion := ← optional asKey minVersion
      embeddedStrings := ← orDefault asBool false embeddedStrings
      identifier := ← optional IdentifierSpec.decode identifier }
  | _ => none

/-- A constant that every program has. -/
structure Constant where
  name : String
  value : Int
  deriving DecidableEq, Repr

def Constant.decode (d : Document) : Option Constant := do
  match ← fields [field "name", field "value"] d with
  | [name, value] => return { name := ← required asText name, value := ← required asInt value }
  | _ => none

/-- Repeated words at a fixed address. -/
structure DataBlock where
  name : String
  address : Int
  value : Int
  /-- Number of words. -/
  size : Int
  deriving DecidableEq, Repr

def DataBlock.decode (d : Document) : Option DataBlock := do
  match ← fields [field "name", field "address", field "value", field "size"] d with
  | [name, address, value, size] =>
    return {
      name := ← required asText name
      address := ← required asInt address
      value := ← required asInt value
      size := ← required asInt size }
  | _ => none

/-- A memory zone that every program has. -/
structure ZoneSpec where
  name : String
  first : Int
  last : Int
  deriving DecidableEq, Repr

def ZoneSpec.decode (d : Document) : Option ZoneSpec := do
  match ← fields [field "name", field "start", field "end"] d with
  | [name, first, last] =>
    return {
      name := ← required asText name
      first := ← required asInt first
      last := ← required asInt last }
  | _ => none

/-- A symbol that every program has. -/
structure SymbolSpec where
  name : String
  value : Option String
  deriving DecidableEq, Repr

def SymbolSpec.decode (d : Document) : Option SymbolSpec := do
  match ← fields [field "name", field "value"] d with
  | [name, value] => return { name := ← required asText name, value := ← optional asKey value }
  | _ => none

/-- What every program has. -/
structure PredefinedSpec where
  constants : List Constant := []
  blocks : List DataBlock := []
  zones : List ZoneSpec := []
  symbols : List SymbolSpec := []
  /-- Whether the section has a `memory` block, which is no longer supported. -/
  hasMemory : Bool := false
  deriving Repr

def PredefinedSpec.decode (d : Document) : Option PredefinedSpec := do
  match ← fields [laterField "constants", laterField "data", laterField "memory_zones",
      laterField "symbols", field "memory"] d with
  | [constants, blocks, zones, symbols, memory] =>
    return {
      constants := ← orDefault (asList Constant.decode) [] constants
      blocks := ← orDefault (asList DataBlock.decode) [] blocks
      zones := ← orDefault (asList ZoneSpec.decode) [] zones
      symbols := ← orDefault (asList SymbolSpec.decode) [] symbols
      hasMemory := (← optional some memory).isSome }
  | _ => none

/-- A whole configuration. -/
structure IsaSpec where
  description : Option String
  general : Option GeneralSpec
  predefined : PredefinedSpec
  operandSets : List (String × OperandSetSpec)
  instructions : Option (List (String × InstructionSpec))
  macros : List (String × MacroSpec)
  deriving Repr

def IsaSpec.decode (d : Document) : Option IsaSpec := do
  match ← fields [laterField "description", field "general", laterField "predefined",
      laterField "operand_sets", field "instructions", laterField "macros"] d with
  | [description, general, predefined, operandSets, instructions, macros] =>
    return {
      description := ← optional asText description
      general := ← optional GeneralSpec.decode general
      predefined := (← optional PredefinedSpec.decode predefined).getD {}
      operandSets := ← orDefault (asEntries OperandSetSpec.decode) [] operandSets
      instructions := ← optional (asEntries InstructionSpec.decode) instructions
      macros := ← orDefault (asEntries MacroSpec.decode) [] macros }
  | _ => none

end Retarget
