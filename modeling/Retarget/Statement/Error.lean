import Retarget.Number

/-!
# Why a statement cannot be read, placed or encoded
-/

namespace Retarget

/-- What can be wrong with an instruction and its operands. -/
inductive InstructionError
  | unknownZone (zone operand : String)
  | unexpectedOffset (register : String)
  /-- No variant of the instruction takes these operands. -/
  | noVariant (name : String)
  | unknownMnemonic (name : String)
  | tooDeep (name : String) (depth : Nat)
  | noArgument (name : String) (step : Nat) (index : Nat)
  | noRegister (name : String) (step : Nat) (index : Nat)
  | unresolved (name tag : String) (step : Nat)
  deriving DecidableEq, Repr

namespace InstructionError

/-- The text of the message. -/
def message : InstructionError → String
  | unknownZone zone operand => s!"invalid memory zone name \"{zone}\" for operand \"{operand}\""
  | unexpectedOffset register =>
    s!"an offset was given for indirect register \"{register}\" which is not configured to take one"
  | noVariant name => s!"Instruction \"{name}\" has no valid operands configured."
  | unknownMnemonic name => s!"Unrecognized mnemonic \"{name}\""
  | tooDeep name depth => s!"macro \"{name}\" exceeds the maximum expansion depth of {depth}"
  | noArgument name step index =>
    s!"macro \"{name}\" step {step} uses @ARG({index}) but that operand has no argument; " ++
      s!"consider @OP({index})"
  | noRegister name step index =>
    s!"macro \"{name}\" step {step} uses @REG({index}) but that operand has no register; " ++
      s!"consider @OP({index})"
  | unresolved name tag step => s!"macro \"{name}\" has an unresolved {tag} on step {step}"

end InstructionError

/-- What can be wrong with the text of a statement. -/
inductive StatementError
  | unterminatedString (text : String)
  | notQuoted (text : String)
  | unknownInstruction (text : String)
  | badLabel (name : String)
  | registerLabel (name : String)
  | malformedDirective (text : String)
  | argumentCount (directive : String) (count : Nat)
  | noOrigin
  | noZoneName
  | unknownDirective (name : String)
  | unknownZone (name : String)
  | noValues (directive : String)
  | onlyStrings (directive argument : String)
  deriving DecidableEq, Repr

namespace StatementError

/-- The text of the message. -/
def message : StatementError → String
  | unterminatedString text => s!"unterminated string {text}"
  | notQuoted text => s!"{text} is not a quoted string"
  | unknownInstruction text => s!"unknown instruction \"{text}\""
  | badLabel name => s!"invalid label name \"{name}\""
  | registerLabel name => s!"register name \"{name}\" can't be used as a label"
  | malformedDirective text => s!"malformed directive \"{text}\""
  | argumentCount directive count =>
    let plural := if count = 1 then "" else "s"
    s!".{directive} takes {count} argument{plural}"
  | noOrigin => ".org needs an address"
  | noZoneName => ".memzone needs a memory zone name"
  | unknownDirective name => s!"unknown directive \".{name}\""
  | unknownZone name => s!"unknown memory zone \"{name}\""
  | noValues directive => s!".{directive} needs a list of values"
  | onlyStrings directive argument => s!".{directive} only accepts quoted strings, got {argument}"

/-- Whether the name of a label is at fault. -/
def isLabel : StatementError → Bool
  | badLabel _ | registerLabel _ => true
  | _ => false

end StatementError

/-- What can go wrong when a statement gets its address and its words. -/
inductive PlacementError
  | originOutside (address first last : Int)
  | pageSize (size : Int)
  | negativeFill (count : Int)
  | unplaced
  | wordCount (generated reserved : Nat)
  deriving DecidableEq, Repr

namespace PlacementError

/-- The text of the message. -/
def message : PlacementError → String
  | originOutside address first last =>
    s!".org address 0x{Number.hex address} is outside the address range " ++
      s!"0x{Number.hex first}-0x{Number.hex last}"
  | pageSize size => s!"page size {size} must be at least 1"
  | negativeFill count => s!"fill count {count} is negative"
  | unplaced => "words requested before an address was assigned"
  | wordCount generated reserved => s!"generated {generated} words but {reserved} were reserved"

/-- Whether a value is at fault. -/
def isRange : PlacementError → Bool
  | originOutside .. | pageSize _ | negativeFill _ => true
  | _ => false

end PlacementError

end Retarget
