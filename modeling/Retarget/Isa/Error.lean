/-!
# Why a configuration describes no instruction set
-/

namespace Retarget

/-- What can be wrong with the configuration of one operand. -/
inductive OperandFault
  | noBytecodeSize
  | unknownPosition (position : String)
  | noArgument
  | noOffsetSize
  | undeclaredRegister (register : String)
  | noRegister
  | untypedDecorator
  | unknownDecorator (name : String)
  | noIndexes
  | emptyIndex (id : String)
  | unevenIndexes
  | registerKey (key : String)
  | nonNumericKey (key : String)
  | noBytecode
  | reversedLimits (greatest least : Int)
  | unknownType (type : String)
  deriving DecidableEq, Repr

namespace OperandFault

/-- The text of the message about the operand `id`. -/
def message (id : String) : OperandFault → String
  | noBytecodeSize => s!"operand \"{id}\" has a bytecode value but no bytecode size"
  | unknownPosition position => s!"operand \"{id}\" has unknown bytecode position \"{position}\""
  | noArgument => s!"operand \"{id}\" does not have an argument configuration"
  | noOffsetSize => s!"offset of operand \"{id}\" does not have a configured size"
  | undeclaredRegister register =>
    s!"operand \"{id}\" uses register \"{register}\" which is not a declared register"
  | noRegister => s!"operand \"{id}\" is register based but no register is configured"
  | untypedDecorator => s!"operand \"{id}\" has a decorator without a type"
  | unknownDecorator name => s!"operand \"{id}\" has unknown decorator \"{name}\""
  | noIndexes => s!"operand \"{id}\" has no index operands configured"
  | emptyIndex index => s!"operand \"{id}\" is configured with an empty index \"{index}\""
  | unevenIndexes =>
    s!"not all index operands are configured with the same bytecode size for operand \"{id}\""
  | registerKey key => s!"operand \"{id}\" uses the register \"{key}\" as an enumeration key"
  | nonNumericKey key => s!"operand \"{id}\" has non-numeric enumeration key \"{key}\""
  | noBytecode => s!"operand \"{id}\" has no bytecode configuration"
  | reversedLimits greatest least =>
    s!"operand \"{id}\" has a max value {greatest} smaller than the min value {least}"
  | unknownType type => s!"operand \"{id}\" was configured with unknown type \"{type}\""

end OperandFault

/-- What can be wrong with a configuration. -/
inductive IsaError
  /-- The document does not have the shape of a configuration. -/
  | malformed
  | empty
  | memoryBlock
  | noGeneral
  | noMinVersion
  | badMinVersion (text : String)
  | needsNewer (text : String)
  | noInstructions
  | packingWordSize
  | packingFill
  | sizes
  | segmentSize (segment size : Nat)
  | pageSize
  | badVersion (text : String)
  | keywordRegister (name : String)
  | globalAfterOrigin (first origin : Int)
  | negativeBlock (name : String)
  | operand (id : String) (fault : OperandFault)
  /-- A fault of an operand that only one instruction uses. -/
  | specificOperand (instruction id : String) (fault : OperandFault)
  | emptyInSet (set id : String)
  | noCount (instruction : String)
  | noSetList (instruction : String)
  | unknownSet (instruction set : String)
  | setCount (sets count : Nat) (instruction : String)
  | noBytecode (instruction : String)
  | macroEmpty (name : String)
  | macroNoVariants (name : String)
  | macroShadows (name : String)
  /-- A mnemonic that is a word of the assembler; `what` is the kind of mnemonic. -/
  | keyword (what name : String)
  | duplicateMnemonic (name : String)
  | unreadable (path reason : String)
  | unknownFileType (path : String)
  | notGiven
  deriving DecidableEq, Repr

namespace IsaError

/-- The text of the message. -/
def message : IsaError → String
  | malformed => "deserialization failed"
  | empty => "ISA configuration is empty"
  | memoryBlock =>
    "ISA configuration defines a predefined \"memory\" block; memory blocks have been replaced " ++
      "by \"data\" blocks"
  | noGeneral => "ISA configuration does not contain a \"general\" section"
  | noMinVersion =>
    "ISA configuration does not contain the required \"min_version\" field in the general section"
  | badMinVersion text => s!"min_version \"{text}\" is not a valid version"
  | needsNewer text => s!"the ISA configuration requires at least BespokeASM version {text}"
  | noInstructions => "ISA configuration does not contain an \"instructions\" section"
  | packingWordSize =>
    "\"string_byte_packing\" is only allowed if word_size is a multiple of 8 and at least 16"
  | packingFill => "\"string_byte_packing_fill\" must be an integer between 0 and 255"
  | sizes => "word_size must be positive and address_size must be in 1..=64"
  | segmentSize segment size =>
    s!"word_segment_size {segment} does not evenly divide word_size {size}"
  | pageSize => "page_size must be at least 1"
  | badVersion text => s!"ISA version \"{text}\" is not in semantic versioning format"
  | keywordRegister name =>
    s!"the ISA configuration uses a keyword as a register name: {name}"
  | globalAfterOrigin first origin =>
    s!"the GLOBAL memory zone was redefined to start at {first} which is after the default " ++
      s!"origin {origin}"
  | negativeBlock name => s!"predefined data block \"{name}\" has a negative size"
  | operand id fault => fault.message id
  | specificOperand instruction id fault => s!"instruction \"{instruction}\": {fault.message id}"
  | emptyInSet set id =>
    s!"operand set \"{set}\" contains the empty operand \"{id}\"; empty operands are only " ++
      "allowed as specific operands"
  | noCount instruction =>
    s!"configuration for instruction \"{instruction}\" does not have a \"count\" element"
  | noSetList instruction =>
    s!"operand set configuration is missing the \"list\" key for instruction \"{instruction}\""
  | unknownSet instruction set =>
    s!"instruction \"{instruction}\" references unknown operand set \"{set}\""
  | setCount sets count instruction =>
    s!"the number of configured operand sets ({sets}) does not match the operand count " ++
      s!"({count}) for instruction \"{instruction}\""
  | noBytecode instruction =>
    s!"instruction \"{instruction}\" does not have a byte code configuration"
  | macroEmpty name => s!"macro \"{name}\" does not have any instructions configured"
  | macroNoVariants name => s!"macro \"{name}\" has no variants"
  | macroShadows name => s!"macro \"{name}\" has same mnemonic as a configured instruction"
  | keyword what name =>
    s!"ISA configuration defined {what} \"{name}\" which is also an assembler keyword"
  | duplicateMnemonic name => s!"duplicate mnemonic or alias found: \"{name}\""
  | unreadable path reason => s!"could not read ISA configuration {path}: {reason}"
  | unknownFileType path =>
    s!"unknown ISA configuration file type for {path}; expected .json, .yaml or .yml"
  | notGiven => "an ISA configuration file is required (use -c/--config)"

end IsaError

end Retarget
