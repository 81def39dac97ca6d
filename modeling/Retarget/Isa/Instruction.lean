import Retarget.Isa.OperandList

/-!
# Instructions and macros

The table of all mnemonics, in lower case. An instruction has variants that are tried in turn; a
macro stands for a list of other instructions.
-/

namespace Retarget

/-- Words of the assembler, which no mnemonic and no register may be. -/
def keywords : List String :=
  ["org", "memzone", "align", "fill", "zero", "zerountil", "byte", "2byte", "4byte", "8byte",
    "cstr", "asciiz", "include", "require", "create_memzone", "define", "if", "elif", "else",
    "endif", "ifdef", "ifndef", "LSB", "BYTE0", "BYTE1", "BYTE2", "BYTE3", "BYTE4", "BYTE5",
    "BYTE6", "BYTE7", "BYTE8", "BYTE9"]

/-- Whether a name is a word of the assembler, in any letter case. -/
def isKeyword (name : String) : Bool := keywords.any fun k => Text.equalIgnoringCase k name

/-- Code bits of a variant. -/
structure Opcode where
  value : Int
  size : Nat
  suffix : Option Suffix
  wordOrder : Endian
  segmentOrder : Endian
  deriving DecidableEq, Repr

namespace Opcode

/-- Check the code bits of a variant. -/
def ofSpec (defaults : EncodingDefaults) (mnemonic : String) (spec : Option OpcodeSpec) :
    Except IsaError Opcode :=
  match spec with
  | some { value := some value, size := some size, suffix, wordOrder, segmentOrder } =>
    .ok { value, size, suffix, wordOrder := wordOrder.getD defaults.wordOrder,
          segmentOrder := segmentOrder.getD defaults.segmentOrder }
  | _ => .error (.noBytecode mnemonic)

/-- The field of the code bits. -/
def field (o : Opcode) (line : SourceLine) : Field :=
  Field.literal o.value o.size o.wordOrder o.segmentOrder line

/-- The field of the code bits that end the instruction. -/
def suffixField (o : Opcode) (line : SourceLine) : Option Field :=
  o.suffix.map fun s => Field.literal s.value s.size o.wordOrder o.segmentOrder line

end Opcode

/-- A variant of an instruction. -/
structure Variant where
  opcode : Opcode
  operands : Option OperandList
  deriving Repr

/-- An instruction. -/
structure Instruction where
  mnemonic : String
  variants : List Variant
  deriving Repr

/-- A variant of a macro. -/
structure MacroVariant where
  operands : Option OperandList
  /-- Instructions with places for the operands. -/
  templates : List String
  deriving Repr

/-- A macro. -/
structure Macro where
  mnemonic : String
  variants : List MacroVariant
  deriving Repr

/-- What a mnemonic stands for. -/
inductive Operation
  | instruction (i : Instruction)
  | expansion (m : Macro)
  deriving Repr

namespace Operation

/-- The name that an operation is defined with. -/
def mnemonic : Operation → String
  | instruction i => i.mnemonic
  | expansion m => m.mnemonic

/-- Whether an operation is a macro. -/
def isMacro : Operation → Bool
  | instruction _ => false
  | expansion _ => true

end Operation

/-! ## Checking -/

namespace Instruction

/-- Check a variant of an instruction. -/
def variantOf (sets : NameTable OperandSet) (defaults : EncodingDefaults) (mnemonic : String)
    (spec : VariantSpec) : Except IsaError Variant := do
  let opcode ← Opcode.ofSpec defaults mnemonic spec.opcode
  let operands ← spec.operands.mapM (OperandList.ofSpec sets defaults mnemonic)
  return { opcode, operands }

/-- Check an instruction. -/
def ofSpec (sets : NameTable OperandSet) (defaults : EncodingDefaults) (mnemonic : String)
    (spec : InstructionSpec) : Except IsaError Instruction := do
  let variants ← (spec.first :: spec.others).mapM (variantOf sets defaults mnemonic)
  return { mnemonic, variants }

end Instruction

namespace Macro

/-- Check a variant of a macro. -/
def variantOf (sets : NameTable OperandSet) (defaults : EncodingDefaults) (mnemonic : String)
    (spec : MacroVariantSpec) : Except IsaError MacroVariant := do
  if spec.templates.isEmpty then
    throw (.macroEmpty mnemonic)
  let operands ← spec.operands.mapM (OperandList.ofSpec sets defaults mnemonic)
  return { operands, templates := spec.templates }

/-- Check a macro. -/
def ofSpec (sets : NameTable OperandSet) (defaults : EncodingDefaults) (mnemonic : String)
    (spec : MacroSpec) : Except IsaError Macro := do
  let variants ← spec.mapM (variantOf sets defaults mnemonic)
  if variants.isEmpty then
    throw (.macroNoVariants mnemonic)
  return { mnemonic, variants }

end Macro

/-- All mnemonics in lower case, also the other names of instructions. -/
structure InstructionSet where
  entries : List (String × Operation)
  deriving Repr, Inhabited

namespace InstructionSet

/-- The operation of a mnemonic, in any letter case. -/
def find? (s : InstructionSet) (mnemonic : String) : Option Operation :=
  s.entries.lookup (Text.lower mnemonic)

/-- Whether a word is a mnemonic, in any letter case. -/
def contains (s : InstructionSet) (mnemonic : String) : Bool := (s.find? mnemonic).isSome

/-- Add a mnemonic in lower case; `what` says what kind it is. -/
def register (s : InstructionSet) (what mnemonic : String) (operation : Operation) :
    Except IsaError InstructionSet :=
  if isKeyword mnemonic then .error (.keyword what mnemonic)
  else if (s.entries.lookup mnemonic).isSome then .error (.duplicateMnemonic mnemonic)
  else .ok { entries := s.entries ++ [(mnemonic, operation)] }

/-- Check an instruction and add it with its other names. -/
def addInstruction (sets : NameTable OperandSet) (defaults : EncodingDefaults) (s : InstructionSet)
    (entry : String × InstructionSpec) : Except IsaError InstructionSet := do
  let mnemonic := Text.lower entry.1
  let operation := Operation.instruction (← Instruction.ofSpec sets defaults mnemonic entry.2)
  let s ← s.register "instruction" mnemonic operation
  entry.2.aliases.foldlM (fun s name => s.register "alias" (Text.lower name) operation) s

/-- Check a macro and add it. -/
def addMacro (sets : NameTable OperandSet) (defaults : EncodingDefaults) (s : InstructionSet)
    (entry : String × MacroSpec) : Except IsaError InstructionSet := do
  let mnemonic := Text.lower entry.1
  if (s.entries.lookup mnemonic).isSome then
    throw (.macroShadows mnemonic)
  s.register "macro" mnemonic (.expansion (← Macro.ofSpec sets defaults mnemonic entry.2))

/-- Check all instructions and macros. -/
def ofSpec (sets : NameTable OperandSet) (defaults : EncodingDefaults)
    (instructions : List (String × InstructionSpec)) (macros : List (String × MacroSpec)) :
    Except IsaError InstructionSet := do
  let s ← instructions.foldlM (addInstruction sets defaults) { entries := [] }
  macros.foldlM (addMacro sets defaults) s

end InstructionSet

end Retarget
