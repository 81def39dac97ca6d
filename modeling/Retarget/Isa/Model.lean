import Retarget.Document.Json
import Retarget.Document.Yaml
import Retarget.Isa.Instruction
import Retarget.Symbol.Table
import Retarget.Version

/-!
# Instruction sets

The checked form of a configuration, ready for matching and encoding.
-/

namespace Retarget

/-- The version of the assembler as a text. -/
def assemblerVersion : String := "0.5.0"

/-- An instruction set. -/
structure Isa where
  description : String
  name : String
  version : String
  extension : String
  addressSize : Nat
  geometry : Geometry
  wordOrder : Endian
  registers : NameSet
  origin : Int
  pageSize : Int
  /-- The character that ends terminated strings. -/
  terminator : Int
  /-- Whether the characters of strings share words. -/
  packing : Bool
  /-- The byte that fills up the last word of a packed string. -/
  packingFill : Int
  /-- Whether a quoted text may stand as a statement of its own. -/
  embeddedStrings : Bool
  constants : List Constant
  blocks : List DataBlock
  zones : List ZoneSpec
  symbols : List SymbolSpec
  instructions : InstructionSet
  size_pos : 0 < geometry.size
  segment_dvd : geometry.segment ∣ geometry.size
  deriving Repr

namespace Isa

/-- Width of a word in bits. -/
def wordSize (isa : Isa) : Nat := isa.geometry.size

/-- The version as numbers. -/
def versionNumbers (isa : Isa) : Version := (Version.parse isa.version).getD ⟨0, 0, 1⟩

/-! ## Checking -/

/-- Check that the assembler is new enough. -/
def checkMinVersion (general : GeneralSpec) : Except IsaError Unit :=
  match general.minVersion with
  | none => .error .noMinVersion
  | some required =>
    match Version.parse required with
    | none => .error (.badMinVersion required)
    | some wanted =>
      let own := (Version.parse assemblerVersion).getD ⟨0, 0, 0⟩
      if wanted.compare own = .gt then .error (.needsNewer required) else .ok ()

/-- What talkative runs say about the version that a configuration requires. -/
def versionNote? (spec : IsaSpec) : Option String := do
  let general ← spec.general
  let required ← general.minVersion
  if spec.predefined.hasMemory || (Version.parse required).isNone then
    none
  return s!"The ISA configuration requires BespokeASM version {required}. This is version " ++
    s!"{assemblerVersion}."

/-- Check the sizes, and give the width of the segments. -/
def checkSizes (general : GeneralSpec) :
    Except IsaError { segment : Nat // 0 < general.wordSize ∧ segment ∣ general.wordSize } := do
  if general.packing && (general.wordSize < 16 || general.wordSize % 8 != 0) then
    throw .packingWordSize
  if general.packingFill < 0 || 255 < general.packingFill then
    throw .packingFill
  if general.wordSize = 0 || general.addressSize = 0 || 64 < general.addressSize then
    throw .sizes
  let segment := general.segmentSize.getD general.wordSize
  if h : 0 < general.wordSize ∧ segment ∣ general.wordSize then
    if general.pageSize < 1 then
      throw .pageSize
    return ⟨segment, h⟩
  else throw (.segmentSize segment general.wordSize)

/-- The version that a configuration gives. -/
def versionOf (general : GeneralSpec) : Except IsaError String :=
  let version :=
    match general.identifier.bind IdentifierSpec.version with
    | some v => Text.strip v
    | none => "0.0.1"
  if (Version.parse version).isSome then .ok version else .error (.badVersion version)

/-- The name that a configuration gives, with underscores for spaces. -/
def nameOf (general : GeneralSpec) (other : String) : String :=
  let name := (general.identifier.bind IdentifierSpec.name).getD other
  String.ofList ((Text.trim name.toList).map fun c => if c == ' ' then '_' else c)

/-- The registers that a configuration gives. -/
def registersOf (general : GeneralSpec) : Except IsaError NameSet :=
  let registers := NameSet.ofList general.registers
  match registers.find? isKeyword with
  | some r => .error (.keywordRegister r)
  | none => .ok registers

/-- Check that the origin is in the zone `GLOBAL` as the configuration defines it. -/
def checkOrigin (general : GeneralSpec) (zones : List ZoneSpec) : Except IsaError Unit :=
  match zones.find? fun z => z.name == ZoneMap.globalName with
  | some z =>
    if general.origin < z.first then .error (.globalAfterOrigin z.first general.origin) else .ok ()
  | none => .ok ()

/-- Check that no block has a negative size. -/
def checkBlocks (blocks : List DataBlock) : Except IsaError Unit :=
  match blocks.find? fun b => b.size < 0 with
  | some b => .error (.negativeBlock b.name)
  | none => .ok ()

/-- Check the operand sets; of two with one name the later one counts. -/
def operandSetsOf (defaults : EncodingDefaults) (sets : List (String × OperandSetSpec)) :
    Except IsaError (NameTable OperandSet) := do
  let checked ← sets.mapM fun (name, spec) => do
    return (name, ← OperandSet.ofSpec defaults name spec)
  return NameTable.ofList checked

/-- Check a configuration. An instruction set without a name gets the name `other`. -/
def ofSpec (spec : IsaSpec) (other : String) : Except IsaError Isa := do
  if spec.predefined.hasMemory then
    throw .memoryBlock
  let some general := spec.general | throw .noGeneral
  checkMinVersion general
  let some instructions := spec.instructions | throw .noInstructions
  let ⟨segment, hsize⟩ ← checkSizes general
  let version ← versionOf general
  let registers ← registersOf general
  let defaults : EncodingDefaults :=
    { wordOrder := general.wordOrder.getD .big, segmentOrder := general.segmentOrder, registers }
  checkOrigin general spec.predefined.zones
  let sets ← operandSetsOf defaults spec.operandSets
  let instructions ← InstructionSet.ofSpec sets defaults instructions spec.macros
  checkBlocks spec.predefined.blocks
  return {
    description := spec.description.getD "BespokeASM Assembly"
    name := nameOf general other
    version
    extension := (general.identifier.bind IdentifierSpec.extension).getD "asm"
    addressSize := general.addressSize
    geometry := { size := general.wordSize, segment, order := general.segmentOrder }
    wordOrder := defaults.wordOrder
    registers
    origin := general.origin
    pageSize := general.pageSize
    terminator := general.terminator % 256
    packing := general.packing
    packingFill := general.packingFill
    embeddedStrings := general.embeddedStrings
    constants := spec.predefined.constants
    blocks := spec.predefined.blocks
    zones := spec.predefined.zones
    symbols := spec.predefined.symbols
    instructions
    size_pos := hsize.1
    segment_dvd := hsize.2 }

/-! ## Reading -/

/-- The two formats of configurations. -/
inductive Format
  | json
  | yaml
  deriving DecidableEq, Repr

/-- Read the sections of a configuration. -/
def readSpec (format : Format) (text : String) : Except IsaError IsaSpec :=
  match format with
  | .json => ((Json.parse text).bind IsaSpec.decode).elim (.error .malformed) .ok
  | .yaml =>
    match Yaml.parse text with
    | none => .error .malformed
    | some d =>
      if d.isNull then .error .empty else (IsaSpec.decode d).elim (.error .malformed) .ok

/-- Read an instruction set. One without a name gets the name `other`. -/
def read (format : Format) (text other : String) : Except IsaError Isa := do
  ofSpec (← readSpec format text) other

end Isa

end Retarget
