import Retarget.Assembly.Error
import Retarget.Bits.Error
import Retarget.Expr.Error
import Retarget.Field.Error
import Retarget.Hex.Error
import Retarget.Isa.Error
import Retarget.Scope.Error
import Retarget.Statement.Error
import Retarget.Symbol.Error
import Retarget.Zone.Error

/-!
# Errors

An error is a cause and, where one is known, the line it is about. Each part of the assembler has
its own type of causes; `Cause` is their sum, `Cause.kind` sorts them into the kinds that users see
and `Cause.message` gives their texts.
-/

namespace Retarget

/-- The kinds of errors. -/
inductive ErrorKind
  /-- The instruction set is malformed or inconsistent. -/
  | config
  /-- The text of a statement. -/
  | grammar
  /-- A label that is repeated, misplaced or unknown. -/
  | label
  /-- No variant of an instruction takes the operands. -/
  | operand
  /-- A value outside its range. -/
  | range
  /-- An included file. -/
  | inclusion
  /-- Two statements share an address. -/
  | overlap
  /-- A directive that starts with a number sign. -/
  | preprocessor
  /-- The file system. -/
  | system
  /-- A warning where warnings are errors. -/
  | warning
  | general
  deriving DecidableEq, Repr

namespace ErrorKind

/-- The word for a kind. -/
def text : ErrorKind → String
  | config => "Config"
  | grammar => "Syntax"
  | label => "Label"
  | operand => "Operand"
  | range => "Range"
  | inclusion => "Include"
  | overlap => "Overlap"
  | preprocessor => "Preprocessor"
  | system => "IO"
  | warning => "Warning"
  | general => "General"

end ErrorKind

/-- Why something failed. -/
inductive Cause
  | expr (e : ExprError)
  | bits (e : BitsError)
  | zone (e : ZoneError)
  | label (e : LabelError)
  | namedScope (e : NamedScopeError)
  | field (e : FieldError)
  | symbol (e : SymbolError)
  | condition (e : ConditionError)
  | directive (e : DirectiveError)
  | isa (e : IsaError)
  | instruction (e : InstructionError)
  | statement (e : StatementError)
  | placement (e : PlacementError)
  | program (e : ProgramError)
  | hex (e : HexError)
  deriving DecidableEq, Repr

namespace Cause

/-- The text of a cause. -/
def message : Cause → String
  | expr e => e.message
  | bits e => e.message
  | zone e => e.message
  | label e => e.message
  | namedScope e => e.message
  | field e => e.message
  | symbol e => e.message
  | condition e => e.message
  | directive e => e.message
  | isa e => e.message
  | instruction e => e.message
  | statement e => e.message
  | placement e => e.message
  | program e => e.message
  | hex e => e.message

/-- The kind of a cause. -/
def kind : Cause → ErrorKind
  | expr (.unknownLabel _) => .label
  | expr (.overflow _) | expr .divisionByZero => .range
  | expr _ => .grammar
  | bits e => if e.isGeometry then .config else .range
  | zone e => if e.isDefinition then .config else .range
  | label _ => .label
  | namedScope _ | symbol _ | condition _ | directive _ => .preprocessor
  | field _ => .range
  | isa _ => .config
  | instruction (.unknownZone ..) => .config
  | instruction (.noVariant _) => .operand
  | instruction _ => .grammar
  | statement e => if e.isLabel then .label else .grammar
  | placement e => if e.isRange then .range else .general
  | program (.cannotOpen ..) | program (.file _) => .system
  | program (.includedTwice _) | program (.includeMissing _)
  | program (.includeAmbiguous ..) => .inclusion
  | program (.overlap ..) => .overlap
  | program (.warning _) => .warning
  | hex _ => .general

end Cause

/-- Types of causes. -/
class IsCause (ε : Type) where
  /-- The cause among all causes. -/
  cause : ε → Cause

instance : IsCause ExprError := ⟨.expr⟩
instance : IsCause BitsError := ⟨.bits⟩
instance : IsCause ZoneError := ⟨.zone⟩
instance : IsCause LabelError := ⟨.label⟩
instance : IsCause NamedScopeError := ⟨.namedScope⟩
instance : IsCause FieldError := ⟨.field⟩
instance : IsCause SymbolError := ⟨.symbol⟩
instance : IsCause ConditionError := ⟨.condition⟩
instance : IsCause DirectiveError := ⟨.directive⟩
instance : IsCause IsaError := ⟨.isa⟩
instance : IsCause InstructionError := ⟨.instruction⟩
instance : IsCause StatementError := ⟨.statement⟩
instance : IsCause PlacementError := ⟨.placement⟩
instance : IsCause ProgramError := ⟨.program⟩
instance : IsCause HexError := ⟨.hex⟩

/-- A cause and the line it is about. -/
structure Error where
  cause : Cause
  line : Option SourceLine
  deriving DecidableEq, Repr

namespace Error

/-- The kind of an error. -/
def kind (e : Error) : ErrorKind := e.cause.kind

/-- The text of an error, without its line. -/
def message (e : Error) : String := e.cause.message

/-- Name a line, unless the error already names one. -/
def orAt (e : Error) (line : SourceLine) : Error :=
  match e.line with
  | some _ => e
  | none => { e with line := some line }

/-- An error without a line. -/
def ofCause {ε : Type} [IsCause ε] (e : ε) : Error := { cause := IsCause.cause e, line := none }

/-- An error about a line. -/
def ofCauseAt {ε : Type} [IsCause ε] (line : SourceLine) (e : ε) : Error :=
  { cause := IsCause.cause e, line := some line }

/-- Fail without a line. -/
def fail {ε α : Type} [IsCause ε] (e : ε) : Except Error α := .error (ofCause e)

/-- Fail at a line. -/
def failAt {ε α : Type} [IsCause ε] (line : SourceLine) (e : ε) : Except Error α :=
  .error (ofCauseAt line e)

/-- Turn a result with its own causes into one with errors. -/
def lift {ε α : Type} [IsCause ε] (r : Except ε α) : Except Error α := r.mapError ofCause

/-- Turn a result with its own causes into one with errors about a line. -/
def liftAt {ε α : Type} [IsCause ε] (line : SourceLine) (r : Except ε α) : Except Error α :=
  r.mapError (ofCauseAt line)

/-- Name a line in the error of a result, unless it already names one. -/
def attach {α : Type} (line : SourceLine) (r : Except Error α) : Except Error α :=
  r.mapError fun e => e.orAt line

/-- Text in red on a terminal. -/
def red (text : String) : String := "\x1b[91m" ++ text ++ "\x1b[0m"

/-- The error as it is shown to the user. -/
def render (e : Error) : String :=
  match e.line with
  | some line => red "ERROR:" ++ s!" {line.render} - {e.message}"
  | none => red "ERROR:" ++ s!" {e.message}"

/-- The error as it is shown when the program ends with it. -/
def renderFinal (e : Error) : String :=
  red "bespokeasm::Error" ++ s!"({e.kind.text}): {e.render}"

end Error

end Retarget
