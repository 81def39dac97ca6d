import Retarget.Files.Tree
import Retarget.Isa.Symbols
import Retarget.Statement.Basic

/-!
# Sessions

What one run of the assembler knows, and the reports of its steps. A report keeps what was printed
also when its step fails.
-/

namespace Retarget

/-! ## Messages -/

/-- A warning about a line. -/
structure Warning where
  line : SourceLine
  text : String
  deriving DecidableEq, Repr

namespace Warning

/-- The text of a warning with its line. -/
def render (w : Warning) : String := s!"{w.line.render} - {w.text}"

/-- The warning as an error, where warnings are errors. -/
def error (w : Warning) : Error := Error.ofCauseAt w.line (ProgramError.warning w.text)

end Warning

/-- What is printed. -/
inductive Message
  /-- A text, with its end of line. -/
  | text (s : String)
  | warning (w : Warning)
  deriving DecidableEq, Repr

namespace Message

/-- A word in a bright colour before a message, whose line ends with a carriage return too. -/
def banner (code : Nat) (word text : String) : String :=
  s!"\x1b[{code}m{word}\x1b[0m: {text}\r\n"

/-- A message as it is shown. -/
def render : Message → String
  | text s => s
  | warning w => banner 93 "WARNING" w.render

end Message

/-! ## Reports -/

/-- What a step printed and how it ended. -/
structure Report (α : Type) where
  messages : List Message
  result : Except Error α

namespace Report

/-- The printed lines, with their ends. -/
def output {α : Type} (r : Report α) : List String := r.messages.map Message.render

/-- End without printing. -/
protected def pure {α : Type} (a : α) : Report α := { messages := [], result := .ok a }

/-- Go on after a step that did not fail. -/
protected def bind {α β : Type} (r : Report α) (f : α → Report β) : Report β :=
  match r.result with
  | .error e => { messages := r.messages, result := .error e }
  | .ok a =>
    let next := f a
    { messages := r.messages ++ next.messages, result := next.result }

instance : Monad Report where
  pure := Report.pure
  bind := Report.bind

/-- A step that prints nothing. -/
def ofExcept {α : Type} (r : Except Error α) : Report α := { messages := [], result := r }

/-- Fail. -/
def fail {α : Type} (e : Error) : Report α := { messages := [], result := .error e }

/-- Print a message. -/
def tell (m : Message) : Report Unit := { messages := [m], result := .ok () }

/-- Print a text. -/
def print (text : String) : Report Unit := tell (.text text)

/-- Print an information. -/
def info (text : String) : Report Unit := print (Message.banner 94 "INFO" text)

end Report

/-! ## Sessions -/

/-- Settings of one run. -/
structure Options where
  /-- The first address of the image. -/
  start : Option Nat := none
  /-- The last address of the image. -/
  stop : Option Nat := none
  /-- The word between statements. -/
  fill : Nat := 0
  /-- Directories for included files. -/
  includePaths : List String := []
  defines : List (String × String) := []
  /-- From which level on messages are left out. -/
  verbosity : Nat := 0
  /-- The same for notes on language requirements. -/
  noteLevel : Nat := 0
  warningsAsErrors : Bool := false
  deriving Repr, Inhabited

/-- What one run knows. -/
structure Session where
  isa : Isa
  options : Options
  scopes : ScopeTree
  named : NamedScopes
  zones : ZoneMap
  symbols : SymbolTable
  files : FileTable
  warnings : List Warning

namespace Session

/-- What the values of labels depend on. -/
def env (s : Session) : Environment :=
  { isa := s.isa, zones := s.zones, scopes := s.scopes, named := s.named }

/-- The zones that a program starts with. -/
def startZones (isa : Isa) : Except Error ZoneMap := do
  let zones ← Error.lift (ZoneMap.make isa.addressSize isa.origin)
  Error.lift <| isa.zones.foldlM (fun m z =>
    if z.name == ZoneMap.globalName then m.redefineGlobal z.first z.last isa.origin
    else m.create z.first z.last z.name) zones

/-- The scopes that a program starts with, which hold the constants of the instruction set. -/
def startScopes (isa : Isa) : Except Error ScopeTree :=
  let line := SourceLine.synthetic isa.name
  Error.liftAt line <| isa.constants.foldlM (fun t c =>
    t.bind ScopeTree.globalId c.name c.value line) ScopeTree.empty

/-- Begin a run. -/
def start (isa : Isa) (options : Options) : Except Error Session := do
  let zones ← startZones isa
  let symbols ← isa.symbolTable options.defines
  let scopes ← startScopes isa
  return { isa, options, scopes, named := [], zones, symbols, files := [], warnings := [] }

/-- Give a warning, which is an error if warnings are. -/
def warn (s : Session) (line : SourceLine) (text : String) : Report Session :=
  let w : Warning := { line, text }
  if s.options.warningsAsErrors then Report.fail w.error
  else do
    Report.tell (.warning w)
    return { s with warnings := s.warnings ++ [w] }

/-- Print a message if the run is talkative enough. -/
def log (s : Session) (level : Nat) (text : String) : Report Unit :=
  if level ≤ s.options.verbosity then Report.info text else pure ()

/-- Bind a label in an active named scope that claims it, or else in the scope that its spelling
calls for. -/
def bindLabel (s : Session) (scope : ScopeId) (active : ActiveScopes) (label : String) (value : Int)
    (line : SourceLine) : Except LabelError Session := do
  match ← s.named.bind? active label value line with
  | some named => return { s with named }
  | none => return { s with scopes := ← s.scopes.bind scope label value line }

end Session

end Retarget
