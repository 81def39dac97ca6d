import Retarget.Assembly.Session
import Retarget.Text.Digits

/-!
# Arguments of the command line

Options may stand anywhere before a double dash, and short ones may share a dash. An option that
takes a value takes the rest of its argument or else the next argument, which must not look like an
option.
-/

namespace Retarget

/-- Options with a value. -/
inductive Setting
  | config
  | output
  | start
  | stop
  | fill
  | includePath
  | define
  deriving DecidableEq, Repr

/-- Options without a value. -/
inductive Switch
  | verbose
  | warningsAsErrors
  | hex
  | noOutput
  | version
  | help
  deriving DecidableEq, Repr

/-- An option. -/
inductive CommandOption
  | setting (s : Setting)
  | switch (s : Switch)
  deriving DecidableEq, Repr

namespace CommandOption

/-- The option with a long name. -/
def ofName? : String → Option CommandOption
  | "config" => some (.setting .config)
  | "output" => some (.setting .output)
  | "start" => some (.setting .start)
  | "end" => some (.setting .stop)
  | "fill" => some (.setting .fill)
  | "include-path" => some (.setting .includePath)
  | "define" => some (.setting .define)
  | "verbose" => some (.switch .verbose)
  | "warnings-as-errors" => some (.switch .warningsAsErrors)
  | "hex" => some (.switch .hex)
  | "no-output" => some (.switch .noOutput)
  | "version" => some (.switch .version)
  | "help" => some (.switch .help)
  | _ => none

/-- The option with a letter. -/
def ofLetter? : Char → Option CommandOption
  | 'c' => some (.setting .config)
  | 'o' => some (.setting .output)
  | 'I' => some (.setting .includePath)
  | 'D' => some (.setting .define)
  | 'v' => some (.switch .verbose)
  | 'n' => some (.switch .noOutput)
  | 'V' => some (.switch .version)
  | 'h' => some (.switch .help)
  | _ => none

end CommandOption

/-- Why no program is to be assembled. -/
inductive Refusal
  /-- The arguments make no sense. -/
  | usage
  /-- Only the version is asked for. -/
  | version
  /-- Only the usage is asked for. -/
  | help
  deriving DecidableEq, Repr

/-- What the arguments say so far. -/
structure Arguments where
  file : Option String := none
  config : Option String := none
  output : Option String := none
  start : Option Nat := none
  stop : Option Nat := none
  fill : Option Nat := none
  includePaths : List String := []
  defines : List (String × String) := []
  verbosity : Nat := 0
  warningsAsErrors : Bool := false
  hex : Bool := false
  noOutput : Bool := false
  /-- The option whose value is the next argument. -/
  pending : Option Setting := none
  /-- Whether the options are over. -/
  onlyFiles : Bool := false
  deriving Repr

namespace Arguments

/-! ## Values -/

/-- Digits of a base, with or without a plus sign, of a number of 64 bits. -/
def readWord (base : Nat) (cs : List Char) : Option Nat :=
  let digits := if cs.head? == some '+' then cs.tail else cs
  (Text.readNat base digits).filter fun n => n < 2 ^ (64 : Nat)

/-- A number, decimal or after `0x` hexadecimal. -/
def readNumber (s : String) : Option Nat :=
  match s.toList with
  | '0' :: 'x' :: cs | '0' :: 'X' :: cs => readWord 16 cs
  | cs => readWord 10 cs

/-- The name and the value of a definition; the value may be left out. -/
def splitDefine (s : String) : String × String :=
  let cs := s.toList
  let name := cs.takeWhile fun c => c != '='
  let value := cs.drop (name.length + 1)
  (String.ofList (Text.trim name), String.ofList (Text.trim value))

/-- Fill in what may be given once. -/
def once {α : Type} (old : Option α) (new : Option α) : Except Refusal (Option α) :=
  if old.isSome || new.isNone then .error .usage else .ok new

/-- Turn on what may be turned on once. -/
def onceOn (old : Bool) : Except Refusal Bool := if old then .error .usage else .ok true

/-! ## Options -/

/-- Take the value of an option. -/
def set (a : Arguments) (value : String) : Setting → Except Refusal Arguments
  | .config => do return { a with config := ← once a.config (some value) }
  | .output => do return { a with output := ← once a.output (some value) }
  | .start => do return { a with start := ← once a.start (readNumber value) }
  | .stop => do return { a with stop := ← once a.stop (readNumber value) }
  | .fill => do return { a with fill := ← once a.fill (readNumber value) }
  | .includePath => .ok { a with includePaths := a.includePaths ++ [value] }
  | .define => .ok { a with defines := a.defines ++ [splitDefine value] }

/-- Take an option without a value. -/
def turnOn (a : Arguments) : Switch → Except Refusal Arguments
  | .verbose => .ok { a with verbosity := min 255 (a.verbosity + 1) }
  | .warningsAsErrors => do return { a with warningsAsErrors := ← onceOn a.warningsAsErrors }
  | .hex => do return { a with hex := ← onceOn a.hex }
  | .noOutput => do return { a with noOutput := ← onceOn a.noOutput }
  | .version => .error .version
  | .help => .error .help

/-- Take the source file. -/
def setFile (a : Arguments) (path : String) : Except Refusal Arguments := do
  return { a with file := ← once a.file (some path) }

/-- Take an option with a long name, and with a value after an equals sign. -/
def readLong (a : Arguments) (cs : List Char) : Except Refusal Arguments :=
  let name := cs.takeWhile fun c => c != '='
  let value := if name.length < cs.length then some (cs.drop (name.length + 1)) else none
  match CommandOption.ofName? (String.ofList name), value with
  | some (.setting s), some v => a.set (String.ofList v) s
  | some (.setting s), none => .ok { a with pending := some s }
  | some (.switch s), none => a.turnOn s
  | _, _ => .error .usage

/-- Take options with letters. What follows the letter of an option with a value is its value, less
an equals sign. -/
def readLetters (a : Arguments) : List Char → Except Refusal Arguments
  | [] => .ok a
  | c :: cs =>
    match CommandOption.ofLetter? c, cs with
    | some (.setting s), [] => .ok { a with pending := some s }
    | some (.setting s), '=' :: v => a.set (String.ofList v) s
    | some (.setting s), v => a.set (String.ofList v) s
    | some (.switch s), _ => do (← a.turnOn s).readLetters cs
    | none, _ => .error .usage

/-- Take an argument. -/
def readArgument (a : Arguments) (arg : String) : Except Refusal Arguments :=
  if a.onlyFiles then a.setFile arg
  else
    match a.pending, arg.toList with
    | some _, '-' :: _ :: _ => .error .usage
    | some s, _ => { a with pending := none }.set arg s
    | none, ['-', '-'] => .ok { a with onlyFiles := true }
    | none, '-' :: '-' :: cs => a.readLong cs
    | none, '-' :: c :: cs => a.readLetters (c :: cs)
    | none, _ => a.setFile arg

end Arguments

/-- A run that the command line asks for. -/
structure Command where
  /-- The source file. -/
  file : String
  /-- The configuration of the instruction set. -/
  config : Option String
  output : Option String
  /-- Whether the output is Intel HEX. -/
  hex : Bool
  noOutput : Bool
  options : Options

namespace Command

/-- The run that arguments ask for. -/
def ofArguments (args : List String) : Except Refusal Command := do
  let a ← args.foldlM Arguments.readArgument {}
  match a.pending, a.file with
  | none, some file =>
    return { file, config := a.config, output := a.output, hex := a.hex, noOutput := a.noOutput,
             options :=
               { start := a.start, stop := a.stop, fill := a.fill.getD 0,
                 includePaths := a.includePaths, defines := a.defines, verbosity := a.verbosity,
                 noteLevel := a.verbosity, warningsAsErrors := a.warningsAsErrors } }
  | _, _ => .error .usage

/-- The file that the output goes to. -/
def outputPath (c : Command) : String :=
  c.output.getD (WrittenPath.withExtension c.file (if c.hex then "hex" else "bin"))

end Command

end Retarget
