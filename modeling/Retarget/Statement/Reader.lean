import Retarget.Isa.Encode
import Retarget.Statement.Data
import Retarget.Text.WordChar

/-!
# Reading source lines

A line is split at its comment, its symbols are replaced, and what is left is read statement by
statement. Constants and directives take up the rest of the line; an instruction ends where the next
mnemonic starts.
-/

namespace Retarget

/-- Where in a program a line stands. -/
structure Position where
  zone : ZoneId
  scope : ScopeId
  active : ActiveScopes
  compilable : Bool
  muted : Bool
  deriving Repr

/-- What reading a line depends on. -/
structure Reader where
  env : Environment
  symbols : SymbolTable
  position : Position
  line : SourceLine

namespace Reader

/-- Refuse a name that no label may have. -/
def checkLabel (r : Reader) (name : List Char) : Except Error Unit :=
  if !isLabel name then Error.failAt r.line (StatementError.badLabel (String.ofList name))
  else if r.env.isa.registers.contains (String.ofList name) then
    Error.failAt r.line (StatementError.registerLabel (String.ofList name))
  else .ok ()

/-- Read an expression. -/
def expression (r : Reader) (cs : List Char) : Except Error Expression :=
  Error.liftAt r.line (Expression.parse (String.ofList cs))

/-! ## Shapes of statements -/

/-- A name at the start of a text, with an optional dot, and what follows it. -/
def splitName (cs : List Char) : Option (List Char × List Char) :=
  let (dot, rest) :=
    match cs with
    | '.' :: more => (['.'], more)
    | _ => ([], cs)
  let word := rest.takeWhile Text.isWordChar
  if word.isEmpty then none else some (dot ++ word, rest.drop word.length)

/-- The name of a label at the start of a text: what the pattern `^(\.?\w+):` finds. Here and below,
`\w` is `Text.isWordChar` and `\s` is `Text.isBlank`. -/
def labelName? (cs : List Char) : Option (List Char) :=
  match splitName cs with
  | some (name, ':' :: _) => some name
  | _ => none

/-- What follows the word `equ` and the blanks around it, in any letter case. -/
def afterEqu (cs : List Char) : Option (List Char) :=
  match cs with
  | b :: _ =>
    match Text.trimStart cs with
    | e :: q :: u :: c :: rest =>
      if Text.isBlank b && Text.isBlank c &&
          Text.equalIgnoringCase (String.ofList [e, q, u]) "equ" then
        some (Text.trimStart (c :: rest))
      else none
    | _ => none
  | [] => none

/-- The name and the value of a constant: what `(?i)^(\.?\w+)(?:\s*=\s*|\s+equ\s+)(.+)$` finds,
where a dot is any character but a line feed. -/
def constantParts? (cs : List Char) : Option (List Char × List Char) :=
  match splitName cs with
  | none => none
  | some (name, rest) =>
    let value :=
      match Text.trimStart rest with
      | '=' :: more => some (Text.trimStart more)
      | _ => afterEqu rest
    match value with
    | some v => if v.isEmpty || v.contains '\n' then none else some (name, v)
    | none => none

/-- The name of a directive in lower case, and its arguments without the blanks around them: what
`^\.(\w+)(?:\s+(.*))?$` finds. -/
def directiveParts? (cs : List Char) : Option (String × List Char) :=
  match cs with
  | '.' :: rest =>
    let name := rest.takeWhile Text.isWordChar
    let after := rest.drop name.length
    let args := Text.trim after
    if name.isEmpty || !(after.isEmpty || after.head?.any Text.isBlank) ||
      args.contains '\n' then none
    else some (Text.lower (String.ofList name), args)
  | _ => none

/-! ## Directives -/

/-- Exactly `count` arguments, none of them empty. -/
def arguments (r : Reader) (name : String) (count : Nat) (args : List Char) :
    Except Error (List (List Char)) :=
  let parts := Text.splitOperands args
  if parts.length != count || parts.any List.isEmpty then
    Error.failAt r.line (StatementError.argumentCount name count)
  else .ok parts

/-- Refuse an unknown zone. -/
def checkZone (r : Reader) (name : String) : Except Error Unit :=
  if (r.env.zones.find? name).isSome then .ok ()
  else Error.failAt r.line (StatementError.unknownZone name)

/-- Split a text at its last quote. -/
def splitLastQuote (cs : List Char) : Option (List Char × List Char) :=
  let after := (cs.reverse.takeWhile fun c => c != '"').reverse
  if after.length < cs.length then some (cs.take (cs.length - after.length - 1), after) else none

/-- The address of an origin and the zone in quotes after it. -/
def originParts (args : List Char) : List Char × Option String :=
  match args.getLast? with
  | some '"' =>
    match splitLastQuote args.dropLast with
    | some (address, zone) => (Text.trim address, some (String.ofList zone))
    | none => (args, none)
  | _ => (args, none)

/-- Drop quotes at both ends. -/
def trimQuotes (cs : List Char) : List Char :=
  let isMark (c : Char) : Bool := c == '"'
  ((cs.dropWhile isMark).reverse.dropWhile isMark).reverse

/-- Read an origin. -/
def readOrigin (r : Reader) (args : List Char) : Except Error Statement := do
  let (address, zone) := originParts args
  if address.isEmpty then
    Error.failAt r.line StatementError.noOrigin
  if let some name := zone then
    r.checkZone name
  return .org (← r.expression address) zone

/-- Read the choice of a zone. -/
def readZone (r : Reader) (args : List Char) : Except Error Statement := do
  let name := String.ofList (trimQuotes args)
  if name.isEmpty then
    Error.failAt r.line StatementError.noZoneName
  r.checkZone name
  return .setZone name

/-- Read a directive. -/
def readDirective (r : Reader) (cs : List Char) : Except Error Statement := do
  let zero := Expression.literal 0
  match directiveParts? cs with
  | none => Error.failAt r.line (StatementError.malformedDirective (String.ofList cs))
  | some (name, args) =>
    match name with
    | "org" => r.readOrigin args
    | "memzone" => r.readZone args
    | "fill" =>
      match ← r.arguments name 2 args with
      | [count, value] => return .fill (← r.expression count) (← r.expression value)
      | _ => Error.failAt r.line (StatementError.argumentCount name 2)
    | "zero" =>
      match ← r.arguments name 1 args with
      | [count] => return .fill (← r.expression count) zero
      | _ => Error.failAt r.line (StatementError.argumentCount name 1)
    | "zerountil" =>
      match ← r.arguments name 1 args with
      | [target] => return .fillUntil (← r.expression target) zero
      | _ => Error.failAt r.line (StatementError.argumentCount name 1)
    | "align" => if args.isEmpty then return .align none else return .align (← r.expression args)
    | _ =>
      match DataLine.valueBytes? name with
      | some bytes => return .data (← DataLine.read r.env.isa name bytes args r.line)
      | none => Error.failAt r.line (StatementError.unknownDirective name)

/-! ## Instructions -/

/-- Characters of the words that may be mnemonics. -/
def isMnemonicChar (c : Char) : Bool := Text.isNameChar c || c == '.'

/-- Whether an operand may end with a character. -/
def endsOperand (c : Char) : Bool :=
  Text.isNameChar c || c == ']' || c == ')' || c == '"' || c == '\''

/-- How far an instruction goes after its mnemonic: up to the next word that is a mnemonic and
follows a complete operand, outside brackets and quotes. `last` is the last character that is no
blank, and `spaced` says whether blanks follow it. -/
def operandsLength (isa : Isa) (quote : Option Char) (depth : Int32) (last : Char) (spaced : Bool) :
    List Char → Nat
  | [] => 0
  | c :: cs =>
    if quote.isSome then
      operandsLength isa (Text.quoteAfter quote c) depth c spaced cs + 1
    else
      let depth := depth + Text.bracketStep c
      let word := (c :: cs).takeWhile isMnemonicChar
      if Text.isBlank c then operandsLength isa none depth last true cs + 1
      else if spaced && depth == 0 && endsOperand last && isMnemonicChar c &&
          isa.instructions.contains (String.ofList word) then 0
      else operandsLength isa (Text.quoteAfter none c) depth c false cs + 1

/-- Read an instruction, and count its characters. -/
def readInstruction (r : Reader) (cs : List Char) : Except Error (List Char × Statement × Nat) := do
  let isa := r.env.isa
  let word := cs.takeWhile isMnemonicChar
  if word.isEmpty || !isa.instructions.contains (String.ofList word) then
    Error.failAt r.line (StatementError.unknownInstruction (String.ofList cs))
  let length := word.length + operandsLength isa none 0 'x' false (cs.drop word.length)
  let text := Text.trim (cs.take length)
  return (text, .instruction (← isa.encode r.env.zones r.line text), length)

/-! ## Lines -/

/-- Read the statement at the start of a text that is not empty: its text, what it is, and how many
characters it takes. -/
def readStatement (r : Reader) (cs : List Char) : Except Error (List Char × Statement × Nat) := do
  match labelName? cs with
  | some name =>
    r.checkLabel name
    return (name ++ [':'], .label (String.ofList name), name.length + 1)
  | none =>
    match constantParts? cs with
    | some (name, value) =>
      r.checkLabel name
      let e ← r.expression value
      let v ← Error.liftAt r.line (e.eval (r.env.labels r.position.scope r.position.active))
      return (cs, .constant (String.ofList name) v, cs.length)
    | none =>
      if cs.head? == some '.' then
        return (cs, ← r.readDirective cs, cs.length)
      else if cs.head? == some '"' && r.env.isa.embeddedStrings then
        match Text.closeQuote '"' [] (cs.drop 1) with
        | none => Error.failAt r.line (StatementError.unterminatedString (String.ofList cs))
        | some (body, _) =>
          let length := body.length + 2
          let text := cs.take length
          match DataLine.ofText? r.env.isa text with
          | none => Error.failAt r.line (StatementError.notQuoted (String.ofList text))
          | some d => return (text, .data d, length)
      else r.readInstruction cs

/-- Read the statements of a text that starts with no blank. -/
def readStatements (r : Reader) (cs : List Char) : Except Error (List (List Char × Statement)) := do
  match cs with
  | [] => return []
  | c :: rest =>
    let (text, statement, length) ← r.readStatement (c :: rest)
    return (text, statement) :: (← r.readStatements (Text.trimStart (rest.drop (length - 1))))
termination_by cs.length
decreasing_by
  have := Text.length_trimStart_le (rest.drop (length - 1))
  simp only [List.length_drop, List.length_cons] at *
  omega

/-- The item of a statement. -/
def item (r : Reader) (comment text : String) (statement : Statement) : Item :=
  { line := r.line, text, comment, zone := r.position.zone, scope := r.position.scope,
    active := r.position.active, compilable := r.position.compilable, muted := r.position.muted,
    statement }

/-- Read a source line. -/
def readLine (r : Reader) (cs : List Char) : Except Error (List Item) := do
  let (code, comment) := Text.splitComment cs
  let code ← Error.liftAt r.line (r.symbols.resolve (String.ofList code))
  let code := Text.trim code.toList
  let comment := String.ofList comment
  match ← r.readStatements code with
  | [] => return [r.item comment (String.ofList code) .plain]
  | statements => return statements.map fun (text, s) => r.item comment (String.ofList text) s

end Reader

end Retarget
