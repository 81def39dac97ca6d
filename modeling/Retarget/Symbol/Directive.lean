import Retarget.Scope.Named
import Retarget.Symbol.Condition
import Retarget.Text.Escape
import Retarget.Text.Lower

/-!
# Directives

Lines that start with a number sign. Reading a directive changes nothing; what it does is decided
where the file is loaded.
-/

namespace Retarget

/-- Colours of printed messages. -/
inductive Color
  | black | red | green | yellow | blue | magenta | cyan | white
  deriving DecidableEq, Repr

namespace Color

/-- The colour with a name. -/
def ofName? : String → Option Color
  | "black" => some black
  | "red" => some red
  | "green" => some green
  | "yellow" => some yellow
  | "blue" => some blue
  | "magenta" => some magenta
  | "cyan" => some cyan
  | "white" => some white
  | _ => none

/-- The code of a colour on a terminal. -/
def code : Color → Nat
  | black => 30
  | red => 31
  | green => 32
  | yellow => 33
  | blue => 34
  | magenta => 35
  | cyan => 36
  | white => 37

/-- A text in a colour. -/
def paint (c : Color) (text : String) : String := s!"\x1b[{c.code}m{text}\x1b[0m"

end Color

/-- A line that starts with a number sign. -/
inductive Directive
  | includeFile (name : String)
  | define (name : String) (value : Option String)
  | condition (condition : Condition)
  | mute
  | unmute
  | raise (text : Option String)
  | print (level : Nat) (color : Option Color) (text : String)
  | require (requirement : String)
  | createZone (name : String) (first last : Int)
  | createScope (name lead : String)
  | useScope (name : String)
  | deactivateScope (name : String)
  deriving DecidableEq, Repr

namespace Directive

/-- A quoted text at the start, decoded, and what follows it. -/
def takeQuoted (cs : List Char) : Option (String × List Char) :=
  match Text.trimStart cs with
  | c :: rest =>
    if Text.isQuote c then
      (Text.closeQuote c [] rest).map fun (body, tail) =>
        (String.ofList (Text.unescapeChars body), tail)
    else none
  | [] => none

/-- Exactly one quoted text. -/
def onlyQuoted (word : String) (rest : List Char) : Except DirectiveError String :=
  match takeQuoted rest with
  | some (body, tail) =>
    if (Text.trim tail).isEmpty then .ok body else .error (.needsQuoted word)
  | none => .error (.needsQuoted word)

/-- A number below 256, with an optional plus sign. -/
def readLevel (cs : List Char) : Option Nat :=
  let digits :=
    match cs with
    | '+' :: rest => rest
    | _ => cs
  (Text.readNat 10 digits).filter (· < 256)

/-- The level and the colour of a message after a word of a printing directive. -/
def printWord (level : Nat) (color : Option Color) (word : List Char) :
    Except DirectiveError (Nat × Option Color) :=
  match readLevel word with
  | some n => .ok (n, color)
  | none =>
    match Color.ofName? (Text.lower (String.ofList word)) with
    | some chosen => .ok (level, some chosen)
    | none => .error (.printWord (String.ofList word))

/-- The level and colour words of a printing directive, and its quoted message. -/
def parsePrint (level : Nat) (color : Option Color) (cs : List Char) :
    Except DirectiveError Directive :=
  match cs with
  | [] => .error (.needsQuoted "print")
  | c :: rest =>
    if Text.isQuote c then (onlyQuoted "print" (c :: rest)).map (print level color)
    else
      match printWord level color (Text.splitWord (c :: rest)).1 with
      | .error e => .error e
      | .ok (level, color) => parsePrint level color (Text.afterWord (c :: rest))
termination_by cs.length
decreasing_by exact Text.length_afterWord_lt c rest

/-- The lead that follows the name of a scope. -/
def parseLead (tail : List Char) : Option String :=
  let keyword := "prefix".toList
  if keyword.isPrefixOf tail then
    match Text.trimStart (tail.drop keyword.length) with
    | '=' :: rest =>
      match takeQuoted rest with
      | some (lead, after) => if (Text.trim after).isEmpty then some lead else none
      | none => none
    | _ => none
  else none

/-- A directive from its word and what follows it. -/
def parseWord (word : String) (rest : List Char) : Except DirectiveError Directive :=
  match word with
  | "include" => (onlyQuoted word rest).map includeFile
  | "define" =>
    let (name, value) := Text.splitWord rest
    let name := String.ofList name
    let value := (value.map Text.trim).filter fun v => !v.isEmpty
    if isSymbolName name then .ok (define name (value.map String.ofList))
    else .error (.defineName name)
  | "mute" => if rest.isEmpty then .ok mute else .error (.unknown word)
  | "unmute" | "emit" => if rest.isEmpty then .ok unmute else .error (.unknown word)
  | "error" =>
    if rest.isEmpty then .ok (raise none) else (onlyQuoted word rest).map fun s => raise (some s)
  | "print" => parsePrint 0 none (Text.trimStart rest)
  | "require" => (onlyQuoted word rest).map require
  | "create_memzone" =>
    match Text.words rest with
    | [name, first, last] =>
      match readLiteral (String.ofList first), readLiteral (String.ofList last) with
      | some f, some l => .ok (createZone (String.ofList name) f l)
      | _, _ => .error .zoneFields
    | _ => .error .zoneFields
  | "create-scope" =>
    match takeQuoted rest with
    | none => .error .scopeName
    | some (name, tail) =>
      let tail := Text.trim tail
      if tail.isEmpty then .ok (createScope name NamedScope.defaultLead)
      else
        match parseLead tail with
        | some lead => .ok (createScope name lead)
        | none => .error (.scopeText (String.ofList tail))
  | "use-scope" => (onlyQuoted word rest).map useScope
  | "deactivate-scope" => (onlyQuoted word rest).map deactivateScope
  | _ => .error (.unknown word)

/-- Read a directive; the text starts at the number sign. -/
def parse (s : String) (line : SourceLine) : Except Error Directive :=
  let body := (Text.trim s.toList).dropWhile fun c => c == '#'
  let (word, rest) := Text.splitWord body
  let word := String.ofList word
  let rest := Text.trim (rest.getD [])
  if Condition.isWord word then
    (Error.liftAt line (Condition.parse word (String.ofList rest))).map condition
  else Error.liftAt line (parseWord word rest)

end Directive

end Retarget
