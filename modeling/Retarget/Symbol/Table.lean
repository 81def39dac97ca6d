import Retarget.Error
import Retarget.Text.Digits
import Retarget.Text.Split

/-!
# Symbols

A symbol is a name with an optional text. Before a statement is read, every symbol in it that has a
text is replaced by that text, again and again until nothing changes. Quoted text and words that
start with a digit are left alone.
-/

namespace Retarget

/-- A defined symbol. -/
structure Symbol where
  name : String
  value : Option String
  line : SourceLine
  deriving DecidableEq, Repr

/-- Symbol names consist of name characters and do not start with a digit. -/
def isSymbolName (name : String) : Bool :=
  match name.toList with
  | [] => false
  | c :: cs => (Text.isLetter c || c == '_') && cs.all Text.isNameChar

/-- All symbols, each name once. -/
abbrev SymbolTable := List Symbol

namespace SymbolTable

/-- The symbol with a name. -/
def find? (t : SymbolTable) (name : String) : Option Symbol :=
  List.find? (fun s => s.name == name) t

/-- Whether a symbol is defined, with or without a text. -/
def defines (t : SymbolTable) (name : String) : Bool := (t.find? name).isSome

/-- Define a symbol. -/
def define (t : SymbolTable) (name : String) (value : Option String) (line : SourceLine) :
    Except SymbolError SymbolTable :=
  if !isSymbolName name then .error (.badName name)
  else
    match t.find? name with
    | some s => .error (.repeated name s.line)
    | none => .ok (t ++ [{ name, value, line }])

/-! ## Substitution -/

/-- What a word is replaced by; none if it stays. -/
def replacement (t : SymbolTable) (word : List Char) : Option (List Char) :=
  let name := String.ofList word
  if isSymbolName name then
    ((t.find? name).bind Symbol.value).bind fun v => if v == name then none else some v.toList
  else none

/-- Replace the words of a text once, and tell whether any was replaced. -/
def substitute (t : SymbolTable) (quote : Option Char) (cs : List Char) : List Char × Bool :=
  match cs with
  | [] => ([], false)
  | c :: rest =>
    if quote.isNone && Text.isNameChar c then
      let word := c :: rest.takeWhile Text.isNameChar
      let (out, changed) := t.substitute none (rest.dropWhile Text.isNameChar)
      match t.replacement word with
      | some v => (v ++ out, true)
      | none => (word ++ out, changed)
    else
      let (out, changed) := t.substitute (Text.quoteAfter quote c) rest
      (c :: out, changed)
termination_by cs.length
decreasing_by
  · have := (List.dropWhile_suffix Text.isNameChar (l := rest)).length_le
    simp
    omega
  · simp

/-- Replace until nothing changes, at most `passes` times; none if that is not enough. -/
def settle (t : SymbolTable) : Nat → List Char → Option (List Char)
  | 0, _ => none
  | passes + 1, cs =>
    let (out, changed) := t.substitute none cs
    if changed then t.settle passes out else some out

/-- How often words are replaced before symbols are taken to refer to each other. -/
def maxPasses : Nat := 32

/-- Replace all symbols of a text. -/
def resolve (t : SymbolTable) (text : String) : Except SymbolError String :=
  match t.settle maxPasses text.toList with
  | some out => .ok (String.ofList out)
  | none => .error (.cycle (Text.strip text))

end SymbolTable

/-! ## The language symbols -/

/-- Symbol for the name of the instruction set. -/
def languageName : String := "__LANGUAGE_NAME__"

/-- Symbol for the version of the instruction set. -/
def languageVersion : String := "__LANGUAGE_VERSION__"

end Retarget
