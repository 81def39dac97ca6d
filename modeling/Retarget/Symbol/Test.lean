import Retarget.Expr.Parser
import Retarget.Symbol.Table
import Retarget.Version

/-!
# Tests

Conditional blocks depend on tests such as `A >= 3`. The two sides are compared as numbers if both
are expressions without labels, as versions if both are and one has a dot, and as texts otherwise. A
test without a comparison asks whether its value is different from zero.
-/

namespace Retarget

/-- The comparisons of tests and of language requirements. -/
inductive Comparison
  | eq | ne | gt | ge | lt | le
  deriving DecidableEq, Repr

namespace Comparison

/-- Whether the comparison holds of two things in the given order. -/
def holds : Comparison → Ordering → Bool
  | eq, o => o == .eq
  | ne, o => o != .eq
  | gt, o => o == .gt
  | ge, o => o != .lt
  | lt, o => o == .lt
  | le, o => o != .gt

/-- A comparison in words. -/
def describe : Comparison → String
  | eq => "exactly"
  | ne => "anything but"
  | gt => "greater than"
  | ge => "at least"
  | lt => "less than"
  | le => "up to"

/-- Comparisons of two characters. -/
def ofPair? : Char → Char → Option Comparison
  | '=', '=' => some eq
  | '!', '=' => some ne
  | '<', '=' => some le
  | '>', '=' => some ge
  | _, _ => none

/-- Comparisons of one character. -/
def ofChar? : Char → Option Comparison
  | '<' => some lt
  | '>' => some gt
  | _ => none

end Comparison

/-- Two texts and how they are compared. -/
structure Test where
  left : String
  comparison : Comparison
  right : String
  deriving DecidableEq, Repr

namespace Test

/-- The first comparison outside quotes, with the text before and after it. Shifts are skipped.
`before` is what has been read, last character first. -/
def findComparison (quote : Option Char) (before : List Char) :
    List Char → Option (List Char × Comparison × List Char)
  | [] => none
  | [c] =>
    if quote.isSome then none
    else (Comparison.ofChar? c).map fun op => (before.reverse, op, [])
  | c :: d :: rest =>
    if quote.isSome || Text.isQuote c then
      findComparison (Text.quoteAfter quote c) (c :: before) (d :: rest)
    else if (c == '<' || c == '>') && c == d then findComparison none (d :: c :: before) rest
    else
      match Comparison.ofPair? c d, Comparison.ofChar? c with
      | some op, _ => some (before.reverse, op, rest)
      | none, some op => some (before.reverse, op, d :: rest)
      | none, none => findComparison none (c :: before) (d :: rest)

/-- Read a test. -/
def parse (s : String) : Except ConditionError Test :=
  let text := Text.trim s.toList
  if text.isEmpty then .error .missingTest
  else
    match findComparison none [] text with
    | none => .ok { left := String.ofList text, comparison := .ne, right := "0" }
    | some (before, comparison, after) =>
      let left := Text.trim before
      let right := Text.unquote (Text.trim after)
      if left.isEmpty || right.isEmpty then .error (.needsOperands (String.ofList text))
      else .ok { left := String.ofList left, comparison, right := String.ofList right }

/-- Compare two texts: as versions, as numbers, or as they are. -/
def compareTexts (op : Comparison) (l r : String) : Bool :=
  let l := String.ofList (Text.unquote (Text.trim l.toList))
  let r := String.ofList (Text.unquote (Text.trim r.toList))
  let versions :=
    if l.toList.contains '.' || r.toList.contains '.' then
      (Version.parse l).bind fun v => (Version.parse r).map fun w => op.holds (v.compare w)
    else none
  let numbers :=
    (readLiteral l).bind fun v => (readLiteral r).map fun w => op.holds (compare v w)
  (versions.or numbers).getD (op.holds (compare l r))

/-- Whether a text mentions a language symbol. -/
def mentionsLanguage (s : String) : Bool := Text.occursIn "__LANGUAGE_".toList s.toList

/-- Whether a text has an operator that language symbols do not take. -/
def hasOperator (s : String) : Bool :=
  s.toList.any fun c => c == '&' || c == '|' || c == '^' || c == '(' || c == ')'

/-- Whether a test holds. -/
def holds (t : SymbolTable) (line : SourceLine) (test : Test) : Except Error Bool := do
  let l ← Error.liftAt line (t.resolve test.left)
  let r ← Error.liftAt line (t.resolve test.right)
  if mentionsLanguage test.left || mentionsLanguage test.right then
    if hasOperator test.left || hasOperator test.right then
      Error.failAt line ConditionError.languageOperators
    else
      return compareTexts test.comparison l r
  else
    match Expression.parse l, Expression.parse r with
    | .ok el, .ok er =>
      if el.labels.isEmpty && er.labels.isEmpty then
        let v ← Error.liftAt line (el.eval fun _ => none)
        let w ← Error.liftAt line (er.eval fun _ => none)
        return test.comparison.holds (compare v w)
      else return compareTexts test.comparison l r
    | _, _ => return compareTexts test.comparison l r

end Test

namespace SymbolTable

/-- The text of a symbol, empty if it has none. -/
def textOf (t : SymbolTable) (name : String) : String := ((t.find? name).bind Symbol.value).getD ""

/-- Check that the instruction set is the required language: `name`, or `name`, a comparison and a
version. A requirement without a version yields a note for talkative runs. -/
def requireLanguage (t : SymbolTable) (requirement : String) :
    Except SymbolError (Option String) := do
  let name := t.textOf languageName
  let version := t.textOf languageVersion
  let text := Text.trim requirement.toList
  let isOperator := fun c => c == '=' || c == '<' || c == '>'
  let comparison := Text.trim (text.dropWhile fun c => !isOperator c)
  let language := String.ofList (Text.trim (text.takeWhile fun c => !isOperator c))
  if language != name then
    throw (.otherLanguage language name)
  match comparison with
  | [] => return some s!"Code requires language \"{language}\"; ISA declares {name} v{version}"
  | c :: rest =>
    let (op, shown, wanted) :=
      match rest with
      | '=' :: more => (Comparison.ofPair? c '=', [c, '='], more)
      | _ => (Comparison.ofChar? c, [c], rest)
    match op with
    | none => throw (.badComparison (String.ofList shown))
    | some op =>
      let wantedText := Text.strip (String.ofList wanted)
      match Version.parse wantedText, Version.parse version with
      | none, _ => throw (.badVersion wantedText)
      | _, none => throw (.badVersion version)
      | some w, some h =>
        if op.holds (h.compare w) then return none
        else throw (.otherVersion op.describe wantedText version)

end SymbolTable

end Retarget
