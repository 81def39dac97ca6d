import Retarget.SourceLine

/-!
# Why a line that starts with a number sign fails

Symbols, conditional blocks and the other directives each have their own causes.
-/

namespace Retarget

/-- What can be wrong with symbols and language requirements. -/
inductive SymbolError
  | badName (name : String)
  | repeated (name : String) (first : SourceLine)
  /-- Substitution does not come to an end. -/
  | cycle (text : String)
  | otherLanguage (wanted declared : String)
  | badComparison (text : String)
  | badVersion (text : String)
  | otherVersion (comparison wanted declared : String)
  deriving DecidableEq, Repr

namespace SymbolError

/-- The text of the message. -/
def message : SymbolError → String
  | badName name => s!"invalid preprocessor symbol name \"{name}\""
  | repeated name first =>
    s!"preprocessor symbol {name} is defined multiple times, first at {first.render}"
  | cycle text => s!"preprocessor symbols in \"{text}\" refer to each other in a cycle"
  | otherLanguage wanted declared =>
    s!"language \"{wanted}\" is required but the ISA configuration declares language " ++
      s!"\"{declared}\""
  | badComparison text => s!"language requirement comparison \"{text}\" is not understood"
  | badVersion text => s!"\"{text}\" is not a valid language version"
  | otherVersion comparison wanted declared =>
    s!"language version {comparison} {wanted} is required but the ISA configuration declares " ++
      s!"version {declared}"

end SymbolError

/-- What can be wrong with conditional blocks. -/
inductive ConditionError
  | missingTest
  | needsOperands (text : String)
  /-- Language symbols are compared as they are, not calculated with. -/
  | languageOperators
  | needsSymbol (directive : String)
  | notConditional (directive : String)
  | afterElse
  /-- No block is open. -/
  | unmatched
  | neverClosed
  deriving DecidableEq, Repr

namespace ConditionError

/-- The text of the message. -/
def message : ConditionError → String
  | missingTest => "conditional directive is missing its condition"
  | needsOperands text => s!"comparison \"{text}\" needs two operands"
  | languageOperators =>
    "language symbols like __LANGUAGE_NAME__ and __LANGUAGE_VERSION__ can't be combined with " ++
      "expression operators"
  | needsSymbol directive => s!"#{directive} needs a single symbol name"
  | notConditional directive => s!"#{directive} is not a conditional directive"
  | afterElse => "conditional branch follows an #else"
  | unmatched => "Preprocessor condition has no matching counterpart"
  | neverClosed => "preprocessor condition block is never closed with #endif"

end ConditionError

/-- What can be wrong with the other directives. -/
inductive DirectiveError
  | needsQuoted (directive : String)
  | defineName (name : String)
  | zoneFields
  | scopeName
  | scopeText (text : String)
  | printWord (word : String)
  | unknown (directive : String)
  /-- A directive that asks for an error, with its message. -/
  | requested (text : Option String)
  deriving DecidableEq, Repr

namespace DirectiveError

/-- The text of the message. -/
def message : DirectiveError → String
  | needsQuoted directive => s!"#{directive} expects a single quoted argument"
  | defineName name => s!"#define has an invalid symbol name \"{name}\""
  | zoneFields =>
    "#create_memzone expects a zone name followed by numeric start and end addresses"
  | scopeName => "#create-scope expects a quoted scope name"
  | scopeText text => s!"#create-scope has unexpected text \"{text}\""
  | printWord word => s!"#print does not understand \"{word}\""
  | unknown directive => s!"unknown preprocessor directive \"#{directive}\""
  | requested text => text.getD "#error directive encountered"

end DirectiveError

end Retarget
