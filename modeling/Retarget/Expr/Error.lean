/-!
# Why an expression has no value

The first group is about the text of an expression, the second about its evaluation.
-/

namespace Retarget

/-- What can be wrong with an expression. -/
inductive ExprError
  /-- A number without a digit. -/
  | missingDigits (text : String)
  /-- A number with a wrong digit, or beyond the range. -/
  | badNumber (text : String)
  /-- A word that is no label. -/
  | badLabel (text : String)
  | unexpectedChar (c : Char)
  /-- The text ends inside a character constant. -/
  | unterminatedChar
  /-- A character constant with more than one character. -/
  | unclosedChar
  | unclosedParen
  /-- Something else stands where a value should. -/
  | valueExpected (found : String)
  /-- The text ends where a value should stand. -/
  | valueMissing
  /-- Something follows a whole expression. -/
  | trailing (found text : String)
  | unknownLabel (name : String)
  | overflow (operator : String)
  | divisionByZero
  deriving DecidableEq, Repr

namespace ExprError

/-- The text of the message. -/
def message : ExprError → String
  | missingDigits text => s!"missing digits in numeric constant \"{text}\""
  | badNumber text => s!"invalid numeric constant \"{text}\""
  | badLabel text => s!"invalid label \"{text}\""
  | unexpectedChar c => s!"unexpected character '{c}'"
  | unterminatedChar => "unterminated character constant"
  | unclosedChar => "character constant missing closing quote"
  | unclosedParen => "missing closing parenthesis"
  | valueExpected found => s!"unexpected \"{found}\" where a value was expected"
  | valueMissing => "missing label or value"
  | trailing found text => s!"unexpected \"{found}\" in expression \"{text}\""
  | unknownLabel name => s!"unknown label \"{name}\""
  | overflow operator => s!"arithmetic overflow in \"{operator}\""
  | divisionByZero => "division by zero"

end ExprError

end Retarget
