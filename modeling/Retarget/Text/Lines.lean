import Retarget.Text.Blank

/-!
# Lines of a text

Lines end with a line feed, with or without a carriage return before it. The last line need not end.
-/

namespace Retarget.Text

/-- Drop a carriage return at the end. -/
def dropReturn (cs : List Char) : List Char :=
  if cs.getLast? == some '\r' then cs.dropLast else cs

/-- The lines of a text; `current` is the line so far, last character first. -/
def linesFrom (current : List Char) : List Char → List (List Char)
  | [] => if current.isEmpty then [] else [current.reverse]
  | '\n' :: cs => dropReturn current.reverse :: linesFrom [] cs
  | c :: cs => linesFrom (c :: current) cs

/-- The lines of a text. -/
def lines (s : String) : List (List Char) := linesFrom [] s.toList

end Retarget.Text
