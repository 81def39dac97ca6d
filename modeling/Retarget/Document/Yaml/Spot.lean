/-!
# Characters in place

Indentation decides what belongs together in YAML, so the text is read as characters with the line
and the column where they stand. Only a space and a tab are blanks inside a line. There are five
characters that end a line, and `unifyBreaks` leaves three of them.
-/

namespace Retarget.Yaml

/-- A character of a text, and where it stands. -/
structure Spot where
  char : Char
  line : Nat
  column : Nat
  /-- How many bytes there are before it in its line. -/
  offset : Nat
  deriving Repr

/-- The characters that a text may have: no control characters but tab and the line breaks. -/
def isAllowed (c : Char) : Bool :=
  let n := c.toNat
  c == '\t' || c == '\n' || c == '\r' || n == 0x85 || (0x20 ≤ n && n ≤ 0x7E) ||
    (0xA0 ≤ n && n != 0xFFFE && n != 0xFFFF)

/-- Blanks inside a line. -/
def isSpace (c : Char) : Bool := c == ' ' || c == '\t'

/-- Line breaks, after `unifyBreaks`. -/
def isBreak (c : Char) : Bool := c == '\n' || c.toNat == 0x2028 || c.toNat == 0x2029

/-- Blanks and line breaks. -/
def isWhite (c : Char) : Bool := isSpace c || isBreak c

/-- Write the line breaks that mean the same in one way. -/
def unifyBreaks : List Char → List Char
  | [] => []
  | '\r' :: '\n' :: cs => '\n' :: unifyBreaks cs
  | c :: cs => (if c == '\r' || c.toNat == 0x85 then '\n' else c) :: unifyBreaks cs

/-- The spots of a text that starts in a line at a column and an offset. -/
def spotsFrom (line column offset : Nat) : List Char → List Spot
  | [] => []
  | c :: cs =>
    { char := c, line, column, offset } ::
      (if isBreak c then spotsFrom (line + 1) 0 0 cs
      else spotsFrom line (column + 1) (offset + c.utf8Size) cs)

/-- The spots of a text; none if it has a character that is not allowed. -/
def spots? (cs : List Char) : Option (List Spot) :=
  if cs.all isAllowed then some (spotsFrom 0 0 0 (unifyBreaks cs)) else none

/-- Whether there is nothing more, or white space. -/
def startsWhite : List Spot → Bool
  | [] => true
  | s :: _ => isWhite s.char

/-- The character of a document mark: three dashes or three dots at the start of a line, before
white space. -/
def documentMark? : List Spot → Option Char
  | a :: b :: c :: rest =>
    if a.column == 0 && (a.char == '-' || a.char == '.') && b.char == a.char && c.char == a.char &&
        startsWhite rest then
      some a.char
    else none
  | _ => none

/-- How many spots the rest of a line has with its break, if it is blank or a comment. -/
def emptyLine? (spots : List Spot) : Option Nat :=
  let blanks := spots.takeWhile fun s => isSpace s.char
  let rest := spots.drop blanks.length
  let comment :=
    if rest.head?.any fun s => s.char == '#' then rest.takeWhile fun s => !isBreak s.char else []
  match rest.drop comment.length with
  | [] => some (blanks.length + comment.length)
  | s :: _ => if isBreak s.char then some (blanks.length + comment.length + 1) else none

end Retarget.Yaml
