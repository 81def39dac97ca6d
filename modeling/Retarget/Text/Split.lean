import Retarget.Text.Blank

/-!
# Splitting lines

A line is split at the first semicolon outside quotes, and an operand list at the commas outside
quotes and brackets. Both count a quote as closed by the next quote of its kind, whatever stands
before it.
-/

namespace Retarget.Text

/-- The two quote characters. -/
def isQuote (c : Char) : Bool := c == '"' || c == '\''

/-- The open quote after a character, when `open_` was the open quote before it. -/
def quoteAfter (open_ : Option Char) (c : Char) : Option Char :=
  match open_ with
  | some q => if c == q then none else some q
  | none => if isQuote c then some c else none

/-- Characters up to the first semicolon outside quotes, and what follows it. -/
def splitCommentFrom (quote : Option Char) : List Char → List Char × List Char
  | [] => ([], [])
  | c :: cs =>
    if quote.isNone && c == ';' then ([], cs)
    else
      let (code, comment) := splitCommentFrom (quoteAfter quote c) cs
      (c :: code, comment)

/-- The code of a line, and its comment without the blanks around it. -/
def splitComment (cs : List Char) : List Char × List Char :=
  let (code, comment) := splitCommentFrom none cs
  (code, trim comment)

/-- How the depth of brackets, a number of 32 bits, changes with a character. -/
def bracketStep (c : Char) : Int32 :=
  if c == '[' || c == '(' || c == '\x7b' then 1
  else if c == ']' || c == ')' || c == '\x7d' then -1
  else 0

/-- Operands of a list, inside `depth` brackets and perhaps a quote; `current` is the operand that
is being read, last character first. -/
def splitOperandsFrom (quote : Option Char) (depth : Int32) (current : List Char) :
    List Char → List (List Char)
  | [] => [trim current.reverse]
  | c :: cs =>
    if quote.isNone && c == ',' && depth == 0 then
      trim current.reverse :: splitOperandsFrom none 0 [] cs
    else
      let depth := if quote.isNone then depth + bracketStep c else depth
      splitOperandsFrom (quoteAfter quote c) depth (c :: current) cs

/-- The operands of a list, without the blanks around them; a blank list has none. -/
def splitOperands (cs : List Char) : List (List Char) :=
  let cs := trim cs
  if cs.isEmpty then [] else splitOperandsFrom none 0 [] cs

/-- The text before the first blank and the text after it, if there is a blank. -/
def splitWord (cs : List Char) : List Char × Option (List Char) :=
  let word := cs.takeWhile fun c => !isBlank c
  match cs.dropWhile fun c => !isBlank c with
  | [] => (word, none)
  | _ :: rest => (word, some rest)

theorem length_splitWord_lt (c : Char) (cs : List Char) :
    ((splitWord (c :: cs)).2.getD []).length < (c :: cs).length := by
  have h := (List.dropWhile_suffix (fun d => !isBlank d) (l := c :: cs)).length_le
  unfold splitWord
  split
  · simp
  · rename_i heq
    rw [heq] at h
    simp only [List.length_cons] at h
    simp only [Option.getD_some, List.length_cons]
    omega

/-- The text after the first word and the blanks that follow it. -/
def afterWord (cs : List Char) : List Char := trimStart ((splitWord cs).2.getD [])

theorem length_afterWord_lt (c : Char) (cs : List Char) :
    (afterWord (c :: cs)).length < (c :: cs).length :=
  Nat.lt_of_le_of_lt (length_trimStart_le _) (length_splitWord_lt c cs)

/-- A text between two quotes of one kind without them, and any other text as it is. -/
def unquote (cs : List Char) : List Char :=
  match cs with
  | c :: d :: rest =>
    if isQuote c && (d :: rest).getLast? == some c then (d :: rest).dropLast else cs
  | _ => cs

/-- The characters after an opening quote up to the quote that closes it, and what follows. A
character after a backslash closes nothing. `body` is what has been read, last character first. -/
def closeQuote (quote : Char) (body : List Char) : List Char → Option (List Char × List Char)
  | [] => none
  | ['\\'] => none
  | '\\' :: c :: cs => closeQuote quote (c :: '\\' :: body) cs
  | c :: cs => if c == quote then some (body.reverse, cs) else closeQuote quote (c :: body) cs

/-! ## Parts of texts -/

/-- Whether `pattern` occurs in a text. -/
def occursIn (pattern : List Char) : List Char → Bool
  | [] => pattern.isEmpty
  | c :: cs => pattern.isPrefixOf (c :: cs) || occursIn pattern cs

/-- Replace the occurrences of `pattern`, from left to right, after skipping some characters. -/
def replaceFrom (pattern replacement : List Char) (skip : Nat) : List Char → List Char
  | [] => []
  | c :: cs =>
    match skip with
    | n + 1 => replaceFrom pattern replacement n cs
    | 0 =>
      if pattern.isPrefixOf (c :: cs) then
        replacement ++ replaceFrom pattern replacement (pattern.length - 1) cs
      else c :: replaceFrom pattern replacement 0 cs

/-- Replace the occurrences of a pattern that is not empty, from left to right. -/
def replace (pattern replacement cs : List Char) : List Char := replaceFrom pattern replacement 0 cs

end Retarget.Text
