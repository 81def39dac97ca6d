import Retarget.Expr.Term
import Retarget.Text.Blank

/-!
# Tokens of expressions

Numbers are written in decimal, `$1F`, `0x1F`, `1FH`, `%0101`, `b0101`, `0b0101` or as a character
constant such as `'a'`. A percent sign starts a binary number only where a value cannot end, and
`LSB(` and `BYTEn(` are single tokens.
-/

namespace Retarget

/-- A token of an expression. -/
inductive Token
  /-- A number, with its text for messages. -/
  | number (text : String) (value : Int)
  | label (name : String)
  | op (operator : BinOp)
  | open
  | close
  /-- `LSB(` -/
  | lsb
  /-- `BYTEn(` -/
  | byte (index : Nat)
  deriving DecidableEq, Repr

/-- Labels start with a letter, or with one `.` or `_` and at least one more name character; two
leading underscores are reserved. -/
def isLabel (cs : List Char) : Bool :=
  match cs with
  | '_' :: '_' :: _ => false
  | c :: rest =>
    if Text.isLetter c then rest.all Text.isNameChar
    else if c == '.' || c == '_' then !rest.isEmpty && rest.all Text.isNameChar
    else false
  | [] => false

namespace Token

/-- How a token is shown in messages. -/
def text : Token → String
  | number text _ => text
  | label name => name
  | op operator => operator.symbol
  | .open => "("
  | close => ")"
  | lsb => "LSB("
  | byte index => s!"BYTE{index}("

/-- Whether a value can end with this token. -/
def endsValue : Token → Bool
  | number .. | label _ | close => true
  | _ => false

/-! ## Numbers -/

/-- The number that `digits` denote in `base`; `text` is the whole spelling. -/
def numeral (text digits : List Char) (base : Nat) : Except ExprError Token :=
  if digits.isEmpty then .error (.missingDigits (String.ofList text))
  else
    match Text.readNat base digits with
    | some n =>
      if Number.fits n then .ok (number (String.ofList text) n)
      else .error (.badNumber (String.ofList text))
    | none => .error (.badNumber (String.ofList text))

/-- A word that starts with a digit: `123`, `0x7F`, `0b101` or `7FH`. -/
def ofDigitWord (word : List Char) : Except ExprError Token :=
  match word with
  | '0' :: 'x' :: hex | '0' :: 'X' :: hex => numeral word hex 16
  | _ =>
    let binary :=
      match word with
      | '0' :: b :: digits =>
        if (b == 'b' || b == 'B') && !digits.isEmpty && digits.all Text.isBinaryDigit then
          some digits
        else none
      | _ => none
    match binary with
    | some digits => numeral word digits 2
    | none =>
      match word.getLast? with
      | some 'h' | some 'H' => numeral word word.dropLast 16
      | _ => numeral word word 10

/-- A word that starts with a letter, `_` or `.`: a binary number such as `b0101`, or a label. -/
def ofNameWord (word : List Char) : Except ExprError Token :=
  match word with
  | c :: digits =>
    if (c == 'b' || c == 'B') && !digits.isEmpty && digits.all Text.isBinaryDigit then
      numeral word digits 2
    else if isLabel word then .ok (label (String.ofList word))
    else .error (.badLabel (String.ofList word))
  | [] => .error (.badLabel "")

/-- The token of a word that is directly followed by an opening parenthesis. -/
def ofCall (word : List Char) : Option Token :=
  match word with
  | ['L', 'S', 'B'] => some lsb
  | ['B', 'Y', 'T', 'E', d] => (Text.digitIn 10 d).map byte
  | _ => none

/-- The character that an escape in a character constant denotes. -/
def escaped : Char → Char
  | 'n' => '\n'
  | 'r' => '\r'
  | 't' => '\t'
  | '0' => Char.ofNat 0
  | c => c

/-- The character constant `c`, of which the closing quote is left to read. -/
def closeChar (c : Char) : List Char → Except ExprError (Token × List Char)
  | '\'' :: rest => .ok (number (String.ofList ['\'', c, '\'']) c.toNat, rest)
  | _ => .error .unclosedChar

/-- The rest of a character constant, after its opening quote. -/
def readChar : List Char → Except ExprError (Token × List Char)
  | [] | ['\\'] => .error .unterminatedChar
  | '\\' :: c :: rest => closeChar (escaped c) rest
  | c :: rest => closeChar c rest

/-- Operators and parentheses of one character. -/
def ofSymbol : Char → Option Token
  | '+' => some (op .add)
  | '-' => some (op .sub)
  | '*' => some (op .mul)
  | '/' => some (op .div)
  | '&' => some (op .and)
  | '|' => some (op .or)
  | '^' => some (op .xor)
  | '(' => some .open
  | ')' => some close
  | _ => none

/-- The token that starts with `c`, which is not blank, and the text after it. `afterValue` tells
whether a value ends just before. -/
def next (afterValue : Bool) (c : Char) (cs : List Char) : Except ExprError (Token × List Char) :=
  if c == '$' then do
    let digits := cs.takeWhile Text.isHexDigit
    let t ← numeral ('$' :: digits) digits 16
    .ok (t, cs.dropWhile Text.isHexDigit)
  else if c == '%' then do
    let digits := cs.takeWhile Text.isBinaryDigit
    if afterValue || digits.isEmpty then .ok (op .mod, cs)
    else
      let t ← numeral ('%' :: digits) digits 2
      .ok (t, cs.dropWhile Text.isBinaryDigit)
  else if c == '\'' then readChar cs
  else if Text.isDigit c then do
    let t ← ofDigitWord (c :: cs.takeWhile Text.isNameChar)
    .ok (t, cs.dropWhile Text.isNameChar)
  else if Text.isLetter c || c == '_' || c == '.' then
    let word := c :: cs.takeWhile Text.isNameChar
    let rest := cs.dropWhile Text.isNameChar
    let call :=
      match rest with
      | '(' :: inside => (ofCall word).map fun t => (t, inside)
      | _ => none
    match call with
    | some found => .ok found
    | none => do
      let t ← ofNameWord word
      .ok (t, rest)
  else if c == '<' || c == '>' then
    match cs with
    | d :: rest =>
      if d == c then .ok (op (if c == '<' then .shl else .shr), rest)
      else .error (.unexpectedChar c)
    | [] => .error (.unexpectedChar c)
  else
    match ofSymbol c with
    | some t => .ok (t, cs)
    | none => .error (.unexpectedChar c)

/-! ## Texts -/

private theorem length_dropWhile_le {α : Type} (p : α → Bool) (l : List α) :
    (l.dropWhile p).length ≤ l.length :=
  (List.dropWhile_suffix p).length_le

private theorem length_closeChar {c : Char} {cs rest : List Char} {t : Token}
    (h : closeChar c cs = .ok (t, rest)) : rest.length ≤ cs.length := by
  unfold closeChar at h
  split at h
  · cases h; simp
  · cases h

private theorem length_readChar {cs rest : List Char} {t : Token}
    (h : readChar cs = .ok (t, rest)) : rest.length ≤ cs.length := by
  unfold readChar at h
  split at h
  · cases h
  · cases h
  · have := length_closeChar h
    simp; omega
  · have := length_closeChar h
    simp; omega

/-- A token takes at least its first character. -/
theorem length_next {afterValue : Bool} {c : Char} {cs rest : List Char} {t : Token}
    (h : next afterValue c cs = .ok (t, rest)) : rest.length ≤ cs.length := by
  unfold next at h
  split at h
  · simp only [bind, Except.bind] at h
    split at h <;> cases h
    exact length_dropWhile_le _ _
  split at h
  · simp only [bind, Except.bind] at h
    split at h
    · cases h; exact Nat.le_refl _
    · split at h <;> cases h
      exact length_dropWhile_le _ _
  split at h
  · exact length_readChar h
  split at h
  · simp only [bind, Except.bind] at h
    split at h <;> cases h
    exact length_dropWhile_le _ _
  split at h
  · have hd := length_dropWhile_le Text.isNameChar cs
    simp only [bind, Except.bind] at h
    split at h
    · rename_i found hf
      cases h
      split at hf
      · rename_i inside hr
        simp only [Option.map_eq_some_iff] at hf
        obtain ⟨_, _, hf⟩ := hf
        cases hf
        rw [hr] at hd
        simp at hd
        omega
      · cases hf
    · split at h <;> cases h
      exact hd
  split at h
  · split at h
    · split at h
      · cases h; simp
      · cases h
    · cases h
  · split at h
    · cases h; exact Nat.le_refl _
    · cases h

/-- The tokens of a text; `afterValue` tells whether a value ends just before it. -/
def scanFrom (afterValue : Bool) (cs : List Char) : Except ExprError (List Token) :=
  match cs with
  | [] => .ok []
  | c :: rest =>
    if Text.isBlank c then scanFrom afterValue rest
    else
      match _ : next afterValue c rest with
      | .error e => .error e
      | .ok (t, more) =>
        match scanFrom t.endsValue more with
        | .error e => .error e
        | .ok ts => .ok (t :: ts)
termination_by cs.length
decreasing_by
  · simp
  · have := length_next ‹next afterValue c rest = .ok (t, more)›
    simp
    omega

/-- The tokens of a text. -/
def scan (cs : List Char) : Except ExprError (List Token) := scanFrom false cs

end Token

end Retarget
