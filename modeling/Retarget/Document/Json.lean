import Retarget.Document.Decimal
import Retarget.Document.Nesting
import Retarget.Text.Digits

/-!
# Documents in JSON

The text is cut into tokens, and the tokens are read into a tree.
-/

namespace Retarget.Json

/-- The tokens of JSON. -/
inductive Token
  | openList
  | closeList
  | openMap
  | closeMap
  | colon
  | comma
  | string (d : Document)
  /-- A number or a word. -/
  | scalar (d : Document)
  deriving Repr

/-! ## Strings -/

/-- The character of a short escape. -/
def escape? : Char → Option Char
  | '"' => some '"'
  | '\\' => some '\\'
  | '/' => some '/'
  | 'b' => some (Char.ofNat 8)
  | 'f' => some (Char.ofNat 12)
  | 'n' => some '\n'
  | 'r' => some '\r'
  | 't' => some '\t'
  | _ => none

/-- Whether a unit is the first half of a pair. -/
def isHighHalf (n : Nat) : Bool := 0xD800 ≤ n && n ≤ 0xDBFF

/-- Whether a unit is the second half of a pair. -/
def isLowHalf (n : Nat) : Bool := 0xDC00 ≤ n && n ≤ 0xDFFF

/-- The character of a pair of halves. -/
def joinHalves (high low : Nat) : Char :=
  Char.ofNat (0x10000 + (high - 0xD800) * 0x400 + (low - 0xDC00))

/-- Read a string after its opening quote, and count the characters up to the closing quote and with
it. `body` is what has been read, last character first; it is `none` once half a pair stood
alone. -/
def readString (body : Option (List Char)) (count : Nat) : List Char → Option (Document × Nat)
  | [] => none
  | '"' :: _ =>
    match body with
    | some cs => some (.text (String.ofList cs.reverse), count + 1)
    | none => some (.unreadable, count + 1)
  | '\\' :: 'u' :: a :: b :: c :: d :: '\\' :: 'u' :: e :: f :: g :: h :: rest => do
    let high ← Text.readNat 16 [a, b, c, d]
    let low := (Text.readNat 16 [e, f, g, h]).getD 0
    if isHighHalf high && isLowHalf low then
      readString (body.map fun cs => joinHalves high low :: cs) (count + 12) rest
    else if isHighHalf high || isLowHalf high then
      readString none (count + 6) ('\\' :: 'u' :: e :: f :: g :: h :: rest)
    else
      readString (body.map fun cs => Char.ofNat high :: cs) (count + 6)
        ('\\' :: 'u' :: e :: f :: g :: h :: rest)
  | '\\' :: 'u' :: a :: b :: c :: d :: rest => do
    let n ← Text.readNat 16 [a, b, c, d]
    let body := if isHighHalf n || isLowHalf n then none else body
    readString (body.map fun cs => Char.ofNat n :: cs) (count + 6) rest
  | '\\' :: c :: rest => do
    let e ← escape? c
    readString (body.map fun cs => e :: cs) (count + 2) rest
  | c :: rest =>
    if c == '\\' || c.toNat < 0x20 then none
    else readString (body.map fun cs => c :: cs) (count + 1) rest

/-! ## Numbers -/

/-- Append digits to a number as long as it stays below `2 ^ 64`, and give the digits left over. -/
def absorb (significand : Nat) : List Char → Nat × List Char
  | [] => (significand, [])
  | c :: cs =>
    let next := significand * 10 + (c.toNat - '0'.toNat)
    if next < 2 ^ (64 : Nat) then absorb next cs else (significand, c :: cs)

/-- A power of ten as a double. -/
def tenTo (n : Nat) : Float := Float.ofScientific 1 false n

/-- Multiply by a power of ten, in steps of `10 ^ 308` when dividing; none if the result is too
large. -/
def scale (f : Float) (e : Int) : Nat → Option Float
  | 0 => some f
  | steps + 1 =>
    if e < -308 then
      if f == 0.0 then some f else scale (f / tenTo 308) (e + 308) steps
    else if e < 0 then some (f / tenTo (-e).toNat)
    else if e ≤ 308 then
      let product := f * tenTo e.toNat
      if product.isInf then none else some product
    else if f == 0.0 then some f
    else none

/-- A number with a fraction or an exponent, or with too many digits. -/
def ofParts (negative : Bool) (significand : Nat) (e : Int) : Document :=
  match scale (Float.ofNat significand) e 8 with
  | some f => .decimal (Decimal.text (if negative then -f else f))
  | none => .unreadable

/-- The parts of a number in its text. -/
structure Numeral where
  negative : Bool
  whole : List Char
  /-- The digits after the point, empty without a point. -/
  places : List Char
  /-- Sign and digits after the mark of the exponent. -/
  exponent : Option (Bool × List Char)
  deriving Repr

/-- The value of a number. -/
def Numeral.value (n : Numeral) : Document :=
  let (w, wholeRest) := absorb 0 n.whole
  let isInteger := n.places.isEmpty && n.exponent.isNone && wholeRest.isEmpty
  if isInteger && !n.negative then .integer w
  else if isInteger && 0 < w && w ≤ 2 ^ (63 : Nat) then .integer (-(w : Int))
  else
    let (s, placesRest) := absorb w n.places
    let e : Int := wholeRest.length - (n.places.length - placesRest.length : Nat)
    match n.exponent with
    | none => ofParts n.negative s e
    | some (minus, digits) =>
      let x : Int := (Text.readNat 10 digits).getD 0
      if x < 2 ^ (31 : Nat) then ofParts n.negative s (if minus then e - x else e + x)
      else if s != 0 && !minus then .unreadable
      else ofParts n.negative 0 0

/-- The digits at the start of a text. -/
def digitsOf (cs : List Char) : List Char := cs.takeWhile Text.isDigit

/-- The point and the digits after it. -/
def readPlaces (cs : List Char) : Option (List Char × List Char) :=
  match cs with
  | '.' :: rest =>
    let digits := digitsOf rest
    if digits.isEmpty then none else some (digits, rest.drop digits.length)
  | _ => some ([], cs)

/-- The mark of an exponent with its sign and digits. -/
def readExponent (cs : List Char) : Option (Option (Bool × List Char) × List Char) :=
  match cs with
  | c :: rest =>
    if c == 'e' || c == 'E' then
      let (minus, rest) :=
        match rest with
        | '-' :: more => (true, more)
        | '+' :: more => (false, more)
        | _ => (false, rest)
      let digits := digitsOf rest
      if digits.isEmpty then none else some (some (minus, digits), rest.drop digits.length)
    else some (none, cs)
  | [] => some (none, [])

/-- Read a number, and count its characters. -/
def readNumber (cs : List Char) : Option (Document × Nat) := do
  let (negative, body) :=
    match cs with
    | '-' :: rest => (true, rest)
    | _ => (false, cs)
  let whole := digitsOf body
  if whole.isEmpty || (whole.head? == some '0' && 1 < whole.length) then
    none
  let (places, rest) ← readPlaces (body.drop whole.length)
  let (exponent, rest) ← readExponent rest
  let n : Numeral := { negative, whole, places, exponent }
  return (n.value, cs.length - rest.length)

/-! ## Tokens -/

/-- Blanks between tokens. -/
def isSpace (c : Char) : Bool := c == ' ' || c == '\n' || c == '\t' || c == '\r'

/-- The token that starts with `c`, and how many more characters it has. -/
def nextToken (c : Char) (cs : List Char) : Option (Token × Nat) :=
  let word (rest : String) (d : Document) : Option (Token × Nat) :=
    if rest.toList.isPrefixOf cs then some (.scalar d, rest.length) else none
  match c with
  | '[' => some (.openList, 0)
  | ']' => some (.closeList, 0)
  | '\x7b' => some (.openMap, 0)
  | '\x7d' => some (.closeMap, 0)
  | ':' => some (.colon, 0)
  | ',' => some (.comma, 0)
  | 't' => word "rue" (.bool true)
  | 'f' => word "alse" (.bool false)
  | 'n' => word "ull" .null
  | '"' => (readString (some []) 0 cs).map fun (d, n) => (.string d, n)
  | _ => (readNumber (c :: cs)).map fun (d, n) => (.scalar d, n - 1)

/-- The tokens of a text. -/
def tokens (cs : List Char) : Option (List Token) :=
  match cs with
  | [] => some []
  | c :: rest =>
    if isSpace c then tokens rest
    else
      match nextToken c rest with
      | none => none
      | some (t, n) => (tokens (rest.drop n)).map (t :: ·)
termination_by cs.length
decreasing_by all_goals simp; try omega

/-! ## Trees -/

/-- What is left of some tokens after at least one has been read. -/
abbrev After (ts : List Token) := { rest : List Token // rest.length < ts.length }

mutual

/-- Read a value. -/
def readValue (ts : List Token) : Option (Document × After ts) :=
  match ts with
  | .string d :: rest | .scalar d :: rest => some (d, ⟨rest, by simp⟩)
  | .openList :: .closeList :: rest =>
    some (.list [], ⟨rest, by simp only [List.length_cons]; omega⟩)
  | .openMap :: .closeMap :: rest => some (.map [], ⟨rest, by simp only [List.length_cons]; omega⟩)
  | .openList :: rest => do
    let (items, ⟨more, h⟩) ← readItems rest
    return (.list items, ⟨more, by simp; omega⟩)
  | .openMap :: rest => do
    let (entries, ⟨more, h⟩) ← readEntries rest
    return (.map entries, ⟨more, by simp; omega⟩)
  | _ => none
termination_by (ts.length, 0)

/-- Read the values of a list up to its end. -/
def readItems (ts : List Token) : Option (List Document × After ts) := do
  let (d, ⟨rest, h⟩) ← readValue ts
  match rest, h with
  | .closeList :: more, h => some ([d], ⟨more, by simp at h; omega⟩)
  | .comma :: more, h => do
    let (items, ⟨last, h'⟩) ← readItems more
    return (d :: items, ⟨last, by simp at h; omega⟩)
  | _, _ => none
termination_by (ts.length, 1)
decreasing_by
  · exact Prod.Lex.right _ (by simp)
  · exact Prod.Lex.left _ _ (by simp at h; omega)

/-- Read the entries of a map up to its end. -/
def readEntries (ts : List Token) : Option (List (Document × Document) × After ts) :=
  match ts with
  | .string key :: .colon :: rest => do
    let (d, ⟨rest', h⟩) ← readValue rest
    match rest', h with
    | .closeMap :: more, h => some ([(key, d)], ⟨more, by simp at h ⊢; omega⟩)
    | .comma :: more, h => do
      have : more.length < rest.length := by simp at h; omega
      let (entries, ⟨last, h'⟩) ← readEntries more
      return ((key, d) :: entries, ⟨last, by simp; omega⟩)
    | _, _ => none
  | _ => none
termination_by (ts.length, 1)

end

/-- How deeply lists and maps may be nested. -/
def maxDepth : Nat := 127

/-- Read a document. -/
def parse (s : String) : Option Document := do
  let ts ← tokens s.toList
  let (d, ⟨rest, _⟩) ← readValue ts
  if rest.isEmpty then some (d.limit maxDepth) else none

end Retarget.Json
